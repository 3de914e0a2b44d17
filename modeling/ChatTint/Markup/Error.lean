/-!
# Why markup is rejected

Most of what looks odd is kept as text.  Only a tag that is known and cannot be
obeyed rejects a text: a colour tag without a colour, and a closing tag that has
nothing to close.
-/

namespace ChatTint

/-- The reason for which a text is no markup. -/
inductive MarkupError where
  /-- A colour tag whose colour is missing or none. -/
  | invalidColor (tag : List Char)
  /-- A closing tag of a known name, with nothing open that it closes. -/
  | unmatchedClose (tag : List Char)
deriving DecidableEq

namespace MarkupError

/-- The tag text of the tag at fault, as it was written. -/
def tag : MarkupError → List Char
  | invalidColor tag => tag
  | unmatchedClose tag => tag

/-- The reason in words. -/
def message : MarkupError → String
  | invalidColor tag => "invalid color in tag <" ++ String.ofList tag ++ ">"
  | unmatchedClose tag => "closing tag </" ++ String.ofList tag ++ "> has no matching open tag"

end MarkupError
end ChatTint
