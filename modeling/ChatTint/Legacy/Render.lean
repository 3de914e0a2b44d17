import ChatTint.Legacy.HexCode

/-!
# Codes as escape sequences

Text with codes is shown on a terminal in two steps.  First every hex code
becomes the sequence of its colour, then every legacy code that is left becomes
the sequence of its rendition.  Codes are taken from the left, none overlapping
another; a section sign that starts no code is text.

* `renderHexCodes`, `renderCodes` — the two steps.
* `render` — both.
* `hasCode` — whether a legacy code occurs.
-/

namespace ChatTint

/-- The text with each hex code replaced by the sequence of its colour. -/
def renderHexCodes : List Char → List Char
  | [] => []
  | c :: s =>
    match _h : HexCode.read? (c :: s) with
    | some (color, rest) => (Rendition.trueColor color).escape ++ renderHexCodes rest
    | none => c :: renderHexCodes s
termination_by s => s.length
decreasing_by
  · have := HexCode.length_of_read? _h
    simp only [HexCode.size] at this
    omega
  · simp

/-- The text with each legacy code replaced by the sequence of its rendition. -/
def renderCodes : List Char → List Char
  | [] => []
  | [c] => [c]
  | c :: d :: s =>
    if c = sectionSign ∧ isCodeChar d then
      (Code.ofSymbol d).rendition.escape ++ renderCodes s
    else c :: renderCodes (d :: s)

/-- The text with all its codes replaced by escape sequences. -/
def render (s : List Char) : List Char := renderCodes (renderHexCodes s)

/-- Whether a legacy code occurs in the text. -/
def hasCode : List Char → Bool
  | [] => false
  | [_] => false
  | c :: d :: s => (c == sectionSign && isCodeChar d) || hasCode (d :: s)

end ChatTint
