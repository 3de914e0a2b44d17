/-!
# The tokens of markup

Markup is text with tags in angle brackets.  An opening bracket starts a tag if
the next bracket of either kind closes it; otherwise it is a character like any
other.  A backslash directly before an opening bracket makes the bracket a
character and is itself dropped.  What stands between the brackets of a tag is
either a tag text (`isTagText`), a slash and a tag text, or something else; a
tag of the last kind is kept as it was written.

## Main definitions

* `isTagText` — the texts that can name a tag.
* `Token` — the tokens, with `Token.source`, the text that each was read from.
* `tokenize` — the tokens of a text.

## Main results

* `source_tokenize` — the tokens' sources make up the text: nothing is lost.
-/

namespace ChatTint

/-! ### Tag texts -/

/-- Whether a character may start a tag text: a small letter, an underscore or a
number sign. -/
def isTagStart (c : Char) : Bool := c.isLower || c == '_' || c == '#'

/-- Whether a character may go on with a tag text. -/
def isTagChar (c : Char) : Bool := c.isAlphanum || c == '_' || c == '-' || c == ':' || c == '#'

/-- Whether a text can stand in a tag. -/
def isTagText : List Char → Bool
  | [] => false
  | c :: s => isTagStart c && s.all isTagChar

/-! ### Tokens -/

/-- A piece of markup. -/
inductive Token where
  /-- Characters that mean themselves. -/
  | text (text : List Char)
  /-- A bracket that a backslash makes a character. -/
  | escapedBracket
  /-- A tag that opens. -/
  | openTag (tag : List Char)
  /-- A tag that closes. -/
  | closeTag (tag : List Char)
  /-- Brackets around what is no tag text. -/
  | badTag (content : List Char)
deriving DecidableEq

namespace Token

/-- The token of a tag, by what stands between its brackets. -/
def ofContent : List Char → Token
  | [] => badTag []
  | c :: s =>
    if c = '/' then if isTagText s then closeTag s else badTag (c :: s)
    else if isTagText (c :: s) then openTag (c :: s) else badTag (c :: s)

/-- The text that a token was read from. -/
def source : Token → List Char
  | text s => s
  | escapedBracket => ['\\', '<']
  | openTag tag => '<' :: (tag ++ ['>'])
  | closeTag tag => '<' :: '/' :: (tag ++ ['>'])
  | badTag content => '<' :: (content ++ ['>'])

theorem source_ofContent (content : List Char) :
    (ofContent content).source = '<' :: (content ++ ['>']) := by
  cases content with
  | nil => rfl
  | cons c s =>
    simp only [ofContent]
    split
    · next h => split <;> simp [source, h]
    · split <;> simp [source]

end Token

/-! ### Reading tokens -/

/-- What stands between an opening bracket and the next bracket, and what is behind
it, if that bracket closes. -/
def splitContent? : List Char → Option (List Char × List Char)
  | [] => none
  | c :: s =>
    if c = '>' then some ([], s)
    else if c = '<' then none
    else (splitContent? s).map fun (content, rest) => (c :: content, rest)

/-- The characters before the next opening bracket, or before the backslash that
escapes it, and the rest. -/
def splitRun : List Char → List Char × List Char
  | [] => ([], [])
  | [c] => if c = '<' then ([], [c]) else ([c], [])
  | c :: d :: s =>
    if c = '<' ∨ (c = '\\' ∧ d = '<') then ([], c :: d :: s)
    else (c :: (splitRun (d :: s)).1, (splitRun (d :: s)).2)

/-- The parts of a tag and the rest make up the text. -/
theorem append_splitContent? {s content rest : List Char}
    (h : splitContent? s = some (content, rest)) : content ++ '>' :: rest = s := by
  induction s generalizing content with
  | nil => simp [splitContent?] at h
  | cons c s ih =>
    simp only [splitContent?] at h
    split at h
    · next hc =>
      simp only [Option.some.injEq, Prod.mk.injEq] at h
      obtain ⟨rfl, rfl⟩ := h
      simp [hc]
    · split at h
      · simp at h
      · obtain ⟨⟨content', rest'⟩, h', he⟩ := Option.map_eq_some_iff.mp h
        simp only [Prod.mk.injEq] at he
        obtain ⟨rfl, rfl⟩ := he
        simp [ih h']

/-- A run and the rest make up the text. -/
theorem append_splitRun (s : List Char) : (splitRun s).1 ++ (splitRun s).2 = s := by
  fun_induction splitRun s with
  | case1 => rfl
  | case2 => rfl
  | case3 => rfl
  | case4 => rfl
  | case5 c d s h ih => simpa using ih

theorem length_splitContent?_lt {s content rest : List Char}
    (h : splitContent? s = some (content, rest)) : rest.length < s.length := by
  rw [← append_splitContent? h]
  simp only [List.length_append, List.length_cons]
  omega

theorem length_splitRun_le (s : List Char) : (splitRun s).2.length ≤ s.length := by
  have h := congrArg List.length (append_splitRun s)
  simp only [List.length_append] at h
  omega

/-- The tokens of a text. -/
def tokenize : List Char → List Token
  | [] => []
  | c :: s =>
    if c = '\\' ∧ s.head? = some '<' then .escapedBracket :: tokenize s.tail
    else if c = '<' then
      match _h : splitContent? s with
      | some (content, rest) => .ofContent content :: tokenize rest
      | none => .text ['<'] :: tokenize s
    else .text (c :: (splitRun s).1) :: tokenize (splitRun s).2
termination_by s => s.length
decreasing_by
  · simp only [List.length_tail, List.length_cons]
    omega
  · have := length_splitContent?_lt _h
    simp only [List.length_cons]
    omega
  · simp
  · have := length_splitRun_le s
    simp only [List.length_cons]
    omega

/-- The tokens' sources make up the text. -/
theorem source_tokenize (s : List Char) : (tokenize s).flatMap Token.source = s := by
  fun_induction tokenize s with
  | case1 => rfl
  | case2 c s h ih =>
    obtain ⟨rfl, hs⟩ := h
    obtain ⟨t, rfl⟩ := List.head?_eq_some_iff.mp hs
    rw [List.flatMap_cons, ih]
    rfl
  | case3 s content rest h _ ih =>
    rw [List.flatMap_cons, ih, Token.source_ofContent]
    simp [append_splitContent? h]
  | case4 s h _ ih =>
    rw [List.flatMap_cons, ih]
    rfl
  | case5 c s h₁ h₂ ih =>
    rw [List.flatMap_cons, ih]
    simp [Token.source, append_splitRun]

end ChatTint
