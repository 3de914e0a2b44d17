import ChatTint.Legacy.Code

/-!
# Hex codes

Legacy text has no code for a colour outside the palette.  Such a colour is
written as a run of seven codes in a row: `x`, and then each of the six
hexadecimal digits, every one of them behind a section sign of its own.

* `HexCode.ofRgb` — the hex code of a colour.
* `HexCode.read?` — a hex code at the start of a text, with the text behind it.
* `HexCode.toRgb?` — the colour of a text that is one hex code and nothing else, read
  pair by pair.
-/

namespace ChatTint
namespace HexCode

/-- The digits of a run, each behind a section sign. -/
def spaced (digits : List Char) : List Char := digits.flatMap fun d => [sectionSign, d]

/-- The hex code of a colour, with small letters. -/
def ofRgb (c : Rgb) : List Char := sectionSign :: 'x' :: spaced c.digits

/-- The length of every hex code. -/
def size : Nat := 14

/-- Reads `n` hexadecimal digits, each behind a section sign, and returns them with
the text behind. -/
def readDigits? : Nat → List Char → Option (List Char × List Char)
  | 0, s => some ([], s)
  | n + 1, mark :: d :: s =>
    if mark = sectionSign ∧ isHexDigit d then
      (readDigits? n s).map fun (ds, rest) => (d :: ds, rest)
    else none
  | _ + 1, _ => none

/-- Reads a hex code at the start of a text, and returns its colour with the text
behind it.  The `x` and the digits may be of either case. -/
def read? : List Char → Option (Rgb × List Char)
  | mark :: x :: s =>
    if mark = sectionSign ∧ (x = 'x' ∨ x = 'X') then do
      let (digits, rest) ← readDigits? 6 s
      return (← Rgb.ofDigits? digits, rest)
    else none
  | _ => none

/-- The digits of a text that is nothing but digits, each behind a section sign. -/
def spacedDigits? : List Char → Option (List Char)
  | [] => some []
  | [_] => none
  | mark :: d :: s =>
    if mark = sectionSign ∧ isHexDigit d then (spacedDigits? s).map fun ds => d :: ds else none

/-- The colour of a text that is exactly one hex code.  All of the text is read as digits
behind section signs before they are counted. -/
def toRgb? : List Char → Option Rgb
  | mark :: x :: s =>
    if mark = sectionSign ∧ (x = 'x' ∨ x = 'X') then do
      let digits ← spacedDigits? s
      if digits.length = 6 then Rgb.ofDigits? digits else none
    else none
  | _ => none

/-- Reading digits takes two characters for each. -/
theorem length_of_readDigits? {n : Nat} {s ds rest : List Char}
    (h : readDigits? n s = some (ds, rest)) : s.length = 2 * n + rest.length := by
  induction n generalizing s ds with
  | zero => simp_all [readDigits?]
  | succ n ih =>
    match s, h with
    | [], h => simp [readDigits?] at h
    | [_], h => simp [readDigits?] at h
    | mark :: d :: s, h =>
      simp only [readDigits?] at h
      split at h
      · obtain ⟨⟨ds', rest'⟩, h', he⟩ := Option.map_eq_some_iff.mp h
        simp only [Prod.mk.injEq] at he
        obtain ⟨-, rfl⟩ := he
        have := ih h'
        simp only [List.length_cons]
        omega
      · simp at h

/-- A hex code takes its full length off the text. -/
theorem length_of_read? {s rest : List Char} {c : Rgb} (h : read? s = some (c, rest)) :
    s.length = size + rest.length := by
  match s, h with
  | [], h => simp [read?] at h
  | [_], h => simp [read?] at h
  | mark :: x :: s, h =>
    simp only [read?] at h
    split at h
    · cases hd : readDigits? 6 s with
      | none => simp [hd] at h
      | some p =>
        obtain ⟨ds, rest'⟩ := p
        cases hc : Rgb.ofDigits? ds with
        | none => simp [hd, hc] at h
        | some c' =>
          simp only [hd, hc, Option.bind_eq_bind, Option.bind_some, Option.pure_def,
            Option.some.injEq, Prod.mk.injEq] at h
          obtain ⟨-, rfl⟩ := h
          have := length_of_readDigits? hd
          simp only [List.length_cons, size]
          omega
    · simp at h

end HexCode
end ChatTint
