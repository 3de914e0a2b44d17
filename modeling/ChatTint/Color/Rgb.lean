/-!
# Colours of three bytes, and their hexadecimal text

A colour is written as `#` and six hexadecimal digits, two for each channel.
A reader also takes the short form of three digits, in which each digit stands
for itself doubled, and digits of either case; the writer uses the long form
and small letters only.

## Main definitions

* `hexValue?`, `hexDigit` — the digits and their values.
* `Rgb` — a colour.
* `Rgb.ofDigits?` — the colour that three or six digits spell.
* `Rgb.text` — the text of a colour, with its number sign.
-/

namespace ChatTint

/-! ### Hexadecimal digits -/

/-- The value of a hexadecimal digit of either case. -/
def hexValue? (c : Char) : Option Nat :=
  if '0' ≤ c ∧ c ≤ '9' then some (c.toNat - 48)
  else if 'a' ≤ c ∧ c ≤ 'f' then some (c.toNat - 87)
  else if 'A' ≤ c ∧ c ≤ 'F' then some (c.toNat - 55)
  else none

/-- Whether a character is a hexadecimal digit. -/
def isHexDigit (c : Char) : Bool := (hexValue? c).isSome

/-- The digit of a value below sixteen, with small letters. -/
def hexDigit (n : Nat) : Char :=
  if n < 10 then Char.ofNat (48 + n) else Char.ofNat (87 + n)

/-- The digit of a value reads back as that value. -/
theorem hexValue?_hexDigit : ∀ n < 16, hexValue? (hexDigit n) = some n := by decide

/-- The two digits of a byte, the high half first. -/
def hexPair (b : UInt8) : List Char := [hexDigit (b.toNat / 16), hexDigit (b.toNat % 16)]

/-- The byte that two digits spell. -/
def byteOfHex? (high low : Char) : Option UInt8 := do
  let h ← hexValue? high
  let l ← hexValue? low
  return UInt8.ofNat (16 * h + l)

/-! ### Colours -/

/-- A colour, given by the strength of its three lights. -/
structure Rgb where
  /-- The red light. -/
  red : UInt8
  /-- The green light. -/
  green : UInt8
  /-- The blue light. -/
  blue : UInt8
deriving DecidableEq

namespace Rgb

/-- The colour that six digits spell, or three digits each of which is doubled.
Any other text is no colour. -/
def ofDigits? : List Char → Option Rgb
  | [r, g, b] => do return ⟨← byteOfHex? r r, ← byteOfHex? g g, ← byteOfHex? b b⟩
  | [r, r', g, g', b, b'] => do
    return ⟨← byteOfHex? r r', ← byteOfHex? g g', ← byteOfHex? b b'⟩
  | _ => none

/-- The six digits of a colour. -/
def digits (c : Rgb) : List Char := hexPair c.red ++ hexPair c.green ++ hexPair c.blue

/-- The text of a colour: its six digits behind a number sign. -/
def text (c : Rgb) : List Char := '#' :: c.digits

@[simp] theorem length_digits (c : Rgb) : c.digits.length = 6 := rfl

end Rgb
end ChatTint
