import ChatTint.Proofs.Color.Spelling
import ChatTint.Proofs.Text.Slices

/-!
# How the text of a colour is read

Three or six digits spell a colour, and nothing else does.  A machine that holds the text as
bytes looks at the characters first.  If all of them are digits, it goes by the number of
bytes and reads each channel from a slice; the value of a single digit is multiplied by
seventeen, which doubles the digit.  In general a slice may begin inside a character, a number
may be read from a text with a sign, and a product may be too large for a byte.  Once all
characters are known to be digits none of this happens, and the machine reads what the digits
spell.

A text that names a colour, by digits or by name, is reduced to the colour's own spelling.
The spelling spells the colour again and no other, so that two texts are reduced to the same
spelling if and only if they name the same colour.

## Main definitions

* `Rgb.double` — digits written twice each.
* `byteOfDigits?`, `timesInByte?` — reading and multiplying within a byte.
* `Rgb.Stop`, `Rgb.ofSlices` — a colour read from slices, and why the reading stops.

## Main results

* `Rgb.isSome_ofDigits?_iff` — the texts that spell a colour.
* `Rgb.ofSlices_eq` — reading from slices stops for nothing but a text that spells no colour.
* `color_text_exact` — which texts name a colour, and their one spelling.
-/

namespace ChatTint

/-! ### The texts that spell a colour -/

namespace Rgb

/-- The digits with each of them written twice. -/
def double (ds : List Char) : List Char := ds.flatMap fun d => [d, d]

theorem length_double (ds : List Char) : (double ds).length = 2 * ds.length := by
  induction ds with
  | nil => rfl
  | cons d ds ih =>
    show (double ds).length + 2 = 2 * (ds.length + 1)
    omega

theorem mem_double {ds : List Char} {d : Char} : d ∈ double ds ↔ d ∈ ds := by
  simp [double]

/-- Three digits stand for the six that double them. -/
theorem ofDigits?_double {ds : List Char} (hlength : ds.length = 3) :
    ofDigits? (double ds) = ofDigits? ds := by
  match ds, hlength with
  | [_, _, _], _ => rfl

theorem length_of_ofDigits? {ds : List Char} {c : Rgb} (h : ofDigits? ds = some c) :
    ds.length = 3 ∨ ds.length = 6 := by
  unfold ofDigits? at h
  split at h
  · exact Or.inl rfl
  · exact Or.inr rfl
  · exact absurd h (Option.some_ne_none _).symm

/-- Six characters spell a colour if they are digits. -/
theorem isSome_ofDigits?_of_six {ds : List Char} (hlength : ds.length = 6) :
    (ofDigits? ds).isSome = true ↔ ∀ d ∈ ds, isHexDigit d = true := by
  rw [Option.isSome_iff_exists]
  constructor
  · rintro ⟨c, hc⟩
    exact isHexDigit_of_map_hexValue? ((ofDigits?_eq_some_iff hlength).mp hc)
  · exact exists_ofDigits? hlength

/-- **Three or six digits spell a colour, and nothing else does.** -/
theorem isSome_ofDigits?_iff {ds : List Char} :
    (ofDigits? ds).isSome = true ↔
      (ds.length = 3 ∨ ds.length = 6) ∧ ∀ d ∈ ds, isHexDigit d = true := by
  by_cases hthree : ds.length = 3
  · have hdouble : (double ds).length = 6 := by rw [length_double, hthree]
    rw [← ofDigits?_double hthree, isSome_ofDigits?_of_six hdouble]
    simp only [mem_double, hthree, true_or, true_and]
  · by_cases hsix : ds.length = 6
    · simp only [isSome_ofDigits?_of_six hsix, hsix, or_true, true_and]
    · refine iff_of_false ?_ fun h => h.1.elim hthree hsix
      intro h
      obtain ⟨c, hc⟩ := Option.isSome_iff_exists.mp h
      exact (length_of_ofDigits? hc).elim hthree hsix

/-- Texts that differ in case spell the same colour, or none. -/
theorem ofDigits?_of_lowercase_eq {ds ds' : List Char} (h : lowercase ds' = lowercase ds) :
    ofDigits? ds' = ofDigits? ds := by
  rw [← ofDigits?_lowercase, h, ofDigits?_lowercase]

end Rgb

/-! ### Reading and multiplying within a byte -/

/-- A value with one more digit behind it, if a byte holds it. -/
def appendDigit? (value : Nat) (d : Char) : Option Nat := do
  let last ← hexValue? d
  if 16 * value + last < 256 then some (16 * value + last) else none

/-- The byte that a text spells as a number: hexadecimal digits, perhaps behind a plus sign,
and not too many. -/
def byteOfDigits? (s : List Char) : Option UInt8 :=
  let digits := if s.head? = some '+' then s.tail else s
  if digits.isEmpty then none else (digits.foldlM appendDigit? 0).map UInt8.ofNat

/-- The product of two bytes, if a byte holds it. -/
def timesInByte? (a b : UInt8) : Option UInt8 :=
  if a.toNat * b.toNat < 256 then some (a * b) else none

/-- No digit is a plus sign. -/
theorem byteOfDigits?_cons {d : Char} (hd : isHexDigit d = true) (s : List Char) :
    byteOfDigits? (d :: s) = ((d :: s).foldlM appendDigit? 0).map UInt8.ofNat := by
  have hplus : d ≠ '+' := by
    rintro rfl
    exact absurd hd (by decide)
  simp [byteOfDigits?, hplus]

/-- There is room for a digit behind a single one. -/
theorem appendDigit?_of_lt {value n : Nat} {d : Char} (hvalue : value < 16)
    (hd : hexValue? d = some n) : appendDigit? value d = some (16 * value + n) := by
  have hn16 := (of_hexValue? hd).1
  rw [appendDigit?, hd, Option.bind_eq_bind, Option.bind_some, if_pos (by omega)]

theorem appendDigit?_zero {n : Nat} {d : Char} (hd : hexValue? d = some n) :
    appendDigit? 0 d = some n := by
  rw [appendDigit?_of_lt (by omega) hd, Nat.mul_zero, Nat.zero_add]

/-- What two digits spell as a number is the byte with their values as halves. -/
theorem byteOfDigits?_pair {high low : Char} (hhigh : isHexDigit high = true)
    (hlow : isHexDigit low = true) : byteOfDigits? [high, low] = byteOfHex? high low := by
  obtain ⟨m, hm⟩ := Option.isSome_iff_exists.mp hhigh
  obtain ⟨n, hn⟩ := Option.isSome_iff_exists.mp hlow
  have hlast : appendDigit? m low = some (16 * m + n) :=
    appendDigit?_of_lt (of_hexValue? hm).1 hn
  rw [byteOfDigits?_cons hhigh, List.foldlM_cons, appendDigit?_zero hm, Option.bind_eq_bind,
    Option.bind_some, List.foldlM_cons, hlast, byteOfHex?, hm, hn]
  rfl

/-- **Seventeen times the value of a digit spells the digit doubled**, and a byte holds it. -/
theorem timesInByte?_seventeen {d : Char} (hd : isHexDigit d = true) :
    ∃ value, byteOfDigits? [d] = some value ∧ timesInByte? value 17 = byteOfHex? d d := by
  obtain ⟨n, hn⟩ := Option.isSome_iff_exists.mp hd
  have hn16 := (of_hexValue? hn).1
  have hvalue : (UInt8.ofNat n).toNat = n := by
    rw [UInt8.toNat_ofNat']
    omega
  have hseventeen : (17 : UInt8).toNat = 17 := rfl
  have hproduct : UInt8.ofNat n * 17 = UInt8.ofNat (16 * n + n) := by
    rw [← UInt8.toNat_inj, UInt8.toNat_mul, hvalue, hseventeen, UInt8.toNat_ofNat']
    omega
  refine ⟨UInt8.ofNat n, ?_, ?_⟩
  · rw [byteOfDigits?_cons hd, List.foldlM_cons, appendDigit?_zero hn]
    rfl
  · rw [timesInByte?, hvalue, hseventeen, if_pos (by omega), hproduct, byteOfHex?, hn]
    rfl

/-- A value that is no digit's need not fit. -/
example : timesInByte? 16 17 = none := by decide

/-! ### Reading from slices -/

namespace Rgb

/-- Why the reading of a colour stops. -/
inductive Stop where
  /-- The text spells no colour. -/
  | noColor
  /-- A slice would begin or end inside a character, or beyond the text. -/
  | insideCharacter
  /-- A product is too large for a byte. -/
  | tooLarge
deriving DecidableEq

/-- The number that the slice between two offsets spells. -/
def numberAt (s : List Char) (start stop : Nat) : Except Stop UInt8 := do
  let piece ← (slice? s start stop).getDM (.error .insideCharacter)
  (byteOfDigits? piece).getDM (.error .noColor)

/-- The channel that the slice of a single digit spells. -/
def doubledAt (s : List Char) (start stop : Nat) : Except Stop UInt8 := do
  let value ← numberAt s start stop
  (timesInByte? value 17).getDM (.error .tooLarge)

/-- The colour of a text, read from slices by the number of its bytes. -/
def ofSlices (s : List Char) : Except Stop Rgb :=
  if s.all isHexDigit then
    match utf8Size s with
    | 3 => do return ⟨← doubledAt s 0 1, ← doubledAt s 1 2, ← doubledAt s 2 3⟩
    | 6 => do return ⟨← numberAt s 0 2, ← numberAt s 2 4, ← numberAt s 4 6⟩
    | _ => .error .noColor
  else .error .noColor

section Digits

variable {s : List Char} (hdigits : ∀ d ∈ s, isHexDigit d = true)
include hdigits

theorem utf8Size_of_digits : utf8Size s = s.length :=
  utf8Size_of_ascii fun d hd => toNat_lt_of_isHexDigit (hdigits d hd)

/-- A number is read from every slice of digits that is in range. -/
theorem numberAt_of_digits {start stop : Nat} (hstart : start ≤ stop) (hstop : stop ≤ s.length) :
    numberAt s start stop =
      (byteOfDigits? ((s.take stop).drop start)).getDM (.error .noColor) := by
  have hascii : ∀ d ∈ s, d.toNat < 128 := fun d hd => toNat_lt_of_isHexDigit (hdigits d hd)
  rw [numberAt, slice?_of_ascii hascii hstart hstop]
  rfl

/-- Digits are found in slices of digits. -/
theorem isHexDigit_of_slice {start stop : Nat} {piece : List Char}
    (hpiece : (s.take stop).drop start = piece) : ∀ d ∈ piece, isHexDigit d = true := by
  intro d hd
  rw [← hpiece] at hd
  exact hdigits d (List.mem_of_mem_take (List.mem_of_mem_drop hd))

/-- A channel is read from a slice of two digits. -/
theorem numberAt_pair {start stop : Nat} (hstart : start ≤ stop) (hstop : stop ≤ s.length)
    {high low : Char} (hpiece : (s.take stop).drop start = [high, low]) {n : UInt8}
    (hn : byteOfHex? high low = some n) : numberAt s start stop = .ok n := by
  have hpair := isHexDigit_of_slice hdigits hpiece
  rw [numberAt_of_digits hdigits hstart hstop, hpiece,
    byteOfDigits?_pair (hpair high (by simp)) (hpair low (by simp)), hn]
  rfl

/-- A channel is read from a slice of one digit. -/
theorem doubledAt_single {start stop : Nat} (hstart : start ≤ stop) (hstop : stop ≤ s.length)
    {d : Char} (hpiece : (s.take stop).drop start = [d]) {n : UInt8}
    (hn : byteOfHex? d d = some n) : doubledAt s start stop = .ok n := by
  have hd := isHexDigit_of_slice hdigits hpiece d (List.mem_singleton_self d)
  obtain ⟨value, hvalue, htimes⟩ := timesInByte?_seventeen hd
  rw [doubledAt, numberAt_of_digits hdigits hstart hstop, hpiece, hvalue]
  show (timesInByte? value 17).getDM (Except.error Stop.tooLarge) = Except.ok n
  rw [htimes, hn]
  rfl

end Digits

/-- What digits spell is read from their slices. -/
theorem ofSlices_of_ofDigits? {s : List Char} {c : Rgb} (h : ofDigits? s = some c) :
    ofSlices s = .ok c := by
  obtain ⟨-, hdigits⟩ := isSome_ofDigits?_iff.mp (Option.isSome_of_eq_some h)
  rw [ofSlices, if_pos (List.all_eq_true.mpr hdigits), utf8Size_of_digits hdigits]
  unfold ofDigits? at h
  split at h
  · next r g b =>
    obtain ⟨red, hred, h⟩ := Option.bind_eq_some_iff.mp h
    obtain ⟨green, hgreen, h⟩ := Option.bind_eq_some_iff.mp h
    obtain ⟨blue, hblue, h⟩ := Option.bind_eq_some_iff.mp h
    cases h
    simp only [List.length_cons, List.length_nil]
    rw [doubledAt_single hdigits (by omega) (by simp) rfl hred,
      doubledAt_single hdigits (by omega) (by simp) rfl hgreen,
      doubledAt_single hdigits (by omega) (by simp) rfl hblue]
    rfl
  · next r r' g g' b b' =>
    obtain ⟨red, hred, h⟩ := Option.bind_eq_some_iff.mp h
    obtain ⟨green, hgreen, h⟩ := Option.bind_eq_some_iff.mp h
    obtain ⟨blue, hblue, h⟩ := Option.bind_eq_some_iff.mp h
    cases h
    simp only [List.length_cons, List.length_nil]
    rw [numberAt_pair hdigits (by omega) (by simp) rfl hred,
      numberAt_pair hdigits (by omega) (by simp) rfl hgreen,
      numberAt_pair hdigits (by omega) (by simp) rfl hblue]
    rfl
  · exact absurd h (Option.some_ne_none _).symm

/-- **Reading from slices stops for nothing but a text that spells no colour**, and else
gives the colour that the digits spell. -/
theorem ofSlices_eq (s : List Char) : ofSlices s = (ofDigits? s).getDM (.error .noColor) := by
  cases hs : ofDigits? s with
  | some c => exact ofSlices_of_ofDigits? hs
  | none =>
    show ofSlices s = .error .noColor
    unfold ofSlices
    split
    · next hall =>
      have hdigits : ∀ d ∈ s, isHexDigit d = true := List.all_eq_true.mp hall
      -- digits of another number spell nothing
      have hlength : ¬ (s.length = 3 ∨ s.length = 6) := by
        intro hlength
        have hsome := isSome_ofDigits?_iff.mpr ⟨hlength, hdigits⟩
        rw [hs] at hsome
        exact absurd hsome Bool.false_ne_true
      rw [utf8Size_of_digits hdigits]
      split
      · omega
      · omega
      · rfl
    · rfl

end Rgb

/-! ### The one spelling of a text that names a colour -/

/-- Two texts have the same spelling if and only if they name the same colour. -/
theorem same_spelling_iff {s t : List Char} :
    (∃ spelling, colorSpelling? s = some spelling ∧ colorSpelling? t = some spelling) ↔
      ∃ c, Color.ofText? s = some c ∧ Color.ofText? t = some c := by
  constructor
  · rintro ⟨spelling, hs, ht⟩
    -- the spelling of the one text is that of a colour, which the other text names too
    obtain ⟨c, hc, rfl⟩ := Option.map_eq_some_iff.mp hs
    exact ⟨c, hc, colorSpelling?_eq_some_iff.mp ht⟩
  · rintro ⟨c, hs, ht⟩
    exact ⟨c.name, colorSpelling?_eq_some_iff.mpr hs, colorSpelling?_eq_some_iff.mpr ht⟩

/-- **Which texts name a colour, and their one spelling.**  Behind a number sign, three or
six digits of ASCII spell a colour, and nothing else does.  The case of the digits does not
matter, and three of them stand for the six that double each.  A machine that reads channels
from slices of bytes, and multiplies the value of a single digit by seventeen, comes to the
same; no slice is taken off the boundary of a character, and every product fits a byte.  A
text that names a colour, by digits or by name, is reduced to a spelling that names this
colour.  Two texts are reduced to the same spelling if and only if they name the same
colour. -/
theorem color_text_exact (digits s t : List Char) :
    ((Rgb.ofDigits? digits).isSome = true ↔
      (digits.length = 3 ∨ digits.length = 6) ∧ ∀ d ∈ digits, d ∈ hexDigitChars) ∧
    (∀ digits', lowercase digits' = lowercase digits →
      Rgb.ofDigits? digits' = Rgb.ofDigits? digits) ∧
    (digits.length = 3 → Rgb.ofDigits? (Rgb.double digits) = Rgb.ofDigits? digits) ∧
    Rgb.ofSlices digits = (Rgb.ofDigits? digits).getDM (.error .noColor) ∧
    (∀ c, Color.ofText? s = some c →
      colorSpelling? s = some c.name ∧ Color.ofText? c.name = some c) ∧
    ((∃ spelling, colorSpelling? s = some spelling ∧ colorSpelling? t = some spelling) ↔
      ∃ c, Color.ofText? s = some c ∧ Color.ofText? t = some c) := by
  refine ⟨?_, fun _ hcase => Rgb.ofDigits?_of_lowercase_eq hcase, Rgb.ofDigits?_double,
    Rgb.ofSlices_eq digits, ?_, same_spelling_iff⟩
  · simp only [← isHexDigit_iff_mem]
    exact Rgb.isSome_ofDigits?_iff
  · intro c hc
    exact ⟨colorSpelling?_eq_some_iff.mpr hc, c.ofText?_name⟩

theorem color_text_exact_short_digits :
    let digits := "fA0".toList
    let s := "#FA0".toList
    let t := "#ffaa00".toList
    let c : Rgb := ⟨255, 170, 0⟩
    lowercase "Fa0".toList = lowercase digits ∧
    Rgb.ofDigits? "Fa0".toList = Rgb.ofDigits? digits ∧
    digits.length = 3 ∧
    Rgb.ofDigits? "ffAA00".toList = Rgb.ofDigits? digits ∧
    Rgb.ofSlices digits = .ok c ∧
    Color.ofText? s = some (.rgb c) ∧
    colorSpelling? s = some t ∧ Color.ofText? t = some (.rgb c) ∧
    ¬ ∃ spelling, colorSpelling? s = some spelling ∧
      colorSpelling? "gold".toList = some spelling := by
  intro digits s t c
  obtain ⟨-, hcase, hdouble, hslices, hname, hsame⟩ :=
    color_text_exact digits s "gold".toList
  have hlower : lowercase "Fa0".toList = lowercase digits := rfl
  have hs : Color.ofText? s = some (.rgb c) := rfl
  have ht : (Color.rgb c).name = t := by decide
  obtain ⟨hspelling, hagain⟩ := hname _ hs
  rw [ht] at hspelling hagain
  refine ⟨hlower, hcase _ hlower, rfl, hdouble rfl, hslices, hs, hspelling, hagain, ?_⟩
  -- the palette colour that looks the same is another colour of text
  rw [hsame]
  rintro ⟨c', hdigits, hgold⟩
  rw [hs] at hdigits
  cases hdigits
  exact absurd hgold (by decide)

end ChatTint
