import ChatTint.Color.Rgb
import ChatTint.Text.Case

/-!
# The digits of colours

Six digits spell the colour whose channels have the values of the digits as their halves, and
no other text spells it with as many characters, but for the case of its letters.

## Main definitions

* `hexDigitChars` — the hexadecimal digits.
* `Rgb.halves` — the values of a colour's digits.

## Main results

* `of_hexValue?` — a digit in small form is what is written for its value.
* `byteOfHex?_eq_some_iff`, `Rgb.ofDigits?_eq_some_iff` — what digits spell, by their values.
* `Rgb.ofDigits?_digits`, `Rgb.exists_ofDigits?` — the digits of a colour spell it, and any
  six digits spell one.
* `Rgb.ofDigits?_lowercase` — the case of digits does not matter.
-/

namespace ChatTint

/-! ### Digits -/

/-- The hexadecimal digits, of either case. -/
def hexDigitChars : List Char := "0123456789abcdefABCDEF".toList

/-- A hexadecimal digit is a character of ASCII. -/
theorem toNat_lt_of_isHexDigit {c : Char} (h : isHexDigit c = true) : c.toNat < 128 := by
  unfold isHexDigit hexValue? at h
  simp only [Char.le_def, UInt32.le_iff_toNat_le] at h
  have hval : c.toNat = c.val.toNat := rfl
  have h9 : '9'.val.toNat = 57 := rfl
  have hf : 'f'.val.toNat = 102 := rfl
  have hF : 'F'.val.toNat = 70 := rfl
  split at h
  · omega
  · split at h
    · omega
    · split at h
      · omega
      · simp at h

theorem isHexDigit_iff_mem {c : Char} : isHexDigit c = true ↔ c ∈ hexDigitChars := by
  constructor
  · apply mem_of_ascii
    · intro d hd
      exact toNat_lt_of_isHexDigit hd
    · decide +kernel
  · have hall : hexDigitChars.all isHexDigit = true := by decide +kernel
    exact List.all_eq_true.mp hall c

/-- The value of a digit is below sixteen, and its small form is what is written for that
value. -/
theorem of_hexValue? {d : Char} {n : Nat} (h : hexValue? d = some n) :
    n < 16 ∧ d.toLower = hexDigit n := by
  have hmem : d ∈ hexDigitChars := isHexDigit_iff_mem.mp (Option.isSome_of_eq_some h)
  have hall : hexDigitChars.all fun d =>
      (hexValue? d).all fun n => decide (n < 16 ∧ d.toLower = hexDigit n) := by decide +kernel
  have hd := List.all_eq_true.mp hall d hmem
  rw [h, Option.all_some] at hd
  exact of_decide_eq_true hd

/-- The case of a digit does not matter. -/
theorem hexValue?_toLower (c : Char) : hexValue? c.toLower = hexValue? c := by
  cases hvalue : hexValue? c with
  | some n =>
    obtain ⟨hn, hlower⟩ := of_hexValue? hvalue
    rw [hlower, hexValue?_hexDigit n hn]
  | none =>
    -- a small form that is a digit is one of ASCII, and so few characters are tried
    have hall : ∀ n < 128, isHexDigit (Char.ofNat n).toLower = true →
        isHexDigit (Char.ofNat n) = true := by decide +kernel
    rw [Option.eq_none_iff_forall_ne_some]
    intro n hn
    have hlower : isHexDigit c.toLower = true := Option.isSome_of_eq_some hn
    have hc := hall c.toNat (toNat_lt_of_toLower (toNat_lt_of_isHexDigit hlower))
    rw [Char.ofNat_toNat] at hc
    have hdigit : (hexValue? c).isSome = true := hc hlower
    rw [hvalue] at hdigit
    exact absurd hdigit Bool.false_ne_true

theorem isHexDigit_of_map_hexValue? {ds : List Char} {values : List Nat}
    (h : ds.map hexValue? = values.map some) : ∀ d ∈ ds, isHexDigit d = true := by
  intro d hd
  have hmem : hexValue? d ∈ values.map some := h ▸ List.mem_map_of_mem hd
  obtain ⟨value, -, hvalue⟩ := List.mem_map.mp hmem
  exact Option.isSome_of_eq_some hvalue.symm

/-- The small forms of digits are what is written for their values. -/
theorem lowercase_of_map_hexValue? {ds : List Char} {values : List Nat}
    (h : ds.map hexValue? = values.map some) : lowercase ds = values.map hexDigit := by
  induction ds generalizing values with
  | nil =>
    obtain rfl := List.map_eq_nil_iff.mp h.symm
    rfl
  | cons d ds ih =>
    cases values with
    | nil => exact absurd h (List.cons_ne_nil _ _)
    | cons value values =>
      obtain ⟨hd, hds⟩ := List.cons.inj h
      rw [lowercase_cons, (of_hexValue? hd).2, ih hds, List.map_cons]

/-! ### Bytes and colours -/

/-- Two digits spell a byte if their values are its halves. -/
theorem byteOfHex?_eq_some_iff {high low : Char} {b : UInt8} :
    byteOfHex? high low = some b ↔
      hexValue? high = some (b.toNat / 16) ∧ hexValue? low = some (b.toNat % 16) := by
  constructor
  · intro h
    obtain ⟨m, hm, h⟩ := Option.bind_eq_some_iff.mp h
    obtain ⟨n, hn, h⟩ := Option.bind_eq_some_iff.mp h
    obtain rfl := Option.some.inj h
    have hm16 := (of_hexValue? hm).1
    have hn16 := (of_hexValue? hn).1
    have hvalue : (UInt8.ofNat (16 * m + n)).toNat = 16 * m + n := by
      rw [UInt8.toNat_ofNat']
      omega
    have hhigh : (16 * m + n) / 16 = m := by omega
    have hlow : (16 * m + n) % 16 = n := by omega
    rw [hvalue, hhigh, hlow]
    exact ⟨hm, hn⟩
  · rintro ⟨hhigh, hlow⟩
    have hsum : 16 * (b.toNat / 16) + b.toNat % 16 = b.toNat := Nat.div_add_mod _ _
    rw [byteOfHex?, hhigh, hlow]
    show some (UInt8.ofNat (16 * (b.toNat / 16) + b.toNat % 16)) = some b
    rw [hsum, UInt8.ofNat_toNat]

namespace Rgb

/-- The values of a colour's digits: the two halves of each channel, the high one first. -/
def halves (c : Rgb) : List Nat :=
  [c.red.toNat / 16, c.red.toNat % 16, c.green.toNat / 16, c.green.toNat % 16,
    c.blue.toNat / 16, c.blue.toNat % 16]

theorem lt_of_mem_halves {c : Rgb} {n : Nat} (h : n ∈ c.halves) : n < 16 := by
  have hred : c.red.toNat < 256 := c.red.toNat_lt
  have hgreen : c.green.toNat < 256 := c.green.toNat_lt
  have hblue : c.blue.toNat < 256 := c.blue.toNat_lt
  simp only [halves, List.mem_cons, List.not_mem_nil, or_false] at h
  omega

theorem digits_eq_map_halves (c : Rgb) : c.digits = c.halves.map hexDigit := rfl

/-- The digits of a colour have the halves of its channels as values. -/
theorem map_hexValue?_digits (c : Rgb) : c.digits.map hexValue? = c.halves.map some := by
  rw [digits_eq_map_halves, List.map_map]
  exact List.map_congr_left fun n hn => hexValue?_hexDigit n (lt_of_mem_halves hn)

/-- The digits of a colour are hexadecimal digits. -/
theorem isHexDigit_of_mem_digits {c : Rgb} {d : Char} (h : d ∈ c.digits) :
    isHexDigit d = true := isHexDigit_of_map_hexValue? c.map_hexValue?_digits d h

/-- Six digits are three pairs. -/
theorem exists_pairs {ds : List Char} (hlength : ds.length = 6) :
    ∃ r r' g g' b b', ds = [r, r', g, g', b, b'] := by
  match ds, hlength with
  | [r, r', g, g', b, b'], _ => exact ⟨r, r', g, g', b, b', rfl⟩

/-- **Six digits spell a colour if their values are the halves of its channels.** -/
theorem ofDigits?_eq_some_iff {ds : List Char} {c : Rgb} (hlength : ds.length = 6) :
    ofDigits? ds = some c ↔ ds.map hexValue? = c.halves.map some := by
  obtain ⟨r, r', g, g', b, b', rfl⟩ := exists_pairs hlength
  have hvalues : [r, r', g, g', b, b'].map hexValue? = c.halves.map some ↔
      byteOfHex? r r' = some c.red ∧ byteOfHex? g g' = some c.green ∧
        byteOfHex? b b' = some c.blue := by
    simp only [byteOfHex?_eq_some_iff, halves, List.map_cons, List.map_nil, List.cons.injEq,
      and_true, and_assoc]
  rw [hvalues, ofDigits?]
  constructor
  · intro h
    obtain ⟨red, hred, h⟩ := Option.bind_eq_some_iff.mp h
    obtain ⟨green, hgreen, h⟩ := Option.bind_eq_some_iff.mp h
    obtain ⟨blue, hblue, h⟩ := Option.bind_eq_some_iff.mp h
    obtain rfl := Option.some.inj h
    exact ⟨hred, hgreen, hblue⟩
  · rintro ⟨hred, hgreen, hblue⟩
    rw [hred, hgreen, hblue]
    rfl

/-- Any six hexadecimal digits spell a colour. -/
theorem exists_ofDigits? {ds : List Char} (hlength : ds.length = 6)
    (hdigits : ∀ d ∈ ds, isHexDigit d = true) : ∃ c, ofDigits? ds = some c := by
  have hbyte : ∀ {a b : Char}, a ∈ ds → b ∈ ds → ∃ n, byteOfHex? a b = some n := by
    intro a b ha hb
    obtain ⟨m, hm⟩ := Option.isSome_iff_exists.mp (hdigits a ha)
    obtain ⟨n, hn⟩ := Option.isSome_iff_exists.mp (hdigits b hb)
    exact ⟨UInt8.ofNat (16 * m + n), by rw [byteOfHex?, hm, hn]; rfl⟩
  obtain ⟨r, r', g, g', b, b', rfl⟩ := exists_pairs hlength
  obtain ⟨red, hred⟩ := hbyte (a := r) (b := r') (by simp) (by simp)
  obtain ⟨green, hgreen⟩ := hbyte (a := g) (b := g') (by simp) (by simp)
  obtain ⟨blue, hblue⟩ := hbyte (a := b) (b := b') (by simp) (by simp)
  exact ⟨⟨red, green, blue⟩, by rw [ofDigits?, hred, hgreen, hblue]; rfl⟩

/-- The six digits of a colour spell that colour. -/
theorem ofDigits?_digits (c : Rgb) : ofDigits? c.digits = some c :=
  (ofDigits?_eq_some_iff c.length_digits).mpr c.map_hexValue?_digits

/-- The case of digits does not matter. -/
theorem ofDigits?_lowercase (ds : List Char) : ofDigits? (lowercase ds) = ofDigits? ds := by
  have hbyte : ∀ a b : Char, byteOfHex? a.toLower b.toLower = byteOfHex? a b := by
    intro a b
    rw [byteOfHex?, hexValue?_toLower, hexValue?_toLower, byteOfHex?]
  match ds with
  | [r, g, b] => simp only [lowercase_cons, lowercase_nil, ofDigits?, hbyte]
  | [r, r', g, g', b, b'] => simp only [lowercase_cons, lowercase_nil, ofDigits?, hbyte]
  | [] => rfl
  | [_] => rfl
  | [_, _] => rfl
  | [_, _, _, _] => rfl
  | [_, _, _, _, _] => rfl
  | _ :: _ :: _ :: _ :: _ :: _ :: _ :: _ => rfl

end Rgb
end ChatTint
