import ChatTint.Color.Basic
import ChatTint.Proofs.Color.Digits

/-!
# The one spelling of a colour

A colour may be spelled in several ways: names and digits are of either case, each gray has
two names, and digits may be halved in number.  One of its spellings is the colour's own, and
it spells no other colour.  So two texts that name colours name the same one if and only if
the one spelling of both is the same.

## Main results

* `Color.ofText?_name`, `Color.name_injective` — a colour's own spelling spells it alone.
* `Color.ofText?_lowercase` — the case of a spelling does not matter.
* `colorSpelling?_eq_some_iff` — the texts whose one spelling is that of a colour.
-/

namespace ChatTint

/-! ### Number signs -/

/-- Only the number sign has it as its small form. -/
theorem eq_of_toLower_eq_numberSign {c : Char} (h : c.toLower = '#') : c = '#' := by
  have hall : ∀ n < 128, (Char.ofNat n).toLower = '#' → Char.ofNat n = '#' := by decide +kernel
  have hascii : c.toNat < 128 := by
    apply toNat_lt_of_toLower
    rw [h]
    decide
  have hc := hall c.toNat hascii
  rw [Char.ofNat_toNat] at hc
  exact hc h

theorem head?_lowercase_eq_numberSign_iff {s : List Char} :
    (lowercase s).head? = some '#' ↔ s.head? = some '#' := by
  cases s with
  | nil => rfl
  | cons c s =>
    simp only [lowercase_cons, List.head?_cons, Option.some.injEq]
    constructor
    · exact eq_of_toLower_eq_numberSign
    · rintro rfl
      decide

/-! ### Colours of the palette -/

namespace PaletteColor

/-- No colour of the palette has a name that begins with a number sign. -/
theorem head?_name_ne (c : PaletteColor) : c.name.head? ≠ some '#' := by cases c <;> decide

theorem ofName?_lowercase (s : List Char) : ofName? (lowercase s) = ofName? s := by
  rw [ofName?, ofName?, lowercase_lowercase]

end PaletteColor

/-! ### Colours -/

namespace Color

/-- A text that does not begin with a number sign spells a colour of the palette, if any. -/
theorem ofText?_of_head?_ne {s : List Char} (h : s.head? ≠ some '#') :
    ofText? s = (PaletteColor.ofName? s).map palette := by
  unfold ofText?
  split
  · exact absurd rfl h
  · rfl

/-- **A colour's own spelling spells it.** -/
theorem ofText?_name (c : Color) : ofText? c.name = some c := by
  cases c with
  | palette c =>
    rw [name, ofText?_of_head?_ne c.head?_name_ne, PaletteColor.ofName?_name]
    rfl
  | rgb c =>
    show (Rgb.ofDigits? c.digits).map rgb = some (rgb c)
    rw [Rgb.ofDigits?_digits]
    rfl

theorem name_injective {c d : Color} (h : c.name = d.name) : c = d := by
  have hc := ofText?_name c
  rw [h, ofText?_name] at hc
  exact (Option.some.inj hc).symm

/-- **The case of a spelling does not matter.** -/
theorem ofText?_lowercase (s : List Char) : ofText? (lowercase s) = ofText? s := by
  by_cases h : s.head? = some '#'
  · obtain ⟨ds, rfl⟩ := List.head?_eq_some_iff.mp h
    show (Rgb.ofDigits? (lowercase ds)).map rgb = (Rgb.ofDigits? ds).map rgb
    rw [Rgb.ofDigits?_lowercase]
  · have hlower : (lowercase s).head? ≠ some '#' := mt head?_lowercase_eq_numberSign_iff.mp h
    rw [ofText?_of_head?_ne hlower, ofText?_of_head?_ne h, PaletteColor.ofName?_lowercase]

end Color

/-- **A text's one spelling is that of a colour if the text spells the colour.** -/
theorem colorSpelling?_eq_some_iff {s : List Char} {c : Color} :
    colorSpelling? s = some c.name ↔ Color.ofText? s = some c := by
  rw [colorSpelling?, Option.map_eq_some_iff]
  constructor
  · rintro ⟨d, hd, hname⟩
    rw [hd, Color.name_injective hname]
  · intro h
    exact ⟨c, h, rfl⟩

end ChatTint
