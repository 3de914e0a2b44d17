/-!
# Letter case

Tag and colour names are compared without regard to case.  Only the twenty-six
letters of ASCII have two cases here: every other character stands for itself,
so that no letter of another script can spell a tag name.

* `lowercase` — the text with its ASCII capitals made small.
* `lowercase_lowercase` — lowering twice is lowering once.
* `toNat_lt_of_toLower`, `mem_of_ascii` — characters are found among those of ASCII by
  trying them.
-/

namespace ChatTint

/-- The text with each ASCII capital letter replaced by its small form. -/
def lowercase (s : List Char) : List Char := s.map Char.toLower

@[simp] theorem lowercase_nil : lowercase [] = [] := rfl

@[simp] theorem lowercase_cons (c : Char) (s : List Char) :
    lowercase (c :: s) = c.toLower :: lowercase s := rfl

@[simp] theorem length_lowercase (s : List Char) : (lowercase s).length = s.length :=
  List.length_map _

/-- A small letter is left alone. -/
@[simp] theorem toLower_toLower (c : Char) : c.toLower.toLower = c.toLower := by
  delta Char.toLower
  split
  · next h =>
    split
    · next h' =>
      have h1 := UInt32.le_iff_toNat_le.mp h.1
      have h2 := UInt32.le_iff_toNat_le.mp h.2
      have h3 := UInt32.le_iff_toNat_le.mp h'.2
      simp [UInt32.toNat_add] at h1 h2 h3
      omega
    · rfl
  · simp

theorem lowercase_lowercase (s : List Char) : lowercase (lowercase s) = lowercase s := by
  simp [lowercase]

/-! ### Characters of ASCII -/

/-- No character from outside ASCII has a small form in it. -/
theorem toNat_lt_of_toLower {c : Char} (h : c.toLower.toNat < 128) : c.toNat < 128 := by
  delta Char.toLower at h
  split at h
  · next hcapital =>
    have hZ := UInt32.le_iff_toNat_le.mp hcapital.2
    have hval : c.toNat = c.val.toNat := rfl
    have h90 : 'Z'.val.toNat = 90 := rfl
    omega
  · exact h

/-- What holds of few characters of ASCII is found by trying them. -/
theorem mem_of_ascii {p : Char → Bool} {chars : List Char}
    (hascii : ∀ c, p c = true → c.toNat < 128)
    (hall : ∀ n < 128, p (Char.ofNat n) = true → Char.ofNat n ∈ chars) {c : Char}
    (hc : p c = true) : c ∈ chars := by
  have h := hall c.toNat (hascii c hc)
  rw [Char.ofNat_toNat] at h
  exact h hc

end ChatTint
