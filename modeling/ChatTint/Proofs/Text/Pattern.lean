import Mathlib.Computability.RegularExpressions

/-!
# Patterns over classes of characters

The patterns of the language are made of classes of characters: one character out of
several, or any number of them.

## Main definitions

* `oneOf` — one character out of several.

## Main results

* `mem_oneOf_iff`, `mem_star_oneOf_iff` — the texts of a class, and of its repetition.
-/

namespace ChatTint

open RegularExpression

/-- One character out of several. -/
def oneOf (chars : List Char) : RegularExpression Char := (chars.map char).sum

theorem mem_oneOf_iff {chars w : List Char} :
    w ∈ (oneOf chars).matches' ↔ ∃ c ∈ chars, w = [c] := by
  unfold oneOf
  induction chars with
  | nil => simp
  | cons c chars ih =>
    rw [List.map_cons, List.sum_cons, matches'_add, Language.mem_add, ih, matches'_char]
    change (w = [c] ∨ _) ↔ _
    simp

/-- A text is made of some characters if it is a row of one-character words of them. -/
theorem mem_star_oneOf_iff {chars s : List Char} :
    s ∈ (oneOf chars).star.matches' ↔ ∀ c ∈ s, c ∈ chars := by
  rw [matches'_star, Language.mem_kstar]
  constructor
  · rintro ⟨words, rfl, hwords⟩ c hc
    obtain ⟨w, hw, hcw⟩ := List.mem_flatten.mp hc
    obtain ⟨d, hd, rfl⟩ := mem_oneOf_iff.mp (hwords w hw)
    rw [List.mem_singleton.mp hcw]
    exact hd
  · intro h
    refine ⟨s.map fun c => [c], ?_, ?_⟩
    · rw [← List.flatMap_def]
      exact (List.flatMap_singleton' s).symm
    · intro w hw
      obtain ⟨c, hc, rfl⟩ := List.mem_map.mp hw
      exact mem_oneOf_iff.mpr ⟨c, h c hc, rfl⟩

end ChatTint
