/-!
# Cutting a text in two

* `cutAt` — the text before the first occurrence of a character, and the text
  behind it if there is one.
-/

namespace ChatTint

/-- The text before the first `mark`, and the text behind it if there is one. -/
def cutAt (mark : Char) : List Char → List Char × Option (List Char)
  | [] => ([], none)
  | c :: s => if c = mark then ([], some s) else (c :: (cutAt mark s).1, (cutAt mark s).2)

/-- A text without the mark is not cut. -/
theorem cutAt_of_notMem {mark : Char} {s : List Char} (h : mark ∉ s) :
    cutAt mark s = (s, none) := by
  induction s with
  | nil => rfl
  | cons c s ih =>
    simp only [List.mem_cons, not_or] at h
    simp [cutAt, Ne.symm h.1, ih h.2]

/-- Only a text without the mark is not cut. -/
theorem cutAt_snd_eq_none_iff {mark : Char} {s : List Char} :
    (cutAt mark s).2 = none ↔ mark ∉ s := by
  refine ⟨fun h => ?_, fun h => by rw [cutAt_of_notMem h]⟩
  induction s with
  | nil => exact List.not_mem_nil
  | cons c s ih =>
    rw [cutAt] at h
    split at h
    · exact absurd h (Option.some_ne_none s)
    · next hc => exact List.not_mem_cons_of_ne_of_not_mem (Ne.symm hc) (ih h)

/-- Two texts with the mark between them are cut there, if the first is free of it. -/
theorem cutAt_append {mark : Char} {s t : List Char} (h : mark ∉ s) :
    cutAt mark (s ++ mark :: t) = (s, some t) := by
  induction s with
  | nil => simp [cutAt]
  | cons c s ih =>
    simp only [List.mem_cons, not_or] at h
    simp [cutAt, Ne.symm h.1, ih h.2]

end ChatTint
