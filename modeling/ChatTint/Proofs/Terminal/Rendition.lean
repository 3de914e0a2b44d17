import ChatTint.Terminal.Rendition

/-!
# The characters of escape sequences

Sequences are made of few characters: the two that start them, digits, semicolons
and the last letter.  Any other character is found in no sequence.

* `isSequenceChar` — the characters of sequences.
* `Rendition.escape_append`, `Rendition.parameters_trueColor_append` — the parts of a
  sequence.
* `isSequenceChar_of_mem_escape`, `notMem_escape` — no sequence has another.
-/

namespace ChatTint

/-- The characters of escape sequences. -/
def isSequenceChar (c : Char) : Bool :=
  c == escapeChar || c == '[' || c == ';' || c == 'm' || c.isDigit

theorem isDigit_of_mem_decimal {n : Nat} {c : Char} (h : c ∈ decimal n) : c.isDigit = true :=
  Nat.isDigit_of_mem_toDigits (by decide) (by decide) h

theorem any_not_isDigit_decimal (n : Nat) : (decimal n).any (fun c => !c.isDigit) = false := by
  rw [List.any_eq_false]
  intro c hc
  simp [isDigit_of_mem_decimal hc]

theorem isEmpty_decimal (n : Nat) : (decimal n).isEmpty = false :=
  List.isEmpty_eq_false_iff.mpr Nat.toDigits_ne_nil

/-- The value of the digits of a number is that number. -/
theorem foldl_decimal (n : Nat) :
    (decimal n).foldl (fun n c => 10 * n + (c.toNat - '0'.toNat)) 0 = n := by
  rw [decimal, ← Nat.ofDigitChars_eq_foldl, Nat.ofDigitChars_ten_toDigits]

namespace Rendition

/-- A sequence in front of a text, by its parts. -/
theorem escape_append (r : Rendition) (s : List Char) :
    r.escape ++ s = escapeChar :: '[' :: (r.parameters ++ 'm' :: s) := by
  rw [escape, List.cons_append, List.cons_append, List.append_assoc]
  rfl

/-- The parameters of a colour in front of a text are five numbers. -/
theorem parameters_trueColor_append (c : Rgb) (s : List Char) :
    (trueColor c).parameters ++ s =
      decimal 38 ++ ';' :: (decimal 2 ++ ';' :: (decimal c.red.toNat ++
        ';' :: (decimal c.green.toNat ++ ';' :: (decimal c.blue.toNat ++ s)))) := by
  have hmode : "38;2;".toList = decimal 38 ++ ';' :: (decimal 2 ++ [';']) := by decide
  show "38;2;".toList ++ decimal c.red.toNat ++
    ';' :: (decimal c.green.toNat ++ ';' :: decimal c.blue.toNat) ++ s = _
  rw [hmode]
  simp only [List.append_assoc, List.cons_append, List.nil_append]

end Rendition

/-- The parameters of a sequence are numbers and semicolons. -/
theorem isDigit_or_of_mem_parameters {r : Rendition} {c : Char} (h : c ∈ r.parameters) :
    c.isDigit = true ∨ c = ';' := by
  cases r with
  | foreground color => exact Or.inl (isDigit_of_mem_decimal h)
  | trueColor color =>
    rw [← List.append_nil (Rendition.parameters _), Rendition.parameters_trueColor_append] at h
    simp only [List.mem_append, List.mem_cons, List.not_mem_nil, or_false] at h
    rcases h with h | h | h | h | h | h | h | h | h
    · exact Or.inl (isDigit_of_mem_decimal h)
    · exact Or.inr h
    · exact Or.inl (isDigit_of_mem_decimal h)
    · exact Or.inr h
    · exact Or.inl (isDigit_of_mem_decimal h)
    · exact Or.inr h
    · exact Or.inl (isDigit_of_mem_decimal h)
    · exact Or.inr h
    · exact Or.inl (isDigit_of_mem_decimal h)
  | bold => exact List.mem_singleton.mp h ▸ by decide
  | italic => exact List.mem_singleton.mp h ▸ by decide
  | underline => exact List.mem_singleton.mp h ▸ by decide
  | strikethrough => exact List.mem_singleton.mp h ▸ by decide
  | reverse => exact List.mem_singleton.mp h ▸ by decide
  | reset => exact List.mem_singleton.mp h ▸ by decide

theorem isSequenceChar_of_mem_escape {r : Rendition} {c : Char} (h : c ∈ r.escape) :
    isSequenceChar c = true := by
  rw [Rendition.escape, List.mem_cons, List.mem_cons, List.mem_append, List.mem_singleton] at h
  rcases h with rfl | rfl | h | rfl
  · decide
  · decide
  · rcases isDigit_or_of_mem_parameters h with hdigit | rfl
    · rw [isSequenceChar, hdigit, Bool.or_true]
    · decide
  · decide

/-- A character that occurs in no sequence is not in this one. -/
theorem notMem_escape (r : Rendition) {c : Char} (hc : isSequenceChar c = false) :
    c ∉ r.escape := by
  intro h
  rw [isSequenceChar_of_mem_escape h] at hc
  exact absurd hc.symm Bool.false_ne_true

end ChatTint
