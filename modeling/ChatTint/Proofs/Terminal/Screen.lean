import ChatTint.Proofs.Terminal.Rendition
import ChatTint.Terminal.Screen

/-!
# Written sequences on a terminal

The terminal reads every escape sequence that is written as the rendition that it
was written for, and stops behind its last letter, whatever stands there.

## Main results

* `readSequence?_escape` — a written sequence is read back.
* `display_escape` — a sequence changes the pen and puts nothing on the screen.
* `display_char` — any character but the one that starts a sequence is shown.
-/

namespace ChatTint

/-! ### Numbers -/

/-- The digits of a number spell that number. -/
theorem numberOf?_decimal (n : Nat) : numberOf? (decimal n) = some n := by
  rw [numberOf?, isEmpty_decimal, any_not_isDigit_decimal, foldl_decimal]
  rfl

/-- Digits are collected up to the first character that is none. -/
theorem readParameters?_digits : ∀ (u : List Char), (∀ c ∈ u, c.isDigit = true) →
    ∀ digits rest : List Char,
      readParameters? digits (u ++ rest) = readParameters? (digits ++ u) rest := by
  intro u
  induction u with
  | nil => intro _ digits rest; rw [List.nil_append, List.append_nil]
  | cons c u ih =>
    intro hu digits rest
    have hc : c.isDigit = true := hu c List.mem_cons_self
    have hm : c ≠ 'm' := by
      rintro rfl
      exact absurd hc (by decide)
    have hsemicolon : c ≠ ';' := by
      rintro rfl
      exact absurd hc (by decide)
    rw [List.cons_append, readParameters?, if_neg hm, if_neg hsemicolon,
      ih (fun d hd => hu d (List.mem_cons_of_mem c hd)), List.append_assoc]
    rfl

theorem readParameters?_last (n : Nat) (rest : List Char) :
    readParameters? [] (decimal n ++ 'm' :: rest) = some ([n], rest) := by
  rw [readParameters?_digits _ fun c hc => isDigit_of_mem_decimal hc, List.nil_append,
    readParameters?, if_pos rfl, numberOf?_decimal]
  rfl

theorem readParameters?_next (n : Nat) (rest : List Char) :
    readParameters? [] (decimal n ++ ';' :: rest) =
      (readParameters? [] rest).map fun p => (n :: p.1, p.2) := by
  rw [readParameters?_digits _ fun c hc => isDigit_of_mem_decimal hc, List.nil_append,
    readParameters?, if_neg (by decide), if_pos rfl, numberOf?_decimal]
  cases readParameters? [] rest <;> rfl

/-! ### Sequences -/

namespace Rendition

/-- The numbers of a rendition's sequence. -/
def numbers : Rendition → List Nat
  | foreground c => [c.number]
  | trueColor c => [38, 2, c.red.toNat, c.green.toNat, c.blue.toNat]
  | bold => [1]
  | italic => [3]
  | underline => [4]
  | reverse => [7]
  | strikethrough => [9]
  | reset => [0]

/-- The numbers of a sequence are read up to its last letter. -/
theorem readParameters?_parameters (r : Rendition) (rest : List Char) :
    readParameters? [] (r.parameters ++ 'm' :: rest) = some (r.numbers, rest) := by
  cases r with
  | foreground c => exact readParameters?_last c.number rest
  | trueColor c =>
    rw [parameters_trueColor_append, readParameters?_next, readParameters?_next,
      readParameters?_next, readParameters?_next, readParameters?_last]
    rfl
  | bold => exact readParameters?_last 1 rest
  | italic => exact readParameters?_last 3 rest
  | underline => exact readParameters?_last 4 rest
  | strikethrough => exact readParameters?_last 9 rest
  | reverse => exact readParameters?_last 7 rest
  | reset => exact readParameters?_last 0 rest

/-- The numbers of a rendition ask for that rendition. -/
theorem ofParameters?_numbers (r : Rendition) : ofParameters? r.numbers = some r := by
  cases r with
  | foreground c => cases c <;> rfl
  | trueColor c =>
    have hred : c.red.toNat < 256 := c.red.toNat_lt
    have hgreen : c.green.toNat < 256 := c.green.toNat_lt
    have hblue : c.blue.toNat < 256 := c.blue.toNat_lt
    simp only [numbers, ofParameters?]
    rw [if_pos ⟨hred, hgreen, hblue⟩, UInt8.ofNat_toNat, UInt8.ofNat_toNat, UInt8.ofNat_toNat]
  | _ => rfl

/-- A written sequence is read back, whatever stands behind it. -/
theorem readSequence?_escape (r : Rendition) (rest : List Char) :
    readSequence? (r.escape ++ rest) = some (r, rest) := by
  rw [escape_append, readSequence?, if_pos ⟨rfl, rfl⟩, readParameters?_parameters]
  simp [ofParameters?_numbers]

end Rendition

theorem readSequence?_of_ne {c : Char} (h : c ≠ escapeChar) (s : List Char) :
    readSequence? (c :: s) = none := by
  cases s with
  | nil => rfl
  | cons d s => rw [readSequence?, if_neg fun hc => h hc.1]

/-! ### The screen -/

theorem display_nil (pen : Pen) : display pen [] = ([], pen) := by rw [display]

/-- A written sequence changes the pen and puts nothing on the screen. -/
theorem display_escape (pen : Pen) (r : Rendition) (rest : List Char) :
    display pen (r.escape ++ rest) = display (pen.take r) rest := by
  have hread := r.readSequence?_escape rest
  have hcons : r.escape ++ rest = escapeChar :: ('[' :: (r.parameters ++ ['m']) ++ rest) := rfl
  rw [hcons] at hread ⊢
  rw [display]
  split
  · next r' rest' h =>
    rw [hread, Option.some.injEq, Prod.mk.injEq] at h
    rw [h.1, h.2]
  · next h =>
    rw [hread] at h
    exact absurd h (Option.some_ne_none _)

/-- Any other character is shown in the look of the pen. -/
theorem display_char {c : Char} (h : c ≠ escapeChar) (pen : Pen) (s : List Char) :
    display pen (c :: s) = ((c, pen) :: (display pen s).1, (display pen s).2) := by
  rw [display]
  split
  · next h' =>
    rw [readSequence?_of_ne h] at h'
    exact absurd h'.symm (Option.some_ne_none _)
  · rfl

end ChatTint
