import ChatTint.Proofs.Legacy.Rendering
import ChatTint.Terminal.Strip

/-!
# Written sequences are stripped whole

The automaton that tells control sequences goes on through the numbers of a written
sequence and stops for good behind its last letter, so nothing that stands there is
taken for a part of the sequence.  The numbers have three digits at most and never
reach the length at which the automaton gives up.

## Main results

* `Control.run?_escape` — a written sequence is read to its last letter.
* `stripEscapes_escape`, `stripEscapes_char` — a written sequence is removed, and any
  character that starts none is kept.
* `stripEscapes_items` — what is left of the sequences and characters of some items.
-/

namespace ChatTint

namespace Control

/-! ### Steps -/

/-- Behind the last letter the automaton stops, whatever follows. -/
theorem run?_final (s : List Char) : final.run? s = none := by
  cases s with
  | nil => rfl
  | cons c s =>
    have hstep : final.step c = none := by
      simp only [step, onDigit, onSemicolon, onParenthesis, onLeading, onFinal, ite_self]
    rw [run?, hstep]

/-- What is found behind the next character is found. -/
theorem run?_of_step {state next : Control} {c : Char} {s rest : List Char}
    (hstep : state.step c = some next) (hnext : next.run? s = some rest) :
    state.run? (c :: s) = some rest := by
  rw [run?, hstep]
  simp only [hnext]

theorem step_digit {c : Char} (hc : c.isDigit = true) (state : Control) :
    state.step c = state.onDigit c := if_pos hc

/-- States in which a number may begin: behind the bracket and behind a semicolon. -/
def StartsNumber (state : Control) : Prop := state = leading ∨ state = separator

theorem StartsNumber.onDigit {state : Control} (h : state.StartsNumber) (c : Char) :
    state.onDigit c = some (number 1) := by
  rcases h with rfl | rfl <;> rfl

/-- Digits are counted. -/
theorem run?_digits {s rest : List Char} : ∀ (u : List Char), (∀ c ∈ u, c.isDigit = true) →
    ∀ n : Nat, n + u.length ≤ maxDigits → (number (n + u.length)).run? s = some rest →
      (number n).run? (u ++ s) = some rest := by
  intro u
  induction u with
  | nil => intro _ n _ h; exact h
  | cons c u ih =>
    intro hu n hn h
    rw [List.length_cons] at hn h
    have hlt : n < maxDigits := by omega
    have hstep : (number n).step c = some (number (n + 1)) := by
      rw [step_digit (hu c List.mem_cons_self)]
      exact if_pos hlt
    have hrest : (number (n + 1)).run? (u ++ s) = some rest := by
      refine ih (fun d hd => hu d (List.mem_cons_of_mem c hd)) (n + 1) (by omega) ?_
      rw [show n + 1 + u.length = n + (u.length + 1) by omega]
      exact h
    exact run?_of_step hstep hrest

/-! ### Numbers -/

theorem length_decimal_le {n : Nat} (hn : n < 1000) : (decimal n).length ≤ 3 :=
  (Nat.length_toDigits_le_iff (by decide) (by decide)).mpr hn

/-- A number is read, and what is behind it. -/
theorem run?_decimal {state : Control} (hstate : state.StartsNumber) {n : Nat} (hn : n < 1000)
    {s rest : List Char} (h : ∀ k, k < maxDigits → (number k).run? s = some rest) :
    state.run? (decimal n ++ s) = some rest := by
  have hlength : (decimal n).length ≤ 3 := length_decimal_le hn
  obtain ⟨c, u, hu⟩ := List.exists_cons_of_ne_nil (show decimal n ≠ [] from Nat.toDigits_ne_nil)
  have hdigits : ∀ d ∈ c :: u, d.isDigit = true :=
    fun d hd => isDigit_of_mem_decimal (n := n) (hu ▸ hd)
  rw [hu, List.length_cons] at hlength
  have hstep : state.step c = some (number 1) := by
    rw [step_digit (hdigits c List.mem_cons_self), hstate.onDigit]
  have hbound : 1 + u.length < maxDigits := by
    have hmax : maxDigits = 5 := rfl
    omega
  rw [hu, List.cons_append]
  exact run?_of_step hstep (run?_digits u (fun d hd => hdigits d (List.mem_cons_of_mem c hd)) 1
    (Nat.le_of_lt hbound) (h (1 + u.length) hbound))

/-- A number before the last letter ends the sequence. -/
theorem run?_last {state : Control} (hstate : state.StartsNumber) {n : Nat} (hn : n < 1000)
    (rest : List Char) : state.run? (decimal n ++ 'm' :: rest) = some rest := by
  refine run?_decimal hstate hn fun k hk => ?_
  have hstep : (number k).step 'm' = some final := if_pos hk
  rw [run?, hstep]
  simp only [run?_final]
  rfl

/-- A number before a semicolon leads to the next one. -/
theorem run?_next {state : Control} (hstate : state.StartsNumber) {n : Nat} (hn : n < 1000)
    {s rest : List Char} (h : separator.run? s = some rest) :
    state.run? (decimal n ++ ';' :: s) = some rest := by
  refine run?_decimal hstate hn fun k hk => ?_
  have hstep : (number k).step ';' = some separator := if_pos hk
  exact run?_of_step hstep h

/-! ### Sequences -/

/-- The numbers of a sequence are read up to its last letter. -/
theorem run?_parameters (r : Rendition) (rest : List Char) :
    leading.run? (r.parameters ++ 'm' :: rest) = some rest := by
  have hfirst : leading.StartsNumber := Or.inl rfl
  have hnext : separator.StartsNumber := Or.inr rfl
  cases r with
  | foreground c => exact run?_last hfirst (by cases c <;> decide) rest
  | trueColor c =>
    have hchannel : ∀ b : UInt8, b.toNat < 1000 :=
      fun b => Nat.lt_of_lt_of_le b.toNat_lt (by decide)
    rw [Rendition.parameters_trueColor_append]
    exact run?_next hfirst (by decide) (run?_next hnext (by decide)
      (run?_next hnext (hchannel _) (run?_next hnext (hchannel _)
        (run?_last hnext (hchannel _) _))))
  | bold => exact run?_last hfirst (show 1 < 1000 by decide) rest
  | italic => exact run?_last hfirst (show 3 < 1000 by decide) rest
  | underline => exact run?_last hfirst (show 4 < 1000 by decide) rest
  | strikethrough => exact run?_last hfirst (show 9 < 1000 by decide) rest
  | reverse => exact run?_last hfirst (show 7 < 1000 by decide) rest
  | reset => exact run?_last hfirst (show 0 < 1000 by decide) rest

/-- **A written sequence is read to its last letter**, whatever stands behind it. -/
theorem run?_escape (r : Rendition) (rest : List Char) :
    start.run? ('[' :: (r.parameters ++ 'm' :: rest)) = some rest :=
  run?_of_step (show start.step '[' = some leading from rfl) (run?_parameters r rest)

end Control

/-! ### Text with written sequences -/

theorem stripEscapes_nil : stripEscapes [] = [] := by rw [stripEscapes]

/-- A written sequence is removed, and nothing of what stands behind it. -/
theorem stripEscapes_escape (r : Rendition) (rest : List Char) :
    stripEscapes (r.escape ++ rest) = stripEscapes rest := by
  have hread := Control.run?_escape r rest
  rw [Rendition.escape_append, stripEscapes, if_neg (by simp), if_neg (by simp),
    if_pos (Or.inl rfl)]
  split
  · next rest' h =>
    rw [hread, Option.some.injEq] at h
    rw [h]
  · next h =>
    rw [hread] at h
    exact absurd h (Option.some_ne_none _)

/-- A character that starts no sequence is kept. -/
theorem stripEscapes_char {c : Char} (hescape : c ≠ escapeChar) (hcontrol : c ≠ controlIntroducer)
    (s : List Char) : stripEscapes (c :: s) = c :: stripEscapes s := by
  rw [stripEscapes, if_neg fun h => hescape h.1, if_neg fun h => hescape h.1,
    if_neg fun h => h.elim hescape hcontrol]

/-- **The characters of some items are left of their sequences**, if none of them starts
a sequence of its own. -/
theorem stripEscapes_items {items : List Item} (hescape : Item.char escapeChar ∉ items)
    (hcontrol : Item.char controlIntroducer ∉ items) :
    stripEscapes (items.flatMap Item.escape) = visible items := by
  induction items with
  | nil => exact stripEscapes_nil
  | cons item items ih =>
    rw [List.mem_cons, not_or] at hescape hcontrol
    have hrest := ih hescape.2 hcontrol.2
    rw [List.flatMap_cons]
    cases item with
    | hex c => exact (stripEscapes_escape _ _).trans hrest
    | code k => exact (stripEscapes_escape _ _).trans hrest
    | char c =>
      have hc : c ≠ escapeChar := fun h => hescape.1 (h ▸ rfl)
      have hc' : c ≠ controlIntroducer := fun h => hcontrol.1 (h ▸ rfl)
      show stripEscapes (c :: items.flatMap Item.escape) = _
      rw [stripEscapes_char hc hc', hrest]
      rfl

end ChatTint
