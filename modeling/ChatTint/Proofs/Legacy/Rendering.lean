import ChatTint.Legacy.Item
import ChatTint.Legacy.Render
import ChatTint.Proofs.Legacy.HexCode
import ChatTint.Proofs.Terminal.Rendition

/-!
# Rendering codes

The two steps of rendering replace the codes that they find and copy all other
characters.  A sequence that is put in place of a code holds no section sign and
begins with a character that makes no code, so no step can bring a new code
about: neither inside a sequence nor where one meets the text around it.

## Main results

* `render_eq_items` — the two steps together replace each item of the text by
  its sequence.
* `renderHexCodes_eq_self_iff` — the step that renders hex codes leaves a text alone if
  it has none.
* `not_holdsHexCode_renderHexCodes` — no hex code is left after its step.
* `hasCode_render` — no code is left in rendered text.
* `render_of_not_hasCode` — a text without codes is rendered as it is.
* `render_render` — rendered text is rendered as it is.
-/

namespace ChatTint

/-! ### The step that renders legacy codes -/

theorem not_isCodeChar_sectionSign : isCodeChar sectionSign = false := by decide

theorem not_isCodeChar_escapeChar : isCodeChar escapeChar = false := by decide

theorem renderCodes_code {d : Char} (hd : isCodeChar d = true) (s : List Char) :
    renderCodes (sectionSign :: d :: s) =
      (Code.ofSymbol d).rendition.escape ++ renderCodes s := by
  rw [renderCodes, if_pos ⟨rfl, hd⟩]

/-- A character is copied unless it is a section sign that starts a code. -/
theorem renderCodes_cons {c : Char} {s : List Char}
    (h : c = sectionSign → ∀ d ∈ s.head?, isCodeChar d = false) :
    renderCodes (c :: s) = c :: renderCodes s := by
  cases s with
  | nil => rfl
  | cons d s =>
    rw [renderCodes, if_neg]
    rintro ⟨hc, hd⟩
    rw [h hc d rfl] at hd
    exact absurd hd Bool.false_ne_true

theorem renderCodes_append {u : List Char} (hu : sectionSign ∉ u) (s : List Char) :
    renderCodes (u ++ s) = u ++ renderCodes s := by
  induction u with
  | nil => rfl
  | cons c u ih =>
    rw [List.mem_cons, not_or] at hu
    rw [List.cons_append, renderCodes_cons (fun hc => absurd hc.symm hu.1), ih hu.2]
    rfl

/-- Rendered text begins with a sequence or as the text does. -/
theorem head?_renderCodes (s : List Char) :
    (renderCodes s).head? = some escapeChar ∨ (renderCodes s).head? = s.head? := by
  match s with
  | [] => exact Or.inr rfl
  | [c] => exact Or.inr rfl
  | c :: d :: s =>
    rw [renderCodes]
    split
    · exact Or.inl rfl
    · exact Or.inr rfl

/-- What takes the place of a text makes no code in front if the text makes none. -/
theorem not_isCodeChar_head {s : List Char} {d : Char}
    (hhead : s.head? = some escapeChar ∨ s.head? = some d) (hd : isCodeChar d = false) :
    ∀ e ∈ s.head?, isCodeChar e = false := by
  intro e he
  rcases hhead with hhead | hhead
  · rw [hhead] at he
    rw [← Option.some.inj he]
    exact not_isCodeChar_escapeChar
  · rw [hhead] at he
    rw [← Option.some.inj he]
    exact hd

/-! ### Texts without codes -/

/-- A character before a text brings no code about unless it is a section sign before
a character that makes one. -/
theorem hasCode_cons {c : Char} {s : List Char}
    (h : c = sectionSign → ∀ d ∈ s.head?, isCodeChar d = false) :
    hasCode (c :: s) = hasCode s := by
  cases s with
  | nil => rfl
  | cons d s =>
    rw [hasCode]
    by_cases hc : c = sectionSign
    · rw [h hc d rfl, Bool.and_false, Bool.false_or]
    · rw [beq_eq_false_iff_ne.mpr hc, Bool.false_and, Bool.false_or]

theorem hasCode_append {u : List Char} (hu : sectionSign ∉ u) (s : List Char) :
    hasCode (u ++ s) = hasCode s := by
  induction u with
  | nil => rfl
  | cons c u ih =>
    rw [List.mem_cons, not_or] at hu
    rw [List.cons_append, hasCode_cons (fun hc => absurd hc.symm hu.1), ih hu.2]

/-- No code is brought about where the second text begins with a character that makes
none. -/
theorem hasCode_append_of_head {s t : List Char} (ht : ∀ d ∈ t.head?, isCodeChar d = false) :
    hasCode (s ++ t) = (hasCode s || hasCode t) := by
  induction s with
  | nil => rfl
  | cons c s ih =>
    cases s with
    | nil =>
      have hc : hasCode (c :: t) = hasCode t := hasCode_cons fun _ => ht
      rw [List.singleton_append, hc]
      rfl
    | cons d s =>
      rw [List.cons_append] at ih
      rw [List.cons_append, List.cons_append, hasCode, hasCode, ih, Bool.or_assoc]

/-- In a text without codes no section sign stands before a character that makes one. -/
theorem hasCode_cons_eq_false {c : Char} {s : List Char} (h : hasCode (c :: s) = false) :
    (c = sectionSign → ∀ d ∈ s.head?, isCodeChar d = false) ∧ hasCode s = false := by
  cases s with
  | nil => exact ⟨fun _ d hd => by simp at hd, rfl⟩
  | cons d s =>
    rw [hasCode, Bool.or_eq_false_iff, Bool.and_eq_false_iff, beq_eq_false_iff_ne] at h
    refine ⟨fun hc e he => ?_, h.2⟩
    rw [← Option.some.inj he]
    exact h.1.resolve_left fun hne => hne hc

theorem hasCode_of_isSuffix {s t : List Char} (ht : t <:+ s) (hs : hasCode s = false) :
    hasCode t = false := by
  induction s with
  | nil => rwa [List.suffix_nil.mp ht]
  | cons c s ih =>
    rcases List.suffix_cons_iff.mp ht with rfl | ht
    · exact hs
    · exact ih ht (hasCode_cons_eq_false hs).2

/-- A hex code is made of legacy codes. -/
theorem read?_of_not_hasCode {s : List Char} (h : hasCode s = false) : HexCode.read? s = none := by
  cases hr : HexCode.read? s with
  | none => rfl
  | some p =>
    obtain ⟨x, ds, -, hlength, hdigits, rfl⟩ := HexCode.read?_eq_some hr
    match ds, hlength with
    | d :: ds, _ =>
      -- behind the section sign and the x the first digit makes a legacy code
      have htail := (hasCode_cons_eq_false (hasCode_cons_eq_false h).2).2
      have hcode := (hasCode_cons_eq_false htail).1 rfl d rfl
      rw [isCodeChar_of_isHexDigit (hdigits d List.mem_cons_self)] at hcode
      exact absurd hcode.symm Bool.false_ne_true

theorem renderCodes_of_not_hasCode {s : List Char} (h : hasCode s = false) : renderCodes s = s := by
  induction s with
  | nil => rfl
  | cons c s ih =>
    obtain ⟨hc, hs⟩ := hasCode_cons_eq_false h
    rw [renderCodes_cons hc, ih hs]

/-- After its step no legacy code is left. -/
theorem hasCode_renderCodes (s : List Char) : hasCode (renderCodes s) = false := by
  fun_induction renderCodes s with
  | case1 => rfl
  | case2 c => rfl
  | case3 c d s h ih =>
    rw [hasCode_append (notMem_escape _ (by decide)), ih]
  | case4 c d s h ih =>
    rw [hasCode_cons, ih]
    -- what follows is the next character itself, or the start of a sequence
    intro hc
    have hd : isCodeChar d = false := Bool.eq_false_iff.mpr fun hd => h ⟨hc, hd⟩
    exact not_isCodeChar_head (head?_renderCodes (d :: s)) hd

/-! ### The step that renders hex codes -/

theorem renderHexCodes_nil : renderHexCodes [] = [] := by rw [renderHexCodes]

theorem renderHexCodes_of_read? {s rest : List Char} {color : Rgb}
    (h : HexCode.read? s = some (color, rest)) :
    renderHexCodes s = (Rendition.trueColor color).escape ++ renderHexCodes rest := by
  cases s with
  | nil => simp [HexCode.read?] at h
  | cons c s =>
    rw [renderHexCodes]
    split
    · next color' rest' h' =>
      rw [h, Option.some.injEq, Prod.mk.injEq] at h'
      rw [h'.1, h'.2]
    · next h' =>
      rw [h] at h'
      exact absurd h' (Option.some_ne_none _)

theorem renderHexCodes_cons {c : Char} {s : List Char} (h : HexCode.read? (c :: s) = none) :
    renderHexCodes (c :: s) = c :: renderHexCodes s := by
  rw [renderHexCodes]
  split
  · next h' =>
    rw [h] at h'
    exact absurd h'.symm (Option.some_ne_none _)
  · rfl

/-- A legacy code is copied whole: no hex code begins with either of its characters. -/
theorem renderHexCodes_code {d : Char} (hd : isCodeChar d = true) (s : List Char) :
    renderHexCodes (sectionSign :: d :: s) = sectionSign :: d :: renderHexCodes s := by
  have hne : d ≠ sectionSign := by
    rintro rfl
    exact absurd hd (by decide)
  rw [renderHexCodes_cons (HexCode.read?_code hd s),
    renderHexCodes_cons (HexCode.read?_of_ne hne s)]

/-- Text with rendered hex codes begins with a sequence or as the text does. -/
theorem head?_renderHexCodes (s : List Char) :
    (renderHexCodes s).head? = some escapeChar ∨ (renderHexCodes s).head? = s.head? := by
  fun_cases renderHexCodes s with
  | case1 => exact Or.inr rfl
  | case2 c s color rest h => exact Or.inl rfl
  | case3 c s h => exact Or.inr rfl

theorem renderHexCodes_of_not_hasCode {s : List Char} (h : hasCode s = false) :
    renderHexCodes s = s := by
  induction s with
  | nil => exact renderHexCodes_nil
  | cons c s ih =>
    rw [renderHexCodes_cons (read?_of_not_hasCode h), ih (hasCode_cons_eq_false h).2]

/-- A hex code in a text becomes a sequence. -/
theorem escapeChar_mem_renderHexCodes {s : List Char} {color : Rgb}
    (hmem : Item.hex color ∈ items s) : escapeChar ∈ renderHexCodes s := by
  fun_induction items s with
  | case1 => exact absurd hmem List.not_mem_nil
  | case2 c s color' rest h ih =>
    rw [renderHexCodes_of_read? h]
    exact List.mem_append_left _ List.mem_cons_self
  | case3 c h => exact absurd hmem (by simp)
  | case4 c d rest h hcode ih =>
    obtain ⟨rfl, hd⟩ := hcode
    rw [renderHexCodes_code hd]
    have hrest := ih (List.mem_of_ne_of_mem (by simp) hmem)
    exact List.mem_cons_of_mem _ (List.mem_cons_of_mem d hrest)
  | case5 c d rest h hcode ih =>
    rw [renderHexCodes_cons h]
    exact List.mem_cons_of_mem c (ih (List.mem_of_ne_of_mem (by simp) hmem))

/-- Other items are copied. -/
theorem renderHexCodes_of_notMem {s : List Char} (hnone : ∀ color, Item.hex color ∉ items s) :
    renderHexCodes s = s := by
  fun_induction items s with
  | case1 => exact renderHexCodes_nil
  | case2 c s color rest h ih => exact absurd List.mem_cons_self (hnone color)
  | case3 c h => rw [renderHexCodes_cons h, renderHexCodes_nil]
  | case4 c d rest h hcode ih =>
    obtain ⟨rfl, hd⟩ := hcode
    rw [renderHexCodes_code hd, ih fun color hmem => hnone color (List.mem_cons_of_mem _ hmem)]
  | case5 c d rest h hcode ih =>
    rw [renderHexCodes_cons h, ih fun color hmem => hnone color (List.mem_cons_of_mem _ hmem)]

/-- **The step that renders hex codes leaves a text alone if it has none**, and only
then, provided that the text holds no escape character. -/
theorem renderHexCodes_eq_self_iff {s : List Char} (hescape : escapeChar ∉ s) :
    renderHexCodes s = s ↔ ∀ color, Item.hex color ∉ items s := by
  refine ⟨?_, renderHexCodes_of_notMem⟩
  intro hself color hmem
  have hsent := escapeChar_mem_renderHexCodes hmem
  rw [hself] at hsent
  exact hescape hsent

/-- A section sign stands at the beginning of every hex code. -/
theorem holdsHexCode_append {u : List Char} (hu : sectionSign ∉ u) (s : List Char) :
    HoldsHexCode (u ++ s) ↔ HoldsHexCode s := by
  induction u with
  | nil => rfl
  | cons c u ih =>
    rw [List.mem_cons, not_or] at hu
    rw [List.cons_append, holdsHexCode_cons_iff, HexCode.read?_of_ne (Ne.symm hu.1), ih hu.2]
    exact or_iff_right Bool.false_ne_true

/-- A text without legacy codes holds no hex code. -/
theorem not_holdsHexCode_of_not_hasCode {s : List Char} (h : hasCode s = false) :
    ¬ HoldsHexCode s := by
  induction s with
  | nil => exact not_holdsHexCode_nil
  | cons c s ih =>
    rw [holdsHexCode_cons_iff, read?_of_not_hasCode h, not_or]
    exact ⟨Bool.false_ne_true, ih (hasCode_cons_eq_false h).2⟩

/-- What the step has copied stood at the beginning before. -/
theorem isPrefix_of_isPrefix_renderHexCodes {u s : List Char} (hu : escapeChar ∉ u)
    (h : u <+: renderHexCodes s) : u <+: s := by
  induction u generalizing s with
  | nil => exact List.nil_prefix
  | cons c u ih =>
    rw [List.mem_cons, not_or] at hu
    cases s with
    | nil =>
      rw [renderHexCodes_nil] at h
      exact absurd (List.prefix_nil.mp h) (List.cons_ne_nil _ _)
    | cons d s =>
      cases hread : HexCode.read? (d :: s) with
      | some p =>
        -- a sequence would begin with the escape character
        rw [renderHexCodes_of_read? hread] at h
        exact absurd (List.cons_prefix_cons.mp h).1.symm hu.1
      | none =>
        rw [renderHexCodes_cons hread, List.cons_prefix_cons] at h
        rw [List.cons_prefix_cons]
        exact ⟨h.1, ih hu.2 h.2⟩

theorem escapeChar_notMem_of_isCode {m : List Char} (h : HexCode.IsCode m) : escapeChar ∉ m := by
  obtain ⟨x, ds, hx, -, hdigits, rfl⟩ := h
  intro hmem
  rcases List.mem_cons.mp hmem with hmem | hmem
  · exact absurd hmem (by decide)
  rcases List.mem_cons.mp hmem with rfl | hmem
  · rcases hx with hx | hx
    · exact absurd hx (by decide)
    · exact absurd hx (by decide)
  obtain ⟨d, hd, hmem⟩ := List.mem_flatMap.mp hmem
  rcases List.mem_cons.mp hmem with hmem | hmem
  · exact absurd hmem (by decide)
  · have hcode := isCodeChar_of_isHexDigit (hdigits d hd)
    rw [← List.mem_singleton.mp hmem, not_isCodeChar_escapeChar] at hcode
    exact absurd hcode Bool.false_ne_true

/-- **No hex code is left after its step.** -/
theorem not_holdsHexCode_renderHexCodes (s : List Char) : ¬ HoldsHexCode (renderHexCodes s) := by
  fun_induction renderHexCodes s with
  | case1 => exact not_holdsHexCode_nil
  | case2 c s color rest h ih =>
    rw [holdsHexCode_append (notMem_escape _ (by decide))]
    exact ih
  | case3 c s h ih =>
    rw [holdsHexCode_cons_iff, not_or]
    refine ⟨?_, ih⟩
    -- a hex code that begins with this character was there before the step
    intro hread
    obtain ⟨m, hm, hstart⟩ := HexCode.isSome_read?_iff.mp hread
    have hescape := escapeChar_notMem_of_isCode hm
    have hbefore : m <+: c :: s := by
      cases m with
      | nil => exact List.nil_prefix
      | cons d m =>
        rw [List.mem_cons, not_or] at hescape
        rw [List.cons_prefix_cons] at hstart ⊢
        exact ⟨hstart.1, isPrefix_of_isPrefix_renderHexCodes hescape.2 hstart.2⟩
    have hsome := HexCode.isSome_read?_iff.mpr ⟨m, hm, hbefore⟩
    rw [h] at hsome
    exact absurd hsome Bool.false_ne_true

theorem renderHexCodes_of_not_holdsHexCode {s : List Char} (h : ¬ HoldsHexCode s) :
    renderHexCodes s = s := by
  induction s with
  | nil => exact renderHexCodes_nil
  | cons c s ih =>
    rw [holdsHexCode_cons_iff, not_or] at h
    rw [renderHexCodes_cons (Option.not_isSome_iff_eq_none.mp h.1), ih h.2]

/-! ### Both steps -/

/-- No code is left in rendered text. -/
theorem hasCode_render (s : List Char) : hasCode (render s) = false := hasCode_renderCodes _

/-- A text without codes is rendered as it is. -/
theorem render_of_not_hasCode {s : List Char} (h : hasCode s = false) : render s = s := by
  rw [render, renderHexCodes_of_not_hasCode h, renderCodes_of_not_hasCode h]

/-- Rendered text is rendered as it is. -/
theorem render_render (s : List Char) : render (render s) = render s :=
  render_of_not_hasCode (hasCode_render s)

/-- **Rendering is one scan.**  The step that renders hex codes leaves legacy codes
and characters alone, and the other step meets neither a code that the first one
made nor one that it cut in two. -/
theorem render_eq_items (s : List Char) : render s = (items s).flatMap Item.escape := by
  unfold render
  fun_induction items s with
  | case1 =>
    rw [renderHexCodes_nil]
    rfl
  | case2 c s color rest h ih =>
    -- the sequence of a colour holds no section sign, so the second step copies it
    rw [renderHexCodes_of_read? h, renderCodes_append (notMem_escape _ (by decide)), ih]
    rfl
  | case3 c h =>
    rw [renderHexCodes_cons h, renderHexCodes_nil]
    rfl
  | case4 c d rest h hcode ih =>
    obtain ⟨rfl, hd⟩ := hcode
    rw [renderHexCodes_code hd, renderCodes_code hd, ih]
    rfl
  | case5 c d rest h hcode ih =>
    rw [renderHexCodes_cons h, renderCodes_cons, ih]
    · rfl
    · intro hc
      have hd : isCodeChar d = false := Bool.eq_false_iff.mpr fun hd => hcode ⟨hc, hd⟩
      exact not_isCodeChar_head (head?_renderHexCodes (d :: rest)) hd

end ChatTint
