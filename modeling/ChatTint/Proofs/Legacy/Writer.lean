import ChatTint.Legacy.Writer
import ChatTint.Proofs.Document.Merged
import ChatTint.Proofs.Legacy.Items

/-!
# Written documents are read as they were meant

The codes that are written for a document are the only ones in its text, if the
document's own characters make none.  What a span leaves unfinished at its end, a
section sign or the mark of a hex code, is never completed by what is written
next: that begins with a section sign, and of its codes at most the first is also
a digit.

## Main definitions

* `switchItems`, `spansToItems` — the codes between two styles and the text of
  spans, as items.
* `IsReading` — what a reading of codes must do with each of them so that styles have
  their looks in it.

## Main results

* `head?_spansToCodes` — what is written behind another style begins with a code.
* `items_spansToCodes`, `items_toCodes` — the items of what is written.
* `IsReading.foldl_switchItems` — the codes between two styles lead from the look of one
  to the look of the other.
* `itemCells_spansToItems` — the look of the characters in such a reading.
-/

namespace ChatTint

/-! ### Codes as items -/

/-- The item that sets a colour. -/
def Color.toItem (depth : Depth) : Color → Item
  | .palette c => .code (.color c)
  | .rgb c =>
    match depth with
    | .full => .hex c
    | .palette => .code (.nearest c)

/-- The items that add decorations. -/
def decorationItems (ds : List Decoration) : List Item := ds.map fun d => .code (.decoration d)

/-- The items that set a style on plain text. -/
def Style.toItems (depth : Depth) (s : Style) : List Item :=
  (s.color.map (Color.toItem depth)).toList ++ decorationItems s.decorations.toList

/-- The items between text of one style and text of the next. -/
def switchItems (depth : Depth) (current next : Style) : List Item :=
  if next = current then []
  else if current.endsBefore next then .code .reset :: next.toItems depth
  else if next.color ≠ current.color then next.toItems depth
  else decorationItems (next.decorations.toList.filter fun d => !current.decorations.has d)

/-- The items of spans that follow on text of a style. -/
def spansToItems (depth : Depth) (current : Style) : List Span → List Item
  | [] => []
  | span :: spans =>
    switchItems depth current span.style ++ span.text.map Item.char ++
      spansToItems depth span.style spans

section Marks

variable (depth : Depth)

theorem isMark_toItem (c : Color) : (c.toItem depth).IsMark := by
  cases c with
  | palette c => rfl
  | rgb c => cases depth <;> rfl

/-- What holds of the reset and of the items of colours and decorations holds of all items
between two styles. -/
theorem forall_mem_switchItems {motive : Item → Prop} (hreset : motive (.code .reset))
    (hcolor : ∀ c : Color, motive (c.toItem depth))
    (hdecoration : ∀ d, motive (.code (.decoration d))) (current next : Style) :
    ∀ item ∈ switchItems depth current next, motive item := by
  have hdecorations : ∀ ds, ∀ item ∈ decorationItems ds, motive item := by
    intro ds item hitem
    obtain ⟨d, -, rfl⟩ := List.mem_map.mp hitem
    exact hdecoration d
  have hstyle : ∀ item ∈ next.toItems depth, motive item := by
    intro item hitem
    rcases List.mem_append.mp hitem with hitem | hitem
    · obtain ⟨c, -, rfl⟩ := Option.map_eq_some_iff.mp (Option.mem_toList.mp hitem)
      exact hcolor c
    · exact hdecorations _ item hitem
  unfold switchItems
  split
  · exact fun item hitem => absurd hitem List.not_mem_nil
  · split
    · intro item hitem
      rcases List.mem_cons.mp hitem with rfl | hitem
      · exact hreset
      · exact hstyle item hitem
    · split
      · exact hstyle
      · exact hdecorations _

theorem isMark_switchItems (current next : Style) :
    ∀ item ∈ switchItems depth current next, item.IsMark :=
  forall_mem_switchItems depth (motive := Item.IsMark) rfl (isMark_toItem depth) (fun _ => rfl)
    current next

theorem text_toItem (c : Color) : (c.toItem depth).text = c.toCodes depth := by
  cases c with
  | palette c => rfl
  | rgb c => cases depth <;> rfl

theorem text_decorationItems (ds : List Decoration) :
    (decorationItems ds).flatMap Item.text = decorationCodes ds := by
  rw [decorationItems, List.flatMap_map]
  rfl

theorem text_toItems (s : Style) : (s.toItems depth).flatMap Item.text = s.toCodes depth := by
  rw [Style.toItems, Style.toCodes, List.flatMap_append, text_decorationItems]
  cases s.color with
  | none => rfl
  | some c => simp [text_toItem]

theorem text_switchItems (current next : Style) :
    (switchItems depth current next).flatMap Item.text = switchStyle depth current next := by
  unfold switchItems switchStyle
  split
  · rfl
  · split
    · rw [List.flatMap_cons, text_toItems]
      rfl
    · split
      · exact text_toItems depth next
      · exact text_decorationItems _

end Marks

/-! ### Styles that end and styles that go on -/

/-- If nothing ends between two styles, the second has all decorations of the first, and
a colour if the first has one. -/
theorem Style.of_endsBefore_eq_false {current next : Style}
    (h : ¬ current.endsBefore next = true) :
    (∀ d, current.decorations.has d = true → next.decorations.has d = true) ∧
      (next.color = none → current.color = none) := by
  simp only [endsBefore, Bool.or_eq_true, List.any_eq_true, not_or, not_exists, not_and,
    Bool.and_eq_true, Bool.not_eq_true'] at h
  refine ⟨fun d hd => ?_, fun hnone => ?_⟩
  · have hnot := h.1 d (Decorations.mem_toList.mpr hd)
    rwa [Bool.not_eq_false] at hnot
  · by_contra hsome
    exact h.2 (Option.isSome_iff_ne_none.mpr hsome) (by rw [hnone]; rfl)

/-- A colour that changes without an end is there afterwards. -/
theorem Style.exists_color {current next : Style} (h : ¬ current.endsBefore next = true)
    (hcolor : next.color ≠ current.color) : ∃ c, next.color = some c := by
  rw [← Option.ne_none_iff_exists']
  intro hnone
  exact hcolor (by rw [hnone, (of_endsBefore_eq_false h).2 hnone])

/-- Between different styles of one colour, where nothing ends, a decoration begins. -/
theorem Style.exists_new_decoration {current next : Style} (hne : next ≠ current)
    (h : ¬ current.endsBefore next = true) (hcolor : next.color = current.color) :
    ∃ d ds, next.decorations.toList.filter (fun d => !current.decorations.has d) = d :: ds := by
  rw [← List.ne_nil_iff_exists_cons]
  intro hnil
  refine hne ?_
  have hdecorations : next.decorations = current.decorations := by
    refine Decorations.ext_has fun d => Bool.eq_iff_iff.mpr ⟨fun hd => ?_, ?_⟩
    · have hold := List.filter_eq_nil_iff.mp hnil d (Decorations.mem_toList.mpr hd)
      simpa using hold
    · exact (of_endsBefore_eq_false h).1 d
  cases next
  cases current
  rw [Style.mk.injEq]
  exact ⟨hcolor, hdecorations⟩

/-! ### How what is written begins -/

/-- Between different styles something is written. -/
theorem switchItems_ne_nil (depth : Depth) {current next : Style} (hne : next ≠ current) :
    switchItems depth current next ≠ [] := by
  rw [switchItems, if_neg hne]
  by_cases hends : current.endsBefore next = true
  · rw [if_pos hends]
    exact List.cons_ne_nil _ _
  rw [if_neg hends]
  by_cases hcolor : next.color = current.color
  · obtain ⟨d, ds, hnew⟩ := Style.exists_new_decoration hne hends hcolor
    rw [if_neg (not_not.mpr hcolor), hnew]
    exact List.cons_ne_nil _ _
  · obtain ⟨c, hc⟩ := Style.exists_color hends hcolor
    rw [if_pos hcolor, Style.toItems, hc]
    exact List.cons_ne_nil _ _

/-- What is written behind text of another style begins with a section sign. -/
theorem head?_spansToCodes (depth : Depth) {current : Style} {spans : List Span}
    (hstyles : (current :: spans.map Span.style).IsChain (· ≠ ·)) :
    ∀ c ∈ (spansToCodes depth current spans).head?, c = sectionSign := by
  intro c hc
  cases spans with
  | nil => exact absurd hc (by simp [spansToCodes])
  | cons span spans =>
    have hne : span.style ≠ current := (List.isChain_cons_cons.mp hstyles).1.symm
    obtain ⟨item, marks, hitems⟩ :=
      List.exists_cons_of_ne_nil (switchItems_ne_nil depth hne)
    have hmark : item.IsMark := isMark_switchItems depth current span.style item
      (hitems ▸ List.mem_cons_self)
    rw [spansToCodes, ← text_switchItems, hitems] at hc
    cases item with
    | hex color => exact (Option.some.inj hc).symm
    | code k => exact (Option.some.inj hc).symm
    | char d => exact absurd hmark (Option.some_ne_none d)

/-! ### What is written goes on with nothing -/

theorem readDigits?_of_symbol {k : Code} (h : isHexDigit k.symbol = false) (n : Nat)
    (s : List Char) : HexCode.readDigits? (n + 1) (k.text ++ s) = none := by
  show HexCode.readDigits? (n + 1) (sectionSign :: k.symbol :: s) = none
  rw [HexCode.readDigits?, if_neg]
  rintro ⟨-, hdigit⟩
  rw [h] at hdigit
  exact absurd hdigit Bool.false_ne_true

theorem not_isHexDigit_decoration (d : Decoration) :
    isHexDigit (Code.decoration d).symbol = false := by
  cases d <;> decide

theorem separate_of_symbol {k : Code} (h : isHexDigit k.symbol = false) (s : List Char) :
    Separate (k.text ++ s) where
  head := fun _ hc => (Option.some.inj hc).symm
  digits := readDigits?_of_symbol h 1 s

/-- No digit is read at the start of some text without codes. -/
theorem readDigits?_plain {text s : List Char} (hne : text ≠ []) (hcode : hasCode text = false)
    (hs : Separate s) (n : Nat) : HexCode.readDigits? (n + 1) (text ++ s) = none := by
  cases hread : HexCode.readDigits? (n + 1) (text ++ s) with
  | none => rfl
  | some p =>
    obtain ⟨heq, hlength, hdigits⟩ := HexCode.readDigits?_eq_some hread
    exfalso
    match hds : p.1, hlength with
    | d :: ds, _ =>
      rw [hds] at heq hdigits
      have hd : isHexDigit d = true := hdigits d List.mem_cons_self
      -- the first section sign is in the text, and its digit too unless the text ends there
      match text, hne with
      | [_], _ =>
        have htail : s = d :: (HexCode.spaced ds ++ p.2) := (List.cons.inj heq).2
        rw [hs.head d (by rw [htail]; rfl), not_isHexDigit_sectionSign] at hd
        exact absurd hd Bool.false_ne_true
      | c :: e :: text, _ =>
        obtain ⟨hc, htail⟩ := List.cons.inj heq
        obtain ⟨he, -⟩ := List.cons.inj htail
        have hnot := (hasCode_cons_eq_false hcode).1 hc e rfl
        rw [he, isCodeChar_of_isHexDigit hd] at hnot
        exact absurd hnot.symm Bool.false_ne_true

/-- No digit is read where decorations are added before text without codes. -/
theorem readDigits?_decorations (ds : List Decoration) {text s : List Char} (hne : text ≠ [])
    (hcode : hasCode text = false) (hs : Separate s) (n : Nat) :
    HexCode.readDigits? (n + 1) (decorationCodes ds ++ (text ++ s)) = none := by
  cases ds with
  | nil => exact readDigits?_plain hne hcode hs n
  | cons d ds =>
    rw [decorationCodes, List.flatMap_cons, List.append_assoc]
    exact readDigits?_of_symbol (not_isHexDigit_decoration d) n _

/-- After the code of a colour no second digit follows. -/
theorem separate_color (depth : Depth) (c : Color) {s : List Char}
    (hs : HexCode.readDigits? 1 s = none) : Separate (c.toCodes depth ++ s) := by
  have hcode : ∀ k : Code, Separate (k.text ++ s) := by
    intro k
    refine ⟨fun d hd => (Option.some.inj hd).symm, ?_⟩
    show HexCode.readDigits? 2 (sectionSign :: k.symbol :: s) = none
    rw [HexCode.readDigits?, hs]
    split <;> rfl
  have hhex : ∀ c : Rgb, Separate (HexCode.ofRgb c ++ s) := by
    intro c
    refine ⟨fun d hd => (Option.some.inj hd).symm, ?_⟩
    show HexCode.readDigits? 2 (sectionSign :: 'x' :: (HexCode.spaced c.digits ++ s)) = none
    rw [HexCode.readDigits?, if_neg]
    rintro ⟨-, hdigit⟩
    exact absurd hdigit (by decide)
  cases c with
  | palette c => exact hcode _
  | rgb c =>
    cases depth with
    | full => exact hhex c
    | palette => exact hcode _

/-- The codes before a style that differs from the one in front are separate. -/
theorem separate_switchStyle (depth : Depth) {current next : Style} (hne : next ≠ current)
    {text s : List Char} (htext : text ≠ []) (hcode : hasCode text = false) (hs : Separate s) :
    Separate (switchStyle depth current next ++ (text ++ s)) := by
  rw [switchStyle, if_neg hne]
  by_cases hends : current.endsBefore next = true
  · -- the reset comes first, whose character is no digit
    rw [if_pos hends, List.append_assoc]
    exact separate_of_symbol (by decide) _
  rw [if_neg hends]
  by_cases hcolor : next.color = current.color
  · -- a decoration comes first, whose character is no digit either
    obtain ⟨d, ds, hnew⟩ := Style.exists_new_decoration hne hends hcolor
    rw [if_neg (not_not.mpr hcolor), hnew, decorationCodes, List.flatMap_cons, List.append_assoc]
    exact separate_of_symbol (not_isHexDigit_decoration d) _
  · -- the character of a colour may be a digit, but what follows it is none
    obtain ⟨c, hc⟩ := Style.exists_color hends hcolor
    rw [if_pos hcolor, Style.toCodes, hc, List.append_assoc]
    exact separate_color depth c (readDigits?_decorations _ htext hcode hs 0)

/-- What is written for spans behind text of another style is separate. -/
theorem separate_spansToCodes (depth : Depth) : ∀ (spans : List Span) (current : Style),
    (∀ span ∈ spans, span.text ≠ [] ∧ hasCode span.text = false) →
    (current :: spans.map Span.style).IsChain (· ≠ ·) →
      Separate (spansToCodes depth current spans) := by
  intro spans
  induction spans with
  | nil => intro _ _ _; exact separate_nil
  | cons span spans ih =>
    intro current htext hstyles
    obtain ⟨hne, hstyles⟩ := List.isChain_cons_cons.mp hstyles
    obtain ⟨hnil, hcode⟩ := htext span List.mem_cons_self
    rw [spansToCodes, List.append_assoc]
    exact separate_switchStyle depth hne.symm hnil hcode
      (ih span.style (fun s hs => htext s (List.mem_cons_of_mem span hs)) hstyles)

/-! ### Reading what was written -/

/-- **The items of what is written for spans** without codes of their own are the
characters of the spans and the codes between them. -/
theorem items_spansToCodes (depth : Depth) : ∀ (spans : List Span) (current : Style),
    (∀ span ∈ spans, span.text ≠ [] ∧ hasCode span.text = false) →
    (spans.map Span.style).IsChain (· ≠ ·) →
      items (spansToCodes depth current spans) = spansToItems depth current spans := by
  intro spans
  induction spans with
  | nil => intro _ _ _; exact items_nil
  | cons span spans ih =>
    intro current htext hstyles
    obtain ⟨-, hcode⟩ := htext span List.mem_cons_self
    have hrest : ∀ s ∈ spans, s.text ≠ [] ∧ hasCode s.text = false :=
      fun s hs => htext s (List.mem_cons_of_mem span hs)
    have hseparate := separate_spansToCodes depth spans span.style hrest hstyles
    rw [spansToCodes, List.append_assoc, ← text_switchItems,
      items_marks (isMark_switchItems depth current span.style), items_plain hcode hseparate,
      ih span.style hrest hstyles.tail, spansToItems, List.append_assoc]

/-- The items of what is written for a document. -/
theorem items_toCodes {doc : Document} (hmerged : doc.IsMerged)
    (hcodes : ∀ span ∈ doc.spans, hasCode span.text = false) (depth : Depth) :
    items (doc.toCodes depth) = spansToItems depth .plain doc.spans :=
  items_spansToCodes depth doc.spans .plain
    (fun span hspan => ⟨hmerged.text_ne_nil span hspan, hcodes span hspan⟩)
    ((List.isChain_map Span.style).mpr hmerged.style_ne)

theorem exists_of_mem_spansToItems {depth : Depth} {current : Style} {spans : List Span}
    {c : Char} (h : Item.char c ∈ spansToItems depth current spans) :
    ∃ span ∈ spans, c ∈ span.text := by
  induction spans generalizing current with
  | nil => exact absurd h List.not_mem_nil
  | cons span spans ih =>
    rw [spansToItems, List.mem_append, List.mem_append] at h
    rcases h with (h | h) | h
    · exact absurd (isMark_switchItems depth current span.style _ h) (Option.some_ne_none c)
    · obtain ⟨d, hd, hc⟩ := List.mem_map.mp h
      rw [Item.char.injEq] at hc
      exact ⟨span, List.mem_cons_self, hc ▸ hd⟩
    · obtain ⟨s, hs, hc⟩ := ih h
      exact ⟨s, List.mem_cons_of_mem span hs, hc⟩

/-! ### Readings of codes -/

theorem has_foldl_insert (ds : List Decoration) (start : Decorations) (d : Decoration) :
    (ds.foldl Decorations.insert start).has d = true ↔ d ∈ ds ∨ start.has d = true := by
  induction ds generalizing start with
  | nil => simp
  | cons e ds ih =>
    rw [List.foldl_cons, ih, Decorations.has_insert, Bool.or_eq_true, beq_iff_eq, List.mem_cons]
    exact or_left_comm.trans or_assoc.symm

/-- A set is made of a part of it by all decorations that the part lacks. -/
theorem foldl_insert_eq {part whole : Decorations} {ds : List Decoration}
    (hpart : ∀ d, part.has d = true → whole.has d = true)
    (hds : ∀ d, d ∈ ds → whole.has d = true)
    (hrest : ∀ d, whole.has d = true → d ∈ ds ∨ part.has d = true) :
    ds.foldl Decorations.insert part = whole := by
  refine Decorations.ext_has fun d => Bool.eq_iff_iff.mpr ?_
  rw [has_foldl_insert]
  exact ⟨fun h => h.elim (hds d) (hpart d), hrest d⟩

/-- A reading of codes in which every style has a look: the reset leads to the look of
plain text, a decoration adds itself, and a colour sets itself.  Which decorations a
colour takes back is left to the reading. -/
structure IsReading (depth : Depth) {α : Type} (step : α → Item → α) (look : Style → α) :
    Prop where
  reset : ∀ s, step (look s) (.code .reset) = look .plain
  decoration : ∀ s d, step (look s) (.code (.decoration d)) = look (s.apply (.decoration d))
  color : ∀ s c, ∃ kept : Decorations, (∀ d, kept.has d = true → s.decorations.has d = true) ∧
    step (look s) (Color.toItem depth c) = look ⟨some c, kept⟩

namespace IsReading

variable {depth : Depth} {α : Type} {step : α → Item → α} {look : Style → α}

theorem foldl_decorationItems (h : IsReading depth step look) (ds : List Decoration) (s : Style) :
    (decorationItems ds).foldl step (look s) =
      look ⟨s.color, ds.foldl Decorations.insert s.decorations⟩ := by
  induction ds generalizing s with
  | nil => rfl
  | cons d ds ih =>
    show (decorationItems ds).foldl step (step (look s) _) = _
    rw [h.decoration, ih]
    rfl

/-- A style that is written behind a part of it is added to that part. -/
theorem foldl_toItems (h : IsReading depth step look) {current next : Style}
    (hdecorations : ∀ d, current.decorations.has d = true → next.decorations.has d = true)
    (hcolor : next.color = none → current.color = none) :
    (next.toItems depth).foldl step (look current) = look next := by
  obtain ⟨color, decorations⟩ := next
  rw [Style.toItems, List.foldl_append]
  have hall : ∀ part : Decorations, (∀ d, part.has d = true → decorations.has d = true) →
      decorations.toList.foldl Decorations.insert part = decorations := fun part hpart =>
    foldl_insert_eq hpart (fun d hd => Decorations.mem_toList.mp hd)
      fun d hd => Or.inl (Decorations.mem_toList.mpr hd)
  cases color with
  | none =>
    show (decorationItems decorations.toList).foldl step (look current) = _
    rw [h.foldl_decorationItems, hcolor rfl, hall _ hdecorations]
  | some c =>
    -- whatever the colour takes back, all decorations follow behind it
    obtain ⟨kept, hkept, hstep⟩ := h.color current c
    show (decorationItems decorations.toList).foldl step (step (look current) _) = _
    rw [hstep, h.foldl_decorationItems, hall _ fun d hd => hdecorations d (hkept d hd)]

/-- **The items between two styles lead from the look of the first to that of the
second.** -/
theorem foldl_switchItems (h : IsReading depth step look) (current next : Style) :
    (switchItems depth current next).foldl step (look current) = look next := by
  unfold switchItems
  by_cases hsame : next = current
  · rw [if_pos hsame, hsame]
    rfl
  rw [if_neg hsame]
  by_cases hends : current.endsBefore next = true
  · rw [if_pos hends, List.foldl_cons, h.reset]
    refine h.foldl_toItems (fun d hd => ?_) fun _ => rfl
    rw [show Style.plain.decorations.has d = false from Decorations.has_empty d] at hd
    exact absurd hd Bool.false_ne_true
  rw [if_neg hends]
  -- nothing ends, so the old style is a part of the new one
  obtain ⟨hdecorations, hcolor⟩ := Style.of_endsBefore_eq_false hends
  by_cases hchange : next.color = current.color
  · have hnew : (next.decorations.toList.filter fun d => !current.decorations.has d).foldl
        Decorations.insert current.decorations = next.decorations := by
      refine foldl_insert_eq hdecorations
        (fun d hd => Decorations.mem_toList.mp (List.mem_filter.mp hd).1) fun d hd => ?_
      cases hold : current.decorations.has d with
      | true => exact Or.inr rfl
      | false =>
        refine Or.inl (List.mem_filter.mpr ⟨Decorations.mem_toList.mpr hd, ?_⟩)
        rw [hold]
        rfl
    rw [if_neg (not_not.mpr hchange), h.foldl_decorationItems, hnew, ← hchange]
  · rw [if_pos hchange]
    exact h.foldl_toItems hdecorations hcolor

end IsReading

/-- **The look of written characters.**  In a reading of codes in which the codes between
two styles lead from the look of one to the look of the other, and no character
changes the look, each character has the look of its span's style. -/
theorem itemCells_spansToItems {α : Type} (step : α → Item → α) (look : Style → α)
    {depth : Depth}
    (hchar : ∀ (a : α) (c : Char), step a (.char c) = a)
    (hswitch : ∀ current next : Style,
      (switchItems depth current next).foldl step (look current) = look next) :
    ∀ (spans : List Span) (current : Style),
      itemCells step (look current) (spansToItems depth current spans) =
        spans.flatMap fun span => cellsOf span.text (look span.style) := by
  intro spans
  induction spans with
  | nil => intro _; rfl
  | cons span spans ih =>
    intro current
    rw [spansToItems, List.append_assoc, itemCells_append,
      itemCells_marks step (isMark_switchItems depth current span.style), List.nil_append, hswitch,
      itemCells_append, itemCells_chars step hchar, foldl_chars step hchar, ih,
      List.flatMap_cons]

end ChatTint
