import ChatTint.Proofs.Compile.Passes
import ChatTint.Proofs.Legacy.Writer
import ChatTint.Proofs.Terminal.Screen

/-!
# The compiler keeps the meaning of markup

A style says with which pen a terminal should put its characters on the screen.
The escape sequences between two spans take the pen of the first style to that of
the second: where something ends there is a reset in front, and where nothing ends
the old pen already has a part of the new one.  So every character of a document is
shown as its style asks, and nothing of a style is left at the end.

## Main definitions

* `Style.pen` — the pen that a style asks for.
* `Item.paint` — the pen behind an item.

## Main results

* `display_items` — what is shown of the sequences of some items.
* `isReading_paint` — a terminal reads codes so that styles have their pens.
* `display_compile` — what is shown of a compiled text.
-/

namespace ChatTint

/-! ### The pen of a style -/

/-- The rendition that shows a colour. -/
def Color.rendition (depth : Depth) : Color → Rendition
  | .palette c => (Code.color c).rendition
  | .rgb c =>
    match depth with
    | .full => .trueColor c
    | .palette => (Code.color (PaletteColor.nearest c)).rendition

/-- The pen that a style asks for.  Obfuscated text is shown in reverse. -/
def Style.pen (depth : Depth) (s : Style) : Pen where
  foreground := s.color.map (Color.rendition depth)
  bold := s.decorations.bold
  italic := s.decorations.italic
  underline := s.decorations.underlined
  strikethrough := s.decorations.strikethrough
  reverse := s.decorations.obfuscated

theorem pen_plain (depth : Depth) : Style.plain.pen depth = {} := rfl

theorem take_color (depth : Depth) (c : Color) (s : Style) :
    (s.pen depth).take (c.rendition depth) = (s.apply (.color c)).pen depth := by
  cases c with
  | palette c => rfl
  | rgb c => cases depth <;> rfl

theorem take_decoration (depth : Depth) (d : Decoration) (s : Style) :
    (s.pen depth).take (Code.decoration d).rendition = (s.apply (.decoration d)).pen depth := by
  cases d <;> rfl

/-! ### Items on the screen -/

/-- The pen behind an item. -/
def Item.paint (pen : Pen) : Item → Pen
  | hex c => pen.take (.trueColor c)
  | code k => pen.take k.rendition
  | char _ => pen

/-- What is shown of the sequences and characters of some items. -/
theorem display_items {items : List Item} (h : Item.char escapeChar ∉ items) (pen : Pen) :
    display pen (items.flatMap Item.escape) =
      (itemCells Item.paint pen items, items.foldl Item.paint pen) := by
  induction items generalizing pen with
  | nil => exact display_nil pen
  | cons item items ih =>
    have hrest := ih fun hmem => h (List.mem_cons_of_mem item hmem)
    rw [List.flatMap_cons]
    cases item with
    | hex c => exact (display_escape pen _ _).trans (hrest _)
    | code k => exact (display_escape pen _ _).trans (hrest _)
    | char c =>
      have hc : c ≠ escapeChar := by
        rintro rfl
        exact h List.mem_cons_self
      show display pen (c :: items.flatMap Item.escape) = _
      rw [display_char hc, hrest]
      rfl

/-! ### From pen to pen -/

theorem paint_toItem (depth : Depth) (c : Color) (s : Style) :
    Item.paint (s.pen depth) (c.toItem depth) = (s.apply (.color c)).pen depth := by
  rw [← take_color]
  cases c with
  | palette c => rfl
  | rgb c => cases depth <;> rfl

/-- A terminal reads codes so that styles have their pens.  A colour keeps all
decorations. -/
theorem isReading_paint (depth : Depth) : IsReading depth Item.paint (Style.pen depth) where
  reset := fun _ => rfl
  decoration := fun s d => take_decoration depth d s
  color := fun s c => ⟨s.decorations, fun _ hd => hd, paint_toItem depth c s⟩

/-- The items between two styles lead from the pen of the first to that of the second. -/
theorem foldl_switchItems (depth : Depth) (current next : Style) :
    (switchItems depth current next).foldl Item.paint (current.pen depth) = next.pen depth :=
  (isReading_paint depth).foldl_switchItems current next

/-! ### Compiled text on the screen -/

/-- What is sent to the terminal for a document, with the reset behind it. -/
theorem render_toCodes {doc : Document} (hmerged : doc.IsMerged)
    (hcodes : ∀ span ∈ doc.spans, hasCode span.text = false) (depth : Depth) :
    render (doc.toCodes depth) ++ resetSequence =
      (spansToItems depth .plain doc.spans ++ [Item.code .reset]).flatMap Item.escape := by
  rw [render_eq_items, items_toCodes hmerged hcodes, List.flatMap_append]
  rfl

/-- Without an escape character in the text there is none to be shown. -/
theorem escapeChar_notMem_items {text : List Char} {doc : Document} (hparse : parse text = .ok doc)
    (hescape : escapeChar ∉ text) (depth : Depth) :
    Item.char escapeChar ∉ spansToItems depth .plain doc.spans ++ [Item.code .reset] := by
  intro h
  rcases List.mem_append.mp h with h | h
  · obtain ⟨span, hspan, hc⟩ := exists_of_mem_spansToItems h
    have hplain : escapeChar ∈ doc.plainText := List.mem_flatMap.mpr ⟨span, hspan, hc⟩
    rcases mem_plainText_of_parse hparse hplain with h | h
    · exact hescape h
    · exact absurd h (by decide)
  · exact absurd (List.mem_singleton.mp h) (by simp)

/-- **The compiler keeps the meaning of markup.**  A text without escape sequences that
is markup, and whose spans hold no codes of their own, is shown character by
character in the styles of its document, and the terminal is left as it was. -/
theorem display_compile (depth : Depth) (maxPasses : Nat) {text : List Char} {doc : Document}
    (hparse : parse text = .ok doc) (hescape : escapeChar ∉ text)
    (hcodes : ∀ span ∈ doc.spans, hasCode span.text = false) :
    display {} (compile depth maxPasses text).output =
        (doc.spans.flatMap fun span => cellsOf span.text (span.style.pen depth), {}) ∧
      (display {} (compile depth maxPasses text).output).1.map Prod.fst = doc.plainText := by
  have hcells := itemCells_spansToItems Item.paint (Style.pen depth) (fun _ _ => rfl)
    (foldl_switchItems depth) doc.spans .plain
  have hdisplay : display {} (compile depth maxPasses text).output =
      (doc.spans.flatMap fun span => cellsOf span.text (span.style.pen depth), {}) := by
    rw [output_of_parse hparse, render_toCodes (isMerged_of_parse hparse) hcodes,
      display_items (escapeChar_notMem_items hparse hescape depth), itemCells_append,
      ← pen_plain depth, hcells, List.foldl_append]
    -- the reset at the end shows nothing and takes any pen back
    exact Prod.ext (List.append_nil _) rfl
  refine ⟨hdisplay, ?_⟩
  rw [hdisplay, Document.plainText, List.map_flatMap]
  simp [cellsOf, Function.comp_def]

theorem display_unfinished_codes :
    parse "a§<b>x§x<#1A2F3c>§§<i>§x§</i></b>z".toList = .ok ⟨[⟨"a§".toList, {}⟩,
      ⟨"x§x".toList, { decorations := { bold := true } }⟩,
      ⟨"§§".toList, { color := some (.rgb ⟨26, 47, 60⟩), decorations := { bold := true } }⟩,
      ⟨"§x§".toList,
        { color := some (.rgb ⟨26, 47, 60⟩), decorations := { bold := true, italic := true } }⟩,
      ⟨"z".toList, {}⟩]⟩ ∧
    (compile .full 8 "a§<b>x§x<#1A2F3c>§§<i>§x§</i></b>z".toList).output =
      "a§\x1b[1mx§x\x1b[38;2;26;47;60m\x1b[1m§§\x1b[3m§x§\x1b[0mz\x1b[0m".toList ∧
    display {} (compile .full 8 "a§<b>x§x<#1A2F3c>§§<i>§x§</i></b>z".toList).output =
      (cellsOf "a§".toList ({} : Pen) ++ cellsOf "x§x".toList { bold := true } ++
        cellsOf "§§".toList { foreground := some (.trueColor ⟨26, 47, 60⟩), bold := true } ++
        cellsOf "§x§".toList
          { foreground := some (.trueColor ⟨26, 47, 60⟩), bold := true, italic := true } ++
        cellsOf "z".toList ({} : Pen), {}) := by
  have hparse : parse "a§<b>x§x<#1A2F3c>§§<i>§x§</i></b>z".toList = .ok ⟨[⟨"a§".toList, {}⟩,
      ⟨"x§x".toList, { decorations := { bold := true } }⟩,
      ⟨"§§".toList, { color := some (.rgb ⟨26, 47, 60⟩), decorations := { bold := true } }⟩,
      ⟨"§x§".toList,
        { color := some (.rgb ⟨26, 47, 60⟩), decorations := { bold := true, italic := true } }⟩,
      ⟨"z".toList, {}⟩]⟩ := by decide +kernel
  exact ⟨hparse, by decide +kernel,
    (display_compile .full 8 hparse (by decide +kernel) (by decide +kernel)).1.trans
      (by decide +kernel)⟩

end ChatTint
