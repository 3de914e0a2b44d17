import ChatTint.Proofs.Legacy.Writer
import ChatTint.Proofs.Markup.Pieces

/-!
# Written documents in the game

In the reading that the game gives to codes a colour takes every decoration back.  A
terminal would not tell whether the writer repeats the decorations behind a colour: it
keeps them in any case.  The game tells, and shows every character of a written
document as its style asks.

## Main definitions

* `Style.shown` — a style as it is shown, with no other colours than may be written.

## Main results

* `isReading_restyle` — the game reads codes so that styles are shown.
* `gameCells_toCodes` — what the game shows of a written document.
-/

namespace ChatTint

/-! ### Styles as they are shown -/

/-- A colour as it is shown: with the palette only, a colour outside is the nearest one of
the palette. -/
def Color.shown (depth : Depth) : Color → Color
  | palette c => palette c
  | rgb c =>
    match depth with
    | .full => rgb c
    | .palette => palette (PaletteColor.nearest c)

/-- A style as it is shown. -/
def Style.shown (depth : Depth) (s : Style) : Style where
  color := s.color.map (Color.shown depth)
  decorations := s.decorations

/-- The item of a colour shows that colour, without any decoration. -/
theorem restyle_toItem (depth : Depth) (c : Color) (s : Style) :
    Item.restyle s (c.toItem depth) = Style.shown depth ⟨some c, .empty⟩ := by
  cases c with
  | palette c => rfl
  | rgb c => cases depth <;> rfl

/-- The game reads codes so that styles are shown.  A colour takes all decorations back. -/
theorem isReading_restyle (depth : Depth) :
    IsReading depth Item.restyle (Style.shown depth) where
  reset := fun _ => rfl
  decoration := fun _ _ => rfl
  color := fun s c => ⟨.empty, fun d hd => absurd hd (by simp), restyle_toItem depth c _⟩

/-! ### What the game shows -/

theorem gameCells_eq_itemCells (style : Style) (items : List Item) :
    gameCells style items = itemCells Item.restyle style items := by
  induction items generalizing style with
  | nil => rfl
  | cons item items ih =>
    cases item with
    | hex c => exact ih _
    | code k => exact ih _
    | char c => exact congrArg ((c, style) :: ·) (ih style)

/-- **The game shows a written document as its styles ask.**  What is written for the
document of a text, whose spans hold no codes of their own, is shown as the document's
characters in order, each with the colour and the decorations of its span. -/
theorem gameCells_toCodes (depth : Depth) {text : List Char} {doc : Document}
    (hparse : parse text = .ok doc) (hcodes : ∀ span ∈ doc.spans, hasCode span.text = false) :
    gameCells .plain (items (doc.toCodes depth)) =
        (doc.spans.flatMap fun span => cellsOf span.text (span.style.shown depth)) ∧
      (gameCells .plain (items (doc.toCodes depth))).map Prod.fst = doc.plainText := by
  have hcells := itemCells_spansToItems Item.restyle (Style.shown depth) (fun _ _ => rfl)
    (isReading_restyle depth).foldl_switchItems doc.spans .plain
  have hshown : gameCells .plain (items (doc.toCodes depth)) =
      doc.spans.flatMap fun span => cellsOf span.text (span.style.shown depth) := by
    rw [items_toCodes (isMerged_of_parse hparse) hcodes, gameCells_eq_itemCells, ← hcells]
    rfl
  exact ⟨hshown, by rw [hshown, doc.map_fst_looks]⟩

theorem gameCells_toCodes_repeated_decorations :
    let text := "<b>a§x<red>b§<i>c</i><#c34512>§x</#c34512></red>d</b>§".toList
    let bold : Decorations := { bold := true }
    let doc : Document := ⟨[⟨"a§x".toList, ⟨none, bold⟩⟩,
      ⟨"b§".toList, ⟨some (.palette .red), bold⟩⟩,
      ⟨"c".toList, ⟨some (.palette .red), { bold := true, italic := true }⟩⟩,
      ⟨"§x".toList, ⟨some (.rgb ⟨195, 69, 18⟩), bold⟩⟩,
      ⟨"d".toList, ⟨none, bold⟩⟩, ⟨"§".toList, .plain⟩]⟩
    parse text = .ok doc ∧ (∀ span ∈ doc.spans, hasCode span.text = false) ∧
    doc.toCodes .full = "§la§x§c§lb§§oc§r§x§c§3§4§5§1§2§l§x§r§ld§r§".toList ∧
    doc.toCodes .palette = "§la§x§c§lb§§oc§r§4§l§x§r§ld§r§".toList ∧
    gameCells .plain (items (doc.toCodes .full)) = doc.cells ∧
    gameCells .plain (items (doc.toCodes .palette)) =
      cellsOf "a§x".toList ⟨none, bold⟩ ++ cellsOf "b§".toList ⟨some (.palette .red), bold⟩ ++
      [('c', ⟨some (.palette .red), { bold := true, italic := true }⟩)] ++
      cellsOf "§x".toList ⟨some (.palette .darkRed), bold⟩ ++
      [('d', ⟨none, bold⟩), ('§', .plain)] := by
  intro text bold doc
  have hparse : parse text = .ok doc := by decide +kernel
  have hcodes : ∀ span ∈ doc.spans, hasCode span.text = false := by decide +kernel
  exact ⟨hparse, hcodes, by decide +kernel, by decide +kernel,
    (gameCells_toCodes .full hparse hcodes).1.trans (by decide +kernel),
    (gameCells_toCodes .palette hparse hcodes).1.trans (by decide +kernel)⟩

end ChatTint
