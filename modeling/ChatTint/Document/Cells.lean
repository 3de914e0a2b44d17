import ChatTint.Document.Basic

/-!
# Documents character by character

The view of a document that does not show where its spans end: the characters in
order, each with its style.  Two documents without empty spans and without
neighbours of one style are equal if their views are.

* `Cell`, `Document.cells` — a styled character, and the view.
* `Document.ofCells` — the document of some cells.
* `cells_push` — what adding text does to the view.
* `map_fst_looks` — the characters of spans, in whatever look they are shown.
-/

namespace ChatTint

/-- A character and how it looks. -/
abbrev Cell (α : Type) := Char × α

/-- A text in one look, as cells. -/
def cellsOf {α : Type} (text : List Char) (look : α) : List (Cell α) :=
  text.map fun c => (c, look)

namespace Document

/-- The characters of a document, each with its style. -/
def cells (doc : Document) : List (Cell Style) :=
  doc.spans.flatMap fun span => cellsOf span.text span.style

/-- The document of some cells. -/
def ofCells (cells : List (Cell Style)) : Document :=
  cells.foldl (fun doc cell => doc.push [cell.1] cell.2) empty

@[simp] theorem cells_empty : empty.cells = [] := rfl

/-- Added text comes at the end of the view. -/
@[simp] theorem cells_push (doc : Document) (text : List Char) (style : Style) :
    (doc.push text style).cells = doc.cells ++ cellsOf text style := by
  unfold push cells
  split
  · next h => simp [h, cellsOf]
  · split
    · next last hlast =>
      obtain ⟨init, hinit⟩ := List.getLast?_eq_some_iff.mp hlast
      split
      · next hstyle => simp [hinit, cellsOf, hstyle]
      · simp [hinit]
    · next hnone => simp [List.getLast?_eq_none_iff.mp hnone]

/-- The view of the document of some cells is those cells. -/
theorem cells_ofCells (cells : List (Cell Style)) : (ofCells cells).cells = cells := by
  have general : ∀ (doc : Document),
      (cells.foldl (fun doc cell => doc.push [cell.1] cell.2) doc).cells = doc.cells ++ cells := by
    induction cells with
    | nil => simp
    | cons cell rest ih =>
      intro doc
      simp [ih, cellsOf]
  simpa [ofCells] using general empty

/-- In whatever look the spans are shown, their characters are the plain text. -/
theorem map_fst_looks {α : Type} (doc : Document) (look : Style → α) :
    (doc.spans.flatMap fun span => cellsOf span.text (look span.style)).map Prod.fst =
      doc.plainText := by
  simp [plainText, cellsOf, List.map_flatMap, Function.comp_def]

end Document
end ChatTint
