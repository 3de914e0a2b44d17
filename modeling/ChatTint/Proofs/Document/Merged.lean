import Mathlib.Data.List.Chain
import ChatTint.Document.Cells

/-!
# Documents in their one form

Text that is added to a document joins the last span where the styles agree, so
it does not matter in how many pieces a text is added, and a document built that
way has neither empty spans nor two spans of one style in a row.

## Main definitions

* `Document.IsMerged` — no span is empty, and neighbours differ in style.
* `Document.pushCells` — styled characters added at the end.
* `Document.join` — two documents one after the other.

## Main results

* `Document.push_append` — a text may be added in two pieces.
* `Document.isMerged_push` — adding text keeps the form.
* `Document.ofCells_cells` — a merged document is told by its styled characters.
* `Document.pushCells_cells` — a merged document is added as a whole by `join`.
-/

namespace ChatTint

namespace Document

/-! ### Adding text to spans -/

theorem push_to_none (style : Style) {text : List Char} (h : text ≠ []) :
    (⟨[]⟩ : Document).push text style = ⟨[⟨text, style⟩]⟩ := by
  rw [push, if_neg h]
  rfl

/-- Text of the last span's style joins that span. -/
theorem push_to_same (spans : List Span) (init text : List Char) (style : Style) :
    (⟨spans ++ [⟨init, style⟩]⟩ : Document).push text style =
      ⟨spans ++ [⟨init ++ text, style⟩]⟩ := by
  by_cases h : text = []
  · rw [h, push_nil, List.append_nil]
  · rw [push, if_neg h, List.getLast?_concat]
    simp

/-- Text of another style begins a span. -/
theorem push_to_other (spans : List Span) {last : Span} {text : List Char} {style : Style}
    (h : text ≠ []) (hstyle : last.style ≠ style) :
    (⟨spans ++ [last]⟩ : Document).push text style = ⟨spans ++ [last] ++ [⟨text, style⟩]⟩ := by
  rw [push, if_neg h, List.getLast?_concat]
  simp only [if_neg hstyle]

/-- **A text may be added in two pieces.** -/
theorem push_append (doc : Document) (s t : List Char) (style : Style) :
    doc.push (s ++ t) style = (doc.push s style).push t style := by
  obtain ⟨spans⟩ := doc
  by_cases hs : s = []
  · rw [hs, List.nil_append, push_nil]
  have hst : s ++ t ≠ [] := fun h => hs (List.append_eq_nil_iff.mp h).1
  rcases List.eq_nil_or_concat spans with rfl | ⟨init, last, rfl⟩
  · rw [push_to_none style hst, push_to_none style hs]
    exact (push_to_same [] s t style).symm
  rw [List.concat_eq_append]
  by_cases hstyle : last.style = style
  · obtain ⟨text, lastStyle⟩ := last
    obtain rfl : lastStyle = style := hstyle
    rw [push_to_same, push_to_same, push_to_same, List.append_assoc]
  · rw [push_to_other init hst hstyle, push_to_other init hs hstyle, push_to_same]

/-! ### Merged documents -/

/-- No span is empty, and spans that follow on each other differ in style. -/
structure IsMerged (doc : Document) : Prop where
  text_ne_nil : ∀ span ∈ doc.spans, span.text ≠ []
  style_ne : doc.spans.IsChain fun span next => span.style ≠ next.style

theorem isMerged_empty : empty.IsMerged where
  text_ne_nil := fun _ hspan => absurd hspan List.not_mem_nil
  style_ne := List.IsChain.nil

/-- Adding text keeps a document merged. -/
theorem isMerged_push {doc : Document} (h : doc.IsMerged) (text : List Char) (style : Style) :
    (doc.push text style).IsMerged := by
  obtain ⟨spans⟩ := doc
  obtain ⟨htext, hstyle⟩ := h
  by_cases hnil : text = []
  · rw [hnil, push_nil]
    exact ⟨htext, hstyle⟩
  rcases List.eq_nil_or_concat spans with rfl | ⟨init, last, rfl⟩
  · rw [push_to_none style hnil]
    refine ⟨fun span hspan => ?_, List.isChain_singleton _⟩
    rw [List.mem_singleton.mp hspan]
    exact hnil
  rw [List.concat_eq_append] at htext hstyle ⊢
  by_cases hlast : last.style = style
  · obtain ⟨lastText, lastStyle⟩ := last
    obtain rfl : lastStyle = style := hlast
    rw [push_to_same]
    refine ⟨fun span hspan => ?_, ?_⟩
    · rcases List.mem_append.mp hspan with hspan | hspan
      · exact htext span (List.mem_append_left _ hspan)
      · rw [List.mem_singleton.mp hspan]
        exact fun h => hnil (List.append_eq_nil_iff.mp h).2
    · -- the last span keeps its style, so it differs from the one before it as it did
      rw [List.isChain_append] at hstyle ⊢
      refine ⟨hstyle.1, List.isChain_singleton _, fun span hspan next hnext => ?_⟩
      have hold := hstyle.2.2 span hspan ⟨lastText, lastStyle⟩ rfl
      rw [← Option.some.inj hnext]
      exact hold
  · rw [push_to_other init hnil hlast]
    refine ⟨fun span hspan => ?_, ?_⟩
    · rcases List.mem_append.mp hspan with hspan | hspan
      · exact htext span hspan
      · rw [List.mem_singleton.mp hspan]
        exact hnil
    · rw [List.isChain_append]
      refine ⟨hstyle, List.isChain_singleton _, fun span hspan next hnext => ?_⟩
      rw [List.getLast?_concat] at hspan
      rw [← Option.some.inj hspan, ← Option.some.inj hnext]
      exact hlast

/-! ### Merged documents and their cells -/

/-- The document with styled characters added at the end. -/
def pushCells (doc : Document) (cells : List (Cell Style)) : Document :=
  cells.foldl (fun doc cell => doc.push [cell.1] cell.2) doc

theorem pushCells_append (doc : Document) (a b : List (Cell Style)) :
    doc.pushCells (a ++ b) = (doc.pushCells a).pushCells b := List.foldl_append

/-- A text may be added character by character. -/
theorem pushCells_cellsOf (doc : Document) (text : List Char) (style : Style) :
    doc.pushCells (cellsOf text style) = doc.push text style := by
  induction text generalizing doc with
  | nil => rfl
  | cons c text ih =>
    have hsplit : doc.push (c :: text) style = (doc.push [c] style).push text style :=
      push_append doc [c] text style
    rw [hsplit, ← ih]
    rfl

/-- The next span of a merged document is what its text adds. -/
theorem push_next {init spans : List Span} {span : Span}
    (h : (⟨init ++ span :: spans⟩ : Document).IsMerged) :
    (⟨init⟩ : Document).push span.text span.style = ⟨init ++ [span]⟩ := by
  have hnil : span.text ≠ [] :=
    h.text_ne_nil span (List.mem_append_right _ List.mem_cons_self)
  rcases List.eq_nil_or_concat init with rfl | ⟨init, last, rfl⟩
  · exact push_to_none span.style hnil
  · have hchain := h.style_ne
    rw [List.concat_eq_append] at hchain ⊢
    have hlast : last.style ≠ span.style :=
      (List.isChain_append.mp hchain).2.2 last List.getLast?_concat span rfl
    exact push_to_other init hnil hlast

/-- Spans may be added by their characters, if that leaves the document merged. -/
theorem pushCells_spans {init spans : List Span} (h : (⟨init ++ spans⟩ : Document).IsMerged) :
    (⟨init⟩ : Document).pushCells (⟨spans⟩ : Document).cells = ⟨init ++ spans⟩ := by
  induction spans generalizing init with
  | nil =>
    rw [List.append_nil]
    rfl
  | cons span spans ih =>
    have hcells : (⟨span :: spans⟩ : Document).cells =
        cellsOf span.text span.style ++ (⟨spans⟩ : Document).cells := List.flatMap_cons
    rw [hcells, pushCells_append, pushCells_cellsOf, push_next h]
    have hmoved : init ++ span :: spans = (init ++ [span]) ++ spans := List.append_cons ..
    rw [hmoved] at h ⊢
    exact ih h

/-- **A merged document is told by its styled characters.** -/
theorem ofCells_cells {doc : Document} (h : doc.IsMerged) : ofCells doc.cells = doc :=
  @pushCells_spans [] doc.spans h

/-! ### Documents one after the other -/

/-- Two documents one after the other.  The last span of the first and the first span of
the second become one if their styles agree. -/
def join (doc next : Document) : Document :=
  match doc.spans.getLast?, next.spans with
  | some last, span :: spans =>
    if last.style = span.style then
      ⟨doc.spans.dropLast ++ ⟨last.text ++ span.text, span.style⟩ :: spans⟩
    else ⟨doc.spans ++ next.spans⟩
  | _, _ => ⟨doc.spans ++ next.spans⟩

/-- The document without text adds nothing. -/
theorem join_empty (doc : Document) : doc.join empty = doc := by
  unfold join
  split
  · next h => exact absurd h (List.cons_ne_nil _ _).symm
  · rw [empty, List.append_nil]

theorem join_to_concat (init : List Span) (last span : Span) (spans : List Span) :
    (⟨init ++ [last]⟩ : Document).join ⟨span :: spans⟩ =
      if last.style = span.style then ⟨init ++ ⟨last.text ++ span.text, span.style⟩ :: spans⟩
      else ⟨init ++ [last] ++ span :: spans⟩ := by
  simp [join]

theorem IsMerged.tail {span : Span} {spans : List Span}
    (h : (⟨span :: spans⟩ : Document).IsMerged) : (⟨spans⟩ : Document).IsMerged where
  text_ne_nil := fun s hs => h.text_ne_nil s (List.mem_cons_of_mem span hs)
  style_ne := h.style_ne.tail

/-- Merged documents of which the second begins in another style than that in which the
first ends are merged one after the other. -/
theorem IsMerged.append {doc next : Document} (h : doc.IsMerged) (hnext : next.IsMerged)
    (hstyles : ∀ last ∈ doc.spans.getLast?, ∀ span ∈ next.spans.head?, last.style ≠ span.style) :
    (⟨doc.spans ++ next.spans⟩ : Document).IsMerged where
  text_ne_nil := by
    intro span hspan
    rcases List.mem_append.mp hspan with hspan | hspan
    · exact h.text_ne_nil span hspan
    · exact hnext.text_ne_nil span hspan
  style_ne := List.isChain_append.mpr ⟨h.style_ne, hnext.style_ne, hstyles⟩

/-- **The characters of a merged document may be added to another one** by setting the
documents one after the other. -/
theorem pushCells_cells {doc next : Document} (h : doc.IsMerged) (hnext : next.IsMerged) :
    doc.pushCells next.cells = doc.join next := by
  obtain ⟨spans⟩ := next
  cases spans with
  | nil => exact (join_empty doc).symm
  | cons span spans =>
    obtain ⟨docSpans⟩ := doc
    rcases List.eq_nil_or_concat docSpans with rfl | ⟨init, last, rfl⟩
    · exact pushCells_spans hnext
    rw [List.concat_eq_append] at h ⊢
    rw [join_to_concat]
    by_cases hstyle : last.style = span.style
    · -- the first span joins the last one, and the others follow behind both
      have hcells : (⟨span :: spans⟩ : Document).cells =
          cellsOf span.text span.style ++ (⟨spans⟩ : Document).cells := List.flatMap_cons
      obtain ⟨text, lastStyle⟩ := last
      obtain rfl : lastStyle = span.style := hstyle
      have hfirst := isMerged_push h span.text span.style
      rw [push_to_same] at hfirst
      have hboth := hfirst.append hnext.tail fun last hlast s hs => by
        rw [List.getLast?_concat] at hlast
        rw [← Option.some.inj hlast]
        exact (List.isChain_cons.mp hnext.style_ne).1 s hs
      rw [if_pos rfl, hcells, pushCells_append, pushCells_cellsOf, push_to_same,
        pushCells_spans hboth, List.append_assoc]
      rfl
    · rw [if_neg hstyle]
      refine pushCells_spans (h.append hnext fun l hl s hs => ?_)
      rw [List.getLast?_concat] at hl
      rw [← Option.some.inj hl, ← Option.some.inj hs]
      exact hstyle

end Document
end ChatTint
