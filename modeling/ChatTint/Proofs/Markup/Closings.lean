import Mathlib.Data.Set.List
import ChatTint.Proofs.Markup.Places
import ChatTint.Proofs.Markup.PlainText
import ChatTint.Proofs.Markup.Tree

/-!
# Closing tags inside each other

A closing tag closes the innermost open tag that it fits, and with it all that was opened
inside.  It comes to the same if these are closed first, one after the other, each by the
tag text that opened it: such a tag closes the innermost one of all, whatever it would
fit further out.  So overlapping tags can be written as nested ones.

## Main definitions

* `TagText.closing`, `TagText.closes` — the closing tag of a tag text, and what it fits.
* `Parser.OpenedBy` — the tag texts by which the open tags were opened.

## Main results

* `Parser.readAll_closings` — closing the innermost tags, one after the other.
* `Parser.read_closing_outer` — closing a tag that others were opened in.
* `parse_close_outer` — a closing tag, and the closing tags of all inside in front of it.
-/

namespace ChatTint

/-! ### Closing tags in a text -/

/-- The closing tag of a tag text, as it is written. -/
def TagText.closing (tag : TagText) : List Char := (Token.closeTag tag.text).source

/-- Whether the closing tag of a tag text closes what another one opens. -/
def TagText.closes (close tag : TagText) : Bool :=
  (Key.ofText close.text).fits (Key.ofText tag.text)

theorem pieces_closings (tags : List TagText) (s : List Char) :
    pieces (tags.flatMap TagText.closing ++ s) =
      tags.map (fun tag => Token.closeTag tag.text) ++ pieces s := by
  induction tags with
  | nil => rfl
  | cons tag tags ih =>
    rw [List.flatMap_cons, List.append_assoc, TagText.closing, pieces_closeTag tag.valid, ih]
    rfl

/-- Closing tags behind a text are read from where the text ends. -/
theorem parse_append_closings {a : List Char} {p : Parser} (ha : a.getLast? ≠ some '\\')
    (hread : Parser.start.readAll (tokenize a) = .ok p) {tags : List TagText} (htags : tags ≠ [])
    (b : List Char) :
    parse (a ++ (tags.flatMap TagText.closing ++ b)) =
      (p.readAll (tags.map (fun tag => Token.closeTag tag.text) ++ pieces b)).map
        Parser.document := by
  rw [← pieces_closings]
  cases tags with
  | nil => exact absurd rfl htags
  | cons tag tags => exact parse_append_bracket ha hread

/-! ### The tags by which open tags were opened -/

/-- The open tags were opened by some tag texts, of which the first one opened the outermost
tag. -/
def Parser.OpenedBy (p : Parser) (tags : List TagText) : Prop :=
  List.Forall₂ OpenTag.OpenedBy p.opened (tags.reverse.map TagText.text)

/-- What stands in an opening tag of a text is a tag text. -/
theorem isTagText_of_mem_tokenize {text tag : List Char} (h : Token.openTag tag ∈ tokenize text) :
    isTagText tag = true := by
  obtain ⟨front, back, htokens⟩ := List.append_of_mem h
  obtain ⟨content, -, hcontent⟩ := fits_of_tokenize htokens
  cases tagOf_iff.mpr hcontent with
  | opening hpattern => exact isTagText_iff.mpr hpattern

/-- At the end of a text every open tag was opened by a tag of the text, in order. -/
theorem exists_openedBy {a : List Char} {p : Parser}
    (hread : Parser.start.readAll (tokenize a) = .ok p) :
    ∃ tags : List TagText,
      (tags.map fun tag => Token.openTag tag.text).Sublist (tokenize a) ∧ p.OpenedBy tags := by
  obtain ⟨texts, hsub, htexts⟩ := Parser.exists_tags_of_readAll hread
  have hvalid : texts.reverse ∈ Set.range (List.map TagText.text) := by
    rw [Set.range_list_map]
    intro text htext
    have hmem : Token.openTag text ∈ tokenize a := hsub.subset (List.mem_map_of_mem htext)
    exact ⟨{ text, valid := isTagText_of_mem_tokenize hmem }, rfl⟩
  obtain ⟨tags, htags⟩ := hvalid
  refine ⟨tags, ?_, ?_⟩
  · rw [← htags, List.map_map] at hsub
    exact hsub
  · rw [Parser.OpenedBy, List.map_reverse, htags, List.reverse_reverse]
    exact htexts

/-- The open tag that one of the tag texts opened, those inside it and those around it. -/
theorem Parser.OpenedBy.split {p : Parser} {outer inner : List TagText} {tag : TagText}
    (h : p.OpenedBy (outer ++ tag :: inner)) :
    ∃ inside frame around, p.opened = inside ++ frame :: around ∧ frame.OpenedBy tag.text ∧
      List.Forall₂ OpenTag.OpenedBy inside (inner.reverse.map TagText.text) := by
  have htags : (outer ++ tag :: inner).reverse.map TagText.text =
      inner.reverse.map TagText.text ++ tag.text :: outer.reverse.map TagText.text := by
    simp
  rw [Parser.OpenedBy, htags] at h
  have hinside := List.forall₂_take_append _ _ _ h
  obtain ⟨frame, around, hframe, -, hdrop⟩ :=
    List.forall₂_cons_right_iff.mp (List.forall₂_drop_append _ _ _ h)
  refine ⟨_, frame, around, ?_, hframe, hinside⟩
  rw [← hdrop, List.take_append_drop]

/-! ### Closing the innermost tags -/

namespace Parser

/-- **Closing the innermost tags, one after the other**, by the tag texts that opened them. -/
theorem readAll_closings (document : Document) {inner : List OpenTag} {tags : List (List Char)}
    (h : List.Forall₂ OpenTag.OpenedBy inner tags) (outer : List OpenTag) :
    ({ opened := inner ++ outer, document } : Parser).readAll (tags.map Token.closeTag) =
      .ok { opened := outer, document } := by
  induction h with
  | nil => rfl
  | @cons frame tag inner tags hframe _ ih =>
    have hclose : closeInnermost? (Key.ofText tag) (frame :: (inner ++ outer)) =
        some (inner ++ outer) := by
      rw [closeInnermost?, if_pos hframe.fits]
    rw [List.map_cons, readAll_cons, read, onClose, List.cons_append, hclose]
    exact ih

/-- **Closing a tag that others were opened in** closes these too. -/
theorem read_closing_outer (document : Document) {inner : List OpenTag} {frame : OpenTag}
    {close : List Char} (hfits : (Key.ofText close).fits frame.key = true)
    (hinner : ∀ f ∈ inner, (Key.ofText close).fits f.key = false) (outer : List OpenTag) :
    ({ opened := inner ++ frame :: outer, document } : Parser).read (.closeTag close) =
      .ok { opened := outer, document } := by
  have hclose : closeInnermost? (Key.ofText close) (inner ++ frame :: outer) = some outer := by
    rw [closeInnermost?_append hinner, closeInnermost?, if_pos hfits]
  rw [read, onClose, hclose]

/-- **Closing a tag, and closing those inside it first**, comes to the same. -/
theorem readAll_close_outer {p : Parser} {outer inner : List TagText} {tag close : TagText}
    (hopened : p.OpenedBy (outer ++ tag :: inner)) (hcloses : close.closes tag = true)
    (hinner : ∀ t ∈ inner, close.closes t = false) :
    p.readAll [.closeTag close.text] =
      p.readAll ((inner.reverse ++ [close]).map fun t => Token.closeTag t.text) := by
  obtain ⟨inside, frame, around, hsplit, hframe, hinside⟩ := hopened.split
  obtain ⟨opened, document⟩ := p
  obtain rfl : opened = inside ++ frame :: around := hsplit
  have hfits : (Key.ofText close.text).fits frame.key = true := by
    rw [hframe.key]
    exact hcloses
  have hnone : ∀ f ∈ inside, (Key.ofText close.text).fits f.key = false := by
    intro f hf
    obtain ⟨text, htext, hopened⟩ := exists_openedBy_of_mem hinside hf
    obtain ⟨t, ht, rfl⟩ := List.mem_map.mp htext
    rw [hopened.key]
    exact hinner t (List.mem_reverse.mp ht)
  -- with the tags inside closed, the closing tag finds its tag at once
  have hlast := read_closing_outer document hfits (List.forall_mem_nil _) around
  have htokens : ((inner.reverse ++ [close]).map fun t => Token.closeTag t.text) =
      (inner.reverse.map TagText.text).map Token.closeTag ++ [.closeTag close.text] := by
    simp
  have hall : ({ opened := inside ++ frame :: around, document } : Parser).readAll
      ((inner.reverse ++ [close]).map fun t => Token.closeTag t.text) =
        .ok { opened := around, document } := by
    rw [htokens, readAll_append, readAll_closings document hinside, Except.bind,
      readAll_singleton]
    exact hlast
  rw [hall, readAll_singleton]
  exact read_closing_outer document hfits hnone around

end Parser

/-- **A closing tag closes the tags inside first.**  Where a text that is markup ends, the
open tags were opened by tags of the text.  If a closing tag closes one of them and none
of those inside, it may as well stand behind the closing tags of these, the innermost first:
whatever follows, the document is the same, or the error. -/
theorem parse_close_outer {a : List Char} {first : Document} (ha : a.getLast? ≠ some '\\')
    (hparse : parse a = .ok first) :
    ∃ p, Parser.start.readAll (tokenize a) = .ok p ∧
      (∃ tags : List TagText,
        (tags.map fun tag => Token.openTag tag.text).Sublist (tokenize a) ∧ p.OpenedBy tags) ∧
      ∀ (outer : List TagText) (tag : TagText) (inner : List TagText) (close : TagText),
        p.OpenedBy (outer ++ tag :: inner) → close.closes tag = true →
        (∀ t ∈ inner, close.closes t = false) → ∀ b,
        parse (a ++ close.closing ++ b) =
          parse (a ++ inner.reverse.flatMap TagText.closing ++ close.closing ++ b) := by
  obtain ⟨p, hread, -⟩ := exists_of_parse hparse
  refine ⟨p, hread, exists_openedBy hread, ?_⟩
  intro outer tag inner close hopened hcloses hinner b
  have hone := parse_append_closings ha hread (List.cons_ne_nil close []) b
  have hne : inner.reverse ++ [close] ≠ [] := by simp
  have hall := parse_append_closings ha hread hne b
  have hclose := Parser.readAll_close_outer hopened hcloses hinner
  rw [List.flatMap_singleton, List.map_singleton] at hone
  rw [List.flatMap_append, List.flatMap_singleton] at hall
  rw [List.append_assoc, hone, List.append_assoc, List.append_assoc, ← List.append_assoc _ _ b,
    hall, Parser.readAll_append, Parser.readAll_append, hclose]

theorem parse_close_outer_same_key_twice :
    let a := "<c:red>v<c:Red>w<c:#F00>x<em>y".toList
    let b := "z</colour>!".toList
    let red : Style := { color := some (.palette .red) }
    let bright : Style := { color := some (.rgb ⟨255, 0, 0⟩) }
    parse (a ++ "</color:RED>".toList ++ b) =
        parse (a ++ "</em></c:#F00>".toList ++ "</color:RED>".toList ++ b) ∧
      parse (a ++ "</color:RED>".toList ++ b) = .ok ⟨[⟨"vw".toList, red⟩, ⟨['x'], bright⟩,
        ⟨['y'], bright.apply (.decoration .italic)⟩, ⟨['z'], red⟩, ⟨['!'], .plain⟩]⟩ := by
  intro a b red bright
  let outer : TagText := ⟨"c:red".toList, by decide⟩
  let tag : TagText := ⟨"c:Red".toList, by decide⟩
  let inner : TagText := ⟨"c:#F00".toList, by decide⟩
  let innermost : TagText := ⟨"em".toList, by decide⟩
  let close : TagText := ⟨"color:RED".toList, by decide⟩
  have hparse : parse a = .ok ⟨[⟨"vw".toList, red⟩, ⟨['x'], bright⟩,
      ⟨['y'], bright.apply (.decoration .italic)⟩]⟩ := by decide +kernel
  obtain ⟨p, hread, -, hclose⟩ := parse_close_outer (by decide) hparse
  have hopened : p.OpenedBy ([outer] ++ tag :: [inner, innermost]) := by
    have hp : Parser.start.readAll (tokenize a) = .ok {
        opened := [
          ⟨Key.ofText innermost.text, .decoration .italic⟩,
          ⟨Key.ofText inner.text, .color (.rgb ⟨255, 0, 0⟩)⟩,
          ⟨Key.ofText tag.text, .color (.palette .red)⟩,
          ⟨Key.ofText outer.text, .color (.palette .red)⟩]
        document := ⟨[⟨"vw".toList, red⟩, ⟨['x'], bright⟩,
          ⟨['y'], bright.apply (.decoration .italic)⟩]⟩ } := by decide +kernel
    obtain rfl := Except.ok.inj (hread.symm.trans hp)
    exact .cons ⟨rfl, by decide +kernel⟩ (.cons ⟨rfl, by decide +kernel⟩
      (.cons ⟨rfl, by decide +kernel⟩ (.cons ⟨rfl, by decide +kernel⟩ .nil)))
  have hcloses : close.closes tag = true := by decide +kernel
  have hinner : ∀ t ∈ [inner, innermost], close.closes t = false := by decide +kernel
  refine ⟨hclose [outer] tag [inner, innermost] close hopened hcloses hinner b, ?_⟩
  decide +kernel

end ChatTint
