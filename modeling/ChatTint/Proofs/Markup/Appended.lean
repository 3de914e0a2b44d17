import ChatTint.Proofs.Markup.Places

/-!
# Text behind text

Where an opening bracket starts a tag depends on what stands behind it, so a text that
is appended to another one can make a tag of its end.  What it can change is little: an
open bracket without another bracket behind it, and a backslash at the very end.  All
tags in front of these are the same, and so is an error that one of them is.

An opening bracket at the beginning of the appended text changes nothing at all, unless
a backslash in front escapes it.  The tag that closes everything therefore parts a text
in two that know nothing of each other.

## Main definitions

* `Parser.behind` — a state of the parser with a document in front of it.

## Main results

* `tagsOf_isPrefix` — the tags of a text are the first ones of a longer text.
* `parse_append_of_error` — an error stays, whatever is appended.
* `Parser.readAll_behind` — what has been written does not matter for what follows.
* `parse_append_reset` — the tag that closes everything, between two texts.
-/

namespace ChatTint

/-! ### An error stays -/

/-- A bracket that starts a tag only in a longer text has no bracket behind it so far. -/
theorem bracketFree_of_append {s t content rest : List Char} (hs : splitContent? s = none)
    (hst : splitContent? (s ++ t) = some (content, rest)) : BracketFree s := by
  obtain ⟨heq, hfree⟩ := splitContent?_eq_some_iff.mp hst
  rcases List.append_eq_append_iff.mp heq with ⟨u, rfl, -⟩ | ⟨u, rfl, htail⟩
  · exact fun c hc => hfree c (List.mem_append_left u hc)
  · cases u with
    | nil =>
      rw [List.append_nil]
      exact hfree
    | cons d u =>
      -- the bracket that closes would stand in the shorter text
      obtain ⟨rfl, -⟩ := List.cons.inj htail
      rw [splitContent?_closed hfree u] at hs
      exact absurd hs (Option.some_ne_none _)

/-- A text without opening brackets has no tags. -/
theorem tagsOf_of_notMem {s : List Char} (h : '<' ∉ s) : tagsOf s = [] := by
  rw [tagsOf, pieces_of_notMem h, filter_isTag_chars]

/-- **The tags of a text are the first ones of a longer text.** -/
theorem tagsOf_isPrefix (s t : List Char) : tagsOf s <+: tagsOf (s ++ t) := by
  induction s using markup_induction with
  | nil =>
    rw [tagsOf_of_notMem List.not_mem_nil]
    exact List.nil_prefix
  | escaped s ih =>
    rw [List.cons_append, List.cons_append, tagsOf_escaped, tagsOf_escaped]
    exact ih
  | tag s content rest hs ih =>
    rw [List.cons_append, tagsOf_tag hs, tagsOf_tag (splitContent?_append_of_some hs t),
      List.prefix_append_right_inj]
    exact ih
  | bracket s hs ih =>
    rw [List.cons_append, tagsOf_bracket hs]
    cases hst : splitContent? (s ++ t) with
    | none =>
      rw [tagsOf_bracket hst]
      exact ih
    | some p =>
      -- the bracket starts a tag now, but no tag stood behind it
      rw [tagsOf_of_notMem fun h => (bracketFree_of_append hs hst _ h).1 rfl]
      exact List.nil_prefix
  | char c s hc ih =>
    rw [List.cons_append, tagsOf_char hc]
    by_cases hct : StandsFor c (s ++ t)
    · rw [tagsOf_char hct]
      exact ih
    · -- only at the very end of a text a backslash can meet another bracket
      cases s with
      | nil =>
        rw [tagsOf_of_notMem List.not_mem_nil]
        exact List.nil_prefix
      | cons d s => exact absurd hc hct

/-- **An error stays, whatever is appended.**  A text that is no markup does not become
markup by what stands behind it, and the reason stays the same. -/
theorem parse_append_of_error {a : List Char} {e : MarkupError} (h : parse a = .error e)
    (b : List Char) : parse (a ++ b) = .error e := by
  rw [parse_eq_error_iff] at h ⊢
  obtain ⟨more, hmore⟩ := tagsOf_isPrefix a b
  rw [← hmore, List.foldlM_append, h]
  rfl

theorem parse_append_of_error_completed_tag :
    let a := "<i>\\<</b>x<c:#f".toList
    let b := "80></i>".toList
    parse a = .error (.unmatchedClose ['b']) ∧
    tagsOf a = [.openTag ['i'], .closeTag ['b']] ∧
    tagsOf (a ++ b) =
      [.openTag ['i'], .closeTag ['b'], .openTag "c:#f80".toList, .closeTag ['i']] ∧
    parse (a ++ b) = .error (.unmatchedClose ['b']) := by
  intro a b
  have herror : parse a = .error (.unmatchedClose ['b']) := by decide +kernel
  exact ⟨herror, by decide +kernel, by decide +kernel, parse_append_of_error herror b⟩

/-! ### Behind a document -/

namespace Parser

/-- A state of the parser with a document in front of what has been written. -/
def behind (doc : Document) (p : Parser) : Parser :=
  { p with document := doc.pushCells p.document.cells }

theorem write_behind (doc : Document) (p : Parser) (text : List Char) :
    (p.behind doc).write text = (p.write text).behind doc := by
  have hpush : (doc.pushCells p.document.cells).push text p.style =
      doc.pushCells (p.document.push text p.style).cells := by
    rw [Document.cells_push, Document.pushCells_append, Document.pushCells_cellsOf]
  show ({ p with document := (doc.pushCells p.document.cells).push text p.style } : Parser) = _
  rw [hpush]
  rfl

/-- A token does the same to a state, whatever stands in front of it. -/
theorem read_behind (doc : Document) (p : Parser) (token : Token) :
    (p.behind doc).read token = (p.read token).map (behind doc) := by
  cases token with
  | text s => exact congrArg Except.ok (write_behind doc p s)
  | escapedBracket => exact congrArg Except.ok (write_behind doc p _)
  | badTag content => exact congrArg Except.ok (write_behind doc p _)
  | openTag tag =>
    simp only [read, onOpen]
    rcases Tag.ofText tag with e | _ | _ | _ | _
    · rfl
    · exact congrArg Except.ok (write_behind doc p _)
    · rfl
    · rfl
    · exact congrArg Except.ok (write_behind doc p _)
  | closeTag tag =>
    have hopened : (p.behind doc).opened = p.opened := rfl
    simp only [read, onClose, hopened]
    rcases closeInnermost? (Key.ofText tag) p.opened with _ | outer
    · by_cases h : Tag.isKnown tag = true
      · simp only [if_pos h]
        rfl
      · simp only [if_neg h]
        exact congrArg Except.ok (write_behind doc p _)
    · rfl

/-- **What has been written does not matter for what follows.** -/
theorem readAll_behind (doc : Document) (p : Parser) (tokens : List Token) :
    (p.behind doc).readAll tokens = (p.readAll tokens).map (behind doc) := by
  induction tokens generalizing p with
  | nil => rfl
  | cons token tokens ih =>
    rw [readAll_cons, readAll_cons, read_behind]
    cases p.read token with
    | error e => rfl
    | ok q => exact ih q

end Parser

/-! ### The tag that closes everything -/

theorem read_reset (p : Parser) :
    p.read (.openTag "reset".toList) = .ok { p with opened := [] } := by
  have hreset : Tag.ofText "reset".toList = .ok (some .reset) := by decide +kernel
  simp only [Parser.read, Parser.onOpen, hreset]

/-- Behind a document and with nothing open, a text is read as if it stood alone. -/
theorem map_document_readAll {doc : Document} (h : doc.IsMerged) (b : List Char) :
    (({ document := doc } : Parser).readAll (pieces b)).map Parser.document =
      (parse b).map doc.join := by
  have hbehind : ({ document := doc } : Parser).readAll (pieces b) =
      (Parser.start.readAll (pieces b)).map (Parser.behind doc) :=
    Parser.readAll_behind doc Parser.start (pieces b)
  rw [hbehind]
  cases hread : Parser.start.readAll (pieces b) with
  | error e =>
    rw [parse_eq_pieces, hread]
    rfl
  | ok p =>
    have hb : parse b = .ok p.document := by
      rw [parse_eq_pieces, hread]
      rfl
    rw [hb]
    exact congrArg Except.ok (Document.pushCells_cells h (isMerged_of_parse hb))

/-- The text behind the tag is read as if it stood alone. -/
theorem parse_behind_reset {a : List Char} {first : Document} (ha : a.getLast? ≠ some '\\')
    (hparse : parse a = .ok first) (b : List Char) :
    parse (a ++ "<reset>".toList ++ b) = (parse b).map first.join := by
  have hmerged := isMerged_of_parse hparse
  have htag : pieces ("<reset>".toList ++ b) = .openTag "reset".toList :: pieces b :=
    @pieces_openTag "reset".toList (by decide) b
  obtain ⟨q, hread, rfl⟩ := exists_of_parse hparse
  have hbehind : parse (a ++ ("<reset>".toList ++ b)) =
      (q.readAll (pieces ("<reset>".toList ++ b))).map Parser.document :=
    parse_append_bracket ha hread
  rw [List.append_assoc, hbehind, htag, Parser.readAll_cons, read_reset]
  exact map_document_readAll hmerged b

/-- **The tag that closes everything parts a text in two.**  If the first part is markup, the
whole has the error of the second part, or its document: the documents of both parts, one
after the other.  At the end of a text the tag does nothing. -/
theorem parse_append_reset {a : List Char} {first : Document} (ha : a.getLast? ≠ some '\\')
    (hparse : parse a = .ok first) :
    (∀ b e, parse (a ++ "<reset>".toList ++ b) = .error e ↔ parse b = .error e) ∧
    (∀ b second, parse b = .ok second →
      parse (a ++ "<reset>".toList ++ b) = .ok (first.join second)) ∧
    parse (a ++ "<reset>".toList) = .ok first := by
  have hbehind := parse_behind_reset ha hparse
  refine ⟨fun b e => ?_, fun b second hb => ?_, ?_⟩
  · rw [hbehind]
    cases parse b with
    | error e' => simp [Except.map]
    | ok second => simp [Except.map]
  · rw [hbehind, hb]
    rfl
  · have hempty : parse [] = .ok .empty := by
      rw [parse, tokenize_nil]
      rfl
    have hend := hbehind []
    rw [List.append_nil, hempty] at hend
    exact hend.trans (congrArg Except.ok first.join_empty)

theorem parse_append_reset_dangling_bracket :
    let a := "<u>x</u>y<b<red>".toList
    let plain : Style := {}
    parse a = .ok ⟨[⟨['x'], plain.apply (.decoration .underlined)⟩, ⟨"y<b".toList, plain⟩]⟩ ∧
    parse ">z<i>k".toList =
      .ok ⟨[⟨">z".toList, plain⟩, ⟨['k'], plain.apply (.decoration .italic)⟩]⟩ ∧
    parse (a ++ "<reset>".toList ++ ">z<i>k".toList) =
      .ok ⟨[⟨['x'], plain.apply (.decoration .underlined)⟩, ⟨"y<b>z".toList, plain⟩,
        ⟨['k'], plain.apply (.decoration .italic)⟩]⟩ ∧
    parse (a ++ "<reset>".toList ++ "k</red>".toList) = .error (.unmatchedClose "red".toList) ∧
    parse (a ++ "<reset>".toList) = parse a := by
  intro a plain
  have hparse : parse a = .ok
      ⟨[⟨['x'], plain.apply (.decoration .underlined)⟩, ⟨"y<b".toList, plain⟩]⟩ := by
    decide +kernel
  have hsecond : parse ">z<i>k".toList =
      .ok ⟨[⟨">z".toList, plain⟩, ⟨['k'], plain.apply (.decoration .italic)⟩]⟩ := by
    decide +kernel
  obtain ⟨herror, hboth, hend⟩ := parse_append_reset (by decide +kernel) hparse
  exact ⟨hparse, hsecond, (hboth _ _ hsecond).trans (by decide +kernel),
    (herror _ _).mpr (by decide +kernel), hend.trans hparse.symm⟩

end ChatTint
