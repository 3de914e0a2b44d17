import ChatTint.Proofs.Markup.Appended
import ChatTint.Proofs.Markup.Tree

/-!
# Line breaks

A tag that ends the line and a line end in the text give the same document, wherever they
stand.  This is not so for the tokens.  A line end may stand between two brackets that
make a tag of all between them, while a tag keeps the first bracket from being closed.  But
the tag around a line end is one that nothing can be named by, and so it is kept as it is
written: bracket by bracket and character by character, as if no tag were there.

## Main results

* `Tag.ofText_eq_newline_iff` — the tags that end the line.
* `Parser.readAll_inert` — text that fits into no tag is read as if it stood alone.
* `parse_lineBreak` — a tag that ends the line is a line end.
-/

namespace ChatTint

/-! ### The tags that end the line -/

namespace Tag

theorem ofName?_eq_newline_iff {name : List Char} :
    ofName? name = some .newline ↔ name = "br".toList ∨ name = "newline".toList := by
  rw [ofName?]
  split_ifs with hreset hbreak
  · rw [hreset]
    decide
  · exact iff_of_true rfl hbreak
  · refine iff_of_false ?_ hbreak
    cases Decoration.ofName? name with
    | some d => simp
    | none => cases PaletteColor.ofName? name <;> simp

/-- **The tags that end the line** are two names in any case, without an argument. -/
theorem ofText_eq_newline_iff {tag : List Char} :
    ofText tag = .ok (some .newline) ↔
      lowercase tag = "br".toList ∨ lowercase tag = "newline".toList := by
  constructor
  · intro h
    simp only [ofText] at h
    split at h
    · -- a colour, or an error
      split at h
      · exact absurd h (by simp)
      · exact absurd h (by simp)
    split at h
    · split at h
      · exact absurd h (by simp)
      · exact absurd h (by simp)
    split at h
    · exact absurd h (by simp)
    · next hargument =>
      -- the name is the whole text
      have hcolon : ':' ∉ tag :=
        cutAt_snd_eq_none_iff.mp (Option.not_isSome_iff_eq_none.mp hargument)
      rw [splitArgument, cutAt_of_notMem hcolon] at h
      exact ofName?_eq_newline_iff.mp (Except.ok.inj h)
  · intro h
    have hcolon : ':' ∉ tag := by
      intro hmem
      have hlower : ':' ∈ lowercase tag := List.mem_map_of_mem hmem
      rcases h with h | h
      · rw [h] at hlower
        exact absurd hlower (by decide)
      · rw [h] at hlower
        exact absurd hlower (by decide)
    simp only [ofText, splitArgument, cutAt_of_notMem hcolon]
    rcases h with h | h
    · rw [h]
      rfl
    · rw [h]
      rfl

end Tag

/-! ### Text that fits into no tag -/

theorem inert_lineEnd : Inert ['\n'] where
  plain := by
    intro c hc
    rw [List.mem_singleton.mp hc]
    decide
  foreign := ⟨'\n', List.mem_cons_self, by decide⟩

/-- A bracket that only text behind it makes a tag, character by character, if the tag is
none: what stands between the brackets is text before and after. -/
theorem pieces_bracket_append {s u b content rest : List Char} (hu : ∀ c ∈ u, c ≠ '<' ∧ c ≠ '>')
    (hs : splitContent? s = none) (hsub : splitContent? (s ++ (u ++ b)) = some (content, rest)) :
    u <:+: content ∧
      pieces ('<' :: s) ++ (u.map (fun c => Token.text [c]) ++ pieces b) =
        (Token.ofContent content).source.map (fun c => Token.text [c]) ++ pieces rest := by
  have hfree : BracketFree s := bracketFree_of_append hs hsub
  rw [splitContent?_append hfree, splitContent?_append hu, Option.map_map] at hsub
  obtain ⟨⟨w, rest⟩, hb, hcontent⟩ := Option.map_eq_some_iff.mp hsub
  obtain ⟨rfl, rfl⟩ := Prod.mk.inj hcontent
  obtain ⟨rfl, hw⟩ := splitContent?_eq_some_iff.mp hb
  refine ⟨⟨s, w, List.append_assoc s u w⟩, ?_⟩
  have hopen : '<' ∉ s := fun h => (hfree _ h).1 rfl
  have hclose : (w ++ ['>']).getLast? ≠ some '\\' := by
    rw [List.getLast?_concat]
    decide
  have hrest : pieces (w ++ '>' :: rest) =
      (w ++ ['>']).map (fun c => Token.text [c]) ++ pieces rest := by
    rw [List.append_cons]
    exact pieces_append hw.notMem_append fun _ => hclose
  rw [pieces_bracket hs, pieces_of_notMem hopen, hrest, Token.source_ofContent]
  simp

namespace Parser

/-- **Text that fits into no tag is read as if it stood alone.** -/
theorem readAll_inert {u : List Char} (hu : Inert u) (p : Parser) (a b : List Char) :
    p.readAll (pieces (a ++ (u ++ b))) =
      p.readAll (pieces a ++ (u.map (fun c => Token.text [c]) ++ pieces b)) := by
  have hopen : '<' ∉ u := fun h => (hu.plain _ h).1 rfl
  have hlast : u.getLast? ≠ some '\\' := fun h => (hu.plain _ (List.mem_of_getLast? h)).2.2 rfl
  induction a using markup_induction generalizing p with
  | nil =>
    rw [pieces_nil, List.nil_append, List.nil_append, pieces_append hopen fun _ => hlast]
  | escaped s ih =>
    simp only [List.cons_append, pieces_escaped, readAll_cons, ih]
  | tag s content rest hs ih =>
    simp only [List.cons_append, pieces_tag (splitContent?_append_of_some hs _), pieces_tag hs,
      readAll_cons, ih]
  | bracket s hs ih =>
    cases hsub : splitContent? (s ++ (u ++ b)) with
    | none =>
      simp only [List.cons_append, pieces_bracket hsub, pieces_bracket hs, readAll_cons, ih]
    | some split =>
      -- the brackets hold a character that no tag has
      obtain ⟨content, rest⟩ := split
      obtain ⟨hpart, hpieces⟩ :=
        pieces_bracket_append hu.bracketFree hs hsub
      have hforeign : HasForeign content := by
        obtain ⟨c, hc, hnot⟩ := hu.foreign
        exact ⟨c, hpart.subset hc, hnot⟩
      have hread := p.read_eq_write (isTag_ofContent_of_hasForeign hforeign)
      rw [Token.literal_eq_source (Token.isBracketed_ofContent content)] at hread
      rw [hpieces, List.cons_append, pieces_tag hsub, readAll_cons, hread, readAll_append,
        readAll_chars]
  | char c s hc ih =>
    have hcs : StandsFor c (s ++ (u ++ b)) :=
      hc.append fun hhead => absurd hhead (hu.head?_append_ne b)
    simp only [List.cons_append, pieces_char hcs, pieces_char hc, readAll_cons, ih]

end Parser

/-- **A tag that ends the line is a line end**, whatever stands in front of it and behind it, if
no backslash escapes it: the document is the same, or the error.  Such a tag is one of two
names in any case that a tag text can have. -/
theorem parse_lineBreak :
    (∀ tag : TagText, Tag.ofText tag.text = .ok (some .newline) ↔
      lowercase tag.text = "br".toList ∨ lowercase tag.text = "newline".toList) ∧
    ∀ (tag : LineBreak) (a b : List Char), a.getLast? ≠ some '\\' →
      parse (a ++ (Token.openTag tag.tag.text).source ++ b) = parse (a ++ ['\n'] ++ b) := by
  refine ⟨fun tag => Tag.ofText_eq_newline_iff, ?_⟩
  intro tag a b ha
  have htag : pieces (a ++ ((Token.openTag tag.tag.text).source ++ b)) =
      pieces a ++ .openTag tag.tag.text :: pieces b := by
    rw [pieces_append_of_none rfl fun _ => ha, pieces_openTag tag.tag.valid]
  have hread : ∀ p : Parser, p.read (.openTag tag.tag.text) = p.read (.text ['\n']) :=
    fun p => p.read_lineBreak tag
  rw [List.append_assoc, List.append_assoc, parse_eq_pieces, parse_eq_pieces, htag,
    Parser.readAll_inert inert_lineEnd, Parser.readAll_append, Parser.readAll_append]
  simp only [List.map_singleton, List.singleton_append, Parser.readAll_cons, hread]

theorem parse_lineBreak_between_brackets :
    let a := "<u>x<b".toList
    let b := ">y</u>z".toList
    let plain : Style := {}
    tokenize (a ++ ['\n'] ++ b) = [.openTag ['u'], .text ['x'], .badTag ['b', '\n'], .text ['y'],
      .closeTag ['u'], .text ['z']] ∧
    tokenize (a ++ "<bR>".toList ++ b) = [.openTag ['u'], .text ['x'], .text ['<'], .text ['b'],
      .openTag ['b', 'R'], .text ">y".toList, .closeTag ['u'], .text ['z']] ∧
    parse (a ++ "<bR>".toList ++ b) = parse (a ++ ['\n'] ++ b) ∧
    parse (a ++ "<bR>".toList ++ b) = .ok
      ⟨[⟨"x<b\n>y".toList, plain.apply (.decoration .underlined)⟩, ⟨['z'], plain⟩]⟩ := by
  intro a b plain
  obtain ⟨hbreaks, hparse⟩ := parse_lineBreak
  let tag : TagText := ⟨['b', 'R'], by decide⟩
  have hmeans : Tag.ofText tag.text = .ok (some .newline) := (hbreaks tag).mpr (by decide)
  have hlast : a.getLast? ≠ some '\\' := by decide
  exact ⟨by decide +kernel, by decide +kernel, hparse ⟨tag, hmeans⟩ a b hlast, by decide +kernel⟩

end ChatTint
