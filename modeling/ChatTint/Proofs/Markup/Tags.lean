import ChatTint.Proofs.Markup.Pieces

/-!
# The tags of a text

Whether a text is markup, and why it is not, depends on its tags alone: text only
adds to the document, and no tag looks at the document.  So a text may be changed
wherever no tag is touched.  What may take the place of what is said by *inert*
pieces: they have neither brackets nor backslashes, so that they neither begin,
end nor escape a tag, and a character that no tag text has, so that a tag around
them is none before and after.

## Main definitions

* `tagsOf` — the opening and closing tags of a text.
* `Inert`, `Recoded` — inert pieces, and two texts that differ in such pieces.

## Main results

* `parse_eq_error_iff` — the tags of a text decide its error.
* `Recoded.tagsOf_eq` — texts that differ in inert pieces have the same tags.
-/

namespace ChatTint

/-! ### The open tags -/

/-- Whether a token opens or closes a tag. -/
def Token.isTag : Token → Bool
  | openTag _ => true
  | closeTag _ => true
  | _ => false

namespace Parser

/-- The tags that are open after one more token. -/
def openedAfter (opened : List OpenTag) (token : Token) : Except MarkupError (List OpenTag) :=
  (({ opened } : Parser).read token).map Parser.opened

/-- What is written has no part in what is open. -/
theorem map_opened_read (p : Parser) (token : Token) :
    (p.read token).map opened = openedAfter p.opened token := by
  cases token with
  | text s => rfl
  | escapedBracket => rfl
  | badTag content => rfl
  | openTag tag =>
    simp only [openedAfter, read, onOpen]
    rcases Tag.ofText tag with e | _ | _ | _ | _
    · rfl
    · rfl
    · rfl
    · rfl
    · rfl
  | closeTag tag =>
    simp only [openedAfter, read, onClose]
    rcases closeInnermost? (Key.ofText tag) p.opened with _ | outer
    · by_cases h : Tag.isKnown tag = true
      · simp only [if_pos h, Except.map]
      · simp only [if_neg h]
        rfl
    · rfl

theorem openedAfter_of_not_isTag (opened : List OpenTag) {token : Token}
    (h : token.isTag = false) : openedAfter opened token = .ok opened := by
  cases token with
  | text s => rfl
  | escapedBracket => rfl
  | badTag content => rfl
  | openTag tag => exact absurd h.symm Bool.false_ne_true
  | closeTag tag => exact absurd h.symm Bool.false_ne_true

/-- The tags among the tokens decide what is open in the end, or the error. -/
theorem map_opened_readAll (p : Parser) (tokens : List Token) :
    (p.readAll tokens).map opened = (tokens.filter Token.isTag).foldlM openedAfter p.opened := by
  induction tokens generalizing p with
  | nil => rfl
  | cons token tokens ih =>
    have hread := map_opened_read p token
    rw [readAll_cons]
    by_cases htag : token.isTag = true
    · rw [List.filter_cons_of_pos htag, List.foldlM_cons, ← hread]
      cases p.read token with
      | error e => rfl
      | ok q => exact ih q
    · -- a token that is no tag is never an error and leaves the open tags alone
      rw [List.filter_cons_of_neg htag]
      rw [openedAfter_of_not_isTag _ (Bool.eq_false_iff.mpr htag)] at hread
      cases hq : p.read token with
      | error e =>
        rw [hq] at hread
        exact absurd hread (by simp [Except.map])
      | ok q =>
        rw [hq] at hread
        have hopened : q.opened = p.opened := Except.ok.inj hread
        rw [← hopened]
        exact ih q

end Parser

/-! ### Tags and errors -/

/-- The opening and closing tags of a text, in order. -/
def tagsOf (s : List Char) : List Token := (pieces s).filter Token.isTag

/-- **The tags of a text decide its error.** -/
theorem parse_eq_error_iff {s : List Char} {e : MarkupError} :
    parse s = .error e ↔ (tagsOf s).foldlM Parser.openedAfter [] = .error e := by
  have hopened := Parser.map_opened_readAll Parser.start (pieces s)
  rw [parse_eq_pieces]
  change _ = (tagsOf s).foldlM Parser.openedAfter [] at hopened
  rw [← hopened]
  cases Parser.start.readAll (pieces s) with
  | error e' => simp [Except.map]
  | ok q => simp [Except.map]

theorem tagsOf_escaped (s : List Char) : tagsOf ('\\' :: '<' :: s) = tagsOf s := by
  rw [tagsOf, pieces_escaped, List.filter_cons_of_neg (by simp [Token.isTag])]
  rfl

theorem tagsOf_tag {s content rest : List Char} (h : splitContent? s = some (content, rest)) :
    tagsOf ('<' :: s) = [Token.ofContent content].filter Token.isTag ++ tagsOf rest := by
  rw [tagsOf, pieces_tag h, tagsOf, ← List.filter_append]
  rfl

theorem tagsOf_bracket {s : List Char} (h : splitContent? s = none) :
    tagsOf ('<' :: s) = tagsOf s := by
  rw [tagsOf, pieces_bracket h, List.filter_cons_of_neg (by simp [Token.isTag])]
  rfl

theorem tagsOf_char {c : Char} {s : List Char} (h : StandsFor c s) :
    tagsOf (c :: s) = tagsOf s := by
  rw [tagsOf, pieces_char h, List.filter_cons_of_neg (by simp [Token.isTag])]
  rfl

theorem filter_isTag_chars (u : List Char) :
    (u.map fun c => Token.text [c]).filter Token.isTag = [] := by
  rw [List.filter_eq_nil_iff]
  intro token htoken
  obtain ⟨c, -, rfl⟩ := List.mem_map.mp htoken
  exact Bool.false_ne_true

theorem tagsOf_append {u : List Char} (hu : ∀ c ∈ u, c ≠ '<' ∧ c ≠ '\\') (s : List Char) :
    tagsOf (u ++ s) = tagsOf s := by
  have hopen : '<' ∉ u := fun h => (hu _ h).1 rfl
  have hlast : u.getLast? ≠ some '\\' := fun h => (hu _ (List.mem_of_getLast? h)).2 rfl
  rw [tagsOf, pieces_append hopen fun _ => hlast, List.filter_append, filter_isTag_chars]
  rfl

/-- Text without brackets at the end of a text adds no tag. -/
theorem tagsOf_append_right {t : List Char} (ht : ∀ c ∈ t, c ≠ '<' ∧ c ≠ '>') (s : List Char) :
    tagsOf (s ++ t) = tagsOf s := by
  rw [tagsOf, pieces_append_right ht, List.filter_append, filter_isTag_chars, List.append_nil]
  rfl

/-! ### Inert pieces -/

/-- A text with a character that no tag has between its brackets. -/
def HasForeign (s : List Char) : Prop := ∃ c ∈ s, isTagChar c = false ∧ c ≠ '/'

theorem isTag_ofContent_of_hasForeign {content : List Char} (h : HasForeign content) :
    (Token.ofContent content).isTag = false := by
  obtain ⟨c, hc, hforeign, hslash⟩ := h
  have hnot : ∀ s : List Char, c ∈ s → isTagText s = false := by
    intro s hs
    refine Bool.eq_false_iff.mpr fun htext => ?_
    rw [isTagChar_of_isTagText htext hs] at hforeign
    exact absurd hforeign.symm Bool.false_ne_true
  cases content with
  | nil => exact absurd hc List.not_mem_nil
  | cons d s =>
    rw [Token.ofContent, hnot (d :: s) hc]
    by_cases hd : d = '/'
    · -- behind the slash of a closing tag the foreign character is still there
      have hs : c ∈ s := (List.mem_cons.mp hc).resolve_left fun he => hslash (he.trans hd)
      rw [if_pos hd, hnot s hs]
      rfl
    · rw [if_neg hd]
      rfl

/-- A piece of text without brackets and backslashes that fits into no tag. -/
structure Inert (u : List Char) : Prop where
  plain : ∀ c ∈ u, c ≠ '<' ∧ c ≠ '>' ∧ c ≠ '\\'
  foreign : HasForeign u

theorem Inert.bracketFree {u : List Char} (hu : Inert u) : ∀ c ∈ u, c ≠ '<' ∧ c ≠ '>' :=
  fun c hc => ⟨(hu.plain c hc).1, (hu.plain c hc).2.1⟩

/-- An inert piece is not empty, so that no bracket is the first character of a text that
begins with it. -/
theorem Inert.head?_append_ne {u : List Char} (hu : Inert u) (s : List Char) :
    (u ++ s).head? ≠ some '<' := by
  obtain ⟨c, hc, -⟩ := hu.foreign
  cases u with
  | nil => exact absurd hc List.not_mem_nil
  | cons d u =>
    intro hhead
    exact (hu.plain d List.mem_cons_self).1 (Option.some.inj hhead)

/-- Two texts are alike up to inert pieces. -/
inductive Recoded : List Char → List Char → Prop
  | nil : Recoded [] []
  | keep {s t : List Char} (c : Char) : Recoded s t → Recoded (c :: s) (c :: t)
  | replace {u v s t : List Char} : Inert u → Inert v → Recoded s t → Recoded (u ++ s) (v ++ t)

namespace Recoded

theorem symm {s t : List Char} (h : Recoded s t) : Recoded t s := by
  induction h with
  | nil => exact nil
  | keep c _ ih => exact keep c ih
  | replace hu hv _ ih => exact replace hv hu ih

/-- Both texts begin with an opening bracket or none does. -/
theorem head_bracket {s t : List Char} (h : Recoded ('<' :: s) t) :
    ∃ t', t = '<' :: t' ∧ Recoded s t' := by
  generalize hs : '<' :: s = s' at h
  cases h with
  | nil => exact absurd hs (List.cons_ne_nil _ _)
  | @keep s' t' c h' =>
    obtain ⟨rfl, rfl⟩ := List.cons.inj hs
    exact ⟨t', rfl, h'⟩
  | @replace u v s' t' hu _ _ =>
    have hhead : (u ++ s').head? = some '<' := by
      rw [← hs]
      rfl
    exact absurd hhead (hu.head?_append_ne s')

theorem head?_eq_bracket_iff {s t : List Char} (h : Recoded s t) :
    s.head? = some '<' ↔ t.head? = some '<' := by
  constructor
  · intro hs
    obtain ⟨s', rfl⟩ := List.head?_eq_some_iff.mp hs
    obtain ⟨t', rfl, -⟩ := h.head_bracket
    rfl
  · intro ht
    obtain ⟨t', rfl⟩ := List.head?_eq_some_iff.mp ht
    obtain ⟨s', rfl, -⟩ := h.symm.head_bracket
    rfl

/-- Where one text has the content of a tag, the other has one that is alike. -/
theorem splitContent? {s t : List Char} (h : Recoded s t) :
    ∀ {content rest : List Char}, ChatTint.splitContent? s = some (content, rest) →
      ∃ content' rest', ChatTint.splitContent? t = some (content', rest') ∧
        Recoded content content' ∧ Recoded rest rest' := by
  induction h with
  | nil =>
    intro content rest hs
    exact absurd hs.symm (Option.some_ne_none _)
  | @keep s t c h ih =>
    intro content rest hs
    rw [ChatTint.splitContent?] at hs ⊢
    by_cases hclose : c = '>'
    · rw [if_pos hclose, Option.some.injEq, Prod.mk.injEq] at hs
      obtain ⟨rfl, rfl⟩ := hs
      exact ⟨[], t, if_pos hclose, nil, h⟩
    rw [if_neg hclose] at hs ⊢
    by_cases hopen : c = '<'
    · rw [if_pos hopen] at hs
      exact absurd hs.symm (Option.some_ne_none _)
    rw [if_neg hopen, Option.map_eq_some_iff] at hs
    obtain ⟨⟨content', rest'⟩, hs, he⟩ := hs
    obtain ⟨rfl, rfl⟩ := Prod.mk.inj he
    obtain ⟨content'', rest'', ht, hcontent, hrest⟩ := ih hs
    exact ⟨c :: content'', rest'', by rw [if_neg hopen, ht]; rfl, keep c hcontent, hrest⟩
  | @replace u v s t hu hv h ih =>
    intro content rest hs
    rw [splitContent?_append hu.bracketFree, Option.map_eq_some_iff] at hs
    obtain ⟨⟨content', rest'⟩, hs, he⟩ := hs
    obtain ⟨rfl, rfl⟩ := Prod.mk.inj he
    obtain ⟨content'', rest'', ht, hcontent, hrest⟩ := ih hs
    refine ⟨v ++ content'', rest'', ?_, replace hu hv hcontent, hrest⟩
    rw [splitContent?_append hv.bracketFree, ht, Option.map_some]

theorem splitContent?_eq_none {s t : List Char} (h : Recoded s t)
    (hs : ChatTint.splitContent? s = none) : ChatTint.splitContent? t = none := by
  cases ht : ChatTint.splitContent? t with
  | none => rfl
  | some p =>
    obtain ⟨content, rest, hs', -, -⟩ := h.symm.splitContent? ht
    rw [hs] at hs'
    exact absurd hs'.symm (Option.some_ne_none _)

/-- Texts that are alike are the same, or neither is the content of a tag. -/
theorem eq_or_hasForeign {s t : List Char} (h : Recoded s t) :
    s = t ∨ HasForeign s ∧ HasForeign t := by
  induction h with
  | nil => exact Or.inl rfl
  | keep c _ ih =>
    rcases ih with rfl | ⟨⟨d, hd, hds⟩, ⟨e, he, het⟩⟩
    · exact Or.inl rfl
    · exact Or.inr ⟨⟨d, List.mem_cons_of_mem c hd, hds⟩, ⟨e, List.mem_cons_of_mem c he, het⟩⟩
  | replace hu hv _ _ =>
    obtain ⟨d, hd, hdu⟩ := hu.foreign
    obtain ⟨e, he, hev⟩ := hv.foreign
    exact Or.inr ⟨⟨d, List.mem_append_left _ hd, hdu⟩, ⟨e, List.mem_append_left _ he, hev⟩⟩

theorem filter_ofContent_eq {content content' : List Char} (h : Recoded content content') :
    [Token.ofContent content].filter Token.isTag =
      [Token.ofContent content'].filter Token.isTag := by
  rcases h.eq_or_hasForeign with rfl | ⟨hs, ht⟩
  · rfl
  · rw [List.filter_cons_of_neg (by rw [isTag_ofContent_of_hasForeign hs]; simp),
      List.filter_cons_of_neg (by rw [isTag_ofContent_of_hasForeign ht]; simp)]

/-- **Texts that differ in inert pieces have the same tags.** -/
theorem tagsOf_eq {s t : List Char} (h : Recoded s t) : tagsOf s = tagsOf t := by
  -- A tag takes several characters at once, so the induction is on the length.
  induction hn : s.length using Nat.strong_induction_on generalizing s t with
  | _ n ih =>
    subst hn
    cases h with
    | nil => rfl
    | @keep s t c h =>
      by_cases hbracket : c = '<'
      · subst hbracket
        cases hs : ChatTint.splitContent? s with
        | none =>
          rw [tagsOf_bracket hs, tagsOf_bracket (h.splitContent?_eq_none hs)]
          exact ih _ (Nat.lt_succ_self _) h rfl
        | some p =>
          obtain ⟨content, rest⟩ := p
          obtain ⟨content', rest', ht, hcontent, hrest⟩ := h.splitContent? hs
          have hlt := length_splitContent?_lt hs
          rw [tagsOf_tag hs, tagsOf_tag ht, hcontent.filter_ofContent_eq,
            ih _ (Nat.lt_succ_of_lt hlt) hrest rfl]
      by_cases hescape : c = '\\' ∧ s.head? = some '<'
      · obtain ⟨rfl, hhead⟩ := hescape
        obtain ⟨s', rfl⟩ := List.head?_eq_some_iff.mp hhead
        obtain ⟨t', rfl, h'⟩ := h.head_bracket
        rw [tagsOf_escaped, tagsOf_escaped]
        exact ih _ (by simp only [List.length_cons]; omega) h' rfl
      · have ht : ¬ (c = '\\' ∧ t.head? = some '<') := by
          rw [← h.head?_eq_bracket_iff]
          exact hescape
        rw [tagsOf_char ⟨hbracket, hescape⟩, tagsOf_char ⟨hbracket, ht⟩]
        exact ih _ (Nat.lt_succ_self _) h rfl
    | @replace u v s t hu hv h =>
      have hpos : 0 < u.length := by
        obtain ⟨c, hc, -⟩ := hu.foreign
        exact List.length_pos_of_mem hc
      rw [tagsOf_append fun c hc => ⟨(hu.plain c hc).1, (hu.plain c hc).2.2⟩,
        tagsOf_append fun c hc => ⟨(hv.plain c hc).1, (hv.plain c hc).2.2⟩]
      exact ih _ (by rw [List.length_append]; omega) h rfl

end Recoded
end ChatTint
