import ChatTint.Proofs.Markup.Keys
import ChatTint.Proofs.Markup.Pieces

/-!
# Plain text, token by token

Whether a closing tag is written as text depends on what is open: it is if it fits no
open tag and its name is unknown.  Yet the plain text of a document does not depend on
the nesting of its tags.  Every open tag was opened by a tag of a known name, so a
closing tag of an unknown name never fits one; and a closing tag of a known name that
fits none is an error.  Each token thus adds to the plain text what it alone tells.

## Main definitions

* `Token.plainText` — what a token adds to the plain text.
* `OpenTag.OpenedBy` — an open tag, and the tag text by which it was opened.

## Main results

* `read_opened` — what one token does to the open tags.
* `exists_tags_of_readAll` — the open tags were opened by tags that were read, in order.
* `document_read` — what one token writes.
* `closeInnermost?_of_unknown` — a closing tag of an unknown name closes nothing.
* `plainText_readAll` — the plain text after several tokens.
* `plainText_of_parse` — the plain text of a document, by the tokens of its text.
-/

namespace ChatTint

/-- What a token adds to the plain text, told by the token alone. -/
def Token.plainText : Token → List Char
  | text s => s
  | escapedBracket => ['<']
  | badTag content => (badTag content).source
  | openTag tag =>
    match Tag.ofText tag with
    | .ok none => (openTag tag).source
    | .ok (some .newline) => ['\n']
    | _ => []
  | closeTag tag => if Tag.isKnown tag then [] else (closeTag tag).source

/-! ### The innermost tag that fits -/

/-- What stays open was open. -/
theorem closeInnermost?_isSuffix {close : Key} {opened outer : List OpenTag}
    (h : closeInnermost? close opened = some outer) : outer <:+ opened := by
  induction opened with
  | nil => exact absurd h.symm (Option.some_ne_none _)
  | cons tag opened ih =>
    rw [closeInnermost?] at h
    split at h
    · rw [← Option.some.inj h]
      exact List.suffix_cons tag opened
    · exact (ih h).trans (List.suffix_cons tag opened)

/-- A tag looks past the open ones that it does not fit. -/
theorem closeInnermost?_append {close : Key} {inner : List OpenTag}
    (h : ∀ tag ∈ inner, close.fits tag.key = false) (outer : List OpenTag) :
    closeInnermost? close (inner ++ outer) = closeInnermost? close outer := by
  induction inner with
  | nil => rfl
  | cons tag inner ih =>
    rw [List.cons_append, closeInnermost?, h tag List.mem_cons_self, if_neg Bool.false_ne_true]
    exact ih fun t ht => h t (List.mem_cons_of_mem tag ht)

/-- A tag that fits no open one closes nothing. -/
theorem closeInnermost?_eq_none {close : Key} {opened : List OpenTag}
    (h : ∀ tag ∈ opened, close.fits tag.key = false) : closeInnermost? close opened = none := by
  rw [← List.append_nil opened, closeInnermost?_append h]
  rfl

/-! ### What opened the open tags -/

/-- An open tag is what a tag text asks for. -/
structure OpenTag.OpenedBy (frame : OpenTag) (tag : List Char) : Prop where
  key : frame.key = Key.ofText tag
  effect : Tag.ofText tag = .ok (some (.effect frame.effect))

/-- An open tag is closed by the tag text that opened it. -/
theorem OpenTag.OpenedBy.fits {frame : OpenTag} {tag : List Char} (h : frame.OpenedBy tag) :
    (Key.ofText tag).fits frame.key = true := by
  rw [h.key, Key.fits, beq_self_eq_true, Bool.true_or]

/-- A closing tag of an unknown name fits no open tag. -/
theorem OpenTag.OpenedBy.not_fits {frame : OpenTag} {tag close : List Char}
    (h : frame.OpenedBy tag) (hclose : Tag.isKnown close = false) :
    (Key.ofText close).fits frame.key = false := by
  rw [Bool.eq_false_iff]
  intro hfits
  rw [h.key] at hfits
  rw [isKnown_eq_of_fits hfits, isKnown_of_effect h.effect] at hclose
  exact Bool.false_ne_true hclose.symm

/-- Each open tag was opened by one of the tag texts. -/
theorem exists_openedBy_of_mem {opened : List OpenTag} {tags : List (List Char)}
    (h : List.Forall₂ OpenTag.OpenedBy opened tags) {frame : OpenTag} (hframe : frame ∈ opened) :
    ∃ tag ∈ tags, frame.OpenedBy tag := by
  induction h with
  | nil => exact absurd hframe List.not_mem_nil
  | @cons first tag _ _ hfirst _ ih =>
    rcases List.mem_cons.mp hframe with rfl | hrest
    · exact ⟨tag, List.mem_cons_self, hfirst⟩
    · obtain ⟨tag', htag', hopened⟩ := ih hrest
      exact ⟨tag', List.mem_cons_of_mem tag htag', hopened⟩

/-- **A closing tag of an unknown name closes nothing.** -/
theorem closeInnermost?_of_unknown {opened : List OpenTag} {tags : List (List Char)}
    (h : List.Forall₂ OpenTag.OpenedBy opened tags) {close : List Char}
    (hclose : Tag.isKnown close = false) : closeInnermost? (Key.ofText close) opened = none := by
  apply closeInnermost?_eq_none
  intro frame hframe
  obtain ⟨tag, -, hopened⟩ := exists_openedBy_of_mem h hframe
  exact hopened.not_fits hclose

namespace Parser

/-- **What one token does to the open tags**: it closes some of the innermost ones, or opens
one more. -/
theorem read_opened {p q : Parser} {token : Token} (h : p.read token = .ok q) :
    q.opened <:+ p.opened ∨
      ∃ tag frame, token = .openTag tag ∧ frame.OpenedBy tag ∧ q.opened = frame :: p.opened := by
  cases token with
  | text s =>
    obtain rfl : p.write s = q := Except.ok.inj h
    exact Or.inl (List.suffix_refl _)
  | escapedBracket =>
    obtain rfl : p.write ['<'] = q := Except.ok.inj h
    exact Or.inl (List.suffix_refl _)
  | badTag content =>
    obtain rfl : p.write (Token.badTag content).source = q := Except.ok.inj h
    exact Or.inl (List.suffix_refl _)
  | openTag tag =>
    rw [read, onOpen] at h
    split at h
    · exact absurd h (by simp)
    · rw [← Except.ok.inj h]
      exact Or.inl (List.suffix_refl _)
    · next e he =>
      rw [← Except.ok.inj h]
      exact Or.inr ⟨tag, ⟨Key.ofText tag, e⟩, rfl, ⟨rfl, he⟩, rfl⟩
    · rw [← Except.ok.inj h]
      exact Or.inl List.nil_suffix
    · rw [← Except.ok.inj h]
      exact Or.inl (List.suffix_refl _)
  | closeTag tag =>
    rw [read, onClose] at h
    split at h
    · next outer houter =>
      rw [← Except.ok.inj h]
      exact Or.inl (closeInnermost?_isSuffix houter)
    · split at h
      · exact absurd h (by simp)
      · rw [← Except.ok.inj h]
        exact Or.inl (List.suffix_refl _)

/-- Reading one token more. -/
theorem exists_of_readAll_concat {p q : Parser} {tokens : List Token} {token : Token}
    (h : p.readAll (tokens ++ [token]) = .ok q) :
    ∃ p', p.readAll tokens = .ok p' ∧ p'.read token = .ok q := by
  rw [readAll_append] at h
  cases hread : p.readAll tokens with
  | error e =>
    rw [hread] at h
    exact absurd h (by simp [Except.bind])
  | ok p' =>
    rw [hread] at h
    exact ⟨p', rfl, (readAll_singleton p' token).symm.trans h⟩

/-- One token keeps the open tags tied to the tags that opened them, in order. -/
theorem exists_tags_of_read {p q : Parser} {token : Token} {tags : List (List Char)}
    (htags : List.Forall₂ OpenTag.OpenedBy p.opened tags) (h : p.read token = .ok q) :
    ∃ after, (after.reverse.map Token.openTag).Sublist
        (tags.reverse.map Token.openTag ++ [token]) ∧
      List.Forall₂ OpenTag.OpenedBy q.opened after := by
  rcases read_opened h with hsuffix | ⟨tag, frame, rfl, hframe, hopened⟩
  · -- what stays open was opened by the same tags as before
    obtain ⟨n, hdrop⟩ : ∃ n, q.opened = p.opened.drop n :=
      ⟨_, List.suffix_iff_eq_drop.mp hsuffix⟩
    refine ⟨tags.drop n, ?_, ?_⟩
    · refine List.Sublist.trans ?_ (List.sublist_append_left _ _)
      exact (List.drop_sublist n tags).reverse.map Token.openTag
    · rw [hdrop]
      exact List.forall₂_drop n htags
  · refine ⟨tag :: tags, ?_, ?_⟩
    · rw [List.reverse_cons, List.map_append]
      exact List.Sublist.refl _
    · rw [hopened]
      exact List.Forall₂.cons hframe htags

/-- **The open tags were opened by tags that were read, in order.** -/
theorem exists_tags_of_readAll {tokens : List Token} {p : Parser}
    (h : start.readAll tokens = .ok p) :
    ∃ tags, (tags.reverse.map Token.openTag).Sublist tokens ∧
      List.Forall₂ OpenTag.OpenedBy p.opened tags := by
  induction tokens using List.reverseRecOn generalizing p with
  | nil =>
    obtain rfl : start = p := Except.ok.inj h
    exact ⟨[], List.Sublist.refl _, List.Forall₂.nil⟩
  | append_singleton tokens token ih =>
    obtain ⟨p', hread, htoken⟩ := exists_of_readAll_concat h
    obtain ⟨tags, hsub, htags⟩ := ih hread
    obtain ⟨after, hafter, hopened⟩ := exists_tags_of_read htags htoken
    exact ⟨after, hafter.trans (hsub.append (List.Sublist.refl _)), hopened⟩

/-- **One token writes what it alone tells**, in the style of the open tags, if these were
opened by tags. -/
theorem document_read {p q : Parser} {token : Token} {tags : List (List Char)}
    (htags : List.Forall₂ OpenTag.OpenedBy p.opened tags) (h : p.read token = .ok q) :
    q.document = p.document.push token.plainText p.style := by
  cases token with
  | text s => rw [← Except.ok.inj h, Token.plainText, write]
  | escapedBracket => rw [← Except.ok.inj h, Token.plainText, write]
  | badTag content => rw [← Except.ok.inj h, Token.plainText, write]
  | openTag tag =>
    rw [read, onOpen] at h
    rw [Token.plainText]
    cases hmeans : Tag.ofText tag with
    | error e =>
      rw [hmeans] at h
      exact absurd h (by simp)
    | ok means =>
      rw [hmeans] at h
      rcases means with _ | _ | _ | _
      · rw [← Except.ok.inj h, write]
      · rw [← Except.ok.inj h, Document.push_nil]
      · rw [← Except.ok.inj h, Document.push_nil]
      · rw [← Except.ok.inj h, write]
  | closeTag tag =>
    rw [read, onClose] at h
    rw [Token.plainText]
    by_cases hknown : Tag.isKnown tag = true
    · -- a known name that fits nothing would be an error
      rw [if_pos hknown, Document.push_nil]
      split at h
      · rw [← Except.ok.inj h]
      · rw [if_pos hknown] at h
        exact absurd h (by simp)
    · rw [if_neg hknown]
      rw [closeInnermost?_of_unknown htags (Bool.eq_false_iff.mpr hknown)] at h
      simp only [if_neg hknown, Except.ok.injEq] at h
      rw [← h, write]

/-- **The plain text after several tokens.** -/
theorem plainText_readAll {tokens : List Token} {p : Parser}
    (h : start.readAll tokens = .ok p) :
    p.document.plainText = tokens.flatMap Token.plainText := by
  induction tokens using List.reverseRecOn generalizing p with
  | nil =>
    obtain rfl : start = p := Except.ok.inj h
    rfl
  | append_singleton tokens token ih =>
    obtain ⟨p', hread, htoken⟩ := exists_of_readAll_concat h
    obtain ⟨tags, -, htags⟩ := exists_tags_of_readAll hread
    rw [document_read htags htoken, Document.plainText_push, ih hread, List.flatMap_append,
      List.flatMap_singleton]

end Parser

/-! ### The plain text of a document -/

/-- **The plain text of a document does not depend on the nesting of its tags.**  It is
what each token of the text adds alone.  For at every point of every parse, also of one
that fails later, the open tags were opened by tags that were read, in order; each of
them is closed by the tag text that opened it, and none by a tag of an unknown name. -/
theorem plainText_of_parse (text : List Char) :
    (∀ doc, parse text = .ok doc → doc.plainText = (tokenize text).flatMap Token.plainText) ∧
    ∀ front back p, tokenize text = front ++ back → Parser.start.readAll front = .ok p →
      (∃ tags, (tags.reverse.map Token.openTag).Sublist front ∧
        List.Forall₂
          (fun frame tag => frame.OpenedBy tag ∧ (Key.ofText tag).fits frame.key = true)
          p.opened tags) ∧
      ∀ close, Tag.isKnown close = false → closeInnermost? (Key.ofText close) p.opened = none := by
  refine ⟨fun doc hparse => ?_, fun front back p _ hread => ?_⟩
  · obtain ⟨q, hread, rfl⟩ := exists_of_parse hparse
    exact Parser.plainText_readAll hread
  · obtain ⟨tags, hsub, htags⟩ := Parser.exists_tags_of_readAll hread
    refine ⟨⟨tags, hsub, htags.imp fun frame tag h => ⟨h, h.fits⟩⟩, fun close hclose => ?_⟩
    exact closeInnermost?_of_unknown htags hclose

theorem plainText_of_parse_unknown_closings :
    let text := "<c:#0F0>a<em>b</lol>c</italic></br>d</c:#00ff00></reset><reset:1>\\<e".toList
    let front : List Token :=
      [.openTag "c:#0F0".toList, .text ['a'], .openTag "em".toList, .text ['b']]
    let green : Style := { color := some (.rgb ⟨0, 255, 0⟩) }
    let doc : Document := ⟨[⟨['a'], green⟩,
      ⟨"b</lol>c".toList, green.apply (.decoration .italic)⟩, ⟨"</br>d".toList, green⟩,
      ⟨"</reset><reset:1><e".toList, .plain⟩]⟩
    let p : Parser := {
      opened := [⟨⟨"italic".toList, none⟩, .decoration .italic⟩,
        ⟨⟨"color".toList, some "#00ff00".toList⟩, .color (.rgb ⟨0, 255, 0⟩)⟩]
      document := ⟨[⟨['a'], green⟩, ⟨['b'], green.apply (.decoration .italic)⟩]⟩ }
    parse text = .ok doc ∧
    (tokenize text).flatMap Token.plainText = "ab</lol>c</br>d</reset><reset:1><e".toList ∧
    doc.plainText = (tokenize text).flatMap Token.plainText ∧
    tokenize text = front ++ (tokenize text).drop 4 ∧ Parser.start.readAll front = .ok p ∧
    (∃ tags, (tags.reverse.map Token.openTag).Sublist front ∧
      List.Forall₂ (fun frame tag => frame.OpenedBy tag ∧ (Key.ofText tag).fits frame.key = true)
        p.opened tags) ∧
    Tag.isKnown "lol".toList = false ∧
    closeInnermost? (Key.ofText "lol".toList) p.opened = none := by
  intro text front green doc p
  have hparse : parse text = .ok doc := by decide +kernel
  have htokens : tokenize text = front ++ (tokenize text).drop 4 := by decide +kernel
  have hread : Parser.start.readAll front = .ok p := by decide +kernel
  have hlol : Tag.isKnown "lol".toList = false := by decide +kernel
  obtain ⟨hplain, hpoints⟩ := plainText_of_parse text
  obtain ⟨htags, hunknown⟩ := hpoints front _ p htokens hread
  exact ⟨hparse, by decide +kernel, hplain doc hparse, htokens, hread, htags, hlol,
    hunknown _ hlol⟩

end ChatTint
