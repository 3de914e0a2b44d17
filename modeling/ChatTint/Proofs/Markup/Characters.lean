import ChatTint.Proofs.Markup.PlainText
import ChatTint.Proofs.Markup.Tags
import ChatTint.Proofs.Markup.Tree

/-!
# Texts as rows of styled characters

What a text means can be told without spans: each token adds some characters, all in the style
that the open tags pass on, and the tags that are open behind it do not depend on what was
written.  The document of a text has these characters.  At every point of its parse it is
merged, whatever the tokens were, since it grows only by texts that are added at its end; an
element without text adds nothing, and behind a closing tag a text goes on in the span in front
of the element, if nothing was written inside.  So there is only one document that the styled
characters can make, and texts with the same characters have the same document.

## Main definitions

* `styledCharacters` — the styled characters that tokens add.

## Main results

* `Parser.map_cells_readAll` — reading tokens adds their styled characters.
* `Parser.exists_of_readAll_error` — an error comes up at one token, behind others that are read.
* `parse_eq_ofCells` — the document of a text, by its styled characters.
* `document_merged_at_every_point` — the form of documents during a parse and after it.
-/

namespace ChatTint

/-- The styled characters that tokens add, if some tags are open in front of them, or the
error: each token adds what it alone tells, in the style that the open tags pass on. -/
def styledCharacters (opened : List OpenTag) : List Token → Except MarkupError (List (Cell Style))
  | [] => .ok []
  | token :: tokens =>
    (Parser.openedAfter opened token).bind fun after =>
      (styledCharacters after tokens).map fun behind =>
        cellsOf token.plainText (inheritedStyle (opened.map OpenTag.effect)) ++ behind

theorem styledCharacters_of_error {opened : List OpenTag} {token : Token} {e : MarkupError}
    (h : Parser.openedAfter opened token = .error e) (tokens : List Token) :
    styledCharacters opened (token :: tokens) = .error e := by
  rw [styledCharacters, h]
  rfl

theorem styledCharacters_of_ok {opened after : List OpenTag} {token : Token}
    (h : Parser.openedAfter opened token = .ok after) (tokens : List Token) :
    styledCharacters opened (token :: tokens) =
      (styledCharacters after tokens).map fun behind =>
        cellsOf token.plainText (inheritedStyle (opened.map OpenTag.effect)) ++ behind := by
  rw [styledCharacters, h]
  rfl

namespace Parser

/-- One token adds its styled characters. -/
theorem cells_read {p q : Parser} {token : Token} {tags : List (List Char)}
    (htags : List.Forall₂ OpenTag.OpenedBy p.opened tags) (h : p.read token = .ok q) :
    q.document.cells = p.document.cells ++
      cellsOf token.plainText (inheritedStyle (p.opened.map OpenTag.effect)) := by
  rw [document_read htags h, Document.cells_push, style_eq]
  rfl

/-- **Reading tokens adds their styled characters**, or ends with the same error. -/
theorem map_cells_readAll {p : Parser} {tags : List (List Char)}
    (htags : List.Forall₂ OpenTag.OpenedBy p.opened tags) (tokens : List Token) :
    (p.readAll tokens).map (fun q => q.document.cells) =
      (styledCharacters p.opened tokens).map (p.document.cells ++ ·) := by
  induction tokens generalizing p tags with
  | nil => exact congrArg Except.ok (List.append_nil _).symm
  | cons token tokens ih =>
    have hopened := map_opened_read p token
    rw [readAll_cons]
    cases hread : p.read token with
    | error e =>
      rw [hread] at hopened
      rw [styledCharacters_of_error hopened.symm]
      rfl
    | ok q =>
      rw [hread] at hopened
      obtain ⟨after, -, hafter⟩ := exists_tags_of_read htags hread
      rw [styledCharacters_of_ok hopened.symm]
      refine (ih hafter).trans ?_
      -- the characters of the token stand in front of those that follow
      rw [cells_read htags hread]
      cases styledCharacters q.opened tokens with
      | error e => rfl
      | ok behind => exact congrArg Except.ok (List.append_assoc _ _ _)

theorem map_cells_readAll_start (tokens : List Token) :
    (start.readAll tokens).map (fun q => q.document.cells) = styledCharacters [] tokens := by
  rw [map_cells_readAll List.Forall₂.nil]
  show (styledCharacters [] tokens).map _ = _
  cases styledCharacters [] tokens with
  | error e => rfl
  | ok cells => rfl

/-- An error comes up at one token, and those in front of it are read. -/
theorem exists_of_readAll_error {p : Parser} {tokens : List Token} {e : MarkupError}
    (h : p.readAll tokens = .error e) :
    ∃ front token back q, tokens = front ++ token :: back ∧ p.readAll front = .ok q ∧
      q.read token = .error e := by
  induction tokens generalizing p with
  | nil => exact absurd h (by simp [readAll, pure, Except.pure])
  | cons token tokens ih =>
    rw [readAll_cons] at h
    cases hread : p.read token with
    | error e' =>
      rw [hread] at h
      exact ⟨[], token, tokens, p, rfl, rfl, hread.trans h⟩
    | ok p' =>
      rw [hread] at h
      obtain ⟨front, last, back, q, rfl, hfront, hlast⟩ := ih h
      refine ⟨token :: front, last, back, q, rfl, ?_, hlast⟩
      rw [readAll_cons, hread]
      exact hfront

end Parser

/-- **The document of a text, by its styled characters.** -/
theorem parse_eq_ofCells (text : List Char) :
    parse text = (styledCharacters [] (tokenize text)).map Document.ofCells := by
  have hcells := Parser.map_cells_readAll_start (tokenize text)
  rw [← hcells, parse]
  cases hread : Parser.start.readAll (tokenize text) with
  | error e => rfl
  | ok q =>
    have hmerged := Parser.isMerged_readAll Document.isMerged_empty hread
    exact congrArg Except.ok (Document.ofCells_cells hmerged).symm

/-- **At every point of every parse the document is merged.**  Behind any of a text's tokens
that are read, no span is empty, no two neighbours have one style, and the document has the
styled characters of these tokens; an error comes up at one token, in front of which there is
such a point.  Texts whose tokens make the same styled characters therefore have the same
document, or the same error. -/
theorem document_merged_at_every_point (text : List Char) :
    (∀ front back p, tokenize text = front ++ back → Parser.start.readAll front = .ok p →
      (∀ span ∈ p.document.spans, span.text ≠ []) ∧
      (p.document.spans.IsChain fun span next => span.style ≠ next.style) ∧
      styledCharacters [] front = .ok p.document.cells) ∧
    (∀ e, parse text = .error e →
      ∃ front token back p, tokenize text = front ++ token :: back ∧
        Parser.start.readAll front = .ok p ∧ p.read token = .error e) ∧
    ∀ other, styledCharacters [] (tokenize other) = styledCharacters [] (tokenize text) →
      parse other = parse text := by
  refine ⟨?_, ?_, ?_⟩
  · intro front back p _ hread
    have hmerged := Parser.isMerged_readAll Document.isMerged_empty hread
    have hcells := Parser.map_cells_readAll_start front
    rw [hread] at hcells
    exact ⟨hmerged.text_ne_nil, hmerged.style_ne, hcells.symm⟩
  · intro e h
    apply Parser.exists_of_readAll_error
    rw [parse] at h
    cases hread : Parser.start.readAll (tokenize text) with
    | error e' =>
      rw [hread] at h
      exact congrArg Except.error (Except.error.inj h)
    | ok q =>
      rw [hread] at h
      exact absurd h (by simp [Except.map])
  · intro other h
    rw [parse_eq_ofCells, parse_eq_ofCells, h]

theorem document_merged_around_empty_elements :
    let text := "a<b></b>b<i><red>\\<</red></i><br><reset></b>".toList
    let other := "<u></u>ab<em><c:red><</c></italic><newline></b><b>never".toList
    let front := (tokenize text).take 11
    let red : Style := { color := some (.palette .red), decorations := { italic := true } }
    let p : Parser :=
      { document := ⟨[⟨"ab".toList, .plain⟩, ⟨['<'], red⟩, ⟨['\n'], .plain⟩]⟩ }
    tokenize text = front ++ [.closeTag ['b']] ∧ Parser.start.readAll front = .ok p ∧
    (∀ span ∈ p.document.spans, span.text ≠ []) ∧
    (p.document.spans.IsChain fun span next => span.style ≠ next.style) ∧
    parse text = .error (.unmatchedClose ['b']) ∧
    (∃ front token back p, tokenize text = front ++ token :: back ∧
      Parser.start.readAll front = .ok p ∧ p.read token = .error (.unmatchedClose ['b'])) ∧
    styledCharacters [] (tokenize other) = styledCharacters [] (tokenize text) ∧
    parse other = parse text := by
  intro text other front red p
  have htokens : tokenize text = front ++ [.closeTag ['b']] := by decide +kernel
  have hread : Parser.start.readAll front = .ok p := by decide +kernel
  have herror : parse text = .error (.unmatchedClose ['b']) := by decide +kernel
  have hsame : styledCharacters [] (tokenize other) = styledCharacters [] (tokenize text) := by
    decide +kernel
  obtain ⟨hpoints, herrors, hothers⟩ := document_merged_at_every_point text
  obtain ⟨hempty, hstyles, -⟩ := hpoints front _ p htokens hread
  exact ⟨htokens, hread, hempty, hstyles, herror, herrors _ herror, hsame, hothers other hsame⟩

end ChatTint
