import ChatTint.Markup.Parser
import ChatTint.Proofs.Document.Merged

/-!
# Markup read character by character

The tokens of a text hold as many characters at once as they can.  Since a text
may be added to a document in any number of pieces, the parser does the same on
the *pieces* of a text, in which each character that stands for itself is a token
of its own.  Pieces follow the text: one equation for each way in which a text
can begin.

## Main definitions

* `StandsFor c s` — the character `c` means itself in front of the text `s`.
* `pieces` — the tokens of a text, those of plain text cut into characters.

## Main results

* `pieces_escaped`, `pieces_tag`, `pieces_bracket`, `pieces_char` — the equations.
* `markup_induction` — induction over the ways in which a text can begin.
* `pieces_openTag`, `pieces_closeTag` — tags are read back.
* `pieces_append_of_none` — a text that does not change the one in front of it.
* `parse_eq_pieces` — the document of a text, by its pieces.
* `parse_append_bracket` — a text behind another one, from where that one ends.
* `Parser.read_inv` — what a token can do to the document.
* `isMerged_of_parse`, `mem_plainText_of_parse` — every document of a text is
  merged, and its characters are those of the text and line ends.
-/

namespace ChatTint

/-! ### Runs of plain characters -/

/-- A character means itself in front of a text: it is no opening bracket, and no
backslash directly before one. -/
def StandsFor (c : Char) (s : List Char) : Prop := c ≠ '<' ∧ ¬ (c = '\\' ∧ s.head? = some '<')

theorem StandsFor.of_notMem {c : Char} {s : List Char} (h : '<' ∉ c :: s) : StandsFor c s := by
  rw [List.mem_cons, not_or] at h
  refine ⟨Ne.symm h.1, ?_⟩
  rintro ⟨-, hhead⟩
  exact h.2 (List.mem_of_mem_head? hhead)

/-- A character still means itself in front of a longer text, unless it is the last one of
the shorter text and escapes the bracket behind it. -/
theorem StandsFor.append {c : Char} {s t : List Char} (h : StandsFor c s)
    (hlast : t.head? = some '<' → (c :: s).getLast? ≠ some '\\') : StandsFor c (s ++ t) := by
  refine ⟨h.1, ?_⟩
  rintro ⟨rfl, hhead⟩
  cases s with
  | nil => exact hlast hhead rfl
  | cons d s => exact h.2 ⟨rfl, hhead⟩

theorem splitRun_cons {c : Char} {s : List Char} (h : StandsFor c s) :
    splitRun (c :: s) = (c :: (splitRun s).1, (splitRun s).2) := by
  cases s with
  | nil => simp only [splitRun, if_neg h.1]
  | cons d s =>
    rw [splitRun, if_neg]
    rintro (hc | ⟨hc, hd⟩)
    · exact h.1 hc
    · exact h.2 ⟨hc, by rw [hd]; rfl⟩

theorem splitRun_of_not_standsFor {c : Char} {s : List Char} (h : ¬ StandsFor c s) :
    splitRun (c :: s) = ([], c :: s) := by
  rw [StandsFor, not_and_not_right] at h
  by_cases hc : c = '<'
  · subst hc
    cases s with
    | nil => rfl
    | cons d s => rw [splitRun, if_pos (Or.inl rfl)]
  · obtain ⟨hslash, hhead⟩ := h hc
    obtain ⟨t, rfl⟩ := List.head?_eq_some_iff.mp hhead
    rw [splitRun, if_pos (Or.inr ⟨hslash, rfl⟩)]

/-! ### Tokens of a text by its beginning -/

theorem tokenize_nil : tokenize [] = [] := by rw [tokenize]

theorem tokenize_escaped (s : List Char) :
    tokenize ('\\' :: '<' :: s) = .escapedBracket :: tokenize s := by
  rw [tokenize, if_pos ⟨rfl, rfl⟩, List.tail_cons]

theorem tokenize_tag {s content rest : List Char} (h : splitContent? s = some (content, rest)) :
    tokenize ('<' :: s) = .ofContent content :: tokenize rest := by
  rw [tokenize, if_neg (by simp), if_pos rfl]
  split
  · next content' rest' h' =>
    rw [h, Option.some.injEq, Prod.mk.injEq] at h'
    rw [h'.1, h'.2]
  · next h' =>
    rw [h] at h'
    exact absurd h' (Option.some_ne_none _)

theorem tokenize_bracket {s : List Char} (h : splitContent? s = none) :
    tokenize ('<' :: s) = .text ['<'] :: tokenize s := by
  rw [tokenize, if_neg (by simp), if_pos rfl]
  split
  · next h' =>
    rw [h] at h'
    exact absurd h'.symm (Option.some_ne_none _)
  · rfl

theorem tokenize_run {c : Char} {s : List Char} (h : StandsFor c s) :
    tokenize (c :: s) = .text (c :: (splitRun s).1) :: tokenize (splitRun s).2 := by
  rw [tokenize, if_neg h.2, if_neg h.1]

/-! ### Pieces -/

/-- A token of plain text cut into its characters, and any other token whole. -/
def Token.pieces : Token → List Token
  | text s => s.map fun c => text [c]
  | token => [token]

/-- The tokens of a text, those of plain text cut into characters. -/
def pieces (s : List Char) : List Token := (tokenize s).flatMap Token.pieces

theorem pieces_nil : pieces [] = [] := by rw [pieces, tokenize_nil, List.flatMap_nil]

theorem pieces_escaped (s : List Char) :
    pieces ('\\' :: '<' :: s) = .escapedBracket :: pieces s := by
  rw [pieces, tokenize_escaped, List.flatMap_cons]
  rfl

theorem pieces_ofContent (content : List Char) :
    (Token.ofContent content).pieces = [Token.ofContent content] := by
  unfold Token.ofContent
  split
  · rfl
  · split
    · split <;> rfl
    · split <;> rfl

theorem pieces_tag {s content rest : List Char} (h : splitContent? s = some (content, rest)) :
    pieces ('<' :: s) = .ofContent content :: pieces rest := by
  rw [pieces, tokenize_tag h, List.flatMap_cons, pieces_ofContent]
  rfl

theorem pieces_bracket {s : List Char} (h : splitContent? s = none) :
    pieces ('<' :: s) = .text ['<'] :: pieces s := by
  rw [pieces, tokenize_bracket h, List.flatMap_cons]
  rfl

theorem pieces_run {c : Char} {s : List Char} (h : StandsFor c s) :
    pieces (c :: s) = .text [c] ::
      ((splitRun s).1.map (fun d => Token.text [d]) ++ pieces (splitRun s).2) := by
  rw [pieces, tokenize_run h, List.flatMap_cons]
  rfl

/-- The pieces of a text are the characters of its first run, and then the others. -/
theorem pieces_splitRun (s : List Char) :
    pieces s = (splitRun s).1.map (fun d => Token.text [d]) ++ pieces (splitRun s).2 := by
  cases s with
  | nil => rfl
  | cons c s =>
    by_cases h : StandsFor c s
    · rw [pieces_run h, splitRun_cons h]
      rfl
    · rw [splitRun_of_not_standsFor h]
      rfl

theorem pieces_char {c : Char} {s : List Char} (h : StandsFor c s) :
    pieces (c :: s) = .text [c] :: pieces s := by
  rw [pieces_run h, ← pieces_splitRun]

/-- A text without opening brackets in front of another one has only its characters as pieces,
if no backslash at its end escapes the first bracket of the other. -/
theorem pieces_append {u s : List Char} (hu : '<' ∉ u)
    (hlast : s.head? = some '<' → u.getLast? ≠ some '\\') :
    pieces (u ++ s) = u.map (fun c => Token.text [c]) ++ pieces s := by
  induction u with
  | nil => rfl
  | cons c u ih =>
    have hc : StandsFor c (u ++ s) := (StandsFor.of_notMem hu).append hlast
    rw [List.cons_append, pieces_char hc, ih (List.not_mem_of_not_mem_cons hu)]
    · rfl
    · intro hhead hu'
      refine hlast hhead ?_
      rw [List.getLast?_cons, hu']
      rfl

/-- A text without opening brackets has only its characters as pieces. -/
theorem pieces_of_notMem {s : List Char} (h : '<' ∉ s) :
    pieces s = s.map fun c => Token.text [c] := by
  have hpieces := pieces_append h fun hhead : ([] : List Char).head? = some '<' =>
    absurd hhead.symm (Option.some_ne_none _)
  rwa [List.append_nil, pieces_nil, List.append_nil] at hpieces

theorem splitContent?_append {u : List Char} (hu : ∀ c ∈ u, c ≠ '<' ∧ c ≠ '>') (s : List Char) :
    splitContent? (u ++ s) = (splitContent? s).map fun p => (u ++ p.1, p.2) := by
  induction u with
  | nil => cases hs : splitContent? s <;> simp [hs]
  | cons c u ih =>
    obtain ⟨hopen, hclose⟩ := hu c List.mem_cons_self
    rw [List.cons_append, splitContent?, if_neg hclose, if_neg hopen,
      ih fun d hd => hu d (List.mem_cons_of_mem c hd), Option.map_map]
    rfl

/-- What stands between brackets is taken whole if it holds no bracket itself. -/
theorem splitContent?_closed {content : List Char}
    (h : ∀ c ∈ content, c ≠ '<' ∧ c ≠ '>') (rest : List Char) :
    splitContent? (content ++ '>' :: rest) = some (content, rest) := by
  rw [splitContent?_append h, splitContent?, if_pos rfl, Option.map_some, List.append_nil]

/-- **Induction over a text by the ways in which it can begin**: with an escaped bracket, a
tag, a bracket that is text, or a character that means itself. -/
theorem markup_induction {motive : List Char → Prop} (nil : motive [])
    (escaped : ∀ s, motive s → motive ('\\' :: '<' :: s))
    (tag : ∀ s content rest, splitContent? s = some (content, rest) → motive rest →
      motive ('<' :: s))
    (bracket : ∀ s, splitContent? s = none → motive s → motive ('<' :: s))
    (char : ∀ c s, StandsFor c s → motive s → motive (c :: s)) (s : List Char) : motive s := by
  -- A tag takes several characters at once, so the induction is on the length.
  induction hn : s.length using Nat.strong_induction_on generalizing s with
  | _ n ih =>
    subst hn
    cases s with
    | nil => exact nil
    | cons c s =>
      by_cases hc : StandsFor c s
      · exact char c s hc (ih _ (Nat.lt_succ_self _) s rfl)
      rw [StandsFor, not_and_not_right] at hc
      by_cases hbracket : c = '<'
      · subst hbracket
        cases hs : splitContent? s with
        | none => exact bracket s hs (ih _ (Nat.lt_succ_self _) s rfl)
        | some p =>
          have hlt := length_splitContent?_lt hs
          exact tag s p.1 p.2 hs (ih _ (Nat.lt_succ_of_lt hlt) p.2 rfl)
      · obtain ⟨rfl, hhead⟩ := hc hbracket
        obtain ⟨t, rfl⟩ := List.head?_eq_some_iff.mp hhead
        exact escaped t (ih _ (by simp only [List.length_cons]; omega) t rfl)

/-! ### Text behind text -/

/-- A tag that is complete stays as it is, whatever stands behind it. -/
theorem splitContent?_append_of_some {s content rest : List Char}
    (h : splitContent? s = some (content, rest)) (t : List Char) :
    splitContent? (s ++ t) = some (content, rest ++ t) := by
  induction s generalizing content with
  | nil => exact absurd h.symm (Option.some_ne_none _)
  | cons c s ih =>
    rw [List.cons_append, splitContent?]
    unfold splitContent? at h
    split at h
    · next hclose =>
      obtain ⟨rfl, rfl⟩ := Prod.mk.inj (Option.some.inj h)
      rw [if_pos hclose]
    · next hclose =>
      split at h
      · exact absurd h.symm (Option.some_ne_none _)
      · next hopen =>
        obtain ⟨⟨content', rest'⟩, h', he⟩ := Option.map_eq_some_iff.mp h
        obtain ⟨rfl, rfl⟩ := Prod.mk.inj he
        rw [if_neg hclose, if_neg hopen, ih h']
        rfl

/-- A tag that is not complete stays so, if what stands behind it begins with no end of a
tag. -/
theorem splitContent?_append_of_none {s t : List Char} (hs : splitContent? s = none)
    (ht : splitContent? t = none) : splitContent? (s ++ t) = none := by
  induction s with
  | nil => exact ht
  | cons c s ih =>
    rw [List.cons_append, splitContent?]
    unfold splitContent? at hs
    split at hs
    · exact absurd hs (Option.some_ne_none _)
    · next hclose =>
      rw [if_neg hclose]
      split at hs
      · next hopen => rw [if_pos hopen]
      · next hopen =>
        rw [if_neg hopen, ih (Option.map_eq_none_iff.mp hs)]
        rfl

theorem getLast?_ne_of_append {c : Char} {u s : List Char} (h : (u ++ s).getLast? ≠ some c) :
    s.getLast? ≠ some c := by
  intro hs
  rw [List.getLast?_append, hs] at h
  exact h rfl

/-- **A text behind another one** changes nothing in front of it, if it begins with no end of
a tag and no backslash escapes its first bracket. -/
theorem pieces_append_of_none {t : List Char} (ht : splitContent? t = none) {s : List Char}
    (hlast : t.head? = some '<' → s.getLast? ≠ some '\\') :
    pieces (s ++ t) = pieces s ++ pieces t := by
  induction s using markup_induction with
  | nil =>
    rw [pieces_nil]
    rfl
  | escaped s ih =>
    have hs := ih fun hhead => @getLast?_ne_of_append _ ['\\', '<'] s (hlast hhead)
    rw [List.cons_append, List.cons_append, pieces_escaped, pieces_escaped, hs]
    rfl
  | tag s content rest hs ih =>
    have hrest := ih fun hhead => by
      have htag := hlast hhead
      rw [← append_splitContent? hs, List.append_cons] at htag
      exact @getLast?_ne_of_append _ ('<' :: (content ++ ['>'])) rest htag
    rw [List.cons_append, pieces_tag (splitContent?_append_of_some hs t), pieces_tag hs, hrest]
    rfl
  | bracket s hs ih =>
    have hrest := ih fun hhead => @getLast?_ne_of_append _ ['<'] s (hlast hhead)
    rw [List.cons_append, pieces_bracket (splitContent?_append_of_none hs ht), pieces_bracket hs,
      hrest]
    rfl
  | char c s hc ih =>
    have hct : StandsFor c (s ++ t) := hc.append hlast
    have hrest := ih fun hhead => @getLast?_ne_of_append _ [c] s (hlast hhead)
    rw [List.cons_append, pieces_char hct, pieces_char hc, hrest]
    rfl

/-- Text without brackets at the end of a text is its characters, and changes nothing in
front of it. -/
theorem pieces_append_right {t : List Char} (ht : ∀ c ∈ t, c ≠ '<' ∧ c ≠ '>') (s : List Char) :
    pieces (s ++ t) = pieces s ++ t.map fun c => Token.text [c] := by
  have hopen : '<' ∉ t := fun h => (ht _ h).1 rfl
  have hnone : splitContent? t = none := by
    rw [← List.append_nil t, splitContent?_append ht]
    rfl
  rw [pieces_append_of_none hnone fun hhead => absurd (List.mem_of_mem_head? hhead) hopen,
    pieces_of_notMem hopen]

/-! ### Tags -/

theorem isTagChar_of_isTagStart {c : Char} (h : isTagStart c = true) : isTagChar c = true := by
  have hchar : isTagChar c =
      (c.isUpper || c.isLower || c.isDigit || c == '_' || c == '-' || c == ':' || c == '#') := rfl
  simp only [isTagStart, Bool.or_eq_true] at h
  simp only [hchar, Bool.or_eq_true]
  tauto

theorem isTagChar_of_isTagText {s : List Char} (h : isTagText s = true) {c : Char} (hc : c ∈ s) :
    isTagChar c = true := by
  cases s with
  | nil => exact absurd hc List.not_mem_nil
  | cons d s =>
    rw [isTagText, Bool.and_eq_true, List.all_eq_true] at h
    rcases List.mem_cons.mp hc with rfl | hc
    · exact isTagChar_of_isTagStart h.1
    · exact h.2 c hc

theorem ne_bracket_of_isTagText {tag : List Char} (h : isTagText tag = true) :
    ∀ c ∈ tag, c ≠ '<' ∧ c ≠ '>' := by
  intro c hc
  have htag := isTagChar_of_isTagText h hc
  refine ⟨?_, ?_⟩
  · rintro rfl
    exact absurd htag (by decide)
  · rintro rfl
    exact absurd htag (by decide)

theorem ofContent_openTag {tag : List Char} (h : isTagText tag = true) :
    Token.ofContent tag = .openTag tag := by
  cases tag with
  | nil => exact absurd h Bool.false_ne_true
  | cons c s =>
    -- no tag text begins with the slash that would make it close
    have hslash : c ≠ '/' := by
      rintro rfl
      exact absurd (isTagChar_of_isTagText h List.mem_cons_self) (by decide)
    rw [Token.ofContent, if_neg hslash, if_pos h]

theorem ofContent_closeTag {tag : List Char} (h : isTagText tag = true) :
    Token.ofContent ('/' :: tag) = .closeTag tag := by
  rw [Token.ofContent, if_pos rfl, if_pos h]

/-- An opening tag is read back, whatever stands behind it. -/
theorem pieces_openTag {tag : List Char} (h : isTagText tag = true) (s : List Char) :
    pieces ((Token.openTag tag).source ++ s) = .openTag tag :: pieces s := by
  have hsplit := splitContent?_closed (ne_bracket_of_isTagText h) s
  have hsource : (Token.openTag tag).source ++ s = '<' :: (tag ++ '>' :: s) := by
    simp [Token.source]
  rw [hsource, pieces_tag hsplit, ofContent_openTag h]

/-- A closing tag is read back, whatever stands behind it. -/
theorem pieces_closeTag {tag : List Char} (h : isTagText tag = true) (s : List Char) :
    pieces ((Token.closeTag tag).source ++ s) = .closeTag tag :: pieces s := by
  have hcontent : ∀ c ∈ '/' :: tag, c ≠ '<' ∧ c ≠ '>' := by
    intro c hc
    rcases List.mem_cons.mp hc with rfl | hc
    · decide
    · exact ne_bracket_of_isTagText h c hc
  have hsplit := splitContent?_closed hcontent s
  have hsource : (Token.closeTag tag).source ++ s = '<' :: ('/' :: tag ++ '>' :: s) := by
    simp [Token.source]
  rw [hsource, pieces_tag hsplit, ofContent_closeTag h]

/-! ### The parser on pieces -/

namespace Parser

theorem readAll_cons (p : Parser) (token : Token) (tokens : List Token) :
    p.readAll (token :: tokens) = (p.read token).bind fun q => q.readAll tokens := rfl

theorem readAll_append (p : Parser) (tokens more : List Token) :
    p.readAll (tokens ++ more) = (p.readAll tokens).bind fun q => q.readAll more :=
  List.foldlM_append

theorem write_append (p : Parser) (s t : List Char) : p.write (s ++ t) = (p.write s).write t := by
  show ({ p with document := p.document.push (s ++ t) p.style } : Parser) = _
  rw [Document.push_append]
  rfl

/-- Characters that are read one after the other are written together. -/
theorem readAll_chars (p : Parser) (s : List Char) :
    p.readAll (s.map fun c => Token.text [c]) = .ok (p.write s) := by
  induction s generalizing p with
  | nil => rfl
  | cons c s ih =>
    rw [List.map_cons, readAll_cons]
    show (p.write [c]).readAll _ = _
    rw [ih, ← write_append]
    rfl

theorem readAll_singleton (p : Parser) (token : Token) : p.readAll [token] = p.read token := by
  rw [readAll_cons]
  cases p.read token <;> rfl

theorem readAll_token_pieces (p : Parser) (token : Token) :
    p.readAll token.pieces = p.read token := by
  cases token with
  | text s => exact readAll_chars p s
  | escapedBracket => exact readAll_singleton p _
  | openTag tag => exact readAll_singleton p _
  | closeTag tag => exact readAll_singleton p _
  | badTag content => exact readAll_singleton p _

/-- **The parser does the same on pieces as on tokens.** -/
theorem readAll_pieces (p : Parser) (tokens : List Token) :
    p.readAll (tokens.flatMap Token.pieces) = p.readAll tokens := by
  induction tokens generalizing p with
  | nil => rfl
  | cons token tokens ih =>
    rw [List.flatMap_cons, readAll_append, readAll_token_pieces, readAll_cons]
    cases p.read token with
    | error e => rfl
    | ok q => exact ih q

/-! ### What a token can do -/

/-- A token that is read leaves the document as it is or writes a text, whose
characters are the token's or a line end. -/
theorem read_inv {p q : Parser} {token : Token} (h : p.read token = .ok q) :
    q.document = p.document ∨
      ∃ text, (∀ c ∈ text, c ∈ token.source ∨ c = '\n') ∧ q = p.write text := by
  cases token with
  | text s =>
    obtain rfl : p.write s = q := Except.ok.inj h
    exact Or.inr ⟨s, fun c hc => Or.inl hc, rfl⟩
  | escapedBracket =>
    obtain rfl : p.write ['<'] = q := Except.ok.inj h
    exact Or.inr ⟨['<'], fun c hc => Or.inl (List.mem_cons_of_mem _ hc), rfl⟩
  | badTag content =>
    obtain rfl : p.write (Token.badTag content).source = q := Except.ok.inj h
    exact Or.inr ⟨_, fun c hc => Or.inl hc, rfl⟩
  | openTag tag =>
    rw [read, onOpen] at h
    split at h
    · exact absurd h (by simp)
    · rw [← Except.ok.inj h]
      exact Or.inr ⟨_, fun c hc => Or.inl hc, rfl⟩
    · rw [← Except.ok.inj h]
      exact Or.inl rfl
    · rw [← Except.ok.inj h]
      exact Or.inl rfl
    · rw [← Except.ok.inj h]
      exact Or.inr ⟨['\n'], fun c hc => Or.inr (List.mem_singleton.mp hc), rfl⟩
  | closeTag tag =>
    rw [read, onClose] at h
    split at h
    · rw [← Except.ok.inj h]
      exact Or.inl rfl
    · split at h
      · exact absurd h (by simp)
      · rw [← Except.ok.inj h]
        exact Or.inr ⟨_, fun c hc => Or.inl hc, rfl⟩

/-- **Invariants of a parse.**  What holds of a state, and of every state that a token
of the text makes of such a state, holds after the whole text. -/
theorem readAll_induction {motive : Parser → Prop} {p q : Parser} {tokens : List Token}
    (hstart : motive p)
    (hstep : ∀ token ∈ tokens, ∀ p' q', motive p' → p'.read token = .ok q' → motive q')
    (h : p.readAll tokens = .ok q) : motive q := by
  induction tokens generalizing p with
  | nil =>
    obtain rfl : p = q := Except.ok.inj h
    exact hstart
  | cons token tokens ih =>
    rw [readAll_cons] at h
    cases hread : p.read token with
    | error e =>
      rw [hread] at h
      exact absurd h (by simp [Except.bind])
    | ok p' =>
      rw [hread] at h
      exact ih (hstep token List.mem_cons_self p p' hstart hread)
        (fun t ht => hstep t (List.mem_cons_of_mem token ht)) h

/-- One token keeps the document merged. -/
theorem isMerged_read {p q : Parser} {token : Token} (hp : p.document.IsMerged)
    (h : p.read token = .ok q) : q.document.IsMerged := by
  rcases read_inv h with hdoc | ⟨text, -, rfl⟩
  · rw [hdoc]
    exact hp
  · exact Document.isMerged_push hp text p.style

/-- **At every point of a parse the document is merged.** -/
theorem isMerged_readAll {p q : Parser} {tokens : List Token} (hp : p.document.IsMerged)
    (h : p.readAll tokens = .ok q) : q.document.IsMerged :=
  readAll_induction (motive := fun p => p.document.IsMerged) hp
    (fun _ _ _ _ hp' hq => isMerged_read hp' hq) h

end Parser

/-! ### The document of a text -/

/-- The document of a text, by the text's pieces. -/
theorem parse_eq_pieces (s : List Char) :
    parse s = (Parser.start.readAll (pieces s)).map Parser.document := by
  rw [parse, pieces, Parser.readAll_pieces]

theorem exists_of_parse {s : List Char} {doc : Document} (h : parse s = .ok doc) :
    ∃ q, Parser.start.readAll (tokenize s) = .ok q ∧ q.document = doc := by
  rw [parse] at h
  cases hread : Parser.start.readAll (tokenize s) with
  | error e =>
    rw [hread] at h
    exact absurd h (by simp [Except.map])
  | ok q =>
    rw [hread] at h
    exact ⟨q, rfl, Except.ok.inj h⟩

/-- **A text that begins with a bracket, behind another text**, goes on from the state in which
the other one ends, unless a backslash escapes the bracket. -/
theorem parse_append_bracket {a t : List Char} {p : Parser} (ha : a.getLast? ≠ some '\\')
    (hread : Parser.start.readAll (tokenize a) = .ok p) :
    parse (a ++ '<' :: t) = (p.readAll (pieces ('<' :: t))).map Parser.document := by
  have hpieces : Parser.start.readAll (pieces a) = .ok p :=
    (Parser.readAll_pieces Parser.start (tokenize a)).trans hread
  rw [parse_eq_pieces, pieces_append_of_none rfl fun _ => ha, Parser.readAll_append, hpieces]
  rfl

/-- Every document of a text is merged. -/
theorem isMerged_of_parse {s : List Char} {doc : Document} (h : parse s = .ok doc) :
    doc.IsMerged := by
  obtain ⟨q, hread, rfl⟩ := exists_of_parse h
  exact Parser.isMerged_readAll Document.isMerged_empty hread

/-- The characters of a document are characters of its text, and line ends. -/
theorem mem_plainText_of_parse {s : List Char} {doc : Document} (h : parse s = .ok doc)
    {c : Char} (hc : c ∈ doc.plainText) : c ∈ s ∨ c = '\n' := by
  obtain ⟨q, hread, rfl⟩ := exists_of_parse h
  refine Parser.readAll_induction
    (motive := fun p => ∀ d ∈ p.document.plainText, d ∈ s ∨ d = '\n')
    (fun d hd => absurd hd List.not_mem_nil) (fun token htoken p' q' hp hq => ?_) hread c hc
  have hsource : ∀ d ∈ token.source, d ∈ s := by
    intro d hd
    rw [← source_tokenize s]
    exact List.mem_flatMap.mpr ⟨token, htoken, hd⟩
  rcases Parser.read_inv hq with hdoc | ⟨text, htext, rfl⟩
  · rw [hdoc]
    exact hp
  · intro d hd
    have hplain : (p'.write text).document.plainText = p'.document.plainText ++ text :=
      Document.plainText_push _ _ _
    rw [hplain, List.mem_append] at hd
    rcases hd with hd | hd
    · exact hp d hd
    · exact (htext d hd).imp_left (hsource d)

end ChatTint
