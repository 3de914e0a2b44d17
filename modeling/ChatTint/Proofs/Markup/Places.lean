import ChatTint.Proofs.Markup.Cursor
import ChatTint.Proofs.Markup.Pattern
import ChatTint.Proofs.Markup.Tags

/-!
# Where tags stand

The tokens of a text were defined by reading it from the left.  Here they are told by
the text itself, place by place.  Every token is a stretch of the text, and the
stretches make it up.  A tag stands at an opening bracket if the next bracket closes and
no backslash stands in front.  Any other opening bracket is a character, and of the
whole text only the backslashes that make it one are lost.

What carries the proofs is that every token fits the text behind it (`Token.Fits`): a
bracket that is text is followed by nothing that closes it, and no run of characters
ends with a backslash in front of a bracket.

## Main definitions

* `Token.Fits`, `AllFit` — what a token says of itself and of the text behind it.
* `BeginsBehind text before token` — a token of the text with `before` in front of it.
* `Token.literal`, `unescape` — the characters that a token keeps, and a text without
  the backslashes that escape brackets.

## Main results

* `allFit_tokenize` — every token of a text fits what stands behind it.
* `bracket_cases` — each opening bracket is text, is escaped, or begins a tag.
* `beginsBehind_tag_iff` — where the tags of a text stand, and which they are.
* `literal_tokenize` — what the tokens of a text keep of it.
* `tokenize_grammar` — the tokens of a text, by the text.
-/

namespace ChatTint

/-! ### Brackets -/

/-- A text without brackets. -/
def BracketFree (s : List Char) : Prop := ∀ c ∈ s, c ≠ '<' ∧ c ≠ '>'

instance (s : List Char) : Decidable (BracketFree s) :=
  List.decidableBAll (fun c => c ≠ '<' ∧ c ≠ '>') s

/-- The bracket at the end of a tag brings no opening one about. -/
theorem BracketFree.notMem_append {content : List Char} (h : BracketFree content) :
    '<' ∉ content ++ ['>'] := by
  intro hmem
  rcases List.mem_append.mp hmem with hmem | hmem
  · exact (h _ hmem).1 rfl
  · exact absurd (List.mem_singleton.mp hmem) (by decide)

/-- The content of a tag is what stands before the next bracket, if that one closes. -/
theorem splitContent?_eq_some_iff {s content rest : List Char} :
    splitContent? s = some (content, rest) ↔
      s = content ++ '>' :: rest ∧ BracketFree content := by
  constructor
  · intro h
    refine ⟨(append_splitContent? h).symm, ?_⟩
    induction s generalizing content with
    | nil => exact absurd h.symm (Option.some_ne_none _)
    | cons c s ih =>
      unfold splitContent? at h
      split at h
      · obtain ⟨rfl, -⟩ := Prod.mk.inj (Option.some.inj h)
        exact fun d hd => absurd hd List.not_mem_nil
      · next hclose =>
        split at h
        · exact absurd h.symm (Option.some_ne_none _)
        · next hopen =>
          obtain ⟨⟨content', rest'⟩, h', he⟩ := Option.map_eq_some_iff.mp h
          obtain ⟨rfl, rfl⟩ := Prod.mk.inj he
          intro d hd
          rcases List.mem_cons.mp hd with rfl | hd
          · exact ⟨hopen, hclose⟩
          · exact ih h' d hd
  · rintro ⟨rfl, hfree⟩
    exact splitContent?_closed hfree rest

/-! ### What a token says of the text -/

namespace Token

/-- Whether a token is a tag of any kind, with its brackets. -/
def isBracketed : Token → Bool
  | text _ => false
  | escapedBracket => false
  | openTag _ => true
  | closeTag _ => true
  | badTag _ => true

/-- What a token says of itself and of the text behind it. -/
def Fits (rest : List Char) : Token → Prop
  | text s =>
    s = ['<'] ∧ splitContent? rest = none ∨
      s ≠ [] ∧ '<' ∉ s ∧ (rest.head? = some '<' → s.getLast? ≠ some '\\')
  | escapedBracket => True
  | token => ∃ content, BracketFree content ∧ token = ofContent content

theorem isBracketed_ofContent (content : List Char) :
    (ofContent content).isBracketed = true := by
  unfold ofContent
  split
  · rfl
  · split
    · split <;> rfl
    · split <;> rfl

theorem fits_iff_of_isBracketed {token : Token} {rest : List Char}
    (h : token.isBracketed = true) :
    token.Fits rest ↔ ∃ content, BracketFree content ∧ token = ofContent content := by
  cases token with
  | text s => exact absurd h Bool.false_ne_true
  | escapedBracket => exact absurd h Bool.false_ne_true
  | openTag tag => rfl
  | closeTag tag => rfl
  | badTag content => rfl

theorem Fits.source_ne_nil {token : Token} {rest : List Char} (h : token.Fits rest) :
    token.source ≠ [] := by
  cases token with
  | text s =>
    rcases h with ⟨hs, -⟩ | ⟨hs, -, -⟩
    · rw [source, hs]
      exact List.cons_ne_nil _ _
    · exact hs
  | escapedBracket => exact List.cons_ne_nil _ _
  | openTag tag => exact List.cons_ne_nil _ _
  | closeTag tag => exact List.cons_ne_nil _ _
  | badTag content => exact List.cons_ne_nil _ _

/-- In front of a bracket no token ends with a backslash. -/
theorem Fits.getLast?_ne {token : Token} {rest : List Char} (h : token.Fits rest)
    (hrest : rest.head? = some '<') : token.source.getLast? ≠ some '\\' := by
  cases token with
  | text s =>
    rcases h with ⟨hs, -⟩ | ⟨-, -, hlast⟩
    · rw [source, hs]
      decide
    · exact hlast hrest
  | escapedBracket => decide
  | openTag tag => simp [source, List.getLast?_cons]
  | closeTag tag => simp [source, List.getLast?_cons]
  | badTag content => simp [source, List.getLast?_cons]

end Token

/-! ### Runs -/

theorem notMem_splitRun (s : List Char) : '<' ∉ (splitRun s).1 := by
  fun_induction splitRun s with
  | case1 => exact List.not_mem_nil
  | case2 => exact List.not_mem_nil
  | case3 c hc =>
    rw [List.mem_singleton]
    exact fun h => hc h.symm
  | case4 => exact List.not_mem_nil
  | case5 c d s h ih =>
    rw [List.mem_cons, not_or]
    exact ⟨fun hc => h (Or.inl hc.symm), ih⟩

/-- No bracket stands in a run. -/
theorem notMem_run {c : Char} {s : List Char} (h : StandsFor c s) : '<' ∉ c :: (splitRun s).1 := by
  rw [List.mem_cons, not_or]
  exact ⟨Ne.symm h.1, notMem_splitRun s⟩

/-- A run in front of a bracket does not end with a backslash. -/
theorem getLast?_run {c : Char} {s : List Char} (h : StandsFor c s)
    (hrest : (splitRun s).2.head? = some '<') :
    (c :: (splitRun s).1).getLast? ≠ some '\\' := by
  induction s generalizing c with
  | nil => exact absurd hrest (by simp [splitRun])
  | cons d s ih =>
    by_cases hd : StandsFor d s
    · rw [splitRun_cons hd] at hrest ⊢
      rw [List.getLast?_cons_cons]
      exact ih hd hrest
    · -- the run ends here, so the bracket is the next character
      rw [splitRun_of_not_standsFor hd] at hrest ⊢
      intro hlast
      exact h.2 ⟨Option.some.inj hlast, hrest⟩

/-! ### Tokens that fit -/

/-- Each of some tokens fits the text of those behind it. -/
def AllFit : List Token → Prop
  | [] => True
  | token :: tokens => token.Fits (tokens.flatMap Token.source) ∧ AllFit tokens

theorem AllFit.fits {front back : List Token} {token : Token}
    (h : AllFit (front ++ token :: back)) : token.Fits (back.flatMap Token.source) := by
  induction front with
  | nil => exact h.1
  | cons t front ih => exact ih h.2

/-- **Every token of a text fits what stands behind it.** -/
theorem allFit_tokenize (text : List Char) : AllFit (tokenize text) := by
  fun_induction tokenize text with
  | case1 => trivial
  | case2 c s h ih => exact ⟨trivial, ih⟩
  | case3 s content rest hsplit _ ih =>
    have hfree := (splitContent?_eq_some_iff.mp hsplit).2
    have hbracketed := Token.isBracketed_ofContent content
    exact ⟨(Token.fits_iff_of_isBracketed hbracketed).mpr ⟨content, hfree, rfl⟩, ih⟩
  | case4 s hsplit _ ih =>
    refine ⟨Or.inl ⟨rfl, ?_⟩, ih⟩
    rw [source_tokenize]
    exact hsplit
  | case5 c s hescape hbracket ih =>
    refine ⟨Or.inr ⟨List.cons_ne_nil _ _, notMem_run ⟨hbracket, hescape⟩, ?_⟩, ih⟩
    rw [source_tokenize]
    exact getLast?_run ⟨hbracket, hescape⟩

theorem fits_of_tokenize {text : List Char} {front back : List Token} {token : Token}
    (h : tokenize text = front ++ token :: back) : token.Fits (back.flatMap Token.source) := by
  have hall := allFit_tokenize text
  rw [h] at hall
  exact hall.fits

/-! ### Places in a text -/

/-- A token of a text that begins behind a part of it. -/
def BeginsBehind (text before : List Char) (token : Token) : Prop :=
  ∃ front back, tokenize text = front ++ token :: back ∧ front.flatMap Token.source = before

/-- Tokens that are not empty begin at different places. -/
theorem AllFit.token_unique {front front' back back' : List Token} {token token' : Token}
    (hall : AllFit (front ++ token :: back))
    (h : front ++ token :: back = front' ++ token' :: back')
    (hplace : front.flatMap Token.source = front'.flatMap Token.source) : token = token' := by
  induction front generalizing front' with
  | nil =>
    cases front' with
    | nil => exact (List.cons.inj h).1
    | cons t front' =>
      obtain ⟨rfl, -⟩ := List.cons.inj h
      exact absurd (List.append_eq_nil_iff.mp hplace.symm).1 hall.fits.source_ne_nil
  | cons t front ih =>
    cases front' with
    | nil => exact absurd (List.append_eq_nil_iff.mp hplace).1 hall.1.source_ne_nil
    | cons t' front' =>
      obtain ⟨rfl, htail⟩ := List.cons.inj h
      exact ih hall.2 htail (List.append_cancel_left hplace)

theorem beginsBehind_unique {text before : List Char} {token token' : Token}
    (h : BeginsBehind text before token) (h' : BeginsBehind text before token') :
    token = token' := by
  obtain ⟨front, back, htokens, hfront⟩ := h
  obtain ⟨front', back', htokens', hfront'⟩ := h'
  have hall := allFit_tokenize text
  rw [htokens] at hall
  exact hall.token_unique (htokens.symm.trans htokens') (hfront.trans hfront'.symm)

/-- A character of some tokens' text is a character of one of them. -/
theorem exists_token_of_source {tokens : List Token} {before after : List Char} {c : Char}
    (h : tokens.flatMap Token.source = before ++ c :: after) :
    ∃ front token back u v, tokens = front ++ token :: back ∧ token.source = u ++ c :: v ∧
      before = front.flatMap Token.source ++ u ∧ after = v ++ back.flatMap Token.source := by
  induction tokens generalizing before with
  | nil => exact absurd h.symm (by simp)
  | cons t tokens ih =>
    rw [List.flatMap_cons, List.append_eq_append_iff] at h
    rcases h with ⟨u, hbefore, hrest⟩ | ⟨v, hsource, hafter⟩
    · obtain ⟨front, token, back, w, v, htokens, hsource, hu, hv⟩ := ih hrest
      refine ⟨t :: front, token, back, w, v, ?_, hsource, ?_, hv⟩
      · rw [htokens]
        rfl
      · rw [hbefore, hu, List.flatMap_cons, List.append_assoc]
    · cases v with
      | nil =>
        -- the character is the first one behind this token
        have hrest : tokens.flatMap Token.source = [] ++ c :: after := hafter.symm
        obtain ⟨front, token, back, w, v, htokens, hsource', hw, hv⟩ := ih hrest
        refine ⟨t :: front, token, back, w, v, ?_, hsource', ?_, hv⟩
        · rw [htokens]
          rfl
        · rw [List.flatMap_cons, List.append_assoc, ← hw, hsource, List.append_nil,
            List.append_nil]
      | cons d v =>
        obtain ⟨rfl, rfl⟩ := List.cons.inj hafter
        exact ⟨[], t, tokens, before, v, rfl, hsource, rfl, rfl⟩

/-- A text with one opening bracket, at its beginning, is split there only. -/
theorem split_at_bracket {w u v : List Char} (hw : '<' ∉ w) (h : '<' :: w = u ++ '<' :: v) :
    u = [] ∧ v = w := by
  cases u with
  | nil => exact ⟨rfl, (List.cons.inj h).2.symm⟩
  | cons d u =>
    have hmem : '<' ∈ w := by
      rw [(List.cons.inj h).2]
      exact List.mem_append_right u List.mem_cons_self
    exact absurd hmem hw

/-- **Each opening bracket** is text because the next bracket does not close, or is escaped,
or begins a tag. -/
theorem bracket_cases {text before after : List Char} (h : text = before ++ '<' :: after) :
    (BeginsBehind text before (.text ['<']) ∧ splitContent? after = none) ∨
    (∃ init, before = init ++ ['\\'] ∧ BeginsBehind text init .escapedBracket) ∨
    (∃ content rest, after = content ++ '>' :: rest ∧ BracketFree content ∧
      BeginsBehind text before (.ofContent content)) := by
  have hsource : (tokenize text).flatMap Token.source = before ++ '<' :: after := by
    rw [source_tokenize, h]
  -- the bracket is a character of one token, whose kind decides
  obtain ⟨front, token, back, u, v, htokens, htoken, rfl, rfl⟩ := exists_token_of_source hsource
  have hfits := fits_of_tokenize htokens
  by_cases hbracketed : token.isBracketed = true
  · right
    right
    obtain ⟨content, hfree, rfl⟩ := (Token.fits_iff_of_isBracketed hbracketed).mp hfits
    rw [Token.source_ofContent] at htoken
    obtain ⟨rfl, rfl⟩ := split_at_bracket hfree.notMem_append htoken
    refine ⟨content, back.flatMap Token.source, ?_, hfree, front, back, htokens, ?_⟩
    · rw [List.append_assoc, List.singleton_append]
    · rw [List.append_nil]
  · cases token with
    | text s =>
      rcases hfits with ⟨rfl, hnone⟩ | ⟨-, hfree, -⟩
      · left
        obtain ⟨rfl, rfl⟩ := split_at_bracket List.not_mem_nil htoken
        exact ⟨⟨front, back, htokens, (List.append_nil _).symm⟩, hnone⟩
      · have hmem : '<' ∈ u ++ '<' :: v := List.mem_append_right u List.mem_cons_self
        rw [← htoken] at hmem
        exact absurd hmem hfree
    | escapedBracket =>
      right
      left
      cases u with
      | nil => exact absurd (List.cons.inj htoken).1 (by decide)
      | cons d u =>
        obtain ⟨rfl, htail⟩ := List.cons.inj htoken
        obtain ⟨rfl, -⟩ := split_at_bracket List.not_mem_nil htail
        exact ⟨front.flatMap Token.source, rfl, front, back, htokens, rfl⟩
    | openTag tag => exact absurd rfl hbracketed
    | closeTag tag => exact absurd rfl hbracketed
    | badTag content => exact absurd rfl hbracketed

/-- **Where the tags of a text stand, and which they are.** -/
theorem beginsBehind_tag_iff {text before : List Char} {token : Token} :
    (BeginsBehind text before token ∧ token.isBracketed = true) ↔
      ∃ content rest, text = before ++ '<' :: (content ++ '>' :: rest) ∧
        before.getLast? ≠ some '\\' ∧ BracketFree content ∧ TagOf content token := by
  constructor
  · rintro ⟨⟨front, back, htokens, rfl⟩, hbracketed⟩
    have hfits := fits_of_tokenize htokens
    obtain ⟨content, hfree, rfl⟩ := (Token.fits_iff_of_isBracketed hbracketed).mp hfits
    refine ⟨content, back.flatMap Token.source, ?_, ?_, hfree, tagOf_iff.mpr rfl⟩
    · rw [← source_tokenize text, htokens, List.flatMap_append, List.flatMap_cons,
        Token.source_ofContent]
      simp
    · rcases List.eq_nil_or_concat front with rfl | ⟨init, last, rfl⟩
      · intro hnone
        exact absurd hnone.symm (Option.some_ne_none _)
      · -- the token in front ends before a bracket
        rw [List.concat_eq_append, List.append_assoc, List.singleton_append] at htokens
        have hlast := fits_of_tokenize htokens
        have hslash : last.source.getLast? ≠ some '\\' := by
          apply hlast.getLast?_ne
          rw [List.flatMap_cons, Token.source_ofContent]
          rfl
        rw [List.concat_eq_append, List.flatMap_append, List.flatMap_singleton,
          List.getLast?_append_of_ne_nil _ hlast.source_ne_nil]
        exact hslash
  · rintro ⟨content, rest, htext, hlast, hfree, htag⟩
    obtain rfl := tagOf_iff.mp htag
    refine ⟨?_, Token.isBracketed_ofContent content⟩
    have hsplit := splitContent?_closed hfree rest
    rcases bracket_cases htext with
      ⟨-, hnone⟩ | ⟨init, rfl, -⟩ | ⟨content', rest', heq, hfree', hbegins⟩
    · rw [hsplit] at hnone
      exact absurd hnone (Option.some_ne_none _)
    · exact absurd List.getLast?_concat hlast
    · -- the next bracket is the same one
      rw [heq, splitContent?_closed hfree' rest', Option.some.injEq, Prod.mk.injEq] at hsplit
      rw [← hsplit.1]
      exact hbegins

/-! ### Stretches of bytes -/

/-- The bytes of a token are a stretch of the bytes of the text. -/
theorem bytes_of_beginsBehind {text before : List Char} {token : Token}
    (h : BeginsBehind text before token) :
    ((encodeUtf8 text).drop (utf8Size before)).take (utf8Size token.source) =
      encodeUtf8 token.source := by
  obtain ⟨front, back, htokens, rfl⟩ := h
  have htext : encodeUtf8 text = encodeUtf8 (front.flatMap Token.source) ++
      (encodeUtf8 token.source ++ encodeUtf8 (back.flatMap Token.source)) := by
    rw [← encodeUtf8_append, ← encodeUtf8_append, ← List.flatMap_cons, ← List.flatMap_append,
      ← htokens, source_tokenize]
  rw [htext, ← length_encodeUtf8, ← length_encodeUtf8, List.drop_left, List.take_left]

/-- No token is empty, so a text has at most as many tokens as characters. -/
theorem length_tokenize_le (text : List Char) : (tokenize text).length ≤ text.length := by
  have hall : ∀ tokens, AllFit tokens →
      tokens.length ≤ (tokens.flatMap Token.source).length := by
    intro tokens htokens
    induction tokens with
    | nil => exact Nat.le_refl 0
    | cons token tokens ih =>
      have hpos : 0 < token.source.length := List.length_pos_of_ne_nil htokens.1.source_ne_nil
      have hrest := ih htokens.2
      rw [List.flatMap_cons, List.length_append, List.length_cons]
      omega
  have h := hall (tokenize text) (allFit_tokenize text)
  rw [source_tokenize] at h
  exact h

/-! ### What is kept of a text -/

/-- The characters that a token keeps of its stretch of the text. -/
def Token.literal : Token → List Char
  | escapedBracket => ['<']
  | token => token.source

/-- The text without the backslashes that stand directly before an opening bracket. -/
def unescape : List Char → List Char
  | [] => []
  | c :: s => if c = '\\' ∧ s.head? = some '<' then unescape s else c :: unescape s

theorem unescape_cons {c : Char} {s : List Char} (h : ¬ (c = '\\' ∧ s.head? = some '<')) :
    unescape (c :: s) = c :: unescape s := by
  rw [unescape, if_neg h]

theorem unescape_append {u s : List Char} (hu : '<' ∉ u)
    (hlast : s.head? = some '<' → u.getLast? ≠ some '\\') :
    unescape (u ++ s) = u ++ unescape s := by
  induction u with
  | nil => rfl
  | cons c u ih =>
    have hc : StandsFor c (u ++ s) := (StandsFor.of_notMem hu).append hlast
    rw [List.cons_append, unescape_cons hc.2, List.cons_append]
    cases u with
    | nil => rfl
    | cons d u =>
      rw [ih (List.not_mem_of_not_mem_cons hu)]
      intro hs
      have h := hlast hs
      rwa [List.getLast?_cons_cons] at h

/-- A token that opens and closes nothing is written as what it keeps. -/
theorem Parser.read_eq_write (p : Parser) {token : Token} (h : token.isTag = false) :
    p.read token = .ok (p.write token.literal) := by
  cases token with
  | text s => rfl
  | escapedBracket => rfl
  | badTag content => rfl
  | openTag tag => exact absurd h.symm Bool.false_ne_true
  | closeTag tag => exact absurd h.symm Bool.false_ne_true

theorem Token.literal_eq_source {token : Token} (h : token.isBracketed = true) :
    token.literal = token.source := by
  cases token with
  | escapedBracket => exact absurd h Bool.false_ne_true
  | text s => rfl
  | openTag tag => rfl
  | closeTag tag => rfl
  | badTag content => rfl

/-- **Of a text only the backslashes are lost that escape a bracket.** -/
theorem literal_tokenize (text : List Char) :
    (tokenize text).flatMap Token.literal = unescape text := by
  fun_induction tokenize text with
  | case1 => rfl
  | case2 c s h ih =>
    obtain ⟨rfl, hs⟩ := h
    obtain ⟨t, rfl⟩ := List.head?_eq_some_iff.mp hs
    rw [unescape, if_pos ⟨rfl, rfl⟩, unescape_cons (by simp), List.flatMap_cons, ih]
    rfl
  | case3 s content rest hsplit _ ih =>
    obtain ⟨rfl, hfree⟩ := splitContent?_eq_some_iff.mp hsplit
    have htag : unescape (content ++ ['>'] ++ rest) = content ++ ['>'] ++ unescape rest := by
      apply unescape_append hfree.notMem_append
      intro _
      rw [List.getLast?_concat]
      decide
    rw [List.append_cons content '>' rest, unescape_cons (by simp), htag, List.flatMap_cons, ih,
      Token.literal_eq_source (Token.isBracketed_ofContent content), Token.source_ofContent]
    rfl
  | case4 s hsplit _ ih =>
    rw [unescape_cons (by simp), List.flatMap_cons, ih]
    rfl
  | case5 c s hescape hbracket ih =>
    have hrun : unescape (c :: (splitRun s).1 ++ (splitRun s).2) =
        c :: (splitRun s).1 ++ unescape (splitRun s).2 := by
      apply unescape_append
      · exact notMem_run ⟨hbracket, hescape⟩
      · exact getLast?_run ⟨hbracket, hescape⟩
    rw [List.cons_append, append_splitRun] at hrun
    rw [hrun, List.flatMap_cons, ih]
    rfl

/-! ### The tokens of a text -/

/-- **The tokens of a text, by the text.**  The tokens end, none of them is empty, and
their stretches, in characters as in bytes, make up the text.  A tag stands where an
unescaped opening bracket has a closing one as the next bracket, and the pattern tells
which tag it is.  Every other opening bracket is a character, and of the text only the
backslashes directly before an opening bracket are lost.  A scanner that goes through the
bytes hands out the same tokens, with the offsets behind them, and finds every slice. -/
theorem tokenize_grammar (text : List Char) :
    ((tokenize text).length ≤ text.length ∧
      (tokenize text).flatMap Token.source = text ∧
      ∀ before token, BeginsBehind text before token →
        token.source ≠ [] ∧
        (∀ token', BeginsBehind text before token' → token' = token) ∧
        ((encodeUtf8 text).drop (utf8Size before)).take (utf8Size token.source) =
          encodeUtf8 token.source) ∧
    (∀ before token, (BeginsBehind text before token ∧ token.isBracketed = true) ↔
      ∃ content rest, text = before ++ '<' :: (content ++ '>' :: rest) ∧
        before.getLast? ≠ some '\\' ∧ BracketFree content ∧ TagOf content token) ∧
    (∀ before after, text = before ++ '<' :: after →
      (∃ token, BeginsBehind text before token ∧ token.isBracketed = true) ∨
      BeginsBehind text before (.text ['<']) ∨
      ∃ init, before = init ++ ['\\'] ∧ BeginsBehind text init .escapedBracket) ∧
    (tokenize text).flatMap Token.literal = unescape text ∧
    (∀ (p : Parser) (token : Token), token.isTag = false →
      p.read token = .ok (p.write token.literal)) ∧
    tokensFrom? text 0 = some (slicedFrom 0 (tokenize text)) := by
  refine ⟨⟨length_tokenize_le text, source_tokenize text, ?_⟩, ?_, ?_, literal_tokenize text, ?_,
    tokensFrom?_eq text⟩
  · intro before token h
    refine ⟨?_, fun token' h' => beginsBehind_unique h' h, bytes_of_beginsBehind h⟩
    obtain ⟨front, back, htokens, -⟩ := h
    exact (fits_of_tokenize htokens).source_ne_nil
  · intro before token
    exact beginsBehind_tag_iff
  · intro before after h
    rcases bracket_cases h with ⟨hbegins, -⟩ | hescaped | ⟨content, rest, -, -, hbegins⟩
    · exact Or.inr (Or.inl hbegins)
    · exact Or.inr (Or.inr hescaped)
    · exact Or.inl ⟨_, hbegins, Token.isBracketed_ofContent content⟩
  · intro p token h
    exact p.read_eq_write h

theorem tokenize_backslashes_and_nested_brackets :
    let text := "é\\\\<b>x<c<d></#F0>\\<i <>".toList
    tokenize text = [.text "é\\".toList, .escapedBracket, .text "b>x".toList, .text ['<'],
      .text ['c'], .openTag ['d'], .closeTag "#F0".toList, .escapedBracket, .text "i ".toList,
      .badTag []] ∧
    BeginsBehind text "é\\\\<b>x<c".toList (.openTag ['d']) ∧
    ((encodeUtf8 text).drop 10).take 3 = encodeUtf8 "<d>".toList ∧
    ¬ BeginsBehind text "é\\\\".toList (.openTag ['b']) ∧
    tokensFrom? text 0 = some [(.text "é\\".toList, 3), (.text ['<'], 5), (.text "b>x".toList, 8),
      (.text ['<'], 9), (.text ['c'], 10), (.openTag ['d'], 13), (.closeTag "#F0".toList, 19),
      (.text ['<'], 21), (.text "i ".toList, 23), (.invalidTag "<>".toList, 25)] := by
  intro text
  obtain ⟨⟨-, -, hbytes⟩, htags, -, -, -, hscan⟩ := tokenize_grammar text
  have hopen : BeginsBehind text "é\\\\<b>x<c".toList (.openTag ['d']) := by
    refine ((htags _ _).mpr ⟨['d'], "</#F0>\\<i <>".toList, ?_, ?_, ?_, ?_⟩).1
    · decide +kernel
    · decide
    · decide
    · exact .opening (isTagText_iff.mp (by decide))
  refine ⟨by decide +kernel, hopen, (hbytes _ _ hopen).2.2, ?_, hscan.trans (by decide +kernel)⟩
  intro hescaped
  obtain ⟨content, rest, -, hlast, -, -⟩ := (htags _ _).mp ⟨hescaped, rfl⟩
  exact hlast (by decide)

end ChatTint
