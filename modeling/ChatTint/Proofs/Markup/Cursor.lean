import ChatTint.Proofs.Markup.Pieces
import ChatTint.Proofs.Text.Slices

/-!
# The tokens of a text by a cursor of bytes

A scanner need not take a text apart.  It keeps an offset in bytes, looks for the next
opening bracket and the next escaped one, and hands out slices of the text: what stands
in front of the nearer of the two, or a tag up to the next bracket if that one closes.
A slice is there only where both its offsets stand between two characters, so the
scanner could fail on a text that is not ASCII.  It never does: every offset that it
comes to is the size of the tokens in front of it, and what it hands out is what
`tokenize` says.

## Main definitions

* `findBytes?` — the offset of the first place that passes a test.
* `nextSpecial?`, `findBracket?` — the two searches of the scanner.
* `SlicedToken`, `Token.sliced` — a token as a slice, and the slice of each token.
* `tokenAt?`, `tokensFrom?` — one token, and all of them.
* `slicedFrom` — tokens as slices, with the offsets behind them.

## Main results

* `nextSpecial?_eq` — the nearer of two finds is the end of a run.
* `findBracket?_eq` — the next bracket, if it closes, is the end of a tag.
* `tokenAt?_escaped`, `tokenAt?_tag`, `tokenAt?_bracket`, `tokenAt?_run` — one token, in
  each way in which a text can begin.
* `tokensFrom?_eq` — the scanner hands out the tokens of a text.
-/

namespace ChatTint

/-! ### Finding -/

/-- The offset of the first place of a text from where on it passes a test. -/
def findBytes? (test : List Char → Bool) : List Char → Option Nat
  | [] => none
  | c :: s => if test (c :: s) then some 0 else (findBytes? test s).map (c.utf8Size + ·)

/-- The offset of the next opening bracket or of the backslash in front of one, whichever
comes first. -/
def nextSpecial? (s : List Char) : Option Nat :=
  match findBytes? (['<'].isPrefixOf ·) s, findBytes? (['\\', '<'].isPrefixOf ·) s with
  | some bracket, some escape => some (min bracket escape)
  | bracket, escape => bracket.or escape

/-- The offset of the next bracket, if that one closes. -/
def findBracket? (s : List Char) : Option Nat :=
  (findBytes? (fun t => t.head? == some '<' || t.head? == some '>') s).filter fun offset =>
    (encodeUtf8 s)[offset]? == some 62

/-! ### Scanning -/

/-- A token as a slice of the text. -/
inductive SlicedToken where
  /-- Text, and of an escaped bracket the bracket alone. -/
  | text (slice : List Char)
  /-- The tag text of an opening tag. -/
  | openTag (slice : List Char)
  /-- The tag text of a closing tag. -/
  | closeTag (slice : List Char)
  /-- Any other tag, with its brackets. -/
  | invalidTag (slice : List Char)
deriving DecidableEq

/-- The token of a tag, by the slice between its brackets and the whole one. -/
def SlicedToken.ofTag (content tag : List Char) : SlicedToken :=
  match content with
  | '/' :: name => if isTagText name then closeTag name else invalidTag tag
  | _ => if isTagText content then openTag content else invalidTag tag

/-- The token at an opening bracket, and its size. -/
def bracketAt? (remaining : List Char) : Option (SlicedToken × Nat) := do
  let after ← slice? remaining 1 (utf8Size remaining)
  match findBracket? after with
  | some stop =>
    let content ← slice? after 0 stop
    let tag ← slice? remaining 0 (stop + 2)
    return (.ofTag content tag, stop + 2)
  | none =>
    let bracket ← slice? remaining 0 1
    return (.text bracket, 1)

/-- The first token of a text, and its size. -/
def tokenAt? (remaining : List Char) : Option (SlicedToken × Nat) :=
  if ['\\', '<'].isPrefixOf remaining then
    (slice? remaining 1 2).map fun bracket => (.text bracket, 2)
  else
    match nextSpecial? remaining with
    | none => some (.text remaining, utf8Size remaining)
    | some 0 => bracketAt? remaining
    | some (n + 1) => (slice? remaining 0 (n + 1)).map fun run => (.text run, n + 1)

theorem size_pos_of_bracketAt? {remaining : List Char} {token : SlicedToken} {size : Nat}
    (h : bracketAt? remaining = some (token, size)) : 0 < size := by
  obtain ⟨after, -, h⟩ := Option.bind_eq_some_iff.mp h
  cases hstop : findBracket? after with
  | none =>
    simp only [hstop] at h
    obtain ⟨bracket, -, h⟩ := Option.bind_eq_some_iff.mp h
    cases h
    exact Nat.one_pos
  | some stop =>
    simp only [hstop] at h
    obtain ⟨content, -, h⟩ := Option.bind_eq_some_iff.mp h
    obtain ⟨tag, -, h⟩ := Option.bind_eq_some_iff.mp h
    cases h
    exact Nat.succ_pos _

/-- A token takes at least one byte. -/
theorem size_pos_of_tokenAt? {remaining : List Char} {token : SlicedToken} {size : Nat}
    (h : tokenAt? remaining = some (token, size)) (hne : 0 < utf8Size remaining) : 0 < size := by
  unfold tokenAt? at h
  split at h
  · obtain ⟨bracket, -, h⟩ := Option.map_eq_some_iff.mp h
    cases h
    exact Nat.two_pos
  · split at h
    · cases h
      exact hne
    · exact size_pos_of_bracketAt? h
    · obtain ⟨run, -, h⟩ := Option.map_eq_some_iff.mp h
      cases h
      exact Nat.succ_pos _

/-- The tokens of a text from an offset on, each with the offset behind it. -/
def tokensFrom? (text : List Char) (offset : Nat) : Option (List (SlicedToken × Nat)) :=
  if _hmore : offset < utf8Size text then
    match _htoken : (slice? text offset (utf8Size text)).bind tokenAt? with
    | none => none
    | some (token, size) =>
      (tokensFrom? text (offset + size)).map ((token, offset + size) :: ·)
  else some []
termination_by utf8Size text - offset
decreasing_by
  obtain ⟨remaining, hslice, htoken⟩ := Option.bind_eq_some_iff.mp _htoken
  obtain ⟨front, back, -, hfront, hstop⟩ := slice?_eq_some_iff.mp hslice
  have hsize := utf8Size_append front remaining
  have hpos := size_pos_of_tokenAt? htoken (by omega)
  omega

/-! ### The searches -/

/-- Where a run cannot go on the next token begins. -/
theorem nextSpecial?_of_not_standsFor {c : Char} {s : List Char} (h : ¬ StandsFor c s) :
    nextSpecial? (c :: s) = some 0 := by
  rw [StandsFor, not_and_not_right] at h
  unfold nextSpecial?
  by_cases hc : c = '<'
  · have hbracket : findBytes? (['<'].isPrefixOf ·) (c :: s) = some 0 := by
      simp [findBytes?, List.isPrefixOf, hc]
    rw [hbracket]
    cases findBytes? (['\\', '<'].isPrefixOf ·) (c :: s) with
    | none => rfl
    | some escape => exact congrArg some (Nat.zero_min escape)
  · obtain ⟨rfl, hhead⟩ := h hc
    obtain ⟨t, rfl⟩ := List.head?_eq_some_iff.mp hhead
    have hescape : findBytes? (['\\', '<'].isPrefixOf ·) ('\\' :: '<' :: t) = some 0 := by
      simp [findBytes?, List.isPrefixOf]
    rw [hescape]
    cases findBytes? (['<'].isPrefixOf ·) ('\\' :: '<' :: t) with
    | none => rfl
    | some bracket => exact congrArg some (Nat.min_zero bracket)

theorem isPrefixOf_escape_of_standsFor {c : Char} {s : List Char} (h : StandsFor c s) :
    ['\\', '<'].isPrefixOf (c :: s) = false := by
  rw [Bool.eq_false_iff, ne_eq, List.isPrefixOf_iff_prefix]
  rintro ⟨t, ht⟩
  obtain ⟨rfl, rfl⟩ := List.cons.inj ht
  exact h.2 ⟨rfl, rfl⟩

/-- Over a character that means itself both searches go on. -/
theorem nextSpecial?_of_standsFor {c : Char} {s : List Char} (h : StandsFor c s) :
    nextSpecial? (c :: s) = (nextSpecial? s).map (c.utf8Size + ·) := by
  have hbracket : ['<'].isPrefixOf (c :: s) = false := by
    simpa [List.isPrefixOf] using Ne.symm h.1
  have hescape := isPrefixOf_escape_of_standsFor h
  simp only [nextSpecial?, findBytes?, hbracket, hescape, Bool.false_eq_true, if_false]
  cases findBytes? (['<'].isPrefixOf ·) s with
  | none => cases findBytes? (['\\', '<'].isPrefixOf ·) s <;> rfl
  | some bracket =>
    cases findBytes? (['\\', '<'].isPrefixOf ·) s with
    | none => rfl
    | some escape => exact congrArg some (Nat.add_min_add_left c.utf8Size bracket escape)

/-- **The nearer of the two finds is the end of a run.** -/
theorem nextSpecial?_eq (s : List Char) :
    nextSpecial? s = if (splitRun s).2 = [] then none else some (utf8Size (splitRun s).1) := by
  induction s with
  | nil => rfl
  | cons c s ih =>
    by_cases h : StandsFor c s
    · rw [nextSpecial?_of_standsFor h, splitRun_cons h, ih]
      split <;> rfl
    · rw [nextSpecial?_of_not_standsFor h, splitRun_of_not_standsFor h]
      rfl

theorem getElem?_encodeUtf8_cons (c : Char) (s : List Char) (n : Nat) :
    (encodeUtf8 (c :: s))[c.utf8Size + n]? = (encodeUtf8 s)[n]? := by
  have hcons : encodeUtf8 (c :: s) = String.utf8EncodeChar c ++ encodeUtf8 s := List.flatMap_cons
  have hlength : (String.utf8EncodeChar c).length = c.utf8Size := String.length_utf8EncodeChar c
  rw [hcons, List.getElem?_append_right (by omega), hlength, Nat.add_sub_cancel_left]

/-- **The next bracket, if it closes, is the end of a tag.** -/
theorem findBracket?_eq (s : List Char) :
    findBracket? s = (splitContent? s).map fun parts => utf8Size parts.1 := by
  induction s with
  | nil => rfl
  | cons c s ih =>
    unfold findBracket? at ih ⊢
    by_cases hclose : c = '>'
    · subst hclose
      rfl
    · by_cases hopen : c = '<'
      · subst hopen
        rfl
      · -- both go on, and the byte that is looked at stays the same
        have hsizes : ((splitContent? (c :: s)).map fun parts => utf8Size parts.1) =
            ((splitContent? s).map fun parts => utf8Size parts.1).map (c.utf8Size + ·) := by
          rw [splitContent?, if_neg hclose, if_neg hopen]
          cases splitContent? s <;> rfl
        rw [hsizes, ← ih, findBytes?, if_neg (by simp [hclose, hopen])]
        cases findBytes? _ s with
        | none => rfl
        | some n =>
          rw [Option.map_some, Option.filter_some, Option.filter_some, getElem?_encodeUtf8_cons]
          split <;> rfl

/-! ### One token -/

/-- The slice of each token. -/
def Token.sliced : Token → SlicedToken
  | text s => .text s
  | escapedBracket => .text ['<']
  | openTag tag => .openTag tag
  | closeTag tag => .closeTag tag
  | badTag content => .invalidTag ('<' :: (content ++ ['>']))

theorem ofTag_eq (content : List Char) :
    SlicedToken.ofTag content ('<' :: (content ++ ['>'])) = (Token.ofContent content).sliced := by
  cases content with
  | nil => rfl
  | cons c name =>
    by_cases hc : c = '/'
    · subst hc
      simp only [SlicedToken.ofTag, Token.ofContent, if_pos]
      split <;> rfl
    · rw [Token.ofContent, if_neg hc]
      unfold SlicedToken.ofTag
      split
      · next heq => exact absurd (List.cons.inj heq).1 hc
      · split <;> rfl

/-- What follows a bracket, as a slice. -/
theorem slice?_tail (s : List Char) : slice? ('<' :: s) 1 (utf8Size ('<' :: s)) = some s :=
  slice?_eq_some_iff.mpr ⟨['<'], [], List.append_nil _, rfl, rfl⟩

/-- What stands in front, as a slice. -/
theorem slice?_front (piece back : List Char) :
    slice? (piece ++ back) 0 (utf8Size piece) = some piece :=
  slice?_eq_some_iff.mpr ⟨[], back, rfl, rfl, rfl⟩

theorem tokenAt?_escaped (s : List Char) :
    tokenAt? ('\\' :: '<' :: s) =
      some (Token.escapedBracket.sliced, utf8Size Token.escapedBracket.source) := by
  have hslice : slice? ('\\' :: '<' :: s) 1 2 = some ['<'] :=
    slice?_eq_some_iff.mpr ⟨['\\'], s, rfl, rfl, rfl⟩
  rw [tokenAt?, if_pos (by simp [List.isPrefixOf]), hslice]
  rfl

theorem tokenAt?_open (s : List Char) : tokenAt? ('<' :: s) = bracketAt? ('<' :: s) := by
  rw [tokenAt?, if_neg (by simp [List.isPrefixOf]),
    nextSpecial?_of_not_standsFor fun h => h.1 rfl]

theorem tokenAt?_tag {s content rest : List Char} (h : splitContent? s = some (content, rest)) :
    tokenAt? ('<' :: s) =
      some ((Token.ofContent content).sliced, utf8Size (Token.ofContent content).source) := by
  have hparts : content ++ '>' :: rest = s := append_splitContent? h
  have hstop : findBracket? s = some (utf8Size content) := by
    rw [findBracket?_eq, h]
    rfl
  have hcontent : slice? s 0 (utf8Size content) = some content := by
    rw [← hparts]
    exact slice?_front content _
  have hsize : utf8Size ('<' :: (content ++ ['>'])) = utf8Size content + 2 := by
    rw [utf8Size_cons, utf8Size_append]
    exact Nat.add_comm 1 _
  have htag : slice? ('<' :: s) 0 (utf8Size content + 2) = some ('<' :: (content ++ ['>'])) := by
    rw [← hsize, ← hparts, List.append_cons]
    exact slice?_front ('<' :: (content ++ ['>'])) rest
  rw [tokenAt?_open, bracketAt?, slice?_tail, Option.bind_eq_bind, Option.bind_some]
  simp only [hstop, hcontent, htag, Option.bind_some, ofTag_eq, Token.source_ofContent, hsize]
  rfl

theorem tokenAt?_bracket {s : List Char} (h : splitContent? s = none) :
    tokenAt? ('<' :: s) = some ((Token.text ['<']).sliced, utf8Size (Token.text ['<']).source) := by
  have hnone : findBracket? s = none := by
    rw [findBracket?_eq, h]
    rfl
  have hslice : slice? ('<' :: s) 0 1 = some ['<'] := slice?_front ['<'] s
  rw [tokenAt?_open, bracketAt?, slice?_tail, Option.bind_eq_bind, Option.bind_some]
  simp only [hnone, hslice]
  rfl

/-- A run ends at the nearer find, or at the end of the text. -/
theorem tokenAt?_run {c : Char} {s : List Char} (h : StandsFor c s) :
    tokenAt? (c :: s) = some ((Token.text (c :: (splitRun s).1)).sliced,
      utf8Size (Token.text (c :: (splitRun s).1)).source) := by
  have hescape : ¬ ['\\', '<'].isPrefixOf (c :: s) = true :=
    Bool.eq_false_iff.mp (isPrefixOf_escape_of_standsFor h)
  have happend : c :: (splitRun s).1 ++ (splitRun s).2 = c :: s :=
    congrArg (c :: ·) (append_splitRun s)
  have hspecial := nextSpecial?_eq (c :: s)
  rw [splitRun_cons h] at hspecial
  rw [tokenAt?, if_neg hescape, hspecial]
  by_cases hend : (splitRun s).2 = []
  · rw [if_pos hend]
    rw [hend, List.append_nil] at happend
    rw [happend]
    rfl
  · obtain ⟨n, hn⟩ : ∃ n, utf8Size (c :: (splitRun s).1) = n + 1 := by
      have hpos := c.utf8Size_pos
      exact ⟨utf8Size (c :: (splitRun s).1) - 1, by rw [utf8Size_cons]; omega⟩
    have hslice : slice? (c :: s) 0 (n + 1) = some (c :: (splitRun s).1) := by
      rw [← hn, ← happend]
      exact slice?_front _ _
    have hsize : utf8Size (Token.text (c :: (splitRun s).1)).source = n + 1 := hn
    rw [if_neg hend, hn, hsize]
    simp only [hslice]
    rfl

/-! ### All tokens -/

/-- Some tokens as slices, each with the offset behind it. -/
def slicedFrom (offset : Nat) : List Token → List (SlicedToken × Nat)
  | [] => []
  | token :: tokens =>
    (token.sliced, offset + utf8Size token.source) ::
      slicedFrom (offset + utf8Size token.source) tokens

/-- If the scanner hands out the tokens of what is behind a token, it does so with the
token in front. -/
theorem tokensFrom?_token {s rest : List Char} {token : Token} {tokens : List Token}
    (hsource : token.source ++ rest = s) (hne : s ≠ [])
    (htoken : tokenAt? s = some (token.sliced, utf8Size token.source))
    (hrest : ∀ front, tokensFrom? (front ++ rest) (utf8Size front) =
      some (slicedFrom (utf8Size front) tokens)) (front : List Char) :
    tokensFrom? (front ++ s) (utf8Size front) =
      some (slicedFrom (utf8Size front) (token :: tokens)) := by
  have hmore : utf8Size front < utf8Size (front ++ s) := by
    obtain ⟨c, t, rfl⟩ := List.exists_cons_of_ne_nil hne
    have hpos := c.utf8Size_pos
    rw [utf8Size_append, utf8Size_cons]
    omega
  have hslice : slice? (front ++ s) (utf8Size front) (utf8Size (front ++ s)) = some s :=
    slice?_eq_some_iff.mpr ⟨front, [], List.append_nil _, rfl, rfl⟩
  have hnext := hrest (front ++ token.source)
  rw [List.append_assoc, hsource, utf8Size_append] at hnext
  rw [tokensFrom?, dif_pos hmore]
  split
  · next hnone =>
    rw [hslice, Option.bind_some, htoken] at hnone
    exact absurd hnone (Option.some_ne_none _)
  · next sliced size hsome =>
    rw [hslice, Option.bind_some, htoken, Option.some.injEq, Prod.mk.injEq] at hsome
    obtain ⟨rfl, rfl⟩ := hsome
    rw [hnext]
    rfl

/-- **Behind a part of a text the scanner hands out the tokens of the rest.** -/
theorem tokensFrom?_append (front s : List Char) :
    tokensFrom? (front ++ s) (utf8Size front) =
      some (slicedFrom (utf8Size front) (tokenize s)) := by
  fun_induction tokenize s generalizing front with
  | case1 =>
    rw [tokensFrom?, dif_neg (by simp)]
    rfl
  | case2 c s h ih =>
    obtain ⟨rfl, hhead⟩ := h
    obtain ⟨t, rfl⟩ := List.head?_eq_some_iff.mp hhead
    have hsource : Token.escapedBracket.source ++ t = '\\' :: '<' :: t := rfl
    exact tokensFrom?_token hsource (List.cons_ne_nil _ _) (tokenAt?_escaped t) ih front
  | case3 s content rest hsplit _ ih =>
    have hsource : (Token.ofContent content).source ++ rest = '<' :: s := by
      rw [Token.source_ofContent, ← append_splitContent? hsplit]
      simp
    exact tokensFrom?_token hsource (List.cons_ne_nil _ _) (tokenAt?_tag hsplit) ih front
  | case4 s hsplit _ ih =>
    have hsource : (Token.text ['<']).source ++ s = '<' :: s := rfl
    exact tokensFrom?_token hsource (List.cons_ne_nil _ _) (tokenAt?_bracket hsplit) ih front
  | case5 c s hescape hbracket ih =>
    have hsource : (Token.text (c :: (splitRun s).1)).source ++ (splitRun s).2 = c :: s :=
      congrArg (c :: ·) (append_splitRun s)
    exact tokensFrom?_token hsource (List.cons_ne_nil _ _) (tokenAt?_run ⟨hbracket, hescape⟩) ih
      front

/-- **The scanner hands out the tokens of a text**, and every slice that it takes is there. -/
theorem tokensFrom?_eq (text : List Char) :
    tokensFrom? text 0 = some (slicedFrom 0 (tokenize text)) := tokensFrom?_append [] text

end ChatTint
