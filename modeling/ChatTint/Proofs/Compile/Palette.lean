import ChatTint.Proofs.Compile.Lowering

/-!
# Colours outside the palette

With the palette only, no colour of the markup is written as a hex code.  Still a hex
code can come about: the mark of one may stand at the end of a span, and the code of a
palette colour that is written next to it is read as its first digit.  The other digits
may follow behind the tag.  This needs a span in which a section sign stands directly
before an x; where there is none, no colour outside the palette is sent unless the
author has written a hex code.

## Main definitions

* `trueColorStart` — how the sequences begin that set a colour by its channels.
* `MarkFree` — a text in which no hex code begins.

## Main results

* `trueColorStart_isInfix_iff` — the beginning of such a sequence is sent for hex codes
  only.
* `markFree_spansToCodes` — where no span holds the mark of a hex code, none is written.
* `trueColor_of_palette` — when such a sequence is sent.
-/

namespace ChatTint

/-! ### Sequences that set a colour by its channels -/

/-- The beginning of every sequence that sets a colour by its channels. -/
def trueColorStart : List Char := "\x1b[38;2;".toList

theorem trueColorStart_isPrefix_escape (c : Rgb) (s : List Char) :
    trueColorStart <+: (Rendition.trueColor c).escape ++ s := by
  refine ⟨decimal c.red.toNat ++ ';' :: (decimal c.green.toNat ++
    ';' :: (decimal c.blue.toNat ++ 'm' :: s)), ?_⟩
  rw [Rendition.escape_append, Rendition.parameters_trueColor_append]
  rfl

/-- The sequence of a legacy code begins otherwise. -/
theorem not_trueColorStart_isPrefix_escape (k : Code) (s : List Char) :
    ¬ trueColorStart <+: k.rendition.escape ++ s := by
  intro h
  -- its first four characters tell, and every sequence has as many
  have hfour : "\x1b[38".toList <+: k.rendition.escape ++ s :=
    List.IsPrefix.trans (by decide) h
  have hcode : ∀ k : Code, "\x1b[38".toList.length ≤ k.rendition.escape.length ∧
      ¬ "\x1b[38".toList <+: k.rendition.escape := by
    intro k
    cases k with
    | color c => cases c <;> decide
    | decoration d => cases d <;> decide
    | reset => decide
  obtain ⟨hlength, hother⟩ := hcode k
  exact hother (List.prefix_of_prefix_length_le hfour (List.prefix_append _ _) hlength)

/-- A word is found behind a text that lacks its first character, or not at all. -/
theorem cons_isInfix_append {α : Type} {a : α} {w u : List α} (ha : a ∉ u) (s : List α) :
    a :: w <:+: u ++ s ↔ a :: w <:+: s := by
  induction u with
  | nil => rfl
  | cons b u ih =>
    rw [List.mem_cons, not_or] at ha
    rw [List.cons_append, List.infix_cons_iff, ih ha.2]
    refine or_iff_right fun h => ha.1 ?_
    exact (List.cons_prefix_cons.mp h).1

/-- Inside a sequence no other one begins. -/
theorem trueColorStart_isInfix_escape (r : Rendition) (s : List Char) :
    trueColorStart <:+: r.escape ++ s ↔
      trueColorStart <+: r.escape ++ s ∨ trueColorStart <:+: s := by
  have htail : escapeChar ∉ '[' :: (r.parameters ++ ['m']) := by
    intro h
    rw [List.mem_cons, List.mem_append, List.mem_singleton] at h
    rcases h with h | h | h
    · exact absurd h (by decide)
    · exact absurd (isDigit_or_of_mem_parameters h) (by decide)
    · exact absurd h (by decide)
  have hcons : r.escape ++ s = escapeChar :: ('[' :: (r.parameters ++ ['m']) ++ s) := rfl
  rw [hcons, List.infix_cons_iff]
  exact or_congr_right (cons_isInfix_append htail s)

/-- **The beginning of such a sequence is sent for hex codes only**, if no character
starts a sequence of its own. -/
theorem trueColorStart_isInfix_iff {items : List Item} (h : Item.char escapeChar ∉ items) :
    trueColorStart <:+: items.flatMap Item.escape ↔ ∃ c, Item.hex c ∈ items := by
  induction items with
  | nil =>
    refine iff_of_false (by decide) ?_
    rintro ⟨c, hc⟩
    exact absurd hc List.not_mem_nil
  | cons item items ih =>
    rw [List.mem_cons, not_or] at h
    have hrest := ih h.2
    rw [List.flatMap_cons]
    cases item with
    | hex c =>
      refine iff_of_true ?_ ⟨c, List.mem_cons_self⟩
      exact (trueColorStart_isPrefix_escape c _).isInfix
    | code k =>
      refine (trueColorStart_isInfix_escape k.rendition _).trans ?_
      rw [or_iff_right (not_trueColorStart_isPrefix_escape k _), hrest]
      simp
    | char c =>
      -- a character that starts no sequence does not begin this one
      have hc : escapeChar ∉ [c] := fun hmem => h.1 (by rw [List.mem_singleton.mp hmem])
      refine (cons_isInfix_append hc _).trans (hrest.trans ?_)
      simp

/-! ### Marks of hex codes -/

/-- A text in which no hex code begins: no section sign stands directly before an x. -/
def MarkFree (s : List Char) : Prop :=
  s.IsChain fun c d => c = sectionSign → d ≠ 'x' ∧ d ≠ 'X'

instance (s : List Char) : Decidable (MarkFree s) :=
  inferInstanceAs (Decidable (s.IsChain _))

/-- Every hex code begins with a mark. -/
theorem MarkFree.hex_notMem {s : List Char} (h : MarkFree s) (color : Rgb) :
    Item.hex color ∉ items s := by
  intro hmem
  fun_induction items s with
  | case1 => exact absurd hmem List.not_mem_nil
  | case2 c s color' rest hread ih =>
    -- whichever hex code was meant, this one has a mark too
    obtain ⟨x, ds, hx, -, -, hs⟩ := HexCode.read?_eq_some hread
    rw [hs] at h
    obtain ⟨hsmall, hcapital⟩ := (List.isChain_cons_cons.mp h).1 rfl
    exact hx.elim hsmall hcapital
  | case3 c hread => exact absurd hmem (by simp)
  | case4 c d rest hread hcode ih =>
    exact ih h.tail.tail (List.mem_of_ne_of_mem (by simp) hmem)
  | case5 c d rest hread hcode ih =>
    exact ih h.tail (List.mem_of_ne_of_mem (by simp) hmem)

/-! ### What is written with the palette only -/

/-- With the palette only, all items between two styles are legacy codes. -/
theorem exists_code_of_mem_switchItems {current next : Style} :
    ∀ item ∈ switchItems .palette current next, ∃ k, item = Item.code k := by
  refine forall_mem_switchItems .palette ⟨.reset, rfl⟩ (fun c => ?_)
    (fun d => ⟨.decoration d, rfl⟩) current next
  cases c with
  | palette c => exact ⟨.color c, rfl⟩
  | rgb c => exact ⟨.nearest c, rfl⟩

theorem Code.symbol_ne (k : Code) {c : Char} (hc : isCodeChar c = false) : k.symbol ≠ c := by
  intro h
  have hsymbol := isCodeChar_symbol k
  rw [h, hc] at hsymbol
  exact Bool.false_ne_true hsymbol

/-- Legacy codes in front of a text bring no mark about. -/
theorem markFree_codes {marks : List Item} (h : ∀ item ∈ marks, ∃ k, item = Item.code k)
    {s : List Char} (hs : MarkFree s) : MarkFree (marks.flatMap Item.text ++ s) := by
  induction marks with
  | nil => exact hs
  | cons item marks ih =>
    -- the character of a code is neither an x nor a section sign
    obtain ⟨k, rfl⟩ := h item List.mem_cons_self
    have hrest := ih fun i hi => h i (List.mem_cons_of_mem _ hi)
    have hsymbol : MarkFree (k.symbol :: (marks.flatMap Item.text ++ s)) :=
      List.isChain_cons.mpr
        ⟨fun d _ hsection => absurd hsection (k.symbol_ne not_isCodeChar_sectionSign), hrest⟩
    exact List.isChain_cons_cons.mpr
      ⟨fun _ => ⟨k.symbol_ne (by decide), k.symbol_ne (by decide)⟩, hsymbol⟩

/-- **Where no span holds the mark of a hex code, none is written** with the palette
only. -/
theorem markFree_spansToCodes : ∀ (spans : List Span) (current : Style),
    (∀ span ∈ spans, MarkFree span.text) → (spans.map Span.style).IsChain (· ≠ ·) →
      MarkFree (spansToCodes .palette current spans) := by
  intro spans
  induction spans with
  | nil => intro _ _ _; exact List.IsChain.nil
  | cons span spans ih =>
    intro current hfree hstyles
    have hspan := hfree span List.mem_cons_self
    have hrest := ih span.style (fun s hs => hfree s (List.mem_cons_of_mem span hs)) hstyles.tail
    rw [spansToCodes, List.append_assoc, ← text_switchItems]
    refine markFree_codes exists_code_of_mem_switchItems
      (List.isChain_append.mpr ⟨hspan, hrest, fun c _ d hd _ => ?_⟩)
    -- a section sign at the end of the span meets another one
    rw [head?_spansToCodes .palette hstyles d hd]
    decide

/-! ### When a colour outside the palette is sent -/

/-- **When a sequence that sets a colour by its channels is sent** with the palette only,
for a text without escape characters and hex codes: if and only if writing the markup as
codes brings a hex code about, and never where no span of the document holds the mark of
one. -/
theorem trueColor_of_palette (maxPasses : Nat) {text : List Char} (hescape : escapeChar ∉ text)
    (hhex : renderHexCodes text = text) :
    (trueColorStart <:+: (compile .palette maxPasses text).output ↔
      renderHexCodes (lower .palette text).text ≠ (lower .palette text).text) ∧
    ((∀ doc, parse text = .ok doc → ∀ span ∈ doc.spans, MarkFree span.text) →
      ¬ trueColorStart <:+: (compile .palette maxPasses text).output) := by
  have hlower : escapeChar ∉ (lower .palette text).text := by
    intro h
    rcases mem_lower h with h | h | h
    · exact hescape h
    · exact absurd h (by decide)
    · exact absurd h (by decide)
  have hsent : trueColorStart <:+: (compile .palette maxPasses text).output ↔
      ∃ color, Item.hex color ∈ items (lower .palette text).text := by
    rw [output_eq_sentItems,
      trueColorStart_isInfix_iff (escapeChar_notMem_sentItems .palette maxPasses hescape)]
    exact exists_congr fun color => hex_mem_sentItems .palette maxPasses text
  refine ⟨?_, ?_⟩
  · rw [hsent, ne_eq, renderHexCodes_eq_self_iff hlower]
    simp
  · intro hfree
    rw [hsent]
    rintro ⟨color, hmem⟩
    cases hparse : parse text with
    | error e =>
      -- a text that is no markup is rendered as it is
      rw [lower_of_rejected hparse] at hmem
      exact (renderHexCodes_eq_self_iff hescape).mp hhex color hmem
    | ok doc =>
      rw [lower_of_parse hparse] at hmem
      have hstyles := (List.isChain_map Span.style).mpr (isMerged_of_parse hparse).style_ne
      exact (markFree_spansToCodes doc.spans .plain (hfree doc hparse) hstyles).hex_notMem color
        hmem

theorem trueColor_of_palette_split_marks :
    let text := "§<red>x§1<#c34512>§4§5§6</red>y§".toList
    escapeChar ∉ text ∧ renderHexCodes text = text ∧
    parse text = .ok ⟨[⟨"§".toList, {}⟩,
      ⟨"x§1".toList, { color := some (.palette .red) }⟩,
      ⟨"§4§5§6".toList, { color := some (.rgb ⟨195, 69, 18⟩) }⟩,
      ⟨"y§".toList, {}⟩]⟩ ∧
    (compile .palette 8 text).output =
      "§\x1b[91mx\x1b[34m\x1b[31m\x1b[31m\x1b[35m\x1b[33m\x1b[0my§\x1b[0m".toList ∧
    ¬ trueColorStart <:+: (compile .palette 8 text).output ∧
    renderHexCodes (lower .palette text).text = (lower .palette text).text := by
  intro text
  have hescape : escapeChar ∉ text := by decide +kernel
  have hhex : renderHexCodes text = text := by decide +kernel
  have hparse : parse text = .ok ⟨[⟨"§".toList, {}⟩,
      ⟨"x§1".toList, { color := some (.palette .red) }⟩,
      ⟨"§4§5§6".toList, { color := some (.rgb ⟨195, 69, 18⟩) }⟩,
      ⟨"y§".toList, {}⟩]⟩ := by decide +kernel
  obtain ⟨hiff, hnone⟩ := trueColor_of_palette 8 hescape hhex
  have hsent : ¬ trueColorStart <:+: (compile .palette 8 text).output := by
    refine hnone fun doc hdoc => ?_
    rw [← Except.ok.inj (hparse.symm.trans hdoc)]
    decide
  exact ⟨hescape, hhex, hparse, by decide +kernel, hsent, not_not.mp (hiff.not.mp hsent)⟩

/-- A section sign and an x in front of a tag, and the code of the tag's colour with the
author's own codes behind it: together they are a hex code that no one has written. -/
theorem trueColor_joined_across_tag :
    let text := "§x<red>§1§2§3§4§5".toList
    escapeChar ∉ text ∧ renderHexCodes text = text ∧
    (lower .palette text).text = "§x§c§1§2§3§4§5".toList ∧
    (compile .palette 8 text).output = "\x1b[38;2;193;35;69m\x1b[0m".toList ∧
    trueColorStart <:+: (compile .palette 8 text).output := by
  decide +kernel

end ChatTint
