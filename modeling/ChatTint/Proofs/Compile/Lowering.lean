import ChatTint.Proofs.Compile.Passes
import ChatTint.Proofs.Legacy.Writer

/-!
# What a compile renders

Whatever the number of its passes, a compile renders one text, the one in which the
markup is written as codes, and puts one reset behind it for each pass.  So what is
sent to the terminal is a row of items, of which only the characters come from the
author: the characters of that text are those of the source, line ends, and the few
characters that codes are written with.

## Main definitions

* `isCodeText` — the characters that codes are written with.
* `sentItems` — the items that a compile sends to the terminal.

## Main results

* `mem_lower` — the characters of the text that is rendered.
* `output_eq_sentItems` — the output of a compile, as items.
* `char_notMem_sentItems` — no character is sent that neither the source nor a code
  has.
-/

namespace ChatTint

/-! ### The characters that codes are written with -/

/-- Whether codes are written with a character: the section sign, the mark of hex codes,
and the characters that make a code. -/
def isCodeText (c : Char) : Bool := c == sectionSign || c == 'x' || isCodeChar c

theorem isCodeText_of_isCodeChar {c : Char} (h : isCodeChar c = true) : isCodeText c = true := by
  rw [isCodeText, h, Bool.or_true]

theorem isCodeText_of_mem_text {item : Item} (hmark : item.IsMark) {c : Char}
    (h : c ∈ item.text) : isCodeText c = true := by
  cases item with
  | hex color =>
    -- the section sign and the mark, and then each digit behind a section sign
    rcases List.mem_cons.mp h with rfl | h
    · decide
    rcases List.mem_cons.mp h with rfl | h
    · decide
    obtain ⟨d, hd, hc⟩ := List.mem_flatMap.mp h
    rcases List.mem_cons.mp hc with rfl | hc
    · decide
    · rw [List.mem_singleton.mp hc]
      exact isCodeText_of_isCodeChar
        (isCodeChar_of_isHexDigit (Rgb.isHexDigit_of_mem_digits hd))
  | code k =>
    rcases List.mem_cons.mp h with rfl | h
    · decide
    · rw [List.mem_singleton.mp h]
      exact isCodeText_of_isCodeChar (isCodeChar_symbol k)
  | char d => exact absurd hmark (Option.some_ne_none d)

theorem isCodeText_of_mem_switchStyle {depth : Depth} {current next : Style} {c : Char}
    (h : c ∈ switchStyle depth current next) : isCodeText c = true := by
  rw [← text_switchItems] at h
  obtain ⟨item, hitem, hc⟩ := List.mem_flatMap.mp h
  exact isCodeText_of_mem_text (isMark_switchItems depth current next item hitem) hc

/-! ### The characters of the rendered text -/

/-- The characters that are written for spans are theirs, or make codes. -/
theorem mem_spansToCodes {depth : Depth} {current : Style} {spans : List Span} {c : Char}
    (h : c ∈ spansToCodes depth current spans) :
    (∃ span ∈ spans, c ∈ span.text) ∨ isCodeText c = true := by
  induction spans generalizing current with
  | nil => exact absurd h List.not_mem_nil
  | cons span spans ih =>
    rw [spansToCodes, List.mem_append, List.mem_append] at h
    rcases h with (h | h) | h
    · exact Or.inr (isCodeText_of_mem_switchStyle h)
    · exact Or.inl ⟨span, List.mem_cons_self, h⟩
    · rcases ih h with ⟨s, hs, hc⟩ | hcode
      · exact Or.inl ⟨s, List.mem_cons_of_mem span hs, hc⟩
      · exact Or.inr hcode

/-- **The characters of a text with its markup written as codes** are those of the source,
line ends, and those that make codes. -/
theorem mem_lower {depth : Depth} {text : List Char} {c : Char}
    (h : c ∈ (lower depth text).text) : c ∈ text ∨ c = '\n' ∨ isCodeText c = true := by
  cases hparse : parse text with
  | error e =>
    rw [lower_of_rejected hparse] at h
    exact Or.inl h
  | ok doc =>
    rw [lower_of_parse hparse] at h
    rcases mem_spansToCodes h with ⟨span, hspan, hc⟩ | hcode
    · have hplain : c ∈ doc.plainText := List.mem_flatMap.mpr ⟨span, hspan, hc⟩
      exact (mem_plainText_of_parse hparse hplain).imp_right Or.inl
    · exact Or.inr (Or.inr hcode)

/-- The characters among the items of a text are characters of the text. -/
theorem mem_of_char_mem_items {s : List Char} {c : Char} (h : Item.char c ∈ items s) : c ∈ s := by
  fun_induction items s with
  | case1 => exact absurd h List.not_mem_nil
  | case2 d s color rest hread ih =>
    -- what is read behind a hex code is the end of the text
    obtain ⟨x, ds, -, -, -, hs⟩ := HexCode.read?_eq_some hread
    rcases List.mem_cons.mp h with h | h
    · exact absurd h (by simp)
    · rw [hs]
      exact List.mem_cons_of_mem _ (List.mem_cons_of_mem x (List.mem_append_right _ (ih h)))
  | case3 d hread =>
    rw [List.mem_singleton, Item.char.injEq] at h
    rw [h]
    exact List.mem_singleton_self d
  | case4 d e rest hread hcode ih =>
    rcases List.mem_cons.mp h with h | h
    · exact absurd h (by simp)
    · exact List.mem_cons_of_mem d (List.mem_cons_of_mem e (ih h))
  | case5 d e rest hread hcode ih =>
    rcases List.mem_cons.mp h with h | h
    · rw [Item.char.injEq] at h
      rw [h]
      exact List.mem_cons_self
    · exact List.mem_cons_of_mem d (ih h)

/-! ### What is sent -/

section Sent

variable (depth : Depth) (maxPasses : Nat) (text : List Char)

/-- The items that a compile sends to the terminal: those of the text with its markup
written as codes, and one reset for each pass. -/
def sentItems : List Item :=
  items (lower depth text).text ++
    List.replicate (compile depth maxPasses text).passes (.code .reset)

/-- **The output of a compile is what its items are sent as.** -/
theorem output_eq_sentItems :
    (compile depth maxPasses text).output =
      (sentItems depth maxPasses text).flatMap Item.escape := by
  have hresets : (List.replicate (compile depth maxPasses text).passes
      (Item.code .reset)).flatMap Item.escape =
        (List.replicate (compile depth maxPasses text).passes resetSequence).flatten := by
    rw [List.flatMap_def, List.map_replicate]
    rfl
  rw [Compilation.output, text_compile, render_eq_items, sentItems, List.flatMap_append, hresets]

/-- The resets at the end show nothing. -/
theorem visible_sentItems :
    visible (sentItems depth maxPasses text) = visible (items (lower depth text).text) := by
  have hresets : ∀ n, visible (List.replicate n (Item.code .reset)) = [] := by
    intro n
    rw [visible, List.filterMap_eq_nil_iff]
    intro item hitem
    rw [List.eq_of_mem_replicate hitem]
    rfl
  have happend : visible (sentItems depth maxPasses text) =
      visible (items (lower depth text).text) ++ visible (List.replicate _ _) :=
    List.filterMap_append
  rw [happend, hresets, List.append_nil]

/-- The resets at the end set no colour. -/
theorem hex_mem_sentItems {color : Rgb} :
    Item.hex color ∈ sentItems depth maxPasses text ↔
      Item.hex color ∈ items (lower depth text).text := by
  rw [sentItems, List.mem_append]
  refine ⟨fun h => h.resolve_right fun h => ?_, Or.inl⟩
  exact absurd (List.eq_of_mem_replicate h) (by simp)

variable {text}

/-- A character that neither the source nor a code has is not sent. -/
theorem char_notMem_sentItems {c : Char} (htext : c ∉ text) (hnewline : c ≠ '\n')
    (hcode : isCodeText c = false) : Item.char c ∉ sentItems depth maxPasses text := by
  intro h
  rcases List.mem_append.mp h with h | h
  · rcases mem_lower (mem_of_char_mem_items h) with h | h | h
    · exact htext h
    · exact hnewline h
    · rw [hcode] at h
      exact absurd h Bool.false_ne_true
  · exact absurd (List.eq_of_mem_replicate h) (by simp)

theorem escapeChar_notMem_sentItems (hescape : escapeChar ∉ text) :
    Item.char escapeChar ∉ sentItems depth maxPasses text :=
  char_notMem_sentItems depth maxPasses hescape (by decide) (by decide)

end Sent

end ChatTint
