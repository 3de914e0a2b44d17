import ChatTint.Proofs.Compile.Lowering
import ChatTint.Proofs.Terminal.Strip

/-!
# Stripped output is the visible text

Escape sequences can be taken out of compiled text again.  What is left is the text
with its markup written as codes, from which a scan drops every code: neither is a
piece of a sequence left over, nor is a character lost to a sequence in front of it.

## Main definitions

* `eraseCodes` — a text without its codes.

## Main results

* `eraseCodes_eq_visible` — the scan leaves the characters among the items.
* `stripEscapes_compile` — what is left of compiled text.
-/

namespace ChatTint

/-! ### A text without its codes -/

/-- The text without its codes.  At each place a hex code is dropped, or else a legacy
code, or else one character is kept. -/
def eraseCodes : List Char → List Char
  | [] => []
  | c :: s =>
    if (HexCode.read? (c :: s)).isSome then eraseCodes (s.drop (HexCode.size - 1))
    else if c = sectionSign ∧ s.head?.any isCodeChar then eraseCodes s.tail
    else c :: eraseCodes s
termination_by s => s.length
decreasing_by
  · simp only [List.length_drop, List.length_cons]
    omega
  · simp only [List.length_tail, List.length_cons]
    omega
  · simp

/-- **The scan leaves the characters among the items of a text.** -/
theorem eraseCodes_eq_visible (s : List Char) : eraseCodes s = visible (items s) := by
  fun_induction eraseCodes s with
  | case1 =>
    rw [items_nil]
    rfl
  | case2 c s h ih =>
    -- the first character is gone already, and with thirteen more all of the hex code
    obtain ⟨⟨color, rest⟩, hread⟩ := Option.isSome_iff_exists.mp h
    have hrest : s.drop (HexCode.size - 1) = rest := HexCode.drop_of_read? hread
    rw [ih, hrest, items_hex hread]
    rfl
  | case3 c s h hcode ih =>
    obtain ⟨rfl, hd⟩ := hcode
    cases s with
    | nil => exact absurd hd Bool.false_ne_true
    | cons d s =>
      rw [ih, items_code hd]
      rfl
  | case4 c s h hcode ih =>
    have hread : HexCode.read? (c :: s) = none := Option.not_isSome_iff_eq_none.mp h
    have hplain : c = sectionSign → ∀ d ∈ s.head?, isCodeChar d = false := by
      intro hc d hd
      refine Bool.eq_false_iff.mpr fun hd' => hcode ⟨hc, ?_⟩
      rw [Option.mem_def.mp hd]
      exact hd'
    rw [ih, items_char hread hplain]
    rfl

/-! ### Stripped output -/

theorem mem_visible {items : List Item} {c : Char} : c ∈ visible items ↔ Item.char c ∈ items := by
  rw [visible, List.mem_filterMap]
  refine ⟨?_, fun h => ⟨_, h, rfl⟩⟩
  rintro ⟨item, hitem, hc⟩
  cases item with
  | char d => rwa [Option.some.inj hc] at hitem
  | hex color => exact absurd hc.symm (Option.some_ne_none c)
  | code k => exact absurd hc.symm (Option.some_ne_none c)

/-- **What is left of compiled text.**  If the source holds no character that starts a
sequence, then stripping its output leaves the text that was rendered, without its
codes, and no escape character. -/
theorem stripEscapes_compile (depth : Depth) (maxPasses : Nat) {text : List Char}
    (hescape : escapeChar ∉ text) (hcontrol : controlIntroducer ∉ text) :
    stripEscapes (compile depth maxPasses text).output = eraseCodes (lower depth text).text ∧
      escapeChar ∉ stripEscapes (compile depth maxPasses text).output := by
  have hsent := escapeChar_notMem_sentItems depth maxPasses hescape
  have hsent' : Item.char controlIntroducer ∉ sentItems depth maxPasses text :=
    char_notMem_sentItems depth maxPasses hcontrol (by decide) (by decide)
  have hvisible : stripEscapes (compile depth maxPasses text).output =
      visible (sentItems depth maxPasses text) := by
    rw [output_eq_sentItems, stripEscapes_items hsent hsent']
  refine ⟨?_, ?_⟩
  · rw [hvisible, visible_sentItems, eraseCodes_eq_visible]
  · rw [hvisible, mem_visible]
    exact hsent

theorem stripEscapes_compile_digits_and_brackets :
    let text := "§c[31m<#0a64FF>7;5m§<b>8</#0a64ff>(0§x§0§A§1§b§2§C9§x§1§2§l[§r".toList
    escapeChar ∉ text ∧ controlIntroducer ∉ text ∧
    (compile .full 8 text).output =
      ("\x1b[91m[31m\x1b[38;2;10;100;255m7;5m§\x1b[1m8\x1b[0m(0\x1b[38;2;10;27;44m9" ++
        "§x\x1b[34m\x1b[32m\x1b[1m[\x1b[0m\x1b[0m").toList ∧
    stripEscapes (compile .full 8 text).output = "[31m7;5m§8(09§x[".toList := by
  intro text
  have hescape : escapeChar ∉ text := by decide +kernel
  have hcontrol : controlIntroducer ∉ text := by decide +kernel
  exact ⟨hescape, hcontrol, by decide +kernel,
    (stripEscapes_compile .full 8 hescape hcontrol).1.trans (by decide +kernel)⟩

end ChatTint
