import ChatTint.Proofs.Compile.Passes

/-!
# No code survives

Compiled text holds neither a legacy code nor a hex code, whether its source was markup
or not.  Rendering leaves none, and the resets behind a rendered text bring none about:
they hold no section sign, and a section sign at the end of the text meets an escape
character.  A text without legacy codes holds no hex code either, as the digits of one
are legacy codes.

## Main results

* `hasCode_output` — no legacy code is left in compiled text.
* `render_output` — compiled text is rendered as it is.
* `no_code_survives` — compiled text and the two steps of rendering, as to codes.
-/

namespace ChatTint

/-- The characters of some resets are those of one. -/
theorem mem_resetSequence_of_mem {n : Nat} {c : Char}
    (h : c ∈ (List.replicate n resetSequence).flatten) : c ∈ resetSequence := by
  obtain ⟨reset, hreset, hmem⟩ := List.mem_flatten.mp h
  rw [List.eq_of_mem_replicate hreset] at hmem
  exact hmem

/-- Resets behind a text bring no code about. -/
theorem hasCode_append_resets (s : List Char) (n : Nat) :
    hasCode (s ++ (List.replicate n resetSequence).flatten) = hasCode s := by
  have hsection : sectionSign ∉ (List.replicate n resetSequence).flatten := by
    intro h
    exact notMem_escape .reset (by decide) (mem_resetSequence_of_mem h)
  have hnone : hasCode (List.replicate n resetSequence).flatten = false := by
    have happend := hasCode_append hsection []
    rw [List.append_nil] at happend
    exact happend
  have hhead : ∀ d ∈ (List.replicate n resetSequence).flatten.head?, isCodeChar d = false := by
    intro d hd
    cases n with
    | zero => exact absurd hd (by simp)
    | succ n =>
      obtain rfl : escapeChar = d := Option.some.inj hd
      exact not_isCodeChar_escapeChar
  rw [hasCode_append_of_head hhead, hnone, Bool.or_false]

/-- **No legacy code is left in compiled text.** -/
theorem hasCode_output (depth : Depth) (maxPasses : Nat) (text : List Char) :
    hasCode (compile depth maxPasses text).output = false := by
  rw [Compilation.output, text_compile, hasCode_append_resets]
  exact hasCode_render _

/-- Compiled text is rendered as it is. -/
theorem render_output (depth : Depth) (maxPasses : Nat) (text : List Char) :
    render (compile depth maxPasses text).output = (compile depth maxPasses text).output :=
  render_of_not_hasCode (hasCode_output depth maxPasses text)

theorem hasCode_iff_renderCodes_ne (s : List Char) : hasCode s = true ↔ renderCodes s ≠ s := by
  constructor
  · intro h hself
    -- what is left as it is holds no code, as nothing does behind the step
    have hnone := hasCode_renderCodes s
    rw [hself, h] at hnone
    exact Bool.false_ne_true hnone.symm
  · intro h
    by_contra hcode
    exact h (renderCodes_of_not_hasCode (Bool.eq_false_iff.mpr hcode))

/-- **No code survives.**  Compiled text holds neither a legacy code nor a hex code.  The
two steps of rendering each leave none of their own kind and change nothing when they
are taken again, and a text holds a legacy code if and only if its step changes it. -/
theorem no_code_survives :
    (∀ (depth : Depth) (maxPasses : Nat) (text : List Char),
      hasCode (compile depth maxPasses text).output = false ∧
      ¬ HoldsHexCode (compile depth maxPasses text).output) ∧
    ∀ s : List Char,
      (hasCode s = true ↔ renderCodes s ≠ s) ∧
      hasCode (renderCodes s) = false ∧
      ¬ HoldsHexCode (renderHexCodes s) ∧
      renderCodes (renderCodes s) = renderCodes s ∧
      renderHexCodes (renderHexCodes s) = renderHexCodes s := by
  constructor
  · intro depth maxPasses text
    have hcode := hasCode_output depth maxPasses text
    exact ⟨hcode, not_holdsHexCode_of_not_hasCode hcode⟩
  · intro s
    refine ⟨hasCode_iff_renderCodes_ne s, hasCode_renderCodes s, ?_, ?_, ?_⟩
    · exact not_holdsHexCode_renderHexCodes s
    · exact renderCodes_of_not_hasCode (hasCode_renderCodes s)
    · exact renderHexCodes_of_not_holdsHexCode (not_holdsHexCode_renderHexCodes s)

/-- Doubled section signs, and the mark of a hex code in front of another one. -/
example : (compile .full 8 "§§x§x§0§0§f§f§0§0§§c§<red>x".toList).output =
    "§§x\x1b[38;2;0;255;0m§\x1b[91m§\x1b[91mx\x1b[0m".toList := by decide +kernel

end ChatTint
