import ChatTint.Proofs.Compile.Codes

/-!
# Compiling compiled text

Compiled text may be compiled again, with other colours and another ceiling.  Its codes
are gone, so nothing is rendered anew, and what can happen depends on its tags.  Without
an opening bracket it is plain text, and one reset is added.  If the source was no
markup, neither is its compiled form: rendering touched no tag, and the resets at the
end neither close a bracket nor open one.

## Main results

* `parse_of_notMem` — a text without opening brackets is one plain span.
* `parse_output_of_rejected` — what is no markup is none when it is compiled.
* `compile_output` — what compiling compiled text does.
-/

namespace ChatTint

/-! ### Text without opening brackets -/

/-- A text without opening brackets is one plain span. -/
theorem parse_of_notMem {s : List Char} (h : '<' ∉ s) :
    parse s = .ok (Document.empty.push s .plain) := by
  rw [parse_eq_pieces, pieces_of_notMem h, Parser.readAll_chars]
  rfl

/-- Plain text is written without codes. -/
theorem toCodes_push_plain (depth : Depth) (s : List Char) :
    (Document.empty.push s .plain).toCodes depth = s := by
  by_cases hs : s = []
  · rw [hs]
    rfl
  · have hpush : Document.empty.push s .plain = ⟨[⟨s, .plain⟩]⟩ := Document.push_to_none .plain hs
    rw [hpush]
    exact List.append_nil s

/-! ### Rejected text -/

/-- The resets at the end of a text add no tag. -/
theorem tagsOf_append_resets (s : List Char) (n : Nat) :
    tagsOf (s ++ (List.replicate n resetSequence).flatten) = tagsOf s := by
  apply tagsOf_append_right
  intro c hc
  obtain ⟨hopen, hclose, -⟩ := (inert_escape .reset).plain c (mem_resetSequence_of_mem hc)
  exact ⟨hopen, hclose⟩

/-- **What is no markup is none when it is compiled**, for the same reason. -/
theorem parse_output_of_rejected {text : List Char} {e : MarkupError}
    (h : parse text = .error e) (depth : Depth) (maxPasses : Nat) :
    parse (compile depth maxPasses text).output = .error e := by
  rw [parse_eq_error_iff, Compilation.output, tagsOf_append_resets, text_compile,
    lower_of_rejected h, tagsOf_render, ← parse_eq_error_iff]
  exact h

/-- The number of passes over a rejected text. -/
theorem passes_of_rejected {text : List Char} {e : MarkupError} (h : parse text = .error e)
    (depth : Depth) (maxPasses : Nat) :
    (compile depth maxPasses text).passes = min 2 (max 1 maxPasses) := by
  rw [compile_of_rejected h]

/-! ### The result -/

/-- **Compiling compiled text** with any colours and any ceiling.  If it holds no opening
bracket, one pass adds one reset.  If its source was no markup, it is rejected for the
same reason, and each pass adds one reset. -/
theorem compile_output (depth depth' : Depth) (maxPasses maxPasses' : Nat) (text : List Char) :
    let first := (compile depth maxPasses text).output
    ('<' ∉ first →
      (compile depth' maxPasses' first).passes = 1 ∧
      (compile depth' maxPasses' first).output = first ++ resetSequence) ∧
    ∀ e, parse text = .error e →
      parse first = .error e ∧
      (compile depth' maxPasses' first).passes = min 2 (max 1 maxPasses') ∧
      (compile depth' maxPasses' first).output =
        first ++ (List.replicate (min 2 (max 1 maxPasses')) resetSequence).flatten := by
  intro first
  have hrender : render first = first := render_output depth maxPasses text
  constructor
  · intro hopen
    have hparse := parse_of_notMem hopen
    constructor
    · rw [compile_of_parse hparse]
    · rw [output_of_parse hparse, toCodes_push_plain, hrender]
  · intro e h
    have hagain : parse first = .error e := parse_output_of_rejected h depth maxPasses
    have hpasses := passes_of_rejected hagain depth' maxPasses'
    refine ⟨hagain, hpasses, ?_⟩
    rw [Compilation.output, text_compile, lower_of_rejected hagain, hrender, hpasses]

theorem compile_output_again :
    let first := (compile .full 8 "§c1<b>2</b>§x§0§0§f§f§0§0>\\§".toList).output
    let rejected := (compile .palette 1 "§4</b><#".toList).output
    ('<' ∉ first ∧
      first = "\x1b[91m1\x1b[1m2\x1b[0m\x1b[38;2;0;255;0m>\\§\x1b[0m".toList ∧
      (compile .palette 0 first).output =
        "\x1b[91m1\x1b[1m2\x1b[0m\x1b[38;2;0;255;0m>\\§\x1b[0m\x1b[0m".toList) ∧
    parse "§4</b><#".toList = .error (.unmatchedClose "b".toList) ∧
    parse rejected = .error (.unmatchedClose "b".toList) ∧
    (compile .full 7 rejected).output = "\x1b[31m</b><#\x1b[0m\x1b[0m\x1b[0m".toList := by
  intro first rejected
  have hfirst : first = "\x1b[91m1\x1b[1m2\x1b[0m\x1b[38;2;0;255;0m>\\§\x1b[0m".toList := by
    decide +kernel
  have hopen : '<' ∉ first := by
    rw [hfirst]
    decide
  have hreject : parse "§4</b><#".toList = .error (.unmatchedClose "b".toList) := by
    decide +kernel
  obtain ⟨-, hreset⟩ := (compile_output .full .palette 8 0 _).1 hopen
  obtain ⟨hagain, -, hresets⟩ := (compile_output .palette .full 1 7 "§4</b><#".toList).2 _ hreject
  exact ⟨⟨hopen, hfirst, hreset.trans (by decide +kernel)⟩, hreject, hagain,
    hresets.trans (by decide +kernel)⟩

end ChatTint
