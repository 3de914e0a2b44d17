import ChatTint.Compile.Basic
import ChatTint.Proofs.Legacy.Rendering
import ChatTint.Proofs.Markup.Tags

/-!
# How many passes a compile takes

A text that is markup is compiled in one pass.  One that is not is only rendered,
and rendering touches no tag: every code, and every sequence that takes its place,
is an inert piece of the text.  So the rendered text is rejected for the same
reason, and since rendered text is rendered as it is, a second pass changes
nothing and is the last.

## Main results

* `recoded_renderHexCodes`, `recoded_renderCodes` — rendering changes inert pieces only.
* `compile_of_parse`, `compile_of_rejected` — the result of a compile.
* `text_compile` — the text of every compile is that of its first pass.
* `compile_closed_form` — its passes and its output, for every text and ceiling.
* `rejection_survives_render` — rendering neither makes nor mends an error.
-/

namespace ChatTint

/-! ### Rendering changes inert pieces only -/

theorem hasForeign_of_mem {s : List Char} (h : sectionSign ∈ s) : HasForeign s :=
  ⟨sectionSign, h, by decide, by decide⟩

theorem inert_escape (r : Rendition) : Inert r.escape where
  plain := by
    intro c hc
    refine ⟨?_, ?_, ?_⟩
    · rintro rfl
      exact notMem_escape r (by decide) hc
    · rintro rfl
      exact notMem_escape r (by decide) hc
    · rintro rfl
      exact notMem_escape r (by decide) hc
  foreign := ⟨escapeChar, List.mem_cons_self, by decide, by decide⟩

theorem plain_of_isCodeChar {c : Char} (h : isCodeChar c = true) :
    c ≠ '<' ∧ c ≠ '>' ∧ c ≠ '\\' := by
  refine ⟨?_, ?_, ?_⟩
  · rintro rfl
    exact absurd h (by decide)
  · rintro rfl
    exact absurd h (by decide)
  · rintro rfl
    exact absurd h (by decide)

theorem plain_sectionSign : sectionSign ≠ '<' ∧ sectionSign ≠ '>' ∧ sectionSign ≠ '\\' := by decide

theorem inert_code {d : Char} (hd : isCodeChar d = true) : Inert [sectionSign, d] where
  plain := by
    intro c hc
    rcases List.mem_cons.mp hc with rfl | hc
    · exact plain_sectionSign
    · rw [List.mem_singleton.mp hc]
      exact plain_of_isCodeChar hd
  foreign := hasForeign_of_mem List.mem_cons_self

theorem inert_hexCode {x : Char} {ds : List Char} (hx : x = 'x' ∨ x = 'X')
    (hds : ∀ d ∈ ds, isHexDigit d = true) :
    Inert (sectionSign :: x :: HexCode.spaced ds) where
  plain := by
    intro c hc
    rcases List.mem_cons.mp hc with rfl | hc
    · exact plain_sectionSign
    rcases List.mem_cons.mp hc with rfl | hc
    · rcases hx with rfl | rfl <;> decide
    obtain ⟨d, hd, hc⟩ := List.mem_flatMap.mp hc
    rcases List.mem_cons.mp hc with rfl | hc
    · exact plain_sectionSign
    · rw [List.mem_singleton.mp hc]
      exact plain_of_isCodeChar (isCodeChar_of_isHexDigit (hds d hd))
  foreign := hasForeign_of_mem List.mem_cons_self

theorem recoded_renderHexCodes (s : List Char) : Recoded s (renderHexCodes s) := by
  fun_induction renderHexCodes s with
  | case1 => exact .nil
  | case2 c s color rest h ih =>
    obtain ⟨x, ds, hx, -, hds, hs⟩ := HexCode.read?_eq_some h
    rw [hs]
    exact .replace (inert_hexCode hx hds) (inert_escape _) ih
  | case3 c s h ih => exact .keep c ih

theorem recoded_renderCodes (s : List Char) : Recoded s (renderCodes s) := by
  fun_induction renderCodes s with
  | case1 => exact .nil
  | case2 c => exact .keep c .nil
  | case3 c d s h ih =>
    obtain ⟨rfl, hd⟩ := h
    exact .replace (inert_code hd) (inert_escape _) ih
  | case4 c d s h ih => exact .keep c ih

/-- Rendering keeps the tags of a text. -/
theorem tagsOf_render (s : List Char) : tagsOf (render s) = tagsOf s := by
  rw [render, ← (recoded_renderCodes _).tagsOf_eq, ← (recoded_renderHexCodes s).tagsOf_eq]

theorem parse_render_eq_error_iff {s : List Char} {e : MarkupError} :
    parse (render s) = .error e ↔ parse s = .error e := by
  rw [parse_eq_error_iff, parse_eq_error_iff, tagsOf_render]

/-! ### One pass after another -/

theorem lower_of_parse {text : List Char} {doc : Document} (h : parse text = .ok doc)
    (depth : Depth) : lower depth text = ⟨doc.toCodes depth, none⟩ := by
  rw [lower, h]

theorem lower_of_rejected {text : List Char} {e : MarkupError} (h : parse text = .error e)
    (depth : Depth) : lower depth text = ⟨text, some e⟩ := by
  rw [lower, h]

theorem runPass_of_parse {text : List Char} {doc : Document} (h : parse text = .ok doc)
    (depth : Depth) : runPass depth text = ⟨render (doc.toCodes depth), none⟩ := by
  rw [runPass, lower_of_parse h]

theorem runPass_of_rejected {text : List Char} {e : MarkupError} (h : parse text = .error e)
    (depth : Depth) : runPass depth text = ⟨render text, some e⟩ := by
  rw [runPass, lower_of_rejected h]

/-- What a pass reports that leaves a text as it is, being no markup. -/
def rejectionEvents (e : MarkupError) (number size : Nat) : List Event :=
  [.rejected e, .passComplete number true size]

theorem runPasses_of_parse {text : List Char} {doc : Document} (h : parse text = .ok doc)
    (depth : Depth) (further number : Nat) :
    runPasses depth further number text =
      ⟨render (doc.toCodes depth), number,
        [.passComplete number false (utf8Size (render (doc.toCodes depth)))]⟩ := by
  unfold runPasses
  rw [runPass_of_parse h]
  rfl

theorem runPasses_zero_of_rejected {text : List Char} {e : MarkupError}
    (h : parse text = .error e) (depth : Depth) (number : Nat) :
    runPasses depth 0 number text =
      ⟨render text, number,
        rejectionEvents e number (utf8Size (render text)) ++ [.ceilingReached number]⟩ := by
  rw [runPasses, runPass_of_rejected h]
  rfl

theorem runPasses_succ_of_rejected {text : List Char} {e : MarkupError}
    (h : parse text = .error e) (depth : Depth) (further number : Nat) :
    runPasses depth (further + 1) number text =
      if 1 < number ∧ render text = text then
        ⟨render text, number,
          rejectionEvents e number (utf8Size (render text)) ++ [.noProgress number]⟩
      else
        (runPasses depth further (number + 1) (render text)).withEvents
          (rejectionEvents e number (utf8Size (render text))) := by
  rw [runPasses, runPass_of_rejected h]
  rfl

/-- A second pass over a rejected text is the last one. -/
theorem runPasses_second_of_rejected {text : List Char} {e : MarkupError}
    (h : parse text = .error e) (depth : Depth) (further : Nat) :
    runPasses depth further 2 (render text) =
      ⟨render text, 2, rejectionEvents e 2 (utf8Size (render text)) ++
        [if further = 0 then .ceilingReached 2 else .noProgress 2]⟩ := by
  -- the text is rejected again and comes out as it went in
  have hagain : parse (render text) = .error e := parse_render_eq_error_iff.mpr h
  cases further with
  | zero =>
    rw [runPasses_zero_of_rejected hagain, render_render]
    rfl
  | succ further =>
    rw [runPasses_succ_of_rejected hagain, render_render, if_pos ⟨Nat.one_lt_two, rfl⟩]
    rfl

/-- A text that is markup is compiled in one pass. -/
theorem compile_of_parse {text : List Char} {doc : Document} (h : parse text = .ok doc)
    (depth : Depth) (maxPasses : Nat) :
    compile depth maxPasses text =
      ⟨render (doc.toCodes depth), 1,
        [.passComplete 1 false (utf8Size (render (doc.toCodes depth)))]⟩ :=
  runPasses_of_parse h depth _ 1

theorem output_of_parse {text : List Char} {doc : Document} (h : parse text = .ok doc)
    (depth : Depth) (maxPasses : Nat) :
    (compile depth maxPasses text).output = render (doc.toCodes depth) ++ resetSequence := by
  rw [compile_of_parse h, Compilation.output, List.replicate_one, List.flatten_singleton]

theorem compile_of_rejected_once {text : List Char} {e : MarkupError} (h : parse text = .error e)
    (depth : Depth) {maxPasses : Nat} (hmax : maxPasses ≤ 1) :
    compile depth maxPasses text =
      ⟨render text, 1, rejectionEvents e 1 (utf8Size (render text)) ++ [.ceilingReached 1]⟩ := by
  have hfurther : maxPasses - 1 = 0 := by omega
  rw [compile, hfurther, runPasses_zero_of_rejected h]

theorem compile_of_rejected_twice {text : List Char} {e : MarkupError} (h : parse text = .error e)
    (depth : Depth) {maxPasses : Nat} (hmax : 2 ≤ maxPasses) :
    compile depth maxPasses text =
      ⟨render text, 2,
        rejectionEvents e 1 (utf8Size (render text)) ++
          (rejectionEvents e 2 (utf8Size (render text)) ++
            [if maxPasses = 2 then .ceilingReached 2 else .noProgress 2])⟩ := by
  obtain ⟨further, rfl⟩ := Nat.exists_eq_add_of_le' hmax
  have hfirst : ¬ (1 < 1 ∧ render text = text) := fun hc => Nat.lt_irrefl 1 hc.1
  have hlast : further + 2 = 2 ↔ further = 0 := by omega
  rw [compile, show further + 2 - 1 = further + 1 from rfl, runPasses_succ_of_rejected h,
    if_neg hfirst, runPasses_second_of_rejected h]
  simp only [hlast]
  rfl

/-- What is reported of passes over a rejected text, each of which makes a text of the same
size. -/
def rejectedPasses (e : MarkupError) (passes size : Nat) : List Event :=
  (List.range' 1 passes).flatMap fun number => rejectionEvents e number size

/-- Why there are no more passes over a rejected text. -/
def lastEvent (maxPasses : Nat) : Event :=
  if max 1 maxPasses ≤ 2 then .ceilingReached (min 2 (max 1 maxPasses)) else .noProgress 2

/-- **The result of a compile of a text that is no markup.** -/
theorem compile_of_rejected {text : List Char} {e : MarkupError} (h : parse text = .error e)
    (depth : Depth) (maxPasses : Nat) :
    compile depth maxPasses text =
      ⟨render text, min 2 (max 1 maxPasses),
        rejectedPasses e (min 2 (max 1 maxPasses)) (utf8Size (render text)) ++
          [lastEvent maxPasses]⟩ := by
  rcases Nat.lt_or_ge maxPasses 2 with hmax | hmax
  · have hraised : max 1 maxPasses = 1 := by omega
    rw [compile_of_rejected_once h depth (Nat.le_of_lt_succ hmax), lastEvent, hraised]
    rfl
  · have hraised : max 1 maxPasses = maxPasses := by omega
    have hpasses : min 2 maxPasses = 2 := by omega
    have hlast : maxPasses ≤ 2 ↔ maxPasses = 2 := by omega
    rw [compile_of_rejected_twice h depth hmax, lastEvent, hraised, hpasses]
    simp only [hlast]
    rfl

/-- Further passes render the text of the first one. -/
theorem text_compile (depth : Depth) (maxPasses : Nat) (text : List Char) :
    (compile depth maxPasses text).text = render (lower depth text).text := by
  cases hparse : parse text with
  | ok doc => rw [compile_of_parse hparse, lower_of_parse hparse]
  | error e => rw [compile_of_rejected hparse, lower_of_rejected hparse]

/-! ### The results -/

/-- **The passes and the output of a compile, for every text and every ceiling.**  There
are never more than two passes, and what a successful pass wrote is not read as
markup again. -/
theorem compile_closed_form (depth : Depth) (maxPasses : Nat) (text : List Char) :
    (∀ doc, parse text = .ok doc →
      (compile depth maxPasses text).passes = 1 ∧
      (compile depth maxPasses text).output = render (doc.toCodes depth) ++ resetSequence) ∧
    (∀ e, parse text = .error e →
      (compile depth maxPasses text).passes = min 2 (max 1 maxPasses) ∧
      (compile depth maxPasses text).output =
        render text ++ (List.replicate (min 2 (max 1 maxPasses)) resetSequence).flatten) := by
  refine ⟨?_, ?_⟩
  · intro doc h
    refine ⟨?_, output_of_parse h depth maxPasses⟩
    rw [compile_of_parse h]
  · intro e h
    -- a ceiling below two leaves one pass, and no higher one is ever reached
    rcases Nat.lt_or_ge maxPasses 2 with hmax | hmax
    · have hpasses : min 2 (max 1 maxPasses) = 1 := by omega
      rw [compile_of_rejected_once h depth (Nat.le_of_lt_succ hmax), hpasses]
      exact ⟨rfl, rfl⟩
    · have hpasses : min 2 (max 1 maxPasses) = 2 := by omega
      rw [compile_of_rejected_twice h depth hmax, hpasses]
      exact ⟨rfl, rfl⟩

theorem compile_escaped_bracket_and_bad_color :
    (parse "\\<red>§x".toList = .ok ⟨[⟨"<red>§x".toList, .plain⟩]⟩ ∧
      (compile .full 0 "\\<red>§x".toList).passes = 1 ∧
      (compile .full 0 "\\<red>§x".toList).output = "<red>§x\x1b[0m".toList) ∧
    (parse "§c<b><#§12>x<#12>".toList = .error (.invalidColor "#12".toList) ∧
      (compile .palette 9 "§c<b><#§12>x<#12>".toList).passes = 2 ∧
      (compile .palette 9 "§c<b><#§12>x<#12>".toList).output =
        "\x1b[91m<b><#\x1b[34m2>x<#12>\x1b[0m\x1b[0m".toList) := by
  have hparse : parse "\\<red>§x".toList = .ok ⟨[⟨"<red>§x".toList, .plain⟩]⟩ := by decide +kernel
  have hreject : parse "§c<b><#§12>x<#12>".toList = .error (.invalidColor "#12".toList) := by
    decide +kernel
  obtain ⟨honce, hout⟩ := (compile_closed_form .full 0 _).1 _ hparse
  obtain ⟨htwice, hout'⟩ := (compile_closed_form .palette 9 _).2 _ hreject
  exact ⟨⟨hparse, honce, hout.trans (by decide +kernel)⟩,
    ⟨hreject, htwice, hout'.trans (by decide +kernel)⟩⟩

/-- The reason that an event gives for a rejection. -/
def Event.rejection? : Event → Option MarkupError
  | rejected e => some e
  | _ => none

/-- **Rendering neither makes nor mends an error.**  A rendered text is markup if the
text is, and else it is rejected for the same reason; so each pass of a compile
reports the reason that the first one gave. -/
theorem rejection_survives_render (text : List Char) :
    ((∃ doc, parse (render text) = .ok doc) ↔ ∃ doc, parse text = .ok doc) ∧
    ∀ e, parse text = .error e →
      parse (render text) = .error e ∧
      ∀ depth maxPasses,
        (compile depth maxPasses text).events.filterMap Event.rejection? =
          List.replicate (compile depth maxPasses text).passes e := by
  refine ⟨?_, ?_⟩
  · -- a text is markup if there is no error that it is rejected for
    have hok : ∀ s, (∃ doc, parse s = .ok doc) ↔ ∀ e, parse s ≠ .error e := by
      intro s
      cases parse s <;> simp
    rw [hok, hok]
    simp only [ne_eq, parse_render_eq_error_iff]
  · intro e h
    refine ⟨parse_render_eq_error_iff.mpr h, ?_⟩
    intro depth maxPasses
    rcases Nat.lt_or_ge maxPasses 2 with hmax | hmax
    · rw [compile_of_rejected_once h depth (Nat.le_of_lt_succ hmax)]
      rfl
    · rw [compile_of_rejected_twice h depth hmax]
      by_cases htwo : maxPasses = 2
      · rw [if_pos htwo]
        rfl
      · rw [if_neg htwo]
        rfl

theorem unmatched_close_survives_render :
    parse "§lx</§1b></b>".toList = .error (.unmatchedClose "b".toList) ∧
    parse (render "§lx</§1b></b>".toList) = .error (.unmatchedClose "b".toList) ∧
    (compile .full 3 "§lx</§1b></b>".toList).events.filterMap Event.rejection? =
      [.unmatchedClose "b".toList, .unmatchedClose "b".toList] := by
  have hreject : parse "§lx</§1b></b>".toList = .error (.unmatchedClose "b".toList) := by
    decide +kernel
  obtain ⟨hagain, hevents⟩ := (rejection_survives_render _).2 _ hreject
  exact ⟨hreject, hagain, (hevents .full 3).trans (by decide +kernel)⟩

end ChatTint
