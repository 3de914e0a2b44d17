import ChatTint.Proofs.Compile.Passes

/-!
# What a compile reports

The events of a compile are told by what the text is and by the ceiling.  Markup is reported
as one pass and nothing else.  A text that is no markup is rejected by each pass for the same
reason, and each makes a text of the same size; behind the passes stands why there are no more
of them.  A ceiling of two is reported as the ceiling, although the second pass changes nothing
either: the ceiling is looked at first.

Passes are reported with the size of their text, in bytes and without resets, so that the size
of the output is known from any of them.

## Main definitions

* `Event.heading` — the level and the words of an event.

## Main results

* `length_encodeUtf8_output` — the size of the output.
* `size_of_passComplete` — the size that a pass is reported with.
* `compile_events` — the events of every compile.
-/

namespace ChatTint

/-- The level of an event and what happened, in words. -/
def Event.heading (event : Event) : Level × String := (event.level, event.message)

/-! ### Rejected text -/

theorem heading_rejectedPasses (e : MarkupError) (passes size : Nat) :
    (rejectedPasses e passes size).map Event.heading =
      (List.replicate passes [(.debug, "markup parse failed, passing text through"),
        (.trace, "pass complete")]).flatten := by
  have hpass : ∀ number, (rejectionEvents e number size).map Event.heading =
      [(.debug, "markup parse failed, passing text through"), (.trace, "pass complete")] :=
    fun _ => rfl
  rw [rejectedPasses, List.map_flatMap, List.flatMap_def]
  simp only [hpass, List.map_const', List.length_range']

theorem heading_lastEvent (maxPasses : Nat) :
    (lastEvent maxPasses).heading =
      if max 1 maxPasses ≤ 2 then (.warn, "pass ceiling reached, giving up on markup")
      else (.debug, "retry made no progress, stopping") :=
  apply_ite Event.heading _ _ _

/-! ### Sizes -/

/-- The size of the output: a reset has four bytes. -/
theorem length_encodeUtf8_output (c : Compilation) :
    (encodeUtf8 c.output).length = utf8Size c.text + 4 * c.passes := by
  have hresets : (encodeUtf8 (List.replicate c.passes resetSequence).flatten).length =
      4 * c.passes := by
    induction c.passes with
    | zero => rfl
    | succ passes ih =>
      have hreset : (encodeUtf8 resetSequence).length = 4 := by decide +kernel
      rw [List.replicate_succ, List.flatten_cons, encodeUtf8_append, List.length_append, ih,
        hreset, Nat.mul_succ, Nat.add_comm]
  rw [Compilation.output, encodeUtf8_append, List.length_append, hresets, length_encodeUtf8]

/-- Each pass is reported with the size of the text that the last one makes. -/
theorem size_of_passComplete {depth : Depth} {maxPasses : Nat} {text : List Char}
    {number size : Nat} {retry : Bool}
    (h : .passComplete number retry size ∈ (compile depth maxPasses text).events) :
    size = utf8Size (compile depth maxPasses text).text := by
  cases hparse : parse text with
  | ok doc =>
    rw [compile_of_parse hparse] at h ⊢
    exact (Event.passComplete.inj (List.mem_singleton.mp h)).2.2
  | error e =>
    rw [compile_of_rejected hparse] at h ⊢
    rcases List.mem_append.mp h with hpass | hlast
    · obtain ⟨n, -, hpass⟩ := List.mem_flatMap.mp hpass
      rcases List.mem_cons.mp hpass with hrejected | hpass
      · exact absurd hrejected (by simp)
      · exact (Event.passComplete.inj (List.mem_singleton.mp hpass)).2.2
    · rw [List.mem_singleton, lastEvent] at hlast
      split at hlast
      · exact absurd hlast (by simp)
      · exact absurd hlast (by simp)

/-! ### The result -/

/-- **The events of a compile, for every text and every ceiling.**  Markup takes one pass,
which is reported as such.  A text that is no markup is rejected by each of its passes for
its one reason, and all passes make texts of one size; at last the ceiling is reported if it
is two at most, and else that nothing changed.  The bytes of a reported size and of the
resets, four for each pass, are the bytes of the output. -/
theorem compile_events (depth : Depth) (maxPasses : Nat) (text : List Char) :
    let compiled := compile depth maxPasses text
    let passes := min 2 (max 1 maxPasses)
    (∀ doc, parse text = .ok doc →
      compiled.passes = 1 ∧
      (∃ size, compiled.events = [.passComplete 1 false size]) ∧
      compiled.events.map Event.heading = [(.trace, "pass complete")]) ∧
    (∀ e, parse text = .error e →
      compiled.passes = passes ∧
      (∃ size, compiled.events =
        (List.range' 1 passes).flatMap
            (fun number => [.rejected e, .passComplete number true size]) ++
          [if max 1 maxPasses ≤ 2 then .ceilingReached passes else .noProgress 2]) ∧
      compiled.events.map Event.heading =
        (List.replicate passes [(.debug, "markup parse failed, passing text through"),
            (.trace, "pass complete")]).flatten ++
          [if max 1 maxPasses ≤ 2 then (.warn, "pass ceiling reached, giving up on markup")
            else (.debug, "retry made no progress, stopping")]) ∧
    ∀ number retry size, .passComplete number retry size ∈ compiled.events →
      size + 4 * compiled.passes = (encodeUtf8 compiled.output).length := by
  intro compiled passes
  refine ⟨?_, ?_, ?_⟩
  · intro doc h
    have hcompiled : compiled = _ := compile_of_parse h depth maxPasses
    rw [hcompiled]
    exact ⟨rfl, ⟨_, rfl⟩, rfl⟩
  · intro e h
    have hcompiled : compiled = _ := compile_of_rejected h depth maxPasses
    rw [hcompiled]
    refine ⟨rfl, ⟨_, rfl⟩, ?_⟩
    rw [List.map_append, heading_rejectedPasses, List.map_singleton, heading_lastEvent]
  · intro number retry size h
    rw [length_encodeUtf8_output, size_of_passComplete h]

theorem compile_events_at_and_above_ceiling :
    let text := "§cé</b>".toList
    let events (maxPasses : Nat) := (compile .palette maxPasses text).events
    parse text = .error (.unmatchedClose "b".toList) ∧
    .passComplete 2 true 11 ∈ events 2 ∧
    11 + 4 * (compile .palette 2 text).passes =
      (encodeUtf8 (compile .palette 2 text).output).length ∧
    (events 2).getLast? = some (.ceilingReached 2) ∧
    (∃ size, events 3 =
      [.rejected (.unmatchedClose "b".toList), .passComplete 1 true size,
        .rejected (.unmatchedClose "b".toList), .passComplete 2 true size, .noProgress 2]) ∧
    parse "<b>§".toList = .ok ⟨[⟨"§".toList, ⟨none, { bold := true }⟩⟩]⟩ ∧
    (∃ size, (compile .full 0 "<b>§".toList).events = [.passComplete 1 false size]) := by
  intro text events
  have hreject : parse text = .error (.unmatchedClose "b".toList) := by decide +kernel
  have hpass : .passComplete 2 true 11 ∈ events 2 := by decide +kernel
  have hparse : parse "<b>§".toList = .ok ⟨[⟨"§".toList, ⟨none, { bold := true }⟩⟩]⟩ := by
    decide +kernel
  exact ⟨hreject, hpass, (compile_events .palette 2 text).2.2 2 true 11 hpass, by decide +kernel,
    ((compile_events .palette 3 text).2.1 _ hreject).2.1, hparse,
    ((compile_events .full 0 _).1 _ hparse).2.1⟩

end ChatTint
