import ChatTint.Proofs.Command.Operations
import Mathlib.Data.List.Induction
import Mathlib.Tactic.ByContra

/-!
# The first failure ends a run

The bounds of the output and the input say of each operation of a run whether it fails
where it stands.  Operations that do not fail leave the output as the bytes and the
deliveries so far tell.  So a run that fails has done what the operations before the
first failure do, and of a write that fails so much as there is room for.

## Main definitions

* `Limits`, `Operation.failure?` — the bounds of an output, and why an operation
  fails behind others.
* `FirstFailure` — the first operation that fails.
* `Limits.sinkAfter` — the output behind operations that did not fail.

## Main results

* `attempt_of_failure?_none`, `attempt_of_failure?_some` — what one operation leaves
  behind.
* `performAll_of_succeed`, `performAll_of_firstFailure` — what operations leave behind.
* `run_stops_at_first_failure` — how a run ends, and what it has written.
-/

namespace ChatTint

/-! ### Bounds and failures -/

/-- The bounds of an output. -/
structure Limits where
  /-- How many bytes it takes, if that is bounded. -/
  room : Option Nat := none
  /-- How often it can be flushed, if that is bounded. -/
  flushes : Option Nat := none

/-- An output with bounds to which nothing was written. -/
def Limits.sink (limits : Limits) : Sink := { room := limits.room, flushes := limits.flushes }

namespace Operation

/-- Why an operation fails behind others that did not, if it does. -/
def failure? (limits : Limits) (before : List Operation) : Operation → Option Cause
  | read line => if (decodeUtf8? line).isSome then none else some .notUtf8
  | readEnd broken => if broken then some .streamBroke else none
  | write bytes =>
    if limits.room.all fun room => (writtenBy before).length + bytes.length ≤ room then none
    else some .sinkFull
  | flush =>
    if limits.flushes.all fun flushes => before.count flush < flushes then none
    else some .flushRefused

/-- What the output still takes of an operation that fails. -/
def kept (limits : Limits) (before : List Operation) : Operation → List UInt8
  | write bytes => bytes.take (limits.room.getD 0 - (writtenBy before).length)
  | _ => []

end Operation

/-- No operation fails. -/
def Succeed (limits : Limits) (operations : List Operation) : Prop :=
  ∀ before op after, operations = before ++ op :: after → op.failure? limits before = none

/-- An operation fails, and none before it does. -/
structure FirstFailure (limits : Limits) (operations before : List Operation) (op : Operation)
    (after : List Operation) (cause : Cause) : Prop where
  split : operations = before ++ op :: after
  succeed : Succeed limits before
  fails : op.failure? limits before = some cause

/-! ### What operations leave behind -/

/-- The sink behind operations that did not fail. -/
def Limits.sinkAfter (limits : Limits) (before : List Operation) : Sink where
  written := writtenBy before
  room := limits.room.map (· - (writtenBy before).length)
  flushes := limits.flushes.map (· - before.count .flush)

theorem Limits.sinkAfter_nil (limits : Limits) : limits.sinkAfter [] = limits.sink := by
  obtain ⟨room, flushes⟩ := limits
  cases room <;> cases flushes <;> rfl

/-- What operations write has room in the output. -/
def Limits.Fit (limits : Limits) (operations : List Operation) : Prop :=
  ∀ room ∈ limits.room, (writtenBy operations).length ≤ room

section Step

variable {limits : Limits} {before : List Operation}

/-- An operation that neither writes nor delivers leaves no trace. -/
theorem sinkAfter_of_silent {op : Operation} (hbytes : op.bytes = []) (hflush : op ≠ .flush) :
    limits.sinkAfter (before ++ [op]) = limits.sinkAfter before := by
  have hcount : (before ++ [op]).count .flush = before.count .flush := by
    rw [List.count_append, List.count_singleton, if_neg (by simpa using hflush), Nat.add_zero]
  have hwritten : writtenBy (before ++ [op]) = writtenBy before := by
    rw [writtenBy_concat, hbytes, List.append_nil]
  rw [Limits.sinkAfter, hcount, hwritten, Limits.sinkAfter]

theorem fit_of_silent {op : Operation} (hfit : limits.Fit before) (hbytes : op.bytes = []) :
    limits.Fit (before ++ [op]) := by
  intro room hroom
  rw [writtenBy_concat, hbytes, List.append_nil]
  exact hfit room hroom

theorem attempt_write {bytes : List UInt8}
    (h : (Operation.write bytes).failure? limits before = none) :
    (limits.sinkAfter before).write bytes = .ok (limits.sinkAfter (before ++ [.write bytes])) ∧
      limits.Fit (before ++ [.write bytes]) := by
  have hwritten : writtenBy (before ++ [.write bytes]) = writtenBy before ++ bytes :=
    writtenBy_concat before _
  have hcount : (before ++ [Operation.write bytes]).count .flush = before.count .flush := by
    rw [List.count_append, List.count_singleton, if_neg (by simp), Nat.add_zero]
  obtain ⟨room, flushes⟩ := limits
  cases room with
  | none =>
    refine ⟨?_, fun room hroom => absurd hroom (by simp)⟩
    simp only [Limits.sinkAfter, Sink.write, Option.map_none, hwritten, hcount]
  | some room =>
    have hroom : (writtenBy before).length + bytes.length ≤ room := by
      by_contra hfull
      simp [Operation.failure?, hfull] at h
    -- the sink counts what is left of its room, and `failure?` what was written
    have hleft : bytes.length ≤ room - (writtenBy before).length := by omega
    refine ⟨?_, ?_⟩
    · simp only [Limits.sinkAfter, Sink.write, Option.map_some, hwritten, hcount, if_pos hleft,
        List.length_append, Nat.sub_sub]
    · intro bound hbound
      obtain rfl := Option.some.inj hbound
      rw [hwritten, List.length_append]
      exact hroom

theorem attempt_flush (h : Operation.flush.failure? limits before = none) :
    (limits.sinkAfter before).flush = .ok (limits.sinkAfter (before ++ [.flush])) := by
  have hwritten : writtenBy (before ++ [.flush]) = writtenBy before := by
    rw [writtenBy_concat]
    exact List.append_nil _
  have hcount : (before ++ [Operation.flush]).count .flush = before.count .flush + 1 := by
    rw [List.count_append, List.count_singleton, if_pos (by simp)]
  obtain ⟨room, flushes⟩ := limits
  cases flushes with
  | none => simp only [Limits.sinkAfter, Sink.flush, Option.map_none, hwritten]
  | some flushes =>
    have hleft : before.count .flush < flushes := by
      by_contra hspent
      simp [Operation.failure?, hspent] at h
    obtain ⟨n, hn⟩ : ∃ n, flushes - before.count .flush = n + 1 :=
      ⟨flushes - before.count .flush - 1, by omega⟩
    have hnext : flushes - (before.count .flush + 1) = n := by omega
    simp only [Limits.sinkAfter, Sink.flush, Option.map_some, hwritten, hcount, hn, hnext]

/-- **An operation that does not fail** leaves the sink as it is behind it. -/
theorem attempt_of_failure?_none {op : Operation} (hfit : limits.Fit before)
    (h : op.failure? limits before = none) :
    op.attempt (limits.sinkAfter before) = .ok (limits.sinkAfter (before ++ [op])) ∧
      limits.Fit (before ++ [op]) := by
  cases op with
  | read line =>
    refine ⟨?_, fit_of_silent hfit rfl⟩
    have hline : (decodeUtf8? line).isSome = true := by
      by_contra hline
      simp [Operation.failure?, hline] at h
    rw [sinkAfter_of_silent rfl (by simp), Operation.attempt, if_pos hline]
  | readEnd broken =>
    refine ⟨?_, fit_of_silent hfit rfl⟩
    have hend : broken = false := by
      by_contra hend
      simp [Operation.failure?, hend] at h
    rw [sinkAfter_of_silent rfl (by simp), Operation.attempt, hend, if_neg Bool.false_ne_true]
  | write bytes => exact attempt_write h
  | flush => exact ⟨attempt_flush h, fit_of_silent hfit rfl⟩

/-- **An operation that fails** leaves what the output still takes of it. -/
theorem attempt_of_failure?_some {op : Operation} {cause : Cause} (hfit : limits.Fit before)
    (h : op.failure? limits before = some cause) :
    ∃ sink, op.attempt (limits.sinkAfter before) = .error (cause, sink) ∧
      sink.written = writtenBy before ++ op.kept limits before := by
  cases op with
  | read line =>
    by_cases hline : (decodeUtf8? line).isSome = true
    · simp [Operation.failure?, hline] at h
    · obtain rfl : .notUtf8 = cause := by simpa [Operation.failure?, hline] using h
      exact ⟨_, if_neg hline, (List.append_nil _).symm⟩
  | readEnd broken =>
    cases broken with
    | false => simp [Operation.failure?] at h
    | true =>
      obtain rfl : .streamBroke = cause := by simpa [Operation.failure?] using h
      exact ⟨_, rfl, (List.append_nil _).symm⟩
  | write bytes =>
    obtain ⟨room, flushes⟩ := limits
    cases room with
    | none => simp [Operation.failure?] at h
    | some room =>
      by_cases hroom : (writtenBy before).length + bytes.length ≤ room
      · simp [Operation.failure?, hroom] at h
      · obtain rfl : .sinkFull = cause := by simpa [Operation.failure?, hroom] using h
        have hbefore : (writtenBy before).length ≤ room := hfit room rfl
        have hleft : ¬ bytes.length ≤ room - (writtenBy before).length := by omega
        exact ⟨_, if_neg hleft, rfl⟩
  | flush =>
    obtain ⟨room, flushes⟩ := limits
    cases flushes with
    | none => simp [Operation.failure?] at h
    | some flushes =>
      by_cases hleft : before.count .flush < flushes
      · simp [Operation.failure?, hleft] at h
      · obtain rfl : .flushRefused = cause := by simpa [Operation.failure?, hleft] using h
        have hspent : flushes - before.count .flush = 0 := by omega
        refine ⟨Limits.sinkAfter ⟨room, some flushes⟩ before, ?_, (List.append_nil _).symm⟩
        simp only [Operation.attempt, Limits.sinkAfter, Sink.flush, Option.map_some, hspent]

theorem perform_of_failure?_none {op : Operation} (hfit : limits.Fit before)
    (h : op.failure? limits before = none) :
    op.perform (limits.sinkAfter before) = .ok (limits.sinkAfter (before ++ [op])) := by
  rw [Operation.perform, (attempt_of_failure?_none hfit h).1]
  rfl

/-- A failure says what was being done. -/
theorem perform_of_failure?_some {op : Operation} {cause : Cause} (hfit : limits.Fit before)
    (h : op.failure? limits before = some cause) :
    ∃ sink, op.perform (limits.sinkAfter before) = .error (⟨op.context, cause⟩, sink) ∧
      sink.written = writtenBy before ++ op.kept limits before := by
  obtain ⟨sink, hattempt, hwritten⟩ := attempt_of_failure?_some hfit h
  refine ⟨sink, ?_, hwritten⟩
  rw [Operation.perform, hattempt]
  rfl

end Step

/-! ### The first failure -/

section Run

variable {limits : Limits} {operations : List Operation}

theorem succeed_nil (limits : Limits) : Succeed limits [] := by
  intro before op after h
  simp at h

/-- A last operation joins those before it. -/
theorem succeed_concat_iff {op : Operation} :
    Succeed limits (operations ++ [op]) ↔
      Succeed limits operations ∧ op.failure? limits operations = none := by
  constructor
  · intro h
    refine ⟨fun before op' after hsplit => ?_, h operations op [] rfl⟩
    exact h before op' (after ++ [op]) (by rw [hsplit, List.append_assoc, List.cons_append])
  · rintro ⟨hall, hlast⟩ before op' after hsplit
    rcases List.eq_nil_or_concat after with rfl | ⟨after, last, rfl⟩
    · obtain ⟨rfl, hop⟩ := List.append_inj' hsplit rfl
      obtain rfl := List.singleton_inj.mp hop
      exact hlast
    · rw [List.concat_eq_append, ← List.cons_append, ← List.append_assoc] at hsplit
      exact hall before op' after (List.append_inj' hsplit rfl).1

/-- No operation fails, or there is a first one that does. -/
theorem succeed_or_firstFailure (limits : Limits) (operations : List Operation) :
    Succeed limits operations ∨
      ∃ before op after cause, FirstFailure limits operations before op after cause := by
  induction operations using List.reverseRecOn with
  | nil => exact Or.inl (succeed_nil limits)
  | append_singleton operations op ih =>
    rcases ih with hall | ⟨before, first, after, cause, hfirst⟩
    · cases hop : op.failure? limits operations with
      | none => exact Or.inl (succeed_concat_iff.mpr ⟨hall, hop⟩)
      | some cause => exact Or.inr ⟨operations, op, [], cause, rfl, hall, hop⟩
    · refine Or.inr ⟨before, first, after ++ [op], cause, ?_, hfirst.succeed, hfirst.fails⟩
      rw [hfirst.split, List.append_assoc, List.cons_append]

/-- **Operations that do not fail** are all performed. -/
theorem performAll_of_succeed (h : Succeed limits operations) :
    limits.sink.performAll operations = .ok (limits.sinkAfter operations) ∧
      limits.Fit operations := by
  induction operations using List.reverseRecOn with
  | nil =>
    rw [Limits.sinkAfter_nil]
    exact ⟨rfl, fun _ _ => Nat.zero_le _⟩
  | append_singleton operations op ih =>
    obtain ⟨hall, hop⟩ := succeed_concat_iff.mp h
    obtain ⟨hperform, hfit⟩ := ih hall
    have hlast := perform_of_failure?_none hfit hop
    refine ⟨?_, (attempt_of_failure?_none hfit hop).2⟩
    rw [performAll_append, hperform]
    show (op.perform (limits.sinkAfter operations)).bind .ok = _
    rw [hlast]
    rfl

/-- **Operations of which one fails** are performed up to the first that does. -/
theorem performAll_of_firstFailure {before after : List Operation} {op : Operation}
    {cause : Cause} (h : FirstFailure limits operations before op after cause) :
    ∃ sink, limits.sink.performAll operations = .error (⟨op.context, cause⟩, sink) ∧
      sink.written = writtenBy before ++ op.kept limits before := by
  obtain ⟨hperform, hfit⟩ := performAll_of_succeed h.succeed
  obtain ⟨sink, hop, hwritten⟩ := perform_of_failure?_some hfit h.fails
  refine ⟨sink, ?_, hwritten⟩
  rw [h.split, performAll_append, hperform]
  show ((limits.sinkAfter before).performAll (op :: after)) = _
  rw [performAll_cons, hop]
  rfl

/-- What is kept of an operation is the beginning of what it writes. -/
theorem kept_isPrefix (limits : Limits) (before : List Operation) (op : Operation) :
    op.kept limits before <+: op.bytes := by
  cases op with
  | write bytes => exact List.take_prefix _ bytes
  | _ => exact List.nil_prefix

theorem FirstFailure.kept_isPrefix_writtenBy {before after : List Operation} {op : Operation}
    {cause : Cause} (h : FirstFailure limits operations before op after cause) :
    writtenBy before ++ op.kept limits before <+: writtenBy operations := by
  have hall : writtenBy operations = writtenBy before ++ (op.bytes ++ writtenBy after) := by
    rw [h.split, writtenBy_append]
    rfl
  rw [hall]
  exact (List.prefix_append_right_inj _).mpr
    ((kept_isPrefix limits before op).trans (List.prefix_append _ _))

end Run

/-- **The first failure ends a run.**  A run that compiles performs its operations in
their order.  If none fails it succeeds and has written all.  Else it stops at the first
that does, with the cause of that failure and with what was being done, and has written
what the operations before it write, and of a write that fails so much as there is room
for.  In any case it has written a beginning of what it writes if nothing fails and no
stream breaks. -/
theorem run_stops_at_first_failure (settings : Settings) (hcheck : settings.check = false)
    (terminalColors : Bool) (source : Source) (limits : Limits) :
    let report := settings.run terminalColors source limits.sink
    let operations := settings.operations terminalColors source
    (Succeed limits operations ∧ report.outcome = .ok 0 ∧ report.output = writtenBy operations ∨
      ∃ before op after cause, FirstFailure limits operations before op after cause ∧
        report.outcome = .error ⟨op.context, cause⟩ ∧
        report.output = writtenBy before ++ op.kept limits before) ∧
    report.output <+:
      writtenBy (settings.operations terminalColors { source with broken := false }) := by
  intro report operations
  have hending : report.ending = ending (limits.sink.performAll operations) :=
    settings.ending_run terminalColors hcheck source limits.sink
  have hbroken := writtenBy_operations_prefix settings terminalColors source
  rcases succeed_or_firstFailure limits operations with hall | ⟨before, op, after, cause, hfirst⟩
  · rw [(performAll_of_succeed hall).1] at hending
    obtain ⟨houtcome, houtput⟩ := Prod.mk.inj hending
    refine ⟨Or.inl ⟨hall, houtcome, houtput⟩, ?_⟩
    rw [houtput]
    exact hbroken
  · obtain ⟨sink, hperform, hwritten⟩ := performAll_of_firstFailure hfirst
    rw [hperform] at hending
    obtain ⟨houtcome, houtput⟩ := Prod.mk.inj hending
    rw [hwritten] at houtput
    refine ⟨Or.inr ⟨before, op, after, cause, hfirst, houtcome, houtput⟩, ?_⟩
    rw [houtput]
    exact hfirst.kept_isPrefix_writtenBy.trans hbroken

theorem run_stops_inside_second_line :
    let settings : Settings := { escapes := .always }
    let source : Source :=
      { chunks := [encodeUtf8 "§ca\nb".toList, encodeUtf8 "c\r\nd".toList], broken := true }
    let limits : Limits := { room := some 14, flushes := some 5 }
    let report := settings.run false source limits.sink
    settings.check = false ∧
      (∃ before op after cause,
        FirstFailure limits (settings.operations false source) before op after cause ∧
        report.outcome = .error ⟨op.context, cause⟩ ∧
        report.output = writtenBy before ++ op.kept limits before) ∧
      report.outcome = .error ⟨"writing output", .sinkFull⟩ ∧
      report.output = encodeUtf8 "\x1b[91ma\x1b[0m\nbc\x1b".toList := by
  intro settings source limits report
  have hfull : report.outcome = .error ⟨"writing output", .sinkFull⟩ := by decide +kernel
  rcases (run_stops_at_first_failure settings rfl false source limits).1 with ⟨-, hok, -⟩ | hfirst
  · exact absurd (hfull.symm.trans hok) (by simp)
  · exact ⟨rfl, hfirst, hfull, by decide +kernel⟩

end ChatTint