import ChatTint.Proofs.Command.Streaming
import Mathlib.Data.List.TakeWhile

/-!
# What a run does to its streams

What a run does to its streams is a row of operations that does not depend on the
bounds of the output: each line is read, what it compiles to is written with its line
feed, and the output is delivered; at last the end of the input is met.  A run that
compiles performs its operations one after another, up to the first that fails.

## Main definitions

* `Operation`, `Settings.operations` — the operations of a run.
* `Source.received`, `Source.breaks`, `Source.lines` — what a source gives up to its end.
* `Sink.performAll` — operations performed one after another.

## Main results

* `Settings.ending_compileLines` — a run over lines performs its operations.
* `Settings.ending_run` — so does every run that compiles.
* `writtenBy_operations_prefix` — over a stream that breaks nothing is written that
  would not be if it ended.
-/

namespace ChatTint

/-! ### Operations -/

/-- What a run does to its streams. -/
inductive Operation where
  /-- Reads a line, whose bytes have to be a text. -/
  | read (line : List UInt8)
  /-- Looks for a line behind the last one, where the stream may have broken. -/
  | readEnd (broken : Bool)
  /-- Writes bytes. -/
  | write (bytes : List UInt8)
  /-- Delivers what was written. -/
  | flush
deriving DecidableEq

/-- The bytes that an operation writes. -/
def Operation.bytes : Operation → List UInt8
  | write bytes => bytes
  | _ => []

/-- The bytes that operations write. -/
def writtenBy (operations : List Operation) : List UInt8 := operations.flatMap Operation.bytes

theorem writtenBy_append (first second : List Operation) :
    writtenBy (first ++ second) = writtenBy first ++ writtenBy second := List.flatMap_append

theorem writtenBy_concat (before : List Operation) (op : Operation) :
    writtenBy (before ++ [op]) = writtenBy before ++ op.bytes := by
  rw [writtenBy_append, writtenBy, writtenBy, List.flatMap_singleton]

namespace Operation

/-- What is being done. -/
def context : Operation → String
  | read _ => "reading standard input"
  | readEnd _ => "reading standard input"
  | write _ => "writing output"
  | flush => "flushing output"

/-- Attempts an operation.  A failure comes with the sink as it is left. -/
def attempt (sink : Sink) : Operation → Except (Cause × Sink) Sink
  | read line => if (decodeUtf8? line).isSome then .ok sink else .error (.notUtf8, sink)
  | readEnd broken => if broken then .error (.streamBroke, sink) else .ok sink
  | write bytes => sink.write bytes
  | flush => sink.flush

/-- Performs an operation.  A failure says what was being done. -/
def perform (sink : Sink) (op : Operation) : Except (Failure × Sink) Sink :=
  during op.context (op.attempt sink)

end Operation

/-! ### The operations of a run -/

namespace Source

/-- The chunks that a source receives.  An empty one is the end. -/
def received (source : Source) : List (List UInt8) := source.chunks.takeWhile (!·.isEmpty)

/-- Whether a source meets a break of its stream. -/
def breaks (source : Source) : Bool := source.broken && source.chunks.all (!·.isEmpty)

/-- The bytes of a source. -/
def bytes (source : Source) : List UInt8 := source.buffer ++ source.received.flatten

/-- The lines of a source.  A stream that breaks loses its unfinished line. -/
def lines (source : Source) : List (List UInt8) :=
  if source.breaks then byteMarks.complete source.bytes else byteMarks.lines source.bytes

/-- Chunks that are not empty are all received. -/
theorem received_of_ne_nil {source : Source} (h : ∀ chunk ∈ source.chunks, chunk ≠ []) :
    source.received = source.chunks := by
  rw [received, List.takeWhile_eq_self_iff]
  intro chunk hchunk
  simpa using h chunk hchunk

theorem breaks_of_ne_nil {source : Source} (h : ∀ chunk ∈ source.chunks, chunk ≠ []) :
    source.breaks = source.broken := by
  have hall : source.chunks.all (!·.isEmpty) = true := by
    rw [List.all_eq_true]
    intro chunk hchunk
    simpa using h chunk hchunk
  rw [breaks, hall, Bool.and_true]

section Chunks

variable (held : List UInt8) (chunks : List (List UInt8)) (broken : Bool)

theorem received_ask {chunk : List UInt8} (hchunk : chunk ≠ []) :
    received ⟨held, chunk :: chunks, broken⟩ =
      chunk :: received ⟨held ++ chunk, chunks, broken⟩ := by
  simp [received, hchunk]

theorem breaks_ask {chunk : List UInt8} (hchunk : chunk ≠ []) :
    breaks ⟨held, chunk :: chunks, broken⟩ = breaks ⟨held ++ chunk, chunks, broken⟩ := by
  have hmore : (!chunk.isEmpty) = true := by simpa using hchunk
  rw [breaks, breaks, List.all_cons, hmore, Bool.true_and]

theorem breaks_stop : breaks ⟨held, [] :: chunks, broken⟩ = false := by
  simp [breaks]

/-- A chunk that arrives changes no line. -/
theorem lines_ask {chunk : List UInt8} (hchunk : chunk ≠ []) :
    lines ⟨held, chunk :: chunks, broken⟩ = lines ⟨held ++ chunk, chunks, broken⟩ := by
  have hbytes : bytes ⟨held, chunk :: chunks, broken⟩ = bytes ⟨held ++ chunk, chunks, broken⟩ := by
    rw [bytes, bytes, received_ask held chunks broken hchunk, List.flatten_cons,
      List.append_assoc]
  rw [lines, lines, breaks_ask held chunks broken hchunk, hbytes]

/-- What stands behind an empty chunk belongs to no line. -/
theorem lines_stop : lines ⟨held, [] :: chunks, broken⟩ = lines ⟨held, [], false⟩ := by
  rw [lines, breaks_stop]
  rfl

theorem lines_line {line : List UInt8} (h : lineFeed ∉ line) :
    lines ⟨line ++ lineFeed :: held, chunks, broken⟩ =
      dropCarriageReturn line :: lines ⟨held, chunks, broken⟩ := by
  have hline : byteMarks.feed ∉ line := h
  have hbytes : bytes ⟨line ++ lineFeed :: held, chunks, broken⟩ =
      line ++ byteMarks.feed :: bytes ⟨held, chunks, broken⟩ := List.append_assoc _ _ _
  have hbreaks : breaks ⟨line ++ lineFeed :: held, chunks, broken⟩ =
      breaks ⟨held, chunks, broken⟩ := rfl
  rw [lines, lines, hbreaks, hbytes]
  split
  · exact LineMarks.complete_line hline _
  · exact LineMarks.lines_line hline _

theorem lines_last {held : List UInt8} (h : lineFeed ∉ held) :
    lines ⟨held, [], broken⟩ = if broken ∨ held = [] then [] else [held] := by
  have hheld : byteMarks.feed ∉ held := h
  cases broken with
  | true => simpa [lines, bytes, received, breaks] using LineMarks.complete_of_notMem hheld
  | false => simpa [lines, bytes, received, breaks] using LineMarks.lines_of_notMem hheld

end Chunks

end Source

namespace Settings

variable (settings : Settings) (terminalColors : Bool)

/-- The operations for a line that has been read. -/
def textOperations (text : List Char) : List Operation :=
  [.write (settings.lineOutput terminalColors text), .flush]

/-- The operations for a line of the input. -/
def lineOperations (line : List UInt8) : List Operation :=
  .read line :: (match decodeUtf8? line with
    | some text => settings.textOperations terminalColors text
    | none => [])

/-- The operations for the lines of a source. -/
def streamOperations (source : Source) : List Operation :=
  source.lines.flatMap (settings.lineOperations terminalColors) ++ [.readEnd source.breaks]

/-- The operations of a run that compiles. -/
def operations (source : Source) : List Operation :=
  match settings.text? with
  | some text => settings.textOperations terminalColors text
  | none => settings.streamOperations terminalColors source

end Settings

/-! ### A run performs its operations -/

/-- Performs operations one after another, up to the first that fails. -/
def Sink.performAll (sink : Sink) (operations : List Operation) : Except (Failure × Sink) Sink :=
  operations.foldlM Operation.perform sink

theorem performAll_cons (sink : Sink) (op : Operation) (operations : List Operation) :
    sink.performAll (op :: operations) =
      (op.perform sink).bind fun sink => sink.performAll operations := List.foldlM_cons

theorem performAll_append (sink : Sink) (first second : List Operation) :
    sink.performAll (first ++ second) =
      (sink.performAll first).bind fun sink => sink.performAll second := List.foldlM_append

/-- How a run ends that performs operations, and what it has written. -/
def ending : Except (Failure × Sink) Sink → Except Failure Nat × List UInt8
  | .ok sink => (.ok 0, sink.written)
  | .error (f, sink) => (.error f, sink.written)

/-- How a run ended, and what it had written. -/
def Report.ending (r : Report) : Except Failure Nat × List UInt8 := (r.outcome, r.output)

/-- A text and the end of its line are written like one piece. -/
theorem Sink.writeText_eq (sink : Sink) (text : List Char) :
    sink.writeText text = sink.write (encodeUtf8 text ++ [lineFeed]) := by
  rw [Sink.writeText]
  cases hroom : sink.room with
  | none => simp [Sink.write, hroom, bind, Except.bind]
  | some room =>
    by_cases htext : (encodeUtf8 text).length ≤ room
    · by_cases hend : (encodeUtf8 text).length + 1 ≤ room
      · have hrest : 1 ≤ room - (encodeUtf8 text).length := by omega
        simp [Sink.write, hroom, htext, hend, hrest, bind, Except.bind, Nat.sub_sub]
      · -- the text fills the room, and nothing is taken of the end of its line
        have hfull : room = (encodeUtf8 text).length := by omega
        subst hfull
        simp [Sink.write, hroom, bind, Except.bind]
    · have hlong : ¬ (encodeUtf8 text).length + 1 ≤ room := by omega
      have hpart : room - (encodeUtf8 text).length = 0 := by omega
      simp [Sink.write, hroom, htext, hlong, hpart, bind, Except.bind, List.take_append]

namespace Settings

variable (settings : Settings) (terminalColors : Bool)

theorem performAll_textOperations (text : List Char) (sink : Sink) :
    sink.performAll (settings.textOperations terminalColors text) =
      sink.writeLine (shown (settings.escapes.applies terminalColors) (settings.compile text)) := by
  rw [Sink.writeLine, Sink.writeText_eq, ← lineOutput_eq]
  show ((during "writing output" (sink.write (settings.lineOutput terminalColors text))).bind
    fun sink => (during "flushing output" sink.flush).bind .ok) = _
  cases sink.write (settings.lineOutput terminalColors text) with
  | error failed => rfl
  | ok sink =>
    show (during "flushing output" sink.flush).bind .ok = during "flushing output" sink.flush
    cases sink.flush <;> rfl

theorem ending_finish (result : Except (Failure × Sink) Sink) :
    (Report.finish 0 result).ending = ending result := by
  cases result <;> rfl

/-- A run that proceeds with a line performs the operations for it, and then those for
the lines behind it. -/
theorem ending_proceed (line : List UInt8) (requests : Nat) (source : Source)
    (rest : List Operation)
    (hrest : ∀ sink,
      (settings.compileLines (settings.escapes.applies terminalColors) source sink).ending =
        ending (sink.performAll rest)) (sink : Sink) :
    (settings.proceed (settings.escapes.applies terminalColors)
        (.ofBytes line requests source) sink).ending =
      ending (sink.performAll (settings.lineOperations terminalColors line ++ rest)) := by
  rw [lineOperations, List.cons_append, performAll_cons, Operation.perform, Operation.attempt,
    Reading.ofBytes]
  cases decodeUtf8? line with
  | none => rfl
  | some text =>
    show _ = ending (sink.performAll (settings.textOperations terminalColors text ++ rest))
    rw [performAll_append, performAll_textOperations, proceed]
    simp only [turn]
    cases sink.writeLine _ with
    | error failed => rfl
    | ok sink => exact hrest sink

theorem streamOperations_ask {chunk : List UInt8} (hchunk : chunk ≠ []) (held : List UInt8)
    (chunks : List (List UInt8)) (broken : Bool) :
    settings.streamOperations terminalColors ⟨held, chunk :: chunks, broken⟩ =
      settings.streamOperations terminalColors ⟨held ++ chunk, chunks, broken⟩ := by
  rw [streamOperations, Source.lines_ask held chunks broken hchunk,
    Source.breaks_ask held chunks broken hchunk, streamOperations]

theorem streamOperations_stop (held : List UInt8) (chunks : List (List UInt8)) (broken : Bool) :
    settings.streamOperations terminalColors ⟨held, [] :: chunks, broken⟩ =
      settings.streamOperations terminalColors ⟨held, [], false⟩ := by
  rw [streamOperations, Source.lines_stop, Source.breaks_stop, streamOperations]
  rfl

theorem streamOperations_line {line : List UInt8} (h : lineFeed ∉ line) (held : List UInt8)
    (chunks : List (List UInt8)) (broken : Bool) :
    settings.streamOperations terminalColors ⟨line ++ lineFeed :: held, chunks, broken⟩ =
      settings.lineOperations terminalColors (dropCarriageReturn line) ++
        settings.streamOperations terminalColors ⟨held, chunks, broken⟩ := by
  rw [streamOperations, Source.lines_line held chunks broken h, List.flatMap_cons,
    List.append_assoc]
  rfl

/-- What is left at the end of the input is one line at most. -/
theorem ending_compileLines_last {held : List UInt8} (h : lineFeed ∉ held) (broken : Bool)
    (sink : Sink) :
    (settings.compileLines (settings.escapes.applies terminalColors) ⟨held, [], broken⟩
        sink).ending =
      ending (sink.performAll (settings.streamOperations terminalColors ⟨held, [], broken⟩)) := by
  rw [compileLines_eq, Source.readLine_last h, streamOperations, Source.lines_last broken h]
  cases broken with
  | true => rfl
  | false =>
    by_cases hne : held = []
    · subst hne
      rfl
    · -- the unfinished line is handed out, and then the end is met again
      rw [Source.readEnd_of_ne_nil hne, if_neg (by simp [hne]), List.flatMap_singleton]
      refine ending_proceed _ _ _ _ _ _ (fun sink => ?_) sink
      rw [compileLines_eq, Source.readLine_last List.not_mem_nil]
      rfl

/-- **A run over the lines of a source performs its operations.** -/
theorem ending_compileLines (held : List UInt8) (chunks : List (List UInt8)) (broken : Bool)
    (sink : Sink) :
    (settings.compileLines (settings.escapes.applies terminalColors) ⟨held, chunks, broken⟩
        sink).ending =
      ending (sink.performAll
        (settings.streamOperations terminalColors ⟨held, chunks, broken⟩)) := by
  induction held, chunks using byteMarks.stream_induction generalizing broken sink with
  | last held h => exact ending_compileLines_last _ _ h broken sink
  | stop held chunks h ih =>
    rw [compileLines_stop _ _ h, streamOperations_stop]
    exact ih false sink
  | ask held chunk chunks h hchunk ih =>
    rw [compileLines_ask _ _ h hchunk, streamOperations_ask _ _ hchunk]
    exact ih broken sink
  | line line held chunks h ih =>
    show (settings.compileLines _ ⟨line ++ lineFeed :: held, chunks, broken⟩ sink).ending =
      ending (sink.performAll
        (settings.streamOperations terminalColors ⟨line ++ lineFeed :: held, chunks, broken⟩))
    rw [compileLines_line _ _ h, streamOperations_line _ _ h]
    exact ending_proceed _ _ _ _ _ _ (ih broken) sink

/-- **A run that compiles performs its operations.** -/
theorem ending_run (hcheck : settings.check = false) (source : Source) (sink : Sink) :
    (settings.run terminalColors source sink).ending =
      ending (sink.performAll (settings.operations terminalColors source)) := by
  rw [run, hcheck, if_neg Bool.false_ne_true, runCompile, operations]
  cases settings.text? with
  | none =>
    exact settings.ending_compileLines terminalColors source.buffer source.chunks source.broken sink
  | some text =>
    simp only [performAll_textOperations]
    exact ending_finish _

end Settings

/-! ### Streams that break -/

/-- A stream that breaks has no line that an unbroken one has not. -/
theorem writtenBy_operations_prefix (settings : Settings) (terminalColors : Bool)
    (source : Source) :
    writtenBy (settings.operations terminalColors source) <+:
      writtenBy (settings.operations terminalColors { source with broken := false }) := by
  have hlines : source.lines <+: Source.lines { source with broken := false } := by
    have hall : Source.lines { source with broken := false } = byteMarks.lines source.bytes := rfl
    rw [hall, Source.lines]
    split
    · exact byteMarks.complete_prefix_lines _
    · exact List.prefix_rfl
  obtain ⟨more, hmore⟩ := hlines
  rw [Settings.operations, Settings.operations]
  cases settings.text? with
  | some text => exact List.prefix_rfl
  | none =>
    have hend : ∀ (operations : List Operation) (broken : Bool),
        writtenBy (operations ++ [.readEnd broken]) = writtenBy operations := by
      intro operations broken
      rw [writtenBy_concat]
      exact List.append_nil _
    simp only [Settings.streamOperations, hend, ← hmore, List.flatMap_append, writtenBy_append]
    exact List.prefix_append _ _

end ChatTint
