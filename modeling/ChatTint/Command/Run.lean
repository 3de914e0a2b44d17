import ChatTint.Command.Settings
import ChatTint.Command.Sink

/-!
# Running the command

The text on the command line is compiled as one line, and then the input is not
looked at.  Without such text the input is compiled line by line, and each line
is written and delivered before the next is asked for.  If a search was asked
for, lines are read up to the first that holds a legacy code, and the answer is
all that is written.  The first failure ends the run, and says what was being done.

What follows a line that was read does not depend on the streams: it is told by
`Settings.turn` and `answer?`, and the loops here and in the process only carry it
out.

## Main definitions

* `Report` — the outcome of a run and all that can be observed of it.
* `Turn`, `Settings.turn` — what compiling does next when a line was read.
* `Settings.compileLines`, `Settings.compileText` — compiling.
* `answer?`, `Source.search` — the search for codes.
* `Settings.run` — the command.
-/

namespace ChatTint

/-- What can be observed of a run. -/
structure Report where
  /-- The exit code, or what ended the run. -/
  outcome : Except Failure Nat
  /-- The bytes written. -/
  output : List UInt8
  /-- For each request to the input, the number of bytes written before. -/
  requests : List Nat
  /-- What was reported, in order. -/
  events : List Event

namespace Report

/-- The report of a run that went on after requests and events. -/
def after (requests : List Nat) (events : List Event) (r : Report) : Report :=
  { r with requests := requests ++ r.requests, events := events ++ r.events }

/-- The report of a run that ends with a last operation on the output. -/
def finish (code : Nat) : Except (Failure × Sink) Sink → Report
  | .ok sink => ⟨.ok code, sink.written, [], []⟩
  | .error (f, sink) => ⟨.error f, sink.written, [], []⟩

end Report

/-- The exit code of a run that failed. -/
def failureCode : Nat := 2

/-- The exit code of the command. -/
def Report.exitCode (r : Report) : Nat :=
  match r.outcome with
  | .ok code => code
  | .error _ => failureCode

/-! ### What was being done -/

/-- The outcome of an operation on the output, with what was being done if it failed. -/
def during (context : String) : Except (Cause × Sink) Sink → Except (Failure × Sink) Sink
  | .ok sink => .ok sink
  | .error (cause, sink) => .error (⟨context, cause⟩, sink)

/-- Writes a line and delivers it. -/
def Sink.writeLine (sink : Sink) (text : List Char) : Except (Failure × Sink) Sink := do
  let sink ← during "writing output" (sink.writeText text)
  during "flushing output" sink.flush

/-! ### Compiling -/

/-- What compiling does next. -/
inductive Turn where
  /-- The run ends. -/
  | stop (outcome : Except Failure Nat)
  /-- A line is written and delivered, and then the next is read. -/
  | write (text : List Char) (events : List Event)

namespace Settings

/-- What compiling does when a line was read. -/
def turn (settings : Settings) (escapes : Bool) : Except Cause (Option (List Char)) → Turn
  | .error cause => .stop (.error ⟨"reading standard input", cause⟩)
  | .ok none => .stop (.ok 0)
  | .ok (some text) =>
    let compiled := settings.compile text
    .write (shown escapes compiled) compiled.events

/-- What is written comes from a line. -/
theorem exists_of_turn_eq_write {settings : Settings} {escapes : Bool}
    {line : Except Cause (Option (List Char))} {text : List Char} {events : List Event}
    (h : settings.turn escapes line = .write text events) : ∃ read, line = .ok (some read) := by
  match line with
  | .error cause => simp [turn] at h
  | .ok none => simp [turn] at h
  | .ok (some read) => exact ⟨read, rfl⟩

/-- Compiles a single line. -/
def compileText (settings : Settings) (escapes : Bool) (text : List Char) (sink : Sink) :
    Report :=
  let compiled := settings.compile text
  (Report.finish 0 (sink.writeLine (shown escapes compiled))).after [] compiled.events

/-- Compiles the lines of a source. -/
def compileLines (settings : Settings) (escapes : Bool) (source : Source) (sink : Sink) :
    Report :=
  let reading := source.readLine
  let requests := List.replicate reading.requests sink.size
  match _h : settings.turn escapes reading.line with
  | .stop outcome => ⟨outcome, sink.written, requests, []⟩
  | .write text events =>
    match sink.writeLine text with
    | .error (f, sink) => ⟨.error f, sink.written, requests, events⟩
    | .ok sink => (settings.compileLines escapes reading.source sink).after requests events
termination_by source.size
decreasing_by
  obtain ⟨_, hline⟩ := exists_of_turn_eq_write _h
  exact Source.size_readLine_lt hline

end Settings

/-! ### Searching -/

/-- The outcome of a search. -/
structure Search where
  /-- Whether a legacy code was found, or what ended the search. -/
  found : Except Failure Bool
  /-- How often the input was asked for a chunk. -/
  requests : Nat

/-- The answer to a search when a line was read, unless the next line has to be read. -/
def answer? : Except Cause (Option (List Char)) → Option (Except Failure Bool)
  | .error cause => some (.error ⟨"reading standard input", cause⟩)
  | .ok none => some (.ok false)
  | .ok (some text) => if hasCode text then some (.ok true) else none

/-- A search goes on behind a line only. -/
theorem exists_of_answer?_eq_none {line : Except Cause (Option (List Char))}
    (h : answer? line = none) : ∃ read, line = .ok (some read) := by
  match line with
  | .error cause => simp [answer?] at h
  | .ok none => simp [answer?] at h
  | .ok (some read) => exact ⟨read, rfl⟩

/-- Reads lines up to the first that holds a legacy code. -/
def Source.search (source : Source) : Search :=
  let reading := source.readLine
  match _h : answer? reading.line with
  | some found => ⟨found, reading.requests⟩
  | none =>
    let rest := reading.source.search
    ⟨rest.found, reading.requests + rest.requests⟩
termination_by source.size
decreasing_by
  obtain ⟨_, hline⟩ := exists_of_answer?_eq_none _h
  exact Source.size_readLine_lt hline

/-- The answer to a search, in words. -/
def verdict (found : Bool) : List Char :=
  if found then "legacy codes found".toList else "no legacy codes".toList

/-- The exit code of a search. -/
def verdictCode (found : Bool) : Nat := if found then 0 else 1

/-! ### The command -/

namespace Settings

/-- Searches the text of the command line, or else the input. -/
def search (settings : Settings) (source : Source) : Search :=
  match settings.text? with
  | some text => ⟨.ok (hasCode text), 0⟩
  | none => source.search

/-- Answers whether there are legacy codes. -/
def runCheck (settings : Settings) (source : Source) (sink : Sink) : Report :=
  let search := settings.search source
  let requests := List.replicate search.requests sink.size
  match search.found with
  | .error f => ⟨.error f, sink.written, requests, []⟩
  | .ok found =>
    (Report.finish (verdictCode found)
      (during "writing output" (sink.writeText (verdict found)))).after requests [.checked found]

/-- Compiles the text of the command line, or else the input. -/
def runCompile (settings : Settings) (terminalColors : Bool) (source : Source) (sink : Sink) :
    Report :=
  let escapes := settings.escapes.applies terminalColors
  let report :=
    match settings.text? with
    | some text => settings.compileText escapes text sink
    | none => settings.compileLines escapes source sink
  report.after [] [.compiling settings.depth escapes]

/-- Runs the command. -/
def run (settings : Settings) (terminalColors : Bool) (source : Source) (sink : Sink) : Report :=
  if settings.check then settings.runCheck source sink
  else settings.runCompile terminalColors source sink

end Settings
end ChatTint
