import ChatTint.Command.Run
import ChatTint.Proofs.Command.Lines

/-!
# The command works line by line

Without text on the command line the input is compiled line by line, and each line
is written before more of the input is asked for than the line needs.  So what is
written depends on the lines of the input alone, and what is written when a chunk is
asked for is the output of the lines that the chunks before it complete.  The
invariant of the run is in `textRun_spec`: it holds of every state that the run can be
in, a text at hand with chunks still to come.

## Main definitions

* `Settings.lineOutput`, `Settings.linesOutput` — what is written for lines.
* `Settings.proceed` — what a run does with a line that it has read.
* `Settings.textRun` — a run with a text at hand and some bytes written.
* `Settings.requestSizes` — how much is written at each request.

## Main results

* `Settings.compileLines_eq` — a run is one line read and the run behind it.
* `Settings.compileLines_line`, `Settings.compileLines_ask`,
  `Settings.compileLines_stop` — a run with a complete line at hand, without one, and at
  the end of its input.
* `Settings.textRun_spec` — what a run writes, from any of its states.
* `run_streams_lines` — the output and the requests of a run.
-/

namespace ChatTint

/-! ### Reports -/

namespace Report

variable (requests : List Nat) (events : List Event) (r : Report)

@[simp] theorem output_after : (r.after requests events).output = r.output := rfl

@[simp] theorem requests_after : (r.after requests events).requests = requests ++ r.requests := rfl

theorem after_after (more : List Nat) :
    (r.after more events).after requests [] = r.after (requests ++ more) events := by
  simp [after]

end Report

namespace Settings

/-! ### What is written -/

section Output

variable (settings : Settings) (terminalColors : Bool)

/-- What is written for a line: what it compiles to, or the visible text of that where
no escape sequences are wanted, and the end of a line. -/
def lineOutput (line : List Char) : List UInt8 :=
  let output := (ChatTint.compile settings.depth settings.maxPasses line).output
  let text :=
    match settings.escapes with
    | .always => output
    | .never => stripEscapes output
    | .auto => if terminalColors then output else stripEscapes output
  encodeUtf8 text ++ [10]

/-- What is written for lines. -/
def linesOutput (lines : List (List Char)) : List UInt8 :=
  lines.flatMap (settings.lineOutput terminalColors)

/-- A run shows of a compiled line what is to be written for it. -/
theorem lineOutput_eq (line : List Char) :
    settings.lineOutput terminalColors line =
      encodeUtf8 (shown (settings.escapes.applies terminalColors) (settings.compile line)) ++
        [lineFeed] := by
  rw [lineOutput]
  cases settings.escapes with
  | always => rfl
  | never => rfl
  | auto => rfl

@[simp] theorem linesOutput_nil : settings.linesOutput terminalColors [] = [] := rfl

@[simp] theorem linesOutput_cons (line : List Char) (lines : List (List Char)) :
    settings.linesOutput terminalColors (line :: lines) =
      settings.lineOutput terminalColors line ++ settings.linesOutput terminalColors lines := rfl

/-- What is written for the first lines is written first. -/
theorem linesOutput_prefix {lines more : List (List Char)} (h : lines <+: more) :
    settings.linesOutput terminalColors lines <+: settings.linesOutput terminalColors more := by
  obtain ⟨rest, rfl⟩ := h
  rw [linesOutput, linesOutput, List.flatMap_append]
  exact List.prefix_append _ _

end Output

/-! ### One line after another -/

section Steps

variable (settings : Settings) (escapes : Bool)

/-- What a run does with the outcome of reading a line. -/
def proceed (reading : Reading) (sink : Sink) : Report :=
  match settings.turn escapes reading.line with
  | .stop outcome => ⟨outcome, sink.written, [], []⟩
  | .write text events =>
    match sink.writeLine text with
    | .error (f, sink) => ⟨.error f, sink.written, [], events⟩
    | .ok sink => (settings.compileLines escapes reading.source sink).after [] events

/-- **A run reads a line and proceeds with it.** -/
theorem compileLines_eq (source : Source) (sink : Sink) :
    settings.compileLines escapes source sink =
      (settings.proceed escapes source.readLine sink).after
        (List.replicate source.readLine.requests sink.size) [] := by
  rw [compileLines, proceed]
  split
  · next outcome hturn => simp [Report.after, hturn]
  · next text events hturn =>
    cases hwrite : sink.writeLine text with
    | error failed => simp [Report.after, hturn, hwrite]
    | ok sink => simp [Report.after, hturn, hwrite]

/-- With a complete line at hand nothing is asked for. -/
theorem compileLines_line {line : List UInt8} (h : lineFeed ∉ line) (held : List UInt8)
    (chunks : List (List UInt8)) (broken : Bool) (sink : Sink) :
    settings.compileLines escapes ⟨line ++ lineFeed :: held, chunks, broken⟩ sink =
      settings.proceed escapes (.ofBytes (dropCarriageReturn line) 0 ⟨held, chunks, broken⟩)
        sink := by
  rw [compileLines_eq, Source.readLine_line h, Reading.requests_ofBytes]
  rfl

/-- Without one a chunk is asked for, and the run goes on with it at hand. -/
theorem compileLines_ask {held chunk : List UInt8} (h : lineFeed ∉ held) (hchunk : chunk ≠ [])
    (chunks : List (List UInt8)) (broken : Bool) (sink : Sink) :
    settings.compileLines escapes ⟨held, chunk :: chunks, broken⟩ sink =
      (settings.compileLines escapes ⟨held ++ chunk, chunks, broken⟩ sink).after
        [sink.size] [] := by
  rw [compileLines_eq, compileLines_eq _ _ ⟨held ++ chunk, chunks, broken⟩,
    Source.readLine_ask h hchunk, Report.after_after]
  rfl

/-- An empty chunk is the end of the input. -/
theorem compileLines_stop {held : List UInt8} (h : lineFeed ∉ held) (chunks : List (List UInt8))
    (broken : Bool) (sink : Sink) :
    settings.compileLines escapes ⟨held, [] :: chunks, broken⟩ sink =
      settings.compileLines escapes ⟨held, [], false⟩ sink := by
  rw [compileLines_eq, compileLines_eq _ _ ⟨held, [], false⟩, Source.readLine_stop h]

end Steps

/-! ### Text without failures -/

/-- A sink without bounds that has taken some bytes. -/
def unboundedSink (written : List UInt8) : Sink := { written := written }

/-- A stream of texts that does not break, with a text at hand. -/
def textSource (held : List Char) (chunks : List (List Char)) : Source :=
  { buffer := encodeUtf8 held, chunks := chunks.map encodeUtf8 }

theorem ofBytes_encodeUtf8 (text : List Char) (requests : Nat) (source : Source) :
    Reading.ofBytes (encodeUtf8 text) requests source = ⟨.ok (some text), requests, source⟩ := by
  rw [Reading.ofBytes, decodeUtf8?_encodeUtf8]

section Texts

variable (settings : Settings) (terminalColors : Bool)

/-- A run with a text at hand, more texts to come, and some bytes written. -/
def textRun (held : List Char) (chunks : List (List Char)) (written : List UInt8) : Report :=
  settings.compileLines (settings.escapes.applies terminalColors) (textSource held chunks)
    (unboundedSink written)

/-- A text that was read is written, and the run goes on. -/
theorem proceed_text (text : List Char) (requests : Nat) (held : List Char)
    (chunks : List (List Char)) (written : List UInt8) :
    settings.proceed (settings.escapes.applies terminalColors)
        ⟨.ok (some text), requests, textSource held chunks⟩ (unboundedSink written) =
      (settings.textRun terminalColors held chunks
        (written ++ settings.lineOutput terminalColors text)).after []
        (settings.compile text).events := by
  rw [lineOutput_eq, ← List.append_assoc]
  rfl

theorem textRun_line {line : List Char} (h : '\n' ∉ line) (held : List Char)
    (chunks : List (List Char)) (written : List UInt8) :
    settings.textRun terminalColors (line ++ '\n' :: held) chunks written =
      (settings.textRun terminalColors held chunks
        (written ++ settings.lineOutput terminalColors (textMarks.dropReturn line))).after []
        (settings.compile (textMarks.dropReturn line)).events := by
  rw [textRun, textSource, encodeUtf8_line, compileLines_line _ _ (lineFeed_notMem_encodeUtf8 h),
    dropCarriageReturn_encodeUtf8, ofBytes_encodeUtf8, ← proceed_text]
  rfl

theorem textRun_ask {held chunk : List Char} (h : '\n' ∉ held) (hchunk : chunk ≠ [])
    (chunks : List (List Char)) (written : List UInt8) :
    settings.textRun terminalColors held (chunk :: chunks) written =
      (settings.textRun terminalColors (held ++ chunk) chunks written).after
        [written.length] [] := by
  have hbytes : encodeUtf8 chunk ≠ [] := mt encodeUtf8_eq_nil_iff.mp hchunk
  rw [textRun, textSource, List.map_cons,
    compileLines_ask _ _ (lineFeed_notMem_encodeUtf8 h) hbytes, ← encodeUtf8_append]
  rfl

/-- At the end of the input nothing more is written. -/
theorem textRun_end (written : List UInt8) :
    settings.textRun terminalColors [] [] written = ⟨.ok 0, written, [written.length], []⟩ := by
  have hread : (textSource [] []).readLine = ⟨.ok none, 1, textSource [] []⟩ :=
    Source.readLine_last List.not_mem_nil false
  rw [textRun, compileLines_eq, hread]
  rfl

/-- An unfinished line at the end of the input is written, and then the end is met
again. -/
theorem textRun_last {held : List Char} (h : '\n' ∉ held) (hne : held ≠ [])
    (written : List UInt8) :
    settings.textRun terminalColors held [] written =
      ⟨.ok 0, written ++ settings.lineOutput terminalColors held,
        [written.length, (written ++ settings.lineOutput terminalColors held).length],
        (settings.compile held).events⟩ := by
  have hbytes : encodeUtf8 held ≠ [] := mt encodeUtf8_eq_nil_iff.mp hne
  have hread : (textSource held []).readLine = ⟨.ok (some held), 1, textSource [] []⟩ := by
    rw [textSource, List.map_nil, Source.readLine_last (lineFeed_notMem_encodeUtf8 h),
      Source.readEnd_of_ne_nil hbytes, ofBytes_encodeUtf8]
    rfl
  rw [textRun, compileLines_eq, hread, proceed_text, textRun_end]
  simp [Report.after, Sink.size, unboundedSink]

/-! ### The whole input -/

/-- How much is written at each request, if so much was written before: at the request
behind the first `k` chunks, the output of the lines that these complete; and all of
it at one request more, if the last line has no end. -/
def requestSizes (before : Nat) (held : List Char) (chunks : List (List Char)) : List Nat :=
  (List.range (chunks.length + 1)).map (fun k => before +
    (settings.linesOutput terminalColors
      (textMarks.complete (held ++ (chunks.take k).flatten))).length) ++
  if textMarks.rest (held ++ chunks.flatten) = [] then []
  else [before + (settings.linesOutput terminalColors
    (textMarks.lines (held ++ chunks.flatten))).length]

theorem requestSizes_line {line : List Char} (h : '\n' ∉ line) (before : Nat)
    (held : List Char) (chunks : List (List Char)) :
    settings.requestSizes terminalColors before (line ++ '\n' :: held) chunks =
      settings.requestSizes terminalColors
        (before + (settings.lineOutput terminalColors (textMarks.dropReturn line)).length)
        held chunks := by
  have hassoc : ∀ more : List Char,
      (line ++ '\n' :: held) ++ more = line ++ textMarks.feed :: (held ++ more) := by
    intro more
    rw [List.append_assoc]
    rfl
  have hline : textMarks.feed ∉ line := h
  simp only [requestSizes, hassoc, LineMarks.complete_line hline, LineMarks.rest_line hline,
    LineMarks.lines_line hline, linesOutput_cons, List.length_append, Nat.add_assoc]

theorem requestSizes_ask {held : List Char} (h : '\n' ∉ held) (before : Nat)
    (chunk : List Char) (chunks : List (List Char)) :
    settings.requestSizes terminalColors before held (chunk :: chunks) =
      before :: settings.requestSizes terminalColors before (held ++ chunk) chunks := by
  have hnone : textMarks.complete held = [] := LineMarks.complete_of_notMem h
  simp only [requestSizes, List.length_cons, List.range_succ_eq_map,
    List.map_cons, List.map_map, Function.comp_def, List.take_zero, List.flatten_nil,
    List.append_nil, hnone, linesOutput_nil, List.length_nil, Nat.add_zero, List.take_succ_cons,
    List.flatten_cons, List.append_assoc, List.cons_append, Nat.succ_eq_add_one]

theorem requestSizes_last {held : List Char} (h : '\n' ∉ held) (before : Nat) :
    settings.requestSizes terminalColors before held [] =
      before :: if held = [] then []
        else [before + (settings.lineOutput terminalColors held).length] := by
  have hnone : textMarks.complete held = [] := LineMarks.complete_of_notMem h
  have hrest : textMarks.rest held = held := LineMarks.rest_of_notMem h
  have hlines : textMarks.lines held = if held = [] then [] else [held] :=
    LineMarks.lines_of_notMem h
  by_cases hne : held = []
  · subst hne
    simp [requestSizes, hnone, hrest]
  · simp [requestSizes, hnone, hrest, hlines, hne]

/-- **What a run writes and when it asks for more**, from any state that it can be
in. -/
theorem textRun_spec (held : List Char) (chunks : List (List Char))
    (hchunks : ∀ chunk ∈ chunks, chunk ≠ []) (written : List UInt8) :
    (settings.textRun terminalColors held chunks written).outcome = .ok 0 ∧
      (settings.textRun terminalColors held chunks written).output =
        written ++ settings.linesOutput terminalColors (textMarks.lines (held ++ chunks.flatten)) ∧
      (settings.textRun terminalColors held chunks written).requests =
        settings.requestSizes terminalColors written.length held chunks := by
  induction held, chunks using textMarks.stream_induction generalizing written with
  | last held h =>
    have hlines : textMarks.lines held = if held = [] then [] else [held] :=
      LineMarks.lines_of_notMem h
    rw [requestSizes_last _ _ h]
    by_cases hne : held = []
    · subst hne
      rw [textRun_end]
      exact ⟨rfl, (List.append_nil _).symm, rfl⟩
    · rw [textRun_last _ _ h hne, List.flatten_nil, List.append_nil, hlines, if_neg hne,
        if_neg hne, linesOutput_cons, linesOutput_nil, List.append_nil, List.length_append]
      exact ⟨rfl, rfl, rfl⟩
  | stop held chunks h ih => exact absurd rfl (hchunks [] List.mem_cons_self)
  | ask held chunk chunks h hchunk ih =>
    -- only the requests change: nothing is written for the chunk as such
    have hmore : ∀ chunk ∈ chunks, chunk ≠ [] := (List.forall_mem_cons.mp hchunks).2
    obtain ⟨houtcome, houtput, hrequests⟩ := ih hmore written
    rw [textRun_ask _ _ h hchunk, requestSizes_ask _ _ h, List.flatten_cons, ← List.append_assoc]
    refine ⟨houtcome, houtput, ?_⟩
    rw [Report.requests_after, hrequests]
    rfl
  | line line held chunks h ih =>
    -- the line moves from the text at hand to what has been written
    obtain ⟨houtcome, houtput, hrequests⟩ :=
      ih hchunks (written ++ settings.lineOutput terminalColors (textMarks.dropReturn line))
    have hrun := settings.textRun_line terminalColors h held chunks written
    have hlines : textMarks.lines ((line ++ '\n' :: held) ++ chunks.flatten) =
        textMarks.dropReturn line :: textMarks.lines (held ++ chunks.flatten) := by
      rw [List.append_assoc]
      exact LineMarks.lines_line h _
    show (settings.textRun terminalColors (line ++ '\n' :: held) chunks written).outcome = _ ∧
      (settings.textRun terminalColors (line ++ '\n' :: held) chunks written).output =
        written ++ settings.linesOutput terminalColors
          (textMarks.lines ((line ++ '\n' :: held) ++ chunks.flatten)) ∧
      (settings.textRun terminalColors (line ++ '\n' :: held) chunks written).requests =
        settings.requestSizes terminalColors written.length (line ++ '\n' :: held) chunks
    rw [hrun, hlines, requestSizes_line _ _ h]
    refine ⟨houtcome, ?_, ?_⟩
    · rw [Report.output_after, houtput, linesOutput_cons, List.append_assoc]
    · rw [Report.requests_after, hrequests, List.length_append]
      rfl

end Texts

/-! ### The command -/

theorem text?_of_words_nil {settings : Settings} (hwords : settings.words = []) :
    settings.text? = none := by
  rw [text?, hwords]
  rfl

theorem run_of_lines {settings : Settings} (hwords : settings.words = [])
    (hcheck : settings.check = false) (terminalColors : Bool) (source : Source) (sink : Sink) :
    settings.run terminalColors source sink =
      (settings.compileLines (settings.escapes.applies terminalColors) source sink).after []
        [.compiling settings.depth (settings.escapes.applies terminalColors)] := by
  rw [run, hcheck, if_neg Bool.false_ne_true, runCompile, text?_of_words_nil hwords]

theorem requests_of_words {settings : Settings} (hwords : settings.words ≠ [])
    (terminalColors : Bool) (source : Source) (sink : Sink) :
    (settings.run terminalColors source sink).requests = [] := by
  have htext : settings.text? = some (List.intercalate [' '] settings.words) := by
    rw [text?, if_neg (mt List.isEmpty_iff.mp hwords)]
  have hfinish : ∀ (code : Nat) (result : Except (Failure × Sink) Sink),
      (Report.finish code result).requests = [] := by
    intro code result
    cases result <;> rfl
  rw [run]
  split
  · rw [runCheck, search, htext]
    exact hfinish _ _
  · rw [runCompile, htext]
    exact hfinish _ _

end Settings

/-- **The command works line by line.**  Without text on the command line, from input
that does not break to an output without bounds, it succeeds, and writes the compiled
lines of the input one after another, or their visible text where no escape sequences
are wanted, each with one line feed.  Its requests are one behind each number of chunks,
from none to all of them, and one more if the last line has no end.  What is written at
the request behind the first `k` chunks is the output of the lines that these complete:
so many bytes, which are the first ones.  With text on the command line the input is
never asked for anything. -/
theorem run_streams_lines (settings : Settings) (terminalColors : Bool) :
    (settings.words = [] → settings.check = false → ∀ chunks : List (List Char),
      (∀ chunk ∈ chunks, chunk ≠ []) →
      let report := settings.run terminalColors { chunks := chunks.map encodeUtf8 } {}
      let output := settings.linesOutput terminalColors
      report.outcome = .ok 0 ∧
      report.output = output (textMarks.lines chunks.flatten) ∧
      report.requests =
        (List.range (chunks.length + 1)).map
            (fun k => (output (textMarks.complete (chunks.take k).flatten)).length) ++
          (if textMarks.rest chunks.flatten = [] then [] else [report.output.length]) ∧
      ∀ k, output (textMarks.complete (chunks.take k).flatten) <+: report.output) ∧
    (settings.words ≠ [] → ∀ source sink,
      (settings.run terminalColors source sink).requests = []) := by
  refine ⟨?_, fun hwords => Settings.requests_of_words hwords terminalColors⟩
  intro hwords hcheck chunks hchunks report output
  obtain ⟨houtcome, houtput, hrequests⟩ :=
    settings.textRun_spec terminalColors [] chunks hchunks []
  have hreport := Settings.run_of_lines hwords hcheck terminalColors
    (Settings.textSource [] chunks) (Settings.unboundedSink [])
  have hall : report.output = output (textMarks.lines chunks.flatten) :=
    (congrArg Report.output hreport).trans houtput
  refine ⟨(congrArg Report.outcome hreport).trans houtcome, hall, ?_, ?_⟩
  · rw [hall]
    refine (congrArg Report.requests hreport).trans (hrequests.trans ?_)
    simp only [Settings.requestSizes, List.length_nil, Nat.zero_add, List.nil_append]
    rfl
  · -- the first chunks are a beginning of the input, and their lines of its lines
    intro k
    rw [hall]
    refine Settings.linesOutput_prefix _ _ (List.IsPrefix.trans ?_
      (textMarks.complete_prefix_lines chunks.flatten))
    have hsplit : chunks.flatten = (chunks.take k).flatten ++ (chunks.drop k).flatten := by
      rw [← List.flatten_append, List.take_append_drop]
    rw [hsplit]
    exact textMarks.complete_prefix_append _ _

theorem run_streams_split_lineEnd :
    let chunks := ["§ca\r".toList, "\nb".toList, "<b>é\n\nx".toList, "y\r".toList]
    let source : Source := { chunks := chunks.map encodeUtf8 }
    let colored := Settings.run { escapes := .always } false source {}
    let visible := Settings.run { escapes := .never } true source {}
    let piped := Settings.run { escapes := .auto } false source {}
    colored.outcome = .ok 0 ∧
      colored.output =
        encodeUtf8 "\x1b[91ma\x1b[0m\nb\x1b[1mé\x1b[0m\n\x1b[0m\nxy\r\x1b[0m\n".toList ∧
      colored.requests = [0, 0, 11, 28, 28, 36] ∧
      visible.outcome = .ok 0 ∧
      visible.output = [97, 10, 98, 195, 169, 10, 10, 120, 121, 13, 10] ∧
      visible.requests = [0, 0, 2, 7, 7, 11] ∧
      piped.outcome = .ok 0 ∧ piped.output = visible.output ∧
      piped.requests = [0, 0, 2, 7, 7, 11] ∧
      (Settings.run { words := ["a".toList] } false { chunks := [[104, 10]] } {}).requests =
        [] := by
  intro chunks source colored visible piped
  have hchunks : ∀ chunk ∈ chunks, chunk ≠ [] := by decide
  obtain ⟨hcolored, houtput, hrequests, -⟩ :=
    (run_streams_lines { escapes := .always } false).1 rfl rfl chunks hchunks
  obtain ⟨hvisible, htext, hasked, -⟩ :=
    (run_streams_lines { escapes := .never } true).1 rfl rfl chunks hchunks
  obtain ⟨hpiped, hsame, hsizes, -⟩ :=
    (run_streams_lines { escapes := .auto } false).1 rfl rfl chunks hchunks
  exact ⟨hcolored, houtput.trans (by decide +kernel), hrequests.trans (by decide +kernel),
    hvisible, htext.trans (by decide +kernel), hasked.trans (by decide +kernel),
    hpiped, hsame.trans htext.symm, hsizes.trans (by decide +kernel),
    (run_streams_lines { words := ["a".toList] } false).2 (by decide) _ _⟩

end ChatTint
