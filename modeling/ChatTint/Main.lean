import ChatTint.Command.Run
import ChatTint.Command.Usage

/-!
# The command

Connects the command to the process: its arguments, its streams and its exit
code.  What a read line is (`Source.readHeld?`, `Source.readEnd`) and what follows
it (`Settings.turn`, `answer?`) is settled by `ChatTint.Command`; here bytes are only
moved.
-/

namespace ChatTint

/-- The number of bytes asked for at a time. -/
def requestSize : USize := 65536

/-- Writes events to the log. -/
def writeLog (settings : Settings) (events : List Event) : IO Unit := do
  for event in settings.logged events do
    IO.eprintln event.line

/-- Performs an operation on a stream.  If it fails, the failure says what was being
done. -/
def attempt {α : Type} (context : String) (operation : IO α) : IO α := do
  try operation
  catch e => throw (IO.userError (context ++ ": " ++ toString e))

/-- Writes a text and the end of a line. -/
def writeText (output : IO.FS.Stream) (text : List Char) : IO Unit :=
  attempt "writing output" (output.putStrLn (String.ofList text))

/-- Delivers what was written. -/
def deliver (output : IO.FS.Stream) : IO Unit := attempt "flushing output" output.flush

/-- Reads the next line behind the bytes of a buffer, asking for more only while they
hold no complete line. -/
partial def readInput (input : IO.FS.Stream) (buffer : List UInt8) : IO Reading := do
  match Source.readHeld? { buffer := buffer } with
  | some reading => return reading
  | none =>
    let chunk ← attempt "reading standard input" (input.read requestSize)
    if chunk.isEmpty then return Source.readEnd false buffer
    readInput input (buffer ++ chunk.toList)

/-- Compiles the input line by line, and returns the exit code. -/
partial def compileInput (settings : Settings) (escapes : Bool) (input output : IO.FS.Stream)
    (buffer : List UInt8) : IO (Except Failure Nat) := do
  let reading ← readInput input buffer
  match settings.turn escapes reading.line with
  | .stop outcome => return outcome
  | .write text events =>
    writeLog settings events
    writeText output text
    deliver output
    compileInput settings escapes input output reading.source.buffer

/-- Searches the input for legacy codes. -/
partial def searchInput (input : IO.FS.Stream) (buffer : List UInt8) :
    IO (Except Failure Bool) := do
  let reading ← readInput input buffer
  match answer? reading.line with
  | some found => return found
  | none => searchInput input reading.source.buffer

/-- Runs the command on the streams of the process. -/
def runStreams (settings : Settings) (input output : IO.FS.Stream) : IO (Except Failure Nat) := do
  let terminalColors ← output.isTty
  match settings.text?, settings.check with
  | some _, _ =>
    let report := settings.run terminalColors {} {}
    writeLog settings report.events
    attempt "writing output" (output.write report.output.toByteArray)
    deliver output
    return report.outcome
  | none, true =>
    match ← searchInput input [] with
    | .error f => return .error f
    | .ok found =>
      writeLog settings [.checked found]
      writeText output (verdict found)
      deliver output
      return .ok (verdictCode found)
  | none, false =>
    let escapes := settings.escapes.applies terminalColors
    writeLog settings [.compiling settings.depth escapes]
    compileInput settings escapes input output []

end ChatTint

open ChatTint in
/-- Runs the command with the arguments of the process. -/
def main (arguments : List String) : IO UInt32 := do
  let output ← IO.getStdout
  match Settings.ofArguments (arguments.map String.toList) with
  | .error stop =>
    if let .error e := stop then IO.eprintln ("error: " ++ e.message)
    output.putStr stop.output
    return UInt32.ofNat stop.exitCode
  | .ok settings =>
    try
      match ← runStreams settings (← IO.getStdin) output with
      | .ok code => return UInt32.ofNat code
      | .error f =>
        IO.eprintln ("mcansi: " ++ f.message)
        return UInt32.ofNat failureCode
    catch e =>
      IO.eprintln ("mcansi: " ++ toString e)
      return UInt32.ofNat failureCode
