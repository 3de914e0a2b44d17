import ChatTint.Command.Source

/-!
# Lines to a stream

A sink takes bytes until it is full and delivers them when it is flushed.  A
write that does not fit fails, but the part of it that fits is taken.

* `Sink`, `Sink.write`, `Sink.flush` — a stream of output.
* `Sink.writeText` — a line of text and its end.
-/

namespace ChatTint

/-- A stream of output. -/
structure Sink where
  /-- The bytes taken so far. -/
  written : List UInt8 := []
  /-- How many bytes more it takes, if it is bounded. -/
  room : Option Nat := none
  /-- How often it can still be flushed, if that is bounded. -/
  flushes : Option Nat := none
deriving DecidableEq

namespace Sink

/-- The number of bytes taken so far. -/
def size (sink : Sink) : Nat := sink.written.length

/-- Writes bytes.  A failure comes with the sink as it is left. -/
def write (sink : Sink) (bytes : List UInt8) : Except (Cause × Sink) Sink :=
  match sink.room with
  | none => .ok { sink with written := sink.written ++ bytes }
  | some room =>
    if bytes.length ≤ room then
      .ok { sink with written := sink.written ++ bytes, room := some (room - bytes.length) }
    else
      .error (.sinkFull, { sink with written := sink.written ++ bytes.take room, room := some 0 })

/-- Delivers what was written. -/
def flush (sink : Sink) : Except (Cause × Sink) Sink :=
  match sink.flushes with
  | none => .ok sink
  | some 0 => .error (.flushRefused, sink)
  | some (n + 1) => .ok { sink with flushes := some n }

/-- Writes a text and the end of a line. -/
def writeText (sink : Sink) (text : List Char) : Except (Cause × Sink) Sink := do
  let sink ← sink.write (encodeUtf8 text)
  sink.write [lineFeed]

end Sink
end ChatTint
