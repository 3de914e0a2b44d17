import ChatTint.Text.Utf8

/-!
# Lines from a stream

Input comes in chunks of bytes.  A source keeps the bytes of the chunks it was
given and hands out lines; it asks for another chunk only when it holds no
complete line.  A line ends with a line feed, which does not belong to it, nor
does a carriage return directly in front.  The last line may lack its end, and
then keeps all its bytes.  A request that is answered with no bytes at all has met
the end of the stream.  A stream may break instead of ending: what it gave of an
unfinished line is then lost.

## Main definitions

* `Cause`, `Failure` — what can go wrong with a stream, and in doing what.
* `Source` — the bytes held, and what is still to come.
* `splitLine?` — the first line of some bytes.
* `Source.readHeld?`, `Source.readEnd` — the line at hand, and what is left at the end.
* `Source.readLine` — the next line, with the number of requests it took.
-/

namespace ChatTint

/-- What can go wrong with the input or the output. -/
inductive Cause where
  /-- The input broke. -/
  | streamBroke
  /-- A line of the input is no text. -/
  | notUtf8
  /-- The output takes no more bytes. -/
  | sinkFull
  /-- The output could not be delivered. -/
  | flushRefused
deriving DecidableEq

/-- What went wrong, in words. -/
def Cause.text : Cause → String
  | streamBroke => "stream broke"
  | notUtf8 => "stream did not contain valid UTF-8"
  | sinkFull => "sink full"
  | flushRefused => "flush refused"

/-- Why a run failed. -/
structure Failure where
  /-- What was being done. -/
  context : String
  /-- What went wrong. -/
  cause : Cause
deriving DecidableEq

/-- A failure in words. -/
def Failure.message (f : Failure) : String := f.context ++ ": " ++ f.cause.text

/-! ### Lines of bytes -/

/-- The byte that ends a line. -/
def lineFeed : UInt8 := 10

/-- The byte that may stand in front of the end of a line. -/
def carriageReturn : UInt8 := 13

/-- The bytes before the first line feed and those behind it, if there is one. -/
def splitLine? : List UInt8 → Option (List UInt8 × List UInt8)
  | [] => none
  | b :: s =>
    if b = lineFeed then some ([], s)
    else (splitLine? s).map fun (line, rest) => (b :: line, rest)

/-- The bytes without a carriage return at their end. -/
def dropCarriageReturn (line : List UInt8) : List UInt8 :=
  if line.getLast? = some carriageReturn then line.dropLast else line

/-- A line, its end and the rest make up the bytes. -/
theorem append_splitLine? {bytes line rest : List UInt8}
    (h : splitLine? bytes = some (line, rest)) : line ++ lineFeed :: rest = bytes := by
  induction bytes generalizing line with
  | nil => simp [splitLine?] at h
  | cons b s ih =>
    simp only [splitLine?] at h
    split at h
    · next hb =>
      simp only [Option.some.injEq, Prod.mk.injEq] at h
      obtain ⟨rfl, rfl⟩ := h
      simp [hb]
    · obtain ⟨⟨line', rest'⟩, h', he⟩ := Option.map_eq_some_iff.mp h
      simp only [Prod.mk.injEq] at he
      obtain ⟨rfl, rfl⟩ := he
      simp [ih h']

/-! ### Sources -/

/-- A stream of input. -/
structure Source where
  /-- The bytes that were received and not yet handed out. -/
  buffer : List UInt8 := []
  /-- The chunks still to come, one for each request.  An empty one is the end. -/
  chunks : List (List UInt8) := []
  /-- Whether the stream breaks behind its last chunk instead of ending. -/
  broken : Bool := false
deriving DecidableEq

/-- The outcome of reading a line. -/
structure Reading where
  /-- The line, nothing at the end of the input, or what went wrong. -/
  line : Except Cause (Option (List Char))
  /-- How often the stream was asked for a chunk. -/
  requests : Nat
  /-- What is left of the stream. -/
  source : Source

namespace Reading

/-- The outcome of reading a line of bytes, which have to be a text. -/
def ofBytes (bytes : List UInt8) (requests : Nat) (source : Source) : Reading :=
  match decodeUtf8? bytes with
  | some text => ⟨.ok (some text), requests, source⟩
  | none => ⟨.error .notUtf8, requests, source⟩

/-- The outcome with one request in front. -/
def afterRequest (r : Reading) : Reading := { r with requests := r.requests + 1 }

@[simp] theorem requests_ofBytes (bytes : List UInt8) (requests : Nat) (source : Source) :
    (ofBytes bytes requests source).requests = requests := by
  unfold ofBytes
  split <;> rfl

@[simp] theorem source_ofBytes (bytes : List UInt8) (requests : Nat) (source : Source) :
    (ofBytes bytes requests source).source = source := by
  unfold ofBytes
  split <;> rfl

end Reading

namespace Source

/-- Hands out the line at hand, if there is a complete one. -/
def readHeld? (source : Source) : Option Reading :=
  (splitLine? source.buffer).map fun (line, rest) =>
    .ofBytes (dropCarriageReturn line) 0 { source with buffer := rest }

/-- Hands out what is held when a request meets the end of the stream. -/
def readEnd (broken : Bool) (buffer : List UInt8) : Reading :=
  if broken then ⟨.error .streamBroke, 1, ⟨[], [], broken⟩⟩
  else if buffer.isEmpty then ⟨.ok none, 1, ⟨[], [], broken⟩⟩
  else .ofBytes buffer 1 ⟨[], [], broken⟩

/-- Reads a line from bytes that were received and chunks still to come. -/
def readFrom (broken : Bool) (buffer : List UInt8) : List (List UInt8) → Reading
  | [] => (readHeld? ⟨buffer, [], broken⟩).getD (readEnd broken buffer)
  | chunk :: chunks =>
    (readHeld? ⟨buffer, chunk :: chunks, broken⟩).getD <|
      if chunk.isEmpty then readEnd false buffer
      else (readFrom broken (buffer ++ chunk) chunks).afterRequest

/-- Reads the next line. -/
def readLine (source : Source) : Reading := readFrom source.broken source.buffer source.chunks

/-- The number of bytes that a source has still to hand out. -/
def size (source : Source) : Nat := source.buffer.length + source.chunks.flatten.length

/-- A line at hand takes its end off the source. -/
theorem size_readHeld?_lt {source : Source} {reading : Reading}
    (h : source.readHeld? = some reading) : reading.source.size < source.size := by
  obtain ⟨⟨line, rest⟩, hsplit, rfl⟩ := Option.map_eq_some_iff.mp h
  have hbytes := append_splitLine? hsplit
  simp only [Reading.source_ofBytes, size, ← hbytes, List.length_append, List.length_cons]
  omega

/-- A line at the end of the stream is all that was held. -/
theorem size_readEnd_lt {broken : Bool} {buffer : List UInt8} {text : List Char}
    (h : (readEnd broken buffer).line = .ok (some text)) :
    (readEnd broken buffer).source.size < buffer.length := by
  unfold readEnd at h ⊢
  split at h
  · simp at h
  · next hbroken =>
    split at h
    · simp at h
    · next hempty =>
      have hheld : buffer ≠ [] := by simpa using hempty
      simpa [hbroken, hempty, size] using List.length_pos_iff.mpr hheld

/-- A line takes at least one byte off its source. -/
theorem size_readFrom_lt {broken : Bool} {buffer : List UInt8} {chunks : List (List UInt8)}
    {text : List Char} (h : (readFrom broken buffer chunks).line = .ok (some text)) :
    (readFrom broken buffer chunks).source.size < size ⟨buffer, chunks, broken⟩ := by
  induction chunks generalizing buffer with
  | nil =>
    rw [readFrom] at h ⊢
    cases hheld : readHeld? ⟨buffer, [], broken⟩ with
    | some reading => exact size_readHeld?_lt hheld
    | none =>
      rw [hheld] at h
      exact size_readEnd_lt h
  | cons chunk chunks ih =>
    rw [readFrom] at h ⊢
    cases hheld : readHeld? ⟨buffer, chunk :: chunks, broken⟩ with
    | some reading => exact size_readHeld?_lt hheld
    | none =>
      rw [hheld, Option.getD_none] at h
      rw [Option.getD_none]
      split at h
      · next hempty =>
        rw [if_pos hempty]
        exact Nat.lt_of_lt_of_le (size_readEnd_lt h) (Nat.le_add_right _ _)
      · next hmore =>
        have hsmaller := ih h
        rw [if_neg hmore]
        simp only [size, List.flatten_cons, List.length_append] at hsmaller ⊢
        simp only [Reading.afterRequest]
        omega

theorem size_readLine_lt {source : Source} {text : List Char}
    (h : source.readLine.line = .ok (some text)) : source.readLine.source.size < source.size :=
  size_readFrom_lt h

end Source
end ChatTint
