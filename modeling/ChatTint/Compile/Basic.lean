import ChatTint.Compile.Pass

/-!
# The compiler

Text with markup and codes becomes text with escape sequences.  A text that is
no markup gets further passes, up to a ceiling, until one leaves it unchanged.
Every pass leaves one reset at the end.

* `Compilation` — the result, with the number of passes and the events.
* `runPasses` — passes until one accepts its text or no further one helps.
* `compile` — the compiler.
-/

namespace ChatTint

/-- The number of passes allowed unless another is asked for. -/
def defaultMaxPasses : Nat := 8

/-- The result of compiling a text. -/
structure Compilation where
  /-- The text that the last pass made. -/
  text : List Char
  /-- The number of passes. -/
  passes : Nat
  /-- What was reported, in order. -/
  events : List Event
deriving DecidableEq

namespace Compilation

/-- The text with one reset behind it for each pass. -/
def output (c : Compilation) : List Char :=
  c.text ++ (List.replicate c.passes resetSequence).flatten

/-- The result with events in front. -/
def withEvents (events : List Event) (c : Compilation) : Compilation :=
  { c with events := events ++ c.events }

end Compilation

/-- Runs pass number `number` over a text, and `further` more at most.  It stops when
a pass accepts its text, when no pass is left, or when a pass behind the first
leaves the text unchanged. -/
def runPasses (depth : Depth) (further : Nat) (number : Nat) (text : List Char) : Compilation :=
  let pass := runPass depth text
  let events := pass.events number
  if pass.error.isNone then ⟨pass.text, number, events⟩
  else match further with
    | 0 => ⟨pass.text, number, events ++ [.ceilingReached number]⟩
    | further + 1 =>
      if 1 < number ∧ pass.text = text then ⟨pass.text, number, events ++ [.noProgress number]⟩
      else (runPasses depth further (number + 1) pass.text).withEvents events

/-- Compiles a text in at most `maxPasses` passes, and in one if none is allowed. -/
def compile (depth : Depth) (maxPasses : Nat) (text : List Char) : Compilation :=
  runPasses depth (maxPasses - 1) 1 text

end ChatTint
