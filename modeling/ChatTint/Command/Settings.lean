import ChatTint.Compile.Basic
import ChatTint.Terminal.Strip

/-!
# What a command line asks for

* `EscapePolicy` — whether escape sequences are written.
* `Settings` — everything that can be asked for.
* `Settings.text?` — the text given on the command line.
* `Settings.compile`, `Settings.shown` — a line compiled as asked, and what is
  written of it.
-/

namespace ChatTint

/-- Whether escape sequences are written. -/
inductive EscapePolicy where
  /-- If the output is a terminal that shows colours. -/
  | auto
  /-- Always. -/
  | always
  /-- Never: the visible text is written alone. -/
  | never
deriving DecidableEq

namespace EscapePolicy

/-- The policies. -/
def all : List EscapePolicy := [auto, always, never]

/-- The word for a policy on the command line. -/
def name : EscapePolicy → List Char
  | auto => "auto".toList
  | always => "term".toList
  | never => "text".toList

/-- The policy of a word. -/
def ofName? (word : List Char) : Option EscapePolicy := all.find? fun p => p.name == word

/-- The word for a policy is read back as that policy. -/
theorem ofName?_name (p : EscapePolicy) : ofName? p.name = some p := by cases p <;> decide

/-- Whether escape sequences are written to an output that may be a terminal with
colours. -/
def applies (terminalColors : Bool) : EscapePolicy → Bool
  | auto => terminalColors
  | always => true
  | never => false

end EscapePolicy

/-- What a command line asks for. -/
structure Settings where
  /-- The text to compile, word by word; standard input is compiled if there is none. -/
  words : List (List Char) := []
  /-- The range of colours to write. -/
  depth : Depth := .full
  /-- Whether escape sequences are written. -/
  escapes : EscapePolicy := .auto
  /-- Look for legacy codes instead of compiling. -/
  check : Bool := false
  /-- The number of passes allowed for text that is no markup. -/
  maxPasses : Nat := defaultMaxPasses
  /-- Log the decisions of the compiler. -/
  verbose : Bool := false
deriving DecidableEq

namespace Settings

/-- The text on the command line, its words joined by blanks, if there are any. -/
def text? (settings : Settings) : Option (List Char) :=
  if settings.words.isEmpty then none else some (List.intercalate [' '] settings.words)

/-- A line compiled as asked. -/
def compile (settings : Settings) (line : List Char) : Compilation :=
  ChatTint.compile settings.depth settings.maxPasses line

/-- What is written of a compiled line. -/
def shown (escapes : Bool) (compilation : Compilation) : List Char :=
  if escapes then compilation.output else stripEscapes compilation.output

/-- The events that are logged. -/
def logged (settings : Settings) (events : List Event) : List Event :=
  events.filter fun event => event.level.shown settings.verbose

end Settings
end ChatTint
