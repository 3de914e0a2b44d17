import ChatTint.Legacy.Writer
import ChatTint.Markup.Error

/-!
# What the compiler and the command report

Each step that a user may want to follow is an event.  Events have a level, by
which a reader of the log asks for more or fewer of them.

* `Level`, `Level.shown` — the levels, and which of them a log holds.
* `Event`, `Event.level`, `Event.message` — the events.
* `Event.line` — an event as a line of the log.
-/

namespace ChatTint

/-- How much an event matters. -/
inductive Level where
  /-- A step that is taken for every text. -/
  | trace
  /-- A decision. -/
  | debug
  /-- Something that the user should know. -/
  | warn
deriving DecidableEq

namespace Level

/-- Whether events of a level are written to the log. -/
def shown (verbose : Bool) : Level → Bool
  | trace => false
  | debug => verbose
  | warn => true

/-- The name of a level. -/
def name : Level → String
  | trace => "TRACE"
  | debug => "DEBUG"
  | warn => "WARN"

end Level

/-- Something that happened. -/
inductive Event where
  /-- A text was no markup and was taken as it is. -/
  | rejected (error : MarkupError)
  /-- A pass ended.  `size` counts the bytes of the text it made. -/
  | passComplete (pass : Nat) (retry : Bool) (size : Nat)
  /-- No further pass was allowed. -/
  | ceilingReached (passes : Nat)
  /-- A further pass changed nothing. -/
  | noProgress (passes : Nat)
  /-- The input was searched for legacy codes. -/
  | checked (found : Bool)
  /-- Compiling began. -/
  | compiling (depth : Depth) (escapes : Bool)
deriving DecidableEq

namespace Event

/-- The level of an event. -/
def level : Event → Level
  | rejected _ => .debug
  | passComplete _ _ _ => .trace
  | ceilingReached _ => .warn
  | noProgress _ => .debug
  | checked _ => .debug
  | compiling _ _ => .debug

/-- What happened, in words. -/
def message : Event → String
  | rejected _ => "markup parse failed, passing text through"
  | passComplete _ _ _ => "pass complete"
  | ceilingReached _ => "pass ceiling reached, giving up on markup"
  | noProgress _ => "retry made no progress, stopping"
  | checked _ => "checked for legacy codes"
  | compiling _ _ => "compiling"

/-- What an event is about, in words. -/
def details : Event → String
  | rejected e => e.message
  | passComplete pass _ size => "pass " ++ toString pass ++ ", " ++ toString size ++ " bytes"
  | ceilingReached passes => toString passes ++ " passes"
  | noProgress passes => toString passes ++ " passes"
  | checked found => if found then "found" else "not found"
  | compiling depth escapes =>
    depth.name ++ (if escapes then " mode, escapes written" else " mode, escapes stripped")

/-- An event as a line of the log. -/
def line (e : Event) : String := e.level.name ++ " " ++ e.message ++ ": " ++ e.details

end Event
end ChatTint
