import ChatTint.Compile.Event
import ChatTint.Legacy.Render
import ChatTint.Markup.Parser
import ChatTint.Text.Utf8

/-!
# One pass of the compiler

A pass reads a text as markup, writes the document with codes in it, and renders
the codes.  A text that is no markup is rendered as it is, so that its codes are
shown at least, and asks for another pass.

* `Lowered`, `lower` — a text with its markup written as codes.
* `Pass`, `runPass` — the result of a pass.
-/

namespace ChatTint

/-- A text with its markup written as codes. -/
structure Lowered where
  /-- The text with codes. -/
  text : List Char
  /-- Why the text is no markup and was left as it is, if so. -/
  error : Option MarkupError
deriving DecidableEq

/-- Whether another pass is asked for. -/
def Lowered.retry (l : Lowered) : Bool := l.error.isSome

/-- A text with its markup written as codes, or as it is if it is no markup. -/
def lower (depth : Depth) (text : List Char) : Lowered :=
  match parse text with
  | .ok doc => ⟨doc.toCodes depth, none⟩
  | .error e => ⟨text, some e⟩

/-- The result of one pass. -/
structure Pass where
  /-- The text with its codes rendered. -/
  text : List Char
  /-- Why the text is no markup, if it is none. -/
  error : Option MarkupError
deriving DecidableEq

/-- One pass over a text. -/
def runPass (depth : Depth) (text : List Char) : Pass :=
  let lowered := lower depth text
  ⟨render lowered.text, lowered.error⟩

/-- What pass number `number` reports. -/
def Pass.events (pass : Pass) (number : Nat) : List Event :=
  let complete := Event.passComplete number pass.error.isSome (utf8Size pass.text)
  match pass.error with
  | some e => [.rejected e, complete]
  | none => [complete]

end ChatTint
