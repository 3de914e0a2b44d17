import ChatTint.Document.Basic
import ChatTint.Markup.Error
import ChatTint.Text.Split

/-!
# What tags mean

A tag text is a name, or a name and an argument with a colon between them.
Names may be written in any case, and several names have short forms.

* `Tag`, `Tag.ofText` — what an opening tag does.  An unknown tag does nothing and
  is not an error.
* `Tag.isKnown` — whether a closing tag is of a name that can be closed.
* `Key`, `Key.ofText`, `Key.fits` — what a tag text comes down to when a closing
  tag looks for the tag it closes.
-/

namespace ChatTint

/-- The name and the argument of a tag text, which a colon separates. -/
def splitArgument (tag : List Char) : List Char × Option (List Char) := cutAt ':' tag

/-- Whether a small name is that of the colour tag, which takes its colour as an
argument. -/
def isColorTagName (name : List Char) : Bool :=
  name == "color".toList || name == "colour".toList || name == "c".toList

/-! ### Opening tags -/

/-- What an opening tag does. -/
inductive Tag where
  /-- Changes the look of the text up to its closing tag. -/
  | effect (effect : Effect)
  /-- Closes all that is open. -/
  | reset
  /-- Ends the line. -/
  | newline
deriving DecidableEq

namespace Tag

/-- The tag of a small name without an argument. -/
def ofName? (name : List Char) : Option Tag :=
  if name = "reset".toList then some reset
  else if name = "br".toList ∨ name = "newline".toList then some newline
  else match Decoration.ofName? name with
    | some d => some (effect (.decoration d))
    | none => (PaletteColor.ofName? name).map fun c => effect (.color (.palette c))

/-- What an opening tag does, or nothing if its tag is unknown.  The colour tag
needs a colour as its argument; a tag that begins with a number sign is a
colour itself and takes no argument. -/
def ofText (tag : List Char) : Except MarkupError (Option Tag) :=
  let (name, argument) := splitArgument tag
  let name := lowercase name
  let colored (color : Option Color) : Except MarkupError (Option Tag) :=
    match color with
    | some c => .ok (some (effect (.color c)))
    | none => .error (.invalidColor tag)
  if isColorTagName name then colored (argument.bind Color.ofText?)
  else if name.head? = some '#' then
    colored (if argument.isSome then none else Color.ofText? name)
  else if argument.isSome then .ok none
  else .ok (ofName? name)

/-! ### Closing tags -/

/-- Whether a closing tag is of a name that opens something to close, whatever its
argument. -/
def isKnown (tag : List Char) : Bool :=
  let name := lowercase (splitArgument tag).1
  isColorTagName name || name.head? == some '#' ||
    (Decoration.ofName? name).isSome || (PaletteColor.ofName? name).isSome

end Tag

/-- A tag text with every choice of spelling taken out of it: names are small, short
names are replaced by full ones, and colours are spelled in one way. -/
structure Key where
  /-- The name. -/
  name : List Char
  /-- The argument, if there is one. -/
  argument : Option (List Char)
deriving DecidableEq

namespace Key

/-- The one spelling of a small name. -/
def spellName (name : List Char) : List Char :=
  if isColorTagName name then "color".toList
  else match Decoration.ofName? name with
    | some d => d.name
    | none => (colorSpelling? name).getD name

/-- The one spelling of an argument. -/
def spellArgument (argument : List Char) : List Char :=
  (colorSpelling? argument).getD (lowercase argument)

/-- The key of a tag text. -/
def ofText (tag : List Char) : Key :=
  let (name, argument) := splitArgument tag
  ⟨spellName (lowercase name), argument.map spellArgument⟩

/-- Whether a closing tag closes an opening one: their keys agree, or the closing tag
is the bare name of the opening one. -/
def fits (close opened : Key) : Bool :=
  opened == close || (close.argument.isNone && opened.name == close.name)

end Key
end ChatTint
