import ChatTint.Color.Palette

/-!
# The colour of a piece of text

A tag names its colour either from the palette or by hexadecimal digits behind
a number sign.  The two kinds stay apart, since a palette colour has a code of
its own while any other needs six digits: `gold` and `#ffaa00` look alike and
are different colours of text.

* `Color.ofText?` — the colour that a tag argument spells.
* `Color.name` — the one spelling to which all others of a colour are reduced.
* `colorSpelling?` — that spelling of a text, if the text names a colour.
-/

namespace ChatTint

/-- The colour of a piece of text. -/
inductive Color where
  /-- A colour of the palette. -/
  | palette (color : PaletteColor)
  /-- A colour given by its three channels. -/
  | rgb (color : Rgb)
deriving DecidableEq

namespace Color

/-- The colour that a text spells: digits behind a number sign, or else a name. -/
def ofText? : List Char → Option Color
  | '#' :: digits => (Rgb.ofDigits? digits).map rgb
  | s => (PaletteColor.ofName? s).map palette

/-- The spelling of a colour: the palette name, or six small digits. -/
def name : Color → List Char
  | palette c => c.name
  | rgb c => c.text

/-- The colour on a screen. -/
def toRgb : Color → Rgb
  | palette c => c.rgb
  | rgb c => c

end Color

/-- The one spelling of a text that names a colour. -/
def colorSpelling? (s : List Char) : Option (List Char) := (Color.ofText? s).map Color.name

end ChatTint
