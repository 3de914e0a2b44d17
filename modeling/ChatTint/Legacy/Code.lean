import ChatTint.Document.Decoration
import ChatTint.Color.Nearest
import ChatTint.Terminal.Rendition

/-!
# Legacy codes

A legacy code is the section sign and one character that identifies the code.
There is a code for each palette colour (`0` to `9` and `a` to `f`), for each
decoration (`k` to `o`), and one that takes everything back (`r`).  Letters may
be of either case.

## Main definitions

* `Code` — the codes.
* `Code.symbol`, `Code.text` — the character of a code, and its text.
* `Code.isColor` — the codes of colours.
* `Code.ofSymbol` — the code of a character; what is no other code is the reset.
* `isCodeChar` — the characters that make a code behind a section sign.
* `Code.rendition` — how a terminal shows a code.
-/

namespace ChatTint

/-- The section sign, which introduces a code. -/
def sectionSign : Char := '§'

/-- A legacy code. -/
inductive Code where
  /-- Sets a palette colour. -/
  | color (color : PaletteColor)
  /-- Adds a decoration. -/
  | decoration (decoration : Decoration)
  /-- Takes colour and decorations back. -/
  | reset
deriving DecidableEq

namespace Code

/-- The codes that set or add something: the colours, then the decorations. -/
def all : List Code := PaletteColor.all.map color ++ Decoration.all.map decoration

/-- The character that identifies a code, small if it is a letter. -/
def symbol : Code → Char
  | color .black => '0'
  | color .darkBlue => '1'
  | color .darkGreen => '2'
  | color .darkAqua => '3'
  | color .darkRed => '4'
  | color .darkPurple => '5'
  | color .gold => '6'
  | color .gray => '7'
  | color .darkGray => '8'
  | color .blue => '9'
  | color .green => 'a'
  | color .aqua => 'b'
  | color .red => 'c'
  | color .lightPurple => 'd'
  | color .yellow => 'e'
  | color .white => 'f'
  | decoration .obfuscated => 'k'
  | decoration .bold => 'l'
  | decoration .strikethrough => 'm'
  | decoration .underlined => 'n'
  | decoration .italic => 'o'
  | reset => 'r'

/-- The text of a code. -/
def text (code : Code) : List Char := [sectionSign, code.symbol]

/-- The code of a character of either case.  Every character that identifies no
colour and no decoration stands for the reset. -/
def ofSymbol (c : Char) : Code := (all.find? fun code => code.symbol == c.toLower).getD reset

/-- A code's character is read back as that code. -/
theorem ofSymbol_symbol (code : Code) : ofSymbol code.symbol = code := by
  cases code with
  | color c => cases c <;> decide
  | decoration d => cases d <;> decide
  | reset => decide

/-- Whether a code sets a colour, as its character tells. -/
def isColor (code : Code) : Bool :=
  ('0' ≤ code.symbol && code.symbol ≤ '9') || ('a' ≤ code.symbol && code.symbol ≤ 'f')

/-- The characters of colours are those of palette colours, and of no other code. -/
theorem isColor_iff {code : Code} : code.isColor = true ↔ ∃ c, code = color c := by
  constructor
  · intro h
    cases code with
    | color c => exact ⟨c, rfl⟩
    | decoration d => cases d <;> exact absurd h (by decide)
    | reset => exact absurd h (by decide)
  · rintro ⟨c, rfl⟩
    cases c <;> decide

/-- The terminal's colour for a palette colour, after the custom of server
consoles: both grays are bright black, both purples are magenta, and white is
the plain white. -/
def terminalColor : PaletteColor → TerminalColor
  | .black => .black
  | .darkBlue => .blue
  | .darkGreen => .green
  | .darkAqua => .cyan
  | .darkRed => .red
  | .darkPurple => .magenta
  | .gold => .yellow
  | .gray => .brightBlack
  | .darkGray => .brightBlack
  | .blue => .brightBlue
  | .green => .brightGreen
  | .aqua => .brightCyan
  | .red => .brightRed
  | .lightPurple => .magenta
  | .yellow => .brightYellow
  | .white => .white

/-- The rendition by which a terminal shows a code.  Unreadable text is shown in
reverse. -/
def rendition : Code → Rendition
  | color c => .foreground (terminalColor c)
  | decoration .obfuscated => .reverse
  | decoration .bold => .bold
  | decoration .strikethrough => .strikethrough
  | decoration .underlined => .underline
  | decoration .italic => .italic
  | reset => .reset

/-- The code of the palette colour nearest to a colour. -/
def nearest (c : Rgb) : Code := color (PaletteColor.nearest c)

end Code

/-! ### Characters that make a code -/

/-- Whether a character makes a code behind a section sign: `0` to `9`, `a` to `f`,
`k` to `o` and `r`, in either case. -/
def isCodeChar (c : Char) : Bool :=
  let l := c.toLower
  ('0' ≤ l && l ≤ '9') || ('a' ≤ l && l ≤ 'f') || ('k' ≤ l && l ≤ 'o') || l == 'r'

theorem isCodeChar_symbol (code : Code) : isCodeChar code.symbol = true := by
  cases code with
  | color c => cases c <;> decide
  | decoration d => cases d <;> decide
  | reset => decide

end ChatTint
