import ChatTint.Color.Rgb

/-!
# Renditions and their escape sequences

A terminal is told how to show the text that follows by a sequence that starts
with the escape character, an opening bracket and one or more decimal numbers,
and ends with the letter m.  Only foreground colours, five styles and the reset
are ever written here.

* `TerminalColor`, `Rendition` — the colours and styles that are asked for.
* `Rendition.parameters` — the numbers of a sequence.
* `Rendition.escape` — the sequence.
* `Rgb.paint` — text in one colour, with a reset behind it.
-/

namespace ChatTint

/-- A colour of the terminal's own palette. -/
inductive TerminalColor where
  /-- Number 30. -/
  | black
  /-- Number 31. -/
  | red
  /-- Number 32. -/
  | green
  /-- Number 33. -/
  | yellow
  /-- Number 34. -/
  | blue
  /-- Number 35. -/
  | magenta
  /-- Number 36. -/
  | cyan
  /-- Number 37. -/
  | white
  /-- Number 90. -/
  | brightBlack
  /-- Number 91. -/
  | brightRed
  /-- Number 92. -/
  | brightGreen
  /-- Number 93. -/
  | brightYellow
  /-- Number 94. -/
  | brightBlue
  /-- Number 95. -/
  | brightMagenta
  /-- Number 96. -/
  | brightCyan
  /-- Number 97. -/
  | brightWhite
deriving DecidableEq

namespace TerminalColor

/-- The terminal's palette, in the order of its numbers. -/
def all : List TerminalColor :=
  [black, red, green, yellow, blue, magenta, cyan, white, brightBlack, brightRed,
   brightGreen, brightYellow, brightBlue, brightMagenta, brightCyan, brightWhite]

/-- The number that selects a colour as the foreground. -/
def number : TerminalColor → Nat
  | black => 30
  | red => 31
  | green => 32
  | yellow => 33
  | blue => 34
  | magenta => 35
  | cyan => 36
  | white => 37
  | brightBlack => 90
  | brightRed => 91
  | brightGreen => 92
  | brightYellow => 93
  | brightBlue => 94
  | brightMagenta => 95
  | brightCyan => 96
  | brightWhite => 97

end TerminalColor

/-- What one escape sequence asks of a terminal. -/
inductive Rendition where
  /-- A foreground colour of the terminal's palette. -/
  | foreground (color : TerminalColor)
  /-- A foreground colour given by its channels. -/
  | trueColor (color : Rgb)
  /-- Heavy letters. -/
  | bold
  /-- Slanted letters. -/
  | italic
  /-- A line under the letters. -/
  | underline
  /-- A line through the letters. -/
  | strikethrough
  /-- Foreground and background exchanged. -/
  | reverse
  /-- Colour and styles taken back. -/
  | reset
deriving DecidableEq

/-- The character that starts an escape sequence. -/
def escapeChar : Char := '\x1b'

/-- The decimal digits of a number. -/
def decimal (n : Nat) : List Char := Nat.toDigits 10 n

namespace Rendition

/-- The numbers of a rendition's sequence, with semicolons between them. -/
def parameters : Rendition → List Char
  | foreground c => decimal c.number
  | trueColor c =>
    "38;2;".toList ++ decimal c.red.toNat ++ ';' :: (decimal c.green.toNat ++
      ';' :: decimal c.blue.toNat)
  | bold => ['1']
  | italic => ['3']
  | underline => ['4']
  | reverse => ['7']
  | strikethrough => ['9']
  | reset => ['0']

/-- The escape sequence of a rendition. -/
def escape (r : Rendition) : List Char := escapeChar :: '[' :: (r.parameters ++ ['m'])

end Rendition

/-- The sequence that takes colour and styles back. -/
def resetSequence : List Char := Rendition.reset.escape

/-- Text in one colour, with a reset behind it. -/
def Rgb.paint (c : Rgb) (text : List Char) : List Char :=
  (Rendition.trueColor c).escape ++ text ++ resetSequence

end ChatTint
