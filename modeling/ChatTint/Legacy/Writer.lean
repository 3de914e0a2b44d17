import ChatTint.Document.Basic
import ChatTint.Legacy.HexCode

/-!
# Documents as text with codes

A document is written as its text with codes in it.  Codes stand only where the
style changes.  In the reading that the game gives to codes a colour takes every
decoration back, and the reset takes back all; so

* where a colour or a decoration ends, the reset comes first and the whole new
  style follows;
* where the colour changes, the whole new style is written, the colour in front;
* where decorations only begin, they alone are written.

Nothing is taken back at the end.

* `Depth` — whether colours outside the palette may be written.
* `switchStyle` — the codes between two styles.
* `Document.toCodes` — the text of a document with its codes.
-/

namespace ChatTint

/-- The range of colours in the output. -/
inductive Depth where
  /-- All colours: those outside the palette are written as hex codes. -/
  | full
  /-- The sixteen colours of the palette, the nearest of them for any other. -/
  | palette
deriving DecidableEq

/-- The word for a range of colours in the log. -/
def Depth.name : Depth → String
  | .full => "Modern"
  | .palette => "Legacy"

/-- The text that sets a colour. -/
def Color.toCodes (depth : Depth) : Color → List Char
  | .palette c => (Code.color c).text
  | .rgb c =>
    match depth with
    | .full => HexCode.ofRgb c
    | .palette => (Code.nearest c).text

/-- The codes that add decorations. -/
def decorationCodes (ds : List Decoration) : List Char :=
  ds.flatMap fun d => (Code.decoration d).text

namespace Style

/-- The codes that set a style on plain text: the colour, then the decorations. -/
def toCodes (depth : Depth) (s : Style) : List Char :=
  (match s.color with
    | some c => c.toCodes depth
    | none => []) ++ decorationCodes s.decorations.toList

/-- Whether a colour or a decoration ends between two styles. -/
def endsBefore (current next : Style) : Bool :=
  current.decorations.toList.any (fun d => !next.decorations.has d) ||
    (current.color.isSome && next.color.isNone)

end Style

/-- The codes between text of one style and text of the next. -/
def switchStyle (depth : Depth) (current next : Style) : List Char :=
  if next = current then []
  else if current.endsBefore next then Code.reset.text ++ next.toCodes depth
  else if next.color ≠ current.color then next.toCodes depth
  else decorationCodes (next.decorations.toList.filter fun d => !current.decorations.has d)

/-- The text of spans that follow on text of a style, with the codes between them. -/
def spansToCodes (depth : Depth) (current : Style) : List Span → List Char
  | [] => []
  | span :: spans =>
    switchStyle depth current span.style ++ span.text ++ spansToCodes depth span.style spans

/-- The text of a document with its codes. -/
def Document.toCodes (depth : Depth) (doc : Document) : List Char :=
  spansToCodes depth .plain doc.spans

end ChatTint
