import ChatTint.Markup.Tag
import ChatTint.Markup.Token

/-!
# From markup to documents

The parser reads token after token.  It keeps the document written so far and
the tags that are open, the innermost first.  Text is written in the style that
the open tags add up to.  A closing tag closes the innermost tag that it fits,
and with it every tag opened inside; what is open at the end is closed there.

## Main definitions

* `OpenTag`, `Parser` — a tag that is open, and the state between two tokens.
* `Parser.style` — the style of text written in a state.
* `Parser.read` — the state after one more token.
* `parse` — the document of a text.
-/

namespace ChatTint

/-- A tag that is open. -/
structure OpenTag where
  /-- What a closing tag has to fit. -/
  key : Key
  /-- What the tag does to text. -/
  effect : Effect
deriving DecidableEq

/-- The state of a parse between two tokens. -/
structure Parser where
  /-- The tags that are open, the innermost first. -/
  opened : List OpenTag := []
  /-- What has been written. -/
  document : Document := {}
deriving DecidableEq

/-- The tags that stay open when a closing tag closes the innermost one it fits;
nothing if it fits none. -/
def closeInnermost? (close : Key) : List OpenTag → Option (List OpenTag)
  | [] => none
  | tag :: outer => if close.fits tag.key then some outer else closeInnermost? close outer

namespace Parser

/-- The state before the first token. -/
def start : Parser := {}

/-- The style that the open tags add up to, each applied inside the ones around it. -/
def style (p : Parser) : Style := p.opened.foldr (fun tag style => style.apply tag.effect) {}

/-- The state after writing a text. -/
def write (p : Parser) (text : List Char) : Parser :=
  { p with document := p.document.push text p.style }

/-- The state after an opening tag.  An unknown tag is written as text. -/
def onOpen (p : Parser) (tag : List Char) : Except MarkupError Parser :=
  match Tag.ofText tag with
  | .error e => .error e
  | .ok none => .ok (p.write (Token.openTag tag).source)
  | .ok (some (.effect e)) => .ok { p with opened := ⟨Key.ofText tag, e⟩ :: p.opened }
  | .ok (some .reset) => .ok { p with opened := [] }
  | .ok (some .newline) => .ok (p.write ['\n'])

/-- The state after a closing tag.  One that fits no open tag is written as text if
its name is unknown, and an error otherwise. -/
def onClose (p : Parser) (tag : List Char) : Except MarkupError Parser :=
  match closeInnermost? (Key.ofText tag) p.opened with
  | some outer => .ok { p with opened := outer }
  | none =>
    if Tag.isKnown tag then .error (.unmatchedClose tag)
    else .ok (p.write (Token.closeTag tag).source)

/-- The state after one more token. -/
def read (p : Parser) : Token → Except MarkupError Parser
  | .text text => .ok (p.write text)
  | .escapedBracket => .ok (p.write ['<'])
  | .badTag content => .ok (p.write (Token.badTag content).source)
  | .openTag tag => p.onOpen tag
  | .closeTag tag => p.onClose tag

/-- The state after several tokens. -/
def readAll (p : Parser) (tokens : List Token) : Except MarkupError Parser :=
  tokens.foldlM read p

end Parser

/-- The document of a text, or the reason for which it has none. -/
def parse (text : List Char) : Except MarkupError Document :=
  (Parser.start.readAll (tokenize text)).map Parser.document

end ChatTint
