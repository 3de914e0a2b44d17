import ChatTint.Color.Basic
import ChatTint.Document.Decoration

/-!
# Documents of styled text

A document is a list of spans, each a run of text in one style.  Text is added
at the end: it joins the last span if the style is the same, so that neighbours
differ in style, and nothing is added for an empty text, so that no span is
empty.

## Main definitions

* `Effect`, `Style` — what one tag does to the look of text, and the look that
  tags add up to.
* `Span`, `Document` — text of one style, and text of many.
* `Document.push` — text added at the end.
* `Document.plainText` — the text with its styles dropped.
-/

namespace ChatTint

/-! ### Styles -/

/-- A change to the look of text. -/
inductive Effect where
  /-- Sets the colour. -/
  | color (color : Color)
  /-- Adds a decoration. -/
  | decoration (decoration : Decoration)
deriving DecidableEq

/-- The look of a run of text. -/
structure Style where
  /-- The colour, if one was chosen. -/
  color : Option Color := none
  /-- The decorations. -/
  decorations : Decorations := {}
deriving DecidableEq

namespace Style

/-- The look of text that no tag surrounds. -/
def plain : Style := {}

/-- Whether neither a colour nor a decoration is set. -/
def isPlain (s : Style) : Bool := s.color.isNone && s.decorations.toList.isEmpty

/-- The look after one more change: a later colour takes the place of an earlier
one, and decorations add up. -/
def apply (s : Style) : Effect → Style
  | .color c => { s with color := some c }
  | .decoration d => { s with decorations := s.decorations.insert d }

end Style

/-! ### Spans and documents -/

/-- A run of text in one style. -/
structure Span where
  /-- The text. -/
  text : List Char
  /-- The style of all of it. -/
  style : Style
deriving DecidableEq

/-- Styled text, as a list of spans. -/
structure Document where
  /-- The spans, in the order of the text. -/
  spans : List Span := []
deriving DecidableEq

namespace Document

/-- The document without text. -/
def empty : Document := {}

/-- Whether the document holds no text. -/
def isEmpty (doc : Document) : Bool := doc.spans.isEmpty

/-- The text of a document, with the styles dropped. -/
def plainText (doc : Document) : List Char := doc.spans.flatMap fun span => span.text

/-- The document with text added at the end, in the last span if the style agrees. -/
def push (doc : Document) (text : List Char) (style : Style) : Document :=
  if text = [] then doc
  else match doc.spans.getLast? with
    | some last =>
      if last.style = style then ⟨doc.spans.dropLast ++ [⟨last.text ++ text, style⟩]⟩
      else ⟨doc.spans ++ [⟨text, style⟩]⟩
    | none => ⟨[⟨text, style⟩]⟩

@[simp] theorem push_nil (doc : Document) (style : Style) : doc.push [] style = doc := rfl

@[simp] theorem plainText_empty : empty.plainText = [] := rfl

/-- Added text comes at the end of the plain text. -/
@[simp] theorem plainText_push (doc : Document) (text : List Char) (style : Style) :
    (doc.push text style).plainText = doc.plainText ++ text := by
  unfold push plainText
  split
  · next h => simp [h]
  · split
    · next last hlast =>
      obtain ⟨init, hinit⟩ := List.getLast?_eq_some_iff.mp hlast
      split <;> simp [hinit]
    · next hnone => simp [List.getLast?_eq_none_iff.mp hnone]

end Document
end ChatTint
