import ChatTint.Document.Cells
import ChatTint.Legacy.Writer

/-!
# What text with codes says

Text with codes is a row of items: hex codes, legacy codes and characters.  At
each place a hex code is looked for first, then a legacy code.  Each use of such
text is an account of the items:

* what a terminal is sent for an item (`Item.escape`);
* what is seen of the items (`visible`);
* how the game shows them (`gameCells`), where a colour takes every decoration
  back.

## Main definitions

* `Item`, `items` — the items of a text.
* `Item.escape`, `visible`, `gameCells` — the accounts.
-/

namespace ChatTint

/-- A piece of text with codes. -/
inductive Item where
  /-- A hex code. -/
  | hex (color : Rgb)
  /-- A legacy code. -/
  | code (code : Code)
  /-- A character. -/
  | char (c : Char)
deriving DecidableEq

/-- The items of a text. -/
def items : List Char → List Item
  | [] => []
  | c :: s =>
    match _h : HexCode.read? (c :: s) with
    | some (color, rest) => .hex color :: items rest
    | none =>
      match s with
      | [] => [.char c]
      | d :: rest =>
        if c = sectionSign ∧ isCodeChar d then .code (.ofSymbol d) :: items rest
        else .char c :: items (d :: rest)
termination_by s => s.length
decreasing_by
  · have := HexCode.length_of_read? _h
    simp only [HexCode.size] at this
    omega
  · simp only [List.length_cons]
    omega
  · simp

namespace Item

/-- What a terminal is sent for an item. -/
def escape : Item → List Char
  | hex c => (Rendition.trueColor c).escape
  | code k => k.rendition.escape
  | char c => [c]

/-- The character of an item that is one. -/
def char? : Item → Option Char
  | char c => some c
  | _ => none

/-- The style behind an item, in the reading of the game. -/
def restyle (style : Style) : Item → Style
  | hex c => { color := some (.rgb c) }
  | code (.color c) => { color := some (.palette c) }
  | code (.decoration d) => style.apply (.decoration d)
  | code .reset => {}
  | char _ => style

end Item

/-- The characters among some items. -/
def visible (items : List Item) : List Char := items.filterMap Item.char?

/-- The characters among some items, each with the style in which the game shows it. -/
def gameCells (style : Style) : List Item → List (Cell Style)
  | [] => []
  | item :: rest =>
    match item.char? with
    | some c => (c, style) :: gameCells style rest
    | none => gameCells (item.restyle style) rest

end ChatTint
