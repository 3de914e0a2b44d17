import ChatTint.Color.Rgb
import ChatTint.Text.Case

/-!
# The sixteen named chat colours

The palette of the game's chat.  Its order is the order of the colour codes
`0` to `f`, which also decides between colours that are equally near to a given
one (`ChatTint.Color.Nearest`).

* `PaletteColor.all` — the palette, in order.
* `PaletteColor.name`, `PaletteColor.ofName?` — the tag name of a colour, and the
  colour of a name.  The two grays have a second spelling.
* `PaletteColor.rgb` — the colour that stands for a name on a screen.
-/

namespace ChatTint

/-- A colour of the chat palette. -/
inductive PaletteColor where
  /-- Code `0`. -/
  | black
  /-- Code `1`. -/
  | darkBlue
  /-- Code `2`. -/
  | darkGreen
  /-- Code `3`. -/
  | darkAqua
  /-- Code `4`. -/
  | darkRed
  /-- Code `5`. -/
  | darkPurple
  /-- Code `6`. -/
  | gold
  /-- Code `7`. -/
  | gray
  /-- Code `8`. -/
  | darkGray
  /-- Code `9`. -/
  | blue
  /-- Code `a`. -/
  | green
  /-- Code `b`. -/
  | aqua
  /-- Code `c`. -/
  | red
  /-- Code `d`. -/
  | lightPurple
  /-- Code `e`. -/
  | yellow
  /-- Code `f`. -/
  | white
deriving DecidableEq

namespace PaletteColor

/-- The palette, in the order of the codes. -/
def all : List PaletteColor :=
  [black, darkBlue, darkGreen, darkAqua, darkRed, darkPurple, gold, gray,
   darkGray, blue, green, aqua, red, lightPurple, yellow, white]

theorem mem_all (c : PaletteColor) : c ∈ all := by cases c <;> decide

/-- The tag name of a colour. -/
def name : PaletteColor → List Char
  | black => "black".toList
  | darkBlue => "dark_blue".toList
  | darkGreen => "dark_green".toList
  | darkAqua => "dark_aqua".toList
  | darkRed => "dark_red".toList
  | darkPurple => "dark_purple".toList
  | gold => "gold".toList
  | gray => "gray".toList
  | darkGray => "dark_gray".toList
  | blue => "blue".toList
  | green => "green".toList
  | aqua => "aqua".toList
  | red => "red".toList
  | lightPurple => "light_purple".toList
  | yellow => "yellow".toList
  | white => "white".toList

/-- The colour of a name in any case.  Each gray may also be spelled with an e. -/
def ofName? (s : List Char) : Option PaletteColor :=
  let s := lowercase s
  if s = "grey".toList then some gray
  else if s = "dark_grey".toList then some darkGray
  else all.find? fun c => c.name == s

/-- A colour's name is read back as that colour. -/
theorem ofName?_name (c : PaletteColor) : ofName? c.name = some c := by cases c <;> decide

/-- The colour that stands for a name on a screen. -/
def rgb : PaletteColor → Rgb
  | black => ⟨0x00, 0x00, 0x00⟩
  | darkBlue => ⟨0x00, 0x00, 0xaa⟩
  | darkGreen => ⟨0x00, 0xaa, 0x00⟩
  | darkAqua => ⟨0x00, 0xaa, 0xaa⟩
  | darkRed => ⟨0xaa, 0x00, 0x00⟩
  | darkPurple => ⟨0xaa, 0x00, 0xaa⟩
  | gold => ⟨0xff, 0xaa, 0x00⟩
  | gray => ⟨0xaa, 0xaa, 0xaa⟩
  | darkGray => ⟨0x55, 0x55, 0x55⟩
  | blue => ⟨0x55, 0x55, 0xff⟩
  | green => ⟨0x55, 0xff, 0x55⟩
  | aqua => ⟨0x55, 0xff, 0xff⟩
  | red => ⟨0xff, 0x55, 0x55⟩
  | lightPurple => ⟨0xff, 0x55, 0xff⟩
  | yellow => ⟨0xff, 0xff, 0x55⟩
  | white => ⟨0xff, 0xff, 0xff⟩

end PaletteColor
end ChatTint
