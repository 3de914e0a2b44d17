import ChatTint.Color.Palette

/-!
# The nearest palette colour

Where only the palette can be shown, a colour is replaced by the palette colour
at the least distance, measured as the sum of the squared differences of the
channels.  Of several at the same distance the first in palette order is taken.

* `Rgb.distance` — the squared distance.
* `PaletteColor.nearest` — the palette colour nearest to a given one.
-/

namespace ChatTint

/-- The square of the difference of two channels. -/
def channelDistance (a b : UInt8) : Int := ((a.toNat : Int) - b.toNat) * ((a.toNat : Int) - b.toNat)

/-- The squared distance of two colours. -/
def Rgb.distance (a b : Rgb) : Int :=
  channelDistance a.red b.red + channelDistance a.green b.green + channelDistance a.blue b.blue

namespace PaletteColor

/-- Of two palette colours the one nearer to `target`, the first at a tie. -/
def nearer (target : Rgb) (first second : PaletteColor) : PaletteColor :=
  if target.distance second.rgb < target.distance first.rgb then second else first

/-- The palette colour nearest to `target`, the first of several. -/
def nearest (target : Rgb) : PaletteColor := all.foldl (nearer target) black

end PaletteColor
end ChatTint
