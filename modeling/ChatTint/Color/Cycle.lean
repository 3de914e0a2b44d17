import ChatTint.Color.Rgb
import ChatTint.Number.Binary

/-!
# Colours by hue, and the rainbow that moves across the screen

* `Rgb.ofHsb` — the colour of a hue, a saturation and a brightness.
* `Rgb.cycle` — the colour of a place on the screen at a time: the hue goes once
  round the circle in `cyclePeriod` milliseconds, and places further right or
  down lag behind.

The arithmetic is that of doubles, each operation rounded on its own and in the
order written.
-/

namespace ChatTint

/-- The byte nearest to `255 * v`, a half going up, with values outside the range
taken to its ends.  What is not a number gives zero. -/
def channelOfFraction (v : Float) : UInt8 :=
  let scaled := v * 255.0 + 0.5
  let clamped := if scaled < 0.0 then 0.0 else if scaled > 255.0 then 255.0 else scaled
  clamped.toUInt8

namespace Rgb

/-- The colour of a hue, saturation and brightness, each nominally between zero
and one.  The hue is a circle of six sectors, so that only its fraction counts; a
hue just below zero wraps to a full turn by rounding and is taken as none. -/
def ofHsb (hue saturation brightness : Float) : Rgb :=
  if saturation == 0.0 then
    let v := channelOfFraction brightness
    ⟨v, v, v⟩
  else
    let turn := (hue - hue.floor) * 6.0
    let h := if turn >= 6.0 then 0.0 else turn
    let f := h - h.floor
    let p := brightness * (1.0 - saturation)
    let q := brightness * (1.0 - saturation * f)
    let t := brightness * (1.0 - saturation * (1.0 - f))
    let lights (r g b : Float) : Rgb :=
      ⟨channelOfFraction r, channelOfFraction g, channelOfFraction b⟩
    match h.toUInt8.toNat with
    | 0 => lights brightness t p
    | 1 => lights q brightness p
    | 2 => lights p brightness t
    | 3 => lights p q brightness
    | 4 => lights t p brightness
    | _ => lights brightness p q

/-- The length of one turn of the colour circle, in milliseconds. -/
def cyclePeriod : Float := 2000.0

/-- The saturation and the brightness of the moving rainbow. -/
def cycleStrength : Float := 0.8

/-- The colour of the place `(x, y)` at a time: each unit to the right or down lags
by ten milliseconds times `scale`. -/
def cycle (x y scale : Float) (millis : UInt64) : Rgb :=
  let t := millis.toFloat - x * 10.0 * scale - y * 10.0 * scale
  ofHsb (floatRemainder t cyclePeriod / cyclePeriod) cycleStrength cycleStrength

end Rgb
end ChatTint
