import ChatTint.Legacy.Code
import Mathlib.Data.Int.ConditionallyCompleteOrder
import Mathlib.Data.List.Induction
import Mathlib.Data.List.MinMax
import Mathlib.Tactic.Linarith

/-!
# The nearest palette colour is the first of the least distance

The search goes through the palette once and changes its mind only for a colour that is
strictly nearer, so that of several at the least distance it keeps the first.  The distance
of a colour to itself is zero and to every other one positive; hence a palette colour is the
nearest one to itself.

A machine does the search in signed words of 32 bits, with a best distance that begins at the
largest word.  No result leaves the words, and the first colour is nearer than that, so the
search comes to the same colour.

## Main definitions

* `inWord?` — a number that fits a word.
* `Rgb.distanceInWords?`, `PaletteColor.nearestInWords?` — the distance and the search where
  each result has to fit.

## Main results

* `Rgb.distance_eq_zero_iff` — only a colour itself is at distance zero.
* `PaletteColor.argmin_eq_nearest` — the search is a least argument over the palette.
* `PaletteColor.nearestInWords?_eq` — words are wide enough for the search.
* `nearest_is_first_of_least` — the result of the search, for every colour.
-/

namespace ChatTint

/-! ### Distances -/

theorem channelDistance_nonneg (a b : UInt8) : 0 ≤ channelDistance a b := mul_self_nonneg _

/-- Channels are a byte each, so their difference is one of 255 at the most. -/
theorem channelDifference_bounds (a b : UInt8) :
    -255 ≤ (a.toNat : Int) - b.toNat ∧ (a.toNat : Int) - b.toNat ≤ 255 := by
  have ha : a.toNat < 256 := a.toNat_lt
  have hb : b.toNat < 256 := b.toNat_lt
  omega

theorem channelDistance_le (a b : UInt8) : channelDistance a b ≤ 65025 := by
  obtain ⟨hlow, hhigh⟩ := channelDifference_bounds a b
  unfold channelDistance
  nlinarith

theorem channelDistance_eq_zero_iff {a b : UInt8} : channelDistance a b = 0 ↔ a = b := by
  rw [channelDistance, mul_self_eq_zero, sub_eq_zero, Int.natCast_inj, UInt8.toNat_inj]

namespace Rgb

theorem distance_nonneg (a b : Rgb) : 0 ≤ a.distance b :=
  add_nonneg (add_nonneg (channelDistance_nonneg _ _) (channelDistance_nonneg _ _))
    (channelDistance_nonneg _ _)

theorem distance_le (a b : Rgb) : a.distance b ≤ 195075 := by
  have hred := channelDistance_le a.red b.red
  have hgreen := channelDistance_le a.green b.green
  have hblue := channelDistance_le a.blue b.blue
  unfold distance
  omega

/-- **Only a colour itself is at distance zero.** -/
theorem distance_eq_zero_iff {a b : Rgb} : a.distance b = 0 ↔ a = b := by
  have hred := channelDistance_nonneg a.red b.red
  have hgreen := channelDistance_nonneg a.green b.green
  have hblue := channelDistance_nonneg a.blue b.blue
  rw [distance, add_eq_zero_iff_of_nonneg (add_nonneg hred hgreen) hblue,
    add_eq_zero_iff_of_nonneg hred hgreen, channelDistance_eq_zero_iff,
    channelDistance_eq_zero_iff, channelDistance_eq_zero_iff, and_assoc, mk.injEq]

end Rgb

/-! ### The search -/

namespace PaletteColor

/-- No two colours of the palette look the same on a screen. -/
theorem rgb_injective {c d : PaletteColor} (h : c.rgb = d.rgb) : c = d := by
  revert h
  cases c <;> cases d <;> decide

/-- A search that begins with some colour finds the first of the least distance among that
colour and those that it goes through. -/
theorem argmin_eq_foldl (target : Rgb) (first : PaletteColor) (colors : List PaletteColor) :
    (first :: colors).argmin (fun c => target.distance c.rgb) =
      some (colors.foldl (nearer target) first) := by
  induction colors using List.reverseRecOn with
  | nil => rfl
  | append_singleton colors c ih =>
    rw [← List.cons_append, List.argmin_concat, ih, List.foldl_append, List.foldl_cons,
      List.foldl_nil, nearer]
    exact (apply_ite some _ _ _).symm

theorem all_eq_cons : all = black :: all.tail := rfl

/-- The search may leave out the colour that it begins with, which is no nearer than itself. -/
theorem nearest_eq_foldl (target : Rgb) :
    nearest target = all.tail.foldl (nearer target) black := by
  have hblack : nearer target black black = black := if_neg (lt_irrefl _)
  rw [nearest, all_eq_cons, List.foldl_cons, hblack, List.tail_cons]

/-- **The search is a least argument over the palette.** -/
theorem argmin_eq_nearest (target : Rgb) :
    all.argmin (fun c => target.distance c.rgb) = some (nearest target) := by
  rw [nearest_eq_foldl, ← argmin_eq_foldl, ← all_eq_cons]

theorem distance_nearest_le (target : Rgb) (c : PaletteColor) :
    target.distance (nearest target).rgb ≤ target.distance c.rgb :=
  (List.argmin_eq_some_iff.mp (argmin_eq_nearest target)).2.1 c (mem_all c)

/-- A palette colour is the nearest one to itself. -/
theorem nearest_rgb (c : PaletteColor) : nearest c.rgb = c := by
  have hself : c.rgb.distance c.rgb = 0 := Rgb.distance_eq_zero_iff.mpr rfl
  have hle : c.rgb.distance (nearest c.rgb).rgb ≤ 0 := hself ▸ distance_nearest_le c.rgb c
  have hzero : c.rgb.distance (nearest c.rgb).rgb = 0 := le_antisymm hle (Rgb.distance_nonneg _ _)
  exact (rgb_injective (Rgb.distance_eq_zero_iff.mp hzero)).symm

end PaletteColor

/-! ### The search in words of a machine -/

/-- A number, if a signed word of 32 bits holds it. -/
def inWord? (n : Int) : Option Int := if -2 ^ 31 ≤ n ∧ n < 2 ^ 31 then some n else none

/-- The largest signed word. -/
def largestWord : Int := 2 ^ 31 - 1

theorem inWord?_of_bounds {n : Int} (hlow : -2 ^ 31 ≤ n) (hhigh : n < 2 ^ 31) :
    inWord? n = some n := if_pos ⟨hlow, hhigh⟩

/-- The square of the difference of two channels, if the difference and the square fit. -/
def channelDistanceInWords? (a b : UInt8) : Option Int := do
  let difference ← inWord? ((a.toNat : Int) - b.toNat)
  inWord? (difference * difference)

/-- The squared distance of two colours, if each result on the way to it fits. -/
def Rgb.distanceInWords? (a b : Rgb) : Option Int := do
  let red ← channelDistanceInWords? a.red b.red
  let green ← channelDistanceInWords? a.green b.green
  let blue ← channelDistanceInWords? a.blue b.blue
  let sum ← inWord? (red + green)
  inWord? (sum + blue)

namespace PaletteColor

/-- The nearer of the best colour so far, of which the distance is known, and another one. -/
def nearerInWords? (target : Rgb) (best : PaletteColor × Int) (c : PaletteColor) :
    Option (PaletteColor × Int) := do
  let distance ← target.distanceInWords? c.rgb
  return if distance < best.2 then (c, distance) else best

/-- The colour that the search comes to, if each result on the way fits.  Until a colour has
been looked at, the best distance is the largest word. -/
def nearestInWords? (target : Rgb) : Option PaletteColor :=
  (all.foldlM (nearerInWords? target) (black, largestWord)).map Prod.fst

end PaletteColor

theorem channelDistanceInWords?_eq (a b : UInt8) :
    channelDistanceInWords? a b = some (channelDistance a b) := by
  obtain ⟨hlow, hhigh⟩ := channelDifference_bounds a b
  have hnonneg := channelDistance_nonneg a b
  have hle := channelDistance_le a b
  rw [channelDistanceInWords?, inWord?_of_bounds (by omega) (by omega), Option.bind_eq_bind,
    Option.bind_some]
  exact inWord?_of_bounds (n := channelDistance a b) (by omega) (by omega)

/-- **No result on the way to a distance leaves the words.** -/
theorem Rgb.distanceInWords?_eq (a b : Rgb) : a.distanceInWords? b = some (a.distance b) := by
  have hred := channelDistance_le a.red b.red
  have hred' := channelDistance_nonneg a.red b.red
  have hgreen := channelDistance_le a.green b.green
  have hgreen' := channelDistance_nonneg a.green b.green
  have hblue := channelDistance_le a.blue b.blue
  have hblue' := channelDistance_nonneg a.blue b.blue
  have hsum : inWord? (channelDistance a.red b.red + channelDistance a.green b.green) =
      some (channelDistance a.red b.red + channelDistance a.green b.green) :=
    inWord?_of_bounds (by omega) (by omega)
  simp only [distanceInWords?, channelDistanceInWords?_eq, Option.bind_eq_bind, Option.bind_some,
    hsum]
  exact inWord?_of_bounds (by omega) (by omega)

namespace PaletteColor

theorem nearerInWords?_eq (target : Rgb) (best c : PaletteColor) :
    nearerInWords? target (best, target.distance best.rgb) c =
      some (nearer target best c, target.distance (nearer target best c).rgb) := by
  rw [nearerInWords?, Rgb.distanceInWords?_eq, nearer]
  by_cases h : target.distance c.rgb < target.distance best.rgb
  · simp [h]
  · simp [h]

/-- A search in words that has looked at a colour goes as the search. -/
theorem foldlM_nearerInWords?_eq (target : Rgb) (colors : List PaletteColor) (best : PaletteColor) :
    colors.foldlM (nearerInWords? target) (best, target.distance best.rgb) =
      some (colors.foldl (nearer target) best,
        target.distance (colors.foldl (nearer target) best).rgb) := by
  induction colors generalizing best with
  | nil => rfl
  | cons c colors ih =>
    rw [List.foldlM_cons, nearerInWords?_eq, Option.bind_eq_bind, Option.bind_some, ih]
    rfl

/-- **Words are wide enough for the search**, and the distance that it begins with is none. -/
theorem nearestInWords?_eq (target : Rgb) : nearestInWords? target = some (nearest target) := by
  -- every colour is nearer than the largest word
  have hlt : target.distance black.rgb < largestWord :=
    (Rgb.distance_le _ _).trans_lt (by decide)
  have hfirst : nearerInWords? target (black, largestWord) black =
      some (black, target.distance black.rgb) := by
    rw [nearerInWords?, Rgb.distanceInWords?_eq]
    simp [hlt]
  rw [nearestInWords?, nearest_eq_foldl, all_eq_cons, List.foldlM_cons, hfirst, Option.bind_eq_bind,
    Option.bind_some, foldlM_nearerInWords?_eq, Option.map_some, List.tail_cons]

end PaletteColor

/-! ### The result -/

/-- **The nearest palette colour is the first of the least distance.**  No palette colour is
nearer to the colour that is looked for, and every one before it in the palette is further
away.  So a palette colour is nearest to itself, and the code of a nearest colour is always
that of a colour.  Nothing on the way leaves the words of 32 bits: in them the distances are
the same, and so is the colour that the search comes to. -/
theorem nearest_is_first_of_least (target : Rgb) :
    (∀ c : PaletteColor,
      target.distance (PaletteColor.nearest target).rgb ≤ target.distance c.rgb) ∧
    (∀ c, PaletteColor.all.idxOf c < PaletteColor.all.idxOf (PaletteColor.nearest target) →
      target.distance (PaletteColor.nearest target).rgb < target.distance c.rgb) ∧
    (∀ c, PaletteColor.nearest (PaletteColor.rgb c) = c) ∧
    (Code.nearest target).isColor = true ∧
    (∀ c : PaletteColor, target.distanceInWords? c.rgb = some (target.distance c.rgb)) ∧
    PaletteColor.nearestInWords? target = some (PaletteColor.nearest target) := by
  refine ⟨PaletteColor.distance_nearest_le target, ?_, PaletteColor.nearest_rgb,
    Code.isColor_iff.mpr ⟨_, rfl⟩, fun c => target.distanceInWords?_eq c.rgb,
    PaletteColor.nearestInWords?_eq target⟩
  intro c hbefore
  -- a colour at the same distance would stand behind the nearest one
  by_contra hle
  have hbehind := (List.argmin_eq_some_iff.mp (PaletteColor.argmin_eq_nearest target)).2.2 c
    (PaletteColor.mem_all c) (not_lt.mp hle)
  exact absurd hbefore (not_lt.mpr hbehind)

theorem nearest_between_darkGreen_and_darkAqua :
    let target : Rgb := ⟨0, 170, 85⟩
    PaletteColor.nearest target = .darkGreen ∧
    target.distance PaletteColor.darkAqua.rgb = target.distance PaletteColor.darkGreen.rgb ∧
    PaletteColor.all.idxOf .darkBlue < PaletteColor.all.idxOf (PaletteColor.nearest target) ∧
    target.distance (PaletteColor.nearest target).rgb <
      target.distance PaletteColor.darkBlue.rgb := by
  intro target
  have hbefore : PaletteColor.all.idxOf .darkBlue <
      PaletteColor.all.idxOf (PaletteColor.nearest target) := by decide +kernel
  exact ⟨by decide +kernel, by decide +kernel, hbefore,
    (nearest_is_first_of_least target).2.1 _ hbefore⟩

end ChatTint
