/-!
# Floating-point numbers as exact binary fractions

A finite double is an integer times a power of two.  Written so, its remainder
on division by another is a remainder of integers, which no rounding disturbs:
the result has no more digits than the smaller of the two numbers and is again
a double.

## Main definitions

* `Binary` — a sign, a mantissa and an exponent.
* `Binary.ofFloat?`, `Binary.toFloat` — the doubles among them.
* `Binary.rem` — the exact remainder, with the sign of the dividend.
* `floatRemainder` — the remainder of two doubles.
-/

namespace ChatTint

/-- The number `mantissa * 2 ^ exponent`, negated if `negative`.  Zero has two signs. -/
structure Binary where
  /-- Whether the number carries a minus sign. -/
  negative : Bool
  /-- The digits. -/
  mantissa : Nat
  /-- The power of two that the digits count. -/
  exponent : Int
deriving DecidableEq

namespace Binary

/-- The exact value of a double, if it is finite.  The stored exponent zero marks
the numbers too small for a leading one. -/
def ofFloat? (x : Float) : Option Binary :=
  let bits : Nat := x.toBits.toNat
  let negative := bits / Nat.pow 2 63 == 1
  let exponent : Nat := bits / Nat.pow 2 52 % Nat.pow 2 11
  let fraction : Nat := bits % Nat.pow 2 52
  if exponent = 2047 then none
  else if exponent = 0 then some ⟨negative, fraction, -1074⟩
  else some ⟨negative, fraction + Nat.pow 2 52, (exponent : Int) - 1075⟩

/-- The double nearest to a number. -/
def toFloat (a : Binary) : Float :=
  let magnitude := (Float.ofNat a.mantissa).scaleB a.exponent
  if a.negative then -magnitude else magnitude

/-- The digits of `a` counted in units of `2 ^ e`, for an `e` no larger than its exponent. -/
def scaled (a : Binary) (e : Int) : Nat := a.mantissa * Nat.pow 2 (a.exponent - e).toNat

/-- What is left of `a` after taking away `b` as often as it fits, with the sign of `a`. -/
def rem (a b : Binary) : Binary :=
  let e := min a.exponent b.exponent
  ⟨a.negative, a.scaled e % b.scaled e, e⟩

/-- The remainder is smaller than the divisor. -/
theorem rem_mantissa_lt (a b : Binary) (h : b.mantissa ≠ 0) :
    (a.rem b).mantissa < b.scaled (a.rem b).exponent := by
  refine Nat.mod_lt _ (Nat.mul_pos (Nat.pos_of_ne_zero h) ?_)
  exact Nat.pow_pos (by decide)

/-- The dividend is a multiple of the divisor and the remainder. -/
theorem scaled_eq_rem_add (a b : Binary) :
    ∃ k, a.scaled (a.rem b).exponent = b.scaled (a.rem b).exponent * k + (a.rem b).mantissa :=
  ⟨_, (Nat.div_add_mod _ _).symm⟩

end Binary

/-- The remainder of `x` on division by `y`, exact and with the sign of `x`.  There
is none of an infinite dividend or by zero; an infinite divisor never fits. -/
def floatRemainder (x y : Float) : Float :=
  match Binary.ofFloat? x, Binary.ofFloat? y with
  | some a, some b => if b.mantissa = 0 then 0.0 / 0.0 else (a.rem b).toFloat
  | some _, none => if y.isNaN then y else x
  | none, _ => 0.0 / 0.0

end ChatTint
