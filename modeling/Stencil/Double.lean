/-
**Exact views of binary64 numbers.**

A finite double is a sign, a mantissa and a power of two. From these its whole part and the remainder
of a division are computed without rounding.

* `Double.ofInt n`: the double nearest to the integer `n`;
* `Double.toInt? x`: the integer that `x` is exactly, if it is one;
* `Double.remainder x y`: what is left of `x` after taking away `y` as often as it fits, with the sign
  of `x`.
-/

namespace Stencil.Double

open Float.Model

/-- **The double nearest to an integer**; of two, the one with the even mantissa. -/
def ofInt (n : Int) : Float :=
  Float.ofModel (Float.Model.ofInt n)

/-- **The integer that a double is exactly**, if it is one. -/
def toInt? (x : Float) : Option Int :=
  match x.toModel.unpack with
  | .zero _ => some 0
  | .finite sign mantissa exponent _ =>
    if 0 ≤ exponent then some (sign.apply (mantissa <<< exponent.toNat))
    else if mantissa % Nat.pow 2 (-exponent).toNat = 0 then
      some (sign.apply (mantissa / Nat.pow 2 (-exponent).toNat))
    else none
  | _ => none

/-- **What is left of a division** that stops at a whole quotient: it has the sign of the dividend
and is exact. -/
def remainder (x y : Float) : Float :=
  match x.toModel.unpack, y.toModel.unpack with
  | .finite sign m e _, .finite _ n f _ =>
    let unit := min e f
    let rest := (m <<< (e - unit).toNat) % (n <<< (f - unit).toNat)
    Float.ofModel (Float.Model.pack
      (UnpackedFloat.normalize Format.binary64 (sign.apply rest) unit sign))
  | .zero sign, .finite _ _ _ _ => Float.ofModel (Float.Model.pack (.zero sign))
  | .zero sign, .infinity _ => Float.ofModel (Float.Model.pack (.zero sign))
  | .finite _ _ _ _, .infinity _ => x
  | _, _ => Float.ofModel (Float.Model.pack .notANumber)

example : toInt? 2251799813685249.5 = none ∧ toInt? (-3.0) = some (-3) ∧ toInt? (-0.0) = some 0 := by
  decide

example : remainder (-7.5) 2.0 = -1.5 ∧ remainder 7.0 (-2.0) = 1.0 ∧ remainder (-4.0) 2.0 = -0.0 := by
  decide

end Stencil.Double
