/-
**The shortest decimal that reads back as a given double.**

A finite double stands for all numbers that round to it: those within half a step to either neighbour,
the ends included if its mantissa is even. Among the decimals there, the shortest is the one with the
fewest digits and, of those, the nearest; of two equally near, the one with the even last digit.

* `Window.ofParts`: the numbers that round to `mantissa · 2 ^ exponent`;
* `Window.onGrid?`: the nearest decimal with a given number of digits, if it lies in the window;
* `Decimal.shortest`: the first hit on the grids of one digit, two digits, and so on to seventeen.
-/

namespace Stencil

/-- **A positive decimal** `d₁.d₂d₃… · 10 ^ exponent`, where `d₁` is not zero. -/
structure Decimal where
  digits : List Char
  exponent : Int
  deriving DecidableEq, Repr

namespace Decimal

/-- **The numbers that round to one double**, from `low` to `high` around `value`, all counted in the
unit `1 / scale`. -/
structure Window where
  low : Nat
  value : Nat
  high : Nat
  scale : Nat
  closed : Bool
  deriving DecidableEq, Repr

namespace Window

/-- **The window of `mantissa · 2 ^ exponent`**: half a step up and half a step down, where the step
down is half as large below a power of two, except at the smallest exponent. -/
def ofParts (mantissa : Nat) (exponent : Int) : Window :=
  let unit := Nat.pow 2 (exponent - 2).toNat
  let down := if mantissa = Nat.pow 2 52 ∧ -1074 < exponent then 1 else 2
  { low := (4 * mantissa - down) * unit
    value := 4 * mantissa * unit
    high := (4 * mantissa + 2) * unit
    scale := Nat.pow 2 (2 - exponent).toNat
    closed := mantissa % 2 = 0 }

/-- Whether `x`, in the same unit as the ends, rounds to the double. -/
def holds (window : Window) (x : Nat) : Bool :=
  if window.closed then window.low ≤ x && x ≤ window.high else window.low < x && x < window.high

end Window

/-- The number of decimal digits; zero has none. -/
def digitCount (n : Nat) : Nat :=
  if n = 0 then 0 else digitCount (n / 10) + 1

/-- **The power of ten of the first digit** of `value / scale`. -/
def magnitude (value scale : Nat) : Int :=
  if scale ≤ value then (digitCount (value / scale) : Int) - 1
  else -(digitCount ((scale + value - 1) / value - 1) : Int)

/-- A whole number as a decimal: its last zeros are not written. -/
def ofGrid (count : Nat) (unit : Int) : Decimal :=
  let digits := Nat.toDigits 10 count
  ⟨(digits.reverse.dropWhile (· = '0')).reverse, unit + (digits.length : Int) - 1⟩

namespace Window

/-- **The nearest decimal with `places` digits**, if it lies in the window: one of the two neighbours
of the value among the multiples of a power of ten. -/
def onGrid? (window : Window) (places : Nat) : Option Decimal :=
  let unit := magnitude window.value window.scale + 1 - (places : Int)
  let up := Nat.pow 10 (-unit).toNat
  let step := window.scale * Nat.pow 10 unit.toNat
  let scaled : Window :=
    { window with low := window.low * up, value := window.value * up, high := window.high * up }
  let below := scaled.value / step
  let gapBelow := scaled.value - below * step
  let gapAbove := (below + 1) * step - scaled.value
  let hitBelow := 0 < below && scaled.holds (below * step)
  let hitAbove := scaled.holds ((below + 1) * step)
  if hitBelow && (!hitAbove || gapBelow < gapAbove || gapBelow = gapAbove && below % 2 = 0) then
    some (ofGrid below unit)
  else if hitAbove then some (ofGrid (below + 1) unit)
  else none

end Window

/-- **The shortest decimal of the double `mantissa · 2 ^ exponent`.** Seventeen digits always tell two
doubles apart. -/
def shortest (mantissa : Nat) (exponent : Int) : Decimal :=
  let window := Window.ofParts mantissa exponent
  ((List.range 17).findSome? fun places => window.onGrid? (places + 1)).getD
    (ofGrid (window.value / window.scale) 0)

example : shortest 1 (-1074) = ⟨['5'], -324⟩ := by decide +kernel

example : shortest 7205759403792794 (-56) = ⟨['1'], -1⟩ := by decide +kernel

end Decimal

end Stencil
