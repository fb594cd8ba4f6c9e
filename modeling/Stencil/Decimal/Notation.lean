/-
**How a decimal is written**: with all its places, or with a power of ten.

* `Notation.write`: the text of a positive decimal;
* `Notation.writeDouble`: the text of a finite double, through its shortest decimal.
-/

import Stencil.Decimal.Shortest

namespace Stencil.Decimal

/-- **A choice of notation**: from the exponent `least` to the exponent `most` a decimal is written
with all its places, otherwise with a power of ten. -/
structure Style where
  least : Int
  most : Int
  deriving DecidableEq, Repr

namespace Style

/-- All places: a whole number gets one zero after the point. -/
def positional (decimal : Decimal) : List Char :=
  let digits := decimal.digits
  let whole := (decimal.exponent + 1).toNat
  if decimal.exponent < 0 then
    ['0', '.'] ++ List.replicate (-decimal.exponent - 1).toNat '0' ++ digits
  else if digits.length ≤ whole then
    digits ++ List.replicate (whole - digits.length) '0' ++ ['.', '0']
  else digits.take whole ++ ['.'] ++ digits.drop whole

/-- A first digit, the others after a point, and a signed power of ten. -/
def scientific (decimal : Decimal) : List Char :=
  let mantissa :=
    match decimal.digits with
    | [] => []
    | [digit] => [digit]
    | digit :: rest => digit :: '.' :: rest
  let sign := if decimal.exponent < 0 then '-' else '+'
  mantissa ++ ['e', sign] ++ Nat.toDigits 10 decimal.exponent.natAbs

/-- **The text of a positive decimal.** -/
def write (style : Style) (decimal : Decimal) : List Char :=
  if style.least ≤ decimal.exponent ∧ decimal.exponent ≤ style.most then positional decimal
  else scientific decimal

open Float.Model in
/-- **The text of a finite double**: the sign, also of zero, and the shortest decimal. -/
def writeDouble (style : Style) (x : Float) : List Char :=
  match x.toModel.unpack with
  | .zero .positive => ['0', '.', '0']
  | .zero .negative => ['-', '0', '.', '0']
  | .finite .positive mantissa exponent _ => style.write (shortest mantissa exponent)
  | .finite .negative mantissa exponent _ => '-' :: style.write (shortest mantissa exponent)
  | .infinity .positive => ['i', 'n', 'f']
  | .infinity .negative => ['-', 'i', 'n', 'f']
  | .notANumber => ['N', 'a', 'N']

end Style

end Stencil.Decimal
