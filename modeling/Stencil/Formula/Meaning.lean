/-
**The value of an expression.**

Arithmetic is that of doubles; a result that is a whole number below 2⁵³ becomes an integer again.
Names, fields and items that are not there are null.

* `Value.isTruthy`: which values count as true;
* `Value.ofFloat`: the value of an arithmetic result;
* `Term.eval`: the value of an expression in a scope.
-/

import Stencil.Formula.Term
import Stencil.Scope
import Stencil.Value.Text

namespace Stencil

/-! ### Errors -/

/-- An arithmetic result that no number stands for. -/
inductive NonFinite
  | infinity
  | negativeInfinity
  | notANumber
  deriving DecidableEq, Repr

/-- How a result that is no number is called. -/
def NonFinite.name : NonFinite → String
  | .infinity => "inf"
  | .negativeInfinity => "-inf"
  | .notANumber => "NaN"

/-- **Why an expression has no value.** -/
inductive EvalError
  | expectedNumber (got : Kind)
  | incomparable (left : Kind) (right : Kind)
  | divisionByZero
  | nonFinite (result : NonFinite)
  /-- An error of an evaluator's own. -/
  | custom (wording : String)
  /-- A script refers to an expression that it does not have. -/
  | noExpression (index : Nat)
  deriving DecidableEq, Repr

/-- **The wording of an evaluation error.** -/
def EvalError.message : EvalError → String
  | .expectedNumber got => "type error: expected number, got " ++ got.name
  | .incomparable left right => "type error: cannot compare " ++ left.name ++ " with " ++ right.name
  | .divisionByZero => "arithmetic error: division by zero"
  | .nonFinite result => "arithmetic error: non-finite result " ++ result.name
  | .custom wording => wording
  | .noExpression index => "no expression " ++ toString index

/-! ### Values as operands -/

namespace Value

/-- **What counts as true**: all but null, false, zero and the empty text. -/
def isTruthy : Value → Bool
  | .null => false
  | .bool b => b
  | .number n => n.toFloat != 0.0
  | .text s => s != ""
  | .array _ => true
  | .object _ => true

/-- The double of a number; other values have none. -/
def needNumber : Value → Except EvalError Float
  | .number n => .ok n.toFloat
  | value => .error (.expectedNumber value.kind)

/-- Below this bound every whole number is a double. -/
def exactBound : Nat := Nat.pow 2 53

/-- **The value of an arithmetic result**: an integer if it is one below the bound, else the double
itself. A result that is not finite is an error. -/
def ofFloat (x : Float) : Except EvalError Value :=
  if x.isFinite then
    match Double.toInt? x with
    | some n => if n.natAbs < exactBound then .ok (.number (.int n)) else .ok (.number (.double x))
    | none => .ok (.number (.double x))
  else if x.isNaN then .error (.nonFinite .notANumber)
  else if x < 0.0 then .error (.nonFinite .negativeInfinity)
  else .error (.nonFinite .infinity)

/-- **Equality as an operator**: numbers are compared as doubles, all else kind by kind. -/
def equal : Value → Value → Bool
  | .number a, .number b => a.toFloat == b.toFloat
  | a, b => a.same b

/-- **The order of two values**, if they are both numbers or both texts; none if a number is no
number. -/
def order : Value → Value → Except EvalError (Option Ordering)
  | .number a, .number b =>
    let x := a.toFloat
    let y := b.toFloat
    .ok (if x < y then some .lt else if x == y then some .eq else if y < x then some .gt else none)
  | .text a, .text b => .ok (some (compare a b))
  | a, b => .error (.incomparable a.kind b.kind)

/-- **A field of a value**: of an object the one with the name, of an array or a text its length. -/
def member (target : Value) (field : String) : Value :=
  match target with
  | .object fields => (Assoc.find? field fields).getD .null
  | .array items => if field = "length" then .int items.length else .null
  | .text s => if field = "length" then .int s.length else .null
  | _ => .null

/-- **What stands under a key**: in an array the item with the number, else the field that a text
names. -/
def index (target key : Value) : Value :=
  match target, key with
  | .array items, .number (.int n) => if 0 ≤ n then (items[n.toNat]?).getD .null else .null
  | .array _, .number (.double _) => .null
  | target, .text field => target.member field
  | _, _ => .null

/-- Adds numbers, and joins the texts of anything else. -/
def add (left right : Value) : Except EvalError Value :=
  match left, right with
  | .number a, .number b => ofFloat (a.toFloat + b.toFloat)
  | a, b => .ok (.text (a.output ++ b.output))

/-- A division must not be by zero. -/
def divideWith (division : Float → Float → Float) (x y : Float) : Except EvalError Value :=
  if y == 0.0 then .error .divisionByZero else ofFloat (division x y)

/-- An operation on two numbers. -/
def arithmetic (operation : Float → Float → Except EvalError Value) (left right : Value) :
    Except EvalError Value := do
  let x ← left.needNumber
  let y ← right.needNumber
  operation x y

/-- A comparison that accepts some orders. -/
def compareWith (accepts : Ordering → Bool) (left right : Value) : Except EvalError Value :=
  (order left right).map fun found => .bool (found.any accepts)

end Value

namespace Formula

/-- **What an operator makes of two values.** The logical operators look at the first operand before
the second is evaluated; here both are there. -/
def Operator.apply (operator : Operator) (left right : Value) : Except EvalError Value :=
  match operator with
  | .or => .ok (if left.isTruthy then left else right)
  | .and => .ok (if left.isTruthy then right else left)
  | .equal => .ok (.bool (left.equal right))
  | .notEqual => .ok (.bool (!left.equal right))
  | .less => Value.compareWith Ordering.isLT left right
  | .lessOrEqual => Value.compareWith Ordering.isLE left right
  | .greater => Value.compareWith Ordering.isGT left right
  | .greaterOrEqual => Value.compareWith Ordering.isGE left right
  | .add => left.add right
  | .subtract => Value.arithmetic (fun x y => Value.ofFloat (x - y)) left right
  | .multiply => Value.arithmetic (fun x y => Value.ofFloat (x * y)) left right
  | .divide => Value.arithmetic (Value.divideWith (· / ·)) left right
  | .remainder => Value.arithmetic (Value.divideWith Double.remainder) left right

/-- **The operand that decides a logical operator alone**: a false one before `&&`, a true one before
`||`. -/
def Operator.decidedBy (operator : Operator) (left : Value) : Bool :=
  match operator with
  | .or => left.isTruthy
  | .and => !left.isTruthy
  | _ => false

/-- **The value of an expression** in a scope. Operands are evaluated from left to right; what a
logical operator or a conditional does not need is not evaluated. -/
def Term.eval (scope : Scope) : Term → Except EvalError Value
  | .literal value => .ok value.value
  | .name word => .ok ((scope.get word).getD .null)
  | .member target field => do
    let target ← target.eval scope
    .ok (target.member field)
  | .index target key => do
    let target ← target.eval scope
    let key ← key.eval scope
    .ok (target.index key)
  | .not operand => do
    let value ← operand.eval scope
    .ok (.bool (!value.isTruthy))
  | .negate operand => do
    let value ← operand.eval scope
    let x ← value.needNumber
    Value.ofFloat (-x)
  | .binary operator left right => do
    let left ← left.eval scope
    if operator.decidedBy left then .ok left
    else
      let right ← right.eval scope
      operator.apply left right
  | .conditional condition positive negative => do
    let condition ← condition.eval scope
    if condition.isTruthy then positive.eval scope else negative.eval scope

end Formula

end Stencil
