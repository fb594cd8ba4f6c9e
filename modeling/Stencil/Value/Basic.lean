/-
**The values that templates compute with**: null, truth values, numbers, texts, arrays and objects.

A number is an integer or a double. Two numbers inside arrays and objects are the same only if they are
of one kind.

* `Value.ofFields`: an object holds its fields in the order of their names, each name once;
* `Number.toFloat`: every number as a double;
* `Value.same`: equality of values, kind by kind.
-/

import Stencil.Assoc
import Stencil.Double

namespace Stencil

/-- **A number**: an integer, exact, or a double. -/
inductive Number
  | int (n : Int)
  | double (x : Float)
  deriving DecidableEq

namespace Number

/-- The nearest double. -/
def toFloat : Number → Float
  | .int n => Double.ofInt n
  | .double x => x

/-- Equality within one kind; between doubles it is numeric. -/
def same : Number → Number → Bool
  | .int m, .int n => m == n
  | .double x, .double y => x == y
  | _, _ => false

end Number

/-- **A value.** The fields of an object are sorted by name. -/
inductive Value
  | null
  | bool (b : Bool)
  | number (n : Number)
  | text (s : String)
  | array (items : List Value)
  | object (fields : List (String × Value))
  deriving Inhabited

/-- What kind of value something is. -/
inductive Kind
  | null
  | bool
  | number
  | text
  | array
  | object
  deriving DecidableEq, Repr

/-- The name of a kind, in messages. -/
def Kind.name : Kind → String
  | .null => "null"
  | .bool => "bool"
  | .number => "number"
  | .text => "string"
  | .array => "array"
  | .object => "object"

namespace Value

/-- The kind of a value. -/
def kind : Value → Kind
  | .null => .null
  | .bool _ => .bool
  | .number _ => .number
  | .text _ => .text
  | .array _ => .array
  | .object _ => .object

/-- An integer. -/
def int (n : Int) : Value := .number (.int n)

/-- **An object with the given fields**, sorted by name. -/
def ofFields (fields : List (String × Value)) : Value :=
  .object (Assoc.ofList fields)

mutual

/-- **Equality of values**, where an integer is never equal to a double. -/
def same : Value → Value → Bool
  | .null, .null => true
  | .bool a, .bool b => a == b
  | .number a, .number b => a.same b
  | .text a, .text b => a == b
  | .array a, .array b => sameItems a b
  | .object a, .object b => sameFields a b
  | _, _ => false

/-- Equality item by item. -/
def sameItems : List Value → List Value → Bool
  | [], [] => true
  | a :: rest, b :: others => same a b && sameItems rest others
  | _, _ => false

/-- Equality field by field. -/
def sameFields : List (String × Value) → List (String × Value) → Bool
  | [], [] => true
  | (name, a) :: rest, (other, b) :: others => name == other && same a b && sameFields rest others
  | _, _ => false

end

end Value

end Stencil
