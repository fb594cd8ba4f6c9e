/-
**Expressions as trees.**

* `Term.depth`: the number of nodes on the longest path from the root to a leaf.
-/

import Stencil.Formula.Token

namespace Stencil.Formula

/-- **An expression.** -/
inductive Term
  | literal (value : Literal)
  /-- What a name stands for in the scope. -/
  | name (name : String)
  /-- A field of an object. -/
  | member (target : Term) (field : String)
  /-- An item of an array, or the field that a text names. -/
  | index (target : Term) (key : Term)
  | not (operand : Term)
  | negate (operand : Term)
  | binary (operator : Operator) (left : Term) (right : Term)
  | conditional (condition : Term) (positive : Term) (negative : Term)
  deriving DecidableEq

/-- **The number of nodes on the longest path** from the root to a leaf. -/
def Term.depth : Term → Nat
  | .literal _ => 1
  | .name _ => 1
  | .member target _ => target.depth + 1
  | .index target key => max target.depth key.depth + 1
  | .not operand => operand.depth + 1
  | .negate operand => operand.depth + 1
  | .binary _ left right => max left.depth right.depth + 1
  | .conditional condition positive negative =>
    max condition.depth (max positive.depth negative.depth) + 1

end Stencil.Formula
