/-
**Integer expressions have their exact values below 2⁵³.**

An expression computes with doubles, and every result that is a whole number below 2⁵³ becomes an
integer again. So an expression of integers, signs, sums, differences, products, remainders and
divisions that leave nothing has an integer for its value, and the right one, as long as no value in it
reaches 2⁵³: the doubles in between are exact, and a zero loses its sign.

* `Value.ofFloat_whole`: what becomes of a result that is a whole number;
* `Operator.integer?`, `Term.integer?`: **the exact value of an integer expression**;
* `Operator.apply_exact`: one operator gives it;
* `Term.eval_exact`: **so do all expressions** in which every exact value is below 2⁵³.
-/

import Stencil.Formula.Meaning
import Stencil.Proofs.WholeArithmetic

namespace Stencil

open Double

variable {x y : Float} {a b n : Int}

/-! ### Whole results -/

theorem isFinite_of_whole (whole : toInt? x = some n) : x.isFinite = true := by
  show Float.Model.UnpackedFloat.isFinite x.toModel.unpack = true
  rcases toInt?_eq_some whole with ⟨_, unpacked, _⟩ | ⟨_, _, _, _, _, unpacked, _⟩ <;>
    rw [unpacked] <;> rfl

/-- **What becomes of a whole result**: an integer below 2⁵³, else the double itself. -/
theorem Value.ofFloat_whole (whole : toInt? x = some n) :
    Value.ofFloat x =
      .ok (if n.natAbs < 2 ^ 53 then .int n else .number (.double x)) := by
  rw [Value.ofFloat, if_pos (isFinite_of_whole whole), whole]
  show (if n.natAbs < 2 ^ 53 then _ else _) = _
  split_ifs <;> rfl

theorem Value.ofFloat_small (whole : toInt? x = some n) (small : n.natAbs < 2 ^ 53) :
    Value.ofFloat x = .ok (.int n) := by
  rw [Value.ofFloat_whole whole, if_pos small]

/-- A divisor that is a whole number other than zero does not count as zero. -/
theorem Value.divideWith_whole (division : Float → Float → Float) (whole : toInt? y = some b)
    (nonzero : b ≠ 0) : Value.divideWith division x y = Value.ofFloat (division x y) := by
  have unequal : (y == 0.0) = false := by
    show Float.Model.UnpackedFloat.beq y.toModel.unpack (0.0 : Float).toModel.unpack = false
    rcases toInt?_eq_some whole with ⟨_, _, zero⟩ | ⟨sign, _, _, _, _, unpacked, _⟩
    · exact absurd zero nonzero
    · rw [unpacked]
      cases sign <;> rfl
  rw [Value.divideWith, unequal]
  rfl

theorem toInt?_ofInt (small : n.natAbs < 2 ^ 53) : toInt? (ofInt n) = some n :=
  (rounds_ofInt (small.trans (by norm_num))).exact small

namespace Formula

/-! ### Exact values -/

/-- **What an operator makes of two integers**, exactly. A division must leave nothing; what one leaves
has the sign of the dividend. -/
def Operator.integer? (operator : Operator) (a b : Int) : Option Int :=
  match operator with
  | .add => some (a + b)
  | .subtract => some (a - b)
  | .multiply => some (a * b)
  | .divide => if b ≠ 0 ∧ b ∣ a then some (a / b) else none
  | .remainder => if b ≠ 0 then some (a.tmod b) else none
  | _ => none

/-- **The exact value of an integer expression** in a scope. Other expressions have none. -/
def Term.integer? (scope : Scope) : Term → Option Int
  | .literal (.number (.int n)) => some n
  | .name word =>
    match scope.get word with
    | some (.number (.int n)) => some n
    | _ => none
  | .negate operand => (operand.integer? scope).map (- ·)
  | .binary operator left right => do
    let a ← left.integer? scope
    let b ← right.integer? scope
    operator.integer? a b
  | _ => none

/-- **An expression and all expressions in it.** -/
def Term.parts : Term → List Term
  | .literal value => [.literal value]
  | .name word => [.name word]
  | .member target field => .member target field :: target.parts
  | .index target key => .index target key :: (target.parts ++ key.parts)
  | .not operand => .not operand :: operand.parts
  | .negate operand => .negate operand :: operand.parts
  | .binary operator left right => .binary operator left right :: (left.parts ++ right.parts)
  | .conditional condition positive negative =>
    .conditional condition positive negative ::
      (condition.parts ++ (positive.parts ++ negative.parts))

theorem Term.mem_parts (term : Term) : term ∈ term.parts := by
  cases term <;> exact List.mem_cons_self

/-- **An operator gives its exact value**, if it and the operands are below 2⁵³. -/
theorem Operator.apply_exact {operator : Operator} (value : operator.integer? a b = some n)
    (smallLeft : a.natAbs < 2 ^ 53) (smallRight : b.natAbs < 2 ^ 53) (small : n.natAbs < 2 ^ 53) :
    operator.apply (.int a) (.int b) = .ok (.int n) := by
  have left := toInt?_ofInt smallLeft
  have right := toInt?_ofInt smallRight
  have bounded : n.natAbs < 2 ^ 200 := small.trans (by norm_num)
  cases operator with
  | add =>
    cases value
    exact Value.ofFloat_small ((rounds_add left right bounded).exact small) small
  | subtract =>
    cases value
    exact Value.ofFloat_small ((rounds_sub left right bounded).exact small) small
  | multiply =>
    cases value
    exact Value.ofFloat_small ((rounds_mul left right bounded).exact small) small
  | divide =>
    rw [Operator.integer?] at value
    split_ifs at value with divides
    cases value
    show Value.divideWith (· / ·) (ofInt a) (ofInt b) = _
    rw [Value.divideWith_whole _ right divides.1]
    have multiple : toInt? (ofInt a) = some (a / b * b) := by
      rw [Int.ediv_mul_cancel divides.2]
      exact left
    exact Value.ofFloat_small (toInt?_div multiple right divides.1 small) small
  | remainder =>
    rw [Operator.integer?] at value
    split_ifs at value with nonzero
    cases value
    show Value.divideWith Double.remainder (ofInt a) (ofInt b) = _
    rw [Value.divideWith_whole _ right nonzero]
    exact Value.ofFloat_small (toInt?_remainder left right nonzero small) small
  | or | and | equal | notEqual | less | lessOrEqual | greater | greaterOrEqual => cases value

theorem Operator.undecided {operator : Operator} (value : operator.integer? a b = some n)
    (left : Value) : operator.decidedBy left = false := by
  cases operator with
  | or | and => cases value
  | _ => rfl

/-- Both operands are evaluated, if the first does not decide. -/
theorem Term.eval_binary {scope : Scope} {operator : Operator} {left right : Term} {l r : Value}
    (isLeft : left.eval scope = .ok l) (undecided : operator.decidedBy l = false)
    (isRight : right.eval scope = .ok r) :
    (Term.binary operator left right).eval scope = operator.apply l r := by
  rw [Term.eval, isLeft]
  show (if operator.decidedBy l = true then _ else _) = _
  rw [undecided, isRight]
  rfl

/-- **Integer expressions have their exact values**, if every exact value in them is below 2⁵³. -/
theorem Term.eval_exact {scope : Scope} {term : Term} {n : Int}
    (value : term.integer? scope = some n)
    (small : ∀ part ∈ term.parts, ∀ size ∈ part.integer? scope, size.natAbs < 2 ^ 53) :
    term.eval scope = .ok (.int n) := by
  induction term generalizing n with
  | literal literal =>
    cases literal with
    | number number =>
      cases number with
      | int m =>
        cases value
        rfl
      | double x => cases value
    | null | bool | text => cases value
  | name word =>
    rw [Term.integer?] at value
    rw [Term.eval]
    split at value
    · rename_i bound
      cases value
      rw [bound]
      rfl
    · cases value
  | negate operand ih =>
    obtain ⟨m, inner, rfl⟩ := Option.map_eq_some_iff.mp value
    have within := fun part member => small part (List.mem_cons_of_mem _ member)
    have bound := within operand operand.mem_parts m inner
    rw [Term.eval, ih inner within]
    exact Value.ofFloat_small (toInt?_neg (toInt?_ofInt bound)) (by rwa [Int.natAbs_neg])
  | binary operator left right ihLeft ihRight =>
    have bound := small _ (Term.mem_parts _) n value
    obtain ⟨a, isLeft, value⟩ := Option.bind_eq_some_iff.mp value
    obtain ⟨b, isRight, value⟩ := Option.bind_eq_some_iff.mp value
    have withinLeft := fun part member =>
      small part (List.mem_cons_of_mem _ (List.mem_append_left _ member))
    have withinRight := fun part member =>
      small part (List.mem_cons_of_mem _ (List.mem_append_right _ member))
    rw [Term.eval_binary (ihLeft isLeft withinLeft) (Operator.undecided value _)
      (ihRight isRight withinRight)]
    exact Operator.apply_exact value (withinLeft left left.mem_parts a isLeft)
      (withinRight right right.mem_parts b isRight) bound
  | member | index | not | conditional => cases value

/-- The largest integer below 2⁵³ outside, and a negative one in a scope inside. -/
def edgeScope : Scope :=
  (Scope.reading [("big", .int 9007199254740991)]).nested.set "step" (.int (-4))

/-- The expression `-(big - big) - -big % step * (big / -9007199254740991)`. On its way stand a
negative zero and the largest values of both signs. -/
def edgeTerm : Term :=
  .binary .subtract
    (.negate (.binary .subtract (.name "big") (.name "big")))
    (.binary .multiply
      (.binary .remainder (.negate (.name "big")) (.name "step"))
      (.binary .divide (.name "big") (.negate (.literal (.number (.int 9007199254740991))))))

theorem edgeTerm_exact :
    edgeTerm.integer? edgeScope = some (-3) ∧ edgeTerm.eval edgeScope = .ok (.int (-3)) :=
  ⟨by decide, Term.eval_exact (by decide) (by decide)⟩

end Formula

end Stencil
