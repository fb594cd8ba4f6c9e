/-
**Which integral results are written without a fraction.**

Integers are added, subtracted and multiplied as doubles. What comes out is always a whole number;
below 2⁵³ it becomes an integer and is written with digits alone, and from there on it stays a double,
which is written with a point or with a power of ten.

* `IsIntegerText`: an optional minus sign and digits; `intText_isIntegerText`: integers are written so;
* `write_not_plain`: **a decimal is never written so**;
* `Operator.apply_near`: the operators on integers that may have lost digits;
* `Term.eval_integers`: **a result is written with digits alone exactly if it is below 2⁵³**, and is a
  double from there on;
* `boundarySum_point`: the first sum that has a point.
-/

import Stencil.Proofs.ExactValue

namespace Stencil

open Double

/-! ### Texts of numbers -/

/-- **An optional minus sign, and decimal digits only.** -/
def IsIntegerText (text : String) : Prop :=
  ∃ digits : List Char, digits ≠ [] ∧ (∀ c ∈ digits, c.isDigit = true) ∧
    (text.toList = digits ∨ text.toList = '-' :: digits)

theorem intText_isIntegerText (n : Int) :
    IsIntegerText (String.ofList (Number.intText n)) := by
  refine ⟨Nat.toDigits 10 n.natAbs, Nat.toDigits_ne_nil, fun c member =>
    Nat.isDigit_of_mem_toDigits (by decide) (by decide) member, ?_⟩
  rw [String.toList_ofList, Number.intText]
  split_ifs
  · exact .inr rfl
  · exact .inl rfl

namespace Decimal.Style

/-- **A decimal is written with a point or with a power of ten.** -/
theorem write_not_plain (style : Decimal.Style) (decimal : Decimal) :
    '.' ∈ style.write decimal ∨ 'e' ∈ style.write decimal := by
  rw [write]
  split_ifs
  · left
    rw [positional]
    split_ifs <;> simp
  · right
    rw [scientific]
    simp

end Decimal.Style

/-- **A double that is a whole number is not written with digits alone.** -/
theorem double_not_isIntegerText {x : Float} {n : Int} (whole : toInt? x = some n) :
    ¬ IsIntegerText (Number.double x).text := by
  have marked : '.' ∈ Number.style.writeDouble x ∨ 'e' ∈ Number.style.writeDouble x := by
    rw [Decimal.Style.writeDouble]
    rcases toInt?_eq_some whole with
      ⟨sign, unpacked, _⟩ | ⟨sign, mantissa, exponent, _, _, unpacked, _⟩ <;> rw [unpacked]
    · left
      cases sign <;> simp
    · have plain := Number.style.write_not_plain (Decimal.shortest mantissa exponent)
      cases sign with
      | positive => exact plain
      | negative => exact plain.imp (List.mem_cons_of_mem _) (List.mem_cons_of_mem _)
  rintro ⟨digits, _, allDigits, same⟩
  rw [Number.text, String.toList_ofList] at same
  have digit : ∀ c ∈ Number.style.writeDouble x, c = '-' ∨ c.isDigit = true := by
    intro c member
    rcases same with same | same <;> rw [same] at member
    · exact .inr (allDigits c member)
    · exact (List.mem_cons.mp member).imp_right (allDigits c)
  rcases marked with point | power
  · exact absurd (digit _ point) (by decide)
  · exact absurd (digit _ power) (by decide)

/-! ### Results of integers -/

/-- **The integers that a number may hold.** -/
def Number.Holds (n : Int) : Prop :=
  -2 ^ 63 ≤ n ∧ n < 2 ^ 64

namespace Formula

/-- **The operators that make an integer of any two.** -/
def Operator.IsWhole (operator : Operator) : Prop :=
  operator = .add ∨ operator = .subtract ∨ operator = .multiply

/-- **Operators on integers compute with the nearest doubles** and give one near the exact result. -/
theorem Operator.apply_near {operator : Operator} (whole : operator.IsWhole) {a b nearA nearB : Int}
    (isA : toInt? (ofInt a) = some nearA) (isB : toInt? (ofInt b) = some nearB)
    (boundA : nearA.natAbs < 2 ^ 67) (boundB : nearB.natAbs < 2 ^ 67) :
    ∃ x n, operator.integer? nearA nearB = some n ∧ Rounds x n ∧
      operator.apply (.int a) (.int b) = Value.ofFloat x := by
  rcases whole with rfl | rfl | rfl
  · exact ⟨_, _, rfl, rounds_add isA isB (by omega), rfl⟩
  · exact ⟨_, _, rfl, rounds_sub isA isB (by omega), rfl⟩
  · refine ⟨_, _, rfl, rounds_mul isA isB ?_, rfl⟩
    rw [Int.natAbs_mul]
    exact (Nat.mul_lt_mul'' boundA boundB).trans (by norm_num)

/-- **A result of integers is written with digits alone exactly if it is below 2⁵³**, and from there
on it stays a double. The operands count as the nearest doubles, and below 2⁵³ these are the operands
themselves. -/
theorem Term.eval_integers {scope : Scope} {operator : Operator} {left right : Term} {a b : Int}
    (isLeft : left.eval scope = .ok (.int a)) (isRight : right.eval scope = .ok (.int b))
    (holdsLeft : Number.Holds a) (holdsRight : Number.Holds b) (whole : operator.IsWhole) :
    ∃ nearA nearB n result,
      toInt? (ofInt a) = some nearA ∧ (a.natAbs < 2 ^ 53 → nearA = a) ∧
      toInt? (ofInt b) = some nearB ∧ (b.natAbs < 2 ^ 53 → nearB = b) ∧
      operator.integer? nearA nearB = some n ∧
      (Term.binary operator left right).eval scope = .ok result ∧
      (IsIntegerText result.output ↔ n.natAbs < 2 ^ 53) ∧
      (n.natAbs < 2 ^ 53 → result.output = String.ofList (Number.intText n)) ∧
      (2 ^ 53 ≤ n.natAbs → ∃ x, result = .number (.double x)) := by
  obtain ⟨lowLeft, highLeft⟩ := holdsLeft
  obtain ⟨lowRight, highRight⟩ := holdsRight
  obtain ⟨nearA, isA, closeA⟩ := rounds_ofInt (n := a) (by omega)
  obtain ⟨nearB, isB, closeB⟩ := rounds_ofInt (n := b) (by omega)
  have withinA := closeA.within
  have withinB := closeB.within
  obtain ⟨x, n, exactly, ⟨rounded, isRounded, close⟩, applied⟩ :=
    Operator.apply_near whole isA isB (by omega) (by omega)
  have undecided := Operator.undecided exactly (.int a)
  have evaluated : (Term.binary operator left right).eval scope =
      .ok (if rounded.natAbs < 2 ^ 53 then .int rounded else .number (.double x)) := by
    rw [Term.eval_binary isLeft undecided isRight, applied, Value.ofFloat_whole isRounded]
  refine ⟨nearA, nearB, n, _, isA, closeA.exact, isB, closeB.exact, exactly, evaluated, ?_⟩
  by_cases small : n.natAbs < 2 ^ 53
  · rw [close.exact small, if_pos small]
    exact ⟨iff_of_true (intText_isIntegerText n) small, fun _ => rfl,
      fun large => absurd small large.not_gt⟩
  · have large := close.large (by omega)
    rw [if_neg (by omega)]
    exact ⟨iff_of_false (double_not_isIntegerText isRounded) small,
      fun small' => absurd small' small, fun _ => ⟨x, rfl⟩⟩

/-- The expression `a op b` for two integers. -/
def integersTerm (operator : Operator) (a b : Int) : Term :=
  .binary operator (.literal (.number (.int a))) (.literal (.number (.int b)))

/-- `9007199254740993 - 9007199254740992` is written `0`: the first operand has lost its last digit. -/
theorem lostDigit_text : ∃ result,
    (integersTerm .subtract 9007199254740993 9007199254740992).eval .empty = .ok result ∧
      result.output = "0" ∧ IsIntegerText result.output := by
  have whole : Operator.subtract.IsWhole := .inr (.inl rfl)
  have left : (Term.literal (.number (.int 9007199254740993))).eval .empty =
      .ok (.int 9007199254740993) := rfl
  have right : (Term.literal (.number (.int 9007199254740992))).eval .empty =
      .ok (.int 9007199254740992) := rfl
  obtain ⟨nearA, nearB, n, result, isA, _, isB, _, exactly, evaluated, plain, text, _⟩ :=
    Term.eval_integers left right (by constructor <;> decide) (by constructor <;> decide) whole
  have sameA : toInt? (ofInt 9007199254740993) = some 9007199254740992 := by decide
  have sameB : toInt? (ofInt 9007199254740992) = some 9007199254740992 := by decide
  cases sameA.symm.trans isA
  cases sameB.symm.trans isB
  cases exactly
  exact ⟨result, evaluated, text (by decide), plain.mpr (by decide)⟩

/-- **The first sum that has a point**: `9007199254740991 + 1` is written `9007199254740992.0`. -/
theorem boundarySum_point : Number.Holds 9007199254740991 ∧ Number.Holds 1 ∧ ∃ result,
    (integersTerm .add 9007199254740991 1).eval .empty = .ok result ∧
      result.output = "9007199254740992.0" ∧ ¬ IsIntegerText result.output := by
  refine ⟨by constructor <;> decide, by constructor <;> decide,
    .number (.double (ofInt 9007199254740991 + ofInt 1)), rfl, by decide +kernel, ?_⟩
  have sum : toInt? (ofInt 9007199254740991 + ofInt 1) = some 9007199254740992 := by decide
  exact double_not_isIntegerText sum

end Formula

end Stencil
