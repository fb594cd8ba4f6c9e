/-
**The grammar of expressions.**

Operators bind in six layers, from `||` to `*`. A phrase of a layer is a chain of phrases of the
next layer, grouped to the left; past the last layer stand operands with signs. The grammar knows
nothing of a parser: it has one rule for each way to write a tree.

* `Symbol`, `Derives`: **what a phrase of tokens says**, by the kind of the phrase;
* `Derives.outward`: a phrase of a layer is one of every layer outside it;
* `Symbol.Ends`: where a phrase of a kind ends, because the next token cannot go on with it.
-/

import Stencil.Formula.Term

namespace Stencil.Formula

/-! ### Phrases -/

/-- **The kinds of phrases.** -/
inductive Symbol
  | expression
  /-- The chains of operators of a layer, from one to six; layer seven holds operands with signs. -/
  | layer (level : Nat)
  | signed
  /-- An operand with the fields and keys after it. -/
  | access
  | operand

/-- **The operators of a layer.** -/
def layerOperators : Nat → List Operator
  | 1 => [.or]
  | 2 => [.and]
  | 3 => [.equal, .notEqual]
  | 4 => [.less, .lessOrEqual, .greater, .greaterOrEqual]
  | 5 => [.add, .subtract]
  | 6 => [.multiply, .divide, .remainder]
  | _ => []

/-- **What a phrase says**: the tokens of a phrase of some kind, and the tree that they derive. -/
inductive Derives : Symbol → List Token → Term → Prop
  | chain {tokens : List Token} {term : Term} :
      Derives (.layer 1) tokens term → Derives .expression tokens term
  | conditional {first second third : List Token} {condition positive negative : Term} :
      Derives (.layer 1) first condition → Derives .expression second positive →
      Derives .expression third negative →
      Derives .expression (first ++ .question :: (second ++ .colon :: third))
        (.conditional condition positive negative)
  | inner {level : Nat} {tokens : List Token} {term : Term} :
      1 ≤ level → level ≤ 6 → Derives (.layer (level + 1)) tokens term →
      Derives (.layer level) tokens term
  | link {level : Nat} {operator : Operator} {before after : List Token} {left right : Term} :
      operator ∈ layerOperators level → Derives (.layer level) before left →
      Derives (.layer (level + 1)) after right →
      Derives (.layer level) (before ++ .operator operator :: after) (.binary operator left right)
  | innermost {tokens : List Token} {term : Term} :
      Derives .signed tokens term → Derives (.layer 7) tokens term
  | not {tokens : List Token} {operand : Term} :
      Derives .signed tokens operand → Derives .signed (.not :: tokens) (.not operand)
  | negate {tokens : List Token} {operand : Term} :
      Derives .signed tokens operand →
      Derives .signed (.operator .subtract :: tokens) (.negate operand)
  | unsigned {tokens : List Token} {term : Term} :
      Derives .access tokens term → Derives .signed tokens term
  | member {tokens : List Token} {target : Term} (field : String) :
      Derives .access tokens target →
      Derives .access (tokens ++ [.dot, .name field]) (.member target field)
  | index {tokens inside : List Token} {target key : Term} :
      Derives .access tokens target → Derives .expression inside key →
      Derives .access (tokens ++ .openBracket :: (inside ++ [.closeBracket])) (.index target key)
  | bare {tokens : List Token} {term : Term} :
      Derives .operand tokens term → Derives .access tokens term
  | literal (value : Literal) : Derives .operand [.literal value] (.literal value)
  | name (name : String) : Derives .operand [.name name] (.name name)
  | parenthesized {tokens : List Token} {term : Term} :
      Derives .expression tokens term →
      Derives .operand (.openParenthesis :: (tokens ++ [.closeParenthesis])) term

/-! ### Layers -/

/-- **The layer of an operator** is how tightly it binds. -/
theorem mem_layerOperators_iff {level : Nat} {operator : Operator} :
    operator ∈ layerOperators level ↔ operator.precedence = level := by
  constructor
  · intro member
    unfold layerOperators at member
    split at member <;> revert member <;> cases operator <;> simp [Operator.precedence]
  · rintro rfl
    cases operator <;> decide

theorem Operator.precedence_bounds (operator : Operator) :
    1 ≤ operator.precedence ∧ operator.precedence ≤ 6 := by
  cases operator <;> decide

/-- **A phrase of a layer is a phrase of every layer outside it.** -/
theorem Derives.outward {tokens : List Token} {term : Term} {level outer : Nat}
    (derived : Derives (.layer level) tokens term) (least : 1 ≤ outer) (within : outer ≤ level)
    (most : level ≤ 7) : Derives (.layer outer) tokens term := by
  induction within with
  | refl => exact derived
  | step within ih =>
    have inside : outer ≤ _ := within
    exact ih (.inner (by omega) (by omega) derived) (by omega)

/-! ### Where phrases end -/

/-- **The tokens that go on with a phrase** of some kind. -/
def Symbol.Continues : Symbol → Token → Prop
  | .operand, _ => False
  | .access, token => token = .dot ∨ token = .openBracket
  | .signed, token => token = .dot ∨ token = .openBracket
  | .layer level, token =>
    token = .dot ∨ token = .openBracket ∨
      ∃ operator, token = .operator operator ∧ level ≤ operator.precedence
  | .expression, token =>
    token = .dot ∨ token = .openBracket ∨ token = .question ∨ ∃ operator, token = .operator operator

/-- **A phrase ends before some tokens**: the first of them does not go on with it. -/
def Symbol.Ends (symbol : Symbol) (rest : List Token) : Prop :=
  ∀ token ∈ rest.head?, ¬ symbol.Continues token

namespace Symbol

variable {token : Token} {rest : List Token} {level : Nat}

@[simp] theorem ends_nil (symbol : Symbol) : symbol.Ends [] := by
  simp [Ends]

@[simp] theorem ends_cons {symbol : Symbol} :
    symbol.Ends (token :: rest) ↔ ¬ symbol.Continues token := by
  simp [Ends]

/-- **Operands with their fields and keys** end before anything but a dot and a bracket. -/
theorem ends_signed_iff : Symbol.signed.Ends rest ↔
    (∀ after, rest ≠ .dot :: after) ∧ ∀ after, rest ≠ .openBracket :: after := by
  cases rest <;> simp [Continues]

/-- **A phrase of a layer** ends where an operand ends and no operator of the layer follows. -/
theorem ends_layer_iff : (Symbol.layer level).Ends rest ↔ Symbol.signed.Ends rest ∧
    ∀ operator after, rest = .operator operator :: after → operator.precedence < level := by
  cases rest with
  | nil => simp
  | cons token rest => cases token <;> simp [Continues]

/-- **An expression** ends where a chain of operators ends and no condition does. -/
theorem ends_expression_iff : Symbol.expression.Ends rest ↔
    (Symbol.layer 1).Ends rest ∧ ∀ after, rest ≠ .question :: after := by
  have bounds := Operator.precedence_bounds
  cases rest with
  | nil => simp
  | cons token rest => cases token <;> simp [Continues, bounds]

/-- **A phrase of an inner layer** ends wherever one of an outer layer does. -/
theorem Ends.inward {outer : Nat} (ends : (Symbol.layer outer).Ends rest) (within : outer ≤ level) :
    (Symbol.layer level).Ends rest := by
  rw [ends_layer_iff] at ends ⊢
  exact ⟨ends.1, fun operator after found =>
    Nat.lt_of_lt_of_le (ends.2 operator after found) within⟩

end Symbol

end Stencil.Formula
