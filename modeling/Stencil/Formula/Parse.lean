/-
**From tokens to expressions.**

A parser goes down from conditionals over operators, by how tightly they bind, to signs, operands and
what may follow an operand. It is given the number of levels that the tree may still have; each nesting
takes one of them and each link of a chain takes one more than the link before, so that the parser ends
and no tree becomes deeper than the levels it was given.

* `Parse.expression`, `Parse.binary`, `Parse.unary`, `Parse.primary`: the levels of the grammar;
* `Term.ofTokens`: the expression that is written by all given tokens;
* `Term.parse`: the expression of a source, or the first fault and its byte offset.
-/

import Stencil.Formula.Term

namespace Stencil.Formula

/-- **Where and why parsing stopped**: with `left` tokens still to read. -/
structure Parse.Stop where
  cause : Cause
  left : Nat
  deriving DecidableEq

namespace Parse

/-- Stops before the first of the tokens that are left. -/
def stop {α : Type} (cause : Cause) (tokens : List Token) : Except Stop α :=
  .error ⟨cause, tokens.length⟩

/-! ### The parser ends -/

/-- **What each call of the parser lowers**: first the levels, then the rank in the grammar, then the
links that a chain may still have. -/
def weight (levels rank links : Nat) : Nat :=
  4 * (levels * levels) + rank * (levels + 1) + (levels - links)

theorem weight_lt_of_levels_lt {fewer levels rank other links used : Nat} (less : fewer < levels)
    (small : rank ≤ 3) : weight fewer rank links < weight levels other used := by
  have square : (fewer + 1) * (fewer + 1) ≤ levels * levels := Nat.mul_self_le_mul_self less
  have ranks : rank * (fewer + 1) ≤ 3 * (fewer + 1) := Nat.mul_le_mul_right _ small
  rw [Nat.add_mul, Nat.mul_add] at square
  unfold weight
  omega

theorem weight_lt_of_rank_lt {levels rank higher links used : Nat} (less : rank < higher) :
    weight levels rank links < weight levels higher used := by
  have ranks : (rank + 1) * (levels + 1) ≤ higher * (levels + 1) := Nat.mul_le_mul_right _ less
  rw [Nat.add_mul] at ranks
  unfold weight
  omega

theorem weight_lt_of_links_lt {levels rank links more : Nat} (less : links < more)
    (few : links < levels) : weight levels rank more < weight levels rank links := by
  unfold weight
  omega

/-! ### The levels of the grammar -/

mutual

/-- **A conditional or a chain of operators**, and the tokens after it. -/
def expression (levels : Nat) (tokens : List Token) : Except Stop (Term × List Token) := do
  let (condition, tokens) ← binary levels 1 tokens
  match tokens with
  | .question :: tokens =>
    if _fits : 1 < levels then
      let (positive, tokens) ← expression (levels - 1) tokens
      match tokens with
      | .colon :: tokens =>
        let (negative, tokens) ← expression (levels - 1) tokens
        .ok (.conditional condition positive negative, tokens)
      | tokens => stop .missingColon tokens
    else stop .tooDeep tokens
  | tokens => .ok (condition, tokens)
termination_by weight levels 3 0
decreasing_by
  · exact weight_lt_of_rank_lt (by decide)
  · exact weight_lt_of_levels_lt (by omega) (by decide)
  · exact weight_lt_of_levels_lt (by omega) (by decide)

/-- **A chain of operators** that bind at least as tightly as `least`. -/
def binary (levels least : Nat) (tokens : List Token) : Except Stop (Term × List Token) := do
  let (left, tokens) ← unary levels tokens
  binaryChain levels least 0 left tokens
termination_by weight levels 2 0
decreasing_by
  · exact weight_lt_of_rank_lt (by decide)
  · exact weight_lt_of_rank_lt (by decide)

/-- The links of a chain of operators after its first `links` and the tree `left` they make up. -/
def binaryChain (levels least links : Nat) (left : Term) (tokens : List Token) :
    Except Stop (Term × List Token) := do
  match tokens with
  | .operator operator :: rest =>
    if operator.precedence < least then .ok (left, tokens)
    else if _fits : links + 1 < levels then
      let (right, rest) ← binary (levels - (links + 1)) (operator.precedence + 1) rest
      binaryChain levels least (links + 1) (.binary operator left right) rest
    else stop .tooDeep rest
  | _ => .ok (left, tokens)
termination_by weight levels 1 links
decreasing_by
  · exact weight_lt_of_levels_lt (by omega) (by decide)
  · exact weight_lt_of_links_lt (by omega) (by omega)

/-- **An operand with its signs.** -/
def unary (levels : Nat) (tokens : List Token) : Except Stop (Term × List Token) := do
  match tokens with
  | .not :: rest =>
    if _fits : 1 < levels then
      let (operand, rest) ← unary (levels - 1) rest
      .ok (.not operand, rest)
    else stop .tooDeep rest
  | .operator .subtract :: rest =>
    if _fits : 1 < levels then
      let (operand, rest) ← unary (levels - 1) rest
      .ok (.negate operand, rest)
    else stop .tooDeep rest
  | tokens =>
    let (operand, tokens) ← primary levels tokens
    accessChain levels 0 operand tokens
termination_by weight levels 1 0
decreasing_by
  · exact weight_lt_of_levels_lt (by omega) (by decide)
  · exact weight_lt_of_levels_lt (by omega) (by decide)
  · exact weight_lt_of_rank_lt (by decide)
  · exact weight_lt_of_rank_lt (by decide)

/-- **An operand**: a literal, a name, or an expression in parentheses. -/
def primary (levels : Nat) (tokens : List Token) : Except Stop (Term × List Token) := do
  match tokens with
  | .literal value :: rest => .ok (.literal value, rest)
  | .name name :: rest => .ok (.name name, rest)
  | .openParenthesis :: rest =>
    if _fits : 1 < levels then
      let (inner, rest) ← expression (levels - 1) rest
      match rest with
      | .closeParenthesis :: rest => .ok (inner, rest)
      | rest => stop .missingParenthesis rest
    else stop .tooDeep rest
  | [] => stop .unexpectedEnd tokens
  | _ => stop .unexpectedToken tokens
termination_by weight levels 0 0
decreasing_by
  · exact weight_lt_of_levels_lt (by omega) (by decide)

/-- The fields and keys after an operand, past the first `links` and the tree `target` they make
up. -/
def accessChain (levels links : Nat) (target : Term) (tokens : List Token) :
    Except Stop (Term × List Token) := do
  match tokens with
  | .dot :: rest =>
    if _fits : links + 1 < levels then
      match rest with
      | .name field :: rest => accessChain levels (links + 1) (.member target field) rest
      | rest => stop .missingField rest
    else stop .tooDeep rest
  | .openBracket :: rest =>
    if _fits : links + 1 < levels then
      let (key, rest) ← expression (levels - (links + 1)) rest
      match rest with
      | .closeBracket :: rest => accessChain levels (links + 1) (.index target key) rest
      | rest => stop .missingBracket rest
    else stop .tooDeep rest
  | tokens => .ok (target, tokens)
termination_by weight levels 0 links
decreasing_by
  · exact weight_lt_of_links_lt (by omega) (by omega)
  · exact weight_lt_of_levels_lt (by omega) (by decide)
  · exact weight_lt_of_links_lt (by omega) (by omega)

end

end Parse

/-- **The most levels that an expression may have.** -/
def Term.maxDepth : Nat := 256

/-- **The expression that the given tokens write.** -/
def Term.ofTokens (tokens : List Token) : Except Parse.Stop Term := do
  match ← Parse.expression maxDepth tokens with
  | (term, []) => .ok term
  | (_, rest) => Parse.stop .unexpectedToken rest

/-- The byte offset at which the last `left` of the lexemes start; past them, the end of the text. -/
def Lexeme.offsetOf (lexemes : List Lexeme) (size left : Nat) : Nat :=
  ((lexemes[lexemes.length - left]?).map Lexeme.offset).getD size

/-- **The expression that a text writes.** -/
def Term.read (text : List Char) : Except (Cause × Nat) Term := do
  let lexemes ← Lexeme.scan 0 text
  (Term.ofTokens (lexemes.map Lexeme.token)).mapError fun stopped =>
    (stopped.cause, Lexeme.offsetOf lexemes (Text.utf8Size text) stopped.left)

/-- **The expression of a source**, whose outer blanks do not count. -/
def Term.parse (source : String) : Except Fault Term :=
  let text := Text.trim source.toList
  (Term.read text).mapError fun found => ⟨found.1, found.2, String.ofList text⟩

end Stencil.Formula
