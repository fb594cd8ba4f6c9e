/-
**How deep a tree its tokens can write.**

Each node of a tree has a token of its own, so a tree is at most as deep as it has tokens. It is as
deep as that only if every token is a node of the same path: signs, and a literal or a name behind
them. Of signs the parser allows one less than levels.

* `Derives.depth_le`: **a tree is less deep than it has tokens**, if there are not only signs;
* `ofTokens_shallow`: few tokens write no tree that is deeper than the bound.
-/

import Stencil.Proofs.PrecedenceClimbing

namespace Stencil.Formula

theorem Term.depth_pos (term : Term) : 0 < term.depth := by
  cases term <;> simp [Term.depth]

/-- **Signs before a literal or a name**, and nothing else. -/
inductive OnlySigns : List Token → Prop
  | literal (value : Literal) : OnlySigns [.literal value]
  | name (name : String) : OnlySigns [.name name]
  | not {tokens : List Token} : OnlySigns tokens → OnlySigns (.not :: tokens)
  | negate {tokens : List Token} : OnlySigns tokens → OnlySigns (.operator .subtract :: tokens)

/-- **A tree is less deep than it has tokens**, or all of them lie on one path. -/
theorem Derives.depth_le {symbol : Symbol} {tokens : List Token} {term : Term}
    (derived : Derives symbol tokens term) :
    term.depth < tokens.length ∨ term.depth = tokens.length ∧ OnlySigns tokens := by
  induction derived with
  | chain _ ih => exact ih
  | inner _ _ _ ih => exact ih
  | innermost _ ih => exact ih
  | unsigned _ ih => exact ih
  | bare _ ih => exact ih
  | literal value => exact .inr ⟨rfl, .literal value⟩
  | name name => exact .inr ⟨rfl, .name name⟩
  | not _ ih =>
    rcases ih with less | ⟨same, signs⟩
    · exact .inl (Nat.succ_lt_succ less)
    · exact .inr ⟨congrArg Nat.succ same, .not signs⟩
  | negate _ ih =>
    rcases ih with less | ⟨same, signs⟩
    · exact .inl (Nat.succ_lt_succ less)
    · exact .inr ⟨congrArg Nat.succ same, .negate signs⟩
  | @conditional first second third condition positive negative _ _ _ own yes no =>
    have depths := And.intro condition.depth_pos (And.intro positive.depth_pos negative.depth_pos)
    left
    simp only [Term.depth, List.length_append, List.length_cons]
    omega
  | @link _ _ before after left right _ _ _ own other =>
    have depths := And.intro left.depth_pos right.depth_pos
    left
    simp only [Term.depth, List.length_append, List.length_cons]
    omega
  | member field _ ih =>
    left
    simp only [Term.depth, List.length_append, List.length_cons, List.length_nil]
    omega
  | @index _ _ target key _ _ own inner =>
    have depths := And.intro target.depth_pos key.depth_pos
    left
    simp only [Term.depth, List.length_append, List.length_cons, List.length_nil]
    omega
  | parenthesized _ ih =>
    left
    simp only [List.length_append, List.length_cons, List.length_nil]
    omega

namespace Parse

/-- **Of signs the parser allows one less than levels.** -/
theorem unary_onlySigns {tokens : List Token} (signs : OnlySigns tokens) {levels : Nat}
    (any : 0 < levels) (many : levels < tokens.length) (read : Term × List Token) :
    unary levels tokens ≠ .ok read := by
  induction signs generalizing levels read with
  | literal value =>
    rw [List.length_singleton] at many
    omega
  | name name =>
    rw [List.length_singleton] at many
    omega
  | not _ ih =>
    rw [List.length_cons] at many
    rw [unary]
    split
    · cases inside : unary (levels - 1) _ with
      | error reason => rintro ⟨⟩
      | ok operand => exact absurd inside (ih (by omega) (by omega) operand)
    · rintro ⟨⟩
  | negate _ ih =>
    rw [List.length_cons] at many
    rw [unary]
    split
    · cases inside : unary (levels - 1) _ with
      | error reason => rintro ⟨⟩
      | ok operand => exact absurd inside (ih (by omega) (by omega) operand)
    · rintro ⟨⟩

theorem expression_onlySigns {tokens : List Token} (signs : OnlySigns tokens) {levels : Nat}
    (any : 0 < levels) (many : levels < tokens.length) (read : Term × List Token) :
    expression levels tokens ≠ .ok read := by
  rw [expression, binary]
  cases operand : unary levels tokens with
  | error reason => rintro ⟨⟩
  | ok found => exact absurd operand (unary_onlySigns signs any many found)

end Parse

/-- **Few tokens write no tree that is deeper than the bound.** -/
theorem Term.ofTokens_shallow {tokens : List Token} {term : Term}
    (parsed : ofTokens tokens = .ok term) (few : tokens.length ≤ 257) : term.depth ≤ 256 := by
  have derived := ofTokens_gives tokens
  rw [parsed] at derived
  rcases derived.depth_le with less | ⟨same, signs⟩
  · omega
  · refine Nat.le_of_not_lt fun deep => ?_
    have many : maxDepth < tokens.length := by
      unfold maxDepth
      omega
    unfold ofTokens at parsed
    cases result : Parse.expression maxDepth tokens with
    | error reason =>
      rw [result] at parsed
      cases parsed
    | ok read => exact Parse.expression_onlySigns signs (by decide) many read result

end Stencil.Formula
