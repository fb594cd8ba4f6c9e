/-
**How deep an expression can become.**

The parser counts levels where a phrase is nested in another one and where a chain goes on, but the
tree before a link was read with all levels and is put below the link only afterwards. So each kind
of link, and a condition, comes on top of the depth of the operand: the depth is bounded by the
square of the number of levels and not by that number.

* `Parse.expression_within`: **no tree is deeper than the square of the levels**;
* `Parse.deepTokens_read`: for each number of levels some tree is as deep as that;
* `negatedSumSource_deep`: a source of 258 tokens whose tree is deeper than the number of levels;
* `Term.parse_depth`: **how deep the trees of sources are**, those of at most 257 tokens among them.
-/

import Stencil.Proofs.Cutting
import Stencil.Proofs.TokenDepth

namespace Stencil.Formula

namespace Parse

/-! ### Numbers of levels -/

theorem succ_mul_succ (number : Nat) :
    (number + 1) * (number + 1) = number * number + 2 * number + 1 := by
  rw [Nat.add_mul, Nat.mul_add]
  omega

/-- The most nodes on a path of an operand. -/
def operandDepth (levels : Nat) : Nat :=
  max 1 ((levels - 1) * (levels - 1))

theorem square_le_operandDepth (fewer levels : Nat) (less : fewer < levels) :
    fewer * fewer ≤ operandDepth levels := by
  have square : fewer * fewer ≤ (levels - 1) * (levels - 1) :=
    Nat.mul_self_le_mul_self (Nat.le_sub_one_of_lt less)
  unfold operandDepth
  omega

theorem operandDepth_mono {fewer levels : Nat} (less : fewer ≤ levels) :
    operandDepth fewer ≤ operandDepth levels := by
  have square : (fewer - 1) * (fewer - 1) ≤ (levels - 1) * (levels - 1) :=
    Nat.mul_self_le_mul_self (Nat.sub_le_sub_right less 1)
  unfold operandDepth
  omega

/-- An operand, with as many links of each kind as the levels allow, and a condition around it. -/
theorem operandDepth_add_lt {levels : Nat} (many : 1 < levels) :
    operandDepth levels + 2 * (levels - 1) < levels * levels := by
  obtain ⟨more, rfl⟩ := Nat.exists_eq_add_of_lt many
  have own : 1 * 1 ≤ (1 + more) * (1 + more) := Nat.mul_self_le_mul_self (by omega)
  rw [succ_mul_succ]
  unfold operandDepth
  rw [Nat.add_sub_cancel]
  omega

theorem operandDepth_add_le {levels : Nat} (any : 1 ≤ levels) :
    operandDepth levels + 2 * (levels - 1) ≤ levels * levels := by
  obtain rfl | many := Nat.eq_or_lt_of_le any
  · decide
  · exact Nat.le_of_lt (operandDepth_add_lt many)

/-! ### Depths -/

/-- A parse gives trees of at most some depth. -/
def Within (result : Except Stop (Term × List Token)) (depth : Nat) : Prop :=
  Gives result (fun term _ => term.depth ≤ depth) fun _ => True

mutual

/-- **The levels bound the tree by their square.** -/
theorem expression_within (levels : Nat) (tokens : List Token) (any : 1 ≤ levels) :
    Within (expression levels tokens) (levels * levels) := by
  rw [expression]
  refine (binary_within levels 1 tokens).bind (fun _ _ => trivial) ?_
  intro condition after shallow
  dsimp only
  split
  · split
    · rename_i fits
      have room := operandDepth_add_lt fits
      have inside := square_le_operandDepth (levels - 1) levels (by omega)
      refine (expression_within (levels - 1) _ (by omega)).bind (fun _ _ => trivial) ?_
      intro positive after shallowPositive
      dsimp only
      split
      · refine (expression_within (levels - 1) _ (by omega)).bind (fun _ _ => trivial) ?_
        intro negative rest shallowNegative
        show max condition.depth (max positive.depth negative.depth) + 1 ≤ levels * levels
        omega
      · trivial
    · trivial
  · exact Nat.le_trans shallow (operandDepth_add_le any)
termination_by weight levels 3 0
decreasing_by
  · exact weight_lt_of_rank_lt (by decide)
  · exact weight_lt_of_levels_lt (by omega) (by decide)
  · exact weight_lt_of_levels_lt (by omega) (by decide)

theorem binary_within (levels least : Nat) (tokens : List Token) :
    Within (binary levels least tokens) (operandDepth levels + 2 * (levels - 1)) := by
  rw [binary]
  refine (unary_within levels tokens).bind (fun _ _ => trivial) ?_
  intro left after shallow
  exact binaryChain_within levels least 0 left after shallow (by omega)
termination_by weight levels 2 0
decreasing_by
  · exact weight_lt_of_rank_lt (by decide)
  · exact weight_lt_of_rank_lt (by decide)

/-- **Each link puts the tree before it one level down**, without a look at its depth. -/
theorem binaryChain_within (levels least links : Nat) (left : Term) (tokens : List Token)
    (shallow : left.depth ≤ operandDepth levels + (levels - 1) + links)
    (few : links ≤ levels - 1) :
    Within (binaryChain levels least links left tokens)
      (operandDepth levels + 2 * (levels - 1)) := by
  rw [binaryChain.eq_def]
  split
  · rename_i operator after
    split
    · show left.depth ≤ _
      omega
    · split
      · rename_i fits
        refine (binary_within (levels - (links + 1)) (operator.precedence + 1) after).bind
          (fun _ _ => trivial) ?_
        intro right rest shallowRight
        have inside := operandDepth_add_le (Nat.le_sub_of_add_le' fits)
        have outside := square_le_operandDepth (levels - (links + 1)) levels (by omega)
        refine binaryChain_within levels least (links + 1) _ rest ?_ (by omega)
        show max left.depth right.depth + 1 ≤ _
        omega
      · trivial
  · show left.depth ≤ _
    omega
termination_by weight levels 1 links
decreasing_by
  · exact weight_lt_of_levels_lt (by omega) (by decide)
  · exact weight_lt_of_links_lt (by omega) (by omega)

theorem unary_within (levels : Nat) (tokens : List Token) :
    Within (unary levels tokens) (operandDepth levels + (levels - 1)) := by
  have fewer := operandDepth_mono (Nat.sub_le levels 1)
  rw [unary.eq_def]
  split
  · split
    · refine (unary_within (levels - 1) _).bind (fun _ _ => trivial) ?_
      intro operand rest shallow
      show operand.depth + 1 ≤ _
      omega
    · trivial
  · split
    · refine (unary_within (levels - 1) _).bind (fun _ _ => trivial) ?_
      intro operand rest shallow
      show operand.depth + 1 ≤ _
      omega
    · trivial
  · refine (primary_within levels tokens).bind (fun _ _ => trivial) ?_
    intro operand after shallow
    exact accessChain_within levels 0 operand after shallow (by omega)
termination_by weight levels 1 0
decreasing_by
  · exact weight_lt_of_levels_lt (by omega) (by decide)
  · exact weight_lt_of_levels_lt (by omega) (by decide)
  · exact weight_lt_of_rank_lt (by decide)
  · exact weight_lt_of_rank_lt (by decide)

theorem primary_within (levels : Nat) (tokens : List Token) :
    Within (primary levels tokens) (operandDepth levels) := by
  rw [primary.eq_def]
  split
  · exact Nat.le_max_left _ _
  · exact Nat.le_max_left _ _
  · split
    · refine (expression_within (levels - 1) _ (by omega)).bind (fun _ _ => trivial) ?_
      intro inner after shallow
      dsimp only
      split
      · exact Nat.le_trans shallow (Nat.le_max_right _ _)
      · trivial
    · trivial
  · trivial
  · trivial
termination_by weight levels 0 0
decreasing_by
  · exact weight_lt_of_levels_lt (by omega) (by decide)

theorem accessChain_within (levels links : Nat) (target : Term) (tokens : List Token)
    (shallow : target.depth ≤ operandDepth levels + links)
    (few : links ≤ levels - 1) :
    Within (accessChain levels links target tokens) (operandDepth levels + (levels - 1)) := by
  rw [accessChain.eq_def]
  split
  · split
    · split
      · refine accessChain_within levels (links + 1) _ _ ?_ (by omega)
        show target.depth + 1 ≤ _
        omega
      · trivial
    · trivial
  · split
    · rename_i fits
      refine (expression_within (levels - (links + 1)) _ (by omega)).bind (fun _ _ => trivial) ?_
      intro key after shallowKey
      dsimp only
      split
      · have inside := square_le_operandDepth (levels - (links + 1)) levels (by omega)
        refine accessChain_within levels (links + 1) _ _ ?_ (by omega)
        show max target.depth key.depth + 1 ≤ _
        omega
      · trivial
    · trivial
  · show target.depth ≤ _
    omega
termination_by weight levels 0 links
decreasing_by
  · exact weight_lt_of_links_lt (by omega) (by omega)
  · exact weight_lt_of_levels_lt (by omega) (by decide)
  · exact weight_lt_of_links_lt (by omega) (by omega)

end

/-! ### Deep trees -/

variable {rest : List Token}

theorem binary_literal {levels least : Nat} (value : Literal)
    (ends : (Symbol.layer least).Ends rest) :
    binary levels least (.literal value :: rest) = .ok (.literal value, rest) := by
  have plain := (Symbol.ends_layer_iff.mp ends).1
  rw [binary, unary_unsigned (by simp) (by simp), primary]
  show (accessChain levels 0 (.literal value) rest >>= fun read => _) = _
  rw [accessChain_ends plain]
  exact binaryChain_ends ends

theorem expression_literal {levels : Nat} (value : Literal) (ends : Symbol.expression.Ends rest) :
    expression levels (.literal value :: rest) = .ok (.literal value, rest) := by
  obtain ⟨chainEnds, plain⟩ := Symbol.ends_expression_iff.mp ends
  rw [expression, binary_literal value chainEnds]
  dsimp only [bind, Except.bind]
  split
  · exact absurd rfl (plain _)
  · rfl

theorem expression_conditional {levels : Nat} {tokens first second : List Token}
    {condition positive negative : Term} (fits : 1 < levels)
    (asked : binary levels 1 tokens = .ok (condition, .question :: first))
    (read : expression (levels - 1) first = .ok (positive, .colon :: second))
    (last : expression (levels - 1) second = .ok (negative, rest)) :
    expression levels tokens = .ok (.conditional condition positive negative, rest) := by
  rw [expression, asked]
  dsimp only [bind, Except.bind]
  rw [dif_pos fits, read]
  dsimp only
  rw [last]

/-- Fields behind an operand, one in another. -/
def fields (count : Nat) : List Token :=
  (List.replicate count [Token.dot, .name "x"]).flatten

/-- Sums behind an operand. -/
def sums (count : Nat) : List Token :=
  (List.replicate count [Token.operator .add, .literal .null]).flatten

theorem accessChain_fields {levels : Nat} (count links : Nat) (target : Term)
    (fits : links + count < levels) :
    ∃ longer, longer.depth = target.depth + count ∧
      accessChain levels links target (fields count ++ rest) =
        accessChain levels (links + count) longer rest := by
  induction count generalizing links target with
  | zero => exact ⟨target, rfl, rfl⟩
  | succ count ih =>
    obtain ⟨longer, deeper, same⟩ := ih (links + 1) (.member target "x") (by omega)
    refine ⟨longer, by rw [deeper, Term.depth]; omega, ?_⟩
    show accessChain levels links target (.dot :: .name "x" :: (fields count ++ rest)) = _
    rw [accessChain, dif_pos (by omega), same, Nat.add_right_comm, Nat.add_assoc]

theorem binaryChain_sums {levels : Nat} (count links : Nat) (left : Term)
    (fits : links + count < levels) (ends : (Symbol.layer 1).Ends rest) :
    ∃ longer, longer.depth = left.depth + count ∧
      binaryChain levels 1 links left (sums count ++ rest) =
        binaryChain levels 1 (links + count) longer rest := by
  induction count generalizing links left with
  | zero => exact ⟨left, rfl, rfl⟩
  | succ count ih =>
    obtain ⟨longer, deeper, same⟩ :=
      ih (links + 1) (.binary .add left (.literal .null)) (by omega)
    refine ⟨longer, ?_, ?_⟩
    · have own := left.depth_pos
      rw [deeper]
      show max left.depth 1 + 1 + count = _
      omega
    · show binaryChain levels 1 links left
        (.operator .add :: .literal .null :: (sums count ++ rest)) = _
      have behind : (Symbol.layer 6).Ends (sums count ++ rest) := by
        cases count with
        | zero => exact ends.inward (by decide)
        | succ count =>
          show (Symbol.layer 6).Ends (.operator .add :: _)
          simp [Symbol.Continues, Operator.precedence]
      rw [binaryChain, if_neg (by decide), dif_pos (by omega)]
      show (binary _ 6 _ >>= _) = _
      rw [binary_literal .null behind]
      show binaryChain _ _ _ _ _ = _
      rw [same, Nat.add_right_comm, Nat.add_assoc]

/-- **Tokens of a tree as deep as the levels allow**, before others: the tree for one level less in
parentheses, then all links that are allowed, one kind after the other, and a conditional. -/
def deepTokens : Nat → List Token → List Token
  | 0, rest => .literal .null :: rest
  | more + 1, rest =>
    .openParenthesis :: deepTokens more (.closeParenthesis :: (fields (more + 1) ++
      (sums (more + 1) ++ .question :: .literal .null :: .colon :: .literal .null :: rest)))

theorem deepTokens_read (more : Nat) (ends : Symbol.expression.Ends rest) :
    ∃ term, term.depth = (more + 1) * (more + 1) ∧
      expression (more + 1) (deepTokens more rest) = .ok (term, rest) := by
  induction more generalizing rest with
  | zero => exact ⟨.literal .null, rfl, expression_literal .null ends⟩
  | succ more ih =>
    let choice : List Token := .question :: .literal .null :: .colon :: .literal .null :: rest
    have choiceEnds : (Symbol.layer 1).Ends choice := by simp [choice, Symbol.Continues]
    have sumsEnd : Symbol.signed.Ends (sums (more + 1) ++ choice) := by
      show Symbol.signed.Ends (.operator .add :: _)
      simp [Symbol.Continues]
    obtain ⟨inner, innerDepth, innerRead⟩ :=
      @ih (.closeParenthesis :: (fields (more + 1) ++ (sums (more + 1) ++ choice)))
        (by simp [Symbol.Continues])
    obtain ⟨target, targetDepth, targetRead⟩ :=
      @accessChain_fields (sums (more + 1) ++ choice) (more + 2) (more + 1) 0 inner (by omega)
    obtain ⟨condition, conditionDepth, conditionRead⟩ :=
      @binaryChain_sums choice (more + 2) (more + 1) 0 target (by omega) choiceEnds
    refine ⟨.conditional condition (.literal .null) (.literal .null), ?_, ?_⟩
    · have square := succ_mul_succ (more + 1)
      show max condition.depth (max 1 1) + 1 = _
      omega
    · have operand : primary (more + 2) (deepTokens (more + 1) rest) =
          .ok (inner, fields (more + 1) ++ (sums (more + 1) ++ choice)) := by
        rw [deepTokens, primary, dif_pos (by omega)]
        show (expression (more + 1) _ >>= _) = _
        rw [innerRead]
        rfl
      have chain : binary (more + 2) 1 (deepTokens (more + 1) rest) = .ok (condition, choice) := by
        rw [binary, unary_unsigned (by simp [deepTokens]) (by simp [deepTokens]), operand]
        show (accessChain _ _ _ _ >>= fun read => _) = _
        rw [targetRead, accessChain_ends sumsEnd]
        show binaryChain _ _ _ _ _ = _
        rw [conditionRead, binaryChain_ends choiceEnds]
      exact expression_conditional (by omega) chain
        (expression_literal .null (by simp [Symbol.Continues])) (expression_literal .null ends)

end Parse

/-! ### The whole parser -/

theorem Term.parse_eq_ok_iff {source : String} {term : Term} :
    parse source = .ok term ↔ ∃ lexemes, Lexeme.scan 0 (Text.trim source.toList) = .ok lexemes ∧
      ofTokens (lexemes.map Lexeme.token) = .ok term := by
  unfold parse Term.read
  cases scanned : Lexeme.scan 0 (Text.trim source.toList) with
  | error fault => simp [scanned, bind, Except.bind, Except.mapError]
  | ok lexemes =>
    cases parsed : ofTokens (lexemes.map Lexeme.token) <;>
      simp [scanned, bind, Except.bind, Except.mapError, parsed]

theorem Term.ofTokens_depth_le {tokens : List Token} {term : Term}
    (parsed : ofTokens tokens = .ok term) : term.depth ≤ maxDepth * maxDepth := by
  have within := Parse.expression_within maxDepth tokens (by decide)
  unfold ofTokens at parsed
  cases result : Parse.expression maxDepth tokens with
  | error reason =>
    rw [result] at parsed
    cases parsed
  | ok read =>
    obtain ⟨found, rest⟩ := read
    rw [result] at parsed within
    cases rest with
    | nil =>
      cases parsed
      exact within
    | cons token rest => cases parsed

/-- **Some tree is as deep as the square of the bound.** -/
theorem Term.ofTokens_depth_attained :
    ∃ tokens term, ofTokens tokens = .ok term ∧ term.depth = maxDepth * maxDepth := by
  obtain ⟨term, depth, read⟩ := Parse.deepTokens_read 255 (Symbol.ends_nil _)
  refine ⟨Parse.deepTokens 255 [], term, ?_, depth⟩
  unfold ofTokens
  show (Parse.expression 256 _ >>= _) = _
  rw [read]
  rfl

/-! ### A tree deeper than the bound -/

theorem next_not {rest : List Char} (apart : rest.head? ≠ some '=') :
    Lexeme.next '!' rest = .ok ⟨.not, 1, rest⟩ := by
  have isSymbol : Lexeme.symbol? ('!' :: rest) = some ⟨.not, 1, rest⟩ := by
    rw [Lexeme.symbol?]
    all_goals
      rintro after rfl
      exact apart rfl
  have notName : isNameStart '!' = false := by decide +kernel
  unfold Lexeme.next
  rw [if_neg (by decide), if_neg (by decide), notName, if_neg Bool.false_ne_true, isSymbol]

theorem scan_nots {rest : List Char} {lexemes : List Lexeme} (apart : rest.head? ≠ some '=')
    (count offset : Nat) (scanned : Lexeme.scan (offset + count) rest = .ok lexemes) :
    ∃ nots, nots.map Lexeme.token = List.replicate count Token.not ∧
      Lexeme.scan offset (List.replicate count '!' ++ rest) = .ok (nots ++ lexemes) := by
  induction count generalizing offset with
  | zero => exact ⟨[], rfl, scanned⟩
  | succ count ih =>
    rw [Nat.add_succ, ← Nat.succ_add] at scanned
    obtain ⟨nots, tokens, same⟩ := ih (offset + 1) scanned
    have apartHere : (List.replicate count '!' ++ rest).head? ≠ some '=' := by
      cases count with
      | zero => exact apart
      | succ count => exact fun same => by cases same
    refine ⟨⟨.not, offset⟩ :: nots, congrArg (List.cons _) tokens, ?_⟩
    show Lexeme.scan offset ('!' :: (List.replicate count '!' ++ rest)) = _
    rw [Lexeme.scan_token (by decide) (next_not apartHere), same]
    rfl

theorem unary_nots {rest : List Token} (ends : Symbol.signed.Ends rest) (name : String)
    (count levels : Nat) (fits : count < levels) :
    ∃ term, term.depth = count + 1 ∧
      Parse.unary levels (List.replicate count .not ++ .name name :: rest) = .ok (term, rest) := by
  induction count generalizing levels with
  | zero =>
    refine ⟨.name name, rfl, ?_⟩
    show Parse.unary levels (.name name :: rest) = _
    rw [Parse.unary_unsigned (by simp) (by simp), Parse.primary]
    exact Parse.accessChain_ends ends
  | succ count ih =>
    obtain ⟨term, depth, read⟩ := ih (levels - 1) (by omega)
    refine ⟨.not term, congrArg Nat.succ depth, ?_⟩
    show Parse.unary levels (.not :: (List.replicate count .not ++ .name name :: rest)) = _
    rw [Parse.unary, dif_pos (by omega), read]
    rfl

/-- Negations of a sum's first operand. -/
def negatedSum (count : Nat) : List Token :=
  List.replicate count .not ++ .name "a" :: Parse.sums 1

/-- **Negations that the levels allow, and a sum**: the sum puts them one level down. -/
theorem negatedSum_read (count levels : Nat) (fits : count < levels) (any : 1 < levels) :
    ∃ term, term.depth = count + 2 ∧
      Parse.expression levels (negatedSum count) = .ok (term, []) := by
  obtain ⟨left, leftDepth, leftRead⟩ := @unary_nots (Parse.sums 1)
    (by simp [Parse.sums, Symbol.Continues]) "a" count levels fits
  obtain ⟨term, depth, read⟩ :=
    @Parse.binaryChain_sums [] levels 1 0 left (by omega) (Symbol.ends_nil _)
  rw [List.append_nil] at read
  refine ⟨term, by omega, ?_⟩
  have chain : Parse.binary levels 1 (negatedSum count) = .ok (term, []) := by
    rw [Parse.binary, negatedSum, leftRead]
    show Parse.binaryChain levels 1 0 left (Parse.sums 1) = _
    rw [read, Parse.binaryChain_ends (Symbol.ends_nil _)]
  rw [Parse.expression, chain]
  rfl

set_option maxRecDepth 4000 in
theorem scan_sum (offset : Nat) : Lexeme.scan offset "a+null".toList =
    .ok [⟨.name "a", offset⟩, ⟨.operator .add, offset + 1⟩, ⟨.literal .null, offset + 2⟩] := by
  with_unfolding_all rfl

/-- The source of negations of a sum's first operand. -/
def negatedSumSource (count : Nat) : String :=
  String.ofList (List.replicate count '!' ++ "a+null".toList)

theorem negatedSumSource_scan (more : Nat) :
    ∃ lexemes, Lexeme.scan 0 (Text.trim (negatedSumSource (more + 1)).toList) = .ok lexemes ∧
      lexemes.map Lexeme.token = negatedSum (more + 1) := by
  obtain ⟨nots, tokens, scanned⟩ := scan_nots (by decide) (more + 1) 0 (scan_sum _)
  have trimmed : Text.trim (negatedSumSource (more + 1)).toList =
      List.replicate (more + 1) '!' ++ "a+null".toList := by
    rw [negatedSumSource, String.toList_ofList, List.replicate_succ, List.cons_append]
    exact Text.trim_cons_append (by decide) (by decide) (by decide) _
  refine ⟨_, trimmed ▸ scanned, ?_⟩
  rw [List.map_append, tokens]
  rfl

/-- The source is accepted with as many negations as there are levels but one. -/
theorem negatedSumSource_read (more : Nat) (fits : more + 1 < Term.maxDepth) :
    ∃ lexemes term, Lexeme.scan 0 (Text.trim (negatedSumSource (more + 1)).toList) = .ok lexemes ∧
      Term.parse (negatedSumSource (more + 1)) = .ok term ∧ lexemes.length = more + 4 ∧
      term.depth = more + 3 := by
  obtain ⟨lexemes, scanned, tokens⟩ := negatedSumSource_scan more
  obtain ⟨term, depth, read⟩ := negatedSum_read (more + 1) Term.maxDepth fits (by decide)
  refine ⟨lexemes, term, scanned, Term.parse_eq_ok_iff.mpr ⟨lexemes, scanned, ?_⟩, ?_, depth⟩
  · rw [tokens, Term.ofTokens, read]
    rfl
  · have count := congrArg List.length tokens
    simp only [List.length_map, negatedSum, List.length_append, List.length_replicate,
      List.length_cons] at count
    rw [count]
    rfl

/-- **A tree deeper than the bound is accepted**: 255 negations take all levels, and the sum puts
them one level down. -/
theorem negatedSumSource_deep :
    ∃ term, Term.parse (negatedSumSource 255) = .ok term ∧ 256 < term.depth := by
  obtain ⟨lexemes, term, -, parsed, -, depth⟩ := negatedSumSource_read 254 (by decide)
  exact ⟨term, parsed, by omega⟩

/-- **How deep the tree of a source is**: never deeper than the square of the bound, and not deeper
than the bound if the source has at most 257 tokens. -/
theorem Term.parse_depth {source : String} {term : Term} {lexemes : List Lexeme}
    (scanned : Lexeme.scan 0 (Text.trim source.toList) = .ok lexemes)
    (parsed : parse source = .ok term) :
    term.depth ≤ 256 * 256 ∧ (lexemes.length ≤ 257 → term.depth ≤ 256) := by
  obtain ⟨found, same, read⟩ := parse_eq_ok_iff.mp parsed
  rw [scanned] at same
  cases same
  exact ⟨ofTokens_depth_le read, fun few => ofTokens_shallow read (by simpa using few)⟩

/-- With one negation less the source has 257 tokens, and its tree is as deep as the bound. -/
theorem negatedSumSource_shallow :
    ∃ lexemes term, Lexeme.scan 0 (Text.trim (negatedSumSource 254).toList) = .ok lexemes ∧
      Term.parse (negatedSumSource 254) = .ok term ∧ lexemes.length = 257 ∧ term.depth = 256 ∧
      term.depth ≤ 256 * 256 ∧ term.depth ≤ 256 := by
  obtain ⟨lexemes, term, scanned, parsed, count, depth⟩ := negatedSumSource_read 253 (by decide)
  obtain ⟨bounded, shallow⟩ := Term.parse_depth scanned parsed
  exact ⟨lexemes, term, scanned, parsed, count, depth, bounded, shallow count.le⟩

end Stencil.Formula
