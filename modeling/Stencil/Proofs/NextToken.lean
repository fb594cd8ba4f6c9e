/-
**The parser of expressions decides by the next token.**

Tokens are viable if more tokens make a phrase of them. Each part of the parser reads viable tokens and
comes to its answer there, whatever stands behind the token that comes next: where it stops, it would
stop as well if a phrase went on behind that token.

* `Viable`: **what a phrase may start with**;
* `Viable.positive`, `Viable.link` and their fellows: it may start so inside a larger phrase;
* `Parse.Decides`: a part of the parser stops behind tokens that are allowed, by the next token;
* `Parse.Decides.bind`: such parts follow one another;
* `Parse.expression_decides` and its fellows: **every level of the grammar decides so**.
-/

import Stencil.Proofs.PrecedenceClimbing

namespace Stencil.Formula

/-! ### What phrases start with -/

/-- **Tokens that a phrase may start with**: with more tokens behind them they are one. -/
def Viable (symbol : Symbol) (tokens : List Token) : Prop :=
  ∃ more term, Derives symbol (tokens ++ more) term

section Viability

variable {symbol : Symbol} {tokens before first second : List Token} {term : Term}

theorem Derives.viable (derived : Derives symbol tokens term) : Viable symbol tokens :=
  ⟨[], term, by rwa [List.append_nil]⟩

theorem Viable.of_prefix (viable : Viable symbol tokens) (starts : before <+: tokens) :
    Viable symbol before := by
  obtain ⟨between, rfl⟩ := starts
  obtain ⟨more, term, derived⟩ := viable
  exact ⟨between ++ more, term, by rwa [← List.append_assoc]⟩

/-- Nothing has been read of an operand. -/
theorem viable_nil : Viable .operand [] :=
  ⟨[.name "x"], _, .name "x"⟩

theorem Viable.chain (viable : Viable (.layer 1) tokens) : Viable .expression tokens := by
  obtain ⟨more, term, derived⟩ := viable
  exact ⟨more, term, .chain derived⟩

theorem Viable.positive (viable : Viable .expression tokens)
    (condition : Derives (.layer 1) first term) :
    Viable .expression (first ++ .question :: tokens) := by
  obtain ⟨more, positive, derived⟩ := viable
  have whole := Derives.conditional condition derived
    (.chain (.outward (.innermost (.unsigned (.bare (.name "x")))) (Nat.le_refl 1) (by decide)
      (Nat.le_refl 7)))
  exact ⟨more ++ [.colon, .name "x"], _, by simpa using whole⟩

theorem Viable.negative {positive : Term} (viable : Viable .expression tokens)
    (condition : Derives (.layer 1) first term) (derived : Derives .expression second positive) :
    Viable .expression (first ++ .question :: (second ++ .colon :: tokens)) := by
  obtain ⟨more, negative, last⟩ := viable
  exact ⟨more, _, by simpa using Derives.conditional condition derived last⟩

theorem Viable.outward {level outer : Nat} (viable : Viable (.layer level) tokens)
    (least : 1 ≤ outer) (within : outer ≤ level) (most : level ≤ 7) :
    Viable (.layer outer) tokens := by
  obtain ⟨more, term, derived⟩ := viable
  exact ⟨more, term, derived.outward least within most⟩

theorem Viable.innermost (viable : Viable .signed tokens) : Viable (.layer 7) tokens := by
  obtain ⟨more, term, derived⟩ := viable
  exact ⟨more, term, .innermost derived⟩

theorem Viable.link {operator : Operator} (viable : Viable (.layer (operator.precedence + 1)) tokens)
    (left : Derives (.layer operator.precedence) before term) :
    Viable (.layer operator.precedence) (before ++ .operator operator :: tokens) := by
  obtain ⟨more, right, derived⟩ := viable
  exact ⟨more, _, by simpa using Derives.link (mem_layerOperators_iff.mpr rfl) left derived⟩

theorem Viable.not (viable : Viable .signed tokens) : Viable .signed (.not :: tokens) := by
  obtain ⟨more, term, derived⟩ := viable
  exact ⟨more, _, .not derived⟩

theorem Viable.negate (viable : Viable .signed tokens) :
    Viable .signed (.operator .subtract :: tokens) := by
  obtain ⟨more, term, derived⟩ := viable
  exact ⟨more, _, .negate derived⟩

theorem Viable.unsigned (viable : Viable .operand tokens) : Viable .signed tokens := by
  obtain ⟨more, term, derived⟩ := viable
  exact ⟨more, term, .unsigned (.bare derived)⟩

theorem Viable.parenthesized (viable : Viable .expression tokens) :
    Viable .operand (.openParenthesis :: tokens) := by
  obtain ⟨more, term, derived⟩ := viable
  exact ⟨more ++ [.closeParenthesis], term, by simpa using Derives.parenthesized derived⟩

theorem viable_dot (target : Derives .access before term) : Viable .signed (before ++ [.dot]) :=
  ⟨[.name "x"], _, by simpa using Derives.unsigned (.member "x" target)⟩

theorem Viable.index (viable : Viable .expression tokens) (target : Derives .access before term) :
    Viable .signed (before ++ .openBracket :: tokens) := by
  obtain ⟨more, key, derived⟩ := viable
  exact ⟨more ++ [.closeBracket], _, by simpa using Derives.unsigned (.index target derived)⟩

end Viability

namespace Parse

/-! ### The next token decides -/

/-- **What a part of the parser comes to.** -/
inductive Answer
  | read (term : Term)
  | stopped (cause : Cause)

/-- The answer where these tokens are left. -/
def Answer.before : Answer → List Token → Except Stop (Term × List Token)
  | .read term, rest => .ok (term, rest)
  | .stopped cause, rest => stop cause rest

/-- **A part of the parser decides by the next token.** It reads some tokens, and comes to the same
answer whatever stands behind the token after them. Where it stops, what it has read is `allowed`,
unless the tree is too deep. -/
def Decides (allowed : List Token → Prop) (part : List Token → Except Stop (Term × List Token))
    (tokens : List Token) : Prop :=
  ∃ (used rest : List Token) (answer : Answer), tokens = used ++ rest ∧
    (∀ other : List Token, other.head? = rest.head? → part (used ++ other) = answer.before other) ∧
    ∀ cause, answer = .stopped cause → cause ≠ .tooDeep → allowed used

section Deciding

variable {allowed : List Token → Prop} {part next : List Token → Except Stop (Term × List Token)}
  {token : Token} {tokens : List Token}

theorem Decides.read (term : Term)
    (answers : ∀ other, other.head? = tokens.head? → part other = .ok (term, other)) :
    Decides allowed part tokens :=
  ⟨[], tokens, .read term, rfl, answers, nofun⟩

theorem Decides.stop (cause : Cause)
    (answers : ∀ other, other.head? = tokens.head? → part other = stop cause other)
    (before : cause ≠ .tooDeep → allowed []) : Decides allowed part tokens :=
  ⟨[], tokens, .stopped cause, rfl, answers, by rintro _ ⟨⟩; exact before⟩

/-- A part that does the same as another with the next token that it sees. -/
theorem Decides.congr (agrees : ∀ other, other.head? = tokens.head? → part other = next other)
    (decides : Decides allowed next tokens) : Decides allowed part tokens := by
  obtain ⟨used, rest, answer, rfl, answers, before⟩ := decides
  refine ⟨used, rest, answer, rfl, fun other same => ?_, before⟩
  rw [agrees (used ++ other) (by simp [List.head?_append, same]), answers other same]

/-- A part that reads the next token. -/
theorem Decides.eat
    (decides : Decides (fun used => allowed (token :: used)) (fun other => part (token :: other))
      tokens) : Decides allowed part (token :: tokens) := by
  obtain ⟨used, rest, answer, rfl, answers, before⟩ := decides
  exact ⟨token :: used, rest, answer, rfl, answers, before⟩

/-- **A part that needs a certain token** stops where it does not come. -/
theorem Decides.expect (token : Token) (cause : Cause)
    (eaten : ∀ rest, Decides (fun used => allowed (token :: used))
      (fun other => part (token :: other)) rest)
    (missing : ∀ other, other.head? ≠ some token → part other = Parse.stop cause other)
    (before : allowed []) : Decides allowed part tokens := by
  by_cases found : tokens.head? = some token
  · obtain ⟨rest, rfl⟩ := List.head?_eq_some_iff.mp found
    exact .eat (eaten rest)
  · exact .stop cause (fun other same => missing other (same ▸ found)) fun _ => before

/-- A part that only goes on where the levels allow it. -/
theorem decides_dite {fits : Prop} [Decidable fits]
    {part : fits → List Token → Except Stop (Term × List Token)}
    (decides : ∀ enough, Decides allowed (part enough) tokens) :
    Decides allowed
      (fun other => if enough : fits then part enough other else Parse.stop .tooDeep other)
      tokens := by
  by_cases enough : fits
  · simpa only [dif_pos enough] using decides enough
  · simp only [dif_neg enough]
    exact .stop .tooDeep (fun _ _ => rfl) fun deep => absurd rfl deep

/-- **A phrase is read, and a part goes on behind it.** -/
theorem Decides.bind {symbol : Symbol} {stopped : Stop → Prop}
    {more : Term × List Token → Except Stop (Term × List Token)}
    (decides : Decides (Viable symbol) part tokens)
    (gives : Gives (part tokens) (Reads symbol tokens) stopped)
    (within : ∀ used, Viable symbol used → allowed used)
    (behind : ∀ used term rest, Derives symbol used term → symbol.Ends rest →
      Decides (fun later => allowed (used ++ later)) (fun other => more (term, other)) rest) :
    Decides allowed (fun other => part other >>= more) tokens := by
  obtain ⟨used, rest, answer, rfl, answers, before⟩ := decides
  cases answer with
  | stopped cause =>
    refine ⟨used, rest, .stopped cause, rfl, fun other same => ?_, fun reason is shallow =>
      within used (before reason is shallow)⟩
    show part (used ++ other) >>= more = _
    rw [answers other same]
    rfl
  | read term =>
    rw [answers rest rfl] at gives
    obtain ⟨same, whole, derived, ends⟩ := gives
    cases List.append_cancel_right whole
    obtain ⟨later, last, answer, rfl, laterAnswers, laterBefore⟩ := behind used term rest derived ends
    refine ⟨used ++ later, last, answer, (List.append_assoc _ _ _).symm, fun other same => ?_,
      laterBefore⟩
    show part (used ++ later ++ other) >>= more = _
    rw [List.append_assoc, answers (later ++ other) (by simp [List.head?_append, same])]
    exact laterAnswers other same

end Deciding

/-! ### The levels of the grammar -/

theorem ends_congr {symbol : Symbol} {rest other : List Token} (same : other.head? = rest.head?)
    (ends : symbol.Ends rest) : symbol.Ends other := by
  unfold Symbol.Ends
  rw [same]
  exact ends

mutual

theorem expression_decides (levels : Nat) (tokens : List Token) :
    Decides (Viable .expression) (expression levels) tokens := by
  refine .congr (fun other _ => expression.eq_def levels other) ?_
  refine .bind (binary_decides levels 1 tokens (by decide) (by decide))
    (binary_gives levels 1 tokens (by decide) (by decide)) (fun _ => Viable.chain) ?_
  rintro first condition rest derived -
  dsimp only
  by_cases choice : rest.head? = some .question
  · obtain ⟨rest, rfl⟩ := List.head?_eq_some_iff.mp choice
    refine .eat (decides_dite fun fits => ?_)
    refine .bind (expression_decides (levels - 1) rest) (expression_gives (levels - 1) rest)
      (fun _ viable => viable.positive derived) ?_
    rintro second positive rest derivedPositive -
    dsimp only
    refine .expect .colon .missingColon (fun rest => ?_) (fun other absent => ?_) ?_
    · refine .bind (expression_decides (levels - 1) rest) (expression_gives (levels - 1) rest)
        (fun _ viable => viable.negative derived derivedPositive) ?_
      rintro third negative rest - -
      exact .read (.conditional condition positive negative) fun _ _ => rfl
    · split
      · exact absurd rfl absent
      · rfl
    · rw [List.append_nil]
      exact derivedPositive.viable.positive derived
  · refine .read condition fun other same => ?_
    split
    · exact absurd same.symm choice
    · rfl
termination_by weight levels 3 0
decreasing_by
  · exact weight_lt_of_rank_lt (by decide)
  · exact weight_lt_of_levels_lt (by omega) (by decide)
  · exact weight_lt_of_levels_lt (by omega) (by decide)

theorem binary_decides (levels least : Nat) (tokens : List Token) (lower : 1 ≤ least)
    (upper : least ≤ 7) : Decides (Viable (.layer least)) (binary levels least) tokens := by
  refine .congr (fun other _ => binary.eq_def levels least other) ?_
  refine .bind (unary_decides levels tokens) (unary_gives levels tokens)
    (fun _ viable => viable.innermost.outward lower upper (Nat.le_refl 7)) ?_
  rintro used left rest derived ends
  have innermost : (Symbol.layer 8).Ends rest := Symbol.ends_layer_iff.mpr
    ⟨ends, fun operator _ _ => Nat.lt_of_le_of_lt operator.precedence_bounds.2 (by decide)⟩
  exact binaryChain_decides levels least 0 left used rest 7 (.innermost derived) innermost lower
    upper (by decide)
termination_by weight levels 2 0
decreasing_by
  · exact weight_lt_of_rank_lt (by decide)
  · exact weight_lt_of_rank_lt (by decide)

/-- The links of a chain: what was read `before` them is a phrase of a layer that no next operator
binds more tightly than. -/
theorem binaryChain_decides (levels least links : Nat) (left : Term) (before tokens : List Token)
    (level : Nat) (derived : Derives (.layer level) before left)
    (ends : (Symbol.layer (level + 1)).Ends tokens) (lower : 1 ≤ least) (inside : least ≤ level)
    (upper : level ≤ 7) :
    Decides (fun used => Viable (.layer least) (before ++ used))
      (binaryChain levels least links left) tokens := by
  by_cases ended : (Symbol.layer least).Ends tokens
  · exact .read left fun other same => binaryChain_ends (ends_congr same ended)
  · -- an operator follows, and it binds as tightly as the chain and no tighter than its last one
    rw [Symbol.ends_layer_iff] at ends ended
    obtain ⟨operator, rest, rfl, tight⟩ : ∃ operator rest,
        tokens = .operator operator :: rest ∧ least ≤ operator.precedence := by
      simpa [ends.1] using ended
    have bounds := operator.precedence_bounds
    have limits := ends.2 operator rest rfl
    have own := derived.outward bounds.1 (by omega) upper
    refine .congr (fun other _ => binaryChain.eq_def levels least links left other) (.eat ?_)
    simp only [if_neg (Nat.not_lt.mpr tight)]
    refine decides_dite fun fits => ?_
    refine .bind (binary_decides (levels - (links + 1)) (operator.precedence + 1) rest (by omega)
      (by omega)) (binary_gives (levels - (links + 1)) (operator.precedence + 1) rest (by omega)
      (by omega)) (fun _ viable => (viable.link own).outward lower tight (by omega)) ?_
    rintro used right rest derivedRight endsRight
    have linked := Derives.link (mem_layerOperators_iff.mpr rfl) own derivedRight
    have chain := binaryChain_decides levels least (links + 1) _ _ rest _ linked endsRight lower
      (by omega) (by omega)
    simpa only [List.append_assoc, List.cons_append] using chain
termination_by weight levels 1 links
decreasing_by
  · exact weight_lt_of_levels_lt (by omega) (by decide)
  · exact weight_lt_of_links_lt (by omega) (by omega)

theorem unary_decides (levels : Nat) (tokens : List Token) :
    Decides (Viable .signed) (unary levels) tokens := by
  by_cases isNot : tokens.head? = some .not
  · obtain ⟨rest, rfl⟩ := List.head?_eq_some_iff.mp isNot
    refine .congr (fun other _ => unary.eq_def levels other) (.eat (decides_dite fun fits => ?_))
    exact .bind (unary_decides (levels - 1) rest) (unary_gives (levels - 1) rest)
      (fun _ viable => viable.not) fun _ operand _ _ _ => .read (.not operand) fun _ _ => rfl
  by_cases isMinus : tokens.head? = some (.operator .subtract)
  · obtain ⟨rest, rfl⟩ := List.head?_eq_some_iff.mp isMinus
    refine .congr (fun other _ => unary.eq_def levels other) (.eat (decides_dite fun fits => ?_))
    exact .bind (unary_decides (levels - 1) rest) (unary_gives (levels - 1) rest)
      (fun _ viable => viable.negate) fun _ operand _ _ _ => .read (.negate operand) fun _ _ => rfl
  · refine .congr (fun other same => unary_unsigned ?_ ?_) ?_
    · rintro after rfl
      exact isNot same.symm
    · rintro after rfl
      exact isMinus same.symm
    · exact .bind (primary_decides levels tokens) (primary_gives levels tokens)
        (fun _ viable => viable.unsigned) fun used operand rest derived _ =>
          accessChain_decides levels 0 operand used rest (.bare derived)
termination_by weight levels 1 0
decreasing_by
  · exact weight_lt_of_levels_lt (by omega) (by decide)
  · exact weight_lt_of_levels_lt (by omega) (by decide)
  · exact weight_lt_of_rank_lt (by decide)
  · exact weight_lt_of_rank_lt (by decide)

theorem primary_decides (levels : Nat) (tokens : List Token) :
    Decides (Viable .operand) (primary levels) tokens := by
  refine .congr (fun other _ => primary.eq_def levels other) ?_
  match tokens with
  | [] =>
    refine .stop .unexpectedEnd (fun other same => ?_) fun _ => viable_nil
    rw [List.head?_eq_none_iff.mp same]
  | .literal value :: rest => exact .eat (.read (.literal value) fun _ _ => rfl)
  | .name name :: rest => exact .eat (.read (.name name) fun _ _ => rfl)
  | .openParenthesis :: rest =>
    refine .eat (decides_dite fun fits => ?_)
    refine .bind (expression_decides (levels - 1) rest) (expression_gives (levels - 1) rest)
      (fun _ viable => viable.parenthesized) ?_
    rintro used inner rest derived -
    dsimp only
    refine .expect .closeParenthesis .missingParenthesis (fun rest => .read inner fun _ _ => rfl)
      (fun other absent => ?_) ?_
    · split
      · exact absurd rfl absent
      · rfl
    · rw [List.append_nil]
      exact derived.viable.parenthesized
  | .dot :: _ | .openBracket :: _ | .closeBracket :: _ | .closeParenthesis :: _ | .question :: _
  | .colon :: _ | .not :: _ | .operator _ :: _ =>
    refine .stop .unexpectedToken (fun other same => ?_) fun _ => viable_nil
    obtain ⟨after, rfl⟩ := List.head?_eq_some_iff.mp same
    rfl
termination_by weight levels 0 0
decreasing_by
  · exact weight_lt_of_levels_lt (by omega) (by decide)

/-- The fields and keys after an operand: what was read `before` them is an operand with others. -/
theorem accessChain_decides (levels links : Nat) (target : Term) (before tokens : List Token)
    (derived : Derives .access before target) :
    Decides (fun used => Viable .signed (before ++ used)) (accessChain levels links target)
      tokens := by
  by_cases isDot : tokens.head? = some .dot
  · obtain ⟨rest, rfl⟩ := List.head?_eq_some_iff.mp isDot
    refine .congr (fun other _ => accessChain.eq_def levels links target other)
      (.eat (decides_dite fun fits => ?_))
    by_cases named : ∃ field, rest.head? = some (.name field)
    · obtain ⟨field, named⟩ := named
      obtain ⟨rest, rfl⟩ := List.head?_eq_some_iff.mp named
      have chain := accessChain_decides levels (links + 1) _ _ rest (.member field derived)
      refine .eat ?_
      simpa only [List.append_assoc, List.cons_append, List.nil_append] using chain
    · refine .stop .missingField (fun other same => ?_) fun _ => viable_dot derived
      split
      · exact absurd ⟨_, same.symm⟩ named
      · rfl
  by_cases isBracket : tokens.head? = some .openBracket
  · obtain ⟨rest, rfl⟩ := List.head?_eq_some_iff.mp isBracket
    refine .congr (fun other _ => accessChain.eq_def levels links target other)
      (.eat (decides_dite fun fits => ?_))
    refine .bind (expression_decides (levels - (links + 1)) rest)
      (expression_gives (levels - (links + 1)) rest) (fun _ viable => viable.index derived) ?_
    rintro used key rest derivedKey -
    dsimp only
    refine .expect .closeBracket .missingBracket (fun rest => ?_) (fun other absent => ?_) ?_
    · have chain := accessChain_decides levels (links + 1) _ _ rest (.index derived derivedKey)
      simpa only [List.append_assoc, List.cons_append, List.nil_append] using chain
    · split
      · exact absurd rfl absent
      · rfl
    · rw [List.append_nil]
      exact derivedKey.viable.index derived
  · have ended : Symbol.signed.Ends tokens := Symbol.ends_signed_iff.mpr
      ⟨by rintro after rfl; exact isDot rfl, by rintro after rfl; exact isBracket rfl⟩
    exact .read target fun other same => accessChain_ends (ends_congr same ended)
termination_by weight levels 0 links
decreasing_by
  · exact weight_lt_of_links_lt (by omega) (by omega)
  · exact weight_lt_of_levels_lt (by omega) (by decide)
  · exact weight_lt_of_links_lt (by omega) (by omega)

end

end Parse

end Stencil.Formula
