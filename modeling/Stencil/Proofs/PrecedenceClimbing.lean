/-
**Parsing by precedence accepts exactly the grammar of expressions.**

One loop serves all operators: it goes on with a chain as long as the next operator binds tightly
enough, and reads the operand after it with a tighter bound. What stands before the loop is at every
point a phrase of the layer of the last operator, and no tighter operator follows it; hence a chain
comes out grouped to the left within a layer and by layers otherwise.

* `Parse.Gives`: **a contract** of a part of the parser;
* `Parse.expression_gives` and its fellows: what is read is a phrase, which ends where it can, and a
  parse is too deep only where there are as many tokens as levels;
* `Parse.complete_of_derives`: every phrase is read, unless it is too deep;
* `Term.ofTokens_grammar`: **the parser accepts exactly the grammar**.
-/

import Stencil.Formula.Parse
import Stencil.Proofs.Grammar

namespace Stencil.Formula

namespace Parse

variable {tokens rest : List Token} {symbol : Symbol} {term : Term}

/-! ### Contracts -/

/-- **A parse meets a contract**: `found` holds of the tree and the tokens after it, `stopped` of
the place where it stops. -/
def Gives (result : Except Stop (Term × List Token)) (found : Term → List Token → Prop)
    (stopped : Stop → Prop) : Prop :=
  match result with
  | .ok (term, rest) => found term rest
  | .error reason => stopped reason

theorem Gives.bind {result : Except Stop (Term × List Token)}
    {next : Term × List Token → Except Stop (Term × List Token)}
    {found last : Term → List Token → Prop} {stopped wider : Stop → Prop}
    (first : Gives result found stopped) (widens : ∀ reason, stopped reason → wider reason)
    (second : ∀ term rest, found term rest → Gives (next (term, rest)) last wider) :
    Gives (result >>= next) last wider := by
  cases result with
  | error reason => exact widens reason first
  | ok read => exact second read.1 read.2 first

theorem Gives.weaken {result : Except Stop (Term × List Token)}
    {found weaker : Term → List Token → Prop} {stopped wider : Stop → Prop}
    (gives : Gives result found stopped) (widens : ∀ reason, stopped reason → wider reason)
    (implies : ∀ term rest, found term rest → weaker term rest) : Gives result weaker wider := by
  cases result with
  | error reason => exact widens reason gives
  | ok read => exact implies read.1 read.2 gives

/-! ### What is read is a phrase -/

/-- **A phrase is read from the front of the tokens**, and it ends where it can. -/
def Reads (symbol : Symbol) (tokens : List Token) (term : Term) (rest : List Token) : Prop :=
  ∃ used, tokens = used ++ rest ∧ Derives symbol used term ∧ symbol.Ends rest

/-- **A parse is too deep only where there are as many tokens as levels.** -/
def DeepOnly (levels room : Nat) (reason : Stop) : Prop :=
  reason.cause = .tooDeep → levels ≤ room

theorem DeepOnly.widen {fewer levels room more : Nat} (enough : fewer ≤ room → levels ≤ more)
    (reason : Stop) (deep : DeepOnly fewer room reason) : DeepOnly levels more reason :=
  fun isDeep => enough (deep isDeep)

theorem gives_stop {cause : Cause} {levels room : Nat} (found : Term → List Token → Prop)
    (deep : cause = .tooDeep → levels ≤ room) :
    Gives (stop cause tokens) found (DeepOnly levels room) :=
  deep

mutual

theorem expression_gives (levels : Nat) (tokens : List Token) :
    Gives (expression levels tokens) (Reads .expression tokens)
      (DeepOnly levels tokens.length) := by
  rw [expression]
  refine (binary_gives levels 1 tokens (by decide) (by decide)).bind (fun _ deep => deep) ?_
  rintro condition after ⟨first, rfl, derived, ends⟩
  dsimp only
  split
  · rename_i after
    simp only [List.length_append, List.length_cons]
    split
    · refine (expression_gives (levels - 1) after).bind (DeepOnly.widen (by omega)) ?_
      rintro positive after ⟨second, rfl, derivedPositive, -⟩
      simp only [List.length_append]
      split
      · rename_i after
        simp only [List.length_cons]
        refine (expression_gives (levels - 1) after).bind (DeepOnly.widen (by omega)) ?_
        rintro negative rest ⟨third, rfl, derivedNegative, ends⟩
        exact ⟨first ++ .question :: (second ++ .colon :: third), by simp,
          .conditional derived derivedPositive derivedNegative, ends⟩
      · exact gives_stop _ nofun
    · exact gives_stop _ fun _ => by omega
  · rename_i plain
    exact ⟨first, rfl, .chain derived, Symbol.ends_expression_iff.mpr ⟨ends, plain⟩⟩
termination_by weight levels 3 0
decreasing_by
  · exact weight_lt_of_rank_lt (by decide)
  · exact weight_lt_of_levels_lt (by omega) (by decide)
  · exact weight_lt_of_levels_lt (by omega) (by decide)

theorem binary_gives (levels least : Nat) (tokens : List Token) (lower : 1 ≤ least)
    (upper : least ≤ 7) :
    Gives (binary levels least tokens) (Reads (.layer least) tokens)
      (DeepOnly levels tokens.length) := by
  rw [binary]
  refine (unary_gives levels tokens).bind (fun _ deep => deep) ?_
  rintro left after ⟨used, rfl, derived, ends⟩
  have innermost : (Symbol.layer 8).Ends after := Symbol.ends_layer_iff.mpr
    ⟨ends, fun operator _ _ => Nat.lt_of_le_of_lt operator.precedence_bounds.2 (by decide)⟩
  refine (binaryChain_gives levels least 0 left used after 7 (.innermost derived) innermost lower
    upper (by decide)).weaken (DeepOnly.widen ?_) fun _ _ read => read
  rw [List.length_append]
  omega
termination_by weight levels 2 0
decreasing_by
  · exact weight_lt_of_rank_lt (by decide)
  · exact weight_lt_of_rank_lt (by decide)

/-- The links of a chain: what was read `before` them is a phrase of a layer that no next operator
binds more tightly than. -/
theorem binaryChain_gives (levels least links : Nat) (left : Term) (before tokens : List Token)
    (level : Nat) (derived : Derives (.layer level) before left)
    (ends : (Symbol.layer (level + 1)).Ends tokens) (lower : 1 ≤ least) (inside : least ≤ level)
    (upper : level ≤ 7) :
    Gives (binaryChain levels least links left tokens) (Reads (.layer least) (before ++ tokens))
      (DeepOnly levels (links + tokens.length)) := by
  rw [binaryChain.eq_def]
  split
  · rename_i operator after
    have bounds := operator.precedence_bounds
    have limits := (Symbol.ends_layer_iff.mp ends).2 operator after rfl
    split
    · rename_i loose
      refine ⟨before, rfl, derived.outward lower inside upper, ?_⟩
      refine Symbol.ends_layer_iff.mpr ⟨(Symbol.ends_layer_iff.mp ends).1, ?_⟩
      rintro _ _ ⟨⟩
      exact loose
    · rename_i tight
      simp only [List.length_cons]
      split
      · refine (binary_gives (levels - (links + 1)) (operator.precedence + 1) after (by omega)
          (by omega)).bind (DeepOnly.widen (by omega)) ?_
        rintro right rest ⟨used, rfl, derivedRight, endsRight⟩
        have own := derived.outward bounds.1 (by omega) upper
        have linked := Derives.link (mem_layerOperators_iff.mpr rfl) own derivedRight
        have chain := binaryChain_gives levels least (links + 1) _ _ rest _ linked endsRight lower
          (by omega) (by omega)
        rw [List.append_assoc, List.cons_append] at chain
        refine chain.weaken (DeepOnly.widen ?_) fun _ _ read => read
        rw [List.length_append]
        omega
      · exact gives_stop _ fun _ => by omega
  · rename_i plain
    refine ⟨before, rfl, derived.outward lower inside upper, Symbol.ends_layer_iff.mpr
      ⟨(Symbol.ends_layer_iff.mp ends).1, fun operator after found =>
        (plain operator after found).elim⟩⟩
termination_by weight levels 1 links
decreasing_by
  · exact weight_lt_of_levels_lt (by omega) (by decide)
  · exact weight_lt_of_links_lt (by omega) (by omega)

theorem unary_gives (levels : Nat) (tokens : List Token) :
    Gives (unary levels tokens) (Reads .signed tokens) (DeepOnly levels tokens.length) := by
  rw [unary.eq_def]
  split
  · rename_i after
    simp only [List.length_cons]
    split
    · refine (unary_gives (levels - 1) after).bind (DeepOnly.widen (by omega)) ?_
      rintro operand rest ⟨used, rfl, derived, ends⟩
      exact ⟨.not :: used, rfl, .not derived, ends⟩
    · exact gives_stop _ fun _ => by omega
  · rename_i after
    simp only [List.length_cons]
    split
    · refine (unary_gives (levels - 1) after).bind (DeepOnly.widen (by omega)) ?_
      rintro operand rest ⟨used, rfl, derived, ends⟩
      exact ⟨.operator .subtract :: used, rfl, .negate derived, ends⟩
    · exact gives_stop _ fun _ => by omega
  · refine (primary_gives levels tokens).bind (fun _ deep => deep) ?_
    rintro operand after ⟨used, rfl, derived, -⟩
    refine (accessChain_gives levels 0 operand used after (.bare derived)).weaken
      (DeepOnly.widen ?_) fun _ _ read => read
    rw [List.length_append]
    omega
termination_by weight levels 1 0
decreasing_by
  · exact weight_lt_of_levels_lt (by omega) (by decide)
  · exact weight_lt_of_levels_lt (by omega) (by decide)
  · exact weight_lt_of_rank_lt (by decide)
  · exact weight_lt_of_rank_lt (by decide)

theorem primary_gives (levels : Nat) (tokens : List Token) :
    Gives (primary levels tokens) (Reads .operand tokens) (DeepOnly levels tokens.length) := by
  rw [primary.eq_def]
  split
  · rename_i value rest
    exact ⟨[.literal value], rfl, .literal value, fun _ _ => id⟩
  · rename_i name rest
    exact ⟨[.name name], rfl, .name name, fun _ _ => id⟩
  · rename_i after
    simp only [List.length_cons]
    split
    · refine (expression_gives (levels - 1) after).bind (DeepOnly.widen (by omega)) ?_
      rintro inner after ⟨used, rfl, derived, -⟩
      dsimp only
      split
      · rename_i rest
        exact ⟨.openParenthesis :: (used ++ [.closeParenthesis]), by simp, .parenthesized derived,
          fun _ _ => id⟩
      · exact gives_stop _ nofun
    · exact gives_stop _ fun _ => by omega
  · exact gives_stop _ nofun
  · exact gives_stop _ nofun
termination_by weight levels 0 0
decreasing_by
  · exact weight_lt_of_levels_lt (by omega) (by decide)

/-- The fields and keys after an operand: what was read `before` them is an operand with others. -/
theorem accessChain_gives (levels links : Nat) (target : Term) (before tokens : List Token)
    (derived : Derives .access before target) :
    Gives (accessChain levels links target tokens) (Reads .signed (before ++ tokens))
      (DeepOnly levels (links + tokens.length)) := by
  rw [accessChain.eq_def]
  split
  · rename_i after
    simp only [List.length_cons]
    split
    · split
      · rename_i field rest
        have chain := accessChain_gives levels (links + 1) _ _ rest (.member field derived)
        rw [List.append_assoc] at chain
        refine chain.weaken (DeepOnly.widen ?_) fun _ _ read => read
        rw [List.length_cons]
        omega
      · exact gives_stop _ nofun
    · exact gives_stop _ fun _ => by omega
  · rename_i after
    simp only [List.length_cons]
    split
    · refine (expression_gives (levels - (links + 1)) after).bind (DeepOnly.widen (by omega)) ?_
      rintro key after ⟨used, rfl, derivedKey, -⟩
      dsimp only
      split
      · rename_i rest
        have chain := accessChain_gives levels (links + 1) _ _ rest (.index derived derivedKey)
        rw [List.append_assoc, List.cons_append, List.append_assoc] at chain
        refine chain.weaken (DeepOnly.widen ?_) fun _ _ read => read
        rw [List.length_append, List.length_cons]
        omega
      · exact gives_stop _ nofun
    · exact gives_stop _ fun _ => by omega
  · rename_i noDot noBracket
    exact ⟨before, rfl, .unsigned derived, Symbol.ends_signed_iff.mpr ⟨noDot, noBracket⟩⟩
termination_by weight levels 0 links
decreasing_by
  · exact weight_lt_of_links_lt (by omega) (by omega)
  · exact weight_lt_of_levels_lt (by omega) (by decide)
  · exact weight_lt_of_links_lt (by omega) (by omega)

end

/-! ### Phrases are read -/

variable {α β : Type}

/-- **A parse reaches a result**, unless the tree is too deep for it. -/
def Reaches (result expected : Except Stop α) : Prop :=
  result = expected ∨ ∃ left, result = .error ⟨.tooDeep, left⟩

theorem Reaches.trans {result middle last : Except Stop α} (first : Reaches result middle)
    (second : Reaches middle last) : Reaches result last := by
  obtain rfl | deep := first
  · exact second
  · exact .inr deep

theorem Reaches.bind {result : Except Stop α} {value : α} {next : α → Except Stop β}
    {expected : Except Stop β} (first : Reaches result (.ok value))
    (second : Reaches (next value) expected) : Reaches (result >>= next) expected := by
  obtain rfl | ⟨left, rfl⟩ := first
  · exact second
  · exact .inr ⟨left, rfl⟩

/-- A step that is only taken where the levels allow it. -/
theorem reaches_dite {fits : Prop} [Decidable fits] {result : fits → Except Stop α}
    {expected : Except Stop α} (reaches : ∀ enough, Reaches (result enough) expected) :
    Reaches (if enough : fits then result enough else stop .tooDeep tokens) expected := by
  split
  · exact reaches _
  · exact .inr ⟨tokens.length, rfl⟩

theorem binaryChain_ends {levels least links : Nat} {left : Term}
    (ends : (Symbol.layer least).Ends rest) :
    binaryChain levels least links left rest = .ok (left, rest) := by
  rw [binaryChain.eq_def]
  split
  · rename_i operator after
    rw [if_pos ((Symbol.ends_layer_iff.mp ends).2 operator after rfl)]
  · rfl

theorem accessChain_ends {levels links : Nat} {target : Term} (ends : Symbol.signed.Ends rest) :
    accessChain levels links target rest = .ok (target, rest) := by
  obtain ⟨noDot, noBracket⟩ := Symbol.ends_signed_iff.mp ends
  rw [accessChain.eq_def]
  split
  · exact absurd rfl (noDot _)
  · exact absurd rfl (noBracket _)
  · rfl

theorem unary_unsigned {levels : Nat} (noNot : ∀ after, tokens ≠ .not :: after)
    (noMinus : ∀ after, tokens ≠ .operator .subtract :: after) :
    unary levels tokens =
      primary levels tokens >>= fun read => accessChain levels 0 read.1 read.2 := by
  rw [unary.eq_def]
  split
  · exact absurd rfl (noNot _)
  · exact absurd rfl (noMinus _)
  · rfl

/-- **A phrase at the front of the tokens is read**, whatever stands behind it that does not go on
with it. Within a layer the chain that the phrase belongs to goes on behind it, and so do the fields
and keys behind an operand. -/
def Complete : Symbol → List Token → Term → Prop
  | .expression, tokens, term => ∀ levels rest, Symbol.expression.Ends rest →
      Reaches (expression levels (tokens ++ rest)) (.ok (term, rest))
  | .layer level, tokens, term => ∀ levels least rest, least ≤ level →
      (Symbol.layer (level + 1)).Ends rest →
      ∃ links, Reaches (binary levels least (tokens ++ rest))
        (binaryChain levels least links term rest)
  | .signed, tokens, term => ∀ levels rest, Symbol.signed.Ends rest →
      Reaches (unary levels (tokens ++ rest)) (.ok (term, rest))
  | .access, tokens, term => ∀ levels rest,
      ∃ links, Reaches (unary levels (tokens ++ rest)) (accessChain levels links term rest)
  | .operand, tokens, term => ∀ levels rest,
      Reaches (unary levels (tokens ++ rest)) (accessChain levels 0 term rest)

theorem Complete.binary_ends {level : Nat} (complete : Complete (.layer level) tokens term)
    (levels : Nat) (ends : (Symbol.layer level).Ends rest) :
    Reaches (binary levels level (tokens ++ rest)) (.ok (term, rest)) := by
  obtain ⟨links, reaches⟩ :=
    complete levels level rest (Nat.le_refl _) (ends.inward (Nat.le_succ _))
  rwa [binaryChain_ends ends] at reaches

theorem complete_of_derives (derived : Derives symbol tokens term) :
    Complete symbol tokens term := by
  induction derived with
  | chain _ ih =>
    intro levels rest ends
    obtain ⟨chainEnds, plain⟩ := Symbol.ends_expression_iff.mp ends
    rw [expression]
    refine (ih.binary_ends levels chainEnds).bind ?_
    dsimp only
    split
    · exact absurd rfl (plain _)
    · exact .inl rfl
  | conditional _ _ _ ihCondition ihPositive ihNegative =>
    intro levels rest ends
    rw [List.append_assoc, List.cons_append, List.append_assoc, List.cons_append, expression]
    refine (ihCondition.binary_ends levels (by simp [Symbol.Continues])).bind ?_
    refine reaches_dite fun fits => ?_
    refine (ihPositive (levels - 1) _ (by simp [Symbol.Continues])).bind ?_
    refine (ihNegative (levels - 1) rest ends).bind ?_
    exact .inl rfl
  | inner _ _ _ ih =>
    intro levels least rest inside ends
    exact ih levels least rest (by omega) (ends.inward (by omega))
  | @link level operator before after left right member _ _ ihLeft ihRight =>
    intro levels least rest inside ends
    have layer := mem_layerOperators_iff.mp member
    rw [List.append_assoc, List.cons_append]
    obtain ⟨links, reaches⟩ := ihLeft levels least (.operator operator :: (after ++ rest)) inside
      (by simp [Symbol.Continues, layer])
    refine ⟨links + 1, reaches.trans ?_⟩
    rw [binaryChain, if_neg (by omega)]
    refine reaches_dite fun fits => ?_
    rw [layer]
    exact (ihRight.binary_ends _ ends).bind (.inl rfl)
  | innermost _ ih =>
    intro levels least rest inside ends
    refine ⟨0, ?_⟩
    rw [binary]
    exact (ih levels rest (Symbol.ends_layer_iff.mp ends).1).bind (.inl rfl)
  | not _ ih =>
    intro levels rest ends
    rw [List.cons_append, unary]
    exact reaches_dite fun fits => (ih (levels - 1) rest ends).bind (.inl rfl)
  | negate _ ih =>
    intro levels rest ends
    rw [List.cons_append, unary]
    exact reaches_dite fun fits => (ih (levels - 1) rest ends).bind (.inl rfl)
  | unsigned _ ih =>
    intro levels rest ends
    obtain ⟨links, reaches⟩ := ih levels rest
    rwa [accessChain_ends ends] at reaches
  | member field _ ih =>
    intro levels rest
    rw [List.append_assoc]
    obtain ⟨links, reaches⟩ := ih levels _
    refine ⟨links + 1, reaches.trans ?_⟩
    rw [List.cons_append, List.cons_append, List.nil_append, accessChain]
    exact reaches_dite fun fits => .inl rfl
  | index _ _ ihTarget ihKey =>
    intro levels rest
    rw [List.append_assoc, List.cons_append, List.append_assoc]
    obtain ⟨links, reaches⟩ := ihTarget levels _
    refine ⟨links + 1, reaches.trans ?_⟩
    rw [accessChain]
    refine reaches_dite fun fits => ?_
    exact (ihKey _ _ (by simp [Symbol.Continues])).bind (.inl rfl)
  | bare _ ih =>
    intro levels rest
    exact ⟨0, ih levels rest⟩
  | literal value =>
    intro levels rest
    rw [List.cons_append, unary_unsigned (by simp) (by simp), primary]
    exact .inl rfl
  | name name =>
    intro levels rest
    rw [List.cons_append, unary_unsigned (by simp) (by simp), primary]
    exact .inl rfl
  | parenthesized _ ih =>
    intro levels rest
    rw [List.cons_append, List.append_assoc, unary_unsigned (by simp) (by simp), primary]
    refine @Reaches.bind _ _ _ (_, rest) _ _ ?_ (.inl rfl)
    refine reaches_dite fun fits => ?_
    exact (ih _ _ (by simp [Symbol.Continues])).bind (.inl rfl)

end Parse

/-! ### The whole parser -/

/-- What the parser gives is derived by all the tokens; if it is too deep, there are many. -/
theorem Term.ofTokens_gives (tokens : List Token) :
    match ofTokens tokens with
    | .ok term => Derives .expression tokens term
    | .error reason => Parse.DeepOnly maxDepth tokens.length reason := by
  have gives := Parse.expression_gives maxDepth tokens
  unfold ofTokens
  cases result : Parse.expression maxDepth tokens with
  | error reason =>
    rw [result] at gives
    exact gives
  | ok read =>
    obtain ⟨term, rest⟩ := read
    rw [result] at gives
    obtain ⟨used, whole, derived, -⟩ := gives
    cases rest with
    | nil =>
      rw [List.append_nil] at whole
      exact whole ▸ derived
    | cons token rest => exact nofun

/-- An expression that the tokens derive is parsed, unless the tree is too deep. -/
theorem Term.ofTokens_reaches {tokens : List Token} {term : Term}
    (derived : Derives .expression tokens term) : Parse.Reaches (ofTokens tokens) (.ok term) := by
  have complete := Parse.complete_of_derives derived maxDepth [] (Symbol.ends_nil _)
  rw [List.append_nil] at complete
  exact complete.bind (.inl rfl)

/-- **The parser accepts exactly the grammar.** The tree that it gives is one that the tokens
derive, and it gives each tree that they derive, unless it stops because the tree is too deep; fewer
than 256 tokens are never too deep. -/
theorem Term.ofTokens_grammar (tokens : List Token) :
    (∀ term, ofTokens tokens = .ok term → Derives .expression tokens term) ∧
      (∀ term, Derives .expression tokens term →
        ofTokens tokens = .ok term ∨ ∃ left, ofTokens tokens = .error ⟨.tooDeep, left⟩) ∧
      (tokens.length < 256 → ∀ left, ofTokens tokens ≠ .error ⟨.tooDeep, left⟩) := by
  have gives := ofTokens_gives tokens
  refine ⟨fun term parsed => ?_, fun term derived => ofTokens_reaches derived, fun few left deep => ?_⟩
  · rw [parsed] at gives
    exact gives
  · rw [deep] at gives
    have many : maxDepth ≤ tokens.length := gives rfl
    unfold maxDepth at many
    omega

/-- The tokens of `a - -b.c[0] - d * 2 < 9 ? (e ? f : g) : !h`. -/
def mixedTokens : List Token :=
  [.name "a", .operator .subtract, .operator .subtract, .name "b", .dot, .name "c", .openBracket,
    .literal (.number (.int 0)), .closeBracket, .operator .subtract, .name "d",
    .operator .multiply, .literal (.number (.int 2)), .operator .less,
    .literal (.number (.int 9)), .question, .openParenthesis, .name "e", .question, .name "f",
    .colon, .name "g", .closeParenthesis, .colon, .not, .name "h"]

/-- The tree that they write. -/
def mixedTerm : Term :=
  .conditional
    (.binary .less
      (.binary .subtract
        (.binary .subtract (.name "a")
          (.negate (.index (.member (.name "b") "c") (.literal (.number (.int 0))))))
        (.binary .multiply (.name "d") (.literal (.number (.int 2)))))
      (.literal (.number (.int 9))))
    (.conditional (.name "e") (.name "f") (.name "g"))
    (.not (.name "h"))

/-- Signs, chains of several layers, accesses and conditionals in one expression: the parser gives
its tree, which the tokens derive, and no other tree is derived. -/
theorem mixedTokens_grammar :
    Term.ofTokens mixedTokens = .ok mixedTerm ∧ Derives .expression mixedTokens mixedTerm ∧
      mixedTokens.length < 256 ∧
      ∀ term, Derives .expression mixedTokens term → term = mixedTerm := by
  have parsed : Term.ofTokens mixedTokens = .ok mixedTerm := by with_unfolding_all rfl
  have few : mixedTokens.length < 256 := by decide
  obtain ⟨sound, complete, shallow⟩ := Term.ofTokens_grammar mixedTokens
  refine ⟨parsed, sound _ parsed, few, fun term derived => ?_⟩
  rcases complete term derived with found | ⟨left, deep⟩
  · rw [parsed] at found
    cases found
    rfl
  · exact absurd deep (shallow few left)

end Stencil.Formula
