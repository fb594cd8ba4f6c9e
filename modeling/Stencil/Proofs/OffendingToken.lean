/-
**Errors point at the first token that cannot be right.**

Where the parser stops, an expression may start with the tokens that it has read, and none starts with
these and the next token: in such an expression it would stop in front of the same token.

* `Term.ofTokens_stops`, `Term.ofTokens_isGreatest`: the tokens before a stop are **the longest ones
  that an expression may start with**;
* `Lexeme.StandsIn`, `Lexeme.standsIn_of_scan`: a token is written at its offset;
* `Engine.standard_offending`: **the fault of a source is at the first offending token**.
-/

import Mathlib.Order.Bounds.Defs
import Mathlib.Tactic.IntervalCases
import Stencil.Engine
import Stencil.Proofs.NextToken
import Stencil.Proofs.SlicedTokens

namespace Stencil

namespace Formula

/-! ### The whole parser -/

namespace Term

variable {tokens : List Token}

/-- **The parser decides by the next token** where it stops: it has read viable tokens, and it stops
there for the same cause whatever stands behind the next token. -/
theorem ofTokens_decides {reason : Parse.Stop} (stopped : ofTokens tokens = .error reason)
    (shallow : reason.cause ≠ .tooDeep) :
    ∃ used rest, tokens = used ++ rest ∧ Viable .expression used ∧
      ∀ other, other.head? = rest.head? →
        ofTokens (used ++ other) = Parse.stop reason.cause other := by
  have gives := Parse.expression_gives maxDepth tokens
  obtain ⟨used, rest, answer, rfl, answers, before⟩ := Parse.expression_decides maxDepth tokens
  cases answer with
  | stopped cause =>
    have ends : ∀ other, other.head? = rest.head? →
        ofTokens (used ++ other) = Parse.stop cause other := by
      intro other same
      rw [ofTokens, answers other same]
      rfl
    rw [ends rest rfl] at stopped
    cases stopped
    exact ⟨used, rest, rfl, before cause rfl shallow, ends⟩
  | read term =>
    rw [answers rest rfl] at gives
    obtain ⟨same, whole, derived, -⟩ := gives
    cases List.append_cancel_right whole
    have past : ∀ other, other.head? = rest.head? → other ≠ [] →
        ofTokens (used ++ other) = Parse.stop .unexpectedToken other := by
      intro other same more
      obtain ⟨token, other, rfl⟩ := List.exists_cons_of_ne_nil more
      rw [ofTokens, answers (token :: other) same]
      rfl
    cases rest with
    | nil =>
      -- all tokens have been read, and the parser does not stop
      rw [ofTokens, answers [] rfl] at stopped
      cases stopped
    | cons token rest =>
      rw [past (token :: rest) rfl (List.cons_ne_nil _ _)] at stopped
      cases stopped
      exact ⟨used, token :: rest, rfl, derived.viable, fun other same => past other same (by
        rintro rfl
        cases same)⟩

/-- **Where the parser stops**, the tokens that it has read are viable, and they are not viable any
more with the next token. -/
theorem ofTokens_stops {reason : Parse.Stop} (stopped : ofTokens tokens = .error reason)
    (shallow : reason.cause ≠ .tooDeep) :
    ∃ used rest, tokens = used ++ rest ∧ reason.left = rest.length ∧ Viable .expression used ∧
      ∀ token ∈ rest.head?, ¬ Viable .expression (used ++ [token]) := by
  obtain ⟨used, rest, rfl, viable, stops⟩ := ofTokens_decides stopped shallow
  refine ⟨used, rest, rfl, ?_, viable, ?_⟩
  · exact congrArg Parse.Stop.left (Except.error.inj (stopped.symm.trans (stops rest rfl)))
  · rintro token next ⟨more, term, derived⟩
    -- the parser would stop in front of the token in an expression that it has to read
    have blocked := stops (token :: more) next.symm
    rw [List.append_assoc] at derived
    rcases ofTokens_reaches derived with parsed | ⟨left, deep⟩
    · cases blocked.symm.trans parsed
    · exact shallow (congrArg Parse.Stop.cause (Except.error.inj (blocked.symm.trans deep)))

/-- **The tokens before a stop are the longest ones that are viable.** -/
theorem ofTokens_isGreatest {reason : Parse.Stop} (stopped : ofTokens tokens = .error reason)
    (shallow : reason.cause ≠ .tooDeep) :
    ∃ count, tokens.length = count + reason.left ∧
      IsGreatest {count | count ≤ tokens.length ∧ Viable .expression (tokens.take count)} count := by
  obtain ⟨used, rest, rfl, left, viable, blocked⟩ := ofTokens_stops stopped shallow
  refine ⟨used.length, by rw [left, List.length_append], ⟨?_, ?_⟩⟩
  · exact ⟨by simp, by rwa [List.take_left]⟩
  · rintro count ⟨within, longer⟩
    by_contra more
    rw [Nat.not_le] at more
    obtain ⟨token, rest, rfl⟩ : ∃ token after, rest = token :: after := by
      refine List.exists_cons_of_ne_nil ?_
      rintro rfl
      rw [List.append_nil] at within
      omega
    have next : used ++ [token] = (used ++ token :: rest).take (used.length + 1) := by
      rw [List.take_append, List.take_of_length_le (Nat.le_succ _), Nat.add_sub_cancel_left]
      rfl
    refine blocked token rfl (longer.of_prefix ?_)
    rw [next]
    exact List.take_prefix_take_left more

end Term

/-! ### Where tokens are written -/

namespace Lexeme

open Text

/-- **A token is written at its offset**: the bytes before it make up the offset, and it is what is
read there. -/
def StandsIn (text : List Char) (lexeme : Lexeme) : Prop :=
  ∃ before c rest piece, text = before ++ c :: rest ∧ utf8Size before = lexeme.offset ∧
    isBlank c = false ∧ next c rest = .ok piece ∧ piece.token = lexeme.token

theorem next_taken {c : Char} {rest : List Char} {piece : Piece} (found : next c rest = .ok piece) :
    ∃ taken, c :: rest = taken ++ piece.rest ∧ utf8Size taken = piece.width := by
  have agrees := @sliceToken_agrees ⟨0, c :: rest⟩ [] c rest rfl
  rw [found] at agrees
  obtain ⟨_, _, _, taken⟩ := agrees
  exact taken

/-- **The tokens of a text are written at their offsets.** -/
theorem standsIn_of_scan {offset : Nat} {before text : List Char} {lexemes : List Lexeme}
    (scanned : scan offset text = .ok lexemes) (start : utf8Size before = offset) :
    ∀ lexeme ∈ lexemes, lexeme.StandsIn (before ++ text) := by
  fun_induction scan offset text generalizing before lexemes with
  | case1 => cases scanned; simp
  | case2 offset c rest blank ih =>
    rw [List.append_cons]
    exact ih scanned (by simp [start])
  | case3 offset c rest solid cause failed => cases scanned
  | case4 offset c rest solid piece found ih =>
    cases later : scan (offset + piece.width) piece.rest with
    | error fault =>
      rw [later] at scanned
      cases scanned
    | ok more =>
      rw [later] at scanned
      cases scanned
      obtain ⟨taken, parts, width⟩ := next_taken found
      have behind : ∀ lexeme ∈ more, lexeme.StandsIn (before ++ taken ++ piece.rest) :=
        ih later (by rw [utf8Size_append, start, width])
      rw [List.append_assoc, ← parts] at behind
      rintro lexeme member
      rcases List.mem_cons.mp member with rfl | member
      · exact ⟨before, c, rest, piece, rfl, start, by simpa using solid, found, rfl⟩
      · exact behind lexeme member

end Lexeme

/-! ### Sources -/

section Sources

variable {source : String} {lexemes : List Lexeme} {fault : Fault}

/-- A source whose tokens can be read fails where the parser of tokens stops. -/
theorem Term.parse_eq_error_iff (scanned : Lexeme.scan 0 (Text.trim source.toList) = .ok lexemes) :
    parse source = .error fault ↔ ∃ reason, ofTokens (lexemes.map Lexeme.token) = .error reason ∧
      fault = ⟨reason.cause, Lexeme.offsetOf lexemes (Text.utf8Size (Text.trim source.toList))
        reason.left, String.ofList (Text.trim source.toList)⟩ := by
  unfold parse Term.read
  cases parsed : ofTokens (lexemes.map Lexeme.token) <;>
    simp [scanned, bind, Except.bind, Except.mapError, parsed, eq_comm]

end Sources

end Formula

namespace Engine

open Formula

variable {σ : Type}

/-- The standard engine refuses what is not an expression. -/
theorem standard_eq_error_iff {source : String} {fault : Fault} :
    (standard : Engine σ).compile source = .error fault ↔ Term.parse source = .error fault := by
  show (Term.parse source).map Evaluator.ofTerm = .error fault ↔ _
  cases Term.parse source <;> simp [Except.map]

/-- **The fault of a source is at the first offending token.** Let the tokens of the trimmed source be
readable, and let the source be refused, but not as too deep. The longest tokens from the front that an
expression may start with are followed by the token at whose start the fault is, or the fault is at the
end of the source if they are all its tokens. -/
theorem standard_offending {source : String} {lexemes : List Lexeme} {fault : Fault}
    (scanned : Lexeme.scan 0 (Text.trim source.toList) = .ok lexemes)
    (failed : (standard : Engine σ).compile source = .error fault)
    (shallow : fault.cause ≠ .tooDeep) :
    fault.source = String.ofList (Text.trim source.toList) ∧
      ∃ count, IsGreatest {count | count ≤ lexemes.length ∧
          Viable .expression ((lexemes.map Lexeme.token).take count)} count ∧
        (∀ lexeme ∈ lexemes[count]?, fault.offset = lexeme.offset ∧
          lexeme.StandsIn (Text.trim source.toList)) ∧
        (count = lexemes.length → fault.offset = fault.source.utf8ByteSize) := by
  obtain ⟨reason, stopped, rfl⟩ :=
    (Term.parse_eq_error_iff scanned).mp (standard_eq_error_iff.mp failed)
  obtain ⟨count, total, greatest⟩ := Term.ofTokens_isGreatest stopped shallow
  rw [List.length_map] at total
  simp only [List.length_map] at greatest
  have index : lexemes.length - reason.left = count := by omega
  have stands : ∀ lexeme ∈ lexemes, lexeme.StandsIn ([] ++ Text.trim source.toList) :=
    Lexeme.standsIn_of_scan scanned rfl
  refine ⟨rfl, count, greatest, fun lexeme here => ⟨?_, ?_⟩, fun all => ?_⟩
  · show Lexeme.offsetOf lexemes _ reason.left = _
    rw [Lexeme.offsetOf, index, here]
    rfl
  · exact stands lexeme (List.mem_of_getElem? here)
  · show Lexeme.offsetOf lexemes _ reason.left = _
    rw [Text.utf8ByteSize_ofList, Lexeme.offsetOf, index, all, List.getElem?_eq_none (Nat.le_refl _)]
    rfl

/-- A source with two operators side by side. -/
def doubledSource : String := " a +* b "

/-- Its tokens. -/
def doubledLexemes : List Lexeme :=
  [⟨.name "a", 0⟩, ⟨.operator .add, 2⟩, ⟨.operator .multiply, 3⟩, ⟨.name "b", 5⟩]

set_option maxRecDepth 4000 in
/-- The second operator is the offending token. -/
theorem doubledSource_offending :
    Lexeme.scan 0 (Text.trim doubledSource.toList) = .ok doubledLexemes ∧
      (standard : Engine Unit).compile doubledSource = .error ⟨.unexpectedToken, 3, "a +* b"⟩ ∧
      IsGreatest {count | count ≤ 4 ∧
        Viable .expression ((doubledLexemes.map Lexeme.token).take count)} 2 := by
  have scanned : Lexeme.scan 0 (Text.trim doubledSource.toList) = .ok doubledLexemes := by
    decide +kernel
  have failed : (standard : Engine Unit).compile doubledSource =
      .error ⟨.unexpectedToken, 3, "a +* b"⟩ := by
    with_unfolding_all rfl
  obtain ⟨-, count, greatest, points, ends⟩ := standard_offending scanned failed (by decide)
  have few : count ≤ 4 := greatest.1.1
  have second : count = 2 := by
    interval_cases count
    · exact absurd (points _ rfl).1 (by decide)
    · exact absurd (points _ rfl).1 (by decide)
    · rfl
    · exact absurd (points _ rfl).1 (by decide)
    · exact absurd (ends rfl) (by decide)
  exact ⟨scanned, failed, second ▸ greatest⟩

end Engine

end Stencil
