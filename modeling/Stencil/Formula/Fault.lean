/-
**What can be wrong with the source of an expression.**

* `Formula.Fault.message`: the wording, with the offset and the source;
* `Formula.Cause.wording`: the wording alone.
-/

namespace Stencil.Formula

/-- **Why an expression is refused.** -/
inductive Cause
  | unterminatedString
  | invalidNumber (digits : String)
  | unexpectedCharacter (c : Char)
  | tooDeep
  | unexpectedToken
  | unexpectedEnd
  | missingColon
  | missingParenthesis
  | missingBracket
  | missingField
  /-- A cause of an engine's own. -/
  | custom (wording : String)
  deriving DecidableEq, Repr

/-- What a cause says. -/
def Cause.wording : Cause → String
  | .unterminatedString => "unterminated string"
  | .invalidNumber digits => "invalid number " ++ digits
  | .unexpectedCharacter c => "unexpected character `" ++ String.singleton c ++ "`"
  | .tooDeep => "expression nested too deeply"
  | .unexpectedToken => "unexpected token"
  | .unexpectedEnd => "unexpected end of expression"
  | .missingColon => "expected `:` in conditional"
  | .missingParenthesis => "expected `)`"
  | .missingBracket => "expected `]`"
  | .missingField => "expected field name after `.`"
  | .custom wording => wording

/-- **A fault in an expression**: its cause, the byte offset where it was found, and the expression. -/
structure Fault where
  cause : Cause
  offset : Nat
  source : String
  deriving DecidableEq, Repr

/-- **The wording of a fault**, with its place. -/
def Fault.message (fault : Fault) : String :=
  fault.cause.wording ++ " at offset " ++ toString fault.offset ++ " in `" ++ fault.source ++ "`"

end Stencil.Formula
