/-
**What can be wrong with the source of a template.**

A fault is a cause and the text near it; a parse error is a fault and the place where it was found.

* `Fault.message`: the wording, with at most 32 characters of the text near the fault;
* `ParseError.message`: the same, followed by the place.
-/

import Stencil.Text.Position

namespace Stencil.Markup

open Text (Position)

/-! ### The nouns of a message -/

/-- What opens a group of nodes. -/
inductive Opener
  | block
  | definition
  | inclusion
  deriving DecidableEq, Repr

/-- The word that opens and closes a group. -/
def Opener.word : Opener → String
  | .block => "block"
  | .definition => "def"
  | .inclusion => "include"

/-- The kinds of nodes, as far as messages tell them apart. -/
inductive NodeKind
  | text
  | definition
  | block
  | inclusion
  | expression
  | variable
  deriving DecidableEq, Repr

/-- The name of a kind of node. -/
def NodeKind.name : NodeKind → String
  | .text => "text"
  | .definition => "def"
  | .block => "block"
  | .inclusion => "include"
  | .expression => "expr"
  | .variable => "var"

/-- An argument that a tag needs. -/
inductive Needed
  | word
  | blockName
  | definitionName
  | includePath
  deriving DecidableEq, Repr

/-- How a needed argument is called. -/
def Needed.name : Needed → String
  | .word => "token"
  | .blockName => "block name"
  | .definitionName => "def name"
  | .includePath => "include path"

/-! ### Faults -/

/-- **Why a source is refused.** -/
inductive Cause
  | emptyTag
  | unclosedTag
  | unterminatedString
  | unknownMode (mode : String)
  | malformedVariable
  | missing (needed : Needed)
  | unexpectedArgument (value : String)
  | unsupportedOpener (word : String)
  | unexpectedClosing (word : String)
  | mismatchedClosing (word : String) (expected : Opener)
  | textInInclusion
  | nodeInInclusion (kind : NodeKind)
  | unclosedGroup (opener : Opener)
  deriving DecidableEq, Repr

/-- What a cause says. -/
def Cause.wording : Cause → String
  | .emptyTag => "empty tag"
  | .unclosedTag => "unclosed tag"
  | .unterminatedString => "unterminated string"
  | .unknownMode mode => "unknown mode " ++ mode ++ ", expected override, append or prepend"
  | .malformedVariable => "malformed var binding, expected var name = expression"
  | .missing needed => "expected " ++ needed.name
  | .unexpectedArgument value => "unexpected argument " ++ value
  | .unsupportedOpener word => "unsupported block helper " ++ word
  | .unexpectedClosing word => "unexpected closing tag " ++ word
  | .mismatchedClosing word expected =>
    "mismatched closing tag " ++ word ++ ", expected " ++ expected.word
  | .textInInclusion => "only def blocks may appear inside include"
  | .nodeInInclusion kind => "only def blocks may appear inside include, found " ++ kind.name
  | .unclosedGroup opener => "unclosed " ++ opener.word ++ " tag"

/-- **A fault**: its cause and the text near it. -/
structure Fault where
  cause : Cause
  near : List Char
  deriving DecidableEq, Repr

/-- The most characters that a message quotes. -/
def excerptLimit : Nat := 32

/-- **The quoted part of the text near a fault**: its end where something is missing there, its start
otherwise; an unknown mode needs no quotation. -/
def Fault.excerpt (fault : Fault) : Option (List Char) :=
  match fault.cause with
  | .unclosedTag | .unterminatedString =>
    some (fault.near.drop (fault.near.length - excerptLimit))
  | .unknownMode _ => none
  | _ => some (fault.near.take excerptLimit)

/-- **The wording of a fault.** -/
def Fault.message (fault : Fault) : String :=
  match fault.excerpt with
  | none => fault.cause.wording
  | some excerpt => fault.cause.wording ++ " near \"" ++ String.ofList excerpt ++ "\""

/-! ### Parse errors -/

/-- **A fault and where it was found.** -/
structure ParseError where
  fault : Fault
  position : Position
  deriving DecidableEq, Repr

/-- **The wording of a parse error**: that of the fault and the place. -/
def ParseError.message (error : ParseError) : String :=
  error.fault.message ++ " at " ++ error.position.message

/-- A fault found in `source` where `rest` begins. -/
def Fault.locate (fault : Fault) (source rest : List Char) : ParseError :=
  ⟨fault, Position.before source rest⟩

end Stencil.Markup
