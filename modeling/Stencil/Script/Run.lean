/-
**Running scripts.**

A run reads and binds names in a scope, writes output and calls evaluators. It stops at the first
evaluation error.

* `Script.run`: the steps one after the other;
* `Template.render`: a script run over given bindings.
-/

import Stencil.Engine
import Stencil.Html
import Stencil.Script.Step

namespace Stencil

namespace Script

variable {σ : Type}

/-- **What a run works on**: the scope it is in, what it has written, and the host's state. -/
structure Progress (σ : Type) where
  scope : Scope
  output : String
  host : σ

/-- **A part of a run**: it changes the progress and may fail. -/
abbrev Run (σ : Type) := ExceptT EvalError (StateM (Progress σ))

/-- Writes text. -/
def write (content : String) : Run σ Unit :=
  modify fun progress => { progress with output := progress.output ++ content }

/-- Binds a name in the scope. -/
def bind (name : String) (value : Value) : Run σ Unit :=
  modify fun progress => { progress with scope := progress.scope.set name value }

/-- **Calls the evaluator** with the given index. -/
def evaluate (table : Array (Evaluator σ)) (index : Nat) : Run σ Value :=
  ExceptT.mk fun progress =>
    match table[index]? with
    | none => (.error (.noExpression index), progress)
    | some evaluator =>
      let (result, host) := evaluator progress.scope progress.host
      (result, { progress with host })

/-- **A part of a run in a scope of its own**: the scope is closed after it, also if it fails. -/
def inside (part : Run σ Unit) : Run σ Unit :=
  ExceptT.mk fun progress =>
    let (result, after) := part.run { progress with scope := progress.scope.nested }
    (result, { after with scope := progress.scope })

/-- The text that is written for a value. -/
def written (escape : Bool) (value : Value) : String :=
  if escape then Html.escape value.output else value.output

mutual

/-- **Runs one step.** -/
def Step.run (table : Array (Evaluator σ)) : Step → Run σ Unit
  | .text content => write content
  | .emit index escape => do
    let value ← evaluate table index
    write (written escape value)
  | .eval index => do
    let _ ← evaluate table index
  | .assign name index => do
    let value ← evaluate table index
    bind name value
  | .nested body => inside (run table body)

/-- **Runs steps** one after the other. -/
def run (table : Array (Evaluator σ)) : List Step → Run σ Unit
  | [] => pure ()
  | step :: rest => do
    step.run table
    run table rest

end

end Script

/-- **Why a template is not rendered.** -/
inductive RenderError
  | bindings (got : Kind)
  | unknownTemplate (name : String)
  | evaluation (error : EvalError)
  deriving DecidableEq, Repr

/-- **The wording of a render error.** -/
def RenderError.message : RenderError → String
  | .bindings got => "bindings must be an object or null, got " ++ got.name
  | .unknownTemplate name => "no template named `" ++ name ++ "`"
  | .evaluation error => error.message

/-- **A compiled template**: its script and the expressions that the script refers to. -/
structure Template (σ : Type) where
  steps : List Script.Step
  table : Array (Evaluator σ)

namespace Template

variable {σ : Type}

/-- **The template of a script** as it is put together: texts are joined. -/
def assemble (steps : List Script.Step) (table : Array (Evaluator σ)) : Template σ :=
  ⟨Script.coalesce steps, table⟩

/-- The output over an outermost scope, or the first error, and the host's state afterwards. -/
def renderIn (template : Template σ) (scope : Scope) (host : σ) : Except EvalError String × σ :=
  let (result, after) := (Script.run template.table template.steps).run ⟨scope, "", host⟩
  (result.map fun _ => after.output, after.host)

/-- **The output over bindings**, which must be an object, or null for none. -/
def render (template : Template σ) (bindings : Value) (host : σ) :
    Except RenderError String × σ :=
  match bindings with
  | .object fields =>
    let (result, host) := template.renderIn (Scope.reading fields) host
    (result.mapError RenderError.evaluation, host)
  | .null =>
    let (result, host) := template.renderIn (Scope.reading []) host
    (result.mapError RenderError.evaluation, host)
  | other => (.error (.bindings other.kind), host)

end Template

end Stencil
