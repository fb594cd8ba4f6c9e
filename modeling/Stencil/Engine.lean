/-
**Engines**: what turns the source of an expression into something that can be evaluated.

An evaluator may keep a state of the host's between evaluations; the standard engine does not.

* `Engine.standard`: the language of `Formula.Term`;
* `Engine.extend`: an engine with sources of its own before another.
-/

import Stencil.Formula.Meaning
import Stencil.Formula.Parse

namespace Stencil

/-- **An evaluator**: the value of an expression in a scope, and the host's state afterwards. -/
abbrev Evaluator (σ : Type) := Scope → σ → Except EvalError Value × σ

/-- **An engine** compiles sources of expressions to evaluators. -/
structure Engine (σ : Type) where
  compile : String → Except Formula.Fault (Evaluator σ)

variable {σ : Type}

/-- The evaluator of an expression: it leaves the host's state alone. -/
def Evaluator.ofTerm (term : Formula.Term) : Evaluator σ :=
  fun scope state => (term.eval scope, state)

namespace Engine

/-- **The built-in language of expressions.** -/
def standard : Engine σ where
  compile source := (Formula.Term.parse source).map Evaluator.ofTerm

/-- **An engine with sources of its own**: what it does not know goes to the other engine. -/
def extend (own : String → Option (Except Formula.Fault (Evaluator σ))) (engine : Engine σ) :
    Engine σ where
  compile source := (own source).getD (engine.compile source)

end Engine

end Stencil
