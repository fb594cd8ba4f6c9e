/-
**What holds of the parts of a run.**

A run is made of few parts: text that is written, names that are bound and evaluators that are called,
in sequences and in scopes of their own. What holds of all these holds of the run of any steps.

* `evaluate_missing`, `evaluate_stands`: what the call of an evaluator does;
* `Compositional`: **a property of parts of a run that sequences and scopes keep**;
* `Compositional.run`: the run of any steps has it.
-/

import Stencil.Script.Run

namespace Stencil.Script

variable {σ : Type} {table : Array (Evaluator σ)} {index : Nat}

/-! ### Calls of evaluators -/

theorem evaluate_missing (missing : table[index]? = none) (progress : Progress σ) :
    (evaluate table index).run progress = (.error (.noExpression index), progress) := by
  unfold evaluate
  rw [missing]
  rfl

/-- **The call of an evaluator** changes the host's state alone. -/
theorem evaluate_stands {evaluator : Evaluator σ} (stands : table[index]? = some evaluator)
    (progress : Progress σ) :
    (evaluate table index).run progress = ((evaluator progress.scope progress.host).1,
      { progress with host := (evaluator progress.scope progress.host).2 }) := by
  unfold evaluate
  rw [stands]
  rfl

/-! ### Properties of all steps -/

/-- **A property of parts of a run that sequences and scopes keep**, and that holds of what the steps
over a table do themselves. -/
structure Compositional (property : ∀ {α : Type}, Run σ α → Prop) (table : Array (Evaluator σ)) :
    Prop where
  pure : ∀ {α : Type} {value : α}, property (Pure.pure value : Run σ α)
  bind : ∀ {α β : Type} {part : Run σ α} {next : α → Run σ β}, property part →
    (∀ value, property (next value)) → property (part >>= next)
  write : ∀ content, property (write content)
  assign : ∀ name value, property (Script.bind name value)
  evaluate : ∀ index, property (evaluate table index)
  inside : ∀ {part : Run σ Unit}, property part → property (inside part)

section Steps

variable {property : ∀ {α : Type}, Run σ α → Prop}

mutual

theorem Compositional.step (keeps : Compositional property table) (step : Step) :
    property (step.run table) := by
  cases step with
  | text content =>
    rw [Step.run]
    exact keeps.write content
  | emit index escape =>
    rw [Step.run]
    exact keeps.bind (keeps.evaluate index) fun value => keeps.write _
  | eval index =>
    rw [Step.run]
    exact keeps.bind (keeps.evaluate index) fun _ => keeps.pure
  | assign name index =>
    rw [Step.run]
    exact keeps.bind (keeps.evaluate index) fun value => keeps.assign name value
  | nested body =>
    rw [Step.run]
    exact keeps.inside (keeps.run body)

/-- **The run of any steps has a property** that sequences and scopes keep. -/
theorem Compositional.run (keeps : Compositional property table) (steps : List Step) :
    property (run table steps) := by
  cases steps with
  | nil =>
    rw [Script.run]
    exact keeps.pure
  | cons step rest =>
    rw [Script.run]
    exact keeps.bind (keeps.step step) fun _ => keeps.run rest

end

end Steps

end Stencil.Script
