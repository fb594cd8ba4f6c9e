/-
**When a template renders.**

* `render_eq_ok_iff`: a template renders what its steps write in the outermost scope, if they end;
* `render_of_run`: templates whose steps run alike render alike.
-/

import Stencil.Script.Run

namespace Stencil.Assembly

open Script (Step)

variable {σ : Type}

/-- The outermost scope over bindings, which must be an object, or null for none. -/
def rootScope? : Value → Option Scope
  | .object fields => some (Scope.reading fields)
  | .null => some (Scope.reading [])
  | _ => none

/-- The output over an outermost scope is read off the end of the run. -/
theorem renderIn_run (template : Template σ) (scope : Scope) (host : σ) :
    template.renderIn scope host =
      (((Script.run template.table template.steps).run ⟨scope, "", host⟩).1.map fun _ =>
          ((Script.run template.table template.steps).run ⟨scope, "", host⟩).2.output,
        ((Script.run template.table template.steps).run ⟨scope, "", host⟩).2.host) :=
  rfl

/-- **A template renders** what its steps write in the outermost scope, if they end. -/
theorem render_eq_ok_iff {template : Template σ} {bindings : Value} {host : σ} {output : String} :
    (template.render bindings host).1 = .ok output ↔
      ∃ scope after, rootScope? bindings = some scope ∧
        (Script.run template.table template.steps).run ⟨scope, "", host⟩ = (.ok (), after) ∧
        after.output = output := by
  have inScope : ∀ scope, ((template.renderIn scope host).1.mapError RenderError.evaluation =
      .ok output) ↔ ∃ after,
        (Script.run template.table template.steps).run ⟨scope, "", host⟩ = (.ok (), after) ∧
        after.output = output := by
    intro scope
    unfold Template.renderIn
    cases ran : (Script.run template.table template.steps).run ⟨scope, "", host⟩ with
    | mk answer after =>
      cases answer with
      | error error =>
        exact ⟨fun failed => (by cases failed), fun ⟨_, failed, _⟩ => (by cases failed)⟩
      | ok done =>
        refine ⟨fun same => ⟨after, rfl, Except.ok.inj same⟩, ?_⟩
        rintro ⟨_, same, rfl⟩
        cases same
        rfl
  cases bindings with
  | object fields =>
    refine (inScope (Scope.reading fields)).trans ?_
    simp [rootScope?]
  | null =>
    refine (inScope (Scope.reading [])).trans ?_
    simp [rootScope?]
  | _ => simp [Template.render, rootScope?]

/-- Templates whose steps run alike render alike. -/
theorem render_of_run {template : Template σ} {bindings : Value} {host : σ} {scope : Scope}
    {steps : List Step} {table : Array (Evaluator σ)} {after : Script.Progress σ}
    (same : Script.run template.table template.steps = Script.run table steps)
    (opened : rootScope? bindings = some scope)
    (ran : (Script.run table steps).run ⟨scope, "", host⟩ = (.ok (), after)) :
    (template.render bindings host).1 = .ok after.output :=
  render_eq_ok_iff.mpr ⟨scope, after, opened, by rw [same]; exact ran, rfl⟩

end Stencil.Assembly
