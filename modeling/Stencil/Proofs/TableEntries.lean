/-
**The expressions that steps refer to.**

Steps outlive the moment at which they were made. They stand in the definitions of contexts, are
copied into any number of blocks of other templates, or are dropped with the body of a block that was
filled, while the table grows. At the end of a compile each of them still refers to the expression of
its own node: an index never means anything else than what stood at the end of the table when it was
given out.

* `Moment.Genuine.entry`: what stands in the table for the step of a moment;
* `compile_entries`: **every step of a compiled template refers to the expression of the node that it
  was made from**, and to nothing behind the table.
-/

import Stencil.Proofs.Moments

namespace Stencil.Assembly

open Markup (Node)
open Script (Step)

variable {σ : Type}

/-- **What stands in the table for the step of a moment**: the evaluator of its expression, at the
end of the table of that moment. -/
theorem Moment.Genuine.entry {tools : Tools σ} {depth : Nat} {ended : Gathered σ}
    {moment : Moment σ} {step : Step} (genuine : moment.Genuine tools depth ended)
    (made : moment.made? = some step) :
    ∃ source evaluator, moment.node.source? = some source ∧
      tools.engine.compile source = .ok evaluator ∧
      step.index? = some moment.before.table.size ∧
      ended.table[moment.before.table.size]? = some evaluator := by
  obtain ⟨room, sources, result, -, answer, ran⟩ := genuine.ran
  cases holds : moment.node.source? with
  | none => simp [made?, holds] at made
  | some source =>
    obtain ⟨evaluator, own, known, rfl, refers, grown⟩ := Job.source_run holds ran
    simp only [made?, holds, answer, Option.some.injEq] at made
    subst made
    refine ⟨source, evaluator, rfl, known, refers, stands_later genuine.stands ?_⟩
    rw [grown]
    exact Array.getElem?_push_size

namespace Job

variable {tools : Tools σ} {depth : Nat} {root : String} {steps : List Step} {ended : Gathered σ}

/-- The indices in steps that were made at moments are below the end of the table. -/
theorem bounded_of_made {trace : List (Moment σ)} {before : Gathered σ}
    (passed : Passed tools depth trace before ended) (refers : Script.Refers (Made trace) steps) :
    Script.Refers (fun _ index => index < ended.table.size) steps := by
  intro step member index found
  obtain ⟨moment, come, made⟩ := refers step member index found
  obtain ⟨_, evaluator, -, -, refersTo, stands⟩ := (passed.genuine moment come).entry made
  rw [refersTo] at found
  cases found
  exact (Array.getElem?_eq_some_iff.mp stands).1

/-- **Every step of a compiled template refers to the expression of its own node.** The expressions
that a compile comes upon stand in the table in this order, each under the index that it was given.
Every index in a step, at any level and however often the step was copied, is one of these: it is
below the end of the table, and under it stands what the engine made of the source of the node from
which the step was made. So whatever stood behind the table, no run would look at it. -/
theorem compile_entries (tools : Tools σ) (depth : Nat) (root : String) {template : Template σ}
    (compiled : (compile tools depth root).1 = .ok template) :
    (moments tools depth root).filterMap Moment.index? = List.range template.table.size ∧
      (∀ step ∈ Script.all template.steps, ∀ index, step.index? = some index →
        index < template.table.size ∧
        ∃ moment ∈ moments tools depth root, moment.made? = some step ∧
          ∃ source evaluator, moment.node.source? = some source ∧
            tools.engine.compile source = .ok evaluator ∧
            template.table[index]? = some evaluator) ∧
      ∀ more, Script.run (template.table ++ more) template.steps =
        Script.run template.table template.steps := by
  obtain ⟨steps, ended, -, rfl, passed, refers⟩ := compile_passed compiled
  have bounded := bounded_of_made passed refers
  refine ⟨?_, fun step member index found => ?_, fun more =>
    Script.run_append_table more bounded.coalesce⟩
  · obtain ⟨added, whole, numbers, -⟩ := passed.entered
    have size : ended.table.size = added.length := by
      rw [← Array.length_toList, whole]
      rfl
    rw [numbers, List.range_eq_range']
    exact congrArg (List.range' 0) size.symm
  · -- joining the texts has left the references as they are
    have among := Script.mem_all_of_coalesce steps member found
    obtain ⟨moment, come, made⟩ := refers step among index found
    obtain ⟨source, evaluator, holds, known, refersTo, stands⟩ :=
      (passed.genuine moment come).entry made
    refine ⟨bounded step among index found, moment, come, made, source, evaluator, holds, known, ?_⟩
    rw [refersTo] at found
    cases found
    exact stands

/-- A page whose first definition is copied into two blocks, one of them in a part that it includes
and one with a body that is dropped. -/
def copiedTools : Tools Unit where
  load path := .ok path
  parse source :=
    if source = "page" then
      .ok [.definition (.mk "note" .override [.expression "x" .escaped]),
        .block "note" [.expression "w" .escaped],
        .inclusion "part" [.mk "foot" .append [.variable "v" "y"]]]
    else .ok [.block "note" [], .block "foot" [.expression "z" .raw], .text "end"]
  engine := Engine.standard

/-- The page, compiled. -/
def copiedTemplate : Template Unit :=
  ⟨[.emit 0 true, .nested [.emit 0 true, .emit 3 false, .assign "v" 2, .text "end"]],
    #[Evaluator.ofTerm (.name "x"), Evaluator.ofTerm (.name "w"),
      Evaluator.ofTerm (.name "y"), Evaluator.ofTerm (.name "z")]⟩

/-- Both copies refer to the first of four expressions, and the definition that the include was given
to the third. -/
theorem copiedTemplate_entries :
    (compile copiedTools 2 "page").1 = .ok copiedTemplate ∧
      (moments copiedTools 2 "page").filterMap Moment.index? = List.range 4 ∧
      ∃ moment ∈ moments copiedTools 2 "page", moment.made? = some (.assign "v" 2) ∧
        ∃ source evaluator, moment.node.source? = some source ∧
          copiedTools.engine.compile source = .ok evaluator ∧
          copiedTemplate.table[2]? = some evaluator := by
  have compiled : (compile copiedTools 2 "page").1 = .ok copiedTemplate := by with_unfolding_all rfl
  obtain ⟨numbers, entries, -⟩ := compile_entries copiedTools 2 "page" compiled
  have member : Step.assign "v" 2 ∈ Script.all copiedTemplate.steps := by
    simp [copiedTemplate, Script.all, Script.Step.all]
  obtain ⟨-, entry⟩ := entries (.assign "v" 2) member 2 rfl
  exact ⟨compiled, numbers, entry⟩

end Job

end Stencil.Assembly
