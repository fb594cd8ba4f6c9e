/-
**Steps refer to expressions by index.**

What a step does depends on the table only through the entries that it refers to. So a script does
the same over another table that has the same evaluators elsewhere, if its indices are renamed to
where they stand.

* `Step.index?`, `Refers`: the expression that a step refers to, and steps all of whose references
  have a property;
* `renumber`: steps with their indices renamed;
* `mem_all_of_coalesce`: joining texts brings no new references;
* `run_renumber`: **renamed steps run as the steps themselves do**, over a table that fits;
* `run_append_table`: entries behind those that are referred to are not looked at.
-/

import Stencil.Proofs.Coalescing
import Stencil.Proofs.EscapedOutput

namespace Stencil.Script

variable {σ : Type}

/-! ### References -/

/-- **The expression that a step refers to**, if it refers to one itself. -/
def Step.index? : Step → Option Nat
  | .text _ => none
  | .emit index _ => some index
  | .eval index => some index
  | .assign _ index => some index
  | .nested _ => none

/-- **Steps all of whose references have a property**, at every level. -/
def Refers (fine : Step → Nat → Prop) (steps : List Step) : Prop :=
  ∀ step ∈ all steps, ∀ index, step.index? = some index → fine step index

section Refers

variable {fine : Step → Nat → Prop}

theorem all_append (first second : List Step) : all (first ++ second) = all first ++ all second := by
  induction first with
  | nil => rw [List.nil_append, all, List.nil_append]
  | cons step first ih => rw [List.cons_append, all, all, ih, List.append_assoc]

theorem Refers.nil : Refers fine [] := by
  intro step member
  rw [all] at member
  cases member

theorem Refers.text (content : String) : Refers fine [.text content] := by
  intro step member index found
  rw [all, Step.all, all] at member
  cases List.mem_singleton.mp member
  cases found

theorem refers_append {first second : List Step} :
    Refers fine (first ++ second) ↔ Refers fine first ∧ Refers fine second := by
  simp only [Refers, all_append, List.mem_append, or_imp, forall_and]

/-- A body of its own refers to what the steps in it refer to. -/
theorem refers_nested {body : List Step} : Refers fine [.nested body] ↔ Refers fine body := by
  have whole : all [Step.nested body] = .nested body :: all body := by
    rw [all, all, Step.all, List.append_nil]
  refine ⟨fun refers step member => refers step ?_, fun refers step member index found => ?_⟩
  · rw [whole]
    exact List.mem_cons_of_mem _ member
  · rw [whole] at member
    rcases List.mem_cons.mp member with rfl | inside
    · cases found
    · exact refers step inside index found

/-- A step that refers to an expression has no steps in it. -/
theorem all_of_index {step : Step} {index : Nat} (found : step.index? = some index) :
    all [step] = [step] := by
  cases step with
  | text content => cases found
  | emit index escape => rfl
  | eval index => rfl
  | assign name index => rfl
  | nested body => cases found

theorem Refers.of_index {step : Step} {index : Nat} (found : step.index? = some index)
    (holds : fine step index) : Refers fine [step] := by
  intro other member number same
  rw [all_of_index found] at member
  cases List.mem_singleton.mp member
  rw [found] at same
  cases same
  exact holds

theorem Refers.mono {weaker : Step → Nat → Prop} {steps : List Step} (refers : Refers fine steps)
    (implies : ∀ step index, fine step index → weaker step index) : Refers weaker steps :=
  fun step member index found => implies step index (refers step member index found)

end Refers

/-! ### Joining texts -/

theorem mem_all_putText {content : String} {steps : List Step} {step : Step} {index : Nat}
    (member : step ∈ all (putText content steps)) (found : step.index? = some index) :
    step ∈ all steps := by
  unfold putText at member
  split at member
  · exact member
  · split at member
    · rw [all, Step.all, List.singleton_append] at member
      rcases List.mem_cons.mp member with rfl | later
      · cases found
      · rw [all]
        exact List.mem_append_right _ later
    · rw [all, Step.all, List.singleton_append] at member
      rcases List.mem_cons.mp member with rfl | later
      · cases found
      · exact later

mutual

theorem mem_all_of_stepCoalesce (whole : Step) {step : Step} {index : Nat}
    (member : step ∈ whole.coalesce.all) (found : step.index? = some index) :
    step ∈ whole.all := by
  cases whole with
  | text content => exact member
  | emit index escape => exact member
  | eval index => exact member
  | assign name index => exact member
  | nested body =>
    rw [Step.coalesce, Step.all] at member
    rcases List.mem_cons.mp member with rfl | inside
    · cases found
    · exact List.mem_cons_of_mem _ (mem_all_of_coalesce body inside found)

/-- **Joining texts brings no new references.** -/
theorem mem_all_of_coalesce (steps : List Step) {step : Step} {index : Nat}
    (member : step ∈ all (coalesce steps)) (found : step.index? = some index) :
    step ∈ all steps := by
  cases steps with
  | nil => exact member
  | cons first rest =>
    rw [all]
    by_cases isText : ∃ content, first = .text content
    · obtain ⟨content, rfl⟩ := isText
      rw [coalesce] at member
      exact List.mem_append_right _ (mem_all_of_coalesce rest (mem_all_putText member found) found)
    · rw [coalesce, all] at member
      · rcases List.mem_append.mp member with here | later
        · exact List.mem_append_left _ (mem_all_of_stepCoalesce first here found)
        · exact List.mem_append_right _ (mem_all_of_coalesce rest later found)
      · exact fun content same => isText ⟨content, same⟩

end

theorem Refers.coalesce {fine : Step → Nat → Prop} {steps : List Step}
    (refers : Refers fine steps) : Refers fine (coalesce steps) :=
  fun step member index found =>
    refers step (mem_all_of_coalesce steps member found) index found

/-! ### Renamed indices -/

section Renumber

variable (rename : Nat → Nat)

mutual

/-- A step with the indices in it renamed, at every level. -/
def Step.renumber : Step → Step
  | .text content => .text content
  | .emit index escape => .emit (rename index) escape
  | .eval index => .eval (rename index)
  | .assign name index => .assign name (rename index)
  | .nested body => .nested (renumber body)

/-- **Steps with the indices in them renamed**, at every level. -/
def renumber : List Step → List Step
  | [] => []
  | step :: rest => step.renumber :: renumber rest

end

theorem renumber_append (first second : List Step) :
    renumber rename (first ++ second) = renumber rename first ++ renumber rename second := by
  induction first with
  | nil => rw [List.nil_append, renumber, List.nil_append]
  | cons step first ih => rw [List.cons_append, renumber, renumber, ih, List.cons_append]

theorem renumber_singleton (step : Step) :
    renumber rename [step] = [step.renumber rename] := by
  rw [renumber, renumber]

end Renumber

mutual

theorem stepRenumber_id (step : Step) : step.renumber id = step := by
  cases step with
  | text content => rfl
  | emit index escape => rfl
  | eval index => rfl
  | assign name index => rfl
  | nested body => rw [Step.renumber, renumber_id body]

theorem renumber_id (steps : List Step) : renumber id steps = steps := by
  cases steps with
  | nil => rfl
  | cons step rest => rw [renumber, stepRenumber_id step, renumber_id rest]

end

/-! ### Runs over another table -/

section Tables

variable {rename : Nat → Nat} {table other : Array (Evaluator σ)}

/-- **The second table has the evaluators that steps refer to in the first**, each at its renamed
index. -/
def Carries (rename : Nat → Nat) (table other : Array (Evaluator σ)) (steps : List Step) : Prop :=
  Refers (fun _ index => ∃ evaluator, table[index]? = some evaluator ∧
    other[rename index]? = some evaluator) steps

theorem evaluate_renamed {index : Nat} {evaluator : Evaluator σ}
    (stands : table[index]? = some evaluator) (carried : other[rename index]? = some evaluator) :
    evaluate other (rename index) = evaluate table index := by
  unfold evaluate
  rw [stands, carried]

mutual

theorem stepRun_renumber (step : Step) (carries : Carries rename table other [step]) :
    (step.renumber rename).run other = step.run table := by
  have same : ∀ index, step.index? = some index → step ∈ all [step] →
      evaluate other (rename index) = evaluate table index := by
    intro index found member
    obtain ⟨evaluator, stands, carried⟩ := carries step member index found
    exact evaluate_renamed stands carried
  cases step with
  | text content => rfl
  | emit index escape =>
    rw [Step.renumber, Step.run, Step.run, same index rfl List.mem_cons_self]
  | eval index =>
    rw [Step.renumber, Step.run, Step.run, same index rfl List.mem_cons_self]
  | assign name index =>
    rw [Step.renumber, Step.run, Step.run, same index rfl List.mem_cons_self]
  | nested body =>
    rw [Step.renumber, Step.run, Step.run, run_renumber body (refers_nested.mp carries)]

/-- **Renamed steps run as the steps themselves do**, over a table that has their evaluators at the
renamed indices. -/
theorem run_renumber (steps : List Step) (carries : Carries rename table other steps) :
    run other (renumber rename steps) = run table steps := by
  cases steps with
  | nil => rfl
  | cons step rest =>
    obtain ⟨here, later⟩ :=
      refers_append.mp (show Carries rename table other ([step] ++ rest) from carries)
    rw [renumber, run_cons, run_cons, stepRun_renumber step here, run_renumber rest later]

end

/-- **Entries behind those that steps refer to are not looked at.** -/
theorem run_append_table {steps : List Step} (more : Array (Evaluator σ))
    (bounded : Refers (fun _ index => index < table.size) steps) :
    run (table ++ more) steps = run table steps := by
  have carries : Carries id table (table ++ more) steps := by
    refine bounded.mono fun _ index below => ⟨table[index], ?_, ?_⟩
    · exact Array.getElem?_eq_getElem below
    · rw [id, Array.getElem?_append_left below, Array.getElem?_eq_getElem below]
  have renamed := run_renumber steps carries
  rwa [renumber_id] at renamed

end Tables

end Stencil.Script
