/-
**Joining texts does not change what a script does.**

* `run_append`: steps run one after the other, wherever the sequence is cut;
* `run_putText`: text put before steps is written first;
* `run_coalesce`: **coalesced steps run as the steps themselves do**, in every scope, with the same
  evaluators called in the same order.
-/

import Stencil.Script.Run

namespace Stencil.Script

variable {σ : Type} (table : Array (Evaluator σ))

theorem run_nil : run table [] = pure () := by
  rw [run]

theorem run_cons (step : Step) (rest : List Step) :
    run table (step :: rest) = step.run table >>= fun _ => run table rest := by
  rw [run]

theorem run_append (first second : List Step) :
    run table (first ++ second) = run table first >>= fun _ => run table second := by
  induction first with
  | nil => rw [List.nil_append, run_nil, pure_bind]
  | cons step first ih => rw [List.cons_append, run_cons, run_cons, ih, bind_assoc]

theorem run_singleton (step : Step) : run table [step] = step.run table := by
  rw [run_cons, run_nil]
  exact bind_pure (step.run table)

/-! ### Texts -/

theorem write_empty : (write "" : Run σ Unit) = pure () := by
  funext progress
  show (Except.ok (), { progress with output := progress.output ++ "" }) = (Except.ok (), progress)
  rw [String.append_empty]

theorem write_append (first second : String) :
    (write first >>= fun _ => write second : Run σ Unit) = write (first ++ second) := by
  funext progress
  show (Except.ok (), { progress with output := progress.output ++ first ++ second }) =
    (Except.ok (), { progress with output := progress.output ++ (first ++ second) })
  rw [String.append_assoc]

/-- **Text put before steps is written first.** -/
theorem run_putText (content : String) (steps : List Step) :
    run table (putText content steps) = write content >>= fun _ => run table steps := by
  unfold putText
  split
  · rename_i empty
    rw [empty, write_empty, pure_bind]
  · split
    · rename_i first rest
      rw [run_cons, run_cons, Step.run, Step.run, ← write_append, bind_assoc]
    · rw [run_cons, Step.run]

/-! ### Steps -/

mutual

theorem run_stepCoalesce (step : Step) : step.coalesce.run table = step.run table := by
  cases step with
  | text content => rfl
  | emit index escape => rfl
  | eval index => rfl
  | assign name index => rfl
  | nested body => rw [Step.coalesce, Step.run, Step.run, run_coalesce body]

/-- **Coalesced steps run as the steps themselves do.** -/
theorem run_coalesce (steps : List Step) : run table (coalesce steps) = run table steps := by
  cases steps with
  | nil => rfl
  | cons step rest =>
    have inside := run_stepCoalesce step
    have later := run_coalesce rest
    by_cases isText : ∃ content, step = .text content
    · obtain ⟨content, rfl⟩ := isText
      rw [coalesce, run_putText, later, run_cons, Step.run]
    · rw [coalesce, run_cons, inside, later, run_cons]
      exact fun content same => isText ⟨content, same⟩

end

end Stencil.Script
