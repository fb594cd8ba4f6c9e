/-
**What a run depends on.**

If no evaluator looks at the host's state, what a run does depends on its scope alone: text that was
written before stays in front of what it writes, and the host's state stays what it was.

* `Quiet`: an evaluator that has nothing to do with the host;
* `Undisturbed`: **a part of a run that does the same behind any text and with any host**;
* `run_undisturbed`: steps do, if their evaluators are quiet;
* `compile_quiet`: the evaluators of a compile with the standard engine are.
-/

import Stencil.Proofs.Coalescing
import Stencil.Proofs.JobContract
import Stencil.Proofs.RunContract

namespace Stencil

variable {σ α β : Type}

/-- **An evaluator that has nothing to do with the host**: its value depends on the scope alone, and
it leaves the host's state as it is. -/
def Evaluator.Quiet (evaluator : Evaluator σ) : Prop :=
  ∃ value : Scope → Except EvalError Value, evaluator = fun scope host => (value scope, host)

/-- A table whose evaluators are all quiet. -/
def QuietTable (table : Array (Evaluator σ)) : Prop :=
  ∀ evaluator ∈ table.toList, evaluator.Quiet

namespace Script

/-- The progress behind a text that was written before, with another state of the host. -/
def Progress.behind (lead : String) (host : σ) (progress : Progress σ) : Progress σ :=
  ⟨progress.scope, lead ++ progress.output, host⟩

/-- **A part of a run that does the same behind any text and with any host.** -/
def Undisturbed (part : Run σ α) : Prop :=
  ∀ lead host progress, part.run (progress.behind lead host) =
    ((part.run progress).1, (part.run progress).2.behind lead host)

theorem Undisturbed.pure {value : α} : Undisturbed (Pure.pure value : Run σ α) :=
  fun _ _ _ => rfl

theorem Undisturbed.bind {part : Run σ α} {next : α → Run σ β} (first : Undisturbed part)
    (second : ∀ value, Undisturbed (next value)) : Undisturbed (part >>= next) := by
  intro lead host progress
  rw [run_bind, run_bind, first lead host progress]
  cases part.run progress with
  | mk answer after =>
    cases answer with
    | ok value => exact second value lead host after
    | error error => rfl

theorem write_undisturbed (content : String) : Undisturbed (write content : Run σ Unit) := by
  intro lead host progress
  show (Except.ok (), (⟨progress.scope, lead ++ progress.output ++ content, host⟩ : Progress σ)) =
    (Except.ok (), ⟨progress.scope, lead ++ (progress.output ++ content), host⟩)
  rw [String.append_assoc]

theorem bind_undisturbed (name : String) (value : Value) :
    Undisturbed (bind name value : Run σ Unit) :=
  fun _ _ _ => rfl

theorem inside_undisturbed {part : Run σ Unit} (undisturbed : Undisturbed part) :
    Undisturbed (inside part) := by
  intro lead host progress
  have same := undisturbed lead host { progress with scope := progress.scope.nested }
  exact congrArg (fun ran : Except EvalError Unit × Progress σ =>
    (ran.1, { ran.2 with scope := progress.scope })) same

section Steps

variable {table : Array (Evaluator σ)}

theorem evaluate_undisturbed (quiet : QuietTable table) (index : Nat) :
    Undisturbed (evaluate table index) := by
  intro lead host progress
  cases found : table[index]? with
  | none => rw [evaluate_missing found, evaluate_missing found]
  | some evaluator =>
    rw [evaluate_stands found, evaluate_stands found]
    obtain ⟨value, rfl⟩ := quiet evaluator (Array.mem_of_getElem? found).val
    rfl

/-- **Steps with quiet evaluators do the same behind any text and with any host.** -/
theorem run_undisturbed (quiet : QuietTable table) (steps : List Step) :
    Undisturbed (run table steps) :=
  Compositional.run ⟨Undisturbed.pure, Undisturbed.bind, write_undisturbed, bind_undisturbed,
    evaluate_undisturbed quiet, inside_undisturbed⟩ steps

end Steps

/-! ### A part in a scope of its own -/

section Inside

variable {table : Array (Evaluator σ)}

/-- **What a part does depends on the scope alone**: the scope it ends in, the text it adds and
whether it fails. -/
theorem Undisturbed.adds {part : Run σ α} (undisturbed : Undisturbed part) (scope : Scope)
    (host : σ) : ∃ result ended added, ∀ output host,
      part.run ⟨scope, output, host⟩ = (result, ⟨ended, output ++ added, host⟩) := by
  obtain ⟨result, ended, added, state, first⟩ : ∃ result ended added state,
      part.run ⟨scope, "", host⟩ = (result, ⟨ended, added, state⟩) := ⟨_, _, _, _, rfl⟩
  refine ⟨result, ended, added, fun output other => ?_⟩
  have whole : (⟨scope, output, other⟩ : Progress σ) =
      Progress.behind output other ⟨scope, "", host⟩ := by
    unfold Progress.behind
    rw [String.append_empty]
  rw [whole, undisturbed output other ⟨scope, "", host⟩, first]
  rfl

/-- **Steps in a scope of their own add text, and nothing else** to a run that succeeds: without
them it writes the same before and after. -/
theorem run_around_nested (quiet : QuietTable table) {lead body rest : List Step}
    {begin after : Progress σ}
    (ran : (run table (lead ++ .nested body :: rest)).run begin = (.ok (), after)) :
    ∃ before added behind ended, (run table lead).run begin = (.ok (), before) ∧
      after.output = before.output ++ added ++ behind ∧
      (run table (lead ++ rest)).run begin = (.ok (), ended) ∧
      ended.output = before.output ++ behind := by
  rw [run_append] at ran
  obtain ⟨_, before, first, ran⟩ := run_bind_ok ran
  rw [run_cons, Step.run] at ran
  obtain ⟨_, middle, nested, ran⟩ := run_bind_ok ran
  -- the part leaves the scope, so what comes after it starts where it would without the part
  have scope : middle.scope = before.scope := by
    have opened : ((inside (run table body)).run before).2.scope = before.scope := rfl
    rw [nested] at opened
    exact opened
  obtain ⟨_, _, added, within⟩ :=
    (inside_undisturbed (run_undisturbed quiet body)).adds before.scope before.host
  obtain ⟨result, ended, behind, later⟩ :=
    (run_undisturbed quiet rest).adds before.scope before.host
  have written : middle.output = before.output ++ added := by
    rw [within before.output before.host] at nested
    exact (congrArg (fun ran => ran.2.output) nested).symm
  have last : (result, (⟨ended, middle.output ++ behind, middle.host⟩ : Progress σ)) =
      (.ok (), after) := by
    rw [← later middle.output middle.host, ← scope]
    exact ran
  cases last
  have whole : (run table (lead ++ rest)).run begin = (run table rest).run before := by
    rw [run_append, run_bind, first]
  exact ⟨before, added, behind, _, first, by rw [written],
    whole.trans (later before.output before.host), rfl⟩

end Inside

end Script

/-! ### The standard engine -/

namespace Assembly.Job

theorem standard_quiet {source : String} {evaluator : Evaluator σ}
    (compiled : Engine.standard.compile source = .ok evaluator) : evaluator.Quiet := by
  have whole : (Formula.Term.parse source).map Evaluator.ofTerm = .ok evaluator := compiled
  cases parsed : Formula.Term.parse source with
  | error fault =>
    rw [parsed] at whole
    cases whole
  | ok term =>
    rw [parsed] at whole
    cases whole
    exact ⟨term.eval, rfl⟩

variable {tools : Tools σ} (standard : tools.engine = Engine.standard)

include standard

theorem file_quiet (depth : Nat) (sources : List String) (context : Context) :
    Meets (file tools depth sources context)
      (fun gathered => QuietTable gathered.table) (fun _ => True) fun _ => True := by
  induction depth generalizing sources context with
  | zero => exact fun _ keeps => ⟨keeps, trivial⟩
  | succ depth ih =>
    have fetched : Meets (fetch tools context.file) (fun gathered => QuietTable gathered.table)
        (fun _ => True) fun _ => True :=
      fetch_meets (fun _ _ _ _ => trivial) (fun _ keeps => keeps) (fun _ _ => trivial)
        (fun _ _ _ keeps => keeps) (fun _ _ _ _ => trivial)
        fun _ _ _ _ => ⟨trivial, fun _ keeps => keeps⟩
    refine file_meets (fun _ => True) (fun _ => trivial) (fun _ => fetched)
      (fun _ _ _ request _ => ?_) fun _ _ _ _ => trivial
    cases request with
    | evaluator source =>
      refine expression_meets (fun _ _ => trivial) fun evaluator compiled gathered keeps => ?_
      intro other member
      rw [Array.toList_push, List.mem_append, List.mem_singleton] at member
      rcases member with before | rfl
      · exact keeps other before
      · rw [standard] at compiled
        exact standard_quiet compiled
    | template target => exact fun inner _ => ih _ inner

/-- **The evaluators of a compile with the standard engine are quiet.** -/
theorem compile_quiet {depth : Nat} {root : String} {template : Template σ}
    (compiled : (compile tools depth root).1 = .ok template) : QuietTable template.table := by
  have opening := file_quiet standard depth [] (Context.root (Address.resolve "" root))
  obtain ⟨keeps, outcome⟩ := compile_meets opening (by simp [start, QuietTable])
  rw [compiled] at outcome
  obtain ⟨steps, -, rfl⟩ := outcome
  exact keeps

end Assembly.Job

end Stencil
