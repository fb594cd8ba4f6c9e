/-
**What a job keeps of templates does not show in its result.**

A job keeps the nodes of every template that it has parsed. Beside it stands a job that keeps
nothing: it loads and parses a template each time that the template is included. Both go through the
same nodes in the same order, so they stay in step: their tables are the same all along, and what
the first one keeps is what the second one finds.

* `InStep`: **two parts of jobs stay in step** over a relation of what they have gathered, with rules
  for sequences;
* `nodes_inStep`: walks through the same nodes stay in step if what they ask for does;
* `fileAfresh`, `compileAfresh`: **the job that keeps nothing**;
* `compile_afresh`: **both compiles have the same result**, a template or an error.
-/

import Stencil.Proofs.Inclusion

namespace Stencil.Assembly.Job

open Markup (Node)
open Script (Step)

variable {σ α β : Type}

/-! ### Two jobs in step -/

/-- **Two parts of jobs stay in step**: from what is related they come to the same answer, and what
they have gathered then is related again. -/
def InStep (related : Gathered σ → Gathered σ → Prop) (first second : Job σ α) : Prop :=
  ∀ before other, related before other →
    (first.run before).1 = (second.run other).1 ∧
      related (first.run before).2 (second.run other).2

section Rules

variable {related : Gathered σ → Gathered σ → Prop}

theorem InStep.pure {value : α} :
    InStep related (Pure.pure value : Job σ α) (Pure.pure value) :=
  fun _ _ relates => ⟨rfl, relates⟩

theorem InStep.stop {reason : Stop} :
    InStep related (throw reason : Job σ α) (throw reason) :=
  fun _ _ relates => ⟨rfl, relates⟩

/-- **Sequences stay in step** if their parts do; the second ones for what the first ones can give. -/
theorem InStep.bind {first second : Job σ α} {next later : α → Job σ β}
    (leading : InStep related first second)
    (following : ∀ value before after, first.run before = (.ok value, after) →
      InStep related (next value) (later value)) :
    InStep related (first >>= next) (second >>= later) :=
  fun before other relates => run_bind_related (leading before other relates)
    fun value middle between ran => following value before middle ran middle between

/-- Being in step is a relation that sequences keep. -/
theorem InStep.sequential : Sequential (σ := σ) (InStep related) :=
  ⟨InStep.pure, InStep.stop, InStep.bind⟩

end Rules

/-! ### Walks in step -/

section Walks

variable {related : Gathered σ → Gathered σ → Prop} {tools others : Tools σ} {path : String}
  {visit follow : Context → Job σ (List Step)}

/-- **What two walks ask for stays in step**: the evaluators of expressions, and the steps of included
templates. -/
structure AskInStep (related : Gathered σ → Gathered σ → Prop) (tools others : Tools σ)
    (path : String) (visit follow : Context → Job σ (List Step)) : Prop where
  expression : ∀ source,
    InStep related (expression tools path source) (expression others path source)
  visit : ∀ inner, InStep related (visit inner) (follow inner)

/-- **Walks through the same nodes stay in step** if what they ask for does. -/
theorem nodes_inStep (asked : AskInStep related tools others path visit follow)
    (nodes : List Node) (context : Context) :
    InStep related (Job.nodes tools path visit nodes context)
      (Job.nodes others path follow nodes context) :=
  InStep.sequential.nodes nodes context asked.expression fun inner _ => asked.visit inner

end Walks

/-! ### The job that keeps nothing -/

/-- **The nodes of the template at `path`**, loaded and parsed every time. -/
def fetchAfresh (tools : Tools σ) (path : String) : Job σ (List Node) := do
  record (.load path)
  let source ← orFail (.load path) (tools.load path)
  record (.parse source)
  orFail (.parse path) (tools.parse source)

/-- **Compiles the template of a context** as `file` does, with all templates loaded and parsed every
time. -/
def fileAfresh (tools : Tools σ) : Nat → List String → Context → Job σ (List Step)
  | 0, _, _ => throw .tooDeep
  | depth + 1, sources, context => do
    if context.file ∈ sources then fail (.cycle context.file (sources ++ [context.file]))
    else
      let content ← fetchAfresh tools context.file
      let visit := fileAfresh tools depth (sources ++ [context.file])
      let (steps, _) ← nodes tools context.file visit content context
      pure steps

/-- **Compiles a root template** with all that it includes, and keeps no template. -/
def compileAfresh (tools : Tools σ) (depth : Nat) (root : String) :
    Except Stop (Template σ) × Gathered σ :=
  let (result, gathered) :=
    (fileAfresh tools depth [] (Context.root (Address.resolve "" root))).run start
  (result.map fun steps => Template.assemble steps gathered.table, gathered)

/-- **What a job with kept templates has in common** with a job that keeps none: it has the same
table, and it keeps the nodes that the other one would find. -/
def SameTable (tools : Tools σ) (keeping afresh : Gathered σ) : Prop :=
  KeepsTrees tools keeping ∧ keeping.table = afresh.table

section Afresh

variable {tools : Tools σ} {path : String}

theorem fetchAfresh_run (gathered : Gathered σ) :
    (fetchAfresh tools path).run gathered =
      match tools.load path with
      | .error error => (.error (.error (.load path error)),
          { gathered with events := gathered.events.push (.load path) })
      | .ok source => ((tools.parse source).mapError fun error => .error (.parse path error),
          { gathered with events := (gathered.events.push (.load path)).push (.parse source) }) := by
  unfold fetchAfresh
  cases tools.load path with
  | error error => rfl
  | ok source =>
    show (orFail (.parse path) (tools.parse source) : Job σ (List Node)).run _ =
      ((tools.parse source).mapError _, _)
    cases tools.parse source with
    | error error => rfl
    | ok nodes => rfl

theorem get_run (gathered : Gathered σ) :
    (get : Job σ (Gathered σ)).run gathered = (.ok gathered, gathered) :=
  rfl

/-- A template that is kept is not fetched again. -/
theorem fetch_known {gathered : Gathered σ} {nodes : List Node}
    (known : gathered.parsed.find? path = some nodes) :
    (fetch tools path).run gathered = (.ok nodes, gathered) := by
  unfold fetch
  rw [run_bind, get_run]
  dsimp only
  rw [known]
  rfl

/-- **A template that is not kept yet is fetched afresh**, and then kept. -/
theorem fetch_new {gathered : Gathered σ} (new : gathered.parsed.find? path = none) :
    (fetch tools path).run gathered = (do
      let nodes ← fetchAfresh tools path
      keep path nodes
      pure nodes : Job σ (List Node)).run gathered := by
  unfold fetch
  rw [run_bind, get_run]
  dsimp only
  rw [new]
  simp only [fetchAfresh, bind_assoc]

/-- **What a job has after fetching a template with a tree**: it keeps the tree, or had it before. -/
theorem fetch_loaded {gathered : Gathered σ} {source : String} {nodes : List Node}
    (loaded : tools.load path = .ok source) (parsed : tools.parse source = .ok nodes) :
    (fetch tools path).run gathered =
      match gathered.parsed.find? path with
      | some known => (.ok known, gathered)
      | none => (.ok nodes, ⟨(gathered.events.push (.load path)).push (.parse source),
          gathered.parsed.insert path nodes, gathered.table⟩) := by
  cases known : gathered.parsed.find? path with
  | some nodes => exact fetch_known known
  | none =>
    rw [fetch_new known, run_bind, fetchAfresh_run, loaded]
    dsimp only
    rw [parsed]
    rfl

/-- **Fetching stays in step with fetching afresh**: nodes that are kept would be found again. -/
theorem fetch_inStep : InStep (SameTable tools) (fetch tools path) (fetchAfresh tools path) := by
  rintro before other ⟨keeps, same⟩
  cases known : before.parsed.find? path with
  | some nodes =>
    obtain ⟨source, loaded, parsed⟩ := Tools.tree?_eq_some_iff.mp (keeps path nodes known)
    rw [fetch_known known, fetchAfresh_run, loaded]
    dsimp only
    rw [parsed]
    exact ⟨rfl, keeps, same⟩
  | none =>
    rw [fetch_new known, run_bind, fetchAfresh_run, fetchAfresh_run]
    cases loaded : tools.load path with
    | error error => exact ⟨rfl, keeps, same⟩
    | ok source =>
      dsimp only
      cases parsed : tools.parse source with
      | error error => exact ⟨rfl, keeps, same⟩
      | ok nodes =>
        exact ⟨rfl, KeepsTrees.insert keeps (Tools.tree?_of_parse loaded parsed), same⟩

theorem expression_inStep (source : String) :
    InStep (SameTable tools) (expression tools path source) (expression tools path source) := by
  rintro before other ⟨keeps, same⟩
  unfold expression
  cases tools.engine.compile source with
  | error fault => exact ⟨rfl, keeps, same⟩
  | ok evaluator =>
    refine ⟨?_, keeps, congrArg (·.push evaluator) same⟩
    show Except.ok before.table.size = Except.ok other.table.size
    rw [same]

/-- **Opening a template stays in step with opening it afresh**, at every depth. -/
theorem file_inStep (depth : Nat) (sources : List String) (context : Context) :
    InStep (SameTable tools) (file tools depth sources context)
      (fileAfresh tools depth sources context) := by
  induction depth generalizing sources context with
  | zero => exact InStep.stop
  | succ depth ih =>
    rw [file, fileAfresh]
    by_cases again : context.file ∈ sources
    · rw [if_pos again, if_pos again]
      exact InStep.stop
    · rw [if_neg again, if_neg again]
      refine fetch_inStep.bind fun content _ _ _ => ?_
      have asked : AskInStep (SameTable tools) tools tools context.file
          (file tools depth (sources ++ [context.file]))
          (fileAfresh tools depth (sources ++ [context.file])) :=
        ⟨expression_inStep, ih _⟩
      exact (nodes_inStep asked content context).bind fun _ _ _ _ => InStep.pure

end Afresh

/-- **What a job keeps of templates does not show in its result.** Compiling a root with templates
that are loaded and parsed once gives the same template, with the same steps and the same table, or
the same error as compiling it with templates that are loaded and parsed at every inclusion. -/
theorem compile_afresh (tools : Tools σ) (depth : Nat) (root : String) :
    (compile tools depth root).1 = (compileAfresh tools depth root).1 := by
  have begins : SameTable tools start start := ⟨start_keepsTrees, rfl⟩
  obtain ⟨answer, -, table⟩ :=
    file_inStep depth [] (Context.root (Address.resolve "" root)) start start begins
  show ((file tools depth [] _).run start).1.map
      (fun steps => Template.assemble steps ((file tools depth [] _).run start).2.table) =
    ((fileAfresh tools depth [] _).run start).1.map
      fun steps => Template.assemble steps ((fileAfresh tools depth [] _).run start).2.table
  rw [answer, table]

end Stencil.Assembly.Job
