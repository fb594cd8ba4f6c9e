/-
**A compile depends only on the templates that it loads.**

Beside a job stands another one with the same parser and engine and with a loader of its own. As long
as both loaders answer alike for what the first job loads, the second one does the same. Which
addresses these are is only known when the first job has ended; but what a job has loaded it does not
forget, so what is alike at the end was alike at each load.

* `Relies`: **a part of a job does what another does** if their loaders answer alike for what the
  other has loaded at its end, with rules for sequences;
* `file_relies`: so does an included template, also if more templates may be open;
* `compile_loaded_only`: **a compile with another loader that answers alike for what was loaded is the
  same compile**.
-/

import Stencil.Proofs.LoadedOnce
import Stencil.Store.Memory

namespace Stencil.Assembly.Job

open Markup (Node)
open Script (Step)

variable {σ α β : Type}

/-- **The second part of a job does what the first one does**, if certain addresses are `alike` and
the first one has loaded no others, and if it has not stopped for a reason that does not count. What
was loaded before stays loaded. -/
def Relies (alike : String → Prop) (counts : Stop → Prop) (first second : Job σ α) : Prop :=
  ∀ gathered, gathered.loads <+: (first.run gathered).2.loads ∧
    ((∀ path ∈ (first.run gathered).2.loads, alike path) →
      (∀ reason, (first.run gathered).1 = .error reason → counts reason) →
      second.run gathered = first.run gathered)

section Rules

variable {alike : String → Prop} {counts : Stop → Prop}

theorem Relies.pure {value : α} :
    Relies alike counts (Pure.pure value : Job σ α) (Pure.pure value) :=
  fun _ => ⟨List.prefix_rfl, fun _ _ => rfl⟩

theorem Relies.stop {reason : Stop} :
    Relies alike counts (throw reason : Job σ α) (throw reason) :=
  fun _ => ⟨List.prefix_rfl, fun _ _ => rfl⟩

/-- Behind a reason that does not count, anything may stand. -/
theorem Relies.uncounted {reason : Stop} {second : Job σ α} (ignored : ¬ counts reason) :
    Relies alike counts (throw reason : Job σ α) second :=
  fun _ => ⟨List.prefix_rfl, fun _ counted => absurd (counted reason rfl) ignored⟩

/-- **Sequences rely on each other** if their parts do: what is alike at the end was alike before. -/
theorem Relies.bind {first second : Job σ α} {next later : α → Job σ β}
    (leading : Relies alike counts first second)
    (following : ∀ value before after, first.run before = (.ok value, after) →
      Relies alike counts (next value) (later value)) :
    Relies alike counts (first >>= next) (second >>= later) := by
  intro gathered
  obtain ⟨grown, same⟩ := leading gathered
  rw [run_bind, run_bind]
  cases ran : first.run gathered with
  | mk answer middle =>
    rw [ran] at grown same
    cases answer with
    | error reason =>
      refine ⟨grown, fun known counted => ?_⟩
      rw [same known fun other isReason => counted other (by cases isReason; rfl)]
    | ok value =>
      obtain ⟨grownLater, sameLater⟩ := following value gathered middle ran middle
      refine ⟨grown.trans grownLater, fun known counted => ?_⟩
      have early : second.run gathered = (.ok value, middle) :=
        same (fun path member => known path (grownLater.subset member)) fun _ impossible => by
          cases impossible
      rw [early]
      exact sameLater known counted

/-- Relying on each other is a relation that sequences keep. -/
theorem Relies.sequential : Sequential (σ := σ) (Relies alike counts) :=
  ⟨Relies.pure, Relies.stop, Relies.bind⟩

end Rules

section Asking

variable {tools : Tools σ} {load : String → Except Store.LoadError String} {counts : Stop → Prop}
  {path : String}

/-- What was loaded stays loaded while a template is fetched. -/
theorem fetch_loads_grow (gathered : Gathered σ) :
    gathered.loads <+: ((fetch tools path).run gathered).2.loads := by
  have grown : Meets (fetch tools path) (fun later => gathered.loads <+: later.loads)
      (fun _ => True) fun _ => True := by
    refine fetch_meets (fun _ _ _ _ => trivial) (fun later loads => ?_) (fun _ _ => trivial)
      (fun _ _ later loads => ?_) (fun _ _ _ _ => trivial) fun _ _ _ _ =>
        ⟨trivial, fun _ loads => loads⟩
    · exact loads_push later _ ▸ loads.trans (List.prefix_append _ _)
    · exact loads_push later _ ▸ loads.trans (List.prefix_append _ _)
  exact (grown gathered List.prefix_rfl).1

/-- A template that was not kept yet is loaded when it is fetched. -/
theorem loaded_of_fetch_new {gathered : Gathered σ} (new : gathered.parsed.find? path = none) :
    path ∈ ((fetch tools path).run gathered).2.loads := by
  rw [fetch_new new, run_bind, fetchAfresh_run]
  cases tools.load path with
  | error error => simp [Gathered.loads, Event.loaded?]
  | ok source =>
    have loads : path ∈ Gathered.loads { gathered with
        events := (gathered.events.push (.load path)).push (.parse source) } := by
      simp [Gathered.loads, Event.loaded?]
    dsimp only
    cases tools.parse source with
    | error error => exact loads
    | ok nodes => exact loads

/-- **Fetching a template** relies on what is loaded for it, if it was not kept before. -/
theorem fetch_relies :
    Relies (fun path => load path = tools.load path) counts (fetch tools path)
      (fetch { tools with load } path) := by
  intro gathered
  refine ⟨fetch_loads_grow gathered, fun alike _ => ?_⟩
  cases known : gathered.parsed.find? path with
  | some nodes => rw [fetch_known known, fetch_known known]
  | none =>
    have same : load path = tools.load path := alike path (loaded_of_fetch_new known)
    have afresh : fetchAfresh { tools with load } path = fetchAfresh tools path := by
      simp only [fetchAfresh, same]
    rw [fetch_new known, fetch_new known, afresh]

theorem expression_relies (source : String) :
    Relies (fun path => load path = tools.load path) counts (expression tools path source)
      (expression { tools with load } path source) := by
  intro gathered
  refine ⟨?_, fun _ _ => rfl⟩
  unfold expression
  cases tools.engine.compile source with
  | error fault => exact List.prefix_rfl
  | ok evaluator => exact List.prefix_rfl

end Asking

/-- **Opening a template relies on what is loaded meanwhile**, also if more templates may be open in
the other job; but where the first one stops as they are too many, that must not count then. -/
theorem file_relies (tools : Tools σ) (load : String → Except Store.LoadError String)
    (counts : Stop → Prop) {depth more : Nat} (room : depth ≤ more)
    (enough : depth = more ∨ ¬ counts .tooDeep) (sources : List String) (context : Context) :
    Relies (fun path => load path = tools.load path) counts (file tools depth sources context)
      (file { tools with load } more sources context) := by
  have everywhere : ∀ base nodes target,
      Request.template target ∈ Request.ofNodes base nodes → True := fun _ _ _ _ => trivial
  exact Relies.sequential.file everywhere (fun _ _ => fetch_relies)
    (fun path source => expression_relies source) room
    (enough.imp_right fun ignored _ => Relies.uncounted ignored) sources context trivial

/-- **A compile depends only on the templates that it loads.** If another loader answers like the first
one for each address that the compile has loaded, then the compile with the other loader is the same
to the end: it asks its tools for the same, in the same order, and has the same result, with the same
steps and the same table, or the same error. How many templates may be open plays no part, unless
the compile was stopped because they were too many. -/
theorem compile_loaded_only (tools : Tools σ) (load : String → Except Store.LoadError String)
    (depth : Nat) (root : String)
    (alike : ∀ path ∈ (compile tools depth root).2.loads, load path = tools.load path) :
    compile { tools with load } depth root = compile tools depth root ∧
      ((compile tools depth root).1 ≠ .error .tooDeep → ∀ more, depth ≤ more →
        compile { tools with load } more root = compile tools depth root) := by
  have known : ∀ path ∈ ((file tools depth []
      (Context.root (Address.resolve "" root))).run start).2.loads, load path = tools.load path :=
    alike
  constructor
  · have relies := (file_relies tools load (fun _ => True) (Nat.le_refl depth) (Or.inl rfl) []
      (Context.root (Address.resolve "" root)) start).2 known fun _ _ => trivial
    rw [compile_run, compile_run, relies]
  · intro fits more room
    have relies := (file_relies tools load (· ≠ .tooDeep) room (Or.inr fun counts => counts rfl) []
      (Context.root (Address.resolve "" root)) start).2 known fun reason stopped isTooDeep => by
        refine fits ?_
        rw [compile_run, stopped, isTooDeep]
        rfl
    rw [compile_run, compile_run, relies]

/-- A page that includes a part, with a third template beside them that is not included. -/
def pairTools : Tools Unit where
  load := (((Store.Memory.empty.put "page" "page").put "part" "part").put "other" "first").load
  parse source := .ok (if source = "page" then [.inclusion "part" []] else [.text source])
  engine := Engine.standard

/-- The third template may have any other source, or none. -/
theorem pairTools_alike :
    (∀ path ∈ (compile pairTools 2 "page").2.loads,
      ((Store.Memory.empty.put "page" "page").put "part" "part").load path = pairTools.load path) ∧
      (compile pairTools 2 "page").1 ≠ .error .tooDeep ∧
      ((Store.Memory.empty.put "page" "page").put "part" "part").load "other" ≠
        pairTools.load "other" ∧
      compile { pairTools with
          load := ((Store.Memory.empty.put "page" "page").put "part" "part").load } 9 "page" =
        compile pairTools 2 "page" := by
  have loads : (compile pairTools 2 "page").2.loads = ["page", "part"] := by decide +kernel
  have alike : ∀ path ∈ (compile pairTools 2 "page").2.loads,
      ((Store.Memory.empty.put "page" "page").put "part" "part").load path =
        pairTools.load path := by
    rw [loads]
    decide
  have fits : (compile pairTools 2 "page").1 ≠ .error .tooDeep := by
    rintro ⟨⟩
  exact ⟨alike, fits, by decide, (compile_loaded_only pairTools _ 2 "page" alike).2 fits 9 (by decide)⟩

end Stencil.Assembly.Job
