/-
**A compile loads and parses every template once.**

A job that has not stopped keeps exactly the templates that it has loaded. So it loads a template
only where it was not loaded before, and what it has looked up so far is what it has loaded. Where a
template cannot be loaded or parsed, the job stops right behind that load.

* `Gathered.loads`, `Tools.asks`: what was loaded, and what is asked of the tools for one template;
* `LoadsOnce`, `Caches`: **what holds of a job at any time**, and as long as it has not stopped;
* `Follows`: a part of a job follows its plan, loads what it has looked up, and nothing twice;
* `nodes_follow`, `file_follows`: walks and included templates do;
* `compile_loads_once`: **what a compile loads**, once each.
-/

import Mathlib.Data.List.Nodup
import Stencil.Proofs.Lookups
import Stencil.Proofs.Uncached

namespace Stencil.Assembly

open Markup (Definition Node)
open Script (Step)

variable {σ α β : Type}

/-! ### What was loaded -/

/-- The address that an event loads, if it is a load. -/
def Event.loaded? : Event → Option String
  | .load path => some path
  | .parse _ => none

/-- **The addresses that were loaded**, in order. -/
def Gathered.loads (gathered : Gathered σ) : List String :=
  gathered.events.toList.filterMap Event.loaded?

/-- The loads after an event. -/
theorem loads_push (gathered : Gathered σ) (event : Event) :
    Gathered.loads { gathered with events := gathered.events.push event } =
      gathered.loads ++ event.loaded?.toList := by
  cases event <;> simp [Gathered.loads, Event.loaded?]

/-- **What is asked of the tools for a template**: a load, and a parse behind it if it succeeds. -/
def Tools.asks (tools : Tools σ) (path : String) : List Event :=
  match tools.load path with
  | .error _ => [.load path]
  | .ok source => [.load path, .parse source]

theorem Tools.loaded_asks (tools : Tools σ) (path : String) :
    (tools.asks path).filterMap Event.loaded? = [path] := by
  unfold asks
  cases tools.load path with
  | error error => rfl
  | ok source => rfl

/-- **No template was loaded twice**, and what was asked of the tools are the loads, each with a parse
right behind it if it succeeded. -/
structure LoadsOnce (tools : Tools σ) (gathered : Gathered σ) : Prop where
  distinct : gathered.loads.Nodup
  asked : gathered.events.toList = gathered.loads.flatMap tools.asks

/-- **What was loaded is kept**: this holds as long as a job has not stopped. -/
structure Caches (tools : Tools σ) (gathered : Gathered σ) : Prop
    extends LoadsOnce tools gathered where
  keeps : KeepsTrees tools gathered
  known : ∀ path, path ∈ gathered.loads ↔ ∃ nodes, gathered.parsed.find? path = some nodes

section Loads

variable {tools : Tools σ} {path : String} {gathered after : Gathered σ}

theorem start_caches : Caches tools (Job.start : Gathered σ) where
  distinct := List.nodup_nil
  asked := rfl
  keeps := Job.start_keepsTrees
  known path := by simp [Job.start, Gathered.loads]

/-- The loads after a template was asked for. -/
theorem loads_of_asks
    (events : after.events.toList = gathered.events.toList ++ tools.asks path) :
    after.loads = gathered.loads ++ [path] := by
  unfold Gathered.loads
  rw [events, List.filterMap_append, tools.loaded_asks]

/-- **A template that was not loaded yet** may be asked for. -/
theorem LoadsOnce.ask (once : LoadsOnce tools gathered) (new : path ∉ gathered.loads)
    (events : after.events.toList = gathered.events.toList ++ tools.asks path) :
    LoadsOnce tools after := by
  refine ⟨?_, ?_⟩
  · rw [loads_of_asks events]
    exact List.concat_eq_append ▸ once.distinct.concat new
  · rw [loads_of_asks events, events, once.asked, List.flatMap_append, List.flatMap_singleton]

theorem Caches.not_loaded (caches : Caches tools gathered)
    (unknown : gathered.parsed.find? path = none) : path ∉ gathered.loads := by
  rw [caches.known, unknown]
  rintro ⟨nodes, ⟨⟩⟩

/-- **A template that was not loaded yet** may be asked for, and kept if it has nodes. -/
theorem Caches.keep {nodes : List Node} (caches : Caches tools gathered)
    (new : path ∉ gathered.loads) (tree : tools.tree? path = some nodes)
    (events : after.events.toList = gathered.events.toList ++ tools.asks path)
    (kept : after.parsed = gathered.parsed.insert path nodes) : Caches tools after := by
  have keeps : KeepsTrees tools after := by
    intro other found isKept
    rw [kept] at isKept
    exact Job.KeepsTrees.insert caches.keeps tree other found isKept
  refine ⟨caches.toLoadsOnce.ask new events, keeps, fun other => ?_⟩
  rw [loads_of_asks events, List.mem_append, List.mem_singleton, caches.known, kept,
    Assoc.find?_insert]
  by_cases same : path = other
  · simp [same]
  · simp [same, Ne.symm same]

end Loads

/-! ### Parts of a job that follow a plan -/

namespace Job

/-- **What holds behind a part of a job that has followed a plan to its end**: what was looked up is
what was loaded besides. -/
structure Followed (tools : Tools σ) (planned : List Lookup) (before after : Gathered σ) : Prop where
  caches : Caches tools after
  loads : ∀ path, path ∈ after.loads ↔
    path ∈ before.loads ∨ ∃ lookup ∈ planned, lookup.target = path

/-- **A part of a job follows a plan**: it looks up what is planned, all of it if the part gives a
value. Then it has loaded what it has looked up; and nothing was loaded twice, also if it stops. -/
def Follows (tools : Tools σ) (part : Job σ α) (trace : Gathered σ → List Lookup)
    (planned : List Lookup) (result : α → Prop) : Prop :=
  ∀ gathered, Caches tools gathered → trace gathered <+: planned ∧
    match part.run gathered with
    | (.ok value, after) =>
      result value ∧ trace gathered = planned ∧ Followed tools planned gathered after
    | (.error _, after) => LoadsOnce tools after

section Rules

variable {tools : Tools σ} {trace : Gathered σ → List Lookup} {planned : List Lookup}
  {result : α → Prop}

theorem Followed.refl {gathered : Gathered σ} (caches : Caches tools gathered) :
    Followed tools [] gathered gathered :=
  ⟨caches, by simp⟩

theorem Followed.trans {more : List Lookup} {before middle after : Gathered σ}
    (first : Followed tools planned before middle) (second : Followed tools more middle after) :
    Followed tools (planned ++ more) before after := by
  refine ⟨second.caches, fun path => ?_⟩
  rw [second.loads, first.loads, or_assoc]
  simp only [List.mem_append, or_and_right, exists_or]

theorem Follows.pure {value : α} (holds : result value) :
    Follows tools (Pure.pure value : Job σ α) (fun _ => []) [] result :=
  fun _ caches => ⟨List.prefix_rfl, holds, rfl, Followed.refl caches⟩

/-- A part that stops at once has looked up a part of any plan. -/
theorem Follows.stop {reason : Stop} (begins : ∀ gathered, trace gathered <+: planned) :
    Follows tools (throw reason : Job σ α) trace planned result :=
  fun gathered caches => ⟨begins gathered, caches.toLoadsOnce⟩

/-- **A sequence follows the plans of its parts**, one behind the other. -/
theorem Follows.bind {part : Job σ α} {next : α → Job σ β} {last : β → Prop}
    {later : α → Gathered σ → List Lookup} {more : List Lookup}
    (first : Follows tools part trace planned result)
    (second : ∀ value, result value → Follows tools (next value) (later value) more last) :
    Follows tools (part >>= next) (fun gathered => trace gathered ++ behind part later gathered)
      (planned ++ more) last := by
  intro gathered caches
  obtain ⟨begins, outcome⟩ := first gathered caches
  rw [run_bind]
  cases ran : part.run gathered with
  | mk answer middle =>
    rw [ran] at outcome
    cases answer with
    | error reason =>
      refine ⟨?_, outcome⟩
      dsimp only
      rw [behind_of_error ran, List.append_nil]
      exact begins.trans (List.prefix_append planned more)
    | ok value =>
      obtain ⟨holds, whole, followed⟩ := outcome
      obtain ⟨continues, ending⟩ := second value holds middle followed.caches
      dsimp only
      rw [behind_of_ok ran, whole]
      refine ⟨(List.prefix_append_right_inj planned).mpr continues, ?_⟩
      cases finish : (next value).run middle with
      | mk answer after =>
        rw [finish] at ending
        cases answer with
        | error reason => exact ending
        | ok final =>
          obtain ⟨holdsFinal, all, followedFinal⟩ := ending
          exact ⟨holdsFinal, congrArg (planned ++ ·) all, followed.trans followedFinal⟩

theorem Follows.weaken {part : Job σ α} {weaker : α → Prop}
    (follows : Follows tools part trace planned result)
    (implies : ∀ value, result value → weaker value) :
    Follows tools part trace planned weaker := by
  intro gathered caches
  obtain ⟨begins, outcome⟩ := follows gathered caches
  refine ⟨begins, ?_⟩
  cases ran : part.run gathered with
  | mk answer after =>
    rw [ran] at outcome
    cases answer with
    | error reason => exact outcome
    | ok value => exact ⟨implies value outcome.1, outcome.2⟩

/-- Nothing is looked up when a value is put together. -/
theorem Follows.map {part : Job σ α} {put : α → β} {last : β → Prop}
    (first : Follows tools part trace planned result)
    (holds : ∀ value, result value → last (put value)) :
    Follows tools (part >>= fun value => Pure.pure (put value)) trace planned last := by
  have whole := first.bind fun value fine =>
    (Follows.pure (holds value fine) : Follows tools _ _ _ last)
  have nothing : ∀ gathered, behind part (fun _ _ => []) gathered = [] := by
    intro gathered
    unfold behind
    split <;> rfl
  simpa only [nothing, List.append_nil] using whole

end Rules

/-! ### Asking the tools -/

section Asking

variable {tools : Tools σ} {path : String}

/-- **Fetching a template** is one look-up: afterwards the template was loaded, and it is kept. -/
theorem fetch_follows {lookup : Lookup} (here : lookup.target = path) :
    Follows tools (fetch tools path) (fun _ => [lookup]) [lookup]
      fun nodes => tools.tree? path = some nodes := by
  intro gathered caches
  refine ⟨List.prefix_rfl, ?_⟩
  cases known : gathered.parsed.find? path with
  | some nodes =>
    rw [fetch_known known]
    refine ⟨caches.keeps path nodes known, rfl, caches, fun other => ?_⟩
    have loaded := (caches.known path).mpr ⟨nodes, known⟩
    simp only [List.mem_singleton, exists_eq_left, here]
    exact ⟨Or.inl, fun either => either.elim id fun same => same ▸ loaded⟩
  | none =>
    have new := caches.not_loaded known
    rw [fetch_new known, run_bind, fetchAfresh_run]
    cases loaded : tools.load path with
    | error error =>
      refine caches.toLoadsOnce.ask new ?_
      simp [Tools.asks, loaded]
    | ok source =>
      have asks : tools.asks path = [.load path, .parse source] := by
        simp only [Tools.asks, loaded]
      dsimp only
      cases parsed : tools.parse source with
      | error error =>
        refine caches.toLoadsOnce.ask new ?_
        simp [asks]
      | ok nodes =>
        let after : Gathered σ :=
          ⟨(gathered.events.push (.load path)).push (.parse source),
            gathered.parsed.insert path nodes, gathered.table⟩
        have tree := Tools.tree?_of_parse loaded parsed
        have events : after.events.toList = gathered.events.toList ++ tools.asks path := by
          simp [after, asks]
        refine ⟨tree, rfl, caches.keep new tree events rfl, fun other => ?_⟩
        rw [loads_of_asks events]
        simp [here, eq_comm]

/-- Compiling an expression looks nothing up. -/
theorem expression_follows (source : String) :
    Follows tools (expression tools path source) (fun _ => []) [] fun _ => True := by
  intro gathered caches
  refine ⟨List.prefix_rfl, ?_⟩
  unfold expression
  cases tools.engine.compile source with
  | error fault => exact caches.toLoadsOnce
  | ok evaluator =>
    have same : Caches tools { gathered with table := gathered.table.push evaluator } :=
      ⟨⟨caches.distinct, caches.asked⟩, caches.keeps, caches.known⟩
    refine ⟨trivial, rfl, same, fun other => ?_⟩
    simp [Gathered.loads]

end Asking

/-! ### Walks and templates -/

section Walks

variable {tools : Tools σ} {path : String} {visit : Context → Job σ (List Step)}
  {within : Context → Gathered σ → List Lookup} {further : String → List Lookup}

/-- What compiles the included templates follows their plans, each behind the look-up that leads to
it. -/
def VisitsFollow (tools : Tools σ) (visit : Context → Job σ (List Step))
    (within : Context → Gathered σ → List Lookup) (further : String → List Lookup) : Prop :=
  ∀ (inner : Context) (lookup : Lookup), lookup.target = inner.file →
    Follows tools (visit inner) (fun gathered => lookup :: within inner gathered)
      (lookup :: further inner.file) fun _ => True

theorem planSites_append (first second : List Site) :
    planSites path further (first ++ second) =
      planSites path further first ++ planSites path further second :=
  List.flatMap_append

mutual

theorem node_follows (visits : VisitsFollow tools visit within further) (around : List String)
    (node : Node) (context : Context) (starts : context.file = around.foldl Address.resolve path) :
    Follows tools (Job.node tools path visit node context)
      (nodeLookups tools path visit within around node context)
      (planSites path further (Site.ofNode around node))
      fun result => result.2.file = context.file := by
  cases node with
  | text content =>
    rw [Job.node]
    exact Follows.pure rfl
  | definition definition =>
    rw [Job.node]
    exact (define_follows visits around definition context starts).map fun _ same => same
  | block name body =>
    rw [Job.node]
    exact (nodes_follow visits around body context starts).map fun _ same => same
  | inclusion file overrides =>
    rw [Job.node, Site.ofNode, planSites_append]
    have given : Address.resolve context.file file =
        (around ++ [file]).foldl Address.resolve path := by
      rw [List.foldl_append, ← starts]
      rfl
    refine (defineAll_follows visits (around ++ [file]) overrides _ given).bind fun inner same => ?_
    -- the definitions leave the address as it is, so the template is looked up at its target
    have target : inner.file = Site.target ⟨around, file⟩ path := by
      rw [same, Site.target, Site.base, ← starts]
      rfl
    have visited := visits inner ⟨path, ⟨around, file⟩, inner.file⟩ rfl
    rw [target] at visited
    have whole : planSites path further [⟨around, file⟩] =
        Site.due ⟨around, file⟩ path :: further (Site.target ⟨around, file⟩ path) :=
      List.append_nil _
    rw [whole, target]
    exact visited.map fun _ _ => rfl
  | expression source delivery =>
    rw [Job.node]
    exact (expression_follows source).map fun _ _ => rfl
  | «variable» name source =>
    rw [Job.node]
    exact (expression_follows source).map fun _ _ => rfl

/-- **A walk through nodes follows the plan of the includes in them.** -/
theorem nodes_follow (visits : VisitsFollow tools visit within further) (around : List String)
    (nodes : List Node) (context : Context)
    (starts : context.file = around.foldl Address.resolve path) :
    Follows tools (Job.nodes tools path visit nodes context)
      (nodesLookups tools path visit within around nodes context)
      (planSites path further (Site.ofNodes around nodes))
      fun result => result.2.file = context.file := by
  cases nodes with
  | nil =>
    rw [Job.nodes]
    exact Follows.pure rfl
  | cons first rest =>
    rw [Job.nodes, Site.ofNodes, planSites_append]
    refine (node_follows visits around first context starts).bind fun before same => ?_
    exact (nodes_follow visits around rest before.2 (same.trans starts)).map
      fun _ sameAgain => sameAgain.trans same

theorem define_follows (visits : VisitsFollow tools visit within further) (around : List String)
    (definition : Definition) (context : Context)
    (starts : context.file = around.foldl Address.resolve path) :
    Follows tools (define tools path visit definition context)
      (definitionLookups tools path visit within around definition context)
      (planSites path further (Site.ofDefinition around definition))
      fun inner => inner.file = context.file := by
  cases definition with
  | mk name mode body =>
    rw [define]
    exact (nodes_follow visits around body context starts).map fun _ same => same

theorem defineAll_follows (visits : VisitsFollow tools visit within further)
    (around : List String) (definitions : List Definition) (context : Context)
    (starts : context.file = around.foldl Address.resolve path) :
    Follows tools (defineAll tools path visit definitions context)
      (definitionsLookups tools path visit within around definitions context)
      (planSites path further (Site.ofDefinitions around definitions))
      fun inner => inner.file = context.file := by
  cases definitions with
  | nil =>
    rw [defineAll]
    exact Follows.pure rfl
  | cons first rest =>
    rw [defineAll, Site.ofDefinitions, planSites_append]
    refine (define_follows visits around first context starts).bind fun inner same => ?_
    exact (defineAll_follows visits around rest inner (same.trans starts)).weaken
      fun _ sameAgain => sameAgain.trans same

end

/-- **A template follows its plan**, behind the look-up that leads to it. -/
theorem file_follows (tools : Tools σ) (depth : Nat) (sources : List String) :
    VisitsFollow tools (file tools depth sources) (fileLookups tools depth sources)
      (plan tools depth) := by
  induction depth generalizing sources with
  | zero => exact fun _ _ _ => Follows.stop fun _ => List.prefix_rfl
  | succ depth ih =>
    intro context lookup here
    have visits := ih (sources ++ [context.file])
    unfold fileLookups
    rw [file]
    by_cases again : context.file ∈ sources
    · simp only [if_pos again]
      exact Follows.stop fun _ => List.prefix_append [lookup] _
    · simp only [if_neg again]
      refine (fetch_follows here).bind fun content tree => ?_
      rw [tree]
      exact (nodes_follow visits [] content context rfl).map fun _ _ => trivial

end Walks

/-- **A compile follows the plan of its root**, to the end if it succeeds, and loads nothing twice. If
it succeeds, it has loaded its root and all that it has looked up. -/
theorem compile_follows (tools : Tools σ) (depth : Nat) (root : String) :
    LoadsOnce tools (compile tools depth root).2 ∧
      lookups tools depth root <+: plan tools depth (Address.resolve "" root) ∧
      ∀ template, (compile tools depth root).1 = .ok template →
        lookups tools depth root = plan tools depth (Address.resolve "" root) ∧
        ∀ path, path ∈ (compile tools depth root).2.loads ↔ path = Address.resolve "" root ∨
          ∃ lookup ∈ lookups tools depth root, lookup.target = path := by
  -- the root is looked up as if it was included from outside
  let outside : Lookup := ⟨"", ⟨[], root⟩, Address.resolve "" root⟩
  obtain ⟨begins, outcome⟩ := file_follows tools depth [] (Context.root (Address.resolve "" root))
    outside rfl start start_caches
  have prefixed : lookups tools depth root <+: plan tools depth (Address.resolve "" root) :=
    (List.prefix_cons_inj outside).mp begins
  unfold compile
  cases ran : (file tools depth [] (Context.root (Address.resolve "" root))).run start with
  | mk answer after =>
    rw [ran] at outcome
    cases answer with
    | error reason => exact ⟨outcome, prefixed, fun template failed => by cases failed⟩
    | ok steps =>
      obtain ⟨-, whole, followed⟩ := outcome
      have same : lookups tools depth root = plan tools depth (Address.resolve "" root) :=
        List.tail_eq_of_cons_eq whole
      refine ⟨followed.caches.toLoadsOnce, prefixed, fun template _ => ⟨same, fun path => ?_⟩⟩
      rw [followed.loads, same]
      have nothing : path ∉ (start : Gathered σ).loads := List.not_mem_nil
      simp only [nothing, false_or, List.mem_cons, exists_eq_or_imp, eq_comm (b := path)]
      rfl

/-- **A compile loads and parses every template once.** However it ends, no address was loaded twice,
and the parser was called right behind each load that succeeded, and else never. If it succeeds, the
addresses that were loaded are that of the root and those at which templates were looked up for the
includes. -/
theorem compile_loads_once (tools : Tools σ) (depth : Nat) (root : String) :
    (compile tools depth root).2.loads.Nodup ∧
      (compile tools depth root).2.events.toList =
        (compile tools depth root).2.loads.flatMap tools.asks ∧
      ∀ template, (compile tools depth root).1 = .ok template → ∀ path,
        path ∈ (compile tools depth root).2.loads ↔ path = Address.resolve "" root ∨
          ∃ lookup ∈ lookups tools depth root, lookup.target = path := by
  obtain ⟨once, -, succeeds⟩ := compile_follows tools depth root
  exact ⟨once.distinct, once.asked, fun template compiled => (succeeds template compiled).2⟩

/-- A page that includes one part in three ways, and the part includes nothing. -/
def partTools : Tools Unit where
  load path := .ok path
  parse source :=
    if source = "pages/index.html" then
      .ok [.inclusion "part.html" [], .inclusion "./a/../part.html" [],
        .inclusion "/pages/part.html" []]
    else .ok [.text source]
  engine := Engine.standard

/-- The page and its part are loaded, and each once. -/
theorem partTools_loads :
    (compile partTools 2 "pages/index.html").2.loads.Nodup ∧
      (∃ template, (compile partTools 2 "pages/index.html").1 = .ok template) ∧
      ∃ lookup ∈ lookups partTools 2 "pages/index.html", lookup.target = "pages/part.html" := by
  obtain ⟨distinct, -, loaded⟩ := compile_loads_once partTools 2 "pages/index.html"
  have part : "pages/part.html" ∈ (compile partTools 2 "pages/index.html").2.loads := by
    decide +kernel
  refine ⟨distinct, ⟨_, rfl⟩, ?_⟩
  exact ((loaded _ rfl "pages/part.html").mp part).resolve_left (by decide)

end Job

end Stencil.Assembly
