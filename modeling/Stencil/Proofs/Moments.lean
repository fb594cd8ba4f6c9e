/-
**The moments of a compile.**

A job comes upon nodes one after the other. At each of them it stands somewhere: in a template, in a
context, and with what it has gathered so far. The moments of a run are the nodes that it comes upon,
each with where it stands and with what becomes of it.

Definitions, blocks and includes hand steps on to places far from the node that made them. So what is
said of steps is said with the moments of the whole run in view: each step that refers to an
expression was made at one of them.

* `Moment`, `Job.moments`: **what a compile comes upon**, in order;
* `Moment.made?`: the step that an expression becomes; `Made`: a step that was made at a moment;
* `Passed`: **what holds behind a part of a job that has ended**: its moments are genuine, and the
  table has grown by their expressions;
* `Traces`: a contract of a part of a job with its moments, with rules for sequences;
* `nodes_traces`, `file_traces`: walks and included templates meet it;
* `compile_passed`: so does a compile that succeeds.
-/

import Mathlib.Data.List.Infix
import Mathlib.Data.List.Range
import Stencil.Proofs.Inclusion
import Stencil.Proofs.Renumbering

namespace Stencil

open Assembly (Context Filling)

/-- The source of the expression that a node holds itself, if it holds one. -/
def Markup.Node.source? : Markup.Node → Option String
  | .expression source _ => some source
  | .variable _ source => some source
  | _ => none

/-! ### References of definitions -/

/-- **All definitions that a block can find** refer to what has a property. -/
def Assembly.Context.Refers (fine : Script.Step → Nat → Prop) (context : Context) : Prop :=
  ∀ name filling, context.find? name = some filling → Script.Refers fine filling.code

section References

variable {fine : Script.Step → Nat → Prop}

theorem Assembly.Context.Refers.define {context : Context} {filling : Filling}
    (refers : context.Refers fine) (own : Script.Refers fine filling.code) (name : String) :
    (context.define name filling).Refers fine := by
  intro other found isFound
  rw [Context.find?_define] at isFound
  split at isFound
  · cases isFound
    exact own
  · exact refers other found isFound

theorem Assembly.Filling.refers_fill {filling : Filling} {body : List Script.Step}
    (own : Script.Refers fine filling.code) (inside : Script.Refers fine body) :
    Script.Refers fine (filling.fill body) := by
  unfold Filling.fill
  cases filling.mode with
  | append => exact Script.refers_append.mpr ⟨inside, own⟩
  | override => exact own
  | prepend => exact own

/-- What a block is filled with refers to what its own content and the definitions refer to. -/
theorem Assembly.Context.Refers.block {context : Context} {body : List Script.Step}
    (refers : context.Refers fine) (inside : Script.Refers fine body) (name : String) :
    Script.Refers fine (((context.find? name).map fun found => found.fill body).getD body) := by
  cases found : context.find? name with
  | none => exact inside
  | some filling => exact Filling.refers_fill (refers name filling found) inside

end References

namespace Assembly

open Markup (Definition Node)
open Script (Step)

variable {σ α β : Type}

/-! ### Moments -/

/-- **A node that a job comes upon**: the template that is open and the context, what was gathered
before it, the answer to it, and what was gathered behind it. -/
structure Moment (σ : Type) where
  path : String
  node : Node
  context : Context
  before : Gathered σ
  answer : Except Stop (List Step × Context)
  after : Gathered σ

namespace Moment

/-- **The step that an expression becomes**, at a moment whose node holds one. -/
def made? (moment : Moment σ) : Option Step :=
  match moment.node.source?, moment.answer with
  | some _, .ok ([step], _) => some step
  | _, _ => none

/-- The index that is given to the expression of a moment. -/
def index? (moment : Moment σ) : Option Nat :=
  moment.made?.bind Step.index?

/-- The expression of a moment. -/
def source? (moment : Moment σ) : Option String :=
  moment.node.source?

end Moment

/-- **A step was made at one of the moments.** -/
def Made (moments : List (Moment σ)) (step : Step) (_ : Nat) : Prop :=
  ∃ moment ∈ moments, moment.made? = some step

namespace Job

/-- The moment at which a job comes upon a node. -/
def come (tools : Tools σ) (path : String) (visit : Context → Job σ (List Step)) (node : Node)
    (context : Context) (gathered : Gathered σ) : Moment σ :=
  let outcome := (Job.node tools path visit node context).run gathered
  ⟨path, node, context, gathered, outcome.1, outcome.2⟩

/-- The moments behind a part of a job in a run: none, if the part stops. -/
def momentsBehind (part : Job σ α) (next : α → Gathered σ → List (Moment σ))
    (gathered : Gathered σ) : List (Moment σ) :=
  match part.run gathered with
  | (.ok value, after) => next value after
  | (.error _, _) => []

theorem momentsBehind_of_ok {part : Job σ α} {gathered after : Gathered σ} {value : α}
    (ran : part.run gathered = (.ok value, after)) (next : α → Gathered σ → List (Moment σ)) :
    momentsBehind part next gathered = next value after := by
  unfold momentsBehind
  rw [ran]

mutual

/-- **The moments inside a node** while it is compiled, in a run that starts from what is gathered.
`within` are those of the included templates. -/
def nodeMoments (tools : Tools σ) (path : String) (visit : Context → Job σ (List Step))
    (within : Context → Gathered σ → List (Moment σ)) :
    Node → Context → Gathered σ → List (Moment σ)
  | .text _, _, _ => []
  | .definition definition, context, gathered =>
    definitionMoments tools path visit within definition context gathered
  | .block _ body, context, gathered =>
    nodesMoments tools path visit within body context gathered
  | .inclusion file overrides, context, gathered =>
    let inside := context.inside (Address.resolve context.file file)
    definitionsMoments tools path visit within overrides inside gathered ++
      momentsBehind (defineAll tools path visit overrides inside) within gathered
  | .expression _ _, _, _ => []
  | .variable _ _, _, _ => []

/-- The moments while nodes are compiled one after the other. -/
def nodesMoments (tools : Tools σ) (path : String) (visit : Context → Job σ (List Step))
    (within : Context → Gathered σ → List (Moment σ)) :
    List Node → Context → Gathered σ → List (Moment σ)
  | [], _, _ => []
  | first :: rest, context, gathered =>
    come tools path visit first context gathered ::
      nodeMoments tools path visit within first context gathered ++
        momentsBehind (node tools path visit first context)
          (fun result => nodesMoments tools path visit within rest result.2) gathered

/-- The moments while a definition is compiled. -/
def definitionMoments (tools : Tools σ) (path : String) (visit : Context → Job σ (List Step))
    (within : Context → Gathered σ → List (Moment σ)) :
    Definition → Context → Gathered σ → List (Moment σ)
  | .mk _ _ body, context, gathered => nodesMoments tools path visit within body context gathered

/-- The moments while definitions are compiled one after the other. -/
def definitionsMoments (tools : Tools σ) (path : String) (visit : Context → Job σ (List Step))
    (within : Context → Gathered σ → List (Moment σ)) :
    List Definition → Context → Gathered σ → List (Moment σ)
  | [], _, _ => []
  | first :: rest, context, gathered =>
    definitionMoments tools path visit within first context gathered ++
      momentsBehind (define tools path visit first context)
        (fun inner => definitionsMoments tools path visit within rest inner) gathered

end

/-- **The moments while a template is compiled**, those in the templates that it includes among
them. -/
def fileMoments (tools : Tools σ) : Nat → List String → Context → Gathered σ → List (Moment σ)
  | 0, _, _, _ => []
  | depth + 1, sources, context, gathered =>
    if context.file ∈ sources then []
    else
      momentsBehind (fetch tools context.file)
        (nodesMoments tools context.file (file tools depth (sources ++ [context.file]))
          (fileMoments tools depth (sources ++ [context.file])) · context) gathered

/-- **The moments of a compile**, in order. -/
def moments (tools : Tools σ) (depth : Nat) (root : String) : List (Moment σ) :=
  fileMoments tools depth [] (Context.root (Address.resolve "" root)) start

end Job

/-! ### What holds behind a part of a job -/

/-- **A genuine moment of a job that goes on behind it**: there the job compiles the node in a
template that is open, with room for more, and whatever the table has then stays in it. -/
structure Moment.Genuine (tools : Tools σ) (depth : Nat) (ended : Gathered σ) (moment : Moment σ) :
    Prop where
  keeps : KeepsTrees tools moment.before
  ran : ∃ room sources result, room ≤ depth ∧ moment.answer = .ok result ∧
    (Job.node tools moment.path (Job.file tools room sources) moment.node moment.context).run
      moment.before = (.ok result, moment.after)
  stands : moment.after.table.toList <+: ended.table.toList

/-- **What holds behind a part of a job that has ended**, with its moments: they are genuine, and the
table has grown by their expressions, each under the index that it was given. -/
structure Passed (tools : Tools σ) (depth : Nat) (trace : List (Moment σ))
    (before after : Gathered σ) : Prop where
  keeps : KeepsTrees tools after
  genuine : ∀ moment ∈ trace, moment.Genuine tools depth after
  entered : ∃ added : List (Evaluator σ), after.table.toList = before.table.toList ++ added ∧
    trace.filterMap Moment.index? = List.range' before.table.size added.length ∧
    (trace.filterMap Moment.source?).map tools.engine.compile = added.map Except.ok

namespace Passed

variable {tools : Tools σ} {depth : Nat} {trace : List (Moment σ)} {before middle after : Gathered σ}

/-- Nothing happens if the table stays what it was. -/
theorem of_table (keeps : KeepsTrees tools after) (same : after.table = before.table) :
    Passed tools depth [] before after :=
  ⟨keeps, by simp, [], by simp [same]⟩

theorem grown (passed : Passed tools depth trace before after) :
    before.table.toList <+: after.table.toList := by
  obtain ⟨added, whole, -⟩ := passed.entered
  exact ⟨added, whole.symm⟩

theorem trans {more : List (Moment σ)} (first : Passed tools depth trace before middle)
    (second : Passed tools depth more middle after) :
    Passed tools depth (trace ++ more) before after := by
  refine ⟨second.keeps, fun moment member => ?_, ?_⟩
  · rcases List.mem_append.mp member with early | late
    · have genuine := first.genuine moment early
      exact ⟨genuine.keeps, genuine.ran, genuine.stands.trans second.grown⟩
    · exact second.genuine moment late
  · obtain ⟨added, whole, numbers, sources⟩ := first.entered
    obtain ⟨later, wholeLater, numbersLater, sourcesLater⟩ := second.entered
    have size : middle.table.size = before.table.size + added.length := by
      rw [← Array.length_toList, whole, List.length_append, Array.length_toList]
    refine ⟨added ++ later, ?_, ?_, ?_⟩
    · rw [wholeLater, whole, List.append_assoc]
    · rw [List.filterMap_append, numbers, numbersLater, size, List.range'_append_1,
        List.length_append]
    · rw [List.filterMap_append, List.map_append, sources, sourcesLater, List.map_append]

/-- **The moment of a node without an expression** is put before those inside the node. -/
theorem come {room : Nat} {sources : List String} {path : String} {node : Node} {context : Context}
    {result : List Step × Context} (bounded : room ≤ depth) (keeps : KeepsTrees tools before)
    (silent : node.source? = none)
    (ran : (Job.node tools path (Job.file tools room sources) node context).run before =
      (.ok result, after))
    (passed : Passed tools depth trace before after) :
    Passed tools depth
      (Job.come tools path (Job.file tools room sources) node context before :: trace)
      before after := by
  have here : Job.come tools path (Job.file tools room sources) node context before =
      ⟨path, node, context, before, .ok result, after⟩ := by
    unfold Job.come
    rw [ran]
  have noStep : (⟨path, node, context, before, .ok result, after⟩ : Moment σ).index? = none := by
    simp [Moment.index?, Moment.made?, silent]
  have noSource : (⟨path, node, context, before, .ok result, after⟩ : Moment σ).source? = none :=
    silent
  rw [here]
  refine ⟨passed.keeps, fun moment member => ?_, ?_⟩
  · rcases List.mem_cons.mp member with rfl | inside
    · exact ⟨keeps, ⟨room, sources, result, bounded, rfl, ran⟩, List.prefix_rfl⟩
    · exact passed.genuine moment inside
  · obtain ⟨added, whole, numbers, entries⟩ := passed.entered
    refine ⟨added, whole, ?_, ?_⟩
    · rw [List.filterMap_cons_none noStep, numbers]
    · rw [List.filterMap_cons_none noSource, entries]

end Passed

/-! ### Parts of a job with their moments -/

namespace Job

section Asking

variable {tools : Tools σ} {path : String} {before after : Gathered σ}

/-- **A node that holds an expression** becomes one step, which refers to the new end of the table.
-/
theorem source_run {visit : Context → Job σ (List Step)} {node : Node} {context : Context}
    {source : String} {result : List Step × Context} (holds : node.source? = some source)
    (ran : (Job.node tools path visit node context).run before = (.ok result, after)) :
    ∃ evaluator step, tools.engine.compile source = .ok evaluator ∧ result = ([step], context) ∧
      step.index? = some before.table.size ∧
      after = { before with table := before.table.push evaluator } := by
  cases node with
  | expression source delivery =>
    cases holds
    rw [Job.node] at ran
    obtain ⟨index, middle, compiled, put⟩ := run_bind_ok ran
    cases put
    obtain ⟨evaluator, known, rfl, rfl⟩ := expression_run compiled
    exact ⟨evaluator, _, known, rfl, by cases delivery <;> rfl, rfl⟩
  | «variable» name source =>
    cases holds
    rw [Job.node] at ran
    obtain ⟨index, middle, compiled, put⟩ := run_bind_ok ran
    cases put
    obtain ⟨evaluator, known, rfl, rfl⟩ := expression_run compiled
    exact ⟨evaluator, _, known, rfl, rfl, rfl⟩
  | _ => cases holds

end Asking

/-- **A part of a job with its moments**: if it gives a value, then what holds behind it holds, and
the value has a property as far as its moments are among those of the whole job. -/
def Traces (tools : Tools σ) (depth : Nat) (whole : List (Moment σ)) (part : Job σ α)
    (trace : Gathered σ → List (Moment σ)) (result : α → Prop) : Prop :=
  ∀ before value after, KeepsTrees tools before → part.run before = (.ok value, after) →
    Passed tools depth (trace before) before after ∧ (trace before ⊆ whole → result value)

section Rules

variable {tools : Tools σ} {depth : Nat} {whole : List (Moment σ)}
  {trace : Gathered σ → List (Moment σ)} {result : α → Prop}

theorem Traces.pure {value : α} (holds : result value) :
    Traces tools depth whole (Pure.pure value : Job σ α) (fun _ => []) result := by
  rintro before _ _ keeps ⟨⟩
  exact ⟨Passed.of_table keeps rfl, fun _ => holds⟩

/-- **A sequence has the moments of its parts**, one behind the other. -/
theorem Traces.bind {part : Job σ α} {next : α → Job σ β} {last : β → Prop}
    {later : α → Gathered σ → List (Moment σ)}
    (first : Traces tools depth whole part trace result)
    (second : ∀ value, Traces tools depth whole (next value) (later value)
      fun final => result value → last final) :
    Traces tools depth whole (part >>= next)
      (fun gathered => trace gathered ++ momentsBehind part later gathered) last := by
  intro before final after keeps ran
  obtain ⟨value, middle, ranFirst, ranSecond⟩ := run_bind_ok ran
  obtain ⟨passed, holds⟩ := first before value middle keeps ranFirst
  obtain ⟨passedLater, holdsLater⟩ := second value middle final after passed.keeps ranSecond
  dsimp only
  rw [momentsBehind_of_ok ranFirst]
  refine ⟨passed.trans passedLater, fun among => ?_⟩
  obtain ⟨early, late⟩ := List.append_subset.mp among
  exact holdsLater late (holds early)

/-- A value is put together at no moment of its own. -/
theorem Traces.map {part : Job σ α} {put : α → β} {last : β → Prop}
    (first : Traces tools depth whole part trace result)
    (holds : ∀ value, result value → last (put value)) :
    Traces tools depth whole (part >>= fun value => Pure.pure (put value)) trace last := by
  intro before final after keeps ran
  obtain ⟨value, middle, ranFirst, ranSecond⟩ := run_bind_ok ran
  obtain ⟨passed, fine⟩ := first before value middle keeps ranFirst
  cases ranSecond
  exact ⟨passed, fun among => holds value (fine among)⟩

theorem Traces.weaken {part : Job σ α} {weaker : α → Prop}
    (traces : Traces tools depth whole part trace result)
    (implies : ∀ value, result value → weaker value) :
    Traces tools depth whole part trace weaker := by
  intro before value after keeps ran
  obtain ⟨passed, holds⟩ := traces before value after keeps ran
  exact ⟨passed, fun among => implies value (holds among)⟩

theorem fetch_traces (path : String) :
    Traces tools depth whole (fetch tools path) (fun _ => []) fun _ => True := by
  intro before nodes after keeps ran
  obtain ⟨-, kept, same⟩ := fetch_run keeps ran
  exact ⟨Passed.of_table kept same, fun _ => trivial⟩

end Rules

/-! ### Walks and templates -/

section Walks

variable {tools : Tools σ} {depth room : Nat} {sources : List String} {path : String}
  {whole : List (Moment σ)}

/-- **The moment of a node without an expression** is put before those inside the node. -/
theorem Traces.come {node : Node} {context : Context} {inside : Gathered σ → List (Moment σ)}
    {result : List Step × Context → Prop} (bounded : room ≤ depth) (silent : node.source? = none)
    (traces : Traces tools depth whole (Job.node tools path (file tools room sources) node context)
      inside result) :
    Traces tools depth whole (Job.node tools path (file tools room sources) node context)
      (fun gathered => Job.come tools path (file tools room sources) node context gathered ::
        inside gathered) result := by
  intro before value after keeps ran
  obtain ⟨passed, holds⟩ := traces before value after keeps ran
  exact ⟨passed.come bounded keeps silent ran, fun among =>
    holds (List.cons_subset.mp among).2⟩

/-- **The moment of a node with an expression**: the step that it becomes refers to the new end of
the table. -/
theorem source_traces {node : Node} {context : Context} {source : String} (bounded : room ≤ depth)
    (holds : node.source? = some source) :
    Traces tools depth whole (Job.node tools path (file tools room sources) node context)
      (fun gathered => [Job.come tools path (file tools room sources) node context gathered])
      fun result => Script.Refers (Made whole) result.1 ∧ result.2 = context := by
  intro before value after keeps ran
  obtain ⟨evaluator, step, known, rfl, refers, rfl⟩ := source_run holds ran
  let last : Gathered σ := { before with table := before.table.push evaluator }
  let moment : Moment σ := ⟨path, node, context, before, .ok ([step], context), last⟩
  have here : Job.come tools path (file tools room sources) node context before = moment := by
    unfold Job.come
    rw [ran]
  have made : moment.made? = some step := by
    simp only [moment, Moment.made?, holds]
  have number : moment.index? = some before.table.size := by
    rw [Moment.index?, made]
    exact refers
  have given : moment.source? = some source := holds
  have genuine : moment.Genuine tools depth last :=
    ⟨keeps, ⟨room, sources, _, bounded, rfl, ran⟩, List.prefix_rfl⟩
  dsimp only
  rw [here]
  refine ⟨⟨keeps, ?_, [evaluator], Array.toList_push, ?_, ?_⟩, fun among => ⟨?_, rfl⟩⟩
  · intro other member
    cases List.mem_singleton.mp member
    exact genuine
  · rw [List.filterMap_cons_some number]
    rfl
  · rw [List.filterMap_cons_some given]
    exact congrArg (fun answer => [answer]) known
  · exact Script.Refers.of_index refers ⟨moment, among List.mem_cons_self, made⟩

/-- What compiles the included templates traces its moments, and the steps are made at them if those
of the definitions around are. -/
def VisitsTrace (tools : Tools σ) (depth : Nat) (whole : List (Moment σ))
    (visit : Context → Job σ (List Step)) (within : Context → Gathered σ → List (Moment σ)) : Prop :=
  ∀ inner : Context, Traces tools depth whole (visit inner) (within inner)
    fun steps => inner.Refers (Made whole) → Script.Refers (Made whole) steps

variable {within : Context → Gathered σ → List (Moment σ)}

mutual

theorem node_traces (bounded : room ≤ depth)
    (visits : VisitsTrace tools depth whole (file tools room sources) within) (node : Node)
    (context : Context) :
    Traces tools depth whole (Job.node tools path (file tools room sources) node context)
      (fun gathered => come tools path (file tools room sources) node context gathered ::
        nodeMoments tools path (file tools room sources) within node context gathered)
      fun result => context.Refers (Made whole) →
        Script.Refers (Made whole) result.1 ∧ result.2.Refers (Made whole) := by
  cases node with
  | text content =>
    refine Traces.come bounded rfl ?_
    rw [Job.node]
    exact Traces.pure fun known => ⟨Script.Refers.text content, known⟩
  | definition definition =>
    refine Traces.come bounded rfl ?_
    rw [Job.node]
    exact (define_traces bounded visits definition context).map fun inner holds known =>
      ⟨Script.Refers.nil, holds known⟩
  | block name body =>
    refine Traces.come bounded rfl ?_
    rw [Job.node]
    exact (nodes_traces bounded visits body context).map fun result holds known =>
      ⟨known.block (holds known).1 name, (holds known).2⟩
  | inclusion file overrides =>
    refine Traces.come bounded rfl ?_
    rw [Job.node]
    refine (defineAll_traces bounded visits overrides _).bind fun inner => ?_
    refine (visits inner).map fun steps holds given known => ⟨?_, known⟩
    exact Script.refers_nested.mpr (holds (given known))
  | expression source delivery =>
    exact (source_traces bounded rfl).weaken fun result holds known => ⟨holds.1, holds.2 ▸ known⟩
  | «variable» name source =>
    exact (source_traces bounded rfl).weaken fun result holds known => ⟨holds.1, holds.2 ▸ known⟩

/-- **A walk through nodes has the moments of the nodes.** The steps that it gives are made at them,
if those of the definitions around are. -/
theorem nodes_traces (bounded : room ≤ depth)
    (visits : VisitsTrace tools depth whole (file tools room sources) within) (nodes : List Node)
    (context : Context) :
    Traces tools depth whole (Job.nodes tools path (file tools room sources) nodes context)
      (nodesMoments tools path (file tools room sources) within nodes context)
      fun result => context.Refers (Made whole) →
        Script.Refers (Made whole) result.1 ∧ result.2.Refers (Made whole) := by
  cases nodes with
  | nil =>
    rw [Job.nodes]
    exact Traces.pure fun known => ⟨Script.Refers.nil, known⟩
  | cons first rest =>
    rw [Job.nodes]
    refine (node_traces bounded visits first context).bind fun before => ?_
    refine (nodes_traces bounded visits rest before.2).map fun result holds given known => ?_
    obtain ⟨here, between⟩ := given known
    exact ⟨Script.refers_append.mpr ⟨here, (holds between).1⟩, (holds between).2⟩

theorem define_traces (bounded : room ≤ depth)
    (visits : VisitsTrace tools depth whole (file tools room sources) within) (definition : Definition)
    (context : Context) :
    Traces tools depth whole (define tools path (file tools room sources) definition context)
      (definitionMoments tools path (file tools room sources) within definition context)
      fun inner => context.Refers (Made whole) → inner.Refers (Made whole) := by
  cases definition with
  | mk name mode body =>
    rw [define]
    exact (nodes_traces bounded visits body context).map fun result holds known =>
      (holds known).2.define (holds known).1 name

theorem defineAll_traces (bounded : room ≤ depth)
    (visits : VisitsTrace tools depth whole (file tools room sources) within) (definitions : List Definition)
    (context : Context) :
    Traces tools depth whole (defineAll tools path (file tools room sources) definitions context)
      (definitionsMoments tools path (file tools room sources) within definitions context)
      fun inner => context.Refers (Made whole) → inner.Refers (Made whole) := by
  cases definitions with
  | nil =>
    rw [defineAll]
    exact Traces.pure fun known => known
  | cons first rest =>
    rw [defineAll]
    refine (define_traces bounded visits first context).bind fun inner => ?_
    exact (defineAll_traces bounded visits rest inner).weaken fun last holds given known => holds (given known)

end

/-- **An included template has the moments of its nodes**, at every depth. -/
theorem file_traces (tools : Tools σ) {depth : Nat} (whole : List (Moment σ)) (room : Nat)
    (sources : List String) (bounded : room ≤ depth) :
    VisitsTrace tools depth whole (file tools room sources) (fileMoments tools room sources) := by
  induction room generalizing sources with
  | zero =>
    rintro context before steps after - ⟨⟩
  | succ room ih =>
    intro context
    have within : room ≤ depth := Nat.le_of_succ_le bounded
    have visits := ih (sources ++ [context.file]) within
    show Traces tools depth whole _ (fun gathered => fileMoments tools (room + 1) _ _ gathered) _
    unfold fileMoments
    rw [file]
    by_cases again : context.file ∈ sources
    · simp only [if_pos again]
      rintro before steps after - ⟨⟩
    · simp only [if_neg again]
      refine (fetch_traces context.file).bind fun content => ?_
      exact (nodes_traces within visits content context).map fun result holds _ known =>
        (holds known).1

end Walks

/-- **What is put together by a compile that succeeds**, with its moments. -/
theorem compile_passed {tools : Tools σ} {depth : Nat} {root : String} {template : Template σ}
    (compiled : (compile tools depth root).1 = .ok template) :
    ∃ steps ended, (file tools depth [] (Context.root (Address.resolve "" root))).run start =
        (.ok steps, ended) ∧ template = Template.assemble steps ended.table ∧
      Passed tools depth (moments tools depth root) start ended ∧
      Script.Refers (Made (moments tools depth root)) steps := by
  unfold compile at compiled
  cases ran : (file tools depth [] (Context.root (Address.resolve "" root))).run start with
  | mk answer ended =>
    rw [ran] at compiled
    cases answer with
    | error reason => cases compiled
    | ok steps =>
      cases compiled
      obtain ⟨passed, refers⟩ := file_traces tools (moments tools depth root) depth []
        (Nat.le_refl depth) _ start steps ended start_keepsTrees ran
      refine ⟨steps, ended, rfl, rfl, passed, refers (List.Subset.refl _) ?_⟩
      -- no definition is known where the root begins
      rintro name filling ⟨⟩

end Job

end Assembly

end Stencil
