/-
**Errors name the template at fault.**

A job that cannot go on names a template. If its source cannot be loaded or parsed, then it is the one
that was loaded last, since the job stops there. If an expression is refused, then it is the one in
whose text the expression stands: the job goes through the nodes of one template at a time and
names that one, also for the body of an override, which is compiled inside another template.

* `Markup.Stands`: **a node stands in a tree**, at any nesting;
* `CompileError.Blames`: what holds of the template that an error names;
* `Faults`: a part of a job blames no other template, with rules for sequences;
* `fetch_blames`, `file_faults`: fetching a template and opening it do not;
* `compile_blames`: **every error of a compile names the template at fault**.
-/

import Mathlib.Data.List.Infix
import Stencil.Proofs.LoadedOnce
import Stencil.Proofs.Moments

namespace Stencil

open Markup (Definition Node)
open Script (Step)

/-- **A node stands in a tree**: at its top, or in the body of a block, of a definition or of an
override that stands there. -/
inductive Markup.Stands (node : Node) : List Node → Prop
  | top {nodes : List Node} : node ∈ nodes → Stands node nodes
  | block {nodes body : List Node} {name : String} : .block name body ∈ nodes →
    Stands node body → Stands node nodes
  | definition {nodes : List Node} {definition : Definition} : .definition definition ∈ nodes →
    Stands node definition.body → Stands node nodes
  | override {nodes : List Node} {file : String} {overrides : List Definition}
    {definition : Definition} : .inclusion file overrides ∈ nodes → definition ∈ overrides →
    Stands node definition.body → Stands node nodes

theorem Markup.Stands.mono {node : Node} {nodes more : List Node} (stands : Stands node nodes)
    (subset : nodes ⊆ more) : Stands node more := by
  cases stands with
  | top member => exact .top (subset member)
  | block member inside => exact .block (subset member) inside
  | definition member inside => exact .definition (subset member) inside
  | override member among inside => exact .override (subset member) among inside

namespace Assembly

open Markup (Stands)

variable {σ α β : Type}

/-! ### Where expressions stand -/

/-- An expression stands in a tree, in a node of its own. -/
def Holds (source : String) (nodes : List Node) : Prop :=
  ∃ node, Stands node nodes ∧ node.source? = some source

namespace Request

mutual

theorem holds_of_ofNode {base source : String} {nodes : List Node} (node : Node)
    (member : node ∈ nodes) (asked : .evaluator source ∈ ofNode base node) : Holds source nodes := by
  cases node with
  | text content => cases asked
  | definition definition =>
    obtain ⟨holder, stands, holds⟩ := holds_of_ofDefinition definition asked
    exact ⟨holder, .definition member stands, holds⟩
  | block name body =>
    obtain ⟨holder, stands, holds⟩ := holds_of_ofNodes body asked
    exact ⟨holder, .block member stands, holds⟩
  | inclusion file overrides =>
    rcases List.mem_append.mp asked with inside | last
    · obtain ⟨definition, among, holder, stands, holds⟩ := holds_of_ofDefinitions overrides inside
      exact ⟨holder, .override member among stands, holds⟩
    · simp at last
  | expression own delivery =>
    cases List.mem_singleton.mp asked
    exact ⟨_, .top member, rfl⟩
  | «variable» name own =>
    cases List.mem_singleton.mp asked
    exact ⟨_, .top member, rfl⟩

/-- **An expression that nodes ask for stands in them.** -/
theorem holds_of_ofNodes {base source : String} (nodes : List Node)
    (asked : .evaluator source ∈ ofNodes base nodes) : Holds source nodes := by
  cases nodes with
  | nil => cases asked
  | cons first rest =>
    rcases List.mem_append.mp asked with here | later
    · exact holds_of_ofNode first List.mem_cons_self here
    · obtain ⟨holder, stands, holds⟩ := holds_of_ofNodes rest later
      exact ⟨holder, stands.mono (List.subset_cons_self first rest), holds⟩

theorem holds_of_ofDefinition {base source : String} (definition : Definition)
    (asked : .evaluator source ∈ ofDefinition base definition) : Holds source definition.body := by
  cases definition with
  | mk name mode body => exact holds_of_ofNodes body asked

theorem holds_of_ofDefinitions {base source : String} (definitions : List Definition)
    (asked : .evaluator source ∈ ofDefinitions base definitions) :
    ∃ definition ∈ definitions, Holds source definition.body := by
  cases definitions with
  | nil => cases asked
  | cons first rest =>
    rcases List.mem_append.mp asked with here | later
    · exact ⟨first, List.mem_cons_self, holds_of_ofDefinition first here⟩
    · obtain ⟨definition, among, holds⟩ := holds_of_ofDefinitions rest later
      exact ⟨definition, List.mem_cons_of_mem _ among, holds⟩

end

end Request

/-! ### Blame -/

/-- **What holds of the template that an error names**, when a job has stopped with what is gathered.
If it cannot be loaded, then its load is the last one, and the only one that has failed. If it cannot
be parsed, then its load is the last one too, and the parser refuses what was loaded. If an expression
is refused, then it stands in the tree of that template, which was loaded. -/
def CompileError.Blames (tools : Tools σ) (gathered : Gathered σ) : CompileError → Prop
  | .load path cause => gathered.loads.getLast? = some path ∧ tools.load path = .error cause ∧
      ∀ other ∈ gathered.loads.dropLast, ∃ source, tools.load other = .ok source
  | .parse path cause => gathered.loads.getLast? = some path ∧
      ∃ source, tools.load path = .ok source ∧ tools.parse source = .error cause
  | .expression path fault => path ∈ gathered.loads ∧
      ∃ nodes, tools.tree? path = some nodes ∧
        ∃ node source, Stands node nodes ∧ node.source? = some source ∧
          tools.engine.compile source = .error fault
  | .cycle _ _ => True

namespace Job

/-- **What holds of a job that has not stopped**: what was loaded is kept, and the open templates were
loaded. -/
structure Opened (tools : Tools σ) (opened : List String) (gathered : Gathered σ) : Prop where
  caches : Caches tools gathered
  loaded : opened ⊆ gathered.loads

/-- **A part of a job blames the template at fault**, if it stops with an error while certain
templates are open; if it gives a value, then these are still loaded. -/
def Faults (tools : Tools σ) (opened : List String) (part : Job σ α) (result : α → Prop) : Prop :=
  ∀ gathered, Opened tools opened gathered →
    match part.run gathered with
    | (.ok value, after) => result value ∧ Opened tools opened after
    | (.error reason, after) => ∀ error, reason = .error error → error.Blames tools after

section Rules

variable {tools : Tools σ} {opened : List String} {result : α → Prop}

theorem Faults.pure {value : α} (holds : result value) :
    Faults tools opened (Pure.pure value : Job σ α) result :=
  fun _ opens => ⟨holds, opens⟩

theorem Faults.bind {part : Job σ α} {next : α → Job σ β} {last : β → Prop}
    (first : Faults tools opened part result)
    (second : ∀ value, result value → Faults tools opened (next value) last) :
    Faults tools opened (part >>= next) last := by
  intro gathered opens
  have outcome := first gathered opens
  rw [run_bind]
  cases ran : part.run gathered with
  | mk answer middle =>
    rw [ran] at outcome
    cases answer with
    | ok value => exact second value outcome.1 middle outcome.2
    | error reason => exact outcome

/-- What is done while one more template is open. -/
theorem Faults.inside {path : String} {part : Job σ α} {gathered : Gathered σ}
    (faults : Faults tools (path :: opened) part result)
    (opens : Opened tools (path :: opened) gathered) :
    match part.run gathered with
    | (.ok value, after) => result value ∧ Opened tools opened after
    | (.error reason, after) => ∀ error, reason = .error error → error.Blames tools after := by
  have outcome := faults gathered opens
  cases ran : part.run gathered with
  | mk answer after =>
    rw [ran] at outcome
    cases answer with
    | ok value =>
      obtain ⟨holds, caches, loaded⟩ := outcome
      exact ⟨holds, caches, fun other member => loaded (List.mem_cons_of_mem path member)⟩
    | error reason => exact outcome

theorem Faults.compositional :
    Compositional (σ := σ) fun first _ result => Faults tools opened first result :=
  ⟨fun holds => Faults.pure holds, fun first second => Faults.bind first second⟩

end Rules

section Asking

variable {tools : Tools σ} {opened : List String} {path : String}

/-- **A template that cannot be fetched is blamed**; all that was loaded before it has been parsed. -/
theorem fetch_blames {gathered after : Gathered σ} {reason : Stop} (caches : Caches tools gathered)
    (ran : (fetch tools path).run gathered = (.error reason, after)) :
    ∀ error, reason = .error error → error.Blames tools after := by
  cases known : gathered.parsed.find? path with
  | some nodes =>
    rw [fetch_known known] at ran
    cases ran
  | none =>
    rw [fetch_new known, run_bind, fetchAfresh_run] at ran
    cases loaded : tools.load path with
    | error cause =>
      rw [loaded] at ran
      cases ran
      rintro _ ⟨⟩
      have loads := loads_push gathered (.load path)
      refine ⟨loads ▸ List.getLast?_concat, loaded, fun other member => ?_⟩
      rw [loads, Event.loaded?, Option.toList_some, List.dropLast_concat] at member
      obtain ⟨nodes, kept⟩ := (caches.known other).mp member
      obtain ⟨source, fine, -⟩ := Tools.tree?_eq_some_iff.mp (caches.keeps other nodes kept)
      exact ⟨source, fine⟩
    | ok source =>
      rw [loaded] at ran
      dsimp only at ran
      cases parsed : tools.parse source with
      | error cause =>
        rw [parsed] at ran
        cases ran
        rintro _ ⟨⟩
        refine ⟨?_, source, loaded, parsed⟩
        rw [loads_push { gathered with events := gathered.events.push (.load path) } (.parse source),
          loads_push gathered (.load path), Event.loaded?, Event.loaded?, Option.toList_none,
          List.append_nil]
        exact List.getLast?_concat
      | ok nodes =>
        rw [parsed] at ran
        cases ran

/-- **A template that was fetched** may be opened. -/
theorem fetch_opened {gathered after : Gathered σ} {nodes : List Node}
    (holds : Opened tools opened gathered)
    (ran : (fetch tools path).run gathered = (.ok nodes, after)) :
    tools.tree? path = some nodes ∧ Opened tools (path :: opened) after := by
  let lookup : Lookup := ⟨"", ⟨[], ""⟩, path⟩
  obtain ⟨-, outcome⟩ := fetch_follows (rfl : lookup.target = path) gathered holds.caches
  rw [ran] at outcome
  obtain ⟨tree, -, followed⟩ := outcome
  refine ⟨tree, followed.caches, fun other member => (followed.loads other).mpr ?_⟩
  rcases List.mem_cons.mp member with rfl | before
  · exact Or.inr ⟨lookup, List.mem_cons_self, rfl⟩
  · exact Or.inl (holds.loaded before)

/-- **An expression that is refused** is blamed on the template in which it stands. -/
theorem expression_faults {source : String} {nodes : List Node} (isOpen : path ∈ opened)
    (tree : tools.tree? path = some nodes) (stands : Holds source nodes) :
    Faults tools opened (expression tools path source) fun _ => True := by
  intro gathered holds
  unfold expression
  cases compiled : tools.engine.compile source with
  | error fault =>
    rintro _ ⟨⟩
    obtain ⟨node, inside, isSource⟩ := stands
    exact ⟨holds.loaded isOpen, nodes, tree, node, source, inside, isSource, compiled⟩
  | ok evaluator =>
    have caches := holds.caches
    exact ⟨trivial, ⟨⟨caches.distinct, caches.asked⟩, caches.keeps, caches.known⟩, holds.loaded⟩

end Asking

/-- **Opening a template blames the template at fault**, at every depth. -/
theorem file_faults (tools : Tools σ) (depth : Nat) (sources opened : List String)
    (context : Context) :
    Faults tools opened (file tools depth sources context) fun _ => True := by
  induction depth generalizing sources opened context with
  | zero =>
    rintro gathered - _ ⟨⟩
  | succ depth ih =>
    rw [file]
    split
    · rintro gathered - _ ⟨⟩
      trivial
    · intro gathered holds
      rw [run_bind]
      cases ran : (fetch tools context.file).run gathered with
      | mk answer middle =>
        cases answer with
        | error reason => exact fetch_blames holds.caches ran
        | ok content =>
          obtain ⟨tree, isOpen⟩ := fetch_opened holds ran
          have served : ∀ request ∈ Request.ofNodes context.file content,
              ServesBoth (fun first _ result => Faults tools (context.file :: opened) first result)
                tools tools context.file (file tools depth (sources ++ [context.file]))
                (file tools depth (sources ++ [context.file])) (fun _ => True) request := by
            intro request asked
            cases request with
            | evaluator source =>
              exact expression_faults List.mem_cons_self tree
                (Request.holds_of_ofNodes content asked)
            | template target => exact fun inner _ => ih _ _ inner
          have walk := Faults.compositional.nodes context.file content served context rfl
          exact (walk.bind fun _ _ => Faults.pure trivial).inside isOpen

/-- **Every error of a compile names the template at fault.** -/
theorem compile_blames (tools : Tools σ) (depth : Nat) (root : String) {error : CompileError}
    (failed : (compile tools depth root).1 = .error (.error error)) :
    error.Blames tools (compile tools depth root).2 := by
  have outcome := file_faults tools depth [] [] (Context.root (Address.resolve "" root)) start
    ⟨start_caches, List.nil_subset _⟩
  unfold compile at failed ⊢
  cases ran : (file tools depth [] (Context.root (Address.resolve "" root))).run start with
  | mk answer ended =>
    rw [ran] at outcome failed
    cases answer with
    | ok steps => cases failed
    | error reason =>
      cases failed
      exact outcome error rfl

/-- A page that gives a layout an override with an expression that is no expression. -/
def brokenTools : Tools Unit where
  load path := .ok path
  parse source :=
    if source = "pages/index" then
      .ok [.block "main" [.inclusion "/base" [.mk "title" .append [.block "inner"
        [.expression ")" .escaped]]]]]
    else .ok [.block "title" []]
  engine := Engine.standard

/-- The page is at fault, and not the layout that the override is given to. -/
theorem brokenTools_blames :
    ∃ fault, (compile brokenTools 2 "pages/index").1 =
        .error (.error (.expression "pages/index" fault)) ∧
      "pages/index" ∈ (compile brokenTools 2 "pages/index").2.loads ∧
      ∃ nodes, brokenTools.tree? "pages/index" = some nodes ∧
        ∃ node source, Stands node nodes ∧ node.source? = some source ∧
          brokenTools.engine.compile source = .error fault := by
  let fault : Formula.Fault := ⟨.unexpectedToken, 0, ")"⟩
  have refused : (compile brokenTools 2 "pages/index").1.map (fun _ => ()) =
      .error (.error (.expression "pages/index" fault)) := by decide +kernel
  have failed : (compile brokenTools 2 "pages/index").1 =
      .error (.error (.expression "pages/index" fault)) := by
    cases answer : (compile brokenTools 2 "pages/index").1 with
    | ok template =>
      rw [answer] at refused
      cases refused
    | error reason =>
      rw [answer] at refused
      exact congrArg _ (Except.error.inj refused)
  exact ⟨_, failed, compile_blames brokenTools 2 "pages/index" failed⟩

end Job

end Assembly

end Stencil
