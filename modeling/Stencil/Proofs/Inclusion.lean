/-
**Templates that include each other.**

The templates that can be loaded and parsed form a graph: an edge leads from a template to each
address that its nodes ask for, wherever in it the include stands. What a job keeps of the templates
it has parsed is a part of this graph.

* `Tools.tree?`: the nodes of the template at an address;
* `Includes`, `Reaches`: the edges, and what a root leads to;
* `fetch_tree`, `fetch_run`: fetching a template gives its nodes, and fails only if it has none; the
  table stays what it is.
-/

import Stencil.Proofs.JobContract
import Mathlib.Logic.Relation

namespace Stencil.Assembly

open Markup (Node)

variable {σ : Type}

/-- **The nodes of the template at an address**, if its source is there and can be parsed. -/
def Tools.tree? (tools : Tools σ) (path : String) : Option (List Node) :=
  match tools.load path with
  | .error _ => none
  | .ok source =>
    match tools.parse source with
    | .error _ => none
    | .ok nodes => some nodes

theorem Tools.tree?_of_parse {tools : Tools σ} {path source : String} {nodes : List Node}
    (loaded : tools.load path = .ok source) (parsed : tools.parse source = .ok nodes) :
    tools.tree? path = some nodes := by
  simp only [tree?, loaded, parsed]

/-- **The nodes of a template** are those of its source. -/
theorem Tools.tree?_eq_some_iff {tools : Tools σ} {path : String} {nodes : List Node} :
    tools.tree? path = some nodes ↔
      ∃ source, tools.load path = .ok source ∧ tools.parse source = .ok nodes := by
  refine ⟨fun tree => ?_, fun ⟨_, loaded, parsed⟩ => tree?_of_parse loaded parsed⟩
  unfold tree? at tree
  cases loaded : tools.load path with
  | error error => simp [loaded] at tree
  | ok source =>
    cases parsed : tools.parse source with
    | error error => simp [loaded, parsed] at tree
    | ok found =>
      simp only [loaded, parsed, Option.some.injEq] at tree
      exact ⟨source, rfl, tree ▸ parsed⟩

/-- **The first template includes the second** somewhere in its tree. -/
def Includes (tools : Tools σ) (first second : String) : Prop :=
  ∃ nodes, tools.tree? first = some nodes ∧ .template second ∈ Request.ofNodes first nodes

/-- **What a root template leads to**, itself among it. -/
def Reaches (tools : Tools σ) (root path : String) : Prop :=
  Relation.ReflTransGen (Includes tools) (Address.resolve "" root) path

/-- **A template that can be compiled on its own**: it has a tree, and the engine knows each of its
expressions. -/
def Sound (tools : Tools σ) (path : String) : Prop :=
  ∃ nodes, tools.tree? path = some nodes ∧
    ∀ source, .evaluator source ∈ Request.ofNodes path nodes →
      ∃ evaluator, tools.engine.compile source = .ok evaluator

/-- **The nodes that a job keeps** are those of their templates. -/
def KeepsTrees (tools : Tools σ) (gathered : Gathered σ) : Prop :=
  ∀ path nodes, gathered.parsed.find? path = some nodes → tools.tree? path = some nodes

namespace Job

variable {tools : Tools σ} {path : String}

theorem start_keepsTrees : KeepsTrees tools start := by
  intro path nodes found
  cases found

theorem KeepsTrees.insert {gathered : Gathered σ} {nodes : List Node}
    (keeps : KeepsTrees tools gathered) (tree : tools.tree? path = some nodes) :
    KeepsTrees tools { gathered with parsed := gathered.parsed.insert path nodes } := by
  intro other found isFound
  rw [Assoc.find?_insert] at isFound
  split at isFound
  · rename_i same
    cases isFound
    exact same ▸ tree
  · exact keeps other found isFound

/-- **Fetching a template gives its nodes**, and fails only if it has none. -/
theorem fetch_tree :
    Meets (fetch tools path) (KeepsTrees tools) (fun nodes => tools.tree? path = some nodes)
      fun _ => tools.tree? path = none := by
  refine fetch_meets (fun _ keeps nodes => keeps path nodes) (fun _ keeps => keeps)
    (fun error failed => ?_) (fun _ _ _ keeps => keeps) (fun source error loaded failed => ?_)
    fun source nodes loaded parsed => ?_
  · simp only [Tools.tree?, failed]
  · simp only [Tools.tree?, loaded, failed]
  · have tree := Tools.tree?_of_parse loaded parsed
    exact ⟨tree, fun gathered keeps => KeepsTrees.insert keeps tree⟩

/-- **What is fetched is the tree of the template**, and the table stays what it is. -/
theorem fetch_run {nodes : List Node} {before after : Gathered σ} (keeps : KeepsTrees tools before)
    (ran : (fetch tools path).run before = (.ok nodes, after)) :
    tools.tree? path = some nodes ∧ KeepsTrees tools after ∧ after.table = before.table := by
  have meets : Meets (fetch tools path)
      (fun gathered => KeepsTrees tools gathered ∧ gathered.table = before.table)
      (fun nodes => tools.tree? path = some nodes) fun _ => True := by
    refine fetch_meets (fun _ kept nodes => kept.1 path nodes) (fun _ kept => kept)
      (fun _ _ => trivial) (fun _ _ _ kept => kept) (fun _ _ _ _ => trivial) ?_
    intro source nodes loaded parsed
    have tree := Tools.tree?_of_parse loaded parsed
    exact ⟨tree, fun gathered kept => ⟨KeepsTrees.insert kept.1 tree, kept.2⟩⟩
  obtain ⟨kept, gives⟩ := meets before ⟨keeps, rfl⟩
  rw [ran] at kept gives
  exact ⟨gives, kept⟩

end Job

end Stencil.Assembly
