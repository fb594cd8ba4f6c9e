/-
**Which templates compile.**

Whether a template can be opened depends on its own nodes and on the templates that these include,
not on what the job has gathered before: it must not be open already, it must have a tree, the
engine must know its expressions, and what it includes must open inside it.

* `Opens`: **a template opens** at a depth, inside the templates that are open around it;
* `compile_opens`: a compile succeeds exactly if its root opens;
* `Opens.congr`: the trees of templates that are open already do not matter;
* `Opens.fewer`: a template that asks for less opens too.
-/

import Stencil.Proofs.Inclusion

namespace Stencil.Assembly

variable {σ : Type} {tools : Tools σ}

/-- **A request that can be served**: the engine knows the expression, or the template opens. -/
def Request.Granted (engine : Engine σ) (opens : String → Prop) : Request → Prop
  | .evaluator source => ∃ evaluator, engine.compile source = .ok evaluator
  | .template path => opens path

/-- **A template opens** inside the templates around it, with room for `depth` templates. -/
def Opens (tools : Tools σ) : Nat → List String → String → Prop
  | 0, _, _ => False
  | depth + 1, sources, path =>
    path ∉ sources ∧ ∃ nodes, tools.tree? path = some nodes ∧
      ∀ request ∈ Request.ofNodes path nodes,
        request.Granted tools.engine (Opens tools depth (sources ++ [path]))

/-- **The trees of templates that are open already do not matter.** -/
theorem Opens.congr {other : Tools σ} (engine : other.engine = tools.engine) {depth : Nat}
    {sources : List String} (agree : ∀ path, path ∉ sources → other.tree? path = tools.tree? path)
    {path : String} (opens : Opens tools depth sources path) : Opens other depth sources path := by
  induction depth generalizing sources path with
  | zero => exact opens
  | succ depth ih =>
    obtain ⟨fresh, nodes, tree, granted⟩ := opens
    refine ⟨fresh, nodes, (agree path fresh).trans tree, fun request asked => ?_⟩
    have grant := granted request asked
    cases request with
    | evaluator source =>
      rw [engine]
      exact grant
    | template target =>
      exact ih (fun path new => agree path fun opened => new (List.mem_append_left _ opened)) grant

/-- **A template that asks for less opens too.** -/
theorem Opens.fewer {other : Tools σ} (engine : other.engine = tools.engine) {depth : Nat}
    {path : String} {nodes fewer : List Markup.Node}
    (agree : ∀ target, target ≠ path → other.tree? target = tools.tree? target)
    (tree : tools.tree? path = some nodes) (otherTree : other.tree? path = some fewer)
    (subset : Request.ofNodes path fewer ⊆ Request.ofNodes path nodes)
    (opens : Opens tools depth [] path) : Opens other depth [] path := by
  cases depth with
  | zero => exact opens
  | succ depth =>
    obtain ⟨fresh, content, isTree, granted⟩ := opens
    rw [tree] at isTree
    cases isTree
    refine ⟨fresh, fewer, otherTree, fun request asked => ?_⟩
    have grant := granted request (subset asked)
    cases request with
    | evaluator source =>
      rw [engine]
      exact grant
    | template target =>
      exact Opens.congr engine (fun path new => agree path fun same => new (by simp [same])) grant

namespace Job

/-- An expression is compiled exactly if the engine knows it. -/
theorem expression_granted (path source : String) :
    Meets (expression tools path source) (KeepsTrees tools)
      (fun _ => ∃ evaluator, tools.engine.compile source = .ok evaluator)
      fun _ => ¬ ∃ evaluator, tools.engine.compile source = .ok evaluator := by
  cases compiled : tools.engine.compile source with
  | ok evaluator =>
    refine (expression_meets (fun fault refused => ?_) fun _ _ _ keeps => keeps).weaken
      (fun _ _ => ⟨evaluator, rfl⟩) fun _ holds => holds
    rw [compiled] at refused
    cases refused
  | error fault =>
    have unknown : ¬ ∃ evaluator : Evaluator σ, .error fault = Except.ok evaluator := by simp
    unfold expression
    rw [compiled]
    exact fun gathered keeps => ⟨keeps, unknown⟩

/-- **Opening a template succeeds exactly if it opens.** -/
theorem file_opens (depth : Nat) (sources : List String) (context : Context) :
    Meets (file tools depth sources context) (KeepsTrees tools)
      (fun _ => Opens tools depth sources context.file)
      fun _ => ¬ Opens tools depth sources context.file := by
  induction depth generalizing sources context with
  | zero => exact fun _ keeps => ⟨keeps, id⟩
  | succ depth ih =>
    have missing : tools.tree? context.file = none →
        ¬ Opens tools (depth + 1) sources context.file := by
      rintro none ⟨-, nodes, tree, -⟩
      rw [none] at tree
      cases tree
    refine file_meets (·.Granted tools.engine (Opens tools depth (sources ++ [context.file])))
      (fun again opens => opens.1 again)
      (fun _ => fetch_tree.weaken (fun _ tree => tree) fun _ => missing)
      (fun _ content tree request asked => ?_)
      fun fresh content tree granted => ⟨fresh, content, tree, granted⟩
    have needed : Opens tools (depth + 1) sources context.file →
        request.Granted tools.engine (Opens tools depth (sources ++ [context.file])) := by
      rintro ⟨-, nodes, isTree, granted⟩
      rw [tree] at isTree
      cases isTree
      exact granted request asked
    cases request with
    | evaluator source =>
      exact (expression_granted context.file source).weaken (fun _ known => known)
        fun _ refused opens => refused (needed opens)
    | template target =>
      intro inner isTarget
      subst isTarget
      exact (ih _ inner).weaken (fun _ opens => opens) fun _ closed opens =>
        closed (needed opens)

/-- **A compile succeeds exactly if its root opens.** -/
theorem compile_opens {depth : Nat} {root : String} :
    (∃ template, (compile tools depth root).1 = .ok template) ↔
      Opens tools depth [] (Address.resolve "" root) := by
  have opening := @file_opens σ tools depth [] (Context.root (Address.resolve "" root))
  obtain ⟨-, outcome⟩ := compile_meets opening start_keepsTrees
  cases result : (compile tools depth root).1 with
  | ok template =>
    rw [result] at outcome
    obtain ⟨-, opens, -⟩ := outcome
    exact ⟨fun _ => opens, fun _ => ⟨template, rfl⟩⟩
  | error reason =>
    rw [result] at outcome
    exact ⟨fun ⟨_, impossible⟩ => (by cases impossible), fun opens => absurd opens outcome⟩

end Job

end Stencil.Assembly
