/-
**Cycles of includes are found exactly.**

While a template is open, the templates open around it form a trail: each includes the next, and
none occurs twice. A template that is already on the trail closes a cycle; where a template could be
compiled to its end, nothing that it leads to lies on the trail or includes itself.

* `IsCycle`: **what a reported cycle looks like**;
* `file_outcome`: opening a template at the end of a trail either clears all that it leads to or
  reports a cycle;
* `compile_cycles`: a compile fails exactly if the root leads to a cycle, and reports one.
-/

import Stencil.Proofs.Inclusion
import Mathlib.Data.Finset.Dedup
import Mathlib.Data.List.Chain
import Mathlib.Data.Set.Finite.Basic

namespace Stencil.Assembly

open Relation (ReflTransGen TransGen)

variable {σ : Type} {tools : Tools σ}

/-! ### Trails and cycles -/

/-- **A trail**: the templates that are open around `target`, the outermost first. It starts at
`first`, each template includes the next one, and the open ones are all different. -/
structure Trail (tools : Tools σ) (first : String) (opened : List String) (target : String) : Prop
    where
  starts : (opened ++ [target]).head? = some first
  joined : (opened ++ [target]).IsChain (Includes tools)
  distinct : opened.Nodup

/-- **A reported cycle**: a chain from `first` to `path` along includes, in which nothing but `path`
occurs twice, and that once before the end. -/
structure IsCycle (tools : Tools σ) (first path : String) (chain : List String) : Prop where
  starts : chain.head? = some first
  joined : chain.IsChain (Includes tools)
  ends : chain.getLast? = some path
  distinct : chain.dropLast.Nodup
  once : chain.dropLast.count path = 1

/-- A reason to stop that reports a cycle. -/
def ReportsCycle (tools : Tools σ) (first : String) (reason : Stop) : Prop :=
  ∃ path chain, reason = .error (.cycle path chain) ∧ IsCycle tools first path chain

/-- **Nothing that a template leads to is open or includes itself.** -/
def Clears (tools : Tools σ) (opened : List String) (target : String) : Prop :=
  ∀ path, ReflTransGen (Includes tools) target path →
    path ∉ opened ∧ ¬ TransGen (Includes tools) path path

theorem Trail.root (first : String) : Trail tools first [] first :=
  ⟨rfl, List.isChain_singleton first, List.nodup_nil⟩

/-- A template that is not open yet, and then one that it includes. -/
theorem Trail.snoc {first target next : String} {opened : List String}
    (trail : Trail tools first opened target) (new : target ∉ opened)
    (includes : Includes tools target next) : Trail tools first (opened ++ [target]) next := by
  refine ⟨?_, ?_, ?_⟩
  · rw [List.head?_append, trail.starts]
    rfl
  · rw [List.isChain_append]
    refine ⟨trail.joined, List.isChain_singleton next, fun last isLast head isHead => ?_⟩
    rw [List.getLast?_concat, Option.mem_some_iff] at isLast
    rw [List.head?_singleton, Option.mem_some_iff] at isHead
    subst isLast isHead
    exact includes
  · exact List.nodup_append.mpr ⟨trail.distinct, List.nodup_singleton target,
      fun path before other last => by
        rw [List.mem_singleton] at last
        exact fun same => new (last ▸ same ▸ before)⟩

/-- **A trail that comes back to an open template is a cycle.** -/
theorem Trail.isCycle {first target : String} {opened : List String}
    (trail : Trail tools first opened target) (back : target ∈ opened) :
    IsCycle tools first target (opened ++ [target]) where
  starts := trail.starts
  joined := trail.joined
  ends := List.getLast?_concat
  distinct := by
    rw [List.dropLast_concat]
    exact trail.distinct
  once := by
    rw [List.dropLast_concat]
    exact List.count_eq_one_of_mem trail.distinct back

/-- A chain to its last element, as a way. -/
theorem reflTransGen_of_isChain {first last : String} {middle : List String}
    (starts : (middle ++ [last]).head? = some first)
    (joined : (middle ++ [last]).IsChain (Includes tools)) :
    ReflTransGen (Includes tools) first last := by
  cases middle with
  | nil =>
    cases starts
    exact ReflTransGen.refl
  | cons head middle =>
    cases starts
    exact List.relationReflTransGen_of_exists_isChain_cons (middle ++ [last]) joined
      (by simp)

/-- A chain of at least one step, as a way. -/
theorem transGen_of_isChain {first last : String} {middle : List String}
    (joined : (first :: (middle ++ [last])).IsChain (Includes tools)) :
    TransGen (Includes tools) first last := by
  obtain ⟨step, rest⟩ := List.isChain_cons.mp joined
  cases head : (middle ++ [last]).head? with
  | none => simp at head
  | some next => exact TransGen.head' (step next head) (reflTransGen_of_isChain head rest)

/-- **What is reported is a cycle**, and the start of the chain leads to it. -/
theorem IsCycle.closed {first path : String} {chain : List String}
    (cycle : IsCycle tools first path chain) :
    ReflTransGen (Includes tools) first path ∧ TransGen (Includes tools) path path := by
  obtain ⟨before, rfl⟩ := List.getLast?_eq_some_iff.mp cycle.ends
  have back : path ∈ before := by
    have once := cycle.once
    rw [List.dropLast_concat] at once
    exact List.one_le_count_iff.mp once.ge
  obtain ⟨toPath, around, rfl⟩ := List.append_of_mem back
  have joined := cycle.joined
  rw [List.append_assoc, List.cons_append, List.isChain_split] at joined
  obtain ⟨reaching, closing⟩ := joined
  refine ⟨reflTransGen_of_isChain ?_ reaching, transGen_of_isChain closing⟩
  rw [← cycle.starts]
  cases toPath <;> rfl

/-- **A template clears all that it leads to** if it is not open and each template that it includes
does so while it is. -/
theorem Clears.of_includes {target : String} {opened : List String} (new : target ∉ opened)
    (each : ∀ next, Includes tools target next → Clears tools (opened ++ [target]) next) :
    Clears tools opened target := by
  intro path way
  rcases ReflTransGen.cases_head way with rfl | ⟨next, includes, rest⟩
  · refine ⟨new, fun around => ?_⟩
    obtain ⟨next, includes, back⟩ := TransGen.head'_iff.mp around
    -- the way back would lead to a template that is open then
    exact (each next includes target back).1 (List.mem_append_right _ List.mem_cons_self)
  · obtain ⟨notOpen, noCycle⟩ := each next includes path rest
    exact ⟨fun member => notOpen (List.mem_append_left _ member), noCycle⟩

/-! ### One template after the other -/

namespace Job

/-- **Opening the template at the end of a trail** clears all that it leads to, or reports a cycle.
As the open templates are all different, as many levels are enough as there are templates. -/
theorem file_outcome {first : String} (within : Finset String)
    (closed : ∀ path ∈ within, ∀ next, Includes tools path next → next ∈ within)
    (sound : ∀ path ∈ within, Sound tools path) (depth : Nat) (opened : List String)
    (context : Context) (trail : Trail tools first opened context.file)
    (inside : ∀ path ∈ opened, path ∈ within) (here : context.file ∈ within)
    (room : within.card < depth + opened.length) :
    Meets (file tools depth opened context) (KeepsTrees tools)
      (fun _ => Clears tools opened context.file) (ReportsCycle tools first) := by
  induction depth generalizing opened context with
  | zero =>
    have fits : opened.length ≤ within.card := by
      rw [← List.toFinset_card_of_nodup trail.distinct]
      exact Finset.card_le_card fun path member => inside path (List.mem_toFinset.mp member)
    omega
  | succ depth ih =>
    obtain ⟨nodes, tree, compiles⟩ := sound context.file here
    have fetched : Meets (fetch tools context.file) (KeepsTrees tools)
        (fun content => content = nodes)
        (ReportsCycle tools first) := by
      refine fetch_tree.weaken (fun content found => ?_) fun reason missing => ?_
      · rw [tree] at found
        exact (Option.some.inj found).symm
      · rw [tree] at missing
        cases missing
    -- what is known of a request once it was served: an included template clears what it leads to
    let fact : Request → Prop := fun request => ∀ next, request = .template next →
      Clears tools (opened ++ [context.file]) next
    refine file_meets fact (fun back => ⟨context.file, _, rfl, trail.isCycle back⟩)
      (fun _ => fetched) ?_ ?_
    · rintro new content rfl request asked
      cases request with
      | evaluator source =>
        obtain ⟨evaluator, compiled⟩ := compiles source asked
        refine (expression_meets (fun fault refused => ?_) fun _ _ _ keeps => keeps).weaken
          (fun _ _ next same => ?_) fun _ holds => holds
        · rw [compiled] at refused
          cases refused
        · cases same
      | template target =>
        intro inner isTarget
        subst isTarget
        have includes : Includes tools context.file inner.file := ⟨content, tree, asked⟩
        refine (ih (opened ++ [context.file]) inner (trail.snoc new includes) ?_
          (closed _ here _ includes) ?_).weaken (fun _ clears next same => ?_) fun _ holds => holds
        · intro path member
          rcases List.mem_append.mp member with before | last
          · exact inside path before
          · exact List.mem_singleton.mp last ▸ here
        · rw [List.length_append, List.length_singleton]
          omega
        · cases same
          exact clears
    · rintro new content rfl holds
      refine Clears.of_includes new fun next includes => ?_
      obtain ⟨nodes, isTree, asked⟩ := includes
      rw [tree] at isTree
      cases isTree
      exact holds (.template next) asked next rfl

/-- **Cycles of includes are found exactly.** If a root leads to finitely many templates and each of
them can be compiled on its own, then compiling the root succeeds exactly if no template that it
leads to includes itself, over others or directly; otherwise such a cycle is reported. -/
theorem compile_cycles (tools : Tools σ) (root : String)
    (finite : {path | Reaches tools root path}.Finite)
    (sound : ∀ path, Reaches tools root path → Sound tools path) (depth : Nat)
    (room : finite.toFinset.card < depth) :
    ((∃ template, (compile tools depth root).1 = .ok template) ↔
        ∀ path, Reaches tools root path → ¬ TransGen (Includes tools) path path) ∧
      ∀ reason, (compile tools depth root).1 = .error reason →
        ∃ path chain, reason = .error (.cycle path chain) ∧
          IsCycle tools (Address.resolve "" root) path chain := by
  have reached : ∀ path, path ∈ finite.toFinset ↔ Reaches tools root path :=
    fun path => Set.Finite.mem_toFinset finite
  have closed : ∀ path ∈ finite.toFinset, ∀ next, Includes tools path next →
      next ∈ finite.toFinset := by
    intro path member next includes
    rw [reached] at member ⊢
    exact ReflTransGen.tail member includes
  have rootReached : (Context.root (Address.resolve "" root)).file ∈ finite.toFinset :=
    (reached _).mpr ReflTransGen.refl
  have opening := file_outcome finite.toFinset closed
    (fun path member => sound path ((reached path).mp member)) depth [] _ (Trail.root _) (by simp)
    rootReached (by simpa using room)
  obtain ⟨-, outcome⟩ := compile_meets opening start_keepsTrees
  cases result : (compile tools depth root).1 with
  | ok template =>
    rw [result] at outcome
    obtain ⟨steps, clears, -⟩ := outcome
    refine ⟨⟨fun _ path way => (clears path way).2, fun _ => ⟨template, rfl⟩⟩, ?_⟩
    intro reason failed
    cases failed
  | error reason =>
    rw [result] at outcome
    obtain ⟨path, chain, rfl, cycle⟩ := outcome
    obtain ⟨way, around⟩ := cycle.closed
    refine ⟨⟨fun succeeds => ?_, fun acyclic => absurd around (acyclic path way)⟩, ?_⟩
    · obtain ⟨template, impossible⟩ := succeeds
      cases impossible
    · intro reason same
      cases same
      exact ⟨path, chain, rfl, cycle⟩

/-- Two templates that include each other, one of them in an override, and a third one. -/
def loopTools : Tools Unit where
  load path := .ok path
  parse source :=
    if source = "a/x" then .ok [.block "body" [.inclusion "y" []]]
    else if source = "a/y" then .ok [.inclusion "/z" [.mk "title" .append [.inclusion "a/x" []]]]
    else .ok [.text source]
  engine := Engine.standard

/-- The addresses of these templates. -/
def loopPaths : List String := ["a/x", "a/y", "z"]

theorem loopTools_requests : ∀ path ∈ loopPaths,
    ∃ (nodes : List Markup.Node) (targets : List String), loopTools.tree? path = some nodes ∧
      Request.ofNodes path nodes = targets.map .template ∧
      ∀ next ∈ targets, next ∈ loopPaths := by
  intro path member
  simp only [loopPaths, List.mem_cons, List.not_mem_nil, or_false] at member
  rcases member with rfl | rfl | rfl
  · exact ⟨_, ["a/y"], rfl, by decide, by decide⟩
  · exact ⟨_, ["a/x", "z"], rfl, by decide, by decide⟩
  · exact ⟨_, [], rfl, by decide, by decide⟩

/-- An include in an override of an include that leads back to the template around both is reported,
though the override stands in the third template, which includes nothing. -/
theorem loopTools_cycle :
    (∃ finite : {path | Reaches loopTools "a/x" path}.Finite, finite.toFinset.card < 4) ∧
      (∀ path, Reaches loopTools "a/x" path → Sound loopTools path) ∧
      ((∃ template, (compile loopTools 4 "a/x").1 = .ok template) ↔
        ∀ path, Reaches loopTools "a/x" path → ¬ TransGen (Includes loopTools) path path) ∧
      ∀ reason, (compile loopTools 4 "a/x").1 = .error reason →
        ∃ path chain, reason = .error (.cycle path chain) ∧
          IsCycle loopTools (Address.resolve "" "a/x") path chain := by
  have within : ∀ path, Reaches loopTools "a/x" path → path ∈ loopPaths := by
    intro path way
    induction way with
    | refl => decide
    | tail _ includes inside =>
      obtain ⟨nodes, tree, asked⟩ := includes
      obtain ⟨known, targets, isTree, requests, closed⟩ := loopTools_requests _ inside
      rw [isTree] at tree
      cases tree
      rw [requests] at asked
      obtain ⟨target, member, same⟩ := List.mem_map.mp asked
      cases same
      exact closed _ member
  have finite : {path | Reaches loopTools "a/x" path}.Finite :=
    Set.Finite.subset (List.finite_toSet loopPaths) within
  have few : finite.toFinset.card < 4 := by
    have bound := Finset.card_le_card (t := loopPaths.toFinset) fun path member =>
      List.mem_toFinset.mpr (within path (finite.mem_toFinset.mp member))
    exact Nat.lt_of_le_of_lt bound (by decide)
  have sound : ∀ path, Reaches loopTools "a/x" path → Sound loopTools path := by
    intro path way
    obtain ⟨nodes, targets, isTree, requests, -⟩ := loopTools_requests path (within path way)
    refine ⟨nodes, isTree, fun source asked => ?_⟩
    rw [requests] at asked
    obtain ⟨target, -, same⟩ := List.mem_map.mp asked
    cases same
  exact ⟨⟨finite, few⟩, sound, compile_cycles loopTools "a/x" finite sound 4 few⟩

end Job

end Stencil.Assembly
