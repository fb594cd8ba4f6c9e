/-
**A render depends on the bindings that its expressions name.**

An expression reads the names in it and nothing else of its scope. A script reads the names in its
expressions, and what it binds itself is the same in two runs as long as the runs are. So two runs
over scopes that agree on these names do the same to their end, whatever else the scopes hold, and in
whatever way they come by it.

* `Term.names`, `Term.eval_congr`: the names in an expression, and that nothing else is read;
* `Scope.Agree`: scopes in which some names stand for the same;
* `Heeds`: **a part of a run that heeds certain names only**; `run_heeds`: steps do, if their
  evaluators do;
* `render_named`: **bindings that agree on the names in a template render alike**.
-/

import Stencil.Proofs.Moments
import Stencil.Proofs.Rendering

namespace Stencil

variable {σ α β : Type}

/-! ### Names in expressions -/

/-- **The names in an expression**: what it may read in a scope. Fields are not among them. -/
def Formula.Term.names : Formula.Term → List String
  | .literal _ => []
  | .name word => [word]
  | .member target _ => target.names
  | .index target key => target.names ++ key.names
  | .not operand => operand.names
  | .negate operand => operand.names
  | .binary _ left right => left.names ++ right.names
  | .conditional condition positive negative =>
    condition.names ++ (positive.names ++ negative.names)

/-- **Two scopes agree** on names that stand for the same in both, or for nothing. -/
def Scope.Agree (known : String → Prop) (scope other : Scope) : Prop :=
  ∀ name, known name → scope.get name = other.get name

namespace Scope

variable {known : String → Prop} {scope other : Scope}

theorem Agree.set (agree : Agree known scope other) (name : String) (value : Value) :
    Agree known (scope.set name value) (other.set name value) := by
  intro word isKnown
  rw [get_set, get_set, agree word isKnown]

theorem get_nested (scope : Scope) (name : String) : scope.nested.get name = scope.get name := rfl

theorem Agree.nested (agree : Agree known scope other) :
    Agree known scope.nested other.nested := by
  intro name isKnown
  rw [get_nested, get_nested]
  exact agree name isKnown

theorem Agree.mono {fewer : String → Prop} (agree : Agree known scope other)
    (among : ∀ name, fewer name → known name) : Agree fewer scope other :=
  fun name isFewer => agree name (among name isFewer)

end Scope

/-- **An expression reads the names in it** and nothing else of its scope. -/
theorem Formula.Term.eval_congr {scope other : Scope} (term : Term)
    (agree : Scope.Agree (· ∈ term.names) scope other) : term.eval scope = term.eval other := by
  induction term with
  | literal value => rfl
  | name word =>
    have same := agree word List.mem_cons_self
    rw [eval, eval, same]
  | member target field ih =>
    rw [eval, eval, ih agree]
  | index target key ihTarget ihKey =>
    rw [eval, eval, ihTarget (agree.mono fun _ => List.mem_append_left _),
      ihKey (agree.mono fun _ => List.mem_append_right _)]
  | not operand ih =>
    rw [eval, eval, ih agree]
  | negate operand ih =>
    rw [eval, eval, ih agree]
  | binary operator left right ihLeft ihRight =>
    rw [eval, eval, ihLeft (agree.mono fun _ => List.mem_append_left _),
      ihRight (agree.mono fun _ => List.mem_append_right _)]
  | conditional condition positive negative ihCondition ihPositive ihNegative =>
    have branches := agree.mono fun _ => List.mem_append_right condition.names
    rw [eval, eval, ihCondition (agree.mono fun _ => List.mem_append_left _),
      ihPositive (branches.mono fun _ => List.mem_append_left _),
      ihNegative (branches.mono fun _ => List.mem_append_right _)]

/-- **An evaluator that reads certain names only.** -/
def Evaluator.Reads (known : String → Prop) (evaluator : Evaluator σ) : Prop :=
  ∀ scope other, Scope.Agree known scope other → evaluator scope = evaluator other

theorem Evaluator.reads_ofTerm (term : Formula.Term) :
    (Evaluator.ofTerm term : Evaluator σ).Reads (· ∈ term.names) := by
  intro scope other agree
  unfold Evaluator.ofTerm
  rw [term.eval_congr agree]

/-- A table whose evaluators read certain names only. -/
def ReadsTable (known : String → Prop) (table : Array (Evaluator σ)) : Prop :=
  ∀ evaluator ∈ table.toList, evaluator.Reads known

namespace Script

/-! ### Runs that heed names -/

/-- **Two runs that are in step**: their scopes agree on certain names, and they have written the same.
-/
structure Progress.InStep (known : String → Prop) (first second : Progress σ) : Prop where
  scope : Scope.Agree known first.scope second.scope
  output : first.output = second.output
  host : first.host = second.host

/-- **A part of a run that heeds certain names only**: two runs of it that start in step come to the
same answer, in step. -/
def Heeds (known : String → Prop) (part : Run σ α) : Prop :=
  ∀ first second, Progress.InStep known first second →
    (part.run first).1 = (part.run second).1 ∧
      Progress.InStep known (part.run first).2 (part.run second).2

section Rules

variable {known : String → Prop}

theorem Heeds.pure {value : α} : Heeds known (Pure.pure value : Run σ α) :=
  fun _ _ inStep => ⟨rfl, inStep⟩

theorem Heeds.bind {part : Run σ α} {next : α → Run σ β} (first : Heeds known part)
    (second : ∀ value, Heeds known (next value)) : Heeds known (part >>= next) :=
  fun before other inStep => run_bind_related (first before other inStep)
    fun value middle between _ => second value middle between

theorem write_heeds (content : String) : Heeds known (write content : Run σ Unit) :=
  fun _ _ inStep => ⟨rfl, inStep.scope, congrArg (· ++ content) inStep.output, inStep.host⟩

theorem bind_heeds (name : String) (value : Value) : Heeds known (bind name value : Run σ Unit) :=
  fun _ _ inStep => ⟨rfl, inStep.scope.set name value, inStep.output, inStep.host⟩

theorem inside_heeds {part : Run σ Unit} (heeds : Heeds known part) :
    Heeds known (inside part) := by
  intro first second inStep
  obtain ⟨same, ended⟩ := heeds { first with scope := first.scope.nested }
    { second with scope := second.scope.nested } ⟨inStep.scope.nested, inStep.output, inStep.host⟩
  exact ⟨same, inStep.scope, ended.output, ended.host⟩

end Rules

section Steps

variable {known : String → Prop} {table : Array (Evaluator σ)}

theorem evaluate_heeds (reads : ReadsTable known table) (index : Nat) :
    Heeds known (evaluate table index) := by
  rintro ⟨scope, output, host⟩ ⟨other, _, _⟩ ⟨agree, rfl, rfl⟩
  cases found : table[index]? with
  | none =>
    rw [evaluate_missing found, evaluate_missing found]
    exact ⟨rfl, agree, rfl, rfl⟩
  | some evaluator =>
    have same := reads evaluator (Array.mem_of_getElem? found).val scope other agree
    rw [evaluate_stands found, evaluate_stands found, same]
    exact ⟨rfl, agree, rfl, rfl⟩

/-- **Steps heed the names that their evaluators read**, and no others. -/
theorem run_heeds (reads : ReadsTable known table) (steps : List Step) :
    Heeds known (run table steps) :=
  Compositional.run ⟨Heeds.pure, Heeds.bind, write_heeds, bind_heeds, evaluate_heeds reads,
    inside_heeds⟩ steps

end Steps

end Script

namespace Assembly

/-! ### Renders that agree -/

/-- **Bindings that agree on the names that are read render alike**: the same output, or the same
error. -/
theorem render_congr {known : String → Prop} {template : Template σ}
    (reads : ReadsTable known template.table) {first second : Assoc Value}
    (agree : Scope.Agree known (Scope.reading first) (Scope.reading second)) (host : σ) :
    template.render (.object first) host = template.render (.object second) host := by
  obtain ⟨same, ended⟩ := Script.run_heeds reads template.steps
    ⟨Scope.reading first, "", host⟩ ⟨Scope.reading second, "", host⟩ ⟨agree, rfl, rfl⟩
  have alike : template.renderIn (Scope.reading first) host =
      template.renderIn (Scope.reading second) host := by
    rw [renderIn_run, renderIn_run, same, ended.output, ended.host]
  unfold Template.render
  dsimp only
  rw [alike]

namespace Job

/-- The expressions that the standard engine makes of sources. -/
theorem standard_terms {sources : List String} {added : List (Evaluator σ)}
    (compiled : sources.map (Engine.standard : Engine σ).compile = added.map Except.ok) :
    ∃ terms : List Formula.Term, sources.map Formula.Term.parse = terms.map Except.ok ∧
      added = terms.map Evaluator.ofTerm := by
  induction sources generalizing added with
  | nil =>
    have none : added = [] := List.map_eq_nil_iff.mp compiled.symm
    exact ⟨[], rfl, none⟩
  | cons source rest ih =>
    obtain ⟨evaluator, later, rfl, first, others⟩ := List.map_eq_cons_iff.mp compiled.symm
    obtain ⟨terms, parsed, rfl⟩ := ih others.symm
    have whole : (Formula.Term.parse source).map Evaluator.ofTerm = .ok evaluator := first.symm
    cases read : Formula.Term.parse source with
    | error fault =>
      rw [read] at whole
      cases whole
    | ok term =>
      rw [read] at whole
      cases whole
      refine ⟨term :: terms, ?_, rfl⟩
      rw [List.map_cons, read, parsed, List.map_cons]

/-- **The table of a template that is compiled with the standard engine** holds the expressions of its
sources, and reads the names in them. -/
theorem compile_terms {tools : Tools σ} (standard : tools.engine = Engine.standard) {depth : Nat}
    {root : String} {template : Template σ}
    (compiled : (compile tools depth root).1 = .ok template) :
    ∃ terms : List Formula.Term,
      ((moments tools depth root).filterMap Moment.source?).map Formula.Term.parse =
        terms.map Except.ok ∧
      template.table.toList = terms.map Evaluator.ofTerm ∧
      ReadsTable (fun name => ∃ term ∈ terms, name ∈ term.names) template.table := by
  obtain ⟨steps, ended, -, rfl, passed, -⟩ := compile_passed compiled
  obtain ⟨added, whole, -, entries⟩ := passed.entered
  rw [standard] at entries
  obtain ⟨terms, parsed, rfl⟩ := standard_terms entries
  have table : ended.table.toList = terms.map Evaluator.ofTerm := whole
  refine ⟨terms, parsed, table, fun evaluator member scope other agree => ?_⟩
  have among : evaluator ∈ terms.map Evaluator.ofTerm := table ▸ member
  obtain ⟨term, isTerm, rfl⟩ := List.mem_map.mp among
  exact Evaluator.reads_ofTerm term scope other
    (agree.mono fun name isNamed => ⟨term, isTerm, isNamed⟩)

/-- **A render depends on the bindings that its expressions name.** The table of a template that is
compiled with the standard engine holds the expressions of its sources. Bindings in which every name
in these expressions stands for the same, or for nothing, render to the same output or to the same
error. -/
theorem render_named (tools : Tools σ) (standard : tools.engine = Engine.standard) (depth : Nat)
    (root : String) {template : Template σ}
    (compiled : (compile tools depth root).1 = .ok template) :
    ∃ terms : List Formula.Term,
      ((moments tools depth root).filterMap Moment.source?).map Formula.Term.parse =
        terms.map Except.ok ∧
      template.table.toList = terms.map Evaluator.ofTerm ∧
      ∀ first second : Assoc Value,
        (∀ term ∈ terms, ∀ name ∈ term.names, first.find? name = second.find? name) →
        ∀ host, template.render (.object first) host = template.render (.object second) host := by
  obtain ⟨terms, parsed, table, reads⟩ := compile_terms standard compiled
  refine ⟨terms, parsed, table, fun first second same host => ?_⟩
  exact render_congr reads (fun name ⟨term, among, isNamed⟩ => same term among name isNamed) host

/-- A page that writes a name, binds another to it, and includes a part that writes that one. -/
def echoTools : Tools Unit where
  load path := .ok path
  parse source :=
    if source = "page" then
      .ok [.expression "x" .escaped, .variable "y" "x", .inclusion "part" []]
    else .ok [.expression "y" .raw]
  engine := Engine.standard

/-- The page, compiled. -/
def echoTemplate : Template Unit :=
  ⟨[.emit 0 true, .assign "y" 1, .nested [.emit 2 false]],
    #[Evaluator.ofTerm (.name "x"), Evaluator.ofTerm (.name "x"), Evaluator.ofTerm (.name "y")]⟩

/-- What stands under a name that is nowhere in the page does not matter. -/
theorem echoTemplate_named :
    (compile echoTools 2 "page").1 = .ok echoTemplate ∧
      (echoTemplate.render (.object [("x", .text "<"), ("z", .null)]) ()).1 = .ok "&lt;<" ∧
      echoTemplate.render (.object [("x", .text "<"), ("z", .null)]) () =
        echoTemplate.render (.object [("w", .text "&"), ("x", .text "<")]) () := by
  have compiled : (compile echoTools 2 "page").1 = .ok echoTemplate := by with_unfolding_all rfl
  have rendered : (echoTemplate.render (.object [("x", .text "<"), ("z", .null)]) ()).1 =
      .ok "&lt;<" := by
    rfl
  obtain ⟨terms, parsed, -, same⟩ := render_named echoTools rfl 2 "page" compiled
  have read : ((moments echoTools 2 "page").filterMap Moment.source?).map Formula.Term.parse =
      [.ok (.name "x"), .ok (.name "x"), .ok (.name "y")] := by
    decide +kernel
  have known : terms = [.name "x", .name "x", .name "y"] :=
    List.map_injective_iff.mpr (fun _ _ => Except.ok.inj) (parsed.symm.trans read)
  refine ⟨compiled, rendered, same _ _ (fun term among name isNamed => ?_) ()⟩
  -- the names are `x`, bound alike, and `y`, which the bindings leave free
  have either : name = "x" ∨ name = "y" := by
    rw [known] at among
    simp only [List.mem_cons, List.not_mem_nil, or_false] at among
    rcases among with rfl | rfl | rfl <;> simp_all [Formula.Term.names]
  rcases either with rfl | rfl <;> rfl

end Job

end Assembly

end Stencil
