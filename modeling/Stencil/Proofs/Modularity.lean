/-
**Includes are modular.**

Where no definition is known, an include without overrides becomes what the included template is on
its own: its steps, with the indices moved behind what the table held, in a scope of their own. With
the standard engine it writes what the included template renders by itself over the bindings that can
be seen where the include is run.

* `Assoc.cover`, `Scope.overlay`: **bindings over others**, and all that can be seen in a scope as one
  object;
* `Embeds`: a part of a run does what a template renders over what can be seen;
* `rootSteps`: the steps of a root, before texts are joined;
* `include_standalone`: **an include has the steps of its template, and does what they do**;
* `include_modular`: so it does what the template renders.
-/

import Stencil.Proofs.NamedBindings
import Stencil.Proofs.ResolvedAddress
import Stencil.Proofs.Shifted
import Stencil.Proofs.TableEntries

namespace Stencil

/-! ### All that can be seen in a scope -/

/-- **Entries over others**: where both know a name, the first count. -/
def Assoc.cover {α : Type} (near far : Assoc α) : Assoc α :=
  near.foldr (fun entry rest => Assoc.insert entry.1 entry.2 rest) far

theorem Assoc.find?_cover {α : Type} (near far : Assoc α) (name : String) :
    (near.cover far).find? name = (near.find? name).or (far.find? name) := by
  induction near with
  | nil => rfl
  | cons entry near ih =>
    rw [cover, List.foldr_cons, find?_insert, find?]
    by_cases same : entry.1 = name
    · rw [if_pos same, if_pos same, Option.some_or]
    · rw [if_neg same, if_neg same]
      exact ih

/-- **All that can be seen in a scope**, as one object: nearer bindings lie over those further out. -/
def Scope.overlay (scope : Scope) : Assoc Value :=
  (scope.own :: scope.around).foldr Assoc.cover scope.given

theorem Scope.find?_overlay (scope : Scope) (name : String) :
    scope.overlay.find? name = scope.get name := by
  unfold overlay get
  induction scope.own :: scope.around with
  | nil => rfl
  | cons layer layers ih =>
    rw [List.foldr_cons, Assoc.find?_cover, ih, List.findSome?_cons]
    cases layer.find? name with
    | none => rfl
    | some value => rfl

variable {σ : Type}

namespace Script

/-! ### A template inside a run -/

/-- **A part of a run does what a template renders** over all that can be seen where it starts: it
writes the output of the template and leaves the rest as it was, or fails with the same error. -/
def Embeds (part : Run σ Unit) (template : Template σ) : Prop :=
  ∀ before : Progress σ,
    match (template.render (.object before.scope.overlay) before.host).1 with
    | .ok output => part.run before = (.ok (), { before with output := before.output ++ output })
    | .error reason => ∃ cause, reason = .evaluation cause ∧ (part.run before).1 = .error cause

/-- **The steps of a template in a scope of their own** do what the template renders, if its
evaluators depend on what they can see alone. -/
theorem inside_embeds {template : Template σ} {known : String → Prop}
    (reads : ReadsTable known template.table) (quiet : QuietTable template.table) :
    Embeds (inside (run template.table template.steps)) template := by
  intro before
  let opened : Progress σ := { before with scope := before.scope.nested }
  obtain ⟨result, ended, added, alone⟩ :=
    (run_undisturbed quiet template.steps).adds (Scope.reading before.scope.overlay) before.host
  -- the names mean the same in the scope that is opened and in the overlay
  have agree : Scope.Agree known opened.scope (Scope.reading before.scope.overlay) :=
    fun name _ => (before.scope.find?_overlay name).symm
  obtain ⟨same, last⟩ := run_heeds reads template.steps opened
    ⟨Scope.reading before.scope.overlay, before.output, before.host⟩ ⟨agree, rfl, rfl⟩
  rw [alone before.output before.host] at same last
  have ran : (inside (run template.table template.steps)).run before =
      (result, ⟨before.scope, before.output ++ added, before.host⟩) := by
    have whole : (inside (run template.table template.steps)).run before =
        (((run template.table template.steps).run opened).1,
          ⟨before.scope, ((run template.table template.steps).run opened).2.output,
            ((run template.table template.steps).run opened).2.host⟩) := rfl
    rw [whole, same, last.output, last.host]
  have rendered : (template.render (.object before.scope.overlay) before.host).1 =
      (result.map fun _ => added).mapError RenderError.evaluation := by
    have inScope : template.renderIn (Scope.reading before.scope.overlay) before.host =
        (result.map fun _ => added, before.host) := by
      rw [Assembly.renderIn_run, alone "" before.host, String.empty_append]
    unfold Template.render
    dsimp only
    rw [inScope]
  rw [rendered]
  cases result with
  | ok done => exact ran
  | error cause => exact ⟨cause, rfl, congrArg Prod.fst ran⟩

end Script

namespace Assembly.Job

open Script (Embeds Step renumber)

variable {tools : Tools σ} {depth : Nat} {root : String} {template : Template σ}

/-! ### Included templates and roots -/

/-- **The steps of a root template** with all that it includes, before texts are joined. -/
def rootSteps (tools : Tools σ) (depth : Nat) (root : String) : Except Stop (List Step) :=
  ((file tools depth [] (Context.root (Address.resolve "" root))).run start).1

/-- **An include has the steps of its template, and does what they do.** If an include without
overrides is compiled where no definition is known, then its template compiles as a root too. The body
of the include are the steps of this root, each index moved behind what the table held; and the body
does what these steps do over the table of the root. This holds with every engine. -/
theorem include_standalone (compiled : (compile tools depth root).1 = .ok template)
    {moment : Moment σ} (come : moment ∈ moments tools depth root) {file : String}
    (includes : moment.node = .inclusion file [])
    (bare : ∀ name, moment.context.find? name = none) :
    ∃ own part,
      rootSteps tools depth (Address.resolve moment.context.file file) = .ok own ∧
      (compile tools depth (Address.resolve moment.context.file file)).1 = .ok part ∧
      part.steps = Script.coalesce own ∧
      moment.answer =
        .ok ([.nested (renumber (moment.before.table.size + ·) own)], moment.context) ∧
      Script.run template.table (renumber (moment.before.table.size + ·) own) =
        Script.run part.table own := by
  obtain ⟨steps, ended, -, rfl, passed, -⟩ := compile_passed compiled
  have genuine := passed.genuine moment come
  obtain ⟨room, sources, result, bounded, answer, ran⟩ := genuine.ran
  rw [includes, Job.node, Job.defineAll] at ran
  obtain ⟨inner, middle, given, visited⟩ := run_bind_ok ran
  cases given
  obtain ⟨body, after, opened, put⟩ := run_bind_ok visited
  cases put
  have ahead : Ahead tools moment.before.table moment.before start :=
    ⟨genuine.keeps, start_keepsTrees, Array.append_empty.symm⟩
  -- a resolved address means itself, so the root is the template that the include opens
  have shifted : (moment.context.inside (Address.resolve moment.context.file file)).Shifted
      moment.before.table.size
      (Context.root (Address.resolve "" (Address.resolve moment.context.file file))) :=
    ⟨(Address.resolve_resolve _ _).symm, bare⟩
  obtain ⟨own, alone, ranAlone, behind, rfl⟩ := file_mirrors tools moment.before.table bounded
    (List.nil_subset sources) _ _ shifted _ _ _ _ ahead opened
  have partCompiled : (compile tools depth (Address.resolve moment.context.file file)).1 =
      .ok (Template.assemble own alone.table) := by
    unfold compile
    rw [ranAlone]
    rfl
  refine ⟨own, _, congrArg Prod.fst ranAlone, partCompiled, rfl, answer, ?_⟩
  obtain ⟨stepsAlone, endedAlone, ranAgain, -, passedAlone, refers⟩ := compile_passed partCompiled
  rw [ranAlone] at ranAgain
  cases ranAgain
  refine Script.run_renumber own ((bounded_of_made passedAlone refers).mono fun _ index below => ?_)
  have stands := Array.getElem?_eq_getElem below
  refine ⟨alone.table[index], stands, stands_later genuine.stands ?_⟩
  rw [behind.table, Array.getElem?_append_right (Nat.le_add_right _ _), Nat.add_sub_cancel_left,
    stands]

/-- **Includes are modular.** If an include without overrides is compiled where no definition is known,
then its template compiles as a root too, and the body of the include are the steps of this root with
one number added to every index. So with the standard engine the include, run anywhere over the table
of the whole, does what the compiled root renders over the bindings that can be seen there. -/
theorem include_modular (tools : Tools σ) (depth : Nat) (root : String) {template : Template σ}
    (compiled : (compile tools depth root).1 = .ok template) {moment : Moment σ}
    (come : moment ∈ moments tools depth root) {file : String}
    (includes : moment.node = .inclusion file [])
    (bare : ∀ name, moment.context.find? name = none) :
    ∃ offset own part,
      rootSteps tools depth (Address.resolve moment.context.file file) = .ok own ∧
      moment.answer = .ok ([.nested (renumber (offset + ·) own)], moment.context) ∧
      (compile tools depth (Address.resolve moment.context.file file)).1 = .ok part ∧
      part.steps = Script.coalesce own ∧
      (tools.engine = Engine.standard →
        Embeds ((Step.nested (renumber (offset + ·) own)).coalesce.run template.table) part) := by
  obtain ⟨own, part, alone, partCompiled, joined, answer, same⟩ :=
    include_standalone compiled come includes bare
  refine ⟨moment.before.table.size, own, part, alone, answer, partCompiled, joined,
    fun standard => ?_⟩
  obtain ⟨terms, -, -, reads⟩ := compile_terms standard partCompiled
  have embeds := Script.inside_embeds reads (compile_quiet standard partCompiled)
  rwa [Script.run_stepCoalesce, Step.run, same, ← Script.run_coalesce, ← joined]

/-- A page that binds a name, and includes a part that binds it again and includes another. -/
def nameTools : Tools Unit where
  load path := .ok path
  parse source :=
    if source = "page" then .ok [.variable "x" "y", .inclusion "part" [], .expression "x" .raw]
    else if source = "part" then
      .ok [.text "", .expression "x" .raw, .variable "x" "z", .inclusion "end" []]
    else .ok [.expression "x" .escaped, .expression "y" .raw]
  engine := Engine.standard

/-- The page, compiled. -/
def nameTemplate : Template Unit :=
  ⟨[.assign "x" 0,
      .nested [.emit 1 false, .assign "x" 2, .nested [.emit 3 true, .emit 4 false]], .emit 5 false],
    #[Evaluator.ofTerm (.name "y"), Evaluator.ofTerm (.name "x"), Evaluator.ofTerm (.name "z"),
      Evaluator.ofTerm (.name "x"), Evaluator.ofTerm (.name "y"), Evaluator.ofTerm (.name "x")]⟩

/-- The part does in the page what it renders by itself: its indices are one higher there. -/
theorem nameTemplate_modular :
    (compile nameTools 3 "page").1 = .ok nameTemplate ∧
      ∃ moment ∈ moments nameTools 3 "page", moment.node = .inclusion "part" [] ∧
        (∀ name, moment.context.find? name = none) ∧
        ∃ offset own part, rootSteps nameTools 3 (Address.resolve "page" "part") = .ok own ∧
          moment.answer = .ok ([.nested (renumber (offset + ·) own)], moment.context) ∧
          (compile nameTools 3 (Address.resolve "page" "part")).1 = .ok part ∧
          Embeds ((Step.nested (renumber (offset + ·) own)).coalesce.run nameTemplate.table) part := by
  have compiled : (compile nameTools 3 "page").1 = .ok nameTemplate := by with_unfolding_all rfl
  have second : (moments nameTools 3 "page")[1]?.map (fun moment => (moment.node, moment.context)) =
      some (.inclusion "part" [], Context.root "page") := by
    with_unfolding_all rfl
  obtain ⟨moment, isSecond, stands⟩ := Option.map_eq_some_iff.mp second
  obtain ⟨includes, context⟩ := Prod.mk.inj stands
  have come := List.mem_of_getElem? isSecond
  have bare : ∀ name, moment.context.find? name = none := by
    intro name
    rw [context]
    rfl
  obtain ⟨offset, own, part, alone, answer, partCompiled, -, embeds⟩ :=
    include_modular nameTools 3 "page" compiled come includes bare
  rw [context] at alone partCompiled
  exact ⟨compiled, moment, come, includes, bare, offset, own, part, alone, answer, partCompiled,
    embeds rfl⟩

end Assembly.Job

end Stencil
