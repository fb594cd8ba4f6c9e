/-
**Compiles with loaders that only differ in why they fail.**

Where a loader has nothing at an address, another one may say that something is there that is no text.
Two compiles with such loaders go the same way: up to the load that fails they ask the same and gather
the same, and behind it there is nothing. Only confined addresses are ever loaded, so no others
matter.

How many templates may be open inside each other is another difference between loaders, since it is
taken from the number of their addresses. Open templates are different, and each but the last has a
source. So there is room enough if more may be open than there are sources.

* `Accords`: **a part of a job does what another one does**, up to the wording of a load that fails;
* `compile_accords`: a compile with the other loader does what the first one does;
* `compile_roomy`: **a compile with room for one template more than there are sources** never stops as
  templates include each other too deeply;
* `Compiler.compile_accords`: **a compiler with the other loader compiles the same**.
-/

import Mathlib.Data.List.Nodup
import Stencil.Assembly.Compiler
import Stencil.Proofs.Confinement
import Stencil.Proofs.Uncached

namespace Stencil.Assembly

open Markup (Node)
open Script (Step)

variable {σ α β : Type}

/-! ### Answers -/

/-- **Two loads at an address accord**: the second one gives what the first one gives, or where the
first one finds nothing the second one finds no text. -/
def LoadsAccord (path : String) (first second : Except Store.LoadError String) : Prop :=
  second = first ∨
    first = .error (.notFound path) ∧ second = .error (.unreadable path)

/-- **Two answers of jobs accord**: the second one is the first one, or both stop at the same address,
where the first one finds nothing and the second one no text. -/
def AnswersAccord (first second : Except Stop α) : Prop :=
  second = first ∨ ∃ path, first = .error (.error (.load path (.notFound path))) ∧
    second = .error (.error (.load path (.unreadable path)))

theorem AnswersAccord.map {first second : Except Stop α} (accord : AnswersAccord first second)
    (put : α → β) : AnswersAccord (first.map put) (second.map put) := by
  rcases accord with rfl | ⟨path, rfl, rfl⟩
  · exact Or.inl rfl
  · exact Or.inr ⟨path, rfl, rfl⟩

namespace Job

/-! ### Two jobs that accord -/

/-- **A part of a job does what another one does**: unless the first one stops as too many templates
are open, both have gathered the same in the end, and their answers accord. -/
def Accords (first second : Job σ α) : Prop :=
  ∀ gathered, (first.run gathered).1 ≠ .error .tooDeep →
    (second.run gathered).2 = (first.run gathered).2 ∧
      AnswersAccord (first.run gathered).1 (second.run gathered).1

theorem Accords.refl (part : Job σ α) : Accords part part :=
  fun _ _ => ⟨rfl, Or.inl rfl⟩

/-- **Sequences accord** if their parts do. -/
theorem Accords.bind {first second : Job σ α} {next later : α → Job σ β}
    (leading : Accords first second)
    (following : ∀ value before after, first.run before = (.ok value, after) →
      Accords (next value) (later value)) : Accords (first >>= next) (second >>= later) := by
  intro gathered fits
  rw [run_bind] at fits
  rw [run_bind, run_bind]
  have begun := leading gathered
  cases ran : first.run gathered with
  | mk answer middle =>
    cases ranOther : second.run gathered with
    | mk other between =>
      rw [ran, ranOther] at begun
      rw [ran] at fits
      cases answer with
      | error reason =>
        obtain ⟨same, accord⟩ := begun fun deep => fits (congrArg _ (Except.error.inj deep))
        rcases accord with isSame | ⟨path, isFirst, isSecond⟩
        · cases isSame
          exact ⟨same, Or.inl rfl⟩
        · cases isFirst
          cases isSecond
          exact ⟨same, Or.inr ⟨path, rfl, rfl⟩⟩
      | ok value =>
        obtain ⟨same, accord⟩ := begun fun impossible => by cases impossible
        rcases accord with isSame | ⟨path, impossible, -⟩
        · cases isSame
          cases same
          exact following value gathered middle ran middle fits
        · cases impossible

/-- Doing the same up to a load that fails is a relation that sequences keep. -/
theorem Accords.sequential : Sequential (σ := σ) Accords :=
  ⟨Accords.refl _, Accords.refl _, Accords.bind⟩

/-- **Fetching accords** if loading does. -/
theorem fetch_accords {tools : Tools σ} {load : String → Except Store.LoadError String}
    {path : String} (accord : LoadsAccord path (tools.load path) (load path)) :
    Accords (fetch tools path) (fetch { tools with load } path) := by
  intro gathered _
  cases known : gathered.parsed.find? path with
  | some nodes =>
    rw [fetch_known known, fetch_known known]
    exact ⟨rfl, Or.inl rfl⟩
  | none =>
    rw [fetch_new known, fetch_new known, run_bind, run_bind, fetchAfresh_run, fetchAfresh_run]
    rcases accord with same | ⟨nothing, noText⟩
    · rw [show ({ tools with load } : Tools σ).load path = tools.load path from same]
      exact ⟨rfl, Or.inl rfl⟩
    · rw [nothing, show ({ tools with load } : Tools σ).load path = _ from noText]
      exact ⟨rfl, Or.inr ⟨path, rfl, rfl⟩⟩

/-- **A compile with the other loader does what the first one does**, if the loaders accord at confined
addresses: it asks for the same and has the same result, or both fail at the same address. Also more
templates may be open, unless the first compile was stopped because they were too many. -/
theorem compile_accords (tools : Tools σ) {load : String → Except Store.LoadError String}
    (accord : ∀ path, Confined path → LoadsAccord path (tools.load path) (load path))
    {depth more : Nat} (room : depth ≤ more) {root : String}
    (fits : (compile tools depth root).1 ≠ .error .tooDeep) :
    (compile { tools with load } more root).2 = (compile tools depth root).2 ∧
      AnswersAccord (compile tools depth root).1 (compile { tools with load } more root).1 := by
  have files : Accords (file tools depth [] (Context.root (Address.resolve "" root)))
      (file { tools with load } more [] (Context.root (Address.resolve "" root))) := by
    refine Accords.sequential.file (fun _ nodes _ => Request.confined_of_ofNodes nodes)
      (fun path confined => fetch_accords (accord path confined))
      (fun path source => Accords.refl (expression tools path source)) room (Or.inr ?_) [] _
      (Address.resolve_leadsDown "" root)
    intro second gathered deep
    exact absurd rfl deep
  have ends : ((file tools depth [] (Context.root (Address.resolve "" root))).run start).1 ≠
      .error .tooDeep := fun deep => fits (congrArg (Except.map _) deep)
  obtain ⟨same, answers⟩ := files start ends
  refine ⟨same, ?_⟩
  rw [compile_run, compile_run, same]
  exact answers.map _

/-! ### Room enough -/

/-- The nodes that a job keeps are those of known templates. -/
def KeepsKnown (known : List String) (gathered : Gathered σ) : Prop :=
  ∀ path nodes, gathered.parsed.find? path = some nodes → path ∈ known

theorem error_ne_tooDeep (cause : CompileError) : Stop.error cause ≠ .tooDeep := by
  rintro ⟨⟩

/-- **A template that is fetched is known** if all that can be loaded is. -/
theorem fetch_meets_known {tools : Tools σ} {known : List String}
    (covers : ∀ path source, tools.load path = .ok source → path ∈ known) (path : String) :
    Meets (fetch tools path) (KeepsKnown known) (fun _ => path ∈ known) (· ≠ .tooDeep) := by
  refine fetch_meets (fun _ keeps nodes found => keeps _ nodes found) (fun _ keeps => keeps)
    (fun _ _ => error_ne_tooDeep _) (fun _ _ _ keeps => keeps)
    (fun _ _ _ _ => error_ne_tooDeep _) fun source nodes loaded _ => ?_
  have isKnown := covers _ source loaded
  refine ⟨isKnown, fun gathered keeps other content found => ?_⟩
  rw [Assoc.find?_insert] at found
  by_cases here : path = other
  · exact here ▸ isKnown
  · rw [if_neg here] at found
    exact keeps other content found

/-- **Opening a template never fails for lack of room** if all that can be loaded is known, the open
templates are different and of those that are known, and more may be open than there are. -/
theorem file_roomy (tools : Tools σ) {known : List String}
    (covers : ∀ path source, tools.load path = .ok source → path ∈ known) {depth : Nat}
    {sources : List String} (distinct : sources.Nodup) (inside : sources ⊆ known)
    (room : known.length < depth + sources.length) (context : Context) :
    Meets (file tools depth sources context) (KeepsKnown known) (fun _ => True) (· ≠ .tooDeep) := by
  induction depth generalizing sources context with
  | zero =>
    have fits : sources.length ≤ known.length := distinct.length_le_of_subset inside
    omega
  | succ depth ih =>
    refine file_meets (fun _ => True) (fun _ => error_ne_tooDeep _)
      (fun _ => fetch_meets_known covers context.file)
      (fun new content isKnown request _ => ?_) fun _ _ _ _ => trivial
    have distinctNext : (sources ++ [context.file]).Nodup :=
      List.concat_eq_append ▸ distinct.concat new
    have insideNext : sources ++ [context.file] ⊆ known :=
      List.append_subset.mpr ⟨inside, List.cons_subset.mpr ⟨isKnown, List.nil_subset _⟩⟩
    have roomNext : known.length < depth + (sources ++ [context.file]).length := by
      rw [List.length_append, List.length_singleton]
      omega
    cases request with
    | evaluator source =>
      exact expression_meets (fun _ _ => error_ne_tooDeep _) fun _ _ _ keeps => keeps
    | template target => exact fun inner _ => ih distinctNext insideNext roomNext inner

/-- **A compile with room for one template more than there are sources** never stops as templates
include each other too deeply. -/
theorem compile_roomy (tools : Tools σ) {known : List String}
    (covers : ∀ path source, tools.load path = .ok source → path ∈ known) {depth : Nat}
    (room : known.length < depth) (root : String) :
    (compile tools depth root).1 ≠ .error .tooDeep := by
  have nothingKept : KeepsKnown known (start : Gathered σ) := by
    rintro path nodes ⟨⟩
  obtain ⟨-, answer⟩ := compile_meets
    (file_roomy tools covers List.nodup_nil (List.nil_subset known) room
      (Context.root (Address.resolve "" root))) nothingKept
  intro deep
  rw [deep] at answer
  exact answer rfl

end Job

/-! ### Compilers -/

/-- **A loader has a right size** if no more addresses can be loaded than it says. -/
def RightSize (loader : Store.Loader) : Prop :=
  ∃ known : List String, known.length ≤ loader.size ∧
    ∀ path source, loader.load path = .ok source → path ∈ known

/-- **A compiler with another loader compiles what it compiles with the first one**, if the loaders
accord at confined addresses and the first one has a right size, and the second one no smaller one. -/
theorem Compiler.compile_accords (compiler : Compiler σ) {first second : Store.Loader}
    (accord : ∀ path, Confined path → LoadsAccord path (first.load path) (second.load path))
    (right : RightSize first) (larger : first.size ≤ second.size) (root : String) :
    let one := { compiler with loader := first }.compile root
    let other := { compiler with loader := second }.compile root
    other.events = one.events ∧ one.result ≠ .error .tooDeep ∧
      AnswersAccord one.result other.result := by
  intro one other
  obtain ⟨known, few, covers⟩ := right
  have fits : (Job.compile ⟨first.load, compiler.parse, compiler.engine⟩ (first.size + 1) root).1 ≠
      .error .tooDeep :=
    Job.compile_roomy _ covers (Nat.lt_succ_of_le few) root
  obtain ⟨same, answers⟩ := Job.compile_accords _ accord (Nat.succ_le_succ larger) fits
  exact ⟨congrArg (fun gathered => gathered.events.toList) same, fits, answers⟩

end Stencil.Assembly
