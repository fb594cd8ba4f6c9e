/-
**Compiles end.**

The running compile is given the number of templates that may be open inside each other. Here is the
same recursion without such a number: it keeps the stack of open templates in its state, looks there
for cycles, and is nowhere defined where it would have no end. Each template that is opened is one of
finitely many that are not open yet, and what is left to do inside it is a part of its nodes. So the
recursion is defined everywhere, and the running compile does what it does.

* `Nesting`: the state, with **every value that the stack has taken**;
* `Tools.descend`: **the compile without a bound on its depth**;
* `EndsLike`: a descent ends as a part of a job does, and leaves the stack as it found it;
* `nodes_endsLike`: so do walks through nodes, if the templates that they include do;
* `file_endsLike`: **opening a template ends** if its depth exceeds the templates that can be loaded
  and are not open;
* `Compiler.compile_terminates`: **every compile ends**, over stacks of different templates, and every
  template that is opened is closed again.
-/

import Mathlib.Data.Finset.Card
import Mathlib.Data.Finset.Dedup
import Mathlib.Data.Finset.SDiff
import Stencil.Proofs.OtherLoader
import Stencil.Store.Memory

namespace Stencil.Assembly

open Markup (Definition Node)
open Script (Step)

variable {σ α β : Type}

/-! ### The stack of open templates -/

/-- **A job under way without a bound on its depth**: what it has gathered, the addresses of the
templates that are open, the outermost first, and every value that this stack has taken, the last one
first. -/
structure Nesting (σ : Type) where
  gathered : Gathered σ
  opened : List String
  history : List (List String)

namespace Nesting

/-- No template is open yet. -/
def start : Nesting σ := ⟨Job.start, [], []⟩

/-- Changes the stack. -/
def setOpened (nesting : Nesting σ) (opened : List String) : Nesting σ :=
  { nesting with opened, history := opened :: nesting.history }

/-- Opens a template. -/
def push (nesting : Nesting σ) (path : String) : Nesting σ :=
  nesting.setOpened (nesting.opened ++ [path])

/-- Closes the innermost template. -/
def pop (nesting : Nesting σ) : Nesting σ :=
  nesting.setOpened nesting.opened.dropLast

end Nesting

/-- **A part of a compile that may have no end.** -/
abbrev Descent (σ : Type) := ExceptT CompileError (StateT (Nesting σ) Option)

namespace Descent

/-- A part of a job that leaves the stack alone. -/
def ofJob (part : Job σ α) : Descent σ α := fun nesting =>
  match part.run nesting.gathered with
  | (.ok value, gathered) => some (.ok value, { nesting with gathered })
  | (.error (.error cause), gathered) => some (.error cause, { nesting with gathered })
  | (.error .tooDeep, _) => none

/-- Compiles an expression of the innermost template. -/
def expression (tools : Tools σ) (source : String) : Descent σ Nat := fun nesting =>
  ofJob (Job.expression tools (nesting.opened.getLast?.getD "") source) nesting

end Descent

open Descent

mutual

/-- **Compiles the template of a context**: it is on the stack while its nodes are compiled, and is
taken off again whether that succeeds or not. -/
def Tools.descendFile (tools : Tools σ) (context : Context) : Descent σ (List Step) := do
  let nesting ← get
  if context.file ∈ nesting.opened then
    throw (.cycle context.file (nesting.opened ++ [context.file]))
  else
    let content ← ofJob (Job.fetch tools context.file)
    fun nesting => do
      let (answer, after) ← tools |>.descendNodes content context (nesting.push context.file)
      some (answer.map Prod.fst, after.pop)
partial_fixpoint

/-- Compiles a node. -/
def Tools.descendNode (tools : Tools σ) : Node → Context → Descent σ (List Step × Context)
  | .text content, context => pure ([.text content], context)
  | .definition definition, context => do
    pure ([], ← tools |>.descendDefinition definition context)
  | .block name body, context => do
    let filling := context.find? name
    let (steps, context) ← tools |>.descendNodes body context
    pure ((filling.map fun found => found.fill steps).getD steps, context)
  | .inclusion file overrides, context => do
    let inner ← tools |>.descendDefinitions overrides
      (context.inside (Address.resolve context.file file))
    pure ([.nested (← tools |>.descendFile inner)], context)
  | .expression source delivery, context => do
    pure ([Job.deliver (← expression tools source) delivery], context)
  | .variable name source, context => do
    pure ([.assign name (← expression tools source)], context)
partial_fixpoint

/-- Compiles nodes one after the other. -/
def Tools.descendNodes (tools : Tools σ) : List Node → Context → Descent σ (List Step × Context)
  | [], context => pure ([], context)
  | first :: rest, context => do
    let (steps, context) ← tools |>.descendNode first context
    let (more, context) ← tools |>.descendNodes rest context
    pure (steps ++ more, context)
partial_fixpoint

/-- Compiles a definition. -/
def Tools.descendDefinition (tools : Tools σ) : Definition → Context → Descent σ Context
  | .mk name mode body, context => do
    let (code, context) ← tools |>.descendNodes body context
    pure (context.define name ⟨mode, code⟩)
partial_fixpoint

/-- Compiles definitions one after the other. -/
def Tools.descendDefinitions (tools : Tools σ) : List Definition → Context → Descent σ Context
  | [], context => pure context
  | first :: rest, context => do
    let context ← tools |>.descendDefinition first context
    tools |>.descendDefinitions rest context
partial_fixpoint

end

/-- **Compiles a root template** with all that it includes. -/
def Tools.descend (tools : Tools σ) (root : String) :
    Option (Except CompileError (Template σ) × Nesting σ) := do
  let (answer, ended) ←
    tools.descendFile (Context.root (Address.resolve "" root)) Nesting.start
  some (answer.map fun steps => Template.assemble steps ended.gathered.table, ended)

/-! ### A descent that ends -/

/-- **A stack over the templates that were open before**: the ones above them are known, different,
and none of them was open. -/
def Above (known opened stack : List String) : Prop :=
  ∃ more, stack = opened ++ more ∧ more ⊆ known ∧ more.Nodup ∧ opened.Disjoint more

theorem Above.refl (known opened : List String) : Above known opened opened :=
  ⟨[], (List.append_nil opened).symm, List.nil_subset known, List.nodup_nil,
    List.disjoint_nil_right opened⟩

/-- A stack above one more template. -/
theorem Above.of_push {known opened stack : List String} {path : String}
    (above : Above known (opened ++ [path]) stack) (isKnown : path ∈ known)
    (new : path ∉ opened) : Above known opened stack := by
  obtain ⟨more, rfl, inside, distinct, apart⟩ := above
  obtain ⟨apartBefore, apartHere⟩ := List.disjoint_append_left.mp apart
  refine ⟨path :: more, List.append_assoc opened [path] more, List.cons_subset.mpr ⟨isKnown, inside⟩,
    List.nodup_cons.mpr ⟨List.singleton_disjoint.mp apartHere, distinct⟩, ?_⟩
  exact List.disjoint_cons_right.mpr ⟨new, apartBefore⟩

/-- **A descent ends as a part of a job does**, from any state in which these templates are open: it
gives the same, gathers the same, and leaves the stack as it found it. -/
def EndsLike (known opened : List String) (part : Job σ α) (descent : Descent σ α) : Prop :=
  ∀ gathered history, Job.KeepsKnown known gathered → ∃ answer after more,
    part.run gathered = (answer.mapError .error, after) ∧ Job.KeepsKnown known after ∧
      (∀ stack ∈ more, Above known opened stack) ∧
      descent ⟨gathered, opened, history⟩ = some (answer, ⟨after, opened, more ++ history⟩)

section Rules

variable {known opened : List String}

theorem EndsLike.pure (value : α) :
    EndsLike known opened (pure value : Job σ α) (pure value) :=
  fun gathered _ keeps => ⟨.ok value, gathered, [], rfl, keeps, List.forall_mem_nil _, rfl⟩

theorem EndsLike.bind {part : Job σ α} {next : α → Job σ β} {descent : Descent σ α}
    {further : α → Descent σ β} (first : EndsLike known opened part descent)
    (second : ∀ value before after, Job.KeepsKnown known before →
      part.run before = (.ok value, after) → EndsLike known opened (next value) (further value)) :
    EndsLike known opened (part >>= next) (descent >>= further) := by
  intro gathered history keeps
  obtain ⟨answer, middle, more, ran, keepsMiddle, above, ended⟩ := first gathered history keeps
  have sequence : (descent >>= further) ⟨gathered, opened, history⟩ =
      match answer with
      | .ok value => further value ⟨middle, opened, more ++ history⟩
      | .error cause => some (.error cause, ⟨middle, opened, more ++ history⟩) := by
    show (ExceptT.bind descent further).run _ = _
    simp only [ExceptT.bind, ExceptT.run, ExceptT.mk, Bind.bind, StateT.bind, ended]
    cases answer <;> rfl
  rw [run_bind, ran, sequence]
  cases answer with
  | error cause => exact ⟨.error cause, middle, more, rfl, keepsMiddle, above, rfl⟩
  | ok value =>
    obtain ⟨last, after, others, ranNext, keepsAfter, aboveNext, endedNext⟩ :=
      second value gathered middle keeps ran middle (more ++ history) keepsMiddle
    refine ⟨last, after, others ++ more, ranNext, keepsAfter, ?_, ?_⟩
    · exact List.forall_mem_append.mpr ⟨aboveNext, above⟩
    · rw [List.append_assoc]
      exact endedNext

/-- A part of a job that keeps to what is known and is not stopped by its depth. -/
theorem EndsLike.ofJob {part : Job σ α} {result : α → Prop}
    (meets : Job.Meets part (Job.KeepsKnown known) result (· ≠ .tooDeep)) :
    EndsLike known opened part (ofJob part) := by
  intro gathered history keeps
  obtain ⟨keepsAfter, answer⟩ := meets gathered keeps
  cases ran : part.run gathered with
  | mk outcome after =>
    rw [ran] at keepsAfter answer
    rcases outcome with (cause | _) | value
    · exact ⟨.error cause, after, [], rfl, keepsAfter, List.forall_mem_nil _,
        by simp only [Descent.ofJob, ran]; rfl⟩
    · exact absurd rfl answer
    · exact ⟨.ok value, after, [], rfl, keepsAfter, List.forall_mem_nil _,
        by simp only [Descent.ofJob, ran]; rfl⟩

theorem EndsLike.throw (cause : CompileError) :
    EndsLike known opened (Job.fail cause : Job σ α) (throw cause) :=
  fun gathered _ keeps => ⟨.error cause, gathered, [], rfl, keeps, List.forall_mem_nil _, rfl⟩

/-- A descent that looks at the stack. -/
theorem EndsLike.get {part : Job σ α} {further : Nesting σ → Descent σ α}
    (same : ∀ nesting : Nesting σ, nesting.opened = opened →
      EndsLike known opened part (further nesting)) :
    EndsLike known opened part (get >>= further) :=
  fun gathered history keeps => same ⟨gathered, opened, history⟩ rfl gathered history keeps

/-- **A template is taken off the stack again**, whether its nodes are compiled or not. -/
theorem EndsLike.within {path : String} {part : Job σ (α × β)} {descent : Descent σ (α × β)}
    (new : path ∉ opened) (isKnown : path ∈ known)
    (walks : EndsLike known (opened ++ [path]) part descent) :
    EndsLike known opened (part >>= fun result => Pure.pure result.1) (fun nesting => do
      let (answer, after) ← descent (nesting.push path)
      some (answer.map Prod.fst, after.pop)) := by
  intro gathered history keeps
  obtain ⟨answer, after, more, ran, keepsAfter, above, ended⟩ :=
    walks gathered ((opened ++ [path]) :: history) keeps
  refine ⟨answer.map Prod.fst, after, opened :: more ++ [opened ++ [path]], ?_, keepsAfter, ?_, ?_⟩
  · rw [run_bind, ran]
    cases answer <;> rfl
  · have first : Above known opened (opened ++ [path]) :=
      (Above.refl known (opened ++ [path])).of_push isKnown new
    intro stack member
    rcases List.mem_append.mp member with member | last
    · rcases List.mem_cons.mp member with rfl | member
      · exact Above.refl known stack
      · exact (above stack member).of_push isKnown new
    · rw [List.mem_singleton.mp last]
      exact first
  · have closed : (opened ++ [path]).dropLast = opened := List.dropLast_concat
    show ((descent ⟨gathered, opened ++ [path], (opened ++ [path]) :: history⟩).bind _) = _
    rw [ended]
    simp [Nesting.pop, Nesting.setOpened, closed]

end Rules

/-! ### Walking -/

section Walks

variable {tools : Tools σ} {known opened : List String} {path : String}
variable {visit : Context → Job σ (List Step)}

/-- Compiling an expression of the innermost template. -/
theorem expression_endsLike (here : opened.getLast?.getD "" = path) (source : String) :
    EndsLike known opened (Job.expression tools path source) (expression tools source) := by
  intro gathered history keeps
  have ends : EndsLike known opened (Job.expression tools path source)
      (ofJob (Job.expression tools path source)) :=
    EndsLike.ofJob (Job.expression_meets (fun _ _ => Job.error_ne_tooDeep _)
      fun _ _ _ keeps => keeps)
  subst here
  exact ends gathered history keeps

mutual

theorem node_endsLike (here : opened.getLast?.getD "" = path)
    (visits : ∀ inner, EndsLike known opened (visit inner) (tools.descendFile inner)) (node : Node)
    (context : Context) :
    EndsLike known opened (Job.node tools path visit node context)
      (tools.descendNode node context) := by
  cases node with
  | text content =>
    rw [Job.node, Tools.descendNode]
    exact EndsLike.pure _
  | definition definition =>
    rw [Job.node, Tools.descendNode]
    exact (define_endsLike here visits definition context).bind fun _ _ _ _ _ => EndsLike.pure _
  | block name body =>
    rw [Job.node, Tools.descendNode]
    exact (nodes_endsLike here visits body context).bind fun _ _ _ _ _ => EndsLike.pure _
  | inclusion file overrides =>
    rw [Job.node, Tools.descendNode]
    exact (defineAll_endsLike here visits overrides _).bind fun inner _ _ _ _ =>
      (visits inner).bind fun _ _ _ _ _ => EndsLike.pure _
  | expression source delivery =>
    rw [Job.node, Tools.descendNode]
    exact (expression_endsLike here source).bind fun _ _ _ _ _ => EndsLike.pure _
  | «variable» name source =>
    rw [Job.node, Tools.descendNode]
    exact (expression_endsLike here source).bind fun _ _ _ _ _ => EndsLike.pure _

/-- **Going through nodes ends** if the templates that they include do. -/
theorem nodes_endsLike (here : opened.getLast?.getD "" = path)
    (visits : ∀ inner, EndsLike known opened (visit inner) (tools.descendFile inner))
    (nodes : List Node) (context : Context) :
    EndsLike known opened (Job.nodes tools path visit nodes context)
      (tools.descendNodes nodes context) := by
  cases nodes with
  | nil =>
    rw [Job.nodes, Tools.descendNodes]
    exact EndsLike.pure _
  | cons first rest =>
    rw [Job.nodes, Tools.descendNodes]
    exact (node_endsLike here visits first context).bind fun before _ _ _ _ =>
      (nodes_endsLike here visits rest before.2).bind fun _ _ _ _ _ => EndsLike.pure _

theorem define_endsLike (here : opened.getLast?.getD "" = path)
    (visits : ∀ inner, EndsLike known opened (visit inner) (tools.descendFile inner))
    (definition : Definition) (context : Context) :
    EndsLike known opened (Job.define tools path visit definition context)
      (tools.descendDefinition definition context) := by
  cases definition with
  | mk name mode body =>
    rw [Job.define, Tools.descendDefinition]
    exact (nodes_endsLike here visits body context).bind fun _ _ _ _ _ => EndsLike.pure _

theorem defineAll_endsLike (here : opened.getLast?.getD "" = path)
    (visits : ∀ inner, EndsLike known opened (visit inner) (tools.descendFile inner))
    (definitions : List Definition) (context : Context) :
    EndsLike known opened (Job.defineAll tools path visit definitions context)
      (tools.descendDefinitions definitions context) := by
  cases definitions with
  | nil =>
    rw [Job.defineAll, Tools.descendDefinitions]
    exact EndsLike.pure _
  | cons first rest =>
    rw [Job.defineAll, Tools.descendDefinitions]
    exact (define_endsLike here visits first context).bind fun after _ _ _ _ =>
      defineAll_endsLike here visits rest after

end

end Walks

/-! ### Opening templates -/

/-- The known templates that are not open. -/
def unopened (known opened : List String) : Finset String :=
  known.toFinset \ opened.toFinset

/-- **A known template that is opened** is one less that is left. -/
theorem card_unopened_push {known opened : List String} {path : String} (isKnown : path ∈ known)
    (new : path ∉ opened) :
    (unopened known (opened ++ [path])).card < (unopened known opened).card := by
  refine Finset.card_lt_card (Finset.ssubset_iff_of_subset ?_ |>.mpr ⟨path, ?_, ?_⟩)
  · intro other
    simp only [unopened, Finset.mem_sdiff, List.mem_toFinset, List.mem_append, not_or]
    exact fun member => ⟨member.1, member.2.1⟩
  · simp [unopened, isKnown, new]
  · simp [unopened]

theorem card_unopened_le (known opened : List String) :
    (unopened known opened).card ≤ known.length :=
  (Finset.card_le_card Finset.sdiff_subset).trans (List.toFinset_card_le known)

/-- **Opening a template ends** if its depth exceeds the known templates that are not open. -/
theorem file_endsLike (tools : Tools σ) {known : List String}
    (covers : ∀ path source, tools.load path = .ok source → path ∈ known) {depth : Nat}
    {opened : List String} (room : (unopened known opened).card < depth) (context : Context) :
    EndsLike known opened (Job.file tools depth opened context) (tools.descendFile context) := by
  -- One template more is open in each file that is included, so the bound on the depth and the
  -- templates that are left go down together.
  induction depth generalizing opened context with
  | zero => omega
  | succ depth ih =>
    rw [Job.file, Tools.descendFile]
    refine EndsLike.get ?_
    rintro nesting rfl
    by_cases again : context.file ∈ nesting.opened
    · rw [if_pos again, if_pos again]
      exact EndsLike.throw _
    · rw [if_neg again, if_neg again]
      have fetched := Job.fetch_meets_known covers context.file
      refine (EndsLike.ofJob fetched).bind fun content before after keeps ran => ?_
      have isKnown : context.file ∈ known := by
        have answer := (fetched before keeps).2
        rw [ran] at answer
        exact answer
      refine EndsLike.within again isKnown (nodes_endsLike ?_ (fun inner => ?_) content context)
      · rw [List.getLast?_concat]
        rfl
      · have less := card_unopened_push isKnown again
        exact ih (by omega) inner

/-- **A compile without a bound does what one with room enough does**, over stacks of different
templates that are known. -/
theorem Tools.descend_eq_compile (tools : Tools σ) {known : List String}
    (covers : ∀ path source, tools.load path = .ok source → path ∈ known) {depth : Nat}
    (room : known.length < depth) (root : String) :
    ∃ answer ended, tools.descend root = some (answer, ended) ∧
      Job.compile tools depth root = (answer.mapError .error, ended.gathered) ∧
      ended.opened = [] ∧ ∀ opened ∈ ended.history, opened.Nodup ∧ opened ⊆ known := by
  have nothingKept : Job.KeepsKnown known (Job.start : Gathered σ) := by
    rintro _ _ ⟨⟩
  obtain ⟨answer, after, more, ran, -, above, ended⟩ :=
    file_endsLike tools covers ((card_unopened_le known []).trans_lt room)
      (Context.root (Address.resolve "" root)) Job.start [] nothingKept
  rw [List.append_nil] at ended
  refine ⟨answer.map fun steps => Template.assemble steps after.table, ⟨after, [], more⟩, ?_, ?_,
    rfl, fun opened member => ?_⟩
  · rw [Tools.descend, Nesting.start, ended]
    rfl
  · rw [Job.compile_run, ran]
    cases answer <;> rfl
  · obtain ⟨all, rfl, inside, distinct, -⟩ := above opened member
    exact ⟨distinct, inside⟩

/-- What can be loaded, and the templates whose nodes are kept. -/
theorem keepsKnown_append (names : List String) (gathered : Gathered σ) :
    Job.KeepsKnown (names ++ gathered.parsed.names) gathered := fun _ _ found =>
  List.mem_append_right names (List.mem_map.mpr ⟨_, Assoc.mem_of_find? found, rfl⟩)

/-- **Opening a template ends from any state**, and leaves the stack as it found it. -/
theorem Tools.descendFile_ends (tools : Tools σ) {names : List String}
    (covers : ∀ path source, tools.load path = .ok source → path ∈ names) (context : Context)
    (before : Nesting σ) :
    ∃ answer after, tools.descendFile context before = some (answer, after) ∧
      after.opened = before.opened := by
  -- templates whose nodes are kept already may be opened too, whether they can be loaded or not
  obtain ⟨answer, after, more, -, -, -, ended⟩ :=
    file_endsLike tools
      (fun path source loaded => List.mem_append_left before.gathered.parsed.names
        (covers path source loaded))
      (Nat.lt_succ_self (unopened _ before.opened).card) context before.gathered before.history
      (keepsKnown_append names before.gathered)
  exact ⟨answer, _, ended, rfl⟩

/-- **Every compile ends** in a template or an error. While templates are open, the stack holds
different addresses of the memory that they are loaded from, so they nest at most as deep as there are
templates; and opening a template leaves the stack as it found it, from whatever state. -/
theorem Compiler.compile_terminates (compiler : Compiler σ) (memory : Store.Memory) (root : String) :
    let served := { compiler with loader := memory.loader }
    (∃ answer ended, served.tools.descend root = some (answer, ended) ∧
      (served.compile root).result = answer.mapError .error ∧
      (served.compile root).events = ended.gathered.events.toList ∧ ended.opened = [] ∧
      ∀ opened ∈ ended.history, opened.Nodup ∧ opened ⊆ memory.sources.names ∧
        opened.length ≤ memory.sources.length) ∧
    ∀ context before, ∃ answer after,
      served.tools.descendFile context before = some (answer, after) ∧
        after.opened = before.opened := by
  intro served
  have covers : ∀ path source, served.tools.load path = .ok source → path ∈ memory.sources.names :=
    fun _ _ loaded => Store.Memory.mem_names_of_load loaded
  have size : memory.sources.names.length = memory.sources.length := List.length_map Prod.fst
  refine ⟨?_, served.tools.descendFile_ends covers⟩
  obtain ⟨answer, ended, descends, same, closed, proper⟩ :=
    served.tools.descend_eq_compile covers (Nat.lt_succ_of_le size.le) root
  refine ⟨answer, ended, descends, congrArg Prod.fst same,
    congrArg (fun report => report.2.events.toList) same, closed, fun opened member => ?_⟩
  obtain ⟨distinct, inside⟩ := proper opened member
  exact ⟨distinct, inside, size ▸ distinct.length_le_of_subset inside⟩

end Stencil.Assembly
