/-
**What the table held before only shifts indices.**

A template may be compiled as a part of another, when the table holds expressions already and other
templates are open around it, or as a root. Both jobs go through the same nodes and call the engine
for the same sources; the first gives out its indices behind what the table held. So if the part can
be compiled, then the root can, and the steps of the part are those of the root with this number added
to every index.

* `Ahead`, `Context.Shifted`: the first of two jobs has more at the start of its table, and finds
  definitions with shifted indices;
* `Mirrors`: **where one part of a job gives a value, the other gives one that is like it**, with rules
  for sequences;
* `nodes_mirror`, `file_mirrors`: walks and included templates mirror each other.
-/

import Stencil.Proofs.Moments

namespace Stencil.Assembly

open Markup (Definition Delivery Node)
open Script (Step renumber)

variable {σ α β : Type}

/-! ### Shifted contexts -/

/-- A definition with a number added to the indices in its steps. -/
def Filling.shift (offset : Nat) (filling : Filling) : Filling :=
  { filling with code := renumber (offset + ·) filling.code }

theorem Filling.fill_shift (offset : Nat) (filling : Filling) (body : List Step) :
    (filling.shift offset).fill (renumber (offset + ·) body) =
      renumber (offset + ·) (filling.fill body) := by
  unfold Filling.fill Filling.shift
  cases filling.mode with
  | append => exact (Script.renumber_append _ body filling.code).symm
  | override => rfl
  | prepend => rfl

/-- **The first context finds the definitions of the second with shifted indices**, and includes start
from the same address in both. -/
structure Context.Shifted (offset : Nat) (first second : Context) : Prop where
  file : first.file = second.file
  find : ∀ name, first.find? name = (second.find? name).map (Filling.shift offset)

namespace Context.Shifted

variable {offset : Nat} {first second : Context}

theorem inside (shifted : Shifted offset first second) (file : String) :
    Shifted offset (first.inside file) (second.inside file) :=
  ⟨rfl, shifted.find⟩

theorem define (shifted : Shifted offset first second) (name : String) (filling : Filling) :
    Shifted offset (first.define name (filling.shift offset)) (second.define name filling) := by
  refine ⟨shifted.file, fun other => ?_⟩
  rw [find?_define, find?_define]
  by_cases same : name = other
  · rw [if_pos same, if_pos same]
    rfl
  · rw [if_neg same, if_neg same]
    exact shifted.find other

/-- What a block is filled with is shifted too. -/
theorem block (shifted : Shifted offset first second) (name : String) (body : List Step) :
    (((first.find? name).map fun found => found.fill (renumber (offset + ·) body)).getD
        (renumber (offset + ·) body)) =
      renumber (offset + ·)
        (((second.find? name).map fun found => found.fill body).getD body) := by
  rw [shifted.find]
  cases second.find? name with
  | none => rfl
  | some filling => exact filling.fill_shift offset body

end Context.Shifted

namespace Job

/-! ### Jobs that mirror each other -/

/-- **The first job has more at the start of its table**, and else the same. -/
structure Ahead (tools : Tools σ) (lead : Array (Evaluator σ)) (first second : Gathered σ) : Prop where
  keeps : KeepsTrees tools first
  keepsSecond : KeepsTrees tools second
  table : first.table = lead ++ second.table

/-- **Where the first part of a job gives a value, the second gives one that is like it**; afterwards
the first is ahead of the second as before. -/
def Mirrors (tools : Tools σ) (lead : Array (Evaluator σ)) (first second : Job σ α)
    (alike : α → α → Prop) : Prop :=
  ∀ before other value after, Ahead tools lead before other →
    first.run before = (.ok value, after) →
    ∃ twin ended, second.run other = (.ok twin, ended) ∧ Ahead tools lead after ended ∧
      alike value twin

section Rules

variable {tools : Tools σ} {lead : Array (Evaluator σ)} {alike : α → α → Prop}

theorem Mirrors.pure {value twin : α} (same : alike value twin) :
    Mirrors tools lead (Pure.pure value : Job σ α) (Pure.pure twin) alike := by
  rintro before other _ _ ahead ⟨⟩
  exact ⟨twin, other, rfl, ahead, same⟩

/-- **Sequences mirror each other** if their parts do. -/
theorem Mirrors.bind {first second : Job σ α} {next later : α → Job σ β} {last : β → β → Prop}
    (leading : Mirrors tools lead first second alike)
    (following : ∀ value twin, alike value twin →
      Mirrors tools lead (next value) (later twin) last) :
    Mirrors tools lead (first >>= next) (second >>= later) last := by
  intro before other final after ahead ran
  obtain ⟨value, middle, ranFirst, ranNext⟩ := run_bind_ok ran
  obtain ⟨twin, between, ranSecond, aheadBetween, same⟩ :=
    leading before other value middle ahead ranFirst
  obtain ⟨finalTwin, ended, ranLater, aheadEnded, sameFinal⟩ :=
    following value twin same middle between final after aheadBetween ranNext
  refine ⟨finalTwin, ended, ?_, aheadEnded, sameFinal⟩
  rw [run_bind, ranSecond]
  exact ranLater

/-- Both jobs fetch the nodes of the template. -/
theorem fetch_mirrors (path : String) :
    Mirrors tools lead (fetch tools path) (fetch tools path) fun content twin => content = twin := by
  intro before other content after ahead ran
  obtain ⟨tree, keeps, table⟩ := fetch_run ahead.keeps ran
  obtain ⟨-, answer⟩ := @fetch_tree σ tools path other ahead.keepsSecond
  cases ranSecond : (fetch tools path).run other with
  | mk result ended =>
    rw [ranSecond] at answer
    cases result with
    | error reason =>
      -- a template that has a tree can be fetched
      have missing : tools.tree? path = none := answer
      rw [tree] at missing
      cases missing
    | ok twin =>
      have found : tools.tree? path = some twin := answer
      rw [tree] at found
      obtain ⟨-, keepsSecond, tableSecond⟩ := fetch_run ahead.keepsSecond ranSecond
      refine ⟨twin, ended, rfl, ⟨keeps, keepsSecond, ?_⟩, Option.some.inj found⟩
      rw [table, tableSecond, ahead.table]

/-- **The index of an expression is shifted** by what the table of the first job has more. -/
theorem expression_mirrors (path source : String) :
    Mirrors tools lead (expression tools path source) (expression tools path source)
      fun index twin => index = lead.size + twin := by
  intro before other index after ahead ran
  obtain ⟨evaluator, known, rfl, rfl⟩ := expression_run ran
  refine ⟨other.table.size, { other with table := other.table.push evaluator }, ?_,
    ⟨ahead.keeps, ahead.keepsSecond, ?_⟩, ?_⟩
  · unfold expression
    rw [known]
    rfl
  · show before.table.push evaluator = lead ++ other.table.push evaluator
    rw [ahead.table, Array.append_push]
  · rw [ahead.table, Array.size_append]

end Rules

/-! ### Walks and templates -/

section Walks

variable {tools : Tools σ} {lead : Array (Evaluator σ)} {path : String}
  {visit follow : Context → Job σ (List Step)}

/-- **Steps are those of the second job with shifted indices**, and the context behind them is. -/
def ShiftedBy (offset : Nat) (result twin : List Step × Context) : Prop :=
  result.1 = renumber (offset + ·) twin.1 ∧ result.2.Shifted offset twin.2

/-- What compiles the included templates mirrors each other. -/
def VisitsMirror (tools : Tools σ) (lead : Array (Evaluator σ))
    (visit follow : Context → Job σ (List Step)) : Prop :=
  ∀ inner twin : Context, inner.Shifted lead.size twin →
    Mirrors tools lead (visit inner) (follow twin)
      fun steps others => steps = renumber (lead.size + ·) others

theorem deliver_renumber (rename : Nat → Nat) (index : Nat) (delivery : Delivery) :
    (deliver index delivery).renumber rename = deliver (rename index) delivery := by
  cases delivery <;> rfl

mutual

theorem node_mirrors (visits : VisitsMirror tools lead visit follow) (node : Node)
    (context twin : Context) (shifted : context.Shifted lead.size twin) :
    Mirrors tools lead (Job.node tools path visit node context)
      (Job.node tools path follow node twin) (ShiftedBy lead.size) := by
  cases node with
  | text content =>
    rw [Job.node, Job.node]
    exact Mirrors.pure ⟨rfl, shifted⟩
  | definition definition =>
    rw [Job.node, Job.node]
    refine (define_mirrors visits definition context twin shifted).bind fun inner other same => ?_
    exact Mirrors.pure ⟨rfl, same⟩
  | block name body =>
    rw [Job.node, Job.node]
    refine (nodes_mirror visits body context twin shifted).bind fun result other same => ?_
    refine Mirrors.pure ⟨?_, same.2⟩
    dsimp only
    rw [same.1]
    exact shifted.block name other.1
  | inclusion file overrides =>
    rw [Job.node, Job.node, shifted.file]
    refine (defineAll_mirror visits overrides _ _ (shifted.inside _)).bind fun inner other same => ?_
    refine (visits inner other same).bind fun steps others sameSteps => ?_
    refine Mirrors.pure ⟨?_, shifted⟩
    rw [sameSteps, Script.renumber_singleton, Step.renumber]
  | expression source delivery =>
    rw [Job.node, Job.node]
    refine (expression_mirrors path source).bind fun index other same => ?_
    refine Mirrors.pure ⟨?_, shifted⟩
    rw [same, Script.renumber_singleton, deliver_renumber]
  | «variable» name source =>
    rw [Job.node, Job.node]
    refine (expression_mirrors path source).bind fun index other same => ?_
    refine Mirrors.pure ⟨?_, shifted⟩
    rw [same, Script.renumber_singleton, Step.renumber]

/-- **Walks through the same nodes mirror each other** if the included templates do. -/
theorem nodes_mirror (visits : VisitsMirror tools lead visit follow) (nodes : List Node)
    (context twin : Context) (shifted : context.Shifted lead.size twin) :
    Mirrors tools lead (Job.nodes tools path visit nodes context)
      (Job.nodes tools path follow nodes twin) (ShiftedBy lead.size) := by
  cases nodes with
  | nil =>
    rw [Job.nodes, Job.nodes]
    exact Mirrors.pure ⟨rfl, shifted⟩
  | cons first rest =>
    rw [Job.nodes, Job.nodes]
    refine (node_mirrors visits first context twin shifted).bind fun result other same => ?_
    refine (nodes_mirror visits rest _ _ same.2).bind fun more others sameMore => ?_
    refine Mirrors.pure ⟨?_, sameMore.2⟩
    rw [same.1, sameMore.1, Script.renumber_append]

theorem define_mirrors (visits : VisitsMirror tools lead visit follow) (definition : Definition)
    (context twin : Context) (shifted : context.Shifted lead.size twin) :
    Mirrors tools lead (define tools path visit definition context)
      (define tools path follow definition twin) (Context.Shifted lead.size) := by
  cases definition with
  | mk name mode body =>
    rw [define, define]
    refine (nodes_mirror visits body context twin shifted).bind fun result other same => ?_
    refine Mirrors.pure ?_
    rw [same.1]
    exact same.2.define name ⟨mode, other.1⟩

theorem defineAll_mirror (visits : VisitsMirror tools lead visit follow)
    (definitions : List Definition) (context twin : Context)
    (shifted : context.Shifted lead.size twin) :
    Mirrors tools lead (defineAll tools path visit definitions context)
      (defineAll tools path follow definitions twin) (Context.Shifted lead.size) := by
  cases definitions with
  | nil =>
    rw [defineAll, defineAll]
    exact Mirrors.pure shifted
  | cons first rest =>
    rw [defineAll, defineAll]
    refine (define_mirrors visits first context twin shifted).bind fun inner other same => ?_
    exact defineAll_mirror visits rest inner other same

end

/-- **An included template mirrors itself**, with more templates open around it or fewer, as long as
no fewer may be opened. -/
theorem file_mirrors (tools : Tools σ) (lead : Array (Evaluator σ)) {room depth : Nat}
    {sources others : List String} (bounded : room ≤ depth) (fewer : others ⊆ sources) :
    VisitsMirror tools lead (file tools room sources) (file tools depth others) := by
  induction room generalizing depth sources others with
  | zero =>
    rintro context twin - before other steps after - ⟨⟩
  | succ room ih =>
    intro context twin shifted
    obtain ⟨more, rfl⟩ := Nat.exists_eq_add_of_le' (Nat.lt_of_lt_of_le (Nat.succ_pos room) bounded)
    rw [file, file, shifted.file]
    by_cases again : twin.file ∈ sources
    · rw [if_pos again]
      rintro before other steps after - ⟨⟩
    · rw [if_neg again, if_neg fun opened => again (fewer opened)]
      have visits : VisitsMirror tools lead (file tools room (sources ++ [twin.file]))
          (file tools more (others ++ [twin.file])) := by
        refine ih (Nat.le_of_succ_le_succ bounded) ?_
        exact List.append_subset.mpr ⟨List.Subset.trans fewer (List.subset_append_left _ _),
          List.subset_append_right _ _⟩
      refine (fetch_mirrors twin.file).bind fun content other same => ?_
      subst same
      refine (nodes_mirror visits content context twin shifted).bind fun result other same => ?_
      exact Mirrors.pure same.1

end Walks

end Job

end Stencil.Assembly
