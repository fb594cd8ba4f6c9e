/-
**Coalescing brings steps into a normal form.**

Steps are merged if no text is empty and no two texts stand side by side, in bodies too. Coalescing
merges steps and does not touch merged ones, so that doing it again changes nothing. It may be done
from the front as well: each step is put behind the steps that are done, and these stay merged.

* `Merged`: **the normal form**;
* `coalesce_merged`, `coalesce_of_merged`: coalesced steps are in it, and steps in it stay as they are;
* `gather_merged`, `coalesce_eq_foldl`: **coalescing from the front** keeps what is done in it, and does
  the same;
* `coalesce_canonical`: **coalescing keeps what steps do and merges them once and for all**.
-/

import Mathlib.Data.List.Chain
import Stencil.Proofs.Coalescing

namespace Stencil.Script

/-! ### Merged steps -/

def Step.IsText : Step → Prop
  | .text _ => True
  | _ => False

mutual

/-- A text that is not empty, or a body of merged steps. -/
def Step.Merged : Step → Prop
  | .text content => content ≠ ""
  | .nested body => Merged body
  | .emit _ _ => True
  | .eval _ => True
  | .assign _ _ => True

/-- **Merged steps**: no text is empty, and of two neighbours one is no text, in bodies too. -/
def Merged : List Step → Prop
  | [] => True
  | step :: rest =>
    step.Merged ∧ Merged rest ∧ ∀ next ∈ rest.head?, ¬ (step.IsText ∧ next.IsText)

end

variable {step : Step} {steps rest done : List Step} {content first last : String}

theorem merged_iff : Merged steps ↔ (∀ step ∈ steps, step.Merged) ∧
    steps.IsChain fun step next => ¬ (step.IsText ∧ next.IsText) := by
  induction steps with
  | nil => simp [Merged]
  | cons step steps ih =>
    rw [Merged, ih, List.isChain_cons, List.forall_mem_cons]
    tauto

/-- **Merged steps are merged from the back** as well. -/
theorem merged_reverse : Merged steps.reverse ↔ Merged steps := by
  simp only [merged_iff, List.mem_reverse, List.isChain_reverse, and_comm]

theorem starts_or_solid (steps : List Step) :
    (∃ first rest, steps = .text first :: rest) ∨ ∀ next ∈ steps.head?, ¬ next.IsText := by
  cases steps with
  | nil => exact .inr nofun
  | cons step rest =>
    cases step with
    | text first => exact .inl ⟨first, rest, rfl⟩
    | _ => exact .inr (by rintro _ ⟨⟩ isText; exact isText)

theorem append_ne_empty (filled : first ≠ "" ∨ last ≠ "") : first ++ last ≠ "" := by
  intro none
  obtain ⟨rfl, rfl⟩ := String.append_eq_empty_iff.mp none
  simp at filled

/-! ### What coalescing does with the first step -/

theorem putText_empty (steps : List Step) : putText "" steps = steps := by
  rw [putText.eq_def, if_pos rfl]

theorem putText_text (filled : content ≠ "") :
    putText content (.text first :: rest) = .text (content ++ first) :: rest := by
  rw [putText, if_neg filled]

/-- Text stands on its own before a step that is no text. -/
theorem putText_solid (filled : content ≠ "") (solid : ∀ next ∈ steps.head?, ¬ next.IsText) :
    putText content steps = .text content :: steps := by
  rw [putText.eq_def, if_neg filled]
  split
  · exact absurd trivial (solid _ rfl)
  · rfl

theorem putText_putText (filled : last ≠ "") (steps : List Step) :
    putText first (putText last steps) = putText (first ++ last) steps := by
  by_cases empty : first = ""
  · rw [empty, putText_empty, String.empty_append]
  have whole := append_ne_empty (.inl empty : first ≠ "" ∨ last ≠ "")
  rcases starts_or_solid steps with ⟨next, rest, rfl⟩ | solid
  · rw [putText_text filled, putText_text empty, putText_text whole, String.append_assoc]
  · rw [putText_solid filled solid, putText_text empty, putText_solid whole solid]

theorem isText_coalesce (step : Step) : step.coalesce.IsText ↔ step.IsText := by
  cases step <;> rfl

theorem coalesce_solid (solid : ¬ step.IsText) (rest : List Step) :
    coalesce (step :: rest) = step.coalesce :: coalesce rest := by
  cases step with
  | text content => exact absurd trivial solid
  | _ => rw [coalesce]; exact nofun

/-! ### Coalesced steps are merged -/

/-- **Text that is put before merged steps** joins the text that they start with. -/
theorem putText_merged (content : String) (merged : Merged steps) :
    Merged (putText content steps) := by
  by_cases empty : content = ""
  · rwa [empty, putText_empty]
  rcases starts_or_solid steps with ⟨first, rest, rfl⟩ | solid
  · obtain ⟨-, later, apart⟩ := merged
    rw [putText_text empty]
    exact ⟨append_ne_empty (.inl empty), later, apart⟩
  · rw [putText_solid empty solid]
    exact ⟨empty, merged, fun next isNext bothText => solid next isNext bothText.2⟩

theorem merged_solid (solid : ¬ step.IsText) (proper : step.coalesce.Merged)
    (merged : Merged steps) : Merged (step.coalesce :: steps) :=
  ⟨proper, merged, fun _ _ bothText => solid ((isText_coalesce step).mp bothText.1)⟩

mutual

theorem stepCoalesce_merged (step : Step) (solid : ¬ step.IsText) : step.coalesce.Merged := by
  cases step with
  | text content => exact absurd trivial solid
  | nested body => exact coalesce_merged body
  | _ => trivial

/-- **Coalesced steps are merged.** -/
theorem coalesce_merged (steps : List Step) : Merged (coalesce steps) := by
  cases steps with
  | nil => trivial
  | cons step rest =>
    have later := coalesce_merged rest
    by_cases isText : step.IsText
    · cases step with
      | text content =>
        rw [coalesce]
        exact putText_merged content later
      | _ => exact absurd isText id
    · have proper := stepCoalesce_merged step isText
      rw [coalesce_solid isText]
      exact merged_solid isText proper later

end

/-! ### Merged steps stay as they are -/

mutual

theorem stepCoalesce_of_merged (step : Step) (merged : step.Merged) : step.coalesce = step := by
  cases step with
  | nested body => rw [Step.coalesce, coalesce_of_merged body merged]
  | _ => rfl

/-- **Merged steps are coalesced already.** -/
theorem coalesce_of_merged (steps : List Step) (merged : Merged steps) : coalesce steps = steps := by
  cases steps with
  | nil => rfl
  | cons step rest =>
    obtain ⟨proper, later, apart⟩ := merged
    have rests := coalesce_of_merged rest later
    by_cases isText : step.IsText
    · cases step with
      | text content =>
        rw [coalesce, rests, putText_solid proper fun next isNext isText =>
          apart next isNext ⟨trivial, isText⟩]
      | _ => exact absurd isText id
    · have same := stepCoalesce_of_merged step proper
      rw [coalesce_solid isText, rests, same]

end

/-! ### From the front -/

/-- **Puts a step behind steps that are done**, given the latest first: text joins the text that they
end with, and empty text is left out. -/
def gather (done : List Step) : Step → List Step
  | .text content =>
    if content = "" then done
    else
      match done with
      | .text last :: earlier => .text (last ++ content) :: earlier
      | done => .text content :: done
  | step => step.coalesce :: done

theorem gather_empty (done : List Step) : gather done (.text "") = done := by
  unfold gather
  exact if_pos rfl

theorem gather_text (filled : content ≠ "") (earlier : List Step) :
    gather (.text last :: earlier) (.text content) = .text (last ++ content) :: earlier :=
  if_neg filled

theorem gather_apart (filled : content ≠ "") (solid : ∀ last ∈ done.head?, ¬ last.IsText) :
    gather done (.text content) = .text content :: done := by
  rw [gather.eq_def]
  dsimp only
  rw [if_neg filled]
  split
  · exact absurd trivial (solid _ rfl)
  · rfl

theorem gather_solid (solid : ¬ step.IsText) (done : List Step) :
    gather done step = step.coalesce :: done := by
  cases step with
  | text content => exact absurd trivial solid
  | _ => rfl

/-- **The steps that are done are merged** after each step. -/
theorem gather_merged (merged : Merged done) (step : Step) : Merged (gather done step) := by
  by_cases isText : step.IsText
  · cases step with
    | text content =>
      by_cases empty : content = ""
      · rwa [empty, gather_empty]
      rcases starts_or_solid done with ⟨last, earlier, rfl⟩ | solid
      · obtain ⟨-, before, apart⟩ := merged
        rw [gather_text empty]
        exact ⟨append_ne_empty (.inr empty), before, apart⟩
      · rw [gather_apart empty solid]
        exact ⟨empty, merged, fun last isLast bothText => solid last isLast bothText.2⟩
    | _ => exact absurd isText id
  · rw [gather_solid isText]
    exact merged_solid isText (stepCoalesce_merged step isText) merged

theorem foldl_gather_merged (steps : List Step) (merged : Merged done) :
    Merged (steps.foldl gather done) := by
  induction steps generalizing done with
  | nil => exact merged
  | cons step steps ih => exact ih (gather_merged merged step)

theorem coalesce_append_congr {other : List Step} (before : List Step)
    (same : coalesce steps = coalesce other) :
    coalesce (before ++ steps) = coalesce (before ++ other) := by
  induction before with
  | nil => exact same
  | cons step before ih =>
    rw [List.cons_append, List.cons_append]
    by_cases isText : step.IsText
    · cases step with
      | text content => rw [coalesce, coalesce, ih]
      | _ => exact absurd isText id
    · rw [coalesce_solid isText, coalesce_solid isText, ih]

/-- **A step that is put behind the steps that are done** may as well stand after them. -/
theorem coalesce_gather (done : List Step) (step : Step) (rest : List Step) :
    coalesce ((gather done step).reverse ++ rest) = coalesce (done.reverse ++ step :: rest) := by
  by_cases isText : step.IsText
  · cases step with
    | text content =>
      by_cases empty : content = ""
      · rw [empty, gather_empty]
        refine coalesce_append_congr _ ?_
        rw [coalesce, putText_empty]
      rcases starts_or_solid done with ⟨last, earlier, rfl⟩ | solid
      · rw [gather_text empty, List.reverse_cons, List.reverse_cons, List.append_assoc,
          List.append_assoc, List.singleton_append, List.singleton_append]
        refine coalesce_append_congr _ ?_
        rw [coalesce, coalesce, coalesce, putText_putText empty]
      · rw [gather_apart empty solid, List.reverse_cons, List.append_assoc, List.singleton_append]
    | _ => exact absurd isText id
  · have again := stepCoalesce_of_merged _ (stepCoalesce_merged step isText)
    rw [gather_solid isText, List.reverse_cons, List.append_assoc, List.singleton_append]
    refine coalesce_append_congr _ ?_
    rw [coalesce_solid (mt (isText_coalesce step).mp isText), again, coalesce_solid isText]

theorem coalesce_foldl_gather (done steps : List Step) :
    coalesce (steps.foldl gather done).reverse = coalesce (done.reverse ++ steps) := by
  induction steps generalizing done with
  | nil => rw [List.foldl_nil, List.append_nil]
  | cons step steps ih => rw [List.foldl_cons, ih, coalesce_gather]

/-- **Coalescing from the front does the same.** -/
theorem coalesce_eq_foldl (steps : List Step) :
    coalesce steps = (steps.foldl gather []).reverse := by
  have merged : Merged (steps.foldl gather []) := foldl_gather_merged steps trivial
  rw [← coalesce_of_merged _ (merged_reverse.mpr merged), coalesce_foldl_gather]
  rfl

/-- **Coalescing keeps what steps do and merges them once and for all.** Coalesced steps run like the
steps themselves: over every table of evaluators, from every progress, they end with the same answer,
scope, output and state of the host's, in which evaluators may note how they are called. -/
theorem coalesce_canonical (steps : List Step) :
    (∀ {σ : Type} (table : Array (Evaluator σ)) (progress : Progress σ),
        (run table (coalesce steps)).run progress = (run table steps).run progress) ∧
      Merged (coalesce steps) ∧ coalesce (coalesce steps) = coalesce steps := by
  have merged := coalesce_merged steps
  refine ⟨fun table progress => ?_, merged, coalesce_of_merged _ merged⟩
  rw [run_coalesce]

end Stencil.Script
