/-
**Bindings bring no markup into escaped output.**

A text that is written with HTML escapes holds none of the characters `< > " '`, whatever it was
before. So where a script writes every value with escapes, these characters come from its own texts
alone: they are the same, in the same order, over all bindings.

* `Html.markup`: the characters `< > " '` of a text; `Html.markup_escape`: an escaped text has none;
* `Script.all`, `Script.texts`: the steps of a script at every level, and the text they hold;
* `run_writes`: a run adds the markup of its texts;
* `render_markup`: **two outputs of a template have the same markup**, that of its texts.
-/

import Mathlib.Tactic.SplitIfs
import Stencil.Proofs.Rendering
import Stencil.Proofs.Undisturbed

namespace Stencil

/-! ### Markup -/

namespace Html

/-- The characters that end or begin a tag or an attribute value. -/
def isMarkup (c : Char) : Bool :=
  c = '<' || c = '>' || c = '"' || c = '\''

/-- **The markup of a text**: the characters `< > " '` in it, in order. -/
def markup (text : String) : List Char :=
  text.toList.filter isMarkup

@[simp] theorem markup_empty : markup "" = [] := rfl

@[simp] theorem markup_append (first second : String) :
    markup (first ++ second) = markup first ++ markup second := by
  simp [markup]

theorem filter_escapeChar (c : Char) : (escapeChar c).filter isMarkup = [] := by
  unfold escapeChar
  split_ifs with ampersand less greater double single
  · rfl
  · rfl
  · rfl
  · rfl
  · rfl
  · simp [isMarkup, less, greater, double, single]

/-- **An escaped text has no markup.** -/
theorem markup_escape (text : String) : markup (escape text) = [] := by
  rw [markup, toList_escape, List.filter_flatMap]
  exact List.flatMap_eq_nil_iff.mpr fun c _ => filter_escapeChar c

end Html

open Html (markup)

namespace Script

/-! ### The steps at every level -/

mutual

/-- A step and the steps of its body, in the order in which they run. -/
def Step.all : Step → List Step
  | .text content => [.text content]
  | .emit index escape => [.emit index escape]
  | .eval index => [.eval index]
  | .assign name index => [.assign name index]
  | .nested body => .nested body :: all body

/-- **The steps of a script at every level**, in the order in which they run. -/
def all : List Step → List Step
  | [] => []
  | step :: rest => step.all ++ all rest

end

/-- The text that a step itself holds. -/
def Step.content : Step → String
  | .text content => content
  | _ => ""

/-- **The texts of a script**, one after the other as they are written. -/
def texts (steps : List Step) : String :=
  String.join ((all steps).map Step.content)

/-- **A script that writes every value with escapes**, at every level. -/
def EscapesAll (steps : List Step) : Prop :=
  ∀ index, Step.emit index false ∉ all steps

/-- The markup of the texts of steps. -/
def ownMarkup (steps : List Step) : List Char :=
  steps.flatMap fun step => markup step.content

theorem markup_texts (steps : List Step) : markup (texts steps) = ownMarkup (all steps) := by
  unfold texts ownMarkup
  generalize all steps = deep
  induction deep with
  | nil => rfl
  | cons step rest ih =>
    rw [List.map_cons, String.join_cons, Html.markup_append, ih, List.flatMap_cons]

theorem ownMarkup_append (first second : List Step) :
    ownMarkup (first ++ second) = ownMarkup first ++ ownMarkup second :=
  List.flatMap_append

/-! ### What a run writes -/

variable {σ α β : Type}

/-- **A part of a run writes certain markup**, if it succeeds. -/
def Writes (part : Run σ α) (added : List Char) : Prop :=
  ∀ before value after, part.run before = (.ok value, after) →
    markup after.output = markup before.output ++ added

theorem Writes.pure {value : α} : Writes (Pure.pure value : Run σ α) [] := by
  rintro before _ _ ⟨⟩
  exact (List.append_nil _).symm

theorem Writes.bind {part : Run σ α} {next : α → Run σ β} {added more : List Char}
    (first : Writes part added) (second : ∀ value, Writes (next value) more) :
    Writes (part >>= next) (added ++ more) := by
  intro before result after ran
  obtain ⟨value, middle, ranFirst, ranSecond⟩ := run_bind_ok ran
  rw [second value middle result after ranSecond, first before value middle ranFirst,
    List.append_assoc]

theorem write_writes (content : String) : Writes (write content : Run σ Unit) (markup content) := by
  rintro before _ _ ⟨⟩
  exact Html.markup_append before.output content

theorem bind_writes (name : String) (value : Value) : Writes (bind name value : Run σ Unit) [] := by
  rintro before _ _ ⟨⟩
  exact (List.append_nil _).symm

/-- **An evaluator writes nothing itself**, whatever it gives. -/
theorem evaluate_writes (table : Array (Evaluator σ)) (index : Nat) :
    Writes (evaluate table index) [] := by
  intro before value after ran
  have same : ((evaluate table index).run before).2.output = before.output := by
    show (evaluate table index before).2.output = before.output
    unfold evaluate
    cases table[index]? <;> rfl
  rw [ran] at same
  rw [List.append_nil]
  exact congrArg markup same

theorem inside_writes {part : Run σ Unit} {added : List Char} (writes : Writes part added) :
    Writes (inside part) added := by
  intro before value after ran
  let opened : Progress σ := { before with scope := before.scope.nested }
  have whole : (inside part).run before =
      ((part.run opened).1, { (part.run opened).2 with scope := before.scope }) := rfl
  rw [whole] at ran
  obtain ⟨succeeds, rfl⟩ := Prod.mk.inj ran
  exact writes opened value (part.run opened).2 (Prod.ext succeeds rfl)

section Steps

variable {table : Array (Evaluator σ)}

mutual

theorem step_writes (step : Step) (escaped : ∀ index, Step.emit index false ∉ step.all) :
    Writes (step.run table) (ownMarkup step.all) := by
  cases step with
  | text content =>
    rw [Step.run]
    simpa [Step.all, ownMarkup, Step.content] using write_writes content
  | emit index escape =>
    rw [Step.run]
    refine (evaluate_writes table index).bind fun value => ?_
    cases escape with
    | true =>
      have written := write_writes (σ := σ) (Html.escape value.output)
      rw [Html.markup_escape] at written
      exact written
    | false => exact absurd List.mem_cons_self (escaped index)
  | eval index =>
    rw [Step.run]
    exact (evaluate_writes table index).bind fun _ => Writes.pure
  | assign name index =>
    rw [Step.run]
    exact (evaluate_writes table index).bind fun value => bind_writes name value
  | nested body =>
    rw [Step.run]
    refine inside_writes (run_writes body fun index member => escaped index ?_)
    exact List.mem_cons_of_mem _ member

/-- **A run adds the markup of its texts**, if it writes every value with escapes. -/
theorem run_writes (steps : List Step) (escaped : EscapesAll steps) :
    Writes (run table steps) (ownMarkup (all steps)) := by
  cases steps with
  | nil =>
    rw [run]
    exact Writes.pure
  | cons step rest =>
    rw [run, all, ownMarkup_append]
    refine (step_writes step fun index member => escaped index ?_).bind fun _ =>
      run_writes rest fun index member => escaped index ?_
    · exact List.mem_append_left _ member
    · exact List.mem_append_right _ member

end

end Steps

end Script

/-! ### Two outputs of one template -/

namespace Assembly

variable {σ : Type}

theorem markup_of_render {template : Template σ} (escaped : Script.EscapesAll template.steps)
    {bindings : Value} {host : σ} {output : String}
    (rendered : (template.render bindings host).1 = .ok output) :
    markup output = markup (Script.texts template.steps) := by
  obtain ⟨scope, after, -, ran, rfl⟩ := render_eq_ok_iff.mp rendered
  rw [Script.run_writes template.steps escaped _ _ _ ran, Html.markup_empty, List.nil_append,
    Script.markup_texts]

/-- **Bindings bring no markup into escaped output.** If a template writes every value with escapes,
whatever its evaluators are, then two of its outputs have the same characters `< > " '`, in the same
order: those of its texts. -/
theorem render_markup (template : Template σ) (escaped : Script.EscapesAll template.steps)
    {bindings others : Value} {host elsewhere : σ} {output other : String}
    (rendered : (template.render bindings host).1 = .ok output)
    (renderedOther : (template.render others elsewhere).1 = .ok other) :
    markup output = markup other ∧ markup output = markup (Script.texts template.steps) := by
  have first := markup_of_render escaped rendered
  have second := markup_of_render escaped renderedOther
  exact ⟨first.trans second.symm, first⟩

/-- An evaluator that puts a quote behind the value of a name. -/
def quoted (name : String) : Evaluator Unit := fun scope host =>
  (.ok (.array [(scope.get name).getD .null, .text "'"]), host)

/-- A page that writes a name into an attribute, binds another to it and includes a part that writes
that one. -/
def badgeTools : Tools Unit where
  load path := .ok path
  parse source :=
    if source = "page" then
      .ok [.text "<b title='", .expression "x" .escaped, .text "'>", .variable "y" "x",
        .inclusion "part" [], .text "</b>"]
    else .ok [.text "\"", .expression "y" .escaped, .text "\""]
  engine.compile source := .ok (quoted source)

/-- The page, compiled. -/
def badgeTemplate : Template Unit :=
  ⟨[.text "<b title='", .emit 0 true, .text "'>", .assign "y" 1,
      .nested [.text "\"", .emit 2 true, .text "\""], .text "</b>"],
    #[quoted "x", quoted "x", quoted "y"]⟩

/-- An attempt to end the attribute, and no binding at all, leave the page with the same markup. -/
theorem badgeTemplate_markup :
    (Job.compile badgeTools 2 "page").1 = .ok badgeTemplate ∧
      Script.EscapesAll badgeTemplate.steps ∧
      (badgeTemplate.render (.object [("x", .text "'><i>")]) ()).1 =
        .ok "<b title='&#39;&gt;&lt;i&gt;,&#39;'>\"&#39;&gt;&lt;i&gt;,&#39;,&#39;\"</b>" ∧
      (badgeTemplate.render .null ()).1 = .ok "<b title=',&#39;'>\",&#39;,&#39;\"</b>" ∧
      markup "<b title='&#39;&gt;&lt;i&gt;,&#39;'>\"&#39;&gt;&lt;i&gt;,&#39;,&#39;\"</b>" =
        markup "<b title=',&#39;'>\",&#39;,&#39;\"</b>" ∧
      markup "<b title='&#39;&gt;&lt;i&gt;,&#39;'>\"&#39;&gt;&lt;i&gt;,&#39;,&#39;\"</b>" =
        markup (Script.texts badgeTemplate.steps) := by
  have escaped : Script.EscapesAll badgeTemplate.steps := by
    intro index member
    simp [badgeTemplate, Script.all, Script.Step.all] at member
  have attempt : (badgeTemplate.render (.object [("x", .text "'><i>")]) ()).1 =
      .ok "<b title='&#39;&gt;&lt;i&gt;,&#39;'>\"&#39;&gt;&lt;i&gt;,&#39;,&#39;\"</b>" := rfl
  have nothing : (badgeTemplate.render .null ()).1 =
      .ok "<b title=',&#39;'>\",&#39;,&#39;\"</b>" := rfl
  exact ⟨rfl, escaped, attempt, nothing, render_markup badgeTemplate escaped attempt nothing⟩

end Assembly

end Stencil
