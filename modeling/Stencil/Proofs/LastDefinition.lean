/-
**A block is filled by the last definition that was closed before it opens.**

In the source of a template, tags of blocks and of definitions open and close. A definition is known
from its closing tag on, wherever it stands: in another definition, in the body of a block, also of
one whose body is dropped, or at the top. A block looks at its opening tag for the definition of its
name that was closed last. What stands in the overrides of an include is known inside that include
only, and is left out here.

* `Mark`, `Mark.ofNodes`: **the opening tags of blocks and the closing tags of definitions**, in the
  order of the source;
* `Outcome`, `Job.outcomes`: what a compile makes of the nodes of its root template, mark by mark;
* `Settled`: each block is filled by what the marks before it have closed last;
* `nodes_settled`: walks settle their marks, and what is known behind them is what they have closed;
* `compile_last_definition`: **what the blocks of a root template compile to**.
-/

import Stencil.Proofs.Inclusion

namespace Stencil

open Markup (Definition Mode Node)
open Script (Step)

/-! ### Marks -/

namespace Markup

/-- **A place in the source of a template** at which something is decided about blocks: where a block
opens, or where a definition closes. -/
inductive Mark
  | opens (name : String) (body : List Node)
  | closes (definition : Definition)

namespace Mark

/-- A definition of the name closes here. -/
def Closes (mark : Mark) (name : String) : Prop :=
  ∃ definition, mark = .closes definition ∧ definition.name = name

mutual

/-- **The marks of a node**, in the order of the source, without those in overrides. -/
def ofNode : Node → List Mark
  | .text _ => []
  | .definition definition => ofDefinition definition
  | .block name body => .opens name body :: ofNodes body
  | .inclusion _ _ => []
  | .expression _ _ => []
  | .variable _ _ => []

/-- The marks of nodes. -/
def ofNodes : List Node → List Mark
  | [] => []
  | first :: rest => ofNode first ++ ofNodes rest

/-- The marks of a definition: those in its body come before its closing tag. -/
def ofDefinition : Definition → List Mark
  | .mk name mode body => ofNodes body ++ [.closes (.mk name mode body)]

end

end Mark

end Markup

namespace Assembly

open Markup (Mark)

variable {σ : Type}

/-! ### What becomes of the marks in a run -/

/-- **What a compile makes of the node with a mark**: the steps of its body, and the steps that stand
for the node. A part of a job that stops gives none. -/
structure Outcome where
  mark : Mark
  own : Option (List Step)
  steps : Option (List Step)

namespace Job

/-- The steps that a part of a job gives in a run that starts from what is gathered. -/
def stepsOf (part : Job σ (List Step × Context)) (gathered : Gathered σ) : Option (List Step) :=
  match part.run gathered with
  | (.ok (steps, _), _) => some steps
  | (.error _, _) => none

theorem stepsOf_eq_some {part : Job σ (List Step × Context)} {gathered after : Gathered σ}
    {result : List Step × Context} (ran : part.run gathered = (.ok result, after)) :
    stepsOf part gathered = some result.1 := by
  unfold stepsOf
  rw [ran]

mutual

/-- **What becomes of the marks of a node** while it is compiled, in a run that starts from what is
gathered. -/
def nodeOutcomes (tools : Tools σ) (path : String) (visit : Context → Job σ (List Step)) :
    Node → Context → Gathered σ → List Outcome
  | .text _, _, _ => []
  | .definition definition, context, gathered =>
    definitionOutcomes tools path visit definition context gathered
  | .block name body, context, gathered =>
    ⟨.opens name body, stepsOf (nodes tools path visit body context) gathered,
      stepsOf (node tools path visit (.block name body) context) gathered⟩ ::
      nodesOutcomes tools path visit body context gathered
  | .inclusion _ _, _, _ => []
  | .expression _ _, _, _ => []
  | .variable _ _, _, _ => []

/-- What becomes of the marks of nodes, while these are compiled one after the other. -/
def nodesOutcomes (tools : Tools σ) (path : String) (visit : Context → Job σ (List Step)) :
    List Node → Context → Gathered σ → List Outcome
  | [], _, _ => []
  | first :: rest, context, gathered =>
    nodeOutcomes tools path visit first context gathered ++
      match (node tools path visit first context).run gathered with
      | (.ok (_, between), after) => nodesOutcomes tools path visit rest between after
      | (.error _, _) => []

/-- What becomes of the marks of a definition. -/
def definitionOutcomes (tools : Tools σ) (path : String) (visit : Context → Job σ (List Step)) :
    Definition → Context → Gathered σ → List Outcome
  | .mk name mode body, context, gathered =>
    nodesOutcomes tools path visit body context gathered ++
      [⟨.closes (.mk name mode body), stepsOf (nodes tools path visit body context) gathered,
        stepsOf (node tools path visit (.definition (.mk name mode body)) context) gathered⟩]

end

/-- **What a compile makes of the marks of its root template.** -/
def outcomes (tools : Tools σ) : Nat → String → List Outcome
  | 0, _ => []
  | depth + 1, root =>
    let path := Address.resolve "" root
    match (fetch tools path).run start with
    | (.ok content, fetched) =>
      nodesOutcomes tools path (file tools depth [path]) content (Context.root path) fetched
    | (.error _, _) => []

end Job

/-! ### What is closed last -/

/-- The compiled definition of a name, if it is closed at a mark. -/
def Outcome.filling? (outcome : Outcome) (name : String) : Option Filling :=
  match outcome.mark, outcome.own with
  | .closes definition, some code =>
    if definition.name = name then some ⟨definition.mode, code⟩ else none
  | _, _ => none

/-- **What a block finds behind marks**: the definition of its name that they have closed last, or what
was known before them. -/
def lastFilling (known : String → Option Filling) (passed : List Outcome) (name : String) :
    Option Filling :=
  (passed.reverse.findSome? (·.filling? name)).or (known name)

/-- **A mark is settled** by what is known at it: its body has steps, and a block is filled by the
definition that is known for its name, if there is one. -/
structure Outcome.SettledBy (outcome : Outcome) (known : String → Option Filling) : Prop where
  own : ∃ code, outcome.own = some code
  block : ∀ name body, outcome.mark = .opens name body → ∀ code, outcome.own = some code →
    outcome.steps = some (((known name).map fun found => found.fill code).getD code)

/-- **All marks are settled** by what the marks before them have closed last. -/
def Settled (known : String → Option Filling) : List Outcome → Prop
  | [] => True
  | outcome :: rest => outcome.SettledBy known ∧ Settled (lastFilling known [outcome]) rest

section Last

variable {known : String → Option Filling} {first second : List Outcome}

theorem lastFilling_append :
    lastFilling known (first ++ second) = lastFilling (lastFilling known first) second := by
  funext name
  simp [lastFilling, List.findSome?_append, Option.or_assoc]

theorem settled_append :
    Settled known (first ++ second) ↔ Settled known first ∧ Settled (lastFilling known first) second := by
  induction first generalizing known with
  | nil => exact (true_and _).symm ▸ Iff.rfl
  | cons outcome first ih =>
    have split : lastFilling known (outcome :: first) =
        lastFilling (lastFilling known [outcome]) first := by
      rw [← List.singleton_append, lastFilling_append]
    rw [List.cons_append, Settled, Settled, ih, split, and_assoc]

/-- **Behind marks that close nothing of the name**, what was known of it is still known. -/
theorem lastFilling_of_none {name : String} {passed : List Outcome}
    (none : ∀ outcome ∈ passed, ¬ outcome.mark.Closes name) :
    lastFilling known passed name = known name := by
  have nothing : passed.reverse.findSome? (·.filling? name) = .none := by
    rw [List.findSome?_eq_none_iff]
    intro outcome member
    have closesNot := none outcome (List.mem_reverse.mp member)
    unfold Outcome.filling?
    split
    · rename_i definition code isMark _
      exact if_neg fun same => closesNot ⟨definition, isMark, same⟩
    · rfl
  rw [lastFilling, nothing, Option.none_or]

/-- **The definition that was closed last** is the one that is found. -/
theorem lastFilling_of_last {name : String} {earlier later : List Outcome} {last : Outcome}
    {definition : Definition} {code : List Step} (isMark : last.mark = .closes definition)
    (named : definition.name = name) (own : last.own = some code)
    (none : ∀ outcome ∈ later, ¬ outcome.mark.Closes name) :
    lastFilling known (earlier ++ last :: later) name = some ⟨definition.mode, code⟩ := by
  have found : last.filling? name = some ⟨definition.mode, code⟩ := by
    rw [Outcome.filling?, isMark, own]
    exact if_pos named
  rw [lastFilling_append, ← List.singleton_append, lastFilling_append, lastFilling_of_none none]
  simp [lastFilling, found]

end Last

/-! ### Walks settle their marks -/

namespace Job

section Walks

variable {tools : Tools σ} {path : String} {visit : Context → Job σ (List Step)}

/-- **What holds behind a walk with marks**: they are those of its nodes, all of them are settled, and
blocks find behind them what they have closed last. -/
structure Settles (marks : List Mark) (passed : List Outcome) (before after : Context) : Prop where
  marks : passed.map Outcome.mark = marks
  settled : Settled before.find? passed
  known : after.find? = lastFilling before.find? passed

namespace Settles

variable {marks more : List Mark} {passed further : List Outcome} {before middle after : Context}

theorem refl (context : Context) : Settles [] [] context context :=
  ⟨rfl, trivial, rfl⟩

theorem trans (first : Settles marks passed before middle)
    (second : Settles more further middle after) :
    Settles (marks ++ more) (passed ++ further) before after where
  marks := by rw [List.map_append, first.marks, second.marks]
  settled := settled_append.mpr ⟨first.settled, first.known ▸ second.settled⟩
  known := by rw [lastFilling_append, ← first.known, second.known]

end Settles

mutual

theorem node_settled (node : Node) {context : Context} {before after : Gathered σ}
    {result : List Step × Context}
    (ran : (Job.node tools path visit node context).run before = (.ok result, after)) :
    Settles (Mark.ofNode node) (nodeOutcomes tools path visit node context before) context
      result.2 := by
  cases node with
  | text content =>
    rw [Job.node] at ran
    cases ran
    exact Settles.refl context
  | definition definition =>
    rw [Job.node] at ran
    obtain ⟨inner, middle, defined, put⟩ := run_bind_ok ran
    cases put
    exact define_settled definition defined
  | block name body =>
    have whole := ran
    rw [Job.node] at ran
    obtain ⟨⟨own, inner⟩, middle, walked, put⟩ := run_bind_ok ran
    cases put
    -- the block looks its definition up before its body is compiled
    have opening : Settles [.opens name body]
        [⟨.opens name body, stepsOf (nodes tools path visit body context) before,
          stepsOf (Job.node tools path visit (.block name body) context) before⟩]
        context context := by
      refine ⟨rfl, ⟨⟨⟨own, stepsOf_eq_some walked⟩, ?_⟩, trivial⟩, rfl⟩
      rintro _ _ ⟨⟩ code isCode
      cases (stepsOf_eq_some walked).symm.trans isCode
      exact stepsOf_eq_some whole
    have inside := nodes_settled body walked
    exact opening.trans inside
  | inclusion file overrides =>
    rw [Job.node] at ran
    obtain ⟨inner, middle, -, rest⟩ := run_bind_ok ran
    obtain ⟨steps, ended, -, put⟩ := run_bind_ok rest
    cases put
    exact Settles.refl context
  | expression source delivery =>
    rw [Job.node] at ran
    obtain ⟨index, middle, -, put⟩ := run_bind_ok ran
    cases put
    exact Settles.refl context
  | «variable» name source =>
    rw [Job.node] at ran
    obtain ⟨index, middle, -, put⟩ := run_bind_ok ran
    cases put
    exact Settles.refl context

/-- **A walk through nodes settles their marks.** -/
theorem nodes_settled (nodes : List Node) {context : Context} {before after : Gathered σ}
    {result : List Step × Context}
    (ran : (Job.nodes tools path visit nodes context).run before = (.ok result, after)) :
    Settles (Mark.ofNodes nodes) (nodesOutcomes tools path visit nodes context before) context
      result.2 := by
  cases nodes with
  | nil =>
    rw [Job.nodes] at ran
    cases ran
    exact Settles.refl context
  | cons first rest =>
    rw [Job.nodes] at ran
    obtain ⟨⟨steps, between⟩, middle, walked, others⟩ := run_bind_ok ran
    obtain ⟨⟨more, last⟩, ended, walkedRest, put⟩ := run_bind_ok others
    cases put
    rw [Mark.ofNodes, nodesOutcomes, walked]
    have later := nodes_settled rest walkedRest
    exact (node_settled first walked).trans later

theorem define_settled (definition : Definition) {context inner : Context}
    {before after : Gathered σ}
    (ran : (Job.define tools path visit definition context).run before = (.ok inner, after)) :
    Settles (Mark.ofDefinition definition)
      (definitionOutcomes tools path visit definition context before) context inner := by
  cases definition with
  | mk name mode body =>
    rw [define] at ran
    obtain ⟨⟨code, last⟩, middle, walked, put⟩ := run_bind_ok ran
    cases put
    rw [Mark.ofDefinition, definitionOutcomes, stepsOf_eq_some walked]
    refine (nodes_settled body walked).trans ⟨rfl, ⟨⟨⟨code, rfl⟩, ?_⟩, trivial⟩, ?_⟩
    · rintro _ _ ⟨⟩
    · funext other
      rw [Context.find?_define]
      by_cases same : name = other
      · simp [lastFilling, Outcome.filling?, Definition.name, Definition.mode, same]
      · simp [lastFilling, Outcome.filling?, Definition.name, same]

end

end Walks

/-- **A compile that succeeds settles the marks of its root template**, from where nothing is known. -/
theorem compile_settled {tools : Tools σ} {depth : Nat} {root : String} {template : Template σ}
    (compiled : (compile tools depth root).1 = .ok template) :
    ∃ nodes, tools.tree? (Address.resolve "" root) = some nodes ∧
      (outcomes tools depth root).map Outcome.mark = Mark.ofNodes nodes ∧
      Settled (fun _ => none) (outcomes tools depth root) := by
  unfold compile at compiled
  cases ran : (file tools depth [] (Context.root (Address.resolve "" root))).run start with
  | mk answer ended =>
    rw [ran] at compiled
    cases answer with
    | error reason => cases compiled
    | ok steps =>
      cases depth with
      | zero => cases ran
      | succ depth =>
        rw [file, if_neg (by simp)] at ran
        obtain ⟨nodes, fetched, found, walk⟩ := run_bind_ok ran
        obtain ⟨result, middle, walked, -⟩ := run_bind_ok walk
        have settles := nodes_settled nodes walked
        have content : (fetch tools (Address.resolve "" root)).run start = (.ok nodes, fetched) :=
          found
        rw [outcomes, content]
        exact ⟨nodes, (fetch_run start_keepsTrees found).1, settles.marks, settles.settled⟩

/-- **A block of the root template is filled by the last definition that was closed before it opens.**
In a compile that succeeds the root has a tree, and the marks that the compile comes upon are those
of this tree, in the order of the source: what opens a block and what closes a definition, wherever
they stand outside of overrides. A block compiles to the steps of its own body if no definition of its
name was closed before it opens. Otherwise it compiles to the steps of the one that was closed last;
those of its own body come before them exactly if the mode of that definition is to append. -/
theorem compile_last_definition (tools : Tools σ) (depth : Nat) (root : String)
    {template : Template σ} (compiled : (compile tools depth root).1 = .ok template) :
    ∃ nodes, tools.tree? (Address.resolve "" root) = some nodes ∧
      (outcomes tools depth root).map Outcome.mark = Mark.ofNodes nodes ∧
      ∀ before block after, outcomes tools depth root = before ++ block :: after →
        ∀ name body, block.mark = .opens name body → ∃ own, block.own = some own ∧
          ((∀ outcome ∈ before, ¬ outcome.mark.Closes name) → block.steps = some own) ∧
          ∀ earlier last later definition, before = earlier ++ last :: later →
            last.mark = .closes definition → definition.name = name →
            (∀ outcome ∈ later, ¬ outcome.mark.Closes name) →
            ∃ code, last.own = some code ∧
              block.steps = some (if definition.mode = .append then own ++ code else code) := by
  obtain ⟨nodes, tree, marks, settled⟩ := compile_settled compiled
  refine ⟨nodes, tree, marks, fun before block after whole name body opens => ?_⟩
  rw [whole, settled_append] at settled
  obtain ⟨passed, here, -⟩ := settled
  obtain ⟨own, isOwn⟩ := here.own
  have filled := here.block name body opens own isOwn
  refine ⟨own, isOwn, fun none => ?_, ?_⟩
  · rw [filled, lastFilling_of_none none]
    rfl
  · rintro earlier last later definition rfl isMark named none
    obtain ⟨code, isCode⟩ := (settled_append.mp passed).2.1.own
    refine ⟨code, isCode, ?_⟩
    rw [filled, lastFilling_of_last isMark named isCode none]
    cases mode : definition.mode <;> simp [Filling.fill]

/-- A page with definitions in definitions, in the body of a block that is filled, and in an override
of an include in between, and with a block of the name of the definition that it stands in. -/
def layersTools : Tools Unit where
  load path := .ok path
  parse source :=
    if source = "page" then
      .ok [.definition (.mk "a" .override [.text "1", .block "a" [.text "2"],
          .definition (.mk "b" .override [.text "3"])]),
        .block "a" [.definition (.mk "b" .append [.text "4"])],
        .inclusion "part" [.mk "b" .override [.text "5"]],
        .block "b" [.text "6"]]
    else .ok [.block "b" [.text "7"]]
  engine := Engine.standard

/-- What becomes of the marks before the last block. -/
def layersBefore : List Outcome :=
  [⟨.opens "a" [.text "2"], some [.text "2"], some [.text "2"]⟩,
    ⟨.closes (.mk "b" .override [.text "3"]), some [.text "3"], some []⟩,
    ⟨.closes (.mk "a" .override [.text "1", .block "a" [.text "2"],
      .definition (.mk "b" .override [.text "3"])]), some [.text "1", .text "2"], some []⟩,
    ⟨.opens "a" [.definition (.mk "b" .append [.text "4"])], some [],
      some [.text "1", .text "2"]⟩]

/-- The last block finds the definition in the body that was dropped, and is appended to by it. -/
theorem layersTools_last :
    (compile layersTools 2 "page").1 =
        .ok ⟨[.text "12", .nested [.text "5"], .text "64"], #[]⟩ ∧
      ∃ last block, outcomes layersTools 2 "page" = layersBefore ++ last :: [block] ∧
        last.mark = .closes (.mk "b" .append [.text "4"]) ∧
        block.mark = .opens "b" [.text "6"] ∧
        ∃ own code, block.own = some own ∧ last.own = some code ∧
          block.steps = some (own ++ code) := by
  let last : Outcome := ⟨.closes (.mk "b" .append [.text "4"]), some [.text "4"], some []⟩
  let block : Outcome := ⟨.opens "b" [.text "6"], some [.text "6"], some [.text "6", .text "4"]⟩
  have compiled : (compile layersTools 2 "page").1 =
      .ok ⟨[.text "12", .nested [.text "5"], .text "64"], #[]⟩ := rfl
  have passed : outcomes layersTools 2 "page" = layersBefore ++ last :: [block] := rfl
  obtain ⟨-, -, -, filled⟩ := compile_last_definition layersTools 2 "page" compiled
  obtain ⟨own, isOwn, -, finds⟩ := filled (layersBefore ++ [last]) block []
    (by rw [passed, List.append_assoc]; rfl) "b" [.text "6"] rfl
  obtain ⟨code, isCode, steps⟩ := finds layersBefore last [] (.mk "b" .append [.text "4"]) rfl rfl
    rfl (by simp)
  exact ⟨compiled, last, block, passed, rfl, rfl, own, code, isOwn, isCode, steps⟩

end Job

end Assembly

end Stencil
