/-
**Compiling keeps the meaning of a template.**

A compiled template renders what reading its nodes writes. The steps of a definition are compiled
once and stand in every block that finds it; the interpreter reads the body of its closure again
each time. Both do the same because a closure and the compiled definition that stands for it are
made at the same place, and because the table of expressions only grows: what an index means does
not change later.

* `Ends`: a part of a job gives a value in a run whose table is a part of the final table;
* `Fits`, `Alike`: a closure fits a compiled definition, a scene is like a context;
* `nodes_read`: **compiled nodes do what reading them does**, and the scene after them is like the
  context after them;
* `file_read_apart`, `file_read`: so do the steps of an included template;
* `compile_meaning`: so does a compiled root, over all bindings and with every engine.
-/

import Stencil.Proofs.Coalescing
import Stencil.Proofs.Interpreter

namespace Stencil.Assembly

open Markup (Definition Delivery Mode Node)
open Script (Run Step)

variable {σ α β : Type}

/-! ### Runs as readings -/

/-- **A part of a run as a part of a reading**: it always has an end. -/
def ofRun (part : Run σ α) : Reading σ α :=
  fun progress => some (part.run progress)

theorem ofRun_bind (part : Run σ α) (next : α → Run σ β) :
    ofRun (part >>= next) = ofRun part >>= fun value => ofRun (next value) := by
  funext progress
  show some ((ExceptT.bind part next).run progress) =
    (ExceptT.bind (ofRun part) fun value => ofRun (next value)).run progress
  simp only [ExceptT.bind, ExceptT.run, ExceptT.mk, bind, StateT.bind, ofRun, Option.bind]
  cases part progress with
  | mk answer after => cases answer <;> rfl

theorem ofRun_evaluate {engine : Engine σ} {source : String} {evaluator : Evaluator σ}
    {table : Array (Evaluator σ)} {index : Nat} (compiled : engine.compile source = .ok evaluator)
    (stands : table[index]? = some evaluator) :
    Reading.evaluate engine source = ofRun (Script.evaluate table index) := by
  funext progress
  show Reading.evaluate engine source progress =
    some (Script.evaluate table index progress)
  unfold Reading.evaluate Script.evaluate
  rw [compiled, stands]
  rfl

/-! ### Runs that end in the final table -/

namespace Job

/-- **A steady part of a job**: it keeps the nodes of templates, and its table only grows. -/
def Steady (tools : Tools σ) (job : Job σ α) : Prop :=
  ∀ before : List (Evaluator σ),
    Meets job (fun gathered => KeepsTrees tools gathered ∧ before <+: gathered.table.toList)
      (fun _ => True) fun _ => True

/-- **A part of a job can give a value** in a run whose table is a part of the final table. -/
def Ends (tools : Tools σ) (table : Array (Evaluator σ)) (job : Job σ α) (value : α) : Prop :=
  ∃ gathered after, KeepsTrees tools gathered ∧ job.run gathered = (.ok value, after) ∧
    after.table.toList <+: table.toList

section Steady

variable {tools : Tools σ} {path : String} {visit : Context → Job σ (List Step)}

theorem Steady.pure {value : α} : Steady tools (Pure.pure value : Job σ α) :=
  fun _ => Meets.pure trivial

theorem Steady.bind {job : Job σ α} {next : α → Job σ β} (first : Steady tools job)
    (second : ∀ value, Steady tools (next value)) : Steady tools (job >>= next) :=
  fun before => (first before).bind fun value _ => second value before

theorem fetch_steady : Steady tools (fetch tools path) := by
  intro before
  refine fetch_meets (fun _ _ _ _ => trivial) (fun _ stands => stands) (fun _ _ => trivial)
    (fun _ _ _ stands => stands) (fun _ _ _ _ => trivial) fun source nodes loaded parsed => ?_
  have tree := Tools.tree?_of_parse loaded parsed
  exact ⟨trivial, fun gathered stands => ⟨KeepsTrees.insert stands.1 tree, stands.2⟩⟩

theorem expression_steady {source : String} : Steady tools (expression tools path source) := by
  intro before
  refine expression_meets (fun _ _ => trivial) fun evaluator _ gathered stands => ⟨stands.1, ?_⟩
  show before <+: (gathered.table.push evaluator).toList
  rw [Array.toList_push]
  exact stands.2.trans (List.prefix_append _ _)

theorem served_steady (visits : ∀ context, Steady tools (visit context))
    (before : List (Evaluator σ)) (request : Request) :
    Serves tools path visit
      (fun gathered => KeepsTrees tools gathered ∧ before <+: gathered.table.toList)
      (fun _ => True) (fun _ => True) request := by
  cases request with
  | evaluator source => exact expression_steady before
  | template target => exact fun inner _ => visits inner before

/-- Whatever a walk gives besides, it is steady. -/
theorem Steady.of_meets {job : Job σ α} {result : α → Prop}
    (meets : ∀ before, Meets job
      (fun gathered => KeepsTrees tools gathered ∧ before <+: gathered.table.toList) result
      fun _ => True) : Steady tools job :=
  fun before => (meets before).weaken (fun _ _ => trivial) fun _ _ => trivial

section Walks

variable (visits : ∀ context, Steady tools (visit context))

include visits

theorem node_steady (node : Node) (context : Context) :
    Steady tools (Job.node tools path visit node context) :=
  .of_meets fun before => node_meets context.file node
    (fun request _ => served_steady visits before request) context rfl

theorem nodes_steady (nodes : List Node) (context : Context) :
    Steady tools (Job.nodes tools path visit nodes context) :=
  .of_meets fun before => nodes_meets context.file nodes
    (fun request _ => served_steady visits before request) context rfl

theorem define_steady (definition : Definition) (context : Context) :
    Steady tools (define tools path visit definition context) :=
  .of_meets fun before => define_meets context.file definition
    (fun request _ => served_steady visits before request) context rfl

theorem defineAll_steady (definitions : List Definition) (context : Context) :
    Steady tools (defineAll tools path visit definitions context) :=
  .of_meets fun before => defineAll_meets context.file definitions
    (fun request _ => served_steady visits before request) context rfl

end Walks

theorem file_steady (depth : Nat) (sources : List String) (context : Context) :
    Steady tools (file tools depth sources context) := by
  induction depth generalizing sources context with
  | zero => exact fun _ _ stands => ⟨stands, trivial⟩
  | succ depth ih =>
    rw [file]
    split
    · exact fun _ => Meets.fail trivial
    · refine fetch_steady.bind fun content => ?_
      exact (nodes_steady (ih _) content context).bind fun _ => Steady.pure

end Steady

section Ends

variable {tools : Tools σ} {table : Array (Evaluator σ)}

theorem Ends.of_pure {value result : α}
    (ends : Ends tools table (Pure.pure value : Job σ α) result) : value = result := by
  obtain ⟨gathered, after, -, run, -⟩ := ends
  cases run
  rfl

/-- **A sequence that ends in the final table** has parts that do. -/
theorem Ends.of_bind {job : Job σ α} {next : α → Job σ β} {result : β}
    (ends : Ends tools table (job >>= next) result) (first : Steady tools job)
    (second : ∀ value, Steady tools (next value)) :
    ∃ value, Ends tools table job value ∧ Ends tools table (next value) result := by
  obtain ⟨gathered, after, keeps, run, stands⟩ := ends
  rw [run_bind] at run
  cases outcome : job.run gathered with
  | mk answer middle =>
    rw [outcome] at run
    cases answer with
    | error reason => cases run
    | ok value =>
      have kept := (first [] gathered ⟨keeps, List.nil_prefix⟩).1
      rw [outcome] at kept
      have grown := (second value middle.table.toList middle ⟨kept.1, List.prefix_rfl⟩).1
      have ran : (next value).run middle = (.ok result, after) := run
      rw [ran] at grown
      exact ⟨value, ⟨gathered, middle, keeps, outcome, grown.2.trans stands⟩,
        ⟨middle, after, kept.1, run, stands⟩⟩

theorem Ends.of_fetch {path : String} {nodes : List Node}
    (ends : Ends tools table (fetch tools path) nodes) : tools.tree? path = some nodes := by
  obtain ⟨gathered, after, keeps, run, -⟩ := ends
  have answer := (@fetch_tree σ tools path gathered keeps).2
  rw [run] at answer
  exact answer

/-- **What an index means**: the evaluator of its expression stands there in the final table. -/
theorem Ends.of_expression {path source : String} {index : Nat}
    (ends : Ends tools table (expression tools path source) index) :
    ∃ evaluator, tools.engine.compile source = .ok evaluator ∧ table[index]? = some evaluator := by
  obtain ⟨gathered, after, -, run, stands⟩ := ends
  obtain ⟨evaluator, compiled, rfl, rfl⟩ := expression_run run
  exact ⟨evaluator, compiled, stands_later stands Array.getElem?_push_size⟩

end Ends

end Job

/-! ### Scenes and contexts -/

/-- **A closure fits a compiled definition**: both meet a block in the same way, and reading the
body of the closure does what the steps of the definition do. -/
def Fits (tools : Tools σ) (table : Array (Evaluator σ)) (closure : Closure) (filling : Filling) :
    Prop :=
  closure.mode = filling.mode ∧
    tools.readNodes closure.scene closure.body = ofRun (Script.run table filling.code)

/-- **A scene is like a context**: includes start from the same address, and every block finds in
one what fits the other. -/
structure Alike (tools : Tools σ) (table : Array (Evaluator σ)) (scene : Scene)
    (context : Context) : Prop where
  file : scene.file = context.file
  find : ∀ name, Option.Rel (Fits tools table) (scene.find? name) (context.find? name)

namespace Alike

variable {tools : Tools σ} {table : Array (Evaluator σ)} {scene : Scene} {context : Context}

theorem root (file : String) : Alike tools table (Scene.root file) (Context.root file) :=
  ⟨rfl, fun _ => .none⟩

theorem inside (alike : Alike tools table scene context) (file : String) :
    Alike tools table (scene.inside file) (context.inside file) :=
  ⟨rfl, alike.find⟩

theorem define {closure : Closure} {filling : Filling} (alike : Alike tools table scene context)
    (fits : Fits tools table closure filling) (name : String) :
    Alike tools table (scene.bind name closure) (context.define name filling) := by
  refine ⟨alike.file, fun other => ?_⟩
  rw [Context.find?_define, Scene.find?_bind]
  by_cases same : name = other
  · rw [if_pos same, if_pos same]
    exact .some fits
  · rw [if_neg same, if_neg same]
    exact alike.find other

end Alike

/-! ### Reading what was compiled -/

section Reading

variable {tools : Tools σ} {table : Array (Evaluator σ)} {path : String}
  {visit : Context → Job σ (List Step)}

/-- **Steps do what reading a template does** in a scene that starts at its address. -/
def FileRead (tools : Tools σ) (table : Array (Evaluator σ)) (scene : Scene) (steps : List Step) :
    Prop :=
  ∃ content, tools.tree? scene.file = some content ∧
    tools.readNodes scene content = ofRun (Script.run table steps)

/-- What a block is filled with does what reading the block does. -/
theorem block_read {scene : Scene} {context : Context} {name : String} {body : List Node}
    {steps filled : List Step} (alike : Alike tools table scene context)
    (own : tools.readNodes scene body = ofRun (Script.run table steps))
    (fill : ((context.find? name).map fun found => found.fill steps).getD steps = filled) :
    tools.readNode scene (.block name body) = ofRun (Script.run table filled) := by
  rw [Tools.readNode]
  have found := alike.find name
  cases closed : scene.find? name with
  | none =>
    rw [closed] at found
    cases compiled : context.find? name with
    | none =>
      rw [compiled] at fill
      cases fill
      exact own
    | some filling =>
      rw [compiled] at found
      cases found
  | some closure =>
    rw [closed] at found
    cases compiled : context.find? name with
    | none =>
      rw [compiled] at found
      cases found
    | some filling =>
      rw [compiled] at found fill
      obtain ⟨sameMode, sameBody⟩ := Option.rel_some_some.mp found
      cases fill
      dsimp only [Option.map_some, Option.getD_some, Filling.fill]
      rw [sameMode]
      cases filling.mode with
      | append =>
        show (tools.readNodes scene body >>= fun _ => _) = _
        rw [own, sameBody, Script.run_append, ofRun_bind]
      | override => exact sameBody
      | prepend => exact sameBody

theorem inclusion_read {scene inner : Scene} {file : String} {overrides : List Definition}
    {steps : List Step}
    (given : (scene.inside (Address.resolve scene.file file)).afterDefinitions overrides = inner)
    (whole : FileRead tools table inner steps) :
    tools.readNode scene (.inclusion file overrides) =
      ofRun (Script.run table [.nested steps]) := by
  obtain ⟨content, tree, same⟩ := whole
  rw [Tools.readNode]
  dsimp only
  rw [given, tree, Script.run_singleton, Step.run]
  show (fun progress => _) = _
  rw [same]
  rfl

theorem expression_read {scene : Scene} {source : String} {delivery : Delivery} {index : Nat}
    {evaluator : Evaluator σ} (compiled : tools.engine.compile source = .ok evaluator)
    (stands : table[index]? = some evaluator) :
    tools.readNode scene (.expression source delivery) =
      ofRun (Script.run table [Job.deliver index delivery]) := by
  rw [Tools.readNode, ofRun_evaluate compiled stands, Script.run_singleton]
  cases delivery with
  | escaped => rw [Job.deliver, Step.run, ofRun_bind]; rfl
  | raw => rw [Job.deliver, Step.run, ofRun_bind]; rfl
  | dropped => rw [Job.deliver, Step.run, ofRun_bind]; rfl

/-- What compiles the included templates is steady, and its steps do what reading the templates
does. The reader has the engine of the job, and need not know all its templates. -/
structure Visits (tools reader : Tools σ) (table : Array (Evaluator σ))
    (visit : Context → Job σ (List Step)) : Prop where
  engine : reader.engine = tools.engine
  steady : ∀ context, Job.Steady tools (visit context)
  read : ∀ scene context steps, Alike reader table scene context →
    Job.Ends tools table (visit context) steps → FileRead reader table scene steps

variable {reader : Tools σ} (visits : Visits tools reader table visit)

include visits

mutual

theorem node_read (scene : Scene) (context after : Context) (node : Node) (steps : List Step)
    (alike : Alike reader table scene context)
    (ends : Job.Ends tools table (Job.node tools path visit node context) (steps, after)) :
    reader.readNode scene node = ofRun (Script.run table steps) ∧
      Alike reader table (scene.afterNode node) after := by
  cases node with
  | text content =>
    rw [Job.node] at ends
    cases ends.of_pure
    refine ⟨?_, alike⟩
    rw [Tools.readNode, Script.run_singleton, Step.run]
    rfl
  | definition definition =>
    rw [Job.node] at ends
    obtain ⟨defined, walked, rest⟩ :=
      ends.of_bind (Job.define_steady visits.steady definition context) fun _ => Job.Steady.pure
    cases rest.of_pure
    refine ⟨?_, define_read scene context after definition alike walked⟩
    rw [Tools.readNode, Script.run_nil]
    rfl
  | block name body =>
    rw [Job.node] at ends
    obtain ⟨⟨inner, defined⟩, walked, rest⟩ :=
      ends.of_bind (Job.nodes_steady visits.steady body context) fun _ => Job.Steady.pure
    cases rest.of_pure
    obtain ⟨own, later⟩ := nodes_read scene context after body inner alike walked
    exact ⟨block_read alike own rfl, later⟩
  | inclusion file overrides =>
    rw [Job.node] at ends
    obtain ⟨inner, given, rest⟩ :=
      ends.of_bind (Job.defineAll_steady visits.steady overrides _) fun inner =>
        (visits.steady inner).bind fun _ => Job.Steady.pure
    obtain ⟨body, visited, last⟩ := rest.of_bind (visits.steady inner) fun _ => Job.Steady.pure
    cases last.of_pure
    rw [← alike.file] at given
    have opened := defineAll_read _ _ inner overrides (alike.inside _) given
    exact ⟨inclusion_read rfl (visits.read _ inner body opened visited), alike⟩
  | expression source delivery =>
    rw [Job.node] at ends
    obtain ⟨index, compiled, rest⟩ := ends.of_bind Job.expression_steady fun _ => Job.Steady.pure
    cases rest.of_pure
    obtain ⟨evaluator, known, stands⟩ := compiled.of_expression
    exact ⟨expression_read (visits.engine ▸ known) stands, alike⟩
  | «variable» name source =>
    rw [Job.node] at ends
    obtain ⟨index, compiled, rest⟩ := ends.of_bind Job.expression_steady fun _ => Job.Steady.pure
    cases rest.of_pure
    obtain ⟨evaluator, known, stands⟩ := compiled.of_expression
    refine ⟨?_, alike⟩
    rw [Tools.readNode, visits.engine, ofRun_evaluate known stands, Script.run_singleton, Step.run,
      ofRun_bind]
    rfl

/-- **Compiled nodes do what reading them does**, and the scene after them is like the context after
them. -/
theorem nodes_read (scene : Scene) (context after : Context) (nodes : List Node)
    (steps : List Step) (alike : Alike reader table scene context)
    (ends : Job.Ends tools table (Job.nodes tools path visit nodes context) (steps, after)) :
    reader.readNodes scene nodes = ofRun (Script.run table steps) ∧
      Alike reader table (scene.afterNodes nodes) after := by
  cases nodes with
  | nil =>
    rw [Job.nodes] at ends
    cases ends.of_pure
    refine ⟨?_, alike⟩
    rw [Tools.readNodes, Script.run_nil]
    rfl
  | cons first rest =>
    rw [Job.nodes] at ends
    obtain ⟨⟨own, middle⟩, walked, later⟩ :=
      ends.of_bind (Job.node_steady visits.steady first context) fun before =>
        (Job.nodes_steady visits.steady rest before.2).bind fun _ => Job.Steady.pure
    obtain ⟨⟨more, last⟩, followed, put⟩ :=
      later.of_bind (Job.nodes_steady visits.steady rest middle) fun _ => Job.Steady.pure
    cases put.of_pure
    obtain ⟨head, between⟩ := node_read scene context middle first own alike walked
    obtain ⟨tail, behind⟩ := nodes_read _ middle after rest more between followed
    refine ⟨?_, behind⟩
    rw [Tools.readNodes, head, tail, Script.run_append, ofRun_bind]

theorem define_read (scene : Scene) (context after : Context) (definition : Definition)
    (alike : Alike reader table scene context)
    (ends : Job.Ends tools table (Job.define tools path visit definition context) after) :
    Alike reader table (scene.afterDefinition definition) after := by
  cases definition with
  | mk name mode body =>
    rw [Job.define] at ends
    obtain ⟨⟨code, defined⟩, walked, rest⟩ :=
      ends.of_bind (Job.nodes_steady visits.steady body context) fun _ => Job.Steady.pure
    cases rest.of_pure
    obtain ⟨own, later⟩ := nodes_read scene context defined body code alike walked
    -- the closure keeps the scene before the body, in which the steps were compiled
    have fits : Fits reader table (scene.close mode body) ⟨mode, code⟩ := ⟨rfl, own⟩
    exact later.define fits name

theorem defineAll_read (scene : Scene) (context after : Context) (definitions : List Definition)
    (alike : Alike reader table scene context)
    (ends : Job.Ends tools table (Job.defineAll tools path visit definitions context) after) :
    Alike reader table (scene.afterDefinitions definitions) after := by
  cases definitions with
  | nil =>
    rw [Job.defineAll] at ends
    cases ends.of_pure
    exact alike
  | cons first rest =>
    rw [Job.defineAll] at ends
    obtain ⟨middle, defined, later⟩ :=
      ends.of_bind (Job.define_steady visits.steady first context) fun before =>
        Job.defineAll_steady visits.steady rest before
    have between := define_read scene context middle first alike defined
    exact defineAll_read _ middle after rest between later

end

end Reading

/-! ### The whole template -/

variable {tools : Tools σ}

/-- **The steps of an included template do what reading it does**, also with a reader that knows
other templates where the job never looks: at the addresses that are open already. -/
theorem file_read_apart {reader : Tools σ} (engine : reader.engine = tools.engine)
    (table : Array (Evaluator σ)) (depth : Nat) (sources : List String)
    (agree : ∀ path, path ∉ sources → reader.tree? path = tools.tree? path) :
    ∀ (scene : Scene) (context : Context) (steps : List Step), Alike reader table scene context →
      Job.Ends tools table (Job.file tools depth sources context) steps →
      FileRead reader table scene steps := by
  induction depth generalizing sources with
  | zero =>
    intro scene context steps alike ends
    obtain ⟨_, _, _, run, _⟩ := ends
    cases run
  | succ depth ih =>
    intro scene context steps alike ends
    rw [Job.file] at ends
    split at ends
    · obtain ⟨_, _, _, run, _⟩ := ends
      cases run
    · rename_i fresh
      have inner : ∀ path, path ∉ sources ++ [context.file] →
          reader.tree? path = tools.tree? path := fun path new =>
        agree path fun opened => new (List.mem_append_left _ opened)
      have visits : Visits tools reader table (Job.file tools depth (sources ++ [context.file])) :=
        ⟨engine, Job.file_steady depth _, ih _ inner⟩
      obtain ⟨content, fetched, rest⟩ :=
        ends.of_bind Job.fetch_steady fun content =>
          (Job.nodes_steady visits.steady content context).bind fun _ => Job.Steady.pure
      obtain ⟨⟨own, after⟩, walked, last⟩ :=
        rest.of_bind (Job.nodes_steady visits.steady content context) fun _ => Job.Steady.pure
      cases last.of_pure
      have same := (nodes_read visits scene context after content steps alike walked).1
      refine ⟨content, ?_, same⟩
      rw [alike.file, agree context.file fresh]
      exact fetched.of_fetch

/-- **The steps of an included template do what reading it does.** -/
theorem file_read (table : Array (Evaluator σ)) (depth : Nat) (sources : List String) :
    ∀ (scene : Scene) (context : Context) (steps : List Step), Alike tools table scene context →
      Job.Ends tools table (Job.file tools depth sources context) steps →
      FileRead tools table scene steps :=
  file_read_apart rfl table depth sources fun _ _ => rfl

namespace Job

/-- What a compile that succeeds puts together. -/
theorem compile_ends {depth : Nat} {root : String} {template : Template σ}
    (compiled : (compile tools depth root).1 = .ok template) :
    ∃ steps, template = Template.assemble steps template.table ∧
      Ends tools template.table (file tools depth [] (Context.root (Address.resolve "" root)))
        steps := by
  unfold compile at compiled
  cases run : (file tools depth [] (Context.root (Address.resolve "" root))).run start with
  | mk answer gathered =>
    rw [run] at compiled
    cases answer with
    | error reason => cases compiled
    | ok steps =>
      cases compiled
      exact ⟨steps, rfl, start, gathered, start_keepsTrees, run, List.prefix_rfl⟩

/-- **Compiling keeps the meaning of a template.** Whatever a compile puts together renders what the
interpreter reads, over all bindings: the same output, or the same first error of an evaluator. The
evaluators work on a state of the host's, whatever it is, and leave it the same: they are called in
the same order, in the same scopes. -/
theorem compile_meaning (tools : Tools σ) (depth : Nat) (root : String) {template : Template σ}
    (compiled : (compile tools depth root).1 = .ok template) (bindings : Value) (host : σ) :
    readTemplate tools root bindings host = some (template.render bindings host) := by
  have overScope : ∀ scope, readTemplateIn tools root scope host =
      some (template.renderIn scope host) := by
    intro scope
    obtain ⟨steps, assembled, ends⟩ := compile_ends compiled
    obtain ⟨content, tree, same⟩ :=
      file_read template.table depth [] _ _ steps (Alike.root (Address.resolve "" root)) ends
    have joined : Script.run template.table template.steps = Script.run template.table steps := by
      rw [assembled]
      exact Script.run_coalesce template.table steps
    unfold readTemplateIn Template.renderIn
    show (tools.tree? (Address.resolve "" root) >>= fun content => _) = _
    rw [joined]
    have tree' : tools.tree? (Address.resolve "" root) = some content := tree
    rw [tree']
    show (tools.readNodes (Scene.root (Address.resolve "" root)) content ⟨scope, "", host⟩ >>=
      fun answer => _) = _
    rw [same]
    rfl
  cases bindings with
  | object fields =>
    show (readTemplateIn tools root (Scope.reading fields) host).map _ = _
    rw [overScope]
    rfl
  | null =>
    show (readTemplateIn tools root (Scope.reading []) host).map _ = _
    rw [overScope]
    rfl
  | _ => rfl

/-- A page that appends to a block, defines inside a body that is dropped, and gives an include a
definition with a block in it. Evaluators read a name and note that they were called. -/
def layeredTools : Tools (List String) where
  load path := .ok path
  parse source :=
    if source = "page" then
      .ok [.variable "x" "given",
        .definition (.mk "title" .append [.expression "x" .escaped,
          .definition (.mk "inner" .override [.text "deep "])]),
        .block "title" [.text "title ", .definition (.mk "foot" .override [.expression "x" .raw])],
        .block "foot" [.text "dropped", .definition (.mk "inner" .append [.text "late "])],
        .inclusion "layout"
          [.mk "body" .prepend [.block "inner" [.text "own "], .variable "x" "next"]],
        .expression "x" .raw]
    else .ok [.block "body" [.definition (.mk "foot" .append [.text "!"])], .expression "x" .raw,
      .block "foot" [.text " end"]]
  engine.compile source := .ok fun scope calls =>
    (.ok ((scope.get source).getD .null), calls ++ [source])

/-- Read over bindings, the page has the output of the compiled template, with the calls in order.
-/
theorem layeredTools_meaning :
    ∃ template, (compile layeredTools 3 "page").1 = .ok template ∧
      template.render (.object [("given", .text "<"), ("next", .text "&")]) [] =
        (.ok "title &lt;<own late & end!<", ["given", "x", "x", "next", "x", "x"]) ∧
      readTemplate layeredTools "page" (.object [("given", .text "<"), ("next", .text "&")]) [] =
        some (template.render (.object [("given", .text "<"), ("next", .text "&")]) []) := by
  refine ⟨_, rfl, ?_, compile_meaning layeredTools 3 "page" rfl _ _⟩
  rfl

end Job

end Stencil.Assembly
