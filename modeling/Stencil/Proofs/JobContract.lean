/-
**What a job asks for, and what a part of a job keeps.**

Going through nodes a job asks for the evaluators of expressions and for the steps of included
templates, in an order that only depends on the nodes and on the address that their includes start
from. Whatever is kept while each of these requests is served is kept by the whole walk.

* `Request.ofNodes`: what the nodes of a template ask for, in order;
* `run_bind`, `run_bind_related`: what a sequence over a state does, and two of them side by side;
* `Meets`: **a contract** of a part of a job, with rules for sequences;
* `fetch_meets`, `expression_meets`: the contracts of the two parts that ask the tools for
  something;
* `Compositional`, `Compositional.nodes`: **a property that sequences keep**, of one part of a job or
  of two side by side, holds of walks if it holds where their requests are served;
* `Sequential`, `Sequential.file`: so does a relation of two jobs, for templates and all that these
  include;
* `nodes_meets`, `file_meets`: a walk meets the contract that all its requests meet, and so does
  opening a template;
* `compile_meets`: a compile meets the contract of its root template.
-/

import Stencil.Assembly.Job

namespace Stencil

/-- **A sequence over a state**: the second part runs from where the first one ends. -/
theorem run_bind {ε τ α β : Type} (part : ExceptT ε (StateM τ) α)
    (next : α → ExceptT ε (StateM τ) β) (state : τ) :
    (part >>= next).run state =
      match part.run state with
      | (.ok value, after) => (next value).run after
      | (.error reason, after) => (.error reason, after) := by
  show (ExceptT.bind part next).run state = _
  simp only [ExceptT.bind, ExceptT.run, ExceptT.mk, bind, StateT.bind]
  cases part state with
  | mk answer after => cases answer <;> rfl

/-- A sequence that succeeds has parts that do. -/
theorem run_bind_ok {ε τ α β : Type} {part : ExceptT ε (StateM τ) α}
    {next : α → ExceptT ε (StateM τ) β} {state after : τ} {result : β}
    (ran : (part >>= next).run state = (.ok result, after)) :
    ∃ value middle, part.run state = (.ok value, middle) ∧
      (next value).run middle = (.ok result, after) := by
  rw [run_bind] at ran
  cases first : part.run state with
  | mk answer middle =>
    rw [first] at ran
    cases answer with
    | ok value => exact ⟨value, middle, rfl, ran⟩
    | error error => cases ran

/-- **Two sequences come to the same answer** from related states, and to related states, if their
parts do. -/
theorem run_bind_related {ε τ α β : Type} {related : τ → τ → Prop}
    {first second : ExceptT ε (StateM τ) α} {next later : α → ExceptT ε (StateM τ) β}
    {before other : τ}
    (leading : (first.run before).1 = (second.run other).1 ∧
      related (first.run before).2 (second.run other).2)
    (following : ∀ value middle between, first.run before = (.ok value, middle) →
      related middle between →
      ((next value).run middle).1 = ((later value).run between).1 ∧
        related ((next value).run middle).2 ((later value).run between).2) :
    ((first >>= next).run before).1 = ((second >>= later).run other).1 ∧
      related ((first >>= next).run before).2 ((second >>= later).run other).2 := by
  obtain ⟨same, relates⟩ := leading
  rw [run_bind, run_bind]
  cases ran : first.run before with
  | mk answer middle =>
    cases ranOther : second.run other with
    | mk answerOther between =>
      rw [ran, ranOther] at same relates
      have sameAnswer : answer = answerOther := same
      subst sameAnswer
      cases answer with
      | ok value => exact following value middle between ran relates
      | error reason => exact ⟨rfl, relates⟩

end Stencil

namespace Stencil.Assembly

open Markup (Definition Node)

/-! ### Tables that grow -/

/-- What stands in a table stands there later too. -/
theorem stands_later {σ : Type} {table final : Array (Evaluator σ)} {index : Nat} {evaluator : Evaluator σ}
    (grown : table.toList <+: final.toList) (stands : table[index]? = some evaluator) :
    final[index]? = some evaluator := by
  obtain ⟨later, whole⟩ := grown
  rw [← Array.getElem?_toList] at stands
  rw [← Array.getElem?_toList, ← whole,
    List.getElem?_append_left (List.getElem?_eq_some_iff.mp stands).1, stands]

/-! ### Requests -/

/-- **What a job asks for** on its way through nodes: the evaluator of an expression, or the steps
of the template at an address. -/
inductive Request
  | evaluator (source : String)
  | template (path : String)
  deriving DecidableEq, Repr

namespace Request

mutual

/-- **What a node asks for**, in order, if includes start from `base`. An override that is given to
an include stands in that include: its own includes start from the included template. -/
def ofNode (base : String) : Node → List Request
  | .text _ => []
  | .definition definition => ofDefinition base definition
  | .block _ body => ofNodes base body
  | .inclusion file overrides =>
    ofDefinitions (Address.resolve base file) overrides ++ [.template (Address.resolve base file)]
  | .expression source _ => [.evaluator source]
  | .variable _ source => [.evaluator source]

/-- What nodes ask for. -/
def ofNodes (base : String) : List Node → List Request
  | [] => []
  | first :: rest => ofNode base first ++ ofNodes base rest

/-- What a definition asks for: that is what its body asks for. -/
def ofDefinition (base : String) : Definition → List Request
  | .mk _ _ body => ofNodes base body

/-- What definitions ask for. -/
def ofDefinitions (base : String) : List Definition → List Request
  | [] => []
  | first :: rest => ofDefinition base first ++ ofDefinitions base rest

end

end Request

namespace Job

variable {σ α β : Type}

/-! ### Contracts -/

/-- **A part of a job meets a contract**: what it is to keep holds after it if it held before, also
if it stops early; `result` holds of what it gives and `stop` of the reason why it stops. -/
def Meets (job : Job σ α) (kept : Gathered σ → Prop) (result : α → Prop) (stop : Stop → Prop) :
    Prop :=
  ∀ gathered, kept gathered → kept (job.run gathered).2 ∧
    match (job.run gathered).1 with
    | .ok value => result value
    | .error reason => stop reason

section Rules

variable {kept : Gathered σ → Prop} {result : α → Prop} {stop : Stop → Prop}

theorem Meets.pure {value : α} (holds : result value) :
    Meets (Pure.pure value : Job σ α) kept result stop :=
  fun _ keeps => ⟨keeps, holds⟩

theorem Meets.fail {error : CompileError} (holds : stop (.error error)) :
    Meets (fail error : Job σ α) kept result stop :=
  fun _ keeps => ⟨keeps, holds⟩

/-- **A sequence meets a contract** if its parts do. -/
theorem Meets.bind {job : Job σ α} {next : α → Job σ β} {last : β → Prop}
    (first : Meets job kept result stop)
    (second : ∀ value, result value → Meets (next value) kept last stop) :
    Meets (job >>= next) kept last stop := by
  intro gathered keeps
  obtain ⟨after, answer⟩ := first gathered keeps
  rw [run_bind]
  cases run : job.run gathered with
  | mk outcome middle =>
    rw [run] at after answer
    cases outcome with
    | ok value => exact second value answer middle after
    | error reason => exact ⟨after, answer⟩

/-- A weaker result and weaker reasons to stop. -/
theorem Meets.weaken {job : Job σ α} {weaker : α → Prop} {wider : Stop → Prop}
    (meets : Meets job kept result stop) (implies : ∀ value, result value → weaker value)
    (widens : ∀ reason, stop reason → wider reason) : Meets job kept weaker wider := by
  intro gathered keeps
  obtain ⟨after, answer⟩ := meets gathered keeps
  refine ⟨after, ?_⟩
  cases run : (job.run gathered).1 with
  | ok value =>
    rw [run] at answer
    exact implies value answer
  | error reason =>
    rw [run] at answer
    exact widens reason answer

/-- Taking over a result. -/
theorem Meets.orFail {ε : Type} {toError : ε → CompileError} {answer : Except ε α}
    (fine : ∀ value, answer = .ok value → result value)
    (fault : ∀ error, answer = .error error → stop (.error (toError error))) :
    Meets (orFail toError answer : Job σ α) kept result stop := by
  cases answer with
  | ok value => exact Meets.pure (fine value rfl)
  | error error => exact Meets.fail (fault error rfl)

/-- **A change of what is gathered** keeps what holds of it after the change. -/
theorem Meets.modify {change : Gathered σ → Gathered σ}
    (keeps : ∀ gathered, kept gathered → kept (change gathered)) :
    Meets (modify change : Job σ Unit) kept (fun _ => True) stop :=
  fun gathered holds => ⟨keeps gathered holds, trivial⟩

/-- What is kept holds of what a part of a job reads. -/
theorem Meets.get : Meets (get : Job σ (Gathered σ)) kept kept stop :=
  fun _ keeps => ⟨keeps, keeps⟩

end Rules

/-! ### Asking the tools -/

section Asking

variable {tools : Tools σ} {path : String} {kept : Gathered σ → Prop} {stop : Stop → Prop}

/-- **The contract of fetching a template**: it gives nodes that were kept for the template before,
or those of the source that is loaded. -/
theorem fetch_meets {result : List Node → Prop}
    (known : ∀ gathered, kept gathered → ∀ nodes, gathered.parsed.find? path = some nodes →
      result nodes)
    (load : ∀ gathered, kept gathered →
      kept { gathered with events := gathered.events.push (.load path) })
    (noSource : ∀ error, tools.load path = .error error → stop (.error (.load path error)))
    (parse : ∀ source, tools.load path = .ok source → ∀ gathered, kept gathered →
      kept { gathered with events := gathered.events.push (.parse source) })
    (noTree : ∀ source error, tools.load path = .ok source → tools.parse source = .error error →
      stop (.error (.parse path error)))
    (tree : ∀ source nodes, tools.load path = .ok source → tools.parse source = .ok nodes →
      result nodes ∧ ∀ gathered, kept gathered →
        kept { gathered with parsed := gathered.parsed.insert path nodes }) :
    Meets (fetch tools path) kept result stop := by
  unfold fetch
  refine Meets.get.bind fun gathered keeps => ?_
  split
  · rename_i nodes found
    exact Meets.pure (known gathered keeps nodes found)
  · refine (Meets.modify load).bind fun _ _ => ?_
    refine Meets.bind (Meets.orFail (fun _ loaded => loaded) noSource) fun source loaded => ?_
    refine (Meets.modify (parse source loaded)).bind fun _ _ => ?_
    refine Meets.bind (Meets.orFail (fun _ parsed => parsed)
      fun error => noTree source error loaded) fun nodes parsed => ?_
    obtain ⟨fine, keeps⟩ := tree source nodes loaded parsed
    exact (Meets.modify keeps).bind fun _ _ => Meets.pure fine

/-- **The contract of compiling an expression**: its evaluator goes to the end of the table. -/
theorem expression_meets {source : String}
    (refused : ∀ fault, tools.engine.compile source = .error fault →
      stop (.error (.expression path fault)))
    (enters : ∀ evaluator, tools.engine.compile source = .ok evaluator → ∀ gathered, kept gathered →
      kept { gathered with table := gathered.table.push evaluator }) :
    Meets (expression tools path source) kept (fun _ => True) stop := by
  unfold expression
  refine Meets.bind (Meets.orFail (fun _ compiled => compiled) refused) fun evaluator compiled => ?_
  refine Meets.get.bind fun _ _ => ?_
  exact (Meets.modify (enters evaluator compiled)).bind fun _ _ => Meets.pure trivial

/-- **An expression that is compiled** goes to the end of the table. -/
theorem expression_run {source : String} {index : Nat} {before after : Gathered σ}
    (ran : (expression tools path source).run before = (.ok index, after)) :
    ∃ evaluator, tools.engine.compile source = .ok evaluator ∧ index = before.table.size ∧
      after = { before with table := before.table.push evaluator } := by
  unfold expression at ran
  cases compiled : tools.engine.compile source with
  | error fault =>
    rw [compiled] at ran
    cases ran
  | ok evaluator =>
    rw [compiled] at ran
    cases ran
    exact ⟨evaluator, rfl, rfl, rfl⟩

end Asking

/-! ### Walking -/

/-- **A property of two parts of jobs, side by side, that sequences keep.** It is told of the two parts
and of what the first one gives; a property of one part leaves the other out of account. -/
structure Compositional
    (property : ∀ {γ : Type}, Job σ γ → Job σ γ → (γ → Prop) → Prop) : Prop where
  pure : ∀ {γ : Type} {value : γ} {result : γ → Prop}, result value →
    property (Pure.pure value) (Pure.pure value) result
  bind : ∀ {γ δ : Type} {first second : Job σ γ} {next later : γ → Job σ δ} {result : γ → Prop}
    {last : δ → Prop}, property first second result →
    (∀ value, result value → property (next value) (later value) last) →
    property (first >>= next) (second >>= later) last

/-- **What a part of a job gives**, whatever was gathered before. -/
def Gives (part : Job σ α) (result : α → Prop) : Prop :=
  ∀ before value after, part.run before = (.ok value, after) → result value

section Pairs

variable (property : ∀ {γ : Type}, Job σ γ → Job σ γ → (γ → Prop) → Prop)
variable (tools others : Tools σ) (path : String)
variable (visit follow : Context → Job σ (List Script.Step)) (fact : Request → Prop)

/-- **A request is served in both jobs**: the parts that serve it have the property, and what the
first one gives has a fact about the request with it. -/
def ServesBoth : Request → Prop
  | .evaluator source => property (expression tools path source) (expression others path source)
      fun _ => fact (.evaluator source)
  | .template target => ∀ inner : Context, inner.file = target →
      property (visit inner) (follow inner) fun _ => fact (.template target)

end Pairs

section Walks

variable {property : ∀ {γ : Type}, Job σ γ → Job σ γ → (γ → Prop) → Prop}
variable {tools others : Tools σ} {path : String}
variable {visit follow : Context → Job σ (List Script.Step)} {fact : Request → Prop}

theorem Compositional.weaken (keeps : Compositional property) {first second : Job σ α}
    {result weaker : α → Prop} (holds : property first second result)
    (implies : ∀ value, result value → weaker value) : property first second weaker := by
  have whole : property (first >>= Pure.pure) (second >>= Pure.pure) weaker :=
    keeps.bind holds fun value fine => keeps.pure (implies value fine)
  rwa [bind_pure, bind_pure] at whole

mutual

theorem Compositional.node (keeps : Compositional property) (base : String) (node : Node)
    (served : ∀ request ∈ Request.ofNode base node,
      ServesBoth property tools others path visit follow fact request)
    (context : Context) (starts : context.file = base) :
    property (Job.node tools path visit node context) (Job.node others path follow node context)
      fun result => result.2.file = base ∧ ∀ request ∈ Request.ofNode base node, fact request := by
  cases node with
  | text content =>
    rw [Job.node, Job.node]
    exact keeps.pure ⟨starts, by simp [Request.ofNode]⟩
  | definition definition =>
    rw [Job.node, Job.node]
    exact keeps.bind (keeps.define base definition served context starts) fun after holds =>
      keeps.pure holds
  | block name body =>
    rw [Job.node, Job.node]
    exact keeps.bind (keeps.nodes base body served context starts) fun result holds =>
      keeps.pure holds
  | inclusion file overrides =>
    rw [Job.node, Job.node]
    simp only [Request.ofNode, List.mem_append, List.mem_singleton] at served ⊢
    subst starts
    refine keeps.bind (keeps.defineAll (Address.resolve context.file file) overrides
      (fun request member => served request (Or.inl member)) _ rfl) fun inner given => ?_
    have visited := served _ (Or.inr rfl) inner given.1
    refine keeps.bind visited fun steps holds => keeps.pure ⟨rfl, fun request member => ?_⟩
    rcases member with member | rfl
    · exact given.2 request member
    · exact holds
  | expression source delivery =>
    rw [Job.node, Job.node]
    have compiled := served (.evaluator source) (by simp [Request.ofNode])
    exact keeps.bind compiled fun index holds =>
      keeps.pure ⟨starts, by simpa [Request.ofNode] using holds⟩
  | «variable» name source =>
    rw [Job.node, Job.node]
    have compiled := served (.evaluator source) (by simp [Request.ofNode])
    exact keeps.bind compiled fun index holds =>
      keeps.pure ⟨starts, by simpa [Request.ofNode] using holds⟩

/-- **Walks through the same nodes have a property that all their requests have**; includes behind
them start where they started before. -/
theorem Compositional.nodes (keeps : Compositional property) (base : String) (nodes : List Node)
    (served : ∀ request ∈ Request.ofNodes base nodes,
      ServesBoth property tools others path visit follow fact request)
    (context : Context) (starts : context.file = base) :
    property (Job.nodes tools path visit nodes context)
      (Job.nodes others path follow nodes context)
      fun result => result.2.file = base ∧ ∀ request ∈ Request.ofNodes base nodes, fact request := by
  cases nodes with
  | nil =>
    rw [Job.nodes, Job.nodes]
    exact keeps.pure ⟨starts, by simp [Request.ofNodes]⟩
  | cons first rest =>
    rw [Job.nodes, Job.nodes]
    simp only [Request.ofNodes, List.mem_append] at served ⊢
    refine keeps.bind (keeps.node base first
      (fun request member => served request (Or.inl member)) context starts) fun before holds => ?_
    refine keeps.bind (keeps.nodes base rest
      (fun request member => served request (Or.inr member)) before.2 holds.1) fun after more => ?_
    exact keeps.pure
      ⟨more.1, fun request member => member.elim (holds.2 request) (more.2 request)⟩

theorem Compositional.define (keeps : Compositional property) (base : String)
    (definition : Definition)
    (served : ∀ request ∈ Request.ofDefinition base definition,
      ServesBoth property tools others path visit follow fact request)
    (context : Context) (starts : context.file = base) :
    property (Job.define tools path visit definition context)
      (Job.define others path follow definition context)
      fun after => after.file = base ∧
        ∀ request ∈ Request.ofDefinition base definition, fact request := by
  cases definition with
  | mk name mode body =>
    rw [Job.define, Job.define]
    exact keeps.bind (keeps.nodes base body served context starts) fun result holds =>
      keeps.pure holds

theorem Compositional.defineAll (keeps : Compositional property) (base : String)
    (definitions : List Definition)
    (served : ∀ request ∈ Request.ofDefinitions base definitions,
      ServesBoth property tools others path visit follow fact request)
    (context : Context) (starts : context.file = base) :
    property (Job.defineAll tools path visit definitions context)
      (Job.defineAll others path follow definitions context)
      fun after => after.file = base ∧
        ∀ request ∈ Request.ofDefinitions base definitions, fact request := by
  cases definitions with
  | nil =>
    rw [Job.defineAll, Job.defineAll]
    exact keeps.pure ⟨starts, by simp [Request.ofDefinitions]⟩
  | cons first rest =>
    rw [Job.defineAll, Job.defineAll]
    simp only [Request.ofDefinitions, List.mem_append] at served ⊢
    refine keeps.bind (keeps.define base first
      (fun request member => served request (Or.inl member)) context starts) fun before holds => ?_
    refine keeps.weaken (keeps.defineAll base rest
      (fun request member => served request (Or.inr member)) before holds.1) fun after more => ?_
    exact ⟨more.1, fun request member => member.elim (holds.2 request) (more.2 request)⟩

end

end Walks

section Relations

variable {relation : ∀ {γ : Type}, Job σ γ → Job σ γ → Prop}

/-- **A relation of parts of jobs that sequences keep.** How the parts go on has only to be related for
a value that the first one can give. -/
structure Sequential (relation : ∀ {γ : Type}, Job σ γ → Job σ γ → Prop) : Prop where
  pure : ∀ {γ : Type} {value : γ}, relation (Pure.pure value) (Pure.pure value)
  stop : ∀ {γ : Type} {reason : Stop}, relation (throw reason : Job σ γ) (throw reason)
  bind : ∀ {γ δ : Type} {first second : Job σ γ} {next later : γ → Job σ δ},
    relation first second →
    (∀ value before after, first.run before = (.ok value, after) →
      relation (next value) (later value)) → relation (first >>= next) (second >>= later)

/-- What the first part gives may be kept beside such a relation. -/
theorem Sequential.compositional (rules : Sequential relation) :
    Compositional fun first second result => relation first second ∧ Gives first result where
  pure holds := ⟨rules.pure, fun _ _ _ same => by cases same; exact holds⟩
  bind := by
    rintro _ _ first second next later result last ⟨relates, gives⟩ further
    refine ⟨rules.bind relates fun value before after ran =>
      (further value (gives before value after ran)).1, fun before final after ran => ?_⟩
    obtain ⟨value, middle, ranFirst, ranNext⟩ := run_bind_ok ran
    exact (further value (gives before value middle ranFirst)).2 middle final after ranNext

variable {tools others : Tools σ} {path : String}
variable {visit follow : Context → Job σ (List Script.Step)}

/-- **Walks through the same nodes are related** if the parts that serve what they ask for are. -/
theorem Sequential.nodes (rules : Sequential relation) (nodes : List Node) (context : Context)
    (compiles : ∀ source,
      relation (expression tools path source) (expression others path source))
    (visits : ∀ inner : Context, .template inner.file ∈ Request.ofNodes context.file nodes →
      relation (visit inner) (follow inner)) :
    relation (Job.nodes tools path visit nodes context)
      (Job.nodes others path follow nodes context) := by
  have served : ∀ request ∈ Request.ofNodes context.file nodes,
      ServesBoth (fun first second result => relation first second ∧ Gives first result) tools
        others path visit follow (fun _ => True) request := by
    intro request asked
    cases request with
    | evaluator source => exact ⟨compiles source, fun _ _ _ _ => trivial⟩
    | template target => exact fun inner here => ⟨visits inner (here ▸ asked), fun _ _ _ _ => trivial⟩
  exact (rules.compositional.nodes context.file nodes served context rfl).1

/-- **Opening a template is related in two jobs** if fetching templates at certain addresses is, and
compiling expressions: includes lead to no other addresses. More templates may be open in the second
job where anything may stand beside a first part that stops as they are too many. -/
theorem Sequential.file (rules : Sequential relation) {allowed : String → Prop}
    (closed : ∀ base nodes target, .template target ∈ Request.ofNodes base nodes → allowed target)
    (fetches : ∀ path, allowed path → relation (fetch tools path) (fetch others path))
    (compiles : ∀ path source,
      relation (expression tools path source) (expression others path source))
    {depth more : Nat} (room : depth ≤ more)
    (enough : depth = more ∨
      ∀ second : Job σ (List Script.Step), relation (throw .tooDeep) second)
    (sources : List String) (context : Context) (here : allowed context.file) :
    relation (Job.file tools depth sources context) (Job.file others more sources context) := by
  induction depth generalizing more sources context with
  | zero =>
    rcases enough with rfl | anything
    · exact rules.stop
    · exact anything _
  | succ depth ih =>
    obtain ⟨more, rfl⟩ : ∃ less, more = less + 1 := ⟨more - 1, by omega⟩
    rw [Job.file, Job.file]
    by_cases again : context.file ∈ sources
    · rw [if_pos again, if_pos again]
      exact rules.stop
    · rw [if_neg again, if_neg again]
      refine rules.bind (fetches context.file here) fun content _ _ _ => ?_
      have visits : ∀ inner : Context, .template inner.file ∈ Request.ofNodes context.file content →
          relation (Job.file tools depth (sources ++ [context.file]) inner)
            (Job.file others more (sources ++ [context.file]) inner) := fun inner asked =>
        ih (Nat.le_of_succ_le_succ room) (enough.imp_left Nat.succ.inj) _ inner
          (closed context.file content inner.file asked)
      exact rules.bind (rules.nodes content context (compiles context.file) visits)
        fun _ _ _ _ => rules.pure

end Relations

section Walking

variable (tools : Tools σ) (path : String) (visit : Context → Job σ (List Script.Step))
variable (kept : Gathered σ → Prop) (fact : Request → Prop) (stop : Stop → Prop)

/-- **A request is served** under a contract: what is asked for is given, with a fact about the
request, or the job stops. -/
def Serves : Request → Prop
  | .evaluator source =>
    Meets (expression tools path source) kept (fun _ => fact (.evaluator source)) stop
  | .template target =>
    ∀ inner : Context, inner.file = target →
      Meets (visit inner) kept (fun _ => fact (.template target)) stop

variable {tools path visit kept fact stop}

/-- Meeting a contract is a property of one part that sequences keep. -/
theorem Meets.compositional :
    Compositional (σ := σ) fun first _ result => Meets first kept result stop :=
  ⟨fun holds => Meets.pure holds, fun first second => Meets.bind first second⟩

theorem Serves.both {request : Request} (served : Serves tools path visit kept fact stop request) :
    ServesBoth (fun first _ result => Meets first kept result stop) tools tools path visit visit fact
      request := by
  cases request with
  | evaluator source => exact served
  | template target => exact served

theorem node_meets (base : String) (node : Node)
    (served : ∀ request ∈ Request.ofNode base node, Serves tools path visit kept fact stop request)
    (context : Context) (starts : context.file = base) :
    Meets (Job.node tools path visit node context) kept
      (fun result => result.2.file = base ∧ ∀ request ∈ Request.ofNode base node, fact request)
      stop :=
  Meets.compositional.node base node (fun request asked => (served request asked).both) context
    starts

/-- **A walk through nodes meets the contract that all its requests meet**; includes after it start
where they started before. -/
theorem nodes_meets (base : String) (nodes : List Node)
    (served : ∀ request ∈ Request.ofNodes base nodes,
      Serves tools path visit kept fact stop request)
    (context : Context) (starts : context.file = base) :
    Meets (Job.nodes tools path visit nodes context) kept
      (fun result => result.2.file = base ∧ ∀ request ∈ Request.ofNodes base nodes, fact request)
      stop :=
  Meets.compositional.nodes base nodes (fun request asked => (served request asked).both) context
    starts

theorem define_meets (base : String) (definition : Definition)
    (served : ∀ request ∈ Request.ofDefinition base definition,
      Serves tools path visit kept fact stop request)
    (context : Context) (starts : context.file = base) :
    Meets (Job.define tools path visit definition context) kept
      (fun after => after.file = base ∧
        ∀ request ∈ Request.ofDefinition base definition, fact request) stop :=
  Meets.compositional.define base definition (fun request asked => (served request asked).both)
    context starts

theorem defineAll_meets (base : String) (definitions : List Definition)
    (served : ∀ request ∈ Request.ofDefinitions base definitions,
      Serves tools path visit kept fact stop request)
    (context : Context) (starts : context.file = base) :
    Meets (Job.defineAll tools path visit definitions context) kept
      (fun after => after.file = base ∧
        ∀ request ∈ Request.ofDefinitions base definitions, fact request) stop :=
  Meets.compositional.defineAll base definitions
    (fun request asked => (served request asked).both) context starts

/-- **Opening a template meets a contract** if, as long as it is not open yet, fetching it does and what
its nodes ask for is served. -/
theorem file_meets (fact : Request → Prop) {depth : Nat} {sources : List String} {context : Context}
    {content : List Node → Prop} {holds : Prop}
    (cycle : context.file ∈ sources →
      stop (.error (.cycle context.file (sources ++ [context.file]))))
    (fetched : context.file ∉ sources → Meets (fetch tools context.file) kept content stop)
    (served : context.file ∉ sources → ∀ nodes, content nodes →
      ∀ request ∈ Request.ofNodes context.file nodes,
        Serves tools context.file (file tools depth (sources ++ [context.file])) kept fact stop
          request)
    (gives : context.file ∉ sources → ∀ nodes, content nodes →
      (∀ request ∈ Request.ofNodes context.file nodes, fact request) → holds) :
    Meets (file tools (depth + 1) sources context) kept (fun _ => holds) stop := by
  rw [file]
  by_cases again : context.file ∈ sources
  · rw [if_pos again]
    exact Meets.fail (cycle again)
  · rw [if_neg again]
    refine (fetched again).bind fun nodes isContent => ?_
    have walk := nodes_meets context.file nodes (served again nodes isContent) context rfl
    exact walk.bind fun result all => Meets.pure (gives again nodes isContent all.2)

end Walking

/-! ### The whole job -/

/-- **A compile opens its root template**, and puts the template together from the steps of that and
the table at its end. -/
theorem compile_run (tools : Tools σ) (depth : Nat) (root : String) :
    compile tools depth root =
      (((file tools depth [] (Context.root (Address.resolve "" root))).run start).1.map fun steps =>
          Template.assemble steps
            ((file tools depth [] (Context.root (Address.resolve "" root))).run start).2.table,
        ((file tools depth [] (Context.root (Address.resolve "" root))).run start).2) :=
  rfl

/-- **A compile meets the contract of its root**: what is kept holds at its end, the template is put
together from a result, and an error is a reason to stop. -/
theorem compile_meets {tools : Tools σ} {depth : Nat} {root : String} {kept : Gathered σ → Prop}
    {result : List Script.Step → Prop} {stop : Stop → Prop}
    (meets : Meets (file tools depth [] (Context.root (Address.resolve "" root))) kept result stop)
    (begins : kept start) :
    kept (compile tools depth root).2 ∧
      match (compile tools depth root).1 with
      | .ok template => ∃ steps, result steps ∧
          template = Template.assemble steps (compile tools depth root).2.table
      | .error reason => stop reason := by
  obtain ⟨keeps, answer⟩ := meets start begins
  refine ⟨keeps, ?_⟩
  unfold compile
  cases run : (file tools depth [] (Context.root (Address.resolve "" root))).run start with
  | mk outcome gathered =>
    rw [run] at answer
    cases outcome with
    | ok steps => exact ⟨steps, answer, rfl⟩
    | error reason => exact answer

end Job

end Stencil.Assembly
