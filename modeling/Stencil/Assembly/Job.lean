/-
**One compile.**

A job starts at a root template, loads and parses every template it comes upon once, and turns nodes
into steps. Definitions are compiled where they stand and put into the blocks that are compiled after
them. The recursion has two parts: `Job.node` goes through the nodes of one template and leaves
includes to a function that it is given; `Job.file` goes from template to template and is given the
number of templates that may be open inside each other.

* `Job.fetch`: the nodes of a template, loaded and parsed at most once;
* `Job.node`, `Job.nodes`: the steps of nodes;
* `Job.file`: the steps of a template;
* `Job.compile`: the compiled template of a root.
-/

import Stencil.Address
import Stencil.Assembly.Context
import Stencil.Assembly.Fault
import Stencil.Engine
import Stencil.Markup.Tree
import Stencil.Script.Run

namespace Stencil.Assembly

open Markup (Definition Delivery Node)
open Script (Step)

/-- **What a job works with**: a source of templates, a parser and an engine for expressions. -/
structure Tools (σ : Type) where
  load : String → Except Store.LoadError String
  parse : String → Except Markup.ParseError (List Node)
  engine : Engine σ

/-- **What a job asks of its tools**: the source at an address, or the nodes of a source. -/
inductive Event
  | load (path : String)
  | parse (source : String)
  deriving DecidableEq, Repr

/-- **What a job has gathered**: what it asked for, in order, the nodes of the templates it has
parsed, and the table of expressions. -/
structure Gathered (σ : Type) where
  events : Array Event
  parsed : Assoc (List Node)
  table : Array (Evaluator σ)

/-- **A part of a job**: it gathers and may stop early. -/
abbrev Job (σ : Type) := ExceptT Stop (StateM (Gathered σ))

namespace Job

variable {σ : Type}

/-- Stops with an error. -/
def fail {α : Type} (error : CompileError) : Job σ α :=
  throw (.error error)

/-- Takes over a result; its error becomes one of the job's. -/
def orFail {ε α : Type} (toError : ε → CompileError) : Except ε α → Job σ α
  | .ok value => pure value
  | .error error => fail (toError error)

/-- Records an event. -/
def record (event : Event) : Job σ Unit :=
  modify fun gathered => { gathered with events := gathered.events.push event }

/-- Keeps the nodes of a template. -/
def keep (path : String) (nodes : List Node) : Job σ Unit :=
  modify fun gathered => { gathered with parsed := gathered.parsed.insert path nodes }

/-- **The nodes of the template at `path`**, loaded and parsed if they were not before. -/
def fetch (tools : Tools σ) (path : String) : Job σ (List Node) := do
  match (← get).parsed.find? path with
  | some nodes => pure nodes
  | none =>
    record (.load path)
    let source ← orFail (.load path) (tools.load path)
    record (.parse source)
    let nodes ← orFail (.parse path) (tools.parse source)
    keep path nodes
    pure nodes

/-- **Compiles an expression** of the template at `path`: its index in the table. -/
def expression (tools : Tools σ) (path source : String) : Job σ Nat := do
  let evaluator ← orFail (.expression path) (tools.engine.compile source)
  let index := (← get).table.size
  modify fun gathered => { gathered with table := gathered.table.push evaluator }
  pure index

/-- The step for the expression with the given index. -/
def deliver (index : Nat) : Delivery → Step
  | .escaped => .emit index true
  | .raw => .emit index false
  | .dropped => .eval index

mutual

/-- **Compiles a node** of the template at `path`: its steps, and the context for the nodes after it.
The included templates are compiled by `visit`. -/
def node (tools : Tools σ) (path : String) (visit : Context → Job σ (List Step)) :
    Node → Context → Job σ (List Step × Context)
  | .text content, context => pure ([.text content], context)
  | .definition definition, context => do
    pure ([], ← define tools path visit definition context)
  | .block name body, context => do
    let filling := context.find? name
    let (steps, context) ← nodes tools path visit body context
    pure ((filling.map fun found => found.fill steps).getD steps, context)
  | .inclusion file overrides, context => do
    let inner ← defineAll tools path visit overrides
      (context.inside (Address.resolve context.file file))
    pure ([.nested (← visit inner)], context)
  | .expression source delivery, context => do
    pure ([deliver (← expression tools path source) delivery], context)
  | .variable name source, context => do
    pure ([.assign name (← expression tools path source)], context)

/-- **Compiles nodes** one after the other. -/
def nodes (tools : Tools σ) (path : String) (visit : Context → Job σ (List Step)) :
    List Node → Context → Job σ (List Step × Context)
  | [], context => pure ([], context)
  | first :: rest, context => do
    let (steps, context) ← node tools path visit first context
    let (more, context) ← nodes tools path visit rest context
    pure (steps ++ more, context)

/-- **Compiles a definition**: the context in which it is known. Definitions in its body are known
there too. -/
def define (tools : Tools σ) (path : String) (visit : Context → Job σ (List Step)) :
    Definition → Context → Job σ Context
  | .mk name mode body, context => do
    let (code, context) ← nodes tools path visit body context
    pure (context.define name ⟨mode, code⟩)

/-- **Compiles definitions** one after the other. -/
def defineAll (tools : Tools σ) (path : String) (visit : Context → Job σ (List Step)) :
    List Definition → Context → Job σ Context
  | [], context => pure context
  | first :: rest, context => do
    let context ← define tools path visit first context
    defineAll tools path visit rest context

end

/-- **Compiles the template of a context.** `sources` are the templates that are open around it, the
outermost first; at most `depth` more may be opened. A template that is open already is a cycle. -/
def file (tools : Tools σ) : Nat → List String → Context → Job σ (List Step)
  | 0, _, _ => throw .tooDeep
  | depth + 1, sources, context => do
    if context.file ∈ sources then fail (.cycle context.file (sources ++ [context.file]))
    else
      let content ← fetch tools context.file
      let visit := file tools depth (sources ++ [context.file])
      let (steps, _) ← nodes tools context.file visit content context
      pure steps

/-- What a job has gathered before it starts. -/
def start : Gathered σ := ⟨#[], [], #[]⟩

/-- **Compiles a root template** with all that it includes. -/
def compile (tools : Tools σ) (depth : Nat) (root : String) :
    Except Stop (Template σ) × Gathered σ :=
  let (result, gathered) :=
    (file tools depth [] (Context.root (Address.resolve "" root))).run start
  (result.map fun steps => Template.assemble steps gathered.table, gathered)

end Job

end Stencil.Assembly
