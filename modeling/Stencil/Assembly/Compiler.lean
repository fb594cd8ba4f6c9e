/-
**Compilers and catalogues.**

A compiler serves compiles from one loader, with one parser and one engine. A catalogue holds the
compiled templates of a directory by address.

* `Compiler.compile`: one template with all that it includes;
* `Compiler.compileAll`: every template that the loader lists, each as its own root.
-/

import Stencil.Assembly.Job

namespace Stencil.Assembly

/-- **A compiler.** -/
structure Compiler (σ : Type) where
  loader : Store.Loader
  parse : String → Except Markup.ParseError (List Markup.Node) := Markup.Node.parse
  engine : Engine σ := Engine.standard
  /-- The extension of the templates that make up a catalogue. -/
  extension : String := "html"

/-- **What a compile answers**: its result, and what it asked of its tools, in order. -/
structure Report (α : Type) where
  result : Except Stop α
  events : List Event

/-- The addresses that were loaded, in order. -/
def Report.loads {α : Type} (report : Report α) : List String :=
  report.events.filterMap fun event =>
    match event with
    | .load path => some path
    | .parse _ => none

/-- How often the parser was called. -/
def Report.parses {α : Type} (report : Report α) : Nat :=
  report.events.countP fun event =>
    match event with
    | .load _ => false
    | .parse _ => true

/-- **Compiled templates by address.** -/
structure Catalogue (σ : Type) where
  templates : Assoc (Template σ)

namespace Catalogue

variable {σ : Type}

/-- No templates. -/
def empty : Catalogue σ := ⟨[]⟩

/-- The template with an address. -/
def find? (catalogue : Catalogue σ) (name : String) : Option (Template σ) :=
  catalogue.templates.find? name

/-- The addresses, in order. -/
def names (catalogue : Catalogue σ) : List String :=
  catalogue.templates.names

/-- The number of templates. -/
def size (catalogue : Catalogue σ) : Nat :=
  catalogue.templates.length

/-- **Renders the template with an address.** -/
def render (catalogue : Catalogue σ) (name : String) (bindings : Value) (host : σ) :
    Except RenderError String × σ :=
  match catalogue.find? name with
  | none => (.error (.unknownTemplate name), host)
  | some template => template.render bindings host

end Catalogue

namespace Compiler

variable {σ : Type}

/-- What the compiler gives a job to work with. -/
def tools (compiler : Compiler σ) : Tools σ :=
  ⟨compiler.loader.load, compiler.parse, compiler.engine⟩

/-- **Compiles one template** with all that it includes. Templates that are open inside each other
have different addresses, so one more than can be loaded are enough. -/
def compile (compiler : Compiler σ) (root : String) : Report (Template σ) :=
  let (result, gathered) := Job.compile compiler.tools (compiler.loader.size + 1) root
  ⟨result, gathered.events.toList⟩

/-- **Compiles the templates with the given names**, each as its own root, up to the first error. -/
def compileEach (compiler : Compiler σ) (catalogue : Catalogue σ) :
    List String → Report (Catalogue σ)
  | [] => ⟨.ok catalogue, []⟩
  | name :: rest =>
    let first := compiler.compile name
    match first.result with
    | .error stop => ⟨.error stop, first.events⟩
    | .ok template =>
      let more := compiler.compileEach ⟨catalogue.templates.insert name template⟩ rest
      ⟨more.result, first.events ++ more.events⟩

/-- **Compiles every template that the loader lists** with the compiler's extension. -/
def compileAll (compiler : Compiler σ) : Report (Catalogue σ) :=
  compiler.compileEach Catalogue.empty (compiler.loader.list compiler.extension)

end Compiler

end Stencil.Assembly
