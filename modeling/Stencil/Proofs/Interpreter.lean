/-
**Reading templates without compiling them.**

The interpreter goes through the nodes of a template while it writes the output; it builds no steps
and no table. A definition is kept as a closure: its body, and the scene in which it stands. A block
looks for a closure before its own body is read, and the body of the closure is read where the
closure was made, with the names that are bound where the block stands.

* `Closure`, `Scene`: what a block finds, and where nodes are read;
* `Scene.afterNodes`: the scene after nodes, with the definitions in them;
* `Tools.readNodes`: **the interpreter**, which is nowhere defined only where includes never end,
  where a template is missing or where the engine refuses an expression;
* `readTemplate`: a root template read over given bindings.
-/

import Stencil.Proofs.Inclusion

namespace Stencil.Assembly

open Markup (Definition Delivery Mode Node)
open Script (Progress)

/-! ### Closures and scenes -/

/-- **A definition that was met**: how it meets its block, its body, and the scene in which it
stands, given by the address that includes start from and by the closures of each level, the nearest
first. -/
inductive Closure
  | mk (mode : Mode) (body : List Node) (file : String) (own : List (String × Closure))
    (around : List (List (String × Closure)))

/-- **Where nodes are read**: the address that their includes start from, the closures of their own
level, and those of the levels around it. -/
structure Scene where
  file : String
  own : Assoc Closure
  around : List (Assoc Closure)

namespace Closure

/-- How a closure meets its block. -/
def mode : Closure → Mode
  | .mk mode _ _ _ _ => mode

/-- The body of a closure. -/
def body : Closure → List Node
  | .mk _ body _ _ _ => body

/-- The scene in which the body is read. -/
def scene : Closure → Scene
  | .mk _ _ file own around => ⟨file, own, around⟩

end Closure

namespace Scene

/-- The outermost level, without closures. -/
def root (file : String) : Scene := ⟨file, [], []⟩

/-- A level inside this one, for an include of `file`. -/
def inside (scene : Scene) (file : String) : Scene := ⟨file, [], scene.own :: scene.around⟩

/-- **The closure that a block finds**: that of the nearest level. -/
def find? (scene : Scene) (name : String) : Option Closure :=
  (scene.own :: scene.around).findSome? (Assoc.find? name)

/-- A definition that is met in this scene. -/
def close (scene : Scene) (mode : Mode) (body : List Node) : Closure :=
  .mk mode body scene.file scene.own scene.around

/-- Binds a name at the innermost level. -/
def bind (scene : Scene) (name : String) (closure : Closure) : Scene :=
  { scene with own := scene.own.insert name closure }

/-- **What a block finds after a name was bound.** -/
theorem find?_bind (scene : Scene) (name other : String) (closure : Closure) :
    (scene.bind name closure).find? other =
      if name = other then some closure else scene.find? other := by
  by_cases same : name = other <;>
    simp [find?, bind, List.findSome?_cons, Assoc.find?_insert, same]

mutual

/-- **The scene after a node**: definitions in it are known, those in an include are not. -/
def afterNode (scene : Scene) : Node → Scene
  | .text _ => scene
  | .definition definition => scene.afterDefinition definition
  | .block _ body => scene.afterNodes body
  | .inclusion _ _ => scene
  | .expression _ _ => scene
  | .variable _ _ => scene

/-- The scene after nodes. -/
def afterNodes (scene : Scene) : List Node → Scene
  | [] => scene
  | first :: rest => (scene.afterNode first).afterNodes rest

/-- **The scene after a definition**: first the definitions in its body are known, then the name
stands for a closure, whose scene is the one before its body. -/
def afterDefinition (scene : Scene) : Definition → Scene
  | .mk name mode body => (scene.afterNodes body).bind name (scene.close mode body)

end

/-- The scene after the definitions that an include is given. -/
def afterDefinitions (scene : Scene) : List Definition → Scene
  | [] => scene
  | first :: rest => (scene.afterDefinition first).afterDefinitions rest

end Scene

/-! ### Reading -/

variable {σ : Type}

/-- **A part of a reading**: it changes the progress, may fail, and may have no end. -/
abbrev Reading (σ : Type) := ExceptT EvalError (StateT (Progress σ) Option)

namespace Reading

/-- Writes text. -/
def write (content : String) : Reading σ Unit :=
  modify fun progress => { progress with output := progress.output ++ content }

/-- Binds a name in the current scope. -/
def bind (name : String) (value : Value) : Reading σ Unit :=
  modify fun progress => { progress with scope := progress.scope.set name value }

/-- **The value of an expression** in the current scope. -/
def evaluate (engine : Engine σ) (source : String) : Reading σ Value := fun progress =>
  match engine.compile source with
  | .error _ => none
  | .ok evaluator =>
    let (result, host) := evaluator progress.scope progress.host
    some (result, { progress with host })

end Reading

open Reading

mutual

/-- **Reads a node.** -/
def Tools.readNode (tools : Tools σ) (scene : Scene) : Node → Reading σ Unit
  | .text content => write content
  | .definition _ => pure ()
  | .block name body =>
    match scene.find? name with
    | none => tools |>.readNodes scene body
    | some closure =>
      match closure.mode with
      | .append => do
        tools |>.readNodes scene body
        tools |>.readNodes closure.scene closure.body
      | .override => tools |>.readNodes closure.scene closure.body
      | .prepend => tools |>.readNodes closure.scene closure.body
  | .inclusion file overrides =>
    let inner := (scene.inside (Address.resolve scene.file file)).afterDefinitions overrides
    match tools.tree? inner.file with
    | none => fun _ => none
    | some content => fun progress => do
      let opened := { progress with scope := progress.scope.nested }
      let (result, after) ← tools |>.readNodes inner content opened
      some (result, { after with scope := progress.scope })
  | .expression source delivery => do
    let value ← evaluate tools.engine source
    match delivery with
    | .escaped => write (Html.escape value.output)
    | .raw => write value.output
    | .dropped => pure ()
  | .variable name source => do
    let value ← evaluate tools.engine source
    Reading.bind name value
partial_fixpoint

/-- **Reads nodes** one after the other. -/
def Tools.readNodes (tools : Tools σ) (scene : Scene) : List Node → Reading σ Unit
  | [] => pure ()
  | first :: rest => do
    tools |>.readNode scene first
    tools |>.readNodes (scene.afterNode first) rest
partial_fixpoint

end

/-- The output of a root template over an outermost scope, or the first error, and the host's state
afterwards. -/
def readTemplateIn (tools : Tools σ) (root : String) (scope : Scope) (host : σ) :
    Option (Except EvalError String × σ) := do
  let file := Address.resolve "" root
  let content ← tools.tree? file
  let (result, after) ← tools.readNodes (Scene.root file) content ⟨scope, "", host⟩
  some (result.map fun _ => after.output, after.host)

/-- **Reads a root template over bindings**, which must be an object, or null for none. -/
def readTemplate (tools : Tools σ) (root : String) (bindings : Value) (host : σ) :
    Option (Except RenderError String × σ) :=
  match bindings with
  | .object fields =>
    (readTemplateIn tools root (Scope.reading fields) host).map fun answer =>
      (answer.1.mapError RenderError.evaluation, answer.2)
  | .null =>
    (readTemplateIn tools root (Scope.reading []) host).map fun answer =>
      (answer.1.mapError RenderError.evaluation, answer.2)
  | other => some (.error (.bindings other.kind), host)

end Stencil.Assembly
