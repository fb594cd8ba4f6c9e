/-
**What is defined where.**

There is one level of definitions for the root template and one for every include. A block finds the
definition of its name at the nearest level that has one.

* `Context.define`: adds a definition at the innermost level;
* `Context.find?_define`: what a block finds after that.
-/

import Stencil.Assoc
import Stencil.Markup.Node
import Stencil.Script.Step

namespace Stencil.Assembly

/-- **A definition whose body has been compiled.** -/
structure Filling where
  mode : Markup.Mode
  code : List Script.Step
  deriving Inhabited

/-- The steps for a block whose own content compiles to `body`: an appended definition follows it, any
other takes its place. -/
def Filling.fill (filling : Filling) (body : List Script.Step) : List Script.Step :=
  match filling.mode with
  | .append => body ++ filling.code
  | .override => filling.code
  | .prepend => filling.code

/-- **Where a node is compiled**: the address that its includes start from, the definitions of its own
level, and those of the levels around it, the nearest first. -/
structure Context where
  file : String
  own : Assoc Filling
  around : List (Assoc Filling)
  deriving Inhabited

namespace Context

/-- The outermost level, without definitions. -/
def root (file : String) : Context := ⟨file, [], []⟩

/-- **A level inside this one**, for an include of `file`. -/
def inside (context : Context) (file : String) : Context :=
  ⟨file, [], context.own :: context.around⟩

/-- **The definition that a block finds**: that of the nearest level. -/
def find? (context : Context) (name : String) : Option Filling :=
  (context.own :: context.around).findSome? (Assoc.find? name)

/-- **Adds a definition** at the innermost level, in place of the one that had the name. -/
def define (context : Context) (name : String) (filling : Filling) : Context :=
  { context with own := context.own.insert name filling }

/-- **What a block finds after a definition was added.** -/
theorem find?_define (context : Context) (name other : String) (filling : Filling) :
    (context.define name filling).find? other =
      if name = other then some filling else context.find? other := by
  by_cases same : name = other <;>
    simp [find?, define, List.findSome?_cons, Assoc.find?_insert, same]

end Context

end Stencil.Assembly
