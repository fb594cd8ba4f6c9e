/-
**Scopes**: what names stand for while a template is rendered.

A scope has bindings of its own, encloses into scopes further out, and the outermost one may read
bindings that it was given and never writes to.

* `Scope.get_set`: after `set`, a name stands for its new value and every other name for its old one;
* `Scope.leave_nested`: leaving a nested scope gives back the scope it was opened in.
-/

import Stencil.Value.Basic

namespace Stencil

/-- **A scope**: its own bindings, those of the scopes around it from the nearest outward, and the
bindings that the outermost of them was given. -/
structure Scope where
  own : Assoc Value
  around : List (Assoc Value)
  given : Assoc Value
  deriving Inhabited

namespace Scope

/-- An outermost scope that owns `bindings`. -/
def ofBindings (bindings : Assoc Value) : Scope := ⟨bindings, [], []⟩

/-- An outermost scope that reads `bindings` and never writes to them. -/
def reading (bindings : Assoc Value) : Scope := ⟨[], [], bindings⟩

/-- An outermost scope without bindings. -/
def empty : Scope := ofBindings []

/-- **What a name stands for**: in the scope itself, else in the nearest scope around it that knows
the name, else in the bindings it was given. -/
def get (scope : Scope) (name : String) : Option Value :=
  ((scope.own :: scope.around).findSome? (Assoc.find? name)).or (scope.given.find? name)

/-- **Binds a name** in the scope itself. -/
def set (scope : Scope) (name : String) (value : Value) : Scope :=
  { scope with own := scope.own.insert name value }

/-- **Opens a scope** inside this one. -/
def nested (scope : Scope) : Scope :=
  { scope with own := [], around := scope.own :: scope.around }

/-- The scope that this one was opened in; an outermost scope was opened in none. -/
def leave (scope : Scope) : Option Scope :=
  match scope.around with
  | [] => none
  | own :: around => some { scope with own, around }

/-- **What names stand for after a binding.** -/
theorem get_set (scope : Scope) (name other : String) (value : Value) :
    (scope.set name value).get other = if name = other then some value else scope.get other := by
  by_cases same : name = other <;> simp [get, set, List.findSome?_cons, Assoc.find?_insert, same]

/-- **Leaving a nested scope gives back the scope it was opened in.** -/
theorem leave_nested (scope : Scope) : scope.nested.leave = some scope := rfl

end Scope

end Stencil
