/-
**Scripts**: the steps that write the output of a compiled template.

Expressions stand in a table; a step refers to one by its index.

* `coalesce`: the same steps without empty text and with neighbouring texts joined.
-/

namespace Stencil.Script

/-- **One step** of a script. -/
inductive Step
  /-- Write text. -/
  | text (content : String)
  /-- Evaluate an expression and write its value, with HTML escapes if `escape` is set. -/
  | emit (index : Nat) (escape : Bool)
  /-- Evaluate an expression and drop its value. -/
  | eval (index : Nat)
  /-- Evaluate an expression and bind its value to a name. -/
  | assign (name : String) (index : Nat)
  /-- Run steps in a scope of their own. -/
  | nested (body : List Step)
  deriving Inhabited

/-- **Puts text before steps**: it joins the text they start with, if they start with text; empty text
is left out. -/
def putText (content : String) (steps : List Step) : List Step :=
  if content = "" then steps
  else
    match steps with
    | .text first :: rest => .text (content ++ first) :: rest
    | steps => .text content :: steps

mutual

/-- A step with its body coalesced. -/
def Step.coalesce : Step → Step
  | .text content => .text content
  | .emit index escape => .emit index escape
  | .eval index => .eval index
  | .assign name index => .assign name index
  | .nested body => .nested (coalesce body)

/-- **The same steps without empty text** and with neighbouring texts joined, in bodies too. -/
def coalesce : List Step → List Step
  | [] => []
  | .text content :: rest => putText content (coalesce rest)
  | step :: rest => step.coalesce :: coalesce rest

end

end Stencil.Script
