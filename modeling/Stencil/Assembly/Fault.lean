/-
**Why a template is not compiled.**

* `CompileError.path`: the template at fault;
* `CompileError.message`: the wording.
-/

import Stencil.Formula.Fault
import Stencil.Markup.Fault
import Stencil.Store.Loader

namespace Stencil.Assembly

/-- **Why compiling fails**, with the address of the template at fault. -/
inductive CompileError
  | load (path : String) (cause : Store.LoadError)
  | parse (path : String) (cause : Markup.ParseError)
  | expression (path : String) (cause : Formula.Fault)
  /-- A template includes itself, over the templates of the chain. -/
  | cycle (path : String) (chain : List String)
  deriving DecidableEq, Repr

namespace CompileError

/-- **The template at fault.** -/
def path : CompileError → String
  | .load path _ => path
  | .parse path _ => path
  | .expression path _ => path
  | .cycle path _ => path

/-- **The wording of a compile error.** -/
def message : CompileError → String
  | .load path cause => "failed to load template `" ++ path ++ "`: " ++ cause.message
  | .parse path cause => "failed to parse template `" ++ path ++ "`: " ++ cause.message
  | .expression path cause => "invalid expression in template `" ++ path ++ "`: " ++ cause.message
  | .cycle path chain =>
    "template `" ++ path ++ "` includes itself via " ++ " -> ".intercalate chain

end CompileError

/-- **Why a job ends early**: with an error, or because templates include each other more deeply than
it was allowed to follow. -/
inductive Stop
  | error (cause : CompileError)
  | tooDeep
  deriving DecidableEq, Repr

end Stencil.Assembly
