/-
**Loaders**: where the sources of templates come from.

A loader maps addresses to sources and lists the addresses with an extension. Only finitely many
addresses have a source.
-/

namespace Stencil.Store

/-- **Why a source is not loaded.** -/
inductive LoadError
  | notFound (address : String)
  /-- Something is there but no text. -/
  | unreadable (address : String)
  deriving DecidableEq, Repr

/-- The wording of a load error. -/
def LoadError.message : LoadError → String
  | .notFound address => "template not found: " ++ address
  | .unreadable address => "template not readable: " ++ address

/-- **A loader.** -/
structure Loader where
  /-- The source at an address. -/
  load : String → Except LoadError String
  /-- The addresses with an extension, in order. -/
  list : String → List String
  /-- No more than this many addresses can be loaded. -/
  size : Nat

/-- The same loader, but one that lists nothing. -/
def Loader.withoutListing (loader : Loader) : Loader :=
  { loader with list := fun _ => [] }

end Stencil.Store
