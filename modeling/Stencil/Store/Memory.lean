/-
**Templates kept in memory**: sources by address, each under the very name it was put under.
-/

import Stencil.Address
import Stencil.Assoc
import Stencil.Store.Loader

namespace Stencil.Store

/-- **Sources by address.** -/
structure Memory where
  sources : Assoc String
  deriving Inhabited

namespace Memory

/-- No templates. -/
def empty : Memory := ⟨[]⟩

/-- **Puts a source** in place of the one that had the address. -/
def put (memory : Memory) (address source : String) : Memory :=
  ⟨memory.sources.insert address source⟩

/-- **The source at an address.** -/
def load (memory : Memory) (address : String) : Except LoadError String :=
  match memory.sources.find? address with
  | some source => .ok source
  | none => .error (.notFound address)

/-- **The addresses with an extension**, in order. -/
def list (memory : Memory) (extension : String) : List String :=
  memory.sources.names.filter fun address => Address.extension address = some extension

/-- The loader of these templates. -/
def loader (memory : Memory) : Loader :=
  ⟨memory.load, memory.list, memory.sources.length⟩

/-- **What is loaded after a source was put.** -/
theorem load_put (memory : Memory) (address other source : String) :
    (memory.put address source).load other =
      if address = other then .ok source else memory.load other := by
  by_cases same : address = other <;> simp [put, load, Assoc.find?_insert, same]

theorem load_eq_ok_iff {memory : Memory} {address source : String} :
    memory.load address = .ok source ↔ memory.sources.find? address = some source := by
  rw [load]
  cases memory.sources.find? address <;> simp

/-- What can be loaded has a name. -/
theorem mem_names_of_load {memory : Memory} {address source : String}
    (loaded : memory.load address = .ok source) : address ∈ memory.sources.names :=
  List.mem_map.mpr ⟨_, Assoc.mem_of_find? (load_eq_ok_iff.mp loaded), rfl⟩

end Memory

end Stencil.Store
