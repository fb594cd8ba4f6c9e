/-
**No compile reads outside the base directory.**

Every address that a job loads, or names in an error, has been resolved; resolved addresses lead
down. This holds of every run, whatever the templates say and however the run ends.

* `file_confined`: the templates opened inside a template are confined if it is;
* `compile_confined`: so is every address that a compile loads or reports.
-/

import Stencil.Proofs.JobContract
import Stencil.Proofs.ResolvedAddress
import Stencil.Store.Memory

namespace Stencil.Assembly

open Address (IsName LeadsDown Segment join)
open Markup (Definition Node)

/-- **The addresses that an error names**: that of the template at fault and those of a chain. -/
def CompileError.addresses : CompileError → List String
  | .load path _ => [path]
  | .parse path _ => [path]
  | .expression path _ => [path]
  | .cycle path chain => path :: chain

/-- **A confined address** leads down from the base directory. -/
def Confined (path : String) : Prop :=
  ∃ names, LeadsDown path.toList names

/-- All that was loaded is confined. -/
def LoadsConfined {σ : Type} (gathered : Gathered σ) : Prop :=
  ∀ path, Event.load path ∈ gathered.events → Confined path

/-- All that is named by the reason to stop is confined. -/
def StopConfined : Stop → Prop
  | .error cause => ∀ path ∈ cause.addresses, Confined path
  | .tooDeep => True

variable {σ : Type} {tools : Tools σ}

namespace Request

mutual

/-- **A template that nodes ask for has a resolved address.** -/
theorem confined_of_ofNode {base target : String} (node : Node)
    (asked : .template target ∈ ofNode base node) : Confined target := by
  cases node with
  | text content => simp [ofNode] at asked
  | definition definition => exact confined_of_ofDefinition definition asked
  | block name body => exact confined_of_ofNodes body asked
  | inclusion file overrides =>
    rcases List.mem_append.mp asked with inside | last
    · exact confined_of_ofDefinitions overrides inside
    · cases List.mem_singleton.mp last
      exact Address.resolve_leadsDown base file
  | expression source delivery => simp [ofNode] at asked
  | «variable» name source => simp [ofNode] at asked

theorem confined_of_ofNodes {base target : String} (nodes : List Node)
    (asked : .template target ∈ ofNodes base nodes) : Confined target := by
  cases nodes with
  | nil => cases asked
  | cons first rest =>
    rcases List.mem_append.mp asked with here | later
    · exact confined_of_ofNode first here
    · exact confined_of_ofNodes rest later

theorem confined_of_ofDefinition {base target : String} (definition : Definition)
    (asked : .template target ∈ ofDefinition base definition) : Confined target := by
  cases definition with
  | mk name mode body => exact confined_of_ofNodes body asked

theorem confined_of_ofDefinitions {base target : String} (definitions : List Definition)
    (asked : .template target ∈ ofDefinitions base definitions) : Confined target := by
  cases definitions with
  | nil => cases asked
  | cons first rest =>
    rcases List.mem_append.mp asked with here | later
    · exact confined_of_ofDefinition first here
    · exact confined_of_ofDefinitions rest later

end

end Request

namespace Job

/-- **Fetching a template at a confined address** loads nothing else. -/
theorem fetch_confined {path : String} (confined : Confined path) :
    Meets (fetch tools path) LoadsConfined (fun _ => True) StopConfined := by
  refine fetch_meets (fun _ _ _ _ => trivial) (fun gathered below other member => ?_)
    (fun _ _ => ?_) (fun _ _ gathered below other member => ?_) (fun _ _ _ _ => ?_)
    fun _ _ _ _ => ⟨trivial, fun _ below => below⟩
  · rcases Array.mem_push.mp member with before | now
    · exact below other before
    · cases now
      exact confined
  · simpa [StopConfined, CompileError.addresses] using confined
  · rcases Array.mem_push.mp member with before | now
    · exact below other before
    · cases now
  · simpa [StopConfined, CompileError.addresses] using confined

/-- **Opening a template at a confined address** loads and reports confined addresses only, at every
depth. -/
theorem file_confined (tools : Tools σ) (depth : Nat) (sources : List String) (context : Context)
    (opened : ∀ path ∈ sources, Confined path) (confined : Confined context.file) :
    Meets (file tools depth sources context) LoadsConfined (fun _ => True) StopConfined := by
  induction depth generalizing sources context with
  | zero => exact fun _ below => ⟨below, trivial⟩
  | succ depth ih =>
    have inside : ∀ path ∈ sources ++ [context.file], Confined path := by
      intro path member
      rcases List.mem_append.mp member with before | last
      · exact opened path before
      · exact List.mem_singleton.mp last ▸ confined
    refine file_meets (fun _ => True) (fun _ path member => ?_)
      (fun _ => fetch_confined confined) (fun _ content _ request asked => ?_)
      fun _ _ _ _ => trivial
    · rcases List.mem_cons.mp member with rfl | member
      · exact confined
      · exact inside path member
    · cases request with
      | evaluator source =>
        refine expression_meets (fun _ _ => ?_) fun _ _ _ below => below
        simpa [StopConfined, CompileError.addresses] using confined
      | template target =>
        intro inner here
        exact ih _ inner inside (here ▸ Request.confined_of_ofNodes content asked)

/-- **No compile reads outside the base directory.** Every address that it loads or names in an
error consists of names with slashes between them, and the file at that address is reached by these
names from the base directory. -/
theorem compile_confined (tools : Tools σ) (depth : Nat) (root path : String)
    (met : Event.load path ∈ (compile tools depth root).2.events ∨
      ∃ cause, (compile tools depth root).1 = .error (.error cause) ∧ path ∈ cause.addresses) :
    ∃ names : List Segment, (∀ name ∈ names, IsName name) ∧ path.toList = join names ∧
      path.toList.head? ≠ some '/' ∧ path.toList.getLast? ≠ some '/' ∧
      ∀ base, Store.Disk.fullWay base path = Store.Disk.way base ++ names.map String.ofList := by
  have confined : Confined path := by
    have rootConfined : Confined (Address.resolve "" root) := Address.resolve_leadsDown "" root
    have nothingLoaded : LoadsConfined (start : Gathered σ) := by simp [LoadsConfined, start]
    obtain ⟨loads, stop⟩ := compile_meets
      (file_confined tools depth [] _ (by simp) rootConfined) nothingLoaded
    rcases met with loaded | ⟨cause, failed, named⟩
    · exact loads path loaded
    · rw [failed] at stop
      exact stop path named
  obtain ⟨names, down⟩ := confined
  refine ⟨names, down.1, down.2, down.head?_ne_slash, down.getLast?_ne_slash, fun base => ?_⟩
  rw [← down.fullWay_eq base, String.ofList_toList]

/-- A page whose include, and the include in its override, try to leave the base directory. -/
def climbingTools : Tools Unit where
  load := ((Store.Memory.empty.put "pages/index.html" "page").put "x.html" "x").load
  parse source :=
    if source = "page" then
      .ok [.inclusion "../../layouts//base.html"
        [.mk "title" .append [.block "inner" [.inclusion "./../x.html" []]]]]
    else .ok [.text source]
  engine := Engine.standard

/-- From `../pages` the template of the override is loaded below the base directory. -/
theorem climbing_confined :
    Event.load "x.html" ∈ (compile climbingTools 3 "../pages/./index.html").2.events ∧
      ∃ names : List Segment, (∀ name ∈ names, IsName name) ∧ "x.html".toList = join names ∧
        "x.html".toList.head? ≠ some '/' ∧ "x.html".toList.getLast? ≠ some '/' ∧
        ∀ base, Store.Disk.fullWay base "x.html" =
          Store.Disk.way base ++ names.map String.ofList := by
  have loaded : Event.load "x.html" ∈
      (compile climbingTools 3 "../pages/./index.html").2.events := by
    decide +kernel
  exact ⟨loaded, compile_confined climbingTools 3 "../pages/./index.html" "x.html" (Or.inl loaded)⟩

end Job

end Stencil.Assembly
