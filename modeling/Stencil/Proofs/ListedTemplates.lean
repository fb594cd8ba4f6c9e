/-
**What a catalogue serves under the name of a template.**

A catalogue is made of every template that memory lists with an extension, each compiled as a root of
its own and kept under its name. A root is resolved before it is loaded, so the text that is compiled
for a name is the one at the address that the name resolves to. For a name that leads down this is its
own text. For any other name it is the text of another template, and if there is none then no
catalogue is made.

* `Memory.filled`: memory with whatever templates were put into it;
* `compileEach_serves`: what a catalogue holds after the listed templates were compiled;
* `compile_asks_root`: **a compile asks for its root first**, and has its source parsed;
* `Compiler.compileAll_serves`: **the names of a catalogue**, and the text that is compiled for each;
* `Compiler.dottedPages_shadowed`: a name under which another template is served.
-/

import Stencil.Proofs.Confinement
import Stencil.Proofs.DiskAndMemory
import Stencil.Proofs.LoadedOnly
import Stencil.Proofs.SortedNames

namespace Stencil

open Markup (Node)

/-! ### What memory lists -/

namespace Store.Memory

/-- **Memory into which templates were put** one after the other, whatever their names. -/
def filled (inserted : List (String × String)) : Memory :=
  inserted.foldl (fun memory entry => memory.put entry.1 entry.2) empty

theorem sources_filled (inserted : List (String × String)) :
    (filled inserted).sources = Assoc.ofList inserted := by
  induction inserted using List.reverseRecOn with
  | nil => rfl
  | append_singleton inserted entry ih =>
    rw [Assoc.ofList_concat, ← ih, filled, filled, List.foldl_append]
    rfl

/-- **Memory lists the names with an extension** that something was put under. -/
theorem mem_list_filled {inserted : List (String × String)} {extension name : String} :
    name ∈ (filled inserted).list extension ↔
      name ∈ inserted.map Prod.fst ∧ Address.extension name = some extension := by
  rw [list, sources_filled, List.mem_filter, Assoc.mem_names_ofList, decide_eq_true_iff]

/-- What was put under a name can be loaded. -/
theorem load_filled {inserted : List (String × String)} {name : String}
    (member : name ∈ inserted.map Prod.fst) : ∃ source, (filled inserted).load name = .ok source := by
  rw [← Assoc.mem_names_ofList, ← sources_filled] at member
  obtain ⟨source, found⟩ := Assoc.find?_of_mem_names member
  exact ⟨source, load_eq_ok_iff.mpr found⟩

end Store.Memory

namespace Assembly

open Store (Memory)

variable {σ : Type}

/-! ### The root of a compile -/

namespace Job

variable {tools : Tools σ} {begun : List Event}

theorem fetch_events (path : String) :
    Meets (fetch tools path) (fun gathered => begun <+: gathered.events.toList) (fun _ => True)
      fun _ => True := by
  have more : ∀ (gathered : Gathered σ) event, begun <+: gathered.events.toList →
      begun <+: (gathered.events.push event).toList := fun gathered event begins => by
    rw [Array.toList_push]
    exact begins.trans (List.prefix_append _ _)
  exact fetch_meets (fun _ _ _ _ => trivial) (fun _ begins => more _ _ begins) (fun _ _ => trivial)
    (fun _ _ _ begins => more _ _ begins) (fun _ _ _ _ => trivial)
    fun _ _ _ _ => ⟨trivial, fun _ begins => begins⟩

/-- **What was asked stays asked** while templates are compiled. -/
theorem file_events (depth : Nat) (sources : List String) (context : Context) :
    Meets (file tools depth sources context) (fun gathered => begun <+: gathered.events.toList)
      (fun _ => True) fun _ => True := by
  induction depth generalizing sources context with
  | zero => exact fun _ begins => ⟨begins, trivial⟩
  | succ depth ih =>
    refine file_meets (fun _ => True) (fun _ => trivial) (fun _ => fetch_events context.file)
      (fun _ content _ request _ => ?_) fun _ _ _ _ => trivial
    cases request with
    | evaluator source => exact expression_meets (fun _ _ => trivial) fun _ _ _ begins => begins
    | template target => exact fun inner _ => ih _ inner

theorem nodes_events {path : String} (depth : Nat) (sources : List String) (nodes : List Node)
    (context : Context) :
    Meets (Job.nodes tools path (file tools depth sources) nodes context)
      (fun gathered => begun <+: gathered.events.toList) (fun _ => True) fun _ => True := by
  have served : ∀ request ∈ Request.ofNodes context.file nodes,
      Serves tools path (file tools depth sources)
        (fun gathered => begun <+: gathered.events.toList) (fun _ => True) (fun _ => True)
        request := by
    intro request _
    cases request with
    | evaluator source =>
      exact expression_meets (fun _ _ => trivial) fun _ _ _ begins => begins
    | template target => exact fun inner _ => file_events depth sources inner
  exact (nodes_meets context.file nodes served context rfl).weaken (fun _ _ => trivial)
    fun _ _ => trivial

/-- **A compile asks for its root first**: it loads it, and has what it has loaded parsed. -/
theorem compile_asks_root (tools : Tools σ) (depth : Nat) (root : String) :
    tools.asks (Address.resolve "" root) <+: (compile tools (depth + 1) root).2.events.toList := by
  let path := Address.resolve "" root
  rw [compile_run, file, if_neg List.not_mem_nil, run_bind, fetch_new rfl, run_bind,
    fetchAfresh_run, Tools.asks]
  dsimp only [Context.root]
  cases tools.load path with
  | error error => exact List.prefix_rfl
  | ok source =>
    dsimp only
    cases tools.parse source with
    | error error => exact List.prefix_rfl
    | ok content =>
      have walk : Meets
          (nodes tools path (file tools depth [path]) content (.root path) >>= fun result =>
            pure result.1)
          (fun gathered => [.load path, .parse source] <+: gathered.events.toList)
          (fun _ => True) (fun _ => True) :=
        (nodes_events depth [path] content _).bind fun _ _ => Meets.pure trivial
      exact (walk _ List.prefix_rfl).1

end Job

/-! ### Catalogues -/

namespace Compiler

/-- **What a catalogue holds after listed templates were compiled**: the names of these and what it held
before, sorted, and under each listed name what its own compile gives. -/
theorem compileEach_serves (compiler : Compiler σ) {names : List String}
    {before catalogue : Catalogue σ} (sorted : before.templates.Sorted)
    (succeeds : (compiler.compileEach before names).result = .ok catalogue) :
    catalogue.templates.Sorted ∧
      (∀ name, name ∈ catalogue.names ↔ name ∈ before.names ∨ name ∈ names) ∧
      (∀ name ∈ names, ∃ template, catalogue.find? name = some template ∧
        (compiler.compile name).result = .ok template) ∧
      ∀ name ∉ names, catalogue.find? name = before.find? name := by
  induction names generalizing before with
  | nil =>
    cases succeeds
    exact ⟨sorted, by simp, by simp, fun _ _ => rfl⟩
  | cons first rest ih =>
    rw [compileEach] at succeeds
    cases compiled : (compiler.compile first).result with
    | error stop =>
      simp only [compiled] at succeeds
      cases succeeds
    | ok template =>
      simp only [compiled] at succeeds
      obtain ⟨stays, names, serves, others⟩ :=
        ih (Assoc.insert_sorted sorted first template) succeeds
      refine ⟨stays, fun name => ?_, fun name member => ?_, fun name absent => ?_⟩
      · rw [names, Catalogue.names, Assoc.mem_names_insert, List.mem_cons, or_assoc, or_left_comm]
        rfl
      · by_cases again : name ∈ rest
        · exact serves name again
        · obtain rfl := (List.mem_cons.mp member).resolve_right again
          refine ⟨template, ?_, compiled⟩
          rw [others name again]
          exact Assoc.find?_insert_self name template before.templates
      · obtain ⟨differs, later⟩ := not_or.mp (mt List.mem_cons.mpr absent)
        rw [others name later]
        exact Assoc.find?_insert_of_ne (Ne.symm differs) template before.templates

/-- **A compile that succeeds** has loaded the source of its root, and had it parsed, before anything
else. -/
theorem compile_root_source (compiler : Compiler σ) {root : String} {template : Template σ}
    (compiled : (compiler.compile root).result = .ok template) :
    ∃ source, compiler.loader.load (Address.resolve "" root) = .ok source ∧
      [.load (Address.resolve "" root), .parse source] <+: (compiler.compile root).events := by
  obtain ⟨-, nodes, tree, -⟩ : Opens compiler.tools (compiler.loader.size + 1) [] _ :=
    Job.compile_opens.mp ⟨template, compiled⟩
  obtain ⟨source, loaded, -⟩ := Tools.tree?_eq_some_iff.mp tree
  have asks := Job.compile_asks_root compiler.tools compiler.loader.size root
  rw [Tools.asks, loaded] at asks
  exact ⟨source, loaded, asks⟩

/-- **A catalogue serves every listed template that has a name which leads down.** However memory was
filled, if a catalogue is made then its names are those with the extension that something was put
under, sorted, and under each of them it holds what compiling that name as a root gives. The text of
this root is the one at the address that the name resolves to. So it is the text that was put under
the name itself where both are the same; and they are the same for each name that consists of
segments with single slashes between them, of which none is empty, `.` or `..`. -/
theorem compileAll_serves (compiler : Compiler σ) (inserted : List (String × String))
    {catalogue : Catalogue σ}
    (succeeds : ({ compiler with loader := (Memory.filled inserted).loader }.compileAll).result =
      .ok catalogue) :
    catalogue.names.Pairwise (· < ·) ∧
      (∀ name, name ∈ catalogue.names ↔
        name ∈ inserted.map Prod.fst ∧ Address.extension name = some compiler.extension) ∧
      ∀ name ∈ catalogue.names,
        let report := { compiler with loader := (Memory.filled inserted).loader }.compile name
        ∃ template source own, catalogue.find? name = some template ∧ report.result = .ok template ∧
          [.load (Address.resolve "" name), .parse source] <+: report.events ∧
          (Memory.filled inserted).load (Address.resolve "" name) = .ok source ∧
          (Memory.filled inserted).load name = .ok own ∧
          (Confined name → source = own) := by
  have none : (Catalogue.empty : Catalogue σ).templates.Sorted := List.Pairwise.nil
  obtain ⟨sorted, names, serves, -⟩ := compileEach_serves _ none succeeds
  have listed : ∀ name, name ∈ catalogue.names ↔
      name ∈ inserted.map Prod.fst ∧ Address.extension name = some compiler.extension := by
    intro name
    rw [names, ← Memory.mem_list_filled]
    exact or_iff_right List.not_mem_nil
  refine ⟨sorted, listed, fun name member => ?_⟩
  have isListed := (listed name).mp member
  obtain ⟨template, found, compiled⟩ := serves name (Memory.mem_list_filled.mpr isListed)
  obtain ⟨source, loaded, asked⟩ := compile_root_source _ compiled
  obtain ⟨own, put⟩ := Memory.load_filled isListed.1
  refine ⟨template, source, own, found, compiled, asked, loaded, put, fun ⟨segments, down⟩ => ?_⟩
  rw [down.resolve_eq] at loaded
  exact Except.ok.inj (loaded.symm.trans put)

/-- Two pages, and a text file that is no template. -/
def plainPages : List (String × String) :=
  [("b.html", "second"), ("parts/a.html", "first"), ("notes.txt", "\x7b\x7b no template")]

/-- A compiler of these pages, as soon as it has a loader. -/
def pageCompiler : Compiler Unit where
  loader := Memory.empty.loader

/-- The pages are listed and served. -/
theorem plainPages_served :
    ({ pageCompiler with loader := (Memory.filled plainPages).loader }.compileAll).result =
        .ok ⟨[("b.html", ⟨[.text "second"], #[]⟩), ("parts/a.html", ⟨[.text "first"], #[]⟩)]⟩ ∧
      "parts/a.html" ∈ plainPages.map Prod.fst ∧
      ∃ source, (Memory.filled plainPages).load "parts/a.html" = .ok source ∧
        [.load "parts/a.html", .parse source] <+:
          ({ pageCompiler with loader := (Memory.filled plainPages).loader }.compile
            "parts/a.html").events := by
  have made : ({ pageCompiler with loader := (Memory.filled plainPages).loader }.compileAll).result =
      .ok ⟨[("b.html", ⟨[.text "second"], #[]⟩), ("parts/a.html", ⟨[.text "first"], #[]⟩)]⟩ := by
    with_unfolding_all rfl
  obtain ⟨-, listed, serves⟩ := compileAll_serves pageCompiler plainPages made
  have member : "parts/a.html" ∈ plainPages.map Prod.fst := by decide
  obtain ⟨-, source, own, -, -, asked, -, put, same⟩ :=
    serves "parts/a.html" ((listed _).mpr ⟨member, by decide⟩)
  have confined : Confined "parts/a.html" := Address.resolve_leadsDown "" "parts/a.html"
  exact ⟨made, member, own, put, same confined ▸ asked⟩

/-- Templates of which one is put under a name that resolves to the name of the other. -/
def dottedPages : List (String × String) :=
  [("./a.html", "dotted"), ("a.html", "plain")]

/-- **A template is served under the name of another one**: both are listed, but the text of the one is
loaded and rendered for both, and that of the other is never parsed. -/
theorem dottedPages_shadowed :
    let compiler := { pageCompiler with loader := (Memory.filled dottedPages).loader }
    compiler.compileAll.result =
        .ok ⟨[("./a.html", ⟨[.text "plain"], #[]⟩), ("a.html", ⟨[.text "plain"], #[]⟩)]⟩ ∧
      (Memory.filled dottedPages).load "./a.html" = .ok "dotted" ∧
      compiler.compileAll.events =
        [.load "a.html", .parse "plain", .load "a.html", .parse "plain"] := by
  refine ⟨by with_unfolding_all rfl, by decide, by decide +kernel⟩

end Compiler

end Assembly

end Stencil
