/-
**The includes that a compile follows.**

An include stands somewhere in the tree of a template, perhaps in an override that is given to
another include. A job follows the includes in the order in which it comes upon them, and looks a
template up for each of them. What there is to be looked up can be read off the trees alone, before
the job is run: that is the plan.

* `Site`, `Site.target`: where an include stands, and where its template is to be looked up;
* `Lookup`, `Job.lookups`: **what a compile looks up** in its run;
* `plan`: what there is to be looked up in the trees of templates;
* `mem_plan`, `plan_closed`: what a plan consists of.
-/

import Stencil.Proofs.Compilable

namespace Stencil.Assembly

open Markup (Definition Node)
open Script (Step)

variable {σ α β : Type}

/-! ### Where includes stand -/

/-- **An include in the tree of a template**: what it refers to, and the references of the includes
in whose overrides it stands, the outermost first. -/
structure Site where
  around : List String
  reference : String
  deriving DecidableEq, Repr

namespace Site

/-- The address that an include starts from in the template at `path`. What stands in an override
starts from the template that the override is given to. -/
def base (site : Site) (path : String) : String :=
  site.around.foldl Address.resolve path

/-- **The address at which the template of an include is to be looked up.** -/
def target (site : Site) (path : String) : String :=
  Address.resolve (site.base path) site.reference

mutual

/-- **The includes in a node**, those in the overrides of an include before itself. -/
def ofNode (around : List String) : Node → List Site
  | .text _ => []
  | .definition definition => ofDefinition around definition
  | .block _ body => ofNodes around body
  | .inclusion file overrides =>
    ofDefinitions (around ++ [file]) overrides ++ [⟨around, file⟩]
  | .expression _ _ => []
  | .variable _ _ => []

/-- The includes in nodes. -/
def ofNodes (around : List String) : List Node → List Site
  | [] => []
  | first :: rest => ofNode around first ++ ofNodes around rest

/-- The includes in a definition. -/
def ofDefinition (around : List String) : Definition → List Site
  | .mk _ _ body => ofNodes around body

/-- The includes in definitions. -/
def ofDefinitions (around : List String) : List Definition → List Site
  | [] => []
  | first :: rest => ofDefinition around first ++ ofDefinitions around rest

end

mutual

theorem request_of_mem_ofNode {path : String} {site : Site} (around : List String) (node : Node)
    (stands : site ∈ ofNode around node) :
    .template (site.target path) ∈ Request.ofNode (around.foldl Address.resolve path) node := by
  cases node with
  | text content => cases stands
  | definition definition => exact request_of_mem_ofDefinition around definition stands
  | block name body => exact request_of_mem_ofNodes around body stands
  | inclusion file overrides =>
    rcases List.mem_append.mp stands with inside | last
    · have asked : .template (site.target path) ∈
          Request.ofDefinitions ((around ++ [file]).foldl Address.resolve path) overrides :=
        request_of_mem_ofDefinitions (around ++ [file]) overrides inside
      rw [List.foldl_append, List.foldl_cons, List.foldl_nil] at asked
      exact List.mem_append_left _ asked
    · cases List.mem_singleton.mp last
      exact List.mem_append_right _ List.mem_cons_self
  | expression source delivery => cases stands
  | «variable» name source => cases stands

/-- **The template of an include is asked for** at its target. -/
theorem request_of_mem_ofNodes {path : String} {site : Site} (around : List String)
    (nodes : List Node) (stands : site ∈ ofNodes around nodes) :
    .template (site.target path) ∈ Request.ofNodes (around.foldl Address.resolve path) nodes := by
  cases nodes with
  | nil => cases stands
  | cons first rest =>
    rcases List.mem_append.mp stands with here | later
    · exact List.mem_append_left _ (request_of_mem_ofNode around first here)
    · exact List.mem_append_right _ (request_of_mem_ofNodes around rest later)

theorem request_of_mem_ofDefinition {path : String} {site : Site} (around : List String)
    (definition : Definition) (stands : site ∈ ofDefinition around definition) :
    .template (site.target path) ∈
      Request.ofDefinition (around.foldl Address.resolve path) definition := by
  cases definition with
  | mk name mode body => exact request_of_mem_ofNodes around body stands

theorem request_of_mem_ofDefinitions {path : String} {site : Site} (around : List String)
    (definitions : List Definition) (stands : site ∈ ofDefinitions around definitions) :
    .template (site.target path) ∈
      Request.ofDefinitions (around.foldl Address.resolve path) definitions := by
  cases definitions with
  | nil => cases stands
  | cons first rest =>
    rcases List.mem_append.mp stands with here | later
    · exact List.mem_append_left _ (request_of_mem_ofDefinition around first here)
    · exact List.mem_append_right _ (request_of_mem_ofDefinitions around rest later)

end

end Site

/-- **A look-up**: for an include in the template `owner`, a template was looked up at `target`. -/
structure Lookup where
  owner : String
  site : Site
  target : String
  deriving DecidableEq, Repr

/-- The look-up that is due for an include in the template at `path`. -/
def Site.due (site : Site) (path : String) : Lookup :=
  ⟨path, site, site.target path⟩

/-! ### Plans -/

/-- The look-ups that are due for includes in the template at `path`, each followed by those in the
template that it leads to. -/
def planSites (path : String) (further : String → List Lookup) (sites : List Site) : List Lookup :=
  sites.flatMap fun site => site.due path :: further (site.target path)

/-- **The plan of a template**: the look-ups that are due in it and in the templates that it leads to,
down to a depth, in the order in which a job comes upon them. -/
def plan (tools : Tools σ) : Nat → String → List Lookup
  | 0, _ => []
  | depth + 1, path =>
    match tools.tree? path with
    | none => []
    | some nodes => planSites path (plan tools depth) (Site.ofNodes [] nodes)

section Plans

variable {tools : Tools σ}

theorem plan_of_tree {path : String} {nodes : List Node} (tree : tools.tree? path = some nodes)
    (depth : Nat) :
    plan tools (depth + 1) path = planSites path (plan tools depth) (Site.ofNodes [] nodes) := by
  rw [plan, tree]

theorem mem_planSites {path : String} {further : String → List Lookup} {sites : List Site}
    {lookup : Lookup} : lookup ∈ planSites path further sites ↔
      ∃ site ∈ sites, lookup = site.due path ∨ lookup ∈ further (site.target path) := by
  simp [planSites]

/-- **Every look-up in a plan is due** for an include in the tree of its template. -/
theorem mem_plan {depth : Nat} {path : String} {lookup : Lookup}
    (planned : lookup ∈ plan tools depth path) :
    ∃ nodes, tools.tree? lookup.owner = some nodes ∧ lookup.site ∈ Site.ofNodes [] nodes ∧
      lookup = lookup.site.due lookup.owner := by
  induction depth generalizing path with
  | zero => cases planned
  | succ depth ih =>
    cases tree : tools.tree? path with
    | none =>
      rw [plan, tree] at planned
      cases planned
    | some nodes =>
      rw [plan_of_tree tree] at planned
      obtain ⟨site, stands, rfl | later⟩ := mem_planSites.mp planned
      · exact ⟨nodes, tree, stands, rfl⟩
      · exact ih later

/-- **A plan leaves no include out**: if a template opens, then its plan has the look-ups that are due
in it and in every template that is looked up. -/
theorem plan_closed {depth : Nat} {sources : List String} {path owner : String}
    (opens : Opens tools depth sources path)
    (met : owner = path ∨ ∃ lookup ∈ plan tools depth path, lookup.target = owner)
    {nodes : List Node} (tree : tools.tree? owner = some nodes) {site : Site}
    (stands : site ∈ Site.ofNodes [] nodes) : site.due owner ∈ plan tools depth path := by
  induction depth generalizing sources path with
  | zero => exact opens.elim
  | succ depth ih =>
    obtain ⟨-, own, ownTree, granted⟩ := opens
    rw [plan_of_tree ownTree] at met ⊢
    rcases met with rfl | ⟨lookup, planned, rfl⟩
    · rw [ownTree] at tree
      cases tree
      exact mem_planSites.mpr ⟨site, stands, Or.inl rfl⟩
    · obtain ⟨first, standsFirst, here⟩ := mem_planSites.mp planned
      have opened : Opens tools depth (sources ++ [path]) (first.target path) :=
        granted _ (Site.request_of_mem_ofNodes [] own standsFirst)
      have inside : lookup.target = first.target path ∨
          ∃ other ∈ plan tools depth (first.target path), other.target = lookup.target := by
        rcases here with rfl | later
        · exact Or.inl rfl
        · exact Or.inr ⟨lookup, later, rfl⟩
      exact mem_planSites.mpr ⟨first, standsFirst, Or.inr (ih opened inside)⟩

end Plans

/-! ### What a run looks up -/

namespace Job

/-- What is looked up behind a part of a job in a run: nothing, if the part stops. -/
def behind (part : Job σ α) (next : α → Gathered σ → List Lookup) (gathered : Gathered σ) :
    List Lookup :=
  match part.run gathered with
  | (.ok value, after) => next value after
  | (.error _, _) => []

theorem behind_of_ok {part : Job σ α} {gathered after : Gathered σ} {value : α}
    (ran : part.run gathered = (.ok value, after)) (next : α → Gathered σ → List Lookup) :
    behind part next gathered = next value after := by
  unfold behind
  rw [ran]

theorem behind_of_error {part : Job σ α} {gathered after : Gathered σ} {reason : Stop}
    (ran : part.run gathered = (.error reason, after)) (next : α → Gathered σ → List Lookup) :
    behind part next gathered = [] := by
  unfold behind
  rw [ran]

mutual

/-- **What is looked up while a node is compiled**, in a run that starts from what is gathered. The
node stands in the template at `path`, in overrides of the includes `around`; `within` is what the
included templates look up. -/
def nodeLookups (tools : Tools σ) (path : String) (visit : Context → Job σ (List Step))
    (within : Context → Gathered σ → List Lookup) (around : List String) :
    Node → Context → Gathered σ → List Lookup
  | .text _, _, _ => []
  | .definition definition, context, gathered =>
    definitionLookups tools path visit within around definition context gathered
  | .block _ body, context, gathered =>
    nodesLookups tools path visit within around body context gathered
  | .inclusion file overrides, context, gathered =>
    let inside := context.inside (Address.resolve context.file file)
    definitionsLookups tools path visit within (around ++ [file]) overrides inside gathered ++
      -- the target is where the job itself has come to, not what is due for the include
      behind (defineAll tools path visit overrides inside)
        (fun inner after => ⟨path, ⟨around, file⟩, inner.file⟩ :: within inner after) gathered
  | .expression _ _, _, _ => []
  | .variable _ _, _, _ => []

/-- What is looked up while nodes are compiled one after the other. -/
def nodesLookups (tools : Tools σ) (path : String) (visit : Context → Job σ (List Step))
    (within : Context → Gathered σ → List Lookup) (around : List String) :
    List Node → Context → Gathered σ → List Lookup
  | [], _, _ => []
  | first :: rest, context, gathered =>
    nodeLookups tools path visit within around first context gathered ++
      behind (node tools path visit first context)
        (fun result => nodesLookups tools path visit within around rest result.2) gathered

/-- What is looked up while a definition is compiled. -/
def definitionLookups (tools : Tools σ) (path : String) (visit : Context → Job σ (List Step))
    (within : Context → Gathered σ → List Lookup) (around : List String) :
    Definition → Context → Gathered σ → List Lookup
  | .mk _ _ body, context, gathered =>
    nodesLookups tools path visit within around body context gathered

/-- What is looked up while definitions are compiled one after the other. -/
def definitionsLookups (tools : Tools σ) (path : String) (visit : Context → Job σ (List Step))
    (within : Context → Gathered σ → List Lookup) (around : List String) :
    List Definition → Context → Gathered σ → List Lookup
  | [], _, _ => []
  | first :: rest, context, gathered =>
    definitionLookups tools path visit within around first context gathered ++
      behind (define tools path visit first context)
        (fun inner => definitionsLookups tools path visit within around rest inner) gathered

end

/-- **What is looked up while a template is compiled**, for the includes in it and in the templates
that it leads to. -/
def fileLookups (tools : Tools σ) : Nat → List String → Context → Gathered σ → List Lookup
  | 0, _, _, _ => []
  | depth + 1, sources, context, gathered =>
    if context.file ∈ sources then []
    else
      behind (fetch tools context.file)
        (nodesLookups tools context.file (file tools depth (sources ++ [context.file]))
          (fileLookups tools depth (sources ++ [context.file])) [] · context) gathered

/-- **What a compile looks up**, in order. -/
def lookups (tools : Tools σ) (depth : Nat) (root : String) : List Lookup :=
  fileLookups tools depth [] (Context.root (Address.resolve "" root)) start

end Job

end Stencil.Assembly
