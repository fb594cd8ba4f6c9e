/-
**Includes are hermetic.**

Nothing that an include binds or defines, in its overrides or in the templates that it pulls in,
changes what comes after it. Three templates are compared: the whole, the same without the include,
and what comes before it. One reader reads all three, since none of them looks at the tree of the
template that is being compiled; to it an include gives back the scene and the scope.

* `nodes_append`, `Tools.readNodes_append`: nodes are compiled and read piece by piece;
* `root_read`: a compiled template does what reading its nodes does, also for a reader that knows
  another template in its place;
* `whole_read`: the steps of a template with an include, cut at the include;
* `include_hermetic`: **the output without an include is what was written around it**.
-/

import Stencil.Proofs.Compilable
import Stencil.Proofs.Meaning
import Stencil.Proofs.Rendering
import Stencil.Proofs.Undisturbed

namespace Stencil.Assembly

open Markup (Definition Node)
open Script (Step)

variable {σ : Type}

/-! ### One template in three forms -/

/-- The tools with another source for the template at an address. -/
def Tools.put (tools : Tools σ) (path source : String) : Tools σ :=
  { tools with load := fun other => if other = path then .ok source else tools.load other }

section Put

variable {tools : Tools σ} {path source : String} {nodes : List Node}

theorem Tools.put_tree? (parsed : tools.parse source = .ok nodes) :
    (tools.put path source).tree? path = some nodes :=
  Tools.tree?_of_parse (if_pos rfl) parsed

theorem Tools.put_agree (source other : String) {target : String} (differs : target ≠ path) :
    (tools.put path source).tree? target = (tools.put path other).tree? target := by
  unfold Tools.tree? Tools.put
  simp only [if_neg differs]

end Put

theorem Request.ofNodes_append (base : String) (first second : List Node) :
    Request.ofNodes base (first ++ second) =
      Request.ofNodes base first ++ Request.ofNodes base second := by
  induction first with
  | nil => rfl
  | cons node first ih => rw [List.cons_append, ofNodes, ofNodes, ih, List.append_assoc]

/-! ### Piece by piece -/

namespace Job

variable {tools : Tools σ} {path : String} {visit : Context → Job σ (List Step)}

theorem nodes_append (first second : List Node) (context : Context) :
    nodes tools path visit (first ++ second) context = (do
      let before ← nodes tools path visit first context
      let after ← nodes tools path visit second before.2
      pure (before.1 ++ after.1, after.2)) := by
  induction first generalizing context with
  | nil => simp [nodes]
  | cons node first ih => simp [nodes, ih, List.append_assoc]

end Job

theorem Tools.readNodes_append (tools : Tools σ) (scene : Scene) (first second : List Node) :
    tools.readNodes scene (first ++ second) =
      tools.readNodes scene first >>= fun _ => tools.readNodes (scene.afterNodes first) second := by
  induction first generalizing scene with
  | nil =>
    rw [List.nil_append, Tools.readNodes, pure_bind]
    rfl
  | cons node first ih =>
    rw [List.cons_append, Tools.readNodes, Tools.readNodes, bind_assoc, ih]
    rfl

/-! ### Steps of nodes around an include -/

section Reads

variable {tools reader : Tools σ} {table : Array (Evaluator σ)} {path : String}
  {visit : Context → Job σ (List Step)}

theorem ofRun_injective {first second : Script.Run σ Unit} (same : ofRun first = ofRun second) :
    first = second :=
  funext fun progress => Option.some.inj (congrFun same progress)

/-- The steps of nodes, cut where the nodes are cut. -/
theorem nodes_cut (visits : Visits tools reader table visit) {scene : Scene}
    {context after : Context} {first second : List Node} {steps : List Step}
    (alike : Alike reader table scene context)
    (ends : Job.Ends tools table (Job.nodes tools path visit (first ++ second) context)
      (steps, after)) :
    ∃ lead rest middle, steps = lead ++ rest ∧
      reader.readNodes scene first = ofRun (Script.run table lead) ∧
      Alike reader table (scene.afterNodes first) middle ∧
      Job.Ends tools table (Job.nodes tools path visit second middle) (rest, after) := by
  rw [Job.nodes_append] at ends
  obtain ⟨⟨lead, middle⟩, walked, later⟩ :=
    ends.of_bind (Job.nodes_steady visits.steady first context) fun before =>
      (Job.nodes_steady visits.steady second before.2).bind fun _ => Job.Steady.pure
  obtain ⟨⟨rest, last⟩, followed, put⟩ :=
    later.of_bind (Job.nodes_steady visits.steady second middle) fun _ => Job.Steady.pure
  cases put.of_pure
  obtain ⟨same, between⟩ := nodes_read visits scene context middle first lead alike walked
  exact ⟨lead, rest, middle, rfl, same, between, followed⟩

/-- An include is one step, and leaves the context as it is. -/
theorem inclusion_cut (visits : Visits tools reader table visit) {context after : Context}
    {file : String} {overrides : List Definition} {rest : List Node} {steps : List Step}
    (ends : Job.Ends tools table
      (Job.nodes tools path visit (.inclusion file overrides :: rest) context) (steps, after)) :
    ∃ body more, steps = .nested body :: more ∧
      Job.Ends tools table (Job.nodes tools path visit rest context) (more, after) := by
  rw [Job.nodes] at ends
  obtain ⟨⟨own, middle⟩, walked, later⟩ :=
    ends.of_bind (Job.node_steady visits.steady (.inclusion file overrides) context) fun before =>
      (Job.nodes_steady visits.steady rest before.2).bind fun _ => Job.Steady.pure
  obtain ⟨⟨more, last⟩, followed, put⟩ :=
    later.of_bind (Job.nodes_steady visits.steady rest middle) fun _ => Job.Steady.pure
  cases put.of_pure
  rw [Job.node] at walked
  obtain ⟨inner, -, opened⟩ :=
    walked.of_bind (Job.defineAll_steady visits.steady overrides _) fun inner =>
      (visits.steady inner).bind fun _ => Job.Steady.pure
  obtain ⟨body, -, made⟩ := opened.of_bind (visits.steady inner) fun _ => Job.Steady.pure
  cases made.of_pure
  exact ⟨body, more, rfl, followed⟩

end Reads

/-! ### The root -/

section Root

variable {tools reader : Tools σ} {depth : Nat} {root : String} {template : Template σ}
  {content : List Node}

/-- **What a compile that succeeds does with the nodes of its root.** -/
theorem root_ends (compiled : (Job.compile tools depth root).1 = .ok template)
    (tree : tools.tree? (Address.resolve "" root) = some content) :
    ∃ room steps after, Script.run template.table template.steps = Script.run template.table steps ∧
      Job.Ends tools template.table
        (Job.nodes tools (Address.resolve "" root)
          (Job.file tools room [Address.resolve "" root]) content
          (Context.root (Address.resolve "" root))) (steps, after) := by
  obtain ⟨steps, assembled, ends⟩ := Job.compile_ends compiled
  have joined : Script.run template.table template.steps = Script.run template.table steps := by
    rw [assembled]
    exact Script.run_coalesce template.table steps
  cases depth with
  | zero =>
    obtain ⟨_, _, _, run, _⟩ := ends
    cases run
  | succ room =>
    rw [Job.file, if_neg List.not_mem_nil] at ends
    have steady := @Job.file_steady σ tools room [Address.resolve "" root]
    obtain ⟨found, fetched, rest⟩ :=
      ends.of_bind Job.fetch_steady fun content =>
        (Job.nodes_steady steady content _).bind fun _ => Job.Steady.pure
    obtain ⟨⟨own, after⟩, walked, last⟩ :=
      rest.of_bind (Job.nodes_steady steady found _) fun _ => Job.Steady.pure
    cases last.of_pure
    have isTree := fetched.of_fetch
    rw [show tools.tree? (Context.root (Address.resolve "" root)).file = some content from tree]
      at isTree
    cases isTree
    exact ⟨room, steps, after, joined, walked⟩

/-- The templates that a root includes are read by a reader that may know another template in place
of the root. -/
theorem root_visits (engine : reader.engine = tools.engine)
    (agree : ∀ path, path ≠ Address.resolve "" root → reader.tree? path = tools.tree? path)
    (table : Array (Evaluator σ)) (room : Nat) :
    Visits tools reader table (Job.file tools room [Address.resolve "" root]) :=
  ⟨engine, Job.file_steady room _, file_read_apart engine table room _ fun path new =>
    agree path fun same => new (by simp [same])⟩

/-- **A compiled template does what reading its nodes does.** -/
theorem root_read (engine : reader.engine = tools.engine)
    (agree : ∀ path, path ≠ Address.resolve "" root → reader.tree? path = tools.tree? path)
    (compiled : (Job.compile tools depth root).1 = .ok template)
    (tree : tools.tree? (Address.resolve "" root) = some content) :
    reader.readNodes (Scene.root (Address.resolve "" root)) content =
      ofRun (Script.run template.table template.steps) := by
  obtain ⟨room, steps, after, joined, ends⟩ := root_ends compiled tree
  rw [joined]
  exact (nodes_read (root_visits engine agree template.table room) _ _ after content steps
    (Alike.root _) ends).1

/-- **The steps of a template with an include, cut at the include**: what stands around it does what
reading the nodes around it does. -/
theorem whole_read {pre post : List Node} {file : String} {overrides : List Definition}
    (compiled : (Job.compile tools depth root).1 = .ok template)
    (tree : tools.tree? (Address.resolve "" root) =
      some (pre ++ .inclusion file overrides :: post)) :
    ∃ lead body rest, Script.run template.table template.steps =
        Script.run template.table (lead ++ .nested body :: rest) ∧
      tools.readNodes (Scene.root (Address.resolve "" root)) pre =
        ofRun (Script.run template.table lead) ∧
      tools.readNodes (Scene.root (Address.resolve "" root)) (pre ++ post) =
        ofRun (Script.run template.table (lead ++ rest)) := by
  obtain ⟨room, steps, after, joined, ends⟩ := root_ends compiled tree
  have visits : Visits tools tools template.table (Job.file tools room [Address.resolve "" root]) :=
    root_visits rfl (fun _ _ => rfl) template.table room
  obtain ⟨lead, own, middle, rfl, before, alike, later⟩ := nodes_cut visits (Alike.root _) ends
  obtain ⟨body, rest, rfl, last⟩ := inclusion_cut visits later
  have behind := (nodes_read visits _ _ _ _ _ alike last).1
  refine ⟨lead, body, rest, joined, before, ?_⟩
  rw [Tools.readNodes_append, before, behind, Script.run_append, ofRun_bind]

end Root

namespace Job

section Forms

variable {tools : Tools σ} {depth : Nat} {root whole less : String} {nodes fewer : List Node}

/-- **A template that asks for less compiles too.** -/
theorem put_compiles (wholeTree : tools.parse whole = .ok nodes)
    (lessTree : tools.parse less = .ok fewer)
    (subset : ∀ path, Request.ofNodes path fewer ⊆ Request.ofNodes path nodes)
    {template : Template σ}
    (compiled : (compile (tools.put (Address.resolve "" root) whole) depth root).1 =
      .ok template) :
    ∃ other, (compile (tools.put (Address.resolve "" root) less) depth root).1 = .ok other := by
  have opens := compile_opens.mp ⟨template, compiled⟩
  have agree : ∀ target, target ≠ Address.resolve "" root →
      (tools.put (Address.resolve "" root) less).tree? target =
        (tools.put (Address.resolve "" root) whole).tree? target :=
    fun target differs => Tools.put_agree less whole differs
  have engine : (tools.put (Address.resolve "" root) less).engine =
      (tools.put (Address.resolve "" root) whole).engine := rfl
  exact compile_opens.mpr
    (opens.fewer engine agree (Tools.put_tree? wholeTree) (Tools.put_tree? lessTree) (subset _))

/-- A template in one form is read by a reader that knows it in another. -/
theorem put_read (whole : String) (lessTree : tools.parse less = .ok fewer)
    {template : Template σ}
    (compiled : (compile (tools.put (Address.resolve "" root) less) depth root).1 = .ok template) :
    (tools.put (Address.resolve "" root) whole).readNodes (Scene.root (Address.resolve "" root))
      fewer = ofRun (Script.run template.table template.steps) := by
  have agree : ∀ target, target ≠ Address.resolve "" root →
      (tools.put (Address.resolve "" root) whole).tree? target =
        (tools.put (Address.resolve "" root) less).tree? target :=
    fun target differs => Tools.put_agree whole less differs
  have engine : (tools.put (Address.resolve "" root) whole).engine =
      (tools.put (Address.resolve "" root) less).engine := rfl
  exact root_read engine agree compiled (Tools.put_tree? lessTree)

end Forms

/-- **An include is hermetic**, with the standard engine. If a template with an include compiles,
then it compiles without the include, and so does what comes before the include; and whatever the
whole renders to is what comes before, then something, then the rest of what the template without
the include renders to. -/
theorem include_hermetic (tools : Tools σ) (standard : tools.engine = Engine.standard)
    (depth : Nat) (root : String) {pre post : List Node} {file : String}
    {overrides : List Definition} {whole around lead : String}
    (wholeTree : tools.parse whole = .ok (pre ++ .inclusion file overrides :: post))
    (aroundTree : tools.parse around = .ok (pre ++ post)) (leadTree : tools.parse lead = .ok pre)
    {template : Template σ}
    (compiled : (compile (tools.put (Address.resolve "" root) whole) depth root).1 =
      .ok template) :
    ∃ shorter first,
      (compile (tools.put (Address.resolve "" root) around) depth root).1 = .ok shorter ∧
      (compile (tools.put (Address.resolve "" root) lead) depth root).1 = .ok first ∧
      ∀ bindings host output, (template.render bindings host).1 = .ok output →
        ∃ x y z, output = x ++ y ++ z ∧ (first.render bindings host).1 = .ok x ∧
          (shorter.render bindings host).1 = .ok (x ++ z) := by
  obtain ⟨shorter, shorterCompiled⟩ := put_compiles wholeTree aroundTree
    (fun path => by rw [Request.ofNodes_append, Request.ofNodes_append, Request.ofNodes]; simp)
    compiled
  obtain ⟨first, firstCompiled⟩ := put_compiles wholeTree leadTree
    (fun path => by rw [Request.ofNodes_append]; simp) compiled
  refine ⟨shorter, first, shorterCompiled, firstCompiled, fun bindings host output renders => ?_⟩
  -- one reader for all three: it knows the whole template
  obtain ⟨before, body, rest, joined, leadRead, aroundRead⟩ :=
    whole_read compiled (Tools.put_tree? wholeTree)
  have firstRun := ofRun_injective ((put_read whole leadTree firstCompiled).symm.trans leadRead)
  have shorterRun :=
    ofRun_injective ((put_read whole aroundTree shorterCompiled).symm.trans aroundRead)
  have engine : (tools.put (Address.resolve "" root) whole).engine = Engine.standard := standard
  obtain ⟨scope, after, opened, ran, rfl⟩ := render_eq_ok_iff.mp renders
  rw [joined] at ran
  obtain ⟨middle, added, behind, ended, ranLead, split, ranAround, wrote⟩ :=
    Script.run_around_nested (compile_quiet engine compiled) ran
  refine ⟨middle.output, added, behind, split, render_of_run firstRun opened ranLead, ?_⟩
  rw [← wrote]
  exact render_of_run shorterRun opened ranAround

/-- What stands before an include: a variable and its value. -/
def pageLead : List Node := [.variable "x" "'a'", .expression "x" .escaped]

/-- What stands behind it: a block, and the value again. -/
def pageRest : List Node := [.block "foot" [.text " end "], .expression "x" .escaped]

/-- A page with an include in between, that binds the variable and defines the block, in what it is
given and in the template that it pulls in. -/
def pageTools : Tools Unit where
  load path := .ok path
  parse source :=
    if source = "lead" then .ok pageLead
    else if source = "around" then .ok (pageLead ++ pageRest)
    else if source = "whole" then
      .ok (pageLead ++ .inclusion "part" [.mk "foot" .override [.variable "x" "'b'"]] :: pageRest)
    else
      .ok [.variable "x" "'c'", .definition (.mk "foot" .append [.text "late"]),
        .expression "x" .escaped, .block "foot" []]
  engine := Engine.standard

/-- The page, compiled. -/
def pageTemplate : Template Unit :=
  ⟨[.assign "x" 0, .emit 1 true, .nested [.assign "x" 3, .emit 4 true, .text "late"],
      .text " end ", .emit 5 true],
    #[Evaluator.ofTerm (.literal (.text "a")), Evaluator.ofTerm (.name "x"),
      Evaluator.ofTerm (.literal (.text "b")), Evaluator.ofTerm (.literal (.text "c")),
      Evaluator.ofTerm (.name "x"), Evaluator.ofTerm (.name "x")]⟩

/-- Behind the include the block is empty of definitions and the variable is what it was. -/
theorem pageTemplate_hermetic :
    (compile (pageTools.put (Address.resolve "" "page") "whole") 2 "page").1 = .ok pageTemplate ∧
      (pageTemplate.render .null ()).1 = .ok "aclate end a" ∧
      ∃ shorter first,
        (compile (pageTools.put (Address.resolve "" "page") "around") 2 "page").1 = .ok shorter ∧
        (compile (pageTools.put (Address.resolve "" "page") "lead") 2 "page").1 = .ok first ∧
        ∃ x y z, "aclate end a" = x ++ y ++ z ∧ (first.render .null ()).1 = .ok x ∧
          (shorter.render .null ()).1 = .ok (x ++ z) := by
  have compiled :
      (compile (pageTools.put (Address.resolve "" "page") "whole") 2 "page").1 =
        .ok pageTemplate := by
    with_unfolding_all rfl
  have rendered : (pageTemplate.render .null ()).1 = .ok "aclate end a" := rfl
  have wholeTree : pageTools.parse "whole" = .ok (pageLead ++
      .inclusion "part" [.mk "foot" .override [.variable "x" "'b'"]] :: pageRest) := rfl
  have aroundTree : pageTools.parse "around" = .ok (pageLead ++ pageRest) := rfl
  have leadTree : pageTools.parse "lead" = .ok pageLead := rfl
  obtain ⟨shorter, first, shorterCompiled, firstCompiled, hermetic⟩ :=
    include_hermetic pageTools rfl 2 "page" wholeTree aroundTree leadTree compiled
  exact ⟨compiled, rendered, shorter, first, shorterCompiled, firstCompiled,
    hermetic .null () "aclate end a" rendered⟩

end Job

end Stencil.Assembly
