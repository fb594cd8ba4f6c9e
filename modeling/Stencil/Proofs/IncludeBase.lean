/-
**Where includes start from.**

An include is looked up as seen from the template in whose text it stands, wherever it stands in
it, except in the body of an override. What stands there is looked up as seen from the template that
the override is given to, though another template holds its text. A compile that succeeds looks up
every include of every template that it has loaded.

* `compile_resolves_includes`: **the address at which a template is looked up** for an include;
* `override_astray`: an include in an override that is looked up elsewhere than beside its template.
-/

import Stencil.Proofs.LoadedOnce
import Stencil.Store.Memory

namespace Stencil.Assembly.Job

variable {σ : Type}

/-- **Includes are looked up as seen from the template that they stand in**, unless they stand in an
override; there they are looked up as seen from the template that the override is given to. Every
look-up of a compile is of this kind, however the compile ends, and if it succeeds then no include of
a loaded template is left out. -/
theorem compile_resolves_includes (tools : Tools σ) (depth : Nat) (root : String) :
    (∀ lookup ∈ lookups tools depth root,
      (∃ nodes, tools.tree? lookup.owner = some nodes ∧
        lookup.site ∈ Site.ofNodes [] nodes) ∧
      lookup.target = Address.resolve (lookup.site.base lookup.owner) lookup.site.reference ∧
      (lookup.site.around = [] →
        lookup.target = Address.resolve lookup.owner lookup.site.reference)) ∧
      ∀ template, (compile tools depth root).1 = .ok template →
        ∀ owner ∈ (compile tools depth root).2.loads, ∀ nodes, tools.tree? owner = some nodes →
          ∀ site ∈ Site.ofNodes [] nodes, site.due owner ∈ lookups tools depth root := by
  obtain ⟨-, planned, succeeds⟩ := compile_follows tools depth root
  refine ⟨fun lookup member => ?_, fun template compiled owner loaded nodes tree site stands => ?_⟩
  · obtain ⟨nodes, tree, stands, due⟩ := mem_plan (planned.subset member)
    have target : lookup.target = lookup.site.target lookup.owner := congrArg Lookup.target due
    refine ⟨⟨nodes, tree, stands⟩, target, fun outside => ?_⟩
    rw [target, Site.target, Site.base, outside, List.foldl_nil]
  · obtain ⟨same, loads⟩ := succeeds template compiled
    have met := (loads owner).mp loaded
    rw [same] at met ⊢
    exact plan_closed (compile_opens.mp ⟨template, compiled⟩) met tree stands

/-- A page with includes in a block, in a definition and in an override. -/
def nestedTools : Tools Unit where
  load path := .ok path
  parse source :=
    if source = "pages/index" then
      .ok [.block "top" [.inclusion "nav" []],
        .definition (.mk "side" .append [.inclusion "../parts/side" []]),
        .inclusion "/base" [.mk "body" .override [.block "inner" [.inclusion "nav" []]]]]
    else .ok [.text source]
  engine := Engine.standard

/-- The include in the block is looked up beside the page; that in the override is looked up too. -/
theorem nestedTools_includes :
    (∃ lookup ∈ lookups nestedTools 2 "pages/index", lookup.site.around = [] ∧
      lookup.owner = "pages/index" ∧ lookup.site.reference = "nav" ∧
      lookup.target = Address.resolve "pages/index" "nav") ∧
      ∃ template, (compile nestedTools 2 "pages/index").1 = .ok template ∧
        "pages/index" ∈ (compile nestedTools 2 "pages/index").2.loads ∧
        ∃ nodes, nestedTools.tree? "pages/index" = some nodes ∧
          ⟨["/base"], "nav"⟩ ∈ Site.ofNodes [] nodes ∧
          Site.due ⟨["/base"], "nav"⟩ "pages/index" ∈ lookups nestedTools 2 "pages/index" := by
  have first : (⟨"pages/index", ⟨[], "nav"⟩, "pages/nav"⟩ : Lookup) ∈
      lookups nestedTools 2 "pages/index" := by decide +kernel
  have loaded : "pages/index" ∈ (compile nestedTools 2 "pages/index").2.loads := by decide +kernel
  obtain ⟨resolves, complete⟩ := compile_resolves_includes nestedTools 2 "pages/index"
  refine ⟨⟨_, first, rfl, rfl, rfl, (resolves _ first).2.2 rfl⟩, _, rfl, loaded, _, rfl, ?_, ?_⟩
  · decide
  · exact complete _ rfl "pages/index" loaded _ rfl ⟨["/base"], "nav"⟩ (by decide)

/-- A page that gives a layout in another directory an override with an include. There is a part of
the name beside the page, and one beside the layout. -/
def overrideTools : Tools Unit where
  load :=
    ((((Store.Memory.empty.put "pages/index.html"
      "\x7b\x7b#include \"/layouts/base.html\"\x7d\x7d\x7b\x7b#def body\x7d\x7d\x7b\x7b> part.html\x7d\x7d\x7b\x7b/def\x7d\x7d\x7b\x7b/include\x7d\x7d").put
      "layouts/base.html" "<\x7b\x7b#block body\x7d\x7d\x7b\x7b/block\x7d\x7d>").put
      "layouts/part.html" "L").put "pages/part.html" "P").load
  parse := Markup.Node.parse
  engine := Engine.standard

/-- **An include in an override goes astray**: it stands in the page, but the part beside the layout
is looked up for it, and loaded. -/
theorem override_astray :
    (¬ ∀ lookup ∈ lookups overrideTools 3 "pages/index.html",
      lookup.target = Address.resolve lookup.owner lookup.site.reference) ∧
      (compile overrideTools 3 "pages/index.html").1 =
        .ok ⟨[.nested [.text "<", .nested [.text "L"], .text ">"]], #[]⟩ ∧
      (compile overrideTools 3 "pages/index.html").2.loads =
        ["pages/index.html", "layouts/part.html", "layouts/base.html"] := by
  have astray : (⟨"pages/index.html", ⟨["/layouts/base.html"], "part.html"⟩,
      "layouts/part.html"⟩ : Lookup) ∈ lookups overrideTools 3 "pages/index.html" := by
    decide +kernel
  have pageTree : overrideTools.tree? "pages/index.html" =
      some [.inclusion "/layouts/base.html" [.mk "body" .override [.inclusion "part.html" []]]] := by
    with_unfolding_all rfl
  have layoutTree : overrideTools.tree? "layouts/base.html" =
      some [.text "<", .block "body" [], .text ">"] := by
    with_unfolding_all rfl
  have partTree : overrideTools.tree? "layouts/part.html" = some [.text "L"] := by
    with_unfolding_all rfl
  obtain ⟨_, pageLoads, pageParses⟩ := Tools.tree?_eq_some_iff.mp pageTree
  obtain ⟨_, layoutLoads, layoutParses⟩ := Tools.tree?_eq_some_iff.mp layoutTree
  obtain ⟨_, partLoads, partParses⟩ := Tools.tree?_eq_some_iff.mp partTree
  have addresses : Address.resolve "" "pages/index.html" = "pages/index.html" ∧
      Address.resolve "pages/index.html" "/layouts/base.html" = "layouts/base.html" ∧
      Address.resolve "layouts/base.html" "part.html" = "layouts/part.html" := by
    decide +kernel
  refine ⟨fun beside => ?_, ?_, by decide +kernel⟩
  · have same : "layouts/part.html" = Address.resolve "pages/index.html" "part.html" :=
      beside _ astray
    revert same
    decide
  · -- the override is compiled before the layout is opened, so the part is fetched in between
    rw [compile_run]
    simp only [file, nodes, node, define, defineAll, start, run_bind, pure_bind, bind_assoc,
      fetch_loaded pageLoads pageParses, fetch_loaded layoutLoads layoutParses,
      fetch_loaded partLoads partParses, addresses, Context.root, Context.inside, Context.define,
      Assoc.find?, List.not_mem_nil, List.nil_append, List.mem_cons, or_false, String.reduceEq,
      ↓reduceIte]
    rfl

end Stencil.Assembly.Job
