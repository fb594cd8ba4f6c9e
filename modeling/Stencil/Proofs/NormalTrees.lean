/-
**Trees of templates are in normal form.**

A tree is in normal form if, at every nesting, no text is empty and no two texts stand side by side.
Texts come from between the tags and from verbatim sections, with comments among them; joining them
brings one level into this form, and the grammar joins the texts of each group.

* `Node.AllNormal`: **the normal form**;
* `joinTexts_normal`: joined texts are in it, if what stands between them is;
* `Derives.normal`: **the nodes that pieces derive are in it**, texts apart;
* `allNormal_of_parse`: so are the nodes of a source.
-/

import Stencil.Proofs.TemplateParsing

namespace Stencil.Markup

open Text

/-! ### The normal form -/

mutual

/-- A text that is not empty, or a node whose parts are in normal form. -/
def Node.Normal : Node → Prop
  | .text content => content ≠ ""
  | .definition definition => definition.Normal
  | .block _ body => Node.AllNormal body
  | .inclusion _ overrides => Definition.AllNormal overrides
  | .expression _ _ => True
  | .variable _ _ => True

/-- **Nodes in normal form**: no text is empty, and of two neighbours one is no text, in blocks,
definitions and overrides too. -/
def Node.AllNormal : List Node → Prop
  | [] => True
  | first :: rest => first.Normal ∧ Node.AllNormal rest ∧
    ∀ next ∈ rest.head?, ¬ (first.IsText ∧ next.IsText)

/-- The body of a definition is in normal form. -/
def Definition.Normal : Definition → Prop
  | .mk _ _ body => Node.AllNormal body

def Definition.AllNormal : List Definition → Prop
  | [] => True
  | first :: rest => first.Normal ∧ Definition.AllNormal rest

end

variable {node first : Node} {nodes rest : List Node} {overrides : List Definition}

theorem allNormal_definitions (normal : ∀ definition ∈ overrides, definition.Normal) :
    Definition.AllNormal overrides := by
  induction overrides with
  | nil => trivial
  | cons first overrides ih =>
    exact ⟨normal first List.mem_cons_self,
      ih fun other member => normal other (List.mem_cons_of_mem first member)⟩

/-- A node that is no text may stand before all others. -/
theorem allNormal_cons (solid : ¬ first.IsText) (proper : first.Normal)
    (normal : Node.AllNormal rest) : Node.AllNormal (first :: rest) :=
  ⟨proper, normal, fun _ _ bothText => solid bothText.1⟩

/-! ### Joined texts -/

/-- **Text that is put before nodes in normal form** joins the text that they start with. -/
theorem putText_normal (content : String) (normal : Node.AllNormal nodes) :
    Node.AllNormal (putText content nodes) := by
  rw [putText.eq_def]
  by_cases empty : content = ""
  · rwa [if_pos empty]
  rw [if_neg empty]
  cases nodes with
  | nil => exact ⟨empty, trivial, nofun⟩
  | cons first rest =>
    cases first with
    | text next =>
      obtain ⟨-, later, apart⟩ := normal
      exact ⟨fun none => empty (String.append_eq_empty_iff.mp none).1, later, apart⟩
    | _ => exact ⟨empty, normal, by rintro _ ⟨⟩ bothText; exact bothText.2⟩

/-- **Joined texts are in normal form**, if the nodes between them are. -/
theorem joinTexts_normal (normal : ∀ node ∈ nodes, ¬ node.IsText → node.Normal) :
    Node.AllNormal (joinTexts nodes) := by
  induction nodes with
  | nil => trivial
  | cons first nodes ih =>
    have later := ih fun node member => normal node (List.mem_cons_of_mem first member)
    have proper := normal first List.mem_cons_self
    cases first with
    | text content => exact putText_normal content later
    | _ => exact allNormal_cons id (proper id) later

/-! ### Derived nodes -/

/-- What a tag says on its own holds no texts. -/
theorem Tag.Says.normal {tag : Tag} (meant : tag.Says node) : node.Normal := by
  cases meant <;> trivial

theorem Heading.Makes.normal {heading : Heading} {body : List Node}
    (makes : heading.Makes body node) (normal : ∀ node ∈ body, ¬ node.IsText → node.Normal) :
    node.Normal := by
  cases makes with
  | block name => exact joinTexts_normal normal
  | definition name mode => exact joinTexts_normal normal
  | inclusion file overrides =>
    exact allNormal_definitions fun definition member =>
      normal (.definition definition) (List.mem_map_of_mem member) id

/-- **The nodes that pieces derive are in normal form**, texts apart. -/
theorem Derives.normal {place : Place} {pieces : List Piece}
    (derives : Derives place pieces nodes) : ∀ node ∈ nodes, ¬ node.IsText → node.Normal := by
  induction derives with
  | nil => exact nofun
  | text _ _ ih =>
    exact List.forall_mem_cons.mpr ⟨fun solid => absurd trivial solid, ih⟩
  | blank _ _ _ ih => exact ih
  | comment _ _ ih => exact ih
  | single meant _ _ ih => exact List.forall_mem_cons.mpr ⟨fun _ => meant.normal, ih⟩
  | group _ _ _ makes _ _ inner outer =>
    exact List.forall_mem_cons.mpr ⟨fun _ => makes.normal inner, outer⟩

theorem allNormal_of_parse {source : String} (parsed : Node.parse source = .ok nodes) :
    Node.AllNormal nodes := by
  obtain ⟨_, parts, derives, rfl⟩ := (parse_grammar source nodes).mp parsed
  exact joinTexts_normal derives.normal

end Stencil.Markup
