/-
**The parser with its scopes all alike.**

A parser may keep the same of every scope that is open: what opened it, and the nodes collected in
it, to which it adds at the end. Then an include can only be folded by picking the definitions out
of its nodes. The running parser, whose includes keep nothing else in the first place, does the same.

* `Scopes`, `Scopes.parse`: **the parser with its scopes all alike**;
* `Builder.scopes`: the scopes that the running parser stands for;
* `addText_scopes`, `addNode_scopes`, `addTag_scopes`: each step is that of the running parser;
* `build_scopes`, `parse_scopes`: **and so is the parser**, with its errors.
-/

import Stencil.Proofs.SlicedParser
import Stencil.Proofs.TemplateParsing

namespace Stencil.Markup

open Text

/-! ### Scopes -/

/-- **The scopes that are open**, the innermost one in front: the one outside all groups, or one
inside a group with the scopes around it. Each has its nodes in the order of the source. -/
inductive Scopes
  | root (nodes : List Node)
  | inside (heading : Heading) (nodes : List Node) (raw here : List Char) (outer : Scopes)

/-- **Puts text behind nodes**: it goes on the text they end with, if they end with text. -/
def extendText (content : List Char) (nodes : List Node) : List Node :=
  match nodes.getLast? with
  | some (.text last) => nodes.dropLast ++ [.text (last ++ String.ofList content)]
  | _ => nodes ++ [.text (String.ofList content)]

/-- **The node that a scope is folded to.** An include takes the definitions among its nodes. -/
def Heading.fold : Heading → List Node → Node
  | .block name, nodes => .block name nodes
  | .definition name mode, nodes => .definition (.mk name mode nodes)
  | .inclusion file, nodes => .inclusion file (nodes.filterMap Node.definition?)

/-- What opened a group. -/
def Group.heading : Group → Heading
  | .block name _ => .block name
  | .definition name mode _ => .definition name mode
  | .inclusion file _ => .inclusion file

namespace Scopes

/-- Where the nodes of the innermost scope stand. -/
def place : Scopes → Place
  | root _ => .anywhere
  | inside heading _ _ _ _ => heading.place

/-- Changes the nodes of the innermost scope. -/
def modify (change : List Node → List Node) : Scopes → Scopes
  | root nodes => root (change nodes)
  | inside heading nodes raw here outer => inside heading (change nodes) raw here outer

/-- **All open scopes**, the innermost first, each by what opened it and its nodes. -/
def levels : Scopes → List (Option Heading × List Node)
  | root nodes => [(none, nodes)]
  | inside heading nodes _ _ outer => (some heading, nodes) :: outer.levels

/-- **Puts text** into the innermost scope. In an include only blanks may stand, and they are
dropped. -/
def addText (content : List Char) (scopes : Scopes) : Except Fault Scopes :=
  if content.isEmpty then .ok scopes
  else
    match scopes.place with
    | .anywhere => .ok (scopes.modify (extendText content))
    | .inclusion => if isBlankText content then .ok scopes else .error ⟨.textInInclusion, content⟩

/-- **Puts a node** into the innermost scope; `near` is the tag that it comes from. -/
def addNode (node : Node) (near : List Char) (scopes : Scopes) : Except Fault Scopes :=
  match scopes.place, node.definition? with
  | .inclusion, none => .error ⟨.nodeInInclusion node.kind, near⟩
  | _, _ => .ok (scopes.modify (· ++ [node]))

/-- **Closes the innermost scope**, which the tag must name. -/
def closeGroup (tag : Tag) (scopes : Scopes) : Except Fault Scopes :=
  let word := String.ofList (trim tag.content)
  match scopes with
  | root _ => .error ⟨.unexpectedClosing word, tag.raw⟩
  | inside heading nodes _ _ outer =>
    if word = heading.opener.word then outer.addNode (heading.fold nodes) tag.raw
    else .error ⟨.mismatchedClosing word heading.opener, tag.raw⟩

/-- **Takes in one tag.** -/
def addTag (tag : Tag) (scopes : Scopes) : Except Fault Scopes :=
  match tag.form with
  | .comment => .ok scopes
  | .escaped => (readStatement tag).bind fun node => scopes.addNode node tag.raw
  | .raw => scopes.addNode (.expression (String.ofList (trim tag.content)) .raw) tag.raw
  | .opening => (readOpening tag).map fun group => inside group.heading [] tag.raw tag.here scopes
  | .closing => scopes.closeGroup tag
  | .inclusion => (readInclusion tag).bind fun node => scopes.addNode node tag.raw
  | .verbatim => scopes.addText tag.content

/-- **The finished nodes**, once all groups are closed. -/
def finish (source : List Char) : Scopes → Except ParseError (List Node)
  | root nodes => .ok nodes
  | inside heading _ raw here _ =>
    .error (Fault.locate ⟨.unclosedGroup heading.opener, raw⟩ source here)

/-- **Builds the nodes of the text that is left** of `source`. -/
def build (source text : List Char) (scopes : Scopes) : Except ParseError (List Node) :=
  match _found : Tag.first? text with
  | .error fault => .error (fault.locate source (fromBraces text))
  | .ok none => do
    let scopes ← locating source text (scopes.addText text)
    scopes.finish source
  | .ok (some tag) => do
    let scopes ← locating source text (scopes.addText tag.before)
    let scopes ← locating source tag.here (scopes.addTag tag)
    build source tag.after scopes
termination_by text.length
decreasing_by exact Tag.first?_shorter _found

/-- **The nodes of a source.** -/
def parse (source : String) : Except ParseError (List Node) :=
  build source.toList source.toList (root [])

/-- Takes in one piece. -/
def addPiece (scopes : Scopes) : Piece → Except Fault Scopes
  | .text content => scopes.addText content
  | .tag found => scopes.addTag found

/-- **Takes in pieces**, one after the other. -/
def addAll : List Piece → Scopes → Except Fault Scopes
  | [], scopes => .ok scopes
  | piece :: rest, scopes => (scopes.addPiece piece).bind (addAll rest)

end Scopes

/-! ### The running parser -/

/-- The nodes that a group holds, in the order of the source. -/
def Group.collected : Group → List Node
  | .block _ nodes => nodes.reverse
  | .definition _ _ nodes => nodes.reverse
  | .inclusion _ overrides => overrides.reverse.map .definition

/-- **The scopes of a builder.** -/
def Builder.scopes (builder : Builder) : Scopes :=
  builder.frames.foldr
    (fun frame outer =>
      .inside frame.group.heading frame.group.collected frame.raw frame.here outer)
    (.root builder.nodes.reverse)

theorem extendText_reverse (content : List Char) (kept : List Node) :
    extendText content kept.reverse = (appendText content kept).reverse := by
  unfold extendText
  rw [List.getLast?_reverse]
  cases kept with
  | nil => rfl
  | cons last kept =>
    cases last with
    | text last => simp [appendText]
    | _ => simp [appendText]

theorem definitions_of_map (overrides : List Definition) :
    (overrides.map .definition).filterMap Node.definition? = overrides := by
  rw [List.filterMap_map]
  exact List.filterMap_some

/-- **A group is folded** to the node that it becomes. -/
theorem fold_collected (group : Group) : group.heading.fold group.collected = group.toNode := by
  cases group with
  | inclusion file overrides =>
    rw [Group.heading, Group.collected, Heading.fold, definitions_of_map, Group.toNode]
  | _ => rfl

theorem opener_heading (group : Group) : group.heading.opener = group.opener := by
  cases group <;> rfl

theorem addText_scopes (content : List Char) (builder : Builder) :
    builder.scopes.addText content = (builder.addText content).map Builder.scopes := by
  unfold Scopes.addText Builder.addText
  by_cases nothing : content.isEmpty = true
  · rw [if_pos nothing, if_pos nothing]
    rfl
  rw [if_neg nothing, if_neg nothing]
  obtain ⟨frames, nodes⟩ := builder
  cases frames with
  | nil =>
    exact congrArg (fun nodes => Except.ok (Scopes.root nodes)) (extendText_reverse content nodes)
  | cons frame frames =>
    obtain ⟨group, raw, here⟩ := frame
    cases group with
    | inclusion file overrides =>
      show (if isBlankText content then _ else _) = Except.map _ (Except.map _ (ite _ _ _))
      split <;> rfl
    | block name kept | definition name mode kept =>
      refine congrArg Except.ok ?_
      show Scopes.inside _ (extendText content kept.reverse) _ _ _ = _
      rw [extendText_reverse]
      rfl

theorem addNode_scopes (node : Node) (near : List Char) (builder : Builder) :
    builder.scopes.addNode node near = (builder.addNode node near).map Builder.scopes := by
  obtain ⟨frames, nodes⟩ := builder
  have behind : ∀ kept : List Node, kept.reverse ++ [node] = (node :: kept).reverse :=
    fun kept => List.reverse_cons.symm
  cases frames with
  | nil => exact congrArg (fun nodes => Except.ok (Scopes.root nodes)) (behind nodes)
  | cons frame frames =>
    obtain ⟨group, raw, here⟩ := frame
    cases group with
    | inclusion file overrides =>
      cases node with
      | definition override =>
        refine congrArg Except.ok ?_
        show Scopes.inside _ (overrides.reverse.map _ ++ [_]) _ _ _ = _
        simp [Builder.scopes, Group.collected, Group.heading]
      | _ => rfl
    | block name kept | definition name mode kept =>
      refine congrArg Except.ok ?_
      show Scopes.inside _ (kept.reverse ++ [node]) _ _ _ = _
      rw [behind]
      rfl

theorem closeGroup_scopes (tag : Tag) (builder : Builder) :
    builder.scopes.closeGroup tag = (builder.closeGroup tag).map Builder.scopes := by
  unfold Builder.closeGroup
  obtain ⟨frames, nodes⟩ := builder
  cases frames with
  | nil => rfl
  | cons frame frames =>
    show (if _ = frame.group.heading.opener.word then _ else _) = _
    rw [opener_heading]
    dsimp only
    split
    · rw [fold_collected]
      exact addNode_scopes _ tag.raw ⟨frames, nodes⟩
    · rfl

/-- **A tag is taken in** as the running parser takes it in. -/
theorem addTag_scopes (tag : Tag) (builder : Builder) :
    builder.scopes.addTag tag = (builder.addTag tag).map Builder.scopes := by
  unfold Scopes.addTag Builder.addTag
  cases form : tag.form with
  | comment => rfl
  | escaped =>
    cases readStatement tag with
    | error fault => rfl
    | ok node => exact addNode_scopes node tag.raw builder
  | raw => exact addNode_scopes _ tag.raw builder
  | opening =>
    unfold Builder.openGroup
    cases read : readOpening tag with
    | error fault => rfl
    | ok group =>
      obtain ⟨heading, -, rfl⟩ := (readOpening_iff form).mp read
      cases heading <;> rfl
  | closing => exact closeGroup_scopes tag builder
  | inclusion =>
    cases readInclusion tag with
    | error fault => rfl
    | ok node => exact addNode_scopes node tag.raw builder
  | verbatim => exact addText_scopes tag.content builder

theorem addPiece_scopes (piece : Piece) (builder : Builder) :
    builder.scopes.addPiece piece = (builder.addPiece piece).map Builder.scopes := by
  cases piece with
  | text content => exact addText_scopes content builder
  | tag found => exact addTag_scopes found builder

/-- **Pieces are taken in** as the running parser takes them in. -/
theorem addAll_scopes (pieces : List Piece) (builder : Builder) :
    Scopes.addAll pieces builder.scopes = (Builder.addAll pieces builder).map Builder.scopes := by
  induction pieces generalizing builder with
  | nil => rfl
  | cons piece rest ih =>
    rw [Scopes.addAll, Builder.addAll, addPiece_scopes]
    cases builder.addPiece piece with
    | error fault => rfl
    | ok next => exact ih next

theorem finish_scopes (source : List Char) (builder : Builder) :
    builder.scopes.finish source = builder.finish source := by
  obtain ⟨frames, nodes⟩ := builder
  cases frames with
  | nil => rfl
  | cons frame frames =>
    show Except.error (Fault.locate ⟨.unclosedGroup frame.group.heading.opener, _⟩ _ _) = _
    rw [opener_heading]
    rfl

theorem build_eq (source text : List Char) (scopes : Scopes) :
    scopes.build source text = (locating source (fromBraces text) (Tag.first? text)).bind
      fun found => match found with
        | none => (locating source text (scopes.addText text)).bind fun scopes =>
            scopes.finish source
        | some tag => (locating source text (scopes.addText tag.before)).bind fun scopes =>
            (locating source tag.here (scopes.addTag tag)).bind fun scopes =>
              scopes.build source tag.after := by
  rw [Scopes.build]
  split
  · rename_i failed
    rw [failed]
    rfl
  · rename_i nothing
    rw [nothing]
    rfl
  · rename_i found
    rw [found]
    rfl

/-- **The parser with its scopes all alike is the running parser**, on every text that is left. -/
theorem build_scopes (source text : List Char) (builder : Builder) :
    builder.scopes.build source text = buildFrom source text builder := by
  rw [build_eq, buildFrom_eq]
  cases first : Tag.first? text with
  | error fault => rfl
  | ok found =>
    cases found with
    | none =>
      show (locating source text (builder.scopes.addText text)).bind _ = _
      rw [addText_scopes]
      cases builder.addText text with
      | error fault => rfl
      | ok next => exact finish_scopes source next
    | some tag =>
      show (locating source text (builder.scopes.addText tag.before)).bind _ =
        (locating source text (builder.addText tag.before)).bind _
      rw [addText_scopes]
      cases builder.addText tag.before with
      | error fault => rfl
      | ok next =>
        show (locating source tag.here (next.scopes.addTag tag)).bind _ =
          (locating source tag.here (next.addTag tag)).bind _
        rw [addTag_scopes]
        cases next.addTag tag with
        | error fault => rfl
        | ok after => exact build_scopes source tag.after after
termination_by text.length
decreasing_by exact Tag.first?_shorter first

theorem parse_scopes (source : String) : Scopes.parse source = Node.parse source :=
  build_scopes source.toList source.toList Builder.empty

end Stencil.Markup
