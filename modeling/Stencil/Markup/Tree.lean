/-
**From tags to nodes.**

The tags of a source are taken in order. A `Builder` keeps the groups that are still open, the
innermost first; a closing tag turns the innermost group into one node of the group around it.

* `Builder.addText`, `Builder.addTag`: one piece of text, one tag;
* `Node.parse`: the nodes of a source, or the first fault and its place.
-/

import Stencil.Markup.Argument
import Stencil.Markup.Node
import Stencil.Markup.Tag

namespace Stencil.Markup

open Text

/-! ### Groups -/

/-- **A group that is open**, with what it holds so far, the latest first. An include holds
definitions only. -/
inductive Group
  | block (name : String) (nodes : List Node)
  | definition (name : String) (mode : Mode) (nodes : List Node)
  | inclusion (file : String) (overrides : List Definition)

/-- What opens the group. -/
def Group.opener : Group → Opener
  | .block _ _ => .block
  | .definition _ _ _ => .definition
  | .inclusion _ _ => .inclusion

/-- **The node that a group becomes** when it is closed. -/
def Group.toNode : Group → Node
  | .block name nodes => .block name nodes.reverse
  | .definition name mode nodes => .definition (.mk name mode nodes.reverse)
  | .inclusion file overrides => .inclusion file overrides.reverse

/-- **Puts text behind nodes**, given the latest first: it goes on the text they end with, if they end
with text. -/
def appendText (content : List Char) : List Node → List Node
  | .text last :: rest => .text (last ++ String.ofList content) :: rest
  | nodes => .text (String.ofList content) :: nodes

/-- **Puts text into a group.** In an include only blanks may stand, and they are dropped. -/
def Group.addText (content : List Char) : Group → Except Fault Group
  | .block name nodes => .ok (.block name (appendText content nodes))
  | .definition name mode nodes => .ok (.definition name mode (appendText content nodes))
  | .inclusion file overrides =>
    if isBlankText content then .ok (.inclusion file overrides)
    else .error ⟨.textInInclusion, content⟩

/-- **Puts a node into a group**; `near` is the tag that the node comes from. -/
def Group.addNode (node : Node) (near : List Char) : Group → Except Fault Group
  | .block name nodes => .ok (.block name (node :: nodes))
  | .definition name mode nodes => .ok (.definition name mode (node :: nodes))
  | .inclusion file overrides =>
    match node with
    | .definition override => .ok (.inclusion file (override :: overrides))
    | _ => .error ⟨.nodeInInclusion node.kind, near⟩

/-! ### The builder -/

/-- **An open group and the tag that opened it.** -/
structure Frame where
  group : Group
  /-- The opening tag, for messages. -/
  raw : List Char
  /-- The source from the opening tag on, for positions. -/
  here : List Char

/-- **What has been built so far**: the open groups, the innermost first, and the nodes outside all
groups, the latest first. -/
structure Builder where
  frames : List Frame
  nodes : List Node

namespace Builder

/-- Nothing so far. -/
def empty : Builder := ⟨[], []⟩

/-- **Puts text** into the innermost group. -/
def addText (content : List Char) (builder : Builder) : Except Fault Builder :=
  if content.isEmpty then .ok builder
  else
    match builder.frames with
    | [] => .ok { builder with nodes := appendText content builder.nodes }
    | frame :: frames =>
      (frame.group.addText content).map fun group =>
        { builder with frames := { frame with group } :: frames }

/-- **Puts a node** into the innermost group; `near` is the tag that it comes from. -/
def addNode (node : Node) (near : List Char) (builder : Builder) : Except Fault Builder :=
  match builder.frames with
  | [] => .ok { builder with nodes := node :: builder.nodes }
  | frame :: frames =>
    (frame.group.addNode node near).map fun group =>
      { builder with frames := { frame with group } :: frames }

end Builder

/-! ### What tags say -/

/-- **What follows a keyword**, if the content starts with it and a blank. -/
def afterKeyword? (keyword content : List Char) : Option (List Char) :=
  match keyword.isPrefixOf? content with
  | some (c :: rest) => if isBlank c then some (trim rest) else none
  | _ => none

/-- A character that the name of a variable may start with. -/
def isVariableStart (c : Char) : Bool :=
  c.isAlpha || c = '_' || c = '$'

/-- A character that the name of a variable may go on with. -/
def isVariablePart (c : Char) : Bool :=
  c.isAlphanum || c = '_' || c = '$'

/-- **The name and the expression of a variable**: a name of letters, digits, `_` and `$`, an equals
sign, and anything but nothing. -/
def readVariable? (binding : List Char) : Option (List Char × List Char) :=
  let name := binding.takeWhile isVariablePart
  match binding.head?, trimStart (binding.dropWhile isVariablePart) with
  | some first, '=' :: rest =>
    if isVariableStart first ∧ rest ≠ [] then some (name, trim rest) else none
  | _, _ => none

/-- **The node of an output tag or statement.** -/
def readStatement (tag : Tag) : Except Fault Node :=
  let content := trim tag.content
  match afterKeyword? "var".toList content with
  | some binding =>
    match readVariable? binding with
    | some (name, source) => .ok (.variable (String.ofList name) (String.ofList source))
    | none => .error ⟨.malformedVariable, tag.raw⟩
  | none =>
    match afterKeyword? "do".toList content with
    | some source => .ok (.expression (String.ofList source) .dropped)
    | none => .ok (.expression (String.ofList content) .escaped)

/-- The argument after `argument`, which must be there. -/
def needArgument (argument : Argument) (needed : Needed) (near : List Char) :
    Except Fault Argument := do
  match ← argument.next? with
  | some found => .ok found
  | none => .error ⟨.missing needed, near⟩

/-- No argument must follow `argument`. -/
def noMoreArguments (argument : Argument) (near : List Char) : Except Fault Unit := do
  match ← argument.next? with
  | some extra => .error ⟨.unexpectedArgument (String.ofList extra.value), near⟩
  | none => .ok ()

/-- The mode that may follow the name of a definition. -/
def readMode (name : Argument) (near : List Char) : Except Fault Mode := do
  match ← name.next? with
  | some mode =>
    noMoreArguments mode near
    Mode.ofName (String.ofList mode.value)
  | none => .ok .override

/-- **The group that a tag opens**, still empty. -/
def readOpening (tag : Tag) : Except Fault Group := do
  match ← Argument.first? tag.content with
  | none => .error ⟨.missing .word, tag.raw⟩
  | some word =>
    let opener := String.ofList word.value
    if opener = Opener.block.word then
      let name ← needArgument word .blockName tag.raw
      noMoreArguments name tag.raw
      .ok (.block (String.ofList name.text) [])
    else if opener = Opener.definition.word then
      let name ← needArgument word .definitionName tag.raw
      let mode ← readMode name tag.raw
      .ok (.definition (String.ofList name.text) mode [])
    else if opener = Opener.inclusion.word then
      let file ← needArgument word .includePath tag.raw
      noMoreArguments file tag.raw
      .ok (.inclusion (String.ofList file.text) [])
    else .error ⟨.unsupportedOpener opener, tag.raw⟩

/-- **The node of an include without definitions.** -/
def readInclusion (tag : Tag) : Except Fault Node := do
  match ← Argument.first? tag.content with
  | none => .error ⟨.missing .includePath, tag.raw⟩
  | some file =>
    noMoreArguments file tag.raw
    .ok (.inclusion (String.ofList file.text) [])

/-! ### One tag after the other -/

namespace Builder

/-- **Opens a group.** -/
def openGroup (tag : Tag) (builder : Builder) : Except Fault Builder :=
  (readOpening tag).map fun group =>
    { builder with frames := ⟨group, tag.raw, tag.here⟩ :: builder.frames }

/-- **Closes the innermost group**, which the tag must name. -/
def closeGroup (tag : Tag) (builder : Builder) : Except Fault Builder :=
  let word := String.ofList (trim tag.content)
  match builder.frames with
  | [] => .error ⟨.unexpectedClosing word, tag.raw⟩
  | frame :: frames =>
    if word = frame.group.opener.word then
      addNode frame.group.toNode tag.raw { builder with frames }
    else .error ⟨.mismatchedClosing word frame.group.opener, tag.raw⟩

/-- **Takes in one tag.** -/
def addTag (tag : Tag) (builder : Builder) : Except Fault Builder :=
  match tag.form with
  | .comment => .ok builder
  | .escaped => (readStatement tag).bind fun node => builder.addNode node tag.raw
  | .raw => builder.addNode (.expression (String.ofList (trim tag.content)) .raw) tag.raw
  | .opening => builder.openGroup tag
  | .closing => builder.closeGroup tag
  | .inclusion => (readInclusion tag).bind fun node => builder.addNode node tag.raw
  | .verbatim => builder.addText tag.content

/-- **The finished nodes**, once all groups are closed. -/
def finish (source : List Char) (builder : Builder) : Except ParseError (List Node) :=
  match builder.frames with
  | [] => .ok builder.nodes.reverse
  | frame :: _ =>
    .error (Fault.locate ⟨.unclosedGroup frame.group.opener, frame.raw⟩ source frame.here)

end Builder

/-- A step whose faults are found in `source` where `rest` begins. -/
def locating {α : Type} (source rest : List Char) (step : Except Fault α) : Except ParseError α :=
  step.mapError fun fault => fault.locate source rest

/-- **Builds the nodes of the text that is left** of `source`. A tag that cannot be split off is a
fault at the braces that open it. -/
def buildFrom (source text : List Char) (builder : Builder) : Except ParseError (List Node) :=
  match _found : Tag.first? text with
  | .error fault =>
    let before := ((cut Tag.openBraces text).map Prod.fst).getD []
    .error (fault.locate source (text.drop before.length))
  | .ok none => do
    let builder ← locating source text (builder.addText text)
    builder.finish source
  | .ok (some tag) => do
    let builder ← locating source text (builder.addText tag.before)
    let builder ← locating source tag.here (builder.addTag tag)
    buildFrom source tag.after builder
termination_by text.length
decreasing_by exact Tag.first?_shorter _found

/-- **The nodes of a source.** -/
def Node.parse (source : String) : Except ParseError (List Node) :=
  buildFrom source.toList source.toList Builder.empty

end Stencil.Markup
