/-
**The grammar of templates.**

The tags of a source cut it into pieces: texts, and tags. A template is a sequence of texts,
comments, tags that say something on their own, and groups: what stands between an opening tag and
the closing tag of the same word. The grammar is recursive in the groups; it knows no stack.

* `Tag.Walk.pieces`: the pieces of a source;
* `Tag.Says`, `Tag.OpensGroup`, `Tag.ClosesGroup`: what single tags mean;
* `Derives`: **the nodes that pieces derive**, texts as they come;
* `joinTexts`: the nodes with neighbouring texts joined and empty ones left out.
-/

import Stencil.Proofs.Printer

namespace Stencil.Markup

open Text

/-! ### Pieces -/

/-- **A piece of a source**: a text, or a tag. -/
inductive Piece
  | text (content : List Char)
  | tag (tag : Tag)

/-- The text that a piece stands for: a verbatim tag stands for its content. -/
def Piece.text? : Piece → Option (List Char)
  | .text content => some content
  | .tag found => if found.form = .verbatim then some found.content else none

/-- **The pieces of a source**: each tag behind the text before it, and the text after the last. -/
def Tag.Walk.pieces (walk : Tag.Walk) : List Piece :=
  walk.tags.flatMap (fun tag => [.text tag.before, .tag tag]) ++ [.text walk.rest]

/-! ### Single tags -/

/-- **The arguments of a tag**, all of them. -/
def Tag.Lists (tag : Tag) (arguments : List Argument) : Prop :=
  Argument.walk tag.content = ⟨arguments, none⟩

/-- **What a tag says on its own.** -/
inductive Tag.Says (tag : Tag) : Node → Prop
  /-- `var`, a name, an equals sign and an expression. -/
  | variable {gap : Char} {binding blanks value : List Char} {name : String} :
      tag.form = .escaped → isBlank gap = true →
      trim tag.content = "var".toList ++ gap :: binding →
      trim binding = name.toList ++ (blanks ++ '=' :: value) → IsVariableName name →
      (∀ c ∈ blanks, isBlank c = true) → value ≠ [] →
      Says tag (.variable name (String.ofList (trim value)))
  /-- `do` and an expression. -/
  | statement {gap : Char} {source : List Char} :
      tag.form = .escaped → isBlank gap = true →
      trim tag.content = "do".toList ++ gap :: source →
      Says tag (.expression (String.ofList (trim source)) .dropped)
  /-- An expression that does not start like a statement. -/
  | output {source : String} :
      tag.form = .escaped → source.toList = trim tag.content →
      ¬ StartsWith "var" source → ¬ StartsWith "do" source → Says tag (.expression source .escaped)
  | raw {source : String} :
      tag.form = .raw → source.toList = trim tag.content → Says tag (.expression source .raw)
  | inclusion {file : Argument} :
      tag.form = .inclusion → tag.Lists [file] →
      Says tag (.inclusion (String.ofList file.text) [])

/-- **What an opening tag says of its group.** -/
inductive Heading
  | block (name : String)
  | definition (name : String) (mode : Mode)
  | inclusion (file : String)

/-- The word of a group. -/
def Heading.opener : Heading → Opener
  | .block _ => .block
  | .definition _ _ => .definition
  | .inclusion _ => .inclusion

/-- **A tag that opens a group**, with the arguments that the group needs. -/
inductive Tag.OpensGroup (tag : Tag) : Heading → Prop
  | block {word name : Argument} :
      tag.form = .opening → tag.Lists [word, name] → word.value = "block".toList →
      OpensGroup tag (.block (String.ofList name.text))
  | definition {word name : Argument} :
      tag.form = .opening → tag.Lists [word, name] → word.value = "def".toList →
      OpensGroup tag (.definition (String.ofList name.text) .override)
  | definitionWith {word name how : Argument} (mode : Mode) :
      tag.form = .opening → tag.Lists [word, name, how] → word.value = "def".toList →
      how.value = mode.name.toList →
      OpensGroup tag (.definition (String.ofList name.text) mode)
  | inclusion {word file : Argument} :
      tag.form = .opening → tag.Lists [word, file] → word.value = "include".toList →
      OpensGroup tag (.inclusion (String.ofList file.text))

/-- **A tag that closes a group** repeats its word. -/
def Tag.ClosesGroup (tag : Tag) (opener : Opener) : Prop :=
  tag.form = .closing ∧ trim tag.content = opener.word.toList

/-! ### Nodes -/

/-- Puts text before nodes: it joins the text they start with; empty text is left out. -/
def putText (content : String) (nodes : List Node) : List Node :=
  if content = "" then nodes
  else
    match nodes with
    | .text next :: rest => .text (content ++ next) :: rest
    | nodes => .text content :: nodes

/-- **Joins neighbouring texts** and leaves out empty ones. -/
def joinTexts : List Node → List Node
  | [] => []
  | .text content :: rest => putText content (joinTexts rest)
  | node :: rest => node :: joinTexts rest

/-- Where pieces stand: where all nodes may, or directly inside an include. -/
inductive Place
  | anywhere
  | inclusion

/-- The place inside a group. -/
def Heading.place : Heading → Place
  | .inclusion _ => .inclusion
  | _ => .anywhere

/-- Directly inside an include definitions may stand. -/
def Place.Admits : Place → Node → Prop
  | .anywhere, _ => True
  | .inclusion, node => ∃ definition, node = .definition definition

/-- **The node of a group** with the given heading and nodes in it. -/
inductive Heading.Makes : Heading → List Node → Node → Prop
  | block (name : String) (body : List Node) :
      Makes (.block name) body (.block name (joinTexts body))
  | definition (name : String) (mode : Mode) (body : List Node) :
      Makes (.definition name mode) body (.definition (.mk name mode (joinTexts body)))
  | inclusion (file : String) (overrides : List Definition) :
      Makes (.inclusion file) (overrides.map .definition) (.inclusion file overrides)

/-- **The nodes that pieces derive** in some place, each text as a node of its own. -/
inductive Derives : Place → List Piece → List Node → Prop
  | nil (place : Place) : Derives place [] []
  | text {piece : Piece} {content : List Char} {rest : List Piece} {nodes : List Node} :
      piece.text? = some content → Derives .anywhere rest nodes →
      Derives .anywhere (piece :: rest) (.text (String.ofList content) :: nodes)
  | blank {piece : Piece} {content : List Char} {rest : List Piece} {nodes : List Node} :
      piece.text? = some content → isBlankText content = true → Derives .inclusion rest nodes →
      Derives .inclusion (piece :: rest) nodes
  | comment {place : Place} {tag : Tag} {rest : List Piece} {nodes : List Node} :
      tag.form = .comment → Derives place rest nodes → Derives place (.tag tag :: rest) nodes
  | single {place : Place} {tag : Tag} {node : Node} {rest : List Piece} {nodes : List Node} :
      tag.Says node → place.Admits node → Derives place rest nodes →
      Derives place (.tag tag :: rest) (node :: nodes)
  | group {place : Place} {opening closing : Tag} {heading : Heading} {node : Node}
      {inside rest : List Piece} {body nodes : List Node} :
      opening.OpensGroup heading → Derives heading.place inside body →
      closing.ClosesGroup heading.opener → heading.Makes body node → place.Admits node →
      Derives place rest nodes →
      Derives place (.tag opening :: (inside ++ .tag closing :: rest)) (node :: nodes)

end Stencil.Markup
