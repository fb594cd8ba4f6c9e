/-
**Parsing gives back what was printed.**

A printed tag leads the text, so the builder takes it in and goes on with what comes after it. Text
goes in section by section and grows together again; a group is opened, filled and closed.

* `Holds`: builders with a place that takes texts and nodes;
* `text_built`, `group_built`: **the builder takes in printed text and printed groups**;
* `nodes_built`: the builder takes in printed nodes;
* `parse_source`: **the source of nodes is parsed to these nodes**.
-/

import Stencil.Proofs.PrintedArguments

namespace Stencil.Markup

open Tag Text

/-! ### One tag -/

section Building

variable {text rest content : List Char} {builder after : Builder}

/-- **The builder takes in the tag that leads a text**, and goes on behind it. -/
theorem buildFrom_of_leads {form : Tag.Form} (source : List Char) (builder : Builder)
    (leads : Leads text form content rest) :
    ∃ tag : Tag, tag.form = form ∧ tag.content = content ∧
      ∀ after, builder.addTag tag = .ok after →
        buildFrom source text builder = buildFrom source rest after := by
  obtain ⟨tag, found, isForm, bare, isContent, isRest⟩ := leads
  refine ⟨tag, isForm, isContent, fun after taken => ?_⟩
  have noText : builder.addText tag.before = .ok builder := by
    rw [bare]
    rfl
  rw [buildFrom]
  split
  · rename_i fault failed
    rw [found] at failed
    cases failed
  · rename_i nothing
    rw [found] at nothing
    cases nothing
  · rename_i other isTag
    rw [found] at isTag
    cases isTag
    rw [noText]
    show (locating source tag.here (builder.addTag tag)).bind _ = _
    rw [taken, ← isRest]
    rfl

/-- The tag of an output or a statement gives the builder its node. -/
theorem output_built {node : Node} (source : List Char) (leads : Leads text .escaped content rest)
    (reads : ∀ tag : Tag, tag.content = content → readStatement tag = .ok node)
    (takes : ∀ near, builder.addNode node near = .ok after) :
    buildFrom source text builder = buildFrom source rest after := by
  obtain ⟨tag, isForm, isContent, built⟩ := buildFrom_of_leads source builder leads
  refine built after ?_
  unfold Builder.addTag
  rw [isForm, reads tag isContent]
  exact takes tag.raw

/-- The tag of output as it is gives the builder its node. -/
theorem raw_built {expression : String} (source : List Char)
    (isSource : IsSource closeRaw expression)
    (takes : ∀ near, builder.addNode (.expression expression .raw) near = .ok after)
    (rest : List Char) :
    buildFrom source ((Node.expression expression .raw).printed ++ rest) builder =
      buildFrom source rest after := by
  have closes := closes_source isSource [] rfl (by decide)
  have whole : (Node.expression expression .raw).printed ++ rest = openBraces ++
      ('{' :: ' ' :: ((expression.toList ++ [' ']) ++ (closeRaw ++ rest))) := by
    simp only [Node.printed, List.cons_append, List.append_assoc, List.nil_append]
  obtain ⟨tag, isForm, isContent, built⟩ :=
    buildFrom_of_leads source builder (leads_raw closes rest)
  have spoken : trim tag.content = expression.toList := by
    rw [isContent]
    exact trim_blank_source isSource
  rw [whole]
  refine built after ?_
  unfold Builder.addTag
  rw [isForm, spoken, String.ofList_toList]
  exact takes tag.raw

/-! ### Groups -/

theorem opener_closes (opener : Opener) : Closes closeBraces opener.word.toList := by
  cases opener <;> exact ⟨fun _ => rfl, by decide, by decide⟩

theorem group_opened {group : Group} (source : List Char) (builder : Builder)
    (closes : Closes closeBraces content)
    (reads : ∀ tag : Tag, tag.content = content → readOpening tag = .ok group) (rest : List Char) :
    ∃ raw here, buildFrom source (printTag ('#' :: content) ++ rest) builder =
      buildFrom source rest { builder with frames := ⟨group, raw, here⟩ :: builder.frames } := by
  obtain ⟨tag, isForm, isContent, built⟩ :=
    buildFrom_of_leads source builder (leads_opening closes rest)
  refine ⟨tag.raw, tag.here, built _ ?_⟩
  unfold Builder.addTag Builder.openGroup
  rw [isForm, reads tag isContent]
  rfl

theorem group_closed {group : Group} (source raw here : List Char)
    (takes : ∀ near, builder.addNode group.toNode near = .ok after) (rest : List Char) :
    buildFrom source (printTag ('/' :: group.opener.word.toList) ++ rest)
        { builder with frames := ⟨group, raw, here⟩ :: builder.frames } =
      buildFrom source rest after := by
  obtain ⟨tag, isForm, isContent, built⟩ :=
    buildFrom_of_leads source { builder with frames := ⟨group, raw, here⟩ :: builder.frames }
      (leads_closing (opener_closes group.opener) rest)
  refine built after ?_
  have word : String.ofList (trim tag.content) = group.opener.word := by
    rw [isContent]
    cases group.opener <;> decide
  unfold Builder.addTag Builder.closeGroup
  rw [isForm, word]
  show (if group.opener.word = group.opener.word then _ else _) = _
  rw [if_pos rfl]
  exact takes tag.raw

/-- **The builder takes in a printed group** that it reads as empty, then fills, and closes. -/
theorem group_built {arguments inside : List Char} (empty full : Group) (source : List Char)
    (closes : Closes closeBraces (full.opener.word.toList ++ ' ' :: arguments))
    (reads : ∀ tag : Tag, tag.content = full.opener.word.toList ++ ' ' :: arguments →
      readOpening tag = .ok empty)
    (fills : ∀ raw here rest,
      buildFrom source (inside ++ rest)
          { builder with frames := ⟨empty, raw, here⟩ :: builder.frames } =
        buildFrom source rest { builder with frames := ⟨full, raw, here⟩ :: builder.frames })
    (takes : ∀ near, builder.addNode full.toNode near = .ok after) (rest : List Char) :
    buildFrom source (printGroup full.opener arguments inside ++ rest) builder =
      buildFrom source rest after := by
  unfold printGroup
  rw [List.append_assoc, List.append_assoc]
  obtain ⟨raw, here, opened⟩ := group_opened source builder closes reads
    (inside ++ (printTag ('/' :: full.opener.word.toList) ++ rest))
  rw [opened, fills, group_closed source raw here takes]

end Building

/-! ### Text -/

/-- In a piece of text a slash is the first character. -/
theorem slash_of_mem_pieces {content piece : List Char} (member : piece ∈ pieces content) :
    '/' ∉ piece.tail := by
  have linked := List.isChain_of_mem_splitBy member
  clear member
  induction piece with
  | nil => exact List.not_mem_nil
  | cons first piece ih =>
    cases piece with
    | nil => exact List.not_mem_nil
    | cons second piece =>
      obtain ⟨link, linked⟩ := List.isChain_cons_cons.mp linked
      intro member
      rcases List.mem_cons.mp member with rfl | later
      · cases link
      · exact ih linked later

/-- **Builders with a place that takes texts and nodes**, by the nodes in that place, the latest
first. -/
structure Holds (fill : List Node → Builder) : Prop where
  text : ∀ content kept, content ≠ [] →
    (fill kept).addText content = .ok (fill (appendText content kept))
  node : ∀ node near kept, (fill kept).addNode node near = .ok (fill (node :: kept))

theorem holds_root : Holds fun nodes => ⟨[], nodes⟩ := by
  refine ⟨fun content kept nonempty => ?_, fun _ _ _ => rfl⟩
  unfold Builder.addText
  rw [if_neg (by simpa using nonempty)]

theorem holds_block (builder : Builder) (name : String) (raw here : List Char) :
    Holds fun nodes =>
      { builder with frames := ⟨.block name nodes, raw, here⟩ :: builder.frames } := by
  refine ⟨fun content kept nonempty => ?_, fun _ _ _ => rfl⟩
  unfold Builder.addText
  rw [if_neg (by simpa using nonempty)]
  rfl

theorem holds_definition (builder : Builder) (name : String) (mode : Mode) (raw here : List Char) :
    Holds fun nodes =>
      { builder with frames := ⟨.definition name mode nodes, raw, here⟩ :: builder.frames } := by
  refine ⟨fun content kept nonempty => ?_, fun _ _ _ => rfl⟩
  unfold Builder.addText
  rw [if_neg (by simpa using nonempty)]
  rfl

section Texts

variable {fill : List Node → Builder} (holds : Holds fill)

include holds

theorem section_built {piece : List Char} (source : List Char) (nonempty : piece ≠ [])
    (fits : '/' ∉ piece.tail) (kept : List Node) (rest : List Char) :
    buildFrom source (printSection piece ++ rest) (fill kept) =
      buildFrom source rest (fill (appendText piece kept)) := by
  obtain ⟨tag, isForm, isContent, built⟩ :=
    buildFrom_of_leads source (fill kept) (leads_section fits rest)
  refine built _ ?_
  unfold Builder.addTag
  rw [isForm, isContent]
  exact holds.text piece kept nonempty

/-- More sections behind a text: the text goes on with their pieces. -/
theorem sections_built (source : List Char) (more : List (List Char))
    (fit : ∀ piece ∈ more, piece ≠ [] ∧ '/' ∉ piece.tail) (begun : String) (kept : List Node)
    (rest : List Char) :
    buildFrom source (more.flatMap printSection ++ rest) (fill (.text begun :: kept)) =
      buildFrom source rest (fill (.text (begun ++ String.ofList more.flatten) :: kept)) := by
  induction more generalizing begun with
  | nil => simp
  | cons piece more ih =>
    obtain ⟨nonempty, fits⟩ := fit piece List.mem_cons_self
    rw [List.flatMap_cons, List.append_assoc, section_built holds source nonempty fits, appendText,
      ih fun other member => fit other (List.mem_cons_of_mem _ member)]
    rw [List.flatten_cons, String.ofList_append, String.append_assoc]

/-- **The builder takes in printed text** behind nodes that do not end with text. -/
theorem text_built (source : List Char) {content : String} (nonempty : content ≠ "")
    {kept : List Node} (separate : ∀ last ∈ kept.head?, ¬ last.IsText) (rest : List Char) :
    buildFrom source (printText content.toList ++ rest) (fill kept) =
      buildFrom source rest (fill (.text content :: kept)) := by
  have whole : (pieces content.toList).flatten = content.toList := List.flatten_splitBy _ _
  have fit : ∀ piece ∈ pieces content.toList, piece ≠ [] ∧ '/' ∉ piece.tail :=
    fun piece member => ⟨List.ne_nil_of_mem_splitBy member, slash_of_mem_pieces member⟩
  unfold printText
  cases split : pieces content.toList with
  | nil =>
    rw [split] at whole
    exact absurd (String.toList_eq_nil_iff.mp whole.symm) nonempty
  | cons first more =>
    rw [split] at whole fit
    obtain ⟨solid, fits⟩ := fit first List.mem_cons_self
    have fresh : appendText first kept = .text (String.ofList first) :: kept := by
      cases kept with
      | nil => rfl
      | cons last kept =>
        cases last with
        | text last => exact absurd trivial (separate (.text last) rfl)
        | _ => rfl
    rw [List.flatMap_cons, List.append_assoc, section_built holds source solid fits, fresh,
      sections_built holds source more fun other member =>
        fit other (List.mem_cons_of_mem _ member)]
    rw [← String.ofList_append, ← List.flatten_cons, whole, String.ofList_toList]

end Texts

/-! ### Nodes -/

mutual

theorem node_built (node : Node) (printable : node.Printable) (solid : ¬ node.IsText)
    (source : List Char) (builder after : Builder)
    (takes : ∀ near, builder.addNode node near = .ok after) (rest : List Char) :
    buildFrom source (node.printed ++ rest) builder = buildFrom source rest after := by
  cases node with
  | text content => exact absurd trivial solid
  | definition definition =>
    rw [Node.printed]
    exact definition_built definition printable source builder after takes rest
  | block name body =>
    rw [Node.printed]
    refine group_built (.block name []) (.block name body.reverse) source
      (closes_opener .block name) (fun _ => readOpening_block)
      (fun raw here behind => ?_) (fun near => ?_) rest
    · have filled := nodes_built body printable (holds_block builder name raw here) source []
        (fun _ member => by cases member) behind
      rw [List.append_nil] at filled
      exact filled
    · rw [Group.toNode, List.reverse_reverse]
      exact takes near
  | inclusion file overrides =>
    rw [Node.printed]
    refine group_built (.inclusion file []) (.inclusion file overrides.reverse) source
      (closes_opener .inclusion file) (fun _ => readOpening_inclusion)
      (fun raw here behind => ?_) (fun near => ?_) rest
    · have filled := definitions_built overrides printable source builder file [] raw here behind
      rw [List.append_nil] at filled
      exact filled
    · rw [Group.toNode, List.reverse_reverse]
      exact takes near
  | expression content delivery =>
    cases delivery with
    | escaped =>
      obtain ⟨isSource, noVariable, noDropped⟩ := printable
      have closes := closes_source isSource [] rfl (by decide)
      exact output_built source (leads_output (by decide) closes rest)
        (fun tag => readStatement_escaped isSource noVariable noDropped) takes
    | raw => exact raw_built source printable takes rest
    | dropped =>
      have closes := closes_source printable ['d', 'o'] (by decide) (by decide)
      exact output_built source (leads_output (by decide) closes rest)
        (fun tag => readStatement_dropped printable) takes
  | «variable» name content =>
    obtain ⟨isName, isSource⟩ := printable
    have closes := closes_source isSource (bindingLead name) isName.cut_bindingLead
      (by decide)
    exact output_built source (leads_output (by decide) closes rest)
      (fun tag => readStatement_variable isName isSource) takes

/-- **The builder takes in printed nodes**, wherever it takes texts and nodes. -/
theorem nodes_built (nodes : List Node) (printable : Node.AllPrintable nodes)
    {fill : List Node → Builder} (holds : Holds fill) (source : List Char) (kept : List Node)
    (separate : ∀ last ∈ kept.head?, ∀ next ∈ nodes.head?, ¬ (last.IsText ∧ next.IsText))
    (rest : List Char) :
    buildFrom source (Node.allPrinted nodes ++ rest) (fill kept) =
      buildFrom source rest (fill (nodes.reverse ++ kept)) := by
  cases nodes with
  | nil => rfl
  | cons first nodes =>
    obtain ⟨head, tail, apart⟩ := printable
    rw [Node.allPrinted, List.append_assoc, List.reverse_cons, List.append_assoc]
    have later := nodes_built nodes tail holds source (first :: kept)
      (fun last same next isNext => by cases same; exact apart next isNext) rest
    rw [List.singleton_append, ← later]
    cases first with
    | text content =>
      rw [Node.printed]
      refine text_built holds source head (fun last isLast isText => ?_) _
      exact separate last isLast (.text content) rfl ⟨isText, trivial⟩
    | _ =>
      refine node_built _ head (fun isText => isText) source (fill kept) _ (fun near => ?_) _
      exact holds.node _ near kept

theorem definition_built (definition : Definition) (printable : definition.Printable)
    (source : List Char) (builder after : Builder)
    (takes : ∀ near, builder.addNode (.definition definition) near = .ok after)
    (rest : List Char) :
    buildFrom source (definition.printed ++ rest) builder = buildFrom source rest after := by
  cases definition with
  | mk name mode body =>
    rw [Definition.printed]
    refine group_built (.definition name mode []) (.definition name mode body.reverse) source
      (closes_definition name mode) (fun _ => readOpening_definition)
      (fun raw here behind => ?_) (fun near => ?_) rest
    · have filled := nodes_built body printable (holds_definition builder name mode raw here)
        source [] (fun _ member => by cases member) behind
      rw [List.append_nil] at filled
      exact filled
    · rw [Group.toNode, List.reverse_reverse]
      exact takes near

/-- The definitions of an include go into its group. -/
theorem definitions_built (definitions : List Definition)
    (printable : Definition.AllPrintable definitions) (source : List Char) (builder : Builder)
    (file : String) (kept : List Definition) (raw here rest : List Char) :
    buildFrom source (Definition.allPrinted definitions ++ rest)
        { builder with frames := ⟨.inclusion file kept, raw, here⟩ :: builder.frames } =
      buildFrom source rest { builder with
        frames := ⟨.inclusion file (definitions.reverse ++ kept), raw, here⟩ ::
          builder.frames } := by
  cases definitions with
  | nil => rfl
  | cons first definitions =>
    obtain ⟨head, tail⟩ := printable
    rw [Definition.allPrinted, List.append_assoc, List.reverse_cons, List.append_assoc]
    have later :=
      definitions_built definitions tail source builder file (first :: kept) raw here rest
    rw [List.singleton_append, ← later]
    exact definition_built first head source _ _ (fun _ => rfl) _

end

/-- **The source of nodes is parsed to these nodes.** -/
theorem parse_source (nodes : List Node) (printable : Node.AllPrintable nodes) :
    Node.parse (Node.source nodes) = .ok nodes := by
  have built := nodes_built nodes printable holds_root (Node.allPrinted nodes) []
    (fun _ member => by cases member) []
  have finished : ∀ source builder, buildFrom source [] builder = builder.finish source := by
    intro source builder
    rw [buildFrom]
    rfl
  rw [List.append_nil, List.append_nil, finished] at built
  unfold Node.parse Node.source
  rw [String.toList_ofList]
  show buildFrom _ _ ⟨[], []⟩ = _
  rw [built]
  show Except.ok nodes.reverse.reverse = _
  rw [List.reverse_reverse]

/-- Nodes that are hard to print: a text with the end of a section in it and one that ends with a
backslash before a brace, names with quotes and braces, an expression that is only a keyword. -/
def trickyNodes : List Node :=
  [.text "\x7b\x7b\x7b\x7b/r\x7d\x7d\x7d\x7d//\\\x7b",
    .block "\"\x7d\x7d\\" [.variable "$1" "\"=\x7d\"", .block "" [], .text "~"],
    .inclusion "" [.mk "\x7b\x7b" .append [.text "\\"], .mk "\n" .prepend []],
    .expression "~\x7d\x7d~" .raw, .expression "var" .escaped, .text " \\\x7b\x7b",
    .expression "var x" .dropped]

theorem trickyNodes_source : Node.AllPrintable trickyNodes ∧
    Node.parse (Node.source trickyNodes) = .ok trickyNodes := by
  have name : IsVariableName "$1" := by
    refine ⟨'$', ['1'], by decide, by decide, fun c member => ?_⟩
    rw [List.mem_singleton.mp member]
    decide
  have value : IsSource closeBraces "\"=\x7d\"" := ⟨by decide, by decide, by decide +kernel⟩
  have raw : IsSource closeRaw "~\x7d\x7d~" := ⟨by decide, by decide, by decide +kernel⟩
  have keyword : IsSource closeBraces "var" := ⟨by decide, by decide, by decide +kernel⟩
  have dropped : IsSource closeBraces "var x" := ⟨by decide, by decide, by decide +kernel⟩
  have noStatement : ¬ StartsWith "var" "var" ∧ ¬ StartsWith "do" "var" := by
    constructor <;> rintro ⟨blank, rest, -, whole⟩ <;> simp at whole
  have printable : Node.AllPrintable trickyNodes := by
    simp [trickyNodes, Node.AllPrintable, Node.Printable, Definition.AllPrintable,
      Definition.Printable, Node.IsText, name, value, raw, keyword, dropped, noStatement]
  exact ⟨printable, parse_source trickyNodes printable⟩

end Stencil.Markup
