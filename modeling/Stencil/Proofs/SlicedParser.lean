/-
**The parser on slices.**

A fault of the splitter or of an argument has no position; it gets one where it is passed on, from the
address of a slice that is held against the bounds of the source. Such a slice is a rest of the source
or a part of a tag, and these stand in the source. So the parser on slices locates all of its errors,
each between two characters of the source, and otherwise it is the running parser.

* `LooseFault.locate`, `located`: a fault is given the position of a slice;
* `parseSlice`: **the parser on slices**;
* `readOpening_agrees`, `addTag_agrees`: it reads and takes in a tag as the running parser does;
* `parseSlice_agrees`: **it is the running parser**, and its errors are located.
-/

import Mathlib.Data.List.Forall2
import Stencil.Markup.Tree
import Stencil.Proofs.SlicedArguments

namespace Stencil.Markup

open Text

/-! ### Locating -/

/-- Gives a fault the position of a slice, unless it has one. -/
def LooseFault.locate (source piece : Slice) (loose : LooseFault) : LooseFault :=
  if loose.position.isSome then loose else { loose with position := source.locate? piece }

section Scans

variable {α : Type}

/-- **A scan whose faults are located** at a slice. -/
def located (source piece : Slice) (scan : Scan α) : Scan α :=
  tryCatch scan fun loose => throw (loose.locate source piece)

/-- A result; its fault has no position yet. -/
def unlocated : Except Fault α → Scan α
  | .ok value => pure value
  | .error fault => throw ⟨fault, none⟩

/-- Refuses a text at a slice, which is also what is quoted. -/
def refuse (source : Slice) (cause : Cause) (near : Slice) : Scan α :=
  located source near (complain cause near)

end Scans

/-! ### The parser on slices -/

section Readers

variable (source near : Slice)

/-- The argument after `argument`, which must be there. -/
def SlicedArgument.needNext (argument : SlicedArgument) (needed : Needed) : Scan SlicedArgument := do
  match ← located source near argument.next? with
  | some found => pure found
  | none => refuse source (.missing needed) near

/-- No argument must follow `argument`. -/
def SlicedArgument.noNext (argument : SlicedArgument) : Scan Unit := do
  match ← located source near argument.next? with
  | some extra => refuse source (.unexpectedArgument (String.ofList extra.value.text)) near
  | none => pure ()

/-- The mode that may follow the name of a definition. -/
def SlicedArgument.readMode (name : SlicedArgument) : Scan Mode := do
  match ← located source near name.next? with
  | some mode =>
    mode.noNext source near
    located source near (unlocated (Mode.ofName (String.ofList mode.value.text)))
  | none => pure .override

end Readers

namespace SlicedTag

variable (source : Slice) (tag : SlicedTag)

/-- **The group that a tag opens**, still empty. -/
def readOpening : Scan Group := do
  match ← located source tag.raw (SlicedArgument.first? tag.content) with
  | none => refuse source (.missing .word) tag.raw
  | some word =>
    let opener := String.ofList word.value.text
    if opener = Opener.block.word then
      let name ← word.needNext source tag.raw .blockName
      name.noNext source tag.raw
      let text ← name.text?
      pure (.block (String.ofList text) [])
    else if opener = Opener.definition.word then
      let name ← word.needNext source tag.raw .definitionName
      let mode ← name.readMode source tag.raw
      let text ← name.text?
      pure (.definition (String.ofList text) mode [])
    else if opener = Opener.inclusion.word then
      let file ← word.needNext source tag.raw .includePath
      file.noNext source tag.raw
      let text ← file.text?
      pure (.inclusion (String.ofList text) [])
    else refuse source (.unsupportedOpener opener) tag.raw

/-- **The node of an include without definitions.** -/
def readInclusion : Scan Node := do
  match ← located source tag.raw (SlicedArgument.first? tag.content) with
  | none => refuse source (.missing .includePath) tag.raw
  | some file =>
    file.noNext source tag.raw
    let text ← file.text?
    pure (.inclusion (String.ofList text) [])

/-- **The node of an output tag or statement**, which is read off the texts of the tag. -/
def readStatement : Scan Node :=
  located source tag.raw (unlocated (Markup.readStatement
    ⟨tag.form, tag.before.text, tag.content.text, tag.after.text, tag.raw.text, []⟩))

end SlicedTag

/-- **An open group and the tag that opened it.** -/
structure SlicedFrame where
  group : Group
  raw : Slice

/-- **What has been built so far.** -/
structure SlicedBuilder where
  frames : List SlicedFrame
  nodes : List Node

namespace SlicedBuilder

variable (source : Slice)

/-- Nothing so far. -/
def empty : SlicedBuilder := ⟨[], []⟩

/-- Puts text into the innermost group. -/
def addText (content : Slice) (builder : SlicedBuilder) : Scan SlicedBuilder :=
  if content.text.isEmpty then pure builder
  else
    match builder.frames with
    | [] => pure { builder with nodes := appendText content.text builder.nodes }
    | frame :: frames => do
      let group ← located source content (unlocated (frame.group.addText content.text))
      pure { builder with frames := { frame with group } :: frames }

/-- Puts a node into the innermost group; `near` is the tag that it comes from. -/
def addNode (node : Node) (near : Slice) (builder : SlicedBuilder) : Scan SlicedBuilder :=
  match builder.frames with
  | [] => pure { builder with nodes := node :: builder.nodes }
  | frame :: frames => do
    let group ← located source near (unlocated (frame.group.addNode node near.text))
    pure { builder with frames := { frame with group } :: frames }

/-- Closes the innermost group, which the tag must name. -/
def closeGroup (tag : SlicedTag) (builder : SlicedBuilder) : Scan SlicedBuilder :=
  let word := String.ofList tag.content.trim.text
  match builder.frames with
  | [] => refuse source (.unexpectedClosing word) tag.raw
  | frame :: frames =>
    if word = frame.group.opener.word then
      addNode source frame.group.toNode tag.raw { builder with frames }
    else refuse source (.mismatchedClosing word frame.group.opener) tag.raw

/-- **Takes in one tag.** -/
def addTag (tag : SlicedTag) (builder : SlicedBuilder) : Scan SlicedBuilder :=
  match tag.form with
  | .comment => pure builder
  | .escaped => do
    let node ← tag.readStatement source
    addNode source node tag.raw builder
  | .raw =>
    addNode source (.expression (String.ofList tag.content.trim.text) .raw) tag.raw builder
  | .opening => do
    let group ← tag.readOpening source
    pure { builder with frames := ⟨group, tag.raw⟩ :: builder.frames }
  | .closing => closeGroup source tag builder
  | .inclusion => do
    let node ← tag.readInclusion source
    addNode source node tag.raw builder
  | .verbatim => addText source tag.content builder

/-- The finished nodes, once all groups are closed. -/
def finish (builder : SlicedBuilder) : Scan (List Node) :=
  match builder.frames with
  | [] => pure builder.nodes.reverse
  | frame :: _ => refuse source (.unclosedGroup frame.group.opener) frame.raw

end SlicedBuilder

/-- **The next tag of a source**; a fault is located at the braces that open it. -/
def nextTag (source rest : Slice) : Scan (Option SlicedTag) :=
  tryCatch (SlicedTag.first? rest) fun loose => do
    let braces ← rest.after? ((rest.find? Tag.openBraces).getD 0)
    throw (loose.locate source braces)

/-- **Builds the nodes of the text that is left.** -/
def SlicedBuilder.build (source rest : Slice) (builder : SlicedBuilder) : Scan (List Node) := do
  match ← nextTag source rest with
  | none =>
    let builder ← builder.addText source rest
    builder.finish source
  | some tag =>
    let builder ← builder.addText source tag.before
    let builder ← builder.addTag source tag
    builder |>.build source tag.after
partial_fixpoint

/-- **The nodes of a source.** -/
def parseSlice (source : Slice) : Scan (List Node) :=
  SlicedBuilder.empty.build source source

/-! ### The running parser -/

/-- A fault that was found where a rest of the source begins. -/
def PlacedAt (source : Slice) (rest : List Char) (fault : Fault) (loose : LooseFault) : Prop :=
  loose = ⟨fault, some (Position.before source.text rest)⟩

/-- **A parse error on its way, located inside the source**: its position is that of an offset between
two characters, or of the end. -/
def Located (source : Slice) (error : ParseError) (loose : LooseFault) : Prop :=
  loose = ⟨error.fault, some error.position⟩ ∧
    ∃ ahead rest, source.text = ahead ++ rest ∧
      error.position = Position.ofOffset source.text (utf8Size ahead)

section Locating

variable {α β : Type} {related : α → β → Prop} {source piece : Slice} {rest : List Char}

/-- **A scan whose faults are handled** agrees with what it agreed with before, but for its faults. -/
theorem tryCatch_agrees {scan : Scan α} {handle : LooseFault → Scan α} {answer : Except Fault β}
    {blame : Fault → LooseFault → Prop} (agrees : Agrees Unplaced related scan answer)
    (handles : ∀ fault, answer = .error fault →
      ∃ loose, (handle ⟨fault, none⟩).run = some (.error loose) ∧ blame fault loose) :
    Agrees blame related (tryCatch scan handle) answer := by
  have outcome : (tryCatch scan handle).run = scan.run.bind fun outcome =>
      match outcome with
      | .ok found => some (.ok found)
      | .error loose => (handle loose).run := by
    refine congrArg (Option.bind scan.run) (funext fun outcome => ?_)
    cases outcome <;> rfl
  cases answer with
  | ok value =>
    obtain ⟨found, ran, relates⟩ := agrees
    exact ⟨found, by rw [outcome, ran]; rfl, relates⟩
  | error fault =>
    obtain ⟨loose, ran, rfl⟩ := agrees
    obtain ⟨handled, done, blames⟩ := handles fault rfl
    exact ⟨handled, by rw [outcome, ran]; exact done, blames⟩

theorem located_agrees {scan : Scan α} {answer : Except Fault β}
    (stands : StandsAt source rest piece.address) (agrees : Agrees Unplaced related scan answer) :
    Agrees (PlacedAt source rest) related (located source piece scan) answer := by
  refine tryCatch_agrees agrees fun fault _ => ⟨_, rfl, ?_⟩
  rw [PlacedAt, LooseFault.locate, locate?_of_stands stands]
  rfl

theorem unlocated_agrees (answer : Except Fault α) :
    Agrees Unplaced (fun found value => found = value) (unlocated answer) answer := by
  cases answer with
  | ok value => exact Agrees.pure rfl
  | error fault => exact Agrees.throw rfl

theorem refuse_agrees {cause : Cause} (stands : StandsAt source rest piece.address) :
    Agrees (PlacedAt source rest) related (refuse source cause piece) (.error ⟨cause, piece.text⟩) :=
  located_agrees stands (Agrees.throw rfl)

end Locating

/-! ### Reading tags -/

section Reading

variable {source near : Slice} {here : List Char} {sliced : SlicedArgument} {argument : Argument}

theorem needNext_agrees (stands : StandsAt source here near.address) (needed : Needed)
    (same : sliced.Matches argument) :
    Agrees (PlacedAt source here) SlicedArgument.Matches (sliced.needNext source near needed)
      (needArgument argument needed near.text) := by
  refine (located_agrees stands same.next?_agrees).bind fun found next relates _ => ?_
  cases relates with
  | none => exact refuse_agrees stands
  | some same => exact Agrees.pure same

theorem noNext_agrees (stands : StandsAt source here near.address) (same : sliced.Matches argument) :
    Agrees (PlacedAt source here) (fun _ _ => True) (sliced.noNext source near)
      (noMoreArguments argument near.text) := by
  refine (located_agrees stands same.next?_agrees).bind fun found next relates _ => ?_
  cases relates with
  | none => exact Agrees.pure trivial
  | some extra =>
    simp only [← extra.value]
    exact refuse_agrees stands

theorem readMode_agrees (stands : StandsAt source here near.address)
    (same : sliced.Matches argument) :
    Agrees (PlacedAt source here) (fun found mode => found = mode) (sliced.readMode source near)
      (Markup.readMode argument near.text) := by
  refine (located_agrees stands same.next?_agrees).bind fun found next relates _ => ?_
  cases relates with
  | none => exact Agrees.pure rfl
  | some mode =>
    refine (noNext_agrees stands mode).bind fun _ _ _ _ => ?_
    rw [mode.value]
    exact located_agrees stands (unlocated_agrees _)

variable {slicedTag : SlicedTag} {tag : Tag} {origin : Nat}

/-- Faults of a tag that gives no text are located at its braces. -/
theorem SlicedTag.Reads.stands (reads : slicedTag.Reads source origin tag)
    (other : tag.form ≠ .verbatim) : StandsAt source tag.here slicedTag.raw.address := by
  have here := reads.here
  rwa [SlicedTag.place, if_neg fun form => other (reads.form ▸ form)] at here

theorem readOpening_agrees (reads : slicedTag.Reads source origin tag) (other : tag.form ≠ .verbatim) :
    Agrees (PlacedAt source tag.here) (fun found group => found = group)
      (slicedTag.readOpening source) (Markup.readOpening tag) := by
  have stands := reads.stands other
  unfold SlicedTag.readOpening Markup.readOpening
  rw [← reads.content, ← reads.raw]
  refine (located_agrees stands (SlicedArgument.first?_agrees _)).bind fun found first relates _ => ?_
  cases relates with
  | none => exact refuse_agrees stands
  | @some slicedWord word same =>
    simp only [same.value]
    by_cases block : String.ofList word.value = Opener.block.word
    · rw [if_pos block, if_pos block]
      refine (needNext_agrees stands .blockName same).bind fun slicedName name sameName _ => ?_
      refine (noNext_agrees stands sameName).bind fun _ _ _ _ => ?_
      rw [lift_bind sameName.text]
      exact Agrees.pure rfl
    · rw [if_neg block, if_neg block]
      by_cases definition : String.ofList word.value = Opener.definition.word
      · rw [if_pos definition, if_pos definition]
        refine (needNext_agrees stands .definitionName same).bind fun slicedName name sameName _ => ?_
        refine (readMode_agrees stands sameName).bind fun found mode sameMode _ => ?_
        rw [lift_bind sameName.text, sameMode]
        exact Agrees.pure rfl
      · rw [if_neg definition, if_neg definition]
        by_cases inclusion : String.ofList word.value = Opener.inclusion.word
        · rw [if_pos inclusion, if_pos inclusion]
          refine (needNext_agrees stands .includePath same).bind fun slicedFile file sameFile _ => ?_
          refine (noNext_agrees stands sameFile).bind fun _ _ _ _ => ?_
          rw [lift_bind sameFile.text]
          exact Agrees.pure rfl
        · rw [if_neg inclusion, if_neg inclusion]
          exact refuse_agrees stands

theorem readInclusion_agrees (reads : slicedTag.Reads source origin tag)
    (other : tag.form ≠ .verbatim) :
    Agrees (PlacedAt source tag.here) (fun found node => found = node)
      (slicedTag.readInclusion source) (Markup.readInclusion tag) := by
  have stands := reads.stands other
  unfold SlicedTag.readInclusion Markup.readInclusion
  rw [← reads.content, ← reads.raw]
  refine (located_agrees stands (SlicedArgument.first?_agrees _)).bind fun found first relates _ => ?_
  cases relates with
  | none => exact refuse_agrees stands
  | some same =>
    refine (noNext_agrees stands same).bind fun _ _ _ _ => ?_
    rw [lift_bind same.text]
    exact Agrees.pure rfl

theorem readStatement_agrees (reads : slicedTag.Reads source origin tag)
    (other : tag.form ≠ .verbatim) :
    Agrees (PlacedAt source tag.here) (fun found node => found = node)
      (slicedTag.readStatement source) (Markup.readStatement tag) := by
  have same : Markup.readStatement tag = Markup.readStatement ⟨slicedTag.form,
      slicedTag.before.text, slicedTag.content.text, slicedTag.after.text, slicedTag.raw.text, []⟩ := by
    simp only [Markup.readStatement, reads.content, reads.raw]
  rw [same]
  exact located_agrees (reads.stands other) (unlocated_agrees _)

end Reading

/-! ### Building -/

/-- A frame on slices is a frame; its opening tag stands in the source. -/
structure SlicedFrame.Reads (source : Slice) (sliced : SlicedFrame) (frame : Frame) : Prop where
  group : sliced.group = frame.group
  raw : sliced.raw.text = frame.raw
  here : StandsAt source frame.here sliced.raw.address

/-- **What has been built on slices** is what has been built. -/
structure SlicedBuilder.Reads (source : Slice) (sliced : SlicedBuilder) (builder : Builder) : Prop where
  frames : List.Forall₂ (SlicedFrame.Reads source) sliced.frames builder.frames
  nodes : sliced.nodes = builder.nodes

section Building

variable {source piece : Slice} {rest : List Char} {sliced : SlicedBuilder} {builder : Builder}

theorem addText_agrees (stands : StandsAt source rest piece.address)
    (reads : sliced.Reads source builder) :
    Agrees (PlacedAt source rest) (SlicedBuilder.Reads source) (sliced.addText source piece)
      (builder.addText piece.text) := by
  obtain ⟨slicedFrames, slicedNodes⟩ := sliced
  obtain ⟨frames, nodes⟩ := builder
  obtain ⟨sameFrames, rfl⟩ := reads
  unfold SlicedBuilder.addText Builder.addText
  by_cases nothing : piece.text.isEmpty = true
  · rw [if_pos nothing, if_pos nothing]
    exact Agrees.pure ⟨sameFrames, rfl⟩
  · rw [if_neg nothing, if_neg nothing]
    cases sameFrames with
    | nil => exact Agrees.pure ⟨List.Forall₂.nil, rfl⟩
    | cons frame others =>
      simp only [frame.group]
      refine (located_agrees stands (unlocated_agrees _)).map fun group value same => ?_
      exact ⟨List.Forall₂.cons ⟨same, frame.raw, frame.here⟩ others, rfl⟩

theorem addNode_agrees {near : Slice} {node : Node} (stands : StandsAt source rest near.address)
    (reads : sliced.Reads source builder) :
    Agrees (PlacedAt source rest) (SlicedBuilder.Reads source) (sliced.addNode source node near)
      (builder.addNode node near.text) := by
  obtain ⟨slicedFrames, slicedNodes⟩ := sliced
  obtain ⟨frames, nodes⟩ := builder
  obtain ⟨sameFrames, rfl⟩ := reads
  unfold SlicedBuilder.addNode Builder.addNode
  cases sameFrames with
  | nil => exact Agrees.pure ⟨List.Forall₂.nil, rfl⟩
  | cons frame others =>
    simp only [frame.group]
    refine (located_agrees stands (unlocated_agrees _)).map fun group value same => ?_
    exact ⟨List.Forall₂.cons ⟨same, frame.raw, frame.here⟩ others, rfl⟩

variable {slicedTag : SlicedTag} {tag : Tag} {origin : Nat}

theorem closeGroup_agrees (readsTag : slicedTag.Reads source origin tag)
    (other : tag.form ≠ .verbatim) (reads : sliced.Reads source builder) :
    Agrees (PlacedAt source tag.here) (SlicedBuilder.Reads source)
      (sliced.closeGroup source slicedTag) (builder.closeGroup tag) := by
  have stands := readsTag.stands other
  obtain ⟨slicedFrames, slicedNodes⟩ := sliced
  obtain ⟨frames, nodes⟩ := builder
  obtain ⟨sameFrames, rfl⟩ := reads
  unfold SlicedBuilder.closeGroup Builder.closeGroup
  simp only [Slice.text_trim, readsTag.content, ← readsTag.raw]
  cases sameFrames with
  | nil => exact refuse_agrees stands
  | @cons slicedFrame frame _ _ same others =>
    simp only [same.group]
    split
    · exact addNode_agrees stands ⟨others, rfl⟩
    · exact refuse_agrees stands

/-- **Taking in a tag on slices** is taking in the tag. -/
theorem addTag_agrees (readsTag : slicedTag.Reads source origin tag)
    (reads : sliced.Reads source builder) :
    Agrees (PlacedAt source tag.here) (SlicedBuilder.Reads source)
      (sliced.addTag source slicedTag) (builder.addTag tag) := by
  unfold SlicedBuilder.addTag Builder.addTag
  rw [readsTag.form]
  cases form : tag.form with
  | comment => exact Agrees.pure reads
  | escaped =>
    have other : tag.form ≠ .verbatim := by simp [form]
    refine (readStatement_agrees readsTag other).bind fun found node same _ => ?_
    rw [same, ← readsTag.raw]
    exact addNode_agrees (readsTag.stands other) reads
  | raw =>
    have other : tag.form ≠ .verbatim := by simp [form]
    simp only [Slice.text_trim, readsTag.content, ← readsTag.raw]
    exact addNode_agrees (readsTag.stands other) reads
  | opening =>
    have other : tag.form ≠ .verbatim := by simp [form]
    refine (readOpening_agrees readsTag other).map fun found group same => ?_
    exact ⟨List.Forall₂.cons ⟨same, readsTag.raw, readsTag.stands other⟩ reads.frames, reads.nodes⟩
  | closing =>
    exact closeGroup_agrees readsTag (by simp [form]) reads
  | inclusion =>
    have other : tag.form ≠ .verbatim := by simp [form]
    refine (readInclusion_agrees readsTag other).bind fun found node same _ => ?_
    rw [same, ← readsTag.raw]
    exact addNode_agrees (readsTag.stands other) reads
  | verbatim =>
    have here := readsTag.here
    rw [SlicedTag.place, if_pos (readsTag.form.trans form)] at here
    simp only [← readsTag.content]
    exact addText_agrees here reads

theorem Located.of_stands {fault : Fault} {address : Nat} (stands : StandsAt source rest address) :
    Located source (fault.locate source.text rest) ⟨fault, some (Position.before source.text rest)⟩ := by
  obtain ⟨ahead, whole, -⟩ := stands
  refine ⟨rfl, ahead, rest, whole, ?_⟩
  show Position.before source.text rest = _
  rw [Position.before, whole, utf8Size_append, Nat.add_sub_cancel]

/-- A step whose faults are located where a rest of the source begins. -/
theorem locating_agrees {α β : Type} {related : α → β → Prop} {scan : Scan α}
    {step : Except Fault β} {address : Nat} (stands : StandsAt source rest address)
    (agrees : Agrees (PlacedAt source rest) related scan step) :
    Agrees (Located source) related scan (locating source.text rest step) := by
  cases step with
  | ok value => exact agrees
  | error fault =>
    obtain ⟨loose, ran, rfl⟩ := agrees
    exact ⟨_, ran, Located.of_stands stands⟩

theorem finish_agrees (reads : sliced.Reads source builder) :
    Agrees (Located source) (fun found nodes => found = nodes) (sliced.finish source)
      (builder.finish source.text) := by
  obtain ⟨slicedFrames, slicedNodes⟩ := sliced
  obtain ⟨frames, nodes⟩ := builder
  obtain ⟨sameFrames, rfl⟩ := reads
  unfold SlicedBuilder.finish Builder.finish
  cases sameFrames with
  | nil => exact Agrees.pure rfl
  | cons same others =>
    simp only [same.group, ← same.raw]
    exact locating_agrees same.here (refuse_agrees same.here)

/-- The text from the first opening braces on, or all of it if there are none. -/
def fromBraces (text : List Char) : List Char :=
  text.drop (((cut Tag.openBraces text).map Prod.fst).getD []).length

/-- The text before them takes as many bytes as the offset that is found for them. -/
theorem text_before_braces (address : Nat) (text : List Char) :
    ∃ lead, text = lead ++ fromBraces text ∧
      utf8Size lead = ((Slice.mk address text).find? Tag.openBraces).getD 0 := by
  rw [fromBraces, Slice.find?]
  cases isCut : cut Tag.openBraces text with
  | none => exact ⟨[], rfl, rfl⟩
  | some pieces =>
    refine ⟨pieces.1, ?_, rfl⟩
    show _ = pieces.1 ++ text.drop pieces.1.length
    rw [cut_eq_some isCut, List.append_assoc, List.drop_left]

theorem nextTag_agrees {text : List Char} {address : Nat} (stands : StandsAt source text address) :
    Agrees (Located source) (Option.Rel (SlicedTag.Reads source address))
      (nextTag source ⟨address, text⟩)
      (locating source.text (fromBraces text) (Tag.first? text)) := by
  obtain ⟨lead, whole, offset⟩ := text_before_braces address text
  have braces : StandsAt source (fromBraces text) (address + utf8Size lead) := (whole ▸ stands).behind
  refine locating_agrees braces (tryCatch_agrees (SlicedTag.first?_agrees stands) fun fault _ => ?_)
  rw [lift_bind (Slice.after?_eq whole offset)]
  refine ⟨_, rfl, ?_⟩
  rw [offset] at braces
  rw [PlacedAt, LooseFault.locate, locate?_of_stands braces]
  rfl

theorem buildFrom_eq (source text : List Char) (builder : Builder) :
    buildFrom source text builder = (locating source (fromBraces text) (Tag.first? text)).bind
      fun found => match found with
        | none => (locating source text (builder.addText text)).bind fun builder =>
            builder.finish source
        | some tag => (locating source text (builder.addText tag.before)).bind fun builder =>
            (locating source tag.here (builder.addTag tag)).bind fun builder =>
              buildFrom source tag.after builder := by
  rw [buildFrom]
  split
  · rename_i failed
    rw [failed]
    rfl
  · rename_i nothing
    rw [nothing]
    rfl
  · rename_i found
    rw [found]
    rfl

theorem locating_first? {text rest : List Char} {tag : Tag} {whole : List Char}
    (found : locating whole rest (Tag.first? text) = .ok (some tag)) :
    Tag.first? text = .ok (some tag) := by
  cases first : Tag.first? text with
  | ok value =>
    rw [first] at found
    cases found
    rfl
  | error fault =>
    rw [first] at found
    cases found

/-- **The parser on slices is the running parser**, on each rest of a source. -/
theorem build_agrees {address : Nat} {text : List Char} (stands : StandsAt source text address)
    (reads : sliced.Reads source builder) :
    Agrees (Located source) (fun found nodes => found = nodes)
      (sliced.build source ⟨address, text⟩) (buildFrom source.text text builder) := by
  -- what comes after a tag is shorter than the text in which the tag was found
  induction size : text.length using Nat.strong_induction_on
    generalizing address text sliced builder with
  | _ length ih =>
    rw [SlicedBuilder.build, buildFrom_eq]
    refine (nextTag_agrees stands).bind fun slicedFound found relates isFound => ?_
    cases relates with
    | none =>
      refine (locating_agrees stands (addText_agrees stands reads)).bind fun _ _ further _ => ?_
      exact finish_agrees further
    | @some slicedTag tag readsTag =>
      have before : StandsAt source text slicedTag.before.address := by
        rw [readsTag.before]
        exact stands
      have texts := addText_agrees before reads
      rw [show slicedTag.before.text = tag.before by rw [readsTag.before]] at texts
      refine (locating_agrees before texts).bind fun _ _ further _ => ?_
      refine (locating_agrees readsTag.here (addTag_agrees readsTag further)).bind
        fun _ _ further _ => ?_
      have shorter : tag.after.length < length := size ▸ Tag.first?_shorter (locating_first? isFound)
      have follows := readsTag.follows
      rw [← readsTag.after] at shorter follows ⊢
      exact ih _ shorter follows further rfl

/-- **The parser on slices is the running parser**, wherever the source stands in memory. -/
theorem parseSlice_agrees (address : Nat) (source : String) :
    Agrees (Located ⟨address, source.toList⟩) (fun found nodes => found = nodes)
      (parseSlice ⟨address, source.toList⟩) (Node.parse source) :=
  build_agrees (StandsAt.whole ⟨address, source.toList⟩) ⟨List.Forall₂.nil, rfl⟩

end Building

end Stencil.Markup
