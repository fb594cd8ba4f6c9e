/-
**Every parse error is located.**

The parser on slices locates each of its errors, and it is the running parser. Of the steps of the
parser only splitting off a tag reports that a tag is empty or not closed, and that ends the parsing;
so such a tag is the first one that cannot be split, and it is located at its braces.

* `SparesTags`: a step does not report that a tag cannot be split, with rules for sequences;
* `addTag_spares`: taking in a tag never does;
* `buildFrom_splitting`: **a tag that cannot be split** is the first one that cannot;
* `Node.parse_located`: **every parse error is located inside the source**.
-/

import Stencil.Proofs.Delimiters
import Stencil.Proofs.SlicedParser

namespace Stencil.Markup

open Text

/-! ### Tags that cannot be split -/

/-- The causes that only the splitter reports. -/
def Cause.OfSplitting : Cause → Prop
  | .emptyTag | .unclosedTag => True
  | _ => False

/-- **A step does not report that a tag cannot be split.** -/
def SparesTags {α : Type} (step : Except Fault α) : Prop :=
  ∀ fault, step = .error fault → ¬ fault.cause.OfSplitting

section Sparing

variable {α β : Type} {step : Except Fault α} {argument : Argument} {near : List Char}
variable {tag : Tag} {builder : Builder}

theorem SparesTags.ok (value : α) : SparesTags (.ok value) := by
  rintro fault ⟨⟩

theorem SparesTags.error {fault : Fault} (other : ¬ fault.cause.OfSplitting) :
    SparesTags (.error fault : Except Fault α) := by
  rintro _ ⟨⟩
  exact other

theorem SparesTags.bind {next : α → Except Fault β} (first : SparesTags step)
    (second : ∀ value, SparesTags (next value)) : SparesTags (step.bind next) := by
  cases step with
  | ok value => exact second value
  | error fault => exact SparesTags.error (first fault rfl)

theorem SparesTags.map {make : α → β} (first : SparesTags step) : SparesTags (step.map make) := by
  cases step with
  | ok value => exact SparesTags.ok _
  | error fault => exact SparesTags.error (first fault rfl)

theorem read?_spares (content : List Char) : SparesTags (Argument.read? content) := by
  unfold Argument.read?
  split
  · exact SparesTags.ok _
  · split
    · split
      · exact SparesTags.error id
      · exact SparesTags.ok _
    · exact SparesTags.ok _

theorem needArgument_spares (needed : Needed) : SparesTags (needArgument argument needed near) := by
  refine (read?_spares _).bind fun found => ?_
  cases found with
  | none => exact SparesTags.error id
  | some next => exact SparesTags.ok _

theorem noMoreArguments_spares : SparesTags (noMoreArguments argument near) := by
  refine (read?_spares _).bind fun found => ?_
  cases found with
  | none => exact SparesTags.ok _
  | some extra => exact SparesTags.error id

theorem ofName_spares (word : String) : SparesTags (Mode.ofName word) := by
  unfold Mode.ofName
  split
  · exact SparesTags.ok _
  · split
    · exact SparesTags.ok _
    · split
      · exact SparesTags.ok _
      · exact SparesTags.error id

theorem readMode_spares : SparesTags (readMode argument near) := by
  refine (read?_spares _).bind fun found => ?_
  cases found with
  | none => exact SparesTags.ok _
  | some mode => exact noMoreArguments_spares.bind fun _ => ofName_spares _

theorem readOpening_spares : SparesTags (readOpening tag) := by
  refine (read?_spares _).bind fun found => ?_
  cases found with
  | none => exact SparesTags.error id
  | some word =>
    simp only
    split
    · exact (needArgument_spares _).bind fun _ => noMoreArguments_spares.bind fun _ => SparesTags.ok _
    · split
      · exact (needArgument_spares _).bind fun _ => readMode_spares.bind fun _ => SparesTags.ok _
      · split
        · exact (needArgument_spares _).bind fun _ =>
            noMoreArguments_spares.bind fun _ => SparesTags.ok _
        · exact SparesTags.error id

theorem readInclusion_spares : SparesTags (readInclusion tag) := by
  refine (read?_spares _).bind fun found => ?_
  cases found with
  | none => exact SparesTags.error id
  | some file => exact noMoreArguments_spares.bind fun _ => SparesTags.ok _

theorem readStatement_spares : SparesTags (readStatement tag) := by
  unfold readStatement
  simp only
  split
  · split
    · exact SparesTags.ok _
    · exact SparesTags.error id
  · split <;> exact SparesTags.ok _

theorem addText_spares (content : List Char) : SparesTags (builder.addText content) := by
  unfold Builder.addText
  split
  · exact SparesTags.ok _
  · split
    · exact SparesTags.ok _
    · refine SparesTags.map ?_
      unfold Group.addText
      split
      · exact SparesTags.ok _
      · exact SparesTags.ok _
      · split
        · exact SparesTags.ok _
        · exact SparesTags.error id

theorem addNode_spares (node : Node) : SparesTags (builder.addNode node near) := by
  unfold Builder.addNode
  split
  · exact SparesTags.ok _
  · refine SparesTags.map ?_
    unfold Group.addNode
    split
    · exact SparesTags.ok _
    · exact SparesTags.ok _
    · split
      · exact SparesTags.ok _
      · exact SparesTags.error id

/-- **Taking in a tag** never reports that a tag cannot be split. -/
theorem addTag_spares : SparesTags (builder.addTag tag) := by
  unfold Builder.addTag
  split
  · exact SparesTags.ok _
  · exact readStatement_spares.bind fun node => addNode_spares node
  · exact addNode_spares _
  · exact readOpening_spares.map
  · unfold Builder.closeGroup
    simp only
    split
    · exact SparesTags.error id
    · split
      · exact addNode_spares _
      · exact SparesTags.error id
  · exact readInclusion_spares.bind fun node => addNode_spares node
  · exact addText_spares _

end Sparing

section Splitting

variable {source text : List Char} {builder : Builder} {error : ParseError}

theorem bind_eq_error {ε α β : Type} {first : Except ε α} {next : α → Except ε β} {fault : ε} :
    first.bind next = .error fault ↔
      first = .error fault ∨ ∃ middle, first = .ok middle ∧ next middle = .error fault := by
  cases first <;> simp [Except.bind]

/-- A located step reports what the step reports. -/
theorem SparesTags.locating {α : Type} {step : Except Fault α} (spares : SparesTags step)
    {rest : List Char} (failed : locating source rest step = .error error) :
    ¬ error.fault.cause.OfSplitting := by
  cases step with
  | ok value => cases failed
  | error fault =>
    cases failed
    exact spares fault rfl

/-- **A tag that cannot be split is the first one that cannot**, and located at its braces. -/
theorem buildFrom_splitting (failed : buildFrom source text builder = .error error)
    (splitting : error.fault.cause.OfSplitting) :
    (Tag.walk text).fault = some error.fault ∧ ∃ consumed lead body,
      text = consumed ++ (Tag.walk text).rest ∧
        cut Tag.openBraces (Tag.walk text).rest = some (lead, body) ∧
        error.position = Position.before source (Tag.openBraces ++ body) := by
  -- both go on behind the first tag, and what the parser does besides splitting spares tags
  fun_induction Tag.walk text generalizing builder with
  | case1 text fault unsplit =>
    rw [buildFrom_eq, unsplit] at failed
    cases failed
    unfold Tag.first? at unsplit
    split at unsplit
    · cases unsplit
    · rename_i lead body isCut
      have whole : text = lead ++ (Tag.openBraces ++ body) :=
        (cut_eq_some isCut).trans (List.append_assoc _ _ _)
      have rest : fromBraces text = Tag.openBraces ++ body := by
        rw [fromBraces, isCut]
        exact (congrArg (List.drop lead.length) whole).trans List.drop_left
      refine ⟨rfl, [], lead, body, rfl, isCut, ?_⟩
      rw [← rest]
      rfl
  | case2 text nothing =>
    rw [buildFrom_eq, nothing] at failed
    change (locating source text (builder.addText text)).bind (Builder.finish source) = _ at failed
    rcases bind_eq_error.mp failed with refused | ⟨after, -, unfinished⟩
    · exact absurd splitting ((addText_spares text).locating refused)
    · unfold Builder.finish at unfinished
      split at unfinished
      · cases unfinished
      · cases unfinished
        exact splitting.elim
  | case3 text tag found =>
    rename_i ih
    rw [buildFrom_eq, found] at failed
    change (locating source text (builder.addText tag.before)).bind (fun builder =>
      (locating source tag.here (builder.addTag tag)).bind (buildFrom source tag.after)) = _ at failed
    rcases bind_eq_error.mp failed with refused | ⟨middle, -, failed⟩
    · exact absurd splitting ((addText_spares tag.before).locating refused)
    · rcases bind_eq_error.mp failed with refused | ⟨after, -, failed⟩
      · exact absurd splitting (addTag_spares.locating refused)
      · obtain ⟨fault, consumed, lead, body, left, isCut, position⟩ := ih failed
        obtain ⟨taken, whole⟩ := Tag.after_suffix found
        refine ⟨fault, taken ++ consumed, lead, body, ?_, isCut, position⟩
        rw [List.append_assoc, ← whole, left]

end Splitting

/-! ### Sources -/

/-- **Every parse error is located inside the source.** Wherever the source stands in memory, its
position is the one that the addresses give, and that of an offset between two characters. If a tag is
empty or not closed, it is the first one that cannot be split, and the offset is that of the braces
that open it. -/
theorem Node.parse_located {source : String} {error : ParseError}
    (failed : Node.parse source = .error error) (address : Nat) :
    ∃ ahead rest, source.toList = ahead ++ rest ∧
      error.position = Position.ofOffset source.toList (utf8Size ahead) ∧
      (parseSlice ⟨address, source.toList⟩).run = some (.error ⟨error.fault,
        some (Position.ofOffset source.toList (utf8Size ahead))⟩) ∧
      (error.fault.cause.OfSplitting →
        (Tag.walk source.toList).fault = some error.fault ∧ ∃ consumed lead body,
          source.toList = consumed ++ (Tag.walk source.toList).rest ∧
            cut Tag.openBraces (Tag.walk source.toList).rest = some (lead, body) ∧
            ahead = consumed ++ lead ∧ rest = Tag.openBraces ++ body) := by
  have agrees := parseSlice_agrees address source
  rw [failed] at agrees
  obtain ⟨loose, ran, rfl, ahead, rest, whole, position⟩ := agrees
  by_cases splitting : error.fault.cause.OfSplitting
  · obtain ⟨fault, consumed, lead, body, left, isCut, here⟩ := buildFrom_splitting failed splitting
    have parts : source.toList = consumed ++ lead ++ (Tag.openBraces ++ body) := by
      rw [left, cut_eq_some isCut]
      simp only [List.append_assoc]
    have offset : error.position = Position.ofOffset source.toList (utf8Size (consumed ++ lead)) := by
      rw [here, Position.before, parts, utf8Size_append, Nat.add_sub_cancel]
    exact ⟨consumed ++ lead, _, parts, offset, offset ▸ ran,
      fun _ => ⟨fault, consumed, lead, body, left, isCut, rfl, rfl⟩⟩
  · exact ⟨ahead, rest, whole, position, position ▸ ran, fun other => absurd other splitting⟩

/-- A template with an empty tag on its second line, after text of characters of two bytes. -/
def emptyTagSource : String := "\u00fc\u00e9\n\u00fc\x7b\x7b \x7d\x7d"

/-- It is located at its braces. -/
theorem emptyTagSource_located :
    ∃ error, Node.parse emptyTagSource = .error error ∧ error.position = ⟨2, 2⟩ ∧
      (parseSlice ⟨4096, emptyTagSource.toList⟩).run =
        some (.error ⟨error.fault, some ⟨2, 2⟩⟩) ∧
      (Tag.walk emptyTagSource.toList).fault = some error.fault := by
  have failed : Node.parse emptyTagSource =
      .error ⟨⟨.emptyTag, ['\u00fc', '\u00e9', '\n', '\u00fc']⟩, ⟨2, 2⟩⟩ := by
    with_unfolding_all rfl
  obtain ⟨ahead, rest, -, position, ran, splits⟩ := Node.parse_located failed 4096
  rw [← position] at ran
  exact ⟨_, failed, rfl, ran, (splits trivial).1⟩

end Stencil.Markup
