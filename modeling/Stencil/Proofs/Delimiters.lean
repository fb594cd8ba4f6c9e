/-
**Splitting off a tag loses nothing but its delimiters and the blanks that they drop.**

A text with a tag is what stands before the tag, its opening delimiter, its content, its closing
delimiter and what stands after it. Blanks are lost beside a delimiter only if it carries a `~`. What
stands after the tag is shorter than the text, so going on there comes to an end.

* `Tag.Delimits`: **the delimiters of a tag**, by its form;
* `trimMark_parts`, `close_parts`, `sectionEnd?_parts`: what the steps of the splitter take off;
* `first?_parts`: **a text is made up of the parts of its first tag**;
* `Tag.walkOn`, `Builder.buildOn`: walking over the tags and building the nodes, as loops that do not
  count what is left;
* `first?_lossless`: **the first tag of a text**, and the loops over all tags, which end.
-/

import Mathlib.Data.List.TakeWhile
import Stencil.Proofs.SlicedParser
import Stencil.Proofs.TagMeaning

namespace Stencil.Markup

open Tag Text

/-! ### Delimiters -/

/-- A `~`, or nothing. -/
def mark (trims : Bool) : List Char :=
  if trims then ['~'] else []

/-- **What stands around the content of a tag**, and which blanks are dropped with it. -/
structure Delimiters where
  opening : List Char
  closing : List Char
  /-- Whether the blanks before the opening delimiter are dropped. -/
  trimsBefore : Bool
  /-- Whether the blanks between the opening delimiter and the content are dropped. -/
  trimsInside : Bool
  /-- Whether the blanks after the closing delimiter are dropped. -/
  trimsAfter : Bool

/-- The forms with two braces: the sign behind the opening ones, and the closing delimiter. -/
def signs : List (Tag.Form × List Char × List Char) :=
  [(.escaped, [], closeBraces), (.comment, ['!'], closeBraces),
    (.comment, ['!', '-', '-'], closeLongComment), (.opening, ['#'], closeBraces),
    (.closing, ['/'], closeBraces), (.inclusion, ['>'], closeBraces)]

/-- **The delimiters of a tag.** A `~` in an opening delimiter stands behind its braces, one in a
closing delimiter before them. -/
inductive Tag.Delimits (tag : Tag) : Delimiters → Prop
  /-- Two braces and a sign. -/
  | signed {sign braces : List Char} (before after : Bool) : (tag.form, sign, braces) ∈ signs →
      Delimits tag ⟨openBraces ++ mark before ++ sign, mark after ++ braces, before, false, after⟩
  /-- Three braces. -/
  | raw (outer inner after : Bool) : tag.form = .raw →
      Delimits tag ⟨openBraces ++ mark outer ++ ['{'] ++ mark inner, mark after ++ closeRaw,
        outer || inner, false, after⟩
  /-- Two braces that are kept from opening a tag by a backslash. -/
  | braces : tag.form = .verbatim → tag.content = openBraces →
      Delimits tag ⟨['\\'], [], false, false, false⟩
  /-- The two tags of a section, with the same name. -/
  | «section» {name last : List Char} (outer inner inside : Bool) : tag.form = .verbatim →
      trim last = trim name →
      Delimits tag ⟨openBraces ++ mark outer ++ openBraces ++ mark inner ++ name ++ mark inside ++
        closeSection, endSection ++ last ++ closeSection, outer || inner, inside, false⟩

/-- **Blanks that may be dropped**: there are none unless they are trimmed. -/
structure Dropped (trims : Bool) (blanks : List Char) : Prop where
  blank : ∀ c ∈ blanks, isBlank c = true
  marked : blanks ≠ [] → trims = true

namespace Dropped

theorem nil (trims : Bool) : Dropped trims [] :=
  ⟨by simp, fun filled => absurd rfl filled⟩

/-- Blanks that are dropped for one of two marks. -/
theorem append {outer inner : Bool} {first second : List Char} (left : Dropped inner first)
    (right : Dropped outer second) : Dropped (outer || inner) (first ++ second) where
  blank c member := (List.mem_append.mp member).elim (left.blank c) (right.blank c)
  marked filled := by
    by_cases empty : second = []
    · have first : first ≠ [] := fun none => filled (by rw [none, empty, List.append_nil])
      rw [left.marked first, Bool.or_true]
    · rw [right.marked empty, Bool.true_or]

end Dropped

/-! ### What the splitter takes off -/

section Parts

variable {form : Tag.Form} {before here delimiter body text name : List Char} {tag : Tag}

/-- **A `~` behind an opening delimiter** takes the blanks before the delimiter with it. -/
theorem trimMark_parts (before text : List Char) : ∃ trims blanks, Dropped trims blanks ∧
    before = (trimMark before text).1 ++ blanks ∧ text = mark trims ++ (trimMark before text).2 := by
  unfold trimMark
  split
  · obtain ⟨blanks, blank, whole⟩ := trimEnd_parts before
    exact ⟨true, blanks, ⟨blank, fun _ => rfl⟩, whole, rfl⟩
  · exact ⟨false, [], .nil false, (List.append_nil before).symm, rfl⟩

/-- **A tag ends with its closing delimiter.** -/
theorem close_parts (closed : close form before here delimiter = .ok tag) :
    tag.form = form ∧ tag.before = before ∧ ∃ trims blanks, Dropped trims blanks ∧
      here = tag.content ++ (mark trims ++ (delimiter ++ (blanks ++ tag.after))) := by
  unfold close at closed
  split at closed
  · cases closed
  · rename_i inside after found
    have whole := cut_eq_some found
    split at closed
    · cases closed
    · split at closed
      · rename_i marked
        cases closed
        obtain ⟨front, rfl⟩ := List.getLast?_eq_some_iff.mp marked
        obtain ⟨blanks, blank, rest⟩ := trimStart_parts after
        refine ⟨rfl, rfl, true, blanks, ⟨blank, fun _ => rfl⟩, ?_⟩
        rw [whole, List.dropLast_concat, ← rest]
        simp only [mark, if_true, List.append_assoc]
      · cases closed
        refine ⟨rfl, rfl, false, [], .nil false, ?_⟩
        rw [whole, List.append_assoc]
        rfl

/-- **A section ends with an end tag of its name.** -/
theorem sectionEnd?_parts {content after : List Char}
    (found : sectionEnd? name text = some (content, after)) : ∃ last, trim last = name ∧
      text = content ++ (endSection ++ last ++ closeSection ++ after) := by
  fun_induction sectionEnd? name text generalizing content with
  | case1 => cases found
  | case2 => cases found
  | case3 text skipped rest opened last tail closed same =>
    cases found
    refine ⟨last, same, ?_⟩
    rw [cut_eq_some opened, cut_eq_some closed]
    simp only [List.append_assoc]
  | case4 text skipped rest opened label tail closed differ ih =>
    obtain ⟨⟨inner, behind⟩, isEnd, pieces⟩ := Option.map_eq_some_iff.mp found
    cases pieces
    obtain ⟨last, same, whole⟩ := ih isEnd
    refine ⟨last, same, ?_⟩
    rw [cut_eq_some opened, cut_eq_some closed, whole]
    simp only [List.append_assoc]

/-- **A tag makes up a text** that is `lead` up to its opening delimiter and `rest` from there on,
together with the blanks that are dropped. -/
structure Tag.MakesUp (tag : Tag) (delimiters : Delimiters) (lead rest : List Char) : Prop where
  delimits : tag.Delimits delimiters
  before : ∃ blanks, Dropped delimiters.trimsBefore blanks ∧ lead = tag.before ++ blanks
  behind : ∃ inside after, Dropped delimiters.trimsInside inside ∧
    Dropped delimiters.trimsAfter after ∧ rest = delimiters.opening ++ (inside ++ (tag.content ++
      (delimiters.closing ++ (after ++ tag.after))))

/-- A tag with two braces and a sign. -/
theorem signed_parts (sign : List Char) {trims : Bool} {blanks : List Char}
    (known : (form, sign, delimiter) ∈ signs) (dropped : Dropped trims blanks)
    (closed : close form before here delimiter = .ok tag) : ∃ delimiters, tag.MakesUp delimiters
      (before ++ blanks) (openBraces ++ (mark trims ++ (sign ++ here))) := by
  obtain ⟨rfl, rfl, marked, after, droppedAfter, rfl⟩ := close_parts closed
  refine ⟨_, .signed trims marked known, ⟨blanks, dropped, rfl⟩, [], after, .nil false,
    droppedAfter, ?_⟩
  simp only [List.append_assoc, List.nil_append]

/-- A tag with three braces. -/
theorem raw_parts {outer : Bool} {blanks : List Char} (dropped : Dropped outer blanks)
    (closed : close .raw (trimMark before here).1 (trimMark before here).2 closeRaw = .ok tag) :
    ∃ delimiters, tag.MakesUp delimiters (before ++ blanks)
      (openBraces ++ (mark outer ++ '{' :: here)) := by
  obtain ⟨inner, gap, droppedInner, isBefore, isHere⟩ := trimMark_parts before here
  obtain ⟨isForm, same, marked, after, droppedAfter, whole⟩ := close_parts closed
  refine ⟨_, .raw outer inner marked isForm, ⟨gap ++ blanks, droppedInner.append dropped, ?_⟩,
    [], after, .nil false, droppedAfter, ?_⟩
  · rw [← List.append_assoc, same, ← isBefore]
  · rw [isHere, whole]
    simp only [List.append_assoc, List.cons_append, List.nil_append]

/-- A section with its two tags. -/
theorem sectionTags_parts {outer : Bool} {blanks : List Char} (dropped : Dropped outer blanks)
    (closed : (close .verbatim (trimMark before here).1 (trimMark before here).2 closeSection).bind
      verbatimSection = .ok tag) :
    ∃ delimiters, tag.MakesUp delimiters (before ++ blanks)
      (openBraces ++ (mark outer ++ '{' :: '{' :: here)) := by
  obtain ⟨inner, gap, droppedInner, isBefore, isHere⟩ := trimMark_parts before here
  obtain ⟨opened, closed, ends⟩ := bind_eq_ok.mp closed
  obtain ⟨isForm, same, marked, inside, droppedInside, whole⟩ := close_parts closed
  unfold verbatimSection at ends
  split at ends
  · cases ends
  · rename_i content after isEnd
    cases ends
    obtain ⟨last, isName, parts⟩ := sectionEnd?_parts isEnd
    refine ⟨_, .section outer inner marked isForm isName,
      ⟨gap ++ blanks, droppedInner.append dropped, ?_⟩, inside, [], droppedInside, .nil false, ?_⟩
    · rw [← List.append_assoc, same, ← isBefore]
    · rw [isHere, whole, parts]
      simp only [openBraces, List.append_assoc, List.cons_append, List.nil_append]

/-- **A tag that is read behind opening braces** makes up the text from the braces on. -/
theorem ofBody_parts (found : ofBody before body = .ok tag) :
    ∃ delimiters, tag.MakesUp delimiters before (openBraces ++ body) := by
  obtain ⟨trims, blanks, dropped, isBefore, isBody⟩ := trimMark_parts before body
  unfold ofBody at found
  generalize trimMark before body = marked at found isBefore isBody
  obtain ⟨front, inner⟩ := marked
  simp only at found isBefore isBody
  rw [isBefore, isBody]
  split at found
  · cases found
  · exact sectionTags_parts dropped found
  · exact raw_parts dropped found
  · exact signed_parts ['!', '-', '-'] (by simp [signs]) dropped found
  · exact signed_parts ['!'] (by simp [signs]) dropped found
  · exact signed_parts ['#'] (by simp [signs]) dropped found
  · exact signed_parts ['/'] (by simp [signs]) dropped found
  · exact signed_parts ['>'] (by simp [signs]) dropped found
  · exact signed_parts [] (by simp [signs]) dropped found

/-- **A text is made up of its first tag** and what stands around it; no braces stand before the
opening delimiter. -/
theorem first?_parts (found : first? text = .ok (some tag)) : ∃ lead rest delimiters,
    text = lead ++ rest ∧ ¬ openBraces <:+: lead ∧ tag.MakesUp delimiters lead rest := by
  unfold first? at found
  split at found
  · cases found
  · rename_i before body isCut
    have whole : text = before ++ (openBraces ++ body) := by
      rw [cut_eq_some isCut, List.append_assoc]
    have free := cut_eq_none_iff.mp (cut_before (by decide) isCut)
    split at found
    · rename_i guarded
      cases found
      obtain ⟨front, rfl⟩ := List.getLast?_eq_some_iff.mp guarded
      refine ⟨front, '\\' :: (openBraces ++ body), _, by rw [whole, List.append_assoc]; rfl,
        fun inside => free (inside.trans (List.infix_append' [] front ['\\'])),
        .braces rfl rfl, ⟨[], .nil false, ?_⟩, [], [], .nil false, .nil false, rfl⟩
      rw [List.dropLast_concat, List.append_nil]
    · obtain ⟨made, isTag, same⟩ := map_eq_ok.mp found
      cases same
      obtain ⟨delimiters, parts⟩ := ofBody_parts isTag
      exact ⟨before, _, delimiters, whole, free, parts⟩

/-- **What comes after a tag ends the text** in which the tag was found. -/
theorem Tag.after_suffix (found : first? text = .ok (some tag)) : tag.after <:+ text := by
  obtain ⟨lead, rest, delimiters, rfl, -, parts⟩ := first?_parts found
  obtain ⟨inside, after, -, -, rfl⟩ := parts.behind
  refine ⟨lead ++ delimiters.opening ++ inside ++ tag.content ++ delimiters.closing ++ after, ?_⟩
  simp only [List.append_assoc]

theorem first?_eq_none_iff : first? text = .ok none ↔ ¬ openBraces <:+: text := by
  rw [← cut_eq_none_iff]
  unfold first?
  split
  · rename_i absent
    simp [absent]
  · rename_i before body found
    rw [found]
    split
    · simp
    · cases ofBody before body <;> simp [Except.map]

end Parts

/-! ### Loops -/

/-- **The tags behind a tag**, each found in what comes after the one before, as a loop. -/
def Tag.walkOn (tag : Tag) : Option Walk :=
  match first? tag.after with
  | .error fault => some ⟨[], tag.after, some fault⟩
  | .ok none => some ⟨[], tag.after, none⟩
  | .ok (some next) => do
    let more ← next |>.walkOn
    some { more with tags := next :: more.tags }
partial_fixpoint

/-- A step of the parser that may be refused. -/
def settled {α : Type} (step : Except ParseError α) : ExceptT ParseError Option α :=
  .mk (some step)

/-- **The nodes of the text that is left** of `source`, tag after tag, as a loop. -/
def Builder.buildOn (source text : List Char) (builder : Builder) :
    ExceptT ParseError Option (List Node) := do
  match ← settled (locating source (fromBraces text) (first? text)) with
  | none =>
    let builder ← settled (locating source text (builder.addText text))
    settled (builder.finish source)
  | some tag =>
    let builder ← settled (locating source text (builder.addText tag.before))
    let builder ← settled (locating source tag.here (builder.addTag tag))
    builder |>.buildOn source tag.after
partial_fixpoint

/-- **The walk over the tags ends**, with what the running walk finds: what is left gets shorter with
each tag. -/
theorem Tag.walkOn_eq (tag : Tag) : tag.walkOn = some (walk tag.after) := by
  rw [walkOn, walk]
  cases found : first? tag.after with
  | error fault => rfl
  | ok next =>
    cases next with
    | none => rfl
    | some next =>
      have shorter : next.after.length < tag.after.length := first?_shorter found
      dsimp only
      rw [walkOn_eq next]
      rfl
termination_by tag.after.length

/-- A step that is settled goes on with steps that end. -/
theorem settled_bind {α β : Type} {step : Except ParseError α}
    {next : α → ExceptT ParseError Option β} {made : α → Except ParseError β}
    (ends : ∀ value, step = .ok value → (next value).run = some (made value)) :
    ((settled step).bind next).run = some (step.bind made) := by
  cases step with
  | error error => rfl
  | ok value => exact ends value rfl

/-- **The parse loop ends**, with what the running parser makes of the text: what is left gets
shorter in each round. -/
theorem buildOn_eq (source text : List Char) (builder : Builder) :
    (builder.buildOn source text).run = some (buildFrom source text builder) := by
  rw [Builder.buildOn, buildFrom_eq]
  refine settled_bind fun found isFound => ?_
  cases found with
  | none => exact settled_bind fun _ _ => rfl
  | some tag =>
    have shorter : tag.after.length < text.length := first?_shorter (locating_first? isFound)
    exact settled_bind fun _ _ => settled_bind fun after _ => buildOn_eq source tag.after after
termination_by text.length

/-! ### The first tag -/

/-- **Splitting loses nothing but delimiters and blanks beside a `~`, and always advances.** A text has
no first tag exactly if it has no opening braces. Otherwise no opening braces stand before the first
tag, what comes after it ends the text and is shorter, and the text is put together from the parts of
the tag, its delimiters and the blanks that these drop. So walking over the tags and building the nodes
end, also as loops that do not count what is left. -/
theorem first?_lossless (text : List Char) :
    (first? text = .ok none ↔ ¬ openBraces <:+: text) ∧
      (∀ tag, first? text = .ok (some tag) →
        ¬ openBraces <:+: tag.before ∧ tag.after <:+ text ∧ tag.after.length < text.length ∧
          tag.walkOn = some (walk tag.after) ∧
          ∃ delimiters before inside after, tag.Delimits delimiters ∧
            Dropped delimiters.trimsBefore before ∧ Dropped delimiters.trimsInside inside ∧
            Dropped delimiters.trimsAfter after ∧
            text = tag.before ++ before ++ delimiters.opening ++ inside ++ tag.content ++
              delimiters.closing ++ after ++ tag.after) ∧
      ∀ source builder, (builder.buildOn source text).run = some (buildFrom source text builder) := by
  refine ⟨first?_eq_none_iff, fun tag found => ?_, fun source => buildOn_eq source text⟩
  obtain ⟨lead, rest, delimiters, whole, free, delimits, ⟨before, droppedBefore, isLead⟩,
    inside, after, droppedInside, droppedAfter, isRest⟩ := first?_parts found
  refine ⟨fun braces => free ?_, Tag.after_suffix found, first?_shorter found, walkOn_eq tag,
    delimiters, before, inside, after, delimits, droppedBefore, droppedInside, droppedAfter, ?_⟩
  · exact isLead ▸ braces.trans (List.infix_append' [] tag.before before)
  · rw [whole, isLead, isRest]
    simp only [List.append_assoc]

/-- A section with a `~` in each place that takes one, and another section's end in it. -/
def tildeSection : List Char :=
  "a \x7b\x7b~\x7b\x7b~ b ~\x7d\x7d\x7d\x7d\n\x7b\x7b\x7b\x7b/c\x7d\x7d\x7d\x7d".toList ++
    "\x7b\x7b\x7b\x7b/b \x7d\x7d\x7d\x7d \x7b\x7b".toList

theorem tildeSection_lossless : ∃ tag, first? tildeSection = .ok (some tag) ∧
    tag.before = ['a'] ∧ tag.after = [' ', '{', '{'] ∧ ¬ openBraces <:+: tag.before ∧
    ∃ delimiters before inside after, tag.Delimits delimiters ∧
      Dropped delimiters.trimsBefore before ∧ Dropped delimiters.trimsInside inside ∧
      Dropped delimiters.trimsAfter after ∧
      tildeSection = tag.before ++ before ++ delimiters.opening ++ inside ++ tag.content ++
        delimiters.closing ++ after ++ tag.after := by
  have found : first? tildeSection = .ok (some
      { form := .verbatim, before := ['a'], content := endSection ++ 'c' :: closeSection,
        after := [' ', '{', '{'], raw := [' ', 'b', ' ', '~', '}', '}', '}'],
        here := endSection ++ 'c' :: (closeSection ++ (endSection ++ 'b' :: ' ' ::
          (closeSection ++ [' ', '{', '{']))) }) := by
    decide +kernel
  obtain ⟨free, -, -, -, parts⟩ := (first?_lossless tildeSection).2.1 _ found
  exact ⟨_, found, rfl, rfl, free, parts⟩

end Stencil.Markup
