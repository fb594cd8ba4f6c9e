/-
**Tags split by byte offsets.**

Tags may also be split by computing where they start and end. Each offset is the one of a mark that was
found, shifted by the bytes of what is known to stand there: a mark, a `~`, a backslash, the character
behind the braces. Every shift is by the right number of bytes, so no part is taken out of bounds or
inside a character, and no offset falls below zero; and the parts are those that the running splitter
finds by walking over the text.

* `SlicedTag.close`, `SlicedTag.endOfSection`, `SlicedTag.first?`: **the splitter on slices**;
* `SlicedTag.Reads`: **a tag on slices is a tag** and stands at a place of the source;
* `first?_agrees`: **the splitter on slices never fails a check** and splits as the running one does.
-/

import Stencil.Markup.Tag
import Stencil.Proofs.Slices

namespace Stencil.Markup

open Text

/-- **A fault on its way**: it may have been given a position already. -/
structure LooseFault where
  fault : Fault
  position : Option Position

/-- A scanner of slices, whose checks may fail and which may have no end. -/
abbrev Scan := ExceptT LooseFault Option

/-- Refuses a text; the position is not known yet. -/
def complain {α : Type} (cause : Cause) (near : Slice) : Scan α :=
  throw ⟨⟨cause, near.text⟩, none⟩

/-- **The quoted part of the text near a fault**, cut out by offsets. -/
def excerpt? (cause : Cause) (near : Slice) : Option (Option Slice) :=
  match cause with
  | .unclosedTag | .unterminatedString => (near.lastChars? excerptLimit).map some
  | .unknownMode _ => some none
  | _ => (near.firstChars? excerptLimit).map some

theorem excerpt?_eq (cause : Cause) (near : Slice) :
    (excerpt? cause near).map (Option.map Slice.text) = some (Fault.excerpt ⟨cause, near.text⟩) := by
  have first : ((near.firstChars? excerptLimit).map some).map (Option.map Slice.text) =
      some (some (near.text.take excerptLimit)) := by
    rw [Option.map_map, ← Option.map_some, ← Slice.firstChars?_eq, Option.map_map]
    rfl
  have last : ((near.lastChars? excerptLimit).map some).map (Option.map Slice.text) =
      some (some (near.text.drop (near.text.length - excerptLimit))) := by
    rw [Option.map_map, ← Option.map_some, ← Slice.lastChars?_eq, Option.map_map]
    rfl
  cases cause with
  | unclosedTag => exact last
  | unterminatedString => exact last
  | unknownMode mode => rfl
  | _ => exact first

/-- A fault without a position. -/
def Unplaced (fault : Fault) (loose : LooseFault) : Prop :=
  loose = ⟨fault, none⟩

/-- **A tag and the text around it**, on slices. -/
structure SlicedTag where
  form : Tag.Form
  before : Slice
  content : Slice
  after : Slice
  raw : Slice

namespace SlicedTag

/-! ### Splitting by offsets -/

/-- A slice without the `~` it may start with, and whether it starts with one. -/
def trimMarker (slice : Slice) : Slice × Bool :=
  match slice.strip? ['~'] with
  | some rest => (rest, true)
  | none => (slice, false)

/-- The text before a tag, which loses its last blanks if a `~` asks for it. -/
def trimBefore (before : Slice) (trimmed : Bool) : Slice :=
  if trimmed then before.trimEnd else before

/-- **Finds the end of a tag** whose content starts with `start`. -/
def close (form : Tag.Form) (before start : Slice) (delimiter : List Char) : Scan SlicedTag :=
  match start.find? delimiter with
  | none => complain .unclosedTag before
  | some offset => do
    let inside ← start.before? offset
    if isBlankText inside.text then complain .emptyTag before
    else
      let after ← start.after? (offset + utf8Size delimiter)
      if inside.text.getLast? = some '~' then
        let shorter ← minus? offset 1
        let content ← start.before? shorter
        let raw ← start.before? (shorter + utf8Size delimiter)
        pure ⟨form, before, content, after.trimStart, raw⟩
      else
        let raw ← start.before? (offset + utf8Size delimiter)
        pure ⟨form, before, inside, after, raw⟩

/-- **Finds the end of a verbatim section**, looking behind `offset`. -/
def endOfSection (opened : SlicedTag) (offset : Nat) : Scan SlicedTag := do
  let rest ← opened.after.after? offset
  match rest.find? Tag.endSection with
  | none => complain .unclosedTag opened.raw
  | some candidate =>
    let start := candidate + 5
    let remains ← rest.after? start
    match remains.find? Tag.closeSection with
    | none => complain .unclosedTag opened.raw
    | some close =>
      let label ← remains.before? close
      if label.trim.text = opened.content.trim.text then
        let content ← opened.after.before? (offset + candidate)
        let after ← remains.after? (close + 4)
        pure ⟨.verbatim, opened.before, content, after, opened.raw⟩
      else opened |>.endOfSection (offset + start + close + 4)
partial_fixpoint

/-- A verbatim section behind its four opening braces. -/
def verbatimSection (before rest : Slice) : Scan SlicedTag := do
  let (rest, trimmed) := trimMarker rest
  let opened ← close .verbatim (trimBefore before trimmed) rest Tag.closeSection
  endOfSection opened 0

/-- Output as it is, behind its three opening braces. -/
def rawOutput (before rest : Slice) : Scan SlicedTag :=
  let (rest, trimmed) := trimMarker rest
  close .raw (trimBefore before trimmed) rest Tag.closeRaw

/-- **The tag with the given character behind its opening braces.** `body` starts with this character
and `rest` behind it. -/
def ofMarker (marker : Char) (before body rest : Slice) : Scan SlicedTag :=
  if marker = '{' then
    match rest.strip? ['{'] with
    | some rest => verbatimSection before rest
    | none => rawOutput before rest
  else if marker = '!' then
    match rest.strip? ['-', '-'] with
    | some rest => close .comment before rest Tag.closeLongComment
    | none => close .comment before rest Tag.closeBraces
  else if marker = '#' then close .opening before rest Tag.closeBraces
  else if marker = '/' then close .closing before rest Tag.closeBraces
  else if marker = '>' then close .inclusion before rest Tag.closeBraces
  else close .escaped before body Tag.closeBraces

/-- **The tag whose opening braces stand at an offset**, not behind a backslash. -/
def ofBraces (text before : Slice) (start : Nat) : Scan SlicedTag := do
  let inner ← text.after? (start + 2)
  let (body, trimmed) := trimMarker inner
  match body.text with
  | [] =>
    let whole ← text.after? start
    complain .unclosedTag whole
  | marker :: _ =>
    let rest ← body.after? marker.utf8Size
    ofMarker marker (trimBefore before trimmed) body rest

/-- **The first tag of a slice**, if there is one. -/
def first? (text : Slice) : Scan (Option SlicedTag) :=
  match text.find? Tag.openBraces with
  | none => pure none
  | some start => do
    let before ← text.before? start
    if before.text.getLast? = some '\\' then
      let escape ← minus? start 1
      let before ← text.before? escape
      let braces ← text.between? start (start + 2)
      let after ← text.after? (start + 2)
      pure (some ⟨.verbatim, before, braces, after, braces⟩)
    else
      let tag ← ofBraces text before start
      pure (some tag)

/-! ### The same tags -/

/-- Where faults of the tag are located: its braces, or the text that it gives. -/
def place (tag : SlicedTag) : Slice :=
  if tag.form = .verbatim then tag.content else tag.raw

/-- **A tag on slices is a tag** that was found in a text at `origin`. -/
structure Reads (source : Slice) (origin : Nat) (sliced : SlicedTag) (tag : Tag) : Prop where
  form : sliced.form = tag.form
  before : sliced.before = ⟨origin, tag.before⟩
  content : sliced.content.text = tag.content
  after : sliced.after.text = tag.after
  raw : sliced.raw.text = tag.raw
  follows : StandsAt source tag.after sliced.after.address
  here : StandsAt source tag.here sliced.place.address

section Splitting

variable {source : Slice} {address origin : Nat} {before text : List Char}

theorem trimMarker_eq (origin address : Nat) (before text : List Char) :
    ∃ trimmed ahead, trimMarker ⟨address, text⟩ =
        (⟨address + utf8Size ahead, (Tag.trimMark before text).2⟩, trimmed) ∧
      trimBefore ⟨origin, before⟩ trimmed = ⟨origin, (Tag.trimMark before text).1⟩ ∧
      text = ahead ++ (Tag.trimMark before text).2 := by
  by_cases marked : ∃ rest, text = '~' :: rest
  · obtain ⟨rest, rfl⟩ := marked
    exact ⟨true, ['~'], rfl, rfl, rfl⟩
  · have unmarked : Tag.trimMark before text = (before, text) := by
      unfold Tag.trimMark
      split
      · exact absurd ⟨_, rfl⟩ marked
      · rfl
    have noPrefix : ['~'].isPrefixOf? text = none := by
      rw [Option.eq_none_iff_forall_ne_some]
      exact fun rest starts => marked ⟨rest, isPrefixOf?_eq_some starts⟩
    rw [unmarked]
    refine ⟨false, [], ?_, rfl, rfl⟩
    rw [trimMarker, Slice.strip?, noPrefix]
    rfl

/-- **The end of a tag is found by offsets** as it is found by walking, for delimiters that end with a
brace. -/
theorem close_agrees (front : List Char) (form : Tag.Form)
    (stands : StandsAt source text address) :
    Agrees Unplaced (Reads source origin)
      (close form ⟨origin, before⟩ ⟨address, text⟩ (front ++ ['}']))
      (Tag.close form before text (front ++ ['}'])) := by
  unfold close Tag.close
  rw [Slice.find?]
  cases found : cut (front ++ ['}']) text with
  | none => exact Agrees.throw rfl
  | some pieces =>
    obtain ⟨inside, after⟩ := pieces
    have whole : text = inside ++ (front ++ ['}']) ++ after := cut_eq_some found
    have follows : StandsAt source after (address + (utf8Size inside + utf8Size (front ++ ['}']))) := by
      rw [← utf8Size_append]
      exact (whole ▸ stands).behind
    have here : ∀ {sliced : SlicedTag}, sliced.content.address = address →
        sliced.raw.address = address → StandsAt source text sliced.place.address := by
      intro sliced content raw
      unfold place
      split
      · exact content ▸ stands
      · exact raw ▸ stands
    simp only [Option.map_some]
    rw [lift_bind (Slice.before?_eq (whole.trans (List.append_assoc _ _ _)) rfl)]
    by_cases blank : isBlankText inside
    · rw [if_pos blank, if_pos blank]
      exact Agrees.throw rfl
    · rw [if_neg blank, if_neg blank, lift_bind (Slice.after?_eq whole (utf8Size_append _ _))]
      by_cases marked : inside.getLast? = some '~'
      · rw [if_pos marked, if_pos marked]
        -- the end of the raw text is shifted with the `~`, so it stands before the last brace
        obtain ⟨label, rfl⟩ := List.getLast?_eq_some_iff.mp marked
        have content : text = label ++ ('~' :: (front ++ '}' :: after)) := by simp [whole]
        have raw : text = label ++ '~' :: front ++ '}' :: after := by simp [whole]
        have shifted : utf8Size (label ++ '~' :: front) =
            utf8Size label + utf8Size (front ++ ['}']) := by
          rw [utf8Size_append, utf8Size_append, utf8Size_cons, Nat.add_comm _ (utf8Size front)]
          rfl
        have lastBrace : (label ++ ['~'] ++ (front ++ ['}'])).dropLast = label ++ '~' :: front := by
          rw [← List.append_assoc, List.dropLast_concat, List.append_assoc]
          rfl
        rw [lift_bind (minus?_concat rfl label), lift_bind (Slice.before?_eq content rfl),
          lift_bind (Slice.before?_eq raw shifted)]
        exact Agrees.pure ⟨rfl, rfl, List.dropLast_concat.symm, rfl, lastBrace.symm,
          follows.trimStart, here rfl rfl⟩
      · rw [if_neg marked, if_neg marked, lift_bind (Slice.before?_eq whole (utf8Size_append _ _))]
        exact Agrees.pure ⟨rfl, rfl, rfl, rfl, rfl, follows, here rfl rfl⟩

/-- What stands around an end tag of a section. -/
theorem section_parts {whole skipped rest ahead remains label after : List Char}
    (parts : whole = skipped ++ rest) (isEnd : cut Tag.endSection rest = some (ahead, remains))
    (isClosed : cut Tag.closeSection remains = some (label, after)) :
    whole = skipped ++ ahead ++ Tag.endSection ++ label ++ Tag.closeSection ++ after := by
  rw [parts, cut_eq_some isEnd, cut_eq_some isClosed]
  simp only [List.append_assoc]

/-- **One round of looking for the end of a section**: where the next end tag has another name, the
search goes on behind it. -/
theorem endOfSection_round (opened : SlicedTag) {skipped rest ahead remains label after : List Char}
    (whole : opened.after.text = skipped ++ rest)
    (isEnd : cut Tag.endSection rest = some (ahead, remains))
    (isClosed : cut Tag.closeSection remains = some (label, after)) :
    endOfSection opened (utf8Size skipped) =
      if trim label = trim opened.content.text then
        pure ⟨.verbatim, opened.before, ⟨opened.after.address, skipped ++ ahead⟩,
          ⟨opened.after.address +
            utf8Size (skipped ++ ahead ++ Tag.endSection ++ label ++ Tag.closeSection), after⟩,
          opened.raw⟩
      else
        endOfSection opened
          (utf8Size (skipped ++ ahead ++ Tag.endSection ++ label ++ Tag.closeSection)) := by
  have parts : rest = ahead ++ Tag.endSection ++ remains := cut_eq_some isEnd
  have inner : remains = label ++ Tag.closeSection ++ after := cut_eq_some isClosed
  have ending : utf8Size Tag.endSection = 5 := by decide
  have closing : utf8Size Tag.closeSection = 4 := by decide
  have content : opened.after.text = skipped ++ ahead ++ (Tag.endSection ++ remains) := by
    rw [whole, parts, List.append_assoc, List.append_assoc]
  rw [endOfSection, lift_bind (Slice.after?_eq whole rfl)]
  simp only [Slice.find?, isEnd, Option.map_some]
  rw [lift_bind (Slice.after?_eq parts (by rw [utf8Size_append, ending]))]
  simp only [isClosed, Option.map_some]
  rw [lift_bind (Slice.before?_eq (inner.trans (List.append_assoc _ _ _)) rfl)]
  simp only [Slice.text_trim]
  by_cases same : trim label = trim opened.content.text
  · rw [if_pos same, if_pos same, lift_bind (Slice.before?_eq content (utf8Size_append _ _)),
      lift_bind (Slice.after?_eq inner (by rw [utf8Size_append, closing]))]
    simp only [utf8Size_append, ending, closing, Nat.add_assoc]
  · rw [if_neg same, if_neg same]
    simp only [utf8Size_append, ending, closing, Nat.add_assoc]

/-- **The end of a verbatim section is found by offsets** as it is found by walking. -/
theorem endOfSection_agrees (opened : SlicedTag) {skipped rest : List Char}
    (whole : opened.after.text = skipped ++ rest)
    (stands : StandsAt source opened.after.text opened.after.address) :
    Agrees Unplaced
      (fun sliced (found : List Char × List Char) => sliced.form = .verbatim ∧
        sliced.before = opened.before ∧ sliced.raw = opened.raw ∧
        sliced.content = ⟨opened.after.address, skipped ++ found.1⟩ ∧
        sliced.after.text = found.2 ∧ StandsAt source found.2 sliced.after.address)
      (endOfSection opened (utf8Size skipped))
      (match Tag.sectionEnd? (trim opened.content.text) rest with
        | none => .error ⟨.unclosedTag, opened.raw.text⟩
        | some found => .ok found) := by
  fun_induction Tag.sectionEnd? (trim opened.content.text) rest generalizing skipped with
  | case1 rest noEnd =>
    rw [endOfSection, lift_bind (Slice.after?_eq whole rfl)]
    simp only [Slice.find?, noEnd, Option.map_none]
    exact Agrees.throw rfl
  | case2 rest ahead remains isEnd unclosed =>
    have parts : rest = ahead ++ Tag.endSection ++ remains := cut_eq_some isEnd
    have offset : utf8Size (ahead ++ Tag.endSection) = utf8Size ahead + 5 := utf8Size_append _ _
    rw [endOfSection, lift_bind (Slice.after?_eq whole rfl)]
    simp only [Slice.find?, isEnd, Option.map_some]
    rw [lift_bind (Slice.after?_eq parts offset)]
    simp only [unclosed, Option.map_none]
    exact Agrees.throw rfl
  | case3 rest ahead remains isEnd label after isClosed same =>
    have parts := section_parts whole isEnd isClosed
    rw [endOfSection_round opened whole isEnd isClosed, if_pos same]
    exact Agrees.pure ⟨rfl, rfl, rfl, rfl, rfl, (parts ▸ stands).behind⟩
  | case4 rest ahead remains isEnd label after isClosed differ ih =>
    have parts := section_parts whole isEnd isClosed
    rw [endOfSection_round opened whole isEnd isClosed, if_neg differ]
    have later := ih parts
    cases found : Tag.sectionEnd? (trim opened.content.text) after with
    | none =>
      rw [found] at later
      exact later
    | some pieces =>
      rw [found] at later
      obtain ⟨sliced, ran, form, before, raw, content, behind, follows⟩ := later
      refine ⟨sliced, ran, form, before, raw, ?_, behind, follows⟩
      rw [content]
      simp only [List.append_assoc]

theorem close_form {form : Tag.Form} {delimiter : List Char} {tag : Tag}
    (closed : Tag.close form before text delimiter = .ok tag) : tag.form = form := by
  unfold Tag.close at closed
  split at closed
  · cases closed
  · split at closed
    · cases closed
    · split at closed <;> cases closed <;> rfl

/-- **A verbatim section is split by offsets** as it is split by walking. -/
theorem verbatimSection_agrees (stands : StandsAt source text address) :
    Agrees Unplaced (Reads source origin) (verbatimSection ⟨origin, before⟩ ⟨address, text⟩)
      ((Tag.close .verbatim (Tag.trimMark before text).1 (Tag.trimMark before text).2
        Tag.closeSection).bind Tag.verbatimSection) := by
  obtain ⟨trimmed, ahead, marked, isBefore, isText⟩ := trimMarker_eq origin address before text
  rw [isText] at stands
  rw [verbatimSection, marked]
  simp only [isBefore]
  refine (close_agrees ['}', '}', '}'] .verbatim stands.behind).bind fun opened tag reads closed => ?_
  have follows := reads.follows
  rw [← reads.after] at follows
  have ends := endOfSection_agrees opened (List.nil_append _).symm follows
  rw [reads.content, reads.after, reads.raw] at ends
  unfold Tag.verbatimSection
  cases found : Tag.sectionEnd? (trim tag.content) tag.after with
  | none =>
    rw [found] at ends
    exact ends
  | some pieces =>
    rw [found] at ends
    obtain ⟨sliced, ran, form, isFirst, raw, content, behind, stands⟩ := ends
    refine ⟨sliced, ran, form.trans (close_form closed).symm, isFirst.trans reads.before, ?_, behind,
      raw ▸ reads.raw, stands, ?_⟩
    · rw [content]
      rfl
    · rw [place, if_pos form, content]
      exact reads.follows

theorem rawOutput_agrees (stands : StandsAt source text address) :
    Agrees Unplaced (Reads source origin) (rawOutput ⟨origin, before⟩ ⟨address, text⟩)
      (Tag.close .raw (Tag.trimMark before text).1 (Tag.trimMark before text).2 Tag.closeRaw) := by
  obtain ⟨trimmed, ahead, marked, isBefore, isText⟩ := trimMarker_eq origin address before text
  rw [isText] at stands
  rw [rawOutput, marked]
  simp only [isBefore]
  exact close_agrees ['}', '}'] .raw stands.behind

theorem ofBraces_agrees {body : List Char} (stands : StandsAt source text address)
    (isCut : cut Tag.openBraces text = some (before, body)) :
    Agrees Unplaced (Reads source address)
      (ofBraces ⟨address, text⟩ ⟨address, before⟩ (utf8Size before)) (Tag.ofBody before body) := by
  have whole : text = before ++ Tag.openBraces ++ body := cut_eq_some isCut
  have offset : utf8Size (before ++ Tag.openBraces) = utf8Size before + 2 := utf8Size_append _ _
  have inside : StandsAt source body (address + (utf8Size before + 2)) := offset ▸ (whole ▸ stands).behind
  obtain ⟨trimmed, ahead, marked, isBefore, isBody⟩ :=
    trimMarker_eq address (address + (utf8Size before + 2)) before body
  rw [ofBraces, lift_bind (Slice.after?_eq whole offset)]
  simp only [marked, isBefore]
  rw [isBody] at inside
  have standsInner := inside.behind
  unfold Tag.ofBody
  generalize Tag.trimMark before body = pieces at standsInner
  obtain ⟨before', inner⟩ := pieces
  simp only at standsInner ⊢
  cases inner with
  | nil =>
    rw [lift_bind (Slice.after?_eq (whole.trans (List.append_assoc _ _ _)) rfl)]
    exact Agrees.throw rfl
  | cons marker rest =>
    have parts : marker :: rest = [marker] ++ rest := rfl
    have size : utf8Size [marker] = marker.utf8Size := rfl
    have behind := standsInner.tail
    simp only
    rw [lift_bind (Slice.after?_eq parts size)]
    split
    · rename_i impossible
      cases impossible
    · rename_i same
      cases same
      exact verbatimSection_agrees behind.tail
    · rename_i once same
      cases same
      have single : ∀ start, (Slice.mk start rest).strip? ['{'] = none :=
        fun start => Slice.strip?_eq_none once
      rw [ofMarker, if_pos rfl]
      simp only [single]
      exact rawOutput_agrees behind
    · rename_i same
      cases same
      exact close_agrees ['-', '-', '}'] .comment behind.tail.tail
    · rename_i short same
      cases same
      have plain : ∀ start, (Slice.mk start rest).strip? ['-', '-'] = none :=
        fun start => Slice.strip?_eq_none short
      rw [ofMarker, if_neg (by decide), if_pos rfl]
      simp only [plain]
      exact close_agrees ['}'] .comment behind
    · rename_i same
      cases same
      exact close_agrees ['}'] .opening behind
    · rename_i same
      cases same
      exact close_agrees ['}'] .closing behind
    · rename_i same
      cases same
      exact close_agrees ['}'] .inclusion behind
    · rename_i _ once _ short opening closing inclusion
      have other : ∀ {c : Char}, (∀ more, marker :: rest = c :: more → False) → marker ≠ c :=
        fun absent same => absent rest (congrArg (· :: rest) same)
      rw [ofMarker, if_neg (other once), if_neg (other short), if_neg (other opening),
        if_neg (other closing), if_neg (other inclusion)]
      exact close_agrees ['}'] .escaped standsInner

/-- **The first tag of a slice is the first tag of its text.** -/
theorem first?_agrees (stands : StandsAt source text address) :
    Agrees Unplaced (Option.Rel (Reads source address)) (first? ⟨address, text⟩) (Tag.first? text) := by
  unfold first? Tag.first?
  rw [Slice.find?]
  cases isCut : cut Tag.openBraces text with
  | none => exact Agrees.pure Option.Rel.none
  | some pieces =>
    obtain ⟨before, body⟩ := pieces
    have whole : text = before ++ Tag.openBraces ++ body := cut_eq_some isCut
    simp only [Option.map_some]
    rw [lift_bind (Slice.before?_eq (whole.trans (List.append_assoc _ _ _)) rfl)]
    by_cases escaped : before.getLast? = some '\\'
    · rw [if_pos escaped, if_pos escaped]
      obtain ⟨kept, rfl⟩ := List.getLast?_eq_some_iff.mp escaped
      have offset : utf8Size (kept ++ ['\\'] ++ Tag.openBraces) = utf8Size (kept ++ ['\\']) + 2 :=
        utf8Size_append _ _
      have first : text = kept ++ (['\\'] ++ Tag.openBraces ++ body) := by simp [whole]
      have here : StandsAt source (Tag.openBraces ++ body) (address + utf8Size (kept ++ ['\\'])) :=
        (whole.trans (List.append_assoc _ _ _) ▸ stands).behind
      have braces : (Slice.mk address text).between? (utf8Size (kept ++ ['\\']))
          (utf8Size (kept ++ ['\\']) + 2) = some ⟨_, Tag.openBraces⟩ :=
        Slice.between?_eq whole rfl rfl
      rw [lift_bind (minus?_concat rfl kept), lift_bind (Slice.before?_eq first rfl),
        lift_bind braces, lift_bind (Slice.after?_eq whole offset)]
      refine Agrees.pure (Option.Rel.some ⟨rfl, ?_, rfl, rfl, rfl, ?_, here⟩)
      · rw [List.dropLast_concat]
      · rw [← offset]
        exact (whole ▸ stands).behind
    · rw [if_neg escaped, if_neg escaped]
      refine (ofBraces_agrees stands isCut).bind fun sliced tag reads _ => ?_
      exact Agrees.pure (Option.Rel.some reads)

end Splitting

end SlicedTag

end Stencil.Markup
