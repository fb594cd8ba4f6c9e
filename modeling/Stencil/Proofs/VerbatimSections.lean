/-
**Where a verbatim section ends.**

A section is closed by the first end tag that repeats its name, so its text is taken as it is. The
search goes from one start of an end tag to the braces that close it, and on behind these. A start
without braces of its own in the text is therefore read together with the end tag of the section, and
that end is missed.

* `IsEndTag`, `Unended`: end tags with a name, and texts in which none begins;
* `Contained`: a text in which each start of an end tag has closing braces behind it;
* `sectionEnd?_contained`, `contained_of_sectionEnd?`: **exactly these texts are found**;
* `section_read`: **a section is read as its text exactly if the text is contained**, and then it is
  that text in the nodes of the template;
* `halfEnd_missed`: a text that is not, and a section that never ends.
-/

import Stencil.Proofs.CharacterClasses
import Stencil.Proofs.PrintedTags
import Stencil.Proofs.TemplateParsing

namespace Stencil

namespace Markup

open Tag Text

/-! ### Names of sections -/

/-- **A name of letters and digits**, with at least one of them. -/
structure IsLabel (name : List Char) : Prop where
  nonempty : name ≠ []
  plain : ∀ c ∈ name, isAlphabetic c = true ∨ isNumeric c = true

namespace IsLabel

variable {name : List Char}

theorem solid (label : IsLabel name) : ∀ c ∈ name, isBlank c = false := by
  intro c member
  by_contra blank
  rw [Bool.not_eq_false] at blank
  rcases label.plain c member with letter | digit
  · rw [isAlphabetic, inRanges_apart blank_apart_alphabetic blank] at letter
    cases letter
  · rw [isNumeric, inRanges_apart blank_apart_numeric blank] at digit
    cases digit

theorem notMem (label : IsLabel name) {c : Char} (noLetter : isAlphabetic c = false)
    (noDigit : isNumeric c = false) : c ∉ name := by
  intro member
  rcases label.plain c member with letter | digit
  · rw [noLetter] at letter
    cases letter
  · rw [noDigit] at digit
    cases digit

theorem trimmed (label : IsLabel name) : trim name = name := by
  have kept : ∀ text : List Char, (∀ c ∈ text, isBlank c = false) → trimStart text = text := by
    intro text solid
    cases text with
    | nil => rfl
    | cons c text => exact trimStart_cons (solid c List.mem_cons_self) text
  refine trim_eq_self_iff.mpr ⟨kept name label.solid, ?_⟩
  have back := kept name.reverse fun c member => label.solid c (List.mem_reverse.mp member)
  rw [trimEnd, ← trimStart, back, List.reverse_reverse]

theorem brace_notMem (label : IsLabel name) : '}' ∉ name :=
  label.notMem (by decide +kernel) (by decide +kernel)

theorem mark_notMem (label : IsLabel name) : '~' ∉ name :=
  label.notMem (by decide +kernel) (by decide +kernel)

/-- The opening tag of a section has its name as its content. -/
theorem closes (label : IsLabel name) : Closes closeSection name where
  ends after := cut_append_of_notMem label.brace_notMem after
  solid := by
    obtain ⟨c, more, rfl⟩ := List.exists_cons_of_ne_nil label.nonempty
    exact isBlankText_eq_false List.mem_cons_self (label.solid c List.mem_cons_self)
  unmarked last := label.mark_notMem (List.mem_of_getLast? last)

end IsLabel

/-! ### End tags -/

/-- **An end tag with the given name**: blanks may stand around the name. -/
def IsEndTag (name tag : List Char) : Prop :=
  ∃ left right, (∀ c ∈ left, isBlank c = true) ∧ (∀ c ∈ right, isBlank c = true) ∧
    tag = endSection ++ (left ++ name ++ right) ++ closeSection

/-- The end tag of a section. -/
def endTag (name : List Char) : List Char :=
  endSection ++ (name ++ closeSection)

/-- **A section** with its two tags. -/
def writtenSection (name text : List Char) : List Char :=
  openBraces ++ (openBraces ++ (name ++ (closeSection ++ (text ++ endTag name))))

/-- **A text that does not end the section early**: no end tag with the name begins in it, also none
that would go on behind it. -/
def Unended (name text : List Char) : Prop :=
  ∀ behind, behind <:+ text → behind ≠ [] → ∀ tag, IsEndTag name tag → ¬ tag <+: behind ++ endTag name

/-- **A text with whole end tags only**: behind each start of an end tag stand closing braces. -/
def Contained (text : List Char) : Prop :=
  ∀ behind, endSection ++ behind <:+ text → closeSection <:+: behind

/-- Whether the search takes the start of a text for an end tag with the given name. -/
def startsWithEnd (name text : List Char) : Bool :=
  match endSection.isPrefixOf? text with
  | none => false
  | some rest => (cut closeSection rest).any fun found => trim found.1 = name

section Ends

variable {name text : List Char}

theorem brace_notMem_blanks {blanks : List Char} (blank : ∀ c ∈ blanks, isBlank c = true) :
    '}' ∉ blanks := by
  intro member
  have brace := blank _ member
  revert brace
  decide

/-- **The search takes for an end tag exactly what is one.** -/
theorem startsWithEnd_iff (label : IsLabel name) :
    startsWithEnd name text = true ↔ ∃ tag, IsEndTag name tag ∧ tag <+: text := by
  unfold startsWithEnd
  constructor
  · intro starts
    split at starts
    · cases starts
    · rename_i rest isStart
      cases found : cut closeSection rest with
      | none =>
        rw [found] at starts
        cases starts
      | some pieces =>
        rw [found] at starts
        obtain ⟨left, right, before, behind, parts⟩ := trim_parts pieces.1
        rw [of_decide_eq_true starts] at parts
        refine ⟨_, ⟨left, right, before, behind, rfl⟩, pieces.2, ?_⟩
        rw [isPrefixOf?_eq_some isStart, cut_eq_some found, parts]
        simp only [List.append_assoc]
  · rintro ⟨_, ⟨left, right, before, behind, rfl⟩, after, rfl⟩
    have free : '}' ∉ left ++ name ++ right := by
      simp [brace_notMem_blanks before, label.brace_notMem, brace_notMem_blanks behind]
    have starts : endSection.isPrefixOf? (endSection ++ (left ++ name ++ right) ++ closeSection ++
        after) = some (left ++ name ++ right ++ (closeSection ++ after)) :=
      List.isPrefixOf?_eq_some_iff_append_eq.mpr (by simp only [List.append_assoc])
    have found : cut closeSection (left ++ name ++ right ++ (closeSection ++ after)) =
        some (left ++ name ++ right, after) := cut_append_of_notMem free after
    rw [starts]
    dsimp only
    rw [found, Option.any_some, trim_around before behind label.trimmed label.nonempty]
    exact decide_eq_true rfl

/-- **Whether a text ends its section early** can be found out. -/
theorem unended_iff (label : IsLabel name) : Unended name text ↔
    ∀ behind ∈ text.tails, behind ≠ [] → startsWithEnd name (behind ++ endTag name) = false := by
  simp only [Unended, List.mem_tails, ← Bool.not_eq_true, startsWithEnd_iff label, not_exists, not_and]

end Ends

/-! ### The search -/

section Search

variable {name text : List Char}

theorem Unended.suffix {more : List Char} (unended : Unended name text) (isEnd : more <:+ text) :
    Unended name more :=
  fun behind suffix => unended behind (suffix.trans isEnd)

theorem Contained.suffix {more : List Char} (contained : Contained text) (isEnd : more <:+ text) :
    Contained more :=
  fun behind suffix => contained behind (suffix.trans isEnd)

/-- **A contained text is found**, if no end tag with the name begins in it. -/
theorem sectionEnd?_contained (label : IsLabel name) (text rest : List Char)
    (unended : Unended name text) (contained : Contained text) :
    sectionEnd? name (text ++ (endTag name ++ rest)) = some (text, rest) := by
  cases opened : cut endSection text with
  | none =>
    have tagged : endTag name ++ rest = endSection ++ (name ++ (closeSection ++ rest)) := by
      simp only [endTag, List.append_assoc]
    rw [tagged, sectionEnd?_cut (cut_endSection opened _) (label.closes.ends rest),
      if_pos label.trimmed]
  | some pieces =>
    obtain ⟨skipped, behind⟩ := pieces
    have start : text = skipped ++ (endSection ++ behind) := by
      rw [cut_eq_some opened, List.append_assoc]
    obtain ⟨inside, after, closed⟩ := exists_cut (contained behind ⟨skipped, start.symm⟩)
    have whole : text = skipped ++ endSection ++ inside ++ closeSection ++ after := by
      rw [start, cut_eq_some closed]
      simp only [List.append_assoc]
    have isEnd : after <:+ text := ⟨_, whole.symm⟩
    have other : trim inside ≠ name := by
      intro same
      have starts : startsWithEnd name (endSection ++ behind ++ endTag name) = true := by
        unfold startsWithEnd
        rw [List.append_assoc, List.isPrefixOf?_eq_some_iff_append_eq.mpr rfl]
        dsimp only
        rw [cut_append closed, Option.any_some, same]
        exact decide_eq_true rfl
      obtain ⟨tag, isEndTag, begins⟩ := (startsWithEnd_iff label).mp starts
      exact unended _ ⟨skipped, start.symm⟩ (by simp [endSection]) tag isEndTag begins
    have shorter : after.length < text.length := by
      rw [whole]
      simp only [List.length_append, endSection, List.length_cons]
      omega
    have found := sectionEnd?_contained label after rest (unended.suffix isEnd)
      (contained.suffix isEnd)
    rw [sectionEnd?_cut (cut_append opened _) (cut_append closed _), if_neg other, found]
    exact congrArg (fun content => some (content, rest)) whole.symm
termination_by text.length

/-- **What is found is contained**: each start of an end tag was read with the braces behind it. -/
theorem contained_of_sectionEnd? {content after : List Char}
    (found : sectionEnd? name text = some (content, after)) : Contained content := by
  fun_induction sectionEnd? name text generalizing content with
  | case1 => cases found
  | case2 => cases found
  | case3 text skipped rest opened label tail closed same =>
    cases found
    rintro behind ⟨lead, whole⟩
    have inside : endSection <:+: skipped := ⟨lead, behind, by rw [List.append_assoc, whole]⟩
    obtain ⟨_, _, again⟩ := exists_cut inside
    rw [cut_before (by decide) opened] at again
    cases again
  | case4 text skipped rest opened label tail closed differ ih =>
    obtain ⟨⟨inner, last⟩, isEnd, pieces⟩ := Option.map_eq_some_iff.mp found
    cases pieces
    rintro behind ⟨lead, whole⟩
    -- the closing braces of the end tag that was passed over stand in front of the rest
    have parts : lead ++ endSection ++ behind =
        skipped ++ endSection ++ label ++ (closeSection ++ inner) := by
      rw [List.append_assoc, whole]
      simp only [List.append_assoc]
    have apart : ∀ c ∈ endSection, c ∉ closeSection := by
      simp [endSection, closeSection]
    rcases marks_apart apart (by decide) (by decide) parts with closes | later
    · exact closes
    · exact ih isEnd behind later

/-- **Which texts are found**, among those in which no end tag with the name begins. -/
theorem sectionEnd?_eq_some_iff (label : IsLabel name) (unended : Unended name text)
    (rest : List Char) :
    sectionEnd? name (text ++ (endTag name ++ rest)) = some (text, rest) ↔ Contained text :=
  ⟨contained_of_sectionEnd?, sectionEnd?_contained label text rest unended⟩

end Search

/-! ### Sections -/

section Sections

variable {name text : List Char}

/-- **A section starts with its text as a tag** exactly if its end is found behind the text. -/
theorem leads_section_iff (label : IsLabel name) (text rest : List Char) :
    Leads (writtenSection name text ++ rest) .verbatim text rest ↔
      sectionEnd? name (text ++ (endTag name ++ rest)) = some (text, rest) := by
  have shape : writtenSection name text ++ rest = openBraces ++ (openBraces ++ (name ++
      (closeSection ++ (text ++ (endTag name ++ rest))))) := by
    simp only [writtenSection, List.append_assoc]
  unfold Leads
  rw [shape, first?_section label.closes label.mark_notMem label.trimmed]
  constructor
  · rintro ⟨tag, found, -, -, isContent, isAfter⟩
    cases isEnd : sectionEnd? name (text ++ (endTag name ++ rest)) with
    | none =>
      rw [isEnd] at found
      cases found
    | some pieces =>
      rw [isEnd] at found
      cases found
      rw [← isContent, ← isAfter]
  · intro isEnd
    rw [isEnd]
    exact ⟨_, rfl, rfl, rfl, rfl, rfl⟩

/-- **A text that stands as a tag before the rest of a source** joins the nodes of the rest. -/
theorem parse_of_leads {source content rest : List Char}
    (leads : Leads source .verbatim content rest) (nodes : List Node) :
    Node.parse (String.ofList source) = .ok nodes ↔
      ∃ after, Node.parse (String.ofList rest) = .ok after ∧
        nodes = putText (String.ofList content) after := by
  obtain ⟨tag, found, verbatim, isBefore, isContent, isAfter⟩ := leads
  obtain ⟨sameFault, pieces⟩ := walk_of_first? found
  have root : Fills .anywhere fun nodes => ⟨[], nodes⟩ := .anywhere holds_root
  have spoken : (Piece.tag tag).text? = some content := by
    rw [Piece.text?, if_pos verbatim, isContent]
  have taken := root.addText_anywhere content []
  rw [← addPiece_text spoken] at taken
  have run : Builder.addAll (Tag.walk source).pieces ⟨[], []⟩ =
      Builder.addAll (Tag.walk rest).pieces ⟨[], push [] (.text (String.ofList content))⟩ := by
    rw [pieces, isBefore, isAfter]
    exact (addAll_cons rfl).trans (addAll_cons taken)
  have nothing : ([] : List Node).head? ≠ some (.text "") := by simp
  have ends := head?_push nothing (.text (String.ofList content))
  show buildFrom (String.ofList source).toList (String.ofList source).toList ⟨[], []⟩ = _ ↔
    ∃ after, buildFrom (String.ofList rest).toList (String.ofList rest).toList ⟨[], []⟩ = _ ∧ _
  simp only [String.toList_ofList, buildFrom_eq_ok_iff, run, sameFault, isAfter,
    addAll_root_iff ends, addAll_root_iff nothing, resume_push_text]
  constructor
  · rintro ⟨sound, parts, derives, rfl⟩
    exact ⟨joinTexts parts, ⟨sound, parts, derives, rfl⟩, rfl⟩
  · rintro ⟨_, ⟨sound, parts, derives, rfl⟩, rfl⟩
    exact ⟨sound, parts, derives, rfl⟩

/-- **A section is read as its text** exactly if each start of an end tag in the text has closing
braces behind it, for texts in which no end tag with the name of the section begins. The nodes of the
template are then the text and what is behind the section. -/
theorem section_read (label : IsLabel name) (unended : Unended name text) (rest : List Char) :
    (Leads (writtenSection name text ++ rest) .verbatim text rest ↔ Contained text) ∧
      (Contained text → ∀ nodes,
        Node.parse (String.ofList (writtenSection name text ++ rest)) = .ok nodes ↔
          ∃ after, Node.parse (String.ofList rest) = .ok after ∧
            nodes = putText (String.ofList text) after) := by
  have leads : Leads (writtenSection name text ++ rest) .verbatim text rest ↔ Contained text :=
    (leads_section_iff label text rest).trans (sectionEnd?_eq_some_iff label unended rest)
  exact ⟨leads, fun contained => parse_of_leads (leads.mpr contained)⟩

end Sections

theorem isLabel_raw : IsLabel "raw".toList where
  nonempty := by decide
  plain := by simp [isAlphabetic_of_isAlpha]

/-- A text with a tag, with the whole end tag of another section and with braces at its end. -/
def bracedBody : List Char :=
  "a \x7b\x7b b \x7d\x7d \x7b\x7b\x7b\x7b/ c \x7d\x7d\x7d\x7d \x7b\x7b\x7b".toList

theorem bracedBody_read : IsLabel "raw".toList ∧ Unended "raw".toList bracedBody ∧
    Leads (writtenSection "raw".toList bracedBody ++ "tail".toList) .verbatim bracedBody
      "tail".toList ∧
    Node.parse (String.ofList (writtenSection "raw".toList bracedBody ++ "tail".toList)) =
      .ok [.text (String.ofList (bracedBody ++ "tail".toList))] := by
  have unended : Unended "raw".toList bracedBody := (unended_iff isLabel_raw).mpr (by decide)
  have isEnd : sectionEnd? "raw".toList (bracedBody ++ endTag "raw".toList) =
      some (bracedBody, []) := by
    decide +kernel
  have contained : Contained bracedBody := contained_of_sectionEnd? isEnd
  have rest : Node.parse (String.ofList "tail".toList) = .ok [.text "tail"] := by
    with_unfolding_all rfl
  obtain ⟨leads, parsed⟩ := section_read isLabel_raw unended "tail".toList
  exact ⟨isLabel_raw, unended, leads.mpr contained, (parsed contained _).mpr ⟨_, rest, rfl⟩⟩

/-- A text with half an end tag in it. -/
def halfEnd : List Char := "a \x7b\x7b\x7b\x7b/ b".toList

/-- **Half an end tag hides the end of its section**: it is read together with the end tag. -/
theorem halfEnd_missed : IsLabel "raw".toList ∧ Unended "raw".toList halfEnd ∧
    first? (writtenSection "raw".toList halfEnd ++ "tail".toList) =
      .error ⟨.unclosedTag, "raw\x7d\x7d\x7d\x7d".toList⟩ := by
  refine ⟨isLabel_raw, (unended_iff isLabel_raw).mpr (by decide), ?_⟩
  decide +kernel

end Markup

end Stencil
