/-
**Reading printed tags.**

* `Closes`: a content that is found again between the braces of a tag;
* `closes_quoted`, `closes_source`: quoted names and sources between blanks are such contents;
* `Leads`: **a text starts with a tag**, given by its form, its content and what comes after;
* `leads_opening`, `leads_closing`, `leads_output`, `leads_raw`, `leads_section`: what is printed
  does;
* `sectionEnd?_cut`, `first?_section`: a section is read as what its end is found to be.
-/

import Stencil.Proofs.Cutting
import Stencil.Proofs.Printer

namespace Stencil.Markup

open Tag Text

/-! ### Contents of tags -/

/-- **A content that is found again** before a delimiter. -/
structure Closes (delimiter content : List Char) : Prop where
  ends : ∀ after, cut delimiter (content ++ (delimiter ++ after)) = some (content, after)
  solid : isBlankText content = false
  unmarked : content.getLast? ≠ some '~'

theorem isBlankText_eq_false {text : List Char} {c : Char} (inside : c ∈ text)
    (solid : isBlank c = false) : isBlankText text = false := by
  rw [isBlankText, List.all_eq_false]
  exact ⟨c, inside, by simp [solid]⟩

section Names

variable {mark : List Char}

/-- No mark of two characters or more lies in a name in which a backslash stands before each
character. -/
theorem cut_escaped (long : 2 ≤ mark.length) (outside : '\\' ∉ mark) (name : List Char) (c : Char) :
    cut mark (c :: escaped name) = none := by
  induction name generalizing c with
  | nil =>
    refine cut_eq_none fun inside => ?_
    have short := inside.length_le
    simp only [escaped, List.flatMap_nil, List.length_singleton] at short
    omega
  | cons d name ih =>
    have alone : cut mark [c] = none := by
      refine cut_eq_none fun inside => ?_
      have short := inside.length_le
      rw [List.length_singleton] at short
      omega
    show cut mark ([c] ++ '\\' :: (d :: escaped name)) = none
    rw [cut_append_cons alone outside, ih d]
    rfl

/-- **A quoted name is found again**, whatever it is, after an opener and before what follows it. -/
theorem closes_quoted {opener tail : List Char} (word : cut closeBraces opener = none)
    (follows : ∀ after, cut closeBraces (tail ++ (closeBraces ++ after)) = some (tail, after))
    (unmarked : tail.getLast? ≠ some '~') (name : String) :
    Closes closeBraces (opener ++ ' ' :: (quoted name ++ tail)) := by
  have inside : cut closeBraces (opener ++ ' ' :: '"' :: escaped name.toList) = none := by
    rw [cut_append_cons word (by decide), cut_escaped (by decide) (by decide)]
    rfl
  have shape : ∀ more, opener ++ ' ' :: (quoted name ++ tail) ++ more =
      opener ++ ' ' :: '"' :: escaped name.toList ++ '"' :: (tail ++ more) := by
    intro more
    simp only [quoted, List.append_assoc, List.cons_append, List.nil_append]
  refine ⟨fun after => ?_, ?_, ?_⟩
  · rw [shape, cut_append_cons inside (by decide), follows]
    simp only [quoted, Option.map_some, List.append_assoc, List.cons_append, List.nil_append]
  · exact isBlankText_eq_false (c := '"') (by simp [quoted]) (by decide)
  · have last : (opener ++ ' ' :: (quoted name ++ tail)).getLast? = ('"' :: tail).getLast? := by
      rw [← List.append_nil (opener ++ _), shape, List.append_nil, List.getLast?_append]
      rfl
    rw [last, List.getLast?_cons]
    cases ending : tail.getLast? with
    | none => decide
    | some c =>
      rw [ending] at unmarked
      exact unmarked

/-- The opening tags of blocks and includes. -/
theorem closes_opener (opener : Opener) (name : String) :
    Closes closeBraces (opener.word.toList ++ ' ' :: quoted name) := by
  have word : cut closeBraces opener.word.toList = none := by cases opener <;> decide
  have ends : ∀ after, cut closeBraces ([] ++ (closeBraces ++ after)) = some ([], after) :=
    cut_mark closeBraces
  have closes := closes_quoted word ends (by decide) name
  rw [List.append_nil] at closes
  exact closes

/-- The opening tags of definitions. -/
theorem closes_definition (name : String) (mode : Mode) :
    Closes closeBraces
      (Opener.definition.word.toList ++ ' ' :: (quoted name ++ ' ' :: mode.name.toList)) :=
  closes_quoted (by decide) (fun _ => by cases mode <;> rfl) (by cases mode <;> decide) name

end Names

section Sources

variable {braces : List Char} {source : String}

theorem IsSource.toList_ne_nil (isSource : IsSource braces source) : source.toList ≠ [] := by
  intro empty
  exact isSource.nonempty (String.toList_eq_nil_iff.mp empty)

theorem IsSource.starts (isSource : IsSource braces source) :
    trimStart source.toList = source.toList :=
  (trim_eq_self_iff.mp isSource.trimmed).1

theorem IsSource.finishes (isSource : IsSource braces source) :
    trimEnd source.toList = source.toList :=
  (trim_eq_self_iff.mp isSource.trimmed).2

/-- **A source between blanks is found again**, after a lead without braces. -/
theorem closes_source (isSource : IsSource braces source) (lead : List Char)
    (free : cut braces lead = none) (outside : ' ' ∉ braces) :
    Closes braces (lead ++ ' ' :: (source.toList ++ [' '])) := by
  have inside : cut braces (lead ++ ' ' :: source.toList) = none := by
    rw [cut_append_cons free outside, cut_eq_none isSource.unclosed]
    rfl
  have shape : lead ++ ' ' :: (source.toList ++ [' ']) = lead ++ ' ' :: source.toList ++ [' '] := by
    rw [List.append_assoc, List.cons_append]
  refine ⟨fun after => ?_, ?_, ?_⟩
  · rw [shape]
    exact cut_append_mark inside outside after
  · by_contra blank
    rw [Bool.not_eq_false, isBlankText, List.all_eq_true] at blank
    have nothing : trimStart source.toList = [] :=
      trimStart_eq_nil_iff.mpr (List.all_eq_true.mpr fun c member => blank c (by simp [member]))
    rw [isSource.starts] at nothing
    exact isSource.toList_ne_nil nothing
  · rw [shape, List.getLast?_append]
    show some ' ' ≠ some '~'
    decide

end Sources

/-! ### Tags -/

/-- **A text starts with a tag** that has the given form and content; `rest` comes after it. -/
def Leads (text : List Char) (form : Tag.Form) (content rest : List Char) : Prop :=
  ∃ tag, first? text = .ok (some tag) ∧ tag.form = form ∧ tag.before = [] ∧ tag.content = content ∧
    tag.after = rest

section Tags

variable {content : List Char}

theorem close_printed {delimiter : List Char} (closes : Closes delimiter content) (form : Tag.Form)
    (before rest : List Char) :
    close form before (content ++ (delimiter ++ rest)) delimiter =
      .ok ⟨form, before, content, rest, content ++ delimiter, content ++ (delimiter ++ rest)⟩ := by
  unfold close
  rw [closes.ends rest]
  simp only [closes.solid, Bool.false_eq_true, if_false, if_neg closes.unmarked]

/-- A text starts with the tag that its opening braces are read as. -/
theorem leads_of_ofBody {form : Tag.Form} {body delimiter rest : List Char}
    (opens : ofBody [] body = close form [] (content ++ (delimiter ++ rest)) delimiter)
    (closes : Closes delimiter content) : Leads (openBraces ++ body) form content rest := by
  have found : first? (openBraces ++ body) = (ofBody [] body).map some := by
    unfold first?
    rw [cut_mark]
    rfl
  rw [opens, close_printed closes] at found
  exact ⟨_, found, rfl, rfl, rfl, rfl⟩

theorem printTag_append (content rest : List Char) :
    printTag content ++ rest = openBraces ++ (content ++ (closeBraces ++ rest)) := by
  rw [printTag, List.append_assoc, List.append_assoc]

theorem leads_opening (closes : Closes closeBraces content) (rest : List Char) :
    Leads (printTag ('#' :: content) ++ rest) .opening content rest := by
  rw [printTag_append]
  exact leads_of_ofBody rfl closes

theorem leads_closing (closes : Closes closeBraces content) (rest : List Char) :
    Leads (printTag ('/' :: content) ++ rest) .closing content rest := by
  rw [printTag_append]
  exact leads_of_ofBody rfl closes

/-- The tag of an expression or a variable starts with a blank or with the letter of a keyword. -/
theorem leads_output {first : Char} (plain : first ∈ [' ', 'd', 'v'])
    (closes : Closes closeBraces (first :: content)) (rest : List Char) :
    Leads (printTag (first :: content) ++ rest) .escaped (first :: content) rest := by
  rw [printTag_append]
  refine leads_of_ofBody ?_ closes
  simp only [List.mem_cons, List.not_mem_nil, or_false] at plain
  rcases plain with rfl | rfl | rfl <;> rfl

theorem leads_raw (closes : Closes closeRaw (' ' :: content)) (rest : List Char) :
    Leads (openBraces ++ ('{' :: ' ' :: (content ++ (closeRaw ++ rest)))) .raw (' ' :: content)
      rest :=
  leads_of_ofBody rfl closes

/-! ### Sections -/

/-- **A piece of text ends where the end of its section starts**, if no end of a section starts in
it. -/
theorem cut_endSection {piece : List Char} (absent : cut endSection piece = none)
    (rest : List Char) : cut endSection (piece ++ (endSection ++ rest)) = some (piece, rest) :=
  @cut_append_of_absent ['{', '{', '{', '{'] piece '/' (by decide) absent rest

/-- The end of a section has its slash behind four braces. -/
theorem cut_endSection_eq_none {piece : List Char} (fits : '/' ∉ piece.tail) :
    cut endSection piece = none := by
  refine cut_eq_none ?_
  rintro ⟨lead, tail, rfl⟩
  refine fits ?_
  cases lead <;> simp [endSection]

/-- **How the end of a section is looked for**, one end tag after the other. -/
theorem sectionEnd?_cut {name text skipped rest label after : List Char}
    (opened : cut endSection text = some (skipped, rest))
    (closed : cut closeSection rest = some (label, after)) :
    sectionEnd? name text =
      if trim label = name then some (skipped, after)
      else (sectionEnd? name after).map fun found =>
        (skipped ++ endSection ++ label ++ closeSection ++ found.1, found.2) := by
  rw [sectionEnd?]
  split
  · rename_i absent
    rw [opened] at absent
    cases absent
  · rename_i found
    rw [opened] at found
    cases found
    split
    · rename_i absent
      rw [closed] at absent
      cases absent
    · rename_i found
      rw [closed] at found
      cases found
      rfl

theorem sectionEnd?_printed {piece : List Char} (fits : '/' ∉ piece.tail) (rest : List Char) :
    sectionEnd? ['r'] (piece ++ (endSection ++ 'r' :: (closeSection ++ rest))) =
      some (piece, rest) := by
  have opened := cut_endSection (cut_endSection_eq_none fits) ('r' :: (closeSection ++ rest))
  have closed : cut closeSection ('r' :: (closeSection ++ rest)) = some (['r'], rest) := rfl
  rw [sectionEnd?_cut opened closed]
  rfl

theorem trimMark_of_notMem {before here more : List Char} (nonempty : here ≠ [])
    (unmarked : '~' ∉ here) : trimMark before (here ++ more) = (before, here ++ more) := by
  obtain ⟨c, rest, rfl⟩ := List.exists_cons_of_ne_nil nonempty
  unfold trimMark
  split
  · rename_i marked
    exact absurd (List.cons.inj marked).1 fun same => unmarked (same ▸ List.mem_cons_self)
  · rfl

/-- **The first tag of a section** is what its end is found to be. -/
theorem first?_section {name : List Char} (closes : Closes closeSection name)
    (unmarked : '~' ∉ name) (trimmed : trim name = name) (body : List Char) :
    first? (openBraces ++ (openBraces ++ (name ++ (closeSection ++ body)))) =
      match sectionEnd? name body with
      | none => .error ⟨.unclosedTag, name ++ closeSection⟩
      | some (content, after) =>
        .ok (some ⟨.verbatim, [], content, after, name ++ closeSection, body⟩) := by
  have nonempty : name ≠ [] := by
    rintro rfl
    cases closes.solid
  have found : first? (openBraces ++ (openBraces ++ (name ++ (closeSection ++ body)))) =
      ((close .verbatim (trimMark [] (name ++ (closeSection ++ body))).1
        (trimMark [] (name ++ (closeSection ++ body))).2 closeSection).bind
          verbatimSection).map some := by
    unfold first?
    rw [cut_mark]
    rfl
  rw [found, trimMark_of_notMem nonempty unmarked, close_printed closes]
  dsimp only [Except.bind]
  unfold verbatimSection
  rw [trimmed]
  cases sectionEnd? name body <;> rfl

/-- **A printed section is read as its piece of text.** -/
theorem leads_section {piece : List Char} (fits : '/' ∉ piece.tail) (rest : List Char) :
    Leads (printSection piece ++ rest) .verbatim piece rest := by
  have label : Closes closeSection ['r'] := ⟨fun _ => rfl, by decide, by decide⟩
  have shape : printSection piece ++ rest = openBraces ++ (openBraces ++ (['r'] ++ (closeSection ++
      (piece ++ (endSection ++ 'r' :: (closeSection ++ rest)))))) := by
    simp only [printSection, List.append_assoc, List.cons_append, List.nil_append]
  have found := first?_section label (by decide) (by decide)
    (piece ++ (endSection ++ 'r' :: (closeSection ++ rest)))
  rw [sectionEnd?_printed fits, ← shape] at found
  exact ⟨_, found, rfl, rfl, rfl, rfl⟩

end Tags

end Stencil.Markup
