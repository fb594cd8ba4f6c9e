/-
**Output tags with nothing but blanks between their braces.**

The splitter refuses a tag whose content is blank, but it looks for blanks before it takes off the
`~` that may stand before the closing braces. So such a `~` counts as content, and a blank tag that
has one is taken, with a blank content.

* `BlankOutput`: **a blank output tag**, with or without a `~` of its own before its closing braces;
* `OpensTag`: opening braces in a text that open a tag;
* `BlankOutput.refused`, `BlankOutput.taken`: what the splitter makes of such a tag;
* `blankOutput_of_content`: an output tag with a blank content is written in this way.
-/

import Stencil.Proofs.Delimiters
import Stencil.Proofs.VerbatimSections

namespace Stencil.Markup

open Tag Text

/-! ### How they are written -/

/-- **The braces of output tags**, up to the place of the `~` behind the opening ones. -/
inductive OutputBraces : List Char → List Char → Prop
  | double : OutputBraces openBraces closeBraces
  | triple (outer : Bool) : OutputBraces (openBraces ++ (mark outer ++ ['{'])) closeRaw

/-- **An output tag with only blanks between its braces**; `marked` says whether a `~` stands before
the closing braces. A lone `~` belongs to the opening braces. -/
def BlankOutput (marked : Bool) (written : List Char) : Prop :=
  ∃ opening closing opens blanks, OutputBraces opening closing ∧ isBlankText blanks = true ∧
    (marked = true → opens = true ∨ blanks ≠ []) ∧
    written = opening ++ (mark opens ++ (blanks ++ (mark marked ++ closing)))

/-- The characters that tell the forms of tags apart. -/
def formSigns : List Char := ['{', '!', '#', '/', '>']

section Blank

variable {opening closing body blanks after lead before rest : List Char} {first : Char}
variable {opens marked : Bool} {form : Tag.Form}

theorem OutputBraces.starts (braces : OutputBraces opening closing) :
    ∃ more, closing = '}' :: more := by
  cases braces <;> exact ⟨_, rfl⟩

theorem trimMark_mark (before : List Char) (unmarked : opens = false → first ≠ '~') :
    ∃ front, trimMark before (mark opens ++ first :: rest) = (front, first :: rest) := by
  cases opens with
  | true => exact ⟨_, rfl⟩
  | false =>
    refine ⟨before, ?_⟩
    show trimMark before (first :: rest) = _
    unfold trimMark
    split
    · rename_i same
      exact absurd (List.cons.inj same).1 (unmarked rfl)
    · rfl

/-- Behind two braces, what does not start with a sign is written with escapes. -/
theorem ofBody_plain (trimmed : trimMark lead body = (before, first :: rest))
    (plain : first ∉ formSigns) :
    ofBody lead body = close .escaped before (first :: rest) closeBraces := by
  simp only [formSigns, List.mem_cons, List.not_mem_nil, or_false, not_or] at plain
  unfold ofBody
  rw [trimmed]
  dsimp only
  split <;> simp_all

/-- Behind three braces that are not four, what follows is written as it is. -/
theorem ofBody_raw (trimmed : trimMark lead body = (before, '{' :: rest))
    (single : rest.head? ≠ some '{') :
    ofBody lead body = close .raw (trimMark before rest).1 (trimMark before rest).2 closeRaw := by
  unfold ofBody
  rw [trimmed]
  dsimp only
  split <;> simp_all

/-- **What stands between the braces of an output tag** is read up to its closing braces. -/
theorem ofBody_output (braces : OutputBraces opening closing) (plain : first ∉ formSigns)
    (unmarked : opens = false → first ≠ '~')
    (whole : openBraces ++ body = opening ++ (mark opens ++ first :: rest)) (lead : List Char) :
    ∃ form front, (form = .escaped ∨ form = .raw) ∧
      ofBody lead body = close form front (first :: rest) closing := by
  cases braces with
  | double =>
    obtain rfl := List.append_cancel_left whole
    obtain ⟨front, trimmed⟩ := trimMark_mark lead unmarked
    exact ⟨.escaped, front, .inl rfl, ofBody_plain trimmed plain⟩
  | triple outer =>
    rw [List.append_assoc, List.append_assoc] at whole
    obtain rfl := List.append_cancel_left whole
    obtain ⟨middle, opened⟩ : ∃ middle, trimMark lead (mark outer ++ '{' :: (mark opens ++
        first :: rest)) = (middle, '{' :: (mark opens ++ first :: rest)) :=
      trimMark_mark lead fun _ => by decide
    obtain ⟨front, trimmed⟩ := trimMark_mark middle unmarked
    have single : (mark opens ++ first :: rest).head? ≠ some '{' := by
      cases opens with
      | true => simp [mark]
      | false => exact fun same => plain (Option.some.inj same ▸ List.mem_cons_self)
    refine ⟨.raw, front, .inr rfl, ?_⟩
    rw [List.singleton_append, ofBody_raw opened single, trimmed]

theorem brace_notMem_of_isBlankText (blank : isBlankText blanks = true) : '}' ∉ blanks :=
  brace_notMem_blanks (List.all_eq_true.mp blank)

/-- **Only blanks before closing braces** are refused, unless a `~` stands behind them. -/
theorem close_blank (blank : isBlankText blanks = true) (more after : List Char) :
    close form before (blanks ++ ('}' :: more ++ after)) ('}' :: more) =
      .error ⟨.emptyTag, before⟩ := by
  unfold close
  rw [cut_append_of_notMem (brace_notMem_of_isBlankText blank) after]
  exact if_pos blank

theorem close_marked (blank : isBlankText blanks = true) (more after : List Char) :
    ∃ tag, close form before (blanks ++ ('~' :: ('}' :: more ++ after))) ('}' :: more) = .ok tag ∧
      tag.form = form ∧ tag.content = blanks := by
  have free : '}' ∉ blanks ++ ['~'] := by simp [brace_notMem_of_isBlankText blank]
  have solid : isBlankText (blanks ++ ['~']) ≠ true := by
    rw [isBlankText_eq_false (c := '~') (by simp) (by decide)]
    decide
  unfold close
  rw [List.append_cons, cut_append_of_notMem free after]
  dsimp only
  rw [if_neg solid, if_pos List.getLast?_concat]
  exact ⟨_, rfl, rfl, List.dropLast_concat⟩

/-! ### What the splitter makes of them -/

/-- **Opening braces open a tag** if no backslash stands before them. -/
structure OpensTag (text lead body : List Char) : Prop where
  isCut : cut openBraces text = some (lead, body)
  unguarded : lead.getLast? ≠ some '\\'

theorem OpensTag.first? {text : List Char} (opened : OpensTag text lead body) :
    Tag.first? text = (ofBody lead body).map some := by
  unfold Tag.first?
  rw [opened.isCut]
  exact if_neg opened.unguarded

/-- A blank output tag does not start like a tag of another form. -/
theorem blank_starts (blank : isBlankText blanks = true)
    (own : marked = true → opens = true ∨ blanks ≠ []) (more : List Char) :
    ∃ first rest, blanks ++ (mark marked ++ '}' :: more) = first :: rest ∧
      first ∉ formSigns ∧ (opens = false → first ≠ '~') := by
  cases blanks with
  | nil =>
    cases marked with
    | true =>
      have opened : opens = true := (own rfl).resolve_right (by simp)
      exact ⟨'~', _, rfl, by decide, by simp [opened]⟩
    | false => exact ⟨'}', more, rfl, by decide, fun _ => by decide⟩
  | cons c blanks =>
    have isBlank : isBlank c = true := List.all_eq_true.mp blank c List.mem_cons_self
    refine ⟨c, _, rfl, fun sign => ?_, fun _ same => ?_⟩
    · have solid : formSigns.all (fun sign => !Text.isBlank sign) = true := by decide
      have notBlank := List.all_eq_true.mp solid c sign
      rw [isBlank] at notBlank
      cases notBlank
    · rw [same] at isBlank
      revert isBlank
      decide

/-- What stands in a blank output tag is read up to its closing braces. -/
theorem BlankOutput.ofBody {written : List Char} (blank : BlankOutput marked written)
    (whole : openBraces ++ body = written ++ after) (lead : List Char) :
    ∃ form front blanks more, (form = .escaped ∨ form = .raw) ∧ isBlankText blanks = true ∧
      Tag.ofBody lead body =
        close form front (blanks ++ (mark marked ++ ('}' :: more ++ after))) ('}' :: more) := by
  obtain ⟨opening, closing, opens, blanks, braces, areBlank, own, rfl⟩ := blank
  obtain ⟨more, rfl⟩ := braces.starts
  obtain ⟨first, rest, shape, plain, unmarked⟩ := blank_starts areBlank own (more ++ after)
  have parts : openBraces ++ body = opening ++ (mark opens ++ first :: rest) := by
    rw [whole, ← shape]
    simp only [List.append_assoc, List.cons_append]
  obtain ⟨form, front, isForm, isTag⟩ := ofBody_output braces plain unmarked parts lead
  refine ⟨form, front, blanks, more, isForm, areBlank, ?_⟩
  rw [isTag, ← shape]
  rfl

/-- **A blank output tag is refused** if no `~` of its own stands before its closing braces. -/
theorem BlankOutput.refused {written : List Char} (blank : BlankOutput false written)
    (whole : openBraces ++ body = written ++ after) (lead : List Char) :
    ∃ near, Tag.ofBody lead body = .error ⟨.emptyTag, near⟩ := by
  obtain ⟨form, front, blanks, more, -, areBlank, isTag⟩ := blank.ofBody whole lead
  exact ⟨front, isTag.trans (close_blank areBlank more after)⟩

/-- **With such a `~` it is taken**, with a blank content. -/
theorem BlankOutput.taken {written : List Char} (blank : BlankOutput true written)
    (whole : openBraces ++ body = written ++ after) (lead : List Char) :
    ∃ tag, Tag.ofBody lead body = .ok tag ∧ (tag.form = .escaped ∨ tag.form = .raw) ∧
      isBlankText tag.content = true := by
  obtain ⟨form, front, blanks, more, isForm, areBlank, isTag⟩ := blank.ofBody whole lead
  obtain ⟨tag, closed, same, isContent⟩ := close_marked areBlank more after
  refine ⟨tag, isTag.trans closed, by rw [same]; exact isForm, by rw [isContent]; exact areBlank⟩

/-- Of the forms with two braces only output has no sign. -/
theorem plain_of_mem_signs {sign braces : List Char} (known : (form, sign, braces) ∈ signs)
    (isForm : form = .escaped ∨ form = .raw) : sign = [] ∧ braces = closeBraces := by
  rcases isForm with rfl | rfl
  · simpa [signs] using known
  · simp [signs] at known

/-- An output tag is written with the braces of output tags. -/
theorem Tag.Delimits.output {tag : Tag} {delimiters : Delimiters}
    (delimits : tag.Delimits delimiters) (isForm : tag.form = .escaped ∨ tag.form = .raw) :
    ∃ opening closing opens, OutputBraces opening closing ∧
      delimiters.opening = opening ++ mark opens ∧
      delimiters.closing = mark delimiters.trimsAfter ++ closing ∧
      delimiters.trimsInside = false := by
  cases delimits with
  | signed before after known =>
    have same := plain_of_mem_signs known isForm
    refine ⟨openBraces, _, before, .double, ?_, ?_, rfl⟩
    · rw [same.1, List.append_nil]
    · rw [same.2]
  | raw outer inner after =>
    exact ⟨_, _, inner, .triple outer, by simp, rfl, rfl⟩
  | braces verbatim => simp [verbatim] at isForm
  | «section» _ _ _ verbatim => simp [verbatim] at isForm

/-- **An output tag with a blank content** is written as a blank output tag. -/
theorem blankOutput_of_content {tag : Tag} (isTag : Tag.ofBody lead body = .ok tag)
    (isForm : tag.form = .escaped ∨ tag.form = .raw) (blank : isBlankText tag.content = true) :
    ∃ written, BlankOutput true written ∧ written <+: openBraces ++ body := by
  obtain ⟨delimiters, parts⟩ := ofBody_parts isTag
  obtain ⟨opening, closing, opens, braces, isOpening, isClosing, noGap⟩ :=
    parts.delimits.output isForm
  obtain ⟨inside, after, ⟨-, gap⟩, -, whole⟩ := parts.behind
  have noInside : inside = [] := by
    by_contra filled
    rw [noGap] at gap
    cases gap filled
  have shape : openBraces ++ body = opening ++ (mark opens ++ (tag.content ++
      (mark delimiters.trimsAfter ++ closing))) ++ (after ++ tag.after) := by
    rw [whole, noInside, isOpening, isClosing]
    simp only [List.append_assoc, List.nil_append]
  have accepted : ∀ written, BlankOutput false written → openBraces ++ body ≠
      written ++ (after ++ tag.after) := by
    intro written unmarked same
    obtain ⟨near, refused⟩ := unmarked.refused same lead
    rw [refused] at isTag
    cases isTag
  cases marks : delimiters.trimsAfter with
  | false =>
    rw [marks] at shape
    exact absurd shape (accepted _ ⟨opening, closing, opens, _, braces, blank, by simp, rfl⟩)
  | true =>
    rw [marks] at shape
    by_cases own : opens = true ∨ tag.content ≠ []
    · exact ⟨_, ⟨opening, closing, opens, _, braces, blank, fun _ => own, rfl⟩, _, shape.symm⟩
    · -- A lone `~` is the one behind the opening braces, so the tag has no other.
      obtain ⟨rfl, noContent⟩ : opens = false ∧ tag.content = [] := by simpa using own
      rw [noContent] at shape
      exact absurd shape (accepted _ ⟨opening, closing, true, [], braces, rfl, by simp, rfl⟩)

end Blank

end Stencil.Markup
