/-
**Where a mark is found, and what trimming leaves.**

* `exists_cut`, `cut_append`: a text that contains a mark is cut, wherever it ends;
* `cut_append_cons`: a character that is not in a mark keeps the mark from lying across it;
* `cut_append_mark`: a text without the mark before such a character and the mark is cut there;
* `cut_append_of_notMem`, `cut_append_of_absent`: likewise a text without the first character of the
  mark, or without a mark whose last character is in it once;
* `cut_before`: what stands before the first mark does not contain the mark;
* `marks_apart`: two marks without a common character do not overlap;
* `takeWhile_stops`, `dropWhile_stops`: a word ends where the next character does not belong to it;
* `trim_eq_self_iff`: a text is trimmed already exactly if it is trimmed at both ends;
* `trimStart_append`, `trimEnd_append`: what is trimmed already stops the trimming;
* `trim_parts`, `trim_around`, `trim_trim`: what trimming takes off, and what it leaves.
-/

import Stencil.Text.Blank
import Stencil.Text.Search
import Mathlib.Data.List.DropRight
import Mathlib.Data.List.Infix
import Mathlib.Data.List.TakeWhile

namespace Stencil.Text

/-! ### Cuts -/

section Cuts

variable {mark before rest : List Char} {c : Char}

theorem isPrefixOf?_eq_none (absent : cut mark rest = none) : mark.isPrefixOf? rest = none := by
  cases rest with
  | nil =>
    rw [cut, Option.map_eq_none_iff] at absent
    exact absent
  | cons c rest =>
    rw [cut] at absent
    split at absent
    · cases absent
    · assumption

theorem cut_cons (absent : mark.isPrefixOf? (c :: rest) = none) :
    cut mark (c :: rest) = (cut mark rest).map fun found => (c :: found.1, found.2) := by
  rw [cut, absent]

theorem cut_mark (mark rest : List Char) : cut mark (mark ++ rest) = some ([], rest) := by
  have here : mark.isPrefixOf? (mark ++ rest) = some rest :=
    List.isPrefixOf?_eq_some_iff_append_eq.mpr rfl
  cases whole : mark ++ rest with
  | nil =>
    rw [whole] at here
    rw [cut, here]
    rfl
  | cons c tail =>
    rw [whole] at here
    rw [cut, here]

theorem cut_eq_none (absent : ¬ mark <:+: rest) : cut mark rest = none := by
  cases found : cut mark rest with
  | none => rfl
  | some pieces => exact absurd ⟨pieces.1, pieces.2, (cut_eq_some found).symm⟩ absent

theorem cut_eq_none_of_notMem (inside : c ∈ mark) (outside : c ∉ rest) : cut mark rest = none :=
  cut_eq_none fun ⟨_, _, whole⟩ => outside (whole ▸ by simp [inside])

/-- **A text that contains the mark is cut.** -/
theorem exists_cut (inside : mark <:+: rest) : ∃ before after, cut mark rest = some (before, after) := by
  obtain ⟨lead, tail, rfl⟩ := inside
  rw [List.append_assoc]
  induction lead with
  | nil => exact ⟨[], tail, cut_mark mark tail⟩
  | cons c lead ih =>
    obtain ⟨before, after, found⟩ := ih
    rw [List.cons_append, cut]
    split
    · exact ⟨_, _, rfl⟩
    · rw [found]
      exact ⟨_, _, rfl⟩

theorem cut_eq_none_iff : cut mark rest = none ↔ ¬ mark <:+: rest := by
  refine ⟨fun absent inside => ?_, cut_eq_none⟩
  obtain ⟨_, _, found⟩ := exists_cut inside
  rw [absent] at found
  cases found

/-- **More text behind it** does not change where a text is cut. -/
theorem cut_append {after : List Char} (found : cut mark rest = some (before, after))
    (more : List Char) : cut mark (rest ++ more) = some (before, after ++ more) := by
  induction rest generalizing before with
  | nil =>
    obtain ⟨_, starts, pieces⟩ := Option.map_eq_some_iff.mp found
    cases pieces
    obtain ⟨rfl, rfl⟩ := List.append_eq_nil_iff.mp (isPrefixOf?_eq_some starts).symm
    exact cut_mark [] more
  | cons c rest ih =>
    rw [cut] at found
    split at found
    · rename_i starts
      cases found
      rw [isPrefixOf?_eq_some starts, List.append_assoc, cut_mark]
    · rename_i absent
      obtain ⟨⟨lead, tail⟩, later, pieces⟩ := Option.map_eq_some_iff.mp found
      cases pieces
      have fits : mark.length ≤ (c :: rest).length := by
        rw [cut_eq_some later]
        simp only [List.length_cons, List.length_append]
        omega
      rw [List.cons_append, cut_cons, ih later]
      · rfl
      · -- the mark is not longer than the text, so that it would start the text alone
        rw [Option.eq_none_iff_forall_ne_some]
        intro tail starts
        obtain ⟨behind, whole⟩ := List.prefix_of_prefix_length_le
          ⟨tail, List.isPrefixOf?_eq_some_iff_append_eq.mp starts⟩
          (List.prefix_append (c :: rest) more) fits
        rw [List.isPrefixOf?_eq_some_iff_append_eq.mpr whole] at absent
        cases absent

/-- A mark that does not start a text does not start it together with more text after a character
that is not in the mark. -/
theorem isPrefixOf?_append_cons (absent : mark.isPrefixOf? before = none) (outside : c ∉ mark)
    (rest : List Char) : mark.isPrefixOf? (before ++ c :: rest) = none := by
  rw [Option.eq_none_iff_forall_ne_some]
  intro after found
  have whole := List.isPrefixOf?_eq_some_iff_append_eq.mp found
  rcases List.append_eq_append_iff.mp whole with ⟨more, isBefore, -⟩ | ⟨more, isMark, isRest⟩
  · have starts : mark.isPrefixOf? before = some more :=
      List.isPrefixOf?_eq_some_iff_append_eq.mpr isBefore.symm
    rw [absent] at starts
    cases starts
  · cases more with
    | nil =>
      have starts : mark.isPrefixOf? before = some [] :=
        List.isPrefixOf?_eq_some_iff_append_eq.mpr
          (by rw [isMark, List.append_nil, List.append_nil])
      rw [absent] at starts
      cases starts
    | cons d more =>
      cases isRest
      exact outside (by simp [isMark])

/-- **A character that is not in a mark** keeps the mark from lying across it. -/
theorem cut_append_cons (absent : cut mark before = none) (outside : c ∉ mark) (rest : List Char) :
    cut mark (before ++ c :: rest) =
      (cut mark rest).map fun found => (before ++ c :: found.1, found.2) := by
  induction before with
  | nil => exact cut_cons (isPrefixOf?_append_cons (isPrefixOf?_eq_none absent) outside rest)
  | cons d before ih =>
    have starts := isPrefixOf?_eq_none absent
    have later : cut mark before = none := by
      rw [cut_cons starts, Option.map_eq_none_iff] at absent
      exact absent
    have notHere := isPrefixOf?_append_cons starts outside rest
    rw [List.cons_append] at notHere ⊢
    rw [cut_cons notHere, ih later, Option.map_map]
    rfl

/-- **A text is cut at the mark after it** if the mark is not in it and it ends with a character
that is not in the mark. -/
theorem cut_append_mark (absent : cut mark before = none) (outside : c ∉ mark)
    (rest : List Char) :
    cut mark (before ++ [c] ++ (mark ++ rest)) = some (before ++ [c], rest) := by
  rw [List.append_assoc]
  show cut mark (before ++ c :: (mark ++ rest)) = _
  rw [cut_append_cons absent outside, cut_mark]
  rfl

/-- **A text without the first character of a mark** is cut at the mark after it. -/
theorem cut_append_of_notMem (outside : c ∉ before) (rest : List Char) :
    cut (c :: mark) (before ++ (c :: mark ++ rest)) = some (before, rest) := by
  induction before with
  | nil => exact cut_mark (c :: mark) rest
  | cons d before ih =>
    rw [List.mem_cons, not_or] at outside
    have notHere : (c :: mark).isPrefixOf? (d :: (before ++ (c :: mark ++ rest))) = none := by
      rw [Option.eq_none_iff_forall_ne_some]
      intro after starts
      exact outside.1 (List.cons.inj (List.isPrefixOf?_eq_some_iff_append_eq.mp starts)).1
    rw [List.cons_append, cut_cons notHere, ih outside.2]
    rfl

/-- **A text without a mark** is cut at the mark after it, if the mark has its last character nowhere
else: no mark lies across the end of the text. -/
theorem cut_append_of_absent {last : Char} (once : last ∉ mark)
    (absent : cut (mark ++ [last]) before = none) (rest : List Char) :
    cut (mark ++ [last]) (before ++ (mark ++ [last] ++ rest)) = some (before, rest) := by
  induction before with
  | nil => exact cut_mark (mark ++ [last]) rest
  | cons d before ih =>
    have starts := isPrefixOf?_eq_none absent
    have noStart : ∀ more, mark ++ [last] ++ more ≠ d :: before := fun more whole => by
      rw [List.isPrefixOf?_eq_some_iff_append_eq.mpr whole] at starts
      cases starts
    have later : cut (mark ++ [last]) before = none := by
      rw [cut_cons starts, Option.map_eq_none_iff] at absent
      exact absent
    have notHere : (mark ++ [last]).isPrefixOf? (d :: before ++ (mark ++ [last] ++ rest)) = none := by
      rw [Option.eq_none_iff_forall_ne_some]
      intro after found
      have whole := List.isPrefixOf?_eq_some_iff_append_eq.mp found
      rcases List.append_eq_append_iff.mp whole with ⟨more, isBefore, -⟩ | ⟨more, isMark, isRest⟩
      · exact noStart more isBefore.symm
      rcases List.eq_nil_or_concat' more with rfl | ⟨short, c, rfl⟩
      · exact noStart [] (by rw [isMark, List.append_nil, List.append_nil])
      -- the mark would have its last character before its end as well
      rw [← List.append_assoc] at isMark
      obtain ⟨isFront, same⟩ := List.append_inj' isMark rfl
      cases same
      have fits : (short ++ [last]).length ≤ mark.length := by
        rw [isFront]
        simp only [List.length_append, List.length_cons, List.length_nil]
        omega
      have inside : short ++ [last] <+: mark := List.prefix_of_prefix_length_le ⟨after, isRest.symm⟩
        ⟨[last] ++ rest, (List.append_assoc mark [last] rest).symm⟩ fits
      exact once (inside.subset (by simp))
    rw [List.cons_append] at notHere ⊢
    rw [cut_cons notHere, ih later]
    rfl

/-- **What stands before the first mark** does not contain the mark. -/
theorem cut_before {after : List Char} (nonempty : mark ≠ [])
    (found : cut mark rest = some (before, after)) : cut mark before = none := by
  induction rest generalizing before with
  | nil =>
    obtain ⟨_, starts, pieces⟩ := Option.map_eq_some_iff.mp found
    exact absurd (List.append_eq_nil_iff.mp (isPrefixOf?_eq_some starts).symm).1 nonempty
  | cons c rest ih =>
    rw [cut] at found
    split at found
    · cases found
      exact cut_eq_none fun inside => nonempty (List.eq_nil_of_infix_nil inside)
    · rename_i absent
      obtain ⟨⟨lead, tail⟩, later, pieces⟩ := Option.map_eq_some_iff.mp found
      cases pieces
      have whole : c :: rest = c :: lead ++ (mark ++ tail) := by
        rw [cut_eq_some later, List.cons_append, List.append_assoc]
      rw [cut_cons, ih later]
      · rfl
      · -- the mark at the start of the lead would be a mark at the start of the text
        rw [Option.eq_none_iff_forall_ne_some]
        intro more starts
        have isLead := List.isPrefixOf?_eq_some_iff_append_eq.mp starts
        rw [whole, ← isLead, List.append_assoc,
          List.isPrefixOf?_eq_some_iff_append_eq.mpr rfl] at absent
        cases absent

end Cuts

/-! ### Marks that do not overlap -/

section Apart

variable {first second lead front behind inner : List Char}

/-- Two endings of a text that are not empty have a character in common. -/
theorem exists_mem_endings (same : lead ++ first = front ++ second) (filled : first ≠ [])
    (otherFilled : second ≠ []) : ∃ c ∈ first, c ∈ second := by
  obtain ⟨short, c, rfl⟩ := (List.eq_nil_or_concat' first).resolve_left filled
  obtain ⟨tail, d, rfl⟩ := (List.eq_nil_or_concat' second).resolve_left otherFilled
  rw [← List.append_assoc, ← List.append_assoc] at same
  cases (List.append_inj' same rfl).2
  exact ⟨c, by simp, by simp⟩

/-- **Two marks without a common character** lie one behind the other. -/
theorem marks_apart (apart : ∀ c ∈ first, c ∉ second) (filled : first ≠ []) (otherFilled : second ≠ [])
    (same : lead ++ first ++ behind = front ++ (second ++ inner)) :
    second <:+: behind ∨ first ++ behind <:+ inner := by
  rcases List.append_eq_append_iff.mp same with ⟨gap, -, later⟩ | ⟨gap, earlier, later⟩
  · exact .inl ⟨gap, inner, by rw [later, List.append_assoc]⟩
  by_cases empty : gap = []
  · rw [empty, List.nil_append] at later
    exact .inl ⟨[], inner, by rw [← later, List.nil_append]⟩
  -- the first mark ends behind the start of the second
  obtain ⟨c, inFirst, inGap⟩ := exists_mem_endings earlier filled empty
  rcases List.append_eq_append_iff.mp later with ⟨more, isGap, isInner⟩ | ⟨more, isSecond, -⟩
  · rw [isGap, ← List.append_assoc] at earlier
    rcases List.append_eq_append_iff.mp earlier with ⟨part, isFront, isFirst⟩ | ⟨part, -, isMore⟩
    · by_cases whole : part = []
      · rw [whole, List.nil_append] at isFirst
        exact .inr ⟨[], by rw [isFirst, isInner, List.nil_append]⟩
      · obtain ⟨d, inSecond, inPart⟩ := exists_mem_endings isFront otherFilled whole
        exact absurd inSecond (apart d (isFirst ▸ List.mem_append_left more inPart))
    · exact .inr ⟨part, by rw [isInner, isMore, List.append_assoc]⟩
  · exact absurd (isSecond ▸ List.mem_append_left more inGap) (apart c inFirst)

end Apart

/-! ### Words -/

section Words

variable {α : Type} {test : α → Bool} {word rest : List α}

/-- **A word ends** where the next character does not belong to it. -/
theorem takeWhile_stops (belongs : ∀ c ∈ word, test c = true)
    (stops : ∀ c ∈ rest.head?, test c = false) : (word ++ rest).takeWhile test = word := by
  rw [List.takeWhile_append_of_pos belongs]
  cases rest with
  | nil => exact List.append_nil word
  | cons c rest => rw [List.takeWhile_cons_of_neg (by simp [stops c rfl]), List.append_nil]

/-- What stands behind the word is left. -/
theorem dropWhile_stops (belongs : ∀ c ∈ word, test c = true)
    (stops : ∀ c ∈ rest.head?, test c = false) : (word ++ rest).dropWhile test = rest := by
  rw [List.dropWhile_append_of_pos belongs]
  cases rest with
  | nil => rfl
  | cons c rest => exact List.dropWhile_cons_of_neg (by simp [stops c rfl])

end Words

/-! ### Trimming -/

section Trimming

variable {text : List Char}

/-- **A text is trimmed already** exactly if it is trimmed at both ends. -/
theorem trim_eq_self_iff : trim text = text ↔ trimStart text = text ∧ trimEnd text = text := by
  constructor
  · intro trimmed
    have shorter : (trimEnd (trimStart text)).length ≤ (trimStart text).length := by
      unfold trimEnd
      rw [List.length_reverse]
      exact (List.dropWhile_sublist isBlank).length_le.trans (List.length_reverse).le
    have whole : text.length ≤ (trimStart text).length := by
      rw [show trimEnd (trimStart text) = text from trimmed] at shorter
      exact shorter
    have start : trimStart text = text := (List.dropWhile_suffix isBlank).eq_of_length
      (Nat.le_antisymm (trimStart_length_le text) whole)
    refine ⟨start, ?_⟩
    rw [trim, start] at trimmed
    exact trimmed
  · rintro ⟨start, finish⟩
    rw [trim, start, finish]

theorem trimStart_cons {c : Char} (solid : isBlank c = false) (rest : List Char) :
    trimStart (c :: rest) = c :: rest := by
  rw [trimStart, List.dropWhile_cons, solid]
  rfl

/-- **What is trimmed at its start already** stops the trimming there. -/
theorem trimStart_append (trimmed : trimStart text = text) (nonempty : text ≠ [])
    (more : List Char) : trimStart (text ++ more) = text ++ more := by
  cases text with
  | nil => exact absurd rfl nonempty
  | cons c text =>
    by_cases blank : isBlank c = true
    · have shorter := trimStart_length_le text
      rw [trimStart, List.dropWhile_cons, if_pos blank] at trimmed
      rw [trimStart, trimmed, List.length_cons] at shorter
      omega
    · exact trimStart_cons (by simpa using blank) (text ++ more)

/-- **What is trimmed at its end already** stops the trimming there. -/
theorem trimEnd_append (trimmed : trimEnd text = text) (nonempty : text ≠ []) (lead : List Char) :
    trimEnd (lead ++ text) = lead ++ text := by
  have back : trimStart text.reverse = text.reverse := by
    rw [trimEnd] at trimmed
    rw [trimStart, ← List.reverse_eq_iff, trimmed]
  have stops := trimStart_append back (by simpa using nonempty) lead.reverse
  rw [trimEnd, List.reverse_append]
  rw [trimStart] at stops
  rw [stops, List.reverse_append, List.reverse_reverse, List.reverse_reverse]

/-- Blanks at the end do not matter to trimming there. -/
theorem trimEnd_append_blanks {blanks : List Char} (blank : ∀ c ∈ blanks, isBlank c = true)
    (text : List Char) : trimEnd (text ++ blanks) = trimEnd text := by
  rw [trimEnd, List.reverse_append, List.dropWhile_append_of_pos, trimEnd]
  exact fun c member => blank c (List.mem_reverse.mp member)

/-- A text that starts with a character that is not blank, and is trimmed at its end already. -/
theorem trim_cons_append {first : Char} (starts : isBlank first = false)
    (trimmed : trimEnd text = text) (nonempty : text ≠ []) (lead : List Char) :
    trim (first :: (lead ++ text)) = first :: (lead ++ text) :=
  trim_eq_self_iff.mpr ⟨trimStart_cons starts _, trimEnd_append trimmed nonempty (first :: lead)⟩

/-- **What trimming takes off at the start** are blanks. -/
theorem trimStart_parts (text : List Char) :
    ∃ blanks, (∀ c ∈ blanks, isBlank c = true) ∧ text = blanks ++ trimStart text :=
  ⟨text.takeWhile isBlank, fun _ => List.mem_takeWhile_imp, (takeWhile_append_trimStart text).symm⟩

/-- **What trimming takes off at the end** are blanks. -/
theorem trimEnd_parts (text : List Char) :
    ∃ blanks, (∀ c ∈ blanks, isBlank c = true) ∧ text = trimEnd text ++ blanks := by
  obtain ⟨blanks, blank, whole⟩ := trimStart_parts text.reverse
  refine ⟨blanks.reverse, fun c member => blank c (List.mem_reverse.mp member), ?_⟩
  rw [trimEnd, ← List.reverse_append]
  exact (List.reverse_eq_iff.mpr whole.symm).symm

/-- **What trimming takes off** are blanks on both sides. -/
theorem trim_parts (text : List Char) : ∃ left right, (∀ c ∈ left, isBlank c = true) ∧
    (∀ c ∈ right, isBlank c = true) ∧ text = left ++ trim text ++ right := by
  obtain ⟨left, before, whole⟩ := trimStart_parts text
  obtain ⟨right, behind, kept⟩ := trimEnd_parts (trimStart text)
  refine ⟨left, right, before, behind, ?_⟩
  rw [trim, List.append_assoc, ← kept]
  exact whole

/-- **Blanks around a text that is trimmed already** are taken off. -/
theorem trim_around {left right : List Char} (before : ∀ c ∈ left, isBlank c = true)
    (behind : ∀ c ∈ right, isBlank c = true) (trimmed : trim text = text) (nonempty : text ≠ []) :
    trim (left ++ text ++ right) = text := by
  obtain ⟨start, finish⟩ := trim_eq_self_iff.mp trimmed
  have head : trimStart (left ++ text ++ right) = text ++ right := by
    rw [List.append_assoc]
    exact (List.dropWhile_append_of_pos before).trans (trimStart_append start nonempty right)
  rw [trim, head, trimEnd_append_blanks behind, finish]

/-- **The end of a trimmed text** is not blank. -/
theorem isBlankText_of_trimmed {lead : List Char} (trimmed : trim (lead ++ text) = lead ++ text)
    (nonempty : text ≠ []) : isBlankText text = false := by
  by_contra blank
  have ends := (trim_eq_self_iff.mp trimmed).2
  rw [trimEnd_append_blanks (List.all_eq_true.mp (Bool.not_eq_false _ ▸ blank))] at ends
  obtain ⟨blanks, -, whole⟩ := trimEnd_parts lead
  rw [ends, List.append_assoc] at whole
  have parts := List.append_eq_nil_iff.mp (List.self_eq_append_right.mp whole)
  exact nonempty parts.1

theorem trimStart_trimStart (text : List Char) : trimStart (trimStart text) = trimStart text :=
  List.dropWhile_idempotent _ _

theorem trimEnd_eq_nil_iff : trimEnd text = [] ↔ isBlankText text = true := by
  rw [trimEnd, List.reverse_eq_nil_iff, ← trimStart, trimStart_eq_nil_iff, isBlankText, isBlankText,
    List.all_reverse]

/-- **Nothing is left exactly of a text of blanks.** -/
theorem trim_eq_nil_iff : trim text = [] ↔ isBlankText text = true := by
  rw [trim, trimEnd_eq_nil_iff, ← trimStart_eq_nil_iff, trimStart_trimStart, trimStart_eq_nil_iff]

/-- **Trimming twice trims no more.** -/
theorem trim_trim (text : List Char) : trim (trim text) = trim text := by
  have back : trimEnd (trim text) = trim text := by
    rw [trim, trimEnd, trimEnd, List.reverse_reverse, ← trimStart, ← trimStart, trimStart_trimStart]
  obtain ⟨blanks, -, whole⟩ := trimEnd_parts (trimStart text)
  refine trim_eq_self_iff.mpr ⟨?_, back⟩
  cases kept : trim text with
  | nil => rfl
  | cons c rest =>
    rw [← trim, kept, List.cons_append] at whole
    have solid := List.head?_dropWhile_not isBlank text
    rw [← trimStart, whole] at solid
    exact trimStart_cons (by simpa using solid) rest

end Trimming

end Stencil.Text
