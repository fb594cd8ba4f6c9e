/-
**Reading what printed tags say.**

* `read?_quoted`, `text_quoted`: a quoted name is one argument, and says the name;
* `readOpening_block`, `readOpening_inclusion`, `readOpening_definition`: the groups of opening
  tags;
* `readStatement_escaped`, `readStatement_dropped`, `readStatement_variable`: the nodes of output
  tags and statements.
-/

import Stencil.Proofs.PrintedTags

namespace Stencil.Markup

open Text

/-! ### Names -/

theorem escaped_cons (c : Char) (name : List Char) :
    escaped (c :: name) = '\\' :: c :: escaped name := rfl

/-- **A backslash and the character after it** are passed together: the backslash takes its meaning
from that character, also if it is a backslash or the quote. -/
theorem endQuote?_pair (quote c : Char) (rest : List Char) :
    Argument.endQuote? quote false ('\\' :: c :: rest) =
      (Argument.endQuote? quote false rest).map fun found => ('\\' :: c :: found.1, found.2) := by
  have pair : Argument.endQuote? quote true (c :: rest) =
      (Argument.endQuote? quote false rest).map fun found => (c :: found.1, found.2) := by
    rw [Argument.endQuote?]
    by_cases backslash : c = '\\'
    · rw [if_pos backslash, Bool.not_true]
    · rw [if_neg backslash, if_neg fun both => Bool.noConfusion both.2]
  rw [Argument.endQuote?, if_pos rfl, Bool.not_false, pair, Option.map_map]
  rfl

theorem endQuote?_escaped (name rest : List Char) :
    Argument.endQuote? '"' false (escaped name ++ '"' :: rest) =
      some (escaped name ++ ['"'], rest) := by
  induction name with
  | nil => rfl
  | cons c name ih =>
    rw [escaped_cons, List.cons_append, List.cons_append, endQuote?_pair, ih]
    rfl

theorem unescape_escaped (name : List Char) : Argument.unescape (escaped name) = name := by
  induction name with
  | nil => rfl
  | cons c name ih =>
    rw [escaped_cons, Argument.unescape, ih]

/-- **A quoted name is one argument.** -/
theorem read?_quoted (name : String) (rest : List Char) :
    Argument.read? (quoted name ++ rest) = .ok (some ⟨true, quoted name, trimStart rest⟩) := by
  have shape : quoted name ++ rest = '"' :: (escaped name.toList ++ '"' :: rest) := by
    rw [quoted, List.cons_append, List.append_assoc]
    rfl
  rw [shape, Argument.read?, if_pos (Or.inl rfl), endQuote?_escaped]
  rfl

/-- **A quoted name says the name.** -/
theorem text_quoted (name : String) (tail : List Char) :
    Argument.text ⟨true, quoted name, tail⟩ = name.toList := by
  show Argument.unescape (escaped name.toList ++ ['"']).dropLast = name.toList
  rw [List.dropLast_concat, unescape_escaped]

/-! ### Groups -/

section Groups

variable {argument : Argument} {name : String} {near rest : List Char}

theorem needArgument_quoted (follows : argument.tail = quoted name ++ rest) (needed : Needed) :
    needArgument argument needed near = .ok ⟨true, quoted name, trimStart rest⟩ := by
  unfold needArgument Argument.next?
  rw [follows, read?_quoted]
  rfl

theorem noMoreArguments_end (ends : argument.tail = []) :
    noMoreArguments argument near = .ok () := by
  unfold noMoreArguments Argument.next?
  rw [ends]
  rfl

theorem readMode_name {mode : Mode} (follows : argument.tail = mode.name.toList) :
    readMode argument near = .ok mode := by
  unfold readMode Argument.next?
  rw [follows]
  cases mode <;> rfl

/-- An opening tag starts with its opener, and goes on with the quoted name. -/
theorem first?_opener (opener : Opener) {lead text : List Char} (trimmed : trimEnd text = text)
    (nonempty : text ≠ []) :
    Argument.first? (opener.word.toList ++ ' ' :: '"' :: (lead ++ text)) =
      .ok (some ⟨false, opener.word.toList, '"' :: (lead ++ text)⟩) := by
  unfold Argument.first?
  obtain ⟨first, more, word, solid⟩ : ∃ first more,
      opener.word.toList = first :: more ∧ isBlank first = false := by
    cases opener <;> exact ⟨_, _, rfl, by decide⟩
  have whole : opener.word.toList ++ ' ' :: '"' :: (lead ++ text) =
      first :: ((more ++ ' ' :: '"' :: lead) ++ text) := by
    simp only [word, List.cons_append, List.append_assoc]
  rw [whole, trim_cons_append solid trimmed nonempty, ← whole]
  cases opener <;> rfl

theorem first?_quoted (opener : Opener) (name : String) :
    Argument.first? (opener.word.toList ++ ' ' :: quoted name) =
      .ok (some ⟨false, opener.word.toList, quoted name⟩) :=
  first?_opener opener (by decide) (by simp)

variable {tag : Tag}

/-- A quoted name that nothing follows, given to what makes a group of it. -/
theorem loneName_quoted (follows : argument.tail = quoted name) (needed : Needed)
    (make : String → Group) :
    (do
      let found ← needArgument argument needed near
      noMoreArguments found near
      .ok (make (String.ofList found.text)) : Except Fault Group) = .ok (make name) := by
  have tail : argument.tail = quoted name ++ [] := by rw [follows, List.append_nil]
  rw [needArgument_quoted tail]
  simp only [bind, Except.bind]
  rw [noMoreArguments_end rfl, text_quoted, String.ofList_toList]

theorem readOpening_block
    (content : tag.content = Opener.block.word.toList ++ ' ' :: quoted name) :
    readOpening tag = .ok (.block name []) := by
  unfold readOpening
  rw [content, first?_quoted]
  exact loneName_quoted rfl .blockName fun name => .block name []

theorem readOpening_inclusion
    (content : tag.content = Opener.inclusion.word.toList ++ ' ' :: quoted name) :
    readOpening tag = .ok (.inclusion name []) := by
  unfold readOpening
  rw [content, first?_quoted]
  exact loneName_quoted rfl .includePath fun file => .inclusion file []

theorem readOpening_definition {mode : Mode} (content : tag.content =
      Opener.definition.word.toList ++ ' ' :: (quoted name ++ ' ' :: mode.name.toList)) :
    readOpening tag = .ok (.definition name mode []) := by
  have word : Argument.first? tag.content = .ok (some ⟨false, Opener.definition.word.toList,
      quoted name ++ ' ' :: mode.name.toList⟩) := by
    rw [content]
    have shape : quoted name ++ ' ' :: mode.name.toList =
        '"' :: ((escaped name.toList ++ ['"', ' ']) ++ mode.name.toList) := by
      simp only [quoted, List.cons_append, List.append_assoc, List.nil_append]
    rw [shape]
    exact first?_opener .definition (by cases mode <;> decide) (by cases mode <;> decide)
  have mark : trimStart (' ' :: mode.name.toList) = mode.name.toList := by
    cases mode <;> rfl
  unfold readOpening
  rw [word]
  show (needArgument ⟨false, _, quoted name ++ ' ' :: mode.name.toList⟩ .definitionName
    tag.raw).bind _ = _
  rw [needArgument_quoted rfl, mark]
  simp only [bind, Except.bind]
  rw [readMode_name rfl, text_quoted, String.ofList_toList]

end Groups

/-! ### Statements -/

section Statements

variable {tag : Tag} {source : String}

theorem afterKeyword?_eq_none {keyword : String} (differs : ¬ StartsWith keyword source) :
    afterKeyword? keyword.toList source.toList = none := by
  unfold afterKeyword?
  cases found : keyword.toList.isPrefixOf? source.toList with
  | none => rfl
  | some rest =>
    have whole := List.isPrefixOf?_eq_some_iff_append_eq.mp found
    cases rest with
    | nil => rfl
    | cons blank rest =>
      by_cases isBlank : isBlank blank = true
      · exact absurd ⟨blank, rest, isBlank, whole.symm⟩ differs
      · exact if_neg isBlank

/-- What stands between the braces of a printed tag, without the blank at its end. -/
theorem trim_source {braces : List Char} (isSource : IsSource braces source) {first : Char}
    (solid : isBlank first = false) (lead : List Char) :
    trim (first :: (lead ++ (source.toList ++ [' ']))) = first :: (lead ++ source.toList) := by
  have whole : first :: (lead ++ (source.toList ++ [' '])) =
      first :: (lead ++ source.toList) ++ [' '] := by
    rw [List.cons_append, List.append_assoc]
  rw [trim, trimStart_cons solid, whole, trimEnd_append_blanks (List.forall_mem_singleton.mpr rfl)]
  exact trimEnd_append isSource.finishes isSource.toList_ne_nil (first :: lead)

theorem trim_blank_source {braces : List Char} (isSource : IsSource braces source) :
    trim (' ' :: (source.toList ++ [' '])) = source.toList := by
  have start : trimStart (' ' :: (source.toList ++ [' '])) = source.toList ++ [' '] := by
    show trimStart (source.toList ++ [' ']) = _
    exact trimStart_append isSource.starts isSource.toList_ne_nil [' ']
  rw [trim, start, trimEnd_append_blanks (List.forall_mem_singleton.mpr rfl), isSource.finishes]

theorem readStatement_escaped {braces : List Char} (isSource : IsSource braces source)
    (noVariable : ¬ StartsWith "var" source) (noDropped : ¬ StartsWith "do" source)
    (content : tag.content = ' ' :: (source.toList ++ [' '])) :
    readStatement tag = .ok (.expression source .escaped) := by
  unfold readStatement
  rw [content, trim_blank_source isSource]
  simp only [afterKeyword?_eq_none noVariable, afterKeyword?_eq_none noDropped]
  rw [String.ofList_toList]

theorem readStatement_dropped {braces : List Char} (isSource : IsSource braces source)
    (content : tag.content = 'd' :: 'o' :: ' ' :: (source.toList ++ [' '])) :
    readStatement tag = .ok (.expression source .dropped) := by
  have trimmed : trim tag.content = 'd' :: 'o' :: ' ' :: source.toList := by
    rw [content]
    exact trim_source isSource (by decide) ['o', ' ']
  have keyword : afterKeyword? "do".toList ('d' :: 'o' :: ' ' :: source.toList) =
      some (trim source.toList) := rfl
  have other : afterKeyword? "var".toList ('d' :: 'o' :: ' ' :: source.toList) = none := rfl
  unfold readStatement
  simp only [trimmed, keyword, other, isSource.trimmed, String.ofList_toList]

end Statements

/-! ### Variables -/

section Variables

theorem isVariablePart_of_isVariableStart {c : Char} (starts : isVariableStart c = true) :
    isVariablePart c = true := by
  unfold isVariableStart at starts
  unfold isVariablePart Char.isAlphanum
  cases alpha : c.isAlpha with
  | true => rfl
  | false =>
    rw [alpha] at starts
    simp only [Bool.false_or, Bool.or_eq_true] at starts ⊢
    tauto

theorem toNat_of_isVariablePart {c : Char} (part : isVariablePart c = true) :
    0x24 ≤ c.toNat ∧ c.toNat ≤ 0x7A := by
  unfold isVariablePart Char.isAlphanum Char.isAlpha Char.isUpper Char.isLower Char.isDigit at part
  simp only [Bool.or_eq_true, Bool.and_eq_true, decide_eq_true_eq, ge_iff_le,
    UInt32.le_iff_toNat_le] at part
  rcases part with ((((⟨low, high⟩ | ⟨low, high⟩) | ⟨low, high⟩) | rfl) | rfl)
  · exact ⟨Nat.le_trans (by decide) low, Nat.le_trans high (by decide)⟩
  · exact ⟨Nat.le_trans (by decide) low, Nat.le_trans high (by decide)⟩
  · exact ⟨Nat.le_trans (by decide) low, Nat.le_trans high (by decide)⟩
  · decide
  · decide

theorem isBlank_eq_false_of_isVariablePart {c : Char} (part : isVariablePart c = true) :
    isBlank c = false := by
  by_contra blank
  rw [Bool.not_eq_false] at blank
  obtain ⟨range, member, low, high⟩ := inRanges_iff.mp blank
  obtain ⟨above, below⟩ := toNat_of_isVariablePart part
  simp only [blankRanges, List.mem_cons, List.not_mem_nil, or_false] at member
  rcases member with rfl | rfl | rfl | rfl | rfl | rfl | rfl | rfl | rfl | rfl <;>
    simp only at low high <;> omega

variable {name source : String} {braces : List Char}

theorem IsVariableName.parts (isName : IsVariableName name) :
    ∀ c ∈ name.toList, isVariablePart c = true := by
  obtain ⟨first, rest, whole, starts, parts⟩ := isName
  rw [whole]
  intro c member
  rcases List.mem_cons.mp member with rfl | later
  · exact isVariablePart_of_isVariableStart starts
  · exact parts c later

theorem IsVariableName.cut_bindingLead (isName : IsVariableName name) :
    cut Tag.closeBraces (bindingLead name) = none := by
  have outside : '}' ∉ bindingLead name := by
    unfold bindingLead
    simp only [List.mem_cons, List.mem_append, List.not_mem_nil, or_false, not_or]
    refine ⟨by decide, by decide, by decide, by decide, fun member => ?_, by decide, by decide⟩
    exact absurd (isName.parts '}' member) (by decide)
  exact cut_eq_none_of_notMem (c := '}') (by decide) outside

theorem readVariable?_printed (isName : IsVariableName name) (isSource : IsSource braces source) :
    readVariable? (name.toList ++ ' ' :: '=' :: ' ' :: source.toList) =
      some (name.toList, source.toList) := by
  have stops : ∀ c ∈ (' ' :: '=' :: ' ' :: source.toList).head?, isVariablePart c = false := by
    rintro c ⟨⟩
    rfl
  have taken := takeWhile_stops isName.parts stops
  have dropped := dropWhile_stops isName.parts stops
  have equals : trimStart (' ' :: '=' :: ' ' :: source.toList) = '=' :: ' ' :: source.toList := rfl
  have value : trim (' ' :: source.toList) = source.toList := isSource.trimmed
  obtain ⟨first, rest, whole, starts, parts⟩ := isName
  unfold readVariable?
  rw [taken, dropped, equals]
  simp only [whole, List.cons_append, List.head?_cons, starts, value, true_and, ne_eq,
    List.cons_ne_nil, not_false_eq_true, if_true]

theorem readStatement_variable {tag : Tag} (isName : IsVariableName name)
    (isSource : IsSource braces source)
    (content : tag.content = bindingLead name ++ ' ' :: (source.toList ++ [' '])) :
    readStatement tag = .ok (.variable name source) := by
  have shape : ∀ text : List Char, bindingLead name ++ ' ' :: text =
      'v' :: (['a', 'r', ' '] ++ name.toList ++ [' ', '=', ' '] ++ text) := by
    intro text
    simp only [bindingLead, List.cons_append, List.append_assoc, List.nil_append]
  have trimmed : trim tag.content = bindingLead name ++ ' ' :: source.toList := by
    rw [content, shape, shape]
    exact trim_source isSource (by decide) _
  have binding : trim (name.toList ++ ' ' :: '=' :: ' ' :: source.toList) =
      name.toList ++ ' ' :: '=' :: ' ' :: source.toList := by
    obtain ⟨first, rest, whole, starts, -⟩ := isName
    have solid := isBlank_eq_false_of_isVariablePart (isVariablePart_of_isVariableStart starts)
    have split : name.toList ++ ' ' :: '=' :: ' ' :: source.toList =
        first :: (rest ++ [' ', '=', ' '] ++ source.toList) := by
      simp only [whole, List.cons_append, List.append_assoc, List.nil_append]
    rw [split]
    exact trim_cons_append solid isSource.finishes isSource.toList_ne_nil _
  have keyword : afterKeyword? "var".toList (bindingLead name ++ ' ' :: source.toList) =
      some (trim (name.toList ++ ' ' :: '=' :: ' ' :: source.toList)) := by
    have plain : bindingLead name ++ ' ' :: source.toList =
        'v' :: 'a' :: 'r' :: ' ' :: (name.toList ++ ' ' :: '=' :: ' ' :: source.toList) := by
      simp only [bindingLead, List.cons_append, List.append_assoc, List.nil_append]
    rw [plain]
    rfl
  unfold readStatement
  simp only [trimmed, keyword, binding, readVariable?_printed isName isSource,
    String.ofList_toList]

end Variables

end Stencil.Markup
