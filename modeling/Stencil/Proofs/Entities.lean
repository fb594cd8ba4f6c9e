/-
**Escaped text can be read back.**

An escaped text is made of entities and of characters other than `&`. Behind its first character no
entity has a `&`, so the next `&` always begins the next entity, also where the text looked like an
entity before it was escaped. A reader that replaces entities from left to right is never misled.

* `entities`: what characters are written as; `escapeChar_cases`: what becomes of one character;
* `entity_of_ampersand`: **a `&` in an escaped text begins an entity**;
* `unescape`: entities replaced by their characters, in one pass; `unescapeChars_flatMap`: **the pass
  over an escaped text**, whatever comes behind it;
* `escape_reversible`: **escaped texts are safe and tell what they were**.
-/

import Mathlib.Logic.Function.Basic
import Stencil.Proofs.EscapedOutput

namespace Stencil.Html

/-! ### Entities in escaped texts -/

/-- **The entities** that escaped texts have. -/
def entities : List String :=
  ["&amp;", "&lt;", "&gt;", "&quot;", "&#39;"]

/-- A character is written as an entity, or stays what it is. -/
theorem escapeChar_cases (c : Char) :
    (∃ entity ∈ entities, escapeChar c = entity.toList) ∨ escapeChar c = [c] ∧ c ≠ '&' := by
  unfold escapeChar
  split_ifs with ampersand less greater double single
  · exact .inl ⟨"&amp;", by simp [entities], rfl⟩
  · exact .inl ⟨"&lt;", by simp [entities], rfl⟩
  · exact .inl ⟨"&gt;", by simp [entities], rfl⟩
  · exact .inl ⟨"&quot;", by simp [entities], rfl⟩
  · exact .inl ⟨"&#39;", by simp [entities], rfl⟩
  · exact .inr ⟨rfl, ampersand⟩

/-- **Entities have no `&` but the first character.** -/
theorem toList_entity {entity : String} (member : entity ∈ entities) :
    ∃ body, entity.toList = '&' :: body ∧ '&' ∉ body := by
  have all : ∀ entity ∈ entities, entity.toList.head? = some '&' ∧ '&' ∉ entity.toList.tail := by
    decide
  obtain ⟨head, tail⟩ := all entity member
  obtain ⟨body, same⟩ := List.head?_eq_some_iff.mp head
  rw [same] at tail
  exact ⟨body, same, tail⟩

/-- What begins with a character starts behind a text without it. -/
theorem suffix_of_notMem {c : Char} {body text rest : List Char} (outside : c ∉ body)
    (behind : c :: rest <:+ body ++ text) : c :: rest <:+ text := by
  induction body with
  | nil => exact behind
  | cons first body ih =>
    obtain ⟨differ, outside⟩ := not_or.mp (mt List.mem_cons.mpr outside)
    rcases List.suffix_cons_iff.mp behind with same | behind
    · exact absurd (List.cons.inj same).1 differ
    · exact ih outside behind

/-- **A `&` in an escaped text begins an entity.** -/
theorem entity_of_ampersand {text rest : List Char}
    (behind : '&' :: rest <:+ text.flatMap escapeChar) :
    ∃ entity ∈ entities, entity.toList <+: '&' :: rest := by
  induction text with
  | nil => cases List.suffix_nil.mp behind
  | cons c text ih =>
    rw [List.flatMap_cons] at behind
    rcases escapeChar_cases c with ⟨entity, member, written⟩ | ⟨written, differ⟩
    · obtain ⟨body, same, outside⟩ := toList_entity member
      rw [written, same] at behind
      rcases List.suffix_cons_iff.mp behind with whole | behind
      · refine ⟨entity, member, ?_⟩
        rw [same, whole]
        exact List.prefix_append ('&' :: body) _
      · exact ih (suffix_of_notMem outside behind)
    · rw [written] at behind
      exact ih (suffix_of_notMem (mt List.mem_singleton.mp (Ne.symm differ)) behind)

/-! ### Reading escaped texts -/

/-- **Entities replaced by their characters**, from left to right. All other characters stay. -/
def unescapeChars : List Char → List Char
  | '&' :: 'a' :: 'm' :: 'p' :: ';' :: rest => '&' :: unescapeChars rest
  | '&' :: 'l' :: 't' :: ';' :: rest => '<' :: unescapeChars rest
  | '&' :: 'g' :: 't' :: ';' :: rest => '>' :: unescapeChars rest
  | '&' :: 'q' :: 'u' :: 'o' :: 't' :: ';' :: rest => '"' :: unescapeChars rest
  | '&' :: '#' :: '3' :: '9' :: ';' :: rest => '\'' :: unescapeChars rest
  | c :: rest => c :: unescapeChars rest
  | [] => []

/-- **A text with its entities replaced.** -/
def unescape (text : String) : String :=
  String.ofList (unescapeChars text.toList)

theorem unescapeChars_cons {c : Char} (differ : c ≠ '&') (rest : List Char) :
    unescapeChars (c :: rest) = c :: unescapeChars rest := by
  rw [unescapeChars] <;> rintro _ rfl <;> exact absurd rfl differ

theorem unescapeChars_escapeChar (c : Char) (rest : List Char) :
    unescapeChars (escapeChar c ++ rest) = c :: unescapeChars rest := by
  unfold escapeChar
  split_ifs with ampersand less greater double single
  · rw [ampersand]
    rfl
  · rw [less]
    rfl
  · rw [greater]
    rfl
  · rw [double]
    rfl
  · rw [single]
    rfl
  · exact unescapeChars_cons ampersand rest

/-- **The pass over an escaped text** gives back the text, whatever comes behind it. -/
theorem unescapeChars_flatMap (text rest : List Char) :
    unescapeChars (text.flatMap escapeChar ++ rest) = text ++ unescapeChars rest := by
  induction text with
  | nil => rfl
  | cons c text ih =>
    rw [List.flatMap_cons, List.append_assoc, unescapeChars_escapeChar, ih, List.cons_append]

theorem unescape_escape (text : String) : unescape (escape text) = text := by
  have read := unescapeChars_flatMap text.toList []
  rw [List.append_nil, unescapeChars, List.append_nil] at read
  rw [unescape, toList_escape, read, String.ofList_toList]

/-- **Escaped texts are safe and tell what they were.** They have no markup, every `&` in them begins
an entity, and replacing the entities gives back the text. So different texts are written differently,
and texts can be escaped piece by piece. -/
theorem escape_reversible :
    (∀ text, ∀ c ∈ (escape text).toList, c ≠ '<' ∧ c ≠ '>' ∧ c ≠ '"' ∧ c ≠ '\'') ∧
      (∀ text rest, '&' :: rest <:+ (escape text).toList →
        ∃ entity ∈ entities, entity.toList <+: '&' :: rest) ∧
      (∀ text, unescape (escape text) = text) ∧
      Function.Injective escape ∧
      (∀ first second, escape (first ++ second) = escape first ++ escape second) := by
  refine ⟨fun text c member => ?_, fun text rest behind => ?_, unescape_escape,
    Function.LeftInverse.injective unescape_escape, escape_append⟩
  · have plain := List.filter_eq_nil_iff.mp (markup_escape text) c member
    simpa [isMarkup, and_assoc] using plain
  · rw [toList_escape] at behind
    exact entity_of_ampersand behind

/-- A text that looks escaped is read back as it was, and not as what it looks like. -/
example : escape "&lt;b&gt; & co" = "&amp;lt;b&amp;gt; &amp; co" ∧
    unescape "&amp;lt;b&amp;gt; &amp; co" = "&lt;b&gt; & co" := by
  decide

end Stencil.Html
