/-
**Arguments are read back as they were written**: as words, or between quotes.

The end of a quoted argument and what it says are found by two scanners. One remembers whether the next
character is taken as it is, the other takes a backslash and the next character together. On a text
that is protected for its quotes both take the same steps.

* `Spells`: **how an argument is written**;
* `endQuote?_protect`, `unescape_protect`: the two scanners on protected texts;
* `Spells.read`, `Spells.text_eq`: one argument is read up to the gap behind it, and says what was
  meant;
* `walk_eq_iff`: walking over the arguments is asking for the first and then for the next;
* `spread_read`: **any arguments with gaps between them** are read back, one after the other.
-/

import Stencil.Proofs.TagMeaning
import Stencil.Proofs.WrittenText

namespace Stencil.Markup.Argument

open Text

/-- **How an argument is written**: as a word without blanks that does not start with a quote, or as
any text between quotes. The first argument says whether it is quoted. -/
inductive Spells : Bool → List Char → List Char → Prop
  | word {text : List Char} : text ≠ [] → (∀ c ∈ text, isBlank c = false) →
      text.head? ≠ some '"' → text.head? ≠ some '\'' → Spells false text text
  | quoted (quote : Quote) (text : List Char) : Spells true text (inQuotes quote text)

/-! ### Two scanners -/

section Scanners

variable {quote : Quote} {c : Char} {text rest : List Char}

theorem endQuote?_plain (plain : ¬ (c = '\\' ∨ c = quote.char)) :
    endQuote? quote.char false (c :: rest) =
      (endQuote? quote.char false rest).map fun found => (c :: found.1, found.2) := by
  rw [not_or] at plain
  rw [endQuote?, if_neg plain.1, if_neg fun both => plain.2 both.1]

/-- **The end of a protected text** is the quote behind it. -/
theorem endQuote?_protect (quote : Quote) (text rest : List Char) :
    endQuote? quote.char false (protect quote text ++ quote.char :: rest) =
      some (protect quote text ++ [quote.char], rest) := by
  induction text with
  | nil =>
    show endQuote? quote.char false (quote.char :: rest) = _
    rw [endQuote?, if_neg quote.char_ne_backslash, if_pos ⟨rfl, rfl⟩]
    rfl
  | cons c text ih =>
    by_cases guarded : c = '\\' ∨ c = quote.char
    · rw [protect_guarded guarded, List.cons_append, List.cons_append,
        endQuote?_pair, ih]
      rfl
    · rw [protect_plain guarded, List.cons_append, endQuote?_plain guarded, ih]
      rfl

theorem unescape_plain (plain : c ≠ '\\') : unescape (c :: rest) = c :: unescape rest := by
  rw [unescape]
  · exact fun _ _ same => absurd same plain
  · exact fun same => absurd same plain

/-- **A protected text** says the text. -/
theorem unescape_protect (quote : Quote) (text : List Char) :
    unescape (protect quote text) = text := by
  induction text with
  | nil => rfl
  | cons c text ih =>
    by_cases guarded : c = '\\' ∨ c = quote.char
    · rw [protect_guarded guarded, unescape, ih]
    · rw [protect_plain guarded, unescape_plain fun same => guarded (.inl same), ih]

end Scanners

/-! ### One argument -/

section One

variable {quoted : Bool} {text written : List Char}

/-- What is written for an argument has no blank at either end. -/
theorem Spells.solid (spells : Spells quoted text written) : Solid written := by
  cases spells with
  | word filled free _ _ =>
    refine ⟨filled, ?_, ?_⟩
    · exact List.dropWhile_eq_self_iff.mpr fun _ => by simp [free _ (List.getElem_mem _)]
    · exact List.rdropWhile_eq_self_iff.mpr fun _ => by simp [free _ (List.getLast_mem _)]
  | quoted quote text =>
    have last : trimEnd [quote.char] = [quote.char] := by
      rw [trimEnd, List.reverse_singleton, ← trimStart, trimStart_cons quote.char_solid]
      rfl
    exact ⟨List.cons_ne_nil _ _, trimStart_cons quote.char_solid _,
      trimEnd_append last (List.cons_ne_nil _ _) (quote.char :: protect quote text)⟩

/-- **An argument is read** up to the gap behind it. -/
theorem Spells.read (spells : Spells quoted text written) {rest : List Char}
    (ends : ∀ c ∈ rest.head?, isBlank c = true) :
    read? (written ++ rest) = .ok (some ⟨quoted, written, trimStart rest⟩) := by
  cases spells with
  | @word text filled free noDouble noSingle =>
    obtain ⟨c, more, rfl⟩ := List.exists_cons_of_ne_nil filled
    have noQuote : ¬ (c = '"' ∨ c = '\'') := by
      rintro (rfl | rfl)
      · exact noDouble rfl
      · exact noSingle rfl
    have belongs : ∀ d ∈ c :: more, (!isBlank d) = true :=
      fun d member => by rw [free d member]; rfl
    have stops : ∀ d ∈ rest.head?, (!isBlank d) = false := stops_at_gap (by simp) ends
    rw [List.cons_append, read?, if_neg noQuote, ← List.cons_append, takeWhile_stops belongs stops,
      dropWhile_stops belongs stops]
  | quoted quote text =>
    have whole : inQuotes quote text ++ rest =
        quote.char :: (protect quote text ++ quote.char :: rest) := by
      simp [inQuotes]
    rw [whole, read?, if_pos quote.char_quotes, endQuote?_protect]
    rfl

/-- **An argument says** what was meant. -/
theorem Spells.text_eq (spells : Spells quoted text written) (tail : List Char) :
    (⟨quoted, written, tail⟩ : Argument).text = text := by
  cases spells with
  | word => rfl
  | quoted quote text =>
    show unescape (protect quote text ++ [quote.char]).dropLast = text
    rw [List.dropLast_concat, unescape_protect]

end One

/-! ### All arguments -/

/-- **Walking over the arguments** is asking for the first one, and at each for the next. -/
theorem walk_eq_iff {content : List Char} {arguments : List Argument} :
    walk content = ⟨arguments, none⟩ ↔ first? content = .ok arguments[0]? ∧
      ∀ i (inside : i < arguments.length), arguments[i].next? = .ok arguments[i + 1]? := by
  show walkFrom (trim content) = _ ↔ read? (trim content) = _ ∧ _
  generalize trim content = text
  induction arguments generalizing text with
  | nil => simp [walkFrom_nil_iff]
  | cons argument rest ih =>
    rw [walkFrom_cons_iff, ih]
    constructor
    · rintro ⟨isFirst, isNext, later⟩
      refine ⟨isFirst, fun i inside => ?_⟩
      cases i with
      | zero => exact isNext
      | succ i => exact later i (Nat.lt_of_succ_lt_succ inside)
    · rintro ⟨isFirst, later⟩
      exact ⟨isFirst, later 0 (Nat.succ_pos _), fun i inside =>
        later (i + 1) (Nat.succ_lt_succ inside)⟩

section All

variable {pieces : List (Placed (Bool × List Char))} {trail : List Char}

theorem walkFrom_spread (spells : ∀ piece ∈ pieces, Spells piece.said.1 piece.said.2 piece.written)
    (spaced : Spaced pieces) : ∃ arguments, walkFrom (trimStart (spread pieces)) = ⟨arguments, none⟩ ∧
      arguments.map (fun argument => (argument.quoted, argument.text)) = pieces.map Placed.said := by
  induction pieces with
  | nil => exact ⟨[], walkFrom_nil_iff.mpr rfl, rfl⟩
  | cons piece rest ih =>
    have own := spells piece List.mem_cons_self
    obtain ⟨arguments, walked, same⟩ :=
      ih (fun other member => spells other (List.mem_cons_of_mem piece member)) spaced.tail
    have ends : ∀ c ∈ (spread rest ++ []).head?, isBlank c = true := ends_at_gap spaced rfl
    rw [List.append_nil] at ends
    refine ⟨⟨piece.said.1, piece.written, trimStart (spread rest)⟩ :: arguments, ?_, ?_⟩
    · rw [trimStart_spread spaced own.solid]
      exact walkFrom_cons_iff.mpr ⟨own.read ends, walked⟩
    · rw [List.map_cons, List.map_cons, same, own.text_eq]

/-- **Arguments are read back as they were written**, one after the other and nothing else, whatever
blanks stand between and around them. -/
theorem spread_read (spells : ∀ piece ∈ pieces, Spells piece.said.1 piece.said.2 piece.written)
    (spaced : Spaced pieces) (blank : isBlankText trail = true) : ∃ arguments : List Argument,
      arguments.map (fun argument => (argument.quoted, argument.text)) = pieces.map Placed.said ∧
      first? (spread pieces ++ trail) = .ok arguments[0]? ∧
      ∀ i (inside : i < arguments.length), arguments[i].next? = .ok arguments[i + 1]? := by
  obtain ⟨arguments, walked, same⟩ := walkFrom_spread spells spaced
  refine ⟨arguments, same, walk_eq_iff.mp ?_⟩
  rw [walk, trim_spread spaced (fun piece member => (spells piece member).solid) blank]
  exact walked

end All

/-- A word with a quote inside, a text that ends with a backslash, one with both quotes, and none. -/
def trickyArguments : List (Placed (Bool × List Char)) :=
  [⟨['\t'], (false, "it's".toList), "it's".toList⟩,
    ⟨[' ', '\n'], (true, "a\\".toList), inQuotes .double "a\\".toList⟩,
    ⟨[' '], (true, "'\"\\'".toList), inQuotes .single "'\"\\'".toList⟩,
    ⟨[' '], (true, []), inQuotes .double []⟩]

theorem trickyArguments_read :
    (∀ piece ∈ trickyArguments, Spells piece.said.1 piece.said.2 piece.written) ∧
    Spaced trickyArguments ∧
    spread trickyArguments ++ [' '] = "\tit's \n\"a\\\\\" '\\'\"\\\\\\'' \"\" ".toList ∧
    ∃ arguments : List Argument,
      arguments.map (fun argument => (argument.quoted, argument.text)) =
        [(false, "it's".toList), (true, "a\\".toList), (true, "'\"\\'".toList), (true, [])] ∧
      first? "\tit's \n\"a\\\\\" '\\'\"\\\\\\'' \"\" ".toList = .ok arguments[0]? ∧
      ∀ i (inside : i < arguments.length), arguments[i].next? = .ok arguments[i + 1]? := by
  have spells : ∀ piece ∈ trickyArguments, Spells piece.said.1 piece.said.2 piece.written := by
    simp only [trickyArguments, List.forall_mem_cons]
    exact ⟨.word (by decide) (by simp; decide) (by decide) (by decide), .quoted .double _,
      .quoted .single _, .quoted .double _, by simp⟩
  have spaced : Spaced trickyArguments := ⟨by decide, by decide⟩
  have whole : spread trickyArguments ++ [' '] =
      "\tit's \n\"a\\\\\" '\\'\"\\\\\\'' \"\" ".toList := by decide
  refine ⟨spells, spaced, whole, ?_⟩
  rw [← whole]
  exact spread_read spells spaced rfl

end Stencil.Markup.Argument
