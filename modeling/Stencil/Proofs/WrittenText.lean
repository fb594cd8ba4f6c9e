/-
**Texts as somebody writes them**: between quotes, and one behind the other with gaps.

* `protect`, `inQuotes`: a text between quotes, with a backslash before what must not stand there;
* `Solid`: texts with no blank at either end;
* `Placed`, `spread`, `Spaced`: **pieces of writing behind gaps**, which are blanks;
* `ends_at_gap`, `stops_at_gap`: behind a piece stands a gap, or the end, and there a word ends;
* `trim_spread`: trimming takes off the first gap and the blanks behind the last piece.
-/

import Stencil.Proofs.Cutting

namespace Stencil.Text

/-! ### Quotes -/

/-- **The quotes** that a text may stand between. -/
inductive Quote
  | single
  | double
  deriving DecidableEq, Repr

/-- The character of a quote. -/
def Quote.char : Quote → Char
  | .single => '\''
  | .double => '"'

/-- **A text with a backslash before each backslash and each quote** of the kind around it. -/
def protect (quote : Quote) (text : List Char) : List Char :=
  text.flatMap fun c => if c = '\\' ∨ c = quote.char then ['\\', c] else [c]

/-- **A text between quotes.** -/
def inQuotes (quote : Quote) (text : List Char) : List Char :=
  quote.char :: (protect quote text ++ [quote.char])

example : inQuotes .single "it's \\ \"".toList = "'it\\'s \\\\ \"'".toList := by decide

section Protect

variable {quote : Quote} {c : Char}

theorem Quote.char_ne_backslash (quote : Quote) : quote.char ≠ '\\' := by
  cases quote <;> decide

theorem Quote.char_solid (quote : Quote) : isBlank quote.char = false := by
  cases quote <;> decide

theorem Quote.char_quotes (quote : Quote) : quote.char = '"' ∨ quote.char = '\'' := by
  cases quote <;> simp [Quote.char]

theorem protect_guarded (guarded : c = '\\' ∨ c = quote.char) (text : List Char) :
    protect quote (c :: text) = '\\' :: c :: protect quote text := by
  rw [protect, List.flatMap_cons, if_pos guarded]
  rfl

theorem protect_plain (plain : ¬ (c = '\\' ∨ c = quote.char)) (text : List Char) :
    protect quote (c :: text) = c :: protect quote text := by
  rw [protect, List.flatMap_cons, if_neg plain]
  rfl

end Protect

/-! ### Pieces behind gaps -/

/-- **A text with no blank at either end**, and not empty. -/
structure Solid (text : List Char) : Prop where
  nonempty : text ≠ []
  starts : trimStart text = text
  finishes : trimEnd text = text

/-- **Something that is written behind a gap.** -/
structure Placed (α : Type) where
  gap : List Char
  said : α
  written : List Char

/-- Pieces of writing, one behind the other. -/
def spread {α : Type} (pieces : List (Placed α)) : List Char :=
  pieces.flatMap fun piece => piece.gap ++ piece.written

/-- **The gaps are blanks**, and only the first may be empty. -/
structure Spaced {α : Type} (pieces : List (Placed α)) : Prop where
  blank : ∀ piece ∈ pieces, isBlankText piece.gap = true
  apart : ∀ piece ∈ pieces.tail, piece.gap ≠ []

section Pieces

variable {α : Type} {pieces rest : List (Placed α)} {piece : Placed α} {trail : List Char}

theorem spread_cons (piece : Placed α) (rest : List (Placed α)) :
    spread (piece :: rest) = piece.gap ++ (piece.written ++ spread rest) :=
  List.append_assoc piece.gap piece.written (spread rest)

theorem Spaced.tail (spaced : Spaced (piece :: rest)) : Spaced rest where
  blank other member := spaced.blank other (List.mem_cons_of_mem piece member)
  apart other member := spaced.apart other (List.mem_of_mem_tail member)

/-- **Behind a piece** stands a gap, or the end. -/
theorem ends_at_gap (spaced : Spaced (piece :: rest)) (blank : isBlankText trail = true) :
    ∀ c ∈ (spread rest ++ trail).head?, isBlank c = true := by
  intro c first
  cases rest with
  | nil => exact List.all_eq_true.mp blank c (List.mem_of_mem_head? first)
  | cons next rest =>
    have filled := spaced.apart next List.mem_cons_self
    rw [spread_cons, List.append_assoc, List.head?_append_of_ne_nil _ filled] at first
    exact List.all_eq_true.mp (spaced.tail.blank next List.mem_cons_self) c
      (List.mem_of_mem_head? first)

/-- What is never blank goes on no further than to the next gap. -/
theorem stops_at_gap {test : Char → Bool} (solid : ∀ c, test c = true → isBlank c = false)
    {rest : List Char} (ends : ∀ c ∈ rest.head?, isBlank c = true) :
    ∀ c ∈ rest.head?, test c = false := by
  intro c first
  by_contra holds
  have notBlank := solid c (by simpa using holds)
  rw [ends c first] at notBlank
  cases notBlank

theorem trimStart_append_of_blank {gap : List Char} (blank : isBlankText gap = true)
    (text : List Char) : trimStart (gap ++ text) = trimStart text :=
  List.dropWhile_append_of_pos (List.all_eq_true.mp blank)

/-- Trimming at the start takes off the first gap. -/
theorem trimStart_spread (spaced : Spaced (piece :: rest)) (solid : Solid piece.written) :
    trimStart (spread (piece :: rest)) = piece.written ++ spread rest := by
  rw [spread_cons, trimStart_append_of_blank (spaced.blank piece List.mem_cons_self)]
  exact trimStart_append solid.starts solid.nonempty (spread rest)

/-- A text with a solid ending keeps it when more pieces follow. -/
theorem trimEnd_spread (solid : ∀ piece ∈ pieces, Solid piece.written) {lead : List Char}
    (finishes : trimEnd lead = lead) : trimEnd (lead ++ spread pieces) = lead ++ spread pieces := by
  induction pieces generalizing lead with
  | nil =>
    show trimEnd (lead ++ []) = lead ++ []
    rw [List.append_nil, finishes]
  | cons piece rest ih =>
    have own := solid piece List.mem_cons_self
    have longer : trimEnd (lead ++ piece.gap ++ piece.written) = lead ++ piece.gap ++ piece.written :=
      trimEnd_append own.finishes own.nonempty (lead ++ piece.gap)
    have whole := ih (fun other member => solid other (List.mem_cons_of_mem piece member)) longer
    simpa only [spread_cons, List.append_assoc] using whole

/-- **Trimming takes off the first gap** and the blanks behind the last piece. -/
theorem trim_spread (spaced : Spaced pieces) (solid : ∀ piece ∈ pieces, Solid piece.written)
    (blank : isBlankText trail = true) : trim (spread pieces ++ trail) = trimStart (spread pieces) := by
  cases pieces with
  | nil => exact trim_eq_nil_iff.mpr blank
  | cons piece rest =>
    have own := solid piece List.mem_cons_self
    have kept := trimEnd_spread (fun other member => solid other (List.mem_cons_of_mem piece member))
      own.finishes
    have start : trimStart (spread (piece :: rest) ++ trail) =
        piece.written ++ spread rest ++ trail := by
      rw [spread_cons, List.append_assoc,
        trimStart_append_of_blank (spaced.blank piece List.mem_cons_self), List.append_assoc]
      exact trimStart_append own.starts own.nonempty (spread rest ++ trail)
    rw [trimStart_spread spaced own, trim, start,
      trimEnd_append_blanks (List.all_eq_true.mp blank), kept]

end Pieces

end Stencil.Text
