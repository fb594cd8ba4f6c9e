/-
**Tokens are read back as they were written**, each with the byte offset at which it stands.

A token ends at the gap behind it: no name, no number and no operator goes on with a blank. What is
written for a token starts with a character that tells its kind.

* `Token.Spells`: **how a token is written**;
* `readQuoted?_protect`: a protected text is read up to its closing quote;
* `next_word`, `next_number`, `next_symbol`: one token of each kind;
* `next_written`: **a token is read up to the gap behind it**;
* `scan_spread`: **any tokens with gaps between them** are read back, with their offsets.
-/

import Stencil.Proofs.CharacterClasses
import Stencil.Proofs.SlicedTokens
import Stencil.Proofs.WrittenText

namespace Stencil.Formula

open Text

/-! ### How tokens are written -/

/-- The words that are no names. -/
def reserved : List String := ["true", "false", "null", "undefined"]

/-- **Operators and brackets**, with what is written for them. -/
def symbols : List (Token × List Char) :=
  [(.operator .or, ['|', '|']), (.operator .and, ['&', '&']),
    (.operator .equal, ['=', '=']), (.operator .equal, ['=', '=', '=']),
    (.operator .notEqual, ['!', '=']), (.operator .notEqual, ['!', '=', '=']),
    (.operator .less, ['<']), (.operator .lessOrEqual, ['<', '=']),
    (.operator .greater, ['>']), (.operator .greaterOrEqual, ['>', '=']),
    (.operator .add, ['+']), (.operator .subtract, ['-']), (.operator .multiply, ['*']),
    (.operator .divide, ['/']), (.operator .remainder, ['%']),
    (.dot, ['.']), (.openBracket, ['[']), (.closeBracket, [']']), (.openParenthesis, ['(']),
    (.closeParenthesis, [')']), (.question, ['?']), (.colon, [':']), (.not, ['!'])]

/-- **How a token is written.** Integers are written with decimal digits, texts between quotes. -/
inductive Token.Spells : Token → List Char → Prop
  | null {word : String} : word = "null" ∨ word = "undefined" →
      Spells (.literal .null) word.toList
  | bool (b : Bool) : Spells (.literal (.bool b)) (if b then "true" else "false").toList
  | number {n : Nat} : n ≤ Lexeme.maxInteger →
      Spells (.literal (.number (.int n))) (Nat.toDigits 10 n)
  | text (quote : Quote) (content : String) :
      Spells (.literal (.text content)) (inQuotes quote content.toList)
  | name {first : Char} {more : List Char} : isNameStart first = true →
      (∀ c ∈ more, isNamePart c = true) → String.ofList (first :: more) ∉ reserved →
      Spells (.name (String.ofList (first :: more))) (first :: more)
  | symbol {token : Token} {written : List Char} : (token, written) ∈ symbols →
      Spells token written

/-! ### Characters -/

section Characters

variable {c : Char}

theorem isBlank_of_isNamePart (part : isNamePart c = true) : isBlank c = false := by
  by_contra blank
  rw [Bool.not_eq_false] at blank
  simp only [isNamePart, Bool.or_eq_true, decide_eq_true_eq] at part
  rcases part with ((letter | numeral) | rfl) | rfl
  · have other : isAlphabetic c = false := inRanges_apart blank_apart_alphabetic blank
    rw [letter] at other
    cases other
  · have other : isNumeric c = false := inRanges_apart blank_apart_numeric blank
    rw [numeral] at other
    cases other
  · cases blank
  · cases blank

theorem isBlank_of_isDigit (digit : c.isDigit = true) : isBlank c = false :=
  isBlank_of_isNamePart (by rw [isNamePart, isNumeric_of_isDigit digit, Bool.or_true]; rfl)

theorem isNameStart_of_isDigit (digit : c.isDigit = true) : isNameStart c = false := by
  rw [isNameStart, isAlphabetic_of_isDigit digit, Bool.false_or, Bool.or_eq_false_iff,
    decide_eq_false_iff_not, decide_eq_false_iff_not]
  constructor
  · rintro rfl
    cases digit
  · rintro rfl
    cases digit

end Characters

namespace Lexeme

section One

variable {c : Char} {more rest : List Char}

/-! ### One token -/

theorem readQuoted?_plain {quote : Char} (noBackslash : c ≠ '\\') (noQuote : c ≠ quote) :
    readQuoted? quote (c :: rest) = (readQuoted? quote rest).map fun found =>
      (c :: found.1, c.utf8Size + found.2.1, found.2.2) := by
  rw [readQuoted?, if_neg noQuote]
  · exact fun same => absurd same noBackslash
  · exact fun _ _ same => absurd same noBackslash

theorem unescapeChar_guarded {quote : Quote} (guarded : c = '\\' ∨ c = quote.char) :
    unescapeChar c = c := by
  rcases guarded with rfl | rfl
  · rfl
  · cases quote <;> rfl

/-- **A protected text** is read up to its closing quote. -/
theorem readQuoted?_protect (quote : Quote) (text rest : List Char) :
    readQuoted? quote.char (protect quote text ++ quote.char :: rest) =
      some (text, utf8Size (protect quote text ++ [quote.char]), rest) := by
  induction text with
  | nil => cases quote <;> rfl
  | cons c text ih =>
    by_cases guarded : c = '\\' ∨ c = quote.char
    · have backslash : Char.utf8Size '\\' = 1 := rfl
      rw [protect_guarded guarded, List.cons_append, List.cons_append, readQuoted?, ih,
        Option.map_some, unescapeChar_guarded guarded, List.cons_append, List.cons_append,
        utf8Size_cons, utf8Size_cons, backslash, Nat.add_assoc]
    · have ⟨noBackslash, noQuote⟩ := not_or.mp guarded
      rw [protect_plain guarded, List.cons_append, readQuoted?_plain noBackslash noQuote, ih]
      rfl

theorem next_text (quote : Quote) (content : String) (rest : List Char) :
    next quote.char (protect quote content.toList ++ quote.char :: rest) =
      .ok ⟨.literal (.text content), utf8Size (inQuotes quote content.toList), rest⟩ := by
  rw [next, if_pos quote.char_quotes, readQuoted?_protect]
  dsimp only
  rw [String.ofList_toList]
  rfl

/-- **A word** is read up to the gap behind it. -/
theorem next_word (starts : isNameStart c = true) (parts : ∀ d ∈ more, isNamePart d = true)
    (ends : ∀ d ∈ rest.head?, isBlank d = true) : next c (more ++ rest) =
      .ok ⟨ofWord (String.ofList (c :: more)), utf8Size (c :: more), rest⟩ := by
  have noQuote : ¬ (c = '"' ∨ c = '\'') := by
    rintro (rfl | rfl)
    · exact absurd starts (by decide +kernel)
    · exact absurd starts (by decide +kernel)
  have noDigit : ¬ c.isDigit = true := by
    intro digit
    rw [isNameStart_of_isDigit digit] at starts
    cases starts
  have stops := stops_at_gap (fun _ => isBlank_of_isNamePart) ends
  rw [next, if_neg noQuote, if_neg noDigit, if_pos starts,
    takeWhile_stops parts stops, dropWhile_stops parts stops]

/-- **An integer** is read up to the gap behind it. -/
theorem next_number {n : Nat} (small : n ≤ maxInteger) (digits : Nat.toDigits 10 n = c :: more)
    (ends : ∀ d ∈ rest.head?, isBlank d = true) : next c (more ++ rest) =
      .ok ⟨.literal (.number (.int n)), utf8Size (Nat.toDigits 10 n), rest⟩ := by
  have isDigit : ∀ d ∈ c :: more, d.isDigit = true := fun d member =>
    Nat.isDigit_of_mem_toDigits (by decide) (by decide) (digits ▸ member)
  have stops := stops_at_gap (fun _ => isBlank_of_isDigit) ends
  have digit : c.isDigit = true := isDigit c List.mem_cons_self
  have noQuote : ¬ (c = '"' ∨ c = '\'') := by
    rintro (rfl | rfl)
    · cases digit
    · cases digit
  have noFraction : fractionDigits rest = [] := by
    unfold fractionDigits
    split
    · cases ends '.' rfl
    · rfl
  have value : digitsValue (c :: more) = n := by
    rw [← digits]
    exact Nat.ofDigitChars_toDigits (by decide) (by decide)
  have whole : readNumber (c :: more) [] = some (.int n) := by
    rw [readNumber, value, if_pos ⟨rfl, small⟩]
  rw [next, if_neg noQuote, if_pos digit, digits]
  dsimp only
  rw [← List.cons_append, takeWhile_stops isDigit stops,
    dropWhile_stops (fun d member => isDigit d (List.mem_cons_of_mem c member)) stops, noFraction,
    whole, if_pos rfl, List.append_nil]
  rfl

/-- **An operator or a bracket** is read up to the gap behind it: only an equals sign could make it
longer. -/
theorem symbol?_written (noEqual : ∀ after, rest ≠ '=' :: after) : ∀ symbol ∈ symbols,
    symbol? (symbol.2 ++ rest) = some ⟨symbol.1, symbol.2.length, rest⟩ := by
  simp [symbols, symbol?, noEqual]

/-- Operators and brackets are written in ASCII. -/
theorem utf8Size_symbol : ∀ symbol ∈ symbols, utf8Size symbol.2 = symbol.2.length := by
  decide

/-- No operator and no bracket starts like another token, or with a blank. -/
theorem symbols_apart : symbols.all (fun symbol => symbol.2.head?.any fun c =>
    !(isBlank c || c = '"' || c = '\'' || c.isDigit || isNameStart c)) = true := by
  decide +kernel

theorem next_symbol {token : Token} {written : List Char} (known : (token, written) ∈ symbols)
    (ends : ∀ d ∈ rest.head?, isBlank d = true) : ∃ c more, written = c :: more ∧
      isBlank c = false ∧ next c (more ++ rest) = .ok ⟨token, utf8Size written, rest⟩ := by
  have starts := List.all_eq_true.mp symbols_apart _ known
  obtain ⟨c, isHead, apart⟩ := (Option.any_eq_true _ _).mp starts
  obtain ⟨more, rfl⟩ := List.head?_eq_some_iff.mp isHead
  simp only [Bool.not_eq_true', Bool.or_eq_false_iff, decide_eq_false_iff_not] at apart
  obtain ⟨⟨⟨⟨solid, noDouble⟩, noSingle⟩, noDigit⟩, noName⟩ := apart
  have noEqual : ∀ after, rest ≠ '=' :: after := by
    rintro after rfl
    cases ends '=' rfl
  have found : symbol? (c :: (more ++ rest)) = some ⟨token, utf8Size (c :: more), rest⟩ :=
    (symbol?_written noEqual _ known).trans (by rw [utf8Size_symbol _ known])
  refine ⟨c, more, rfl, solid, ?_⟩
  rw [next, if_neg (not_or.mpr ⟨noDouble, noSingle⟩), if_neg (by simp [noDigit]),
    if_neg (by simp [noName]), found]

end One

/-- **A token is read** up to the gap behind it. -/
theorem next_written {token : Token} {written rest : List Char} (spells : token.Spells written)
    (ends : ∀ d ∈ rest.head?, isBlank d = true) : ∃ c more, written = c :: more ∧
      isBlank c = false ∧ next c (more ++ rest) = .ok ⟨token, utf8Size written, rest⟩ := by
  cases spells with
  | null isWord =>
    rcases isWord with rfl | rfl
    · exact ⟨_, _, rfl, by decide, next_word (by decide +kernel)
        (List.all_eq_true.mp (by decide +kernel)) ends⟩
    · exact ⟨_, _, rfl, by decide, next_word (by decide +kernel)
        (List.all_eq_true.mp (by decide +kernel)) ends⟩
  | bool b =>
    cases b
    · exact ⟨_, _, rfl, by decide, next_word (by decide +kernel)
        (List.all_eq_true.mp (by decide +kernel)) ends⟩
    · exact ⟨_, _, rfl, by decide, next_word (by decide +kernel)
        (List.all_eq_true.mp (by decide +kernel)) ends⟩
  | @number n small =>
    obtain ⟨c, more, digits⟩ := List.exists_cons_of_ne_nil (@Nat.toDigits_ne_nil n 10)
    have digit : c.isDigit = true := Nat.isDigit_of_mem_toDigits (by decide) (by decide)
      (digits ▸ List.mem_cons_self)
    exact ⟨c, more, digits, isBlank_of_isDigit digit, next_number small digits ends⟩
  | text quote content =>
    refine ⟨_, _, rfl, quote.char_solid, ?_⟩
    rw [List.append_assoc]
    exact next_text quote content rest
  | @name first more starts parts free =>
    have isName : ofWord (String.ofList (first :: more)) = .name (String.ofList (first :: more)) := by
      simp only [reserved, List.mem_cons, List.not_mem_nil, or_false, not_or] at free
      obtain ⟨noTrue, noFalse, noNull⟩ := free
      rw [ofWord, if_neg noTrue, if_neg noFalse, if_neg (not_or.mpr noNull)]
    refine ⟨first, more, rfl, isBlank_of_isNamePart (isNamePart_of_isNameStart starts), ?_⟩
    rw [next_word starts parts ends, isName]
  | symbol known => exact next_symbol known ends

/-! ### All tokens -/

/-- **The tokens of pieces of writing**, with the offsets at which they stand. -/
def placed (offset : Nat) (pieces : List (Placed Token)) : List Lexeme :=
  pieces.mapIdx fun i piece =>
    ⟨piece.said, offset + utf8Size (spread (pieces.take i) ++ piece.gap)⟩

theorem placed_cons (offset : Nat) (piece : Placed Token) (rest : List (Placed Token)) :
    placed offset (piece :: rest) = ⟨piece.said, offset + utf8Size piece.gap⟩ ::
      placed (offset + utf8Size piece.gap + utf8Size piece.written) rest := by
  rw [placed, List.mapIdx_cons, placed]
  congr 1
  refine congrArg (List.mapIdx · rest) ?_
  funext i other
  simp only [List.take_succ_cons, spread_cons, utf8Size_append, Nat.add_assoc]

theorem scan_gap {gap : List Char} (blank : isBlankText gap = true) (offset : Nat)
    (text : List Char) : scan offset (gap ++ text) = scan (offset + utf8Size gap) text := by
  induction gap generalizing offset with
  | nil => rfl
  | cons c gap ih =>
    rw [isBlankText, List.all_cons, Bool.and_eq_true] at blank
    rw [List.cons_append, scan, if_pos blank.1, ih blank.2, utf8Size_cons, Nat.add_assoc]

/-- **Tokens are read back as they were written**, one after the other and nothing else, each with the
offset at which it stands, whatever blanks stand between and around them. -/
theorem scan_spread {pieces : List (Placed Token)} {trail : List Char}
    (spells : ∀ piece ∈ pieces, piece.said.Spells piece.written) (spaced : Spaced pieces)
    (blank : isBlankText trail = true) (offset : Nat) :
    scan offset (spread pieces ++ trail) = .ok (placed offset pieces) := by
  induction pieces generalizing offset with
  | nil =>
    show scan offset trail = .ok []
    rw [← List.append_nil trail, scan_gap blank, scan]
  | cons piece rest ih =>
    obtain ⟨c, more, isWritten, solid, isNext⟩ :=
      next_written (spells piece List.mem_cons_self) (ends_at_gap spaced blank)
    have later := ih (fun other member => spells other (List.mem_cons_of_mem piece member))
      spaced.tail (offset + utf8Size piece.gap + utf8Size piece.written)
    rw [spread_cons, List.append_assoc, scan_gap (spaced.blank piece List.mem_cons_self),
      List.append_assoc, isWritten, List.cons_append, scan_token solid isNext, later, placed_cons]
    rfl

/-- Tokens of all kinds, with characters of several bytes in names, texts and gaps. -/
def mixedPieces : List (Placed Token) :=
  [⟨[], .name "$\u00e91", "$\u00e91".toList⟩,
    ⟨['\u2003'], .operator .equal, ['=', '=', '=']⟩,
    ⟨[' '], .literal (.text "\u00e9'\\"), inQuotes .single "\u00e9'\\".toList⟩,
    ⟨[' ', '\n'], .not, ['!']⟩,
    ⟨[' '], .literal .null, "undefined".toList⟩,
    ⟨[' '], .literal (.number (.int 9223372036854775807)), Nat.toDigits 10 9223372036854775807⟩]

theorem mixedPieces_read : (∀ piece ∈ mixedPieces, piece.said.Spells piece.written) ∧
    Spaced mixedPieces ∧
    scan 0 "$\u00e91\u2003=== '\u00e9\\'\\\\' \n! undefined 9223372036854775807\t".toList =
      .ok [⟨.name "$\u00e91", 0⟩, ⟨.operator .equal, 7⟩, ⟨.literal (.text "\u00e9'\\"), 11⟩,
        ⟨.not, 21⟩, ⟨.literal .null, 23⟩, ⟨.literal (.number (.int 9223372036854775807)), 33⟩] := by
  have spells : ∀ piece ∈ mixedPieces, piece.said.Spells piece.written := by
    simp only [mixedPieces, List.forall_mem_cons]
    exact ⟨.name (by decide +kernel) (List.all_eq_true.mp (by decide +kernel)) (by decide),
      .symbol (by decide), .text .single _, .symbol (by decide), .null (.inr rfl),
      .number (by decide +kernel), by simp⟩
  have spaced : Spaced mixedPieces := ⟨by decide, by decide⟩
  have whole : spread mixedPieces ++ ['\t'] =
      "$\u00e91\u2003=== '\u00e9\\'\\\\' \n! undefined 9223372036854775807\t".toList := by
    decide +kernel
  refine ⟨spells, spaced, ?_⟩
  rw [← whole, scan_spread spells spaced rfl 0]
  rfl

end Lexeme

end Stencil.Formula
