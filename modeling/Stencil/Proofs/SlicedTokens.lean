/-
**Tokens split by byte offsets.**

The tokens of an expression may also be cut out of the source by the offsets at which the characters
stand. A character that was looked at ends behind its bytes; where an offset is shifted by one, the
character is a digit or a point. So each part that is taken lies between characters.

* `sliceText`, `sliceDigits`, `sliceWord`: the ends of a quoted text, of a number and of a word;
* `Slice.tokens`: **the tokens of a source, by offsets**;
* `sliceToken_agrees`: each token is the one that the running scanner finds;
* `tokens_eq`: **scanning by offsets never fails a check** and finds the same tokens;
* `scanning_in_bounds`: **no scanner of templates or expressions ever takes a part out of bounds**.
-/

import Mathlib.Data.List.TakeWhile
import Stencil.Formula.Token
import Stencil.Proofs.SlicedParser

namespace Stencil.Formula

open Text

/-- A scanner of an expression, whose checks may fail and which may have no end. -/
abbrev Scan := ExceptT (Cause × Nat) Option

namespace Lexeme

/-! ### Scanning by offsets -/

section Scanners

variable (source : Slice)

/-- Whether `c` is the quote that stands at `start`. -/
def closesAt (start : Nat) (c : Char) : Scan Bool :=
  if c = '"' ∨ c = '\'' then do
    let opened ← source.after? start
    pure (opened.text.head? = some c)
  else pure false

/-- **The inside of a quoted text** that starts at `start`, read up to its closing quote: what it says,
the offset behind that quote, and the text after it. -/
def sliceText (start : Nat) : Nat → List Char → Scan (List Char × Nat × List Char)
  | _, [] => throw (.unterminatedString, start)
  | _, ['\\'] => throw (.unterminatedString, start)
  | index, '\\' :: c :: rest => do
    let found ← sliceText start (index + 1 + c.utf8Size) rest
    pure (unescapeChar c :: found.1, found.2)
  | index, c :: rest => do
    if ← closesAt source start c then pure ([], index + c.utf8Size, rest)
    else
      let found ← sliceText start (index + c.utf8Size) rest
      pure (c :: found.1, found.2)

/-- Whether `c` is the point of a fraction: the first one, and a digit stands behind it. -/
def startsFraction (seen : Bool) (index : Nat) (c : Char) : Scan Bool :=
  if c = '.' ∧ seen = false then do
    let next ← source.after? (index + 1)
    pure (next.text.head?.any Char.isDigit)
  else pure false

/-- **The end of a number**: the offset behind its last character, and the text after it. -/
def sliceDigits : Bool → Nat → Nat → List Char → Scan (Nat × Nat × List Char)
  | _, stop, index, [] => pure (stop, index, [])
  | seen, stop, index, c :: rest => do
    let fraction ← startsFraction source seen index c
    if c.isDigit ∨ fraction then
      sliceDigits (seen || fraction) (index + 1) (index + c.utf8Size) rest
    else pure (stop, index, c :: rest)

/-- **The end of a word**, likewise. -/
def sliceWord : Nat → Nat → List Char → Nat × Nat × List Char
  | stop, index, [] => (stop, index, [])
  | stop, index, c :: rest =>
    if isNamePart c then sliceWord (index + c.utf8Size) (index + c.utf8Size) rest
    else (stop, index, c :: rest)

/-- Goes on by some characters. -/
def skip : Nat → Nat → List Char → Nat × List Char
  | 0, index, rest => (index, rest)
  | _ + 1, index, [] => (index, [])
  | count + 1, index, c :: rest => skip count (index + c.utf8Size) rest

/-- The number that is written in a text of digits with at most one point among them. -/
def parseNumber (text : List Char) : Option Number :=
  readNumber (text.takeWhile Char.isDigit) (fractionDigits (text.dropWhile Char.isDigit))

/-- **The token that starts with `c`** at an offset, the offset behind it and the text after it. -/
def sliceToken (index : Nat) (c : Char) (rest : List Char) : Scan (Token × Nat × List Char) :=
  if c = '"' ∨ c = '\'' then do
    let found ← sliceText source index (index + c.utf8Size) rest
    pure (.literal (.text (String.ofList found.1)), found.2)
  else if c.isDigit then do
    let found ← sliceDigits source false index index (c :: rest)
    let text ← source.between? index found.1
    match parseNumber text.text with
    | none => throw (.invalidNumber (String.ofList text.text), index)
    | some number => pure (.literal (.number number), found.2)
  else if isNameStart c then do
    let found := sliceWord index index (c :: rest)
    let text ← source.between? index found.1
    pure (ofWord (String.ofList text.text), found.2)
  else do
    let text ← source.after? index
    match symbol? text.text with
    | none => throw (.unexpectedCharacter c, index)
    | some piece => pure (piece.token, skip piece.width index (c :: rest))

end Scanners

end Lexeme

end Stencil.Formula

namespace Stencil.Text

/-- **The tokens of a source**, from an offset on. -/
def Slice.tokens (source : Slice) (index : Nat) : List Char → Formula.Scan (List Formula.Lexeme)
  | [] => pure []
  | c :: rest =>
    if isBlank c then source |>.tokens (index + c.utf8Size) rest
    else do
      let found ← Formula.Lexeme.sliceToken source index c rest
      let more ← source |>.tokens found.2.1 found.2.2
      pure (⟨found.1, index⟩ :: more)
partial_fixpoint

end Stencil.Text

namespace Stencil.Formula

open Text

namespace Lexeme

/-! ### The running scanner -/

section Parts

variable {source : Slice} {ahead : List Char}

/-- The end of a quoted text is found by offsets, if the text starts with its quote. -/
theorem sliceText_eq {start : Nat} {quote : Char} {opened : Slice} {inside : List Char}
    (isQuote : quote = '"' ∨ quote = '\'') (isOpened : source.after? start = some opened)
    (starts : opened.text = quote :: inside) (index : Nat) (text : List Char) :
    sliceText source start index text =
      match readQuoted? quote text with
      | none => throw (.unterminatedString, start)
      | some (content, width, after) => pure (content, index + width, after) := by
  have closes : ∀ c, closesAt source start c = pure (decide (c = quote)) := by
    intro c
    unfold closesAt
    split
    · rw [lift_bind isOpened, starts]
      simp [eq_comm]
    · rename_i other
      have differs : c ≠ quote := fun same => other (same ▸ isQuote)
      simp [differs]
  fun_induction readQuoted? quote text generalizing index with
  | case1 => rfl
  | case2 => rfl
  | case3 c rest ih =>
    rw [sliceText, ih]
    cases readQuoted? quote rest with
    | none => rfl
    | some found => simp [Nat.add_assoc]
  | case4 rest notLast notEscape =>
    rw [sliceText, closes]
    · simp
    · exact notLast
    · exact notEscape
  | case5 c rest notLast notEscape differ ih =>
    rw [sliceText, closes, ih]
    · cases readQuoted? quote rest with
      | none => simp [differ]
      | some found => simp [differ, Nat.add_assoc]
    · exact notLast
    · exact notEscape

/-- A quoted text takes the bytes that it is said to take. -/
theorem readQuoted?_taken {quote : Char} {text content after : List Char} {width : Nat}
    (found : readQuoted? quote text = some (content, width, after)) :
    ∃ taken, text = taken ++ after ∧ utf8Size taken = width := by
  fun_induction readQuoted? quote text generalizing content width with
  | case1 => cases found
  | case2 => cases found
  | case3 c rest ih =>
    obtain ⟨inner, isEnd, pieces⟩ := Option.map_eq_some_iff.mp found
    cases pieces
    obtain ⟨taken, whole, size⟩ := ih isEnd
    refine ⟨'\\' :: c :: taken, by rw [whole]; rfl, ?_⟩
    rw [utf8Size_cons, utf8Size_cons, size, ← Nat.add_assoc]
    rfl
  | case4 rest =>
    cases found
    exact ⟨[quote], rfl, rfl⟩
  | case5 c rest notLast notEscape differ ih =>
    obtain ⟨inner, isEnd, pieces⟩ := Option.map_eq_some_iff.mp found
    cases pieces
    obtain ⟨taken, whole, size⟩ := ih isEnd
    exact ⟨c :: taken, by rw [whole]; rfl, by rw [utf8Size_cons, size]⟩

theorem utf8Size_of_isDigit {c : Char} (digit : c.isDigit) : c.utf8Size = 1 := by
  rw [Char.utf8Size_eq_one_iff]
  simp only [Char.isDigit, Bool.and_eq_true, decide_eq_true_eq] at digit
  exact UInt32.le_trans digit.2 (by decide)

/-- Behind a point only digits follow. -/
theorem sliceDigits_seen (index : Nat) (text : List Char) :
    sliceDigits source true index index text =
      pure (index + utf8Size (text.takeWhile Char.isDigit),
        index + utf8Size (text.takeWhile Char.isDigit), text.dropWhile Char.isDigit) := by
  induction text generalizing index with
  | nil => rfl
  | cons c rest ih =>
    rw [sliceDigits, startsFraction, if_neg (by simp)]
    by_cases digit : c.isDigit
    · rw [pure_bind, if_pos (Or.inl digit), utf8Size_of_isDigit digit, Bool.or_false, ih,
        List.takeWhile_cons_of_pos digit, List.dropWhile_cons_of_pos digit, utf8Size_cons,
        utf8Size_of_isDigit digit, Nat.add_assoc]
    · rw [pure_bind, if_neg (by simpa using digit), List.takeWhile_cons_of_neg digit,
        List.dropWhile_cons_of_neg digit]
      rfl

/-- The characters of the number that a text starts with. -/
def numberText (text : List Char) : List Char :=
  let fraction := fractionDigits (text.dropWhile Char.isDigit)
  text.takeWhile Char.isDigit ++ if fraction = [] then [] else '.' :: fraction

theorem numberText_digit {c : Char} (digit : c.isDigit) (rest : List Char) :
    numberText (c :: rest) = c :: numberText rest := by
  rw [numberText, List.takeWhile_cons_of_pos digit, List.dropWhile_cons_of_pos digit]
  rfl

theorem numberText_other {c : Char} (other : ¬ c.isDigit) (noPoint : c ≠ '.') (rest : List Char) :
    numberText (c :: rest) = [] := by
  have noFraction : fractionDigits (c :: rest) = [] := by
    unfold fractionDigits
    split
    · rename_i same
      exact absurd (List.cons.inj same).1 noPoint
    · rfl
  rw [numberText, List.takeWhile_cons_of_neg other, List.dropWhile_cons_of_neg other, noFraction]
  rfl

theorem numberText_point (rest : List Char) :
    numberText ('.' :: rest) =
      if rest.head?.any Char.isDigit then '.' :: rest.takeWhile Char.isDigit else [] := by
  have noDigit : ¬ ('.' : Char).isDigit := by decide
  rw [numberText, List.takeWhile_cons_of_neg noDigit, List.dropWhile_cons_of_neg noDigit]
  cases rest with
  | nil => rfl
  | cons c rest =>
    by_cases digit : c.isDigit
    · simp [fractionDigits, digit]
    · simp [fractionDigits, digit]

theorem numberText_of_digit {c : Char} (digit : c.isDigit) (rest : List Char) :
    numberText (c :: rest) = (c :: rest).takeWhile Char.isDigit ++
      if fractionDigits (rest.dropWhile Char.isDigit) = [] then []
      else '.' :: fractionDigits (rest.dropWhile Char.isDigit) := by
  rw [numberText, List.dropWhile_cons_of_pos digit]

/-- What stands behind a number is left when its digits are dropped, and then its fraction. -/
theorem drop_fraction {c : Char} {rest after : List Char} (digit : c.isDigit)
    (parts : c :: rest = numberText (c :: rest) ++ after) :
    (rest.dropWhile Char.isDigit).drop (if fractionDigits (rest.dropWhile Char.isDigit) = [] then []
      else '.' :: fractionDigits (rest.dropWhile Char.isDigit)).length = after := by
  have split : (c :: rest).takeWhile Char.isDigit ++ rest.dropWhile Char.isDigit = c :: rest := by
    rw [← List.dropWhile_cons_of_pos digit]
    exact List.takeWhile_append_dropWhile
  rw [numberText_of_digit digit, List.append_assoc] at parts
  exact (congrArg (List.drop _) (List.append_cancel_left (split.trans parts))).trans List.drop_left

/-- **The end of a number is found by offsets.** -/
theorem sliceDigits_eq {text : List Char} (whole : source.text = ahead ++ text) :
    ∃ rest, text = numberText text ++ rest ∧
      sliceDigits source false (utf8Size ahead) (utf8Size ahead) text =
        pure (utf8Size ahead + utf8Size (numberText text),
          utf8Size ahead + utf8Size (numberText text), rest) := by
  induction text generalizing ahead with
  | nil => exact ⟨[], rfl, rfl⟩
  | cons c rest ih =>
    by_cases digit : c.isDigit
    · have noPoint : c ≠ '.' := by
        rintro rfl
        exact absurd digit (by decide)
      obtain ⟨after, parts, ends⟩ := ih (whole.trans (List.append_cons ahead c rest))
      refine ⟨after, by rw [numberText_digit digit, List.cons_append, ← parts], ?_⟩
      rw [utf8Size_append, utf8Size_cons, utf8Size_nil, utf8Size_of_isDigit digit,
        Nat.add_zero] at ends
      rw [sliceDigits, startsFraction, if_neg (fun point => noPoint point.1), pure_bind,
        if_pos (Or.inl digit), utf8Size_of_isDigit digit, Bool.or_false, ends,
        numberText_digit digit, utf8Size_cons, utf8Size_of_isDigit digit]
      simp only [Nat.add_assoc]
    · by_cases point : c = '.'
      · subst point
        have next : source.after? (utf8Size ahead + 1) =
            some ⟨source.address + (utf8Size ahead + 1), rest⟩ :=
          Slice.after?_eq (whole.trans (List.append_cons ahead '.' rest)) (utf8Size_append _ _)
        rw [sliceDigits, startsFraction, if_pos ⟨rfl, rfl⟩, lift_bind next, numberText_point]
        simp only [pure_bind, Bool.false_or]
        by_cases digits : rest.head?.any Char.isDigit
        · have size : utf8Size ahead + ('.' : Char).utf8Size = utf8Size ahead + 1 := rfl
          refine ⟨rest.dropWhile Char.isDigit, ?_, ?_⟩
          · rw [if_pos digits, List.cons_append, List.takeWhile_append_dropWhile]
          · rw [if_pos (Or.inr digits), if_pos digits, digits, size, sliceDigits_seen, utf8Size_cons,
              ← Nat.add_assoc, size]
        · have noDigit : ¬ (('.' : Char).isDigit ∨ rest.head?.any Char.isDigit) := by
            simpa using digits
          refine ⟨'.' :: rest, by rw [if_neg digits]; rfl, ?_⟩
          rw [if_neg noDigit, if_neg digits]
          rfl
      · refine ⟨c :: rest, by rw [numberText_other digit point]; rfl, ?_⟩
        rw [sliceDigits, startsFraction, if_neg (fun both => point both.1), pure_bind,
          if_neg (by simpa using digit), numberText_other digit point]
        rfl

/-- **The number is read off its characters** as it is read off the text. -/
theorem parseNumber_numberText (text : List Char) :
    parseNumber (numberText text) = readNumber (text.takeWhile Char.isDigit)
      (fractionDigits (text.dropWhile Char.isDigit)) := by
  have digits : ∀ c ∈ text.takeWhile Char.isDigit, c.isDigit := fun c => List.mem_takeWhile_imp
  have again : ∀ text : List Char, (fractionDigits text).takeWhile Char.isDigit =
      fractionDigits text := by
    intro text
    unfold fractionDigits
    split
    · exact List.takeWhile_idem
    · rfl
  rw [parseNumber, numberText, List.takeWhile_append_of_pos digits,
    List.dropWhile_append_of_pos digits]
  by_cases whole : fractionDigits (text.dropWhile Char.isDigit) = []
  · rw [if_pos whole, whole]
    simp [fractionDigits]
  · have noDigit : ¬ ('.' : Char).isDigit := by decide
    rw [if_neg whole, List.takeWhile_cons_of_neg noDigit, List.dropWhile_cons_of_neg noDigit,
      List.append_nil, fractionDigits, again]

/-- The end of a word is found by offsets. -/
theorem sliceWord_eq (index : Nat) (text : List Char) :
    sliceWord index index text = (index + utf8Size (text.takeWhile isNamePart),
      index + utf8Size (text.takeWhile isNamePart), text.dropWhile isNamePart) := by
  induction text generalizing index with
  | nil => rfl
  | cons c rest ih =>
    rw [sliceWord]
    by_cases part : isNamePart c
    · rw [if_pos part, ih, List.takeWhile_cons_of_pos part, List.dropWhile_cons_of_pos part,
        utf8Size_cons, Nat.add_assoc]
    · rw [if_neg part, List.takeWhile_cons_of_neg part, List.dropWhile_cons_of_neg part]
      rfl

theorem isNamePart_of_isNameStart {c : Char} (starts : isNameStart c) : isNamePart c := by
  simp only [isNameStart, isNamePart, Bool.or_eq_true] at starts ⊢
  tauto

/-- **An operator or bracket** takes as many bytes as characters. -/
theorem symbol?_taken {text : List Char} {piece : Piece} (found : symbol? text = some piece) :
    ∃ taken, text = taken ++ piece.rest ∧ taken.length = piece.width ∧
      utf8Size taken = piece.width := by
  refine ⟨text.take piece.width, ?_⟩
  unfold symbol? at found
  split at found <;> cases found <;> exact ⟨rfl, rfl, rfl⟩

theorem skip_append (index : Nat) (taken rest : List Char) :
    skip taken.length index (taken ++ rest) = (index + utf8Size taken, rest) := by
  induction taken generalizing index with
  | nil => rfl
  | cons c taken ih =>
    rw [List.length_cons, List.cons_append, skip, ih, utf8Size_cons, Nat.add_assoc]

/-- **A token that is found by offsets** is the one that the running scanner finds, and its parts are
taken between characters. -/
theorem sliceToken_agrees {c : Char} {rest : List Char} (whole : source.text = ahead ++ c :: rest) :
    Agrees (fun cause error => error = (cause, utf8Size ahead))
      (fun found piece => found = (piece.token, utf8Size ahead + piece.width, piece.rest) ∧
        ∃ taken, c :: rest = taken ++ piece.rest ∧ utf8Size taken = piece.width)
      (sliceToken source (utf8Size ahead) c rest) (next c rest) := by
  have opened : source.after? (utf8Size ahead) =
      some ⟨source.address + utf8Size ahead, c :: rest⟩ := Slice.after?_eq whole rfl
  unfold sliceToken next
  by_cases quote : c = '"' ∨ c = '\''
  · rw [if_pos quote, if_pos quote, sliceText_eq quote opened rfl]
    cases found : readQuoted? c rest with
    | none => exact Agrees.throw rfl
    | some pieces =>
      obtain ⟨content, width, after⟩ := pieces
      obtain ⟨taken, parts, size⟩ := readQuoted?_taken found
      refine Agrees.pure ⟨?_, c :: taken, by rw [parts]; rfl, by rw [utf8Size_cons, size]⟩
      rw [Nat.add_assoc]
  · rw [if_neg quote, if_neg quote]
    by_cases digit : c.isDigit
    · obtain ⟨after, parts, ends⟩ := sliceDigits_eq whole
      have number : source.between? (utf8Size ahead)
          (utf8Size ahead + utf8Size (numberText (c :: rest))) = some ⟨_, numberText (c :: rest)⟩ :=
        Slice.between?_eq (whole.trans (by rw [List.append_assoc, ← parts])) rfl rfl
      rw [if_pos digit, if_pos digit, ends, pure_bind, lift_bind number]
      have behind := drop_fraction digit parts
      simp only [parseNumber_numberText, List.dropWhile_cons_of_pos digit, behind,
        ← numberText_of_digit digit]
      cases readNumber ((c :: rest).takeWhile Char.isDigit)
          (fractionDigits (rest.dropWhile Char.isDigit)) with
      | none => exact Agrees.throw rfl
      | some number => exact Agrees.pure ⟨rfl, _, parts, rfl⟩
    · rw [if_neg digit, if_neg digit]
      by_cases name : isNameStart c
      · have part := isNamePart_of_isNameStart name
        have parts : c :: rest = c :: rest.takeWhile isNamePart ++ rest.dropWhile isNamePart :=
          (congrArg (c :: ·) List.takeWhile_append_dropWhile).symm
        have word : source.between? (utf8Size ahead)
            (utf8Size ahead + utf8Size (c :: rest.takeWhile isNamePart)) =
              some ⟨_, c :: rest.takeWhile isNamePart⟩ :=
          Slice.between?_eq (whole.trans (by rw [List.append_assoc, ← parts])) rfl rfl
        rw [if_pos name, if_pos name, sliceWord_eq, List.takeWhile_cons_of_pos part,
          List.dropWhile_cons_of_pos part]
        simp only
        rw [lift_bind word]
        exact Agrees.pure ⟨rfl, _, parts, rfl⟩
      · rw [if_neg name, if_neg name, lift_bind opened]
        cases found : symbol? (c :: rest) with
        | none => exact Agrees.throw rfl
        | some piece =>
          obtain ⟨taken, parts, count, size⟩ := symbol?_taken found
          refine Agrees.pure ⟨?_, taken, parts, size⟩
          rw [← count, parts, skip_append, size, count]

/-- **The tokens that are found by offsets** are those that the running scanner finds. -/
theorem tokens_eq {text : List Char} (whole : source.text = ahead ++ text) :
    (source.tokens (utf8Size ahead) text).run = some (scan (utf8Size ahead) text) := by
  -- a token takes a character at least, so the text behind it is shorter
  induction size : text.length using Nat.strong_induction_on generalizing ahead text with
  | _ length ih =>
    cases text with
    | nil =>
      rw [Slice.tokens, scan]
      rfl
    | cons c rest =>
      rw [Slice.tokens, scan]
      by_cases blank : isBlank c
      · have offset : utf8Size (ahead ++ [c]) = utf8Size ahead + c.utf8Size := utf8Size_append _ _
        rw [if_pos blank, if_pos blank, ← offset]
        exact ih rest.length (size ▸ Nat.lt_succ_self _)
          (whole.trans (List.append_cons ahead c rest)) rfl
      · rw [if_neg blank, if_neg blank]
        have agrees := sliceToken_agrees whole
        split
        · rename_i cause failed
          rw [failed] at agrees
          obtain ⟨_, ran, rfl⟩ := agrees
          exact run_bind_of_error ran _
        · rename_i piece found
          rw [found] at agrees
          obtain ⟨_, ran, rfl, taken, parts, width⟩ := agrees
          have offset : utf8Size (ahead ++ taken) = utf8Size ahead + piece.width := by
            rw [utf8Size_append, width]
          have shorter : piece.rest.length < length := size ▸ next_shorter found
          have more := ih piece.rest.length shorter
            (whole.trans (by rw [parts, List.append_assoc])) rfl
          rw [offset] at more
          rw [run_bind_of_ok ran]
          cases later : scan (utf8Size ahead + piece.width) piece.rest with
          | error fault =>
            rw [later] at more
            exact run_bind_of_error more _
          | ok tokens =>
            rw [later] at more
            exact run_bind_of_ok more _

end Parts

end Lexeme

end Stencil.Formula

namespace Stencil

open Formula (Lexeme)
open Markup (Argument Cause Fault Located Node SlicedArgument SlicedTag Tag Unplaced)
open Text (Agrees Slice)

/-- **No scanner ever takes a part out of bounds, or inside a character, or subtracts below zero.** This
holds of the parser of templates on every source, of the splitter of tags and of the reader of arguments
on every text, and of the scanner of expressions on every source; and each of them answers what the
running one answers. What an argument says can be cut out of it (`SlicedArgument.Matches`), and so can what a
message quotes. -/
theorem scanning_in_bounds :
    (∀ (source : String) (address : Nat), Agrees (Located ⟨address, source.toList⟩)
      (fun found nodes => found = nodes) (Markup.parseSlice ⟨address, source.toList⟩)
      (Node.parse source)) ∧
    (∀ text : Slice, Agrees Unplaced (Option.Rel (SlicedTag.Reads text text.address))
      (SlicedTag.first? text) (Tag.first? text.text)) ∧
    (∀ text : Slice, Agrees Unplaced (Option.Rel SlicedArgument.Matches)
      (SlicedArgument.read? text) (Argument.read? text.text)) ∧
    (∀ (cause : Cause) (near : Slice), (Markup.excerpt? cause near).map (Option.map Slice.text) =
      some (Fault.excerpt ⟨cause, near.text⟩)) ∧
    ∀ (source : String) (address : Nat),
      (Slice.tokens ⟨address, source.toList⟩ 0 source.toList).run =
        some (Lexeme.scan 0 source.toList) :=
  ⟨fun source address => Markup.parseSlice_agrees address source,
    fun text => SlicedTag.first?_agrees (Text.StandsAt.whole text), SlicedArgument.read?_agrees,
    Markup.excerpt?_eq, fun _ _ => Lexeme.tokens_eq (List.nil_append _).symm⟩

end Stencil
