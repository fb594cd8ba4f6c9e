/-
**Arguments split by byte offsets.**

The arguments of a tag may also be cut out by offsets. That of a closing quote is counted from behind
the opening one, so it is shifted by the two quotes; and what a quoted argument says stands between
the offset one and the one before the last. Since quotes take one byte, these are offsets of
characters.

* `SlicedArgument.read?`, `SlicedArgument.text?`: **arguments on slices**;
* `SlicedArgument.Matches`: an argument on slices is an argument, and its text can be taken;
* `read?_agrees`: **reading by offsets never fails a check** and reads what the running reader reads.
-/

import Stencil.Markup.Argument
import Stencil.Proofs.SlicedTags

namespace Stencil.Markup

open Text

/-- **An argument and the text after it**, on slices. -/
structure SlicedArgument where
  quoted : Bool
  value : Slice
  tail : Slice

namespace SlicedArgument

/-! ### Reading by offsets -/

/-- The offset behind the quote that ends a quoted argument. It is counted from the opening quote, while
`index` is counted from behind it. -/
def closingOffset? (quote : Char) : Bool → Nat → List Char → Option Nat
  | _, _, [] => none
  | escaped, index, c :: rest =>
    if c = '\\' then closingOffset? quote (!escaped) (index + c.utf8Size) rest
    else if c = quote ∧ escaped = false then some (index + 2)
    else closingOffset? quote false (index + c.utf8Size) rest

/-- **The offset behind a quoted argument** that a slice starts with. -/
def endOfString (slice : Slice) (quote : Char) : Scan Nat := do
  let clipped ← slice.after? 1
  match closingOffset? quote false 0 clipped.text with
  | some offset => pure offset
  | none => complain .unterminatedString slice

/-- The offset behind a word that a slice starts with. -/
def endOfWord (slice : Slice) : Nat :=
  utf8Size (slice.text.takeWhile (!isBlank ·))

/-- **The argument that a slice starts with**, if it is not empty. -/
def read? (slice : Slice) : Scan (Option SlicedArgument) :=
  match slice.text with
  | [] => pure none
  | first :: _ =>
    if first = '"' ∨ first = '\'' then do
      let offset ← endOfString slice first
      let value ← slice.before? offset
      let tail ← slice.after? offset
      pure (some ⟨true, value, tail.trimStart⟩)
    else do
      let value ← slice.before? (endOfWord slice)
      let tail ← slice.after? (endOfWord slice)
      pure (some ⟨false, value, tail.trimStart⟩)

/-- The first argument of a tag's content. -/
def first? (content : Slice) : Scan (Option SlicedArgument) :=
  read? content.trim

/-- The argument after this one. -/
def next? (argument : SlicedArgument) : Scan (Option SlicedArgument) :=
  read? argument.tail

/-- **What an argument says**, cut out from between its quotes. -/
def text? (argument : SlicedArgument) : Option (List Char) :=
  if argument.quoted then do
    let last ← minus? argument.value.size 1
    let inner ← argument.value.between? 1 last
    some (Argument.unescape inner.text)
  else some argument.value.text

/-! ### The same arguments -/

/-- **An argument on slices is an argument**, and what it says can be cut out. -/
structure Matches (sliced : SlicedArgument) (argument : Argument) : Prop where
  value : sliced.value.text = argument.value
  tail : sliced.tail.text = argument.tail
  text : sliced.text? = some argument.text

theorem closingOffset?_eq {quote : Char} (single : quote.utf8Size = 1) (escaped : Bool) (index : Nat)
    (content : List Char) :
    closingOffset? quote escaped index content =
      (Argument.endQuote? quote escaped content).map fun found => index + utf8Size found.1 + 1 := by
  induction content generalizing escaped index with
  | nil => rfl
  | cons c rest ih =>
    rw [closingOffset?, Argument.endQuote?]
    by_cases backslash : c = '\\'
    · rw [if_pos backslash, if_pos backslash, ih, Option.map_map]
      simp [Function.comp_def, Nat.add_assoc]
    · rw [if_neg backslash, if_neg backslash]
      by_cases closes : c = quote ∧ escaped = false
      · rw [if_pos closes, if_pos closes, closes.1]
        simp [single]
      · rw [if_neg closes, if_neg closes, ih, Option.map_map]
        simp [Function.comp_def, Nat.add_assoc]

/-- What is read up to a closing quote ends with it. -/
theorem endQuote?_ends {quote : Char} {escaped : Bool} {content inside after : List Char}
    (found : Argument.endQuote? quote escaped content = some (inside, after)) :
    ∃ body, inside = body ++ [quote] := by
  induction content generalizing escaped inside with
  | nil => cases found
  | cons c rest ih =>
    rw [Argument.endQuote?] at found
    split at found
    · obtain ⟨inner, isEnd, pieces⟩ := Option.map_eq_some_iff.mp found
      cases pieces
      obtain ⟨body, isInside⟩ := ih isEnd
      exact ⟨c :: body, congrArg (c :: ·) isInside⟩
    · split at found
      · rename_i closes
        cases found
        exact ⟨[], congrArg (fun d => [d]) closes.1⟩
      · obtain ⟨inner, isEnd, pieces⟩ := Option.map_eq_some_iff.mp found
        cases pieces
        obtain ⟨body, isInside⟩ := ih isEnd
        exact ⟨c :: body, congrArg (c :: ·) isInside⟩

/-- What stands between two quotes can be cut out. -/
theorem text?_quoted {quote : Char} (single : quote.utf8Size = 1) (address : Nat) (body : List Char)
    (tail : Slice) :
    text? ⟨true, ⟨address, quote :: (body ++ [quote])⟩, tail⟩ = some (Argument.unescape body) := by
  have last : minus? (Slice.mk address (quote :: (body ++ [quote]))).size 1 =
      some (1 + utf8Size body) := by
    rw [Slice.size, utf8Size_cons, utf8Size_append, utf8Size_cons, utf8Size_nil, single]
    exact (if_pos (by omega)).trans (congrArg some (by omega))
  have inner : (Slice.mk address (quote :: (body ++ [quote]))).between? 1 (1 + utf8Size body) =
      some ⟨address + 1, body⟩ := by
    have parts : quote :: (body ++ [quote]) = [quote] ++ body ++ [quote] := rfl
    exact Slice.between?_eq parts (by rw [utf8Size_cons, single]; rfl) rfl
  simp only [text?, if_true, last, inner, Option.bind_eq_bind, Option.bind_some]

/-- **Reading by offsets reads what the running reader reads.** -/
theorem read?_agrees (slice : Slice) :
    Agrees Unplaced (Option.Rel Matches) (read? slice) (Argument.read? slice.text) := by
  obtain ⟨address, text⟩ := slice
  cases text with
  | nil => exact Agrees.pure Option.Rel.none
  | cons first rest =>
    simp only [read?, Argument.read?]
    by_cases quoted : first = '"' ∨ first = '\''
    · have single : first.utf8Size = 1 := by rcases quoted with rfl | rfl <;> rfl
      have clipped : (Slice.mk address (first :: rest)).after? 1 = some ⟨address + 1, rest⟩ := by
        have parts : first :: rest = [first] ++ rest := rfl
        exact Slice.after?_eq parts (by rw [utf8Size_cons, single]; rfl)
      rw [if_pos quoted, if_pos quoted, endOfString, lift_bind clipped]
      simp only [closingOffset?_eq single]
      cases found : Argument.endQuote? first false rest with
      | none => exact Agrees.throw rfl
      | some pieces =>
        obtain ⟨inside, after⟩ := pieces
        obtain ⟨body, rfl⟩ := endQuote?_ends found
        have whole : first :: rest = first :: (body ++ [first]) ++ after := by
          rw [Argument.endQuote?_append found]
          rfl
        have offset : utf8Size (first :: (body ++ [first])) =
            0 + utf8Size (body ++ [first]) + 1 := by
          rw [utf8Size_cons, single]
          omega
        simp only [Option.map_some, pure_bind]
        rw [lift_bind (Slice.before?_eq whole offset), lift_bind (Slice.after?_eq whole offset)]
        refine Agrees.pure (Option.Rel.some ⟨rfl, rfl, ?_⟩)
        rw [text?_quoted single, Argument.text]
        simp
    · rw [if_neg quoted, if_neg quoted]
      have whole : first :: rest = (first :: rest).takeWhile (!isBlank ·) ++
          (first :: rest).dropWhile (!isBlank ·) := List.takeWhile_append_dropWhile.symm
      have offset : utf8Size ((first :: rest).takeWhile (!isBlank ·)) =
          endOfWord ⟨address, first :: rest⟩ := rfl
      rw [lift_bind (Slice.before?_eq whole offset), lift_bind (Slice.after?_eq whole offset)]
      exact Agrees.pure (Option.Rel.some ⟨rfl, rfl, rfl⟩)

theorem first?_agrees (content : Slice) :
    Agrees Unplaced (Option.Rel Matches) (first? content) (Argument.first? content.text) := by
  rw [Argument.first?, ← Slice.text_trim]
  exact read?_agrees content.trim

theorem Matches.next?_agrees {sliced : SlicedArgument} {argument : Argument}
    (same : Matches sliced argument) :
    Agrees Unplaced (Option.Rel Matches) sliced.next? argument.next? := by
  rw [Argument.next?, ← same.tail]
  exact read?_agrees sliced.tail

end SlicedArgument

end Stencil.Markup
