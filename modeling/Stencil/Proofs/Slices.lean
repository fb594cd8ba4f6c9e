/-
**Slices by byte offsets, and what goes wrong with them.**

The scanners may also be described on slices: a slice is a piece of a source at an address in memory,
and parts of it are taken by byte offsets that were computed before. Taking a part fails if an offset
lies beyond the end or inside a character, and subtracting fails if the result is less than zero.

* `splitBytes?`: a text split at a byte offset; `splitBytes?_isSome_iff`: **that is possible exactly at
  the valid positions of a string**;
* `Slice`: a piece of a source, with its parts by offsets;
* `Slice.locate?`, `locate?_of_stands`: **the position of a slice**, by comparing addresses;
* `Agrees`: **a checked scanner never fails a check** and answers what an unchecked one answers, with
  rules for sequences.
-/

import Stencil.Proofs.Cutting
import Stencil.Text.Position

namespace Stencil.Text

/-! ### Byte offsets -/

/-- **A text split at a byte offset**, which must be that of a character or of the end. -/
def splitBytes? : Nat → List Char → Option (List Char × List Char)
  | 0, text => some ([], text)
  | _ + 1, [] => none
  | offset + 1, c :: rest =>
    if c.utf8Size ≤ offset + 1 then
      (splitBytes? (offset + 1 - c.utf8Size) rest).map fun pieces => (c :: pieces.1, pieces.2)
    else none

theorem splitBytes?_append (before after : List Char) :
    splitBytes? (utf8Size before) (before ++ after) = some (before, after) := by
  induction before with
  | nil => cases after <;> rfl
  | cons c before ih =>
    have positive : 0 < c.utf8Size := c.utf8Size_pos
    obtain ⟨offset, size⟩ : ∃ offset, utf8Size (c :: before) = offset + 1 :=
      ⟨utf8Size (c :: before) - 1, by rw [utf8Size_cons]; omega⟩
    have fits : c.utf8Size ≤ offset + 1 := by
      rw [← size, utf8Size_cons]
      omega
    rw [size, List.cons_append, splitBytes?, if_pos fits, ← size, utf8Size_cons,
      Nat.add_sub_cancel_left, ih]
    rfl

/-- **A split at a byte offset** takes as many bytes as the offset says. -/
theorem splitBytes?_eq_some_iff {offset : Nat} {text before after : List Char} :
    splitBytes? offset text = some (before, after) ↔
      text = before ++ after ∧ utf8Size before = offset := by
  constructor
  · intro split
    fun_induction splitBytes? offset text generalizing before with
    | case1 text =>
      cases split
      exact ⟨rfl, rfl⟩
    | case2 => cases split
    | case3 offset c rest fits ih =>
      obtain ⟨pieces, inner, made⟩ := Option.map_eq_some_iff.mp split
      cases made
      obtain ⟨whole, size⟩ := ih inner
      exact ⟨by rw [whole, List.cons_append], by rw [utf8Size_cons, size]; omega⟩
    | case4 => cases split
  · rintro ⟨rfl, rfl⟩
    exact splitBytes?_append before after

example : splitBytes? 2 ['ä', 'b'] = some (['ä'], ['b']) ∧ splitBytes? 1 ['ä', 'b'] = none := by
  decide

theorem utf8ByteSize_ofList (text : List Char) :
    (String.ofList text).utf8ByteSize = utf8Size text := by
  induction text with
  | nil => rfl
  | cons c text ih => simp [ih]

/-- **A text can be split exactly at the valid positions of the string**: those that lie within its
bytes and between its characters. -/
theorem splitBytes?_isSome_iff {offset : Nat} {text : String} :
    (splitBytes? offset text.toList).isSome ↔ String.Pos.Raw.IsValid text ⟨offset⟩ := by
  rw [String.Pos.Raw.isValid_iff_exists_append, Option.isSome_iff_exists]
  constructor
  · rintro ⟨⟨before, after⟩, split⟩
    obtain ⟨whole, size⟩ := splitBytes?_eq_some_iff.mp split
    refine ⟨String.ofList before, String.ofList after, ?_, ?_⟩
    · rw [← String.ofList_append, ← whole, String.ofList_toList]
    · rw [String.rawEndPos, utf8ByteSize_ofList, size]
  · rintro ⟨before, after, rfl, isEnd⟩
    refine ⟨(before.toList, after.toList), splitBytes?_eq_some_iff.mpr ⟨String.toList_append, ?_⟩⟩
    rw [← utf8ByteSize_ofList, String.ofList_toList]
    exact (congrArg String.Pos.Raw.byteIdx isEnd).symm

/-- A subtraction that must not go below zero. -/
def minus? (total part : Nat) : Option Nat :=
  if part ≤ total then some (total - part) else none

/-- The bytes without a last character that takes one. -/
theorem minus?_concat {last : Char} (single : last.utf8Size = 1) (text : List Char) :
    minus? (utf8Size (text ++ [last])) 1 = some (utf8Size text) := by
  have size : utf8Size (text ++ [last]) = utf8Size text + 1 := by
    rw [utf8Size_append, utf8Size_cons, single]
    rfl
  rw [size]
  exact if_pos (Nat.le_add_left 1 _)

/-! ### Slices -/

/-- **A piece of a source**: the address of its first byte, and its characters. -/
structure Slice where
  address : Nat
  text : List Char
  deriving DecidableEq, Repr

namespace Slice

/-- The bytes that a slice takes. -/
def size (slice : Slice) : Nat :=
  utf8Size slice.text

/-- The slice before an offset. -/
def before? (slice : Slice) (offset : Nat) : Option Slice :=
  (splitBytes? offset slice.text).map fun pieces => ⟨slice.address, pieces.1⟩

/-- The slice from an offset on. -/
def after? (slice : Slice) (offset : Nat) : Option Slice :=
  (splitBytes? offset slice.text).map fun pieces => ⟨slice.address + offset, pieces.2⟩

/-- The slice between two offsets. -/
def between? (slice : Slice) (first last : Nat) : Option Slice :=
  (slice.before? last).bind fun part => part.after? first

/-- The offset at which a mark occurs first. -/
def find? (mark : List Char) (slice : Slice) : Option Nat :=
  (cut mark slice.text).map fun pieces => utf8Size pieces.1

/-- The slice behind a mark that it starts with. -/
def strip? (mark : List Char) (slice : Slice) : Option Slice :=
  (mark.isPrefixOf? slice.text).map fun rest => ⟨slice.address + utf8Size mark, rest⟩

/-- The slice without the blanks it starts with. -/
def trimStart (slice : Slice) : Slice :=
  ⟨slice.address + utf8Size (slice.text.takeWhile isBlank), Text.trimStart slice.text⟩

/-- The slice without the blanks it ends with. -/
def trimEnd (slice : Slice) : Slice :=
  ⟨slice.address, Text.trimEnd slice.text⟩

/-- The slice without the blanks at either end; of blanks only, its empty start is left. -/
def trim (slice : Slice) : Slice :=
  if isBlankText slice.text then ⟨slice.address, []⟩ else slice.trimStart.trimEnd

/-- The first characters of a slice, at most so many. -/
def firstChars? (count : Nat) (slice : Slice) : Option Slice :=
  if count < slice.text.length then slice.before? (utf8Size (slice.text.take count)) else some slice

/-- The last characters of a slice, at most so many. -/
def lastChars? (count : Nat) (slice : Slice) : Option Slice :=
  if count < slice.text.length then do
    let skipped ← minus? slice.text.length count
    slice.after? (utf8Size (slice.text.take skipped))
  else some slice

/-- **The position of a slice of a source**: its address is compared with the bounds of the source. -/
def locate? (source slice : Slice) : Option Position :=
  if source.address ≤ slice.address ∧ slice.address ≤ source.address + source.size then
    some (Position.ofOffset source.text (slice.address - source.address))
  else none

section Parts

variable {slice : Slice} {first second third : List Char} {offset start : Nat}

/-- The part before an offset at which a part ends. -/
theorem before?_eq (whole : slice.text = first ++ second) (size : utf8Size first = offset) :
    slice.before? offset = some ⟨slice.address, first⟩ := by
  rw [before?, splitBytes?_eq_some_iff.mpr ⟨whole, size⟩]
  rfl

/-- The part from an offset at which a part ends. -/
theorem after?_eq (whole : slice.text = first ++ second) (size : utf8Size first = offset) :
    slice.after? offset = some ⟨slice.address + offset, second⟩ := by
  rw [after?, splitBytes?_eq_some_iff.mpr ⟨whole, size⟩]
  rfl

/-- The part between two such offsets. -/
theorem between?_eq (whole : slice.text = first ++ second ++ third) (begins : utf8Size first = start)
    (ends : start + utf8Size second = offset) :
    slice.between? start offset = some ⟨slice.address + start, second⟩ := by
  have size : utf8Size (first ++ second) = offset := by rw [utf8Size_append, begins, ends]
  rw [between?, before?_eq whole size]
  exact after?_eq rfl begins

theorem strip?_eq_none {mark : List Char} (other : ∀ rest, slice.text ≠ mark ++ rest) :
    slice.strip? mark = none := by
  rw [strip?, Option.map_eq_none_iff, Option.eq_none_iff_forall_ne_some]
  exact fun rest starts => other rest (isPrefixOf?_eq_some starts)

theorem text_trim (slice : Slice) : slice.trim.text = Text.trim slice.text := by
  rw [trim]
  split
  · rename_i blank
    rw [Text.trim, Text.trimStart_eq_nil_iff.mpr blank]
    rfl
  · rfl

theorem firstChars?_eq (count : Nat) (slice : Slice) :
    (slice.firstChars? count).map Slice.text = some (slice.text.take count) := by
  rw [firstChars?]
  split
  · rw [before?_eq (List.take_append_drop count slice.text).symm rfl]
    rfl
  · rename_i short
    rw [List.take_of_length_le (not_lt.mp short)]
    rfl

theorem lastChars?_eq (count : Nat) (slice : Slice) :
    (slice.lastChars? count).map Slice.text =
      some (slice.text.drop (slice.text.length - count)) := by
  rw [lastChars?]
  split
  · rename_i long
    have skipped : minus? slice.text.length count = some (slice.text.length - count) :=
      if_pos long.le
    rw [skipped, Option.bind_eq_bind, Option.bind_some,
      after?_eq (List.take_append_drop (slice.text.length - count) slice.text).symm rfl]
    rfl
  · rename_i short
    rw [Nat.sub_eq_zero_of_le (not_lt.mp short)]
    rfl

end Parts

end Slice

/-! ### Places in a source -/

/-- **The rest of a source stands at an address.** -/
def StandsAt (source : Slice) (rest : List Char) (address : Nat) : Prop :=
  ∃ ahead, source.text = ahead ++ rest ∧ address = source.address + utf8Size ahead

theorem StandsAt.whole (source : Slice) : StandsAt source source.text source.address :=
  ⟨[], rfl, rfl⟩

/-- What comes behind a part of the rest. -/
theorem StandsAt.behind {source : Slice} {first rest : List Char} {address : Nat}
    (stands : StandsAt source (first ++ rest) address) :
    StandsAt source rest (address + utf8Size first) := by
  obtain ⟨ahead, whole, rfl⟩ := stands
  refine ⟨ahead ++ first, by rw [whole, List.append_assoc], ?_⟩
  rw [utf8Size_append, Nat.add_assoc]

theorem StandsAt.tail {source : Slice} {c : Char} {rest : List Char} {address : Nat}
    (stands : StandsAt source (c :: rest) address) : StandsAt source rest (address + c.utf8Size) := by
  have parts : c :: rest = [c] ++ rest := rfl
  exact (parts ▸ stands).behind

theorem StandsAt.trimStart {source : Slice} {rest : List Char} {address : Nat}
    (stands : StandsAt source rest address) :
    StandsAt source (Text.trimStart rest) (Slice.trimStart ⟨address, rest⟩).address := by
  rw [← takeWhile_append_trimStart rest] at stands
  exact stands.behind

/-- **A slice is located where the rest of the source begins with it.** -/
theorem locate?_of_stands {source slice : Slice} {rest : List Char}
    (stands : StandsAt source rest slice.address) :
    source.locate? slice = some (Position.before source.text rest) := by
  obtain ⟨ahead, whole, address⟩ := stands
  have size : source.size = utf8Size ahead + utf8Size rest := by
    rw [Slice.size, whole, utf8Size_append]
  rw [Slice.locate?, if_pos ⟨by omega, by omega⟩, Position.before, whole, utf8Size_append, address,
    Nat.add_sub_cancel_left, Nat.add_sub_cancel]

/-! ### Checked scanners -/

/-- **A checked scanner agrees with an answer**: no check fails and it comes to an end, and either both
give something, which is related, or both refuse the text, and `blame` holds of the reasons. -/
def Agrees {ε φ α β : Type} (blame : φ → ε → Prop) (related : α → β → Prop)
    (scanner : ExceptT ε Option α) (answer : Except φ β) : Prop :=
  match answer with
  | .ok value => ∃ found, scanner.run = some (.ok found) ∧ related found value
  | .error fault => ∃ reason, scanner.run = some (.error reason) ∧ blame fault reason

section Rules

variable {ε φ α β γ δ : Type} {blame : φ → ε → Prop} {related : α → β → Prop} {later : γ → δ → Prop}

theorem Agrees.pure {found : α} {value : β} (relates : related found value) :
    Agrees blame related (Pure.pure found) (.ok value) :=
  ⟨found, rfl, relates⟩

theorem Agrees.throw {reason : ε} {fault : φ} (blames : blame fault reason) :
    Agrees blame related (throw reason) (.error fault) :=
  ⟨reason, rfl, blames⟩

/-- A sequence goes on from what its first part gives. -/
theorem run_bind_of_ok {scanner : ExceptT ε Option α} {found : α}
    (ran : scanner.run = some (.ok found)) (next : α → ExceptT ε Option γ) :
    (scanner >>= next).run = (next found).run := by
  show Option.bind scanner.run _ = _
  rw [ran]
  rfl

/-- A sequence fails with its first part. -/
theorem run_bind_of_error {scanner : ExceptT ε Option α} {reason : ε}
    (ran : scanner.run = some (.error reason)) (next : α → ExceptT ε Option γ) :
    (scanner >>= next).run = some (.error reason) := by
  show Option.bind scanner.run _ = _
  rw [ran]
  rfl

/-- **Sequences agree** if their parts do. -/
theorem Agrees.bind {scanner : ExceptT ε Option α} {answer : Except φ β}
    {next : α → ExceptT ε Option γ} {further : β → Except φ δ}
    (first : Agrees blame related scanner answer)
    (second : ∀ found value, related found value → answer = .ok value →
      Agrees blame later (next found) (further value)) :
    Agrees blame later (scanner >>= next) (answer.bind further) := by
  cases answer with
  | error fault =>
    obtain ⟨reason, ran, blames⟩ := first
    exact ⟨reason, run_bind_of_error ran next, blames⟩
  | ok value =>
    obtain ⟨found, ran, relates⟩ := first
    have rest := second found value relates rfl
    unfold Agrees at rest ⊢
    rw [run_bind_of_ok ran next]
    exact rest

/-- What is made of a result. -/
theorem Agrees.map {scanner : ExceptT ε Option α} {answer : Except φ β} {make : α → γ} {build : β → δ}
    (agrees : Agrees blame related scanner answer)
    (relates : ∀ found value, related found value → later (make found) (build value)) :
    Agrees blame later (scanner >>= fun found => Pure.pure (make found)) (answer.map build) := by
  have whole : answer.map build = answer.bind fun value => .ok (build value) := by
    cases answer <;> rfl
  rw [whole]
  exact agrees.bind fun found value same _ => Agrees.pure (relates found value same)

/-- **A check that succeeds** may be left out. -/
theorem lift_bind {check : Option α} {found : α} (succeeds : check = some found)
    (next : α → ExceptT ε Option γ) :
    ((liftM check : ExceptT ε Option α) >>= next) = next found := by
  subst succeeds
  rfl

end Rules

end Stencil.Text
