/-
**Positions identify offsets.**

Each character moves the position on, to the next column or to the start of the next line, so places
further on in a text have later positions. A position leads back to its place: its line starts
behind the line feeds of the lines before, and its column counts the characters from there.

* `Precedes`, `precedes_advance`: **the order of positions**, and that text moves a position on;
* `toOffset?`, `toOffset?_advance`: **the way back from a position** ends where it is from;
* `seek_eq_advance`: an offset inside a character is taken for that of the next one;
* `ofOffset_identifies`: **positions are in the order of offsets and lead back to them**.
-/

import Mathlib.Order.Bounds.Defs
import Stencil.Proofs.Slices

namespace Stencil.Text

/-! ### Offsets between characters -/

theorem utf8Size_toList (source : String) : utf8Size source.toList = source.utf8ByteSize := by
  rw [← utf8ByteSize_ofList, String.ofList_toList]

/-- **An offset between two characters**, or at an end, is where a first part of the source ends. -/
theorem isValid_iff {source : String} {offset : Nat} : String.Pos.Raw.IsValid source ⟨offset⟩ ↔
    ∃ ahead rest, source.toList = ahead ++ rest ∧ utf8Size ahead = offset := by
  simp only [← splitBytes?_isSome_iff, Option.isSome_iff_exists, Prod.exists,
    splitBytes?_eq_some_iff]

/-- **Of two first parts the longer one goes on where the shorter one ends.** -/
theorem exists_between {first second behindFirst behindSecond : List Char}
    (whole : first ++ behindFirst = second ++ behindSecond)
    (less : utf8Size first < utf8Size second) :
    ∃ between, between ≠ [] ∧ second = first ++ between := by
  rcases List.append_eq_append_iff.mp whole with ⟨between, longer, -⟩ | ⟨between, shorter, -⟩
  · refine ⟨between, ?_, longer⟩
    rintro rfl
    rw [longer, List.append_nil] at less
    exact absurd less (Nat.lt_irrefl _)
  · rw [shorter, utf8Size_append] at less
    omega

namespace Position

variable {first second third : Position} {text line rest : List Char}

/-! ### The order of positions -/

/-- **One position comes before another**: in an earlier line, or in the same line further left. -/
def Precedes (first second : Position) : Prop :=
  first.line < second.line ∨ first.line = second.line ∧ first.column < second.column

theorem Precedes.trans (before : first.Precedes second) (behind : second.Precedes third) :
    first.Precedes third := by
  unfold Precedes at *
  omega

theorem precedes_next (position : Position) (c : Char) : position.Precedes (position.next c) := by
  unfold next
  split
  · exact .inl (Nat.lt_succ_self position.line)
  · exact .inr ⟨rfl, Nat.lt_succ_self position.column⟩

/-- **Text moves a position on.** -/
theorem precedes_advance (position : Position) (filled : text ≠ []) :
    position.Precedes (position.advance text) := by
  induction text generalizing position with
  | nil => exact absurd rfl filled
  | cons c text ih =>
    have moved := position.precedes_next c
    cases text with
    | nil => exact moved
    | cons d text => exact moved.trans (ih (position.next c) (List.cons_ne_nil d text))

theorem advance_append (position : Position) (ahead rest : List Char) :
    position.advance (ahead ++ rest) = (position.advance ahead).advance rest :=
  List.foldl_append

/-! ### The way back -/

/-- The text behind its first `count` line feeds. -/
def behindFeeds? : Nat → List Char → Option (List Char)
  | 0, text => some text
  | _ + 1, [] => none
  | count + 1, c :: rest => behindFeeds? (if c = '\n' then count else count + 1) rest

/-- The text `count` characters further on in the same line. -/
def further? : Nat → List Char → Option (List Char)
  | 0, text => some text
  | _ + 1, [] => none
  | count + 1, c :: rest => if c = '\n' then none else further? count rest

/-- **The offset of a position**: its line starts behind the line feeds of the lines before, and its
column counts the characters from there. -/
def toOffset? (position : Position) (text : List Char) : Option Nat := do
  let line ← behindFeeds? (position.line - 1) text
  let rest ← further? (position.column - 1) line
  some (utf8Size text - utf8Size rest)

theorem behindFeeds?_append (ahead rest : List Char) :
    behindFeeds? (ahead.count '\n' + 1) (ahead ++ '\n' :: rest) = some rest := by
  induction ahead with
  | nil => simp [behindFeeds?]
  | cons c ahead ih =>
    rw [List.cons_append, behindFeeds?, ← ih, List.count_cons]
    by_cases feed : c = '\n' <;> simp [feed]

theorem further?_append (unbroken : '\n' ∉ line) (rest : List Char) :
    further? line.length (line ++ rest) = some rest := by
  induction line with
  | nil => rfl
  | cons c line ih =>
    have other := (List.ne_of_not_mem_cons unbroken).symm
    rw [List.cons_append, List.length_cons, further?, if_neg other,
      ih (List.not_mem_of_not_mem_cons unbroken)]

/-- **A text without a line feed** moves a position on in its line. -/
theorem advance_unbroken (position : Position) (unbroken : '\n' ∉ line) :
    position.advance line = ⟨position.line, position.column + line.length⟩ := by
  induction line generalizing position with
  | nil => rfl
  | cons c line ih =>
    show (position.next c).advance line = _
    rw [ih _ (List.not_mem_of_not_mem_cons unbroken), next,
      if_neg (List.ne_of_not_mem_cons unbroken).symm, List.length_cons, Nat.add_assoc,
      Nat.add_comm 1]

/-- The line of a position counts the line feeds before it. -/
theorem line_advance (position : Position) (text : List Char) :
    (position.advance text).line = position.line + text.count '\n' := by
  induction text generalizing position with
  | nil => rfl
  | cons c text ih =>
    show ((position.next c).advance text).line = _
    rw [ih, next, List.count_cons]
    by_cases feed : c = '\n' <;> simp [feed, Nat.add_comm, Nat.add_left_comm]

/-- **A text ends with its last line**, which stands behind its last line feed. -/
theorem exists_last_line (text : List Char) :
    '\n' ∉ text ∨ ∃ lead line, text = lead ++ '\n' :: line ∧ '\n' ∉ line := by
  induction text with
  | nil => exact .inl List.not_mem_nil
  | cons c text ih =>
    rcases ih with unbroken | ⟨lead, line, rfl, unbroken⟩
    · by_cases feed : c = '\n'
      · exact .inr ⟨[], text, by rw [feed]; rfl, unbroken⟩
      · exact .inl (List.not_mem_cons_of_ne_of_not_mem (Ne.symm feed) unbroken)
    · exact .inr ⟨c :: lead, line, rfl, unbroken⟩

/-- **From the start of its line a position is found** by counting characters. -/
theorem toOffset?_of_line {lines : Nat} (behind : behindFeeds? lines text = some (line ++ rest))
    (unbroken : '\n' ∉ line) :
    toOffset? ⟨lines + 1, line.length + 1⟩ text = some (utf8Size text - utf8Size rest) := by
  show (behindFeeds? lines text).bind (fun found => (further? line.length found).bind _) = _
  rw [behind, Option.bind_some, further?_append unbroken, Option.bind_some]

/-- **The position behind a first part leads back to where that part ends.** -/
theorem toOffset?_advance (ahead rest : List Char) :
    (start.advance ahead).toOffset? (ahead ++ rest) = some (utf8Size ahead) := by
  have offset : utf8Size (ahead ++ rest) - utf8Size rest = utf8Size ahead := by
    rw [utf8Size_append, Nat.add_sub_cancel]
  rw [← offset]
  rcases exists_last_line ahead with unbroken | ⟨lead, line, rfl, unbroken⟩
  · rw [advance_unbroken start unbroken, Nat.add_comm]
    exact toOffset?_of_line (by rw [behindFeeds?]) unbroken
  · have begun : (start.advance lead).next '\n' = ⟨lead.count '\n' + 1 + 1, 1⟩ := by
      rw [next, if_pos rfl, line_advance, Nat.add_comm start.line]
      rfl
    have behind : behindFeeds? (lead.count '\n' + 1) (lead ++ '\n' :: line ++ rest) =
        some (line ++ rest) := by
      rw [List.append_assoc]
      exact behindFeeds?_append lead (line ++ rest)
    rw [advance_append]
    show (((start.advance lead).next '\n').advance line).toOffset? _ = _
    rw [begun, advance_unbroken _ unbroken, Nat.add_comm 1]
    exact toOffset?_of_line behind unbroken

/-! ### Offsets inside a character -/

/-- **The way to an offset ends with the first character that reaches it.** -/
theorem seek_eq_advance (position : Position) {offset : Nat} (inside : offset ≤ utf8Size text) :
    ∃ ahead rest, text = ahead ++ rest ∧ offset ≤ utf8Size ahead ∧
      (∀ other more, text = other ++ more → offset ≤ utf8Size other →
        utf8Size ahead ≤ utf8Size other) ∧
      position.seek text offset = position.advance ahead := by
  fun_induction seek position text offset with
  | case1 position offset => exact ⟨[], [], rfl, inside, fun _ _ _ _ => Nat.zero_le _, rfl⟩
  | case2 position c rest =>
    exact ⟨[], c :: rest, rfl, Nat.le_refl 0, fun _ _ _ _ => Nat.zero_le _, rfl⟩
  | case3 position c rest offset ih =>
    rw [utf8Size_cons] at inside
    obtain ⟨ahead, behind, rfl, reaches, least, same⟩ := ih (by omega)
    refine ⟨c :: ahead, behind, rfl, ?_, fun other more whole enough => ?_, same⟩
    · rw [utf8Size_cons]
      omega
    · cases other with
      | nil => exact absurd enough (Nat.not_succ_le_zero offset)
      | cons d other =>
        obtain ⟨rfl, tail⟩ := List.cons.inj whole
        rw [utf8Size_cons] at enough
        have further := least other more tail (by omega)
        rw [utf8Size_cons, utf8Size_cons]
        omega

/-- **The way to an offset past the end** is the way to the end. -/
theorem seek_past (position : Position) {offset : Nat} (past : utf8Size text ≤ offset) :
    position.seek text offset = position.advance text := by
  fun_induction seek position text offset with
  | case1 position offset => rfl
  | case2 position c rest =>
    have pos := c.utf8Size_pos
    rw [utf8Size_cons] at past
    omega
  | case3 position c rest offset ih =>
    rw [utf8Size_cons] at past
    exact ih (by omega)

/-! ### Positions and offsets -/

/-- **Positions are in the order of offsets and lead back to them.** Of two offsets between
characters the smaller one has the earlier position, and each is found again from its position. An
offset inside a character has the position of the next offset between characters, and one past the
end has the position of the end. -/
theorem ofOffset_identifies (source : String) :
    (∀ first second : Nat, String.Pos.Raw.IsValid source ⟨first⟩ →
        String.Pos.Raw.IsValid source ⟨second⟩ → first < second →
        (ofOffset source.toList first).Precedes (ofOffset source.toList second)) ∧
      (∀ offset : Nat, String.Pos.Raw.IsValid source ⟨offset⟩ →
        (ofOffset source.toList offset).toOffset? source.toList = some offset) ∧
      (∀ offset ≤ source.utf8ByteSize, ∃ next,
        IsLeast {other | offset ≤ other ∧ String.Pos.Raw.IsValid source ⟨other⟩} next ∧
          ofOffset source.toList offset = ofOffset source.toList next) ∧
      ∀ offset, source.utf8ByteSize < offset →
        ofOffset source.toList offset = ofOffset source.toList source.utf8ByteSize := by
  simp only [isValid_iff]
  refine ⟨?_, ?_, fun offset inside => ?_, fun offset past => ?_⟩
  · rintro _ _ ⟨first, behindFirst, whole, rfl⟩ ⟨second, behindSecond, also, rfl⟩ less
    obtain ⟨between, filled, rfl⟩ := exists_between (whole.symm.trans also) less
    have reachesFirst := ofOffset_append first behindFirst
    have reachesSecond := ofOffset_append (first ++ between) behindSecond
    rw [← whole] at reachesFirst
    rw [← also, advance_append] at reachesSecond
    rw [reachesFirst, reachesSecond]
    exact precedes_advance _ filled
  · rintro _ ⟨ahead, rest, whole, rfl⟩
    rw [whole, ofOffset_append, toOffset?_advance]
  · rw [← utf8Size_toList] at inside
    obtain ⟨ahead, rest, whole, reaches, least, same⟩ := seek_eq_advance start inside
    refine ⟨utf8Size ahead, ⟨⟨reaches, ahead, rest, whole, rfl⟩, ?_⟩, ?_⟩
    · rintro _ ⟨enough, other, more, also, rfl⟩
      exact least other more also enough
    · show seek start source.toList offset = _
      rw [same, whole, ofOffset_append]
  · rw [← utf8Size_toList] at past ⊢
    show seek start source.toList offset = seek start source.toList _
    rw [seek_past start (Nat.le_of_lt past), seek_past start (Nat.le_refl _)]

/-- Characters of one, two and four bytes, in two lines. -/
def mixedWidths : String :=
  String.ofList ['é', '\n', '😀']

theorem mixedWidths_identified :
    String.Pos.Raw.IsValid mixedWidths ⟨2⟩ ∧ String.Pos.Raw.IsValid mixedWidths ⟨3⟩ ∧
      (ofOffset mixedWidths.toList 2).Precedes (ofOffset mixedWidths.toList 3) ∧
      (ofOffset mixedWidths.toList 3).toOffset? mixedWidths.toList = some 3 ∧
      (∃ next, IsLeast {other | 5 ≤ other ∧ String.Pos.Raw.IsValid mixedWidths ⟨other⟩} next ∧
        ofOffset mixedWidths.toList 5 = ofOffset mixedWidths.toList next) ∧
      ofOffset mixedWidths.toList 9 = ofOffset mixedWidths.toList mixedWidths.utf8ByteSize := by
  have feed : String.Pos.Raw.IsValid mixedWidths ⟨2⟩ :=
    isValid_iff.mpr ⟨['é'], ['\n', '😀'], String.toList_ofList, by decide⟩
  have behind : String.Pos.Raw.IsValid mixedWidths ⟨3⟩ :=
    isValid_iff.mpr ⟨['é', '\n'], ['😀'], String.toList_ofList, by decide⟩
  have size : mixedWidths.utf8ByteSize = 7 := by
    rw [← utf8Size_toList, mixedWidths, String.toList_ofList]
    decide
  obtain ⟨ordered, leadsBack, inside, past⟩ := ofOffset_identifies mixedWidths
  exact ⟨feed, behind, ordered 2 3 feed behind (by decide), leadsBack 3 behind,
    inside 5 (by rw [size]; decide), past 9 (by rw [size]; decide)⟩

end Position

end Stencil.Text
