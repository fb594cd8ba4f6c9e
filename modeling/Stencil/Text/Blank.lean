/-
**Character classes, blank characters, and trimming them.**

A character class of the Unicode standard is a list of closed ranges of code points. A character is
blank if it has the property White_Space. Main statements:

* `inRanges_iff`: a character is in a class exactly if one of the ranges holds its code point;
* `takeWhile_append_trimStart`: trimming at the start removes blanks only;
* `trimStart_eq_nil_iff`: nothing is left exactly of a text of blanks.
-/

namespace Stencil.Text

/-! ### Classes of characters -/

/-- **Membership in a class**: one of the closed ranges holds the code point of `c`. -/
def inRanges (ranges : List (Nat × Nat)) (c : Char) : Bool :=
  ranges.any fun range => range.1 ≤ c.toNat && c.toNat ≤ range.2

theorem inRanges_iff {ranges : List (Nat × Nat)} {c : Char} :
    inRanges ranges c = true ↔ ∃ range ∈ ranges, range.1 ≤ c.toNat ∧ c.toNat ≤ range.2 := by
  simp [inRanges]

/-! ### Blanks -/

/-- The code points with the property White_Space. -/
def blankRanges : List (Nat × Nat) :=
  [(0x9, 0xD), (0x20, 0x20), (0x85, 0x85), (0xA0, 0xA0), (0x1680, 0x1680), (0x2000, 0x200A),
    (0x2028, 0x2029), (0x202F, 0x202F), (0x205F, 0x205F), (0x3000, 0x3000)]

/-- **A blank** is a character with the property White_Space. -/
def isBlank (c : Char) : Bool :=
  inRanges blankRanges c

example : isBlank ' ' ∧ isBlank '\n' ∧ isBlank '\u00a0' ∧ ¬ isBlank '\u200b' ∧ ¬ isBlank 'a' := by
  decide

/-! ### Trimming -/

/-- The text without the blanks it starts with. -/
def trimStart (text : List Char) : List Char :=
  text.dropWhile isBlank

/-- The text without the blanks it ends with. -/
def trimEnd (text : List Char) : List Char :=
  (text.reverse.dropWhile isBlank).reverse

/-- The text without the blanks at either end. -/
def trim (text : List Char) : List Char :=
  trimEnd (trimStart text)

/-- A text of blanks only, the empty one included. -/
def isBlankText (text : List Char) : Bool :=
  text.all isBlank

/-- **What trimming at the start removes are blanks.** -/
theorem takeWhile_append_trimStart (text : List Char) :
    text.takeWhile isBlank ++ trimStart text = text :=
  List.takeWhile_append_dropWhile

theorem trimStart_length_le (text : List Char) : (trimStart text).length ≤ text.length :=
  (List.dropWhile_sublist isBlank).length_le

/-- **Nothing is left at the start exactly of a text of blanks.** -/
theorem trimStart_eq_nil_iff {text : List Char} : trimStart text = [] ↔ isBlankText text = true := by
  induction text with
  | nil => simp [trimStart, isBlankText]
  | cons c text ih => by_cases blank : isBlank c <;> simp_all [trimStart, isBlankText]

end Stencil.Text
