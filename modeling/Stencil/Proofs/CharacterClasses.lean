/-
**Classes of characters that have nothing in common.**

* `inRanges_apart`: classes without a common code point have no common character;
* `blank_apart_alphabetic`, `blank_apart_numeric`: no letter and no numeral is a blank;
* `isAlphabetic_of_isDigit`: no digit of ASCII is a letter.
-/

import Mathlib.Tactic.ByContra
import Stencil.Text.Alphabetic
import Stencil.Text.Blank
import Stencil.Text.Numeric

namespace Stencil.Text

/-- Classes without a common code point have no common character. -/
theorem inRanges_apart {first second : List (Nat × Nat)}
    (apart : ∀ range ∈ first, ∀ other ∈ second, range.2 < other.1 ∨ other.2 < range.1) {c : Char}
    (inFirst : inRanges first c = true) : inRanges second c = false := by
  by_contra inSecond
  obtain ⟨range, isRange, low, high⟩ := inRanges_iff.mp inFirst
  obtain ⟨other, isOther, otherLow, otherHigh⟩ := inRanges_iff.mp (Bool.not_eq_false _ ▸ inSecond)
  rcases apart range isRange other isOther with before | behind <;> omega

theorem blank_apart_alphabetic : ∀ range ∈ blankRanges, ∀ other ∈ alphabeticRanges,
    range.2 < other.1 ∨ other.2 < range.1 := by
  decide +kernel

theorem digit_apart_alphabetic : ∀ range ∈ [(0x30, 0x39)], ∀ other ∈ alphabeticRanges,
    range.2 < other.1 ∨ other.2 < range.1 := by
  decide +kernel

/-- **No digit of ASCII is a letter.** -/
theorem isAlphabetic_of_isDigit {c : Char} (digit : c.isDigit = true) : isAlphabetic c = false := by
  simp only [Char.isDigit, Bool.and_eq_true, decide_eq_true_eq, ge_iff_le,
    UInt32.le_iff_toNat_le] at digit
  exact inRanges_apart digit_apart_alphabetic
    (inRanges_iff.mpr ⟨(0x30, 0x39), List.mem_cons_self, digit⟩)

theorem blank_apart_numeric : ∀ range ∈ blankRanges, ∀ other ∈ numericRanges,
    range.2 < other.1 ∨ other.2 < range.1 := by
  decide +kernel

end Stencil.Text
