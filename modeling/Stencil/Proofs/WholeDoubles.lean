/-
**Doubles that are whole numbers.**

A double is packed into a sign, eleven bits for its exponent and 52 for its mantissa, and an operation
unpacks its operands, computes exactly and rounds what comes out to 53 digits. Where that is a whole
number `n`, nothing is lost below 2⁵³; from there on the double is some whole number near `n`, and not
below 2⁵³ either.

* `unpack_pack`, `shape_of_unpack`: what is packed in the usual form comes out as it went in, and
  whatever comes out is in this form, unless it is tiny;
* `roundWithAccuracy_eq`: **rounding keeps 53 digits**, and loses nothing if the others are zero;
* `Counts`: the whole number that a mantissa and an exponent stand for;
* `toInt?_of_finite`, `toInt?_eq_some`: the doubles that are whole numbers;
* `Near`, `Rounds`: **a double near a whole number**;
* `rounds_roundWithAccuracy`, `rounds_normalize`: rounding a whole number gives a double near it.
-/

import Mathlib.Algebra.Order.Field.Power
import Mathlib.Algebra.Order.Field.Rat
import Mathlib.Tactic.FieldSimp
import Mathlib.Tactic.NormNum
import Mathlib.Tactic.Positivity
import Mathlib.Tactic.Ring
import Mathlib.Tactic.SplitIfs
import Stencil.Double

namespace Stencil.Double

open Float.Model Float.Model.UnpackedFloat

/-! ### Packed and unpacked -/

/-- **The usual form of a double**: 53 binary digits, the first of them a one. -/
structure Normal (mantissa : Nat) (exponent : Int) : Prop where
  lower : 2 ^ 52 ≤ mantissa
  upper : mantissa < 2 ^ 53
  least : -1074 ≤ exponent
  most : exponent ≤ 971

/-- The first digit is not packed. -/
theorem toNat_leadingOne (fraction : BitVec 52) :
    (1#1 ++ fraction).toNat = 2 ^ 52 + fraction.toNat := by
  rw [BitVec.toNat_append, ← Nat.shiftLeft_add_eq_or_of_lt fraction.isLt]
  rfl

/-- The sign stands above the fields of the exponent and of the mantissa. -/
theorem ofBitVec_unpackSign (sign : Sign) (exponent : BitVec 11) (fraction : BitVec 52) :
    Sign.ofBitVec (unpackSign (packComponents Format.binary64 sign exponent fraction)) = sign := by
  show Sign.ofBitVec ((sign.toBitVec ++ exponent ++ fraction).extractLsb' 63 1) = sign
  rw [BitVec.extractLsb'_append_eq_of_le (by decide), BitVec.extractLsb'_append_eq_of_le (by decide)]
  cases sign <;> rfl

/-- **The fields of a double come out as they went in**, and a one in front of the fraction, if the
exponent is neither all ones nor all zeros. -/
theorem unpack_packComponents (sign : Sign) {exponent : BitVec 11} (fraction : BitVec 52)
    (notInfinite : exponent ≠ -1#11) (notSmall : exponent ≠ 0#11) :
    ∃ positive, UnpackedFloat.unpack Format.binary64
        (packComponents Format.binary64 sign exponent fraction) =
      .finite sign (2 ^ 52 + fraction.toNat) (exponent.toNat - 1075) positive := by
  have isExponent : unpackExponent (packComponents Format.binary64 sign exponent fraction) =
      exponent := unpackExponent_packComponents
  have isFraction : unpackMantissa (packComponents Format.binary64 sign exponent fraction) =
      fraction := unpackMantissa_packComponents
  refine ⟨Nat.add_pos_left (Nat.two_pow_pos 52) _, ?_⟩
  unfold UnpackedFloat.unpack
  dsimp only
  rw [if_neg (isExponent.symm ▸ notInfinite), if_neg (isExponent.symm ▸ notSmall), finite.injEq]
  refine ⟨ofBitVec_unpackSign sign exponent fraction, ?_, ?_⟩
  · rw [isFraction, toNat_leadingOne]
  · rw [isExponent]
    rfl

theorem unpack_packed_zero (sign : Sign) :
    (Float.Model.pack (.zero sign)).unpack = .zero sign := by
  cases sign <;> rfl

/-- **What is packed in the usual form comes out as it went in.** -/
theorem unpack_pack {mantissa : Nat} {exponent : Int} (normal : Normal mantissa exponent)
    (sign : Sign) (positive : 0 < mantissa) :
    (Float.Model.pack (.finite sign mantissa exponent positive)).unpack =
      .finite sign mantissa exponent positive := by
  obtain ⟨lower, upper, least, most⟩ := normal
  have digits : mantissa.log2 + 1 = 53 :=
    congrArg (· + 1) ((Nat.log2_eq_iff positive.ne').mpr ⟨lower, upper⟩)
  obtain ⟨biased, isBiased⟩ : ∃ biased : Nat, exponent = (biased : Int) - 1075 :=
    ⟨(exponent + 1075).toNat, by omega⟩
  have field : (BitVec.ofNat 11 biased).toNat = biased := by
    rw [BitVec.toNat_ofNat]
    omega
  have notInfinite : BitVec.ofNat 11 biased ≠ -1#11 := by
    intro ones
    have : biased = 2047 := field ▸ congrArg BitVec.toNat ones
    omega
  have notSmall : BitVec.ofNat 11 biased ≠ 0#11 := by
    intro zeros
    have : biased = 0 := field ▸ congrArg BitVec.toNat zeros
    omega
  have packed : UnpackedFloat.pack Format.binary64 (.finite sign mantissa exponent positive) =
      packComponents Format.binary64 sign (BitVec.ofNat 11 biased) (BitVec.ofNat 52 mantissa) := by
    have shifted :
        (exponent + (Format.binary64.exponentBias : Int) + (52 : Nat)).toNat = biased := by
      show (exponent + 1023 + 52).toNat = biased
      omega
    have inRange : ¬ 2 ^ 11 ≤ biased + 1 := by omega
    rw [← shifted] at inRange ⊢
    exact (if_neg inRange).trans (if_pos digits)
  obtain ⟨_, unpacked⟩ :=
    unpack_packComponents sign (BitVec.ofNat 52 mantissa) notInfinite notSmall
  show UnpackedFloat.unpack Format.binary64 (UnpackedFloat.pack _ _) = _
  rw [packed, unpacked, finite.injEq, BitVec.toNat_ofNat, field, isBiased]
  exact ⟨rfl, by omega, rfl⟩

/-- **What comes out is in the usual form**, or has the least exponent and fewer digits. -/
theorem shape_of_unpack {x : Float.Model} {sign : Sign} {mantissa : Nat} {exponent : Int}
    {positive : 0 < mantissa} (unpacked : x.unpack = .finite sign mantissa exponent positive) :
    Normal mantissa exponent ∨ mantissa < 2 ^ 52 ∧ exponent = -1074 := by
  have fraction := (@unpackMantissa Format.binary64 x.toBits.toBitVec).isLt
  have field := (@unpackExponent Format.binary64 x.toBits.toBitVec).isLt
  unfold Float.Model.unpack UnpackedFloat.unpack at unpacked
  dsimp only at unpacked
  by_cases infinite : @unpackExponent Format.binary64 x.toBits.toBitVec = -1#11
  · rw [if_pos infinite] at unpacked
    by_cases noFraction : @unpackMantissa Format.binary64 x.toBits.toBitVec = 0#52
    · rw [if_pos noFraction] at unpacked
      cases unpacked
    · rw [if_neg noFraction] at unpacked
      cases unpacked
  · rw [if_neg infinite] at unpacked
    by_cases small : @unpackExponent Format.binary64 x.toBits.toBitVec = 0#11
    · right
      rw [if_pos small] at unpacked
      by_cases noFraction : @unpackMantissa Format.binary64 x.toBits.toBitVec = 0#52
      · rw [dif_pos noFraction] at unpacked
        cases unpacked
      · rw [dif_neg noFraction] at unpacked
        cases unpacked
        refine ⟨fraction, ?_⟩
        rw [small]
        rfl
    · left
      rw [if_neg small] at unpacked
      cases unpacked
      have notSmall : (@unpackExponent Format.binary64 x.toBits.toBitVec).toNat ≠ 0 :=
        fun zeros => small (BitVec.eq_of_toNat_eq zeros)
      have finite : (@unpackExponent Format.binary64 x.toBits.toBitVec).toNat ≠ 2047 :=
        fun ones => infinite (BitVec.eq_of_toNat_eq ones)
      have bias : ((Format.binary64.exponentBias : Int) + (52 : Nat)) = 1075 := rfl
      rw [toNat_leadingOne, bias]
      simp only at fraction field
      constructor <;> omega

/-! ### Rounding to 53 digits -/

theorem mantissa_shiftRight (extended : ExtendedMantissa) (count : Nat) :
    (extended >>> count).mantissa = extended.mantissa / 2 ^ count := by
  induction count with
  | zero => exact (Nat.div_one _).symm
  | succ count ih =>
    show (extended >>> count).mantissa / 2 = _
    rw [ih, Nat.div_div_eq_div_mul, ← Nat.pow_succ]

/-- Taking zeros away leaves no trace. -/
theorem shiftRight_zeros (mantissa count : Nat) :
    (⟨mantissa * 2 ^ count, false, false⟩ : ExtendedMantissa) >>> count =
      ⟨mantissa, false, false⟩ := by
  induction count generalizing mantissa with
  | zero => exact congrArg (ExtendedMantissa.mk · false false) (Nat.mul_one mantissa)
  | succ count ih =>
    show ((⟨mantissa * 2 ^ (count + 1), false, false⟩ : ExtendedMantissa) >>> count).shiftRightOne
      = _
    rw [show mantissa * 2 ^ (count + 1) = (mantissa * 2) * 2 ^ count by ring, ih]
    simp [ExtendedMantissa.shiftRightOne]

theorem roundedMantissa_bounds (extended : ExtendedMantissa) :
    extended.mantissa ≤ extended.roundedMantissa ∧
      extended.roundedMantissa ≤ extended.mantissa + 1 := by
  obtain ⟨mantissa, half, rest⟩ := extended
  have parity := Nat.mod_lt mantissa Nat.zero_lt_two
  cases half <;> cases rest <;>
    simp only [ExtendedMantissa.roundedMantissa, ExtendedMantissa.accuracy,
      Accuracy.roundToNearestEven] <;> omega

/-- All digits beyond the 53rd are taken away. -/
theorem shiftToTargetExponent_eq {mantissa : Nat} {exponent : Int} {extra : Nat}
    (digits : mantissa.log2 = 52 + extra) (least : -1074 ≤ exponent + extra) :
    shiftToTargetExponent Format.binary64 mantissa exponent .exact =
      ((⟨mantissa, false, false⟩ : ExtendedMantissa) >>> extra, exponent + extra) := by
  have target : Format.binary64.targetExponent (totalExponent mantissa exponent) =
      exponent + extra := by
    show max ((mantissa.log2 : Int) + 1 + exponent - 53) (-1074) = exponent + extra
    omega
  have shift : (exponent + extra - exponent).toNat = extra := by omega
  rw [shiftToTargetExponent, target, shiftToExponent, shift]
  rfl

/-- Taking the digits away beyond the 53rd leaves 53. -/
theorem mantissa_bounds {mantissa extra : Nat} (digits : mantissa.log2 = 52 + extra) :
    2 ^ 52 ≤ mantissa / 2 ^ extra ∧ mantissa / 2 ^ extra < 2 ^ 53 := by
  have nonzero : mantissa ≠ 0 := by
    rintro rfl
    rw [Nat.log2_zero] at digits
    omega
  obtain ⟨lower, upper⟩ := (Nat.log2_eq_iff nonzero).mp digits
  constructor
  · rw [Nat.le_div_iff_mul_le (by positivity), ← pow_add]
    exact lower
  · rw [Nat.div_lt_iff_lt_mul (by positivity), ← pow_add]
    exact lt_of_lt_of_eq upper (congrArg _ (by ring))

/-- What was rounded has 53 digits already, or it has carried and ends in a zero. -/
theorem shiftToTargetExponent_rounded {rounded : Nat} {exponent : Int} (lower : 2 ^ 52 ≤ rounded)
    (upper : rounded ≤ 2 ^ 53) (least : -1074 ≤ exponent) :
    shiftToTargetExponent Format.binary64 rounded exponent .exact =
      if rounded = 2 ^ 53 then (⟨2 ^ 52, false, false⟩, exponent + 1)
      else (⟨rounded, false, false⟩, exponent) := by
  split_ifs with carries
  · have digits : rounded.log2 = 52 + 1 := by rw [carries, Nat.log2_two_pow]
    rw [shiftToTargetExponent_eq digits (by push_cast; omega), carries]
    rfl
  · have digits : rounded.log2 = 52 + 0 :=
      (Nat.log2_eq_iff (by omega)).mpr ⟨lower, lt_of_le_of_ne upper carries⟩
    rw [shiftToTargetExponent_eq digits (by push_cast; omega)]
    simp only [Nat.cast_zero, add_zero]
    rfl

/-- **Rounding keeps 53 digits.** Where it carries, all of them become zeros behind a new one; where the
other digits are zeros, nothing is lost. -/
theorem roundWithAccuracy_eq (sign : Sign) {mantissa : Nat} {exponent : Int} {extra : Nat}
    (digits : mantissa.log2 = 52 + extra) (least : -1074 ≤ exponent + extra) :
    ∃ (rounded : Nat) (scale : Int) (positive : 0 < rounded),
      roundWithAccuracy Format.binary64 sign mantissa exponent .exact =
        .finite sign rounded scale positive ∧
      2 ^ 52 ≤ rounded ∧ rounded < 2 ^ 53 ∧
      exponent + extra ≤ scale ∧ scale ≤ exponent + extra + 1 ∧
      (2 ^ extra ∣ mantissa → rounded * 2 ^ extra = mantissa ∧ scale = exponent + extra) := by
  set first := (⟨mantissa, false, false⟩ : ExtendedMantissa) >>> extra with isFirst
  obtain ⟨lower, upper⟩ : 2 ^ 52 ≤ first.mantissa ∧ first.mantissa < 2 ^ 53 := by
    rw [isFirst, mantissa_shiftRight]
    exact mantissa_bounds digits
  obtain ⟨fromBelow, fromAbove⟩ := roundedMantissa_bounds first
  have unfolded : roundWithAccuracy Format.binary64 sign mantissa exponent .exact =
      let last :=
        shiftToTargetExponent Format.binary64 first.roundedMantissa (exponent + extra) .exact
      if zero : last.1.mantissa = 0 then .zero sign
      else .finite sign last.1.mantissa last.2 (Nat.pos_of_ne_zero zero) := by
    rw [roundWithAccuracy, shiftToTargetExponent_eq digits least]
  rw [shiftToTargetExponent_rounded (by omega) (by omega) least] at unfolded
  by_cases carries : first.roundedMantissa = 2 ^ 53
  · refine ⟨2 ^ 52, exponent + extra + 1, by positivity, ?_, le_rfl, by norm_num, by omega, le_rfl,
      ?_⟩
    · rw [unfolded, if_pos carries]
      rfl
    · -- without digits to take away the mantissa has 53 of them and does not carry
      rintro ⟨quotient, rfl⟩
      exfalso
      rw [mul_comm, shiftRight_zeros] at isFirst
      rw [isFirst] at upper carries
      have full : quotient = 2 ^ 53 := carries
      exact absurd full upper.ne
  · refine ⟨first.roundedMantissa, exponent + extra, by omega, ?_, by omega, by omega, le_rfl,
      by omega, ?_⟩
    · rw [unfolded, if_neg carries]
      exact dif_neg (by show first.roundedMantissa ≠ 0; omega)
    · rintro ⟨quotient, rfl⟩
      rw [mul_comm, shiftRight_zeros] at isFirst
      rw [isFirst]
      exact ⟨mul_comm _ _, rfl⟩

/-! ### What a mantissa and an exponent stand for -/

theorem log2_mul_two_pow {size : Nat} (positive : 0 < size) (count : Nat) :
    (size * 2 ^ count).log2 = size.log2 + count := by
  obtain ⟨lower, upper⟩ := (Nat.log2_eq_iff positive.ne').mp rfl
  refine (Nat.log2_eq_iff (by positivity)).mpr ⟨?_, ?_⟩
  · rw [pow_add]
    exact Nat.mul_le_mul_right _ lower
  · rw [show size.log2 + count + 1 = size.log2 + 1 + count by ring, pow_add]
    exact Nat.mul_lt_mul_of_pos_right upper (by positivity)

theorem log2_mul_bounds {first second : Nat} (one : 0 < first) (two : 0 < second) :
    second.log2 ≤ (first * second).log2 ∧
      (first * second).log2 ≤ first.log2 + second.log2 + 1 := by
  constructor
  · exact (Nat.le_log2 (by positivity)).mpr
      ((Nat.log2_self_le two.ne').trans (Nat.le_mul_of_pos_left second one))
  · refine Nat.lt_succ_iff.mp ((Nat.log2_lt (by positivity)).mpr ?_)
    calc first * second < 2 ^ (first.log2 + 1) * 2 ^ (second.log2 + 1) :=
          Nat.mul_lt_mul'' Nat.lt_log2_self Nat.lt_log2_self
      _ = 2 ^ (first.log2 + second.log2 + 1 + 1) := by rw [← pow_add]; congr 1; ring

/-- **A mantissa and an exponent that stand for a whole number.** -/
def Counts (mantissa : Nat) (exponent : Int) (size : Nat) : Prop :=
  (mantissa : ℚ) * 2 ^ exponent = size

namespace Counts

variable {mantissa size : Nat} {exponent : Int}

theorem of_nonneg (counts : Counts mantissa exponent size) (upward : 0 ≤ exponent) :
    mantissa * 2 ^ exponent.toNat = size := by
  rw [Counts, ← Int.toNat_of_nonneg upward, zpow_natCast] at counts
  exact_mod_cast counts

theorem of_nonpos (counts : Counts mantissa exponent size) (downward : exponent ≤ 0) :
    size * 2 ^ (-exponent).toNat = mantissa := by
  rw [Counts, ← neg_neg exponent, ← Int.toNat_of_nonneg (neg_nonneg.mpr downward), zpow_neg,
    zpow_natCast, ← div_eq_mul_inv, div_eq_iff (by positivity)] at counts
  exact_mod_cast counts.symm

theorem upward (mantissa : Nat) (upward : 0 ≤ exponent) :
    Counts mantissa exponent (mantissa <<< exponent.toNat) := by
  rw [Counts, Nat.shiftLeft_eq]
  nth_rewrite 1 [← Int.toNat_of_nonneg upward]
  rw [zpow_natCast]
  push_cast
  rfl

theorem downward (downward : exponent ≤ 0) (divides : 2 ^ (-exponent).toNat ∣ mantissa) :
    Counts mantissa exponent (mantissa / 2 ^ (-exponent).toNat) := by
  obtain ⟨size, rfl⟩ := divides
  rw [Counts, Nat.mul_div_cancel_left _ (by positivity)]
  nth_rewrite 2 [← neg_neg exponent, ← Int.toNat_of_nonneg (neg_nonneg.mpr downward)]
  rw [zpow_neg, zpow_natCast]
  push_cast
  field_simp

theorem refl (size : Nat) : Counts size 0 size := by
  rw [Counts, zpow_zero, mul_one]

theorem mantissa_pos (counts : Counts mantissa exponent size) (positive : 0 < size) :
    0 < mantissa := by
  refine Nat.pos_of_ne_zero ?_
  rintro rfl
  rw [Counts, Nat.cast_zero, zero_mul] at counts
  exact positive.ne (by exact_mod_cast counts)

theorem size_pos (counts : Counts mantissa exponent size) (positive : 0 < mantissa) :
    0 < size := by
  refine Nat.pos_of_ne_zero ?_
  rintro rfl
  rw [Counts, Nat.cast_zero, mul_eq_zero_iff_right (by positivity)] at counts
  exact positive.ne' (by exact_mod_cast counts)

/-- **The exponent is the difference in length.** -/
theorem log2 (counts : Counts mantissa exponent size) (positive : 0 < size) :
    (size.log2 : Int) = mantissa.log2 + exponent := by
  rcases le_total 0 exponent with upward | downward
  · rw [← counts.of_nonneg upward, log2_mul_two_pow (counts.mantissa_pos positive)]
    omega
  · rw [← counts.of_nonpos downward, log2_mul_two_pow positive]
    omega

theorem shift (counts : Counts mantissa exponent size) (count : Nat) :
    Counts (mantissa * 2 ^ count) (exponent - count) size := by
  rw [Counts, ← counts, zpow_sub₀ two_ne_zero, zpow_natCast]
  push_cast
  field_simp

theorem unshift {count : Nat} (counts : Counts (mantissa * 2 ^ count) exponent size) :
    Counts mantissa (exponent + count) size := by
  rw [Counts, ← counts, zpow_add₀ two_ne_zero, zpow_natCast]
  push_cast
  ring

/-- The same number with a smaller exponent. -/
theorem lower (counts : Counts mantissa exponent size) {target : Int} (below : target ≤ exponent) :
    Counts (mantissa <<< (exponent - target).toNat) target size := by
  have shifted := counts.shift (exponent - target).toNat
  rwa [show exponent - ((exponent - target).toNat : Int) = target by omega,
    ← Nat.shiftLeft_eq] at shifted

theorem unique {other : Nat} (one : Counts mantissa exponent size)
    (two : Counts other exponent size) : mantissa = other := by
  have scale : (2 : ℚ) ^ exponent ≠ 0 := by positivity
  exact Nat.cast_injective (mul_right_cancel₀ scale (one.trans two.symm))

end Counts

/-- **A signed mantissa and an exponent that stand for a whole number.** -/
def SignedCounts (mantissa exponent n : Int) : Prop :=
  (mantissa : ℚ) * 2 ^ exponent = n

namespace SignedCounts

variable {mantissa exponent n : Int}

theorem natAbs (counts : SignedCounts mantissa exponent n) :
    Counts mantissa.natAbs exponent n.natAbs := by
  have scale : (0 : ℚ) < 2 ^ exponent := by positivity
  rw [Counts, Nat.cast_natAbs, Nat.cast_natAbs, Int.cast_abs, Int.cast_abs, ← counts, abs_mul,
    abs_of_pos scale]

theorem neg_iff (counts : SignedCounts mantissa exponent n) : mantissa < 0 ↔ n < 0 := by
  have scale : (0 : ℚ) < 2 ^ exponent := by positivity
  rw [← Int.cast_lt (R := ℚ), ← Int.cast_lt (R := ℚ) (m := n), ← counts, Int.cast_zero,
    mul_neg_iff]
  simp only [scale, not_lt_of_gt scale, and_true, and_false, false_or]

theorem eq_zero_iff (counts : SignedCounts mantissa exponent n) : mantissa = 0 ↔ n = 0 := by
  have scale : (0 : ℚ) < 2 ^ exponent := by positivity
  rw [← Int.cast_inj (α := ℚ), ← Int.cast_inj (α := ℚ) (m := n), ← counts, Int.cast_zero,
    mul_eq_zero_iff_right scale.ne']

end SignedCounts

theorem Counts.signed {mantissa size : Nat} {exponent : Int}
    (counts : Counts mantissa exponent size) (sign : Sign) :
    SignedCounts (sign.apply mantissa) exponent (sign.apply size) := by
  rw [Counts] at counts
  cases sign
  · show ((-(mantissa : Int) : Int) : ℚ) * 2 ^ exponent = ((-(size : Int) : Int) : ℚ)
    push_cast
    rw [neg_mul, counts]
  · show ((mantissa : Int) : ℚ) * 2 ^ exponent = ((size : Int) : ℚ)
    exact_mod_cast counts

theorem natAbs_apply (sign : Sign) (size : Nat) : (sign.apply size).natAbs = size := by
  cases sign
  · exact Int.natAbs_neg _
  · rfl

/-! ### Doubles that are whole -/

variable {x : Float} {sign : Sign} {mantissa size : Nat} {exponent n : Int}
  {positive : 0 < mantissa}

theorem toInt?_of_zero (unpacked : x.toModel.unpack = .zero sign) : toInt? x = some 0 := by
  rw [toInt?, unpacked]

theorem toInt?_packed_zero (sign : Sign) :
    toInt? (Float.ofModel (Float.Model.pack (.zero sign))) = some 0 :=
  toInt?_of_zero (unpack_packed_zero sign)

theorem toInt?_of_finite (unpacked : x.toModel.unpack = .finite sign mantissa exponent positive)
    (counts : Counts mantissa exponent size) : toInt? x = some (sign.apply size) := by
  rw [toInt?, unpacked]
  by_cases upward : 0 ≤ exponent
  · simp only [if_pos upward, ← counts.of_nonneg upward, Nat.shiftLeft_eq]
  · have divides : mantissa % Nat.pow 2 (-exponent).toNat = 0 := by
      rw [← counts.of_nonpos (by omega)]
      exact Nat.mul_mod_left _ _
    have quotient : mantissa / Nat.pow 2 (-exponent).toNat = size := by
      rw [← counts.of_nonpos (by omega)]
      exact Nat.mul_div_cancel _ (by positivity)
    simp only [if_neg upward, if_pos divides]
    exact congrArg (fun (found : Nat) => some (sign.apply found)) quotient

/-- **A double is a whole number** if it is a zero, or its mantissa and exponent stand for one. -/
theorem toInt?_eq_some (whole : toInt? x = some n) :
    (∃ sign, x.toModel.unpack = .zero sign ∧ n = 0) ∨
      ∃ sign mantissa exponent positive size,
        x.toModel.unpack = .finite sign mantissa exponent positive ∧
          Counts mantissa exponent size ∧ n = sign.apply size := by
  rw [toInt?] at whole
  cases unpacked : x.toModel.unpack with
  | zero sign =>
    rw [unpacked] at whole
    cases whole
    exact .inl ⟨sign, rfl, rfl⟩
  | finite sign mantissa exponent positive =>
    rw [unpacked] at whole
    dsimp only at whole
    split_ifs at whole with upward divides
    · cases whole
      exact .inr ⟨sign, mantissa, exponent, positive, _, rfl, .upward _ upward, rfl⟩
    · cases whole
      have counts := Counts.downward (by omega) (Nat.dvd_of_mod_eq_zero divides)
      exact .inr ⟨sign, mantissa, exponent, positive, _, rfl, counts, rfl⟩
  | infinity sign =>
    rw [unpacked] at whole
    cases whole
  | notANumber =>
    rw [unpacked] at whole
    cases whole

/-- **A whole number is in the usual form**: tiny doubles are not whole. -/
theorem normal_of_whole (unpacked : x.toModel.unpack = .finite sign mantissa exponent positive)
    (counts : Counts mantissa exponent size) : Normal mantissa exponent := by
  refine (shape_of_unpack unpacked).resolve_right ?_
  rintro ⟨small, least⟩
  have total := counts.log2 (counts.size_pos positive)
  have short : mantissa.log2 < 52 := (Nat.log2_lt positive.ne').mpr small
  omega

/-- **A whole double stays the same number** when it is packed again. -/
theorem toInt?_pack_unpack (whole : toInt? x = some n) :
    toInt? (Float.ofModel (Float.Model.pack x.toModel.unpack)) = some n := by
  rcases toInt?_eq_some whole with
    ⟨sign, unpacked, rfl⟩ | ⟨sign, mantissa, exponent, positive, size, unpacked, counts, rfl⟩
  · rw [unpacked]
    exact toInt?_packed_zero sign
  · rw [unpacked]
    exact toInt?_of_finite (unpack_pack (normal_of_whole unpacked counts) sign positive) counts

/-! ### Rounding whole numbers -/

/-- **A whole number that rounding may make of another**: itself below 2⁵³, else some number that is
not below 2⁵³ and not much larger. -/
structure Near (n rounded : Int) : Prop where
  exact : n.natAbs < 2 ^ 53 → rounded = n
  large : 2 ^ 53 ≤ n.natAbs → 2 ^ 53 ≤ rounded.natAbs
  within : rounded.natAbs ≤ 4 * n.natAbs

/-- **A double near a whole number.** -/
def Rounds (x : Float) (n : Int) : Prop :=
  ∃ rounded, toInt? x = some rounded ∧ Near n rounded

theorem rounds_of_toInt? (whole : toInt? x = some n) : Rounds x n :=
  ⟨n, whole, fun _ => rfl, id, by omega⟩

theorem Rounds.exact (rounds : Rounds x n) (small : n.natAbs < 2 ^ 53) : toInt? x = some n := by
  obtain ⟨rounded, whole, near⟩ := rounds
  rw [whole, near.exact small]

/-- **Rounding a whole number** that is written with 53 digits or more. Doubles end beyond 2²⁰⁰. -/
theorem rounds_roundWithAccuracy (sign : Sign) (counts : Counts mantissa exponent size)
    (positive : 0 < size) (long : 52 ≤ mantissa.log2) (small : size < 2 ^ 200) :
    Rounds (Float.ofModel (Float.Model.pack
      (roundWithAccuracy Format.binary64 sign mantissa exponent .exact))) (sign.apply size) := by
  obtain ⟨extra, digits⟩ := Nat.exists_eq_add_of_le long
  have total := counts.log2 positive
  have bounded : size.log2 < 200 := (Nat.log2_lt positive.ne').mpr small
  have inRange : -1074 ≤ exponent + extra := by omega
  obtain ⟨rounded, scale, nonzero, result, lower, upper, least, most, exact⟩ :=
    roundWithAccuracy_eq sign digits inRange
  have normal : Normal rounded scale := ⟨lower, upper, by omega, by omega⟩
  have unpacked : (Float.Model.pack (roundWithAccuracy Format.binary64 sign mantissa exponent
      .exact)).unpack = .finite sign rounded scale nonzero := by
    rw [result]
    exact unpack_pack normal sign nonzero
  by_cases fits : size < 2 ^ 53
  · -- all digits beyond the 53rd stand behind the point of a whole number, so they are zeros
    have short : size.log2 < 53 := (Nat.log2_lt positive.ne').mpr fits
    have divides : 2 ^ extra ∣ mantissa := by
      rw [← counts.of_nonpos (by omega)]
      exact Dvd.dvd.mul_left (pow_dvd_pow 2 (by omega)) size
    obtain ⟨same, atScale⟩ := exact divides
    rw [← same] at counts
    exact rounds_of_toInt? (toInt?_of_finite unpacked (atScale ▸ counts.unshift))
  · have long : 53 ≤ size.log2 := (Nat.le_log2 positive.ne').mpr (by omega)
    refine ⟨_, toInt?_of_finite unpacked (.upward _ (by omega)), ?_, ?_, ?_⟩
    · intro small
      rw [natAbs_apply] at small
      exact absurd small fits
    · intro _
      rw [natAbs_apply, Nat.shiftLeft_eq]
      calc 2 ^ 53 = 2 ^ 52 * 2 ^ 1 := rfl
        _ ≤ rounded * 2 ^ scale.toNat :=
          Nat.mul_le_mul lower (Nat.pow_le_pow_right two_pos (by omega))
    · rw [natAbs_apply, natAbs_apply, Nat.shiftLeft_eq]
      calc rounded * 2 ^ scale.toNat ≤ 2 ^ 53 * 2 ^ (size.log2 - 51) :=
            Nat.mul_le_mul upper.le (Nat.pow_le_pow_right two_pos (by omega))
        _ = 2 ^ 2 * 2 ^ size.log2 := by
          rw [← pow_add, ← pow_add]
          congr 1
          omega
        _ ≤ 4 * size := Nat.mul_le_mul_left 4 (Nat.log2_self_le positive.ne')

theorem rounds_round (counts : Counts mantissa exponent size) (positive : 0 < size)
    (small : size < 2 ^ 200) :
    Rounds (Float.ofModel (Float.Model.pack
      (UnpackedFloat.round Format.binary64 sign mantissa exponent))) (sign.apply size) := by
  have total := counts.log2 positive
  have bounded : size.log2 < 200 := (Nat.log2_lt positive.ne').mpr small
  have target : Format.binary64.targetExponent (totalExponent mantissa exponent) =
      (mantissa.log2 : Int) + exponent - 52 := by
    show max ((mantissa.log2 : Int) + 1 + exponent - 53) (-1074) = _
    omega
  have count : (exponent - ((mantissa.log2 : Int) + exponent - 52)).toNat = 52 - mantissa.log2 := by
    omega
  have enough : 52 ≤ (mantissa * 2 ^ (52 - mantissa.log2)).log2 := by
    rw [log2_mul_two_pow (counts.mantissa_pos positive)]
    omega
  rw [UnpackedFloat.round, target, decreaseExponent, count, Nat.shiftLeft_eq]
  exact rounds_roundWithAccuracy _ (counts.shift _) positive enough small

/-- **Rounding a signed whole number.** -/
theorem rounds_normalize {mantissa : Int} (zeroSign : Sign)
    (counts : SignedCounts mantissa exponent n) (small : n.natAbs < 2 ^ 200) :
    Rounds (Float.ofModel (Float.Model.pack
      (UnpackedFloat.normalize Format.binary64 mantissa exponent zeroSign))) n := by
  have sameSign := counts.neg_iff
  have sameZero := counts.eq_zero_iff
  rw [UnpackedFloat.normalize]
  split
  · rename_i negative
    have below : mantissa < 0 := compare_lt_iff_lt.mp negative
    have same : Sign.negative.apply n.natAbs = n := by
      show -(n.natAbs : Int) = n
      omega
    rw [show (-mantissa).toNat = mantissa.natAbs by omega, ← same]
    exact rounds_round counts.natAbs (by omega) small
  · rename_i zero
    have none : mantissa = 0 := compare_eq_iff_eq.mp zero
    rw [sameZero.mp none]
    exact rounds_of_toInt? (toInt?_packed_zero zeroSign)
  · rename_i positive
    have above : 0 < mantissa := compare_gt_iff_gt.mp positive
    have same : Sign.positive.apply n.natAbs = n := by
      show (n.natAbs : Int) = n
      omega
    rw [show mantissa.toNat = mantissa.natAbs by omega, ← same]
    exact rounds_round counts.natAbs (by omega) small

/-- **The double nearest to a whole number is near it.** -/
theorem rounds_ofInt (small : n.natAbs < 2 ^ 200) : Rounds (ofInt n) n := by
  refine rounds_normalize .positive ?_ small
  rw [SignedCounts, zpow_zero, mul_one]

end Stencil.Double
