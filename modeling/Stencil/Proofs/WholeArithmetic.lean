/-
**Arithmetic of doubles on whole numbers.**

Each operation is taken apart by the shapes of its operands: a zero, or a mantissa with an exponent. It
computes exactly on these and rounds once, so that its result is near the exact one, and is the exact
one below 2⁵³.

* `toInt?_neg`: the sign is turned around exactly;
* `rounds_add`, `rounds_sub`, `rounds_mul`: **sum, difference and product are near the exact ones**;
* `toInt?_div`: **a quotient is exact** where the division leaves nothing;
* `toInt?_remainder`: **what a division leaves is exact**.
-/

import Stencil.Proofs.WholeDoubles

namespace Stencil.Double

open Float.Model Float.Model.UnpackedFloat

variable {x y : Float} {a b : Int}

/-! ### Signs -/

theorem apply_neg (sign : Sign) (n : Int) : (-sign).apply n = -sign.apply n := by
  cases sign with
  | negative => exact (neg_neg n).symm
  | positive => rfl

theorem apply_mul (sign other : Sign) (m n : Int) :
    (sign * other).apply (m * n) = sign.apply m * other.apply n := by
  cases sign <;> cases other
  · exact (neg_mul_neg m n).symm
  · exact (neg_mul m n).symm
  · exact (mul_neg m n).symm
  · rfl

theorem apply_div_mul (sign other : Sign) (m n : Int) :
    (sign / other).apply m * other.apply n = sign.apply (m * n) := by
  cases sign <;> cases other
  · exact mul_neg m n
  · exact neg_mul m n
  · exact neg_mul_neg m n
  · rfl

/-- What is left has the sign of the dividend. -/
theorem apply_tmod (sign other : Sign) (m n : Nat) :
    (sign.apply m).tmod (other.apply n) = sign.apply (m % n : Nat) := by
  cases sign <;> cases other <;> simp only [Sign.apply, Int.neg_tmod, Int.tmod_neg] <;> rfl

/-! ### Sums, differences and products -/

theorem toInt?_neg (whole : toInt? x = some a) : toInt? (-x) = some (-a) := by
  have unfolded : (-x).toModel = Float.Model.pack (UnpackedFloat.neg x.toModel.unpack) := rfl
  rcases toInt?_eq_some whole with
    ⟨sign, unpacked, rfl⟩ | ⟨sign, mantissa, exponent, positive, size, unpacked, counts, rfl⟩
  · rw [unpacked] at unfolded
    exact toInt?_of_zero (unfolded ▸ unpack_packed_zero (-sign))
  · rw [unpacked] at unfolded
    rw [← apply_neg]
    exact toInt?_of_finite
      (unfolded ▸ unpack_pack (normal_of_whole unpacked counts) (-sign) positive) counts

theorem SignedCounts.add {first second exponent : Int} (one : SignedCounts first exponent a)
    (two : SignedCounts second exponent b) : SignedCounts (first + second) exponent (a + b) := by
  rw [SignedCounts] at *
  push_cast
  rw [add_mul, one, two]

theorem SignedCounts.sub {first second exponent : Int} (one : SignedCounts first exponent a)
    (two : SignedCounts second exponent b) : SignedCounts (first - second) exponent (a - b) := by
  rw [SignedCounts] at *
  push_cast
  rw [sub_mul, one, two]

theorem Counts.mul {first second size other : Nat} {exponent scale : Int}
    (one : Counts first exponent size) (two : Counts second scale other) :
    Counts (first * second) (exponent + scale) (size * other) := by
  rw [Counts] at *
  push_cast
  rw [zpow_add₀ two_ne_zero, ← one, ← two]
  ring

/-- **The sum of doubles** is near the sum of the whole numbers that they are. -/
theorem rounds_add (wholeX : toInt? x = some a) (wholeY : toInt? y = some b)
    (small : (a + b).natAbs < 2 ^ 200) : Rounds (x + y) (a + b) := by
  show Rounds (Float.ofModel (Float.Model.pack
    (UnpackedFloat.add Format.binary64 x.toModel.unpack y.toModel.unpack))) (a + b)
  unfold UnpackedFloat.add
  rcases toInt?_eq_some wholeX with
    ⟨s, unpackedX, rfl⟩ | ⟨s, m, e, _, size, unpackedX, countsX, rfl⟩ <;>
  rcases toInt?_eq_some wholeY with
    ⟨t, unpackedY, rfl⟩ | ⟨t, n, f, _, other, unpackedY, countsY, rfl⟩ <;>
  rw [unpackedX, unpackedY] <;> dsimp only
  · split <;> exact rounds_of_toInt? (toInt?_packed_zero _)
  · rw [← unpackedY, zero_add]
    exact rounds_of_toInt? (toInt?_pack_unpack wholeY)
  · rw [← unpackedX, add_zero]
    exact rounds_of_toInt? (toInt?_pack_unpack wholeX)
  · have alignedX := (countsX.lower (min_le_left e f)).signed s
    have alignedY := (countsY.lower (min_le_right e f)).signed t
    exact rounds_normalize _ (alignedX.add alignedY) small

/-- **The difference of doubles** is near the difference of the whole numbers that they are. -/
theorem rounds_sub (wholeX : toInt? x = some a) (wholeY : toInt? y = some b)
    (small : (a - b).natAbs < 2 ^ 200) : Rounds (x - y) (a - b) := by
  show Rounds (Float.ofModel (Float.Model.pack
    (UnpackedFloat.sub Format.binary64 x.toModel.unpack y.toModel.unpack))) (a - b)
  unfold UnpackedFloat.sub
  rcases toInt?_eq_some wholeX with
    ⟨s, unpackedX, rfl⟩ | ⟨s, m, e, _, size, unpackedX, countsX, rfl⟩ <;>
  rcases toInt?_eq_some wholeY with
    ⟨t, unpackedY, rfl⟩ | ⟨t, n, f, _, other, unpackedY, countsY, rfl⟩ <;>
  rw [unpackedX, unpackedY] <;> dsimp only
  · split <;> exact rounds_of_toInt? (toInt?_packed_zero _)
  · have negated := toInt?_neg wholeY
    have unfolded : (-y).toModel = Float.Model.pack (UnpackedFloat.neg y.toModel.unpack) := rfl
    rw [unpackedY] at unfolded
    rw [zero_sub]
    exact rounds_of_toInt? (unfolded ▸ negated)
  · rw [← unpackedX, sub_zero]
    exact rounds_of_toInt? (toInt?_pack_unpack wholeX)
  · have alignedX := (countsX.lower (min_le_left e f)).signed s
    have alignedY := (countsY.lower (min_le_right e f)).signed t
    exact rounds_normalize _ (alignedX.sub alignedY) small

/-- **The product of doubles** is near the product of the whole numbers that they are. -/
theorem rounds_mul (wholeX : toInt? x = some a) (wholeY : toInt? y = some b)
    (small : (a * b).natAbs < 2 ^ 200) : Rounds (x * y) (a * b) := by
  show Rounds (Float.ofModel (Float.Model.pack
    (UnpackedFloat.mul Format.binary64 x.toModel.unpack y.toModel.unpack))) (a * b)
  unfold UnpackedFloat.mul
  rcases toInt?_eq_some wholeX with
    ⟨s, unpackedX, rfl⟩ | ⟨s, m, e, positive, size, unpackedX, countsX, rfl⟩ <;>
  rcases toInt?_eq_some wholeY with
    ⟨t, unpackedY, rfl⟩ | ⟨t, n, f, positive', other, unpackedY, countsY, rfl⟩ <;>
  rw [unpackedX, unpackedY] <;> dsimp only
  · rw [mul_zero]
    exact rounds_of_toInt? (toInt?_packed_zero _)
  · rw [zero_mul]
    exact rounds_of_toInt? (toInt?_packed_zero _)
  · rw [mul_zero]
    exact rounds_of_toInt? (toInt?_packed_zero _)
  · rw [Int.natAbs_mul, natAbs_apply, natAbs_apply] at small
    rw [← apply_mul, ← Nat.cast_mul]
    have long : 52 ≤ (m * n).log2 := by
      refine (Nat.le_log2 (by positivity)).mpr ?_
      calc 2 ^ 52 ≤ m := (normal_of_whole unpackedX countsX).lower
        _ ≤ m * n := Nat.le_mul_of_pos_right m positive'
    exact rounds_roundWithAccuracy _ (countsX.mul countsY)
      (Nat.mul_pos (countsX.size_pos positive) (countsY.size_pos positive')) long small

/-! ### Divisions that leave nothing -/

/-- The digits of the quotient are found to the last one, and with at least 53 of them. -/
theorem divCore_exact {m n quotient size : Nat} {e f : Int} (one : Counts m e (quotient * size))
    (two : Counts n f size) (positive : 0 < quotient) (nonzero : 0 < size)
    (small : quotient < 2 ^ 53) :
    ∃ extra : Nat, 52 ≤ quotient.log2 + extra ∧
      divCore Format.binary64 m e n f = (quotient * 2 ^ extra, -(extra : Int), .exact) := by
  have totalX := one.log2 (by positivity)
  have totalY := two.log2 nonzero
  have short : quotient.log2 < 53 := (Nat.log2_lt positive.ne').mpr small
  obtain ⟨below, above⟩ := log2_mul_bounds positive nonzero
  set target := min (e - f) (Format.binary64.targetExponent
    (totalExponent m e - totalExponent n f)) with isTarget
  have bound : target ≤ ((quotient * size).log2 : Int) - size.log2 - 53 := by
    refine (min_le_right _ _).trans ?_
    show max (((m.log2 : Int) + 1 + e) - ((n.log2 : Int) + 1 + f) - 53) (-1074) ≤ _
    omega
  have shifted : m <<< (e - f - target).toNat = quotient * 2 ^ (-target).toNat * n := by
    have dividend := one.lower (show f + target ≤ e by omega)
    have product := ((Counts.refl quotient).shift (-target).toNat).mul two
    rw [show e - (f + target) = e - f - target by ring] at dividend
    rw [show 0 - ((-target).toNat : Int) + f = f + target by omega] at product
    exact dividend.unique product
  refine ⟨(-target).toNat, by omega, ?_⟩
  rw [divCore, ← isTarget]
  simp only [shifted, Nat.mul_div_cancel _ (two.mantissa_pos nonzero), Nat.mul_mod_left]
  rw [show -((-target).toNat : Int) = target by omega]
  rfl

/-- **A division that leaves nothing is exact** if its quotient is below 2⁵³. -/
theorem toInt?_div {quotient : Int} (wholeX : toInt? x = some (quotient * b))
    (wholeY : toInt? y = some b) (nonzero : b ≠ 0) (small : quotient.natAbs < 2 ^ 53) :
    toInt? (x / y) = some quotient := by
  show toInt? (Float.ofModel (Float.Model.pack
    (UnpackedFloat.div Format.binary64 x.toModel.unpack y.toModel.unpack))) = some quotient
  rcases toInt?_eq_some wholeY with
    ⟨t, unpackedY, rfl⟩ | ⟨t, n, f, positive', divisor, unpackedY, countsY, rfl⟩
  · exact absurd rfl nonzero
  rcases toInt?_eq_some wholeX with
    ⟨s, unpackedX, zero⟩ | ⟨s, m, e, positive, dividend, unpackedX, countsX, same⟩
  · rw [(mul_eq_zero_iff_right nonzero).mp zero, unpackedX, unpackedY]
    exact toInt?_packed_zero _
  · have size : dividend = quotient.natAbs * divisor := by
      have sizes := congrArg Int.natAbs same
      rwa [Int.natAbs_mul, natAbs_apply, natAbs_apply, eq_comm] at sizes
    have signed : (s / t).apply quotient.natAbs = quotient := by
      refine mul_right_cancel₀ nonzero ?_
      rw [apply_div_mul, same, size, Nat.cast_mul]
    have dividendPositive := countsX.size_pos positive
    rw [size] at countsX dividendPositive
    have quotientPositive : 0 < quotient.natAbs := Nat.pos_of_mul_pos_right dividendPositive
    obtain ⟨extra, enough, exactly⟩ := divCore_exact countsX countsY quotientPositive
      (countsY.size_pos positive') small
    have counts := (Counts.refl quotient.natAbs).shift extra
    have long : 52 ≤ (quotient.natAbs * 2 ^ extra).log2 := by
      rwa [log2_mul_two_pow quotientPositive]
    have bounded : quotient.natAbs < 2 ^ 200 := small.trans (by norm_num)
    have rounds := rounds_roundWithAccuracy (s / t) counts quotientPositive long bounded
    rw [signed, zero_sub] at rounds
    rw [unpackedX, unpackedY]
    unfold UnpackedFloat.div
    dsimp only
    rw [exactly]
    exact rounds.exact small

/-! ### What divisions leave -/

theorem Counts.mod {first second size other : Nat} {exponent : Int}
    (one : Counts first exponent size) (two : Counts second exponent other) :
    Counts (first % second) exponent (size % other) := by
  rcases le_total 0 exponent with upward | downward
  · rw [← one.of_nonneg upward, ← two.of_nonneg upward, Nat.mul_mod_mul_right, ← Nat.shiftLeft_eq]
    exact .upward _ upward
  · rw [← one.of_nonpos downward, ← two.of_nonpos downward, Nat.mul_mod_mul_right]
    have counts := Counts.downward downward
      (dvd_mul_left (2 ^ (-exponent).toNat) (size % other))
    rwa [Nat.mul_div_cancel _ (by positivity)] at counts

/-- **What a division leaves is exact**, if it is below 2⁵³. -/
theorem toInt?_remainder (wholeX : toInt? x = some a) (wholeY : toInt? y = some b)
    (nonzero : b ≠ 0) (small : (a.tmod b).natAbs < 2 ^ 53) :
    toInt? (remainder x y) = some (a.tmod b) := by
  rcases toInt?_eq_some wholeY with
    ⟨t, unpackedY, rfl⟩ | ⟨t, n, f, _, other, unpackedY, countsY, rfl⟩
  · exact absurd rfl nonzero
  rcases toInt?_eq_some wholeX with
    ⟨s, unpackedX, rfl⟩ | ⟨s, m, e, _, size, unpackedX, countsX, rfl⟩
  · rw [remainder, unpackedX, unpackedY, Int.zero_tmod]
    exact toInt?_packed_zero s
  · rw [apply_tmod] at small ⊢
    rw [remainder, unpackedX, unpackedY]
    have rest := (countsX.lower (min_le_left e f)).mod (countsY.lower (min_le_right e f))
    exact (rounds_normalize s (rest.signed s) (small.trans (by norm_num))).exact small

end Stencil.Double
