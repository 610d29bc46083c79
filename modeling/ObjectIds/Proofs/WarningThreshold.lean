import Mathlib.Algebra.Group.Nat.Defs
import ObjectIds.Consumption.Remaining

/-!
# Counts at the threshold

Rounding to 53 significant bits leaves a number alone whose last bits are zero, and it never
crosses a power of two.  So below 2⁵³ the rule for a warning that has to do with the number
of ids left, and not with their share, is exact.
-/

namespace ObjectIds

namespace Binary64

theorem spacing_eq (magnitude : Nat) :
    spacing magnitude = 2 ^ (magnitude.log2 + 1 - precision) := by
  rw [spacing, Nat.one_shiftLeft]

theorem spacing_pos (magnitude : Nat) : 0 < spacing magnitude := by
  rw [spacing_eq]
  exact Nat.two_pow_pos _

theorem nearestNat_of_lt_two_pow {magnitude : Nat} (small : magnitude < 2 ^ 53) :
    nearestNat magnitude = magnitude :=
  nearestNat_of_lt (by rwa [precision, Nat.one_shiftLeft])

theorem nearestNat_of_dvd {magnitude : Nat} (aligned : spacing magnitude ∣ magnitude) :
    nearestNat magnitude = magnitude := by
  have noExcess : magnitude % spacing magnitude = 0 := Nat.mod_eq_zero_of_dvd aligned
  have positive := spacing_pos magnitude
  simp [nearestNat, noExcess, positive, Nat.div_mul_cancel aligned]

/-- Numbers of at most 53 significant bits need no rounding. -/
theorem nearestNat_mul_two_pow {significand : Nat} (small : significand < 2 ^ 53)
    (exponent : Nat) :
    nearestNat (significand * 2 ^ exponent) = significand * 2 ^ exponent := by
  apply nearestNat_of_dvd
  by_cases isZero : significand = 0
  · simp [isZero]
  · have positive := Nat.two_pow_pos exponent
    have bits : (significand * 2 ^ exponent).log2 < 53 + exponent := by
      rw [Nat.log2_lt (Nat.mul_ne_zero isZero (Nat.ne_of_gt positive)), Nat.pow_add]
      exact Nat.mul_lt_mul_of_pos_right small positive
    rw [spacing_eq]
    refine Nat.dvd_mul_left_of_dvd (Nat.pow_dvd_pow 2 ?_) _
    unfold precision
    omega

/-- Rounding does not go below the multiple of the spacing that comes before. -/
theorem floor_le_nearestNat (magnitude : Nat) :
    magnitude / spacing magnitude * spacing magnitude ≤ nearestNat magnitude := by
  unfold nearestNat
  simp only
  split
  · exact Nat.le_refl _
  · exact Nat.mul_le_mul_right _ (Nat.le_succ _)

/-- Rounding does not go below the highest power of two in a number. -/
theorem le_nearestNat {magnitude : Nat} (notZero : magnitude ≠ 0) :
    2 ^ magnitude.log2 ≤ nearestNat magnitude := by
  have aligned : spacing magnitude ∣ 2 ^ magnitude.log2 := by
    rw [spacing_eq]
    exact Nat.pow_dvd_pow 2 (by unfold precision; omega)
  calc
    2 ^ magnitude.log2 = 2 ^ magnitude.log2 / spacing magnitude * spacing magnitude :=
      (Nat.div_mul_cancel aligned).symm
    _ ≤ magnitude / spacing magnitude * spacing magnitude :=
      Nat.mul_le_mul_right _ (Nat.div_le_div_right (Nat.log2_self_le notZero))
    _ ≤ nearestNat magnitude := floor_le_nearestNat magnitude

theorem le_nearestNat_of_le {magnitude : Nat} (large : 2 ^ 53 ≤ magnitude) :
    2 ^ 53 ≤ nearestNat magnitude := by
  have notZero : magnitude ≠ 0 := by omega
  have bits := (Nat.le_log2 notZero).2 large
  exact Nat.le_trans (Nat.pow_le_pow_right (by decide) bits) (le_nearestNat notZero)

/-- Whole numbers below 2⁵³ need no rounding. -/
theorem nearest_mul_one {number : Int} (small : number.natAbs < 2 ^ 53) :
    nearest (number * one) = number * one := by
  have magnitude : (number * one).natAbs = number.natAbs * 2 ^ 53 := by
    rw [Int.natAbs_mul]
    rfl
  unfold nearest
  rw [magnitude, nearestNat_mul_two_pow small, ← magnitude]
  split <;> omega

end Binary64

namespace Consumption

/-- With five ids left or fewer there is a warning. -/
theorem isRunningOut_of_few_left {available consumed : Nat} (few : available ≤ consumed + 5)
    (small : available < 2 ^ 53) : isRunningOut available consumed = true := by
  have exactly := Binary64.nearestNat_of_lt_two_pow small
  have reached : (available : Int) - 5 ≤ Binary64.nearestNat consumed := by
    by_cases isSmall : consumed < 2 ^ 53
    · rw [Binary64.nearestNat_of_lt_two_pow isSmall]
      omega
    · have large := Binary64.le_nearestNat_of_le (Nat.le_of_not_lt isSmall)
      omega
  have positive : (0 : Int) ≤ Binary64.one := by decide
  have fewLeft : ((available : Int) - 5) * Binary64.one ≤
      Binary64.nearestNat consumed * Binary64.one :=
    Int.mul_le_mul_of_nonneg_right reached positive
  have manyLeft : ((available : Int) - 25) * Binary64.one ≤
      Binary64.nearestNat consumed * Binary64.one :=
    Int.mul_le_mul_of_nonneg_right (by omega) positive
  unfold isRunningOut warningThreshold
  simp only [exactly, decide_eq_true_eq]
  rw [Binary64.nearest_mul_one (by omega), Binary64.nearest_mul_one (by omega)]
  exact Int.max_le.2 ⟨Int.le_trans (Int.min_le_right _ _) fewLeft, manyLeft⟩

end Consumption

end ObjectIds
