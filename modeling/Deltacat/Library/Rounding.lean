import Mathlib.Data.Int.Log
import Mathlib.Data.Rat.Floor
import Mathlib.Tactic

/-!
# Rounding to the nearest number

Numbers are rounded to the nearest integer, and to the nearest number with 53
binary digits, ties going to the even neighbour. Neither rounding crosses an
integer of fewer than 53 binary digits.
-/

namespace Deltacat.Library

/-- The nearest integer, the even one of two. -/
def roundHalfEven (value : ℚ) : ℤ :=
  if value - ⌊value⌋ < 1 / 2 then ⌊value⌋
  else if 1 / 2 < value - ⌊value⌋ then ⌊value⌋ + 1
  else if ⌊value⌋ % 2 = 0 then ⌊value⌋
  else ⌊value⌋ + 1

/-- The nearest number with 53 binary digits. -/
def toDouble (value : ℚ) : ℚ :=
  if value = 0 then 0
  else
    let unit : ℚ := 2 ^ (Int.log 2 |value| - 52)
    roundHalfEven (value / unit) * unit

theorem roundHalfEven_le {value : ℚ} {bound : ℤ} (le : value ≤ bound) :
    roundHalfEven value ≤ bound := by
  have floorLe : ⌊value⌋ ≤ bound := Int.floor_le_iff.mpr (by linarith)
  rcases floorLe.lt_or_eq with below | atBound
  · unfold roundHalfEven
    split_ifs <;> omega
  · have noFraction : value - ⌊value⌋ < 1 / 2 := by
      rw [atBound]
      linarith
    rw [roundHalfEven, if_pos noFraction]
    exact floorLe

theorem le_roundHalfEven {value : ℚ} {bound : ℤ} (le : bound ≤ value) :
    bound ≤ roundHalfEven value := by
  have leFloor : bound ≤ ⌊value⌋ := Int.le_floor.mpr le
  unfold roundHalfEven
  split_ifs <;> omega

theorem roundHalfEven_intCast (value : ℤ) : roundHalfEven value = value :=
  le_antisymm (roundHalfEven_le le_rfl) (le_roundHalfEven le_rfl)

/-- In the units of a number below `2 ^ 53` an integer is an integer. -/
private theorem exists_units {value : ℚ} (nonzero : value ≠ 0) (small : |value| < 2 ^ 53)
    (number : ℤ) : ∃ units : ℤ, (number : ℚ) / 2 ^ (Int.log 2 |value| - 52) = units := by
  have notAbove : Int.log 2 |value| < 53 := by
    apply (Int.lt_zpow_iff_log_lt one_lt_two (abs_pos.mpr nonzero)).mp
    exact_mod_cast small
  obtain ⟨exponent, isExponent⟩ : ∃ exponent : ℕ, 52 - Int.log 2 |value| = exponent :=
    Int.eq_ofNat_of_zero_le (by omega)
  refine ⟨number * 2 ^ exponent, ?_⟩
  have opposite : Int.log 2 |value| - 52 = -(exponent : ℤ) := by omega
  rw [opposite, zpow_neg, zpow_natCast, div_inv_eq_mul]
  push_cast
  rfl

theorem toDouble_le {value : ℚ} {bound : ℤ} (small : |value| < 2 ^ 53) (le : value ≤ bound) :
    toDouble value ≤ bound := by
  unfold toDouble
  split_ifs with isZero
  · exact isZero ▸ le
  · obtain ⟨units, isUnits⟩ := exists_units isZero small bound
    have unitPos : (0 : ℚ) < 2 ^ (Int.log 2 |value| - 52) := by positivity
    have rounded : roundHalfEven (value / 2 ^ (Int.log 2 |value| - 52)) ≤ units := by
      apply roundHalfEven_le
      rw [← isUnits]
      exact div_le_div_of_nonneg_right le unitPos.le
    calc (roundHalfEven (value / 2 ^ (Int.log 2 |value| - 52)) : ℚ) * 2 ^ (Int.log 2 |value| - 52)
        ≤ units * 2 ^ (Int.log 2 |value| - 52) :=
          mul_le_mul_of_nonneg_right (by exact_mod_cast rounded) unitPos.le
      _ = bound := by rw [← isUnits, div_mul_cancel₀ _ unitPos.ne']

theorem le_toDouble {value : ℚ} {bound : ℤ} (small : |value| < 2 ^ 53) (le : bound ≤ value) :
    bound ≤ toDouble value := by
  unfold toDouble
  split_ifs with isZero
  · exact isZero ▸ le
  · obtain ⟨units, isUnits⟩ := exists_units isZero small bound
    have unitPos : (0 : ℚ) < 2 ^ (Int.log 2 |value| - 52) := by positivity
    have rounded : units ≤ roundHalfEven (value / 2 ^ (Int.log 2 |value| - 52)) := by
      apply le_roundHalfEven
      rw [← isUnits]
      exact div_le_div_of_nonneg_right le unitPos.le
    calc (bound : ℚ) = units * 2 ^ (Int.log 2 |value| - 52) := by
          rw [← isUnits, div_mul_cancel₀ _ unitPos.ne']
      _ ≤ roundHalfEven (value / 2 ^ (Int.log 2 |value| - 52)) * 2 ^ (Int.log 2 |value| - 52) :=
          mul_le_mul_of_nonneg_right (by exact_mod_cast rounded) unitPos.le

theorem toDouble_intCast {value : ℤ} (small : |value| < 2 ^ 53) : toDouble value = value := by
  have smallCast : |(value : ℚ)| < 2 ^ 53 := by exact_mod_cast small
  exact le_antisymm (toDouble_le smallCast le_rfl) (le_toDouble smallCast le_rfl)

end Deltacat.Library
