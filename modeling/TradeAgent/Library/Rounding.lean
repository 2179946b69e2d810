import Mathlib.Data.Int.Log
import Mathlib.Data.Rat.Floor
import Mathlib.Tactic.Linarith
import Mathlib.Tactic.Positivity
import Mathlib.Tactic.FieldSimp

/-! Rounding of exact rationals to a multiple of a quantum, in the modes of the
general decimal arithmetic: down (towards zero), floor, ceiling, half up (ties away
from zero) and half even. -/
namespace Rounding

inductive Mode where
  | down | floor | ceiling | halfUp | halfEven
  deriving DecidableEq, Repr

/-- The integer a rational rounds to. -/
def toIntegral : Mode → ℚ → ℤ
  | .down, x => if 0 ≤ x then ⌊x⌋ else ⌈x⌉
  | .floor, x => ⌊x⌋
  | .ceiling, x => ⌈x⌉
  | .halfUp, x => if 0 ≤ x then ⌊x + 1/2⌋ else ⌈x - 1/2⌉
  | .halfEven, x => if x - ⌊x⌋ = 1/2 ∧ ⌊x⌋ % 2 = 0 then ⌊x⌋ else ⌊x + 1/2⌋

/-- The multiple of `quantum` a rational rounds to. -/
def quantize (mode : Mode) (quantum x : ℚ) : ℚ := toIntegral mode (x / quantum) * quantum

/-- The result of an operation under a context of the given precision, ties to even. -/
def significant (digits : ℕ) (x : ℚ) : ℚ :=
  if x = 0 then 0 else quantize .halfEven (10 ^ (Int.log 10 |x| + 1 - digits)) x

theorem toIntegral_nonneg (mode : Mode) {x : ℚ} (nonneg : 0 ≤ x) : 0 ≤ toIntegral mode x := by
  cases mode with
  | down => simp [toIntegral, nonneg, Int.floor_nonneg]
  | floor => exact Int.floor_nonneg.mpr nonneg
  | ceiling => exact Int.ceil_nonneg nonneg
  | halfUp => simp only [toIntegral, if_pos nonneg]; exact Int.floor_nonneg.mpr (by linarith)
  | halfEven =>
    simp only [toIntegral]
    split
    next => exact Int.floor_nonneg.mpr nonneg
    next => exact Int.floor_nonneg.mpr (by linarith)

theorem quantize_nonneg (mode : Mode) {quantum x : ℚ} (unit : 0 ≤ quantum) (nonneg : 0 ≤ x) :
    0 ≤ quantize mode quantum x :=
  mul_nonneg (by exact_mod_cast toIntegral_nonneg mode (div_nonneg nonneg unit)) unit

theorem significant_nonneg {digits : ℕ} {x : ℚ} (nonneg : 0 ≤ x) : 0 ≤ significant digits x := by
  unfold significant
  split
  · exact le_rfl
  · exact quantize_nonneg .halfEven (zpow_nonneg (by norm_num) _) nonneg

theorem quantize_floor_le {quantum : ℚ} (unit : 0 < quantum) (x : ℚ) :
    quantize .floor quantum x ≤ x := by
  have below : (⌊x / quantum⌋ : ℚ) ≤ x / quantum := Int.floor_le _
  calc (⌊x / quantum⌋ : ℚ) * quantum ≤ x / quantum * quantum :=
        mul_le_mul_of_nonneg_right below unit.le
    _ = x := by field_simp

/-- Half-up rounding at most doubles: a value below half a unit vanishes. -/
theorem toIntegral_halfUp_le {x : ℚ} (nonneg : 0 ≤ x) : (toIntegral .halfUp x : ℚ) ≤ 2 * x := by
  simp only [toIntegral, if_pos nonneg]
  by_cases small : x < 1/2
  · have zero : ⌊x + 1/2⌋ = 0 := Int.floor_eq_zero_iff.mpr ⟨by linarith, by linarith⟩
    rw [zero]; simpa using nonneg
  · have below := Int.floor_le (x + 1/2)
    linarith

theorem quantize_halfUp_le {quantum x : ℚ} (unit : 0 < quantum) (nonneg : 0 ≤ x) :
    quantize .halfUp quantum x ≤ 2 * x := by
  have bound := toIntegral_halfUp_le (div_nonneg nonneg unit.le)
  calc (toIntegral .halfUp (x / quantum) : ℚ) * quantum ≤ 2 * (x / quantum) * quantum :=
        mul_le_mul_of_nonneg_right bound unit.le
    _ = 2 * x := by field_simp

theorem toIntegral_int (mode : Mode) (n : ℤ) : toIntegral mode n = n := by
  have half : ⌊(n : ℚ) + 1/2⌋ = n := by
    rw [Int.floor_eq_iff]; constructor <;> linarith
  have halfBelow : ⌈(n : ℚ) - 1/2⌉ = n := by
    rw [Int.ceil_eq_iff]; constructor <;> linarith
  cases mode with
  | down => simp [toIntegral]
  | floor => exact Int.floor_intCast n
  | ceiling => exact Int.ceil_intCast n
  | halfUp => simp only [toIntegral, half, halfBelow, ite_self]
  | halfEven => simp only [toIntegral, half, Int.floor_intCast, ite_self]

theorem toIntegral_mono (mode : Mode) {x y : ℚ} (le : x ≤ y) : toIntegral mode x ≤ toIntegral mode y := by
  have floors := Int.floor_mono le
  have ceilings := Int.ceil_mono le
  cases mode with
  | floor => exact floors
  | ceiling => exact ceilings
  | down =>
    simp only [toIntegral]
    split <;> split
    next => exact floors
    next positive negative => exact absurd (positive.trans le) negative
    next negative positive =>
      exact (Int.ceil_le.mpr (by simpa using (not_le.mp negative).le)).trans
        (Int.floor_nonneg.mpr positive)
    next => exact ceilings
  | halfUp =>
    simp only [toIntegral]
    split <;> split
    next => exact Int.floor_mono (by linarith)
    next positive negative => exact absurd (positive.trans le) negative
    next negative positive =>
      have below : ⌈x - 1/2⌉ ≤ 0 := Int.ceil_le.mpr (by push_cast; linarith)
      exact below.trans (Int.floor_nonneg.mpr (by linarith))
    next => exact Int.ceil_mono (by linarith)
  | halfEven =>
    have halves : ⌊x + 1/2⌋ ≤ ⌊y + 1/2⌋ := Int.floor_mono (by linarith)
    have above : ⌊x⌋ ≤ ⌊x + 1/2⌋ := Int.floor_mono (by linarith)
    simp only [toIntegral]
    split <;> split
    next => exact floors
    next => exact above.trans halves
    next odd tie =>
      -- Below a tie that rounds down, nothing rounds past the tie's floor.
      rcases eq_or_lt_of_le le with rfl | less
      · exact absurd tie odd
      · have short : x + 1/2 < (⌊y⌋ + 1 : ℤ) := by push_cast; linarith [tie.1]
        exact Int.lt_add_one_iff.mp (Int.floor_lt.mpr short)
    next => exact halves

theorem quantize_mono (mode : Mode) {quantum x y : ℚ} (unit : 0 < quantum) (le : x ≤ y) :
    quantize mode quantum x ≤ quantize mode quantum y := by
  have scaled : x / quantum ≤ y / quantum := div_le_div_of_nonneg_right le unit.le
  exact mul_le_mul_of_nonneg_right (by exact_mod_cast toIntegral_mono mode scaled) unit.le

/-- Only a positive value rounds to a positive multiple. -/
theorem pos_of_quantize_pos {mode : Mode} {quantum x : ℚ} (unit : 0 < quantum)
    (rounded : 0 < quantize mode quantum x) : 0 < x := by
  by_contra negative
  have bounded := quantize_mono mode unit (not_lt.mp negative)
  have zero : quantize mode quantum 0 = 0 := by cases mode <;> norm_num [quantize, toIntegral]
  linarith

/-- A multiple of the quantum is left alone. -/
theorem quantize_multiple (mode : Mode) {quantum : ℚ} (unit : 0 < quantum) (n : ℤ) :
    quantize mode quantum (n * quantum) = n * quantum := by
  rw [quantize, mul_div_cancel_right₀ _ unit.ne', toIntegral_int]

@[simp] theorem quantize_zero (mode : Mode) (quantum : ℚ) : quantize mode quantum 0 = 0 := by
  have whole := toIntegral_int mode 0
  rw [Int.cast_zero] at whole
  rw [quantize, zero_div, whole, Int.cast_zero, zero_mul]

/-- Rounded up, a sum is at most its parts rounded up. -/
theorem quantize_ceiling_add_le {quantum : ℚ} (unit : 0 ≤ quantum) (x y : ℚ) :
    quantize .ceiling quantum (x + y) ≤ quantize .ceiling quantum x + quantize .ceiling quantum y := by
  unfold quantize
  rw [← add_mul, add_div]
  refine mul_le_mul_of_nonneg_right ?_ unit
  exact_mod_cast Int.ceil_add_le (x / quantum) (y / quantum)

theorem quantize_power (mode : Mode) {a b : ℤ} (le : a ≤ b) :
    quantize mode ((10 : ℚ) ^ a) (10 ^ b) = 10 ^ b := by
  obtain ⟨k, rfl⟩ := Int.exists_add_of_le le
  have split : (10 : ℚ) ^ (a + k) = ((10 ^ k : ℕ) : ℤ) * 10 ^ a := by
    rw [zpow_add₀ (by norm_num), mul_comm]; norm_num
  rw [split]
  exact quantize_multiple mode (zpow_pos (by norm_num) _) _

/-- Rounding to a precision keeps the order of nonnegative numbers. -/
theorem significant_mono {digits : ℕ} (some : 0 < digits) {x y : ℚ} (nonneg : 0 ≤ x) (le : x ≤ y) :
    significant digits x ≤ significant digits y := by
  rcases eq_or_lt_of_le nonneg with rfl | positive
  · simp only [significant, if_true]
    split
    next => exact le_refl _
    next => exact quantize_nonneg _ (zpow_pos (by norm_num) _).le le
  · have positiveY : 0 < y := lt_of_lt_of_le positive le
    simp only [significant, if_neg positive.ne', if_neg positiveY.ne', abs_of_pos positive,
      abs_of_pos positiveY]
    have logs : Int.log 10 x ≤ Int.log 10 y := Int.log_mono_right positive le
    rcases eq_or_lt_of_le logs with same | apart
    · rw [same]
      exact quantize_mono _ (zpow_pos (by norm_num) _) le
    · -- Different magnitudes: a power of ten separates the two, and rounds to itself.
      have high : x ≤ 10 ^ (Int.log 10 x + 1) := by
        exact_mod_cast (Int.lt_zpow_succ_log_self (by norm_num) x).le
      have low : (10 : ℚ) ^ Int.log 10 y ≤ y := by
        exact_mod_cast Int.zpow_log_le_self (by norm_num : 1 < 10) positiveY
      calc quantize .halfEven (10 ^ (Int.log 10 x + 1 - digits)) x
          ≤ quantize .halfEven (10 ^ (Int.log 10 x + 1 - digits)) (10 ^ (Int.log 10 x + 1)) :=
            quantize_mono _ (zpow_pos (by norm_num) _) high
        _ = 10 ^ (Int.log 10 x + 1) := quantize_power _ (by omega)
        _ ≤ 10 ^ Int.log 10 y := zpow_le_zpow_right₀ (by norm_num) (by omega)
        _ = quantize .halfEven (10 ^ (Int.log 10 y + 1 - digits)) (10 ^ Int.log 10 y) :=
            (quantize_power _ (by omega)).symm
        _ ≤ quantize .halfEven (10 ^ (Int.log 10 y + 1 - digits)) y :=
            quantize_mono _ (zpow_pos (by norm_num) _) low

end Rounding
