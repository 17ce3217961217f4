import Mathlib.Algebra.Order.Field.Power
import Mathlib.Data.Int.Log
import Mathlib.Data.Rat.Floor
import Mathlib.Tactic.Linarith
import Mathlib.Tactic.Positivity

/-! # Rounding to the nearest

The nearest integer, a half to the even neighbour, and with it the nearest number with so
many binary digits and the rounding of such a number to decimal places.
-/

namespace Noezema.Lib

/-- The nearest integer, a half to the even neighbour. -/
def roundHalfEven (x : ℚ) : Int :=
  if x - ⌊x⌋ < 1 / 2 then ⌊x⌋
  else if 1 / 2 < x - ⌊x⌋ then ⌊x⌋ + 1
  else if ⌊x⌋ % 2 = 0 then ⌊x⌋ else ⌊x⌋ + 1

theorem le_roundHalfEven {x : ℚ} {n : Int} (h : n ≤ x) : n ≤ roundHalfEven x := by
  have hfloor : n ≤ ⌊x⌋ := Int.le_floor.mpr h
  unfold roundHalfEven
  split_ifs <;> omega

theorem roundHalfEven_le {x : ℚ} {n : Int} (h : x ≤ n) : roundHalfEven x ≤ n := by
  have hfloor : ⌊x⌋ ≤ n := by
    have := (Int.floor_le x).trans h
    exact_mod_cast this
  by_cases hx : x = ⌊x⌋
  · -- an integer is its own rounding
    have hzero : x - ⌊x⌋ < 1 / 2 := by
      rw [← hx]
      norm_num
    rw [roundHalfEven, if_pos hzero]
    exact hfloor
  · have hlt : ⌊x⌋ < n := by
      have : (⌊x⌋ : ℚ) < n := lt_of_lt_of_le (lt_of_le_of_ne (Int.floor_le x) (Ne.symm hx)) h
      exact_mod_cast this
    unfold roundHalfEven
    split_ifs <;> omega

/-! ## Binary numbers -/

section Binary

variable (precision : Nat) (least : Int) {x : ℚ}

/-- The place of the last digit, where `precision` digits are kept from the leading one on
and no digit stands below the place `least`. -/
def lastPlace (x : ℚ) : Int := max (Int.log 2 |x| + 1 - precision) least

/-- The nearest number with these digits. -/
def nearest (x : ℚ) : ℚ :=
  roundHalfEven (x / 2 ^ lastPlace precision least x) * 2 ^ lastPlace precision least x

theorem nearest_nonneg (h : 0 ≤ x) : 0 ≤ nearest precision least x := by
  have hround : 0 ≤ roundHalfEven (x / 2 ^ lastPlace precision least x) :=
    le_roundHalfEven (by push_cast; positivity)
  exact mul_nonneg (by exact_mod_cast hround) (by positivity)

/-- Up to one, the digits stand behind the point. -/
theorem lastPlace_nonpos (hprecision : 1 ≤ precision) (hleast : least ≤ 0) (h₀ : 0 ≤ x)
    (h₁ : x ≤ 1) : lastPlace precision least x ≤ 0 := by
  have hlog : Int.log 2 |x| ≤ 0 := by
    rw [abs_of_nonneg h₀]
    rcases h₀.eq_or_lt with rfl | hpos
    · rw [Int.log_zero_right]
    · exact (Int.log_mono_right hpos h₁).trans (Int.log_one_right 2).le
  rw [lastPlace]
  omega

theorem nearest_le_one (hprecision : 1 ≤ precision) (hleast : least ≤ 0) (h₀ : 0 ≤ x)
    (h₁ : x ≤ 1) : nearest precision least x ≤ 1 := by
  obtain ⟨n, hn⟩ :=
    Int.eq_ofNat_of_zero_le (neg_nonneg.mpr (lastPlace_nonpos _ _ hprecision hleast h₀ h₁))
  have hplace : lastPlace precision least x = -(n : Int) := by omega
  have hunit : (0 : ℚ) < 2 ^ n := by positivity
  have hround : roundHalfEven (x / 2 ^ lastPlace precision least x) ≤ 2 ^ n := by
    refine roundHalfEven_le ?_
    rw [hplace, zpow_neg, zpow_natCast, div_inv_eq_mul]
    push_cast
    exact mul_le_of_le_one_left hunit.le h₁
  have hcast : (roundHalfEven (x / 2 ^ lastPlace precision least x) : ℚ) ≤ 2 ^ n := by
    exact_mod_cast hround
  rw [nearest]
  rw [hplace] at hcast ⊢
  rw [zpow_neg, zpow_natCast] at hcast ⊢
  rw [← div_eq_mul_inv]
  exact (div_le_one hunit).mpr hcast

end Binary

/-- The nearest number of the format with 53 digits. -/
def binary64 : ℚ → ℚ := nearest 53 (-1074)

/-- The number nearest to a share is a share. -/
theorem binary64_mem {x : ℚ} (h₀ : 0 ≤ x) (h₁ : x ≤ 1) : 0 ≤ binary64 x ∧ binary64 x ≤ 1 :=
  ⟨nearest_nonneg _ _ h₀, nearest_le_one _ _ (by decide) (by decide) h₀ h₁⟩

/-- The binary number nearest to the rounding to so many decimal places. -/
def roundDecimals (places : Nat) (x : ℚ) : ℚ :=
  binary64 (roundHalfEven (x * 10 ^ places) / 10 ^ places)

-- three tenths are a little less than their decimal, and so is a sixteenth of them
example : roundDecimals 4 (binary64 (3 / 10) / 16) = binary64 (187 / 10000) := by decide +kernel

theorem roundDecimals_mem (places : Nat) {x : ℚ} (h₀ : 0 ≤ x) (h₁ : x ≤ 1) :
    0 ≤ roundDecimals places x ∧ roundDecimals places x ≤ 1 := by
  have hpow : (0 : ℚ) < 10 ^ places := by positivity
  have hlow : 0 ≤ roundHalfEven (x * 10 ^ places) := le_roundHalfEven (by push_cast; positivity)
  have hhigh : roundHalfEven (x * 10 ^ places) ≤ 10 ^ places := by
    refine roundHalfEven_le ?_
    push_cast
    exact mul_le_of_le_one_left hpow.le h₁
  have hlowQ : (0 : ℚ) ≤ roundHalfEven (x * 10 ^ places) := by exact_mod_cast hlow
  have hhighQ : (roundHalfEven (x * 10 ^ places) : ℚ) ≤ 10 ^ places := by exact_mod_cast hhigh
  exact binary64_mem (div_nonneg hlowQ hpow.le) ((div_le_one hpow).mpr hhighQ)

end Noezema.Lib
