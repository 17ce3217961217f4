import Mathlib.Algebra.Order.Ring.Rat
import Mathlib.Data.Rat.Floor
import Mathlib.Tactic.Linarith
import Mathlib.Tactic.Positivity

/-! # Rounded arithmetic

A floating-point number is a rational, and an operation on two of them is the exact
operation followed by a rounding. What a program's sign and bound checks need of the
rounding is that it is monotone, keeps what it has rounded, and keeps zero and one.
-/

namespace Noezema.Lib

/-- The rounding of each operation, the rounded square root, and the rounding to four
decimal places. -/
structure FloatArith where
  rnd : ℚ → ℚ
  rnd_mono : Monotone rnd
  rnd_rnd : ∀ x, rnd (rnd x) = rnd x
  rnd_zero : rnd 0 = 0
  rnd_one : rnd 1 = 1
  sqrt : ℚ → ℚ
  sqrt_nonneg : ∀ x, 0 ≤ x → 0 ≤ sqrt x
  round4 : ℚ → ℚ
  round4_mono : Monotone round4
  round4_zero : round4 0 = 0
  round4_one : round4 1 = 1

namespace FloatArith

variable (fl : FloatArith) {x y : ℚ}

theorem rnd_nonneg (h : 0 ≤ x) : 0 ≤ fl.rnd x := by
  rw [← fl.rnd_zero]
  exact fl.rnd_mono h

theorem rnd_le_one (h : x ≤ 1) : fl.rnd x ≤ 1 := by
  rw [← fl.rnd_one]
  exact fl.rnd_mono h

theorem one_le_rnd (h : 1 ≤ x) : 1 ≤ fl.rnd x := by
  rw [← fl.rnd_one]
  exact fl.rnd_mono h

theorem round4_nonneg (h : 0 ≤ x) : 0 ≤ fl.round4 x := by
  rw [← fl.round4_zero]
  exact fl.round4_mono h

theorem round4_le_one (h : x ≤ 1) : fl.round4 x ≤ 1 := by
  rw [← fl.round4_one]
  exact fl.round4_mono h

/-- A share is between zero and one. -/
theorem share_mem (hx : 0 ≤ x) (hy : 0 < y) (hxy : x ≤ y) :
    0 ≤ fl.rnd (x / y) ∧ fl.rnd (x / y) ≤ 1 :=
  ⟨fl.rnd_nonneg (div_nonneg hx hy.le), fl.rnd_le_one ((div_le_one hy).mpr hxy)⟩

theorem id_mono : Monotone (id : ℚ → ℚ) := monotone_id

theorem id_id (x : ℚ) : id (id x) = id x := rfl

theorem id_zero : id (0 : ℚ) = 0 := rfl

theorem id_one : id (1 : ℚ) = 1 := rfl

/-- The root of the whole part. -/
def wholeRoot (x : ℚ) : ℚ := Nat.sqrt x.num.toNat

theorem wholeRoot_nonneg (x : ℚ) (_ : 0 ≤ x) : 0 ≤ wholeRoot x := Nat.cast_nonneg _

/-- Rounding to four digits, half up. -/
def roundFour (x : ℚ) : ℚ := ⌊x * 10000 + 1 / 2⌋ / 10000

theorem roundFour_mono : Monotone roundFour := by
  intro x y h
  have hfloor : ⌊x * 10000 + 1 / 2⌋ ≤ ⌊y * 10000 + 1 / 2⌋ := Int.floor_mono (by linarith)
  have hcast : (⌊x * 10000 + 1 / 2⌋ : ℚ) ≤ ⌊y * 10000 + 1 / 2⌋ := by exact_mod_cast hfloor
  unfold roundFour
  linarith

theorem roundFour_zero : roundFour 0 = 0 := by norm_num [roundFour]

theorem roundFour_one : roundFour 1 = 1 := by norm_num [roundFour]

/-- Arithmetic without rounding, up to the root and the last digits shown. -/
def exact : FloatArith where
  rnd := id
  rnd_mono := id_mono
  rnd_rnd := id_id
  rnd_zero := id_zero
  rnd_one := id_one
  sqrt := wholeRoot
  sqrt_nonneg := wholeRoot_nonneg
  round4 := roundFour
  round4_mono := roundFour_mono
  round4_zero := roundFour_zero
  round4_one := roundFour_one

end FloatArith

end Noezema.Lib
