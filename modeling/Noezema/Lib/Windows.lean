import Mathlib

/-! # Windows at a stride

A text is sampled by windows of `size` symbols that begin at the multiples of `step`. A run of
`size + step - 1` symbols holds one of them whole, wherever it begins (`exists_window`).
-/

namespace Noezema.Lib

variable {α : Type*}

/-- `range(0, max(1, len - size + 1), step)`. -/
def windowStarts (size step len : Nat) : List Nat :=
  let stop := max 1 (len + 1 - size)
  List.range' 0 ((stop + step - 1) / step) step

def windows (size step : Nat) (v : List α) : List (List α) :=
  (windowStarts size step v.length).map fun i => (v.drop i).take size

variable {size step : Nat}

theorem mem_windowStarts (hstep : 0 < step) {len i : Nat} :
    i ∈ windowStarts size step len ↔ step ∣ i ∧ i < max 1 (len + 1 - size) := by
  rw [windowStarts, List.mem_range']
  have hcount : ∀ k stop, k < (stop + step - 1) / step ↔ step * k < stop := by
    intro k stop
    rw [Nat.lt_iff_add_one_le, Nat.le_div_iff_mul_le hstep, Nat.add_mul, Nat.one_mul,
      Nat.mul_comm k step]
    omega
  constructor
  · rintro ⟨k, hk, rfl⟩
    rw [hcount] at hk
    exact ⟨⟨k, by omega⟩, by omega⟩
  · rintro ⟨⟨k, rfl⟩, hk⟩
    exact ⟨k, (hcount k _).mpr hk, by omega⟩

/-- One of so many consecutive numbers is a multiple. -/
theorem exists_multiple (hstep : 0 < step) (p : Nat) : ∃ i, step ∣ i ∧ p ≤ i ∧ i < p + step := by
  refine ⟨step * ((p + step - 1) / step), ⟨_, rfl⟩, ?_, ?_⟩
  · have hlt := Nat.lt_mul_div_succ (p + step - 1) hstep
    rw [Nat.mul_add, Nat.mul_one] at hlt
    omega
  · have hle := Nat.mul_div_le (p + step - 1) step
    omega

/-- **A long run holds a window whole.** -/
theorem exists_window (hstep : 0 < step) (hsize : 0 < size) {run v : List α} (hrun : run <:+: v)
    (hlen : size + step - 1 ≤ run.length) :
    ∃ w ∈ windows size step v, w.length = size ∧ w <:+: run := by
  obtain ⟨before, after, rfl⟩ := hrun
  obtain ⟨i, hdvd, hle, hlt⟩ := exists_multiple hstep before.length
  obtain ⟨k, rfl⟩ : ∃ k, i = before.length + k := ⟨i - before.length, by omega⟩
  have hshort : (run.drop k).length = run.length - k := List.length_drop
  have hwindow : ((before ++ run ++ after).drop (before.length + k)).take size =
      (run.drop k).take size := by
    rw [List.append_assoc, ← List.drop_drop, List.drop_left,
      List.drop_append_of_le_length (by omega), List.take_append_of_le_length (by omega)]
  refine ⟨(run.drop k).take size, ?_, ?_, ?_⟩
  · refine List.mem_map.mpr ⟨before.length + k, (mem_windowStarts hstep).mpr ⟨hdvd, ?_⟩, hwindow⟩
    rw [List.length_append, List.length_append]
    omega
  · rw [List.length_take, hshort]
    omega
  · exact (List.take_prefix _ _).isInfix.trans (List.drop_suffix _ _).isInfix

theorem infix_of_mem_windows {w v : List α} (h : w ∈ windows size step v) : w <:+: v := by
  obtain ⟨i, -, rfl⟩ := List.mem_map.mp h
  exact (List.take_prefix _ _).isInfix.trans (List.drop_suffix _ _).isInfix

/-- A window is as long as it can be. -/
theorem length_of_mem_windows (hstep : 0 < step) {w v : List α} (h : w ∈ windows size step v) :
    w.length = min size v.length := by
  obtain ⟨i, hi, rfl⟩ := List.mem_map.mp h
  obtain ⟨-, hlt⟩ := (mem_windowStarts hstep).mp hi
  rw [List.length_take, List.length_drop]
  omega

end Noezema.Lib
