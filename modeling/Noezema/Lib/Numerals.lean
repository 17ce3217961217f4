import Mathlib

/-! # Numerals

A numeral is written with the digits of its integer part, whole or in groups of three, and the
digits of its fraction. Zeros at the end of a fraction do not count. The groups of an integer part
are unique (`ThousandGroups.unique`).
-/

namespace Noezema.Lib

variable {α : Type*}

/-- Digits in groups of three, the first of one to three. -/
structure ThousandGroups (d : List α) (groups : List (List α)) : Prop where
  flatten : groups.flatten = d
  first : ∀ g ∈ groups.head?, 1 ≤ g.length ∧ g.length ≤ 3
  rest : ∀ g ∈ groups.tail, g.length = 3
  groups_ne : groups ≠ []

/-- Three digits at a time from the end. -/
def thousandGroupsFrom : Nat → List α → List (List α)
  | turns + 1, d =>
    if d.length ≤ 3 then [d]
    else thousandGroupsFrom turns (d.take (d.length - 3)) ++ [d.drop (d.length - 3)]
  | 0, d => [d]

def thousandGroups (d : List α) : List (List α) := thousandGroupsFrom d.length d

theorem thousandGroupsFrom_groups {turns : Nat} {d : List α} (hd : d ≠ [])
    (hturns : d.length ≤ turns) : ThousandGroups d (thousandGroupsFrom turns d) := by
  induction turns generalizing d with
  | zero => exact absurd (List.length_eq_zero_iff.mp (Nat.le_zero.mp hturns)) hd
  | succ turns ih =>
    rw [thousandGroupsFrom]
    have hpos := List.length_pos_iff.mpr hd
    split
    · rename_i hshort
      refine ⟨by simp, ?_, by simp, by simp⟩
      intro g hg
      obtain rfl : d = g := by simpa using hg
      exact ⟨hpos, hshort⟩
    · rename_i hlong
      have hlen : (d.take (d.length - 3)).length = d.length - 3 := by
        rw [List.length_take]
        omega
      have hne : d.take (d.length - 3) ≠ [] := by
        rw [← List.length_pos_iff, hlen]
        omega
      have hgroups := ih hne (by rw [hlen]; omega)
      obtain ⟨g, gs, hcons⟩ := List.exists_cons_of_ne_nil hgroups.groups_ne
      refine ⟨?_, ?_, ?_, by simp⟩
      · rw [List.flatten_append, hgroups.flatten, List.flatten_singleton, List.take_append_drop]
      · have hfirst := hgroups.first
        rw [hcons] at hfirst ⊢
        exact hfirst
      · have hrest := hgroups.rest
        rw [hcons] at hrest ⊢
        intro x hx
        rcases List.mem_append.mp hx with hx | hx
        · exact hrest x hx
        · rw [List.mem_singleton.mp hx, List.length_drop]
          omega

theorem thousandGroups_groups {d : List α} (hd : d ≠ []) :
    ThousandGroups d (thousandGroups d) := thousandGroupsFrom_groups hd (le_refl _)

namespace ThousandGroups

variable {d : List α} {groups groups' : List (List α)}

theorem length_eq (h : ThousandGroups d groups) :
    ∃ first, 1 ≤ first ∧ first ≤ 3 ∧
      groups.map List.length = first :: List.replicate (groups.length - 1) 3 ∧
      d.length = first + 3 * (groups.length - 1) := by
  obtain ⟨g, gs, rfl⟩ := List.exists_cons_of_ne_nil h.groups_ne
  obtain ⟨hpos, hle⟩ := h.first g rfl
  have hrest : gs.map List.length = List.replicate gs.length 3 := by
    rw [List.eq_replicate_iff]
    refine ⟨List.length_map _, ?_⟩
    intro n hn
    obtain ⟨x, hx, rfl⟩ := List.mem_map.mp hn
    exact h.rest x hx
  refine ⟨g.length, hpos, hle, ?_, ?_⟩
  · rw [List.map_cons, hrest, List.length_cons, Nat.add_sub_cancel]
  · rw [← h.flatten, List.length_flatten, List.map_cons, hrest, List.sum_cons,
      List.sum_replicate, List.length_cons, Nat.add_sub_cancel, smul_eq_mul, Nat.mul_comm]

/-- **There is one way to group digits.** -/
theorem unique (h : ThousandGroups d groups) (h' : ThousandGroups d groups') :
    groups = groups' := by
  obtain ⟨first, hpos, hle, hmap, hlen⟩ := h.length_eq
  obtain ⟨first', hpos', hle', hmap', hlen'⟩ := h'.length_eq
  rw [List.eq_iff_flatten_eq]
  refine ⟨h.flatten.trans h'.flatten.symm, ?_⟩
  have hcount : groups.length - 1 = groups'.length - 1 := by omega
  have hfirst : first = first' := by omega
  rw [hmap, hmap', hcount, hfirst]

theorem one_iff (h : ThousandGroups d groups) : groups.length = 1 ↔ d.length ≤ 3 := by
  obtain ⟨first, hpos, hle, -, hlen⟩ := h.length_eq
  have hne := List.length_pos_iff.mpr h.groups_ne
  omega

end ThousandGroups

/-! ## Fractions -/

section Fraction

variable [DecidableEq α] (zero : α)

/-- The digits of a fraction without the zeros at the end. -/
def trimZeros (f : List α) : List α := f.rdropWhile (· = zero)

variable {zero}

theorem trimZeros_concat_zero (f : List α) : trimZeros zero (f ++ [zero]) = trimZeros zero f := by
  simp [trimZeros]

theorem trimZeros_concat {c : α} (f : List α) (hc : c ≠ zero) :
    trimZeros zero (f ++ [c]) = f ++ [c] := by
  simp [trimZeros, hc]

theorem trimZeros_append_replicate (f : List α) (k : Nat) :
    trimZeros zero (f ++ List.replicate k zero) = trimZeros zero f := by
  induction k with
  | zero => rw [List.replicate_zero, List.append_nil]
  | succ k ih =>
    rw [List.replicate_succ', ← List.append_assoc, trimZeros_concat_zero]
    exact ih

/-- A fraction is what is left of it, and zeros. -/
theorem eq_trimZeros_append (f : List α) :
    ∃ k, f = trimZeros zero f ++ List.replicate k zero := by
  induction f using List.reverseRecOn with
  | nil => exact ⟨0, rfl⟩
  | append_singleton f c ih =>
    by_cases hc : c = zero
    · obtain ⟨k, hk⟩ := ih
      refine ⟨k + 1, ?_⟩
      rw [hc, trimZeros_concat_zero, List.replicate_succ', ← List.append_assoc, ← hk]
    · refine ⟨0, ?_⟩
      rw [trimZeros_concat f hc, List.replicate_zero, List.append_nil]

end Fraction

end Noezema.Lib
