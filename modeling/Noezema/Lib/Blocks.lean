import Mathlib.Algebra.Order.BigOperators.Group.List
import Mathlib.Algebra.Order.Ring.Nat
import Mathlib.Data.List.Basic
import Mathlib.Data.List.Forall2
import Mathlib.Data.List.Nodup

/-! # Blocks under a cut

A list put together from blocks, one block after the other, is cut after `n` elements. A block
keeps an element exactly when the blocks before it leave a place: the last block decides.
-/

namespace Noezema.Lib

open List

variable {α β : Type*}

/-- The elements of a later block stand before the cut by what the first block leaves. -/
theorem mem_take_append_right {a b : List α} {x : α} {n : Nat} (hx : x ∉ a) :
    x ∈ (a ++ b).take n ↔ x ∈ b.take (n - a.length) := by
  rw [List.take_append, List.mem_append]
  constructor
  · intro h
    rcases h with h | h
    · exact absurd (List.mem_of_mem_take h) hx
    · exact h
  · exact Or.inr

/-- A first block keeps an element of any cut that is not empty. -/
theorem exists_mem_take_append {a b : List α} (ha : a ≠ []) {n : Nat} (hn : 0 < n) :
    ∃ x ∈ a, x ∈ (a ++ b).take n := by
  obtain ⟨x, a, rfl⟩ := List.exists_cons_of_ne_nil ha
  cases n with
  | zero => omega
  | succ n => exact ⟨x, by simp, by simp⟩

/-- Blocks drawn from disjoint groups: every group has an element before the cut exactly when
all blocks but the last do not fill it. -/
theorem groups_reached_iff {groups blocks : List (List α)} (hne : groups ≠ [])
    (hdrawn : Forall₂ (fun g b => b ≠ [] ∧ b ⊆ g) groups blocks)
    (hnodup : groups.flatten.Nodup) (n : Nat) :
    (∀ g ∈ groups, ∃ x ∈ g, x ∈ blocks.flatten.take n) ↔
      (blocks.map List.length).dropLast.sum < n := by
  induction hdrawn generalizing n with
  | nil => exact absurd rfl hne
  | @cons g b groups blocks hgb hrest ih =>
    rw [List.flatten_cons, List.nodup_append'] at hnodup
    obtain ⟨-, hnodup, hdisjoint⟩ := hnodup
    -- the first group stands before the cut as soon as there is a place
    have hfirst : (∃ x ∈ g, x ∈ (b ++ blocks.flatten).take n) ↔ 0 < n := by
      constructor
      · rintro ⟨x, -, hx⟩
        rcases Nat.eq_zero_or_pos n with rfl | hn
        · simp at hx
        · exact hn
      · intro hn
        obtain ⟨x, hx, hcut⟩ := exists_mem_take_append (b := blocks.flatten) hgb.1 hn
        exact ⟨x, hgb.2 hx, hcut⟩
    -- a later group has no element in the first block
    have hlater : ∀ g' ∈ groups, ∀ x ∈ g',
        (x ∈ (b ++ blocks.flatten).take n ↔ x ∈ blocks.flatten.take (n - b.length)) := by
      intro g' hg' x hx
      apply mem_take_append_right
      intro hxb
      exact hdisjoint (hgb.2 hxb) (List.mem_flatten.mpr ⟨g', hg', hx⟩)
    rw [List.forall_mem_cons, List.flatten_cons, hfirst]
    have hall : (∀ g' ∈ groups, ∃ x ∈ g', x ∈ (b ++ blocks.flatten).take n) ↔
        ∀ g' ∈ groups, ∃ x ∈ g', x ∈ blocks.flatten.take (n - b.length) := by
      refine forall_congr' fun g' => forall_congr' fun hg' => exists_congr fun x => ?_
      exact and_congr_right (hlater g' hg' x)
    rw [hall]
    by_cases hgroups : groups = []
    · subst hgroups
      cases hrest
      simp
    · rw [ih hgroups hnodup (n - b.length)]
      have hblocks : (blocks.map List.length) ≠ [] := by
        have hlen := hrest.length_eq
        intro h
        rw [List.map_eq_nil_iff] at h
        subst h
        exact hgroups (List.length_eq_zero_iff.mp hlen)
      rw [List.map_cons, List.dropLast_cons_of_ne_nil hblocks, List.sum_cons]
      omega

/-- The same with a rest after the blocks: where the rest is reached, every block is. -/
theorem groups_reached_append_iff {groups blocks : List (List α)} (hne : groups ≠ [])
    (hdrawn : Forall₂ (fun g b => b ≠ [] ∧ b ⊆ g) groups blocks)
    (hnodup : groups.flatten.Nodup) (rest : List α) (n : Nat) :
    (∀ g ∈ groups, ∃ x ∈ g, x ∈ (blocks.flatten ++ rest).take n) ↔
      (blocks.map List.length).dropLast.sum < n := by
  by_cases hn : n ≤ blocks.flatten.length
  · rw [List.take_append_of_le_length hn]
    exact groups_reached_iff hne hdrawn hnodup n
  · have hfew : (blocks.map List.length).dropLast.sum < n := by
      have hle := (List.dropLast_sublist (blocks.map List.length)).sum_le_sum fun _ _ => Nat.zero_le _
      rw [← List.length_flatten] at hle
      omega
    refine ⟨fun _ => hfew, fun _ g hg => ?_⟩
    obtain ⟨x, hx, hcut⟩ := (groups_reached_iff hne hdrawn hnodup n).mpr hfew g hg
    refine ⟨x, hx, ?_⟩
    rw [List.take_append]
    exact List.mem_append_left _ hcut

/-- The groups of a key, the first to appear first. -/
def keyGroups [DecidableEq β] [BEq β] [LawfulBEq β] (key : α → β) (l : List α) : List (List α) :=
  (l.map key).eraseDups.map fun k => l.filter fun x => key x = k

theorem keyGroups_cons [DecidableEq β] [BEq β] [LawfulBEq β] (key : α → β) (a : α) (l : List α) :
    keyGroups key (a :: l) = ((a :: l).filter fun x => key x = key a) ::
      keyGroups key (l.filter fun x => key x ≠ key a) := by
  have hkeys : ((a :: l).map key).eraseDups =
      key a :: ((l.filter fun x => key x ≠ key a).map key).eraseDups := by
    rw [List.map_cons, List.eraseDups_cons, List.filter_map]
    congr 4
    funext x
    by_cases h : key x = key a <;> simp [h]
  rw [keyGroups, hkeys, List.map_cons]
  congr 1
  rw [keyGroups]
  apply List.map_congr_left
  intro k hk
  have hka : k ≠ key a := by
    obtain ⟨x, hx, rfl⟩ := List.mem_map.mp (List.mem_eraseDups.mp hk)
    simpa using (List.mem_filter.mp hx).2
  rw [List.filter_cons_of_neg (by simpa using hka.symm), List.filter_filter]
  apply List.filter_congr
  intro x _
  by_cases h : key x = k
  · subst h
    simp [hka]
  · simp [h]

/-- The groups of a key, put together, are the list again. -/
theorem keyGroups_flatten_perm [DecidableEq β] [BEq β] [LawfulBEq β] (key : α → β) :
    ∀ l : List α, (keyGroups key l).flatten.Perm l
  | [] => List.Perm.refl _
  | a :: l => by
    have hrest := keyGroups_flatten_perm key (l.filter fun x => key x ≠ key a)
    rw [keyGroups_cons, List.flatten_cons]
    have hsame : (l.filter fun x => key x ≠ key a) =
        (a :: l).filter fun x => !(decide (key x = key a)) := by
      rw [List.filter_cons_of_neg (by simp)]
      apply List.filter_congr
      intro x _
      simp
    rw [hsame] at hrest ⊢
    exact (hrest.append_left _).trans (List.filter_append_perm _ _)
  termination_by l => l.length
  decreasing_by
    simp only [List.length_cons]
    exact Nat.lt_succ_of_le (List.length_filter_le _ l)

end Noezema.Lib
