import Mathlib.Data.List.Nodup
import Mathlib.Data.List.Perm.Subperm
import Mathlib.Order.Defs.LinearOrder
import Mathlib.Order.Basic
import Mathlib.Order.Lattice

/-! # Cursors into a list that is read anew

A batch job keeps a cursor into a sorted list and reads the list again before each
batch, while others insert and remove elements. `rank` is the place an element has or
would have; the results are what an insertion and a removal do to the part in front
of the cursor.
-/

namespace Noezema.Lib

variable {α : Type*} [LinearOrder α]

/-- How many elements stand before `a`. -/
def rank (l : List α) (a : α) : Nat := l.countP (· < a)

theorem rank_cons (x : α) (l : List α) (a : α) :
    rank (x :: l) a = rank l a + if x < a then 1 else 0 := by
  simp [rank, List.countP_cons]

theorem rank_eq_zero {x : α} {l : List α} (h : ∀ y ∈ l, x < y) : rank l x = 0 := by
  rw [rank, List.countP_eq_zero]
  intro y hy
  simpa using (h y hy).le

/-- An element has more in front of it than one that stands before it. -/
theorem rank_lt_rank {l : List α} {d a : α} (hd : d ∈ l) (hda : d < a) :
    rank l d < rank l a := by
  induction l with
  | nil => cases hd
  | cons x l ih =>
    rw [rank_cons, rank_cons]
    have hmono : rank l d ≤ rank l a :=
      List.countP_mono_left fun y _ hy => by
        simp only [decide_eq_true_eq] at hy ⊢
        exact lt_trans hy hda
    rcases List.mem_cons.mp hd with rfl | hd
    · rw [if_neg (lt_irrefl d), if_pos hda]
      omega
    · have hlt := ih hd
      by_cases hxd : x < d
      · rw [if_pos hxd, if_pos (lt_trans hxd hda)]
        omega
      · rw [if_neg hxd]
        omega

/-- What stands in front of a cursor. -/
theorem mem_take_iff {l : List α} (h : l.Pairwise (· < ·)) {a : α} {n : Nat} :
    a ∈ l.take n ↔ a ∈ l ∧ rank l a < n := by
  induction l generalizing n with
  | nil => simp
  | cons x l ih =>
    obtain ⟨hx, hl⟩ := List.pairwise_cons.mp h
    cases n with
    | zero => simp
    | succ n =>
      rw [List.take_succ_cons, List.mem_cons, List.mem_cons, ih hl, rank_cons]
      by_cases hax : a = x
      · subst hax
        simp [rank_eq_zero hx]
      · simp only [hax, false_or]
        constructor
        · intro ⟨ha, hr⟩
          rw [if_pos (hx a ha)]
          exact ⟨ha, by omega⟩
        · intro ⟨ha, hr⟩
          rw [if_pos (hx a ha)] at hr
          exact ⟨ha, by omega⟩

/-- What stands at a cursor. -/
theorem getElem?_eq_some_iff_rank {l : List α} (h : l.Pairwise (· < ·)) {a : α} {n : Nat} :
    l[n]? = some a ↔ a ∈ l ∧ rank l a = n := by
  induction l generalizing n with
  | nil => simp
  | cons x l ih =>
    obtain ⟨hx, hl⟩ := List.pairwise_cons.mp h
    rw [rank_cons, List.mem_cons]
    cases n with
    | zero =>
      simp only [List.getElem?_cons_zero, Option.some.injEq]
      constructor
      · rintro rfl
        exact ⟨.inl rfl, by simp [rank_eq_zero hx]⟩
      · rintro ⟨rfl | ha, hr⟩
        · rfl
        · rw [if_pos (hx a ha)] at hr
          omega
    | succ n =>
      rw [List.getElem?_cons_succ, ih hl]
      constructor
      · intro ⟨ha, hr⟩
        rw [if_pos (hx a ha)]
        exact ⟨.inr ha, by omega⟩
      · rintro ⟨rfl | ha, hr⟩
        · rw [rank_eq_zero hx, if_neg (lt_irrefl a)] at hr
          omega
        · rw [if_pos (hx a ha)] at hr
          exact ⟨ha, by omega⟩

theorem rank_le_of_subset {l l' : List α} (hl : l.Nodup) (hsub : ∀ x ∈ l, x ∈ l') (a : α) :
    rank l a ≤ rank l' a :=
  (hl.subperm hsub).countP_le _

/-- **Insertions.** When nothing is removed, no element of the list comes in front of
the cursor. -/
theorem mem_take_of_insert {l l' : List α} (hl : l.Pairwise (· < ·))
    (hl' : l'.Pairwise (· < ·)) (hkeep : ∀ x ∈ l, x ∈ l') {a : α} {n : Nat} (ha : a ∈ l)
    (h : a ∈ l'.take n) : a ∈ l.take n := by
  have hle := rank_le_of_subset hl.nodup hkeep a
  have hlt := ((mem_take_iff hl').mp h).2
  exact (mem_take_iff hl).mpr ⟨ha, by omega⟩

/-- **A removal.** When `d` is removed, an element can come in front of the cursor in
one way only: it stood at the cursor, and `d` in front of it. -/
theorem mem_take_of_remove {l l' : List α} {d : α} (hl : l.Pairwise (· < ·))
    (hl' : l'.Pairwise (· < ·)) (hkeep : ∀ x ∈ l, x ≠ d → x ∈ l') {a : α} {n : Nat}
    (ha : a ∈ l) (h : a ∈ l'.take n) :
    a ∈ l.take n ∨ (d ∈ l.take n ∧ l[n]? = some a) := by
  have hlt := ((mem_take_iff hl').mp h).2
  have hsub : ∀ x ∈ l, x ∈ d :: l' := by
    intro x hx
    by_cases hxd : x = d
    · exact List.mem_cons.mpr (.inl hxd)
    · exact List.mem_cons_of_mem _ (hkeep x hx hxd)
  have hle := rank_le_of_subset hl.nodup hsub a
  rw [rank_cons] at hle
  by_cases hin : rank l a < n
  · exact .inl ((mem_take_iff hl).mpr ⟨ha, hin⟩)
  · by_cases hda : d < a
    · rw [if_pos hda] at hle
      have hrank : rank l a = n := by omega
      by_cases hd : d ∈ l
      · refine .inr ⟨(mem_take_iff hl).mpr ⟨hd, ?_⟩,
          (getElem?_eq_some_iff_rank hl).mpr ⟨ha, hrank⟩⟩
        exact Nat.lt_of_lt_of_eq (rank_lt_rank hd hda) hrank
      · have hkept := rank_le_of_subset hl.nodup
          (fun x hx => hkeep x hx fun hxd => hd (hxd ▸ hx)) a
        omega
    · rw [if_neg hda] at hle
      omega

end Noezema.Lib
