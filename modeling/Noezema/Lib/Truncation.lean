import Mathlib

/-! # Truncated rankings

A ranking is cut after `n` rows and the rows of one kind are picked afterwards. Rows of
another kind take places before the cut: `WithinCut` says when none of the picked rows
loses its place to them.
-/

namespace Noezema.Lib

open List

variable {α : Type*}

/-! ## Sorting a selection -/

section Sorted

variable {r : α → α → Prop} [DecidableRel r] [IsTrans α r]

theorem filter_orderedInsert (p : α → Bool) (x : α) {l : List α} (hl : l.Pairwise r) :
    (l.orderedInsert r x).filter p =
      if p x then (l.filter p).orderedInsert r x else l.filter p := by
  induction l with
  | nil => by_cases hx : p x <;> simp [hx]
  | cons y l ih =>
    obtain ⟨hy, hl⟩ := List.pairwise_cons.mp hl
    by_cases hxy : r x y
    · -- `x` goes first, before all of the selection
      rw [List.orderedInsert_cons_of_le r _ hxy]
      by_cases hx : p x
      · rw [if_pos hx, List.filter_cons_of_pos hx]
        symm
        cases hsel : (y :: l).filter p with
        | nil => rfl
        | cons z rest =>
          apply List.orderedInsert_cons_of_le
          have hz : z ∈ (y :: l).filter p := by
            rw [hsel]
            exact List.mem_cons_self
          rcases List.mem_cons.mp (List.mem_filter.mp hz).1 with rfl | hz
          · exact hxy
          · exact IsTrans.trans _ _ _ hxy (hy z hz)
      · rw [if_neg hx, List.filter_cons_of_neg hx]
    · rw [List.orderedInsert_of_not_le r _ hxy]
      by_cases hy : p y <;> by_cases hx : p x <;>
        simp [hy, hx, ih hl, List.orderedInsert_cons, hxy]

/-- The selection of a sorted list is the sorted selection. -/
theorem filter_insertionSort [Std.Total r] (p : α → Bool) (l : List α) :
    (l.insertionSort r).filter p = (l.filter p).insertionSort r := by
  induction l with
  | nil => rfl
  | cons x l ih =>
    rw [List.insertionSort_cons, filter_orderedInsert p x (List.pairwise_insertionSort r l), ih]
    by_cases hx : p x
    · rw [if_pos hx, List.filter_cons_of_pos hx, List.insertionSort_cons]
    · rw [if_neg hx, List.filter_cons_of_neg hx]

end Sorted

/-! ## The cut -/

variable {p q keep : α → Bool} {l : List α} {m n : Nat}

/-- Every picked row with fewer than `m` counted rows before it has fewer than `n` rows of
any kind before it. -/
def WithinCut (l : List α) (p q : α → Bool) (m n : Nat) : Prop :=
  ∀ before x after, l = before ++ x :: after → p x → before.countP q < m → before.length < n

theorem WithinCut.tail {y : α} (h : WithinCut (y :: l) p q m n) :
    WithinCut l p q (m - 1) (n - 1) := by
  intro before x after hl hx hlt
  have hcount : (y :: before).countP q ≤ before.countP q + 1 := by
    rw [List.countP_cons]
    split <;> omega
  have hlen := h (y :: before) x after (by rw [hl, List.cons_append]) hx (by omega)
  rw [List.length_cons] at hlen
  omega

/-- A row that is not counted shifts the cut of all rows only. -/
theorem WithinCut.tail_uncounted {y : α} (h : WithinCut (y :: l) p q m n)
    (hy : q y = false) : WithinCut l p q m (n - 1) := by
  intro before x after hl hx hlt
  have hlen := h (y :: before) x after (by rw [hl, List.cons_append]) hx
    (by rwa [List.countP_cons_of_neg (by simp [hy])])
  rw [List.length_cons] at hlen
  omega

theorem filter_take_cons_sublist {y : α} (hy : p y = false) :
    (l.take (n - 1)).filter p <+ ((y :: l).take n).filter p := by
  cases n with
  | zero => simp
  | succ n => simp [hy]

/-- Within the cut, what is picked from the kept rows is picked from all of them. -/
theorem WithinCut.sublist (h : WithinCut l p q m n) (hpq : ∀ x ∈ l, p x → q x)
    (hkeep : ∀ x ∈ l, q x → keep x) :
    ((l.filter keep).take m).filter p <+ (l.take n).filter p := by
  induction l generalizing m n with
  | nil => simp
  | cons y l ih =>
    have ih {m n} (h : WithinCut l p q m n) := ih h
      (fun x hx => hpq x (List.mem_cons_of_mem y hx))
      (fun x hx => hkeep x (List.mem_cons_of_mem y hx))
    by_cases hk : keep y
    · rw [List.filter_cons_of_pos hk]
      cases m with
      | zero => simp
      | succ m =>
        rw [List.take_succ_cons]
        have hrest := ih h.tail
        rw [Nat.add_sub_cancel] at hrest
        by_cases hp : p y
        · -- a picked row: the cut of all rows is not reached yet
          have hpos : 0 < n := h [] y l rfl hp (by simp)
          obtain ⟨k, rfl⟩ := Nat.exists_eq_succ_of_ne_zero hpos.ne'
          rw [List.take_succ_cons, List.filter_cons_of_pos hp, List.filter_cons_of_pos hp]
          exact hrest.cons_cons y
        · rw [List.filter_cons_of_neg hp]
          exact hrest.trans (filter_take_cons_sublist (by simpa using hp))
    · rw [List.filter_cons_of_neg hk]
      have hq : q y = false := by
        by_contra hq
        exact hk (hkeep y List.mem_cons_self (by simpa using hq))
      have hp : p y = false := by
        by_contra hp
        rw [hpq y List.mem_cons_self (by simpa using hp)] at hq
        cases hq
      exact (ih (h.tail_uncounted hq)).trans (filter_take_cons_sublist hp)

/-- What is picked before a cut is still there when other rows are left out. -/
theorem filter_take_sublist (hkeep : ∀ x ∈ l, p x → keep x) (hle : n ≤ m) :
    (l.take n).filter p <+ ((l.filter keep).take m).filter p := by
  have htaken : (l.take n).filter keep <+: (l.filter keep).take m := by
    rw [List.prefix_take_iff]
    refine ⟨(List.take_prefix n l).filter keep, ?_⟩
    have hlen := List.length_filter_le keep (l.take n)
    rw [List.length_take] at hlen
    omega
  have hsame : ((l.take n).filter keep).filter p = (l.take n).filter p := by
    rw [List.filter_filter]
    apply List.filter_congr
    intro x hx
    cases hp : p x with
    | true => simp [hkeep x (List.mem_of_mem_take hx) hp]
    | false => simp
  rw [← hsame]
  exact htaken.sublist.filter p

/-- A cut of all rows that picks no fewer rows than the cut of the counted ones loses none. -/
theorem withinCut_of_length_le (hpq : ∀ x ∈ l, p x → q x)
    (h : (((l.filter q).take m).filter p).length ≤ ((l.take n).filter p).length) :
    WithinCut l p q m n := by
  rintro before x after rfl hx hlt
  by_contra hge
  have hleft : (before.filter q ++ [x]).filter p <+
      (((before ++ x :: after).filter q).take m).filter p := by
    apply List.Sublist.filter
    apply List.IsPrefix.sublist
    have hq : q x := hpq x (by simp) hx
    rw [List.prefix_take_iff, List.filter_append, List.filter_cons_of_pos hq]
    constructor
    · exact ⟨after.filter q, by simp⟩
    · rw [List.length_append, ← List.countP_eq_length_filter]
      exact hlt
  have hright : (before ++ x :: after).take n = before.take n :=
    List.take_append_of_le_length (by omega)
  have hbefore : (before.filter q).filter p = before.filter p := by
    rw [List.filter_filter]
    apply List.filter_congr
    intro y hy
    cases hp : p y with
    | true => simp [hpq y (by simp [hy]) hp]
    | false => simp
  have hlen := hleft.length_le.trans h
  have hle := ((List.take_sublist n before).filter p).length_le
  rw [hright, List.filter_append, hbefore, List.length_append, List.filter_cons_of_pos hx] at hlen
  rw [List.length_cons] at hlen
  omega

/-- **Leaving out rows that do not count** changes nothing of what is picked before a cut
that loses no picked row to them. -/
theorem WithinCut.filter_take_eq (h : WithinCut l p q n n) (hpq : ∀ x ∈ l, p x → q x)
    (hkeep : ∀ x ∈ l, q x → keep x) :
    ((l.filter keep).take n).filter p = (l.take n).filter p :=
  (h.sublist hpq hkeep).antisymm
    (filter_take_sublist (fun x hx hp => hkeep x hx (hpq x hx hp)) le_rfl)

theorem filter_take_filter_self : ((l.filter p).take m).filter p = (l.filter p).take m :=
  List.filter_eq_self.mpr fun _ hx => (List.mem_filter.mp (List.mem_of_mem_take hx)).2

/-- **The first `m` of a kind** are all picked before a cut that loses none of them. -/
theorem WithinCut.take_filter_sublist (h : WithinCut l p p m n) :
    (l.filter p).take m <+ (l.take n).filter p := by
  rw [← filter_take_filter_self]
  exact h.sublist (fun _ _ hx => hx) fun _ _ hx => hx

end Noezema.Lib
