import Mathlib

/-! # Moving an element behind the last of a kind

An element is taken out of a list and put back behind the last element that satisfies a
predicate, when it is not there already. The others keep their order.
-/

namespace Noezema.Lib

variable {α : Type*} {p : α → Bool}

/-- The last position of an element that satisfies the predicate. -/
def lastIdx (p : α → Bool) (l : List α) : Option Nat :=
  ((l.zipIdx.filter fun e => p e.1).map (·.2)).max?

/-- The element at position `here`, behind the last of those that satisfy the predicate. -/
def moveBehind (p : α → Bool) (l : List α) (here : Nat) (x : α) : List α :=
  let last := (lastIdx p l).getD here
  if here < last then (l.eraseIdx here).insertIdx last x else l

theorem lastIdx_eq_some {l : List α} {i : Nat} (h : lastIdx p l = some i) :
    (∃ y, l[i]? = some y ∧ p y) ∧ ∀ j y, l[j]? = some y → p y → j ≤ i := by
  obtain ⟨hmem, hmax⟩ := List.max?_eq_some_iff.mp h
  constructor
  · simpa [List.mem_zipIdx_iff_getElem?] using hmem
  · intro j y hy hp
    apply hmax
    simpa [List.mem_zipIdx_iff_getElem?] using ⟨y, hy, hp⟩

theorem lastIdx_isSome {l : List α} {x : α} (hx : x ∈ l) (hp : p x) : (lastIdx p l).isSome := by
  obtain ⟨i, hi⟩ := List.mem_iff_getElem?.mp hx
  rw [lastIdx, List.isSome_max?_iff, ne_eq, List.map_eq_nil_iff, List.filter_eq_nil_iff]
  intro h
  exact h (x, i) (List.mem_zipIdx_iff_getElem?.mpr hi) hp

theorem insertIdx_append (l r : List α) (x : α) (k : Nat) (hk : k ≤ r.length) :
    (l ++ r).insertIdx (l.length + k) x = l ++ r.take k ++ x :: r.drop k := by
  induction l with
  | nil =>
    induction r generalizing k with
    | nil =>
      obtain rfl : k = 0 := by simpa using hk
      rfl
    | cons y r ih =>
      cases k with
      | zero => rfl
      | succ k =>
        have htail := ih k (by simpa using hk)
        simp only [List.nil_append, List.length_nil, Nat.zero_add] at htail ⊢
        rw [List.insertIdx_succ_cons, htail]
        rfl
  | cons y l ih =>
    rw [List.cons_append, List.length_cons, Nat.add_right_comm, List.insertIdx_succ_cons, ih]
    rfl

/-- **Behind the last of its kind**: what stood between is now before it, and no element of the
kind is after it. -/
theorem moveBehind_eq {l r : List α} {x : α} (hx : p x) :
    ∃ r₁ r₂, r = r₁ ++ r₂ ∧ moveBehind p (l ++ x :: r) l.length x = l ++ r₁ ++ x :: r₂ ∧
      ∀ y ∈ r₂, ¬ p y := by
  obtain ⟨last, hlast⟩ := Option.isSome_iff_exists.mp
    (lastIdx_isSome (p := p) (List.mem_append_right l List.mem_cons_self) hx (l := l ++ x :: r))
  obtain ⟨⟨y, hy, -⟩, hmax⟩ := lastIdx_eq_some hlast
  have hhere : l.length ≤ last := hmax l.length x (by simp) hx
  have hlen : last < (l ++ x :: r).length := (List.getElem?_eq_some_iff.mp hy).1
  rw [List.length_append, List.length_cons] at hlen
  refine ⟨r.take (last - l.length), r.drop (last - l.length), (List.take_append_drop _ r).symm,
    ?_, ?_⟩
  · rw [moveBehind, hlast, Option.getD_some]
    split
    · have herase : (l ++ x :: r).eraseIdx l.length = l ++ r := by
        rw [List.eraseIdx_append_of_length_le (le_refl _), Nat.sub_self]
        rfl
      have hk : last = l.length + (last - l.length) := by omega
      rw [herase]
      conv_lhs => rw [hk]
      exact insertIdx_append l r x _ (by omega)
    · have hzero : last - l.length = 0 := by omega
      rw [hzero, List.take_zero, List.append_nil, List.drop_zero]
  · intro z hz hp
    obtain ⟨j, hj⟩ := List.mem_iff_getElem?.mp hz
    rw [List.getElem?_drop] at hj
    have hposition : (l ++ x :: r)[last + 1 + j]? = some z := by
      rw [List.getElem?_append_right (by omega)]
      have hindex : last + 1 + j - l.length = (last - l.length + j) + 1 := by omega
      rw [hindex, List.getElem?_cons_succ, hj]
    have := hmax _ z hposition hp
    omega

end Noezema.Lib
