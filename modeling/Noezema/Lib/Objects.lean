import Mathlib.Logic.Function.Basic

/-! # Stored objects

What is stored under each name. Objects are added and removed one name at a time; a removal
may fail, and then the object stays.
-/

namespace Noezema.Lib

/-- What is stored under each name. -/
abbrev Objects (κ β : Type*) := κ → Option β

namespace Objects

variable {κ β : Type*} [DecidableEq κ] {s : Objects κ β} {k : κ}

/-- Store an object. -/
def add (s : Objects κ β) (k : κ) (b : β) : Objects κ β := Function.update s k (some b)

/-- Remove the object of a name. -/
def remove (s : Objects κ β) (k : κ) : Objects κ β := Function.update s k none

/-- Remove the objects of some names, those that can be removed. -/
def removeAll (removable : κ → Bool) (s : Objects κ β) (ks : List κ) : Objects κ β :=
  ks.foldl (fun s k => if removable k then s.remove k else s) s

theorem remove_of_none (h : s k = none) : s.remove k = s := by
  unfold remove
  rw [← h, Function.update_eq_self]

/-- What is left of the objects of some names. -/
theorem removeAll_apply (removable : κ → Bool) (s : Objects κ β) (ks : List κ) (k : κ) :
    s.removeAll removable ks k = if k ∈ ks ∧ removable k then none else s k := by
  induction ks generalizing s with
  | nil => simp [removeAll]
  | cons k' ks ih =>
    have hcons : s.removeAll removable (k' :: ks) =
        (if removable k' then s.remove k' else s).removeAll removable ks := rfl
    rw [hcons, ih]
    by_cases hk : k = k'
    · subst hk
      by_cases hr : removable k <;> simp [hr, remove]
    · by_cases hr : removable k' <;> simp [hr, remove, hk, Function.update_of_ne]

end Objects

end Noezema.Lib
