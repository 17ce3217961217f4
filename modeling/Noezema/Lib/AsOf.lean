/-! # Facts as of a revision

A reader records a fact about a shared state together with the revision of the state, and
trusts the fact later as long as the revision is the same. That is sound when every change
that could break the fact moves the revision: `AsOf.next` is what a step owes.
-/

namespace Noezema.Lib

variable {σ : Type _} {revision : σ → Nat} {fact fact' : σ → Prop} {r : Nat} {s t : σ}

/-- The fact was recorded at the revision `r`: it holds while the revision is `r`, and the
revision does not go back. -/
structure AsOf (revision : σ → Nat) (fact : σ → Prop) (r : Nat) (s : σ) : Prop where
  le : r ≤ revision s
  holds : revision s = r → fact s

/-- A fact that is read now. -/
theorem AsOf.read (h : fact s) : AsOf revision fact (revision s) s :=
  ⟨Nat.le_refl _, fun _ => h⟩

/-- **A step.** It moves the revision forward, or keeps it and the fact. -/
theorem AsOf.next (h : AsOf revision fact r s) (hle : revision s ≤ revision t)
    (hkeep : revision t = revision s → fact s → fact' t) : AsOf revision fact' r t where
  le := Nat.le_trans h.le hle
  holds := by
    intro ht
    have hs := h.le
    have heq : revision t = revision s := by omega
    exact hkeep heq (h.holds (by omega))

/-- A step that moves the revision leaves no fact to keep. -/
theorem AsOf.moved (h : AsOf revision fact r s) (hlt : revision s < revision t) :
    AsOf revision fact' r t :=
  h.next (Nat.le_of_lt hlt) fun heq => by omega

end Noezema.Lib
