/-! # Deletes under foreign keys

Rows name other rows, and each foreign key says what becomes of a row whose target is
deleted. A DELETE is checked at its end: it is refused when a row that stays names a
deleted one under a constraint that neither cascades nor clears the column.
-/

namespace Noezema.Lib

/-- `ON DELETE`. -/
inductive OnDelete where
  | noAction
  | setNull
  | cascade
deriving DecidableEq, Repr

/-- A row that names another one. -/
structure Reference (κ : Type _) where
  row : κ
  target : κ
  onDelete : OnDelete
deriving DecidableEq

variable {κ : Type _}

/-- The DELETE of some rows is refused. -/
def Refuses (refs : List (Reference κ)) (doomed : List κ) : Prop :=
  ∃ r ∈ refs, r.onDelete = .noAction ∧ r.target ∈ doomed ∧ r.row ∉ doomed

instance [DecidableEq κ] (refs : List (Reference κ)) (doomed : List κ) :
    Decidable (Refuses refs doomed) :=
  inferInstanceAs (Decidable (∃ r ∈ refs, _))

theorem not_refuses {refs : List (Reference κ)} {doomed : List κ} :
    ¬ Refuses refs doomed ↔
      ∀ r ∈ refs, r.onDelete = .noAction → r.target ∈ doomed → r.row ∈ doomed := by
  constructor
  · intro h r hr hon htarget
    apply Classical.byContradiction
    intro hrow
    exact h ⟨r, hr, hon, htarget, hrow⟩
  · intro h ⟨r, hr, hon, htarget, hrow⟩
    exact hrow (h r hr hon htarget)

end Noezema.Lib
