import Noezema.Lib.Run

/-! # Grants that run out

A cell that names its holder and the time the grant ends: a lease, a gate. A party takes
it when it is free, when the grant has run out, or when it is the holder. The statement
that takes it may read an older clock than the one the cell lives under (the start of its
transaction), and each party goes by the last end it was granted.

`Exclusive` is what makes such a cell a lock: of the parties whose last grant has not run
out there is at most one, and the cell is its. A `closed` cell is one nobody takes again.
-/

namespace Noezema.Lib

variable {κ : Type*}

structure Grant (κ : Type*) where
  owner : κ
  expiresAt : Nat
deriving DecidableEq, Repr

/-- `me` may take the cell at `now`: it is free, it has run out, or it is `me`'s. -/
def Takeable (cell : Option (Grant κ)) (me : κ) (now : Nat) : Prop :=
  ∀ g, cell = some g → g.expiresAt < now ∨ g.owner = me

/-- The end each party was last granted, `none` once it has given the cell back. -/
abbrev Granted (κ : Type*) := κ → Option Nat

/-- The party's last grant has not run out. -/
def Granted.Live (granted : Granted κ) (clock : Nat) (k : κ) : Prop :=
  ∃ t, granted k = some t ∧ clock ≤ t

/-- What `me` was told, at the end of a statement. -/
def Granted.set [DecidableEq κ] (granted : Granted κ) (me : κ) (t : Option Nat) :
    Granted κ :=
  fun k => if k = me then t else granted k

@[simp] theorem Granted.set_self [DecidableEq κ] (granted : Granted κ) (me : κ)
    (t : Option Nat) : granted.set me t me = t := by
  simp [Granted.set]

theorem Granted.set_of_ne [DecidableEq κ] (granted : Granted κ) {me k : κ}
    (t : Option Nat) (h : k ≠ me) : granted.set me t k = granted k := by
  simp [Granted.set, h]

/-- **The cell is a lock**: whoever holds a grant that has not run out is the holder the
cell names, with that very end, and there is one such party at most. -/
structure Exclusive (clock : Nat) (closed : Prop) (cell : Option (Grant κ))
    (granted : Granted κ) : Prop where
  backed : ¬ closed → ∀ k t, granted k = some t → clock ≤ t → cell = some ⟨k, t⟩
  single : ∀ a b, granted.Live clock a → granted.Live clock b → a = b

/-- Nobody has been granted anything. -/
theorem Exclusive.start (clock : Nat) (closed : Prop) (cell : Option (Grant κ)) :
    Exclusive clock closed cell fun _ => none where
  backed := by simp
  single := by
    intro a b ha
    obtain ⟨t, ht, -⟩ := ha
    cases ht

theorem Granted.Live.of_later {granted : Granted κ} {clock clock' : Nat} {k : κ}
    (hle : clock ≤ clock') (h : granted.Live clock' k) : granted.Live clock k := by
  obtain ⟨t, ht, hlive⟩ := h
  exact ⟨t, ht, Nat.le_trans hle hlive⟩

variable {clock : Nat} {closed : Prop} {cell : Option (Grant κ)} {granted : Granted κ}

/-- Time only ends grants. -/
theorem Exclusive.wait (h : Exclusive clock closed cell granted) {clock' : Nat}
    (hle : clock ≤ clock') : Exclusive clock' closed cell granted where
  backed := fun hopen k t hk ht => h.backed hopen k t hk (Nat.le_trans hle ht)
  single := fun a b ha hb => h.single a b (ha.of_later hle) (hb.of_later hle)

/-- Of an open cell: a live party is the one `me` that may take it, whatever older clock
`me` goes by. -/
theorem Exclusive.live_eq (h : Exclusive clock closed cell granted) (hopen : ¬ closed)
    {me : κ} {now : Nat} (hnow : now ≤ clock) (hfree : Takeable cell me now) {k : κ}
    (hk : granted.Live clock k) : k = me := by
  obtain ⟨t, ht, hlive⟩ := hk
  rcases hfree ⟨k, t⟩ (h.backed hopen k t ht hlive) with hgone | howner
  · have hlt : t < now := hgone
    omega
  · exact howner

variable [DecidableEq κ]

/-- `me` takes or extends the grant. -/
theorem Exclusive.take (h : Exclusive clock closed cell granted) (hopen : ¬ closed)
    {me : κ} {now : Nat} (hnow : now ≤ clock) (hfree : Takeable cell me now) (e : Nat) :
    Exclusive clock closed (some ⟨me, e⟩) (granted.set me (some e)) := by
  have hlive : ∀ k, (granted.set me (some e)).Live clock k → k = me := by
    intro k hk'
    obtain ⟨t, ht, hle⟩ := hk'
    by_cases hk : k = me
    · exact hk
    · rw [Granted.set_of_ne _ _ hk] at ht
      exact h.live_eq hopen hnow hfree ⟨t, ht, hle⟩
  constructor
  · intro _ k t ht hle
    have hk := hlive k ⟨t, ht, hle⟩
    subst hk
    rw [Granted.set_self] at ht
    cases ht
    rfl
  · intro a b ha hb
    rw [hlive a ha, hlive b hb]

/-- `me` gives back what it holds, or was told nothing of a cell that is not its. -/
theorem Exclusive.release (h : Exclusive clock closed cell granted) (me : κ)
    {cell' : Option (Grant κ)}
    (hcell : ∀ g, cell = some g → g.owner ≠ me → cell' = cell) :
    Exclusive clock closed cell' (granted.set me none) := by
  have hold : ∀ k t, granted.set me none k = some t → k ≠ me ∧ granted k = some t := by
    intro k t ht
    by_cases hk : k = me
    · rw [hk, Granted.set_self] at ht
      cases ht
    · exact ⟨hk, Granted.set_of_ne granted none hk ▸ ht⟩
  constructor
  · intro hopen k t ht hle
    obtain ⟨hk, ht⟩ := hold k t ht
    have hc := h.backed hopen k t ht hle
    rw [hcell ⟨k, t⟩ hc hk, hc]
  · intro a b ha hb
    obtain ⟨t, ht, hle⟩ := ha
    obtain ⟨t', ht', hle'⟩ := hb
    exact h.single a b ⟨t, (hold a t ht).2, hle⟩ ⟨t', (hold b t' ht').2, hle'⟩

/-- `me` learns that it holds nothing: its statement was refused. -/
theorem Exclusive.refused (h : Exclusive clock closed cell granted) (me : κ) :
    Exclusive clock closed cell (granted.set me none) :=
  h.release me fun _ _ _ => rfl

end Noezema.Lib
