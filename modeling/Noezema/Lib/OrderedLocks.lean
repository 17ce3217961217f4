import Mathlib.Algebra.Order.BigOperators.Group.Finset
import Mathlib.Data.Finset.Max
import Noezema.Lib.Reach

/-! # Locks taken in an order

Parties take exclusive locks one by one and give them all back at once, when they finish
or when they are rolled back. If every party takes its locks in the order of a position
that all parties share, and never two of one position, no cycle of waiting ever closes
(`Reachable.acyclic`), and whatever has been begun can always be carried to its end
(`Reachable.drains`).
-/

namespace Noezema.Lib

open Relation

variable {τ ρ : Type*}

/-- What a party holds, the last first, and what it will still ask for, in order. -/
structure Locking (ρ : Type*) where
  held : List ρ
  wanted : List ρ

def Locking.idle : Locking ρ := ⟨[], []⟩

/-- The locks of a plan come in the order of their positions, a lock asked for again
standing for itself. -/
def OrderedBy (pos : ρ → ℕ) (plan : List ρ) : Prop :=
  plan.Pairwise fun a b => a = b ∨ pos a < pos b

section Steps

variable [DecidableEq τ]

/-- `i` goes on: it takes a lock no other party holds, or finishes. -/
inductive Advance (s : τ → Locking ρ) : (τ → Locking ρ) → Prop where
  | take (i : τ) (r : ρ) (rest : List ρ) : (s i).wanted = r :: rest →
      (∀ j, j ≠ i → r ∉ (s j).held) →
      Advance s (Function.update s i ⟨r :: (s i).held, rest⟩)
  | finish (i : τ) : (s i).wanted = [] → (s i).held ≠ [] →
      Advance s (Function.update s i .idle)

/-- A party goes on, is rolled back, or begins with a plan in order. -/
inductive LockStep (pos : ρ → ℕ) (s : τ → Locking ρ) : (τ → Locking ρ) → Prop where
  | advance {t : τ → Locking ρ} : Advance s t → LockStep pos s t
  | rollback (i : τ) : LockStep pos s (Function.update s i .idle)
  | start (i : τ) (plan : List ρ) : s i = .idle → OrderedBy pos plan →
      LockStep pos s (Function.update s i ⟨[], plan⟩)

/-- What the lock table can come to, all parties being idle at first. -/
def Reachable (pos : ρ → ℕ) (s : τ → Locking ρ) : Prop :=
  ReflTransGen (LockStep pos) (fun _ => .idle) s

end Steps

/-- `i` waits for a lock that `j` holds. -/
def Waits (s : τ → Locking ρ) (i j : τ) : Prop :=
  i ≠ j ∧ ∃ r rest, (s i).wanted = r :: rest ∧ r ∈ (s j).held

/-! ## The invariant -/

/-- **The invariant of the lock table.** No lock has two holders, and what a party holds
comes before what it still wants. -/
structure Disciplined (pos : ρ → ℕ) (s : τ → Locking ρ) : Prop where
  apart : ∀ i j, i ≠ j → ∀ r ∈ (s i).held, r ∉ (s j).held
  behind : ∀ i, ∀ h ∈ (s i).held, ∀ r ∈ (s i).wanted, h = r ∨ pos h < pos r
  ordered : ∀ i, OrderedBy pos (s i).wanted

variable {pos : ρ → ℕ} {s t : τ → Locking ρ}

theorem Disciplined.start : Disciplined pos fun _ : τ => (Locking.idle : Locking ρ) where
  apart := by simp [Locking.idle]
  behind := by simp [Locking.idle]
  ordered := fun _ => List.Pairwise.nil

section Steps

variable [DecidableEq τ]

/-- A party that holds nothing keeps the discipline if its plan does. -/
theorem Disciplined.reset (h : Disciplined pos s) (i : τ) {plan : List ρ}
    (hplan : OrderedBy pos plan) : Disciplined pos (Function.update s i ⟨[], plan⟩) where
  apart := by
    intro a b hab r hr
    by_cases ha : a = i
    · subst ha
      simp at hr
    · rw [Function.update_of_ne ha] at hr
      by_cases hb : b = i
      · subst hb
        simp
      · rw [Function.update_of_ne hb]
        exact h.apart a b hab r hr
  behind := by
    intro a
    by_cases ha : a = i
    · subst ha
      simp
    · rw [Function.update_of_ne ha]
      exact h.behind a
  ordered := by
    intro a
    by_cases ha : a = i
    · subst ha
      simpa using hplan
    · rw [Function.update_of_ne ha]
      exact h.ordered a

theorem Disciplined.take (h : Disciplined pos s) {i : τ} {r : ρ} {rest : List ρ}
    (hw : (s i).wanted = r :: rest) (hfree : ∀ j, j ≠ i → r ∉ (s j).held) :
    Disciplined pos (Function.update s i ⟨r :: (s i).held, rest⟩) := by
  have hord := h.ordered i
  rw [hw] at hord
  obtain ⟨hfirst, hrest⟩ := List.pairwise_cons.mp hord
  constructor
  · intro a b hab x hx
    by_cases ha : a = i
    · subst ha
      rw [Function.update_self] at hx
      rw [Function.update_of_ne hab.symm]
      rcases List.mem_cons.mp hx with rfl | hx
      · exact hfree b hab.symm
      · exact h.apart a b hab x hx
    · rw [Function.update_of_ne ha] at hx
      by_cases hb : b = i
      · subst hb
        rw [Function.update_self]
        intro hx'
        rcases List.mem_cons.mp hx' with rfl | hx'
        · exact hfree a ha hx
        · exact h.apart a b hab x hx hx'
      · rw [Function.update_of_ne hb]
        exact h.apart a b hab x hx
  · intro a
    by_cases ha : a = i
    · subst ha
      rw [Function.update_self]
      intro x hx y hy
      rcases List.mem_cons.mp hx with rfl | hx
      · exact hfirst y hy
      · exact h.behind a x hx y (by rw [hw]; exact List.mem_cons_of_mem _ hy)
    · rw [Function.update_of_ne ha]
      exact h.behind a
  · intro a
    by_cases ha : a = i
    · subst ha
      rw [Function.update_self]
      exact hrest
    · rw [Function.update_of_ne ha]
      exact h.ordered a

theorem Disciplined.advance (h : Disciplined pos s) (hs : Advance s t) :
    Disciplined pos t := by
  cases hs with
  | take i r rest hw hfree => exact h.take hw hfree
  | finish i _ _ => exact h.reset i List.Pairwise.nil

/-- The step lemma. -/
theorem Disciplined.step (h : Disciplined pos s) (hs : LockStep pos s t) :
    Disciplined pos t := by
  cases hs with
  | advance ha => exact h.advance ha
  | rollback i => exact h.reset i List.Pairwise.nil
  | start i plan _ hplan => exact h.reset i hplan

theorem Reachable.disciplined (h : Reachable pos s) : Disciplined pos s := by
  induction h with
  | refl => exact .start
  | tail _ hs ih => exact ih.step hs

end Steps

/-! ## No cycle of waiting -/

/-- Whoever is waited for, and waits, waits for a later lock. -/
theorem Disciplined.later (h : Disciplined pos s) {j k : τ} {r q : ρ} {rest' : List ρ}
    (hr : r ∈ (s j).held) (hj : (s j).wanted = q :: rest') (hjk : j ≠ k) (hq : q ∈ (s k).held) :
    pos r < pos q := by
  rcases h.behind j r hr q (by rw [hj]; exact List.mem_cons_self) with rfl | hlt
  · exact absurd hq (h.apart j k hjk r hr)
  · exact hlt

/-- Along a chain of waiting the wanted locks come later and later. -/
theorem Disciplined.chain (h : Disciplined pos s) {i j k : τ} (hij : TransGen (Waits s) i j)
    (hjk : Waits s j k) : ∃ r q rest rest', (s i).wanted = r :: rest ∧
      (s j).wanted = q :: rest' ∧ pos r < pos q := by
  obtain ⟨hne, q, rest', hq, hqk⟩ := hjk
  induction hij generalizing k q rest' with
  | @single b hib =>
    obtain ⟨-, r, rest, hr, hrb⟩ := hib
    exact ⟨r, q, rest, rest', hr, hq, h.later hrb hq hne hqk⟩
  | @tail b c _ hbc ih =>
    obtain ⟨hbc', p, rest'', hp, hpc⟩ := hbc
    obtain ⟨r, p', rest, _, hr, hp', hlt⟩ := ih hbc' p rest'' hp hpc
    have hpp : p' = p := (List.cons.inj (hp'.symm.trans hp)).1
    subst hpp
    exact ⟨r, q, rest, rest', hr, hq, hlt.trans (h.later hpc hq hne hqk)⟩

/-- **No deadlock**: nobody waits, through whatever others, for itself. -/
theorem Disciplined.acyclic (h : Disciplined pos s) : Acyclic (Waits s) := by
  intro i hi
  obtain ⟨j, hij, -⟩ := TransGen.head'_iff.mp hi
  obtain ⟨r, q, _, _, hr, hq, hlt⟩ := h.chain hi hij
  have hrq : r = q := (List.cons.inj (hr.symm.trans hq)).1
  subst hrq
  exact absurd hlt (Nat.lt_irrefl _)

/-! ## Everything can finish -/

/-- What is left to do, a lock that is taken having still to be given back. -/
def Locking.work (l : Locking ρ) : ℕ := 2 * l.wanted.length + l.held.length

theorem Locking.eq_idle_of_work {l : Locking ρ} (h : l.work = 0) : l = .idle := by
  obtain ⟨held, wanted⟩ := l
  simp only [Locking.work] at h
  have hheld : held.length = 0 := by omega
  have hwanted : wanted.length = 0 := by omega
  rw [List.length_eq_zero_iff] at hheld hwanted
  rw [hheld, hwanted]
  rfl

theorem work_take {i : τ} {r : ρ} {rest : List ρ} (hw : (s i).wanted = r :: rest) :
    (⟨r :: (s i).held, rest⟩ : Locking ρ).work < (s i).work := by
  simp only [Locking.work, hw, List.length_cons]
  omega

variable [DecidableEq τ] [Fintype τ]

/-- Less work for one party is less work. -/
theorem work_update_lt {i : τ} {l : Locking ρ} (hl : l.work < (s i).work) :
    ∑ k, (Function.update s i l k).work < ∑ k, (s k).work := by
  refine Finset.sum_lt_sum (fun k _ => ?_) ⟨i, Finset.mem_univ i, ?_⟩
  · by_cases hk : k = i
    · subst hk
      rw [Function.update_self]
      exact hl.le
    · rw [Function.update_of_ne hk]
  · rwa [Function.update_self]

/-- **Somebody can go on**: a party about to finish, one that asks for what it has, or
the one that wants the latest lock. -/
theorem Disciplined.progress (h : Disciplined pos s) {i : τ} (hi : s i ≠ .idle) :
    ∃ t, Advance s t ∧ ∑ j, (t j).work < ∑ j, (s j).work := by
  by_cases hfin : ∃ j, (s j).wanted = [] ∧ (s j).held ≠ []
  · obtain ⟨j, hw, hh⟩ := hfin
    refine ⟨_, .finish j hw hh, work_update_lt ?_⟩
    simp [Locking.work, Locking.idle, hw, List.length_pos_iff.mpr hh]
  by_cases hagain : ∃ j q rest, (s j).wanted = q :: rest ∧ q ∈ (s j).held
  · obtain ⟨j, q, rest, hw, hq⟩ := hagain
    have hfree : ∀ k, k ≠ j → q ∉ (s k).held :=
      fun k hk => h.apart j k hk.symm q hq
    exact ⟨_, .take j q rest hw hfree, work_update_lt (work_take hw)⟩
  -- now every busy party wants a lock that comes after all it holds
  have hwants : ∀ j, s j ≠ .idle → ∃ r rest, (s j).wanted = r :: rest := by
    intro j hj
    cases hw : (s j).wanted with
    | cons r rest => exact ⟨r, rest, rfl⟩
    | nil =>
      refine absurd ⟨j, hw, fun hh => hj ?_⟩ hfin
      exact Locking.eq_idle_of_work (by simp [Locking.work, hw, hh])
  let busy := Finset.univ.filter fun j => (s j).wanted ≠ []
  have hbusy : busy.Nonempty := by
    obtain ⟨r, rest, hr⟩ := hwants i hi
    exact ⟨i, by simp [busy, hr]⟩
  let next : τ → ℕ := fun j => (s j).wanted.head?.elim 0 pos
  obtain ⟨j, hj, hmax⟩ := busy.exists_max_image next hbusy
  have hjw : (s j).wanted ≠ [] := by simpa [busy] using hj
  obtain ⟨r, rest, hr⟩ := List.exists_cons_of_ne_nil hjw
  have hfree : ∀ k, k ≠ j → r ∉ (s k).held := by
    intro k _ hrk
    have hkidle : s k ≠ .idle := by
      intro hidle
      rw [hidle] at hrk
      simp [Locking.idle] at hrk
    obtain ⟨q, rest', hq⟩ := hwants k hkidle
    have hle := hmax k (by simp [busy, hq])
    simp only [next, hr, hq, List.head?_cons, Option.elim_some] at hle
    rcases h.behind k r hrk q (by rw [hq]; exact List.mem_cons_self) with heq | hlt
    · exact hagain ⟨k, q, rest', hq, heq ▸ hrk⟩
    · omega
  exact ⟨_, .take j r rest hr hfree, work_update_lt (work_take hr)⟩

/-- **Everything begun can finish**, without a rollback. -/
theorem Disciplined.drains (h : Disciplined pos s) :
    ∃ t, ReflTransGen Advance s t ∧ ∀ i, t i = .idle := by
  induction hn : ∑ j, (s j).work using Nat.strong_induction_on generalizing s with
  | _ n ih =>
    by_cases hbusy : ∃ i, s i ≠ .idle
    · obtain ⟨i, hi⟩ := hbusy
      obtain ⟨t, hst, hlt⟩ := h.progress hi
      obtain ⟨u, htu, hidle⟩ := ih _ (hn ▸ hlt) (h.advance hst) rfl
      exact ⟨u, ReflTransGen.head hst htu, hidle⟩
    · exact ⟨s, .refl, fun i => not_not.mp fun hi => hbusy ⟨i, hi⟩⟩

end Noezema.Lib
