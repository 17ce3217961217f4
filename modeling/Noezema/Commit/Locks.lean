import Mathlib.Data.List.Basic
import Noezema.Lib.OrderedLocks
import Noezema.Commit.Session

/-! # The canonical lock order

The short transactions lock rows of five kinds, in one order. `validate_lock_order` is the
check a transaction's list of kinds has to pass, and `lock_commit_set` takes the locks of
a session commit. Rows of one kind are not ordered among themselves, so a transaction may
lock one of each kind at most: then no set of transactions deadlocks.
-/

namespace Noezema.Commit

open Noezema.Lib Relation

/-- A kind of locked row, and its scope. -/
abbrev LockToken := String × String

/-- `CANONICAL_ORDER`. -/
def canonicalOrder : List LockToken :=
  [("runtime_config_heads", "scope"),
   ("sessions", ""),
   ("domain_revisions", "knowledge"),
   ("domain_revisions", "dependency_graph"),
   ("commit_attempts", "")]

/-- `LockOrderViolation`. -/
inductive LockOrderViolation where
  | notCanonical (want : LockToken)
  | outOfOrder (want : LockToken)
deriving DecidableEq, Repr

/-- `position`. -/
def lockPosition (tok : LockToken) : Option Nat := canonicalOrder.findIdx? (· == tok)

/-- The loop of `validate_lock_order`, with `last + 1` in the place of `last`. -/
def validateFrom (last : Nat) : List LockToken → Except LockOrderViolation Unit
  | [] => .ok ()
  | want :: locks =>
    match lockPosition want with
    | none => .error (.notCanonical want)
    | some p =>
      if p + 1 < last then .error (.outOfOrder want) else validateFrom (p + 1) locks

/-- `validate_lock_order`. -/
def validateLockOrder (locks : List LockToken) : Except LockOrderViolation Unit :=
  validateFrom 0 locks

/-- The locks come in the canonical order, one kind possibly twice. -/
def InCanonicalOrder (locks : List LockToken) : Prop :=
  (∀ tok ∈ locks, (lockPosition tok).isSome = true) ∧
    locks.Pairwise fun a b => ∀ p q, lockPosition a = some p → lockPosition b = some q → p ≤ q

theorem validateFrom_ok_iff (last : Nat) (locks : List LockToken) :
    validateFrom last locks = .ok () ↔ InCanonicalOrder locks ∧
      ∀ tok ∈ locks, ∀ p, lockPosition tok = some p → last ≤ p + 1 := by
  induction locks generalizing last with
  | nil => simp [validateFrom, InCanonicalOrder]
  | cons want locks ih =>
    cases hp : lockPosition want with
    | none => simp [validateFrom, InCanonicalOrder, hp]
    | some p =>
      simp only [validateFrom, hp]
      by_cases hlt : p + 1 < last
      · simp only [hlt, if_true, reduceCtorEq, false_iff]
        rintro ⟨-, hlast⟩
        have := hlast want (by simp) p hp
        omega
      · simp only [hlt, if_false, ih]
        constructor
        · rintro ⟨⟨hall, hpair⟩, hlast⟩
          refine ⟨⟨?_, List.pairwise_cons.mpr ⟨?_, hpair⟩⟩, ?_⟩
          · simpa [hp] using hall
          · intro b hb p' q hp' hq
            cases hp.symm.trans hp'
            have := hlast b hb q hq
            omega
          · intro tok htok q hq
            rcases List.mem_cons.mp htok with rfl | htok
            · cases hp.symm.trans hq
              omega
            · have := hlast tok htok q hq
              omega
        · rintro ⟨⟨hall, hpair⟩, hlast⟩
          obtain ⟨hfirst, hpair⟩ := List.pairwise_cons.mp hpair
          refine ⟨⟨fun tok htok => hall tok (by simp [htok]), hpair⟩, ?_⟩
          intro tok htok q hq
          have := hfirst tok htok p q hp hq
          omega

/-- **What `validate_lock_order` accepts**: the lists of known kinds in canonical order. -/
theorem validateLockOrder_ok_iff (locks : List LockToken) :
    validateLockOrder locks = .ok () ↔ InCanonicalOrder locks := by
  simp [validateLockOrder, validateFrom_ok_iff]

/-! ## Locked rows -/

/-- A row a transaction locks: its kind and its key. -/
structure LockedRow where
  token : LockToken
  key : String
deriving DecidableEq, Repr

/-- The plan of `lock_commit_set`. -/
def commitLockPlan (session attempt : String) (touchesDependencyGraph : Bool) :
    List LockedRow :=
  if touchesDependencyGraph then
    [⟨("sessions", ""), session⟩,
     ⟨("domain_revisions", "knowledge"), "knowledge"⟩,
     ⟨("domain_revisions", "dependency_graph"), "dependency_graph"⟩,
     ⟨("commit_attempts", ""), attempt⟩]
  else
    [⟨("sessions", ""), session⟩,
     ⟨("domain_revisions", "knowledge"), "knowledge"⟩,
     ⟨("commit_attempts", ""), attempt⟩]

/-- `_CASCADE_LOCK_PLAN`. -/
def cascadeLockPlan : List LockedRow :=
  [⟨("runtime_config_heads", "scope"), "global"⟩,
   ⟨("domain_revisions", "knowledge"), "knowledge"⟩,
   ⟨("domain_revisions", "dependency_graph"), "dependency_graph"⟩]

inductive LockFailure where
  | order (violation : LockOrderViolation)
  | missing (row : LockedRow)
deriving DecidableEq, Repr

/-- The `SELECT … FOR UPDATE`s in turn; the first row that is not there ends them. -/
def takeRows (present : LockedRow → Bool) :
    List LockedRow → Except LockFailure (List LockedRow)
  | [] => .ok []
  | row :: rows =>
    if present row then (takeRows present rows).map (row :: ·) else .error (.missing row)

/-- `lock_commit_set`: the rows taken, in the order they were. -/
def lockCommitSet (present : LockedRow → Bool) (session attempt : String)
    (touchesDependencyGraph : Bool) : Except LockFailure (List LockedRow) :=
  let plan := commitLockPlan session attempt touchesDependencyGraph
  match validateLockOrder (plan.map (·.token)) with
  | .error violation => .error (.order violation)
  | .ok () => takeRows present plan

/-- Where a row stands in the order. -/
def LockedRow.position (row : LockedRow) : ℕ := (lockPosition row.token).getD 0

/-- A transaction's locks: an accepted list of kinds, and one row of a kind. -/
structure AcceptedPlan (plan : List LockedRow) : Prop where
  valid : validateLockOrder (plan.map (·.token)) = .ok ()
  single : ∀ a ∈ plan, ∀ b ∈ plan, a.token = b.token → a = b

/-- A position is one kind's. -/
theorem lockPosition_inj {a b : LockToken} {p : Nat} (ha : lockPosition a = some p)
    (hb : lockPosition b = some p) : a = b := by
  obtain ⟨ha', haeq, -⟩ := List.findIdx?_eq_some_iff_getElem.mp ha
  obtain ⟨hb', hbeq, -⟩ := List.findIdx?_eq_some_iff_getElem.mp hb
  rw [← beq_iff_eq.mp haeq, ← beq_iff_eq.mp hbeq]

/-- An accepted plan is one whose rows come in order. -/
theorem AcceptedPlan.ordered {plan : List LockedRow} (h : AcceptedPlan plan) :
    OrderedBy LockedRow.position plan := by
  obtain ⟨hall, hpair⟩ := (validateLockOrder_ok_iff _).mp h.valid
  rw [List.pairwise_map] at hpair
  refine hpair.imp_of_mem fun {a b} ha hb hab => ?_
  obtain ⟨p, hp⟩ := Option.isSome_iff_exists.mp (hall a.token (List.mem_map_of_mem ha))
  obtain ⟨q, hq⟩ := Option.isSome_iff_exists.mp (hall b.token (List.mem_map_of_mem hb))
  have hle := hab p q hp hq
  rcases Nat.lt_or_eq_of_le hle with hlt | heq
  · exact .inr (by simpa [LockedRow.position, hp, hq] using hlt)
  · subst heq
    exact .inl (h.single a ha b hb (lockPosition_inj hp hq))

theorem commitLockPlan_accepted (session attempt : String) (touches : Bool) :
    AcceptedPlan (commitLockPlan session attempt touches) := by
  cases touches
  · exact ⟨rfl, by simp [commitLockPlan]⟩
  · exact ⟨rfl, by simp [commitLockPlan]⟩

theorem cascadeLockPlan_accepted : AcceptedPlan cascadeLockPlan :=
  ⟨rfl, by simp [cascadeLockPlan]⟩

theorem takeRows_ok {present : LockedRow → Bool} {plan rows : List LockedRow}
    (h : takeRows present plan = .ok rows) : rows = plan := by
  induction plan generalizing rows with
  | nil =>
    cases h
    rfl
  | cons row plan ih =>
    simp only [takeRows] at h
    split at h
    · cases ht : takeRows present plan with
      | error e => simp [ht, Except.map] at h
      | ok rest =>
        simp only [ht, Except.map, Except.ok.injEq] at h
        rw [← h, ih ht]
    · cases h

/-- A commit that gets its locks has locked its whole plan. -/
theorem lockCommitSet_ok {present : LockedRow → Bool} {session attempt : String}
    {touches : Bool} {rows : List LockedRow}
    (h : lockCommitSet present session attempt touches = .ok rows) :
    rows = commitLockPlan session attempt touches := by
  simp only [lockCommitSet, (commitLockPlan_accepted session attempt touches).valid] at h
  exact takeRows_ok h

/-! ## The lock table -/

section Table

variable {τ : Type*} [DecidableEq τ]

/-- A transaction takes its next lock or commits, is rolled back, or begins with an
accepted plan. -/
inductive TableStep (s : τ → Locking LockedRow) : (τ → Locking LockedRow) → Prop where
  | advance {t : τ → Locking LockedRow} : Advance s t → TableStep s t
  | rollback (i : τ) : TableStep s (Function.update s i .idle)
  | start (i : τ) (plan : List LockedRow) : s i = .idle → AcceptedPlan plan →
      TableStep s (Function.update s i ⟨[], plan⟩)

theorem TableStep.lockStep {s t : τ → Locking LockedRow} (h : TableStep s t) :
    LockStep LockedRow.position s t := by
  cases h with
  | advance ha => exact .advance ha
  | rollback i => exact .rollback i
  | start i plan hidle hplan => exact .start i plan hidle hplan.ordered

/-- **No deadlock.** Every session commit and every cascade is an accepted transaction;
and of any number of accepted transactions, one after another in any number of
connections, none ever waits for itself through the others, and whatever they have begun
can be committed without a rollback. -/
theorem canonical_locks_never_deadlock [Fintype τ] {s : τ → Locking LockedRow}
    (h : ReflTransGen TableStep (fun _ => .idle) s) :
    (∀ present session attempt touches rows,
      lockCommitSet present session attempt touches = .ok rows → AcceptedPlan rows) ∧
    AcceptedPlan cascadeLockPlan ∧ Acyclic (Waits s) ∧
    ∃ t, ReflTransGen Advance s t ∧ ∀ i, t i = .idle := by
  have hreach : Reachable LockedRow.position s :=
    ReflTransGen.mono (fun _ _ => TableStep.lockStep) _ _ h
  refine ⟨?_, cascadeLockPlan_accepted, hreach.disciplined.acyclic, hreach.disciplined.drains⟩
  intro present session attempt touches rows hrows
  rw [lockCommitSet_ok hrows]
  exact commitLockPlan_accepted session attempt touches

end Table

/-- A commit holds the knowledge revision, and a cascade that holds the config head waits for
it. -/
theorem canonical_locks_never_deadlock_two :
    ∃ s : Bool → Locking LockedRow,
      (s true).held.map (·.key) = ["knowledge", "s1"] ∧
      (s false).held.map (·.key) = ["global"] ∧ Waits s false true ∧ Acyclic (Waits s) ∧
      ∃ t, ReflTransGen Advance s t ∧ ∀ i, t i = .idle := by
  have hcommit : ReflTransGen TableStep (fun _ : Bool => .idle) _ :=
    .single (.start true _ rfl (commitLockPlan_accepted "s1" "a1" true))
  have hcascade := hcommit.tail (.start false _ rfl cascadeLockPlan_accepted)
  have hsession := hcascade.tail (.advance (.take true _ _ rfl (by decide)))
  have hknowledge := hsession.tail (.advance (.take true _ _ rfl (by decide)))
  have hhead := hknowledge.tail (.advance (.take false _ _ rfl (by decide)))
  have hsafe := canonical_locks_never_deadlock hhead
  exact ⟨_, rfl, rfl, ⟨by decide, _, _, rfl, by decide⟩, hsafe.2.2.1, hsafe.2.2.2⟩

end Noezema.Commit
