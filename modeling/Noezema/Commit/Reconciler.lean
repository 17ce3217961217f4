import Noezema.Commit.Session

/-! # Commit reconciliation

`reconcile_commit`, the row-lock protocol that decides the outcome of a session
found at the commit boundary, and the query by which a tick finds such sessions.
The protocol's promise is that a live finalizer is never rolled back; the last
section settles for which sessions the code keeps it.
-/

namespace Noezema.Commit

/-- `ReconcileOutcome`. -/
inductive ReconcileOutcome where
  | committedAccepted | aborted | finalizerInProgress | recordsInconsistent
  | noAttempt | databaseUnavailable
deriving DecidableEq, Repr

structure ReconcileResult where
  outcome : ReconcileOutcome
  detail : String
deriving DecidableEq, Repr

/-- Whether the two row locks are granted within `lock_timeout`. -/
structure Locks where
  session : Bool
  attempt : Bool
deriving DecidableEq, Repr

/-- `sessions.state` as the outcome's detail shows it. -/
def SessionState.text : SessionState → String
  | .created => "created"
  | .waking => "waking"
  | .orienting => "orienting"
  | .selectingQuestion => "selecting_question"
  | .planning => "planning"
  | .exploring => "exploring"
  | .verifying => "verifying"
  | .stopping => "stopping"
  | .consolidating => "consolidating"
  | .reporting => "reporting"
  | .committing => "committing"
  | .reconcilingCommit => "reconciling_commit"
  | .aborting => "aborting"
  | .succeeded => "succeeded"
  | .succeededPartial => "succeeded_partial"
  | .failed => "failed"
  | .cancelled => "cancelled"

/-- `_mark_failed`: guarded by the state not being terminal. -/
def markFailed (db : CommitDb) (reason : String) : CommitDb :=
  match db.session with
  | none => db
  | some s =>
    if s.state.isTerminal then db
    else { db with session := some { s with
      state := .failed
      leaseOwner := none
      leaseExpiresAt := none
      terminationReason := some reason
      commitIntentAt := none } }

/-- What is left of `reconcile_commit` once the attempt row is locked. -/
def decideAttempt (db : CommitDb) (s : Session) (a : Attempt) :
    ReconcileResult × CommitDb :=
  match a.status with
  | .committed =>
    if s.state.isTerminal then
      (⟨.committedAccepted, "attempt committed + terminal present"⟩, db)
    else (⟨.recordsInconsistent, "committed attempt without terminal record"⟩, db)
  | .prepared | .reconciling =>
    let db' := { db with
      attempts := setStatus a.id AttemptStatus.isUnresolved .aborted db.attempts }
    (⟨.aborted, "unresolved attempt fenced -> aborted"⟩,
      markFailed db' "reconciled_abort")
  | .aborted =>
    (⟨.aborted, "attempt already aborted"⟩,
      if s.state ≠ .failed then markFailed db "attempt already aborted" else db)

/-- `reconcile_commit`, inside the caller's transaction. `none` is
`LockTimeoutError`: the caller rolls back. -/
def reconcileCommit (locks : Locks) (db : CommitDb) :
    Option (ReconcileResult × CommitDb) :=
  if ¬ locks.session then none
  else match db.session with
  | none => some (⟨.noAttempt, "session missing"⟩, db)
  | some s =>
    if s.state.isTerminal ∧ s.state ≠ .failed then
      some (⟨.committedAccepted, "terminal=" ++ s.state.text⟩, db)
    else if s.state = .failed then
      some (⟨.noAttempt, "session already failed"⟩, db)
    else match s.commitAttemptId with
    | none =>
      -- decided before the lease is looked at
      some (⟨.aborted, "no prepared attempt (pre-boundary failure)"⟩,
        markFailed db "no_prepared_attempt")
    | some id =>
      if s.leaseLive db.now then
        some (⟨.finalizerInProgress, "live lease present"⟩, db)
      else if ¬ locks.attempt then none
      else match db.attempt? id with
      | none => some (⟨.recordsInconsistent, "attempt row vanished under lock"⟩, db)
      | some a => some (decideAttempt db s a)

/-- The transaction around `reconcile_commit`: a lock timeout leaves the rows as
they were. -/
def reconcileTx (locks : Locks) (db : CommitDb) : CommitDb :=
  match reconcileCommit locks db with
  | none => db
  | some (_, db') => db'

/-- `find_unresolved_sessions` selects the session. -/
def foundByTick (db : CommitDb) : Bool :=
  db.session.any (·.state.isStuck)

/-! ## What a reconcile transaction can do -/

theorem markFailed_session {db : CommitDb} {s : Session} {reason : String}
    (h : db.session = some s) (hs : s.state.isTerminal = false) :
    markFailed db reason = { db with session := some { s with
      state := .failed
      leaseOwner := none
      leaseExpiresAt := none
      terminationReason := some reason
      commitIntentAt := none } } := by
  simp [markFailed, h, hs]

theorem decideAttempt_cases (db : CommitDb) (s : Session) (a : Attempt) :
    (decideAttempt db s a).2 = db ∨
    (a.status.isUnresolved = true ∧ (decideAttempt db s a).2 =
      markFailed { db with
        attempts := setStatus a.id AttemptStatus.isUnresolved .aborted db.attempts }
        "reconciled_abort") ∨
    (a.status = .aborted ∧
      (decideAttempt db s a).2 = markFailed db "attempt already aborted") := by
  unfold decideAttempt
  cases hst : a.status with
  | committed =>
    by_cases ht : s.state.isTerminal
    · exact .inl (by simp [ht])
    · exact .inl (by simp [ht])
  | prepared => exact .inr (.inl ⟨rfl, rfl⟩)
  | reconciling => exact .inr (.inl ⟨rfl, rfl⟩)
  | aborted =>
    by_cases hf : s.state = .failed
    · exact .inl (by simp [hf])
    · exact .inr (.inr ⟨rfl, by simp [hf]⟩)

/-- **The ways a reconcile transaction ends.** It changes nothing; or it fails a
session that has no attempt; or, with no live lease, one whose unresolved attempt it
aborts or whose attempt was aborted before. -/
theorem reconcileTx_cases (locks : Locks) (db : CommitDb) :
    reconcileTx locks db = db ∨
    ∃ s, db.session = some s ∧ s.state.isTerminal = false ∧
      ((s.commitAttemptId = none ∧
          reconcileTx locks db = markFailed db "no_prepared_attempt") ∨
        ∃ a, s.commitAttemptId = some a.id ∧ db.attempt? a.id = some a ∧
          s.leaseLive db.now = false ∧
          ((a.status.isUnresolved = true ∧
              reconcileTx locks db = markFailed { db with
                attempts := setStatus a.id AttemptStatus.isUnresolved .aborted
                  db.attempts } "reconciled_abort") ∨
            (a.status = .aborted ∧
              reconcileTx locks db = markFailed db "attempt already aborted"))) := by
  unfold reconcileTx reconcileCommit
  cases hlock : locks.session with
  | false => exact .inl (by simp)
  | true =>
  cases hsess : db.session with
  | none => exact .inl (by simp)
  | some s =>
  cases hterm : s.state.isTerminal with
  | true =>
    by_cases hf : s.state = .failed <;> exact .inl (by simp [hterm, hf])
  | false =>
  have hf : s.state ≠ .failed := by
    intro hf
    simp [hf, SessionState.isTerminal] at hterm
  cases hatt : s.commitAttemptId with
  | none => exact .inr ⟨s, rfl, hterm, .inl ⟨hatt, by simp [hterm, hf, hatt]⟩⟩
  | some id =>
  cases hlive : s.leaseLive db.now with
  | true => exact .inl (by simp [hterm, hf, hatt, hlive])
  | false =>
  cases hlock' : locks.attempt with
  | false => exact .inl (by simp [hterm, hf, hatt, hlive])
  | true =>
  cases hfind : db.attempt? id with
  | none => exact .inl (by simp [hterm, hf, hatt, hlive, hfind])
  | some a =>
    have hid : a.id = id := by simpa using List.find?_some hfind
    subst hid
    simp only [hterm, hf, hatt, hlive, hfind, not_true_eq_false, false_and,
      Bool.false_eq_true, if_false]
    rcases decideAttempt_cases db s a with hd | ⟨hu, hd⟩ | ⟨ha, hd⟩
    · exact .inl hd
    · rw [hsess] at hd
      exact .inr ⟨s, rfl, hterm, .inr ⟨a, hatt, hfind, hlive, .inl ⟨hu, hd⟩⟩⟩
    · exact .inr ⟨s, rfl, hterm, .inr ⟨a, hatt, hfind, hlive, .inr ⟨ha, hd⟩⟩⟩

/-- The reconcile transaction fails the session: both rows are its, the session is open
without an attempt, or its lease has ended over an attempt that is not committed. -/
def FailsSession (locks : Locks) (db : CommitDb) : Prop :=
  locks.session = true ∧ ∃ s, db.session = some s ∧ s.state.isTerminal = false ∧
    (s.commitAttemptId = none ∨ locks.attempt = true ∧ s.leaseLive db.now = false ∧
      ∃ a, s.commitAttemptId.bind db.attempt? = some a ∧ a.status ≠ .committed)

/-- **A reconcile transaction fails the session or changes nothing.** -/
theorem reconcileTx_of_not_fails {locks : Locks} {db : CommitDb}
    (h : ¬ FailsSession locks db) : reconcileTx locks db = db := by
  unfold FailsSession at h
  unfold reconcileTx reconcileCommit
  cases hlock : locks.session with
  | false => simp
  | true =>
  cases hs : db.session with
  | none => simp
  | some s =>
  cases hterm : s.state.isTerminal with
  | true =>
    by_cases hf : s.state = .failed
    · simp [hf]
    · simp [hterm, hf]
  | false =>
  have hf : s.state ≠ .failed := by
    intro hf
    simp [hf, SessionState.isTerminal] at hterm
  cases hid : s.commitAttemptId with
  | none => exact absurd ⟨hlock, s, hs, hterm, .inl hid⟩ h
  | some id =>
  cases hlive : s.leaseLive db.now with
  | true => simp [hterm, hf, hid, hlive]
  | false =>
  cases hlock' : locks.attempt with
  | false => simp [hterm, hf, hid, hlive]
  | true =>
  cases ha : db.attempt? id with
  | none => simp [hterm, hf, hid, hlive, ha]
  | some a =>
    have hcommitted : a.status = .committed := by
      cases hst : a.status with
      | committed => rfl
      | prepared => exact absurd ⟨hlock, s, hs, hterm, .inr ⟨hlock', hlive, a, by
          simp [hid, ha], by simp [hst]⟩⟩ h
      | reconciling => exact absurd ⟨hlock, s, hs, hterm, .inr ⟨hlock', hlive, a, by
          simp [hid, ha], by simp [hst]⟩⟩ h
      | aborted => exact absurd ⟨hlock, s, hs, hterm, .inr ⟨hlock', hlive, a, by
          simp [hid, ha], by simp [hst]⟩⟩ h
    simp [hterm, hf, hid, hlive, ha, decideAttempt, hcommitted]

/-- A failed session is terminal afterwards. -/
theorem FailsSession.session {locks : Locks} {db : CommitDb} (h : FailsSession locks db) :
    (reconcileTx locks db).session.map (·.state) = some .failed := by
  obtain ⟨hlock, s, hs, hterm, hcase⟩ := h
  have hf : s.state ≠ .failed := by
    intro hf
    simp [hf, SessionState.isTerminal] at hterm
  rcases hcase with hnone | ⟨hlock', hlive, a, hbind, hne⟩
  · simp [reconcileTx, reconcileCommit, hlock, hs, hterm, hf, hnone, markFailed]
  · obtain ⟨id, hid, ha⟩ := Option.bind_eq_some_iff.mp hbind
    cases hst : a.status with
    | committed => exact absurd hst hne
    | prepared =>
      simp [reconcileTx, reconcileCommit, hlock, hlock', hs, hterm, hf, hid, hlive, ha,
        decideAttempt, hst, markFailed]
    | reconciling =>
      simp [reconcileTx, reconcileCommit, hlock, hlock', hs, hterm, hf, hid, hlive, ha,
        decideAttempt, hst, markFailed]
    | aborted =>
      simp [reconcileTx, reconcileCommit, hlock, hlock', hs, hterm, hf, hid, hlive, ha,
        decideAttempt, hst, markFailed]

/-! ## A live owner -/

/-- The reconciler leaves the rows alone and does not answer `aborted`; a lock
timeout is rolled back. -/
def LeavesOwner (locks : Locks) (db : CommitDb) : Prop :=
  ∀ r ∈ reconcileCommit locks db, r.2.session = db.session ∧
    r.2.attempts = db.attempts ∧ r.1.outcome ≠ .aborted

instance (locks : Locks) (db : CommitDb) : Decidable (LeavesOwner locks db) :=
  inferInstanceAs (Decidable (∀ r ∈ reconcileCommit locks db, _))

theorem SessionState.isStuck_not_terminal {st : SessionState}
    (h : st.isStuck = true) : st.isTerminal = false ∧ st ≠ .failed := by
  cases st <;> simp [isStuck, isTerminal] at h ⊢

/-- **A live owner survives exactly from its prepared attempt on.** At the commit
boundary and under a live lease, the reconciler is harmless iff the session row
already names its attempt or the session row lock is not granted. -/
theorem reconcile_live_owner_iff {db : CommitDb} {s : Session} (locks : Locks)
    (hs : db.session = some s) (hstuck : s.state.isStuck = true)
    (hlive : s.leaseLive db.now = true) :
    LeavesOwner locks db ↔ locks.session = false ∨ s.commitAttemptId ≠ none := by
  obtain ⟨hterm, hf⟩ := SessionState.isStuck_not_terminal hstuck
  unfold LeavesOwner reconcileCommit
  cases hlock : locks.session with
  | false => simp
  | true =>
    cases hatt : s.commitAttemptId with
    | none => simp [hs, hterm, hf, hatt]
    | some id => simp [hs, hterm, hf, hatt, hlive]

/-- A session between its phase-1 commit and its prepare transaction, its lease
running for another minute. -/
def unpreparedOwner : CommitDb where
  now := 0
  session := some
    { state := .committing
      leaseOwner := some "node-a"
      leaseExpiresAt := some 60
      phaseDeadline := none
      commitAttemptId := none
      commitIntentAt := none
      committedWorkspaceManifestId := none
      terminationReason := none }
  attempts := []
  staging := []
  question := .researching
  newQuestions := []
  knowledgeRevision := 0
  dependencyGraphRevision := 0

/-- The reconciler fails `unpreparedOwner` under its live lease. -/
theorem reconcile_live_owner_harmed :
    ¬ ∀ (locks : Locks) (db : CommitDb) (s : Session), db.session = some s →
      s.state.isStuck = true → s.leaseLive db.now = true → LeavesOwner locks db := by
  intro h
  exact absurd (h ⟨true, true⟩ unpreparedOwner _ rfl rfl rfl) (by decide)

/-- With the attempt recorded the same owner is left alone. -/
theorem reconcile_live_owner_iff_prepared :
    LeavesOwner ⟨true, true⟩ { unpreparedOwner with
      session := unpreparedOwner.session.map fun s => { s with commitAttemptId := some 1 }
      attempts := [⟨1, .prepared, none, 0, 0⟩] } :=
  (reconcile_live_owner_iff _ rfl rfl rfl).mpr (.inr (by simp))

end Noezema.Commit
