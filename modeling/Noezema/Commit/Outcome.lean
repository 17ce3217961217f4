import Noezema.Commit.Protocol

/-! # What a session reports

`run_session` returns an outcome at four places: the early end of phase 1, the committed
final transaction, the resolved exception of its body, and the reconciler's answer to a
refused one. The last maps an answer that decided nothing to the planned state; the
result is when the outcome is the durable one.
-/

namespace Noezema.Commit

open Noezema.Lib

/-! ## The report -/

/-- `SessionOutcome`, without the columns the driver copies from its plan. -/
structure SessionOutcome where
  finalState : SessionState
  questionsCreated : Nat
  terminationReason : Option String
deriving DecidableEq, Repr

/-- The outcome claims a success. -/
def SessionState.isSuccess : SessionState → Bool
  | .succeeded | .succeededPartial => true
  | _ => false

def FinalizeOutcome.text : FinalizeOutcome → String
  | .committed => "committed"
  | .fencingConflict => "fencing_conflict"
  | .leaseLost => "lease_lost"
  | .attemptMissing => "attempt_missing"

/-- `run_session` between two of its transactions: the outcome of a final transaction
that did not commit, and what it has returned. -/
structure SessionRun where
  node : Node
  refused : Option FinalizeOutcome
  outcome : Option SessionOutcome

/-- The state reported for the reconciler's answer. -/
def reportedState (plan : CommitPlan) : ReconcileOutcome → SessionState
  | .aborted | .recordsInconsistent | .noAttempt => .failed
  | .committedAccepted | .finalizerInProgress | .databaseUnavailable => plan.terminal

/-- The end of phase 3, after the final transaction. A lost answer is raised. -/
def SessionRun.afterFinalize (r : SessionRun) (memory : MemoryOutcome)
    (answer : CommitAnswer) : Option FinalizeOutcome × Option SessionOutcome :=
  match r.node.pc with
  | .phase3 id =>
    match finalize r.node.plan r.node.owner memory r.node.db id, answer with
    | some (result, _), .received =>
      if result.outcome = .committed then
        (none, some ⟨r.node.plan.terminal, result.appliedQuestions,
          r.node.plan.terminationReason⟩)
      else (some result.outcome, none)
    | _, _ => (none, none)
  | _ => (none, none)

/-- The outcome of the reconcile branch; a lock timeout is raised. -/
def SessionRun.afterReconcile (r : SessionRun) (locks : Locks) : Option SessionOutcome :=
  (reconcileCommit locks r.node.db).map fun answer =>
    ⟨reportedState r.node.plan answer.1.outcome, 0,
      r.refused.map fun outcome => "commit_" ++ outcome.text⟩

/-- One transaction, and what `run_session` returns after it. Phase 1 ends early
without a question or on the operator's abort. -/
def sessionStep (r : SessionRun) (e : NodeEvent) : Option SessionRun :=
  match nodeStep r.node e with
  | none => none
  | some node =>
    match e with
    | .finishEarly state _ _ reason =>
      if state = .failed ∨ state = .cancelled then
        some { r with node := node, outcome := some ⟨state, 0, reason⟩ }
      else none
    | .finalize memory answer =>
      let (refused, outcome) := r.afterFinalize memory answer
      some ⟨node, refused, outcome⟩
    | .resolveFailedFinalize _ =>
      some { r with
        node := node, outcome := some ⟨.failed, 0, some "commit_boundary_error"⟩ }
    | .driverReconcile locks =>
      some { r with node := node, outcome := r.afterReconcile locks }
    | _ => some { r with node := node }

/-- `run_session` is about to start. -/
structure SessionRun.Initial (r : SessionRun) : Prop where
  node : r.node.Initial
  refused : r.refused = none
  outcome : r.outcome = none

/-! ## What the others do to the rows -/

/-- The events of the session's driver. -/
def NodeEvent.isDriver : NodeEvent → Bool
  | .reachCommitting .. | .finishEarly .. | .prepare .. | .abortSession _ | .finalize ..
  | .resolveFailedFinalize _ | .driverReconcile _ => true
  | _ => false

/-- **What anyone else does to a session**: an open one is failed, where `fails` says
so, and that is all that its state and its attempt pointer see; a terminal one keeps its
attempts. -/
structure OthersStep (fails : Prop) (db db' : CommitDb) : Prop where
  absent : db.session = none → db'.session = none
  kept : ∀ s, db.session = some s → ∃ s', db'.session = some s' ∧
    s'.commitAttemptId = s.commitAttemptId ∧
    (s'.state = s.state ∨ fails ∧ s.state.isTerminal = false ∧ s'.state = .failed)
  attempts : ∀ s, db.session = some s → s.state.isTerminal = true →
    db'.attempts = db.attempts
  question : db'.question = db.question

section Others

variable {fails : Prop}

theorem OthersStep.refl (db : CommitDb) : OthersStep fails db db where
  absent := id
  kept := fun s hs => ⟨s, hs, rfl, .inl rfl⟩
  attempts := fun _ _ _ => rfl
  question := rfl

/-- Writes of the lease columns. -/
theorem OthersStep.lease {db db' : CommitDb} {s s' : Session} (hs : db.session = some s)
    (hs' : db'.session = some s') (hid : s'.commitAttemptId = s.commitAttemptId)
    (hstate : s'.state = s.state) (ha : db'.attempts = db.attempts)
    (hq : db'.question = db.question) : OthersStep fails db db' where
  absent := fun hnone => by simp [hs] at hnone
  kept := by
    intro t ht
    obtain rfl := Option.some.inj (hs.symm.trans ht)
    exact ⟨s', hs', hid, .inl hstate⟩
  attempts := fun _ _ _ => ha
  question := hq

/-- The reconciler fails an open session. -/
theorem OthersStep.markFailed {db : CommitDb} {s : Session} (as : List Attempt)
    (reason : String) (hfails : fails) (hs : db.session = some s)
    (hopen : s.state.isTerminal = false) :
    OthersStep fails db (markFailed { db with attempts := as } reason) := by
  have heq : Commit.markFailed { db with attempts := as } reason = _ :=
    markFailed_session hs hopen
  rw [heq]
  refine ⟨fun hnone => by simp [hs] at hnone, ?_, ?_, rfl⟩
  · intro t ht
    obtain rfl := Option.some.inj (hs.symm.trans ht)
    exact ⟨_, rfl, rfl, .inr ⟨hfails, hopen, rfl⟩⟩
  · intro t ht hterm
    obtain rfl := Option.some.inj (hs.symm.trans ht)
    rw [hopen] at hterm
    cases hterm

theorem OthersStep.reconcileTx {locks : Locks} {db : CommitDb}
    (hfails : FailsSession locks db → fails) :
    OthersStep fails db (reconcileTx locks db) := by
  by_cases hf : FailsSession locks db
  · rcases reconcileTx_cases locks db with heq | ⟨s, hs, hopen, hrest⟩
    · rw [heq]
      exact .refl db
    · rcases hrest with ⟨-, heq⟩ | ⟨a, -, -, -, ⟨-, heq⟩ | ⟨-, heq⟩⟩
      · rw [heq]
        exact .markFailed db.attempts _ (hfails hf) hs hopen
      · rw [heq]
        exact .markFailed _ _ (hfails hf) hs hopen
      · rw [heq]
        exact .markFailed db.attempts _ (hfails hf) hs hopen
  · rw [reconcileTx_of_not_fails hf]
    exact .refl db

end Others

/-- The event is a reconcile transaction that fails the session. -/
def NodeEvent.Fails (db : CommitDb) : NodeEvent → Prop
  | .reconcile locks => FailsSession locks db
  | _ => False

/-- Every event that is not the driver's. -/
theorem nodeStep_others {n n' : Node} {e : NodeEvent} (he : e.isDriver = false)
    (h : nodeStep n e = some n') :
    OthersStep (e.Fails n.db) n.db n'.db ∧ (n'.pc = n.pc ∨ n'.pc = .done) ∧
      n'.plan = n.plan := by
  cases e with
  | reachCommitting => cases he
  | finishEarly => cases he
  | prepare => cases he
  | abortSession => cases he
  | finalize => cases he
  | resolveFailedFinalize => cases he
  | driverReconcile => cases he
  | crash =>
    obtain rfl := Option.some.inj h
    exact ⟨.refl _, .inr rfl, rfl⟩
  | reconcile locks =>
    obtain rfl := Option.some.inj h
    exact ⟨.reconcileTx id, .inl rfl, rfl⟩
  | wait delay =>
    obtain rfl := Option.some.inj h
    exact ⟨⟨id, fun s hs => ⟨s, hs, rfl, .inl rfl⟩, fun _ _ _ => rfl, rfl⟩, .inl rfl, rfl⟩
  | acquireLease owner ttl deadline =>
    obtain ⟨db, hdb, rfl⟩ := Option.map_eq_some_iff.mp h
    unfold Commit.acquireLease at hdb
    split at hdb
    · cases hdb
    · rename_i s hs
      split at hdb
      · obtain rfl := Option.some.inj hdb
        exact ⟨.lease hs rfl rfl rfl rfl rfl, .inl rfl, rfl⟩
      · cases hdb
  | heartbeat owner ttl =>
    obtain ⟨db, hdb, rfl⟩ := Option.map_eq_some_iff.mp h
    unfold heartbeatLease at hdb
    split at hdb
    · cases hdb
    · rename_i s hs
      split at hdb
      · obtain rfl := Option.some.inj hdb
        exact ⟨.lease hs rfl rfl rfl rfl rfl, .inl rfl, rfl⟩
      · cases hdb
  | releaseLease owner =>
    obtain rfl := Option.some.inj h
    unfold Commit.releaseLease
    split
    · exact ⟨.refl _, .inl rfl, rfl⟩
    · rename_i s hs
      split
      · exact ⟨.lease hs rfl rfl rfl rfl rfl, .inl rfl, rfl⟩
      · exact ⟨.refl _, .inl rfl, rfl⟩
  | revise knowledge graph =>
    obtain rfl := Option.some.inj h
    exact ⟨⟨id, fun s hs => ⟨s, hs, rfl, .inl rfl⟩, fun _ _ _ => rfl, rfl⟩, .inl rfl, rfl⟩

/-! ## The report is the durable outcome -/

/-- **The report is durable**: a reported success is the state of the session row, and
the attempt that row names is committed. -/
def ReportDurable (r : SessionRun) : Prop :=
  ∀ o, r.outcome = some o → o.finalState.isSuccess = true →
    ∃ s a, r.node.db.session = some s ∧ s.state = o.finalState ∧
      s.commitAttemptId = some a.id ∧ a ∈ r.node.db.attempts ∧ a.status = .committed

/-- The session is at the commit boundary, or was failed there. -/
def AtBoundary (db : CommitDb) (P : Session → Prop) : Prop :=
  ∃ s, db.session = some s ∧ (s.state = .committing ∨ s.state = .failed) ∧ P s

/-- What the driver's position says about the row. -/
def Underway (n : Node) : Prop :=
  match n.pc with
  | .phase1 => n.db.session = none
  | .phase2 | .abort => AtBoundary n.db fun _ => True
  | .phase3 id | .resolve id => AtBoundary n.db fun s => s.commitAttemptId = some id
  | .reconcile => AtBoundary n.db fun s => s.commitAttemptId ≠ none
  | .done => True

/-- The invariant: the driver has stopped when it has returned. -/
structure RunInv (r : SessionRun) : Prop where
  underway : Underway r.node
  durable : ReportDurable r
  stopped : r.outcome ≠ none → r.node.pc = .done

theorem RunInv.initial {r : SessionRun} (h : r.Initial) : RunInv r where
  underway := by
    unfold Underway
    rw [h.node.pc]
    exact h.node.session
  durable := fun o ho => by simp [h.outcome] at ho
  stopped := fun hne => absurd h.outcome hne

/-- A report of a failed or cancelled session is durable for what it claims. -/
theorem ReportDurable.of_unsuccessful {node : Node} {refused : Option FinalizeOutcome}
    {o : SessionOutcome} (h : o.finalState.isSuccess = false) :
    ReportDurable ⟨node, refused, some o⟩ := by
  intro o' ho' hs
  obtain rfl := Option.some.inj ho'
  rw [h] at hs
  cases hs

/-- The rows of an open session after somebody else's step. -/
theorem AtBoundary.others {fails : Prop} {db db' : CommitDb} {P : Session → Prop}
    (h : AtBoundary db P) (hstep : OthersStep fails db db')
    (hP : ∀ s s' : Session, s'.commitAttemptId = s.commitAttemptId → P s → P s') :
    AtBoundary db' P := by
  obtain ⟨s, hs, hstate, hp⟩ := h
  obtain ⟨s', hs', hid, hcase⟩ := hstep.kept s hs
  refine ⟨s', hs', ?_, hP s s' hid hp⟩
  rcases hcase with heq | ⟨-, -, hfailed⟩
  · rwa [heq]
  · exact .inr hfailed

theorem Underway.others {fails : Prop} {n n' : Node} (h : Underway n)
    (hstep : OthersStep fails n.db n'.db) (hpc : n'.pc = n.pc ∨ n'.pc = .done) : Underway n' := by
  unfold Underway at h ⊢
  rcases hpc with hpc | hpc
  · rw [hpc]
    cases hn : n.pc with
    | phase1 =>
      rw [hn] at h
      exact hstep.absent h
    | phase2 =>
      rw [hn] at h
      exact h.others hstep fun _ _ _ _ => trivial
    | abort =>
      rw [hn] at h
      exact h.others hstep fun _ _ _ _ => trivial
    | phase3 id =>
      rw [hn] at h
      exact h.others hstep fun s s' hid hp => hid.trans hp
    | resolve id =>
      rw [hn] at h
      exact h.others hstep fun s s' hid hp => hid.trans hp
    | reconcile =>
      rw [hn] at h
      exact h.others hstep fun s s' hid hp => by rwa [hid]
    | done => trivial
  · rw [hpc]
    trivial

/-- A durable success stays one. -/
theorem ReportDurable.others {fails : Prop} {r : SessionRun} {n' : Node}
    (h : ReportDurable r) (hstep : OthersStep fails r.node.db n'.db) : ReportDurable { r with node := n' } := by
  intro o ho hsuccess
  obtain ⟨s, a, hs, hstate, hid, hmem, hcommitted⟩ := h o ho hsuccess
  have hterm : s.state.isTerminal = true := by
    rw [hstate]
    cases hfinal : o.finalState <;>
      simp [SessionState.isSuccess, SessionState.isTerminal, hfinal] at hsuccess ⊢
  obtain ⟨s', hs', hid', hcase⟩ := hstep.kept s hs
  rcases hcase with heq | ⟨-, hopen, -⟩
  · refine ⟨s', a, hs', heq.trans hstate, hid'.trans hid, ?_, hcommitted⟩
    show a ∈ n'.db.attempts
    rwa [hstep.attempts s hs hterm]
  · rw [hterm] at hopen
    cases hopen

/-- What is not the driver's leaves the report alone. -/
theorem sessionStep_others {r r' : SessionRun} {e : NodeEvent} (he : e.isDriver = false)
    (h : sessionStep r e = some r') :
    ∃ n', nodeStep r.node e = some n' ∧ r' = { r with node := n' } := by
  unfold sessionStep at h
  cases hn : nodeStep r.node e with
  | none => simp [hn] at h
  | some n' =>
    simp only [hn] at h
    refine ⟨n', rfl, ?_⟩
    cases e <;> first
      | exact (Option.some.inj h).symm
      | cases he

/-! ## The condition -/

/-- **The condition.** The driver's reconcile transaction, of a run that plans a
success, locks a session at the boundary only after its lease has ended. -/
def ReconcilesDeadLease (r : SessionRun) : NodeEvent → Prop
  | .driverReconcile locks => r.node.plan.terminal.isSuccess = true → locks.session = true →
      ∀ s, r.node.db.session = some s → s.state = .committing →
        s.leaseLive r.node.db.now = false
  | _ => True

/-- The reconciler's answers to a session at the boundary whose lease has ended: none
of them accepts a commit. -/
theorem reconcileCommit_dead {db : CommitDb} {s : Session} {locks : Locks}
    {answer : ReconcileResult × CommitDb} (hs : db.session = some s)
    (hstate : s.state = .committing ∨ s.state = .failed)
    (hdead : s.state = .committing → s.leaseLive db.now = false)
    (h : reconcileCommit locks db = some answer) :
    answer.1.outcome = .aborted ∨ answer.1.outcome = .recordsInconsistent ∨
      answer.1.outcome = .noAttempt := by
  unfold reconcileCommit at h
  rcases hstate with hc | hf
  · cases hlock : locks.session with
    | false => simp [hlock] at h
    | true =>
    cases hid : s.commitAttemptId with
    | none =>
      simp only [hlock, hs, hc, hid, SessionState.isTerminal] at h
      simp at h
      rw [← h]
      exact .inl rfl
    | some id =>
    cases hlock' : locks.attempt with
    | false => simp [hlock, hs, hc, hid, SessionState.isTerminal, hdead hc, hlock'] at h
    | true =>
    cases ha : db.attempt? id with
    | none =>
      simp [hlock, hs, hc, hid, SessionState.isTerminal, hdead hc, hlock', ha] at h
      rw [← h]
      exact .inr (.inl rfl)
    | some a =>
      simp [hlock, hs, hc, hid, SessionState.isTerminal, hdead hc, hlock', ha] at h
      rw [← h]
      unfold decideAttempt
      cases a.status with
      | committed => simp [hc, SessionState.isTerminal]
      | prepared => exact .inl rfl
      | reconciling => exact .inl rfl
      | aborted => exact .inl rfl
  · cases hlock : locks.session with
    | false => simp [hlock] at h
    | true =>
      simp [hlock, hs, hf, SessionState.isTerminal] at h
      rw [← h]
      exact .inr (.inr rfl)

theorem reportedState_failed {plan : CommitPlan} {outcome : ReconcileOutcome}
    (h : outcome = .aborted ∨ outcome = .recordsInconsistent ∨ outcome = .noAttempt) :
    reportedState plan outcome = .failed := by
  rcases h with rfl | rfl | rfl <;> rfl

/-! ## Every transaction keeps the invariant -/

theorem RunInv.running {n : Node} {refused : Option FinalizeOutcome} (h : Underway n) :
    RunInv ⟨n, refused, none⟩ where
  underway := h
  durable := fun o ho => by cases ho
  stopped := fun hne => absurd rfl hne

theorem RunInv.returned {r : SessionRun} (hpc : r.node.pc = .done)
    (hdurable : ReportDurable r) : RunInv r where
  underway := by
    unfold Underway
    rw [hpc]
    trivial
  durable := hdurable
  stopped := fun _ => hpc

/-- A driver that moves has not returned. -/
theorem RunInv.outcome_none {r : SessionRun} (h : RunInv r) (hpc : r.node.pc ≠ .done) :
    r.outcome = none := by
  cases ho : r.outcome with
  | none => rfl
  | some o => exact absurd (h.stopped (by simp [ho])) hpc

/-- The final transaction. -/
theorem RunInv.finalize {r r' : SessionRun} {memory : MemoryOutcome}
    {answer : CommitAnswer} (h : RunInv r)
    (hs : sessionStep r (.finalize memory answer) = some r') : RunInv r' := by
  obtain ⟨n, refused, outcome⟩ := r
  have hunder := h.underway
  unfold Underway at hunder
  cases hpc : n.pc with
  | phase3 id =>
    simp only [hpc] at hunder
    obtain ⟨s, hsess, hstate, hid⟩ := hunder
    simp only [sessionStep, nodeStep, hpc, SessionRun.afterFinalize] at hs
    cases hf : Commit.finalize n.plan n.owner memory n.db id with
    | none =>
      simp only [hf] at hs
      obtain rfl := Option.some.inj hs
      exact .running ⟨s, hsess, hstate, hid⟩
    | some p =>
      obtain ⟨result, db'⟩ := p
      simp only [hf] at hs
      cases answer with
      | lost =>
        obtain rfl := Option.some.inj hs
        exact .returned (by simp) fun o ho => by cases ho
      | rolledBack =>
        obtain rfl := Option.some.inj hs
        exact .returned (by simp) fun o ho => by cases ho
      | received =>
        rcases finalize_cases hf with ⟨hr, rfl⟩ | ⟨s₁, a, hs₁, ha, -, hcase⟩
        · simp only [hr, if_false, CommitAnswer.rows, true_and, ne_eq, not_false_eq_true,
            if_true] at hs
          obtain rfl := Option.some.inj hs
          exact .running ⟨s, hsess, hstate, by simp [hid]⟩
        · obtain rfl := Option.some.inj (hsess.symm.trans hs₁)
          have haid : a.id = id := by simpa using List.find?_some ha
          rcases hcase with ⟨hplan, hr, rfl⟩ | ⟨-, added, -, happly⟩
          · simp only [hr, if_true, CommitAnswer.rows] at hs
            obtain rfl := Option.some.inj hs
            exact .returned (by simp) (.of_unsuccessful (by rw [hplan]; rfl))
          · obtain ⟨hr, s', hs', hst, hid', hmem, -⟩ :=
              applyCommit_some (List.mem_of_find?_eq_some ha) happly
            simp only [hr, if_true, CommitAnswer.rows] at hs
            obtain rfl := Option.some.inj hs
            refine .returned (by simp) ?_
            intro o ho hsuccess
            obtain rfl := Option.some.inj ho
            exact ⟨s', _, hs', hst, by rw [hid', hid, haid], hmem, rfl⟩
  | phase1 => simp [sessionStep, nodeStep, hpc] at hs
  | phase2 => simp [sessionStep, nodeStep, hpc] at hs
  | resolve id => simp [sessionStep, nodeStep, hpc] at hs
  | reconcile => simp [sessionStep, nodeStep, hpc] at hs
  | abort => simp [sessionStep, nodeStep, hpc] at hs
  | done => simp [sessionStep, nodeStep, hpc] at hs

/-- The reconcile branch. -/
theorem RunInv.driverReconcile {r r' : SessionRun} {locks : Locks} (h : RunInv r)
    (hg : ReconcilesDeadLease r (.driverReconcile locks))
    (hs : sessionStep r (.driverReconcile locks) = some r') : RunInv r' := by
  by_cases hpc : r.node.pc = .reconcile
  · simp only [sessionStep, nodeStep, if_pos hpc] at hs
    obtain rfl := Option.some.inj hs
    refine .returned rfl ?_
    intro o ho hsuccess
    obtain ⟨answer, hanswer, rfl⟩ := Option.map_eq_some_iff.mp ho
    have hunder := h.underway
    unfold Underway at hunder
    simp only [hpc] at hunder
    obtain ⟨s, hsess, hstate, -⟩ := hunder
    by_cases hplan : r.node.plan.terminal.isSuccess
    · have hlock : locks.session = true := by
        cases hlock : locks.session with
        | true => rfl
        | false => simp [reconcileCommit, hlock] at hanswer
      have hends := reconcileCommit_dead hsess hstate (hg hplan hlock s hsess) hanswer
      simp only [reportedState_failed hends, SessionState.isSuccess] at hsuccess
      cases hsuccess
    · -- whatever the answer, the plan is no success
      simp only at hsuccess
      unfold reportedState at hsuccess
      split at hsuccess
      · cases hsuccess
      · cases hsuccess
      · cases hsuccess
      · exact absurd hsuccess hplan
      · exact absurd hsuccess hplan
      · exact absurd hsuccess hplan
  · simp [sessionStep, nodeStep, hpc] at hs

theorem RunInv.step {r r' : SessionRun} {e : NodeEvent} (h : RunInv r)
    (hg : ReconcilesDeadLease r e) (hs : sessionStep r e = some r') : RunInv r' := by
  cases he : e.isDriver with
  | false =>
    obtain ⟨n', hn, rfl⟩ := sessionStep_others he hs
    obtain ⟨hstep, hpc, -⟩ := nodeStep_others he hn
    refine ⟨h.underway.others hstep hpc, h.durable.others hstep, fun hne => ?_⟩
    rcases hpc with hpc | hpc
    · exact hpc.trans (h.stopped hne)
    · exact hpc
  | true =>
    cases e with
    | finalize memory answer => exact h.finalize hs
    | driverReconcile locks => exact h.driverReconcile hg hs
    | reachCommitting staging ttl manifest =>
      unfold sessionStep at hs
      simp only [nodeStep] at hs
      split at hs
      · cases hs
      · rename_i n' hn
        split at hn
        · rename_i hc
          obtain rfl := Option.some.inj hn
          obtain rfl := Option.some.inj hs
          rw [h.outcome_none (by simp [hc.1])]
          exact .running ⟨_, rfl, .inl rfl, trivial⟩
        · cases hn
    | finishEarly state staging ttl reason =>
      unfold sessionStep at hs
      simp only [nodeStep] at hs
      split at hs
      · cases hs
      · rename_i n' hn
        split at hn
        · obtain rfl := Option.some.inj hn
          split at hs
          · rename_i hstate
            obtain rfl := Option.some.inj hs
            refine .returned rfl (.of_unsuccessful ?_)
            rcases hstate with rfl | rfl
            · rfl
            · rfl
          · cases hs
        · cases hn
    | prepare id answer =>
      by_cases hpc : r.node.pc = .phase2
      · have hunder := h.underway
        unfold Underway at hunder
        simp only [hpc] at hunder
        have hnone := h.outcome_none (by simp [hpc])
        simp only [sessionStep, nodeStep, if_pos hpc] at hs
        cases hp : prepare r.node.db id with
        | none =>
          simp only [hp] at hs
          obtain rfl := Option.some.inj hs
          rw [hnone]
          exact .running hunder
        | some db' =>
          simp only [hp] at hs
          obtain rfl := Option.some.inj hs
          rw [hnone]
          obtain ⟨s, a, hsess, -, -, -, rfl⟩ := prepare_some hp
          obtain ⟨s₀, hs₀, hstate, -⟩ := hunder
          obtain rfl := Option.some.inj (hsess.symm.trans hs₀)
          refine .running ?_
          cases answer with
          | received => exact ⟨_, rfl, hstate, rfl⟩
          | lost => exact ⟨_, rfl, hstate, trivial⟩
          | rolledBack => exact ⟨s, hsess, hstate, trivial⟩
      · simp [sessionStep, nodeStep, hpc] at hs
    | abortSession reason =>
      by_cases hpc : r.node.pc = .abort
      · have hnone := h.outcome_none (by simp [hpc])
        simp only [sessionStep, nodeStep, if_pos hpc] at hs
        obtain rfl := Option.some.inj hs
        rw [hnone]
        exact .running trivial
      · simp [sessionStep, nodeStep, hpc] at hs
    | resolveFailedFinalize reason =>
      unfold sessionStep at hs
      simp only [nodeStep] at hs
      split at hs
      · cases hs
      · rename_i n' hn
        split at hn
        · obtain rfl := Option.some.inj hn
          obtain rfl := Option.some.inj hs
          exact .returned rfl (.of_unsuccessful rfl)
        · cases hn
    | crash => cases he
    | reconcile locks => cases he
    | wait delay => cases he
    | acquireLease owner ttl deadline => cases he
    | heartbeat owner ttl => cases he
    | releaseLease owner => cases he
    | revise knowledge graph => cases he

/-- **A reported success is the durable one.** In every run in which the driver never
reconciles a session at the boundary under a live lease, every outcome it returns is
true of the durable rows, when it returns and from then on. -/
theorem reported_success_durable {r₀ r : SessionRun} (h : r₀.Initial)
    (hrun : Run sessionStep ReconcilesDeadLease r₀ r) : ReportDurable r :=
  (hrun.invariant (RunInv.initial h) fun hi hg hs => hi.step hg hs).durable

/-- Conversely a reconcile transaction that meets the live lease reports the planned
success over a session that is still open. -/
theorem live_lease_reported {r r' : SessionRun} {s : Session} {locks : Locks}
    (hplan : r.node.plan.terminal.isSuccess = true) (hlock : locks.session = true)
    (hs : r.node.db.session = some s) (hstate : s.state = .committing)
    (hid : s.commitAttemptId ≠ none) (hlive : s.leaseLive r.node.db.now = true)
    (h : sessionStep r (.driverReconcile locks) = some r') :
    r'.node.db.session = some s ∧ ¬ ReportDurable r' := by
  have hanswer : reconcileCommit locks r.node.db =
      some (⟨.finalizerInProgress, "live lease present"⟩, r.node.db) := by
    obtain ⟨id, hid⟩ := Option.ne_none_iff_exists'.mp hid
    simp [reconcileCommit, hlock, hs, hstate, SessionState.isTerminal, hid, hlive]
  unfold sessionStep at h
  simp only [nodeStep] at h
  split at h
  · cases h
  · rename_i n' hn
    split at hn
    · obtain rfl := Option.some.inj hn
      obtain rfl := Option.some.inj h
      have hrow : (reconcileTx locks r.node.db).session = some s := by
        simp [reconcileTx, hanswer, hs]
      refine ⟨hrow, fun hdurable => ?_⟩
      obtain ⟨s', -, hs', hst, -⟩ := hdurable ⟨r.node.plan.terminal, 0,
        r.refused.map fun outcome => "commit_" ++ outcome.text⟩
        (by simp [SessionRun.afterReconcile, hanswer, reportedState]) hplan
      obtain rfl := Option.some.inj (hrow.symm.trans hs')
      have hterm : s.state = r.node.plan.terminal := hst
      rw [← hterm, hstate] at hplan
      cases hplan
    · cases hn

/-- `freshNode` under `run_session`. -/
def freshRun : SessionRun := ⟨freshNode, none, none⟩

theorem freshRun_initial : freshRun.Initial := ⟨⟨rfl, rfl, rfl, rfl⟩, rfl, rfl⟩

/-- A commit, and a tick that finds it after the lease's end. -/
def committedRun : List NodeEvent :=
  [reachesCommitting, .prepare 1 .received, .finalize (.ok 0) .received, .wait 61,
    .reconcile ⟨true, true⟩]

/-- Another commit moves the knowledge revision between prepare and finalize, and the fence
refuses. -/
def refusedRun : List NodeEvent :=
  [reachesCommitting, .prepare 1 .received, .revise 5 2, .finalize (.ok 0) .received, .wait 61]

/-- The commit reports what it wrote; the refused one reports the failure that its own
reconcile writes, once the lease has ended. -/
theorem reported_success_durable_reconciled :
    (∃ r, exec sessionStep freshRun committedRun = some r ∧
      r.outcome = some ⟨.succeeded, 0, none⟩ ∧ ReportDurable r) ∧
    ∃ r, exec sessionStep freshRun (refusedRun ++ [.driverReconcile ⟨true, true⟩]) = some r ∧
      r.outcome = some ⟨.failed, 0, some "commit_fencing_conflict"⟩ ∧
      r.node.db.session.map (·.state) = some .failed ∧ ReportDurable r := by
  have hfree : ∀ events : List NodeEvent, (∀ e ∈ events, ∀ locks, e ≠ .driverReconcile locks) →
      ∀ e ∈ events, ∀ r, ReconcilesDeadLease r e := by
    intro events hevents e he r
    cases e with
    | driverReconcile locks => exact absurd rfl (hevents _ he locks)
    | _ => trivial
  constructor
  · refine ⟨_, rfl, rfl, reported_success_durable freshRun_initial ?_⟩
    exact Run.of_exec_guarded committedRun rfl (hfree _ (by simp [committedRun, reachesCommitting]))
  · refine ⟨_, rfl, rfl, rfl, reported_success_durable freshRun_initial ?_⟩
    have hrefused := @Run.of_exec_guarded _ _ sessionStep ReconcilesDeadLease freshRun _
      refusedRun rfl (hfree _ (by simp [refusedRun, reachesCommitting]))
    refine hrefused.snoc (e := .driverReconcile ⟨true, true⟩) ?_ rfl
    -- a minute later the lease has ended
    intro _ _ s hs _
    obtain rfl := Option.some.inj hs
    rfl

/-- After the refusal the driver reconciles its own live session and reports the success; a
tick after the lease has ended aborts it. -/
def fencedRun : List NodeEvent :=
  [reachesCommitting, .prepare 1 .received, .revise 5 2, .finalize (.ok 0) .received,
    .driverReconcile ⟨true, true⟩]

theorem reported_success_unfounded : ¬ ∀ r₀ r : SessionRun, r₀.Initial →
    Run sessionStep anyStep r₀ r → ReportDurable r := by
  intro h
  have hrun : ∃ r, exec sessionStep freshRun fencedRun = some r ∧
      r.outcome = some ⟨.succeeded, 0, some "commit_fencing_conflict"⟩ ∧
      r.node.db.session.map (·.state) = some .committing ∧
      (exec sessionStep r [.wait 61, .reconcile ⟨true, true⟩]).map
        (fun r => r.node.db.session.map (·.state)) = some (some .failed) :=
    ⟨_, rfl, rfl, rfl, rfl⟩
  obtain ⟨r, hexec, hout, hstate, -⟩ := hrun
  obtain ⟨s, -, hs, hst, -⟩ :=
    h freshRun r ⟨⟨rfl, rfl, rfl, rfl⟩, rfl, rfl⟩ (Run.of_exec fencedRun hexec) _ hout rfl
  rw [hs] at hstate
  have hboth := (Option.some.inj hstate).symm.trans hst
  cases hboth

end Noezema.Commit
