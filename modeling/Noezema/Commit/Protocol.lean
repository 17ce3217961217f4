import Noezema.Lib.Run
import Noezema.Commit.Boundary

/-! # The commit protocol of one session

The orchestrator drives a session through three transactions (phase 1, `prepare`,
`finalize`), each of which may fail, commit without its answer arriving, or never
run because the process died. Reconcile transactions, lease changes, the clock and
other commits interleave with them in any order. `Node` is the durable rows and the
driver's position; `nodeStep` is one transaction.
-/

namespace Noezema.Commit

open Noezema.Lib

/-! ## The step relation -/

/-- Where `run_session` stands between two transactions. -/
inductive DriverPc where
  | phase1
  | phase2
  | phase3 (attempt : AttemptId)
  | resolve (attempt : AttemptId)
  | reconcile
  | abort
  | done
deriving DecidableEq, Repr

/-- How a COMMIT ends for the driver: answered, applied without an answer, or rolled
back. -/
inductive CommitAnswer where
  | received | lost | rolledBack
deriving DecidableEq, Repr

structure Node where
  db : CommitDb
  pc : DriverPc
  plan : CommitPlan
  owner : Owner

inductive NodeEvent where
  /-- Phase 1 commits: the session is `committing` under a lease. -/
  | reachCommitting (staging : List StagingRow) (ttl : Time)
      (manifest : Option ManifestId)
  /-- Phase 1 ends the session early (no question, operator abort). -/
  | finishEarly (state : SessionState) (staging : List StagingRow) (ttl : Time)
      (reason : Option String)
  | prepare (id : AttemptId) (answer : CommitAnswer)
  | abortSession (reason : String)
  | finalize (memory : MemoryOutcome) (answer : CommitAnswer)
  | resolveFailedFinalize (reason : String)
  | driverReconcile (locks : Locks)
  /-- The driver's process dies. -/
  | crash
  /-- A reconcile transaction, of a tick or of an operator. -/
  | reconcile (locks : Locks)
  | wait (delay : Time)
  | acquireLease (owner : Owner) (ttl deadline : Time)
  | heartbeat (owner : Owner) (ttl : Time)
  | releaseLease (owner : Owner)
  /-- Another transaction moves the shared revisions. -/
  | revise (knowledge graph : Nat)

/-- The session row phase 1 commits. -/
def committingSession (db : CommitDb) (owner : Owner) (ttl : Time)
    (manifest : Option ManifestId) : Session where
  state := .committing
  leaseOwner := some owner
  leaseExpiresAt := some (db.now + ttl)
  phaseDeadline := none
  commitAttemptId := none
  commitIntentAt := none
  committedWorkspaceManifestId := manifest
  terminationReason := none

/-- The rows after a driver transaction whose body left `after`. -/
def CommitAnswer.rows (answer : CommitAnswer) (before after : CommitDb) : CommitDb :=
  match answer with
  | .received | .lost => after
  | .rolledBack => before

/-- One transaction of the driver or of anyone else; `none` is an event the driver
is not at. -/
def nodeStep (n : Node) : NodeEvent → Option Node
  | .reachCommitting staging ttl manifest =>
    if n.pc = .phase1 ∧ n.db.session = none ∧ staging.all (·.state = .recorded) then
      some { n with
        pc := .phase2
        db := { n.db with
          session := some (committingSession n.db n.owner ttl manifest)
          staging := staging } }
    else none
  | .finishEarly state staging ttl reason =>
    if n.pc = .phase1 ∧ n.db.session = none ∧ state.isTerminal ∧
        staging.all (·.state = .recorded) then
      some { n with
        pc := .done
        db := { n.db with
          -- `_finish` leaves the lease in the row
          session := some { committingSession n.db n.owner ttl none with
            state := state
            terminationReason := reason }
          staging := staging } }
    else none
  | .prepare id answer =>
    if n.pc = .phase2 then
      match prepare n.db id with
      | none => some { n with pc := .abort }
      | some db' => some { n with
          db := answer.rows n.db db'
          -- any exception of the transaction, a lost answer too, ends in the abort
          pc := if answer = .received then .phase3 id else .abort }
    else none
  | .abortSession reason =>
    if n.pc = .abort then
      some { n with pc := .done, db := abortSession n.db reason }
    else none
  | .finalize memory answer =>
    match n.pc with
    | .phase3 id =>
      match finalize n.plan n.owner memory n.db id with
      | none => some { n with pc := .resolve id }
      | some (r, db') => some { n with
          db := answer.rows n.db db'
          pc := if answer = .received ∧ r.outcome ≠ .committed then .reconcile
            else .done }
    | _ => none
  | .resolveFailedFinalize reason =>
    match n.pc with
    | .resolve id => some { n with
        pc := .done
        db := resolveFailedFinalize n.db id reason }
    | _ => none
  | .driverReconcile locks =>
    if n.pc = .reconcile then
      some { n with pc := .done, db := reconcileTx locks n.db }
    else none
  | .crash => some { n with pc := .done }
  | .reconcile locks => some { n with db := reconcileTx locks n.db }
  | .wait delay => some { n with db := { n.db with now := n.db.now + delay } }
  | .acquireLease owner ttl deadline =>
    (acquireLease n.db owner ttl deadline).map fun db => { n with db := db }
  | .heartbeat owner ttl =>
    (heartbeatLease n.db owner ttl).map fun db => { n with db := db }
  | .releaseLease owner => some { n with db := releaseLease n.db owner }
  | .revise knowledge graph => some { n with
      db := { n.db with
        knowledgeRevision := knowledge
        dependencyGraphRevision := graph } }

/-- A node on which no session has begun. -/
structure Node.Initial (n : Node) : Prop where
  pc : n.pc = .phase1
  session : n.db.session = none
  attempts : n.db.attempts = []
  staging : n.db.staging = []

/-! ## The property -/

def AllRecorded (rows : List StagingRow) : Prop := ∀ r ∈ rows, r.state = .recorded

def AllApplied (rows : List StagingRow) : Prop := ∀ r ∈ rows, r.state = .applied

/-- **A terminal session has no open attempt**, and its staging was applied exactly
when its attempt is committed: every row, or none. -/
def TerminalResolved (db : CommitDb) : Prop :=
  ∀ s, db.session = some s → s.state.isTerminal = true →
    (∀ a ∈ db.attempts, a.status = .committed ∨ a.status = .aborted) ∧
    ((∃ a ∈ db.attempts, a.status = .committed) → AllApplied db.staging) ∧
    ((∀ a ∈ db.attempts, a.status ≠ .committed) → AllRecorded db.staging)

/-- Whatever keeps the scheduler from waking is visited by the next tick. -/
def OpenAttemptFound (db : CommitDb) : Prop :=
  ∀ a ∈ db.attempts, a.status.isUnresolved = true → foundByTick db = true

/-! ## The invariant -/

/-- What the attempt's status says about the session and its staging. -/
def AttemptFits (a : Attempt) (s : Session) (staging : List StagingRow) : Prop :=
  match a.status with
  | .prepared => s.state.isStuck = true ∧ AllRecorded staging
  | .reconciling => False
  | .aborted => AllRecorded staging
  | .committed => s.state.isTerminal = true ∧ AllApplied staging

/-- **The invariant of the durable rows.** A session past phase 1 is stuck or
terminal and has no attempt, or the one it names. -/
structure RowsFit (db : CommitDb) : Prop where
  empty : db.session = none → db.attempts = [] ∧ db.staging = []
  bounded : ∀ s, db.session = some s →
    s.state.isStuck = true ∨ s.state.isTerminal = true
  attempt : ∀ s, db.session = some s →
    (db.attempts = [] ∧ s.commitAttemptId = none ∧ AllRecorded db.staging) ∨
    ∃ a, db.attempts = [a] ∧ s.commitAttemptId = some a.id ∧
      AttemptFits a s db.staging

/-- The attempt ids the driver's position stands for, where it fixes them. -/
def DriverPc.ids : DriverPc → Option (List AttemptId)
  | .phase1 | .phase2 => some []
  | .phase3 id | .resolve id => some [id]
  | .reconcile | .abort | .done => none

structure NodeInv (n : Node) : Prop where
  rows : RowsFit n.db
  ids : ∀ l, n.pc.ids = some l → n.db.attempts.map (·.id) = l

theorem RowsFit.resolved {db : CommitDb} (h : RowsFit db) : TerminalResolved db := by
  intro s hs ht
  rcases h.attempt s hs with ⟨hnil, -, hrec⟩ | ⟨a, ha, -, hfit⟩
  · rw [hnil]
    exact ⟨by simp, by simp, fun _ => hrec⟩
  · rw [ha]
    simp only [List.mem_singleton, forall_eq, exists_eq_left]
    unfold AttemptFits at hfit
    cases hst : a.status with
    | prepared =>
      rw [hst] at hfit
      rw [(SessionState.isStuck_not_terminal hfit.1).1] at ht
      simp at ht
    | reconciling => simp [hst] at hfit
    | committed =>
      rw [hst] at hfit
      exact ⟨.inl rfl, fun _ => hfit.2, fun hne => absurd rfl hne⟩
    | aborted =>
      rw [hst] at hfit
      exact ⟨.inr rfl, by simp, fun _ => hfit⟩

theorem RowsFit.found {db : CommitDb} (h : RowsFit db) : OpenAttemptFound db := by
  intro a ha hopen
  cases hs : db.session with
  | none =>
    rw [(h.empty hs).1] at ha
    simp at ha
  | some s =>
    rcases h.attempt s hs with ⟨hnil, -, -⟩ | ⟨b, hb, -, hfit⟩
    · rw [hnil] at ha
      simp at ha
    · rw [hb, List.mem_singleton] at ha
      subst ha
      unfold AttemptFits at hfit
      cases hst : a.status with
      | prepared =>
        rw [hst] at hfit
        simp [foundByTick, hs, hfit.1]
      | reconciling => simp [hst] at hfit
      | committed => simp [hst, AttemptStatus.isUnresolved] at hopen
      | aborted => simp [hst, AttemptStatus.isUnresolved] at hopen

/-! ## Every transaction keeps the invariant -/

/-- Only the session's state and attempt pointer matter to the rows' fit. -/
theorem RowsFit.congr {db db' : CommitDb} {s s' : Session} (h : RowsFit db)
    (hs : db.session = some s) (hs' : db'.session = some s')
    (hstate : s'.state = s.state) (hid : s'.commitAttemptId = s.commitAttemptId)
    (ha : db'.attempts = db.attempts) (hst : db'.staging = db.staging) :
    RowsFit db' where
  empty := by simp [hs']
  bounded := by
    intro t ht
    obtain rfl := Option.some.inj (hs'.symm.trans ht)
    rw [hstate]
    exact h.bounded s hs
  attempt := by
    intro t ht
    obtain rfl := Option.some.inj (hs'.symm.trans ht)
    have := h.attempt s hs
    unfold AttemptFits at this ⊢
    rwa [ha, hst, hid, hstate]

/-- A session failed by the reconciler, its attempt being none, aborted before or
aborted now. -/
theorem RowsFit.markFailed {db : CommitDb} {s : Session} {reason : String}
    (h : RowsFit db) (as : List Attempt) (hs : db.session = some s)
    (hterm : s.state.isTerminal = false)
    (has : (as = [] ∧ s.commitAttemptId = none) ∨
      ∃ a, as = [a] ∧ s.commitAttemptId = some a.id ∧ a.status = .aborted) :
    RowsFit (markFailed { db with attempts := as } reason) := by
  have hrec : AllRecorded db.staging := by
    rcases h.attempt s hs with ⟨-, -, hrec⟩ | ⟨a, -, -, hfit⟩
    · exact hrec
    · unfold AttemptFits at hfit
      split at hfit
      · exact hfit.2
      · exact hfit.elim
      · exact hfit
      · rw [hterm] at hfit
        simp at hfit
  have heq : Commit.markFailed { db with attempts := as } reason = _ :=
    markFailed_session hs hterm
  rw [heq]
  refine ⟨by simp, ?_, ?_⟩
  · intro t ht
    obtain rfl := Option.some.inj ht
    exact .inr rfl
  · intro t ht
    obtain rfl := Option.some.inj ht
    rcases has with ⟨hnil, hid⟩ | ⟨a, ha, hid, hab⟩
    · exact .inl ⟨hnil, hid, hrec⟩
    · refine .inr ⟨a, ha, hid, ?_⟩
      unfold AttemptFits
      rw [hab]
      exact hrec

/-- The attempt found under the session's pointer is the only one. -/
theorem RowsFit.only {db : CommitDb} {s : Session} {a : Attempt} {id : AttemptId}
    (h : RowsFit db) (hs : db.session = some s) (hid : s.commitAttemptId = some id)
    (ha : db.attempt? id = some a) :
    db.attempts = [a] ∧ a.id = id ∧ AttemptFits a s db.staging := by
  rcases h.attempt s hs with ⟨-, hnone, -⟩ | ⟨b, hb, hbid, hfit⟩
  · simp [hnone] at hid
  · have hmem := List.mem_of_find?_eq_some ha
    rw [hb, List.mem_singleton] at hmem
    subst hmem
    exact ⟨hb, Option.some.inj (hbid.symm.trans hid), hfit⟩

theorem RowsFit.reconcileTx {db : CommitDb} (h : RowsFit db) (locks : Locks) :
    RowsFit (reconcileTx locks db) := by
  rcases reconcileTx_cases locks db with heq | ⟨s, hs, hterm, hrest⟩
  · rwa [heq]
  · rcases hrest with ⟨hid, heq⟩ | ⟨a, hid, ha, -, hrest⟩
    · rw [heq]
      refine h.markFailed db.attempts hs hterm (.inl ⟨?_, hid⟩)
      rcases h.attempt s hs with ⟨hnil, -, -⟩ | ⟨b, -, hb, -⟩
      · exact hnil
      · simp [hid] at hb
    · obtain ⟨hone, -, -⟩ := h.only hs hid ha
      rcases hrest with ⟨hopen, heq⟩ | ⟨hab, heq⟩
      · rw [heq]
        refine h.markFailed _ hs hterm (.inr ⟨{ a with status := .aborted }, ?_, hid, rfl⟩)
        simp [setStatus, hone, hopen]
      · rw [heq]
        exact h.markFailed db.attempts hs hterm (.inr ⟨a, hone, hid, hab⟩)

theorem RowsFit.prepare {db db' : CommitDb} {id : AttemptId} (h : RowsFit db)
    (hnil : db.attempts = [])
    (hopen : ∀ s, db.session = some s → s.state.isTerminal = false)
    (hp : prepare db id = some db') : RowsFit db' := by
  obtain ⟨s, a, hs, hid, hst, -, rfl⟩ := prepare_some hp
  have hstuck : s.state.isStuck = true := by
    rcases h.bounded s hs with hb | hb
    · exact hb
    · rw [hopen s hs] at hb
      simp at hb
  refine ⟨by simp, ?_, ?_⟩
  · intro t ht
    obtain rfl := Option.some.inj ht
    exact .inl hstuck
  · intro t ht
    obtain rfl := Option.some.inj ht
    refine .inr ⟨a, by simp [hnil], by simp [hid], ?_⟩
    unfold AttemptFits
    rw [hst]
    refine ⟨hstuck, ?_⟩
    rcases h.attempt s hs with ⟨-, -, hrec⟩ | ⟨b, hb, -, -⟩
    · exact hrec
    · simp [hnil] at hb

theorem applyRecorded_applied {rows : List StagingRow} (h : AllRecorded rows) :
    AllApplied (applyRecorded rows) := by
  intro r hr
  obtain ⟨r', hr', rfl⟩ := List.mem_map.mp hr
  simp [h r' hr']

theorem RowsFit.finalize {plan : CommitPlan} {owner : Owner} {memory : MemoryOutcome}
    {db db' : CommitDb} {id : AttemptId} {r : FinalizeResult} (h : RowsFit db)
    (hf : finalize plan owner memory db id = some (r, db')) : RowsFit db' := by
  rcases finalize_some hf with rfl | ⟨s, a, hs, -, hcur, hprep, ⟨b, hb⟩, s', hs', hid',
    hterm, hend⟩
  · exact h
  · obtain ⟨i, hid, ha⟩ := Option.bind_eq_some_iff.mp hcur
    obtain ⟨hone, hai, hfit⟩ := h.only hs hid ha
    have hrec : AllRecorded db.staging := by
      unfold AttemptFits at hfit
      rw [hprep] at hfit
      exact hfit.2
    -- the driver's attempt is the one the session names
    have hidi : id = a.id := by
      have hmem := List.mem_of_find?_eq_some hb
      rw [hone, List.mem_singleton] at hmem
      rw [← hmem]
      exact (by simpa using List.find?_some hb : b.id = id).symm
    refine ⟨by simp [hs'], ?_, ?_⟩
    · intro t ht
      obtain rfl := Option.some.inj (hs'.symm.trans ht)
      exact .inr hterm
    · intro t ht
      obtain rfl := Option.some.inj (hs'.symm.trans ht)
      rcases hend with ⟨has, hst⟩ | ⟨has, hst⟩
      · refine .inr ⟨{ a with status := .aborted }, ?_, by rw [hid', hid, hai], ?_⟩
        · simp [has, setStatus, hone, hidi]
        · rw [hst]
          exact hrec
      · refine .inr ⟨{ a with status := .committed }, ?_, by rw [hid', hid, hai], ?_⟩
        · simp [has, setStatus, hone, hidi]
        · rw [hst]
          exact ⟨hterm, applyRecorded_applied hrec⟩

theorem RowsFit.resolveFailedFinalize {db : CommitDb} {id : AttemptId} {reason : String}
    (h : RowsFit db) (hids : db.attempts.map (·.id) = [id]) :
    RowsFit (resolveFailedFinalize db id reason) := by
  cases hs : db.session with
  | none => simp [(h.empty hs).1] at hids
  | some s =>
    unfold Commit.resolveFailedFinalize
    rcases h.attempt s hs with ⟨hnil, -, -⟩ | ⟨a, hone, hid, hfit⟩
    · simp [hnil] at hids
    · have hai : a.id = id := by simpa [hone] using hids
      cases hterm : s.state.isTerminal with
      | false =>
        refine h.markFailed _ hs hterm (.inr ?_)
        unfold AttemptFits at hfit
        cases hst : a.status with
        | prepared =>
          exact ⟨{ a with status := .aborted }, by
            simp [setStatus, hone, hai, hst, AttemptStatus.isUnresolved], hid, rfl⟩
        | reconciling => simp [hst] at hfit
        | aborted =>
          exact ⟨a, by simp [setStatus, hone, hst, AttemptStatus.isUnresolved], hid, hst⟩
        | committed => simp [hst, hterm] at hfit
      | true =>
        -- a terminal session's attempt is not open: nothing changes
        have hopen : a.status.isUnresolved = false := by
          unfold AttemptFits at hfit
          cases hst : a.status with
          | prepared =>
            rw [hst] at hfit
            rw [(SessionState.isStuck_not_terminal hfit.1).1] at hterm
            simp at hterm
          | reconciling => simp [hst] at hfit
          | aborted => rfl
          | committed => rfl
        have hset : setStatus id AttemptStatus.isUnresolved .aborted db.attempts =
            db.attempts := by
          simp [setStatus, hone, hopen]
        have hsame : Commit.markFailed db reason = db := by
          simp [Commit.markFailed, hs, hterm]
        rw [hset]
        show RowsFit (Commit.markFailed db reason)
        rw [hsame]
        exact h

theorem RowsFit.abortSession {db : CommitDb} {reason : String} (h : RowsFit db) :
    RowsFit (abortSession db reason) := by
  cases hs : db.session with
  | none =>
    obtain ⟨ha, hst⟩ := h.empty hs
    have heq : Commit.abortSession db reason = { db with attempts := [] } := by
      simp [Commit.abortSession, hs, ha, abortPrepared]
    rw [heq]
    exact ⟨fun _ => ⟨rfl, hst⟩, by simp [hs], by simp [hs]⟩
  | some s =>
    rw [abortSession_session hs]
    have hs' : ∀ t, some (if s.state = .committing then s.finish .failed (some reason)
        else s) = some t → (t = s ∨ t.state.isTerminal = true) ∧
          t.commitAttemptId = s.commitAttemptId ∧
          (s.state.isTerminal = true → t = s) := by
      intro t ht
      obtain rfl := Option.some.inj ht
      by_cases hc : s.state = .committing
      · simp [hc, Session.finish, SessionState.isTerminal]
      · simp [hc]
    refine ⟨by simp, ?_, ?_⟩
    · intro t ht
      rcases (hs' t ht).1 with rfl | hterm
      · exact h.bounded _ hs
      · exact .inr hterm
    · intro t ht
      obtain ⟨-, hid', hkeep⟩ := hs' t ht
      rcases h.attempt s hs with ⟨hnil, hid, hrec⟩ | ⟨a, hone, hid, hfit⟩
      · exact .inl ⟨by simp [hnil, abortPrepared], by rw [hid', hid], hrec⟩
      · refine .inr ?_
        unfold AttemptFits at hfit
        cases hst : a.status with
        | prepared =>
          rw [hst] at hfit
          exact ⟨{ a with status := .aborted }, by simp [hone, hst, abortPrepared],
            by rw [hid', hid], hfit.2⟩
        | reconciling => simp [hst] at hfit
        | aborted =>
          refine ⟨a, by simp [hone, hst, abortPrepared], by rw [hid', hid], ?_⟩
          simpa [AttemptFits, hst] using hfit
        | committed =>
          rw [hst] at hfit
          rw [hkeep hfit.1]
          exact ⟨a, by simp [hone, hst, abortPrepared], hid,
            by simpa [AttemptFits, hst] using hfit⟩

/-! ## Attempt ids -/

theorem setStatus_ids (id : AttemptId) (only : AttemptStatus → Bool) (next : AttemptStatus)
    (as : List Attempt) : (setStatus id only next as).map (·.id) = as.map (·.id) := by
  simp only [setStatus, List.map_map]
  congr 1
  funext a
  simp only [Function.comp]
  split <;> rfl

@[simp] theorem markFailed_attempts (db : CommitDb) (reason : String) :
    (markFailed db reason).attempts = db.attempts := by
  unfold markFailed
  split
  · rfl
  · split <;> rfl

theorem reconcileTx_ids (locks : Locks) (db : CommitDb) :
    (reconcileTx locks db).attempts.map (·.id) = db.attempts.map (·.id) := by
  rcases reconcileTx_cases locks db with heq | ⟨s, -, -, ⟨-, heq⟩ | ⟨a, -, -, -, h⟩⟩
  · rw [heq]
  · rw [heq, markFailed_attempts]
  · rcases h with ⟨-, heq⟩ | ⟨-, heq⟩
    · rw [heq, markFailed_attempts, setStatus_ids]
    · rw [heq, markFailed_attempts]

/-! ## Runs -/

/-- **The condition.** A prepare transaction commits only while its session is not
terminal. -/
def PrepareOnOpenSession (n : Node) : NodeEvent → Prop
  | .prepare _ answer => answer ≠ .rolledBack →
      ∀ s, n.db.session = some s → s.state.isTerminal = false
  | _ => True

theorem NodeInv.initial {n : Node} (h : n.Initial) : NodeInv n where
  rows := ⟨fun _ => ⟨h.attempts, h.staging⟩, by simp [h.session], by simp [h.session]⟩
  ids := by
    intro l hl
    rw [h.pc] at hl
    obtain rfl := Option.some.inj hl
    simp [h.attempts]

/-- The session a transaction of phase 1 commits. -/
private theorem RowsFit.begin {db : CommitDb} {s : Session} {rows : List StagingRow}
    (ha : db.attempts = []) (hid : s.commitAttemptId = none)
    (hs : s.state.isStuck = true ∨ s.state.isTerminal = true)
    (hrec : AllRecorded rows) :
    RowsFit { db with session := some s, staging := rows } := by
  refine ⟨by simp, ?_, ?_⟩
  · intro t ht
    obtain rfl := Option.some.inj ht
    exact hs
  · intro t ht
    obtain rfl := Option.some.inj ht
    exact .inl ⟨ha, hid, hrec⟩

private theorem allRecorded_of_all {rows : List StagingRow}
    (h : (rows.all (·.state = .recorded)) = true) : AllRecorded rows := by
  intro r hr
  simpa using List.all_eq_true.mp h r hr

/-- A transaction that fits the rows and keeps the attempt ids keeps the invariant,
wherever the driver goes from there without a new id. -/
theorem NodeInv.keep {n : Node} {db : CommitDb} {pc : DriverPc} (h : NodeInv n)
    (hrows : RowsFit db) (hids : db.attempts.map (·.id) = n.db.attempts.map (·.id))
    (hpc : pc = n.pc ∨ pc.ids = none ∨ pc.ids = n.pc.ids) :
    NodeInv { n with db := db, pc := pc } where
  rows := hrows
  ids := by
    intro l hl
    rw [hids]
    rcases hpc with rfl | hnone | hsame
    · exact h.ids l hl
    · simp [hnone] at hl
    · exact h.ids l (hsame ▸ hl)

/-- The intent of a session that has none: an attempt with the new id, if the answer is
not a rollback. -/
theorem NodeInv.prepared {n : Node} {id : AttemptId} {answer : CommitAnswer} {db' : CommitDb}
    (h : NodeInv n) (hg : PrepareOnOpenSession n (.prepare id answer)) (hpc : n.pc = .phase2)
    (hp : prepare n.db id = some db') :
    NodeInv { n with
      db := answer.rows n.db db'
      pc := if answer = .received then .phase3 id else .abort } := by
  have hnil : n.db.attempts = [] := by
    simpa using h.ids [] (by simp [hpc, DriverPc.ids])
  cases answer with
  | rolledBack => exact h.keep h.rows rfl (.inr (.inl rfl))
  | received =>
    refine ⟨h.rows.prepare hnil (hg (by simp)) hp, ?_⟩
    intro l hl
    obtain rfl := Option.some.inj hl
    obtain ⟨s, a, -, hid, -, -, rfl⟩ := prepare_some hp
    simp [CommitAnswer.rows, hnil, hid]
  | lost => exact ⟨h.rows.prepare hnil (hg (by simp)) hp, by simp [DriverPc.ids]⟩

/-- The driver has no id of an attempt after a finalize. -/
theorem NodeInv.finalized {n : Node} {id : AttemptId} {memory : MemoryOutcome}
    {answer : CommitAnswer} {r : FinalizeResult} {db' : CommitDb} (h : NodeInv n)
    (hf : finalize n.plan n.owner memory n.db id = some (r, db')) :
    NodeInv { n with
      db := answer.rows n.db db'
      pc := if answer = .received ∧ r.outcome ≠ .committed then .reconcile else .done } := by
  have hrows : RowsFit (answer.rows n.db db') := by
    cases answer with
    | received => exact h.rows.finalize hf
    | lost => exact h.rows.finalize hf
    | rolledBack => exact h.rows
  refine ⟨hrows, ?_⟩
  intro l hl
  dsimp only at hl
  split at hl <;> simp [DriverPc.ids] at hl

/-- **The step lemma**, one case for each event. -/
theorem NodeInv.step {n n' : Node} {e : NodeEvent} (h : NodeInv n)
    (hg : PrepareOnOpenSession n e) (hs : nodeStep n e = some n') : NodeInv n' := by
  cases e with
  | reachCommitting staging ttl manifest =>
    simp only [nodeStep] at hs
    split at hs
    · rename_i hc
      obtain rfl := Option.some.inj hs
      have ha := (h.rows.empty hc.2.1).1
      refine ⟨RowsFit.begin ha rfl (.inl rfl) (allRecorded_of_all hc.2.2), ?_⟩
      intro l hl
      obtain rfl := Option.some.inj hl
      simp [ha]
    · simp at hs
  | finishEarly state staging ttl reason =>
    simp only [nodeStep] at hs
    split at hs
    · rename_i hc
      obtain rfl := Option.some.inj hs
      have ha := (h.rows.empty hc.2.1).1
      exact ⟨RowsFit.begin ha rfl (.inr hc.2.2.1) (allRecorded_of_all hc.2.2.2),
        by simp [DriverPc.ids]⟩
    · simp at hs
  | prepare id answer =>
    simp only [nodeStep] at hs
    split at hs
    · rename_i hpc
      cases hp : prepare n.db id with
      | none =>
        simp only [hp] at hs
        obtain rfl := Option.some.inj hs
        exact h.keep h.rows rfl (.inr (.inl rfl))
      | some db' =>
        simp only [hp] at hs
        obtain rfl := Option.some.inj hs
        exact h.prepared hg hpc hp
    · simp at hs
  | abortSession reason =>
    simp only [nodeStep] at hs
    split at hs
    · obtain rfl := Option.some.inj hs
      exact ⟨h.rows.abortSession, by simp [DriverPc.ids]⟩
    · simp at hs
  | finalize memory answer =>
    simp only [nodeStep] at hs
    split at hs
    · rename_i id hpc
      cases hf : finalize n.plan n.owner memory n.db id with
      | none =>
        simp only [hf] at hs
        obtain rfl := Option.some.inj hs
        exact h.keep h.rows rfl (.inr (.inr (by rw [hpc]; rfl)))
      | some p =>
        obtain ⟨r, db'⟩ := p
        simp only [hf] at hs
        obtain rfl := Option.some.inj hs
        exact h.finalized hf
    · simp at hs
  | resolveFailedFinalize reason =>
    simp only [nodeStep] at hs
    split at hs
    · rename_i id hpc
      obtain rfl := Option.some.inj hs
      exact ⟨h.rows.resolveFailedFinalize (h.ids [id] (by simp [hpc, DriverPc.ids])),
        by simp [DriverPc.ids]⟩
    · simp at hs
  | driverReconcile locks =>
    simp only [nodeStep] at hs
    split at hs
    · obtain rfl := Option.some.inj hs
      exact ⟨h.rows.reconcileTx locks, by simp [DriverPc.ids]⟩
    · simp at hs
  | crash =>
    obtain rfl := Option.some.inj hs
    exact h.keep h.rows rfl (.inr (.inl rfl))
  | reconcile locks =>
    obtain rfl := Option.some.inj hs
    exact h.keep (h.rows.reconcileTx locks) (reconcileTx_ids locks n.db) (.inl rfl)
  | wait delay =>
    obtain rfl := Option.some.inj hs
    exact h.keep ⟨h.rows.empty, h.rows.bounded, h.rows.attempt⟩ rfl (.inl rfl)
  | acquireLease owner ttl deadline =>
    obtain ⟨db, hdb, rfl⟩ := Option.map_eq_some_iff.mp hs
    unfold Commit.acquireLease at hdb
    split at hdb
    · simp at hdb
    · rename_i s hsess
      split at hdb
      · obtain rfl := Option.some.inj hdb
        exact h.keep (h.rows.congr hsess rfl rfl rfl rfl rfl) rfl (.inl rfl)
      · simp at hdb
  | heartbeat owner ttl =>
    obtain ⟨db, hdb, rfl⟩ := Option.map_eq_some_iff.mp hs
    unfold heartbeatLease at hdb
    split at hdb
    · simp at hdb
    · rename_i s hsess
      split at hdb
      · obtain rfl := Option.some.inj hdb
        exact h.keep (h.rows.congr hsess rfl rfl rfl rfl rfl) rfl (.inl rfl)
      · simp at hdb
  | releaseLease owner =>
    obtain rfl := Option.some.inj hs
    unfold Commit.releaseLease
    split
    · exact h
    · rename_i s hsess
      split
      · exact h.keep (h.rows.congr hsess rfl rfl rfl rfl rfl) rfl (.inl rfl)
      · exact h
  | revise knowledge graph =>
    obtain rfl := Option.some.inj hs
    exact h.keep ⟨h.rows.empty, h.rows.bounded, h.rows.attempt⟩ rfl (.inl rfl)

/-- **No open attempt on a terminal session.** In every run whose prepare
transactions commit only while the session is open, every state reached resolves the
attempt of a terminal session, applies its staging exactly when that attempt is
committed, and leaves no open attempt that the next tick does not visit. -/
theorem terminal_session_resolved {n₀ n : Node} (h : n₀.Initial)
    (hrun : Run nodeStep PrepareOnOpenSession n₀ n) :
    TerminalResolved n.db ∧ OpenAttemptFound n.db := by
  have hinv : NodeInv n :=
    hrun.invariant (NodeInv.initial h) fun hi hg hs => hi.step hg hs
  exact ⟨hinv.rows.resolved, hinv.rows.found⟩

/-- A node about to start a session that will succeed with one claim. -/
def freshNode : Node where
  db := {
    now := 0
    session := none
    attempts := []
    staging := []
    question := .researching
    newQuestions := []
    knowledgeRevision := 4
    dependencyGraphRevision := 2 }
  pc := .phase1
  plan := ⟨.succeeded, succeeded_isTerminal, succeeded_not_cancelled, none, some .verified⟩
  owner := "node-a"

/-- Phase 1 of `freshNode`: one staged claim, a lease of a minute. -/
def reachesCommitting : NodeEvent :=
  .reachCommitting [⟨.claim, .recorded, [], ""⟩] 60 none

/-- The undisturbed commit of `freshNode`. -/
theorem terminal_session_resolved_commit :
    ∃ n, exec nodeStep freshNode
        [reachesCommitting, .prepare 1 .received, .finalize (.ok 0) .received] = some n ∧
      n.db.session.map (·.state) = some .succeeded ∧
      n.db.attempts.map (·.status) = [.committed] ∧
      TerminalResolved n.db ∧ OpenAttemptFound n.db := by
  refine ⟨_, rfl, rfl, rfl, ?_⟩
  refine terminal_session_resolved (show freshNode.Initial from ⟨rfl, rfl, rfl, rfl⟩) ?_
  refine .snoc (e := .finalize (.ok 0) .received) (.snoc (e := .prepare 1 .received)
    (.snoc (e := reachesCommitting) .nil trivial rfl) ?_ rfl) trivial rfl
  intro _ s hs
  obtain rfl := Option.some.inj hs
  rfl

/-- A reconcile transaction overtakes `prepare`: it finds the session without an
attempt, fails it under its live lease, and the driver prepares all the same. -/
def overtakenRun : List NodeEvent :=
  [reachesCommitting, .reconcile ⟨true, true⟩, .prepare 1 .received,
    .finalize (.ok 0) .received, .driverReconcile ⟨true, true⟩]

/-- `overtakenRun` ends, with nothing left to run, on a failed session whose
attempt is still prepared. -/
theorem terminal_session_unresolved :
    ¬ ∀ n₀ n : Node, n₀.Initial → Run nodeStep anyStep n₀ n →
      TerminalResolved n.db ∧ OpenAttemptFound n.db := by
  intro h
  have hrun : ∃ n, exec nodeStep freshNode overtakenRun = some n ∧
      n.db.session.map (·.state) = some .failed ∧
      n.db.attempts.map (·.status) = [.prepared] := ⟨_, rfl, rfl, rfl⟩
  obtain ⟨n, hexec, hstate, hatt⟩ := hrun
  obtain ⟨s, hs, hfailed⟩ := Option.map_eq_some_iff.mp hstate
  obtain ⟨a, ha, hst⟩ : ∃ a ∈ n.db.attempts, a.status = .prepared := by
    rw [← List.mem_map, hatt]
    simp
  obtain ⟨hres, -⟩ := h freshNode n ⟨rfl, rfl, rfl, rfl⟩ (Run.of_exec overtakenRun hexec)
  have := (hres s hs (by simp [hfailed, SessionState.isTerminal])).1 a ha
  simp [hst] at this

/-- Conversely a prepare transaction that commits on a terminal session leaves an
open attempt that no tick visits. -/
theorem prepare_terminal_unresolved {db db' : CommitDb} {s : Session} {id : AttemptId}
    (hs : db.session = some s) (ht : s.state.isTerminal = true)
    (hp : prepare db id = some db') :
    ¬ TerminalResolved db' ∧ ¬ OpenAttemptFound db' := by
  obtain ⟨s', a, hs', -, hst, -, rfl⟩ := prepare_some hp
  obtain rfl := Option.some.inj (hs.symm.trans hs')
  constructor
  · intro h
    have := (h _ rfl ht).1 a (by simp)
    simp [hst] at this
  · intro h
    have hfound := h a (by simp) (by simp [hst, AttemptStatus.isUnresolved])
    have hstuck : s.state.isStuck = true := by simpa [foundByTick] using hfound
    rw [(SessionState.isStuck_not_terminal hstuck).1] at ht
    simp at ht

end Noezema.Commit
