import Noezema.Commit.Outcome

/-! # The session state machine

`TRANSITIONS` is a closed table, and the orchestrator moves a session only through
`transition`. The commit boundary, the reconciler and the two resolving transactions
write `sessions.state` with statements of their own; the second half shows that what they
write are steps of the table too, so that one relation describes every session from its
creation to its end.
-/

namespace Noezema.Commit

open Noezema.Lib Relation

/-- `TRANSITIONS`. -/
def SessionState.transitions : SessionState → List SessionState
  | .created => [.waking, .aborting, .cancelled, .failed]
  | .waking => [.orienting, .stopping, .aborting, .cancelled, .failed]
  | .orienting => [.selectingQuestion, .stopping, .aborting, .cancelled, .failed]
  | .selectingQuestion => [.planning, .stopping, .aborting, .cancelled, .failed]
  | .planning => [.exploring, .stopping, .aborting, .cancelled, .failed]
  | .exploring => [.verifying, .stopping, .aborting, .cancelled, .failed]
  | .verifying => [.consolidating, .stopping, .aborting, .cancelled, .failed]
  | .stopping => [.consolidating, .failed, .cancelled]
  | .consolidating => [.reporting, .committing, .failed, .cancelled]
  | .reporting => [.committing, .failed, .cancelled]
  | .committing => [.succeeded, .succeededPartial, .failed, .reconcilingCommit]
  | .reconcilingCommit => [.succeeded, .succeededPartial, .failed, .cancelled]
  | .aborting => [.failed, .cancelled]
  -- absorbing
  | .succeeded => []
  | .succeededPartial => []
  | .failed => []
  | .cancelled => []

def canTransition (src dst : SessionState) : Bool :=
  src.transitions.contains dst

/-- `transition`; `none` is `InvalidTransitionError`. -/
def transition (src dst : SessionState) : Option SessionState :=
  if canTransition src dst then some dst else none

/-! ## The table -/

/-- How far along its life a session is. -/
def SessionState.rank : SessionState → Nat
  | .created => 0
  | .waking => 1
  | .orienting => 2
  | .selectingQuestion => 3
  | .planning => 4
  | .exploring => 5
  | .verifying => 6
  | .stopping => 7
  | .aborting => 7
  | .consolidating => 8
  | .reporting => 9
  | .committing => 10
  | .reconcilingCommit => 11
  | .succeeded => 12
  | .succeededPartial => 12
  | .failed => 12
  | .cancelled => 12

theorem SessionState.rank_le (s : SessionState) : s.rank ≤ 12 := by
  cases s <;> decide

/-- Every transition leads on. -/
theorem rank_lt_of_canTransition {s t : SessionState} (h : canTransition s t = true) :
    s.rank < t.rank := by
  cases s <;> cases t <;> first | decide | (exact absurd h (by decide))

theorem not_canTransition_of_terminal {s : SessionState} (h : s.isTerminal = true)
    (t : SessionState) : canTransition s t = false := by
  cases s <;> first | rfl | (exact absurd h (by decide))

theorem canTransition_failed {s : SessionState} (h : s.isTerminal = false) :
    canTransition s .failed = true := by
  cases s <;> first | decide | (exact absurd h (by decide))

theorem transition_some {s t u : SessionState} (h : transition s t = some u) :
    u = t ∧ canTransition s t = true := by
  unfold transition at h
  split at h
  · rename_i hc
    cases h
    exact ⟨rfl, hc⟩
  · cases h

/-- A success is entered from the commit boundary only, and `reconciling_commit` only
from `committing`. -/
theorem boundary_of_canTransition {s t : SessionState} (h : canTransition s t = true)
    (ht : t.isSuccess = true ∨ t = .reconcilingCommit) :
    s = .committing ∨ s = .reconcilingCommit := by
  cases s <;> cases t <;> first
    | exact .inl rfl
    | exact .inr rfl
    | exact absurd h (by decide)
    | exact absurd ht (by decide)

/-! ## The life of a session -/

/-- The length of a life: each transition takes the session further. -/
theorem exec_transition_rank {s t : SessionState} {path : List SessionState}
    (h : exec transition s path = some t) : s.rank + path.length ≤ t.rank := by
  induction path generalizing s with
  | nil =>
    cases h
    exact Nat.le_refl _
  | cons d path ih =>
    obtain ⟨m, hm, hrest⟩ := Option.bind_eq_some_iff.mp h
    obtain ⟨rfl, hc⟩ := transition_some hm
    have hlt := rank_lt_of_canTransition hc
    have hle := ih hrest
    simp only [List.length_cons]
    omega

/-- A life that ends in a success has been through the commit boundary. -/
theorem exec_transition_success {s t : SessionState} {path : List SessionState}
    (h : exec transition s path = some t)
    (ht : t.isSuccess = true ∨ t = .reconcilingCommit) :
    (s.isSuccess = true ∨ s = .committing ∨ s = .reconcilingCommit) ∨
      .committing ∈ path := by
  induction path generalizing s with
  | nil =>
    cases h
    rcases ht with ht | ht
    · exact .inl (.inl ht)
    · exact .inl (.inr (.inr ht))
  | cons d path ih =>
    obtain ⟨m, hm, hrest⟩ := Option.bind_eq_some_iff.mp h
    obtain ⟨rfl, hc⟩ := transition_some hm
    rcases ih hrest with (hs | hs | hs) | hmem
    · rcases boundary_of_canTransition hc (.inl hs) with hb | hb
      · exact .inl (.inr (.inl hb))
      · exact .inl (.inr (.inr hb))
    · exact .inr (by simp [hs])
    · rcases boundary_of_canTransition hc (.inr hs) with hb | hb
      · exact .inl (.inr (.inl hb))
      · exact .inl (.inr (.inr hb))
    · exact .inr (List.mem_cons_of_mem m hmem)

/-- **The life of a session**, whatever transitions are asked of it: at most twelve are
granted, a success lies behind `committing`, and an open session can still be failed. -/
theorem session_life {t : SessionState} {path : List SessionState}
    (h : exec transition .created path = some t) :
    path.length ≤ 12 ∧
    (t.isSuccess = true → .committing ∈ path) ∧
    (t.isTerminal = true → ∀ d, transition t d = none) ∧
    (t.isTerminal = false → transition t .failed = some .failed) := by
  have hrank := exec_transition_rank h
  have hle := t.rank_le
  refine ⟨by omega, ?_, ?_, ?_⟩
  · intro hs
    rcases exec_transition_success h (.inl hs) with hc | hmem
    · exact absurd hc (by decide)
    · exact hmem
  · intro ht d
    simp [transition, not_canTransition_of_terminal ht d]
  · intro ht
    simp [transition, canTransition_failed ht]

/-- A session that is stopped on its way and fails at the boundary. -/
theorem session_life_stopped :
    ∃ path, exec transition .created path = some .failed ∧
      path.length ≤ 12 ∧ ∀ d, transition .failed d = none := by
  have h : exec transition .created
      [.waking, .orienting, .stopping, .consolidating, .committing, .failed] =
        some .failed := rfl
  exact ⟨_, h, (session_life h).1, (session_life h).2.2.1 rfl⟩

/-! ## The statements that write the row -/

/-- A row of `sessions` after a transaction that is not the lease's: state and lease are
as they were, or the session has ended, by a transition, and its lease with it. -/
inductive RowMove (s s' : Session) : Prop where
  | kept : s'.state = s.state → s'.leaseOwner = s.leaseOwner →
      s'.leaseExpiresAt = s.leaseExpiresAt → s'.phaseDeadline = s.phaseDeadline →
      RowMove s s'
  | ended : canTransition s.state s'.state = true → s'.state.isTerminal = true →
      s'.leaseOwner = none → RowMove s s'

/-- What a transaction that is not the lease's does to the session's row. -/
structure MovesSession (db db' : CommitDb) : Prop where
  now : db'.now = db.now
  absent : db.session = none → db'.session = none
  row : ∀ s, db.session = some s → ∃ s', db'.session = some s' ∧ RowMove s s'

theorem MovesSession.of_eq {db db' : CommitDb} (hnow : db'.now = db.now)
    (h : db'.session = db.session) : MovesSession db db' where
  now := hnow
  absent := h.trans
  row := fun s hs => ⟨s, h.trans hs, .kept rfl rfl rfl rfl⟩

theorem MovesSession.refl (db : CommitDb) : MovesSession db db := .of_eq rfl rfl

/-- Failing an open session is a transition. -/
theorem MovesSession.markFailed {db db' : CommitDb} (hnow : db'.now = db.now)
    (h : db'.session = db.session) (reason : String) :
    MovesSession db (markFailed db' reason) := by
  cases hs : db.session with
  | none =>
    have hs' := h.trans hs
    exact .of_eq (by simp [Commit.markFailed, hs', hnow]) (by simp [Commit.markFailed, hs', hs])
  | some s =>
    have hs' := h.trans hs
    cases ht : s.state.isTerminal with
    | true =>
      exact .of_eq (by simp [Commit.markFailed, hs', ht, hnow])
        (by simp [Commit.markFailed, hs', ht, hs])
    | false =>
      rw [markFailed_session hs' ht]
      refine ⟨hnow, fun hn => absurd (hs.symm.trans hn) (by simp), fun t hst => ?_⟩
      cases hs.symm.trans hst
      exact ⟨_, rfl, .ended (canTransition_failed ht) rfl rfl⟩

theorem reconcileTx_moves (locks : Locks) (db : CommitDb) :
    MovesSession db (reconcileTx locks db) := by
  rcases reconcileTx_cases locks db with h | ⟨s, -, -, ⟨-, h⟩ | ⟨a, -, -, -, ⟨-, h⟩ | ⟨-, h⟩⟩⟩
  · rw [h]
    exact .refl db
  · rw [h]
    exact .markFailed rfl rfl _
  · rw [h]
    refine MovesSession.markFailed ?_ ?_ _
    · rfl
    · rfl
  · rw [h]
    exact .markFailed rfl rfl _

theorem resolveFailedFinalize_moves (db : CommitDb) (id : AttemptId) (reason : String) :
    MovesSession db (resolveFailedFinalize db id reason) := by
  refine MovesSession.markFailed ?_ ?_ reason
  · rfl
  · rfl

theorem abortSession_moves (db : CommitDb) (reason : String) :
    MovesSession db (abortSession db reason) := by
  cases hs : db.session with
  | none => exact .of_eq (by simp [abortSession, hs]) (by simp [abortSession, hs])
  | some s =>
    rw [abortSession_session hs]
    refine ⟨rfl, fun hn => absurd (hs.symm.trans hn) (by simp), fun t ht => ⟨_, rfl, ?_⟩⟩
    cases hs.symm.trans ht
    by_cases hc : s.state = .committing
    · rw [if_pos hc]
      exact .ended (canTransition_failed (by rw [hc]; rfl)) rfl rfl
    · rw [if_neg hc]
      exact .kept rfl rfl rfl rfl

theorem prepare_moves {db db' : CommitDb} {id : AttemptId} (h : prepare db id = some db') :
    MovesSession db db' := by
  obtain ⟨s, a, hs, -, -, -, rfl⟩ := prepare_some h
  refine ⟨rfl, fun hn => absurd (hs.symm.trans hn) (by simp), fun t ht => ?_⟩
  cases hs.symm.trans ht
  exact ⟨_, rfl, .kept rfl rfl rfl rfl⟩

/-- From `committing` the plan's state is one step. -/
theorem canTransition_plan {t : SessionState} (h : t.isTerminal = true)
    (hc : t ≠ .cancelled) : canTransition .committing t = true := by
  cases t <;> first | decide | (exact absurd h (by decide)) | (exact absurd rfl hc)

/-- What the commit past the fence does to the row. -/
theorem applyCommit_moves {plan : CommitPlan} {db db' : CommitDb} {s : Session}
    {a : Attempt} {added : Nat} {r : FinalizeResult} (hs : db.session = some s)
    (hstate : s.state = .committing)
    (h : applyCommit plan db s a added = some (r, db')) : MovesSession db db' := by
  unfold applyCommit at h
  dsimp only at h
  split at h
  · cases h
  · obtain ⟨-, rfl⟩ := Prod.mk.inj (Option.some.inj h)
    refine ⟨rfl, fun hn => absurd (hs.symm.trans hn) (by simp), fun t ht => ?_⟩
    cases hs.symm.trans ht
    refine ⟨_, rfl, .ended ?_ plan.terminal_ok rfl⟩
    rw [hstate]
    exact canTransition_plan plan.terminal_ok plan.not_cancelled

theorem finalize_moves {plan : CommitPlan} {owner : Owner} {memory : MemoryOutcome}
    {db db' : CommitDb} {id : AttemptId} {r : FinalizeResult}
    (h : finalize plan owner memory db id = some (r, db')) : MovesSession db db' := by
  rcases finalize_cases h with ⟨-, rfl⟩ | ⟨s, a, hs, -, hf, hend⟩
  · exact .refl _
  · have hstate : s.state = .committing := (fence_none hf).1
    rcases hend with ⟨-, -, rfl⟩ | ⟨-, added, -, hcommit⟩
    · refine ⟨rfl, fun hn => absurd (hs.symm.trans hn) (by simp), fun t ht => ?_⟩
      cases hs.symm.trans ht
      exact ⟨_, rfl, .ended (canTransition_failed (by rw [hstate]; rfl)) rfl rfl⟩
    · exact applyCommit_moves hs hstate hcommit

theorem CommitAnswer.rows_moves {before after : CommitDb} (answer : CommitAnswer)
    (h : MovesSession before after) : MovesSession before (answer.rows before after) := by
  cases answer with
  | received => exact h
  | lost => exact h
  | rolledBack => exact .refl before

/-- What a party is told of the lease: whose grant, and its new end. -/
def NodeEvent.told (n : Node) : NodeEvent → Option (Owner × Option Time)
  | .reachCommitting _ ttl _ => some (n.owner, some (n.db.now + ttl))
  | .finishEarly _ _ ttl _ => some (n.owner, some (n.db.now + ttl))
  | .acquireLease owner ttl _ => some (owner, some (n.db.now + ttl))
  | .heartbeat owner ttl => some (owner, some (n.db.now + ttl))
  | .releaseLease owner => some (owner, none)
  | _ => none

/-- **All that a step does to the session's row.** -/
inductive NodeMove (n : Node) : NodeEvent → Node → Prop where
  | began {n' : Node} {staging : List StagingRow} {ttl : Time}
      {manifest : Option ManifestId} : n.db.session = none → n'.db.now = n.db.now →
      n'.db.session = some (committingSession n.db n.owner ttl manifest) →
      NodeMove n (.reachCommitting staging ttl manifest) n'
  | early {n' : Node} {state : SessionState} {staging : List StagingRow} {ttl : Time}
      {reason : Option String} : n.db.session = none → n'.db.now = n.db.now →
      n'.db.session = some { committingSession n.db n.owner ttl none with
        state := state
        terminationReason := reason } →
      NodeMove n (.finishEarly state staging ttl reason) n'
  | waited {n' : Node} {delay : Time} : n'.db.now = n.db.now + delay →
      n'.db.session = n.db.session → NodeMove n (.wait delay) n'
  | acquired {n' : Node} {owner : Owner} {ttl deadline : Time} :
      acquireLease n.db owner ttl deadline = some n'.db →
      NodeMove n (.acquireLease owner ttl deadline) n'
  | renewed {n' : Node} {owner : Owner} {ttl : Time} :
      heartbeatLease n.db owner ttl = some n'.db → NodeMove n (.heartbeat owner ttl) n'
  | released {n' : Node} {owner : Owner} : n'.db = releaseLease n.db owner →
      NodeMove n (.releaseLease owner) n'
  | rows {n' : Node} {e : NodeEvent} : e.told n = none → MovesSession n.db n'.db →
      NodeMove n e n'

/-- **The step lemma.** The driver keeps its plan and its name, and the row moves in one
of these ways. -/
theorem nodeStep_moves {n n' : Node} {e : NodeEvent} (h : nodeStep n e = some n') :
    n'.plan = n.plan ∧ n'.owner = n.owner ∧ NodeMove n e n' := by
  cases e with
  | reachCommitting staging ttl manifest =>
    simp only [nodeStep] at h
    split at h
    · rename_i hpc
      cases h
      exact ⟨rfl, rfl, .began hpc.2.1 rfl rfl⟩
    · cases h
  | finishEarly state staging ttl reason =>
    simp only [nodeStep] at h
    split at h
    · rename_i hpc
      cases h
      exact ⟨rfl, rfl, .early hpc.2.1 rfl rfl⟩
    · cases h
  | prepare id answer =>
    simp only [nodeStep] at h
    split at h
    · cases hp : prepare n.db id with
      | none =>
        simp only [hp] at h
        cases h
        exact ⟨rfl, rfl, .rows rfl (.refl _)⟩
      | some db' =>
        simp only [hp] at h
        cases h
        exact ⟨rfl, rfl, .rows rfl (answer.rows_moves (prepare_moves hp))⟩
    · cases h
  | abortSession reason =>
    simp only [nodeStep] at h
    split at h
    · cases h
      exact ⟨rfl, rfl, .rows rfl (abortSession_moves n.db reason)⟩
    · cases h
  | finalize memory answer =>
    simp only [nodeStep] at h
    split at h
    · rename_i id hpc
      cases hf : finalize n.plan n.owner memory n.db id with
      | none =>
        simp only [hf] at h
        cases h
        exact ⟨rfl, rfl, .rows rfl (.refl _)⟩
      | some r =>
        simp only [hf] at h
        cases h
        exact ⟨rfl, rfl, .rows rfl (answer.rows_moves (finalize_moves hf))⟩
    · cases h
  | resolveFailedFinalize reason =>
    simp only [nodeStep] at h
    split at h
    · cases h
      exact ⟨rfl, rfl, .rows rfl (resolveFailedFinalize_moves n.db _ reason)⟩
    · cases h
  | driverReconcile locks =>
    simp only [nodeStep] at h
    split at h
    · cases h
      exact ⟨rfl, rfl, .rows rfl (reconcileTx_moves locks n.db)⟩
    · cases h
  | crash =>
    cases h
    exact ⟨rfl, rfl, .rows rfl (.refl _)⟩
  | reconcile locks =>
    cases h
    exact ⟨rfl, rfl, .rows rfl (reconcileTx_moves locks n.db)⟩
  | wait delay =>
    cases h
    exact ⟨rfl, rfl, .waited rfl rfl⟩
  | acquireLease owner ttl deadline =>
    obtain ⟨db', hdb, rfl⟩ := Option.map_eq_some_iff.mp h
    exact ⟨rfl, rfl, .acquired hdb⟩
  | heartbeat owner ttl =>
    obtain ⟨db', hdb, rfl⟩ := Option.map_eq_some_iff.mp h
    exact ⟨rfl, rfl, .renewed hdb⟩
  | releaseLease owner =>
    cases h
    exact ⟨rfl, rfl, .released rfl⟩
  | revise knowledge graph =>
    cases h
    exact ⟨rfl, rfl, .rows rfl (.of_eq rfl rfl)⟩

/-! ## The lease's own statements -/

/-- **What `acquire` does**: the owner takes a lease that is free, over or its own, on a
session that is neither finished nor frozen. -/
theorem acquireLease_some {db db' : CommitDb} {owner : Owner} {ttl deadline : Time}
    (h : acquireLease db owner ttl deadline = some db') :
    ∃ s, db.session = some s ∧ s.state.isTerminal = false ∧
      s.state ≠ .reconcilingCommit ∧
      (s.leaseOwner = none ∨ s.leaseExpiresAt.any (· < db.now) = true ∨
        s.leaseOwner = some owner) ∧
      db' = { db with session := some { s with
        leaseOwner := some owner
        leaseExpiresAt := some (db.now + ttl)
        phaseDeadline := some (db.now + deadline) } } := by
  cases hs : db.session with
  | none => simp [acquireLease, hs] at h
  | some s =>
    simp only [acquireLease, hs] at h
    split at h
    · rename_i hc
      cases h
      exact ⟨s, rfl, Bool.eq_false_iff.mpr hc.1, hc.2.1, hc.2.2, rfl⟩
    · cases h

/-- **What `heartbeat` does**: the holder of a live lease extends it, before the phase
deadline. -/
theorem heartbeatLease_some {db db' : CommitDb} {owner : Owner} {ttl : Time}
    (h : heartbeatLease db owner ttl = some db') :
    ∃ s, db.session = some s ∧ s.leaseLiveFor owner db.now = true ∧
      s.phaseDeadline.all (db.now < ·) = true ∧
      db' = { db with session := some { s with
        leaseExpiresAt := some (db.now + ttl) } } := by
  cases hs : db.session with
  | none => simp [heartbeatLease, hs] at h
  | some s =>
    simp only [heartbeatLease, hs] at h
    split at h
    · rename_i hc
      cases h
      exact ⟨s, rfl, hc.1, hc.2, rfl⟩
    · cases h

/-- **What `release` does**: the holder's lease is given up, another's is left. -/
theorem releaseLease_session {db : CommitDb} {s : Session} (owner : Owner)
    (hs : db.session = some s) :
    (releaseLease db owner).now = db.now ∧
    (releaseLease db owner).session =
      if s.leaseOwner = some owner then
        some { s with leaseOwner := none, leaseExpiresAt := none } else some s := by
  simp only [releaseLease, hs]
  split
  · exact ⟨rfl, rfl⟩
  · exact ⟨rfl, hs⟩

/-- No lease statement moves the state. -/
theorem NodeMove.state {n n' : Node} {e : NodeEvent} (h : NodeMove n e n') {s : Session}
    (hs : n.db.session = some s) : ∃ s', n'.db.session = some s' ∧
      (s'.state = s.state ∨ canTransition s.state s'.state = true) := by
  cases h with
  | began hn _ _ =>
    rw [hn] at hs
    cases hs
  | early hn _ _ =>
    rw [hn] at hs
    cases hs
  | waited _ hkeep => exact ⟨s, hkeep.trans hs, .inl rfl⟩
  | acquired ha =>
    obtain ⟨t, ht, -, -, -, hdb⟩ := acquireLease_some ha
    cases hs.symm.trans ht
    exact ⟨_, congrArg CommitDb.session hdb, .inl rfl⟩
  | renewed hr =>
    obtain ⟨t, ht, -, -, hdb⟩ := heartbeatLease_some hr
    cases hs.symm.trans ht
    exact ⟨_, congrArg CommitDb.session hdb, .inl rfl⟩
  | @released _ owner hr =>
    have hrow := (releaseLease_session owner hs).2
    rw [← hr] at hrow
    split at hrow
    · exact ⟨_, hrow, .inl rfl⟩
    · exact ⟨_, hrow, .inl rfl⟩
  | rows _ hm =>
    obtain ⟨s', hs', hmove⟩ := hm.row s hs
    cases hmove with
    | kept hst _ _ _ => exact ⟨s', hs', .inl hst⟩
    | ended hc _ _ => exact ⟨s', hs', .inr hc⟩

/-- **The durable history of a session follows the table**: from whatever a run reached,
in every order of the driver's transactions, the reconciler's and the lease's, what is
read later is reached by transitions; and a session that has ended has ended for good. -/
theorem durable_state_follows_table {n m : Node} (h : Run nodeStep anyStep n m) {s : Session}
    (hs : n.db.session = some s) :
    ∃ s', m.db.session = some s' ∧
      ReflTransGen (fun a b => canTransition a b = true) s.state s'.state ∧
      (s.state.isTerminal = true → s'.state = s.state) := by
  induction h with
  | nil => exact ⟨s, hs, .refl, fun _ => rfl⟩
  | snoc _ _ hstep ih =>
    obtain ⟨t, ht, hpath, hend⟩ := ih
    obtain ⟨s', hs', hmove⟩ := (nodeStep_moves hstep).2.2.state ht
    rcases hmove with heq | hcan
    · refine ⟨s', hs', by rwa [heq], fun hterm => ?_⟩
      rw [heq, hend hterm]
    · refine ⟨s', hs', hpath.tail hcan, fun hterm => ?_⟩
      rw [hend hterm, not_canTransition_of_terminal hterm] at hcan
      cases hcan

/-- `freshNode` at its commit boundary. -/
def boundaryNode : Node where
  db := { freshNode.db with
    session := some (committingSession freshNode.db freshNode.owner 60 none)
    staging := [⟨.claim, .recorded, [], ""⟩] }
  pc := .phase2
  plan := freshNode.plan
  owner := freshNode.owner

/-- The undisturbed commit, from the boundary. -/
theorem durable_state_follows_table_commit :
    ∃ m s', exec nodeStep boundaryNode
        [.prepare 1 .received, .finalize (.ok 0) .received] = some m ∧
      m.db.session = some s' ∧
      ReflTransGen (fun a b => canTransition a b = true) .committing s'.state := by
  have hrun : ∃ m, exec nodeStep boundaryNode
      [.prepare 1 .received, .finalize (.ok 0) .received] = some m := ⟨_, rfl⟩
  obtain ⟨m, hm⟩ := hrun
  obtain ⟨s', hs', hpath, -⟩ := durable_state_follows_table (n := boundaryNode)
    (Run.of_exec _ hm) rfl
  exact ⟨m, s', hm, hs', hpath⟩

end Noezema.Commit
