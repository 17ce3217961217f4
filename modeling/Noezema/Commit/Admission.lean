import Noezema.Commit.StateMachine

/-! # Session admission and the watchdog

An online activation asks whether a session is in flight while the session's own row is
still uncommitted. What it counts is the admission record, committed before phase 1 opens
and deleted by a trigger when the session ends. The record is not renewed: it is written
to outlast the lease, which the phase deadline ends. `InFlight` is one session from its
admission to its end, phase 1 step by step, among sweeps and the records of others.
-/

namespace Noezema.Commit

open Noezema.Lib

/-! ## `session_admissions` -/

abbrev SessionId := Nat

/-- A row of `session_admissions`. -/
structure Admission where
  sessionId : SessionId
  leaseExpiresAt : Time
deriving DecidableEq, Repr

/-- `ADMISSION_LEASE_MARGIN_SECONDS`. -/
def admissionLeaseMarginSeconds : Time := 600

/-- `register_session_admission`. -/
def registerSessionAdmission (rows : List Admission) (id : SessionId)
    (now phaseDeadline : Time) : List Admission :=
  rows ++ [⟨id, now + (phaseDeadline + admissionLeaseMarginSeconds)⟩]

/-- `count_live_admissions`. -/
def countLiveAdmissions (rows : List Admission) (now : Time) : Nat :=
  (rows.filter fun a => decide (now < a.leaseExpiresAt)).length

/-- `sweep_expired_admissions`. -/
def sweepExpiredAdmissions (rows : List Admission) (now : Time) : List Admission :=
  rows.filter fun a => decide (now < a.leaseExpiresAt)

/-- `DELETE FROM session_admissions WHERE session_id = :id`. -/
def releaseSessionAdmission (rows : List Admission) (id : SessionId) : List Admission :=
  rows.filter fun a => decide (a.sessionId ≠ id)

/-- `trg_session_admission_terminal`, on the row a transaction leaves. -/
def releaseOnTerminal (rows : List Admission) (id : SessionId) (db : CommitDb) :
    List Admission :=
  if db.session.any (·.state.isTerminal) then releaseSessionAdmission rows id else rows

/-! ## One session in flight -/

/-- A session of `run_session`: its rows and its driver, the admissions of the node, and
when and with which phase deadline it was admitted. -/
structure InFlight where
  id : SessionId
  node : Node
  admissions : List Admission
  admitted : Option (Time × Time)

inductive FlightEvent where
  /-- The admission transaction. -/
  | register (phaseDeadline : Time)
  /-- Phase 1 creates the row. -/
  | create
  /-- `_transition` and `_finish` in phase 1. -/
  | transition (dst : SessionState)
  /-- Phase 1 is rolled back; the release may fail. -/
  | rollback (released : Bool)
  /-- A transaction of the protocol, the lease's among them. -/
  | node (e : NodeEvent)
  /-- The activation's sweep, in a transaction that began at `txNow`. -/
  | sweep (txNow : Time)
  /-- Other sessions come and go. -/
  | others (rows : List Admission)

/-- A session as `SessionRepository.create` writes it. -/
def createdSession : Session where
  state := .created
  leaseOwner := none
  leaseExpiresAt := none
  phaseDeadline := none
  commitAttemptId := none
  commitIntentAt := none
  committedWorkspaceManifestId := none
  terminationReason := none

/-- Where the driver stands after `_transition`: a committing session leaves phase 1, an
ended one is done with. -/
def pcAfter (dst : SessionState) : DriverPc :=
  if dst = .committing then .phase2 else if dst.isTerminal then .done else .phase1

/-- A transaction of the protocol, with the trigger. -/
def InFlight.transact (w : InFlight) (e : NodeEvent) : Option InFlight :=
  (nodeStep w.node e).map fun n => { w with
    node := n
    admissions := releaseOnTerminal w.admissions w.id n.db }

/-- One transaction, or one step of phase 1. -/
def flightStep (w : InFlight) : FlightEvent → Option InFlight
  | .register phaseDeadline =>
    if w.node.pc = .phase1 ∧ w.admitted = none then
      some { w with
        admissions := registerSessionAdmission w.admissions w.id w.node.db.now phaseDeadline
        admitted := some (w.node.db.now, phaseDeadline) }
    else none
  | .create =>
    if w.node.pc = .phase1 ∧ w.admitted.isSome ∧ w.node.db.session = none then
      some { w with node := { w.node with
        db := { w.node.db with session := some createdSession } } }
    else none
  | .transition dst =>
    if w.node.pc = .phase1 then do
      let s ← w.node.db.session
      let state ← Commit.transition s.state dst
      let db := { w.node.db with session := some { s with state := state } }
      some { w with
        node := { w.node with db := db, pc := pcAfter state }
        admissions := releaseOnTerminal w.admissions w.id db }
    else none
  | .rollback released =>
    if w.node.pc = .phase1 then
      some { w with
        node := { w.node with db := { w.node.db with session := none }, pc := .done }
        admissions :=
          if released then releaseSessionAdmission w.admissions w.id else w.admissions }
    else none
  | .node e =>
    match e with
    -- phase 1 is taken step by step
    | .reachCommitting .. | .finishEarly .. => none
    | e => w.transact e
  | .sweep txNow =>
    if txNow ≤ w.node.db.now then
      some { w with admissions := sweepExpiredAdmissions w.admissions txNow }
    else none
  | .others rows =>
    if rows.all (·.sessionId ≠ w.id) then
      some { w with admissions := rows ++ w.admissions.filter (·.sessionId = w.id) }
    else none

/-- The end of the session's admission record. -/
def InFlight.admittedUntil (w : InFlight) : Option Time :=
  w.admitted.map fun p => p.1 + (p.2 + admissionLeaseMarginSeconds)

/-- The lease calls of a session of one `LeaseService`: the time to live is `ttl` at most,
and a lease is acquired with the deadline the session was admitted with, early enough for
the margin to cover the lease that outlives it. -/
def WithinMargin (ttl : Time) (w : InFlight) : FlightEvent → Prop
  | .node (.acquireLease _ t deadline) => t ≤ ttl ∧
      ∃ p, w.admitted = some p ∧ deadline = p.2 ∧
        w.node.db.now + ttl ≤ p.1 + admissionLeaseMarginSeconds
  | .node (.heartbeat _ t) => t ≤ ttl
  | _ => True

/-! ## The invariant -/

/-- **The invariant.** The lease ends within `ttl` of the phase deadline, which the
admission record outlasts; the record is there until it runs out or the session ends, and
not after that. -/
structure FlightInv (ttl : Time) (w : InFlight) : Prop where
  begun : w.node.db.session.isSome = true → w.admitted.isSome = true
  lease : ∀ s, w.node.db.session = some s → ∀ o e, s.leaseOwner = some o →
    s.leaseExpiresAt = some e → ∃ p u, s.phaseDeadline = some p ∧
      w.admittedUntil = some u ∧ e ≤ p + ttl ∧ p + ttl ≤ u
  kept : (w.node.pc = .phase1 ∨ w.node.db.session.isSome = true) →
    (∀ s, w.node.db.session = some s → s.state.isTerminal = false) →
    ∀ u, w.admittedUntil = some u → w.node.db.now < u → ⟨w.id, u⟩ ∈ w.admissions
  gone : ∀ s, w.node.db.session = some s → s.state.isTerminal = true →
    ∀ a ∈ w.admissions, a.sessionId ≠ w.id

theorem FlightInv.initial {ttl : Time} {w : InFlight} (h : w.node.Initial)
    (hadm : w.admitted = none) : FlightInv ttl w where
  begun := by simp [h.session]
  lease := by simp [h.session]
  kept := by simp [InFlight.admittedUntil, hadm]
  gone := by simp [h.session]

/-- How far the driver has come, the boundary being the last that matters. -/
def DriverPc.order : DriverPc → Nat
  | .phase1 => 0
  | .phase2 => 1
  | _ => 2

theorem DriverPc.order_eq_zero {pc : DriverPc} (h : pc.order = 0) : pc = .phase1 := by
  cases pc <;> first | rfl | cases h

/-- The driver does not come back to where it was. -/
theorem nodeStep_order {n n' : Node} {e : NodeEvent} (h : nodeStep n e = some n') :
    n.pc.order ≤ n'.pc.order := by
  have hle : n.pc.order ≤ 2 := by
    cases n.pc <;> simp [DriverPc.order]
  cases e with
  | acquireLease owner ttl deadline =>
    obtain ⟨db', -, rfl⟩ := Option.map_eq_some_iff.mp h
    exact Nat.le_refl _
  | heartbeat owner ttl =>
    obtain ⟨db', -, rfl⟩ := Option.map_eq_some_iff.mp h
    exact Nat.le_refl _
  | reachCommitting =>
    simp only [nodeStep] at h
    split at h
    · rename_i hc
      cases h
      rw [hc.1]
      exact Nat.zero_le _
    · cases h
  | finishEarly | abortSession | driverReconcile =>
    simp only [nodeStep] at h
    split at h
    · cases h
      exact hle
    · cases h
  | prepare id answer =>
    simp only [nodeStep] at h
    split at h
    · cases hp : prepare n.db id with
      | none =>
        simp only [hp] at h
        cases h
        exact hle
      | some db' =>
        simp only [hp] at h
        cases h
        cases answer <;> exact hle
    · cases h
  | finalize memory answer =>
    simp only [nodeStep] at h
    split at h
    · rename_i id _
      cases hf : finalize n.plan n.owner memory n.db id with
      | none =>
        simp only [hf] at h
        cases h
        exact hle
      | some r =>
        simp only [hf] at h
        cases h
        show n.pc.order ≤ DriverPc.order (if _ then _ else _)
        split <;> exact hle
    · cases h
  | resolveFailedFinalize reason =>
    simp only [nodeStep] at h
    split at h
    · cases h
      exact hle
    · cases h
  | crash =>
    cases h
    exact hle
  | reconcile | wait | releaseLease | revise =>
    cases h
    exact Nat.le_refl _

theorem NodeMove.later {n n' : Node} {e : NodeEvent} (h : NodeMove n e n') :
    n.db.now ≤ n'.db.now := by
  cases h with
  | began _ hnow _ => exact Nat.le_of_eq hnow.symm
  | early _ hnow _ => exact Nat.le_of_eq hnow.symm
  | waited hnow _ =>
    rw [hnow]
    exact Nat.le_add_right _ _
  | acquired ha =>
    obtain ⟨s, -, -, -, -, hdb⟩ := acquireLease_some ha
    exact Nat.le_of_eq (congrArg CommitDb.now hdb).symm
  | renewed hr =>
    obtain ⟨s, -, -, -, hdb⟩ := heartbeatLease_some hr
    exact Nat.le_of_eq (congrArg CommitDb.now hdb).symm
  | @released _ owner hr =>
    rw [hr]
    cases hs : n.db.session with
    | none => simp [releaseLease, hs]
    | some s => exact Nat.le_of_eq (releaseLease_session owner hs).1.symm
  | rows _ hm => exact Nat.le_of_eq hm.now.symm

/-- After phase 1 no step makes a session row. -/
theorem NodeMove.absent {n n' : Node} {e : NodeEvent} (h : NodeMove n e n')
    (hb : ∀ staging ttl manifest, e ≠ .reachCommitting staging ttl manifest)
    (hf : ∀ state staging ttl reason, e ≠ .finishEarly state staging ttl reason)
    (hs : n.db.session = none) : n'.db.session = none := by
  cases h with
  | began => exact absurd rfl (hb _ _ _)
  | early => exact absurd rfl (hf _ _ _ _)
  | waited _ hkeep => exact hkeep.trans hs
  | acquired ha =>
    obtain ⟨s, hs', -⟩ := acquireLease_some ha
    rw [hs] at hs'
    cases hs'
  | renewed hr =>
    obtain ⟨s, hs', -⟩ := heartbeatLease_some hr
    rw [hs] at hs'
    cases hs'
  | released hr =>
    rw [hr]
    simp [releaseLease, hs]
  | rows _ hm => exact hm.absent hs

theorem mem_releaseOnTerminal {rows : List Admission} {id : SessionId} {db : CommitDb}
    {a : Admission} (ha : a ∈ rows)
    (hopen : ∀ s, db.session = some s → s.state.isTerminal = false) :
    a ∈ releaseOnTerminal rows id db := by
  unfold releaseOnTerminal
  cases hs : db.session with
  | none => simpa [hs] using ha
  | some s => simpa [hs, hopen s hs] using ha

theorem releaseOnTerminal_gone {rows : List Admission} {id : SessionId} {db : CommitDb}
    {s : Session} (hs : db.session = some s) (ht : s.state.isTerminal = true) :
    ∀ a ∈ releaseOnTerminal rows id db, a.sessionId ≠ id := by
  intro a ha
  simp only [releaseOnTerminal, hs, Option.any_some, ht, if_true, releaseSessionAdmission,
    List.mem_filter, decide_eq_true_eq] at ha
  exact ha.2

/-- The margin holds what the lease has left at the phase deadline. -/
theorem margin_covers {now t ttl created margin : Nat} (deadline : Nat) (ht : t ≤ ttl)
    (hmargin : now + ttl ≤ created + margin) :
    now + t ≤ now + deadline + ttl ∧
      now + deadline + ttl ≤ created + (deadline + margin) := by
  omega

/-- The lease bound over one transaction of the protocol. -/
theorem FlightInv.lease_step {ttl : Time} {w : InFlight} {n' : Node} {e : NodeEvent}
    (h : FlightInv ttl w) (hg : WithinMargin ttl w (.node e)) (hmove : NodeMove w.node e n')
    (hb : ∀ staging ttl manifest, e ≠ .reachCommitting staging ttl manifest)
    (hf : ∀ state staging ttl reason, e ≠ .finishEarly state staging ttl reason) :
    ∀ s, n'.db.session = some s → ∀ o t, s.leaseOwner = some o →
      s.leaseExpiresAt = some t → ∃ p u, s.phaseDeadline = some p ∧
        w.admittedUntil = some u ∧ t ≤ p + ttl ∧ p + ttl ≤ u := by
  intro s' hs' o t ho ht
  cases hmove with
  | began => exact absurd rfl (hb _ _ _)
  | early => exact absurd rfl (hf _ _ _ _)
  | waited _ hkeep => exact h.lease s' (hkeep.symm.trans hs') o t ho ht
  | acquired ha =>
    obtain ⟨s, hs, -, -, -, hdb⟩ := acquireLease_some ha
    rw [hdb] at hs'
    obtain rfl := Option.some.inj hs'
    obtain ⟨hle, p, hp, hd, hmargin⟩ := hg
    cases ht
    subst hd
    have hcover := margin_covers p.2 hle hmargin
    exact ⟨_, _, rfl, by simp [InFlight.admittedUntil, hp], hcover.1, hcover.2⟩
  | renewed hr =>
    obtain ⟨s, hs, hlive, hdead, hdb⟩ := heartbeatLease_some hr
    rw [hdb] at hs'
    obtain rfl := Option.some.inj hs'
    have hle : _ ≤ ttl := hg
    simp only [Session.leaseLiveFor, Bool.and_eq_true] at hlive
    obtain ⟨x, hx, -⟩ := (Option.any_eq_true _ _).mp hlive.2
    obtain ⟨p, u, hp, hu, -, hpu⟩ := h.lease s hs o x ho hx
    have hnow : w.node.db.now < p := by simpa [hp] using hdead
    cases ht
    exact ⟨p, u, hp, hu, Nat.add_le_add (Nat.le_of_lt hnow) hle, hpu⟩
  | @released _ owner hr =>
    cases hs : w.node.db.session with
    | none =>
      rw [hr] at hs'
      simp [releaseLease, hs] at hs'
    | some s =>
      have hrow := (releaseLease_session owner hs).2
      rw [← hr, hs'] at hrow
      split at hrow
      · obtain rfl := Option.some.inj hrow
        cases ho
      · obtain rfl := Option.some.inj hrow
        exact h.lease s' hs o t ho ht
  | rows _ hm =>
    cases hs : w.node.db.session with
    | none =>
      rw [hm.absent hs] at hs'
      cases hs'
    | some s =>
      obtain ⟨s₁, hs₁, hrow⟩ := hm.row s hs
      obtain rfl := Option.some.inj (hs₁.symm.trans hs')
      cases hrow with
      | kept _ hown hexp hdl =>
        rw [hown] at ho
        rw [hexp] at ht
        rw [hdl]
        exact h.lease s hs o t ho ht
      | ended _ _ hown =>
        rw [hown] at ho
        cases ho

/-- A transaction of the protocol, past phase 1's own. -/
theorem FlightInv.node {ttl : Time} {w : InFlight} {n' : Node} {e : NodeEvent}
    (h : FlightInv ttl w) (hg : WithinMargin ttl w (.node e)) (hstep : nodeStep w.node e = some n')
    (hb : ∀ staging ttl manifest, e ≠ .reachCommitting staging ttl manifest)
    (hf : ∀ state staging ttl reason, e ≠ .finishEarly state staging ttl reason) :
    FlightInv ttl { w with
      node := n'
      admissions := releaseOnTerminal w.admissions w.id n'.db } := by
  have hmove := (nodeStep_moves hstep).2.2
  have hsome : n'.db.session.isSome = true → w.node.db.session.isSome = true := by
    intro hs'
    cases hs : w.node.db.session with
    | none =>
      rw [hmove.absent hb hf hs] at hs'
      cases hs'
    | some s => rfl
  refine ⟨fun hs' => h.begun (hsome hs'), h.lease_step hg hmove hb hf, ?_, ?_⟩
  · intro hwhere hopen u hu hlt
    refine mem_releaseOnTerminal (h.kept ?_ ?_ u hu ?_) hopen
    · rcases hwhere with hpc | hs'
      · have hle := nodeStep_order hstep
        rw [hpc] at hle
        exact .inl (DriverPc.order_eq_zero (Nat.le_zero.mp hle))
      · exact .inr (hsome hs')
    · intro s hs
      obtain ⟨s', hs', hst⟩ := hmove.state hs
      have hopen' := hopen s' hs'
      rcases hst with heq | hcan
      · rwa [heq] at hopen'
      · cases ht : s.state.isTerminal with
        | false => rfl
        | true =>
          rw [not_canTransition_of_terminal ht] at hcan
          cases hcan
    · exact Nat.lt_of_le_of_lt hmove.later hlt
  · intro s hs ht
    exact releaseOnTerminal_gone hs ht

/-- **The step lemma**, one case for each event. -/
theorem FlightInv.step {ttl : Time} {w w' : InFlight} {e : FlightEvent}
    (h : FlightInv ttl w) (hg : WithinMargin ttl w e) (hstep : flightStep w e = some w') :
    FlightInv ttl w' := by
  cases e with
  | register phaseDeadline =>
    simp only [flightStep] at hstep
    split at hstep
    · rename_i hc
      have hnone : w.node.db.session = none := by
        cases hs : w.node.db.session with
        | none => rfl
        | some s =>
          have hb := h.begun (by simp [hs])
          simp [hc.2] at hb
      cases hstep
      refine ⟨by simp [hnone], by simp [hnone], ?_, by simp [hnone]⟩
      intro _ _ u hu _
      cases hu
      simp [registerSessionAdmission]
    · cases hstep
  | create =>
    simp only [flightStep] at hstep
    split at hstep
    · rename_i hc
      cases hstep
      refine ⟨fun _ => hc.2.1, ?_, ?_, ?_⟩
      · intro s hs o t ho
        cases hs
        cases ho
      · intro _ _ u hu hlt
        exact h.kept (.inl hc.1) (by simp [hc.2.2]) u hu hlt
      · intro s hs ht
        cases hs
        cases ht
    · cases hstep
  | transition dst =>
    simp only [flightStep] at hstep
    split at hstep
    · rename_i hpc
      simp only [Option.bind_eq_bind, Option.bind_eq_some_iff] at hstep
      obtain ⟨s, hs, state, hst, hstep⟩ := hstep
      obtain ⟨rfl, hcan⟩ := transition_some hst
      cases hstep
      refine ⟨fun _ => h.begun (by simp [hs]), ?_, ?_, ?_⟩
      · intro t ht o e ho he
        cases ht
        exact h.lease s hs o e ho he
      · intro _ hopen u hu hlt
        refine mem_releaseOnTerminal (h.kept (.inl hpc) ?_ u hu hlt) hopen
        intro t ht
        cases hs.symm.trans ht
        cases hterm : s.state.isTerminal with
        | false => rfl
        | true =>
          rw [not_canTransition_of_terminal hterm] at hcan
          cases hcan
      · intro t ht hterm
        exact releaseOnTerminal_gone ht hterm
    · cases hstep
  | rollback released =>
    simp only [flightStep] at hstep
    split at hstep
    · cases hstep
      exact ⟨by simp, by simp, by simp, by simp⟩
    · cases hstep
  | node e =>
    cases e with
    | reachCommitting | finishEarly => cases hstep
    | _ =>
      have hact : w.transact _ = some w' := hstep
      obtain ⟨n', hn, rfl⟩ := Option.map_eq_some_iff.mp hact
      exact h.node hg hn (by simp) (by simp)
  | sweep txNow =>
    simp only [flightStep] at hstep
    split at hstep
    · rename_i hle
      cases hstep
      refine ⟨h.begun, h.lease, ?_, ?_⟩
      · intro hwhere hopen u hu hlt
        have hmem := h.kept hwhere hopen u hu hlt
        have hlive : txNow < u := Nat.lt_of_le_of_lt hle hlt
        exact List.mem_filter.mpr ⟨hmem, by simpa using hlive⟩
      · intro s hs ht a ha
        exact h.gone s hs ht a (List.mem_filter.mp ha).1
    · cases hstep
  | others rows =>
    simp only [flightStep] at hstep
    split at hstep
    · rename_i hne
      cases hstep
      refine ⟨h.begun, h.lease, ?_, ?_⟩
      · intro hwhere hopen u hu hlt
        have hmem := h.kept hwhere hopen u hu hlt
        exact List.mem_append_right _ (List.mem_filter.mpr ⟨hmem, by simp⟩)
      · intro s hs ht a ha
        rcases List.mem_append.mp ha with ha | ha
        · simpa using List.all_eq_true.mp hne a ha
        · exact h.gone s hs ht a (List.mem_filter.mp ha).1
    · cases hstep

/-- The run lemma. -/
theorem FlightInv.run {ttl : Time} {w₀ w : InFlight} (h₀ : w₀.node.Initial)
    (hadm : w₀.admitted = none) (h : Run flightStep (WithinMargin ttl) w₀ w) : FlightInv ttl w := by
  exact h.invariant (.initial h₀ hadm) fun hi hg hs => hi.step hg hs

/-- **A session that can still commit is counted.** In every order of phase 1, the commit
boundary, the reconciler, the lease calls, the sweeps and the other sessions: while the
lease of an open session is alive, the activation's count of admissions is not zero,
whenever its transaction began; the lease is never alive `ttl` past the phase deadline; and
an ended session has left no record behind. -/
theorem admission_covers_session {ttl : Time} {w₀ w : InFlight} (h₀ : w₀.node.Initial)
    (hadm : w₀.admitted = none) (h : Run flightStep (WithinMargin ttl) w₀ w) {s : Session}
    (hs : w.node.db.session = some s) :
    (s.state.isTerminal = false → s.leaseLive w.node.db.now = true →
      ∀ txNow ≤ w.node.db.now, 0 < countLiveAdmissions w.admissions txNow) ∧
    (s.leaseLive w.node.db.now = true →
      ∃ p, s.phaseDeadline = some p ∧ w.node.db.now < p + ttl) ∧
    (s.state.isTerminal = true → ∀ a ∈ w.admissions, a.sessionId ≠ w.id) := by
  have hinv := FlightInv.run h₀ hadm h
  have hlease : s.leaseLive w.node.db.now = true → ∃ p u, s.phaseDeadline = some p ∧
      w.admittedUntil = some u ∧ w.node.db.now < p + ttl ∧ p + ttl ≤ u := by
    intro hlive
    simp only [Session.leaseLive, Bool.and_eq_true] at hlive
    obtain ⟨o, ho⟩ := Option.isSome_iff_exists.mp hlive.1
    obtain ⟨e, he, hlt⟩ := (Option.any_eq_true _ _).mp hlive.2
    obtain ⟨p, u, hp, hu, hle, hpu⟩ := hinv.lease s hs o e ho he
    have hlt' : w.node.db.now < e := by simpa using hlt
    exact ⟨p, u, hp, hu, Nat.lt_of_lt_of_le hlt' hle, hpu⟩
  refine ⟨?_, ?_, hinv.gone s hs⟩
  · intro hopen hlive txNow hle
    obtain ⟨p, u, -, hu, hlt, hpu⟩ := hlease hlive
    have hmem := hinv.kept (.inr (by simp [hs]))
      (fun t ht => by cases hs.symm.trans ht; exact hopen) u hu (Nat.lt_of_lt_of_le hlt hpu)
    have hlater : txNow < u := Nat.lt_of_le_of_lt hle (Nat.lt_of_lt_of_le hlt hpu)
    exact List.length_pos_of_mem (List.mem_filter.mpr ⟨hmem, by simpa using hlater⟩)
  · intro hlive
    obtain ⟨p, u, hp, -, hlt, -⟩ := hlease hlive
    exact ⟨p, hp, hlt⟩

/-- `freshNode`'s session is admitted and takes its lease in the same moment. -/
theorem admission_covers_session_acquired :
    ∃ w s, exec flightStep ⟨7, freshNode, [], none⟩
        [.register 600, .create, .node (.acquireLease "node-a" 30 600)] = some w ∧
      w.node.db.session = some s ∧ s.leaseLive w.node.db.now = true ∧
      0 < countLiveAdmissions w.admissions w.node.db.now := by
  refine ⟨_, _, rfl, rfl, by decide, ?_⟩
  have hrun : Run flightStep (WithinMargin 30) ⟨7, freshNode, [], none⟩ _ :=
    .snoc (e := .node (.acquireLease "node-a" 30 600)) (.snoc (e := .create)
      (.snoc (e := .register 600) .nil trivial rfl) trivial rfl)
      ⟨by decide, _, rfl, rfl, by decide⟩ rfl
  have hcover := admission_covers_session ⟨rfl, rfl, rfl, rfl⟩ rfl hrun rfl
  exact hcover.1 rfl (by decide) _ (Nat.le_refl _)

end Noezema.Commit
