import Noezema.Lib.Grants
import Noezema.Commit.Admission

/-! # The knowledge writer gate and the session's writer intent

The gate is the one row of `knowledge_write_gate`, taken by a single conditional update.
Its clock is `now()`, the start of the transaction, so a party may go by an older time than
the one the row lives under; the gate is a lock all the same. A session never takes the
gate: it declares an intent in its own row, and the worker yields to it.
-/

namespace Noezema.Memory

open Noezema.Lib Noezema.Commit

/-! ## The gate -/

/-- `owner_kind` and `owner_id`. -/
structure GateOwner where
  kind : String
  id : String
deriving DecidableEq, Repr

/-- `GateHolder`. -/
structure GateHolder where
  owner : GateOwner
  priority : Nat
  acquiredAt : Nat
  leaseExpiresAt : Nat
deriving DecidableEq, Repr

/-- The row of `knowledge_write_gate`: its columns are null together. -/
abbrev GateRow := Option GateHolder

/-- `acquire_writer_gate`, in a transaction that began at `now`; `none` is a live foreign
holder. -/
def acquireWriterGate (row : GateRow) (me : GateOwner) (priority leaseSeconds now : Nat) :
    Option GateRow :=
  if row.all fun h => decide (h.leaseExpiresAt < now) || decide (h.owner = me) then
    some (some ⟨me, priority, now, now + leaseSeconds⟩)
  else none

/-- `release_writer_gate`. -/
def releaseWriterGate (row : GateRow) (me : GateOwner) : GateRow :=
  if row.any fun h => decide (h.owner = me) then none else row

/-- `writer_gate_holder`. -/
def writerGateHolder (row : GateRow) (now : Nat) : Option GateHolder :=
  row.filter fun h => decide (now < h.leaseExpiresAt)

def GateRow.grant (row : GateRow) : Option (Grant GateOwner) :=
  row.map fun h => ⟨h.owner, h.leaseExpiresAt⟩

/-- The gate, the clock, and the end each party was last granted. -/
structure GateWorld where
  row : GateRow
  clock : Nat
  granted : Granted GateOwner

inductive GateEvent where
  /-- A transaction that began at `now` tries to take the gate. -/
  | acquire (me : GateOwner) (priority leaseSeconds now : Nat)
  | release (me : GateOwner)
  | wait (delay : Nat)

/-- One statement on the gate. A refused acquisition changes nothing. -/
def gateStep (w : GateWorld) : GateEvent → Option GateWorld
  | .acquire me priority leaseSeconds now =>
    if now ≤ w.clock then
      match acquireWriterGate w.row me priority leaseSeconds now with
      | some row => some { w with
          row := row
          granted := w.granted.set me (some (now + leaseSeconds)) }
      | none => some w
    else none
  | .release me => some { w with
      row := releaseWriterGate w.row me
      granted := w.granted.set me none }
  | .wait delay => some { w with clock := w.clock + delay }

theorem acquireWriterGate_some {row row' : GateRow} {me : GateOwner}
    {priority leaseSeconds now : Nat}
    (h : acquireWriterGate row me priority leaseSeconds now = some row') :
    Takeable row.grant me now ∧ row'.grant = some ⟨me, now + leaseSeconds⟩ := by
  unfold acquireWriterGate at h
  split at h
  · rename_i hfree
    cases h
    refine ⟨fun g hg => ?_, rfl⟩
    obtain ⟨holder, rfl, rfl⟩ := Option.map_eq_some_iff.mp hg
    simpa using hfree
  · cases h

/-- Another party's grant is not released. -/
theorem releaseWriterGate_grant {row : GateRow} {me : GateOwner} {g : Grant GateOwner}
    (hg : row.grant = some g) (hne : g.owner ≠ me) : releaseWriterGate row me = row := by
  obtain ⟨holder, rfl, rfl⟩ := Option.map_eq_some_iff.mp hg
  have hne' : holder.owner ≠ me := hne
  simp [releaseWriterGate, hne']

/-- The gate is a lock that never closes. -/
def GateInv (w : GateWorld) : Prop := Exclusive w.clock False w.row.grant w.granted

theorem GateInv.step {w w' : GateWorld} {e : GateEvent} (h : GateInv w)
    (hstep : gateStep w e = some w') : GateInv w' := by
  cases e with
  | acquire me priority leaseSeconds now =>
    simp only [gateStep] at hstep
    split at hstep
    · rename_i hnow
      cases hacq : acquireWriterGate w.row me priority leaseSeconds now with
      | none =>
        simp only [hacq] at hstep
        cases hstep
        exact h
      | some row =>
        simp only [hacq] at hstep
        cases hstep
        obtain ⟨hfree, hgrant⟩ := acquireWriterGate_some hacq
        have htake := Exclusive.take h not_false hnow hfree (now + leaseSeconds)
        simpa only [GateInv, hgrant] using htake
    · cases hstep
  | release me =>
    cases hstep
    refine Exclusive.release h me fun g hg hne => ?_
    exact congrArg GateRow.grant (releaseWriterGate_grant hg hne)
  | wait delay =>
    cases hstep
    exact Exclusive.wait h (Nat.le_add_right _ _)

/-- **The writer gate is a lock**, in every order of acquisitions by transactions however
old, releases and waits: no two parties go by a grant that has not run out, the row names
the one that does, and whoever reads the row meanwhile reads that party. -/
theorem writer_gate_exclusive {row : GateRow} {clock : Nat} {w : GateWorld}
    (h : Run gateStep anyStep ⟨row, clock, fun _ => none⟩ w) :
    (∀ a b, w.granted.Live w.clock a → w.granted.Live w.clock b → a = b) ∧
    ∀ a t, w.granted a = some t → w.clock ≤ t →
      ∃ holder, w.row = some holder ∧ holder.owner = a ∧ holder.leaseExpiresAt = t ∧
        ∀ now < t, writerGateHolder w.row now = some holder := by
  have hinv : GateInv w := h.invariant (.start _ _ _) fun ha _ hs => ha.step hs
  refine ⟨hinv.single, ?_⟩
  intro a t ht hle
  obtain ⟨holder, hrow, hholder⟩ := Option.map_eq_some_iff.mp (hinv.backed not_false a t ht hle)
  injection hholder with ho he
  refine ⟨holder, hrow, ho, he, fun now hlt => ?_⟩
  simp [writerGateHolder, hrow, Option.filter, he, hlt]

/-- The worker's batch outlives its gate lease, and the activation takes the gate over. -/
theorem writer_gate_exclusive_takeover :
    ∃ w, exec gateStep ⟨none, 0, fun _ => none⟩
        [.acquire ⟨"worker", "w"⟩ 0 60 0, .wait 61, .acquire ⟨"activation", "a"⟩ 2 60 61] =
          some w ∧
      w.granted.Live w.clock ⟨"activation", "a"⟩ ∧
      ∀ a b, w.granted.Live w.clock a → w.granted.Live w.clock b → a = b := by
  have hrun : ∃ w, exec gateStep ⟨none, 0, fun _ => none⟩
      [.acquire ⟨"worker", "w"⟩ 0 60 0, .wait 61, .acquire ⟨"activation", "a"⟩ 2 60 61] =
        some w ∧ w.granted.Live w.clock ⟨"activation", "a"⟩ :=
    ⟨_, rfl, _, rfl, by decide⟩
  obtain ⟨w, hw, hlive⟩ := hrun
  exact ⟨w, hw, hlive, (writer_gate_exclusive (Run.of_exec _ hw)).1⟩

/-! ## The writer intent -/

/-- `register_session_intent`; `none` is a refusal. -/
def registerSessionIntent (s : Session) (now : Time) : Option Session :=
  if s.state = .committing ∧ s.leaseLive now ∧ s.commitIntentAt = none then
    some { s with commitIntentAt := some now }
  else none

/-- What one session adds to `active_session_intent`. -/
def sessionIntentActive (s : Session) (now : Time) : Bool :=
  decide (s.state = .committing) && s.commitIntentAt.isSome && s.leaseLive now

/-- A step of a session in flight, or the call of `register_session_intent` that
`run_session` makes when it enters `consolidating`. -/
inductive IntentEvent where
  | flight (e : FlightEvent)
  | registerIntent

def intentStep (w : InFlight) : IntentEvent → Option InFlight
  | .flight e => flightStep w e
  | .registerIntent =>
    match w.node.db.session with
    | none => none
    | some s =>
      if w.node.pc = .phase1 ∧ s.state = .consolidating then
        match registerSessionIntent s w.node.db.now with
        | some s' => some { w with node := { w.node with
            db := { w.node.db with session := some s' } } }
        | none => some w
      else none

/-- No intent has been declared. -/
def NoIntent (db : CommitDb) : Prop :=
  ∀ s, db.session = some s → s.commitIntentAt = none

theorem NoIntent.of_eq {db db' : CommitDb} (h : NoIntent db)
    (hs : db'.session = db.session) : NoIntent db' :=
  fun s hs' => h s (hs.symm.trans hs')

theorem NoIntent.markFailed {db : CommitDb} (h : NoIntent db) (reason : String) :
    NoIntent (markFailed db reason) := by
  cases hs : db.session with
  | none => exact h.of_eq (by simp [Commit.markFailed, hs])
  | some s =>
    cases ht : s.state.isTerminal with
    | true => exact h.of_eq (by simp [Commit.markFailed, hs, ht])
    | false =>
      rw [markFailed_session hs ht]
      intro s' hs'
      cases hs'
      rfl

theorem NoIntent.reconcileTx {db : CommitDb} (h : NoIntent db) (locks : Locks) :
    NoIntent (reconcileTx locks db) := by
  rcases reconcileTx_cases locks db with hr | ⟨s, -, -, ⟨-, hr⟩ | ⟨a, -, -, -, ⟨-, hr⟩ | ⟨-, hr⟩⟩⟩
  · rwa [hr]
  · rw [hr]
    exact h.markFailed _
  · rw [hr]
    refine NoIntent.markFailed ?_ _
    exact h.of_eq rfl
  · rw [hr]
    exact h.markFailed _

/-- Before the attempt is prepared, no transaction declares an intent. -/
theorem nodeStep_noIntent {n n' : Node} {e : NodeEvent} (h : NoIntent n.db)
    (hstep : nodeStep n e = some n') (hpc : n'.pc = .phase1 ∨ n'.pc = .phase2) :
    NoIntent n'.db := by
  cases e with
  | reachCommitting staging ttl manifest =>
    simp only [nodeStep] at hstep
    split at hstep
    · cases hstep
      intro s hs
      cases hs
      rfl
    · cases hstep
  | acquireLease owner ttl deadline =>
    obtain ⟨db', hdb, rfl⟩ := Option.map_eq_some_iff.mp hstep
    obtain ⟨s, hs, -, -, -, rfl⟩ := acquireLease_some hdb
    intro t ht
    cases ht
    exact h s hs
  | heartbeat owner ttl =>
    obtain ⟨db', hdb, rfl⟩ := Option.map_eq_some_iff.mp hstep
    obtain ⟨s, hs, -, -, rfl⟩ := heartbeatLease_some hdb
    intro t ht
    cases ht
    exact h s hs
  | releaseLease owner =>
    cases hstep
    cases hs : n.db.session with
    | none => exact h.of_eq (by simp [Commit.releaseLease, hs])
    | some s =>
      have hrow := (releaseLease_session owner hs).2
      intro t ht
      rw [show (Commit.releaseLease n.db owner).session = some t from ht] at hrow
      split at hrow
      · cases hrow
        exact h s hs
      · cases hrow
        exact h s hs
  | reconcile locks =>
    cases hstep
    exact h.reconcileTx locks
  | wait delay =>
    cases hstep
    exact h.of_eq rfl
  | revise knowledge graph =>
    cases hstep
    exact h.of_eq rfl
  | prepare id answer =>
    -- every way out of `prepare` leaves phase 2
    simp only [nodeStep] at hstep
    split at hstep
    · cases hp : Commit.prepare n.db id with
      | none =>
        simp only [hp] at hstep
        cases hstep
        simp at hpc
      | some db' =>
        simp only [hp] at hstep
        cases hstep
        cases answer <;> simp at hpc
    · cases hstep
  | finalize memory answer =>
    simp only [nodeStep] at hstep
    split at hstep
    · rename_i id _
      cases hf : Commit.finalize n.plan n.owner memory n.db id with
      | none =>
        simp only [hf] at hstep
        cases hstep
        simp at hpc
      | some r =>
        simp only [hf] at hstep
        cases hstep
        simp only at hpc
        split at hpc <;> simp at hpc
    · cases hstep
  | finishEarly | abortSession | driverReconcile =>
    simp only [nodeStep] at hstep
    split at hstep
    · cases hstep
      simp at hpc
    · cases hstep
  | resolveFailedFinalize reason =>
    simp only [nodeStep] at hstep
    split at hstep
    · cases hstep
      simp at hpc
    · cases hstep
  | crash =>
    cases hstep
    simp at hpc

/-- The driver is before `prepare`. -/
def BeforePrepare (w : InFlight) : Prop := w.node.pc = .phase1 ∨ w.node.pc = .phase2

theorem beforePrepare_iff (w : InFlight) : BeforePrepare w ↔ w.node.pc.order ≤ 1 := by
  unfold BeforePrepare
  cases w.node.pc <;> simp [DriverPc.order]

/-- **The step lemma**: before `prepare` no step declares an intent, the driver's own call
least of all, for it comes before the session is committing. -/
theorem intentStep_noIntent {w w' : InFlight} {e : IntentEvent}
    (h : BeforePrepare w → NoIntent w.node.db) (hstep : intentStep w e = some w')
    (hpc : BeforePrepare w') : NoIntent w'.node.db := by
  cases e with
  | registerIntent =>
    simp only [intentStep] at hstep
    split at hstep
    · cases hstep
    · rename_i s hs
      split at hstep
      · rename_i hc
        have hrefused : registerSessionIntent s w.node.db.now = none := by
          simp [registerSessionIntent, hc.2]
        rw [hrefused] at hstep
        cases hstep
        exact h (.inl hc.1)
      · cases hstep
  | flight e =>
    have hflight : flightStep w e = some w' := hstep
    cases e with
    | register phaseDeadline =>
      simp only [flightStep] at hflight
      split at hflight
      · cases hflight
        exact h hpc
      · cases hflight
    | create =>
      simp only [flightStep] at hflight
      split at hflight
      · cases hflight
        intro s hs
        cases hs
        rfl
      · cases hflight
    | transition dst =>
      simp only [flightStep] at hflight
      split at hflight
      · rename_i hphase
        simp only [Option.bind_eq_bind, Option.bind_eq_some_iff] at hflight
        obtain ⟨s, hs, state, -, hw⟩ := hflight
        cases hw
        intro t ht
        cases ht
        exact h (.inl hphase) s hs
      · cases hflight
    | rollback released =>
      simp only [flightStep] at hflight
      split at hflight
      · cases hflight
        intro s hs
        cases hs
      · cases hflight
    | node e =>
      have hnode : ∃ n', nodeStep w.node e = some n' ∧ w'.node = n' := by
        cases e with
        | reachCommitting | finishEarly => cases hflight
        | _ =>
          have hact : w.transact _ = some w' := hflight
          obtain ⟨n', hn, rfl⟩ := Option.map_eq_some_iff.mp hact
          exact ⟨n', hn, rfl⟩
      obtain ⟨n', hn, hw⟩ := hnode
      have horder := nodeStep_order hn
      rw [beforePrepare_iff, hw] at hpc
      rw [hw]
      refine nodeStep_noIntent (h ((beforePrepare_iff w).mpr (Nat.le_trans horder hpc))) hn ?_
      cases hn' : n'.pc <;> simp [hn', DriverPc.order] at hpc ⊢
    | sweep txNow =>
      simp only [flightStep] at hflight
      split at hflight
      · cases hflight
        exact h hpc
      · cases hflight
    | others rows =>
      simp only [flightStep] at hflight
      split at hflight
      · cases hflight
        exact h hpc
      · cases hflight

/-- **The early intent is never declared.** Whatever else happens to a session, the call
`run_session` makes before its heavy validation is refused, and until the attempt is
prepared the session gives the worker nothing to yield to. -/
theorem no_intent_before_prepare {w₀ w : InFlight} (h₀ : w₀.node.db.session = none)
    (h : Run intentStep anyStep w₀ w) (hpc : BeforePrepare w) {s : Session}
    (hs : w.node.db.session = some s) :
    s.commitIntentAt = none ∧ ∀ now, sessionIntentActive s now = false := by
  have hinv : BeforePrepare w → NoIntent w.node.db := by
    refine h.invariant (I := fun w => BeforePrepare w → NoIntent w.node.db) ?_ ?_
    · intro _ s hs
      rw [h₀] at hs
      cases hs
    · intro a b e ha _ hstep
      exact intentStep_noIntent ha hstep
  have hnone := hinv hpc s hs
  exact ⟨hnone, fun now => by simp [sessionIntentActive, hnone]⟩

/-- The session of `freshNode` comes to `consolidating` under a live lease and calls. -/
theorem no_intent_before_prepare_consolidating :
    ∃ w s, exec intentStep ⟨7, freshNode, [], none⟩
        ([.register 600, .create, .node (.acquireLease "node-a" 30 600), .transition .waking,
          .transition .stopping, .transition .consolidating].map .flight ++
          [.registerIntent]) = some w ∧
      w.node.db.session = some s ∧ s.state = .consolidating ∧
      s.leaseLive w.node.db.now = true ∧ s.commitIntentAt = none := by
  have hrun : ∃ w s, exec intentStep ⟨7, freshNode, [], none⟩
      ([.register 600, .create, .node (.acquireLease "node-a" 30 600), .transition .waking,
        .transition .stopping, .transition .consolidating].map .flight ++
        [.registerIntent]) = some w ∧ w.node.pc = .phase1 ∧
      w.node.db.session = some s ∧ s.state = .consolidating ∧
      s.leaseLive w.node.db.now = true := ⟨_, _, rfl, rfl, rfl, rfl, by decide⟩
  obtain ⟨w, s, hw, hpc, hs, hstate, hlive⟩ := hrun
  have hnone := no_intent_before_prepare rfl (Run.of_exec _ hw) (.inl hpc) hs
  exact ⟨w, s, hw, hs, hstate, hlive, hnone.1⟩

end Noezema.Memory
