import Noezema.Lib.Grants
import Noezema.Commit.StateMachine

/-! # The session lease

The lease is two columns of the session row, moved by conditional updates of any number of
owners and cleared by whatever ends the session. Each owner only knows what its own last
call said. `LeaseNode` runs the commit protocol beside what the owners were told, and the
row is shown to be a lock: no two owners go by a grant that has not run out.
-/

namespace Noezema.Commit

open Noezema.Lib

/-- A node, and the end each owner's last successful `acquire` or `heartbeat` gave it. -/
structure LeaseNode where
  node : Node
  granted : Granted Owner

/-- The owners after one of them was told something. -/
def tell (granted : Granted Owner) : Option (Owner × Option Time) → Granted Owner
  | none => granted
  | some (owner, t) => granted.set owner t

/-- One transaction, and what its party learns of the lease. -/
def leaseStep (w : LeaseNode) (e : NodeEvent) : Option LeaseNode :=
  (nodeStep w.node e).map fun n => ⟨n, tell w.granted (e.told w.node)⟩

/-- The lease the row names. -/
def Session.lease (s : Session) : Option (Grant Owner) :=
  s.leaseOwner.bind fun owner => s.leaseExpiresAt.map fun t => ⟨owner, t⟩

def CommitDb.lease (db : CommitDb) : Option (Grant Owner) :=
  db.session.bind Session.lease

/-- There is no session, or it has ended and its lease with it: nobody takes it again. -/
def CommitDb.Closed (db : CommitDb) : Prop :=
  ∀ s, db.session = some s → s.state.isTerminal = true ∧ s.leaseOwner = none

theorem Session.lease_eq_some {s : Session} {g : Grant Owner} (h : s.lease = some g) :
    s.leaseOwner = some g.owner ∧ s.leaseExpiresAt = some g.expiresAt := by
  obtain ⟨owner, ho, hrest⟩ := Option.bind_eq_some_iff.mp h
  obtain ⟨t, ht, rfl⟩ := Option.map_eq_some_iff.mp hrest
  exact ⟨ho, ht⟩

theorem CommitDb.lease_session {db : CommitDb} {s : Session} (hs : db.session = some s) :
    db.lease = s.lease := by
  simp [CommitDb.lease, hs]

theorem CommitDb.not_closed_of_open {db : CommitDb} {s : Session}
    (hs : db.session = some s) (ht : s.state.isTerminal = false) : ¬ db.Closed := by
  intro h
  rw [(h s hs).1] at ht
  cases ht

theorem CommitDb.not_closed_of_lease {db : CommitDb} {s : Session} {g : Grant Owner}
    (hs : db.session = some s) (hg : s.lease = some g) : ¬ db.Closed := by
  intro h
  have ho := (Session.lease_eq_some hg).1
  rw [(h s hs).2] at ho
  cases ho

/-- A lease `acquire` takes is free, over or the owner's own. -/
theorem takeable_of_acquire {db : CommitDb} {s : Session} {owner : Owner}
    (hs : db.session = some s)
    (h : s.leaseOwner = none ∨ s.leaseExpiresAt.any (· < db.now) = true ∨
      s.leaseOwner = some owner) : Takeable db.lease owner db.now := by
  intro g hg
  rw [CommitDb.lease_session hs] at hg
  obtain ⟨ho, ht⟩ := Session.lease_eq_some hg
  rcases h with h | h | h
  · rw [h] at ho
    cases ho
  · rw [ht] at h
    exact .inl (by simpa using h)
  · rw [h] at ho
    exact .inr (Option.some.inj ho).symm

theorem leaseLiveFor_lease {s : Session} {owner : Owner} {now : Time}
    (h : s.leaseLiveFor owner now = true) :
    ∃ t, s.lease = some ⟨owner, t⟩ ∧ now < t := by
  simp only [Session.leaseLiveFor, Bool.and_eq_true, decide_eq_true_eq] at h
  obtain ⟨ho, he⟩ := h
  obtain ⟨t, ht, hlt⟩ := (Option.any_eq_true _ _).mp he
  exact ⟨t, by simp [Session.lease, ho, ht], by simpa using hlt⟩

/-! ## The invariant -/

/-- **The invariant.** The lease is a lock that is closed once the session and the lease
have ended, and nobody holds a lease of a session that has not begun. -/
structure LeaseInv (w : LeaseNode) : Prop where
  exclusive : Exclusive w.node.db.now w.node.db.Closed w.node.db.lease w.granted
  unborn : w.node.db.session = none → ∀ k, w.granted k = none

theorem LeaseInv.initial (n : Node) : LeaseInv ⟨n, fun _ => none⟩ where
  exclusive := .start _ _ _
  unborn := fun _ _ => rfl

/-- A closed row keeps what the owners were told apart. -/
theorem LeaseInv.closed {w : LeaseNode} {n' : Node} (h : LeaseInv w)
    (hnow : n'.db.now = w.node.db.now) (hclosed : n'.db.Closed)
    (hsome : n'.db.session = none → w.node.db.session = none) :
    LeaseInv ⟨n', w.granted⟩ where
  exclusive :=
    { backed := fun hopen => absurd hclosed hopen
      single := by simpa only [hnow] using h.exclusive.single }
  unborn := fun hn => h.unborn (hsome hn)

/-- A row moved by a transaction that is not the lease's. -/
theorem LeaseInv.rows {w : LeaseNode} {n' : Node} (h : LeaseInv w)
    (hm : MovesSession w.node.db n'.db) : LeaseInv ⟨n', w.granted⟩ := by
  cases hs : w.node.db.session with
  | none =>
    refine h.closed hm.now (fun s hss => ?_) fun _ => hs
    rw [hm.absent hs] at hss
    cases hss
  | some s =>
    obtain ⟨s', hs', hmove⟩ := hm.row s hs
    have hsome : n'.db.session = none → w.node.db.session = none := by
      intro hn
      rw [hs'] at hn
      cases hn
    cases hmove with
    | kept hst ho he _ =>
      have hlease : n'.db.lease = w.node.db.lease := by
        simp [CommitDb.lease, hs, hs', Session.lease, ho, he]
      have hclosed : n'.db.Closed ↔ w.node.db.Closed := by
        simp [CommitDb.Closed, hs, hs', hst, ho]
      refine ⟨?_, fun hn => h.unborn (hsome hn)⟩
      have hexcl := h.exclusive
      exact ⟨by simpa only [hm.now, hlease, hclosed] using hexcl.backed,
        by simpa only [hm.now] using hexcl.single⟩
    | ended _ hterm ho =>
      refine h.closed hm.now (fun t ht => ?_) hsome
      cases hs'.symm.trans ht
      exact ⟨hterm, ho⟩

/-- A lease taken or extended by a statement that found it open and takeable. -/
theorem LeaseInv.taken {w : LeaseNode} {n' : Node} {s' : Session} {owner : Owner}
    {t : Time} (h : LeaseInv w) (hopen : ¬ w.node.db.Closed)
    (hfree : Takeable w.node.db.lease owner w.node.db.now)
    (hnow : n'.db.now = w.node.db.now) (hs' : n'.db.session = some s')
    (hlease : s'.lease = some ⟨owner, t⟩) :
    LeaseInv ⟨n', w.granted.set owner (some t)⟩ := by
  have htake := h.exclusive.take hopen (Nat.le_refl _) hfree t
  refine ⟨⟨fun _ => ?_, ?_⟩, fun hn => ?_⟩
  · simpa only [hnow, CommitDb.lease_session hs', hlease] using htake.backed hopen
  · simpa only [hnow] using htake.single
  · exact absurd (hs'.symm.trans hn) (by simp)

/-- The first lease of a session: nobody has been told of one. -/
theorem LeaseInv.born {w : LeaseNode} {n' : Node} {s' : Session} {owner : Owner}
    {t : Time} (h : LeaseInv w) (hs : w.node.db.session = none)
    (hnow : n'.db.now = w.node.db.now) (hs' : n'.db.session = some s')
    (hlease : s'.lease = some ⟨owner, t⟩) :
    LeaseInv ⟨n', w.granted.set owner (some t)⟩ := by
  have hnone : w.granted = fun _ => none := funext (h.unborn hs)
  have hstart := Exclusive.start w.node.db.now False (none : Option (Grant Owner))
  have hfree : Takeable (none : Option (Grant Owner)) owner w.node.db.now := by
    intro g hg
    cases hg
  have htake := hstart.take not_false (Nat.le_refl _) hfree t
  refine ⟨⟨fun _ => ?_, ?_⟩, fun hn => ?_⟩
  · simpa only [hnow, CommitDb.lease_session hs', hlease, hnone] using
      htake.backed not_false
  · simpa only [hnow, hnone] using htake.single
  · exact absurd (hs'.symm.trans hn) (by simp)

theorem LeaseInv.released {w : LeaseNode} {n' : Node} {owner : Owner} (h : LeaseInv w)
    (hr : n'.db = releaseLease w.node.db owner) :
    LeaseInv ⟨n', w.granted.set owner none⟩ := by
  cases hs : w.node.db.session with
  | none =>
    have hdb : n'.db = w.node.db := by
      rw [hr]
      simp [releaseLease, hs]
    have hg : w.granted.set owner none = w.granted := by
      funext k
      by_cases hk : k = owner
      · rw [hk, Granted.set_self, h.unborn hs]
      · exact Granted.set_of_ne _ none hk
    rw [hg]
    exact ⟨by simpa only [hdb] using h.exclusive, fun _ => h.unborn hs⟩
  | some s =>
    obtain ⟨hnow, hrow⟩ := releaseLease_session owner hs
    rw [← hr] at hnow hrow
    have hunborn : n'.db.session = none → ∀ k, w.granted.set owner none k = none := by
      intro hn
      rw [hrow] at hn
      split at hn <;> cases hn
    by_cases ho : s.leaseOwner = some owner
    · -- the holder gives the lease up
      rw [if_pos ho] at hrow
      have hopen : ¬ w.node.db.Closed := by
        intro hc
        rw [(hc s hs).2] at ho
        cases ho
      have hcell : ∀ g, w.node.db.lease = some g → g.owner ≠ owner →
          n'.db.lease = w.node.db.lease := by
        intro g hg hne
        rw [CommitDb.lease_session hs] at hg
        rw [(Session.lease_eq_some hg).1] at ho
        exact absurd (Option.some.inj ho) hne
      have hrel := h.exclusive.release owner hcell
      exact ⟨⟨fun _ => by simpa only [hnow] using hrel.backed hopen,
        by simpa only [hnow] using hrel.single⟩, hunborn⟩
    · -- the row is another's
      rw [if_neg ho] at hrow
      have hrel := h.exclusive.refused owner
      have hrow' : n'.db.session = w.node.db.session := hrow.trans hs.symm
      refine ⟨?_, hunborn⟩
      simpa only [CommitDb.lease, CommitDb.Closed, hnow, hrow'] using hrel

/-- **The step lemma**: one case for each way the row moves. -/
theorem LeaseInv.step {w w' : LeaseNode} {e : NodeEvent} (h : LeaseInv w)
    (hstep : leaseStep w e = some w') : LeaseInv w' := by
  obtain ⟨n', hn, rfl⟩ := Option.map_eq_some_iff.mp hstep
  have hmove := (nodeStep_moves hn).2.2
  cases hmove with
  | began hs hnow hs' => exact h.born hs hnow hs' rfl
  | early hs hnow hs' => exact h.born hs hnow hs' rfl
  | waited hnow hkeep =>
    have hle : w.node.db.now ≤ n'.db.now := by
      rw [hnow]
      exact Nat.le_add_right _ _
    have hwait := h.exclusive.wait hle
    refine ⟨?_, fun hn' => h.unborn (hkeep.symm.trans hn')⟩
    show Exclusive n'.db.now n'.db.Closed n'.db.lease w.granted
    simpa only [CommitDb.lease, CommitDb.Closed, hkeep] using hwait
  | acquired ha =>
    obtain ⟨s, hs, hopen, -, hfree, hdb⟩ := acquireLease_some ha
    have hnow : n'.db.now = w.node.db.now := by rw [hdb]
    exact h.taken (CommitDb.not_closed_of_open hs hopen) (takeable_of_acquire hs hfree)
      hnow (congrArg CommitDb.session hdb) rfl
  | renewed hr =>
    obtain ⟨s, hs, hlive, -, hdb⟩ := heartbeatLease_some hr
    obtain ⟨t, hlease, -⟩ := leaseLiveFor_lease hlive
    have hnow : n'.db.now = w.node.db.now := by rw [hdb]
    refine h.taken (CommitDb.not_closed_of_lease hs hlease) (fun g hg => .inr ?_)
      hnow (congrArg CommitDb.session hdb) ?_
    · rw [CommitDb.lease_session hs, hlease] at hg
      cases hg
      rfl
    · have ho := (Session.lease_eq_some hlease).1
      simp [Session.lease, ho]
  | released hr => exact h.released hr
  | rows htold hm =>
    rw [show tell w.granted (e.told w.node) = w.granted by rw [htold]; rfl]
    exact h.rows hm

/-! ## The results -/

/-- The run lemma. -/
theorem LeaseInv.run {n : Node} {w : LeaseNode}
    (h : Run leaseStep anyStep ⟨n, fun _ => none⟩ w) : LeaseInv w :=
  h.invariant (LeaseInv.initial n) fun hi _ hs => hi.step hs

/-- A final transaction that passes the fence found its owner's lease alive. -/
theorem fence_lease {db : CommitDb} {s : Session} {attempt : Attempt} {owner : Owner}
    (h : fence db s attempt owner = none) : s.leaseLiveFor owner db.now = true := by
  unfold fence at h
  cases hc : s.commitAttemptId.bind db.attempt? with
  | none => simp [hc] at h
  | some a =>
    simp only [hc] at h
    split_ifs at h with h1 h2
    exact h2

/-- **The session lease is a lock**, in every order of the driver's transactions, the
reconciler's, and the acquisitions, heartbeats and releases of any owners: at most one
owner goes by a grant that has not run out; while the session is open the row names that
owner and that end; and no final transaction commits over the grant of another. -/
theorem lease_exclusive {n : Node} {w : LeaseNode}
    (h : Run leaseStep anyStep ⟨n, fun _ => none⟩ w) :
    (∀ a b, w.granted.Live w.node.db.now a → w.granted.Live w.node.db.now b → a = b) ∧
    (∀ s, w.node.db.session = some s → s.state.isTerminal = false → ∀ k t,
      w.granted k = some t → w.node.db.now ≤ t →
        s.leaseOwner = some k ∧ s.leaseExpiresAt = some t) ∧
    (∀ memory id r db', finalize w.node.plan w.node.owner memory w.node.db id = some (r, db') →
      r.outcome = .committed → ∀ k, w.granted.Live w.node.db.now k → k = w.node.owner) := by
  have hinv := LeaseInv.run h
  refine ⟨hinv.exclusive.single, ?_, ?_⟩
  · intro s hs hopen k t hk ht
    have hback := hinv.exclusive.backed (CommitDb.not_closed_of_open hs hopen) k t hk ht
    rw [CommitDb.lease_session hs] at hback
    exact Session.lease_eq_some hback
  · intro memory id r db' hfin hr k hk
    rcases finalize_cases hfin with ⟨hne, -⟩ | ⟨s, a, hs, -, hf, -⟩
    · exact absurd hr hne
    · obtain ⟨e, hlease, -⟩ := leaseLiveFor_lease (fence_lease hf)
      obtain ⟨t, ht, hle⟩ := hk
      have hback := hinv.exclusive.backed (CommitDb.not_closed_of_lease hs hlease) k t ht hle
      rw [CommitDb.lease_session hs, hlease] at hback
      cases hback
      rfl

/-- The lease of `freshNode`'s driver runs out and another owner takes it. -/
theorem lease_exclusive_takeover :
    ∃ w, exec leaseStep ⟨freshNode, fun _ => none⟩
        [reachesCommitting, .wait 61, .acquireLease "node-b" 60 600] = some w ∧
      w.granted.Live w.node.db.now "node-b" ∧
      (∀ a b, w.granted.Live w.node.db.now a → w.granted.Live w.node.db.now b → a = b) := by
  have hrun : ∃ w, exec leaseStep ⟨freshNode, fun _ => none⟩
      [reachesCommitting, .wait 61, .acquireLease "node-b" 60 600] = some w ∧
        w.granted.Live w.node.db.now "node-b" := ⟨_, rfl, _, rfl, by decide⟩
  obtain ⟨w, hw, hlive⟩ := hrun
  exact ⟨w, hw, hlive, (lease_exclusive (Run.of_exec _ hw)).1⟩

end Noezema.Commit
