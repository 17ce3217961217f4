import Noezema.Memory.PostPublish

/-! # The activation lane, step by step

The transactions of an activation in one step function. The driver enters each by the
state of the candidate; a transaction that raises leaves the database as it was.
`LaneChange` lists all that a step can do.
-/

namespace Noezema.Memory

open Noezema.Lib

/-- The transactions of `run_online_change` and of the repair runner. -/
inductive LaneEvent where
  | request (id : SnapshotId) (q : ConfigRequest)
  | drain (now lease : Nat) (candidate : SnapshotId) (owner : String)
  | cancelDrain (now : Nat) (r : Runner)
  | confirm (now : Nat) (r : Runner)
  | freeze (now : Nat) (r : Runner)
  | prepare (now : Nat) (r : Runner) (prepared batchSize : Nat)
  | verify (now : Nat) (r : Runner)
  | publish (now : Nat) (r : Runner)
  | flip (now : Nat) (r : Runner)
  | fail (now : Nat) (r : Runner)
  | postPublish (now : Nat) (r : Runner) (batchSize : Nat)
  | postPublishFailed (now : Nat) (r : Runner) (retryAt : Nat)
  | repair (now : Nat) (candidate : SnapshotId) (batchSize : Nat)
  | repairFailed (candidate : SnapshotId) (permanent : Bool) (retryAt : Nat)

namespace MemoryDb

/-- The states from which the driver prepares the cohort. -/
def preparing : List ActivationState := [.preparingHeads, .ready, .publishing]

/-- The states `run_online_change` does not leave. -/
def terminal : List ActivationState := [.active, .superseded, .failed, .postPublishBlocked]

/-- A transaction that raises is rolled back. -/
def commit (db : MemoryDb) (tx : Except ActivationError MemoryDb) : MemoryDb :=
  match tx with
  | .ok db => db
  | .error _ => db

/-- A step the driver takes in some states of the candidate. -/
def whenState (db : MemoryDb) (s : SnapshotId) (states : List ActivationState)
    (tx : Except ActivationError MemoryDb) : Option MemoryDb :=
  if db.inState s states then some (db.commit tx) else none

/-- One transaction of the lane. -/
def laneStep (digest : List (ClaimId × Head) → String) (db : MemoryDb) :
    LaneEvent → Option MemoryDb
  | .request id q =>
    -- a fresh uuid
    if db.snapshot? id = none then some (db.upsertOnlineCandidate id q) else none
  | .drain now lease candidate owner =>
    if (db.snapshot? candidate).any db.resumable then
      some (db.commit (db.publishDrain now lease candidate owner))
    else none
  | .cancelDrain now r => some (db.commit (db.cancelDrain now r))
  | .confirm now r => some (db.commit (db.confirmDrain now r))
  | .freeze now r => db.whenState r.candidate preparing (db.freezeCohort now r)
  | .prepare now r prepared batchSize =>
    db.whenState r.candidate preparing (db.prepareHeads now r prepared batchSize)
  | .verify now r => db.whenState r.candidate preparing (db.verifyAndSeal digest now r)
  | .publish now r => some (db.commit (db.publishReady now r))
  | .flip now r => db.whenState r.candidate [.publishing] (db.flip now r)
  | .fail now r =>
    -- the driver has looked at the state in a transaction of its own
    some (db.commit (db.failActivation now r))
  | .postPublish now r batchSize =>
    some (db.commit ((db.runPostPublish now r batchSize).map Prod.fst))
  | .postPublishFailed now r retryAt =>
    -- a runner that found the manifest open; the state moves only under its tuple
    db.whenState r.candidate [.postPublish] (db.postPublishFailed now r retryAt)
  | .repair now candidate batchSize =>
    some (db.commit ((db.runActivationRepair now candidate batchSize).map Prod.fst))
  | .repairFailed candidate permanent retryAt =>
    some (db.commit (db.repairFailed candidate permanent retryAt))

/-! ## What a step of the lane can do -/

/-- The manifest is open: questions are still owed. -/
def manifestOpen : List ActivationState := [.postPublish, .postPublishBlocked]

/-- The states before the flip. -/
def earlyStates : List ActivationState := [.draft, .preparingHeads, .ready, .publishing]

/-- How a step rewrites the row of a snapshot. -/
inductive RowMove (db : MemoryDb) (c : ConfigSnapshot) : ConfigSnapshot → Prop where
  /-- Before the flip. -/
  | early (c' : ConfigSnapshot) : c.state ∈ [.draft, .preparingHeads, .ready, .publishing] →
      RowMove db c c'
  /-- State and cursor stay. -/
  | kept (c' : ConfigSnapshot) : c'.state = c.state →
      c'.postPublishCursor = c.postPublishCursor → RowMove db c c'
  | blocked (c' : ConfigSnapshot) : c.state = .postPublish →
      c'.state = .postPublishBlocked → c'.postPublishCursor = c.postPublishCursor →
      RowMove db c c'
  | completed (c' : ConfigSnapshot) : c.state ∈ manifestOpen → c'.state = .active →
      (db.pendingClaimIds c.id).length ≤ c.postPublishCursor → RowMove db c c'
  | closed (c' : ConfigSnapshot) : c'.state ∈ [.superseded, .failed] → RowMove db c c'

/-- How the step `e` rewrites the cohort and the seal of a row. -/
inductive SealMove (db : MemoryDb) (e : LaneEvent) (c c' : ConfigSnapshot) : Prop where
  | kept : c'.cohortRevision = c.cohortRevision →
      c'.expectedHeadCount = c.expectedHeadCount → c'.headsSha256 = c.headsSha256 →
      SealMove db e c c'
  | frozen : c.cohortRevision = none → c'.cohortRevision = some db.know.revision →
      c'.expectedHeadCount = some db.claims.length → c'.headsSha256 = c.headsSha256 →
      SealMove db e c c'
  | verified (now : Nat) (r : Runner) : e = .verify now r → r.candidate = c.id →
      (∀ revision, c.cohortRevision = some revision → revision = db.know.revision) →
      (db.headRows c.id).length = c.expectedHeadCount.getD 0 →
      c'.cohortRevision = c.cohortRevision → c'.expectedHeadCount = c.expectedHeadCount →
      SealMove db e c c'

/-- What the flip has checked of the candidate. -/
structure FlipReady (db : MemoryDb) (c : ConfigSnapshot) : Prop where
  base : c.baseSnapshotId = some db.effective
  other : c.id ≠ db.effective
  hasSeal : c.headsSha256.isSome
  revision : db.know.revision = c.cohortRevision.getD 0

/-- All that the step `e` of the lane can do. -/
inductive LaneChange (db : MemoryDb) (e : LaneEvent) : MemoryDb → Prop where
  | rolledBack : LaneChange db e db
  | slot (h : RuntimeHead) : LaneChange db e { db with head := h }
  | requested (id : SnapshotId) (q : ConfigRequest) : e = .request id q →
      db.snapshot? id = none →
      LaneChange db e { db with snapshots := db.snapshots ++
        [q.candidate id db.effective .online] }
  | row (c c' : ConfigSnapshot) (h : RuntimeHead) : db.snapshot? c.id = some c →
      c'.id = c.id → c'.baseSnapshotId = c.baseSnapshotId → RowMove db c c' →
      SealMove db e c c' → LaneChange db e { db.setSnapshot c' with head := h }
  | prepared (now : Nat) (r : Runner) (c base : ConfigSnapshot) (batch : List Claim)
      (prepared batchSize : Nat) : e = .prepare now r prepared batchSize →
      r.candidate = c.id → db.snapshot? c.id = some c → c.state ∈ preparing →
      c.baseSnapshotId = some base.id → (∀ claim ∈ batch, claim ∈ db.claims) →
      LaneChange db e (db.withKnow (batch.foldl (prepareClaim base c) db.know))
  | flipped (now : Nat) (c : ConfigSnapshot) : db.snapshot? c.id = some c →
      c.state = .publishing → FlipReady db c → LaneChange db e (db.moveFlip now c)
  | batch (c : ConfigSnapshot) (batchSize : Nat) : db.snapshot? c.id = some c →
      c.state ∈ manifestOpen → LaneChange db e (db.manifestBatch c batchSize).1

theorem row_ok {db : MemoryDb} {s : SnapshotId} {c : ConfigSnapshot} :
    db.row s = .ok c ↔ db.snapshot? s = some c := by
  unfold row
  split <;> simp_all

theorem row_id {db : MemoryDb} {s : SnapshotId} {c : ConfigSnapshot}
    (h : db.row s = .ok c) : c.id = s ∧ db.snapshot? c.id = some c := by
  have hs := row_ok.mp h
  have hid := snapshot?_id hs
  exact ⟨hid, by rwa [hid]⟩

/-- A committed transaction, or nothing. -/
theorem commit_cases {db : MemoryDb} {e : LaneEvent} {tx : Except ActivationError MemoryDb}
    (h : ∀ db', tx = .ok db' → LaneChange db e db') : LaneChange db e (db.commit tx) := by
  unfold commit
  cases tx with
  | ok db' => exact h db' rfl
  | error e => exact .rolledBack

theorem whenState_some {db db' : MemoryDb} {s : SnapshotId} {states : List ActivationState}
    {tx : Except ActivationError MemoryDb} (h : db.whenState s states tx = some db') :
    (∃ c, db.snapshot? s = some c ∧ c.state ∈ states) ∧ db' = db.commit tx := by
  unfold whenState at h
  split at h
  · rename_i hin
    cases h
    obtain ⟨c, hc, hst⟩ := (Option.any_eq_true _ _).mp hin
    exact ⟨⟨c, hc, of_decide_eq_true hst⟩, rfl⟩
  · cases h

theorem publishDrain_change {db db' : MemoryDb} {e : LaneEvent} {now lease : Nat}
    {candidate : SnapshotId} {owner : String}
    (h : db.publishDrain now lease candidate owner = .ok db') : LaneChange db e db' := by
  obtain ⟨c, hc, h⟩ := bind_eq_ok.mp h
  have htake : LaneChange db e (db.takeSlot now lease c owner) :=
    .row c _ _ (row_id hc).2 rfl rfl (.kept _ rfl rfl) (.kept rfl rfl rfl)
  split at h
  · cases h
    exact htake
  · split at h
    · cases h
      exact .slot _
    · split at h
      · cases h
        exact htake
      · cases h

theorem cancelDrain_change {db db' : MemoryDb} {e : LaneEvent} {now : Nat} {r : Runner}
    (h : db.cancelDrain now r = .ok db') : LaneChange db e db' := by
  obtain ⟨-, -, h⟩ := bind_eq_ok.mp h
  cases h
  exact .slot _

theorem confirmDrain_change {db db' : MemoryDb} {e : LaneEvent} {now : Nat} {r : Runner}
    (h : db.confirmDrain now r = .ok db') : LaneChange db e db' := by
  obtain ⟨-, -, h⟩ := bind_eq_ok.mp h
  obtain ⟨-, -, h⟩ := bind_eq_ok.mp h
  obtain ⟨c, hc, h⟩ := bind_eq_ok.mp h
  by_cases hdraft : c.state = .draft
  · rw [if_pos hdraft] at h
    cases h
    exact .row c _ db.head (row_id hc).2 rfl rfl (.early _ (by simp [hdraft]))
      (.kept rfl rfl rfl)
  · rw [if_neg hdraft] at h
    cases h
    exact .rolledBack

theorem freezeCohort_change {db db' : MemoryDb} {e : LaneEvent} {now : Nat} {r : Runner}
    {c : ConfigSnapshot} (hc : db.snapshot? r.candidate = some c) (hst : c.state ∈ preparing)
    (h : db.freezeCohort now r = .ok db') : LaneChange db e db' := by
  obtain ⟨-, -, h⟩ := bind_eq_ok.mp h
  obtain ⟨c', hc', h⟩ := bind_eq_ok.mp h
  obtain rfl : c = c' := Option.some.inj (hc.symm.trans (row_ok.mp hc'))
  cases hrev : c.cohortRevision with
  | some rev =>
    simp only [hrev, pure_eq_ok, Except.ok.injEq] at h
    rw [← h]
    exact .rolledBack
  | none =>
    simp only [hrev, pure_eq_ok, Except.ok.injEq] at h
    rw [← h]
    exact .row c _ db.head (row_id hc').2 rfl rfl (.early _ (List.mem_cons_of_mem _ hst))
      (.frozen hrev rfl rfl rfl)

theorem baseRow_ok {db : MemoryDb} {c base : ConfigSnapshot} (h : db.baseRow c = .ok base) :
    c.baseSnapshotId = some base.id := by
  unfold baseRow at h
  split at h
  · rename_i found hbase
    cases h
    obtain ⟨s, hs, hrow⟩ := Option.bind_eq_some_iff.mp hbase
    rw [hs, snapshot?_id hrow]
  · cases h

theorem prepareHeads_change {db db' : MemoryDb} {now : Nat} {r : Runner}
    {prepared batchSize : Nat} {c : ConfigSnapshot}
    (hc : db.snapshot? r.candidate = some c) (hst : c.state ∈ preparing)
    (h : db.prepareHeads now r prepared batchSize = .ok db') :
    LaneChange db (.prepare now r prepared batchSize) db' := by
  obtain ⟨c', hc', h⟩ := bind_eq_ok.mp h
  obtain rfl : c = c' := Option.some.inj (hc.symm.trans (row_ok.mp hc'))
  obtain ⟨base, hbase, h⟩ := bind_eq_ok.mp h
  obtain ⟨-, -, h⟩ := bind_eq_ok.mp h
  obtain ⟨-, -, h⟩ := bind_eq_ok.mp h
  cases h
  refine .prepared now r c base _ prepared batchSize rfl (row_id hc').1.symm (row_id hc').2 hst
    (baseRow_ok hbase) ?_
  intro claim hclaim
  have hmem := List.mem_of_mem_drop (List.mem_of_mem_take hclaim)
  exact (List.mem_insertionSort _).mp hmem

theorem verifyAndSeal_change {digest : List (ClaimId × Head) → String} {db db' : MemoryDb}
    {now : Nat} {r : Runner} {c : ConfigSnapshot}
    (hc : db.snapshot? r.candidate = some c) (hst : c.state ∈ preparing)
    (h : db.verifyAndSeal digest now r = .ok db') : LaneChange db (.verify now r) db' := by
  obtain ⟨-, -, h⟩ := bind_eq_ok.mp h
  obtain ⟨c', hc', h⟩ := bind_eq_ok.mp h
  obtain rfl : c = c' := Option.some.inj (hc.symm.trans (row_ok.mp hc'))
  split at h
  · cases h
    exact .rolledBack
  · obtain ⟨_, hrev, h⟩ := bind_eq_ok.mp h
    obtain ⟨_, hlen, h⟩ := bind_eq_ok.mp h
    cases h
    refine .row c _ db.head (row_id hc').2 rfl rfl (.early _ (List.mem_cons_of_mem _ hst))
      (.verified now r rfl (row_id hc').1.symm ?_ (require_eq_ok.mp hlen) rfl rfl)
    intro revision hsome
    have hall := require_eq_ok.mp hrev
    rw [hsome] at hall
    simpa using hall

theorem publishReady_change {db db' : MemoryDb} {e : LaneEvent} {now : Nat} {r : Runner}
    (h : db.publishReady now r = .ok db') : LaneChange db e db' := by
  obtain ⟨-, -, h⟩ := bind_eq_ok.mp h
  obtain ⟨c, hc, h⟩ := bind_eq_ok.mp h
  split at h
  · rename_i hready
    obtain ⟨-, -, h⟩ := bind_eq_ok.mp h
    cases h
    exact .row c _ db.head (row_id hc).2 rfl rfl (.early _ (by simp [hready]))
      (.kept rfl rfl rfl)
  · split at h
    · cases h
      exact .rolledBack
    · cases h

theorem flip_change {db db' : MemoryDb} {now : Nat} {r : Runner} {c : ConfigSnapshot}
    (hc : db.snapshot? r.candidate = some c) (h : db.flip now r = .ok db') :
    (db' = db ∧ db.effective = c.id) ∨
      (db' = db.moveFlip now c ∧ db.snapshot? c.id = some c ∧ FlipReady db c) := by
  obtain ⟨c', hc', h⟩ := bind_eq_ok.mp h
  obtain rfl : c = c' := Option.some.inj (hc.symm.trans (row_ok.mp hc'))
  obtain ⟨-, -, h⟩ := bind_eq_ok.mp h
  split at h
  · rename_i heq
    obtain ⟨-, -, h⟩ := bind_eq_ok.mp h
    cases h
    exact .inl ⟨rfl, heq⟩
  · rename_i hne
    obtain ⟨_, hbase, h⟩ := bind_eq_ok.mp h
    obtain ⟨-, -, h⟩ := bind_eq_ok.mp h
    obtain ⟨_, hseal, h⟩ := bind_eq_ok.mp h
    obtain ⟨-, -, h⟩ := bind_eq_ok.mp h
    obtain ⟨_, hrev, h⟩ := bind_eq_ok.mp h
    cases h
    exact .inr ⟨rfl, (row_id hc').2, require_eq_ok.mp hbase, Ne.symm hne,
      (require_eq_ok.mp hseal).1, require_eq_ok.mp hrev⟩

theorem failActivation_change {db db' : MemoryDb} {e : LaneEvent} {now : Nat} {r : Runner}
    (h : db.failActivation now r = .ok db') : LaneChange db e db' := by
  obtain ⟨-, -, h⟩ := bind_eq_ok.mp h
  obtain ⟨c, hc, h⟩ := bind_eq_ok.mp h
  cases h
  exact .row c _ _ (row_id hc).2 rfl rfl (.closed _ (by simp)) (.kept rfl rfl rfl)

theorem runPostPublish_change {db db' : MemoryDb} {e : LaneEvent} {now : Nat} {r : Runner}
    {batchSize : Nat} {out : BatchEnd} (h : db.runPostPublish now r batchSize = .ok (db', out)) :
    LaneChange db e db' := by
  obtain ⟨c, hc, h⟩ := bind_eq_ok.mp h
  split at h
  · cases h
    exact .rolledBack
  · split at h
    · cases h
      exact .rolledBack
    · split at h
      · cases h
      · rename_i hst
        have hopen : c.state ∈ manifestOpen := by simp [manifestOpen, not_not.mp hst]
        split at h
        · cases h
          exact .rolledBack
        · split at h
          · cases h
            exact .rolledBack
          · split at h
            · rename_i hdone
              cases h
              exact .row c _ _ (row_id hc).2 rfl rfl (.completed _ hopen rfl hdone)
                (.kept rfl rfl rfl)
            · have hdb := congrArg Prod.fst (Except.ok.inj h)
              rw [← show (db.manifestBatch c batchSize).1 = db' from hdb]
              exact .batch c batchSize (row_id hc).2 hopen

theorem postPublishFailed_change {db db' : MemoryDb} {e : LaneEvent} {now : Nat} {r : Runner}
    {retryAt : Nat} {c : ConfigSnapshot} (hc : db.snapshot? r.candidate = some c)
    (hst : c.state = .postPublish) (h : db.postPublishFailed now r retryAt = .ok db') :
    LaneChange db e db' := by
  obtain ⟨c', hc', h⟩ := bind_eq_ok.mp h
  obtain rfl : c = c' := Option.some.inj (hc.symm.trans (row_ok.mp hc'))
  split at h
  · simp only at h
    split at h
    · cases h
      exact .row c _ _ (row_id hc').2 rfl rfl (.blocked _ hst rfl rfl) (.kept rfl rfl rfl)
    · cases h
      exact .row c _ db.head (row_id hc').2 rfl rfl (.kept _ rfl rfl) (.kept rfl rfl rfl)
  · cases h
    exact .rolledBack

theorem runActivationRepair_change {db db' : MemoryDb} {e : LaneEvent} {now : Nat}
    {candidate : SnapshotId} {batchSize : Nat} {out : BatchEnd}
    (h : db.runActivationRepair now candidate batchSize = .ok (db', out)) :
    LaneChange db e db' := by
  obtain ⟨c, hc, h⟩ := bind_eq_ok.mp h
  split at h
  · cases h
    split
    · exact .row c _ db.head (row_id hc).2 rfl rfl (.closed _ (by simp))
        (.kept rfl rfl rfl)
    · exact .rolledBack
  · split at h
    · cases h
      exact .rolledBack
    · rename_i hcas
      have hopen : c.state ∈ manifestOpen := by
        by_contra hne
        refine hcas (.inr (.inr (.inl ?_)))
        intro hblocked
        exact hne (by simp [manifestOpen, hblocked])
      split at h
      · rename_i hdone
        cases h
        exact .row c _ db.head (row_id hc).2 rfl rfl (.completed _ hopen rfl hdone)
          (.kept rfl rfl rfl)
      · have hdb := congrArg Prod.fst (Except.ok.inj h)
        rw [← show (db.manifestBatch c batchSize).1 = db' from hdb]
        exact .batch c batchSize (row_id hc).2 hopen

theorem repairFailed_change {db db' : MemoryDb} {e : LaneEvent} {candidate : SnapshotId}
    {permanent : Bool} {retryAt : Nat}
    (h : db.repairFailed candidate permanent retryAt = .ok db') : LaneChange db e db' := by
  obtain ⟨c, hc, h⟩ := bind_eq_ok.mp h
  split at h
  · cases h
    exact .row c _ db.head (row_id hc).2 rfl rfl (.kept _ rfl rfl) (.kept rfl rfl rfl)
  · cases h
    exact .rolledBack

theorem upsertOnlineCandidate_change {db : MemoryDb} {id : SnapshotId} {q : ConfigRequest}
    (hid : db.snapshot? id = none) :
    LaneChange db (.request id q) (db.upsertOnlineCandidate id q) := by
  unfold upsertOnlineCandidate
  simp only
  split
  · exact .rolledBack
  · exact .requested id q rfl hid

/-- **The inversion lemma of the lane.** -/
theorem laneStep_change {digest : List (ClaimId × Head) → String} {db db' : MemoryDb}
    {e : LaneEvent} (h : db.laneStep digest e = some db') : LaneChange db e db' := by
  cases e with
  | request id q =>
    simp only [laneStep] at h
    split at h
    · rename_i hid
      cases h
      exact upsertOnlineCandidate_change hid
    · cases h
  | drain now lease candidate owner =>
    simp only [laneStep] at h
    split at h
    · cases h
      exact commit_cases fun _ => publishDrain_change
    · cases h
  | cancelDrain now r =>
    cases h
    exact commit_cases fun _ => cancelDrain_change
  | confirm now r =>
    cases h
    exact commit_cases fun _ => confirmDrain_change
  | freeze now r =>
    obtain ⟨⟨c, hc, hst⟩, rfl⟩ := whenState_some h
    exact commit_cases fun _ => freezeCohort_change hc hst
  | prepare now r prepared batchSize =>
    obtain ⟨⟨c, hc, hst⟩, rfl⟩ := whenState_some h
    exact commit_cases fun _ => prepareHeads_change hc hst
  | verify now r =>
    obtain ⟨⟨c, hc, hst⟩, rfl⟩ := whenState_some h
    exact commit_cases fun _ => verifyAndSeal_change hc hst
  | publish now r =>
    cases h
    exact commit_cases fun _ => publishReady_change
  | flip now r =>
    obtain ⟨⟨c, hc, hst⟩, rfl⟩ := whenState_some h
    refine commit_cases fun db' hflip => ?_
    rcases flip_change hc hflip with ⟨rfl, -⟩ | ⟨rfl, hrow, hready⟩
    · exact .rolledBack
    · exact .flipped now c hrow (by simpa using hst) hready
  | fail now r =>
    cases h
    exact commit_cases fun _ => failActivation_change
  | postPublish now r batchSize =>
    cases h
    refine commit_cases fun db' hrun => ?_
    obtain ⟨p, hp, rfl⟩ := map_eq_ok.mp hrun
    exact runPostPublish_change hp
  | postPublishFailed now r retryAt =>
    obtain ⟨⟨c, hc, hst⟩, rfl⟩ := whenState_some h
    exact commit_cases fun _ => postPublishFailed_change hc (by simpa using hst)
  | repair now candidate batchSize =>
    cases h
    refine commit_cases fun db' hrun => ?_
    obtain ⟨p, hp, rfl⟩ := map_eq_ok.mp hrun
    exact runActivationRepair_change hp
  | repairFailed candidate permanent retryAt =>
    cases h
    exact commit_cases fun _ => repairFailed_change

/-! ## What every step of the lane keeps -/

theorem prepareClaim_keepsJobs (base candidate : ConfigSnapshot) (k : Knowledge)
    (claim : Claim) : Knowledge.KeepsJobs k (prepareClaim base candidate k claim) := by
  unfold prepareClaim
  split
  · rename_i head hcarried
    refine Knowledge.setHead_keepsJobs k claim.id candidate.id ?_
    intro hp
    unfold carriedHead at hcarried
    split at hcarried
    · split at hcarried
      · cases hcarried
        cases hp
      · cases hcarried
    · cases hcarried
  · exact Knowledge.setHead_enqueueJob_keepsJobs k claim.id candidate.id _ "activation"

theorem prepareClaim_only (base candidate : ConfigSnapshot) (k : Knowledge) (claim : Claim) :
    Knowledge.PreparesOnly [claim.id] candidate.id k (prepareClaim base candidate k claim) := by
  unfold prepareClaim
  split
  · exact Knowledge.setHead_only k claim.id candidate.id _
  · have h := (Knowledge.setHead_only k claim.id candidate.id (some .pending)).append
      (Knowledge.enqueueJob_only _ claim.id claim.id candidate.id candidate.id "activation")
    exact ⟨fun c t hne => h.heads c t (by simpa using hne), h.jobs, h.questions⟩

/-- No pending head loses its job, and an affected claim gets one with its head. -/
theorem LaneChange.keepsJobs {db db' : MemoryDb} {e : LaneEvent} (h : LaneChange db e db') :
    Knowledge.KeepsJobs db.know db'.know := by
  cases h with
  | rolledBack => exact .refl _
  | slot h => exact .refl _
  | requested id q he hid => exact .refl _
  | row c c' h hrow hid hbase hmove hseal => exact .refl _
  | prepared now r c base batch n size he hr hrow hst hbase hbatch =>
    exact Knowledge.KeepsJobs.foldl (prepareClaim_keepsJobs base c) batch db.know
  | flipped now c hrow hst hready =>
    rw [moveFlip_know]
    exact .of_same rfl rfl
  | batch c batchSize hrow hst =>
    refine .of_same ?_ ?_
    · exact Knowledge.enqueueQuestions_heads _ _ _
    · exact Knowledge.enqueueQuestions_jobs _ _ _

theorem LaneChange.headsHaveRows {db db' : MemoryDb} {e : LaneEvent}
    (h : LaneChange db e db') (hrows : db.HeadsHaveRows) : db'.HeadsHaveRows := by
  cases h with
  | rolledBack => exact hrows
  | slot h => exact hrows
  | requested id q he hid => exact hrows
  | row c c' h hrow hid hbase hmove hseal => exact hrows
  | prepared now r c base batch n size he hr hrow hst hbase hbatch =>
    intro x s hx
    by_cases hin : x ∈ batch.map (·.id) ∧ s = c.id
    · obtain ⟨claim, hclaim, rfl⟩ := List.mem_map.mp hin.1
      exact claim?_isSome_iff.mpr (List.mem_map_of_mem (hbatch claim hclaim))
    · have hsame := (Knowledge.PreparesOnly.foldl (prepareClaim_only base c) batch
        db.know).heads x s hin
      rw [withKnow_know, hsame] at hx
      exact hrows x s hx
  | flipped now c hrow hst hready =>
    intro x s hx
    rw [moveFlip_know] at hx
    rw [claim?, moveFlip_claims]
    exact hrows x s hx
  | batch c batchSize hrow hst =>
    intro x s hx
    refine hrows x s ?_
    rwa [← Knowledge.enqueueQuestions_heads (.activationPending c.id)
      (db.manifestSlice c batchSize) db.know]

/-- A step of the lane writes no evidence and assesses nothing. -/
theorem LaneChange.tables {db db' : MemoryDb} {e : LaneEvent} (h : LaneChange db e db') :
    db'.tables = db.tables := by
  cases h with
  | flipped now c hrow hst hready =>
    unfold moveFlip supersedeBase
    split
    · split <;> rfl
    · rfl
  | _ => rfl

/-- The lane does not touch the graph of the claims. -/
theorem LaneChange.dependencies {db db' : MemoryDb} {e : LaneEvent} (h : LaneChange db e db') :
    db'.cascade.dependencies = db.cascade.dependencies := by
  cases h with
  | flipped now c hrow hst hready =>
    unfold moveFlip supersedeBase
    split
    · split <;> rfl
    · rfl
  | _ => rfl

end MemoryDb

end Noezema.Memory
