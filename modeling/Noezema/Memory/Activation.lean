import Noezema.Memory.Runtime
import Noezema.Lib.Except

/-! # The online activation lane

From the drain intent to the flip: every step is one transaction that checks the
activation tuple (candidate, fence, owner, live lease) under the head lock. The
driver enters a step by the candidate's state only.
-/

namespace Noezema.Memory

open Noezema.Lib

/-- `ActivationError`, and the error of the sealed-heads trigger. -/
inductive ActivationError where
  | slotBusy
  | fencedOut
  | candidateMissing
  | baseMissing
  | sealedHeads (candidate : SnapshotId)
  | activeSessions (n : Nat)
  | unresolvedAttempts (n : Nat)
  | revisionMoved
  | incompleteCohort (heads expected : Nat)
  | pendingBacklog (pending limit : Nat)
  | cannotPublish (state : ActivationState)
  | pointerMoved
  | notTheBase
  | sealMissing
  | sealCount
  | unexpectedState (state : ActivationState)
deriving DecidableEq, Repr

/-- Who runs an activation: the candidate and the tuple it holds the slot with. -/
structure Runner where
  candidate : SnapshotId
  fence : Nat
  owner : String
deriving DecidableEq, Repr

namespace MemoryDb

/-! ## The slot -/

/-- `upsert_online_candidate`: a new candidate row, when no unfinished one has the
payload. -/
def upsertOnlineCandidate (db : MemoryDb) (id : SnapshotId) (q : ConfigRequest) : MemoryDb :=
  let same := fun r : ConfigSnapshot => r.payloadSha256 = q.payloadSha256
  let unfinished := fun r : ConfigSnapshot => r.baseSnapshotId = some db.effective ∧ same r ∧
    r.mode = .online ∧ r.state ∉ [.failed, .active, .superseded]
  if (db.snapshot? db.effective).any same ∨ db.snapshots.any unfinished then db
  else { db with snapshots := db.snapshots ++ [q.candidate id db.effective .online] }

/-- The candidates `run_online_change` resumes: a blocked manifest is left to the
repair lane. -/
def resumable (db : MemoryDb) (c : ConfigSnapshot) : Bool :=
  if c.id = db.effective then c.state ∉ [.active, .postPublishBlocked]
  else c.state ∉ [.failed, .active, .superseded, .postPublishBlocked]

/-- `_check_tuple`. -/
def checkTuple (db : MemoryDb) (now : Nat) (r : Runner) : Except ActivationError Unit :=
  require (db.tupleOk now r.candidate r.fence r.owner) .fencedOut

/-- The candidate's row. -/
def row (db : MemoryDb) (s : SnapshotId) : Except ActivationError ConfigSnapshot :=
  match db.snapshot? s with
  | some r => .ok r
  | none => .error .candidateMissing

/-- Take the slot, with the next fence. -/
def takeSlot (db : MemoryDb) (now lease : Nat) (c : ConfigSnapshot) (owner : String) :
    MemoryDb :=
  let db := db.setSnapshot { c with mode := .online }
  { db with head := ⟨some c.id, db.head.fence + 1, some owner, some (now + lease)⟩ }

/-- `publish_activation_drain`. -/
def publishDrain (db : MemoryDb) (now lease : Nat) (candidate : SnapshotId)
    (owner : String) : Except ActivationError MemoryDb := do
  let c ← db.row candidate
  match db.head.activating with
  | none => pure (db.takeSlot now lease c owner)
  | some s =>
    if s = candidate ∧ db.head.leaseOwner = some owner ∧ db.leaseLive now then
      pure { db with head := { db.head with leaseExpiresAt := some (now + lease) } }
    else if s = candidate ∧ ¬ db.leaseLive now then pure (db.takeSlot now lease c owner)
    else throw .slotBusy

/-- `_cancel_activation_drain`: the candidate stays a draft. -/
def cancelDrain (db : MemoryDb) (now : Nat) (r : Runner) :
    Except ActivationError MemoryDb := do
  db.checkTuple now r
  pure db.clearSlot

/-- The quiesce counts, checked under the head lock. -/
def checkQuiesced (db : MemoryDb) : Except ActivationError Unit := do
  let live := db.sessions.activeSessions + db.sessions.liveAdmissions
  require (live = 0) (.activeSessions live)
  require (db.sessions.unresolvedAttempts = 0)
    (.unresolvedAttempts db.sessions.unresolvedAttempts)

/-- `_confirm_drain`, the gate acquired. -/
def confirmDrain (db : MemoryDb) (now : Nat) (r : Runner) :
    Except ActivationError MemoryDb := do
  db.checkTuple now r
  db.checkQuiesced
  let c ← db.row r.candidate
  pure (if c.state = .draft then db.setSnapshot { c with state := .preparingHeads } else db)

/-! ## The cohort -/

/-- `freeze_cohort_online`: a resumed run keeps the frozen cohort. -/
def freezeCohort (db : MemoryDb) (now : Nat) (r : Runner) :
    Except ActivationError MemoryDb := do
  db.checkTuple now r
  let c ← db.row r.candidate
  pure (match c.cohortRevision with
    | some _ => db
    | none => db.setSnapshot { c with
        state := .preparingHeads
        cohortRevision := some db.know.revision
        expectedHeadCount := some db.claims.length })

/-- `_rule_unchanged`. -/
def ruleUnchanged (base candidate : ConfigSnapshot) (claimType : String) : Bool :=
  match base.ruleDigests claimType, candidate.ruleDigests claimType with
  | some a, some b => a = b
  | none, none => true
  | _, _ => false

/-- The head that is carried over: the base's current one, its rule unchanged. -/
def carriedHead (k : Knowledge) (base candidate : ConfigSnapshot) (claim : Claim) :
    Option Head :=
  match k.heads claim.id base.id with
  | some (.current a e) =>
    if ruleUnchanged base candidate claim.claimType then some (.current a e) else none
  | _ => none

/-- One claim of a batch: its shadow head, and a job for an affected claim. -/
def prepareClaim (base candidate : ConfigSnapshot) (k : Knowledge) (claim : Claim) :
    Knowledge :=
  match carriedHead k base candidate claim with
  | some head => k.setHead claim.id candidate.id (some head)
  | none =>
    ((k.setHead claim.id candidate.id (some .pending)).enqueueJob claim.id candidate.id
      "activation").1

/-- The claims in the order of their ids. -/
def claimsById (db : MemoryDb) : List Claim :=
  db.claims.insertionSort fun a b => a.id ≤ b.id

/-- The row of the candidate's base. -/
def baseRow (db : MemoryDb) (c : ConfigSnapshot) : Except ActivationError ConfigSnapshot :=
  match c.baseSnapshotId.bind db.snapshot? with
  | some base => .ok base
  | none => .error .baseMissing

/-- The trigger on `claim_assessment_heads`: the heads of a sealed candidate are
immutable. -/
def headsSealed (c : ConfigSnapshot) : Bool :=
  c.mode ≠ .bootstrap ∧ (c.state = .ready ∨ c.state = .publishing)

/-- The batch leaves the heads as they are: rows without a change are not written. -/
def headsStay (k k' : Knowledge) (s : SnapshotId) (batch : List Claim) : Bool :=
  batch.all fun claim => k'.heads claim.id s = k.heads claim.id s

/-- One batch of `prepare_heads_online`, after `prepared` claims. -/
def prepareHeads (db : MemoryDb) (now : Nat) (r : Runner) (prepared batchSize : Nat) :
    Except ActivationError MemoryDb := do
  let c ← db.row r.candidate
  let base ← db.baseRow c
  db.checkTuple now r
  let batch := (db.claimsById.drop prepared).take batchSize
  let know := batch.foldl (prepareClaim base c) db.know
  require (headsSealed c → headsStay db.know know c.id batch) (.sealedHeads c.id)
  pure (db.withKnow know)

/-! ## The seal -/

/-- The rows of the heads table under a snapshot, by claim. -/
def headRows (db : MemoryDb) (s : SnapshotId) : List (ClaimId × Head) :=
  ((db.claims.map (·.id)).dedup.insertionSort (· ≤ ·)).filterMap fun c =>
    (db.know.heads c s).map (c, ·)

/-- `verify_and_seal_online`. -/
def verifyAndSeal (digest : List (ClaimId × Head) → String) (db : MemoryDb) (now : Nat)
    (r : Runner) : Except ActivationError MemoryDb := do
  db.checkTuple now r
  let c ← db.row r.candidate
  if c.state = .ready then pure db
  else do
    require (c.cohortRevision.all fun rev => rev = db.know.revision) .revisionMoved
    let rows := db.headRows c.id
    let expected := c.expectedHeadCount.getD 0
    require (rows.length = expected) (.incompleteCohort rows.length expected)
    pure (db.setSnapshot { c with
      state := .ready
      headsSha256 := some (digest rows)
      verifiedHeadCount := some rows.length })

/-! ## The flip -/

/-- The first transaction of `publish_online`. -/
def publishReady (db : MemoryDb) (now : Nat) (r : Runner) :
    Except ActivationError MemoryDb := do
  db.checkTuple now r
  let c ← db.row r.candidate
  if c.state = .ready then do
    let pending := (db.pendingClaimIds c.id).length
    let limit := limitOr c.maxPendingQuestions 100
    require (pending ≤ limit) (.pendingBacklog pending limit)
    pure (db.setSnapshot { c with state := .publishing })
  else if c.state = .publishing then pure db
  else throw (.cannotPublish c.state)

/-- The candidate's row after the flip: the manifest is open, at cursor 0. -/
def flipped (now : Nat) (c : ConfigSnapshot) : ConfigSnapshot :=
  { c with
    state := .postPublish
    postPublishCursor := 0
    postPublishAttempts := 0
    postPublishNextAttemptAt := some now }

/-- The previous snapshot is superseded, except the immutable bootstrap. -/
def supersedeBase (db : MemoryDb) (base : Option SnapshotId) : MemoryDb :=
  match base.bind db.snapshot? with
  | some previous =>
    if previous.mode ≠ .bootstrap then db.setSnapshot { previous with state := .superseded }
    else db
  | none => db

/-- The writes of the flip. -/
def moveFlip (db : MemoryDb) (now : Nat) (c : ConfigSnapshot) : MemoryDb :=
  let db := (db.setSnapshot (flipped now c)).supersedeBase c.baseSnapshotId
  { db with cascade := { db.cascade with
    know := db.know.bumpRevision
    effective := c.id } }

@[simp] theorem supersedeBase_know (db : MemoryDb) (base : Option SnapshotId) :
    (db.supersedeBase base).know = db.know := by
  unfold supersedeBase
  split
  · split <;> rfl
  · rfl

@[simp] theorem supersedeBase_claims (db : MemoryDb) (base : Option SnapshotId) :
    (db.supersedeBase base).claims = db.claims := by
  unfold supersedeBase
  split
  · split <;> rfl
  · rfl

@[simp] theorem moveFlip_know (db : MemoryDb) (now : Nat) (c : ConfigSnapshot) :
    (db.moveFlip now c).know = db.know.bumpRevision := by
  show Knowledge.bumpRevision (supersedeBase _ _).know = _
  rw [supersedeBase_know]
  rfl

@[simp] theorem moveFlip_claims (db : MemoryDb) (now : Nat) (c : ConfigSnapshot) :
    (db.moveFlip now c).claims = db.claims :=
  supersedeBase_claims (db.setSnapshot (flipped now c)) c.baseSnapshotId

@[simp] theorem supersedeBase_head (db : MemoryDb) (base : Option SnapshotId) :
    (db.supersedeBase base).head = db.head := by
  unfold supersedeBase
  split
  · split <;> rfl
  · rfl

@[simp] theorem moveFlip_head (db : MemoryDb) (now : Nat) (c : ConfigSnapshot) :
    (db.moveFlip now c).head = db.head :=
  supersedeBase_head (db.setSnapshot (flipped now c)) c.baseSnapshotId

@[simp] theorem moveFlip_effective (db : MemoryDb) (now : Nat) (c : ConfigSnapshot) :
    (db.moveFlip now c).effective = c.id := rfl

theorem supersedeBase_other {db : MemoryDb} {base s : SnapshotId} (hne : base ≠ s) :
    (db.supersedeBase (some base)).snapshot? s = db.snapshot? s := by
  unfold supersedeBase
  cases hb : (some base).bind db.snapshot? with
  | none => rfl
  | some previous =>
    have hid : previous.id = base := snapshot?_id hb
    simp only
    split
    · exact setSnapshot_other (by rwa [← hid] at hne)
    · rfl

/-- The base of a flip is superseded or, as the bootstrap, left alone; every other row
stays. -/
theorem supersedeBase_snapshot? {db : MemoryDb} {base s : SnapshotId} {c : ConfigSnapshot}
    (hc : db.snapshot? s = some c) :
    (db.supersedeBase (some base)).snapshot? s = some c ∨
      (db.supersedeBase (some base)).snapshot? s = some { c with state := .superseded } := by
  unfold supersedeBase
  cases hb : (some base).bind db.snapshot? with
  | none => exact .inl hc
  | some previous =>
    simp only
    split
    · by_cases hid : previous.id = s
      · have hprev : previous = c := by
          have hbase : db.snapshot? base = some previous := hb
          rw [← snapshot?_id hbase, hid, hc] at hbase
          exact (Option.some.inj hbase).symm
        subst hprev
        exact .inr (setSnapshot_same hid hc)
      · refine .inl ?_
        rw [setSnapshot_other (by simpa using hid)]
        exact hc
    · exact .inl hc

/-- The second transaction of `publish_online`: the flip. -/
def flip (db : MemoryDb) (now : Nat) (r : Runner) : Except ActivationError MemoryDb := do
  let c ← db.row r.candidate
  db.checkTuple now r
  if db.effective = c.id then do
    -- the flip committed before a crash
    require (c.state = .postPublish) .pointerMoved
    pure db
  else do
    require (c.baseSnapshotId = some db.effective) .notTheBase
    db.checkQuiesced
    require (c.headsSha256.isSome ∧ c.verifiedHeadCount.isSome) .sealMissing
    require (c.verifiedHeadCount = some (c.expectedHeadCount.getD 0)) .sealCount
    require (db.know.revision = c.cohortRevision.getD 0) .revisionMoved
    pure (db.moveFlip now c)

/-- `_terminal_cleanup_tx` with the outcome `failed`. -/
def failActivation (db : MemoryDb) (now : Nat) (r : Runner) :
    Except ActivationError MemoryDb := do
  require (db.head.activating = none ∨ db.tupleOk now r.candidate r.fence r.owner) .fencedOut
  let c ← db.row r.candidate
  pure (db.setSnapshot { c with state := .failed }).clearSlot

end MemoryDb

end Noezema.Memory
