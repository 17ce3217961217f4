import Noezema.Memory.Cascade
import Noezema.Memory.Assembly

/-! # Configuration snapshots and the runtime head

The rows that say which configuration is in force and which one is being activated,
and the whole memory database the worker and the activation lanes run on.
-/

namespace Noezema.Memory

/-- `activation_mode`. -/
inductive ActivationMode where
  | bootstrap | offline | online
deriving DecidableEq, Repr

/-- `activation_state`. -/
inductive ActivationState where
  | draft | preparingHeads | ready | publishing | postPublish | postPublishBlocked
  | active | superseded | failed
deriving DecidableEq, Repr

/-- A row of `config_snapshots`; `ruleDigests` are the hashes of the rule payloads. -/
structure ConfigSnapshot where
  id : SnapshotId
  baseSnapshotId : Option SnapshotId
  payloadSha256 : String
  mode : ActivationMode
  state : ActivationState
  rules : ClaimTypeRules
  ruleDigests : String → Option String
  cohortRevision : Option Nat
  expectedHeadCount : Option Nat
  verifiedHeadCount : Option Nat
  headsSha256 : Option String
  postPublishCursor : Nat
  postPublishAttempts : Nat
  postPublishNextAttemptAt : Option Nat
  /-- `online_activation_max_attempts` of the limits. -/
  maxAttempts : Option Nat
  /-- `online_activation_max_pending_questions` of the limits. -/
  maxPendingQuestions : Option Nat

/-- `limits.get(key, default) or default`. -/
def limitOr (limit : Option Nat) (default : Nat) : Nat :=
  match limit with
  | some n => if n = 0 then default else n
  | none => default

/-- A requested payload, with what its sections give. -/
structure ConfigRequest where
  payloadSha256 : String
  rules : ClaimTypeRules
  ruleDigests : String → Option String
  maxAttempts : Option Nat
  maxPendingQuestions : Option Nat

/-- The candidate row of a request. -/
def ConfigRequest.candidate (q : ConfigRequest) (id base : SnapshotId)
    (mode : ActivationMode) : ConfigSnapshot where
  id := id
  baseSnapshotId := some base
  payloadSha256 := q.payloadSha256
  mode := mode
  state := .draft
  rules := q.rules
  ruleDigests := q.ruleDigests
  cohortRevision := none
  expectedHeadCount := none
  verifiedHeadCount := none
  headsSha256 := none
  postPublishCursor := 0
  postPublishAttempts := 0
  postPublishNextAttemptAt := none
  maxAttempts := q.maxAttempts
  maxPendingQuestions := q.maxPendingQuestions

/-- The slot of `runtime_config_heads`; the active pointer is `effective`. -/
structure RuntimeHead where
  activating : Option SnapshotId
  fence : Nat
  leaseOwner : Option String
  leaseExpiresAt : Option Nat
deriving DecidableEq

/-- What the admission checks count. -/
structure SessionLoad where
  activeSessions : Nat
  liveAdmissions : Nat
  unresolvedAttempts : Nat
  commitIntent : Bool
deriving DecidableEq

/-- The memory database. -/
structure MemoryDb where
  cascade : CascadeDb
  tables : AssessmentDb
  claims : List Claim
  snapshots : List ConfigSnapshot
  head : RuntimeHead
  sessions : SessionLoad
  sourceGraphRevision : Nat

namespace MemoryDb

abbrev know (db : MemoryDb) : Knowledge := db.cascade.know
abbrev effective (db : MemoryDb) : SnapshotId := db.cascade.effective

def withKnow (db : MemoryDb) (k : Knowledge) : MemoryDb :=
  { db with cascade := { db.cascade with know := k } }

@[simp] theorem withKnow_know (db : MemoryDb) (k : Knowledge) : (db.withKnow k).know = k := rfl

@[simp] theorem withKnow_effective (db : MemoryDb) (k : Knowledge) :
    (db.withKnow k).effective = db.effective := rfl

def claim? (db : MemoryDb) (c : ClaimId) : Option Claim := db.claims.find? fun r => r.id = c

def snapshot? (db : MemoryDb) (s : SnapshotId) : Option ConfigSnapshot :=
  db.snapshots.find? fun r => r.id = s

/-- The snapshot has a row in one of the states. -/
def inState (db : MemoryDb) (s : SnapshotId) (states : List ActivationState) : Bool :=
  (db.snapshot? s).any fun r => r.state ∈ states

/-- Write a snapshot row. -/
def setSnapshot (db : MemoryDb) (row : ConfigSnapshot) : MemoryDb :=
  { db with snapshots := db.snapshots.map fun r => if r.id = row.id then row else r }

/-- The claims with a pending head under a snapshot, by id. -/
def pendingClaimIds (db : MemoryDb) (s : SnapshotId) : List ClaimId :=
  ((db.claims.map (·.id)).dedup.filter fun c =>
    db.know.heads c s = some .pending).insertionSort (· ≤ ·)

/-- `_lease_live`. -/
def leaseLive (db : MemoryDb) (now : Nat) : Bool := db.head.leaseExpiresAt.any fun t => now < t

/-- `_tuple_ok`: the runner holds the slot for the candidate. -/
def tupleOk (db : MemoryDb) (now : Nat) (candidate : SnapshotId) (fence : Nat)
    (owner : String) : Bool :=
  db.head.activating = some candidate ∧ db.head.fence = fence ∧
    db.head.leaseOwner = some owner ∧ db.leaseLive now

/-- The slot as `_head_row` sees it: a draft whose lease has expired does not hold
it. -/
def heldSlot (db : MemoryDb) (now : Nat) : Option SnapshotId :=
  match db.head.activating with
  | none => none
  | some s =>
    if (db.snapshot? s).any (fun r => r.state = .draft) ∧
        db.head.leaseExpiresAt.any (fun t => t ≤ now) then none
    else some s

/-- Clear the slot and its lease. -/
def clearSlot (db : MemoryDb) : MemoryDb :=
  { db with head := { db.head with
    activating := none, leaseOwner := none, leaseExpiresAt := none } }

/-! ## Lookups -/

theorem claim?_id {db : MemoryDb} {c : ClaimId} {claim : Claim}
    (h : db.claim? c = some claim) : claim.id = c := by
  simpa using List.find?_some h

/-- Every head belongs to a claim row. -/
def HeadsHaveRows (db : MemoryDb) : Prop :=
  ∀ c s, db.know.heads c s ≠ none → (db.claim? c).isSome

theorem claim?_isSome_iff {db : MemoryDb} {c : ClaimId} :
    (db.claim? c).isSome ↔ c ∈ db.claims.map (·.id) := by
  simp [claim?, List.find?_isSome]

theorem mem_pendingClaimIds {db : MemoryDb} {s : SnapshotId} {c : ClaimId} :
    c ∈ db.pendingClaimIds s ↔
      c ∈ db.claims.map (·.id) ∧ db.know.heads c s = some .pending := by
  simp [pendingClaimIds]

theorem snapshot?_id {db : MemoryDb} {s : SnapshotId} {r : ConfigSnapshot}
    (h : db.snapshot? s = some r) : r.id = s := by
  simpa using List.find?_some h

/-- Reading a snapshot row after a write. -/
theorem snapshot?_setSnapshot (db : MemoryDb) (row : ConfigSnapshot) (s : SnapshotId) :
    (db.setSnapshot row).snapshot? s =
      if s = row.id then (db.snapshot? s).map fun _ => row else db.snapshot? s := by
  simp only [snapshot?, setSnapshot]
  induction db.snapshots with
  | nil => simp
  | cons r rest ih =>
    by_cases hs : s = row.id
    · subst hs
      by_cases hr : r.id = row.id
      · simp [hr]
      · simpa [hr, List.find?_cons] using ih
    · rw [if_neg hs] at ih ⊢
      by_cases hr : r.id = row.id
      · have hne : row.id ≠ s := Ne.symm hs
        have hne' : r.id ≠ s := by
          rw [hr]
          exact hne
        simpa [hr, List.find?_cons, hne, hne'] using ih
      · by_cases hrs : r.id = s
        · simp [hrs, hs]
        · simpa [hr, hrs, List.find?_cons] using ih

theorem setSnapshot_other {db : MemoryDb} {row : ConfigSnapshot} {s : SnapshotId}
    (hne : row.id ≠ s) : (db.setSnapshot row).snapshot? s = db.snapshot? s := by
  rw [snapshot?_setSnapshot, if_neg (Ne.symm hne)]

theorem setSnapshot_same {db : MemoryDb} {row c : ConfigSnapshot} {s : SnapshotId}
    (hid : row.id = s) (hc : db.snapshot? s = some c) :
    (db.setSnapshot row).snapshot? s = some row := by
  rw [snapshot?_setSnapshot, if_pos hid.symm, hc]
  rfl

end MemoryDb

end Noezema.Memory
