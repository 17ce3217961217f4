import Mathlib.Data.List.Sort
import Noezema.Gc.Tables

/-! # The sweep

`list_gc_roots` and the deletes of `run_gc`. Times are in seconds, `now` is that of the
transaction.
-/

namespace Noezema.Gc

open Noezema.Lib

/-- The interval of some days. -/
def days (n : Nat) : Nat := n * 86400

/-- `DEFAULT_WORKSPACE_RETENTION_DAYS`. -/
def workspaceRetentionDays : Nat := 14

/-- `DEFAULT_ARTIFACT_RETENTION_DAYS`. -/
def artifactRetentionDays : Nat := 30

/-- `DEFAULT_TERMINAL_CONFIG_ATTEMPT_RETENTION_DAYS`. -/
def terminalConfigAttemptRetentionDays : Nat := 30

/-- `DEFAULT_RESOLVED_BARRIER_RETENTION_DAYS`. -/
def resolvedBarrierRetentionDays : Nat := 30

/-- `DEFAULT_TERMINAL_ATTEMPT_RETENTION_DAYS`. -/
def terminalAttemptRetentionDays : Nat := 30

/-- `ACTIVE_BARRIER_STATUSES`. -/
def isActiveBarrier : Memory.BarrierStatus → Bool
  | .discovering | .active | .closing => true
  | .resolved | .blocked => false

/-- `TERMINAL_CONFIG_ATTEMPT_STATES`. -/
def isTerminalConfigAttempt : Memory.ActivationState → Bool
  | .failed | .superseded => true
  | _ => false

namespace GcDb

/-! ## The root set -/

/-- The artifacts the live rows name. -/
def namedArtifacts (db : GcDb) : List Nat :=
  db.evidence.filterMap (·.artifactId) ++ db.operatorAttestations.filterMap (·.artifactId) ++
    db.environmentManifests.filterMap (·.artifactId) ++
    db.sourceGraphCorrections.filterMap (·.artifactId) ++
    db.backupManifests.filterMap (·.artifactInventoryArtifactId)

/-- The attempt of the session is unresolved. -/
def hasUnresolvedAttempt (db : GcDb) (session : Nat) : Bool :=
  db.commitAttempts.any fun a => a.sessionId = session ∧ a.status.isUnresolved

/-- The observation of an evidence row. -/
def observation (db : GcDb) (evidence : Nat) : List Nat :=
  (db.evidence.filter fun e => e.id = evidence).filterMap (·.artifactId)

/-- `_root_set_sql`, with the ids of all its parts. -/
def rootSet (db : GcDb) (now : Nat) : List Nat :=
  -- (1) live references
  (db.artifacts.map (·.id)).filter (· ∈ db.namedArtifacts) ++
  -- (2) backups in their window
  (db.artifacts.map (·.id)).filter (fun a => db.backupManifests.any fun b =>
    b.artifactInventoryArtifactId = some a ∧ b.retentionUntil.all (now < ·)) ++
  -- (4) unresolved attempts
  ((db.checkpoints.filter fun c => db.hasUnresolvedAttempt c.sessionId).map (·.id)) ++
  -- (5) resolutions
  (db.resolutions.flatMap fun r => (r.basisEvidenceId.toList).flatMap db.observation) ++
  (db.resolutions.flatMap fun r => db.observation r.evidenceId) ++
  -- (6) closure manifests of barriers
  db.closureManifests.filter fun m => db.barriers.any fun b =>
    b.closureManifestId = some m ∧ (isActiveBarrier b.status ∨ (b.status = .resolved ∧
      b.resolvedAt.any (now < · + days resolvedBarrierRetentionDays)))

/-! ## The candidates -/

def isPinned (db : GcDb) (kind : String) (id : Nat) : Bool :=
  db.pinned.any fun p => p.kind = kind ∧ p.objectId = toString id

/-- The reconciling sessions. -/
def isProtected (db : GcDb) (session : Nat) : Bool :=
  db.sessions.any fun s => s.id = session ∧ s.state = .reconcilingCommit

def isCandidateArtifact (db : GcDb) (now : Nat) (a : Artifact) : Bool :=
  a.id ∉ db.rootSet now ∧ ¬ db.isPinned "artifact" a.id ∧
    a.createdAt + days artifactRetentionDays < now

def isCandidateManifest (db : GcDb) (now : Nat) (m : WorkspaceManifest) : Bool :=
  m.frozenAt + days workspaceRetentionDays < now ∧
    m.sessionId.all (fun s => ¬ db.isProtected s) ∧
    ¬ (db.commitAttempts.any fun a =>
      a.workspaceManifestId = some m.id ∧ a.status.isUnresolved) ∧
    ¬ (db.checkpoints.any fun c =>
      c.workspaceManifestId = some m.id ∧ ¬ db.isProtected c.sessionId) ∧
    ¬ db.isPinned "workspace_manifest" m.id

def isCandidateAttempt (db : GcDb) (now : Nat) (a : CommitAttempt) : Bool :=
  ¬ a.status.isUnresolved ∧ a.finishedAt.any (· + days terminalAttemptRetentionDays < now) ∧
    ¬ db.isProtected a.sessionId

def isCandidateBarrier (now : Nat) (b : Barrier) : Bool :=
  b.status = .resolved ∧ b.resolvedAt.any (· + days resolvedBarrierRetentionDays < now)

/-- What `list_gc_roots` returns. -/
structure Plan where
  reconcilingSessions : List Nat
  rootArtifactCount : Nat
  candidateArtifacts : List Nat
  candidateWorkspaceManifests : List Nat
  candidateTerminalAttempts : List Nat
  expiredTerminalConfigAttempts : List Nat
  candidateResolvedBarriers : List Nat
  expiredBackupManifests : List Nat

/-- `list_gc_roots`. -/
def listGcRoots (db : GcDb) (now : Nat) : Plan where
  reconcilingSessions := (db.sessions.filter fun s => s.state = .reconcilingCommit).map (·.id)
  rootArtifactCount := (db.rootSet now).dedup.length
  candidateArtifacts := ((db.artifacts.filter (db.isCandidateArtifact now)).insertionSort
    fun a b => a.createdAt < b.createdAt ∨
      (a.createdAt = b.createdAt ∧ a.id ≤ b.id)).map (·.id)
  candidateWorkspaceManifests := ((db.workspaceManifests.filter
    (db.isCandidateManifest now)).insertionSort fun a b => a.frozenAt ≤ b.frozenAt).map (·.id)
  candidateTerminalAttempts := ((db.commitAttempts.filter
    (db.isCandidateAttempt now)).insertionSort
    fun a b => a.finishedAt.getD 0 ≤ b.finishedAt.getD 0).map (·.id)
  expiredTerminalConfigAttempts := ((db.configSnapshots.filter fun c =>
      isTerminalConfigAttempt c.activationState ∧
        c.createdAt + days terminalConfigAttemptRetentionDays < now).insertionSort
    fun a b => a.createdAt ≤ b.createdAt).map (·.id)
  candidateResolvedBarriers := ((db.barriers.filter (isCandidateBarrier now)).insertionSort
    fun a b => a.resolvedAt.getD 0 ≤ b.resolvedAt.getD 0).map (·.id)
  expiredBackupManifests := ((db.backupManifests.filter fun b =>
      b.retentionUntil.any (· ≤ now)).insertionSort
    fun a b => a.retentionUntil.getD 0 ≤ b.retentionUntil.getD 0).map (·.id)

/-! ## The deletes -/

/-- What `run_gc` counts; a count it does not make is `none`. -/
structure Deleted where
  artifacts : Option Nat
  commitAttempts : Option Nat
  resolvedBarriers : Option Nat
  workspaceManifests : Option Nat
deriving DecidableEq, Repr

/-- A DELETE the sweep makes only if it has candidates. -/
def deleteCandidates (db : GcDb) (table : Table) (ids : List Nat) :
    Except SweepError (GcDb × Option Nat) :=
  if ids = [] then .ok (db, none)
  else do
    let db' ← db.deleteRows table ids
    pure (db', some ids.length)

/-- The closure manifests without a barrier. -/
def orphanClosures (db : GcDb) : List Nat :=
  db.closureManifests.filter fun m => ¬ db.barriers.any fun b => b.closureManifestId = some m

/-- The DELETE of the closure manifests, which only a sweep of barriers makes. -/
def deleteOrphanClosures (db : GcDb) (barriers : Option Nat) : Except SweepError GcDb :=
  if barriers.isSome then db.deleteRows .closureManifests db.orphanClosures else .ok db

/-- The deletes of `run_gc(apply=True)`. -/
def sweep (db : GcDb) (now : Nat) : Except SweepError (GcDb × Deleted) := do
  let plan := db.listGcRoots now
  let (db, artifacts) ← db.deleteCandidates .artifacts plan.candidateArtifacts
  let (db, attempts) ← db.deleteCandidates .commitAttempts plan.candidateTerminalAttempts
  let (db, barriers) ← db.deleteCandidates .dependencyInvalidationBarriers
    plan.candidateResolvedBarriers
  let db ← db.deleteOrphanClosures barriers
  let (db, manifests) ← db.deleteCandidates .workspaceManifests plan.candidateWorkspaceManifests
  pure (db, ⟨artifacts, attempts, barriers, manifests⟩)

end GcDb

end Noezema.Gc
