import Mathlib.Data.List.Dedup
import Noezema.Commit.Session
import Noezema.Lib.Except
import Noezema.Lib.References
import Noezema.Memory.Cascade
import Noezema.Memory.Runtime

/-! # The tables a sweep reads

The registry rows the garbage collector deletes, and every row that names one of them, with
the foreign keys of the migrations. A uuid is a number, its text `toString`; `Key` is a row
by its table and id.
-/

namespace Noezema.Gc

open Noezema.Lib

/-- The tables of the sweep. -/
inductive Table where
  | sessions | workspaceManifests | workspaceEntries | commitAttempts | checkpoints
  | modelRuns | actions | artifacts | artifactChunks | evidence | operatorAttestations
  | environmentManifests | sourceGraphEdges | sourceGraphCorrections | backupManifests
  | closureManifests | dependencyInvalidationBarriers
deriving DecidableEq, Repr

abbrev Key := Table × Nat

/-! ## Rows -/

/-- A row of `artifacts`. -/
structure Artifact where
  id : Nat
  sha256 : String
  size : Nat
  createdAt : Nat
deriving DecidableEq

/-- A row of `sessions`. -/
structure Session where
  id : Nat
  state : Commit.SessionState
  commitAttemptId : Option Nat
  baseWorkspaceManifestId : Option Nat
  committedWorkspaceManifestId : Option Nat
deriving DecidableEq

/-- A row of `workspace_manifests`. -/
structure WorkspaceManifest where
  id : Nat
  sessionId : Option Nat
  frozenAt : Nat
deriving DecidableEq

/-- A row of `commit_attempts`. -/
structure CommitAttempt where
  id : Nat
  sessionId : Nat
  status : Commit.AttemptStatus
  workspaceManifestId : Option Nat
  finishedAt : Option Nat
deriving DecidableEq

/-- A row of `checkpoints`. -/
structure Checkpoint where
  id : Nat
  sessionId : Nat
  workspaceManifestId : Option Nat
deriving DecidableEq

/-- A row of `model_runs`. -/
structure ModelRun where
  id : Nat
  contextManifestArtifactId : Option Nat
  rawResponseArtifactId : Option Nat
deriving DecidableEq

/-- A row that names at most one artifact: an action by its result, an evidence row by its
observation, an attestation by what supports it, an environment by its manifest, an edge
and a correction of the source graph by their basis. -/
structure Holder where
  id : Nat
  artifactId : Option Nat
deriving DecidableEq

/-- A row of `workspace_entries` or of `artifact_chunks`, with the row it is a part of. -/
structure Part where
  id : Nat
  wholeId : Nat
deriving DecidableEq

/-- A row of `backup_manifests`. -/
structure BackupManifest where
  id : Nat
  artifactInventoryHash : String
  artifactInventoryArtifactId : Option Nat
  retentionUntil : Option Nat
  hasHostState : Bool
deriving DecidableEq

/-- A row of `counterevidence_resolutions`. -/
structure Resolution where
  evidenceId : Nat
  basisEvidenceId : Option Nat
deriving DecidableEq

/-- A row of `dependency_invalidation_barriers`. -/
structure Barrier where
  id : Nat
  status : Memory.BarrierStatus
  resolvedAt : Option Nat
  closureManifestId : Option Nat
deriving DecidableEq

/-- A row of `config_snapshots`. -/
structure ConfigAttempt where
  id : Nat
  activationState : Memory.ActivationState
  createdAt : Nat
deriving DecidableEq

/-- A row of `gc_pinned`. -/
structure Pin where
  kind : String
  objectId : String
deriving DecidableEq

structure GcDb where
  sessions : List Session
  workspaceManifests : List WorkspaceManifest
  workspaceEntries : List Part
  commitAttempts : List CommitAttempt
  checkpoints : List Checkpoint
  modelRuns : List ModelRun
  actions : List Holder
  artifacts : List Artifact
  artifactChunks : List Part
  evidence : List Holder
  operatorAttestations : List Holder
  environmentManifests : List Holder
  sourceGraphEdges : List Holder
  sourceGraphCorrections : List Holder
  backupManifests : List BackupManifest
  resolutions : List Resolution
  closureManifests : List Nat
  barriers : List Barrier
  configSnapshots : List ConfigAttempt
  pinned : List Pin

/-! ## Keys and references -/

/-- The references of one foreign key. -/
def column {α : Type*} (table : Table) (rows : List α) (id : α → Nat)
    (value : α → Option Nat) (target : Table) (onDelete : OnDelete) : List (Reference Key) :=
  rows.filterMap fun r => (value r).map fun t => ⟨(table, id r), (target, t), onDelete⟩

theorem mem_column {α : Type*} {table : Table} {rows : List α} {id : α → Nat}
    {value : α → Option Nat} {target : Table} {onDelete : OnDelete} {r : Reference Key} :
    r ∈ column table rows id value target onDelete ↔
      ∃ x ∈ rows, ∃ t, value x = some t ∧ r = ⟨(table, id x), (target, t), onDelete⟩ := by
  unfold column
  rw [List.mem_filterMap]
  constructor
  · intro ⟨x, hx, h⟩
    obtain ⟨t, ht, rfl⟩ := Option.map_eq_some_iff.mp h
    exact ⟨x, hx, t, ht, rfl⟩
  · intro ⟨x, hx, t, ht, heq⟩
    exact ⟨x, hx, Option.map_eq_some_iff.mpr ⟨t, ht, heq.symm⟩⟩

namespace GcDb

/-- The ids of a table. -/
def ids (db : GcDb) : Table → List Nat
  | .sessions => db.sessions.map (·.id)
  | .workspaceManifests => db.workspaceManifests.map (·.id)
  | .workspaceEntries => db.workspaceEntries.map (·.id)
  | .commitAttempts => db.commitAttempts.map (·.id)
  | .checkpoints => db.checkpoints.map (·.id)
  | .modelRuns => db.modelRuns.map (·.id)
  | .actions => db.actions.map (·.id)
  | .artifacts => db.artifacts.map (·.id)
  | .artifactChunks => db.artifactChunks.map (·.id)
  | .evidence => db.evidence.map (·.id)
  | .operatorAttestations => db.operatorAttestations.map (·.id)
  | .environmentManifests => db.environmentManifests.map (·.id)
  | .sourceGraphEdges => db.sourceGraphEdges.map (·.id)
  | .sourceGraphCorrections => db.sourceGraphCorrections.map (·.id)
  | .backupManifests => db.backupManifests.map (·.id)
  | .closureManifests => db.closureManifests
  | .dependencyInvalidationBarriers => db.barriers.map (·.id)

/-- The columns whose rows restrict a DELETE. -/
def restricting (db : GcDb) : List (Reference Key) :=
  column .sessions db.sessions (·.id) (·.commitAttemptId) .commitAttempts .noAction ++
  column .sessions db.sessions (·.id) (·.baseWorkspaceManifestId) .workspaceManifests
    .noAction ++
  column .sessions db.sessions (·.id) (·.committedWorkspaceManifestId) .workspaceManifests
    .noAction ++
  column .commitAttempts db.commitAttempts (·.id) (·.workspaceManifestId) .workspaceManifests
    .noAction ++
  column .modelRuns db.modelRuns (·.id) (·.contextManifestArtifactId) .artifacts .noAction ++
  column .modelRuns db.modelRuns (·.id) (·.rawResponseArtifactId) .artifacts .noAction ++
  column .actions db.actions (·.id) (·.artifactId) .artifacts .noAction ++
  column .dependencyInvalidationBarriers db.barriers (·.id) (·.closureManifestId)
    .closureManifests .noAction

/-- The columns that a DELETE clears. -/
def clearing (db : GcDb) : List (Reference Key) :=
  column .checkpoints db.checkpoints (·.id) (·.workspaceManifestId) .workspaceManifests
    .setNull ++
  column .evidence db.evidence (·.id) (·.artifactId) .artifacts .setNull ++
  column .operatorAttestations db.operatorAttestations (·.id) (·.artifactId) .artifacts
    .setNull ++
  column .environmentManifests db.environmentManifests (·.id) (·.artifactId) .artifacts
    .setNull ++
  column .sourceGraphEdges db.sourceGraphEdges (·.id) (·.artifactId) .artifacts .setNull ++
  column .sourceGraphCorrections db.sourceGraphCorrections (·.id) (·.artifactId) .artifacts
    .setNull ++
  column .backupManifests db.backupManifests (·.id) (·.artifactInventoryArtifactId) .artifacts
    .setNull

/-- The columns of the parts, which go with their whole. -/
def cascading (db : GcDb) : List (Reference Key) :=
  column .workspaceEntries db.workspaceEntries (·.id) (fun e => some e.wholeId)
    .workspaceManifests .cascade ++
  column .artifactChunks db.artifactChunks (·.id) (fun c => some c.wholeId) .artifacts .cascade

/-- **The foreign keys** into the tables the sweep deletes from. -/
def references (db : GcDb) : List (Reference Key) :=
  db.restricting ++ db.clearing ++ db.cascading

/-! ## DELETE -/

/-- `SET NULL`. -/
def setNull (doomed : List Key) (table : Table) (value : Option Nat) : Option Nat :=
  value.filter fun t => (table, t) ∉ doomed

/-- The tables without the rows, their parts, and the columns that named them. -/
def without (db : GcDb) (doomed : List Key) : GcDb :=
  { db with
    workspaceManifests := db.workspaceManifests.filter fun m =>
      (.workspaceManifests, m.id) ∉ doomed
    workspaceEntries := db.workspaceEntries.filter fun e =>
      (.workspaceManifests, e.wholeId) ∉ doomed
    commitAttempts := db.commitAttempts.filter fun a => (.commitAttempts, a.id) ∉ doomed
    checkpoints := db.checkpoints.map fun c => { c with
      workspaceManifestId := setNull doomed .workspaceManifests c.workspaceManifestId }
    artifacts := db.artifacts.filter fun a => (.artifacts, a.id) ∉ doomed
    artifactChunks := db.artifactChunks.filter fun c => (.artifacts, c.wholeId) ∉ doomed
    evidence := db.evidence.map fun e => { e with
      artifactId := setNull doomed .artifacts e.artifactId }
    operatorAttestations := db.operatorAttestations.map fun a => { a with
      artifactId := setNull doomed .artifacts a.artifactId }
    environmentManifests := db.environmentManifests.map fun m => { m with
      artifactId := setNull doomed .artifacts m.artifactId }
    sourceGraphEdges := db.sourceGraphEdges.map fun e => { e with
      artifactId := setNull doomed .artifacts e.artifactId }
    sourceGraphCorrections := db.sourceGraphCorrections.map fun c => { c with
      artifactId := setNull doomed .artifacts c.artifactId }
    backupManifests := db.backupManifests.map fun b => { b with
      artifactInventoryArtifactId := setNull doomed .artifacts b.artifactInventoryArtifactId }
    closureManifests := db.closureManifests.filter fun m => (.closureManifests, m) ∉ doomed
    barriers := db.barriers.filter fun b => (.dependencyInvalidationBarriers, b.id) ∉ doomed }

/-- `ForeignKeyViolation`. -/
inductive SweepError where
  | foreignKey
deriving DecidableEq, Repr

/-- `DELETE FROM table WHERE id = ANY(:ids)`. -/
def deleteRows (db : GcDb) (table : Table) (ids : List Nat) : Except SweepError GcDb := do
  require (¬ Refuses db.references (ids.map fun i => (table, i))) .foreignKey
  pure (db.without (ids.map fun i => (table, i)))

end GcDb

end Noezema.Gc
