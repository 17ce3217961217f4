import Noezema.Backup.Service
import Noezema.Lib.Run

/-! # Histories of backups and sweeps

Artifacts are written, backups taken, sweeps commit or fail, the store loses objects, and the
rest of the database does as it likes. A uuid is drawn once.
-/

namespace Noezema.Backup

open Noezema.Lib Noezema.Artifacts Noezema.Gc

/-- A backup when it was taken: its manifest, the rows its inventory lists, and the store. -/
structure TakenBackup where
  manifest : BackupManifest
  rows : List Artifact
  store : ArtifactStore

structure World where
  db : GcDb
  store : ArtifactStore
  /-- The backups taken so far. -/
  taken : List TakenBackup
  /-- The uuids of artifacts drawn so far. -/
  issued : List Nat

/-- What happens; every clock is an input of its event. -/
inductive Event where
  /-- Bytes go into the store. -/
  | put (data : Bytes)
  /-- A row is written, if no row has its hash. -/
  | register (id : Nat) (sha : String) (size : Nat) (clock : Nat)
  | backup (req : BackupRequest)
  /-- `run_gc(apply=True)`, which commits. -/
  | sweep (now : Nat) (rows : List Artifact) (unlinks : String → Bool)
  /-- `run_gc(apply=True)`, which fails and is rolled back. -/
  | failedSweep (now : Nat) (rows : List Artifact) (unlinks : String → Bool)
      (failure : Option Failure)
  /-- The store loses an object, or holds something else in its place. -/
  | lose (sha : String) (left : Option Bytes)
  /-- Whatever else is written, the artifacts and the manifests apart. -/
  | activity (db : GcDb)

/-- The clock of a sweep. -/
def Event.sweepsAt : Event → Option Nat
  | .sweep now _ _ => some now
  | .failedSweep now _ _ _ => some now
  | _ => none

variable (c : Codec)

/-- The bytes an event brings to the store. -/
def Event.brings (w : World) : Event → List Bytes
  | .put data => [data]
  | .backup _ => [c.dumps (inventory w.db)]
  | .lose _ left => left.toList
  | _ => []

/-- A sweep, with the outcome it must have. -/
def World.sweep (w : World) (now : Nat) (rows : List Artifact) (unlinks : String → Bool)
    (failure : Option Failure) (committed : Bool) : Option World :=
  if h : rows.Perm
      (w.db.artifacts.filter fun a => a.id ∈ (w.db.listGcRoots now).candidateArtifacts) then
    let out := runGc w.db w.store now ⟨rows, unlinks, h⟩ failure
    if out.committed = committed then some { w with db := out.db, store := out.store } else none
  else none

theorem World.sweep_of {w : World} {now : Nat} (loop : Unlinking w.db now)
    {failure : Option Failure} {committed : Bool}
    (h : (runGc w.db w.store now loop failure).committed = committed) :
    w.sweep now loop.rows loop.unlinks failure committed = some { w with
      db := (runGc w.db w.store now loop failure).db
      store := (runGc w.db w.store now loop failure).store } := by
  unfold World.sweep
  rw [dif_pos loop.selected]
  exact if_pos h

/-- What a sweep step does. -/
theorem World.sweep_some {w w' : World} {now : Nat} {rows : List Artifact}
    {unlinks : String → Bool} {failure : Option Failure} {committed : Bool}
    (h : w.sweep now rows unlinks failure committed = some w') :
    ∃ loop : Unlinking w.db now, loop.unlinks = unlinks ∧
      (runGc w.db w.store now loop failure).committed = committed ∧
      w' = { w with
        db := (runGc w.db w.store now loop failure).db
        store := (runGc w.db w.store now loop failure).store } := by
  unfold World.sweep at h
  split at h
  · rename_i hselected
    dsimp only at h
    split at h
    · rename_i hcommitted
      exact ⟨⟨rows, unlinks, hselected⟩, rfl, hcommitted, (Option.some.inj h).symm⟩
    · cases h
  · cases h

def step (w : World) : Event → Option World
  | .put data =>
    match w.store.put c.sha256 data with
    | .ok store => some { w with store := store }
    | .error _ => none
  | .register id sha size clock =>
    if id ∉ w.issued ∧ sha ∉ w.db.artifacts.map (·.sha256) then
      some { w with
        db := { w.db with artifacts := w.db.artifacts ++ [⟨id, sha, size, clock⟩] }
        issued := id :: w.issued }
    else none
  | .backup req =>
    if req.artifactId ∉ w.issued then
      match createBackup c w.db w.store req with
      | .ok (db, store, manifest) =>
        some ⟨db, store, w.taken ++ [⟨manifest, w.db.artifacts, w.store⟩],
          req.artifactId :: w.issued⟩
      | .error _ => none
    else none
  | .sweep now rows unlinks => w.sweep now rows unlinks none true
  | .failedSweep now rows unlinks failure => w.sweep now rows unlinks failure false
  | .lose sha left => some { w with store := Function.update w.store sha left }
  | .activity db =>
    if db.artifacts = w.db.artifacts ∧ db.backupManifests = w.db.backupManifests then
      some { w with db := db }
    else none

/-- A database without artifacts over an empty store. -/
def World.Fresh (w : World) : Prop :=
  w.db.artifacts = [] ∧ w.db.backupManifests = [] ∧ w.taken = [] ∧ ∀ sha, w.store sha = none

end Noezema.Backup
