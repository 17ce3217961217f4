import Noezema.Gc.Unlink

/-! # Backups and the restore drill

`create_backup` writes the inventory of every artifact row, stores it as an object of its own
and puts a manifest over it. The drill reads the inventory back and checks what it lists. The
hash and JSON are parameters; what the drill finds on the host is an input.
-/

namespace Noezema.Backup

open Noezema.Lib Noezema.Artifacts Noezema.Gc

/-- An entry of an inventory document; `entry.get` may find no value. -/
structure InventoryEntry where
  id : Option Nat
  sha256 : Option String
  size : Option Nat
deriving DecidableEq, Repr

/-- `hashlib` and `json`. -/
structure Codec where
  sha256 : Sha256
  /-- `canonical_json_bytes` of an inventory. -/
  dumps : List InventoryEntry → Bytes
  /-- `json.loads`. -/
  loads : Bytes → Option (List InventoryEntry)

/-! ## `create_backup` -/

/-- `build_artifact_inventory`. -/
def buildArtifactInventory (rows : List Artifact) : List InventoryEntry :=
  rows.map fun a => ⟨some a.id, some a.sha256, some a.size⟩

/-- The inventory of a database. -/
def inventory (db : GcDb) : List InventoryEntry :=
  buildArtifactInventory (db.artifacts.insertionSort fun a b => a.id ≤ b.id)

/-- What a backup is created with: two uuids, the clock of the database, the moment on the
host's clock and the retention. -/
structure BackupRequest where
  artifactId : Nat
  manifestId : Nat
  clock : Nat
  moment : Nat
  retentionDays : Nat

/-- The row of the inventory document: the one that has its hash, or a new one. -/
def inventoryRow (db : GcDb) (sha : String) (size : Nat) (req : BackupRequest) :
    Artifact × List Artifact :=
  match db.artifacts.find? (fun a => a.sha256 = sha) with
  | some row => (row, db.artifacts)
  | none =>
    let row : Artifact := ⟨req.artifactId, sha, size, req.clock⟩
    (row, db.artifacts ++ [row])

/-- `create_backup`. -/
def createBackup (c : Codec) (db : GcDb) (store : ArtifactStore) (req : BackupRequest) :
    Except StoreError (GcDb × ArtifactStore × BackupManifest) := do
  let inventoryBytes := c.dumps (inventory db)
  let inventorySha := c.sha256 inventoryBytes
  let store ← store.put c.sha256 inventoryBytes
  let (row, artifacts) := inventoryRow db inventorySha inventoryBytes.length req
  let manifest : BackupManifest :=
    { id := req.manifestId
      artifactInventoryHash := inventorySha
      artifactInventoryArtifactId := some row.id
      retentionUntil := some (req.moment + days req.retentionDays)
      hasHostState := true }
  pure ({ db with
    artifacts := artifacts
    backupManifests := db.backupManifests ++ [manifest] }, store, manifest)

/-- No new row has the hash of another. -/
theorem inventoryRow_cases (db : GcDb) (sha : String) (size : Nat) (req : BackupRequest) :
    (inventoryRow db sha size req).2 = db.artifacts ∨
      ∃ row : Artifact, row.id = req.artifactId ∧ row.sha256 ∉ db.artifacts.map (·.sha256) ∧
        (inventoryRow db sha size req).2 = db.artifacts ++ [row] := by
  unfold inventoryRow
  split
  · exact .inl rfl
  · rename_i hnone
    refine .inr ⟨_, rfl, ?_, rfl⟩
    intro hmem
    obtain ⟨a, ha, hsha⟩ := List.mem_map.mp hmem
    exact List.find?_eq_none.mp hnone a ha (decide_eq_true hsha)

theorem createBackup_ok {c : Codec} {db db' : GcDb} {store store' : ArtifactStore}
    {req : BackupRequest} {m : BackupManifest}
    (h : createBackup c db store req = .ok (db', store', m)) :
    store.put c.sha256 (c.dumps (inventory db)) = .ok store' ∧
      m.artifactInventoryHash = c.sha256 (c.dumps (inventory db)) ∧
      (db'.artifacts = db.artifacts ∨ ∃ row : Artifact, row.id = req.artifactId ∧
        row.sha256 ∉ db.artifacts.map (·.sha256) ∧ db'.artifacts = db.artifacts ++ [row]) := by
  unfold createBackup at h
  obtain ⟨stored, hput, h⟩ := bind_eq_ok.mp h
  cases h
  exact ⟨hput, rfl, inventoryRow_cases db _ _ req⟩

/-! ## `run_restore_drill` -/

/-- What the drill reports; `host` is a problem of the policy files, the host contour or the
admission. -/
inductive Problem where
  | noHostState
  | missingInventoryHash
  | documentMissing (sha : String)
  | documentHashMismatch (sha : String)
  | documentNotJson (sha : String)
  | entryWithoutSha
  | hashMismatch (sha : String)
  | sizeMismatch (sha : String)
  | rowMissing (id : Nat)
  | drift (id : Nat)
  | host (text : String)
deriving DecidableEq, Repr

def Problem.text : Problem → String
  | .noHostState => "manifest_has_no_host_state (legacy row — fail-closed)"
  | .missingInventoryHash => "missing_artifact_inventory_hash"
  | .documentMissing sha => "inventory_document_missing:" ++ sha.take 12
  | .documentHashMismatch sha => "inventory_document_hash_mismatch:" ++ sha.take 12
  | .documentNotJson sha => "inventory_document_not_json:" ++ sha.take 12
  | .entryWithoutSha => "inventory_entry_without_sha"
  | .hashMismatch sha => "artifact_hash_mismatch:" ++ sha.take 12
  | .sizeMismatch sha => "artifact_size_mismatch:" ++ sha.take 12
  | .rowMissing id => "registry_row_missing:" ++ (toString id).take 8
  | .drift id => "registry_drift:" ++ (toString id).take 8
  | .host text => text

/-- The turn of one entry: an object that is not in the store is taken for one that only has
a row. -/
def verifyEntry (c : Codec) (store : ArtifactStore) (e : InventoryEntry) : List Problem :=
  let sha := e.sha256.getD ""
  if sha = "" then [.entryWithoutSha]
  else match store.get sha with
    | .ok blob =>
      if c.sha256 blob ≠ sha then [.hashMismatch sha]
      else if e.size.any (· ≠ blob.length) then [.sizeMismatch sha]
      else []
    | .error _ => []

/-- What `_verify_inventory` returns. -/
structure InventoryCheck where
  checked : Nat
  ok : Nat
  problems : List Problem
  document : Option (List InventoryEntry)

/-- `_verify_inventory`. -/
def verifyInventory (c : Codec) (store : ArtifactStore) (m : BackupManifest) :
    InventoryCheck :=
  let legacy := if m.hasHostState then [] else [Problem.noHostState]
  let sha := m.artifactInventoryHash
  if sha = "" then ⟨0, 0, legacy ++ [.missingInventoryHash], none⟩
  else match store.get sha with
    | .error _ => ⟨0, 0, legacy ++ [.documentMissing sha], none⟩
    | .ok data =>
      if c.sha256 data ≠ sha then ⟨0, 0, legacy ++ [.documentHashMismatch sha], none⟩
      else match c.loads data with
        | none => ⟨0, 0, legacy ++ [.documentNotJson sha], none⟩
        | some entries =>
          ⟨entries.length, entries.countP (fun e => verifyEntry c store e = []),
            legacy ++ entries.flatMap (verifyEntry c store), some entries⟩

/-- The turn of one entry in `_verify_db_registry`. -/
def verifyRow (artifacts : List Artifact) (e : InventoryEntry) : List Problem :=
  match e.id with
  | none => []
  | some id =>
    match artifacts.find? (fun a => a.id = id) with
    | none => [.rowMissing id]
    | some row => if row.sha256 ≠ e.sha256.getD "" then [.drift id] else []

/-- `_verify_db_registry`. -/
def verifyDbRegistry (artifacts : List Artifact) (entries : List InventoryEntry) :
    List Problem :=
  entries.flatMap (verifyRow artifacts)

/-- The manifests the drill draws from, `_pick_retained_backup`. -/
def isRetained (m : BackupManifest) (now : Nat) : Bool := m.retentionUntil.all (now < ·)

/-- `DrillReport`. -/
structure DrillReport where
  inventoryChecked : Nat
  inventoryOk : Nat
  problems : List Problem

/-- `outcome == "passed"`. -/
def DrillReport.passed (r : DrillReport) : Bool := r.problems = []

/-- `run_restore_drill`, of the manifest that is drawn. -/
def runRestoreDrill (c : Codec) (db : GcDb) (store : ArtifactStore) (m : BackupManifest)
    (host : List String) : DrillReport :=
  let check := verifyInventory c store m
  let registry := match check.document with
    | some entries => verifyDbRegistry db.artifacts entries
    | none => []
  ⟨check.checked, check.ok, check.problems ++ registry ++ host.map .host⟩

/-! ### What a passed drill has read -/

section Passed

variable {c : Codec} {db : GcDb} {store : ArtifactStore} {m : BackupManifest}

theorem verifyInventory_ok (h : (verifyInventory c store m).problems = []) :
    ∃ data entries, store.get m.artifactInventoryHash = .ok data ∧
      c.sha256 data = m.artifactInventoryHash ∧ c.loads data = some entries ∧
      (verifyInventory c store m).document = some entries ∧
      ∀ e ∈ entries, verifyEntry c store e = [] := by
  unfold verifyInventory at h ⊢
  dsimp only at h ⊢
  split at h
  · simp at h
  · rename_i hsha
    split at h
    · simp at h
    · rename_i data hdata
      split at h
      · simp at h
      · rename_i hhash
        split at h
        · simp at h
        · rename_i entries hloads
          have hentries := (List.append_eq_nil_iff.mp h).2
          refine ⟨data, entries, hdata, not_not.mp hhash, hloads, ?_, ?_⟩
          · simp [hsha, not_not.mp hhash]
          · exact List.flatMap_eq_nil_iff.mp hentries

/-- **A passed drill** has read the document and found nothing wrong with an entry. -/
theorem passed_reads {host : List String}
    (h : (runRestoreDrill c db store m host).passed) :
    ∃ data entries, store.get m.artifactInventoryHash = .ok data ∧
      c.sha256 data = m.artifactInventoryHash ∧ c.loads data = some entries ∧
      ∀ e ∈ entries, verifyEntry c store e = [] ∧ verifyRow db.artifacts e = [] := by
  have hnone := of_decide_eq_true h
  unfold runRestoreDrill at hnone
  simp only [List.append_eq_nil_iff] at hnone
  obtain ⟨⟨hcheck, hregistry⟩, -⟩ := hnone
  obtain ⟨data, entries, hdata, hhash, hloads, hdocument, hentries⟩ := verifyInventory_ok hcheck
  rw [hdocument] at hregistry
  refine ⟨data, entries, hdata, hhash, hloads, fun e he => ⟨hentries e he, ?_⟩⟩
  exact List.flatMap_eq_nil_iff.mp hregistry e he

/-- The object of an entry with nothing wrong is the recorded one. -/
theorem verifyEntry_ok {id : Option Nat} {sha : String} {size : Nat} {blob : Bytes}
    (h : verifyEntry c store ⟨id, some sha, some size⟩ = []) (hblob : store.get sha = .ok blob) :
    c.sha256 blob = sha ∧ blob.length = size := by
  simp only [verifyEntry, Option.getD_some, hblob] at h
  split at h
  · cases h
  · by_cases hhash : c.sha256 blob = sha
    · by_cases hsize : size = blob.length
      · exact ⟨hhash, hsize.symm⟩
      · simp [hhash, hsize] at h
    · simp [hhash] at h

theorem verifyRow_ok {artifacts : List Artifact} {id : Nat} {sha : Option String}
    {size : Option Nat} (h : verifyRow artifacts ⟨some id, sha, size⟩ = []) :
    ∃ row ∈ artifacts, row.id = id := by
  simp only [verifyRow] at h
  split at h
  · cases h
  · rename_i row hrow
    have hid := List.find?_some hrow
    exact ⟨row, List.mem_of_find?_eq_some hrow, of_decide_eq_true hid⟩

end Passed

end Noezema.Backup
