import Noezema.Artifacts.Store
import Noezema.Gc.Referential

/-! # The objects of a sweep

The sweep unlinks the objects of its candidates before its deletes, in a transaction of the
caller. A failure takes the deletes back; the objects stay away.
-/

namespace Noezema.Gc

open Noezema.Lib Noezema.Artifacts

/-! ## `run_gc` -/

/-- How the loop over the candidates goes: the order in which the rows come, and the objects
whose unlink succeeds, since the loop suppresses its errors. -/
structure Unlinking (db : GcDb) (now : Nat) where
  rows : List Artifact
  unlinks : String → Bool
  selected : rows.Perm
    (db.artifacts.filter fun a => a.id ∈ (db.listGcRoots now).candidateArtifacts)

/-- One turn of the loop. -/
def unlinkRow (unlinks : String → Bool) (store : ArtifactStore) (a : Artifact) :
    ArtifactStore :=
  if store.isPresent a.sha256 ∧ unlinks a.sha256 then store.remove a.sha256 else store

def unlinkRows (unlinks : String → Bool) (store : ArtifactStore) (rows : List Artifact) :
    ArtifactStore :=
  rows.foldl (unlinkRow unlinks) store

/-- Where something fails that the sweep itself does not decide. -/
inductive Failure where
  /-- A crash in the loop, after some rows. -/
  | unlinking (rows : Nat)
  /-- A statement after it, the audit, the commit, or a crash before it. -/
  | finishing
deriving DecidableEq, Repr

/-- What a sweep leaves behind. -/
structure Outcome where
  committed : Bool
  db : GcDb
  store : ArtifactStore

variable {db : GcDb} {now : Nat}

/-- The rows whose turn comes. -/
def Unlinking.reached (loop : Unlinking db now) : Option Failure → List Artifact
  | some (.unlinking n) => loop.rows.take n
  | _ => loop.rows

/-- **`run_gc(apply=True)` in `transaction(db)`**: what fails is rolled back. -/
def runGc (db : GcDb) (store : ArtifactStore) (now : Nat) (loop : Unlinking db now)
    (failure : Option Failure) : Outcome :=
  let store' := unlinkRows loop.unlinks store (loop.reached failure)
  match failure, db.sweep now with
  | none, .ok (db', _) => ⟨true, db', store'⟩
  | _, _ => ⟨false, db, store'⟩

/-- The rows of the outcome have the objects they had. -/
def KeepsBytes (store : ArtifactStore) (out : Outcome) : Prop :=
  ∀ a ∈ out.db.artifacts, ∀ data, store.get a.sha256 = .ok data →
    out.store.get a.sha256 = .ok data

/-! ## What the loop removes -/

theorem unlinkRow_eq (unlinks : String → Bool) (store : ArtifactStore) (a : Artifact) :
    unlinkRow unlinks store a =
      if isSha256 a.sha256 && unlinks a.sha256 then store.remove a.sha256 else store := by
  unfold unlinkRow
  by_cases hname : isSha256 a.sha256
  · by_cases hu : unlinks a.sha256
    · cases hobject : store a.sha256 with
      | none => simp [ArtifactStore.isPresent, hobject, Objects.remove_of_none hobject]
      | some data => simp [ArtifactStore.isPresent, hname, hu, hobject]
    · simp [hu]
  · simp [ArtifactStore.isPresent, hname]

theorem unlinkRows_eq (unlinks : String → Bool) (store : ArtifactStore)
    (rows : List Artifact) : unlinkRows unlinks store rows =
      store.removeAll (fun sha => isSha256 sha && unlinks sha) (rows.map (·.sha256)) := by
  unfold unlinkRows Objects.removeAll
  rw [List.foldl_map]
  congr 1
  funext store a
  exact unlinkRow_eq unlinks store a

/-- An object is still there unless its row came and its unlink succeeded. -/
theorem get_unlinkRows {unlinks : String → Bool} {store : ArtifactStore}
    {rows : List Artifact} {sha : String} {data : Bytes} :
    (unlinkRows unlinks store rows).get sha = .ok data ↔
      store.get sha = .ok data ∧ ¬ (sha ∈ rows.map (·.sha256) ∧ unlinks sha) := by
  rw [ArtifactStore.get_eq_ok, ArtifactStore.get_eq_ok, unlinkRows_eq, Objects.removeAll_apply]
  by_cases hname : isSha256 sha
  · by_cases hgone : sha ∈ rows.map (·.sha256) ∧ unlinks sha
    · simp only [hname, hgone, Bool.and_self, and_self, if_true, true_and, not_true_eq_false,
        and_false, reduceCtorEq]
    · have hstays : ¬ (sha ∈ rows.map (·.sha256) ∧ (isSha256 sha && unlinks sha) = true) := by
        simpa [hname] using hgone
      rw [if_neg hstays]
      exact ⟨fun h => ⟨h, hgone⟩, And.left⟩
  · simp [hname]

theorem runGc_failed {store : ArtifactStore} {loop : Unlinking db now}
    {failure : Option Failure} (h : (runGc db store now loop failure).committed = false) :
    (runGc db store now loop failure).db = db := by
  unfold runGc at h ⊢
  split at h
  · cases h
  · rfl

theorem runGc_committed {store : ArtifactStore} {loop : Unlinking db now}
    {failure : Option Failure} (h : (runGc db store now loop failure).committed = true) :
    ∃ n, db.sweep now = .ok ((runGc db store now loop failure).db, n) := by
  unfold runGc at h ⊢
  split at h
  · rename_i db' n hsweep
    exact ⟨n, hsweep⟩
  · cases h

theorem runGc_store (db : GcDb) (store : ArtifactStore) (now : Nat) (loop : Unlinking db now)
    (failure : Option Failure) : (runGc db store now loop failure).store =
      unlinkRows loop.unlinks store (loop.reached failure) := by
  unfold runGc
  dsimp only
  split <;> rfl

theorem Unlinking.mem_rows (loop : Unlinking db now) {a : Artifact} :
    a ∈ loop.rows ↔ a ∈ db.artifacts ∧ db.Collects now (.artifacts, a.id) := by
  rw [loop.selected.mem_iff, List.mem_filter, decide_eq_true_eq]
  exact and_congr_right fun _ => mem_candidates

theorem Unlinking.mem_reached (loop : Unlinking db now) {failure : Option Failure}
    {a : Artifact} (h : a ∈ loop.reached failure) : a ∈ loop.rows := by
  unfold reached at h
  split at h
  · exact List.mem_of_mem_take h
  · exact h

/-! ## What a sweep that commits leaves -/

theorem setNull_self {doomed : List Key} {table : Table} {value : Option Nat}
    (h : ∀ i, value = some i → (table, i) ∉ doomed) :
    GcDb.setNull doomed table value = value := by
  cases value with
  | none => rfl
  | some i => exact Option.filter_some_pos (decide_eq_true (h i rfl))

/-- A backup whose document stays is as it was. -/
theorem inventory_kept {doomed : List Key} {backups : List BackupManifest}
    (h : ∀ b ∈ backups, ∀ i, b.artifactInventoryArtifactId = some i →
      (Table.artifacts, i) ∉ doomed) :
    (backups.map fun b => { b with
      artifactInventoryArtifactId :=
        GcDb.setNull doomed .artifacts b.artifactInventoryArtifactId }) = backups := by
  refine (List.map_congr_left fun b hb => ?_).trans (List.map_id' backups)
  rw [setNull_self (h b hb)]

/-- A DELETE from another table leaves the artifacts and the backups. -/
theorem deleteRows_elsewhere {table : Table} {ids : List Nat} {db' : GcDb}
    (ht : table ≠ .artifacts) (h : db.deleteRows table ids = .ok db') :
    db'.artifacts = db.artifacts ∧ db'.backupManifests = db.backupManifests := by
  obtain ⟨-, -, h⟩ := bind_eq_ok.mp h
  cases h
  have hout : ∀ i, ((.artifacts, i) : Key) ∉ keys table ids := by
    intro i hi
    exact ht (mem_keys.mp hi).1.symm
  constructor
  · exact List.filter_eq_self.mpr fun a _ => decide_eq_true (hout a.id)
  · exact inventory_kept fun _ _ i _ => hout i

theorem deleteCandidates_elsewhere {table : Table} {ids : List Nat} {db' : GcDb}
    {n : Option Nat} (ht : table ≠ .artifacts)
    (h : db.deleteCandidates table ids = .ok (db', n)) :
    db'.artifacts = db.artifacts ∧ db'.backupManifests = db.backupManifests := by
  unfold GcDb.deleteCandidates at h
  split at h
  · cases h
    exact ⟨rfl, rfl⟩
  · obtain ⟨u, hu, h⟩ := bind_eq_ok.mp h
    cases h
    exact deleteRows_elsewhere ht hu

/-- The DELETE of artifacts no backup names leaves the backups. -/
theorem deleteCandidates_artifacts {ids : List Nat} {db' : GcDb} {n : Option Nat}
    (hfree : ∀ b ∈ db.backupManifests, ∀ i, b.artifactInventoryArtifactId = some i → i ∉ ids)
    (h : db.deleteCandidates .artifacts ids = .ok (db', n)) :
    db'.artifacts = db.artifacts.filter (fun a => a.id ∉ ids) ∧
      db'.backupManifests = db.backupManifests := by
  unfold GcDb.deleteCandidates at h
  split at h
  · rename_i hnil
    cases h
    subst hnil
    exact ⟨(List.filter_eq_self.mpr (by simp)).symm, rfl⟩
  · obtain ⟨u, hu, h⟩ := bind_eq_ok.mp h
    cases h
    obtain ⟨-, -, h⟩ := bind_eq_ok.mp hu
    cases h
    constructor
    · apply List.filter_congr
      intro a _
      simp
    · apply inventory_kept
      intro b hb i hi hdoomed
      exact hfree b hb i hi (mem_keys.mp hdoomed).2

/-- **What a sweep that commits leaves**: the artifacts that were no candidates, and every
backup as it is. -/
theorem sweep_artifacts {db' : GcDb} {n : GcDb.Deleted} (h : db.sweep now = .ok (db', n)) :
    db'.artifacts = db.artifacts.filter
        (fun a => a.id ∉ (db.listGcRoots now).candidateArtifacts) ∧
      db'.backupManifests = db.backupManifests := by
  unfold GcDb.sweep at h
  dsimp only at h
  obtain ⟨⟨db₁, n₁⟩, h₁, h⟩ := bind_eq_ok.mp h
  obtain ⟨⟨db₂, n₂⟩, h₂, h⟩ := bind_eq_ok.mp h
  obtain ⟨⟨db₃, n₃⟩, h₃, h⟩ := bind_eq_ok.mp h
  obtain ⟨db₄, h₄, h⟩ := bind_eq_ok.mp h
  obtain ⟨⟨db₅, n₅⟩, h₅, h⟩ := bind_eq_ok.mp h
  cases h
  have hfree : ∀ b ∈ db.backupManifests, ∀ i, b.artifactInventoryArtifactId = some i →
      i ∉ (db.listGcRoots now).candidateArtifacts := by
    intro b hb i hi hcandidate
    refine collected_unnamed (mem_candidates.mp hcandidate) ?_
    exact List.mem_append_right _ (List.mem_filterMap.mpr ⟨b, hb, hi⟩)
  have hclosures : db₄.artifacts = db₃.artifacts ∧
      db₄.backupManifests = db₃.backupManifests := by
    unfold GcDb.deleteOrphanClosures at h₄
    split at h₄
    · exact deleteRows_elsewhere (by decide) h₄
    · cases h₄
      exact ⟨rfl, rfl⟩
  obtain ⟨ha₁, hb₁⟩ := deleteCandidates_artifacts hfree h₁
  obtain ⟨ha₂, hb₂⟩ := deleteCandidates_elsewhere (by decide) h₂
  obtain ⟨ha₃, hb₃⟩ := deleteCandidates_elsewhere (by decide) h₃
  obtain ⟨ha₅, hb₅⟩ := deleteCandidates_elsewhere (by decide) h₅
  rw [ha₅, hclosures.1, ha₃, ha₂, ha₁, hb₅, hclosures.2, hb₃, hb₂, hb₁]
  exact ⟨rfl, rfl⟩

section Outcome

variable {store : ArtifactStore} {loop : Unlinking db now} {failure : Option Failure}

/-- A sweep, committed or not, has the rows it had but for candidates. -/
theorem runGc_rows : (runGc db store now loop failure).db.artifacts.Sublist db.artifacts ∧
    ∀ a ∈ db.artifacts, ¬ db.Collects now (.artifacts, a.id) →
      a ∈ (runGc db store now loop failure).db.artifacts := by
  cases hcommitted : (runGc db store now loop failure).committed with
  | false =>
    rw [runGc_failed hcommitted]
    exact ⟨.refl _, fun a ha _ => ha⟩
  | true =>
    obtain ⟨n, hsweep⟩ := runGc_committed hcommitted
    rw [(sweep_artifacts hsweep).1]
    refine ⟨List.filter_sublist, fun a ha hspared => List.mem_filter.mpr ⟨ha, ?_⟩⟩
    exact decide_eq_true fun hcandidate => hspared (mem_candidates.mp hcandidate)

/-- A row that is there after a committed sweep was no candidate. -/
theorem runGc_spared (h : (runGc db store now loop failure).committed = true) {a : Artifact}
    (ha : a ∈ (runGc db store now loop failure).db.artifacts) :
    ¬ db.Collects now (.artifacts, a.id) := by
  obtain ⟨n, hsweep⟩ := runGc_committed h
  rw [(sweep_artifacts hsweep).1] at ha
  intro hcollects
  exact of_decide_eq_true (List.mem_filter.mp ha).2 (mem_candidates.mpr hcollects)

/-- An object stays whose candidates, if any, are not unlinked. -/
theorem runGc_keeps_object {sha : String} {data : Bytes} (hobject : store.get sha = .ok data)
    (h : ∀ a ∈ db.artifacts, a.sha256 = sha → db.Collects now (.artifacts, a.id) →
      loop.unlinks sha = false) :
    (runGc db store now loop failure).store.get sha = .ok data := by
  rw [runGc_store, get_unlinkRows]
  refine ⟨hobject, ?_⟩
  intro ⟨hreached, hunlinks⟩
  obtain ⟨a, ha, hsha⟩ := List.mem_map.mp hreached
  obtain ⟨hrow, hcollects⟩ := loop.mem_rows.mp (loop.mem_reached ha)
  rw [h a hrow hsha hcollects] at hunlinks
  cases hunlinks

/-- No object is new after a sweep. -/
theorem runGc_object {sha : String} {data : Bytes}
    (h : (runGc db store now loop failure).store sha = some data) : store sha = some data := by
  rw [runGc_store, unlinkRows_eq, Objects.removeAll_apply] at h
  split at h
  · cases h
  · exact h

end Outcome

/-! ## What a failure leaves -/

/-- **A failed sweep keeps the rows and their objects together exactly when its loop removed
none**: no row whose turn came had an object whose unlink succeeded. -/
theorem failed_keeps_bytes_iff (db : GcDb) (store : ArtifactStore) (now : Nat)
    (loop : Unlinking db now) (failure : Option Failure)
    (h : (runGc db store now loop failure).committed = false) :
    KeepsBytes store (runGc db store now loop failure) ↔
      ∀ a ∈ loop.reached failure, store.isPresent a.sha256 → ¬ loop.unlinks a.sha256 := by
  unfold KeepsBytes
  rw [runGc_failed h, runGc_store]
  constructor
  · intro hkeeps a ha hpresent hunlinks
    obtain ⟨data, hdata⟩ := ArtifactStore.isPresent_iff.mp hpresent
    have hrow : a ∈ db.artifacts := (loop.mem_rows.mp (loop.mem_reached ha)).1
    have hstill := hkeeps a hrow data hdata
    exact (get_unlinkRows.mp hstill).2 ⟨List.mem_map_of_mem ha, hunlinks⟩
  · intro hnone a _ data hdata
    refine get_unlinkRows.mpr ⟨hdata, ?_⟩
    intro ⟨hmem, hunlinks⟩
    obtain ⟨b, hb, hsha⟩ := List.mem_map.mp hmem
    have hpresent : store.isPresent b.sha256 :=
      ArtifactStore.isPresent_iff.mpr ⟨data, hsha ▸ hdata⟩
    exact hnone b hb hpresent (hsha ▸ hunlinks)

/-! ### One artifact -/

/-- A node with one artifact that nothing names. -/
def orphanArtifact : Artifact :=
  ⟨1, "e3b0c44298fc1c149afbf4c8996fb92427ae41e4649b934ca495991b7852b855", 0, 0⟩

def orphanNode : GcDb :=
  { quietNode with
    sessions := []
    workspaceManifests := []
    commitAttempts := []
    artifacts := [orphanArtifact] }

/-- Its store, with the object of the artifact. -/
def orphanStore : ArtifactStore := fun sha => if sha = orphanArtifact.sha256 then some [] else none

/-- A month later, every unlink succeeds. -/
def orphanLoop : Unlinking orphanNode (days 31) where
  rows := [orphanArtifact]
  unlinks := fun _ => true
  selected := .refl _

/-- The same with an unlink that the file system refuses. -/
def refusedLoop : Unlinking orphanNode (days 31) := { orphanLoop with unlinks := fun _ => false }

/-- The unlink is refused and then the commit fails: the row and its object stay. -/
theorem failed_keeps_bytes_iff_refused :
    (refusedLoop.reached (some .finishing)).map (·.id) = [1] ∧
      orphanStore.isPresent orphanArtifact.sha256 ∧
      KeepsBytes orphanStore (runGc orphanNode orphanStore (days 31) refusedLoop
        (some .finishing)) := by
  refine ⟨rfl, by decide, ?_⟩
  apply (failed_keeps_bytes_iff orphanNode orphanStore (days 31) refusedLoop
    (some .finishing) rfl).mpr
  intro a _ _ hunlinks
  cases hunlinks

/-- The commit fails after the unlink: the row is back, its object is gone. -/
theorem failed_commit_loses_bytes :
    ¬ KeepsBytes orphanStore (runGc orphanNode orphanStore (days 31) orphanLoop
      (some .finishing)) := by
  intro hkeeps
  have hbefore : orphanStore.get orphanArtifact.sha256 = .ok [] := by decide
  have hafter := hkeeps orphanArtifact (List.mem_singleton_self _) [] hbefore
  have hgone : (runGc orphanNode orphanStore (days 31) orphanLoop
      (some .finishing)).store orphanArtifact.sha256 = none := by decide
  rw [ArtifactStore.get_eq_ok, hgone] at hafter
  cases hafter.2

end Noezema.Gc
