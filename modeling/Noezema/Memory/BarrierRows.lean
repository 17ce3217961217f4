import Noezema.Lib.Except
import Noezema.Memory.Cascade

/-! # The rows of the barrier table

The constraints of `dependency_invalidation_barriers` are in the migration, the
transitions in `start_cascade` and `process_barrier`. A call that writes a row the table
refuses is rolled back, and the next call starts from the same state. The results say
which calls commit: a large cascade needs its root's first generation to be free, and a
step that reaches the closing scan needs a scan without findings, because the row it
writes otherwise (`discovering` with a manifest) is refused.
-/

namespace Noezema.Memory

open Noezema.Lib

/-! ## The table -/

/-- The constraints of the table. -/
structure BarrierTable (db : CascadeDb) : Prop where
  row : ∀ b ∈ db.barriers, b.RowOk
  key : ∀ b ∈ db.barriers, ∀ b' ∈ db.barriers, b'.id ≠ b.id →
    ¬ (b'.rootClaimId = b.rootClaimId ∧ b'.generation = b.generation)
  cursor : ∀ b ∈ db.barriers, b.nextOffset ≤ b.memberCount

section

variable (digest : ManifestBody → String)

/-- What a row keeps about its manifest: any manifest under that id has as many members
as the row says. -/
structure Barrier.Kept (b : Barrier) : Prop where
  cursor : b.nextOffset ≤ b.memberCount
  members : ∀ i, b.closureManifestId = some i → ∀ body : ManifestBody,
    digest body = i → body.count = b.memberCount

/-- The rows between two calls: they meet the table's constraints, ids are not reused,
and a barrier is at rest as active, resolved or blocked. -/
structure BarriersKept (db : CascadeDb) : Prop where
  row : ∀ b ∈ db.barriers, b.RowOk
  key : ∀ b ∈ db.barriers, ∀ b' ∈ db.barriers, b'.id ≠ b.id →
    ¬ (b'.rootClaimId = b.rootClaimId ∧ b'.generation = b.generation)
  kept : ∀ b ∈ db.barriers, b.Kept digest
  rest : ∀ b ∈ db.barriers, b.status ∈ [.active, .resolved, .blocked]
  ids : db.barriers.map (·.id) = List.range db.barriers.length
  manifest : ∀ m ∈ db.manifests, m.id = digest m.body ∧ m.sha256 = digest m.body ∧
    m.body.claimIds.length = m.body.count

/-! ## When a call commits -/

/-- No barrier of the claim stands at the generation. -/
def GenerationFree (db : CascadeDb) (root : ClaimId) (generation : Nat) : Prop :=
  ∀ b ∈ db.barriers, ¬ (b.rootClaimId = root ∧ b.generation = generation)

/-- The claims a step on an active barrier invalidates before the closing scan, if its
batch is the last one. -/
def lastWindow (db : CascadeDb) (b : Barrier) : Option (List ClaimId) :=
  if b.status = .closing then some []
  else
    (b.closureManifestId.bind fun id => db.manifests.find? fun m => m.id = id).bind fun m =>
      if m.body.count ≤ b.nextOffset + batchSize then
        some ((m.body.claimIds.drop b.nextOffset).take batchSize)
      else none

/-- **When a step of an open barrier commits.** A generation it publishes is free, and
every claim of the live closure that is current is in the batch the step invalidates just
before its closing scan. -/
structure StepCommits (db : CascadeDb) (b : Barrier) : Prop where
  key : db.graphRevision ≠ b.graphRevision →
    GenerationFree db b.rootClaimId (b.generation + 1)
  scan : ∀ window, lastWindow (currentGeneration digest db b).1
      (currentGeneration digest db b).2 = some window →
    ∀ v, InClosure db.edges b.rootClaimId v →
      db.know.heads.state v db.effective = some .current → v ∈ window

end

variable {digest : ManifestBody → String}

theorem BarriersKept.table {db : CascadeDb} (h : BarriersKept digest db) :
    BarrierTable db where
  row := h.row
  key := h.key
  cursor := fun b hb => (h.kept b hb).cursor

/-! ## Manifests -/

/-- The body of a closure's manifest. -/
def manifestBody (c : ClosureResult) : ManifestBody :=
  ⟨c.root, c.graphRevision, c.claimIds, c.ranks, c.count⟩

theorem getOrCreateManifest_id (db : CascadeDb) (c : ClosureResult) :
    (getOrCreateManifest digest db c).2.id = digest (manifestBody c) := by
  simp only [getOrCreateManifest]
  split
  · rename_i m hm
    have hid : m.id = (manifestFor digest c).id := by simpa using List.find?_some hm
    exact hid
  · rfl

theorem getOrCreateManifest_barriers (db : CascadeDb) (c : ClosureResult) :
    (getOrCreateManifest digest db c).1.barriers = db.barriers ∧
      (getOrCreateManifest digest db c).1.know = db.know := by
  simp only [getOrCreateManifest]
  split <;> exact ⟨rfl, rfl⟩

/-- A new row has the hash of its own body. -/
theorem getOrCreateManifest_kept {db : CascadeDb} (h : BarriersKept digest db)
    (c : ClosureResult) : ∀ m ∈ (getOrCreateManifest digest db c).1.manifests,
      m.id = digest m.body ∧ m.sha256 = digest m.body ∧
        m.body.claimIds.length = m.body.count := by
  intro m hm
  simp only [getOrCreateManifest] at hm
  split at hm
  · exact h.manifest m hm
  · rcases List.mem_append.mp hm with hm | hm
    · exact h.manifest m hm
    · rw [List.mem_singleton.mp hm]
      exact ⟨rfl, rfl, rfl⟩

/-- What a step leaves of the rows when it adds manifests at most. -/
theorem BarriersKept.congr {db db' : CascadeDb} (h : BarriersKept digest db)
    (hb : db'.barriers = db.barriers)
    (hm : ∀ m ∈ db'.manifests, m.id = digest m.body ∧ m.sha256 = digest m.body ∧
      m.body.claimIds.length = m.body.count) : BarriersKept digest db' where
  row := by
    rw [hb]
    exact h.row
  key := by
    rw [hb]
    exact h.key
  kept := by
    rw [hb]
    exact h.kept
  rest := by
    rw [hb]
    exact h.rest
  ids := by
    rw [hb]
    exact h.ids
  manifest := hm

/-! ## Writing a row -/

theorem saveBarrier_eq_ok {db db' : CascadeDb} {b : Barrier} :
    db.saveBarrier b = .ok db' ↔ db.accepts b ∧
      db' = { db with barriers := db.barriers.map fun b' => if b'.id = b.id then b else b' } := by
  unfold CascadeDb.saveBarrier
  by_cases h : db.accepts b
  · simp [h, eq_comm]
  · simp [h]

/-- **A written row.** The table keeps its constraints when it accepts the row. -/
theorem BarriersKept.save {db db' : CascadeDb} {b : Barrier} (h : BarriersKept digest db)
    (hb : b.Kept digest) (hrest : b.status ∈ [.active, .resolved, .blocked])
    (hs : db.saveBarrier b = .ok db') : BarriersKept digest db' := by
  obtain ⟨⟨hrow, hkey⟩, rfl⟩ := saveBarrier_eq_ok.mp hs
  have hmem : ∀ x ∈ db.barriers.map (fun b' => if b'.id = b.id then b else b'),
      x = b ∨ (x ∈ db.barriers ∧ x.id ≠ b.id) := by
    intro x hx
    obtain ⟨y, hy, rfl⟩ := List.mem_map.mp hx
    by_cases hid : y.id = b.id
    · rw [if_pos hid]
      exact .inl rfl
    · rw [if_neg hid]
      exact .inr ⟨hy, hid⟩
  constructor
  · intro x hx
    rcases hmem x hx with rfl | ⟨hx, -⟩
    · exact hrow
    · exact h.row x hx
  · intro x hx y hy hne
    rcases hmem x hx with rfl | ⟨hold, hxb⟩
    · rcases hmem y hy with rfl | ⟨hy, hyb⟩
      · exact absurd rfl hne
      · exact hkey y hy hyb
    · rcases hmem y hy with rfl | ⟨hy, -⟩
      · intro heq
        exact hkey x hold hxb ⟨heq.1.symm, heq.2.symm⟩
      · exact h.key x hold y hy hne
  · intro x hx
    rcases hmem x hx with rfl | ⟨hx, -⟩
    · exact hb
    · exact h.kept x hx
  · intro x hx
    rcases hmem x hx with rfl | ⟨hx, -⟩
    · exact hrest
    · exact h.rest x hx
  · show (db.barriers.map _).map _ = List.range (db.barriers.map _).length
    rw [List.length_map, ← h.ids, List.map_map]
    refine List.map_congr_left fun x _ => ?_
    show (if x.id = b.id then b else x).id = x.id
    split
    · symm
      assumption
    · rfl
  · exact h.manifest

/-- **A new row.** -/
theorem BarriersKept.insert {db db' : CascadeDb} {b : Barrier} (h : BarriersKept digest db)
    (hb : b.Kept digest) (hrow : b.RowOk) (hst : b.status = .active)
    (hid : b.id = db.barriers.length)
    (hfree : GenerationFree db b.rootClaimId b.generation)
    (hdb : db'.barriers = db.barriers ++ [b])
    (hm : ∀ m ∈ db'.manifests, m.id = digest m.body ∧ m.sha256 = digest m.body ∧
      m.body.claimIds.length = m.body.count) : BarriersKept digest db' := by
  have hmem : ∀ x ∈ db'.barriers, x ∈ db.barriers ∨ x = b := by
    intro x hx
    rw [hdb] at hx
    simpa using hx
  constructor
  · intro x hx
    rcases hmem x hx with hx | rfl
    · exact h.row x hx
    · exact hrow
  · intro x hx y hy hne heq
    rcases hmem x hx with hx | rfl
    · rcases hmem y hy with hy | rfl
      · exact h.key x hx y hy hne heq
      · exact hfree x hx ⟨heq.1.symm, heq.2.symm⟩
    · rcases hmem y hy with hy | rfl
      · exact hfree y hy heq
      · exact hne rfl
  · intro x hx
    rcases hmem x hx with hx | rfl
    · exact h.kept x hx
    · exact hb
  · intro x hx
    rcases hmem x hx with hx | rfl
    · exact h.rest x hx
    · simp [hst]
  · rw [hdb, List.map_append, h.ids, List.length_append, List.length_singleton,
      List.range_succ, List.map_singleton, hid]
  · exact hm

/-! ## The step of an open barrier -/

theorem currentGeneration_kept {db : CascadeDb} {b : Barrier}
    (hdigest : ∀ m m' : ManifestBody, digest m = digest m' → m.count = m'.count)
    (h : BarriersKept digest db) (hb : b.Kept digest) :
    BarriersKept digest (currentGeneration digest db b).1 ∧
      (currentGeneration digest db b).2.Kept digest := by
  unfold currentGeneration
  split
  · refine ⟨h.congr (getOrCreateManifest_barriers db _).1 (getOrCreateManifest_kept h _), ?_⟩
    refine ⟨Nat.zero_le _, ?_⟩
    intro i hi body hbody
    have hid : (getOrCreateManifest digest db (db.loadClosure b.rootClaimId)).2.id = i :=
      Option.some.inj hi
    rw [getOrCreateManifest_id] at hid
    exact hdigest _ _ (hbody.trans hid.symm)
  · exact ⟨h, hb⟩

/-- The row a generation leaves: the same id and root, and for an active barrier the
live revision. -/
theorem currentGeneration_row {db : CascadeDb} {b : Barrier} (hactive : b.status = .active) :
    (currentGeneration digest db b).2.id = b.id ∧
      (currentGeneration digest db b).2.rootClaimId = b.rootClaimId ∧
      (currentGeneration digest db b).2.graphRevision = db.graphRevision ∧
      (currentGeneration digest db b).2.resolvedAt = b.resolvedAt ∧
      ((currentGeneration digest db b).2.closureManifestId ≠ none ∨
        (currentGeneration digest db b).2.closureManifestId = b.closureManifestId) ∧
      (currentGeneration digest db b).2.status ∈ [.active, .closing] ∧
      (currentGeneration digest db b).2.generation =
        if db.graphRevision ≠ b.graphRevision then b.generation + 1 else b.generation := by
  unfold currentGeneration
  by_cases hmoved : db.graphRevision ≠ b.graphRevision
  · rw [if_pos (.inr ⟨hactive, hmoved⟩), if_pos hmoved]
    refine ⟨rfl, rfl, rfl, rfl, .inl (by simp [regenerate]), ?_, rfl⟩
    show (if _ then BarrierStatus.closing else .active) ∈ _
    split <;> simp
  · have hne : ¬ (b.status = .discovering ∨
        (b.status = .active ∧ db.graphRevision ≠ b.graphRevision)) := by
      rintro (hd | ⟨-, hm⟩)
      · rw [hactive] at hd
        cases hd
      · exact hmoved hm
    rw [if_neg hne, if_neg hmoved]
    exact ⟨rfl, rfl, (not_not.mp hmoved).symm, rfl, .inr rfl, by simp [hactive], rfl⟩

/-- The manifest a barrier walks. -/
def Barrier.manifest? (db : CascadeDb) (b : Barrier) : Option ClosureManifest :=
  b.closureManifestId.bind fun id => db.manifests.find? fun m => m.id = id

theorem manifest?_kept {db : CascadeDb} {b : Barrier} {m : ClosureManifest}
    (h : BarriersKept digest db) (hb : b.Kept digest) (hm : b.manifest? db = some m) :
    verifyManifest digest m = none ∧ m.body.claimIds.length = m.body.count ∧
      m.body.count = b.memberCount := by
  obtain ⟨i, hi, hfind⟩ := Option.bind_eq_some_iff.mp hm
  obtain ⟨hid, hsha, hlen⟩ := h.manifest m (List.mem_of_find?_eq_some hfind)
  have hmi : m.id = i := by simpa using List.find?_some hfind
  refine ⟨?_, hlen, hb.members i hi m.body (hid.symm.trans hmi)⟩
  rw [verifyManifest, if_pos hsha.symm]

/-- The batch of an active barrier with its manifest. -/
def windowOf (b : Barrier) (m : ClosureManifest) : List ClaimId :=
  (m.body.claimIds.drop b.nextOffset).take batchSize

/-- The row after the batch. -/
def advanced (b : Barrier) (m : ClosureManifest) : Barrier :=
  { b with
    nextOffset := b.nextOffset + (windowOf b m).length
    status := if b.nextOffset + (windowOf b m).length ≥ m.body.count then .closing
      else b.status }

/-- **The `active` section** on a kept row: without its manifest the barrier is blocked,
with it one batch is invalidated and the cursor moves. -/
theorem activeStep_eq {db : CascadeDb} {b : Barrier} (h : BarriersKept digest db)
    (hb : b.Kept digest) :
    activeStep digest db b = match b.manifest? db with
      | none => .ok (b.block "manifest_missing" "closure manifest row missing under lock",
          db.know, 0)
      | some m => .ok (advanced b m,
          (Knowledge.invalidateBatch db.effective "barrier batch" (windowOf b m) db.know).1,
          (Knowledge.invalidateBatch db.effective "barrier batch" (windowOf b m)
            db.know).2.1) := by
  unfold activeStep
  change (match b.manifest? db with | none => _ | some m => _) = _
  cases hm : b.manifest? db with
  | none => rfl
  | some m =>
    obtain ⟨hverify, hlen, hcount⟩ := manifest?_kept h hb hm
    have hcursor := hb.cursor
    simp only [hverify]
    rw [if_neg (not_not.mpr hlen), if_neg (by omega)]
    rfl

theorem advanced_cursor {b : Barrier} {m : ClosureManifest}
    (hlen : m.body.claimIds.length = m.body.count) (hle : b.nextOffset ≤ m.body.count) :
    (advanced b m).nextOffset ≤ m.body.count ∧
      (b.nextOffset + (windowOf b m).length ≥ m.body.count ↔
        m.body.count ≤ b.nextOffset + batchSize) := by
  have hw : (windowOf b m).length = min batchSize (m.body.count - b.nextOffset) := by
    rw [windowOf, List.length_take, List.length_drop, hlen]
  have hn : (advanced b m).nextOffset = b.nextOffset + (windowOf b m).length := rfl
  rw [hn, hw]
  omega

/-! ## The closing scan -/

/-- After a batch the closure is settled iff the batch took all that was current. -/
theorem settled_after_batch {db : CascadeDb} {root : ClaimId} {know : Knowledge}
    {window : List ClaimId}
    (h : Knowledge.Invalidates db.know know window db.effective) :
    CascadeDb.Settled { db with know := know } root ↔
      ∀ v, InClosure db.edges root v →
        db.know.heads.state v db.effective = some .current → v ∈ window := by
  have hstate : ∀ v, v ∉ window →
      know.heads.state v db.effective = db.know.heads.state v db.effective := by
    intro v hv
    have heq := h.heads v db.effective
    rw [if_neg (by simp [hv])] at heq
    rw [Heads.state, heq, Heads.state]
  constructor
  · intro hset v hv hcur
    by_contra hmem
    exact hset v hv ((hstate v hmem).trans hcur)
  · intro hall v hv hcur
    by_cases hmem : v ∈ window
    · exact h.not_current hmem hcur
    · exact hmem (hall v hv ((hstate v hmem).symm.trans hcur))

/-- A row at the live revision is resolved by the scan, or written as `discovering`. -/
theorem closeStep_row {now : Nat} {db : CascadeDb} {b : Barrier}
    (hrev : b.graphRevision = db.graphRevision) :
    (db.Settled b.rootClaimId ∧
      closeStep now db b = { b with status := .resolved, resolvedAt := some now }) ∨
    (¬ db.Settled b.rootClaimId ∧ (closeStep now db b).status = .discovering ∧
      (closeStep now db b).closureManifestId = b.closureManifestId) := by
  unfold closeStep
  by_cases hset : db.Settled b.rootClaimId
  · have hnil := CascadeDb.liveCurrentDescendants_eq_nil.mpr hset
    rw [if_neg (by simp [hrev, hnil])]
    exact .inl ⟨hset, rfl⟩
  · have hne : db.liveCurrentDescendants b.rootClaimId ≠ [] :=
      fun hnil => hset (CascadeDb.liveCurrentDescendants_eq_nil.mp hnil)
    rw [if_pos (.inr hne)]
    exact .inr ⟨hset, rfl, rfl⟩

/-! ## The row a step writes -/

/-- The closing scan of the step finds nothing. -/
def ScanClean (digest : ManifestBody → String) (db : CascadeDb) (b : Barrier) : Prop :=
  ∀ window, lastWindow (currentGeneration digest db b).1
      (currentGeneration digest db b).2 = some window →
    ∀ v, InClosure db.edges b.rootClaimId v →
      db.know.heads.state v db.effective = some .current → v ∈ window

/-- The row a step on the active barrier `b` writes: the table's CHECK passes exactly
when the closing scan, if it is reached, finds nothing. -/
structure Written (digest : ManifestBody → String) (db : CascadeDb) (b row : Barrier) :
    Prop where
  kept : row.Kept digest
  id : row.id = b.id
  root : row.rootClaimId = b.rootClaimId
  generation : row.generation =
    if db.graphRevision ≠ b.graphRevision then b.generation + 1 else b.generation
  check : row.RowOk ↔ ScanClean digest db b
  rest : row.RowOk → row.status ∈ [.active, .resolved, .blocked]

/-- What is left of a row when the check of its shape is all that is open. -/
theorem rowOk_iff {b : Barrier} (hm : b.closureManifestId ≠ none) (hgen : 1 ≤ b.generation) :
    b.RowOk ↔ b.status ≠ .discovering ∧ (b.resolvedAt = none ↔ b.status ≠ .resolved) := by
  constructor
  · intro h
    exact ⟨fun hd => hm (h.manifest.mpr hd), h.resolved⟩
  · intro h
    exact ⟨⟨fun hn => absurd hn hm, fun hd => absurd hd h.1⟩, h.2, hgen⟩

/-- The closing scan of a row at the live revision. -/
theorem closeStep_check {now : Nat} {db : CascadeDb} {b : Barrier}
    (hrev : b.graphRevision = db.graphRevision) (hm : b.closureManifestId ≠ none)
    (hgen : 1 ≤ b.generation) :
    ((closeStep now db b).RowOk ↔ db.Settled b.rootClaimId) ∧
      ((closeStep now db b).RowOk → (closeStep now db b).status ∈
        [BarrierStatus.active, .resolved, .blocked]) := by
  rcases @closeStep_row now db b hrev with ⟨hset, heq⟩ | ⟨hset, hst, hman⟩
  · have hok : (closeStep now db b).RowOk := by
      rw [heq]
      exact (@rowOk_iff { b with status := .resolved, resolvedAt := some now } hm hgen).mpr
        ⟨by simp, by simp⟩
    exact ⟨⟨fun _ => hset, fun _ => hok⟩, fun _ => by simp [heq]⟩
  · have hno : ¬ (closeStep now db b).RowOk := by
      intro h
      rw [hman.symm] at hm
      exact hm (h.manifest.mpr hst)
    exact ⟨⟨fun h => absurd h hno, fun h => absurd h hset⟩, fun h => absurd h hno⟩

theorem closeStep_same (now : Nat) (db : CascadeDb) (b : Barrier) :
    (closeStep now db b).id = b.id ∧ (closeStep now db b).rootClaimId = b.rootClaimId ∧
      (closeStep now db b).generation = b.generation ∧
      (closeStep now db b).nextOffset = b.nextOffset ∧
      (closeStep now db b).memberCount = b.memberCount ∧
      (closeStep now db b).closureManifestId = b.closureManifestId := by
  unfold closeStep
  split <;> exact ⟨rfl, rfl, rfl, rfl, rfl, rfl⟩

theorem closeStep_kept {now : Nat} {db : CascadeDb} {b : Barrier} (h : b.Kept digest) :
    (closeStep now db b).Kept digest := by
  obtain ⟨-, -, -, hoff, hcount, hman⟩ := closeStep_same now db b
  constructor
  · rw [hoff, hcount]
    exact h.cursor
  · rw [hman, hcount]
    exact h.members

/-! ## One row a step -/

/-- What a step on the active barrier `b` goes on with: the row of the current
generation, which has a manifest and is not resolved. -/
structure Renewed (digest : ManifestBody → String) (db : CascadeDb) (b : Barrier)
    (db₁ : CascadeDb) (b₁ : Barrier) : Prop where
  source : currentGeneration digest db b = (db₁, b₁)
  store : BarriersKept digest db₁
  row : b₁.Kept digest
  same : SameGraph db db₁
  know : db₁.know = db.know
  id : b₁.id = b.id
  root : b₁.rootClaimId = b.rootClaimId
  revision : b₁.graphRevision = db.graphRevision
  generation : b₁.generation =
    if db.graphRevision ≠ b.graphRevision then b.generation + 1 else b.generation
  positive : 1 ≤ b₁.generation
  manifest : b₁.closureManifestId ≠ none
  unresolved : b₁.resolvedAt = none
  status : b₁.status ∈ [.active, .closing]

theorem currentGeneration_renewed {db : CascadeDb} {b : Barrier}
    (hdigest : ∀ m m' : ManifestBody, digest m = digest m' → m.count = m'.count)
    (h : BarriersKept digest db) (hmem : b ∈ db.barriers) (hactive : b.status = .active) :
    Renewed digest db b (currentGeneration digest db b).1 (currentGeneration digest db b).2 := by
  obtain ⟨hstore, hrow⟩ := currentGeneration_kept hdigest h (h.kept b hmem)
  obtain ⟨hid, hroot, hrev, hres, hman, hst, hgen⟩ :=
    @currentGeneration_row digest db b hactive
  obtain ⟨hsame, -, -⟩ := @currentGeneration_ok digest db b (by simp [hactive])
  refine ⟨rfl, hstore, hrow, hsame, ?_, hid, hroot, hrev, hgen, ?_, ?_, ?_, hst⟩
  · unfold currentGeneration
    split
    · exact (getOrCreateManifest_barriers db _).2
    · rfl
  · have hone := (h.row b hmem).generation
    rw [hgen]
    split <;> omega
  · rcases hman with hne | heq
    · exact hne
    · rw [heq]
      intro hnone
      have hdisc := (h.row b hmem).manifest.mp hnone
      rw [hactive] at hdisc
      cases hdisc
  · rw [hres]
    exact (h.row b hmem).resolved.mpr (by simp [hactive])

theorem lastWindow_active {db : CascadeDb} {b : Barrier} (hst : b.status = .active) :
    lastWindow db b = (b.manifest? db).bind fun m =>
      if m.body.count ≤ b.nextOffset + batchSize then some (windowOf b m) else none := by
  rw [lastWindow, if_neg (by simp [hst])]
  rfl

section Writes

variable {db db₁ : CascadeDb} {b b₁ : Barrier}

theorem Renewed.scanClean_iff (h : Renewed digest db b db₁ b₁) :
    ScanClean digest db b ↔ ∀ window, lastWindow db₁ b₁ = some window →
      ∀ v, InClosure db.edges b.rootClaimId v →
        db.know.heads.state v db.effective = some .current → v ∈ window := by
  unfold ScanClean
  rw [h.source]

/-- The closing scan after a batch, said about the store before it. -/
theorem Renewed.settled_iff (h : Renewed digest db b db₁ b₁) {window : List ClaimId}
    {know : Knowledge} (hinv : Knowledge.Invalidates db₁.know know window db₁.effective) :
    CascadeDb.Settled { db₁ with know := know } b₁.rootClaimId ↔
      ∀ v, InClosure db.edges b.rootClaimId v →
        db.know.heads.state v db.effective = some .current → v ∈ window := by
  rw [settled_after_batch hinv, h.root, h.know, h.same.effective, h.same.edges]

/-- A row that is not closed passes the check where no scan is reached. -/
theorem Renewed.written_open (h : Renewed digest db b db₁ b₁)
    (hlast : lastWindow db₁ b₁ = none) {row : Barrier} (hkept : row.Kept digest)
    (hid : row.id = b₁.id) (hroot : row.rootClaimId = b₁.rootClaimId)
    (hgen : row.generation = b₁.generation)
    (hmanifest : row.closureManifestId = b₁.closureManifestId)
    (hresolved : row.resolvedAt = b₁.resolvedAt) (hst : row.status ∈ [.active, .blocked]) :
    Written digest db b row := by
  have hshape : row.status ≠ .discovering ∧ row.status ≠ .resolved := by
    simp only [List.mem_cons, List.not_mem_nil, or_false] at hst
    rcases hst with hst | hst <;> simp [hst]
  refine ⟨hkept, hid.trans h.id, hroot.trans h.root, hgen.trans h.generation, ?_, ?_⟩
  · rw [rowOk_iff (by rw [hmanifest]; exact h.manifest) (by rw [hgen]; exact h.positive),
      h.scanClean_iff, hlast, hresolved]
    simp [hshape, h.unresolved]
  · intro _
    simp only [List.mem_cons, List.not_mem_nil, or_false] at hst ⊢
    exact hst.imp_right .inr

/-- The closing scan writes a row that passes the check if the scan finds nothing. -/
theorem Renewed.written_closed (h : Renewed digest db b db₁ b₁) {window : List ClaimId}
    {know : Knowledge} (hinv : Knowledge.Invalidates db₁.know know window db₁.effective)
    (hlast : lastWindow db₁ b₁ = some window) (now : Nat) {row : Barrier}
    (hkept : row.Kept digest) (hid : row.id = b₁.id) (hroot : row.rootClaimId = b₁.rootClaimId)
    (hgen : row.generation = b₁.generation)
    (hmanifest : row.closureManifestId = b₁.closureManifestId)
    (hrev : row.graphRevision = b₁.graphRevision) :
    Written digest db b (closeStep now { db₁ with know := know } row) := by
  obtain ⟨hcheck, hrest⟩ := @closeStep_check now { db₁ with know := know } row
    ((hrev.trans h.revision).trans h.same.graphRevision.symm)
    (by rw [hmanifest]; exact h.manifest) (by rw [hgen]; exact h.positive)
  obtain ⟨hid', hroot', hgen', -, -, -⟩ := closeStep_same now { db₁ with know := know } row
  refine ⟨closeStep_kept hkept, (hid'.trans hid).trans h.id, (hroot'.trans hroot).trans h.root,
    (hgen'.trans hgen).trans h.generation, ?_, hrest⟩
  rw [hcheck, hroot, h.settled_iff hinv, h.scanClean_iff, hlast]
  simp

/-- The active section with its manifest: one batch, and the closing scan after the last. -/
theorem Renewed.batch_writes (h : Renewed digest db b db₁ b₁) (hst : b₁.status = .active)
    {m : ClosureManifest} (hm : b₁.manifest? db₁ = some m) {know : Knowledge}
    (hinv : Knowledge.Invalidates db₁.know know (windowOf b₁ m) db₁.effective)
    (now inv : Nat) :
    ∃ row, Written digest db b row ∧
      finishBarrier now { db₁ with know := know } (advanced b₁ m) inv =
        ({ db₁ with know := bumpIf know inv }.saveBarrier row).map
          fun db => (db, row.status) := by
  obtain ⟨-, hlen, hcount⟩ := manifest?_kept h.store h.row hm
  obtain ⟨hcursor, hlast⟩ := advanced_cursor hlen (by rw [hcount]; exact h.row.cursor)
  have hkept : (advanced b₁ m).Kept digest :=
    ⟨by rw [hcount] at hcursor; exact hcursor, h.row.members⟩
  have hwindow := @lastWindow_active db₁ b₁ hst
  rw [hm, Option.bind_some] at hwindow
  by_cases hdone : b₁.nextOffset + (windowOf b₁ m).length ≥ m.body.count
  · have hclosing : (advanced b₁ m).status = .closing := if_pos hdone
    rw [if_pos (hlast.mp hdone)] at hwindow
    refine ⟨closeStep now { db₁ with know := know } (advanced b₁ m),
      h.written_closed hinv hwindow now hkept rfl rfl rfl rfl rfl, ?_⟩
    rw [finishBarrier, if_pos hclosing]
  · have hstatus : (advanced b₁ m).status = .active := (if_neg hdone).trans hst
    rw [if_neg (mt hlast.mpr hdone)] at hwindow
    refine ⟨advanced b₁ m,
      h.written_open hwindow hkept rfl rfl rfl rfl rfl (by simp [hstatus]), ?_⟩
    rw [finishBarrier, if_neg (by simp [hstatus])]

end Writes

/-- **One row a step.** A step on an active barrier is the write of one row; nothing else
of it can fail. -/
theorem processBarrier_writes {db : CascadeDb} {b : Barrier} {id : BarrierId}
    (now : Nat) (hdigest : ∀ m m' : ManifestBody, digest m = digest m' → m.count = m'.count)
    (h : BarriersKept digest db) (hb : db.barrier? id = some b)
    (hactive : b.status = .active) :
    ∃ row know, Written digest db b row ∧
      processBarrier digest now id db =
        ({ (currentGeneration digest db b).1 with know := know }.saveBarrier row).map
          fun db => (db, row.status) := by
  have hr := currentGeneration_renewed hdigest h (List.mem_of_find?_eq_some hb) hactive
  unfold processBarrier
  simp only [hb]
  rw [if_neg (by simp [hactive]), if_neg (by simp [hactive])]
  generalize currentGeneration digest db b = p at *
  obtain ⟨db₁, b₁⟩ := p
  simp only at *
  rcases List.mem_cons.mp hr.status with hst | hst
  · -- the active section
    rw [if_pos hst, activeStep_eq hr.store hr.row]
    cases hm : b₁.manifest? db₁ with
    | none =>
      have hlast : lastWindow db₁ b₁ = none := by
        rw [lastWindow_active hst, hm]
        rfl
      exact ⟨b₁.block "manifest_missing" "closure manifest row missing under lock", db₁.know,
        hr.written_open hlast ⟨hr.row.cursor, hr.row.members⟩ rfl rfl rfl rfl rfl
          (by simp [Barrier.block]), rfl⟩
    | some m =>
      have hinv := Knowledge.invalidateBatch_invalidates db₁.effective "barrier batch"
        (windowOf b₁ m) db₁.know
      obtain ⟨row, hwritten, hfinish⟩ := hr.batch_writes hst hm hinv now
        (Knowledge.invalidateBatch db₁.effective "barrier batch" (windowOf b₁ m)
          db₁.know).2.1
      have hgoing : (advanced b₁ m).status ≠ .blocked := by
        show (if _ then BarrierStatus.closing else b₁.status) ≠ .blocked
        split <;> simp [hst]
      refine ⟨row, _, hwritten, Eq.trans ?_ hfinish⟩
      exact if_neg hgoing
  · -- a generation without members
    have hst : b₁.status = .closing := List.mem_singleton.mp hst
    have hinv := Knowledge.Invalidates.refl db₁.know db₁.effective
    refine ⟨closeStep now db₁ b₁, bumpIf db₁.know 0,
      hr.written_closed hinv (if_pos hst) now hr.row rfl rfl rfl rfl rfl, ?_⟩
    rw [if_neg (by simp [hst]), finishBarrier, if_pos hst]

/-! ## When a step commits -/

theorem eq_of_id {db : CascadeDb} (h : BarriersKept digest db) {b b' : Barrier}
    (hb : b ∈ db.barriers) (hb' : b' ∈ db.barriers) (hid : b'.id = b.id) : b' = b := by
  have hnodup : (db.barriers.map (·.id)).Nodup := by
    rw [h.ids]
    exact List.nodup_range
  exact List.inj_on_of_nodup_map hnodup hb' hb hid

/-- The UNIQUE constraint on the written row. -/
theorem written_key {db : CascadeDb} (h : BarriersKept digest db) {b row : Barrier}
    (hb : b ∈ db.barriers) (hw : Written digest db b row) :
    (∀ b' ∈ db.barriers, b'.id ≠ row.id →
      ¬ (b'.rootClaimId = row.rootClaimId ∧ b'.generation = row.generation)) ↔
    (db.graphRevision ≠ b.graphRevision →
      GenerationFree db b.rootClaimId (b.generation + 1)) := by
  rw [hw.id, hw.root, hw.generation]
  by_cases hmoved : db.graphRevision ≠ b.graphRevision
  · rw [if_pos hmoved]
    constructor
    · intro hall _ b' hb' heq
      by_cases hid : b'.id = b.id
      · rw [eq_of_id h hb hb' hid] at heq
        omega
      · exact hall b' hb' hid heq
    · intro hfree b' hb' _
      exact hfree hmoved b' hb'
  · rw [if_neg hmoved]
    exact ⟨fun _ hm => absurd hm hmoved, fun _ b' hb' hne => h.key b hb b' hb' hne⟩

/-- **The step lemma.** A step on an open barrier commits exactly when `StepCommits`
holds, and what it commits keeps the table. -/
theorem processBarrier_commits {db : CascadeDb} {b : Barrier} {id : BarrierId} (now : Nat)
    (hdigest : ∀ m m' : ManifestBody, digest m = digest m' → m.count = m'.count)
    (h : BarriersKept digest db) (hb : db.barrier? id = some b)
    (hactive : b.status = .active) :
    ((∃ r, processBarrier digest now id db = .ok r) ↔ StepCommits digest db b) ∧
      ∀ db' st, processBarrier digest now id db = .ok (db', st) → BarriersKept digest db' := by
  have hmem : b ∈ db.barriers := List.mem_of_find?_eq_some hb
  obtain ⟨row, know, hw, hwrite⟩ := processBarrier_writes now hdigest h hb hactive
  have hkept := (currentGeneration_kept hdigest h (h.kept b hmem)).1
  have hbarriers : (currentGeneration digest db b).1.barriers = db.barriers := by
    unfold currentGeneration
    split
    · exact (getOrCreateManifest_barriers db _).1
    · rfl
  generalize (currentGeneration digest db b).1 = db₁ at hwrite hkept hbarriers
  have haccepts : CascadeDb.accepts { db₁ with know := know } row ↔
      StepCommits digest db b := by
    show (row.RowOk ∧ ∀ b' ∈ db₁.barriers, _ → _) ↔ _
    rw [hbarriers, hw.check, written_key h hmem hw]
    exact ⟨fun hs => ⟨hs.2, hs.1⟩, fun hs => ⟨hs.scan, hs.key⟩⟩
  rw [hwrite]
  constructor
  · rw [← haccepts]
    constructor
    · rintro ⟨r, hr⟩
      obtain ⟨db₂, hs, -⟩ := map_eq_ok.mp hr
      exact (saveBarrier_eq_ok.mp hs).1
    · intro hacc
      exact ⟨_, map_eq_ok.mpr ⟨_, saveBarrier_eq_ok.mpr ⟨hacc, rfl⟩, rfl⟩⟩
  · intro db' st hok
    obtain ⟨db₂, hs, heq⟩ := map_eq_ok.mp hok
    have hrow : row.RowOk := (saveBarrier_eq_ok.mp hs).1.1
    have hknow : BarriersKept digest { db₁ with know := know } :=
      hkept.congr rfl hkept.manifest
    have hsaved := hknow.save hw.kept (hw.rest hrow) hs
    rwa [← show db₂ = db' from congrArg Prod.fst heq]

theorem processBarrier_kept {db db' : CascadeDb} {id : BarrierId} {now : Nat}
    {st : BarrierStatus}
    (hdigest : ∀ m m' : ManifestBody, digest m = digest m' → m.count = m'.count)
    (h : BarriersKept digest db) (hok : processBarrier digest now id db = .ok (db', st)) :
    BarriersKept digest db' := by
  cases hb : db.barrier? id with
  | none => simp [processBarrier, hb] at hok
  | some b =>
    have hrest := h.rest b (List.mem_of_find?_eq_some hb)
    simp only [List.mem_cons, List.not_mem_nil, or_false] at hrest
    rcases hrest with hst | hst | hst
    · exact (processBarrier_commits now hdigest h hb hst).2 db' st hok
    · simp only [processBarrier, hb, hst, if_true, Except.ok.injEq, Prod.mk.injEq] at hok
      rwa [← hok.1]
    · simp [processBarrier, hb, hst] at hok

/-! ## When a cascade commits -/

theorem firstBarrier_row {db : CascadeDb} {closure : ClosureResult} {i : String}
    (hlarge : inlineClosureLimit < closure.count) :
    (firstBarrier db closure i).RowOk ∧ (firstBarrier db closure i).status = .active ∧
      (firstBarrier db closure i).nextOffset ≤ (firstBarrier db closure i).memberCount := by
  have hlen : (closure.batch 0 batchSize).length = min batchSize closure.count := by
    simp [ClosureResult.batch, ClosureResult.count]
  have hlt : (closure.batch 0 batchSize).length < closure.count := by
    rw [hlen]
    simp only [inlineClosureLimit] at hlarge
    simp only [batchSize]
    omega
  have hst : (firstBarrier db closure i).status = .active := if_pos hlt
  refine ⟨(rowOk_iff (by simp [firstBarrier]) (by simp [firstBarrier])).mpr ?_, hst, hlt.le⟩
  rw [hst]
  simp [firstBarrier]

/-- **The write transaction of a cascade** over a closure of the live graph commits
exactly when the closure is small or the first generation of its root is free; then the
root is not current, and the table is kept. -/
theorem startCascade_commits {db : CascadeDb} {closure : ClosureResult} (reason : String)
    (hdigest : ∀ m m' : ManifestBody, digest m = digest m' → m.count = m'.count)
    (h : BarriersKept digest db) (hrev : db.graphRevision = closure.graphRevision) :
    ((∃ r, startCascade digest db closure reason = .ok r) ↔
      (inlineClosureLimit < closure.count → GenerationFree db closure.root 1)) ∧
    ∀ db' r, startCascade digest db closure reason = .ok (db', r) → BarriersKept digest db' ∧
      db'.know.heads.state closure.root db'.effective ≠ some .current := by
  unfold startCascade
  rw [if_neg (not_not.mpr hrev)]
  have hid := @getOrCreateManifest_id digest db closure
  have hmanifest := getOrCreateManifest_kept h closure
  obtain ⟨hbarriers, -⟩ := @getOrCreateManifest_barriers digest db closure
  generalize getOrCreateManifest digest db closure = p at *
  obtain ⟨db₁, manifest⟩ := p
  simp only at *
  by_cases hsmall : closure.count ≤ inlineClosureLimit
  · rw [if_pos hsmall]
    refine ⟨⟨fun _ hlarge => by omega, fun _ => ⟨_, rfl⟩⟩, ?_⟩
    intro db' r hok
    cases hok
    refine ⟨h.congr hbarriers hmanifest, ?_⟩
    exact (invalidateFrom_invalidates db₁ _ _ reason).not_current (List.mem_cons_self ..)
  · rw [if_neg hsmall]
    have hlarge : inlineClosureLimit < closure.count := by omega
    obtain ⟨hrow, hst, hcursor⟩ := @firstBarrier_row db₁ closure manifest.id hlarge
    have hkept : (firstBarrier db₁ closure manifest.id).Kept digest := by
      refine ⟨hcursor, ?_⟩
      intro i hi body hbody
      have hi : manifest.id = i := Option.some.inj hi
      exact hdigest _ _ (hbody.trans (hi.symm.trans hid))
    have hid' : (firstBarrier db₁ closure manifest.id).id = db.barriers.length :=
      congrArg List.length hbarriers
    have hfresh : ∀ b ∈ db₁.barriers, b.id ≠ (firstBarrier db₁ closure manifest.id).id := by
      intro b hb heq
      rw [hbarriers] at hb
      have hin : b.id ∈ db.barriers.map (·.id) := List.mem_map_of_mem hb
      rw [h.ids, List.mem_range, heq, hid'] at hin
      exact absurd hin (lt_irrefl _)
    have hkey : db₁.accepts (firstBarrier db₁ closure manifest.id) ↔
        GenerationFree db closure.root 1 := by
      constructor
      · intro hacc b hb
        rw [← hbarriers] at hb
        exact hacc.2 b hb (hfresh b hb)
      · intro hfree
        refine ⟨hrow, fun b hb _ => ?_⟩
        rw [hbarriers] at hb
        exact hfree b hb
    constructor
    · constructor
      · rintro ⟨r, hr⟩ -
        split at hr
        · rename_i hacc
          exact hkey.mp hacc
        · cases hr
      · intro hfree
        exact ⟨_, if_pos (hkey.mpr (hfree hlarge))⟩
    · intro db' r hok
      split at hok
      · rename_i hacc
        cases hok
        refine ⟨h.insert hkept hrow hst hid' (hkey.mp hacc) ?_ hmanifest, ?_⟩
        · rw [← hbarriers]
        · exact (invalidateFrom_invalidates db₁ _ _ reason).not_current
            (List.mem_cons_self ..)
      · cases hok

/-! ## Runs -/

theorem BarriersKept.step {w w' : CascadeWorld} {e : CascadeEvent}
    (hdigest : ∀ m m' : ManifestBody, digest m = digest m' → m.count = m'.count)
    (h : BarriersKept digest w.db) (hstep : cascadeStep digest w e = some w') :
    BarriersKept digest w'.db := by
  cases e with
  | readRevision root =>
    cases hstep
    exact h
  | readEdges i =>
    simp only [cascadeStep] at hstep
    split at hstep
    · cases hstep
      exact h
    · cases hstep
  | startTx i reason =>
    simp only [cascadeStep] at hstep
    split at hstep
    · split at hstep
      · rename_i db r hs
        cases hstep
        have hrev := (startCascade_ok hs).1
        exact ((startCascade_commits reason hdigest h hrev.symm).2 db r hs).1
      · cases hstep
        exact h
    · cases hstep
  | process now id =>
    simp only [cascadeStep] at hstep
    split at hstep
    · rename_i db st hp
      cases hstep
      exact processBarrier_kept hdigest h hp
    · cases hstep
      exact h
  | commitEdges new =>
    cases hstep
    exact h.congr rfl h.manifest
  | writeHead c s head =>
    cases hstep
    exact h.congr rfl h.manifest
  | flip s =>
    cases hstep
    exact h.congr rfl h.manifest
  | dropManifests ids =>
    cases hstep
    refine h.congr rfl fun m hm => h.manifest m ?_
    exact List.mem_of_mem_filter hm

/-- **Which steps commit.** In every state a run reaches from an empty barrier table, the
rows meet the table's constraints; a cascade over a closure of the live graph commits
exactly when its closure is small or the first generation of the root is free, and it
leaves the root without a current head; a step on an open barrier commits exactly when
`StepCommits` holds. -/
theorem steps_commit (hdigest : ∀ m m' : ManifestBody, digest m = digest m' → m.count = m'.count)
    {w₀ w : CascadeWorld} (hbarriers : w₀.db.barriers = []) (hmanifests : w₀.db.manifests = [])
    (hrun : Run (cascadeStep digest) anyStep w₀ w) :
    BarrierTable w.db ∧
    (∀ (i : Nat) closure reason, w.drivers[i]? = some (.closureRead closure) →
      w.db.graphRevision = closure.graphRevision →
      ((∃ db' r, startCascade digest w.db closure reason = .ok (db', r) ∧
          db'.know.heads.state closure.root db'.effective ≠ some .current) ↔
        (inlineClosureLimit < closure.count → GenerationFree w.db closure.root 1))) ∧
    (∀ now id b, w.db.barrier? id = some b → b.status ∉ [.resolved, .blocked] →
      ((∃ r, processBarrier digest now id w.db = .ok r) ↔ StepCommits digest w.db b)) := by
  have hkept : BarriersKept digest w.db := by
    refine hrun.invariant (I := fun w => BarriersKept digest w.db) ?_
      fun hI _ hs => BarriersKept.step hdigest hI hs
    constructor <;> simp [hbarriers, hmanifests]
  refine ⟨hkept.table, ?_, ?_⟩
  · intro i closure reason _ hrev
    obtain ⟨hiff, hok⟩ := startCascade_commits reason hdigest hkept hrev
    rw [← hiff]
    constructor
    · intro ⟨db', r, hr, _⟩
      exact ⟨_, hr⟩
    · intro ⟨r, hr⟩
      exact ⟨r.1, r.2, hr, (hok r.1 r.2 hr).2⟩
  · intro now id b hb hopen
    have hrest := hkept.rest b (List.mem_of_find?_eq_some hb)
    have hactive : b.status = .active := by
      simp only [List.mem_cons, List.not_mem_nil, or_false, not_or] at hrest hopen
      rcases hrest with hst | hst | hst
      · exact hst
      · exact absurd hst hopen.1
      · exact absurd hst hopen.2
    exact (processBarrier_commits now hdigest hkept hb hactive).1

/-! ## A root with thirty-three dependents -/

/-- No claim is assessed and nothing depends on anything. -/
def emptyWorld : CascadeWorld where
  db :=
    { know := { heads := fun _ _ => none, jobs := [], questions := [], revision := 0 }
      effective := 0
      dependencies := []
      graphRevision := 0
      manifests := []
      barriers := [] }
  drivers := []

/-- Claims `1` to `33` depend on claim `0`. -/
def wideEdges : List ClaimDependency :=
  (List.range 33).map fun i => ⟨i + 1, 0, .evidential⟩

/-- A digest that tells closures of different size apart. -/
def sizeDigest (m : ManifestBody) : String := String.ofList (List.replicate m.count 'm')

theorem sizeDigest_count (m m' : ManifestBody) (h : sizeDigest m = sizeDigest m') :
    m.count = m'.count := by
  simpa [sizeDigest] using congrArg String.length h

/-- A cascade from claim `0`, and a second one about to start. -/
def wideEvents : List CascadeEvent :=
  [.commitEdges wideEdges, .readRevision 0, .readEdges 0, .startTx 0 "dispute",
    .readRevision 0, .readEdges 0]

set_option maxRecDepth 20000 in
theorem steps_commit_wide : ∃ w closure, exec (cascadeStep sizeDigest) emptyWorld
      [.commitEdges wideEdges, .readRevision 0, .readEdges 0] = some w ∧
    w.drivers[0]? = some (.closureRead closure) ∧ closure.count = 33 ∧
    ∃ db' r, startCascade sizeDigest w.db closure "dispute" = .ok (db', r) ∧
      db'.know.heads.state closure.root db'.effective ≠ some .current := by
  refine ⟨_, _, rfl, rfl, rfl, ?_⟩
  have hcommit := @steps_commit sizeDigest sizeDigest_count emptyWorld _ rfl rfl
    (Run.of_exec [.commitEdges wideEdges, .readRevision 0, .readEdges 0] rfl)
  exact (hcommit.2.1 0 _ "dispute" rfl rfl).mpr fun _ b hb => by cases hb

set_option maxRecDepth 20000 in
/-- The second cascade from the root is refused: the first barrier of the root stands at
generation 1. -/
theorem repeated_cascade_refused : ¬ ∀ (digest : ManifestBody → String)
    (w₀ w : CascadeWorld), (∀ m m' : ManifestBody, digest m = digest m' → m.count = m'.count) →
    w₀.db.barriers = [] → w₀.db.manifests = [] → Run (cascadeStep digest) anyStep w₀ w →
    (∀ (i : Nat) closure reason, w.drivers[i]? = some (.closureRead closure) →
      w.db.graphRevision = closure.graphRevision →
      ∃ db' r, startCascade digest w.db closure reason = .ok (db', r) ∧
        db'.know.heads.state closure.root db'.effective ≠ some .current) ∧
    (∀ now id b, w.db.barrier? id = some b → b.status ∉ [.resolved, .blocked] →
      ∃ r, processBarrier digest now id w.db = .ok r) := by
  intro hall
  have hrun := @Run.of_exec _ _ (cascadeStep sizeDigest) emptyWorld _ wideEvents rfl
  obtain ⟨db', r, hok, -⟩ := (hall sizeDigest emptyWorld _ sizeDigest_count rfl rfl hrun).1 0 _ "again"
    rfl rfl
  cases hok

end Noezema.Memory
