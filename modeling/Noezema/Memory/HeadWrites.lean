import Noezema.Memory.Coverage

/-! # What the events write

Each event of the system seen through the heads it writes, the `knowledge` revision and the
snapshot rows. The worker settles one head at a time and moves the revision with it, the
lane writes heads of candidates only, and a row keeps its base for good.
-/

namespace Noezema.Memory

open Noezema.Lib

/-! ## The worker -/

namespace Knowledge

/-- At most one head is written, one that was not current, and the revision moves with
it. -/
def Settles (k k' : Knowledge) : Prop :=
  (k'.heads = k.heads ∧ k'.revision = k.revision) ∨
    ∃ c s old v, k.heads c s = some old ∧ old.state ≠ .current ∧ v ≠ .pending ∧
      k'.heads = k.heads.set c s (some v) ∧ k'.revision = k.revision + 1

theorem Settles.of_same {k k' : Knowledge} (hheads : k'.heads = k.heads)
    (hrevision : k'.revision = k.revision) : Settles k k' :=
  .inl ⟨hheads, hrevision⟩

/-- What touches neither heads nor revision comes for free, before or after. -/
theorem Settles.congr {k k₁ k₂ k₃ : Knowledge} (h : Settles k₁ k₂) (hheads : k₁.heads = k.heads)
    (hrevision : k₁.revision = k.revision) (hheads' : k₃.heads = k₂.heads)
    (hrevision' : k₃.revision = k₂.revision) : Settles k k₃ := by
  unfold Settles
  rw [← hheads, ← hrevision, hheads', hrevision']
  exact h

theorem invalidateForGood_settles (k : Knowledge) (c : ClaimId) (s : SnapshotId) :
    Settles k (k.invalidateForGood c s) := by
  rw [invalidateForGood_eq]
  cases hhead : k.heads c s with
  | none => exact .of_same rfl rfl
  | some v =>
    cases v with
    | current a e => exact .of_same rfl rfl
    | pending => exact .inr ⟨c, s, .pending, .invalid, hhead, by simp [Head.state], by simp, rfl, rfl⟩
    | invalid =>
      refine .of_same ?_ rfl
      ext c' s' : 2
      by_cases heq : c' = c ∧ s' = s
      · obtain ⟨rfl, rfl⟩ := heq
        exact (setHead_same k c' s' _).trans hhead.symm
      · exact setHead_other k _ heq

theorem Settles.announces {k k' : Knowledge} (h : Settles k k') : Announces k k' := by
  rcases h with hsame | ⟨c, s, old, v, -, -, -, -, hrevision⟩
  · exact .inl hsame
  · exact .inr (by omega)

/-- A current head stays current. -/
theorem Settles.current {k k' : Knowledge} (h : Settles k k') {c : ClaimId} {s : SnapshotId}
    (hc : k.heads.state c s = some .current) : k'.heads.state c s = some .current := by
  rcases h with ⟨hheads, -⟩ | ⟨c', s', old, v, hold, hne, -, hheads, -⟩
  · rwa [hheads]
  · rw [hheads, Heads.state, Heads.set_other]
    · exact hc
    · rintro ⟨hc', hs'⟩
      rw [Heads.state, hc', hs', hold] at hc
      exact hne (Option.some.inj hc)

/-- A head that is not there is not written. -/
theorem Settles.none {k k' : Knowledge} (h : Settles k k') {c : ClaimId} {s : SnapshotId}
    (hnone : k.heads c s = none) : k'.heads c s = none := by
  rcases h with ⟨hheads, -⟩ | ⟨c', s', old, v, hold, -, -, hheads, -⟩
  · rwa [hheads]
  · rw [hheads, Heads.set_other]
    · exact hnone
    · rintro ⟨hc, hs⟩
      rw [hc, hs, hold] at hnone
      cases hnone

theorem Invalidates.none {k k' : Knowledge} {cs : List ClaimId} {t : SnapshotId}
    (h : Invalidates k k' cs t) {c : ClaimId} {s : SnapshotId} (hnone : k.heads c s = none) :
    k'.heads c s = none := by
  rw [h.heads, hnone]
  simp [invalidated]

/-- A head is never deleted. -/
def KeepsHeads (k k' : Knowledge) : Prop := ∀ c s, k.heads c s ≠ none → k'.heads c s ≠ none

theorem KeepsHeads.refl (k : Knowledge) : KeepsHeads k k := fun _ _ h => h

theorem KeepsHeads.of_same {k k' : Knowledge} (h : k'.heads = k.heads) : KeepsHeads k k' := by
  intro c s hne
  rwa [h]

theorem KeepsHeads.set (k : Knowledge) (c : ClaimId) (s : SnapshotId) (v : Head) :
    KeepsHeads k (k.setHead c s (some v)) := by
  intro c' s' hne
  by_cases heq : c' = c ∧ s' = s
  · obtain ⟨rfl, rfl⟩ := heq
    rw [setHead_same]
    simp
  · rwa [setHead_other k _ heq]

theorem Settles.keepsHeads {k k' : Knowledge} (h : Settles k k') : KeepsHeads k k' := by
  rcases h with ⟨hheads, -⟩ | ⟨c, s, old, v, -, -, -, hheads, -⟩
  · exact .of_same hheads
  · intro c' s' hne
    have hset := KeepsHeads.set k c s v c' s' hne
    rwa [hheads]

theorem Invalidates.keepsHeads {k k' : Knowledge} {cs : List ClaimId} {s : SnapshotId}
    (h : Invalidates k k' cs s) : KeepsHeads k k' := by
  intro c s' hne
  rw [h.heads]
  split
  · cases hk : k.heads c s' with
    | none => exact absurd hk hne
    | some v => cases v <;> simp [invalidated]
  · exact hne

theorem KeepsHeads.foldl {α : Type} {f : Knowledge → α → Knowledge}
    (hf : ∀ k a, KeepsHeads k (f k a)) (as : List α) (k : Knowledge) :
    KeepsHeads k (as.foldl f k) := by
  induction as generalizing k with
  | nil => exact .refl k
  | cons a as ih => exact fun c s hne => ih (f k a) c s (hf k a c s hne)

end Knowledge

namespace MemoryDb

theorem Processed.settles {db db' : MemoryDb} {now : Nat} {i : JobId} {j : ReassessmentJob}
    (h : Processed db now i j db') : Knowledge.Settles db.know db'.know := by
  cases h with
  | unleased => exact .of_same rfl rfl
  | insufficient claim hslot htarget hclaim =>
    refine (Knowledge.invalidateForGood_settles db.know claim.id db.effective).congr rfl rfl ?_ ?_
    · exact Knowledge.enqueueQuestion_heads _ _
    · exact Knowledge.enqueueQuestion_revision _ _
  | settled claim claimScope r hslot htarget hclaim =>
    unfold settleJob
    cases hhead : db.know.heads claim.id db.effective with
    | none => exact .of_same rfl rfl
    | some v =>
      cases v with
      | current a e => exact .of_same rfl rfl
      | pending =>
        exact .inr ⟨claim.id, db.effective, .pending, .current _ _, hhead, by simp [Head.state],
          by simp, rfl, rfl⟩
      | invalid =>
        exact .inr ⟨claim.id, db.effective, .invalid, .current _ _, hhead, by simp [Head.state],
          by simp, rfl, rfl⟩
  | missing hslot htarget =>
    unfold rowMissing
    cases db.claim? j.claimId with
    | none => exact .of_same rfl rfl
    | some claim =>
      refine (Knowledge.invalidateForGood_settles (db.know.enqueueQuestion
        (.reassessmentInsufficient db.effective claim.id)) claim.id db.effective).congr ?_ ?_ rfl rfl
      · exact Knowledge.enqueueQuestion_heads _ _
      · exact Knowledge.enqueueQuestion_revision _ _

theorem blockLostJob_settles (db : MemoryDb) (i : JobId) (errorClass : String)
    (withQuestion : Bool) :
    Knowledge.Settles db.know (db.blockLostJob i errorClass withQuestion).know := by
  unfold blockLostJob
  cases hj : db.know.jobs[i]? with
  | none => exact .of_same rfl rfl
  | some j =>
    simp only
    split
    · exact .of_same rfl rfl
    · refine (Knowledge.invalidateForGood_settles db.know j.claimId
        j.targetConfigSnapshotId).congr rfl rfl ?_ ?_
      · show Knowledge.heads (ite _ _ _) = _
        split
        · exact Knowledge.enqueueQuestion_heads _ _
        · rfl
      · show Knowledge.revision (ite _ _ _) = _
        split
        · exact Knowledge.enqueueQuestion_revision _ _
        · rfl

/-- **What the worker writes**: one case for each of its transactions. -/
theorem workerStep_settles {parseDay parseTime : String → Option Int} {rd : Readers}
    (db : MemoryDb) (e : WorkerEvent) :
    Knowledge.Settles db.know (db.workerStep parseDay parseTime rd e).know := by
  cases e with
  | lease now batchSize leaseSeconds =>
    simp only [workerStep, leaseBatch]
    split
    · exact .of_same rfl rfl
    · exact .of_same rfl rfl
  | defer now batchSize until' => exact .of_same rfl rfl
  | process now i =>
    simp only [workerStep]
    split
    · rename_i db' out h
      rcases processOneJob_cases h with rfl | ⟨j, -, -, hp⟩
      · exact .of_same rfl rfl
      · exact hp.settles
    · exact .of_same rfl rfl
  | failed i failure at' =>
    simp only [workerStep, afterFailure]
    cases failure with
    | ruleValidation error => exact blockLostJob_settles db i _ _
    | transient errorClass =>
      simp only
      split
      · exact blockLostJob_settles db i _ _
      · unfold retryLostJob
        split
        · exact .of_same rfl rfl
        · split
          · exact .of_same rfl rfl
          · exact .of_same rfl rfl
  | recover now => exact .of_same rfl rfl

/-- The worker writes nothing of the cascades but the knowledge. -/
def OnlyKnow (db db' : MemoryDb) : Prop := db'.cascade = { db.cascade with know := db'.know }

theorem blockLostJob_onlyKnow (db : MemoryDb) (i : JobId) (errorClass : String)
    (withQuestion : Bool) : OnlyKnow db (db.blockLostJob i errorClass withQuestion) := by
  unfold blockLostJob
  split
  · rfl
  · split
    · rfl
    · rfl

theorem Processed.onlyKnow {db db' : MemoryDb} {now : Nat} {i : JobId} {j : ReassessmentJob}
    (h : Processed db now i j db') : OnlyKnow db db' := by
  cases h with
  | settled claim claimScope r hslot htarget hclaim =>
    unfold settleJob
    split
    · rfl
    · rfl
    · rfl
  | _ => rfl

theorem workerStep_onlyKnow {parseDay parseTime : String → Option Int} {rd : Readers}
    (db : MemoryDb) (e : WorkerEvent) :
    OnlyKnow db (db.workerStep parseDay parseTime rd e) := by
  cases e with
  | lease now batchSize leaseSeconds =>
    simp only [workerStep, leaseBatch]
    split
    · rfl
    · rfl
  | defer now batchSize until' => rfl
  | process now i =>
    simp only [workerStep]
    split
    · rename_i db' out h
      rcases processOneJob_cases h with rfl | ⟨j, -, -, hp⟩
      · rfl
      · exact hp.onlyKnow
    · rfl
  | failed i failure at' =>
    simp only [workerStep, afterFailure]
    cases failure with
    | ruleValidation error => exact blockLostJob_onlyKnow db i _ _
    | transient errorClass =>
      simp only
      split
      · exact blockLostJob_onlyKnow db i _ _
      · unfold retryLostJob
        split
        · rfl
        · split
          · rfl
          · rfl
  | recover now => rfl

/-! ## The lane -/

theorem prepareClaim_revision (base candidate : ConfigSnapshot) (k : Knowledge)
    (claim : Claim) : (prepareClaim base candidate k claim).revision = k.revision := by
  unfold prepareClaim
  split
  · rfl
  · exact Knowledge.enqueueJob_revision _ _ _ _

theorem prepareClaim_keepsHeads (base candidate : ConfigSnapshot) (k : Knowledge)
    (claim : Claim) : Knowledge.KeepsHeads k (prepareClaim base candidate k claim) := by
  unfold prepareClaim
  split
  · exact .set _ _ _ _
  · intro c s hne
    rw [Knowledge.enqueueJob_heads]
    exact Knowledge.KeepsHeads.set k claim.id candidate.id .pending c s hne

theorem prepareClaims_revision (base candidate : ConfigSnapshot) (batch : List Claim)
    (k : Knowledge) : (batch.foldl (prepareClaim base candidate) k).revision = k.revision := by
  induction batch generalizing k with
  | nil => rfl
  | cons claim batch ih => exact (ih _).trans (prepareClaim_revision base candidate k claim)

/-- A step of the lane deletes no head. -/
theorem LaneChange.keepsHeads {db db' : MemoryDb} {e : LaneEvent} (h : LaneChange db e db') :
    Knowledge.KeepsHeads db.know db'.know := by
  cases h with
  | rolledBack => exact .refl _
  | slot h => exact .refl _
  | requested id q he hid => exact .refl _
  | row c c' h hrow hid hbase hmove hseal => exact .refl _
  | prepared now r c base batch n size he hr hrow hst hbase hbatch =>
    exact .foldl (prepareClaim_keepsHeads base c) batch db.know
  | flipped now c hrow hst hready =>
    rw [moveFlip_know]
    exact .of_same rfl
  | batch c batchSize hrow hst => exact .of_same (Knowledge.enqueueQuestions_heads _ _ _)

/-- Where the row of a snapshot comes from after the step `e`. -/
inductive RowOrigin (db : MemoryDb) (e : LaneEvent) (c' : ConfigSnapshot) : Prop where
  | requested (q : ConfigRequest) : e = .request c'.id q → db.snapshot? c'.id = none →
      c'.cohortRevision = none → c'.headsSha256 = none →
      c'.baseSnapshotId = some db.effective → RowOrigin db e c'
  | moved (c : ConfigSnapshot) : db.snapshot? c'.id = some c →
      c'.baseSnapshotId = c.baseSnapshotId → (c'.state ∈ earlyStates → c.state ∈ earlyStates) →
      SealMove db e c c' → RowOrigin db e c'

theorem RowOrigin.same {db : MemoryDb} {e : LaneEvent} {c : ConfigSnapshot} {s : SnapshotId}
    (h : db.snapshot? s = some c) : RowOrigin db e c :=
  .moved c (by rwa [snapshot?_id h]) rfl id (.kept rfl rfl rfl)

theorem RowMove.early_of {db : MemoryDb} {c c' : ConfigSnapshot} (h : RowMove db c c') :
    c'.state ∈ earlyStates → c.state ∈ earlyStates := by
  intro hst
  cases h with
  | early hearly => exact hearly
  | kept hsame => rwa [hsame] at hst
  | blocked _ hblocked => simp [earlyStates, hblocked] at hst
  | completed _ hactive => simp [earlyStates, hactive] at hst
  | closed hclosed =>
    simp only [List.mem_cons, List.not_mem_nil, or_false] at hclosed
    rcases hclosed with heq | heq <;> simp [earlyStates, heq] at hst

/-- Writing a row: its own row moves, the others stay. -/
theorem RowOrigin.write {db : MemoryDb} {e : LaneEvent} {c x : ConfigSnapshot}
    {s : SnapshotId} (c' : ConfigSnapshot) (hc : db.snapshot? c.id = some c) (hid : c'.id = c.id)
    (hbase : c'.baseSnapshotId = c.baseSnapshotId) (hearly : c'.state ∈ earlyStates → c.state ∈ earlyStates)
    (hseal : SealMove db e c c') (hx : (db.setSnapshot c').snapshot? s = some x) :
    RowOrigin db e x := by
  rw [snapshot?_setSnapshot] at hx
  split at hx
  · obtain ⟨old, -, rfl⟩ := Option.map_eq_some_iff.mp hx
    exact .moved c (by rwa [hid]) hbase hearly hseal
  · exact .same hx

/-- **The rows after a step of the lane.** -/
theorem LaneChange.origin {db db' : MemoryDb} {e : LaneEvent} (h : LaneChange db e db')
    {s : SnapshotId} {c' : ConfigSnapshot} (hc' : db'.snapshot? s = some c') :
    RowOrigin db e c' := by
  cases h with
  | rolledBack => exact .same hc'
  | slot h => exact .same hc'
  | requested id q he hid =>
    simp only [snapshot?, List.find?_append] at hc'
    cases hold : db.snapshots.find? fun r => r.id = s with
    | some c =>
      rw [hold] at hc'
      obtain rfl : c = c' := Option.some.inj hc'
      exact .same hold
    | none =>
      rw [hold, Option.none_or] at hc'
      have hmem := List.mem_of_find?_eq_some hc'
      rw [List.mem_singleton.mp hmem]
      exact .requested q he hid rfl rfl rfl
  | row c c₁ h hrow hid hbase hmove hseal =>
    exact .write c₁ hrow hid hbase hmove.early_of hseal hc'
  | prepared now r c base batch n size he hr hrow hst hbase hbatch => exact .same hc'
  | flipped now c hrow hst hready =>
    have hsnap : ((db.setSnapshot (MemoryDb.flipped now c)).supersedeBase
        c.baseSnapshotId).snapshot? s = some c' := hc'
    have hflipped : ∀ {t : SnapshotId} {x : ConfigSnapshot},
        (db.setSnapshot (MemoryDb.flipped now c)).snapshot? t = some x → RowOrigin db e x := by
      intro t x hx
      refine .write (MemoryDb.flipped now c) hrow rfl rfl ?_ (.kept rfl rfl rfl) hx
      intro hst
      simp [earlyStates, MemoryDb.flipped] at hst
    unfold supersedeBase at hsnap
    split at hsnap
    · rename_i previous hprevious
      split at hsnap
      · rw [snapshot?_setSnapshot] at hsnap
        split at hsnap
        · obtain ⟨old, hold, rfl⟩ := Option.map_eq_some_iff.mp hsnap
          obtain ⟨t, -, hrow'⟩ := Option.bind_eq_some_iff.mp hprevious
          cases hflipped hrow' with
          | requested q he hnone hcohort hsha hbase =>
            exact .requested q he hnone hcohort hsha hbase
          | moved x hx hbase hearly hseal =>
            refine .moved x hx hbase (fun hst => by simp [earlyStates] at hst) ?_
            cases hseal with
            | kept h₁ h₂ h₃ => exact .kept h₁ h₂ h₃
            | frozen h₁ h₂ h₃ h₄ => exact .frozen h₁ h₂ h₃ h₄
            | verified now r h₁ h₂ h₃ h₄ h₅ h₆ => exact .verified now r h₁ h₂ h₃ h₄ h₅ h₆
        · exact hflipped hsnap
      · exact hflipped hsnap
    · exact hflipped hsnap
  | batch c batchSize hrow hst =>
    let row := { c with
      postPublishCursor := c.postPublishCursor + (db.manifestSlice c batchSize).length }
    have hsnap : (db.setSnapshot row).snapshot? s = some c' := hc'
    exact .write row hrow rfl rfl id (.kept rfl rfl rfl) hsnap

theorem setSnapshot_isSome {db : MemoryDb} {row : ConfigSnapshot} {s : SnapshotId}
    (h : (db.snapshot? s).isSome) : ((db.setSnapshot row).snapshot? s).isSome := by
  rw [snapshot?_setSnapshot]
  split
  · rwa [Option.isSome_map]
  · exact h

/-- A step of the lane deletes no row. -/
theorem LaneChange.keepsRows {db db' : MemoryDb} {e : LaneEvent} (h : LaneChange db e db')
    {s : SnapshotId} (hs : (db.snapshot? s).isSome) : (db'.snapshot? s).isSome := by
  cases h with
  | rolledBack => exact hs
  | slot h => exact hs
  | requested id q he hid =>
    simp only [snapshot?, List.find?_append, Option.isSome_or, Bool.or_eq_true]
    exact .inl hs
  | row c c' h hrow hid hbase hmove hseal => exact setSnapshot_isSome hs
  | prepared now r c base batch n size he hr hrow hst hbase hbatch => exact hs
  | flipped now c hrow hst hready =>
    show (((db.setSnapshot (MemoryDb.flipped now c)).supersedeBase c.baseSnapshotId).snapshot?
      s).isSome
    unfold supersedeBase
    split
    · split
      · exact setSnapshot_isSome (setSnapshot_isSome hs)
      · exact setSnapshot_isSome hs
    · exact setSnapshot_isSome hs
  | batch c batchSize hrow hst => exact @setSnapshot_isSome db _ s hs

/-- A step of the lane writes heads by a preparation only, which leaves all rows as they
are. -/
theorem LaneChange.heads {db db' : MemoryDb} {e : LaneEvent} (h : LaneChange db e db') :
    db'.know.heads = db.know.heads ∨ ∃ (now : Nat) (r : Runner) (c base : ConfigSnapshot)
      (batch : List Claim) (prepared batchSize : Nat),
      e = .prepare now r prepared batchSize ∧ r.candidate = c.id ∧
      db.snapshot? c.id = some c ∧ c.state ∈ preparing ∧ c.baseSnapshotId = some base.id ∧
      db' = db.withKnow (batch.foldl (prepareClaim base c) db.know) := by
  cases h with
  | rolledBack => exact .inl rfl
  | slot h => exact .inl rfl
  | requested id q he hid => exact .inl rfl
  | row c c' h hrow hid hbase hmove hseal => exact .inl rfl
  | prepared now r c base batch n size he hr hrow hst hbase hbatch =>
    exact .inr ⟨now, r, c, base, batch, n, size, he, hr, hrow, hst, hbase, rfl⟩
  | flipped now c hrow hst hready =>
    rw [moveFlip_know]
    exact .inl rfl
  | batch c batchSize hrow hst => exact .inl (Knowledge.enqueueQuestions_heads _ _ _)

/-- A step of the lane moves the pointer by a flip only, which bumps the revision. -/
theorem LaneChange.effective {db db' : MemoryDb} {e : LaneEvent} (h : LaneChange db e db') :
    (db'.effective = db.effective ∧ db.know.revision ≤ db'.know.revision) ∨
      ∃ c, db.snapshot? c.id = some c ∧ c.state = .publishing ∧ FlipReady db c ∧
        db'.effective = c.id ∧ db'.know.heads = db.know.heads ∧ db'.know.revision = db.know.revision + 1 := by
  cases h with
  | rolledBack => exact .inl ⟨rfl, Nat.le_refl _⟩
  | slot h => exact .inl ⟨rfl, Nat.le_refl _⟩
  | requested id q he hid => exact .inl ⟨rfl, Nat.le_refl _⟩
  | row c c' h hrow hid hbase hmove hseal => exact .inl ⟨rfl, Nat.le_refl _⟩
  | prepared now r c base batch n size he hr hrow hst hbase hbatch =>
    exact .inl ⟨rfl, (prepareClaims_revision base c batch db.know).ge⟩
  | flipped now c hrow hst hready =>
    refine .inr ⟨c, hrow, hst, hready, rfl, ?_, ?_⟩
    · rw [moveFlip_know]
      rfl
    · rw [moveFlip_know]
      rfl
  | batch c batchSize hrow hst =>
    refine .inl ⟨rfl, ?_⟩
    show _ ≤ (Knowledge.enqueueQuestions _ _ db.know).1.revision + 1
    rw [enqueueQuestions_revision]
    omega

end MemoryDb

end Noezema.Memory
