import Noezema.Lib.Run
import Noezema.Lib.Cursor
import Noezema.Memory.Worker
import Noezema.Memory.Lane

/-! # The manifest of a flip

From the flip of a candidate on, the post-publish batches, the worker, the repair and
the invalidations interleave. The cursor is a place in the list of pending claims,
which each batch reads anew: a claim that leaves the list in front of the cursor moves
the next one behind it. `FrontAnswered` is what the cursor stands for; it is kept
exactly while no unanswered claim of the manifest comes in front of the cursor.
-/

namespace Noezema.Memory

open Noezema.Lib

inductive ManifestEvent where
  | lane (e : LaneEvent)
  | worker (e : WorkerEvent)
  /-- A change of the evidence takes an assessed claim back to pending. -/
  | invalidate (claim : ClaimId) (reason : String)
  /-- Sessions come and go. -/
  | sessions (load : SessionLoad)

namespace MemoryDb

section Step

variable (parseDay parseTime : String → Option Int) (rd : Readers)
  (digest : List (ClaimId × Head) → String)

/-- One transaction around an open manifest. -/
def manifestStep (db : MemoryDb) : ManifestEvent → Option MemoryDb
  | .lane e => db.laneStep digest e
  | .worker e => some (db.workerStep parseDay parseTime rd e)
  | .invalidate c reason =>
    some (db.withKnow (db.know.cascadeClaim c db.effective reason).1)
  | .sessions load => some { db with sessions := load }

end Step

/-! ## The pending list -/

theorem pendingClaimIds_sorted (db : MemoryDb) (s : SnapshotId) :
    (db.pendingClaimIds s).Pairwise (· < ·) := by
  have hle := List.pairwise_insertionSort (· ≤ ·)
    ((db.claims.map (·.id)).dedup.filter fun c => db.know.heads c s = some .pending)
  have hnodup : (db.pendingClaimIds s).Nodup :=
    (List.perm_insertionSort (· ≤ ·) _).nodup_iff.mpr ((List.nodup_dedup _).filter _)
  exact (List.pairwise_and_iff.mpr ⟨hle, hnodup⟩).imp fun h => lt_of_le_of_ne h.1 h.2

theorem pendingClaimIds_congr {db db' : MemoryDb} {s : SnapshotId}
    (hclaims : db'.claims = db.claims)
    (hheads : ∀ c, db'.know.heads c s = db.know.heads c s) :
    db'.pendingClaimIds s = db.pendingClaimIds s := by
  simp only [pendingClaimIds, hclaims, hheads]

/-! ## The invariant -/

/-- The claims of the manifest in front of the cursor. -/
def front (db : MemoryDb) (c : ConfigSnapshot) : List ClaimId :=
  (db.pendingClaimIds c.id).take c.postPublishCursor

/-- Every claim of the manifest in front of the cursor has its question. -/
def FrontAnswered (manifest : List ClaimId) (db : MemoryDb) (c : ConfigSnapshot) : Prop :=
  ∀ claim ∈ manifest, claim ∈ db.front c →
    QuestionName.activationPending c.id claim ∈ db.know.questions

/-- The candidate was flipped; while its manifest is open, the front is answered. -/
def ManifestKept (candidate : SnapshotId) (manifest : List ClaimId) (db : MemoryDb) : Prop :=
  ∃ c, db.snapshot? candidate = some c ∧
    c.state ∉ [.draft, .preparingHeads, .ready, .publishing] ∧
    (c.state ∈ manifestOpen → FrontAnswered manifest db c)

/-- **When the cursor skips no claim.** The worker settles no claim in front of the
cursor while a claim of the manifest without its question stands at the cursor, and no
claim of the manifest without its question becomes pending again in front of it. -/
def SkipsNone (candidate : SnapshotId) (manifest : List ClaimId) (db : MemoryDb) :
    ManifestEvent → Prop
  | .worker e => ∀ c, db.snapshot? candidate = some c → c.state ∈ manifestOpen →
      ∀ j, db.Settles j e → j.targetConfigSnapshotId = candidate →
      j.claimId ∈ db.front c → ∀ claim ∈ manifest,
      (db.pendingClaimIds candidate)[c.postPublishCursor]? = some claim →
      QuestionName.activationPending candidate claim ∈ db.know.questions
  | .invalidate claim _ => ∀ c, db.snapshot? candidate = some c → c.state ∈ manifestOpen →
      db.effective = candidate → claim ∈ manifest →
      db.know.heads.state claim candidate = some .current →
      rank (db.pendingClaimIds candidate) claim < c.postPublishCursor →
      QuestionName.activationPending candidate claim ∈ db.know.questions
  | _ => True

/-- What neither touches the row, nor the pending list, nor loses a question. -/
theorem ManifestKept.congr {candidate : SnapshotId} {manifest : List ClaimId}
    {db db' : MemoryDb} (h : ManifestKept candidate manifest db)
    (hrow : ∀ c, db.snapshot? candidate = some c → ∃ c', db'.snapshot? candidate = some c' ∧
      c'.state = c.state ∧ c'.postPublishCursor = c.postPublishCursor)
    (hpending : db'.pendingClaimIds candidate = db.pendingClaimIds candidate)
    (hq : ∀ q ∈ db.know.questions, q ∈ db'.know.questions) :
    ManifestKept candidate manifest db' := by
  obtain ⟨c, hc, hst, hfront⟩ := h
  obtain ⟨c', hc', hst', hcur⟩ := hrow c hc
  have hid := snapshot?_id hc
  have hid' := snapshot?_id hc'
  refine ⟨c', hc', by rwa [hst'], ?_⟩
  intro hopen claim hclaim hin
  rw [hst'] at hopen
  rw [front, hid', hpending, hcur, ← hid] at hin
  rw [hid', ← hid]
  exact hq _ (hfront hopen claim hclaim hin)

/-! ## The worker and the invalidations -/

/-- A transaction of the worker removes one claim from the pending list at most, the
one whose job it settles. -/
theorem workerStep_pending {parseDay parseTime : String → Option Int} {rd : Readers}
    (db : MemoryDb) (e : WorkerEvent) (s : SnapshotId) :
    (∀ c ∈ db.pendingClaimIds s,
      c ∈ (db.workerStep parseDay parseTime rd e).pendingClaimIds s) ∨
    ∃ j, db.Settles j e ∧ j.targetConfigSnapshotId = s ∧ ∀ c ∈ db.pendingClaimIds s,
      c ≠ j.claimId → c ∈ (db.workerStep parseDay parseTime rd e).pendingClaimIds s := by
  have ht := @workerStep_touches parseDay parseTime rd db e
  generalize db.workerStep parseDay parseTime rd e = db' at ht
  have hkeep : ∀ c ∈ db.pendingClaimIds s, c ∈ db'.pendingClaimIds s ∨
      ∃ j, db.Settles j e ∧ j.claimId = c ∧ j.targetConfigSnapshotId = s := by
    intro c hc
    obtain ⟨hrow, hhead⟩ := mem_pendingClaimIds.mp hc
    rcases ht.heads c s with hsame | ⟨howned, -⟩
    · refine .inl (mem_pendingClaimIds.mpr ⟨by rwa [ht.claims], ?_⟩)
      rwa [hsame]
    · exact .inr howned
  by_cases hj : ∃ j, db.Settles j e ∧ j.targetConfigSnapshotId = s
  · obtain ⟨j, hset, htarget⟩ := hj
    refine .inr ⟨j, hset, htarget, ?_⟩
    intro c hc hne
    rcases hkeep c hc with hmem | ⟨j', hset', hclaim, -⟩
    · exact hmem
    · rw [settles_unique hset hset'] at hne
      exact absurd hclaim.symm hne
  · refine .inl fun c hc => ?_
    rcases hkeep c hc with hmem | ⟨j, hset, -, htarget⟩
    · exact hmem
    · exact absurd ⟨j, hset, htarget⟩ hj

/-- The worker makes no claim pending. -/
theorem pending_of_workerStep {parseDay parseTime : String → Option Int} {rd : Readers}
    {db : MemoryDb} {e : WorkerEvent} {s : SnapshotId} {c : ClaimId}
    (h : c ∈ (db.workerStep parseDay parseTime rd e).pendingClaimIds s) :
    c ∈ db.pendingClaimIds s := by
  have ht := @workerStep_touches parseDay parseTime rd db e
  obtain ⟨hrow, hhead⟩ := mem_pendingClaimIds.mp h
  refine mem_pendingClaimIds.mpr ⟨by rwa [ht.claims] at hrow, ?_⟩
  rcases ht.heads c s with hsame | ⟨-, -, hne⟩
  · rwa [hsame] at hhead
  · exact absurd hhead hne

theorem ManifestKept.worker {parseDay parseTime : String → Option Int} {rd : Readers}
    {candidate : SnapshotId} {manifest : List ClaimId} {db : MemoryDb} {e : WorkerEvent}
    (h : ManifestKept candidate manifest db)
    (hguard : SkipsNone candidate manifest db (.worker e)) :
    ManifestKept candidate manifest (db.workerStep parseDay parseTime rd e) := by
  obtain ⟨c, hc, hst, hfront⟩ := h
  have ht := @workerStep_touches parseDay parseTime rd db e
  have hid := snapshot?_id hc
  refine ⟨c, by rwa [snapshot?, ht.snapshots], hst, ?_⟩
  intro hopen claim hclaim hin
  have hpend := pending_of_workerStep (List.mem_of_mem_take hin)
  refine ht.questions _ ?_
  rcases @workerStep_pending parseDay parseTime rd db e c.id with hall | ⟨j, hset, htarget, hrest⟩
  · exact hfront hopen claim hclaim (mem_take_of_insert (pendingClaimIds_sorted db c.id)
      (pendingClaimIds_sorted _ c.id) hall hpend hin)
  · rcases mem_take_of_remove (pendingClaimIds_sorted db c.id)
      (pendingClaimIds_sorted _ c.id) hrest hpend hin with hold | ⟨hj, hat⟩
    · exact hfront hopen claim hclaim hold
    · rw [hid] at hat htarget ⊢
      exact hguard c hc hopen j hset htarget hj claim hclaim hat

theorem ManifestKept.invalidate {candidate : SnapshotId} {manifest : List ClaimId}
    {db : MemoryDb} {claim : ClaimId} {reason : String}
    (h : ManifestKept candidate manifest db)
    (hguard : SkipsNone candidate manifest db (.invalidate claim reason)) :
    ManifestKept candidate manifest
      (db.withKnow (db.know.cascadeClaim claim db.effective reason).1) := by
  obtain ⟨c, hc, hst, hfront⟩ := h
  have hinv := Knowledge.cascadeClaim_invalidates db.know claim db.effective reason
  have hq := Knowledge.cascadeClaim_questions db.know claim db.effective reason
  generalize (db.know.cascadeClaim claim db.effective reason).1 = k at hinv hq
  have hid := snapshot?_id hc
  refine ⟨c, hc, hst, ?_⟩
  intro hopen x hx hin
  have hin' : x ∈ ((db.withKnow k).pendingClaimIds c.id).take c.postPublishCursor := hin
  -- nothing leaves the list
  have hkeep : ∀ y ∈ db.pendingClaimIds c.id, y ∈ (db.withKnow k).pendingClaimIds c.id := by
    intro y hy
    obtain ⟨hrow, hhead⟩ := mem_pendingClaimIds.mp hy
    refine mem_pendingClaimIds.mpr ⟨hrow, ?_⟩
    rw [withKnow_know, hinv.heads, hhead]
    split <;> rfl
  show QuestionName.activationPending c.id x ∈ k.questions
  rw [hq]
  by_cases hold : x ∈ db.pendingClaimIds c.id
  · exact hfront hopen x hx (mem_take_of_insert (pendingClaimIds_sorted db c.id)
      (pendingClaimIds_sorted _ c.id) hkeep hold hin')
  · -- the claim comes back into the list: the place it takes is its rank
    have hnew : db.know.heads x c.id ≠ some .pending := by
      intro hp
      obtain ⟨hrow, -⟩ := mem_pendingClaimIds.mp (List.mem_of_mem_take hin')
      exact hold (mem_pendingClaimIds.mpr ⟨hrow, hp⟩)
    obtain ⟨-, hhead⟩ := mem_pendingClaimIds.mp (List.mem_of_mem_take hin')
    rw [withKnow_know, hinv.heads] at hhead
    split at hhead
    · rename_i heq
      obtain ⟨hmem, htarget⟩ := heq
      obtain rfl := List.mem_singleton.mp hmem
      have hcur : db.know.heads.state x c.id = some .current := by
        unfold Heads.state
        cases hh : db.know.heads x c.id with
        | none => simp [hh, Knowledge.invalidated] at hhead
        | some v =>
          cases v with
          | current a e => rfl
          | pending => exact absurd hh hnew
          | invalid => simp [hh, Knowledge.invalidated] at hhead
      have hrank := ((mem_take_iff (pendingClaimIds_sorted _ c.id)).mp hin').2
      have hle := rank_le_of_subset (pendingClaimIds_sorted db c.id).nodup hkeep x
      rw [hid] at hcur hrank hle htarget ⊢
      exact hguard c hc hopen htarget.symm hx hcur (by omega)
    · exact absurd hhead hnew

/-! ## The lane -/

/-- The batch: the slice behind the old cursor is answered, and the cursor moves by it. -/
theorem FrontAnswered.batch {manifest : List ClaimId} {db : MemoryDb} {c : ConfigSnapshot}
    (h : FrontAnswered manifest db c) (batchSize : Nat) :
    FrontAnswered manifest (db.manifestBatch c batchSize).1
      { c with postPublishCursor :=
          c.postPublishCursor + (db.manifestSlice c batchSize).length } := by
  intro claim hclaim hin
  have hpending : (db.manifestBatch c batchSize).1.pendingClaimIds c.id =
      db.pendingClaimIds c.id := by
    refine pendingClaimIds_congr rfl fun x => ?_
    exact congrFun (congrFun (Knowledge.enqueueQuestions_heads _ _ _) x) c.id
  rw [front, hpending, List.take_add] at hin
  show _ ∈ (Knowledge.enqueueQuestions _ (db.manifestSlice c batchSize) db.know).1.questions
  rcases List.mem_append.mp hin with hold | hnew
  · exact Knowledge.enqueueQuestions_subset _ _ _ _ (h claim hclaim hold)
  · refine @Knowledge.enqueueQuestions_mem (.activationPending c.id) _ _ ?_ db.know
    exact List.take_subset_take_left _ (List.length_take_le _ _) hnew

theorem ManifestKept.lane {candidate : SnapshotId} {manifest : List ClaimId}
    {db db' : MemoryDb} {e : LaneEvent} (h : ManifestKept candidate manifest db)
    (hchange : LaneChange db e db') : ManifestKept candidate manifest db' := by
  obtain ⟨c₀, hc₀, hst₀, hfront₀⟩ := id h
  have hid₀ := snapshot?_id hc₀
  cases hchange with
  | rolledBack => exact h
  | slot head => exact h.congr (fun c hc => ⟨c, hc, rfl, rfl⟩) rfl fun _ hq => hq
  | requested id q he hid =>
    refine h.congr (fun x hx => ⟨x, ?_, rfl, rfl⟩) rfl fun _ hq => hq
    rw [snapshot?, List.find?_append, show db.snapshots.find? _ = some x from hx]
    rfl
  | row c c' head hc hid hbase hmove hseal =>
    by_cases heq : c.id = candidate
    · obtain rfl : c = c₀ := by
        rw [heq, hc₀] at hc
        exact (Option.some.inj hc).symm
      have hrow : (db.setSnapshot c').snapshot? candidate = some c' :=
        setSnapshot_same (hid.trans heq) hc₀
      cases hmove with
      | early hearly => exact absurd hearly hst₀
      | kept hst hcur =>
        refine h.congr (fun x hx => ⟨c', hrow, ?_⟩) rfl fun _ hq => hq
        obtain rfl : c = x := Option.some.inj (hc₀.symm.trans hx)
        exact ⟨hst, hcur⟩
      | blocked hpost hst hcur =>
        refine ⟨c', hrow, by simp [hst], fun _ claim hclaim hin => ?_⟩
        have hin' : claim ∈ (db.pendingClaimIds c'.id).take c'.postPublishCursor := hin
        rw [hid, hcur] at hin'
        rw [hid]
        exact hfront₀ (by simp [manifestOpen, hpost]) claim hclaim hin'
      | completed hopen hst hdone =>
        exact ⟨c', hrow, by simp [hst], fun hopen' => by simp [manifestOpen, hst] at hopen'⟩
      | closed hst' =>
        refine ⟨c', hrow, ?_, fun hopen' => ?_⟩
        · rcases List.mem_cons.mp hst' with hs | hs
          · simp [hs]
          · simp [List.mem_singleton.mp hs]
        · rcases List.mem_cons.mp hst' with hs | hs
          · simp [manifestOpen, hs] at hopen'
          · simp [manifestOpen, List.mem_singleton.mp hs] at hopen'
    · refine h.congr (fun x hx => ⟨x, ?_, rfl, rfl⟩) rfl fun _ hq => hq
      show (db.setSnapshot c').snapshot? candidate = _
      rwa [setSnapshot_other (by rwa [hid])]
  | prepared now r c base batch n size he hr hc hst hbase hbatch =>
    -- a candidate that is being prepared is not the flipped one
    have hne : c.id ≠ candidate := by
      intro heq
      rw [heq, hc₀] at hc
      rw [Option.some.inj hc] at hst₀
      exact hst₀ (List.mem_cons_of_mem _ hst)
    have honly := Knowledge.PreparesOnly.foldl (prepareClaim_only base c) batch db.know
    refine h.congr (fun x hx => ⟨x, hx, rfl, rfl⟩) ?_ fun q hq => by
      rw [withKnow_know, honly.questions]
      exact hq
    refine pendingClaimIds_congr rfl fun x => ?_
    exact honly.heads x candidate fun hin => hne hin.2.symm
  | flipped now c hc hst hready =>
    obtain ⟨hbase, hne, -, -⟩ := hready
    have hne : c.id ≠ candidate := by
      intro heq
      rw [heq, hc₀] at hc
      rw [Option.some.inj hc, hst] at hst₀
      simp at hst₀
    have hkept : (db.setSnapshot (flipped now c)).snapshot? candidate = some c₀ := by
      rw [setSnapshot_other (show (flipped now c).id ≠ candidate from hne)]
      exact hc₀
    have hpending : (db.moveFlip now c).pendingClaimIds candidate =
        db.pendingClaimIds candidate := by
      refine pendingClaimIds_congr (moveFlip_claims db now c) fun x => ?_
      rw [moveFlip_know]
      rfl
    have hsnap : (db.moveFlip now c).snapshot? candidate =
        ((db.setSnapshot (flipped now c)).supersedeBase c.baseSnapshotId).snapshot?
          candidate := rfl
    rw [hbase] at hsnap
    rcases @supersedeBase_snapshot? _ db.effective _ _ hkept with hsame | hsuper
    · refine h.congr (fun x hx => ⟨x, ?_, rfl, rfl⟩) hpending fun q hq => ?_
      · rw [hsnap, hsame]
        exact hc₀.symm.trans hx
      · rw [moveFlip_know]
        exact hq
    · refine ⟨_, hsnap.trans hsuper, by simp, fun hopen => by simp [manifestOpen] at hopen⟩
  | batch c batchSize hc hst =>
    by_cases heq : c.id = candidate
    · obtain rfl : c = c₀ := by
        rw [heq, hc₀] at hc
        exact (Option.some.inj hc).symm
      refine ⟨_, setSnapshot_same heq hc₀, hst₀, fun hopen => ?_⟩
      exact (hfront₀ hst).batch batchSize
    · refine h.congr (fun x hx => ⟨x, ?_, rfl, rfl⟩) ?_ ?_
      · exact (manifestBatch_other db batchSize heq).trans hx
      · refine pendingClaimIds_congr rfl fun x => ?_
        exact congrFun (congrFun (Knowledge.enqueueQuestions_heads _ _ _) x) candidate
      · exact Knowledge.enqueueQuestions_subset _ _ _

/-! ## Runs from the flip -/

section Runs

variable {parseDay parseTime : String → Option Int} {rd : Readers}
  {digest : List (ClaimId × Head) → String}

/-- The step lemma. -/
theorem ManifestKept.step {candidate : SnapshotId} {manifest : List ClaimId}
    {db db' : MemoryDb} {e : ManifestEvent} (h : ManifestKept candidate manifest db)
    (hguard : SkipsNone candidate manifest db e)
    (hstep : db.manifestStep parseDay parseTime rd digest e = some db') :
    ManifestKept candidate manifest db' := by
  cases e with
  | lane e => exact h.lane (laneStep_change hstep)
  | worker e =>
    cases hstep
    exact h.worker hguard
  | invalidate claim reason =>
    cases hstep
    exact h.invalidate hguard
  | sessions load =>
    cases hstep
    exact h

/-- The flip opens the manifest at cursor 0. -/
theorem flip_opens {db₀ db : MemoryDb} {now : Nat} {r : Runner}
    (hflip : db₀.flip now r = .ok db) (hmoved : db₀.effective ≠ r.candidate)
    (manifest : List ClaimId) : ManifestKept r.candidate manifest db := by
  obtain ⟨c, hc, -⟩ := bind_eq_ok.mp hflip
  have hrow := row_ok.mp hc
  have hid := snapshot?_id hrow
  rcases flip_change hrow hflip with ⟨rfl, heq⟩ | ⟨rfl, -, hbase, hne, -, -⟩
  · exact absurd (heq.trans hid) hmoved
  · have hopen : (db₀.setSnapshot (flipped now c)).snapshot? r.candidate =
        some (flipped now c) := setSnapshot_same hid hrow
    have hsnap : (db₀.moveFlip now c).snapshot? r.candidate =
        ((db₀.setSnapshot (flipped now c)).supersedeBase c.baseSnapshotId).snapshot?
          r.candidate := rfl
    rw [hbase] at hsnap
    rcases @supersedeBase_snapshot? _ db₀.effective _ _ hopen with hsame | hsuper
    · refine ⟨_, hsnap.trans hsame, by simp [flipped], fun _ claim _ hin => ?_⟩
      simp [front, flipped] at hin
    · exact ⟨_, hsnap.trans hsuper, by simp, fun h => by simp [manifestOpen] at h⟩

/-- The lane activates a snapshot by the completion of its manifest only, at a cursor
behind all its pending claims. -/
theorem LaneChange.completed {db db' : MemoryDb} {e : LaneEvent} (h : LaneChange db e db')
    {candidate : SnapshotId} {c : ConfigSnapshot} (hc : db.snapshot? candidate = some c)
    (hst : c.state ∉ [.draft, .preparingHeads, .ready, .publishing, .active])
    (hactive : db'.inState candidate [.active]) :
    c.state ∈ manifestOpen ∧ (db.pendingClaimIds candidate).length ≤ c.postPublishCursor ∧
      db'.pendingClaimIds candidate = db.pendingClaimIds candidate ∧
      db'.know.questions = db.know.questions := by
  have hnot : ∀ x, db'.snapshot? candidate = some x → x.state = c.state → False := by
    intro x hx hsame
    simp only [inState, hx, Option.any_some, decide_eq_true_eq, List.mem_singleton] at hactive
    rw [← hsame, hactive] at hst
    simp at hst
  have hid := snapshot?_id hc
  cases h with
  | rolledBack => exact (hnot c hc rfl).elim
  | slot head => exact (hnot c hc rfl).elim
  | requested id q he hid =>
    refine (hnot c ?_ rfl).elim
    rw [snapshot?, List.find?_append, show db.snapshots.find? _ = some c from hc]
    rfl
  | row x x' head hx hidx hbase hmove hseal =>
    by_cases heq : x.id = candidate
    · obtain rfl : x = c := by
        rw [heq, hc] at hx
        exact (Option.some.inj hx).symm
      have hrow : (db.setSnapshot x').snapshot? candidate = some x' :=
        setSnapshot_same (hidx.trans heq) hc
      have hx' : x'.state = .active := by
        have hin : (db.setSnapshot x').inState candidate [.active] = true := hactive
        simpa [inState, hrow] using hin
      cases hmove with
      | early hearly =>
        refine absurd ?_ hst
        simp only [List.mem_cons, List.not_mem_nil, or_false] at hearly ⊢
        tauto
      | kept hsame hcur => exact (hnot x' hrow hsame).elim
      | blocked hpost hblocked hcur =>
        rw [hblocked] at hx'
        cases hx'
      | completed hopen hact hdone =>
        rw [heq] at hdone
        exact ⟨hopen, hdone, rfl, rfl⟩
      | closed hclosed =>
        rw [hx'] at hclosed
        simp at hclosed
    · refine (hnot c ?_ rfl).elim
      exact (@setSnapshot_other db x' candidate (by rwa [hidx])).trans hc
  | prepared now r x base batch n size he hr hx hx₁ hbase hbatch => exact (hnot c hc rfl).elim
  | flipped now x hx hx₁ hready =>
    obtain ⟨hbase, hne, -, -⟩ := hready
    -- the flip opens a manifest and supersedes a base
    have hne : x.id ≠ candidate := by
      intro heq
      rw [heq, hc] at hx
      rw [Option.some.inj hx, hx₁] at hst
      simp at hst
    have hkept : (db.setSnapshot (MemoryDb.flipped now x)).snapshot? candidate = some c :=
      (@setSnapshot_other db (MemoryDb.flipped now x) candidate hne).trans hc
    have hsnap : (db.moveFlip now x).snapshot? candidate =
        ((db.setSnapshot (MemoryDb.flipped now x)).supersedeBase x.baseSnapshotId).snapshot?
          candidate := rfl
    rw [hbase] at hsnap
    rcases @supersedeBase_snapshot? _ db.effective _ _ hkept with hsame | hsuper
    · exact (hnot c (hsnap.trans hsame) rfl).elim
    · simp [inState, hsnap.trans hsuper] at hactive
  | batch x batchSize hx hx₁ =>
    by_cases heq : x.id = candidate
    · obtain rfl : x = c := by
        rw [heq, hc] at hx
        exact (Option.some.inj hx).symm
      exact (hnot _ (setSnapshot_same heq hc) rfl).elim
    · refine (hnot c ?_ rfl).elim
      exact (manifestBatch_other db batchSize heq).trans hc

/-- The moment a snapshot becomes `active`. -/
theorem completed_of_active {candidate : SnapshotId} {db db' : MemoryDb}
    {e : ManifestEvent} (hstep : db.manifestStep parseDay parseTime rd digest e = some db')
    {c : ConfigSnapshot} (hc : db.snapshot? candidate = some c)
    (hst : c.state ∉ [.draft, .preparingHeads, .ready, .publishing, .active])
    (hactive : db'.inState candidate [.active]) :
    c.state ∈ manifestOpen ∧ (db.pendingClaimIds candidate).length ≤ c.postPublishCursor ∧
      db'.pendingClaimIds candidate = db.pendingClaimIds candidate ∧
      db'.know.questions = db.know.questions := by
  have hrest : db'.snapshots ≠ db.snapshots := by
    intro hsame
    rw [inState, snapshot?, hsame, show db.snapshots.find? _ = some c from hc] at hactive
    simp only [Option.any_some, decide_eq_true_eq, List.mem_singleton] at hactive
    rw [hactive] at hst
    simp at hst
  cases e with
  | lane e => exact (laneStep_change hstep).completed hc hst hactive
  | worker e =>
    cases hstep
    exact absurd (workerStep_touches db e).snapshots hrest
  | invalidate claim reason =>
    cases hstep
    exact absurd rfl hrest
  | sessions load =>
    cases hstep
    exact absurd rfl hrest

/-- **The manifest is complete when its snapshot becomes active**, in every run from the
flip whose steps skip no claim: each claim that was pending at the flip and is pending
then has its question. -/
theorem manifest_complete {db₀ s₀ s s' : MemoryDb} {now : Nat} {r : Runner}
    {e : ManifestEvent} (hflip : db₀.flip now r = .ok s₀)
    (hmoved : db₀.effective ≠ r.candidate)
    (hrun : Run (manifestStep parseDay parseTime rd digest)
      (SkipsNone r.candidate (s₀.pendingClaimIds r.candidate)) s₀ s)
    (hstep : s.manifestStep parseDay parseTime rd digest e = some s')
    (hbefore : s.inState r.candidate [.active] = false)
    (hactive : s'.inState r.candidate [.active]) :
    ∀ claim ∈ s₀.pendingClaimIds r.candidate, claim ∈ s'.pendingClaimIds r.candidate →
      QuestionName.activationPending r.candidate claim ∈ s'.know.questions := by
  have hkept : ManifestKept r.candidate (s₀.pendingClaimIds r.candidate) s :=
    hrun.invariant (flip_opens hflip hmoved _) fun hI hg hs => hI.step hg hs
  obtain ⟨c, hc, hst, hfront⟩ := hkept
  have hnot : c.state ≠ .active := by
    intro heq
    simp [inState, hc, heq] at hbefore
  have hst' : c.state ∉ [.draft, .preparingHeads, .ready, .publishing, .active] := by
    simp only [List.mem_cons, List.not_mem_nil, or_false, not_or] at hst ⊢
    exact ⟨hst.1, hst.2.1, hst.2.2.1, hst.2.2.2, hnot⟩
  obtain ⟨hopen, hdone, hpending, hquestions⟩ := completed_of_active hstep hc hst' hactive
  have hid := snapshot?_id hc
  intro claim hclaim hin
  rw [hpending] at hin
  have hfrontAll : claim ∈ s.front c := by
    rw [front, hid, List.take_of_length_le hdone]
    exact hin
  have hq := hfront hopen claim hclaim hfrontAll
  rw [hid] at hq
  rwa [hquestions]

end Runs

end MemoryDb

/-! ## A skipped claim -/

/-- No evidence at all. -/
def emptyTables : AssessmentDb where
  evidence := []
  revocations := []
  sources := []
  edges := []
  corrections := []
  manifests := []
  resolutions := []
  registered := EvidenceDb.registered_nil
  assessments := []

/-- A snapshot without rules. -/
def plainSnapshot (id : SnapshotId) (base : Option SnapshotId) (mode : ActivationMode)
    (state : ActivationState) : ConfigSnapshot where
  id := id
  baseSnapshotId := base
  payloadSha256 := "payload"
  mode := mode
  state := state
  rules := fun _ => none
  ruleDigests := fun _ => none
  cohortRevision := some 0
  expectedHeadCount := some 4
  verifiedHeadCount := some 4
  headsSha256 := some "heads"
  postPublishCursor := 0
  postPublishAttempts := 0
  postPublishNextAttemptAt := none
  maxAttempts := some 1
  maxPendingQuestions := none

/-- The job of an affected claim. -/
def activationJob (i : JobId) (c : ClaimId) (s : SnapshotId) : ReassessmentJob :=
  ⟨i, c, s, .queued, "activation", 0, 78, none, none, none⟩

/-- Four claims are pending under the sealed candidate `1`, about to be published. -/
def sealedCandidate : MemoryDb where
  cascade :=
    { know :=
        { heads := fun c s => if s = 1 ∧ c ∈ [1, 2, 3, 4] then some .pending else none
          jobs := [activationJob 0 1 1, activationJob 1 2 1, activationJob 2 3 1,
            activationJob 3 4 1]
          questions := []
          revision := 0 }
      effective := 0
      dependencies := []
      graphRevision := 0
      manifests := []
      barriers := [] }
  tables := emptyTables
  claims := [⟨1, "fact", false⟩, ⟨2, "fact", false⟩, ⟨3, "fact", false⟩, ⟨4, "fact", false⟩]
  snapshots := [plainSnapshot 0 none .bootstrap .active,
    plainSnapshot 1 (some 0) .online .publishing]
  head := ⟨some 1, 1, some "runner", some 100⟩
  sessions := ⟨0, 0, 0, false⟩
  sourceGraphRevision := 0

def sealedRunner : Runner := ⟨1, 1, "runner"⟩

/-- Two claims are asked about, the manifest is blocked, and the worker settles these
two before the repair continues. -/
def skippingEvents : List ManifestEvent :=
  [.lane (.postPublish 1 sealedRunner 2), .lane (.postPublishFailed 1 sealedRunner 9),
    .worker (.lease 2 2 60), .worker (.process 2 0), .worker (.process 2 1)]

section Skipped

/-- The step function with readers that parse nothing. -/
abbrev plainStep : MemoryDb → ManifestEvent → Option MemoryDb :=
  MemoryDb.manifestStep (fun _ => none) (fun _ => none) plainReaders fun _ => "heads"

/-- Two claims are asked about, the manifest is blocked, and the worker takes its jobs. -/
def blockedEvents : List ManifestEvent :=
  [.lane (.postPublish 1 sealedRunner 2), .lane (.postPublishFailed 1 sealedRunner 9),
    .worker (.lease 2 4 60)]

theorem blockedEvents_skip_none (manifest : List ClaimId) :
    ∀ e ∈ blockedEvents, ∀ db, MemoryDb.SkipsNone 1 manifest db e := by
  intro e he db
  simp only [blockedEvents, List.mem_cons, List.not_mem_nil, or_false] at he
  rcases he with rfl | rfl | rfl
  · trivial
  · trivial
  · intro c _ _ j hsettles
    exact hsettles.elim

/-- Behind the blocked manifest's cursor the worker settles claim `4`; the repair asks about
claim `3`, and then the snapshot becomes active. -/
theorem manifest_complete_repaired : ∃ s₀ s s',
    sealedCandidate.flip 1 sealedRunner = .ok s₀ ∧
    exec plainStep s₀ (blockedEvents ++ [.worker (.process 2 3), .lane (.repair 3 1 4)]) =
      some s ∧
    plainStep s (.lane (.repair 4 1 4)) = some s' ∧
    s.inState 1 [.postPublishBlocked] ∧ s'.inState 1 [.active] ∧
    s'.pendingClaimIds 1 = [1, 2, 3] ∧
    ∀ claim ∈ [1, 2, 3], QuestionName.activationPending 1 claim ∈ s'.know.questions := by
  have hflip : sealedCandidate.flip 1 sealedRunner =
      .ok (sealedCandidate.moveFlip 1 (plainSnapshot 1 (some 0) .online .publishing)) := rfl
  refine ⟨_, _, _, hflip, rfl, rfl, rfl, rfl, rfl, ?_⟩
  have hblocked := @Run.of_exec_guarded _ _ plainStep _ _ _ blockedEvents
    (show exec plainStep (sealedCandidate.moveFlip 1
      (plainSnapshot 1 (some 0) .online .publishing)) blockedEvents = some _ from rfl)
    (blockedEvents_skip_none [1, 2, 3, 4])
  have hsettled := hblocked.snoc (e := .worker (.process 2 3)) (by
    -- claim `4` is not in front of the cursor
    intro c hc _ j hsettles _ hfront
    obtain rfl := Option.some.inj hc
    obtain rfl := Option.some.inj hsettles.1
    exact absurd hfront (by decide)) rfl
  have hdone := @MemoryDb.manifest_complete (fun _ => none) (fun _ => none) plainReaders
    (fun _ => "heads") _ _ _ _ 1 sealedRunner (.lane (.repair 4 1 4)) hflip
    (by decide) (hsettled.snoc (e := .lane (.repair 3 1 4)) trivial rfl) rfl rfl rfl
  intro claim hclaim
  exact hdone claim (List.mem_of_mem_take (i := 3) hclaim) hclaim

/-- The repair activates the snapshot: claim `3` is pending and was never asked about. -/
theorem manifest_skips : ¬ ∀ (parseDay parseTime : String → Option Int) (rd : Readers)
    (digest : List (ClaimId × Head) → String) (db₀ s₀ s s' : MemoryDb) (now : Nat)
    (r : Runner) (e : ManifestEvent), db₀.flip now r = .ok s₀ →
    db₀.effective ≠ r.candidate →
    Run (MemoryDb.manifestStep parseDay parseTime rd digest) anyStep s₀ s →
    s.manifestStep parseDay parseTime rd digest e = some s' →
    s.inState r.candidate [.active] = false → s'.inState r.candidate [.active] →
    ∀ claim ∈ s₀.pendingClaimIds r.candidate, claim ∈ s'.pendingClaimIds r.candidate →
      QuestionName.activationPending r.candidate claim ∈ s'.know.questions := by
  intro hall
  have hflip : sealedCandidate.flip 1 sealedRunner =
      .ok (sealedCandidate.moveFlip 1 (plainSnapshot 1 (some 0) .online .publishing)) := rfl
  have hrun := @Run.of_exec _ _ plainStep _ _ skippingEvents
    (show exec plainStep (sealedCandidate.moveFlip 1
      (plainSnapshot 1 (some 0) .online .publishing)) skippingEvents = some _ from rfl)
  have hasked := hall _ _ _ _ _ _ _ _ 1 sealedRunner
    (.lane (.repair 3 1 2)) hflip (by decide) hrun rfl rfl rfl 3 (by decide) (by decide)
  revert hasked
  decide

end Skipped

end Noezema.Memory
