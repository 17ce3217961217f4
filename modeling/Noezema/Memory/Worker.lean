import Noezema.Memory.Runtime

/-! # The reassessment worker

Leasing, the one-job transaction, what follows an exception in it, and the recovery
of expired leases. Every transaction either leaves the job active or takes the claim
out of `pending` in the same step: `KeepsJobs` is proved for each.
-/

namespace Noezema.Memory

abbrev JobId := Nat

/-- What `_process_one_job` returns. -/
inductive JobOutcome where
  | completed | blocked | unleased | intentConflict | gone
deriving DecidableEq, Repr

/-- Why an evaluation transaction was rolled back. -/
inductive JobFailure where
  | ruleValidation (error : RuleValidationError)
  | transient (errorClass : String)
deriving DecidableEq

/-- The transactions of the worker. -/
inductive WorkerEvent where
  | lease (now batchSize leaseSeconds : Nat)
  /-- The gate is held elsewhere. -/
  | defer (now batchSize until' : Nat)
  | process (now : Nat) (job : JobId)
  /-- The evaluation transaction of a job was rolled back. -/
  | failed (job : JobId) (failure : JobFailure) (at' : Nat)
  | recover (now : Nat)

namespace Knowledge

/-! ## Job rows -/

/-- `_unlease`: back to the queue, the attempt restored. -/
def unlease (k : Knowledge) (i : JobId) (j : ReassessmentJob) : Knowledge :=
  k.setJob i { j with
    status := .queued, leaseExpiresAt := none, attempts := j.attempts - 1 }

/-- `_block_job`. -/
def blockJob (k : Knowledge) (i : JobId) (j : ReassessmentJob) (errorClass : String) :
    Knowledge :=
  k.setJob i { j with
    status := .blocked, errorClass := some errorClass, leaseExpiresAt := none }

def completeJob (k : Knowledge) (i : JobId) (j : ReassessmentJob) : Knowledge :=
  k.setJob i { j with status := .completed, leaseExpiresAt := none }

/-- `_retry_job`. -/
def retryJob (k : Knowledge) (i : JobId) (j : ReassessmentJob) (errorClass : String)
    (at' : Nat) : Knowledge :=
  k.setJob i { j with
    status := .retry
    errorClass := some errorClass
    leaseExpiresAt := none
    nextAttemptAt := some at' }

/-- A job is retired over a head that is not pending. -/
theorem completeJob_keepsJobs {k : Knowledge} {i : JobId} {j : ReassessmentJob}
    (hj : k.jobs[i]? = some j)
    (hne : k.heads j.claimId j.targetConfigSnapshotId ≠ some .pending) :
    KeepsJobs k (k.completeJob i j) :=
  setJob_keepsJobs hj rfl rfl (.inr hne)

theorem blockJob_keepsJobs {k : Knowledge} {i : JobId} {j : ReassessmentJob}
    (errorClass : String) (hj : k.jobs[i]? = some j)
    (hne : k.heads j.claimId j.targetConfigSnapshotId ≠ some .pending) :
    KeepsJobs k (k.blockJob i j errorClass) :=
  setJob_keepsJobs hj rfl rfl (.inr hne)

/-- A job that goes back to the queue stays active. -/
theorem unlease_keepsJobs {k : Knowledge} {i : JobId} {j : ReassessmentJob}
    (hj : k.jobs[i]? = some j) : KeepsJobs k (k.unlease i j) :=
  setJob_keepsJobs hj rfl rfl (.inl rfl)

theorem retryJob_keepsJobs {k : Knowledge} {i : JobId} {j : ReassessmentJob}
    (errorClass : String) (at' : Nat) (hj : k.jobs[i]? = some j) :
    KeepsJobs k (k.retryJob i j errorClass at') :=
  setJob_keepsJobs hj rfl rfl (.inl rfl)

/-- `_set_head_invalid`: a pending head becomes invalid; the result is the prior
state. -/
def setHeadInvalid (k : Knowledge) (c : ClaimId) (s : SnapshotId) :
    Knowledge × Option AssessmentState :=
  match k.heads.state c s with
  | some .pending => (k.setHead c s (some .invalid), some .pending)
  | some .invalid => (k.setHead c s (some .invalid), some .invalid)
  | prior => (k, prior)

/-- The head to invalid, with the revision bump of a pending one. -/
def invalidateForGood (k : Knowledge) (c : ClaimId) (s : SnapshotId) : Knowledge :=
  match k.setHeadInvalid c s with
  | (k, some .pending) => k.bumpRevision
  | (k, _) => k

theorem invalidateForGood_eq (k : Knowledge) (c : ClaimId) (s : SnapshotId) :
    k.invalidateForGood c s =
      match k.heads c s with
      | some .pending => (k.setHead c s (some .invalid)).bumpRevision
      | some .invalid => k.setHead c s (some .invalid)
      | _ => k := by
  cases hh : k.heads c s with
  | none => simp [invalidateForGood, setHeadInvalid, Heads.state, hh]
  | some v =>
    cases v <;> simp [invalidateForGood, setHeadInvalid, Heads.state, hh, Head.state]

theorem invalidateForGood_jobs (k : Knowledge) (c : ClaimId) (s : SnapshotId) :
    (k.invalidateForGood c s).jobs = k.jobs := by
  rw [invalidateForGood_eq]
  split <;> rfl

theorem invalidateForGood_questions (k : Knowledge) (c : ClaimId) (s : SnapshotId) :
    (k.invalidateForGood c s).questions = k.questions := by
  rw [invalidateForGood_eq]
  split <;> rfl

/-- No pending head is left of it, and the other heads stay. -/
theorem invalidateForGood_heads (k : Knowledge) (c : ClaimId) (s : SnapshotId) :
    (k.invalidateForGood c s).heads c s ≠ some .pending ∧
      ∀ c' s', ¬ (c' = c ∧ s' = s) →
        (k.invalidateForGood c s).heads c' s' = k.heads c' s' := by
  rw [invalidateForGood_eq]
  split
  · exact ⟨by simp, fun _ _ hne => setHead_other k _ hne⟩
  · exact ⟨by simp, fun _ _ hne => setHead_other k _ hne⟩
  · rename_i hpending _
    exact ⟨hpending, fun _ _ _ => rfl⟩

theorem invalidateForGood_keepsJobs (k : Knowledge) (c : ClaimId) (s : SnapshotId) :
    KeepsJobs k (k.invalidateForGood c s) := by
  obtain ⟨hne, hother⟩ := invalidateForGood_heads k c s
  intro c' s' hp
  by_cases heq : c' = c ∧ s' = s
  · obtain ⟨rfl, rfl⟩ := heq
    exact absurd hp hne
  · rw [hother c' s' heq] at hp
    refine .inr ⟨hp, fun hjob => ?_⟩
    rwa [hasJob, invalidateForGood_jobs]

end Knowledge

namespace MemoryDb

/-! ## Leasing -/

/-- The runnability predicate of a job row. -/
def runnable (db : MemoryDb) (now : Nat) (j : ReassessmentJob) : Bool :=
  (j.status = .queued ∨ j.status = .retry) ∧
    j.targetConfigSnapshotId = db.effective ∧
    j.nextAttemptAt.all (fun t => t ≤ now) ∧ j.attempts < j.maxAttempts

/-- The rows a batch takes: the first runnable ones in the queue's order. -/
def runnableIds (db : MemoryDb) (now batchSize : Nat) : List JobId :=
  ((db.know.jobs.zipIdx.filter fun p => db.runnable now p.1).map (·.2)).take batchSize

/-- One leased row. -/
def lease (now leaseSeconds : Nat) (j : ReassessmentJob) : ReassessmentJob :=
  { j with
    status := .leased
    leaseExpiresAt := some (now + leaseSeconds)
    attempts := j.attempts + 1 }

/-- The lease transaction of `run_reassessment_batch`, the gate acquired: nothing
while a session declares its intent or a candidate holds the slot. -/
def leaseBatch (db : MemoryDb) (now batchSize leaseSeconds : Nat) : MemoryDb :=
  if db.sessions.commitIntent ∨ db.heldSlot now ≠ none then db
  else
    let ids := db.runnableIds now batchSize
    db.withKnow { db.know with
      jobs := db.know.jobs.mapIdx fun i j => if i ∈ ids then lease now leaseSeconds j else j }

/-- `_defer_runnable_with_jitter`, when the gate is held elsewhere. -/
def deferRunnable (db : MemoryDb) (now batchSize until' : Nat) : MemoryDb :=
  let ids := db.runnableIds now batchSize
  db.withKnow { db.know with
    jobs := db.know.jobs.mapIdx fun i j =>
      if i ∈ ids then { j with nextAttemptAt := some until' } else j }

/-- An expired lease goes back to the queue. -/
def recovered (now : Nat) (j : ReassessmentJob) : ReassessmentJob :=
  if j.status = .leased ∧ j.leaseExpiresAt.any (fun t => t < now) then
    { j with status := .queued, leaseExpiresAt := none, attempts := j.attempts - 1 }
  else j

/-- `recover_expired_leases`. -/
def recoverExpiredLeases (db : MemoryDb) (now : Nat) : MemoryDb :=
  db.withKnow { db.know with jobs := db.know.jobs.map (recovered now) }

/-! ## One job -/

section Process

variable (parseDay parseTime : String → Option Int) (rd : Readers)

/-- The end of `_process_one_job`: the head of an evaluated claim. -/
def settleJob (db : MemoryDb) (i : JobId) (j : ReassessmentJob) (claim : Claim)
    (claimScope : Scope) (r : AssessmentResult) : MemoryDb × JobOutcome :=
  match db.know.heads claim.id db.effective with
  | none => (db.withKnow (db.know.blockJob i j "head_missing"), .blocked)
  | some (.current _ _) => (db.withKnow (db.know.completeJob i j), .completed)
  | some _ =>
    let assessment := db.tables.assessments.length
    let know := db.know.setHead claim.id db.effective
      (some (.current assessment r.epistemicStatus))
    ({ db.withKnow (know.completeJob i j).bumpRevision with
        tables := { db.tables with
          assessments := ⟨claim.id, claimScope, r.grade, r.epistemicStatus, r.confidence⟩ ::
            db.tables.assessments } }, .completed)

/-- A job of a claim without evidence in force. -/
def insufficientData (db : MemoryDb) (i : JobId) (j : ReassessmentJob) (c : ClaimId) :
    MemoryDb × JobOutcome :=
  (db.withKnow (((db.know.invalidateForGood c db.effective).enqueueQuestion
    (.reassessmentInsufficient db.effective c)).completeJob i j), .completed)

/-- A job whose claim or snapshot row is gone. -/
def rowMissing (db : MemoryDb) (i : JobId) (j : ReassessmentJob) (claim : Option Claim) :
    MemoryDb × JobOutcome :=
  let know := match claim with
    | some claim => (db.know.enqueueQuestion
        (.reassessmentInsufficient db.effective claim.id)).invalidateForGood claim.id
          db.effective
    | none => db.know
  (db.withKnow (know.blockJob i j "claim_or_config_missing"), .blocked)

/-- `_process_one_job`. An error rolls the transaction back. -/
def processOneJob (db : MemoryDb) (now : Nat) (i : JobId) :
    Except RuleValidationError (MemoryDb × JobOutcome) :=
  match db.know.jobs[i]? with
  | none => .ok (db, .gone)
  | some j =>
    if j.status ≠ .leased then .ok (db, .gone)
    else if db.heldSlot now ≠ none ∨ db.effective ≠ j.targetConfigSnapshotId then
      .ok (db.withKnow (db.know.unlease i j), .unleased)
    else if db.sessions.commitIntent then
      .ok (db.withKnow (db.know.unlease i j), .intentConflict)
    else match db.snapshot? db.effective, db.claim? j.claimId with
      | some snapshot, some claim =>
        if db.tables.claimEvidenceForAssessment claim.id = [] then
          .ok (db.insufficientData i j claim.id)
        else do
          let rule ← snapshot.rules.rule claim.claimType
          let input := commitInput rd db.tables rule claim
            (latestAssessedScope db.tables claim.id)
          let result ← input.evaluate parseDay parseTime
          pure (db.settleJob i j claim input.claimScope result)
      | _, claim => .ok (db.rowMissing i j claim)

end Process

/-- `_block_lost_job`: nothing when the lease was taken over. -/
def blockLostJob (db : MemoryDb) (i : JobId) (errorClass : String)
    (withQuestion : Bool) : MemoryDb :=
  match db.know.jobs[i]? with
  | none => db
  | some j =>
    if j.status ≠ .leased then db
    else
      let know := db.know.invalidateForGood j.claimId j.targetConfigSnapshotId
      let know := if withQuestion ∧ (db.claim? j.claimId).isSome then
          know.enqueueQuestion (.reassessmentInsufficient j.targetConfigSnapshotId j.claimId)
        else know
      db.withKnow (know.blockJob i j errorClass)

/-- `_retry_lost_job`. -/
def retryLostJob (db : MemoryDb) (i : JobId) (errorClass : String) (at' : Nat) :
    MemoryDb :=
  match db.know.jobs[i]? with
  | none => db
  | some j =>
    if j.status ≠ .leased then db else db.withKnow (db.know.retryJob i j errorClass at')

/-- What `run_reassessment_batch` does with an exception of the job transaction. -/
def afterFailure (db : MemoryDb) (i : JobId) (failure : JobFailure) (at' : Nat) :
    MemoryDb :=
  match failure with
  | .ruleValidation _ => db.blockLostJob i "rule_validation" true
  | .transient errorClass =>
    if (db.know.jobs[i]?).any fun j => j.maxAttempts ≤ j.attempts then
      db.blockLostJob i "retry_budget_exhausted" false
    else db.retryLostJob i errorClass at'

/-! ## What one job transaction can do -/

section Process

variable {parseDay parseTime : String → Option Int} {rd : Readers}

/-- The branches of `_process_one_job` on a leased job: it goes back to the queue, or
it is due and the claim is settled, found without evidence or found missing. -/
inductive Processed (db : MemoryDb) (now : Nat) (i : JobId) (j : ReassessmentJob) :
    MemoryDb → Prop where
  | unleased : Processed db now i j (db.withKnow (db.know.unlease i j))
  | insufficient (claim : Claim) : db.heldSlot now = none →
      db.effective = j.targetConfigSnapshotId → claim.id = j.claimId →
      Processed db now i j (db.insufficientData i j claim.id).1
  | settled (claim : Claim) (claimScope : Scope) (r : AssessmentResult) :
      db.heldSlot now = none → db.effective = j.targetConfigSnapshotId →
      claim.id = j.claimId → claimScope = latestAssessedScope db.tables claim.id →
      Processed db now i j (db.settleJob i j claim claimScope r).1
  | missing : db.heldSlot now = none → db.effective = j.targetConfigSnapshotId →
      Processed db now i j (db.rowMissing i j (db.claim? j.claimId)).1

theorem processOneJob_cases {db db' : MemoryDb} {now : Nat} {i : JobId} {out : JobOutcome}
    (h : db.processOneJob parseDay parseTime rd now i = .ok (db', out)) :
    db' = db ∨ ∃ j, db.know.jobs[i]? = some j ∧ j.status = .leased ∧
      Processed db now i j db' := by
  unfold processOneJob at h
  cases hj : db.know.jobs[i]? with
  | none =>
    simp only [hj, Except.ok.injEq, Prod.mk.injEq] at h
    exact .inl h.1.symm
  | some j =>
    simp only [hj] at h
    split at h
    · cases h
      exact .inl rfl
    · rename_i hleased
      refine .inr ⟨j, rfl, not_not.mp hleased, ?_⟩
      split at h
      · cases h
        exact .unleased
      · rename_i hrun
        obtain ⟨hslot, htarget⟩ := not_or.mp hrun
        have hslot := not_not.mp hslot
        have htarget := not_not.mp htarget
        split at h
        · cases h
          exact .unleased
        · split at h
          · rename_i snapshot claim _ hclaim
            split at h
            · cases h
              exact .insufficient claim hslot htarget (claim?_id hclaim)
            · cases hr : snapshot.rules.rule claim.claimType with
              | error e => simp [hr, bind, Except.bind] at h
              | ok rule =>
                simp only [hr, bind, Except.bind] at h
                split at h
                · cases h
                · simp only [pure, Except.pure, Except.ok.injEq] at h
                  have hdb : _ = db' := congrArg Prod.fst h
                  rw [← hdb]
                  exact .settled claim _ _ hslot htarget (claim?_id hclaim) rfl
          · simp only [Except.ok.injEq] at h
            have hdb : _ = db' := congrArg Prod.fst h
            rw [← hdb]
            exact .missing hslot htarget

end Process

/-! ## No pending head loses its job -/

theorem settleJob_keepsJobs {db : MemoryDb} {i : JobId} {j : ReassessmentJob}
    (hj : db.know.jobs[i]? = some j) {claim : Claim} (hclaim : claim.id = j.claimId)
    (htarget : db.effective = j.targetConfigSnapshotId) (claimScope : Scope)
    (r : AssessmentResult) :
    Knowledge.KeepsJobs db.know (db.settleJob i j claim claimScope r).1.know := by
  unfold settleJob
  rw [hclaim, htarget]
  split
  · rename_i hnone
    exact Knowledge.blockJob_keepsJobs _ hj (by simp [hnone])
  · rename_i hcur
    exact Knowledge.completeJob_keepsJobs hj (by simp [hcur])
  · -- the head becomes current first: completing the job then owes nothing
    have hne : some (Head.current db.tables.assessments.length r.epistemicStatus) ≠
        some .pending := by simp
    have hhead := Knowledge.setHead_keepsJobs db.know j.claimId j.targetConfigSnapshotId hne
    generalize hk : db.know.setHead j.claimId j.targetConfigSnapshotId
      (some (.current db.tables.assessments.length r.epistemicStatus)) = k at hhead
    have hjob : k.jobs[i]? = some j := by
      rw [← hk]
      exact hj
    have howes : k.heads j.claimId j.targetConfigSnapshotId ≠ some .pending := by
      rw [← hk, Knowledge.setHead_same]
      exact hne
    have hdone := Knowledge.completeJob_keepsJobs hjob howes
    simp only [hk]
    exact hhead.trans (hdone.trans (.of_same rfl rfl))

/-- The head to invalid, around it a question, and then the job is blocked or
completed: the head owes no job any more. -/
theorem retire_keepsJobs {k k₁ k₂ : Knowledge} (c : ClaimId) (s : SnapshotId)
    (hheads : k₁.heads = (k.invalidateForGood c s).heads) (hjobs : k₁.jobs = k.jobs)
    (hretire : k₁.heads c s ≠ some .pending → Knowledge.KeepsJobs k₁ k₂) :
    Knowledge.KeepsJobs k k₂ := by
  have hsame : Knowledge.KeepsJobs (k.invalidateForGood c s) k₁ :=
    .of_same hheads (by rw [hjobs, Knowledge.invalidateForGood_jobs])
  refine (Knowledge.invalidateForGood_keepsJobs k c s).trans (hsame.trans (hretire ?_))
  rw [hheads]
  exact (Knowledge.invalidateForGood_heads k c s).1

theorem insufficientData_keepsJobs {db : MemoryDb} {i : JobId} {j : ReassessmentJob}
    (hj : db.know.jobs[i]? = some j) {c : ClaimId} (hclaim : c = j.claimId)
    (htarget : db.effective = j.targetConfigSnapshotId) :
    Knowledge.KeepsJobs db.know (db.insufficientData i j c).1.know := by
  unfold insufficientData
  rw [hclaim, htarget]
  refine retire_keepsJobs j.claimId j.targetConfigSnapshotId
    (Knowledge.enqueueQuestion_heads _
      (.reassessmentInsufficient j.targetConfigSnapshotId j.claimId))
    (by rw [Knowledge.enqueueQuestion_jobs, Knowledge.invalidateForGood_jobs]) ?_
  intro hne
  refine Knowledge.completeJob_keepsJobs ?_ hne
  rwa [Knowledge.enqueueQuestion_jobs, Knowledge.invalidateForGood_jobs]

theorem rowMissing_keepsJobs {db : MemoryDb} (hrows : db.HeadsHaveRows) {i : JobId}
    {j : ReassessmentJob} (hj : db.know.jobs[i]? = some j)
    (htarget : db.effective = j.targetConfigSnapshotId) :
    Knowledge.KeepsJobs db.know (db.rowMissing i j (db.claim? j.claimId)).1.know := by
  unfold rowMissing
  cases hc : db.claim? j.claimId with
  | none =>
    -- without a claim row there is no head either
    refine Knowledge.blockJob_keepsJobs _ hj ?_
    intro hp
    have hsome := hrows j.claimId j.targetConfigSnapshotId (by simp [hp])
    rw [hc] at hsome
    cases hsome
  | some claim =>
    have hid := claim?_id hc
    simp only [hid, htarget]
    have hask : Knowledge.KeepsJobs db.know (db.know.enqueueQuestion
        (.reassessmentInsufficient j.targetConfigSnapshotId j.claimId)) :=
      .of_same (Knowledge.enqueueQuestion_heads _ _) (Knowledge.enqueueQuestion_jobs _ _)
    refine hask.trans ?_
    refine retire_keepsJobs j.claimId j.targetConfigSnapshotId rfl
      (Knowledge.invalidateForGood_jobs _ _ _) ?_
    intro hne
    refine Knowledge.blockJob_keepsJobs _ ?_ hne
    rwa [Knowledge.invalidateForGood_jobs, Knowledge.enqueueQuestion_jobs]

theorem Processed.keepsJobs {db db' : MemoryDb} (hrows : db.HeadsHaveRows) {now : Nat}
    {i : JobId} {j : ReassessmentJob} (hj : db.know.jobs[i]? = some j)
    (h : Processed db now i j db') : Knowledge.KeepsJobs db.know db'.know := by
  cases h with
  | unleased => exact Knowledge.unlease_keepsJobs hj
  | insufficient claim _ htarget hclaim =>
    exact insufficientData_keepsJobs hj hclaim htarget
  | settled claim claimScope r _ htarget hclaim =>
    exact settleJob_keepsJobs hj hclaim htarget claimScope r
  | missing _ htarget => exact rowMissing_keepsJobs hrows hj htarget

theorem blockLostJob_keepsJobs (db : MemoryDb) (i : JobId) (errorClass : String)
    (withQuestion : Bool) :
    Knowledge.KeepsJobs db.know (db.blockLostJob i errorClass withQuestion).know := by
  unfold blockLostJob
  cases hj : db.know.jobs[i]? with
  | none => exact .refl _
  | some j =>
    simp only
    split
    · exact .refl _
    · split
      · refine retire_keepsJobs j.claimId j.targetConfigSnapshotId
          (Knowledge.enqueueQuestion_heads _
            (.reassessmentInsufficient j.targetConfigSnapshotId j.claimId))
          (by rw [Knowledge.enqueueQuestion_jobs, Knowledge.invalidateForGood_jobs]) ?_
        intro hne
        refine Knowledge.blockJob_keepsJobs _ ?_ hne
        rwa [Knowledge.enqueueQuestion_jobs, Knowledge.invalidateForGood_jobs]
      · refine retire_keepsJobs j.claimId j.targetConfigSnapshotId rfl
          (Knowledge.invalidateForGood_jobs _ _ _) ?_
        intro hne
        refine Knowledge.blockJob_keepsJobs _ ?_ hne
        rwa [Knowledge.invalidateForGood_jobs]

theorem afterFailure_keepsJobs (db : MemoryDb) (i : JobId) (failure : JobFailure)
    (at' : Nat) : Knowledge.KeepsJobs db.know (db.afterFailure i failure at').know := by
  unfold afterFailure
  cases failure with
  | ruleValidation error => exact blockLostJob_keepsJobs db i _ _
  | transient errorClass =>
    simp only
    split
    · exact blockLostJob_keepsJobs db i _ _
    · unfold retryLostJob
      cases hj : db.know.jobs[i]? with
      | none => exact .refl _
      | some j =>
        simp only
        split
        · exact .refl _
        · exact Knowledge.retryJob_keepsJobs _ _ hj

/-- Leasing, deferring and recovering change job rows that stay active. -/
theorem keepsJobs_mapIdx {k : Knowledge} (f : Nat → ReassessmentJob → ReassessmentJob)
    (hf : ∀ i j c s, j.serves c s → (f i j).serves c s) :
    Knowledge.KeepsJobs k { k with jobs := k.jobs.mapIdx f } := by
  refine Knowledge.keepsJobs_of_rows rfl ?_
  intro i j hj
  refine ⟨f i j, ?_, hf i j⟩
  show (k.jobs.mapIdx f)[i]? = _
  rw [List.getElem?_mapIdx, hj]
  rfl

theorem leaseBatch_keepsJobs (db : MemoryDb) (now batchSize leaseSeconds : Nat) :
    Knowledge.KeepsJobs db.know (db.leaseBatch now batchSize leaseSeconds).know := by
  unfold leaseBatch
  split
  · exact .refl _
  · refine keepsJobs_mapIdx _ fun i j c s hserves => ?_
    split
    · exact @Knowledge.serves_of_active j (lease now leaseSeconds j) rfl rfl rfl c s hserves
    · exact hserves

theorem deferRunnable_keepsJobs (db : MemoryDb) (now batchSize until' : Nat) :
    Knowledge.KeepsJobs db.know (db.deferRunnable now batchSize until').know := by
  refine keepsJobs_mapIdx _ fun i j c s hserves => ?_
  split
  · exact hserves
  · exact hserves

theorem recoverExpiredLeases_keepsJobs (db : MemoryDb) (now : Nat) :
    Knowledge.KeepsJobs db.know (db.recoverExpiredLeases now).know := by
  refine Knowledge.keepsJobs_of_rows rfl ?_
  intro i j hj
  refine ⟨recovered now j, ?_, ?_⟩
  · show (db.know.jobs.map (recovered now))[i]? = _
    rw [List.getElem?_map, hj]
    rfl
  · intro c s hserves
    unfold recovered
    split
    · refine @Knowledge.serves_of_active j _ ?_ ?_ ?_ c s hserves <;> rfl
    · exact hserves

/-! ## What a worker transaction touches -/

/-- Claims, configuration and sessions stay, no question is lost, and a head that
changes is an existing one of `owned` and is not pending afterwards. -/
structure Touches (owned : ClaimId → SnapshotId → Prop) (db db' : MemoryDb) : Prop where
  claims : db'.claims = db.claims
  snapshots : db'.snapshots = db.snapshots
  head : db'.head = db.head
  effective : db'.effective = db.effective
  heads : ∀ c s, db'.know.heads c s = db.know.heads c s ∨
    (owned c s ∧ db.know.heads c s ≠ none ∧ db'.know.heads c s ≠ some .pending)
  questions : ∀ q ∈ db.know.questions, q ∈ db'.know.questions

/-- What keeps the heads and loses no question. -/
theorem touches_of_same {owned : ClaimId → SnapshotId → Prop} (db : MemoryDb)
    {k : Knowledge} (hh : k.heads = db.know.heads)
    (hq : ∀ q ∈ db.know.questions, q ∈ k.questions) : Touches owned db (db.withKnow k) :=
  ⟨rfl, rfl, rfl, rfl, fun c s => .inl (congrFun (congrFun hh c) s), hq⟩

/-- What takes one head out of `pending` for good. -/
theorem touches_of_invalid {owned : ClaimId → SnapshotId → Prop} {db : MemoryDb}
    {k₀ k : Knowledge} {c : ClaimId} {s : SnapshotId} (howned : owned c s)
    (hh₀ : k₀.heads = db.know.heads) (hh : k.heads = (k₀.invalidateForGood c s).heads)
    (hq : ∀ q ∈ db.know.questions, q ∈ k.questions) : Touches owned db (db.withKnow k) := by
  refine ⟨rfl, rfl, rfl, rfl, ?_, hq⟩
  intro c' s'
  rw [withKnow_know, hh, ← hh₀]
  by_cases heq : c' = c ∧ s' = s
  · obtain ⟨rfl, rfl⟩ := heq
    by_cases hnone : k₀.heads c' s' = none
    · refine .inl ?_
      simp only [Knowledge.invalidateForGood_eq, hnone]
    · exact .inr ⟨howned, hnone, (Knowledge.invalidateForGood_heads _ _ _).1⟩
  · exact .inl ((Knowledge.invalidateForGood_heads _ _ _).2 c' s' heq)

theorem settleJob_touches {owned : ClaimId → SnapshotId → Prop} (db : MemoryDb)
    (i : JobId) (j : ReassessmentJob) (claim : Claim) (claimScope : Scope)
    (r : AssessmentResult) (howned : owned claim.id db.effective) :
    Touches owned db (db.settleJob i j claim claimScope r).1 := by
  unfold settleJob
  split
  · exact touches_of_same db rfl fun _ h => h
  · exact touches_of_same db rfl fun _ h => h
  · rename_i hsome
    refine ⟨rfl, rfl, rfl, rfl, ?_, fun _ h => h⟩
    intro c s
    by_cases heq : c = claim.id ∧ s = db.effective
    · obtain ⟨rfl, rfl⟩ := heq
      refine .inr ⟨howned, by simp [hsome], ?_⟩
      show (db.know.setHead _ _ _).heads _ _ ≠ _
      simp
    · exact .inl (Knowledge.setHead_other db.know _ heq)

theorem insufficientData_touches {owned : ClaimId → SnapshotId → Prop} (db : MemoryDb)
    (i : JobId) (j : ReassessmentJob) {c : ClaimId} (howned : owned c db.effective) :
    Touches owned db (db.insufficientData i j c).1 := by
  refine touches_of_invalid howned rfl (Knowledge.enqueueQuestion_heads _
    (.reassessmentInsufficient db.effective c)) ?_
  intro q hq
  refine Knowledge.enqueueQuestion_subset _ _ q ?_
  rwa [Knowledge.invalidateForGood_questions]

theorem rowMissing_touches {owned : ClaimId → SnapshotId → Prop} (db : MemoryDb)
    (i : JobId) (j : ReassessmentJob) (claim : Option Claim)
    (howned : ∀ c, claim = some c → owned c.id db.effective) :
    Touches owned db (db.rowMissing i j claim).1 := by
  unfold rowMissing
  cases claim with
  | none => exact touches_of_same db rfl fun _ h => h
  | some claim =>
    refine touches_of_invalid (howned claim rfl) (Knowledge.enqueueQuestion_heads _
      (.reassessmentInsufficient db.effective claim.id)) rfl ?_
    intro q hq
    refine Eq.mpr (congrArg (q ∈ ·) (Knowledge.invalidateForGood_questions _ _ _)) ?_
    exact Knowledge.enqueueQuestion_subset _ _ q hq

theorem Processed.touches {db db' : MemoryDb} {now : Nat} {i : JobId} {j : ReassessmentJob}
    (h : Processed db now i j db') :
    Touches (fun c s => db.heldSlot now = none ∧ j.claimId = c ∧
      j.targetConfigSnapshotId = s) db db' := by
  cases h with
  | unleased => exact touches_of_same db rfl fun _ h => h
  | insufficient claim hslot htarget hclaim =>
    exact insufficientData_touches db i j ⟨hslot, hclaim.symm, htarget.symm⟩
  | settled claim claimScope r hslot htarget hclaim =>
    exact settleJob_touches db i j claim claimScope r ⟨hslot, hclaim.symm, htarget.symm⟩
  | missing hslot htarget =>
    refine rowMissing_touches db i j _ ?_
    intro claim hclaim
    exact ⟨hslot, (claim?_id hclaim).symm, htarget.symm⟩

theorem blockLostJob_touches (db : MemoryDb) (i : JobId) (errorClass : String)
    (withQuestion : Bool) :
    Touches (fun c s => ∃ j, db.know.jobs[i]? = some j ∧ j.status = .leased ∧
      j.claimId = c ∧ j.targetConfigSnapshotId = s) db
      (db.blockLostJob i errorClass withQuestion) := by
  unfold blockLostJob
  cases hj : db.know.jobs[i]? with
  | none => exact touches_of_same db rfl fun _ h => h
  | some j =>
    simp only
    split
    · exact touches_of_same db rfl fun _ h => h
    · rename_i hleased
      have howned : ∃ j₁, some j = some j₁ ∧ j₁.status = .leased ∧ j₁.claimId = j.claimId ∧
          j₁.targetConfigSnapshotId = j.targetConfigSnapshotId :=
        ⟨j, rfl, not_not.mp hleased, rfl, rfl⟩
      refine touches_of_invalid howned rfl ?_ ?_
      · show Knowledge.heads (ite _ _ _) = _
        split
        · exact Knowledge.enqueueQuestion_heads _ _
        · rfl
      · intro q hq
        show q ∈ Knowledge.questions (ite _ _ _)
        split
        · refine Knowledge.enqueueQuestion_subset _ _ q ?_
          rwa [Knowledge.invalidateForGood_questions]
        · rwa [Knowledge.invalidateForGood_questions]

/-! ## The worker's transactions -/

section Step

variable (parseDay parseTime : String → Option Int) (rd : Readers)

/-- One transaction of the worker. -/
def workerStep (db : MemoryDb) : WorkerEvent → MemoryDb
  | .lease now batchSize leaseSeconds => db.leaseBatch now batchSize leaseSeconds
  | .defer now batchSize until' => db.deferRunnable now batchSize until'
  | .process now i =>
    match db.processOneJob parseDay parseTime rd now i with
    | .ok (db, _) => db
    | .error _ => db
  | .failed i failure at' => db.afterFailure i failure at'
  | .recover now => db.recoverExpiredLeases now

/-- The transaction settles the job, as far as the state before it tells: the job is
leased and, in `_process_one_job`, due. -/
def Settles (db : MemoryDb) (j : ReassessmentJob) : WorkerEvent → Prop
  | .process now i => db.know.jobs[i]? = some j ∧ j.status = .leased ∧
      db.heldSlot now = none
  | .failed i _ _ => db.know.jobs[i]? = some j ∧ j.status = .leased
  | _ => False

theorem settles_unique {db : MemoryDb} {j j' : ReassessmentJob} {e : WorkerEvent}
    (h : db.Settles j e) (h' : db.Settles j' e) : j = j' := by
  cases e with
  | process now i => exact Option.some.inj (h.1.symm.trans h'.1)
  | failed i failure at' => exact Option.some.inj (h.1.symm.trans h'.1)
  | lease => cases h
  | defer => cases h
  | recover => cases h

variable {parseDay parseTime rd}

theorem workerStep_keepsJobs {db : MemoryDb} (hrows : db.HeadsHaveRows) (e : WorkerEvent) :
    Knowledge.KeepsJobs db.know (db.workerStep parseDay parseTime rd e).know := by
  cases e with
  | lease now batchSize leaseSeconds => exact leaseBatch_keepsJobs db _ _ _
  | defer now batchSize until' => exact deferRunnable_keepsJobs db _ _ _
  | process now i =>
    simp only [workerStep]
    split
    · rename_i db' out h
      rcases processOneJob_cases h with rfl | ⟨j, hj, -, hp⟩
      · exact .refl _
      · exact hp.keepsJobs hrows hj
    · exact .refl _
  | failed i failure at' => exact afterFailure_keepsJobs db i failure at'
  | recover now => exact recoverExpiredLeases_keepsJobs db now

theorem Touches.mono {owned owned' : ClaimId → SnapshotId → Prop} {db db' : MemoryDb}
    (h : Touches owned db db') (hsub : ∀ c s, owned c s → owned' c s) :
    Touches owned' db db' :=
  { h with heads := fun c s => (h.heads c s).imp_right fun ⟨ho, hrest⟩ => ⟨hsub c s ho, hrest⟩ }

/-- **What the worker settles.** A transaction changes the head of the job it settles
at most, under the job's target. -/
theorem workerStep_touches (db : MemoryDb) (e : WorkerEvent) :
    Touches (fun c s => ∃ j, db.Settles j e ∧ j.claimId = c ∧ j.targetConfigSnapshotId = s)
      db (db.workerStep parseDay parseTime rd e) := by
  cases e with
  | lease now batchSize leaseSeconds =>
    simp only [workerStep, leaseBatch]
    split
    · exact touches_of_same db rfl fun _ h => h
    · exact touches_of_same db rfl fun _ h => h
  | defer now batchSize until' => exact touches_of_same db rfl fun _ h => h
  | process now i =>
    simp only [workerStep]
    split
    · rename_i db' out h
      rcases processOneJob_cases h with rfl | ⟨j, hj, hleased, hp⟩
      · exact touches_of_same db' rfl fun _ h => h
      · exact hp.touches.mono fun c s ⟨hslot, hc, hs⟩ => ⟨j, ⟨hj, hleased, hslot⟩, hc, hs⟩
    · exact touches_of_same db rfl fun _ h => h
  | failed i failure at' =>
    have hblock : ∀ errorClass withQuestion, Touches (fun c s => ∃ j,
        db.Settles j (.failed i failure at') ∧ j.claimId = c ∧
          j.targetConfigSnapshotId = s) db (db.blockLostJob i errorClass withQuestion) := by
      intro errorClass withQuestion
      exact (blockLostJob_touches db i errorClass withQuestion).mono
        fun c s ⟨j, hj, hleased, hc, hs⟩ => ⟨j, ⟨hj, hleased⟩, hc, hs⟩
    simp only [workerStep, afterFailure]
    cases failure with
    | ruleValidation error => exact hblock _ _
    | transient errorClass =>
      simp only
      split
      · exact hblock _ _
      · unfold retryLostJob
        split
        · exact touches_of_same db rfl fun _ h => h
        · split
          · exact touches_of_same db rfl fun _ h => h
          · exact touches_of_same db rfl fun _ h => h
  | recover now => exact touches_of_same db rfl fun _ h => h

/-- A transaction of the reassessment worker writes no evidence. -/
theorem workerStep_evidence {parseDay parseTime : String → Option Int} {rd : Readers}
    (db : MemoryDb) (e : WorkerEvent) :
    (db.workerStep parseDay parseTime rd e).tables.toEvidenceDb = db.tables.toEvidenceDb := by
  have hblock : ∀ i errorClass withQuestion,
      (db.blockLostJob i errorClass withQuestion).tables.toEvidenceDb =
        db.tables.toEvidenceDb := by
    intro i errorClass withQuestion
    unfold blockLostJob
    split
    · rfl
    · split <;> rfl
  cases e with
  | lease now batchSize leaseSeconds =>
    simp only [workerStep, leaseBatch]
    split <;> rfl
  | defer now batchSize until' => rfl
  | process now i =>
    simp only [workerStep]
    split
    · rename_i db' out h
      rcases processOneJob_cases h with rfl | ⟨j, -, -, hp⟩
      · rfl
      · cases hp with
        | settled claim claimScope r hslot htarget hclaim =>
          unfold settleJob
          split <;> rfl
        | _ => rfl
    · rfl
  | failed i failure at' =>
    simp only [workerStep, afterFailure]
    cases failure with
    | ruleValidation error => exact hblock i _ _
    | transient errorClass =>
      simp only
      split
      · exact hblock i _ _
      · unfold retryLostJob
        split
        · rfl
        · split <;> rfl
  | recover now => rfl

end Step

end MemoryDb

end Noezema.Memory
