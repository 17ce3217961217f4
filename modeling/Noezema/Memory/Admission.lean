import Noezema.Memory.Worker

/-! # Admission predicates

Which reassessment jobs are runnable, as the worker leases them and as the wake scheduler
and the metrics count them. The worker reads the slot of the runtime head through
`_head_row`, to which a draft with an expired lease is no holder; the other three
queries ask for an empty slot. They agree unless such a draft is left in the slot.
-/

namespace Noezema.Memory

namespace MemoryDb

/-! ## The four queries -/

/-- The worker: `_head_row` and the query of `run_reassessment_batch`. -/
def workerRunnable (db : MemoryDb) (now : Nat) (j : ReassessmentJob) : Bool :=
  db.heldSlot now = none ∧ db.runnable now j

/-- The `WHERE` clause that the other queries repeat. -/
def countedRunnable (db : MemoryDb) (now : Nat) (j : ReassessmentJob) : Bool :=
  db.runnable now j ∧ db.head.activating = none

section Queries

variable (enqueuedAt : ReassessmentJob → Nat)

/-- `EXTRACT(EPOCH FROM now() - j.enqueued_at)`. -/
def jobAge (now : Nat) (j : ReassessmentJob) : Int := (now : Int) - (enqueuedAt j : Int)

/-- The jobs behind `WakeScheduler.status`. -/
def statusJobs (db : MemoryDb) (now : Nat) : List ReassessmentJob :=
  db.know.jobs.filter fun j => db.countedRunnable now j

/-- The jobs behind the backlog check of `_admission`: runnable ones past the escalation
age. -/
def admissionJobs (db : MemoryDb) (now tEscalate : Nat) : List ReassessmentJob :=
  db.know.jobs.filter fun j => db.countedRunnable now j ∧ (tEscalate : Int) < jobAge enqueuedAt now j

/-- The jobs behind `worker_admission_metrics`. -/
def metricsJobs (db : MemoryDb) (now : Nat) : List ReassessmentJob :=
  db.know.jobs.filter fun j => db.countedRunnable now j

/-- `MAX(EXTRACT(EPOCH FROM now() - j.enqueued_at))`. -/
def oldestAge (now : Nat) (jobs : List ReassessmentJob) : Option Int :=
  (jobs.map (jobAge enqueuedAt now)).max?

/-- `oldest_runnable_age_seconds` of the status. -/
def statusOldestAge (db : MemoryDb) (now : Nat) : Option Int :=
  oldestAge enqueuedAt now (db.statusJobs now)

/-- `REASON_REASSESSMENT_BACKLOG`. -/
def reassessmentBacklog (db : MemoryDb) (now tEscalate tWorkerAdmission : Nat) : Bool :=
  (oldestAge enqueuedAt now (db.admissionJobs enqueuedAt now tEscalate)).any
    fun age => (tWorkerAdmission : Int) < age

/-- `worker_admission_metrics`: the count and the oldest age. -/
def workerAdmissionMetrics (db : MemoryDb) (now : Nat) : Nat × Option Int :=
  ((db.metricsJobs now).length, oldestAge enqueuedAt now (db.metricsJobs now))

/-- The four queries mean the same jobs; the backlog check takes the escalated ones. -/
structure AdmissionAgrees (db : MemoryDb) (now : Nat) : Prop where
  status : ∀ j ∈ db.know.jobs, j ∈ db.statusJobs now ↔ db.workerRunnable now j
  admission : ∀ tEscalate : Nat, ∀ j ∈ db.know.jobs,
    j ∈ db.admissionJobs enqueuedAt now tEscalate ↔
      db.workerRunnable now j ∧ (tEscalate : Int) < jobAge enqueuedAt now j
  metrics : ∀ j ∈ db.know.jobs, j ∈ db.metricsJobs now ↔ db.workerRunnable now j

end Queries

/-! ## The leased jobs are the worker's -/

/-- A transaction leases a job. -/
def Leases (db db' : MemoryDb) (i : JobId) : Prop :=
  ∃ j j', db.know.jobs[i]? = some j ∧ db'.know.jobs[i]? = some j' ∧
    j.status ≠ .leased ∧ j'.status = .leased

theorem mem_runnableIds {db : MemoryDb} {now batchSize : Nat} {i : JobId} {j : ReassessmentJob}
    (hj : db.know.jobs[i]? = some j) (hsize : db.know.jobs.length ≤ batchSize) :
    i ∈ db.runnableIds now batchSize ↔ db.runnable now j := by
  unfold runnableIds
  rw [List.take_of_length_le]
  · simp only [List.mem_map, List.mem_filter, Prod.exists, exists_eq_right,
      List.mem_zipIdx_iff_getElem?, hj, Option.some_inj]
    constructor
    · rintro ⟨_, rfl, hrun⟩
      exact hrun
    · intro hrun
      exact ⟨j, rfl, hrun⟩
  · rw [List.length_map]
    refine (List.length_filter_le _ _).trans ?_
    rwa [List.length_zipIdx]

theorem runnable_not_leased {db : MemoryDb} {now : Nat} {j : ReassessmentJob}
    (h : db.runnable now j) : j.status ≠ .leased := by
  simp only [runnable, decide_eq_true_eq] at h
  rcases h.1 with hs | hs <;> simp [hs]

/-- **The worker leases what it calls runnable**, unless a session declares its intent. The
batch is large enough for all of them. -/
theorem leaseBatch_leases_iff {db : MemoryDb} {now batchSize leaseSeconds : Nat} {i : JobId}
    {j : ReassessmentJob} (hj : db.know.jobs[i]? = some j)
    (hsize : db.know.jobs.length ≤ batchSize) :
    db.Leases (db.leaseBatch now batchSize leaseSeconds) i ↔
      db.sessions.commitIntent = false ∧ db.workerRunnable now j := by
  by_cases hgate : db.sessions.commitIntent ∨ db.heldSlot now ≠ none
  · refine iff_of_false ?_ ?_
    · rintro ⟨j₁, j₂, h₁, h₂, hne, heq⟩
      rw [leaseBatch, if_pos hgate, h₁] at h₂
      obtain rfl := Option.some.inj h₂
      exact hne heq
    · rintro ⟨hintent, hrun⟩
      simp only [workerRunnable, decide_eq_true_eq] at hrun
      rcases hgate with hgate | hgate
      · rw [hintent] at hgate
        cases hgate
      · exact hgate hrun.1
  · obtain ⟨hintent, hslot⟩ := not_or.mp hgate
    have hslot := not_not.mp hslot
    have hrow : (db.leaseBatch now batchSize leaseSeconds).know.jobs[i]? =
        some (if db.runnable now j then lease now leaseSeconds j else j) := by
      rw [leaseBatch, if_neg hgate, withKnow_know]
      simp only [List.getElem?_mapIdx, hj, Option.map_some, mem_runnableIds hj hsize]
    constructor
    · rintro ⟨j₁, j₂, h₁, h₂, hne, heq⟩
      rw [hj] at h₁
      rw [hrow] at h₂
      obtain rfl := Option.some.inj h₁
      obtain rfl := Option.some.inj h₂
      refine ⟨by simpa using hintent, ?_⟩
      by_cases hrun : db.runnable now j
      · simp [workerRunnable, hslot, hrun]
      · rw [if_neg hrun] at heq
        exact absurd heq hne
    · rintro ⟨-, hrun⟩
      simp only [workerRunnable, decide_eq_true_eq] at hrun
      rw [if_pos hrun.2] at hrow
      exact ⟨j, _, hj, hrow, runnable_not_leased hrun.2, rfl⟩

/-! ## When the queries agree -/

/-- The slot is held by a draft whose lease has expired: a drain that crashed. -/
def ExpiredDraft (db : MemoryDb) (now : Nat) : Prop :=
  ∃ s, db.head.activating = some s ∧ (db.snapshot? s).any (fun r => r.state = .draft) ∧
    db.head.leaseExpiresAt.any fun t => t ≤ now

/-- The two readings of the slot differ on a draft with an expired lease only. -/
theorem heldSlot_eq_none_iff {db : MemoryDb} {now : Nat} :
    db.heldSlot now = none ↔ db.head.activating = none ∨ db.ExpiredDraft now := by
  unfold heldSlot ExpiredDraft
  cases hslot : db.head.activating with
  | none => simp
  | some s =>
    dsimp only
    by_cases hexpired : (db.snapshot? s).any (fun r => r.state = .draft) ∧
        db.head.leaseExpiresAt.any (fun t => t ≤ now)
    · simp [hexpired]
    · simp only [if_neg hexpired]
      simpa using hexpired

theorem mem_filter_jobs {jobs : List ReassessmentJob} {p : ReassessmentJob → Bool}
    {j : ReassessmentJob} (hj : j ∈ jobs) : j ∈ jobs.filter p ↔ p j := by
  rw [List.mem_filter, and_iff_right hj]

/-- A due job is counted exactly when the worker would take it, but for the draft. -/
theorem counted_iff_worker {db : MemoryDb} {now : Nat} (h : ¬ db.ExpiredDraft now)
    (j : ReassessmentJob) : db.countedRunnable now j ↔ db.workerRunnable now j := by
  simp only [countedRunnable, workerRunnable, decide_eq_true_eq, heldSlot_eq_none_iff, h,
    or_false]
  exact and_comm

theorem ExpiredDraft.activating {db : MemoryDb} {now : Nat} (h : db.ExpiredDraft now) :
    db.head.activating ≠ none := by
  obtain ⟨s, hs, -⟩ := h
  simp [hs]

end MemoryDb

open MemoryDb in
theorem admissionAgrees_iff (enqueuedAt : ReassessmentJob → Nat) (db : MemoryDb) (now : Nat) :
    db.AdmissionAgrees enqueuedAt now ↔
      ¬ db.ExpiredDraft now ∨ ∀ j ∈ db.know.jobs, db.runnable now j = false := by
  constructor
  · intro h
    by_cases hdraft : db.ExpiredDraft now
    · right
      intro j hj
      by_contra hrun
      -- the worker takes the job, the status does not count it
      have hworker : db.workerRunnable now j := by
        simp only [workerRunnable, decide_eq_true_eq]
        exact ⟨heldSlot_eq_none_iff.mpr (.inr hdraft), by simpa using hrun⟩
      have hcounted := (mem_filter_jobs hj).mp ((h.status j hj).mpr hworker)
      simp only [countedRunnable, decide_eq_true_eq] at hcounted
      exact hdraft.activating hcounted.2
    · exact .inl hdraft
  · intro h
    have hsame : ∀ j ∈ db.know.jobs, db.countedRunnable now j ↔ db.workerRunnable now j := by
      intro j hj
      rcases h with hdraft | hnone
      · exact counted_iff_worker hdraft j
      · simp [countedRunnable, workerRunnable, hnone j hj]
    refine ⟨?_, ?_, ?_⟩
    · intro j hj
      exact (mem_filter_jobs hj).trans (hsame j hj)
    · intro tEscalate j hj
      refine (mem_filter_jobs hj).trans ?_
      rw [decide_eq_true_eq]
      exact and_congr_left fun _ => hsame j hj
    · intro j hj
      exact (mem_filter_jobs hj).trans (hsame j hj)

/-- **The admission predicates agree** exactly when no expired draft is left in the slot or
no job is due. The worker's predicate is the one its batch leases by, where no session
declares its intent. -/
theorem admission_agrees_iff (enqueuedAt : ReassessmentJob → Nat) (db : MemoryDb) (now : Nat) :
    (∀ batchSize leaseSeconds i j, db.know.jobs[i]? = some j →
      db.know.jobs.length ≤ batchSize →
      (db.Leases (db.leaseBatch now batchSize leaseSeconds) i ↔
        db.sessions.commitIntent = false ∧ db.workerRunnable now j)) ∧
    (db.AdmissionAgrees enqueuedAt now ↔
      ¬ db.ExpiredDraft now ∨ ∀ j ∈ db.know.jobs, db.runnable now j = false) :=
  ⟨fun _ _ _ _ hj hsize => MemoryDb.leaseBatch_leases_iff hj hsize,
    admissionAgrees_iff enqueuedAt db now⟩

/-! ## A drain that crashed -/

/-- The candidate of a drain, still a draft. -/
def drainCandidate : ConfigSnapshot where
  id := 2
  baseSnapshotId := some 1
  payloadSha256 := "2"
  mode := .online
  state := .draft
  rules := fun _ => none
  ruleDigests := fun _ => none
  cohortRevision := none
  expectedHeadCount := none
  verifiedHeadCount := none
  headsSha256 := none
  postPublishCursor := 0
  postPublishAttempts := 0
  postPublishNextAttemptAt := none
  maxAttempts := none
  maxPendingQuestions := none

/-- Its lease has expired at 10; a job of the active snapshot is queued. -/
def drainedDb : MemoryDb where
  cascade := {
    know := ⟨fun _ _ => some .pending, [⟨0, 1, 1, .queued, "cascade", 0, 78, none, none, none⟩],
      [], 0⟩
    effective := 1
    dependencies := []
    graphRevision := 0
    manifests := []
    barriers := [] }
  tables := { evidence := [], revocations := [], sources := [], edges := [], corrections := []
              manifests := [], resolutions := [], registered := EvidenceDb.registered_nil
              assessments := [] }
  claims := []
  snapshots := [drainCandidate]
  head := ⟨some 2, 1, none, some 10⟩
  sessions := ⟨0, 0, 0, false⟩
  sourceGraphRevision := 0

/-- The worker leases the job and neither the scheduler nor the metrics count it. -/
theorem expired_draft_hides_jobs :
    ¬ ∀ enqueuedAt db now, MemoryDb.AdmissionAgrees enqueuedAt db now := by
  intro h
  have hstatus := (h (fun _ => 0) drainedDb 20).status _ List.mem_cons_self
  revert hstatus
  decide

end Noezema.Memory
