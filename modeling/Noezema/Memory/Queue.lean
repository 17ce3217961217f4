import Noezema.Memory.Store

/-! # The reassessment queue

The heads table together with the durable jobs that bring pending heads back.
Every producer of pending heads (cascades, barriers, source-graph changes,
counter resolutions, the activation lanes, the commit carry-over) works through
the few row operations defined here; `Covered` is what they owe each other.
-/

namespace Noezema.Memory

/-- `reassessment_jobs.status`. -/
inductive JobStatus where
  | queued | leased | retry | blocked | completed
deriving DecidableEq, Repr

/-- `status IN ('queued','leased','retry')`. -/
def JobStatus.isActive : JobStatus → Bool
  | .queued | .leased | .retry => true
  | .blocked | .completed => false

/-- A row of `reassessment_jobs`; times are seconds. -/
structure ReassessmentJob where
  id : Nat
  claimId : ClaimId
  targetConfigSnapshotId : SnapshotId
  status : JobStatus
  reason : String
  attempts : Nat
  maxAttempts : Nat
  errorClass : Option String
  leaseExpiresAt : Option Nat
  nextAttemptAt : Option Nat
deriving DecidableEq, Repr

/-- The names the deterministic question ids are hashed from. -/
inductive QuestionName where
  | cascadeInvalidation (snapshot : SnapshotId) (claim : ClaimId)
  | reassessmentInsufficient (snapshot : SnapshotId) (claim : ClaimId)
  | activationPending (snapshot : SnapshotId) (claim : ClaimId)
  | invalidAssessment (snapshot : SnapshotId) (claim : ClaimId)
deriving DecidableEq, Repr

/-- The heads, the jobs, the follow-up questions and the `knowledge` revision. -/
structure Knowledge where
  heads : Heads
  jobs : List ReassessmentJob
  questions : List QuestionName
  revision : Nat

/-- The job is an active one for the claim under the snapshot. -/
def ReassessmentJob.serves (j : ReassessmentJob) (c : ClaimId) (s : SnapshotId) :
    Bool :=
  j.claimId = c && j.targetConfigSnapshotId = s && j.status.isActive

namespace Knowledge

/-! ## Row operations -/

/-- Is there a job in `queued`, `leased` or `retry` for the claim and snapshot? -/
def hasJob (k : Knowledge) (c : ClaimId) (s : SnapshotId) : Bool :=
  k.jobs.any fun j => j.serves c s

/-- `_invalidate_head`: `current → pending`; the result is the prior state, `none`
for a missing head. -/
def invalidateHead (k : Knowledge) (c : ClaimId) (s : SnapshotId) :
    Knowledge × Option AssessmentState :=
  match k.heads.state c s with
  | some .current => ({ k with heads := k.heads.set c s (some .pending) }, some .current)
  | prior => (k, prior)

/-- The row `_enqueue_job` inserts. -/
def newJob (k : Knowledge) (c : ClaimId) (s : SnapshotId) (reason : String) :
    ReassessmentJob where
  id := k.jobs.length
  claimId := c
  targetConfigSnapshotId := s
  status := .queued
  reason := reason
  attempts := 0
  maxAttempts := 78
  errorClass := none
  leaseExpiresAt := none
  nextAttemptAt := none

/-- `_enqueue_job`: one active job for a claim and snapshot. The flag says whether
a row was inserted. -/
def enqueueJob (k : Knowledge) (c : ClaimId) (s : SnapshotId) (reason : String) :
    Knowledge × Bool :=
  if k.hasJob c s then (k, false)
  else ({ k with jobs := k.jobs ++ [k.newJob c s reason] }, true)

/-- Insert a question under its deterministic id unless it exists. -/
def enqueueQuestion (k : Knowledge) (q : QuestionName) : Knowledge :=
  if q ∈ k.questions then k else { k with questions := k.questions ++ [q] }

/-- `_bump_knowledge_revision`. -/
def bumpRevision (k : Knowledge) : Knowledge := { k with revision := k.revision + 1 }

/-- `_cascade_claim`, and the loop body of `apply_source_graph_change`: head →
pending with its job, nothing when the head was not current. The result counts
the invalidation and the inserted job. -/
def cascadeClaim (k : Knowledge) (c : ClaimId) (s : SnapshotId) (reason : String) :
    Knowledge × Nat × Bool :=
  match k.invalidateHead c s with
  | (k, some .current) =>
    let (k, created) := k.enqueueJob c s reason
    (k, 1, created)
  | (k, _) => (k, 0, false)

/-- The pending heads of a snapshot all have an active job. -/
def Covered (k : Knowledge) (s : SnapshotId) : Prop :=
  ∀ c, k.heads c s = some .pending → k.hasJob c s

/-! ## What the row operations do -/

theorem hasJob_iff {k : Knowledge} {c : ClaimId} {s : SnapshotId} :
    k.hasJob c s = true ↔ ∃ j ∈ k.jobs, j.serves c s := by
  simp [hasJob]

theorem hasJob_of_subset {k k' : Knowledge} {c : ClaimId} {s : SnapshotId}
    (hsub : ∀ j ∈ k.jobs, j ∈ k'.jobs) (h : k.hasJob c s) : k'.hasJob c s := by
  obtain ⟨j, hj, hs⟩ := hasJob_iff.mp h
  exact hasJob_iff.mpr ⟨j, hsub j hj, hs⟩

@[simp] theorem newJob_serves (k : Knowledge) (c : ClaimId) (s : SnapshotId)
    (reason : String) : (k.newJob c s reason).serves c s = true := by
  simp [ReassessmentJob.serves, newJob, JobStatus.isActive]

@[simp] theorem invalidateHead_jobs (k : Knowledge) (c : ClaimId) (s : SnapshotId) :
    (k.invalidateHead c s).1.jobs = k.jobs := by
  unfold invalidateHead
  split <;> rfl

@[simp] theorem invalidateHead_prior (k : Knowledge) (c : ClaimId) (s : SnapshotId) :
    (k.invalidateHead c s).2 = k.heads.state c s := by
  unfold invalidateHead
  split
  · rename_i h
    exact h.symm
  · rfl

/-- A head after an invalidation of it. -/
def invalidated : Option Head → Option Head
  | some (.current _ _) => some .pending
  | h => h

@[simp] theorem invalidated_idem (h : Option Head) :
    invalidated (invalidated h) = invalidated h := by
  rcases h with _ | _ | _ | _ <;> rfl

theorem invalidateHead_heads (k : Knowledge) (c c' : ClaimId) (s s' : SnapshotId) :
    (k.invalidateHead c s).1.heads c' s' =
      if c' = c ∧ s' = s then invalidated (k.heads c' s') else k.heads c' s' := by
  by_cases heq : c' = c ∧ s' = s
  · obtain ⟨rfl, rfl⟩ := heq
    cases hh : k.heads c' s' with
    | none => simp [invalidateHead, Heads.state, hh, invalidated]
    | some h => cases h <;> simp [invalidateHead, Heads.state, hh, Head.state, invalidated]
  · rw [if_neg heq]
    unfold invalidateHead
    split
    · exact Heads.set_other _ _ heq
    · rfl

@[simp] theorem enqueueJob_heads (k : Knowledge) (c : ClaimId) (s : SnapshotId)
    (reason : String) : (k.enqueueJob c s reason).1.heads = k.heads := by
  unfold enqueueJob
  split <;> rfl

theorem enqueueJob_subset (k : Knowledge) (c : ClaimId) (s : SnapshotId)
    (reason : String) : ∀ j ∈ k.jobs, j ∈ (k.enqueueJob c s reason).1.jobs := by
  intro j hj
  unfold enqueueJob
  split
  · exact hj
  · exact List.mem_append_left _ hj

/-- After `_enqueue_job` there is an active job, inserted or not. -/
theorem enqueueJob_hasJob (k : Knowledge) (c : ClaimId) (s : SnapshotId)
    (reason : String) : (k.enqueueJob c s reason).1.hasJob c s := by
  by_cases h : k.hasJob c s
  · simp [enqueueJob, h]
  · simp only [enqueueJob, if_neg h]
    exact hasJob_iff.mpr ⟨_, List.mem_append_right _ (by simp), newJob_serves k c s reason⟩

@[simp] theorem enqueueQuestion_heads (k : Knowledge) (q : QuestionName) :
    (k.enqueueQuestion q).heads = k.heads := by
  unfold enqueueQuestion
  split <;> rfl

@[simp] theorem enqueueQuestion_jobs (k : Knowledge) (q : QuestionName) :
    (k.enqueueQuestion q).jobs = k.jobs := by
  unfold enqueueQuestion
  split <;> rfl

@[simp] theorem bumpRevision_heads (k : Knowledge) :
    k.bumpRevision.heads = k.heads := rfl

@[simp] theorem bumpRevision_jobs (k : Knowledge) :
    k.bumpRevision.jobs = k.jobs := rfl

/-- **What one invalidation owes the queue.** The head goes through `invalidated`
and every other head stays; no job is lost; a head that was current has a job. -/
structure Invalidates (k k' : Knowledge) (cs : List ClaimId) (s : SnapshotId) :
    Prop where
  heads : ∀ c s', k'.heads c s' =
    if c ∈ cs ∧ s' = s then invalidated (k.heads c s') else k.heads c s'
  jobs : ∀ j ∈ k.jobs, j ∈ k'.jobs
  owed : ∀ c ∈ cs, k.heads.state c s = some .current → k'.hasJob c s

theorem Invalidates.refl (k : Knowledge) (s : SnapshotId) : Invalidates k k [] s where
  heads := by simp
  jobs := fun _ h => h
  owed := by simp

theorem Invalidates.append {k k₁ k₂ : Knowledge} {cs ds : List ClaimId}
    {s : SnapshotId} (h₁ : Invalidates k k₁ cs s) (h₂ : Invalidates k₁ k₂ ds s) :
    Invalidates k k₂ (cs ++ ds) s where
  heads := by
    intro c s'
    rw [h₂.heads, h₁.heads]
    by_cases hs : s' = s <;> by_cases hc : c ∈ cs <;> by_cases hd : c ∈ ds <;>
      simp [hs, hc, hd]
  jobs := fun j hj => h₂.jobs j (h₁.jobs j hj)
  owed := by
    intro c hc hcur
    by_cases hcs : c ∈ cs
    · exact hasJob_of_subset h₂.jobs (h₁.owed c hcs hcur)
    · have hd : c ∈ ds := (List.mem_append.mp hc).resolve_left hcs
      refine h₂.owed c hd ?_
      have hsame := h₁.heads c s
      rw [if_neg (by simp [hcs])] at hsame
      rw [Heads.state, hsame]
      exact hcur

/-- Steps that touch neither heads nor jobs come for free. -/
theorem Invalidates.congr {k k₁ k₂ : Knowledge} {cs : List ClaimId} {s : SnapshotId}
    (h : Invalidates k k₁ cs s) (hh : k₂.heads = k₁.heads) (hj : k₂.jobs = k₁.jobs) :
    Invalidates k k₂ cs s where
  heads := by
    rw [hh]
    exact h.heads
  jobs := by
    rw [hj]
    exact h.jobs
  owed := by
    intro c hc hcur
    have hjob := h.owed c hc hcur
    rwa [hasJob, hj]

/-- After an invalidation no claim it lists is current under the snapshot. -/
theorem Invalidates.not_current {k k' : Knowledge} {cs : List ClaimId}
    {s : SnapshotId} (h : Invalidates k k' cs s) {c : ClaimId} (hc : c ∈ cs) :
    k'.heads.state c s ≠ some .current := by
  have heq := h.heads c s
  rw [if_pos ⟨hc, rfl⟩] at heq
  rw [Heads.state, heq]
  cases k.heads c s with
  | none => simp [invalidated]
  | some v => cases v <;> simp [invalidated, Head.state]

/-- An invalidation keeps every snapshot covered. -/
theorem Invalidates.covered {k k' : Knowledge} {cs : List ClaimId}
    {s s' : SnapshotId} (h : Invalidates k k' cs s) (hcov : k.Covered s') :
    k'.Covered s' := by
  intro c hp
  rw [h.heads] at hp
  split at hp
  · rename_i hc
    obtain ⟨hmem, rfl⟩ := hc
    cases hk : k.heads c s' with
    | none => simp [hk, invalidated] at hp
    | some v =>
      cases v with
      | current a e => exact h.owed c hmem (by simp [Heads.state, hk, Head.state])
      | pending => exact hasJob_of_subset h.jobs (hcov c hk)
      | invalid => simp [hk, invalidated] at hp
  · exact hasJob_of_subset h.jobs (hcov c hp)

theorem state_eq_current {h : Heads} {c : ClaimId} {s : SnapshotId} :
    h.state c s = some .current ↔ ∃ a e, h c s = some (.current a e) := by
  unfold Heads.state
  cases h c s with
  | none => simp
  | some v => cases v <;> simp [Head.state]

theorem cascadeClaim_invalidates (k : Knowledge) (c : ClaimId) (s : SnapshotId)
    (reason : String) : Invalidates k (k.cascadeClaim c s reason).1 [c] s := by
  have hprior := invalidateHead_prior k c s
  have hheads := invalidateHead_heads k c
  have hjobs := invalidateHead_jobs k c s
  unfold cascadeClaim
  generalize hi : k.invalidateHead c s = p at hprior hjobs ⊢
  have hheads' : ∀ c' s', p.1.heads c' s' =
      if c' = c ∧ s' = s then invalidated (k.heads c' s') else k.heads c' s' := by
    intro c' s'
    rw [← hi]
    exact hheads c' s s'
  obtain ⟨k₁, prior⟩ := p
  simp only at hprior hjobs hheads'
  split
  · rename_i k₂ heq
    obtain ⟨rfl, rfl⟩ := Prod.mk.inj heq
    exact {
      heads := by simpa using hheads'
      jobs := fun j hj => enqueueJob_subset _ _ _ _ j (by rwa [hjobs])
      owed := by
        intro c' hc' _
        rw [List.mem_singleton.mp hc']
        exact enqueueJob_hasJob _ _ _ _ }
  · rename_i k₂ prior' hne heq
    obtain ⟨rfl, rfl⟩ := Prod.mk.inj heq
    exact {
      heads := by simpa using hheads'
      jobs := fun j hj => by rwa [hjobs]
      owed := by
        intro c' hc' hcur
        rw [List.mem_singleton.mp hc', ← hprior] at hcur
        exact absurd hcur hne }

@[simp] theorem invalidateHead_questions (k : Knowledge) (c : ClaimId) (s : SnapshotId) :
    (k.invalidateHead c s).1.questions = k.questions := by
  unfold invalidateHead
  split <;> rfl

@[simp] theorem enqueueJob_questions (k : Knowledge) (c : ClaimId) (s : SnapshotId)
    (reason : String) : (k.enqueueJob c s reason).1.questions = k.questions := by
  unfold enqueueJob
  split <;> rfl

@[simp] theorem cascadeClaim_questions (k : Knowledge) (c : ClaimId) (s : SnapshotId)
    (reason : String) : (k.cascadeClaim c s reason).1.questions = k.questions := by
  have hq := invalidateHead_questions k c s
  unfold cascadeClaim
  split
  · rename_i k₁ heq
    rw [heq] at hq
    exact (enqueueJob_questions k₁ c s reason).trans hq
  · rename_i k₁ prior hne heq
    rw [heq] at hq
    exact hq

/-! ## `_invalidate_batch` -/

/-- One claim of a batch: `_cascade_claim` and the follow-up question. -/
def invalidateClaim (k : Knowledge) (c : ClaimId) (s : SnapshotId) (reason : String) :
    Knowledge × Nat × Bool :=
  match k.cascadeClaim c s reason with
  | (k, 0, created) => (k, 0, created)
  | (k, n, created) => (k.enqueueQuestion (.cascadeInvalidation s c), n, created)

/-- `_invalidate_batch`: heads → jobs → questions, claim by claim. Returns the
numbers of invalidated heads and inserted jobs. -/
def invalidateBatch (s : SnapshotId) (reason : String) :
    List ClaimId → Knowledge → Knowledge × Nat × Nat
  | [], k => (k, 0, 0)
  | c :: cs, k =>
    let (k, one, created) := k.invalidateClaim c s reason
    let (k, invalidated, jobsCreated) := invalidateBatch s reason cs k
    (k, one + invalidated, created.toNat + jobsCreated)

theorem invalidateClaim_invalidates (k : Knowledge) (c : ClaimId) (s : SnapshotId)
    (reason : String) : Invalidates k (k.invalidateClaim c s reason).1 [c] s := by
  have h := cascadeClaim_invalidates k c s reason
  unfold invalidateClaim
  split <;> rename_i heq
  · rw [heq] at h
    exact h
  · rw [heq] at h
    exact h.congr (by simp) (by simp)

/-- **The batch.** By induction on the window: a batch is the invalidation of all
its claims. -/
theorem invalidateBatch_invalidates (s : SnapshotId) (reason : String)
    (cs : List ClaimId) (k : Knowledge) :
    Invalidates k (invalidateBatch s reason cs k).1 cs s := by
  induction cs generalizing k with
  | nil => exact .refl k s
  | cons c cs ih =>
    exact (invalidateClaim_invalidates k c s reason).append (ih _)

/-! ## Follow-up questions -/

/-- Insert a question for each claim; the number of new ones. -/
def enqueueQuestions (name : ClaimId → QuestionName) : List ClaimId → Knowledge →
    Knowledge × Nat
  | [], k => (k, 0)
  | c :: cs, k =>
    let created := if name c ∈ k.questions then 0 else 1
    let (k, more) := enqueueQuestions name cs (k.enqueueQuestion (name c))
    (k, created + more)

@[simp] theorem enqueueQuestions_heads (name : ClaimId → QuestionName) (cs : List ClaimId)
    (k : Knowledge) : (enqueueQuestions name cs k).1.heads = k.heads := by
  induction cs generalizing k with
  | nil => rfl
  | cons c cs ih => simp [enqueueQuestions, ih]

@[simp] theorem enqueueQuestions_jobs (name : ClaimId → QuestionName) (cs : List ClaimId)
    (k : Knowledge) : (enqueueQuestions name cs k).1.jobs = k.jobs := by
  induction cs generalizing k with
  | nil => rfl
  | cons c cs ih => simp [enqueueQuestions, ih]

/-! ## No pending head without a job -/

/-- A change leaves no pending head without a job: a head that is pending after it
has a job then, or was pending before and lost none. -/
def KeepsJobs (k k' : Knowledge) : Prop :=
  ∀ c s, k'.heads c s = some .pending → k'.hasJob c s ∨
    (k.heads c s = some .pending ∧ (k.hasJob c s → k'.hasJob c s))

theorem KeepsJobs.covered {k k' : Knowledge} (h : KeepsJobs k k')
    (hcov : ∀ s, k.Covered s) (s : SnapshotId) : k'.Covered s := by
  intro c hp
  rcases h c s hp with hjob | ⟨hp', hkeep⟩
  · exact hjob
  · exact hkeep (hcov s c hp')

theorem KeepsJobs.refl (k : Knowledge) : KeepsJobs k k :=
  fun _ _ hp => .inr ⟨hp, id⟩

theorem KeepsJobs.trans {k₁ k₂ k₃ : Knowledge} (h : KeepsJobs k₁ k₂)
    (h' : KeepsJobs k₂ k₃) : KeepsJobs k₁ k₃ := by
  intro c s hp
  rcases h' c s hp with hjob | ⟨hp', hkeep'⟩
  · exact .inl hjob
  · rcases h c s hp' with hjob | ⟨hp'', hkeep⟩
    · exact .inl (hkeep' hjob)
    · exact .inr ⟨hp'', fun hj => hkeep' (hkeep hj)⟩

/-- What touches neither heads nor jobs. -/
theorem KeepsJobs.of_same {k k' : Knowledge} (hh : k'.heads = k.heads)
    (hj : k'.jobs = k.jobs) : KeepsJobs k k' := by
  intro c s hp
  rw [hh] at hp
  refine .inr ⟨hp, fun hjob => ?_⟩
  rwa [hasJob, hj]

/-- An invalidation. -/
theorem Invalidates.keepsJobs {k k' : Knowledge} {cs : List ClaimId} {s : SnapshotId}
    (h : Invalidates k k' cs s) : KeepsJobs k k' := by
  intro c s' hp
  rw [h.heads] at hp
  split at hp
  · rename_i hc
    obtain ⟨hmem, rfl⟩ := hc
    cases hk : k.heads c s' with
    | none => simp [hk, invalidated] at hp
    | some v =>
      cases v with
      | current a e => exact .inl (h.owed c hmem (by simp [Heads.state, hk, Head.state]))
      | pending => exact .inr ⟨rfl, hasJob_of_subset h.jobs⟩
      | invalid => simp [hk, invalidated] at hp
  · exact .inr ⟨hp, hasJob_of_subset h.jobs⟩

/-- Write one head. -/
def setHead (k : Knowledge) (c : ClaimId) (s : SnapshotId) (h : Option Head) :
    Knowledge :=
  { k with heads := k.heads.set c s h }

@[simp] theorem setHead_jobs (k : Knowledge) (c : ClaimId) (s : SnapshotId)
    (h : Option Head) : (k.setHead c s h).jobs = k.jobs := rfl

@[simp] theorem setHead_same (k : Knowledge) (c : ClaimId) (s : SnapshotId)
    (h : Option Head) : (k.setHead c s h).heads c s = h := Heads.set_same ..

theorem setHead_other (k : Knowledge) {c c' : ClaimId} {s s' : SnapshotId}
    (h : Option Head) (hne : ¬ (c' = c ∧ s' = s)) :
    (k.setHead c s h).heads c' s' = k.heads c' s' := Heads.set_other _ h hne

/-- A head that is written as anything but pending owes nothing. -/
theorem setHead_keepsJobs (k : Knowledge) (c : ClaimId) (s : SnapshotId)
    {h : Option Head} (hne : h ≠ some .pending) : KeepsJobs k (k.setHead c s h) := by
  intro c' s' hp
  by_cases heq : c' = c ∧ s' = s
  · obtain ⟨rfl, rfl⟩ := heq
    rw [setHead_same] at hp
    exact absurd hp hne
  · rw [setHead_other _ _ heq] at hp
    exact .inr ⟨hp, id⟩

/-- One more job loses none. -/
theorem enqueueJob_keepsJobs (k : Knowledge) (c : ClaimId) (s : SnapshotId)
    (reason : String) : KeepsJobs k (k.enqueueJob c s reason).1 := by
  intro c' s' hp
  rw [enqueueJob_heads] at hp
  exact .inr ⟨hp, hasJob_of_subset (enqueueJob_subset k c s reason)⟩

/-- A head that is written as pending, with its job. -/
theorem setHead_enqueueJob_keepsJobs (k : Knowledge) (c : ClaimId) (s : SnapshotId)
    (h : Option Head) (reason : String) :
    KeepsJobs k ((k.setHead c s h).enqueueJob c s reason).1 := by
  intro c' s' hp
  rw [enqueueJob_heads] at hp
  by_cases heq : c' = c ∧ s' = s
  · obtain ⟨rfl, rfl⟩ := heq
    exact .inl (enqueueJob_hasJob _ _ _ _)
  · rw [setHead_other _ _ heq] at hp
    refine .inr ⟨hp, fun hjob => ?_⟩
    exact hasJob_of_subset (enqueueJob_subset (k.setHead c s h) c s reason) hjob

/-! ## Preparing a snapshot -/

/-- Heads are written for some claims under one snapshot only; no job and no question
is lost. -/
structure PreparesOnly (cs : List ClaimId) (s : SnapshotId) (k k' : Knowledge) : Prop where
  heads : ∀ c t, ¬ (c ∈ cs ∧ t = s) → k'.heads c t = k.heads c t
  jobs : ∀ j ∈ k.jobs, j ∈ k'.jobs
  questions : k'.questions = k.questions

theorem PreparesOnly.append {cs ds : List ClaimId} {s : SnapshotId} {k₁ k₂ k₃ : Knowledge}
    (h : PreparesOnly cs s k₁ k₂) (h' : PreparesOnly ds s k₂ k₃) :
    PreparesOnly (cs ++ ds) s k₁ k₃ where
  heads := by
    intro c t hne
    have hd : ¬ (c ∈ ds ∧ t = s) := fun hd => hne ⟨List.mem_append_right cs hd.1, hd.2⟩
    have hc : ¬ (c ∈ cs ∧ t = s) := fun hc => hne ⟨List.mem_append_left ds hc.1, hc.2⟩
    rw [h'.heads c t hd, h.heads c t hc]
  jobs := fun j hj => h'.jobs j (h.jobs j hj)
  questions := h'.questions.trans h.questions

/-- By induction on the claims. -/
theorem PreparesOnly.foldl {α : Type} {s : SnapshotId} {f : Knowledge → α → Knowledge}
    {key : α → ClaimId} (hf : ∀ k a, PreparesOnly [key a] s k (f k a)) (as : List α)
    (k : Knowledge) : PreparesOnly (as.map key) s k (as.foldl f k) := by
  induction as generalizing k with
  | nil => exact ⟨fun _ _ _ => rfl, fun _ h => h, rfl⟩
  | cons a as ih => exact (hf k a).append (ih (f k a))

theorem KeepsJobs.foldl {α : Type} {f : Knowledge → α → Knowledge}
    (hf : ∀ k a, KeepsJobs k (f k a)) (as : List α) (k : Knowledge) :
    KeepsJobs k (as.foldl f k) := by
  induction as generalizing k with
  | nil => exact .refl k
  | cons a as ih => exact (hf k a).trans (ih (f k a))

@[simp] theorem setHead_questions (k : Knowledge) (c : ClaimId) (s : SnapshotId)
    (h : Option Head) : (k.setHead c s h).questions = k.questions := rfl

theorem setHead_only (k : Knowledge) (c : ClaimId) (s : SnapshotId) (h : Option Head) :
    PreparesOnly [c] s k (k.setHead c s h) where
  heads := by
    intro c' t hne
    refine setHead_other k h fun heq => hne ?_
    rw [heq.1]
    exact ⟨List.mem_singleton_self c, heq.2⟩
  jobs := fun _ h => h
  questions := rfl

theorem enqueueJob_only (k : Knowledge) (c c' : ClaimId) (s s' : SnapshotId)
    (reason : String) : PreparesOnly [c'] s' k (k.enqueueJob c s reason).1 where
  heads := by simp
  jobs := enqueueJob_subset k c s reason
  questions := by simp

/-! ## One job row -/

/-- Write the job row with the given id: rows are never deleted, so the id is the
row's place. -/
def setJob (k : Knowledge) (i : Nat) (j : ReassessmentJob) : Knowledge :=
  { k with jobs := k.jobs.set i j }

/-- **One job changes.** It loses nothing when it stays active for its claim and
snapshot, or when its head is not pending. -/
theorem setJob_keepsJobs {k : Knowledge} {i : Nat} {j j' : ReassessmentJob}
    (hj : k.jobs[i]? = some j) (hclaim : j'.claimId = j.claimId)
    (htarget : j'.targetConfigSnapshotId = j.targetConfigSnapshotId)
    (hstatus : j'.status.isActive ∨
      k.heads j.claimId j.targetConfigSnapshotId ≠ some .pending) :
    KeepsJobs k (k.setJob i j') := by
  intro c s hp
  have hp' : k.heads c s = some .pending := hp
  refine .inr ⟨hp', fun hjob => ?_⟩
  obtain ⟨j₀, hj₀, hserves⟩ := hasJob_iff.mp hjob
  obtain ⟨n, hn⟩ := List.mem_iff_getElem?.mp hj₀
  by_cases hin : n = i
  · subst hin
    rw [hn] at hj
    obtain rfl := Option.some.inj hj
    simp only [ReassessmentJob.serves, Bool.and_eq_true, decide_eq_true_eq] at hserves
    obtain ⟨⟨rfl, rfl⟩, -⟩ := hserves
    have hactive : j'.status.isActive = true := hstatus.resolve_right fun h => h hp'
    have hlt : n < k.jobs.length := (List.getElem?_eq_some_iff.mp hn).1
    refine hasJob_iff.mpr ⟨j', List.mem_set hlt j', ?_⟩
    simp [ReassessmentJob.serves, hclaim, htarget, hactive]
  · refine hasJob_iff.mpr ⟨j₀, List.mem_iff_getElem?.mpr ⟨n, ?_⟩, hserves⟩
    show (k.jobs.set i j')[n]? = some j₀
    rw [List.getElem?_set_ne (Ne.symm hin)]
    exact hn

/-- **The job rows change in place**, each keeping what it serves. -/
theorem keepsJobs_of_rows {k k' : Knowledge} (hh : k'.heads = k.heads)
    (hrows : ∀ (i : Nat) j, k.jobs[i]? = some j → ∃ j', k'.jobs[i]? = some j' ∧
      ∀ c s, j.serves c s → j'.serves c s) : KeepsJobs k k' := by
  intro c s hp
  rw [hh] at hp
  refine .inr ⟨hp, fun hjob => ?_⟩
  obtain ⟨j, hj, hserves⟩ := hasJob_iff.mp hjob
  obtain ⟨i, hi⟩ := List.mem_iff_getElem?.mp hj
  obtain ⟨j', hj', hserves'⟩ := hrows i j hi
  exact hasJob_iff.mpr ⟨j', List.mem_of_getElem? hj', hserves' c s hserves⟩

/-- A row that stays active serves what it served. -/
theorem serves_of_active {j j' : ReassessmentJob} (hclaim : j'.claimId = j.claimId)
    (htarget : j'.targetConfigSnapshotId = j.targetConfigSnapshotId)
    (hactive : j'.status.isActive) (c : ClaimId) (s : SnapshotId) (h : j.serves c s) :
    j'.serves c s := by
  simp only [ReassessmentJob.serves, Bool.and_eq_true, decide_eq_true_eq] at h ⊢
  exact ⟨⟨hclaim.trans h.1.1, htarget.trans h.1.2⟩, hactive⟩

theorem enqueueQuestion_subset (k : Knowledge) (q : QuestionName) :
    ∀ q' ∈ k.questions, q' ∈ (k.enqueueQuestion q).questions := by
  intro q' hq'
  unfold enqueueQuestion
  split
  · exact hq'
  · exact List.mem_append_left _ hq'

theorem enqueueQuestion_mem (k : Knowledge) (q : QuestionName) :
    q ∈ (k.enqueueQuestion q).questions := by
  unfold enqueueQuestion
  split
  · assumption
  · simp

theorem enqueueQuestions_subset (name : ClaimId → QuestionName) (cs : List ClaimId)
    (k : Knowledge) : ∀ q ∈ k.questions, q ∈ (enqueueQuestions name cs k).1.questions := by
  induction cs generalizing k with
  | nil => exact fun _ h => h
  | cons c cs ih => exact fun q hq => ih _ q (enqueueQuestion_subset k (name c) q hq)

theorem enqueueQuestions_mem {name : ClaimId → QuestionName} {cs : List ClaimId}
    {c : ClaimId} (hc : c ∈ cs) (k : Knowledge) :
    name c ∈ (enqueueQuestions name cs k).1.questions := by
  induction cs generalizing k with
  | nil => cases hc
  | cons d cs ih =>
    rcases List.mem_cons.mp hc with rfl | hc
    · exact enqueueQuestions_subset name cs _ _ (enqueueQuestion_mem k (name c))
    · exact ih hc _

end Knowledge

end Noezema.Memory
