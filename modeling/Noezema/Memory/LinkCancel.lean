import Noezema.Memory.LinkRevocations

/-! # Cancelled revocations

A cancel puts a link back among the evidence of its claim and calls the cascade that the
revocation has called. The cascade takes a current head back to `pending` and leaves any
other head as it is, with whatever job it has.
-/

namespace Noezema.Memory

open Noezema.Lib

namespace Knowledge

/-! ## The jobs of the cascade -/

theorem enqueueJob_hasJob_iff (k : Knowledge) (c c' : ClaimId) (s : SnapshotId)
    (reason : String) : (k.enqueueJob c s reason).1.hasJob c' s ↔ k.hasJob c' s ∨ c' = c := by
  constructor
  · intro h
    by_cases hold : k.hasJob c s
    · simp only [enqueueJob, if_pos hold] at h
      exact .inl h
    · simp only [enqueueJob, if_neg hold] at h
      obtain ⟨j, hj, hserves⟩ := hasJob_iff.mp h
      rcases List.mem_append.mp hj with hj | hj
      · exact .inl (hasJob_iff.mpr ⟨j, hj, hserves⟩)
      · rw [List.mem_singleton.mp hj] at hserves
        have hclaim : c = c' := by
          simp only [ReassessmentJob.serves, newJob, Bool.and_eq_true] at hserves
          exact of_decide_eq_true hserves.1.1
        exact .inr hclaim.symm
  · rintro (h | rfl)
    · exact hasJob_of_subset (enqueueJob_subset k c s reason) h
    · exact enqueueJob_hasJob k c' s reason

/-- The cascade inserts a job for a current head alone. -/
theorem cascadeClaim_hasJob_iff (k : Knowledge) (c c' : ClaimId) (s : SnapshotId)
    (reason : String) : (k.cascadeClaim c s reason).1.hasJob c' s ↔
      k.hasJob c' s ∨ c' = c ∧ k.heads.state c s = some .current := by
  have hprior := invalidateHead_prior k c s
  have hjobs : (k.invalidateHead c s).1.hasJob c' s = k.hasJob c' s := by
    rw [hasJob, invalidateHead_jobs, hasJob]
  unfold cascadeClaim
  generalize k.invalidateHead c s = p at hprior hjobs
  obtain ⟨k₁, prior⟩ := p
  rw [← hprior, ← hjobs]
  split
  · rename_i k₂ heq
    obtain ⟨rfl, rfl⟩ := Prod.mk.inj heq
    simpa using enqueueJob_hasJob_iff k₁ c c' s reason
  · rename_i k₂ prior' hne heq
    obtain ⟨rfl, rfl⟩ := Prod.mk.inj heq
    refine (or_iff_left ?_).symm
    rintro ⟨-, hcurrent⟩
    exact hne hcurrent

/-- **The jobs after the loop**: those before, and one for each claim with a current head. -/
theorem requeue_hasJob_iff (s : SnapshotId) (reason : String) (cs : List ClaimId)
    (k : Knowledge) (c : ClaimId) : (requeue s reason cs k).1.hasJob c s ↔
      k.hasJob c s ∨ c ∈ cs ∧ k.heads.state c s = some .current := by
  induction cs generalizing k with
  | nil => simp [requeue]
  | cons c' cs ih =>
    have hcascade := cascadeClaim_invalidates k c' s reason
    have hstate : (k.cascadeClaim c' s reason).1.heads.state c s = some .current ↔
        c ≠ c' ∧ k.heads.state c s = some .current := by
      by_cases hc : c = c'
      · rw [hc]
        exact iff_of_false (hcascade.not_current (List.mem_singleton_self c')) (by simp)
      · have hheads := hcascade.heads c s
        rw [if_neg (by simp [hc])] at hheads
        rw [Heads.state, hheads, Heads.state]
        simp [hc]
    show (requeue s reason cs (k.cascadeClaim c' s reason).1).1.hasJob c s ↔ _
    rw [ih, cascadeClaim_hasJob_iff, hstate, List.mem_cons]
    constructor
    · rintro ((h | ⟨rfl, h⟩) | ⟨hc, -, h⟩)
      · exact .inl h
      · exact .inr ⟨.inl rfl, h⟩
      · exact .inr ⟨.inr hc, h⟩
    · rintro (h | ⟨hc, h⟩)
      · exact .inl (.inl h)
      · by_cases heq : c = c'
        · subst heq
          exact .inl (.inr ⟨rfl, h⟩)
        · exact .inr ⟨hc.resolve_left heq, heq, h⟩

end Knowledge

namespace LinkDb

variable {w w' : LinkDb}

/-- The claim waits for its next assessment: a pending head under the effective snapshot
with an active job. -/
def Requeued (w : LinkDb) (c : ClaimId) : Prop :=
  w.db.know.heads c w.db.effective = some .pending ∧ w.db.know.hasJob c w.db.effective

/-- **The condition**: the claim's head under the effective snapshot is current, or the claim
waits already. -/
def InAssessment (w : LinkDb) (c : ClaimId) : Prop :=
  w.db.know.heads.state c w.db.effective = some .current ∨ w.Requeued c

/-- **What the cascade leaves of a claim it is called for.** -/
theorem commitRevocations_requeued_iff (rows : List RevocationRow) {claims : List ClaimId}
    {c : ClaimId} (hc : c ∈ claims) :
    (w.commitRevocations rows claims).1.Requeued c ↔ w.InAssessment c := by
  have hheads := (w.commitRevocations_invalidates rows claims).heads c w.db.effective
  rw [if_pos ⟨hc, rfl⟩] at hheads
  have hjobs : (w.commitRevocations rows claims).1.db.know.hasJob c w.db.effective ↔
      w.db.know.hasJob c w.db.effective ∨
        c ∈ claims ∧ w.db.know.heads.state c w.db.effective = some .current :=
    Knowledge.requeue_hasJob_iff _ _ _ _ _
  unfold InAssessment Requeued
  rw [commitRevocations_effective, hheads, hjobs, Heads.state]
  cases w.db.know.heads c w.db.effective with
  | none => simp [Knowledge.invalidated]
  | some h => cases h <;> simp [Knowledge.invalidated, Head.state, hc]

/-- **One cancel.** -/
theorem requeued_iff {call : CancelCall} {res : LinkRevocationCancelResult}
    (h : w.cancelLinkRevocations call = .ok (w', res)) :
    (∀ r ∈ w.revocations, Cancels call r → w'.Requeued r.claimId) ↔
      ∀ r ∈ w.revocations, Cancels call r → w.InAssessment r.claimId := by
  obtain ⟨⟨reason, hafter⟩, haffected⟩ := cancelLinkRevocations_ok h
  refine forall_congr' fun r => forall_congr' fun hr => forall_congr' fun hcancels => ?_
  rw [hafter]
  exact commitRevocations_requeued_iff _ ((haffected _).mpr ⟨r, hr, hcancels, rfl⟩)

/-! ## Runs -/

variable {host : Host} {digest : ManifestBody → String}
  {headDigest : List (ClaimId × Head) → String}

/-- The rules of an offline change defer no claim. -/
def DefersNone (w : LinkDb) : LinkEvent → Prop
  | .system e => w.world.DefersNone e
  | _ => True

/-- The writes of both calls keep the queue. -/
theorem queued_commitRevocations (h : w.world.Queued) (rows : List RevocationRow)
    (claims : List ClaimId) : (w.commitRevocations rows claims).1.world.Queued := by
  have hinv := w.commitRevocations_invalidates rows claims
  refine h.next (h.rowed.next (hinv.headsHaveRows h.rowed.rows) (fun _ hc => hc) fun _ hr => hr)
    hinv.keepsJobs fun _ hr => hr

theorem queued_step (h : w.world.Queued) {e : LinkEvent} (hdefers : w.DefersNone e)
    (hs : w.linkStep host digest headDigest e = some w') : w'.world.Queued := by
  cases e with
  | system e =>
    simp only [linkStep] at hs
    split at hs
    · split at hs
      · rename_i world hworld
        cases hs
        exact h.step hdefers hworld
      · cases hs
    · cases hs
  | revoke gate call =>
    simp only [linkStep] at hs
    split at hs
    · rename_i res hcall
      cases hs
      obtain ⟨rows, hrevoked⟩ := applyLinkRevocations_ok hcall
      rw [hrevoked.after]
      exact queued_commitRevocations h _ _
    · cases hs
      exact h
  | cancel call =>
    simp only [linkStep] at hs
    split at hs
    · rename_i res hcall
      cases hs
      obtain ⟨⟨reason, hafter⟩, -⟩ := cancelLinkRevocations_ok hcall
      rw [hafter]
      exact queued_commitRevocations h _ _
    · cases hs
      exact h

/-- **When a cancel brings its claims back into assessment.** In every run, an accepted
cancel leaves the claims of the revocations it ends pending with a job exactly when before
it each of them was current under the effective snapshot, or pending with a job. In a run in
which no offline change defers a claim every pending claim has its job. -/
theorem cancel_requeues_iff {w₀ w : LinkDb} (h₀ : w₀.Initial) :
    (Run (linkStep host digest headDigest) anyStep w₀ w →
      ∀ call w' res, w.cancelLinkRevocations call = .ok (w', res) →
        ((∀ r ∈ w.revocations, Cancels call r → w'.Requeued r.claimId) ↔
          ∀ r ∈ w.revocations, Cancels call r → w.InAssessment r.claimId)) ∧
    (Run (linkStep host digest headDigest) DefersNone w₀ w →
      ∀ c, w.db.know.heads c w.db.effective = some .pending → w.Requeued c) := by
  refine ⟨fun _ call w' res hcall => requeued_iff hcall, fun hrun c hpending => ⟨hpending, ?_⟩⟩
  have hqueued : w.world.Queued :=
    hrun.invariant h₀.world.queued fun h hg hs => queued_step h hg hs
  exact hqueued.covered _ c hpending

end LinkDb

/-! ## An emptied claim -/

def cancelOne (i : RevocationId) : CancelCall := ⟨[i], ['r'], "operator"⟩

/-- The cancel comes before the worker: claim `1` waits for its assessment. -/
theorem cancel_requeues_pages : ∃ w' res,
    onceRevoked.cancelLinkRevocations (cancelOne 0) = .ok (w', res) ∧
      ∀ r ∈ onceRevoked.revocations, LinkDb.Cancels (cancelOne 0) r → w'.Requeued r.claimId := by
  refine ⟨_, _, rfl, ?_⟩
  have hrun : Run linkSystem anyStep pagesDb onceRevoked :=
    (@Run.of_exec _ _ linkSystem pagesDb pagesStored pagesCommit pagesStored_reached).snoc
      (e := .revoke absentGate (revokeOne 0 false)) trivial rfl
  refine ((LinkDb.cancel_requeues_iff pagesDb_initial).1 hrun (cancelOne 0) _ _ rfl).mpr ?_
  intro r hr _
  rw [List.mem_singleton.mp hr]
  exact .inr ⟨rfl, rfl⟩

/-- Both links of claim `1` are revoked, the worker finds no evidence, and one revocation is
cancelled: the head stays invalid. -/
theorem invalid_head_stays : ¬ ∀ (host : Host) (digest : ManifestBody → String)
    (headDigest : List (ClaimId × Head) → String) (w₀ w w' : LinkDb) (call : CancelCall)
    (res : LinkRevocationCancelResult), w₀.Initial →
    Run (LinkDb.linkStep host digest headDigest) anyStep w₀ w →
    w.cancelLinkRevocations call = .ok (w', res) →
    ∀ r ∈ w.revocations, LinkDb.Cancels call r → w'.Requeued r.claimId := by
  intro hall
  have hrun := @Run.of_exec _ _ linkSystem pagesDb _
    (pagesCommit ++ [.revoke absentGate ⟨[0, 1], ['r'], "operator", true⟩] ++ workJob 0) rfl
  obtain ⟨hpending, -⟩ := hall plainHost sizeDigest (fun _ => "heads") pagesDb _ _ (cancelOne 0) _
    pagesDb_initial hrun rfl _ List.mem_cons_self ⟨List.mem_singleton_self _, rfl⟩
  cases hpending

end Noezema.Memory
