import Noezema.Memory.CascadeCalls
import Noezema.Memory.Runtime

/-! # Changes of the evidence

What a trusted host does to the evidence behind assessed claims: it rewrites the source
graph, and it creates and invalidates resolutions of counterevidence. Either change takes
the claims it touches back to `pending` with a job, under the effective snapshot, and
leaves the `knowledge` revision and the claims that depend on them alone.
-/

namespace Noezema.Memory

open Noezema.Lib

/-! ## `apply_source_graph_change` -/

structure SourceGraphChangeResult where
  affectedClaims : Nat
  invalidated : Nat
  jobsCreated : Nat
  revision : Nat
deriving DecidableEq, Repr

namespace Knowledge

/-- The loop over the affected claims. -/
def requeue (s : SnapshotId) (reason : String) : List ClaimId → Knowledge →
    Knowledge × Nat × Nat
  | [], k => (k, 0, 0)
  | c :: cs, k =>
    let (k, one, created) := k.cascadeClaim c s reason
    let (k, invalidated, jobsCreated) := requeue s reason cs k
    (k, one + invalidated, created.toNat + jobsCreated)

theorem requeue_invalidates (s : SnapshotId) (reason : String) (cs : List ClaimId)
    (k : Knowledge) : Invalidates k (requeue s reason cs k).1 cs s := by
  induction cs generalizing k with
  | nil => exact .refl k s
  | cons c cs ih => exact (cascadeClaim_invalidates k c s reason).append (ih _)

/-- The loop does not move the `knowledge` revision. -/
@[simp] theorem requeue_revision (s : SnapshotId) (reason : String) (cs : List ClaimId)
    (k : Knowledge) : (requeue s reason cs k).1.revision = k.revision := by
  induction cs generalizing k with
  | nil => rfl
  | cons c cs ih => exact (ih _).trans (cascadeClaim_revision k c s reason)

end Knowledge

/-- The claims whose evidence names one of the sources, by id. -/
def EvidenceDb.affectedClaims (db : EvidenceDb) (sourceIds : List SourceId) :
    List ClaimId :=
  ((db.evidence.filter fun e => e.sourceId.any (· ∈ sourceIds)).map
    (·.claimId)).dedup.insertionSort (· ≤ ·)

namespace MemoryDb

/-- Other evidence tables, the assessments kept. -/
def withEvidence (db : MemoryDb) (tables : EvidenceDb) : MemoryDb :=
  { db with tables := { db.tables with toEvidenceDb := tables } }

@[simp] theorem withEvidence_cascade (db : MemoryDb) (tables : EvidenceDb) :
    (db.withEvidence tables).cascade = db.cascade := rfl

/-- `apply_source_graph_change`. `tables` are the evidence tables with what the caller
writes in the same transaction: the corrections of a dispute or of its cancel, a new
parent of a source. -/
def applySourceGraphChange (db : MemoryDb) (tables : EvidenceDb)
    (sourceIds : List SourceId) : MemoryDb × SourceGraphChangeResult :=
  let db := db.withEvidence tables
  if sourceIds = [] then (db, ⟨0, 0, 0, 0⟩)
  else
    let affected := tables.affectedClaims sourceIds
    let (know, invalidated, jobsCreated) :=
      Knowledge.requeue db.effective "source_graph_change" affected db.know
    ({ db.withKnow know with sourceGraphRevision := db.sourceGraphRevision + 1 },
      ⟨affected.length, invalidated, jobsCreated, db.sourceGraphRevision + 1⟩)

/-! ## Counterevidence resolutions -/

/-- The basis of a resolution. -/
inductive ResolutionBasis where
  | evidence (id : EvidenceId)
  | correction (id : Nat)
deriving DecidableEq

/-- `ResolutionError`. -/
inductive ResolutionError where
  | targetMissing
  | notCounters
  | basisIsTarget
  | basisMissing
  | scopeMisses (key : String)
  | scopeIncompatible (key : String)
  | basisDepends
  | correctionMissing
  | correctionInvalid
  | correctionForeign
  | alreadyResolved
  | resolutionMissing
deriving DecidableEq, Repr

/-- `claim_depends_on`: the reverse closure of the other claim, or the claim itself. -/
def claimDependsOn (db : MemoryDb) (fromClaim toClaim : ClaimId) : Bool :=
  fromClaim = toClaim ∨ fromClaim ∈ (computeReverseClosure
    (db.cascade.dependencies.map fun d => (d.fromClaimId, d.toClaimId)) toClaim 0).claimIds

/-- The first key of the target scope the basis scope does not cover, in some order of
the keys. -/
def scopeGap (keys : List String) (target basis : Scope) : Option ResolutionError :=
  keys.findSome? fun key =>
    match target.lookup key, basis.lookup key with
    | none, _ => none
    | some _, none => some (.scopeMisses key)
    | some .null, some _ | some _, some .null => none
    | some v, some w => if v = w then none else some (.scopeIncompatible key)

/-- `_validate`; `keys` lists the target's scope. -/
def validateBasis (db : MemoryDb) (keys : List String) (evidenceId : EvidenceId)
    (basis : ResolutionBasis) : Except ResolutionError ClaimId :=
  match db.tables.evidence.find? fun e => e.id = evidenceId with
  | none => .error .targetMissing
  | some target =>
    if target.relation ≠ .counters then .error .notCounters
    else match basis with
      | .evidence id =>
        if id = evidenceId then .error .basisIsTarget
        else match db.tables.evidence.find? fun e => e.id = id with
          | none => .error .basisMissing
          | some basis =>
            match scopeGap keys target.scope basis.scope with
            | some e => .error e
            | none =>
              if db.claimDependsOn basis.claimId target.claimId then .error .basisDepends
              else .ok target.claimId
      | .correction id =>
        match db.tables.corrections.find? fun k => k.correctionId = id with
        | none => .error .correctionMissing
        | some k =>
          let sources := (db.tables.evidence.filter fun e => e.claimId = target.claimId).filterMap
            (·.sourceId)
          if ¬ k.valid then .error .correctionInvalid
          else if k.fromId ∉ sources ∧ k.toId ∉ sources then .error .correctionForeign
          else .ok target.claimId

structure CounterResolutionResult where
  claimId : ClaimId
  invalidated : Nat
  jobCreated : Bool
deriving DecidableEq, Repr

/-- `_cascade_claim` under the effective snapshot, with the resolutions of the
transaction. -/
def cascadeResolution (db : MemoryDb) (resolutions : List CounterResolution) (c : ClaimId) :
    MemoryDb × CounterResolutionResult :=
  let (know, invalidated, jobCreated) :=
    db.know.cascadeClaim c db.effective "counter_resolution_change"
  ((db.withEvidence { db.tables.toEvidenceDb with resolutions := resolutions }).withKnow know,
    ⟨c, invalidated, jobCreated⟩)

/-- `apply_counter_resolution`. -/
def applyCounterResolution (db : MemoryDb) (keys : List String) (evidenceId : EvidenceId)
    (basis : ResolutionBasis) : Except ResolutionError (MemoryDb × CounterResolutionResult) := do
  let claim ← db.validateBasis keys evidenceId basis
  require (¬ db.tables.resolved evidenceId) .alreadyResolved
  pure (db.cascadeResolution (db.tables.resolutions ++ [⟨evidenceId, true⟩]) claim)

/-- `invalidate_counter_resolution` of the row at a place. -/
def invalidateCounterResolution (db : MemoryDb) (row : Nat) :
    Except ResolutionError (MemoryDb × CounterResolutionResult) :=
  match db.tables.resolutions[row]? with
  | none => .error .resolutionMissing
  | some r =>
    match db.tables.evidence.find? fun e => e.id = r.evidenceId with
    | none => .error .targetMissing
    | some target =>
      if ¬ r.valid then .ok (db, ⟨target.claimId, 0, false⟩)
      else .ok (db.cascadeResolution
        (db.tables.resolutions.set row { r with valid := false }) target.claimId)

/-! ## What a change does -/

/-- **What a change of the evidence does**: some claims go back to `pending` under the
effective snapshot. The `knowledge` revision does not move, and nothing is assessed. -/
structure Requeues (db db' : MemoryDb) (cs : List ClaimId) : Prop where
  know : Knowledge.Invalidates db.know db'.know cs db.effective
  revision : db'.know.revision = db.know.revision
  cascade : db'.cascade = { db.cascade with know := db'.know }
  claims : db'.claims = db.claims
  snapshots : db'.snapshots = db.snapshots
  head : db'.head = db.head
  sessions : db'.sessions = db.sessions
  assessments : db'.tables.assessments = db.tables.assessments

theorem Requeues.refl (db : MemoryDb) (tables : EvidenceDb) :
    Requeues db (db.withEvidence tables) [] :=
  ⟨.refl db.know db.effective, rfl, rfl, rfl, rfl, rfl, rfl, rfl⟩

theorem applySourceGraphChange_requeues (db : MemoryDb) (tables : EvidenceDb)
    (sourceIds : List SourceId) :
    Requeues db (db.applySourceGraphChange tables sourceIds).1
      (if sourceIds = [] then [] else tables.affectedClaims sourceIds) := by
  unfold applySourceGraphChange
  dsimp only
  split
  · exact .refl db tables
  · exact ⟨Knowledge.requeue_invalidates _ _ _ _, Knowledge.requeue_revision _ _ _ _,
      rfl, rfl, rfl, rfl, rfl, rfl⟩

theorem cascadeResolution_requeues (db : MemoryDb) (resolutions : List CounterResolution)
    (c : ClaimId) : Requeues db (db.cascadeResolution resolutions c).1 [c] :=
  ⟨Knowledge.cascadeClaim_invalidates _ _ _ _, Knowledge.cascadeClaim_revision _ _ _ _,
    rfl, rfl, rfl, rfl, rfl, rfl⟩

/-- A claim that was not current has stayed as it was. -/
theorem cascadeResolution_counted (db : MemoryDb) (resolutions : List CounterResolution)
    (c : ClaimId) : Requeues db (db.cascadeResolution resolutions c).1
      (if (db.cascadeResolution resolutions c).2.invalidated = 0 then [] else [c]) := by
  have h := cascadeResolution_requeues db resolutions c
  split
  · rename_i hzero
    have hsame : (db.know.cascadeClaim c db.effective "counter_resolution_change").1 = db.know :=
      Knowledge.cascadeClaim_zero hzero
    refine ⟨?_, h.revision, h.cascade, h.claims, h.snapshots, h.head, h.sessions, rfl⟩
    show Knowledge.Invalidates db.know
      (db.know.cascadeClaim c db.effective "counter_resolution_change").1 [] db.effective
    rw [hsame]
    exact .refl _ _
  · exact h

theorem applyCounterResolution_requeues {db db' : MemoryDb} {keys : List String}
    {evidenceId : EvidenceId} {basis : ResolutionBasis} {r : CounterResolutionResult}
    (h : db.applyCounterResolution keys evidenceId basis = .ok (db', r)) :
    Requeues db db' [r.claimId] := by
  unfold applyCounterResolution at h
  obtain ⟨claim, -, h⟩ := bind_eq_ok.mp h
  obtain ⟨-, -, h⟩ := bind_eq_ok.mp h
  cases h
  exact cascadeResolution_requeues db _ claim

theorem invalidateCounterResolution_requeues {db db' : MemoryDb} {row : Nat}
    {r : CounterResolutionResult}
    (h : db.invalidateCounterResolution row = .ok (db', r)) :
    Requeues db db' (if r.invalidated = 0 then [] else [r.claimId]) := by
  unfold invalidateCounterResolution at h
  split at h
  · cases h
  · split at h
    · cases h
    · split at h
      · cases h
        exact .refl db db.tables.toEvidenceDb
      · cases h
        exact cascadeResolution_counted db _ _

end MemoryDb

end Noezema.Memory
