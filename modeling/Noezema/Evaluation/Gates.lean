import Noezema.Evaluation.Tables
import Noezema.Lib.Except
import Noezema.Lib.FloatArith
import Noezema.Lib.Rounding

/-! # The gates of an evaluation run

`compute_gates`: the counts of each gate over the window of the run, and what `_gate` makes
of two counts. The interval of a share is computed before the size of the sample is looked
at, and its square root raises on a share above one.
-/

namespace Noezema.Evaluation

open Noezema.Lib Noezema.Memory Noezema.Commit

/-! ## One ratio gate -/

/-- `GateDirection`. -/
inductive GateDirection where
  | atLeast | atMost | below
deriving DecidableEq, Repr

inductive GateOutcome where
  | passed | failed | insufficientSample
deriving DecidableEq, Repr

/-- What a gate reports. -/
structure GateResult where
  numerator : Nat
  denominator : Option Nat
  threshold : Option ℚ
  ci95 : Option (ℚ × ℚ)
  ratio : Option ℚ
  outcome : GateOutcome
  sloSeconds : Option ℚ
deriving DecidableEq

/-- The `ValueError` of `math.sqrt`. -/
inductive GateError where
  | mathDomain
deriving DecidableEq, Repr

/-- `MIN_SAMPLE`. -/
def minSample : Nat := 20

section Ratio

variable (fl : FloatArith)

/-- The quantile of the interval. -/
def wilsonZ : ℚ := fl.rnd (1959963984540054 / 1000000000000000)

/-- The center of the interval over its denominator. -/
def wilsonCenter (p d : ℚ) : ℚ :=
  let zz := fl.rnd (wilsonZ fl * wilsonZ fl)
  fl.rnd (fl.rnd (p + fl.rnd (zz / fl.rnd (2 * d))) / fl.rnd (1 + fl.rnd (zz / d)))

/-- What the square root is taken of. -/
def wilsonRadicand (p d : ℚ) : ℚ :=
  let zz := fl.rnd (wilsonZ fl * wilsonZ fl)
  fl.rnd (fl.rnd (fl.rnd (p * fl.rnd (1 - p)) / d) +
    fl.rnd (zz / fl.rnd (fl.rnd (4 * d) * d)))

def wilsonHalf (p d : ℚ) : ℚ :=
  let zz := fl.rnd (wilsonZ fl * wilsonZ fl)
  fl.rnd (fl.rnd (wilsonZ fl * fl.sqrt (wilsonRadicand fl p d)) / fl.rnd (1 + fl.rnd (zz / d)))

/-- `wilson_ci95`. -/
def wilsonCi95 (numerator denominator : Nat) : Except GateError (Option (ℚ × ℚ)) :=
  if denominator = 0 then .ok none
  else
    let d := fl.rnd denominator
    let p := fl.rnd (numerator / denominator)
    if wilsonRadicand fl p d < 0 then .error .mathDomain
    else
      let center := wilsonCenter fl p d
      let half := wilsonHalf fl p d
      .ok (some (fl.round4 (max 0 (fl.rnd (center - half))),
        fl.round4 (min 1 (fl.rnd (center + half)))))

/-- `_gate`. -/
def gate (numerator denominator : Nat) (threshold : ℚ) (direction : GateDirection) :
    Except GateError GateResult := do
  let ci ← wilsonCi95 fl numerator denominator
  if denominator < minSample then
    pure ⟨numerator, some denominator, some threshold, ci, none, .insufficientSample, none⟩
  else
    let ratio := fl.rnd (numerator / denominator)
    let ok : Bool := match direction with
      | .atLeast => threshold ≤ ratio
      | .atMost => ratio ≤ threshold
      | .below => ratio < threshold
    pure ⟨numerator, some denominator, some threshold, ci, some (fl.round4 ratio),
      if ok then .passed else .failed, none⟩

end Ratio

/-! ## The counts -/

/-- Numerator and denominator. -/
structure Counts where
  numerator : Nat
  denominator : Nat
deriving DecidableEq

/-- The counts of a set and of a part of it. -/
def countsOf {α : Type} (rows : List α) (p : α → Bool) : Counts :=
  ⟨(rows.filter p).length, rows.length⟩

namespace EvaluationDb

variable (db : EvaluationDb) (run : EvaluationRun)

/-- The rows `cur`: claims with a current head under the effective snapshot, of one of the
statuses, with their assessment. -/
def currentRows (statuses : List EpistemicStatus) : List (ClaimRow × AssessmentRow) :=
  db.claims.filterMap fun c =>
    match db.head c.id with
    | some (.current a st) =>
      if st ∈ statuses then (db.assessment? a).map fun row => (c, row) else none
    | _ => none

/-- `new_claims`. -/
def isNew (c : ClaimRow) : Bool := db.inWindow run c.createdInSession

/-- `_gate_new_e2`. -/
def newE2 : Counts :=
  countsOf ((db.currentRows [.supported, .refuted]).filter fun r => db.isNew run r.1) fun r =>
    2 ≤ r.2.effectiveGrade.level

/-- `_gate_external_e3`. -/
def externalE3 : Counts :=
  countsOf ((db.currentRows [.supported, .refuted]).filter fun r =>
    db.isNew run r.1 ∧ r.1.claimType ∈ ["external_fact", "temporal_fact"]) fun r =>
      r.2.effectiveGrade = .E3

/-- `eligible`: terminal sessions of the window but for the aborted ones. -/
def eligibleSessions : List SessionRow :=
  (db.windowSessions run).filter fun s =>
    s.state ∈ [.succeeded, .succeededPartial, .failed, .cancelled] ∧
      ¬ (s.state = .cancelled ∧ s.abortRequestedAt.isSome)

/-- `with_outcome`. -/
def hasOutcome (s : SessionRow) : Bool :=
  (db.evidence.any fun e => e.createdInSession = some s.id) ∨
    (db.claimRevisions.any fun r => r.2 = some s.id) ∨
    db.questions.any fun q => some q.id = s.questionId ∧ q.state ≠ .candidate

/-- `_gate_sessions`: the sessions with an outcome are counted by id. -/
def sessionCounts : Counts :=
  ⟨(((db.eligibleSessions run).filter db.hasOutcome).map (·.id)).dedup.length,
    (db.eligibleSessions run).length⟩

/-- The questions of the sessions of the window. -/
def selectedQuestions : List String :=
  ((db.windowSessions run).filterMap (·.questionId)).dedup

/-- The questions that the repetition guard has named in sessions of the window. -/
def flaggedQuestions : List String :=
  ((db.auditEvents.filter fun a =>
    a.type = "repeat_cycle_detected" ∧ db.inWindow run a.sessionId).filterMap fun a =>
      a.payload.lookup "question_id").dedup

/-- `_gate_near_dup`. -/
def nearDuplicates : Counts := ⟨(db.flaggedQuestions run).length, (db.selectedQuestions run).length⟩

/-- `significant`. -/
def significantClaims : List ClaimId :=
  ((db.currentRows [.supported, .disputed, .refuted]).filter fun r =>
    2 ≤ r.2.effectiveGrade.level).map (·.1.id)

/-- `refs`: the claims with the sessions that touched them. -/
def references : List (ClaimId × SessionId) :=
  (db.evidence.filterMap fun e => e.createdInSession.map fun s => (e.claimId, s)) ++
    (db.claimRevisions.filterMap fun r => r.2.map fun s => (r.1, s)) ++
    (db.dependencies.filterMap fun d => d.createdInSession.map fun s => (d.fromClaimId, s)) ++
    (db.dependencies.filterMap fun d => d.createdInSession.map fun s => (d.toClaimId, s)) ++
    (db.assessments.filterMap fun a => a.createdInSession.map fun s => (a.claimId, s))

/-- `n_sessions` of a claim. -/
def touchingSessions (c : ClaimId) : Nat :=
  ((db.references.filter fun r => r.1 = c).map (·.2)).dedup.length

/-- `_gate_reuse`. -/
def reuse : Counts :=
  ⟨((((db.references.filter fun r => r.1 ∈ db.significantClaims).map (·.1)).dedup).filter
    fun c => 2 ≤ db.touchingSessions c).length, db.significantClaims.length⟩

/-- The claim has a current head under the effective snapshot. -/
def isCurrent (c : ClaimId) : Bool :=
  match db.head c with
  | some (.current _ _) => true
  | _ => false

/-- `_gate_due_stale`. -/
def dueStale (now : Int) : Counts :=
  countsOf (db.claims.filter fun c =>
    c.claimType = "temporal_fact" ∧ db.isCurrent c.id ∧ c.reverifyAfter.isSome) fun c =>
      c.reverifyAfter.any fun t => t ≤ now

/-- `_gate_slo`: the jobs within the limit, and the completed ones. -/
def slo (seconds : ℚ) : Counts :=
  countsOf (db.jobs.filter fun j => j.status = "completed" ∧ j.completedAt.isSome) fun j =>
    j.completedAt.any fun t => ((t - j.enqueuedAt : Int) : ℚ) ≤ seconds

/-- `bad`: the claims with a head that is pending or invalid. -/
def badClaims : List ClaimId :=
  (db.claims.map (·.id)).filter fun c => db.head c = some .pending ∨ db.head c = some .invalid

/-- `deps`: what depends on a bad claim. A claim is not in the closure of its own; a bad one
is not current. -/
def pendingDependents : List ClaimId :=
  let edges := (db.dependencies.filter fun d => d.kind = .evidential).map fun d =>
    (d.fromClaimId, d.toClaimId)
  db.badClaims.flatMap fun b => (computeReverseClosure edges b 0).claimIds

/-- `_gate_pending_ancestor`. -/
def pendingAncestor : Counts :=
  countsOf (db.claims.filter fun c => db.isCurrent c.id) fun c => c.id ∈ db.pendingDependents

/-- `_gate_incidents`. -/
def incidents : Nat :=
  let alerts := fun kind => (db.auditEvents.filter fun a => a.type = "alert_raised" ∧
    a.payload.lookup "kind" = some kind ∧ db.inWindow run a.sessionId).length
  alerts "idempotency_key_conflict" + alerts "records_inconsistent"

/-! ## The blind sample -/

/-- `xs[:n]`. -/
def sliceTo {α : Type} (xs : List α) (n : Int) : List α :=
  if 0 ≤ n then xs.take n.toNat else xs.take (xs.length - (-n).toNat)

section Blind

-- `random.Random(seed)` and its `shuffle`
variable (fl : FloatArith) {σ : Type} (seeded : Int → σ)
  (shuffle : σ → List ClaimId → List ClaimId × σ)

/-- The claims with a current head, the oldest first, with type and status. -/
def blindRows : List (ClaimId × String × EpistemicStatus) :=
  (db.claims.insertionSort fun a b =>
    a.createdAt < b.createdAt ∨ (a.createdAt = b.createdAt ∧ a.id ≤ b.id)).filterMap fun c =>
      match db.head c.id with
      | some (.current _ st) => some (c.id, c.claimType, st)
      | _ => none

/-- The strata, each shuffled. -/
def shuffledStrata (rows : List (ClaimId × String × EpistemicStatus)) : List (List ClaimId) :=
  let strata := (rows.map (·.2)).eraseDups.map fun key =>
    (rows.filter fun r => r.2 = key).map (·.1)
  (strata.foldl (fun (done, rng) members =>
    let (members, rng) := shuffle rng members
    (done ++ [members], rng)) ([], seeded run.blindSampleSeed)).1

/-- The share of a stratum of `k` claims. The quotient is a float. -/
def blindShare (size : Int) (total k : Nat) : Int :=
  max 1 (roundHalfEven (fl.rnd (size * k / total)))

/-- The size of the sample. -/
def blindSize (rows : List (ClaimId × String × EpistemicStatus)) : Int :=
  min run.blindSampleSize rows.length

/-- What each stratum gives before the top-up. -/
def blindPicked (size : Int) (rows : List (ClaimId × String × EpistemicStatus)) :
    List (List ClaimId) :=
  (shuffledStrata run seeded shuffle rows).map fun members =>
    sliceTo members (blindShare fl size rows.length members.length)

/-- `blind_sample_claim_ids`. -/
def blindSample : List ClaimId :=
  let rows := db.blindRows
  if rows = [] then []
  else
    let size := blindSize run rows
    let unique := (blindPicked run fl seeded shuffle size rows).flatten.eraseDups
    let pool := (shuffle (seeded run.blindSampleSeed) (rows.map (·.1))).1
    let missing := (pool.filter (· ∉ unique)).eraseDups
    sliceTo (if (unique.length : Int) < size
      then unique ++ sliceTo missing (size - unique.length) else unique) size

end Blind

/-- `_provenance_complete`. -/
def provenanceComplete (c : ClaimId) : Bool :=
  match db.head c with
  | some (.current a _) =>
    let linked := db.evidence.filter fun e => (a, e.id) ∈ db.assessmentEvidence
    linked ≠ [] ∧ linked.all fun e =>
      match e.observationArtifactId with
      | some artifact => artifact ∈ db.artifacts
      | none => e.sourceId.any fun s => s ∈ db.sources
  | _ => false

/-- `_in_scope`. -/
def inScope (c : ClaimId) : Bool :=
  match db.head c with
  | some (.current a st) =>
    let linked := db.assessmentEvidence.filter fun l => l.1 = a
    (db.assessment? a).any fun row => row.scopeDeclared ∧
      ¬ (st ∈ [.supported, .refuted] ∧ linked = []) ∧
      linked.all fun l => db.evidence.all fun e => e.id = l.2 → !e.scopeEmpty
  | _ => false

/-! ## All gates -/

section Gates

variable (fl : FloatArith) {σ : Type} (seeded : Int → σ)
  (shuffle : σ → List ClaimId → List ClaimId × σ) (now : Int)

/-- A ratio gate by its counts. -/
def ratioGate (name : String) (default : ℚ) (direction : GateDirection) (counts : Counts) :
    Except GateError GateResult :=
  gate fl counts.numerator counts.denominator ((run.thresholds name).getD default) direction

/-- The gate of the reassessment jobs; without a limit nothing was measured. -/
def sloGate : Except GateError GateResult :=
  match run.thresholds "reassessment_slo_seconds" with
  | none => .ok ⟨0, some 0, none, none, none, .insufficientSample, none⟩
  | some seconds => do
    let counts := db.slo seconds
    let result ← gate fl counts.numerator counts.denominator 1 .atLeast
    pure { result with sloSeconds := some seconds }

/-- The gate of the claims that stand on a pending or invalid one. -/
def pendingAncestorGate : GateResult :=
  let counts := db.pendingAncestor
  ⟨counts.numerator, some counts.denominator, some 0, none, none,
    if counts.denominator < minSample then .insufficientSample
    else if counts.numerator = 0 then .passed else .failed, none⟩

def incidentsGate : GateResult :=
  ⟨db.incidents run, none, some 0, none, none,
    if db.incidents run = 0 then .passed else .failed, none⟩

/-- A gate of the blind sample. -/
def blindGate (name : String) (default : ℚ) (blind : List ClaimId) (p : ClaimId → Bool) :
    Except GateError GateResult :=
  if blind = [] then
    .ok ⟨0, some 0, some ((run.thresholds name).getD default), none, none,
      .insufficientSample, none⟩
  else ratioGate run fl name default .atLeast (countsOf blind p)

/-- `compute_gates`. -/
def computeGates : Except GateError (List (String × GateResult)) := do
  let newE2 ← ratioGate run fl "new_supported_refuted_e2" (80 / 100) .atLeast (db.newE2 run)
  let externalE3 ← ratioGate run fl "external_temporal_e3" 1 .atLeast (db.externalE3 run)
  let sessions ← ratioGate run fl "eligible_sessions_with_outcome" (60 / 100) .atLeast
    (db.sessionCounts run)
  let nearDuplicates ← ratioGate run fl "near_duplicate_questions" (15 / 100) .atMost
    (db.nearDuplicates run)
  let reuse ← ratioGate run fl "significant_claim_reuse" (25 / 100) .atLeast db.reuse
  let dueStale ← ratioGate run fl "due_stale_time_sensitive" (20 / 100) .below (db.dueStale now)
  let slo ← db.sloGate run fl
  let blind := db.blindSample run fl seeded shuffle
  let provenance ← blindGate run fl "blind_provenance_path" (90 / 100) blind
    db.provenanceComplete
  let scope ← blindGate run fl "blind_scope" (80 / 100) blind db.inScope
  pure [("new_supported_refuted_e2", newE2), ("external_temporal_e3", externalE3),
    ("eligible_sessions_with_outcome", sessions), ("near_duplicate_questions", nearDuplicates),
    ("significant_claim_reuse", reuse), ("due_stale_time_sensitive", dueStale),
    ("reassessment_slo", slo), ("current_pending_invalid_ancestor", db.pendingAncestorGate),
    ("high_severity_incidents", db.incidentsGate run), ("blind_provenance_path", provenance),
    ("blind_scope", scope)]

end Gates

end EvaluationDb

end Noezema.Evaluation
