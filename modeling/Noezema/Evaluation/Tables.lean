import Noezema.Commit.Session
import Noezema.Memory.Closure
import Noezema.Memory.Rules

/-! # The tables of an evaluation

What the gates of an evaluation run and the repetition guard read: sessions and questions,
the audit journal, claims with their heads and assessments, evidence, dependencies, and the
reassessment jobs.
-/

namespace Noezema.Evaluation

open Noezema.Memory Noezema.Commit

abbrev SessionId := Nat

/-- A row of `sessions`. An id of a question is the text of its UUID. -/
structure SessionRow where
  id : SessionId
  startedAt : Option Int
  createdAt : Int
  questionId : Option String
  state : SessionState
  abortRequestedAt : Option Int
deriving DecidableEq

/-- A row of `audit_events`, the text fields of its payload by name. -/
structure AuditEvent where
  type : String
  sessionId : Option SessionId
  payload : List (String × String)
deriving DecidableEq

/-- A row of `questions`. -/
structure QuestionRow where
  id : String
  text : List Char
  state : QuestionState
  priority : Int
  createdAt : Int
deriving DecidableEq

/-- A row of `claims`. -/
structure ClaimRow where
  id : ClaimId
  claimType : String
  createdInSession : Option SessionId
  reverifyAfter : Option Int
  createdAt : Int
deriving DecidableEq

/-- A row of `claim_assessments`; `scopeDeclared` is that `assessed_scope` is not empty. -/
structure AssessmentRow where
  id : AssessmentId
  claimId : ClaimId
  effectiveGrade : EffectiveGrade
  scopeDeclared : Bool
  createdInSession : Option SessionId
deriving DecidableEq

/-- A row of `evidence`; `scopeEmpty` is `scope = '{}'`. -/
structure EvidenceRow where
  id : Nat
  claimId : ClaimId
  createdInSession : Option SessionId
  sourceId : Option Nat
  observationArtifactId : Option Nat
  scopeEmpty : Bool
deriving DecidableEq

/-- A row of `claim_dependencies` with its session. -/
structure DependencyRow where
  fromClaimId : ClaimId
  toClaimId : ClaimId
  kind : DependencyKind
  createdInSession : Option SessionId
deriving DecidableEq

/-- A row of `reassessment_jobs`. -/
structure JobRow where
  status : String
  enqueuedAt : Int
  completedAt : Option Int
deriving DecidableEq

/-- The database of an evaluation. A claim has one head under a snapshot. -/
structure EvaluationDb where
  sessions : List SessionRow
  auditEvents : List AuditEvent
  questions : List QuestionRow
  claims : List ClaimRow
  /-- `active_config_snapshot_id` of the global head. -/
  effective : Option SnapshotId
  heads : Heads
  assessments : List AssessmentRow
  evidence : List EvidenceRow
  /-- `assessment_evidence`. -/
  assessmentEvidence : List (AssessmentId × Nat)
  /-- `claim_revisions`: claim and session. -/
  claimRevisions : List (ClaimId × Option SessionId)
  dependencies : List DependencyRow
  jobs : List JobRow
  sources : List Nat
  artifacts : List Nat

/-- What the gates read of a row of `evaluation_runs`. -/
structure EvaluationRun where
  startedAt : Int
  thresholds : String → Option ℚ
  blindSampleSeed : Int
  blindSampleSize : Int

namespace EvaluationDb

variable (db : EvaluationDb)

/-- The head of a claim under the effective snapshot. -/
def head (c : ClaimId) : Option Head := db.effective.bind (db.heads c)

def assessment? (a : AssessmentId) : Option AssessmentRow :=
  db.assessments.find? fun r => r.id = a

/-- `window_sessions`. -/
def windowSessions (run : EvaluationRun) : List SessionRow :=
  db.sessions.filter fun s => s.startedAt.any fun t => run.startedAt ≤ t

/-- The session is one of the window. -/
def inWindow (run : EvaluationRun) (s : Option SessionId) : Bool :=
  s.any fun id => id ∈ (db.windowSessions run).map (·.id)

end EvaluationDb

end Noezema.Evaluation
