/-! # The durable records of one session

The rows the commit boundary and the reconciler lock: the session, its commit
attempts, its staging, the two domain revisions and the question. `now` is the
server clock of the running transaction. Columns no modelled operation reads
(hashes, heartbeats, timestamps of record) are left out.
-/

namespace Noezema.Commit

abbrev AttemptId := Nat
abbrev ManifestId := Nat
abbrev Owner := String
abbrev Time := Nat

/-- `sessions.state`. -/
inductive SessionState where
  | created | waking | orienting | selectingQuestion | planning | exploring
  | verifying | stopping | consolidating | reporting | committing
  | reconcilingCommit | aborting | succeeded | succeededPartial | failed
  | cancelled
deriving DecidableEq, Repr

/-- `TERMINAL` of the reconciler. -/
def SessionState.isTerminal : SessionState → Bool
  | .succeeded | .succeededPartial | .failed | .cancelled => true
  | _ => false

/-- `STUCK_STATES`: the session reached the commit boundary and its outcome is
open. -/
def SessionState.isStuck : SessionState → Bool
  | .committing | .reconcilingCommit => true
  | _ => false

/-- A row of `sessions`. -/
structure Session where
  state : SessionState
  leaseOwner : Option Owner
  leaseExpiresAt : Option Time
  phaseDeadline : Option Time
  commitAttemptId : Option AttemptId
  commitIntentAt : Option Time
  committedWorkspaceManifestId : Option ManifestId
  terminationReason : Option String
deriving DecidableEq, Repr

/-- `commit_attempts.status`. -/
inductive AttemptStatus where
  | prepared | reconciling | committed | aborted
deriving DecidableEq, Repr

/-- The statuses the partial unique index `uq_commit_attempts_unresolved` covers
and the scheduler refuses to wake on. -/
def AttemptStatus.isUnresolved : AttemptStatus → Bool
  | .prepared | .reconciling => true
  | .committed | .aborted => false

/-- A row of `commit_attempts`. -/
structure Attempt where
  id : AttemptId
  status : AttemptStatus
  workspaceManifestId : Option ManifestId
  baseKnowledgeRevision : Nat
  baseDependencyGraphRevision : Nat
deriving DecidableEq, Repr

/-- `session_staging.op`. -/
inductive StagingOp where
  | claim | evidence | question | identity
deriving DecidableEq, Repr

/-- `session_staging.state`. -/
inductive StagingState where
  | recorded | validated | rejected | applied
deriving DecidableEq, Repr

/-- A row of `session_staging`, with what the final transaction reads of its
payload: the kinds of the proposed dependencies (`evidential` where none is
given) and the stripped question text. -/
structure StagingRow where
  op : StagingOp
  state : StagingState
  dependencyKinds : List String
  text : String
deriving DecidableEq, Repr

/-- `questions.state`. -/
inductive QuestionState where
  | candidate | selected | researching | partiallyAnswered | verified | rejected
  | deferred
deriving DecidableEq, Repr

/-- The rows of one session and the revisions every commit shares. `session` is
`none` until phase 1 commits. -/
structure CommitDb where
  now : Time
  session : Option Session
  attempts : List Attempt
  staging : List StagingRow
  question : QuestionState
  newQuestions : List String
  knowledgeRevision : Nat
  dependencyGraphRevision : Nat
deriving DecidableEq, Repr

/-- `lease_owner IS NOT NULL AND lease_expires_at > now()`. -/
def Session.leaseLive (s : Session) (now : Time) : Bool :=
  s.leaseOwner.isSome && s.leaseExpiresAt.any (now < ·)

/-- `lease_owner = :owner AND lease_expires_at > now()`. -/
def Session.leaseLiveFor (s : Session) (owner : Owner) (now : Time) : Bool :=
  s.leaseOwner = some owner && s.leaseExpiresAt.any (now < ·)

def CommitDb.attempt? (db : CommitDb) (id : AttemptId) : Option Attempt :=
  db.attempts.find? (·.id = id)

/-- `UPDATE commit_attempts SET status = :to WHERE id = :id AND status IN (...)`. -/
def setStatus (id : AttemptId) (only : AttemptStatus → Bool) (next : AttemptStatus)
    (as : List Attempt) : List Attempt :=
  as.map fun a => if a.id = id ∧ only a.status then { a with status := next } else a

/-! ## The session lease -/

/-- `LeaseService.acquire`; `none` is `LeaseLost`. -/
def acquireLease (db : CommitDb) (owner : Owner) (ttl deadline : Time) :
    Option CommitDb :=
  match db.session with
  | none => none
  | some s =>
    if ¬ s.state.isTerminal ∧ s.state ≠ .reconcilingCommit ∧
        (s.leaseOwner = none ∨ s.leaseExpiresAt.any (· < db.now) ∨
          s.leaseOwner = some owner) then
      some { db with session := some { s with
        leaseOwner := some owner
        leaseExpiresAt := some (db.now + ttl)
        phaseDeadline := some (db.now + deadline) } }
    else none

/-- `LeaseService.heartbeat`; `none` is `LeaseLost`. -/
def heartbeatLease (db : CommitDb) (owner : Owner) (ttl : Time) : Option CommitDb :=
  match db.session with
  | none => none
  | some s =>
    if s.leaseLiveFor owner db.now ∧ s.phaseDeadline.all (db.now < ·) then
      some { db with session := some { s with leaseExpiresAt := some (db.now + ttl) } }
    else none

/-- `LeaseService.release`. -/
def releaseLease (db : CommitDb) (owner : Owner) : CommitDb :=
  match db.session with
  | none => db
  | some s =>
    if s.leaseOwner = some owner then
      { db with session := some { s with leaseOwner := none, leaseExpiresAt := none } }
    else db

end Noezema.Commit
