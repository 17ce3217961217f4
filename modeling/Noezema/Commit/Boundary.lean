import Mathlib.Tactic.SplitIfs
import Noezema.Commit.Session
import Noezema.Commit.Reconciler

/-! # The commit boundary

`prepare` and `finalize`, each run by the orchestrator in a transaction of its own,
and the two short transactions that resolve a session whose `prepare` or
`finalize` raised. The memory writes of the final transaction are a parameter: they
either raise or report how many evidential dependencies they added.
-/

namespace Noezema.Commit

/-- What the final transaction is told about the session. Its terminal state is one
of the three a commit can end in. -/
structure CommitPlan where
  terminal : SessionState
  terminal_ok : terminal.isTerminal = true
  not_cancelled : terminal ≠ .cancelled
  terminationReason : Option String
  questionTerminal : Option QuestionState

theorem succeeded_isTerminal : SessionState.succeeded.isTerminal = true := rfl

theorem succeeded_not_cancelled : SessionState.succeeded ≠ .cancelled := by
  intro h
  cases h

/-- `apply_memory`: the exception it raises, or `dependencies_evidential_added`. -/
abbrev MemoryOutcome := Except String Nat

/-- `FinalizeOutcome`. -/
inductive FinalizeOutcome where
  | committed | fencingConflict | leaseLost | attemptMissing
deriving DecidableEq, Repr

structure FinalizeResult where
  outcome : FinalizeOutcome
  knowledgeRevision : Option Nat
  appliedClaims : Nat
  appliedQuestions : Nat
deriving DecidableEq, Repr

def FinalizeResult.refused (outcome : FinalizeOutcome) : FinalizeResult :=
  ⟨outcome, none, 0, 0⟩

/-! ## `prepare` -/

/-- `prepare`: the durable attempt and the session's pointer to it. `none` is a
violated unique index. The session's own state is not read. -/
def prepare (db : CommitDb) (id : AttemptId) : Option CommitDb :=
  match db.session with
  | none => none
  | some s =>
    if db.attempts.any fun a => a.id = id ∨ a.status.isUnresolved then none
    else
      let attempt : Attempt :=
        { id := id
          status := .prepared
          workspaceManifestId := s.committedWorkspaceManifestId
          baseKnowledgeRevision := db.knowledgeRevision
          baseDependencyGraphRevision := db.dependencyGraphRevision }
      some { db with
        attempts := db.attempts ++ [attempt]
        session := some { s with
          commitAttemptId := some id
          commitIntentAt := some db.now } }

/-! ## `finalize` -/

/-- The commit touches the dependency graph: its recorded staging proposes an
evidential edge. -/
def touchesDependencyGraph (rows : List StagingRow) : Bool :=
  rows.any fun r => r.op = .claim && r.state = .recorded &&
    r.dependencyKinds.any (· = "evidential")

/-- The fencing predicate, in the source's order; `none` lets the commit pass. -/
def fence (db : CommitDb) (s : Session) (attempt : Attempt) (owner : Owner) :
    Option FinalizeOutcome :=
  match s.commitAttemptId.bind db.attempt? with
  | none => some .attemptMissing
  | some current =>
    if s.state ≠ .committing then some .fencingConflict
    else if ¬ s.leaseLiveFor owner db.now then some .leaseLost
    else if db.knowledgeRevision ≠ attempt.baseKnowledgeRevision then
      some .fencingConflict
    else if touchesDependencyGraph db.staging ∧
        db.dependencyGraphRevision ≠ attempt.baseDependencyGraphRevision then
      some .fencingConflict
    else if current.status ≠ .prepared then some .fencingConflict
    else none

/-- The terminal columns of the session row. -/
def Session.finish (s : Session) (state : SessionState) (reason : Option String) :
    Session :=
  { s with
    state := state
    terminationReason := reason
    leaseOwner := none
    leaseExpiresAt := none
    commitIntentAt := none }

/-- `apply_recorded`: every recorded row becomes applied. -/
def applyRecorded (rows : List StagingRow) : List StagingRow :=
  rows.map fun r => if r.state = .recorded then { r with state := .applied } else r

def recordedClaims (rows : List StagingRow) : Nat :=
  (rows.filter fun r => r.state = .recorded && r.op = .claim).length

/-- The texts of the questions `apply_recorded` creates. -/
def recordedQuestions (rows : List StagingRow) : List String :=
  (rows.filter fun r => r.state = .recorded && r.op = .question && r.text ≠ "").map (·.text)

/-- `verified` is written only with an applied claim. -/
def writtenQuestionState (current : QuestionState) (requested : Option QuestionState)
    (appliedClaims : Nat) : QuestionState :=
  match requested with
  | none => current
  | some q => if q = .verified ∧ appliedClaims = 0 then .partiallyAnswered else q

/-- The final transaction past its fence, for a terminal state that commits. `none`
is the failed compare-and-set of the graph revision. -/
def applyCommit (plan : CommitPlan) (db : CommitDb) (s : Session) (attempt : Attempt)
    (evidentialAdded : Nat) : Option (FinalizeResult × CommitDb) :=
  let bumpsGraph := touchesDependencyGraph db.staging && decide (0 < evidentialAdded)
  if bumpsGraph ∧ db.dependencyGraphRevision ≠ attempt.baseDependencyGraphRevision then
    none
  else
    let claims := recordedClaims db.staging
    let questions := recordedQuestions db.staging
    let s' := s.finish plan.terminal plan.terminationReason
    some (⟨.committed, some (attempt.baseKnowledgeRevision + 1), claims, questions.length⟩,
      { db with
        session := some { s' with
          committedWorkspaceManifestId :=
            attempt.workspaceManifestId.or s.committedWorkspaceManifestId }
        attempts := setStatus attempt.id (fun _ => true) .committed db.attempts
        staging := applyRecorded db.staging
        question := writtenQuestionState db.question plan.questionTerminal claims
        newQuestions := db.newQuestions ++ questions
        knowledgeRevision :=
          if db.knowledgeRevision = attempt.baseKnowledgeRevision then
            attempt.baseKnowledgeRevision + 1
          else db.knowledgeRevision
        dependencyGraphRevision :=
          if bumpsGraph then attempt.baseDependencyGraphRevision + 1
          else db.dependencyGraphRevision })

/-- `finalize`, in the caller's transaction. `none` is an exception of the body: the
transaction is rolled back. A `failed` terminal state is a fenced abort, in which
the staging is not applied. -/
def finalize (plan : CommitPlan) (owner : Owner) (memory : MemoryOutcome)
    (db : CommitDb) (id : AttemptId) : Option (FinalizeResult × CommitDb) :=
  match db.session, db.attempt? id with
  | some s, some attempt =>
    match fence db s attempt owner with
    | some outcome => some (.refused outcome, db)
    | none =>
      if plan.terminal = .failed then
        some (⟨.committed, none, 0, 0⟩, { db with
          session := some (s.finish .failed plan.terminationReason)
          attempts := setStatus id (fun _ => true) .aborted db.attempts })
      else match memory with
      | .error _ => none
      | .ok added => applyCommit plan db s attempt added
  | _, _ => none

/-! ## Resolving a failed step -/

/-- `_resolve_failed_finalize`. -/
def resolveFailedFinalize (db : CommitDb) (id : AttemptId) (reason : String) :
    CommitDb :=
  markFailed { db with
    attempts := setStatus id AttemptStatus.isUnresolved .aborted db.attempts } reason

/-- `UPDATE commit_attempts SET status = 'aborted' WHERE status = 'prepared'`. -/
def abortPrepared (as : List Attempt) : List Attempt :=
  as.map fun a => if a.status = .prepared then { a with status := .aborted } else a

/-- `_abort_session`: the session only from `committing`, its prepared attempts in
any case. -/
def abortSession (db : CommitDb) (reason : String) : CommitDb :=
  let db' : CommitDb := match db.session with
    | none => db
    | some s =>
      if s.state = .committing then
        { db with session := some (s.finish .failed (some reason)) }
      else db
  { db' with attempts := abortPrepared db'.attempts }

/-! ## What each step can do -/

/-- **What `prepare` does**: it adds one prepared attempt, the session's. -/
theorem prepare_some {db db' : CommitDb} {id : AttemptId} (h : prepare db id = some db') :
    ∃ s a, db.session = some s ∧ a.id = id ∧ a.status = .prepared ∧
      (∀ b ∈ db.attempts, b.id ≠ id ∧ b.status.isUnresolved = false) ∧
      db' = { db with
        attempts := db.attempts ++ [a]
        session := some { s with
          commitAttemptId := some id
          commitIntentAt := some db.now } } := by
  unfold prepare at h
  cases hs : db.session with
  | none => simp [hs] at h
  | some s =>
    simp only [hs] at h
    split at h
    · simp at h
    · rename_i hfree
      refine ⟨s, _, rfl, rfl, rfl, ?_, (Option.some.inj h).symm⟩
      intro b hb
      simp only [List.any_eq_true, not_exists, not_and, decide_eq_true_eq] at hfree
      have := hfree b hb
      constructor
      · exact fun he => this (.inl he)
      · exact eq_false_of_ne_true fun hu => this (.inr hu)

theorem abortSession_session {db : CommitDb} {s : Session} {reason : String}
    (hs : db.session = some s) :
    abortSession db reason = { db with
      session := some (if s.state = .committing then s.finish .failed (some reason)
        else s)
      attempts := abortPrepared db.attempts } := by
  unfold abortSession
  by_cases hc : s.state = .committing
  · simp [hs, hc]
  · simp [hs, hc]

/-- The fence lets only a prepared attempt of a committing session pass. -/
theorem fence_none {db : CommitDb} {s : Session} {attempt : Attempt} {owner : Owner}
    (h : fence db s attempt owner = none) :
    s.state = .committing ∧ db.knowledgeRevision = attempt.baseKnowledgeRevision ∧
      ∃ a, s.commitAttemptId.bind db.attempt? = some a ∧ a.status = .prepared := by
  unfold fence at h
  cases hc : s.commitAttemptId.bind db.attempt? with
  | none => simp [hc] at h
  | some a =>
    simp only [hc] at h
    split_ifs at h with h1 h2 h3 h4 h5
    exact ⟨Decidable.not_not.mp h1, Decidable.not_not.mp h3, a, rfl, Decidable.not_not.mp h5⟩

/-- **What `finalize` does when its body returns**: nothing, or it finishes a
committing session and its prepared attempt together, the staging being applied
exactly when the attempt is committed. -/
theorem finalize_some {plan : CommitPlan} {owner : Owner} {memory : MemoryOutcome}
    {db db' : CommitDb} {id : AttemptId} {r : FinalizeResult}
    (h : finalize plan owner memory db id = some (r, db')) :
    db' = db ∨
    ∃ s a, db.session = some s ∧ s.state = .committing ∧
      s.commitAttemptId.bind db.attempt? = some a ∧ a.status = .prepared ∧
      (∃ b, db.attempt? id = some b) ∧
      ∃ s', db'.session = some s' ∧ s'.commitAttemptId = s.commitAttemptId ∧
        s'.state.isTerminal = true ∧
        ((db'.attempts = setStatus id (fun _ => true) .aborted db.attempts ∧
            db'.staging = db.staging) ∨
          (db'.attempts = setStatus id (fun _ => true) .committed db.attempts ∧
            db'.staging = applyRecorded db.staging)) := by
  unfold finalize at h
  cases hs : db.session with
  | none => simp [hs] at h
  | some s =>
  cases ha : db.attempt? id with
  | none => simp [hs, ha] at h
  | some attempt =>
  have hid : attempt.id = id := by simpa using List.find?_some ha
  simp only [hs, ha] at h
  cases hf : fence db s attempt owner with
  | some outcome =>
    simp only [hf, Option.some.injEq, Prod.mk.injEq] at h
    exact .inl h.2.symm
  | none =>
    simp only [hf] at h
    obtain ⟨hstate, -, a, hcur, hprep⟩ := fence_none hf
    refine .inr ⟨s, a, rfl, hstate, hcur, hprep, ⟨attempt, rfl⟩, ?_⟩
    split at h
    · obtain ⟨-, rfl⟩ := Prod.mk.inj (Option.some.inj h)
      exact ⟨_, rfl, rfl, rfl, .inl ⟨rfl, rfl⟩⟩
    · cases hm : memory with
      | error e => simp [hm] at h
      | ok added =>
        simp only [hm, applyCommit] at h
        split at h
        · simp at h
        · obtain ⟨-, rfl⟩ := Prod.mk.inj (Option.some.inj h)
          exact ⟨_, rfl, rfl, plan.terminal_ok, .inr ⟨by rw [hid], rfl⟩⟩

/-- A refusing fence names no commit. -/
theorem fence_ne_committed {db : CommitDb} {s : Session} {attempt : Attempt}
    {owner : Owner} : fence db s attempt owner ≠ some .committed := by
  unfold fence
  split
  · simp
  · split_ifs <;> simp

/-- **The ways `finalize` returns.** It is refused and writes nothing; past the fence it
aborts the planned failure, or commits. -/
theorem finalize_cases {plan : CommitPlan} {owner : Owner} {memory : MemoryOutcome}
    {db db' : CommitDb} {id : AttemptId} {r : FinalizeResult}
    (h : finalize plan owner memory db id = some (r, db')) :
    (r.outcome ≠ .committed ∧ db' = db) ∨
    ∃ s a, db.session = some s ∧ db.attempt? id = some a ∧ fence db s a owner = none ∧
      ((plan.terminal = .failed ∧ r.outcome = .committed ∧ db' = { db with
          session := some (s.finish .failed plan.terminationReason)
          attempts := setStatus id (fun _ => true) .aborted db.attempts }) ∨
        (plan.terminal ≠ .failed ∧ ∃ added, memory = .ok added ∧
          applyCommit plan db s a added = some (r, db'))) := by
  unfold finalize at h
  cases hs : db.session with
  | none => simp [hs] at h
  | some s =>
  cases ha : db.attempt? id with
  | none => simp [hs, ha] at h
  | some attempt =>
  simp only [hs, ha] at h
  cases hf : fence db s attempt owner with
  | some outcome =>
    simp only [hf, Option.some.injEq, Prod.mk.injEq] at h
    obtain ⟨rfl, rfl⟩ := h
    refine .inl ⟨?_, rfl⟩
    intro hr
    simp only [FinalizeResult.refused] at hr
    subst hr
    exact fence_ne_committed hf
  | none =>
    simp only [hf] at h
    refine .inr ⟨s, attempt, rfl, rfl, hf, ?_⟩
    split at h
    · rename_i hplan
      obtain ⟨rfl, rfl⟩ := Prod.mk.inj (Option.some.inj h)
      exact .inl ⟨hplan, rfl, rfl⟩
    · rename_i hplan
      cases hm : memory with
      | error e => simp [hm] at h
      | ok added =>
        simp only [hm] at h
        exact .inr ⟨hplan, added, rfl, h⟩

/-- What the commit past the fence leaves: the planned state over the committed
attempt, and the question's written state. -/
theorem applyCommit_some {plan : CommitPlan} {db db' : CommitDb} {s : Session}
    {a : Attempt} {added : Nat} {r : FinalizeResult} (ha : a ∈ db.attempts)
    (h : applyCommit plan db s a added = some (r, db')) :
    r.outcome = .committed ∧ ∃ s', db'.session = some s' ∧ s'.state = plan.terminal ∧
      s'.commitAttemptId = s.commitAttemptId ∧
      { a with status := .committed } ∈ db'.attempts ∧
      db'.question = writtenQuestionState db.question plan.questionTerminal
        (recordedClaims db.staging) := by
  unfold applyCommit at h
  dsimp only at h
  split at h
  · cases h
  · obtain ⟨rfl, rfl⟩ := Prod.mk.inj (Option.some.inj h)
    refine ⟨rfl, _, rfl, rfl, rfl, ?_, rfl⟩
    exact List.mem_map.mpr ⟨a, ha, by simp⟩

end Noezema.Commit
