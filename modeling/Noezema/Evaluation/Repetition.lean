import Mathlib.Data.Finset.Card
import Noezema.Evaluation.Tables
import Noezema.Lib.FloatArith

/-! # The repetition guard

The selection of a session's question. A candidate that repeats an investigated question on
which sessions made no progress is named in the journal; by the strategy of the rotation the
session takes it with a note, or the selection goes on without it.
-/

namespace Noezema.Evaluation

open Noezema.Lib Noezema.Commit

/-! ## The detection of a cycle -/

/-- The strategies of a cycle. -/
inductive RepeatStrategy where
  | comparePreviousSession | oppositeHypothesis | changeSourceType | experiment
  | deferQuestion | chooseDifferentArea
deriving DecidableEq, Repr

namespace RepeatStrategy

/-- `REPEAT_STRATEGIES`, in the order of the rotation. -/
def rotation : List RepeatStrategy :=
  [.comparePreviousSession, .oppositeHypothesis, .changeSourceType, .experiment,
    .deferQuestion, .chooseDifferentArea]

/-- The strategy as the journal names it. -/
def value : RepeatStrategy → String
  | comparePreviousSession => "compare_previous_session"
  | oppositeHypothesis => "opposite_hypothesis"
  | changeSourceType => "change_source_type"
  | experiment => "experiment"
  | deferQuestion => "defer_question"
  | chooseDifferentArea => "choose_different_area"

/-- `choose_strategy`. -/
def choose (noProgressSessions noProgressLimit : Nat) : RepeatStrategy :=
  if noProgressSessions < noProgressLimit then comparePreviousSession
  else rotation.getD ((noProgressSessions - noProgressLimit) % rotation.length)
    comparePreviousSession

/-- `is_skip_strategy`. -/
def isSkip : RepeatStrategy → Bool
  | deferQuestion | chooseDifferentArea => true
  | _ => false

end RepeatStrategy

/-- `RepetitionConfig`, with what `from_section` checks. -/
structure RepetitionConfig where
  enabled : Bool
  rephraseThreshold : ℚ
  noProgressLimit : Nat
  threshold_mem : 0 ≤ rephraseThreshold ∧ rephraseThreshold ≤ 1
  limit_pos : 1 ≤ noProgressLimit

/-- `RepetitionReport`. -/
structure RepetitionReport where
  questionId : String
  similarQuestionId : String
  similarity : ℚ
  noProgressSessions : Nat
  strategy : RepeatStrategy

/-- `_INVESTIGATED_STATES`. -/
def investigatedStates : List QuestionState :=
  [.verified, .partiallyAnswered, .rejected, .deferred, .researching, .selected]

/-- The class of `WORD_RE`. -/
def isWordChar (c : Char) : Bool :=
  ('a' ≤ c ∧ c ≤ 'z') ∨ ('а' ≤ c ∧ c ≤ 'я') ∨ c = 'ё' ∨ ('0' ≤ c ∧ c ≤ '9')

section Detection

-- `str.lower`
variable (fl : FloatArith) (lower : List Char → List Char)

/-- `word_set` with words of three letters at least. -/
def wordSet (text : List Char) : Finset (List Char) :=
  (((lower text).splitOnP fun c => !isWordChar c).filter fun w => 3 ≤ w.length).toFinset

/-- `jaccard`. -/
def jaccard (a b : Finset (List Char)) : ℚ :=
  if (a ∪ b).card = 0 then 0 else fl.rnd ((a ∩ b).card / (a ∪ b).card)

namespace EvaluationDb

variable (db : EvaluationDb)

/-- `_investigated_questions`. -/
def investigatedQuestions (question : QuestionRow) : List QuestionRow :=
  db.questions.filter fun q => q.state ∈ investigatedStates ∧ q.id ≠ question.id

/-- `_no_progress_sessions`: the latest sessions on the question, up to one with a claim. -/
def noProgressSessions (questionId : String) : Nat :=
  let sessions := ((db.sessions.filter fun s => s.questionId = some questionId).insertionSort
    fun a b => b.createdAt < a.createdAt ∨ (a.createdAt = b.createdAt ∧ b.id ≤ a.id)).take 50
  (sessions.takeWhile fun s => !db.claims.any fun c => c.createdInSession = some s.id).length

/-- The most similar investigated question, the first one of those. -/
def mostSimilar (question : QuestionRow) : Option (QuestionRow × ℚ) :=
  (db.investigatedQuestions question).foldl (fun best other =>
    let similarity := jaccard fl (wordSet lower question.text) (wordSet lower other.text)
    if (best.elim 0 fun b => b.2) < similarity then some (other, similarity) else best) none

/-- `detect_repetition`. -/
def detectRepetition (cfg : RepetitionConfig) (question : QuestionRow) :
    Option RepetitionReport :=
  if ¬ cfg.enabled ∨ wordSet lower question.text = ∅ then none
  else
    match db.mostSimilar fl lower question with
    | none => none
    | some (best, similarity) =>
      let noProgress := db.noProgressSessions best.id
      if similarity < cfg.rephraseThreshold ∨ noProgress < cfg.noProgressLimit then none
      else some ⟨question.id, best.id, similarity, noProgress,
        RepeatStrategy.choose noProgress cfg.noProgressLimit⟩

end EvaluationDb

end Detection

/-! ## The selection -/

/-- `select` of a question selector, some questions being excluded. -/
abbrev QuestionSelector := EvaluationDb → List String → Option QuestionRow

/-- `FIFOQuestionSelector.select`: highest priority, oldest first. -/
def fifoSelector : QuestionSelector := fun db excluded =>
  ((db.questions.filter fun q => q.state = .candidate ∧ q.id ∉ excluded).insertionSort
    fun a b => b.priority < a.priority ∨ (a.priority = b.priority ∧
      (a.createdAt < b.createdAt ∨ (a.createdAt = b.createdAt ∧ a.id ≤ b.id)))).head?

/-- The row that names a cycle. -/
def cycleEvent (session : SessionId) (report : RepetitionReport) : AuditEvent where
  type := "repeat_cycle_detected"
  sessionId := some session
  payload := [("question_id", report.questionId),
    ("similar_question_id", report.similarQuestionId),
    ("strategy", report.strategy.value), ("fingerprint", "repeat-jaccard-v1")]

/-- The row of a deferred question. -/
def deferredEvent (session : SessionId) (report : RepetitionReport) : AuditEvent where
  type := "question_deferred"
  sessionId := some session
  payload := [("question_id", report.questionId),
    ("similar_question_id", report.similarQuestionId), ("reason", "repeat_cycle")]

namespace EvaluationDb

def record (db : EvaluationDb) (event : AuditEvent) : EvaluationDb :=
  { db with auditEvents := db.auditEvents ++ [event] }

def setQuestionState (db : EvaluationDb) (id : String) (state : QuestionState) : EvaluationDb :=
  { db with questions := db.questions.map fun q => if q.id = id then { q with state } else q }

def setSession (db : EvaluationDb) (id : SessionId) (f : SessionRow → SessionRow) :
    EvaluationDb :=
  { db with sessions := db.sessions.map fun s => if s.id = id then f s else s }

section Guard

variable (fl : FloatArith) (lower : List Char → List Char) (cfg : RepetitionConfig)
  (select : QuestionSelector) (session : SessionId)

/-- What the guard writes of a cycle. -/
def recordCycle (db : EvaluationDb) (report : RepetitionReport) : EvaluationDb :=
  let db := db.record (cycleEvent session report)
  if report.strategy = .deferQuestion then
    (db.setQuestionState report.questionId .deferred).record (deferredEvent session report)
  else db

/-- The attempts of `_select_question_with_guard`. -/
def guardAttempts : Nat → List String → EvaluationDb → EvaluationDb × Option QuestionRow
  | 0, _, db => (db, none)
  | attempts + 1, excluded, db =>
    match select db excluded with
    | none => (db, none)
    | some question =>
      match db.detectRepetition fl lower cfg question with
      | none => (db, some question)
      | some report =>
        if report.strategy.isSkip then
          guardAttempts attempts (question.id :: excluded) (recordCycle session db report)
        else (recordCycle session db report, some question)

/-- `_select_question_with_guard` of a session that selects on its own. -/
def selectQuestionWithGuard (db : EvaluationDb) : EvaluationDb × Option QuestionRow :=
  if cfg.enabled then guardAttempts fl lower cfg select session 10 [] db
  else (db, select db [])

/-- A session begins and selects: without a question it has failed. -/
def selectForSession (now : Int) (db : EvaluationDb) : EvaluationDb :=
  let started : SessionRow := ⟨session, some now, now, none, .selectingQuestion, none⟩
  match selectQuestionWithGuard fl lower cfg select session
      { db with sessions := db.sessions ++ [started] } with
  | (db, none) => db.setSession session fun s => { s with state := .failed }
  | (db, some question) =>
    (((db.setSession session fun s =>
      { s with questionId := some question.id, state := .planning }).setQuestionState
        question.id .researching).record
          ⟨"question_selected", some session, [("question_id", question.id)]⟩)

end Guard

end EvaluationDb

end Noezema.Evaluation
