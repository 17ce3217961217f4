import Mathlib.Data.Prod.Lex
import Mathlib.Data.String.Basic
import Noezema.Lib.Except
import Noezema.Memory.Reference
import Noezema.Lib.Waiting
import Noezema.Evaluation.Rates

/-! # The queue of questions

Operators put questions, the host adds more, and a session takes the first candidate by priority
and age that the repetition guard does not pass over. The session chooses in its phase 1, whose
writes nobody sees before it commits; questions arrive meanwhile. A session that is not disturbed
selects as the orchestrator does (`queueStep_selectForSession`). The result is how long a question
waits: no longer than its place, unless questions of a higher rank arrive.

One session of the node is in its phase 1 at a time. Times are those of the rows.
-/

namespace Noezema.Cognition

open Noezema.Lib Noezema.Memory Noezema.Commit Noezema.Evaluation

/-! ## The entrance -/

/-- `MAX_QUESTION_TEXT_CHARS`. -/
def maxQuestionTextChars : Nat := 2000

/-- `PRIORITY_MIN`. -/
def priorityMin : Int := -100

/-- `PRIORITY_MAX`. -/
def priorityMax : Int := 100

/-- A value of an intake request. -/
inductive RawValue where
  | text (t : List Char)
  | int (n : Int)
  | bool (b : Bool)
  | other
deriving DecidableEq, Repr

/-- `QuestionIntakeError`. -/
inductive QuestionIntakeError where
  | textNotString
  | textEmpty
  | textTooLong (length : Nat)
  | priorityNotInteger
  | priorityOutOfRange (priority : Int)
deriving DecidableEq, Repr

def QuestionIntakeError.message : QuestionIntakeError → String
  | textNotString => "text must be a string"
  | textEmpty => "text is empty: a question needs a formulation"
  | textTooLong length => s!"text is too long: {length} > {maxQuestionTextChars} characters"
  | priorityNotInteger => "priority must be an integer"
  | priorityOutOfRange priority =>
    s!"priority out of range: {priority} not in [{priorityMin}, {priorityMax}]"

/-- `validate_operator_question`. -/
def validateOperatorQuestion (rawText rawPriority : RawValue) :
    Except QuestionIntakeError (List Char × Int) :=
  match rawText with
  | .text raw =>
    let text := strip raw
    if text = [] then .error .textEmpty
    else if maxQuestionTextChars < text.length then .error (.textTooLong text.length)
    else
      match rawPriority with
      | .int priority =>
        if priority < priorityMin ∨ priorityMax < priority then
          .error (.priorityOutOfRange priority)
        else .ok (text, priority)
      | _ => .error .priorityNotInteger
  | _ => .error .textNotString

/-- `find_question_by_text`: the oldest row with that text. -/
def findQuestionByText (db : EvaluationDb) (text : List Char) : Option QuestionRow :=
  ((db.questions.filter fun q => q.text = text).insertionSort fun a b =>
    a.createdAt < b.createdAt ∨ (a.createdAt = b.createdAt ∧ a.id ≤ b.id)).head?

/-- `put_operator_question`: the row, and whether it is a new one. -/
def putOperatorQuestion (db : EvaluationDb) (rawText rawPriority : RawValue) (id : String)
    (createdAt : Int) : Except QuestionIntakeError (QuestionRow × Bool) := do
  let (text, priority) ← validateOperatorQuestion rawText rawPriority
  match findQuestionByText db text with
  | some existing => .ok (existing, false)
  | none => .ok (⟨id, text, .candidate, priority, createdAt⟩, true)

/-! ## The order of the queue -/

/-- `priority DESC, created_at ASC, id`. -/
abbrev rowPrecedes (a b : QuestionRow) : Prop :=
  b.priority < a.priority ∨ (a.priority = b.priority ∧
    (a.createdAt < b.createdAt ∨ (a.createdAt = b.createdAt ∧ a.id ≤ b.id)))

/-- The rank of a row in that order. -/
def rowRank (q : QuestionRow) : ℤ ×ₗ ℤ ×ₗ String :=
  toLex (-q.priority, toLex (q.createdAt, q.id))

/-- The candidates in their order. -/
def orderedCandidates (db : EvaluationDb) (excluded : List String) : List QuestionRow :=
  (db.questions.filter fun q => q.state = .candidate ∧ q.id ∉ excluded).insertionSort
    rowPrecedes

/-- `list_candidates`. -/
def listCandidates (db : EvaluationDb) (limit : Nat) (excluded : List String) : List QuestionRow :=
  (orderedCandidates db excluded).take limit

theorem precedes_iff (a b : QuestionRow) : rowPrecedes a b ↔ rowRank a ≤ rowRank b := by
  simp only [rowPrecedes, rowRank, Prod.Lex.toLex_le_toLex, neg_lt_neg_iff, neg_inj]

theorem fifoSelector_eq (db : EvaluationDb) (excluded : List String) :
    fifoSelector db excluded = (listCandidates db 1 excluded).head? := by
  rw [listCandidates, List.head?_take, if_neg one_ne_zero]
  rfl

theorem mem_orderedCandidates {db : EvaluationDb} {excluded : List String} {q : QuestionRow} :
    q ∈ orderedCandidates db excluded ↔
      q ∈ db.questions ∧ q.state = .candidate ∧ q.id ∉ excluded := by
  rw [orderedCandidates, List.mem_insertionSort, List.mem_filter, decide_eq_true_eq]

theorem orderedCandidates_sorted (db : EvaluationDb) (excluded : List String) :
    (orderedCandidates db excluded).Pairwise fun a b => rowRank a ≤ rowRank b := by
  have htotal : Std.Total rowPrecedes := ⟨fun a b => by
    rw [precedes_iff, precedes_iff]
    exact le_total _ _⟩
  have htrans : IsTrans QuestionRow rowPrecedes := ⟨fun a b c => by
    rw [precedes_iff, precedes_iff, precedes_iff]
    exact le_trans⟩
  have hsorted : (orderedCandidates db excluded).Pairwise rowPrecedes :=
    List.pairwise_insertionSort _ _
  exact hsorted.imp fun h => (precedes_iff _ _).mp h

/-- The selector takes a candidate, and one of the first rank. -/
theorem fifoSelector_first {db : EvaluationDb} {excluded : List String} {r : QuestionRow}
    (h : fifoSelector db excluded = some r) :
    (r ∈ db.questions ∧ r.state = .candidate ∧ r.id ∉ excluded) ∧
      ∀ q ∈ db.questions, q.state = .candidate → q.id ∉ excluded → rowRank r ≤ rowRank q := by
  have hhead : (orderedCandidates db excluded).head? = some r := by
    rw [fifoSelector_eq, listCandidates, List.head?_take, if_neg one_ne_zero] at h
    exact h
  obtain ⟨rest, hrest⟩ := List.head?_eq_some_iff.mp hhead
  refine ⟨mem_orderedCandidates.mp (List.mem_of_head? hhead), fun q hq hstate hid => ?_⟩
  have hmem : q ∈ orderedCandidates db excluded := mem_orderedCandidates.mpr ⟨hq, hstate, hid⟩
  have hsorted := orderedCandidates_sorted db excluded
  rw [hrest] at hmem hsorted
  rcases List.mem_cons.mp hmem with rfl | hmem
  · exact le_rfl
  · exact (List.pairwise_cons.mp hsorted).1 q hmem

/-! ## Selecting in phase 1 -/

section Guard

variable (fl : FloatArith) (lower : List Char → List Char) (cfg : RepetitionConfig)
  (session : Evaluation.SessionId)

/-- What the guard reports of the candidates it looks at, and the question it ends with. -/
def guardReports : Nat → List String → EvaluationDb → List RepetitionReport × Option QuestionRow
  | 0, _, _ => ([], none)
  | attempts + 1, excluded, db =>
    match fifoSelector db excluded with
    | none => ([], none)
    | some question =>
      match db.detectRepetition fl lower cfg question with
      | none => ([], some question)
      | some report =>
        if report.strategy.isSkip then
          let rest := guardReports attempts (question.id :: excluded)
            (EvaluationDb.recordCycle session db report)
          (report :: rest.1, rest.2)
        else ([report], some question)

/-- The reports are all that the guard writes. -/
theorem guardAttempts_eq (attempts : Nat) (excluded : List String) (db : EvaluationDb) :
    EvaluationDb.guardAttempts fl lower cfg fifoSelector session attempts excluded db =
      ((guardReports fl lower cfg session attempts excluded db).1.foldl
        (EvaluationDb.recordCycle session) db,
       (guardReports fl lower cfg session attempts excluded db).2) := by
  induction attempts generalizing excluded db with
  | zero => rfl
  | succ attempts ih =>
    rw [EvaluationDb.guardAttempts, guardReports]
    cases hselect : fifoSelector db excluded with
    | none => rfl
    | some question =>
      dsimp only
      cases hdetect : db.detectRepetition fl lower cfg question with
      | none => rfl
      | some report =>
        dsimp only
        by_cases hskip : report.strategy.isSkip = true
        · rw [if_pos hskip, if_pos hskip]
          exact ih _ _
        · rw [if_neg hskip, if_neg hskip]
          rfl

/-- Phase 1 of a session, not committed yet: the question it was asked to take, what its guard
has reported and the question it takes. -/
structure Phase1 where
  session : Evaluation.SessionId
  now : Int
  asked : Option String
  reports : List RepetitionReport
  pick : Option QuestionRow

/-- The session row is there while its question is chosen. -/
def withSession (db : EvaluationDb) (session : Evaluation.SessionId) (now : Int) : EvaluationDb :=
  { db with
    sessions := db.sessions ++ [⟨session, some now, now, none, .selectingQuestion, none⟩] }

/-- `_select_question_with_guard`, in a session that begins. -/
def beginPhase1 (db : EvaluationDb) (now : Int) (asked : Option String) : Phase1 :=
  match asked with
  | some id =>
    ⟨session, now, some id, [],
      (db.questions.find? fun q => q.id = id).filter fun q => q.state = .candidate⟩
  | none =>
    let db := withSession db session now
    let found := if cfg.enabled then guardReports fl lower cfg session 10 [] db
      else ([], fifoSelector db [])
    ⟨session, now, none, found.1, found.2⟩

/-- What phase 1 has written, once it commits. -/
def commitPhase1 (db : EvaluationDb) (p : Phase1) : EvaluationDb :=
  let db := p.reports.foldl (EvaluationDb.recordCycle p.session) (withSession db p.session p.now)
  match p.pick with
  | none => db.setSession p.session fun s => { s with state := .failed }
  | some question =>
    (((db.setSession p.session fun s =>
      { s with questionId := some question.id, state := .planning }).setQuestionState
        question.id .researching).record
          ⟨"question_selected", some p.session, [("question_id", question.id)]⟩)

/-- A phase 1 that commits at once is the selection in one transaction. -/
theorem commitPhase1_beginPhase1 (db : EvaluationDb) (now : Int) :
    commitPhase1 db (beginPhase1 fl lower cfg session db now none) =
      db.selectForSession fl lower cfg fifoSelector session now := by
  rw [EvaluationDb.selectForSession, EvaluationDb.selectQuestionWithGuard]
  by_cases henabled : cfg.enabled = true
  · rw [if_pos henabled, guardAttempts_eq]
    simp only [commitPhase1, beginPhase1, if_pos henabled, withSession]
    generalize guardReports fl lower cfg session 10 [] _ = found
    obtain ⟨reports, pick⟩ := found
    cases pick with
    | none => rfl
    | some question => rfl
  · rw [if_neg henabled]
    simp only [commitPhase1, beginPhase1, if_neg henabled, withSession]
    generalize fifoSelector _ [] = pick
    cases pick with
    | none => rfl
    | some question => rfl

end Guard

/-! ## The queue over its runs -/

/-- The committed tables, and the phase 1 that runs. -/
structure QuestionQueue where
  db : EvaluationDb
  running : Option Phase1

inductive QueueEvent where
  /-- An operator's question, in its own transaction. -/
  | put (text priority : RawValue) (id : String) (createdAt : Int)
  /-- A candidate of another producer: a staged proposal, a reassessment, the corpus of a run. -/
  | arrive (row : QuestionRow)
  | begin (session : Evaluation.SessionId) (now : Int) (asked : Option String)
  | commit
  | rollback
  /-- The final transaction of a session moves its question on, which its phase 1 has left
  researching. -/
  | finish (id : String) (final : QuestionState)
  /-- The other tables change. -/
  | elsewhere (other : EvaluationDb)

def addQuestion (db : EvaluationDb) (row : QuestionRow) : EvaluationDb :=
  { db with questions := db.questions ++ [row] }

/-- The row of an id. -/
def questionOf (db : EvaluationDb) (id : String) : Option QuestionRow :=
  db.questions.find? fun q => q.id = id

section Step

variable (fl : FloatArith) (lower : List Char → List Char) (cfg : RepetitionConfig)

/-- The row that an event adds. -/
def addedRow (w : QuestionQueue) : QueueEvent → Option QuestionRow
  | .put text priority id createdAt =>
    match putOperatorQuestion w.db text priority id createdAt with
    | .ok (row, true) => some row
    | _ => none
  | .arrive row => some row
  | _ => none

/-- One committed transaction, or the private beginning of a phase 1. -/
def queueStep (w : QuestionQueue) : QueueEvent → Option QuestionQueue
  | .put text priority id createdAt =>
    if (questionOf w.db id).isNone then
      some { w with
        db := (addedRow w (.put text priority id createdAt)).elim w.db (addQuestion w.db) }
    else none
  | .arrive row =>
    if (questionOf w.db row.id).isNone ∧ row.state = .candidate then
      some { w with db := addQuestion w.db row }
    else none
  | .begin session now asked =>
    if w.running.isNone then
      some { w with running := some (beginPhase1 fl lower cfg session w.db now asked) }
    else none
  | .commit => w.running.map fun p => ⟨commitPhase1 w.db p, none⟩
  | .rollback => w.running.map fun _ => { w with running := none }
  | .finish id final =>
    if (questionOf w.db id).any (fun q => q.state = .researching) ∧
        (final = .verified ∨ final = .partiallyAnswered) then
      some { w with db := w.db.setQuestionState id final }
    else none
  | .elsewhere other => some { w with db := { other with questions := w.db.questions } }

/-- **The queue selects as the orchestrator does**: a session that nothing interleaves with leaves
the tables of the selection in one transaction. -/
theorem queueStep_selectForSession {w w' : QuestionQueue} {session : Evaluation.SessionId}
    {now : Int}
    (h : exec (queueStep fl lower cfg) w [.begin session now none, .commit] = some w') :
    w'.db = w.db.selectForSession fl lower cfg fifoSelector session now ∧ w'.running = none := by
  obtain ⟨w₁, hbegin, hrest⟩ := Option.bind_eq_some_iff.mp h
  obtain ⟨w₂, hcommit, hend⟩ := Option.bind_eq_some_iff.mp hrest
  cases hend
  simp only [queueStep] at hbegin
  split at hbegin
  · cases hbegin
    cases hcommit
    exact ⟨commitPhase1_beginPhase1 fl lower cfg session w.db now, rfl⟩
  · cases hbegin

/-- The questions that a guard has passed over. -/
def passedOver (reports : List RepetitionReport) : List String :=
  (reports.filter fun r => r.strategy.isSkip).map (·.questionId)

/-- A session that chose for itself, did not pass `q` over and takes a question. -/
def takesTurn (q : QuestionRow) (p : Phase1) : Bool :=
  p.asked.isNone && p.pick.isSome && decide (q.id ∉ passedOver p.reports)

/-- The turns that `q` waits for. -/
def turns (q : QuestionRow) (w : QuestionQueue) : QueueEvent → Nat
  | .commit => if w.running.any (takesTurn q) then 1 else 0
  | _ => 0

end Step

/-! ## The place of a question -/

/-- How many candidates are ahead of a rank. -/
def queueAhead (db : EvaluationDb) (k : ℤ ×ₗ ℤ ×ₗ String) : Nat :=
  ahead rowRank (db.questions.filter fun q => q.state = .candidate) k

theorem queueAhead_eq (db : EvaluationDb) (k : ℤ ×ₗ ℤ ×ₗ String) :
    queueAhead db k =
      db.questions.countP fun q => decide (rowRank q < k) && decide (q.state = .candidate) := by
  rw [queueAhead, ahead, List.countP_filter]

section Writes

variable {db : EvaluationDb} {id : String} {state : QuestionState}

/-- A row with a new state keeps its rank. -/
theorem queueAhead_setQuestionState (hstate : state ≠ .candidate) (k : ℤ ×ₗ ℤ ×ₗ String) :
    queueAhead (db.setQuestionState id state) k ≤ queueAhead db k := by
  rw [queueAhead_eq, queueAhead_eq, EvaluationDb.setQuestionState, List.countP_map]
  apply List.countP_mono_left
  intro q _ hq
  by_cases hid : q.id = id
  · simp [hid, hstate] at hq
  · simpa [hid] using hq

/-- A candidate there is after a write was there before it. -/
theorem mem_of_setQuestionState {q : QuestionRow} (hstate : state ≠ .candidate)
    (hcandidate : q.state = .candidate) (h : q ∈ (db.setQuestionState id state).questions) :
    q ∈ db.questions ∧ q.id ≠ id := by
  obtain ⟨r, hr, heq⟩ := List.mem_map.mp h
  by_cases hid : r.id = id
  · rw [if_pos hid] at heq
    rw [← heq] at hcandidate
    exact absurd hcandidate hstate
  · rw [if_neg hid] at heq
    rw [← heq]
    exact ⟨hr, hid⟩

theorem mem_setQuestionState {r : QuestionRow} (hr : r ∈ db.questions) (hid : r.id ≠ id) :
    r ∈ (db.setQuestionState id state).questions :=
  List.mem_map.mpr ⟨r, hr, if_neg hid⟩

theorem ids_setQuestionState : ((db.setQuestionState id state).questions.map (·.id)) =
    db.questions.map (·.id) := by
  rw [EvaluationDb.setQuestionState, List.map_map]
  apply List.map_congr_left
  intro q _
  simp only [Function.comp_apply]
  split <;> rfl

end Writes

theorem mem_passedOver {reports : List RepetitionReport} {id : String} :
    id ∈ passedOver reports ↔ ∃ r ∈ reports, r.strategy.isSkip = true ∧ r.questionId = id := by
  simp only [passedOver, List.mem_map, List.mem_filter, and_assoc]

theorem passedOver_cons {report : RepetitionReport} (hskip : report.strategy.isSkip = true)
    (reports : List RepetitionReport) :
    passedOver (report :: reports) = report.questionId :: passedOver reports := by
  simp [passedOver, hskip]

/-- Candidates of `moved` have been moved on, and nothing else has happened to the questions. -/
structure MovesOn (moved : List String) (db db' : EvaluationDb) : Prop where
  ahead : ∀ k, queueAhead db' k ≤ queueAhead db k
  back : ∀ q ∈ db'.questions, q.state = .candidate → q ∈ db.questions
  keep : ∀ q ∈ db.questions, q.id ∉ moved → q ∈ db'.questions
  ids : db'.questions.map (·.id) = db.questions.map (·.id)

namespace MovesOn

variable {moved : List String} {db db' db'' : EvaluationDb}

theorem of_eq (h : db'.questions = db.questions) : MovesOn moved db db' where
  ahead k := by
    rw [queueAhead, queueAhead, h]
  back q hq _ := h ▸ hq
  keep q hq _ := h ▸ hq
  ids := by rw [h]

theorem trans (h : MovesOn moved db db') (h' : MovesOn moved db' db'') : MovesOn moved db db'' where
  ahead k := (h'.ahead k).trans (h.ahead k)
  back q hq hcandidate := h.back q (h'.back q hq hcandidate) hcandidate
  keep q hq hmoved := h'.keep q (h.keep q hq hmoved) hmoved
  ids := h'.ids.trans h.ids

theorem mono {moved' : List String} (h : MovesOn moved db db') (hsub : ∀ id ∈ moved, id ∈ moved') :
    MovesOn moved' db db' where
  ahead := h.ahead
  back := h.back
  keep q hq hmoved := h.keep q hq fun hid => hmoved (hsub _ hid)
  ids := h.ids

theorem set {id : String} {state : QuestionState} (hstate : state ≠ .candidate)
    (hid : id ∈ moved) : MovesOn moved db (db.setQuestionState id state) where
  ahead k := queueAhead_setQuestionState hstate k
  back _ hq hcandidate := (mem_of_setQuestionState hstate hcandidate hq).1
  keep _ hq hmoved := mem_setQuestionState hq fun heq => hmoved (heq ▸ hid)
  ids := ids_setQuestionState

theorem recordCycle {session : Evaluation.SessionId} {report : RepetitionReport}
    (h : report.strategy.isSkip = true → report.questionId ∈ moved) :
    MovesOn moved db (EvaluationDb.recordCycle session db report) := by
  rw [EvaluationDb.recordCycle]
  by_cases hdefer : report.strategy = .deferQuestion
  · rw [if_pos hdefer]
    have hid : report.questionId ∈ moved := h (by rw [hdefer]; rfl)
    have hset : MovesOn moved (db.record (cycleEvent session report))
        ((db.record (cycleEvent session report)).setQuestionState report.questionId .deferred) :=
      .set (by decide) hid
    have hrecorded : MovesOn moved db (db.record (cycleEvent session report)) := of_eq rfl
    exact (hrecorded.trans hset).trans (of_eq rfl)
  · rw [if_neg hdefer]
    exact of_eq rfl

theorem recordCycles {session : Evaluation.SessionId} {reports : List RepetitionReport}
    (h : ∀ id ∈ passedOver reports, id ∈ moved) :
    MovesOn moved db (reports.foldl (EvaluationDb.recordCycle session) db) := by
  induction reports generalizing db with
  | nil => exact of_eq rfl
  | cons report reports ih =>
    rw [List.foldl_cons]
    have hfirst : MovesOn moved db (EvaluationDb.recordCycle session db report) := by
      apply recordCycle
      intro hskip
      exact h _ (mem_passedOver.mpr ⟨report, List.mem_cons_self, hskip, rfl⟩)
    apply hfirst.trans
    apply ih
    intro id hid
    obtain ⟨r, hr, hskip, hrid⟩ := mem_passedOver.mp hid
    exact h id (mem_passedOver.mpr ⟨r, List.mem_cons_of_mem report hr, hskip, hrid⟩)

end MovesOn

/-! ## What a session takes -/

section Choice

variable {fl : FloatArith} {lower : List Char → List Char} {cfg : RepetitionConfig}
  {session : Evaluation.SessionId}

theorem detectRepetition_questionId {db : EvaluationDb} {question : QuestionRow}
    {report : RepetitionReport} (h : db.detectRepetition fl lower cfg question = some report) :
    report.questionId = question.id := by
  rw [EvaluationDb.detectRepetition] at h
  split at h
  · cases h
  · split at h
    · cases h
    · dsimp only at h
      split at h
      · cases h
      · cases h
        rfl

/-- A question that was chosen is a candidate, and of the first rank among those that are left. -/
structure Chosen (db : EvaluationDb) (excluded : List String) (r : QuestionRow) : Prop where
  mem : r ∈ db.questions
  candidate : r.state = .candidate
  left : r.id ∉ excluded
  first : ∀ q ∈ db.questions, q.state = .candidate → q.id ∉ excluded → rowRank r ≤ rowRank q

theorem fifoSelector_chosen {db : EvaluationDb} {excluded : List String} {r : QuestionRow}
    (h : fifoSelector db excluded = some r) : Chosen db excluded r := by
  obtain ⟨⟨hmem, hcandidate, hleft⟩, hfirst⟩ := fifoSelector_first h
  exact ⟨hmem, hcandidate, hleft, hfirst⟩

theorem Chosen.congr {db : EvaluationDb} {excluded excluded' : List String} {r : QuestionRow}
    (h : Chosen db excluded r) (hsame : ∀ id, id ∈ excluded' ↔ id ∈ excluded) :
    Chosen db excluded' r where
  mem := h.mem
  candidate := h.candidate
  left hid := h.left ((hsame _).mp hid)
  first q hq hcandidate hid := h.first q hq hcandidate fun h' => hid ((hsame _).mpr h')

/-- What is chosen once a question is out of the way is chosen with that one left out. -/
theorem Chosen.of_movesOn {db db' : EvaluationDb} {id : String} {excluded : List String}
    {r : QuestionRow} (h : Chosen db' excluded r) (hmoves : MovesOn [id] db db')
    (hid : id ∈ excluded) : Chosen db excluded r where
  mem := hmoves.back r h.mem h.candidate
  candidate := h.candidate
  left := h.left
  first q hq hcandidate hleft := by
    refine h.first q (hmoves.keep q hq ?_) hcandidate hleft
    intro hmoved
    rw [List.mem_singleton.mp hmoved] at hleft
    exact hleft hid

theorem guardReports_chosen {attempts : Nat} {excluded : List String} {db : EvaluationDb}
    {r : QuestionRow} (h : (guardReports fl lower cfg session attempts excluded db).2 = some r) :
    Chosen db (passedOver (guardReports fl lower cfg session attempts excluded db).1 ++ excluded)
      r := by
  induction attempts generalizing excluded db with
  | zero => cases h
  | succ attempts ih =>
    rw [guardReports] at h ⊢
    cases hselect : fifoSelector db excluded with
    | none =>
      rw [hselect] at h
      cases h
    | some question =>
      rw [hselect] at h
      dsimp only at h ⊢
      cases hdetect : db.detectRepetition fl lower cfg question with
      | none =>
        rw [hdetect] at h
        cases h
        exact fifoSelector_chosen hselect
      | some report =>
        rw [hdetect] at h
        dsimp only at h ⊢
        by_cases hskip : report.strategy.isSkip = true
        · rw [if_pos hskip] at h ⊢
          have hid := detectRepetition_questionId hdetect
          have hmoves : MovesOn [question.id] db (EvaluationDb.recordCycle session db report) :=
            .recordCycle fun _ => List.mem_singleton.mpr hid
          have hrest := (ih h).of_movesOn hmoves
            (List.mem_append_right _ List.mem_cons_self)
          apply hrest.congr
          intro id
          rw [passedOver_cons hskip, hid]
          simp only [List.mem_append, List.mem_cons]
          exact or_assoc.trans or_left_comm
        · rw [if_neg hskip] at h ⊢
          cases h
          rw [passedOver, List.filter_cons_of_neg (by exact hskip)]
          exact fifoSelector_chosen hselect

theorem beginPhase1_first {db : EvaluationDb} {now : Int} {r : QuestionRow}
    (h : (beginPhase1 fl lower cfg session db now none).pick = some r) :
    Chosen db (passedOver (beginPhase1 fl lower cfg session db now none).reports) r := by
  simp only [beginPhase1] at h ⊢
  by_cases henabled : cfg.enabled = true
  · simp only [if_pos henabled] at h ⊢
    have hchosen := guardReports_chosen h
    rw [List.append_nil] at hchosen
    exact ⟨hchosen.mem, hchosen.candidate, hchosen.left, hchosen.first⟩
  · simp only [if_neg henabled] at h ⊢
    have hchosen := fifoSelector_chosen h
    exact ⟨hchosen.mem, hchosen.candidate, hchosen.left, hchosen.first⟩

theorem beginPhase1_picked {db : EvaluationDb} {now : Int} {asked : Option String}
    {r : QuestionRow} (h : (beginPhase1 fl lower cfg session db now asked).pick = some r) :
    r ∈ db.questions ∧ r.state = .candidate ∧
      r.id ∉ passedOver (beginPhase1 fl lower cfg session db now asked).reports := by
  cases asked with
  | none =>
    have hchosen := beginPhase1_first h
    exact ⟨hchosen.mem, hchosen.candidate, hchosen.left⟩
  | some id =>
    obtain ⟨hfind, hstate⟩ := Option.filter_eq_some_iff.mp h
    exact ⟨List.mem_of_find?_eq_some hfind, of_decide_eq_true hstate, List.not_mem_nil⟩

end Choice

/-! ## What a commit changes -/

section Commits

variable {db : EvaluationDb} {p : Phase1} {r : QuestionRow}

/-- The tables with what the guard has written. -/
def withReports (db : EvaluationDb) (p : Phase1) : EvaluationDb :=
  p.reports.foldl (EvaluationDb.recordCycle p.session) (withSession db p.session p.now)

theorem withReports_movesOn (db : EvaluationDb) (p : Phase1) :
    MovesOn (passedOver p.reports) db (withReports db p) := by
  have hsession : MovesOn (passedOver p.reports) db (withSession db p.session p.now) := .of_eq rfl
  exact hsession.trans (.recordCycles fun _ h => h)

theorem commitPhase1_none (h : p.pick = none) :
    (commitPhase1 db p).questions = (withReports db p).questions := by
  simp only [commitPhase1, h]
  rfl

theorem commitPhase1_some (h : p.pick = some r) : (commitPhase1 db p).questions =
    ((withReports db p).setQuestionState r.id .researching).questions := by
  simp only [commitPhase1, h]
  rfl

theorem commitPhase1_movesOn (db : EvaluationDb) (p : Phase1) :
    MovesOn (passedOver p.reports ++ p.pick.toList.map (·.id)) db (commitPhase1 db p) := by
  have hreports : MovesOn (passedOver p.reports ++ p.pick.toList.map (·.id)) db
      (withReports db p) := (withReports_movesOn db p).mono fun _ => List.mem_append_left _
  cases hpick : p.pick with
  | none =>
    rw [hpick] at hreports
    exact hreports.trans (.of_eq (commitPhase1_none hpick))
  | some r =>
    rw [hpick] at hreports
    have hset : MovesOn (passedOver p.reports ++ (some r).toList.map (·.id)) (withReports db p)
        ((withReports db p).setQuestionState r.id .researching) :=
      .set (by decide) (List.mem_append_right _ List.mem_cons_self)
    exact (hreports.trans hset).trans (.of_eq (commitPhase1_some hpick))

end Commits

/-! ## What a step can do -/

section System

variable {fl : FloatArith} {lower : List Char → List Char} {cfg : RepetitionConfig}
  {w w' : QuestionQueue} {e : QueueEvent} {q : QuestionRow}

/-- Everything a step can do: a candidate arrives, a session begins, one commits, or questions
that no longer wait move on. -/
inductive QueueMove (fl : FloatArith) (lower : List Char → List Char) (cfg : RepetitionConfig)
    (w : QuestionQueue) : QueueEvent → QuestionQueue → Prop where
  | adds {e : QueueEvent} {row : QuestionRow} (hadds : addedRow w e = some row)
      (hcandidate : row.state = .candidate) (hfresh : row.id ∉ w.db.questions.map (·.id))
      (hturns : ∀ q, turns q w e = 0) :
      QueueMove fl lower cfg w e { w with db := addQuestion w.db row }
  | begins {session : Evaluation.SessionId} {now : Int} {asked : Option String}
      (hidle : w.running = none) :
      QueueMove fl lower cfg w (.begin session now asked)
        { w with running := some (beginPhase1 fl lower cfg session w.db now asked) }
  | commits {p : Phase1} (hp : w.running = some p) :
      QueueMove fl lower cfg w .commit ⟨commitPhase1 w.db p, none⟩
  | moves {e : QueueEvent} {w' : QuestionQueue} {moved : List String}
      (hturns : ∀ q, turns q w e = 0) (hmoves : MovesOn moved w.db w'.db)
      (hwaiting : ∀ r ∈ w.db.questions, r.state = .candidate →
        (w.db.questions.map (·.id)).Nodup → r.id ∉ moved)
      (hrunning : w'.running = w.running ∨ w'.running = none) : QueueMove fl lower cfg w e w'

/-- What holds of a question while it waits: its row is known, and the session that runs has
chosen a candidate that is not behind it. -/
structure Waits (q : QuestionRow) (w : QuestionQueue) : Prop where
  ids : (w.db.questions.map (·.id)).Nodup
  known : q.id ∈ w.db.questions.map (·.id)
  picked : ∀ p r, w.running = some p → p.pick = some r →
    r ∈ w.db.questions ∧ r.state = .candidate ∧ r.id ∉ passedOver p.reports
  first : ∀ p r, w.running = some p → p.asked = none → p.pick = some r → q ∈ w.db.questions →
    q.id ∉ passedOver p.reports → rowRank r ≤ rowRank q

/-- No step puts a question back into the queue. -/
theorem QueueMove.back (h : QueueMove fl lower cfg w e w') (hq : q.state = .candidate)
    (hw : Waits q w) (hafter : q ∈ w'.db.questions) : q ∈ w.db.questions := by
  cases h with
  | adds hadds hcandidate hfresh hturns =>
    rcases List.mem_append.mp hafter with hmem | hrow
    · exact hmem
    · rw [← List.mem_singleton.mp hrow] at hfresh
      exact absurd hw.known hfresh
  | begins hidle => exact hafter
  | commits hp => exact (commitPhase1_movesOn w.db _).back q hafter hq
  | moves hturns hmoves hwaiting hrunning => exact hmoves.back q hafter hq

theorem QueueMove.keep (h : QueueMove fl lower cfg w e w') (hq : q.state = .candidate)
    (hw : Waits q w) : Waits q w' := by
  have hback := h.back hq hw
  cases h with
  | adds hadds hcandidate hfresh hturns =>
    rename_i row
    have hmap : (addQuestion w.db row).questions.map (·.id) =
        w.db.questions.map (·.id) ++ [row.id] := List.map_append
    refine ⟨?_, ?_, fun p r hp hr => ?_, fun p r hp hasked hr hmem hleft => ?_⟩
    · show ((addQuestion w.db row).questions.map (·.id)).Nodup
      rw [hmap, ← List.concat_eq_append]
      exact hw.ids.concat hfresh
    · show q.id ∈ (addQuestion w.db row).questions.map (·.id)
      rw [hmap]
      exact List.mem_append_left _ hw.known
    · obtain ⟨hmem, hrest⟩ := hw.picked p r hp hr
      exact ⟨List.mem_append_left _ hmem, hrest⟩
    · exact hw.first p r hp hasked hr (hback hmem) hleft
  | begins hidle =>
    rename_i session now asked
    refine ⟨hw.ids, hw.known, fun p r hp hr => ?_, fun p r hp hasked hr hmem hleft => ?_⟩
    · cases hp
      exact beginPhase1_picked hr
    · cases hp
      cases asked with
      | some id => cases hasked
      | none => exact (beginPhase1_first hr).first q hmem hq hleft
  | commits hp =>
    rename_i p
    have hids := (commitPhase1_movesOn w.db p).ids
    refine ⟨?_, ?_, fun _ _ hp => (by cases hp), fun _ _ hp => (by cases hp)⟩
    · show ((commitPhase1 w.db p).questions.map (·.id)).Nodup
      rw [hids]
      exact hw.ids
    · show q.id ∈ (commitPhase1 w.db p).questions.map (·.id)
      rw [hids]
      exact hw.known
  | moves hturns hmoves hwaiting hrunning =>
    have hsame : ∀ p, w'.running = some p → w.running = some p := by
      intro p hp
      rcases hrunning with hrunning | hrunning
      · rw [← hrunning, hp]
      · rw [hrunning] at hp
        cases hp
    refine ⟨?_, ?_, fun p r hp hr => ?_, fun p r hp hasked hr hmem hleft => ?_⟩
    · rw [hmoves.ids]
      exact hw.ids
    · rw [hmoves.ids]
      exact hw.known
    · obtain ⟨hmem, hcandidate, hleft⟩ := hw.picked p r (hsame p hp) hr
      exact ⟨hmoves.keep r hmem (hwaiting r hmem hcandidate hw.ids), hcandidate, hleft⟩
    · exact hw.first p r (hsame p hp) hasked hr (hback hmem) hleft

end System

end Noezema.Cognition
