import Noezema.Commit.Outcome

/-! # The question registry under its sessions

Phase 1 reads a candidate, and its commit moves the question to `researching` in the
transaction that makes the session durable. Only the final transaction moves it on. The
registry runs any number of sessions, each a `Node` of the commit protocol, beside the
reconcile ticks; the result is which endings leave a question behind.
-/

namespace Noezema.Commit

open Noezema.Lib

abbrev QuestionId := Nat

/-! ## The registry -/

/-- A session with what its phase 1 has read: the question it took and the ones its
repetition guard put off. -/
structure SessionRecord where
  node : Node
  selected : Option QuestionId
  deferred : List QuestionId

/-- The `questions` table and the sessions that have begun. -/
structure Registry where
  questions : QuestionId → Option QuestionState
  records : List SessionRecord

inductive RegistryEvent where
  /-- A new question row: the operator's, a staged one, or a follow-up. -/
  | intake (q : QuestionId)
  /-- `run_session` is admitted. -/
  | start (owner : Owner) (final : SessionState) (claims : Nat) (reason : Option String)
      (now : Time) (knowledge graph : Nat)
  /-- Phase 1 reads a candidate. -/
  | select (i : Nat) (q : QuestionId)
  /-- The repetition guard defers the question it read. -/
  | putOff (i : Nat)
  | session (i : Nat) (e : NodeEvent)

/-- `CommitPlan.question_terminal`. -/
def questionTerminal (final : SessionState) (claims : Nat) : QuestionState :=
  if final = .succeeded ∧ 0 < claims then .verified else .partiallyAnswered

/-- The node of a session that was just admitted. -/
def admittedNode (owner : Owner) (plan : CommitPlan) (now : Time)
    (knowledge graph : Nat) : Node where
  db := {
    now := now
    session := none
    attempts := []
    staging := []
    question := .candidate
    newQuestions := []
    knowledgeRevision := knowledge
    dependencyGraphRevision := graph }
  pc := .phase1
  plan := plan
  owner := owner

namespace Registry

def setQuestion (questions : QuestionId → Option QuestionState) (q : QuestionId)
    (state : QuestionState) : QuestionId → Option QuestionState :=
  fun q' => if q' = q then some state else questions q'

/-- `list_nonterminal`. -/
def hasOpenSession (w : Registry) : Bool :=
  w.records.any fun r => r.node.db.session.any fun s => !s.state.isTerminal

/-- The node as its next transaction reads it. -/
def loaded (w : Registry) (r : SessionRecord) : Node :=
  { r.node with db := { r.node.db with
    question := (r.selected.bind w.questions).getD .candidate } }

/-- The transaction commits phase 1. -/
def endsPhase1 : NodeEvent → Bool
  | .reachCommitting .. | .finishEarly .. => true
  | _ => false

/-- The selection the ends of phase 1 go with: no question, or the operator's abort and
the commit boundary behind one. -/
def selectionFits (selected : Option QuestionId) : NodeEvent → Bool
  | .reachCommitting .. => selected.isSome
  | .finishEarly state _ _ _ =>
    (state = .failed ∧ selected = none) ∨ (state = .cancelled ∧ selected.isSome)
  | _ => true

/-- The question column of the session's question, if it took one. -/
def writeQuestion (questions : QuestionId → Option QuestionState)
    (selected : Option QuestionId) (state : QuestionState) :
    QuestionId → Option QuestionState :=
  match selected with
  | some q => setQuestion questions q state
  | none => questions

/-- The questions after a transaction of the record that left `node`. -/
def questionsAfter (w : Registry) (r : SessionRecord) (e : NodeEvent) (node : Node) :
    QuestionId → Option QuestionState :=
  if endsPhase1 e then
    writeQuestion (r.deferred.foldl (fun qs q => setQuestion qs q .deferred) w.questions)
      r.selected .researching
  else writeQuestion w.questions r.selected node.db.question

/-- One event. -/
def step (w : Registry) : RegistryEvent → Option Registry
  | .intake q =>
    if w.questions q = none then
      some { w with questions := setQuestion w.questions q .candidate }
    else none
  | .start owner final claims reason now knowledge graph =>
    if h : final.isTerminal = true ∧ final ≠ .cancelled then
      if w.hasOpenSession then none
      else
        let plan := ⟨final, h.1, h.2, reason, some (questionTerminal final claims)⟩
        some { w with
          records := w.records ++ [⟨admittedNode owner plan now knowledge graph, none, []⟩] }
    else none
  | .select i q =>
    match w.records[i]? with
    | some r =>
      if r.node.pc = .phase1 ∧ r.node.db.session = none ∧
          w.questions q = some .candidate then
        some { w with records := w.records.set i { r with selected := some q } }
      else none
    | none => none
  | .putOff i =>
    match w.records[i]? with
    | some r =>
      match r.selected with
      | some q =>
        if r.node.pc = .phase1 ∧ r.node.db.session = none then
          some { w with
            records := w.records.set i { r with selected := none, deferred := q :: r.deferred } }
        else none
      | none => none
    | none => none
  | .session i e =>
    match w.records[i]? with
    | some r =>
      if selectionFits r.selected e then
        (nodeStep (w.loaded r) e).map fun node =>
          { questions := w.questionsAfter r e node
            records := w.records.set i { r with node := node } }
      else none
    | none => none

/-- No session has begun. -/
structure Initial (w : Registry) : Prop where
  records : w.records = []
  questions : ∀ q, w.questions q ≠ some .researching

end Registry

/-! ## The property -/

/-- The session is open and has taken the question. -/
def SessionRecord.Researches (r : SessionRecord) (q : QuestionId) : Prop :=
  r.selected = some q ∧ ∃ s, r.node.db.session = some s ∧ s.state.isTerminal = false

namespace Registry

/-- **No question is stranded**: what is being researched has an open session. -/
def NoneStranded (w : Registry) : Prop :=
  ∀ q, w.questions q = some .researching →
    ∃ (i : Nat) (r : SessionRecord), w.records[i]? = some r ∧ r.Researches q

end Registry

/-! ## The condition -/

/-- The transaction ends an open session without a commit, as far as the state before it
tells: the operator's abort, a fenced abort, a failed prepare, a resolved exception, a
reconciled session. -/
def EndsUnanswered (n : Node) : NodeEvent → Prop
  | .finishEarly state _ _ _ => state = .cancelled
  | .abortSession _ => ∃ s, n.db.session = some s ∧ s.state = .committing
  | .finalize _ answer => answer ≠ .rolledBack ∧ n.plan.terminal = .failed ∧
      ∃ id s a, n.pc = .phase3 id ∧ n.db.session = some s ∧ n.db.attempt? id = some a ∧
        fence n.db s a n.owner = none
  | .resolveFailedFinalize _ => ∃ s, n.db.session = some s ∧ s.state.isTerminal = false
  | .driverReconcile locks | .reconcile locks => FailsSession locks n.db
  | _ => False

/-- Another open session has taken the question. -/
def Registry.ResearchedElsewhere (w : Registry) (i : Nat) (q : QuestionId) : Prop :=
  ∃ (j : Nat) (r : SessionRecord), j ≠ i ∧ w.records[j]? = some r ∧ r.Researches q

/-- **The condition.** A session ends without a commit only when its question, as the
transaction leaves it, is not being researched or another open session has it too. -/
def KeepsResearcher (w : Registry) : RegistryEvent → Prop
  | .session i e => ∀ r q, w.records[i]? = some r → r.selected = some q →
      EndsUnanswered (w.loaded r) e →
      Registry.endsPhase1 e = true ∨ w.questions q = some .researching →
      w.ResearchedElsewhere i q
  | _ => True

/-! ## What one transaction does to its session and its question -/

/-- The session stays open. -/
def StaysOpen (db db' : CommitDb) : Prop :=
  ∀ s, db.session = some s → s.state.isTerminal = false →
    ∃ s', db'.session = some s' ∧ s'.state.isTerminal = false

theorem StaysOpen.refl (db : CommitDb) : StaysOpen db db := fun s hs ho => ⟨s, hs, ho⟩

theorem StaysOpen.of_state {db db' : CommitDb} {s s' : Session} (hs : db.session = some s)
    (hs' : db'.session = some s') (hstate : s'.state = s.state) : StaysOpen db db' := by
  intro t ht hopen
  obtain rfl := Option.some.inj (hs.symm.trans ht)
  exact ⟨s', hs', by rwa [hstate]⟩

theorem StaysOpen.of_none {db db' : CommitDb} (hs : db.session = none) :
    StaysOpen db db' := by
  intro s hs' _
  rw [hs] at hs'
  cases hs'

/-- The intent is recorded on the session. -/
theorem prepare_question {db db' : CommitDb} {id : AttemptId} (hp : prepare db id = some db')
    (answer : CommitAnswer) :
    (answer.rows db db').question = db.question ∧ StaysOpen db (answer.rows db db') := by
  obtain ⟨s, a, hs, -, -, -, rfl⟩ := prepare_some hp
  cases answer with
  | received => exact ⟨rfl, .of_state hs rfl rfl⟩
  | lost => exact ⟨rfl, .of_state hs rfl rfl⟩
  | rolledBack => exact ⟨rfl, .refl _⟩

/-- The abort ends a session that was committing. -/
theorem abortSession_question (db : CommitDb) (reason : String) :
    (abortSession db reason).question = db.question ∧
      ((∃ s, db.session = some s ∧ s.state = .committing) ∨
        StaysOpen db (abortSession db reason)) := by
  cases hs : db.session with
  | none => exact ⟨by simp [abortSession, hs], .inr (.of_none hs)⟩
  | some s =>
    by_cases hc : s.state = .committing
    · exact ⟨by simp [abortSession, hs, hc], .inl ⟨s, rfl, hc⟩⟩
    · refine ⟨by simp [abortSession, hs, hc], .inr (@StaysOpen.of_state _ _ s s hs ?_ rfl)⟩
      simp [abortSession, hs, hc]

/-- The failure of a finalize ends a session that was open. -/
theorem resolveFailedFinalize_question (db : CommitDb) (id : AttemptId) (reason : String) :
    (resolveFailedFinalize db id reason).question = db.question ∧
      ((∃ s, db.session = some s ∧ s.state.isTerminal = false) ∨
        StaysOpen db (resolveFailedFinalize db id reason)) := by
  cases hs : db.session with
  | none =>
    exact ⟨by simp [resolveFailedFinalize, markFailed, hs], .inr (.of_none hs)⟩
  | some s =>
    cases hterm : s.state.isTerminal with
    | false =>
      exact ⟨by simp [resolveFailedFinalize, markFailed, hs, hterm], .inl ⟨s, rfl, hterm⟩⟩
    | true =>
      refine ⟨by simp [resolveFailedFinalize, markFailed, hs, hterm],
        .inr (@StaysOpen.of_state _ _ s s hs ?_ rfl)⟩
      simp [resolveFailedFinalize, markFailed, hs, hterm]

/-- A finalize answers the question, unless it refuses, fails the session or is taken back. -/
theorem finalize_question {plan : CommitPlan} {owner : Owner} {memory : MemoryOutcome}
    {db db' : CommitDb} {id : AttemptId} {r : FinalizeResult}
    (hplan : ∃ st, plan.questionTerminal = some st ∧ st ≠ .researching)
    (hf : finalize plan owner memory db id = some (r, db')) (answer : CommitAnswer) :
    (answer.rows db db').question ≠ .researching ∨
      (answer.rows db db').question = db.question ∧
        ((answer ≠ .rolledBack ∧ plan.terminal = .failed ∧ ∃ s a, db.session = some s ∧
          db.attempt? id = some a ∧ fence db s a owner = none) ∨
        StaysOpen db (answer.rows db db')) := by
  by_cases hanswer : answer = .rolledBack
  · subst hanswer
    exact .inr ⟨rfl, .inr (.refl _)⟩
  · have hrows : answer.rows db db' = db' := by
      cases answer with
      | received => rfl
      | lost => rfl
      | rolledBack => exact absurd rfl hanswer
    rw [hrows]
    rcases finalize_cases hf with ⟨-, rfl⟩ | ⟨s, a, hs, ha, hfence, hcase⟩
    · exact .inr ⟨rfl, .inr (.refl _)⟩
    · rcases hcase with ⟨hterminal, -, rfl⟩ | ⟨-, added, -, happly⟩
      · exact .inr ⟨rfl, .inl ⟨hanswer, hterminal, s, a, hs, ha, hfence⟩⟩
      · obtain ⟨-, s', -, -, -, -, hq⟩ :=
          applyCommit_some (List.mem_of_find?_eq_some ha) happly
        obtain ⟨st, hst, hne⟩ := hplan
        refine .inl ?_
        rw [hq, hst]
        show (if st = .verified ∧ recordedClaims db.staging = 0 then
          QuestionState.partiallyAnswered else st) ≠ _
        split
        · simp
        · exact hne

/-- **What a transaction past phase 1 does.** It answers the question, or keeps its
state and either ends the session unanswered or leaves it open. -/
theorem nodeStep_question {n n' : Node} {e : NodeEvent}
    (hplan : ∃ st, n.plan.questionTerminal = some st ∧ st ≠ .researching)
    (he : Registry.endsPhase1 e = false) (h : nodeStep n e = some n') :
    n'.db.question ≠ .researching ∨
      n'.db.question = n.db.question ∧ (EndsUnanswered n e ∨ StaysOpen n.db n'.db) := by
  cases hd : e.isDriver with
  | false =>
    obtain ⟨hstep, -, -⟩ := nodeStep_others hd h
    refine .inr ⟨hstep.question, ?_⟩
    by_cases hfails : e.Fails n.db
    · refine .inl ?_
      cases e <;> first
        | exact hfails
        | exact hfails.elim
    · refine .inr fun s hs hopen => ?_
      obtain ⟨s', hs', -, hcase⟩ := hstep.kept s hs
      rcases hcase with heq | ⟨hf, -⟩
      · exact ⟨s', hs', by rwa [heq]⟩
      · exact absurd hf hfails
  | true =>
    cases e with
    | reachCommitting => cases he
    | finishEarly => cases he
    | prepare id answer =>
      simp only [nodeStep] at h
      split at h
      · cases hp : prepare n.db id with
        | none =>
          simp only [hp] at h
          obtain rfl := Option.some.inj h
          exact .inr ⟨rfl, .inr (.refl _)⟩
        | some db' =>
          simp only [hp] at h
          obtain rfl := Option.some.inj h
          obtain ⟨hquestion, hopen⟩ := prepare_question hp answer
          exact .inr ⟨hquestion, .inr hopen⟩
      · cases h
    | abortSession reason =>
      simp only [nodeStep] at h
      split at h
      · obtain rfl := Option.some.inj h
        exact .inr (abortSession_question n.db reason)
      · cases h
    | finalize memory answer =>
      simp only [nodeStep] at h
      split at h
      · rename_i id hpc
        cases hf : finalize n.plan n.owner memory n.db id with
        | none =>
          simp only [hf] at h
          obtain rfl := Option.some.inj h
          exact .inr ⟨rfl, .inr (.refl _)⟩
        | some p =>
          obtain ⟨result, db'⟩ := p
          simp only [hf] at h
          obtain rfl := Option.some.inj h
          rcases finalize_question hplan hf answer with hanswered | ⟨hquestion, hends | hopen⟩
          · exact .inl hanswered
          · obtain ⟨hanswer, hterminal, s, a, hs, ha, hfence⟩ := hends
            exact .inr ⟨hquestion, .inl ⟨hanswer, hterminal, id, s, a, hpc, hs, ha, hfence⟩⟩
          · exact .inr ⟨hquestion, .inr hopen⟩
      · cases h
    | resolveFailedFinalize reason =>
      simp only [nodeStep] at h
      split at h
      · rename_i id hpc
        obtain rfl := Option.some.inj h
        exact .inr (resolveFailedFinalize_question n.db id reason)
      · cases h
    | driverReconcile locks =>
      simp only [nodeStep] at h
      split at h
      · obtain rfl := Option.some.inj h
        refine .inr ?_
        by_cases hfails : FailsSession locks n.db
        · have hstep : OthersStep True n.db (reconcileTx locks n.db) :=
            .reconcileTx fun _ => trivial
          exact ⟨hstep.question, .inl hfails⟩
        · rw [reconcileTx_of_not_fails hfails]
          exact ⟨rfl, .inr (.refl _)⟩
      · cases h
    | crash => cases hd
    | reconcile locks => cases hd
    | wait delay => cases hd
    | acquireLease owner ttl deadline => cases hd
    | heartbeat owner ttl => cases hd
    | releaseLease owner => cases hd
    | revise knowledge graph => cases hd

/-! ## The invariant -/

namespace Registry

/-- Every plan answers its question. -/
def PlansAnswer (w : Registry) : Prop :=
  ∀ (i : Nat) (r : SessionRecord), w.records[i]? = some r →
    ∃ st, r.node.plan.questionTerminal = some st ∧ st ≠ .researching

structure Inv (w : Registry) : Prop where
  plans : w.PlansAnswer
  researched : w.NoneStranded

theorem Inv.initial {w : Registry} (h : w.Initial) : Inv w where
  plans := fun i r hr => by simp [h.records] at hr
  researched := fun q hq => absurd hq (h.questions q)

@[simp] theorem setQuestion_same (questions : QuestionId → Option QuestionState)
    (q : QuestionId) (state : QuestionState) : setQuestion questions q state q = some state := by
  simp [setQuestion]

theorem setQuestion_other (questions : QuestionId → Option QuestionState)
    {q q' : QuestionId} (state : QuestionState) (hne : q' ≠ q) :
    setQuestion questions q state q' = questions q' := if_neg hne

/-- Deferring questions brings none under research. -/
theorem researching_of_deferred {questions : QuestionId → Option QuestionState}
    (qs : List QuestionId) {q : QuestionId}
    (h : qs.foldl (fun questions q => setQuestion questions q .deferred) questions q =
      some .researching) : questions q = some .researching := by
  induction qs generalizing questions with
  | nil => exact h
  | cons q' qs ih =>
    have hset : setQuestion questions q' .deferred q = some .researching := ih h
    unfold setQuestion at hset
    split at hset
    · cases hset
    · exact hset

/-- A record that changes loses no other record's question. -/
theorem NoneStranded.set {w : Registry} {i : Nat} {r : SessionRecord}
    {questions : QuestionId → Option QuestionState} (h : w.NoneStranded) (r' : SessionRecord)
    (hr : w.records[i]? = some r)
    (hq : ∀ q, questions q = some .researching → r'.Researches q ∨
      w.ResearchedElsewhere i q ∨ (w.questions q = some .researching ∧ ¬ r.Researches q)) :
    NoneStranded ⟨questions, w.records.set i r'⟩ := by
  intro q hresearching
  have helse : ∀ (j : Nat) (r₁ : SessionRecord), j ≠ i → w.records[j]? = some r₁ →
      (w.records.set i r')[j]? = some r₁ := by
    intro j r₁ hne hj
    rw [List.getElem?_set_ne (Ne.symm hne)]
    exact hj
  rcases hq q hresearching with hown | ⟨j, r₁, hne, hj, hopen⟩ | ⟨hbefore, hnot⟩
  · refine ⟨i, r', ?_, hown⟩
    show (w.records.set i r')[i]? = _
    rw [List.getElem?_set_self (List.getElem?_eq_some_iff.mp hr).1]
  · exact ⟨j, r₁, helse j r₁ hne hj, hopen⟩
  · obtain ⟨j, r₁, hj, hopen⟩ := h q hbefore
    by_cases hne : j = i
    · subst hne
      obtain rfl := Option.some.inj (hr.symm.trans hj)
      exact absurd hopen hnot
    · exact ⟨j, r₁, helse j r₁ hne hj, hopen⟩

theorem PlansAnswer.set {w : Registry} {i : Nat} {r r' : SessionRecord}
    {questions : QuestionId → Option QuestionState} (h : w.PlansAnswer)
    (hr : w.records[i]? = some r) (hplan : r'.node.plan = r.node.plan) :
    PlansAnswer ⟨questions, w.records.set i r'⟩ := by
  intro j r₁ hj
  by_cases hne : j = i
  · subst hne
    have hset : (w.records.set j r')[j]? = some r' :=
      List.getElem?_set_self (List.getElem?_eq_some_iff.mp hr).1
    obtain rfl := Option.some.inj (hset.symm.trans hj)
    rw [hplan]
    exact h j r hr
  · refine h j r₁ ?_
    have hset : (w.records.set i r')[j]? = some r₁ := hj
    rwa [List.getElem?_set_ne (Ne.symm hne)] at hset

end Registry

theorem nodeStep_plan {n n' : Node} {e : NodeEvent} (h : nodeStep n e = some n') :
    n'.plan = n.plan := by
  cases hd : e.isDriver with
  | false => exact (nodeStep_others hd h).2.2
  | true =>
    cases e <;> simp only [nodeStep] at h
    case reachCommitting =>
      split at h
      · obtain rfl := Option.some.inj h
        rfl
      · cases h
    case finishEarly =>
      split at h
      · obtain rfl := Option.some.inj h
        rfl
      · cases h
    case prepare =>
      split at h
      · split at h
        · obtain rfl := Option.some.inj h
          rfl
        · obtain rfl := Option.some.inj h
          rfl
      · cases h
    case abortSession =>
      split at h
      · obtain rfl := Option.some.inj h
        rfl
      · cases h
    case finalize =>
      split at h
      · split at h
        · obtain rfl := Option.some.inj h
          rfl
        · obtain rfl := Option.some.inj h
          rfl
      · cases h
    case resolveFailedFinalize =>
      split at h
      · obtain rfl := Option.some.inj h
        rfl
      · cases h
    case driverReconcile =>
      split at h
      · obtain rfl := Option.some.inj h
        rfl
      · cases h
    all_goals cases hd

namespace Registry

/-- A transaction of a session. -/
theorem Inv.session {w w' : Registry} {i : Nat} {e : NodeEvent} (h : w.Inv)
    (hg : KeepsResearcher w (.session i e)) (hs : w.step (.session i e) = some w') :
    w'.Inv := by
  simp only [step] at hs
  split at hs
  case h_2 => cases hs
  rename_i r hr
  split at hs
  case isFalse => cases hs
  rename_i hfits
  obtain ⟨node, hn, rfl⟩ := Option.map_eq_some_iff.mp hs
  have hplan : node.plan = (w.loaded r).plan := nodeStep_plan hn
  refine ⟨h.plans.set hr hplan, h.researched.set _ hr ?_⟩
  intro q hq
  unfold questionsAfter at hq
  cases he : endsPhase1 e with
  | false =>
    simp only [he, Bool.false_eq_true, if_false] at hq
    cases hsel : r.selected with
    | none =>
      simp only [hsel, writeQuestion] at hq
      refine .inr (.inr ⟨hq, fun hopen => ?_⟩)
      rw [SessionRecord.Researches, hsel] at hopen
      cases hopen.1
    | some q₀ =>
      simp only [hsel, writeQuestion] at hq
      by_cases hqq : q = q₀
      · subst hqq
        rw [setQuestion_same] at hq
        -- the session's own question
        have hplan : ∃ st, (w.loaded r).plan.questionTerminal = some st ∧
            st ≠ .researching := h.plans i r hr
        rcases nodeStep_question hplan he hn with hne | ⟨hsame, hends⟩
        · exact absurd (Option.some.inj hq) hne
        · have hbefore : w.questions q = some .researching := by
            have hload : (w.loaded r).db.question = .researching :=
              hsame.symm.trans (Option.some.inj hq)
            simp only [loaded, hsel, Option.bind_some] at hload
            cases hw : w.questions q with
            | none => simp [hw] at hload
            | some st =>
              simp only [hw, Option.getD_some] at hload
              rw [hload]
          rcases hends with hends | hopen
          · exact .inr (.inl (hg r q hr hsel hends (.inr hbefore)))
          · by_cases hown : r.Researches q
            · obtain ⟨-, s, hsess, ho⟩ := hown
              obtain ⟨s', hs', ho'⟩ := hopen s hsess ho
              exact .inl ⟨rfl, s', hs', ho'⟩
            · exact .inr (.inr ⟨hbefore, hown⟩)
      · rw [setQuestion_other _ _ hqq] at hq
        refine .inr (.inr ⟨hq, fun hopen => hqq ?_⟩)
        exact Option.some.inj (hopen.1.symm.trans hsel)
  | true =>
    simp only [he, if_true] at hq
    -- before its end, phase 1 has no row of its own
    have hnew : (w.loaded r).db.session = none := by
      cases e <;> simp only [endsPhase1, nodeStep] at he hn
      case reachCommitting =>
        split at hn
        · rename_i hc
          exact hc.2.1
        · cases hn
      case finishEarly =>
        split at hn
        · rename_i hc
          exact hc.2.1
        · cases hn
      all_goals cases he
    have hnot : ∀ q', ¬ r.Researches q' := by
      intro q' hopen
      obtain ⟨-, s, hsess, -⟩ := hopen
      have hrow : r.node.db.session = none := hnew
      rw [hrow] at hsess
      cases hsess
    cases hsel : r.selected with
    | none =>
      simp only [hsel, writeQuestion] at hq
      exact .inr (.inr ⟨researching_of_deferred _ hq, hnot q⟩)
    | some q₀ =>
      simp only [hsel, writeQuestion] at hq
      by_cases hqq : q = q₀
      · subst hqq
        cases e <;> simp only [endsPhase1, nodeStep] at he hn
        case reachCommitting =>
          split at hn
          · obtain rfl := Option.some.inj hn
            exact .inl ⟨rfl, _, rfl, rfl⟩
          · cases hn
        case finishEarly state staging ttl reason =>
          have hcancelled : state = .cancelled := by
            simp only [selectionFits, hsel, Bool.decide_or, Bool.decide_and] at hfits
            simpa using hfits
          exact .inr (.inl (hg r q hr hsel hcancelled (.inl rfl)))
        all_goals cases he
      · rw [setQuestion_other _ _ hqq] at hq
        exact .inr (.inr ⟨researching_of_deferred _ hq, hnot q⟩)

theorem Inv.step {w w' : Registry} {e : RegistryEvent} (h : w.Inv)
    (hg : KeepsResearcher w e) (hs : w.step e = some w') : w'.Inv := by
  cases e with
  | intake q =>
    simp only [Registry.step] at hs
    split at hs
    · obtain rfl := Option.some.inj hs
      refine ⟨h.plans, fun q' hq' => h.researched q' ?_⟩
      have hset : setQuestion w.questions q .candidate q' = some .researching := hq'
      unfold setQuestion at hset
      split at hset
      · cases hset
      · exact hset
    · cases hs
  | start owner final claims reason now knowledge graph =>
    simp only [Registry.step] at hs
    split at hs
    · split at hs
      · cases hs
      · obtain rfl := Option.some.inj hs
        constructor
        · intro i r hr
          rcases Nat.lt_or_ge i w.records.length with hlt | hge
          · exact h.plans i r (by rwa [List.getElem?_append_left hlt] at hr)
          · rw [List.getElem?_append_right hge] at hr
            obtain ⟨hlast, rfl⟩ := List.getElem?_eq_some_iff.mp hr
            have hzero : i - w.records.length = 0 := by
              simp only [List.length_singleton] at hlast
              omega
            refine ⟨questionTerminal final claims, ?_, ?_⟩
            · simp only [hzero, List.getElem_cons_zero]
              rfl
            · unfold questionTerminal
              split
              · simp
              · simp
        · intro q hq
          obtain ⟨i, r, hr, hopen⟩ := h.researched q hq
          refine ⟨i, r, ?_, hopen⟩
          show (w.records ++ _)[i]? = _
          rw [List.getElem?_append_left (List.getElem?_eq_some_iff.mp hr).1]
          exact hr
    · cases hs
  | select i q =>
    simp only [Registry.step] at hs
    split at hs
    · rename_i r hr
      split at hs
      · rename_i hc
        obtain rfl := Option.some.inj hs
        refine ⟨h.plans.set hr rfl, h.researched.set _ hr fun q' hq' => ?_⟩
        refine .inr (.inr ⟨hq', fun hopen => ?_⟩)
        obtain ⟨-, s, hsess, -⟩ := hopen
        rw [hc.2.1] at hsess
        cases hsess
      · cases hs
    · cases hs
  | putOff i =>
    simp only [Registry.step] at hs
    split at hs
    · rename_i r hr
      split at hs
      · split at hs
        · rename_i hc
          obtain rfl := Option.some.inj hs
          refine ⟨h.plans.set hr rfl, h.researched.set _ hr fun q' hq' => ?_⟩
          refine .inr (.inr ⟨hq', fun hopen => ?_⟩)
          obtain ⟨-, s, hsess, -⟩ := hopen
          rw [hc.2] at hsess
          cases hsess
        · cases hs
      · cases hs
    · cases hs
  | session i e => exact h.session hg hs

end Registry

/-- **No question is stranded.** In every run of the registry in which no session ends
without a commit over a question that only it researches, every question under research
has an open session. -/
theorem no_question_stranded {w₀ w : Registry} (h : w₀.Initial)
    (hrun : Run Registry.step KeepsResearcher w₀ w) : w.NoneStranded :=
  (hrun.invariant (Registry.Inv.initial h) fun hi hg hs => hi.step hg hs).researched

/-! ## The condition is exact -/

/-- After such a transaction the session is over and its question as it was. -/
theorem EndsUnanswered.ends {n n' : Node} {e : NodeEvent} (hends : EndsUnanswered n e)
    (h : nodeStep n e = some n') :
    n'.db.question = n.db.question ∧ n'.db.session.all (·.state.isTerminal) = true := by
  cases e <;> simp only [nodeStep] at h
  case finishEarly state staging ttl reason =>
    split at h
    · rename_i hc
      obtain rfl := Option.some.inj h
      exact ⟨rfl, hc.2.2.1⟩
    · cases h
  case abortSession reason =>
    split at h
    · obtain rfl := Option.some.inj h
      obtain ⟨s, hs, hc⟩ := hends
      exact ⟨by simp [abortSession, hs, hc],
        by simp [abortSession, hs, hc, Session.finish, SessionState.isTerminal]⟩
    · cases h
  case finalize memory answer =>
    obtain ⟨hanswer, hterminal, id, s, a, hpc, hs, ha, hfence⟩ := hends
    simp only [hpc, finalize, hs, ha, hfence, hterminal, if_true] at h
    obtain rfl := Option.some.inj h
    cases answer with
    | received => exact ⟨rfl, rfl⟩
    | lost => exact ⟨rfl, rfl⟩
    | rolledBack => exact absurd rfl hanswer
  case resolveFailedFinalize reason =>
    split at h
    · obtain rfl := Option.some.inj h
      obtain ⟨s, hs, ho⟩ := hends
      refine ⟨by simp [resolveFailedFinalize, markFailed, hs, ho], ?_⟩
      simp only [resolveFailedFinalize, markFailed, hs, ho, Bool.false_eq_true, if_false]
      rfl
    · cases h
  case driverReconcile locks =>
    split at h
    · obtain rfl := Option.some.inj h
      have hstep : OthersStep True n.db (reconcileTx locks n.db) :=
        .reconcileTx fun _ => trivial
      obtain ⟨s, hs, hst⟩ := Option.map_eq_some_iff.mp (FailsSession.session hends)
      exact ⟨hstep.question, by simp [hs, hst, SessionState.isTerminal]⟩
    · cases h
  case reconcile locks =>
    obtain rfl := Option.some.inj h
    have hstep : OthersStep True n.db (reconcileTx locks n.db) :=
      .reconcileTx fun _ => trivial
    obtain ⟨s, hs, hst⟩ := Option.map_eq_some_iff.mp (FailsSession.session hends)
    exact ⟨hstep.question, by simp [hs, hst, SessionState.isTerminal]⟩
  all_goals cases hends

/-- Conversely a transaction that breaks the condition strands the question. -/
theorem unanswered_strands {w w' : Registry} {i : Nat} {e : NodeEvent} {r : SessionRecord}
    {q : QuestionId} (hr : w.records[i]? = some r) (hsel : r.selected = some q)
    (hends : EndsUnanswered (w.loaded r) e)
    (hq : Registry.endsPhase1 e = true ∨ w.questions q = some .researching)
    (halone : ¬ w.ResearchedElsewhere i q) (hs : w.step (.session i e) = some w') :
    ¬ w'.NoneStranded := by
  simp only [Registry.step, hr] at hs
  split at hs
  case isFalse => cases hs
  obtain ⟨node, hn, rfl⟩ := Option.map_eq_some_iff.mp hs
  obtain ⟨hsame, hover⟩ := hends.ends hn
  intro hnone
  have hafter : w.questionsAfter r e node q = some .researching := by
    unfold Registry.questionsAfter
    cases he : Registry.endsPhase1 e with
    | true => simp [hsel, Registry.writeQuestion]
    | false =>
      rw [he] at hq
      have hbefore := hq.resolve_left (by simp)
      simp [hsel, Registry.writeQuestion, hsame, Registry.loaded, hbefore]
  obtain ⟨j, r', hj, hopen⟩ := hnone q hafter
  have hj : (w.records.set i { r with node := node })[j]? = some r' := hj
  by_cases hne : j = i
  · subst hne
    rw [List.getElem?_set_self (List.getElem?_eq_some_iff.mp hr).1] at hj
    obtain rfl := Option.some.inj hj
    obtain ⟨-, s, hsess, ho⟩ := hopen
    have hsess : node.db.session = some s := hsess
    rw [hsess] at hover
    simp [ho] at hover
  · rw [List.getElem?_set_ne (Ne.symm hne)] at hj
    exact halone ⟨j, r', hne, hj, hopen⟩

/-! ## Two runs -/

/-- One question in the queue, no session yet. -/
def quietRegistry : Registry := ⟨fun q => if q = 0 then some .candidate else none, []⟩

theorem quietRegistry_initial : quietRegistry.Initial := by
  refine ⟨rfl, fun q h => ?_⟩
  unfold quietRegistry at h
  dsimp only at h
  split at h <;> cases h

/-- A session takes question `0` to the commit boundary. -/
def takesQuestion : List RegistryEvent :=
  [.start "node-a" .succeeded 1 none 0 4 2, .select 0 0, .session 0 reachesCommitting,
    .session 0 (.prepare 1 .received)]

/-- The session commits and the question is verified. -/
theorem no_question_stranded_commit :
    ∃ w, exec Registry.step quietRegistry
        (takesQuestion ++ [.session 0 (.finalize (.ok 0) .received)]) = some w ∧
      w.questions 0 = some .verified ∧ w.NoneStranded := by
  refine ⟨_, rfl, rfl, ?_⟩
  refine no_question_stranded quietRegistry_initial ?_
  refine .snoc (e := .session 0 (.finalize (.ok 0) .received)) (.snoc
    (e := .session 0 (.prepare 1 .received)) (.snoc (e := .session 0 reachesCommitting)
    (.snoc (e := .select 0 0) (.snoc (e := .start "node-a" .succeeded 1 none 0 4 2) .nil
    trivial rfl) trivial rfl) ?_ rfl) ?_ rfl) ?_ rfl
  · intro r q _ _ hends
    cases hends
  · intro r q _ _ hends
    cases hends
  · intro r q hr _ hends
    obtain rfl := Option.some.inj hr
    cases hends.2.1

/-- The final transaction raises and is resolved: the session has failed, the question
stays under research, and no session has it. -/
theorem question_stranded : ¬ ∀ w₀ w : Registry, w₀.Initial →
    Run Registry.step anyStep w₀ w → w.NoneStranded := by
  intro h
  have hrun : ∃ w, exec Registry.step quietRegistry
      (takesQuestion ++ [.session 0 (.finalize (.error "rule_validation") .received),
        .session 0 (.resolveFailedFinalize "commit_boundary_error")]) = some w ∧
      w.questions 0 = some .researching ∧
      w.records.all (fun r => r.node.db.session.all (·.state.isTerminal)) = true :=
    ⟨_, rfl, rfl, rfl⟩
  obtain ⟨w, hexec, hq, hover⟩ := hrun
  have hinitial : quietRegistry.Initial := by
    refine ⟨rfl, fun q h => ?_⟩
    unfold quietRegistry at h
    dsimp only at h
    split at h <;> cases h
  obtain ⟨i, r, hr, -, s, hs, ho⟩ := h _ w hinitial (Run.of_exec _ hexec) 0 hq
  have hall := List.all_eq_true.mp hover r (List.mem_of_getElem? hr)
  rw [hs] at hall
  simp [ho] at hall

end Noezema.Commit
