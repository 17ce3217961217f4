import Noezema.Commit.Boundary
import Noezema.Explorer.Loop

/-! # From the loop to the commit

The plan of a session is read off the finished loop: the reason the model gave, normalized,
and the rows of `actions`. An action of unknown outcome makes the plan a failure, and the
final transaction of a failed plan applies nothing.
-/

namespace Noezema.Explorer

open Noezema.Lib
open Noezema.Memory (Text TextReader strip isSpace)
open Noezema.Cognition (Coverage)
open Noezema.Commit

/-! ## The reason -/

inductive CompleteReason where
  | goalReached
  | budgetExhausted
  | noProgress
  | blocked
  | operatorStop
deriving DecidableEq, Repr

def CompleteReason.value : CompleteReason → String
  | .goalReached => "goal_reached"
  | .budgetExhausted => "budget_exhausted"
  | .noProgress => "no_progress"
  | .blocked => "blocked"
  | .operatorStop => "operator_stop"

def allReasons : List CompleteReason :=
  [.goalReached, .budgetExhausted, .noProgress, .blocked, .operatorStop]

/-- `_REASON_SEPARATORS`: with the two dashes. -/
def isReasonSeparator (c : Char) : Bool :=
  c = ' ' || c = Char.ofNat 0x2014 || c = Char.ofNat 0x2013 || c = '-' || c = ':' || c = ';' ||
    c = ',' || c = '.' || c = '('

/-- `_REASON_OPENERS`. -/
def isReasonOpener (c : Char) : Bool := c = '"' || c = '\'' || c = Char.ofNat 0x60

/-- `_REASON_CLOSERS`. -/
def isReasonCloser (c : Char) : Bool := isReasonOpener c || c = '.'

/-- A token at the start, up to the end or a separator. -/
def startsWithToken (s token : Text) : Bool :=
  s = token || (token.isPrefixOf s && (s.drop token.length).head?.any isReasonSeparator)

section Plan

variable (t : UrlTables)

/-- `normalize_complete_reason`. The text is stripped, so that the two loops drop openers
and closers with the blanks between them. -/
def normalizeCompleteReason (reason : Option String) : Option CompleteReason :=
  match reason with
  | none => none
  | some reason =>
    let s := strip reason.toList
    let s := s.dropWhile fun c => isReasonOpener c || isSpace c
    let s := s.rdropWhile fun c => isReasonCloser c || isSpace c
    let s := t.lower s
    if s = [] then none else allReasons.find? fun r => startsWithToken s r.value.toList

/-- `final`, as `run_session` derives it. -/
def finalState (reason : Option String) (rows : List ActionRow) : SessionState :=
  let unknown := rows.any fun r => r.state = .outcomeUnknown
  if normalizeCompleteReason t reason = some .goalReached ∧ unknown = false then .succeeded
  else if unknown = false then .succeededPartial
  else .failed

theorem finalState_isTerminal (reason : Option String) (rows : List ActionRow) :
    (finalState t reason rows).isTerminal = true := by
  unfold finalState
  dsimp only
  split
  · rfl
  · split <;> rfl

theorem finalState_ne_cancelled (reason : Option String) (rows : List ActionRow) :
    finalState t reason rows ≠ .cancelled := by
  unfold finalState
  dsimp only
  split
  · simp
  · split <;> simp

/-- The `CommitPlan` of a finished loop with `claims` staged claims. -/
def sessionPlan (l : Loop) (claims : Nat) : CommitPlan where
  terminal := finalState t l.completeReason l.rows
  terminal_ok := finalState_isTerminal t l.completeReason l.rows
  not_cancelled := finalState_ne_cancelled t l.completeReason l.rows
  terminationReason :=
    if finalState t l.completeReason l.rows = .failed then some "unknown_action_outcome"
    else
      match normalizeCompleteReason t l.completeReason with
      | some reason => some reason.value
      | none => l.completeReason
  questionTerminal :=
    if finalState t l.completeReason l.rows = .succeeded ∧ 0 < claims then some .verified
    else some .partiallyAnswered

theorem finalState_failed {reason : Option String} {rows : List ActionRow} :
    finalState t reason rows = .failed ↔
      (rows.any fun r => r.state = .outcomeUnknown) = true := by
  unfold finalState
  cases (rows.any fun r => r.state = .outcomeUnknown) with
  | true => simp
  | false => by_cases h : normalizeCompleteReason t reason = some .goalReached <;> simp [h]

theorem finalState_succeeded {reason : Option String} {rows : List ActionRow}
    (h : finalState t reason rows = .succeeded) :
    normalizeCompleteReason t reason = some .goalReached ∧
      (rows.any fun r => r.state = .outcomeUnknown) = false := by
  unfold finalState at h
  dsimp only at h
  split at h
  · assumption
  · split at h <;> cases h

end Plan

/-! ## How a loop ends -/

/-- The reason of a loop is the model's own only when the loop ended with an accepted
completion, the named sources covered. -/
structure ReasonInv (l : Loop) : Prop where
  running : l.ending = none → l.completeReason = none
  reason : ∀ r, l.completeReason = some r → r = "operator_stop" ∨ r = "budget_exhausted" ∨
    (l.ending = some .completed ∧ l.coverage.all fun c => c.isComplete)

section Endings

variable {fl : FloatArith} {t : UrlTables} {rd : TextReader} {actors : Text → List String}
  {tracker : ActorSearchTracker} {coverage : Option Coverage} {maxSteps : Nat} {l : Loop}

theorem ReasonInv.of_none (h : l.completeReason = none) : ReasonInv l where
  running := fun _ => h
  reason := by
    intro r hr
    rw [h] at hr
    cases hr

theorem called_completeReason {u : Turn} {call : ToolCall} :
    (l.called fl t rd actors u call).completeReason = l.completeReason := by
  unfold Loop.called Loop.evaluated
  split
  · rfl
  · rfl
  · split
    · rfl
    · split
      · rfl
      · split
        · rfl
        · split <;> rfl

/-- The body of a loop that has no reason yet. -/
theorem body_reasonInv {u : Turn} (h : l.completeReason = none) :
    ReasonInv (l.body fl t rd actors u) := by
  unfold Loop.body
  split
  · exact .of_none h
  split
  · exact .of_none h
  split
  · exact ⟨fun hend => (nomatch hend), fun r hr => .inl (Option.some.inj hr).symm⟩
  split
  · exact .of_none h
  · unfold Loop.completed
    split
    · exact .of_none h
    · rename_i hcovered
      refine ⟨fun hend => (nomatch hend), fun r hr => .inr (.inr ⟨rfl, ?_⟩)⟩
      cases hcoverage : l.coverage with
      | none => rfl
      | some c => simpa [hcoverage] using hcovered
  · exact .of_none (called_completeReason.trans h)

theorem reason_run
    (h : Run (loopStep fl t rd actors maxSteps) anyStep (.start tracker coverage) l) :
    ReasonInv l := by
  refine h.invariant (I := ReasonInv) (.of_none rfl) ?_
  intro a b e hinv _ hs
  cases e with
  | turn u =>
    simp only [loopStep] at hs
    split at hs
    · rename_i hopen
      cases hs
      exact body_reasonInv (hinv.running hopen.1)
    · cases hs
  | exhaust =>
    rw [(loopStep_exhaust hs).2]
    exact ⟨fun hend => (by cases hend), fun r hr => .inr (.inl (Option.some.inj hr).symm)⟩

/-- A reason of ASCII letters that no opener or closer surrounds. -/
theorem normalizeCompleteReason_plain {r : String} (hascii : r.toList.all isAscii = true)
    (hstrip : strip r.toList = r.toList)
    (hopen : (r.toList.dropWhile fun c => isReasonOpener c || isSpace c) = r.toList)
    (hclose : (r.toList.rdropWhile fun c => isReasonCloser c || isSpace c) = r.toList) :
    normalizeCompleteReason t (some r) =
      if r.toList.map Char.toLower = [] then none
      else allReasons.find? fun k => startsWithToken (r.toList.map Char.toLower) k.value.toList := by
  simp only [normalizeCompleteReason, hstrip, hopen, hclose,
    t.lower_ascii _ (List.all_eq_true.mp hascii)]

/-- The host's own reasons are no success. -/
theorem host_reason_not_goal {r : String} (h : r = "operator_stop" ∨ r = "budget_exhausted") :
    normalizeCompleteReason t (some r) ≠ some .goalReached := by
  rcases h with rfl | rfl
  · rw [normalizeCompleteReason_plain (by decide) (by decide) (by decide) (by decide)]
    decide
  · rw [normalizeCompleteReason_plain (by decide) (by decide) (by decide) (by decide)]
    decide

/-- **A session succeeds only on an accepted answer with known outcomes, and an unknown
outcome publishes nothing**: the plan of a finished run is a success only when the model's
completion named the goal and every named source was covered, and it is a failure just when
an executed action's outcome is unknown. The final transaction of such a plan leaves the
knowledge revision, the staging, the question and the new questions as they are. -/
theorem session_publishes_known_outcomes {claims : Nat} {owner : Owner} {memory : MemoryOutcome}
    {db db' : CommitDb} {id : AttemptId} {r : FinalizeResult}
    (h : Run (loopStep fl t rd actors maxSteps) anyStep (.start tracker coverage) l)
    (hfin : finalize (sessionPlan t l claims) owner memory db id = some (r, db')) :
    ((sessionPlan t l claims).terminal = .succeeded →
        normalizeCompleteReason t l.completeReason = some .goalReached ∧
          l.ending = some .completed ∧ (l.coverage.all fun c => c.isComplete) = true ∧
          ∀ e ∈ l.executed, e.obs.resultUnknown = false) ∧
      ((sessionPlan t l claims).terminal = .failed ↔
        ∃ e ∈ l.executed, e.obs.resultUnknown = true) ∧
      ((∃ e ∈ l.executed, e.obs.resultUnknown = true) → r.knowledgeRevision = none ∧
        db'.knowledgeRevision = db.knowledgeRevision ∧
        db'.dependencyGraphRevision = db.dependencyGraphRevision ∧
        db'.staging = db.staging ∧ db'.question = db.question ∧
        db'.newQuestions = db.newQuestions) := by
  have hunknown_iff := unknown_iff_run h
  have hfailed : (sessionPlan t l claims).terminal = .failed ↔
      ∃ e ∈ l.executed, e.obs.resultUnknown = true :=
    (finalState_failed t).trans hunknown_iff
  refine ⟨fun hsucceeded => ?_, hfailed, fun hunknown => ?_⟩
  · obtain ⟨hgoal, hknown⟩ := finalState_succeeded t hsucceeded
    refine ⟨hgoal, ?_⟩
    have hnone : ∀ e ∈ l.executed, e.obs.resultUnknown = false := by
      intro e he
      by_contra hunknown
      have hrow := hunknown_iff.mpr ⟨e, he, by simpa using hunknown⟩
      rw [hknown] at hrow
      cases hrow
    cases hreason : l.completeReason with
    | none =>
      rw [hreason] at hgoal
      cases hgoal
    | some reason =>
      rw [hreason] at hgoal
      rcases (reason_run h).reason reason hreason with hstop | hbudget | ⟨hend, hcovered⟩
      · exact absurd hgoal (host_reason_not_goal (.inl hstop))
      · exact absurd hgoal (host_reason_not_goal (.inr hbudget))
      · exact ⟨hend, hcovered, hnone⟩
  · have hplan := hfailed.mpr hunknown
    unfold finalize at hfin
    split at hfin
    · split at hfin
      · cases hfin
        exact ⟨rfl, rfl, rfl, rfl, rfl, rfl⟩
      · rw [if_pos hplan] at hfin
        cases hfin
        exact ⟨rfl, rfl, rfl, rfl, rfl, rfl⟩
    · cases hfin

/-- A database at the commit boundary, its attempt prepared. -/
def preparedDb : CommitDb where
  now := 0
  session := some
    { state := .committing
      leaseOwner := some "node-a"
      leaseExpiresAt := some 60
      phaseDeadline := none
      commitAttemptId := some 1
      commitIntentAt := some 0
      committedWorkspaceManifestId := none
      terminationReason := none }
  attempts := [⟨1, .prepared, none, 4, 2⟩]
  staging := [⟨.claim, .recorded, [], ""⟩]
  question := .researching
  newQuestions := []
  knowledgeRevision := 4
  dependencyGraphRevision := 2

/-- The run of three turns, whose second execution was lost, publishes nothing. -/
theorem session_publishes_known_outcomes_listing :
    ∃ l r db', exec (loopStep .exact asciiTables Memory.plainReaders.text (fun _ => []) 3)
        (.start ⟨[], ∅, none⟩ none) listingEvents = some l ∧
      finalize (sessionPlan asciiTables l 1) "node-a" (.ok 0) preparedDb 1 = some (r, db') ∧
      db'.knowledgeRevision = 4 := by
  obtain ⟨l, hl, hexecuted, -⟩ := listing_run
  have hunknown : ∃ e ∈ l.executed, e.obs.resultUnknown = true := by
    rw [hexecuted]
    exact ⟨_, List.mem_cons_of_mem _ List.mem_cons_self, rfl⟩
  have hrun := Run.of_exec _ hl
  have hfailed : (sessionPlan asciiTables l 1).terminal = .failed :=
    (finalState_failed _).mpr ((unknown_iff_run hrun).mpr hunknown)
  have hfin : ∃ r db', finalize (sessionPlan asciiTables l 1) "node-a" (.ok 0) preparedDb 1 =
      some (r, db') := by
    unfold finalize
    split
    · split
      · exact ⟨_, _, rfl⟩
      · exact ⟨_, _, if_pos hfailed⟩
    · rename_i hnone
      exact absurd rfl (hnone _ _ rfl)
  obtain ⟨r, db', hfin⟩ := hfin
  obtain ⟨-, -, hnothing⟩ := session_publishes_known_outcomes hrun hfin
  exact ⟨l, r, db', hl, hfin, (hnothing hunknown).2.1⟩

end Endings

end Noezema.Explorer
