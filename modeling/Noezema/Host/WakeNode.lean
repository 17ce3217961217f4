import Noezema.Host.WakeScheduler

/-! # The node's session lane

The wake tick, the evaluation series, the manual entry and the web's wake-now command
start sessions on one node. Each step below is one transaction or one lock operation of
one of them; steps of different entry points interleave freely.
-/

namespace Noezema.Host.Wake

open Noezema.Lib
open Noezema.Commit (SessionState)

/-! ## Entry points -/

/-- An invocation of an entry point. -/
inductive Caller where
  | tick (n : Nat)
  | evalRun (n : Nat)
  | manual (n : Nat)
  | web (n : Nat)
deriving DecidableEq, Repr

/-- What its `decide` is called with; the manual entry makes none. -/
def Caller.source : Caller → Option Source
  | .tick _ => some .scheduled
  | .evalRun _ | .web _ => some .wakeNow
  | .manual _ => none

/-- Where an invocation stands. `accounting` holds what `record_session_result` has
loaded: the schedule, the row and the node state. -/
inductive Stage where
  | idle
  | granted
  | holding
  | running
  | ended (final : SessionState)
  | accounting (final : SessionState) (schedule : WakeSchedule) (row : WakeState)
      (node : NodeState)

/-- One line of the node's history, newest first: an accounted session, or a resume. -/
inductive Accounted where
  | result (final : SessionState) (at_ : Nat) (schedule : WakeSchedule)
  | resumed

structure WakeNode where
  nodeState : NodeState
  wake : WakeState
  lane : Option Caller
  stage : Caller → Stage
  log : List Accounted

/-- A node nothing has run on. -/
def WakeNode.fresh : WakeNode := ⟨.idle, .fresh, none, fun _ => .idle, []⟩

def WakeNode.setStage (n : WakeNode) (c : Caller) (s : Stage) : WakeNode :=
  { n with stage := fun d => if d = c then s else n.stage d }

/-- The invocation is over; the lane is free again if it was its. -/
def WakeNode.leave (n : WakeNode) (c : Caller) : WakeNode :=
  { n.setStage c .idle with lane := if n.lane = some c then none else n.lane }

/-! ## Accounting -/

/-- The rules of `record_session_result`: the row, the node state it saves if it saves one,
and the state it returns. `none` where the delay cannot be computed. -/
def sessionResult (fp : FloatPow) (s : WakeSchedule) (final : SessionState) (now : Nat)
    (row : WakeState) (node : NodeState) : Option (WakeState × Option NodeState × NodeState) := do
  let row ← if final = .failed then do
      let failures := row.consecutiveFailures + 1
      let delay ← backoffDelaySeconds fp s failures
      some { row with
        consecutiveFailures := failures
        lastFailureAt := some now
        backoffUntil := some (now + seconds delay) }
    else some { row with consecutiveFailures := 0, backoffUntil := none, lastFailureAt := none }
  let row := { row with lastSessionFinishedAt := some now, lastSessionState := some final }
  if final = .failed ∧ s.maxConsecutiveFailures ≤ row.consecutiveFailures then
    if node ≠ .paused then
      some ({ row with pausedReason := some .consecutiveFailures }, some .paused, .paused)
    else some (row, none, .paused)
  else if node = .idle ∨ node = .sessionRunning then
    some ({ row with pausedReason := none }, some .idle, .idle)
  else some (row, none, .paused)

/-- A column is written when it differs from the loaded one. -/
def flushColumn {α : Type*} [DecidableEq α] (loaded new current : α) : α :=
  if new = loaded then current else new

/-- The `UPDATE` of the row: the changed columns of `new`, the others as they stand. -/
def WakeState.flush (loaded new current : WakeState) : WakeState where
  consecutiveFailures := flushColumn loaded.consecutiveFailures new.consecutiveFailures
    current.consecutiveFailures
  backoffUntil := flushColumn loaded.backoffUntil new.backoffUntil current.backoffUntil
  lastSessionFinishedAt := flushColumn loaded.lastSessionFinishedAt new.lastSessionFinishedAt
    current.lastSessionFinishedAt
  lastSessionState := flushColumn loaded.lastSessionState new.lastSessionState
    current.lastSessionState
  lastFailureAt := flushColumn loaded.lastFailureAt new.lastFailureAt current.lastFailureAt
  pausedReason := flushColumn loaded.pausedReason new.pausedReason current.pausedReason

theorem flushColumn_self {α : Type*} [DecidableEq α] (loaded new : α) :
    flushColumn loaded new loaded = new := by
  unfold flushColumn
  split
  · rename_i h
    exact h.symm
  · rfl

/-- Nobody wrote the row since it was loaded: the update is the new row. -/
theorem WakeState.flush_self (loaded new : WakeState) : loaded.flush new loaded = new := by
  simp only [WakeState.flush, flushColumn_self]

/-- `reset_failure_state`, and the two resume statements. -/
def WakeState.reset (row : WakeState) : WakeState :=
  { row with
    consecutiveFailures := 0
    backoffUntil := none
    lastFailureAt := none
    pausedReason := none }

/-! ## Steps -/

/-- `effective_node_state`. -/
def effectiveNodeState (raw : NodeState) (webOwnsSession dbHasNonterminal : Bool) : NodeState :=
  if raw = .sessionRunning ∧ !webOwnsSession ∧ !dbHasNonterminal then .idle else raw

/-- `marker`, `rejected` and `accounted` are the three writes of a run of an entry point:
the `session_running` upsert, the return on `ActivationInFlightError`, and the end of
`record_session_result`; `abandoned` is every other way out, a process that dies included. -/
inductive WakeEvent where
  | decided (c : Caller) (now : Nat) (cfg : WakeConfig) (facts : AdmissionFacts)
      (webOwnsSession : Bool)
  | acquired (c : Caller)
  | marker (c : Caller)
  | finished (c : Caller) (final : SessionState)
  | rejected (c : Caller)
  | loaded (c : Caller) (schedule : WakeSchedule)
  | accounted (c : Caller) (now : Nat)
  | abandoned (c : Caller)
  | pause (webOwnsSession dbHasNonterminal : Bool)
  | resume (webOwnsSession dbHasNonterminal : Bool)
  | evalResume

namespace WakeNode

variable (n : WakeNode)

/-- The web's command asks the node state before it decides. -/
def webRefuses (c : Caller) (webOwnsSession dbHasNonterminal : Bool) : Bool :=
  match c with
  | .web _ => effectiveNodeState n.nodeState webOwnsSession dbHasNonterminal ≠ .idle
  | _ => false

/-- The admission decision of an invocation. -/
def decided (c : Caller) (now : Nat) (cfg : WakeConfig) (facts : AdmissionFacts)
    (webOwnsSession : Bool) : Option WakeNode :=
  match n.stage c, c.source with
  | .idle, some source =>
    if n.webRefuses c webOwnsSession (0 < facts.nonterminal) then some n
    else
      match decideWake cfg facts source now n.wake n.nodeState with
      | .wake => some (n.setStage c .granted)
      | .wait _ | .skip _ _ => some n
  | _, _ => none

/-- `NodeSessionGuard.acquire`; the manual entry goes on to its session at once. -/
def acquired (c : Caller) : Option WakeNode :=
  match n.stage c, c with
  | .idle, .manual _ =>
    if n.lane = none then some { n.setStage c .running with lane := some c } else some n
  | .granted, _ =>
    if n.lane = none then some { n.setStage c .holding with lane := some c }
    else some (n.setStage c .idle)
  | _, _ => none

/-- The `session_running` upsert, whatever the node state is. -/
def marker (c : Caller) : Option WakeNode :=
  match n.stage c with
  | .holding => some { n.setStage c .running with nodeState := .sessionRunning }
  | _ => none

/-- The session task is over. The web gives the lane back here, before the accounting; the
manual entry accounts nothing. -/
def finished (c : Caller) (final : SessionState) : Option WakeNode :=
  match n.stage c, c with
  | .running, .manual _ => some (n.leave c)
  | .running, .web _ => some ((n.leave c).setStage c (.ended final))
  | .running, _ => some (n.setStage c (.ended final))
  | _, _ => none

/-- `ActivationInFlightError`: no accounting, except for the web, whose task has failed. -/
def rejected (c : Caller) : Option WakeNode :=
  match n.stage c, c with
  | .running, .web _ => some ((n.leave c).setStage c (.ended .failed))
  | .running, _ => some (n.leave c)
  | _, _ => none

def loaded (c : Caller) (schedule : WakeSchedule) : Option WakeNode :=
  match n.stage c with
  | .ended final => some (n.setStage c (.accounting final schedule n.wake n.nodeState))
  | _ => none

/-- The writes of `record_session_result`. -/
def accounted (fp : FloatPow) (c : Caller) (now : Nat) : Option WakeNode :=
  match n.stage c with
  | .accounting final schedule row node => do
    let (new, save, _) ← sessionResult fp schedule final now row node
    some { n.leave c with
      wake := row.flush new n.wake
      nodeState := save.getD n.nodeState
      log := .result final now schedule :: n.log }
  | _ => none

/-- The web command `pause`. -/
def pause (webOwnsSession dbHasNonterminal : Bool) : WakeNode :=
  match effectiveNodeState n.nodeState webOwnsSession dbHasNonterminal with
  | .idle =>
    { n with nodeState := .paused, wake := { n.wake with pausedReason := some .operator } }
  | .paused | .sessionRunning => n

/-- The resume statements. -/
def resumed : WakeNode :=
  { n with nodeState := .idle, wake := n.wake.reset, log := .resumed :: n.log }

/-- The web command `resume`. -/
def resume (webOwnsSession dbHasNonterminal : Bool) : WakeNode :=
  match effectiveNodeState n.nodeState webOwnsSession dbHasNonterminal with
  | .paused => n.resumed
  | .idle | .sessionRunning => n

end WakeNode

def wakeStep (fp : FloatPow) (n : WakeNode) : WakeEvent → Option WakeNode
  | .decided c now cfg facts owns => n.decided c now cfg facts owns
  | .acquired c => n.acquired c
  | .marker c => n.marker c
  | .finished c final => n.finished c final
  | .rejected c => n.rejected c
  | .loaded c schedule => n.loaded c schedule
  | .accounted c now => n.accounted fp c now
  | .abandoned c => some (n.leave c)
  | .pause owns nonterminal => some (n.pause owns nonterminal)
  | .resume owns nonterminal => some (n.resume owns nonterminal)
  | .evalResume => some n.resumed

/-- No write of the node state covers a pause it has not read: a marker finds the node
unpaused, and nothing the accounting has loaded changes before it writes. -/
def seesPause (n : WakeNode) : WakeEvent → Prop
  | .marker _ => n.nodeState ≠ .paused
  | .accounted c _ => ∀ final schedule row node,
      n.stage c = .accounting final schedule row node → row = n.wake ∧ node = n.nodeState
  | _ => True

/-! ## What a step does to the row, the node state and the log -/

inductive WakeMove (fp : FloatPow) (n n' : WakeNode) : WakeEvent → Prop where
  | kept {e : WakeEvent} : n'.nodeState = n.nodeState → n'.wake = n.wake → n'.log = n.log →
      WakeMove fp n n' e
  | marked (c : Caller) : n'.nodeState = .sessionRunning → n'.wake = n.wake →
      n'.log = n.log → WakeMove fp n n' (.marker c)
  | accounted {c : Caller} {final : SessionState} {s : WakeSchedule} {row new : WakeState}
      {node told : NodeState} {save : Option NodeState} {now : Nat} :
      n.stage c = .accounting final s row node →
      sessionResult fp s final now row node = some (new, save, told) →
      n'.nodeState = save.getD n.nodeState → n'.wake = row.flush new n.wake →
      n'.log = .result final now s :: n.log → WakeMove fp n n' (.accounted c now)
  | paused {e : WakeEvent} : n'.nodeState = .paused →
      n'.wake = { n.wake with pausedReason := some .operator } → n'.log = n.log →
      WakeMove fp n n' e
  | resumed {e : WakeEvent} : n'.wake = n.wake.reset → n'.log = .resumed :: n.log →
      WakeMove fp n n' e

section Moves

variable {fp : FloatPow} {n n' : WakeNode} {c : Caller}

theorem decided_kept {now : Nat} {cfg : WakeConfig} {facts : AdmissionFacts} {owns : Bool}
    (h : n.decided c now cfg facts owns = some n') :
    n'.nodeState = n.nodeState ∧ n'.wake = n.wake ∧ n'.log = n.log := by
  unfold WakeNode.decided at h
  split at h
  · split at h
    · cases h
      exact ⟨rfl, rfl, rfl⟩
    · split at h <;> cases h <;> exact ⟨rfl, rfl, rfl⟩
  · cases h

theorem acquired_kept (h : n.acquired c = some n') :
    n'.nodeState = n.nodeState ∧ n'.wake = n.wake ∧ n'.log = n.log := by
  unfold WakeNode.acquired at h
  split at h
  · split at h <;> cases h <;> exact ⟨rfl, rfl, rfl⟩
  · split at h <;> cases h <;> exact ⟨rfl, rfl, rfl⟩
  · cases h

theorem finished_kept {final : SessionState} (h : n.finished c final = some n') :
    n'.nodeState = n.nodeState ∧ n'.wake = n.wake ∧ n'.log = n.log := by
  unfold WakeNode.finished at h
  split at h <;> cases h <;> exact ⟨rfl, rfl, rfl⟩

theorem rejected_kept (h : n.rejected c = some n') :
    n'.nodeState = n.nodeState ∧ n'.wake = n.wake ∧ n'.log = n.log := by
  unfold WakeNode.rejected at h
  split at h <;> cases h <;> exact ⟨rfl, rfl, rfl⟩

theorem loaded_kept {s : WakeSchedule} (h : n.loaded c s = some n') :
    n'.nodeState = n.nodeState ∧ n'.wake = n.wake ∧ n'.log = n.log := by
  unfold WakeNode.loaded at h
  split at h
  · cases h
    exact ⟨rfl, rfl, rfl⟩
  · cases h

theorem marker_move (h : n.marker c = some n') : WakeMove fp n n' (.marker c) := by
  unfold WakeNode.marker at h
  split at h
  · cases h
    exact .marked c rfl rfl rfl
  · cases h

theorem accounted_move {now : Nat} (h : n.accounted fp c now = some n') :
    WakeMove fp n n' (.accounted c now) := by
  unfold WakeNode.accounted at h
  split at h
  · rename_i final s row node hstage
    obtain ⟨⟨new, save, told⟩, hresult, hn⟩ := Option.bind_eq_some_iff.mp h
    cases hn
    exact .accounted hstage hresult rfl rfl rfl
  · cases h

/-- Every step is one of the moves. -/
theorem wakeStep_moves {e : WakeEvent} (h : wakeStep fp n e = some n') :
    WakeMove fp n n' e := by
  cases e with
  | decided c now cfg facts owns =>
    obtain ⟨hnode, hwake, hlog⟩ := decided_kept h
    exact .kept hnode hwake hlog
  | acquired c =>
    obtain ⟨hnode, hwake, hlog⟩ := acquired_kept h
    exact .kept hnode hwake hlog
  | marker c => exact marker_move h
  | finished c final =>
    obtain ⟨hnode, hwake, hlog⟩ := finished_kept h
    exact .kept hnode hwake hlog
  | rejected c =>
    obtain ⟨hnode, hwake, hlog⟩ := rejected_kept h
    exact .kept hnode hwake hlog
  | loaded c s =>
    obtain ⟨hnode, hwake, hlog⟩ := loaded_kept h
    exact .kept hnode hwake hlog
  | accounted c now => exact accounted_move h
  | abandoned c =>
    cases h
    exact .kept rfl rfl rfl
  | pause owns nonterminal =>
    cases h
    unfold WakeNode.pause
    split
    · exact .paused rfl rfl rfl
    · exact .kept rfl rfl rfl
    · exact .kept rfl rfl rfl
  | resume owns nonterminal =>
    cases h
    unfold WakeNode.resume
    split
    · exact .resumed rfl rfl
    · exact .kept rfl rfl rfl
    · exact .kept rfl rfl rfl
  | evalResume =>
    cases h
    exact .resumed rfl rfl

end Moves

/-! ## The row is the summary of the log -/

/-- The failures in a row at the end of the log. -/
def streak : List Accounted → Nat
  | .result final _ _ :: rest => if final = .failed then streak rest + 1 else 0
  | .resumed :: _ => 0
  | [] => 0

/-- When the last accounted session ended. -/
def lastFinished : List Accounted → Option Nat
  | .result _ t _ :: _ => some t
  | .resumed :: rest => lastFinished rest
  | [] => none

/-- The row says what the log says. -/
structure Summarises (fp : FloatPow) (log : List Accounted) (row : WakeState) : Prop where
  failures : row.consecutiveFailures = streak log
  finished : row.lastSessionFinishedAt = lastFinished log
  window : ∀ t s rest, log = .result .failed t s :: rest →
    ∃ d, backoffDelaySeconds fp s (streak log) = some d ∧
      row.backoffUntil = some (t + seconds d)

/-- The last line of the log is the failure that reaches the limit it was accounted under. -/
def LimitReached (log : List Accounted) : Prop :=
  ∃ t s rest, log = .result .failed t s :: rest ∧ s.maxConsecutiveFailures ≤ streak log

structure WakeInv (fp : FloatPow) (n : WakeNode) : Prop where
  summary : Summarises fp n.log n.wake
  limit : LimitReached n.log → n.nodeState = .paused

theorem WakeInv.fresh (fp : FloatPow) : WakeInv fp .fresh where
  summary := ⟨rfl, rfl, fun _ _ _ h => nomatch h⟩
  limit := fun ⟨_, _, _, h, _⟩ => nomatch h

theorem Summarises.of_columns {fp : FloatPow} {log : List Accounted} {row row' : WakeState}
    (h : Summarises fp log row) (hfailures : row'.consecutiveFailures = row.consecutiveFailures)
    (hfinished : row'.lastSessionFinishedAt = row.lastSessionFinishedAt)
    (hwindow : row'.backoffUntil = row.backoffUntil) : Summarises fp log row' where
  failures := hfailures.trans h.failures
  finished := hfinished.trans h.finished
  window := by
    intro t s rest hlog
    rw [hwindow]
    exact h.window t s rest hlog

/-- A resume starts a new streak; the last session stays the last. -/
theorem Summarises.reset {fp : FloatPow} {log : List Accounted} {row : WakeState}
    (h : Summarises fp log row) : Summarises fp (.resumed :: log) row.reset where
  failures := rfl
  finished := h.finished
  window := fun _ _ _ hlog => nomatch hlog

/-- The columns of an accounted failure. -/
theorem sessionResult_failed {fp : FloatPow} {s : WakeSchedule} {now : Nat}
    {row new : WakeState} {node told : NodeState} {save : Option NodeState}
    (h : sessionResult fp s .failed now row node = some (new, save, told)) :
    (∃ d, backoffDelaySeconds fp s (row.consecutiveFailures + 1) = some d ∧
        new.backoffUntil = some (now + seconds d)) ∧
      new.consecutiveFailures = row.consecutiveFailures + 1 ∧
      new.lastSessionFinishedAt = some now ∧
      (s.maxConsecutiveFailures ≤ row.consecutiveFailures + 1 → save.getD node = .paused) := by
  cases hdelay : backoffDelaySeconds fp s (row.consecutiveFailures + 1) with
  | none => simp [sessionResult, hdelay] at h
  | some d =>
    simp only [sessionResult, if_true, hdelay, Option.bind_eq_bind, Option.bind_some,
      true_and] at h
    by_cases hlimit : s.maxConsecutiveFailures ≤ row.consecutiveFailures + 1
    · by_cases hnode : node = .paused
      · simp only [hlimit, hnode, if_true, ne_eq, not_true_eq_false, if_false,
          Option.some.injEq, Prod.mk.injEq] at h
        obtain ⟨rfl, rfl, rfl⟩ := h
        exact ⟨⟨d, rfl, rfl⟩, rfl, rfl, fun _ => hnode⟩
      · simp only [hlimit, hnode, if_true, ne_eq, not_false_eq_true, Option.some.injEq,
          Prod.mk.injEq] at h
        obtain ⟨rfl, rfl, rfl⟩ := h
        exact ⟨⟨d, rfl, rfl⟩, rfl, rfl, fun _ => rfl⟩
    · simp only [hlimit, if_false] at h
      split at h <;> cases h <;>
        exact ⟨⟨d, rfl, rfl⟩, rfl, rfl, fun hle => absurd hle hlimit⟩

/-- The columns of any other accounted session. -/
theorem sessionResult_kept {fp : FloatPow} {s : WakeSchedule} {final : SessionState}
    {now : Nat} {row new : WakeState} {node told : NodeState} {save : Option NodeState}
    (hfinal : final ≠ .failed)
    (h : sessionResult fp s final now row node = some (new, save, told)) :
    new.consecutiveFailures = 0 ∧ new.lastSessionFinishedAt = some now := by
  simp only [sessionResult, hfinal, if_false, Option.bind_eq_bind, Option.bind_some,
    false_and] at h
  split at h <;> cases h <;> exact ⟨rfl, rfl⟩

/-- **The step lemma.** -/
theorem WakeInv.step {fp : FloatPow} {n n' : WakeNode} {e : WakeEvent} (h : WakeInv fp n)
    (hsees : seesPause n e) (hs : wakeStep fp n e = some n') : WakeInv fp n' := by
  cases wakeStep_moves hs with
  | kept hnode hwake hlog =>
    constructor
    · rw [hlog, hwake]
      exact h.summary
    · rw [hlog, hnode]
      exact h.limit
  | marked c hnode hwake hlog =>
    constructor
    · rw [hlog, hwake]
      exact h.summary
    · -- the limit has paused the node, and this marker finds it unpaused
      rw [hlog]
      intro hlimit
      exact absurd (h.limit hlimit) hsees
  | accounted hstage hresult hnode hwake hlog =>
    obtain ⟨rfl, rfl⟩ := hsees _ _ _ _ hstage
    rw [WakeState.flush_self] at hwake
    rename_i final s new told save now
    by_cases hfinal : final = .failed
    · subst hfinal
      obtain ⟨⟨d, hd, hwindow⟩, hfailures, hfinished, hpaused⟩ := sessionResult_failed hresult
      have hstreak : streak n'.log = n.wake.consecutiveFailures + 1 := by
        rw [hlog, h.summary.failures]
        simp [streak]
      constructor
      · constructor
        · rw [hwake, hfailures, hstreak]
        · rw [hwake, hfinished, hlog]
          rfl
        · intro t s' rest heq
          rw [hlog] at heq
          cases heq
          rw [hstreak, hwake]
          exact ⟨d, hd, hwindow⟩
      · intro hlimit
        obtain ⟨t, s', rest, heq, hle⟩ := hlimit
        rw [hstreak] at hle
        rw [hlog] at heq
        cases heq
        rw [hnode]
        exact hpaused hle
    · obtain ⟨hfailures, hfinished⟩ := sessionResult_kept hfinal hresult
      constructor
      · constructor
        · rw [hwake, hfailures, hlog]
          simp [streak, hfinal]
        · rw [hwake, hfinished, hlog]
          rfl
        · intro t s' rest heq
          rw [hlog] at heq
          cases heq
          exact absurd rfl hfinal
      · intro hlimit
        obtain ⟨t, s', rest, heq, -⟩ := hlimit
        rw [hlog] at heq
        cases heq
        exact absurd rfl hfinal
  | paused hnode hwake hlog =>
    constructor
    · rw [hlog, hwake]
      exact h.summary.of_columns rfl rfl rfl
    · intro _
      exact hnode
  | resumed hwake hlog =>
    constructor
    · rw [hlog, hwake]
      exact h.summary.reset
    · intro hlimit
      obtain ⟨t, s, rest, heq, -⟩ := hlimit
      rw [hlog] at heq
      cases heq

theorem wakeInv_run {fp : FloatPow} {n : WakeNode}
    (h : Run (wakeStep fp) seesPause .fresh n) : WakeInv fp n :=
  h.invariant (WakeInv.fresh fp) fun hinv hsees hs => hinv.step hsees hs

/-! ### A tick whose session fails -/

/-- Arithmetic without rounding. -/
def exactPow : FloatPow where
  toFloatArith := .exact
  ofNat := fun n => some n
  ofNat_eq := fun _ _ h => (Option.some.inj h).symm
  pow := fun x n => some (x ^ n)
  one_le_pow := fun _ _ _ hx h => Option.some.inj h ▸ one_le_pow₀ hx
  mul := fun x y => some (x * y)
  mul_eq := fun _ _ _ h => (Option.some.inj h).symm

/-- Every hour, at least ten minutes apart; one minute of backoff, doubled up to an hour. -/
def hourly (limit : Nat) (h : 1 ≤ limit) : WakeSchedule where
  intervalSeconds := 3600
  minSessionIntervalSeconds := 600
  backoffBaseSeconds := 60
  backoffMultiplier := 2
  backoffMaxSeconds := 3600
  maxConsecutiveFailures := limit
  diskQuotaMb := 1024
  gpuRequired := false
  interval_pos := Nat.succ_pos 3599
  min_pos := Nat.succ_pos 599
  base_pos := Nat.succ_pos 59
  one_le_multiplier := one_le_two
  base_le_max := Nat.le_of_ble_eq_true rfl
  failures_pos := h
  quota_pos := Nat.succ_pos 1023

def hourlyConfig (limit : Nat) (h : 1 ≤ limit) : WakeConfig := ⟨hourly limit h, 60, 60, 60⟩

/-- An empty queue, no session, no slot. -/
def quietFacts : AdmissionFacts := ⟨0, 0, none, fun _ => none, none, 0⟩

theorem hourly_first_delay (limit : Nat) (h : 1 ≤ limit) :
    backoffDelaySeconds exactPow (hourly limit h) 1 = some 60 := by
  have hfloor : ⌊(60 : ℚ)⌋.toNat = 60 := by
    rw [show (60 : ℚ) = ((60 : Int) : ℚ) from rfl, Int.floor_intCast]
    rfl
  simp only [backoffDelaySeconds, exactPow, hourly, Nat.lt_irrefl, if_false, Nat.sub_self,
    pow_zero, Option.bind_eq_bind, Option.bind_some, Nat.cast_ofNat, mul_one, hfloor]
  norm_num

/-- The accounting of a first failure. -/
theorem sessionResult_first {fp : FloatPow} {s : WakeSchedule} {d : Nat}
    (hd : backoffDelaySeconds fp s 1 = some d) (t : Nat) :
    ∃ new save told, sessionResult fp s .failed t .fresh .sessionRunning =
        some (new, save, told) ∧
      new.lastSessionFinishedAt = some t ∧ new.backoffUntil = some (t + seconds d) ∧
      save.getD .sessionRunning = if s.maxConsecutiveFailures ≤ 1 then .paused else .idle := by
  by_cases hlimit : s.maxConsecutiveFailures ≤ 1
  · simp [sessionResult, WakeState.fresh, hd, hlimit]
  · simp [sessionResult, WakeState.fresh, hd, hlimit]

/-- A first tick whose session fails, accounted at `t`. -/
theorem failing_tick {fp : FloatPow} {s : WakeSchedule} {d : Nat} (hgpu : s.gpuRequired = false)
    (hd : backoffDelaySeconds fp s 1 = some d) (t : Nat) :
    ∃ n, Run (wakeStep fp) seesPause .fresh n ∧ n.log = [.result .failed t s] ∧
      n.wake.lastSessionFinishedAt = some t ∧ n.wake.backoffUntil = some (t + seconds d) ∧
      n.nodeState = if s.maxConsecutiveFailures ≤ 1 then .paused else .idle := by
  let c : Caller := .tick 0
  let cfg : WakeConfig := ⟨s, 60, 60, 60⟩
  have hwake : decideWake cfg quietFacts .scheduled 0 .fresh .idle = .wake := by
    simp [decideWake, evaluateScheduleTiming, inBackoff, WakeState.fresh, admission,
      quietFacts, cfg, hgpu]
  have hdecided : wakeStep fp .fresh (.decided c 0 cfg quietFacts false) =
      some (WakeNode.fresh.setStage c .granted) := by
    simp only [wakeStep, WakeNode.decided, WakeNode.fresh, Caller.source, c,
      WakeNode.webRefuses, hwake]
    rfl
  have hmarker : NodeState.idle ≠ .paused := by decide
  have hsees : ∀ final s' row node,
      Stage.accounting SessionState.failed s WakeState.fresh NodeState.sessionRunning =
        .accounting final s' row node → row = .fresh ∧ node = .sessionRunning := by
    intro final s' row node heq
    cases heq
    exact ⟨rfl, rfl⟩
  obtain ⟨new, save, told, hresult, hfinished, hwindow, hnode⟩ := sessionResult_first hd t
  have hrun : Run (wakeStep fp) seesPause .fresh (WakeNode.fresh.setStage c .granted) :=
    .snoc .nil (show seesPause _ (.decided c 0 cfg quietFacts false) from trivial) hdecided
  have hrun := hrun.snoc (show seesPause _ (.acquired c) from trivial) rfl
  have hrun := hrun.snoc (show seesPause _ (.marker c) from hmarker) rfl
  have hrun := hrun.snoc (show seesPause _ (.finished c .failed) from trivial) rfl
  have hrun := hrun.snoc (show seesPause _ (.loaded c s) from trivial) rfl
  have hrun := hrun.snoc (show seesPause _ (.accounted c t) from hsees)
    (Option.bind_eq_some_iff.mpr ⟨_, hresult, rfl⟩)
  refine ⟨_, hrun, rfl, ?_, ?_, hnode⟩
  · exact (congrArg WakeState.lastSessionFinishedAt (WakeState.flush_self _ _)).trans hfinished
  · exact (congrArg WakeState.backoffUntil (WakeState.flush_self _ _)).trans hwindow

/-! ## What a pause and a backoff promise -/

/-- A pause set between a granted decision and its marker is lost: the marker covers it,
and the session ends in an idle node. -/
theorem pause_lost_at_marker (fp : FloatPow) {cfg : WakeConfig}
    (hgpu : cfg.schedule.gpuRequired = false) :
    ∃ n, exec (wakeStep fp) .fresh [.decided (.tick 0) 0 cfg quietFacts false,
        .acquired (.tick 0), .pause false false, .marker (.tick 0),
        .finished (.tick 0) .succeeded, .loaded (.tick 0) cfg.schedule,
        .accounted (.tick 0) (seconds 7)] = some n ∧ n.nodeState = .idle := by
  have hwake : decideWake cfg quietFacts .scheduled 0 .fresh .idle = .wake := by
    simp [decideWake, evaluateScheduleTiming, inBackoff, WakeState.fresh, admission,
      quietFacts, hgpu]
  have hdecided : wakeStep fp .fresh (.decided (.tick 0) 0 cfg quietFacts false) =
      some (WakeNode.fresh.setStage (.tick 0) .granted) := by
    simp only [wakeStep, WakeNode.decided, WakeNode.fresh, Caller.source,
      WakeNode.webRefuses, hwake]
    rfl
  simp only [exec, hdecided, Option.bind_some]
  exact ⟨_, rfl, rfl⟩

/-- **The failure that reaches the limit pauses the node**: in every run where no marker
covers a pause and nothing changes under an accounting, the row counts the failures in a
row, and once the last accounted session was the failure that reaches its limit, every
entry point is refused, whatever the config and the admission list, until a resume. -/
theorem failure_limit_pauses {fp : FloatPow} {n : WakeNode}
    (h : Run (wakeStep fp) seesPause .fresh n) :
    n.wake.consecutiveFailures = streak n.log ∧
      (LimitReached n.log → n.nodeState = .paused ∧
        ∀ (cfg : WakeConfig) (facts : AdmissionFacts) (source : Source) (now : Nat),
          decideWake cfg facts source now n.wake n.nodeState ≠ .wake) := by
  have hinv := wakeInv_run h
  refine ⟨hinv.summary.failures, fun hlimit => ?_⟩
  have hpaused := hinv.limit hlimit
  refine ⟨hpaused, fun cfg facts source now => ?_⟩
  rw [hpaused]
  exact decideWake_paused cfg facts source now n.wake

/-- With a limit of one, the first failure pauses the node. -/
theorem failure_limit_pauses_first :
    ∃ n, Run (wakeStep exactPow) seesPause .fresh n ∧ n.nodeState = .paused ∧
      n.wake.consecutiveFailures = 1 := by
  obtain ⟨n, hrun, hlog, -, -, -⟩ :=
    failing_tick (s := hourly 1 le_rfl) rfl (hourly_first_delay 1 le_rfl) (seconds 7)
  have hstreak : streak n.log = 1 := by
    rw [hlog]
    rfl
  have hlimit : LimitReached n.log := ⟨_, _, _, hlog, Nat.le_of_eq hstreak.symm⟩
  obtain ⟨hcount, hpaused⟩ := failure_limit_pauses hrun
  exact ⟨n, hrun, (hpaused hlimit).1, hcount.trans hstreak⟩

/-- **A scheduled wake keeps the gaps and the backoff**: in every such run it comes after
both gaps since the last accounted session; after a failure, the `n`-th in a row, it comes
after the delay of `n`, which is at least the base delay, and `n` is below the limit. -/
theorem scheduled_wake_respects_backoff {fp : FloatPow} {n : WakeNode} {cfg : WakeConfig}
    {facts : AdmissionFacts} {now : Nat} (h : Run (wakeStep fp) seesPause .fresh n)
    (hwake : decideWake cfg facts .scheduled now n.wake n.nodeState = .wake) :
    (∀ t, lastFinished n.log = some t → t + seconds cfg.schedule.intervalSeconds ≤ now ∧
        t + seconds cfg.schedule.minSessionIntervalSeconds ≤ now) ∧
      ∀ t s rest, n.log = .result .failed t s :: rest →
        streak n.log < s.maxConsecutiveFailures ∧
          ∃ d, backoffDelaySeconds fp s (streak n.log) = some d ∧ baseDelay fp s ≤ d ∧
            d ≤ s.backoffMaxSeconds ∧ t + seconds d ≤ now := by
  have hinv := wakeInv_run h
  obtain ⟨htiming, hadmitted⟩ := decideWake_wake hwake
  obtain ⟨hgaps, hwindow⟩ := evaluateScheduleTiming_due (htiming rfl)
  constructor
  · intro t ht
    exact hgaps t (hinv.summary.finished.trans ht)
  · intro t s rest hlog
    constructor
    · by_contra hge
      have hpaused := hinv.limit ⟨t, s, rest, hlog, Nat.le_of_not_lt hge⟩
      simp [admission, hpaused] at hadmitted
    · obtain ⟨d, hd, hrow⟩ := hinv.summary.window t s rest hlog
      obtain ⟨hlow, hhigh⟩ := backoffDelaySeconds_mem hd
      exact ⟨d, hd, hlow, hhigh, hwindow _ hrow⟩

/-- With a limit of two, a tick two hours after the first failure wakes. -/
theorem scheduled_wake_respects_backoff_second :
    ∃ n, Run (wakeStep exactPow) seesPause .fresh n ∧
      ∃ d, backoffDelaySeconds exactPow (hourly 2 one_le_two) (streak n.log) = some d ∧
        seconds 7 + seconds d ≤ seconds 7207 := by
  obtain ⟨n, hrun, hlog, hfinished, hwindow, hnode⟩ :=
    failing_tick (s := hourly 2 one_le_two) rfl (hourly_first_delay 2 one_le_two) (seconds 7)
  have hidle : n.nodeState = .idle := hnode
  have hdue : evaluateScheduleTiming (hourly 2 one_le_two) (seconds 7207) (some (seconds 7))
      (some (seconds 7 + seconds 60)) = none := by decide
  have hadmitted : admission (hourlyConfig 2 one_le_two) quietFacts (seconds 7207) .idle =
      none := by
    simp [admission, quietFacts, hourlyConfig, hourly]
  have hwake : decideWake (hourlyConfig 2 one_le_two) quietFacts .scheduled (seconds 7207)
      n.wake n.nodeState = .wake := by
    have hschedule : (hourlyConfig 2 one_le_two).schedule = hourly 2 one_le_two := rfl
    simp only [decideWake, hfinished, hwindow, hidle, hschedule, hdue, hadmitted]
  obtain ⟨-, hlast⟩ := scheduled_wake_respects_backoff hrun hwake
  obtain ⟨-, d, hd, -, -, hle⟩ := hlast _ _ _ hlog
  exact ⟨n, hrun, d, hd, hle⟩

end Noezema.Host.Wake
