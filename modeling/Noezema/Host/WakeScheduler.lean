import Mathlib.Algebra.Order.Floor.Semiring
import Mathlib.Data.Rat.Floor
import Noezema.Commit.Session
import Noezema.Lib.Except
import Noezema.Lib.FloatArith
import Noezema.Lib.Run

/-! # The wake scheduler

A wake is decided from the effective config, the node state and the durable row of the
node; the entry point that is granted one takes the session lane, writes the
`session_running` marker, runs the session and accounts its outcome. Entry points of
several processes interleave: a decision may be old when its marker is written, and the web
gives the lane back before it accounts.

Instants are microseconds. What a pause promises holds in the runs where no write of
`node_state` covers a pause it has not read, and no two accountings overlap (`seesPause`);
`pause_lost_at_marker` is a run where a marker does.
-/

namespace Noezema.Host.Wake

open Noezema.Lib
open Noezema.Commit (SessionState)

/-! ## The schedule -/

/-- The numbers of Python the scheduler computes with: the conversion and the power raise
`OverflowError` (`none`), the product overflows to infinity (`none`). -/
structure FloatPow extends FloatArith where
  ofNat : Nat → Option ℚ
  ofNat_eq : ∀ n q, ofNat n = some q → q = rnd n
  pow : ℚ → Nat → Option ℚ
  one_le_pow : ∀ x n p, 1 ≤ x → pow x n = some p → 1 ≤ p
  mul : ℚ → ℚ → Option ℚ
  mul_eq : ∀ x y z, mul x y = some z → z = rnd (x * y)

/-- A value of the `wake_schedule` section. -/
inductive Raw where
  | null
  | bool (b : Bool)
  | int (n : Int)
  | float (x : ℚ)
  | other
deriving DecidableEq, Repr

/-- `WakeScheduleError`. The last one is the `OverflowError` of `float(...)`. -/
inductive WakeScheduleError where
  | notObject
  | missing (key : String)
  | wrongType (key : String) (value : Raw)
  | notPositive (key : String)
  | multiplierBelowOne
  | maxBelowBase
  | noFailures
  | multiplierOverflow
deriving DecidableEq, Repr

/-- `WakeSchedule`. -/
structure WakeSchedule where
  intervalSeconds : Nat
  minSessionIntervalSeconds : Nat
  backoffBaseSeconds : Nat
  backoffMultiplier : ℚ
  backoffMaxSeconds : Nat
  maxConsecutiveFailures : Nat
  diskQuotaMb : Nat
  gpuRequired : Bool
  interval_pos : 0 < intervalSeconds
  min_pos : 0 < minSessionIntervalSeconds
  base_pos : 0 < backoffBaseSeconds
  one_le_multiplier : 1 ≤ backoffMultiplier
  base_le_max : backoffBaseSeconds ≤ backoffMaxSeconds
  failures_pos : 1 ≤ maxConsecutiveFailures
  quota_pos : 0 < diskQuotaMb

section Payload

variable (fp : FloatPow)

section Keys

variable (raw : String → Option Raw)

/-- The value of a required key: a missing key and a null are one error. -/
def requiredKey (key : String) : Except WakeScheduleError Raw :=
  match raw key with
  | none | some .null => .error (.missing key)
  | some value => .ok value

/-- A numeric field; `bool` is excluded. -/
def intKey (key : String) : Except WakeScheduleError Int := do
  match ← requiredKey raw key with
  | .int n => pure n
  | value => throw (.wrongType key value)

def numberKey (key : String) : Except WakeScheduleError Raw := do
  match ← requiredKey raw key with
  | .int n => pure (.int n)
  | .float x => pure (.float x)
  | value => throw (.wrongType key value)

def boolKey (key : String) : Except WakeScheduleError Bool := do
  match ← requiredKey raw key with
  | .bool b => pure b
  | value => throw (.wrongType key value)

end Keys

/-- `raw["backoff_multiplier"] < 1`, on the exact value. -/
def belowOne : Raw → Bool
  | .int n => n < 1
  | .float x => x < 1
  | _ => false

/-- `float(raw["backoff_multiplier"])`. -/
def toFloat : Raw → Option ℚ
  | .int n => fp.ofNat n.toNat
  | .float x => some (fp.rnd x)
  | _ => none

/-- A multiplier that passed its check is at least one as a float. -/
theorem one_le_toFloat {value : Raw} {x : ℚ} (hlow : belowOne value = false)
    (h : toFloat fp value = some x) : 1 ≤ x := by
  cases value with
  | int n =>
    have hn : 1 ≤ n := by simpa [belowOne] using hlow
    have hcast : (1 : ℚ) ≤ (n.toNat : ℚ) := by
      have : 1 ≤ n.toNat := by omega
      exact_mod_cast this
    rw [fp.ofNat_eq _ _ h]
    exact fp.one_le_rnd hcast
  | float y =>
    have hy : 1 ≤ y := by simpa [belowOne] using hlow
    cases h
    exact fp.one_le_rnd hy
  | null | bool _ | other => cases h

/-- The bounds of `from_payload`, in order. -/
def validated (interval minimum base : Int) (multiplier : Raw) (maximum failures quota : Int)
    (gpu : Bool) : Except WakeScheduleError WakeSchedule :=
  if hinterval : interval ≤ 0 then .error (.notPositive "interval_seconds")
  else if hmin : minimum ≤ 0 then .error (.notPositive "min_session_interval_seconds")
  else if hbase : base ≤ 0 then .error (.notPositive "backoff_base_seconds")
  else if hlow : belowOne multiplier = true then .error .multiplierBelowOne
  else if hmax : maximum < base then .error .maxBelowBase
  else if hfail : failures < 1 then .error .noFailures
  else if hquota : quota ≤ 0 then .error (.notPositive "disk_quota_mb")
  else
    match hx : toFloat fp multiplier with
    | none => .error .multiplierOverflow
    | some x => .ok
      { intervalSeconds := interval.toNat
        minSessionIntervalSeconds := minimum.toNat
        backoffBaseSeconds := base.toNat
        backoffMultiplier := x
        backoffMaxSeconds := maximum.toNat
        maxConsecutiveFailures := failures.toNat
        diskQuotaMb := quota.toNat
        gpuRequired := gpu
        interval_pos := by omega
        min_pos := by omega
        base_pos := by omega
        one_le_multiplier := one_le_toFloat fp (Bool.eq_false_iff.mpr hlow) hx
        base_le_max := by omega
        failures_pos := by omega
        quota_pos := by omega }

/-- `WakeSchedule.from_payload`: the keys and their types in order, then the bounds.
`none` is a section that is no object. -/
def fromPayload (section_ : Option (String → Option Raw)) :
    Except WakeScheduleError WakeSchedule := do
  match section_ with
  | none => throw .notObject
  | some raw =>
    let interval ← intKey raw "interval_seconds"
    let minimum ← intKey raw "min_session_interval_seconds"
    let base ← intKey raw "backoff_base_seconds"
    let multiplier ← numberKey raw "backoff_multiplier"
    let maximum ← intKey raw "backoff_max_seconds"
    let failures ← intKey raw "max_consecutive_failures"
    let quota ← intKey raw "disk_quota_mb"
    let gpu ← boolKey raw "gpu_required"
    validated fp interval minimum base multiplier maximum failures quota gpu

end Payload

/-- `timedelta(seconds=n)`. -/
def seconds (n : Nat) : Nat := n * 1000000

inductive WaitReason where
  | intervalNotElapsed
  | minIntervalNotElapsed
  | backoffActive
deriving DecidableEq, Repr

/-- `now < backoff_until`, when there is a window. -/
def inBackoff (now : Nat) (backoffUntil : Option Nat) : Bool :=
  backoffUntil.any fun t => now < t

/-- `evaluate_schedule_timing`: `none` when the tick is due. -/
def evaluateScheduleTiming (s : WakeSchedule) (now : Nat) (lastFinished backoffUntil : Option Nat) :
    Option WaitReason :=
  match lastFinished with
  | none => if inBackoff now backoffUntil then some .backoffActive else none
  | some t =>
    if now < t + seconds s.intervalSeconds then some .intervalNotElapsed
    else if now < t + seconds s.minSessionIntervalSeconds then some .minIntervalNotElapsed
    else if inBackoff now backoffUntil then some .backoffActive
    else none

/-- A due tick is past every gap and the backoff window. -/
theorem evaluateScheduleTiming_due {s : WakeSchedule} {now : Nat}
    {lastFinished backoffUntil : Option Nat}
    (h : evaluateScheduleTiming s now lastFinished backoffUntil = none) :
    (∀ t, lastFinished = some t → t + seconds s.intervalSeconds ≤ now ∧
        t + seconds s.minSessionIntervalSeconds ≤ now) ∧
      ∀ t, backoffUntil = some t → t ≤ now := by
  have hwindow : inBackoff now backoffUntil = false →
      ∀ t, backoffUntil = some t → t ≤ now := by
    intro hout t ht
    simpa [inBackoff, ht] using hout
  cases lastFinished with
  | none =>
    by_cases hin : inBackoff now backoffUntil = true
    · simp [evaluateScheduleTiming, hin] at h
    · exact ⟨fun t ht => (nomatch ht), hwindow (Bool.eq_false_iff.mpr hin)⟩
  | some t =>
    by_cases hinterval : now < t + seconds s.intervalSeconds
    · simp [evaluateScheduleTiming, hinterval] at h
    by_cases hmin : now < t + seconds s.minSessionIntervalSeconds
    · simp [evaluateScheduleTiming, hinterval, hmin] at h
    by_cases hin : inBackoff now backoffUntil = true
    · simp [evaluateScheduleTiming, hinterval, hmin, hin] at h
    refine ⟨fun u hu => ?_, hwindow (Bool.eq_false_iff.mpr hin)⟩
    cases hu
    exact ⟨Nat.le_of_not_lt hinterval, Nat.le_of_not_lt hmin⟩

/-- `backoff_delay_seconds`: `none` where it raises. -/
def backoffDelaySeconds (fp : FloatPow) (s : WakeSchedule) (consecutiveFailures : Nat) :
    Option Nat :=
  if consecutiveFailures < 1 then none
  else do
    let power ← fp.pow s.backoffMultiplier (consecutiveFailures - 1)
    let base ← fp.ofNat s.backoffBaseSeconds
    match fp.mul base power with
    | none => some s.backoffMaxSeconds
    | some delay => some (if delay < s.backoffMaxSeconds then ⌊delay⌋.toNat
        else s.backoffMaxSeconds)

/-- What the base delay is as a float, in whole seconds. -/
def baseDelay (fp : FloatPow) (s : WakeSchedule) : Nat :=
  min s.backoffMaxSeconds ⌊fp.rnd s.backoffBaseSeconds⌋.toNat

/-- A delay is between the base and the maximum. -/
theorem backoffDelaySeconds_mem {fp : FloatPow} {s : WakeSchedule} {n d : Nat}
    (h : backoffDelaySeconds fp s n = some d) :
    baseDelay fp s ≤ d ∧ d ≤ s.backoffMaxSeconds := by
  have hcap : baseDelay fp s ≤ s.backoffMaxSeconds := min_le_left _ _
  by_cases hn : n < 1
  · simp [backoffDelaySeconds, hn] at h
  simp only [backoffDelaySeconds, hn, if_false, Option.bind_eq_bind,
    Option.bind_eq_some_iff] at h
  obtain ⟨p, hp, b, hb, h⟩ := h
  cases hmul : fp.mul b p with
  | none =>
    rw [hmul] at h
    cases h
    exact ⟨hcap, le_rfl⟩
  | some delay =>
    rw [hmul] at h
    by_cases hlt : delay < s.backoffMaxSeconds
    · simp only [hlt, if_true, Option.some.injEq] at h
      subst h
      have hp1 : 1 ≤ p := fp.one_le_pow _ _ _ s.one_le_multiplier hp
      have hb0 : 0 ≤ b := by
        rw [fp.ofNat_eq _ _ hb]
        exact fp.rnd_nonneg (Nat.cast_nonneg _)
      have hle : fp.rnd s.backoffBaseSeconds ≤ delay := by
        calc fp.rnd s.backoffBaseSeconds
            = fp.rnd b := by rw [fp.ofNat_eq _ _ hb, fp.rnd_rnd]
          _ ≤ fp.rnd (b * p) := fp.rnd_mono (le_mul_of_one_le_right hb0 hp1)
          _ = delay := (fp.mul_eq _ _ _ hmul).symm
      have hfloor : ⌊fp.rnd s.backoffBaseSeconds⌋ ≤ ⌊delay⌋ := Int.floor_le_floor hle
      have htop : (⌊delay⌋ : ℚ) < s.backoffMaxSeconds := (Int.floor_le delay).trans_lt hlt
      have htop : ⌊delay⌋ < (s.backoffMaxSeconds : Int) := by exact_mod_cast htop
      exact ⟨(min_le_right _ _).trans (by omega), by omega⟩
    · simp only [hlt, if_false, Option.some.injEq] at h
      subst h
      exact ⟨hcap, le_rfl⟩

/-! ## The node -/

inductive NodeState where
  | idle
  | paused
  | sessionRunning
deriving DecidableEq, Repr

inductive PausedReason where
  | operator
  | consecutiveFailures
deriving DecidableEq, Repr

/-- `ORMWakeSchedulerState`, the row of the node. -/
structure WakeState where
  consecutiveFailures : Nat
  backoffUntil : Option Nat
  lastSessionFinishedAt : Option Nat
  lastSessionState : Option SessionState
  lastFailureAt : Option Nat
  pausedReason : Option PausedReason
deriving DecidableEq, Repr

/-- The row `_load_state` creates. -/
def WakeState.fresh : WakeState := ⟨0, none, none, none, none, none⟩

/-! ### Admission -/

inductive SkipReason where
  | paused
  | nonterminalSession
  | unresolvedCommitAttempt
  | activationSlotBusy
  | reassessmentBacklog
  | repairBacklog
  | diskQuotaExceeded
  | gpuUnavailable
deriving DecidableEq, Repr

/-- The set slot of `runtime_config_heads`: whether its candidate is a draft (`none`: no
such row) and the end of its lease. -/
structure ActivatingSlot where
  draft : Option Bool
  lease : Option Nat
deriving DecidableEq, Repr

/-- `activation_slot_busy`. -/
def activationSlotBusy (slot : ActivatingSlot) (now : Nat) : Bool :=
  match slot.draft with
  | none | some false => true
  | some true =>
    match slot.lease with
    | none => true
    | some t => now < t

/-- What the queries of `_admission` find, and the size of the data root. The ages are of
the oldest runnable job above an escalation age, and of the repair backlog. -/
structure AdmissionFacts where
  nonterminal : Nat
  unresolved : Nat
  slot : Option ActivatingSlot
  oldestRunnable : Nat → Option ℚ
  repairAge : Option ℚ
  duBytes : Nat

/-- The sections of the effective snapshot that a decision reads. -/
structure WakeConfig where
  schedule : WakeSchedule
  tEscalateSeconds : Nat
  tWorkerAdmissionSeconds : Nat
  tRepairAdmissionSeconds : Nat

/-- `_admission`: the first failure, `none` when the wake is admitted. -/
def admission (cfg : WakeConfig) (facts : AdmissionFacts) (now : Nat) (node : NodeState) :
    Option SkipReason :=
  if node = .paused then some .paused
  else if 0 < facts.nonterminal then some .nonterminalSession
  else if 0 < facts.unresolved then some .unresolvedCommitAttempt
  else if facts.slot.any fun slot => activationSlotBusy slot now then some .activationSlotBusy
  else if (facts.oldestRunnable cfg.tEscalateSeconds).any
      fun age => (cfg.tWorkerAdmissionSeconds : ℚ) < age then some .reassessmentBacklog
  else if facts.repairAge.any fun age => (cfg.tRepairAdmissionSeconds : ℚ) < age then
    some .repairBacklog
  else if cfg.schedule.diskQuotaMb * 1024 * 1024 < facts.duBytes then some .diskQuotaExceeded
  else if cfg.schedule.gpuRequired then some .gpuUnavailable
  else none

inductive Source where
  | scheduled
  | wakeNow
deriving DecidableEq, Repr

/-- `WakeDecision`. -/
inductive WakeDecision where
  | wait (reason : WaitReason)
  | wake
  | skip (reason : SkipReason) (detail : Option PausedReason)
deriving DecidableEq, Repr

/-- `decide`, after the sections have been validated. -/
def decideWake (cfg : WakeConfig) (facts : AdmissionFacts) (source : Source) (now : Nat)
    (row : WakeState) (node : NodeState) : WakeDecision :=
  let timing := match source with
    | .scheduled =>
      evaluateScheduleTiming cfg.schedule now row.lastSessionFinishedAt row.backoffUntil
    | .wakeNow => none
  match timing with
  | some reason => .wait reason
  | none =>
    match admission cfg facts now node with
    | some reason => .skip reason row.pausedReason
    | none => .wake

theorem decideWake_wake {cfg : WakeConfig} {facts : AdmissionFacts} {source : Source}
    {now : Nat} {row : WakeState} {node : NodeState}
    (h : decideWake cfg facts source now row node = .wake) :
    (source = .scheduled → evaluateScheduleTiming cfg.schedule now
        row.lastSessionFinishedAt row.backoffUntil = none) ∧
      admission cfg facts now node = none := by
  unfold decideWake at h
  cases source with
  | scheduled =>
    cases ht : evaluateScheduleTiming cfg.schedule now row.lastSessionFinishedAt
        row.backoffUntil with
    | some r => simp [ht] at h
    | none =>
      cases ha : admission cfg facts now node with
      | some r => simp [ht, ha] at h
      | none => exact ⟨fun _ => rfl, rfl⟩
  | wakeNow =>
    cases ha : admission cfg facts now node with
    | some r => simp [ha] at h
    | none => exact ⟨fun hs => (nomatch hs), rfl⟩

/-- A paused node is never admitted. -/
theorem decideWake_paused (cfg : WakeConfig) (facts : AdmissionFacts) (source : Source)
    (now : Nat) (row : WakeState) :
    decideWake cfg facts source now row .paused ≠ .wake := by
  intro h
  have := (decideWake_wake h).2
  simp [admission] at this

end Noezema.Host.Wake
