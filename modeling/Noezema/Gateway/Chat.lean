import Mathlib.Data.List.Basic
import Mathlib.Tactic.Linarith

/-! # The gateway's call

`chat` sends requests until one answer is usable or a rule stops it. The engine is a
stream: what the `k`-th request of the call meets. The rest of a request's body is the same
in every request of a call, so a body is what the reasoning mode adds to it; the waits
between requests are left out.
-/

namespace Noezema.Gateway

/-! ## Engine profiles -/

inductive ReasoningMode where
  | on
  | off
deriving DecidableEq, Repr

/-- `REASONING_PROFILES`. -/
inductive ReasoningProfile where
  | none
  | halogen
  | chatTemplate
deriving DecidableEq, Repr

/-- The parameters a body can carry. -/
inductive BodyAddition where
  | reasoningEffortNone
  | disableThinking
deriving DecidableEq, Repr

abbrev Body := Option BodyAddition

/-- `off_additions`. -/
def ReasoningProfile.offAdditions : ReasoningProfile → Option BodyAddition
  | .none => Option.none
  | .halogen => some .reasoningEffortNone
  | .chatTemplate => some .disableThinking

/-- `can_disable_reasoning`. -/
def ReasoningProfile.canDisableReasoning (p : ReasoningProfile) : Bool := p.offAdditions.isSome

/-- `reasoning_body_additions`. -/
def reasoningBodyAdditions (p : ReasoningProfile) (mode : Option ReasoningMode) : Body :=
  if mode = some .off then p.offAdditions else none

/-! ## One attempt -/

/-- A 200 answer: its usage, why it ended, and the validated model, `none` where the content
does not parse or fails the schema. -/
structure Answer (α : Type*) where
  promptTokens : Option Int
  completionTokens : Option Int
  finishReason : Option String
  model : Option α

/-- What a request meets. `network` is a timeout, a refused connection or a network error, and
`failed` is any other exception of the HTTP client; `unreadable` is a 200 whose body raises
when it is read. -/
inductive Response (α : Type*) where
  | network
  | failed
  | status (code : Nat)
  | unreadable
  | answer (a : Answer α)

/-- The request became an HTTP response. -/
def Response.isAnswered {α : Type*} : Response α → Bool
  | .network | .failed => false
  | .status _ | .unreadable | .answer _ => true

structure GatewayConfig where
  maxRetries : Int
  maxOutputTokens : Int
  reasoningProfile : ReasoningProfile
deriving DecidableEq, Repr

structure AttemptRecord where
  index : Nat
  inputTokens : Int
  outputTokens : Int
  finishReason : Option String
  outputSchemaValid : Bool
  reasoningMode : Option ReasoningMode
  truncated : Bool
deriving DecidableEq, Repr

structure CallRecord where
  inputTokens : Int
  outputTokens : Int
  finishReason : Option String
  attempts : Nat
  outputSchemaValid : Bool
  reasoningMode : Option ReasoningMode
  truncated : Bool
  attemptsDetail : List AttemptRecord
deriving DecidableEq, Repr

def CallRecord.start (mode : Option ReasoningMode) : CallRecord :=
  ⟨0, 0, none, 0, false, mode, false, []⟩

/-- The statuses of `_AttemptOutcome`; `raised` is an exception of its own. -/
inductive Outcome (α : Type*) where
  | ok (model : α)
  | network
  | transientHttp
  | rejectedHttp
  | httpError
  | schemaInvalid
  | truncated
  | raised

/-- `_is_transient`. -/
def isTransient (code : Nat) : Bool :=
  code = 408 || code = 429 || code = 500 || code = 502 || code = 503 || code = 504

/-- `completion_was_truncated`. -/
def completionWasTruncated (finishReason : Option String) (outputTokens maxOutputTokens : Int) :
    Bool :=
  finishReason = some "length" || maxOutputTokens ≤ outputTokens

section Calls

variable {α : Type*} (cfg : GatewayConfig)

/-- The outcome of an answer that has been parsed. -/
def answerOutcome (truncated : Bool) (model : Option α) : Outcome α :=
  if truncated then .truncated
  else
    match model with
    | some m => .ok m
    | none => .schemaInvalid

/-- The attempt of an answer; a usage the engine leaves out is the one before. -/
def attemptOf (mode : Option ReasoningMode) (record : CallRecord) (a : Answer α) :
    AttemptRecord where
  index := record.attempts + 1
  inputTokens := a.promptTokens.getD record.inputTokens
  outputTokens := a.completionTokens.getD record.outputTokens
  finishReason := a.finishReason
  outputSchemaValid := a.model.isSome
  reasoningMode := mode
  truncated := completionWasTruncated a.finishReason (a.completionTokens.getD record.outputTokens)
    cfg.maxOutputTokens

/-- `_one_attempt`, its attempt added to the record. A request that meets no response leaves
the record as it was. -/
def oneAttempt (mode : Option ReasoningMode) (record : CallRecord) (r : Response α) :
    CallRecord × Outcome α :=
  match r with
  | .network => (record, .network)
  -- only the network errors are caught
  | .failed => (record, .raised)
  | .status code =>
    ({ record with attempts := record.attempts + 1 },
      if isTransient code then .transientHttp
      else if 400 ≤ code ∧ code < 500 then .rejectedHttp
      else .httpError)
  | .unreadable => ({ record with attempts := record.attempts + 1 }, .raised)
  | .answer a =>
    let attempt := attemptOf cfg mode record a
    ({ record with
        inputTokens := attempt.inputTokens
        outputTokens := attempt.outputTokens
        finishReason := attempt.finishReason
        attempts := record.attempts + 1
        outputSchemaValid := record.outputSchemaValid && a.model.isSome
        truncated := record.truncated || attempt.truncated
        attemptsDetail := record.attemptsDetail ++ [attempt] },
      answerOutcome attempt.truncated a.model)

/-! ## The call -/

/-- What `chat` returns or raises. -/
inductive ChatResult (α : Type*) where
  | returned (model : α)
  | transientError
  | requestRejected
  | llmError
  | schemaError (attempts : List AttemptRecord)
  | truncatedResponse (attempts : List AttemptRecord)
  | raised

/-- A finished call, with its record and the bodies it sent. -/
structure Finished (α : Type*) where
  result : ChatResult α
  record : CallRecord
  requests : List Body

/-- The attempts an error carries. -/
def unusable (record : CallRecord) : List AttemptRecord :=
  record.attemptsDetail.filter fun a => !a.outputSchemaValid

/-- The end of `chat`, after an answer that was cut: one request with reasoning off, if that
is another request. -/
def afterTruncation (mode : Option ReasoningMode) (record : CallRecord) (sent : List Body)
    (r : Response α) : Finished α :=
  if cfg.reasoningProfile.canDisableReasoning = true ∧ mode ≠ some .off then
    let next := oneAttempt cfg (some .off) record r
    let sent := sent ++ [reasoningBodyAdditions cfg.reasoningProfile (some .off)]
    match next.2 with
    | .ok m => ⟨.returned m, { next.1 with
        outputSchemaValid := true, reasoningMode := some .off, truncated := true }, sent⟩
    | .network | .transientHttp => ⟨.transientError, next.1, sent⟩
    | .rejectedHttp => ⟨.requestRejected, next.1, sent⟩
    | .raised => ⟨.raised, next.1, sent⟩
    | .httpError | .schemaInvalid | .truncated =>
      ⟨.truncatedResponse (unusable next.1), next.1, sent⟩
  else ⟨.truncatedResponse (unusable record), record, sent⟩

/-- The loop of `chat` from its `k`-th request on; `none` is a call that has not returned
after `fuel` requests more. -/
def chatLoop (mode : Option ReasoningMode) (world : Nat → Response α) :
    Nat → Nat → CallRecord → List Body → Option (Finished α)
  | 0, _, _, _ => none
  | fuel + 1, k, record, sent =>
    let next := oneAttempt cfg mode record (world k)
    let sent := sent ++ [reasoningBodyAdditions cfg.reasoningProfile mode]
    -- `attempt_index < max_retries`
    let again : Bool := ((record.attempts + 1 : Nat) : Int) < cfg.maxRetries
    match next.2 with
    | .ok m => some ⟨.returned m, { next.1 with
        outputSchemaValid := true, reasoningMode := mode
        truncated := next.1.attemptsDetail.any (·.truncated) }, sent⟩
    | .truncated => some (afterTruncation cfg mode next.1 sent (world (k + 1)))
    | .network | .transientHttp =>
      if again then chatLoop mode world fuel (k + 1) next.1 sent
      else some ⟨.transientError, next.1, sent⟩
    | .rejectedHttp => some ⟨.requestRejected, next.1, sent⟩
    | .httpError => some ⟨.llmError, next.1, sent⟩
    | .raised => some ⟨.raised, next.1, sent⟩
    | .schemaInvalid =>
      if again then chatLoop mode world fuel (k + 1) next.1 sent
      else some ⟨.schemaError (unusable next.1), next.1, sent⟩

/-- `chat`, for at most `fuel` requests before a cut answer. -/
def chat (mode : Option ReasoningMode) (world : Nat → Response α) (fuel : Nat) :
    Option (Finished α) :=
  chatLoop cfg mode world fuel 0 (.start mode) []

/-! ## The loop -/

def Outcome.isRetried : Outcome α → Bool
  | .network | .transientHttp | .schemaInvalid => true
  | .ok _ | .rejectedHttp | .httpError | .truncated | .raised => false

@[simp] theorem oneAttempt_attempts (mode : Option ReasoningMode) (record : CallRecord)
    (r : Response α) :
    (oneAttempt cfg mode record r).1.attempts = record.attempts + r.isAnswered.toNat := by
  cases r <;> rfl

/-- A request that is retried: nothing is returned, and the loop goes on with its record. -/
theorem chatLoop_retried {mode : Option ReasoningMode} {world : Nat → Response α} {k : Nat}
    {record : CallRecord} (sent : List Body) (fuel : Nat)
    (hr : (oneAttempt cfg mode record (world k)).2.isRetried = true)
    (hm : ((record.attempts + 1 : Nat) : Int) < cfg.maxRetries) :
    chatLoop cfg mode world (fuel + 1) k record sent =
      chatLoop cfg mode world fuel (k + 1) (oneAttempt cfg mode record (world k)).1
        (sent ++ [reasoningBodyAdditions cfg.reasoningProfile mode]) := by
  simp only [chatLoop]
  cases h : (oneAttempt cfg mode record (world k)).2 <;>
    simp_all [Outcome.isRetried]

/-- Any other request ends the call. -/
theorem chatLoop_settled {mode : Option ReasoningMode} {world : Nat → Response α} {k : Nat}
    {record : CallRecord} (sent : List Body) (fuel : Nat)
    (h : (oneAttempt cfg mode record (world k)).2.isRetried = false ∨
      cfg.maxRetries ≤ ((record.attempts + 1 : Nat) : Int)) :
    (chatLoop cfg mode world (fuel + 1) k record sent).isSome = true := by
  simp only [chatLoop]
  rcases h with h | h
  · cases ho : (oneAttempt cfg mode record (world k)).2 <;>
      simp_all [Outcome.isRetried]
  · -- no retry is left, whatever the outcome
    rw [show decide (((record.attempts + 1 : Nat) : Int) < cfg.maxRetries) = false from
      decide_eq_false (not_lt.mpr h)]
    cases (oneAttempt cfg mode record (world k)).2 <;> rfl

/-- The record before the `k`-th request. -/
def recordAt (mode : Option ReasoningMode) (world : Nat → Response α) : Nat → CallRecord
  | 0 => .start mode
  | k + 1 => (oneAttempt cfg mode (recordAt mode world k) (world k)).1

/-- How many of the first `k` requests were answered. -/
def answeredBefore (world : Nat → Response α) : Nat → Nat
  | 0 => 0
  | k + 1 => answeredBefore world k + (world k).isAnswered.toNat

theorem recordAt_attempts (mode : Option ReasoningMode) (world : Nat → Response α) (k : Nat) :
    (recordAt cfg mode world k).attempts = answeredBefore world k := by
  induction k with
  | zero => rfl
  | succ k ih => simp [recordAt, answeredBefore, ih]

theorem answeredBefore_of_network {world : Nat → Response α} (h : ∀ k, world k = .network)
    (k : Nat) : answeredBefore world k = 0 := by
  induction k with
  | zero => rfl
  | succ k ih => simp [answeredBefore, ih, h k, Response.isAnswered]

/-- The `k`-th request is one the loop does not go on from. -/
def Settles (mode : Option ReasoningMode) (world : Nat → Response α) (k : Nat) : Prop :=
  (oneAttempt cfg mode (recordAt cfg mode world k) (world k)).2.isRetried = false ∨
    cfg.maxRetries ≤ ((answeredBefore world k + 1 : Nat) : Int)

/-- From a request that settles the call on, backwards to the loop's entry. -/
theorem chatLoop_returns {mode : Option ReasoningMode} {world : Nat → Response α} (n : Nat) :
    ∀ (k : Nat) (sent : List Body), Settles cfg mode world (k + n) →
      ∃ fuel, (chatLoop cfg mode world fuel k (recordAt cfg mode world k) sent).isSome = true := by
  induction n with
  | zero =>
    intro k sent h
    simp only [Nat.add_zero, Settles, ← recordAt_attempts cfg mode] at h
    exact ⟨1, chatLoop_settled cfg sent 0 h⟩
  | succ n ih =>
    intro k sent h
    by_cases hk : Settles cfg mode world k
    · simp only [Settles, ← recordAt_attempts cfg mode] at hk
      exact ⟨1, chatLoop_settled cfg sent 0 hk⟩
    · simp only [Settles, ← recordAt_attempts cfg mode, not_or, Bool.not_eq_false, not_le] at hk
      have hn : k + 1 + n = k + (n + 1) := by omega
      obtain ⟨fuel, hf⟩ := ih (k + 1)
        (sent ++ [reasoningBodyAdditions cfg.reasoningProfile mode]) (hn ▸ h)
      exact ⟨fuel + 1, by rw [chatLoop_retried cfg sent fuel hk.1 hk.2]; exact hf⟩

theorem settles_of_chatLoop {mode : Option ReasoningMode} {world : Nat → Response α}
    (fuel : Nat) : ∀ (k : Nat) (sent : List Body),
      (chatLoop cfg mode world fuel k (recordAt cfg mode world k) sent).isSome = true →
      ∃ j, Settles cfg mode world j := by
  induction fuel with
  | zero =>
    intro k sent h
    simp [chatLoop] at h
  | succ fuel ih =>
    intro k sent h
    by_cases hk : Settles cfg mode world k
    · exact ⟨k, hk⟩
    · simp only [Settles, ← recordAt_attempts cfg mode, not_or, Bool.not_eq_false, not_le] at hk
      rw [chatLoop_retried cfg sent fuel hk.1 hk.2] at h
      exact ih (k + 1) _ h

/-- A call returns if and only if one of its requests settles it; a request that meets no
response is not counted, so an unreachable engine is asked without end unless the
configuration allows one attempt at most. -/
theorem chat_returns_iff (mode : Option ReasoningMode) (world : Nat → Response α) :
    ((∃ fuel, (chat cfg mode world fuel).isSome = true) ↔ ∃ k, Settles cfg mode world k) ∧
      ((∀ k, world k = .network) →
        ((∃ fuel, (chat cfg mode world fuel).isSome = true) ↔ cfg.maxRetries ≤ 1)) := by
  have hiff : (∃ fuel, (chat cfg mode world fuel).isSome = true) ↔
      ∃ k, Settles cfg mode world k := by
    constructor
    · intro ⟨fuel, h⟩
      exact settles_of_chatLoop cfg fuel 0 [] h
    · intro ⟨k, h⟩
      exact chatLoop_returns cfg k 0 [] (by simpa using h)
  refine ⟨hiff, fun hw => hiff.trans ?_⟩
  have hs : ∀ k, Settles cfg mode world k ↔ cfg.maxRetries ≤ 1 := by
    intro k
    simp [Settles, answeredBefore_of_network hw, hw k, oneAttempt, Outcome.isRetried]
  exact ⟨fun ⟨k, h⟩ => (hs k).mp h, fun h => ⟨0, (hs 0).mpr h⟩⟩

/-! ## Cut answers -/

/-- What the attempt's request added to the body. -/
def AttemptRecord.body (a : AttemptRecord) : Body :=
  reasoningBodyAdditions cfg.reasoningProfile a.reasoningMode

/-- A record of attempts in order, none of which repeats the request of a cut one. -/
structure Kept (record : CallRecord) : Prop where
  follows : record.attemptsDetail.Pairwise fun a b =>
    a.index < b.index ∧ (a.truncated = true → b.body cfg ≠ a.body cfg)
  counted : ∀ a ∈ record.attemptsDetail, a.index ≤ record.attempts
  cut : record.truncated = record.attemptsDetail.any (·.truncated)

theorem Kept.start (mode : Option ReasoningMode) : Kept cfg (.start mode) where
  follows := List.Pairwise.nil
  counted := by simp [CallRecord.start]
  cut := rfl

variable {cfg}

variable (cfg) in
/-- Only an answer adds an attempt. -/
theorem oneAttempt_cases (mode : Option ReasoningMode) (record : CallRecord) (r : Response α) :
    ((oneAttempt cfg mode record r).1.attemptsDetail = record.attemptsDetail ∧
      (oneAttempt cfg mode record r).1.truncated = record.truncated ∧
      (∀ m, (oneAttempt cfg mode record r).2 ≠ .ok m) ∧
      (oneAttempt cfg mode record r).2 ≠ .truncated) ∨
    ∃ a, r = .answer a ∧
      (oneAttempt cfg mode record r).1.attemptsDetail =
        record.attemptsDetail ++ [attemptOf cfg mode record a] ∧
      (oneAttempt cfg mode record r).1.truncated =
        (record.truncated || (attemptOf cfg mode record a).truncated) ∧
      (oneAttempt cfg mode record r).2 =
        answerOutcome (attemptOf cfg mode record a).truncated a.model := by
  cases r with
  | network => exact .inl ⟨rfl, rfl, by simp [oneAttempt], by simp [oneAttempt]⟩
  | failed => exact .inl ⟨rfl, rfl, by simp [oneAttempt], by simp [oneAttempt]⟩
  | unreadable => exact .inl ⟨rfl, rfl, by simp [oneAttempt], by simp [oneAttempt]⟩
  | status code =>
    refine .inl ⟨rfl, rfl, fun m => ?_, ?_⟩ <;>
    · simp only [oneAttempt]
      split_ifs <;> simp
  | answer a => exact .inr ⟨a, rfl, rfl, rfl, rfl⟩

theorem Kept.oneAttempt {record : CallRecord} (hk : Kept cfg record)
    {mode : Option ReasoningMode}
    (hb : ∀ a ∈ record.attemptsDetail, a.truncated = true →
      reasoningBodyAdditions cfg.reasoningProfile mode ≠ a.body cfg) (r : Response α) :
    Kept cfg (oneAttempt cfg mode record r).1 := by
  have hle : record.attempts ≤ (Gateway.oneAttempt cfg mode record r).1.attempts := by simp
  rcases oneAttempt_cases cfg mode record r with
    ⟨hd, ht, -, -⟩ | ⟨a, rfl, hd, ht, -⟩
  · exact {
      follows := hd ▸ hk.follows
      counted := fun a ha => (hk.counted a (hd ▸ ha)).trans hle
      cut := by rw [ht, hd, hk.cut] }
  · refine { follows := ?_, counted := ?_, cut := ?_ }
    · rw [hd, List.pairwise_append]
      refine ⟨hk.follows, List.pairwise_singleton _ _, fun b hb' c hc => ?_⟩
      obtain rfl := List.mem_singleton.mp hc
      exact ⟨Nat.lt_succ_of_le (hk.counted b hb'), hb b hb'⟩
    · intro b hb'
      rw [hd, List.mem_append, List.mem_singleton] at hb'
      rcases hb' with hb' | rfl
      · exact (hk.counted b hb').trans hle
      · simp [attemptOf, Response.isAnswered]
    · rw [ht, hd, hk.cut]
      simp

/-- What holds of the loop's record and requests before each request: no answer has been
cut, and every request so far is the one the loop sends. -/
structure LoopInv (cfg : GatewayConfig) (mode : Option ReasoningMode) (record : CallRecord)
    (k : Nat) (sent : List Body) : Prop where
  kept : Kept cfg record
  uncut : ∀ a ∈ record.attemptsDetail, a.truncated = false
  attempts : (record.attempts : Int) < max 1 cfg.maxRetries
  sent : sent = List.replicate k (reasoningBodyAdditions cfg.reasoningProfile mode)

theorem LoopInv.start (mode : Option ReasoningMode) : LoopInv cfg mode (.start mode) 0 [] where
  kept := Kept.start cfg mode
  uncut := by simp [CallRecord.start]
  attempts := by simp [CallRecord.start]
  sent := rfl

theorem uncut_of_isRetried {truncated : Bool} {model : Option α}
    (h : (answerOutcome truncated model).isRetried = true) : truncated = false := by
  cases truncated
  · rfl
  · simp [answerOutcome, Outcome.isRetried] at h

theorem LoopInv.next {mode : Option ReasoningMode} {record : CallRecord} {k : Nat}
    {sent : List Body} (h : LoopInv cfg mode record k sent) (r : Response α)
    (hr : (oneAttempt cfg mode record r).2.isRetried = true)
    (hm : ((record.attempts + 1 : Nat) : Int) < cfg.maxRetries) :
    LoopInv cfg mode (oneAttempt cfg mode record r).1 (k + 1)
      (sent ++ [reasoningBodyAdditions cfg.reasoningProfile mode]) where
  kept := h.kept.oneAttempt (fun a ha ht => by simp [h.uncut a ha] at ht) r
  uncut := by
    rcases oneAttempt_cases cfg mode record r with
      ⟨hd, -, -, -⟩ | ⟨a, rfl, hd, -, ho⟩
    · rw [hd]
      exact h.uncut
    · rw [hd]
      intro b hb
      rcases List.mem_append.mp hb with hb | hb
      · exact h.uncut b hb
      · obtain rfl := List.mem_singleton.mp hb
        exact uncut_of_isRetried (ho ▸ hr)
  attempts := by
    have hle : r.isAnswered.toNat ≤ 1 := Bool.toNat_le _
    rw [oneAttempt_attempts]
    omega
  sent := by rw [h.sent, ← List.replicate_succ']

/-- What a request that is not retried ends the call with. -/
theorem chatLoop_cases {mode : Option ReasoningMode} {world : Nat → Response α} {k fuel : Nat}
    {record : CallRecord} {sent : List Body} {f : Finished α}
    (h : chatLoop cfg mode world (fuel + 1) k record sent = some f) :
    ((oneAttempt cfg mode record (world k)).2.isRetried = true ∧
      ((record.attempts + 1 : Nat) : Int) < cfg.maxRetries ∧
      chatLoop cfg mode world fuel (k + 1) (oneAttempt cfg mode record (world k)).1
        (sent ++ [reasoningBodyAdditions cfg.reasoningProfile mode]) = some f) ∨
    (∃ m, (oneAttempt cfg mode record (world k)).2 = .ok m ∧
      f = ⟨.returned m, { (oneAttempt cfg mode record (world k)).1 with
          outputSchemaValid := true, reasoningMode := mode
          truncated := (oneAttempt cfg mode record (world k)).1.attemptsDetail.any
            (·.truncated) },
        sent ++ [reasoningBodyAdditions cfg.reasoningProfile mode]⟩) ∨
    ((oneAttempt cfg mode record (world k)).2 = .truncated ∧
      f = afterTruncation cfg mode (oneAttempt cfg mode record (world k)).1
        (sent ++ [reasoningBodyAdditions cfg.reasoningProfile mode]) (world (k + 1))) ∨
    ((∀ m, f.result ≠ .returned m) ∧ f.record = (oneAttempt cfg mode record (world k)).1 ∧
      f.requests = sent ++ [reasoningBodyAdditions cfg.reasoningProfile mode]) := by
  by_cases hm : ((record.attempts + 1 : Nat) : Int) < cfg.maxRetries
  · by_cases hr : (oneAttempt cfg mode record (world k)).2.isRetried = true
    · exact .inl ⟨hr, hm, by rw [← h, chatLoop_retried cfg sent fuel hr hm]⟩
    · refine .inr ?_
      simp only [chatLoop] at h
      cases ho : (oneAttempt cfg mode record (world k)).2 <;>
        simp_all [Outcome.isRetried] <;> subst h <;> simp
  · refine .inr ?_
    simp only [chatLoop, hm] at h
    cases ho : (oneAttempt cfg mode record (world k)).2 <;>
      simp_all <;> subst h <;> simp

variable (cfg) in
/-- The request after a cut answer, where one is sent. -/
theorem afterTruncation_cases (mode : Option ReasoningMode) (record : CallRecord)
    (sent : List Body) (r : Response α) :
    afterTruncation cfg mode record sent r =
      ⟨.truncatedResponse (unusable record), record, sent⟩ ∨
    (cfg.reasoningProfile.canDisableReasoning = true ∧ mode ≠ some .off ∧
      (afterTruncation cfg mode record sent r).requests =
        sent ++ [reasoningBodyAdditions cfg.reasoningProfile (some .off)] ∧
      ((∃ m, (oneAttempt cfg (some .off) record r).2 = .ok m ∧
          (afterTruncation cfg mode record sent r).result = .returned m ∧
          (afterTruncation cfg mode record sent r).record =
            { (oneAttempt cfg (some .off) record r).1 with
              outputSchemaValid := true, reasoningMode := some .off, truncated := true }) ∨
        ((∀ m, (afterTruncation cfg mode record sent r).result ≠ .returned m) ∧
          (afterTruncation cfg mode record sent r).record =
            (oneAttempt cfg (some .off) record r).1))) := by
  by_cases hc : cfg.reasoningProfile.canDisableReasoning = true ∧ mode ≠ some .off
  · refine .inr ⟨hc.1, hc.2, ?_⟩
    simp only [afterTruncation, if_pos hc]
    cases (oneAttempt cfg (some .off) record r).2 <;> simp
  · exact .inl (by simp only [afterTruncation, if_neg hc])

/-- A finished call, as `chat` leaves it. -/
structure Unrepeated (cfg : GatewayConfig) (mode : Option ReasoningMode)
    (world : Nat → Response α) (f : Finished α) : Prop where
  kept : Kept cfg f.record
  attempts : (f.record.attempts : Int) ≤ max 1 cfg.maxRetries + 1
  requests : ∀ b ∈ f.requests.dropLast, b = reasoningBodyAdditions cfg.reasoningProfile mode
  returned : ∀ m, f.result = .returned m →
    ∃ a t, world (f.requests.length - 1) = .answer a ∧ a.model = some m ∧
      f.record.attemptsDetail.getLast? = some t ∧ t.truncated = false ∧
      t.outputSchemaValid = true ∧ t.reasoningMode = f.record.reasoningMode

theorem oneAttempt_ok {mode : Option ReasoningMode} {record : CallRecord} {r : Response α}
    {m : α} (h : (oneAttempt cfg mode record r).2 = .ok m) :
    ∃ a, r = .answer a ∧ a.model = some m ∧
      (oneAttempt cfg mode record r).1.attemptsDetail =
        record.attemptsDetail ++ [attemptOf cfg mode record a] ∧
      (attemptOf cfg mode record a).truncated = false := by
  rcases oneAttempt_cases cfg mode record r with
    ⟨-, -, hne, -⟩ | ⟨a, hr, hd, -, ho⟩
  · exact absurd h (hne m)
  · rw [h] at ho
    cases ht : (attemptOf cfg mode record a).truncated with
    | true => simp [ht, answerOutcome] at ho
    | false =>
      cases hmod : a.model with
      | none => simp [ht, hmod, answerOutcome] at ho
      | some m' =>
        obtain rfl : m = m' := by simpa [ht, hmod, answerOutcome] using ho
        exact ⟨a, hr, hmod, hd, ht⟩

theorem oneAttempt_truncated {mode : Option ReasoningMode} {record : CallRecord}
    {r : Response α} (h : (oneAttempt cfg mode record r).2 = .truncated) :
    ∃ a : Answer α, (oneAttempt cfg mode record r).1.attemptsDetail =
        record.attemptsDetail ++ [attemptOf cfg mode record a] ∧
      (oneAttempt cfg mode record r).1.truncated = true := by
  rcases oneAttempt_cases cfg mode record r with
    ⟨-, -, -, hne⟩ | ⟨a, -, hd, htr, ho⟩
  · exact absurd h hne
  · rw [h] at ho
    cases ht : (attemptOf cfg mode record a).truncated with
    | true => exact ⟨a, hd, by rw [htr, ht, Bool.or_true]⟩
    | false => cases hm : a.model <;> simp [ht, hm, answerOutcome] at ho

/-- The record an answer that is used is returned with. -/
theorem returned_last {mode : Option ReasoningMode} {record : CallRecord} {r : Response α}
    {m : α} (h : (oneAttempt cfg mode record r).2 = .ok m) :
    ∃ a t, r = .answer a ∧ a.model = some m ∧
      (oneAttempt cfg mode record r).1.attemptsDetail.getLast? = some t ∧
      t.truncated = false ∧ t.outputSchemaValid = true ∧ t.reasoningMode = mode := by
  obtain ⟨a, hr, hm, hd, ht⟩ := oneAttempt_ok h
  exact ⟨a, _, hr, hm, by rw [hd, List.getLast?_concat], ht, by simp [attemptOf, hm], rfl⟩

/-- A profile that can disable reasoning asks for it by another body. -/
theorem off_body_ne {p : ReasoningProfile} {mode : Option ReasoningMode}
    (hp : p.canDisableReasoning = true) (hm : mode ≠ some .off) :
    reasoningBodyAdditions p (some .off) ≠ reasoningBodyAdditions p mode := by
  intro h
  rw [reasoningBodyAdditions, reasoningBodyAdditions, if_pos rfl, if_neg hm] at h
  simp [ReasoningProfile.canDisableReasoning, h] at hp

/-- The request after the loop's cut answer is none of those before it. -/
theorem LoopInv.off_new {mode : Option ReasoningMode} {record : CallRecord} {k : Nat}
    {sent : List Body} (h : LoopInv cfg mode record k sent)
    (hp : cfg.reasoningProfile.canDisableReasoning = true) (hm : mode ≠ some .off)
    {a : Answer α} {next : CallRecord}
    (hd : next.attemptsDetail = record.attemptsDetail ++ [attemptOf cfg mode record a]) :
    ∀ b ∈ next.attemptsDetail, b.truncated = true →
      reasoningBodyAdditions cfg.reasoningProfile (some .off) ≠ b.body cfg := by
  intro b hb ht
  rw [hd] at hb
  rcases List.mem_append.mp hb with hb | hb
  · rw [h.uncut b hb] at ht
    cases ht
  · obtain rfl := List.mem_singleton.mp hb
    exact off_body_ne hp hm

theorem LoopInv.finished {mode : Option ReasoningMode} {world : Nat → Response α} {k : Nat}
    {record : CallRecord} {sent : List Body} (h : LoopInv cfg mode record k sent)
    (ht : (oneAttempt cfg mode record (world k)).2 = .truncated) :
    Unrepeated cfg mode world
      (afterTruncation cfg mode (oneAttempt cfg mode record (world k)).1
        (sent ++ [reasoningBodyAdditions cfg.reasoningProfile mode]) (world (k + 1))) := by
  have hkept : Kept cfg (oneAttempt cfg mode record (world k)).1 := h.kept.oneAttempt
    (fun a ha ht => by simp [h.uncut a ha] at ht) (world k)
  have hsent : ∀ b ∈ sent ++ [reasoningBodyAdditions cfg.reasoningProfile mode],
      b = reasoningBodyAdditions cfg.reasoningProfile mode := by
    rw [h.sent, ← List.replicate_succ']
    exact fun b hb => List.eq_of_mem_replicate hb
  have hlen : sent.length = k := by rw [h.sent, List.length_replicate]
  have hatt := h.attempts
  have hle := Bool.toNat_le (world k).isAnswered
  have hle' := Bool.toNat_le (world (k + 1)).isAnswered
  obtain ⟨a, hd, htr⟩ := oneAttempt_truncated ht
  rcases afterTruncation_cases cfg mode (oneAttempt cfg mode record (world k)).1
    (sent ++ [reasoningBodyAdditions cfg.reasoningProfile mode]) (world (k + 1)) with
    hstop | ⟨hp, hm, hreq, hend⟩
  · rw [hstop]
    refine ⟨hkept, ?_, fun b hb => hsent b (List.dropLast_subset _ hb), by simp⟩
    rw [oneAttempt_attempts]
    omega
  · have hoff := hkept.oneAttempt (h.off_new hp hm hd) (world (k + 1))
    have hdrop : ∀ b ∈ (afterTruncation cfg mode (oneAttempt cfg mode record (world k)).1
        (sent ++ [reasoningBodyAdditions cfg.reasoningProfile mode])
        (world (k + 1))).requests.dropLast,
        b = reasoningBodyAdditions cfg.reasoningProfile mode := by
      rw [hreq, List.dropLast_concat]
      exact hsent
    rcases hend with ⟨m, hok, hres, hrec⟩ | ⟨hres, hrec⟩
    · obtain ⟨b, t, hw, hmod, hlast, hcut, hval, hmode⟩ := returned_last hok
      have hany : (oneAttempt cfg (some .off) (oneAttempt cfg mode record (world k)).1
          (world (k + 1))).1.attemptsDetail.any (·.truncated) = true := by
        rw [← hoff.cut]
        rcases oneAttempt_cases cfg (some .off)
          (oneAttempt cfg mode record (world k)).1 (world (k + 1)) with
          ⟨-, h', -, -⟩ | ⟨_, -, -, h', -⟩ <;> simp [h', htr]
      refine ⟨?_, ?_, hdrop, ?_⟩
      · rw [hrec]
        exact ⟨hoff.follows, hoff.counted, hany.symm⟩
      · rw [hrec]
        show ((oneAttempt cfg (some .off) _ (world (k + 1))).1.attempts : Int) ≤ _
        rw [oneAttempt_attempts, oneAttempt_attempts]
        omega
      · intro m' hm'
        obtain rfl : m = m' := by simpa [hres] using hm'
        refine ⟨b, t, ?_, hmod, ?_, hcut, hval, ?_⟩
        · rw [hreq]
          simpa [hlen] using hw
        · rw [hrec]
          exact hlast
        · rw [hrec]
          exact hmode
    · refine ⟨hrec ▸ hoff, ?_, hdrop, fun m hm => absurd hm (hres m)⟩
      rw [hrec, oneAttempt_attempts, oneAttempt_attempts]
      omega

theorem chatLoop_unrepeated {mode : Option ReasoningMode} {world : Nat → Response α}
    {f : Finished α} (fuel : Nat) : ∀ {k : Nat} {record : CallRecord} {sent : List Body},
      LoopInv cfg mode record k sent → chatLoop cfg mode world fuel k record sent = some f →
      Unrepeated cfg mode world f := by
  induction fuel with
  | zero =>
    intro k record sent _ h
    cases h
  | succ fuel ih =>
    intro k record sent hinv h
    have hkept : Kept cfg (oneAttempt cfg mode record (world k)).1 := hinv.kept.oneAttempt
      (fun a ha ht => by simp [hinv.uncut a ha] at ht) (world k)
    have hlen : sent.length = k := by rw [hinv.sent, List.length_replicate]
    have hsent : ∀ b ∈ sent, b = reasoningBodyAdditions cfg.reasoningProfile mode := by
      rw [hinv.sent]
      exact fun b hb => List.eq_of_mem_replicate hb
    have hatt : (((oneAttempt cfg mode record (world k)).1.attempts : Nat) : Int) ≤
        max 1 cfg.maxRetries + 1 := by
      have hle := Bool.toNat_le (world k).isAnswered
      have := hinv.attempts
      rw [oneAttempt_attempts]
      omega
    rcases chatLoop_cases h with ⟨hr, hm, hrest⟩ | ⟨m, hok, rfl⟩ | ⟨ht, rfl⟩ | ⟨hres, hrec, hreq⟩
    · exact ih (hinv.next (world k) hr hm) hrest
    · refine ⟨⟨hkept.follows, hkept.counted, rfl⟩, hatt, ?_, ?_⟩
      · rw [List.dropLast_concat]
        exact hsent
      · intro m' hm'
        obtain rfl : m = m' := by simpa using hm'
        obtain ⟨a, t, hw, hmod, hlast, hcut, hval, hmode⟩ := returned_last hok
        exact ⟨a, t, by simpa [hlen] using hw, hmod, hlast, hcut, hval, hmode⟩
    · exact hinv.finished ht
    · refine ⟨hrec ▸ hkept, hrec ▸ hatt, ?_, fun m hm => absurd hm (hres m)⟩
      rw [hreq, List.dropLast_concat]
      exact hsent

/-- In every call that ends, no request repeats one whose answer was cut, at most one
beyond the configured attempts is answered, and what is returned is the last answer, valid
and uncut. -/
theorem chat_never_repeats_cut {mode : Option ReasoningMode} {world : Nat → Response α}
    {fuel : Nat} {f : Finished α} (h : chat cfg mode world fuel = some f) :
    Unrepeated cfg mode world f :=
  chatLoop_unrepeated fuel (LoopInv.start mode) h

/-- A request that meets no response, an answer cut at its token limit, and the answer to
the same call with reasoning off. -/
def recovered : Nat → Response Nat
  | 0 => .network
  | 1 => .answer ⟨some 40, some 100, some "length", some 3⟩
  | _ => .answer ⟨some 40, some 12, some "stop", some 7⟩

def recoveredConfig : GatewayConfig := ⟨3, 100, .halogen⟩

theorem recovered_returns : ∃ f, chat recoveredConfig none recovered 5 = some f ∧
    f.requests = [none, none, some .reasoningEffortNone] ∧
    f.record.attemptsDetail.map (·.truncated) = [true, false] :=
  ⟨_, rfl, rfl, rfl⟩

theorem chat_never_repeats_cut_recovered : ∃ f, chat recoveredConfig none recovered 5 = some f ∧
    f.requests = [none, none, some .reasoningEffortNone] ∧
    f.record.attemptsDetail.map (·.truncated) = [true, false] ∧
    Unrepeated recoveredConfig none recovered f := by
  obtain ⟨f, hf, hreq, hcut⟩ := recovered_returns
  exact ⟨f, hf, hreq, hcut, chat_never_repeats_cut hf⟩

end Calls

end Noezema.Gateway
