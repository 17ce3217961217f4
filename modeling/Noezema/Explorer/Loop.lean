import Noezema.Explorer.Gates
import Noezema.Lib.Run
import Noezema.Policy.Similarity

/-! # The explorer loop

One step of `_explorer_loop` takes one answer of the model: a completion, which the host may
reject, or a tool call, which passes the gates and the policy before it is executed. What is
outside is data of the turn: the lease, the operator, the model, the policy's evaluation and
the observation an execution returns. A step that raises rolls the session's transaction
back: what was executed stays executed, and no row of it is left (`Loop.actions`).
-/

namespace Noezema.Explorer

open Noezema.Lib
open Noezema.Memory (Text TextReader)
open Noezema.Cognition (Coverage)
open Noezema.Policy (PolicyDecision PolicyEvaluation)

/-! ## Actions -/

inductive ActionState where
  | proposed
  | policyEvaluated
  | accepted
  | started
  | completed
  | failed
  | outcomeUnknown
deriving DecidableEq, Repr

/-- A row of `actions`. -/
structure ActionRow where
  idempotencyKey : String
  idempotencyClass : IdempotencyClass
  tool : Tool
  argumentsHash : String
  policyDecision : PolicyDecision
  state : ActionState
  errorCode : Option String
deriving DecidableEq, Repr

/-- `IdempotencyVerdict`. -/
inductive IdempotencyVerdict where
  | fresh
  | replay (existing : ActionState)
  | conflict (existing : ActionState)
deriving DecidableEq, Repr

/-- `check_idempotency`. -/
def checkIdempotency (existing : Option ActionRow) (argumentsHash : String) :
    IdempotencyVerdict :=
  match existing with
  | none => .fresh
  | some row =>
    if row.argumentsHash ≠ argumentsHash then .conflict row.state else .replay row.state

/-- A tool decision, with the two arguments the loop itself reads. -/
structure ToolCall where
  tool : Tool
  argumentsHash : String
  query : Text
  url : Text
deriving DecidableEq, Repr

/-- `rep_key`. -/
def ToolCall.repKey (call : ToolCall) : String := call.tool.name ++ ":" ++ call.argumentsHash

/-- `action_key`, of the host's turn id. -/
def ToolCall.actionKey (call : ToolCall) (turnId : String) : String :=
  turnId ++ ":" ++ call.tool.name ++ ":" ++ String.ofList (call.argumentsHash.toList.take 32)

inductive Decision where
  | complete (reason : String)
  | tool (call : ToolCall)
deriving DecidableEq, Repr

/-- What one step meets outside the loop; `none` where a call raises. -/
structure Turn where
  leaseHeld : Bool
  abortRequested : Bool
  stopRequested : Bool
  answer : Option Decision
  turnId : String
  evaluation : PolicyEvaluation
  observation : Option Observation
  hostSide : Bool

inductive Ending where
  | completed
  | stopped
  | aborted
  | exhausted
  | raised
deriving DecidableEq, Repr

/-- An executed call, the observation it returned and its step. -/
structure Executed where
  call : ToolCall
  obs : Observation
  step : Nat
deriving DecidableEq, Repr

/-- The locals of the loop and the rows of `actions` its transaction holds, oldest first.
`executed` is the history of the executions that returned an observation. -/
structure Loop where
  step : Nat
  rows : List ActionRow
  toolCallCounts : String → Nat
  searchQueries : List (Text × Nat)
  unavailableHosts : List (Text × String × Nat)
  tracker : ActorSearchTracker
  coverage : Option Coverage
  completeReason : Option String
  ending : Option Ending
  executed : List Executed

def Loop.start (tracker : ActorSearchTracker) (coverage : Option Coverage) : Loop where
  step := 0
  rows := []
  toolCallCounts := fun _ => 0
  searchQueries := []
  unavailableHosts := []
  tracker := tracker
  coverage := coverage
  completeReason := none
  ending := none
  executed := []

/-- `TOOL_REPEAT_DENY_LIMIT`. -/
def toolRepeatDenyLimit : Nat := 2

/-- Why a call is not executed, in the order of the checks. -/
inductive Refusal where
  | conflict
  | replay
  | repeated (executedCount : Nat)
  | nearDuplicate (similarQuery : Text) (similarStep : Nat)
  | multiActorRepeat (priorQuery : Text) (priorStep : Nat)
  | hostUnavailable (host : Text) (kind : String) (failedStep : Nat)
deriving DecidableEq, Repr

section Steps

variable (fl : FloatArith) (t : UrlTables) (rd : TextReader) (actors : Text → List String)

namespace Loop

variable (l : Loop)

/-- The two gates of a search. -/
def searchRefusal (call : ToolCall) : Option Refusal :=
  if call.tool = .webSearch then
    match searchNearDuplicate fl t call.query l.searchQueries with
    | some (text, step, _) => some (.nearDuplicate text step)
    | none =>
      match l.tracker.repeatRefusal actors call.query with
      | some (text, step) => some (.multiActorRepeat text step)
      | none => none
  else none

/-- The gate of a fetch; an address that cannot be split raises. -/
def fetchRefusal (call : ToolCall) : Except UrlError (Option Refusal) :=
  if call.tool = .researchFetch then do
    let host ← fetchUrlHost t call.url
    if host = [] then pure none
    else
      match l.unavailableHosts.lookup host with
      | some (kind, step) => pure (some (.hostUnavailable host kind step))
      | none => pure none
  else pure none

/-- What refuses a call before its row is written. -/
def refusal (turnId : String) (call : ToolCall) : Except UrlError (Option Refusal) :=
  match checkIdempotency (l.rows.find? fun row => row.idempotencyKey = call.actionKey turnId)
      call.argumentsHash with
  | .conflict _ => pure (some .conflict)
  | .replay _ => pure (some .replay)
  | .fresh =>
    if toolRepeatDenyLimit ≤ l.toolCallCounts call.repKey then
      pure (some (.repeated (l.toolCallCounts call.repKey)))
    else
      match l.searchRefusal fl t actors call with
      | some refused => pure (some refused)
      | none => l.fetchRefusal t call

/-- The row of a call, as it is created. -/
def actionRow (turnId : String) (call : ToolCall) (decision : PolicyDecision) : ActionRow where
  idempotencyKey := call.actionKey turnId
  idempotencyClass := call.tool.idempotencyClass.getD .nonIdempotent
  tool := call.tool
  argumentsHash := call.argumentsHash
  policyDecision := decision
  state := .policyEvaluated
  errorCode := none

/-- `policy:` and the decision. -/
def policyError : PolicyDecision → String
  | .allow => "policy:allow"
  | .deny => "policy:deny"
  | .requireOperator => "policy:require_operator"

/-- The state an observation leaves its action in. -/
def settledState (obs : Observation) : ActionState :=
  if obs.resultUnknown then .outcomeUnknown else if obs.ok then .completed else .failed

/-- The row of an executed call. -/
def executedRow (turnId : String) (call : ToolCall) (obs : Observation) : ActionRow :=
  { actionRow turnId call .allow with state := settledState obs, errorCode := obs.error }

/-- The coverage after a fetch whose outcome is known. -/
def markedCoverage (call : ToolCall) (obs : Observation) :
    Except UrlError (Option Coverage) :=
  match l.coverage with
  | some c =>
    if call.tool = .researchFetch ∧ obs.resultUnknown = false then do
      pure (some (← c.mark t rd call.url obs.ok))
    else pure (some c)
  | none => pure none

/-- The hosts after a fetch: a refusal of the host marks it, the first one stays. -/
def markedHosts (call : ToolCall) (obs : Observation) (step : Nat) :
    List (Text × String × Nat) :=
  if call.tool = .researchFetch ∧ obs.ok = false ∧ obs.resultUnknown = false then
    match classifyFetchError (obs.error.getD "").toList, fetchUrlHost t call.url with
    | some kind, .ok host =>
      if host = [] ∨ (l.unavailableHosts.lookup host).isSome then l.unavailableHosts
      else l.unavailableHosts ++ [(host, kind, step)]
    | _, _ => l.unavailableHosts
  else l.unavailableHosts

/-- A search that succeeded. -/
def Searched (call : ToolCall) (obs : Observation) : Prop :=
  call.tool = .webSearch ∧ obs.ok = true ∧ obs.resultUnknown = false

instance (call : ToolCall) (obs : Observation) : Decidable (Searched call obs) := by
  unfold Searched
  infer_instance

/-- An execution, its row settled and its lists kept. -/
def record (turnId : String) (call : ToolCall) (obs : Observation) (coverage : Option Coverage) :
    Loop :=
  { l with
    rows := l.rows ++ [executedRow turnId call obs]
    toolCallCounts := fun k =>
      if k = call.repKey then l.toolCallCounts call.repKey + 1 else l.toolCallCounts k
    coverage := coverage
    unavailableHosts := l.markedHosts t call obs l.step
    searchQueries :=
      if Searched call obs then l.searchQueries ++ [(call.query, l.step)] else l.searchQueries
    tracker :=
      if Searched call obs then l.tracker.markExecuted actors call.query l.step else l.tracker
    executed := l.executed ++ [⟨call, obs, l.step⟩] }

def endWith (ending : Ending) : Loop := { l with ending := some ending }

/-- An execution whose step raises after it. -/
def lose (call : ToolCall) (obs : Observation) : Loop :=
  { l with ending := some .raised, executed := l.executed ++ [⟨call, obs, l.step⟩] }

/-- The session's rows of `actions` when its transaction has ended. -/
def actions : List ActionRow := if l.ending = some .raised then [] else l.rows

/-- A call whose row has been written. -/
def evaluated (u : Turn) (call : ToolCall) : Loop :=
  if u.evaluation.decision ≠ .allow then
    { l with rows := l.rows ++ [{ actionRow u.turnId call u.evaluation.decision with
        state := .failed
        errorCode := some (policyError u.evaluation.decision) }] }
  else
    match u.observation with
    | none => l.endWith .raised
    | some obs =>
      match l.markedCoverage t rd call obs with
      | .error _ => l.lose call obs
      | .ok coverage =>
        -- the host's own effects come after the row is settled
        if obs.resultUnknown = false ∧ u.hostSide = false then l.lose call obs
        else l.record t actors u.turnId call obs coverage

def called (u : Turn) (call : ToolCall) : Loop :=
  match l.refusal fl t actors u.turnId call with
  | .error _ => l.endWith .raised
  | .ok (some _) => l
  | .ok none => l.evaluated t rd actors u call

/-- A completion is withheld until every source the question names is covered. -/
def completed (reason : String) : Loop :=
  if l.coverage.any fun c => !c.isComplete then l
  else { l with completeReason := some reason, ending := some .completed }

/-- The body of the loop, the step counted. -/
def body (u : Turn) : Loop :=
  if u.leaseHeld = false then l.endWith .raised
  else if u.abortRequested then l.endWith .aborted
  else if u.stopRequested then
    { l with completeReason := some "operator_stop", ending := some .stopped }
  else
    match u.answer with
    | none => l.endWith .raised
    | some (.complete reason) => l.completed reason
    | some (.tool call) => l.called fl t rd actors u call

end Loop

/-- A turn of the loop, or the `else` of its `for`. -/
inductive LoopEvent where
  | turn (u : Turn)
  | exhaust

def loopStep (maxSteps : Nat) (l : Loop) : LoopEvent → Option Loop
  | .turn u =>
    if l.ending = none ∧ l.step < maxSteps then
      some ({ l with step := l.step + 1 }.body fl t rd actors u)
    else none
  | .exhaust =>
    if l.ending = none ∧ l.step = maxSteps then
      some { l with completeReason := some "budget_exhausted", ending := some .exhausted }
    else none

end Steps

/-! ## What a step does -/

section Moves

variable {fl : FloatArith} {t : UrlTables} {rd : TextReader} {actors : Text → List String}
  {l l' : Loop} {u : Turn} {call : ToolCall} {turnId : String}

/-- What has been checked of a call that is let through. -/
structure Passed (fl : FloatArith) (t : UrlTables) (actors : Text → List String) (l : Loop)
    (turnId : String) (call : ToolCall) : Prop where
  key : ∀ row ∈ l.rows, row.idempotencyKey ≠ call.actionKey turnId
  count : l.toolCallCounts call.repKey < toolRepeatDenyLimit
  search : call.tool = .webSearch → (∀ prior ∈ l.searchQueries, ¬ Repeats t call.query prior.1) ∧
    l.tracker.repeatRefusal actors call.query = none
  fetch : call.tool = .researchFetch → ∃ host, fetchUrlHost t call.url = .ok host ∧
    (host ≠ [] → l.unavailableHosts.lookup host = none)

theorem searchRefusal_none (h : l.searchRefusal fl t actors call = none)
    (htool : call.tool = .webSearch) :
    (∀ prior ∈ l.searchQueries, ¬ Repeats t call.query prior.1) ∧
      l.tracker.repeatRefusal actors call.query = none := by
  simp only [Loop.searchRefusal, htool, if_true] at h
  cases hnear : searchNearDuplicate fl t call.query l.searchQueries with
  | some near => simp [hnear] at h
  | none =>
    constructor
    · intro prior hprior hrepeats
      have hsome : (searchNearDuplicate fl t call.query l.searchQueries).isSome = true :=
        searchNearDuplicate_isSome.mpr ⟨prior, hprior, hrepeats⟩
      rw [hnear] at hsome
      cases hsome
    · cases hactor : l.tracker.repeatRefusal actors call.query with
      | none => rfl
      | some prior => simp [hnear, hactor] at h

theorem fetchRefusal_none (h : l.fetchRefusal t call = .ok none)
    (htool : call.tool = .researchFetch) : ∃ host, fetchUrlHost t call.url = .ok host ∧
      (host ≠ [] → l.unavailableHosts.lookup host = none) := by
  simp only [Loop.fetchRefusal, htool, if_true] at h
  cases hhost : fetchUrlHost t call.url with
  | error e =>
    rw [hhost] at h
    cases h
  | ok host =>
    refine ⟨host, rfl, fun hne => ?_⟩
    cases hlookup : l.unavailableHosts.lookup host with
    | none => rfl
    | some entry => simp [hhost, hne, hlookup] at h

theorem refusal_none (h : l.refusal fl t actors turnId call = .ok none) :
    Passed fl t actors l turnId call := by
  unfold Loop.refusal at h
  cases hfind : l.rows.find? fun row => row.idempotencyKey = call.actionKey turnId with
  | some row =>
    by_cases hsame : row.argumentsHash ≠ call.argumentsHash
    · simp [hfind, checkIdempotency, hsame] at h
    · simp [hfind, checkIdempotency, hsame] at h
  | none =>
    by_cases hcount : toolRepeatDenyLimit ≤ l.toolCallCounts call.repKey
    · simp [hfind, checkIdempotency, hcount] at h
    cases hsearch : l.searchRefusal fl t actors call with
    | some refused => simp [hfind, checkIdempotency, hcount, hsearch] at h
    | none =>
      simp only [hfind, checkIdempotency, hcount, hsearch, if_false] at h
      constructor
      · intro row hrow
        simpa using List.find?_eq_none.mp hfind row hrow
      · exact Nat.lt_of_not_le hcount
      · exact searchRefusal_none hsearch
      · exact fetchRefusal_none h

/-- Only a fetch whose outcome is known is marked. -/
theorem markedCoverage_error {obs : Observation} {e : UrlError}
    (h : l.markedCoverage t rd call obs = .error e) : obs.resultUnknown = false := by
  unfold Loop.markedCoverage at h
  split at h
  · split at h
    · rename_i hfetch
      exact hfetch.2
    · cases h
  · cases h

/-- A step leaves the lists as they are, adds the row of a call the policy has not allowed,
or records an execution that has passed the gates, or loses one. -/
inductive LoopMove (fl : FloatArith) (t : UrlTables) (actors : Text → List String)
    (l l' : Loop) : Prop where
  | kept (reason : Option String) (ending : Option Ending) :
      l' = { l with completeReason := reason, ending := ending } → LoopMove fl t actors l l'
  | denied (row : ActionRow) : (∀ r ∈ l.rows, r.idempotencyKey ≠ row.idempotencyKey) →
      row.policyDecision ≠ .allow → row.state = .failed →
      l' = { l with rows := l.rows ++ [row] } → LoopMove fl t actors l l'
  | executed (turnId : String) (call : ToolCall) (obs : Observation)
      (coverage : Option Coverage) : Passed fl t actors l turnId call →
      l' = l.record t actors turnId call obs coverage → LoopMove fl t actors l l'
  | lost (turnId : String) (call : ToolCall) (obs : Observation) :
      Passed fl t actors l turnId call → obs.resultUnknown = false → l' = l.lose call obs →
      LoopMove fl t actors l l'

theorem evaluated_moves (hpassed : Passed fl t actors l u.turnId call) :
    LoopMove fl t actors l (l.evaluated t rd actors u call) := by
  unfold Loop.evaluated
  split
  · rename_i hdecision
    exact .denied _ hpassed.key hdecision rfl rfl
  · split
    · exact .kept _ _ rfl
    · split
      · rename_i hmark
        exact .lost _ _ _ hpassed (markedCoverage_error hmark) rfl
      · split
        · rename_i hhost
          exact .lost _ _ _ hpassed hhost.1 rfl
        · exact .executed _ _ _ _ hpassed rfl

theorem called_moves : LoopMove fl t actors l (l.called fl t rd actors u call) := by
  unfold Loop.called
  split
  · exact .kept _ _ rfl
  · exact .kept _ _ rfl
  · rename_i hrefusal
    exact evaluated_moves (refusal_none hrefusal)

theorem body_moves : LoopMove fl t actors l (l.body fl t rd actors u) := by
  unfold Loop.body
  split
  · exact .kept _ _ rfl
  split
  · exact .kept _ _ rfl
  split
  · exact .kept _ _ rfl
  split
  · exact .kept _ _ rfl
  · unfold Loop.completed
    split
    · exact .kept _ _ rfl
    · exact .kept _ _ rfl
  · exact called_moves

end Moves

/-! ## The invariant -/

/-- A fetch that marks its host. -/
structure HostFailed (t : UrlTables) (e : Executed) (host : Text) : Prop where
  fetch : e.call.tool = .researchFetch
  failed : e.obs.ok = false
  known : e.obs.resultUnknown = false
  kind : (classifyFetchError (e.obs.error.getD "").toList).isSome = true
  host_eq : fetchUrlHost t e.call.url = .ok host
  host_ne : host ≠ []

/-- What an execution owes to an earlier one: a search repeats no search that succeeded,
nor is it a second aggregate; a fetch does not go to a host that refused. -/
structure Follows (t : UrlTables) (actors : Text → List String) (tracker : ActorSearchTracker)
    (a b : Executed) : Prop where
  search : Loop.Searched a.call a.obs → b.call.tool = .webSearch →
    ¬ Repeats t b.call.query a.call.query
  aggregate : Loop.Searched a.call a.obs → b.call.tool = .webSearch →
    multiActorMin ≤ tracker.named.length → tracker.isAggregate actors a.call.query = true →
    tracker.isAggregate actors b.call.query = false
  host : ∀ host, HostFailed t a host → b.call.tool = .researchFetch →
    fetchUrlHost t b.call.url ≠ .ok host

/-- The executions of a call. -/
def timesExecuted (executed : List Executed) (repKey : String) : Nat :=
  (executed.filter fun e => e.call.repKey = repKey).length

/-- What a row and an execution have in common. -/
def Executed.outcome (e : Executed) : Tool × String × ActionState × Option String :=
  (e.call.tool, e.call.argumentsHash, Loop.settledState e.obs, e.obs.error)

def ActionRow.outcome (r : ActionRow) : Tool × String × ActionState × Option String :=
  (r.tool, r.argumentsHash, r.state, r.errorCode)

/-- The rows the policy allowed. -/
def allowedRows (rows : List ActionRow) : List ActionRow :=
  rows.filter fun r => r.policyDecision = .allow

/-- The lists of the loop and the rows are those of its executions. -/
structure LoopInv (t : UrlTables) (actors : Text → List String) (tracker : ActorSearchTracker)
    (l : Loop) : Prop where
  named : l.tracker.named = tracker.named
  counts : ∀ k, l.toolCallCounts k = timesExecuted l.executed k
  limit : ∀ k, l.toolCallCounts k ≤ toolRepeatDenyLimit
  searches : ∀ e ∈ l.executed, Loop.Searched e.call e.obs →
    ∃ prior ∈ l.searchQueries, prior.1 = e.call.query
  armed : ∀ e ∈ l.executed, Loop.Searched e.call e.obs →
    tracker.isAggregate actors e.call.query = true → l.tracker.aggregate.isSome = true
  hosts : ∀ e ∈ l.executed, ∀ host, HostFailed t e host →
    (l.unavailableHosts.lookup host).isSome = true
  follows : l.executed.Pairwise (Follows t actors tracker)
  keys : (l.rows.map (·.idempotencyKey)).Nodup
  settled : (allowedRows l.rows).map ActionRow.outcome = l.executed.map Executed.outcome
  refused : ∀ r ∈ l.rows, r.policyDecision ≠ .allow → r.state = .failed

section Invariant

variable {fl : FloatArith} {t : UrlTables} {actors : Text → List String}
  {tracker : ActorSearchTracker} {l : Loop}

theorem LoopInv.start (coverage : Option Coverage) :
    LoopInv t actors tracker (.start tracker coverage) where
  named := rfl
  counts := fun _ => rfl
  limit := fun _ => Nat.zero_le _
  searches := by simp [Loop.start]
  armed := by simp [Loop.start]
  hosts := by simp [Loop.start]
  follows := List.Pairwise.nil
  keys := List.nodup_nil
  settled := rfl
  refused := by simp [Loop.start]

/-- The invariant reads neither the step, nor the coverage, nor how the loop ends. -/
theorem LoopInv.of_lists (h : LoopInv t actors tracker l) (step : Nat)
    (reason : Option String) (ending : Option Ending) :
    LoopInv t actors tracker { l with step := step, completeReason := reason, ending := ending } :=
  ⟨h.named, h.counts, h.limit, h.searches, h.armed, h.hosts, h.follows, h.keys, h.settled,
    h.refused⟩

theorem nodup_keys_append {rows : List ActionRow} {row : ActionRow}
    (h : (rows.map (·.idempotencyKey)).Nodup)
    (hnew : ∀ r ∈ rows, r.idempotencyKey ≠ row.idempotencyKey) :
    ((rows ++ [row]).map (·.idempotencyKey)).Nodup := by
  rw [List.map_append, List.map_singleton]
  refine h.append (List.nodup_singleton _) ?_
  intro k hk hrow
  obtain ⟨r, hr, rfl⟩ := List.mem_map.mp hk
  exact hnew r hr (List.mem_singleton.mp hrow)

/-- A refused row. -/
theorem LoopInv.denied (h : LoopInv t actors tracker l) {row : ActionRow}
    (hnew : ∀ r ∈ l.rows, r.idempotencyKey ≠ row.idempotencyKey)
    (hdecision : row.policyDecision ≠ .allow) (hstate : row.state = .failed) :
    LoopInv t actors tracker { l with rows := l.rows ++ [row] } where
  named := h.named
  counts := h.counts
  limit := h.limit
  searches := h.searches
  armed := h.armed
  hosts := h.hosts
  follows := h.follows
  keys := nodup_keys_append h.keys hnew
  settled := by
    have hrows : allowedRows (l.rows ++ [row]) = allowedRows l.rows := by
      simp [allowedRows, hdecision]
    exact hrows ▸ h.settled
  refused := by
    intro r hr hne
    rcases List.mem_append.mp hr with hr | hr
    · exact h.refused r hr hne
    · rw [List.mem_singleton.mp hr]
      exact hstate

/-- The call that is let through follows every earlier execution. -/
theorem LoopInv.passed_follows {turnId : String} {call : ToolCall} {obs : Observation}
    {step : Nat} (h : LoopInv t actors tracker l) (hpassed : Passed fl t actors l turnId call) :
    ∀ e ∈ l.executed, Follows t actors tracker e ⟨call, obs, step⟩ := by
  intro e he
  constructor
  · intro hsearched htool
    obtain ⟨prior, hprior, hquery⟩ := h.searches e he hsearched
    rw [← hquery]
    exact (hpassed.search htool).1 prior hprior
  · intro hsearched htool hmany hagg
    by_contra hsecond
    have hrefusal : (l.tracker.repeatRefusal actors call.query).isSome = true := by
      rw [ActorSearchTracker.repeatRefusal_isSome]
      refine ⟨h.named ▸ hmany, h.armed e he hsearched hagg, ?_⟩
      rw [ActorSearchTracker.isAggregate_congr h.named]
      simpa using hsecond
    rw [(hpassed.search htool).2] at hrefusal
    cases hrefusal
  · intro host hfailed htool heq
    obtain ⟨host', hhost', hfree⟩ := hpassed.fetch htool
    have hsame : host' = host := Except.ok.inj (hhost'.symm.trans heq)
    subst hsame
    have hmarked := h.hosts e he _ hfailed
    rw [hfree hfailed.host_ne] at hmarked
    cases hmarked

theorem lookup_append_isSome {hosts : List (Text × String × Nat)} {entry : Text × String × Nat}
    {host : Text} : ((hosts ++ [entry]).lookup host).isSome = true ↔
      (hosts.lookup host).isSome = true ∨ host = entry.1 := by
  obtain ⟨name, value⟩ := entry
  rw [List.lookup_append, Option.isSome_or]
  by_cases hname : host = name
  · simp [List.lookup, hname]
  · have hbeq : (host == name) = false := by simpa using hname
    simp only [List.lookup, hbeq, Option.isSome_none, Bool.or_false]
    simp [hname]

/-- A host that is marked stays marked, and a fetch that fails marks its own. -/
theorem markedHosts_isSome {call : ToolCall} {obs : Observation} {step : Nat} {host : Text}
    (h : (l.unavailableHosts.lookup host).isSome = true ∨ HostFailed t ⟨call, obs, step⟩ host) :
    ((l.markedHosts t call obs step).lookup host).isSome = true := by
  unfold Loop.markedHosts
  rcases h with hold | hfailed
  · split
    · split
      · split
        · exact hold
        · exact lookup_append_isSome.mpr (.inl hold)
      · exact hold
    · exact hold
  · obtain ⟨kind, hkind⟩ := Option.isSome_iff_exists.mp hfailed.kind
    have hcond : call.tool = .researchFetch ∧ obs.ok = false ∧ obs.resultUnknown = false :=
      ⟨hfailed.fetch, hfailed.failed, hfailed.known⟩
    have hhost : fetchUrlHost t call.url = .ok host := hfailed.host_eq
    simp only [hcond, hkind, hhost, and_self, if_true]
    split
    · rename_i hmarked
      exact hmarked.resolve_left hfailed.host_ne
    · exact lookup_append_isSome.mpr (.inr rfl)

theorem timesExecuted_append (executed : List Executed) (e : Executed) (k : String) :
    timesExecuted (executed ++ [e]) k =
      timesExecuted executed k + if e.call.repKey = k then 1 else 0 := by
  by_cases hk : e.call.repKey = k
  · simp [timesExecuted, hk]
  · simp [timesExecuted, hk]

/-- An execution that has passed the gates. -/
theorem LoopInv.record (h : LoopInv t actors tracker l) {turnId : String} {call : ToolCall}
    {obs : Observation} {coverage : Option Coverage}
    (hpassed : Passed fl t actors l turnId call) :
    LoopInv t actors tracker (l.record t actors turnId call obs coverage) where
  named := by
    by_cases hsearched : Loop.Searched call obs
    · simpa [Loop.record, hsearched] using h.named
    · simpa [Loop.record, hsearched] using h.named
  counts := by
    intro k
    have hk := h.counts k
    have hcall := h.counts call.repKey
    simp only [Loop.record, timesExecuted_append]
    by_cases hsame : k = call.repKey
    · subst hsame
      simp [hcall]
    · have hne : call.repKey ≠ k := fun heq => hsame heq.symm
      simp [hsame, hne, hk]
  limit := by
    intro k
    have hcount := hpassed.count
    have hk := h.limit k
    simp only [Loop.record]
    split
    · omega
    · exact hk
  searches := by
    intro e he hsearched
    rcases List.mem_append.mp he with he | he
    · obtain ⟨prior, hprior, hquery⟩ := h.searches e he hsearched
      refine ⟨prior, ?_, hquery⟩
      simp only [Loop.record]
      split
      · exact List.mem_append_left _ hprior
      · exact hprior
    · rw [List.mem_singleton.mp he] at hsearched ⊢
      refine ⟨(call.query, l.step), ?_, rfl⟩
      simp only [Loop.record]
      rw [if_pos hsearched]
      exact List.mem_append_right _ (List.mem_singleton.mpr rfl)
  armed := by
    intro e he hsearched hagg
    simp only [Loop.record]
    rcases List.mem_append.mp he with he | he
    · have hold := h.armed e he hsearched hagg
      split
      · exact ActorSearchTracker.markExecuted_aggregate.mpr (.inl hold)
      · exact hold
    · rw [List.mem_singleton.mp he] at hsearched hagg
      rw [if_pos hsearched]
      refine ActorSearchTracker.markExecuted_aggregate.mpr (.inr ?_)
      rw [ActorSearchTracker.isAggregate_congr h.named]
      exact hagg
  hosts := by
    intro e he host hfailed
    rcases List.mem_append.mp he with he | he
    · exact markedHosts_isSome (.inl (h.hosts e he host hfailed))
    · rw [List.mem_singleton.mp he] at hfailed
      exact markedHosts_isSome (.inr hfailed)
  follows := by
    refine List.pairwise_append.mpr ⟨h.follows, List.pairwise_singleton _ _, ?_⟩
    intro a ha b hb
    rw [List.mem_singleton.mp hb]
    exact h.passed_follows hpassed a ha
  keys := nodup_keys_append h.keys hpassed.key
  settled := by
    have hrows : allowedRows (l.rows ++ [Loop.executedRow turnId call obs]) =
        allowedRows l.rows ++ [Loop.executedRow turnId call obs] := by
      simp [allowedRows, Loop.executedRow, Loop.actionRow]
    simp only [Loop.record, hrows, List.map_append, h.settled]
    rfl
  refused := by
    intro r hr hne
    rcases List.mem_append.mp hr with hr | hr
    · exact h.refused r hr hne
    · rw [List.mem_singleton.mp hr] at hne
      exact absurd rfl hne

/-- The loop has raised behind an execution that had passed the gates. -/
def Lost (fl : FloatArith) (t : UrlTables) (actors : Text → List String)
    (tracker : ActorSearchTracker) (l : Loop) : Prop :=
  ∃ l₀ turnId call obs, LoopInv t actors tracker l₀ ∧ Passed fl t actors l₀ turnId call ∧
    obs.resultUnknown = false ∧ l = l₀.lose call obs

/-- **The step lemma.** -/
theorem LoopInv.move (h : LoopInv t actors tracker l) {l' : Loop}
    (hmove : LoopMove fl t actors l l') :
    LoopInv t actors tracker l' ∨ Lost fl t actors tracker l' := by
  cases hmove with
  | kept reason ending heq =>
    subst heq
    exact .inl (h.of_lists l.step reason ending)
  | denied row hnew hdecision hstate heq =>
    subst heq
    exact .inl (h.denied hnew hdecision hstate)
  | executed turnId call obs coverage hpassed heq =>
    subst heq
    exact .inl (h.record hpassed)
  | lost turnId call obs hpassed hknown heq =>
    exact .inr ⟨l, turnId, call, obs, h, hpassed, hknown, heq⟩

theorem LoopInv.history (h : LoopInv t actors tracker l) :
    (∀ k, timesExecuted l.executed k ≤ toolRepeatDenyLimit) ∧
      l.executed.Pairwise (Follows t actors tracker) := by
  refine ⟨?_, h.follows⟩
  intro k
  rw [← h.counts k]
  exact h.limit k

/-- The execution that is lost had passed the gates as well. -/
theorem Lost.history (h : Lost fl t actors tracker l) :
    (∀ k, timesExecuted l.executed k ≤ toolRepeatDenyLimit) ∧
      l.executed.Pairwise (Follows t actors tracker) := by
  obtain ⟨l₀, turnId, call, obs, hinv, hpassed, -, rfl⟩ := h
  constructor
  · intro k
    have hcount := hpassed.count
    have hk := hinv.limit k
    rw [hinv.counts] at hcount hk
    rw [Loop.lose, timesExecuted_append]
    split
    · rename_i hsame
      rw [← hsame]
      exact hcount
    · exact hk
  · refine List.pairwise_append.mpr ⟨hinv.follows, List.pairwise_singleton _ _, ?_⟩
    intro a ha b hb
    rw [List.mem_singleton.mp hb]
    exact hinv.passed_follows hpassed a ha

end Invariant

/-! ## Runs of the loop -/

section Runs

variable {fl : FloatArith} {t : UrlTables} {rd : TextReader} {actors : Text → List String}
  {tracker : ActorSearchTracker} {coverage : Option Coverage} {maxSteps : Nat} {l : Loop}

/-- A row at most for each step, and an execution at most. -/
structure LoopSize (maxSteps : Nat) (l : Loop) : Prop where
  step_le : l.step ≤ maxSteps
  rows_le : l.rows.length ≤ l.step
  executed_le : l.executed.length ≤ l.step

theorem LoopSize.move {l' : Loop} (h : LoopSize maxSteps l) (hlt : l.step < maxSteps)
    (hmove : LoopMove fl t actors { l with step := l.step + 1 } l') : LoopSize maxSteps l' := by
  have hrows := h.rows_le
  have hexecuted := h.executed_le
  cases hmove with
  | kept reason ending heq =>
    subst heq
    exact ⟨hlt, Nat.le_succ_of_le hrows, Nat.le_succ_of_le hexecuted⟩
  | denied row hnew hdecision hstate heq =>
    subst heq
    refine ⟨hlt, ?_, Nat.le_succ_of_le hexecuted⟩
    simp only [List.length_append, List.length_singleton]
    omega
  | executed turnId call obs coverage hpassed heq =>
    subst heq
    refine ⟨hlt, ?_, ?_⟩
    · simp only [Loop.record, List.length_append, List.length_singleton]
      omega
    · simp only [Loop.record, List.length_append, List.length_singleton]
      omega
  | lost turnId call obs hpassed hknown heq =>
    subst heq
    refine ⟨hlt, Nat.le_succ_of_le hrows, ?_⟩
    simp only [Loop.lose, List.length_append, List.length_singleton]
    omega

theorem loopStep_turn {u : Turn} {l' : Loop}
    (h : loopStep fl t rd actors maxSteps l (.turn u) = some l') :
    l.ending = none ∧ l.step < maxSteps ∧ LoopMove fl t actors { l with step := l.step + 1 } l' := by
  simp only [loopStep] at h
  split at h
  · rename_i hopen
    cases h
    exact ⟨hopen.1, hopen.2, body_moves⟩
  · cases h

theorem loopStep_exhaust {l' : Loop}
    (h : loopStep fl t rd actors maxSteps l .exhaust = some l') : l.ending = none ∧
      l' = { l with completeReason := some "budget_exhausted", ending := some .exhausted } := by
  simp only [loopStep] at h
  split at h
  · rename_i hopen
    cases h
    exact ⟨hopen.1, rfl⟩
  · cases h

theorem loop_run (h : Run (loopStep fl t rd actors maxSteps) anyStep (.start tracker coverage) l) :
    (LoopInv t actors tracker l ∨ Lost fl t actors tracker l) ∧ LoopSize maxSteps l := by
  refine h.invariant (I := fun l => (LoopInv t actors tracker l ∨ Lost fl t actors tracker l) ∧
    LoopSize maxSteps l) ⟨.inl (.start coverage), Nat.zero_le _, Nat.zero_le _, Nat.zero_le _⟩ ?_
  intro a b e hinv _ hs
  obtain ⟨hinv, hsize⟩ := hinv
  -- a loop that has lost an execution takes no further step
  have hopen : a.ending = none → LoopInv t actors tracker a := by
    intro hend
    refine hinv.resolve_right ?_
    rintro ⟨l₀, turnId, call, obs, -, -, -, rfl⟩
    cases hend
  cases e with
  | turn u =>
    obtain ⟨hend, hlt, hmove⟩ := loopStep_turn hs
    have hkept := (hopen hend).of_lists (a.step + 1) a.completeReason a.ending
    exact ⟨hkept.move hmove, hsize.move hlt hmove⟩
  | exhaust =>
    obtain ⟨hend, rfl⟩ := loopStep_exhaust hs
    exact ⟨.inl ((hopen hend).of_lists a.step _ _), hsize.step_le, hsize.rows_le,
      hsize.executed_le⟩

/-- **The loop executes nothing it has seen**: in every run, whatever the model answers, the
same tool with the same arguments is executed twice at most; no search repeats the words of
one that succeeded, no second aggregate search follows one that succeeded, no fetch goes to
a host that refused in this session; and there are no more executions than steps. -/
theorem explorer_never_repeats
    (h : Run (loopStep fl t rd actors maxSteps) anyStep (.start tracker coverage) l) :
    (∀ k, timesExecuted l.executed k ≤ toolRepeatDenyLimit) ∧
      l.executed.Pairwise (Follows t actors tracker) ∧ l.executed.length ≤ l.step ∧
      l.step ≤ maxSteps := by
  obtain ⟨hinv, hsize⟩ := loop_run h
  have hhistory := hinv.elim LoopInv.history Lost.history
  exact ⟨hhistory.1, hhistory.2, hsize.executed_le, hsize.step_le⟩

/-- The turn that proposes a call the policy allows. -/
def allowedTurn (call : ToolCall) (turnId : String) (obs : Observation) : Turn where
  leaseHeld := true
  abortRequested := false
  stopRequested := false
  answer := some (.tool call)
  turnId := turnId
  evaluation := Policy.evaluation [] false
  observation := some obs
  hostSide := true

/-- A shell command. -/
def listingCall : ToolCall := ⟨.shellExecute, "d2c1", [], []⟩

def rateSearch : ToolCall := ⟨.webSearch, "a1", "key rate 2024".toList, []⟩

/-- The same words in another order. -/
def rateSearchAgain : ToolCall := ⟨.webSearch, "a2", "2024 rate key".toList, []⟩

def rateFetch : ToolCall := ⟨.researchFetch, "b1", [], "https://bank.example/rate".toList⟩

/-- Another page of the same host. -/
def rateFetchAgain : ToolCall := ⟨.researchFetch, "b2", [], "https://BANK.example/list".toList⟩

/-- A search is repeated, a host that refused is asked again, and the last turn raises behind
its execution. -/
def researchEvents : List LoopEvent :=
  [.turn (allowedTurn rateSearch "a" .done), .turn (allowedTurn rateSearchAgain "b" .done),
    .turn (allowedTurn rateFetch "c" (.failed "non-200 status: 403")),
    .turn (allowedTurn rateFetchAgain "d" .done), .turn (allowedTurn listingCall "e" .done),
    .turn { allowedTurn listingCall "f" .done with hostSide := false }]

theorem explorer_never_repeats_research :
    ∃ l, exec (loopStep .exact asciiTables Memory.plainReaders.text (fun _ => []) 9)
        (.start ⟨[], ∅, none⟩ none) researchEvents = some l ∧
      l.executed.map (·.call) = [rateSearch, rateFetch, listingCall, listingCall] ∧
      l.executed.Pairwise (Follows asciiTables (fun _ => []) ⟨[], ∅, none⟩) ∧
      timesExecuted l.executed listingCall.repKey ≤ toolRepeatDenyLimit := by
  have hrun : ∃ l, exec (loopStep .exact asciiTables Memory.plainReaders.text (fun _ => []) 9)
        (.start ⟨[], ∅, none⟩ none) researchEvents = some l ∧
      l.executed.map (·.call) = [rateSearch, rateFetch, listingCall, listingCall] :=
    ⟨_, rfl, rfl⟩
  obtain ⟨l, hl, hcalls⟩ := hrun
  obtain ⟨hlimit, hfollows, -⟩ := explorer_never_repeats (Run.of_exec _ hl)
  exact ⟨l, hl, hcalls, hfollows, hlimit listingCall.repKey⟩

/-- The command succeeds, then its container dies; a third proposal is refused. -/
def listingEvents : List LoopEvent :=
  [.turn (allowedTurn listingCall "a" .done), .turn (allowedTurn listingCall "b" .containerGone),
    .turn (allowedTurn listingCall "c" .done)]

/-- The loop after the three turns. -/
theorem listing_run : ∃ l, exec (loopStep .exact asciiTables Memory.plainReaders.text
    (fun _ => []) 3) (.start ⟨[], ∅, none⟩ none) listingEvents = some l ∧
      l.executed = [⟨listingCall, .done, 1⟩, ⟨listingCall, .containerGone, 2⟩] ∧ l.step = 3 :=
  ⟨_, rfl, rfl, rfl⟩

/-- Every row is settled. -/
theorem LoopInv.row_settled (h : LoopInv t actors tracker l) {r : ActionRow} (hr : r ∈ l.rows) :
    (r.policyDecision = .allow ∧ ∃ e ∈ l.executed, e.outcome = r.outcome) ∨
      (r.policyDecision ≠ .allow ∧ r.state = .failed) := by
  by_cases hallow : r.policyDecision = .allow
  · have hmem : r ∈ allowedRows l.rows := List.mem_filter.mpr ⟨hr, by simpa using hallow⟩
    have hout : r.outcome ∈ l.executed.map Executed.outcome :=
      h.settled ▸ List.mem_map_of_mem hmem
    obtain ⟨e, he, heq⟩ := List.mem_map.mp hout
    exact .inl ⟨hallow, e, he, heq⟩
  · exact .inr ⟨hallow, h.refused r hr hallow⟩

theorem Loop.settledState_unknown {obs : Observation} :
    Loop.settledState obs = .outcomeUnknown ↔ obs.resultUnknown = true := by
  unfold Loop.settledState
  split
  · rename_i hunknown
    exact iff_of_true rfl hunknown
  · rename_i hknown
    split <;> exact iff_of_false (by decide) hknown

/-- A row of unknown outcome is there just when an execution has one. -/
theorem LoopInv.unknown_iff (h : LoopInv t actors tracker l) :
    (l.rows.any fun r => r.state = .outcomeUnknown) = true ↔
      ∃ e ∈ l.executed, e.obs.resultUnknown = true := by
  rw [List.any_eq_true]
  constructor
  · intro hrow
    obtain ⟨r, hr, hstate⟩ := hrow
    have hstate : r.state = .outcomeUnknown := by simpa using hstate
    rcases h.row_settled hr with ⟨-, e, he, hout⟩ | ⟨-, hfailed⟩
    · have hsame : Loop.settledState e.obs = r.state := congrArg (·.2.2.1) hout
      exact ⟨e, he, Loop.settledState_unknown.mp (hsame.trans hstate)⟩
    · rw [hstate] at hfailed
      cases hfailed
  · intro hexec
    obtain ⟨e, he, hunknown⟩ := hexec
    have hout : e.outcome ∈ (allowedRows l.rows).map ActionRow.outcome :=
      h.settled.symm ▸ List.mem_map_of_mem he
    obtain ⟨r, hr, heq⟩ := List.mem_map.mp hout
    have hsame : r.state = Loop.settledState e.obs := congrArg (·.2.2.1) heq
    refine ⟨r, (List.mem_filter.mp hr).1, ?_⟩
    simpa using hsame.trans (Loop.settledState_unknown.mpr hunknown)

/-- The outcome of an execution that is lost was known. -/
theorem unknown_iff_run
    (h : Run (loopStep fl t rd actors maxSteps) anyStep (.start tracker coverage) l) :
    (l.rows.any fun r => r.state = .outcomeUnknown) = true ↔
      ∃ e ∈ l.executed, e.obs.resultUnknown = true := by
  rcases (loop_run h).1 with hinv | ⟨l₀, turnId, call, obs, hinv, -, hknown, rfl⟩
  · exact hinv.unknown_iff
  · have hiff := hinv.unknown_iff
    simp only [Loop.lose, List.mem_append, List.mem_singleton, or_and_right, exists_or,
      exists_eq_left, hknown, Bool.false_eq_true, or_false]
    exact hiff

/-- **One settled row for each execution**: in every run the rows that are left have distinct
idempotency keys and are settled; those the policy did not allow failed; in a run that does not
raise, those it allowed are, in order, the executions with the state and the error of their
observations; a run that raises leaves no row. -/
theorem explorer_actions_settle
    (h : Run (loopStep fl t rd actors maxSteps) anyStep (.start tracker coverage) l) :
    (l.actions.map (·.idempotencyKey)).Nodup ∧
      (∀ r ∈ l.actions, r.state = .completed ∨ r.state = .failed ∨ r.state = .outcomeUnknown) ∧
      (∀ r ∈ l.actions, r.policyDecision ≠ .allow → r.state = .failed) ∧
      (l.ending ≠ some .raised →
        (allowedRows l.actions).map ActionRow.outcome = l.executed.map Executed.outcome) ∧
      (l.ending = some .raised → l.actions = []) := by
  by_cases hraised : l.ending = some .raised
  · have hnone : l.actions = [] := if_pos hraised
    simp [hnone, hraised]
  · have hrows : l.actions = l.rows := if_neg hraised
    have hinv : LoopInv t actors tracker l := by
      refine (loop_run h).1.resolve_right ?_
      rintro ⟨l₀, turnId, call, obs, -, -, -, rfl⟩
      exact hraised rfl
    rw [hrows]
    refine ⟨hinv.keys, ?_, hinv.refused, fun _ => hinv.settled, fun hend => absurd hend hraised⟩
    intro r hr
    rcases hinv.row_settled hr with ⟨-, e, he, hout⟩ | ⟨-, hfailed⟩
    · have hsame : Loop.settledState e.obs = r.state := congrArg (·.2.2.1) hout
      rw [← hsame, Loop.settledState]
      split
      · exact .inr (.inr rfl)
      · split
        · exact .inl rfl
        · exact .inr (.inl rfl)
    · exact .inr (.inl hfailed)

theorem explorer_actions_settle_listing :
    ∃ l, exec (loopStep .exact asciiTables Memory.plainReaders.text (fun _ => []) 3)
        (.start ⟨[], ∅, none⟩ none) listingEvents = some l ∧
      l.actions.length = 2 ∧ (l.actions.map (·.idempotencyKey)).Nodup ∧
      (allowedRows l.actions).map ActionRow.outcome = l.executed.map Executed.outcome := by
  have hrun : ∃ l, exec (loopStep .exact asciiTables Memory.plainReaders.text (fun _ => []) 3)
        (.start ⟨[], ∅, none⟩ none) listingEvents = some l ∧ l.ending = none ∧
      l.actions.length = 2 := ⟨_, rfl, rfl, rfl⟩
  obtain ⟨l, hl, hopen, hlen⟩ := hrun
  obtain ⟨hkeys, -, -, hsettled, -⟩ := explorer_actions_settle (Run.of_exec _ hl)
  have hended : l.ending ≠ some .raised := by
    rw [hopen]
    exact (Option.some_ne_none _).symm
  exact ⟨l, hl, hlen, hkeys, hsettled hended⟩

end Runs

end Noezema.Explorer
