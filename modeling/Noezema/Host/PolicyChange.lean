import Mathlib.Data.String.Basic
import Mathlib.Data.List.Count
import Noezema.Lib.Run
import Noezema.Lib.Files
import Noezema.Lib.Except

/-! # The host-policy change protocol

`install_policy` and `resolve_policy` change the override file under an event
stream and a head. Each is a sequence of durable writes computed from the disk it
starts on; a crash cuts the sequence after any of them, and recovery is another
call. A run is a sequence of calls with their cuts. Policy files are their
contents; `policySha256` is the canonical hash `read_policy_file` gives a valid one.
-/

namespace Noezema.Host

open Noezema.Lib

/-! ## The disk -/

abbrev ChangeId := String

/-- The events of a change stream, with the fields of each kind. -/
inductive PolicyEventKind where
  | prepared (oldHash proposedHash actor reason sourceKind : String)
  | resolutionPrepared (baseObservedHash replacementHash : String)
  | committed (effectiveHash actor reason : String)
  | aborted (effectiveHash actor reason : String)
  | resolved (resolutionAction effectiveHash actor reason : String)
deriving DecidableEq, Repr

/-- `effective_hash` of a terminal event. -/
def PolicyEventKind.effectiveHash : PolicyEventKind → Option String
  | .prepared .. | .resolutionPrepared .. => none
  | .committed h _ _ | .aborted h _ _ | .resolved _ h _ _ => some h

/-- An event file `host-policy-events/<change_id>/<event_seq>.json`. -/
structure PolicyEvent where
  changeId : ChangeId
  eventSeq : Nat
  kind : PolicyEventKind
  hostTimestamp : String
deriving DecidableEq, Repr

def PolicyEvent.isTerminal (e : PolicyEvent) : Bool := e.kind.effectiveHash.isSome

/-- `host-policy-change-head.json`. -/
structure PolicyHead where
  changeId : ChangeId
  preparedEventSha256 : String
  oldHash : String
  proposedHash : String
  createdAt : String
deriving DecidableEq, Repr

/-- The files of the protocol. `removals` is no file: it is the history of head
removals, each with the hash the override had then. -/
structure PolicyDisk where
  events : ChangeId → List PolicyEvent
  head : Option PolicyHead
  override : Option String
  removals : List (ChangeId × Option String)

/-- What the calls read outside the disk: the hash of a policy file's content
(`none` is `PolicyError`), the packaged baseline, and the hash of an event. -/
structure PolicyHost where
  policySha256 : String → Option String
  baseline : Option String
  eventSha256 : PolicyEvent → String

/-- One durable write. -/
inductive PolicyWrite where
  | publish (event : PolicyEvent)
  | writeHead (head : PolicyHead)
  | replaceOverride (content : String)
  | removeHead
deriving DecidableEq, Repr

def PolicyDisk.overrideHash (host : PolicyHost) (d : PolicyDisk) : Option String :=
  d.override.bind host.policySha256

def applyWrite (host : PolicyHost) (d : PolicyDisk) : PolicyWrite → PolicyDisk
  | .publish e => { d with events := fun id =>
      if id = e.changeId then put PolicyEvent.eventSeq e (d.events id) else d.events id }
  | .writeHead head => { d with head := some head }
  | .replaceOverride content => { d with override := some content }
  | .removeHead =>
    match d.head with
    | none => d
    | some head => { d with
        head := none
        removals := (head.changeId, d.overrideHash host) :: d.removals }

def applyWrites (host : PolicyHost) (d : PolicyDisk) (ws : List PolicyWrite) :
    PolicyDisk :=
  ws.foldl (applyWrite host) d

/-! ## The calls -/

/-- Why a call raises before its first write. -/
inductive PolicyFailure where
  | changeInProgress
  | alreadyCurrent
  | noActiveChange
  | resolveRequires
  | policyError
deriving DecidableEq, Repr

/-- The text of a `PolicyChangeError`. -/
def PolicyFailure.text : PolicyFailure → Option String
  | .changeInProgress => some "host_policy_change_in_progress"
  | .alreadyCurrent => some "candidate_policy_is_already_current"
  | .noActiveChange => some "no_active_host_policy_change"
  | .resolveRequires => some "resolve requires --accept-current or --file"
  | .policyError => none

/-- `_current_hash`: the override if it is valid, else the baseline, else the empty
string; an invalid baseline raises. -/
def currentHash (host : PolicyHost) (d : PolicyDisk) : Except PolicyFailure String :=
  match d.overrideHash host with
  | some h => .ok h
  | none =>
    match host.baseline with
    | none => .ok ""
    | some content =>
      match host.policySha256 content with
      | some h => .ok h
      | none => .error .policyError

/-- `read_policy_file(path).host_policy_sha256` of a file that may be missing. -/
def readPolicy (host : PolicyHost) (file : Option String) : Except PolicyFailure String :=
  match file.bind host.policySha256 with
  | some h => .ok h
  | none => .error .policyError

/-- The next events of a stream: `PolicyChange` counts the files once, then goes on
by itself. -/
def streamEvent (d : PolicyDisk) (id : ChangeId) (offset : Nat) (now : String)
    (kind : PolicyEventKind) : PolicyEvent :=
  ⟨id, (d.events id).length + 1 + offset, kind, now⟩

structure Operator where
  actor : String
  reason : String
  now : String
deriving DecidableEq, Repr

/-- The durable writes of `install_policy`. -/
def installPolicy (host : PolicyHost) (d : PolicyDisk) (op : Operator)
    (candidate : Option String) (id : ChangeId) :
    Except PolicyFailure (List PolicyWrite) := do
  if d.head.isSome then throw .changeInProgress
  let proposedHash ← readPolicy host candidate
  let oldHash ← currentHash host d
  if oldHash = proposedHash then throw .alreadyCurrent
  let prepared := streamEvent d id 0 op.now
    (.prepared oldHash proposedHash op.actor op.reason "override")
  let head : PolicyHead :=
    { changeId := id
      preparedEventSha256 := host.eventSha256 prepared
      oldHash := oldHash
      proposedHash := proposedHash
      createdAt := op.now }
  return [.publish prepared, .writeHead head, .replaceOverride (candidate.getD ""),
    .publish (streamEvent d id 1 op.now (.committed proposedHash op.actor op.reason)),
    .removeHead]

/-- The durable writes of `resolve_policy`. -/
def resolvePolicy (host : PolicyHost) (d : PolicyDisk) (op : Operator)
    (acceptCurrent : Bool) (replacement : Option (Option String)) :
    Except PolicyFailure (List PolicyWrite) := do
  match d.head with
  | none => throw .noActiveChange
  | some head =>
    let id := head.changeId
    if acceptCurrent then
      let current ← readPolicy host d.override
      return [.publish (streamEvent d id 0 op.now
          (.resolved "accept_current" current op.actor op.reason)), .removeHead]
    match replacement with
    | none => throw .resolveRequires
    | some file =>
      let replacementHash ← readPolicy host file
      let observed ← currentHash host d
      return [.publish (streamEvent d id 0 op.now
          (.resolutionPrepared observed replacementHash)),
        .replaceOverride (file.getD ""),
        .publish (streamEvent d id 1 op.now
          (.resolved "install_replacement" replacementHash op.actor op.reason)),
        .removeHead]

inductive PolicyCall where
  | install (candidate : Option String) (id : ChangeId)
  | resolve (acceptCurrent : Bool) (replacement : Option (Option String))
deriving DecidableEq, Repr

/-- A call by an operator, cut after `cut` of its writes (or run to its end). -/
structure PolicyStep where
  call : PolicyCall
  op : Operator
  cut : Nat
deriving DecidableEq, Repr

def callWrites (host : PolicyHost) (d : PolicyDisk) (s : PolicyStep) :
    Except PolicyFailure (List PolicyWrite) :=
  match s.call with
  | .install candidate id => installPolicy host d s.op candidate id
  | .resolve acceptCurrent replacement =>
    resolvePolicy host d s.op acceptCurrent replacement

/-- The writes of a step that reach the disk. -/
def durableWrites (host : PolicyHost) (d : PolicyDisk) (s : PolicyStep) :
    List PolicyWrite :=
  match callWrites host d s with
  | .error _ => []
  | .ok ws => ws.take s.cut

/-- `uuid4` gives an installed change an id no stream has. -/
def PolicyStep.freshId (d : PolicyDisk) (s : PolicyStep) : Bool :=
  match s.call with
  | .install _ id => d.events id = []
  | .resolve .. => true

def policyStep (host : PolicyHost) (d : PolicyDisk) (s : PolicyStep) :
    Option PolicyDisk :=
  if s.freshId d then some (applyWrites host d (durableWrites host d s)) else none

/-! ## What each call writes -/

theorem readPolicy_ok {host : PolicyHost} {file : Option String} {h : String}
    (hr : readPolicy host file = .ok h) :
    ∃ content, file = some content ∧ host.policySha256 content = some h := by
  unfold readPolicy at hr
  split at hr
  · rename_i h' hb
    obtain ⟨content, hf, hsha⟩ := Option.bind_eq_some_iff.mp hb
    exact ⟨content, hf, hsha.trans (congrArg some (Except.ok.inj hr))⟩
  · simp at hr

/-- **An install** writes prepared, head, override, committed, and removes the
head; it starts only without a head. -/
theorem installPolicy_ok {host : PolicyHost} {d : PolicyDisk} {op : Operator}
    {candidate : Option String} {id : ChangeId} {ws : List PolicyWrite}
    (h : installPolicy host d op candidate id = .ok ws) :
    d.head = none ∧ ∃ content proposed old head, candidate = some content ∧
      host.policySha256 content = some proposed ∧ head.changeId = id ∧
      ws = [.publish (streamEvent d id 0 op.now
          (.prepared old proposed op.actor op.reason "override")),
        .writeHead head, .replaceOverride content,
        .publish (streamEvent d id 1 op.now (.committed proposed op.actor op.reason)),
        .removeHead] := by
  unfold installPolicy at h
  cases hh : d.head with
  | some head => simp [hh] at h
  | none =>
    cases hp : readPolicy host candidate with
    | error e => simp [hh, hp] at h
    | ok proposed =>
      cases ho : currentHash host d with
      | error e => simp [hh, hp, ho] at h
      | ok old =>
        obtain ⟨content, rfl, hsha⟩ := readPolicy_ok hp
        by_cases heq : old = proposed
        · simp [hh, hp, ho, heq] at h
        · simp [hh, hp, ho, heq] at h
          exact ⟨rfl, content, proposed, old, _, rfl, hsha, rfl, h.symm⟩

/-- **A resolve** accepts the current override, or replaces it; either way it ends
the stream the head names and removes the head. -/
theorem resolvePolicy_ok {host : PolicyHost} {d : PolicyDisk} {op : Operator}
    {acceptCurrent : Bool} {replacement : Option (Option String)} {ws : List PolicyWrite}
    (h : resolvePolicy host d op acceptCurrent replacement = .ok ws) :
    ∃ head, d.head = some head ∧
      ((acceptCurrent = true ∧ ∃ current, d.overrideHash host = some current ∧
          ws = [.publish (streamEvent d head.changeId 0 op.now
            (.resolved "accept_current" current op.actor op.reason)), .removeHead]) ∨
        acceptCurrent = false ∧ ∃ content sha observed, host.policySha256 content = some sha ∧
          ws = [.publish (streamEvent d head.changeId 0 op.now
              (.resolutionPrepared observed sha)),
            .replaceOverride content,
            .publish (streamEvent d head.changeId 1 op.now
              (.resolved "install_replacement" sha op.actor op.reason)),
            .removeHead]) := by
  unfold resolvePolicy at h
  cases hh : d.head with
  | none => simp [hh] at h
  | some head =>
    refine ⟨head, rfl, ?_⟩
    cases acceptCurrent with
    | true =>
      cases hp : readPolicy host d.override with
      | error e => simp [hh, hp] at h
      | ok current =>
        obtain ⟨content, hov, hsha⟩ := readPolicy_ok hp
        simp [hh, hp] at h
        exact .inl ⟨rfl, current, by simp [PolicyDisk.overrideHash, hov, hsha], h.symm⟩
    | false =>
      cases hr : replacement with
      | none =>
        simp [hh, hr] at h
      | some file =>
        cases hp : readPolicy host file with
        | error e => simp [hh, hr, hp] at h
        | ok sha =>
          cases ho : currentHash host d with
          | error e => simp [hh, hr, hp, ho] at h
          | ok observed =>
            obtain ⟨content, rfl, hsha⟩ := readPolicy_ok hp
            simp [hh, hr, hp, ho] at h
            exact .inr ⟨rfl, content, sha, observed, hsha, h.symm⟩

/-! ## The property and the invariant -/

def PolicyDisk.Prepared (d : PolicyDisk) (id : ChangeId) : Prop :=
  ∃ e ∈ d.events id, ∃ old proposed actor reason kind,
    e.kind = .prepared old proposed actor reason kind

def PolicyDisk.terminals (d : PolicyDisk) (id : ChangeId) : List PolicyEvent :=
  (d.events id).filter (·.isTerminal)

def PolicyDisk.headId (d : PolicyDisk) : Option ChangeId := d.head.map (·.changeId)

/-- The change ended: one terminal event, with the hash the override had whenever
its head was removed, and it was removed. -/
def PolicyDisk.Closed (d : PolicyDisk) (id : ChangeId) : Prop :=
  ∃ e hash, d.terminals id = [e] ∧ e.kind.effectiveHash = some hash ∧
    (id, some hash) ∈ d.removals ∧ ∀ h, (id, h) ∈ d.removals → h = some hash

/-- **Every change has one outcome.** No stream has two terminal events; a prepared
change without the head is closed; and at most one change is prepared and open. -/
structure OneOutcome (d : PolicyDisk) : Prop where
  one_terminal : ∀ id, (d.terminals id).length ≤ 1
  closed : ∀ id, d.Prepared id → d.headId ≠ some id → d.Closed id
  one_open : ∀ a b, d.Prepared a → d.Prepared b → d.terminals a = [] →
    d.terminals b = [] → a = b

/-- **The invariant**: event numbers have no gap, and every stream but the head's is
closed. -/
structure PolicyInv (d : PolicyDisk) : Prop where
  seqs : ∀ id, (d.events id).map (·.eventSeq) = List.range' 1 (d.events id).length
  one_terminal : ∀ id, (d.terminals id).length ≤ 1
  others : ∀ id, d.events id ≠ [] → d.headId ≠ some id → d.Closed id
  unremoved : ∀ id, d.headId = some id ∨ d.events id = [] → ∀ h, (id, h) ∉ d.removals

/-! ## What each write keeps -/

section Writes

variable {host : PolicyHost} {d : PolicyDisk}

/-- A stream with gapless numbers takes its next event at the end. -/
theorem events_publish {e : PolicyEvent} (h : PolicyInv d)
    (hseq : e.eventSeq = (d.events e.changeId).length + 1) (id : ChangeId) :
    (applyWrite host d (.publish e)).events id =
      if id = e.changeId then d.events id ++ [e] else d.events id := by
  simp only [applyWrite]
  split
  · rename_i heq
    subst heq
    refine put_last fun y hy => ?_
    have hmem : y.eventSeq ∈ List.range' 1 (d.events e.changeId).length := by
      rw [← h.seqs]
      exact List.mem_map.mpr ⟨y, hy, rfl⟩
    simp only [List.mem_range'_1] at hmem
    omega
  · rfl

theorem terminals_publish {e : PolicyEvent} (h : PolicyInv d)
    (hseq : e.eventSeq = (d.events e.changeId).length + 1) (id : ChangeId) :
    (applyWrite host d (.publish e)).terminals id =
      if id = e.changeId ∧ e.isTerminal then d.terminals id ++ [e]
      else d.terminals id := by
  unfold PolicyDisk.terminals
  rw [events_publish h hseq]
  by_cases hid : id = e.changeId
  · cases ht : e.isTerminal <;> simp [hid, ht]
  · simp [hid]

theorem events_publish_self {e : PolicyEvent} (h : PolicyInv d)
    (hseq : e.eventSeq = (d.events e.changeId).length + 1) :
    (applyWrite host d (.publish e)).events e.changeId = d.events e.changeId ++ [e] :=
  (events_publish h hseq e.changeId).trans (if_pos rfl)

/-- An event that ends nothing leaves the terminal events. -/
theorem terminals_publish_open {e : PolicyEvent} (h : PolicyInv d)
    (hseq : e.eventSeq = (d.events e.changeId).length + 1) (ht : e.isTerminal = false)
    (id : ChangeId) :
    (applyWrite host d (.publish e)).terminals id = d.terminals id := by
  rw [terminals_publish h hseq, if_neg]
  simp [ht]

theorem terminals_removeHead (id : ChangeId) :
    (applyWrite host d .removeHead).terminals id = d.terminals id := by
  simp only [PolicyDisk.terminals, applyWrite]
  split <;> rfl

/-- A stream's first terminal event is its only one. -/
theorem terminals_publish_end {e : PolicyEvent} (h : PolicyInv d)
    (hseq : e.eventSeq = (d.events e.changeId).length + 1) (ht : e.isTerminal = true)
    (hopen : d.terminals e.changeId = []) :
    (applyWrite host d (.publish e)).terminals e.changeId = [e] := by
  rw [terminals_publish h hseq, if_pos ⟨rfl, ht⟩, hopen]
  rfl

/-- The next event of the head's stream, if it does not end the stream twice. -/
theorem PolicyInv.publish {e : PolicyEvent} (h : PolicyInv d)
    (hid : d.headId = some e.changeId)
    (hseq : e.eventSeq = (d.events e.changeId).length + 1)
    (hterm : e.isTerminal = true → d.terminals e.changeId = []) :
    PolicyInv (applyWrite host d (.publish e)) where
  seqs := by
    intro id
    rw [events_publish h hseq]
    split
    · rename_i heq
      subst heq
      rw [List.map_append, h.seqs, List.length_append, List.length_singleton,
        List.range'_1_concat]
      simp [hseq, Nat.add_comm]
    · exact h.seqs id
  one_terminal := by
    intro id
    rw [terminals_publish h hseq]
    split
    · rename_i hboth
      rw [hboth.1, hterm hboth.2]
      simp
    · exact h.one_terminal id
  others := by
    intro id hne hhead
    have hother : id ≠ e.changeId := by
      rintro rfl
      exact hhead hid
    rw [events_publish h hseq, if_neg hother] at hne
    unfold PolicyDisk.Closed
    rw [terminals_publish h hseq, if_neg fun hb => hother hb.1]
    exact h.others id hne hhead
  unremoved := by
    intro id hor
    refine h.unremoved id ?_
    rcases hor with hhead | hnil
    · exact .inl hhead
    · rw [events_publish h hseq] at hnil
      split at hnil
      · simp at hnil
      · exact .inr hnil

/-- A head for a stream without events, where there was none. -/
theorem PolicyInv.writeHead {head : PolicyHead} (h : PolicyInv d)
    (hnone : d.head = none) (hnil : d.events head.changeId = []) :
    PolicyInv (applyWrite host d (.writeHead head)) where
  seqs := h.seqs
  one_terminal := h.one_terminal
  others := fun id hne _ => h.others id hne (by simp [PolicyDisk.headId, hnone])
  unremoved := by
    intro id hor
    rcases hor with hhead | hempty
    · obtain rfl := Option.some.inj hhead
      exact h.unremoved _ (.inr hnil)
    · exact h.unremoved id (.inr hempty)

theorem PolicyInv.replaceOverride (h : PolicyInv d) (content : String) :
    PolicyInv (applyWrite host d (.replaceOverride content)) :=
  ⟨h.seqs, h.one_terminal, h.others, h.unremoved⟩

/-- Removing the head of a stream whose one terminal event has the override's hash. -/
theorem PolicyInv.removeHead {head : PolicyHead} {e : PolicyEvent} {hash : String}
    (h : PolicyInv d) (hhead : d.head = some head)
    (hone : d.terminals head.changeId = [e]) (heff : e.kind.effectiveHash = some hash)
    (hover : d.overrideHash host = some hash) :
    PolicyInv (applyWrite host d .removeHead) := by
  have hid : d.headId = some head.changeId := by simp [PolicyDisk.headId, hhead]
  have heq : applyWrite host d .removeHead = { d with
      head := none
      removals := (head.changeId, some hash) :: d.removals } := by
    simp [applyWrite, hhead, hover]
  rw [heq]
  refine ⟨h.seqs, h.one_terminal, ?_, ?_⟩
  · intro id hne _
    by_cases hsame : id = head.changeId
    · subst hsame
      refine ⟨e, hash, hone, heff, by simp, ?_⟩
      intro x hx
      rcases List.mem_cons.mp hx with hnew | hold
      · exact (Prod.mk.inj hnew).2
      · exact absurd hold (h.unremoved _ (.inl hid) x)
    · obtain ⟨e', hash', hone', heff', hmem, huniq⟩ := h.others id hne (by
        rw [hid]
        exact fun hs => hsame (Option.some.inj hs).symm)
      refine ⟨e', hash', hone', heff', List.mem_cons_of_mem _ hmem, ?_⟩
      intro x hx
      rcases List.mem_cons.mp hx with hnew | hold
      · exact absurd (Prod.mk.inj hnew).1 hsame
      · exact huniq x hold
  · intro id hor x hx
    have hnil : d.events id = [] := by
      rcases hor with hnone | hnil
      · simp [PolicyDisk.headId] at hnone
      · exact hnil
    rcases List.mem_cons.mp hx with hnew | hold
    · have hids := (Prod.mk.inj hnew).1
      subst hids
      simp [PolicyDisk.terminals, hnil] at hone
    · exact h.unremoved id (.inr hnil) x hold

end Writes

theorem PolicyInv.oneOutcome {d : PolicyDisk} (h : PolicyInv d) : OneOutcome d where
  one_terminal := h.one_terminal
  closed := by
    rintro id ⟨e, he, -⟩ hid
    exact h.others id (List.ne_nil_of_mem he) hid
  one_open := by
    rintro a b ⟨ea, hea, -⟩ ⟨eb, heb, -⟩ ha hb
    have hopen : ∀ id, d.events id ≠ [] → d.terminals id = [] → d.headId = some id := by
      intro id hne hnil
      by_contra hid
      obtain ⟨e, hash, hone, -⟩ := h.others id hne hid
      simp [hnil] at hone
    have hha := hopen a (List.ne_nil_of_mem hea) ha
    have hhb := hopen b (List.ne_nil_of_mem heb) hb
    exact Option.some.inj (hha.symm.trans hhb)

/-! ## Runs -/

/-- `install_policy` gets past its checks: there is no head, and the candidate is a valid
policy other than the current one. -/
def PolicyDisk.installs (host : PolicyHost) (d : PolicyDisk) (candidate : Option String) :
    Bool :=
  d.head.isNone && match readPolicy host candidate, currentHash host d with
    | .ok proposed, .ok old => old ≠ proposed
    | _, _ => false

/-- `resolve_policy` gets past its checks on a disk with a head. -/
def PolicyDisk.resolves (host : PolicyHost) (d : PolicyDisk) (acceptCurrent : Bool)
    (replacement : Option (Option String)) : Bool :=
  if acceptCurrent then (readPolicy host d.override).isOk
  else match replacement with
    | none => false
    | some file => (readPolicy host file).isOk && (currentHash host d).isOk

/-- The writes of `resolve_policy` before its terminal event. -/
def writesBeforeEnd (acceptCurrent : Bool) : Nat :=
  if acceptCurrent then 0 else 2

/-- The stream of the head has a terminal event: the head outlived a crash. -/
def PolicyDisk.headEnded (d : PolicyDisk) : Bool :=
  d.head.any fun head => (d.events head.changeId).any (·.isTerminal)

/-- The call is cut where the protocol has no way back: an install between its prepared
event and its head, a resolve of an ended stream past its terminal event. -/
def PolicyStep.cutsOutcome (host : PolicyHost) (d : PolicyDisk) (s : PolicyStep) : Bool :=
  match s.call with
  | .install candidate _ => s.cut = 1 && d.installs host candidate
  | .resolve acceptCurrent replacement =>
    d.headEnded && d.resolves host acceptCurrent replacement &&
      writesBeforeEnd acceptCurrent < s.cut

/-- **The condition** on the disk before a call, the call and its cut. -/
def OutcomeSafe (host : PolicyHost) (d : PolicyDisk) (s : PolicyStep) : Prop :=
  s.cutsOutcome host d = false

instance (host : PolicyHost) (d : PolicyDisk) (s : PolicyStep) :
    Decidable (OutcomeSafe host d s) :=
  inferInstanceAs (Decidable (_ = _))

/-- A call that gets past its checks has writes to make. -/
theorem installs_iff {host : PolicyHost} {d : PolicyDisk} {op : Operator}
    {candidate : Option String} {id : ChangeId} :
    d.installs host candidate = true ↔ ∃ ws, installPolicy host d op candidate id = .ok ws := by
  unfold PolicyDisk.installs installPolicy
  cases hh : d.head with
  | some head => simp
  | none =>
    cases hp : readPolicy host candidate with
    | error e => simp
    | ok proposed =>
      cases ho : currentHash host d with
      | error e => simp
      | ok old =>
        by_cases heq : old = proposed
        · simp [heq]
        · simp [heq]

theorem resolves_iff {host : PolicyHost} {d : PolicyDisk} {op : Operator}
    {acceptCurrent : Bool} {replacement : Option (Option String)} {head : PolicyHead}
    (hhead : d.head = some head) :
    d.resolves host acceptCurrent replacement = true ↔
      ∃ ws, resolvePolicy host d op acceptCurrent replacement = .ok ws := by
  unfold PolicyDisk.resolves resolvePolicy
  rw [hhead]
  cases acceptCurrent with
  | true =>
    cases hp : readPolicy host d.override with
    | error e => simp [Except.isOk, Except.toBool]
    | ok current => simp [Except.isOk, Except.toBool]
  | false =>
    cases replacement with
    | none => simp
    | some file =>
      cases hp : readPolicy host file with
      | error e => simp [hp, Except.isOk, Except.toBool]
      | ok sha =>
        cases ho : currentHash host d with
        | error e => simp [hp, Except.isOk, Except.toBool]
        | ok observed => simp [hp, Except.isOk, Except.toBool]

theorem headEnded_iff {d : PolicyDisk} {head : PolicyHead} (hhead : d.head = some head) :
    d.headEnded = true ↔ d.terminals head.changeId ≠ [] := by
  simp [PolicyDisk.headEnded, hhead, PolicyDisk.terminals]

theorem open_of_headEnded {d : PolicyDisk} {head : PolicyHead} (hhead : d.head = some head)
    (h : d.headEnded = false) : d.terminals head.changeId = [] := by
  by_contra hne
  rw [(headEnded_iff hhead).mpr hne] at h
  cases h

/-- The writes of an install keep the invariant, cut anywhere but after the first. -/
theorem PolicyInv.install {host : PolicyHost} {d : PolicyDisk} {op : Operator}
    {candidate : Option String} {id : ChangeId} {ws : List PolicyWrite} (cut : Nat)
    (h : PolicyInv d) (hfresh : d.events id = [])
    (hws : installPolicy host d op candidate id = .ok ws)
    (hcut : cut ≠ 1) : PolicyInv (applyWrites host d (ws.take cut)) := by
  obtain ⟨hnone, content, proposed, old, head, -, hsha, hid, rfl⟩ := installPolicy_ok hws
  subst hid
  let prepared := streamEvent d head.changeId 0 op.now
    (.prepared old proposed op.actor op.reason "override")
  let committed := streamEvent d head.changeId 1 op.now
    (.committed proposed op.actor op.reason)
  -- publishing and writing the head commute: the head first makes it the head's stream
  let d₁ := applyWrite host d (.writeHead head)
  let d₂ := applyWrite host d₁ (.publish prepared)
  let d₃ := applyWrite host d₂ (.replaceOverride content)
  let d₄ := applyWrite host d₃ (.publish committed)
  have h₁ : PolicyInv d₁ := h.writeHead hnone hfresh
  have hseq₁ : prepared.eventSeq = (d₁.events prepared.changeId).length + 1 := rfl
  have h₂ : PolicyInv d₂ := h₁.publish rfl hseq₁ fun ht => by simp [prepared, streamEvent,
    PolicyEvent.isTerminal, PolicyEventKind.effectiveHash] at ht
  have hev : d₂.events head.changeId = [prepared] := by
    have hself : d₂.events head.changeId = d₁.events head.changeId ++ [prepared] :=
      events_publish_self h₁ hseq₁
    refine hself.trans ?_
    show d.events head.changeId ++ [prepared] = [prepared]
    rw [hfresh]
    rfl
  have h₃ : PolicyInv d₃ := h₂.replaceOverride content
  have hseq₃ : committed.eventSeq = (d₃.events committed.changeId).length + 1 := by
    show (d.events head.changeId).length + 1 + 1 = (d₂.events head.changeId).length + 1
    rw [hev, hfresh]
    rfl
  have hopen : d₃.terminals committed.changeId = [] := by
    show (d₂.events head.changeId).filter (·.isTerminal) = []
    rw [hev]
    rfl
  have h₄ : PolicyInv d₄ := h₃.publish rfl hseq₃ fun _ => hopen
  have hone : d₄.terminals head.changeId = [committed] :=
    terminals_publish_end h₃ hseq₃ rfl hopen
  have h₅ : PolicyInv (applyWrite host d₄ .removeHead) :=
    h₄.removeHead rfl hone rfl (by
      show (some content).bind host.policySha256 = some proposed
      exact hsha)
  rcases cut with _ | _ | _ | _ | _ | n
  · exact h
  · exact absurd rfl hcut
  · exact h₂
  · exact h₃
  · exact h₄
  · simp only [List.take_succ_cons, List.take_nil]
    exact h₅

/-- **Up to its terminal event** a replacement keeps the invariant and the terminal events of
the head's stream, which is one event longer. -/
theorem PolicyInv.planned {host : PolicyHost} {d : PolicyDisk} {head : PolicyHead}
    (h : PolicyInv d) (hhead : d.head = some head) (time content sha observed : String) :
    let planned := streamEvent d head.changeId 0 time (.resolutionPrepared observed sha)
    let d₁ := applyWrite host d (.publish planned)
    let d₂ := applyWrite host d₁ (.replaceOverride content)
    PolicyInv d₁ ∧ PolicyInv d₂ ∧
      d₂.terminals head.changeId = d.terminals head.changeId ∧
      (d₂.events head.changeId).length = (d.events head.changeId).length + 1 := by
  intro planned d₁ d₂
  have hid : d.headId = some head.changeId := by simp [PolicyDisk.headId, hhead]
  have hopen : planned.isTerminal = false := rfl
  have hseq : planned.eventSeq = (d.events planned.changeId).length + 1 := rfl
  have h₁ : PolicyInv d₁ :=
    h.publish hid hseq fun ht => absurd (hopen.symm.trans ht) Bool.false_ne_true
  have hev : d₁.events head.changeId = d.events head.changeId ++ [planned] :=
    events_publish_self h hseq
  refine ⟨h₁, h₁.replaceOverride content, ?_, ?_⟩
  · exact @terminals_publish_open host _ _ h hseq hopen head.changeId
  · show (d₁.events head.changeId).length = _
    rw [hev, List.length_append]
    rfl

/-- The writes of a resolve keep the invariant, if it ends a stream only where the stream
is open. -/
theorem PolicyInv.resolve {host : PolicyHost} {d : PolicyDisk} {op : Operator}
    {acceptCurrent : Bool} {replacement : Option (Option String)} {ws : List PolicyWrite}
    (cut : Nat) (h : PolicyInv d)
    (hws : resolvePolicy host d op acceptCurrent replacement = .ok ws)
    (hcut : writesBeforeEnd acceptCurrent < cut → d.headEnded = false) :
    PolicyInv (applyWrites host d (ws.take cut)) := by
  obtain ⟨head, hhead, ⟨hcurrent, current, hover, rfl⟩ |
    ⟨hreplace, content, sha, observed, hsha, rfl⟩⟩ := resolvePolicy_ok hws
  · have hid : d.headId = some head.changeId := by simp [PolicyDisk.headId, hhead]
    let resolved := streamEvent d head.changeId 0 op.now
      (.resolved "accept_current" current op.actor op.reason)
    have hseq : resolved.eventSeq = (d.events resolved.changeId).length + 1 := rfl
    rcases cut with _ | n
    · exact h
    · have hopen : d.terminals head.changeId = [] :=
        open_of_headEnded hhead (hcut (by simp [writesBeforeEnd, hcurrent]))
      have h₁ : PolicyInv (applyWrite host d (.publish resolved)) :=
        h.publish hid hseq fun _ => hopen
      have hone : (applyWrite host d (.publish resolved)).terminals head.changeId =
          [resolved] := terminals_publish_end h hseq rfl hopen
      rcases n with _ | n
      · exact h₁
      · have h₂ : PolicyInv (applyWrite host _ .removeHead) :=
          h₁.removeHead hhead hone rfl hover
        simp only [List.take_succ_cons, List.take_nil]
        exact h₂
  · obtain ⟨h₁, h₂, hkept, hlen⟩ :=
      @PolicyInv.planned host _ _ h hhead op.now content sha observed
    let resolved := streamEvent d head.changeId 1 op.now
      (.resolved "install_replacement" sha op.actor op.reason)
    rcases cut with _ | _ | _ | n
    · exact h
    · exact h₁
    · exact h₂
    · have hopen := hkept.trans
        (open_of_headEnded hhead (hcut (by simp [writesBeforeEnd, hreplace])))
      have hid : d.headId = some head.changeId := by simp [PolicyDisk.headId, hhead]
      have hseq : resolved.eventSeq = _ + 1 := congrArg (· + 1) hlen.symm
      have h₃ : PolicyInv (applyWrite host _ (.publish resolved)) :=
        h₂.publish hid hseq fun _ => hopen
      have hone : (applyWrite host _ (.publish resolved)).terminals head.changeId =
          [resolved] := terminals_publish_end h₂ hseq rfl hopen
      rcases n with _ | n
      · exact h₃
      · have h₄ : PolicyInv (applyWrite host _ .removeHead) :=
          h₃.removeHead hhead hone rfl hsha
        simp only [List.take_succ_cons, List.take_nil]
        exact h₄

theorem PolicyInv.step {host : PolicyHost} {d d' : PolicyDisk} {s : PolicyStep}
    (h : PolicyInv d) (hg : OutcomeSafe host d s) (hs : policyStep host d s = some d') :
    PolicyInv d' := by
  simp only [policyStep] at hs
  split at hs
  · rename_i hfresh
    obtain rfl := Option.some.inj hs
    unfold OutcomeSafe PolicyStep.cutsOutcome at hg
    unfold durableWrites
    cases hw : callWrites host d s with
    | error e => exact h
    | ok ws =>
      show PolicyInv (applyWrites host d (ws.take s.cut))
      unfold callWrites at hw
      unfold PolicyStep.freshId at hfresh
      cases hc : s.call with
      | install candidate id =>
        simp only [hc, decide_eq_true_eq] at hw hfresh
        refine h.install s.cut hfresh hw fun hone => ?_
        simp [hc, hone, installs_iff.mpr ⟨ws, hw⟩] at hg
      | resolve acceptCurrent replacement =>
        simp only [hc] at hw
        refine h.resolve s.cut hw fun hlt => ?_
        obtain ⟨head, hhead, -⟩ := resolvePolicy_ok hw
        simpa [hc, hlt, (resolves_iff hhead).mpr ⟨ws, hw⟩] using hg
  · simp at hs

/-- A disk on which no change was ever made. -/
structure PolicyDisk.Initial (d : PolicyDisk) : Prop where
  events : ∀ id, d.events id = []
  head : d.head = none
  removals : d.removals = []

theorem PolicyInv.initial {d : PolicyDisk} (h : d.Initial) : PolicyInv d where
  seqs := by simp [h.events]
  one_terminal := by simp [PolicyDisk.terminals, h.events]
  others := fun id hne => absurd (h.events id) hne
  unremoved := by simp [h.removals]

/-- **One outcome in every safe run**: in every run of calls whose cuts meet the
condition, every disk reached has one outcome for each change. -/
theorem policy_change_one_outcome {host : PolicyHost} {d₀ d : PolicyDisk}
    (h : d₀.Initial) (hrun : Run (policyStep host) (OutcomeSafe host) d₀ d) :
    OneOutcome d :=
  (hrun.invariant (PolicyInv.initial h) fun hi hg hs => hi.step hg hs).oneOutcome

/-! ## Witness and counterexamples -/

/-- Policy files whose content is their hash, an empty one being invalid. -/
def plainHost : PolicyHost where
  policySha256 := fun content => if content = "" then none else some content
  baseline := some "base"
  eventSha256 := fun e => e.changeId

def plainDisk : PolicyDisk := ⟨fun _ => [], none, some "old", []⟩

def operator : Operator := ⟨"root", "drill", "2026-01-01T00:00:00Z"⟩

/-- An install cut after its override is replaced, then resolved. -/
theorem policy_change_one_outcome_resolved :
    ∃ d, exec (policyStep plainHost) plainDisk
        [⟨.install (some "new") "c1", operator, 3⟩, ⟨.resolve true none, operator, 9⟩] =
          some d ∧
      d.headId = none ∧ (d.terminals "c1").map (·.kind.effectiveHash) = [some "new"] ∧
      OneOutcome d := by
  refine ⟨_, rfl, rfl, rfl, ?_⟩
  have hinit : plainDisk.Initial := ⟨fun _ => rfl, rfl, rfl⟩
  have hrun : Run (policyStep plainHost) (OutcomeSafe plainHost) plainDisk _ :=
    .snoc (e := ⟨.resolve true none, operator, 9⟩)
      (.snoc (e := ⟨.install (some "new") "c1", operator, 3⟩) .nil ?_ rfl) ?_ rfl
  · exact policy_change_one_outcome hinit hrun
  · decide
  · decide

/-- An install cut right after its prepared event leaves an orphan the next install
does not see; an install cut before its head is removed is ended again by the
resolve that follows. -/
theorem policy_change_two_outcomes :
    ¬ ∀ (host : PolicyHost) (d₀ d : PolicyDisk), d₀.Initial →
      Run (policyStep host) anyStep d₀ d → OneOutcome d := by
  intro h
  have hrun : ∃ d, exec (policyStep plainHost) plainDisk
      [⟨.install (some "new") "c1", operator, 1⟩,
        ⟨.install (some "newer") "c2", operator, 4⟩,
        ⟨.resolve true none, operator, 9⟩] = some d ∧
      (d.terminals "c2").length = 2 ∧ d.terminals "c1" = [] := ⟨_, rfl, rfl, rfl⟩
  obtain ⟨d, hexec, htwo, -⟩ := hrun
  have hone := (h plainHost plainDisk d ⟨fun _ => rfl, rfl, rfl⟩
    (Run.of_exec _ hexec)).one_terminal "c2"
  omega

/-! ## The condition is exact -/

/-- Cutting an install after its first write leaves its change open without a head. -/
theorem PolicyInv.install_orphan {host : PolicyHost} {d : PolicyDisk} {op : Operator}
    {candidate : Option String} {id : ChangeId} {ws : List PolicyWrite}
    (h : PolicyInv d) (hfresh : d.events id = [])
    (hws : installPolicy host d op candidate id = .ok ws) :
    ¬ OneOutcome (applyWrites host d (ws.take 1)) := by
  obtain ⟨hnone, content, proposed, old, head, -, hsha, rfl, rfl⟩ := installPolicy_ok hws
  let prepared := streamEvent d head.changeId 0 op.now
    (.prepared old proposed op.actor op.reason "override")
  intro hout
  let d' := applyWrite host d (.publish prepared)
  have hev : d'.events head.changeId = d.events head.changeId ++ [prepared] :=
    events_publish_self h rfl
  rw [hfresh, List.nil_append] at hev
  have hprep : d'.Prepared head.changeId :=
    ⟨prepared, by rw [hev]; simp, _, _, _, _, _, rfl⟩
  have hid : d'.headId ≠ some head.changeId := by
    show d.headId ≠ _
    simp [PolicyDisk.headId, hnone]
  obtain ⟨e, hash, hterm, -⟩ := hout.closed head.changeId hprep hid
  have hopen : d'.terminals head.changeId = [] := by
    unfold PolicyDisk.terminals
    rw [hev]
    rfl
  exact absurd (hopen.symm.trans hterm) (by simp)

/-- Ending an ended stream gives it a second terminal event. -/
theorem PolicyInv.end_twice {host : PolicyHost} {d : PolicyDisk} {e : PolicyEvent}
    (h : PolicyInv d) (hseq : e.eventSeq = (d.events e.changeId).length + 1)
    (hterm : e.isTerminal = true) (hended : d.terminals e.changeId ≠ []) :
    1 < ((applyWrite host d (.publish e)).terminals e.changeId).length := by
  rw [terminals_publish h hseq, if_pos ⟨rfl, hterm⟩, List.length_append]
  have := List.length_pos_iff.mpr hended
  simp only [List.length_singleton]
  omega

/-- A resolve that reaches its terminal event on an ended stream ends it twice. -/
theorem PolicyInv.resolve_twice {host : PolicyHost} {d : PolicyDisk} {op : Operator}
    {acceptCurrent : Bool} {replacement : Option (Option String)} {ws : List PolicyWrite}
    {cut : Nat} (h : PolicyInv d)
    (hws : resolvePolicy host d op acceptCurrent replacement = .ok ws)
    (hcut : writesBeforeEnd acceptCurrent < cut) (hended : d.headEnded = true) :
    ¬ OneOutcome (applyWrites host d (ws.take cut)) := by
  intro hout
  obtain ⟨head, hhead, ⟨hcurrent, current, -, rfl⟩ |
    ⟨hreplace, content, sha, observed, -, rfl⟩⟩ := resolvePolicy_ok hws
  · let resolved := streamEvent d head.changeId 0 op.now
      (.resolved "accept_current" current op.actor op.reason)
    have hle := hout.one_terminal head.changeId
    have hlt : 1 < ((applyWrite host d (.publish resolved)).terminals
        head.changeId).length :=
      h.end_twice (e := resolved) rfl rfl ((headEnded_iff hhead).mp hended)
    rcases cut with _ | _ | n
    · simp [writesBeforeEnd, hcurrent] at hcut
    · exact absurd hlt (Nat.not_lt.mpr hle)
    · simp only [List.take_succ_cons, List.take_nil] at hle
      have hle' : ((applyWrite host (applyWrite host d (.publish resolved))
          .removeHead).terminals head.changeId).length ≤ 1 := hle
      rw [terminals_removeHead] at hle'
      omega
  · let planned := streamEvent d head.changeId 0 op.now (.resolutionPrepared observed sha)
    let d₂ := applyWrite host (applyWrite host d (.publish planned)) (.replaceOverride content)
    obtain ⟨-, h₂, hkept, hlen⟩ :=
      @PolicyInv.planned host _ _ h hhead op.now content sha observed
    let resolved := streamEvent d head.changeId 1 op.now
      (.resolved "install_replacement" sha op.actor op.reason)
    have hle := hout.one_terminal head.changeId
    have hlt : 1 < ((applyWrite host d₂ (.publish resolved)).terminals
        head.changeId).length := by
      refine h₂.end_twice (e := resolved) (congrArg (· + 1) hlen.symm) rfl ?_
      show d₂.terminals head.changeId ≠ []
      rw [hkept]
      exact (headEnded_iff hhead).mp hended
    simp only [writesBeforeEnd, hreplace, Bool.false_eq_true, if_false] at hcut
    rcases cut with _ | _ | _ | _ | n
    · omega
    · omega
    · omega
    · exact absurd hlt (Nat.not_lt.mpr hle)
    · simp only [List.take_succ_cons, List.take_nil] at hle
      have hle' : ((applyWrite host (applyWrite host d₂ (.publish resolved))
          .removeHead).terminals head.changeId).length ≤ 1 := hle
      rw [terminals_removeHead] at hle'
      omega

/-- **The condition is exact**: a call that breaks it, from a disk of a safe run,
leaves a disk without one outcome for each change. -/
theorem policy_change_unsafe {host : PolicyHost} {d d' : PolicyDisk} {s : PolicyStep}
    (h : PolicyInv d) (hs : policyStep host d s = some d')
    (hg : ¬ OutcomeSafe host d s) : ¬ OneOutcome d' := by
  simp only [policyStep] at hs
  split at hs
  · rename_i hfresh
    obtain rfl := Option.some.inj hs
    unfold OutcomeSafe PolicyStep.cutsOutcome at hg
    unfold durableWrites callWrites
    unfold PolicyStep.freshId at hfresh
    cases hc : s.call with
    | install candidate id =>
      simp only [hc, decide_eq_true_eq] at hfresh
      obtain ⟨hone, hinstalls⟩ : s.cut = 1 ∧ d.installs host candidate = true := by
        simpa [hc] using hg
      obtain ⟨ws, hws⟩ := (@installs_iff _ _ s.op _ id).mp hinstalls
      simp only [hws, hone]
      exact h.install_orphan hfresh hws
    | resolve acceptCurrent replacement =>
      obtain ⟨hended, hresolves, hlt⟩ : d.headEnded = true ∧
          d.resolves host acceptCurrent replacement = true ∧
          writesBeforeEnd acceptCurrent < s.cut := by
        simpa [hc, and_assoc] using hg
      obtain ⟨head, hhead⟩ : ∃ head, d.head = some head := by
        cases hh : d.head with
        | none => simp [PolicyDisk.headEnded, hh] at hended
        | some head => exact ⟨head, rfl⟩
      obtain ⟨ws, hws⟩ := (@resolves_iff _ _ s.op _ _ _ hhead).mp hresolves
      simp only [hws]
      exact h.resolve_twice hws hlt hended
  · simp at hs

end Noezema.Host
