import Mathlib.Data.String.Basic
import Noezema.Lib.Files

/-! # The host-transition journal

The on-disk chronology of host transitions: one current record an attempt, its
immutable events, and a single head that indexes the unresolved transition.
`reconcile` is the check every probe starts with. Publications are atomic, so a
disk is the list of its complete files.
-/

namespace Noezema.Host

open Noezema.Lib

/-- The states of a transition record. -/
inductive TransitionState where
  | checking | retryWait | readyToStart | resolved | resumeBlocked | resumeDegraded
deriving DecidableEq, Repr

/-- The fields of a transition record that the probes and the reconciliation read
or write. -/
structure TransitionRecord where
  attemptId : String
  operation : String
  observedProblems : List String
  observedOk : Bool
  state : TransitionState
  attemptsTotal : Nat
  currentAttemptSeq : Nat
  consecutiveUnclassifiedFailures : Nat
  backoffStep : Nat
  errorClass : Option String
  lastProbeStartedAt : Option String
  lastProbeClassifiedAt : Option String
  nextAttemptAt : Option String
  lastEventSeq : Nat
  replayedThroughSeq : Nat
  replayedAt : Option String
  createdAt : String
deriving DecidableEq, Repr

/-- `TERMINAL_STATES`. -/
def TransitionRecord.isTerminal (r : TransitionRecord) : Bool :=
  r.state = .resolved

/-- The immutable header the head's identity is computed over. Its schema version
is a constant of the code. -/
structure IdentityHeader where
  schemaVersion : Nat
  attemptId : String
  operation : String
  createdAt : String
  initialEventSha256 : String
deriving DecidableEq, Repr

def recordIdentityHeader (r : TransitionRecord) (initialEventSha256 : String) :
    IdentityHeader :=
  ⟨1, r.attemptId, r.operation, r.createdAt, initialEventSha256⟩

/-- `host-transition-head.json`. -/
structure TransitionHead where
  attemptId : String
  recordIdentityHeader : IdentityHeader
  recordIdentitySha256 : String
  createdAt : String
  creationBootId : String
deriving DecidableEq, Repr

/-- An event file `host-transition-events/<attempt_id>/<event_seq>.json`. -/
structure TransitionEvent where
  attemptId : String
  eventSeq : Nat
  hostTimestamp : String
  fromState : TransitionState
  toState : TransitionState
  errorClass : Option String
  outcome : String
  attemptsTotal : Nat
deriving DecidableEq, Repr

/-- The journal's files. -/
structure Journal where
  records : List TransitionRecord
  events : String → List TransitionEvent
  head : Option TransitionHead

/-- A base directory nothing was written to. -/
def Journal.empty : Journal := ⟨[], fun _ => [], none⟩

def Journal.unresolved (j : Journal) : List TransitionRecord :=
  j.records.filter fun r => !r.isTerminal

/-- `canonical_sha256` of the two kinds of documents the journal hashes. -/
structure Hashes where
  header : IdentityHeader → String
  event : Option TransitionEvent → String

namespace Journal

def readRecord (j : Journal) (attemptId : String) : Option TransitionRecord :=
  get TransitionRecord.attemptId attemptId j.records

def writeRecord (j : Journal) (r : TransitionRecord) : Journal :=
  { j with records := put TransitionRecord.attemptId r j.records }

def listEventSeqs (j : Journal) (attemptId : String) : List Nat :=
  (j.events attemptId).map (·.eventSeq)

def readEvent (j : Journal) (attemptId : String) (seq : Nat) : Option TransitionEvent :=
  get TransitionEvent.eventSeq seq (j.events attemptId)

def writeEvent (j : Journal) (e : TransitionEvent) : Journal :=
  { j with events := fun a =>
      if a = e.attemptId then put TransitionEvent.eventSeq e (j.events a)
      else j.events a }

def writeHead (hash : Hashes) (j : Journal) (r : TransitionRecord)
    (initialEventSha256 creationBootId : String) : Journal :=
  let header := Host.recordIdentityHeader r initialEventSha256
  let head : TransitionHead :=
    { attemptId := r.attemptId
      recordIdentityHeader := header
      recordIdentitySha256 := hash.header header
      createdAt := r.createdAt
      creationBootId := creationBootId }
  { j with head := some head }

def removeHead (j : Journal) : Journal := { j with head := none }

/-- `_replay_complete`: the events are numbered from 1 without a gap and all are
replayed. -/
def replayComplete (j : Journal) (r : TransitionRecord) : Bool :=
  let seqs := j.listEventSeqs r.attemptId
  seqs ≠ [] && seqs = List.range' 1 seqs.length &&
    r.lastEventSeq ≤ r.replayedThroughSeq

end Journal

/-- What `reconcile` reports. -/
structure JournalReport where
  unresolved : List TransitionRecord
  headAttemptId : Option String
  headValid : Bool
  problem : Option String

/-- `JournalStore.reconcile`. -/
def reconcileJournal (hash : Hashes) (j : Journal) : JournalReport × Journal :=
  match j.head with
  | none =>
    match j.unresolved with
    | [] => (⟨[], none, false, none⟩, j)
    | [r] =>
      -- rebuild the head from the single orphan
      let initialSha := match j.listEventSeqs r.attemptId with
        | [] => ""
        | seq :: _ => hash.event (j.readEvent r.attemptId seq)
      (⟨[r], some r.attemptId, false, none⟩, j.writeHead hash r initialSha "recovered")
    | rs => (⟨rs, none, false, some "multiple_unresolved_transitions"⟩, j)
  | some head =>
    let report (problem : Option String) : JournalReport :=
      ⟨j.unresolved, some head.attemptId, false, problem⟩
    match j.readRecord head.attemptId with
    | none => (report (some "head_points_to_missing_record"), j)
    | some r =>
      let stored := head.recordIdentityHeader
      if recordIdentityHeader r stored.initialEventSha256 ≠ stored then
        (report (some "head_identity_mismatch"), j)
      else if head.recordIdentitySha256 ≠ hash.header stored then
        (report (some "head_identity_mismatch"), j)
      else if 1 < j.unresolved.length then
        (report (some "multiple_unresolved_transitions"), j)
      else if r.isTerminal then
        -- a head on a resolved record is dropped after a full replay
        if j.replayComplete r then (⟨j.unresolved, none, false, none⟩, j.removeHead)
        else (report (some "head_on_resolved_record_incomplete_replay"), j)
      else ({ report none with headValid := true }, j)

/-! ## Journals that probes leave behind -/

/-- The head names a record on disk by its own identity. -/
def HeadFits (hash : Hashes) (j : Journal) (head : TransitionHead)
    (r : TransitionRecord) : Prop :=
  j.readRecord head.attemptId = some r ∧
    recordIdentityHeader r head.recordIdentityHeader.initialEventSha256 =
      head.recordIdentityHeader ∧
    head.recordIdentitySha256 = hash.header head.recordIdentityHeader

/-- Every attempt's events are numbered from 1 up to the record's last, and all are
replayed. -/
structure Replayed (j : Journal) : Prop where
  distinct : Distinct TransitionRecord.attemptId j.records
  written : ∀ r ∈ j.records, 0 < r.lastEventSeq ∧
    j.listEventSeqs r.attemptId = List.range' 1 r.lastEventSeq ∧
    r.replayedThroughSeq = r.lastEventSeq
  unwritten : ∀ a, j.readRecord a = none → j.events a = []

/-- **A clean journal**: every record is resolved, and a head, if there is one, is
about to be dropped. -/
structure Clean (hash : Hashes) (j : Journal) : Prop where
  replayed : Replayed j
  resolved : ∀ r ∈ j.records, r.isTerminal = true
  head : ∀ h, j.head = some h → ∃ r, HeadFits hash j h r

/-- **A stuck journal**: the head indexes the one unresolved record. -/
structure Stuck (hash : Hashes) (j : Journal) : Prop where
  replayed : Replayed j
  head : ∃ h r, j.head = some h ∧ HeadFits hash j h r ∧ r.isTerminal = false ∧
    ∀ r' ∈ j.records, r'.isTerminal = false → r' = r

theorem Replayed.complete {j : Journal} {r : TransitionRecord} (h : Replayed j)
    (hr : r ∈ j.records) : j.replayComplete r = true := by
  obtain ⟨hpos, hseqs, hrep⟩ := h.written r hr
  unfold Journal.replayComplete
  rw [hseqs, hrep]
  have hne : List.range' 1 r.lastEventSeq ≠ [] := by
    simp only [ne_eq, List.range'_eq_nil_iff]
    omega
  simp [hne]

/-- **Reconciling a clean journal** drops its head and reports nothing. -/
theorem Clean.reconcile {hash : Hashes} {j : Journal} (h : Clean hash j) :
    (reconcileJournal hash j).1.problem = none ∧
    (reconcileJournal hash j).1.headAttemptId = none ∧
    (reconcileJournal hash j).2 = j.removeHead := by
  have hnone : j.unresolved = [] := by
    refine List.filter_eq_nil_iff.mpr fun r hr => ?_
    simp [h.resolved r hr]
  unfold reconcileJournal
  cases hh : j.head with
  | none =>
    simp only [hnone, true_and]
    cases j
    simp only at hh
    subst hh
    rfl
  | some head =>
    obtain ⟨r, hread, hid, hsha⟩ := h.head head hh
    have hr : r ∈ j.records := ((get_eq_some h.replayed.distinct).mp hread).1
    simp [hnone, hread, hid, hsha, h.resolved r hr, h.replayed.complete hr]

/-- **Reconciling a stuck journal** finds its head valid and changes nothing. -/
theorem Stuck.reconcile {hash : Hashes} {j : Journal} (h : Stuck hash j) :
    (reconcileJournal hash j).1.problem = none ∧
    (∃ r ∈ j.records, r.isTerminal = false ∧
      (reconcileJournal hash j).1.headAttemptId = some r.attemptId) ∧
    (reconcileJournal hash j).2 = j := by
  obtain ⟨head, r, hh, ⟨hread, hid, hsha⟩, hopen, honly⟩ := h.head
  obtain ⟨hr, hname⟩ := (get_eq_some h.replayed.distinct).mp hread
  have hfew : ¬ 1 < j.unresolved.length := by
    have hall : ∀ x ∈ j.unresolved, x = r := by
      intro x hx
      obtain ⟨hx, hxo⟩ := List.mem_filter.mp hx
      exact honly x hx (by simpa using hxo)
    have hnodup : j.unresolved.Nodup :=
      (List.Nodup.of_map _ h.replayed.distinct).filter _
    cases hl : j.unresolved with
    | nil => simp
    | cons x rest =>
      cases rest with
      | nil => simp
      | cons y rest =>
        rw [hl] at hall hnodup
        have hxy : x = y := (hall x (by simp)).trans (hall y (by simp)).symm
        simp [hxy] at hnodup
  unfold reconcileJournal
  simp only [hh, hread, hid, hsha, hopen, hfew, ne_eq, not_true_eq_false,
    Bool.false_eq_true, if_false]
  exact ⟨trivial, ⟨r, hr, hopen, by rw [hname]⟩, trivial⟩

end Noezema.Host
