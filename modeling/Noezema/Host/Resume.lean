import Mathlib.Data.List.Infix
import Noezema.Host.Journal

/-! # Host resume

`admission_check`, the fail-closed start gate, and `run_resume_probe`, which runs
it, translates its problems into one of the resume outcomes and records the probe
in the journal. The last section follows sequences of probes from an empty journal.
-/

namespace Noezema.Host

open Noezema.Lib

/-! ## Admission -/

/-- `ConfigService.get_effective` and the two columns the check reads: an exception
that is no `ConfigError` (a database outage), a `ConfigError`, or a snapshot. -/
inductive EffectiveConfig where
  | raises (exceptionType : String)
  | configError (message : String)
  | found (isBootstrap hasBase : Bool)
deriving DecidableEq, Repr

/-- `read_policy_file` on the override, else the baseline, if either is set. -/
inductive PolicyFile where
  | unset
  | valid
  | invalid (message : String)
  | raises (exceptionType : String)
deriving DecidableEq, Repr

/-- What one probe meets outside the journal. -/
structure ProbeEnv where
  config : EffectiveConfig
  policyChangeHead : Bool
  offlineMarker : Bool
  policy : PolicyFile
  now : String
  freshId : String
  bootId : String
deriving DecidableEq, Repr

/-- Head, policy, offline marker and policy-change head are all in order. -/
def ProbeEnv.Healthy (env : ProbeEnv) : Prop :=
  (∃ bootstrap base, env.config = .found bootstrap base ∧
      (base = true ∨ bootstrap = true)) ∧
    env.policyChangeHead = false ∧ env.offlineMarker = false ∧
    (env.policy = .unset ∨ env.policy = .valid)

def configProblems : EffectiveConfig → List String
  | .raises _ => []
  | .configError message => ["config_head: " ++ message]
  | .found bootstrap base =>
    if ¬ base ∧ ¬ bootstrap then
      ["config_head: non-bootstrap active snapshot has no base_snapshot_id"]
    else []

def transitionProblems (report : JournalReport) : List String :=
  match report.problem with
  | some problem => ["host_transition:" ++ problem]
  | none => if report.headAttemptId.isSome then ["unresolved_host_transition"] else []

/-- `admission_check`: the problems it reports, or the exception it lets through,
and the journal its reconciliation leaves. -/
def admissionCheck (hash : Hashes) (env : ProbeEnv) (j : Journal) :
    Except String (List String) × Journal :=
  match env.config with
  | .raises exceptionType => (.error exceptionType, j)
  | config =>
    let (report, j') := reconcileJournal hash j
    let problems := configProblems config ++ transitionProblems report ++
      (if env.policyChangeHead then ["host_policy_change_in_progress"] else []) ++
      (if env.offlineMarker then ["stale_offline_marker"] else [])
    match env.policy with
    | .unset | .valid => (.ok problems, j')
    | .invalid message => (.ok (problems ++ ["host_policy_invalid: " ++ message]), j')
    | .raises exceptionType => (.error exceptionType, j')

/-! ## The outcome of a probe -/

/-- `PERMANENT_ERROR_CLASSES`. -/
def permanentErrorClasses : List String :=
  ["multiple_unresolved_transitions", "head_identity_mismatch",
    "head_points_to_missing_record", "host_policy_change_in_progress",
    "host_policy_invalid", "config_head", "corrupt_journal"]

inductive ResumeOutcomeKind where
  | resolved | retryWait | resumeBlocked | resumeDegraded
deriving DecidableEq, Repr

def ResumeOutcomeKind.text : ResumeOutcomeKind → String
  | .resolved => "resolved"
  | .retryWait => "retry_wait"
  | .resumeBlocked => "resume_blocked"
  | .resumeDegraded => "resume_degraded"

/-- `classify`. -/
def classify : Option String → ResumeOutcomeKind
  | none => .resumeDegraded
  | some cls => if cls ∈ permanentErrorClasses then .resumeBlocked else .retryWait

/-- The three ways a problem text names a class. -/
def namesClass (problem cls : String) : Bool :=
  problem = cls || (cls ++ ":").toList.isPrefixOf problem.toList ||
    decide ((":" ++ cls).toList <:+: problem.toList)

def trimBlank (cs : List Char) : List Char :=
  ((cs.dropWhile Char.isWhitespace).reverse.dropWhile Char.isWhitespace).reverse

/-- `problem.split(":", 1)[0].strip() or "admission"`. -/
def leadingClass (problem : String) : String :=
  let lead := String.ofList (trimBlank (problem.toList.takeWhile (· ≠ ':')))
  if lead = "" then "admission" else lead

/-- The dominant error class of a non-empty problem list: a permanent one, else the
first problem's. -/
def errorClassOf (first : String) (rest : List String) : String :=
  ((first :: rest).findSome? fun p => permanentErrorClasses.find? (namesClass p)).getD
    (leadingClass first)

/-- Error class and outcome of a probe's problems. -/
def outcomeOf : List String → Option String × ResumeOutcomeKind
  | [] => (none, .resolved)
  | first :: rest =>
    let cls := errorClassOf first rest
    (some cls, classify (some cls))

/-- `_exit_code`. -/
def exitCode : ResumeOutcomeKind → Nat
  | .resumeBlocked => 78
  | _ => 0

/-! ## The probe -/

structure ResumeOutcome where
  outcome : ResumeOutcomeKind
  exitCode : Nat
  attemptId : String
deriving DecidableEq, Repr

/-- The record of an attempt no probe has recorded yet. -/
def freshRecord (attemptId now : String) : TransitionRecord where
  attemptId := attemptId
  operation := "resume"
  observedProblems := []
  observedOk := false
  state := .checking
  attemptsTotal := 0
  currentAttemptSeq := 0
  consecutiveUnclassifiedFailures := 0
  backoffStep := 0
  errorClass := none
  lastProbeStartedAt := none
  lastProbeClassifiedAt := none
  nextAttemptAt := none
  lastEventSeq := 0
  replayedThroughSeq := 0
  replayedAt := none
  createdAt := now

/-- The record after a probe was classified. -/
def classifiedRecord (r : TransitionRecord) (now : String) (problems : List String)
    (errorClass : Option String) (outcome : ResumeOutcomeKind) : TransitionRecord :=
  let r := { r with
    attemptsTotal := r.attemptsTotal + 1
    currentAttemptSeq := r.attemptsTotal + 1
    errorClass := errorClass
    lastProbeStartedAt := some now
    lastProbeClassifiedAt := some now
    observedProblems := problems
    observedOk := problems = [] }
  match outcome with
  | .retryWait => { r with
      state := .retryWait
      backoffStep := r.backoffStep + 1
      nextAttemptAt := some now
      consecutiveUnclassifiedFailures := 0 }
  | .resumeBlocked => { r with
      state := .resumeBlocked
      consecutiveUnclassifiedFailures := 0 }
  | .resumeDegraded => { r with
      state := .resumeDegraded
      consecutiveUnclassifiedFailures := r.consecutiveUnclassifiedFailures + 1 }
  | .resolved => { r with state := .resolved }

/-- The record with the probe's event counted and replayed. -/
def countedRecord (r : TransitionRecord) (now : String) : TransitionRecord :=
  { r with
    lastEventSeq := r.lastEventSeq + 1
    replayedThroughSeq := r.lastEventSeq + 1
    replayedAt := some now }

/-- The event of a probe. -/
def probeEvent (env : ProbeEnv) (r : TransitionRecord) (outcome : ResumeOutcomeKind) :
    TransitionEvent where
  attemptId := r.attemptId
  eventSeq := r.lastEventSeq + 1
  hostTimestamp := env.now
  fromState := .checking
  toState := r.state
  errorClass := r.errorClass
  outcome := outcome.text
  attemptsTotal := r.attemptsTotal

/-- The files a probe publishes: the record, its event, the record with the event
counted. -/
def publishFiles (env : ProbeEnv) (j : Journal) (r : TransitionRecord)
    (outcome : ResumeOutcomeKind) : Journal :=
  ((j.writeRecord r).writeEvent (probeEvent env r outcome)).writeRecord
    (countedRecord r env.now)

/-- The publications of a probe: its files, and a head if there is none. -/
def publishProbe (hash : Hashes) (env : ProbeEnv) (j : Journal) (r : TransitionRecord)
    (outcome : ResumeOutcomeKind) : Journal :=
  let j := publishFiles env j r outcome
  let counted := countedRecord r env.now
  if j.head.isSome then j
  else j.writeHead hash counted (hash.header (recordIdentityHeader counted "")) env.bootId

/-- The problems a probe sees: any exception of the check is a transient
`db_unavailable`. -/
def problemsOf : Except String (List String) → List String
  | .error exceptionType => ["db_unavailable: " ++ exceptionType]
  | .ok problems => problems

/-- `run_resume_probe`. -/
def runResumeProbe (hash : Hashes) (env : ProbeEnv) (j : Journal) :
    ResumeOutcome × Journal :=
  let (report, j) := reconcileJournal hash j
  let attemptId := report.headAttemptId.getD env.freshId
  let record := (j.readRecord attemptId).getD (freshRecord attemptId env.now)
  let (checked, j) := admissionCheck hash env j
  let problems := problemsOf checked
  let (errorClass, outcome) := outcomeOf problems
  let record := classifiedRecord record env.now problems errorClass outcome
  (⟨outcome, exitCode outcome, attemptId⟩, publishProbe hash env j record outcome)

/-! ## Problems and outcomes -/

theorem classify_not_resolved (cls : String) : classify (some cls) ≠ .resolved := by
  simp only [classify]
  split <;> simp

/-- Only an empty problem list resolves. -/
theorem outcomeOf_resolved {problems : List String} :
    (outcomeOf problems).2 = .resolved ↔ problems = [] := by
  cases problems with
  | nil => simp [outcomeOf]
  | cons first rest => simp [outcomeOf, classify_not_resolved]

theorem classifiedRecord_terminal (r : TransitionRecord) (now : String)
    (problems : List String) (errorClass : Option String) (outcome : ResumeOutcomeKind) :
    (classifiedRecord r now problems errorClass outcome).isTerminal = true ↔
      outcome = .resolved := by
  cases outcome <;> simp [classifiedRecord, TransitionRecord.isTerminal]

/-- Classifying a record leaves its identity and its event numbers. -/
theorem classifiedRecord_identity (r : TransitionRecord) (now : String)
    (problems : List String) (errorClass : Option String) (outcome : ResumeOutcomeKind) :
    let r' := classifiedRecord r now problems errorClass outcome
    r'.attemptId = r.attemptId ∧ r'.operation = r.operation ∧
      r'.createdAt = r.createdAt ∧ r'.lastEventSeq = r.lastEventSeq := by
  cases outcome <;> simp [classifiedRecord]

/-- On a journal whose reconciliation reports nothing, the check finds no problem
exactly in a healthy environment. -/
theorem admissionCheck_problems {hash : Hashes} {env : ProbeEnv} {j : Journal}
    (hp : (reconcileJournal hash j).1.problem = none)
    (hh : (reconcileJournal hash j).1.headAttemptId = none) :
    problemsOf (admissionCheck hash env j).1 = [] ↔ env.Healthy := by
  have htrans : transitionProblems (reconcileJournal hash j).1 = [] := by
    simp [transitionProblems, hp, hh]
  unfold admissionCheck ProbeEnv.Healthy
  cases hc : env.config with
  | raises e => simp [problemsOf]
  | configError m =>
    cases hpol : env.policy <;> simp [problemsOf, configProblems]
  | found bootstrap base =>
    cases hpol : env.policy <;>
      simp [problemsOf, configProblems, htrans] <;>
      cases bootstrap <;> cases base <;> simp

/-- A head left after reconciliation is a problem in every environment. -/
theorem admissionCheck_head {hash : Hashes} {env : ProbeEnv} {j : Journal}
    (hp : (reconcileJournal hash j).1.problem = none)
    (hh : (reconcileJournal hash j).1.headAttemptId ≠ none) :
    problemsOf (admissionCheck hash env j).1 ≠ [] := by
  have htrans : transitionProblems (reconcileJournal hash j).1 =
      ["unresolved_host_transition"] := by
    have hsome := Option.isSome_iff_ne_none.mpr hh
    simp [transitionProblems, hp, hsome]
  unfold admissionCheck
  cases hc : env.config <;> cases hpol : env.policy <;> simp [problemsOf, htrans]

/-- The check changes the journal at most as its reconciliation does. -/
theorem admissionCheck_journal (hash : Hashes) (env : ProbeEnv) (j : Journal) :
    (admissionCheck hash env j).2 = j ∨
      (admissionCheck hash env j).2 = (reconcileJournal hash j).2 := by
  unfold admissionCheck
  cases env.config <;> cases env.policy <;> simp

/-! ## What a probe publishes -/

section Publish

variable {hash : Hashes} {env : ProbeEnv} {j : Journal} {r : TransitionRecord}
  {outcome : ResumeOutcomeKind}

/-- The head is all that `publishProbe` adds to the files. -/
theorem publishProbe_files :
    (publishProbe hash env j r outcome).records = (publishFiles env j r outcome).records ∧
    (publishProbe hash env j r outcome).events = (publishFiles env j r outcome).events := by
  unfold publishProbe
  dsimp only
  split <;> exact ⟨rfl, rfl⟩

theorem mem_publishProbe_records {y : TransitionRecord} :
    y ∈ (publishProbe hash env j r outcome).records ↔
      y = countedRecord r env.now ∨ (y ∈ j.records ∧ y.attemptId ≠ r.attemptId) := by
  rw [publishProbe_files.1]
  show y ∈ put TransitionRecord.attemptId (countedRecord r env.now)
    (put TransitionRecord.attemptId r j.records) ↔ _
  rw [mem_put, mem_put]
  have hname : (countedRecord r env.now).attemptId = r.attemptId := rfl
  rw [hname]
  constructor
  · rintro (h | ⟨rfl | h, hne⟩)
    · exact .inl h
    · exact absurd rfl hne
    · exact .inr h
  · rintro (h | h)
    · exact .inl h
    · exact .inr ⟨.inr h, h.2⟩

theorem publishProbe_events (a : String) :
    (publishProbe hash env j r outcome).events a =
      if a = r.attemptId then
        put TransitionEvent.eventSeq (probeEvent env r outcome) (j.events a)
      else j.events a := by
  rw [publishProbe_files.2]
  rfl

theorem publishProbe_head_some {h : TransitionHead} (hh : j.head = some h) :
    (publishProbe hash env j r outcome).head = some h := by
  have hsome : (publishFiles env j r outcome).head = some h := hh
  simp [publishProbe, hsome]

theorem publishProbe_head_none (hh : j.head = none) :
    ∃ sha, (publishProbe hash env j r outcome).head =
      (j.writeHead hash (countedRecord r env.now) sha env.bootId).head := by
  have hnone : (publishFiles env j r outcome).head = none := hh
  refine ⟨hash.header (recordIdentityHeader (countedRecord r env.now) ""), ?_⟩
  simp [publishProbe, hnone, Journal.writeHead]

/-- **A probe keeps the chronology**: its event is the next one of its attempt. -/
theorem Replayed.publish (h : Replayed j)
    (hlast : j.listEventSeqs r.attemptId = List.range' 1 r.lastEventSeq) :
    Replayed (publishProbe hash env j r outcome) where
  distinct := by
    unfold publishProbe
    dsimp only
    split <;> exact (h.distinct.put r).put _
  written := by
    intro y hy
    unfold Journal.listEventSeqs
    rw [publishProbe_events]
    rcases mem_publishProbe_records.mp hy with rfl | ⟨hy, hne⟩
    · refine ⟨Nat.succ_pos _, ?_, rfl⟩
      have hlt : ∀ e ∈ j.events r.attemptId, e.eventSeq < r.lastEventSeq + 1 := by
        intro e he
        have hmem : e.eventSeq ∈ List.range' 1 r.lastEventSeq := by
          rw [← hlast]
          exact List.mem_map.mpr ⟨e, he, rfl⟩
        simp only [List.mem_range'_1] at hmem
        omega
      have hname : (countedRecord r env.now).attemptId = r.attemptId := rfl
      rw [if_pos hname, hname, put_last hlt, List.map_append]
      show j.listEventSeqs r.attemptId ++ [r.lastEventSeq + 1] =
        List.range' 1 (r.lastEventSeq + 1)
      rw [hlast, List.range'_1_concat, Nat.add_comm 1]
    · rw [if_neg hne]
      exact h.written y hy
  unwritten := by
    intro a ha
    have hfree := get_eq_none.mp ha
    have hne : a ≠ r.attemptId := by
      intro heq
      exact hfree _ (mem_publishProbe_records.mpr (.inl rfl)) heq.symm
    rw [publishProbe_events, if_neg hne]
    refine h.unwritten a (get_eq_none.mpr fun x hx heq => ?_)
    exact hfree x (mem_publishProbe_records.mpr (.inr ⟨hx, heq ▸ hne⟩)) heq

/-- A probe that resolves leaves a clean journal clean. -/
theorem Clean.publish (h : Clean hash j) (hnone : j.head = none)
    (hlast : j.listEventSeqs r.attemptId = List.range' 1 r.lastEventSeq)
    (hterm : r.isTerminal = true) : Clean hash (publishProbe hash env j r outcome) where
  replayed := h.replayed.publish hlast
  resolved := by
    intro y hy
    rcases mem_publishProbe_records.mp hy with rfl | ⟨hy, -⟩
    · exact hterm
    · exact h.resolved y hy
  head := by
    intro head hhead
    obtain ⟨sha, hh⟩ : ∃ sha, (publishProbe hash env j r outcome).head = _ :=
      publishProbe_head_none hnone
    obtain rfl := Option.some.inj (hhead.symm.trans hh)
    refine ⟨countedRecord r env.now, ?_, rfl, rfl⟩
    exact (get_eq_some (h.replayed.publish hlast).distinct).mpr
      ⟨mem_publishProbe_records.mpr (.inl rfl), rfl⟩

/-- A probe that fails on a clean journal leaves it stuck. -/
theorem Clean.publish_stuck (h : Clean hash j) (hnone : j.head = none)
    (hlast : j.listEventSeqs r.attemptId = List.range' 1 r.lastEventSeq)
    (hopen : r.isTerminal = false) : Stuck hash (publishProbe hash env j r outcome) where
  replayed := h.replayed.publish hlast
  head := by
    obtain ⟨sha, hh⟩ : ∃ sha, (publishProbe hash env j r outcome).head = _ :=
      publishProbe_head_none hnone
    refine ⟨_, countedRecord r env.now, hh, ⟨?_, rfl, rfl⟩, hopen, ?_⟩
    · exact (get_eq_some (h.replayed.publish hlast).distinct).mpr
        ⟨mem_publishProbe_records.mpr (.inl rfl), rfl⟩
    · intro y hy hyo
      rcases mem_publishProbe_records.mp hy with rfl | ⟨hy, -⟩
      · rfl
      · rw [h.resolved y hy] at hyo
        simp at hyo

/-- A probe of the attempt the head indexes leaves the journal stuck. -/
theorem Stuck.publish {head : TransitionHead} {old : TransitionRecord}
    (h : Stuck hash j) (hhead : j.head = some head) (hfit : HeadFits hash j head old)
    (hid : r.attemptId = old.attemptId ∧ r.operation = old.operation ∧
      r.createdAt = old.createdAt ∧ r.lastEventSeq = old.lastEventSeq)
    (honly : ∀ r' ∈ j.records, r'.isTerminal = false → r' = old)
    (hopen : r.isTerminal = false) : Stuck hash (publishProbe hash env j r outcome) := by
  obtain ⟨hread, hident, hsha⟩ := hfit
  obtain ⟨hold, hname⟩ := (get_eq_some h.replayed.distinct).mp hread
  obtain ⟨hatt, hop, hcre, hseq⟩ := hid
  have hlast : j.listEventSeqs r.attemptId = List.range' 1 r.lastEventSeq := by
    rw [hatt, hseq]
    exact (h.replayed.written old hold).2.1
  refine ⟨h.replayed.publish hlast, head, countedRecord r env.now,
    publishProbe_head_some hhead, ⟨?_, ?_, hsha⟩, hopen, ?_⟩
  · exact (get_eq_some (h.replayed.publish hlast).distinct).mpr
      ⟨mem_publishProbe_records.mpr (.inl rfl), hatt.trans hname⟩
  · rw [← hident]
    simp [recordIdentityHeader, countedRecord, hatt, hop, hcre]
  · intro y hy hyo
    rcases mem_publishProbe_records.mp hy with rfl | ⟨hy, hne⟩
    · rfl
    · exact absurd (by rw [honly y hy hyo, hatt]) hne

end Publish

/-! ## Sequences of probes -/

theorem Clean.removeHead {hash : Hashes} {j : Journal} (h : Clean hash j) :
    Clean hash j.removeHead :=
  ⟨⟨h.replayed.distinct, h.replayed.written, h.replayed.unwritten⟩, h.resolved,
    by simp [Journal.removeHead]⟩

/-- The record a probe of a clean journal starts from. -/
theorem Replayed.start {j : Journal} (h : Replayed j) (a now : String) :
    let r := (j.readRecord a).getD (freshRecord a now)
    r.attemptId = a ∧ j.listEventSeqs a = List.range' 1 r.lastEventSeq := by
  cases hr : j.readRecord a with
  | none =>
    refine ⟨rfl, ?_⟩
    simp [Journal.listEventSeqs, h.unwritten a hr, freshRecord]
  | some r =>
    obtain ⟨hmem, rfl⟩ := (get_eq_some h.distinct).mp hr
    exact ⟨rfl, (h.written r hmem).2.1⟩

/-- **A probe of a clean journal** resolves exactly in a healthy environment, and
leaves the journal clean then and stuck otherwise. -/
theorem Clean.probe {hash : Hashes} {j : Journal} (h : Clean hash j) (env : ProbeEnv) :
    ((runResumeProbe hash env j).1.outcome = .resolved ↔ env.Healthy) ∧
    (env.Healthy → Clean hash (runResumeProbe hash env j).2) ∧
    (¬ env.Healthy → Stuck hash (runResumeProbe hash env j).2) := by
  obtain ⟨-, hid, hj⟩ := h.reconcile
  have h' := h.removeHead
  obtain ⟨hproblem', hid', hj'⟩ := h'.reconcile
  have hprob := @admissionCheck_problems hash env j.removeHead hproblem' hid'
  have hsame : (admissionCheck hash env j.removeHead).2 = j.removeHead := by
    rcases admissionCheck_journal hash env j.removeHead with heq | heq
    · exact heq
    · rw [heq, hj']
      rfl
  obtain ⟨hatt, hlast⟩ := h'.replayed.start env.freshId env.now
  unfold runResumeProbe
  simp only [hid, hj, hsame, Option.getD_none]
  refine ⟨outcomeOf_resolved.trans hprob, ?_, ?_⟩
  · intro hhealthy
    have hres := outcomeOf_resolved.mpr (hprob.mpr hhealthy)
    obtain ⟨hatt', -, -, hseq'⟩ := classifiedRecord_identity
      ((j.removeHead.readRecord env.freshId).getD (freshRecord env.freshId env.now)) env.now
      (problemsOf (admissionCheck hash env j.removeHead).1)
      (outcomeOf (problemsOf (admissionCheck hash env j.removeHead).1)).1
      (outcomeOf (problemsOf (admissionCheck hash env j.removeHead).1)).2
    refine h'.publish rfl ?_ ((classifiedRecord_terminal _ _ _ _ _).mpr hres)
    rw [hatt', hseq', hatt]
    exact hlast
  · intro hsick
    have hnot : (outcomeOf (problemsOf (admissionCheck hash env j.removeHead).1)).2 ≠
        .resolved := fun hres => hsick (hprob.mp (outcomeOf_resolved.mp hres))
    obtain ⟨hatt', -, -, hseq'⟩ := classifiedRecord_identity
      ((j.removeHead.readRecord env.freshId).getD (freshRecord env.freshId env.now)) env.now
      (problemsOf (admissionCheck hash env j.removeHead).1)
      (outcomeOf (problemsOf (admissionCheck hash env j.removeHead).1)).1
      (outcomeOf (problemsOf (admissionCheck hash env j.removeHead).1)).2
    refine h'.publish_stuck rfl ?_ ?_
    · rw [hatt', hseq', hatt]
      exact hlast
    · exact eq_false_of_ne_true fun ht =>
        hnot ((classifiedRecord_terminal _ _ _ _ _).mp ht)

/-- **A probe of a stuck journal** never resolves, whatever it meets, and leaves the
journal stuck. -/
theorem Stuck.probe {hash : Hashes} {j : Journal} (h : Stuck hash j) (env : ProbeEnv) :
    (runResumeProbe hash env j).1.outcome ≠ .resolved ∧
      Stuck hash (runResumeProbe hash env j).2 := by
  obtain ⟨hproblem, -, hj⟩ := h.reconcile
  obtain ⟨head, old, hhead, hfit, hopen, honly⟩ := h.head
  obtain ⟨hold, hname⟩ := (get_eq_some h.replayed.distinct).mp hfit.1
  have hid : (reconcileJournal hash j).1.headAttemptId = some old.attemptId := by
    obtain ⟨-, ⟨r, hr, hro, hid⟩, -⟩ := h.reconcile
    rw [hid, honly r hr hro]
  have hprob : problemsOf (admissionCheck hash env j).1 ≠ [] :=
    admissionCheck_head hproblem (by simp [hid])
  have hnot : (outcomeOf (problemsOf (admissionCheck hash env j).1)).2 ≠ .resolved :=
    fun hres => hprob (outcomeOf_resolved.mp hres)
  have hsame : (admissionCheck hash env j).2 = j := by
    rcases admissionCheck_journal hash env j with heq | heq
    · exact heq
    · rw [heq, hj]
  have hread : j.readRecord old.attemptId = some old := by
    rw [hname]
    exact hfit.1
  unfold runResumeProbe
  simp only [hid, hj, hsame, Option.getD_some, hread]
  refine ⟨hnot, h.publish hhead hfit (classifiedRecord_identity _ _ _ _ _) honly ?_⟩
  exact eq_false_of_ne_true fun ht => hnot ((classifiedRecord_terminal _ _ _ _ _).mp ht)

/-- The journal after a sequence of probes. -/
def runProbes (hash : Hashes) (j : Journal) (envs : List ProbeEnv) : Journal :=
  envs.foldl (fun j env => (runResumeProbe hash env j).2) j

theorem Stuck.probes {hash : Hashes} {j : Journal} (h : Stuck hash j)
    (envs : List ProbeEnv) : Stuck hash (runProbes hash j envs) := by
  induction envs generalizing j with
  | nil => exact h
  | cons env envs ih => exact ih (h.probe env).2

/-- After any probes from a clean journal it is clean if all environments were
healthy, and stuck from the first that was not. -/
theorem Clean.probes {hash : Hashes} {j : Journal} (h : Clean hash j)
    (envs : List ProbeEnv) :
    ((∀ env ∈ envs, env.Healthy) → Clean hash (runProbes hash j envs)) ∧
    ((∃ env ∈ envs, ¬ env.Healthy) → Stuck hash (runProbes hash j envs)) := by
  induction envs generalizing j with
  | nil => exact ⟨fun _ => h, by simp⟩
  | cons env envs ih =>
    obtain ⟨-, hclean, hstuck⟩ := h.probe env
    by_cases henv : env.Healthy
    · obtain ⟨ih1, ih2⟩ := ih (hclean henv)
      constructor
      · intro hall
        exact ih1 fun e he => hall e (List.mem_cons_of_mem _ he)
      · rintro ⟨e, he, hsick⟩
        rcases List.mem_cons.mp he with rfl | he
        · exact absurd henv hsick
        · exact ih2 ⟨e, he, hsick⟩
    · constructor
      · intro hall
        exact absurd (hall env (by simp)) henv
      · intro _
        exact (hstuck henv).probes envs

theorem Clean.empty (hash : Hashes) : Clean hash .empty where
  replayed := ⟨List.nodup_nil, by simp [Journal.empty], fun _ _ => rfl⟩
  resolved := by simp [Journal.empty]
  head := by simp [Journal.empty]

/-- **When a resume heals.** A probe in a healthy environment, on a journal only
earlier probes wrote, resolves iff every earlier probe met a healthy environment: one
failure leaves a head that fails the admission of all later probes. -/
theorem resume_heals_iff (hash : Hashes) (envs : List ProbeEnv) {env : ProbeEnv}
    (henv : env.Healthy) :
    (runResumeProbe hash env (runProbes hash .empty envs)).1.outcome = .resolved ↔
      ∀ e ∈ envs, e.Healthy := by
  obtain ⟨hclean, hstuck⟩ := (Clean.empty hash).probes envs
  by_cases hall : ∀ e ∈ envs, e.Healthy
  · have := ((hclean hall).probe env).1
    exact ⟨fun _ => hall, fun _ => this.mpr henv⟩
  · have hsick : ∃ e ∈ envs, ¬ e.Healthy := by
      simpa using hall
    have := ((hstuck hsick).probe env).1
    exact ⟨fun hres => absurd hres this, fun h => absurd h hall⟩

/-- A probe whose every condition is in order. -/
def healthyProbe : ProbeEnv where
  config := .found true false
  policyChangeHead := false
  offlineMarker := false
  policy := .valid
  now := "2026-01-01T00:01:00Z"
  freshId := "b2"
  bootId := "boot"

/-- The same node a minute earlier, its database down. -/
def outageProbe : ProbeEnv :=
  { healthyProbe with
    config := .raises "OperationalError"
    now := "2026-01-01T00:00:00Z"
    freshId := "a1" }

/-- Hashes that name every header and every event alike. -/
def blankHashes : Hashes := ⟨fun _ => "", fun _ => ""⟩

theorem resume_heals_iff_healthy :
    (runResumeProbe blankHashes healthyProbe
      (runProbes blankHashes .empty [healthyProbe])).1.outcome = .resolved :=
  (resume_heals_iff blankHashes _ ⟨⟨true, false, rfl, .inr rfl⟩, rfl, rfl, .inr rfl⟩).mpr
    (by simpa using ⟨⟨true, false, rfl, .inr rfl⟩, rfl, rfl, .inr rfl⟩)

/-- After one outage the healthy probe answers `retry_wait`. -/
theorem resume_after_outage :
    ¬ ∀ (hash : Hashes) (envs : List ProbeEnv) (env : ProbeEnv),
      (∀ e ∈ envs, e.Healthy ∨ ∃ x, e.config = .raises x) → env.Healthy →
      (runResumeProbe hash env (runProbes hash .empty envs)).1.outcome = .resolved := by
  intro h
  have hsick : ¬ outageProbe.Healthy := by
    rintro ⟨⟨_, _, hc, -⟩, -⟩
    simp [outageProbe] at hc
  have hstuck := ((Clean.empty blankHashes).probes [outageProbe]).2
    ⟨outageProbe, by simp, hsick⟩
  refine (hstuck.probe healthyProbe).1 (h _ [outageProbe] healthyProbe ?_ ?_)
  · simp [outageProbe]
  · exact ⟨⟨true, false, rfl, .inr rfl⟩, rfl, rfl, .inr rfl⟩

end Noezema.Host
