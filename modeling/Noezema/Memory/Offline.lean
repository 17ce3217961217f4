import Noezema.Memory.Activation

/-! # The offline rules change

`run_offline_change` is one transaction, but not one moment: it checks that no session is
active, reads the claims and evaluates them under the candidate's rules, checks the
sessions again and moves the pointer. Between these points other transactions commit.
`OfflineRun` is what the transaction has prepared and not yet committed.
-/

namespace Noezema.Memory

open Noezema.Lib

/-- What `_preconditions_ok` counts: its own list of session states, and no admissions. -/
structure OfflineLoad where
  activeSessions : Nat
  unresolvedAttempts : Nat
  reconcilingCommit : Nat
deriving DecidableEq

inductive OfflineProblem where
  | activeSessions (n : Nat)
  | unresolvedAttempts (n : Nat)
  | reconcilingCommit (n : Nat)
deriving DecidableEq, Repr

/-- `OfflineRulesError`, and what an evaluation raises. -/
inductive OfflineError where
  | preconditions (problems : List OfflineProblem)
  | rule (error : RuleValidationError)
  | incompleteCohort (heads expected : Nat)
  | notTheBase
deriving DecidableEq

/-- `_preconditions_ok`: the problems it lists. -/
def offlineProblems (l : OfflineLoad) : List OfflineProblem :=
  (if l.activeSessions > 0 then [.activeSessions l.activeSessions] else []) ++
    (if l.unresolvedAttempts > 0 then [.unresolvedAttempts l.unresolvedAttempts] else []) ++
    (if l.reconcilingCommit > 0 then [.reconcilingCommit l.reconcilingCommit] else [])

def checkOffline (l : OfflineLoad) : Except OfflineError Unit :=
  require (offlineProblems l = []) (.preconditions (offlineProblems l))

/-- An uncommitted offline change: the candidate with its seal, the head of each claim it
has read, and whether the preconditions of the publish have been checked. -/
structure OfflineRun where
  candidate : ConfigSnapshot
  heads : List (Claim × ShadowHead)
  verified : Bool

namespace MemoryDb

/-! ## The shadow heads -/

/-- Write the head of one claim, with the assessment of a current one. -/
def writeShadow (s : SnapshotId) (db : MemoryDb) (p : Claim × ShadowHead) : MemoryDb :=
  match p.2 with
  | .invalid => db.withKnow (db.know.setHead p.1.id s (some .invalid))
  | .pending => db.withKnow (db.know.setHead p.1.id s (some .pending))
  | .current r =>
    { db.withKnow (db.know.setHead p.1.id s
        (some (.current db.tables.assessments.length r.epistemicStatus))) with
      tables := { db.tables with
        assessments := ⟨p.1.id, ∅, r.grade, r.epistemicStatus, r.confidence⟩ ::
          db.tables.assessments } }

def writeShadows (db : MemoryDb) (s : SnapshotId) (heads : List (Claim × ShadowHead)) :
    MemoryDb :=
  heads.foldl (writeShadow s) db

section Prepare

variable (parseDay parseTime : String → Option Int)
  (digest : List (ClaimId × Head) → String)

/-- The candidate of a request: the unfinished one of the base and payload, or a new row.
`none` is the payload that is in force already. -/
def offlineCandidate (db : MemoryDb) (id : SnapshotId) (q : ConfigRequest) :
    Option ConfigSnapshot :=
  if (db.snapshot? db.effective).any fun r => r.payloadSha256 = q.payloadSha256 then none
  else some (match db.snapshots.find? fun r => r.baseSnapshotId = some db.effective ∧
      r.payloadSha256 = q.payloadSha256 ∧ r.mode = .offline ∧ r.state ≠ .failed with
    | some r => { r with state := .draft }
    | none => q.candidate id db.effective .offline)

/-- `freeze_cohort`. -/
def freezeOffline (db : MemoryDb) (c : ConfigSnapshot) : ConfigSnapshot :=
  { c with
    state := .preparingHeads
    cohortRevision := some db.know.revision
    expectedHeadCount := some db.claims.length }

/-- `prepare_shadow_heads`, what it evaluates. -/
def shadowHeads (db : MemoryDb) (rules : ClaimTypeRules) :
    Except OfflineError (List (Claim × ShadowHead)) :=
  (db.claims.insertionSort fun a b => a.id ≤ b.id).mapM fun claim =>
    match shadowHead parseDay parseTime rules db.tables claim with
    | .error e => .error (.rule e)
    | .ok head => .ok (claim, head)

/-- `verification_seal` over the heads of the transaction. -/
def sealOffline (db : MemoryDb) (c : ConfigSnapshot) : Except OfflineError ConfigSnapshot := do
  let rows := db.headRows c.id
  require (c.expectedHeadCount.all fun expected => rows.length = expected)
    (.incompleteCohort rows.length (c.expectedHeadCount.getD 0))
  pure { c with
    state := .ready, headsSha256 := some (digest rows), verifiedHeadCount := some rows.length }

/-- `run_offline_change` up to the publish; `none` is the payload in force. -/
def prepareOffline (db : MemoryDb) (load : OfflineLoad) (id : SnapshotId) (q : ConfigRequest) :
    Except OfflineError (Option OfflineRun) := do
  checkOffline load
  match db.offlineCandidate id q with
  | none => pure none
  | some c =>
    let heads ← db.shadowHeads parseDay parseTime c.rules
    let candidate ← (db.writeShadows c.id heads).sealOffline digest (db.freezeOffline c)
    pure (some ⟨candidate, heads, false⟩)

end Prepare

/-! ## The publish -/

/-- `atomic_publish` begins: the preconditions once more. -/
def verifyOffline (run : OfflineRun) (load : OfflineLoad) : Except OfflineError OfflineRun := do
  checkOffline load
  pure { run with verified := true }

/-- Insert the row, or write it over its old version. -/
def putSnapshot (db : MemoryDb) (row : ConfigSnapshot) : MemoryDb :=
  match db.snapshot? row.id with
  | some _ => db.setSnapshot row
  | none => { db with snapshots := db.snapshots ++ [row] }

/-- The claims whose head under the candidate is invalid. -/
def invalidClaimIds (db : MemoryDb) (s : SnapshotId) : List ClaimId :=
  ((db.claims.map (·.id)).dedup.filter fun c =>
    db.know.heads c s = some .invalid).insertionSort (· ≤ ·)

/-- The transaction commits: the heads, the questions about invalid ones, the pointer and
the candidate's row. The `knowledge` revision does not move. -/
def publishOffline (db : MemoryDb) (run : OfflineRun) : Except OfflineError MemoryDb := do
  require (run.candidate.baseSnapshotId = some db.effective) .notTheBase
  let s := run.candidate.id
  let db := (db.writeShadows s run.heads).putSnapshot { run.candidate with state := .active }
  let (know, _) :=
    Knowledge.enqueueQuestions (.invalidAssessment s) (db.invalidClaimIds s) db.know
  pure { db with cascade := { db.cascade with know := know, effective := s } }

/-! ## What a change writes -/

/-- **What the shadow heads change**: the heads of their claims under the candidate, and
the assessments. -/
structure Shadows (cs : List ClaimId) (s : SnapshotId) (db db' : MemoryDb) : Prop where
  know : Knowledge.PreparesOnly cs s db.know db'.know
  written : ∀ c ∈ cs, db'.know.heads c s ≠ none
  jobs : db'.know.jobs = db.know.jobs
  revision : db'.know.revision = db.know.revision
  cascade : db'.cascade = { db.cascade with know := db'.know }
  evidence : db'.tables.toEvidenceDb = db.tables.toEvidenceDb
  claims : db'.claims = db.claims
  snapshots : db'.snapshots = db.snapshots
  head : db'.head = db.head
  sessions : db'.sessions = db.sessions

theorem writeShadow_shadows (s : SnapshotId) (db : MemoryDb) (p : Claim × ShadowHead) :
    Shadows [p.1.id] s db (writeShadow s db p) := by
  have hwritten : ∀ h : Head, ∀ c ∈ [p.1.id],
      (db.know.setHead p.1.id s (some h)).heads c s ≠ none := by
    intro h c hc
    rw [List.mem_singleton.mp hc, Knowledge.setHead_same]
    simp
  unfold writeShadow
  split
  · exact ⟨Knowledge.setHead_only _ _ _ _, hwritten _, rfl, rfl, rfl, rfl, rfl, rfl, rfl, rfl⟩
  · exact ⟨Knowledge.setHead_only _ _ _ _, hwritten _, rfl, rfl, rfl, rfl, rfl, rfl, rfl, rfl⟩
  · exact ⟨Knowledge.setHead_only _ _ _ _, hwritten _, rfl, rfl, rfl, rfl, rfl, rfl, rfl, rfl⟩

theorem Shadows.append {cs ds : List ClaimId} {s : SnapshotId} {a b c : MemoryDb}
    (h : Shadows cs s a b) (k : Shadows ds s b c) : Shadows (cs ++ ds) s a c where
  know := h.know.append k.know
  written := by
    intro x hx
    by_cases hd : x ∈ ds
    · exact k.written x hd
    · have hc := (List.mem_append.mp hx).resolve_right hd
      rw [k.know.heads x s fun hmem => hd hmem.1]
      exact h.written x hc
  jobs := k.jobs.trans h.jobs
  revision := k.revision.trans h.revision
  cascade := by
    rw [k.cascade, h.cascade]
  evidence := k.evidence.trans h.evidence
  claims := k.claims.trans h.claims
  snapshots := k.snapshots.trans h.snapshots
  head := k.head.trans h.head
  sessions := k.sessions.trans h.sessions

theorem writeShadows_shadows (db : MemoryDb) (s : SnapshotId)
    (heads : List (Claim × ShadowHead)) :
    Shadows (heads.map (·.1.id)) s db (db.writeShadows s heads) := by
  unfold writeShadows
  induction heads generalizing db with
  | nil =>
    exact ⟨⟨fun _ _ _ => rfl, fun _ h => h, rfl⟩, by simp, rfl, rfl, rfl, rfl, rfl, rfl, rfl,
      rfl⟩
  | cons p rest ih => exact (writeShadow_shadows s db p).append (ih _)

/-! ## What the publish does -/

@[simp] theorem putSnapshot_know (db : MemoryDb) (row : ConfigSnapshot) :
    (db.putSnapshot row).know = db.know := by
  unfold putSnapshot
  split <;> rfl

@[simp] theorem putSnapshot_claims (db : MemoryDb) (row : ConfigSnapshot) :
    (db.putSnapshot row).claims = db.claims := by
  unfold putSnapshot
  split <;> rfl

@[simp] theorem putSnapshot_tables (db : MemoryDb) (row : ConfigSnapshot) :
    (db.putSnapshot row).tables = db.tables := by
  unfold putSnapshot
  split <;> rfl

/-- **What the commit of an offline change does**: the prepared heads, the pointer and the
candidate's row. -/
structure OfflinePublished (run : OfflineRun) (db db' : MemoryDb) : Prop where
  base : run.candidate.baseSnapshotId = some db.effective
  effective : db'.effective = run.candidate.id
  shadows : ∃ db₁, Shadows (run.heads.map (·.1.id)) run.candidate.id db db₁ ∧
    db₁ = db.writeShadows run.candidate.id run.heads ∧
    db'.know.heads = db₁.know.heads ∧ db'.know.jobs = db₁.know.jobs ∧
    db'.know.revision = db₁.know.revision
  claims : db'.claims = db.claims
  snapshots : ∀ s, db'.snapshot? s =
    if s = run.candidate.id then some { run.candidate with state := .active }
    else db.snapshot? s

theorem snapshot?_putSnapshot (db : MemoryDb) (row : ConfigSnapshot) (s : SnapshotId) :
    (db.putSnapshot row).snapshot? s = if s = row.id then some row else db.snapshot? s := by
  unfold putSnapshot
  cases hrow : db.snapshot? row.id with
  | some old =>
    simp only [snapshot?_setSnapshot]
    by_cases hs : s = row.id
    · rw [if_pos hs, if_pos hs, hs, hrow]
      rfl
    · rw [if_neg hs, if_neg hs]
  | none =>
    simp only [snapshot?, List.find?_append]
    by_cases hs : s = row.id
    · rw [if_pos hs, hs]
      have hnone : db.snapshots.find? (fun r => r.id = row.id) = none := hrow
      simp [hnone]
    · rw [if_neg hs]
      simp [Ne.symm hs]

@[simp] theorem enqueueQuestions_revision (name : ClaimId → QuestionName)
    (cs : List ClaimId) (k : Knowledge) :
    (Knowledge.enqueueQuestions name cs k).1.revision = k.revision := by
  induction cs generalizing k with
  | nil => rfl
  | cons c cs ih =>
    simp only [Knowledge.enqueueQuestions, ih]
    unfold Knowledge.enqueueQuestion
    split <;> rfl

theorem publishOffline_ok {db db' : MemoryDb} {run : OfflineRun}
    (h : db.publishOffline run = .ok db') : OfflinePublished run db db' := by
  obtain ⟨u, hbase, h⟩ := bind_eq_ok.mp h
  cases h
  have hshadows := writeShadows_shadows db run.candidate.id run.heads
  refine ⟨require_eq_ok.mp hbase, rfl, ⟨_, hshadows, rfl, ?_, ?_, ?_⟩, ?_, ?_⟩
  · exact (Knowledge.enqueueQuestions_heads _ _ _).trans (by rw [putSnapshot_know])
  · exact (Knowledge.enqueueQuestions_jobs _ _ _).trans (by rw [putSnapshot_know])
  · exact (enqueueQuestions_revision _ _ _).trans (by rw [putSnapshot_know])
  · exact (putSnapshot_claims _ _).trans hshadows.claims
  · intro s
    refine (snapshot?_putSnapshot _ _ s).trans ?_
    rw [snapshot?, hshadows.snapshots]
    rfl

/-! ## What a preparation reads -/

/-- **What an offline change has read**: the claims of its base with the head each
evaluates to. -/
structure OfflineRead (parseDay parseTime : String → Option Int) (db : MemoryDb)
    (id : SnapshotId) (q : ConfigRequest) (run : OfflineRun) : Prop where
  candidate : ∃ c, db.offlineCandidate id q = some c ∧ run.candidate.id = c.id ∧
    run.candidate.baseSnapshotId = c.baseSnapshotId ∧
    ∀ p ∈ run.heads, p.1 ∈ db.claims ∧
      shadowHead parseDay parseTime c.rules db.tables p.1 = .ok p.2
  cohort : run.candidate.cohortRevision = some db.know.revision
  claims : ∀ c ∈ db.claims.map (·.id), c ∈ run.heads.map (·.1.id)
  expected : run.candidate.expectedHeadCount = some db.claims.length

theorem prepareOffline_problems {parseDay parseTime : String → Option Int}
    {digest : List (ClaimId × Head) → String} {db : MemoryDb} {load : OfflineLoad}
    {id : SnapshotId} {q : ConfigRequest} {run : Option OfflineRun}
    (h : db.prepareOffline parseDay parseTime digest load id q = .ok run) :
    offlineProblems load = [] := by
  obtain ⟨_, hcheck, -⟩ := bind_eq_ok.mp h
  exact require_eq_ok.mp hcheck

theorem prepareOffline_read {parseDay parseTime : String → Option Int}
    {digest : List (ClaimId × Head) → String} {db : MemoryDb} {load : OfflineLoad}
    {id : SnapshotId} {q : ConfigRequest} {run : OfflineRun}
    (h : db.prepareOffline parseDay parseTime digest load id q = .ok (some run)) :
    OfflineRead parseDay parseTime db id q run := by
  obtain ⟨-, -, h⟩ := bind_eq_ok.mp h
  split at h
  · cases h
  · rename_i c hc
    obtain ⟨heads, hheads, h⟩ := bind_eq_ok.mp h
    obtain ⟨candidate, hseal, h⟩ := bind_eq_ok.mp h
    cases h
    obtain ⟨-, -, hseal⟩ := bind_eq_ok.mp hseal
    cases hseal
    obtain ⟨hfrom, hinto⟩ := mapM_eq_ok hheads
    have hone : ∀ claim p, (match shadowHead parseDay parseTime c.rules db.tables claim with
        | .error e => (.error (.rule e) : Except OfflineError (Claim × ShadowHead))
        | .ok head => .ok (claim, head)) = .ok p →
        p.1 = claim ∧ shadowHead parseDay parseTime c.rules db.tables claim = .ok p.2 := by
      intro claim p hp
      split at hp
      · cases hp
      · rename_i head hhead
        cases hp
        exact ⟨rfl, hhead⟩
    refine ⟨⟨c, hc, rfl, rfl, ?_⟩, rfl, ?_, rfl⟩
    · intro p hp
      obtain ⟨claim, hclaim, hok⟩ := hfrom p hp
      obtain ⟨rfl, hhead⟩ := hone claim p hok
      exact ⟨(List.mem_insertionSort _).mp hclaim, hhead⟩
    · intro x hx
      obtain ⟨claim, hclaim, rfl⟩ := List.mem_map.mp hx
      obtain ⟨p, hp, hok⟩ := hinto claim ((List.mem_insertionSort _).mpr hclaim)
      exact List.mem_map.mpr ⟨p, hp, by rw [(hone claim p hok).1]⟩

end MemoryDb

end Noezema.Memory
