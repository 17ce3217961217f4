import Noezema.Memory.LinkRevocations

/-! # The preview of independence changes

`preview_independence_changes` tells an operator what a reassessment would change, without
a write. It takes the claims with a current head under the effective snapshot and with
source evidence, groups their sources anew, and evaluates the rules on those groups; the
groups of the environments it takes from the snapshot of the head's assessment. The worker
builds both anew.
-/

namespace Noezema.Memory

open Noezema.Lib

/-! ## The report -/

/-- Grade, status and confidence of an assessment. -/
structure Outcome where
  grade : EffectiveGrade
  epistemicStatus : EpistemicStatus
  confidence : ℚ
deriving DecidableEq

def Assessment.outcome (x : Assessment) : Outcome := ⟨x.grade, x.epistemicStatus, x.confidence⟩

def AssessmentResult.outcome (r : AssessmentResult) : Outcome :=
  ⟨r.grade, r.epistemicStatus, r.confidence⟩

/-- `assessment_changed`. -/
def Outcome.changed (new old : Outcome) : Bool :=
  new.grade ≠ old.grade ∨ new.epistemicStatus ≠ old.epistemicStatus ∨
    1 / 1000000000 < |new.confidence - old.confidence|

structure ParentSwitch where
  evidenceUri : String
  pointerParentUri : Option String
  recordParentUri : String
deriving DecidableEq

structure IndependencePreviewRow where
  claimId : ClaimId
  claimType : String
  statement : Text
  groupsChanged : Bool
  oldGroups : List (List String)
  newGroups : List (List String)
  parentSwitches : List ParentSwitch
  evaluationNote : Option RuleValidationError
  persisted : Outcome
  new : Option Outcome

structure IndependencePreviewReport where
  configSnapshotId : SnapshotId
  claimsChecked : Nat
  rows : List IndependencePreviewRow

/-- `IndependencePreviewError`. -/
inductive IndependencePreviewError where
  | noEffectiveSnapshot
deriving DecidableEq, Repr

/-- The memory database with the members of the independence snapshots, by assessment. -/
structure PreviewDb where
  memory : MemoryDb
  statements : ClaimId → Text
  /-- `source_independence_members`. -/
  sourceMembers : AssessmentId → List (SourceId × String)
  /-- `environment_independence_members`. -/
  environmentMembers : AssessmentId → List (ManifestId × String × EnvRelation)

namespace PreviewDb

/-- The row of an assessment. -/
def assessment? (p : PreviewDb) (a : AssessmentId) : Option Assessment :=
  p.memory.tables.assessments.reverse[a]?

section Preview

variable (host : Host) (idText : SourceId → String)

/-- `_uri_of`; `idText` is `str(source_id)[:8]`. -/
def uriOf (p : PreviewDb) (s : SourceId) : String :=
  match (p.memory.tables.sources.find? fun r => r.id = s).bind (·.canonicalUri) with
  | some uri => if uri ≠ "" then uri else "источник " ++ idText s
  | none => "источник " ++ idText s

/-- `_partition`: the addresses of the members, group by group. -/
def partition (p : PreviewDb) (groups : List (SourceId × String)) : List (List String) :=
  ((groups.map (·.2)).dedup.insertionSort (· ≤ ·)).map fun g =>
    ((groups.filter fun x => x.2 = g).map fun x => p.uriOf idText x.1).insertionSort (· ≤ ·)

/-- The members whose recorded parent is not the one their page points to. -/
def parentSwitches (p : PreviewDb) (c : ClaimId) : List ParentSwitch :=
  let tables := p.memory.tables.toEvidenceDb
  (tables.sourceRows (tables.memberIds c)).filterMap fun s =>
    match effectiveParent host.readers.parseUuid (tables.activeEvidence c) s.id with
    | some recorded =>
      if some recorded = s.parentSourceId then none
      else some ⟨p.uriOf idText s.id, s.parentSourceId.map (p.uriOf idText),
        p.uriOf idText recorded⟩
    | none => none

/-- One row of evidence: the group of its source is new, that of its environment recorded. -/
def previewEvidence (p : PreviewDb) (c : ClaimId) (a : AssessmentId) (e : Evidence) :
    EvaluatedEvidence :=
  let recorded := e.environmentManifestId.bind fun m => (p.environmentMembers a).lookup m
  { identityHash := e.identityHash
    kind := e.kind
    relation := e.relation
    scope := e.scope
    independenceGroup :=
      match e.sourceId.bind fun s =>
        (p.memory.tables.sourceMapping host.readers c).lookup s with
      | some g => g
      | none => (recorded.map (·.1)).getD untrackedGroup
    envRelation := (recorded.map (·.2)).getD .none
    resolved := p.memory.tables.resolved e.id }

/-- The evaluation on the new groups. -/
def newAssessment (p : PreviewDb) (rules : ClaimTypeRules) (claim : Claim) (a : AssessmentId) :
    Except RuleValidationError AssessmentResult := do
  let rule ← rules.rule claim.claimType
  evaluate host.parseDay host.parseTime claim.claimType rule
    (latestAssessedScope p.memory.tables claim.id)
    ((p.memory.tables.claimEvidenceForAssessment claim.id).map
      (p.previewEvidence host claim.id a)) claim.hasAsOf

/-- The round for a claim with a current head, if something changes. -/
def previewRow (p : PreviewDb) (rules : ClaimTypeRules) (claim : Claim) (a : AssessmentId)
    (x : Assessment) : Option IndependencePreviewRow :=
  if p.memory.tables.memberIds claim.id = [] then none
  else
    let oldGroups := p.partition idText (p.sourceMembers a)
    let newGroups := p.partition idText (p.memory.tables.sourceMapping host.readers claim.id)
    let row : IndependencePreviewRow :=
      { claimId := claim.id
        claimType := claim.claimType
        statement := p.statements claim.id
        groupsChanged := oldGroups ≠ newGroups
        oldGroups := oldGroups
        newGroups := newGroups
        parentSwitches := p.parentSwitches host idText claim.id
        evaluationNote := none
        persisted := x.outcome
        new := none }
    match p.newAssessment host rules claim a with
    | .ok r =>
      if row.groupsChanged ∨ r.outcome.changed x.outcome then some { row with new := some r.outcome }
      else none
    | .error e => if row.groupsChanged then some { row with evaluationNote := some e } else none

/-- The claims with a current head under the effective snapshot, by id, with the assessment
of the head. -/
def currentHeads (p : PreviewDb) : List (Claim × AssessmentId × Assessment) :=
  (((p.memory.claims.map (·.id)).dedup.insertionSort (· ≤ ·)).filterMap p.memory.claim?).filterMap
    fun claim =>
      match p.memory.know.heads claim.id p.memory.effective with
      | some (.current a _) => (p.assessment? a).map fun x => (claim, a, x)
      | _ => none

/-- `preview_independence_changes`. -/
def previewIndependenceChanges (p : PreviewDb) :
    Except IndependencePreviewError IndependencePreviewReport :=
  match p.memory.snapshot? p.memory.effective with
  | none => .error .noEffectiveSnapshot
  | some snapshot => .ok {
      configSnapshotId := p.memory.effective
      claimsChecked := p.currentHeads.length
      rows := p.currentHeads.filterMap fun (claim, a, x) =>
        p.previewRow host idText snapshot.rules claim a x }

/-- `_current_assessment` of the link audit: the first head row of the claim in the order
the database returns them, under whatever snapshot. -/
def auditAssessment (p : PreviewDb) (order : List SnapshotId) (c : ClaimId) :
    Option Assessment :=
  match (order.filterMap (p.memory.know.heads c)).head? with
  | some (.current a _) => p.assessment? a
  | _ => none

end Preview

end PreviewDb

/-! ## The transaction that is foretold -/

/-- Nothing an assessment reads has changed. -/
structure MemoryDb.Unchanged (db db' : MemoryDb) : Prop where
  tables : db'.tables = db.tables
  claims : db'.claims = db.claims
  snapshots : db'.snapshots = db.snapshots
  effective : db'.effective = db.effective

namespace MemoryDb

/-- A job of the claim is due: leased, under the effective snapshot, with no candidate and
no commit in its way. -/
structure Due (db : MemoryDb) (now : Nat) (i : JobId) (c : ClaimId) : Prop where
  job : ∃ j, db.know.jobs[i]? = some j ∧ j.status = .leased ∧ j.claimId = c ∧
    j.targetConfigSnapshotId = db.effective
  slot : db.heldSlot now = none
  intent : db.sessions.commitIntent = false
  head : db.know.heads c db.effective = some .pending

/-- The transaction of the job records an outcome: a new assessment of the claim, and its
head points to it. -/
def Records (host : Host) (db : MemoryDb) (now : Nat) (i : JobId) (c : ClaimId)
    (o : Outcome) : Prop :=
  ∃ db' x, db.processOneJob host.parseDay host.parseTime host.readers now i =
      .ok (db', .completed) ∧
    db'.tables.assessments = x :: db.tables.assessments ∧ x.claimId = c ∧ x.outcome = o ∧
    db'.know.heads c db.effective =
      some (.current db.tables.assessments.length x.epistemicStatus)

/-- The evaluation of `_process_one_job`. -/
def workerAssessment (host : Host) (db : MemoryDb) (rules : ClaimTypeRules) (claim : Claim) :
    Except RuleValidationError AssessmentResult := do
  let rule ← rules.rule claim.claimType
  (commitInput host.readers db.tables rule claim
    (latestAssessedScope db.tables claim.id)).evaluate host.parseDay host.parseTime

section Due

variable {host : Host} {db : MemoryDb} {now : Nat} {i : JobId} {claim : Claim}
  {snapshot : ConfigSnapshot}

/-- A due job of a claim with evidence in force comes to the evaluation. -/
theorem processOneJob_due (hdue : db.Due now i claim.id)
    (hsnapshot : db.snapshot? db.effective = some snapshot)
    (hclaim : db.claim? claim.id = some claim)
    (hevidence : db.tables.claimEvidenceForAssessment claim.id ≠ []) :
    ∃ j, db.processOneJob host.parseDay host.parseTime host.readers now i =
      (db.workerAssessment host snapshot.rules claim).map fun r =>
        db.settleJob i j claim (latestAssessedScope db.tables claim.id) r := by
  obtain ⟨j, hj, hleased, hc, htarget⟩ := hdue.job
  refine ⟨j, ?_⟩
  have hready : ¬ (db.heldSlot now ≠ none ∨ db.effective ≠ j.targetConfigSnapshotId) := by
    rintro (hslot | hother)
    · exact hslot hdue.slot
    · exact hother htarget.symm
  rw [processOneJob, hj]
  simp only [hleased, ne_eq, not_true_eq_false, if_false, if_neg hready, hdue.intent,
    Bool.false_eq_true, hsnapshot, hc, hclaim, if_neg hevidence, workerAssessment]
  cases hrule : snapshot.rules.rule claim.claimType with
  | error e => rfl
  | ok rule =>
    simp only [bind, Except.bind]
    cases (commitInput host.readers db.tables rule claim
      (latestAssessedScope db.tables claim.id)).evaluate host.parseDay host.parseTime <;> rfl

/-- What is evaluated is recorded. -/
theorem records_of_ok (hdue : db.Due now i claim.id)
    (hsnapshot : db.snapshot? db.effective = some snapshot)
    (hclaim : db.claim? claim.id = some claim)
    (hevidence : db.tables.claimEvidenceForAssessment claim.id ≠ [])
    {r : AssessmentResult} (hr : db.workerAssessment host snapshot.rules claim = .ok r) :
    db.Records host now i claim.id r.outcome := by
  obtain ⟨j, hj⟩ := @processOneJob_due host _ _ _ _ _ hdue hsnapshot hclaim hevidence
  rw [hr] at hj
  generalize latestAssessedScope db.tables claim.id = scope at hj
  have hhead := hdue.head
  refine ⟨(db.settleJob i j claim scope r).1,
    ⟨claim.id, scope, r.grade, r.epistemicStatus, r.confidence⟩, ?_, ?_, rfl, rfl, ?_⟩
  · have hdone : (db.settleJob i j claim scope r).2 = .completed := by
      rw [settleJob, hhead]
    rw [hj]
    exact congrArg Except.ok (Prod.ext rfl hdone)
  · rw [settleJob, hhead]
  · rw [settleJob, hhead]
    exact db.know.setHead_same claim.id db.effective _

theorem error_of_error (hdue : db.Due now i claim.id)
    (hsnapshot : db.snapshot? db.effective = some snapshot)
    (hclaim : db.claim? claim.id = some claim)
    (hevidence : db.tables.claimEvidenceForAssessment claim.id ≠ [])
    {e : RuleValidationError} (he : db.workerAssessment host snapshot.rules claim = .error e) :
    db.processOneJob host.parseDay host.parseTime host.readers now i = .error e := by
  obtain ⟨j, hj⟩ := @processOneJob_due host _ _ _ _ _ hdue hsnapshot hclaim hevidence
  rw [hj, he]
  rfl

end Due

end MemoryDb

/-! ## The preview is what the worker records -/

namespace PreviewDb

/-- What the preview covers: a claim with source evidence in force, its environments grouped
as the assessment of its head has them. -/
structure Covered (p : PreviewDb) (host : Host) (c : ClaimId) (a : AssessmentId) : Prop where
  sourced : p.memory.tables.memberIds c ≠ []
  environments : ∀ e ∈ p.memory.tables.activeEvidence c, ∀ m,
    e.environmentManifestId = some m →
      (p.environmentMembers a).lookup m = (p.memory.tables.envMapping host.readers c).lookup m

/-- What the report says of a claim comes true: the announced groups and outcome are
recorded, and where none could be computed none is; a claim without a row keeps its groups
and its outcome. The outcome shown as present is that of the assessment `x`. -/
structure Foretold (host : Host) (idText : SourceId → String) (p : PreviewDb)
    (report : IndependencePreviewReport) (c : ClaimId) (a : AssessmentId) (x : Assessment)
    (db' : MemoryDb) (now : Nat) (i : JobId) : Prop where
  present : ∀ row ∈ report.rows, row.claimId = c → row.persisted = x.outcome
  groups : ∀ row ∈ report.rows, row.claimId = c →
    row.newGroups = p.partition idText (db'.tables.sourceMapping host.readers c)
  announced : ∀ row ∈ report.rows, row.claimId = c → ∀ o, row.new = some o →
    db'.Records host now i c o
  uncomputed : ∀ row ∈ report.rows, row.claimId = c → row.new = none →
    ∃ e, row.evaluationNote = some e ∧
      db'.processOneJob host.parseDay host.parseTime host.readers now i = .error e
  omitted : (∀ row ∈ report.rows, row.claimId ≠ c) →
    p.partition idText (db'.tables.sourceMapping host.readers c) =
        p.partition idText (p.sourceMembers a) ∧
      ∀ db'' out, db'.processOneJob host.parseDay host.parseTime host.readers now i =
          .ok (db'', out) →
        ∃ o, db'.Records host now i c o ∧ o.changed x.outcome = false

/-- Every claim with a current head is foretold. -/
def ForetellsAll (host : Host) (idText : SourceId → String) (p : PreviewDb) : Prop :=
  ∀ report claim a st x db' now i, p.previewIndependenceChanges host idText = .ok report →
    p.memory.claim? claim.id = some claim →
    p.memory.know.heads claim.id p.memory.effective = some (.current a st) →
    p.assessment? a = some x → p.memory.Unchanged db' → db'.Due now i claim.id →
      p.Foretold host idText report claim.id a x db' now i

/-- The link audit shows the head of the effective snapshot. -/
def AuditsEffective (p : PreviewDb) : Prop :=
  ∀ order c a st, p.memory.effective ∈ order →
    p.memory.know.heads c p.memory.effective = some (.current a st) →
      p.auditAssessment order c = p.assessment? a

section Foretold

variable {host : Host} {idText : SourceId → String} {p : PreviewDb}
  {report : IndependencePreviewReport} {claim : Claim} {a : AssessmentId}
  {st : EpistemicStatus} {x : Assessment}

/-- On the rows in force the recorded groups of the environments are the worker's. -/
theorem previewEvidence_eq (hcov : p.Covered host claim.id a) {e : Evidence}
    (he : e ∈ p.memory.tables.claimEvidenceForAssessment claim.id) :
    p.previewEvidence host claim.id a e =
      p.memory.tables.evaluatedEvidence host.readers claim.id e := by
  have hact := EvidenceDb.mem_claimEvidenceForAssessment.mp he
  have hrecorded : (e.environmentManifestId.bind fun m => (p.environmentMembers a).lookup m) =
      e.environmentManifestId.bind fun m =>
        (p.memory.tables.envMapping host.readers claim.id).lookup m := by
    cases hm : e.environmentManifestId with
    | none => rfl
    | some m => exact hcov.environments e hact m hm
  have hgroup : ((e.environmentManifestId.bind fun m =>
      (p.environmentMembers a).lookup m).map (·.1)).getD untrackedGroup =
        p.memory.tables.environmentOf host.readers claim.id e := by
    rw [hrecorded, EvidenceDb.environmentOf]
    cases e.environmentManifestId.bind fun m =>
      (p.memory.tables.envMapping host.readers claim.id).lookup m <;> rfl
  have hrelation : ((e.environmentManifestId.bind fun m =>
      (p.environmentMembers a).lookup m).map (·.2)).getD .none =
        p.memory.tables.itemRelation host.readers claim.id e := by
    rw [hrecorded, EvidenceDb.itemRelation]
    cases e.environmentManifestId.bind fun m =>
      (p.memory.tables.envMapping host.readers claim.id).lookup m <;> rfl
  simp only [previewEvidence, hgroup, hrelation]
  rfl

/-- The preview evaluates what the worker evaluates. -/
theorem newAssessment_eq (hcov : p.Covered host claim.id a) (rules : ClaimTypeRules) :
    p.newAssessment host rules claim a = p.memory.workerAssessment host rules claim := by
  have hinput : (p.memory.tables.claimEvidenceForAssessment claim.id).map
      (p.previewEvidence host claim.id a) =
        p.memory.tables.assessmentInput host.readers claim.id :=
    List.map_congr_left fun e he => previewEvidence_eq hcov he
  simp only [newAssessment, MemoryDb.workerAssessment, EngineInput.evaluate, commitInput,
    hinput]

/-- A claim with sources has evidence in force. -/
theorem evidence_of_sourced (hcov : p.Covered host claim.id a) :
    p.memory.tables.claimEvidenceForAssessment claim.id ≠ [] := by
  obtain ⟨s, hs⟩ := List.exists_mem_of_ne_nil _ hcov.sourced
  obtain ⟨e, he, -⟩ := EvidenceDb.mem_memberIds.mp hs
  exact List.ne_nil_of_mem (EvidenceDb.mem_claimEvidenceForAssessment.mpr he)

/-- The claims that are checked. -/
theorem mem_currentHeads : (claim, a, x) ∈ p.currentHeads ↔
    p.memory.claim? claim.id = some claim ∧
      (∃ st, p.memory.know.heads claim.id p.memory.effective = some (.current a st)) ∧
      p.assessment? a = some x := by
  simp only [currentHeads, List.mem_filterMap, List.mem_insertionSort, List.mem_dedup,
    List.mem_map]
  constructor
  · rintro ⟨claim', ⟨c, -, hclaim⟩, hrow⟩
    obtain rfl := MemoryDb.claim?_id hclaim
    split at hrow
    · rename_i a' st hhead
      obtain ⟨x', hx, heq⟩ := Option.map_eq_some_iff.mp hrow
      cases heq
      exact ⟨hclaim, ⟨st, hhead⟩, hx⟩
    · cases hrow
  · rintro ⟨hclaim, ⟨st, hhead⟩, hx⟩
    refine ⟨claim, ⟨claim.id, ⟨claim, List.mem_of_find?_eq_some hclaim, rfl⟩, hclaim⟩, ?_⟩
    simp [hhead, hx]

/-- A row and its evaluation. -/
theorem previewRow_some {rules : ClaimTypeRules} {row : IndependencePreviewRow}
    (h : p.previewRow host idText rules claim a x = some row) :
    row.claimId = claim.id ∧ row.persisted = x.outcome ∧
      row.newGroups =
        p.partition idText (p.memory.tables.sourceMapping host.readers claim.id) ∧
      match p.newAssessment host rules claim a with
      | .ok r => row.new = some r.outcome
      | .error e => row.new = none ∧ row.evaluationNote = some e := by
  unfold previewRow at h
  dsimp only at h
  split at h
  · cases h
  · split at h
    · rename_i r hr
      split at h
      · cases h
        exact ⟨rfl, rfl, rfl, rfl⟩
      · cases h
    · rename_i e he
      split at h
      · cases h
        exact ⟨rfl, rfl, rfl, rfl, rfl⟩
      · cases h

/-- Without a row nothing changes. -/
theorem previewRow_none {rules : ClaimTypeRules}
    (hsourced : p.memory.tables.memberIds claim.id ≠ [])
    (h : p.previewRow host idText rules claim a x = none) :
    p.partition idText (p.memory.tables.sourceMapping host.readers claim.id) =
        p.partition idText (p.sourceMembers a) ∧
      ∀ r, p.newAssessment host rules claim a = .ok r → r.outcome.changed x.outcome = false := by
  unfold previewRow at h
  dsimp only at h
  rw [if_neg hsourced] at h
  split at h
  · rename_i r hr
    split at h
    · cases h
    · rename_i hsame
      obtain ⟨hgroups, houtcome⟩ := not_or.mp hsame
      have hgroups : p.partition idText (p.sourceMembers a) =
          p.partition idText (p.memory.tables.sourceMapping host.readers claim.id) := by
        simpa using hgroups
      refine ⟨hgroups.symm, fun r' hr' => ?_⟩
      cases hr.symm.trans hr'
      simpa using houtcome
  · rename_i e he
    split at h
    · cases h
    · rename_i hgroups
      have hgroups : p.partition idText (p.sourceMembers a) =
          p.partition idText (p.memory.tables.sourceMapping host.readers claim.id) := by
        simpa using hgroups
      refine ⟨hgroups.symm, fun r' hr' => ?_⟩
      cases he.symm.trans hr'

/-- The rows of a report. -/
theorem previewIndependenceChanges_ok
    (h : p.previewIndependenceChanges host idText = .ok report) :
    ∃ snapshot, p.memory.snapshot? p.memory.effective = some snapshot ∧
      ∀ row, row ∈ report.rows ↔ ∃ claim a x, (claim, a, x) ∈ p.currentHeads ∧
        p.previewRow host idText snapshot.rules claim a x = some row := by
  unfold previewIndependenceChanges at h
  split at h
  · cases h
  · rename_i snapshot hsnapshot
    cases h
    refine ⟨snapshot, hsnapshot, fun row => ?_⟩
    simp only [List.mem_filterMap, Prod.exists]

/-- For a claim the preview covers. -/
theorem foretold_of_covered (h : p.previewIndependenceChanges host idText = .ok report)
    (hclaim : p.memory.claim? claim.id = some claim)
    (hhead : p.memory.know.heads claim.id p.memory.effective = some (.current a st))
    (hx : p.assessment? a = some x) (hcov : p.Covered host claim.id a) {db' : MemoryDb}
    (hsame : p.memory.Unchanged db') {now : Nat} {i : JobId} (hdue : db'.Due now i claim.id) :
    p.Foretold host idText report claim.id a x db' now i := by
  obtain ⟨snapshot, hsnapshot, hrows⟩ := previewIndependenceChanges_ok h
  -- the later database evaluates the same
  have hassess : db'.workerAssessment host snapshot.rules claim =
      p.newAssessment host snapshot.rules claim a := by
    rw [newAssessment_eq hcov, MemoryDb.workerAssessment, MemoryDb.workerAssessment,
      hsame.tables]
  have hsnapshot' : db'.snapshot? db'.effective = some snapshot := by
    rw [MemoryDb.snapshot?, hsame.snapshots, hsame.effective]
    exact hsnapshot
  have hclaim' : db'.claim? claim.id = some claim := by
    rw [MemoryDb.claim?, hsame.claims]
    exact hclaim
  have hevidence : db'.tables.claimEvidenceForAssessment claim.id ≠ [] := by
    rw [hsame.tables]
    exact evidence_of_sourced hcov
  -- a row of the claim is the row of its head
  have hrow : ∀ row ∈ report.rows, row.claimId = claim.id →
      p.previewRow host idText snapshot.rules claim a x = some row := by
    intro row hmem hid
    obtain ⟨claim', a', x', hcurrent, hr⟩ := (hrows row).mp hmem
    obtain ⟨hclaim', ⟨st', hhead'⟩, hx'⟩ := mem_currentHeads.mp hcurrent
    have hids : claim'.id = claim.id := (previewRow_some hr).1.symm.trans hid
    rw [hids] at hclaim' hhead'
    cases hclaim.symm.trans hclaim'
    cases hhead.symm.trans hhead'
    cases hx.symm.trans hx'
    exact hr
  refine ⟨?_, ?_, ?_, ?_, ?_⟩
  · intro row hmem hid
    exact (previewRow_some (hrow row hmem hid)).2.1
  · intro row hmem hid
    rw [hsame.tables]
    exact (previewRow_some (hrow row hmem hid)).2.2.1
  · intro row hmem hid o ho
    have hnew := (previewRow_some (hrow row hmem hid)).2.2.2
    cases hr : p.newAssessment host snapshot.rules claim a with
    | ok r =>
      rw [hr] at hnew
      cases hnew.symm.trans ho
      exact MemoryDb.records_of_ok hdue hsnapshot' hclaim' hevidence (hassess.trans hr)
    | error e =>
      rw [hr] at hnew
      cases hnew.1.symm.trans ho
  · intro row hmem hid hnone
    have hnew := (previewRow_some (hrow row hmem hid)).2.2.2
    cases hr : p.newAssessment host snapshot.rules claim a with
    | ok r =>
      rw [hr] at hnew
      cases hnew.symm.trans hnone
    | error e =>
      rw [hr] at hnew
      exact ⟨e, hnew.2,
        MemoryDb.error_of_error hdue hsnapshot' hclaim' hevidence (hassess.trans hr)⟩
  · intro hnone
    have hr : p.previewRow host idText snapshot.rules claim a x = none := by
      cases hr : p.previewRow host idText snapshot.rules claim a x with
      | none => rfl
      | some row =>
        have hcurrent := mem_currentHeads.mpr ⟨hclaim, ⟨st, hhead⟩, hx⟩
        exact absurd (previewRow_some hr).1
          (hnone row ((hrows row).mpr ⟨claim, a, x, hcurrent, hr⟩))
    obtain ⟨hgroups, houtcome⟩ := previewRow_none hcov.sourced hr
    rw [hsame.tables]
    refine ⟨hgroups, fun db'' out hrun => ?_⟩
    cases hr : p.newAssessment host snapshot.rules claim a with
    | ok r =>
      exact ⟨r.outcome,
        MemoryDb.records_of_ok hdue hsnapshot' hclaim' hevidence (hassess.trans hr),
        houtcome r hr⟩
    | error e =>
      have herr := MemoryDb.error_of_error hdue hsnapshot' hclaim' hevidence (hassess.trans hr)
      cases herr.symm.trans hrun

/-- **The preview is what the worker will record** for the claims it covers, and what it
shows as present is the head of the effective snapshot. -/
theorem preview_foretells (h : p.previewIndependenceChanges host idText = .ok report) :
    (∀ row ∈ report.rows, ∃ a st x,
      p.memory.know.heads row.claimId p.memory.effective = some (.current a st) ∧
        p.assessment? a = some x ∧ row.persisted = x.outcome) ∧
    ∀ claim a st x, p.memory.claim? claim.id = some claim →
      p.memory.know.heads claim.id p.memory.effective = some (.current a st) →
      p.assessment? a = some x → p.Covered host claim.id a →
      ∀ db' now i, p.memory.Unchanged db' → db'.Due now i claim.id →
        p.Foretold host idText report claim.id a x db' now i := by
  refine ⟨fun row hmem => ?_, ?_⟩
  · obtain ⟨snapshot, -, hrows⟩ := previewIndependenceChanges_ok h
    obtain ⟨claim, a, x, hcurrent, hr⟩ := (hrows row).mp hmem
    obtain ⟨-, ⟨st, hhead⟩, hx⟩ := mem_currentHeads.mp hcurrent
    obtain ⟨hid, hpersisted, -⟩ := previewRow_some hr
    exact ⟨a, st, x, by rw [hid]; exact hhead, hx, hpersisted⟩
  · intro claim a st x hclaim hhead hx hcov db' now i hsame hdue
    exact foretold_of_covered h hclaim hhead hx hcov hsame hdue

end Foretold

end PreviewDb

/-! ## What the preview leaves out -/

/-- The claim of a head is due: what a cascade and a lease leave. -/
def leasedFor (db : MemoryDb) (c : ClaimId) : MemoryDb :=
  db.withKnow { db.know.setHead c db.effective (some .pending) with
    jobs := [⟨0, c, db.effective, .leased, "source_graph", 1, 3, none, some 9, none⟩] }

theorem leasedFor_unchanged (db : MemoryDb) (c : ClaimId) : db.Unchanged (leasedFor db c) :=
  ⟨rfl, rfl, rfl, rfl⟩

theorem leasedFor_due {db : MemoryDb} (c : ClaimId) {now : Nat} (hslot : db.heldSlot now = none)
    (hintent : db.sessions.commitIntent = false) : (leasedFor db c).Due now 0 c where
  job := ⟨_, rfl, rfl, rfl, rfl⟩
  slot := hslot
  intent := hintent
  head := db.know.setHead_same c db.effective _

/-- A database without recorded members. -/
def unrecorded (db : MemoryDb) : PreviewDb := ⟨db, fun _ => [], fun _ => [], fun _ => []⟩

theorem preview_foretells_pages : ∃ report x,
    (unrecorded pagesStored.world.db).previewIndependenceChanges plainHost (fun _ => "") =
      .ok report ∧
    (unrecorded pagesStored.world.db).Foretold plainHost (fun _ => "") report 1 0 x
      (leasedFor pagesStored.world.db 1) 1 0 := by
  have hcov : (unrecorded pagesStored.world.db).Covered plainHost 1 0 := by
    refine ⟨by decide, fun e he m hm => ?_⟩
    have hnone : (pagesStored.world.db.tables.activeEvidence 1).map
        (·.environmentManifestId) = [none, none] := rfl
    have hmem := List.mem_map_of_mem (f := (·.environmentManifestId)) he
    rw [show (unrecorded pagesStored.world.db).memory = pagesStored.world.db from rfl,
      hnone, hm] at hmem
    simp at hmem
  obtain ⟨report, h⟩ : ∃ report, (unrecorded pagesStored.world.db).previewIndependenceChanges
      plainHost (fun _ => "") = .ok report := ⟨_, rfl⟩
  obtain ⟨x, hx⟩ : ∃ x, (unrecorded pagesStored.world.db).assessment? 0 = some x := ⟨_, rfl⟩
  exact ⟨report, x, h, (PreviewDb.preview_foretells h).2 ⟨1, "fact", false⟩ 0 _ x rfl
    rfl hx hcov _ 1 0 (leasedFor_unchanged _ 1) (leasedFor_due 1 rfl rfl)⟩

/-- Claim `1` is committed without evidence. -/
def sourcelessWorld : World := (exec plainSystem freshWorld factCommit).getD freshWorld

/-- The worker takes the claim out of force; the plan does not name it. -/
theorem sourceless_omitted :
    ¬ (unrecorded sourcelessWorld.db).ForetellsAll plainHost fun _ => "" := by
  intro hall
  obtain ⟨report, h, hrows⟩ : ∃ report, (unrecorded sourcelessWorld.db).previewIndependenceChanges
      plainHost (fun _ => "") = .ok report ∧ report.rows = [] := ⟨_, rfl, rfl⟩
  have hforetold := hall report ⟨1, "fact", false⟩ 0 _ _ (leasedFor sourcelessWorld.db 1) 1 0 h
    rfl rfl rfl (leasedFor_unchanged _ 1) (leasedFor_due 1 rfl rfl)
  obtain ⟨-, homitted⟩ := hforetold.omitted (by simp [hrows])
  obtain ⟨-, ⟨db', y, hrun, hadded, -⟩, -⟩ := homitted _ _ rfl
  obtain rfl : _ = db' := congrArg Prod.fst (Except.ok.inj hrun)
  exact List.cons_ne_self y _ hadded.symm

/-- Facts rest on pages and experiments. -/
def measuredRule : ClaimTypeRule :=
  { factRule with allowedKinds := ["source_assertion", "experiment_run"] }

def measuredRules : ClaimTypeRules := fun claimType =>
  if claimType = "fact" then some measuredRule else none

/-- A page and two environments, one without lineage. -/
def environmentsWorld : World :=
  { freshWorld with db := { freshWorld.db with
    tables := ⟨⟨[], [], [⟨1, none, none, none⟩],
      [], [], [⟨1, none, none, none, none, none, none, none, none, none⟩,
        ⟨2, some "p", none, none, none, none, none, none, none, none⟩], [], by simp⟩, []⟩
    snapshots := freshWorld.db.snapshots.map fun r => { r with rules := measuredRules } } }

/-- An experiment in an environment. -/
def experimentLink (environment : ManifestId) (identityHash : String) : EvidenceLink :=
  ⟨0, some ⟨0, 0, .supports, "experiment_run", identityHash, ∅, none, some environment⟩⟩

/-- Facts need three groups. -/
def threefoldRules : ClaimTypeRules := fun claimType =>
  if claimType = "fact" then some { measuredRule with minIndependenceGroups := 3 } else none

/-- Claim `1` is committed with a page and an experiment, stated again with an experiment in
another environment, and the rules change offline. -/
def measuredThenChanged : List SystemEvent :=
  [.admission 1, .committing 0, .prepare 0,
    .beginFinalize 0 [statedFact] [pageLink 1 "a", experimentLink 1 "b"], .finalize,
    .admission 2, .committing 1, .prepare 1,
    .beginFinalize 1 [{ statedFact with newId := 2 }] [experimentLink 2 "c"], .finalize,
    .prepareOffline 1 (requestOf "threefold" threefoldRules), .verifyOffline, .publishOffline]

def changedWorld : World :=
  (exec plainSystem environmentsWorld measuredThenChanged).getD environmentsWorld

/-- The head of the offline change has no environment groups: the plan announces `E1`, and
the worker records `E2`. -/
theorem environments_regrouped :
    ¬ (unrecorded changedWorld.db).ForetellsAll plainHost fun _ => "" := by
  intro hall
  obtain ⟨report, row, o, h, hrow, hid, ho, hgrade⟩ : ∃ report row o,
      (unrecorded changedWorld.db).previewIndependenceChanges plainHost (fun _ => "") =
        .ok report ∧ row ∈ report.rows ∧ row.claimId = 1 ∧ row.new = some o ∧
        o.grade = .E1 :=
    ⟨_, _, _, rfl, List.mem_cons_self, rfl, rfl, rfl⟩
  have hforetold := hall report ⟨1, "fact", false⟩ 2 _ _ (leasedFor changedWorld.db 1) 1 0 h
    rfl rfl rfl (leasedFor_unchanged _ 1) (leasedFor_due 1 rfl rfl)
  obtain ⟨db', y, hrun, hadded, -, houtcome, -⟩ := hforetold.announced row hrow hid o ho
  obtain rfl : _ = db' := congrArg Prod.fst (Except.ok.inj hrun)
  obtain rfl : _ = y := (List.cons.inj hadded).1
  rw [← houtcome] at hgrade
  exact absurd hgrade (by decide)

/-- The audit may take the head of the snapshot that is no longer effective. -/
theorem former_head_shown : ¬ (unrecorded changedWorld.db).AuditsEffective := by
  intro hall
  have hshown := hall [0, 1] 1 2 _ (by decide) rfl
  have hgrade := congrArg (Option.map (·.grade)) hshown
  exact absurd hgrade (by decide)

theorem preview_misses :
    exec plainSystem freshWorld factCommit = some sourcelessWorld ∧
      ¬ (unrecorded sourcelessWorld.db).ForetellsAll plainHost (fun _ => "") ∧
    exec plainSystem environmentsWorld measuredThenChanged = some changedWorld ∧
      ¬ (unrecorded changedWorld.db).ForetellsAll plainHost (fun _ => "") ∧
      ¬ (unrecorded changedWorld.db).AuditsEffective :=
  ⟨rfl, sourceless_omitted, rfl, environments_regrouped, former_head_shown⟩

end Noezema.Memory
