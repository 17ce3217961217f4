import Noezema.Memory.Apply
import Noezema.Memory.Manifest
import Noezema.Commit.Boundary

/-! # The verdict on the question

`finalize` with the memory it writes: the recorded claim operations go through the apply,
and the question's state is decided afterwards by the number of recorded claim rows. The
two are put side by side here, since they are counts by two components.
-/

namespace Noezema.Commit

open Noezema.Memory

/-- The payload of a row of `session_staging`. -/
inductive StagingPayload where
  | claim (proposed : ProposedClaim)
  | evidence (link : EvidenceLink)
  | question (text : String)
  | identity

/-- A row of `session_staging`, in recording order. -/
structure StagedRow where
  payload : StagingPayload
  state : StagingState

namespace StagedRow

/-- What the commit boundary reads of a row. -/
def toRow (r : StagedRow) : StagingRow :=
  match r.payload with
  | .claim p => ⟨.claim, r.state, p.dependencies.map dependencyKind, ""⟩
  | .evidence _ => ⟨.evidence, r.state, [], ""⟩
  | .question text => ⟨.question, r.state, [], text⟩
  | .identity => ⟨.identity, r.state, [], ""⟩

/-- `claim_ops`. -/
def claimOp? (r : StagedRow) : Option ProposedClaim :=
  match r.payload, r.state with
  | .claim p, .recorded => some p
  | _, _ => none

/-- `evidence_ops`. -/
def evidenceOp? (r : StagedRow) : Option EvidenceLink :=
  match r.payload, r.state with
  | .evidence link, .recorded => some link
  | _, _ => none

end StagedRow

/-- The store `finalize` runs on: the session's rows with their payloads, and the memory
as the session's snapshot and the active pointer see it. -/
structure FinalizeStore where
  commit : CommitDb
  rows : List StagedRow
  memory : MemoryDb
  statements : ClaimId → Text
  pin : SnapshotId
  active : SnapshotId
  staging_rows : commit.staging = rows.map StagedRow.toRow

namespace FinalizeStore

variable (host : Host)

/-- `apply_memory`. -/
def applyMemory (st : FinalizeStore) : Except ApplyError (MemoryDb × MemoryApplyResult) :=
  st.memory.commitMemory host st.statements st.pin st.active
    (st.rows.filterMap (·.claimOp?)) (st.rows.filterMap (·.evidenceOp?))

/-- What the boundary is told about it. -/
def memoryOutcome (st : FinalizeStore) : MemoryOutcome :=
  match st.applyMemory host with
  | .error .snapshotMissing => .error "snapshot"
  | .error (.rule _) => .error "RuleValidationError"
  | .error .integrity => .error "IntegrityError"
  | .ok (_, res) => .ok res.dependenciesEvidentialAdded

/-- `finalize` on the store. -/
def finalize (plan : CommitPlan) (owner : Owner) (st : FinalizeStore) (id : AttemptId) :
    Option (FinalizeResult × CommitDb) :=
  Commit.finalize plan owner (st.memoryOutcome host) st.commit id

/-- A claim operation of the session was applied: an assessment was written for it. -/
def AppliesClaim (st : FinalizeStore) : Prop :=
  ∃ db res, st.applyMemory host = .ok (db, res) ∧ 0 < res.assessments

/-- The store accepts one of the recorded claim operations. -/
def AcceptsClaim (st : FinalizeStore) : Prop :=
  ∃ snapshot, st.memory.snapshot? st.pin = some snapshot ∧
    ∃ p ∈ st.rows.filterMap (·.claimOp?),
      (st.memory.corpus st.statements st.pin).Accepts host snapshot.rules p.op

end FinalizeStore

/-- A transaction moves the question to `verified`. -/
def Verifies (db db' : CommitDb) : Prop := db.question ≠ .verified ∧ db'.question = .verified

/-! ## The two counts -/

section Verdict

variable {host : Host} {st : FinalizeStore}

/-- The boundary counts the rows the apply was given. -/
theorem recordedClaims_eq :
    recordedClaims st.commit.staging = (st.rows.filterMap (·.claimOp?)).length := by
  rw [st.staging_rows]
  induction st.rows with
  | nil => rfl
  | cons r rest ih =>
    obtain ⟨payload, state⟩ := r
    unfold recordedClaims at ih ⊢
    cases payload <;> cases state <;>
      simpa [StagedRow.toRow, StagedRow.claimOp?, List.filterMap_cons] using ih

/-- The apply counts the rows the store accepts. -/
theorem appliesClaim_iff {db : MemoryDb} {res : MemoryApplyResult}
    (h : st.applyMemory host = .ok (db, res)) :
    st.AppliesClaim host ↔ st.AcceptsClaim host := by
  obtain ⟨db₁, happly, -⟩ := MemoryDb.commitMemory_ok h
  have hcount := MemoryDb.applyClaimStaging_assessments happly
  unfold FinalizeStore.AppliesClaim FinalizeStore.AcceptsClaim
  rw [← hcount]
  constructor
  · intro ⟨db', res', hok, hpos⟩
    rw [h] at hok
    cases hok
    exact hpos
  · intro hpos
    exact ⟨db, res, h, hpos⟩

theorem memoryOutcome_ok {added : Nat} (h : st.memoryOutcome host = .ok added) :
    ∃ db res, st.applyMemory host = .ok (db, res) := by
  unfold FinalizeStore.memoryOutcome at h
  split at h
  · cases h
  · cases h
  · cases h
  · rename_i db res hok
    exact ⟨db, res, hok⟩

theorem writtenQuestionState_verified {current : QuestionState}
    {requested : Option QuestionState} {n : Nat} (hcurrent : current ≠ .verified) :
    writtenQuestionState current requested n = .verified ↔
      requested = some .verified ∧ n ≠ 0 := by
  unfold writtenQuestionState
  cases requested with
  | none => simp [hcurrent]
  | some q =>
    by_cases hq : q = .verified
    · by_cases hn : n = 0
      · simp [hq, hn]
      · simp [hq, hn]
    · simp [hq]

/-- `finalize` writes the verdict: it passes the fence and commits, `verified` is asked
for, and claim operations are recorded. -/
def FinalizeStore.Decides (plan : CommitPlan) (owner : Owner) (st : FinalizeStore)
    (id : AttemptId) : Prop :=
  plan.terminal ≠ .failed ∧ plan.questionTerminal = some .verified ∧
    st.commit.question ≠ .verified ∧ (∃ p, p ∈ st.rows.filterMap (·.claimOp?)) ∧
    ∃ s a, st.commit.session = some s ∧ st.commit.attempt? id = some a ∧
      fence st.commit s a owner = none

/-- The question moves exactly when `finalize` writes the verdict. -/
theorem verifies_iff {plan : CommitPlan} {owner : Owner} {id : AttemptId}
    {r : FinalizeResult} {db' : CommitDb}
    (h : st.finalize host plan owner id = some (r, db')) :
    Verifies st.commit db' ↔ st.Decides plan owner id := by
  have hrows : recordedClaims st.commit.staging ≠ 0 ↔
      ∃ p, p ∈ st.rows.filterMap (·.claimOp?) := by
    rw [recordedClaims_eq, ← Nat.pos_iff_ne_zero, List.length_pos_iff_exists_mem]
  unfold Verifies FinalizeStore.Decides
  constructor
  · intro ⟨hbefore, hafter⟩
    rcases finalize_cases h with ⟨-, rfl⟩ | ⟨s, a, hs, ha, hfence, hcase⟩
    · exact absurd hafter hbefore
    · rcases hcase with ⟨-, -, rfl⟩ | ⟨hplan, added, -, happly⟩
      · exact absurd hafter hbefore
      · obtain ⟨-, -, -, -, -, -, hwritten⟩ := applyCommit_some (List.mem_of_find?_eq_some ha) happly
        rw [hwritten] at hafter
        obtain ⟨hasked, hn⟩ := (writtenQuestionState_verified hbefore).mp hafter
        exact ⟨hplan, hasked, hbefore, hrows.mp hn, s, a, hs, ha, hfence⟩
  · intro ⟨hplan, hasked, hbefore, hsome, s, a, hs, ha, hfence⟩
    refine ⟨hbefore, ?_⟩
    have hfinal := h
    unfold FinalizeStore.finalize Commit.finalize at hfinal
    simp only [hs, ha, hfence, if_neg hplan] at hfinal
    cases hm : st.memoryOutcome host with
    | error e => simp [hm] at hfinal
    | ok added =>
      simp only [hm] at hfinal
      obtain ⟨-, -, -, -, -, -, hwritten⟩ := applyCommit_some (List.mem_of_find?_eq_some ha) hfinal
      rw [hwritten]
      exact (writtenQuestionState_verified hbefore).mpr ⟨hasked, hrows.mpr hsome⟩

/-- Past its fence the commit has run the apply. -/
theorem finalize_applies {plan : CommitPlan} {owner : Owner} {id : AttemptId}
    {r : FinalizeResult} {db' : CommitDb}
    (h : st.finalize host plan owner id = some (r, db')) (hdecides : st.Decides plan owner id) :
    ∃ db res, st.applyMemory host = .ok (db, res) := by
  obtain ⟨hplan, -, -, -, s, a, hs, ha, hfence⟩ := hdecides
  unfold FinalizeStore.finalize Commit.finalize at h
  simp only [hs, ha, hfence, if_neg hplan] at h
  cases hm : st.memoryOutcome host with
  | error e => simp [hm] at h
  | ok added => exact memoryOutcome_ok hm

/-- **The verdict is founded**: a question that `finalize` moves to `verified` rests on an
operation the apply accepted, exactly when the verdict is not written or the store accepts
one of the recorded operations. -/
theorem verdict_founded_iff {plan : CommitPlan} {owner : Owner} {id : AttemptId}
    {r : FinalizeResult} {db' : CommitDb}
    (h : st.finalize host plan owner id = some (r, db')) :
    (Verifies st.commit db' → st.AppliesClaim host) ↔
      (st.Decides plan owner id → st.AcceptsClaim host) := by
  rw [verifies_iff h]
  constructor
  · intro hfounded hdecides
    obtain ⟨db, res, hok⟩ := finalize_applies h hdecides
    exact (appliesClaim_iff hok).mp (hfounded hdecides)
  · intro haccepts hdecides
    obtain ⟨db, res, hok⟩ := finalize_applies h hdecides
    exact (appliesClaim_iff hok).mpr (haccepts hdecides)

end Verdict

/-! ## A verdict on a rejected operation -/

/-- A session whose attempt `0` is prepared. -/
def preparedCommit (staging : List StagingRow) : CommitDb where
  now := 1
  session := some ⟨.committing, some "node", some 9, none, some 0, some 1, none, none⟩
  attempts := [⟨0, .prepared, none, 0, 0⟩]
  staging := staging
  question := .researching
  newQuestions := []
  knowledgeRevision := 0
  dependencyGraphRevision := 0

def verifyingPlan : CommitPlan :=
  ⟨.succeeded, succeeded_isTerminal, succeeded_not_cancelled, none, some .verified⟩

/-- Claims `1` and `2` have heads under snapshot `0`, whose rules know facts. -/
def twoFactMemory : MemoryDb where
  cascade :=
    { know :=
        { heads := fun c s => if s = 0 ∧ c ∈ [1, 2] then some (.current 0 .supported) else none
          jobs := []
          questions := []
          revision := 0 }
      effective := 0
      dependencies := []
      graphRevision := 0
      manifests := []
      barriers := [] }
  tables := emptyTables
  claims := [⟨1, "fact", false⟩, ⟨2, "fact", false⟩]
  snapshots := [{ plainSnapshot 0 none .bootstrap .active with rules := factRules }]
  head := ⟨none, 0, none, none⟩
  sessions := ⟨1, 1, 1, true⟩
  sourceGraphRevision := 0

/-- One recorded claim operation. -/
def storeOf (op : ClaimOp) : FinalizeStore where
  commit := preparedCommit [⟨.claim, .recorded, [], ""⟩]
  rows := [⟨.claim ⟨op, 3, false, ∅, []⟩, .recorded⟩]
  memory := twoFactMemory
  statements := fun c => if c = 1 then ['a'] else ['b']
  pin := 0
  active := 0
  staging_rows := rfl

theorem verdict_founded_packed : ∃ r db',
    (storeOf packedReverify).finalize plainHost verifyingPlan "node" 0 = some (r, db') ∧
      Verifies (storeOf packedReverify).commit db' ∧
      (storeOf packedReverify).AppliesClaim plainHost := by
  refine ⟨_, _, rfl, ⟨by decide, rfl⟩, ?_⟩
  apply (@verdict_founded_iff plainHost (storeOf packedReverify) verifyingPlan "node" 0 _ _
    rfl).mpr
  · intro _
    refine ⟨_, rfl, _, List.mem_singleton_self _, rfl, ?_⟩
    intro raw hraw
    cases hraw
    exact ⟨1, by decide⟩
  · exact ⟨by decide, rfl⟩

/-- The reverify names two claims with heads, so it is rejected; the question is verified. -/
theorem verdict_unfounded : ¬ ∀ (host : Host) (st : FinalizeStore) (plan : CommitPlan)
    (owner : Owner) (id : AttemptId) (r : FinalizeResult) (db' : CommitDb),
    st.finalize host plan owner id = some (r, db') → Verifies st.commit db' →
    st.AppliesClaim host := by
  intro hall
  obtain ⟨db, res, hok, hpos⟩ := hall plainHost (storeOf shortReverify) verifyingPlan "node" 0
    _ _ rfl ⟨by decide, rfl⟩
  have hnone : ((storeOf shortReverify).applyMemory plainHost).map (·.2.assessments) = .ok 0 :=
    rfl
  rw [hok] at hnone
  have hzero : res.assessments = 0 := Except.ok.inj hnone
  omega

end Noezema.Commit
