import Noezema.Lib.Run
import Noezema.Memory.Runtime

/-! # Candidate rows

The two upserts that write a requested payload into a row of `config_snapshots`: of the
online lane and of the offline one. The row carries the hash of the payload and one column
for each section. The online insert takes over the sections the payload leaves out; the
offline insert names ten of the seventeen columns, and the database fills in the others.
-/

namespace Noezema.Host

open Noezema.Lib Noezema.Memory

/-- A requested payload. -/
abbrev Payload := Finmap fun _ : String => Json

/-- The sections of a payload, each with its column. -/
inductive PayloadSection where
  | model | embeddings | prompts | policy | curiosity
  | tokenBudgets | sessionLimits | activationLimits | claimTypeRules
  | wakeSchedule | reassessmentAdmission | repairAdmission
  | planning | verification | repetition | extraction | researchProxy
deriving DecidableEq, Repr

namespace PayloadSection

/-- The key in the payload and the name of the column. -/
def key : PayloadSection → String
  | model => "model"
  | embeddings => "embeddings"
  | prompts => "prompts"
  | policy => "policy"
  | curiosity => "curiosity"
  | tokenBudgets => "token_budgets"
  | sessionLimits => "session_limits"
  | activationLimits => "activation_limits"
  | claimTypeRules => "claim_type_rules"
  | wakeSchedule => "wake_schedule"
  | reassessmentAdmission => "reassessment_admission"
  | repairAdmission => "repair_admission"
  | planning => "planning"
  | verification => "verification"
  | repetition => "repetition"
  | extraction => "extraction"
  | researchProxy => "research_proxy"

def all : List PayloadSection :=
  [model, embeddings, prompts, policy, curiosity, tokenBudgets, sessionLimits,
    activationLimits, claimTypeRules, wakeSchedule, reassessmentAdmission, repairAdmission,
    planning, verification, repetition, extraction, researchProxy]

/-- The columns that the offline insert does not name. -/
def unnamed : PayloadSection → Bool
  | reassessmentAdmission | repairAdmission => true
  | planning | verification | repetition | extraction | researchProxy => true
  | _ => false

/-- The columns that take the payload's value alone, set or not. -/
def required : PayloadSection → Bool
  | model | embeddings | prompts | policy | curiosity => true
  | tokenBudgets | sessionLimits | activationLimits | claimTypeRules => true
  | _ => false

/-- What the migrations declare for a column that an insert does not name. -/
def columnDefault : PayloadSection → Json
  | reassessmentAdmission | repairAdmission | wakeSchedule => .obj .nil
  | _ => .null

end PayloadSection

/-- A row of `config_snapshots`. A column without a value reads `None`, like a JSON `null`. -/
structure ConfigRow where
  id : SnapshotId
  baseSnapshotId : Option SnapshotId
  payloadSha256 : String
  sha256 : String
  mode : ActivationMode
  state : ActivationState
  column : PayloadSection → Json

/-- `canonical_sha256` and `str(uuid)`. -/
structure Canonical where
  sha256 : Payload → String
  uuidText : SnapshotId → String

/-- `config_snapshot_sha256`. -/
def Canonical.snapshotSha256 (h : Canonical) (base : Option SnapshotId)
    (payloadSha256 : String) : String :=
  h.sha256 (((∅ : Payload).insert "base_snapshot_id"
    (base.elim .null fun b => .str (h.uuidText b))).insert "payload_sha256" (.str payloadSha256))

section Upserts

variable (h : Canonical) (rows : List ConfigRow) (base : ConfigRow) (payload : Payload)
  (newId : SnapshotId)

/-- `requested_payload.get(key)`. -/
def requested (s : PayloadSection) : Json := (payload.lookup s.key).getD .null

/-- `requested_payload.get(key, base_snapshot.key)`. -/
def inherited (s : PayloadSection) : Json := (payload.lookup s.key).getD (base.column s)

/-- The columns of the offline insert. -/
def offlineColumn (s : PayloadSection) : Json :=
  match s with
  | .wakeSchedule => inherited base payload s
  | s => if s.unnamed then s.columnDefault else requested payload s

/-- The columns of the online insert. -/
def onlineColumn (s : PayloadSection) : Json :=
  match s with
  | .wakeSchedule | .reassessmentAdmission | .repairAdmission => inherited base payload s
  | .planning | .verification | .repetition | .extraction | .researchProxy =>
    inherited base payload s
  | s => requested payload s

/-- The row that an insert writes. -/
def insertedRow (mode : ActivationMode) (column : PayloadSection → Json) : ConfigRow where
  id := newId
  baseSnapshotId := some base.id
  payloadSha256 := h.sha256 payload
  sha256 := h.snapshotSha256 (some base.id) (h.sha256 payload)
  mode := mode
  state := .draft
  column := column

def offlineRow : ConfigRow :=
  insertedRow h base payload newId .offline (offlineColumn base payload)

def onlineRow : ConfigRow :=
  insertedRow h base payload newId .online (onlineColumn base payload)

/-- The conflict target of a lane: its row of the same base and payload in a state that
counts. -/
def conflicting (mode : ActivationMode) (counts : ActivationState → Bool) :
    Option ConfigRow :=
  rows.find? fun r => r.baseSnapshotId = some base.id ∧ r.payloadSha256 = h.sha256 payload ∧
    r.mode = mode ∧ counts r.state

/-- `upsert_candidate` of the offline lane: the table, the candidate and whether it is in
force already. -/
def upsertCandidate (effective : ConfigRow) : List ConfigRow × ConfigRow × Bool :=
  if effective.payloadSha256 = h.sha256 payload then (rows, effective, true)
  else match conflicting h rows base payload .offline (· ≠ .failed) with
  | some r =>
    let r' := { r with state := .draft }
    (rows.map fun o => if o.id = r.id then r' else o, r', false)
  | none =>
    let row := offlineRow h base payload newId
    (rows ++ [row], row, false)

/-- `upsert_online_candidate`. -/
def upsertOnlineCandidate : List ConfigRow × ConfigRow × Bool :=
  if base.payloadSha256 = h.sha256 payload then (rows, base, base.state = .active)
  else match conflicting h rows base payload .online
      (· ∉ [.failed, .active, .superseded]) with
  | some r => (rows, r, false)
  | none =>
    let row := onlineRow h base payload newId
    (rows ++ [row], row, false)

end Upserts

/-! ## The row is the payload -/

/-- The payload with the stored columns in the place of its sections. -/
def ConfigRow.restore (row : ConfigRow) (payload : Payload) : Payload :=
  PayloadSection.all.foldl
    (fun p s => if s.key ∈ p then p.insert s.key (row.column s) else p) payload

/-- **A row stores a payload**: the columns of its sections have their values, the columns of
the sections it leaves out those of the base, and the hash of the restored payload is the
one that the row carries. -/
structure StoresPayload (h : Canonical) (base : ConfigRow) (payload : Payload)
    (row : ConfigRow) : Prop where
  values : ∀ s v, payload.lookup s.key = some v → row.column s = v
  untouched : ∀ s, payload.lookup s.key = none → row.column s = base.column s
  hash : h.sha256 (row.restore payload) = row.payloadSha256

theorem insert_lookup {payload : Payload} {key : String} {v : Json}
    (hv : payload.lookup key = some v) : payload.insert key v = payload := by
  apply Finmap.ext_lookup
  intro other
  by_cases heq : other = key
  · subst heq
    rw [Finmap.lookup_insert, hv]
  · rw [Finmap.lookup_insert_of_ne payload heq]

/-- Values that are stored restore the payload. -/
theorem ConfigRow.restore_eq {row : ConfigRow} {payload : Payload}
    (hvalues : ∀ s v, payload.lookup s.key = some v → row.column s = v) :
    row.restore payload = payload := by
  unfold ConfigRow.restore
  generalize PayloadSection.all = sections
  induction sections with
  | nil => rfl
  | cons s sections ih =>
    rw [List.foldl_cons]
    by_cases hin : s.key ∈ payload
    · obtain ⟨v, hv⟩ := Finmap.mem_iff.mp hin
      rw [if_pos hin, hvalues s v hv, insert_lookup hv, ih]
    · rw [if_neg hin, ih]

/-- An inserted row stores its payload exactly when each column has the requested value, or
that of the base. -/
theorem insertedRow_stores_iff (h : Canonical) (base : ConfigRow) (payload : Payload)
    (newId : SnapshotId) (mode : ActivationMode) (column : PayloadSection → Json) :
    StoresPayload h base payload (insertedRow h base payload newId mode column) ↔
      ∀ s, column s = inherited base payload s := by
  constructor
  · intro hstores s
    unfold inherited
    cases hs : payload.lookup s.key with
    | none => exact hstores.untouched s hs
    | some v => exact hstores.values s v hs
  · intro hcolumn
    have hvalues : ∀ s v, payload.lookup s.key = some v → column s = v := by
      intro s v hs
      rw [hcolumn, inherited, hs, Option.getD_some]
    refine ⟨hvalues, ?_, ?_⟩
    · intro s hs
      show column s = _
      rw [hcolumn, inherited, hs, Option.getD_none]
    · rw [ConfigRow.restore_eq hvalues]
      rfl

/-- A required column has the value of the base where the payload leaves it out. -/
theorem requested_eq_inherited_iff (base : ConfigRow) (payload : Payload)
    (s : PayloadSection) : requested payload s = inherited base payload s ↔
      (payload.lookup s.key = none → base.column s = .null) := by
  unfold requested inherited
  cases payload.lookup s.key with
  | none => simpa using eq_comm
  | some v => simp

/-- The payload sets each required section that the base has. -/
def SetsRequired (base : ConfigRow) (payload : Payload) : Prop :=
  ∀ s : PayloadSection, s.required → payload.lookup s.key = none → base.column s = .null

theorem onlineColumn_eq_iff (base : ConfigRow) (payload : Payload) (s : PayloadSection) :
    onlineColumn base payload s = inherited base payload s ↔
      (s.required → payload.lookup s.key = none → base.column s = .null) := by
  cases s <;> simp [onlineColumn, PayloadSection.required, requested_eq_inherited_iff]

/-- The two inserts write the same column, where both name it. -/
theorem offlineColumn_eq (base : ConfigRow) (payload : Payload) (s : PayloadSection) :
    offlineColumn base payload s =
      if s.unnamed then s.columnDefault else onlineColumn base payload s := by
  cases s <;> rfl

theorem PayloadSection.not_required {s : PayloadSection} (h : s.unnamed) :
    s.required = false := by
  cases s <;> first | rfl | cases h

theorem offlineColumn_eq_iff (base : ConfigRow) (payload : Payload) (s : PayloadSection) :
    offlineColumn base payload s = inherited base payload s ↔
      (s.required → payload.lookup s.key = none → base.column s = .null) ∧
        (s.unnamed → inherited base payload s = s.columnDefault) := by
  rw [offlineColumn_eq]
  by_cases hun : s.unnamed
  · rw [if_pos hun, PayloadSection.not_required hun, eq_comm]
    simp [hun]
  · rw [if_neg hun, onlineColumn_eq_iff]
    exact (and_iff_left fun h => absurd h hun).symm

/-- **The candidate is the payload that was hashed**, on the online lane exactly when the
payload sets the required sections, on the offline lane when moreover the seven columns the
insert does not name are wanted at their defaults. -/
theorem candidate_stores_iff (h : Canonical) (base : ConfigRow) (payload : Payload)
    (newId : SnapshotId) :
    (StoresPayload h base payload (onlineRow h base payload newId) ↔
      SetsRequired base payload) ∧
    (StoresPayload h base payload (offlineRow h base payload newId) ↔
      SetsRequired base payload ∧
        ∀ s : PayloadSection, s.unnamed → inherited base payload s = s.columnDefault) := by
  constructor
  · rw [onlineRow, insertedRow_stores_iff]
    exact forall_congr' fun s => onlineColumn_eq_iff base payload s
  · rw [offlineRow, insertedRow_stores_iff, SetsRequired, ← forall_and]
    exact forall_congr' fun s => offlineColumn_eq_iff base payload s

/-! ## What the upserts leave in the table -/

/-- The row is what a lane inserts for some base and payload, whatever has become of its
state. -/
def Inserted (h : Canonical) (row : ConfigRow) : Prop :=
  ∃ base payload newId state, row = { offlineRow h base payload newId with state := state } ∨
    row = { onlineRow h base payload newId with state := state }

/-- All candidates of the table were inserted by a lane. -/
def AllInserted (h : Canonical) (rows : List ConfigRow) : Prop :=
  ∀ r ∈ rows, r.mode ≠ .bootstrap → Inserted h r

variable {h : Canonical} {rows : List ConfigRow}

theorem Inserted.withState {row : ConfigRow} (hrow : Inserted h row) (state : ActivationState) :
    Inserted h { row with state := state } := by
  obtain ⟨base, payload, newId, _, rfl | rfl⟩ := hrow
  · exact ⟨base, payload, newId, state, .inl rfl⟩
  · exact ⟨base, payload, newId, state, .inr rfl⟩

theorem AllInserted.snoc (hrows : AllInserted h rows) {row : ConfigRow}
    (hrow : Inserted h row) : AllInserted h (rows ++ [row]) := by
  intro r hr hmode
  rcases List.mem_append.mp hr with hr | hr
  · exact hrows r hr hmode
  · rw [List.mem_singleton.mp hr]
    exact hrow

theorem upsertCandidate_inserted (hrows : AllInserted h rows) (base effective : ConfigRow)
    (payload : Payload) (newId : SnapshotId) :
    AllInserted h (upsertCandidate h rows base payload newId effective).1 := by
  unfold upsertCandidate
  split
  · exact hrows
  · split
    · rename_i found hconflict
      intro r hr hmode
      obtain ⟨o, ho, rfl⟩ := List.mem_map.mp hr
      by_cases hid : o.id = found.id
      · rw [if_pos hid] at hmode ⊢
        have hin : found ∈ rows := List.mem_of_find?_eq_some hconflict
        exact (hrows found hin hmode).withState .draft
      · rw [if_neg hid] at hmode ⊢
        exact hrows o ho hmode
    · exact hrows.snoc ⟨base, payload, newId, .draft, .inl rfl⟩

theorem upsertOnlineCandidate_inserted (hrows : AllInserted h rows) (base : ConfigRow)
    (payload : Payload) (newId : SnapshotId) :
    AllInserted h (upsertOnlineCandidate h rows base payload newId).1 := by
  unfold upsertOnlineCandidate
  split
  · exact hrows
  · split
    · exact hrows
    · exact hrows.snoc ⟨base, payload, newId, .draft, .inr rfl⟩

/-- An upsert of a lane, or a change of a row's state. -/
inductive CandidateEvent where
  | offline (base effective : ConfigRow) (payload : Payload) (newId : SnapshotId)
  | online (base : ConfigRow) (payload : Payload) (newId : SnapshotId)
  | state (id : SnapshotId) (state : ActivationState)

def candidateStep (h : Canonical) (rows : List ConfigRow) :
    CandidateEvent → Option (List ConfigRow)
  | .offline base effective payload newId =>
    some (upsertCandidate h rows base payload newId effective).1
  | .online base payload newId => some (upsertOnlineCandidate h rows base payload newId).1
  | .state id state =>
    some (rows.map fun r => if r.id = id then { r with state := state } else r)

/-- **The table holds what the lanes insert**, after any sequence of upserts and changes of
state. -/
theorem AllInserted.run (hrows : AllInserted h rows) {rows' : List ConfigRow}
    (hrun : Run (candidateStep h) anyStep rows rows') : AllInserted h rows' := by
  refine hrun.invariant hrows fun {before after e} hI _ hs => ?_
  cases e with
  | offline base effective payload newId =>
    cases hs
    exact upsertCandidate_inserted hI base effective payload newId
  | online base payload newId =>
    cases hs
    exact upsertOnlineCandidate_inserted hI base payload newId
  | state id state =>
    cases hs
    intro r hr hmode
    obtain ⟨o, ho, rfl⟩ := List.mem_map.mp hr
    by_cases hid : o.id = id
    · rw [if_pos hid] at hmode ⊢
      exact (hI o ho hmode).withState state
    · rw [if_neg hid] at hmode ⊢
      exact hI o ho hmode

/-! ## A rules change that resets the planning -/

/-- A base with its sections set; the plans are made by the model. -/
def plannedBase : ConfigRow where
  id := 1
  baseSnapshotId := none
  payloadSha256 := "1"
  sha256 := "1"
  mode := .bootstrap
  state := .active
  column := fun s => if s = .planning then .obj (.cons "mode" (.str "llm") .nil)
    else s.columnDefault

/-- A payload that changes the rules and sets the other required sections. -/
def rulesPayload : Payload :=
  ((PayloadSection.all.filter (·.required)).foldl
    (fun p s => p.insert s.key (.obj .nil)) (∅ : Payload)).insert "claim_type_rules"
      (.obj (.cons "procedural" (.obj .nil) .nil))

/-- The offline candidate has no planning, that of its base is by the model. -/
theorem offline_candidate_resets_planning :
    ¬ ∀ (h : Canonical) (base : ConfigRow) (payload : Payload) (newId : SnapshotId),
      StoresPayload h base payload (onlineRow h base payload newId) ∧
        StoresPayload h base payload (offlineRow h base payload newId) := by
  intro hstores
  have hcolumn := (hstores ⟨fun _ => "", fun _ => ""⟩ plannedBase rulesPayload 2).2.untouched
    .planning (by decide)
  cases hcolumn

end Noezema.Host
