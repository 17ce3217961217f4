import Noezema.Lib.Except
import Noezema.Memory.Changes

/-! # Disputes

An operator disputes a claim by its sources: one page retells another. The host writes a
merge correction for each stored version of the retelling and each of the original, and a
cancel switches corrections off again. Both end in `apply_source_graph_change`.
-/

namespace Noezema.Memory

open Noezema.Lib

/-- `DisputeError` with its code; `integrity` is what the database raises. -/
inductive DisputeError where
  | claimNotFound
  | headNotCurrent
  | sourceNotFound
  | sameSource
  | alreadyGrouped
  | reasonInvalid
  | uriInvalid
  | correctionNotFound
  | integrity
deriving DecidableEq, Repr

/-- What the disputes take from the string library. -/
structure AddressReader where
  /-- `str.strip`. -/
  strip : String → String
  /-- `normalize_dispute_uri`. -/
  normalize : String → Except DisputeError String
  /-- `_uri_identity` of an address that was fetched or normalized. -/
  identity : String → String
  /-- `str` of an identifier. -/
  uuidText : SourceId → String
  /-- `uuid.UUID(value)`, for a string that is one. -/
  parseUuid : String → Option SourceId

/-- `RULES_ENGINE_VERSION`. -/
def rulesEngineVersion : String := "rules-v2"

/-! ## The table of corrections -/

/-- A row of `source_graph_corrections` with what the disputes read of it. -/
structure CorrectionRow extends SourceGraphCorrection where
  actor : String
  rulesVersion : String
  createdAt : Nat
deriving DecidableEq

/-- `UNIQUE (actor, from_source_id, to_source_id, kind, rules_version)`. -/
def CorrectionRow.key (r : CorrectionRow) :
    String × SourceId × SourceId × CorrectionKind × String :=
  (r.actor, r.fromId, r.toId, r.kind, r.rulesVersion)

/-- The row with another `valid`. -/
def CorrectionRow.setValid (valid : Bool) (r : CorrectionRow) : CorrectionRow :=
  { r with valid := valid }

/-- The memory database with the full rows of its corrections; `members` is
`source_independence_members` by the snapshot of an assessment. -/
structure DisputeDb where
  memory : MemoryDb
  rows : List CorrectionRow
  members : AssessmentId → Option (List (SourceId × String))
  keys : (rows.map CorrectionRow.key).Nodup
  ids : (rows.map (·.correctionId)).Nodup
  sourceIds : (memory.tables.sources.map (·.id)).Nodup
  mirrors : memory.tables.corrections = rows.map (·.toSourceGraphCorrection)

theorem keys_nil : (([] : List CorrectionRow).map CorrectionRow.key).Nodup := List.nodup_nil

theorem ids_nil : (([] : List CorrectionRow).map (·.correctionId)).Nodup := List.nodup_nil

/-! ## Roles -/

/-- A source as the operator sees it. -/
structure ClaimSource where
  sourceId : SourceId
  canonicalUri : Option String
deriving DecidableEq

def Source.claimSource (s : Source) : ClaimSource := ⟨s.id, s.canonicalUri⟩

/-- All rows of the two named addresses. -/
structure DisputePair where
  primaryRows : List ClaimSource
  retellingRows : List ClaimSource
  primary_ne : primaryRows ≠ []
  retelling_ne : retellingRows ≠ []

namespace DisputePair

def primary (p : DisputePair) : ClaimSource := p.primaryRows.head p.primary_ne

def retelling (p : DisputePair) : ClaimSource := p.retellingRows.head p.retelling_ne

/-- `merge_pairs`: each row of the retelling with each of the original. -/
def mergePairs (p : DisputePair) : List (ClaimSource × ClaimSource) :=
  p.retellingRows.flatMap fun retelling => p.primaryRows.map fun primary => (retelling, primary)

/-- `source_ids`. -/
def sourceIds (p : DisputePair) : List SourceId :=
  ((p.primaryRows ++ p.retellingRows).map (·.sourceId)).dedup

theorem mem_mergePairs {p : DisputePair} {r q : ClaimSource} :
    (r, q) ∈ p.mergePairs ↔ r ∈ p.retellingRows ∧ q ∈ p.primaryRows := by
  simp [mergePairs]

end DisputePair

section Roles

variable (ar : AddressReader)

/-- The sources of the claim's evidence. -/
def EvidenceDb.claimSourceIds (db : EvidenceDb) (c : ClaimId) : List SourceId :=
  ((db.evidence.filter fun e => e.claimId = c).filterMap (·.sourceId)).dedup

/-- `_claim_sources`. -/
def EvidenceDb.claimSources (db : EvidenceDb) (c : ClaimId) : List ClaimSource :=
  (db.sourceRows (db.claimSourceIds c)).map Source.claimSource

/-- The parent an evidence row records for its value. -/
def attributedText (e : Evidence) : Option String :=
  match e.sourceId, e.scope.lookup "value_attribution" with
  | some _, some (.obj fields) =>
    if (fields.get "schema").bind Json.text = some valueAttributionSchema then
      (fields.get "parent_source_id").bind Json.text
    else none
  | _, _ => none

/-- `claim_producer_sources`: the parents by the page pointer, then those by the record of a
value. -/
def EvidenceDb.producerSources (db : EvidenceDb) (c : ClaimId) : List ClaimSource :=
  let pointers := (db.sourceRows (db.claimSourceIds c)).filterMap fun s =>
    s.parentSourceId.filter (· ≠ s.id)
  let byPointer := db.sourceRows pointers
  let recorded := ((db.evidence.filter fun e => e.claimId = c).filterMap fun e =>
    (attributedText e).bind ar.parseUuid).filter (· ∉ byPointer.map (·.id))
  (byPointer ++ db.sourceRows recorded).map Source.claimSource

/-- `_uri_matches`. -/
def ClaimSource.uriMatches (s : ClaimSource) (wanted : String) : Bool :=
  match s.canonicalUri with
  | none => false
  | some uri => uri ≠ "" ∧ ar.identity uri = ar.identity wanted

/-- The candidates of an address, by id. -/
def rowsOf (uri : String) (candidates : List ClaimSource) : List ClaimSource :=
  ((candidates.filter fun s => s.uriMatches ar uri).insertionSort
    fun a b => a.sourceId ≤ b.sourceId)

/-- `resolve_dispute_pair`. -/
def resolveDisputePair (sources producers : List ClaimSource) (primaryUri retellingUri : String) :
    Except DisputeError DisputePair :=
  let candidates := sources ++ producers.filter fun p => p.sourceId ∉ sources.map (·.sourceId)
  let primaryRows := rowsOf ar primaryUri candidates
  let retellingRows := rowsOf ar retellingUri sources
  if hp : primaryRows = [] then .error .sourceNotFound
  else if hr : retellingRows = [] then .error .sourceNotFound
  else if primaryRows.any fun p => p.sourceId ∈ retellingRows.map (·.sourceId) then
    .error .sameSource
  else .ok ⟨primaryRows, retellingRows, hp, hr⟩

/-- `validate_dispute_reason`. -/
def validateDisputeReason (raw : String) : Except DisputeError String := do
  require (3 ≤ (ar.strip raw).length) .reasonInvalid
  require ((ar.strip raw).length ≤ 500) .reasonInvalid
  pure (ar.strip raw)

end Roles

/-! ## The dispute -/

/-- A call of `dispute_claim`: its arguments, the time of its transaction and the uuid it
draws for the correction of a pair. -/
structure DisputeRequest where
  claimId : ClaimId
  primaryUri : String
  retellingUri : String
  reason : String
  actor : String
  now : Nat
  newId : SourceId → SourceId → Nat

/-- `DisputeOutcome`. -/
structure DisputeOutcome where
  replayed : Bool
  correctionIds : List Nat
  primarySourceId : SourceId
  retellingSourceId : SourceId
  change : SourceGraphChangeResult

theorem applySourceGraphChange_tables (db : MemoryDb) (tables : EvidenceDb)
    (sourceIds : List SourceId) :
    (db.applySourceGraphChange tables sourceIds).1.tables =
      { db.tables with toEvidenceDb := tables } := by
  unfold MemoryDb.applySourceGraphChange
  dsimp only
  split <;> rfl

namespace DisputeDb

/-- Other rows of the corrections, and the cascade for the sources. -/
def withRows (db : DisputeDb) (rows : List CorrectionRow) (sourceIds : List SourceId)
    (keys : (rows.map CorrectionRow.key).Nodup) (ids : (rows.map (·.correctionId)).Nodup) :
    DisputeDb × SourceGraphChangeResult :=
  let change := db.memory.applySourceGraphChange
    { db.memory.tables.toEvidenceDb with corrections := rows.map (·.toSourceGraphCorrection) }
    sourceIds
  ({ db with
    memory := change.1
    rows := rows
    keys := keys
    ids := ids
    sourceIds := by
      rw [applySourceGraphChange_tables]
      exact db.sourceIds
    mirrors := by
      rw [applySourceGraphChange_tables] }, change.2)

/-- `_find_correction`. -/
def findCorrection (db : DisputeDb) (actor : String) (pair : ClaimSource × ClaimSource) :
    Option CorrectionRow :=
  db.rows.find? fun r => r.key = (actor, pair.1.sourceId, pair.2.sourceId, .merge,
    rulesEngineVersion)

/-- The correction of a pair, as it is inserted. -/
def newCorrection (q : DisputeRequest) (pair : ClaimSource × ClaimSource) : CorrectionRow where
  correctionId := q.newId pair.1.sourceId pair.2.sourceId
  fromId := pair.1.sourceId
  toId := pair.2.sourceId
  kind := .merge
  valid := true
  actor := q.actor
  rulesVersion := rulesEngineVersion
  createdAt := q.now

/-- The rows after the dispute of a pair: those of the pairs are valid, and a pair without
one has got one. -/
def disputedRows (db : DisputeDb) (q : DisputeRequest) (pairs : List (ClaimSource × ClaimSource)) :
    List CorrectionRow :=
  let found := (pairs.filterMap (db.findCorrection q.actor)).map (·.correctionId)
  (db.rows.map fun r => if r.correctionId ∈ found then r.setValid true else r) ++
    (pairs.filter fun p => db.findCorrection q.actor p = none).map (newCorrection q)

/-- `_group_ids` of the assessment, for one source. -/
def groupId (db : DisputeDb) (a : AssessmentId) (s : SourceId) : Option String :=
  (db.members a).bind fun members => members.lookup s

/-- `_producer_group_ids`. -/
def producerGroupIds (ar : AddressReader) (db : DisputeDb) (a : AssessmentId) (parent : SourceId)
    (c : ClaimId) : List String :=
  let tables := db.memory.tables.toEvidenceDb
  (((db.members a).getD []).filter fun m => tables.evidence.any fun e =>
    e.claimId = c ∧ e.sourceId = some m.1 ∧
      ((tables.sources.any fun s => s.id = m.1 ∧ s.parentSourceId = some parent) ∨
        attributedText e = some (ar.uuidText parent))).map (·.2) |>.dedup

/-- Each version of the retelling is in the group of the original already. -/
def alreadyGrouped (ar : AddressReader) (db : DisputeDb) (a : AssessmentId) (c : ClaimId)
    (pair : DisputePair) : Bool :=
  let primaryGroup := (db.groupId a pair.primary.sourceId).or
    (match db.producerGroupIds ar a pair.primary.sourceId c with
      | [g] => some g
      | _ => none)
  primaryGroup.any fun g => pair.retellingRows.all fun r => db.groupId a r.sourceId = some g

/-- `dispute_claim`, up to the pair. -/
def disputePair (ar : AddressReader) (db : DisputeDb) (q : DisputeRequest) :
    Except DisputeError DisputePair := do
  let _ ← validateDisputeReason ar q.reason
  let primary ← ar.normalize q.primaryUri
  let retelling ← ar.normalize q.retellingUri
  require (db.memory.claim? q.claimId).isSome .claimNotFound
  let tables := db.memory.tables.toEvidenceDb
  resolveDisputePair ar (tables.claimSources q.claimId) (tables.producerSources ar q.claimId)
    primary retelling

/-- `dispute_claim`. -/
def disputeClaim (ar : AddressReader) (db : DisputeDb) (q : DisputeRequest) :
    Except DisputeError (DisputeDb × DisputeOutcome) := do
  let pair ← db.disputePair ar q
  let existing := pair.mergePairs.map (db.findCorrection q.actor)
  if existing.all fun row => row.any (·.valid) then
    -- a repetition changes nothing
    pure (db, ⟨true, existing.filterMap (·.map (·.correctionId)), pair.primary.sourceId,
      pair.retelling.sourceId, ⟨0, 0, 0, 0⟩⟩)
  else
    match db.memory.know.heads q.claimId db.memory.effective with
    | some (.current a _) =>
      require (¬ db.alreadyGrouped ar a q.claimId pair) .alreadyGrouped
      let rows := db.disputedRows q pair.mergePairs
      if h : (rows.map CorrectionRow.key).Nodup ∧ (rows.map (·.correctionId)).Nodup then
        let (db', change) := db.withRows rows pair.sourceIds h.1 h.2
        pure (db', ⟨false, pair.mergePairs.map fun p =>
            ((db.findCorrection q.actor p).map (·.correctionId)).getD
              (newCorrection q p).correctionId,
          pair.primary.sourceId, pair.retelling.sourceId, change⟩)
      else throw .integrity
    | _ => throw .headNotCurrent

/-! ## The cancel -/

/-- `ORDER BY created_at DESC, id DESC`. -/
def newestFirst (a b : CorrectionRow) : Bool :=
  b.createdAt < a.createdAt ∨ (b.createdAt = a.createdAt ∧ b.correctionId ≤ a.correctionId)

/-- The merges in force that touch a source of the claim. -/
def touching (db : DisputeDb) (c : ClaimId) : List CorrectionRow :=
  let sources := db.memory.tables.claimSourceIds c
  db.rows.filter fun r => r.kind = .merge ∧ r.valid ∧ (r.fromId ∈ sources ∨ r.toId ∈ sources)

/-- `_valid_corrections_for_claim`. -/
def validCorrectionsForClaim (db : DisputeDb) (c : ClaimId) : List CorrectionRow :=
  (db.touching c).insertionSort fun a b => newestFirst a b

/-- The address of a source, if it has one. -/
def address (db : DisputeDb) (s : SourceId) : Option String :=
  ((db.memory.tables.sources.find? fun r => r.id = s).bind (·.canonicalUri)).filter (· ≠ "")

/-- The page of a source: its address as an identity. -/
def page (ar : AddressReader) (db : DisputeDb) (s : SourceId) : Option String :=
  (db.address s).map ar.identity

/-- `_same_page_corrections`. -/
def samePageCorrections (ar : AddressReader) (db : DisputeDb) (c : ClaimId)
    (correction : CorrectionRow) : List CorrectionRow :=
  let candidates := (db.validCorrectionsForClaim c).filter fun r =>
    r.correctionId ≠ correction.correctionId ∧ r.actor = correction.actor ∧
      r.toId = correction.toId ∧ r.rulesVersion = correction.rulesVersion
  match db.page ar correction.fromId with
  | none => []
  | some wanted => candidates.filter fun r => db.page ar r.fromId = some wanted

/-- `CancelOutcome`. -/
structure CancelOutcome where
  correctionIds : List Nat
  change : SourceGraphChangeResult

theorem setValid_keys (rows : List CorrectionRow) (p : CorrectionRow → Prop) [DecidablePred p]
    (valid : Bool) :
    (rows.map fun r => if p r then r.setValid valid else r).map CorrectionRow.key =
      rows.map CorrectionRow.key := by
  rw [List.map_map]
  apply List.map_congr_left
  intro r _
  by_cases hp : p r
  · simp [hp, CorrectionRow.setValid, CorrectionRow.key]
  · simp [hp]

theorem setValid_ids (rows : List CorrectionRow) (p : CorrectionRow → Prop) [DecidablePred p]
    (valid : Bool) :
    (rows.map fun r => if p r then r.setValid valid else r).map (·.correctionId) =
      rows.map (·.correctionId) := by
  rw [List.map_map]
  apply List.map_congr_left
  intro r _
  by_cases hp : p r
  · simp [hp, CorrectionRow.setValid]
  · simp [hp]

/-- The corrections switched off, and the cascade for both their ends. -/
def switchOff (db : DisputeDb) (cancelled : List CorrectionRow) :
    DisputeDb × SourceGraphChangeResult :=
  db.withRows
    (db.rows.map fun r =>
      if r.correctionId ∈ cancelled.map (·.correctionId) then r.setValid false else r)
    ((cancelled.map (·.fromId) ++ cancelled.map (·.toId)).dedup)
    (by
      rw [setValid_keys db.rows (fun r => r.correctionId ∈ cancelled.map (·.correctionId))]
      exact db.keys)
    (by
      rw [setValid_ids db.rows (fun r => r.correctionId ∈ cancelled.map (·.correctionId))]
      exact db.ids)

/-- `cancel_dispute`. -/
def cancelDispute (ar : AddressReader) (db : DisputeDb) (c : ClaimId) (reason : Option String) :
    Except DisputeError (DisputeDb × CancelOutcome) := do
  let _ ← reason.mapM (validateDisputeReason ar)
  require (db.memory.claim? c).isSome .claimNotFound
  match db.validCorrectionsForClaim c with
  | [] => throw .correctionNotFound
  | representative :: _ =>
    let cancelled := representative :: db.samePageCorrections ar c representative
    let (db', change) := db.switchOff cancelled
    pure (db', ⟨cancelled.map (·.correctionId), change⟩)

end DisputeDb

end Noezema.Memory
