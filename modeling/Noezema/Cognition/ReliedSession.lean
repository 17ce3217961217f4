import Noezema.Lib.Entries
import Noezema.Cognition.CuratorBoundary

/-! # The relied claims of a session

The list that the event of a session records is begun by the boundary and continued in four
places: an empty answer to a correction takes over what the rejected proposal declared, then
come dropped reverifies, references in the final answer, and fresher forecasts. Each place
sees the list before it as taken.
-/

namespace Noezema.Cognition

open Noezema.Lib Noezema.Memory

/-! ## The pack of a session -/

/-- What `_curator` reads besides the proposals: what the pack was built from (nothing when
there is no pack), the evidence, the final answer, the rows of `claims`, and the marks of the
forecast series. -/
structure ReliedInput where
  boundary : BoundaryHost
  isWord : Char → Bool
  uuid : ClaimId → Uuid
  retrieved : Option (RetrievalResult × ClaimBudgets)
  evidence : List SessionEvidence
  finalAnswerRationale : Text
  claimRow : Uuid → Option (Text × Option Int)
  forecastMarks : List SupplementRecord → RecordId → Option ForecastMark

namespace ReliedInput

variable (s : ReliedInput)

/-- The claim sections of the pack. -/
def sections : List ContextSection :=
  (s.retrieved.map fun r => claimSections s.isWord s.uuid r.1 r.2).getD []

/-- The knowledge that the curator reads. -/
def knowledge : Text := knowledgeText s.sections

/-- `relied_pack_ids`. -/
def packIds : List Uuid := packClaimIds s.knowledge

/-- The chunk ids of the section `claims_evidence`. -/
def claimsEvidenceChunks : List Text :=
  match s.sections.find? fun t => t.name = "claims_evidence" with
  | some evidenceSection => evidenceSection.chunkIds.map fun c => chunkPrefix ++ (s.uuid c).text
  | none => []

/-- `pack_evidence_ids`. -/
def packEvidenceIds : List Uuid := claimsEvidenceIds s.boundary.uuids s.claimsEvidenceChunks

/-! ## The operations -/

/-- The stored claim that a staged operation reverifies. -/
def operationTarget (claim : ClaimProposal) : Option Uuid :=
  claim.existingClaimId.bind fun raw => (resolveId s.boundary.uuids raw s.packIds).toOption

/-- The staged operations that are left, with their positions. -/
def activeOperations (a : BoundaryAccepted) : List (ClaimProposal × Nat) :=
  a.stagedClaims.zipIdx.filter fun e => ¬ a.dropped.has e.2

/-- `session_operation_ids`. -/
def sessionOperationIds (a : BoundaryAccepted) : List Uuid :=
  (activeOperations a).filterMap fun e => s.operationTarget e.1

/-- The dropped operations that refer to a stored claim. -/
def droppedRefs (p : CuratorProposal) (a : BoundaryAccepted) : List (Nat × Text) :=
  p.claims.zipIdx.filterMap fun e =>
    if a.dropped.has e.2 then e.1.existingClaimId.map fun raw => (e.2, raw) else none

/-! ## The four places -/

/-- The first place: an empty answer to a correction. -/
def carried (first : CuratorProposal) (c : Curated) : List Uuid :=
  if c.corrected ∧ c.proposal.claims = [] ∧ c.accepted.reliedClaimIds = [] ∧
      first.reliedClaimIds ≠ [] then
    (reliedFromRejectedProposal s.boundary.uuids first.reliedClaimIds s.packIds
      reliedClaimsLimit).added
  else []

def afterCarried (first : CuratorProposal) (c : Curated) : List Uuid :=
  c.accepted.reliedClaimIds ++ s.carried first c

/-- The second place: reverifies that were dropped. -/
def afterDropped (first : CuratorProposal) (c : Curated) : List Uuid :=
  s.afterCarried first c ++ (reliedFromDroppedOperations s.boundary.uuids
    (droppedRefs c.proposal c.accepted) s.packEvidenceIds (s.afterCarried first c)
    (s.sessionOperationIds c.accepted) reliedClaimsLimit).added

/-- The third place: the references of the final answer. -/
def afterAnswer (first : CuratorProposal) (c : Curated) : List Uuid :=
  s.afterDropped first c ++ (reliedFromAnswer s.boundary.uuids s.finalAnswerRationale s.packIds
    (s.afterDropped first c) (s.sessionOperationIds c.accepted) reliedClaimsLimit).added

/-- `_add_card_claim`. -/
def addCardClaim (card : List SupplementRecord) (claim : Uuid) : List SupplementRecord :=
  if card.any fun r => r.claimId = .stored claim then card
  else card ++ [⟨.stored claim, [], none⟩]

/-- `card_records`: the operations that are left and the relied claims. -/
def cardRecords (a : BoundaryAccepted) (relied : List Uuid) : List SupplementRecord :=
  let operations := (activeOperations a).foldl (fun card e =>
    if e.1.existingClaimId = none then
      card ++ [⟨.proposed e.2, e.1.statement, e.1.asOf⟩]
    else ((s.operationTarget e.1).map (addCardClaim card)).getD card) []
  relied.foldl addCardClaim operations

/-- `card_db_records`: a stored claim with its row, a record without row and statement not. -/
def cardDbRecords (card : List SupplementRecord) : List SupplementRecord :=
  card.filterMap fun r =>
    match r.claimId with
    | .proposed _ => if r.statement = [] then none else some r
    | .stored claim => (s.claimRow claim).map fun row => ⟨.stored claim, row.1, row.2⟩

/-- `pack_db_records`: the claims of the evidence section that are not on the card. -/
def packDbRecords (card : List SupplementRecord) : List PackRecord :=
  (s.packEvidenceIds.filter fun claim => ¬ card.any fun r => r.claimId = .stored claim).filterMap
    fun claim => (s.claimRow claim).map fun row => ⟨claim, row.1, row.2⟩

/-- The last place: fresher forecasts. -/
def afterFresher (first : CuratorProposal) (c : Curated) : List Uuid :=
  let relied := s.afterAnswer first c
  if s.packEvidenceIds = [] then relied
  else
    let card := s.cardRecords c.accepted relied
    relied ++ (fresherForecastSupplement s.forecastMarks (s.cardDbRecords card)
      (s.packDbRecords card) relied.length reliedClaimsLimit).added.map (·.claimId)

/-- `relied_claim_ids` of the session's event; a session without an accepted proposal records
none. -/
def reliedClaimIds (first : CuratorProposal) (second : Option CuratorProposal) : List Uuid :=
  match curate s.boundary s.evidence s.packIds first second with
  | some c => s.afterFresher first c
  | none => []

end ReliedInput

/-! ## Ids of the pack -/

section Pack

variable {isWord : Char → Bool} {uuid : ClaimId → Uuid} {uuids : Uuid.Reader}
  {result : RetrievalResult} {budgets : ClaimBudgets}

theorem mem_claimsEvidenceIds {claims : List ClaimId} {u : Uuid} :
    u ∈ claimsEvidenceIds uuids (claims.map fun c => chunkPrefix ++ (uuid c).text) ↔
      ∃ c ∈ claims, uuid c = u := by
  have hread : ∀ c : ClaimId, (if chunkPrefix.isPrefixOf (chunkPrefix ++ (uuid c).text) then
      uuids.parse ((chunkPrefix ++ (uuid c).text).drop chunkPrefix.length) else none) =
        some (uuid c) := by
    intro c
    rw [if_pos (List.isPrefixOf_iff_prefix.mpr (List.prefix_append _ _)), List.drop_left,
      uuids.parse_text]
  rw [claimsEvidenceIds, List.mem_eraseDups, List.filterMap_map, List.mem_filterMap]
  simp only [Function.comp_def, hread, Option.some.injEq]

/-- A claim with a chunk id stands in the knowledge with its tag. -/
theorem mem_packClaimIds_of_chunk {name : String} {claims : List RetrievedClaim} {budget : Int}
    {sections : List ContextSection}
    (hsection : claimSection isWord uuid name claims budget ∈ sections) {c : ClaimId}
    (hc : c ∈ (claimSection isWord uuid name claims budget).chunkIds) :
    uuid c ∈ packClaimIds (knowledgeText sections) := by
  obtain ⟨claim, hclaim, rfl⟩ := List.mem_map.mp hc
  have hline : claim.line uuid ∈ splitlines (claimSection isWord uuid name claims budget).content :=
    of_decide_eq_true (List.mem_filter.mp hclaim).2
  have hbody := isBody_text (uuid claim.claimId)
  have hbreak : ∀ x ∈ claimTag.tag (uuid claim.claimId).text, ¬ isLineBreak x :=
    fun x hx => (not_mem_tag hbody x hx).2.2
  have htag : claimTag.tag (uuid claim.claimId).text <:+: claim.line uuid :=
    (List.prefix_append _ _).isInfix
  refine mem_packClaimIds.mpr ⟨_, hbody, ?_, Uuid.parse_text _⟩
  exact (tag_infix_sections hbody).mpr ⟨_, hsection,
    (infix_iff_splitlines (List.cons_ne_nil _ _) hbreak).mpr ⟨_, hline, htag⟩⟩

end Pack

namespace ReliedInput

/-! ## The list of a session -/

section Session

variable {s : ReliedInput} {first : CuratorProposal} {c : Curated}

theorem packEvidenceIds_nodup (s : ReliedInput) : s.packEvidenceIds.Nodup := nodup_eraseDups _

/-- The claims of the evidence section are in view. -/
theorem packEvidenceIds_visible (s : ReliedInput) : ∀ u ∈ s.packEvidenceIds, u ∈ s.packIds := by
  intro u hu
  cases hretrieved : s.retrieved with
  | none => simp [packEvidenceIds, claimsEvidenceChunks, sections, hretrieved,
      claimsEvidenceIds] at hu
  | some r =>
    have hsections : s.sections = claimSections s.isWord s.uuid r.1 r.2 := by
      rw [sections, hretrieved]
      rfl
    rw [packEvidenceIds, claimsEvidenceChunks, hsections] at hu
    obtain ⟨c, hc, rfl⟩ := mem_claimsEvidenceIds.mp hu
    rw [packIds, knowledge, hsections]
    exact mem_packClaimIds_of_chunk List.mem_cons_self hc

theorem boundary_relying {declaredEmptyCheck reliedOnlyAnswerAllowed : Bool}
    (haccepted : curatorBoundary s.boundary s.evidence s.packIds c.proposal declaredEmptyCheck
      reliedOnlyAnswerAllowed = .ok c.accepted) :
    Relying (· ∈ s.packIds) reliedClaimsLimit c.accepted.reliedClaimIds := by
  have hrelied : c.accepted.reliedClaimIds =
      [] ++ (reliedFromProposal s.boundary.uuids c.proposal.reliedClaimIds s.packIds).added := by
    unfold curatorBoundary at haccepted
    split at haccepted
    · cases haccepted
    · rw [← Except.ok.inj haccepted]
      rfl
  rw [hrelied, reliedFromProposal]
  apply collect_relying
  · exact .nil
  · rfl
  · exact fun _ h => h

theorem afterCarried_relying
    (h : Relying (· ∈ s.packIds) reliedClaimsLimit c.accepted.reliedClaimIds) :
    Relying (· ∈ s.packIds) reliedClaimsLimit (s.afterCarried first c) := by
  unfold afterCarried carried
  split
  · rename_i hempty
    rw [hempty.2.2.1, reliedFromRejectedProposal]
    apply collect_relying
    · exact .nil
    · rfl
    · exact fun _ h => h
  · rw [List.append_nil]
    exact h

theorem afterDropped_relying
    (h : Relying (· ∈ s.packIds) reliedClaimsLimit (s.afterCarried first c)) :
    Relying (· ∈ s.packIds) reliedClaimsLimit (s.afterDropped first c) := by
  rw [afterDropped, reliedFromDroppedOperations]
  apply collect_relying
  · exact h
  · rfl
  · exact s.packEvidenceIds_visible

theorem afterAnswer_relying
    (h : Relying (· ∈ s.packIds) reliedClaimsLimit (s.afterDropped first c)) :
    Relying (· ∈ s.packIds) reliedClaimsLimit (s.afterAnswer first c) := by
  rw [afterAnswer, reliedFromAnswer]
  apply collect_relying
  · exact h
  · rfl
  · exact fun _ h => h

/-- The card has the relied claims. -/
theorem mem_cardRecords {a : BoundaryAccepted} {relied : List Uuid} {u : Uuid} (hu : u ∈ relied) :
    (s.cardRecords a relied).any fun r => r.claimId = .stored u := by
  unfold cardRecords
  dsimp only
  -- the operations come first; a record of the card is never taken off
  generalize (activeOperations a).foldl _ [] = operations
  have hkeep : ∀ (rest : List Uuid) (card : List SupplementRecord),
      (card.any fun r => r.claimId = .stored u) →
      ((rest.foldl addCardClaim card).any fun r => r.claimId = .stored u) := by
    intro rest
    induction rest with
    | nil => exact fun card h => h
    | cons v rest ih =>
      intro card h
      apply ih
      unfold addCardClaim
      split
      · exact h
      · rw [List.any_append, h, Bool.true_or]
  induction relied generalizing operations with
  | nil => exact absurd hu List.not_mem_nil
  | cons v relied ih =>
    rw [List.foldl_cons]
    rcases List.mem_cons.mp hu with rfl | hu
    · apply hkeep
      unfold addCardClaim
      split
      · assumption
      · simp
    · exact ih hu _

theorem packDbRecords_nodup (s : ReliedInput) (card : List SupplementRecord) :
    ((s.packDbRecords card).map (·.claimId)).Nodup := by
  have hsub : ∀ claims : List Uuid, ((claims.filterMap fun claim =>
      (s.claimRow claim).map fun row => (⟨claim, row.1, row.2⟩ : PackRecord)).map
        (·.claimId)).Sublist claims := by
    intro claims
    induction claims with
    | nil => exact .slnil
    | cons claim claims ih =>
      cases hrow : s.claimRow claim with
      | none =>
        simp only [List.filterMap_cons, hrow, Option.map_none]
        exact ih.cons _
      | some row =>
        simp only [List.filterMap_cons, hrow, Option.map_some, List.map_cons]
        exact ih.cons_cons _
  exact (s.packEvidenceIds_nodup.filter _).sublist (hsub _)

theorem afterFresher_relying
    (h : Relying (· ∈ s.packIds) reliedClaimsLimit (s.afterAnswer first c)) :
    Relying (· ∈ s.packIds) reliedClaimsLimit (s.afterFresher first c) := by
  unfold afterFresher
  dsimp only
  split
  · exact h
  · have hrecord : ∀ {card : List SupplementRecord} {r : PackRecord}, r ∈ s.packDbRecords card →
        r.claimId ∈ s.packEvidenceIds ∧ ¬ card.any fun q => q.claimId = .stored r.claimId := by
      intro card r hr
      obtain ⟨claim, hclaim, hrow⟩ := List.mem_filterMap.mp hr
      obtain ⟨row, -, rfl⟩ := Option.map_eq_some_iff.mp hrow
      obtain ⟨hmem, hcard⟩ := List.mem_filter.mp hclaim
      exact ⟨hmem, of_decide_eq_true hcard⟩
    apply supplement_relying h
    · exact s.packDbRecords_nodup _
    · intro r hr hrelied
      exact (hrecord hr).2 (mem_cardRecords hrelied)
    · exact fun r hr => s.packEvidenceIds_visible _ (hrecord hr).1

/-- The list of a session with an accepted proposal. -/
theorem curated_relying {second : Option CuratorProposal}
    (h : curate s.boundary s.evidence s.packIds first second = some c) :
    Relying (· ∈ s.packIds) reliedClaimsLimit (s.afterFresher first c) := by
  obtain ⟨_, _, haccepted⟩ := curate_accepted h
  have hboundary := boundary_relying haccepted
  exact afterFresher_relying (afterAnswer_relying (afterDropped_relying
    (afterCarried_relying hboundary)))

/-- **The relied claims of a session are well formed**: every id once, at most
`RELIED_CLAIMS_LIMIT` of them, each one with its tag in the knowledge of the pack. -/
theorem reliedClaimIds_relying (s : ReliedInput) (first : CuratorProposal)
    (second : Option CuratorProposal) :
    Relying (· ∈ packClaimIds s.knowledge) reliedClaimsLimit (s.reliedClaimIds first second) := by
  unfold reliedClaimIds
  split
  · rename_i c hcurate
    exact curated_relying hcurate
  · exact .nil

end Session

end ReliedInput

end Noezema.Cognition
