import Noezema.Lib.Except
import Noezema.Lib.Entries
import Noezema.Cognition.CuratorBoundary

/-! # The staging of a proposal

What the boundary accepted is recorded: the operations that are left, then the links of
those operations, then the questions. An operation is found again by its place among the
recorded ones, so the links are renumbered. For each link the host decides where the value
comes from, and for a reverify it asks what is stored of its claim.
-/

namespace Noezema.Cognition

open Noezema.Lib Noezema.Memory

/-! ## Where a value comes from -/

inductive AttributionStatus where
  | derivative
  | ownAssessment
  | ambiguousPrimaries
  | noValueAttribution
  | selfPrimary
  | valueNotAttributed
deriving DecidableEq, Repr

inductive AttributionPairing where
  | valueAndPrimary
  | publicationWindow
  | other
deriving DecidableEq, Repr

/-- What the staging reads of a `ValueAttributionDecision`. -/
structure ValueAttributionDecision where
  status : AttributionStatus
  primaryKey : Option String
  pairing : AttributionPairing
deriving DecidableEq

/-- The detector found nobody to attribute the value to; it is asked once more. -/
def ValueAttributionDecision.isUnattributed (d : ValueAttributionDecision) : Bool :=
  d.status = .noValueAttribution ∨ d.status = .valueNotAttributed

/-- `known_primary_key_from_decision`. -/
def knownPrimaryKey (d : ValueAttributionDecision) : Option String :=
  if d.status = .derivative ∧ (d.pairing = .valueAndPrimary ∨ d.pairing = .publicationWindow) then
    d.primaryKey
  else none

/-- The detector of values, the keys stored with the evidence of a claim, and the entry that
a decision writes into a link. -/
structure AttributionHost where
  attributeValue : SessionEvidence → Text → Finset String → ValueAttributionDecision
  knownClaimPrimaries : Uuid → Finset String
  writeValueAttribution : SessionEvidence → Text → ValueAttributionDecision → Option String

/-! ## Recorded operations -/

/-- The payload of an `evidence` operation. -/
structure EvidencePayload where
  evidenceIndex : Nat
  claimIndex : Nat
  relation : EvidenceRelation
  origin : Option String
deriving DecidableEq

inductive StagingOp where
  | claim (payload : ClaimProposal)
  | evidence (payload : EvidencePayload)
  | question (payload : QuestionProposal)

def StagingOp.claim? : StagingOp → Option ClaimProposal
  | .claim payload => some payload
  | _ => none

def StagingOp.evidence? : StagingOp → Option EvidencePayload
  | .evidence payload => some payload
  | _ => none

/-- What ends the phase with an exception: a position without a new number, a text that is
no id. -/
inductive StagingError where
  | keyError (claimIndex : Nat)
  | badUuid (raw : Text)
deriving DecidableEq

section Staging

variable (uuids : Uuid.Reader) (host : AttributionHost) (evidence : List SessionEvidence)
  (p : CuratorProposal) (a : BoundaryAccepted)

/-- `_value_attribution_decision`. -/
def valueAttributionDecision (record : SessionEvidence) (claimStatement : Text)
    (knownClaimPrimaries : Finset String) : Option ValueAttributionDecision :=
  if record.kind ≠ "source_assertion" ∨ record.assertionText = [] ∨ record.sourceId = [] then none
  else some (host.attributeValue record claimStatement knownClaimPrimaries)

/-- The operations that are not dropped, with their positions. -/
def keptClaims : List (ClaimProposal × Nat) :=
  keptEntries (fun _ i => ¬ a.dropped.has i) a.stagedClaims

/-- `active_claims`. -/
def activeClaims : List Nat := keptPositions (fun _ i => ¬ a.dropped.has i) a.stagedClaims

/-- `staged_index`. -/
def stagedIndex : List (Nat × Nat) := renumbering (activeClaims a)

/-- The link goes on: its operation is not dropped and it is not removed. -/
def keepsLink (link : ProposedLink) (k : Nat) : Bool :=
  ¬ a.dropped.has link.claimIndex ∧ k ∉ a.removedLinkIndices

def keptLinks : List (ProposedLink × Nat) := keptEntries (keepsLink a) p.evidenceLinks

/-- `link_decisions`, the first pass. -/
def linkDecision (link : ProposedLink) : Option ValueAttributionDecision :=
  evidence[link.evidenceIndex]?.bind fun record =>
    p.claims[link.claimIndex]?.bind fun claim =>
      valueAttributionDecision host record claim.statement ∅

/-- `known_primaries_by_claim`. -/
def knownPrimariesOf (i : Nat) : Finset String :=
  (((keptLinks p a).filter fun e => e.1.claimIndex = i).filterMap fun e =>
    (linkDecision host evidence p e.1).bind knownPrimaryKey).toFinset

/-- The keys of the stored claim that an operation reverifies; its reference is read as an
id here, not resolved. -/
def anchorPrimaries (existingClaimId : Option Text) : Except StagingError (Finset String) :=
  match existingClaimId with
  | none => .ok ∅
  | some raw =>
    if raw = [] then .ok ∅
    else match uuids.parse raw with
      | some target => .ok (host.knownClaimPrimaries target)
      | none => .error (.badUuid raw)

/-- The entry of a link about the origin of its value, the second pass. -/
def linkOrigin (link : ProposedLink) : Except StagingError (Option String) :=
  match evidence[link.evidenceIndex]?, p.claims[link.claimIndex]?,
      linkDecision host evidence p link with
  | some record, some claim, some decision =>
    if decision.isUnattributed then do
      let stored ← anchorPrimaries uuids host
        (a.stagedClaims[link.claimIndex]?.bind (·.existingClaimId))
      let known := knownPrimariesOf host evidence p a link.claimIndex ∪ stored
      pure ((valueAttributionDecision host record claim.statement known).bind
        (host.writeValueAttribution record claim.statement))
    else .ok (host.writeValueAttribution record claim.statement decision)
  | _, _, _ => .ok none

/-- One turn of the loop over the links. -/
def stageLink (e : ProposedLink × Nat) : Except StagingError EvidencePayload :=
  match (stagedIndex a).lookup e.1.claimIndex with
  | none => .error (.keyError e.1.claimIndex)
  | some index => do
    let origin ← linkOrigin uuids host evidence p a e.1
    pure ⟨e.1.evidenceIndex, index, e.1.relation, origin⟩

/-- The order of the records: claims, links, questions. -/
def stagingOps (links : List EvidencePayload) : List StagingOp :=
  (keptClaims a).map (fun e => .claim e.1) ++ links.map .evidence ++ p.newQuestions.map .question

/-- The staging of an accepted proposal. -/
def stageProposal : Except StagingError (List StagingOp) := do
  let links ← (keptLinks p a).mapM (stageLink uuids host evidence p a)
  pure (stagingOps p a links)

/-- What the phase leaves in `session_staging`: an exception rolls it back. -/
def recordedOps : List StagingOp :=
  (stageProposal uuids host evidence p a).toOption.getD []

end Staging

/-! ## What staging is for -/

/-- The staged claim stands for the claim: only the reference may be another one. -/
def StandsFor (c s : ClaimProposal) : Prop := { s with existingClaimId := c.existingClaimId } = c

/-- **The links follow their claims.** The recorded claims stand, in order and one for one,
for the claims that are not dropped; the recorded links, in order and one for one, for the
links with valid indices that are not removed and whose claim is not dropped. The number in a
recorded link is the place of the recorded claim that stands for the claim of the link. -/
structure LinksFollow (evidenceCount : Nat) (p : CuratorProposal) (a : BoundaryAccepted)
    (ops : List StagingOp) (claimOrigins linkOrigins : List Nat) : Prop where
  claimOrder : claimOrigins.Pairwise (· < ·)
  claimOrigin : ∀ i, i ∈ claimOrigins ↔ i < p.claims.length ∧ ¬ a.dropped.has i
  claims : List.Forall₂ (fun i s => ∃ c, p.claims[i]? = some c ∧ StandsFor c s) claimOrigins
    (ops.filterMap StagingOp.claim?)
  linkOrder : linkOrigins.Pairwise (· < ·)
  linkOrigin : ∀ k, k ∈ linkOrigins ↔ ∃ link, p.evidenceLinks[k]? = some link ∧
    link.evidenceIndex < evidenceCount ∧ link.claimIndex < p.claims.length ∧
      ¬ a.dropped.has link.claimIndex ∧ k ∉ a.removedLinkIndices
  links : List.Forall₂ (fun k e => ∃ link, p.evidenceLinks[k]? = some link ∧
      claimOrigins[e.claimIndex]? = some link.claimIndex ∧
        e.evidenceIndex = link.evidenceIndex ∧ e.relation = link.relation) linkOrigins
    (ops.filterMap StagingOp.evidence?)

/-- The condition: a link to whose value the detector finds nobody is of a new claim, or of a
reverify whose reference is read as an id. -/
def AnchorsRead (uuids : Uuid.Reader) (host : AttributionHost) (evidence : List SessionEvidence)
    (p : CuratorProposal) (a : BoundaryAccepted) : Prop :=
  ∀ e ∈ keptLinks p a, ∀ d, linkDecision host evidence p e.1 = some d → d.isUnattributed →
    ∀ raw, p.claims[e.1.claimIndex]?.bind (·.existingClaimId) = some raw → raw ≠ [] →
      (uuids.parse raw).isSome

/-! ## When the staging raises -/

section Raises

variable {uuids : Uuid.Reader} {host : AttributionHost} {evidence : List SessionEvidence}
  {p : CuratorProposal} {a : BoundaryAccepted}

theorem mem_keptLinks {e : ProposedLink × Nat} : e ∈ keptLinks p a ↔
    p.evidenceLinks[e.2]? = some e.1 ∧ ¬ a.dropped.has e.1.claimIndex ∧
      e.2 ∉ a.removedLinkIndices := by
  obtain ⟨link, k⟩ := e
  rw [keptLinks, mem_keptEntries, keepsLink, decide_eq_true_iff]

theorem mem_activeClaims (h : Admits evidence.length p a) {i : Nat} :
    i ∈ activeClaims a ↔ i < p.claims.length ∧ ¬ a.dropped.has i := by
  rw [activeClaims, mem_keptPositions, h.claims.length_eq]
  simp only [decide_eq_true_iff, exists_and_right, List.getElem?_eq_some_iff,
    and_congr_left_iff]
  intro _
  constructor
  · intro ⟨_, hi, _⟩
    exact hi
  · intro hi
    exact ⟨_, hi, rfl⟩

/-- The claim that a link names has a new number. -/
theorem stagedIndex_of_kept (h : Admits evidence.length p a) {e : ProposedLink × Nat}
    (he : e ∈ keptLinks p a) : ∃ index, (stagedIndex a).lookup e.1.claimIndex = some index := by
  obtain ⟨hlink, hdropped, -⟩ := mem_keptLinks.mp he
  have hvalid := h.links e.1 (List.mem_of_getElem? hlink)
  exact lookup_renumbering_of_mem (keptPositions_nodup _ _)
    ((mem_activeClaims h).mpr ⟨hvalid.2, hdropped⟩)

/-- What the second pass asks the store is read when the reference of the proposal is: a
converted claim has the text of an id. -/
theorem anchorPrimaries_ok_iff (h : Admits evidence.length p a) {i : Nat} :
    (∃ known, anchorPrimaries uuids host (a.stagedClaims[i]?.bind (·.existingClaimId)) =
      .ok known) ↔
      ∀ raw, p.claims[i]?.bind (·.existingClaimId) = some raw → raw ≠ [] →
        (uuids.parse raw).isSome := by
  have hread : ∀ existing : Option Text, (∃ known, anchorPrimaries uuids host existing =
      .ok known) ↔ ∀ raw, existing = some raw → raw ≠ [] → (uuids.parse raw).isSome := by
    intro existing
    cases existing with
    | none => simp [anchorPrimaries]
    | some raw =>
      by_cases hraw : raw = []
      · simp [anchorPrimaries, hraw]
      · cases hparse : uuids.parse raw with
        | none => simp [anchorPrimaries, hraw, hparse]
        | some target => simp [anchorPrimaries, hraw, hparse]
  rw [hread]
  cases hc : p.claims[i]? with
  | none =>
    have hlength := List.getElem?_eq_none_iff.mp hc
    rw [h.claims.length_eq] at hlength
    rw [List.getElem?_eq_none hlength]
  | some c =>
    obtain ⟨s, hs, hstands⟩ := forall₂_getElem? h.claims hc
    rw [hs]
    rcases hstands with rfl | ⟨hnew, target, rfl⟩
    · rfl
    · -- the converted claim refers to its target by the text of an id, which is read
      simp [hnew, uuids.parse_text]

theorem linkOrigin_ok_iff (h : Admits evidence.length p a) {link : ProposedLink} :
    (∃ origin, linkOrigin uuids host evidence p a link = .ok origin) ↔
      ∀ d, linkDecision host evidence p link = some d → d.isUnattributed →
        ∀ raw, p.claims[link.claimIndex]?.bind (·.existingClaimId) = some raw → raw ≠ [] →
          (uuids.parse raw).isSome := by
  unfold linkOrigin
  split
  · rename_i record claim decision hrecord hclaim hdecision
    simp only [hdecision, Option.some.injEq, forall_eq']
    split
    · rename_i hunattributed
      simp only [hunattributed, true_implies]
      rw [← @anchorPrimaries_ok_iff uuids host evidence p a h]
      constructor
      · intro ⟨origin, horigin⟩
        obtain ⟨known, hknown, -⟩ := bind_eq_ok.mp horigin
        exact ⟨known, hknown⟩
      · intro ⟨known, hknown⟩
        exact ⟨_, bind_eq_ok.mpr ⟨known, hknown, rfl⟩⟩
    · rename_i hunattributed
      simp [hunattributed]
  · -- without a record, a claim or a decision nothing is asked
    rename_i hnone
    constructor
    · intro _ d hd
      obtain ⟨record, hrecord, hd'⟩ := Option.bind_eq_some_iff.mp hd
      obtain ⟨claim, hclaim, -⟩ := Option.bind_eq_some_iff.mp hd'
      exact absurd hd (hnone record claim d hrecord hclaim)
    · exact fun _ => ⟨none, rfl⟩

/-- **When the staging goes through.** -/
theorem stageProposal_ok_iff (h : Admits evidence.length p a) :
    (∃ ops, stageProposal uuids host evidence p a = .ok ops) ↔
      AnchorsRead uuids host evidence p a := by
  have hturn : ∀ e ∈ keptLinks p a, ((∃ payload, stageLink uuids host evidence p a e =
      .ok payload) ↔ ∃ origin, linkOrigin uuids host evidence p a e.1 = .ok origin) := by
    intro e he
    obtain ⟨index, hindex⟩ := stagedIndex_of_kept h he
    unfold stageLink
    rw [hindex]
    dsimp only
    constructor
    · intro ⟨payload, hpayload⟩
      obtain ⟨origin, horigin, -⟩ := bind_eq_ok.mp hpayload
      exact ⟨origin, horigin⟩
    · intro ⟨origin, horigin⟩
      exact ⟨_, bind_eq_ok.mpr ⟨origin, horigin, rfl⟩⟩
  have hlinks : (∃ ops, stageProposal uuids host evidence p a = .ok ops) ↔
      ∃ links, (keptLinks p a).mapM (stageLink uuids host evidence p a) = .ok links := by
    constructor
    · intro ⟨ops, hops⟩
      obtain ⟨links, hlinks, -⟩ := bind_eq_ok.mp hops
      exact ⟨links, hlinks⟩
    · intro ⟨links, hlinks⟩
      exact ⟨_, bind_eq_ok.mpr ⟨links, hlinks, rfl⟩⟩
  rw [hlinks, mapM_ok_iff]
  exact forall₂_congr fun e he => (hturn e he).trans (linkOrigin_ok_iff h)

/-! ## What is recorded -/

theorem stageLink_ok {e : ProposedLink × Nat} {payload : EvidencePayload}
    (h : stageLink uuids host evidence p a e = .ok payload) :
    (stagedIndex a).lookup e.1.claimIndex = some payload.claimIndex ∧
      payload.evidenceIndex = e.1.evidenceIndex ∧ payload.relation = e.1.relation := by
  unfold stageLink at h
  split at h
  · cases h
  · rename_i index hindex
    obtain ⟨origin, -, hpayload⟩ := bind_eq_ok.mp h
    cases hpayload
    exact ⟨hindex, rfl, rfl⟩

theorem claims_stagingOps (links : List EvidencePayload) :
    (stagingOps p a links).filterMap StagingOp.claim? = (keptClaims a).map (·.1) := by
  simp [stagingOps, List.filterMap_append, List.filterMap_map, Function.comp_def,
    StagingOp.claim?]

theorem links_stagingOps (links : List EvidencePayload) :
    (stagingOps p a links).filterMap StagingOp.evidence? = links := by
  simp [stagingOps, List.filterMap_append, List.filterMap_map, Function.comp_def,
    StagingOp.evidence?]

/-- A staged claim stands for the claim at its position. -/
theorem Admits.standsFor (h : Admits evidence.length p a) {i : Nat} {s : ClaimProposal}
    (hs : a.stagedClaims[i]? = some s) : ∃ c, p.claims[i]? = some c ∧ StandsFor c s := by
  obtain ⟨c, hc, hstands⟩ := forall₂_getElem? h.claims.flip hs
  refine ⟨c, hc, ?_⟩
  rcases hstands with rfl | ⟨_, target, rfl⟩
  · rfl
  · rfl

/-- **What goes through follows the claims.** -/
theorem stageProposal_linksFollow (h : Admits evidence.length p a) {ops : List StagingOp}
    (hops : stageProposal uuids host evidence p a = .ok ops) :
    LinksFollow evidence.length p a ops (activeClaims a)
      (keptPositions (keepsLink a) p.evidenceLinks) := by
  obtain ⟨links, hlinks, hpure⟩ := bind_eq_ok.mp hops
  cases hpure
  refine ⟨keptPositions_pairwise _ _, fun i => mem_activeClaims h, ?_,
    keptPositions_pairwise _ _, ?_, ?_⟩
  · rw [claims_stagingOps, activeClaims, keptPositions, keptClaims, List.forall₂_map_left_iff,
      List.forall₂_map_right_iff, List.forall₂_same]
    intro e he
    exact h.standsFor (mem_keptEntries.mp he).1
  · intro k
    rw [mem_keptPositions]
    constructor
    · rintro ⟨link, hlink, hkeep⟩
      obtain ⟨hdropped, hremoved⟩ := of_decide_eq_true hkeep
      have hvalid := h.links link (List.mem_of_getElem? hlink)
      exact ⟨link, hlink, hvalid.1, hvalid.2, hdropped, hremoved⟩
    · rintro ⟨link, hlink, _, _, hkeep⟩
      exact ⟨link, hlink, decide_eq_true hkeep⟩
  · rw [links_stagingOps, keptPositions, List.forall₂_map_left_iff]
    have hboth := (List.forall₂_and_left _ _).mpr ⟨fun _ he => he, mapM_forall₂ hlinks⟩
    apply hboth.imp
    rintro e payload ⟨he, hpayload⟩
    obtain ⟨hindex, hevidenceIndex, hrelation⟩ := stageLink_ok hpayload
    exact ⟨e.1, (mem_keptLinks.mp he).1, (lookup_renumbering (keptPositions_nodup _ _)).mp hindex,
      hevidenceIndex, hrelation⟩

/-- **When the links follow their claims.** -/
theorem recordedOps_linksFollow_iff (h : Admits evidence.length p a) :
    (∃ claimOrigins linkOrigins, LinksFollow evidence.length p a
      (recordedOps uuids host evidence p a) claimOrigins linkOrigins) ↔
      AnchorsRead uuids host evidence p a := by
  rw [← stageProposal_ok_iff h]
  constructor
  · intro ⟨claimOrigins, linkOrigins, hfollow⟩
    cases hstage : stageProposal uuids host evidence p a with
    | ok ops => exact ⟨ops, rfl⟩
    | error e =>
      -- nothing is recorded, so no link was kept, and then nothing raises
      have hrecorded : recordedOps uuids host evidence p a = [] := by
        rw [recordedOps, hstage]
        rfl
      have hlinks := hfollow.links
      rw [hrecorded] at hlinks
      have hnone : linkOrigins = [] := List.forall₂_nil_right_iff.mp hlinks
      rw [← hstage]
      refine (stageProposal_ok_iff h).mpr fun e' he' => ?_
      obtain ⟨hlink, hdropped, hremoved⟩ := mem_keptLinks.mp he'
      have hvalid := h.links e'.1 (List.mem_of_getElem? hlink)
      have hmem := (hfollow.linkOrigin e'.2).mpr
        ⟨e'.1, hlink, hvalid.1, hvalid.2, hdropped, hremoved⟩
      rw [hnone] at hmem
      exact absurd hmem List.not_mem_nil
  · intro ⟨ops, hops⟩
    have hrecorded : recordedOps uuids host evidence p a = ops := by
      rw [recordedOps, hops]
      rfl
    rw [hrecorded]
    exact ⟨_, _, stageProposal_linksFollow h hops⟩

end Raises

/-! ## A session -/

/-- **When the links of a session follow their claims.** For every proposal that a session goes
on with, whatever its gates dropped and removed: the links follow their claims exactly when
each kept link to whose value the detector finds nobody is of a new claim, or of a reverify
whose reference is read as an id. -/
theorem linksFollow_iff (boundary : BoundaryHost) (host : AttributionHost)
    (evidence : List SessionEvidence) (packIds : List Uuid) (first : CuratorProposal)
    (second : Option CuratorProposal) {c : Curated}
    (h : curate boundary evidence packIds first second = some c) :
    (∃ claimOrigins linkOrigins, LinksFollow evidence.length c.proposal c.accepted
      (recordedOps boundary.uuids host evidence c.proposal c.accepted) claimOrigins
        linkOrigins) ↔
      AnchorsRead boundary.uuids host evidence c.proposal c.accepted := by
  obtain ⟨_, _, haccepted⟩ := curate_accepted h
  exact recordedOps_linksFollow_iff (curatorBoundary_admits haccepted)

/-! ## A reference that the boundary resolves and the staging does not read -/

/-- A page that states the capital and names nobody. -/
def capitalPage : SessionEvidence :=
  ⟨⟨"page", "source_assertion"⟩, ['s'], ['u'], ['P'], some ['P']⟩

def capitalId : Uuid := 0x118b76b3000000000000000000000001#128

/-- The first digits of the id, enough for a reference. -/
def shortReference : Text := ['1', '1', '8', 'b', '7', '6', 'b', '3']

/-- A reverify of the capital, with the page as its support. -/
def reverifies (reference : Text) : CuratorProposal where
  summary := ['s']
  claims := [⟨['P'], some reference, [], "fact", ∅, none, []⟩]
  evidenceLinks := [⟨0, 0, .supports⟩]
  newQuestions := []
  reliedClaimIds := []

/-- A host whose gates have nothing to object: the statement names no value and no period. -/
def plainBoundary : BoundaryHost where
  uuids := .plain
  anchor := fun _ => some ⟨"fact", ['P']⟩
  emptyProposalDefect := fun _ => false
  linkValueGate := fun _ _ => .unchecked
  valueDuplicates := fun _ _ _ => none
  claimPeriodRejections := fun _ => ⟨fun _ => none, fun _ => none⟩
  parseDay := plainHost.parseDay
  parseTime := plainHost.parseTime
  rules := factRules
  questionsMax := 4
  curatorRecordGates := false

/-- The detector finds nobody on the page. -/
def plainAttribution : AttributionHost where
  attributeValue := fun _ _ _ => ⟨.noValueAttribution, none, .valueAndPrimary⟩
  knownClaimPrimaries := fun _ => ∅
  writeValueAttribution := fun _ _ _ => none

/-- The boundary lets the reverify through as it is. -/
theorem reverifies_curated : ∃ a, curate plainBoundary [capitalPage] [capitalId]
    (reverifies shortReference) none = some ⟨reverifies shortReference, a, false⟩ ∧
      a.dropped = [] ∧ a.removedLinkIndices = [] := by
  have hnone : rejection? plainBoundary [capitalPage] [capitalId] (reverifies shortReference)
      true false = none := by decide
  refine ⟨acceptance plainBoundary [capitalPage] [capitalId] (reverifies shortReference), ?_,
    by decide, by decide⟩
  rw [curate, curatorBoundary, hnone]

/-- An operation that asks with an empty search statement, the reverify of the capital and a
new claim, each with the page as its support. -/
def mixedOperations : CuratorProposal where
  summary := ['s']
  claims := [⟨['Q'], none, [[]], "fact", ∅, none, []⟩,
    ⟨['P'], some capitalId.text, [], "fact", ∅, none, []⟩,
    ⟨['R'], none, [], "fact", ∅, none, []⟩]
  evidenceLinks := [⟨0, 0, .supports⟩, ⟨0, 1, .supports⟩, ⟨0, 2, .supports⟩]
  newQuestions := []
  reliedClaimIds := []

/-- The first operation is dropped, and the links of the others are renumbered with their
claims. -/
theorem linksFollow_iff_renumbered : ∃ c, curate plainBoundary [capitalPage] [capitalId]
    mixedOperations none = some c ∧ c.accepted.dropped.map (·.1) = [0] ∧
    ((recordedOps .plain plainAttribution [capitalPage] c.proposal c.accepted).filterMap
      StagingOp.evidence?).map (·.claimIndex) = [0, 1] ∧ ∃ claimOrigins linkOrigins,
      LinksFollow 1 c.proposal c.accepted
        (recordedOps .plain plainAttribution [capitalPage] c.proposal c.accepted) claimOrigins
          linkOrigins := by
  have hcurate : curate plainBoundary [capitalPage] [capitalId] mixedOperations none =
      some ⟨mixedOperations, acceptance plainBoundary [capitalPage] [capitalId] mixedOperations,
        false⟩ := by
    have hnone : rejection? plainBoundary [capitalPage] [capitalId] mixedOperations true false =
        none := by decide
    rw [curate, curatorBoundary, hnone]
  refine ⟨_, hcurate, by decide, by decide, ?_⟩
  apply (linksFollow_iff plainBoundary plainAttribution _ _ _ _ hcurate).mpr
  intro e he d hd hunattributed raw hraw hne
  -- the only reference is the full id of the capital
  have hreferences : ∀ claim ∈ mixedOperations.claims, ∀ raw, claim.existingClaimId = some raw →
      raw = capitalId.text := by
    simp [mixedOperations]
  obtain ⟨claim, hclaim, hreference⟩ := Option.bind_eq_some_iff.mp hraw
  obtain rfl := hreferences claim (List.mem_of_getElem? hclaim) raw hreference
  rw [Uuid.Reader.parse_text]
  rfl

/-- **A short reference**: the boundary resolves it, the staging raises, and the support is not
recorded. -/
theorem short_reference_raises : ¬ ∀ (boundary : BoundaryHost) (host : AttributionHost)
    (evidence : List SessionEvidence) (packIds : List Uuid) (first : CuratorProposal)
    (second : Option CuratorProposal) (c : Curated),
    curate boundary evidence packIds first second = some c →
    ∃ claimOrigins linkOrigins, LinksFollow evidence.length c.proposal c.accepted
      (recordedOps boundary.uuids host evidence c.proposal c.accepted) claimOrigins
        linkOrigins := by
  intro h
  obtain ⟨a, hcurate, hdropped, hremoved⟩ := reverifies_curated
  obtain ⟨_, _, haccepted⟩ := curate_accepted hcurate
  have hread := (recordedOps_linksFollow_iff (curatorBoundary_admits haccepted)).mp
    (h plainBoundary plainAttribution [capitalPage] [capitalId] _ _ _ hcurate)
  have hkept : (⟨0, 0, .supports⟩, 0) ∈ keptLinks (reverifies shortReference) a := by
    rw [mem_keptLinks, hdropped, hremoved]
    exact ⟨rfl, by decide, List.not_mem_nil⟩
  have hparse := hread _ hkept ⟨.noValueAttribution, none, .valueAndPrimary⟩ rfl rfl
    shortReference rfl (List.cons_ne_nil _ _)
  exact absurd hparse (by decide)

end Noezema.Cognition
