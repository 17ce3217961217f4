import Noezema.Cognition.ReliedClaims
import Noezema.Memory.Validation

/-! # The curator boundary

A proposal of the curator passes the gates of the host before anything of it is recorded. A
gate rejects the proposal as a whole, drops operations of it or removes links; a claim that
repeats a stored value becomes a reverify of it. A proposal that is rejected goes back once.
-/

namespace Noezema.Cognition

open Noezema.Lib Noezema.Memory

/-! ## Proposals -/

/-- `ClaimDependencyProposal`. -/
structure DependencyProposal where
  claimId : Uuid
  kind : String
deriving DecidableEq

/-- `ClaimProposal`; `asOf` is a moment. -/
structure ClaimProposal where
  statement : Text
  existingClaimId : Option Text
  searchStatements : List Text
  claimType : String
  claimScope : Scope
  asOf : Option Int
  dependencies : List DependencyProposal

/-- `EvidenceLink`. -/
structure ProposedLink where
  evidenceIndex : Nat
  claimIndex : Nat
  relation : EvidenceRelation
deriving DecidableEq

structure QuestionProposal where
  text : Text
  origin : String
deriving DecidableEq

structure CuratorProposal where
  summary : Text
  claims : List ClaimProposal
  evidenceLinks : List ProposedLink
  newQuestions : List QuestionProposal
  reliedClaimIds : List Text

/-- A row of `ctx.evidence`, with the page text that the session keeps for it. -/
structure SessionEvidence extends EvidenceRecord where
  sourceId : Text
  url : Text
  assertionText : Text
  pageText : Option Text

/-! ## Structural problems -/

inductive StructuralProblem where
  | evidenceIndex (link index : Nat)
  | claimIndex (link index : Nat)
  | searchEmpty (claim alternative : Nat)
  | searchLong (claim alternative : Nat)
  | duplicateDependency (claim dependency : Nat) (target : Uuid)
  | newQuestions (count limit : Nat)
deriving DecidableEq

/-- The operation that a line names; the other lines are about the proposal as a whole. -/
def StructuralProblem.operation? : StructuralProblem → Option Nat
  | .searchEmpty claim _ => some claim
  | .searchLong claim _ => some claim
  | _ => none

def linkProblems (evidenceCount claimCount k : Nat) (link : ProposedLink) :
    List StructuralProblem :=
  (if evidenceCount ≤ link.evidenceIndex then [.evidenceIndex k link.evidenceIndex] else []) ++
    (if claimCount ≤ link.claimIndex then [.claimIndex k link.claimIndex] else [])

def searchProblems (i : Nat) (claim : ClaimProposal) : List StructuralProblem :=
  claim.searchStatements.zipIdx.filterMap fun e =>
    if strip e.1 = [] then some (.searchEmpty i e.2)
    else if 300 < e.1.length then some (.searchLong i e.2)
    else none

def duplicateDependencies (i : Nat) (claim : ClaimProposal) : List StructuralProblem :=
  claim.dependencies.zipIdx.filterMap fun e =>
    if e.1 ∈ claim.dependencies.take e.2 then some (.duplicateDependency i e.2 e.1.claimId)
    else none

/-- `structural_problems`. -/
def CuratorProposal.structuralProblems (p : CuratorProposal) (evidenceCount questionsMax : Nat) :
    List StructuralProblem :=
  (p.evidenceLinks.zipIdx.flatMap fun e => linkProblems evidenceCount p.claims.length e.2 e.1) ++
    (p.claims.zipIdx.flatMap fun e => searchProblems e.2 e.1 ++ duplicateDependencies e.2 e.1) ++
    (if questionsMax < p.newQuestions.length then
      [.newQuestions p.newQuestions.length questionsMax] else [])

/-- `split_structural_problems`: the lines about the proposal as a whole. -/
def wholeProblems (problems : List StructuralProblem) : List StructuralProblem :=
  problems.filter fun q => q.operation?.isNone

/-! ## Dropped operations -/

inductive DropReason where
  | search (problem : StructuralProblem)
  | reference (problem : ReferenceProblem)
  | noHead (target : Uuid)
  | noClaimValue
  | period (reason : Text)
  | requiresAsOf
  | rules (problem : ProposalProblem)
deriving DecidableEq

/-- `dropped`: the operations with the reasons, in the order of the gates. -/
abbrev Dropped := List (Nat × DropReason)

namespace Dropped

def has (d : Dropped) (i : Nat) : Bool := (d.lookup i).isSome

/-- The first reason of an operation stays. -/
def add (d : Dropped) (e : Nat × DropReason) : Dropped := if d.has e.1 then d else d ++ [e]

def addAll (d : Dropped) (es : List (Nat × DropReason)) : Dropped := es.foldl add d

/-- A gate dropped operations, and none of the `count` operations is left. -/
def exhausts (before after : Dropped) (count : Nat) : Bool :=
  before.length < after.length ∧ after.length = count

end Dropped

/-! ## What the gates ask -/

/-- The stored claim that an operation reverifies. -/
structure Anchor where
  claimType : String
  statement : Text
deriving DecidableEq

inductive LinkValueGate where
  | unchecked | present | absent
deriving DecidableEq, Repr

/-- What the gate of the duplicates reads of an operation. -/
structure ValueDuplicateClaim where
  index : Nat
  claim : ClaimProposal
  hasSupportLink : Bool
  hasCounterLink : Bool

/-- What the gate of the periods reads: the texts of the links it checks, the operations
dropped before, and the statements of the anchors. -/
structure PeriodGateInput where
  claims : List ClaimProposal
  textsByLink : List (Nat × ProposedLink × List Text)
  alreadyDropped : List Nat
  statementOverrides : Nat → Option Text

/-- `PeriodGateDecision`: reasons by operation and by link. -/
structure PeriodGateDecision where
  claimRejections : Nat → Option Text
  linkRejections : Nat → Option Text

/-- The rest of the host, as the boundary asks it: ids, the claims with a head in the
session's snapshot, and the gates that read texts. -/
structure BoundaryHost where
  uuids : Uuid.Reader
  anchor : Uuid → Option Anchor
  emptyProposalDefect : CuratorProposal → Bool
  linkValueGate : Text → Option Text × Option Text → LinkValueGate
  valueDuplicates : List ValueDuplicateClaim → List Uuid → Nat → Option (Uuid × Anchor)
  claimPeriodRejections : PeriodGateInput → PeriodGateDecision
  parseDay : String → Option Int
  parseTime : String → Option Int
  rules : ClaimTypeRules
  questionsMax : Nat
  curatorRecordGates : Bool

/-! ## The gates -/

section Gates

variable (host : BoundaryHost) (evidence : List SessionEvidence) (packIds : List Uuid)
  (p : CuratorProposal)

/-- The first gate: lines about search statements drop their operation. -/
def searchDropped : Dropped :=
  Dropped.addAll [] ((p.structuralProblems evidence.length host.questionsMax).filterMap fun q =>
    q.operation?.map fun i => (i, .search q))

/-- A reverify reference is resolved over the pack, and its claim must have a head in the
snapshot of the session. -/
def reverifyAnchor (raw : Text) : Except DropReason Anchor :=
  match resolveId host.uuids raw packIds with
  | .error problem => .error (.reference problem)
  | .ok target =>
    match host.anchor target with
    | none => .error (.noHead target)
    | some anchor => .ok anchor

def reverifyDropped : Dropped :=
  (searchDropped host evidence p).addAll (p.claims.zipIdx.filterMap fun e =>
    e.1.existingClaimId.bind fun raw =>
      match reverifyAnchor host packIds raw with
      | .error reason => some (e.2, reason)
      | .ok _ => none)

/-- The anchor of an operation that the first gates left. -/
def anchorOf (i : Nat) : Option Anchor :=
  if (searchDropped host evidence p).has i then none
  else (p.claims[i]?.bind (·.existingClaimId)).bind fun raw =>
    (reverifyAnchor host packIds raw).toOption

/-- The relied claims of the proposal. -/
def reliedOf : Collected := reliedFromProposal host.uuids p.reliedClaimIds packIds

/-- `link_value_texts`: fragment and page of a link to a source assertion. -/
def linkValueTexts (link : ProposedLink) : Option (Option Text × Option Text) :=
  evidence[link.evidenceIndex]?.bind fun e =>
    if e.kind = "source_assertion" then
      some (if e.assertionText = [] then none else some e.assertionText, e.pageText)
    else none

/-- The statement whose value is looked for: for a reverify that of its anchor. -/
def gateStatement (i : Nat) (claim : ClaimProposal) : Text :=
  let own := strip claim.statement
  if claim.existingClaimId.isSome then
    match (anchorOf host evidence packIds p i).map fun a => strip a.statement with
    | some target => if target = [] then own else target
    | none => own
  else own

/-- `links_without_claim_value`: the links whose texts lack the value of their claim. -/
def linksWithoutClaimValue (dropped : Dropped) : List Nat :=
  p.evidenceLinks.zipIdx.filterMap fun e =>
    if e.1.relation = .supports ∧ ¬ dropped.has e.1.claimIndex then
      match p.claims[e.1.claimIndex]?, linkValueTexts evidence e.1 with
      | some claim, some texts =>
        if host.linkValueGate (gateStatement host evidence packIds p e.1.claimIndex claim) texts =
          .absent then some e.2 else none
      | _, _ => none
    else none

/-- The operations that the removed links leave without any link. -/
def unlinkedClaims (removed : List Nat) : List Nat :=
  (List.range p.claims.length).filter fun i =>
    (p.evidenceLinks.zipIdx.any fun e => e.2 ∈ removed ∧ e.1.claimIndex = i) ∧
      ¬ p.evidenceLinks.zipIdx.any fun e => e.2 ∉ removed ∧ e.1.claimIndex = i

def valueRemoved : List Nat :=
  linksWithoutClaimValue host evidence packIds p (reverifyDropped host evidence packIds p)

def valueDropped : Dropped :=
  (reverifyDropped host evidence packIds p).addAll
    ((unlinkedClaims p (valueRemoved host evidence packIds p)).map fun i => (i, .noClaimValue))

/-- The operations that the gate of the duplicates reads. -/
def valueDuplicateClaims : List ValueDuplicateClaim :=
  let relations (i : Nat) : List EvidenceRelation := p.evidenceLinks.zipIdx.filterMap fun e =>
    if e.1.claimIndex = i ∧ e.2 ∉ valueRemoved host evidence packIds p then some e.1.relation
    else none
  p.claims.zipIdx.filterMap fun e =>
    if e.1.existingClaimId = none ∧ ¬ (valueDropped host evidence packIds p).has e.2 then
      some ⟨e.2, e.1, .supports ∈ relations e.2, .counters ∈ relations e.2⟩
    else none

/-- The stored claim whose reverify an operation becomes. -/
def conversion (i : Nat) : Option (Uuid × Anchor) :=
  let inputs := valueDuplicateClaims host evidence packIds p
  if inputs.any fun c => c.index = i then
    host.valueDuplicates inputs (reliedOf host packIds p).added i
  else none

/-- `staged_claims`: the claims of the proposal, the converted ones with their new target. -/
def stagedClaims : List ClaimProposal :=
  p.claims.zipIdx.map fun e =>
    match conversion host evidence packIds p e.2 with
    | some (target, _) => { e.1 with existingClaimId := some target.text }
    | none => e.1

def periodGateInput : PeriodGateInput where
  claims := stagedClaims host evidence packIds p
  textsByLink := p.evidenceLinks.zipIdx.filterMap fun e =>
    if e.2 ∉ valueRemoved host evidence packIds p ∧ e.1.relation = .supports then
      (linkValueTexts evidence e.1).map fun texts =>
        (e.2, e.1, (texts.1.toList ++ texts.2.toList).filter (· ≠ []))
    else none
  alreadyDropped := (valueDropped host evidence packIds p).map (·.1)
  statementOverrides := fun i =>
    match conversion host evidence packIds p i with
    | some (_, anchor) => some anchor.statement
    | none => (anchorOf host evidence packIds p i).map (·.statement)

/-- The gate of the periods, when the configuration turns it on. -/
def periodDecision : PeriodGateDecision :=
  if host.curatorRecordGates then
    host.claimPeriodRejections (periodGateInput host evidence packIds p)
  else ⟨fun _ => none, fun _ => none⟩

def periodDropped : Dropped :=
  (valueDropped host evidence packIds p).addAll ((List.range p.claims.length).filterMap fun i =>
    ((periodDecision host evidence packIds p).claimRejections i).map fun r => (i, .period r))

/-- The removed links; those of an operation that the gate drops go with it. -/
def removedLinks : List Nat :=
  valueRemoved host evidence packIds p ++ p.evidenceLinks.zipIdx.filterMap fun e =>
    let decision := periodDecision host evidence packIds p
    if (decision.linkRejections e.2).isSome ∧ decision.claimRejections e.1.claimIndex = none then
      some e.2
    else none

/-- `temporal_as_of_problems`: a new temporal fact needs a date. -/
def asOfDropped : Dropped :=
  (periodDropped host evidence packIds p).addAll
    ((stagedClaims host evidence packIds p).zipIdx.filterMap fun e =>
      if e.1.claimType = "temporal_fact" ∧ e.1.asOf = none ∧ e.1.existingClaimId = none then
        some (e.2, .requiresAsOf)
      else none)

/-- `claims_for_validation`: a reverify is validated under the type of its anchor. -/
def claimsForValidation : List ClaimPayload :=
  p.claims.zipIdx.map fun e =>
    { claimType :=
        match conversion host evidence packIds p e.2 with
        | some (_, anchor) => anchor.claimType
        | none => ((anchorOf host evidence packIds p e.2).map (·.claimType)).getD e.1.claimType
      claimScope := e.1.claimScope
      hasAsOf := e.1.asOf.isSome }

def ruleProblems : List ProposalProblem :=
  let links := p.evidenceLinks.zipIdx.filterMap fun e =>
    if e.2 ∈ removedLinks host evidence packIds p then none
    else some ⟨e.1.evidenceIndex, e.1.claimIndex, e.1.relation⟩
  validateClaimProposal host.parseDay host.parseTime host.rules
    (claimsForValidation host evidence packIds p) links (evidence.map (·.toEvidenceRecord))

/-- `rules_problems_by_operation`: the operation that a line of the rules names. -/
def ruledClaim : ProposalProblem → Nat
  | .unknownClaimType claim _ => claim
  | .rule claim _ _ => claim

def rulesDropped : Dropped :=
  (asOfDropped host evidence packIds p).addAll
    ((ruleProblems host evidence packIds p).map fun q => (ruledClaim q, .rules q))

/-! ## The decision -/

/-- Which gate rejects the proposal as a whole. -/
inductive BoundaryRejected where
  | structural
  | declaredEmpty
  | reverifyUnresolved
  | evidenceValueAbsent
  | claimPeriodNotNearValue
  | requiresAsOf
  | rules
deriving DecidableEq, Repr

structure BoundaryAccepted where
  stagedClaims : List ClaimProposal
  dropped : Dropped
  reliedClaimIds : List Uuid
  reliedClaimsRejected : List ReliedRejection
  removedLinkIndices : List Nat

/-- The first gate that rejects. After a correction round an answer of relied claims alone
is let through by the gates that judge one operation. -/
def rejection? (declaredEmptyCheck reliedOnlyAnswerAllowed : Bool) : Option BoundaryRejected :=
  let count := p.claims.length
  let problems := p.structuralProblems evidence.length host.questionsMax
  let reliedOnly := reliedOnlyAnswerAllowed ∧ (reliedOf host packIds p).added ≠ []
  if wholeProblems problems ≠ [] ∨ Dropped.exhausts [] (searchDropped host evidence p) count then
    some .structural
  else if declaredEmptyCheck ∧ host.emptyProposalDefect p then some .declaredEmpty
  else if (searchDropped host evidence p).exhausts (reverifyDropped host evidence packIds p) count
  then some .reverifyUnresolved
  else if (reverifyDropped host evidence packIds p).exhausts
      (valueDropped host evidence packIds p) count ∧ ¬ reliedOnly then
    some .evidenceValueAbsent
  else if (valueDropped host evidence packIds p).exhausts
      (periodDropped host evidence packIds p) count ∧ ¬ reliedOnly then
    some .claimPeriodNotNearValue
  else if (periodDropped host evidence packIds p).exhausts
      (asOfDropped host evidence packIds p) count then
    some .requiresAsOf
  else if ruleProblems host evidence packIds p ≠ [] ∧ count ≠ 0 ∧
      (rulesDropped host evidence packIds p).length = count then
    some .rules
  else none

/-- What goes on when no gate rejects. -/
def acceptance : BoundaryAccepted where
  stagedClaims := stagedClaims host evidence packIds p
  dropped := rulesDropped host evidence packIds p
  reliedClaimIds := (reliedOf host packIds p).added
  reliedClaimsRejected := (reliedOf host packIds p).rejected
  removedLinkIndices := removedLinks host evidence packIds p

/-- `_curator_boundary`. -/
def curatorBoundary (declaredEmptyCheck reliedOnlyAnswerAllowed : Bool) :
    Except BoundaryRejected BoundaryAccepted :=
  match rejection? host evidence packIds p declaredEmptyCheck reliedOnlyAnswerAllowed with
  | some kind => .error kind
  | none => .ok (acceptance host evidence packIds p)

end Gates

/-! ## The rounds -/

/-- The proposal that the session goes on with; `corrected` after a correction round. -/
structure Curated where
  proposal : CuratorProposal
  accepted : BoundaryAccepted
  corrected : Bool

/-- The rounds of `_curator`: a rejected proposal goes back once. `second` is what comes back,
nothing when the section of the corrections is too long or the call fails. -/
def curate (host : BoundaryHost) (evidence : List SessionEvidence) (packIds : List Uuid)
    (first : CuratorProposal) (second : Option CuratorProposal) : Option Curated :=
  match curatorBoundary host evidence packIds first true false with
  | .ok accepted => some ⟨first, accepted, false⟩
  | .error _ =>
    second.bind fun p =>
      (curatorBoundary host evidence packIds p false true).toOption.map fun accepted =>
        ⟨p, accepted, true⟩

/-! ## What the boundary promises -/

/-- What goes on to the staging: links with valid indices, and claims that are those of the
proposal, a new one perhaps with the id of the stored claim that it repeats. -/
structure Admits (evidenceCount : Nat) (p : CuratorProposal) (a : BoundaryAccepted) : Prop where
  links : ∀ link ∈ p.evidenceLinks,
    link.evidenceIndex < evidenceCount ∧ link.claimIndex < p.claims.length
  claims : List.Forall₂ (fun c s => s = c ∨ c.existingClaimId = none ∧ ∃ target : Uuid,
    s = { c with existingClaimId := some target.text }) p.claims a.stagedClaims

section Promise

variable {host : BoundaryHost} {evidence : List SessionEvidence} {packIds : List Uuid}
  {p : CuratorProposal}

theorem valid_of_whole {evidenceCount questionsMax : Nat}
    (h : wholeProblems (p.structuralProblems evidenceCount questionsMax) = [])
    {link : ProposedLink} (hlink : link ∈ p.evidenceLinks) :
    link.evidenceIndex < evidenceCount ∧ link.claimIndex < p.claims.length := by
  have hnone : ∀ q, q.operation? = none → q ∉ p.structuralProblems evidenceCount questionsMax := by
    intro q hq hmem
    have hwhole : q ∈ wholeProblems (p.structuralProblems evidenceCount questionsMax) :=
      List.mem_filter.mpr ⟨hmem, by rw [hq]; rfl⟩
    rw [h] at hwhole
    exact List.not_mem_nil hwhole
  -- a problem of a link belongs to no operation, so it would reject the whole proposal
  obtain ⟨k, hk⟩ := List.mem_iff_getElem?.mp hlink
  have hproblems : ∀ q ∈ linkProblems evidenceCount p.claims.length k link,
      q ∈ p.structuralProblems evidenceCount questionsMax := by
    intro q hq
    have hentry : (link, k) ∈ p.evidenceLinks.zipIdx := List.mk_mem_zipIdx_iff_getElem?.mpr hk
    exact List.mem_append_left _ (List.mem_append_left _ (List.mem_flatMap.mpr ⟨_, hentry, hq⟩))
  constructor
  · by_contra hevidence
    have hq : .evidenceIndex k link.evidenceIndex ∈
        linkProblems evidenceCount p.claims.length k link := by
      simp [linkProblems, not_lt.mp hevidence]
    exact hnone _ rfl (hproblems _ hq)
  · by_contra hclaim
    have hq : .claimIndex k link.claimIndex ∈
        linkProblems evidenceCount p.claims.length k link := by
      simp [linkProblems, not_lt.mp hclaim]
    exact hnone _ rfl (hproblems _ hq)

/-- Only a new claim is converted. -/
theorem conversion_new {i : Nat} {target : Uuid} {anchor : Anchor} {c : ClaimProposal}
    (h : conversion host evidence packIds p i = some (target, anchor))
    (hc : p.claims[i]? = some c) : c.existingClaimId = none := by
  unfold conversion at h
  dsimp only at h
  split at h
  · rename_i hinput
    obtain ⟨input, hmem, hindex⟩ := List.any_eq_true.mp hinput
    obtain ⟨⟨c', j⟩, hentry, hsome⟩ := List.mem_filterMap.mp hmem
    dsimp only at hsome
    split at hsome
    · rename_i hnew
      obtain rfl := Option.some.inj hsome
      obtain rfl : j = i := by simpa using hindex
      have hc' := List.mk_mem_zipIdx_iff_getElem?.mp hentry
      rw [hc] at hc'
      obtain rfl := Option.some.inj hc'
      exact hnew.1
    · cases hsome
  · cases h

theorem curatorBoundary_admits {declaredEmptyCheck reliedOnlyAnswerAllowed : Bool}
    {a : BoundaryAccepted} (h : curatorBoundary host evidence packIds p declaredEmptyCheck
      reliedOnlyAnswerAllowed = .ok a) : Admits evidence.length p a := by
  unfold curatorBoundary at h
  split at h
  · cases h
  · rename_i hrejection
    cases h
    constructor
    · have hwhole : wholeProblems
          (p.structuralProblems evidence.length host.questionsMax) = [] := by
        unfold rejection? at hrejection
        dsimp only at hrejection
        split at hrejection
        · cases hrejection
        · rename_i hstructural
          by_contra hwhole
          exact hstructural (.inl hwhole)
      exact fun link hlink => valid_of_whole hwhole hlink
    · rw [List.forall₂_iff_get]
      constructor
      · simp [acceptance, stagedClaims]
      · intro i hi hi'
        have hc : p.claims[i]? = some (p.claims.get ⟨i, hi⟩) := by simp
        simp only [acceptance, stagedClaims, List.get_eq_getElem, List.getElem_map,
          List.getElem_zipIdx, Nat.zero_add]
        cases hconversion : conversion host evidence packIds p i with
        | none => exact .inl rfl
        | some converted => exact .inr ⟨conversion_new hconversion hc, converted.1, rfl⟩

/-- The session goes on with a proposal that the boundary accepted. -/
theorem curate_accepted {first : CuratorProposal} {second : Option CuratorProposal} {c : Curated}
    (h : curate host evidence packIds first second = some c) :
    ∃ declaredEmptyCheck reliedOnlyAnswerAllowed, curatorBoundary host evidence packIds
      c.proposal declaredEmptyCheck reliedOnlyAnswerAllowed = .ok c.accepted := by
  unfold curate at h
  split at h
  · rename_i accepted hfirst
    obtain rfl := Option.some.inj h
    exact ⟨true, false, hfirst⟩
  · obtain ⟨q, -, hq⟩ := Option.bind_eq_some_iff.mp h
    obtain ⟨accepted, haccepted, rfl⟩ := Option.map_eq_some_iff.mp hq
    refine ⟨false, true, ?_⟩
    cases hsecond : curatorBoundary host evidence packIds q false true with
    | error kind =>
      rw [hsecond] at haccepted
      cases haccepted
    | ok b =>
      rw [hsecond] at haccepted
      cases haccepted
      rfl

end Promise

end Noezema.Cognition
