import Noezema.Lib.Entries
import Noezema.Memory.Counterevidence

/-! # The validation before a commit

`validate_claim_proposal` runs the rules engine over the claims of a proposal before any of
their operations is recorded. It sees the links of the proposal; the commit assesses a claim
over all its evidence. A claim that is already stored brings rows whose kinds were admitted
under the rules of their time.
-/

namespace Noezema.Memory

open Noezema.Lib

/-! ## The validator -/

/-- What the validator reads of a claim of the proposal. -/
structure ClaimPayload where
  claimType : String
  claimScope : Scope
  hasAsOf : Bool

/-- A link of the proposal. -/
structure LinkPayload where
  evidenceIndex : Int
  claimIndex : Int
  relation : EvidenceRelation

/-- What the validator reads of an evidence record of the session. -/
structure EvidenceRecord where
  identityHash : String
  kind : String

/-- An entry of the rejection. -/
inductive ProposalProblem where
  | unknownClaimType (claim : Nat) (claimType : String)
  | rule (claim : Nat) (claimType : String) (error : RuleValidationError)
deriving DecidableEq, Repr

/-- The record of an index that is in range. -/
def recordAt (records : List EvidenceRecord) (index : Int) : Option EvidenceRecord :=
  if index < 0 then none else records[index.toNat]?

/-- `evs`: the evidence that the proposal links to its claim at `i`. -/
def proposedEvidence (links : List LinkPayload) (records : List EvidenceRecord) (i : Nat)
    (claimScope : Scope) : List EvaluatedEvidence :=
  links.filterMap fun link =>
    if link.claimIndex = (i : Int) then
      (recordAt records link.evidenceIndex).map fun r =>
        ⟨r.identityHash, r.kind, link.relation, claimScope, "unknown", .none, false⟩
    else none

section Validate

variable (parseDay parseTime : String → Option Int) (rules : ClaimTypeRules)

/-- One round of the validator. -/
def validateClaim (links : List LinkPayload) (records : List EvidenceRecord) (i : Nat)
    (p : ClaimPayload) : Option ProposalProblem :=
  match rules p.claimType with
  | none => some (.unknownClaimType i p.claimType)
  | some rule =>
    match evaluate parseDay parseTime p.claimType rule p.claimScope
        (proposedEvidence links records i p.claimScope) p.hasAsOf with
    | .error e => some (.rule i p.claimType e)
    | .ok _ => none

/-- `validate_claim_proposal`. -/
def validateClaimProposal (claims : List ClaimPayload) (links : List LinkPayload)
    (records : List EvidenceRecord) : List ProposalProblem :=
  claims.zipIdx.filterMap fun p => validateClaim parseDay parseTime rules links records p.2 p.1

end Validate

/-! ## When an assessment is refused -/

/-- The rules know the type and admit every kind of the support. -/
def ClaimTypeRules.Admit (rules : ClaimTypeRules) (claimType : String) (kinds : List String) :
    Prop :=
  ∃ rule, rules claimType = some rule ∧ ∀ k ∈ kinds, k ∈ rule.allowedKinds

theorem evaluate_ok_iff {parseDay parseTime : String → Option Int} {claimType : String}
    {rule : ClaimTypeRule} {claimScope : Scope} {evs : List EvaluatedEvidence} {hasAsOf : Bool} :
    (∃ r, evaluate parseDay parseTime claimType rule claimScope evs hasAsOf = .ok r) ↔
      ∀ e ∈ supportOf evs, e.kind ∈ rule.allowedKinds := by
  constructor
  · rintro ⟨r, h⟩ e he
    simp only [evaluate] at h
    split at h
    · cases h
    · rename_i hnone
      simpa using List.find?_eq_none.mp hnone e he
  · exact evaluate_of_allowed claimType claimScope hasAsOf

theorem assess_ok_iff {parseDay parseTime : String → Option Int} {rd : Readers}
    {rules : ClaimTypeRules} {db : AssessmentDb} {claim : Claim} {claimScope : Scope} :
    (∃ p, assess parseDay parseTime rd rules db claim claimScope = .ok p) ↔
      rules.Admit claim.claimType ((db.supportRows claim.id).map (·.kind)) := by
  constructor
  · rintro ⟨p, h⟩
    obtain ⟨rule, hrule, h⟩ := bind_eq_ok.mp h
    obtain ⟨r, hr, -⟩ := bind_eq_ok.mp h
    have hsome : rules claim.claimType = some rule := by
      unfold ClaimTypeRules.rule at hrule
      split at hrule
      · rename_i found
        cases hrule
        exact found
      · cases hrule
    refine ⟨rule, hsome, fun k hk => ?_⟩
    obtain ⟨e, he, rfl⟩ := List.mem_map.mp hk
    obtain ⟨hact, hrel⟩ := EvidenceDb.mem_supportRows.mp he
    refine evaluate_ok_iff.mp ⟨r, hr⟩ (db.evaluatedEvidence rd claim.id e) ?_
    exact List.mem_filter.mpr ⟨List.mem_map_of_mem
      (EvidenceDb.mem_claimEvidenceForAssessment.mpr hact), decide_eq_true hrel⟩
  · rintro ⟨rule, hrule, hkinds⟩
    obtain ⟨r, db', h⟩ := @assess_of_allowed parseDay parseTime rd rules db claim claimScope
      rule hrule fun e he => hkinds e.kind (List.mem_map_of_mem he)
    exact ⟨(r, db'), h⟩

/-- **What the validator accepts**: each claim's type is known, and the support that the
proposal links to it is of admitted kinds. -/
theorem validateClaimProposal_nil {parseDay parseTime : String → Option Int}
    {rules : ClaimTypeRules} {claims : List ClaimPayload} {links : List LinkPayload}
    {records : List EvidenceRecord}
    (h : validateClaimProposal parseDay parseTime rules claims links records = []) {i : Nat}
    {p : ClaimPayload} (hp : claims[i]? = some p) :
    rules.Admit p.claimType
      ((supportOf (proposedEvidence links records i p.claimScope)).map (·.kind)) := by
  have hmem : (p, i) ∈ claims.zipIdx := List.mk_mem_zipIdx_iff_getElem?.mpr hp
  have hnone := List.filterMap_eq_nil_iff.mp h _ hmem
  unfold validateClaim at hnone
  split at hnone
  · cases hnone
  · rename_i rule hrule
    split at hnone
    · cases hnone
    · rename_i r hr
      refine ⟨rule, hrule, fun k hk => ?_⟩
      obtain ⟨e, he, rfl⟩ := List.mem_map.mp hk
      exact evaluate_ok_iff.mp ⟨r, hr⟩ e he

/-! ## When the assessments of a commit go through -/

/-- The rules admit the support that the claim has in force. -/
def MemoryDb.Admits (rules : ClaimTypeRules) (db : MemoryDb) (c : ClaimId) : Prop :=
  ∀ claim, db.claim? c = some claim →
    rules.Admit claim.claimType ((db.tables.supportRows c).map (·.kind))

section Assessments

variable {host : Host} {rules : ClaimTypeRules} {pin : SnapshotId}

theorem assessHead_cases {scope : Scope} {c : ClaimId} {db : MemoryDb}
    (hrow : (db.claim? c).isSome) :
    (db.Admits rules c ∧ ∃ db', assessHead host rules pin scope c db = .ok db') ∨
      (¬ db.Admits rules c ∧ ∃ e, assessHead host rules pin scope c db = .error (.rule e)) := by
  obtain ⟨claim, hclaim⟩ := Option.isSome_iff_exists.mp hrow
  obtain rfl := MemoryDb.claim?_id hclaim
  have hadmits : db.Admits rules claim.id ↔
      rules.Admit claim.claimType ((db.tables.supportRows claim.id).map (·.kind)) := by
    constructor
    · intro h
      exact h claim hclaim
    · intro h claim' hclaim'
      rwa [← Option.some.inj (hclaim.symm.trans hclaim')]
  have hok := @assess_ok_iff host.parseDay host.parseTime host.readers rules db.tables claim scope
  rw [← hadmits] at hok
  simp only [assessHead, hclaim]
  cases h : assess host.parseDay host.parseTime host.readers rules db.tables claim scope with
  | ok p => exact .inl ⟨hok.mp ⟨p, h⟩, _, rfl⟩
  | error e =>
    refine .inr ⟨fun hadm => ?_, e, rfl⟩
    obtain ⟨p, hp⟩ := hok.mpr hadm
    rw [h] at hp
    cases hp

theorem Assesses.admits_iff {claims : ClaimId → Prop} {db db' : MemoryDb}
    (h : Assesses claims pin db db') (c : ClaimId) :
    db'.Admits rules c ↔ db.Admits rules c := by
  unfold MemoryDb.Admits
  rw [MemoryDb.claim?, h.rows, h.evidence, MemoryDb.claim?]

/-- **The assessment loop** ends in an error of the rules exactly when some claim has
support that is not admitted. -/
theorem assessClaims_cases {scope : ClaimId → Scope} {ids : List (Option ClaimId)}
    {seen : List ClaimId} {db : MemoryDb} (hrows : ∀ c, some c ∈ ids → (db.claim? c).isSome) :
    ((∀ c, some c ∈ ids → c ∉ seen → db.Admits rules c) ∧
      ∃ p, assessClaims host rules pin scope ids seen db = .ok p) ∨
    ((∃ c, some c ∈ ids ∧ ¬ db.Admits rules c) ∧
      ∃ e, assessClaims host rules pin scope ids seen db = .error (.rule e)) := by
  induction ids generalizing seen db with
  | nil => exact .inl ⟨fun c hc => absurd hc List.not_mem_nil, _, rfl⟩
  | cons o rest ih =>
    have hrest : ∀ c, some c ∈ rest → (db.claim? c).isSome :=
      fun c hc => hrows c (List.mem_cons_of_mem _ hc)
    cases o with
    | none =>
      unfold assessClaims
      simpa using @ih seen db hrest
    | some c =>
      unfold assessClaims
      by_cases hseen : c ∈ seen
      · rw [if_pos hseen]
        rcases @ih seen db hrest with ⟨hall, hok⟩ | ⟨⟨x, hx, hbad⟩, herr⟩
        · refine .inl ⟨fun x hx hnew => ?_, hok⟩
          rcases List.mem_cons.mp hx with heq | hx
          · obtain rfl := Option.some.inj heq
            exact absurd hseen hnew
          · exact hall x hx hnew
        · exact .inr ⟨⟨x, List.mem_cons_of_mem _ hx, hbad⟩, herr⟩
      · rw [if_neg hseen]
        rcases @assessHead_cases host rules pin (scope c) c db (hrows c List.mem_cons_self) with
          ⟨hadm, db', hdb'⟩ | ⟨hbad, e, he⟩
        · have hassesses := assessHead_assesses hdb'
          have hrows' : ∀ x, some x ∈ rest → (db'.claim? x).isSome := by
            intro x hx
            rw [MemoryDb.claim?, hassesses.rows]
            exact hrest x hx
          rw [hdb', ok_bind]
          rcases @ih (c :: seen) db' hrows' with ⟨hall, hok⟩ | ⟨⟨x, hx, hbad⟩, herr⟩
          · refine .inl ⟨fun x hx hnew => ?_, hok⟩
            by_cases hxc : x = c
            · rwa [hxc]
            · have hrest : some x ∈ rest := by
                rcases List.mem_cons.mp hx with heq | hx
                · exact absurd (Option.some.inj heq) hxc
                · exact hx
              rw [← hassesses.admits_iff x]
              exact hall x hrest (by simp [hxc, hnew])
          · rw [hassesses.admits_iff x] at hbad
            exact .inr ⟨⟨x, List.mem_cons_of_mem _ hx, hbad⟩, herr⟩
        · exact .inr ⟨⟨c, List.mem_cons_self, hbad⟩, e, by rw [he, error_bind]⟩

end Assessments

/-! ## The evidence section -/

/-- The source of a link's row is registered. -/
def EvidenceLink.Sourced (link : EvidenceLink) (db : EvidenceDb) : Prop :=
  ∀ e, link.evidence = some e → ∀ s, e.sourceId = some s → s ∈ db.sources.map (·.id)

theorem applyLink_sourced {ids : List (Option ClaimId)} {t : AssessmentDb} {link : EvidenceLink}
    (h : link.Sourced t.toEvidenceDb) :
    ∃ u, applyLink ids t link = .ok u ∧ u.sources = t.sources := by
  unfold applyLink
  split
  · rename_i e c he hc
    dsimp only
    split
    · exact ⟨t, rfl, rfl⟩
    · split
      · exact ⟨t, rfl, rfl⟩
      · have hsources : ∀ s ∈ (e.rowFor t.evidence.length c).sourceId,
            s ∈ t.sources.map (·.id) := by
          intro s hs
          unfold Evidence.rowFor at hs
          by_cases hread : e.isAssertion
          · exact h e he s (by simpa [hread] using hs)
          · simp [hread] at hs
        rw [dif_pos hsources]
        exact ⟨_, rfl, rfl⟩
  · exact ⟨t, rfl, rfl⟩

/-- **The evidence section** goes through where the sources are registered. -/
theorem applyLinks_sourced {ids : List (Option ClaimId)} {links : List EvidenceLink}
    {t : AssessmentDb} (h : ∀ link ∈ links, link.Sourced t.toEvidenceDb) :
    ∃ u, links.foldlM (applyLink ids) t = .ok u := by
  induction links generalizing t with
  | nil => exact ⟨t, rfl⟩
  | cons link rest ih =>
    obtain ⟨v, hv, hsources⟩ := @applyLink_sourced ids t link (h link List.mem_cons_self)
    have hrest : ∀ l ∈ rest, l.Sourced v.toEvidenceDb := by
      intro l hl e he s hs
      rw [hsources]
      exact h l (List.mem_cons_of_mem _ hl) e he s hs
    obtain ⟨u, hu⟩ := ih hrest
    exact ⟨u, by rw [List.foldlM_cons, hv, ok_bind, hu]⟩

/-- The row is made from a link of the commit. -/
def MadeBy (ids : List (Option ClaimId)) (links : List EvidenceLink) (row : Evidence) : Prop :=
  ∃ link ∈ links, ∃ e, link.evidence = some e ∧ link.claim ids = some row.claimId ∧
    row.kind = e.kind ∧ row.relation = e.relation

/-- **The rows after the links**: those before, and rows made from links. -/
theorem applyLinks_rows {ids : List (Option ClaimId)} {links : List EvidenceLink}
    {t u : AssessmentDb} (h : links.foldlM (applyLink ids) t = .ok u) :
    u.revocations = t.revocations ∧ (∀ row ∈ t.evidence, row ∈ u.evidence) ∧
      ∀ row ∈ u.evidence, row ∈ t.evidence ∨ MadeBy ids links row := by
  induction links generalizing t with
  | nil =>
    cases h
    exact ⟨rfl, fun _ hr => hr, fun _ hr => .inl hr⟩
  | cons link rest ih =>
    obtain ⟨v, hv, hrest⟩ := bind_eq_ok.mp h
    obtain ⟨hrevocations, hkept, hrows⟩ := ih hrest
    have hlater : ∀ row, MadeBy ids rest row → MadeBy ids (link :: rest) row := by
      rintro row ⟨l, hl, hmade⟩
      exact ⟨l, List.mem_cons_of_mem _ hl, hmade⟩
    rcases applyLink_ok hv with ⟨rfl, -⟩ | ⟨e, c, he, hc, -, -, hs, rfl⟩
    · exact ⟨hrevocations, hkept, fun row hr => (hrows row hr).imp_right (hlater row)⟩
    · refine ⟨hrevocations, fun row hr => hkept row ?_, fun row hr => ?_⟩
      · exact List.mem_append_left _ hr
      · rcases hrows row hr with hin | hmade
        · rcases List.mem_append.mp hin with hold | hnew
          · exact .inl hold
          · rw [List.mem_singleton.mp hnew]
            exact .inr ⟨link, List.mem_cons_self, e, he, hc, rfl, rfl⟩
        · exact .inr (hlater row hmade)

/-- The support of a claim after the links: what it had, and support made from links. -/
theorem applyLinks_support {ids : List (Option ClaimId)} {links : List EvidenceLink}
    {t u : AssessmentDb} (h : links.foldlM (applyLink ids) t = .ok u) (c : ClaimId) :
    (∀ row ∈ t.supportRows c, row ∈ u.supportRows c) ∧
      ∀ row ∈ u.supportRows c, row ∈ t.supportRows c ∨
        (row.claimId = c ∧ row.relation = .supports ∧ MadeBy ids links row) := by
  obtain ⟨hrevocations, hkept, hrows⟩ := applyLinks_rows h
  have hrevoked : ∀ i, u.revoked i = t.revoked i := by
    intro i
    rw [EvidenceDb.revoked, hrevocations, EvidenceDb.revoked]
  refine ⟨fun row hr => ?_, fun row hr => ?_⟩
  · obtain ⟨hact, hrel⟩ := EvidenceDb.mem_supportRows.mp hr
    obtain ⟨hin, hc, hrev⟩ := EvidenceDb.mem_activeEvidence.mp hact
    refine EvidenceDb.mem_supportRows.mpr ⟨EvidenceDb.mem_activeEvidence.mpr ?_, hrel⟩
    exact ⟨hkept row hin, hc, by rw [hrevoked, hrev]⟩
  · obtain ⟨hact, hrel⟩ := EvidenceDb.mem_supportRows.mp hr
    obtain ⟨hin, hc, hrev⟩ := EvidenceDb.mem_activeEvidence.mp hact
    rw [hrevoked] at hrev
    rcases hrows row hin with hold | hmade
    · exact .inl (EvidenceDb.mem_supportRows.mpr
        ⟨EvidenceDb.mem_activeEvidence.mpr ⟨hold, hc, hrev⟩, hrel⟩)
    · exact .inr ⟨hc, hrel, hmade⟩

/-! ## The claim loop -/

/-- The type of a claim's row. -/
def typeOf? (claims : List Claim) (c : ClaimId) : Option String :=
  (claims.find? fun r => r.id = c).map (·.claimType)

/-- Writes to other columns keep the types. -/
theorem typeOf?_map {f : Claim → Claim} (hid : ∀ r, (f r).id = r.id)
    (htype : ∀ r, (f r).claimType = r.claimType) (claims : List Claim) (c : ClaimId) :
    typeOf? (claims.map f) c = typeOf? claims c := by
  unfold typeOf?
  rw [List.find?_map, Option.map_map]
  have hpred : ((fun r : Claim => decide (r.id = c)) ∘ f) = fun r => decide (r.id = c) := by
    funext r
    simp [hid]
  rw [hpred]
  exact congrArg (fun g => Option.map g _) (funext htype)

namespace StagedOp

/-- A row keeps its type. -/
theorem writeClaim_typeOf? {claims : List Claim} (o : StagedOp) {c : ClaimId} {t : String}
    (h : typeOf? claims c = some t) : typeOf? (o.writeClaim claims) c = some t := by
  have hmap : ∀ x : ClaimId, typeOf? (claims.map fun r => if r.id = x then
      { r with hasAsOf := o.proposed.hasAsOf } else r) c = typeOf? claims c := by
    intro x
    apply typeOf?_map
    · intro r
      split <;> rfl
    · intro r
      split <;> rfl
  obtain ⟨p, result⟩ := o
  cases result with
  | error problem => exact h
  | ok staged =>
    cases staged with
    | created =>
      unfold typeOf? at h ⊢
      obtain ⟨r, hr, ht⟩ := Option.map_eq_some_iff.mp h
      rw [writeClaim, List.find?_append, hr]
      exact congrArg some ht
    | reused x => exact (hmap x).trans h
    | reverified x => exact (hmap x).trans h

theorem foldl_writeClaim_typeOf? {staged : List StagedOp} {claims : List Claim} {c : ClaimId}
    {t : String} (h : typeOf? claims c = some t) :
    typeOf? (staged.foldl writeClaim claims) c = some t := by
  induction staged generalizing claims with
  | nil => exact h
  | cons o rest ih => exact ih (o.writeClaim_typeOf? h)

/-- A claim that the loop inserts has the type of its operation. -/
theorem foldl_writeClaim_created {staged : List StagedOp} {claims : List Claim} {o : StagedOp}
    (ho : o ∈ staged) (hcreated : o.result = .ok .created)
    (hnodup : (staged.map (·.proposed.newId)).Nodup)
    (hfresh : ∀ o ∈ staged, o.proposed.newId ∉ claims.map (·.id)) :
    typeOf? (staged.foldl writeClaim claims) o.proposed.newId =
      some o.proposed.op.claimType := by
  induction staged generalizing claims with
  | nil => cases ho
  | cons first rest ih =>
    have hid := hfresh first List.mem_cons_self
    obtain ⟨hnew, hnodup⟩ := List.nodup_cons.mp hnodup
    rcases List.mem_cons.mp ho with rfl | ho
    · have hnone : claims.find? (fun r => r.id = o.proposed.newId) = none := by
        rw [List.find?_eq_none]
        intro r hr hrid
        exact hid (List.mem_map.mpr ⟨r, hr, of_decide_eq_true hrid⟩)
      have hinserted : typeOf? (o.writeClaim claims) o.proposed.newId =
          some o.proposed.op.claimType := by
        simp [typeOf?, writeClaim, hcreated, List.find?_append, hnone]
      rw [List.foldl_cons]
      exact foldl_writeClaim_typeOf? hinserted
    · refine ih ho hnodup fun o' ho' => ?_
      rw [writeClaim_ids, List.mem_append]
      rintro (hold | hinserted)
      · exact hfresh o' (List.mem_cons_of_mem _ ho') hold
      · have hsame : o'.proposed.newId = first.proposed.newId := by
          rcases h : first.result with problem | staged
          · simp [newClaim?, h] at hinserted
          · cases staged <;> simp [newClaim?, h] at hinserted
            exact hinserted
        exact hnew (List.mem_map.mpr ⟨o', ho', hsame⟩)

end StagedOp

theorem typeOf?_of_mem {claims : List Claim} (hkeys : (claims.map (·.id)).Nodup) {r : Claim}
    (hr : r ∈ claims) : typeOf? claims r.id = some r.claimType := by
  rw [typeOf?, (find?_key_eq_some hkeys).mpr ⟨hr, rfl⟩]
  rfl

/-! ## The proposal and its staged operations -/

/-- The operation is matched with a stored claim: it refers to the claim, or it has the
claim's statement and type. -/
def ProposedClaim.Matches (host : Host) (rules : ClaimTypeRules) (corpus : Corpus)
    (p : ProposedClaim) (c : ClaimId) : Prop :=
  p.op.wellFormed (fun t => (rules t).isSome) ∧
    match p.op.existingClaimId with
    | some raw => resolveClaimReference host.parseReference host.hex raw corpus.visibleIds = .ok c
    | none => corpus.duplicate? p.op = some c

/-- The type that the claim of an operation is validated under: its own, or for a reverify
the type of the claim that the boundary resolved the reference to. -/
def ValidatedUnder (host : Host) (corpus : Corpus) (p : ProposedClaim)
    (payload : ClaimPayload) : Prop :=
  match p.op.existingClaimId with
  | none => payload.claimType = p.op.claimType
  | some raw => ∃ packIds x,
    boundaryTarget host.parseReference host.hex corpus packIds raw = some x ∧
      ∀ r ∈ corpus.rows, r.id = x → payload.claimType = r.claimType

/-- The row that an evidence operation derives has the claim, the kind and the relation of
the proposal's link. -/
def StagedFrom (records : List EvidenceRecord) (link : EvidenceLink) (payload : LinkPayload) :
    Prop :=
  ∀ e, link.evidence = some e → payload.claimIndex = (link.claimIndex : Int) ∧
    ∃ r, recordAt records payload.evidenceIndex = some r ∧ e.kind = r.kind ∧
      e.relation = payload.relation

/-- What the tables and the ids that the host draws promise a commit. -/
structure MemoryDb.Constraints (db : MemoryDb) (ops : List ProposedClaim)
    (links : List EvidenceLink) : Prop where
  keys : (db.claims.map (·.id)).Nodup
  owners : ∀ e ∈ db.tables.evidence, e.claimId ∈ db.claims.map (·.id)
  newIds : (ops.map (·.newId)).Nodup
  fresh : ∀ p ∈ ops, p.newId ∉ db.claims.map (·.id)
  sources : ∀ link ∈ links, link.Sourced db.tables.toEvidenceDb

namespace MemoryDb

section Staged

variable {host : Host} {rules : ClaimTypeRules} {db : MemoryDb} {statements : ClaimId → Text}
  {pin : SnapshotId} {ops : List ProposedClaim} {links : List EvidenceLink}

/-- What an accepted operation found. -/
theorem stageClaim_ok_iff {corpus : Corpus} {op : ClaimOp} {staged : StagedClaim} :
    stageClaim host.parseReference host.hex (fun t => (rules t).isSome) corpus op = .ok staged ↔
      op.wellFormed (fun t => (rules t).isSome) ∧
        match op.existingClaimId, staged with
        | none, .created => corpus.duplicate? op = none
        | none, .reused c => corpus.duplicate? op = some c
        | some raw, .reverified c =>
          resolveClaimReference host.parseReference host.hex raw corpus.visibleIds = .ok c
        | _, _ => False := by
  unfold stageClaim
  by_cases hform : op.wellFormed fun t => (rules t).isSome
  · simp only [hform, not_true, if_false, true_and]
    cases op.existingClaimId with
    | none => cases corpus.duplicate? op <;> cases staged <;> simp
    | some raw =>
      cases href : resolveClaimReference host.parseReference host.hex raw corpus.visibleIds with
      | error problem =>
        simp only [href]
        cases staged <;> simp [href]
      | ok x =>
        have hrow : x ∈ corpus.rows.map (·.id) := (Corpus.mem_visibleIds.mp (resolve_mem href)).1
        simp only [href, if_pos hrow]
        cases staged <;> simp [href]
  · simp [hform]

theorem matches_iff {corpus : Corpus} {p : ProposedClaim} {c : ClaimId} :
    p.Matches host rules corpus c ↔
      stageClaim host.parseReference host.hex (fun t => (rules t).isSome) corpus p.op =
          .ok (.reused c) ∨
        stageClaim host.parseReference host.hex (fun t => (rules t).isSome) corpus p.op =
          .ok (.reverified c) := by
  rw [stageClaim_ok_iff, stageClaim_ok_iff, ProposedClaim.Matches, ← and_or_left]
  cases p.op.existingClaimId <;> simp

/-- An operation ends at the claim it creates or at the one it is matched with. -/
theorem stageOps_claim {corpus : Corpus} {o : StagedOp} (ho : o ∈ stageOps host rules corpus ops)
    {c : ClaimId} :
    o.claim = some c ↔ (o.result = .ok .created ∧ c = o.proposed.newId) ∨
      o.proposed.Matches host rules corpus c := by
  obtain ⟨p, -, rfl⟩ := List.mem_map.mp ho
  rw [matches_iff]
  unfold StagedOp.claim
  dsimp only
  split
  · rename_i h
    simp [h, eq_comm]
  · rename_i x h
    simp [h]
  · rename_i x h
    simp [h]
  · rename_i problem h
    simp [h]

theorem duplicate_row {op : ClaimOp} {c : ClaimId}
    (h : (db.corpus statements pin).duplicate? op = some c) :
    ∃ r ∈ db.claims, r.id = c ∧ r.claimType = op.claimType := by
  unfold Corpus.duplicate? at h
  obtain ⟨row, hrow, rfl⟩ := Option.map_eq_some_iff.mp h
  obtain ⟨r, hr, rfl⟩ := List.mem_map.mp (List.mem_of_find?_eq_some hrow)
  have hfound := List.find?_some hrow
  rw [decide_eq_true_eq] at hfound
  exact ⟨r, hr, rfl, hfound.2.1⟩

/-- **The type of a matched claim** is the one the operation is validated under. -/
theorem matches_typeOf? (hkeys : (db.claims.map (·.id)).Nodup) {p : ProposedClaim}
    {payload : ClaimPayload} (hunder : ValidatedUnder host (db.corpus statements pin) p payload)
    {c : ClaimId} (h : p.Matches host rules (db.corpus statements pin) c) :
    typeOf? db.claims c = some payload.claimType := by
  have hcorpus : (db.corpus statements pin).rows.map (·.id) = db.claims.map (·.id) := by
    simp [corpus, Function.comp_def]
  unfold ValidatedUnder at hunder
  cases hop : p.op.existingClaimId with
  | none =>
    simp only [ProposedClaim.Matches, hop] at h hunder
    obtain ⟨r, hr, rfl, htype⟩ := duplicate_row h.2
    rw [typeOf?_of_mem hkeys hr, htype, hunder]
  | some raw =>
    simp only [hop] at hunder
    obtain ⟨packIds, x, haccepted, htype⟩ := hunder
    -- the commit resolves the reference to the boundary's claim, or to none
    have hcommit := (@reverify_at_commit host.parseReference host.hex
      (fun t => (rules t).isSome) _ (db.corpus statements pin) packIds p.op raw x
      (by rwa [hcorpus]) ⟨fun _ hr => hr, fun _ hh => hh⟩ hop haccepted).1
    have hx : c = x := by
      rcases matches_iff.mp h with hreused | hreverified
      · cases hcommit _ hreused
      · cases hcommit _ hreverified
        rfl
    subst hx
    have hvisible : c ∈ (db.corpus statements pin).visibleIds := by
      simp only [ProposedClaim.Matches, hop] at h
      exact resolve_mem h.2
    obtain ⟨row, hrow, hid⟩ := List.mem_map.mp (Corpus.mem_visibleIds.mp hvisible).1
    obtain ⟨r, hr, rfl⟩ := List.mem_map.mp hrow
    obtain rfl : r.id = c := hid
    rw [typeOf?_of_mem hkeys hr, htype _ hrow rfl]

/-- The type of any claim of the commit, after the claim loop. -/
theorem claim_typeOf? (hdb : db.Constraints ops links) {o : StagedOp}
    (ho : o ∈ stageOps host rules (db.corpus statements pin) ops) {payload : ClaimPayload}
    (hunder : ValidatedUnder host (db.corpus statements pin) o.proposed payload) {c : ClaimId}
    (hc : o.claim = some c) :
    typeOf? ((stageOps host rules (db.corpus statements pin) ops).foldl StagedOp.writeClaim
      db.claims) c = some payload.claimType := by
  rcases (stageOps_claim ho).mp hc with ⟨hcreated, rfl⟩ | hmatch
  · have hnew : (stageOps host rules (db.corpus statements pin) ops).map (·.proposed.newId) =
        ops.map (·.newId) := by
      simp [stageOps, Function.comp_def]
    have hfresh : ∀ o ∈ stageOps host rules (db.corpus statements pin) ops,
        o.proposed.newId ∉ db.claims.map (·.id) := by
      intro o ho
      obtain ⟨p, hp, rfl⟩ := List.mem_map.mp ho
      exact hdb.fresh p hp
    rw [StagedOp.foldl_writeClaim_created ho hcreated (by rw [hnew]; exact hdb.newIds) hfresh]
    obtain ⟨p, hp, rfl⟩ := List.mem_map.mp ho
    obtain ⟨-, hop⟩ := stageClaim_ok_iff.mp hcreated
    unfold ValidatedUnder at hunder
    cases hexisting : p.op.existingClaimId with
    | none =>
      simp only [hexisting] at hunder
      rw [hunder]
    | some raw => simp [hexisting] at hop
  · exact StagedOp.foldl_writeClaim_typeOf? (matches_typeOf? hdb.keys hunder hmatch)

/-- The proposal's link behind a row that supports a claim. -/
theorem madeBy_proposed {records : List EvidenceRecord} {payloads : List ClaimPayload}
    {linkPayloads : List LinkPayload} {row : Evidence}
    (hops : List.Forall₂ (ValidatedUnder host (db.corpus statements pin)) ops payloads)
    (hlinks : List.Forall₂ (StagedFrom records) links linkPayloads)
    (hmade : MadeBy ((stageOps host rules (db.corpus statements pin) ops).map (·.claim)) links
      row) (hrel : row.relation = .supports) :
    ∃ (i : Nat) (p : ProposedClaim) (payload : ClaimPayload), ops[i]? = some p ∧
      payloads[i]? = some payload ∧
      (StagedOp.mk p (stageClaim host.parseReference host.hex (fun t => (rules t).isSome)
        (db.corpus statements pin) p.op)).claim = some row.claimId ∧
      row.kind ∈ (supportOf (proposedEvidence linkPayloads records i payload.claimScope)).map
        (·.kind) := by
  obtain ⟨link, hlink, e, he, hclaim, hkind, hrelation⟩ := hmade
  obtain ⟨k, hk⟩ := List.mem_iff_getElem?.mp hlink
  obtain ⟨linkPayload, hlinkPayload, hstaged⟩ := forall₂_getElem? hlinks hk
  obtain ⟨hindex, r, hr, hrkind, hrrelation⟩ := hstaged e he
  -- the operation at the link's index
  obtain ⟨o, ho, hoclaim⟩ : ∃ o, (stageOps host rules (db.corpus statements pin)
      ops)[link.claimIndex]? = some o ∧ o.claim = some row.claimId := by
    have hjoin := Option.join_eq_some_iff.mp hclaim
    rwa [List.getElem?_map, Option.map_eq_some_iff] at hjoin
  obtain ⟨p, hp, rfl⟩ : ∃ p, ops[link.claimIndex]? = some p ∧ StagedOp.mk p _ = o := by
    rwa [stageOps, List.getElem?_map, Option.map_eq_some_iff] at ho
  obtain ⟨payload, hpayload, -⟩ := forall₂_getElem? hops hp
  refine ⟨link.claimIndex, p, payload, hp, hpayload, hoclaim, ?_⟩
  refine List.mem_map.mpr ⟨⟨r.identityHash, r.kind, linkPayload.relation, payload.claimScope,
    "unknown", .none, false⟩, List.mem_filter.mpr ⟨?_, ?_⟩, ?_⟩
  · refine List.mem_filterMap.mpr ⟨linkPayload, List.mem_of_getElem? hlinkPayload, ?_⟩
    rw [if_pos hindex, hr, Option.map_some]
  · rw [← hrrelation, ← hrelation, hrel]
    rfl
  · rw [hkind, hrkind]

theorem admits_iff {c : ClaimId} {t : String} (h : typeOf? db.claims c = some t) :
    db.Admits rules c ↔ rules.Admit t ((db.tables.supportRows c).map (·.kind)) := by
  obtain ⟨claim, hclaim, rfl⟩ := Option.map_eq_some_iff.mp h
  constructor
  · intro hadm
    exact hadm claim hclaim
  · intro hadm claim' hclaim'
    rwa [← Option.some.inj (hclaim.symm.trans hclaim')]

/-- Every claim of the commit has its row after the claim loop. -/
theorem commit_rowed {payloads : List ClaimPayload} (hdb : db.Constraints ops links)
    (hops : List.Forall₂ (ValidatedUnder host (db.corpus statements pin)) ops payloads)
    {db₁ : MemoryDb}
    (hclaims : db₁.claims = (stageOps host rules (db.corpus statements pin) ops).foldl
      StagedOp.writeClaim db.claims) {c : ClaimId}
    (hc : some c ∈ (stageOps host rules (db.corpus statements pin) ops).map (·.claim)) :
    (db₁.claim? c).isSome := by
  obtain ⟨o, ho, hoclaim⟩ := List.mem_map.mp hc
  obtain ⟨p, hp, hop⟩ := List.mem_map.mp ho
  obtain ⟨i, hi⟩ := List.mem_iff_getElem?.mp hp
  obtain ⟨payload, -, hunder⟩ := forall₂_getElem? hops hi
  have htype := claim_typeOf? hdb ho (by rwa [← hop]) hoclaim
  rw [← hclaims] at htype
  obtain ⟨claim, hclaim, -⟩ := Option.map_eq_some_iff.mp htype
  exact Option.isSome_iff_exists.mpr ⟨claim, hclaim⟩

/-- **The commit's assessments** are admitted exactly when the rules admit the support that
the matched claims had before. -/
theorem commit_admits_iff {records : List EvidenceRecord} {payloads : List ClaimPayload}
    {linkPayloads : List LinkPayload} (hdb : db.Constraints ops links)
    (hops : List.Forall₂ (ValidatedUnder host (db.corpus statements pin)) ops payloads)
    (hlinks : List.Forall₂ (StagedFrom records) links linkPayloads)
    (haccepted : validateClaimProposal host.parseDay host.parseTime rules payloads linkPayloads
      records = []) {db₁ : MemoryDb}
    (hclaims : db₁.claims = (stageOps host rules (db.corpus statements pin) ops).foldl
      StagedOp.writeClaim db.claims)
    (htables : links.foldlM (applyLink ((stageOps host rules (db.corpus statements pin)
      ops).map (·.claim))) db.tables = .ok db₁.tables) :
    (∀ c, some c ∈ (stageOps host rules (db.corpus statements pin) ops).map (·.claim) →
      db₁.Admits rules c) ↔
    ∀ p ∈ ops, ∀ c, p.Matches host rules (db.corpus statements pin) c → db.Admits rules c := by
  have hstaged : ∀ p ∈ ops, StagedOp.mk p (stageClaim host.parseReference host.hex
      (fun t => (rules t).isSome) (db.corpus statements pin) p.op) ∈
        stageOps host rules (db.corpus statements pin) ops := fun p hp => List.mem_map_of_mem hp
  obtain ⟨hkept, hrows⟩ := And.intro (fun c => (applyLinks_support htables c).1)
    (fun c => (applyLinks_support htables c).2)
  constructor
  · intro h p hp c hmatch
    obtain ⟨i, hi⟩ := List.mem_iff_getElem?.mp hp
    obtain ⟨payload, -, hunder⟩ := forall₂_getElem? hops hi
    have hc := (stageOps_claim (hstaged p hp)).mpr (.inr hmatch)
    have htype := claim_typeOf? hdb (hstaged p hp) hunder hc
    have hadm := h c (List.mem_map.mpr ⟨_, hstaged p hp, hc⟩)
    rw [admits_iff (hclaims ▸ htype)] at hadm
    obtain ⟨rule, hrule, hkinds⟩ := hadm
    rw [admits_iff (matches_typeOf? hdb.keys hunder hmatch)]
    refine ⟨rule, hrule, fun k hk => hkinds k ?_⟩
    obtain ⟨row, hrow, rfl⟩ := List.mem_map.mp hk
    exact List.mem_map_of_mem (hkept c row hrow)
  · intro h c hc
    obtain ⟨o, ho, hoclaim⟩ := List.mem_map.mp hc
    obtain ⟨p, hp, rfl⟩ := List.mem_map.mp ho
    obtain ⟨i, hi⟩ := List.mem_iff_getElem?.mp hp
    obtain ⟨payload, hpayload, hunder⟩ := forall₂_getElem? hops hi
    have htype := claim_typeOf? hdb (hstaged p hp) hunder hoclaim
    rw [← hclaims] at htype
    refine (admits_iff htype).mpr ?_
    obtain ⟨rule, hrule, -⟩ := validateClaimProposal_nil haccepted hpayload
    refine ⟨rule, hrule, fun k hk => ?_⟩
    obtain ⟨row, hrow, rfl⟩ := List.mem_map.mp hk
    rcases hrows c row hrow with hold | ⟨rfl, hrel, hmade⟩
    · -- a stored row: the claim is stored, so the operation is matched with it
      have hrowClaim := (EvidenceDb.mem_activeEvidence.mp (EvidenceDb.mem_supportRows.mp hold).1)
      rcases (stageOps_claim ho).mp hoclaim with ⟨-, rfl⟩ | hmatch
      · refine absurd (hdb.owners row hrowClaim.1) ?_
        rw [hrowClaim.2.1]
        exact hdb.fresh p hp
      · obtain ⟨rule', hrule', hkinds⟩ :=
          (admits_iff (matches_typeOf? hdb.keys hunder hmatch)).mp (h p hp c hmatch)
        obtain rfl := Option.some.inj (hrule.symm.trans hrule')
        exact hkinds row.kind (List.mem_map_of_mem hold)
    · -- a row of the commit: the validator has seen it
      obtain ⟨j, p', payload', hj, hpayload', hclaim', hkind⟩ :=
        madeBy_proposed hops hlinks hmade hrel
      have hp' := List.mem_of_getElem? hj
      obtain ⟨payload'', hpayload'', hunder'⟩ := forall₂_getElem? hops hj
      obtain rfl := Option.some.inj (hpayload'.symm.trans hpayload'')
      have htype' := claim_typeOf? hdb (hstaged p' hp') hunder' hclaim'
      rw [← hclaims, htype] at htype'
      obtain ⟨rule', hrule', hkinds⟩ := validateClaimProposal_nil haccepted hpayload'
      rw [← Option.some.inj htype', hrule] at hrule'
      obtain rfl := Option.some.inj hrule'
      exact hkinds row.kind hkind

/-- **When an accepted proposal is applied.** The commit of an accepted proposal raises no
error of the rules exactly when the rules admit the support that is in force for each stored
claim an operation is matched with. -/
theorem accepted_applies_iff {snapshot : ConfigSnapshot} {records : List EvidenceRecord}
    {payloads : List ClaimPayload} {linkPayloads : List LinkPayload}
    (hsnapshot : db.snapshot? pin = some snapshot) (hdb : db.Constraints ops links)
    (hops : List.Forall₂ (ValidatedUnder host (db.corpus statements pin)) ops payloads)
    (hlinks : List.Forall₂ (StagedFrom records) links linkPayloads)
    (haccepted : validateClaimProposal host.parseDay host.parseTime snapshot.rules payloads
      linkPayloads records = []) :
    (∀ e, db.applyClaimStaging host statements pin ops links ≠ .error (.rule e)) ↔
      ∀ p ∈ ops, ∀ c, p.Matches host snapshot.rules (db.corpus statements pin) c →
        db.Admits snapshot.rules c := by
  unfold applyClaimStaging
  split
  · rename_i hnil
    subst hnil
    simp
  · rw [hsnapshot]
    dsimp only
    obtain ⟨tables, htables⟩ := @applyLinks_sourced ((stageOps host snapshot.rules
      (db.corpus statements pin) ops).map (·.claim)) links db.tables hdb.sources
    rw [htables, ok_bind]
    generalize hstore : MemoryDb.mk _ _ _ _ _ _ _ = db₁
    have hclaims : db₁.claims = (stageOps host snapshot.rules (db.corpus statements pin)
        ops).foldl StagedOp.writeClaim db.claims := by rw [← hstore]
    rw [← commit_admits_iff hdb hops hlinks haccepted hclaims (by rw [htables, ← hstore])]
    rcases @assessClaims_cases host snapshot.rules pin _ _ [] db₁
      (fun c hc => commit_rowed hdb hops hclaims hc) with
      ⟨hall, p, hok⟩ | ⟨⟨c, hc, hbad⟩, e, herr⟩
    · rw [hok, ok_bind]
      refine iff_of_true (fun e he => ?_) fun c hc => hall c hc List.not_mem_nil
      cases he
    · rw [herr, error_bind]
      exact iff_of_false (fun h => h e rfl) fun h => hbad (h c hc)

end Staged

end MemoryDb

/-! ## A stored claim with support of a kind -/

/-- Claim `1` is stored with one row of support. -/
def storedSupport (kind : String) : MemoryDb :=
  { freshWorld.db.withKnow (freshWorld.db.know.setHead 1 0 (some .invalid)) with
    claims := [factClaim]
    tables := ⟨⟨[⟨0, 1, .supports, kind, "a", ∅, none, none⟩], [], [], [], [], [], [],
      by simp⟩, []⟩ }

/-- The statement of claim `1` again. -/
def restatedFact : ProposedClaim := { statedFact with newId := 2 }

theorem storedSupport_constraints (kind : String) :
    (storedSupport kind).Constraints [restatedFact] [] where
  keys := List.nodup_singleton _
  owners := by simp [storedSupport, factClaim]
  newIds := List.nodup_singleton _
  fresh := by simp [storedSupport, factClaim, restatedFact]
  sources := List.forall_mem_nil _

/-- The restatement is accepted: the proposal links nothing to it. -/
def restatedPayload : ClaimPayload := ⟨"fact", ∅, false⟩

theorem restatedPayload_accepted : validateClaimProposal plainHost.parseDay plainHost.parseTime
    factRules [restatedPayload] [] [] = [] := rfl

theorem accepted_applies_computation :
    ¬ ∃ e, (storedSupport "computation").applyClaimStaging plainHost (fun _ => ['a']) 0
      [restatedFact] [] = .error (.rule e) := by
  rintro ⟨e, he⟩
  refine (MemoryDb.accepted_applies_iff rfl (storedSupport_constraints _)
    (List.Forall₂.cons (rfl : restatedPayload.claimType = restatedFact.op.claimType) .nil)
    .nil restatedPayload_accepted).mpr ?_ e he
  intro p hp c hmatch
  rw [List.mem_singleton.mp hp] at hmatch
  obtain rfl : 1 = c := Option.some.inj hmatch.2
  intro claim hclaim
  obtain rfl : factClaim = claim := Option.some.inj hclaim
  refine ⟨factRule, rfl, fun k hk => ?_⟩
  obtain ⟨row, hrow, rfl⟩ := List.mem_map.mp hk
  obtain ⟨hact, -⟩ := EvidenceDb.mem_supportRows.mp hrow
  rw [List.mem_singleton.mp (EvidenceDb.mem_activeEvidence.mp hact).1]
  exact List.mem_cons_of_mem _ (List.mem_singleton_self _)

/-- The support of claim `1` is of a kind that the rules no longer admit: the accepted
proposal aborts the commit. -/
theorem accepted_aborts : ¬ ∀ (host : Host) (db : MemoryDb) (statements : ClaimId → Text)
    (pin : SnapshotId) (ops : List ProposedClaim) (links : List EvidenceLink)
    (snapshot : ConfigSnapshot) (records : List EvidenceRecord) (payloads : List ClaimPayload)
    (linkPayloads : List LinkPayload),
    db.snapshot? pin = some snapshot → db.Constraints ops links →
    List.Forall₂ (ValidatedUnder host (db.corpus statements pin)) ops payloads →
    List.Forall₂ (StagedFrom records) links linkPayloads →
    validateClaimProposal host.parseDay host.parseTime snapshot.rules payloads linkPayloads
      records = [] →
    ∀ e, db.applyClaimStaging host statements pin ops links ≠ .error (.rule e) := by
  intro h
  refine h plainHost (storedSupport "experiment_run") (fun _ => ['a']) 0 [restatedFact] [] _ []
    [restatedPayload] [] rfl (storedSupport_constraints _)
    (List.Forall₂.cons (rfl : restatedPayload.claimType = restatedFact.op.claimType) .nil)
    .nil restatedPayload_accepted (.kindNotAllowed "experiment_run" "fact") ?_
  rfl

end Noezema.Memory
