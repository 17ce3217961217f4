import Noezema.Memory.Lineage

/-! # Three assemblies of one input

What the commit path, the reassessment worker and the offline rules change feed to
the rules engine for one claim, and what each assigns. The commit and the worker
share the groups, the relations and the resolutions; the offline path puts all items
in one group, knows no relation and no resolution, and takes the claim's scope from
the evidence.
-/

namespace Noezema.Memory

open Relation Noezema.Lib

/-- What assessment reads of a row of `claims`; `hasAsOf` is `as_of IS NOT NULL`. -/
structure Claim where
  id : ClaimId
  claimType : String
  hasAsOf : Bool
deriving DecidableEq

/-- A row of `claim_assessments`. -/
structure Assessment where
  claimId : ClaimId
  assessedScope : Scope
  grade : EffectiveGrade
  epistemicStatus : EpistemicStatus
  confidence : ℚ

/-- The evidence tables and the assessments, the newest first. -/
structure AssessmentDb extends EvidenceDb where
  assessments : List Assessment

/-- The arguments of one call of `evaluate`. -/
structure EngineInput where
  claimType : String
  rule : ClaimTypeRule
  claimScope : Scope
  evidences : List EvaluatedEvidence
  hasAsOf : Bool

/-- What an assessment assigns to its claim. -/
def AssessmentResult.assigned (r : AssessmentResult) :
    EffectiveGrade × EpistemicStatus × ℚ :=
  (r.grade, r.epistemicStatus, r.confidence)

/-- `claim_type_rules` of a snapshot. -/
abbrev ClaimTypeRules := String → Option ClaimTypeRule

/-- `MemoryService.rule`. -/
def ClaimTypeRules.rule (rules : ClaimTypeRules) (claimType : String) :
    Except RuleValidationError ClaimTypeRule :=
  match rules claimType with
  | some rule => .ok rule
  | none => .error (.unknownClaimType claimType)

section Paths

variable (parseDay parseTime : String → Option Int) (rd : Readers)

def EngineInput.evaluate (i : EngineInput) : Except RuleValidationError AssessmentResult :=
  Memory.evaluate parseDay parseTime i.claimType i.rule i.claimScope i.evidences i.hasAsOf

/-! ## The commit -/

/-- The input that `_assess` builds. -/
def commitInput (db : AssessmentDb) (rule : ClaimTypeRule) (claim : Claim)
    (claimScope : Scope) : EngineInput where
  claimType := claim.claimType
  rule := rule
  claimScope := claimScope
  evidences := db.assessmentInput rd claim.id
  hasAsOf := claim.hasAsOf

/-- `_assess`: the assessment row carries the scope it was made with. -/
def assess (rules : ClaimTypeRules) (db : AssessmentDb) (claim : Claim)
    (claimScope : Scope) : Except RuleValidationError (AssessmentResult × AssessmentDb) := do
  let rule ← rules.rule claim.claimType
  let result ← (commitInput rd db rule claim claimScope).evaluate parseDay parseTime
  pure (result, { db with
    assessments := ⟨claim.id, claimScope, result.grade, result.epistemicStatus,
      result.confidence⟩ :: db.assessments })

/-! ## The reassessment worker -/

/-- `_latest_assessed_scope`. -/
def latestAssessedScope (db : AssessmentDb) (c : ClaimId) : Scope :=
  ((db.assessments.find? fun a => a.claimId = c).map (·.assessedScope)).getD ∅

/-- The input that `_process_one_job` builds. It evaluates nothing for a claim
without evidence. -/
def workerInput (db : AssessmentDb) (rule : ClaimTypeRule) (claim : Claim) :
    Option EngineInput :=
  if db.claimEvidenceForAssessment claim.id = [] then none
  else some {
    claimType := claim.claimType
    rule := rule
    claimScope := latestAssessedScope db claim.id
    evidences := db.assessmentInput rd claim.id
    hasAsOf := claim.hasAsOf }

/-! ## The offline rules change -/

/-- A row as `prepare_shadow_heads` passes it. -/
def shadowEvidence (e : Evidence) : EvaluatedEvidence where
  identityHash := e.identityHash
  kind := e.kind
  relation := e.relation
  scope := e.scope
  independenceGroup := "shadow"
  envRelation := .none
  resolved := false

/-- `merged_scope`: the scopes of the evidence, the first value of a key stays. -/
def mergedScope (db : AssessmentDb) (c : ClaimId) : Scope :=
  (db.claimEvidenceForAssessment c).foldl (fun merged e => merged.setDefaults e.scope) ∅

/-- The input that `prepare_shadow_heads` builds. -/
def shadowInput (db : AssessmentDb) (rule : ClaimTypeRule) (claim : Claim) :
    EngineInput where
  claimType := claim.claimType
  rule := rule
  claimScope := mergedScope db claim.id
  evidences := (db.claimEvidenceForAssessment claim.id).map shadowEvidence
  hasAsOf := claim.hasAsOf

/-- The head that `prepare_shadow_heads` writes. -/
inductive ShadowHead where
  | invalid
  | pending
  | current (result : AssessmentResult)

/-- `prepare_shadow_heads` for one claim: an unknown type is invalid, a deferred
claim stays pending. -/
def shadowHead (rules : ClaimTypeRules) (db : AssessmentDb) (claim : Claim) :
    Except RuleValidationError ShadowHead :=
  match rules claim.claimType with
  | none => .ok .invalid
  | some rule => do
    let result ← (shadowInput db rule claim).evaluate parseDay parseTime
    pure (if result.epistemicStatus = .deferred then .pending else .current result)

end Paths

/-! ## Agreement -/

/-- The group of the item at a place, none behind the end. -/
def EngineInput.groupAt (i : EngineInput) (k : Nat) : Option String :=
  i.evidences[k]?.map (·.independenceGroup)

/-- Two inputs agree: the same items share a group, and the relations, the resolved
flags and the claim scope are the same. -/
structure SameInput (a b : EngineInput) : Prop where
  groups : ∀ j k, a.groupAt j = a.groupAt k ↔ b.groupAt j = b.groupAt k
  relations : a.evidences.map (·.envRelation) = b.evidences.map (·.envRelation)
  resolved : a.evidences.map (·.resolved) = b.evidences.map (·.resolved)
  scope : a.claimScope = b.claimScope

theorem SameInput.refl (a : EngineInput) : SameInput a a :=
  ⟨fun _ _ => Iff.rfl, rfl, rfl, rfl⟩

/-- The three paths agree on an assessment: the worker and the offline change are fed
what the commit was fed, and they assign what it assigned. -/
structure PathsAgree (parseDay parseTime : String → Option Int) (commit : EngineInput)
    (worker : Option EngineInput) (shadow : EngineInput)
    (head : Except RuleValidationError ShadowHead) (r : AssessmentResult) : Prop where
  worker : ∃ w, worker = some w ∧ SameInput commit w ∧
    ∃ r', w.evaluate parseDay parseTime = .ok r' ∧ r'.assigned = r.assigned
  shadow : SameInput commit shadow ∧
    ∃ r', head = .ok (.current r') ∧ r'.assigned = r.assigned

section Agreement

variable {parseDay parseTime : String → Option Int} {rd : Readers}

/-- Two items are of one group: links connect their sources, or neither has a source
and their environments have one group. -/
def EvidenceDb.OneGroup (rd : Readers) (db : EvidenceDb) (c : ClaimId) (e e' : Evidence) :
    Prop :=
  match e.sourceId, e'.sourceId with
  | some s, some s' => EqvGen (db.Linked rd c) s s'
  | none, none =>
    (db.manifestOf e).elim untrackedGroup (environmentGroup rd.digest) =
      (db.manifestOf e').elim untrackedGroup (environmentGroup rd.digest)
  | _, _ => False

/-- When the offline change sees what the commit sees: the claim has evidence in
force, all of it of one group, no item has another environment beside its own, no
item is resolved, and the claim's scope is what the items' scopes merge to. -/
structure ShadowFits (rd : Readers) (db : AssessmentDb) (claim : Claim)
    (claimScope : Scope) : Prop where
  evidence : db.activeEvidence claim.id ≠ []
  oneGroup : ∀ e ∈ db.activeEvidence claim.id, ∀ e' ∈ db.activeEvidence claim.id,
    db.OneGroup rd claim.id e e'
  single : ∀ e ∈ db.activeEvidence claim.id, ∀ v, db.manifestOf e = some v →
    ∀ o ∈ db.claimManifests claim.id, o.id = v.id
  unresolved : ∀ e ∈ db.activeEvidence claim.id, db.resolved e.id = false
  scope : mergedScope db claim.id = claimScope

/-- The groups of the items in force. -/
theorem EvidenceDb.oneGroup_iff {db : EvidenceDb} {c : ClaimId} {e e' : Evidence}
    (he : e ∈ db.activeEvidence c) (he' : e' ∈ db.activeEvidence c) :
    db.independenceGroup rd c e = db.independenceGroup rd c e' ↔ db.OneGroup rd c e e' := by
  obtain ⟨hin, hc, -⟩ := mem_activeEvidence.mp he
  obtain ⟨hin', hc', -⟩ := mem_activeEvidence.mp he'
  cases hs : e.sourceId with
  | some s =>
    cases hs' : e'.sourceId with
    | some s' =>
      simp only [OneGroup, hs, hs']
      exact independenceGroup_eq_iff he hs he' hs'
    | none =>
      simp only [OneGroup, hs, hs', iff_false]
      rw [sourceName_eq he hs, independenceGroup_sourceless hs']
      exact sourceName_ne (mem_memberIds.mpr ⟨e, he, hs⟩) he'
  | none =>
    cases hs' : e'.sourceId with
    | some s' =>
      simp only [OneGroup, hs, hs', iff_false]
      rw [sourceName_eq he' hs', independenceGroup_sourceless hs]
      exact Ne.symm (sourceName_ne (mem_memberIds.mpr ⟨e', he', hs'⟩) he)
    | none =>
      simp only [OneGroup, hs, hs']
      rw [independenceGroup_sourceless hs, independenceGroup_sourceless hs',
        environmentOf_eq hin hc, environmentOf_eq hin' hc']

/-- **What the offline input keeps** of the commit's. -/
theorem sameInput_shadow_iff {db : AssessmentDb} {rule : ClaimTypeRule} {claim : Claim}
    {claimScope : Scope} (hne : db.activeEvidence claim.id ≠ []) :
    SameInput (commitInput rd db rule claim claimScope) (shadowInput db rule claim) ↔
      ShadowFits rd db claim claimScope := by
  have hmem : ∀ e, e ∈ db.claimEvidenceForAssessment claim.id ↔
      e ∈ db.activeEvidence claim.id := fun e => EvidenceDb.mem_claimEvidenceForAssessment
  have hcommit : ∀ k, (commitInput rd db rule claim claimScope).groupAt k =
      (db.claimEvidenceForAssessment claim.id)[k]?.map
        (db.independenceGroup rd claim.id) := by
    intro k
    simp only [EngineInput.groupAt, commitInput, EvidenceDb.assessmentInput,
      List.getElem?_map, Option.map_map]
    rfl
  have hshadow : ∀ k, (shadowInput db rule claim).groupAt k =
      (db.claimEvidenceForAssessment claim.id)[k]?.map fun _ => "shadow" := by
    intro k
    simp only [EngineInput.groupAt, shadowInput, List.getElem?_map, Option.map_map]
    rfl
  constructor
  · intro h
    refine ⟨hne, ?_, ?_, ?_, h.scope.symm⟩
    · intro e he e' he'
      obtain ⟨j, hj⟩ := List.mem_iff_getElem?.mp ((hmem e).mpr he)
      obtain ⟨k, hk⟩ := List.mem_iff_getElem?.mp ((hmem e').mpr he')
      have hsame : (shadowInput db rule claim).groupAt j =
          (shadowInput db rule claim).groupAt k := by
        rw [hshadow, hshadow, hj, hk]
        rfl
      have heq := (h.groups j k).mpr hsame
      rw [hcommit, hcommit, hj, hk] at heq
      exact (EvidenceDb.oneGroup_iff he he').mp (Option.some.inj heq)
    · intro e he
      obtain ⟨hin, hc, -⟩ := EvidenceDb.mem_activeEvidence.mp he
      have hrel := h.relations
      simp only [commitInput, shadowInput, EvidenceDb.assessmentInput, List.map_map,
        List.map_inj_left] at hrel
      exact (EvidenceDb.itemRelation_none_iff hin hc).mp (hrel e ((hmem e).mpr he))
    · intro e he
      have hres := h.resolved
      simp only [commitInput, shadowInput, EvidenceDb.assessmentInput, List.map_map,
        List.map_inj_left] at hres
      exact hres e ((hmem e).mpr he)
  · intro h
    refine ⟨?_, ?_, ?_, h.scope.symm⟩
    · intro j k
      rw [hcommit, hcommit, hshadow, hshadow]
      cases hj : (db.claimEvidenceForAssessment claim.id)[j]? with
      | none => cases (db.claimEvidenceForAssessment claim.id)[k]? <;> simp
      | some e =>
        cases hk : (db.claimEvidenceForAssessment claim.id)[k]? with
        | none => simp
        | some e' =>
          have he := (hmem e).mp (List.mem_of_getElem? hj)
          have he' := (hmem e').mp (List.mem_of_getElem? hk)
          simp [(EvidenceDb.oneGroup_iff he he').mpr (h.oneGroup e he e' he')]
    · simp only [commitInput, shadowInput, EvidenceDb.assessmentInput, List.map_map,
        List.map_inj_left]
      intro e he
      obtain ⟨hin, hc, -⟩ := EvidenceDb.mem_activeEvidence.mp ((hmem e).mp he)
      exact (EvidenceDb.itemRelation_none_iff hin hc).mpr (h.single e ((hmem e).mp he))
    · simp only [commitInput, shadowInput, EvidenceDb.assessmentInput, List.map_map,
        List.map_inj_left]
      intro e he
      exact h.unresolved e ((hmem e).mp he)

/-- What a commit's assessment was fed, and what it leaves. -/
theorem assess_ok {rules : ClaimTypeRules} {db db' : AssessmentDb} {claim : Claim}
    {claimScope : Scope} {r : AssessmentResult} {rule : ClaimTypeRule}
    (hrule : rules claim.claimType = some rule)
    (h : assess parseDay parseTime rd rules db claim claimScope = .ok (r, db')) :
    (commitInput rd db rule claim claimScope).evaluate parseDay parseTime = .ok r ∧
      db'.toEvidenceDb = db.toEvidenceDb ∧
      latestAssessedScope db' claim.id = claimScope := by
  have hr : rules.rule claim.claimType = .ok rule := by
    rw [ClaimTypeRules.rule, hrule]
  rw [assess, hr] at h
  cases heval : (commitInput rd db rule claim claimScope).evaluate parseDay parseTime with
  | error err =>
    simp only [heval, bind, Except.bind] at h
    cases h
  | ok result =>
    simp only [heval, bind, Except.bind] at h
    cases h
    exact ⟨rfl, rfl, by simp [latestAssessedScope]⟩

/-- A claim whose support is of allowed kinds is assessed. -/
theorem assess_of_allowed {rules : ClaimTypeRules} {db : AssessmentDb} {claim : Claim}
    (claimScope : Scope) {rule : ClaimTypeRule} (hrule : rules claim.claimType = some rule)
    (hkinds : ∀ e ∈ db.supportRows claim.id, e.kind ∈ rule.allowedKinds) :
    ∃ r db', assess parseDay parseTime rd rules db claim claimScope = .ok (r, db') := by
  have hallowed : ∀ i ∈ supportOf (db.assessmentInput rd claim.id),
      i.kind ∈ rule.allowedKinds := by
    intro i hi
    obtain ⟨hin, hrel⟩ := List.mem_filter.mp hi
    obtain ⟨e, he, rfl⟩ := List.mem_map.mp hin
    have hact := EvidenceDb.mem_claimEvidenceForAssessment.mp he
    exact hkinds e (EvidenceDb.mem_supportRows.mpr ⟨hact, of_decide_eq_true hrel⟩)
  obtain ⟨r, hr⟩ := @evaluate_of_allowed parseDay parseTime claim.claimType rule claimScope
    _ claim.hasAsOf hallowed
  have hinput : (commitInput rd db rule claim claimScope).evaluate parseDay parseTime =
      .ok r := hr
  refine ⟨r, { db with assessments := ⟨claim.id, claimScope, r.grade, r.epistemicStatus,
    r.confidence⟩ :: db.assessments }, ?_⟩
  simp only [assess, ClaimTypeRules.rule, hrule, bind, Except.bind, hinput]
  rfl

/-- The offline evaluation of evidence that fits is the commit's. -/
theorem ShadowFits.evaluate {db : AssessmentDb} {rule : ClaimTypeRule} {claim : Claim}
    {claimScope : Scope} (h : ShadowFits rd db claim claimScope) :
    (shadowInput db rule claim).evaluate parseDay parseTime =
      (commitInput rd db rule claim claimScope).evaluate parseDay parseTime := by
  simp only [EngineInput.evaluate, shadowInput, commitInput, h.scope,
    EvidenceDb.assessmentInput]
  apply evaluate_relabel
  · intro e he
    rw [EvidenceDb.mem_claimEvidenceForAssessment] at he
    obtain ⟨hin, hc, -⟩ := EvidenceDb.mem_activeEvidence.mp he
    have hrel := (@EvidenceDb.itemRelation_none_iff rd _ _ _ hin hc).mpr (h.single e he)
    simp only [EvaluatedEvidence.SameButGroup, shadowEvidence, EvidenceDb.evaluatedEvidence,
      hrel, h.unresolved e he]
  · intro e he e' he'
    rw [EvidenceDb.mem_claimEvidenceForAssessment] at he he'
    have hgroup := (EvidenceDb.oneGroup_iff he he').mpr (h.oneGroup e he e' he')
    exact iff_of_true hgroup rfl

/-- Evidence that fits is not deferred. -/
theorem ShadowFits.not_deferred {db : AssessmentDb} {rule : ClaimTypeRule}
    {claim : Claim} {claimScope : Scope} {r : AssessmentResult}
    (h : ShadowFits rd db claim claimScope)
    (hr : (commitInput rd db rule claim claimScope).evaluate parseDay parseTime = .ok r) :
    r.epistemicStatus ≠ .deferred := by
  intro hdeferred
  obtain ⟨hs, hc, -⟩ := (deferred_of_ok hr).mp hdeferred
  have hnil : db.assessmentInput rd claim.id = [] := by
    refine eq_nil_of_no_side hs hc ?_
    intro i hi
    obtain ⟨e, he, rfl⟩ := List.mem_map.mp hi
    exact h.unresolved e (EvidenceDb.mem_claimEvidenceForAssessment.mp he)
  obtain ⟨e, he⟩ := List.exists_mem_of_ne_nil _ h.evidence
  have hmem := EvidenceDb.mem_claimEvidenceForAssessment.mpr he
  rw [List.map_eq_nil_iff.mp hnil] at hmem
  cases hmem

end Agreement

/-- **Do the assemblies agree?** After a commit's assessment, with one rule for the
claim's type on both sides, the worker and the offline change agree with it exactly
when the evidence fits the offline assembly. -/
theorem paths_agree_iff (parseDay parseTime : String → Option Int) (rd : Readers)
    (rules candidate : ClaimTypeRules) (db db' : AssessmentDb) (claim : Claim)
    (claimScope : Scope) (r : AssessmentResult) (rule : ClaimTypeRule)
    (hrule : rules claim.claimType = some rule)
    (hcandidate : candidate claim.claimType = some rule)
    (h : assess parseDay parseTime rd rules db claim claimScope = .ok (r, db')) :
    PathsAgree parseDay parseTime (commitInput rd db rule claim claimScope)
        (workerInput rd db' rule claim) (shadowInput db' rule claim)
        (shadowHead parseDay parseTime candidate db' claim) r ↔
      ShadowFits rd db claim claimScope := by
  obtain ⟨heval, htables, hlatest⟩ := assess_ok hrule h
  have hshadow : shadowInput db' rule claim = shadowInput db rule claim := by
    simp only [shadowInput, mergedScope, htables]
  have hmem : db.claimEvidenceForAssessment claim.id = [] ↔
      db.activeEvidence claim.id = [] := by
    rw [← List.length_eq_zero_iff, ← List.length_eq_zero_iff,
      EvidenceDb.claimEvidenceForAssessment, List.length_insertionSort]
  constructor
  · intro hagree
    have hne : db.activeEvidence claim.id ≠ [] := by
      obtain ⟨w, hw, -⟩ := hagree.worker
      intro hnil
      rw [workerInput, htables, if_pos (hmem.mpr hnil)] at hw
      cases hw
    have hsame := hagree.shadow.1
    rw [hshadow] at hsame
    exact (sameInput_shadow_iff hne).mp hsame
  · intro hfits
    refine ⟨⟨commitInput rd db rule claim claimScope, ?_, SameInput.refl _, r, heval, rfl⟩,
      ?_, r, ?_, rfl⟩
    · rw [workerInput, htables, if_neg (mt hmem.mp hfits.evidence), hlatest]
      rfl
    · rw [hshadow]
      exact (sameInput_shadow_iff hfits.evidence).mpr hfits
    · have hshadowEval := (@ShadowFits.evaluate parseDay parseTime rd db rule claim
        claimScope hfits).trans heval
      simp only [shadowHead, hcandidate, hshadow, hshadowEval, bind, Except.bind, pure,
        Except.pure, if_neg (hfits.not_deferred heval)]

/-- A claim about a fact. -/
def factClaim : Claim := ⟨1, "fact", false⟩

/-- Facts need two independent groups. -/
def factRule : ClaimTypeRule :=
  ⟨.E2, ["source_assertion", "computation"], 1, 2, false, false, "static", none⟩

def factRules : ClaimTypeRules := fun claimType =>
  if claimType = "fact" then some factRule else none

theorem paths_agree_sourced : ∃ r db',
    assess (fun _ => none) (fun _ => none) plainReaders factRules ⟨sourcedDb, []⟩ factClaim
        ∅ = .ok (r, db') ∧
      PathsAgree (fun _ => none) (fun _ => none)
        (commitInput plainReaders ⟨sourcedDb, []⟩ factRule factClaim ∅)
        (workerInput plainReaders db' factRule factClaim) (shadowInput db' factRule factClaim)
        (shadowHead (fun _ => none) (fun _ => none) factRules db' factClaim) r := by
  have hone : ∀ e ∈ sourcedDb.activeEvidence 1,
      e = ⟨1, 1, .supports, "source_assertion", "a", ∅, some 1, none⟩ := by
    intro e he
    exact List.mem_singleton.mp (EvidenceDb.mem_activeEvidence.mp he).1
  have hrule : factRules factClaim.claimType = some factRule := rfl
  obtain ⟨r, db', h⟩ := @assess_of_allowed (fun _ => none) (fun _ => none) plainReaders
    factRules ⟨sourcedDb, []⟩ factClaim ∅ _ hrule (by
      intro e he
      rw [hone e (EvidenceDb.mem_supportRows.mp he).1]
      exact List.mem_cons_self)
  have hfits : ShadowFits plainReaders ⟨sourcedDb, []⟩ factClaim ∅ := by
    refine ⟨List.cons_ne_nil _ _, ?_, ?_, ?_, rfl⟩
    · intro e he e' he'
      rw [hone e he, hone e' he']
      exact .refl 1
    · intro e he v hv
      rw [hone e he] at hv
      cases hv
    · intro e _
      rfl
  exact ⟨r, db', h, (paths_agree_iff _ _ _ factRules factRules _ db' factClaim ∅ r _ hrule
    hrule h).mpr hfits⟩

/-- A sourced assertion and a computation are two groups for the commit and one for
the offline change. -/
theorem shadow_disagrees : ¬ ∀ (parseDay parseTime : String → Option Int) (rd : Readers)
    (rules candidate : ClaimTypeRules) (db db' : AssessmentDb) (claim : Claim)
    (claimScope : Scope) (r : AssessmentResult) (rule : ClaimTypeRule),
    rules claim.claimType = some rule → candidate claim.claimType = some rule →
    assess parseDay parseTime rd rules db claim claimScope = .ok (r, db') →
    PathsAgree parseDay parseTime (commitInput rd db rule claim claimScope)
      (workerInput rd db' rule claim) (shadowInput db' rule claim)
      (shadowHead parseDay parseTime candidate db' claim) r := by
  intro hall
  have hrows : ∀ e ∈ untrackedComputation.recorded.activeEvidence 1,
      e.kind ∈ ["source_assertion", "computation"] := by
    intro e he
    rcases List.mem_append.mp (EvidenceDb.mem_activeEvidence.mp he).1 with he | he
    · rw [List.mem_singleton.mp he]
      exact List.mem_cons_self
    · rw [List.mem_singleton.mp he]
      exact List.mem_cons_of_mem _ List.mem_cons_self
  have hrule : factRules factClaim.claimType = some factRule := rfl
  obtain ⟨r, db', h⟩ := @assess_of_allowed (fun _ => none) (fun _ => none) plainReaders
    factRules ⟨untrackedComputation.recorded, []⟩ factClaim ∅ _ hrule
    (fun e he => hrows e (EvidenceDb.mem_supportRows.mp he).1)
  obtain ⟨-, htables, -⟩ := assess_ok hrule h
  have hsame := (hall _ _ _ factRules factRules _ db' factClaim ∅ r _ hrule hrule h).shadow.1
  have hinput : ∀ rule, shadowInput db' rule factClaim =
      shadowInput ⟨untrackedComputation.recorded, []⟩ rule factClaim := by
    intro rule
    simp only [shadowInput, mergedScope, htables]
  rw [hinput] at hsame
  have hfits := (@sameInput_shadow_iff plainReaders ⟨untrackedComputation.recorded, []⟩ _
    factClaim ∅ (List.cons_ne_nil _ _)).mp hsame
  exact hfits.oneGroup _ List.mem_cons_self _ (List.mem_cons_of_mem _ List.mem_cons_self)

end Noezema.Memory
