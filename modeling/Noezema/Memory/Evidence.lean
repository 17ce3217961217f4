import Noezema.Memory.SourceGraph
import Noezema.Memory.Environment

/-! # Evidence

The tables behind an assessment and the assembly of the grouping input: which
evidence of a claim counts, which sources and parents enter the graph, and which
group, relation and resolution each item is given.
-/

namespace Noezema.Memory

open Noezema.Lib

abbrev EvidenceId := Nat

/-- A row of `evidence`. -/
structure Evidence where
  id : EvidenceId
  claimId : ClaimId
  relation : EvidenceRelation
  kind : String
  identityHash : String
  scope : Scope
  sourceId : Option SourceId
  environmentManifestId : Option ManifestId

/-- A row of `sources`. -/
structure Source where
  id : SourceId
  canonicalUri : Option String
  contentHash : Option String
  parentSourceId : Option SourceId
deriving DecidableEq

/-- A row of `evidence_link_revocations`; `cancelled` is `cancelled_at IS NOT NULL`. -/
structure LinkRevocation where
  evidenceId : EvidenceId
  cancelled : Bool
deriving DecidableEq

/-- A row of `counterevidence_resolutions`. -/
structure CounterResolution where
  evidenceId : EvidenceId
  valid : Bool
deriving DecidableEq

/-- The evidence tables. A source is registered before evidence names it, and no
source is ever deleted. -/
structure EvidenceDb where
  evidence : List Evidence
  revocations : List LinkRevocation
  sources : List Source
  edges : List SourceGraphEdge
  corrections : List SourceGraphCorrection
  manifests : List EnvManifestView
  resolutions : List CounterResolution
  registered : ∀ e ∈ evidence, ∀ s, e.sourceId = some s → s ∈ sources.map (·.id)

/-- The readers the assembly is given. -/
structure Readers where
  text : TextReader
  digest : MethodDigest
  /-- `uuid.UUID(value)`, for a string that is one. -/
  parseUuid : String → Option SourceId

namespace EvidenceDb

/-- No row names a source that is not there. -/
theorem registered_nil : ∀ e ∈ ([] : List Evidence), ∀ s, e.sourceId = some s →
    s ∈ ([] : List Source).map (·.id) := nofun

/-- A row whose source is registered may be added. -/
theorem registered_append (db : EvidenceDb) (e : Evidence)
    (h : ∀ s, e.sourceId = some s → s ∈ db.sources.map (·.id)) :
    ∀ e' ∈ db.evidence ++ [e], ∀ s, e'.sourceId = some s → s ∈ db.sources.map (·.id) := by
  intro e' he' s hs
  rcases List.mem_append.mp he' with he' | he'
  · exact db.registered e' he' s hs
  · rw [List.mem_singleton.mp he'] at hs
    exact h s hs

/-- An uncancelled revocation withdraws the evidence. -/
def revoked (db : EvidenceDb) (e : EvidenceId) : Bool :=
  db.revocations.any fun r => r.evidenceId = e ∧ !r.cancelled

/-- The claim's evidence rows that no revocation in force withdraws. -/
def activeEvidence (db : EvidenceDb) (c : ClaimId) : List Evidence :=
  db.evidence.filter fun e => e.claimId = c ∧ !db.revoked e.id

/-- `claim_evidence_for_assessment`. -/
def claimEvidenceForAssessment (db : EvidenceDb) (c : ClaimId) : List Evidence :=
  (db.activeEvidence c).insertionSort fun a b => a.id ≤ b.id

end EvidenceDb

/-! ## Value attribution -/

section Attribution

variable (parseUuid : String → Option SourceId)

/-- `VALUE_ATTRIBUTION_SCHEMA`. -/
def valueAttributionSchema : String := "host-value-attribution-v1"

/-- The recorded origin of an evidence row's value: its source and another source
as the parent. -/
def attribution (e : Evidence) : Option (SourceId × SourceId) :=
  match e.sourceId, e.scope.lookup "value_attribution" with
  | some s, some (.obj fields) =>
    if (fields.get "schema").bind Json.text = some valueAttributionSchema then
      match ((fields.get "parent_source_id").bind Json.text).bind parseUuid with
      | some p => if p = s then none else some (s, p)
      | none => none
    else none
  | _, _ => none

/-- `effective_parent`: the recorded parent of a source, when the rows name one
only. -/
def effectiveParent (evs : List Evidence) (s : SourceId) : Option SourceId :=
  match (((evs.filterMap (attribution parseUuid)).filter fun a => a.1 = s).map
      (·.2)).dedup with
  | [p] => some p
  | _ => none

end Attribution

/-! ## The grouping input -/

namespace EvidenceDb

/-- The sources of the active evidence: the members of the snapshot. -/
def memberIds (db : EvidenceDb) (c : ClaimId) : List SourceId :=
  ((db.activeEvidence c).filterMap (·.sourceId)).dedup.insertionSort (· ≤ ·)

/-- Source rows by id. -/
def sourceRows (db : EvidenceDb) (ids : List SourceId) : List Source :=
  (db.sources.filter fun s => s.id ∈ ids).insertionSort fun a b => a.id ≤ b.id

variable (rd : Readers)

/-- Parents of members, by pointer or by record, that are no members. -/
def parentIds (db : EvidenceDb) (c : ClaimId) : List SourceId :=
  let evs := db.activeEvidence c
  let members := db.memberIds c
  let pointers := (db.sourceRows members).filterMap (·.parentSourceId)
  let recorded := members.filterMap (effectiveParent rd.parseUuid evs)
  ((pointers ++ recorded).filter fun p => p ∉ members).dedup.insertionSort (· ≤ ·)

/-- The ids between which edges and corrections are read. -/
def nodeIds (db : EvidenceDb) (c : ClaimId) : List SourceId :=
  db.memberIds c ++ db.parentIds rd c

/-- `grouping_arguments` of one source: the recorded parent goes before the page
pointer, and production passes no sample text. -/
def groupingInput (db : EvidenceDb) (c : ClaimId) (s : Source) : SourceGraphInput where
  sourceId := s.id
  canonicalUri := s.canonicalUri
  contentHash := s.contentHash
  sampleText := none
  parentSourceId :=
    (effectiveParent rd.parseUuid (db.activeEvidence c) s.id).or s.parentSourceId

/-- `load_source_graph_assembly` and `grouping_arguments`. -/
def sourceGraph (db : EvidenceDb) (c : ClaimId) : SourceGraph where
  sources := (db.sourceRows (db.memberIds c) ++ db.sourceRows (db.parentIds rd c)).map
    (db.groupingInput rd c)
  edges := (db.edges.filter fun e =>
    e.fromId ∈ db.nodeIds rd c ∧ e.toId ∈ db.nodeIds rd c).insertionSort
      fun a b => a.edgeId ≤ b.edgeId
  corrections := (db.corrections.filter fun k =>
    k.fromId ∈ db.nodeIds rd c ∧ k.toId ∈ db.nodeIds rd c).insertionSort
      fun a b => a.correctionId ≤ b.correctionId

/-- The mapping of `build_source_independence_snapshot`: the group of each member. -/
def sourceMapping (db : EvidenceDb) (c : ClaimId) : List (SourceId × String) :=
  let groups := groupSourceGraph rd.text (db.sourceGraph rd c)
  (db.memberIds c).filterMap fun s => (groups.lookup s).map fun g => (s, g)

/-- The manifests of all evidence of the claim, revoked or not. -/
def claimManifests (db : EvidenceDb) (c : ClaimId) : List EnvManifestView :=
  let ids := (db.evidence.filter fun e => e.claimId = c).filterMap
    (·.environmentManifestId)
  db.manifests.filter fun v => v.id ∈ ids

/-- The mapping of `build_environment_independence_snapshot`. -/
def envMapping (db : EvidenceDb) (c : ClaimId) :
    List (ManifestId × String × EnvRelation) :=
  environmentMapping rd.digest (db.claimManifests c)

/-- `e.id in resolved_counter_ids`. -/
def resolved (db : EvidenceDb) (e : EvidenceId) : Bool :=
  db.resolutions.any fun r => r.valid ∧ r.evidenceId = e

/-- The group of an item's environment, the untracked one without any. -/
def environmentOf (db : EvidenceDb) (c : ClaimId) (e : Evidence) : String :=
  match e.environmentManifestId.bind fun m => (db.envMapping rd c).lookup m with
  | some (g, _) => g
  | none => untrackedGroup

/-- The independence group of an item: its source's group, else the group of its
environment. -/
def independenceGroup (db : EvidenceDb) (c : ClaimId) (e : Evidence) : String :=
  match e.sourceId.bind fun s => (db.sourceMapping rd c).lookup s with
  | some g => g
  | none => db.environmentOf rd c e

/-- The environment relation of an item. -/
def itemRelation (db : EvidenceDb) (c : ClaimId) (e : Evidence) : EnvRelation :=
  match e.environmentManifestId.bind fun m => (db.envMapping rd c).lookup m with
  | some (_, r) => r
  | none => .none

/-- One row as the rules engine sees it. -/
def evaluatedEvidence (db : EvidenceDb) (c : ClaimId) (e : Evidence) :
    EvaluatedEvidence where
  identityHash := e.identityHash
  kind := e.kind
  relation := e.relation
  scope := e.scope
  independenceGroup := db.independenceGroup rd c e
  envRelation := db.itemRelation rd c e
  resolved := db.resolved e.id

/-- The evidence list of `_assess` and of `_process_one_job`. -/
def assessmentInput (db : EvidenceDb) (c : ClaimId) : List EvaluatedEvidence :=
  (db.claimEvidenceForAssessment c).map (db.evaluatedEvidence rd c)

/-! ## Members and their groups -/

variable {rd} {db : EvidenceDb} {c : ClaimId}

theorem mem_activeEvidence {e : Evidence} :
    e ∈ db.activeEvidence c ↔
      e ∈ db.evidence ∧ e.claimId = c ∧ db.revoked e.id = false := by
  simp [activeEvidence]

theorem mem_claimEvidenceForAssessment {e : Evidence} :
    e ∈ db.claimEvidenceForAssessment c ↔ e ∈ db.activeEvidence c :=
  List.mem_insertionSort _

theorem mem_memberIds {s : SourceId} :
    s ∈ db.memberIds c ↔ ∃ e ∈ db.activeEvidence c, e.sourceId = some s := by
  rw [memberIds, List.mem_insertionSort, List.mem_dedup, List.mem_filterMap]

theorem mem_sourceRows {ids : List SourceId} {s : Source} :
    s ∈ db.sourceRows ids ↔ s ∈ db.sources ∧ s.id ∈ ids := by
  simp [sourceRows]

/-- A registered member is a node of the graph. -/
theorem mem_ids_of_member {s : SourceId} (hs : s ∈ db.memberIds c) :
    s ∈ (db.sourceGraph rd c).ids := by
  obtain ⟨e, he, hes⟩ := mem_memberIds.mp hs
  obtain ⟨row, hrow, rfl⟩ := List.mem_map.mp (db.registered e (mem_activeEvidence.mp he).1 s hes)
  refine List.mem_map.mpr ⟨db.groupingInput rd c row, List.mem_map_of_mem ?_, rfl⟩
  exact List.mem_append_left _ (mem_sourceRows.mpr ⟨hrow, hs⟩)

theorem lookup_filterMap {f : SourceId → Option String} (l : List SourceId) (s : SourceId) :
    (l.filterMap fun s => (f s).map fun g => (s, g)).lookup s =
      if s ∈ l then f s else none := by
  induction l with
  | nil => rfl
  | cons t rest ih =>
    by_cases hst : s = t
    · subst hst
      cases hf : f s with
      | none => simp [hf, ih]
      | some g => simp [hf]
    · cases hf : f t with
      | none => simp [hf, ih, hst]
      | some g =>
        have hbeq : (s == t) = false := beq_false_of_ne hst
        simp [hf, ih, hst, List.lookup_cons, hbeq]

/-- The group of a member's item is its source's group. -/
theorem independenceGroup_member {e : Evidence} {s : SourceId}
    (he : e ∈ db.activeEvidence c) (hs : e.sourceId = some s) :
    some (db.independenceGroup rd c e) =
      (groupSourceGraph rd.text (db.sourceGraph rd c)).lookup s := by
  have hmem : s ∈ db.memberIds c := mem_memberIds.mpr ⟨e, he, hs⟩
  obtain ⟨n, hn⟩ := groupSourceGraph_lookup rd.text _ (@mem_ids_of_member rd db c s hmem)
  have hlookup : (db.sourceMapping rd c).lookup s = some ("g" ++ Nat.repr n) := by
    rw [sourceMapping, lookup_filterMap, if_pos hmem, hn]
  rw [independenceGroup, hs, Option.bind_some, hlookup, hn]

/-- The group of an item without a source is its environment's. -/
theorem independenceGroup_sourceless {e : Evidence} (hs : e.sourceId = none) :
    db.independenceGroup rd c e = db.environmentOf rd c e := by
  rw [independenceGroup, hs, Option.bind_none]

/-- **Two sourced items share a group exactly when links connect their sources.** -/
theorem independenceGroup_eq_iff {e e' : Evidence} {s s' : SourceId}
    (he : e ∈ db.activeEvidence c) (hs : e.sourceId = some s)
    (he' : e' ∈ db.activeEvidence c) (hs' : e'.sourceId = some s') :
    db.independenceGroup rd c e = db.independenceGroup rd c e' ↔
      Relation.EqvGen (SourceGraph.Linked rd.text (db.sourceGraph rd c)) s s' := by
  rw [← Option.some_inj, independenceGroup_member he hs, independenceGroup_member he' hs']
  exact groupSourceGraph_eq_iff rd.text _
    (mem_ids_of_member (mem_memberIds.mpr ⟨e, he, hs⟩))
    (mem_ids_of_member (mem_memberIds.mpr ⟨e', he', hs'⟩))

/-! ## Environments -/

theorem lookup_map_views (g : EnvManifestView → String × EnvRelation)
    (views : List EnvManifestView) (m : ManifestId) :
    (views.map fun v => (v.id, g v)).lookup m = (views.find? fun v => v.id = m).map g := by
  induction views with
  | nil => rfl
  | cons v rest ih =>
    by_cases h : m = v.id
    · simp [h]
    · have hbeq : (m == v.id) = false := beq_false_of_ne h
      simp [List.lookup_cons, hbeq, ih, Ne.symm h]

/-- The manifest row an item names. -/
def manifestOf (db : EvidenceDb) (e : Evidence) : Option EnvManifestView :=
  e.environmentManifestId.bind fun m => db.manifests.find? fun v => v.id = m

/-- What the mapping says of an item goes by the item's own manifest row. -/
theorem envMapping_lookup {e : Evidence} (he : e ∈ db.evidence) (hc : e.claimId = c) :
    (e.environmentManifestId.bind fun m => (db.envMapping rd c).lookup m) =
      (db.manifestOf e).map fun v => (environmentGroup rd.digest v,
        (strongestPairRelation rd.digest v
          ((db.claimManifests c).filter fun o => o.id ≠ v.id)).1) := by
  cases hm : e.environmentManifestId with
  | none => simp [manifestOf, hm]
  | some m =>
    have hin : m ∈ (db.evidence.filter fun e => e.claimId = c).filterMap
        (·.environmentManifestId) :=
      List.mem_filterMap.mpr ⟨e, List.mem_filter.mpr ⟨he, decide_eq_true hc⟩, hm⟩
    have hfind : (db.claimManifests c).find? (fun v => v.id = m) =
        db.manifests.find? fun v => v.id = m := by
      rw [claimManifests, List.find?_filter]
      congr 1
      funext v
      by_cases hv : v.id = m
      · rw [hv]
        simp [hin]
      · simp [hv]
    simp only [manifestOf, hm, Option.bind_some, envMapping, environmentMapping]
    rw [lookup_map_views, hfind]

/-- The environment group goes by the item's own manifest only. -/
theorem environmentOf_eq {e : Evidence} (he : e ∈ db.evidence) (hc : e.claimId = c) :
    db.environmentOf rd c e =
      (db.manifestOf e).elim untrackedGroup (environmentGroup rd.digest) := by
  rw [environmentOf, envMapping_lookup he hc]
  cases db.manifestOf e <;> rfl

/-- **An item has no relation** exactly when the claim's evidence names no other
environment beside its own. -/
theorem itemRelation_none_iff {e : Evidence} (he : e ∈ db.evidence) (hc : e.claimId = c) :
    db.itemRelation rd c e = .none ↔
      ∀ v, db.manifestOf e = some v → ∀ o ∈ db.claimManifests c, o.id = v.id := by
  rw [itemRelation, envMapping_lookup he hc]
  cases db.manifestOf e with
  | none => simp
  | some v =>
    simp only [Option.map_some, strongestPairRelation_none_iff, List.filter_eq_nil_iff,
      Option.some_inj, forall_eq', ne_eq, decide_not, Bool.not_eq_true',
      decide_eq_false_iff_not, not_not]

/-- No environment, or one without any lineage. -/
def untrackedEnvironment (db : EvidenceDb) (e : Evidence) : Bool :=
  (db.manifestOf e).all (·.untracked)

/-- **The untracked group** is for the items with no tracked environment. -/
theorem environmentOf_untracked_iff {e : Evidence} (he : e ∈ db.evidence)
    (hc : e.claimId = c) :
    db.environmentOf rd c e = untrackedGroup ↔ db.untrackedEnvironment e := by
  rw [environmentOf_eq he hc, untrackedEnvironment]
  cases db.manifestOf e with
  | none => simp
  | some v => simpa using environmentGroup_untracked_iff rd.digest v

end EvidenceDb

end Noezema.Memory
