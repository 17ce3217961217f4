import Noezema.Memory.Evidence

/-! # Unknown lineage

What one more supporting item without a known provenance does to the number of
independence groups. The items of a claim fall into the classes of their linked
sources and into the groups of their environments; an untracked item is one of a
group of its own kind, which counts like any other.
-/

namespace Noezema.Memory

open Relation Noezema.Lib

/-- The number of distinct groups that `evaluate` counts. -/
def groupCount (evs : List EvaluatedEvidence) : Nat := (groupsOf (supportOf evs)).length

section NoIndependence

variable (parseDay parseTime : String → Option Int)

/-- The second evidence list shows no more independence than the first: no more
groups, no claim that becomes supported for having enough, no grade that is lifted
for having many. -/
structure NoMoreIndependence (before after : List EvaluatedEvidence) : Prop where
  groups : groupCount after ≤ groupCount before
  unsupported : ∀ claimType rule claimScope hasAsOf r r',
    evaluate parseDay parseTime claimType rule claimScope before hasAsOf = .ok r →
    evaluate parseDay parseTime claimType rule claimScope after hasAsOf = .ok r' →
    r.reasons = ["insufficient_independence"] → r'.epistemicStatus ≠ .supported
  unlifted : ∀ claimType rule claimScope hasAsOf r r',
    evaluate parseDay parseTime claimType rule claimScope before hasAsOf = .ok r →
    evaluate parseDay parseTime claimType rule claimScope after hasAsOf = .ok r' →
    r.epistemicStatus = .supported → r'.epistemicStatus = .supported →
    r.grade = rule.minGradeForSupported → r'.grade = rule.minGradeForSupported

variable {parseDay parseTime}

/-- Status and grade follow the count. -/
theorem noMoreIndependence_iff {before after : List EvaluatedEvidence} :
    NoMoreIndependence parseDay parseTime before after ↔
      groupCount after ≤ groupCount before := by
  constructor
  · exact NoMoreIndependence.groups
  · intro hle
    refine ⟨hle, ?_, ?_⟩
    · intro claimType rule claimScope hasAsOf r r' h h' hr hs'
      have hfew := groups_of_insufficient h hr
      have hmany := (groups_of_supported h' hs').1
      simp only [groupCount] at hle
      omega
    · intro claimType rule claimScope hasAsOf r r' h h' hs hs' hg
      have hgrade := (groups_of_supported h hs).2
      have hgrade' := (groups_of_supported h' hs').2
      rw [hgrade', if_neg]
      intro hlift
      simp only [groupCount] at hle
      rw [hgrade, if_pos ⟨by omega, hlift.2⟩] at hg
      exact EffectiveGrade.lift_ne hlift.2 hg

end NoIndependence

/-! ## What the groups count -/

namespace EvidenceDb

/-- The supporting rows of a claim. -/
def supportRows (db : EvidenceDb) (c : ClaimId) : List Evidence :=
  (db.activeEvidence c).filter fun e => e.relation = .supports

/-- Their sources. -/
def supportSources (db : EvidenceDb) (c : ClaimId) : Finset SourceId :=
  ((db.supportRows c).filterMap (·.sourceId)).toFinset

variable (rd : Readers)

/-- The environment groups of those without a source. -/
def supportEnvironments (db : EvidenceDb) (c : ClaimId) : Finset String :=
  (((db.supportRows c).filter fun e => e.sourceId = none).map
    (db.environmentOf rd c)).toFinset

/-- The links between the sources of a claim. -/
def Linked (db : EvidenceDb) (c : ClaimId) : SourceId → SourceId → Prop :=
  SourceGraph.Linked rd.text (db.sourceGraph rd c)

variable {rd} {db : EvidenceDb} {c : ClaimId}

theorem mem_supportRows {e : Evidence} :
    e ∈ db.supportRows c ↔ e ∈ db.activeEvidence c ∧ e.relation = .supports := by
  simp [supportRows]

theorem mem_supportSources {s : SourceId} :
    s ∈ db.supportSources c ↔ ∃ e ∈ db.supportRows c, e.sourceId = some s := by
  simp [supportSources]

theorem mem_supportEnvironments {g : String} :
    g ∈ db.supportEnvironments rd c ↔
      ∃ e ∈ db.supportRows c, e.sourceId = none ∧ db.environmentOf rd c e = g := by
  simp [supportEnvironments, and_assoc]

/-- The groups of the engine are the groups of the supporting rows. -/
theorem mem_groups {g : String} :
    g ∈ groupsOf (supportOf (db.assessmentInput rd c)) ↔
      ∃ e ∈ db.supportRows c, db.independenceGroup rd c e = g := by
  simp only [groupsOf, List.mem_dedup, List.mem_map, supportOf, List.mem_filter,
    assessmentInput, mem_claimEvidenceForAssessment, decide_eq_true_eq]
  constructor
  · rintro ⟨_, ⟨⟨e, he, rfl⟩, hrel⟩, rfl⟩
    exact ⟨e, mem_supportRows.mpr ⟨he, hrel⟩, rfl⟩
  · rintro ⟨e, he, rfl⟩
    obtain ⟨hact, hrel⟩ := mem_supportRows.mp he
    exact ⟨_, ⟨⟨e, hact, rfl⟩, hrel⟩, rfl⟩

/-- A source's group. -/
def sourceName (rd : Readers) (db : EvidenceDb) (c : ClaimId) (s : SourceId) : String :=
  ((groupSourceGraph rd.text (db.sourceGraph rd c)).lookup s).getD ""

theorem sourceName_eq {e : Evidence} {s : SourceId} (he : e ∈ db.activeEvidence c)
    (hs : e.sourceId = some s) : db.independenceGroup rd c e = sourceName rd db c s := by
  rw [sourceName, ← independenceGroup_member he hs, Option.getD_some]

/-- No source group is an environment group. -/
theorem sourceName_ne {s : SourceId} {e : Evidence} (hs : s ∈ db.memberIds c)
    (he : e ∈ db.activeEvidence c) : sourceName rd db c s ≠ db.environmentOf rd c e := by
  obtain ⟨n, hn⟩ := groupSourceGraph_lookup rd.text _ (@mem_ids_of_member rd db c s hs)
  have hname : sourceName rd db c s = "g" ++ Nat.repr n := by
    rw [sourceName, hn, Option.getD_some]
  obtain ⟨hin, hc, -⟩ := mem_activeEvidence.mp he
  rw [hname, environmentOf_eq hin hc]
  -- the first letters differ
  have hfirst : ∀ t : String, "g" ++ Nat.repr n ≠ "envgrp:" ++ t := by
    intro t h
    have hlist := congrArg String.toList h
    simp at hlist
  cases db.manifestOf e with
  | none => exact hfirst "untracked"
  | some v =>
    show _ ≠ environmentGroup rd.digest v
    rw [environmentGroup]
    split
    · exact hfirst "untracked"
    · exact hfirst _

/-- **What the engine counts**: the classes of the linked sources and the groups of
the environments. -/
theorem groupCount_eq (rd : Readers) (db : EvidenceDb) (c : ClaimId) :
    groupCount (db.assessmentInput rd c) =
      classCount (db.Linked rd c) (db.supportSources c) +
        (db.supportEnvironments rd c).card := by
  have hsplit : (groupsOf (supportOf (db.assessmentInput rd c))).toFinset =
      (db.supportSources c).image (sourceName rd db c) ∪ db.supportEnvironments rd c := by
    ext g
    rw [List.mem_toFinset, mem_groups, Finset.mem_union, Finset.mem_image,
      mem_supportEnvironments]
    constructor
    · rintro ⟨e, he, rfl⟩
      cases hs : e.sourceId with
      | none => exact .inr ⟨e, he, hs, (independenceGroup_sourceless hs).symm⟩
      | some s =>
        exact .inl ⟨s, mem_supportSources.mpr ⟨e, he, hs⟩,
          (sourceName_eq (mem_supportRows.mp he).1 hs).symm⟩
    · rintro (⟨s, hs, rfl⟩ | ⟨e, he, hs, rfl⟩)
      · obtain ⟨e, he, hes⟩ := mem_supportSources.mp hs
        exact ⟨e, he, sourceName_eq (mem_supportRows.mp he).1 hes⟩
      · exact ⟨e, he, independenceGroup_sourceless hs⟩
  have hdisjoint : Disjoint ((db.supportSources c).image (sourceName rd db c))
      (db.supportEnvironments rd c) := by
    rw [Finset.disjoint_left]
    intro g hg hg'
    obtain ⟨s, hs, rfl⟩ := Finset.mem_image.mp hg
    obtain ⟨e, he, -, heq⟩ := mem_supportEnvironments.mp hg'
    obtain ⟨e', he', hs'⟩ := mem_supportSources.mp hs
    exact sourceName_ne (mem_memberIds.mpr ⟨e', (mem_supportRows.mp he').1, hs'⟩)
      (mem_supportRows.mp he).1 heq.symm
  have hclasses : ((db.supportSources c).image (sourceName rd db c)).card =
      classCount (db.Linked rd c) (db.supportSources c) := by
    refine card_image_eq_classCount fun a ha b hb => ?_
    obtain ⟨e, he, hes⟩ := mem_supportSources.mp ha
    obtain ⟨e', he', hes'⟩ := mem_supportSources.mp hb
    rw [← sourceName_eq (mem_supportRows.mp he).1 hes,
      ← sourceName_eq (mem_supportRows.mp he').1 hes']
    exact independenceGroup_eq_iff (mem_supportRows.mp he).1 hes (mem_supportRows.mp he').1
      hes'
  have hnodup : (groupsOf (supportOf (db.assessmentInput rd c))).Nodup :=
    List.nodup_dedup _
  rw [groupCount, ← List.toFinset_card_of_nodup hnodup, hsplit,
    Finset.card_union_of_disjoint hdisjoint, hclasses]

/-! ## One more row -/

/-- `db.add(ev)`: a new evidence row, its source registered before. -/
def record (db : EvidenceDb) (e : Evidence)
    (h : ∀ s, e.sourceId = some s → s ∈ db.sources.map (·.id)) : EvidenceDb :=
  { db with
    evidence := db.evidence ++ [e]
    registered := db.registered_append e h }

end EvidenceDb

/-- A new supporting row of a claim whose provenance is untracked: it has neither a
source nor a tracked environment, or its source has no lineage. -/
structure UntrackedSupport (rd : Readers) (db : EvidenceDb) (c : ClaimId) where
  row : Evidence
  claim : row.claimId = c
  supports : row.relation = .supports
  inForce : db.revoked row.id = false
  registered : ∀ s, row.sourceId = some s → s ∈ db.sources.map (·.id)
  untracked : match row.sourceId with
    | none => db.untrackedEnvironment row = true
    | some s => ∃ src ∈ db.sources, src.id = s ∧
        (db.groupingInput rd c src).unknown rd.text = true

namespace UntrackedSupport

variable {rd : Readers} {db : EvidenceDb} {c : ClaimId}

/-- The tables with the row. -/
def recorded (n : UntrackedSupport rd db c) : EvidenceDb := db.record n.row n.registered

theorem recorded_active (n : UntrackedSupport rd db c) :
    n.recorded.activeEvidence c = db.activeEvidence c ++ [n.row] := by
  have hforce : (!n.recorded.revoked n.row.id) = true := by
    show (!db.revoked n.row.id) = true
    rw [n.inForce, Bool.not_false]
  show (db.evidence ++ [n.row]).filter _ = _
  rw [List.filter_append]
  congr 1
  exact List.filter_eq_self.mpr fun e he => by
    rw [List.mem_singleton.mp he]
    exact decide_eq_true ⟨n.claim, hforce⟩

theorem recorded_supportRows (n : UntrackedSupport rd db c) :
    n.recorded.supportRows c = db.supportRows c ++ [n.row] := by
  rw [EvidenceDb.supportRows, recorded_active, List.filter_append]
  congr 1
  exact List.filter_eq_self.mpr fun e he => by
    rw [List.mem_singleton.mp he]
    exact decide_eq_true n.supports

/-- The environment group of an item does not move. -/
theorem recorded_environmentOf (n : UntrackedSupport rd db c) {e : Evidence}
    (he : e ∈ db.activeEvidence c) :
    n.recorded.environmentOf rd c e = db.environmentOf rd c e := by
  obtain ⟨hin, hc, -⟩ := EvidenceDb.mem_activeEvidence.mp he
  have hin' : e ∈ n.recorded.evidence := List.mem_append_left _ hin
  rw [EvidenceDb.environmentOf_eq hin' hc, EvidenceDb.environmentOf_eq hin hc]
  rfl

theorem recorded_environments (n : UntrackedSupport rd db c) (g : String) :
    g ∈ n.recorded.supportEnvironments rd c ↔
      g ∈ db.supportEnvironments rd c ∨ n.row.sourceId = none ∧ g = untrackedGroup := by
  have hin : n.row ∈ n.recorded.evidence := List.mem_append_right _ List.mem_cons_self
  simp only [EvidenceDb.mem_supportEnvironments, recorded_supportRows, List.mem_append,
    List.mem_singleton]
  constructor
  · rintro ⟨e, he | rfl, hs, hg⟩
    · rw [n.recorded_environmentOf (EvidenceDb.mem_supportRows.mp he).1] at hg
      exact .inl ⟨e, he, hs, hg⟩
    · have hun := n.untracked
      rw [hs] at hun
      rw [(EvidenceDb.environmentOf_untracked_iff hin n.claim).mpr hun] at hg
      exact .inr ⟨hs, hg.symm⟩
  · rintro (⟨e, he, hs, hg⟩ | ⟨hs, hg⟩)
    · rw [← n.recorded_environmentOf (EvidenceDb.mem_supportRows.mp he).1] at hg
      exact ⟨e, .inl he, hs, hg⟩
    · have hun := n.untracked
      rw [hs] at hun
      exact ⟨n.row, .inr rfl, hs,
        ((EvidenceDb.environmentOf_untracked_iff hin n.claim).mpr hun).trans hg.symm⟩

theorem recorded_sources (n : UntrackedSupport rd db c) (s : SourceId) :
    s ∈ n.recorded.supportSources c ↔
      s ∈ db.supportSources c ∨ n.row.sourceId = some s := by
  simp only [EvidenceDb.mem_supportSources, recorded_supportRows, List.mem_append,
    List.mem_singleton]
  constructor
  · rintro ⟨e, he | rfl, hs⟩
    · exact .inl ⟨e, he, hs⟩
    · exact .inr hs
  · rintro (⟨e, he, hs⟩ | hs)
    · exact ⟨e, .inl he, hs⟩
    · exact ⟨n.row, .inr rfl, hs⟩

/-- A row without a value attribution names no effective parent. -/
theorem recorded_effectiveParent (n : UntrackedSupport rd db c)
    (hplain : attribution rd.parseUuid n.row = none) (s : SourceId) :
    effectiveParent rd.parseUuid (n.recorded.activeEvidence c) s =
      effectiveParent rd.parseUuid (db.activeEvidence c) s := by
  rw [recorded_active]
  simp [effectiveParent, hplain]

/-- A row without a source leaves the graph alone. -/
theorem recorded_sourceGraph (n : UntrackedSupport rd db c) (hs : n.row.sourceId = none) :
    n.recorded.sourceGraph rd c = db.sourceGraph rd c := by
  have hmem : n.recorded.memberIds c = db.memberIds c := by
    rw [EvidenceDb.memberIds, recorded_active, List.filterMap_append]
    simp [hs, EvidenceDb.memberIds]
  have hparent := n.recorded_effectiveParent (by simp [attribution, hs])
  have hrows : ∀ ids, n.recorded.sourceRows ids = db.sourceRows ids := fun _ => rfl
  have hids : n.recorded.parentIds rd c = db.parentIds rd c := by
    simp only [EvidenceDb.parentIds, hmem, hrows]
    rw [funext hparent]
  have hinput : n.recorded.groupingInput rd c = db.groupingInput rd c := by
    funext src
    simp only [EvidenceDb.groupingInput, hparent]
  simp only [EvidenceDb.sourceGraph, EvidenceDb.nodeIds, hmem, hids, hrows, hinput]
  rfl

/-- When the new row shows no new independence: another untracked item supports the
claim already; or links tie its source to a supporting one and the supporting
sources fall into no more classes than before, or they fall into fewer. -/
def Absorbed (n : UntrackedSupport rd db c) : Prop :=
  match n.row.sourceId with
  | none => ∃ e ∈ db.supportRows c, e.sourceId = none ∧ db.untrackedEnvironment e = true
  | some s =>
    (∃ t ∈ db.supportSources c, EqvGen (n.recorded.Linked rd c) s t) ∧
        classCount (n.recorded.Linked rd c) (db.supportSources c) ≤
          classCount (db.Linked rd c) (db.supportSources c) ∨
      classCount (n.recorded.Linked rd c) (db.supportSources c) <
        classCount (db.Linked rd c) (db.supportSources c)

/-- An item without a source adds its group, unless it is there. -/
theorem groupCount_sourceless (n : UntrackedSupport rd db c) (hs : n.row.sourceId = none) :
    groupCount (n.recorded.assessmentInput rd c) ≤
        groupCount (db.assessmentInput rd c) ↔
      ∃ e ∈ db.supportRows c, e.sourceId = none ∧ db.untrackedEnvironment e = true := by
  have hsources : n.recorded.supportSources c = db.supportSources c := by
    ext s
    simp [n.recorded_sources, hs]
  have henvs : n.recorded.supportEnvironments rd c =
      insert untrackedGroup (db.supportEnvironments rd c) := by
    ext g
    rw [n.recorded_environments, Finset.mem_insert]
    simp [hs, or_comm]
  have hlinked : n.recorded.Linked rd c = db.Linked rd c := by
    rw [EvidenceDb.Linked, n.recorded_sourceGraph hs]
    rfl
  have hmem : untrackedGroup ∈ db.supportEnvironments rd c ↔
      ∃ e ∈ db.supportRows c, e.sourceId = none ∧ db.untrackedEnvironment e = true := by
    rw [EvidenceDb.mem_supportEnvironments]
    refine exists_congr fun e => and_congr_right fun he => and_congr_right fun _ => ?_
    obtain ⟨hin, hc, -⟩ := EvidenceDb.mem_activeEvidence.mp (EvidenceDb.mem_supportRows.mp he).1
    exact EvidenceDb.environmentOf_untracked_iff hin hc
  rw [EvidenceDb.groupCount_eq, EvidenceDb.groupCount_eq, hsources, henvs, hlinked,
    Finset.card_insert_eq_ite, ← hmem]
  by_cases h : untrackedGroup ∈ db.supportEnvironments rd c
  · simp [h]
  · simp [h]

/-- An item with a source adds a class, unless links absorb it. -/
theorem groupCount_sourced (n : UntrackedSupport rd db c) {s : SourceId}
    (hs : n.row.sourceId = some s) :
    groupCount (n.recorded.assessmentInput rd c) ≤
        groupCount (db.assessmentInput rd c) ↔
      (∃ t ∈ db.supportSources c, EqvGen (n.recorded.Linked rd c) s t) ∧
          classCount (n.recorded.Linked rd c) (db.supportSources c) ≤
            classCount (db.Linked rd c) (db.supportSources c) ∨
        classCount (n.recorded.Linked rd c) (db.supportSources c) <
          classCount (db.Linked rd c) (db.supportSources c) := by
  have hsources : n.recorded.supportSources c = insert s (db.supportSources c) := by
    ext t
    rw [n.recorded_sources, Finset.mem_insert, hs, Option.some_inj, or_comm]
    exact or_congr_left eq_comm
  have henvs : n.recorded.supportEnvironments rd c = db.supportEnvironments rd c := by
    ext g
    rw [n.recorded_environments]
    simp [hs]
  rw [EvidenceDb.groupCount_eq, EvidenceDb.groupCount_eq, hsources, henvs,
    Nat.add_le_add_iff_right, classCount_insert_le_iff]

/-! ## Links that only grow -/

/-- The node ids of the graph are those of the loaded rows. -/
theorem mem_graph_sources {db : EvidenceDb} {i : SourceGraphInput} :
    i ∈ (db.sourceGraph rd c).sources ↔
      ∃ src ∈ db.sources, src.id ∈ db.nodeIds rd c ∧ db.groupingInput rd c src = i := by
  simp only [EvidenceDb.sourceGraph, List.mem_map, List.mem_append,
    EvidenceDb.mem_sourceRows, EvidenceDb.nodeIds]
  constructor
  · rintro ⟨src, ⟨hin, hid⟩ | ⟨hin, hid⟩, rfl⟩
    · exact ⟨src, hin, .inl hid, rfl⟩
    · exact ⟨src, hin, .inr hid, rfl⟩
  · rintro ⟨src, hin, hid | hid, rfl⟩
    · exact ⟨src, .inl ⟨hin, hid⟩, rfl⟩
    · exact ⟨src, .inr ⟨hin, hid⟩, rfl⟩

theorem mem_nodeIds {db : EvidenceDb} {p : SourceId} :
    p ∈ db.nodeIds rd c ↔ p ∈ db.memberIds c ∨
      ∃ m ∈ db.memberIds c, (∃ src ∈ db.sources, src.id = m ∧ src.parentSourceId = some p) ∨
        effectiveParent rd.parseUuid (db.activeEvidence c) m = some p := by
  simp only [EvidenceDb.nodeIds, EvidenceDb.parentIds, List.mem_append,
    List.mem_insertionSort, List.mem_dedup, List.mem_filter, List.mem_filterMap,
    EvidenceDb.mem_sourceRows, decide_eq_true_eq]
  by_cases hp : p ∈ db.memberIds c
  · simp [hp]
  · simp only [hp, not_false_eq_true, and_true, false_or]
    constructor
    · rintro (⟨src, ⟨hin, hid⟩, hpar⟩ | ⟨m, hm, heff⟩)
      · exact ⟨src.id, hid, .inl ⟨src, hin, rfl, hpar⟩⟩
      · exact ⟨m, hm, .inr heff⟩
    · rintro ⟨m, hm, ⟨src, hin, rfl, hpar⟩ | heff⟩
      · exact .inl ⟨src, ⟨hin, hm⟩, hpar⟩
      · exact .inr ⟨m, hm, heff⟩

theorem recorded_nodeIds (n : UntrackedSupport rd db c)
    (hplain : attribution rd.parseUuid n.row = none) {p : SourceId}
    (hp : p ∈ db.nodeIds rd c) : p ∈ n.recorded.nodeIds rd c := by
  have hmem : ∀ m ∈ db.memberIds c, m ∈ n.recorded.memberIds c := by
    intro m hm
    obtain ⟨e, he, hs⟩ := EvidenceDb.mem_memberIds.mp hm
    refine EvidenceDb.mem_memberIds.mpr ⟨e, ?_, hs⟩
    rw [recorded_active]
    exact List.mem_append_left _ he
  rw [mem_nodeIds] at hp ⊢
  rcases hp with hp | ⟨m, hm, hp | hp⟩
  · exact .inl (hmem p hp)
  · exact .inr ⟨m, hmem m hm, .inl hp⟩
  · rw [← n.recorded_effectiveParent hplain] at hp
    exact .inr ⟨m, hmem m hm, .inr hp⟩

/-- Between the old nodes no correction is new. -/
theorem recorded_splits (n : UntrackedSupport rd db c)
    (hplain : attribution rd.parseUuid n.row = none) {a b : SourceId}
    (ha : a ∈ db.nodeIds rd c) (hb : b ∈ db.nodeIds rd c) :
    (n.recorded.sourceGraph rd c).splits a b = (db.sourceGraph rd c).splits a b := by
  have ha' := n.recorded_nodeIds hplain ha
  have hb' := n.recorded_nodeIds hplain hb
  rw [Bool.eq_iff_iff]
  simp only [SourceGraph.splits, List.any_eq_true, EvidenceDb.sourceGraph,
    List.mem_insertionSort, List.mem_filter, decide_eq_true_eq]
  constructor
  · rintro ⟨k, ⟨hin, -⟩, hv, hk, hpair⟩
    refine ⟨k, ⟨hin, ?_⟩, hv, hk, hpair⟩
    rcases hpair with ⟨rfl, rfl⟩ | ⟨rfl, rfl⟩
    · exact ⟨ha, hb⟩
    · exact ⟨hb, ha⟩
  · rintro ⟨k, ⟨hin, -⟩, hv, hk, hpair⟩
    refine ⟨k, ⟨hin, ?_⟩, hv, hk, hpair⟩
    rcases hpair with ⟨rfl, rfl⟩ | ⟨rfl, rfl⟩
    · exact ⟨ha', hb'⟩
    · exact ⟨hb', ha'⟩

/-- A row without a value attribution removes no link. -/
theorem recorded_linked (n : UntrackedSupport rd db c)
    (hplain : attribution rd.parseUuid n.row = none) {a b : SourceId}
    (h : db.Linked rd c a b) : n.recorded.Linked rd c a b := by
  have hnode : ∀ p ∈ db.nodeIds rd c, p ∈ n.recorded.nodeIds rd c :=
    fun p hp => n.recorded_nodeIds hplain hp
  have hsrc : ∀ i ∈ (db.sourceGraph rd c).sources,
      i ∈ (n.recorded.sourceGraph rd c).sources := by
    intro i hi
    obtain ⟨src, hin, hid, rfl⟩ := mem_graph_sources.mp hi
    refine mem_graph_sources.mpr ⟨src, hin, hnode _ hid, ?_⟩
    simp only [EvidenceDb.groupingInput, n.recorded_effectiveParent hplain]
  have hids : ∀ p ∈ (db.sourceGraph rd c).ids, p ∈ (n.recorded.sourceGraph rd c).ids := by
    intro p hp
    obtain ⟨i, hi, rfl⟩ := List.mem_map.mp hp
    exact List.mem_map_of_mem (hsrc i hi)
  cases h with
  | domain a b ha hb hsome heq => exact .domain a b (hsrc a ha) (hsrc b hb) hsome heq
  | content a b ha hb hsome heq => exact .content a b (hsrc a ha) (hsrc b hb) hsome heq
  | text a b ha hb u v hu hv hover =>
    obtain ⟨ha, hua⟩ := SourceGraph.mem_known.mp ha
    obtain ⟨hb, hub⟩ := SourceGraph.mem_known.mp hb
    exact .text a b (SourceGraph.mem_known.mpr ⟨hsrc a ha, hua⟩)
      (SourceGraph.mem_known.mpr ⟨hsrc b hb, hub⟩) u v hu hv hover
  | parent a _ ha hp hpn => exact .parent a _ (hsrc a ha) hp (hids _ hpn)
  | merge k hk hmerges =>
    simp only [EvidenceDb.sourceGraph, List.mem_insertionSort, List.mem_filter,
      decide_eq_true_eq] at hk
    obtain ⟨hin, hfrom, hto⟩ := hk
    refine .merge k ?_ ?_
    · simp only [EvidenceDb.sourceGraph, List.mem_insertionSort, List.mem_filter,
        decide_eq_true_eq]
      exact ⟨hin, hnode _ hfrom, hnode _ hto⟩
    · simp only [SourceGraph.merges, decide_eq_true_eq] at hmerges ⊢
      rwa [n.recorded_splits hplain hfrom hto]
  | edge e he hties =>
    simp only [EvidenceDb.sourceGraph, List.mem_insertionSort, List.mem_filter,
      decide_eq_true_eq] at he
    obtain ⟨hin, hfrom, hto⟩ := he
    refine .edge e ?_ ?_
    · simp only [EvidenceDb.sourceGraph, List.mem_insertionSort, List.mem_filter,
        decide_eq_true_eq]
      exact ⟨hin, hnode _ hfrom, hnode _ hto⟩
    · simp only [SourceGraph.ties, decide_eq_true_eq] at hties ⊢
      rw [n.recorded_splits hplain hfrom hto]
      exact ⟨hids _ hties.1, hids _ hties.2.1, hties.2.2⟩
  | unknown a b ha hb hua hub => exact .unknown a b (hsrc a ha) (hsrc b hb) hua hub

/-- **Absorption of a plain row**: links tie its source to a supporting one, or they
join supporting sources that were apart. -/
theorem absorbed_plain (n : UntrackedSupport rd db c)
    (hplain : attribution rd.parseUuid n.row = none) {s : SourceId}
    (hs : n.row.sourceId = some s) :
    n.Absorbed ↔ (∃ t ∈ db.supportSources c, EqvGen (n.recorded.Linked rd c) s t) ∨
      classCount (n.recorded.Linked rd c) (db.supportSources c) <
        classCount (db.Linked rd c) (db.supportSources c) := by
  have hle : classCount (n.recorded.Linked rd c) (db.supportSources c) ≤
      classCount (db.Linked rd c) (db.supportSources c) :=
    classCount_mono _ fun a b h => .rel _ _ (n.recorded_linked hplain h)
  rw [Absorbed, hs]
  exact or_congr_left (and_iff_left hle)

end UntrackedSupport

/-- **Unknown lineage and independence**: a new untracked item shows no new
independence exactly when the evidence absorbs it. -/
theorem untracked_support_iff (parseDay parseTime : String → Option Int) (rd : Readers)
    (db : EvidenceDb) (c : ClaimId) (n : UntrackedSupport rd db c) :
    NoMoreIndependence parseDay parseTime (db.assessmentInput rd c)
      (n.recorded.assessmentInput rd c) ↔ n.Absorbed := by
  rw [noMoreIndependence_iff, UntrackedSupport.Absorbed]
  cases hs : n.row.sourceId with
  | none => exact n.groupCount_sourceless hs
  | some s => exact n.groupCount_sourced hs

/-! ## The untracked group is a group -/

/-- A supporting row of known provenance. -/
def EvidenceDb.KnownGroup (rd : Readers) (db : EvidenceDb) (c : ClaimId) (e : Evidence) :
    Prop :=
  match e.sourceId with
  | none => db.untrackedEnvironment e = false
  | some s => ∃ src ∈ db.sources, src.id = s ∧
      (db.groupingInput rd c src).unknown rd.text = false

/-- Readers that parse nothing. -/
def plainReaders : Readers where
  text := ⟨fun _ => none, Char.isDigit, fun _ => ∅, fun n => Nat.repr n⟩
  digest := ⟨fun _ _ _ => "0123456789abcdef", fun _ _ _ => rfl⟩
  parseUuid := fun _ => none

/-- A document with its content hash asserts the claim. -/
def sourcedDb : EvidenceDb where
  evidence := [⟨1, 1, .supports, "source_assertion", "a", ∅, some 1, none⟩]
  revocations := []
  sources := [⟨1, none, some "h", none⟩]
  edges := []
  corrections := []
  manifests := []
  resolutions := []
  registered := by
    intro e he s hs
    rw [List.mem_singleton.mp he] at hs
    cases hs
    exact List.mem_cons_self

/-- A computation, which has neither a source nor an environment, supports it too. -/
def untrackedComputation : UntrackedSupport plainReaders sourcedDb 1 where
  row := ⟨2, 1, .supports, "computation", "b", ∅, none, none⟩
  claim := rfl
  supports := rfl
  inForce := rfl
  registered := nofun
  untracked := rfl

/-- Next to a known group the untracked item counts as a second one. -/
theorem untracked_item_is_group : ¬ ∀ (parseDay parseTime : String → Option Int)
    (rd : Readers) (db : EvidenceDb) (c : ClaimId) (n : UntrackedSupport rd db c),
    (∃ e ∈ db.supportRows c, db.KnownGroup rd c e) →
      NoMoreIndependence parseDay parseTime (db.assessmentInput rd c)
        (n.recorded.assessmentInput rd c) := by
  intro h
  have hknown : ∃ e ∈ sourcedDb.supportRows 1, sourcedDb.KnownGroup plainReaders 1 e :=
    ⟨_, List.mem_cons_self, _, List.mem_cons_self, rfl, rfl⟩
  have hle := (h (fun _ => none) (fun _ => none) plainReaders sourcedDb 1
    untrackedComputation hknown).groups
  obtain ⟨e, he, hs, -⟩ := (untrackedComputation.groupCount_sourceless rfl).mp hle
  obtain ⟨hin, -, -⟩ := EvidenceDb.mem_activeEvidence.mp (EvidenceDb.mem_supportRows.mp he).1
  rw [List.mem_singleton.mp hin] at hs
  cases hs

end Noezema.Memory
