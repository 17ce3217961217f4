import Noezema.Memory.Changes
import Noezema.Memory.Lineage

/-! # Regrouped claims

A new dependency edge or correction, followed by `apply_source_graph_change` on its two
ends. The grouping of a claim reads the sources of its evidence and their parents; the
cascade looks for evidence of the two ends. A row between two parents regroups claims
whose evidence names neither of them, and those stay current.
-/

namespace Noezema.Memory

open Noezema.Lib

/-- A row that a caller writes before the cascade. -/
inductive GraphRow where
  | edge (e : SourceGraphEdge)
  | correction (k : SourceGraphCorrection)
deriving DecidableEq

/-- The `source_ids` of the call. -/
def GraphRow.ends : GraphRow → List SourceId
  | .edge e => [e.fromId, e.toId]
  | .correction k => [k.fromId, k.toId]

namespace EvidenceDb

/-- The tables with the row. -/
def withRow (db : EvidenceDb) : GraphRow → EvidenceDb
  | .edge e => { db with edges := db.edges ++ [e] }
  | .correction k => { db with corrections := db.corrections ++ [k] }

variable (rd : Readers)

/-- `groups[s] == groups[t]` of `group_source_graph`. -/
def SameGroup (db : EvidenceDb) (c : ClaimId) (s t : SourceId) : Prop :=
  (groupSourceGraph rd.text (db.sourceGraph rd c)).lookup s =
    (groupSourceGraph rd.text (db.sourceGraph rd c)).lookup t

instance (db : EvidenceDb) (c : ClaimId) (s t : SourceId) : Decidable (db.SameGroup rd c s t) :=
  inferInstanceAs (Decidable (_ = _))

/-- The claim's sources, parents included, fall into other groups than before. -/
def Regrouped (before after : EvidenceDb) (c : ClaimId) : Prop :=
  ∃ s ∈ before.nodeIds rd c, ∃ t ∈ before.nodeIds rd c,
    ¬ (before.SameGroup rd c s t ↔ after.SameGroup rd c s t)

/-- Evidence of the claim, in force or revoked, names one of the sources. -/
def Names (db : EvidenceDb) (c : ClaimId) (ids : List SourceId) : Prop :=
  ∃ e ∈ db.evidence, e.claimId = c ∧ ∃ s ∈ ids, e.sourceId = some s

variable {rd} {db : EvidenceDb} {row : GraphRow} {c : ClaimId}

/-! ## What the grouping reads of a row -/

@[simp] theorem withRow_evidence : (db.withRow row).evidence = db.evidence := by
  cases row <;> rfl

@[simp] theorem withRow_sources : (db.withRow row).sources = db.sources := by
  cases row <;> rfl

@[simp] theorem withRow_activeEvidence :
    (db.withRow row).activeEvidence c = db.activeEvidence c := by
  cases row <;> rfl

@[simp] theorem withRow_memberIds : (db.withRow row).memberIds c = db.memberIds c := by
  cases row <;> rfl

@[simp] theorem withRow_nodeIds : (db.withRow row).nodeIds rd c = db.nodeIds rd c := by
  cases row <;> rfl

theorem filter_snoc_of_not {α : Type*} {p : α → Bool} (l : List α) {x : α}
    (h : p x = false) : (l ++ [x]).filter p = l.filter p := by
  rw [List.filter_append, List.filter_singleton, h]
  exact List.append_nil _

/-- A row with an end outside of the nodes is not read. -/
theorem withRow_sourceGraph (h : ¬ ∀ s ∈ row.ends, s ∈ db.nodeIds rd c) :
    (db.withRow row).sourceGraph rd c = db.sourceGraph rd c := by
  cases row with
  | edge e =>
    have hout : decide (e.fromId ∈ db.nodeIds rd c ∧ e.toId ∈ db.nodeIds rd c) = false := by
      simpa [GraphRow.ends] using h
    have hedges : (db.edges ++ [e]).filter (fun e =>
        decide (e.fromId ∈ db.nodeIds rd c ∧ e.toId ∈ db.nodeIds rd c)) = _ :=
      filter_snoc_of_not db.edges hout
    unfold sourceGraph
    rw [withRow_nodeIds]
    simp only [withRow, hedges]
    rfl
  | correction k =>
    have hout : decide (k.fromId ∈ db.nodeIds rd c ∧ k.toId ∈ db.nodeIds rd c) = false := by
      simpa [GraphRow.ends] using h
    have hcorrections : (db.corrections ++ [k]).filter (fun k =>
        decide (k.fromId ∈ db.nodeIds rd c ∧ k.toId ∈ db.nodeIds rd c)) = _ :=
      filter_snoc_of_not db.corrections hout
    unfold sourceGraph
    rw [withRow_nodeIds]
    simp only [withRow, hcorrections]
    rfl

/-- **Both ends of a row that regroups a claim are nodes of its graph.** -/
theorem Regrouped.ends (h : Regrouped rd db (db.withRow row) c) :
    ∀ s ∈ row.ends, s ∈ db.nodeIds rd c := by
  by_contra hout
  obtain ⟨s, -, t, -, hne⟩ := h
  apply hne
  unfold SameGroup
  rw [withRow_sourceGraph hout]

/-- A claim whose evidence names no end has both ends as parents only. -/
theorem Regrouped.parents (h : Regrouped rd db (db.withRow row) c)
    (hnames : ¬ db.Names c row.ends) : ∀ s ∈ row.ends, s ∈ db.parentIds rd c := by
  intro s hs
  rcases List.mem_append.mp (h.ends s hs) with hmember | hparent
  · obtain ⟨e, he, hsource⟩ := mem_memberIds.mp hmember
    obtain ⟨hin, hclaim, -⟩ := mem_activeEvidence.mp he
    exact absurd ⟨e, hin, hclaim, s, hs, hsource⟩ hnames
  · exact hparent

theorem mem_affectedClaims {ids : List SourceId} :
    c ∈ db.affectedClaims ids ↔ db.Names c ids := by
  simp only [affectedClaims, List.mem_insertionSort, List.mem_dedup, List.mem_map,
    List.mem_filter, Option.any_eq_true, decide_eq_true_eq, Names]
  constructor
  · rintro ⟨e, ⟨he, s, hsource, hs⟩, hclaim⟩
    exact ⟨e, he, hclaim, s, hs, hsource⟩
  · rintro ⟨e, he, hclaim, s, hs, hsource⟩
    exact ⟨e, ⟨he, s, hsource, hs⟩, hclaim⟩

theorem affectedClaims_withRow (ids : List SourceId) :
    (db.withRow row).affectedClaims ids = db.affectedClaims ids := by
  unfold affectedClaims
  rw [withRow_evidence]

end EvidenceDb

/-! ## Which regrouped claims the cascade reaches -/

/-- The head of the claim is pending under the effective snapshot, with an active job. -/
def MemoryDb.Awaits (db : MemoryDb) (c : ClaimId) : Prop :=
  db.know.heads c db.effective = some .pending ∧ db.know.hasJob c db.effective = true

/-- A claim among the requeued ones awaits its reassessment, the others are as before. -/
theorem MemoryDb.Requeues.awaits_iff {db db' : MemoryDb} {cs : List ClaimId}
    (h : MemoryDb.Requeues db db' cs) {c : ClaimId}
    (hcur : db.know.heads.state c db.effective = some .current) :
    db'.Awaits c ↔ c ∈ cs := by
  have heff : db'.effective = db.effective := by
    show db'.cascade.effective = _
    rw [h.cascade]
  obtain ⟨a, status, hhead⟩ := Knowledge.state_eq_current.mp hcur
  have hhead' := h.know.heads c db.effective
  unfold Awaits
  rw [heff]
  by_cases hin : c ∈ cs
  · rw [if_pos ⟨hin, rfl⟩, hhead] at hhead'
    exact iff_of_true ⟨hhead', h.know.owed c hin hcur⟩ hin
  · rw [if_neg (fun hboth => hin hboth.1), hhead] at hhead'
    refine iff_of_false (fun hawaits => ?_) hin
    have hpending := hawaits.1
    rw [hhead'] at hpending
    cases hpending

theorem applySourceGraphChange_awaits_iff (db : MemoryDb) (row : GraphRow) {c : ClaimId}
    (hcur : db.know.heads.state c db.effective = some .current) :
    (db.applySourceGraphChange (db.tables.toEvidenceDb.withRow row) row.ends).1.Awaits c ↔
      db.tables.toEvidenceDb.Names c row.ends := by
  have hends : row.ends ≠ [] := by cases row <;> simp [GraphRow.ends]
  have hrequeues := MemoryDb.applySourceGraphChange_requeues db
    (db.tables.toEvidenceDb.withRow row) row.ends
  rw [if_neg hends, EvidenceDb.affectedClaims_withRow] at hrequeues
  rw [hrequeues.awaits_iff hcur, EvidenceDb.mem_affectedClaims]

section Reached

variable (rd : Readers) (db : MemoryDb) (row : GraphRow)

/-- The row regroups the claim, which is current under the effective snapshot. -/
def RegroupsCurrent (c : ClaimId) : Prop :=
  EvidenceDb.Regrouped rd db.tables.toEvidenceDb (db.tables.toEvidenceDb.withRow row) c ∧
    db.know.heads.state c db.effective = some .current

/-- The change takes every current claim that the row regroups back to its worker. -/
def ReachesRegrouped : Prop :=
  ∀ c, RegroupsCurrent rd db row c →
    (db.applySourceGraphChange (db.tables.toEvidenceDb.withRow row) row.ends).1.Awaits c

/-- **A change reaches what it regroups** exactly when the evidence of every regrouped
claim names an end of the row. A claim it misses has both ends as parents only. -/
theorem regrouped_reached_iff :
    (ReachesRegrouped rd db row ↔
      ∀ c, RegroupsCurrent rd db row c → db.tables.toEvidenceDb.Names c row.ends) ∧
    ∀ c, RegroupsCurrent rd db row c → ¬ db.tables.toEvidenceDb.Names c row.ends →
      ∀ s ∈ row.ends, s ∈ db.tables.toEvidenceDb.parentIds rd c := by
  constructor
  · exact forall₂_congr fun c hc => applySourceGraphChange_awaits_iff db row hc.2
  · intro c hc hnames
    exact hc.1.parents hnames

end Reached

/-! ## A row between two parents -/

/-- A claim rests on two documents, each a retelling of another one. -/
def retellings : EvidenceDb where
  evidence := [⟨1, 1, .supports, "source_assertion", "a", ∅, some 1, none⟩,
    ⟨2, 1, .supports, "source_assertion", "b", ∅, some 2, none⟩]
  revocations := []
  sources := [⟨1, none, some "a", some 3⟩, ⟨2, none, some "b", some 4⟩,
    ⟨3, none, some "c", none⟩, ⟨4, none, some "d", none⟩]
  edges := []
  corrections := []
  manifests := []
  resolutions := []
  registered := by
    intro e he s hs
    simp only [List.mem_cons, List.not_mem_nil, or_false] at he
    rcases he with rfl | rfl <;> cases hs <;> simp

/-- The claim is supported by two groups. -/
def retellingsDb : MemoryDb where
  cascade := {
    know := ⟨fun c s => if c = 1 ∧ s = 1 then some (.current 1 .supported) else none, [], [], 0⟩
    effective := 1
    dependencies := []
    graphRevision := 0
    manifests := []
    barriers := [] }
  tables := { retellings with assessments := [] }
  claims := []
  snapshots := []
  head := ⟨none, 0, none, none⟩
  sessions := ⟨0, 0, 0, false⟩
  sourceGraphRevision := 0

/-- The operator merges the two originals. -/
def originalsMerged : GraphRow := .correction ⟨1, 3, 4, .merge, true⟩

/-- The merge of the originals joins the two groups of a claim that stays current. -/
theorem merge_of_parents_missed :
    ¬ ∀ rd db row, ReachesRegrouped rd db row := by
  intro h
  have hregrouped : EvidenceDb.Regrouped plainReaders retellings
      (retellings.withRow originalsMerged) 1 :=
    ⟨1, by decide, 2, by decide, by decide⟩
  have hawaits := h plainReaders retellingsDb originalsMerged 1 ⟨hregrouped, rfl⟩
  cases hawaits.1

end Noezema.Memory
