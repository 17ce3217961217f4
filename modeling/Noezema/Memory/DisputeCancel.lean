import Mathlib.Data.Set.Basic
import Noezema.Lib.Run
import Noezema.Memory.Apply
import Noezema.Memory.Dispute
import Noezema.Memory.Worker

/-! # A dispute taken back

A dispute switches on one correction for each pair of versions; its cancel starts from the
newest merge in force that touches the claim, whoever made it, and takes those of the same
actor, page and original row with it. The corrections in force are the old ones again when
these two sets agree.
-/

namespace Noezema.Memory

open Noezema.Lib

/-- Switching a set on and another one off gives the old set when they are the same. -/
theorem union_sdiff_eq_iff {α : Type*} {v s c : Set α} (hvs : Disjoint v s) (hc : c ⊆ v ∪ s) :
    (v ∪ s) \ c = v ↔ c = s := by
  constructor
  · intro h
    ext x
    constructor
    · intro hx
      rcases hc hx with hv | hs
      · rw [← h] at hv
        exact absurd hx hv.2
      · exact hs
    · intro hs
      by_contra hx
      have hv : x ∈ v := by
        rw [← h]
        exact ⟨.inr hs, hx⟩
      exact Set.disjoint_left.mp hvs hv hs
  · intro h
    rw [h, Set.union_sdiff_right]
    exact hvs.sdiff_eq_left

/-- The order of the cancel, without ties. -/
def CorrectionRow.Newer (a b : CorrectionRow) : Prop :=
  b.createdAt < a.createdAt ∨ (b.createdAt = a.createdAt ∧ b.correctionId < a.correctionId)

theorem CorrectionRow.Newer.trans {a b c : CorrectionRow} (h : a.Newer b) (k : b.Newer c) :
    a.Newer c := by
  unfold CorrectionRow.Newer at *
  omega

theorem CorrectionRow.Newer.irrefl (a : CorrectionRow) : ¬ a.Newer a := by
  unfold CorrectionRow.Newer
  omega

theorem CorrectionRow.newest_or {a b : CorrectionRow} (h : DisputeDb.newestFirst a b)
    (hid : a.correctionId ≠ b.correctionId) : a.Newer b := by
  simp only [DisputeDb.newestFirst, decide_eq_true_eq] at h
  unfold CorrectionRow.Newer
  omega

namespace DisputeDb

/-- The ids of the corrections in force. -/
def validIds (db : DisputeDb) : Set Nat := {i | ∃ r ∈ db.rows, r.valid ∧ r.correctionId = i}

/-- The corrections a dispute of the pairs switches on: those that are not in force
before. -/
def switchedOn (db : DisputeDb) (q : DisputeRequest) (pairs : List (ClaimSource × ClaimSource)) :
    List CorrectionRow :=
  pairs.filterMap fun p =>
    match db.findCorrection q.actor p with
    | some r => if r.valid then none else some (r.setValid true)
    | none => some (newCorrection q p)

/-! ## The rows after a dispute -/

section Rows

variable {db : DisputeDb} {q : DisputeRequest} {pairs : List (ClaimSource × ClaimSource)}

/-- The key of the correction of a pair. -/
def pairKey (actor : String) (p : ClaimSource × ClaimSource) :
    String × SourceId × SourceId × CorrectionKind × String :=
  (actor, p.1.sourceId, p.2.sourceId, .merge, rulesEngineVersion)

theorem findCorrection_some {actor : String} {p : ClaimSource × ClaimSource} {r : CorrectionRow}
    (h : db.findCorrection actor p = some r) : r ∈ db.rows ∧ r.key = pairKey actor p :=
  ⟨List.mem_of_find?_eq_some h, by simpa [pairKey] using List.find?_some h⟩

theorem eq_of_id {r x : CorrectionRow} (hr : r ∈ db.rows) (hx : x ∈ db.rows)
    (h : r.correctionId = x.correctionId) : r = x :=
  List.inj_on_of_nodup_map db.ids hr hx h

theorem setValid_of_valid {r : CorrectionRow} (h : r.valid) : r.setValid true = r := by
  obtain ⟨⟨id, fromId, toId, kind, valid⟩, actor, rulesVersion, createdAt⟩ := r
  obtain rfl : valid = true := h
  rfl

/-- The rows of the table that a dispute of the pairs rewrites. -/
theorem mem_found {r : CorrectionRow} (hr : r ∈ db.rows) :
    r.correctionId ∈ (pairs.filterMap (db.findCorrection q.actor)).map (·.correctionId) ↔
      ∃ p ∈ pairs, db.findCorrection q.actor p = some r := by
  constructor
  · intro h
    obtain ⟨x, hx, hid⟩ := List.mem_map.mp h
    obtain ⟨p, hp, hfind⟩ := List.mem_filterMap.mp hx
    obtain rfl := eq_of_id (findCorrection_some hfind).1 hr hid
    exact ⟨p, hp, hfind⟩
  · intro ⟨p, hp, hfind⟩
    exact List.mem_map_of_mem (List.mem_filterMap.mpr ⟨p, hp, hfind⟩)

theorem mem_switchedOn {x : CorrectionRow} : x ∈ db.switchedOn q pairs ↔
    (∃ p ∈ pairs, ∃ r, db.findCorrection q.actor p = some r ∧ ¬ r.valid ∧ x = r.setValid true) ∨
      ∃ p ∈ pairs, db.findCorrection q.actor p = none ∧ x = newCorrection q p := by
  unfold switchedOn
  rw [List.mem_filterMap]
  constructor
  · intro ⟨p, hp, hx⟩
    cases hfind : db.findCorrection q.actor p with
    | none =>
      rw [hfind] at hx
      exact .inr ⟨p, hp, hfind, (Option.some.inj hx).symm⟩
    | some r =>
      rw [hfind] at hx
      by_cases hvalid : r.valid
      · simp [hvalid] at hx
      · dsimp only at hx
        rw [if_neg hvalid] at hx
        exact .inl ⟨p, hp, r, hfind, hvalid, (Option.some.inj hx).symm⟩
  · intro h
    rcases h with ⟨p, hp, r, hfind, hvalid, rfl⟩ | ⟨p, hp, hfind, rfl⟩
    · exact ⟨p, hp, by simp [hfind, hvalid]⟩
    · exact ⟨p, hp, by simp [hfind]⟩

/-- **The corrections in force after a dispute** are the old ones and those it switches
on. -/
theorem mem_disputedRows_valid {x : CorrectionRow} :
    x ∈ db.disputedRows q pairs ∧ x.valid ↔
      (x ∈ db.rows ∧ x.valid) ∨ x ∈ db.switchedOn q pairs := by
  unfold disputedRows
  dsimp only
  rw [List.mem_append, List.mem_map, List.mem_map]
  constructor
  · intro ⟨hx, hvalid⟩
    rcases hx with ⟨r, hr, rfl⟩ | ⟨p, hp, rfl⟩
    · split at hvalid
      · rename_i hfound
        rw [if_pos hfound]
        obtain ⟨p, hp, hfind⟩ := (mem_found hr).mp hfound
        by_cases hold : r.valid
        · rw [setValid_of_valid hold]
          exact .inl ⟨hr, hold⟩
        · exact .inr (mem_switchedOn.mpr (.inl ⟨p, hp, r, hfind, hold, rfl⟩))
      · rename_i hfound
        rw [if_neg hfound]
        exact .inl ⟨hr, hvalid⟩
    · obtain ⟨hp, hnone⟩ := List.mem_filter.mp hp
      exact .inr (mem_switchedOn.mpr (.inr ⟨p, hp, by simpa using hnone, rfl⟩))
  · intro h
    rcases h with ⟨hx, hvalid⟩ | hx
    · refine ⟨.inl ⟨x, hx, ?_⟩, hvalid⟩
      split
      · exact setValid_of_valid hvalid
      · rfl
    · rcases mem_switchedOn.mp hx with ⟨p, hp, r, hfind, -, rfl⟩ | ⟨p, hp, hfind, rfl⟩
      · have hr := (findCorrection_some hfind).1
        exact ⟨.inl ⟨r, hr, if_pos ((mem_found hr).mpr ⟨p, hp, hfind⟩)⟩, rfl⟩
      · exact ⟨.inr ⟨p, List.mem_filter.mpr ⟨hp, by simpa using hfind⟩, rfl⟩, rfl⟩

/-- None of the corrections it switches on is in force before. -/
theorem switchedOn_not_valid (hids : ((db.disputedRows q pairs).map (·.correctionId)).Nodup)
    {x : CorrectionRow} (hx : x ∈ db.switchedOn q pairs) : x.correctionId ∉ db.validIds := by
  intro ⟨r, hr, hvalid, hid⟩
  rcases mem_switchedOn.mp hx with ⟨p, -, old, hfind, hold, rfl⟩ | ⟨p, hp, hfind, rfl⟩
  · obtain rfl := eq_of_id hr (findCorrection_some hfind).1 hid
    exact hold hvalid
  · -- the uuid is fresh
    have hnew : newCorrection q p ∈ db.disputedRows q pairs ∧ (newCorrection q p).valid :=
      mem_disputedRows_valid.mpr (.inr hx)
    have hkept : r ∈ db.disputedRows q pairs ∧ r.valid :=
      mem_disputedRows_valid.mpr (.inl ⟨hr, hvalid⟩)
    have hsame : r = newCorrection q p := List.inj_on_of_nodup_map hids hkept.1 hnew.1 hid
    have hkey : r.key = pairKey q.actor p := by rw [hsame]; rfl
    have hnone := List.find?_eq_none.mp hfind r hr
    simp [hkey, pairKey] at hnone

end Rows

/-! ## The dispute -/

section Dispute

variable {ar : AddressReader} {db db' : DisputeDb} {q : DisputeRequest}

/-- **What a dispute that is no repetition does.** -/
structure Disputed (ar : AddressReader) (q : DisputeRequest) (db db' : DisputeDb)
    (pair : DisputePair) : Prop where
  resolved : db.disputePair ar q = .ok pair
  rows : db'.rows = db.disputedRows q pair.mergePairs
  tables : db'.memory.tables.evidence = db.memory.tables.evidence ∧
    db'.memory.tables.sources = db.memory.tables.sources
  claims : db'.memory.claims = db.memory.claims
  switches : db.switchedOn q pair.mergePairs ≠ []

theorem withRows_memory (db : DisputeDb) (rows : List CorrectionRow) (sourceIds : List SourceId)
    (keys : (rows.map CorrectionRow.key).Nodup) (ids : (rows.map (·.correctionId)).Nodup) :
    (db.withRows rows sourceIds keys ids).1.memory.tables.evidence = db.memory.tables.evidence ∧
      (db.withRows rows sourceIds keys ids).1.memory.tables.sources = db.memory.tables.sources ∧
      (db.withRows rows sourceIds keys ids).1.memory.claims = db.memory.claims := by
  unfold withRows
  dsimp only
  rw [applySourceGraphChange_tables]
  exact ⟨rfl, rfl, (MemoryDb.applySourceGraphChange_requeues _ _ _).claims⟩

theorem disputeClaim_ok {out : DisputeOutcome} (h : db.disputeClaim ar q = .ok (db', out))
    (hnew : out.replayed = false) : ∃ pair, Disputed ar q db db' pair := by
  obtain ⟨pair, hpair, h⟩ := bind_eq_ok.mp h
  dsimp only at h
  split at h
  · cases h
    cases hnew
  · rename_i hopen
    split at h
    · obtain ⟨-, -, h⟩ := bind_eq_ok.mp h
      split at h
      · cases h
        obtain ⟨hevidence, hsources, hclaims⟩ := withRows_memory db _ _ _ _
        refine ⟨pair, hpair, rfl, ⟨hevidence, hsources⟩, hclaims, ?_⟩
        -- a pair that is not in force is switched on
        intro hnil
        apply hopen
        rw [List.all_map, List.all_eq_true]
        intro p hp
        cases hfind : db.findCorrection q.actor p with
        | none =>
          have hmem : newCorrection q p ∈ db.switchedOn q pair.mergePairs :=
            mem_switchedOn.mpr (.inr ⟨p, hp, hfind, rfl⟩)
          rw [hnil] at hmem
          cases hmem
        | some r =>
          by_cases hvalid : r.valid
          · simp [hfind, hvalid]
          · have hmem : r.setValid true ∈ db.switchedOn q pair.mergePairs :=
              mem_switchedOn.mpr (.inl ⟨p, hp, r, hfind, hvalid, rfl⟩)
            rw [hnil] at hmem
            cases hmem
      · cases h
    · cases h

/-- The retellings of a pair are sources of the claim's evidence, all of one page. -/
theorem disputePair_retelling {pair : DisputePair} (h : db.disputePair ar q = .ok pair) :
    (db.memory.claim? q.claimId).isSome ∧ ∃ wanted, ∀ r ∈ pair.retellingRows,
      r.sourceId ∈ db.memory.tables.claimSourceIds q.claimId ∧
        db.page ar r.sourceId = some wanted := by
  obtain ⟨-, -, h⟩ := bind_eq_ok.mp h
  obtain ⟨primary, -, h⟩ := bind_eq_ok.mp h
  obtain ⟨retelling, -, h⟩ := bind_eq_ok.mp h
  obtain ⟨u, hclaim, h⟩ := bind_eq_ok.mp h
  refine ⟨require_eq_ok.mp hclaim, ar.identity retelling, ?_⟩
  unfold resolveDisputePair at h
  dsimp only at h
  split at h
  · cases h
  · split at h
    · cases h
    · split at h
      · cases h
      · cases h
        intro r hr
        obtain ⟨hsource, hmatch⟩ := List.mem_filter.mp ((List.mem_insertionSort _).mp hr)
        obtain ⟨s, hs, rfl⟩ := List.mem_map.mp hsource
        obtain ⟨hs, hin⟩ := List.mem_filter.mp ((List.mem_insertionSort _).mp hs)
        refine ⟨of_decide_eq_true hin, ?_⟩
        have hfind : db.memory.tables.sources.find? (fun x => x.id = s.id) = some s := by
          rw [List.find?_eq_some_iff_append]
          obtain ⟨before, after, hsplit⟩ := List.append_of_mem hs
          refine ⟨by simp, before, after, hsplit, ?_⟩
          intro x hx
          have hnodup := db.sourceIds
          rw [hsplit, List.map_append, List.nodup_append] at hnodup
          simpa using hnodup.2.2 _ (List.mem_map_of_mem hx) _ List.mem_cons_self
        unfold page address
        rw [show (Source.claimSource s).sourceId = s.id from rfl, hfind]
        unfold ClaimSource.uriMatches Source.claimSource at hmatch
        dsimp only at hmatch
        cases huri : s.canonicalUri with
        | none => simp [huri] at hmatch
        | some uri =>
          rw [huri] at hmatch
          obtain ⟨hne, hsame⟩ := of_decide_eq_true hmatch
          simp [huri, hne, hsame]

/-- What a switched on correction says. -/
theorem switchedOn_row {pair : DisputePair} {x : CorrectionRow}
    (hx : x ∈ db.switchedOn q pair.mergePairs) : x.valid ∧ x.kind = .merge ∧
      x.actor = q.actor ∧ x.rulesVersion = rulesEngineVersion ∧
      ∃ r ∈ pair.retellingRows, x.fromId = r.sourceId := by
  rcases mem_switchedOn.mp hx with ⟨p, hp, old, hfind, -, rfl⟩ | ⟨p, hp, -, rfl⟩
  · have hkey := (findCorrection_some hfind).2
    simp only [CorrectionRow.key, pairKey, Prod.mk.injEq] at hkey
    obtain ⟨hactor, hfrom, -, hkind, hversion⟩ := hkey
    exact ⟨rfl, hkind, hactor, hversion, p.1, (DisputePair.mem_mergePairs.mp hp).1, hfrom⟩
  · exact ⟨rfl, rfl, rfl, rfl, p.1, (DisputePair.mem_mergePairs.mp hp).1, rfl⟩

theorem mem_touching {c : ClaimId} {r : CorrectionRow} : r ∈ db.touching c ↔
    r ∈ db.rows ∧ r.valid ∧ r.kind = .merge ∧
      (r.fromId ∈ db.memory.tables.claimSourceIds c ∨
        r.toId ∈ db.memory.tables.claimSourceIds c) := by
  simp only [touching, List.mem_filter, decide_eq_true_eq]
  tauto

theorem Disputed.touching {pair : DisputePair} (h : Disputed ar q db db' pair)
    {r : CorrectionRow} : r ∈ db'.touching q.claimId ↔
      r ∈ db.touching q.claimId ∨ r ∈ db.switchedOn q pair.mergePairs := by
  have hsources : db'.memory.tables.claimSourceIds q.claimId =
      db.memory.tables.claimSourceIds q.claimId := by
    unfold EvidenceDb.claimSourceIds
    rw [h.tables.1]
  rw [mem_touching, mem_touching, hsources, h.rows]
  constructor
  · intro ⟨hr, hvalid, hkind, htouch⟩
    rcases mem_disputedRows_valid.mp ⟨hr, hvalid⟩ with ⟨hold, -⟩ | hnew
    · exact .inl ⟨hold, hvalid, hkind, htouch⟩
    · exact .inr hnew
  · intro hr
    rcases hr with ⟨hr, hvalid, hkind, htouch⟩ | hr
    · exact ⟨(mem_disputedRows_valid.mpr (.inl ⟨hr, hvalid⟩)).1, hvalid, hkind, htouch⟩
    · obtain ⟨hvalid, hkind, -, -, s, hs, hfrom⟩ := switchedOn_row hr
      obtain ⟨-, wanted, hretelling⟩ := disputePair_retelling h.resolved
      refine ⟨(mem_disputedRows_valid.mpr (.inr hr)).1, hvalid, hkind, .inl ?_⟩
      rw [hfrom]
      exact (hretelling s hs).1

/-- The ids of the corrections a dispute switches on. -/
def switchedIds (db : DisputeDb) (q : DisputeRequest) (pair : DisputePair) : Set Nat :=
  {i | ∃ x ∈ db.switchedOn q pair.mergePairs, x.correctionId = i}

theorem Disputed.validIds {pair : DisputePair} (h : Disputed ar q db db' pair) :
    db'.validIds = db.validIds ∪ db.switchedIds q pair ∧
      Disjoint db.validIds (db.switchedIds q pair) := by
  constructor
  · ext i
    constructor
    · intro ⟨x, hx, hvalid, hid⟩
      rw [h.rows] at hx
      rcases mem_disputedRows_valid.mp ⟨hx, hvalid⟩ with ⟨hold, -⟩ | hnew
      · exact .inl ⟨x, hold, hvalid, hid⟩
      · exact .inr ⟨x, hnew, hid⟩
    · intro hi
      rcases hi with ⟨x, hx, hvalid, hid⟩ | ⟨x, hx, hid⟩
      · obtain ⟨hrow, -⟩ := mem_disputedRows_valid.mpr (.inl ⟨hx, hvalid⟩)
        exact ⟨x, by rw [h.rows]; exact hrow, hvalid, hid⟩
      · obtain ⟨hrow, hvalid⟩ := mem_disputedRows_valid.mpr (.inr hx)
        exact ⟨x, by rw [h.rows]; exact hrow, hvalid, hid⟩
  · rw [Set.disjoint_right]
    intro i ⟨x, hx, hid⟩
    rw [← hid]
    exact switchedOn_not_valid (by rw [← h.rows]; exact db'.ids) hx

end Dispute

/-! ## The cancel -/

section Cancel

variable {ar : AddressReader} {db db' : DisputeDb} {c : ClaimId}

/-- The cancel starts from the newest merge in force that touches the claim. -/
theorem validCorrections_head {r : CorrectionRow} {rest : List CorrectionRow}
    (h : db.validCorrectionsForClaim c = r :: rest) :
    r ∈ db.touching c ∧ ∀ x ∈ db.touching c, x = r ∨ r.Newer x := by
  have hmem : ∀ x, x ∈ r :: rest ↔ x ∈ db.touching c := by
    intro x
    rw [← h]
    exact List.mem_insertionSort _
  have hr := (hmem r).mp List.mem_cons_self
  refine ⟨hr, fun x hx => ?_⟩
  have : Std.Total fun a b : CorrectionRow => newestFirst a b := by
    constructor
    intro a b
    simp only [newestFirst, decide_eq_true_eq]
    omega
  have : IsTrans CorrectionRow fun a b => newestFirst a b := by
    constructor
    intro a b d hab hbd
    simp only [newestFirst, decide_eq_true_eq] at *
    omega
  have hsorted := List.pairwise_insertionSort (fun a b : CorrectionRow => newestFirst a b)
    (db.touching c)
  rw [show List.insertionSort _ _ = r :: rest from h] at hsorted
  rcases List.mem_cons.mp ((hmem x).mpr hx) with heq | hx'
  · exact .inl heq
  · by_cases hid : r.correctionId = x.correctionId
    · exact .inl (eq_of_id (mem_touching.mp hr).1 (mem_touching.mp hx).1 hid).symm
    · exact .inr (CorrectionRow.newest_or ((List.pairwise_cons.mp hsorted).1 x hx') hid)

theorem mem_samePage {r x : CorrectionRow} (hr : r ∈ db.touching c) {wanted : String}
    (hpage : db.page ar r.fromId = some wanted) :
    x ∈ r :: db.samePageCorrections ar c r ↔ x ∈ db.touching c ∧ x.actor = r.actor ∧
      x.toId = r.toId ∧ x.rulesVersion = r.rulesVersion ∧
      db.page ar x.fromId = some wanted := by
  unfold samePageCorrections
  dsimp only
  rw [hpage, List.mem_cons]
  dsimp only
  simp only [List.mem_filter, decide_eq_true_eq]
  constructor
  · intro h
    rcases h with rfl | ⟨⟨hx, -, hactor, hto, hversion⟩, hsame⟩
    · exact ⟨hr, rfl, rfl, rfl, hpage⟩
    · exact ⟨(List.mem_insertionSort _).mp hx, hactor, hto, hversion, hsame⟩
  · intro ⟨hx, hactor, hto, hversion, hsame⟩
    by_cases hid : x.correctionId = r.correctionId
    · exact .inl (eq_of_id (mem_touching.mp hx).1 (mem_touching.mp hr).1 hid)
    · exact .inr ⟨⟨(List.mem_insertionSort _).mpr hx, hid, hactor, hto, hversion⟩, hsame⟩

theorem switchOff_validIds (db : DisputeDb) (cancelled : List CorrectionRow) :
    (db.switchOff cancelled).1.validIds =
      db.validIds \ {i | ∃ x ∈ cancelled, x.correctionId = i} := by
  ext i
  constructor
  · intro ⟨x, hx, hvalid, hid⟩
    obtain ⟨y, hy, rfl⟩ := List.mem_map.mp
      (show x ∈ db.rows.map fun x =>
        if x.correctionId ∈ cancelled.map (·.correctionId) then x.setValid false else x from hx)
    split at hvalid
    · cases hvalid
    · rename_i hout
      rw [if_neg hout] at hid
      refine ⟨⟨y, hy, hvalid, hid⟩, ?_⟩
      intro ⟨z, hz, hzid⟩
      rw [hid, ← hzid] at hout
      exact hout (List.mem_map_of_mem hz)
  · intro ⟨⟨x, hx, hvalid, hid⟩, hout⟩
    refine ⟨x, List.mem_map.mpr ⟨x, hx, if_neg ?_⟩, hvalid, hid⟩
    intro hin
    obtain ⟨z, hz, hzid⟩ := List.mem_map.mp hin
    exact hout ⟨z, hz, hzid.trans hid⟩

/-- **What a cancel does**: the representative and those of its page leave the corrections
in force. -/
theorem cancelDispute_ok {reason : Option String} {out : CancelOutcome}
    (h : db.cancelDispute ar c reason = .ok (db', out)) :
    ∃ r rest, db.validCorrectionsForClaim c = r :: rest ∧
      db'.validIds = db.validIds \ {i | ∃ x ∈ r :: db.samePageCorrections ar c r,
        x.correctionId = i} := by
  obtain ⟨-, -, h⟩ := bind_eq_ok.mp h
  obtain ⟨-, -, h⟩ := bind_eq_ok.mp h
  split at h
  · cases h
  · rename_i r rest hlist
    cases h
    exact ⟨r, rest, hlist, switchOff_validIds db _⟩

/-- A cancel without a reason succeeds as long as some merge touches the claim. -/
theorem cancelDispute_succeeds (hclaim : (db.memory.claim? c).isSome)
    (h : db.touching c ≠ []) : ∃ db' out, db.cancelDispute ar c none = .ok (db', out) := by
  unfold cancelDispute
  cases hlist : db.validCorrectionsForClaim c with
  | nil =>
    have hlen := (List.perm_insertionSort (fun a b : CorrectionRow => newestFirst a b)
      (db.touching c)).length_eq
    rw [show List.insertionSort _ _ = [] from hlist] at hlen
    exact absurd (List.length_eq_zero_iff.mp hlen.symm) h
  | cons r rest => simp [hclaim, require]

end Cancel

/-! ## The way back -/

section WayBack

/-- A transaction of the reassessment worker. -/
def work (host : Host) (db : DisputeDb) (e : WorkerEvent) : Option DisputeDb :=
  some { db with
    memory := db.memory.workerStep host.parseDay host.parseTime host.readers e
    sourceIds := by
      rw [MemoryDb.workerStep_evidence]
      exact db.sourceIds
    mirrors := by
      rw [MemoryDb.workerStep_evidence]
      exact db.mirrors }

/-- The cancel finds what the dispute has left. -/
structure SameCorrections (db db' : DisputeDb) : Prop where
  rows : db'.rows = db.rows
  evidence : db'.memory.tables.toEvidenceDb = db.memory.tables.toEvidenceDb

theorem work_same {host : Host} {db db' : DisputeDb} (h : Run (work host) anyStep db db') :
    SameCorrections db db' := by
  apply h.invariant (I := SameCorrections db) ⟨rfl, rfl⟩
  intro a b e hsame _ hstep
  cases hstep
  exact ⟨hsame.rows, (MemoryDb.workerStep_evidence a.memory e).trans hsame.evidence⟩

/-- **The condition**: the corrections the dispute switches on all lead to one row of the
original, one of them is newer than every merge that was in force and touches the claim, and
none of those is the same actor's, from the same page to that row. -/
def ComesOffWhole (ar : AddressReader) (db : DisputeDb) (q : DisputeRequest)
    (pair : DisputePair) : Prop :=
  ∃ first ∈ db.switchedOn q pair.mergePairs,
    (∀ x ∈ db.switchedOn q pair.mergePairs, x.toId = first.toId) ∧
    ∀ old ∈ db.touching q.claimId, first.Newer old ∧
      ¬ (old.actor = q.actor ∧ old.toId = first.toId ∧ old.rulesVersion = rulesEngineVersion ∧
        db.page ar old.fromId = db.page ar pair.retelling.sourceId)

variable {host : Host} {ar : AddressReader} {db db₁ db₂ db₃ : DisputeDb} {q : DisputeRequest}

theorem page_of_evidence {a b : DisputeDb}
    (h : b.memory.tables.sources = a.memory.tables.sources) (s : SourceId) :
    b.page ar s = a.page ar s := by
  unfold page address
  rw [h]

/-- The corrections a cancel takes are those the dispute has switched on. -/
theorem cancelled_iff {pair : DisputePair} (h : Disputed ar q db db₁ pair)
    (hsame : SameCorrections db₁ db₂) {r : CorrectionRow} {rest : List CorrectionRow}
    (hlist : db₂.validCorrectionsForClaim q.claimId = r :: rest) :
    {i | ∃ x ∈ r :: db₂.samePageCorrections ar q.claimId r, x.correctionId = i} =
        db.switchedIds q pair ↔
      ComesOffWhole ar db q pair := by
  obtain ⟨hhead, hnewest⟩ := validCorrections_head hlist
  -- the merges in force before the cancel
  have htouching : ∀ x, x ∈ db₂.touching q.claimId ↔
      x ∈ db.touching q.claimId ∨ x ∈ db.switchedOn q pair.mergePairs := by
    intro x
    rw [← h.touching, mem_touching, mem_touching, hsame.rows, hsame.evidence]
  have hpage : ∀ s, db₂.page ar s = db.page ar s := by
    intro s
    have hlater := @page_of_evidence ar db₁ db₂ (by rw [hsame.evidence]) s
    exact hlater.trans (page_of_evidence h.tables.2 s)
  obtain ⟨-, wanted, hretelling⟩ := disputePair_retelling h.resolved
  have hwanted : db.page ar pair.retelling.sourceId = some wanted :=
    (hretelling _ (List.head_mem pair.retelling_ne)).2
  have hon : ∀ x ∈ db.switchedOn q pair.mergePairs, x.actor = q.actor ∧
      x.rulesVersion = rulesEngineVersion ∧ db.page ar x.fromId = some wanted := by
    intro x hx
    obtain ⟨-, -, hactor, hversion, s, hs, hfrom⟩ := switchedOn_row hx
    rw [hfrom]
    exact ⟨hactor, hversion, (hretelling s hs).2⟩
  have hdisjoint : ∀ x ∈ db.touching q.claimId, x.correctionId ∉ db.switchedIds q pair := by
    intro x hx
    obtain ⟨hrow, hvalid, -, -⟩ := mem_touching.mp hx
    exact Set.disjoint_left.mp h.validIds.2 ⟨x, hrow, hvalid, rfl⟩
  constructor
  · intro heq
    have hrep : r ∈ db.switchedOn q pair.mergePairs := by
      have hmem : r.correctionId ∈ db.switchedIds q pair := by
        rw [← heq]
        exact ⟨r, List.mem_cons_self, rfl⟩
      exact ((htouching r).mp hhead).resolve_left fun hold => hdisjoint r hold hmem
    obtain ⟨hactor, hversion, hfrom⟩ := hon r hrep
    have hsamePage : ∀ x, x ∈ r :: db₂.samePageCorrections ar q.claimId r ↔ _ :=
      fun x => mem_samePage hhead ((hpage _).trans hfrom)
    refine ⟨r, hrep, ?_, ?_⟩
    · intro x hx
      have hmem : x.correctionId ∈ db.switchedIds q pair := ⟨x, hx, rfl⟩
      rw [← heq] at hmem
      obtain ⟨y, hy, hid⟩ := hmem
      have hyt := ((hsamePage y).mp hy).1
      obtain rfl : y = x :=
        eq_of_id (mem_touching.mp hyt).1 (mem_touching.mp ((htouching x).mpr (.inr hx))).1 hid
      exact ((hsamePage y).mp hy).2.2.1
    · intro old hold
      have hout := hdisjoint old hold
      have hold' := (htouching old).mpr (.inl hold)
      constructor
      · refine (hnewest old hold').resolve_left fun hsame => ?_
        rw [hsame] at hout
        exact hout ⟨r, hrep, rfl⟩
      · intro ⟨hactor', hto, hversion', hfrom'⟩
        apply hout
        rw [← heq]
        refine ⟨old, (hsamePage old).mpr ⟨hold', ?_, hto, ?_, ?_⟩, rfl⟩
        · rw [hactor', hactor]
        · rw [hversion', hversion]
        · rw [hpage, hfrom', hwanted]
  · intro ⟨first, hfirst, hone, hold⟩
    -- the newest merge is one of the switched on
    have hrep : r ∈ db.switchedOn q pair.mergePairs := by
      refine ((htouching r).mp hhead).resolve_left fun hr => ?_
      have hnewer := (hold r hr).1
      rcases hnewest first ((htouching first).mpr (.inr hfirst)) with heq | hother
      · rw [heq] at hnewer
        exact CorrectionRow.Newer.irrefl r hnewer
      · exact CorrectionRow.Newer.irrefl first (hnewer.trans hother)
    obtain ⟨hactor, hversion, hfrom⟩ := hon r hrep
    have hsamePage : ∀ x, x ∈ r :: db₂.samePageCorrections ar q.claimId r ↔ _ :=
      fun x => mem_samePage hhead ((hpage _).trans hfrom)
    have hto := hone r hrep
    ext i
    constructor
    · intro ⟨x, hx, hid⟩
      obtain ⟨hxt, hactor', hto', hversion', hfrom'⟩ := (hsamePage x).mp hx
      refine ⟨x, ((htouching x).mp hxt).resolve_left fun hxold => ?_, hid⟩
      apply (hold x hxold).2
      refine ⟨hactor'.trans hactor, hto'.trans hto, hversion'.trans hversion, ?_⟩
      rw [← hpage, hfrom', hwanted]
    · intro ⟨x, hx, hid⟩
      obtain ⟨hactor', hversion', hfrom'⟩ := hon x hx
      refine ⟨x, (hsamePage x).mpr ⟨(htouching x).mpr (.inr hx), ?_, ?_, ?_, ?_⟩, hid⟩
      · rw [hactor', hactor]
      · rw [hone x hx, hto]
      · rw [hversion', hversion]
      · rw [hpage, hfrom']

/-- **When a cancel undoes a dispute**: the corrections in force are the old ones again,
whatever the worker has reassessed in between, exactly when the dispute comes off whole. -/
theorem cancel_undoes_iff {out : DisputeOutcome} {reason : Option String}
    {cancelled : CancelOutcome} {pair : DisputePair}
    (hpair : db.disputePair ar q = .ok pair)
    (hdispute : db.disputeClaim ar q = .ok (db₁, out)) (hnew : out.replayed = false)
    (hwork : Run (work host) anyStep db₁ db₂)
    (hcancel : db₂.cancelDispute ar q.claimId reason = .ok (db₃, cancelled)) :
    db₃.validIds = db.validIds ↔ ComesOffWhole ar db q pair := by
  obtain ⟨pair', h⟩ := disputeClaim_ok hdispute hnew
  obtain rfl : pair = pair' := Except.ok.inj (hpair.symm.trans h.resolved)
  have hsame := work_same hwork
  obtain ⟨r, rest, hlist, hids⟩ := cancelDispute_ok hcancel
  obtain ⟨hvalid, hdisjoint⟩ := h.validIds
  have hvalid₂ : db₂.validIds = db.validIds ∪ db.switchedIds q pair := by
    rw [← hvalid]
    unfold validIds
    rw [hsame.rows]
  rw [hids, hvalid₂, union_sdiff_eq_iff hdisjoint, cancelled_iff h hsame hlist]
  -- a cancel takes corrections in force only
  intro i ⟨x, hx, hid⟩
  obtain ⟨hhead, -⟩ := validCorrections_head hlist
  have htouch : x ∈ db₂.touching q.claimId := by
    rcases List.mem_cons.mp hx with rfl | hx
    · exact hhead
    · unfold samePageCorrections at hx
      dsimp only at hx
      split at hx
      · cases hx
      · have hfilter := (List.mem_filter.mp (List.mem_filter.mp hx).1).1
        exact (List.mem_insertionSort _).mp hfilter
  obtain ⟨hrow, hx, -, -⟩ := mem_touching.mp htouch
  rw [← hvalid₂]
  exact ⟨x, hrow, hx, hid⟩

end WayBack

/-! ## Two versions of a page -/

/-- Addresses as the pages below have them. -/
def plainAddresses : AddressReader where
  strip := id
  normalize := .ok
  identity := fun uri =>
    if uri = "https://a.example/study" then "a.example/study"
    else if uri = "https://b.example/report" then "b.example/report"
    else uri
  uuidText := toString
  parseUuid := fun _ => none

/-- A claim rests on a report, on a study and on a third page. -/
def reportTables (third : String) : EvidenceDb where
  evidence := [⟨1, 1, .supports, "source_assertion", "a", ∅, some 1, none⟩,
    ⟨2, 1, .supports, "source_assertion", "b", ∅, some 2, none⟩,
    ⟨3, 1, .supports, "source_assertion", "c", ∅, some 3, none⟩]
  revocations := []
  sources := [⟨1, some "https://b.example/report", some "a", none⟩,
    ⟨2, some "https://a.example/study", some "b", none⟩, ⟨3, some third, some "c", none⟩]
  edges := []
  corrections := []
  manifests := []
  resolutions := []
  registered := by
    intro e he s hs
    simp only [List.mem_cons, List.not_mem_nil, or_false] at he
    rcases he with rfl | rfl | rfl <;> cases hs <;> simp

/-- Two independent groups for a fact. -/
def reportRules : ConfigRequest := ⟨"1", factRules, fun _ => none, none, none⟩

def reportDb (third : String) : DisputeDb where
  memory := {
    cascade := {
      know := ⟨fun c s => if c = 1 ∧ s = 1 then some (.current 1 .supported) else none, [], [], 0⟩
      effective := 1
      dependencies := []
      graphRevision := 0
      manifests := []
      barriers := [] }
    tables := { reportTables third with assessments := [] }
    claims := [⟨1, "fact", false⟩]
    snapshots := [{ reportRules.candidate 1 0 .bootstrap with state := .active }]
    head := ⟨none, 0, none, none⟩
    sessions := ⟨0, 0, 0, false⟩
    sourceGraphRevision := 0 }
  rows := []
  members := fun _ => none
  keys := keys_nil
  ids := ids_nil
  sourceIds := by simp [reportTables]
  mirrors := rfl

/-- The report retells the study. -/
def reportDispute : DisputeRequest where
  claimId := 1
  primaryUri := "https://a.example/study"
  retellingUri := "https://b.example/report"
  reason := "same figures"
  actor := "operator:web"
  now := 10
  newId := fun r p => 10 * r + p

/-- The third page is the report again: two corrections. The worker reassesses the claim, and
both come off. -/
theorem cancel_undoes_two_retellings : ∃ db₁ out db₂ db₃ cancelled,
    (reportDb "https://b.example/report").disputeClaim plainAddresses reportDispute =
        .ok (db₁, out) ∧ out.correctionIds = [12, 32] ∧
      exec (work plainHost) db₁ [.lease 11 4 60, .process 12 0] = some db₂ ∧
      db₁.memory.know.heads.state 1 1 = some .pending ∧
      db₂.memory.know.heads.state 1 1 = some .current ∧
      db₂.cancelDispute plainAddresses 1 none = .ok (db₃, cancelled) ∧
      db₃.validIds = (reportDb "https://b.example/report").validIds := by
  refine ⟨_, _, _, _, _, rfl, rfl, rfl, rfl, rfl, rfl, ?_⟩
  have hiff := @cancel_undoes_iff plainHost plainAddresses (reportDb "https://b.example/report")
    _ _ _ reportDispute _ none _ _ rfl rfl rfl
    (Run.of_exec [.lease 11 4 60, .process 12 0] rfl) rfl
  apply hiff.mpr
  refine ⟨newCorrection reportDispute (⟨1, none⟩, ⟨2, none⟩), by decide, by decide, ?_⟩
  intro old hold
  cases hold

/-- The third page is the study again: one of the two corrections stays in force. -/
theorem second_original_stays : ¬ ∀ (host : Host) (ar : AddressReader) (db db₁ db₂ db₃ : DisputeDb)
    (q : DisputeRequest) (out : DisputeOutcome) (reason : Option String)
    (cancelled : CancelOutcome), db.disputeClaim ar q = .ok (db₁, out) →
    out.replayed = false → Run (work host) anyStep db₁ db₂ →
    db₂.cancelDispute ar q.claimId reason = .ok (db₃, cancelled) →
    db₃.validIds = db.validIds := by
  intro hall
  have hsame := hall plainHost plainAddresses (reportDb "https://a.example/study") _ _ _
    reportDispute _ none _ rfl rfl .nil rfl
  have hin : 12 ∈ (reportDb "https://a.example/study").validIds := by
    rw [← hsame]
    exact ⟨newCorrection reportDispute (⟨1, none⟩, ⟨2, none⟩), by decide, rfl, rfl⟩
  obtain ⟨x, hx, -⟩ := hin
  cases hx

end DisputeDb

end Noezema.Memory
