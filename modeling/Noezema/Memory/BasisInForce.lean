import Noezema.Memory.Coverage
import Noezema.Memory.DisputeCancel
import Noezema.Memory.Resolutions

/-! # Resolutions whose basis is gone

A resolution is checked once, when it is created. Two later transactions can take its
basis away: the cancel of a dispute switches a correction off, and a commit adds an
evidential dependency that leads from the basis claim to the claim itself. No other
transaction does, so these two are the exact condition.
-/

namespace Noezema.Memory

open Noezema.Lib Relation

namespace ResolutionDb

/-! ## The property -/

/-- `SELECT claim_id FROM evidence WHERE id = :id`. -/
def claimOf (w : ResolutionDb) (e : EvidenceId) : Option ClaimId :=
  (w.world.db.tables.evidence.find? fun r => r.id = e).map (·.claimId)

/-- The corrections in force. -/
def correctionsInForce (w : ResolutionDb) : Set Nat := (w.disputeDb fun _ => none).validIds

/-- One claim depends on another: it is the same or reaches it. -/
def Depends (w : ResolutionDb) : ClaimId → ClaimId → Prop :=
  ReflTransGen (Edge w.world.db.cascade.edges)

/-- **The basis of a resolution holds.** -/
def BasisHolds (w : ResolutionDb) (r : ResolutionRow) : Prop :=
  match r.basis with
  | .correction id => id ∈ w.correctionsInForce
  | .evidence id => ∃ b t, w.claimOf id = some b ∧ w.claimOf r.evidenceId = some t ∧
      ¬ w.Depends b t

/-- **Every valid resolution has its basis**, and an evidence row has one of them at
most. -/
structure BasesHold (w : ResolutionDb) : Prop where
  holds : ∀ r ∈ w.resolutions, r.valid → w.BasisHolds r
  single : ((w.resolutions.filter (·.valid)).map (·.evidenceId)).Nodup

/-! ## The condition -/

/-- A cancel for the claim takes the correction off: it is the newest merge in force that
touches the claim, or one of the same actor, rules and original from the same page. -/
def Withdraws (ar : AddressReader) (w : ResolutionDb) (c : ClaimId) (x : CorrectionRow) : Prop :=
  let db := w.disputeDb fun _ => none
  ∃ newest ∈ db.touching c, (∀ y ∈ db.touching c, y = newest ∨ newest.Newer y) ∧
    x ∈ db.touching c ∧ (x = newest ∨ (x.actor = newest.actor ∧ x.toId = newest.toId ∧
      x.rulesVersion = newest.rulesVersion ∧ db.page ar x.fromId = db.page ar newest.fromId ∧
      db.page ar newest.fromId ≠ none))

end ResolutionDb

/-- The session's operations propose the evidential edge, and it closes no cycle. -/
def MemoryDb.Proposes (host : Host) (db : MemoryDb) (statements : ClaimId → Text)
    (pin : SnapshotId) (ops : List ProposedClaim) (x y : ClaimId) : Prop :=
  ∃ snapshot, db.snapshot? pin = some snapshot ∧
    let staged := stageOps host snapshot.rules (db.corpus statements pin) ops
    let proposed := evidentialEdges (proposedEdges host.parseUuid
      (db.depStore (staged.foldl StagedOp.writeClaim db.claims)) pin (claimDeps staged))
    (x, y) ∈ proposed ∧ ¬ OnCycle (db.cascade.edges ++ proposed) (x, y)

/-- The final transaction that is open goes through and adds the evidential edge. -/
def World.Adds (host : Host) (w : World) (x y : ClaimId) : Prop :=
  ∃ f s, w.finalizing = some f ∧ w.sessions[f.session]? = some s ∧
    (∃ out, w.db.commitMemory host w.statements s.pin f.active f.ops f.links = .ok out) ∧
    w.db.Proposes host w.statements s.pin f.ops x y

namespace ResolutionDb

/-- **The condition**: a cancel takes off no correction under a valid resolution, and a
commit leads no basis claim to the claim whose counterevidence it resolves. -/
def Spares (host : Host) (ar : AddressReader) (w : ResolutionDb) : ResolutionEvent → Prop
  | .cancel c reason =>
    (∃ out, (w.disputeDb fun _ => none).cancelDispute ar c reason = .ok out) →
      ∀ r ∈ w.resolutions, r.valid → ∀ x ∈ w.corrections,
        r.basis = .correction x.correctionId → ¬ w.Withdraws ar c x
  | .system .finalize =>
    ∀ r ∈ w.resolutions, r.valid → ∀ id, r.basis = .evidence id → ∀ b t,
      w.claimOf id = some b → w.claimOf r.evidenceId = some t →
        ¬ ReflTransGen (fun x y => Edge w.world.db.cascade.edges x y ∨ w.world.Adds host x y) b t
  | _ => True

end ResolutionDb

/-! ## The edges of a commit -/

section Edges

variable {host : Host}

/-- The evidential edges after the memory part: the stored ones and the proposed ones. -/
theorem MemoryDb.commitMemory_edge_iff {db db' : MemoryDb} {statements : ClaimId → Text}
    {pin active : SnapshotId} {ops : List ProposedClaim} {links : List EvidenceLink}
    {res : MemoryApplyResult}
    (h : db.commitMemory host statements pin active ops links = .ok (db', res))
    {x y : ClaimId} : (x, y) ∈ db'.cascade.edges ↔
      (x, y) ∈ db.cascade.edges ∨ db.Proposes host statements pin ops x y := by
  obtain ⟨db₁, happly, hdb⟩ := commitMemory_ok h
  have hedges : db'.cascade.edges = db₁.cascade.edges := by
    rw [hdb]
    split <;> rfl
  rw [hedges]
  rcases applyClaimStaging_ok happly with ⟨rfl, rfl, -⟩ | ⟨snapshot, hsnapshot, happlied⟩
  · constructor
    · exact .inl
    · intro hx
      rcases hx with hold | ⟨snapshot, -, hnew, -⟩
      · exact hold
      · simp [stageOps, claimDeps, proposedEdges, staged, collect, checkAll, evidentialEdges] at hnew
  · have hnow : db₁.cascade.edges = evidentialEdges (db.applyDeps host pin
        (stageOps host snapshot.rules (db.corpus statements pin) ops)).db.dependencies := by
      rw [happlied.cascade]
      rfl
    rw [hnow]
    unfold applyDeps
    rw [applyDependencies_edge, mem_refusedPairs]
    apply or_congr_right
    constructor
    · rintro ⟨hnew, hout⟩
      exact ⟨snapshot, hsnapshot, hnew, fun hcycle => hout ⟨hnew, hcycle⟩⟩
    · rintro ⟨snapshot', hsnapshot', hnew, hcycle⟩
      rw [hsnapshot] at hsnapshot'
      cases hsnapshot'
      exact ⟨hnew, fun hout => hcycle hout.2⟩

/-- **The edges after a final transaction.** -/
theorem World.finalize_edge_iff {digest : ManifestBody → String}
    {headDigest : List (ClaimId × Head) → String} {w w' : World}
    (h : w.systemStep host digest headDigest .finalize = some w') {x y : ClaimId} :
    (x, y) ∈ w'.db.cascade.edges ↔ (x, y) ∈ w.db.cascade.edges ∨ w.Adds host x y := by
  cases hf : w.finalizing with
  | none =>
    simp only [systemStep, hf] at h
    cases h
  | some f =>
    simp only [systemStep, hf] at h
    obtain ⟨s, hs, hcommit⟩ := Option.bind_eq_some_iff.mp h
    -- what the transaction would add is what this one adds
    have hadds : w.Adds host x y ↔
        (∃ out, w.db.commitMemory host w.statements s.pin f.active f.ops f.links = .ok out) ∧
          w.db.Proposes host w.statements s.pin f.ops x y := by
      constructor
      · intro ⟨f', s', hf', hs', hadds⟩
        rw [hf] at hf'
        cases hf'
        rw [hs] at hs'
        cases hs'
        exact hadds
      · intro hadds
        exact ⟨f, s, hf, hs, hadds⟩
    rw [hadds]
    unfold commitFinalize at hcommit
    split at hcommit
    · split at hcommit
      · rename_i error herror
        cases hcommit
        simp only [herror, reduceCtorEq, exists_false, false_and, or_false]
        rfl
      · rename_i db res hok
        cases hcommit
        refine (MemoryDb.commitMemory_edge_iff hok).trans (or_congr_right ?_)
        exact ⟨fun hnew => ⟨⟨_, hok⟩, hnew⟩, fun hnew => hnew.2⟩
    · cases hcommit

end Edges

/-! ## What a step keeps -/

namespace ResolutionDb

variable {w w' : ResolutionDb}

theorem claimOf_kept (h : w.world.db.tables.evidence <+: w'.world.db.tables.evidence)
    {e : EvidenceId} {c : ClaimId} (hc : w.claimOf e = some c) : w'.claimOf e = some c := by
  obtain ⟨new, hnew⟩ := h
  obtain ⟨row, hrow, rfl⟩ := Option.map_eq_some_iff.mp hc
  unfold claimOf
  rw [← hnew, List.find?_append, hrow]
  rfl

theorem claimOf_same (h : w'.world.db.tables.evidence.map (fun e => (e.id, e.claimId)) =
    w.world.db.tables.evidence.map (fun e => (e.id, e.claimId))) (e : EvidenceId) :
    w'.claimOf e = w.claimOf e := by
  have hpairs : ∀ rows : List Evidence, (rows.find? fun r => r.id = e).map (·.claimId) =
      ((rows.map fun r => (r.id, r.claimId)).find? fun p => p.1 = e).map (·.2) := by
    intro rows
    rw [List.find?_map, Option.map_map]
    rfl
  unfold claimOf
  rw [hpairs, hpairs, h]

/-- **The frame rule**: the basis of a resolution outlives a step that keeps the corrections
in force, the claims of the evidence and the edges. -/
theorem BasisHolds.kept {r : ResolutionRow} (h : w.BasisHolds r)
    (hforce : w.correctionsInForce ⊆ w'.correctionsInForce)
    (hclaim : ∀ e c, w.claimOf e = some c → w'.claimOf e = some c)
    (hedges : w'.world.db.cascade.edges = w.world.db.cascade.edges) : w'.BasisHolds r := by
  unfold BasisHolds at *
  cases hbasis : r.basis with
  | correction id =>
    rw [hbasis] at h
    exact hforce h
  | evidence id =>
    rw [hbasis] at h
    obtain ⟨b, t, hb, ht, hout⟩ := h
    refine ⟨b, t, hclaim _ _ hb, hclaim _ _ ht, ?_⟩
    unfold Depends at *
    rw [hedges]
    exact hout

theorem BasesHold.kept (h : w.BasesHold)
    (hrows : (w'.resolutions.filter (·.valid)).Sublist (w.resolutions.filter (·.valid)))
    (hforce : w.correctionsInForce ⊆ w'.correctionsInForce)
    (hclaim : ∀ e c, w.claimOf e = some c → w'.claimOf e = some c)
    (hedges : w'.world.db.cascade.edges = w.world.db.cascade.edges) : w'.BasesHold := by
  constructor
  · intro r hr hvalid
    have hold := hrows.subset (List.mem_filter.mpr ⟨hr, hvalid⟩)
    exact (h.holds r (List.mem_filter.mp hold).1 hvalid).kept hforce hclaim hedges
  · exact h.single.sublist (hrows.map _)

/-- Where no resolution changes, only the bases are at stake. -/
theorem BasesHold.same_rows (h : w.BasesHold) (hrows : w'.resolutions = w.resolutions) :
    w'.BasesHold ↔ ∀ r ∈ w.resolutions, r.valid → w'.BasisHolds r := by
  constructor
  · intro hw' r hr
    exact hw'.holds r (hrows ▸ hr)
  · intro hall
    constructor
    · intro r hr
      exact hall r (hrows ▸ hr)
    · rw [hrows]
      exact h.single

/-! ## Resolutions created and invalidated -/

theorem withdraw_sublist (rows : List ResolutionRow) (i : Nat) :
    ((rows.modify i ResolutionRow.withdraw).filter (·.valid)).Sublist
      (rows.filter (·.valid)) := by
  induction rows generalizing i with
  | nil => simp
  | cons r rest ih =>
    cases i with
    | zero =>
      by_cases hr : r.valid
      · simp [ResolutionRow.withdraw, hr]
      · simp [ResolutionRow.withdraw, hr]
    | succ i =>
      simp only [List.modify_succ_cons, List.filter_cons]
      split
      · exact (ih i).cons_cons r
      · exact ih i

/-- What an invalidation leaves of the rest. -/
theorem invalidate_ok {row : Nat} (h : w.invalidate row = .ok w') :
    w'.resolutions = w.resolutions.modify row ResolutionRow.withdraw ∧
      w'.corrections = w.corrections ∧
      w'.world.db.tables.evidence = w.world.db.tables.evidence ∧
      w'.world.db.cascade.edges = w.world.db.cascade.edges := by
  unfold invalidate at h
  split at h
  · rename_i db r hdb
    cases h
    refine ⟨rfl, rfl, ?_, ?_⟩
    · have htables := MemoryDb.invalidateCounterResolution_ok hdb
      exact (congrArg EvidenceDb.evidence htables :)
    · have hcascade := (MemoryDb.invalidateCounterResolution_requeues hdb).cascade
      unfold CascadeDb.edges
      exact congrArg evidentialEdges (congrArg CascadeDb.dependencies hcascade :)
  · cases h

theorem invalidate_basesHold (hw : w.BasesHold) {row : Nat} (h : w.invalidate row = .ok w') :
    w'.BasesHold := by
  obtain ⟨hrows, hcorrections, hevidence, hedges⟩ := invalidate_ok h
  apply hw.kept
  · rw [hrows]
    exact withdraw_sublist _ _
  · intro i ⟨x, hx, hi⟩
    exact ⟨x, show x ∈ w'.corrections from hcorrections ▸ hx, hi⟩
  · intro e c
    apply claimOf_kept
    rw [hevidence]
  · exact hedges

theorem invalidateFor_basesHold (hw : w.BasesHold) {correction : Nat}
    (h : w.invalidateFor correction = .ok w') : w'.BasesHold := by
  unfold invalidateFor at h
  generalize w.restingOn correction = rows at h
  induction rows generalizing w with
  | nil =>
    cases h
    exact hw
  | cons row rest ih =>
    obtain ⟨u, hu, hrest⟩ := bind_eq_ok.mp h
    exact ih (invalidate_basesHold hw hu) hrest

/-- What `_validate` has checked of the basis. -/
theorem validateBasis_holds {keys : List String} {evidenceId : EvidenceId}
    {basis : MemoryDb.ResolutionBasis} {c : ClaimId}
    (h : w.world.db.validateBasis keys evidenceId basis = .ok c) :
    w.BasisHolds ⟨⟨evidenceId, true⟩, basis⟩ := by
  unfold MemoryDb.validateBasis at h
  split at h
  · cases h
  · rename_i target htarget
    split at h
    · cases h
    · split at h
      · rename_i id
        split at h
        · cases h
        · split at h
          · cases h
          · rename_i row hrow
            split at h
            · cases h
            · split at h
              · cases h
              · rename_i hout
                refine ⟨row.claimId, target.claimId, ?_, ?_, ?_⟩
                · unfold claimOf
                  rw [hrow]
                  rfl
                · unfold claimOf
                  rw [htarget]
                  rfl
                · intro hdepends
                  apply hout
                  simp only [MemoryDb.claimDependsOn, decide_eq_true_eq, mem_computeReverseClosure]
                  by_cases hsame : row.claimId = target.claimId
                  · exact .inl hsame
                  · refine .inr ⟨hsame, ?_⟩
                    -- an evidential path is a path
                    have hpath := (reflTransGen_iff_eq_or_transGen.mp hdepends).resolve_left
                      (Ne.symm hsame)
                    refine TransGen.mono ?_ _ _ hpath
                    intro x y hedge
                    exact List.mem_map.mpr ⟨⟨x, y, .evidential⟩, mem_evidentialEdges.mp hedge, rfl⟩
      · rename_i id
        split at h
        · cases h
        · rename_i k hk
          have hmem := List.mem_of_find?_eq_some hk
          rw [w.mirrors] at hmem
          obtain ⟨row, hrow, rfl⟩ := List.mem_map.mp hmem
          dsimp only at h
          split at h
          · cases h
          · rename_i hvalid
            exact ⟨row, hrow, by simpa using hvalid, by simpa using List.find?_some hk⟩

/-- A created resolution has its basis, and is the only valid one of its evidence row. -/
theorem resolve_basesHold (hw : w.BasesHold) {keys : List String} {evidence : EvidenceId}
    {basis : MemoryDb.ResolutionBasis} {db : MemoryDb} {r : MemoryDb.CounterResolutionResult}
    (h : w.world.db.applyCounterResolution keys evidence basis = .ok (db, r))
    {htables : db.tables.toEvidenceDb = { w.world.db.tables.toEvidenceDb with
      resolutions := List.map ResolutionRow.toCounterResolution
        (w.resolutions ++ [⟨⟨evidence, true⟩, basis⟩]) }} :
    (w.withResolutions db (w.resolutions ++ [⟨⟨evidence, true⟩, basis⟩]) htables).BasesHold := by
  obtain ⟨hvalidate, hfree, -⟩ := MemoryDb.applyCounterResolution_ok h
  have hkept : ∀ x, w.BasisHolds x →
      (w.withResolutions db (w.resolutions ++ [⟨⟨evidence, true⟩, basis⟩]) htables).BasisHolds
        x := by
    intro x hx
    apply hx.kept
    · exact subset_rfl
    · intro e c
      apply claimOf_kept
      show w.world.db.tables.evidence <+: db.tables.evidence
      rw [htables]
    · have hcascade := (MemoryDb.applyCounterResolution_requeues h).cascade
      exact congrArg evidentialEdges (congrArg CascadeDb.dependencies hcascade :)
  constructor
  · intro x hx hvalid
    rcases List.mem_append.mp hx with hold | hnew
    · exact hkept x (hw.holds x hold hvalid)
    · rw [List.mem_singleton.mp hnew]
      exact hkept _ (validateBasis_holds hvalidate)
  · let row : ResolutionRow := ⟨⟨evidence, true⟩, basis⟩
    show (((w.resolutions ++ [row]).filter (·.valid)).map (·.evidenceId)).Nodup
    rw [List.filter_append, List.map_append, List.nodup_append]
    refine ⟨hw.single, List.nodup_singleton evidence, ?_⟩
    intro e he e' he' heq
    obtain ⟨x, hx, rfl⟩ := List.mem_map.mp he
    obtain ⟨hx, hvalid⟩ := List.mem_filter.mp hx
    obtain rfl : e' = evidence := List.mem_singleton.mp he'
    -- the row would have been found
    have hresolved : w.world.db.tables.resolved e' = true := by
      unfold EvidenceDb.resolved
      rw [w.resolved, List.any_map, List.any_eq_true]
      exact ⟨x, hx, by simpa [heq] using hvalid⟩
    rw [hresolved] at hfree
    cases hfree

/-! ## Disputes -/

/-- A dispute takes no correction out of force. -/
theorem dispute_inForce {ar : AddressReader} {db db' : DisputeDb} {q : DisputeRequest}
    {out : DisputeOutcome} (h : db.disputeClaim ar q = .ok (db', out)) :
    db.validIds ⊆ db'.validIds := by
  cases hnew : out.replayed with
  | false =>
    obtain ⟨pair, hdisputed⟩ := DisputeDb.disputeClaim_ok h hnew
    rw [hdisputed.validIds.1]
    exact Set.subset_union_left
  | true =>
    obtain ⟨pair, -, h⟩ := bind_eq_ok.mp h
    dsimp only at h
    split at h
    · cases h
      exact subset_rfl
    · split at h
      · obtain ⟨-, -, h⟩ := bind_eq_ok.mp h
        split at h
        · cases h
          cases hnew
        · cases h
      · cases h

/-- The newest merge is one row. -/
theorem withdraws_iff {ar : AddressReader} {c : ClaimId} {r x : CorrectionRow}
    (hhead : r ∈ (w.disputeDb fun _ => none).touching c)
    (hnewest : ∀ y ∈ (w.disputeDb fun _ => none).touching c, y = r ∨ r.Newer y) :
    w.Withdraws ar c x ↔ x ∈ (w.disputeDb fun _ => none).touching c ∧
      (x = r ∨ (x.actor = r.actor ∧ x.toId = r.toId ∧ x.rulesVersion = r.rulesVersion ∧
        (w.disputeDb fun _ => none).page ar x.fromId =
          (w.disputeDb fun _ => none).page ar r.fromId ∧
        (w.disputeDb fun _ => none).page ar r.fromId ≠ none)) := by
  constructor
  · intro ⟨newest, hin, hmax, hx⟩
    obtain rfl : newest = r := by
      rcases hnewest newest hin with heq | hlt
      · exact heq
      · rcases hmax r hhead with heq | hgt
        · exact heq.symm
        · exact absurd (hlt.trans hgt) (CorrectionRow.Newer.irrefl r)
    exact hx
  · intro hx
    exact ⟨r, hhead, hnewest, hx⟩

/-- **A cancel takes off** what the claim's newest merge stands for. -/
theorem cancel_inForce {ar : AddressReader} {db : DisputeDb} {c : ClaimId}
    {reason : Option String} {out : DisputeDb.CancelOutcome}
    (h : (w.disputeDb fun _ => none).cancelDispute ar c reason = .ok (db, out)) :
    db.validIds =
      w.correctionsInForce \ {i | ∃ x, w.Withdraws ar c x ∧ x.correctionId = i} := by
  obtain ⟨r, rest, hlist, hids⟩ := DisputeDb.cancelDispute_ok h
  obtain ⟨hhead, hnewest⟩ := DisputeDb.validCorrections_head hlist
  have hmem : ∀ x, x ∈ r :: (w.disputeDb fun _ => none).samePageCorrections ar c r ↔
      w.Withdraws ar c x := by
    intro x
    rw [withdraws_iff hhead hnewest]
    cases hpage : (w.disputeDb fun _ => none).page ar r.fromId with
    | some wanted =>
      rw [DisputeDb.mem_samePage hhead hpage]
      constructor
      · intro ⟨hx, hactor, hto, hversion, hsame⟩
        exact ⟨hx, .inr ⟨hactor, hto, hversion, hsame, by simp⟩⟩
      · intro ⟨hx, hsame⟩
        rcases hsame with rfl | ⟨hactor, hto, hversion, hsame, -⟩
        · exact ⟨hx, rfl, rfl, rfl, hpage⟩
        · exact ⟨hx, hactor, hto, hversion, hsame⟩
    | none =>
      -- a row without an address comes off alone
      have halone : (w.disputeDb fun _ => none).samePageCorrections ar c r = [] := by
        unfold DisputeDb.samePageCorrections
        simp [hpage]
      rw [halone, List.mem_singleton]
      constructor
      · intro heq
        exact ⟨heq ▸ hhead, .inl heq⟩
      · intro ⟨_, hsame⟩
        rcases hsame with heq | ⟨-, -, -, -, hne⟩
        · exact heq
        · exact absurd rfl hne
  rw [hids]
  simp only [hmem]
  rfl

/-! ## The steps -/

section Steps

variable {host : Host} {digest : ManifestBody → String}
  {headDigest : List (ClaimId × Head) → String} {ar : AddressReader}

/-- A cancel keeps the bases exactly when it takes off none of them. -/
theorem cancel_basesHold (hw : w.BasesHold) {c : ClaimId} {reason : Option String}
    {db : DisputeDb} {out : DisputeDb.CancelOutcome}
    (h : (w.disputeDb fun _ => none).cancelDispute ar c reason = .ok (db, out)) :
    (w.withDispute db (DisputeDb.cancelDispute_writes h)).BasesHold ↔
      ∀ r ∈ w.resolutions, r.valid → ∀ x ∈ w.corrections,
        r.basis = .correction x.correctionId → ¬ w.Withdraws ar c x := by
  have hwrites := DisputeDb.cancelDispute_writes h
  have hforce : (w.withDispute db hwrites).correctionsInForce = w.correctionsInForce \
      {i | ∃ x, w.Withdraws ar c x ∧ x.correctionId = i} := by
    rw [← cancel_inForce h]
    rfl
  have hrows : (w.withDispute db hwrites).BasesHold ↔ ∀ r ∈ w.resolutions, r.valid →
      (w.withDispute db hwrites).BasisHolds r := hw.same_rows rfl
  refine hrows.trans ?_
  apply forall₃_congr
  intro r hr hvalid
  have hbefore := hw.holds r hr hvalid
  unfold BasisHolds at *
  cases hbasis : r.basis with
  | correction id =>
    rw [hbasis] at hbefore
    dsimp only at hbefore ⊢
    rw [hforce]
    constructor
    · intro hin x hx hid hout
      cases hid
      exact hin.2 ⟨x, hout, rfl⟩
    · intro hall
      refine ⟨hbefore, ?_⟩
      intro ⟨x, hout, hid⟩
      have hrow : x ∈ w.corrections := by
        obtain ⟨newest, -, -, hx, -⟩ := hout
        exact (DisputeDb.mem_touching.mp hx).1
      exact hall x hrow (by rw [hid]) hout
  | evidence id =>
    rw [hbasis] at hbefore
    obtain ⟨b, t, hb, ht, hout⟩ := hbefore
    simp only [reduceCtorEq, false_implies, implies_true, iff_true]
    have hevidence : w.world.db.tables.evidence <+: db.memory.tables.evidence := by
      rw [show db.memory.tables.evidence = _ from hwrites.evidence]
      exact List.prefix_refl _
    refine ⟨b, t, claimOf_kept hevidence hb, claimOf_kept hevidence ht, ?_⟩
    unfold Depends CascadeDb.edges at *
    show ¬ ReflTransGen (Edge (evidentialEdges db.memory.cascade.dependencies)) b t
    rw [show db.memory.cascade.dependencies = _ from hwrites.dependencies]
    exact hout

/-- A final transaction keeps the bases exactly when no dependency it adds leads a basis
claim to the claim itself. -/
theorem finalize_basesHold (hw : w.BasesHold) {world : World}
    (h : w.world.systemStep host digest headDigest .finalize = some world) :
    (w.withWorld world (World.systemStep_keeps (by rfl) h).1).BasesHold ↔
      w.Spares host ar (.system .finalize) := by
  have hkeeps : KeepsEvidence w.world.db world.db := (World.systemStep_keeps (by rfl) h).1
  have hdepends : ∀ b t, (w.withWorld world hkeeps).Depends b t ↔ ReflTransGen
      (fun x y => Edge w.world.db.cascade.edges x y ∨ w.world.Adds host x y) b t := by
    intro b t
    have hedge : Edge world.db.cascade.edges =
        fun x y => Edge w.world.db.cascade.edges x y ∨ w.world.Adds host x y := by
      funext x y
      exact propext (World.finalize_edge_iff h)
    show ReflTransGen (Edge world.db.cascade.edges) b t ↔ _
    rw [hedge]
  have hrows : (w.withWorld world hkeeps).BasesHold ↔ ∀ r ∈ w.resolutions, r.valid →
      (w.withWorld world hkeeps).BasisHolds r := hw.same_rows rfl
  refine hrows.trans ?_
  apply forall₃_congr
  intro r hr hvalid
  have hbefore := hw.holds r hr hvalid
  unfold BasisHolds at *
  cases hbasis : r.basis with
  | correction id =>
    rw [hbasis] at hbefore
    simp only [reduceCtorEq, false_implies, implies_true, iff_true]
    exact hbefore
  | evidence id =>
    rw [hbasis] at hbefore
    obtain ⟨b, t, hb, ht, -⟩ := hbefore
    have hb' : (w.withWorld world hkeeps).claimOf id = some b := claimOf_kept hkeeps.evidence hb
    have ht' : (w.withWorld world hkeeps).claimOf r.evidenceId = some t :=
      claimOf_kept hkeeps.evidence ht
    constructor
    · intro ⟨b', t', hb'', ht'', hout⟩ id' hid b₀ t₀ hb₀ ht₀
      cases hid
      rw [hb'] at hb''
      rw [ht'] at ht''
      rw [hb] at hb₀
      rw [ht] at ht₀
      cases hb''
      cases ht''
      cases hb₀
      cases ht₀
      rw [← hdepends]
      exact hout
    · intro hall
      refine ⟨b, t, hb', ht', ?_⟩
      rw [hdepends]
      exact hall id rfl b t hb ht

/-- **The step**: the bases hold after it exactly when it spares them. -/
theorem step_basesHold (hw : w.BasesHold) {e : ResolutionEvent}
    (h : w.resolutionStep host digest headDigest ar e = some w') :
    w'.BasesHold ↔ w.Spares host ar e := by
  cases e with
  | system e =>
    simp only [resolutionStep] at h
    split at h
    · rename_i he
      split at h
      · rename_i world hworld
        cases h
        by_cases hfin : e = .finalize
        · subst hfin
          exact finalize_basesHold hw hworld
        · have hspares : w.Spares host ar (.system e) := by
            unfold Spares
            split
            · rename_i heq
              cases heq
            · rename_i heq
              cases heq
              exact absurd rfl hfin
            · trivial
          refine iff_of_true ?_ hspares
          obtain ⟨hkeeps, hdependencies⟩ := World.systemStep_keeps he hworld
          apply hw.kept
          · exact List.Sublist.refl _
          · exact subset_rfl
          · intro i c
            exact claimOf_kept hkeeps.evidence
          · exact congrArg evidentialEdges (hdependencies hfin)
      · cases h
    · cases h
  | sourceGraph tables sourceIds =>
    simp only [resolutionStep] at h
    split at h
    · rename_i hsame
      cases h
      refine iff_of_true ?_ trivial
      apply hw.kept
      · exact List.Sublist.refl _
      · exact subset_rfl
      · intro i c hc
        rw [claimOf_same ?_, hc]
        show (w.world.db.applySourceGraphChange tables sourceIds).1.tables.evidence.map _ = _
        rw [applySourceGraphChange_tables]
        exact hsame.2.2.2
      · have hcascade := (MemoryDb.applySourceGraphChange_requeues w.world.db tables
          sourceIds).cascade
        exact congrArg evidentialEdges (congrArg CascadeDb.dependencies hcascade :)
    · cases h
  | dispute members q =>
    simp only [resolutionStep] at h
    split at h
    · rename_i db out hdispute
      cases h
      refine iff_of_true ?_ trivial
      have hwrites := DisputeDb.disputeClaim_writes hdispute
      apply hw.kept
      · exact List.Sublist.refl _
      · show (w.disputeDb members).validIds ⊆ db.validIds
        exact dispute_inForce hdispute
      · intro i c
        apply claimOf_kept
        rw [show (w.withDispute db hwrites).world.db.tables.evidence = _ from hwrites.evidence]
        exact List.prefix_refl _
      · exact congrArg evidentialEdges hwrites.dependencies
    · cases h
      exact iff_of_true hw trivial
  | cancel c reason =>
    simp only [resolutionStep] at h
    split at h
    · rename_i db out hcancel
      cases h
      rw [cancel_basesHold hw hcancel]
      exact ⟨fun hall _ => hall, fun hspares => hspares ⟨_, hcancel⟩⟩
    · rename_i error hcancel
      cases h
      refine iff_of_true hw ?_
      intro ⟨out, hok⟩
      rw [hcancel] at hok
      cases hok
  | resolve keys evidence basis =>
    simp only [resolutionStep] at h
    split at h
    · rename_i db r hok
      cases h
      exact iff_of_true (resolve_basesHold hw hok) trivial
    · cases h
      exact iff_of_true hw trivial
  | unresolve row =>
    simp only [resolutionStep] at h
    split at h
    · rename_i w₁ hok
      cases h
      exact iff_of_true (invalidate_basesHold hw hok) trivial
    · cases h
      exact iff_of_true hw trivial
  | unresolveFor correction =>
    simp only [resolutionStep] at h
    split at h
    · rename_i w₁ hok
      cases h
      exact iff_of_true (invalidateFor_basesHold hw hok) trivial
    · cases h
      exact iff_of_true hw trivial

/-- **When resolutions keep their basis**: in every run whose cancels take off no
correction under a valid resolution and whose commits lead no basis claim to the claim
itself, every valid resolution has its basis, and an evidence row one of them at most. -/
theorem bases_hold {start : ResolutionDb} (hstart : start.resolutions = [])
    (h : Run (resolutionStep host digest headDigest ar) (Spares host ar) start w) :
    w.BasesHold := by
  apply h.invariant (I := BasesHold)
  · constructor
    · rw [hstart]
      simp
    · rw [hstart]
      simp
  · intro a b e ha hspares hstep
    exact (step_basesHold ha hstep).mpr hspares

end Steps

/-! ## A resolution with its correction -/

/-- The migrated database with two registered pages. -/
def pageDb : ResolutionDb where
  world := { freshWorld with db := { freshWorld.db with tables := { emptyTables with
    sources := [⟨1, some "https://b.example/report", some "a", none⟩,
      ⟨2, some "https://a.example/study", some "b", none⟩]
    registered := nofun } } }
  corrections := []
  resolutions := []
  keys := keys_nil
  ids := ids_nil
  sourceIds := by simp
  mirrors := rfl
  resolved := rfl

/-- A session asserts a claim; the report supports it, and the study counters it. -/
def counteredCommit : List ResolutionEvent :=
  [.system (.admission 1), .system (.committing 0), .system (.prepare 0),
    .system (.beginFinalize 0 [⟨⟨['a'], "fact", none⟩, 1, true, ∅, []⟩]
      [⟨0, some ⟨0, 0, .supports, "source_assertion", "a", ∅, some 1, none⟩⟩,
        ⟨0, some ⟨0, 0, .counters, "source_assertion", "b", ∅, some 2, none⟩⟩])]

/-- The report retells the study, which explains the counterevidence. -/
def resolvedCounter : List ResolutionEvent :=
  [.dispute (fun _ => none) DisputeDb.reportDispute, .resolve [] 1 (.correction 12)]

def hostSystem : ResolutionDb → ResolutionEvent → Option ResolutionDb :=
  resolutionStep plainHost sizeDigest (fun _ => "heads") DisputeDb.plainAddresses

/-- The database with the claim, and then with its counterevidence resolved. -/
def counteredDb : ResolutionDb :=
  (exec hostSystem pageDb (counteredCommit ++ [.system .finalize])).getD pageDb

def resolvedDb : ResolutionDb := (exec hostSystem counteredDb resolvedCounter).getD pageDb

theorem counteredDb_reached :
    exec hostSystem pageDb (counteredCommit ++ [.system .finalize]) = some counteredDb := rfl

theorem resolvedDb_reached : exec hostSystem counteredDb resolvedCounter = some resolvedDb := rfl

/-- The claim is assessed again. -/
def reassessment : List ResolutionEvent :=
  [.system (.worker (.lease 5 10 100)), .system (.worker (.process 6 0))]

/-- Where the resolution is withdrawn first. -/
def withdrawnDb : ResolutionDb :=
  (exec hostSystem resolvedDb [.unresolveFor 12, .cancel 1 none]).getD pageDb

/-- The resolution is withdrawn before its correction; both come again. -/
theorem bases_hold_withdrawn : exec hostSystem resolvedDb [.unresolveFor 12, .cancel 1 none] =
      some withdrawnDb ∧
    ∃ w, exec hostSystem withdrawnDb (reassessment ++ resolvedCounter) = some w ∧
      w.resolutions.map (·.valid) = [false, true] ∧ w.BasesHold := by
  refine ⟨rfl, _, rfl, rfl, ?_⟩
  have hplain : ∀ (events : List ResolutionEvent) (a b : ResolutionDb),
      exec hostSystem a events = some b →
      (∀ e ∈ events, ∀ x : ResolutionDb, x.Spares plainHost DisputeDb.plainAddresses e) →
      Run hostSystem (Spares plainHost DisputeDb.plainAddresses) a b :=
    fun events _ _ h hspares => Run.of_exec_guarded events h hspares
  have hbegun := hplain counteredCommit pageDb _ rfl (by
    intro e he x
    fin_cases he <;> trivial)
  have hcommitted : Run hostSystem (Spares plainHost DisputeDb.plainAddresses) pageDb
      counteredDb := Run.snoc (e := .system .finalize) hbegun (by
    intro r hr
    cases hr) rfl
  have hunresolved := hcommitted.trans (hplain (resolvedCounter ++ [.unresolveFor 12]) _ _ rfl (by
    intro e he x
    fin_cases he <;> trivial))
  have hwithdrawn : Run hostSystem (Spares plainHost DisputeDb.plainAddresses) pageDb
      withdrawnDb := Run.snoc (e := .cancel 1 none) hunresolved (by
    intro _ r hr hvalid
    rw [List.mem_singleton.mp hr] at hvalid
    cases hvalid) rfl
  exact bases_hold rfl (hwithdrawn.trans (hplain (reassessment ++ resolvedCounter) _ _ rfl (by
    intro e he x
    fin_cases he <;> trivial)))

/-- The dispute is cancelled under the resolution, which stays valid. -/
theorem cancelled_basis_stays : ¬ ∀ (host : Host) (digest : ManifestBody → String)
    (headDigest : List (ClaimId × Head) → String) (ar : AddressReader) (start w : ResolutionDb),
    start.world.Initial → start.corrections = [] → start.resolutions = [] →
    Run (resolutionStep host digest headDigest ar) anyStep start w → w.BasesHold := by
  intro hall
  have hinit : pageDb.world.Initial := { freshWorld_initial with }
  have hresolved := (Run.of_exec _ counteredDb_reached).trans (Run.of_exec _ resolvedDb_reached)
  have hrun := hresolved.trans (@Run.of_exec _ _ hostSystem resolvedDb _ [.cancel 1 none] rfl)
  have hholds := (hall _ _ _ _ _ _ hinit rfl rfl hrun).holds ⟨⟨1, true⟩, .correction 12⟩
    List.mem_cons_self rfl
  obtain ⟨x, hx, hvalid, -⟩ := hholds
  rw [List.mem_singleton.mp hx] at hvalid
  cases hvalid

end ResolutionDb

end Noezema.Memory
