import Noezema.Cognition.Retrieval
import Noezema.Memory.ClaimUniqueness

/-! # The edges a commit admits

Which of the proposed dependencies a commit stores. The cycle check drops its edges by their
pairs of claims, from a list that holds the research edges as well. And an evidential edge
needs a target with a current head, whether or not an open barrier protects the target.

`researchEdges_iff`: when the research edges are stored.
`unprotected_iff`: when no evidential edge leads to a protected claim.
-/

namespace Noezema.Memory

open Relation Noezema.Lib

/-! ## What is proposed over what is stored -/

/-- Dependencies proposed over a graph of claims. -/
structure Proposal where
  stored : ClaimDependency → Prop
  known : ClaimId → Prop
  current : ClaimId → Prop
  proposed : ClaimDependency → Prop

namespace Proposal

variable (P : Proposal)

/-- A proposed dependency that passes every check but the one for cycles. -/
structure Admissible (d : ClaimDependency) : Prop where
  proposed : P.proposed d
  other : d.toClaimId ≠ d.fromClaimId
  target : P.known d.toClaimId
  current : d.kind = .evidential → P.current d.toClaimId

/-- A stored or an admissible evidential edge. -/
def EvidentialLink (a b : ClaimId) : Prop :=
  P.stored ⟨a, b, .evidential⟩ ∨ P.Admissible ⟨a, b, .evidential⟩

/-- An admissible evidential edge that closes a cycle of such edges. -/
structure ClosesCycle (a b : ClaimId) : Prop where
  admissible : P.Admissible ⟨a, b, .evidential⟩
  back : ReflTransGen P.EvidentialLink b a

end Proposal

/-! ## What passes the checks -/

section Checks

variable {parseUuid : String → Option ClaimId} {db : DepStore} {snapshot : SnapshotId}
  {claimDeps : List (ClaimId × List RawDependency)} {d : ClaimDependency}

/-- The raw dependency reads as the edge. -/
def RawDependency.Reads (parseUuid : String → Option ClaimId) (raw : RawDependency)
    (d : ClaimDependency) : Prop :=
  ∃ kind claimId, raw = .dict kind claimId ∧ parseKind (kind.getD "evidential") = some d.kind ∧
    parseUuid (claimId.getD "") = some d.toClaimId

/-- What the dependency section is given. -/
def DepStore.proposal (parseUuid : String → Option ClaimId) (db : DepStore)
    (snapshot : SnapshotId) (claimDeps : List (ClaimId × List RawDependency)) : Proposal where
  stored d := d ∈ db.dependencies
  known c := c ∈ db.claims
  current c := db.heads.state c snapshot = some .current
  proposed d := ∃ deps, (d.fromClaimId, deps) ∈ claimDeps ∧ ∃ raw ∈ deps, raw.Reads parseUuid d

theorem checkDependency_ok_iff {c : ClaimId} {kind claimId : Option String} :
    checkDependency parseUuid db snapshot c kind claimId = .ok d ↔
      d.fromClaimId = c ∧ parseKind (kind.getD "evidential") = some d.kind ∧
        parseUuid (claimId.getD "") = some d.toClaimId ∧ d.toClaimId ≠ d.fromClaimId ∧
        d.toClaimId ∈ db.claims ∧
        (d.kind = .evidential → db.heads.state d.toClaimId snapshot = some .current) := by
  obtain ⟨source, target, k⟩ := d
  unfold checkDependency
  cases hkind : parseKind (kind.getD "evidential") with
  | none => simp [hkind]
  | some k' =>
    cases hid : parseUuid (claimId.getD "") with
    | none => simp [hkind, hid]
    | some t =>
      simp only [hkind, hid]
      by_cases hself : t = c
      · simp only [if_pos hself, reduceCtorEq, Option.some.injEq, false_iff]
        rintro ⟨rfl, rfl, rfl, hne, _⟩
        exact hne hself
      by_cases hmem : t ∈ db.claims
      swap
      · simp only [if_neg hself, if_pos hmem, reduceCtorEq, Option.some.injEq, false_iff]
        rintro ⟨rfl, rfl, rfl, _, hin, _⟩
        exact hmem hin
      simp only [if_neg hself, if_neg (not_not.mpr hmem)]
      split
      · rename_i hcurrent
        simp only [reduceCtorEq, Option.some.injEq, false_iff]
        rintro ⟨rfl, rfl, rfl, _, _, hok⟩
        exact hcurrent.2 (hok hcurrent.1)
      · rename_i hcurrent
        simp only [Except.ok.injEq, ClaimDependency.mk.injEq, Option.some.injEq]
        constructor
        · rintro ⟨rfl, rfl, rfl⟩
          refine ⟨rfl, rfl, rfl, hself, hmem, fun hk => ?_⟩
          by_contra hne
          exact hcurrent ⟨hk, hne⟩
        · rintro ⟨rfl, rfl, rfl, _⟩
          exact ⟨rfl, rfl, rfl⟩

theorem mem_collect_iff {ds : List (ClaimId × RawDependency)} {c : ClaimId}
    {k i : Option String} : (c, k, i) ∈ (collect ds).1 ↔ (c, .dict k i) ∈ ds := by
  refine ⟨mem_collect, ?_⟩
  intro h
  induction ds with
  | nil => cases h
  | cons x ds ih =>
    obtain ⟨c', d⟩ := x
    cases d with
    | notDict =>
      rcases List.mem_cons.mp h with heq | h
      · cases heq
      · exact ih h
    | dict k' i' =>
      rcases List.mem_cons.mp h with heq | h
      · cases heq
        exact List.mem_cons_self
      · exact List.mem_cons_of_mem _ (ih h)

theorem mem_checkAll_iff {ds : List (ClaimId × Option String × Option String)} :
    d ∈ (checkAll parseUuid db snapshot ds).1 ↔
      ∃ c k i, (c, k, i) ∈ ds ∧ checkDependency parseUuid db snapshot c k i = .ok d := by
  refine ⟨mem_checkAll, ?_⟩
  rintro ⟨c, k, i, hmem, hok⟩
  induction ds with
  | nil => cases hmem
  | cons x ds ih =>
    simp only [checkAll]
    rcases List.mem_cons.mp hmem with rfl | hmem
    · simp only [hok]
      exact List.mem_cons_self
    · cases checkDependency parseUuid db snapshot x.1 x.2.1 x.2.2 with
      | ok d' => exact List.mem_cons_of_mem _ (ih hmem)
      | error r => exact ih hmem

/-- **The admissible edges**, said once. -/
theorem mem_proposedEdges :
    d ∈ proposedEdges parseUuid db snapshot claimDeps ↔
      (db.proposal parseUuid snapshot claimDeps).Admissible d := by
  rw [proposedEdges, mem_checkAll_iff]
  constructor
  · rintro ⟨c, k, i, hmem, hok⟩
    obtain ⟨x, hx, hin⟩ := List.mem_flatMap.mp (mem_collect_iff.mp hmem)
    obtain ⟨raw, hraw, heq⟩ := List.mem_map.mp hin
    obtain ⟨rfl, rfl⟩ := Prod.mk.inj heq
    obtain ⟨hfrom, hkind, hid, hother, htarget, hcurrent⟩ := checkDependency_ok_iff.mp hok
    exact ⟨⟨x.2, hfrom ▸ hx, _, hraw, k, i, rfl, hkind, hid⟩, hother, htarget, hcurrent⟩
  · rintro ⟨⟨deps, hx, raw, hraw, k, i, rfl, hkind, hid⟩, hother, htarget, hcurrent⟩
    refine ⟨d.fromClaimId, k, i, mem_collect_iff.mpr ?_,
      checkDependency_ok_iff.mpr ⟨rfl, hkind, hid, hother, htarget, hcurrent⟩⟩
    exact List.mem_flatMap.mpr ⟨_, hx, List.mem_map_of_mem hraw⟩

/-! ## The check for cycles -/

theorem mem_refusedPairs_iff {a b : ClaimId} :
    (a, b) ∈ refusedPairs db (proposedEdges parseUuid db snapshot claimDeps) ↔
      (db.proposal parseUuid snapshot claimDeps).ClosesCycle a b := by
  have hedge : Edge (evidentialEdges db.dependencies ++
      evidentialEdges (proposedEdges parseUuid db snapshot claimDeps)) =
        (db.proposal parseUuid snapshot claimDeps).EvidentialLink := by
    ext x y
    rw [Edge, List.mem_append, mem_evidentialEdges, mem_evidentialEdges, mem_proposedEdges]
    rfl
  rw [mem_refusedPairs, OnCycle, hedge, mem_evidentialEdges, mem_proposedEdges]
  constructor
  · rintro ⟨hadm, _, hback⟩
    exact ⟨hadm, hback⟩
  · intro h
    exact ⟨h.admissible, List.mem_append_right _
      (mem_evidentialEdges.mpr (mem_proposedEdges.mpr h.admissible)), h.back⟩

/-- **What a commit stores**: what is stored, and the admissible edges of pairs that close
no cycle. -/
theorem mem_applyDependencies :
    d ∈ (applyDependencies parseUuid db snapshot claimDeps).db.dependencies ↔
      d ∈ db.dependencies ∨ ((db.proposal parseUuid snapshot claimDeps).Admissible d ∧
        ¬ (db.proposal parseUuid snapshot claimDeps).ClosesCycle d.fromClaimId
          d.toClaimId) := by
  rw [← mem_proposedEdges, ← mem_refusedPairs_iff]
  simp only [applyDependencies, mem_insertEdges, List.mem_filter, decide_eq_true_eq,
    proposedEdges]

end Checks

/-! ## Research edges -/

/-- **When the research edges are stored.** They are the stored and the admissible ones
exactly when no admissible one that is not stored joins the pair of an evidential edge that
closes a cycle. -/
theorem researchEdges_iff (parseUuid : String → Option ClaimId) (db : DepStore)
    (snapshot : SnapshotId) (claimDeps : List (ClaimId × List RawDependency)) :
    (∀ d : ClaimDependency, d.kind = .research →
      (d ∈ (applyDependencies parseUuid db snapshot claimDeps).db.dependencies ↔
        d ∈ db.dependencies ∨ (db.proposal parseUuid snapshot claimDeps).Admissible d)) ↔
    ∀ d : ClaimDependency, d.kind = .research →
      (db.proposal parseUuid snapshot claimDeps).Admissible d → d ∉ db.dependencies →
      ¬ (db.proposal parseUuid snapshot claimDeps).ClosesCycle d.fromClaimId d.toClaimId := by
  constructor
  · intro h d hkind hadm hnew
    rcases mem_applyDependencies.mp ((h d hkind).mpr (.inr hadm)) with hold | ⟨-, hclear⟩
    · exact absurd hold hnew
    · exact hclear
  · intro h d hkind
    rw [mem_applyDependencies]
    constructor
    · intro hd
      exact hd.imp_right And.left
    · rintro (hold | hadm)
      · exact .inl hold
      · -- an edge that is stored already stays, whatever is filtered
        by_cases hold : d ∈ db.dependencies
        · exact .inl hold
        · exact .inr ⟨hadm, h d hkind hadm hold⟩

/-- Claim `2` proposes an evidential and a research edge to claim `1`, which rests on it. -/
def bothKinds : List (ClaimId × List RawDependency) :=
  [(2, [.dict none (some "00000000-0000-0000-0000-000000000001"),
    .dict (some "research") (some "00000000-0000-0000-0000-000000000001")])]

/-- The two claims with the edge from `1` to `2`. -/
def restingClaims : DepStore := { twoClaims with dependencies := [⟨1, 2, .evidential⟩] }

/-- The research edge goes with the evidential one. -/
theorem researchEdge_dropped : ¬ ∀ (parseUuid : String → Option ClaimId) (db : DepStore)
    (snapshot : SnapshotId) (claimDeps : List (ClaimId × List RawDependency))
    (d : ClaimDependency), d.kind = .research →
    (d ∈ (applyDependencies parseUuid db snapshot claimDeps).db.dependencies ↔
      d ∈ db.dependencies ∨ (db.proposal parseUuid snapshot claimDeps).Admissible d) := by
  intro h
  have hadm : (restingClaims.proposal parseTwo 0 bothKinds).Admissible ⟨2, 1, .research⟩ :=
    mem_proposedEdges.mp (by decide)
  exact absurd ((h parseTwo restingClaims 0 bothKinds ⟨2, 1, .research⟩ rfl).mpr (.inr hadm))
    (by decide)

/-! ## Claims behind an open barrier -/

/-- `protected_claim_ids`: the closures of the open barriers. -/
def CascadeDb.protectedClaimIds (db : CascadeDb) : List ClaimId :=
  (db.manifests.filter fun m => db.barriers.any fun b =>
    b.closureManifestId = some m.id ∧ b.status ≠ .resolved).flatMap (·.body.claimIds)

/-- The claim an operation ends at: the one it proposes as new, or the one it is matched
with. -/
def ProposedClaim.EndsAt (host : Host) (rules : ClaimTypeRules) (corpus : Corpus)
    (p : ProposedClaim) (c : ClaimId) : Prop :=
  (p.ProposesNew rules corpus p.op.clipped p.op.claimType ∧ c = p.newId) ∨
    p.Matches host rules corpus c

namespace MemoryDb

/-- What the operations of a commit propose. -/
def proposal (host : Host) (rules : ClaimTypeRules) (db : MemoryDb)
    (statements : ClaimId → Text) (pin : SnapshotId) (ops : List ProposedClaim) : Proposal where
  stored d := d ∈ db.cascade.dependencies
  known c := c ∈ db.claims.map (·.id) ∨ ∃ p ∈ ops,
    p.ProposesNew rules (db.corpus statements pin) p.op.clipped p.op.claimType ∧ p.newId = c
  current c := db.know.heads.state c pin = some .current
  proposed d := ∃ p ∈ ops, p.EndsAt host rules (db.corpus statements pin) d.fromClaimId ∧
    ∃ raw ∈ p.dependencies, raw.Reads host.parseUuid d

section Commit

variable {host : Host} {db db' : MemoryDb} {statements : ClaimId → Text} {pin : SnapshotId}
  {ops : List ProposedClaim} {links : List EvidenceLink} {res : MemoryApplyResult}
  {snapshot : ConfigSnapshot}

theorem endsAt_iff {rules : ClaimTypeRules} {corpus : Corpus} {p : ProposedClaim}
    (hp : p ∈ ops) {c : ClaimId} :
    StagedOp.claim ⟨p, stageClaim host.parseReference host.hex (fun t => (rules t).isSome)
      corpus p.op⟩ = some c ↔ p.EndsAt host rules corpus c := by
  rw [stageOps_claim (List.mem_map_of_mem hp), ProposedClaim.EndsAt]
  exact or_congr_left (and_congr_left' created_iff)

/-- **The dependency section** is given what the operations propose. -/
theorem applyDeps_proposal {rules : ClaimTypeRules} :
    (db.depStore ((stageOps host rules (db.corpus statements pin) ops).foldl
      StagedOp.writeClaim db.claims)).proposal host.parseUuid pin
        (claimDeps (stageOps host rules (db.corpus statements pin) ops)) =
      db.proposal host rules statements pin ops := by
  unfold DepStore.proposal proposal depStore
  congr 1
  · ext c
    rw [StagedOp.foldl_writeClaim_ids, List.mem_append]
    apply or_congr_right
    simp only [List.mem_filterMap, stageOps, List.mem_map, StagedOp.newClaim?_eq_some]
    constructor
    · rintro ⟨_, ⟨p, hp, rfl⟩, hcreated, hid⟩
      exact ⟨p, hp, created_iff.mp hcreated, hid⟩
    · rintro ⟨p, hp, hnew, hid⟩
      exact ⟨_, ⟨p, hp, rfl⟩, created_iff.mpr hnew, hid⟩
  · ext d
    simp only [claimDeps, List.mem_filterMap, stageOps, List.mem_map, Option.map_eq_some_iff,
      Prod.mk.injEq]
    constructor
    · rintro ⟨_, ⟨_, ⟨p, hp, rfl⟩, c, hclaim, rfl, rfl⟩, raw, hraw, hreads⟩
      exact ⟨p, hp, (endsAt_iff hp).mp hclaim, raw, hraw, hreads⟩
    · rintro ⟨p, hp, hends, raw, hraw, hreads⟩
      exact ⟨_, ⟨_, ⟨p, hp, rfl⟩, _, (endsAt_iff hp).mpr hends, rfl, rfl⟩, raw, hraw, hreads⟩

/-- The dependencies after a commit. -/
theorem mem_committed (hsnapshot : db.snapshot? pin = some snapshot)
    (h : db.applyClaimStaging host statements pin ops links = .ok (db', res))
    {d : ClaimDependency} :
    d ∈ db'.cascade.dependencies ↔ d ∈ db.cascade.dependencies ∨
      ((db.proposal host snapshot.rules statements pin ops).Admissible d ∧
        ¬ (db.proposal host snapshot.rules statements pin ops).ClosesCycle d.fromClaimId
          d.toClaimId) := by
  rcases applyClaimStaging_ok h with ⟨rfl, rfl, -⟩ | ⟨snapshot', hsnapshot', happlied⟩
  · rw [or_iff_left]
    rintro ⟨⟨⟨p, hp, _⟩, _⟩, _⟩
    cases hp
  obtain rfl := Option.some.inj (hsnapshot.symm.trans hsnapshot')
  rw [happlied.cascade]
  show d ∈ (db.applyDeps host pin _).db.dependencies ↔ _
  rw [applyDeps, mem_applyDependencies, applyDeps_proposal]
  rfl

/-- **When no edge leads behind a barrier.** The evidential edges that a commit adds lead to
no claim of an open barrier exactly when each admissible one that does is stored already, or
closes a cycle. -/
theorem unprotected_iff (hsnapshot : db.snapshot? pin = some snapshot)
    (h : db.applyClaimStaging host statements pin ops links = .ok (db', res)) :
    (∀ f t, ⟨f, t, .evidential⟩ ∈ db'.cascade.dependencies →
      ⟨f, t, .evidential⟩ ∉ db.cascade.dependencies → t ∉ db.cascade.protectedClaimIds) ↔
    ∀ f t, (db.proposal host snapshot.rules statements pin ops).Admissible
        ⟨f, t, .evidential⟩ → t ∈ db.cascade.protectedClaimIds →
      ⟨f, t, .evidential⟩ ∈ db.cascade.dependencies ∨
        (db.proposal host snapshot.rules statements pin ops).ClosesCycle f t := by
  constructor
  · intro hsafe f t hadm hprotected
    by_contra hnot
    obtain ⟨hnew, hclear⟩ := not_or.mp hnot
    exact hsafe f t ((mem_committed hsnapshot h).mpr (.inr ⟨hadm, hclear⟩)) hnew hprotected
  · intro hgood f t hstored hnew hprotected
    rcases (mem_committed hsnapshot h).mp hstored with hold | ⟨hadm, hclear⟩
    · exact hnew hold
    · rcases hgood f t hadm hprotected with hold | hcycle
      · exact hnew hold
      · exact hclear hcycle

end Commit

end MemoryDb

/-! ## Between two batches -/

/-- Claims `1` to `33` are current and depend on claim `0`. -/
def widelyCited : CascadeDb :=
  { emptyWorld.db with
    know := { emptyWorld.db.know with heads := fun _ _ => some (.current 0 .supported) }
    dependencies := wideEdges }

/-- The cascade from claim `0` has taken back the first batch. -/
def firstBatch : CascadeDb :=
  match startCascade sizeDigest widelyCited (widelyCited.loadClosure 0) "dispute" with
  | .ok (db, _) => db
  | .error _ => widelyCited

/-- A commit in between. -/
def betweenBatches : MemoryDb :=
  { freshWorld.db with
    cascade := firstBatch
    claims := (List.range 34).map fun c => ⟨c, "fact", false⟩ }

/-- A host that reads the identifiers of claims `33` and `34`. -/
def readingHost : Host :=
  { plainHost with
    parseUuid := fun s =>
      if s = "00000000-0000-0000-0000-000000000021" then some 33
      else if s = "00000000-0000-0000-0000-000000000022" then some 34
      else none }

/-- A new claim that rests on claim `33`. -/
def restingFact : ProposedClaim :=
  { statedFact with
    newId := 40
    dependencies := [.dict none (some "00000000-0000-0000-0000-000000000021")] }

/-- Claim `34` does not depend on claim `0`. -/
def besideBarrier : MemoryDb :=
  { betweenBatches with claims := (List.range 35).map fun c => ⟨c, "fact", false⟩ }

/-- Claim `0` is verified again and comes to rest on claim `33`; a new claim rests on claim
`34`. -/
def besideFacts : List ProposedClaim :=
  [{ restingFact with op := ⟨['a'], "fact", some (hexOf 0)⟩ },
    { statedFact with
      newId := 41
      dependencies := [.dict none (some "00000000-0000-0000-0000-000000000022")] }]

set_option maxRecDepth 20000 in
/-- The edge to claim `33` closes a cycle, the edge to claim `34` is stored. -/
theorem unprotected_iff_beside : ∃ db' res,
    besideBarrier.applyClaimStaging readingHost freshWorld.statements 0 besideFacts [] =
      .ok (db', res) ∧
    33 ∈ besideBarrier.cascade.protectedClaimIds ∧
    ⟨41, 34, .evidential⟩ ∈ db'.cascade.dependencies ∧
    ∀ f t, ⟨f, t, .evidential⟩ ∈ db'.cascade.dependencies →
      ⟨f, t, .evidential⟩ ∉ besideBarrier.cascade.dependencies →
      t ∉ besideBarrier.cascade.protectedClaimIds := by
  refine ⟨_, _, rfl, by decide, by decide, ?_⟩
  apply (@MemoryDb.unprotected_iff readingHost besideBarrier _ freshWorld.statements 0
    besideFacts [] _ _ rfl rfl).mpr
  intro f t hadm hprotected
  have hproposed := hadm
  rw [← MemoryDb.applyDeps_proposal, ← mem_proposedEdges] at hproposed
  have hedges : ⟨f, t, .evidential⟩ ∈
      ([⟨0, 33, .evidential⟩, ⟨41, 34, .evidential⟩] : List ClaimDependency) := hproposed
  simp only [List.mem_cons, List.not_mem_nil, or_false, ClaimDependency.mk.injEq] at hedges
  obtain ⟨rfl, rfl, -⟩ | ⟨rfl, rfl, -⟩ := hedges
  · -- claim `33` depends on claim `0`
    have hstored : ⟨33, 0, .evidential⟩ ∈ besideBarrier.cascade.dependencies := by
      decide
    exact .inr ⟨hadm, .single (.inl hstored)⟩
  · exact absurd hprotected (by decide)

set_option maxRecDepth 20000 in
/-- The edge to the claim that the next batch takes back is stored. -/
theorem edge_behind_barrier : ¬ ∀ (host : Host) (db db' : MemoryDb)
    (statements : ClaimId → Text) (pin : SnapshotId) (ops : List ProposedClaim)
    (links : List EvidenceLink) (res : MemoryApplyResult),
    db.applyClaimStaging host statements pin ops links = .ok (db', res) →
    ∀ f t, ⟨f, t, .evidential⟩ ∈ db'.cascade.dependencies →
      ⟨f, t, .evidential⟩ ∉ db.cascade.dependencies → t ∉ db.cascade.protectedClaimIds := by
  intro h
  have hprotected : 33 ∈ firstBatch.protectedClaimIds := by decide
  exact h readingHost betweenBatches _ freshWorld.statements 0 [restingFact] [] _ rfl 40 33
    (by decide) (by decide) hprotected

end Noezema.Memory
