import Noezema.Memory.Validation

/-! # One claim for a statement

An operation that proposes a statement and a type reuses the claim that has them. The claim
loop looks for it among the claims with a head in the session's snapshot, and the claims it
creates have no head yet: those of one commit do not see each other.

`uniqueClaims_iff`: when no two claims with heads have one statement and type after a commit.
-/

namespace Noezema.Memory

open Noezema.Lib

/-! ## The rows of a commit -/

/-- What no round changes of a row. -/
def Claim.key (r : Claim) : ClaimId × String := (r.id, r.claimType)

namespace StagedOp

/-- The row the round inserts. -/
def newKey? (o : StagedOp) : Option (ClaimId × String) :=
  o.newClaim?.map fun c => (c, o.proposed.op.claimType)

theorem writeClaim_keys (claims : List Claim) (o : StagedOp) :
    (o.writeClaim claims).map Claim.key = claims.map Claim.key ++ o.newKey?.toList := by
  have hkeep : ∀ c : ClaimId, (claims.map fun r => if r.id = c then
      { r with hasAsOf := o.proposed.hasAsOf } else r).map Claim.key = claims.map Claim.key := by
    intro c
    rw [List.map_map]
    apply List.map_congr_left
    intro r _
    show Claim.key (if r.id = c then _ else r) = r.key
    split <;> rfl
  obtain ⟨p, result⟩ := o
  cases result with
  | error problem => simp [writeClaim, newKey?, newClaim?]
  | ok staged =>
    cases staged with
    | created => simp [writeClaim, newKey?, newClaim?, Claim.key]
    | reused c => simpa [writeClaim, newKey?, newClaim?] using hkeep c
    | reverified c => simpa [writeClaim, newKey?, newClaim?] using hkeep c

/-- **The claim loop** adds the rows of the created claims, with their types. -/
theorem foldl_writeClaim_keys (staged : List StagedOp) (claims : List Claim) :
    (staged.foldl writeClaim claims).map Claim.key =
      claims.map Claim.key ++ staged.filterMap (·.newKey?) := by
  induction staged generalizing claims with
  | nil => simp
  | cons o rest ih =>
    rw [List.foldl_cons, ih, writeClaim_keys, List.append_assoc, List.filterMap_cons]
    cases o.newKey? with
    | none => simp
    | some k => simp

theorem newClaim?_eq_some {o : StagedOp} {c : ClaimId} :
    o.newClaim? = some c ↔ o.result = .ok .created ∧ o.proposed.newId = c := by
  unfold newClaim?
  split
  · rename_i h
    simp [h]
  · rename_i h
    simp only [reduceCtorEq, false_iff, not_and]
    intro hcreated
    exact absurd hcreated h

end StagedOp

/-- The statements with those of the created claims. -/
def insertedStatements (staged : List StagedOp) (statements : ClaimId → Text) :
    ClaimId → Text := fun c =>
  match staged.find? fun o => o.newClaim? = some c with
  | some o => o.proposed.op.clipped
  | none => statements c

/-! ## The law -/

/-- A stored claim with a head under the snapshot has the statement and the type. -/
structure MemoryDb.Asserts (db : MemoryDb) (statements : ClaimId → Text) (pin : SnapshotId)
    (c : ClaimId) (s : Text) (t : String) : Prop where
  row : (c, t) ∈ db.claims.map Claim.key
  statement : statements c = s
  headed : (db.know.heads c pin).isSome

/-- **One claim for a statement**: no two claims with heads have one statement and type. -/
def MemoryDb.UniqueClaims (db : MemoryDb) (statements : ClaimId → Text) (pin : SnapshotId) :
    Prop :=
  ∀ c d s t, db.Asserts statements pin c s t → db.Asserts statements pin d s t → c = d

/-- The operation proposes a statement and a type that no claim with a head has. -/
structure ProposedClaim.ProposesNew (rules : ClaimTypeRules) (corpus : Corpus)
    (p : ProposedClaim) (s : Text) (t : String) : Prop where
  noReference : p.op.existingClaimId = none
  wellFormed : p.op.wellFormed fun t => (rules t).isSome
  statement : p.op.clipped = s
  claimType : p.op.claimType = t
  new : ∀ r ∈ corpus.rows, r.statement = s → r.claimType = t → corpus.hasHead r.id = false

/-- Two operations propose as new one statement with one type. -/
def ProposedClaim.Clash (rules : ClaimTypeRules) (corpus : Corpus) (p q : ProposedClaim) :
    Prop :=
  ∃ s t, p.ProposesNew rules corpus s t ∧ q.ProposesNew rules corpus s t

theorem ProposedClaim.Clash.symm {rules : ClaimTypeRules} {corpus : Corpus}
    {p q : ProposedClaim} (h : p.Clash rules corpus q) : q.Clash rules corpus p := by
  obtain ⟨s, t, hp, hq⟩ := h
  exact ⟨s, t, hq, hp⟩

theorem Corpus.duplicate?_eq_none {db : Corpus} {op : ClaimOp} :
    db.duplicate? op = none ↔ ∀ r ∈ db.rows, r.statement = op.clipped →
      r.claimType = op.claimType → db.hasHead r.id = false := by
  simp only [duplicate?, Option.map_eq_none_iff, List.find?_eq_none, decide_eq_true_eq,
    not_and, Bool.not_eq_true]

namespace MemoryDb

section Commit

variable {host : Host} {db db' : MemoryDb} {statements : ClaimId → Text} {pin : SnapshotId}
  {ops : List ProposedClaim} {links : List EvidenceLink} {res : MemoryApplyResult}
  {snapshot : ConfigSnapshot}

/-- What creates a claim. -/
theorem created_iff {rules : ClaimTypeRules} {corpus : Corpus} {p : ProposedClaim} :
    stageClaim host.parseReference host.hex (fun t => (rules t).isSome) corpus p.op =
        .ok .created ↔
      p.ProposesNew rules corpus p.op.clipped p.op.claimType := by
  rw [stageClaim_ok_iff]
  cases hop : p.op.existingClaimId with
  | none =>
    simp only [Corpus.duplicate?_eq_none]
    constructor
    · intro ⟨hform, hnew⟩
      exact ⟨hop, hform, rfl, rfl, hnew⟩
    · intro h
      exact ⟨h.wellFormed, h.new⟩
  | some raw =>
    simp only [and_false, false_iff]
    intro h
    rw [h.noReference] at hop
    cases hop

/-- A claim that an operation is matched with has a head. -/
theorem headed_of_matches {rules : ClaimTypeRules} {p : ProposedClaim} {c : ClaimId}
    (h : p.Matches host rules (db.corpus statements pin) c) :
    (db.know.heads c pin).isSome := by
  obtain ⟨-, hfound⟩ := h
  cases hop : p.op.existingClaimId with
  | none =>
    simp only [hop, Corpus.duplicate?] at hfound
    obtain ⟨r, hr, rfl⟩ := Option.map_eq_some_iff.mp hfound
    have hthis := List.find?_some hr
    rw [decide_eq_true_eq] at hthis
    exact hthis.2.2
  | some raw =>
    simp only [hop] at hfound
    exact (Corpus.mem_visibleIds.mp (resolve_mem hfound)).2

/-- No claim with a head has what an operation proposes as new. -/
theorem not_asserts_of_proposesNew {rules : ClaimTypeRules} {p : ProposedClaim} {c : ClaimId}
    {s : Text} {t : String} (h : p.ProposesNew rules (db.corpus statements pin) s t) :
    ¬ db.Asserts statements pin c s t := by
  intro ⟨hrow, hstatement, hheaded⟩
  obtain ⟨r, hr, hkey⟩ := List.mem_map.mp hrow
  obtain ⟨rfl, rfl⟩ := Prod.mk.inj hkey
  have hnone := h.new _ (List.mem_map_of_mem hr) hstatement rfl
  rw [show (db.corpus statements pin).hasHead r.id = (db.know.heads r.id pin).isSome from rfl,
    hheaded] at hnone
  cases hnone

/-- The rows after a commit. -/
theorem mem_keys_iff (happlied : Applied host pin
      (stageOps host snapshot.rules (db.corpus statements pin) ops) res db db')
    {c : ClaimId} {t : String} :
    (c, t) ∈ db'.claims.map Claim.key ↔ (c, t) ∈ db.claims.map Claim.key ∨
      ∃ p ∈ ops, p.ProposesNew snapshot.rules (db.corpus statements pin) p.op.clipped t ∧
        p.newId = c := by
  rw [happlied.rows, StagedOp.foldl_writeClaim_keys, List.mem_append]
  apply or_congr_right
  simp only [List.mem_filterMap, stageOps, List.mem_map, StagedOp.newKey?,
    Option.map_eq_some_iff, StagedOp.newClaim?_eq_some, Prod.mk.injEq]
  constructor
  · rintro ⟨_, ⟨p, hp, rfl⟩, _, ⟨hcreated, rfl⟩, rfl, rfl⟩
    exact ⟨p, hp, created_iff.mp hcreated, rfl⟩
  · rintro ⟨p, hp, hnew, hid⟩
    obtain rfl : p.op.claimType = t := hnew.claimType
    exact ⟨_, ⟨p, hp, rfl⟩, c, ⟨created_iff.mpr hnew, hid⟩, rfl, rfl⟩

/-- The statement of a created claim is that of its operation. -/
theorem insertedStatements_new {rules : ClaimTypeRules} {corpus : Corpus}
    (hnewIds : (ops.map (·.newId)).Nodup) {p : ProposedClaim} (hp : p ∈ ops)
    (hnew : p.ProposesNew rules corpus p.op.clipped p.op.claimType) :
    insertedStatements (stageOps host rules corpus ops) statements p.newId =
      p.op.clipped := by
  unfold insertedStatements
  split
  · rename_i o ho
    have hfound : o.newClaim? = some p.newId := by simpa using List.find?_some ho
    obtain ⟨q, hq, rfl⟩ := List.mem_map.mp (List.mem_of_find?_eq_some ho)
    have hid : q.newId = p.newId := (StagedOp.newClaim?_eq_some.mp hfound).2
    rw [List.inj_on_of_nodup_map hnewIds hq hp hid]
  · rename_i hnone
    refine absurd ?_ (List.find?_eq_none.mp hnone _ (List.mem_map_of_mem hp))
    exact decide_eq_true (StagedOp.newClaim?_eq_some.mpr ⟨created_iff.mpr hnew, rfl⟩)

/-- A stored claim keeps its statement. -/
theorem insertedStatements_old {rules : ClaimTypeRules} {corpus : Corpus} {c : ClaimId}
    (hc : ∀ p ∈ ops, p.newId ≠ c) :
    insertedStatements (stageOps host rules corpus ops) statements c = statements c := by
  unfold insertedStatements
  split
  · rename_i o ho
    have hfound : o.newClaim? = some c := by simpa using List.find?_some ho
    obtain ⟨q, hq, rfl⟩ := List.mem_map.mp (List.mem_of_find?_eq_some ho)
    exact absurd (StagedOp.newClaim?_eq_some.mp hfound).2 (hc q hq)
  · rfl

/-- A commit gives a stored claim no first head. -/
theorem headed_iff (happlied : Applied host pin
      (stageOps host snapshot.rules (db.corpus statements pin) ops) res db db')
    {c : ClaimId} (hc : ∀ p ∈ ops, p.newId ≠ c) :
    (db'.know.heads c pin).isSome ↔ (db.know.heads c pin).isSome := by
  rcases happlied.heads c pin with heq | ⟨-, ⟨o, ho, hclaim⟩, a, e, hcur⟩
  · rw [heq]
  · refine iff_of_true (by simp [hcur]) ?_
    obtain ⟨p, hp, rfl⟩ := List.mem_map.mp ho
    rcases (stageOps_claim ho).mp hclaim with ⟨-, hnew⟩ | hmatch
    · exact absurd hnew.symm (hc p hp)
    · exact headed_of_matches hmatch

/-- **What has a statement and a type after a commit**: what had them before, and the new
claims of the operations that propose them. -/
theorem asserts_iff (hnewIds : (ops.map (·.newId)).Nodup)
    (hfresh : ∀ p ∈ ops, p.newId ∉ db.claims.map (·.id)) (happlied : Applied host pin
      (stageOps host snapshot.rules (db.corpus statements pin) ops) res db db')
    {c : ClaimId} {s : Text} {t : String} :
    db'.Asserts (insertedStatements (stageOps host snapshot.rules (db.corpus statements pin) ops)
        statements) pin c s t ↔
      db.Asserts statements pin c s t ∨
        ∃ p ∈ ops, p.ProposesNew snapshot.rules (db.corpus statements pin) s t ∧ p.newId = c := by
  have hold : ∀ {t}, (c, t) ∈ db.claims.map Claim.key → ∀ p ∈ ops, p.newId ≠ c := by
    intro t hc p hp heq
    obtain ⟨r, hr, hkey⟩ := List.mem_map.mp hc
    have hid : r.id = c := congrArg Prod.fst hkey
    exact hfresh p hp (heq ▸ hid ▸ List.mem_map_of_mem hr)
  constructor
  · intro ⟨hrow, hstatement, hheaded⟩
    rcases (mem_keys_iff happlied).mp hrow with hrow | ⟨p, hp, hnew, rfl⟩
    · rw [insertedStatements_old (hold hrow)] at hstatement
      exact .inl ⟨hrow, hstatement, (headed_iff happlied (hold hrow)).mp hheaded⟩
    · obtain rfl : p.op.claimType = t := hnew.claimType
      rw [insertedStatements_new hnewIds hp hnew] at hstatement
      exact .inr ⟨p, hp, hstatement ▸ hnew, rfl⟩
  · rintro (⟨hrow, hstatement, hheaded⟩ | ⟨p, hp, hnew, rfl⟩)
    · refine ⟨(mem_keys_iff happlied).mpr (.inl hrow), ?_, ?_⟩
      · rw [insertedStatements_old (hold hrow), hstatement]
      · exact (headed_iff happlied (hold hrow)).mpr hheaded
    · obtain rfl : p.op.clipped = s := hnew.statement
      obtain rfl : p.op.claimType = t := hnew.claimType
      refine ⟨(mem_keys_iff happlied).mpr (.inr ⟨p, hp, hnew, rfl⟩), ?_, ?_⟩
      · exact insertedStatements_new hnewIds hp hnew
      · have hcreated : StagedOp.claim ⟨p, stageClaim host.parseReference host.hex
            (fun t => (snapshot.rules t).isSome) (db.corpus statements pin) p.op⟩ =
              some p.newId := by
          rw [StagedOp.claim, created_iff.mpr hnew]
        obtain ⟨a, e, hcur⟩ := happlied.assessed _ (List.mem_map_of_mem hp) _ hcreated
        rw [hcur, Option.isSome_some]

/-- **When claims stay unique.** After a commit no two claims with heads have one statement
and type exactly when no two of its operations propose the same as new. -/
theorem uniqueClaims_iff (hsnapshot : db.snapshot? pin = some snapshot)
    (hnewIds : (ops.map (·.newId)).Nodup) (hfresh : ∀ p ∈ ops, p.newId ∉ db.claims.map (·.id))
    (hbefore : db.UniqueClaims statements pin)
    (h : db.applyClaimStaging host statements pin ops links = .ok (db', res)) :
    db'.UniqueClaims (insertedStatements
        (stageOps host snapshot.rules (db.corpus statements pin) ops) statements) pin ↔
      ops.Pairwise fun p q => ¬ p.Clash snapshot.rules (db.corpus statements pin) q := by
  rcases applyClaimStaging_ok h with ⟨rfl, rfl, -⟩ | ⟨snapshot', hsnapshot', happlied⟩
  · exact iff_of_true hbefore .nil
  obtain rfl := Option.some.inj (hsnapshot.symm.trans hsnapshot')
  have hops : ops.Nodup := .of_map _ hnewIds
  constructor
  · -- two operations with one statement get two claims, which would have to be one
    intro hafter
    refine hops.pairwise_of_forall_ne ?_
    intro p hp q hq hne ⟨s, t, hpnew, hqnew⟩
    have hid : p.newId = q.newId := hafter _ _ s t
      ((asserts_iff hnewIds hfresh happlied).mpr (.inr ⟨p, hp, hpnew, rfl⟩))
      ((asserts_iff hnewIds hfresh happlied).mpr (.inr ⟨q, hq, hqnew, rfl⟩))
    exact hne (List.inj_on_of_nodup_map hnewIds hp hq hid)
  · intro hpairs c d s t hc hd
    have hsymm : Std.Symm fun p q : ProposedClaim =>
        ¬ p.Clash snapshot.rules (db.corpus statements pin) q :=
      ⟨fun _ _ hnot hclash => hnot hclash.symm⟩
    rcases (asserts_iff hnewIds hfresh happlied).mp hc with hc | ⟨p, hp, hpnew, rfl⟩
    · rcases (asserts_iff hnewIds hfresh happlied).mp hd with hd | ⟨q, hq, hqnew, rfl⟩
      · exact hbefore c d s t hc hd
      · exact (not_asserts_of_proposesNew hqnew hc).elim
    · rcases (asserts_iff hnewIds hfresh happlied).mp hd with hd | ⟨q, hq, hqnew, rfl⟩
      · exact (not_asserts_of_proposesNew hpnew hd).elim
      · -- both claims are new: their operations are two, and clash
        by_contra hne
        have hpq : p ≠ q := fun heq => hne (congrArg _ heq)
        exact hpairs.forall hp hq hpq ⟨s, t, hpnew, hqnew⟩

end Commit

end MemoryDb

/-! ## One statement twice -/

theorem freshWorld_unique : freshWorld.db.UniqueClaims freshWorld.statements 0 := by
  intro c d s t hc
  cases hc.row

/-- The claim of the report is stated again, is verified again, and another one is new. -/
def mixedFacts : List ProposedClaim :=
  [restatedFact, { statedFact with op := ⟨['a'], "fact", some (hexOf 1)⟩, newId := 3 },
    { statedFact with op := ⟨['b'], "fact", none⟩, newId := 4 }]

theorem reportedWorld_unique :
    reportedWorld.db.UniqueClaims reportedWorld.statements 0 := by
  intro c d s t hc hd
  have hkeys : reportedWorld.db.claims.map Claim.key = [(1, "fact")] := rfl
  have hcrow := hc.row
  have hdrow := hd.row
  rw [hkeys, List.mem_singleton] at hcrow hdrow
  exact (Prod.mk.inj hcrow).1.trans (Prod.mk.inj hdrow).1.symm

theorem uniqueClaims_mixed : ∃ db' res,
    reportedWorld.db.applyClaimStaging plainHost reportedWorld.statements 0 mixedFacts [] =
      .ok (db', res) ∧ db'.claims.map (·.id) = [1, 4] ∧
    db'.UniqueClaims (insertedStatements (MemoryDb.stageOps plainHost factRules
      (reportedWorld.db.corpus reportedWorld.statements 0) mixedFacts)
        reportedWorld.statements) 0 := by
  refine ⟨_, _, rfl, rfl, ?_⟩
  have hstored : ∀ q, ¬ restatedFact.Clash factRules
      (reportedWorld.db.corpus reportedWorld.statements 0) q := by
    rintro q ⟨s, t, hp, -⟩
    have hnone := hp.new ⟨1, ['a'], "fact"⟩ List.mem_cons_self hp.statement hp.claimType
    exact absurd hnone (by decide)
  apply (@MemoryDb.uniqueClaims_iff plainHost reportedWorld.db _ reportedWorld.statements 0
    mixedFacts [] _ _ rfl (by decide) (by decide) reportedWorld_unique rfl).mpr
  refine .cons (fun q _ => hstored q) (.cons ?_ (List.pairwise_singleton _ _))
  rintro q - ⟨s, t, hp, -⟩
  cases hp.noReference

/-- A statement that is proposed twice is stored twice. -/
theorem statement_stored_twice : ¬ ∀ (host : Host) (db db' : MemoryDb)
    (statements : ClaimId → Text) (pin : SnapshotId) (ops : List ProposedClaim)
    (links : List EvidenceLink) (res : MemoryApplyResult) (snapshot : ConfigSnapshot),
    db.snapshot? pin = some snapshot → (ops.map (·.newId)).Nodup →
    (∀ p ∈ ops, p.newId ∉ db.claims.map (·.id)) → db.UniqueClaims statements pin →
    db.applyClaimStaging host statements pin ops links = .ok (db', res) →
    db'.UniqueClaims (insertedStatements (MemoryDb.stageOps host snapshot.rules
      (db.corpus statements pin) ops) statements) pin := by
  intro h
  have hunique := h plainHost freshWorld.db _ freshWorld.statements 0
    [statedFact, restatedFact] [] _ (freshWorld.db.snapshots.head (List.cons_ne_nil _ _)) rfl
    (by decide) (fun _ _ => List.not_mem_nil) freshWorld_unique rfl
  have hsame : (1 : ClaimId) = 2 :=
    hunique 1 2 ['a'] "fact" ⟨by decide, by decide, rfl⟩ ⟨by decide, by decide, rfl⟩
  cases hsame

end Noezema.Memory
