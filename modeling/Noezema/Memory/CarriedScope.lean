import Noezema.Memory.EffectiveHeads
import Noezema.Memory.HostScope

/-! # The scope a claim carries

The scope of a claim goes from assessment to assessment. The worker reads the one of the
newest assessment, whatever the heads say; the commit path reads the one of the head under
its session's snapshot, and nothing unless that head is current. Of the writers only the
offline change makes a scope up: it writes the empty one.
-/

namespace Noezema.Memory

open Noezema.Lib

/-- `_head_assessed_scope`: nothing unless the head is current. -/
def MemoryDb.headAssessedScope (db : MemoryDb) (c : ClaimId) (s : SnapshotId) :
    Option Scope :=
  match db.know.heads c s with
  | some (.current a _) => (db.tables.assessments.reverse[a]?).map (·.assessedScope)
  | _ => none

/-! ## What a transaction adds -/

/-- **What a transaction does to the scopes of a claim**: the assessments it adds have
scopes in `P`, and a current head shows an assessment that some head has shown before, or
one with a scope in `P`. -/
structure Reassesses (c : ClaimId) (P : Scope → Prop) (db db' : MemoryDb) : Prop where
  added : ∃ new, db'.tables.assessments = new ++ db.tables.assessments ∧
    ∀ x ∈ new, x.claimId = c → P x.assessedScope
  heads : ∀ s a e, db'.know.heads c s = some (.current a e) →
    (∃ s' e', db.know.heads c s' = some (.current a e')) ∨
      ∃ x, db'.tables.assessments.reverse[a]? = some x ∧ P x.assessedScope

namespace Reassesses

variable {c : ClaimId} {P : Scope → Prop} {a b d : MemoryDb}

theorem refl (c : ClaimId) (P : Scope → Prop) (db : MemoryDb) : Reassesses c P db db :=
  ⟨⟨[], rfl, by simp⟩, fun s _ e h => .inl ⟨s, e, h⟩⟩

/-- An assessment keeps its place when others are added. -/
theorem getElem?_of_added {new old : List Assessment} {i : AssessmentId} {x : Assessment}
    (h : old.reverse[i]? = some x) : (new ++ old).reverse[i]? = some x := by
  rw [List.reverse_append]
  exact List.getElem?_append_left (List.getElem?_eq_some_iff.mp h).1 ▸ h

theorem trans (h : Reassesses c P a b) (k : Reassesses c P b d) : Reassesses c P a d where
  added := by
    obtain ⟨new, hnew, hP⟩ := h.added
    obtain ⟨new', hnew', hP'⟩ := k.added
    refine ⟨new' ++ new, by rw [hnew', hnew, List.append_assoc], ?_⟩
    intro x hx
    rcases List.mem_append.mp hx with hx | hx
    · exact hP' x hx
    · exact hP x hx
  heads := by
    intro s i e hs
    obtain ⟨new', hnew', -⟩ := k.added
    rcases k.heads s i e hs with ⟨s', e', hs'⟩ | hx
    · refine (h.heads s' i e' hs').imp_right ?_
      intro ⟨x, hx, hPx⟩
      rw [hnew']
      exact ⟨x, getElem?_of_added hx, hPx⟩
    · exact .inr hx

/-- Nothing is assessed, and a head that is current was current. -/
theorem of_kept (htables : b.tables.assessments = a.tables.assessments)
    (hheads : ∀ s i e, b.know.heads c s = some (.current i e) →
      ∃ s' e', a.know.heads c s' = some (.current i e')) : Reassesses c P a b :=
  ⟨⟨[], htables, by simp⟩, fun s i e h => .inl (hheads s i e h)⟩

/-- One new assessment, which the head of its claim shows. -/
theorem assessed {x : Assessment} {t : SnapshotId} {st : EpistemicStatus}
    (htables : b.tables.assessments = x :: a.tables.assessments)
    (hheads : b.know.heads =
      a.know.heads.set x.claimId t (some (.current a.tables.assessments.length st)))
    (hP : x.claimId = c → P x.assessedScope) : Reassesses c P a b where
  added := ⟨[x], htables, by simpa using hP⟩
  heads := by
    intro s i e hs
    rw [hheads] at hs
    by_cases heq : c = x.claimId ∧ s = t
    · obtain ⟨hc, rfl⟩ := heq
      rw [hc, Heads.set_same] at hs
      cases hs
      refine .inr ⟨x, ?_, hP hc.symm⟩
      rw [htables, List.reverse_cons, List.getElem?_append_right (by simp)]
      simp
    · rw [Heads.set_other _ _ heq] at hs
      exact .inl ⟨s, e, hs⟩

end Reassesses

theorem Knowledge.Invalidates.shown {k k' : Knowledge} {cs : List ClaimId} {t : SnapshotId}
    (h : Invalidates k k' cs t) {c : ClaimId} {s : SnapshotId} {a : AssessmentId}
    {e : EpistemicStatus} (hc : k'.heads c s = some (.current a e)) :
    ∃ s' e', k.heads c s' = some (.current a e') := by
  rw [h.heads] at hc
  split at hc
  · cases hk : k.heads c s with
    | none => simp [hk, invalidated] at hc
    | some v => cases v <;> simp [hk, invalidated] at hc
  · exact ⟨s, e, hc⟩

/-! ## The invariant -/

/-- **The claim is established with `e`**: its newest assessment and every current head of it
keep the anchor and the domains, and a claim with an anchor has a date. -/
structure MemoryDb.Established (e : EstablishedScope) (c : ClaimId) (db : MemoryDb) : Prop where
  row : ∃ row, db.claim? c = some row ∧ (e.anchor ≠ .none → row.hasAsOf)
  latest : e.KeptBy (latestAssessedScope db.tables c)
  heads : ∀ s a st, db.know.heads c s = some (.current a st) →
    ∃ x, db.tables.assessments.reverse[a]? = some x ∧ e.KeptBy x.assessedScope

namespace MemoryDb

variable {e : EstablishedScope} {c : ClaimId} {db db' : MemoryDb}

theorem Established.next (h : db.Established e c)
    (hre : Reassesses c e.KeptBy db db')
    (hrow : ∃ row, db'.claim? c = some row ∧ (e.anchor ≠ .none → row.hasAsOf)) :
    db'.Established e c where
  row := hrow
  latest := by
    obtain ⟨new, hnew, hP⟩ := hre.added
    rw [latestAssessedScope, hnew, List.find?_append]
    cases hfind : new.find? fun x => x.claimId = c with
    | none => exact h.latest
    | some x =>
      have hc : x.claimId = c := by simpa using List.find?_some hfind
      exact hP x (List.mem_of_find?_eq_some hfind) hc
  heads := by
    intro s a st hs
    obtain ⟨new, hnew, -⟩ := hre.added
    rcases hre.heads s a st hs with ⟨s', st', hs'⟩ | hx
    · obtain ⟨x, hx, hk⟩ := h.heads s' a st' hs'
      rw [hnew]
      exact ⟨x, Reassesses.getElem?_of_added hx, hk⟩
    · exact hx

/-- Where the rows stay. -/
theorem Established.next_same (h : db.Established e c) (hre : Reassesses c e.KeptBy db db')
    (hclaims : db'.claims = db.claims) : db'.Established e c := by
  apply h.next hre
  rw [claim?, hclaims]
  exact h.row

/-- What the commit path reads. -/
theorem Established.head (h : db.Established e c) {s : SnapshotId} {scope : Scope}
    (hs : db.headAssessedScope c s = some scope) : e.KeptBy scope := by
  unfold headAssessedScope at hs
  split at hs
  · rename_i a st hhead
    obtain ⟨x, hx, hk⟩ := h.heads s a st hhead
    rw [hx] at hs
    cases hs
    exact hk
  · cases hs

end MemoryDb

/-! ## The worker -/

section Transactions

variable {c : ClaimId} {P : Scope → Prop}

theorem Knowledge.invalidateForGood_shown {k : Knowledge} {d : ClaimId} {t s : SnapshotId}
    {a : AssessmentId} {e : EpistemicStatus}
    (h : (k.invalidateForGood d t).heads c s = some (.current a e)) :
    k.heads c s = some (.current a e) := by
  rw [invalidateForGood_eq] at h
  have hset : ∀ k' : Knowledge, k'.heads = k.heads.set d t (some .invalid) →
      k'.heads c s = some (.current a e) → k.heads c s = some (.current a e) := by
    intro k' hk' hcur
    rw [hk'] at hcur
    by_cases heq : c = d ∧ s = t
    · obtain ⟨rfl, rfl⟩ := heq
      simp at hcur
    · rwa [Heads.set_other _ _ heq] at hcur
  split at h
  · exact hset _ rfl h
  · exact hset _ rfl h
  · exact h

namespace MemoryDb

/-- A job transaction carries the scope of the newest assessment over to the next one. -/
theorem Processed.reassesses {db db' : MemoryDb} {now : Nat} {i : JobId}
    {j : ReassessmentJob} (h : Processed db now i j db')
    (hP : P (latestAssessedScope db.tables c)) : Reassesses c P db db' := by
  cases h with
  | unleased => exact .of_kept rfl fun s a e hs => ⟨s, e, hs⟩
  | insufficient claim hslot htarget hclaim =>
    apply Reassesses.of_kept
    · rfl
    · intro s a e hs
      have hbefore : (db.know.invalidateForGood claim.id db.effective).heads c s =
          some (.current a e) := by
        rw [← Knowledge.enqueueQuestion_heads]
        exact hs
      exact ⟨s, e, Knowledge.invalidateForGood_shown hbefore⟩
  | settled claim claimScope r hslot htarget hclaim hscope =>
    unfold settleJob
    cases hhead : db.know.heads claim.id db.effective with
    | none => exact .of_kept rfl fun s a e hs => ⟨s, e, hs⟩
    | some v =>
      cases v with
      | current a e => exact .of_kept rfl fun s a e hs => ⟨s, e, hs⟩
      | pending =>
        apply Reassesses.assessed rfl rfl
        intro hc
        rw [hscope, show claim.id = c from hc]
        exact hP
      | invalid =>
        apply Reassesses.assessed rfl rfl
        intro hc
        rw [hscope, show claim.id = c from hc]
        exact hP
  | missing hslot htarget =>
    unfold rowMissing
    cases db.claim? j.claimId with
    | none => exact .of_kept rfl fun s a e hs => ⟨s, e, hs⟩
    | some claim =>
      apply Reassesses.of_kept
      · rfl
      · intro s a e hs
        have hbefore := Knowledge.invalidateForGood_shown hs
        rw [Knowledge.enqueueQuestion_heads] at hbefore
        exact ⟨s, e, hbefore⟩

theorem blockLostJob_reassesses (db : MemoryDb) (i : JobId) (errorClass : String)
    (withQuestion : Bool) : Reassesses c P db (db.blockLostJob i errorClass withQuestion) := by
  unfold blockLostJob
  split
  · exact .refl c P db
  · split
    · exact .refl c P db
    · apply Reassesses.of_kept
      · rfl
      · intro s a e hs
        refine ⟨s, e, ?_⟩
        rename_i j _ _
        have hbefore : (db.know.invalidateForGood j.claimId
            j.targetConfigSnapshotId).heads c s = some (.current a e) := by
          dsimp only at hs
          split at hs
          · rw [← Knowledge.enqueueQuestion_heads]
            exact hs
          · exact hs
        exact Knowledge.invalidateForGood_shown hbefore

theorem workerStep_reassesses {parseDay parseTime : String → Option Int} {rd : Readers}
    (db : MemoryDb) (e : WorkerEvent) (hP : P (latestAssessedScope db.tables c)) :
    Reassesses c P db (db.workerStep parseDay parseTime rd e) := by
  have hkept : ∀ know : Knowledge, know.heads = db.know.heads →
      Reassesses c P db (db.withKnow know) := by
    intro know hheads
    apply Reassesses.of_kept
    · rfl
    · intro s a e hs
      rw [← hheads]
      exact ⟨s, e, hs⟩
  cases e with
  | lease now batchSize leaseSeconds =>
    simp only [workerStep, leaseBatch]
    split
    · exact .refl c P db
    · exact hkept _ rfl
  | defer now batchSize until' => exact hkept _ rfl
  | process now i =>
    simp only [workerStep]
    split
    · rename_i db' out h
      rcases processOneJob_cases h with rfl | ⟨j, -, -, hp⟩
      · exact .refl c P _
      · exact hp.reassesses hP
    · exact .refl c P db
  | failed i failure at' =>
    simp only [workerStep, afterFailure]
    cases failure with
    | ruleValidation error => exact blockLostJob_reassesses db i _ _
    | transient errorClass =>
      simp only
      split
      · exact blockLostJob_reassesses db i _ _
      · unfold retryLostJob
        split
        · exact .refl c P db
        · split
          · exact .refl c P db
          · exact hkept _ rfl
  | recover now => exact hkept _ rfl

/-! ## The lane -/

/-- A prepared claim shows the assessment of its base, or none. -/
theorem prepareClaim_shown {base candidate : ConfigSnapshot} {k : Knowledge} {claim : Claim}
    {s : SnapshotId} {a : AssessmentId} {e : EpistemicStatus}
    (h : (prepareClaim base candidate k claim).heads c s = some (.current a e)) :
    ∃ s' e', k.heads c s' = some (.current a e') := by
  unfold prepareClaim at h
  split at h
  · rename_i head hcarried
    by_cases heq : c = claim.id ∧ s = candidate.id
    · obtain ⟨rfl, rfl⟩ := heq
      rw [Knowledge.setHead_same] at h
      unfold carriedHead at hcarried
      split at hcarried
      · rename_i a' e' hbase
        split at hcarried
        · cases hcarried
          cases h
          exact ⟨base.id, e, hbase⟩
        · cases hcarried
      · cases hcarried
    · rw [Knowledge.setHead_other k _ heq] at h
      exact ⟨s, e, h⟩
  · rw [Knowledge.enqueueJob_heads] at h
    by_cases heq : c = claim.id ∧ s = candidate.id
    · obtain ⟨rfl, rfl⟩ := heq
      simp at h
    · rw [Knowledge.setHead_other k _ heq] at h
      exact ⟨s, e, h⟩

theorem prepareClaims_shown {base candidate : ConfigSnapshot} (batch : List Claim)
    {k : Knowledge} {s : SnapshotId} {a : AssessmentId} {e : EpistemicStatus}
    (h : (batch.foldl (prepareClaim base candidate) k).heads c s = some (.current a e)) :
    ∃ s' e', k.heads c s' = some (.current a e') := by
  induction batch generalizing k with
  | nil => exact ⟨s, e, h⟩
  | cons claim rest ih =>
    obtain ⟨s', e', hs'⟩ := ih h
    exact prepareClaim_shown hs'

theorem LaneChange.reassesses {db db' : MemoryDb} {e : LaneEvent} (h : LaneChange db e db') :
    Reassesses c P db db' := by
  apply Reassesses.of_kept (congrArg AssessmentDb.assessments h.tables)
  intro s a st hs
  rcases h.heads with heads | ⟨now, r, row, base, batch, n, size, -, -, -, -, -, rfl⟩
  · rw [heads] at hs
    exact ⟨s, st, hs⟩
  · exact prepareClaims_shown batch hs

/-! ## The offline change -/

/-- A shadow head that is not current assesses nothing. -/
theorem writeShadow_reassesses {db : MemoryDb} {t : SnapshotId} {p : Claim × ShadowHead}
    (h : p.1.id = c → ∀ r, p.2 ≠ .current r) : Reassesses c P db (writeShadow t db p) := by
  have hset : ∀ v : Head, (∀ a e, v ≠ .current a e) →
      Reassesses c P db (db.withKnow (db.know.setHead p.1.id t (some v))) := by
    intro v hv
    apply Reassesses.of_kept
    · rfl
    · intro s a e hs
      have hs : (db.know.setHead p.1.id t (some v)).heads c s = some (.current a e) := hs
      by_cases heq : c = p.1.id ∧ s = t
      · obtain ⟨hc, rfl⟩ := heq
        rw [hc, Knowledge.setHead_same] at hs
        exact absurd (Option.some.inj hs) (hv a e)
      · rw [Knowledge.setHead_other _ _ heq] at hs
        exact ⟨s, e, hs⟩
  unfold writeShadow
  split
  · exact hset _ (by simp)
  · exact hset _ (by simp)
  · rename_i r hcurrent
    -- the assessment of another claim
    apply Reassesses.assessed rfl rfl
    intro hc
    exact absurd hcurrent (h hc r)

theorem writeShadows_reassesses {t : SnapshotId} {heads : List (Claim × ShadowHead)}
    (h : ∀ p ∈ heads, p.1.id = c → ∀ r, p.2 ≠ .current r) (db : MemoryDb) :
    Reassesses c P db (db.writeShadows t heads) := by
  unfold writeShadows
  induction heads generalizing db with
  | nil => exact .refl c P db
  | cons p rest ih =>
    have hone := @writeShadow_reassesses c P db t p (h p List.mem_cons_self)
    exact hone.trans (ih (fun q hq => h q (List.mem_cons_of_mem p hq)) _)

theorem publishOffline_reassesses {db db' : MemoryDb} {run : OfflineRun}
    (h : db.publishOffline run = .ok db')
    (hspares : ∀ p ∈ run.heads, p.1.id = c → ∀ r, p.2 ≠ .current r) :
    Reassesses c P db db' := by
  obtain ⟨db₁, -, rfl, hheads, -, -⟩ := (publishOffline_ok h).shadows
  have hwritten := @writeShadows_reassesses c P run.candidate.id run.heads hspares db
  obtain ⟨u, -, h⟩ := bind_eq_ok.mp h
  cases h
  refine hwritten.trans (.of_kept ?_ ?_)
  · exact congrArg AssessmentDb.assessments (putSnapshot_tables _ _)
  · intro s a e hs
    rw [hheads] at hs
    exact ⟨s, e, hs⟩

/-! ## The commit -/

theorem assessHead_reassesses {host : Host} {rules : ClaimTypeRules} {pin : SnapshotId}
    {scope : Scope} {d : ClaimId} {db db' : MemoryDb}
    (h : assessHead host rules pin scope d db = .ok db') (hP : d = c → P scope) :
    Reassesses c P db db' := by
  unfold assessHead at h
  split at h
  · cases h
  · rename_i claim hclaim
    have hid := claim?_id hclaim
    split at h
    · cases h
    · rename_i r tables hassess
      cases h
      unfold assess at hassess
      obtain ⟨rule, -, hassess⟩ := bind_eq_ok.mp hassess
      obtain ⟨result, -, hassess⟩ := bind_eq_ok.mp hassess
      cases hassess
      rw [← hid]
      apply Reassesses.assessed rfl rfl
      intro hc
      exact hP (hid.symm.trans hc)

theorem assessClaims_reassesses {host : Host} {rules : ClaimTypeRules} {pin : SnapshotId}
    {scope : ClaimId → Scope} {ids : List (Option ClaimId)} {seen seen' : List ClaimId}
    {db db' : MemoryDb} (h : assessClaims host rules pin scope ids seen db = .ok (db', seen'))
    (hP : some c ∈ ids → P (scope c)) : Reassesses c P db db' := by
  induction ids generalizing seen db with
  | nil =>
    cases h
    exact .refl c P _
  | cons o rest ih =>
    have hrest : some c ∈ rest → P (scope c) := fun hc => hP (List.mem_cons_of_mem o hc)
    cases o with
    | none => exact ih (show assessClaims host rules pin scope rest seen db = _ from h) hrest
    | some d =>
      unfold assessClaims at h
      split at h
      · exact ih h hrest
      · obtain ⟨db₁, hone, h⟩ := bind_eq_ok.mp h
        have hfirst : Reassesses c P db db₁ := by
          apply assessHead_reassesses hone
          intro hd
          rw [hd]
          exact hP (by simp [hd])
        exact hfirst.trans (ih h hrest)

/-- The links add evidence only. -/
theorem applyLinks_assessments {ids : List (Option ClaimId)} {links : List EvidenceLink}
    {t t' : AssessmentDb} (h : links.foldlM (applyLink ids) t = .ok t') :
    t'.assessments = t.assessments := by
  induction links generalizing t with
  | nil =>
    cases h
    rfl
  | cons link rest ih =>
    rw [List.foldlM_cons] at h
    obtain ⟨t₁, hone, h⟩ := bind_eq_ok.mp h
    rw [ih h]
    rcases applyLink_ok hone with ⟨rfl, -⟩ | ⟨e, c', -, -, -, -, hs, rfl⟩
    · rfl
    · rfl

theorem commitMemory_reassesses {host : Host} {db db' : MemoryDb}
    {statements : ClaimId → Text} {pin active : SnapshotId} {ops : List ProposedClaim}
    {links : List EvidenceLink} {res : MemoryApplyResult}
    (h : db.commitMemory host statements pin active ops links = .ok (db', res))
    (hP : ∀ snapshot, db.snapshot? pin = some snapshot →
      ∀ o ∈ stageOps host snapshot.rules (db.corpus statements pin) ops,
        o.claim = some c → P o.proposed.claimScope) : Reassesses c P db db' := by
  obtain ⟨db₁, happly, hdb⟩ := commitMemory_ok h
  have happlied : Reassesses c P db db₁ := by
    unfold applyClaimStaging at happly
    split at happly
    · cases happly
      exact .refl c P db
    · split at happly
      · cases happly
      · rename_i snapshot hsnapshot
        obtain ⟨tables, hlinks, happly⟩ := bind_eq_ok.mp happly
        obtain ⟨⟨db₂, seen⟩, hassess, happly⟩ := bind_eq_ok.mp happly
        cases happly
        have hsections := @assessClaims_reassesses c P _ _ _ _ _ _ _ _ _ hassess (by
          intro hc
          obtain ⟨o, ho, hclaim⟩ := List.mem_map.mp hc
          unfold scopeOf
          split
          · rename_i last hlast
            have hmem := List.mem_reverse.mp (List.mem_of_find?_eq_some hlast)
            exact hP snapshot hsnapshot last hmem (by simpa using List.find?_some hlast)
          · rename_i hnone
            have hall := List.find?_eq_none.mp hnone o (List.mem_reverse.mpr ho)
            simp [hclaim] at hall)
        refine Reassesses.trans (.of_kept ?_ ?_) hsections
        · exact applyLinks_assessments hlinks
        · exact fun s a e hs => ⟨s, e, hs⟩
  rw [hdb]
  split
  · exact happlied
  · apply happlied.trans
    apply Reassesses.of_kept
    · rfl
    · intro s a e hs
      have hs : (Knowledge.carryOver active (db.createdClaims host statements pin ops)
        db₁.know).heads c s = some (.current a e) := hs
      rw [Knowledge.carryOver_heads] at hs
      split at hs
      · cases hs
      · exact ⟨s, e, hs⟩

end MemoryDb

end Transactions

/-! ## Dateless operations -/

section Dateless

variable (isoDay : Int → String) (render : Json → String)

/-- The operation is a dateless reverify or reuse of a claim whose row has a date if
`dated`, and whose head shows `existing`. `Q` restricts the question. -/
def ProposedClaim.IsDateless (Q : QuestionReading → Prop) (existing : Option Scope)
    (dated : Bool) (p : ProposedClaim) : Prop :=
  ∃ (q : QuestionReading) (proposalAsOf sessionDate existingAsOf : Option Int),
    q.Dateless sessionDate ∧ Q q ∧ existingAsOf.isSome = dated ∧
      p.hasAsOf = (resolveReverifyReference q proposalAsOf sessionDate existingAsOf
        existing).asOf.isSome ∧
      p.claimScope = reverifyScope isoDay render q proposalAsOf sessionDate existingAsOf
        existing

/-- The operations of a commit on the claim, each on the row the one before has left. -/
def DatelessOps (Q : Bool → QuestionReading → Prop) (existing : Option Scope) (c : ClaimId) :
    Bool → List StagedOp → Prop
  | _, [] => True
  | dated, o :: rest =>
    if o.claim = some c then
      o.proposed.IsDateless isoDay render (Q dated) existing dated ∧
        DatelessOps Q existing c o.proposed.hasAsOf rest
    else DatelessOps Q existing c dated rest

/-- The commit does not lose the scope by what it reads: the head shows one, or the claim is
about the present and the question declares its domains again. -/
def EstablishedScope.ShownOr (e : EstablishedScope) (existing : Option Scope) (dated : Bool)
    (q : QuestionReading) : Prop :=
  existing = none → (dated → e.anchor = .relative) ∧ ∀ d ∈ e.domains, d ∈ q.domains

variable {isoDay render} {e : EstablishedScope} {c : ClaimId} {existing : Option Scope}

/-- A dateless operation never takes a date away, and keeps the scope. -/
theorem ProposedClaim.IsDateless.keeps {p : ProposedClaim} {dated : Bool}
    (h : p.IsDateless isoDay render (e.ShownOr existing dated) existing dated)
    (hdated : e.anchor ≠ .none → dated) (hshown : ∀ s, existing = some s → e.KeptBy s) :
    e.KeptBy p.claimScope ∧ (dated → p.hasAsOf) := by
  obtain ⟨q, proposalAsOf, sessionDate, existingAsOf, hq, hQ, hsome, hasAsOf, hscope⟩ := h
  rw [hscope, hasAsOf]
  constructor
  · rw [keptBy_reverifyScope_iff hq, hsome]
    have hundated : ¬ dated → .none = e.anchor := by
      intro hnot
      by_contra hne
      exact hnot (hdated (Ne.symm hne))
    cases existing with
    | none =>
      obtain ⟨hrelative, hdomains⟩ := hQ rfl
      constructor
      · cases dated with
        | true => exact anchorFromScope_empty.trans (hrelative rfl).symm
        | false => exact hundated (by simp)
      · intro d hd
        exact .inl (hdomains d hd)
    | some s =>
      have hkept := hshown s rfl
      constructor
      · cases dated with
        | true => exact anchorFromScope_value hkept.anchor
        | false => exact hundated (by simp)
      · intro d hd
        exact .inr (hkept.declared hd)
  · intro h
    rw [(reverifyReference_dateless hq proposalAsOf existingAsOf existing).1]
    rw [h] at hsome
    simp [hsome]

/-- The row of an existing claim after one operation. -/
theorem StagedOp.writeClaim_find {o : StagedOp} {claims : List Claim} {row : Claim}
    (hrow : claims.find? (fun r => r.id = c) = some row) (hfresh : o.proposed.newId ≠ c) :
    (o.writeClaim claims).find? (fun r => r.id = c) =
      some (if o.claim = some c then { row with hasAsOf := o.proposed.hasAsOf } else row) := by
  have hset : ∀ d : ClaimId, (claims.map fun r =>
      if r.id = d then { r with hasAsOf := o.proposed.hasAsOf } else r).find?
        (fun r => r.id = c) =
      some (if d = c then { row with hasAsOf := o.proposed.hasAsOf } else row) := by
    intro d
    have hcomp : ((fun r : Claim => decide (r.id = c)) ∘ fun r =>
        if r.id = d then { r with hasAsOf := o.proposed.hasAsOf } else r) =
        fun r => decide (r.id = c) := by
      ext r
      by_cases hr : r.id = d
      · simp [hr]
      · simp [hr]
    have hid : row.id = c := by simpa using List.find?_some hrow
    rw [List.find?_map, hcomp, hrow, Option.map_some, hid]
    by_cases hd : c = d
    · simp [hd]
    · simp [hd, Ne.symm hd]
  obtain ⟨p, result⟩ := o
  cases result with
  | error problem => simpa [writeClaim, claim] using hrow
  | ok staged =>
    cases staged with
    | created =>
      have hne : ¬ p.newId = c := hfresh
      simp [writeClaim, claim, hrow, hne]
    | reused d => simpa [writeClaim, claim] using hset d
    | reverified d => simpa [writeClaim, claim] using hset d

/-- **The operations of one commit** keep the scope of the claim and its date. -/
theorem DatelessOps.keeps {staged : List StagedOp} {claims : List Claim} {row : Claim}
    (h : DatelessOps isoDay render (e.ShownOr existing) existing c row.hasAsOf staged)
    (hrow : claims.find? (fun r => r.id = c) = some row)
    (hfresh : ∀ o ∈ staged, o.proposed.newId ≠ c) (hdated : e.anchor ≠ .none → row.hasAsOf)
    (hshown : ∀ s, existing = some s → e.KeptBy s) :
    (∀ o ∈ staged, o.claim = some c → e.KeptBy o.proposed.claimScope) ∧
      ∃ row', (staged.foldl StagedOp.writeClaim claims).find? (fun r => r.id = c) = some row' ∧
        (e.anchor ≠ .none → row'.hasAsOf) := by
  induction staged generalizing claims row with
  | nil => exact ⟨by simp, row, hrow, hdated⟩
  | cons o rest ih =>
    have hwrite := StagedOp.writeClaim_find hrow (hfresh o List.mem_cons_self)
    have hrest : ∀ o ∈ rest, o.proposed.newId ≠ c :=
      fun o ho => hfresh o (List.mem_cons_of_mem _ ho)
    unfold DatelessOps at h
    by_cases hclaim : o.claim = some c
    · rw [if_pos hclaim] at h hwrite
      obtain ⟨hone, h⟩ := h
      obtain ⟨hkept, hdate⟩ := hone.keeps hdated hshown
      obtain ⟨hscopes, hfinal⟩ := ih h hwrite hrest (fun hne => hdate (hdated hne))
      refine ⟨?_, hfinal⟩
      intro o' ho' hc'
      rcases List.mem_cons.mp ho' with rfl | ho'
      · exact hkept
      · exact hscopes o' ho' hc'
    · rw [if_neg hclaim] at h hwrite
      obtain ⟨hscopes, hfinal⟩ := ih h hwrite hrest hdated
      refine ⟨?_, hfinal⟩
      intro o' ho' hc'
      rcases List.mem_cons.mp ho' with rfl | ho'
      · exact absurd hc' hclaim
      · exact hscopes o' ho' hc'

end Dateless

/-! ## Runs -/

namespace World

section Runs

variable (host : Host) {digest : ManifestBody → String}
  {headDigest : List (ClaimId × Head) → String} (isoDay : Int → String)
  (render : Json → String)

/-- What a final transaction asserts of the claim is dateless, and a question meets `Q` for
what the head shows and the row. -/
def RechecksDateless (Q : Option Scope → Bool → QuestionReading → Prop) (c : ClaimId)
    (w : World) : SystemEvent → Prop
  | .finalize => ∀ f s snapshot row, w.finalizing = some f →
      w.sessions[f.session]? = some s → w.db.snapshot? s.pin = some snapshot →
      w.db.claim? c = some row →
      DatelessOps isoDay render (Q (w.db.headAssessedScope c s.pin))
        (w.db.headAssessedScope c s.pin) c row.hasAsOf
        (MemoryDb.stageOps host snapshot.rules (w.db.corpus w.statements s.pin) f.ops)
  | _ => True

/-- The offline change has no current head for the claim. -/
def SparesClaim (c : ClaimId) (w : World) (ev : SystemEvent) : Prop :=
  ev = .publishOffline → ∀ run, w.offline = some run →
    ∀ p ∈ run.heads, p.1.id = c → ∀ r, p.2 ≠ .current r

/-- **The condition**: an offline change spares the claim, and a commit finds its scope or
declares it again. -/
def CarriesScope (e : EstablishedScope) (c : ClaimId) (w : World) (ev : SystemEvent) : Prop :=
  RechecksDateless host isoDay render e.ShownOr c w ev ∧ SparesClaim c w ev

variable {host isoDay render} {e : EstablishedScope} {c : ClaimId}

/-- A final transaction. -/
theorem established_commit {w : World} {f : FinalizeTx} {s : WorldSession} {db : MemoryDb}
    {res : MemoryApplyResult} (h : w.db.Established e c)
    (hguard : RechecksDateless host isoDay render e.ShownOr c w .finalize)
    (hf : w.finalizing = some f) (hs : w.sessions[f.session]? = some s)
    (hfresh : ∀ p ∈ f.ops, w.db.claim? p.newId = none)
    (hok : w.db.commitMemory host w.statements s.pin f.active f.ops f.links = .ok (db, res)) :
    db.Established e c := by
  obtain ⟨row, hrow, hdated⟩ := h.row
  have hkeeps : ∀ snapshot, w.db.snapshot? s.pin = some snapshot → _ ∧ _ :=
    fun snapshot hsnapshot => (hguard f s snapshot row hf hs hsnapshot hrow).keeps hrow (by
      intro o ho heq
      obtain ⟨p, hp, rfl⟩ := List.mem_map.mp ho
      have hnone := hfresh p hp
      rw [show p.newId = c from heq, hrow] at hnone
      cases hnone) hdated fun scope hscope => h.head hscope
  apply h.next
  · exact MemoryDb.commitMemory_reassesses hok fun snapshot hsnapshot =>
      (hkeeps snapshot hsnapshot).1
  · obtain ⟨db₁, happly, rfl⟩ := MemoryDb.commitMemory_ok hok
    have hclaims : (if s.pin = f.active then db₁ else db₁.withKnow (Knowledge.carryOver f.active
        (w.db.createdClaims host w.statements s.pin f.ops) db₁.know)).claims = db₁.claims := by
      split <;> rfl
    rw [MemoryDb.claim?, hclaims]
    rcases MemoryDb.applyClaimStaging_ok happly with ⟨-, rfl, -⟩ | ⟨snapshot, hsnapshot, happlied⟩
    · exact ⟨row, hrow, hdated⟩
    · rw [happlied.rows]
      exact (hkeeps snapshot hsnapshot).2

/-- **The step lemma.** -/
theorem established_step {w w' : World} {ev : SystemEvent} (h : w.db.Established e c)
    (hguard : CarriesScope host isoDay render e c w ev)
    (hstep : w.systemStep host digest headDigest ev = some w') : w'.db.Established e c := by
  obtain ⟨hrechecks, hspares⟩ := hguard
  have hsame : ∀ db : MemoryDb, db.know.heads = w.db.know.heads →
      db.tables.assessments = w.db.tables.assessments → db.claims = w.db.claims →
      db.Established e c := by
    intro db hheads htables hclaims
    refine h.next_same (.of_kept htables ?_) hclaims
    intro s a st hs
    rw [hheads] at hs
    exact ⟨s, st, hs⟩
  cases systemStep_change hstep with
  | refused => exact h
  | lane ev db hopen hlane =>
    have hchange := MemoryDb.laneStep_change hlane
    exact h.next_same hchange.reassesses hchange.claims
  | worker ev =>
    have htouch := @MemoryDb.workerStep_touches host.parseDay host.parseTime host.readers w.db ev
    exact h.next_same (MemoryDb.workerStep_reassesses w.db ev h.latest) htouch.claims
  | cascade ev cw hedges hhead hflip hcall =>
    obtain ⟨-, -, cs, hinv⟩ := (cascadeStep_change hedges hhead hflip hcall).invalidates
    exact h.next_same (.of_kept rfl fun _ _ _ hs => hinv.shown hs) rfl
  | requeued ev db hreq =>
    exact h.next_same (.of_kept hreq.assessments fun _ _ _ hs => hreq.know.shown hs) hreq.claims
  | sessions ev ss fin hpins hfin => exact hsame _ rfl rfl rfl
  | began ev f hactive hnone => exact h
  | committed f s w' hf hs hcommit =>
    obtain ⟨⟨-, hfresh⟩, rfl | ⟨db, res, hok, rfl⟩⟩ := commitFinalize_cases hcommit
    · exact hsame _ rfl rfl rfl
    · have hdb := established_commit h hrechecks hf hs hfresh hok
      exact hdb.next_same (.of_kept rfl fun s a st hs => ⟨s, st, hs⟩) rfl
  | offlineRead id q run hfresh hnone hread => exact h
  | offlineVerified run run' hrun hcandidate hheads => exact h
  | offlineDropped ev => exact h
  | offlinePublished run db hrun hpublish =>
    exact h.next_same (MemoryDb.publishOffline_reassesses hpublish (hspares rfl run hrun))
      (MemoryDb.publishOffline_ok hpublish).claims

/-- **The scope survives** every run whose offline changes spare the claim and whose commits
find its scope or declare it again: the worker and the commit path read one that keeps what
the claim was established with. -/
theorem scope_survives {w w' : World} (h : w.db.Established e c)
    (hrun : Run (systemStep host digest headDigest) (CarriesScope host isoDay render e c) w w') :
    e.KeptBy (latestAssessedScope w'.db.tables c) ∧
      ∀ s scope, w'.db.headAssessedScope c s = some scope → e.KeptBy scope := by
  have hall := hrun.invariant (I := fun w => w.db.Established e c) h
    fun h hg hs => established_step h hg hs
  exact ⟨hall.latest, fun s scope hs => hall.head hs⟩

end Runs

end World

/-! ## A scope that is lost -/

/-- A question about the state on a day, which names a source. -/
def datedQuestion : QuestionReading where
  day := some 20000
  relative := false
  domains := ["example.org"]
  named := by decide
  distinct := by decide

/-- The text of that day. -/
def dayText : Int → String := fun _ => "2024-10-04"

/-- A question that names neither. -/
def plainQuestion : QuestionReading where
  day := none
  relative := false
  domains := []
  named := by decide
  distinct := by decide

/-- A session commits claim `1` with the scope of the dated question. -/
def datedCommit : List SystemEvent :=
  [.admission 1, .committing 0, .prepare 0,
    .beginFinalize 0 [⟨⟨['a'], "fact", none⟩, 1, true,
      deriveClaimScope dayText datedQuestion none none, []⟩] [], .finalize]

/-- Another session asserts it again, without a date. -/
def datelessReuse : List SystemEvent :=
  [.admission 2, .committing 1, .prepare 1,
    .beginFinalize 1 [⟨⟨['a'], "fact", none⟩, 2, true,
      reverifyScope dayText (fun _ => "") plainQuestion none none (some (midnight 20000))
        (some (deriveClaimScope dayText datedQuestion none none)), []⟩] []]

/-- The world after the commit of the claim. -/
def establishedWorld : World := (exec plainSystem freshWorld datedCommit).getD freshWorld

theorem establishedWorld_reached :
    exec plainSystem freshWorld datedCommit = some establishedWorld := rfl

theorem establishedWorld_established :
    establishedWorld.db.Established (.ofQuestion datedQuestion none none) 1 := by
  refine ⟨⟨_, rfl, fun _ => rfl⟩, keptBy_derived datedQuestion none none, ?_⟩
  intro s a st hs
  by_cases h : s = 0
  · subst h
    cases hs
    exact ⟨_, rfl, keptBy_derived datedQuestion none none⟩
  · have hnone := @Heads.set_other (fun _ _ => none) 1 1 0 s (some (.current 0 .hypothesis))
      (by simp [h])
    exact absurd (hs.symm.trans hnone) (by simp)

theorem scope_survives_reuse : ∃ w, exec plainSystem establishedWorld
      (datelessReuse ++ [.finalize]) = some w ∧ w.db.tables.assessments.length = 2 ∧
    (EstablishedScope.ofQuestion datedQuestion none none).KeptBy
      (latestAssessedScope w.db.tables 1) := by
  refine ⟨_, rfl, rfl, ?_⟩
  have hbegun := @Run.of_exec_guarded _ _ plainSystem
    (World.CarriesScope plainHost dayText (fun _ => "") (.ofQuestion datedQuestion none none) 1)
    establishedWorld _ datelessReuse rfl (by
      intro e he a
      fin_cases he <;> exact ⟨trivial, by simp [World.SparesClaim]⟩)
  have hcommitted := Run.snoc (e := .finalize) hbegun (by
    refine ⟨?_, by simp [World.SparesClaim]⟩
    intro f s snapshot row hf hs hsnapshot hrow
    cases hf
    cases hs
    cases hsnapshot
    cases hrow
    refine ⟨⟨plainQuestion, none, none, some (midnight 20000), ⟨rfl, by simp [plainQuestion]⟩,
      ?_, rfl, rfl, rfl⟩, trivial⟩
    intro hnone
    cases hnone) rfl
  exact (World.scope_survives establishedWorld_established hcommitted).1

/-- Nothing changes but the rules, and the change assesses the claim with the empty scope. -/
theorem scope_lost_offline : ¬ ∀ (host : Host) (digest : ManifestBody → String)
    (headDigest : List (ClaimId × Head) → String) (isoDay : Int → String)
    (render : Json → String) (w₀ w w' : World) (e : EstablishedScope) (c : ClaimId),
    w₀.Initial → Run (World.systemStep host digest headDigest) anyStep w₀ w →
    w.db.Established e c →
    Run (World.systemStep host digest headDigest)
      (World.RechecksDateless host isoDay render (fun _ _ _ => True) c) w w' →
    e.KeptBy (latestAssessedScope w'.db.tables c) := by
  intro hall
  have hbefore := Run.of_exec datedCommit establishedWorld_reached
  have hrun := @Run.of_exec_guarded _ _ plainSystem
    (World.RechecksDateless plainHost dayText (fun _ => "") (fun _ _ _ => True) 1)
    establishedWorld _
    [.prepareOffline 1 (requestOf "again" factRules), .verifyOffline, .publishOffline] rfl (by
      intro e he a
      fin_cases he <;> trivial)
  have hkept := hall plainHost sizeDigest (fun _ => "heads") dayText (fun _ => "") freshWorld
    establishedWorld _ _ 1 freshWorld_initial hbefore establishedWorld_established hrun
  exact EstablishedScope.not_keptBy_empty _ hkept

end Noezema.Memory
