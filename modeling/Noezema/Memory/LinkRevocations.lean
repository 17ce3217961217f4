import Noezema.Memory.Counterevidence

/-! # Revocations of recorded links

An operator revokes links whose page does not show the value of the claim, and cancels
revocations. A revoked row stays in `evidence` and is left out of every assessment. Both
calls are one transaction: rows of `evidence_link_revocations`, and the claims they touch go
back to `pending`. The rows here are the full ones; everything else is the memory system.
-/

namespace Noezema.Memory

open Noezema.Lib

abbrev RevocationId := Nat

/-- A row of `evidence_link_revocations`; `cancelled` is who cancelled it and why. -/
structure RevocationRow where
  id : RevocationId
  evidenceId : EvidenceId
  claimId : ClaimId
  reason : Text
  actor : String
  cancelled : Option (String × Text)
deriving DecidableEq

namespace RevocationRow

/-- The columns that the assembly reads. -/
def link (r : RevocationRow) : LinkRevocation := ⟨r.evidenceId, r.cancelled.isSome⟩

/-- `cancelled_at`, `cancelled_by` and `cancel_reason` of a row in force. -/
def cancel (actor : String) (reason : Text) (r : RevocationRow) : RevocationRow :=
  if r.cancelled.isNone then { r with cancelled := some (actor, reason) } else r

end RevocationRow

/-! ## The value gate -/

/-- What the gate reads of the stored pages and of the claims. -/
structure ValueGate where
  /-- `_normalized_shas`. -/
  pageSha : SourceId → Option String
  /-- `_read_text`. -/
  pageText : String → Option Text
  /-- `statement_value_profile`. -/
  valueTokens : Text → List Text
  /-- `link_value_gate(...) == VALUE_GATE_ABSENT`. -/
  valueAbsent : Text → Text → Bool
  /-- `_operator_corrected_source_ids`. -/
  corrected : SourceId → Bool

inductive Verdict where
  | valuePresent | valueAbsent | noText | outOfScope
deriving DecidableEq, Repr

/-- What a call reads of a `LinkAuditLink`. -/
structure LinkAuditLink where
  canonicalUri : Option String
  verdict : Verdict
  valueTokens : List Text

/-- The verdict on a row of a claim with this statement. -/
def ValueGate.verdict (gate : ValueGate) (statement : Text) (row : Evidence) : Verdict :=
  match row.sourceId.bind gate.pageSha with
  | none => .noText
  | some sha =>
    match gate.pageText sha with
    | none => .noText
    | some page =>
      if gate.valueTokens statement = [] then .outOfScope
      else if gate.valueAbsent statement page then .valueAbsent
      else .valuePresent

/-- `_uri_of`. -/
def EvidenceDb.uriOf (db : EvidenceDb) (row : Evidence) : Option String :=
  row.sourceId.bind fun s => (db.sources.find? fun r => r.id = s).bind (·.canonicalUri)

/-- The entry of `_links_of` for a row, if the gate has jurisdiction over it. -/
def EvidenceDb.linkOf (db : EvidenceDb) (gate : ValueGate) (statement : Text) (row : Evidence) :
    Option LinkAuditLink :=
  if row.relation ≠ .supports ∨ row.kind ≠ "source_assertion" then none
  else some ⟨db.uriOf row, gate.verdict statement row, gate.valueTokens statement⟩

/-! ## The calls -/

inductive RefusalCode where
  | unknownEvidence | unknownClaim | outOfScope | valuePresent | textMissing | noProfile
  | operatorCorrection | noCurrentHead | lastEvidence | unknownRevocation
deriving DecidableEq, Repr

structure LinkRevocationRefusal where
  code : RefusalCode
  evidenceId : Option EvidenceId
  claimId : Option ClaimId
  canonicalUri : Option String
deriving DecidableEq

/-- `LinkRevocationError`, and `LinkAuditError` for a missing effective snapshot. -/
inductive LinkRevocationError where
  | reasonMissing
  | nothingListed
  | effectiveConfig
  | refused (refusals : List LinkRevocationRefusal)
deriving DecidableEq

structure LinkRevocationWrite where
  revocationId : RevocationId
  evidenceId : EvidenceId
  claimId : ClaimId
  canonicalUri : Option String
  reason : Text
  verdict : Verdict
  valueTokens : List Text

/-- The row that is inserted. -/
def LinkRevocationWrite.row (actor : String) (x : LinkRevocationWrite) : RevocationRow :=
  ⟨x.revocationId, x.evidenceId, x.claimId, x.reason, actor, none⟩

structure LinkRevocationAlready where
  revocationId : RevocationId
  evidenceId : EvidenceId
  claimId : ClaimId
  canonicalUri : Option String
  reason : Text
  actor : String

structure LinkRevocationResult where
  written : List LinkRevocationWrite
  alreadyRevoked : List LinkRevocationAlready
  claimsAffected : List ClaimId
  headsInvalidated : Nat
  jobsCreated : Nat
  headsToInvalid : List ClaimId
  claimsWithoutSourceLinks : List ClaimId

structure LinkRevocationCancelResult where
  cancelled : List RevocationId
  alreadyCancelled : List RevocationId
  claimsAffected : List ClaimId
  headsInvalidated : Nat
  jobsCreated : Nat

/-- The arguments of `apply_link_revocations`. -/
structure RevokeCall where
  evidenceIds : List EvidenceId
  reason : Text
  actor : String
  allowEmpty : Bool

/-- The arguments of `cancel_link_revocations`. -/
structure CancelCall where
  revocationIds : List RevocationId
  reason : Text
  actor : String

/-- What becomes of a listed row. -/
inductive LinkDecision where
  | refused (refusal : LinkRevocationRefusal)
  | already (revocation : RevocationRow) (canonicalUri : Option String)
  | candidate (row : Evidence) (link : LinkAuditLink)

namespace LinkDecision

def refusal? : LinkDecision → Option LinkRevocationRefusal
  | .refused r => some r
  | _ => none

def already? : LinkDecision → Option LinkRevocationAlready
  | .already r uri => some ⟨r.id, r.evidenceId, r.claimId, uri, r.reason, r.actor⟩
  | _ => none

def candidate? : LinkDecision → Option (Evidence × LinkAuditLink)
  | .candidate row link => some (row, link)
  | _ => none

end LinkDecision

/-- The memory system with the full rows of its link revocations. -/
structure LinkDb where
  world : World
  revocations : List RevocationRow
  mirrors : world.db.tables.revocations = revocations.map (·.link)

namespace LinkDb

abbrev db (w : LinkDb) : MemoryDb := w.world.db

/-- `_active_revocations`, at one of the listed rows. -/
def activeRevocation (w : LinkDb) (listed : List EvidenceId) (e : EvidenceId) :
    Option RevocationRow :=
  (w.revocations.filter fun r => r.evidenceId ∈ listed ∧ r.cancelled.isNone).find?
    fun r => r.evidenceId = e

/-- The loop over the listed rows. -/
def decideLink (w : LinkDb) (gate : ValueGate) (listed : List EvidenceId) (e : EvidenceId) :
    LinkDecision :=
  match w.db.tables.evidence.find? fun r => r.id = e with
  | none => .refused ⟨.unknownEvidence, some e, none, none⟩
  | some row =>
    let refused := fun code =>
      LinkDecision.refused ⟨code, some e, some row.claimId, w.db.tables.uriOf row⟩
    let link? := w.db.tables.linkOf gate (w.world.statements row.claimId) row
    if (w.db.claim? row.claimId).isNone then
      .refused ⟨.unknownClaim, some e, some row.claimId, none⟩
    else match w.activeRevocation listed e with
      | some existing => .already existing (link?.bind (·.canonicalUri))
      | none =>
        match link? with
        | none => refused .outOfScope
        | some link =>
          if row.sourceId.any gate.corrected then refused .operatorCorrection
          else if w.db.know.heads.state row.claimId w.db.effective ≠ some .current then
            refused .noCurrentHead
          else match link.verdict with
            | .valueAbsent => .candidate row link
            | .valuePresent => refused .valuePresent
            | .noText => refused .textMissing
            | .outOfScope => refused .noProfile

/-- What becomes of the listed rows, in the operator's order. -/
def decisions (w : LinkDb) (gate : ValueGate) (call : RevokeCall) : List LinkDecision :=
  call.evidenceIds.eraseDups.map (w.decideLink gate call.evidenceIds.eraseDups)

def candidates (w : LinkDb) (gate : ValueGate) (call : RevokeCall) :
    List (Evidence × LinkAuditLink) :=
  (w.decisions gate call).filterMap (·.candidate?)

/-- `affected_claims`. -/
def affectedClaims (w : LinkDb) (gate : ValueGate) (call : RevokeCall) : List ClaimId :=
  ((w.candidates gate call).map (·.1.claimId)).dedup.insertionSort (· ≤ ·)

/-- `remaining`: the rows of a claim that are neither among the revoked ones the call has
loaded nor candidates. -/
def remaining (w : LinkDb) (gate : ValueGate) (call : RevokeCall) (c : ClaimId) :
    List Evidence :=
  (w.db.tables.evidence.filter fun e => e.claimId = c).filter fun e =>
    ¬ ((w.activeRevocation call.evidenceIds.eraseDups e.id).isSome ∨
      e.id ∈ (w.candidates gate call).map (·.1.id))

/-- Other revocations, and the claims they touch back to `pending`. -/
def commitRevocations (w : LinkDb) (rows : List RevocationRow) (claims : List ClaimId) :
    LinkDb × Nat × Nat :=
  let (know, invalidated, jobsCreated) :=
    Knowledge.requeue w.db.effective "link_revocation_change" claims w.db.know
  ({ world := w.world.withDb ((w.db.withEvidence { w.db.tables.toEvidenceDb with
      revocations := rows.map (·.link) }).withKnow know)
     revocations := rows
     mirrors := rfl }, invalidated, jobsCreated)

/-- The entries of the result for the candidates, under their new ids. -/
def writes (w : LinkDb) (gate : ValueGate) (call : RevokeCall) : List LinkRevocationWrite :=
  (w.candidates gate call).mapIdx fun k (row, link) =>
    ⟨w.revocations.length + k, row.id, row.claimId, link.canonicalUri, strip call.reason,
      link.verdict, link.valueTokens⟩

/-- `apply_link_revocations`. -/
def applyLinkRevocations (w : LinkDb) (gate : ValueGate) (call : RevokeCall) :
    Except LinkRevocationError (LinkDb × LinkRevocationResult) := do
  require (strip call.reason ≠ []) .reasonMissing
  require (call.evidenceIds.eraseDups ≠ []) .nothingListed
  require (w.db.snapshot? w.db.effective).isSome .effectiveConfig
  let refusals := (w.decisions gate call).filterMap (·.refusal?)
  require (refusals = []) (.refused refusals)
  let affected := w.affectedClaims gate call
  let emptied := affected.filter fun c => w.remaining gate call c = []
  require (emptied = [] ∨ call.allowEmpty)
    (.refused (emptied.map fun c => ⟨.lastEvidence, none, some c, none⟩))
  let written := w.writes gate call
  let (w', invalidated, jobsCreated) := w.commitRevocations
    (w.revocations ++ written.map (·.row call.actor)) affected
  pure (w', {
    written := written
    alreadyRevoked := (w.decisions gate call).filterMap (·.already?)
    claimsAffected := affected
    headsInvalidated := invalidated
    jobsCreated := jobsCreated
    headsToInvalid := emptied
    claimsWithoutSourceLinks := affected.filter fun c =>
      w.remaining gate call c ≠ [] ∧ (w.remaining gate call c).all fun e => e.sourceId.isNone })

/-- `cancel_link_revocations`. -/
def cancelLinkRevocations (w : LinkDb) (call : CancelCall) :
    Except LinkRevocationError (LinkDb × LinkRevocationCancelResult) := do
  let reason := strip call.reason
  require (reason ≠ []) .reasonMissing
  let listed := call.revocationIds.eraseDups
  require (listed ≠ []) .nothingListed
  let missing := listed.filter fun i => i ∉ w.revocations.map (·.id)
  require (missing = []) (.refused (missing.map fun _ => ⟨.unknownRevocation, none, none, none⟩))
  require (w.db.snapshot? w.db.effective).isSome .effectiveConfig
  let found := w.revocations.filter fun r => r.id ∈ listed
  let affected := ((found.filter (·.cancelled.isNone)).map (·.claimId)).dedup.insertionSort (· ≤ ·)
  let (w', invalidated, jobsCreated) := w.commitRevocations (w.revocations.map fun r =>
    if r.id ∈ listed then r.cancel call.actor reason else r) affected
  pure (w', {
    cancelled := listed.filter fun i => found.any fun r => r.id = i ∧ r.cancelled.isNone
    alreadyCancelled := listed.filter fun i => found.any fun r => r.id = i ∧ r.cancelled.isSome
    claimsAffected := affected
    headsInvalidated := invalidated
    jobsCreated := jobsCreated })

end LinkDb

/-! ## What the system leaves alone -/

/-- The id and the claim of a row. -/
def Evidence.key (e : Evidence) : EvidenceId × ClaimId := (e.id, e.claimId)

/-- **Rows are only added**: they get the next ids, and no revocation is written. -/
structure ExtendsEvidence (db db' : EvidenceDb) : Prop where
  revocations : db'.revocations = db.revocations
  rows : ∃ new : List (EvidenceId × ClaimId),
    db'.evidence.map Evidence.key = db.evidence.map Evidence.key ++ new ∧
      (new.map Prod.fst).Nodup ∧ ∀ p ∈ new, db.evidence.length ≤ p.1 ∧ p.1 < db'.evidence.length

theorem ExtendsEvidence.of_keys {db db' : EvidenceDb} (hrevocations : db'.revocations = db.revocations)
    (hkeys : db'.evidence.map Evidence.key = db.evidence.map Evidence.key) :
    ExtendsEvidence db db' :=
  ⟨hrevocations, [], by rw [hkeys, List.append_nil], List.nodup_nil, by simp⟩

theorem ExtendsEvidence.refl (db : EvidenceDb) : ExtendsEvidence db db := .of_keys rfl rfl

theorem ExtendsEvidence.length_le {db db' : EvidenceDb} (h : ExtendsEvidence db db') :
    db.evidence.length ≤ db'.evidence.length := by
  obtain ⟨new, hnew, -, -⟩ := h.rows
  have hlength := congrArg List.length hnew
  rw [List.length_append, List.length_map, List.length_map] at hlength
  omega

theorem ExtendsEvidence.trans {a b c : EvidenceDb} (h : ExtendsEvidence a b)
    (k : ExtendsEvidence b c) : ExtendsEvidence a c := by
  obtain ⟨new, hnew, hnodup, hids⟩ := h.rows
  obtain ⟨more, hmore, hmoreNodup, hmoreIds⟩ := k.rows
  refine ⟨k.revocations.trans h.revocations, new ++ more, ?_, ?_, ?_⟩
  · rw [hmore, hnew, List.append_assoc]
  · rw [List.map_append, List.nodup_append]
    refine ⟨hnodup, hmoreNodup, fun i hi j hj heq => ?_⟩
    obtain ⟨p, hp, rfl⟩ := List.mem_map.mp hi
    obtain ⟨q, hq, rfl⟩ := List.mem_map.mp hj
    exact absurd heq (Nat.ne_of_lt (Nat.lt_of_lt_of_le (hids p hp).2 (hmoreIds q hq).1))
  · intro p hp
    rcases List.mem_append.mp hp with hp | hp
    · obtain ⟨hlow, hhigh⟩ := hids p hp
      exact ⟨hlow, Nat.lt_of_lt_of_le hhigh k.length_le⟩
    · obtain ⟨hlow, hhigh⟩ := hmoreIds p hp
      exact ⟨Nat.le_trans h.length_le hlow, hhigh⟩

theorem applyLinks_extends {ids : List (Option ClaimId)} {links : List EvidenceLink}
    {t u : AssessmentDb} (h : links.foldlM (applyLink ids) t = .ok u) :
    ExtendsEvidence t.toEvidenceDb u.toEvidenceDb := by
  induction links generalizing t with
  | nil =>
    cases h
    exact .refl _
  | cons link rest ih =>
    obtain ⟨v, hv, hrest⟩ := bind_eq_ok.mp h
    refine ExtendsEvidence.trans ?_ (ih hrest)
    rcases applyLink_ok hv with ⟨rfl, -⟩ | ⟨e, c, -, -, -, -, hs, rfl⟩
    · exact .refl _
    · refine ⟨rfl, [(t.evidence.length, c)], ?_, List.nodup_singleton _, ?_⟩
      · exact List.map_append
      · intro p hp
        rw [List.mem_singleton.mp hp]
        simp [EvidenceDb.insertEvidence]

namespace World

variable {host : Host} {digest : ManifestBody → String}
  {headDigest : List (ClaimId × Head) → String}

theorem commitMemory_extends {db db' : MemoryDb} {statements : ClaimId → Text}
    {pin active : SnapshotId} {ops : List ProposedClaim} {links : List EvidenceLink}
    {res : MemoryApplyResult}
    (h : db.commitMemory host statements pin active ops links = .ok (db', res)) :
    ExtendsEvidence db.tables.toEvidenceDb db'.tables.toEvidenceDb := by
  obtain ⟨db₁, happly, hdb⟩ := MemoryDb.commitMemory_ok h
  have htables : db'.tables = db₁.tables := by
    rw [hdb]
    split <;> rfl
  rw [htables]
  unfold MemoryDb.applyClaimStaging at happly
  split at happly
  · cases happly
    exact .refl _
  · split at happly
    · cases happly
    · obtain ⟨tables, hlinks, happly⟩ := bind_eq_ok.mp happly
      obtain ⟨⟨db₂, assessed⟩, hassess, happly⟩ := bind_eq_ok.mp happly
      cases happly
      rw [(assessClaims_assesses hassess).1.evidence]
      exact applyLinks_extends hlinks

/-- The event leaves revocations alone, and the ids and claims of the stored rows. -/
def leavesLinks (w : World) : SystemEvent → Bool
  | .sourceGraph tables _ => tables.revocations = w.db.tables.revocations ∧
      tables.evidence.map Evidence.key = w.db.tables.evidence.map Evidence.key
  | _ => true

/-- **An event of the system** only adds rows. -/
theorem systemStep_extends {w w' : World} {e : SystemEvent} (he : w.leavesLinks e)
    (h : w.systemStep host digest headDigest e = some w') :
    ExtendsEvidence w.db.tables.toEvidenceDb w'.db.tables.toEvidenceDb := by
  have hfree : w.freeStep host digest headDigest e = some w' →
      ExtendsEvidence w.db.tables.toEvidenceDb w'.db.tables.toEvidenceDb := by
    intro hstep
    cases hchanges : e.changesEvidence with
    | false =>
      rw [(freeStep_keeps hchanges hstep).1]
      exact .refl _
    | true =>
      cases e with
      | sourceGraph tables sourceIds =>
        cases hstep
        show ExtendsEvidence _ (w.db.applySourceGraphChange tables sourceIds).1.tables.toEvidenceDb
        rw [applySourceGraphChange_tables]
        obtain ⟨hrevocations, hkeys⟩ := of_decide_eq_true he
        exact .of_keys hrevocations hkeys
      | resolve keys evidence basis =>
        simp only [freeStep] at hstep
        split at hstep
        · rename_i db r hok
          cases hstep
          show ExtendsEvidence _ db.tables.toEvidenceDb
          rw [(MemoryDb.applyCounterResolution_ok hok).2.2]
          exact .of_keys rfl rfl
        · cases hstep
          exact .refl _
      | unresolve row =>
        simp only [freeStep] at hstep
        split at hstep
        · rename_i db r hok
          cases hstep
          show ExtendsEvidence _ db.tables.toEvidenceDb
          rw [MemoryDb.invalidateCounterResolution_ok hok]
          exact .of_keys rfl rfl
        · cases hstep
          exact .refl _
      | _ => cases hchanges
  unfold systemStep at h
  split at h
  · obtain ⟨s, -, hcommit⟩ := Option.bind_eq_some_iff.mp h
    obtain ⟨-, rfl | ⟨db, res, hok, rfl⟩⟩ := commitFinalize_cases hcommit
    · exact .refl _
    · show ExtendsEvidence w.db.tables.toEvidenceDb db.tables.toEvidenceDb
      exact commitMemory_extends hok
  · exact hfree (Option.eq_some_of_filter_eq_some h)
  · exact hfree h

end World

/-! ## The step -/

inductive LinkEvent where
  | system (e : SystemEvent)
  | revoke (gate : ValueGate) (call : RevokeCall)
  | cancel (call : CancelCall)

namespace LinkDb

section Step

variable (host : Host) (digest : ManifestBody → String)
  (headDigest : List (ClaimId × Head) → String)

/-- One event; a call that raises is rolled back. -/
def linkStep (w : LinkDb) : LinkEvent → Option LinkDb
  | .system e =>
    if he : w.world.leavesLinks e then
      match h : w.world.systemStep host digest headDigest e with
      | some world => some { w with
          world := world
          mirrors := (World.systemStep_extends he h).revocations.trans w.mirrors }
      | none => none
    else none
  | .revoke gate call =>
    match w.applyLinkRevocations gate call with
    | .ok (w, _) => some w
    | .error _ => some w
  | .cancel call =>
    match w.cancelLinkRevocations call with
    | .ok (w, _) => some w
    | .error _ => some w

end Step

/-- The migrated database without evidence. -/
structure Initial (w : LinkDb) : Prop where
  world : w.world.Initial
  evidence : w.db.tables.evidence = []
  revocations : w.revocations = []

/-! ## What a revocation does -/

variable {w w' : LinkDb}

/-- The stored row of an id. -/
def rowOf (w : LinkDb) (e : EvidenceId) : Option Evidence :=
  w.db.tables.evidence.find? fun r => r.id = e

theorem revoked_iff (w : LinkDb) (e : EvidenceId) :
    w.db.tables.revoked e ↔ ∃ r ∈ w.revocations, r.evidenceId = e ∧ r.cancelled = none := by
  rw [EvidenceDb.revoked, w.mirrors, List.any_map, List.any_eq_true]
  simp [RevocationRow.link]

theorem activeRevocation_isSome {listed : List EvidenceId} {e : EvidenceId} :
    (w.activeRevocation listed e).isSome ↔ e ∈ listed ∧ w.db.tables.revoked e := by
  rw [activeRevocation, List.find?_isSome, revoked_iff]
  simp only [List.mem_filter, Bool.decide_and, Bool.and_eq_true, decide_eq_true_eq,
    Option.isNone_iff_eq_none]
  constructor
  · rintro ⟨r, ⟨hr, hlisted, hforce⟩, rfl⟩
    exact ⟨hlisted, r, hr, rfl, hforce⟩
  · rintro ⟨hlisted, r, hr, rfl, hforce⟩
    exact ⟨r, ⟨hr, hlisted, hforce⟩, rfl⟩

/-- **What the loop decides**: a row is refused, is revoked already, or is a candidate, which
is stored, not revoked, and of a claim with a current head. -/
theorem decideLink_cases (w : LinkDb) (gate : ValueGate) (listed : List EvidenceId)
    (e : EvidenceId) :
    (∃ refusal, w.decideLink gate listed e = .refused refusal) ∨
    (∃ r uri, w.decideLink gate listed e = .already r uri ∧
      w.activeRevocation listed e = some r) ∨
    ∃ row link, w.decideLink gate listed e = .candidate row link ∧ w.rowOf e = some row ∧
      w.activeRevocation listed e = none ∧
      w.db.know.heads.state row.claimId w.db.effective = some .current := by
  unfold decideLink rowOf
  cases hrow : w.db.tables.evidence.find? fun r => r.id = e with
  | none => exact .inl ⟨_, rfl⟩
  | some row =>
    dsimp only
    split
    · exact .inl ⟨_, rfl⟩
    · cases hactive : w.activeRevocation listed e with
      | some r => exact .inr (.inl ⟨r, _, rfl, rfl⟩)
      | none =>
        dsimp only
        split
        · exact .inl ⟨_, rfl⟩
        · split
          · exact .inl ⟨_, rfl⟩
          · split
            · exact .inl ⟨_, rfl⟩
            · rename_i hhead
              rw [not_not] at hhead
              split
              · exact .inr (.inr ⟨row, _, rfl, rfl, rfl, hhead⟩)
              · exact .inl ⟨_, rfl⟩
              · exact .inl ⟨_, rfl⟩
              · exact .inl ⟨_, rfl⟩

/-- The call revokes the row: it lists it, and no revocation is in force. -/
def Revokes (w : LinkDb) (call : RevokeCall) (e : EvidenceId) : Prop :=
  e ∈ call.evidenceIds ∧ w.db.tables.revoked e = false

/-- The call touches the claim: it revokes a row of it. -/
def Touches (w : LinkDb) (call : RevokeCall) (c : ClaimId) : Prop :=
  ∃ e row, w.Revokes call e ∧ w.rowOf e = some row ∧ row.claimId = c

/-- **What a call has written.** -/
structure Revoked (w w' : LinkDb) (call : RevokeCall) (res : LinkRevocationResult)
    (rows : List RevocationRow) : Prop where
  after : w' = (w.commitRevocations (w.revocations ++ rows) res.claimsAffected).1
  inForce : ∀ r ∈ rows, r.cancelled = none
  rows : ∀ e, (∃ r ∈ rows, r.evidenceId = e) ↔ w.Revokes call e
  stored : ∀ e, w.Revokes call e → (w.rowOf e).isSome
  affected : ∀ c, c ∈ res.claimsAffected ↔ w.Touches call c
  current : ∀ c ∈ res.claimsAffected, w.db.know.heads.state c w.db.effective = some .current
  left : call.allowEmpty = false → ∀ c ∈ res.claimsAffected,
    ∃ row ∈ w.db.tables.evidence, row.claimId = c ∧ row.id ∉ call.evidenceIds

/-- A candidate is a stored row that the call revokes, of a claim with a current head. -/
theorem candidate_spec {gate : ValueGate} {call : RevokeCall} {p : Evidence × LinkAuditLink}
    (h : p ∈ w.candidates gate call) :
    w.Revokes call p.1.id ∧ w.rowOf p.1.id = some p.1 ∧
      w.db.know.heads.state p.1.claimId w.db.effective = some .current := by
  obtain ⟨d, hd, hp⟩ := List.mem_filterMap.mp h
  obtain ⟨e, he, rfl⟩ := List.mem_map.mp hd
  rcases w.decideLink_cases gate call.evidenceIds.eraseDups e with
    ⟨refusal, heq⟩ | ⟨r, uri, heq, -⟩ | ⟨row, link, heq, hrow, hactive, hhead⟩
  · rw [heq] at hp
    cases hp
  · rw [heq] at hp
    cases hp
  · rw [heq] at hp
    obtain rfl := Option.some.inj hp
    have hid : row.id = e := by simpa using List.find?_some hrow
    subst hid
    refine ⟨⟨List.mem_eraseDups.mp he, ?_⟩, hrow, hhead⟩
    rw [← Bool.not_eq_true]
    intro hrevoked
    have hsome := activeRevocation_isSome.mpr ⟨he, hrevoked⟩
    rw [hactive] at hsome
    cases hsome

/-- Where no row is refused, the candidates are the rows that the call revokes. -/
theorem mem_candidates {gate : ValueGate} {call : RevokeCall}
    (hnone : (w.decisions gate call).filterMap (·.refusal?) = []) {e : EvidenceId} :
    e ∈ (w.candidates gate call).map (·.1.id) ↔ w.Revokes call e := by
  constructor
  · intro h
    obtain ⟨p, hp, rfl⟩ := List.mem_map.mp h
    exact (candidate_spec hp).1
  · rintro ⟨hlisted, hrevoked⟩
    have hin := List.mem_eraseDups.mpr hlisted
    have hd : w.decideLink gate call.evidenceIds.eraseDups e ∈ w.decisions gate call :=
      List.mem_map_of_mem hin
    rcases w.decideLink_cases gate call.evidenceIds.eraseDups e with
      ⟨refusal, heq⟩ | ⟨r, uri, heq, hactive⟩ | ⟨row, link, heq, hrow, -, -⟩
    · have hout := List.filterMap_eq_nil_iff.mp hnone _ hd
      rw [heq] at hout
      cases hout
    · have hsome := (@activeRevocation_isSome w call.evidenceIds.eraseDups e).mp
        (by rw [hactive]; rfl)
      rw [hrevoked] at hsome
      cases hsome.2
    · have hid : row.id = e := by simpa using List.find?_some hrow
      exact List.mem_map.mpr ⟨(row, link), List.mem_filterMap.mpr ⟨_, hd, by rw [heq]; rfl⟩, hid⟩

/-- The rows written are those of the candidates. -/
theorem writes_evidenceIds (w : LinkDb) (gate : ValueGate) (call : RevokeCall) :
    ((w.writes gate call).map (·.row call.actor)).map (·.evidenceId) =
      (w.candidates gate call).map (·.1.id) := by
  apply List.ext_getElem?
  intro k
  simp [writes, LinkRevocationWrite.row, Function.comp_def]

theorem mem_affectedClaims {gate : ValueGate} {call : RevokeCall} {c : ClaimId} :
    c ∈ w.affectedClaims gate call ↔ ∃ p ∈ w.candidates gate call, p.1.claimId = c := by
  rw [affectedClaims, List.mem_insertionSort, List.mem_dedup, List.mem_map]

/-- **What an accepted call has checked and written.** -/
theorem applyLinkRevocations_ok {gate : ValueGate} {call : RevokeCall}
    {res : LinkRevocationResult} (h : w.applyLinkRevocations gate call = .ok (w', res)) :
    ∃ rows, Revoked w w' call res rows := by
  obtain ⟨-, -, h⟩ := bind_eq_ok.mp h
  obtain ⟨-, -, h⟩ := bind_eq_ok.mp h
  obtain ⟨-, -, h⟩ := bind_eq_ok.mp h
  obtain ⟨_, hnone, h⟩ := bind_eq_ok.mp h
  obtain ⟨_, hleft, h⟩ := bind_eq_ok.mp h
  rw [require_eq_ok] at hnone hleft
  cases h
  refine ⟨(w.writes gate call).map (·.row call.actor), rfl, ?_, ?_, ?_, ?_, ?_, ?_⟩
  · intro r hr
    obtain ⟨x, -, rfl⟩ := List.mem_map.mp hr
    rfl
  · intro e
    rw [← mem_candidates hnone, ← writes_evidenceIds, List.mem_map]
  · intro e he
    obtain ⟨p, hp, rfl⟩ := List.mem_map.mp ((mem_candidates hnone).mpr he)
    rw [(candidate_spec hp).2.1]
    rfl
  · intro c
    refine mem_affectedClaims.trans ⟨?_, ?_⟩
    · rintro ⟨p, hp, rfl⟩
      obtain ⟨hrevokes, hrow, -⟩ := candidate_spec hp
      exact ⟨_, _, hrevokes, hrow, rfl⟩
    · rintro ⟨e, row, hrevokes, hrow, rfl⟩
      obtain ⟨p, hp, rfl⟩ := List.mem_map.mp ((mem_candidates hnone).mpr hrevokes)
      rw [(candidate_spec hp).2.1] at hrow
      exact ⟨p, hp, by rw [Option.some.inj hrow]⟩
  · intro c hc
    obtain ⟨p, hp, rfl⟩ := mem_affectedClaims.mp hc
    exact (candidate_spec hp).2.2
  · intro hplain c hc
    have hrest : w.remaining gate call c ≠ [] := by
      intro hnil
      rcases hleft with hemptied | hallow
      · exact (List.filter_eq_nil_iff.mp hemptied c hc) (by simpa using hnil)
      · rw [hplain] at hallow
        cases hallow
    obtain ⟨row, hrow⟩ := List.exists_mem_of_ne_nil _ hrest
    obtain ⟨hclaim, hout⟩ := List.mem_filter.mp hrow
    obtain ⟨hin, hc'⟩ := List.mem_filter.mp hclaim
    rw [decide_eq_true_eq, not_or, mem_candidates hnone] at hout
    refine ⟨row, hin, of_decide_eq_true hc', fun hlisted => hout.2 ⟨hlisted, ?_⟩⟩
    rw [← Bool.not_eq_true]
    intro hrevoked
    exact hout.1 (activeRevocation_isSome.mpr ⟨List.mem_eraseDups.mpr hlisted, hrevoked⟩)

/-! ## What both calls leave -/

@[simp] theorem commitRevocations_evidence (w : LinkDb) (rows : List RevocationRow)
    (claims : List ClaimId) :
    (w.commitRevocations rows claims).1.db.tables.evidence = w.db.tables.evidence := rfl

@[simp] theorem commitRevocations_revocations (w : LinkDb) (rows : List RevocationRow)
    (claims : List ClaimId) : (w.commitRevocations rows claims).1.revocations = rows := rfl

@[simp] theorem commitRevocations_effective (w : LinkDb) (rows : List RevocationRow)
    (claims : List ClaimId) :
    (w.commitRevocations rows claims).1.db.effective = w.db.effective := rfl

theorem commitRevocations_invalidates (w : LinkDb) (rows : List RevocationRow)
    (claims : List ClaimId) : Knowledge.Invalidates w.db.know
      (w.commitRevocations rows claims).1.db.know claims w.db.effective :=
  Knowledge.requeue_invalidates _ _ _ _

/-- A row is revoked after the call if it was before, or if the call revokes it. -/
theorem Revoked.revoked_iff {call : RevokeCall} {res : LinkRevocationResult}
    {rows : List RevocationRow} (h : Revoked w w' call res rows) (e : EvidenceId) :
    w'.db.tables.revoked e ↔ w.db.tables.revoked e ∨ w.Revokes call e := by
  rw [LinkDb.revoked_iff, LinkDb.revoked_iff, ← h.rows, h.after, commitRevocations_revocations]
  simp only [List.mem_append, or_and_right, exists_or]
  refine or_congr_right ⟨?_, ?_⟩
  · rintro ⟨r, hr, he, -⟩
    exact ⟨r, hr, he⟩
  · rintro ⟨r, hr, he⟩
    exact ⟨r, hr, he, h.inForce r hr⟩

/-- The cancel of the row with this id ends a revocation in force. -/
def Cancels (call : CancelCall) (r : RevocationRow) : Prop :=
  r.id ∈ call.revocationIds ∧ r.cancelled = none

/-- **What an accepted cancel has written.** -/
structure Cancelled (w w' : LinkDb) (call : CancelCall) (res : LinkRevocationCancelResult) :
    Prop where
  after : ∃ reason, w' = (w.commitRevocations (w.revocations.map fun r =>
    if r.id ∈ call.revocationIds.eraseDups then r.cancel call.actor reason else r)
      res.claimsAffected).1
  affected : ∀ c, c ∈ res.claimsAffected ↔
    ∃ r ∈ w.revocations, Cancels call r ∧ r.claimId = c

theorem cancelLinkRevocations_ok {call : CancelCall} {res : LinkRevocationCancelResult}
    (h : w.cancelLinkRevocations call = .ok (w', res)) : Cancelled w w' call res := by
  obtain ⟨-, -, h⟩ := bind_eq_ok.mp h
  obtain ⟨-, -, h⟩ := bind_eq_ok.mp h
  obtain ⟨-, -, h⟩ := bind_eq_ok.mp h
  obtain ⟨-, -, h⟩ := bind_eq_ok.mp h
  cases h
  refine ⟨⟨_, rfl⟩, fun c => ?_⟩
  simp only [List.mem_insertionSort, List.mem_dedup, List.mem_map, List.mem_filter,
    List.mem_eraseDups, decide_eq_true_eq, Option.isNone_iff_eq_none, Cancels]
  constructor
  · rintro ⟨r, ⟨⟨hr, hlisted⟩, hforce⟩, rfl⟩
    exact ⟨r, hr, ⟨hlisted, hforce⟩, rfl⟩
  · rintro ⟨r, hr, ⟨hlisted, hforce⟩, rfl⟩
    exact ⟨r, ⟨⟨hr, hlisted⟩, hforce⟩, rfl⟩

/-- A cancel revokes nothing, and names the rows that were named before. -/
theorem Cancelled.revoked {call : CancelCall} {res : LinkRevocationCancelResult}
    (h : Cancelled w w' call res) {e : EvidenceId} (hrevoked : w'.db.tables.revoked e) :
    w.db.tables.revoked e := by
  obtain ⟨reason, hafter⟩ := h.after
  rw [LinkDb.revoked_iff, hafter, commitRevocations_revocations] at hrevoked
  obtain ⟨r', hr', he, hforce⟩ := hrevoked
  obtain ⟨r, hr, rfl⟩ := List.mem_map.mp hr'
  rw [LinkDb.revoked_iff]
  refine ⟨r, hr, ?_⟩
  split at he
  · rename_i hlisted
    rw [if_pos hlisted] at hforce
    unfold RevocationRow.cancel at he hforce
    split at hforce
    · cases hforce
    · rename_i hsome
      rw [if_neg hsome] at he
      exact ⟨he, hforce⟩
  · rename_i hunlisted
    rw [if_neg hunlisted] at hforce
    exact ⟨he, hforce⟩

end LinkDb

/-! ## A claim with two links -/

/-- The migrated database with two registered pages. -/
def pagesWorld : World :=
  { freshWorld with db := { freshWorld.db with tables := ⟨⟨[], [], [⟨1, none, none, none⟩,
    ⟨2, none, none, none⟩], [], [], [], [], by simp⟩, []⟩ } }

def pagesDb : LinkDb := ⟨pagesWorld, [], rfl⟩

theorem pagesDb_initial : pagesDb.Initial where
  world := { freshWorld_initial with }
  evidence := rfl
  revocations := rfl

/-- A session commits claim `1` with a link to each page. -/
def pagesCommit : List LinkEvent :=
  [.system (.admission 1), .system (.committing 0), .system (.prepare 0),
    .system (.beginFinalize 0 [statedFact] [pageLink 1 "a", pageLink 2 "b"]), .system .finalize]

/-- No page shows the value. -/
def absentGate : ValueGate :=
  ⟨fun _ => some "page", fun _ => some ['x'], fun _ => [['9']], fun _ _ => true, fun _ => false⟩

def revokeOne (e : EvidenceId) (allowEmpty : Bool) : RevokeCall :=
  ⟨[e], ['r'], "operator", allowEmpty⟩

/-- The worker takes a job and settles it. -/
def workJob (job : JobId) : List LinkEvent :=
  [.system (.worker (.lease 1 1 10)), .system (.worker (.process 1 job))]

abbrev linkSystem : LinkDb → LinkEvent → Option LinkDb :=
  LinkDb.linkStep plainHost sizeDigest fun _ => "heads"

/-- Claim `1` is committed. -/
def pagesStored : LinkDb := (exec linkSystem pagesDb pagesCommit).getD pagesDb

theorem pagesStored_reached : exec linkSystem pagesDb pagesCommit = some pagesStored := rfl

/-- One of its links is revoked. -/
def onceRevoked : LinkDb :=
  (linkSystem pagesStored (.revoke absentGate (revokeOne 0 false))).getD pagesStored

end Noezema.Memory
