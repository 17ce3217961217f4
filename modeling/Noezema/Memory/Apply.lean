import Noezema.Lib.Except
import Noezema.Memory.Runtime
import Noezema.Memory.Staging

/-! # The knowledge a session commits

`apply_claim_staging` over the memory database, and what `finalize` adds to it: the
carry-over of the claims that a session pinned to an old snapshot has created. Each
section has one lemma that says what it changes; the commit's is assembled from them.
-/

namespace Noezema.Memory

open Noezema.Lib

/-- The parsers and printers the commit path is given. -/
structure Host where
  parseDay : String → Option Int
  parseTime : String → Option Int
  readers : Readers
  parseReference : Text → Option ClaimId
  hex : ClaimId → Text
  parseUuid : String → Option ClaimId

/-- A host that parses nothing but claim ids. -/
def plainHost : Host :=
  ⟨fun _ => none, fun _ => none, plainReaders, uuidOf, hexOf, fun _ => none⟩

/-- A recorded `claim` operation with what the host derives for it: a fresh id, the
reference date and the scope. -/
structure ProposedClaim where
  op : ClaimOp
  newId : ClaimId
  hasAsOf : Bool
  claimScope : Scope
  dependencies : List RawDependency

/-- `COALESCE(d->>'kind', 'evidential')`. -/
def dependencyKind : RawDependency → String
  | .notDict => "evidential"
  | .dict kind _ => kind.getD "evidential"

/-- The commit proposes an evidential edge. -/
def touchesGraph (ops : List ProposedClaim) : Bool :=
  ops.any fun p => p.dependencies.any fun d => dependencyKind d = "evidential"

/-- A recorded `evidence` operation: the row the host derives from its record, unless
the record is refused. -/
structure EvidenceLink where
  claimIndex : Nat
  evidence : Option Evidence

/-- The claim that a link is resolved to. -/
def EvidenceLink.claim (ids : List (Option ClaimId)) (link : EvidenceLink) : Option ClaimId :=
  (ids[link.claimIndex]?).join

/-- `kind in ("source_assertion", "quote_integrity")`: the record was read from a source. -/
def Evidence.isAssertion (e : Evidence) : Bool :=
  e.kind = "source_assertion" || e.kind = "quote_integrity"

/-- The row of a record for a claim: its source and its environment are columns that the
host fills for some kinds only. -/
def Evidence.rowFor (e : Evidence) (id : EvidenceId) (c : ClaimId) : Evidence :=
  { e with
    id := id
    claimId := c
    sourceId := if e.isAssertion then e.sourceId else none
    environmentManifestId :=
      if e.kind = "experiment_run" || e.kind = "local_observation" then e.environmentManifestId
      else none }

/-- What was read from a source names it. -/
def Evidence.hasProvenance (e : Evidence) : Bool :=
  !e.isAssertion || e.sourceId.isSome

/-- Why the evidence section rejects a link. -/
inductive LinkProblem where
  | record
  | claimRejected
  | noProvenance
deriving DecidableEq

/-- Why the memory part of a commit is rolled back. -/
inductive ApplyError where
  | snapshotMissing
  | rule (error : RuleValidationError)
  | integrity
deriving DecidableEq

/-- `MemoryApplyResult`; `linkProblems` are the entries of `problems` that the evidence
section adds. -/
structure MemoryApplyResult where
  claimsCreated : Nat
  claimsReused : Nat
  claimsReverified : Nat
  assessments : Nat
  dependenciesAdded : Nat
  dependenciesEvidentialAdded : Nat
  problems : List ClaimProblem
  linkProblems : List LinkProblem

/-- A session without a claim operation. -/
def MemoryApplyResult.empty : MemoryApplyResult := ⟨0, 0, 0, 0, 0, 0, [], []⟩

/-! ## The claim loop -/

/-- An operation with what became of it. -/
structure StagedOp where
  proposed : ProposedClaim
  result : Except ClaimProblem StagedClaim

namespace StagedOp

/-- The entry of `claims`: a rejected operation keeps its place. -/
def claim (o : StagedOp) : Option ClaimId :=
  match o.result with
  | .ok .created => some o.proposed.newId
  | .ok (.reused c) | .ok (.reverified c) => some c
  | .error _ => none

def isCreated (o : StagedOp) : Bool :=
  match o.result with
  | .ok .created => true
  | _ => false

/-- The write of one round to `claims`. -/
def writeClaim (claims : List Claim) (o : StagedOp) : List Claim :=
  match o.result with
  | .ok .created => claims ++ [⟨o.proposed.newId, o.proposed.op.claimType, o.proposed.hasAsOf⟩]
  | .ok (.reused c) | .ok (.reverified c) =>
    claims.map fun r => if r.id = c then { r with hasAsOf := o.proposed.hasAsOf } else r
  | .error _ => claims

/-- The claim the round inserts. -/
def newClaim? (o : StagedOp) : Option ClaimId :=
  match o.result with
  | .ok .created => some o.proposed.newId
  | _ => none

theorem writeClaim_ids (claims : List Claim) (o : StagedOp) :
    (o.writeClaim claims).map (·.id) = claims.map (·.id) ++ o.newClaim?.toList := by
  have hkeep : ∀ c : ClaimId, (claims.map fun r => if r.id = c then
      { r with hasAsOf := o.proposed.hasAsOf } else r).map (·.id) = claims.map (·.id) := by
    intro c
    rw [List.map_map]
    apply List.map_congr_left
    intro r _
    by_cases hr : r.id = c
    · simp [hr]
    · simp [hr]
  obtain ⟨p, result⟩ := o
  cases result with
  | error problem => simp [writeClaim, newClaim?]
  | ok staged =>
    cases staged with
    | created => simp [writeClaim, newClaim?]
    | reused c => simpa [writeClaim, newClaim?] using hkeep c
    | reverified c => simpa [writeClaim, newClaim?] using hkeep c

/-- **The claim loop** adds rows and keeps the others' ids. -/
theorem foldl_writeClaim_ids (staged : List StagedOp) (claims : List Claim) :
    (staged.foldl writeClaim claims).map (·.id) =
      claims.map (·.id) ++ staged.filterMap (·.newClaim?) := by
  induction staged generalizing claims with
  | nil => simp
  | cons o rest ih =>
    rw [List.foldl_cons, ih, writeClaim_ids, List.append_assoc, List.filterMap_cons]
    cases o.newClaim? with
    | none => simp
    | some c => simp

end StagedOp

/-- `claim_scopes`: a later operation on the claim overwrites. -/
def scopeOf (staged : List StagedOp) (c : ClaimId) : Scope :=
  match staged.reverse.find? fun o => o.claim = some c with
  | some o => o.proposed.claimScope
  | none => ∅

/-- `claim_deps`. -/
def claimDeps (staged : List StagedOp) : List (ClaimId × List RawDependency) :=
  staged.filterMap fun o => o.claim.map fun c => (c, o.proposed.dependencies)

/-! ## The evidence section -/

/-- Insert a row whose source is registered. -/
def EvidenceDb.insertEvidence (db : EvidenceDb) (e : Evidence)
    (h : ∀ s, e.sourceId = some s → s ∈ db.sources.map (·.id)) : EvidenceDb :=
  { db with
    evidence := db.evidence ++ [e]
    registered := db.registered_append e h }

/-- The claim has a row of the record. -/
def EvidenceDb.hasRow (db : EvidenceDb) (c : ClaimId) (e : Evidence) : Bool :=
  db.evidence.any fun e' => e'.claimId = c ∧ e'.kind = e.kind ∧ e'.identityHash = e.identityHash

/-- One round: a link to a rejected operation is rejected, a row of the same identity is
reused, a new row of an assertion without its source is rejected, and an unregistered source
breaks the foreign key. -/
def applyLink (claims : List (Option ClaimId)) (t : AssessmentDb) (link : EvidenceLink) :
    Except ApplyError AssessmentDb :=
  match link.evidence, link.claim claims with
  | some e, some c =>
    let row := e.rowFor t.evidence.length c
    if t.hasRow c e then .ok t
    else if !e.hasProvenance then .ok t
    else if h : ∀ s ∈ row.sourceId, s ∈ t.sources.map (·.id) then
      .ok { t with toEvidenceDb := t.toEvidenceDb.insertEvidence row h }
    else .error .integrity
  | _, _ => .ok t

/-- What the round appends to `problems`. -/
def linkProblem (claims : List (Option ClaimId)) (t : AssessmentDb) (link : EvidenceLink) :
    Option LinkProblem :=
  match link.evidence, link.claim claims with
  | none, _ => some .record
  | some _, none => some .claimRejected
  | some e, some c => if t.hasRow c e || e.hasProvenance then none else some .noProvenance

/-- The problems of all rounds. -/
def linkProblems (claims : List (Option ClaimId)) :
    AssessmentDb → List EvidenceLink → List LinkProblem
  | _, [] => []
  | t, link :: rest =>
    (linkProblem claims t link).toList ++ match applyLink claims t link with
      | .ok u => linkProblems claims u rest
      | .error _ => []

/-- **What one round does**: it leaves the tables, and then the record has its row unless
it lacks its source; or the record gets its row. -/
theorem applyLink_ok {ids : List (Option ClaimId)} {t u : AssessmentDb} {link : EvidenceLink}
    (h : applyLink ids t link = .ok u) :
    (u = t ∧ ∀ e c, link.evidence = some e → link.claim ids = some c →
      e.hasProvenance = true → t.hasRow c e = true) ∨
    ∃ e c, link.evidence = some e ∧ link.claim ids = some c ∧ t.hasRow c e = false ∧
      e.hasProvenance = true ∧ ∃ hs, u = { t with
        toEvidenceDb := t.toEvidenceDb.insertEvidence (e.rowFor t.evidence.length c) hs } := by
  unfold applyLink at h
  split at h
  · rename_i e c he hc
    have hsame : ∀ e' c', link.evidence = some e' → link.claim ids = some c' →
        e' = e ∧ c' = c := fun e' c' he' hc' =>
      ⟨Option.some.inj (he'.symm.trans he), Option.some.inj (hc'.symm.trans hc)⟩
    dsimp only at h
    split at h
    · rename_i hrow
      cases h
      refine .inl ⟨rfl, fun e' c' he' hc' _ => ?_⟩
      obtain ⟨rfl, rfl⟩ := hsame e' c' he' hc'
      exact hrow
    · rename_i hnew
      split at h
      · rename_i hlacks
        cases h
        refine .inl ⟨rfl, fun e' c' he' hc' hprov => ?_⟩
        obtain ⟨rfl, rfl⟩ := hsame e' c' he' hc'
        simp [hprov] at hlacks
      · rename_i hprov
        split at h
        · rename_i hs
          cases h
          exact .inr ⟨e, c, he, hc, eq_false_of_ne_true hnew, by simpa using hprov, hs, rfl⟩
        · cases h
  · rename_i hnone
    cases h
    exact .inl ⟨rfl, fun e c he hc => absurd hc (hnone e c he)⟩

/-! ## The assessment section -/

/-- `_assess` with its head. -/
def assessHead (host : Host) (rules : ClaimTypeRules) (pin : SnapshotId) (scope : Scope)
    (c : ClaimId) (db : MemoryDb) : Except ApplyError MemoryDb :=
  match db.claim? c with
  | none => .error .integrity
  | some claim =>
    match assess host.parseDay host.parseTime host.readers rules db.tables claim scope with
    | .error e => .error (.rule e)
    | .ok (r, tables) =>
      let head := .current db.tables.assessments.length r.epistemicStatus
      .ok { db.withKnow (db.know.setHead c pin (some head)) with tables := tables }

/-- The loop over `claims`; `seen` is `assessed_ids`. -/
def assessClaims (host : Host) (rules : ClaimTypeRules) (pin : SnapshotId)
    (scope : ClaimId → Scope) :
    List (Option ClaimId) → List ClaimId → MemoryDb →
      Except ApplyError (MemoryDb × List ClaimId)
  | [], seen, db => .ok (db, seen)
  | none :: rest, seen, db => assessClaims host rules pin scope rest seen db
  | some c :: rest, seen, db =>
    if c ∈ seen then assessClaims host rules pin scope rest seen db
    else do
      let db ← assessHead host rules pin (scope c) c db
      assessClaims host rules pin scope rest (c :: seen) db

/-! ## The whole apply -/

namespace MemoryDb

/-- The corpus of a session pinned to `pin`. -/
def corpus (db : MemoryDb) (statements : ClaimId → Text) (pin : SnapshotId) : Corpus where
  rows := db.claims.map fun r => ⟨r.id, statements r.id, r.claimType⟩
  hasHead := fun c => (db.know.heads c pin).isSome

/-- The claim loop. The heads it looks up are those before the commit. -/
def stageOps (host : Host) (rules : ClaimTypeRules) (corpus : Corpus)
    (ops : List ProposedClaim) : List StagedOp :=
  ops.map fun p => ⟨p, stageClaim host.parseReference host.hex (fun t => (rules t).isSome)
    corpus p.op⟩

/-- The tables of the dependency section, the new claims inserted. -/
def depStore (db : MemoryDb) (claims : List Claim) : DepStore :=
  ⟨claims.map (·.id), db.know.heads, db.cascade.dependencies⟩

/-- `apply_claim_staging`, for a session pinned to `pin`. -/
def applyClaimStaging (host : Host) (db : MemoryDb) (statements : ClaimId → Text)
    (pin : SnapshotId) (ops : List ProposedClaim) (links : List EvidenceLink) :
    Except ApplyError (MemoryDb × MemoryApplyResult) :=
  if ops = [] then .ok (db, .empty)
  else match db.snapshot? pin with
  | none => .error .snapshotMissing
  | some snapshot => do
    let staged := stageOps host snapshot.rules (db.corpus statements pin) ops
    let claims := staged.foldl StagedOp.writeClaim db.claims
    let ids := staged.map (·.claim)
    let deps := applyDependencies host.parseUuid (db.depStore claims) pin (claimDeps staged)
    let tables ← links.foldlM (applyLink ids) db.tables
    let rejected := linkProblems ids db.tables links
    let (db, assessed) ← assessClaims host snapshot.rules pin (scopeOf staged) ids [] { db with
      claims := claims
      tables := tables
      cascade := { db.cascade with dependencies := deps.db.dependencies } }
    pure (db, {
      claimsCreated := (staged.filter (·.isCreated)).length
      claimsReused := (staged.filter fun o => o.result matches .ok (.reused _)).length
      claimsReverified := (staged.filter fun o => o.result matches .ok (.reverified _)).length
      assessments := assessed.length
      dependenciesAdded := deps.deps
      dependenciesEvidentialAdded := deps.depsEvidential
      problems := staged.filterMap fun o => match o.result with
        | .error problem => some problem
        | .ok _ => none
      linkProblems := rejected })

end MemoryDb

/-! ## What the sections change -/

/-- The cascade tables with other heads. -/
def CascadeDb.withHeads (db : CascadeDb) (heads : Heads) : CascadeDb :=
  { db with know := { db.know with heads := heads } }

/-- **What the assessments change**: a head under `pin` for each claim, and nothing else
besides the assessment rows. -/
structure Assesses (claims : ClaimId → Prop) (pin : SnapshotId) (db db' : MemoryDb) :
    Prop where
  rows : db'.claims = db.claims
  snapshots : db'.snapshots = db.snapshots
  head : db'.head = db.head
  sessions : db'.sessions = db.sessions
  sourceGraphRevision : db'.sourceGraphRevision = db.sourceGraphRevision
  evidence : db'.tables.toEvidenceDb = db.tables.toEvidenceDb
  cascade : db'.cascade = db.cascade.withHeads db'.know.heads
  heads : ∀ c s, db'.know.heads c s = db.know.heads c s ∨
    s = pin ∧ claims c ∧ ∃ a e, db'.know.heads c s = some (.current a e)
  assessed : ∀ c, claims c → ∃ a e, db'.know.heads c pin = some (.current a e)
  rowed : ∀ c, claims c → (db'.claim? c).isSome

theorem Assesses.refl (pin : SnapshotId) (db : MemoryDb) :
    Assesses (fun _ => False) pin db db :=
  ⟨rfl, rfl, rfl, rfl, rfl, rfl, rfl, fun _ _ => .inl rfl, fun _ hc => hc.elim,
    fun _ hc => hc.elim⟩

theorem Assesses.trans {p q : ClaimId → Prop} {pin : SnapshotId} {a b c : MemoryDb}
    (h : Assesses p pin a b) (k : Assesses q pin b c) :
    Assesses (fun x => p x ∨ q x) pin a c where
  rows := k.rows.trans h.rows
  snapshots := k.snapshots.trans h.snapshots
  head := k.head.trans h.head
  sessions := k.sessions.trans h.sessions
  sourceGraphRevision := k.sourceGraphRevision.trans h.sourceGraphRevision
  evidence := k.evidence.trans h.evidence
  cascade := by
    rw [k.cascade, h.cascade]
    rfl
  heads := by
    intro x s
    rcases k.heads x s with heq | ⟨hs, hq, hcur⟩
    · rw [heq]
      exact (h.heads x s).imp_right fun ⟨hs, hp, hcur⟩ => ⟨hs, .inl hp, hcur⟩
    · exact .inr ⟨hs, .inr hq, hcur⟩
  assessed := by
    intro x hx
    rcases k.heads x pin with heq | ⟨-, -, hcur⟩
    · rcases hx with hp | hq
      · rw [heq]
        exact h.assessed x hp
      · exact k.assessed x hq
    · exact hcur
  rowed := by
    intro x hx
    rcases hx with hp | hq
    · rw [MemoryDb.claim?, k.rows]
      exact h.rowed x hp
    · exact k.rowed x hq

theorem Assesses.congr {p q : ClaimId → Prop} {pin : SnapshotId} {a b : MemoryDb}
    (h : Assesses p pin a b) (hpq : ∀ c, p c ↔ q c) : Assesses q pin a b :=
  { h with
    heads := fun c s => (h.heads c s).imp_right fun ⟨hs, hp, hcur⟩ => ⟨hs, (hpq c).mp hp, hcur⟩
    assessed := fun c hq => h.assessed c ((hpq c).mpr hq)
    rowed := fun c hq => h.rowed c ((hpq c).mpr hq) }

section Sections

variable {host : Host} {rules : ClaimTypeRules} {pin : SnapshotId}

theorem assess_tables {parseDay parseTime : String → Option Int} {rd : Readers}
    {t t' : AssessmentDb} {claim : Claim} {scope : Scope} {r : AssessmentResult}
    (h : assess parseDay parseTime rd rules t claim scope = .ok (r, t')) :
    t'.toEvidenceDb = t.toEvidenceDb := by
  unfold assess at h
  obtain ⟨rule, -, h⟩ := bind_eq_ok.mp h
  obtain ⟨result, -, h⟩ := bind_eq_ok.mp h
  cases h
  rfl

theorem assessHead_assesses {scope : Scope} {c : ClaimId} {db db' : MemoryDb}
    (h : assessHead host rules pin scope c db = .ok db') :
    Assesses (fun x => x = c) pin db db' := by
  unfold assessHead at h
  split at h
  · cases h
  · rename_i claim hclaim
    split at h
    · cases h
    · rename_i r tables hassess
      cases h
      refine ⟨rfl, rfl, rfl, rfl, rfl, assess_tables hassess, rfl, ?_, ?_, ?_⟩
      · intro x s
        by_cases heq : x = c ∧ s = pin
        · obtain ⟨rfl, rfl⟩ := heq
          exact .inr ⟨rfl, rfl, _, _, Heads.set_same _ _ _ _⟩
        · exact .inl (Heads.set_other _ _ heq)
      · intro x hx
        rw [hx]
        exact ⟨_, _, Heads.set_same _ _ _ _⟩
      · intro x hx
        rw [hx]
        exact Option.isSome_iff_exists.mpr ⟨claim, hclaim⟩

/-- **The assessment loop** assesses the claims it has not seen. -/
theorem assessClaims_assesses {scope : ClaimId → Scope} {ids : List (Option ClaimId)}
    {seen seen' : List ClaimId} {db db' : MemoryDb}
    (h : assessClaims host rules pin scope ids seen db = .ok (db', seen')) :
    Assesses (fun c => some c ∈ ids ∧ c ∉ seen) pin db db' ∧
      ∀ c, c ∈ seen' ↔ c ∈ seen ∨ some c ∈ ids := by
  induction ids generalizing seen db with
  | nil =>
    simp only [assessClaims, Except.ok.injEq, Prod.mk.injEq] at h
    obtain ⟨rfl, rfl⟩ := h
    exact ⟨(Assesses.refl pin db).congr (by simp), by simp⟩
  | cons o rest ih =>
    cases o with
    | none =>
      obtain ⟨hdb, hseen⟩ := ih (show assessClaims host rules pin scope rest seen db = _ from h)
      exact ⟨hdb.congr (by simp), by simpa using hseen⟩
    | some c =>
      unfold assessClaims at h
      split at h
      · rename_i hc
        obtain ⟨hdb, hseen⟩ := ih h
        refine ⟨hdb.congr fun x => ?_, fun x => ?_⟩
        · constructor
          · intro ⟨hx, hnew⟩
            exact ⟨List.mem_cons_of_mem _ hx, hnew⟩
          · intro ⟨hx, hnew⟩
            rcases List.mem_cons.mp hx with heq | hx
            · cases heq
              exact absurd hc hnew
            · exact ⟨hx, hnew⟩
        · rw [hseen, List.mem_cons]
          constructor
          · intro hx
            exact hx.imp_right .inr
          · intro hx
            rcases hx with hx | heq | hx
            · exact .inl hx
            · cases heq
              exact .inl hc
            · exact .inr hx
      · rename_i hc
        obtain ⟨db₁, hone, h⟩ := bind_eq_ok.mp h
        obtain ⟨hdb, hseen⟩ := ih h
        refine ⟨((assessHead_assesses hone).trans hdb).congr fun x => ?_, fun x => ?_⟩
        · constructor
          · intro hx
            rcases hx with rfl | ⟨hx, hnew⟩
            · exact ⟨by simp, hc⟩
            · exact ⟨List.mem_cons_of_mem _ hx, fun hmem => hnew (List.mem_cons_of_mem _ hmem)⟩
          · intro ⟨hx, hnew⟩
            by_cases heq : x = c
            · exact .inl heq
            · refine .inr ⟨(List.mem_cons.mp hx).resolve_left fun h => heq (by simpa using h), ?_⟩
              intro hmem
              exact hnew ((List.mem_cons.mp hmem).resolve_left heq)
        · rw [hseen, List.mem_cons, List.mem_cons]
          constructor
          · intro hx
            rcases hx with (rfl | hx) | hx
            · exact .inr (.inl rfl)
            · exact .inl hx
            · exact .inr (.inr hx)
          · intro hx
            rcases hx with hx | heq | hx
            · exact .inl (.inr hx)
            · cases heq
              exact .inl (.inl rfl)
            · exact .inr hx

end Sections

/-! ## What the apply changes -/

/-- The dependency section of a commit. -/
def MemoryDb.applyDeps (host : Host) (db : MemoryDb) (pin : SnapshotId)
    (staged : List StagedOp) : DepsResult :=
  applyDependencies host.parseUuid
    (db.depStore (staged.foldl StagedOp.writeClaim db.claims)) pin (claimDeps staged)

/-- **What the apply changes**: the claim rows, the dependencies, and a head under the
session's snapshot for each operation that was not rejected. -/
structure Applied (host : Host) (pin : SnapshotId) (staged : List StagedOp)
    (res : MemoryApplyResult) (db db' : MemoryDb) : Prop where
  rows : db'.claims = staged.foldl StagedOp.writeClaim db.claims
  snapshots : db'.snapshots = db.snapshots
  head : db'.head = db.head
  sessions : db'.sessions = db.sessions
  sourceGraphRevision : db'.sourceGraphRevision = db.sourceGraphRevision
  cascade : db'.cascade = { db.cascade.withHeads db'.know.heads with
    dependencies := (db.applyDeps host pin staged).db.dependencies }
  heads : ∀ c s, db'.know.heads c s = db.know.heads c s ∨
    s = pin ∧ (∃ o ∈ staged, o.claim = some c) ∧ ∃ a e, db'.know.heads c s = some (.current a e)
  assessed : ∀ o ∈ staged, ∀ c, o.claim = some c →
    ∃ a e, db'.know.heads c pin = some (.current a e)
  rowed : ∀ o ∈ staged, ∀ c, o.claim = some c → (db'.claim? c).isSome
  assessments : 0 < res.assessments ↔ ∃ o ∈ staged, o.claim.isSome
  evidential : res.dependenciesEvidentialAdded = (db.applyDeps host pin staged).depsEvidential

namespace MemoryDb

theorem applyClaimStaging_ok {host : Host} {db db' : MemoryDb} {statements : ClaimId → Text}
    {pin : SnapshotId} {ops : List ProposedClaim} {links : List EvidenceLink}
    {res : MemoryApplyResult}
    (h : db.applyClaimStaging host statements pin ops links = .ok (db', res)) :
    (ops = [] ∧ db' = db ∧ res = .empty) ∨
    ∃ snapshot, db.snapshot? pin = some snapshot ∧
      Applied host pin (stageOps host snapshot.rules (db.corpus statements pin) ops) res db
        db' := by
  unfold applyClaimStaging at h
  split at h
  · rename_i hnil
    cases h
    exact .inl ⟨hnil, rfl, rfl⟩
  · split at h
    · cases h
    · rename_i snapshot hsnapshot
      obtain ⟨tables, -, h⟩ := bind_eq_ok.mp h
      obtain ⟨⟨db₁, assessed⟩, hassess, h⟩ := bind_eq_ok.mp h
      cases h
      obtain ⟨hdb, hseen⟩ := assessClaims_assesses hassess
      have hmem : ∀ c, some c ∈ (stageOps host snapshot.rules (db.corpus statements pin)
          ops).map (·.claim) ↔ ∃ o ∈ stageOps host snapshot.rules (db.corpus statements pin) ops,
            o.claim = some c := fun c => List.mem_map
      refine .inr ⟨snapshot, hsnapshot, ?_⟩
      refine ⟨hdb.rows, hdb.snapshots, hdb.head, hdb.sessions, hdb.sourceGraphRevision, ?_,
        ?_, ?_, ?_, ?_, rfl⟩
      · rw [hdb.cascade]
        rfl
      · intro c s
        exact (hdb.heads c s).imp_right fun ⟨hs, ⟨hc, _⟩, hcur⟩ => ⟨hs, (hmem c).mp hc, hcur⟩
      · intro o ho c hc
        exact hdb.assessed c ⟨(hmem c).mpr ⟨o, ho, hc⟩, by simp⟩
      · intro o ho c hc
        exact hdb.rowed c ⟨(hmem c).mpr ⟨o, ho, hc⟩, by simp⟩
      · show 0 < assessed.length ↔ _
        rw [List.length_pos_iff_exists_mem]
        constructor
        · intro ⟨c, hc⟩
          obtain ⟨o, ho, hoc⟩ := (hmem c).mp (((hseen c).mp hc).resolve_left (by simp))
          exact ⟨o, ho, by simp [hoc]⟩
        · intro ⟨o, ho, hsome⟩
          obtain ⟨c, hc⟩ := Option.isSome_iff_exists.mp hsome
          exact ⟨c, (hseen c).mpr (.inr ((hmem c).mpr ⟨o, ho, hc⟩))⟩

end MemoryDb

/-! ## The carry-over -/

/-- The loop over the claims a session has created: a pending head under the active
snapshot unless there is one, and a job. -/
def Knowledge.carryOver (active : SnapshotId) : List ClaimId → Knowledge → Knowledge
  | [], k => k
  | c :: cs, k =>
    let k := match k.heads c active with
      | none => { k with heads := k.heads.set c active (some .pending) }
      | some _ => k
    carryOver active cs (k.enqueueJob c active "commit_carryover").1

namespace MemoryDb

/-- The claims the apply creates, by id. -/
def createdClaims (host : Host) (db : MemoryDb) (statements : ClaimId → Text)
    (pin : SnapshotId) (ops : List ProposedClaim) : List ClaimId :=
  match db.snapshot? pin with
  | none => []
  | some snapshot =>
    ((stageOps host snapshot.rules (db.corpus statements pin) ops).filterMap
      (·.newClaim?)).insertionSort (· ≤ ·)

/-- The memory part of `finalize`. `active` is the pointer it reads, without a lock. -/
def commitMemory (host : Host) (db : MemoryDb) (statements : ClaimId → Text)
    (pin active : SnapshotId) (ops : List ProposedClaim) (links : List EvidenceLink) :
    Except ApplyError (MemoryDb × MemoryApplyResult) := do
  let (db', res) ← db.applyClaimStaging host statements pin ops links
  if pin = active then pure (db', res)
  else pure (db'.withKnow
    (Knowledge.carryOver active (db.createdClaims host statements pin ops) db'.know), res)

theorem commitMemory_ok {host : Host} {db db' : MemoryDb} {statements : ClaimId → Text}
    {pin active : SnapshotId} {ops : List ProposedClaim} {links : List EvidenceLink}
    {res : MemoryApplyResult}
    (h : db.commitMemory host statements pin active ops links = .ok (db', res)) :
    ∃ db₁, db.applyClaimStaging host statements pin ops links = .ok (db₁, res) ∧
      db' = if pin = active then db₁ else db₁.withKnow
        (Knowledge.carryOver active (db.createdClaims host statements pin ops) db₁.know) := by
  unfold commitMemory at h
  obtain ⟨⟨db₁, res₁⟩, happly, h⟩ := bind_eq_ok.mp h
  refine ⟨db₁, ?_⟩
  dsimp only at h
  split at h
  · rename_i hpin
    cases h
    exact ⟨happly, (if_pos hpin).symm⟩
  · rename_i hpin
    cases h
    exact ⟨happly, (if_neg hpin).symm⟩

end MemoryDb

/-! ## What the memory part changes -/

namespace Knowledge

theorem carryOver_keepsJobs (active : SnapshotId) (cs : List ClaimId) (k : Knowledge) :
    KeepsJobs k (carryOver active cs k) := by
  induction cs generalizing k with
  | nil => exact .refl k
  | cons c cs ih =>
    unfold carryOver
    refine KeepsJobs.trans ?_ (ih _)
    split
    · exact setHead_enqueueJob_keepsJobs k c active (some .pending) "commit_carryover"
    · exact enqueueJob_keepsJobs k c active "commit_carryover"

theorem carryOver_revision (active : SnapshotId) (cs : List ClaimId) (k : Knowledge) :
    (carryOver active cs k).revision = k.revision := by
  induction cs generalizing k with
  | nil => rfl
  | cons c cs ih =>
    unfold carryOver
    rw [ih]
    unfold enqueueJob
    split <;> split <;> rfl

/-- Under the active snapshot the listed claims without a head get a pending one. -/
theorem carryOver_heads (active : SnapshotId) (cs : List ClaimId) (k : Knowledge)
    (c : ClaimId) (s : SnapshotId) :
    (carryOver active cs k).heads c s =
      if s = active ∧ c ∈ cs ∧ k.heads c s = none then some .pending else k.heads c s := by
  induction cs generalizing k with
  | nil => simp [carryOver]
  | cons d cs ih =>
    unfold carryOver
    rw [ih, enqueueJob_heads]
    cases hd : k.heads d active with
    | some v =>
      by_cases hc : c = d
      · subst hc
        by_cases hs : s = active
        · subst hs
          simp [hd]
        · simp [hs]
      · simp [hc]
    | none =>
      show (if s = active ∧ c ∈ cs ∧ (k.setHead d active (some .pending)).heads c s = none then
        _ else (k.setHead d active (some .pending)).heads c s) = _
      by_cases heq : c = d ∧ s = active
      · obtain ⟨rfl, rfl⟩ := heq
        simp [hd]
      · rw [setHead_other k _ heq]
        by_cases hs : s = active
        · have hc : c ≠ d := fun h => heq ⟨h, hs⟩
          simp [hs, hc]
        · simp [hs]

end Knowledge

/-- **What the memory part of a commit changes**, with the claims it creates. -/
structure CommitsMemory (pin active : SnapshotId) (created : List ClaimId)
    (db db' : MemoryDb) : Prop where
  ids : db'.claims.map (·.id) = db.claims.map (·.id) ++ created
  snapshots : db'.snapshots = db.snapshots
  head : db'.head = db.head
  effective : db'.effective = db.effective
  revision : db'.know.revision = db.know.revision
  graphRevision : db'.cascade.graphRevision = db.cascade.graphRevision
  barriers : db'.cascade.barriers = db.cascade.barriers
  manifests : db'.cascade.manifests = db.cascade.manifests
  jobs : Knowledge.KeepsJobs db.know db'.know
  heads : ∀ c s, db'.know.heads c s = db.know.heads c s ∨
    (s = pin ∧ c ∈ db'.claims.map (·.id) ∧ ∃ a e, db'.know.heads c s = some (.current a e)) ∨
    (s = active ∧ c ∈ created ∧ db'.know.heads c s = some .pending)
  pinned : ∀ c ∈ created, ∃ a e, db'.know.heads c pin = some (.current a e)
  carried : pin ≠ active → ∀ c ∈ created, db'.know.heads c active ≠ none

theorem StagedOp.claim_of_new {o : StagedOp} {c : ClaimId} (h : o.newClaim? = some c) :
    o.claim = some c := by
  unfold StagedOp.newClaim? at h
  unfold StagedOp.claim
  split at h
  · rename_i hres
    rw [hres]
    exact h
  · cases h

/-- The apply alone. -/
theorem Applied.commits {host : Host} {pin : SnapshotId} {staged : List StagedOp}
    {res : MemoryApplyResult} {db db' : MemoryDb} (h : Applied host pin staged res db db') :
    CommitsMemory pin pin (staged.filterMap (·.newClaim?)) db db' := by
  have hknow : db'.know = { db.know with heads := db'.know.heads } :=
    (congrArg CascadeDb.know h.cascade :)
  refine ⟨?_, h.snapshots, h.head, (congrArg CascadeDb.effective h.cascade :),
    (congrArg Knowledge.revision hknow :), (congrArg CascadeDb.graphRevision h.cascade :),
    (congrArg CascadeDb.barriers h.cascade :), (congrArg CascadeDb.manifests h.cascade :), ?_, ?_, ?_,
    fun hne => absurd rfl hne⟩
  · rw [h.rows, StagedOp.foldl_writeClaim_ids]
  · intro c s hp
    rcases h.heads c s with heq | ⟨-, -, a, e, hcur⟩
    · refine .inr ⟨heq ▸ hp, fun hjob => ?_⟩
      rw [hknow]
      exact hjob
    · rw [hcur] at hp
      cases hp
  · intro c s
    rcases h.heads c s with heq | ⟨hs, ⟨o, ho, hc⟩, hcur⟩
    · exact .inl heq
    · exact .inr (.inl ⟨hs, MemoryDb.claim?_isSome_iff.mp (h.rowed o ho c hc), hcur⟩)
  · intro c hc
    obtain ⟨o, ho, hnew⟩ := List.mem_filterMap.mp hc
    exact h.assessed o ho c (StagedOp.claim_of_new hnew)

namespace MemoryDb

/-- **The memory part of a commit.** -/
theorem commitMemory_commits {host : Host} {db db' : MemoryDb} {statements : ClaimId → Text}
    {pin active : SnapshotId} {ops : List ProposedClaim} {links : List EvidenceLink}
    {res : MemoryApplyResult}
    (h : db.commitMemory host statements pin active ops links = .ok (db', res)) :
    ∃ created, CommitsMemory pin active created db db' ∧
      ∀ c, c ∈ created ↔ c ∈ db.createdClaims host statements pin ops := by
  obtain ⟨db₁, happly, hdb⟩ := commitMemory_ok h
  have hbase : ∃ created, CommitsMemory pin pin created db db₁ ∧
      ∀ c, c ∈ created ↔ c ∈ db.createdClaims host statements pin ops := by
    rcases applyClaimStaging_ok happly with ⟨rfl, rfl, rfl⟩ | ⟨snapshot, hsnapshot, happlied⟩
    · refine ⟨[], ⟨by simp, rfl, rfl, rfl, rfl, rfl, rfl, rfl, .refl _, fun _ _ => .inl rfl,
        by simp, by simp⟩, ?_⟩
      intro c
      unfold createdClaims
      split <;> simp [stageOps]
    · refine ⟨_, happlied.commits, ?_⟩
      intro c
      simp [createdClaims, hsnapshot]
  obtain ⟨created, hcommit, hcreated⟩ := hbase
  refine ⟨created, ?_, hcreated⟩
  rw [hdb]
  split
  · rename_i hpin
    rw [← hpin]
    exact hcommit
  · rename_i hpin
    generalize hcs : db.createdClaims host statements pin ops = cs at hcreated
    have hheads := Knowledge.carryOver_heads active cs db₁.know
    refine ⟨hcommit.ids, hcommit.snapshots, hcommit.head, hcommit.effective, ?_,
      hcommit.graphRevision, hcommit.barriers, hcommit.manifests,
      hcommit.jobs.trans (Knowledge.carryOver_keepsJobs active cs db₁.know), ?_, ?_, ?_⟩
    · exact (Knowledge.carryOver_revision active cs db₁.know).trans hcommit.revision
    · intro c s
      have hc := hheads c s
      split at hc
      · rename_i hnew
        exact .inr (.inr ⟨hnew.1, (hcreated c).mpr hnew.2.1, hc⟩)
      · rcases hcommit.heads c s with heq | hcur | ⟨rfl, hmem, hp⟩
        · exact .inl (hc.trans heq)
        · refine .inr (.inl ⟨hcur.1, hcur.2.1, ?_⟩)
          show ∃ a e, (Knowledge.carryOver active cs db₁.know).heads c s = _
          rw [hc]
          exact hcur.2.2
        · obtain ⟨a, e, hcur⟩ := hcommit.pinned c hmem
          rw [hcur] at hp
          cases hp
    · intro c hc
      obtain ⟨a, e, hcur⟩ := hcommit.pinned c hc
      refine ⟨a, e, ?_⟩
      show (Knowledge.carryOver active cs db₁.know).heads c pin = _
      rw [hheads, if_neg fun hnew => hpin hnew.1]
      exact hcur
    · intro _ c hc
      show (Knowledge.carryOver active cs db₁.know).heads c active ≠ none
      rw [hheads]
      split
      · simp
      · rename_i hold
        intro hnone
        exact hold ⟨rfl, (hcreated c).mp hc, hnone⟩

end MemoryDb

/-! ## What it does to the evidential graph -/

/-- **What a commit does to the evidential graph.** It stays acyclic; the stored edges
stay; a new one leads to a claim that is current under the session's snapshot; and the
graph is the same unless the commit bumps its revision. -/
structure CommitsEdges (pin : SnapshotId) (bumps : Prop) (db db' : CascadeDb) : Prop where
  acyclic : Acyclic (Edge db.edges) → Acyclic (Edge db'.edges)
  kept : ∀ x ∈ db.edges, x ∈ db'.edges
  new : ∀ x ∈ db'.edges, x ∈ db.edges ∨ db.know.heads.state x.2 pin = some .current
  same : ¬ bumps → db'.edges = db.edges

/-- A staged operation of a commit that proposes no evidential edge proposes none. -/
theorem claimDeps_named {ops : List ProposedClaim} {f : ProposedClaim → StagedOp}
    (hf : ∀ p, (f p).proposed = p) (h : touchesGraph ops = false)
    {x : ClaimId × List RawDependency} (hx : x ∈ claimDeps (ops.map f))
    {k i : Option String} (hraw : .dict k i ∈ x.2) : k.getD "evidential" ≠ "evidential" := by
  obtain ⟨o, ho, heq⟩ := List.mem_filterMap.mp hx
  obtain ⟨p, hp, rfl⟩ := List.mem_map.mp ho
  obtain ⟨c, -, rfl⟩ := Option.map_eq_some_iff.mp heq
  rw [hf] at hraw
  intro hname
  have htouches : touchesGraph ops = true :=
    List.any_eq_true.mpr ⟨p, hp, List.any_eq_true.mpr ⟨_, hraw, decide_eq_true hname⟩⟩
  rw [h] at htouches
  cases htouches

theorem MemoryDb.commitMemory_edges {host : Host} {db db' : MemoryDb}
    {statements : ClaimId → Text} {pin active : SnapshotId} {ops : List ProposedClaim}
    {links : List EvidenceLink} {res : MemoryApplyResult}
    (h : db.commitMemory host statements pin active ops links = .ok (db', res)) :
    CommitsEdges pin (touchesGraph ops ∧ 0 < res.dependenciesEvidentialAdded) db.cascade
      db'.cascade := by
  obtain ⟨db₁, happly, hdb⟩ := commitMemory_ok h
  have hedges : db'.cascade.edges = db₁.cascade.edges := by
    rw [hdb]
    split <;> rfl
  have hbase : CommitsEdges pin (touchesGraph ops ∧ 0 < res.dependenciesEvidentialAdded)
      db.cascade db₁.cascade := by
    rcases applyClaimStaging_ok happly with ⟨-, rfl, -⟩ | ⟨snapshot, -, happlied⟩
    · exact ⟨id, fun _ hx => hx, fun _ hx => .inl hx, fun _ => rfl⟩
    · have hnow : db₁.cascade.edges = evidentialEdges (db.applyDeps host pin
          (stageOps host snapshot.rules (db.corpus statements pin) ops)).db.dependencies := by
        rw [happlied.cascade]
        rfl
      constructor
      · intro hacyclic
        rw [hnow]
        exact applyDependencies_acyclic hacyclic
      · intro x hx
        rw [hnow]
        exact applyDependencies_edge.mpr (.inl hx)
      · intro x hx
        rw [hnow] at hx
        rcases applyDependencies_edge.mp hx with hold | ⟨hnew, -⟩
        · exact .inl hold
        · exact .inr (proposedEdges_evidential hnew).1
      · intro hbumps
        rw [hnow]
        refine applyDependencies_same ?_
        by_cases htouches : touchesGraph ops
        · refine .inr ?_
          have hzero : ¬ 0 < res.dependenciesEvidentialAdded := fun hlt => hbumps ⟨htouches, hlt⟩
          rw [happlied.evidential] at hzero
          exact Nat.eq_zero_of_not_pos hzero
        · refine .inl fun x hx k i hraw => ?_
          exact claimDeps_named (fun _ => rfl) (by simpa using htouches) hx hraw
  exact ⟨fun ha => by rw [hedges]; exact hbase.acyclic ha,
    fun x hx => by rw [hedges]; exact hbase.kept x hx,
    fun x hx => hbase.new x (by rwa [← hedges]), fun hb => hedges.trans (hbase.same hb)⟩

/-! ## Which operations are applied -/

/-- An operation that was not rejected names its claim. -/
theorem StagedOp.claim_isSome {o : StagedOp} :
    o.claim.isSome ↔ ∃ staged, o.result = .ok staged := by
  unfold StagedOp.claim
  cases h : o.result with
  | error problem => simp
  | ok staged => cases staged <;> simp

/-- The store accepts an operation: it names a statement and a type of the rules, and its
reference, if it has one, is of one claim in view. -/
def Corpus.Accepts (host : Host) (rules : ClaimTypeRules) (db : Corpus) (op : ClaimOp) :
    Prop :=
  op.wellFormed (fun t => (rules t).isSome) ∧
    ∀ raw, op.existingClaimId = some raw →
      ∃ c, resolveClaimReference host.parseReference host.hex raw db.visibleIds = .ok c

theorem stageClaim_ok_iff {host : Host} {rules : ClaimTypeRules} {db : Corpus} {op : ClaimOp} :
    (∃ staged, stageClaim host.parseReference host.hex (fun t => (rules t).isSome) db op =
      .ok staged) ↔ db.Accepts host rules op := by
  unfold stageClaim Corpus.Accepts
  by_cases hform : op.wellFormed fun t => (rules t).isSome
  · simp only [hform, not_true, if_false, true_and]
    cases href : op.existingClaimId with
    | none =>
      simp only [reduceCtorEq, false_implies, implies_true, iff_true]
      cases hdup : db.duplicate? op with
      | some c => exact ⟨_, rfl⟩
      | none => exact ⟨_, rfl⟩
    | some raw =>
      simp only [Option.some.injEq, forall_eq']
      cases hres : resolveClaimReference host.parseReference host.hex raw db.visibleIds with
      | error problem => simp
      | ok c =>
        have hrow : c ∈ db.rows.map (·.id) :=
          (Corpus.mem_visibleIds.mp (resolve_mem hres)).1
        simp only [if_pos hrow, Except.ok.injEq, exists_eq']
  · simp [hform]

/-- **What the apply counts.** It has written an assessment exactly when the store
accepted one of the operations. -/
theorem MemoryDb.applyClaimStaging_assessments {host : Host} {db db' : MemoryDb}
    {statements : ClaimId → Text} {pin : SnapshotId} {ops : List ProposedClaim}
    {links : List EvidenceLink} {res : MemoryApplyResult}
    (h : db.applyClaimStaging host statements pin ops links = .ok (db', res)) :
    0 < res.assessments ↔ ∃ snapshot, db.snapshot? pin = some snapshot ∧
      ∃ p ∈ ops, (db.corpus statements pin).Accepts host snapshot.rules p.op := by
  rcases applyClaimStaging_ok h with ⟨hnil, -, rfl⟩ | ⟨snapshot, hsnapshot, happlied⟩
  · simp [hnil, MemoryApplyResult.empty]
  · rw [happlied.assessments]
    constructor
    · intro ⟨o, ho, hsome⟩
      obtain ⟨p, hp, rfl⟩ := List.mem_map.mp ho
      exact ⟨snapshot, hsnapshot, p, hp, stageClaim_ok_iff.mp (StagedOp.claim_isSome.mp hsome)⟩
    · intro ⟨snapshot', hsnapshot', p, hp, haccepts⟩
      rw [hsnapshot] at hsnapshot'
      cases hsnapshot'
      exact ⟨_, List.mem_map_of_mem hp,
        StagedOp.claim_isSome.mpr (stageClaim_ok_iff.mpr haccepts)⟩

end Noezema.Memory
