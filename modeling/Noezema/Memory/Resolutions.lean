import Noezema.Memory.Dispute
import Noezema.Memory.HeadWrites
import Noezema.Memory.System

/-! # The basis of a resolution

A resolution of counterevidence rests on another evidence row or on a correction of the
source graph. The rows here are the full ones of `counterevidence_resolutions` and of
`source_graph_corrections`; everything else is the memory system. Resolutions are created
and invalidated, corrections come with a dispute and go with its cancel, and the edges of
the claims grow with the final transactions.
-/

namespace Noezema.Memory

open Noezema.Lib

/-- A row of `counterevidence_resolutions` with its basis. -/
structure ResolutionRow extends CounterResolution where
  basis : MemoryDb.ResolutionBasis
deriving DecidableEq

/-- `row.valid = False`. -/
def CounterResolution.withdraw (r : CounterResolution) : CounterResolution :=
  { r with valid := false }

def ResolutionRow.withdraw (r : ResolutionRow) : ResolutionRow := { r with valid := false }

/-! ## What the system leaves alone -/

/-- The events of the system that rewrite evidence, taken apart below. -/
def SystemEvent.changesEvidence : SystemEvent → Bool
  | .sourceGraph _ _ | .resolve _ _ _ | .unresolve _ => true
  | _ => false

/-- **What every other event keeps**: the corrections, the resolutions and the sources;
evidence rows are only added. -/
structure KeepsEvidence (db db' : MemoryDb) : Prop where
  corrections : db'.tables.corrections = db.tables.corrections
  resolutions : db'.tables.resolutions = db.tables.resolutions
  sources : db'.tables.sources = db.tables.sources
  evidence : db.tables.evidence <+: db'.tables.evidence

theorem KeepsEvidence.of_tables {db db' : MemoryDb}
    (h : db'.tables.toEvidenceDb = db.tables.toEvidenceDb) : KeepsEvidence db db' := by
  constructor
  · rw [h]
  · rw [h]
  · rw [h]
  · rw [h]

theorem KeepsEvidence.refl (db : MemoryDb) : KeepsEvidence db db := .of_tables rfl

/-- The evidence section of a commit adds rows. -/
theorem applyLinks_keeps {ids : List (Option ClaimId)} {links : List EvidenceLink}
    {t t' : AssessmentDb} (h : links.foldlM (applyLink ids) t = .ok t') :
    t'.corrections = t.corrections ∧ t'.resolutions = t.resolutions ∧
      t'.sources = t.sources ∧ t.evidence <+: t'.evidence := by
  induction links generalizing t with
  | nil =>
    cases h
    exact ⟨rfl, rfl, rfl, List.prefix_refl _⟩
  | cons link rest ih =>
    obtain ⟨u, hu, hrest⟩ := bind_eq_ok.mp h
    obtain ⟨hcorrections, hresolutions, hsources, hevidence⟩ := ih hrest
    rw [hcorrections, hresolutions, hsources]
    rcases applyLink_ok hu with ⟨rfl, -⟩ | ⟨e, c, -, -, -, -, hs, rfl⟩
    · exact ⟨rfl, rfl, rfl, hevidence⟩
    · exact ⟨rfl, rfl, rfl, (List.prefix_append _ _).trans hevidence⟩

namespace World

variable {host : Host} {digest : ManifestBody → String}
  {headDigest : List (ClaimId × Head) → String}

theorem commitMemory_keeps {db db' : MemoryDb} {statements : ClaimId → Text}
    {pin active : SnapshotId} {ops : List ProposedClaim} {links : List EvidenceLink}
    {res : MemoryApplyResult}
    (h : db.commitMemory host statements pin active ops links = .ok (db', res)) :
    KeepsEvidence db db' := by
  obtain ⟨db₁, happly, hdb⟩ := MemoryDb.commitMemory_ok h
  have htables : db'.tables = db₁.tables := by
    rw [hdb]
    split <;> rfl
  have hkeeps : KeepsEvidence db db₁ := by
    unfold MemoryDb.applyClaimStaging at happly
    split at happly
    · cases happly
      exact .refl db
    · split at happly
      · cases happly
      · obtain ⟨tables, hlinks, happly⟩ := bind_eq_ok.mp happly
        obtain ⟨⟨db₂, assessed⟩, hassess, happly⟩ := bind_eq_ok.mp happly
        cases happly
        obtain ⟨hcorrections, hresolutions, hsources, hevidence⟩ := applyLinks_keeps hlinks
        have hsame := (assessClaims_assesses hassess).1.evidence
        constructor
        · rw [hsame]
          exact hcorrections
        · rw [hsame]
          exact hresolutions
        · rw [hsame]
          exact hsources
        · rw [hsame]
          exact hevidence
  exact ⟨by rw [htables, hkeeps.corrections], by rw [htables, hkeeps.resolutions],
    by rw [htables, hkeeps.sources], by rw [htables]; exact hkeeps.evidence⟩

theorem publishOffline_tables {db db' : MemoryDb} {run : OfflineRun}
    (h : db.publishOffline run = .ok db') : db'.tables.toEvidenceDb = db.tables.toEvidenceDb := by
  obtain ⟨u, -, h⟩ := bind_eq_ok.mp h
  cases h
  have hshadows := MemoryDb.writeShadows_shadows db run.candidate.id run.heads
  rw [← hshadows.evidence]
  exact congrArg AssessmentDb.toEvidenceDb (MemoryDb.putSnapshot_tables _ _)

theorem publishOffline_dependencies {db db' : MemoryDb} {run : OfflineRun}
    (h : db.publishOffline run = .ok db') :
    db'.cascade.dependencies = db.cascade.dependencies := by
  obtain ⟨u, -, h⟩ := bind_eq_ok.mp h
  cases h
  have hshadows := MemoryDb.writeShadows_shadows db run.candidate.id run.heads
  have hput : ∀ (x : MemoryDb) (row : ConfigSnapshot),
      (x.putSnapshot row).cascade = x.cascade := by
    intro x row
    unfold MemoryDb.putSnapshot
    split <;> rfl
  show ((db.writeShadows run.candidate.id run.heads).putSnapshot _).cascade.dependencies = _
  rw [hput, hshadows.cascade]

/-- A session event writes the session counters. -/
theorem sessionStep_db {w w' : World} {e : SystemEvent} (h : w.sessionStep e = some w') :
    w'.db.tables = w.db.tables ∧ w'.db.cascade = w.db.cascade := by
  cases e with
  | admission now =>
    simp only [sessionStep] at h
    split at h
    · cases h
      exact ⟨rfl, rfl⟩
    · cases h
  | expire i =>
    obtain ⟨s, -, rfl⟩ := Option.map_eq_some_iff.mp h
    exact ⟨rfl, rfl⟩
  | committing i =>
    simp only [sessionStep] at h
    split at h
    · split at h
      · cases h
        exact ⟨rfl, rfl⟩
      · cases h
    · cases h
  | prepare i =>
    simp only [sessionStep] at h
    split at h
    · split at h
      · cases h
        exact ⟨rfl, rfl⟩
      · cases h
    · cases h
  | abort i =>
    obtain ⟨s, -, rfl⟩ := Option.map_eq_some_iff.mp h
    exact ⟨rfl, rfl⟩
  | _ => cases h

theorem offlineStep_db {w w' : World} {e : SystemEvent}
    (h : w.offlineStep host headDigest e = some w') :
    w'.db.tables.toEvidenceDb = w.db.tables.toEvidenceDb ∧
      w'.db.cascade.dependencies = w.db.cascade.dependencies := by
  cases e with
  | prepareOffline id q =>
    simp only [offlineStep] at h
    split at h
    · split at h <;> cases h <;> exact ⟨rfl, rfl⟩
    · cases h
  | verifyOffline =>
    obtain ⟨run, -, rfl⟩ := Option.map_eq_some_iff.mp h
    split <;> exact ⟨rfl, rfl⟩
  | publishOffline =>
    simp only [offlineStep] at h
    split at h
    · split at h
      · split at h
        · rename_i db hpublish
          cases h
          exact ⟨publishOffline_tables hpublish, publishOffline_dependencies hpublish⟩
        · cases h
          exact ⟨rfl, rfl⟩
      · cases h
    · cases h
  | abortOffline =>
    cases h
    exact ⟨rfl, rfl⟩
  | _ => cases h

/-- An event outside the final transaction that rewrites no evidence. -/
theorem freeStep_keeps {w w' : World} {e : SystemEvent} (he : e.changesEvidence = false)
    (h : w.freeStep host digest headDigest e = some w') :
    w'.db.tables.toEvidenceDb = w.db.tables.toEvidenceDb ∧
      w'.db.cascade.dependencies = w.db.cascade.dependencies := by
  have hsession : w.sessionStep e = some w' →
      w'.db.tables.toEvidenceDb = w.db.tables.toEvidenceDb ∧
        w'.db.cascade.dependencies = w.db.cascade.dependencies := by
    intro hstep
    obtain ⟨htables, hcascade⟩ := sessionStep_db hstep
    exact ⟨by rw [htables], by rw [hcascade]⟩
  cases e with
  | lane e =>
    simp only [freeStep] at h
    split at h
    · obtain ⟨db, hdb, rfl⟩ := Option.map_eq_some_iff.mp h
      have hchange := MemoryDb.laneStep_change hdb
      exact ⟨congrArg AssessmentDb.toEvidenceDb hchange.tables, hchange.dependencies⟩
    · cases h
  | worker e =>
    cases h
    exact ⟨MemoryDb.workerStep_evidence w.db e,
      (congrArg CascadeDb.dependencies (MemoryDb.workerStep_onlyKnow w.db e) :)⟩
  | cascade e =>
    simp only [freeStep, cascadeCall] at h
    split at h
    · cases h
    · cases h
    · cases h
    all_goals
      obtain ⟨cw, hcw, rfl⟩ := Option.map_eq_some_iff.mp h
      have hchange := cascadeStep_change (by simp) (by simp) (by simp) hcw
      exact ⟨rfl, hchange.invalidates.1.dependencies⟩
  | sourceGraph tables sourceIds => cases he
  | resolve keys evidence basis => cases he
  | unresolve row => cases he
  | admission now => exact hsession h
  | expire i => exact hsession h
  | committing i => exact hsession h
  | prepare i => exact hsession h
  | abort i => exact hsession h
  | beginFinalize i ops links =>
    simp only [freeStep, beginFinalize] at h
    split at h
    · split at h
      · split at h
        · cases h
          exact ⟨rfl, rfl⟩
        · cases h
      · cases h
    · cases h
  | finalize => cases h
  | prepareOffline id q => exact @offlineStep_db host headDigest w w' (.prepareOffline id q) h
  | verifyOffline => exact @offlineStep_db host headDigest w w' .verifyOffline h
  | publishOffline => exact @offlineStep_db host headDigest w w' .publishOffline h
  | abortOffline => exact @offlineStep_db host headDigest w w' .abortOffline h

/-- **An event that rewrites no evidence** keeps the tables of the host, and only a final
transaction adds dependencies. -/
theorem systemStep_keeps {w w' : World} {e : SystemEvent} (he : e.changesEvidence = false)
    (h : w.systemStep host digest headDigest e = some w') : KeepsEvidence w.db w'.db ∧
      (e ≠ .finalize → w'.db.cascade.dependencies = w.db.cascade.dependencies) := by
  have hfree : w.freeStep host digest headDigest e = some w' → KeepsEvidence w.db w'.db ∧
      (e ≠ .finalize → w'.db.cascade.dependencies = w.db.cascade.dependencies) := by
    intro hstep
    obtain ⟨htables, hdependencies⟩ := freeStep_keeps he hstep
    exact ⟨.of_tables htables, fun _ => hdependencies⟩
  unfold systemStep at h
  split at h
  · obtain ⟨s, -, hcommit⟩ := Option.bind_eq_some_iff.mp h
    refine ⟨?_, fun hne => absurd rfl hne⟩
    obtain ⟨-, rfl | ⟨db, res, hok, rfl⟩⟩ := commitFinalize_cases hcommit
    · exact .of_tables rfl
    · obtain ⟨hcorrections, hresolutions, hsources, hevidence⟩ := commitMemory_keeps hok
      exact ⟨hcorrections, hresolutions, hsources, hevidence⟩
  · exact hfree (Option.eq_some_of_filter_eq_some h)
  · exact hfree h

end World

/-! ## What the host writes -/

/-- **What a dispute and its cancel write**: corrections. -/
structure WritesCorrections (db db' : MemoryDb) : Prop where
  resolutions : db'.tables.resolutions = db.tables.resolutions
  evidence : db'.tables.evidence = db.tables.evidence
  dependencies : db'.cascade.dependencies = db.cascade.dependencies

theorem WritesCorrections.refl (db : MemoryDb) : WritesCorrections db db := ⟨rfl, rfl, rfl⟩

namespace DisputeDb

variable {ar : AddressReader} {db db' : DisputeDb}

theorem withRows_writes (db : DisputeDb) (rows : List CorrectionRow) (sourceIds : List SourceId)
    (keys : (rows.map CorrectionRow.key).Nodup) (ids : (rows.map (·.correctionId)).Nodup) :
    WritesCorrections db.memory (db.withRows rows sourceIds keys ids).1.memory := by
  unfold withRows
  dsimp only
  constructor
  · rw [applySourceGraphChange_tables]
  · rw [applySourceGraphChange_tables]
  · rw [(MemoryDb.applySourceGraphChange_requeues _ _ _).cascade]

theorem disputeClaim_writes {q : DisputeRequest} {out : DisputeOutcome}
    (h : db.disputeClaim ar q = .ok (db', out)) : WritesCorrections db.memory db'.memory := by
  obtain ⟨pair, -, h⟩ := bind_eq_ok.mp h
  dsimp only at h
  split at h
  · cases h
    exact .refl _
  · split at h
    · obtain ⟨-, -, h⟩ := bind_eq_ok.mp h
      split at h
      · cases h
        exact withRows_writes db _ _ _ _
      · cases h
    · cases h

theorem cancelDispute_writes {c : ClaimId} {reason : Option String} {out : CancelOutcome}
    (h : db.cancelDispute ar c reason = .ok (db', out)) :
    WritesCorrections db.memory db'.memory := by
  obtain ⟨-, -, h⟩ := bind_eq_ok.mp h
  obtain ⟨-, -, h⟩ := bind_eq_ok.mp h
  split at h
  · cases h
  · cases h
    exact withRows_writes db _ _ _ _

end DisputeDb

namespace MemoryDb

variable {db db' : MemoryDb}

/-- **What a created resolution has passed and written.** -/
theorem applyCounterResolution_ok {keys : List String} {evidenceId : EvidenceId}
    {basis : ResolutionBasis} {r : CounterResolutionResult}
    (h : db.applyCounterResolution keys evidenceId basis = .ok (db', r)) :
    db.validateBasis keys evidenceId basis = .ok r.claimId ∧
      db.tables.resolved evidenceId = false ∧
      db'.tables.toEvidenceDb = { db.tables.toEvidenceDb with
        resolutions := db.tables.resolutions ++ [⟨evidenceId, true⟩] } := by
  obtain ⟨claim, hclaim, h⟩ := bind_eq_ok.mp h
  obtain ⟨u, hnew, h⟩ := bind_eq_ok.mp h
  cases h
  exact ⟨hclaim, by simpa using require_eq_ok.mp hnew, rfl⟩

/-- **What an invalidation writes**: the row is not valid any more. -/
theorem invalidateCounterResolution_ok {row : Nat} {r : CounterResolutionResult}
    (h : db.invalidateCounterResolution row = .ok (db', r)) :
    db'.tables.toEvidenceDb = { db.tables.toEvidenceDb with
      resolutions := db.tables.resolutions.modify row CounterResolution.withdraw } := by
  unfold invalidateCounterResolution at h
  split at h
  · cases h
  · rename_i old hold
    obtain ⟨hlt, hget⟩ := List.getElem?_eq_some_iff.mp hold
    have hset : db.tables.resolutions.modify row CounterResolution.withdraw =
        db.tables.resolutions.set row { old with valid := false } := by
      apply List.ext_getElem?
      intro i
      rw [List.getElem?_modify, List.getElem?_set]
      by_cases hi : row = i
      · subst hi
        simp [hlt, hget, CounterResolution.withdraw]
      · simp [hi]
    split at h
    · cases h
    · split at h
      · rename_i hinvalid
        cases h
        -- the row was withdrawn before
        have hsame : ({ old with valid := false } : CounterResolution) = old := by
          obtain ⟨evidenceId, valid⟩ := old
          obtain rfl : valid = false := by simpa using hinvalid
          rfl
        rw [hset, hsame, ← hget, List.set_getElem_self]
      · cases h
        rw [hset]
        rfl

end MemoryDb

/-! ## The step -/

/-- The memory system with the full rows of its corrections and resolutions. -/
structure ResolutionDb where
  world : World
  corrections : List CorrectionRow
  resolutions : List ResolutionRow
  keys : (corrections.map CorrectionRow.key).Nodup
  ids : (corrections.map (·.correctionId)).Nodup
  sourceIds : (world.db.tables.sources.map (·.id)).Nodup
  mirrors : world.db.tables.corrections = corrections.map (·.toSourceGraphCorrection)
  resolved : world.db.tables.resolutions = resolutions.map (·.toCounterResolution)

/-- An event of the system, or a change of the evidence: parents and attributions of
sources, a dispute and its cancel, a resolution created or invalidated. -/
inductive ResolutionEvent where
  | system (e : SystemEvent)
  | sourceGraph (tables : EvidenceDb) (sourceIds : List SourceId)
  | dispute (members : AssessmentId → Option (List (SourceId × String))) (q : DisputeRequest)
  | cancel (claim : ClaimId) (reason : Option String)
  | resolve (keys : List String) (evidence : EvidenceId) (basis : MemoryDb.ResolutionBasis)
  | unresolve (row : Nat)
  | unresolveFor (correction : Nat)

namespace ResolutionDb

def disputeDb (w : ResolutionDb)
    (members : AssessmentId → Option (List (SourceId × String))) : DisputeDb where
  memory := w.world.db
  rows := w.corrections
  members := members
  keys := w.keys
  ids := w.ids
  sourceIds := w.sourceIds
  mirrors := w.mirrors

def withWorld (w : ResolutionDb) (world : World) (h : KeepsEvidence w.world.db world.db) :
    ResolutionDb :=
  { w with
    world := world
    sourceIds := by
      rw [h.sources]
      exact w.sourceIds
    mirrors := by
      rw [h.corrections]
      exact w.mirrors
    resolved := by
      rw [h.resolutions]
      exact w.resolved }

def withDispute (w : ResolutionDb) (db : DisputeDb)
    (h : WritesCorrections w.world.db db.memory) : ResolutionDb where
  world := w.world.withDb db.memory
  corrections := db.rows
  resolutions := w.resolutions
  keys := db.keys
  ids := db.ids
  sourceIds := db.sourceIds
  mirrors := db.mirrors
  resolved := h.resolutions.trans w.resolved

def withResolutions (w : ResolutionDb) (db : MemoryDb) (rows : List ResolutionRow)
    (h : db.tables.toEvidenceDb = { w.world.db.tables.toEvidenceDb with
      resolutions := rows.map (·.toCounterResolution) }) : ResolutionDb :=
  { w with
    world := w.world.withDb db
    resolutions := rows
    sourceIds := by
      show (db.tables.sources.map _).Nodup
      rw [h]
      exact w.sourceIds
    mirrors := by
      show db.tables.corrections = _
      rw [h]
      exact w.mirrors
    resolved := by
      show db.tables.resolutions = _
      rw [h] }

theorem map_modify_withdraw (rows : List ResolutionRow) (i : Nat) :
    (rows.modify i ResolutionRow.withdraw).map (·.toCounterResolution) =
      (rows.map (·.toCounterResolution)).modify i CounterResolution.withdraw := by
  apply List.ext_getElem?
  intro j
  simp only [List.getElem?_map, List.getElem?_modify]
  cases rows[j]? with
  | none => rfl
  | some r => split <;> rfl

/-- `invalidate_counter_resolution`. -/
def invalidate (w : ResolutionDb) (row : Nat) : Except MemoryDb.ResolutionError ResolutionDb :=
  match h : w.world.db.invalidateCounterResolution row with
  | .ok (db, _) => .ok (w.withResolutions db (w.resolutions.modify row ResolutionRow.withdraw) (by
      rw [MemoryDb.invalidateCounterResolution_ok h, w.resolved, map_modify_withdraw]))
  | .error e => .error e

/-- The valid rows that rest on a correction. -/
def restingOn (w : ResolutionDb) (correction : Nat) : List Nat :=
  (List.range w.resolutions.length).filter fun i =>
    (w.resolutions[i]?).any fun r => r.valid ∧ r.basis = .correction correction

/-- `invalidate_resolutions_for_correction`. -/
def invalidateFor (w : ResolutionDb) (correction : Nat) :
    Except MemoryDb.ResolutionError ResolutionDb :=
  (w.restingOn correction).foldlM invalidate w

variable (host : Host) (digest : ManifestBody → String)
  (headDigest : List (ClaimId × Head) → String) (ar : AddressReader)

/-- One event; a call that raises is rolled back. -/
def resolutionStep (w : ResolutionDb) : ResolutionEvent → Option ResolutionDb
  | .system e =>
    if he : e.changesEvidence = false then
      match h : w.world.systemStep host digest headDigest e with
      | some world => some (w.withWorld world (World.systemStep_keeps he h).1)
      | none => none
    else none
  | .sourceGraph tables sourceIds =>
    if h : tables.corrections = w.world.db.tables.corrections ∧
        tables.resolutions = w.world.db.tables.resolutions ∧
        tables.sources.map (·.id) = w.world.db.tables.sources.map (·.id) ∧
        tables.evidence.map (fun e => (e.id, e.claimId)) =
          w.world.db.tables.evidence.map (fun e => (e.id, e.claimId)) then
      some { w with
        world := w.world.withDb (w.world.db.applySourceGraphChange tables sourceIds).1
        sourceIds := by
          show (List.map _ (w.world.db.applySourceGraphChange tables sourceIds).1.tables.sources).Nodup
          rw [applySourceGraphChange_tables]
          exact h.2.2.1 ▸ w.sourceIds
        mirrors := by
          show (w.world.db.applySourceGraphChange tables sourceIds).1.tables.corrections = _
          rw [applySourceGraphChange_tables]
          exact h.1.trans w.mirrors
        resolved := by
          show (w.world.db.applySourceGraphChange tables sourceIds).1.tables.resolutions = _
          rw [applySourceGraphChange_tables]
          exact h.2.1.trans w.resolved }
    else none
  | .dispute members q =>
    match h : (w.disputeDb members).disputeClaim ar q with
    | .ok (db, _) => some (w.withDispute db (DisputeDb.disputeClaim_writes h))
    | .error _ => some w
  | .cancel claim reason =>
    match h : (w.disputeDb fun _ => none).cancelDispute ar claim reason with
    | .ok (db, _) => some (w.withDispute db (DisputeDb.cancelDispute_writes h))
    | .error _ => some w
  | .resolve keys evidence basis =>
    match h : w.world.db.applyCounterResolution keys evidence basis with
    | .ok (db, _) => some (w.withResolutions db (w.resolutions ++ [⟨⟨evidence, true⟩, basis⟩]) (by
        rw [(MemoryDb.applyCounterResolution_ok h).2.2, w.resolved]
        simp))
    | .error _ => some w
  | .unresolve row =>
    match w.invalidate row with
    | .ok w => some w
    | .error _ => some w
  | .unresolveFor correction =>
    match w.invalidateFor correction with
    | .ok w => some w
    | .error _ => some w

end ResolutionDb

end Noezema.Memory
