import Noezema.Memory.Apply
import Noezema.Memory.Changes
import Noezema.Memory.Lane
import Noezema.Memory.Offline
import Noezema.Memory.Worker

/-! # The memory system

Everything that writes heads and jobs, interleaved: sessions from their admission to the
final transaction, the worker, cascades, changes of the evidence, online activations and
offline rules changes. An event is a transaction at its commit. Three things take longer
than one moment and are kept in the world: a session, a final transaction that has read
the pointer, and an offline change that has read the claims.
-/

namespace Noezema.Memory

open Noezema.Lib

/-! ## Sessions -/

/-- How far a session is. Up to the end of phase 1 nothing of it is committed but its
admission. -/
inductive SessionPhase where
  | admitted
  | committing
  | prepared (revision graphRevision : Nat)
  | ended
deriving DecidableEq, Repr

/-- A session; `admission` is a live row of `session_admissions`. -/
structure WorldSession where
  pin : SnapshotId
  phase : SessionPhase
  admission : Bool
deriving DecidableEq, Repr

namespace WorldSession

/-- Its row is committed and not terminal. -/
def isVisible (s : WorldSession) : Bool :=
  match s.phase with
  | .committing | .prepared _ _ => true
  | .admitted | .ended => false

def isPrepared (s : WorldSession) : Bool :=
  match s.phase with
  | .prepared _ _ => true
  | .admitted | .committing | .ended => false

end WorldSession

/-- `_quiesce_counts` and the writer intent. -/
def sessionLoad (ss : List WorldSession) : SessionLoad where
  activeSessions := (ss.filter (·.isVisible)).length
  liveAdmissions := (ss.filter (·.admission)).length
  unresolvedAttempts := (ss.filter (·.isPrepared)).length
  commitIntent := ss.any (·.isPrepared)

/-- What the offline preconditions count. -/
def offlineLoad (ss : List WorldSession) : OfflineLoad where
  activeSessions := (ss.filter (·.isVisible)).length
  unresolvedAttempts := (ss.filter (·.isPrepared)).length
  reconcilingCommit := 0

/-! ## The world -/

/-- A final transaction past its fence: what it commits, and the pointer it has read. It
holds the `knowledge` row. -/
structure FinalizeTx where
  session : Nat
  active : SnapshotId
  ops : List ProposedClaim
  links : List EvidenceLink

structure World where
  db : MemoryDb
  statements : ClaimId → Text
  drivers : List Driver
  sessions : List WorldSession
  finalizing : Option FinalizeTx
  offline : Option OfflineRun

inductive SystemEvent where
  | lane (e : LaneEvent)
  | worker (e : WorkerEvent)
  | cascade (e : CascadeEvent)
  | sourceGraph (tables : EvidenceDb) (sourceIds : List SourceId)
  | resolve (keys : List String) (evidence : EvidenceId) (basis : MemoryDb.ResolutionBasis)
  | unresolve (row : Nat)
  | admission (now : Nat)
  /-- The admission record of a session expires. -/
  | expire (session : Nat)
  /-- Phase 1 commits. -/
  | committing (session : Nat)
  | prepare (session : Nat)
  | beginFinalize (session : Nat) (ops : List ProposedClaim) (links : List EvidenceLink)
  | finalize
  /-- A session ends without a commit. -/
  | abort (session : Nat)
  | prepareOffline (id : SnapshotId) (q : ConfigRequest)
  | verifyOffline
  | publishOffline
  | abortOffline

namespace World

def withDb (w : World) (db : MemoryDb) : World := { w with db := db }

def withSessions (w : World) (ss : List WorldSession) : World :=
  { w with sessions := ss, db := { w.db with sessions := sessionLoad ss } }

/-- A uuid that nothing names yet. -/
def isFresh (w : World) (id : SnapshotId) : Bool :=
  w.db.snapshot? id = none ∧ (w.db.claims.all fun c => w.db.know.heads c.id id = none) ∧
    w.offline.all fun run => run.candidate.id ≠ id

/-- The order in which the driver takes the steps of the lane: the cohort is frozen before
it is prepared and sealed. -/
def laneOpen (w : World) : LaneEvent → Bool
  | .request id _ => w.isFresh id
  | .prepare _ r _ _ | .verify _ r =>
    (w.db.snapshot? r.candidate).any fun c => c.cohortRevision.isSome
  | _ => true

section Steps

variable (host : Host) (digest : ManifestBody → String)
  (headDigest : List (ClaimId × Head) → String)

/-- A cascade call. -/
def cascadeCall (w : World) (e : CascadeEvent) : Option World :=
  match e with
  | .commitEdges _ | .writeHead _ _ _ | .flip _ => none
  | .readRevision _ | .readEdges _ | .startTx _ _ | .process _ _ | .dropManifests _ =>
    (cascadeStep digest ⟨w.db.cascade, w.drivers⟩ e).map fun cw =>
      { w with db := { w.db with cascade := cw.db }, drivers := cw.drivers }

/-- The session moves on. -/
def setPhase (w : World) (i : Nat) (s : WorldSession) (phase : SessionPhase) : World :=
  w.withSessions (w.sessions.set i { s with
    phase := phase, admission := s.admission && decide (phase ≠ .ended) })

/-- The statements with those of the created claims. -/
def newStatements (w : World) (pin : SnapshotId) (ops : List ProposedClaim) : ClaimId → Text :=
  fun c =>
    if c ∈ w.db.createdClaims host w.statements pin ops then
      ((ops.find? fun p => p.newId = c).map (·.op.clipped)).getD []
    else w.statements c

/-- The final transaction commits, or is rolled back. -/
def commitFinalize (w : World) (f : FinalizeTx) (s : WorldSession) : Option World :=
  -- fresh uuids
  if (f.ops.map (·.newId)).Nodup ∧ ∀ p ∈ f.ops, w.db.claim? p.newId = none then
    match w.db.commitMemory host w.statements s.pin f.active f.ops f.links with
    | .error _ => some ({ w with finalizing := none }.setPhase f.session s .ended)
    | .ok (db, res) =>
      let bumps := touchesGraph f.ops && decide (0 < res.dependenciesEvidentialAdded)
      let db := db.withKnow db.know.bumpRevision
      let db := { db with cascade := { db.cascade with
        graphRevision := if bumps then db.cascade.graphRevision + 1 else db.cascade.graphRevision } }
      some ({ w with
        db := db
        statements := w.newStatements host s.pin f.ops
        finalizing := none }.setPhase f.session s .ended)
  else none

/-- The fence of the final transaction, which then reads the pointer. -/
def beginFinalize (w : World) (i : Nat) (ops : List ProposedClaim)
    (links : List EvidenceLink) : Option World :=
  match w.finalizing, w.sessions[i]? with
  | none, some s =>
    match s.phase with
    | .prepared revision graphRevision =>
      if w.db.know.revision = revision ∧
          (touchesGraph ops → w.db.cascade.graphRevision = graphRevision) then
        some { w with finalizing := some ⟨i, w.db.effective, ops, links⟩ }
      else none
    | _ => none
  | _, _ => none

/-- A session event. -/
def sessionStep (w : World) : SystemEvent → Option World
  | .admission now =>
    if w.db.heldSlot now = none ∧ ¬ w.sessions.any (·.isVisible) then
      some (w.withSessions (w.sessions ++ [⟨w.db.effective, .admitted, true⟩]))
    else none
  | .expire i => (w.sessions[i]?).map fun s =>
      w.withSessions (w.sessions.set i { s with admission := false })
  | .committing i =>
    match w.sessions[i]? with
    | some s => if s.phase = .admitted then some (w.setPhase i s .committing) else none
    | none => none
  | .prepare i =>
    match w.sessions[i]? with
    | some s =>
      if s.phase = .committing then
        some (w.setPhase i s (.prepared w.db.know.revision w.db.cascade.graphRevision))
      else none
    | none => none
  | .abort i => (w.sessions[i]?).map fun s =>
      { w with finalizing := w.finalizing.filter fun f => f.session ≠ i }.setPhase i s .ended
  | _ => none

/-- An event of the offline change; one runs at a time, under its advisory lock. -/
def offlineStep (w : World) : SystemEvent → Option World
  | .prepareOffline id q =>
    if w.offline = none ∧ w.isFresh id then
      match w.db.prepareOffline host.parseDay host.parseTime headDigest
          (offlineLoad w.sessions) id q with
      | .ok run => some { w with offline := run }
      | .error _ => some w
    else none
  | .verifyOffline => w.offline.map fun run =>
      match MemoryDb.verifyOffline run (offlineLoad w.sessions) with
      | .ok run => { w with offline := some run }
      | .error _ => { w with offline := none }
  | .publishOffline =>
    match w.offline with
    | some run =>
      if run.verified then
        match w.db.publishOffline run with
        | .ok db => some { w with db := db, offline := none }
        | .error _ => some { w with offline := none }
      else none
    | none => none
  | .abortOffline => some { w with offline := none }
  | _ => none

/-- One event, whoever holds the `knowledge` row. -/
def freeStep (w : World) (e : SystemEvent) : Option World :=
  match e with
  | .lane e => if w.laneOpen e then (w.db.laneStep headDigest e).map w.withDb else none
  | .worker e => some (w.withDb (w.db.workerStep host.parseDay host.parseTime host.readers e))
  | .cascade e => w.cascadeCall digest e
  | .sourceGraph tables sourceIds =>
    some (w.withDb (w.db.applySourceGraphChange tables sourceIds).1)
  | .resolve keys evidence basis =>
    match w.db.applyCounterResolution keys evidence basis with
    | .ok (db, _) => some (w.withDb db)
    | .error _ => some w
  | .unresolve row =>
    match w.db.invalidateCounterResolution row with
    | .ok (db, _) => some (w.withDb db)
    | .error _ => some w
  | .admission _ | .expire _ | .committing _ | .prepare _ | .abort _ => w.sessionStep e
  | .beginFinalize i ops links => w.beginFinalize i ops links
  | .finalize => none
  | .prepareOffline _ _ | .verifyOffline | .publishOffline | .abortOffline =>
    w.offlineStep host headDigest e

/-- One event. While a final transaction holds the `knowledge` row, what moves the revision
waits. -/
def systemStep (w : World) (e : SystemEvent) : Option World :=
  match w.finalizing, e with
  | some f, .finalize => (w.sessions[f.session]?).bind (w.commitFinalize host f)
  | some _, e => (w.freeStep host digest headDigest e).filter fun w' =>
      w'.db.know.revision = w.db.know.revision
  | none, e => w.freeStep host digest headDigest e

end Steps

/-- The migrated database: no claim, the bootstrap snapshot in force, nothing running. The
registered sources are arbitrary. -/
structure Initial (w : World) : Prop where
  claims : w.db.claims = []
  heads : ∀ c s, w.db.know.heads c s = none
  jobs : w.db.know.jobs = []
  snapshots : ∃ r, w.db.snapshots = [r] ∧ r.id = w.db.effective ∧ r.state = .active ∧
    r.cohortRevision = none ∧ r.headsSha256 = none
  dependencies : w.db.cascade.dependencies = []
  manifests : w.db.cascade.manifests = []
  barriers : w.db.cascade.barriers = []
  drivers : w.drivers = []
  sessions : w.sessions = []
  finalizing : w.finalizing = none
  offline : w.offline = none

/-! ## What an event can do -/

/-- The claims an event of the evidence takes back to `pending`. -/
def requeued (w : World) : SystemEvent → List ClaimId
  | .sourceGraph tables sourceIds =>
    if sourceIds = [] then [] else tables.affectedClaims sourceIds
  | .resolve keys evidence basis =>
    match w.db.applyCounterResolution keys evidence basis with
    | .ok (_, r) => [r.claimId]
    | .error _ => []
  | .unresolve row =>
    match w.db.invalidateCounterResolution row with
    | .ok (_, r) => if r.invalidated = 0 then [] else [r.claimId]
    | .error _ => []
  | _ => []

section Changes

variable {host : Host} {digest : ManifestBody → String}
  {headDigest : List (ClaimId × Head) → String}

/-- The sessions of a world keep their pins; a new one is pinned to the effective
snapshot. -/
def PinsFrom (w : World) (ss : List WorldSession) : Prop :=
  ∀ s ∈ ss, s.pin = w.db.effective ∨ ∃ s' ∈ w.sessions, s'.pin = s.pin

/-- **All that an event can do.** -/
inductive SystemChange (host : Host) (digest : ManifestBody → String)
    (headDigest : List (ClaimId × Head) → String) (w : World) : SystemEvent → World → Prop where
  /-- A transaction that raises. -/
  | refused (e : SystemEvent) : SystemChange host digest headDigest w e w
  | lane (e : LaneEvent) (db : MemoryDb) : w.laneOpen e → w.db.laneStep headDigest e = some db →
      SystemChange host digest headDigest w (.lane e) (w.withDb db)
  | worker (e : WorkerEvent) : SystemChange host digest headDigest w (.worker e)
      (w.withDb (w.db.workerStep host.parseDay host.parseTime host.readers e))
  | cascade (e : CascadeEvent) (cw : CascadeWorld) :
      (∀ new, e ≠ .commitEdges new) → (∀ c s h, e ≠ .writeHead c s h) → (∀ s, e ≠ .flip s) →
      cascadeStep digest ⟨w.db.cascade, w.drivers⟩ e = some cw →
      SystemChange host digest headDigest w (.cascade e)
        { w with db := { w.db with cascade := cw.db }, drivers := cw.drivers }
  | requeued (e : SystemEvent) (db : MemoryDb) : MemoryDb.Requeues w.db db (w.requeued e) →
      SystemChange host digest headDigest w e (w.withDb db)
  | sessions (e : SystemEvent) (ss : List WorldSession) (fin : Option FinalizeTx) :
      w.PinsFrom ss → (∀ f, fin = some f → w.finalizing = some f) →
      SystemChange host digest headDigest w e ({ w with finalizing := fin }.withSessions ss)
  | began (e : SystemEvent) (f : FinalizeTx) : f.active = w.db.effective →
      w.finalizing = none →
      SystemChange host digest headDigest w e { w with finalizing := some f }
  | committed (f : FinalizeTx) (s : WorldSession) (w' : World) : w.finalizing = some f →
      w.sessions[f.session]? = some s → w.commitFinalize host f s = some w' →
      SystemChange host digest headDigest w .finalize w'
  | offlineRead (id : SnapshotId) (q : ConfigRequest) (run : Option OfflineRun) :
      w.isFresh id → w.offline = none →
      w.db.prepareOffline host.parseDay host.parseTime headDigest (offlineLoad w.sessions) id q =
        .ok run →
      SystemChange host digest headDigest w (.prepareOffline id q) { w with offline := run }
  | offlineVerified (run run' : OfflineRun) : w.offline = some run →
      run'.candidate = run.candidate → run'.heads = run.heads →
      SystemChange host digest headDigest w .verifyOffline { w with offline := some run' }
  | offlineDropped (e : SystemEvent) :
      SystemChange host digest headDigest w e { w with offline := none }
  | offlinePublished (run : OfflineRun) (db : MemoryDb) : w.offline = some run →
      w.db.publishOffline run = .ok db →
      SystemChange host digest headDigest w .publishOffline { w with db := db, offline := none }

theorem PinsFrom.same (w : World) : w.PinsFrom w.sessions :=
  fun s hs => .inr ⟨s, hs, rfl⟩

theorem PinsFrom.set {w : World} {i : Nat} {s s' : WorldSession} (hs : w.sessions[i]? = some s)
    (hpin : s'.pin = s.pin) : w.PinsFrom (w.sessions.set i s') := by
  intro x hx
  rcases List.mem_or_eq_of_mem_set hx with hx | rfl
  · exact .inr ⟨x, hx, rfl⟩
  · exact .inr ⟨s, List.mem_of_getElem? hs, hpin.symm⟩

theorem sessionStep_change {w w' : World} {e : SystemEvent} (h : w.sessionStep e = some w') :
    SystemChange host digest headDigest w e w' := by
  cases e with
  | admission now =>
    simp only [sessionStep] at h
    split at h
    · cases h
      refine .sessions _ _ w.finalizing ?_ fun _ hf => hf
      intro s hs
      rcases List.mem_append.mp hs with hs | hs
      · exact .inr ⟨s, hs, rfl⟩
      · rw [List.mem_singleton.mp hs]
        exact .inl rfl
    · cases h
  | expire i =>
    obtain ⟨s, hs, rfl⟩ := Option.map_eq_some_iff.mp h
    exact .sessions _ _ w.finalizing (.set hs rfl) fun _ hf => hf
  | committing i =>
    simp only [sessionStep] at h
    split at h
    · rename_i s hs
      split at h
      · cases h
        exact .sessions _ _ w.finalizing (.set hs rfl) fun _ hf => hf
      · cases h
    · cases h
  | prepare i =>
    simp only [sessionStep] at h
    split at h
    · rename_i s hs
      split at h
      · cases h
        exact .sessions _ _ w.finalizing (.set hs rfl) fun _ hf => hf
      · cases h
    · cases h
  | abort i =>
    obtain ⟨s, hs, rfl⟩ := Option.map_eq_some_iff.mp h
    refine .sessions _ _ _ (.set hs rfl) ?_
    intro f hf
    exact Option.eq_some_of_filter_eq_some hf
  | _ => cases h

theorem beginFinalize_change {w w' : World} {i : Nat} {ops : List ProposedClaim}
    {links : List EvidenceLink} (h : w.beginFinalize i ops links = some w') :
    SystemChange host digest headDigest w (.beginFinalize i ops links) w' := by
  unfold beginFinalize at h
  split at h
  · rename_i s hnone hs
    split at h
    · split at h
      · cases h
        exact .began _ _ rfl hnone
      · cases h
    · cases h
  · cases h

theorem offlineStep_change {w w' : World} {e : SystemEvent}
    (h : w.offlineStep host headDigest e = some w') :
    SystemChange host digest headDigest w e w' := by
  cases e with
  | prepareOffline id q =>
    simp only [offlineStep] at h
    split at h
    · rename_i hopen
      split at h
      · rename_i run hrun
        cases h
        exact .offlineRead id q run hopen.2 hopen.1 hrun
      · cases h
        exact .refused _
    · cases h
  | verifyOffline =>
    obtain ⟨run, hrun, hw⟩ := Option.map_eq_some_iff.mp h
    rw [← hw]
    split
    · rename_i run' hverify
      unfold MemoryDb.verifyOffline at hverify
      obtain ⟨-, -, hverify⟩ := bind_eq_ok.mp hverify
      cases hverify
      exact .offlineVerified run _ hrun rfl rfl
    · exact .offlineDropped _
  | publishOffline =>
    simp only [offlineStep] at h
    split at h
    · rename_i run hrun
      split at h
      · split at h
        · rename_i db hpublish
          cases h
          exact .offlinePublished run db hrun hpublish
        · cases h
          exact .offlineDropped _
      · cases h
    · cases h
  | abortOffline =>
    cases h
    exact .offlineDropped _
  | _ => cases h

theorem cascadeCall_change {w w' : World} {e : CascadeEvent}
    (h : w.cascadeCall digest e = some w') :
    SystemChange host digest headDigest w (.cascade e) w' := by
  unfold cascadeCall at h
  split at h
  · cases h
  · cases h
  · cases h
  all_goals
    obtain ⟨cw, hcw, rfl⟩ := Option.map_eq_some_iff.mp h
    exact .cascade _ cw (by simp) (by simp) (by simp) hcw

theorem freeStep_change {w w' : World} {e : SystemEvent}
    (h : w.freeStep host digest headDigest e = some w') :
    SystemChange host digest headDigest w e w' := by
  cases e with
  | lane e =>
    simp only [freeStep] at h
    split at h
    · rename_i hopen
      obtain ⟨db, hdb, rfl⟩ := Option.map_eq_some_iff.mp h
      exact .lane e db hopen hdb
    · cases h
  | worker e =>
    cases h
    exact .worker e
  | cascade e => exact cascadeCall_change h
  | sourceGraph tables sourceIds =>
    cases h
    exact .requeued _ _ (MemoryDb.applySourceGraphChange_requeues w.db tables sourceIds)
  | resolve keys evidence basis =>
    simp only [freeStep] at h
    split at h
    · rename_i db r hok
      cases h
      refine .requeued _ _ ?_
      rw [requeued, hok]
      exact MemoryDb.applyCounterResolution_requeues hok
    · cases h
      exact .refused _
  | unresolve row =>
    simp only [freeStep] at h
    split at h
    · rename_i db r hok
      cases h
      refine .requeued _ _ ?_
      rw [requeued, hok]
      exact MemoryDb.invalidateCounterResolution_requeues hok
    · cases h
      exact .refused _
  | admission now => exact sessionStep_change h
  | expire i => exact sessionStep_change h
  | committing i => exact sessionStep_change h
  | prepare i => exact sessionStep_change h
  | abort i => exact sessionStep_change h
  | beginFinalize i ops links => exact beginFinalize_change h
  | finalize => cases h
  | prepareOffline id q => exact offlineStep_change h
  | verifyOffline => exact offlineStep_change h
  | publishOffline => exact offlineStep_change h
  | abortOffline => exact offlineStep_change h

/-- The database after a final transaction whose memory part leaves `db`: the revision
bump, and that of the graph. -/
def committedDb (db : MemoryDb) (graphRevision : Nat) : MemoryDb :=
  { db.withKnow db.know.bumpRevision with
    cascade := { db.cascade with know := db.know.bumpRevision, graphRevision := graphRevision } }

/-- **The end of a final transaction**: it is rolled back and ends its session, or the
memory part and the bumps commit. -/
theorem commitFinalize_cases {w w' : World} {f : FinalizeTx} {s : WorldSession}
    (h : w.commitFinalize host f s = some w') :
    ((f.ops.map (·.newId)).Nodup ∧ ∀ p ∈ f.ops, w.db.claim? p.newId = none) ∧
    ((w' = { w with finalizing := none }.setPhase f.session s .ended) ∨
    ∃ db res, w.db.commitMemory host w.statements s.pin f.active f.ops f.links =
        .ok (db, res) ∧
      w' = { w with
        db := committedDb db (if touchesGraph f.ops ∧ 0 < res.dependenciesEvidentialAdded then
          db.cascade.graphRevision + 1 else db.cascade.graphRevision)
        statements := w.newStatements host s.pin f.ops
        finalizing := none }.setPhase f.session s .ended) := by
  unfold commitFinalize at h
  split at h
  · rename_i hfresh
    refine ⟨hfresh, ?_⟩
    split at h
    · cases h
      exact .inl rfl
    · rename_i db res hok
      cases h
      refine .inr ⟨db, res, hok, ?_⟩
      simp only [committedDb, Bool.and_eq_true, decide_eq_true_eq]
      rfl
  · cases h

/-- **The inversion lemma of the system.** -/
theorem systemStep_change {w w' : World} {e : SystemEvent}
    (h : w.systemStep host digest headDigest e = some w') :
    SystemChange host digest headDigest w e w' := by
  unfold systemStep at h
  split at h
  · rename_i f hf
    obtain ⟨s, hs, hcommit⟩ := Option.bind_eq_some_iff.mp h
    exact .committed f s w' hf hs hcommit
  · exact freeStep_change (Option.eq_some_of_filter_eq_some h)
  · exact freeStep_change h

end Changes

end World

end Noezema.Memory
