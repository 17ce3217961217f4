import Noezema.Lib.Run
import Noezema.Memory.Dependencies
import Noezema.Memory.Queue
import Noezema.Memory.Closure

/-! # Invalidation cascades and barriers

`start_cascade` invalidates a root and its reverse closure: a small closure in
the start transaction, a large one through a durable barrier whose cursor
`process_barrier` moves one batch at a time. The graph, the heads and the
effective snapshot may change between any two transactions; the results are that
a barrier resolves only over a closure without a current head, and that the
inline mode leaves none.
-/

namespace Noezema.Memory

open Noezema.Lib

abbrev BarrierId := Nat

/-- `INLINE_CLOSURE_LIMIT` and `BATCH_SIZE`. -/
def inlineClosureLimit : Nat := 32
def batchSize : Nat := 32

/-! ## Rows -/

/-- The fields of a closure manifest that its hash covers. -/
structure ManifestBody where
  root : ClaimId
  graphRevision : Nat
  claimIds : List ClaimId
  ranks : List (ClaimId × Nat)
  count : Nat
deriving DecidableEq, Repr

/-- A row of `closure_manifests`; the id is derived from the hash. -/
structure ClosureManifest where
  id : String
  body : ManifestBody
  sha256 : String
deriving DecidableEq, Repr

inductive BarrierStatus where
  | discovering | active | closing | resolved | blocked
deriving DecidableEq, Repr

/-- A row of `dependency_invalidation_barriers`. -/
structure Barrier where
  id : BarrierId
  rootClaimId : ClaimId
  graphRevision : Nat
  generation : Nat
  status : BarrierStatus
  closureManifestId : Option String
  memberCount : Nat
  nextOffset : Nat
  lastError : Option String
  resolvedAt : Option Nat
deriving DecidableEq, Repr

/-- The CHECK constraints of a barrier row. -/
structure Barrier.RowOk (b : Barrier) : Prop where
  manifest : b.closureManifestId = none ↔ b.status = .discovering
  resolved : b.resolvedAt = none ↔ b.status ≠ .resolved
  generation : 1 ≤ b.generation

instance (b : Barrier) : Decidable b.RowOk :=
  decidable_of_iff ((b.closureManifestId = none ↔ b.status = .discovering) ∧
      (b.resolvedAt = none ↔ b.status ≠ .resolved) ∧ 1 ≤ b.generation)
    ⟨fun h => ⟨h.1, h.2.1, h.2.2⟩, fun h => ⟨h.manifest, h.resolved, h.generation⟩⟩

/-- What the cascade transactions read and write. -/
structure CascadeDb where
  know : Knowledge
  effective : SnapshotId
  dependencies : List ClaimDependency
  graphRevision : Nat
  manifests : List ClosureManifest
  barriers : List Barrier

/-- Why a cascade transaction rolls back. -/
inductive CascadeError where
  | graphMoved (before now : Nat)
  | notFound (barrier : BarrierId)
  | barrierBlocked (barrier : BarrierId) (lastError : Option String)
  | assertion
  | integrity
deriving DecidableEq, Repr

namespace CascadeDb

def edges (db : CascadeDb) : List (ClaimId × ClaimId) :=
  evidentialEdges db.dependencies

/-- `_load_closure`, inside one transaction. -/
def loadClosure (db : CascadeDb) (root : ClaimId) : ClosureResult :=
  computeReverseClosure db.edges root db.graphRevision

def barrier? (db : CascadeDb) (id : BarrierId) : Option Barrier :=
  db.barriers.find? fun b => b.id = id

/-- The row passes the table's constraints: CHECK and UNIQUE (root, generation). -/
def accepts (db : CascadeDb) (b : Barrier) : Prop :=
  b.RowOk ∧ ∀ b' ∈ db.barriers, b'.id ≠ b.id →
    ¬ (b'.rootClaimId = b.rootClaimId ∧ b'.generation = b.generation)

instance (db : CascadeDb) (b : Barrier) : Decidable (db.accepts b) :=
  inferInstanceAs (Decidable (b.RowOk ∧ ∀ b' ∈ db.barriers, b'.id ≠ b.id →
    ¬ (b'.rootClaimId = b.rootClaimId ∧ b'.generation = b.generation)))

/-- Write the barrier row, or fail on a constraint. -/
def saveBarrier (db : CascadeDb) (b : Barrier) : Except CascadeError CascadeDb :=
  if db.accepts b then
    .ok { db with barriers := db.barriers.map fun b' => if b'.id = b.id then b else b' }
  else .error .integrity

/-- No claim of the root's reverse closure is current under the effective
snapshot. -/
def Settled (db : CascadeDb) (root : ClaimId) : Prop :=
  ∀ v, InClosure db.edges root v → db.know.heads.state v db.effective ≠ some .current

/-- `_live_current_descendants`. -/
def liveCurrentDescendants (db : CascadeDb) (root : ClaimId) : List ClaimId :=
  (db.loadClosure root).claimIds.filter fun c =>
    db.know.heads.state c db.effective = some .current

/-- **The final scan is exact.** -/
theorem liveCurrentDescendants_eq_nil {db : CascadeDb} {root : ClaimId} :
    db.liveCurrentDescendants root = [] ↔ db.Settled root := by
  unfold liveCurrentDescendants Settled loadClosure
  rw [List.filter_eq_nil_iff]
  constructor
  · intro h v hv
    simpa using h v (mem_computeReverseClosure.mpr hv)
  · intro h v hv
    simpa using h v (mem_computeReverseClosure.mp hv)

end CascadeDb

/-! ## `start_cascade` -/

inductive CascadeMode where
  | inline | barrier
deriving DecidableEq, Repr

structure CascadeStartResult where
  root : ClaimId
  manifestSha256 : String
  closureCount : Nat
  mode : CascadeMode
  barrierId : Option BarrierId
  invalidated : Nat
  jobsCreated : Nat
  graphRevision : Nat
  knowledgeRevision : Option Nat

section Transactions

variable (digest : ManifestBody → String)

/-- `_manifest_for`. -/
def manifestFor (c : ClosureResult) : ClosureManifest :=
  let body := ⟨c.root, c.graphRevision, c.claimIds, c.ranks, c.count⟩
  ⟨digest body, body, digest body⟩

/-- `_get_or_create_manifest`: dedup by content. -/
def getOrCreateManifest (db : CascadeDb) (c : ClosureResult) :
    CascadeDb × ClosureManifest :=
  let row := manifestFor digest c
  match db.manifests.find? fun m => m.id = row.id with
  | some m => (db, m)
  | none => ({ db with manifests := db.manifests ++ [row] }, row)

/-- `_verify_manifest`. -/
def verifyManifest (m : ClosureManifest) : Option String :=
  if digest m.body = m.sha256 then none else some "manifest_hash_mismatch"

/-- `_bump_knowledge_revision`, when a batch invalidated something. -/
def bumpIf (k : Knowledge) (invalidated : Nat) : Knowledge :=
  if invalidated > 0 then k.bumpRevision else k

/-- The root's batch, then the members' batch, then the revision bump. -/
def invalidateFrom (db : CascadeDb) (root : ClaimId) (members : List ClaimId)
    (reason : String) : Knowledge × Nat × Nat :=
  let (know, inv, jobs) :=
    Knowledge.invalidateBatch db.effective ("root: " ++ reason) [root] db.know
  let (know, inv', jobs') := Knowledge.invalidateBatch db.effective reason members know
  (bumpIf know (inv + inv'), inv + inv', jobs + jobs')

/-- The barrier row of a large closure, as it is after its first batch. -/
def firstBarrier (db : CascadeDb) (closure : ClosureResult) (manifestId : String) :
    Barrier :=
  let first := closure.batch 0 batchSize
  { id := db.barriers.length
    rootClaimId := closure.root
    graphRevision := closure.graphRevision
    generation := 1
    status := if first.length < closure.count then .active else .closing
    closureManifestId := some manifestId
    memberCount := closure.count
    nextOffset := first.length
    lastError := none
    resolvedAt := none }

def startResult (closure : ClosureResult) (mode : CascadeMode)
    (barrierId : Option BarrierId) (know : Knowledge) (inv jobs : Nat) :
    CascadeStartResult :=
  { root := closure.root
    manifestSha256 := (manifestFor digest closure).sha256
    closureCount := closure.count
    mode := mode
    barrierId := barrierId
    invalidated := inv
    jobsCreated := jobs
    graphRevision := closure.graphRevision
    knowledgeRevision := if inv > 0 then some know.revision else none }

/-- The write transaction of `start_cascade`, over a closure that was computed
before it. -/
def startCascade (db : CascadeDb) (closure : ClosureResult) (reason : String) :
    Except CascadeError (CascadeDb × CascadeStartResult) :=
  if db.graphRevision ≠ closure.graphRevision then
    .error (.graphMoved closure.graphRevision db.graphRevision)
  else
    let (db, manifest) := getOrCreateManifest digest db closure
    if closure.count ≤ inlineClosureLimit then
      let (know, inv, jobs) := invalidateFrom db closure.root closure.claimIds reason
      .ok ({ db with know := know }, startResult digest closure .inline none know inv jobs)
    else
      let b := firstBarrier db closure manifest.id
      let (know, inv, jobs) :=
        invalidateFrom db closure.root (closure.batch 0 batchSize) reason
      if db.accepts b then
        .ok ({ db with know := know, barriers := db.barriers ++ [b] },
          startResult digest closure .barrier (some b.id) know inv jobs)
      else .error .integrity

/-! ## `process_barrier` -/

/-- A new generation from the fresh closure: the row moves to `generation + 1` with
cursor 0. -/
def regenerate (db : CascadeDb) (b : Barrier) : CascadeDb × Barrier :=
  let closure := db.loadClosure b.rootClaimId
  let (db, manifest) := getOrCreateManifest digest db closure
  (db, { b with
    generation := b.generation + 1
    graphRevision := closure.graphRevision
    closureManifestId := some manifest.id
    memberCount := closure.count
    nextOffset := 0
    status := if closure.count = 0 then .closing else .active
    lastError := none })

/-- A discovering barrier, and an active one whose graph moved, get a new
generation. -/
def currentGeneration (db : CascadeDb) (b : Barrier) : CascadeDb × Barrier :=
  if b.status = .discovering ∨
      (b.status = .active ∧ db.graphRevision ≠ b.graphRevision) then
    regenerate digest db b
  else (db, b)

def Barrier.block (b : Barrier) (errorClass message : String) : Barrier :=
  { b with status := .blocked, lastError := some (errorClass ++ ": " ++ message) }

/-- The `active` section: the barrier it leaves, the knowledge it writes and the
number of heads it invalidated. -/
def activeStep (db : CascadeDb) (b : Barrier) :
    Except CascadeError (Barrier × Knowledge × Nat) :=
  match b.closureManifestId.bind fun id => db.manifests.find? fun m => m.id = id with
  | none =>
    .ok (b.block "manifest_missing" "closure manifest row missing under lock", db.know, 0)
  | some m =>
    match verifyManifest digest m with
    | some problem => .ok (b.block problem "immutable manifest hash mismatch", db.know, 0)
    | none =>
      if m.body.claimIds.length ≠ m.body.count then .error .assertion
      else if b.nextOffset > m.body.count then
        .ok (b.block "impossible_cursor" ("next_offset " ++ toString b.nextOffset ++
          " > count " ++ toString m.body.count), db.know, 0)
      else
        let window := (m.body.claimIds.drop b.nextOffset).take batchSize
        let (know, inv, _) :=
          Knowledge.invalidateBatch db.effective "barrier batch" window db.know
        let next := b.nextOffset + window.length
        .ok ({ b with
          nextOffset := next
          status := if next ≥ m.body.count then .closing else b.status }, know, inv)

/-- The `closing` section: the final closure scan before `resolved`. -/
def closeStep (now : Nat) (db : CascadeDb) (b : Barrier) : Barrier :=
  if db.graphRevision ≠ b.graphRevision ∨ db.liveCurrentDescendants b.rootClaimId ≠ [] then
    { b with
      status := .discovering
      lastError :=
        if db.graphRevision = b.graphRevision then none
        else some ("graph revision moved: " ++ toString b.graphRevision ++ " -> " ++
          toString db.graphRevision) }
  else { b with status := .resolved, resolvedAt := some now }

/-- The end of the transaction: the final scan of a closing barrier, the revision
bump and the flush of the row. -/
def finishBarrier (now : Nat) (db : CascadeDb) (b : Barrier) (invalidated : Nat) :
    Except CascadeError (CascadeDb × BarrierStatus) :=
  let b := if b.status = .closing then closeStep now db b else b
  ({ db with know := bumpIf db.know invalidated }.saveBarrier b).map fun db => (db, b.status)

/-- One step of the barrier processor. -/
def processBarrier (now : Nat) (id : BarrierId) (db : CascadeDb) :
    Except CascadeError (CascadeDb × BarrierStatus) :=
  match db.barrier? id with
  | none => .error (.notFound id)
  | some b =>
    if b.status = .resolved then .ok (db, .resolved)
    else if b.status = .blocked then .error (.barrierBlocked b.id b.lastError)
    else
      let (db, b) := currentGeneration digest db b
      if b.status = .active then
        match activeStep digest db b with
        | .error e => .error e
        | .ok (b, know, invalidated) =>
          -- a block returns at once: nothing was invalidated, nothing is scanned
          if b.status = .blocked then (db.saveBarrier b).map fun db => (db, .blocked)
          else finishBarrier now { db with know := know } b invalidated
      else finishBarrier now db b 0

/-! ## The system -/

/-- How far a `start_cascade` call is: it reads the graph revision, then the
edges, then runs its write transaction. -/
inductive Driver where
  | revisionRead (root : ClaimId) (revision : Nat)
  | closureRead (closure : ClosureResult)

structure CascadeWorld where
  db : CascadeDb
  drivers : List Driver

/-- What happens between and around the cascade transactions. -/
inductive CascadeEvent where
  | readRevision (root : ClaimId)
  | readEdges (driver : Nat)
  | startTx (driver : Nat) (reason : String)
  | process (now : Nat) (barrier : BarrierId)
  /-- A session commit inserts dependencies. -/
  | commitEdges (new : List ClaimDependency)
  /-- A worker, a commit or a preparation writes a head. -/
  | writeHead (claim : ClaimId) (snapshot : SnapshotId) (head : Option Head)
  /-- An activation moves the configuration pointer. -/
  | flip (snapshot : SnapshotId)
  /-- The collector deletes manifests. -/
  | dropManifests (ids : List String)

/-- A commit bumps the graph revision iff it added an evidential edge. -/
def CascadeDb.commitEdges (db : CascadeDb) (new : List ClaimDependency) : CascadeDb :=
  let table := insertEdges db.dependencies new
  let added := (evidentialEdges table).length - (evidentialEdges db.dependencies).length
  { db with
    dependencies := table
    graphRevision := if added > 0 then db.graphRevision + 1 else db.graphRevision }

/-- One event. A transaction that raises leaves the database as it was. -/
def cascadeStep (w : CascadeWorld) : CascadeEvent → Option CascadeWorld
  | .readRevision root =>
    some { w with drivers := w.drivers ++ [.revisionRead root w.db.graphRevision] }
  | .readEdges i =>
    match w.drivers[i]? with
    | some (.revisionRead root revision) =>
      let closure := computeReverseClosure w.db.edges root revision
      some { w with drivers := w.drivers.set i (.closureRead closure) }
    | _ => none
  | .startTx i reason =>
    match w.drivers[i]? with
    | some (.closureRead closure) =>
      match startCascade digest w.db closure reason with
      | .ok (db, _) => some ⟨db, w.drivers.eraseIdx i⟩
      | .error _ => some { w with drivers := w.drivers.eraseIdx i }
    | _ => none
  | .process now id =>
    match processBarrier digest now id w.db with
    | .ok (db, _) => some { w with db := db }
    | .error _ => some w
  | .commitEdges new => some { w with db := w.db.commitEdges new }
  | .writeHead c s h =>
    some { w with db := { w.db with
      know := { w.db.know with heads := w.db.know.heads.set c s h } } }
  | .flip s => some { w with db := { w.db with effective := s } }
  | .dropManifests ids =>
    some { w with db := { w.db with
      manifests := w.db.manifests.filter fun m => m.id ∉ ids } }

end Transactions

/-! ## What the transactions keep -/

/-- The parts of the database no cascade transaction writes. -/
structure SameGraph (db db' : CascadeDb) : Prop where
  dependencies : db'.dependencies = db.dependencies
  graphRevision : db'.graphRevision = db.graphRevision
  effective : db'.effective = db.effective

theorem SameGraph.refl (db : CascadeDb) : SameGraph db db := ⟨rfl, rfl, rfl⟩

theorem SameGraph.trans {a b c : CascadeDb} (h : SameGraph a b) (k : SameGraph b c) :
    SameGraph a c where
  dependencies := k.dependencies.trans h.dependencies
  graphRevision := k.graphRevision.trans h.graphRevision
  effective := k.effective.trans h.effective

theorem SameGraph.edges {db db' : CascadeDb} (h : SameGraph db db') :
    db'.edges = db.edges := by
  rw [CascadeDb.edges, h.dependencies, CascadeDb.edges]

variable {digest : ManifestBody → String}

theorem getOrCreateManifest_same (db : CascadeDb) (c : ClosureResult) :
    SameGraph db (getOrCreateManifest digest db c).1 := by
  simp only [getOrCreateManifest]
  split <;> exact ⟨rfl, rfl, rfl⟩

theorem saveBarrier_ok {db db' : CascadeDb} {b : Barrier}
    (h : db.saveBarrier b = .ok db') : SameGraph db db' ∧ db'.know = db.know := by
  unfold CascadeDb.saveBarrier at h
  split at h
  · cases h
    exact ⟨⟨rfl, rfl, rfl⟩, rfl⟩
  · cases h

@[simp] theorem bumpIf_heads (k : Knowledge) (n : Nat) :
    (bumpIf k n).heads = k.heads := by
  unfold bumpIf
  split <;> rfl

@[simp] theorem bumpIf_jobs (k : Knowledge) (n : Nat) :
    (bumpIf k n).jobs = k.jobs := by
  unfold bumpIf
  split <;> rfl

/-! ## The inline mode -/

theorem invalidateFrom_invalidates (db : CascadeDb) (root : ClaimId)
    (members : List ClaimId) (reason : String) :
    Knowledge.Invalidates db.know (invalidateFrom db root members reason).1
      (root :: members) db.effective := by
  have hroot := Knowledge.invalidateBatch_invalidates db.effective ("root: " ++ reason)
    [root] db.know
  have hall := hroot.append
    (Knowledge.invalidateBatch_invalidates db.effective reason members _)
  exact hall.congr (bumpIf_heads _ _) (bumpIf_jobs _ _)

/-- **The write transaction.** The graph is the one the closure was computed
against; inline, the root and all its closure are invalidated together. -/
theorem startCascade_ok {db db' : CascadeDb} {closure : ClosureResult}
    {reason : String} {r : CascadeStartResult}
    (h : startCascade digest db closure reason = .ok (db', r)) :
    closure.graphRevision = db.graphRevision ∧ SameGraph db db' ∧
      (r.mode = .inline → ∀ v, v = closure.root ∨ v ∈ closure.claimIds →
        db'.know.heads.state v db'.effective ≠ some .current) := by
  unfold startCascade at h
  split at h
  · cases h
  · rename_i hrev
    have hrev' : closure.graphRevision = db.graphRevision := (not_not.mp hrev).symm
    have hsame : SameGraph db (getOrCreateManifest digest db closure).1 :=
      getOrCreateManifest_same db closure
    generalize getOrCreateManifest digest db closure = p at h hsame
    obtain ⟨db₁, manifest⟩ := p
    simp only at h hsame
    split at h
    · cases h
      refine ⟨hrev', ⟨hsame.1, hsame.2, hsame.3⟩, ?_⟩
      intro _ v hv
      have hmem : v ∈ closure.root :: closure.claimIds := List.mem_cons.mpr hv
      exact (invalidateFrom_invalidates db₁ _ _ reason).not_current hmem
    · split at h
      · cases h
        refine ⟨hrev', ⟨hsame.1, hsame.2, hsame.3⟩, ?_⟩
        intro hmode
        cases hmode
      · cases h

/-! ## The barrier -/

theorem currentGeneration_ok {db : CascadeDb} {b : Barrier} (hb : b.status ≠ .resolved) :
    SameGraph db (currentGeneration digest db b).1 ∧
      (currentGeneration digest db b).2.rootClaimId = b.rootClaimId ∧
      (currentGeneration digest db b).2.status ≠ .resolved := by
  unfold currentGeneration
  split
  · refine ⟨getOrCreateManifest_same db _, rfl, ?_⟩
    show (if _ then BarrierStatus.closing else .active) ≠ .resolved
    split <;> simp
  · exact ⟨.refl db, rfl, hb⟩

theorem activeStep_root {db : CascadeDb} {b b' : Barrier} {k : Knowledge} {n : Nat}
    (h : activeStep digest db b = .ok (b', k, n)) :
    b'.rootClaimId = b.rootClaimId := by
  unfold activeStep at h
  split at h
  · cases h
    rfl
  · split at h
    · cases h
      rfl
    · split at h
      · cases h
      · split at h <;> cases h <;> rfl

/-- The `active` section blocks, closes or keeps the status: it never resolves. -/
theorem activeStep_open {db : CascadeDb} {b b' : Barrier} {k : Knowledge} {n : Nat}
    (h : activeStep digest db b = .ok (b', k, n)) (hb : b.status ≠ .resolved) :
    b'.status ≠ .resolved := by
  unfold activeStep at h
  split at h
  · cases h
    simp [Barrier.block]
  · split at h
    · cases h
      simp [Barrier.block]
    · split at h
      · cases h
      · split at h
        · cases h
          simp [Barrier.block]
        · cases h
          show (if _ then BarrierStatus.closing else b.status) ≠ .resolved
          split
          · simp
          · exact hb

/-- The final scan lets a barrier pass to `resolved` only over a settled closure. -/
theorem closeStep_resolved {now : Nat} {db : CascadeDb} {b : Barrier}
    (h : (closeStep now db b).status = .resolved) : db.Settled b.rootClaimId := by
  unfold closeStep at h
  split at h
  · cases h
  · rename_i hok
    have hnil : db.liveCurrentDescendants b.rootClaimId = [] := by
      by_contra hne
      exact hok (.inr hne)
    exact CascadeDb.liveCurrentDescendants_eq_nil.mp hnil

theorem finishBarrier_ok {now : Nat} {db db' : CascadeDb} {b : Barrier} {n : Nat}
    {st : BarrierStatus} (hb : b.status ≠ .resolved)
    (h : finishBarrier now db b n = .ok (db', st)) :
    SameGraph db db' ∧ (st = .resolved → db'.Settled b.rootClaimId) := by
  unfold finishBarrier at h
  generalize hb' : (if b.status = .closing then closeStep now db b else b) = b' at h
  cases hs : ({ db with know := bumpIf db.know n }.saveBarrier b') with
  | error e => simp [hs, Except.map] at h
  | ok db₁ =>
    simp only [hs, Except.map, Except.ok.injEq, Prod.mk.injEq] at h
    obtain ⟨rfl, hst⟩ := h
    obtain ⟨hsame, hknow⟩ := saveBarrier_ok hs
    have hsame' : SameGraph db db₁ := ⟨hsame.1, hsame.2, hsame.3⟩
    refine ⟨hsame', ?_⟩
    intro hres
    rw [← hst, ← hb'] at hres
    split at hres
    · have hset := closeStep_resolved hres
      intro v hv
      rw [hsame'.edges] at hv
      rw [hknow, hsame'.effective, Heads.state]
      simpa [Heads.state] using hset v hv
    · exact absurd hres hb

/-- **The step lemma of the processor.** A step on an open barrier leaves the graph
and the snapshot alone, and resolves only a settled closure. -/
theorem processBarrier_open {now : Nat} {id : BarrierId} {db db' : CascadeDb}
    {b : Barrier} {st : BarrierStatus} (hb : db.barrier? id = some b)
    (hopen : b.status ≠ .resolved)
    (h : processBarrier digest now id db = .ok (db', st)) :
    SameGraph db db' ∧ (st = .resolved → db'.Settled b.rootClaimId) := by
  unfold processBarrier at h
  simp only [hb, if_neg hopen] at h
  split at h
  · cases h
  · obtain ⟨hsame, hroot, hne⟩ := @currentGeneration_ok digest db b hopen
    generalize currentGeneration digest db b = p at h hsame hroot hne
    obtain ⟨db₁, b₁⟩ := p
    simp only at h hsame hroot hne
    split at h
    · cases ha : activeStep digest db₁ b₁ with
      | error e => simp [ha] at h
      | ok q =>
        obtain ⟨b₂, k, n⟩ := q
        simp only [ha] at h
        split at h
        · cases hs : db₁.saveBarrier b₂ with
          | error e => simp [hs, Except.map] at h
          | ok db₂ =>
            simp only [hs, Except.map, Except.ok.injEq, Prod.mk.injEq] at h
            obtain ⟨rfl, rfl⟩ := h
            exact ⟨hsame.trans (saveBarrier_ok hs).1, fun hst => by cases hst⟩
        · obtain ⟨hsame₂, hset⟩ := finishBarrier_ok (activeStep_open ha hne) h
          rw [activeStep_root ha, hroot] at hset
          exact ⟨hsame.trans ⟨hsame₂.1, hsame₂.2, hsame₂.3⟩, hset⟩
    · obtain ⟨hsame₂, hset⟩ := finishBarrier_ok hne h
      rw [hroot] at hset
      exact ⟨hsame.trans hsame₂, hset⟩

theorem processBarrier_same {now : Nat} {id : BarrierId} {db db' : CascadeDb}
    {st : BarrierStatus} (h : processBarrier digest now id db = .ok (db', st)) :
    SameGraph db db' := by
  cases hb : db.barrier? id with
  | none => simp [processBarrier, hb] at h
  | some b =>
    by_cases hres : b.status = .resolved
    · simp only [processBarrier, hb, if_pos hres, Except.ok.injEq, Prod.mk.injEq] at h
      rw [← h.1]
      exact .refl db
    · exact (processBarrier_open hb hres h).1

/-! ## Runs -/

/-- A commit that leaves the revision alone leaves the evidential graph alone. -/
theorem CascadeDb.commitEdges_revision (db : CascadeDb) (new : List ClaimDependency) :
    db.graphRevision ≤ (db.commitEdges new).graphRevision ∧
      ((db.commitEdges new).graphRevision = db.graphRevision →
        (db.commitEdges new).edges = db.edges) := by
  simp only [CascadeDb.commitEdges]
  split
  · exact ⟨Nat.le_succ _, fun h => absurd h (Nat.succ_ne_self _)⟩
  · rename_i hadd
    refine ⟨Nat.le_refl _, fun _ => ?_⟩
    have hpre : evidentialEdges db.dependencies <+:
        evidentialEdges (insertEdges db.dependencies new) :=
      ((insertEdges_keeps db.dependencies new).filter _).map _
    have hlen := hpre.length_le
    exact (hpre.eq_of_length (by omega)).symm

/-- What a driver has read is not newer than the graph, and a closure of the
graph's own revision is the graph's own closure. -/
def Driver.Fresh (db : CascadeDb) : Driver → Prop
  | .revisionRead _ revision => revision ≤ db.graphRevision
  | .closureRead c => c.graphRevision ≤ db.graphRevision ∧
      (c.graphRevision = db.graphRevision → ∀ v,
        v ∈ c.claimIds ↔ InClosure db.edges c.root v)

def DriversFresh (w : CascadeWorld) : Prop := ∀ d ∈ w.drivers, d.Fresh w.db

/-- The graph may move on, but not under the same revision. -/
theorem Driver.Fresh.later {db db' : CascadeDb} {d : Driver} (h : d.Fresh db)
    (hle : db.graphRevision ≤ db'.graphRevision)
    (heq : db'.graphRevision = db.graphRevision → db'.edges = db.edges) :
    d.Fresh db' := by
  cases d with
  | revisionRead root revision => exact Nat.le_trans h hle
  | closureRead c =>
    obtain ⟨hc, hmem⟩ := h
    refine ⟨Nat.le_trans hc hle, ?_⟩
    intro hrev
    have hsame : db'.graphRevision = db.graphRevision := by omega
    rw [heq hsame]
    exact hmem (by omega)

theorem Driver.Fresh.same {db db' : CascadeDb} {d : Driver} (h : d.Fresh db)
    (hs : SameGraph db db') : d.Fresh db' :=
  h.later (by rw [hs.graphRevision]) fun _ => hs.edges

/-- The step lemma: one case for each event. -/
theorem cascadeStep_fresh {w w' : CascadeWorld} {e : CascadeEvent}
    (hw : DriversFresh w) (hstep : cascadeStep digest w e = some w') :
    DriversFresh w' := by
  cases e with
  | readRevision root =>
    cases hstep
    intro d hd
    rcases List.mem_append.mp hd with hd | hd
    · exact hw d hd
    · rw [List.mem_singleton.mp hd]
      exact Nat.le_refl _
  | readEdges i =>
    simp only [cascadeStep] at hstep
    split at hstep
    · rename_i root revision hi
      cases hstep
      have hle : revision ≤ w.db.graphRevision := hw _ (List.mem_of_getElem? hi)
      intro d hd
      rcases List.mem_or_eq_of_mem_set hd with hd | rfl
      · exact hw d hd
      · exact ⟨hle, fun _ v => mem_computeReverseClosure⟩
    · cases hstep
  | startTx i reason =>
    simp only [cascadeStep] at hstep
    split at hstep
    · rename_i closure hi
      split at hstep
      · rename_i db r hs
        cases hstep
        intro d hd
        exact (hw d (List.mem_of_mem_eraseIdx hd)).same (startCascade_ok hs).2.1
      · cases hstep
        intro d hd
        exact hw d (List.mem_of_mem_eraseIdx hd)
    · cases hstep
  | process now id =>
    simp only [cascadeStep] at hstep
    split at hstep
    · rename_i db st hp
      cases hstep
      intro d hd
      exact (hw d hd).same (processBarrier_same hp)
    · cases hstep
      exact hw
  | commitEdges new =>
    cases hstep
    intro d hd
    have hrev := CascadeDb.commitEdges_revision w.db new
    exact (hw d hd).later hrev.1 hrev.2
  | writeHead c s h =>
    cases hstep
    intro d hd
    exact (hw d hd).same ⟨rfl, rfl, rfl⟩
  | flip s =>
    cases hstep
    intro d hd
    exact (hw d hd).later (Nat.le_refl _) fun _ => rfl
  | dropManifests ids =>
    cases hstep
    intro d hd
    exact (hw d hd).same ⟨rfl, rfl, rfl⟩

/-- **Barrier safety.** In every state a run reaches, `process_barrier` moves a
barrier to `resolved` only when the reverse closure of its root, in the edges of
that transaction, has no current head under that transaction's snapshot; and a
cascade that ends in the inline mode leaves the root and the whole reverse
closure without one. -/
theorem barrier_safety {w₀ w : CascadeWorld} (h₀ : w₀.drivers = [])
    (hrun : Run (cascadeStep digest) anyStep w₀ w) :
    (∀ now id b db', w.db.barrier? id = some b → b.status ≠ .resolved →
      processBarrier digest now id w.db = .ok (db', .resolved) →
        db'.Settled b.rootClaimId) ∧
    (∀ (i : Nat) closure reason db' r, w.drivers[i]? = some (.closureRead closure) →
      startCascade digest w.db closure reason = .ok (db', r) → r.mode = .inline →
        db'.Settled closure.root ∧
          db'.know.heads.state closure.root db'.effective ≠ some .current) := by
  have hfresh : DriversFresh w := by
    refine hrun.invariant ?_ fun hI _ hs => cascadeStep_fresh hI hs
    intro d hd
    rw [h₀] at hd
    cases hd
  constructor
  · intro now id b db' hb hopen hp
    exact (processBarrier_open hb hopen hp).2 rfl
  · intro i closure reason db' r hi hs hmode
    obtain ⟨hrev, hsame, hnone⟩ := startCascade_ok hs
    have hmem := (hfresh _ (List.mem_of_getElem? hi)).2 hrev
    refine ⟨?_, hnone hmode closure.root (.inl rfl)⟩
    intro v hv
    rw [hsame.edges] at hv
    exact hnone hmode v (.inr ((hmem v).mpr hv))

/-- Claim `2` depends on claim `1` and claim `4` on claim `3`; the barrier of claim `1` has
not taken claim `2` back yet. -/
def chainWorld : CascadeWorld where
  db :=
    { know :=
        { heads := fun c s => if s ≠ 0 then none
            else if c = 1 then some .pending
            else if c ∈ [2, 3, 4] then some (.current c .supported) else none
          jobs := []
          questions := []
          revision := 0 }
      effective := 0
      dependencies := [⟨2, 1, .evidential⟩, ⟨4, 3, .evidential⟩]
      graphRevision := 1
      manifests := [⟨"m", ⟨1, 1, [2], [(2, 1)], 1⟩, "m"⟩]
      barriers := [⟨0, 1, 1, 1, .active, some "m", 1, 0, none, none⟩] }
  drivers := []

/-- The same with a cascade from claim `3` about to start its transaction. -/
def chainRead : CascadeWorld where
  db := chainWorld.db
  drivers := [.closureRead ⟨3, 1, [4], [(4, 1)]⟩]

/-- The barrier takes claim `2` back before it is resolved, and the cascade takes claim `4`. -/
theorem barrier_safety_chain :
    exec (cascadeStep fun _ => "m") chainWorld [.readRevision 3, .readEdges 0] =
        some chainRead ∧
      (∃ db, processBarrier (fun _ => "m") 9 0 chainRead.db = .ok (db, .resolved) ∧
        chainRead.db.know.heads.state 2 0 = some .current ∧ db.Settled 1) ∧
      (∃ db r, startCascade (fun _ => "m") chainRead.db ⟨3, 1, [4], [(4, 1)]⟩ "dispute" =
        .ok (db, r) ∧ r.mode = .inline ∧ db.Settled 3) := by
  have hread : exec (cascadeStep fun _ => "m") chainWorld
      [.readRevision 3, .readEdges 0] = some chainRead := rfl
  have hsafe := @barrier_safety (fun _ => "m") chainWorld chainRead rfl
    (Run.of_exec _ hread)
  refine ⟨hread, ⟨_, rfl, rfl, ?_⟩, ⟨_, _, rfl, rfl, ?_⟩⟩
  · exact hsafe.1 9 0 ⟨0, 1, 1, 1, .active, some "m", 1, 0, none, none⟩ _ rfl
      (by decide) rfl
  · exact (hsafe.2 0 _ "dispute" _ _ rfl rfl rfl).1

end Noezema.Memory
