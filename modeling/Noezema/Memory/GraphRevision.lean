import Noezema.Memory.ActingDependencies
import Noezema.Memory.Resolutions

/-! # The revisions of a commit

A final transaction moves the `knowledge` revision, and the `dependency_graph` revision
when it stores an evidential edge. Whether it may is decided before it applies anything, by
a predicate over the staged payloads; the edges are stored later, after the checks, the
cycle search and the deduplication. That the two decisions agree is what makes the revision
of the graph stand for the graph.
-/

namespace Noezema.Memory

open Noezema.Lib

/-! ## The two readings of a staged dependency -/

/-- What stands under the key `kind` of a staged dependency. -/
inductive KindPayload where
  | absent
  | null
  | text (s : String)
  /-- A number, a boolean, an array or an object. -/
  | other
deriving DecidableEq, Repr

/-- An element of the staged array `dependencies`. -/
inductive DependencyPayload where
  | notDict
  | dict (kind : KindPayload) (claimId : Option String)
deriving DecidableEq, Repr

/-- `COALESCE(d->>'kind', 'evidential')`; no text of an `other` value is a kind. -/
def KindPayload.coalesced : KindPayload → String
  | .absent | .null => "evidential"
  | .text s => s
  | .other => ""

/-- `d.get("kind")` as `str` prints it. -/
def KindPayload.read : KindPayload → Option String
  | .absent => none
  | .null => some "None"
  | .text s => some s
  | .other => some ""

/-- The element as the dependency section reads it. -/
def DependencyPayload.raw : DependencyPayload → RawDependency
  | .notDict => .notDict
  | .dict kind claimId => .dict kind.read claimId

/-- The element as the predicate reads it. -/
def DependencyPayload.isEvidential : DependencyPayload → Bool
  | .notDict => true
  | .dict kind _ => kind.coalesced = "evidential"

/-- `touches_dependency_graph`, over the arrays of the staged operations. -/
def touchesDependencyGraph (payloads : List (List DependencyPayload)) : Bool :=
  payloads.any fun ds => ds.any (·.isEvidential)

/-- The predicate sees what the section reads as evidential. -/
theorem DependencyPayload.isEvidential_of_raw {d : DependencyPayload}
    (h : dependencyKind d.raw = "evidential") : d.isEvidential := by
  cases d with
  | notDict => rfl
  | dict kind claimId =>
    cases kind with
    | absent => rfl
    | null => rfl
    | text s => exact decide_eq_true h
    | other =>
      have hempty : "" = "evidential" := h
      exact absurd hempty (by decide)

theorem touchesDependencyGraph_of_raw {payloads : List (List DependencyPayload)}
    {ops : List ProposedClaim}
    (hops : ops.map (·.dependencies) = payloads.map fun ds => ds.map (·.raw))
    (h : touchesGraph ops) : touchesDependencyGraph payloads := by
  obtain ⟨p, hp, hany⟩ := List.any_eq_true.mp h
  obtain ⟨raw, hraw, hkind⟩ := List.any_eq_true.mp hany
  have hmem : p.dependencies ∈ payloads.map fun ds => ds.map (·.raw) :=
    hops ▸ List.mem_map_of_mem hp
  obtain ⟨ds, hds, heq⟩ := List.mem_map.mp hmem
  rw [← heq] at hraw
  obtain ⟨d, hd, rfl⟩ := List.mem_map.mp hraw
  exact List.any_eq_true.mpr ⟨ds, hds, List.any_eq_true.mpr
    ⟨d, hd, DependencyPayload.isEvidential_of_raw (of_decide_eq_true hkind)⟩⟩

/-! ## The counter and the edges -/

theorem insertEdges_grows {table ds : List ClaimDependency}
    (h : (evidentialEdges table).length < (evidentialEdges (insertEdges table ds)).length) :
    ∃ e ∈ evidentialEdges (insertEdges table ds), e ∉ evidentialEdges table := by
  by_contra hall
  have hkept : ∀ d ∈ ds, d.kind = .evidential → d ∈ table := by
    intro d hd hkind
    by_contra hnew
    refine hall ⟨(d.fromClaimId, d.toClaimId), ?_, fun hold => hnew ?_⟩
    · rw [mem_evidentialEdges, ← hkind]
      exact mem_insertEdges.mpr (.inr hd)
    · rw [mem_evidentialEdges, ← hkind] at hold
      exact hold
  have hsame : ∀ {table ds : List ClaimDependency},
      (∀ d ∈ ds, d.kind = .evidential → d ∈ table) →
        evidentialEdges (insertEdges table ds) = evidentialEdges table := by
    intro table ds hkept
    induction ds generalizing table with
    | nil => rfl
    | cons d ds ih =>
      have hd := hkept d List.mem_cons_self
      simp only [insertEdges]
      split
      · exact ih fun x hx => hkept x (List.mem_cons_of_mem d hx)
      · rename_i hnew
        have hkind : d.kind ≠ .evidential := fun hkind => hnew (hd hkind)
        rw [ih fun x hx he => List.mem_append_left _ (hkept x (List.mem_cons_of_mem d hx) he)]
        simp [evidentialEdges, hkind]
  rw [hsame hkept] at h
  exact lt_irrefl _ h

/-- **The counter and the edges**: it is positive exactly when an edge is stored that was
not. -/
theorem applyDependencies_evidential_pos {parseUuid : String → Option ClaimId} {db : DepStore}
    {snapshot : SnapshotId} {claimDeps : List (ClaimId × List RawDependency)} :
    0 < (applyDependencies parseUuid db snapshot claimDeps).depsEvidential ↔
      ∃ e ∈ evidentialEdges (applyDependencies parseUuid db snapshot claimDeps).db.dependencies,
        e ∉ evidentialEdges db.dependencies := by
  constructor
  · intro h
    have hpos : 0 < (evidentialEdges (applyDependencies parseUuid db snapshot
        claimDeps).db.dependencies).length - (evidentialEdges db.dependencies).length := h
    exact insertEdges_grows (Nat.lt_of_sub_pos hpos)
  · rintro ⟨e, hnew, hold⟩
    by_contra hzero
    have hsame := @applyDependencies_same parseUuid db snapshot claimDeps
      (.inr (Nat.eq_zero_of_not_pos hzero))
    rw [hsame] at hnew
    exact hold hnew

namespace MemoryDb

/-- **What the counter of a commit says**: an edge was stored that was not, and the staged
operations had announced one. -/
theorem commitMemory_evidential_pos {host : Host} {db db' : MemoryDb}
    {statements : ClaimId → Text} {pin active : SnapshotId} {ops : List ProposedClaim}
    {links : List EvidenceLink} {res : MemoryApplyResult}
    (h : db.commitMemory host statements pin active ops links = .ok (db', res)) :
    0 < res.dependenciesEvidentialAdded ↔
      ∃ e ∈ db'.cascade.edges, e ∉ db.cascade.edges := by
  obtain ⟨db₁, happly, hdb⟩ := commitMemory_ok h
  have hedges : db'.cascade.edges = db₁.cascade.edges := by
    rw [hdb]
    split <;> rfl
  rw [hedges]
  rcases applyClaimStaging_ok happly with ⟨-, rfl, rfl⟩ | ⟨snapshot, -, happlied⟩
  · simp [MemoryApplyResult.empty]
  · rw [happlied.evidential, happlied.cascade]
    exact applyDependencies_evidential_pos

theorem touchesGraph_of_commitMemory {host : Host} {db db' : MemoryDb}
    {statements : ClaimId → Text} {pin active : SnapshotId} {ops : List ProposedClaim}
    {links : List EvidenceLink} {res : MemoryApplyResult}
    (h : db.commitMemory host statements pin active ops links = .ok (db', res))
    (hpos : 0 < res.dependenciesEvidentialAdded) : touchesGraph ops := by
  by_contra hno
  obtain ⟨e, hnew, hold⟩ := (commitMemory_evidential_pos h).mp hpos
  have hsame := (commitMemory_edges h).same fun hbumps => hno hbumps.1
  rw [hsame] at hnew
  exact hold hnew

end MemoryDb

namespace World

variable {host : Host} {digest : ManifestBody → String}
  {headDigest : List (ClaimId × Head) → String}

/-! ## One step -/

/-- The stored evidential edges. -/
def edgeSet (w : World) : Set (ClaimId × ClaimId) := {e | e ∈ w.db.cascade.edges}

/-- The graph and its revision stay. -/
def KeepsGraph (w w' : World) : Prop :=
  w'.db.cascade.edges = w.db.cascade.edges ∧
    w'.db.cascade.graphRevision = w.db.cascade.graphRevision

theorem KeepsGraph.of_know {w w' : World} {k : Knowledge}
    (h : w'.db.cascade = { w.db.cascade with know := k }) : KeepsGraph w w' := by
  unfold KeepsGraph CascadeDb.edges
  rw [h]
  exact ⟨rfl, rfl⟩

theorem publishOffline_graph {w : World} {run : OfflineRun} {db : MemoryDb}
    (h : w.db.publishOffline run = .ok db) :
    KeepsGraph w { w with db := db, offline := none } := by
  have hdependencies := publishOffline_dependencies h
  obtain ⟨u, -, h⟩ := bind_eq_ok.mp h
  cases h
  refine ⟨congrArg evidentialEdges hdependencies, ?_⟩
  have hshadows := MemoryDb.writeShadows_shadows w.db run.candidate.id run.heads
  have hput : ∀ (x : MemoryDb) (row : ConfigSnapshot),
      (x.putSnapshot row).cascade.graphRevision = x.cascade.graphRevision := by
    intro x row
    unfold MemoryDb.putSnapshot
    split <;> rfl
  show ((w.db.writeShadows run.candidate.id run.heads).putSnapshot _).cascade.graphRevision = _
  rw [hput, hshadows.cascade]

theorem LaneChange.graph {w : World} {e : LaneEvent} {db : MemoryDb}
    (h : MemoryDb.LaneChange w.db e db) : KeepsGraph w (w.withDb db) := by
  refine ⟨congrArg evidentialEdges h.dependencies, ?_⟩
  show db.cascade.graphRevision = _
  cases h with
  | flipped now c hrow hst hready =>
    unfold MemoryDb.moveFlip MemoryDb.supersedeBase
    split
    · split <;> rfl
    · rfl
  | _ => rfl

/-- **Only a final transaction that commits** writes the graph. -/
theorem systemStep_graph {w w' : World} {e : SystemEvent}
    (h : w.systemStep host digest headDigest e = some w') :
    KeepsGraph w w' ∨ ∃ f s db res, e = .finalize ∧ w.finalizing = some f ∧
      w.sessions[f.session]? = some s ∧
      w.db.commitMemory host w.statements s.pin f.active f.ops f.links = .ok (db, res) ∧
      w'.db.know.revision = w.db.know.revision + 1 ∧
      w'.db.cascade.edges = db.cascade.edges ∧
      w'.db.cascade.graphRevision =
        if touchesGraph f.ops ∧ 0 < res.dependenciesEvidentialAdded then
          w.db.cascade.graphRevision + 1 else w.db.cascade.graphRevision := by
  cases systemStep_change h with
  | refused => exact .inl ⟨rfl, rfl⟩
  | lane e db hopen hlane => exact .inl (LaneChange.graph (MemoryDb.laneStep_change hlane))
  | worker e => exact .inl (.of_know (MemoryDb.workerStep_onlyKnow w.db e))
  | cascade e cw hedges hhead hflip hcall =>
    have hsame := (cascadeStep_change hedges hhead hflip hcall).invalidates.1
    exact .inl ⟨hsame.edges, hsame.graphRevision⟩
  | requeued e db hreq => exact .inl (.of_know hreq.cascade)
  | sessions e ss fin hpins hfin => exact .inl ⟨rfl, rfl⟩
  | began e f hactive hnone => exact .inl ⟨rfl, rfl⟩
  | committed f s w' hf hs hcommit =>
    obtain ⟨-, rfl | ⟨db, res, hok, rfl⟩⟩ := commitFinalize_cases hcommit
    · exact .inl ⟨rfl, rfl⟩
    · obtain ⟨created, hcommits, -⟩ := MemoryDb.commitMemory_commits hok
      refine .inr ⟨f, s, db, res, rfl, hf, hs, hok, ?_, rfl, ?_⟩
      · show db.know.revision + 1 = _
        rw [hcommits.revision]
      · show ite _ _ _ = _
        rw [hcommits.graphRevision]
  | offlineRead id q run hfresh hnone hread => exact .inl ⟨rfl, rfl⟩
  | offlineVerified run run' hrun hcandidate hheads => exact .inl ⟨rfl, rfl⟩
  | offlineDropped e => exact .inl ⟨rfl, rfl⟩
  | offlinePublished run db hrun hpublish => exact .inl (publishOffline_graph hpublish)

/-- The revision of the graph is moved exactly with the edges. -/
theorem commit_graph {w w' : World} {f : FinalizeTx} {s : WorldSession} {db : MemoryDb}
    {res : MemoryApplyResult}
    (hok : w.db.commitMemory host w.statements s.pin f.active f.ops f.links = .ok (db, res))
    (hedges : w'.db.cascade.edges = db.cascade.edges)
    (hrev : w'.db.cascade.graphRevision =
      if touchesGraph f.ops ∧ 0 < res.dependenciesEvidentialAdded then
        w.db.cascade.graphRevision + 1 else w.db.cascade.graphRevision) :
    (w'.db.cascade.graphRevision = w.db.cascade.graphRevision + 1 ∧ w'.edgeSet ≠ w.edgeSet) ∨
      (w'.db.cascade.graphRevision = w.db.cascade.graphRevision ∧ w'.edgeSet = w.edgeSet) := by
  unfold edgeSet
  rw [hrev, hedges]
  split
  · rename_i hbumps
    obtain ⟨e, hnew, hold⟩ := (MemoryDb.commitMemory_evidential_pos hok).mp hbumps.2
    refine .inl ⟨rfl, fun heq => hold ?_⟩
    exact (Set.ext_iff.mp heq e).mp hnew
  · rename_i hbumps
    rw [(MemoryDb.commitMemory_edges hok).same hbumps]
    exact .inr ⟨rfl, rfl⟩

/-! ## Runs -/

/-- The revision of the graph never falls, and while it stays the edges stay. -/
theorem run_graph {w w' : World}
    (hrun : Run (systemStep host digest headDigest) anyStep w w') :
    w.db.cascade.graphRevision ≤ w'.db.cascade.graphRevision ∧
      (w'.db.cascade.graphRevision = w.db.cascade.graphRevision → w'.edgeSet = w.edgeSet) := by
  induction hrun with
  | nil => exact ⟨le_rfl, fun _ => rfl⟩
  | @snoc u v e _ _ hstep ih =>
    obtain ⟨hle, hsame⟩ := ih
    rcases systemStep_graph hstep with ⟨hedges, hrev⟩ | ⟨f, s, db, res, -, -, -, hok, -, hedges, hrev⟩
    · rw [hrev]
      refine ⟨hle, fun heq => ?_⟩
      rw [← hsame heq, edgeSet, hedges, edgeSet]
    · rcases commit_graph hok hedges hrev with ⟨hbump, -⟩ | ⟨hstay, hset⟩
      · rw [hbump]
        exact ⟨by omega, fun heq => by omega⟩
      · rw [hstay, hset]
        exact ⟨hle, hsame⟩

/-- The final transaction in flight would commit. -/
def Commits (host : Host) (w : World) (f : FinalizeTx) (res : MemoryApplyResult) : Prop :=
  w.finalizing = some f ∧ ∃ s db, w.sessions[f.session]? = some s ∧
    w.db.commitMemory host w.statements s.pin f.active f.ops f.links = .ok (db, res)

/-- **What the revisions say** in every history that begins in `w₀`. -/
structure RevisionDiscipline (host : Host) (digest : ManifestBody → String)
    (headDigest : List (ClaimId × Head) → String) (w₀ : World) : Prop where
  /-- A commit moves the revision of the knowledge by one. -/
  knowledge : ∀ w w' f res, Run (systemStep host digest headDigest) anyStep w₀ w →
    w.Commits host f res → w.systemStep host digest headDigest .finalize = some w' →
    w'.db.know.revision = w.db.know.revision + 1
  /-- It moves that of the graph by one and changes the edges, or neither. -/
  graph : ∀ w w' f res, Run (systemStep host digest headDigest) anyStep w₀ w →
    w.Commits host f res → w.systemStep host digest headDigest .finalize = some w' →
    (w'.db.cascade.graphRevision = w.db.cascade.graphRevision + 1 ∧ w'.edgeSet ≠ w.edgeSet) ∨
      (w'.db.cascade.graphRevision = w.db.cascade.graphRevision ∧ w'.edgeSet = w.edgeSet)
  /-- Whatever the payloads of the staged dependencies are, the predicate lets every edge
  that is stored move the revision. -/
  predicate : ∀ w f res payloads, Run (systemStep host digest headDigest) anyStep w₀ w →
    w.Commits host f res →
    f.ops.map (·.dependencies) = payloads.map (fun ds => ds.map DependencyPayload.raw) →
    0 < res.dependenciesEvidentialAdded → touchesDependencyGraph payloads
  /-- Two moments with one revision have one set of edges. -/
  determined : ∀ w w', Run (systemStep host digest headDigest) anyStep w₀ w →
    Run (systemStep host digest headDigest) anyStep w w' →
    w'.db.cascade.graphRevision = w.db.cascade.graphRevision → w'.edgeSet = w.edgeSet

/-- A commit that is finalized is the one that was in flight. -/
theorem Commits.step {w w' : World} {f : FinalizeTx} {res : MemoryApplyResult}
    (h : w.Commits host f res)
    (hstep : w.systemStep host digest headDigest .finalize = some w') :
    ∃ (s : WorldSession) (db : MemoryDb),
      w.db.commitMemory host w.statements s.pin f.active f.ops f.links = .ok (db, res) ∧
      w'.db.know.revision = w.db.know.revision + 1 ∧
      w'.db.cascade.edges = db.cascade.edges ∧
      w'.db.cascade.graphRevision =
        if touchesGraph f.ops ∧ 0 < res.dependenciesEvidentialAdded then
          w.db.cascade.graphRevision + 1 else w.db.cascade.graphRevision := by
  obtain ⟨hf, s, db, hs, hok⟩ := h
  have hcommit : w.commitFinalize host f s = some w' := by
    unfold systemStep at hstep
    rw [hf] at hstep
    simpa only [hs, Option.bind_some] using hstep
  obtain ⟨-, rfl | ⟨db', res', hok', rfl⟩⟩ := commitFinalize_cases hcommit
  · -- a rolled back transaction had an error
    have hfail := hcommit
    unfold commitFinalize at hfail
    rw [hok] at hfail
    split at hfail
    · have hfinalized := congrArg (fun w => w.db.know.revision) (Option.some.inj hfail)
      obtain ⟨created, hcommits, -⟩ := MemoryDb.commitMemory_commits hok
      have hnow : db.know.revision + 1 = w.db.know.revision := hfinalized
      rw [hcommits.revision] at hnow
      omega
    · cases hfail
  · obtain ⟨rfl, rfl⟩ := Prod.mk.inj (Except.ok.inj (hok'.symm.trans hok))
    obtain ⟨created, hcommits, -⟩ := MemoryDb.commitMemory_commits hok
    refine ⟨s, _, hok, ?_, rfl, ?_⟩
    · show _ + 1 = _
      rw [hcommits.revision]
    · show ite _ _ _ = _
      rw [hcommits.graphRevision]

/-- **The revisions of a commit.** Every commit moves the knowledge revision by one and
moves the graph revision exactly when it changes the set of evidential edges, whatever was
staged; so in every history the edges are a function of the graph revision. -/
theorem revision_discipline (host : Host) (digest : ManifestBody → String)
    (headDigest : List (ClaimId × Head) → String) (w₀ : World) :
    RevisionDiscipline host digest headDigest w₀ := by
  constructor
  · intro w w' f res _ hcommits hstep
    obtain ⟨-, -, -, hrev, -, -⟩ := hcommits.step hstep
    exact hrev
  · intro w w' f res _ hcommits hstep
    obtain ⟨s, db, hok, -, hedges, hrev⟩ := hcommits.step hstep
    exact commit_graph hok hedges hrev
  · rintro w f res payloads - ⟨-, s, db, -, hok⟩ hops hpos
    exact touchesDependencyGraph_of_raw hops (MemoryDb.touchesGraph_of_commitMemory hok hpos)
  · intro w w' _ hrun
    exact (run_graph hrun).2

end World

/-- The first commit stores a claim, the second one an edge to it. -/
example : (exec edgeSystem pageWorld reportedCommit).map (·.db.cascade.graphRevision) = some 0 ∧
    (exec edgeSystem pageWorld (reportedCommit ++ dependentCommit 1 [2])).map
      (·.db.cascade.graphRevision) = some 1 :=
  ⟨rfl, rfl⟩

end Noezema.Memory
