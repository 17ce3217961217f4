import Noezema.Lib.AsOf
import Noezema.Memory.HeadWrites

/-! # Every claim has a head

Retrieval and the worker see a claim through its head under the effective snapshot. A
candidate gets a head for every claim of its frozen cohort, and the cohort is the whole
table as long as no claim is created: the online flip checks that by the `knowledge`
revision, which every commit moves. The offline change checks nothing of the kind, and a
final transaction reads the pointer it carries its claims over to before it holds a lock.
-/

namespace Noezema.Memory

open Noezema.Lib

/-- Every claim has a head under the snapshot. -/
def MemoryDb.Headed (db : MemoryDb) (s : SnapshotId) : Prop :=
  ∀ x ∈ db.claims.map (·.id), db.know.heads x s ≠ none

theorem MemoryDb.Headed.next {db db' : MemoryDb} {s : SnapshotId} (h : db.Headed s)
    (hids : db'.claims.map (·.id) = db.claims.map (·.id))
    (hheads : Knowledge.KeepsHeads db.know db'.know) : db'.Headed s := by
  intro x hx
  rw [hids] at hx
  exact hheads x s (h x hx)

/-! ## Cohorts -/

/-- The cohort of the candidate is the whole table, and a sealed one has its heads. -/
def CohortCovers (c : ConfigSnapshot) (db : MemoryDb) : Prop :=
  c.expectedHeadCount = some db.claims.length ∧ (c.headsSha256.isSome → db.Headed c.id)

/-- **What a candidate's row says about its cohort**: it held at the frozen revision. -/
structure Cohort (db : MemoryDb) (c : ConfigSnapshot) : Prop where
  frozen : c.headsSha256.isSome → c.cohortRevision.isSome
  covers : ∀ revision, c.cohortRevision = some revision →
    AsOf (·.know.revision) (CohortCovers c) revision db

/-- A row that is not sealed or frozen yet. -/
theorem Cohort.open' {db : MemoryDb} {c : ConfigSnapshot} (hcohort : c.cohortRevision = none)
    (hsha : c.headsSha256 = none) : Cohort db c where
  frozen := by simp [hsha]
  covers := by simp [hcohort]

/-- A change that moves the revision, or keeps the claims and the heads there are. -/
theorem Cohort.next {db db' : MemoryDb} {c c' : ConfigSnapshot} (h : Cohort db c)
    (hid : c'.id = c.id) (hcohort : c'.cohortRevision = c.cohortRevision)
    (hexpected : c'.expectedHeadCount = c.expectedHeadCount)
    (hsha : c'.headsSha256 = c.headsSha256) (hle : db.know.revision ≤ db'.know.revision)
    (hkeep : db'.know.revision = db.know.revision →
      db'.claims.map (·.id) = db.claims.map (·.id) ∧
        Knowledge.KeepsHeads db.know db'.know) : Cohort db' c' where
  frozen := by
    rw [hsha, hcohort]
    exact h.frozen
  covers := by
    intro revision hrev
    rw [hcohort] at hrev
    refine (h.covers revision hrev).next hle ?_
    intro heq ⟨hcount, hheaded⟩
    obtain ⟨hids, hheads⟩ := hkeep heq
    refine ⟨?_, fun hsome => ?_⟩
    · rw [hexpected, hcount, ← List.length_map (·.id), ← hids, List.length_map]
    · rw [hid]
      exact (hheaded (by rwa [← hsha])).next hids hheads

/-- The count of the seal is exact: as many heads as claims means a head for each. -/
theorem headed_of_headRows {db : MemoryDb} {s : SnapshotId}
    (h : (db.headRows s).length = db.claims.length) : db.Headed s := by
  intro x hx
  unfold MemoryDb.headRows at h
  have hdedup := (List.dedup_sublist (db.claims.map (·.id))).length_le
  rw [List.length_map] at hdedup
  have hperm := List.perm_insertionSort (· ≤ ·) (db.claims.map (·.id)).dedup
  have hlen := hperm.length_eq
  have hmem : x ∈ (db.claims.map (·.id)).dedup.insertionSort (· ≤ ·) := by simpa using hx
  generalize (db.claims.map (·.id)).dedup.insertionSort (· ≤ ·) = ids at h hlen hmem
  have hfilter := List.length_filterMap_le (fun c => (db.know.heads c s).map (c, ·)) ids
  have hfull : (ids.filterMap fun c => (db.know.heads c s).map (c, ·)).length = ids.length := by
    omega
  have hsome := List.filterMap_length_eq_length.mp hfull x hmem
  intro hnone
  simp [hnone] at hsome

/-! ## The invariant -/

namespace World

/-- The claims an offline change has read are the first ones of the table. -/
structure OfflineCohort (db : MemoryDb) (run : OfflineRun) : Prop where
  frozen : ∃ revision, run.candidate.cohortRevision = some revision ∧
    revision ≤ db.know.revision
  read : ∃ before after, db.claims.map (·.id) = before ++ after ∧
    run.candidate.expectedHeadCount = some before.length ∧
    ∀ x ∈ before, x ∈ run.heads.map (·.1.id)

theorem OfflineCohort.next {db db' : MemoryDb} {run : OfflineRun} (h : OfflineCohort db run)
    (hids : ∃ new, db'.claims.map (·.id) = db.claims.map (·.id) ++ new)
    (hle : db.know.revision ≤ db'.know.revision) : OfflineCohort db' run where
  frozen := by
    obtain ⟨revision, hrev, hbound⟩ := h.frozen
    exact ⟨revision, hrev, Nat.le_trans hbound hle⟩
  read := by
    obtain ⟨before, after, hsplit, hcount, hread⟩ := h.read
    obtain ⟨new, hnew⟩ := hids
    refine ⟨before, after ++ new, ?_, hcount, hread⟩
    rw [hnew, hsplit, List.append_assoc]

/-- **The invariant.** -/
structure AllHeaded (w : World) : Prop where
  headed : w.db.Headed w.db.effective
  cohorts : ∀ s c, w.db.snapshot? s = some c → Cohort w.db c
  offline : ∀ run, w.offline = some run → OfflineCohort w.db run

section Runs

variable (host : Host) {digest : ManifestBody → String}
  {headDigest : List (ClaimId × Head) → String}

/-- No claim is created between what a publish or a carry-over has read and its commit: an
offline change publishes the table it has read, and a final transaction that creates
claims commits under the pointer it has read. -/
def SeesNewClaims (w : World) : SystemEvent → Prop
  | .publishOffline => ∀ run, w.offline = some run →
      run.candidate.expectedHeadCount = some w.db.claims.length
  | .finalize => ∀ f s, w.finalizing = some f → w.sessions[f.session]? = some s →
      f.active = w.db.effective ∨ w.db.createdClaims host w.statements s.pin f.ops = []
  | _ => True

variable {host}

theorem Initial.allHeaded {w : World} (h : w.Initial) : w.AllHeaded where
  headed := by
    intro x hx
    rw [h.claims] at hx
    cases hx
  cohorts := by
    intro s c hc
    obtain ⟨r, hr, -, -, hcohort, hsha⟩ := h.snapshots
    rw [MemoryDb.snapshot?, hr] at hc
    have hmem := List.mem_of_find?_eq_some hc
    rw [List.mem_singleton.mp hmem]
    exact .open' hcohort hsha
  offline := by
    intro run hrun
    rw [h.offline] at hrun
    cases hrun

/-- A step that keeps the rows, the pointer and the claims. -/
theorem AllHeaded.next {w w' : World} (h : w.AllHeaded)
    (hids : w'.db.claims.map (·.id) = w.db.claims.map (·.id))
    (hheads : Knowledge.KeepsHeads w.db.know w'.db.know)
    (heffective : w'.db.effective = w.db.effective)
    (hsnapshots : w'.db.snapshots = w.db.snapshots)
    (hle : w.db.know.revision ≤ w'.db.know.revision)
    (hoffline : ∀ run, w'.offline = some run → w.offline = some run) : w'.AllHeaded where
  headed := by
    rw [heffective]
    exact h.headed.next hids hheads
  cohorts := by
    intro s c hc
    rw [MemoryDb.snapshot?, hsnapshots] at hc
    exact (h.cohorts s c hc).next rfl rfl rfl rfl hle fun _ => ⟨hids, hheads⟩
  offline := by
    intro run hrun
    exact (h.offline run (hoffline run hrun)).next ⟨[], by rw [hids, List.append_nil]⟩ hle

/-- The cohort of a row after a step of the lane. -/
theorem AllHeaded.lane_cohort {w : World} {db : MemoryDb} {e : LaneEvent} (h : w.AllHeaded)
    (hopen : w.laneOpen e) (hchange : MemoryDb.LaneChange w.db e db)
    (hle : w.db.know.revision ≤ db.know.revision) {s : SnapshotId} {c : ConfigSnapshot}
    (hc : db.snapshot? s = some c) : Cohort db c := by
  have hids : db.claims.map (·.id) = w.db.claims.map (·.id) := by rw [hchange.claims]
  cases hchange.origin hc with
  | requested q he hnone hcohort hsha hbase => exact .open' hcohort hsha
  | moved old hold hbase hearly hseal =>
    have hcohort := h.cohorts _ old hold
    have hid : c.id = old.id := (MemoryDb.snapshot?_id hold).symm
    cases hseal with
    | kept hrev hexpected hsha =>
      exact hcohort.next hid hrev hexpected hsha hle fun _ => ⟨hids, hchange.keepsHeads⟩
    | frozen hnone hrev hexpected hsha =>
      have hunsealed : old.headsSha256 = none := by
        cases hs : old.headsSha256 with
        | none => rfl
        | some x =>
          have hfrozen := hcohort.frozen (by simp [hs])
          simp [hnone] at hfrozen
      rw [hunsealed] at hsha
      refine ⟨by simp [hsha], ?_⟩
      intro revision hsome
      obtain rfl : w.db.know.revision = revision := Option.some.inj (hrev.symm.trans hsome)
      refine ⟨hle, fun _ => ⟨?_, by simp [hsha]⟩⟩
      rw [hexpected, hchange.claims]
    | verified now r he hr hnow hlen hrev hexpected =>
      -- the driver seals a frozen cohort only
      have hfrozen : old.cohortRevision.isSome := by
        rw [he] at hopen
        have hany : (w.db.snapshot? r.candidate).any fun c => c.cohortRevision.isSome := hopen
        rw [hr, ← hid, hold] at hany
        simpa using hany
      obtain ⟨revision, hsome⟩ := Option.isSome_iff_exists.mp hfrozen
      have hcovers := hcohort.covers revision hsome
      obtain ⟨hcount, -⟩ := hcovers.holds (hnow revision hsome).symm
      rw [hcount] at hlen
      have hall : w.db.Headed old.id := headed_of_headRows hlen
      refine ⟨fun _ => by rw [hrev]; exact hfrozen, ?_⟩
      intro revision' hsome'
      rw [hrev, hsome] at hsome'
      obtain rfl := Option.some.inj hsome'
      refine hcovers.next hle fun heq _ => ⟨?_, fun _ => ?_⟩
      · rw [hexpected, hcount, hchange.claims]
      · rw [hid]
        exact hall.next hids hchange.keepsHeads

/-- A flip moves the pointer to a candidate that has all its heads. -/
theorem AllHeaded.flip {w : World} {c : ConfigSnapshot} (h : w.AllHeaded)
    (hc : w.db.snapshot? c.id = some c) (hready : MemoryDb.FlipReady w.db c) :
    w.db.Headed c.id := by
  have hcohort := h.cohorts c.id c hc
  obtain ⟨revision, hsome⟩ := Option.isSome_iff_exists.mp (hcohort.frozen hready.hasSeal)
  have hrev := hready.revision
  rw [hsome] at hrev
  exact ((hcohort.covers revision hsome).holds hrev).2 hready.hasSeal

/-- A final transaction keeps the heads there are, and gives the claims it creates one
under the pointer. -/
theorem AllHeaded.commit {w : World} {f : FinalizeTx} {s : WorldSession} {db : MemoryDb}
    {created : List ClaimId} (h : w.AllHeaded)
    (hcommits : CommitsMemory s.pin f.active created w.db db)
    (hsees : f.active = w.db.effective ∨ created = []) :
    Knowledge.KeepsHeads w.db.know db.know ∧ db.Headed w.db.effective := by
  have hkeeps : Knowledge.KeepsHeads w.db.know db.know := by
    intro x t hne
    rcases hcommits.heads x t with heq | ⟨-, -, a, e, hcur⟩ | ⟨-, -, hp⟩
    · rwa [heq]
    · simp [hcur]
    · simp [hp]
  refine ⟨hkeeps, ?_⟩
  intro x hx
  rw [hcommits.ids] at hx
  rcases List.mem_append.mp hx with hold | hnew
  · exact hkeeps x _ (h.headed x hold)
  · rcases hsees with hactive | hnil
    · rw [← hactive]
      by_cases hpin : s.pin = f.active
      · obtain ⟨a, e, hcur⟩ := hcommits.pinned x hnew
        rw [← hpin, hcur]
        simp
      · exact hcommits.carried hpin x hnew
    · rw [hnil] at hnew
      cases hnew

/-- A step of the lane: only a flip moves the pointer. -/
theorem AllHeaded.lane {w : World} {e : LaneEvent} {db : MemoryDb} (h : w.AllHeaded)
    (hopen : w.laneOpen e) (hchange : MemoryDb.LaneChange w.db e db) :
    (w.withDb db).AllHeaded := by
  have hids : db.claims.map (·.id) = w.db.claims.map (·.id) := by rw [hchange.claims]
  have hle : w.db.know.revision ≤ db.know.revision := by
    rcases hchange.effective with ⟨-, hle⟩ | ⟨c, -, -, -, -, -, hrev⟩
    · exact hle
    · omega
  refine ⟨?_, fun s c hc => h.lane_cohort hopen hchange hle hc, ?_⟩
  · show db.Headed db.effective
    rcases hchange.effective with ⟨heffective, -⟩ | ⟨c, hc, -, hready, heffective, -, -⟩
    · rw [heffective]
      exact h.headed.next hids hchange.keepsHeads
    · rw [heffective]
      exact (h.flip hc hready).next hids hchange.keepsHeads
  · intro run hrun
    exact (h.offline run hrun).next ⟨[], by rw [List.append_nil]; exact hids⟩ hle

/-- A final transaction moves the revision past those of the frozen cohorts. -/
theorem AllHeaded.committed {w w' : World} {f : FinalizeTx} {s : WorldSession}
    (h : w.AllHeaded) (hcommit : w.commitFinalize host f s = some w')
    (hsees : f.active = w.db.effective ∨
      w.db.createdClaims host w.statements s.pin f.ops = []) : w'.AllHeaded := by
  obtain ⟨-, rfl | ⟨db, res, hok, rfl⟩⟩ := commitFinalize_cases hcommit
  · exact h.next rfl (.refl _) rfl rfl (Nat.le_refl _) fun _ hr => hr
  · obtain ⟨created, hcommits, hcreated⟩ := MemoryDb.commitMemory_commits hok
    have hnil : f.active = w.db.effective ∨ created = [] := by
      refine hsees.imp_right fun hnone => ?_
      apply List.eq_nil_iff_forall_not_mem.mpr
      intro x hx
      rw [hcreated, hnone] at hx
      cases hx
    obtain ⟨hkeeps, hheaded⟩ := h.commit hcommits hnil
    have hlt : w.db.know.revision < db.know.revision + 1 := by
      rw [hcommits.revision]
      omega
    refine ⟨?_, ?_, ?_⟩
    · show db.Headed db.effective
      rw [hcommits.effective]
      exact hheaded
    · intro t c hc
      have hold : w.db.snapshot? t = some c := by
        rw [MemoryDb.snapshot?, ← hcommits.snapshots]
        exact hc
      obtain ⟨hfrozen, hcovers⟩ := h.cohorts t c hold
      exact ⟨hfrozen, fun revision hrev => (hcovers revision hrev).moved hlt⟩
    · intro run hrun
      exact (h.offline run hrun).next ⟨created, hcommits.ids⟩ hlt.le

/-- A publish writes a head for every claim it has read, and those are all. -/
theorem AllHeaded.published {w : World} {run : OfflineRun} {db : MemoryDb} (h : w.AllHeaded)
    (hrun : w.offline = some run) (hpublish : w.db.publishOffline run = .ok db)
    (hexpected : run.candidate.expectedHeadCount = some w.db.claims.length) :
    AllHeaded { w with db := db, offline := none } := by
  have hpub := MemoryDb.publishOffline_ok hpublish
  obtain ⟨db₁, hshadows, -, hheads, -, hrevision⟩ := hpub.shadows
  obtain ⟨⟨revision, hcohort, hbound⟩, before, after, hsplit, hcount, hread⟩ :=
    h.offline run hrun
  have hrev : db.know.revision = w.db.know.revision := hrevision.trans hshadows.revision
  -- the table has not grown since it was read
  have hall : ∀ x ∈ w.db.claims.map (·.id), x ∈ run.heads.map (·.1.id) := by
    have hlen := congrArg List.length hsplit
    rw [List.length_map, List.length_append] at hlen
    have hsome : before.length = w.db.claims.length := Option.some.inj (hcount.symm.trans hexpected)
    have hnil : after = [] := List.length_eq_zero_iff.mp (by omega)
    intro x hx
    rw [hsplit, hnil, List.append_nil] at hx
    exact hread x hx
  have hkeeps : Knowledge.KeepsHeads w.db.know db.know := by
    intro x t hne
    rw [hheads]
    by_cases hin : x ∈ run.heads.map (·.1.id) ∧ t = run.candidate.id
    · rw [hin.2]
      exact hshadows.written x hin.1
    · rwa [hshadows.know.heads x t hin]
  have hheaded : db.Headed run.candidate.id := by
    intro x hx
    rw [hpub.claims] at hx
    rw [hheads]
    exact hshadows.written x (hall x hx)
  have hids : db.claims.map (·.id) = w.db.claims.map (·.id) := by rw [hpub.claims]
  refine ⟨?_, ?_, fun _ hr => by cases hr⟩
  · show db.Headed db.effective
    rw [hpub.effective]
    exact hheaded
  · intro t c hc
    show Cohort db c
    have hc' : db.snapshot? t = some c := hc
    rw [hpub.snapshots] at hc'
    split at hc'
    · cases hc'
      refine ⟨fun _ => by simp [hcohort], ?_⟩
      intro revision' hsome
      obtain rfl : revision = revision' := Option.some.inj (hcohort.symm.trans hsome)
      refine ⟨by omega, fun _ => ⟨?_, fun _ => hheaded⟩⟩
      rw [hpub.claims]
      exact hexpected
    · exact (h.cohorts t c hc').next rfl rfl rfl rfl hrev.ge fun _ => ⟨hids, hkeeps⟩

/-- **The step lemma.** -/
theorem AllHeaded.step {w w' : World} {e : SystemEvent} (h : w.AllHeaded)
    (hsees : w.SeesNewClaims host e)
    (hstep : w.systemStep host digest headDigest e = some w') : w'.AllHeaded := by
  cases systemStep_change hstep with
  | refused => exact h
  | lane e db hopen hlane => exact h.lane hopen (MemoryDb.laneStep_change hlane)
  | worker e =>
    have htouch := @MemoryDb.workerStep_touches host.parseDay host.parseTime host.readers w.db e
    have hsettles := @MemoryDb.workerStep_settles host.parseDay host.parseTime host.readers w.db e
    refine h.next ?_ hsettles.keepsHeads htouch.effective htouch.snapshots
      hsettles.announces.le fun _ hr => hr
    exact congrArg _ htouch.claims
  | cascade e cw hedges hhead hflip hcall =>
    obtain ⟨hgraph, hannounces, cs, hinv⟩ :=
      (cascadeStep_change hedges hhead hflip hcall).invalidates
    exact h.next rfl hinv.keepsHeads hgraph.effective rfl hannounces.le fun _ hr => hr
  | requeued e db hreq =>
    refine h.next (congrArg _ hreq.claims) hreq.know.keepsHeads ?_ hreq.snapshots
      hreq.revision.ge fun _ hr => hr
    exact (congrArg CascadeDb.effective hreq.cascade :)
  | sessions e ss fin hpins hfin =>
    exact h.next rfl (.refl _) rfl rfl (Nat.le_refl _) fun _ hr => hr
  | began e f hactive hnone =>
    exact h.next rfl (.refl _) rfl rfl (Nat.le_refl _) fun _ hr => hr
  | committed f s w' hf hs hcommit => exact h.committed hcommit (hsees f s hf hs)
  | offlineRead id q run hfresh hnone hread =>
    refine ⟨h.headed, h.cohorts, ?_⟩
    intro run' hrun
    obtain rfl : run = some run' := hrun
    obtain ⟨-, hcohort, hclaims, hexpected⟩ := MemoryDb.prepareOffline_read hread
    refine ⟨⟨_, hcohort, Nat.le_refl _⟩, w.db.claims.map (·.id), [], by simp, ?_, hclaims⟩
    rw [hexpected, List.length_map]
  | offlineVerified run run' hrun hcandidate hheads =>
    refine ⟨h.headed, h.cohorts, ?_⟩
    intro run'' hrun''
    obtain rfl : run' = run'' := Option.some.inj hrun''
    obtain ⟨hfrozen, hread⟩ := h.offline run hrun
    rw [← hcandidate] at hfrozen
    rw [← hcandidate, ← hheads] at hread
    exact ⟨hfrozen, hread⟩
  | offlineDropped e =>
    exact h.next rfl (.refl _) rfl rfl (Nat.le_refl _) fun _ hr => by cases hr
  | offlinePublished run db hrun hpublish => exact h.published hrun hpublish (hsees run hrun)

/-- **Every claim has a head**, in any run in which no claim is created between what a
publish or a carry-over has read and its commit: exactly one, under the effective
snapshot. -/
theorem claims_have_heads {w₀ w : World} (h₀ : w₀.Initial)
    (hrun : Run (systemStep host digest headDigest) (SeesNewClaims host) w₀ w) :
    ∀ claim ∈ w.db.claims, ∃! head, w.db.know.heads claim.id w.db.effective = some head := by
  intro claim hclaim
  have hall := hrun.invariant (I := AllHeaded) h₀.allHeaded fun h hg hs => h.step hg hs
  have hne := hall.headed claim.id (List.mem_map_of_mem hclaim)
  obtain ⟨head, hhead⟩ := Option.ne_none_iff_exists'.mp hne
  refine ⟨head, hhead, fun other hother => ?_⟩
  exact Option.some.inj (hother.symm.trans hhead)

end Runs

end World

/-! ## A claim without a head -/

/-- The commit of claim `1`, then a change of the rules that has read it. -/
def commitThenChange : List SystemEvent :=
  factCommit ++ [.prepareOffline 1 (requestOf "again" factRules), .verifyOffline,
    .publishOffline]

theorem claims_have_heads_published : ∃ w, exec plainSystem freshWorld commitThenChange = some w ∧
    w.db.effective = 1 ∧ w.db.claims.map (·.id) = [1] ∧
    ∀ claim ∈ w.db.claims, ∃! head, w.db.know.heads claim.id w.db.effective = some head := by
  refine ⟨_, rfl, rfl, rfl, ?_⟩
  have hbegun := @Run.of_exec_guarded _ _ plainSystem (World.SeesNewClaims plainHost) freshWorld _
    (factCommit.take 4) rfl (by
      intro e he a
      fin_cases he <;> trivial)
  have hcommitted := Run.snoc (e := .finalize) hbegun (fun f s hf hs => by
    cases hf
    exact .inl rfl) rfl
  have hread := Run.snoc (e := .prepareOffline 1 (requestOf "again" factRules)) hcommitted
    (by trivial) rfl
  have hverified := Run.snoc (e := .verifyOffline) hread (by trivial) rfl
  have hpublished := Run.snoc (e := .publishOffline) hverified (fun run hrun => by
    cases hrun
    rfl) rfl
  exact World.claims_have_heads freshWorld_initial hpublished

/-- The offline change does not see the admitted session: it has read an empty table when
the session commits claim `1`. -/
theorem claim_without_head : ¬ ∀ (host : Host) (digest : ManifestBody → String)
    (headDigest : List (ClaimId × Head) → String) (w₀ w : World), w₀.Initial →
    Run (World.systemStep host digest headDigest) anyStep w₀ w →
    ∀ claim ∈ w.db.claims, ∃! head, w.db.know.heads claim.id w.db.effective = some head := by
  intro hall
  have hrun := @Run.of_exec _ _ plainSystem freshWorld _
    (.admission 1 :: .prepareOffline 1 (requestOf "again" factRules) :: factCommit.tail ++
      [.verifyOffline, .publishOffline]) rfl
  obtain ⟨head, hhead, -⟩ := hall plainHost sizeDigest (fun _ => "heads") freshWorld _
    freshWorld_initial hrun _ List.mem_cons_self
  cases hhead

end Noezema.Memory
