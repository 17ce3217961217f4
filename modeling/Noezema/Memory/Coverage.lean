import Noezema.Memory.Manifest
import Noezema.Memory.System

/-! # No invalidated claim is lost

A head that is pending under the effective snapshot has a job in the queue. Each event
keeps the jobs of the pending heads, with one exception: an offline change leaves the
claims its rules defer pending, and queues nothing for them.
-/

namespace Noezema.Memory

open Noezema.Lib

/-! ## Deferred claims -/

/-- The rules defer a claim: they ask for a reference date that it does not have, and it
has no evidence in force. -/
def AssessmentDb.Defers (rules : ClaimTypeRules) (db : AssessmentDb) (claim : Claim) : Prop :=
  ∃ rule, rules claim.claimType = some rule ∧ rule.requiresAsOf ∧ claim.hasAsOf = false ∧
    db.claimEvidenceForAssessment claim.id = []

theorem shadowHead_pending {parseDay parseTime : String → Option Int} {rules : ClaimTypeRules}
    {db : AssessmentDb} {claim : Claim}
    (h : shadowHead parseDay parseTime rules db claim = .ok .pending) :
    db.Defers rules claim := by
  unfold shadowHead at h
  split at h
  · cases h
  · rename_i rule hrule
    obtain ⟨result, hresult, h⟩ := bind_eq_ok.mp h
    split at h
    · rename_i hdeferred
      obtain ⟨hsupport, hcounter, hrequires, hasOf⟩ := (deferred_of_ok hresult).mp hdeferred
      refine ⟨rule, hrule, hrequires, hasOf, ?_⟩
      -- an item either supports or counters, and no item is resolved
      apply List.eq_nil_iff_forall_not_mem.mpr
      intro e he
      have hin : shadowEvidence e ∈ (shadowInput db rule claim).evidences :=
        List.mem_map_of_mem he
      cases hrel : e.relation with
      | supports =>
        have hmem : shadowEvidence e ∈ supportOf (shadowInput db rule claim).evidences :=
          List.mem_filter.mpr ⟨hin, by simp [shadowEvidence, hrel]⟩
        rw [hsupport] at hmem
        cases hmem
      | counters =>
        have hmem : shadowEvidence e ∈ counterOf (shadowInput db rule claim).evidences :=
          List.mem_filter.mpr ⟨hin, by simp [shadowEvidence, hrel]⟩
        rw [hcounter] at hmem
        cases hmem
    · cases h

/-! ## What each event keeps -/

namespace MemoryDb

theorem LaneChange.claims {db db' : MemoryDb} {e : LaneEvent} (h : LaneChange db e db') :
    db'.claims = db.claims := by
  cases h with
  | flipped now c hrow hst hready => exact moveFlip_claims db now c
  | _ => rfl

/-- Shadow heads that are not pending owe no job. -/
theorem writeShadows_keepsJobs {s : SnapshotId} {heads : List (Claim × ShadowHead)}
    (h : ∀ p ∈ heads, p.2 ≠ .pending) (db : MemoryDb) :
    Knowledge.KeepsJobs db.know (db.writeShadows s heads).know := by
  unfold writeShadows
  induction heads generalizing db with
  | nil => exact .refl _
  | cons p rest ih =>
    refine Knowledge.KeepsJobs.trans ?_ (ih (fun q hq => h q (List.mem_cons_of_mem p hq)) _)
    have hp := h p List.mem_cons_self
    unfold writeShadow
    split
    · exact Knowledge.setHead_keepsJobs _ _ _ (by simp)
    · rename_i hpending
      exact absurd hpending hp
    · exact Knowledge.setHead_keepsJobs _ _ _ (by simp)

/-- Heads that change have a row. -/
theorem Touches.headsHaveRows {owned : ClaimId → SnapshotId → Prop} {db db' : MemoryDb}
    (h : Touches owned db db') (hrows : db.HeadsHaveRows) : db'.HeadsHaveRows := by
  intro c s hne
  rw [claim?, h.claims]
  rcases h.heads c s with heq | ⟨-, hold, -⟩
  · rw [heq] at hne
    exact hrows c s hne
  · exact hrows c s hold

end MemoryDb

/-- An invalidation adds no head. -/
theorem Knowledge.Invalidates.headsHaveRows {db : MemoryDb} {k : Knowledge} {cs : List ClaimId}
    {s : SnapshotId} (h : Knowledge.Invalidates db.know k cs s) (hrows : db.HeadsHaveRows) :
    (db.withKnow k).HeadsHaveRows := by
  intro c t hne
  refine hrows c t fun hnone => hne ?_
  show k.heads c t = none
  rw [h.heads, hnone]
  simp [invalidated]

theorem CommitsMemory.headsHaveRows {pin active : SnapshotId} {created : List ClaimId}
    {db db' : MemoryDb} (h : CommitsMemory pin active created db db')
    (hrows : db.HeadsHaveRows) : db'.HeadsHaveRows := by
  intro c s hne
  apply MemoryDb.claim?_isSome_iff.mpr
  rcases h.heads c s with heq | ⟨-, hmem, -⟩ | ⟨-, hmem, -⟩
  · rw [heq] at hne
    rw [h.ids]
    exact List.mem_append_left _ (MemoryDb.claim?_isSome_iff.mp (hrows c s hne))
  · exact hmem
  · rw [h.ids]
    exact List.mem_append_right _ hmem

namespace World

section Queued

variable {host : Host} {digest : ManifestBody → String}
  {headDigest : List (ClaimId × Head) → String}

/-- Every head belongs to a claim row, those an offline change has prepared too. -/
structure Rowed (w : World) : Prop where
  rows : w.db.HeadsHaveRows
  offline : ∀ run, w.offline = some run → ∀ p ∈ run.heads, p.1.id ∈ w.db.claims.map (·.id)

theorem Initial.rowed {w : World} (h : w.Initial) : w.Rowed where
  rows := by
    intro c s hne
    exact absurd (h.heads c s) hne
  offline := by
    intro run hrun
    rw [h.offline] at hrun
    cases hrun

/-- A step that keeps the claims. -/
theorem Rowed.next {w w' : World} (h : w.Rowed) (hrows : w'.db.HeadsHaveRows)
    (hids : ∀ c ∈ w.db.claims.map (·.id), c ∈ w'.db.claims.map (·.id))
    (hoffline : ∀ run, w'.offline = some run → w.offline = some run) : w'.Rowed where
  rows := hrows
  offline := by
    intro run hrun p hp
    exact hids _ (h.offline run (hoffline run hrun) p hp)

theorem Rowed.step {w w' : World} {e : SystemEvent} (h : w.Rowed)
    (hstep : w.systemStep host digest headDigest e = some w') : w'.Rowed := by
  cases systemStep_change hstep with
  | refused => exact h
  | lane e db hopen hlane =>
    have hchange := MemoryDb.laneStep_change hlane
    refine h.next (hchange.headsHaveRows h.rows) ?_ fun _ hr => hr
    intro c hc
    show c ∈ db.claims.map (·.id)
    rwa [hchange.claims]
  | worker e =>
    have htouch := @MemoryDb.workerStep_touches host.parseDay host.parseTime host.readers w.db e
    refine h.next (htouch.headsHaveRows h.rows) ?_ fun _ hr => hr
    intro c hc
    show c ∈ (w.db.workerStep _ _ _ e).claims.map (·.id)
    rwa [htouch.claims]
  | cascade e cw hedges hhead hflip hcall =>
    obtain ⟨-, -, cs, hinv⟩ := (cascadeStep_change hedges hhead hflip hcall).invalidates
    exact h.next (hinv.headsHaveRows h.rows) (fun _ hc => hc) fun _ hr => hr
  | requeued e db hreq =>
    refine h.next ?_ ?_ fun _ hr => hr
    · intro c s hne
      have hrow := hreq.know.headsHaveRows h.rows c s hne
      show (db.claim? c).isSome
      rwa [MemoryDb.claim?, hreq.claims]
    · intro c hc
      show c ∈ db.claims.map (·.id)
      rwa [hreq.claims]
  | sessions e ss fin hpins hfin => exact h.next h.rows (fun _ hc => hc) fun _ hr => hr
  | began e f hactive hnone => exact h.next h.rows (fun _ hc => hc) fun _ hr => hr
  | committed f s w' hf hs hcommit =>
    obtain ⟨-, rfl | ⟨db, res, hok, rfl⟩⟩ := commitFinalize_cases hcommit
    · exact h.next h.rows (fun _ hc => hc) fun _ hr => hr
    · obtain ⟨created, hcommits, -⟩ := MemoryDb.commitMemory_commits hok
      refine h.next (hcommits.headsHaveRows h.rows) ?_ fun _ hr => hr
      intro c hc
      show c ∈ db.claims.map (·.id)
      rw [hcommits.ids]
      exact List.mem_append_left _ hc
  | offlineRead id q run hfresh hnone hread =>
    refine ⟨h.rows, ?_⟩
    intro run' hrun p hp
    obtain rfl : run = some run' := hrun
    obtain ⟨⟨c, -, -, -, hheads⟩, -, -, -⟩ := MemoryDb.prepareOffline_read hread
    exact List.mem_map_of_mem (hheads p hp).1
  | offlineVerified run run' hrun hcandidate hheads =>
    refine ⟨h.rows, ?_⟩
    intro run'' hrun'' p hp
    obtain rfl : run' = run'' := Option.some.inj hrun''
    rw [hheads] at hp
    exact h.offline run hrun p hp
  | offlineDropped e => exact h.next h.rows (fun _ hc => hc) fun _ hr => by cases hr
  | offlinePublished run db hrun hpublish =>
    have hpub := MemoryDb.publishOffline_ok hpublish
    obtain ⟨db₁, hshadows, -, hheads, -, -⟩ := hpub.shadows
    refine h.next ?_ ?_ fun _ hr => by cases hr
    · intro c s hne
      show (db.claim? c).isSome
      rw [MemoryDb.claim?, hpub.claims]
      rw [show db.know.heads = _ from hheads] at hne
      by_cases hin : c ∈ run.heads.map (·.1.id) ∧ s = run.candidate.id
      · obtain ⟨p, hp, rfl⟩ := List.mem_map.mp hin.1
        exact MemoryDb.claim?_isSome_iff.mpr (h.offline run hrun p hp)
      · rw [hshadows.know.heads c s hin] at hne
        exact h.rows c s hne
    · intro c hc
      show c ∈ db.claims.map (·.id)
      rwa [hpub.claims]

/-- **The invariant**: the pending heads of every snapshot have their jobs, and an offline
change that has read the claims defers none of them. -/
structure Queued (w : World) : Prop where
  rowed : w.Rowed
  covered : ∀ s, w.db.know.Covered s
  offline : ∀ run, w.offline = some run → ∀ p ∈ run.heads, p.2 ≠ .pending

/-- An offline change that meets its preconditions reads the claims only while its rules defer
none of them. -/
def DefersNone (w : World) : SystemEvent → Prop
  | .prepareOffline id q => offlineProblems (offlineLoad w.sessions) = [] →
      ∀ c, w.db.offlineCandidate id q = some c →
        ∀ claim ∈ w.db.claims, ¬ w.db.tables.Defers c.rules claim
  | _ => True

theorem Initial.queued {w : World} (h : w.Initial) : w.Queued where
  rowed := h.rowed
  covered := by
    intro s c hp
    rw [h.heads] at hp
    cases hp
  offline := by
    intro run hrun
    rw [h.offline] at hrun
    cases hrun

/-- A step that keeps the jobs. -/
theorem Queued.next {w w' : World} (h : w.Queued) (hrowed : w'.Rowed)
    (hjobs : Knowledge.KeepsJobs w.db.know w'.db.know)
    (hoffline : ∀ run, w'.offline = some run → w.offline = some run) : w'.Queued where
  rowed := hrowed
  covered := hjobs.covered h.covered
  offline := fun run hrun => h.offline run (hoffline run hrun)

/-- **The step lemma**: one case for each change of the system. -/
theorem Queued.step {w w' : World} {e : SystemEvent} (h : w.Queued) (hdefers : w.DefersNone e)
    (hstep : w.systemStep host digest headDigest e = some w') : w'.Queued := by
  have hrowed := h.rowed.step hstep
  cases systemStep_change hstep with
  | refused => exact h
  | lane e db hopen hlane =>
    exact h.next hrowed (MemoryDb.laneStep_change hlane).keepsJobs fun _ hr => hr
  | worker e =>
    exact h.next hrowed (MemoryDb.workerStep_keepsJobs h.rowed.rows e) fun _ hr => hr
  | cascade e cw hedges hhead hflip hcall =>
    obtain ⟨-, -, cs, hinv⟩ := (cascadeStep_change hedges hhead hflip hcall).invalidates
    exact h.next hrowed hinv.keepsJobs fun _ hr => hr
  | requeued e db hreq => exact h.next hrowed hreq.know.keepsJobs fun _ hr => hr
  | sessions e ss fin hpins hfin => exact h.next hrowed (.refl _) fun _ hr => hr
  | began e f hactive hnone => exact h.next hrowed (.refl _) fun _ hr => hr
  | committed f s w' hf hs hcommit =>
    obtain ⟨-, rfl | ⟨db, res, hok, rfl⟩⟩ := commitFinalize_cases hcommit
    · exact h.next hrowed (.refl _) fun _ hr => hr
    · obtain ⟨created, hcommits, -⟩ := MemoryDb.commitMemory_commits hok
      exact h.next hrowed hcommits.jobs fun _ hr => hr
  | offlineRead id q run hfresh hnone hread =>
    refine ⟨hrowed, h.covered, ?_⟩
    intro run' hrun p hp hpending
    obtain rfl : run = some run' := hrun
    obtain ⟨⟨c, hc, -, -, hheads⟩, -, -, -⟩ := MemoryDb.prepareOffline_read hread
    obtain ⟨hmem, hhead⟩ := hheads p hp
    rw [hpending] at hhead
    exact hdefers (MemoryDb.prepareOffline_problems hread) c hc p.1 hmem
      (shadowHead_pending hhead)
  | offlineVerified run run' hrun hcandidate hheads =>
    refine ⟨hrowed, h.covered, ?_⟩
    intro run'' hrun'' p hp
    obtain rfl : run' = run'' := Option.some.inj hrun''
    rw [hheads] at hp
    exact h.offline run hrun p hp
  | offlineDropped e => exact h.next hrowed (.refl _) fun _ hr => by cases hr
  | offlinePublished run db hrun hpublish =>
    obtain ⟨db₁, -, hdb₁, hheads, hjobs, -⟩ := (MemoryDb.publishOffline_ok hpublish).shadows
    have hkept := MemoryDb.writeShadows_keepsJobs (s := run.candidate.id)
      (h.offline run hrun) w.db
    rw [← hdb₁] at hkept
    exact h.next hrowed (hkept.trans (.of_same hheads hjobs)) fun _ hr => by cases hr

/-- **No invalidated claim is lost**, in any run in which the rules of an offline change
defer no claim: every pending head of the effective snapshot has a job in the queue. -/
theorem queue_covers_pending {w₀ w : World} (h₀ : w₀.Initial)
    (hrun : Run (systemStep host digest headDigest) DefersNone w₀ w) :
    w.db.know.Covered w.db.effective :=
  (hrun.invariant h₀.queued fun h hg hs => h.step hg hs).covered w.db.effective

end Queued

end World

/-! ## A deferred claim -/

/-- The migrated database, with rules for facts. -/
def freshWorld : World where
  db :=
    { cascade := emptyWorld.db
      tables := emptyTables
      claims := []
      snapshots := [{ plainSnapshot 0 none .bootstrap .active with
        payloadSha256 := "facts"
        rules := factRules
        cohortRevision := none
        expectedHeadCount := none
        verifiedHeadCount := none
        headsSha256 := none }]
      head := ⟨none, 0, none, none⟩
      sessions := ⟨0, 0, 0, false⟩
      sourceGraphRevision := 0 }
  statements := fun _ => []
  drivers := []
  sessions := []
  finalizing := none
  offline := none

theorem freshWorld_initial : freshWorld.Initial where
  claims := rfl
  heads := fun _ _ => rfl
  jobs := rfl
  snapshots := ⟨_, rfl, rfl, rfl, rfl, rfl⟩
  dependencies := rfl
  manifests := rfl
  barriers := rfl
  drivers := rfl
  sessions := rfl
  finalizing := rfl
  offline := rfl

/-- The migrated database with three registered pages. -/
def pageWorld : World :=
  { freshWorld with db := { freshWorld.db with tables := { emptyTables with
    sources := [⟨1, none, some "h", none⟩, ⟨2, none, some "i", none⟩, ⟨3, none, some "j", none⟩]
    registered := nofun } } }

theorem pageWorld_initial : pageWorld.Initial := { freshWorld_initial with }

/-- The system of that host. -/
abbrev plainSystem : World → SystemEvent → Option World :=
  World.systemStep plainHost sizeDigest fun _ => "heads"

/-- A session commits claim `1`, a fact without evidence. -/
def factCommit : List SystemEvent :=
  [.admission 1, .committing 0, .prepare 0,
    .beginFinalize 0 [⟨⟨['a'], "fact", none⟩, 1, false, ∅, []⟩] [], .finalize]

/-- A link of a page to the first claim of the commit. -/
def pageLink (page : SourceId) (identityHash : String) : EvidenceLink :=
  ⟨0, some ⟨0, 0, .supports, "source_assertion", identityHash, ∅, some page, none⟩⟩

/-- A session commits claim `1`, which the first page asserts. -/
def reportedCommit : List SystemEvent :=
  [.admission 1, .committing 0, .prepare 0,
    .beginFinalize 0 [⟨⟨['a'], "fact", none⟩, 1, false, ∅, []⟩] [pageLink 1 "a"], .finalize]

def reportedWorld : World := (exec plainSystem pageWorld reportedCommit).getD pageWorld

/-- The evidence of a world once the first two pages are merged. -/
def mergedPages (w : World) : EvidenceDb :=
  { w.db.tables.toEvidenceDb with corrections := [⟨0, 1, 2, .merge, true⟩] }

/-- A request, its payload by name. -/
def requestOf (payload : String) (rules : ClaimTypeRules) : ConfigRequest :=
  ⟨payload, rules, fun _ => none, none, none⟩

/-- Facts need a reference date. -/
def datedRules : ClaimTypeRules := fun claimType =>
  if claimType = "fact" then some { factRule with requiresAsOf := true } else none

theorem queue_covers_pending_requeued :
    ∃ w, exec plainSystem pageWorld
        (reportedCommit ++ [.sourceGraph (mergedPages reportedWorld) [1, 2]]) = some w ∧
      w.db.know.heads 1 w.db.effective = some .pending ∧ w.db.know.hasJob 1 w.db.effective := by
  refine ⟨_, rfl, rfl, ?_⟩
  have hrun := @Run.of_exec_guarded _ _ plainSystem World.DefersNone pageWorld _
    (reportedCommit ++ [.sourceGraph (mergedPages reportedWorld) [1, 2]]) rfl (by
      intro e he a
      fin_cases he <;> trivial)
  exact World.queue_covers_pending pageWorld_initial hrun 1 rfl

/-- The offline change asks for a reference date: claim `1` is pending under the new
snapshot, and nothing will assess it. -/
theorem deferred_claim_lost : ¬ ∀ (host : Host) (digest : ManifestBody → String)
    (headDigest : List (ClaimId × Head) → String) (w₀ w : World), w₀.Initial →
    Run (World.systemStep host digest headDigest) anyStep w₀ w →
    w.db.know.Covered w.db.effective := by
  intro hall
  have hrun := @Run.of_exec _ _ plainSystem freshWorld _
    (factCommit ++ [.prepareOffline 1 (requestOf "dated" datedRules), .verifyOffline,
      .publishOffline]) rfl
  have hjob := hall plainHost sizeDigest (fun _ => "heads") freshWorld _ freshWorld_initial hrun
    1 rfl
  revert hjob
  decide

end Noezema.Memory
