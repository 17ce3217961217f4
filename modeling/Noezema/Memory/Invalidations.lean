import Noezema.Memory.EffectiveHeads

/-! # Invalidations across a flip

An invalidation writes the heads of the effective snapshot; the heads of a candidate are a
copy that was taken earlier. What keeps them together is the `knowledge` revision: the flip
checks that it is the one at which the cohort was frozen. Cascades, commits and the worker
move it, changes of the evidence do not.
-/

namespace Noezema.Memory

open Noezema.Lib
open MemoryDb (earlyStates)

/-- No claim has a head under the snapshot. -/
def MemoryDb.Headless (db : MemoryDb) (s : SnapshotId) : Prop := ∀ x, db.know.heads x s = none

/-- The snapshot has a row past the flip. -/
def MemoryDb.Released (db : MemoryDb) (s : SnapshotId) : Prop :=
  ∃ c, db.snapshot? s = some c ∧ c.state ∉ earlyStates

/-! ## What a preparation copies -/

namespace MemoryDb

theorem prepareClaim_other {base candidate : ConfigSnapshot} {k : Knowledge} {claim : Claim}
    {x : ClaimId} {s : SnapshotId} (hne : s ≠ candidate.id) :
    (prepareClaim base candidate k claim).heads x s = k.heads x s :=
  (prepareClaim_only base candidate k claim).heads x s fun h => hne h.2

theorem prepareClaim_current {base candidate : ConfigSnapshot} {k : Knowledge} {claim : Claim}
    {x : ClaimId} {a : AssessmentId} {e : EpistemicStatus}
    (h : (prepareClaim base candidate k claim).heads x candidate.id = some (.current a e)) :
    k.heads x base.id = some (.current a e) ∨
      k.heads x candidate.id = some (.current a e) := by
  by_cases hx : x = claim.id
  · subst hx
    unfold prepareClaim at h
    split at h
    · rename_i head hcarried
      rw [Knowledge.setHead_same] at h
      rw [h] at hcarried
      unfold carriedHead at hcarried
      split at hcarried
      · rename_i a' e' hbase
        split at hcarried
        · cases hcarried
          exact .inl hbase
        · cases hcarried
      · cases hcarried
    · rw [Knowledge.enqueueJob_heads, Knowledge.setHead_same] at h
      cases h
  · refine .inr ?_
    rwa [(prepareClaim_only base candidate k claim).heads x candidate.id
      fun hin => hx (List.mem_singleton.mp hin.1)] at h

/-- **The copies of a batch.** A current head is the base's, or was there before. -/
theorem prepareClaims_current {base candidate : ConfigSnapshot} (hne : base.id ≠ candidate.id)
    {batch : List Claim} {k : Knowledge} {x : ClaimId} {a : AssessmentId} {e : EpistemicStatus}
    (h : (batch.foldl (prepareClaim base candidate) k).heads x candidate.id =
      some (.current a e)) :
    k.heads x base.id = some (.current a e) ∨
      k.heads x candidate.id = some (.current a e) := by
  induction batch generalizing k with
  | nil => exact .inr h
  | cons claim batch ih =>
    rcases ih h with hbase | hcandidate
    · rw [prepareClaim_other hne] at hbase
      exact .inl hbase
    · exact prepareClaim_current hcandidate

theorem prepareClaims_other {base candidate : ConfigSnapshot} {s : SnapshotId}
    (hne : s ≠ candidate.id) (batch : List Claim) (k : Knowledge) (x : ClaimId) :
    (batch.foldl (prepareClaim base candidate) k).heads x s = k.heads x s :=
  (Knowledge.PreparesOnly.foldl (prepareClaim_only base candidate) batch k).heads x s
    fun h => hne h.2

theorem Released.lane {db db' : MemoryDb} {e : LaneEvent} {s : SnapshotId}
    (h : db.Released s) (hchange : LaneChange db e db') : db'.Released s := by
  obtain ⟨c, hc, hst⟩ := h
  cases hc' : db'.snapshot? s with
  | none =>
    have hkept := hchange.keepsRows (s := s) (by simp [hc])
    simp [hc'] at hkept
  | some c' =>
    refine ⟨c', hc', fun hearly => hst ?_⟩
    have hid := snapshot?_id hc'
    cases hchange.origin hc' with
    | requested q he hnone hcohort hsha hbase =>
      rw [hid, hc] at hnone
      cases hnone
    | moved old hold hbase hback hseal =>
      rw [hid, hc] at hold
      rw [Option.some.inj hold]
      exact hback hearly

/-- The flip puts a released snapshot in force. -/
theorem LaneChange.released {db db' : MemoryDb} {e : LaneEvent} {c : ConfigSnapshot}
    (h : LaneChange db e db') (hc : db.snapshot? c.id = some c) (hst : c.state = .publishing)
    (hready : FlipReady db c) (heffective : db'.effective = c.id) : db'.Released c.id := by
  have hearly : c.state ∈ earlyStates := by simp [hst, earlyStates]
  cases h with
  | flipped now x hx hxst hxready =>
    obtain rfl : x = c := by
      have hid : x.id = c.id := heffective
      rw [hid, hc] at hx
      exact (Option.some.inj hx).symm
    have hflipped : (db.setSnapshot (MemoryDb.flipped now x)).snapshot? x.id =
        some (MemoryDb.flipped now x) := setSnapshot_same rfl hx
    have hsnap : (db.moveFlip now x).snapshot? x.id =
        ((db.setSnapshot (MemoryDb.flipped now x)).supersedeBase x.baseSnapshotId).snapshot?
          x.id := rfl
    rw [hxready.base] at hsnap
    rcases @supersedeBase_snapshot? _ db.effective _ _ hflipped with hsame | hsuper
    · exact ⟨_, hsnap.trans hsame, by simp [earlyStates, MemoryDb.flipped]⟩
    · exact ⟨_, hsnap.trans hsuper, by simp [earlyStates]⟩
  | _ => exact absurd heffective hready.other.symm

end MemoryDb

/-! ## The invariant -/

/-- The current heads of an unpublished candidate of the snapshot in force are current
there, with the same assessment. -/
def CopiesBase (c : ConfigSnapshot) (db : MemoryDb) : Prop :=
  c.state ∈ earlyStates → c.baseSnapshotId = some db.effective → ∀ x a e,
    db.know.heads x c.id = some (.current a e) →
    db.know.heads x db.effective = some (.current a e)

/-- What holds of the copies of a candidate: there are none before its cohort is frozen,
and at the frozen revision they are those of the base. -/
structure Copies (db : MemoryDb) (c : ConfigSnapshot) : Prop where
  before : c.state ∈ earlyStates → c.cohortRevision = none → db.Headless c.id
  copied : ∀ revision, c.cohortRevision = some revision →
    AsOf (·.know.revision) (CopiesBase c) revision db

namespace World

/-- **The invariant.** The pointers of sessions and final transactions are past their
flip. -/
structure Carries (w : World) : Prop where
  rowed : w.Rowed
  effective : w.db.Released w.db.effective
  pins : ∀ s ∈ w.sessions, w.db.Released s.pin
  active : ∀ f, w.finalizing = some f → w.db.Released f.active
  copies : ∀ s c, w.db.snapshot? s = some c → Copies w.db c

section Runs

variable {host : Host} {digest : ManifestBody → String}
  {headDigest : List (ClaimId × Head) → String}

/-- Everything runs under the snapshots the online lane puts in force, and a change of the
evidence takes no claim back whose current head has been copied to a candidate that is
frozen at the present revision. -/
def SparesCopies (w : World) (e : SystemEvent) : Prop :=
  e ≠ .publishOffline ∧ ∀ x ∈ w.requeued e, ∀ s c, w.db.snapshot? s = some c →
    c.state ∈ earlyStates → c.baseSnapshotId = some w.db.effective →
    c.cohortRevision = some w.db.know.revision → ∀ a st,
    w.db.know.heads x w.db.effective = some (.current a st) →
    w.db.know.heads x c.id ≠ some (.current a st)

theorem Initial.carries {w : World} (h : w.Initial) : w.Carries := by
  obtain ⟨r, hr, hid, hst, hcohort, -⟩ := h.snapshots
  have hlate : r.state ∉ earlyStates := by simp [hst, earlyStates]
  refine ⟨h.rowed, ⟨r, ?_, hlate⟩, ?_, ?_, ?_⟩
  · simp [MemoryDb.snapshot?, hr, hid]
  · intro s hs
    rw [h.sessions] at hs
    cases hs
  · intro f hf
    rw [h.finalizing] at hf
    cases hf
  · intro s c hc
    rw [MemoryDb.snapshot?, hr] at hc
    have hmem := List.mem_of_find?_eq_some hc
    rw [List.mem_singleton.mp hmem]
    refine ⟨fun hearly => absurd hearly hlate, ?_⟩
    intro revision hsome
    rw [hcohort] at hsome
    cases hsome

/-- A candidate is not the snapshot in force. -/
theorem released_ne {db : MemoryDb} {s : SnapshotId} {c : ConfigSnapshot} (h : db.Released s)
    (hc : db.snapshot? c.id = some c) (hearly : c.state ∈ earlyStates) : c.id ≠ s := by
  intro heq
  obtain ⟨c', hc', hst⟩ := h
  rw [heq, hc'] at hc
  rw [Option.some.inj hc] at hst
  exact hst hearly

/-- A step that keeps rows and pointer, adds no head where there was none before the cohort,
and keeps the copies as long as the revision stays. -/
theorem Carries.next {w w' : World} (h : w.Carries) (hrowed : w'.Rowed)
    (hsnapshots : w'.db.snapshots = w.db.snapshots)
    (heffective : w'.db.effective = w.db.effective)
    (hpins : ∀ s ∈ w'.sessions, s.pin = w.db.effective ∨ ∃ s' ∈ w.sessions, s'.pin = s.pin)
    (hactive : ∀ f, w'.finalizing = some f →
      w.finalizing = some f ∨ f.active = w.db.effective)
    (hnone : ∀ s c, w.db.snapshot? s = some c → c.state ∈ earlyStates → w.db.Headless c.id →
      w'.db.Headless c.id)
    (hle : w.db.know.revision ≤ w'.db.know.revision)
    (hkeep : w'.db.know.revision = w.db.know.revision → ∀ s c, w.db.snapshot? s = some c →
      c.cohortRevision = some w.db.know.revision → CopiesBase c w.db → CopiesBase c w'.db) :
    w'.Carries := by
  have hreleased : ∀ s, w.db.Released s → w'.db.Released s := by
    intro s ⟨c, hc, hst⟩
    exact ⟨c, by rwa [MemoryDb.snapshot?, hsnapshots], hst⟩
  refine ⟨hrowed, ?_, ?_, ?_, ?_⟩
  · rw [heffective]
    exact hreleased _ h.effective
  · intro s hs
    rcases hpins s hs with heq | ⟨s', hs', heq⟩
    · rw [heq]
      exact hreleased _ h.effective
    · rw [← heq]
      exact hreleased _ (h.pins s' hs')
  · intro f hf
    rcases hactive f hf with hold | heq
    · exact hreleased _ (h.active f hold)
    · rw [heq]
      exact hreleased _ h.effective
  · intro s c hc
    rw [MemoryDb.snapshot?, hsnapshots] at hc
    obtain ⟨hempty, hcopied⟩ := h.copies s c hc
    refine ⟨fun hearly hcohort => hnone s c hc hearly (hempty hearly hcohort), ?_⟩
    intro revision hsome
    refine ⟨Nat.le_trans (hcopied revision hsome).le hle, fun heq => ?_⟩
    have hbound := (hcopied revision hsome).le
    have hsame : w'.db.know.revision = w.db.know.revision := by omega
    have hnow : w.db.know.revision = revision := by omega
    exact hkeep hsame s c hc (by rw [hsome, hnow]) ((hcopied revision hsome).holds hnow)

/-- A step that keeps the heads, or moves the revision. -/
theorem Carries.announced {w w' : World} (h : w.Carries) (hrowed : w'.Rowed)
    (hsnapshots : w'.db.snapshots = w.db.snapshots)
    (heffective : w'.db.effective = w.db.effective)
    (hpins : ∀ s ∈ w'.sessions, s.pin = w.db.effective ∨ ∃ s' ∈ w.sessions, s'.pin = s.pin)
    (hactive : ∀ f, w'.finalizing = some f →
      w.finalizing = some f ∨ f.active = w.db.effective)
    (hnone : ∀ s c, w.db.snapshot? s = some c → c.state ∈ earlyStates → w.db.Headless c.id →
      w'.db.Headless c.id)
    (hannounces : Knowledge.Announces w.db.know w'.db.know) : w'.Carries := by
  refine h.next hrowed hsnapshots heffective hpins hactive hnone hannounces.le ?_
  intro heq s c hc hcohort hcopies
  rcases hannounces with ⟨hheads, -⟩ | hlt
  · intro hearly hbase x a e hx
    rw [heffective] at hbase ⊢
    rw [hheads] at hx ⊢
    exact hcopies hearly hbase x a e hx
  · omega

/-- The copies where the heads stay: only the row and the revision move. -/
theorem Carries.copies_of_heads {w : World} {db : MemoryDb} {e : LaneEvent} (h : w.Carries)
    (hopen : w.laneOpen e) (hchange : MemoryDb.LaneChange w.db e db)
    (hheads : db.know.heads = w.db.know.heads) {s : SnapshotId} {c : ConfigSnapshot}
    (hc : db.snapshot? s = some c) : Copies db c := by
  have hmoved : (db.effective = w.db.effective ∧ w.db.know.revision ≤ db.know.revision) ∨
      w.db.know.revision < db.know.revision := by
    rcases hchange.effective with hsame | ⟨x, -, -, -, -, -, hrev⟩
    · exact .inl hsame
    · exact .inr (by omega)
  have hfact : ∀ {old : ConfigSnapshot}, old.id = c.id →
      c.baseSnapshotId = old.baseSnapshotId → (c.state ∈ earlyStates → old.state ∈ earlyStates) →
      db.effective = w.db.effective → CopiesBase old w.db → CopiesBase c db := by
    intro old hold hbase hback heffective hcopies hearly hin x a st hx
    rw [hheads] at hx ⊢
    rw [heffective] at hin ⊢
    exact hcopies (hback hearly) (hbase.symm.trans hin) x a st (by rwa [hold])
  have hnext : ∀ {old : ConfigSnapshot} {revision : Nat}, old.id = c.id →
      c.baseSnapshotId = old.baseSnapshotId → (c.state ∈ earlyStates → old.state ∈ earlyStates) →
      AsOf (·.know.revision) (CopiesBase old) revision w.db →
      AsOf (·.know.revision) (CopiesBase c) revision db := by
    intro old revision hold hbase hback hasOf
    rcases hmoved with ⟨heffective, hle⟩ | hlt
    · exact hasOf.next hle fun _ => hfact hold hbase hback heffective
    · exact hasOf.moved hlt
  cases hchange.origin hc with
  | requested q he hnone hcohort hsha hbase =>
    refine ⟨fun _ _ x => ?_, by simp [hcohort]⟩
    rw [hheads]
    -- a fresh id has no head: every head has its claim row
    have hfresh : w.isFresh c.id := by
      rw [he] at hopen
      exact hopen
    simp only [isFresh, decide_eq_true_eq] at hfresh
    by_contra hne
    obtain ⟨claim, hclaim⟩ := Option.isSome_iff_exists.mp (h.rowed.rows x c.id hne)
    have hmem := List.mem_of_find?_eq_some hclaim
    have hhead := List.all_eq_true.mp hfresh.2.1 claim hmem
    rw [MemoryDb.claim?_id hclaim] at hhead
    exact hne (by simpa using hhead)
  | moved old hold hbase hback hseal =>
    have holdid := MemoryDb.snapshot?_id hold
    obtain ⟨hempty, hcopied⟩ := h.copies _ old hold
    have hheadless : w.db.Headless old.id → db.Headless c.id := by
      intro hnone x
      rw [hheads, ← holdid]
      exact hnone x
    have hsealed : c.cohortRevision = old.cohortRevision → Copies db c := by
      intro hrev
      refine ⟨fun hearly hcohort => hheadless (hempty (hback hearly) (by rwa [← hrev])), ?_⟩
      intro revision hsome
      rw [hrev] at hsome
      exact hnext holdid hbase hback (hcopied revision hsome)
    cases hseal with
    | kept hrev hexpected hsha => exact hsealed hrev
    | frozen hnone hrev hexpected hsha =>
      refine ⟨fun _ hcohort => (by rw [hrev] at hcohort; cases hcohort), ?_⟩
      intro revision hsome
      obtain rfl : w.db.know.revision = revision := Option.some.inj (hrev.symm.trans hsome)
      refine ⟨?_, fun _ hearly hin x a st hx => ?_⟩
      · rcases hmoved with ⟨-, hle⟩ | hlt
        · exact hle
        · exact hlt.le
      · rw [hheadless (hempty (hback hearly) hnone) x] at hx
        cases hx
    | verified now r he hr hnow hlen hrev hexpected => exact hsealed hrev

/-- The copies after a preparation, which copies the heads of the base to the candidate. -/
theorem Carries.copies_of_prepare {w : World} {now n size : Nat} {r : Runner}
    {cand base : ConfigSnapshot} {batch : List Claim} (h : w.Carries)
    (hopen : w.laneOpen (.prepare now r n size)) (hr : r.candidate = cand.id)
    (hcand : w.db.snapshot? cand.id = some cand) (hst : cand.state ∈ MemoryDb.preparing)
    (hbase : cand.baseSnapshotId = some base.id) {s : SnapshotId} {c : ConfigSnapshot}
    (hc : w.db.snapshot? s = some c) :
    Copies (w.db.withKnow (batch.foldl (MemoryDb.prepareClaim base cand) w.db.know)) c := by
  have hcandEarly : cand.state ∈ earlyStates := List.mem_cons_of_mem _ hst
  have hne := released_ne h.effective hcand hcandEarly
  have hrev :
      (w.db.withKnow (batch.foldl (MemoryDb.prepareClaim base cand) w.db.know)).know.revision =
        w.db.know.revision := MemoryDb.prepareClaims_revision base cand batch w.db.know
  obtain ⟨hempty, hcopied⟩ := h.copies s c hc
  by_cases heq : c.id = cand.id
  · obtain rfl : c = cand := by
      rw [← MemoryDb.snapshot?_id hc, heq, hcand] at hc
      exact (Option.some.inj hc).symm
    have hfrozen : c.cohortRevision.isSome := by
      have hany : (w.db.snapshot? r.candidate).any fun c => c.cohortRevision.isSome := hopen
      rw [hr, hcand] at hany
      simpa using hany
    refine ⟨fun _ hcohort => by simp [hcohort] at hfrozen, ?_⟩
    intro revision hsome
    refine (hcopied revision hsome).next hrev.ge fun _ hcopies hearly hin x a st hx => ?_
    have hbaseid : base.id = w.db.effective := Option.some.inj (hbase.symm.trans hin)
    show (batch.foldl (MemoryDb.prepareClaim base c) w.db.know).heads x w.db.effective = _
    rw [MemoryDb.prepareClaims_other hne.symm]
    rcases MemoryDb.prepareClaims_current (by rw [hbaseid]; exact hne.symm) hx with hcur | hcur
    · rwa [hbaseid] at hcur
    · exact hcopies hearly hin x a st hcur
  · have hsame : ∀ x, (batch.foldl (MemoryDb.prepareClaim base cand) w.db.know).heads x c.id =
        w.db.know.heads x c.id := MemoryDb.prepareClaims_other heq batch w.db.know
    refine ⟨fun hearly hcohort x => (hsame x).trans (hempty hearly hcohort x), ?_⟩
    intro revision hsome
    refine (hcopied revision hsome).next hrev.ge fun _ hcopies hearly hin x a st hx => ?_
    show (batch.foldl (MemoryDb.prepareClaim base cand) w.db.know).heads x w.db.effective = _
    rw [MemoryDb.prepareClaims_other hne.symm]
    exact hcopies hearly hin x a st ((hsame x).symm.trans hx)

/-- The copies after a step of the lane. -/
theorem Carries.lane_copies {w : World} {db : MemoryDb} {e : LaneEvent} (h : w.Carries)
    (hopen : w.laneOpen e) (hchange : MemoryDb.LaneChange w.db e db) {s : SnapshotId}
    {c : ConfigSnapshot} (hc : db.snapshot? s = some c) : Copies db c := by
  rcases hchange.heads with hheads | ⟨now, r, cand, base, batch, n, size, rfl, hr, hcand, hst,
    hbase, rfl⟩
  · exact h.copies_of_heads hopen hchange hheads hc
  · exact h.copies_of_prepare hopen hr hcand hst hbase hc

/-- A step of the lane. -/
theorem Carries.lane {w : World} {db : MemoryDb} {e : LaneEvent} (h : w.Carries)
    (hopen : w.laneOpen e) (hchange : MemoryDb.LaneChange w.db e db)
    (hrowed : (w.withDb db).Rowed) : (w.withDb db).Carries where
  rowed := hrowed
  effective := by
    show db.Released db.effective
    rcases hchange.effective with ⟨heffective, -⟩ | ⟨c, hc, hst, hready, heffective, -, -⟩
    · rw [heffective]
      exact h.effective.lane hchange
    · rw [heffective]
      exact hchange.released hc hst hready heffective
  pins := fun s hs => (h.pins s hs).lane hchange
  active := fun f hf => (h.active f hf).lane hchange
  copies := fun _ _ hc => h.lane_copies hopen hchange hc

/-- **The step lemma.** -/
theorem Carries.step {w w' : World} {e : SystemEvent} (h : w.Carries) (hspares : w.SparesCopies e)
    (hstep : w.systemStep host digest headDigest e = some w') : w'.Carries := by
  have hrowed := h.rowed.step hstep
  have hpins : ∀ s ∈ w.sessions, s.pin = w.db.effective ∨ ∃ s' ∈ w.sessions, s'.pin = s.pin :=
    PinsFrom.same w
  cases systemStep_change hstep with
  | refused => exact h
  | lane e db hopen hlane => exact h.lane hopen (MemoryDb.laneStep_change hlane) hrowed
  | worker e =>
    have htouch := @MemoryDb.workerStep_touches host.parseDay host.parseTime host.readers w.db e
    have hsettles := @MemoryDb.workerStep_settles host.parseDay host.parseTime host.readers w.db e
    exact h.announced hrowed htouch.snapshots htouch.effective hpins (fun _ hf => .inl hf)
      (fun _ _ _ _ hnone x => hsettles.none (hnone x)) hsettles.announces
  | cascade e cw hedges hhead hflip hcall =>
    obtain ⟨hgraph, hannounces, cs, hinv⟩ :=
      (cascadeStep_change hedges hhead hflip hcall).invalidates
    exact h.announced hrowed rfl hgraph.effective hpins (fun _ hf => .inl hf)
      (fun _ _ _ _ hnone x => hinv.none (hnone x)) hannounces
  | requeued e db hreq =>
    have heffective : db.effective = w.db.effective :=
      (congrArg CascadeDb.effective hreq.cascade :)
    refine h.next hrowed hreq.snapshots heffective hpins (fun _ hf => .inl hf)
      (fun _ _ _ _ hnone x => hreq.know.none (hnone x)) hreq.revision.ge ?_
    intro _ s c hc hcohort hcopies hearly hbase x a st hx
    have hbase' : c.baseSnapshotId = some w.db.effective := by
      rw [hbase]
      exact congrArg some heffective
    have hrow : w.db.snapshot? c.id = some c := by rwa [MemoryDb.snapshot?_id hc]
    have hne := released_ne h.effective hrow hearly
    have hx' : db.know.heads x c.id = some (.current a st) := hx
    rw [hreq.know.heads, if_neg fun hin => hne hin.2] at hx'
    have hcur := hcopies hearly hbase' x a st hx'
    show db.know.heads x db.effective = _
    rw [heffective, hreq.know.heads]
    split
    · rename_i hin
      exact absurd hx' (hspares.2 x hin.1 s c hc hearly hbase' hcohort a st hcur)
    · exact hcur
  | sessions e ss fin hpins' hfin =>
    exact h.announced hrowed rfl rfl hpins' (fun f hf => .inl (hfin f hf))
      (fun _ _ _ _ hnone => hnone) (.refl _)
  | began e f hactive hnone =>
    refine h.announced hrowed rfl rfl hpins ?_ (fun _ _ _ _ hnone => hnone) (.refl _)
    intro f' hf
    obtain rfl : f = f' := Option.some.inj hf
    exact .inr hactive
  | committed f s w' hf hs hcommit =>
    have hset : ∀ t : WorldSession, t.pin = s.pin →
        PinsFrom w (w.sessions.set f.session t) := fun t ht => PinsFrom.set hs ht
    obtain ⟨-, rfl | ⟨db, res, hok, rfl⟩⟩ := commitFinalize_cases hcommit
    · exact h.announced hrowed rfl rfl (hset _ rfl) (fun _ hf => by cases hf)
        (fun _ _ _ _ hnone => hnone) (.refl _)
    · obtain ⟨created, hcommits, -⟩ := MemoryDb.commitMemory_commits hok
      refine h.announced hrowed hcommits.snapshots hcommits.effective (hset _ rfl)
        (fun _ hf => by cases hf) ?_ (.inr ?_)
      · intro t c hc hearly hnone x
        have hrow : w.db.snapshot? c.id = some c := by rwa [MemoryDb.snapshot?_id hc]
        have hpin := released_ne (h.pins s (List.mem_of_getElem? hs)) hrow hearly
        have hactive := released_ne (h.active f hf) hrow hearly
        show db.know.heads x c.id = none
        rcases hcommits.heads x c.id with heq | ⟨heq, -⟩ | ⟨heq, -⟩
        · rw [heq]
          exact hnone x
        · exact absurd heq hpin
        · exact absurd heq hactive
      · show w.db.know.revision < db.know.revision + 1
        rw [hcommits.revision]
        omega
  | offlineRead id q run hfresh hnone hread =>
    exact h.announced hrowed rfl rfl hpins (fun _ hf => .inl hf) (fun _ _ _ _ hn => hn) (.refl _)
  | offlineVerified run run' hrun hcandidate hheads =>
    exact h.announced hrowed rfl rfl hpins (fun _ hf => .inl hf) (fun _ _ _ _ hn => hn) (.refl _)
  | offlineDropped e =>
    exact h.announced hrowed rfl rfl hpins (fun _ hf => .inl hf) (fun _ _ _ _ hn => hn) (.refl _)
  | offlinePublished run db hrun hpublish => exact absurd rfl hspares.1

/-- A successful flip puts copies of current heads in force. -/
theorem Carries.flip {w w' : World} {e : LaneEvent} (h : w.Carries)
    (hstep : w.systemStep host digest headDigest (.lane e) = some w')
    (hmoved : w'.db.effective ≠ w.db.effective) {x : ClaimId} {a : AssessmentId}
    {st : EpistemicStatus} (hx : w'.db.know.heads x w'.db.effective = some (.current a st)) :
    w.db.know.heads x w.db.effective = some (.current a st) := by
  cases systemStep_change hstep with
  | refused => exact absurd rfl hmoved
  | lane e db hopen hlane =>
    have hx' : db.know.heads x db.effective = some (.current a st) := hx
    rcases (MemoryDb.laneStep_change hlane).effective with
      ⟨hsame, -⟩ | ⟨c, hc, hst, hready, heffective, hheads, -⟩
    · exact absurd hsame hmoved
    · rw [heffective, hheads] at hx'
      have hearly : c.state ∈ earlyStates := by simp [hst, earlyStates]
      obtain ⟨hempty, hcopied⟩ := h.copies c.id c hc
      cases hcohort : c.cohortRevision with
      | none =>
        rw [hempty hearly hcohort x] at hx'
        cases hx'
      | some revision =>
        have hrev := hready.revision
        rw [hcohort] at hrev
        exact (hcopied revision hcohort).holds hrev hearly hready.base x a st hx'
  | requeued e db hreq =>
    exact absurd (congrArg CascadeDb.effective hreq.cascade :) hmoved
  | sessions e ss fin hpins hfin => exact absurd rfl hmoved
  | began e f hactive hnone => exact absurd rfl hmoved
  | offlineDropped e => exact absurd rfl hmoved

variable (host digest headDigest)

/-- The event completes a reassessment of the claim: it makes its head current. -/
def Reassesses (x : ClaimId) (base : SnapshotId) (w : World) (e : SystemEvent) : Prop :=
  ∃ w', w.systemStep host digest headDigest e = some w' ∧
    w.db.know.heads.state x base ≠ some .current ∧ w'.db.know.heads.state x base = some .current

variable {host digest headDigest}

/-- **No invalidation is lost across a flip**, in any run in which the changes of the
evidence spare the copies. The claim `x` goes from current to `pending` under the base, no
reassessment of it completes, and the flip succeeds: its head under the candidate, now in
force, is not current. -/
theorem invalidation_survives_flip {w₀ w w₁ w₂ w₃ : World} {e : SystemEvent} {flip : LaneEvent}
    {x : ClaimId} {base : SnapshotId} (h₀ : w₀.Initial)
    (hbefore : Run (systemStep host digest headDigest) SparesCopies w₀ w)
    (hinvalidates : w.SparesCopies e ∧ w.systemStep host digest headDigest e = some w₁)
    (hpending : w.db.know.heads.state x base = some .current ∧
      w₁.db.know.heads x base = some .pending)
    (hafter : Run (systemStep host digest headDigest) (fun w e => w.SparesCopies e ∧
      ¬ Reassesses host digest headDigest x base w e) w₁ w₂)
    (hbase : w₂.db.effective = base)
    (hflip : w₂.systemStep host digest headDigest (.lane flip) = some w₃)
    (hmoved : w₃.db.effective ≠ base) :
    w₃.db.know.heads.state x w₃.db.effective ≠ some .current := by
  have hcarries₁ : w₁.Carries :=
    (hbefore.invariant (I := Carries) h₀.carries fun h hg hs => h.step hg hs).step
      hinvalidates.1 hinvalidates.2
  have hcarries₂ : w₂.Carries :=
    hafter.invariant (I := Carries) hcarries₁ fun h hg hs => h.step hg.1 hs
  have hstays : w₂.db.know.heads.state x base ≠ some .current := by
    refine hafter.invariant (I := fun w => w.db.know.heads.state x base ≠ some .current) ?_ ?_
    · simp [Heads.state, hpending.2, Head.state]
    · intro a b e ha hg hs hb
      exact hg.2 ⟨b, hs, ha, hb⟩
  intro hcur
  obtain ⟨a, st, hx⟩ := Knowledge.state_eq_current.mp hcur
  have hx₂ := hcarries₂.flip hflip (by rwa [hbase]) hx
  rw [hbase] at hx₂
  exact hstays (Knowledge.state_eq_current.mpr ⟨a, st, hx₂⟩)

end Runs

end World

/-! ## A copied head -/

/-- An activation of the request, up to its first publish transaction. -/
def publishing (q : ConfigRequest) : List SystemEvent :=
  [.lane (.request 1 q), .lane (.drain 1 100 1 "runner"), .lane (.confirm 2 sealedRunner),
    .lane (.freeze 2 sealedRunner), .lane (.prepare 2 sealedRunner 0 50),
    .lane (.verify 3 sealedRunner), .lane (.publish 4 sealedRunner)]

/-- A request with another rule for facts. -/
def datedRequest : ConfigRequest :=
  { requestOf "dated" datedRules with ruleDigests := fun _ => some "dated" }

theorem invalidation_survives_flip_dated : ∃ w₁ w₃,
    exec plainSystem pageWorld (reportedCommit ++ publishing datedRequest ++
      [.sourceGraph (mergedPages reportedWorld) [1, 2]]) = some w₁ ∧
    plainSystem w₁ (.lane (.flip 5 sealedRunner)) = some w₃ ∧ w₃.db.effective = 1 ∧
    w₃.db.know.heads.state 1 w₃.db.effective ≠ some .current := by
  refine ⟨_, _, rfl, rfl, rfl, ?_⟩
  have hbefore := @Run.of_exec_guarded _ _ plainSystem World.SparesCopies pageWorld _
    (reportedCommit ++ publishing datedRequest) rfl (by
      intro e he a
      fin_cases he <;> exact ⟨nofun, nofun⟩)
  have hspares : ∀ w : World, exec plainSystem pageWorld
      (reportedCommit ++ publishing datedRequest) = some w →
      w.SparesCopies (.sourceGraph (mergedPages reportedWorld) [1, 2]) := by
    intro w hw
    cases hw
    refine ⟨nofun, fun x hx s c hc hearly hbase hcohort a st _ hcopy => ?_⟩
    have hmem := List.mem_of_find?_eq_some hc
    fin_cases hmem
    · cases hbase
    · fin_cases hx
      cases hcopy
  exact @World.invalidation_survives_flip plainHost sizeDigest (fun _ => "heads") pageWorld _ _ _
    _ _ (.flip 5 sealedRunner) 1 0 pageWorld_initial hbefore ⟨hspares _ rfl, rfl⟩ ⟨rfl, rfl⟩
    .nil rfl rfl (by decide)

/-- The rule is the same, so the head was copied as current. The change of the source graph
does not move the revision, and the flip puts the copy in force. -/
theorem invalidation_lost : ¬ ∀ (host : Host) (digest : ManifestBody → String)
    (headDigest : List (ClaimId × Head) → String) (w₀ w w₁ w₂ w₃ : World) (e : SystemEvent)
    (flip : LaneEvent) (x : ClaimId) (base : SnapshotId) (a : AssessmentId)
    (st : EpistemicStatus), w₀.Initial →
    Run (World.systemStep host digest headDigest) anyStep w₀ w →
    w.systemStep host digest headDigest e = some w₁ →
    w.db.know.heads x base = some (.current a st) → w₁.db.know.heads x base = some .pending →
    Run (World.systemStep host digest headDigest) (fun w e => e ≠ .publishOffline ∧
      ¬ World.Reassesses host digest headDigest x base w e) w₁ w₂ →
    w₂.db.effective = base → w₂.systemStep host digest headDigest (.lane flip) = some w₃ →
    w₃.db.effective ≠ base →
    w₃.db.know.heads x w₃.db.effective ≠ some (.current a st) := by
  intro hall
  have hbefore := @Run.of_exec _ _ plainSystem pageWorld _
    (reportedCommit ++ publishing (requestOf "again" factRules)) rfl
  exact hall plainHost sizeDigest (fun _ => "heads") pageWorld _ _ _ _
    (.sourceGraph (mergedPages reportedWorld) [1, 2]) (.flip 5 sealedRunner) 1 0 0 .hypothesis
    pageWorld_initial
    hbefore rfl rfl rfl .nil rfl rfl (by decide) rfl

end Noezema.Memory
