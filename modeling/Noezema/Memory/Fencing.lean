import Noezema.Lib.Run
import Noezema.Memory.OnlineChange

/-! # Fencing

Any number of runs of the driver, the repair and everything else, interleaved. A claim of
the slot mints a fence; `SlotChange` lists what a transaction can do to the slot, the
pointer and the states of the candidates.
-/

namespace Noezema.Memory

open Noezema.Lib

/-- One run of `run_online_change`. -/
structure ChangeRun where
  q : ConfigRequest
  o : ChangeOptions
  phase : ChangePhase

structure ActivationWorld where
  db : MemoryDb
  runs : List ChangeRun

inductive ActivationEvent where
  | start (q : ConfigRequest) (o : ChangeOptions)
  | tick (i : Nat) (t : ChangeTick)
  | fault (i : Nat)
  | repair (now : Nat) (candidate : SnapshotId) (batchSize : Nat)
  | repairFailed (candidate : SnapshotId) (permanent : Bool) (retryAt : Nat)
  /-- Whatever else writes the memory. -/
  | elsewhere (other : MemoryDb)

/-- The unsuccessful ends of a candidate. -/
def unsuccessful : List ActivationState := [.failed, .superseded]

namespace MemoryDb

/-- The memory of `other`, with the snapshots, the slot and the pointer of `db`. -/
def elsewhere (db other : MemoryDb) : MemoryDb :=
  { other with
    snapshots := db.snapshots
    head := db.head
    cascade := { other.cascade with effective := db.effective } }

end MemoryDb

namespace ActivationWorld

/-- One event. -/
def activationStep (digest : List (ClaimId × Head) → String) (w : ActivationWorld) :
    ActivationEvent → Option ActivationWorld
  | .start q o => some { w with runs := w.runs ++ [⟨q, o, .upsert⟩] }
  | .tick i t => (w.runs[i]?).map fun run =>
      let p := w.db.changeStep digest run.q run.o t run.phase
      { db := p.1, runs := w.runs.set i { run with phase := p.2 } }
  | .fault i => (w.runs[i]?).map fun run =>
      { w with runs := w.runs.set i { run with phase := run.phase.fault } }
  | .repair now candidate batchSize =>
    some { w with
      db := w.db.commit ((w.db.runActivationRepair now candidate batchSize).map Prod.fst) }
  | .repairFailed candidate permanent retryAt =>
    some { w with db := w.db.commit (w.db.repairFailed candidate permanent retryAt) }
  | .elsewhere other => some { w with db := w.db.elsewhere other }

/-- **When a step does no harm.** The cleanup finds the slot taken, and does not find its
candidate effective while it holds the slot; the drain finds the slot taken when its
candidate has failed; the repair closes no candidate that holds the slot. -/
def orderly (w : ActivationWorld) : ActivationEvent → Bool
  | .tick i t =>
    (w.runs[i]?).all fun run =>
      match run.phase with
      | .cleanup r _ =>
        w.db.head.activating ≠ none ∧
          (w.db.tupleOk t.now r.candidate r.fence r.owner → w.db.effective ≠ r.candidate)
      | .drain c => w.db.inState c unsuccessful → w.db.head.activating ≠ none
      | _ => true
  | .repair _ candidate _ =>
    w.db.inState candidate [.postPublishBlocked] ∧ w.db.effective ≠ candidate →
      w.db.head.activating ≠ some candidate
  | _ => true

end ActivationWorld

namespace MemoryDb

/-! ## What a transaction does to the slot -/

/-- The pointer and the fence stay; the slot stays, or is cleared. -/
structure SlotKept (db db' : MemoryDb) : Prop where
  effective : db'.effective = db.effective
  fence : db'.head.fence = db.head.fence
  slot : db'.head.activating = none ∨
    (db'.head.activating = db.head.activating ∧ db'.head.leaseOwner = db.head.leaseOwner)

theorem SlotKept.refl (db : MemoryDb) : SlotKept db db := ⟨rfl, rfl, .inr ⟨rfl, rfl⟩⟩

/-- All that a transaction of a run or of the repair does to the slot, the pointer and the
states. -/
inductive SlotChange (db : MemoryDb) : MemoryDb → Prop where
  | kept (db' : MemoryDb) : db'.snapshots = db.snapshots → SlotKept db db' → SlotChange db db'
  | requested (row : ConfigSnapshot) : row.state = .draft →
      SlotChange db { db with snapshots := db.snapshots ++ [row] }
  | row (c c' : ConfigSnapshot) (db' : MemoryDb) : db.snapshot? c.id = some c → c'.id = c.id →
      (c'.state = c.state ∨ c'.state ∉ unsuccessful) →
      db'.snapshots = (db.setSnapshot c').snapshots → SlotKept db db' → SlotChange db db'
  /-- A claim of the slot. -/
  | taken (now lease : Nat) (c : ConfigSnapshot) (owner : String) :
      db.snapshot? c.id = some c →
      (c.state ∈ unsuccessful → db.head.activating = some c.id) →
      SlotChange db (db.takeSlot now lease c owner)
  /-- A candidate fails, or is closed. -/
  | closed (c c' : ConfigSnapshot) (db' : MemoryDb) : db.snapshot? c.id = some c →
      c'.id = c.id → db'.snapshots = (db.setSnapshot c').snapshots → SlotKept db db' →
      db'.head.activating ≠ some c.id → db.effective ≠ c.id → SlotChange db db'
  | flipped (now : Nat) (c : ConfigSnapshot) : db.snapshot? c.id = some c →
      db.head.activating = some c.id → db.effective ≠ c.id →
      c.baseSnapshotId = some db.effective → SlotChange db (db.moveFlip now c)

theorem SlotChange.refl (db : MemoryDb) : SlotChange db db := .kept db rfl (.refl db)

theorem publishDrain_slot {db db' : MemoryDb} {now lease : Nat} {candidate : SnapshotId}
    {owner : String} (h : db.publishDrain now lease candidate owner = .ok db')
    (hguard : db.inState candidate unsuccessful → db.head.activating ≠ none) :
    SlotChange db db' := by
  obtain ⟨c, hc, h⟩ := bind_eq_ok.mp h
  obtain ⟨hid, hrow⟩ := row_id hc
  have hin : c.state ∈ unsuccessful → db.head.activating ≠ none := by
    intro hst
    apply hguard
    simp [inState, row_ok.mp hc, hst]
  split at h
  · rename_i hnone
    cases h
    exact .taken now lease c owner hrow fun hst => absurd hnone (hin hst)
  · rename_i s hs
    split at h
    · cases h
      exact .kept _ rfl ⟨rfl, rfl, .inr ⟨rfl, rfl⟩⟩
    · split at h
      · rename_i hdead
        cases h
        refine .taken now lease c owner hrow fun _ => ?_
        rw [hs, hid, hdead.1]
      · cases h

theorem cancelDrain_slot {db db' : MemoryDb} {now : Nat} {r : Runner}
    (h : db.cancelDrain now r = .ok db') : SlotChange db db' := by
  obtain ⟨-, -, h⟩ := bind_eq_ok.mp h
  cases h
  exact .kept _ rfl ⟨rfl, rfl, .inl rfl⟩

/-- Writing a row under the head that stays. -/
theorem SlotChange.setRow {db : MemoryDb} {s : SnapshotId} {c c' : ConfigSnapshot}
    (hc : db.row s = .ok c) (hid : c'.id = c.id)
    (hst : c'.state = c.state ∨ c'.state ∉ unsuccessful) : SlotChange db (db.setSnapshot c') :=
  .row c c' _ (row_id hc).2 hid hst rfl ⟨rfl, rfl, .inr ⟨rfl, rfl⟩⟩

theorem SlotChange.manifestBatch {db : MemoryDb} {s : SnapshotId} {c : ConfigSnapshot}
    (hc : db.row s = .ok c) (n : Nat) : SlotChange db (db.manifestBatch c n).1 :=
  .row c { c with postPublishCursor := c.postPublishCursor + (db.manifestSlice c n).length } _
    (row_id hc).2 rfl (.inl rfl) rfl ⟨rfl, rfl, .inr ⟨rfl, rfl⟩⟩

theorem confirmDrain_slot {db db' : MemoryDb} {now : Nat} {r : Runner}
    (h : db.confirmDrain now r = .ok db') : SlotChange db db' := by
  obtain ⟨-, -, h⟩ := bind_eq_ok.mp h
  obtain ⟨-, -, h⟩ := bind_eq_ok.mp h
  obtain ⟨c, hc, h⟩ := bind_eq_ok.mp h
  cases h
  split
  · exact .setRow hc rfl (.inr (by simp [unsuccessful]))
  · exact .refl db

theorem freezeCohort_slot {db db' : MemoryDb} {now : Nat} {r : Runner}
    (h : db.freezeCohort now r = .ok db') : SlotChange db db' := by
  obtain ⟨-, -, h⟩ := bind_eq_ok.mp h
  obtain ⟨c, hc, h⟩ := bind_eq_ok.mp h
  cases h
  split
  · exact .refl db
  · exact .setRow hc rfl (.inr (by simp [unsuccessful]))

theorem prepareHeads_slot {db db' : MemoryDb} {now : Nat} {r : Runner} {prepared n : Nat}
    (h : db.prepareHeads now r prepared n = .ok db') : SlotChange db db' := by
  obtain ⟨c, -, h⟩ := bind_eq_ok.mp h
  obtain ⟨base, -, h⟩ := bind_eq_ok.mp h
  obtain ⟨-, -, h⟩ := bind_eq_ok.mp h
  obtain ⟨-, -, h⟩ := bind_eq_ok.mp h
  cases h
  exact .kept _ rfl ⟨rfl, rfl, .inr ⟨rfl, rfl⟩⟩

theorem verifyAndSeal_slot {digest : List (ClaimId × Head) → String} {db db' : MemoryDb}
    {now : Nat} {r : Runner} (h : db.verifyAndSeal digest now r = .ok db') :
    SlotChange db db' := by
  obtain ⟨-, -, h⟩ := bind_eq_ok.mp h
  obtain ⟨c, hc, h⟩ := bind_eq_ok.mp h
  split at h
  · cases h
    exact .refl db
  · obtain ⟨-, -, h⟩ := bind_eq_ok.mp h
    obtain ⟨-, -, h⟩ := bind_eq_ok.mp h
    cases h
    exact .setRow hc rfl (.inr (by simp [unsuccessful]))

theorem publishReady_slot {db db' : MemoryDb} {now : Nat} {r : Runner}
    (h : db.publishReady now r = .ok db') : SlotChange db db' := by
  obtain ⟨-, -, h⟩ := bind_eq_ok.mp h
  obtain ⟨c, hc, h⟩ := bind_eq_ok.mp h
  split at h
  · obtain ⟨-, -, h⟩ := bind_eq_ok.mp h
    cases h
    exact .setRow hc rfl (.inr (by simp [unsuccessful]))
  · split at h
    · cases h
      exact .refl db
    · cases h

theorem flip_slot {db db' : MemoryDb} {now : Nat} {r : Runner}
    (h : db.flip now r = .ok db') : SlotChange db db' := by
  obtain ⟨c, hc, htuple⟩ := bind_eq_ok.mp h
  obtain ⟨u, htuple, -⟩ := bind_eq_ok.mp htuple
  have hok : db.tupleOk now r.candidate r.fence r.owner = true := require_eq_ok.mp htuple
  simp only [tupleOk, decide_eq_true_eq] at hok
  rcases flip_change (row_ok.mp hc) h with ⟨rfl, -⟩ | ⟨rfl, hrow, hready⟩
  · exact .refl _
  · refine .flipped now c hrow ?_ (Ne.symm hready.other) hready.base
    rw [hok.1, (row_id hc).1]

theorem runPostPublish_slot {db db' : MemoryDb} {now : Nat} {r : Runner} {n : Nat}
    {out : BatchEnd} (h : db.runPostPublish now r n = .ok (db', out)) : SlotChange db db' := by
  obtain ⟨c, hc, h⟩ := bind_eq_ok.mp h
  split at h
  · cases h
    exact .refl db
  · split at h
    · cases h
      exact .refl db
    · split at h
      · cases h
      · split at h
        · cases h
          exact .refl db
        · split at h
          · cases h
            exact .refl db
          · split at h
            · cases h
              exact .row c { c with state := .active } _ (row_id hc).2 rfl
                (.inr (by simp [unsuccessful])) rfl ⟨rfl, rfl, .inl rfl⟩
            · have hdb := congrArg Prod.fst (Except.ok.inj h)
              rw [← show (db.manifestBatch c n).1 = db' from hdb]
              exact .manifestBatch hc n

theorem postPublishFailed_slot {db db' : MemoryDb} {now : Nat} {r : Runner} {retryAt : Nat}
    (h : db.postPublishFailed now r retryAt = .ok db') : SlotChange db db' := by
  obtain ⟨c, hc, h⟩ := bind_eq_ok.mp h
  split at h
  · simp only at h
    split at h
    · cases h
      exact .row c { c with
          state := .postPublishBlocked
          postPublishAttempts := c.postPublishAttempts + 1
          postPublishNextAttemptAt := some now } _ (row_id hc).2 rfl
        (.inr (by simp [unsuccessful])) rfl ⟨rfl, rfl, .inl rfl⟩
    · cases h
      exact .setRow hc rfl (.inl rfl)
  · cases h
    exact .refl db

theorem failActivation_slot {db db' : MemoryDb} {now : Nat} {r : Runner}
    (h : db.failActivation now r = .ok db') (htaken : db.head.activating ≠ none)
    (hbefore : db.tupleOk now r.candidate r.fence r.owner → db.effective ≠ r.candidate) :
    SlotChange db db' := by
  obtain ⟨_, hslot, h⟩ := bind_eq_ok.mp h
  obtain ⟨c, hc, h⟩ := bind_eq_ok.mp h
  cases h
  have hok := (require_eq_ok.mp hslot).resolve_left htaken
  refine .closed c { c with state := .failed } _ (row_id hc).2 rfl rfl ⟨rfl, rfl, .inl rfl⟩ (by simp [clearSlot]) ?_
  rw [(row_id hc).1]
  exact hbefore hok

theorem runActivationRepair_slot {db db' : MemoryDb} {now : Nat} {candidate : SnapshotId}
    {n : Nat} {out : BatchEnd} (h : db.runActivationRepair now candidate n = .ok (db', out))
    (hguard : db.inState candidate [.postPublishBlocked] ∧ db.effective ≠ candidate →
      db.head.activating ≠ some candidate) : SlotChange db db' := by
  obtain ⟨c, hc, h⟩ := bind_eq_ok.mp h
  obtain ⟨hid, hrow⟩ := row_id hc
  split at h
  · rename_i hmoved
    cases h
    split
    · rename_i hblocked
      have hfree := hguard ⟨by simp [inState, row_ok.mp hc, hblocked], hmoved⟩
      rw [← hid] at hfree hmoved
      exact .closed c { c with state := .superseded } _ hrow rfl rfl
        ⟨rfl, rfl, .inr ⟨rfl, rfl⟩⟩ hfree hmoved
    · exact .refl db
  · split at h
    · cases h
      exact .refl db
    · split at h
      · cases h
        exact .setRow hc rfl (.inr (by simp [unsuccessful]))
      · have hdb := congrArg Prod.fst (Except.ok.inj h)
        rw [← show (db.manifestBatch c n).1 = db' from hdb]
        exact .manifestBatch hc n

theorem repairFailed_slot {db db' : MemoryDb} {candidate : SnapshotId} {permanent : Bool}
    {retryAt : Nat} (h : db.repairFailed candidate permanent retryAt = .ok db') :
    SlotChange db db' := by
  obtain ⟨c, hc, h⟩ := bind_eq_ok.mp h
  split at h
  · cases h
    exact .setRow hc rfl (.inl rfl)
  · cases h
    exact .refl db

theorem upsertOnlineCandidate_slot (db : MemoryDb) (id : SnapshotId) (q : ConfigRequest) :
    SlotChange db (db.upsertOnlineCandidate id q) := by
  unfold upsertOnlineCandidate
  simp only
  split
  · exact .refl db
  · exact .requested _ rfl

/-! ## A step of the driver -/

theorem after_cases {α : Type} {db : MemoryDb} {tx : Except ActivationError α}
    {raised : ChangeError → ChangePhase} {next : α → MemoryDb × ChangePhase}
    {P : MemoryDb × ChangePhase → Prop} (herror : ∀ e, tx = .error e → P (db, raised (.step e)))
    (hok : ∀ a, tx = .ok a → P (next a)) : P (db.after tx raised next) := by
  unfold after
  cases htx : tx with
  | ok a => exact hok a htx
  | error e => exact herror e htx

/-- What a transaction commits is the database of the step. -/
theorem after_slot {α : Type} {db : MemoryDb} {tx : Except ActivationError α}
    {raised : ChangeError → ChangePhase} {next : α → MemoryDb × ChangePhase}
    (hok : ∀ a, tx = .ok a → SlotChange db (next a).1) :
    SlotChange db (db.after tx raised next).1 :=
  after_cases (P := fun p => SlotChange db p.1) (fun _ _ => .refl db) hok

/-- **What a transaction of the driver does to the slot.** -/
theorem changeStep_slot {digest : List (ClaimId × Head) → String} {q : ConfigRequest}
    {o : ChangeOptions} {db : MemoryDb} {t : ChangeTick} {phase : ChangePhase}
    (hcleanup : ∀ r e, phase = .cleanup r e → db.head.activating ≠ none ∧
      (db.tupleOk t.now r.candidate r.fence r.owner → db.effective ≠ r.candidate))
    (hdrain : ∀ c, phase = .drain c → db.inState c unsuccessful → db.head.activating ≠ none) :
    SlotChange db (db.changeStep digest q o t phase).1 := by
  cases phase with
  | upsert =>
    simp only [changeStep]
    split
    · exact .refl db
    · split
      · exact .refl db
      · exact upsertOnlineCandidate_slot db t.id q
  | early c => exact after_slot fun _ _ => .refl db
  | slot c early => exact .refl db
  | drain c => exact after_slot fun _ h => publishDrain_slot h (hdrain c rfl)
  | drained r => exact after_slot fun _ _ => .refl db
  | wait r => exact after_slot fun _ _ => .refl db
  | cancel r e => exact after_slot fun _ h => cancelDrain_slot h
  | confirm r =>
    simp only [changeStep]
    split
    · exact after_slot fun _ h => confirmDrain_slot h
    · exact .refl db
  | resume r => exact after_slot fun _ _ => .refl db
  | freeze r => exact after_slot fun _ h => freezeCohort_slot h
  | prepare r prepared =>
    refine after_slot fun _ _ => ?_
    split
    · exact .refl db
    · exact after_slot fun _ h => prepareHeads_slot h
  | verify r => exact after_slot fun _ h => verifyAndSeal_slot h
  | sealed r => exact after_slot fun _ _ => .refl db
  | publish r => exact after_slot fun _ h => publishReady_slot h
  | flip r => exact after_slot fun _ h => flip_slot h
  | gate r =>
    simp only [changeStep]
    split
    · exact .refl db
    · exact after_slot fun _ _ => .refl db
  | postPublish r n =>
    cases n with
    | zero => exact after_slot fun _ _ => .refl db
    | succ n => exact after_slot fun p h => runPostPublish_slot h
  | backoff r e => exact after_slot fun _ h => postPublishFailed_slot h
  | handler r e => exact after_slot fun _ _ => .refl db
  | cleanup r e =>
    obtain ⟨htaken, hbefore⟩ := hcleanup r e rfl
    exact after_slot fun _ h => failActivation_slot h htaken hbefore
  | returned c state => exact .refl db
  | raised e => exact .refl db

/-! ## The pointers -/

/-- Neither pointer of the runtime head is on a candidate that failed or was
superseded. -/
def PointsToLive (db : MemoryDb) : Prop :=
  ∀ s c, db.snapshot? s = some c → c.state ∈ unsuccessful →
    db.head.activating ≠ some s ∧ db.effective ≠ s

/-- A cleared slot points to nothing. -/
theorem SlotKept.points {db db' : MemoryDb} (h : SlotKept db db') {s : SnapshotId}
    (hs : db.head.activating ≠ some s ∧ db.effective ≠ s) :
    db'.head.activating ≠ some s ∧ db'.effective ≠ s := by
  refine ⟨?_, by rw [h.effective]; exact hs.2⟩
  rcases h.slot with hnone | ⟨hsame, -⟩
  · simp [hnone]
  · rw [hsame]
    exact hs.1

theorem snapshot?_congr {db db' : MemoryDb} (h : db'.snapshots = db.snapshots)
    (s : SnapshotId) : db'.snapshot? s = db.snapshot? s := by
  simp only [snapshot?, h]

/-- The rows after the write of one. -/
theorem snapshot?_of_set {db db' : MemoryDb} {row c : ConfigSnapshot} {s : SnapshotId}
    (h : db'.snapshots = (db.setSnapshot row).snapshots) (hc : db'.snapshot? s = some c) :
    (s = row.id ∧ c = row ∧ (db.snapshot? s).isSome) ∨
      (s ≠ row.id ∧ db.snapshot? s = some c) := by
  rw [snapshot?_congr h, snapshot?_setSnapshot] at hc
  by_cases hs : s = row.id
  · rw [if_pos hs] at hc
    obtain ⟨old, hold, rfl⟩ := Option.map_eq_some_iff.mp hc
    exact .inl ⟨hs, rfl, by simp [hold]⟩
  · rw [if_neg hs] at hc
    exact .inr ⟨hs, hc⟩

theorem SlotChange.pointsToLive {db db' : MemoryDb} (h : SlotChange db db')
    (hlive : PointsToLive db) : PointsToLive db' := by
  intro s c' hc' hst
  cases h with
  | kept db' hsnap hkept =>
    rw [snapshot?_congr hsnap] at hc'
    exact hkept.points (hlive s c' hc' hst)
  | requested row hdraft =>
    rw [snapshot?, List.find?_append, Option.or_eq_some_iff] at hc'
    rcases hc' with hold | ⟨-, hnew⟩
    · exact hlive s c' hold hst
    · have hrow : c' = row := by simpa using List.mem_of_find?_eq_some hnew
      rw [hrow, hdraft] at hst
      simp [unsuccessful] at hst
  | row c new db' hc hid hmove hsnap hkept =>
    rcases snapshot?_of_set hsnap hc' with ⟨hs, rfl, -⟩ | ⟨-, hold⟩
    · have hsame := hmove.resolve_right (not_not.mpr hst)
      rw [hs, hid]
      exact hkept.points (hlive c.id c hc (by rwa [← hsame]))
    · exact hkept.points (hlive s c' hold hst)
  | taken now lease c owner hc hheld =>
    have hsnap : (db.takeSlot now lease c owner).snapshots =
        (db.setSnapshot { c with mode := .online }).snapshots := rfl
    show some c.id ≠ some s ∧ db.effective ≠ s
    rcases snapshot?_of_set hsnap hc' with ⟨hs, rfl, -⟩ | ⟨hne, hold⟩
    · -- the taken candidate has not failed
      exact absurd (hheld hst) (hlive c.id c hc hst).1
    · refine ⟨?_, (hlive s c' hold hst).2⟩
      intro heq
      exact hne (Option.some.inj heq).symm
  | closed c new db' hc hid hsnap hkept hfree hother =>
    rcases snapshot?_of_set hsnap hc' with ⟨hs, -, -⟩ | ⟨-, hold⟩
    · rw [hs, hid, hkept.effective]
      exact ⟨hfree, hother⟩
    · exact hkept.points (hlive s c' hold hst)
  | flipped now c hc hslot hother hbase =>
    rw [moveFlip_head, moveFlip_effective, hslot]
    suffices hne : c.id ≠ s from ⟨fun heq => hne (Option.some.inj heq), hne⟩
    rintro rfl
    -- the flipped row has its manifest open
    have hopen : (db.setSnapshot (MemoryDb.flipped now c)).snapshot? c.id =
        some (MemoryDb.flipped now c) := setSnapshot_same rfl hc
    have hrow : ((db.setSnapshot (MemoryDb.flipped now c)).supersedeBase
        c.baseSnapshotId).snapshot? c.id = some c' := hc'
    rw [hbase, supersedeBase_other (fun heq => hother heq)] at hrow
    rw [hopen] at hrow
    obtain rfl := Option.some.inj hrow
    simp [MemoryDb.flipped, unsuccessful] at hst

/-! ## The fence -/

/-- The fence does not fall, and a slot that is newly held has a higher one. -/
structure FenceKept (db db' : MemoryDb) : Prop where
  le : db.head.fence ≤ db'.head.fence
  taken : ∀ s, db'.head.activating = some s →
    (db.head.activating = some s ∧ db'.head.leaseOwner = db.head.leaseOwner ∧
      db'.head.fence = db.head.fence) ∨ db.head.fence < db'.head.fence

theorem SlotKept.fenceKept {db db' : MemoryDb} (h : SlotKept db db') : FenceKept db db' where
  le := h.fence.ge
  taken := by
    intro s hs
    rcases h.slot with hnone | ⟨hsame, howner⟩
    · rw [hnone] at hs
      cases hs
    · exact .inl ⟨by rw [← hsame, hs], howner, h.fence⟩

theorem SlotChange.fenceKept {db db' : MemoryDb} (h : SlotChange db db') : FenceKept db db' := by
  cases h with
  | kept db' hsnap hkept => exact hkept.fenceKept
  | requested row hdraft =>
    have hkept : SlotKept db { db with snapshots := db.snapshots ++ [row] } :=
      ⟨rfl, rfl, .inr ⟨rfl, rfl⟩⟩
    exact hkept.fenceKept
  | row c new db' hc hid hmove hsnap hkept => exact hkept.fenceKept
  | taken now lease c owner hc hheld =>
    have hfence : (db.takeSlot now lease c owner).head.fence = db.head.fence + 1 := rfl
    exact ⟨by omega, fun _ _ => .inr (by omega)⟩
  | closed c new db' hc hid hsnap hkept hfree hother => exact hkept.fenceKept
  | flipped now c hc hslot hother hbase =>
    refine ⟨by rw [moveFlip_head], fun s hs => .inl ?_⟩
    rw [moveFlip_head] at hs ⊢
    exact ⟨hs, rfl, rfl⟩

/-! ## A run that is fenced out -/

theorem checkTuple_ok {db : MemoryDb} {now : Nat} {r : Runner} {u : Unit}
    (h : db.checkTuple now r = .ok u) : db.tupleOk now r.candidate r.fence r.owner = true :=
  require_eq_ok.mp h

/-- A transaction that commits nothing without the tuple writes nothing without it. -/
theorem after_fenced {α : Type} {db : MemoryDb} {now : Nat} {r : Runner}
    {tx : Except ActivationError α} {raised : ChangeError → ChangePhase}
    {next : α → MemoryDb × ChangePhase}
    (hout : db.tupleOk now r.candidate r.fence r.owner = false)
    (hok : ∀ a, tx = .ok a →
      (next a).1 = db ∨ db.tupleOk now r.candidate r.fence r.owner = true) :
    (db.after tx raised next).1 = db := by
  refine after_cases (P := fun p => p.1 = db) (fun _ _ => rfl) ?_
  intro a ha
  refine (hok a ha).resolve_right ?_
  simp [hout]

theorem runPostPublish_fenced {db : MemoryDb} {now : Nat} {r : Runner} {n : Nat}
    {p : MemoryDb × BatchEnd} (h : db.runPostPublish now r n = .ok p) :
    p.1 = db ∨ db.tupleOk now r.candidate r.fence r.owner = true := by
  obtain ⟨c, -, h⟩ := bind_eq_ok.mp h
  split at h
  · cases h
    exact .inl rfl
  · split at h
    · cases h
      exact .inl rfl
    · split at h
      · cases h
      · split at h
        · cases h
          exact .inl rfl
        · rename_i hok
          exact .inr (not_not.mp hok)

theorem postPublishFailed_fenced {db db' : MemoryDb} {now : Nat} {r : Runner} {retryAt : Nat}
    (h : db.postPublishFailed now r retryAt = .ok db') :
    db' = db ∨ db.tupleOk now r.candidate r.fence r.owner = true := by
  obtain ⟨c, -, h⟩ := bind_eq_ok.mp h
  split at h
  · rename_i hok
    exact .inr hok
  · cases h
    exact .inl rfl

/-- **A transaction of a run without the tuple writes nothing.** -/
theorem changeStep_fenced {digest : List (ClaimId × Head) → String} {q : ConfigRequest}
    {o : ChangeOptions} {db : MemoryDb} {t : ChangeTick} {phase : ChangePhase} {r : Runner}
    (hr : phase.runner? = some r)
    (hout : db.tupleOk t.now r.candidate r.fence r.owner = false)
    (htaken : ∀ e, phase = .cleanup r e → db.head.activating ≠ none) :
    (db.changeStep digest q o t phase).1 = db := by
  cases phase with
  | upsert => cases hr
  | early c => cases hr
  | slot c early => cases hr
  | drain c => cases hr
  | returned c state => cases hr
  | raised e => cases hr
  | drained r' =>
    cases hr
    exact after_fenced hout fun _ _ => .inl rfl
  | wait r' =>
    cases hr
    exact after_fenced hout fun _ _ => .inl rfl
  | cancel r' e =>
    cases hr
    refine after_fenced hout fun db' h => .inr ?_
    obtain ⟨_, htuple, -⟩ := bind_eq_ok.mp h
    exact checkTuple_ok htuple
  | confirm r' =>
    cases hr
    simp only [changeStep]
    split
    · refine after_fenced hout fun db' h => .inr ?_
      obtain ⟨_, htuple, -⟩ := bind_eq_ok.mp h
      exact checkTuple_ok htuple
    · rfl
  | resume r' =>
    cases hr
    exact after_fenced hout fun _ _ => .inl rfl
  | freeze r' =>
    cases hr
    refine after_fenced hout fun db' h => .inr ?_
    obtain ⟨_, htuple, -⟩ := bind_eq_ok.mp h
    exact checkTuple_ok htuple
  | prepare r' prepared =>
    cases hr
    refine after_fenced hout fun _ _ => .inl ?_
    split
    · rfl
    · refine after_fenced hout fun db' h => .inr ?_
      obtain ⟨c, -, h⟩ := bind_eq_ok.mp h
      obtain ⟨base, -, h⟩ := bind_eq_ok.mp h
      obtain ⟨_, htuple, -⟩ := bind_eq_ok.mp h
      exact checkTuple_ok htuple
  | verify r' =>
    cases hr
    refine after_fenced hout fun db' h => .inr ?_
    obtain ⟨_, htuple, -⟩ := bind_eq_ok.mp h
    exact checkTuple_ok htuple
  | sealed r' =>
    cases hr
    exact after_fenced hout fun _ _ => .inl rfl
  | publish r' =>
    cases hr
    refine after_fenced hout fun db' h => .inr ?_
    obtain ⟨_, htuple, -⟩ := bind_eq_ok.mp h
    exact checkTuple_ok htuple
  | flip r' =>
    cases hr
    refine after_fenced hout fun db' h => .inr ?_
    obtain ⟨c, -, h⟩ := bind_eq_ok.mp h
    obtain ⟨_, htuple, -⟩ := bind_eq_ok.mp h
    exact checkTuple_ok htuple
  | gate r' =>
    cases hr
    simp only [changeStep]
    split
    · rfl
    · exact after_fenced hout fun _ _ => .inl rfl
  | postPublish r' n =>
    cases hr
    cases n with
    | zero => exact after_fenced hout fun _ _ => .inl rfl
    | succ n => exact after_fenced hout fun p h => runPostPublish_fenced h
  | backoff r' e =>
    cases hr
    exact after_fenced hout fun db' h => postPublishFailed_fenced h
  | handler r' e =>
    cases hr
    exact after_fenced hout fun _ _ => .inl rfl
  | cleanup r' e =>
    cases hr
    refine after_fenced hout fun db' h => .inr ?_
    obtain ⟨_, hslot, -⟩ := bind_eq_ok.mp h
    exact (require_eq_ok.mp hslot).resolve_left (htaken e rfl)

/-! ## The tuple of a run -/

/-- A run that holds a tuple keeps it to its end. -/
def KeepsRunner (r : Runner) (phase : ChangePhase) : Prop :=
  phase.runner? = some r ∨ phase.runner? = none

theorem keepsRunner_caught (r : Runner) (e : ChangeError) : KeepsRunner r (.caught r e) := by
  unfold ChangePhase.caught
  split
  · exact .inl rfl
  · exact .inr rfl

theorem after_keepsRunner {α : Type} {db : MemoryDb} {r : Runner}
    {tx : Except ActivationError α} {raised : ChangeError → ChangePhase}
    {next : α → MemoryDb × ChangePhase} (hraised : ∀ e, KeepsRunner r (raised e))
    (hok : ∀ a, tx = .ok a → KeepsRunner r (next a).2) :
    KeepsRunner r (db.after tx raised next).2 :=
  after_cases (P := fun p => KeepsRunner r p.2) (fun _ _ => hraised _) hok

/-- The run holds the slot with its tuple. -/
def Holds (db : MemoryDb) (r : Runner) : Prop :=
  db.head.activating = some r.candidate ∧ db.head.leaseOwner = some r.owner ∧
    db.head.fence = r.fence

/-- How a run comes to a tuple: it reuses its own live slot, or claims the slot. -/
theorem publishDrain_holds {db db' : MemoryDb} {now lease : Nat} {candidate : SnapshotId}
    {owner : String} (h : db.publishDrain now lease candidate owner = .ok db') :
    Holds db' ⟨candidate, db'.head.fence, owner⟩ ∧
      ((db.leaseLive now ∧ Holds db ⟨candidate, db'.head.fence, owner⟩) ∨
        db'.head.fence = db.head.fence + 1) := by
  obtain ⟨c, hc, h⟩ := bind_eq_ok.mp h
  have hid := (row_id hc).1
  have htake : Holds (db.takeSlot now lease c owner) ⟨candidate, db.head.fence + 1, owner⟩ :=
    ⟨congrArg some hid, rfl, rfl⟩
  split at h
  · cases h
    exact ⟨htake, .inr rfl⟩
  · rename_i s hs
    split at h
    · rename_i hown
      cases h
      have hheld : Holds db ⟨candidate, db.head.fence, owner⟩ :=
        ⟨by rw [hs, hown.1], hown.2.1, rfl⟩
      exact ⟨hheld, .inl ⟨hown.2.2, hheld⟩⟩
    · split at h
      · cases h
        exact ⟨htake, .inr rfl⟩
      · cases h

/-- A run came to the tuple: the slot is its own, and was so with a live lease, or the
fence is new. -/
structure Claimed (db db' : MemoryDb) (now : Nat) (r : Runner) : Prop where
  holds : Holds db' r
  fence : (db.leaseLive now ∧ Holds db r) ∨ r.fence = db.head.fence + 1

theorem slotPhase_claimed {db : MemoryDb} {now : Nat} {owner : String} {c : SnapshotId}
    {early : ActivationState} {r : Runner}
    (h : (db.slotPhase now owner c early).runner? = some r) : Claimed db db now r := by
  unfold slotPhase at h
  split at h
  · cases h
  · rename_i s hs
    split at h
    · cases h
    · rename_i hsame
      split at h
      · cases h
      · rename_i hlive
        split at h
        · cases h
        · rename_i howner
          split at h
          · cases h
          · cases h
            have hheld : Holds db ⟨c, db.head.fence, owner⟩ :=
              ⟨by rw [hs, not_not.mp hsame], not_not.mp howner, rfl⟩
            exact ⟨hheld, .inl ⟨by simpa using hlive, hheld⟩⟩

theorem ofState_keepsRunner (r : Runner) (state : ActivationState) :
    KeepsRunner r (.ofState r state) := by
  unfold ChangePhase.ofState
  split
  · exact .inl rfl
  · split
    · exact .inl rfl
    · exact keepsRunner_caught r _

theorem ofSealed_keepsRunner (r : Runner) (state : ActivationState) :
    KeepsRunner r (.ofSealed r state) := by
  unfold ChangePhase.ofSealed
  split
  · exact .inl rfl
  · split
    · exact .inl rfl
    · exact keepsRunner_caught r _

theorem ofPublished_keepsRunner (r : Runner) (state : ActivationState) :
    KeepsRunner r (.ofPublished r state) := by
  unfold ChangePhase.ofPublished
  split
  · exact .inr rfl
  · exact keepsRunner_caught r _

theorem waitPhase_keepsRunner (db : MemoryDb) (late : Bool) (r : Runner) :
    KeepsRunner r (db.waitPhase late r) := by
  unfold waitPhase
  split
  · exact .inl rfl
  · split <;> exact .inl rfl

/-- **A run with a tuple keeps it.** -/
theorem changeStep_keepsRunner {digest : List (ClaimId × Head) → String} {q : ConfigRequest}
    {o : ChangeOptions} {db : MemoryDb} {t : ChangeTick} {phase : ChangePhase} {r : Runner}
    (hr : phase.runner? = some r) : KeepsRunner r (db.changeStep digest q o t phase).2 := by
  have hraised : ∀ e, KeepsRunner r (.raised e) := fun _ => .inr rfl
  have hcaught : ∀ e, KeepsRunner r (.caught r e) := keepsRunner_caught r
  cases phase with
  | upsert => cases hr
  | early c => cases hr
  | slot c early => cases hr
  | drain c => cases hr
  | returned c state => cases hr
  | raised e => cases hr
  | drained r' =>
    cases hr
    refine after_keepsRunner hraised fun _ _ => ?_
    dsimp only
    split <;> exact .inl rfl
  | wait r' =>
    cases hr
    exact after_keepsRunner hraised fun _ _ => waitPhase_keepsRunner db t.late r
  | cancel r' e =>
    cases hr
    exact after_keepsRunner hraised fun _ _ => .inr rfl
  | confirm r' =>
    cases hr
    simp only [changeStep]
    split
    · exact after_keepsRunner hraised fun _ _ => .inl rfl
    · dsimp only
      split <;> exact .inl rfl
  | resume r' =>
    cases hr
    exact after_keepsRunner hraised fun _ _ => ofState_keepsRunner r _
  | freeze r' =>
    cases hr
    exact after_keepsRunner hcaught fun _ _ => .inl rfl
  | prepare r' prepared =>
    cases hr
    refine after_keepsRunner hcaught fun _ _ => ?_
    split
    · exact .inl rfl
    · exact after_keepsRunner hcaught fun _ _ => .inl rfl
  | verify r' =>
    cases hr
    exact after_keepsRunner hcaught fun _ _ => .inl rfl
  | sealed r' =>
    cases hr
    exact after_keepsRunner hcaught fun _ _ => ofSealed_keepsRunner r _
  | publish r' =>
    cases hr
    exact after_keepsRunner hcaught fun _ _ => .inl rfl
  | flip r' =>
    cases hr
    exact after_keepsRunner hcaught fun _ _ => .inl rfl
  | gate r' =>
    cases hr
    simp only [changeStep]
    split
    · exact .inl rfl
    · exact after_keepsRunner hcaught fun _ _ => .inr rfl
  | postPublish r' n =>
    cases hr
    cases n with
    | zero => exact after_keepsRunner hcaught fun _ _ => ofPublished_keepsRunner r _
    | succ n =>
      refine after_keepsRunner (fun _ => .inl rfl) fun p _ => ?_
      dsimp only
      split
      · exact .inr rfl
      · exact .inl rfl
      · exact .inr rfl
      · exact hcaught _
  | backoff r' e =>
    cases hr
    refine after_keepsRunner hraised fun _ _ => ?_
    dsimp only
    split
    · exact .inr rfl
    · exact hcaught e
  | handler r' e =>
    cases hr
    refine after_keepsRunner hraised fun _ _ => ?_
    dsimp only
    split
    · exact .inr rfl
    · exact .inl rfl
  | cleanup r' e =>
    cases hr
    exact after_keepsRunner hraised fun _ _ => .inr rfl

/-- **How a run without a tuple comes to one.** -/
theorem changeStep_claimed {digest : List (ClaimId × Head) → String} {q : ConfigRequest}
    {o : ChangeOptions} {db : MemoryDb} {t : ChangeTick} {phase : ChangePhase} {r : Runner}
    (hnone : phase.runner? = none)
    (hr : (db.changeStep digest q o t phase).2.runner? = some r) :
    Claimed db (db.changeStep digest q o t phase).1 t.now r := by
  cases phase with
  | upsert =>
    revert hr
    simp only [changeStep]
    intro hr
    split at hr
    · cases hr
    · split at hr
      · cases hr
      · cases hr
  | early c =>
    revert hr
    refine after_cases (P := fun p => p.2.runner? = some r → Claimed db p.1 t.now r)
      (fun _ _ hr => by cases hr) fun row _ hr => ?_
    dsimp only at hr
    split at hr <;> cases hr
  | slot c early => exact slotPhase_claimed hr
  | drain c =>
    revert hr
    refine after_cases (P := fun p => p.2.runner? = some r → Claimed db p.1 t.now r)
      (fun _ _ hr => by cases hr) fun db' hdrain hr => ?_
    cases hr
    obtain ⟨hholds, hfence⟩ := publishDrain_holds hdrain
    exact ⟨hholds, hfence⟩
  | returned c state => cases hr
  | raised e => cases hr
  | _ => cases hnone

end MemoryDb

namespace ActivationWorld

/-! ## The fences that are out -/

/-- The tuples of the runs: none is ahead of the head, and one fence is one tuple. -/
structure Issued (w : ActivationWorld) : Prop where
  le : ∀ run ∈ w.runs, ∀ r, run.phase.runner? = some r → r.fence ≤ w.db.head.fence
  holder : ∀ run ∈ w.runs, ∀ r, run.phase.runner? = some r → w.db.head.activating ≠ none →
    r.fence = w.db.head.fence → w.db.Holds r
  unique : ∀ run ∈ w.runs, ∀ run' ∈ w.runs, ∀ r r', run.phase.runner? = some r →
    run'.phase.runner? = some r' → r.fence = r'.fence → r = r'

/-- The tuple of the head is one. -/
theorem holds_unique {db : MemoryDb} {r r' : Runner} (h : db.Holds r) (h' : db.Holds r') :
    r = r' := by
  obtain ⟨hc, ho, hf⟩ := h
  obtain ⟨hc', ho', hf'⟩ := h'
  cases r
  cases r'
  simp_all

/-- The runs keep their tuples, and the slot moves with the fence. -/
theorem Issued.next {w w' : ActivationWorld} (h : w.Issued)
    (hfence : MemoryDb.FenceKept w.db w'.db)
    (hruns : ∀ run ∈ w'.runs, ∀ r, run.phase.runner? = some r →
      ∃ run' ∈ w.runs, run'.phase.runner? = some r) : w'.Issued where
  le := by
    intro run hmem r hr
    obtain ⟨run', hmem', hr'⟩ := hruns run hmem r hr
    exact (h.le run' hmem' r hr').trans hfence.le
  holder := by
    intro run hmem r hr htaken heq
    obtain ⟨run', hmem', hr'⟩ := hruns run hmem r hr
    obtain ⟨s, hs⟩ := Option.ne_none_iff_exists'.mp htaken
    rcases hfence.taken s hs with ⟨hsame, howner, hkept⟩ | hlt
    · obtain ⟨hc, ho, hf⟩ := h.holder run' hmem' r hr' (by simp [hsame]) (by rw [heq, hkept])
      exact ⟨by rw [hs, ← hsame, hc], by rw [howner, ho], heq.symm⟩
    · have hle := h.le run' hmem' r hr'
      omega
  unique := by
    intro run₁ hmem₁ run₂ hmem₂ r₁ r₂ hr₁ hr₂ heq
    obtain ⟨run₁', hmem₁', hr₁'⟩ := hruns run₁ hmem₁ r₁ hr₁
    obtain ⟨run₂', hmem₂', hr₂'⟩ := hruns run₂ hmem₂ r₂ hr₂
    exact h.unique run₁' hmem₁' run₂' hmem₂' r₁ r₂ hr₁' hr₂' heq

/-- A run comes to a tuple: it is the head's, or its fence is new. -/
theorem Issued.claim {w w' : ActivationWorld} {now : Nat} {r : Runner} (h : w.Issued)
    (hfence : MemoryDb.FenceKept w.db w'.db) (hclaim : MemoryDb.Claimed w.db w'.db now r)
    (hruns : ∀ run ∈ w'.runs, ∀ r', run.phase.runner? = some r' →
      r' = r ∨ ∃ run' ∈ w.runs, run'.phase.runner? = some r') : w'.Issued := by
  have hheld := hclaim.holds
  -- a run with the fence of the new tuple has the tuple
  have hsame : ∀ run ∈ w.runs, ∀ r', run.phase.runner? = some r' → r'.fence = r.fence →
      r' = r := by
    intro run hmem r' hr' heq
    rcases hclaim.fence with ⟨-, hbefore⟩ | hnew
    · have hholds := h.holder run hmem r' hr' (by simp [hbefore.1])
        (by rw [heq, hbefore.2.2])
      exact holds_unique hholds hbefore
    · have hle := h.le run hmem r' hr'
      omega
  constructor
  · intro run hmem r' hr'
    rcases hruns run hmem r' hr' with rfl | ⟨run', hmem', hr''⟩
    · exact hheld.2.2.ge
    · exact (h.le run' hmem' r' hr'').trans hfence.le
  · intro run hmem r' hr' htaken heq
    rcases hruns run hmem r' hr' with rfl | ⟨run', hmem', hr''⟩
    · exact hheld
    · rw [hsame run' hmem' r' hr'' (by rw [heq, hheld.2.2])]
      exact hheld
  · intro run₁ hmem₁ run₂ hmem₂ r₁ r₂ hr₁ hr₂ heq
    rcases hruns run₁ hmem₁ r₁ hr₁ with rfl | ⟨run₁', hmem₁', hr₁'⟩
    · rcases hruns run₂ hmem₂ r₂ hr₂ with rfl | ⟨run₂', hmem₂', hr₂'⟩
      · rfl
      · exact (hsame run₂' hmem₂' r₂ hr₂' heq.symm).symm
    · rcases hruns run₂ hmem₂ r₂ hr₂ with rfl | ⟨run₂', hmem₂', hr₂'⟩
      · exact hsame run₁' hmem₁' r₁ hr₁' heq
      · exact h.unique run₁' hmem₁' run₂' hmem₂' r₁ r₂ hr₁' hr₂' heq

/-! ## Every interleaving -/

section Steps

variable {digest : List (ClaimId × Head) → String}

theorem fault_runner {phase : ChangePhase} {r : Runner} (h : phase.fault.runner? = some r) :
    phase.runner? = some r := by
  cases phase with
  | postPublish r' n => exact h
  | _ => cases h

/-- A run moves: the others are as they were. -/
theorem mem_set_runs {runs : List ChangeRun} {i : Nat} {run' x : ChangeRun}
    (hx : x ∈ runs.set i run') : x = run' ∨ x ∈ runs := by
  rcases List.mem_or_eq_of_mem_set hx with hold | hnew
  · exact .inr hold
  · exact .inl hnew

theorem orderly_tick {w : ActivationWorld} {i : Nat} {t : ChangeTick} {run : ChangeRun}
    (h : w.orderly (.tick i t)) (hrun : w.runs[i]? = some run) :
    (∀ r e, run.phase = .cleanup r e → w.db.head.activating ≠ none ∧
      (w.db.tupleOk t.now r.candidate r.fence r.owner → w.db.effective ≠ r.candidate)) ∧
    ∀ c, run.phase = .drain c → w.db.inState c unsuccessful → w.db.head.activating ≠ none := by
  simp only [orderly, hrun, Option.all_some] at h
  constructor
  · intro r e hphase
    rw [hphase] at h
    exact of_decide_eq_true h
  · intro c hphase
    rw [hphase] at h
    exact of_decide_eq_true h

/-- What an orderly event does to the slot. -/
theorem activationStep_slot {w w' : ActivationWorld} {e : ActivationEvent}
    (hguard : w.orderly e) (hstep : w.activationStep digest e = some w') :
    MemoryDb.SlotChange w.db w'.db := by
  cases e with
  | start q o =>
    cases hstep
    exact .refl w.db
  | tick i t =>
    obtain ⟨run, hrun, rfl⟩ := Option.map_eq_some_iff.mp hstep
    obtain ⟨hcleanup, hdrain⟩ := orderly_tick hguard hrun
    exact MemoryDb.changeStep_slot hcleanup hdrain
  | fault i =>
    obtain ⟨run, hrun, rfl⟩ := Option.map_eq_some_iff.mp hstep
    exact .refl w.db
  | repair now candidate n =>
    cases hstep
    have hfree := of_decide_eq_true hguard
    unfold MemoryDb.commit
    cases htx : (w.db.runActivationRepair now candidate n).map Prod.fst with
    | error e => exact .refl w.db
    | ok db' =>
      obtain ⟨p, hp, rfl⟩ := map_eq_ok.mp htx
      exact MemoryDb.runActivationRepair_slot hp hfree
  | repairFailed candidate permanent retryAt =>
    cases hstep
    unfold MemoryDb.commit
    cases htx : w.db.repairFailed candidate permanent retryAt with
    | error e => exact .refl w.db
    | ok db' => exact MemoryDb.repairFailed_slot htx
  | elsewhere other =>
    cases hstep
    exact .kept _ rfl ⟨rfl, rfl, .inr ⟨rfl, rfl⟩⟩

/-- The runs after an event: a tuple is an old one, or one that was claimed now. -/
theorem activationStep_issued {w w' : ActivationWorld} {e : ActivationEvent}
    (h : w.Issued) (hfence : MemoryDb.FenceKept w.db w'.db)
    (hstep : w.activationStep digest e = some w') : w'.Issued := by
  cases e with
  | start q o =>
    cases hstep
    refine h.next hfence fun run hmem r hr => ?_
    rcases List.mem_append.mp hmem with hold | hnew
    · exact ⟨run, hold, hr⟩
    · rw [List.mem_singleton.mp hnew] at hr
      cases hr
  | tick i t =>
    obtain ⟨run, hrun, rfl⟩ := Option.map_eq_some_iff.mp hstep
    have hmem := List.mem_of_getElem? hrun
    cases hr₀ : run.phase.runner? with
    | some r₀ =>
      refine h.next hfence fun x hx r hr => ?_
      rcases mem_set_runs hx with rfl | hold
      · refine ⟨run, hmem, ?_⟩
        rcases MemoryDb.changeStep_keepsRunner hr₀ with hsome | hnone
        · rw [hr₀, ← hsome, ← hr]
        · rw [hnone] at hr
          cases hr
      · exact ⟨x, hold, hr⟩
    | none =>
      cases hr₁ : (w.db.changeStep digest run.q run.o t run.phase).2.runner? with
      | none =>
        refine h.next hfence fun x hx r hr => ?_
        rcases mem_set_runs hx with rfl | hold
        · rw [hr₁] at hr
          cases hr
        · exact ⟨x, hold, hr⟩
      | some r₁ =>
        refine h.claim hfence (MemoryDb.changeStep_claimed hr₀ hr₁) fun x hx r hr => ?_
        rcases mem_set_runs hx with rfl | hold
        · rw [hr₁] at hr
          exact .inl (Option.some.inj hr).symm
        · exact .inr ⟨x, hold, hr⟩
  | fault i =>
    obtain ⟨run, hrun, rfl⟩ := Option.map_eq_some_iff.mp hstep
    refine h.next hfence fun x hx r hr => ?_
    rcases mem_set_runs hx with rfl | hold
    · exact ⟨run, List.mem_of_getElem? hrun, fault_runner hr⟩
    · exact ⟨x, hold, hr⟩
  | repair now candidate n =>
    cases hstep
    exact h.next hfence fun run hmem r hr => ⟨run, hmem, hr⟩
  | repairFailed candidate permanent retryAt =>
    cases hstep
    exact h.next hfence fun run hmem r hr => ⟨run, hmem, hr⟩
  | elsewhere other =>
    cases hstep
    exact h.next hfence fun run hmem r hr => ⟨run, hmem, hr⟩

/-- Activation fencing, for one event of the world. -/
structure Fenced (w : ActivationWorld) (e : ActivationEvent) (w' : ActivationWorld) : Prop where
  /-- The fence does not fall, and a slot that changes hands has a higher one. -/
  fence : MemoryDb.FenceKept w.db w'.db
  /-- A run comes to a tuple with a new fence, unless its slot was its own and live. -/
  claimed : ∀ i t run run' r, e = .tick i t → w.runs[i]? = some run →
    w'.runs[i]? = some run' → run.phase.runner? = none → run'.phase.runner? = some r →
    MemoryDb.Claimed w.db w'.db t.now r
  /-- A run whose tuple is not the head's, or whose lease is over, writes nothing. -/
  fencedOut : ∀ i t run r, e = .tick i t → w.runs[i]? = some run →
    run.phase.runner? = some r →
    w.db.tupleOk t.now r.candidate r.fence r.owner = false → w'.db = w.db
  /-- Nothing that failed or was superseded is activating or effective. -/
  pointsToLive : w'.db.PointsToLive
  /-- One fence is one candidate of one owner. -/
  oneHolder : ∀ run ∈ w'.runs, ∀ run' ∈ w'.runs, ∀ r r', run.phase.runner? = some r →
    run'.phase.runner? = some r' → r.fence = r'.fence → r = r'

/-- **Activation fencing**, in every run whose events are orderly. -/
theorem activation_fencing {w₀ w w' : ActivationWorld} {e : ActivationEvent}
    (hlive : w₀.db.PointsToLive) (hnone : w₀.runs = [])
    (hrun : Run (activationStep digest) (fun w e => w.orderly e) w₀ w)
    (hguard : w.orderly e) (hstep : w.activationStep digest e = some w') : Fenced w e w' := by
  have hstart : w₀.db.PointsToLive ∧ w₀.Issued := by
    refine ⟨hlive, ?_, ?_, ?_⟩
    all_goals
      intro run hmem
      rw [hnone] at hmem
      cases hmem
  have hreached : w.db.PointsToLive ∧ w.Issued := by
    refine Run.invariant (I := fun w => w.db.PointsToLive ∧ w.Issued) hrun hstart ?_
    intro a b e hI hg hs
    have hslot := activationStep_slot hg hs
    exact ⟨hslot.pointsToLive hI.1, activationStep_issued hI.2 hslot.fenceKept hs⟩
  obtain ⟨hpoints, hissued⟩ := hreached
  have hslot := activationStep_slot hguard hstep
  have hissued' := activationStep_issued hissued hslot.fenceKept hstep
  refine ⟨hslot.fenceKept, ?_, ?_, hslot.pointsToLive hpoints, hissued'.unique⟩
  · intro i t run run' r he hi hi' hr hr'
    subst he
    obtain ⟨run₀, hrun₀, rfl⟩ := Option.map_eq_some_iff.mp hstep
    obtain rfl : run₀ = run := Option.some.inj (hrun₀.symm.trans hi)
    have hlt := (List.getElem?_eq_some_iff.mp hrun₀).1
    simp only [List.getElem?_set_self hlt, Option.some.injEq] at hi'
    subst hi'
    exact MemoryDb.changeStep_claimed hr hr'
  · intro i t run r he hi hr hout
    subst he
    obtain ⟨run₀, hrun₀, rfl⟩ := Option.map_eq_some_iff.mp hstep
    obtain rfl : run₀ = run := Option.some.inj (hrun₀.symm.trans hi)
    refine MemoryDb.changeStep_fenced hr hout fun e hphase => ?_
    exact ((orderly_tick hguard hrun₀).1 r e hphase).1

end Steps

end ActivationWorld

/-! ## A flip that is marked failed -/

section Overtaken

def bootstrapRow : ConfigSnapshot :=
  { ConfigRequest.candidate ⟨"bootstrap", fun _ => none, fun _ => none, none, none⟩ 0 0
      .bootstrap with baseSnapshotId := none, state := .active }

/-- The bootstrap in force, and nothing else. -/
def bootstrapDb : MemoryDb where
  cascade :=
    { know := { heads := fun _ _ => none, jobs := [], questions := [], revision := 0 }
      effective := 0
      dependencies := []
      graphRevision := 0
      manifests := []
      barriers := [] }
  tables :=
    { evidence := [], revocations := [], sources := [], edges := [], corrections := []
      manifests := [], resolutions := [], registered := EvidenceDb.registered_nil
      assessments := [] }
  claims := []
  snapshots := [bootstrapRow]
  head := ⟨none, 0, none, none⟩
  sessions := ⟨0, 0, 0, false⟩
  sourceGraphRevision := 0

theorem bootstrapDb_pointsToLive : bootstrapDb.PointsToLive := by
  intro s c hc hst
  obtain rfl : c = bootstrapRow := List.mem_singleton.mp (List.mem_of_find?_eq_some hc)
  simp [bootstrapRow, unsuccessful] at hst

/-- The change two hosts run. -/
def sharedRequest : ConfigRequest := ⟨"rules", fun _ => none, fun _ => none, none, none⟩

def hostRun : ChangeOptions := ⟨"system:activation", 128, 10⟩

def tickAt (now : Nat) : ChangeTick := ⟨now, true, false, 1, 0⟩

/-- The first run is about to flip. -/
def firstRun : List ActivationEvent :=
  .start sharedRequest hostRun :: List.replicate 13 (.tick 0 (tickAt 0))

/-- Its lease is over: the second takes the slot and flips, and the first, whose flip is
fenced out, finds the manifest open. -/
def overtakenRun : List ActivationEvent :=
  firstRun ++ .start sharedRequest hostRun ::
    (List.replicate 12 (.tick 1 (tickAt 20)) ++ [.tick 0 (tickAt 21), .tick 0 (tickAt 21)])

/-- The step function with a constant seal. -/
abbrev hostStep : ActivationWorld → ActivationEvent → Option ActivationWorld :=
  ActivationWorld.activationStep fun _ => "heads"

theorem activation_fencing_overtaken : ∃ w w',
    hostStep w (.tick 0 (tickAt 21)) = some w' ∧ w'.db.effective = 1 ∧
    w'.db.inState 1 [.postPublish] ∧
    ActivationWorld.Fenced w (.tick 0 (tickAt 21)) w' := by
  have hrun := @Run.of_execGuarded _ _ hostStep ActivationWorld.orderly ⟨bootstrapDb, []⟩ _
    overtakenRun rfl
  have hfenced := @ActivationWorld.activation_fencing (fun _ => "heads") _ _ _
    (.tick 0 (tickAt 21)) bootstrapDb_pointsToLive rfl hrun rfl rfl
  exact ⟨_, _, rfl, rfl, rfl, hfenced⟩

/-- The second run completes the manifest and clears the slot. The cleanup of the first
passes on the empty slot: the effective snapshot is marked failed. -/
theorem effective_marked_failed : ¬ ∀ (digest : List (ClaimId × Head) → String)
    (w₀ w w' : ActivationWorld) (e : ActivationEvent), w₀.db.PointsToLive → w₀.runs = [] →
    Run (ActivationWorld.activationStep digest) anyStep w₀ w →
    w.activationStep digest e = some w' → ActivationWorld.Fenced w e w' := by
  intro hall
  have hrun := @Run.of_exec _ _ hostStep ⟨bootstrapDb, []⟩ _
    (overtakenRun ++ [.tick 1 (tickAt 22), .tick 1 (tickAt 22)]) rfl
  have hfenced := hall _ _ _ _ (.tick 0 (tickAt 22)) bootstrapDb_pointsToLive rfl hrun rfl
  have hfailed := hfenced.pointsToLive 1 _ rfl (by decide)
  exact hfailed.2 rfl

end Overtaken

end Noezema.Memory
