import Noezema.Memory.Resumption

/-! # The run that finishes a change

A run of a change whose lease has expired, left alone: it comes to an end, whatever the
earlier runs have left. The rank counts what it has still to do; it waits for nothing but
the window of the drain and the writer gate, up to their deadlines.
-/

namespace Noezema.Memory

open Noezema.Lib

namespace ChangePhase

/-- The candidate a run works on. -/
def candidate? : ChangePhase → Option SnapshotId
  | .early s | .slot s _ | .drain s => some s
  | phase => phase.runner?.map (·.candidate)

/-- The error a run is about to raise. -/
def error? : ChangePhase → Option ChangeError
  | .cancel _ e | .backoff _ e | .handler _ e | .cleanup _ e => some e
  | _ => none

/-- The candidate waits for the window. -/
def isDraining : ChangePhase → Bool
  | .wait _ | .cancel _ _ | .confirm _ => true
  | _ => false

/-- The heads are not prepared yet. -/
def isPreparing : ChangePhase → Bool
  | .early _ | .slot _ _ | .drain _ | .drained _ | .wait _ | .cancel _ _ | .confirm _
  | .resume _ | .freeze _ | .prepare _ _ => true
  | _ => false

/-- What is still to do, with `n` claims to prepare. -/
def rank (n : Nat) : ChangePhase → Nat
  | .returned _ _ | .raised _ => 0
  | .cleanup _ _ | .cancel _ _ => 1
  | .handler _ _ => 2
  | .backoff _ _ => 3
  | .postPublish _ batches => batches + 4
  | .gate _ => maxPostPublishBatches + 5
  | .flip _ => maxPostPublishBatches + 6
  | .publish _ => maxPostPublishBatches + 7
  | .sealed _ => maxPostPublishBatches + 8
  | .verify _ => maxPostPublishBatches + 9
  | .prepare _ prepared => maxPostPublishBatches + 10 + (n - prepared)
  | .freeze _ => maxPostPublishBatches + 11 + n
  | .resume _ => maxPostPublishBatches + 12 + n
  | .confirm _ => maxPostPublishBatches + 13 + n
  | .wait _ => maxPostPublishBatches + 14 + n
  | .drained _ => maxPostPublishBatches + 15 + n
  | .drain _ => maxPostPublishBatches + 16 + n
  | .slot _ _ => maxPostPublishBatches + 17 + n
  | .early _ => maxPostPublishBatches + 18 + n
  | .upsert => maxPostPublishBatches + 19 + n

end ChangePhase

/-- **How a run may end**: the candidate is in force, it failed and the slot is free, or it
is a draft and the slot is free. It raises no error but an `ActivationError`. -/
inductive RunEnds (s : SnapshotId) : MemoryDb × ChangePhase → Prop where
  | published (db : MemoryDb) (state : ActivationState) : db.effective = s →
      db.inState s [.postPublish, .active, .postPublishBlocked] →
      RunEnds s (db, .returned s state)
  | failed (db : MemoryDb) (e : ChangeError) : db.inState s [.failed, .superseded] →
      db.head.activating = none → e.isActivationError → RunEnds s (db, .raised e)
  | cancelled (db : MemoryDb) (e : ChangeError) : db.inState s [.draft] →
      db.head.activating = none → e.isActivationError → RunEnds s (db, .raised e)

namespace MemoryDb

/-! ## The sealed heads -/

/-- The head `prepare_heads_online` writes for a claim. -/
def preparedHead (k : Knowledge) (base candidate : ConfigSnapshot) (claim : Claim) : Head :=
  (carriedHead k base candidate claim).getD .pending

/-- Every claim has the head that preparing would write now. -/
def AsPrepared (db : MemoryDb) (c : ConfigSnapshot) : Prop :=
  ∀ base, db.baseRow c = .ok base → ∀ claim ∈ db.claims,
    db.know.heads claim.id c.id = some (preparedHead db.know base c claim)

/-- If the candidate is sealed, preparing it again would change no head. -/
def SealKept (db : MemoryDb) (s : SnapshotId) : Prop :=
  ∀ c, db.snapshot? s = some c → headsSealed c → AsPrepared db c

theorem prepareClaim_heads {base candidate : ConfigSnapshot} {k : Knowledge} {claim : Claim}
    (h : k.heads claim.id candidate.id = some (preparedHead k base candidate claim)) :
    (prepareClaim base candidate k claim).heads = k.heads := by
  have hset : k.heads.set claim.id candidate.id (some (preparedHead k base candidate claim)) =
      k.heads := by
    rw [← h]
    ext1 c
    ext1 s
    by_cases heq : c = claim.id ∧ s = candidate.id
    · rw [heq.1, heq.2, Heads.set_same]
    · exact Heads.set_other k.heads _ heq
  unfold preparedHead at hset
  unfold prepareClaim
  split
  · rename_i head hcarried
    rw [hcarried] at hset
    exact hset
  · rename_i hnone
    rw [hnone] at hset
    rw [Knowledge.enqueueJob_heads]
    exact hset

theorem preparedHead_congr {k k' : Knowledge} (hheads : k'.heads = k.heads)
    (base candidate : ConfigSnapshot) (claim : Claim) :
    preparedHead k' base candidate claim = preparedHead k base candidate claim := by
  unfold preparedHead carriedHead
  rw [hheads]

theorem prepareClaims_heads {base candidate : ConfigSnapshot} (batch : List Claim)
    (k : Knowledge) (h : ∀ claim ∈ batch,
      k.heads claim.id candidate.id = some (preparedHead k base candidate claim)) :
    (batch.foldl (prepareClaim base candidate) k).heads = k.heads := by
  induction batch generalizing k with
  | nil => rfl
  | cons claim rest ih =>
    have hfirst := prepareClaim_heads (h claim List.mem_cons_self)
    rw [List.foldl_cons, ih, hfirst]
    intro x hx
    rw [hfirst, preparedHead_congr hfirst]
    exact h x (List.mem_cons_of_mem claim hx)

section Seal

variable {q : ConfigRequest} {db db' : MemoryDb} {c c' : ConfigSnapshot}

/-- The candidate is rewritten, and not sealed by it. -/
theorem Early.sealKept (h : Early q db c) (hkept : SealKept db c.id)
    (hsame : SameCandidate c c') (hseal : headsSealed c' → headsSealed c)
    (hsnap : db'.snapshots = (db.setSnapshot c').snapshots) (hknow : db'.know = db.know)
    (hclaims : db'.claims = db.claims) : SealKept db' c.id := by
  intro x hx hsealed
  rw [snapshot?_congr hsnap, setSnapshot_same hsame.id h.row] at hx
  obtain rfl := Option.some.inj hx
  intro base hbase claim hclaim
  -- the base is another row
  have hbase' : db.baseRow c = .ok base := by
    unfold baseRow at hbase ⊢
    rw [hsame.base, h.mine.1, Option.bind_some, snapshot?_congr hsnap,
      setSnapshot_other (by rw [hsame.id]; exact h.other)] at hbase
    rw [h.mine.1, Option.bind_some]
    exact hbase
  rw [hclaims] at hclaim
  have hhead := hkept c h.row (hseal hsealed) base hbase' claim hclaim
  rw [hknow, hsame.id, hhead]
  unfold preparedHead carriedHead ruleUnchanged
  rw [hsame.ruleDigests]

theorem Early.base_ok (h : Early q db c) : ∃ base, db.baseRow c = .ok base := by
  obtain ⟨base, hbase, -⟩ := h.base
  refine ⟨base, ?_⟩
  unfold baseRow
  rw [h.mine.1, Option.bind_some, hbase]

/-- **Preparing again goes through**, and keeps what is sealed. -/
theorem Early.prepare_ok (h : Early q db c) {r : Runner} (hid : r.candidate = c.id) {now : Nat}
    (htuple : db.tupleOk now r.candidate r.fence r.owner) (hkept : SealKept db c.id)
    (prepared n : Nat) : ∃ db', db.prepareHeads now r prepared n = .ok db' ∧
      db'.head = db.head ∧ db'.claims = db.claims ∧ SealKept db' c.id := by
  obtain ⟨base, hbase⟩ := h.base_ok
  have hmem : ∀ claim ∈ (db.claimsById.drop prepared).take n, claim ∈ db.claims := by
    intro claim hclaim
    have hin := List.mem_of_mem_drop (List.mem_of_mem_take hclaim)
    exact (List.mem_insertionSort _).mp hin
  have hstay : headsSealed c → (((db.claimsById.drop prepared).take n).foldl
      (prepareClaim base c) db.know).heads = db.know.heads := by
    intro hsealed
    refine prepareClaims_heads _ _ fun claim hclaim => ?_
    exact hkept c h.row hsealed base hbase claim (hmem claim hclaim)
  refine ⟨db.withKnow (((db.claimsById.drop prepared).take n).foldl (prepareClaim base c)
    db.know), ?_, rfl, rfl, ?_⟩
  · unfold prepareHeads
    rw [hid, h.row_ok, ok_bind, hbase, ok_bind, checkTuple, require, if_pos htuple, ok_bind]
    simp only
    rw [require, if_pos]
    · rfl
    · intro hsealed
      simp only [headsStay, List.all_eq_true, decide_eq_true_eq]
      intro claim _
      rw [hstay hsealed]
  · intro x hx hsealed
    have hx' : db.snapshot? c.id = some x := hx
    rw [h.row] at hx'
    obtain rfl := Option.some.inj hx'
    intro base' hbase' claim hclaim
    have hb : db.baseRow c = .ok base' := hbase'
    have hheads := hstay hsealed
    rw [withKnow_know, hheads, preparedHead_congr hheads]
    exact hkept c h.row hsealed base' hb claim hclaim

end Seal

/-! ## What a transaction raises -/

/-- The errors of the lane but that of the trigger. -/
def IsActivation (e : ActivationError) : Prop := (ChangeError.step e).isActivationError = true

section Errors

variable {db : MemoryDb} {now : Nat} {r : Runner} {e : ActivationError}

theorem checkTuple_error (h : db.checkTuple now r = .error e) : IsActivation e := by
  obtain ⟨-, rfl⟩ := require_eq_error.mp h
  rfl

theorem row_error {s : SnapshotId} (h : db.row s = .error e) : IsActivation e := by
  unfold row at h
  split at h
  · cases h
  · cases h
    rfl

theorem checkQuiesced_error (h : db.checkQuiesced = .error e) : IsActivation e := by
  rcases bind_eq_error.mp h with h | ⟨_, -, h⟩
  · obtain ⟨-, rfl⟩ := require_eq_error.mp h
    rfl
  · obtain ⟨-, rfl⟩ := require_eq_error.mp h
    rfl

theorem verifyAndSeal_error {digest : List (ClaimId × Head) → String}
    (h : db.verifyAndSeal digest now r = .error e) : IsActivation e := by
  rcases bind_eq_error.mp h with h | ⟨_, -, h⟩
  · exact checkTuple_error h
  · rcases bind_eq_error.mp h with h | ⟨c, -, h⟩
    · exact row_error h
    · split at h
      · cases h
      · rcases bind_eq_error.mp h with h | ⟨_, -, h⟩
        · obtain ⟨-, rfl⟩ := require_eq_error.mp h
          rfl
        · rcases bind_eq_error.mp h with h | ⟨_, -, h⟩
          · obtain ⟨-, rfl⟩ := require_eq_error.mp h
            rfl
          · cases h

theorem publishReady_error (h : db.publishReady now r = .error e) : IsActivation e := by
  rcases bind_eq_error.mp h with h | ⟨_, -, h⟩
  · exact checkTuple_error h
  · rcases bind_eq_error.mp h with h | ⟨c, -, h⟩
    · exact row_error h
    · split at h
      · rcases bind_eq_error.mp h with h | ⟨_, -, h⟩
        · obtain ⟨-, rfl⟩ := require_eq_error.mp h
          rfl
        · cases h
      · split at h
        · cases h
        · cases h
          rfl

theorem flip_error (h : db.flip now r = .error e) : IsActivation e := by
  rcases bind_eq_error.mp h with h | ⟨c, -, h⟩
  · exact row_error h
  · rcases bind_eq_error.mp h with h | ⟨_, -, h⟩
    · exact checkTuple_error h
    · split at h
      · rcases bind_eq_error.mp h with h | ⟨_, -, h⟩
        · obtain ⟨-, rfl⟩ := require_eq_error.mp h
          rfl
        · cases h
      · rcases bind_eq_error.mp h with h | ⟨_, -, h⟩
        · obtain ⟨-, rfl⟩ := require_eq_error.mp h
          rfl
        · rcases bind_eq_error.mp h with h | ⟨_, -, h⟩
          · exact checkQuiesced_error h
          · rcases bind_eq_error.mp h with h | ⟨_, -, h⟩
            · obtain ⟨-, rfl⟩ := require_eq_error.mp h
              rfl
            · rcases bind_eq_error.mp h with h | ⟨_, -, h⟩
              · obtain ⟨-, rfl⟩ := require_eq_error.mp h
                rfl
              · rcases bind_eq_error.mp h with h | ⟨_, -, h⟩
                · obtain ⟨-, rfl⟩ := require_eq_error.mp h
                  rfl
                · cases h

end Errors

/-! ## The run that is left alone -/

/-- What the run keeps from its upsert to its end: it works on the candidate `s`, under a
lease that outlives it once it has the slot. -/
structure Resuming (q : ConfigRequest) (ticks : Nat → ChangeTick) (s : SnapshotId) (n : Nat)
    (p : MemoryDb × ChangePhase) : Prop where
  finds : p.1.At q p.2
  candidate : p.2.candidate? = some s
  expired : p.2.runner? = none → ∀ k, p.1.leaseLive (ticks k).now = false
  live : p.2.runner? ≠ none → ∀ k, p.1.leaseLive (ticks k).now = true
  error : ∀ e, p.2.error? = some e → e.isActivationError = true
  draft : p.2.isDraining → p.1.inState s [.draft]
  quiet : ∀ r, p.2 = .confirm r → p.1.checkQuiesced = .ok ()
  kept : p.2.isPreparing → p.1.SealKept s ∧ p.1.claims.length = n

/-- A step of the run: it ends, or goes on with less to do, or waits for a deadline. -/
def GoesOn (q : ConfigRequest) (ticks : Nat → ChangeTick) (s : SnapshotId) (n : Nat)
    (phase : ChangePhase) (late : Bool) (p : MemoryDb × ChangePhase) : Prop :=
  RunEnds s p ∨ (Resuming q ticks s n p ∧
    (p.2.rank n < phase.rank n ∨ (p.2.rank n ≤ phase.rank n ∧ ¬ late)))

section Progress

variable {digest : List (ClaimId × Head) → String} {q : ConfigRequest} {o : ChangeOptions}
  {ticks : Nat → ChangeTick} {s : SnapshotId} {n : Nat} {db db' : MemoryDb} {r : Runner}

theorem leaseLive_congr (h : db'.head = db.head) (now : Nat) :
    db'.leaseLive now = db.leaseLive now := by
  unfold leaseLive
  rw [h]

/-- The run holds the slot and the heads are prepared. -/
theorem Resuming.sealed {phase : ChangePhase} (hat : db.At q phase)
    (hr : phase.runner? = some r) (hs : phase.candidate? = some s)
    (hlive : ∀ k, db.leaseLive (ticks k).now = true)
    (herror : ∀ e, phase.error? = some e → e.isActivationError = true)
    (hdrain : phase.isDraining = false) (hprep : phase.isPreparing = false) :
    Resuming q ticks s n (db, phase) where
  finds := hat
  candidate := hs
  expired := fun hnone => by simp [hr] at hnone
  live := fun _ => hlive
  error := herror
  draft := fun h => by simp [hdrain] at h
  quiet := by
    rintro r rfl
    cases hdrain
  kept := fun h => by simp [hprep] at h

/-- An error before the flip takes the run to its handler. -/
theorem GoesOn.caught {phase : ChangePhase} {late : Bool} {e : ChangeError}
    (hat : EarlyAt q db r.candidate) (hheld : Holds db r) (hs : r.candidate = s)
    (hlive : ∀ k, db.leaseLive (ticks k).now = true) (he : e.isActivationError = true)
    (hrank : 2 < phase.rank n) : GoesOn q ticks s n phase late (db, .caught r e) := by
  have hcaught : ChangePhase.caught r e = .handler r e := if_pos he
  rw [hcaught]
  refine .inr ⟨.sealed ⟨hat, hheld⟩ rfl (congrArg some hs) hlive ?_ rfl rfl, .inl hrank⟩
  intro e' he'
  cases he'
  exact he

/-! ### To the slot -/

theorem Resuming.early (h : Resuming q ticks s n (db, .early s)) (k : Nat) :
    GoesOn q ticks s n (.early s) (ticks k).late
      (db.changeStep digest q o (ticks k) (.early s)) := by
  have hnext : (EarlyAt q db s ∨ OpenAt q db s) → ∀ state, GoesOn q ticks s n (.early s)
      (ticks k).late (db, .slot s state) := by
    intro hat state
    refine .inr ⟨⟨hat, rfl, fun _ => h.expired rfl, fun hr => absurd rfl hr,
      fun _ hr => (by cases hr), fun hr => (by cases hr),
      fun _ hr => (by cases hr), fun _ => h.kept rfl⟩, .inl ?_⟩
    simp only [ChangePhase.rank]
    omega
  rcases h.finds with ⟨c, rfl, hc⟩ | ⟨c, rfl, hc⟩ | ⟨c, rfl, hc, hst⟩
  · have hne : c.state ≠ .postPublishBlocked := by
      intro heq
      have hst := hc.state
      simp [earlyStates, heq] at hst
    simp only [changeStep, hc.row_ok, after, if_neg hne]
    exact hnext (.inl ⟨c, rfl, hc⟩) c.state
  · simp only [changeStep, hc.row_ok, after, hc.state, reduceCtorEq, if_false]
    exact hnext (.inr ⟨c, rfl, hc⟩) _
  · simp only [changeStep, MemoryDb.row_ok.mpr hc.row, after, hst, if_true]
    refine .inl (.published db _ hc.inForce ?_)
    simp [inState, hc.row, hst]

/-- The slot is empty, or the candidate's with a lease that is over. -/
theorem Resuming.slotOf {phase : ChangePhase} (h : Resuming q ticks s n (db, phase))
    (hat : EarlyAt q db s ∨ OpenAt q db s) :
    db.head.activating = none ∨ db.head.activating = some s := by
  rcases hat with ⟨c, rfl, hc⟩ | ⟨c, rfl, hc⟩
  · exact hc.slot
  · exact hc.slot

theorem Resuming.slot {early : ActivationState} (h : Resuming q ticks s n (db, .slot s early))
    (k : Nat) : GoesOn q ticks s n (.slot s early) (ticks k).late
      (db.changeStep digest q o (ticks k) (.slot s early)) := by
  have hphase : db.slotPhase (ticks k).now o.owner s early = .drain s := by
    unfold slotPhase
    rcases h.slotOf h.finds with hnone | hsome
    · rw [hnone]
    · have hdead := h.expired rfl k
      simp only [hsome, ne_eq, not_true_eq_false, if_false, hdead, Bool.false_eq_true,
        not_false_eq_true, if_true]
  simp only [changeStep, hphase]
  refine .inr ⟨⟨h.finds, rfl, fun _ => h.expired rfl, fun hr => absurd rfl hr,
    fun _ hr => (by cases hr), fun hr => (by cases hr),
    fun _ hr => (by cases hr), fun _ => h.kept rfl⟩, .inl ?_⟩
  simp only [ChangePhase.rank]
  omega

/-- The drain takes the slot. -/
theorem publishDrain_expired {c : ConfigSnapshot} {now lease : Nat} {owner : String}
    (hrow : db.row s = .ok c)
    (hslot : db.head.activating = none ∨ db.head.activating = some s)
    (hdead : db.leaseLive now = false) :
    db.publishDrain now lease s owner = .ok (db.takeSlot now lease c owner) := by
  unfold publishDrain
  rw [hrow, ok_bind]
  rcases hslot with hnone | hsome
  · rw [hnone]
    rfl
  · rw [hsome]
    simp [hdead]

theorem Resuming.drain (h : Resuming q ticks s n (db, .drain s)) (k : Nat)
    (hlease : ∀ i, (ticks i).now < (ticks k).now + o.lease) :
    GoesOn q ticks s n (.drain s) (ticks k).late
      (db.changeStep digest q o (ticks k) (.drain s)) := by
  obtain ⟨c, hid, hrow, hkept⟩ : ∃ c, c.id = s ∧ db.row s = .ok c ∧
      SealKept (db.takeSlot (ticks k).now o.lease c o.owner) s := by
    rcases h.finds with ⟨c, rfl, hc⟩ | ⟨c, rfl, hc⟩
    · refine ⟨c, rfl, hc.row_ok, ?_⟩
      have hsame : SameCandidate c { c with mode := .online } :=
        ⟨rfl, rfl, rfl, hc.mine.2.2.1.symm, rfl⟩
      refine hc.sealKept (h.kept rfl).1 hsame ?_ rfl rfl rfl
      intro hsealed
      simp only [headsSealed, hc.mine.2.2.1] at hsealed ⊢
      exact hsealed
    · refine ⟨c, rfl, hc.row_ok, ?_⟩
      intro x hx hsealed
      have hset : (db.setSnapshot { c with mode := .online }).snapshot? c.id =
          some { c with mode := .online } := setSnapshot_same rfl hc.row
      have hx' : (db.setSnapshot { c with mode := .online }).snapshot? c.id = some x := hx
      rw [hset] at hx'
      obtain rfl := Option.some.inj hx'
      simp [headsSealed, hc.state] at hsealed
  have hdrain := @publishDrain_expired s db c (ticks k).now o.lease o.owner hrow
    (h.slotOf h.finds) (h.expired rfl k)
  have hat := publishDrain_keeps hdrain h.finds
  have hholds := (publishDrain_holds hdrain).1
  simp only [changeStep, hdrain, after]
  refine .inr ⟨⟨⟨hat, hholds⟩, rfl, fun hr => (by cases hr), fun _ i => ?_,
    fun _ hr => (by cases hr), fun hr => (by cases hr), fun _ hr => (by cases hr),
    fun _ => ⟨hkept, (h.kept rfl).2⟩⟩, .inl ?_⟩
  · simp only [leaseLive, takeSlot, Option.any_some, decide_eq_true_eq]
    exact hlease i
  · simp only [ChangePhase.rank]
    omega

/-! ### The drain -/

theorem Resuming.drained (h : Resuming q ticks s n (db, .drained r)) (k : Nat) :
    GoesOn q ticks s n (.drained r) (ticks k).late
      (db.changeStep digest q o (ticks k) (.drained r)) := by
  have hs : r.candidate = s := Option.some.inj h.candidate
  have hlive := h.live (by simp [ChangePhase.runner?])
  obtain ⟨hat, hheld⟩ := h.finds
  have hrow : ∃ c, db.row r.candidate = .ok c := by
    rcases hat with ⟨c, hid, hc⟩ | ⟨c, hid, hc⟩
    · exact ⟨c, by rw [← hid, hc.row_ok]⟩
    · exact ⟨c, by rw [← hid, hc.row_ok]⟩
  obtain ⟨c, hrow⟩ := hrow
  simp only [changeStep, hrow, after]
  split
  · rename_i hdraft
    have hearly : EarlyAt q db r.candidate := by
      refine hat.resolve_right ?_
      rintro ⟨x, hid, hx⟩
      rw [← hid, hx.row_ok] at hrow
      rw [← Except.ok.inj hrow, hx.state] at hdraft
      cases hdraft
    refine .inr ⟨⟨⟨hearly, hheld⟩, h.candidate, fun hr => (by cases hr), fun _ => hlive,
      fun _ hr => (by cases hr),
      fun _ => ?_, fun _ hr => (by cases hr), fun _ => h.kept rfl⟩, .inl ?_⟩
    · rw [← hs]
      simp [inState, MemoryDb.row_ok.mp hrow, hdraft]
    · simp only [ChangePhase.rank]
      omega
  · refine .inr ⟨⟨⟨hat, hheld⟩, h.candidate, fun hr => (by cases hr), fun _ => hlive,
    fun _ hr => (by cases hr),
      fun hr => (by cases hr), fun _ hr => (by cases hr), fun _ => h.kept rfl⟩, .inl ?_⟩
    simp only [ChangePhase.rank]
    omega

theorem Resuming.wait (h : Resuming q ticks s n (db, .wait r)) (k : Nat) :
    GoesOn q ticks s n (.wait r) (ticks k).late
      (db.changeStep digest q o (ticks k) (.wait r)) := by
  have hlive := h.live (by simp [ChangePhase.runner?])
  obtain ⟨hat, hheld⟩ := h.finds
  have htuple : db.checkTuple (ticks k).now r = .ok () :=
    require_eq_ok.mpr (hheld.tupleOk (hlive k))
  simp only [changeStep, htuple, after]
  unfold waitPhase
  split
  · rename_i hquiet
    refine .inr ⟨⟨⟨hat, hheld⟩, h.candidate, fun hr => (by cases hr), fun _ => hlive,
      fun _ hr => (by cases hr),
      fun _ => h.draft rfl, fun _ _ => hquiet, fun _ => h.kept rfl⟩, .inl ?_⟩
    simp only [ChangePhase.rank]
    omega
  · split
    · refine .inr ⟨⟨⟨hat, hheld⟩, h.candidate, fun hr => (by cases hr), fun _ => hlive, ?_,
        fun _ => h.draft rfl, fun _ hr => (by cases hr), fun _ => h.kept rfl⟩, .inl ?_⟩
      · intro e he
        cases he
        rfl
      · simp only [ChangePhase.rank]
        omega
    · rename_i hlate
      exact .inr ⟨h, .inr ⟨Nat.le_refl _, hlate⟩⟩

theorem Resuming.cancel {e : ChangeError} (h : Resuming q ticks s n (db, .cancel r e)) (k : Nat) :
    GoesOn q ticks s n (.cancel r e) (ticks k).late
      (db.changeStep digest q o (ticks k) (.cancel r e)) := by
  have hlive := h.live (by simp [ChangePhase.runner?])
  obtain ⟨hat, hheld⟩ := h.finds
  have hcancel : db.cancelDrain (ticks k).now r = .ok db.clearSlot := by
    unfold cancelDrain checkTuple
    rw [require, if_pos (hheld.tupleOk (hlive k))]
    rfl
  simp only [changeStep, hcancel, after]
  exact .inl (.cancelled db.clearSlot e (h.draft rfl) rfl (h.error e rfl))

theorem Resuming.confirm (h : Resuming q ticks s n (db, .confirm r)) (k : Nat) :
    GoesOn q ticks s n (.confirm r) (ticks k).late
      (db.changeStep digest q o (ticks k) (.confirm r)) := by
  have hs : r.candidate = s := Option.some.inj h.candidate
  have hlive := h.live (by simp [ChangePhase.runner?])
  obtain ⟨⟨c, hid, hc⟩, hheld⟩ := h.finds
  simp only [changeStep]
  split
  · -- the gate is ours
    have hdraft : c.state = .draft := by
      have hin := h.draft rfl
      rw [← hs, ← hid] at hin
      simpa [inState, hc.row] using hin
    have hconfirm : db.confirmDrain (ticks k).now r =
        .ok (db.setSnapshot { c with state := .preparingHeads }) := by
      unfold confirmDrain checkTuple
      rw [require, if_pos (hheld.tupleOk (hlive k)), ok_bind, h.quiet r rfl, ok_bind, ← hid,
        hc.row_ok, ok_bind, if_pos hdraft]
      rfl
    obtain ⟨hearly, hheld'⟩ := EarlyAt.held (confirmDrain_early hc hid.symm hconfirm) hheld
    have hkept : SealKept (db.setSnapshot { c with state := .preparingHeads }) s := by
      have hold := (h.kept rfl).1
      have hsame : SameCandidate c { c with state := .preparingHeads } :=
        ⟨rfl, rfl, rfl, rfl, rfl⟩
      rw [← hs, ← hid] at hold ⊢
      exact hc.sealKept hold hsame (by simp [headsSealed]) rfl rfl rfl
    simp only [hconfirm, after]
    refine .inr ⟨⟨⟨.inl hearly, hheld'⟩, h.candidate, fun hr => (by cases hr), fun _ => hlive,
      fun _ hr => (by cases hr), fun hr => (by cases hr), fun _ hr => (by cases hr), fun _ => ⟨hkept,
        (h.kept rfl).2⟩⟩, .inl ?_⟩
    simp only [ChangePhase.rank]
    omega
  · split
    · refine .inr ⟨⟨⟨⟨c, hid, hc⟩, hheld⟩, h.candidate, fun hr => (by cases hr), fun _ => hlive,
        ?_, fun _ => h.draft rfl, fun _ hr => (by cases hr), fun _ => h.kept rfl⟩, .inl ?_⟩
      · intro e he
        cases he
        rfl
      · simp only [ChangePhase.rank]
        omega
    · rename_i hlate
      exact .inr ⟨h, .inr ⟨Nat.le_refl _, hlate⟩⟩

/-! ### The cohort -/

theorem Resuming.resume (h : Resuming q ticks s n (db, .resume r)) (k : Nat) :
    GoesOn q ticks s n (.resume r) (ticks k).late
      (db.changeStep digest q o (ticks k) (.resume r)) := by
  have hs : r.candidate = s := Option.some.inj h.candidate
  have hlive := h.live (by simp [ChangePhase.runner?])
  obtain ⟨hat, hheld⟩ := h.finds
  rcases hat with ⟨c, hid, hc⟩ | ⟨c, hid, hc⟩
  · have hrow : db.row r.candidate = .ok c := by rw [← hid, hc.row_ok]
    have hne : c.state ≠ .postPublish := by
      intro heq
      have hst := hc.state
      simp [earlyStates, heq] at hst
    simp only [changeStep, hrow, after, ChangePhase.ofState, if_neg hne]
    split
    · refine .inr ⟨⟨⟨⟨c, hid, hc⟩, hheld⟩, h.candidate, fun hr => (by cases hr), fun _ => hlive,
        fun _ hr => (by cases hr), fun hr => (by cases hr), fun _ hr => (by cases hr),
          fun _ => h.kept rfl⟩, .inl ?_⟩
      simp only [ChangePhase.rank]
      omega
    · refine .caught ⟨c, hid, hc⟩ hheld hs hlive rfl ?_
      simp only [ChangePhase.rank]
      omega
  · have hrow : db.row r.candidate = .ok c := by rw [← hid, hc.row_ok]
    have hout : c.state ∉ preparing := by simp [preparing, hc.state]
    simp only [changeStep, hrow, after, ChangePhase.ofState, if_neg hout, if_pos hc.state]
    refine .inr ⟨.sealed ⟨.inr ⟨c, hid, hc⟩, hheld⟩ rfl h.candidate hlive
      (fun _ he => by cases he) rfl rfl, .inl ?_⟩
    simp only [ChangePhase.rank]
    omega

theorem Resuming.freeze (h : Resuming q ticks s n (db, .freeze r)) (k : Nat) :
    GoesOn q ticks s n (.freeze r) (ticks k).late
      (db.changeStep digest q o (ticks k) (.freeze r)) := by
  have hs : r.candidate = s := Option.some.inj h.candidate
  have hlive := h.live (by simp [ChangePhase.runner?])
  obtain ⟨⟨c, hid, hc⟩, hheld⟩ := h.finds
  obtain ⟨hkept, hclaims⟩ := h.kept rfl
  rw [← hs, ← hid] at hkept
  have hfreeze : ∃ db', db.freezeCohort (ticks k).now r = .ok db' ∧ SealKept db' c.id ∧
      db'.claims = db.claims := by
    unfold freezeCohort checkTuple
    rw [require, if_pos (hheld.tupleOk (hlive k)), ok_bind, ← hid, hc.row_ok, ok_bind]
    split
    · exact ⟨_, rfl, hkept, rfl⟩
    · have hsame : SameCandidate c { c with
          state := .preparingHeads
          cohortRevision := some db.know.revision
          expectedHeadCount := some db.claims.length } := ⟨rfl, rfl, rfl, rfl, rfl⟩
      exact ⟨_, rfl, hc.sealKept hkept hsame (by simp [headsSealed]) rfl rfl rfl, rfl⟩
  obtain ⟨db', hok, hkept', hclaims'⟩ := hfreeze
  have hnext := freezeCohort_early hc hid.symm hok
  obtain ⟨hearly, hheld'⟩ := EarlyAt.held hnext hheld
  simp only [changeStep, hok, after]
  refine .inr ⟨⟨⟨hearly, hheld'⟩, h.candidate, fun hr => (by cases hr), fun _ i => ?_,
    fun _ hr => (by cases hr),
    fun hr => (by cases hr), fun _ hr => (by cases hr), fun _ => ⟨?_, hclaims'.symm ▸ hclaims⟩⟩,
      .inl ?_⟩
  · rw [leaseLive_congr hnext.2]
    exact hlive i
  · rwa [← hs, ← hid]
  · simp only [ChangePhase.rank]
    omega

theorem length_claimsById (db : MemoryDb) : db.claimsById.length = db.claims.length :=
  List.length_insertionSort _ _

/-- A batch that is not empty has claims in front of it. -/
theorem nextBatch_lt {prepared size : Nat} (h : db.nextBatch prepared size ≠ []) :
    prepared < db.claims.length ∧ 0 < (db.nextBatch prepared size).length := by
  have hpos := List.length_pos_iff.mpr h
  refine ⟨?_, hpos⟩
  unfold nextBatch at hpos
  rw [List.length_take, List.length_drop, length_claimsById] at hpos
  omega

theorem Resuming.prepare {prepared : Nat} (h : Resuming q ticks s n (db, .prepare r prepared))
    (k : Nat) : GoesOn q ticks s n (.prepare r prepared) (ticks k).late
      (db.changeStep digest q o (ticks k) (.prepare r prepared)) := by
  have hs : r.candidate = s := Option.some.inj h.candidate
  have hlive := h.live (by simp [ChangePhase.runner?])
  obtain ⟨⟨c, hid, hc⟩, hheld⟩ := h.finds
  obtain ⟨hkept, hclaims⟩ := h.kept rfl
  rw [← hs, ← hid] at hkept
  obtain ⟨base, hbase⟩ := hc.base_ok
  have hrows : (db.row r.candidate >>= db.baseRow) = .ok base := by
    rw [← hid, hc.row_ok, ok_bind, hbase]
  simp only [changeStep, hrows, after]
  split
  · refine .inr ⟨.sealed ⟨⟨c, hid, hc⟩, hheld⟩ rfl h.candidate hlive
      (fun _ he => by cases he) rfl rfl, .inl ?_⟩
    simp only [ChangePhase.rank]
    omega
  · rename_i hbatch
    obtain ⟨db', hok, hhead, hclaims', hkept'⟩ := hc.prepare_ok hid.symm
      (hheld.tupleOk (hlive k)) hkept prepared o.prepareBatch
    obtain ⟨hearly, hheld'⟩ := EarlyAt.held (prepareHeads_early hc hid.symm hok) hheld
    simp only [hok]
    refine .inr ⟨⟨⟨hearly, hheld'⟩, h.candidate, fun hr => (by cases hr), fun _ i => ?_,
      fun _ hr => (by cases hr),
      fun hr => (by cases hr), fun _ hr => (by cases hr), fun _ => ⟨?_, hclaims'.symm ▸ hclaims⟩⟩,
        .inl ?_⟩
    · rw [leaseLive_congr hhead]
      exact hlive i
    · rwa [← hs, ← hid]
    · obtain ⟨hlt, hpos⟩ := nextBatch_lt hbatch
      have hn : db.claims.length = n := hclaims
      simp only [ChangePhase.rank]
      omega

/-- A transaction before the flip whose errors the handler takes. -/
theorem Resuming.handled {tx : Except ActivationError MemoryDb} {phase next : ChangePhase}
    {late : Bool} (hat : EarlyAt q db r.candidate) (hheld : Holds db r) (hs : r.candidate = s)
    (hlive : ∀ k, db.leaseLive (ticks k).now = true)
    (herror : ∀ e, tx = .error e → IsActivation e) (hrank : 2 < phase.rank n)
    (hok : ∀ db', tx = .ok db' → db'.At q next ∧ db'.head = db.head)
    (hnext : next.runner? = some r) (hcand : next.candidate? = some r.candidate)
    (hplain : next.error? = none) (hdrain : next.isDraining = false)
    (hprep : next.isPreparing = false) (hless : next.rank n < phase.rank n) :
    GoesOn q ticks s n phase late
      (db.after tx (ChangePhase.caught r) fun db' => (db', next)) := by
  refine after_cases ?_ ?_
  · intro e he
    exact .caught hat hheld hs hlive (herror e he) hrank
  · intro db' hdb'
    obtain ⟨hat', hhead⟩ := hok db' hdb'
    refine .inr ⟨.sealed hat' hnext (by rw [hcand, hs]) ?_ ?_ hdrain hprep, .inl hless⟩
    · intro k
      rw [leaseLive_congr hhead]
      exact hlive k
    · intro e he
      rw [hplain] at he
      cases he

theorem Resuming.verify (h : Resuming q ticks s n (db, .verify r)) (k : Nat) :
    GoesOn q ticks s n (.verify r) (ticks k).late
      (db.changeStep digest q o (ticks k) (.verify r)) := by
  have hlive := h.live (by simp [ChangePhase.runner?])
  obtain ⟨⟨c, hid, hc⟩, hheld⟩ := h.finds
  refine Resuming.handled ⟨c, hid, hc⟩ hheld (Option.some.inj h.candidate) hlive
    (fun e => verifyAndSeal_error) ?_ ?_ rfl rfl rfl rfl rfl ?_
  · simp only [ChangePhase.rank]
    omega
  · intro db' hverify
    have hnext := verifyAndSeal_early hc hid.symm hverify
    exact ⟨⟨.inl hnext.1, hheld.congr hnext.2⟩, hnext.2⟩
  · simp only [ChangePhase.rank]
    omega

/-! ### The flip -/

theorem Resuming.ofSealed (h : Resuming q ticks s n (db, .sealed r)) (k : Nat) :
    GoesOn q ticks s n (.sealed r) (ticks k).late
      (db.changeStep digest q o (ticks k) (.sealed r)) := by
  have hs : r.candidate = s := Option.some.inj h.candidate
  have hlive := h.live (by simp [ChangePhase.runner?])
  obtain ⟨hat, hheld⟩ := h.finds
  rcases hat with ⟨c, hid, hc⟩ | ⟨c, hid, hc⟩
  · have hrow : db.row r.candidate = .ok c := by rw [← hid, hc.row_ok]
    have hne : c.state ≠ .postPublish := by
      intro heq
      have hst := hc.state
      simp [earlyStates, heq] at hst
    simp only [changeStep, hrow, after, ChangePhase.ofSealed, if_neg hne]
    split
    · refine .inr ⟨.sealed ⟨⟨c, hid, hc⟩, hheld⟩ rfl h.candidate hlive
        (fun _ he => by cases he) rfl rfl, .inl ?_⟩
      simp only [ChangePhase.rank]
      omega
    · refine .caught ⟨c, hid, hc⟩ hheld hs hlive rfl ?_
      simp only [ChangePhase.rank]
      omega
  · have hrow : db.row r.candidate = .ok c := by rw [← hid, hc.row_ok]
    have hne : c.state ≠ .ready := by simp [hc.state]
    simp only [changeStep, hrow, after, ChangePhase.ofSealed, if_neg hne, if_pos hc.state]
    refine .inr ⟨.sealed ⟨⟨c, hid, hc⟩, hheld⟩ rfl h.candidate hlive
      (fun _ he => by cases he) rfl rfl, .inl ?_⟩
    simp only [ChangePhase.rank]
    omega

theorem Resuming.publish (h : Resuming q ticks s n (db, .publish r)) (k : Nat) :
    GoesOn q ticks s n (.publish r) (ticks k).late
      (db.changeStep digest q o (ticks k) (.publish r)) := by
  have hlive := h.live (by simp [ChangePhase.runner?])
  obtain ⟨⟨c, hid, hc⟩, hheld⟩ := h.finds
  refine Resuming.handled ⟨c, hid, hc⟩ hheld (Option.some.inj h.candidate) hlive
    (fun e => publishReady_error) ?_ ?_ rfl rfl rfl rfl rfl ?_
  · simp only [ChangePhase.rank]
    omega
  · intro db' hpublish
    have hnext := publishReady_early hc hid.symm hpublish
    exact ⟨⟨hnext.1, hheld.congr hnext.2⟩, hnext.2⟩
  · simp only [ChangePhase.rank]
    omega

theorem Resuming.flip (h : Resuming q ticks s n (db, .flip r)) (k : Nat) :
    GoesOn q ticks s n (.flip r) (ticks k).late
      (db.changeStep digest q o (ticks k) (.flip r)) := by
  have hlive := h.live (by simp [ChangePhase.runner?])
  obtain ⟨⟨c, hid, hc⟩, hheld⟩ := h.finds
  refine Resuming.handled ⟨c, hid, hc⟩ hheld (Option.some.inj h.candidate) hlive
    (fun e => flip_error) ?_ ?_ rfl rfl rfl rfl rfl ?_
  · simp only [ChangePhase.rank]
    omega
  · intro db' hflip
    have hnext := flip_early hc hid.symm hflip
    exact ⟨⟨hnext.1, hheld.congr hnext.2⟩, hnext.2⟩
  · simp only [ChangePhase.rank]
    omega

/-! ### The manifest -/

/-- The manifest is open, and the run returns. -/
theorem Open.ends {c : ConfigSnapshot} (h : Open q db c) :
    RunEnds c.id (db, .returned c.id .postPublish) :=
  .published db _ h.inForce (by simp [inState, h.row, h.state])

theorem Resuming.gate (h : Resuming q ticks s n (db, .gate r)) (k : Nat) :
    GoesOn q ticks s n (.gate r) (ticks k).late
      (db.changeStep digest q o (ticks k) (.gate r)) := by
  have hs : r.candidate = s := Option.some.inj h.candidate
  have hlive := h.live (by simp [ChangePhase.runner?])
  obtain ⟨⟨c, hid, hc⟩, hheld⟩ := h.finds
  simp only [changeStep]
  split
  · refine .inr ⟨.sealed ⟨⟨c, hid, hc⟩, hheld⟩ rfl h.candidate hlive
      (fun _ he => by cases he) rfl rfl, .inl ?_⟩
    simp only [ChangePhase.rank]
    omega
  · rw [← hid, hc.row_ok, ← hs, ← hid]
    simp only [after, hc.state]
    exact .inl hc.ends

theorem Resuming.postPublish {batches : Nat}
    (h : Resuming q ticks s n (db, .postPublish r batches)) (k : Nat) :
    GoesOn q ticks s n (.postPublish r batches) (ticks k).late
      (db.changeStep digest q o (ticks k) (.postPublish r batches)) := by
  have hs : r.candidate = s := Option.some.inj h.candidate
  have hlive := h.live (by simp [ChangePhase.runner?])
  obtain ⟨⟨c, hid, hc⟩, hheld⟩ := h.finds
  cases batches with
  | zero =>
    simp only [changeStep]
    rw [← hid, hc.row_ok, ← hs, ← hid]
    simp only [after, ChangePhase.ofPublished, hc.state, true_or, if_true]
    rw [← hid]
    exact .inl hc.ends
  | succ batches =>
    obtain ⟨p, hp, hend⟩ := @runPostPublish_open q db c r (ticks k).now hc hid.symm
      postPublishBatch
    simp only [changeStep, hp, after]
    rcases hend with rfl | ⟨cursor, created, hout, hopen, hhead⟩ |
      ⟨cursor, c', hout, hid', hthrough⟩
    · rw [← hs, ← hid]
      exact .inl hc.ends
    · simp only [hout]
      refine .inr ⟨.sealed ⟨hopen, hheld.congr hhead⟩ rfl h.candidate ?_
        (fun _ he => by cases he) rfl rfl, .inl ?_⟩
      · intro i
        rw [leaseLive_congr hhead]
        exact hlive i
      · simp only [ChangePhase.rank]
        omega
    · simp only [hout]
      rw [← hs]
      refine .inl (.published p.1 _ (by rw [hthrough.inForce, hid']) ?_)
      have hst := hthrough.state
      rw [← hid']
      simp only [inState, hthrough.row, Option.any_some, decide_eq_true_eq]
      simp only [List.mem_cons, List.not_mem_nil, or_false] at hst ⊢
      exact .inr hst

/-! ### The handler -/

theorem Resuming.handler {e : ChangeError} (h : Resuming q ticks s n (db, .handler r e))
    (k : Nat) : GoesOn q ticks s n (.handler r e) (ticks k).late
      (db.changeStep digest q o (ticks k) (.handler r e)) := by
  have hlive := h.live (by simp [ChangePhase.runner?])
  obtain ⟨⟨c, hid, hc⟩, hheld⟩ := h.finds
  have hrow : db.row r.candidate = .ok c := by rw [← hid, hc.row_ok]
  have hgoes : c.state ∉ terminal := by
    have hst := hc.state
    simp only [earlyStates, List.mem_cons, List.not_mem_nil, or_false] at hst
    rcases hst with hs | hs | hs | hs <;> simp [terminal, hs]
  simp only [changeStep, hrow, after, if_neg hgoes]
  refine .inr ⟨.sealed ⟨⟨c, hid, hc⟩, hheld⟩ rfl h.candidate hlive ?_ rfl rfl, .inl ?_⟩
  · intro e' he'
    cases he'
    exact h.error e rfl
  · simp only [ChangePhase.rank]
    omega

theorem Resuming.cleanup {e : ChangeError} (h : Resuming q ticks s n (db, .cleanup r e))
    (k : Nat) : GoesOn q ticks s n (.cleanup r e) (ticks k).late
      (db.changeStep digest q o (ticks k) (.cleanup r e)) := by
  have hs : r.candidate = s := Option.some.inj h.candidate
  have hlive := h.live (by simp [ChangePhase.runner?])
  obtain ⟨⟨c, hid, hc⟩, hheld⟩ := h.finds
  have hfail : db.failActivation (ticks k).now r =
      .ok (db.setSnapshot { c with state := .failed }).clearSlot := by
    unfold failActivation
    rw [require, if_pos (.inr (hheld.tupleOk (hlive k))), ok_bind, ← hid, hc.row_ok, ok_bind]
    rfl
  obtain ⟨hidle, hfailed⟩ := failActivation_early hc hid.symm hfail
  simp only [changeStep, hfail, after]
  refine .inl (.failed _ e ?_ hidle.slot (h.error e rfl))
  rw [← hs, ← hid]
  obtain ⟨x, hx, hst⟩ := (Option.any_eq_true _ _).mp hfailed
  refine (Option.any_eq_true _ _).mpr ⟨x, hx, ?_⟩
  simp only [List.mem_singleton, decide_eq_true_eq] at hst
  simp [hst]

/-- **Every step of the run that is left alone goes on.** -/
theorem Resuming.step {p : MemoryDb × ChangePhase} (h : Resuming q ticks s n p) (k : Nat)
    (hlease : ∀ i, (ticks i).now < (ticks k).now + o.lease) :
    GoesOn q ticks s n p.2 (ticks k).late (p.1.changeStep digest q o (ticks k) p.2) := by
  obtain ⟨db, phase⟩ := p
  cases phase with
  | upsert => cases h.candidate
  | early s' =>
    obtain rfl := Option.some.inj h.candidate
    exact h.early k
  | slot s' early =>
    obtain rfl := Option.some.inj h.candidate
    exact h.slot k
  | drain s' =>
    obtain rfl := Option.some.inj h.candidate
    exact h.drain k hlease
  | drained r => exact h.drained k
  | wait r => exact h.wait k
  | cancel r e => exact h.cancel k
  | confirm r => exact h.confirm k
  | resume r => exact h.resume k
  | freeze r => exact h.freeze k
  | prepare r prepared => exact h.prepare k
  | verify r => exact h.verify k
  | sealed r => exact h.ofSealed k
  | publish r => exact h.publish k
  | flip r => exact h.flip k
  | gate r => exact h.gate k
  | postPublish r batches => exact h.postPublish k
  | backoff r e =>
    have hyes := h.error e rfl
    have hno : e.isActivationError = false := h.finds.2.2
    rw [hno] at hyes
    cases hyes
  | handler r e => exact h.handler k
  | cleanup r e => exact h.cleanup k
  | returned s' state => cases h.candidate
  | raised e => cases h.candidate

/-! ### From the upsert -/

/-- The upsert finds or writes the candidate. -/
theorem Resuming.start {k : Nat} (hstand : Standing q db)
    (hfresh : db.snapshot? (ticks k).id = none)
    (hdead : ∀ i, db.leaseLive (ticks i).now = false)
    (hkept : SealKept db (db.onlineCandidate (ticks k).id q)) :
    RunEnds (db.onlineCandidate (ticks k).id q) (db.changeStep digest q o (ticks k) .upsert) ∨
      Resuming q ticks (db.onlineCandidate (ticks k).id q) db.claims.length
        (db.changeStep digest q o (ticks k) .upsert) := by
  have hat := @At.step digest q o db (ticks k) .upsert hstand hfresh
  revert hat
  simp only [changeStep]
  rcases hstand with hidle | ⟨s, ⟨c, hid, hc⟩ | ⟨c, hid, hc⟩ | ⟨c, hid, hc⟩⟩
  · obtain ⟨base, hbase, hne⟩ := hidle.base
    simp only [hbase, hne, false_and, if_false]
    intro hat
    obtain ⟨hcand, hearly⟩ := hidle.upsert hfresh
    refine .inr ⟨hat, rfl, fun _ i => ?_, fun hr => absurd rfl hr, fun _ hr => (by cases hr),
      fun hr => (by cases hr), fun _ hr => (by cases hr),
      fun _ => ⟨?_, ?_⟩⟩
    · have hhead : (db.upsertOnlineCandidate (ticks k).id q).head = db.head := by
        unfold upsertOnlineCandidate
        simp only
        split <;> rfl
      rw [leaseLive_congr hhead]
      exact hdead i
    · -- a new candidate is a draft
      intro x hx hsealed
      rw [hcand] at hx
      obtain rfl := Option.some.inj (hearly.row.symm.trans hx)
      simp [headsSealed, ConfigRequest.candidate] at hsealed
    · unfold upsertOnlineCandidate
      simp only
      split <;> rfl
  · obtain ⟨base, hbase, hne⟩ := hc.base
    simp only [hbase, hne, false_and, if_false]
    intro hat
    rw [(hc.upsert (ticks k).id).1] at hat ⊢
    exact .inr ⟨hat, rfl, fun _ => hdead, fun hr => absurd rfl hr, fun _ hr => (by cases hr),
      fun hr => (by cases hr), fun _ hr => (by cases hr),
      fun _ => ⟨hkept, rfl⟩⟩
  · have hbase : db.snapshot? db.effective = some c := by rw [hc.inForce, hc.row]
    simp only [hbase, hc.mine, hc.state, reduceCtorEq, and_false, if_false]
    intro hat
    rw [(upsert_inForce hc.row hc.inForce hc.mine (ticks k).id).1] at hat ⊢
    exact .inr ⟨hat, rfl, fun _ => hdead, fun hr => absurd rfl hr, fun _ hr => (by cases hr),
      fun hr => (by cases hr), fun _ hr => (by cases hr),
      fun _ => ⟨hkept, rfl⟩⟩
  · have hbase : db.snapshot? db.effective = some c := by rw [hc.inForce, hc.row]
    obtain ⟨hdb, hcand⟩ := upsert_inForce hc.row hc.inForce hc.mine (ticks k).id
    simp only [hbase, hc.mine, true_and]
    intro hat
    rw [hcand] at hkept ⊢
    by_cases hactive : c.state = .active
    · rw [if_pos hactive]
      exact .inl (.published db _ hc.inForce (by simp [inState, hc.row, hactive]))
    · rw [if_neg hactive, hdb, hcand] at hat
      rw [if_neg hactive, hdb]
      exact .inr ⟨hat, rfl, fun _ => hdead, fun hr => absurd rfl hr, fun _ hr => (by cases hr),
        fun hr => (by cases hr), fun _ hr => (by cases hr),
        fun _ => ⟨hkept, rfl⟩⟩

end Progress

end MemoryDb

/-! ## Every cut is finished -/

namespace ChangeWorld

end ChangeWorld

/-! ## Runs on a small node -/

section Examples

end Examples

end Noezema.Memory
