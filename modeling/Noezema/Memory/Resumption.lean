import Noezema.Lib.Leads
import Noezema.Memory.Fencing

/-! # A change that is run again

One change, its runs cut anywhere and started again, while the knowledge moves on. The
change stands in one of four ways: nothing of it is there (`Idle`), it has a candidate
before the flip (`Early`), its manifest is open (`Open`), or it is through (`Through`). A
run knows in each phase which of these it finds.
-/

namespace Noezema.Memory

open Noezema.Lib

namespace MemoryDb

/-! ## How a change stands -/

/-- What the upsert takes for an unfinished candidate of the change. -/
def Unfinished (q : ConfigRequest) (effective : SnapshotId) (r : ConfigSnapshot) : Prop :=
  r.baseSnapshotId = some effective ∧ r.payloadSha256 = q.payloadSha256 ∧
    r.mode = .online ∧ r.state ∉ [.failed, .active, .superseded]

/-- Another payload is in force. -/
def OtherInForce (q : ConfigRequest) (db : MemoryDb) : Prop :=
  ∃ base, db.snapshot? db.effective = some base ∧ base.payloadSha256 ≠ q.payloadSha256

/-- Nothing of the change is unfinished. -/
structure Idle (q : ConfigRequest) (db : MemoryDb) : Prop where
  base : OtherInForce q db
  free : ∀ r ∈ db.snapshots, ¬ Unfinished q db.effective r
  slot : db.head.activating = none

/-- The change has a candidate that is not flipped. -/
structure Early (q : ConfigRequest) (db : MemoryDb) (c : ConfigSnapshot) : Prop where
  base : OtherInForce q db
  row : db.snapshot? c.id = some c
  mine : Unfinished q db.effective c
  state : c.state ∈ earlyStates
  only : ∀ r ∈ db.snapshots, Unfinished q db.effective r → r.id = c.id
  slot : db.head.activating = none ∨ db.head.activating = some c.id

/-- The candidate is flipped, its manifest open. -/
structure Open (q : ConfigRequest) (db : MemoryDb) (c : ConfigSnapshot) : Prop where
  row : db.snapshot? c.id = some c
  inForce : db.effective = c.id
  mine : c.payloadSha256 = q.payloadSha256
  state : c.state = .postPublish
  slot : db.head.activating = none ∨ db.head.activating = some c.id

/-- The change is through, or left to the repair. -/
structure Through (q : ConfigRequest) (db : MemoryDb) (c : ConfigSnapshot) : Prop where
  row : db.snapshot? c.id = some c
  inForce : db.effective = c.id
  mine : c.payloadSha256 = q.payloadSha256
  state : c.state ∈ [.active, .postPublishBlocked]
  slot : db.head.activating = none

theorem Holds.congr {db db' : MemoryDb} {r : Runner} (h : Holds db r)
    (hhead : db'.head = db.head) : Holds db' r := by
  unfold Holds
  rwa [hhead]

theorem Holds.tupleOk {db : MemoryDb} {r : Runner} {now : Nat} (h : Holds db r)
    (hlive : db.leaseLive now) : db.tupleOk now r.candidate r.fence r.owner = true := by
  obtain ⟨hslot, howner, hfence⟩ := h
  simp [MemoryDb.tupleOk, hslot, howner, hfence, hlive]

/-! ## The upsert -/

theorem unfinished_iff {q : ConfigRequest} {effective : SnapshotId} {r : ConfigSnapshot} :
    decide (r.baseSnapshotId = some effective ∧ r.payloadSha256 = q.payloadSha256 ∧
      r.mode = .online ∧ r.state ∉ [.failed, .active, .superseded]) = true ↔
      Unfinished q effective r := by
  rw [decide_eq_true_eq]
  rfl

theorem OtherInForce.any {q : ConfigRequest} {db : MemoryDb} (h : OtherInForce q db) :
    (db.snapshot? db.effective).any (fun r => r.payloadSha256 = q.payloadSha256) = false := by
  obtain ⟨base, hbase, hne⟩ := h
  simp [hbase, hne]

/-- The payload is in force: the upsert returns the effective row. -/
theorem upsert_inForce {q : ConfigRequest} {db : MemoryDb} {c : ConfigSnapshot}
    (hc : db.snapshot? c.id = some c) (heff : db.effective = c.id)
    (hmine : c.payloadSha256 = q.payloadSha256) (id : SnapshotId) :
    db.upsertOnlineCandidate id q = db ∧ db.onlineCandidate id q = c.id := by
  simp [upsertOnlineCandidate, onlineCandidate, heff, hc, hmine]

/-- An unfinished candidate is taken up. -/
theorem Early.upsert {q : ConfigRequest} {db : MemoryDb} {c : ConfigSnapshot}
    (h : Early q db c) (id : SnapshotId) :
    db.upsertOnlineCandidate id q = db ∧ db.onlineCandidate id q = c.id := by
  have hmem : c ∈ db.snapshots := List.mem_of_find?_eq_some h.row
  have hmine := unfinished_iff.mpr h.mine
  constructor
  · unfold upsertOnlineCandidate
    exact if_pos (.inr (List.any_eq_true.mpr ⟨c, hmem, hmine⟩))
  · unfold onlineCandidate
    simp only [h.base.any, Bool.false_eq_true, if_false]
    split
    · rename_i r hr
      have hdec := List.find?_some hr
      exact h.only r (List.mem_of_find?_eq_some hr) (unfinished_iff.mp hdec)
    · rename_i hnone
      exact absurd hmine (List.find?_eq_none.mp hnone c hmem)

/-- A new candidate is written. -/
theorem Idle.upsert {q : ConfigRequest} {db : MemoryDb} (h : Idle q db) {id : SnapshotId}
    (hid : db.snapshot? id = none) :
    db.onlineCandidate id q = id ∧
      Early q (db.upsertOnlineCandidate id q) (q.candidate id db.effective .online) := by
  have hnone : db.snapshots.find? (fun r => r.baseSnapshotId = some db.effective ∧
      r.payloadSha256 = q.payloadSha256 ∧ r.mode = .online ∧
      r.state ∉ [.failed, .active, .superseded]) = none := by
    rw [List.find?_eq_none]
    intro r hr hdec
    exact h.free r hr (unfinished_iff.mp hdec)
  have hdb : db.upsertOnlineCandidate id q =
      { db with snapshots := db.snapshots ++ [q.candidate id db.effective .online] } := by
    unfold upsertOnlineCandidate
    refine if_neg ?_
    rintro (hany | hany)
    · have hfalse := h.base.any
      rw [hany] at hfalse
      cases hfalse
    · obtain ⟨r, hr, hdec⟩ := List.any_eq_true.mp hany
      exact h.free r hr (unfinished_iff.mp hdec)
  have hold : ∀ s r, db.snapshot? s = some r →
      (db.snapshots ++ [q.candidate id db.effective .online]).find? (fun r => r.id = s) =
        some r := by
    intro s r hr
    rw [List.find?_append, show db.snapshots.find? (fun r => r.id = s) = some r from hr]
    rfl
  constructor
  · unfold onlineCandidate
    simp only [h.base.any, Bool.false_eq_true, if_false, hnone]
  · rw [hdb]
    constructor
    · obtain ⟨base, hbase, hne⟩ := h.base
      exact ⟨base, hold _ _ hbase, hne⟩
    · show (db.snapshots ++ _).find? (fun r => r.id = id) = _
      rw [List.find?_append, show db.snapshots.find? (fun r => r.id = id) = none from hid]
      simp [ConfigRequest.candidate]
    · exact ⟨rfl, rfl, rfl, by simp [ConfigRequest.candidate]⟩
    · simp [ConfigRequest.candidate, earlyStates]
    · intro r hr hun
      rcases List.mem_append.mp hr with hr | hr
      · exact absurd hun (h.free r hr)
      · rw [List.mem_singleton.mp hr]
    · exact .inl h.slot

/-! ## Before the flip -/

theorem OtherInForce.other {q : ConfigRequest} {db : MemoryDb} {c : ConfigSnapshot}
    (h : OtherInForce q db) (hc : db.snapshot? c.id = some c)
    (hmine : c.payloadSha256 = q.payloadSha256) : c.id ≠ db.effective := by
  obtain ⟨base, hbase, hne⟩ := h
  intro heq
  rw [← heq, hc] at hbase
  exact hne (by rw [← Option.some.inj hbase, hmine])

theorem Early.other {q : ConfigRequest} {db : MemoryDb} {c : ConfigSnapshot}
    (h : Early q db c) : c.id ≠ db.effective :=
  h.base.other h.row h.mine.2.1

/-- The candidate is rewritten, its identity and its base kept. -/
structure SameCandidate (c c' : ConfigSnapshot) : Prop where
  id : c'.id = c.id
  base : c'.baseSnapshotId = c.baseSnapshotId
  payload : c'.payloadSha256 = c.payloadSha256
  mode : c'.mode = c.mode
  ruleDigests : c'.ruleDigests = c.ruleDigests

theorem Early.otherInForce {q : ConfigRequest} {db : MemoryDb} {c c' : ConfigSnapshot}
    (h : Early q db c) (hsame : SameCandidate c c') {db' : MemoryDb}
    (hsnap : db'.snapshots = (db.setSnapshot c').snapshots)
    (heff : db'.effective = db.effective) : OtherInForce q db' := by
  obtain ⟨base, hbase, hne⟩ := h.base
  refine ⟨base, ?_, hne⟩
  rw [heff]
  have hother : (db.setSnapshot c').snapshot? db.effective = some base := by
    rw [setSnapshot_other (by rw [hsame.id]; exact h.other), hbase]
  rw [← hother]
  simp only [snapshot?, hsnap]

/-- The rows after the candidate is rewritten. -/
theorem mem_setSnapshot {db : MemoryDb} {c' r : ConfigSnapshot}
    (h : r ∈ (db.setSnapshot c').snapshots) : r = c' ∨ (r ∈ db.snapshots ∧ r.id ≠ c'.id) := by
  obtain ⟨r₀, hr₀, rfl⟩ := List.mem_map.mp h
  by_cases hid : r₀.id = c'.id
  · exact .inl (if_pos hid)
  · rw [if_neg hid]
    exact .inr ⟨hr₀, hid⟩

/-- **A write before the flip.** -/
theorem Early.write {q : ConfigRequest} {db db' : MemoryDb} {c c' : ConfigSnapshot}
    (h : Early q db c) (hsame : SameCandidate c c') (hst : c'.state ∈ earlyStates)
    (hsnap : db'.snapshots = (db.setSnapshot c').snapshots)
    (heff : db'.effective = db.effective)
    (hslot : db'.head.activating = none ∨ db'.head.activating = some c'.id) :
    Early q db' c' where
  base := h.otherInForce hsame hsnap heff
  row := by
    have hrow := setSnapshot_same hsame.id h.row
    rw [← hrow, hsame.id]
    simp only [snapshot?, hsnap]
  mine := by
    obtain ⟨hbase, hpay, hmode, -⟩ := h.mine
    refine ⟨by rw [hsame.base, hbase, heff], by rw [hsame.payload, hpay],
      by rw [hsame.mode, hmode], ?_⟩
    intro hbad
    simp only [earlyStates, List.mem_cons, List.not_mem_nil, or_false] at hst hbad
    rcases hbad with hs | hs | hs <;> simp [hs] at hst
  state := hst
  only := by
    intro r hr hun
    rw [hsnap] at hr
    rw [heff] at hun
    rcases mem_setSnapshot hr with rfl | ⟨hr, -⟩
    · rfl
    · rw [hsame.id]
      exact h.only r hr hun
  slot := hslot

/-- **The candidate fails**: nothing of the change is left. -/
theorem Early.fail {q : ConfigRequest} {db db' : MemoryDb} {c : ConfigSnapshot}
    (h : Early q db c) (hsnap : db'.snapshots = (db.setSnapshot { c with state := .failed }).snapshots)
    (heff : db'.effective = db.effective) (hslot : db'.head.activating = none) : Idle q db' where
  base := by
    have hsame : SameCandidate c { c with state := .failed } := ⟨rfl, rfl, rfl, rfl, rfl⟩
    exact h.otherInForce hsame hsnap heff
  free := by
    intro r hr hun
    rw [hsnap] at hr
    rw [heff] at hun
    rcases mem_setSnapshot hr with rfl | ⟨hr, hne⟩
    · exact hun.2.2.2 (by simp)
    · exact hne (h.only r hr hun)
  slot := hslot

/-- **The flip opens the manifest.** -/
theorem Early.flip {q : ConfigRequest} {db : MemoryDb} {c : ConfigSnapshot} (h : Early q db c)
    (now : Nat) : Open q (db.moveFlip now c) (flipped now c) where
  row := by
    have hrow : (db.setSnapshot (flipped now c)).snapshot? c.id = some (flipped now c) :=
      setSnapshot_same rfl h.row
    show ((db.setSnapshot (flipped now c)).supersedeBase c.baseSnapshotId).snapshot? c.id = _
    rw [h.mine.1, supersedeBase_other (Ne.symm h.other), hrow]
  inForce := rfl
  mine := h.mine.2.1
  state := rfl
  slot := by
    rw [moveFlip_head]
    exact h.slot

/-! ## After the flip -/

theorem Open.row_ok {q : ConfigRequest} {db : MemoryDb} {c : ConfigSnapshot} (h : Open q db c) :
    db.row c.id = .ok c := MemoryDb.row_ok.mpr h.row

/-- A write to the open manifest. -/
theorem Open.write {q : ConfigRequest} {db db' : MemoryDb} {c c' : ConfigSnapshot}
    (h : Open q db c) (hid : c'.id = c.id) (hpay : c'.payloadSha256 = c.payloadSha256)
    (hst : c'.state = .postPublish)
    (hsnap : db'.snapshots = (db.setSnapshot c').snapshots)
    (heff : db'.effective = db.effective)
    (hslot : db'.head.activating = none ∨ db'.head.activating = some c'.id) :
    Open q db' c' where
  row := by
    have hrow := setSnapshot_same hid h.row
    rw [← hrow, hid]
    simp only [snapshot?, hsnap]
  inForce := by rw [heff, h.inForce, hid]
  mine := by rw [hpay, h.mine]
  state := hst
  slot := hslot

/-- The manifest is complete, or blocked. -/
theorem Open.through {q : ConfigRequest} {db db' : MemoryDb} {c c' : ConfigSnapshot}
    (h : Open q db c) (hid : c'.id = c.id) (hpay : c'.payloadSha256 = c.payloadSha256)
    (hst : c'.state ∈ [.active, .postPublishBlocked])
    (hsnap : db'.snapshots = (db.setSnapshot c').snapshots)
    (heff : db'.effective = db.effective) (hslot : db'.head.activating = none) :
    Through q db' c' where
  row := by
    have hrow := setSnapshot_same hid h.row
    rw [← hrow, hid]
    simp only [snapshot?, hsnap]
  inForce := by rw [heff, h.inForce, hid]
  mine := by rw [hpay, h.mine]
  state := hst
  slot := hslot

/-! ## What a run finds -/

def EarlyAt (q : ConfigRequest) (db : MemoryDb) (s : SnapshotId) : Prop :=
  ∃ c, c.id = s ∧ Early q db c

def OpenAt (q : ConfigRequest) (db : MemoryDb) (s : SnapshotId) : Prop :=
  ∃ c, c.id = s ∧ Open q db c

/-- The change stands in one of the four ways. -/
def Standing (q : ConfigRequest) (db : MemoryDb) : Prop :=
  Idle q db ∨ ∃ s, EarlyAt q db s ∨ OpenAt q db s ∨ ∃ c, c.id = s ∧ Through q db c

/-- How the change stands when its run is in a phase. -/
def At (q : ConfigRequest) (db : MemoryDb) : ChangePhase → Prop
  | .upsert | .returned _ _ | .raised _ => Standing q db
  | .early s => EarlyAt q db s ∨ OpenAt q db s ∨
      ∃ c, c.id = s ∧ Through q db c ∧ c.state = .postPublishBlocked
  | .slot s _ | .drain s => EarlyAt q db s ∨ OpenAt q db s
  | .drained r | .resume r | .sealed r =>
    (EarlyAt q db r.candidate ∨ OpenAt q db r.candidate) ∧ Holds db r
  | .wait r | .cancel r _ | .confirm r | .freeze r | .prepare r _ | .verify r | .publish r
  | .flip r | .handler r _ | .cleanup r _ => EarlyAt q db r.candidate ∧ Holds db r
  | .gate r | .postPublish r _ => OpenAt q db r.candidate ∧ Holds db r
  | .backoff r e => OpenAt q db r.candidate ∧ Holds db r ∧ e.isActivationError = false

section Transactions

variable {q : ConfigRequest} {db db' : MemoryDb} {c : ConfigSnapshot} {r : Runner} {now : Nat}

theorem Early.row_ok (h : Early q db c) : db.row c.id = .ok c := MemoryDb.row_ok.mpr h.row

/-- Writing the candidate under the head that stays. -/
theorem Early.set (h : Early q db c) {c' : ConfigSnapshot} (hsame : SameCandidate c c')
    (hst : c'.state ∈ earlyStates) : Early q (db.setSnapshot c') c' := by
  refine h.write hsame hst rfl rfl ?_
  rw [hsame.id]
  exact h.slot

theorem EarlyAt.set (h : Early q db c) {s : SnapshotId} (hid : s = c.id) {c' : ConfigSnapshot}
    (hsame : SameCandidate c c') (hst : c'.state ∈ earlyStates) :
    EarlyAt q (db.setSnapshot c') s :=
  ⟨c', by rw [hsame.id, hid], h.set hsame hst⟩

theorem Early.takeSlot (h : Early q db c) (now lease : Nat) (owner : String) :
    Early q (db.takeSlot now lease c owner) { c with mode := .online } := by
  have hsame : SameCandidate c { c with mode := .online } :=
    ⟨rfl, rfl, rfl, h.mine.2.2.1.symm, rfl⟩
  exact h.write hsame h.state rfl rfl (.inr rfl)

theorem Open.takeSlot (h : Open q db c) (now lease : Nat) (owner : String) :
    Open q (db.takeSlot now lease c owner) { c with mode := .online } :=
  h.write rfl rfl h.state rfl rfl (.inr rfl)

/-- A drain that succeeds leaves the candidate as it is. -/
theorem publishDrain_keeps {lease : Nat} {s : SnapshotId} {owner : String}
    (hdrain : db.publishDrain now lease s owner = .ok db')
    (hat : EarlyAt q db s ∨ OpenAt q db s) : EarlyAt q db' s ∨ OpenAt q db' s := by
  obtain ⟨c, hc, hdrain⟩ := bind_eq_ok.mp hdrain
  have hid := (row_id hc).1
  have hrow := row_ok.mp hc
  have htake : EarlyAt q (db.takeSlot now lease c owner) s ∨
      OpenAt q (db.takeSlot now lease c owner) s := by
    rcases hat with ⟨x, rfl, hx⟩ | ⟨x, rfl, hx⟩
    · obtain rfl : x = c := Option.some.inj (hx.row.symm.trans hrow)
      exact .inl ⟨{ x with mode := .online }, rfl, hx.takeSlot now lease owner⟩
    · obtain rfl : x = c := Option.some.inj (hx.row.symm.trans hrow)
      exact .inr ⟨{ x with mode := .online }, rfl, hx.takeSlot now lease owner⟩
  split at hdrain
  · cases hdrain
    exact htake
  · split at hdrain
    · cases hdrain
      rcases hat with ⟨x, hx, hearly⟩ | ⟨x, hx, hopen⟩
      · exact .inl ⟨x, hx, hearly.base, hearly.row, hearly.mine, hearly.state, hearly.only,
          hearly.slot⟩
      · exact .inr ⟨x, hx, hopen.row, hopen.inForce, hopen.mine, hopen.state, hopen.slot⟩
    · split at hdrain
      · cases hdrain
        exact htake
      · cases hdrain

/-- A cleared slot leaves the candidate early. -/
theorem Early.clearSlot (h : Early q db c) : Early q db.clearSlot c :=
  ⟨h.base, h.row, h.mine, h.state, h.only, .inl rfl⟩

theorem confirmDrain_early (h : Early q db c) (hid : r.candidate = c.id)
    (hconfirm : db.confirmDrain now r = .ok db') :
    EarlyAt q db' r.candidate ∧ db'.head = db.head := by
  obtain ⟨-, -, hconfirm⟩ := bind_eq_ok.mp hconfirm
  obtain ⟨-, -, hconfirm⟩ := bind_eq_ok.mp hconfirm
  rw [hid, h.row_ok] at hconfirm
  cases hconfirm
  split
  · exact ⟨.set h hid ⟨rfl, rfl, rfl, rfl, rfl⟩ (by simp [earlyStates]), rfl⟩
  · exact ⟨⟨c, hid.symm, h⟩, rfl⟩

theorem freezeCohort_early (h : Early q db c) (hid : r.candidate = c.id)
    (hfreeze : db.freezeCohort now r = .ok db') :
    EarlyAt q db' r.candidate ∧ db'.head = db.head := by
  obtain ⟨-, -, hfreeze⟩ := bind_eq_ok.mp hfreeze
  rw [hid, h.row_ok] at hfreeze
  cases hfreeze
  split
  · exact ⟨⟨c, hid.symm, h⟩, rfl⟩
  · exact ⟨.set h hid ⟨rfl, rfl, rfl, rfl, rfl⟩ (by simp [earlyStates]), rfl⟩

theorem Early.withKnow (h : Early q db c) (k : Knowledge) : Early q (db.withKnow k) c :=
  ⟨h.base, h.row, h.mine, h.state, h.only, h.slot⟩

theorem prepareHeads_early (h : Early q db c) (hid : r.candidate = c.id) {prepared n : Nat}
    (hprepare : db.prepareHeads now r prepared n = .ok db') :
    EarlyAt q db' r.candidate ∧ db'.head = db.head := by
  obtain ⟨x, -, hprepare⟩ := bind_eq_ok.mp hprepare
  obtain ⟨base, -, hprepare⟩ := bind_eq_ok.mp hprepare
  obtain ⟨-, -, hprepare⟩ := bind_eq_ok.mp hprepare
  obtain ⟨-, -, hprepare⟩ := bind_eq_ok.mp hprepare
  cases hprepare
  exact ⟨⟨c, hid.symm, h.withKnow _⟩, rfl⟩

theorem verifyAndSeal_early {digest : List (ClaimId × Head) → String} (h : Early q db c)
    (hid : r.candidate = c.id) (hverify : db.verifyAndSeal digest now r = .ok db') :
    EarlyAt q db' r.candidate ∧ db'.head = db.head := by
  obtain ⟨-, -, hverify⟩ := bind_eq_ok.mp hverify
  obtain ⟨x, hx, hverify⟩ := bind_eq_ok.mp hverify
  obtain rfl : x = c := by
    rw [hid, h.row_ok] at hx
    exact (Except.ok.inj hx).symm
  split at hverify
  · cases hverify
    exact ⟨⟨x, hid.symm, h⟩, rfl⟩
  · obtain ⟨-, -, hverify⟩ := bind_eq_ok.mp hverify
    obtain ⟨-, -, hverify⟩ := bind_eq_ok.mp hverify
    cases hverify
    exact ⟨.set h hid ⟨rfl, rfl, rfl, rfl, rfl⟩ (by simp [earlyStates]), rfl⟩

theorem publishReady_early (h : Early q db c) (hid : r.candidate = c.id)
    (hpublish : db.publishReady now r = .ok db') :
    EarlyAt q db' r.candidate ∧ db'.head = db.head := by
  obtain ⟨-, -, hpublish⟩ := bind_eq_ok.mp hpublish
  obtain ⟨x, hx, hpublish⟩ := bind_eq_ok.mp hpublish
  obtain rfl : x = c := by
    rw [hid, h.row_ok] at hx
    exact (Except.ok.inj hx).symm
  split at hpublish
  · obtain ⟨-, -, hpublish⟩ := bind_eq_ok.mp hpublish
    cases hpublish
    exact ⟨.set h hid ⟨rfl, rfl, rfl, rfl, rfl⟩ (by simp [earlyStates]), rfl⟩
  · split at hpublish
    · cases hpublish
      exact ⟨⟨x, hid.symm, h⟩, rfl⟩
    · cases hpublish

theorem flip_early (h : Early q db c) (hid : r.candidate = c.id)
    (hflip : db.flip now r = .ok db') :
    OpenAt q db' r.candidate ∧ db'.head = db.head := by
  have hrow : db.snapshot? r.candidate = some c := by rw [hid, h.row]
  rcases flip_change hrow hflip with ⟨-, heff⟩ | ⟨rfl, -, -⟩
  · exact absurd heff.symm h.other
  · exact ⟨⟨flipped now c, hid.symm, h.flip now⟩, moveFlip_head db now c⟩

/-- The cleanup of a run: the candidate fails and the slot is free. -/
theorem failActivation_early (h : Early q db c) (hid : r.candidate = c.id)
    (hfail : db.failActivation now r = .ok db') :
    Idle q db' ∧ db'.inState c.id [.failed] := by
  obtain ⟨-, -, hfail⟩ := bind_eq_ok.mp hfail
  rw [hid, h.row_ok] at hfail
  cases hfail
  refine ⟨h.fail rfl rfl rfl, ?_⟩
  have hrow : (db.setSnapshot { c with state := .failed }).snapshot? c.id =
      some { c with state := .failed } := setSnapshot_same rfl h.row
  show (db.setSnapshot { c with state := .failed }).inState c.id [.failed]
  simp [inState, hrow]

/-- A batch of the open manifest. -/
theorem runPostPublish_open (h : Open q db c) (hid : r.candidate = c.id) {n : Nat} :
    ∃ p, db.runPostPublish now r n = .ok p ∧
      ((p = (db, .deferred .postPublish)) ∨
        (∃ cursor created, p.2 = .batch cursor created ∧ OpenAt q p.1 r.candidate ∧
          p.1.head = db.head) ∨
        ∃ cursor c', p.2 = .completed cursor ∧ c'.id = r.candidate ∧ Through q p.1 c') := by
  have hrow : db.row r.candidate = .ok c := by rw [hid, h.row_ok]
  unfold runPostPublish
  rw [hrow, ok_bind, if_neg (by simp [h.state]), if_neg (by simp [h.state]),
    if_neg (by simp [h.state])]
  split
  · exact ⟨_, rfl, .inl (by rw [h.state])⟩
  · split
    · exact ⟨_, rfl, .inl (by rw [h.state])⟩
    · split
      · refine ⟨_, rfl, .inr (.inr ⟨_, { c with state := .active }, rfl, hid.symm, ?_⟩)⟩
        exact h.through rfl rfl (by simp) rfl rfl rfl
      · refine ⟨_, rfl, .inr (.inl ⟨_, _, rfl, ⟨{ c with
          postPublishCursor := c.postPublishCursor + (db.manifestSlice c n).length },
          hid.symm, ?_⟩, rfl⟩)⟩
        exact h.write rfl rfl h.state rfl rfl h.slot

/-- A failure of an open manifest is recorded. -/
theorem postPublishFailed_open (h : Open q db c) (hid : r.candidate = c.id) {retryAt : Nat}
    (hfailed : db.postPublishFailed now r retryAt = .ok db') : Standing q db' := by
  rw [postPublishFailed, hid, h.row_ok, ok_bind] at hfailed
  have hstand : Standing q db := .inr ⟨c.id, .inr (.inl ⟨c, rfl, h⟩)⟩
  split at hfailed
  · simp only at hfailed
    split at hfailed
    · cases hfailed
      refine .inr ⟨c.id, .inr (.inr ⟨{ c with
        state := .postPublishBlocked
        postPublishAttempts := c.postPublishAttempts + 1
        postPublishNextAttemptAt := some now }, rfl, ?_⟩)⟩
      exact h.through rfl rfl (by simp) rfl rfl rfl
    · cases hfailed
      refine .inr ⟨c.id, .inr (.inl ⟨{ c with
        postPublishAttempts := c.postPublishAttempts + 1
        postPublishNextAttemptAt := some retryAt }, rfl, ?_⟩)⟩
      exact h.write rfl rfl h.state rfl rfl h.slot
  · cases hfailed
    exact hstand

end Transactions

/-! ## A step of the run -/

section Steps

variable {digest : List (ClaimId × Head) → String} {q : ConfigRequest} {o : ChangeOptions}
  {db db' : MemoryDb} {t : ChangeTick} {r : Runner}

theorem EarlyAt.standing {s : SnapshotId} (h : EarlyAt q db s) : Standing q db :=
  .inr ⟨s, .inl h⟩

theorem OpenAt.standing {s : SnapshotId} (h : OpenAt q db s) : Standing q db :=
  .inr ⟨s, .inr (.inl h)⟩

/-- An error before the flip. -/
theorem At.caught (h : EarlyAt q db r.candidate) (hheld : Holds db r) (e : ChangeError) :
    At q db (.caught r e) := by
  unfold ChangePhase.caught
  split
  · exact ⟨h, hheld⟩
  · exact h.standing

/-- A transaction before the flip that keeps the slot. -/
theorem EarlyAt.held (h : EarlyAt q db' r.candidate ∧ db'.head = db.head)
    (hheld : Holds db r) : EarlyAt q db' r.candidate ∧ Holds db' r :=
  ⟨h.1, hheld.congr h.2⟩

theorem standing_of_at {s : SnapshotId} (h : EarlyAt q db s ∨ OpenAt q db s) :
    Standing q db := by
  rcases h with hearly | hopen
  · exact hearly.standing
  · exact hopen.standing

/-- In every phase the stored state is one the change can be resumed from. -/
theorem At.standing {phase : ChangePhase} (h : At q db phase) : Standing q db := by
  cases phase with
  | upsert => exact h
  | early s =>
    rcases h with hearly | hopen | ⟨c, hid, hc, -⟩
    · exact hearly.standing
    · exact hopen.standing
    · exact .inr ⟨s, .inr (.inr ⟨c, hid, hc⟩)⟩
  | slot s early => exact standing_of_at h
  | drain s => exact standing_of_at h
  | drained r => exact standing_of_at h.1
  | resume r => exact standing_of_at h.1
  | sealed r => exact standing_of_at h.1
  | gate r => exact h.1.standing
  | postPublish r n => exact h.1.standing
  | backoff r e => exact h.1.standing
  | returned s state => exact h
  | raised e => exact h
  | _ => exact h.1.standing

theorem At.fault {phase : ChangePhase} (h : At q db phase) : At q db phase.fault := by
  cases phase with
  | postPublish r n => exact ⟨h.1, h.2, rfl⟩
  | returned s state => exact h
  | raised e => exact h
  | _ => exact h.standing

/-- The row a transaction reads is the candidate's. -/
theorem row_eq {c row : ConfigSnapshot} {s : SnapshotId} (hc : db.snapshot? c.id = some c)
    (hid : c.id = s) (hrow : db.row s = .ok row) : row = c := by
  subst hid
  exact Option.some.inj ((row_ok.mp hrow).symm.trans hc)

/-- A new candidate, the one of an earlier call, or the snapshot in force. -/
theorem At.step_upsert (h : At q db .upsert) (hfresh : db.snapshot? t.id = none) :
    At q (db.changeStep digest q o t .upsert).1 (db.changeStep digest q o t .upsert).2 := by
  simp only [changeStep]
  rcases id h with hidle | ⟨s, ⟨c, hid, hc⟩ | ⟨c, hid, hc⟩ | ⟨c, hid, hc⟩⟩
  · obtain ⟨base, hbase, hne⟩ := hidle.base
    simp only [hbase, hne, false_and, if_false]
    obtain ⟨hcand, hearly⟩ := hidle.upsert hfresh
    exact .inl ⟨_, hcand.symm, hearly⟩
  · obtain ⟨base, hbase, hne⟩ := hc.base
    simp only [hbase, hne, false_and, if_false]
    obtain ⟨hdb, hcand⟩ := hc.upsert t.id
    rw [hdb, hcand]
    exact .inl ⟨c, rfl, hc⟩
  · have hbase : db.snapshot? db.effective = some c := by rw [hc.inForce, hc.row]
    obtain ⟨hdb, hcand⟩ := upsert_inForce hc.row hc.inForce hc.mine t.id
    simp only [hbase, hc.mine, hc.state, reduceCtorEq, and_false, if_false]
    rw [hdb, hcand]
    exact .inr (.inl ⟨c, rfl, hc⟩)
  · have hbase : db.snapshot? db.effective = some c := by rw [hc.inForce, hc.row]
    simp only [hbase, hc.mine, true_and]
    split
    · exact h
    · rename_i hne
      obtain ⟨hdb, hcand⟩ := upsert_inForce hc.row hc.inForce hc.mine t.id
      rw [hdb, hcand]
      have hblocked : c.state = .postPublishBlocked := by
        have hst := hc.state
        simp only [List.mem_cons, List.not_mem_nil, or_false] at hst
        exact hst.resolve_left hne
      exact .inr (.inr ⟨c, rfl, hc, hblocked⟩)

/-- A blocked candidate is returned before the drain. -/
theorem At.step_early {s : SnapshotId} (h : At q db (.early s)) :
    At q (db.changeStep digest q o t (.early s)).1 (db.changeStep digest q o t (.early s)).2 := by
  refine after_cases (P := fun p => At q p.1 p.2) (fun e _ => h.standing) ?_
  intro row hrow
  dsimp only
  rcases h with hearly | hopen | ⟨c, hid, hc, hst⟩
  · split
    · exact hearly.standing
    · exact .inl hearly
  · split
    · exact hopen.standing
    · exact .inr hopen
  · rw [row_eq hc.row hid hrow, if_pos hst]
    exact .inr ⟨s, .inr (.inr ⟨c, hid, hc⟩)⟩

theorem At.step_slot {s : SnapshotId} {early : ActivationState} (h : At q db (.slot s early)) :
    At q (db.changeStep digest q o t (.slot s early)).1
      (db.changeStep digest q o t (.slot s early)).2 := by
  have hstand : Standing q db := h.standing
  show At q db (db.slotPhase t.now o.owner s early)
  unfold slotPhase
  split
  · exact h
  · rename_i s' hs'
    split
    · exact hstand
    · rename_i hsame
      split
      · exact h
      · split
        · exact hstand
        · rename_i howner
          split
          · exact h
          · exact ⟨h, by rw [hs', not_not.mp hsame], not_not.mp howner, rfl⟩

/-- Only a draft, which is early, waits for the drain. -/
theorem At.step_drained (h : At q db (.drained r)) :
    At q (db.changeStep digest q o t (.drained r)).1
      (db.changeStep digest q o t (.drained r)).2 := by
  refine after_cases (P := fun p => At q p.1 p.2) (fun e _ => h.standing) ?_
  intro row hrow
  obtain ⟨hat, hheld⟩ := h
  dsimp only
  split
  · rename_i hdraft
    rcases hat with hearly | ⟨c, hid, hc⟩
    · exact ⟨hearly, hheld⟩
    · rw [row_eq hc.row hid hrow, hc.state] at hdraft
      cases hdraft
  · exact ⟨hat, hheld⟩

/-- The state of the candidate decides where the run goes on. -/
theorem At.step_resume (h : At q db (.resume r)) :
    At q (db.changeStep digest q o t (.resume r)).1
      (db.changeStep digest q o t (.resume r)).2 := by
  refine after_cases (P := fun p => At q p.1 p.2) (fun e _ => h.standing) ?_
  intro row hrow
  obtain ⟨hat, hheld⟩ := h
  dsimp only
  unfold ChangePhase.ofState
  rcases hat with hearly | ⟨c, hid, hc⟩
  · split
    · exact ⟨hearly, hheld⟩
    · split
      · exact ⟨.inl hearly, hheld⟩
      · exact At.caught hearly hheld _
  · rw [row_eq hc.row hid hrow, hc.state, if_neg (by simp [preparing]), if_pos rfl]
    exact ⟨.inr ⟨c, hid, hc⟩, hheld⟩

/-- A candidate that is early is not flipped yet, and an open one is. -/
theorem At.step_sealed (h : At q db (.sealed r)) :
    At q (db.changeStep digest q o t (.sealed r)).1
      (db.changeStep digest q o t (.sealed r)).2 := by
  obtain ⟨hat, hheld⟩ := h
  refine after_cases (P := fun p => At q p.1 p.2) ?_ ?_
  · intro e he
    rcases hat with hearly | ⟨c, hid, hc⟩
    · exact At.caught hearly hheld _
    · rw [← hid, hc.row_ok] at he
      cases he
  · intro row hrow
    dsimp only
    unfold ChangePhase.ofSealed
    rcases hat with ⟨c, hid, hc⟩ | ⟨c, hid, hc⟩
    · rw [row_eq hc.row hid hrow]
      have hst := hc.state
      split
      · exact ⟨⟨c, hid, hc⟩, hheld⟩
      · split
        · rename_i hopen
          simp [earlyStates, hopen] at hst
        · exact At.caught ⟨c, hid, hc⟩ hheld _
    · rw [row_eq hc.row hid hrow, hc.state, if_neg (by simp), if_pos rfl]
      exact ⟨⟨c, hid, hc⟩, hheld⟩

/-- A batch of the manifest, or what is returned without one. -/
theorem At.step_postPublish {n : Nat} (h : At q db (.postPublish r n)) :
    At q (db.changeStep digest q o t (.postPublish r n)).1
      (db.changeStep digest q o t (.postPublish r n)).2 := by
  obtain ⟨⟨c, hid, hc⟩, hheld⟩ := h
  cases n with
  | zero =>
    simp only [changeStep]
    rw [← hid, hc.row_ok]
    simp only [after, ChangePhase.ofPublished, hc.state, true_or, if_true]
    exact OpenAt.standing ⟨c, rfl, hc⟩
  | succ n =>
    simp only [changeStep]
    obtain ⟨p, hp, hend⟩ := @runPostPublish_open q db c r t.now hc hid.symm postPublishBatch
    rw [hp]
    simp only [after]
    rcases hend with rfl | ⟨cursor, created, hout, hopen, hhead⟩ |
      ⟨cursor, c', hout, hid', hthrough⟩
    · exact OpenAt.standing ⟨c, rfl, hc⟩
    · simp only [hout]
      exact ⟨hopen, hheld.congr hhead⟩
    · simp only [hout]
      exact .inr ⟨_, .inr (.inr ⟨c', rfl, hthrough⟩)⟩

/-- **The run finds in the next phase what it expects there.** -/
theorem At.step {phase : ChangePhase} (h : At q db phase) (hfresh : db.snapshot? t.id = none) :
    At q (db.changeStep digest q o t phase).1 (db.changeStep digest q o t phase).2 := by
  have hcaughtAt : ∀ {r : Runner} (e : ActivationError), EarlyAt q db r.candidate ∧ Holds db r →
      At q db (.caught r (.step e)) := fun e h => At.caught h.1 h.2 _
  have hraised : ∀ e : ChangeError, At q db (.raised e) := fun _ => h.standing
  cases phase with
  | upsert => exact At.step_upsert h hfresh
  | early s => exact At.step_early h
  | slot s early => exact At.step_slot h
  | drain s =>
    refine after_cases (P := fun p => At q p.1 p.2) (fun e _ => hraised _) ?_
    intro db' hdrain
    exact ⟨publishDrain_keeps hdrain h, (publishDrain_holds hdrain).1⟩
  | drained r => exact At.step_drained h
  | wait r =>
    obtain ⟨hat, hheld⟩ := h
    refine after_cases (P := fun p => At q p.1 p.2) (fun e _ => hraised _) ?_
    intro _ _
    dsimp only
    unfold waitPhase
    split
    · exact ⟨hat, hheld⟩
    · split
      · exact ⟨hat, hheld⟩
      · exact ⟨hat, hheld⟩
  | cancel r e =>
    obtain ⟨hat, hheld⟩ := h
    refine after_cases (P := fun p => At q p.1 p.2) (fun e _ => hraised _) ?_
    intro db' hcancel
    obtain ⟨-, -, hcancel⟩ := bind_eq_ok.mp hcancel
    cases hcancel
    obtain ⟨c, hid, hc⟩ := hat
    exact (show EarlyAt q db.clearSlot r.candidate from ⟨c, hid, hc.clearSlot⟩).standing
  | confirm r =>
    obtain ⟨⟨c, hid, hc⟩, hheld⟩ := id h
    simp only [changeStep]
    split
    · refine after_cases (P := fun p => At q p.1 p.2) (fun e _ => hraised _) ?_
      intro db' hconfirm
      obtain ⟨hearly, hheld'⟩ := EarlyAt.held (confirmDrain_early hc hid.symm hconfirm) hheld
      exact ⟨.inl hearly, hheld'⟩
    · dsimp only
      split
      · exact h
      · exact h
  | resume r => exact At.step_resume h
  | freeze r =>
    obtain ⟨⟨c, hid, hc⟩, hheld⟩ := id h
    refine after_cases (P := fun p => At q p.1 p.2) (fun e _ => hcaughtAt e h) ?_
    intro db' hfreeze
    exact EarlyAt.held (freezeCohort_early hc hid.symm hfreeze) hheld
  | prepare r prepared =>
    obtain ⟨⟨c, hid, hc⟩, hheld⟩ := id h
    refine after_cases (P := fun p => At q p.1 p.2) (fun e _ => hcaughtAt e h) ?_
    intro _ _
    split
    · exact h
    · refine after_cases (P := fun p => At q p.1 p.2) (fun e _ => hcaughtAt e h) ?_
      intro db' hprepare
      exact EarlyAt.held (prepareHeads_early hc hid.symm hprepare) hheld
  | verify r =>
    obtain ⟨⟨c, hid, hc⟩, hheld⟩ := id h
    refine after_cases (P := fun p => At q p.1 p.2) (fun e _ => hcaughtAt e h) ?_
    intro db' hverify
    obtain ⟨hearly, hheld'⟩ := EarlyAt.held (verifyAndSeal_early hc hid.symm hverify) hheld
    exact ⟨.inl hearly, hheld'⟩
  | sealed r => exact At.step_sealed h
  | publish r =>
    obtain ⟨⟨c, hid, hc⟩, hheld⟩ := id h
    refine after_cases (P := fun p => At q p.1 p.2) (fun e _ => hcaughtAt e h) ?_
    intro db' hpublish
    exact EarlyAt.held (publishReady_early hc hid.symm hpublish) hheld
  | flip r =>
    obtain ⟨⟨c, hid, hc⟩, hheld⟩ := id h
    refine after_cases (P := fun p => At q p.1 p.2) (fun e _ => hcaughtAt e h) ?_
    intro db' hflip
    obtain ⟨hopen, hhead⟩ := flip_early hc hid.symm hflip
    exact ⟨hopen, hheld.congr hhead⟩
  | gate r =>
    obtain ⟨⟨c, hid, hc⟩, hheld⟩ := id h
    simp only [changeStep]
    split
    · exact h
    · rw [← hid, hc.row_ok]
      exact OpenAt.standing ⟨c, rfl, hc⟩
  | postPublish r n => exact At.step_postPublish h
  | backoff r e =>
    obtain ⟨⟨c, hid, hc⟩, hheld, houtside⟩ := h
    refine after_cases (P := fun p => At q p.1 p.2) (fun e _ => hraised _) ?_
    intro db' hfailed
    have hstand := postPublishFailed_open hc hid.symm hfailed
    dsimp only
    split
    · exact hstand
    · rw [ChangePhase.caught, houtside]
      exact hstand
  | handler r e =>
    obtain ⟨hat, hheld⟩ := id h
    refine after_cases (P := fun p => At q p.1 p.2) (fun e _ => hraised _) ?_
    intro row _
    dsimp only
    split
    · exact hat.standing
    · exact h
  | cleanup r e =>
    obtain ⟨⟨c, hid, hc⟩, hheld⟩ := h
    refine after_cases (P := fun p => At q p.1 p.2) (fun e _ => hraised _) ?_
    intro db' hfail
    exact .inl (failActivation_early hc hid.symm hfail).1
  | returned s state => exact h
  | raised e => exact h

/-! ## Everything else -/

variable {other : MemoryDb} {c : ConfigSnapshot}

theorem Idle.elsewhere (h : Idle q db) : Idle q (db.elsewhere other) :=
  ⟨h.base, h.free, h.slot⟩

theorem Early.elsewhere (h : Early q db c) : Early q (db.elsewhere other) c :=
  ⟨h.base, h.row, h.mine, h.state, h.only, h.slot⟩

theorem Open.elsewhere (h : Open q db c) : Open q (db.elsewhere other) c :=
  ⟨h.row, h.inForce, h.mine, h.state, h.slot⟩

theorem Through.elsewhere (h : Through q db c) : Through q (db.elsewhere other) c :=
  ⟨h.row, h.inForce, h.mine, h.state, h.slot⟩

theorem EarlyAt.elsewhere {s : SnapshotId} (h : EarlyAt q db s) :
    EarlyAt q (db.elsewhere other) s := by
  obtain ⟨c, hid, hc⟩ := h
  exact ⟨c, hid, hc.elsewhere⟩

theorem OpenAt.elsewhere {s : SnapshotId} (h : OpenAt q db s) :
    OpenAt q (db.elsewhere other) s := by
  obtain ⟨c, hid, hc⟩ := h
  exact ⟨c, hid, hc.elsewhere⟩

theorem Standing.elsewhere (h : Standing q db) : Standing q (db.elsewhere other) := by
  rcases h with hidle | ⟨s, hearly | hopen | ⟨c, hid, hc⟩⟩
  · exact .inl hidle.elsewhere
  · exact hearly.elsewhere.standing
  · exact hopen.elsewhere.standing
  · exact .inr ⟨s, .inr (.inr ⟨c, hid, hc.elsewhere⟩)⟩

/-- The knowledge moves on under the run. -/
theorem At.elsewhere {phase : ChangePhase} (h : At q db phase) :
    At q (db.elsewhere other) phase := by
  have heither : ∀ {s : SnapshotId}, EarlyAt q db s ∨ OpenAt q db s →
      EarlyAt q (db.elsewhere other) s ∨ OpenAt q (db.elsewhere other) s :=
    fun h => h.imp EarlyAt.elsewhere OpenAt.elsewhere
  cases phase with
  | upsert => exact Standing.elsewhere h
  | early s =>
    rcases h with hearly | hopen | ⟨c, hid, hc, hst⟩
    · exact .inl hearly.elsewhere
    · exact .inr (.inl hopen.elsewhere)
    · exact .inr (.inr ⟨c, hid, hc.elsewhere, hst⟩)
  | slot s early => exact heither h
  | drain s => exact heither h
  | drained r => exact ⟨heither h.1, h.2⟩
  | resume r => exact ⟨heither h.1, h.2⟩
  | sealed r => exact ⟨heither h.1, h.2⟩
  | gate r => exact ⟨h.1.elsewhere, h.2⟩
  | postPublish r n => exact ⟨h.1.elsewhere, h.2⟩
  | backoff r e => exact ⟨h.1.elsewhere, h.2⟩
  | returned s state => exact Standing.elsewhere h
  | raised e => exact Standing.elsewhere h
  | _ => exact ⟨h.1.elsewhere, h.2⟩

/-- A write to the effective row of another payload. -/
theorem OtherInForce.write {row row' : ConfigSnapshot} (h : OtherInForce q db)
    (hrow : db.snapshot? db.effective = some row) (hid : row'.id = db.effective)
    (hpay : row'.payloadSha256 = row.payloadSha256) : OtherInForce q (db.setSnapshot row') := by
  obtain ⟨base, hbase, hne⟩ := h
  obtain rfl : base = row := Option.some.inj (hbase.symm.trans hrow)
  refine ⟨row', ?_, by rwa [hpay]⟩
  exact setSnapshot_same hid hrow

/-- The repair moves the effective row only. -/
theorem Standing.repair {row row' : ConfigSnapshot} {db' : MemoryDb} (h : Standing q db)
    (hrow : db.snapshot? db.effective = some row) (hid : row'.id = row.id)
    (hpay : row'.payloadSha256 = row.payloadSha256) (hst : row.state = .postPublishBlocked)
    (hst' : row'.state ∈ [.active, .postPublishBlocked])
    (hsnap : db'.snapshots = (db.setSnapshot row').snapshots)
    (heff : db'.effective = db.effective) (hslot : db'.head.activating = none) :
    Standing q db' := by
  have heffid : row'.id = db.effective := by rw [hid, snapshot?_id hrow]
  have hother : OtherInForce q db → OtherInForce q db' := by
    intro h
    obtain ⟨base, hbase, hne⟩ := h.write hrow heffid hpay
    refine ⟨base, ?_, hne⟩
    rw [heff, ← hbase]
    simp only [snapshot?, hsnap]
    rfl
  have hbad : OtherInForce q db → ¬ Unfinished q db'.effective row' := by
    rintro ⟨base, hbase, hne⟩ hun
    obtain rfl : base = row := Option.some.inj (hbase.symm.trans hrow)
    exact hne (by rw [← hpay, hun.2.1])
  rcases h with hidle | ⟨s, ⟨c, rfl, hc⟩ | ⟨c, rfl, hc⟩ | ⟨c, rfl, hc⟩⟩
  · refine .inl ⟨hother hidle.base, ?_, hslot⟩
    intro r hr hun
    rw [hsnap] at hr
    rcases mem_setSnapshot hr with rfl | ⟨hr, -⟩
    · exact hbad hidle.base hun
    · rw [heff] at hun
      exact hidle.free r hr hun
  · refine .inr ⟨c.id, .inl ⟨c, rfl, hother hc.base, ?_, by rw [heff]; exact hc.mine, hc.state,
      ?_, .inl hslot⟩⟩
    · have hkeep : (db.setSnapshot row').snapshot? c.id = some c := by
        rw [setSnapshot_other (by rw [heffid]; exact Ne.symm hc.other), hc.row]
      rw [← hkeep]
      simp only [snapshot?, hsnap]
    · intro r hr hun
      rw [hsnap] at hr
      rcases mem_setSnapshot hr with rfl | ⟨hr, -⟩
      · exact absurd hun (hbad hc.base)
      · rw [heff] at hun
        exact hc.only r hr hun
  · rw [hc.inForce, hc.row] at hrow
    rw [← Option.some.inj hrow, hc.state] at hst
    cases hst
  · have hrow' := hrow
    rw [hc.inForce, hc.row] at hrow'
    obtain rfl := Option.some.inj hrow'
    refine .inr ⟨c.id, .inr (.inr ⟨row', hid, ?_, ?_, by rw [hpay, hc.mine], hst', hslot⟩)⟩
    · have hset := setSnapshot_same hid hc.row
      rw [hid, ← hset]
      simp only [snapshot?, hsnap]
    · rw [heff, hc.inForce, hid]

theorem Standing.runRepair {now n : Nat} {p : MemoryDb × BatchEnd} (h : Standing q db)
    (hrepair : db.runActivationRepair now db.effective n = .ok p) : Standing q p.1 := by
  obtain ⟨c, hc, hrepair⟩ := bind_eq_ok.mp hrepair
  have hrow := row_ok.mp hc
  split at hrepair
  · rename_i hne
    exact absurd rfl hne
  · split at hrepair
    · cases hrepair
      exact h
    · rename_i hcas
      have hslot : db.head.activating = none := by
        by_contra hne
        exact hcas (.inl hne)
      have hst : c.state = .postPublishBlocked := by
        by_contra hne
        exact hcas (.inr (.inr (.inl hne)))
      split at hrepair
      · cases hrepair
        exact @Standing.repair q db c { c with state := .active } _ h hrow rfl rfl hst
          (by simp) rfl rfl hslot
      · have hp := congrArg Prod.fst (Except.ok.inj hrepair)
        rw [← show (db.manifestBatch c n).1 = p.1 from hp]
        exact @Standing.repair q db c { c with
          postPublishCursor := c.postPublishCursor + (db.manifestSlice c n).length } _ h hrow
          rfl rfl hst (by simp [hst]) rfl rfl hslot

end Steps

end MemoryDb

/-! ## Runs that are cut -/

/-- One change: the database, and its run. -/
structure ChangeWorld where
  db : MemoryDb
  run : ChangeRun

inductive CutEvent where
  | tick (t : ChangeTick)
  | fault
  /-- The run dies, between two transactions or within one. -/
  | crash
  | rerun (o : ChangeOptions)
  | repair (now batchSize : Nat)
  | elsewhere (other : MemoryDb)

namespace ChangeWorld

def isDead (w : ChangeWorld) : Bool :=
  match w.run.phase with
  | .returned _ _ | .raised _ => true
  | _ => false

/-- One event; the repair is for what a dead run has left. -/
def cutStep (digest : List (ClaimId × Head) → String) (w : ChangeWorld) :
    CutEvent → Option ChangeWorld
  | .tick t =>
    -- a fresh uuid
    if w.db.snapshot? t.id = none then
      let p := w.db.changeStep digest w.run.q w.run.o t w.run.phase
      some { db := p.1, run := { w.run with phase := p.2 } }
    else none
  | .fault => some { w with run := { w.run with phase := w.run.phase.fault } }
  | .crash => some { w with run := { w.run with phase := .raised .outside } }
  | .rerun o => if w.isDead then some { w with run := ⟨w.run.q, o, .upsert⟩ } else none
  | .repair now batchSize =>
    if w.isDead then
      some { w with
        db := w.db.commit ((w.db.runActivationRepair now w.db.effective batchSize).map Prod.fst) }
    else none
  | .elsewhere other => some { w with db := w.db.elsewhere other }

/-- The run finds what it expects. -/
def Expected (q : ConfigRequest) (w : ChangeWorld) : Prop :=
  w.run.q = q ∧ w.db.At q w.run.phase

/-- The step lemma. -/
theorem Expected.step {digest : List (ClaimId × Head) → String} {q : ConfigRequest}
    {w w' : ChangeWorld} {e : CutEvent} (h : Expected q w)
    (hstep : w.cutStep digest e = some w') : Expected q w' := by
  obtain ⟨rfl, hat⟩ := h
  cases e with
  | tick t =>
    simp only [cutStep] at hstep
    split at hstep
    · rename_i hfresh
      cases hstep
      exact ⟨rfl, hat.step hfresh⟩
    · cases hstep
  | fault =>
    cases hstep
    exact ⟨rfl, hat.fault⟩
  | crash =>
    cases hstep
    exact ⟨rfl, hat.standing⟩
  | rerun o =>
    simp only [cutStep] at hstep
    split at hstep
    · cases hstep
      exact ⟨rfl, hat.standing⟩
    · cases hstep
  | repair now n =>
    simp only [cutStep] at hstep
    split at hstep
    · rename_i hdead
      cases hstep
      refine ⟨rfl, ?_⟩
      have hstand : w.db.Standing w.run.q := hat.standing
      have hafter : MemoryDb.Standing w.run.q (w.db.commit
          ((w.db.runActivationRepair now w.db.effective n).map Prod.fst)) := by
        unfold MemoryDb.commit
        cases htx : (w.db.runActivationRepair now w.db.effective n).map Prod.fst with
        | error e => exact hstand
        | ok db' =>
          obtain ⟨p, hp, rfl⟩ := map_eq_ok.mp htx
          exact hstand.runRepair hp
      unfold isDead at hdead
      split at hdead
      · rename_i hphase
        show MemoryDb.At w.run.q _ w.run.phase
        rw [hphase]
        exact hafter
      · rename_i hphase
        show MemoryDb.At w.run.q _ w.run.phase
        rw [hphase]
        exact hafter
      · cases hdead
    · cases hstep
  | elsewhere other =>
    cases hstep
    exact ⟨rfl, hat.elsewhere⟩

end ChangeWorld

end Noezema.Memory
