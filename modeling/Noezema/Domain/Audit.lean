import Noezema.Domain.Canonical
import Noezema.Lib.Numbering

/-! # The audit log and its stream

`record` writes an audit row and its outbox twin in the caller's transaction. The row has the
number after the greatest one of its session that the transaction sees, and the unique
constraint on session and number settles what transactions that overlap do. The timeline stream
reads what is committed by the last number it has sent; since the numbers of a session are
committed in their order and without a gap, it misses nothing and sends nothing twice
(`timeline_exactly_once`).

Ids are counted in the order of the records, in place of random ones.
-/

namespace Noezema.Domain

open Noezema.Lib

variable {φ : Type}

abbrev SessionId := Nat

/-! ## Rows -/

/-- What a caller records. -/
structure AuditRequest (φ : Type) where
  eventType : String
  sessionId : Option SessionId
  payload : Option (Payload φ)
  actor : Option String
  publicSummary : Option (List Char)
  visibility : String

/-- A row of `audit_events` but for its session and its number. -/
structure AuditData (φ : Type) where
  id : Nat
  eventType : String
  actor : Option String
  publicSummary : Option (List Char)
  payload : Option (Payload φ)
  visibility : String

abbrev AuditRow (φ : Type) := NumberedRow SessionId (AuditData φ)

/-- A row of `outbox_events` with the fields of its payload. -/
structure OutboxRow (φ : Type) where
  auditEventId : Nat
  topic : String
  sessionId : Option SessionId
  sequence : Nat
  eventType : String
  actor : Option String
  publicSummary : Option (List Char)
  payload : Option (Payload φ)

/-- `OUTBOX_TOPIC_AUDIT`. -/
def outboxTopicAudit : String := "audit.events"

/-- The outbox row of an audit row. -/
def outboxTwin (row : AuditRow φ) : OutboxRow φ where
  auditEventId := row.data.id
  topic := outboxTopicAudit
  sessionId := row.scope
  sequence := row.number
  eventType := row.data.eventType
  actor := row.data.actor
  publicSummary := row.data.publicSummary
  payload := row.data.payload

/-- The row of a request, masked. -/
def AuditRequest.data (r : AuditRequest φ) (id : Nat) : AuditData φ where
  id := id
  eventType := r.eventType
  actor := r.actor
  publicSummary := r.publicSummary.map maskNul
  payload := r.payload.map maskNulDeep
  visibility := r.visibility

/-! ## The journal under transactions that overlap -/

structure AuditDb (φ : Type) where
  table : NumberedTable SessionId (AuditData φ)
  outboxWritten : List (Nat × OutboxRow φ)
  outbox : List (OutboxRow φ)
  nextId : Nat

inductive AuditEvent (φ : Type) where
  /-- `record` up to the insertion: the masks, the check of the type and the number. -/
  | record (t : Nat) (request : AuditRequest φ)
  /-- The insertion of the row and of its twin. -/
  | create (t : Nat)
  | commit (t : Nat)
  | rollback (t : Nat)

namespace AuditDb

def empty : AuditDb φ := ⟨.empty, [], [], 0⟩

def rollback (db : AuditDb φ) (t : Nat) : AuditDb φ :=
  { db with
    table := db.table.rollback t
    outboxWritten := db.outboxWritten.filter fun r => r.1 ≠ t }

def commit (db : AuditDb φ) (t : Nat) : AuditDb φ :=
  { db with
    table := db.table.commit t
    outboxWritten := db.outboxWritten.filter fun r => r.1 ≠ t
    outbox := db.outbox ++ (db.outboxWritten.filter fun r => r.1 = t).map (·.2) }

/-- `record` up to the insertion. A type that is not in the registry raises, and the caller's
transaction is undone. -/
def record (known : String → Bool) (db : AuditDb φ) (t : Nat) (r : AuditRequest φ) : AuditDb φ :=
  if known r.eventType then
    { db with
      table := db.table.assign 1 t r.sessionId (r.data db.nextId)
      nextId := db.nextId + 1 }
  else db.rollback t

/-- The insertions; a row that is in the way of a committed one undoes the transaction. -/
def create (db : AuditDb φ) (t : Nat) : Option (AuditDb φ) :=
  match db.table.pendingOf t with
  | none => none
  | some row =>
    match db.table.insert t row with
    | none => none
    | some table =>
      if db.table.taken row then some (db.rollback t)
      else some { db with table, outboxWritten := db.outboxWritten ++ [(t, outboxTwin row)] }

end AuditDb

def auditStep (known : String → Bool) (db : AuditDb φ) : AuditEvent φ → Option (AuditDb φ)
  | .record t r => some (db.record known t r)
  | .create t => db.create t
  | .commit t => some (db.commit t)
  | .rollback t => some (db.rollback t)

/-! ## The stream -/

/-- `GET /api/v1/timeline/sse` for one session: the greatest number it has sent, and what it
has sent. -/
structure Timeline (φ : Type) where
  db : AuditDb φ
  lastSeq : Nat
  delivered : List (AuditRow φ)

/-- The rows of the session after the last one, those with an outbox row only. -/
def timelineRows (db : AuditDb φ) (s : SessionId) (lastSeq : Nat) : List (AuditRow φ) :=
  let joined := db.table.committed.filter fun r =>
    db.outbox.any fun o => o.auditEventId = r.data.id
  let after := joined.filter fun r => r.scope = some s && lastSeq < r.number
  (after.insertionSort fun a b => a.number ≤ b.number).take 500

inductive TimelineEvent (φ : Type) where
  | db (e : AuditEvent φ)
  | poll

def timelineStep (known : String → Bool) (s : SessionId) (w : Timeline φ) :
    TimelineEvent φ → Option (Timeline φ)
  | .db e => (auditStep known w.db e).map fun db => { w with db }
  | .poll =>
    let events := timelineRows w.db s w.lastSeq
    some { w with
      lastSeq := events.foldl (fun last e => max last e.number) w.lastSeq
      delivered := w.delivered ++ events }

/-! ## What the journal keeps -/

/-- The rows that have an id. -/
def AuditDb.rows (db : AuditDb φ) : List (AuditRow φ) :=
  db.table.committed ++ (db.table.written.map (·.2) ++ db.table.pending.map (·.2))

/-- No symbol of the row is a NUL. -/
def AuditData.NulFree (d : AuditData φ) : Prop :=
  (∀ v, d.payload = some v → Domain.NulFree v.tree) ∧
    ∀ summary, d.publicSummary = some summary → nul ∉ summary

structure AuditInv (db : AuditDb φ) : Prop where
  gapless : NumberedTable.Gapless 1 db.table
  twins : db.outbox = db.table.committed.map outboxTwin
  writtenTwins : db.outboxWritten = db.table.written.map fun r => (r.1, outboxTwin r.2)
  ids : ∀ r ∈ db.rows, r.data.id < db.nextId
  distinct : (db.rows.map (·.data.id)).Nodup
  clean : ∀ r ∈ db.rows, r.data.NulFree

theorem AuditInv.empty : AuditInv (AuditDb.empty : AuditDb φ) where
  gapless := .empty 1
  twins := rfl
  writtenTwins := rfl
  ids := by simp [AuditDb.rows, AuditDb.empty, NumberedTable.empty]
  distinct := by simp [AuditDb.rows, AuditDb.empty, NumberedTable.empty]
  clean := by simp [AuditDb.rows, AuditDb.empty, NumberedTable.empty]

theorem AuditRequest.data_nulFree (r : AuditRequest φ) (id : Nat) : (r.data id).NulFree := by
  constructor
  · intro v hv
    obtain ⟨v', -, rfl⟩ := Option.map_eq_some_iff.mp hv
    exact (mask_nul_deep_clean v')
  · intro summary hs
    obtain ⟨summary', -, rfl⟩ := Option.map_eq_some_iff.mp hs
    exact nul_notMem_maskNul summary'

variable {db db' : AuditDb φ} {t : Nat}

/-- Rows that are moved or dropped keep what holds of each of them. -/
theorem AuditInv.of_subperm (h : AuditInv db) (hrows : db'.rows.Subperm db.rows)
    (hnext : db'.nextId = db.nextId) (hgapless : NumberedTable.Gapless 1 db'.table)
    (htwins : db'.outbox = db'.table.committed.map outboxTwin)
    (hwritten : db'.outboxWritten = db'.table.written.map fun r => (r.1, outboxTwin r.2)) :
    AuditInv db' where
  gapless := hgapless
  twins := htwins
  writtenTwins := hwritten
  ids r hr := hnext ▸ h.ids r (hrows.subset hr)
  distinct := by
    obtain ⟨l, hperm, hsub⟩ := hrows
    have hl : (l.map (·.data.id)).Nodup := h.distinct.sublist (hsub.map _)
    exact (hperm.map _).nodup_iff.mp hl
  clean r hr := h.clean r (hrows.subset hr)

theorem filter_perm {α : Type} (rows : List (Nat × α)) (t : Nat) :
    ((rows.filter fun r => r.1 = t).map (·.2) ++
      (rows.filter fun r => r.1 ≠ t).map (·.2)).Perm (rows.map (·.2)) := by
  have h := (List.filter_append_perm (fun r : Nat × α => decide (r.1 = t)) rows).map (·.2)
  simpa [decide_not] using h

theorem writtenTwins_filter (h : AuditInv db) (keep : Nat → Bool) :
    db.outboxWritten.filter (fun r => keep r.1) =
      (db.table.written.filter fun r => keep r.1).map fun r => (r.1, outboxTwin r.2) := by
  rw [h.writtenTwins, List.filter_map]
  rfl

theorem AuditInv.rollback (h : AuditInv db) (t : Nat) : AuditInv (db.rollback t) := by
  refine h.of_subperm ?_ rfl (h.gapless.rollback t) h.twins ?_
  · exact ((List.Sublist.refl _).append ((List.filter_sublist.map _).append
      (List.filter_sublist.map _))).subperm
  · exact writtenTwins_filter h fun i => i ≠ t

theorem AuditInv.commit (h : AuditInv db) (t : Nat) : AuditInv (db.commit t) := by
  refine h.of_subperm ?_ rfl (h.gapless.commit t) ?_ ?_
  · show ((db.table.committed ++ db.table.own t) ++ _).Subperm _
    rw [List.append_assoc]
    refine (List.Subperm.refl _).append ?_
    rw [← List.append_assoc]
    exact (filter_perm db.table.written t).subperm.append (List.filter_sublist.map _).subperm
  · show db.outbox ++ _ = (db.table.committed ++ db.table.own t).map outboxTwin
    rw [List.map_append, ← h.twins, writtenTwins_filter h fun i => i = t, NumberedTable.own,
      List.map_map, List.map_map]
    rfl
  · exact writtenTwins_filter h fun i => i ≠ t

theorem AuditInv.record (known : String → Bool) (h : AuditInv db) (t : Nat)
    (r : AuditRequest φ) : AuditInv (db.record known t r) := by
  unfold AuditDb.record
  split
  · have hsub : ((db.table.pending.filter fun p => p.1 ≠ t).map (·.2)).Sublist
        (db.table.pending.map (·.2)) := List.filter_sublist.map _
    -- the rows before, and the new one among the pending
    have hperm : ∀ row : AuditRow φ,
        (db.table.committed ++ (db.table.written.map (·.2) ++
          row :: (db.table.pending.filter fun p => p.1 ≠ t).map (·.2))).Subperm
          (row :: db.rows) := by
      intro row
      have hmove : (db.table.committed ++ (db.table.written.map (·.2) ++
          row :: (db.table.pending.filter fun p => p.1 ≠ t).map (·.2))).Perm
          (row :: (db.table.committed ++ (db.table.written.map (·.2) ++
            (db.table.pending.filter fun p => p.1 ≠ t).map (·.2)))) := by
        rw [← List.append_assoc, ← List.append_assoc]
        exact List.perm_middle
      exact hmove.subperm.trans (((List.Sublist.refl _).append
        ((List.Sublist.refl _).append hsub)).cons_cons row).subperm
    refine {
      gapless := h.gapless.assign t r.sessionId (r.data db.nextId)
      twins := h.twins
      writtenTwins := h.writtenTwins
      ids := ?_
      distinct := ?_
      clean := ?_ }
    · intro x hx
      rcases List.mem_cons.mp ((hperm _).subset hx) with rfl | hx
      · exact Nat.lt_succ_self _
      · exact Nat.lt_succ_of_lt (h.ids x hx)
    · obtain ⟨l, hl, hsub⟩ := hperm ⟨r.sessionId, _, r.data db.nextId⟩
      refine (hl.map _).nodup_iff.mp (List.Nodup.sublist (hsub.map _) ?_)
      refine List.nodup_cons.mpr ⟨fun hmem => ?_, h.distinct⟩
      obtain ⟨x, hx, hid⟩ := List.mem_map.mp hmem
      have hlt := h.ids x hx
      have hid : x.data.id = db.nextId := hid
      omega
    · intro x hx
      rcases List.mem_cons.mp ((hperm _).subset hx) with rfl | hx
      · exact r.data_nulFree db.nextId
      · exact h.clean x hx
  · exact h.rollback t

theorem AuditInv.create (h : AuditInv db) (hs : db.create t = some db') : AuditInv db' := by
  unfold AuditDb.create at hs
  cases hrow : db.table.pendingOf t with
  | none => simp [hrow] at hs
  | some row =>
    cases hins : db.table.insert t row with
    | none => simp [hrow, hins] at hs
    | some table =>
      simp only [hrow, hins] at hs
      split at hs
      · cases hs
        exact h.rollback t
      · rename_i hfree
        cases hs
        have hgapless := h.gapless.insert hrow hins
        have htable : table = ⟨db.table.committed, db.table.written ++ [(t, row)],
            db.table.pending.filter fun r => r.1 ≠ t⟩ := by
          unfold NumberedTable.insert at hins
          rw [if_neg hfree] at hins
          split at hins
          · cases hins
          · cases hins
            rfl
        subst htable
        refine h.of_subperm ?_ rfl hgapless h.twins ?_
        · show (_ ++ ((db.table.written ++ [(t, row)]).map (·.2) ++ _)).Subperm _
          rw [List.map_append, List.append_assoc]
          refine (List.Subperm.refl _).append ((List.Subperm.refl _).append ?_)
          have hmem : row ∈ (db.table.pending.filter fun r => r.1 = t).map (·.2) :=
            List.mem_map.mpr ⟨(t, row), List.mem_filter.mpr
              ⟨NumberedTable.pendingOf_mem hrow, by simp⟩, rfl⟩
          exact ((List.singleton_sublist.mpr hmem).append (List.Sublist.refl _)).subperm.trans
            (filter_perm db.table.pending t).subperm
        · show db.outboxWritten ++ _ = (db.table.written ++ [(t, row)]).map _
          rw [List.map_append, h.writtenTwins]
          rfl

theorem AuditInv.step {known : String → Bool} {e : AuditEvent φ} (h : AuditInv db)
    (hs : auditStep known db e = some db') : AuditInv db' := by
  cases e with
  | record t r =>
    cases hs
    exact h.record known t r
  | create t => exact h.create hs
  | commit t =>
    cases hs
    exact h.commit t
  | rollback t =>
    cases hs
    exact h.rollback t

/-- **The journal under any interleaving**: the committed rows of a session are numbered from
one in the order of their commits, without a gap; every committed row has its one outbox row
and no other outbox row is there; no two rows have one id; and no NUL has been stored. -/
theorem audit_journal_gapless {known : String → Bool} {db₀ : AuditDb φ} (h₀ : AuditInv db₀)
    (hrun : Run (auditStep known) anyStep db₀ db) :
    (∀ s : SessionId, NumberedTable.numbers (some s) db.table.committed =
      List.range' 1 (NumberedTable.numbers (some s) db.table.committed).length) ∧
    db.outbox = db.table.committed.map outboxTwin ∧
    (db.table.committed.map (·.data.id)).Nodup ∧
    ∀ r ∈ db.table.committed, r.data.NulFree := by
  have h : AuditInv db := by
    refine hrun.invariant (I := AuditInv) h₀ ?_
    intro a b e ha _ hs
    exact ha.step hs
  have hsub : db.table.committed.Sublist db.rows := List.sublist_append_left _ _
  exact ⟨h.gapless.committed, h.twins, h.distinct.sublist (hsub.map _),
    fun r hr => h.clean r (hsub.subset hr)⟩

/-- A step of a session, with a NUL in its summary. -/
def stepRecorded : AuditRequest Empty :=
  ⟨"step_started", some 7, none, none, some ['a', nul], "operator"⟩

/-- Two transactions that read one number: the second is undone by the commit of the first, and
records again. -/
def overlappingRecords : List (AuditEvent Empty) :=
  [.record 0 stepRecorded, .record 1 stepRecorded, .create 0, .commit 0, .create 1,
    .record 1 stepRecorded, .create 1, .commit 1]

theorem overlappingRecords_run :
    ∃ db, exec (auditStep fun _ => true) AuditDb.empty overlappingRecords = some db ∧
      db.table.committed.map (·.number) = [1, 2] :=
  ⟨_, rfl, rfl⟩

theorem audit_journal_gapless_overlapping :
    ∃ db, exec (auditStep fun _ => true) AuditDb.empty overlappingRecords = some db ∧
      db.table.committed.map (·.number) = [1, 2] ∧
      db.outbox = db.table.committed.map outboxTwin := by
  obtain ⟨db, hdb, hnumbers⟩ := overlappingRecords_run
  have hall := audit_journal_gapless AuditInv.empty (Run.of_exec _ hdb)
  exact ⟨db, hdb, hnumbers, hall.2.1⟩

/-! ## What the stream sends -/

/-- The rows of a session, in the order of their commits. -/
def AuditDb.history (db : AuditDb φ) (s : SessionId) : List (AuditRow φ) :=
  NumberedTable.inScope (some s) db.table.committed

theorem AuditInv.history_numbers (h : AuditInv db) (s : SessionId) :
    (db.history s).map (·.number) = List.range' 1 (db.history s).length := by
  have := h.gapless.committed s
  rwa [NumberedTable.numbers, List.length_map] at this

/-- What a poll reads. -/
theorem AuditInv.timelineRows_eq (h : AuditInv db) (s : SessionId) (lastSeq : Nat) :
    timelineRows db s lastSeq = ((db.history s).drop lastSeq).take 500 := by
  have hjoined : (db.table.committed.filter fun r =>
      db.outbox.any fun o => o.auditEventId = r.data.id) = db.table.committed := by
    refine List.filter_eq_self.mpr fun r hr => List.any_eq_true.mpr ?_
    exact ⟨outboxTwin r, h.twins ▸ List.mem_map_of_mem hr, by simp [outboxTwin]⟩
  have hafter : (db.table.committed.filter fun r => r.scope = some s && lastSeq < r.number) =
      (db.history s).drop lastSeq := by
    rw [← NumberedTable.filter_eq_drop (h.history_numbers s), AuditDb.history,
      NumberedTable.inScope, List.filter_filter]
    refine List.filter_congr fun r _ => ?_
    rw [Bool.and_comm, Nat.add_comm 1 lastSeq]
    rfl
  have hsorted : ((db.history s).drop lastSeq).Pairwise fun a b => a.number ≤ b.number :=
    (NumberedTable.pairwise_number (h.history_numbers s)).sublist (List.drop_sublist _ _)
  simp only [timelineRows, hjoined, hafter, hsorted.insertionSort_eq]

/-- The committed history only grows at its end. -/
theorem auditStep_history {known : String → Bool} {e : AuditEvent φ} (s : SessionId)
    (hs : auditStep known db e = some db') :
    ∃ more, db'.history s = db.history s ++ more := by
  cases e with
  | record t r =>
    cases hs
    refine ⟨[], ?_⟩
    unfold AuditDb.record
    split <;> exact (List.append_nil _).symm
  | create t =>
    refine ⟨[], (List.append_nil _).symm ▸ ?_⟩
    simp only [auditStep, AuditDb.create] at hs
    cases hrow : db.table.pendingOf t with
    | none => simp [hrow] at hs
    | some row =>
      cases hins : db.table.insert t row with
      | none => simp [hrow, hins] at hs
      | some table =>
        have hkept : table.committed = db.table.committed := by
          unfold NumberedTable.insert at hins
          split at hins
          · cases hins
            rfl
          · split at hins
            · cases hins
            · cases hins
              rfl
        simp only [hrow, hins] at hs
        split at hs
        · cases hs
          rfl
        · cases hs
          exact congrArg (NumberedTable.inScope (some s)) hkept
  | commit t =>
    cases hs
    exact ⟨_, List.filter_append _ _⟩
  | rollback t =>
    cases hs
    exact ⟨[], (List.append_nil _).symm⟩

structure TimelineInv (s : SessionId) (w : Timeline φ) : Prop where
  audit : AuditInv w.db
  sent : w.delivered = (w.db.history s).take w.lastSeq
  upTo : w.lastSeq ≤ (w.db.history s).length

/-- A poll sends the next rows. -/
theorem TimelineInv.poll {s : SessionId} {w : Timeline φ} (h : TimelineInv s w) :
    w.delivered ++ timelineRows w.db s w.lastSeq = (w.db.history s).take (w.lastSeq + 500) ∧
      (timelineRows w.db s w.lastSeq).foldl (fun last e => max last e.number) w.lastSeq =
        min (w.lastSeq + 500) (w.db.history s).length := by
  rw [h.audit.timelineRows_eq, h.sent, ← List.take_add]
  refine ⟨rfl, ?_⟩
  have hnumbers : (((w.db.history s).drop w.lastSeq).take 500).map (·.number) =
      List.range' (w.lastSeq + 1) (((w.db.history s).drop w.lastSeq).take 500).length := by
    rw [List.map_take, List.map_drop, h.audit.history_numbers s, List.drop_range',
      NumberedTable.take_range'_min, List.length_take, List.length_drop]
    congr 1
    omega
  rw [NumberedTable.foldl_max_number hnumbers, List.length_take, List.length_drop]
  have := h.upTo
  omega

theorem TimelineInv.step {known : String → Bool} {s : SessionId} {w w' : Timeline φ}
    {e : TimelineEvent φ} (h : TimelineInv s w) (hs : timelineStep known s w e = some w') :
    TimelineInv s w' := by
  cases e with
  | db e =>
    obtain ⟨db, hdb, rfl⟩ := Option.map_eq_some_iff.mp hs
    obtain ⟨more, hmore⟩ := auditStep_history s hdb
    refine ⟨h.audit.step hdb, ?_, ?_⟩
    · show w.delivered = (db.history s).take w.lastSeq
      rw [hmore, List.take_append_of_le_length h.upTo, h.sent]
    · show w.lastSeq ≤ (db.history s).length
      rw [hmore, List.length_append]
      exact h.upTo.trans (Nat.le_add_right _ _)
  | poll =>
    cases hs
    obtain ⟨hsent, hlast⟩ := h.poll
    refine ⟨h.audit, ?_, ?_⟩
    · show w.delivered ++ timelineRows w.db s w.lastSeq = (w.db.history s).take (List.foldl _ _ _)
      rw [hsent, hlast, List.take_eq_take_iff]
      omega
    · show List.foldl _ _ _ ≤ _
      rw [hlast]
      exact min_le_right _ _

/-- **The stream misses nothing and sends nothing twice**: whatever transactions overlap with
it, the stream of a session has sent the first rows of its committed history, each once and in
the order of their commits, and the next poll sends the five hundred after them, or all that
are left. -/
theorem timeline_exactly_once {known : String → Bool} {s : SessionId} {db₀ : AuditDb φ}
    {w : Timeline φ} (h₀ : AuditInv db₀)
    (hrun : Run (timelineStep known s) anyStep ⟨db₀, 0, []⟩ w) :
    w.delivered = (w.db.history s).take w.lastSeq ∧ w.delivered.length = w.lastSeq ∧
      ∃ w', timelineStep known s w .poll = some w' ∧ w'.db = w.db ∧
        w'.delivered = (w.db.history s).take (w.lastSeq + 500) := by
  have h : TimelineInv s w := by
    refine hrun.invariant (I := TimelineInv s) ⟨h₀, rfl, Nat.zero_le _⟩ ?_
    intro a b e ha _ hs
    exact ha.step hs
  refine ⟨h.sent, ?_, _, rfl, rfl, h.poll.1⟩
  rw [h.sent, List.length_take]
  exact Nat.min_eq_left h.upTo

/-- The records that overlap, with polls between them. -/
def polledRecords : List (TimelineEvent Empty) :=
  .poll :: (overlappingRecords.take 4).map .db ++
    .poll :: (overlappingRecords.drop 4).map .db ++ [.poll]

theorem polledRecords_run :
    ∃ w, exec (timelineStep (fun _ => true) 7) ⟨AuditDb.empty, 0, []⟩ polledRecords = some w ∧
      w.delivered.map (·.number) = [1, 2] :=
  ⟨_, rfl, rfl⟩

theorem timeline_exactly_once_polled :
    ∃ w, exec (timelineStep (fun _ => true) 7) ⟨AuditDb.empty, 0, []⟩ polledRecords = some w ∧
      w.delivered.map (·.number) = [1, 2] ∧ w.delivered = (w.db.history 7).take w.lastSeq := by
  obtain ⟨w, hw, hnumbers⟩ := polledRecords_run
  exact ⟨w, hw, hnumbers, (timeline_exactly_once AuditInv.empty (Run.of_exec _ hw)).1⟩

end Noezema.Domain
