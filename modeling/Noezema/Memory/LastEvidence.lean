import Noezema.Lib.Entries
import Noezema.Memory.LinkRevocations

/-! # The last evidence of a claim

A call without `allow_empty` may not take the last evidence of a claim. It counts the rows
that it does not list, and of the revocations in force it has loaded those of the listed
rows: a row that an earlier call has revoked counts as evidence.
-/

namespace Noezema.Memory

open Noezema.Lib

namespace LinkDb

variable {w w' : LinkDb}

/-- The claim has a row in force. -/
def EvidenceLeft (w : LinkDb) (c : ClaimId) : Prop :=
  ∃ row ∈ w.db.tables.evidence, row.claimId = c ∧ w.db.tables.revoked row.id = false

/-- **The condition**: a claim that the call touches and that has rows outside the call has
one in force among them. -/
def SparesEvidence (w : LinkDb) (call : RevokeCall) : Prop :=
  ∀ c, w.Touches call c →
    (∃ row ∈ w.db.tables.evidence, row.claimId = c ∧ row.id ∉ call.evidenceIds) →
      ∃ row ∈ w.db.tables.evidence, row.claimId = c ∧ row.id ∉ call.evidenceIds ∧
        w.db.tables.revoked row.id = false

/-! ## One call -/

/-- What is in force after a call: what was, outside the call. -/
theorem Revoked.evidenceLeft_iff {call : RevokeCall} {res : LinkRevocationResult}
    {rows : List RevocationRow} (h : Revoked w w' call res rows) (c : ClaimId) :
    w'.EvidenceLeft c ↔ ∃ row ∈ w.db.tables.evidence, row.claimId = c ∧
      row.id ∉ call.evidenceIds ∧ w.db.tables.revoked row.id = false := by
  have hevidence : w'.db.tables.evidence = w.db.tables.evidence := by rw [h.after]; rfl
  unfold EvidenceLeft
  rw [hevidence]
  refine exists_congr fun row => and_congr_right fun _ => and_congr_right fun _ => ?_
  rw [← Bool.not_eq_true, h.revoked_iff, not_or, Bool.not_eq_true]
  constructor
  · rintro ⟨hbefore, hcall⟩
    exact ⟨fun hlisted => hcall ⟨hlisted, hbefore⟩, hbefore⟩
  · rintro ⟨hlisted, hbefore⟩
    exact ⟨hbefore, fun hcall => hlisted hcall.1⟩

/-- **What an accepted call without `allow_empty` leaves.** -/
theorem evidenceLeft_iff {gate : ValueGate} {call : RevokeCall} {res : LinkRevocationResult}
    (h : w.applyLinkRevocations gate call = .ok (w', res)) (hplain : call.allowEmpty = false) :
    (∀ c ∈ res.claimsAffected, w'.EvidenceLeft c) ↔ w.SparesEvidence call := by
  obtain ⟨rows, hcall⟩ := applyLinkRevocations_ok h
  constructor
  · intro hleft c htouches _
    exact (hcall.evidenceLeft_iff c).mp (hleft c ((hcall.affected c).mpr htouches))
  · intro hspares c hc
    exact (hcall.evidenceLeft_iff c).mpr
      (hspares c ((hcall.affected c).mp hc) (hcall.left hplain c hc))

/-! ## Runs -/

/-- No call lets a claim go without evidence. -/
def Plain (_ : LinkDb) : LinkEvent → Prop
  | .revoke _ call => call.allowEmpty = false
  | _ => True

/-- Each call meets the condition. -/
def Spares (w : LinkDb) : LinkEvent → Prop
  | .revoke _ call => call.allowEmpty = false ∧ w.SparesEvidence call
  | _ => True

/-- **The invariant**: rows are numbered, revocations name stored rows, and a claim with
evidence has a row in force. -/
structure Supported (w : LinkDb) : Prop where
  numbered : ∀ row ∈ w.db.tables.evidence, row.id < w.db.tables.evidence.length
  ids : ((w.db.tables.evidence.map Evidence.key).map Prod.fst).Nodup
  stored : ∀ e, w.db.tables.revoked e → e < w.db.tables.evidence.length
  left : ∀ row ∈ w.db.tables.evidence, w.EvidenceLeft row.claimId

theorem Initial.supported (h : w.Initial) : w.Supported where
  numbered := by simp [h.evidence]
  ids := by simp [h.evidence]
  stored := by
    intro e he
    obtain ⟨r, hr, -⟩ := (revoked_iff w e).mp he
    rw [h.revocations] at hr
    cases hr
  left := by simp [h.evidence]

/-- A stored row is found by its id. -/
theorem Supported.rowOf_id (h : w.Supported) {row : Evidence}
    (hrow : row ∈ w.db.tables.evidence) : w.rowOf row.id = some row := by
  have hids : (w.db.tables.evidence.map (·.id)).Nodup := by
    have hnodup := h.ids
    rwa [List.map_map] at hnodup
  exact (find?_key_eq_some hids).mpr ⟨hrow, rfl⟩

/-- Where no revocation is added, a row in force stays in force. -/
theorem EvidenceLeft.kept {c : ClaimId} (h : w.EvidenceLeft c)
    (hrows : ∀ p ∈ w.db.tables.evidence.map Evidence.key,
      p ∈ w'.db.tables.evidence.map Evidence.key)
    (hrevoked : ∀ e, w'.db.tables.revoked e → w.db.tables.revoked e) : w'.EvidenceLeft c := by
  obtain ⟨row, hrow, rfl, hforce⟩ := h
  obtain ⟨row', hrow', hkey⟩ := List.mem_map.mp (hrows _ (List.mem_map_of_mem hrow))
  obtain ⟨hid, hclaim⟩ := Prod.mk.inj hkey
  refine ⟨row', hrow', hclaim, ?_⟩
  rw [← Bool.not_eq_true, hid]
  intro hnow
  rw [hrevoked _ hnow] at hforce
  cases hforce

/-- Rows are added by an event of the system. -/
theorem Supported.extends (h : w.Supported)
    (hext : ExtendsEvidence w.db.tables.toEvidenceDb w'.db.tables.toEvidenceDb) :
    w'.Supported := by
  have hrevoked : ∀ e, w'.db.tables.revoked e = w.db.tables.revoked e := by
    intro e
    rw [EvidenceDb.revoked, hext.revocations, EvidenceDb.revoked]
  obtain ⟨new, hnew, hnodup, hids⟩ := hext.rows
  have hkeys : ∀ row ∈ w'.db.tables.evidence,
      row.key ∈ w.db.tables.evidence.map Evidence.key ∨ row.key ∈ new := by
    intro row hrow
    rw [← List.mem_append, ← hnew]
    exact List.mem_map_of_mem hrow
  constructor
  · intro row hrow
    rcases hkeys row hrow with hold | hadded
    · obtain ⟨row', hrow', hkey⟩ := List.mem_map.mp hold
      have hlt := h.numbered row' hrow'
      rw [(Prod.mk.inj hkey).1] at hlt
      exact Nat.lt_of_lt_of_le hlt hext.length_le
    · exact (hids _ hadded).2
  · rw [hnew, List.map_append, List.nodup_append]
    refine ⟨h.ids, hnodup, fun i hi j hj heq => ?_⟩
    obtain ⟨p, hp, rfl⟩ := List.mem_map.mp hi
    obtain ⟨q, hq, rfl⟩ := List.mem_map.mp hj
    obtain ⟨row, hrow, rfl⟩ := List.mem_map.mp hp
    exact absurd heq (Nat.ne_of_lt (Nat.lt_of_lt_of_le (h.numbered row hrow) (hids q hq).1))
  · intro e he
    rw [hrevoked] at he
    exact Nat.lt_of_lt_of_le (h.stored e he) hext.length_le
  · intro row hrow
    rcases hkeys row hrow with hold | hadded
    · obtain ⟨row', hrow', hkey⟩ := List.mem_map.mp hold
      have hleft := h.left row' hrow'
      rw [(Prod.mk.inj hkey).2] at hleft
      refine hleft.kept (fun p hp => ?_) fun e he => by rwa [← hrevoked]
      rw [hnew]
      exact List.mem_append_left _ hp
    · -- a new id is above those that are revoked
      refine ⟨row, hrow, rfl, ?_⟩
      rw [← Bool.not_eq_true, hrevoked]
      intro hold
      exact Nat.lt_irrefl _ (Nat.lt_of_lt_of_le (h.stored _ hold) (hids _ hadded).1)

/-- A call that meets the condition. -/
theorem Supported.revokes (h : w.Supported) {gate : ValueGate} {call : RevokeCall}
    {res : LinkRevocationResult} (hcall : w.applyLinkRevocations gate call = .ok (w', res))
    (hplain : call.allowEmpty = false) (hspares : w.SparesEvidence call) : w'.Supported := by
  obtain ⟨rows, hrevoked⟩ := applyLinkRevocations_ok hcall
  have hevidence : w'.db.tables.evidence = w.db.tables.evidence := by rw [hrevoked.after]; rfl
  constructor
  · rw [hevidence]
    exact h.numbered
  · rw [hevidence]
    exact h.ids
  · intro e he
    rw [hevidence]
    rcases (hrevoked.revoked_iff e).mp he with hold | hnew
    · exact h.stored e hold
    · obtain ⟨row, hrow⟩ := Option.isSome_iff_exists.mp (hrevoked.stored e hnew)
      have hid : row.id = e := by simpa using List.find?_some hrow
      exact hid ▸ h.numbered row (List.mem_of_find?_eq_some hrow)
  · intro row hrow
    rw [hevidence] at hrow
    by_cases htouches : w.Touches call row.claimId
    · exact (evidenceLeft_iff hcall hplain).mpr hspares _ ((hrevoked.affected _).mpr htouches)
    · -- the rows of the claim are left alone
      obtain ⟨row', hrow', hclaim, hforce⟩ := h.left row hrow
      refine ⟨row', by rwa [hevidence], hclaim, ?_⟩
      rw [← Bool.not_eq_true, hrevoked.revoked_iff, not_or, Bool.not_eq_true]
      exact ⟨hforce, fun hnew => htouches ⟨row'.id, row', hnew, h.rowOf_id hrow', hclaim⟩⟩

theorem Supported.cancels (h : w.Supported) {call : CancelCall}
    {res : LinkRevocationCancelResult} (hcall : w.cancelLinkRevocations call = .ok (w', res)) :
    w'.Supported := by
  have hcancelled := cancelLinkRevocations_ok hcall
  have hevidence : w'.db.tables.evidence = w.db.tables.evidence := by
    obtain ⟨reason, hafter⟩ := hcancelled.after
    rw [hafter]
    rfl
  constructor
  · rw [hevidence]
    exact h.numbered
  · rw [hevidence]
    exact h.ids
  · intro e he
    rw [hevidence]
    exact h.stored e (hcancelled.revoked he)
  · intro row hrow
    rw [hevidence] at hrow
    refine (h.left row hrow).kept (fun p hp => ?_) fun e => hcancelled.revoked
    rwa [hevidence]

variable {host : Host} {digest : ManifestBody → String}
  {headDigest : List (ClaimId × Head) → String}

theorem Supported.step (h : w.Supported) {e : LinkEvent} (hspares : w.Spares e)
    (hs : w.linkStep host digest headDigest e = some w') : w'.Supported := by
  cases e with
  | system e =>
    simp only [linkStep] at hs
    split at hs
    · rename_i he
      split at hs
      · rename_i world hworld
        cases hs
        exact Supported.extends h (World.systemStep_extends he hworld)
      · cases hs
    · cases hs
  | revoke gate call =>
    simp only [linkStep] at hs
    split at hs
    · rename_i res hcall
      cases hs
      exact h.revokes hcall hspares.1 hspares.2
    · cases hs
      exact h
  | cancel call =>
    simp only [linkStep] at hs
    split at hs
    · rename_i res hcall
      cases hs
      exact h.cancels hcall
    · cases hs
      exact h

/-- **When revocations leave evidence.** In every run whose calls meet the condition, each
claim with evidence has a row in force, and a call that would leave none is refused and
writes nothing; and in every run without `allow_empty`, an accepted call leaves evidence to
each claim it touches exactly when it meets the condition. -/
theorem revocations_leave_evidence {w₀ w : LinkDb} (h₀ : w₀.Initial) :
    (Run (linkStep host digest headDigest) Spares w₀ w →
      (∀ row ∈ w.db.tables.evidence, w.EvidenceLeft row.claimId) ∧
      ∀ gate call c, w.Spares (.revoke gate call) → w.Touches call c →
        (∀ row ∈ w.db.tables.evidence, row.claimId = c → row.id ∉ call.evidenceIds →
          w.db.tables.revoked row.id) →
        w.linkStep host digest headDigest (.revoke gate call) = some w ∧
          ∃ e, w.applyLinkRevocations gate call = .error e) ∧
    (Run (linkStep host digest headDigest) Plain w₀ w →
      ∀ gate call w' res, call.allowEmpty = false →
        w.applyLinkRevocations gate call = .ok (w', res) →
        ((∀ c ∈ res.claimsAffected, w'.EvidenceLeft c) ↔ w.SparesEvidence call)) := by
  refine ⟨fun hrun => ⟨?_, ?_⟩, fun _ gate call w' res hplain hcall => ?_⟩
  · exact (hrun.invariant h₀.supported fun h hg hs => h.step hg hs).left
  · intro gate call c hspares htouches hnone
    cases hcall : w.applyLinkRevocations gate call with
    | error e => exact ⟨by simp only [linkStep, hcall], e, rfl⟩
    | ok p =>
      obtain ⟨w', res⟩ := p
      obtain ⟨rows, hrevoked⟩ := applyLinkRevocations_ok hcall
      have hleft := (evidenceLeft_iff hcall hspares.1).mpr hspares.2 c
        ((hrevoked.affected c).mpr htouches)
      obtain ⟨row, hrow, hclaim, hlisted, hforce⟩ := (hrevoked.evidenceLeft_iff c).mp hleft
      rw [hnone row hrow hclaim hlisted] at hforce
      cases hforce
  · exact evidenceLeft_iff hcall hplain

end LinkDb

/-! ## Two calls -/

theorem pagesStored_spares :
    pagesStored.Spares (.revoke absentGate (revokeOne 0 false)) := by
  refine ⟨rfl, ?_⟩
  rintro c ⟨e, row, ⟨hlisted, -⟩, hrow, rfl⟩ -
  obtain rfl := List.mem_singleton.mp hlisted
  obtain rfl := Option.some.inj hrow
  exact ⟨_, List.mem_cons_of_mem _ (List.mem_singleton_self _), rfl, by decide, rfl⟩

theorem revocations_leave_evidence_pages : onceRevoked.revocations.length = 1 ∧
    ∀ row ∈ onceRevoked.db.tables.evidence, onceRevoked.EvidenceLeft row.claimId := by
  refine ⟨rfl, ?_⟩
  have hcommit := @Run.of_exec_guarded _ _ linkSystem LinkDb.Spares pagesDb pagesStored
    pagesCommit pagesStored_reached (by
      intro e he a
      fin_cases he <;> trivial)
  have hrun : Run linkSystem LinkDb.Spares pagesDb onceRevoked :=
    hcommit.snoc pagesStored_spares rfl
  exact ((LinkDb.revocations_leave_evidence pagesDb_initial).1 hrun).1

/-- The two links of claim `1` are revoked one after the other: the second call counts the
first row as evidence, and leaves none. -/
theorem last_evidence_revoked : ¬ ∀ (host : Host) (digest : ManifestBody → String)
    (headDigest : List (ClaimId × Head) → String) (w₀ w w' : LinkDb) (gate : ValueGate)
    (call : RevokeCall) (res : LinkRevocationResult), w₀.Initial →
    Run (LinkDb.linkStep host digest headDigest) LinkDb.Plain w₀ w → call.allowEmpty = false →
    w.applyLinkRevocations gate call = .ok (w', res) →
    ∀ c ∈ res.claimsAffected, w'.EvidenceLeft c := by
  intro hall
  have hrun := @Run.of_exec_guarded _ _ linkSystem LinkDb.Plain pagesDb _
    (pagesCommit ++ [.revoke absentGate (revokeOne 0 false)] ++ workJob 0) rfl (by
      intro e he a
      fin_cases he <;> trivial)
  obtain ⟨row, hrow, -, hforce⟩ := hall plainHost sizeDigest (fun _ => "heads") pagesDb _ _
    absentGate (revokeOne 1 false) _ pagesDb_initial hrun rfl rfl 1 (List.mem_singleton_self _)
  revert hforce
  fin_cases hrow <;> decide

end Noezema.Memory
