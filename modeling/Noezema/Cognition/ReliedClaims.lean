import Noezema.Lib.Except
import Noezema.Cognition.ContextPack

/-! # The claims that an answer relies on

The curator names stored claims by reference and the host adds some of its own: from a
rejected proposal, from operations that were dropped, from the final answer and from fresher
forecasts of a series. The loops share one shape: a reference is resolved over the ids in
view, an id is taken once, and the list has a limit.
-/

namespace Noezema.Cognition

open Noezema.Lib Noezema.Memory

/-! ## References -/

section References

variable (uuids : Uuid.Reader)

/-- `resolve_claim_reference`, over ids. -/
def resolveId (raw : Text) (visibleIds : List Uuid) : Except ReferenceProblem Uuid :=
  (resolveClaimReference (fun t => (uuids.parse t).map BitVec.toNat) (hexText 32) raw
    (visibleIds.map BitVec.toNat)).map (BitVec.ofNat 128)

variable {uuids}

theorem resolveId_mem {raw : Text} {visibleIds : List Uuid} {u : Uuid}
    (h : resolveId uuids raw visibleIds = .ok u) : u ∈ visibleIds := by
  obtain ⟨n, hn, rfl⟩ := map_eq_ok.mp h
  obtain ⟨v, hv, rfl⟩ := List.mem_map.mp (resolve_mem hn)
  rw [BitVec.ofNat_toNat, BitVec.setWidth_eq]
  exact hv

end References

/-- What stands for a reference after `c:`, at the beginning of a text: the longest match of
`[0-9a-fA-F][0-9a-fA-F-]{6,34}[0-9a-fA-F]`. -/
def answerClaimRef? (text : Text) : Option Text :=
  let token := ((text.takeWhile fun c => isHexSymbol c || c = '-').take 36).rdropWhile (· = '-')
  if 8 ≤ token.length ∧ token.head?.any isHexSymbol then some token else none

/-- `_ANSWER_CLAIM_REF_RE.findall`: `glued` after a letter or a digit, `skip` symbols belong
to the last match. -/
def answerClaimRefsFrom : Bool → Nat → Text → List Text
  | _, _, [] => []
  | _, skip + 1, c :: rest => answerClaimRefsFrom c.isAlphanum skip rest
  | glued, 0, c :: rest =>
    match if c = 'c' ∧ ¬ glued ∧ rest.head? = some ':' then answerClaimRef? (rest.drop 1)
      else none with
    | some token => token :: answerClaimRefsFrom c.isAlphanum (token.length + 1) rest
    | none => answerClaimRefsFrom c.isAlphanum 0 rest

def answerClaimRefs (answer : Text) : List Text := answerClaimRefsFrom false 0 answer

/-- `claim:`, with which the chunk id of a claim begins. -/
def chunkPrefix : Text := ['c', 'l', 'a', 'i', 'm', ':']

/-- `claims_evidence_ids`: the ids of the chunks `claim:<uuid>`, every id once. -/
def claimsEvidenceIds (uuids : Uuid.Reader) (chunkIds : List Text) : List Uuid :=
  (chunkIds.filterMap fun chunk =>
    if chunkPrefix.isPrefixOf chunk then uuids.parse (chunk.drop chunkPrefix.length)
    else none).eraseDups

/-! ## The loops that collect references -/

/-- `RELIED_CLAIMS_LIMIT`. -/
def reliedClaimsLimit : Nat := 8

/-- Where a refused id was named; the texts of the refusals begin with it. -/
inductive ReliedPlace where
  | rely | rejectedProposal | droppedOperation | answer | fresherForecast
deriving DecidableEq, Repr

inductive ReliedProblem where
  | reference (problem : ReferenceProblem)
  | operation (claim : Uuid)
  | limit (limit : Nat)
deriving DecidableEq, Repr

/-- An entry of `relied_claims_rejected`. -/
structure ReliedRejection where
  place : ReliedPlace
  index : Nat
  problem : ReliedProblem
deriving DecidableEq, Repr

/-- What a loop collects; `taken` has the ids of the list before it as well. -/
structure Collected where
  taken : Finset Uuid
  added : List Uuid
  rejected : List ReliedRejection

/-- One of the loops: the ids in view, and the operations of the session, whose ids are
refused by name or skipped. -/
structure Collecting where
  place : ReliedPlace
  visibleIds : List Uuid
  operationIds : List Uuid
  namesOperations : Bool
  limit : Nat

section Collect

variable (uuids : Uuid.Reader)

/-- One turn, over the position and the text of a reference. -/
def collectTurn (loop : Collecting) (s : Collected) (ref : Nat × Text) : Collected :=
  let reject (problem : ReliedProblem) : Collected :=
    { s with rejected := s.rejected ++ [⟨loop.place, ref.1, problem⟩] }
  match resolveId uuids ref.2 loop.visibleIds with
  | .error problem => reject (.reference problem)
  | .ok u =>
    if u ∈ s.taken then s
    else if u ∈ loop.operationIds then if loop.namesOperations then reject (.operation u) else s
    else if loop.limit ≤ s.taken.card then reject (.limit loop.limit)
    else { s with taken := insert u s.taken, added := s.added ++ [u] }

def collectReferences (loop : Collecting) (relied : List Uuid) (refs : List (Nat × Text)) :
    Collected :=
  refs.foldl (collectTurn uuids loop) ⟨relied.toFinset, [], []⟩

/-- The references of a list with their positions. -/
def numbered (refs : List Text) : List (Nat × Text) := refs.zipIdx.map fun e => (e.2, e.1)

/-- The loop of the curator boundary over `relied_claim_ids`. -/
def reliedFromProposal (declaredIds : List Text) (visibleIds : List Uuid) : Collected :=
  collectReferences uuids ⟨.rely, visibleIds, [], false, reliedClaimsLimit⟩ []
    (numbered declaredIds)

/-- `_relied_from_rejected_proposal`. -/
def reliedFromRejectedProposal (declaredIds : List Text) (visibleIds : List Uuid)
    (limit : Nat) : Collected :=
  collectReferences uuids ⟨.rejectedProposal, visibleIds, [], false, limit⟩ []
    (numbered declaredIds)

/-- `relied_from_dropped_operations`. -/
def reliedFromDroppedOperations (droppedRefs : List (Nat × Text))
    (packClaimsEvidence reliedIds sessionOperationIds : List Uuid) (limit : Nat) : Collected :=
  collectReferences uuids ⟨.droppedOperation, packClaimsEvidence, sessionOperationIds, false, limit⟩
    reliedIds droppedRefs

/-- `_relied_from_answer`. -/
def reliedFromAnswer (answer : Text) (visibleIds takenIds operationIds : List Uuid)
    (limit : Nat) : Collected :=
  collectReferences uuids ⟨.answer, visibleIds, operationIds, true, limit⟩ takenIds
    (numbered (answerClaimRefs answer))

end Collect

/-! ## Fresher forecasts -/

/-- The id of a record: that of a stored claim, or `new<i>` for a claim of the proposal. -/
inductive RecordId where
  | proposed (index : Nat)
  | stored (claim : Uuid)
deriving DecidableEq

/-- `SupplementRecord`; `asOf` is a moment. -/
structure SupplementRecord where
  claimId : RecordId
  statement : Text
  asOf : Option Int
deriving DecidableEq

/-- A record of the pack, that is always one of a stored claim. -/
structure PackRecord where
  claimId : Uuid
  statement : Text
  asOf : Option Int
deriving DecidableEq

def PackRecord.record (r : PackRecord) : SupplementRecord :=
  ⟨.stored r.claimId, r.statement, r.asOf⟩

inductive ForecastKind where
  | actual | outdated | undated
deriving DecidableEq, Repr

structure ForecastMark where
  kind : ForecastKind
  series : String
deriving DecidableEq, Repr

/-- An entry of `relied_fresher_forecast`. -/
structure FresherForecast where
  claimId : Uuid
  series : String
  replaces : List RecordId

structure Supplement where
  usedTotal : Nat
  added : List FresherForecast
  rejected : List ReliedRejection

/-- One turn over the records of the pack: an actual forecast goes in when the card has
records of its series and all of them are outdated. -/
def fresherTurn (marks : RecordId → Option ForecastMark) (card : List SupplementRecord)
    (limit : Nat) (s : Supplement) (e : PackRecord × Nat) : Supplement :=
  match marks (.stored e.1.claimId) with
  | none => s
  | some mark =>
    let sameSeries := card.filter fun r => (marks r.claimId).any (·.series = mark.series)
    if mark.kind ≠ .actual ∨ sameSeries = [] then s
    else if sameSeries.any fun r => (marks r.claimId).any (·.kind ≠ .outdated) then s
    else if limit ≤ s.usedTotal then
      { s with rejected := s.rejected ++ [⟨.fresherForecast, e.2, .limit limit⟩] }
    else
      { s with
        usedTotal := s.usedTotal + 1
        added := s.added ++ [⟨e.1.claimId, mark.series, sameSeries.map (·.claimId)⟩] }

/-- `fresher_forecast_supplement`; the marks of the series are those of `forecast_marks`. -/
def fresherForecastSupplement
    (forecastMarks : List SupplementRecord → RecordId → Option ForecastMark)
    (card : List SupplementRecord) (pack : List PackRecord) (reliedCount limit : Nat) :
    Supplement :=
  pack.zipIdx.foldl (fresherTurn (forecastMarks (card ++ pack.map PackRecord.record)) card limit)
    ⟨reliedCount, [], []⟩

/-! ## What every loop keeps -/

/-- **A well formed list of relied claims**: every id once, at most `limit` of them, each one
in view. -/
structure Relying (visible : Uuid → Prop) (limit : Nat) (relied : List Uuid) : Prop where
  nodup : relied.Nodup
  length_le : relied.length ≤ limit
  visible : ∀ u ∈ relied, visible u

namespace Relying

variable {visible : Uuid → Prop} {limit : Nat} {relied : List Uuid}

theorem nil : Relying visible limit [] := ⟨List.nodup_nil, Nat.zero_le _, by simp⟩

/-- One more id. -/
theorem snoc (h : Relying visible limit relied) {u : Uuid} (hnew : u ∉ relied)
    (hlimit : relied.length < limit) (hvisible : visible u) :
    Relying visible limit (relied ++ [u]) := by
  refine ⟨?_, ?_, ?_⟩
  · rw [List.nodup_append]
    refine ⟨h.nodup, List.nodup_singleton u, ?_⟩
    intro a ha b hb hab
    rw [hab, List.mem_singleton.mp hb] at ha
    exact hnew ha
  · rw [List.length_append, List.length_singleton]
    exact hlimit
  · intro v hv
    rcases List.mem_append.mp hv with hv | hv
    · exact h.visible v hv
    · rw [List.mem_singleton.mp hv]
      exact hvisible

end Relying

section Kept

variable {uuids : Uuid.Reader} {visible : Uuid → Prop} {loop : Collecting} {relied : List Uuid}

/-- What holds inside a loop that starts with `relied`. -/
structure Collects (visible : Uuid → Prop) (limit : Nat) (relied : List Uuid) (s : Collected) :
    Prop where
  taken : s.taken = (relied ++ s.added).toFinset
  relying : Relying visible limit (relied ++ s.added)

theorem Collects.turn {s : Collected} (h : Collects visible loop.limit relied s)
    (hvisible : ∀ u ∈ loop.visibleIds, visible u) (ref : Nat × Text) :
    Collects visible loop.limit relied (collectTurn uuids loop s ref) := by
  unfold collectTurn
  dsimp only
  split
  · exact ⟨h.taken, h.relying⟩
  · rename_i u hresolved
    split
    · exact h
    · rename_i hnew
      split
      · split
        · exact ⟨h.taken, h.relying⟩
        · exact h
      · split
        · exact ⟨h.taken, h.relying⟩
        · -- the set and the list have the same ids, so the limit counts the list
          rename_i hlimit
          rw [h.taken, List.toFinset_card_of_nodup h.relying.nodup] at hlimit
          rw [h.taken, List.mem_toFinset] at hnew
          refine ⟨?_, ?_⟩
          · ext v
            simp [h.taken]
          · rw [← List.append_assoc]
            exact h.relying.snoc hnew (not_le.mp hlimit) (hvisible u (resolveId_mem hresolved))

/-- **Collecting keeps the list well formed.** -/
theorem collect_relying {limit : Nat} (h : Relying visible limit relied)
    (hlimit : loop.limit = limit) (hvisible : ∀ u ∈ loop.visibleIds, visible u)
    (refs : List (Nat × Text)) :
    Relying visible limit (relied ++ (collectReferences uuids loop relied refs).added) := by
  subst hlimit
  have hloop : ∀ s, Collects visible loop.limit relied s →
      Collects visible loop.limit relied (refs.foldl (collectTurn uuids loop) s) := by
    induction refs with
    | nil => exact fun s hs => hs
    | cons ref refs ih => exact fun s hs => ih _ (hs.turn hvisible ref)
  have hstart : Collects visible loop.limit relied ⟨relied.toFinset, [], []⟩ := by
    constructor
    · simp
    · simpa using h
  exact (hloop _ hstart).relying

/-- What holds inside the loop over the records of the pack: the ids added come from the
records already seen, in their order. -/
structure Supplements (limit reliedCount : Nat) (seen : List PackRecord) (s : Supplement) :
    Prop where
  added : (s.added.map (·.claimId)).Sublist (seen.map (·.claimId))
  used : s.usedTotal = reliedCount + s.added.length
  limit : s.usedTotal ≤ limit

theorem Supplements.turn {marks : RecordId → Option ForecastMark} {card : List SupplementRecord}
    {limit reliedCount : Nat} {seen : List PackRecord} {s : Supplement}
    (h : Supplements limit reliedCount seen s) (e : PackRecord × Nat) :
    Supplements limit reliedCount (seen ++ [e.1]) (fresherTurn marks card limit s e) := by
  have hskip : (s.added.map (·.claimId)).Sublist ((seen ++ [e.1]).map (·.claimId)) := by
    rw [List.map_append]
    exact h.added.trans (List.sublist_append_left _ _)
  unfold fresherTurn
  split
  · exact ⟨hskip, h.used, h.limit⟩
  · dsimp only
    split
    · exact ⟨hskip, h.used, h.limit⟩
    · split
      · exact ⟨hskip, h.used, h.limit⟩
      · split
        · exact ⟨hskip, h.used, h.limit⟩
        · -- the record is added, and the count before it is below the limit
          rename_i hlimit
          have hused := h.used
          refine ⟨?_, ?_, ?_⟩
          · rw [List.map_append, List.map_append]
            exact h.added.append (List.Sublist.refl _)
          · show s.usedTotal + 1 = _
            rw [List.length_append, List.length_singleton]
            omega
          · exact not_le.mp hlimit

theorem fresherForecastSupplement_supplements
    {forecastMarks : List SupplementRecord → RecordId → Option ForecastMark}
    {card : List SupplementRecord} {pack : List PackRecord} {reliedCount limit : Nat}
    (h : reliedCount ≤ limit) :
    Supplements limit reliedCount pack
      (fresherForecastSupplement forecastMarks card pack reliedCount limit) := by
  have hloop : ∀ (marks : RecordId → Option ForecastMark) (rest : List (PackRecord × Nat))
      (seen : List PackRecord) (s : Supplement), Supplements limit reliedCount seen s →
      Supplements limit reliedCount (seen ++ rest.map (·.1))
        (rest.foldl (fresherTurn marks card limit) s) := by
    intro marks rest
    induction rest with
    | nil =>
      intro seen s hs
      simpa using hs
    | cons e rest ih =>
      intro seen s hs
      rw [List.foldl_cons, List.map_cons, List.append_cons]
      exact ih _ _ (hs.turn e)
  have hstart : Supplements limit reliedCount [] ⟨reliedCount, [], []⟩ :=
    ⟨List.Sublist.refl _, rfl, h⟩
  have hpack := hloop (forecastMarks (card ++ pack.map PackRecord.record)) pack.zipIdx [] _ hstart
  rw [List.nil_append, List.zipIdx_map_fst] at hpack
  exact hpack

/-- **The supplement keeps the list well formed**: the records of the pack are of visible
claims that are not in the list. -/
theorem supplement_relying {limit : Nat} (h : Relying visible limit relied)
    {forecastMarks : List SupplementRecord → RecordId → Option ForecastMark}
    {card : List SupplementRecord} {pack : List PackRecord}
    (hnodup : (pack.map (·.claimId)).Nodup) (hnew : ∀ r ∈ pack, r.claimId ∉ relied)
    (hvisible : ∀ r ∈ pack, visible r.claimId) :
    Relying visible limit (relied ++ (fresherForecastSupplement forecastMarks card pack
      relied.length limit).added.map (·.claimId)) := by
  have hs := @fresherForecastSupplement_supplements forecastMarks card pack _ _ h.length_le
  have hfrom : ∀ u ∈ (fresherForecastSupplement forecastMarks card pack
      relied.length limit).added.map (·.claimId), ∃ r ∈ pack, r.claimId = u :=
    fun u hu => List.mem_map.mp (hs.added.subset hu)
  refine ⟨?_, ?_, ?_⟩
  · rw [List.nodup_append]
    refine ⟨h.nodup, hnodup.sublist hs.added, ?_⟩
    intro a ha b hb hab
    obtain ⟨r, hr, rfl⟩ := hfrom b hb
    exact hnew r hr (hab ▸ ha)
  · have hused := hs.used
    have hlimit := hs.limit
    rw [List.length_append, List.length_map]
    omega
  · intro u hu
    rcases List.mem_append.mp hu with hu | hu
    · exact h.visible u hu
    · obtain ⟨r, hr, rfl⟩ := hfrom u hu
      exact hvisible r hr

end Kept

end Noezema.Cognition
