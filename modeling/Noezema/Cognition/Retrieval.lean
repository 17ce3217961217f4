import Noezema.Lib.Truncation
import Noezema.Memory.Cascade
import Noezema.Memory.Rules

/-! # Retrieval

`retrieve`: the claims for a context pack. One query ranks the matching claims of all
states and cuts the ranking after `current_limit + pending_limit` rows; the rows are then
split into the current claims and the pending or invalid ones. The cut counts the rows
of both kinds.
-/

namespace Noezema.Cognition

open Noezema.Lib Noezema.Memory

/-! ## Rows -/

/-- A row of `claims`, with what the retrieval shows of it. -/
structure ClaimRow where
  id : ClaimId
  statement : String
  searchStatements : List String
  claimType : String
  reverifyAfter : Option Nat
deriving DecidableEq

/-- The store: claims, heads and barriers, and grade and confidence of an assessment. -/
structure RetrievalStore where
  claims : List ClaimRow
  cascade : CascadeDb
  assessment : AssessmentId → Option (EffectiveGrade × ℚ)

/-- A row of the query. -/
structure RetrievalRow where
  claim : ClaimRow
  head : Head
  graded : Option (EffectiveGrade × ℚ)
  relevance : ℚ

inductive FreshnessStatus where
  | fresh | due | stale | unknown | evergreen
deriving DecidableEq, Repr

/-- `_FRESHNESS_SCORE`. -/
def FreshnessStatus.score : FreshnessStatus → ℚ
  | .fresh => 1
  | .evergreen => 1
  | .unknown => 7 / 10
  | .due => 4 / 10
  | .stale => 1 / 10

/-- `freshness_status`. -/
def freshnessStatus (reverifyAfter : Option Nat) (now : Nat) : FreshnessStatus :=
  match reverifyAfter with
  | none => .evergreen
  | some deadline => if now < deadline then .fresh else .due

structure RetrievedClaim where
  claimId : ClaimId
  statement : String
  claimType : String
  assessmentState : AssessmentState
  epistemicStatus : Option EpistemicStatus
  grade : Option EffectiveGrade
  confidence : Option ℚ
  freshness : FreshnessStatus
  relevance : ℚ
  score : ℚ
  label : String
deriving DecidableEq

structure RetrievalResult where
  current : List RetrievedClaim
  pendingInvalid : List RetrievedClaim
deriving DecidableEq

def pendingLabel : String := "[без действующей оценки: pending]"
def invalidLabel : String := "[оценка недействительна: invalid]"

/-- `RELEVANCE_THRESHOLD`. -/
def relevanceThreshold : ℚ := 1 / 10

/-- `MIN_RELEVANCE`. -/
def minRelevance : ℚ := 1 / 10 ^ 9

def Head.label : Head → String
  | .current _ _ => ""
  | .pending => pendingLabel
  | .invalid => invalidLabel

def Head.status : Head → Option EpistemicStatus
  | .current _ status => some status
  | .pending | .invalid => none

/-- `_row_to_claim`. -/
def RetrievalRow.toClaim (now : Nat) (row : RetrievalRow) : RetrievedClaim :=
  let significance := (row.graded.elim 0 fun g => (g.1.level : ℚ)) * (15 / 100) +
    row.graded.elim 0 (·.2)
  let freshness := freshnessStatus row.claim.reverifyAfter now
  { claimId := row.claim.id
    statement := row.claim.statement
    claimType := row.claim.claimType
    assessmentState := row.head.state
    epistemicStatus := Head.status row.head
    grade := row.graded.map (·.1)
    confidence := row.graded.map (·.2)
    freshness := freshness
    relevance := row.relevance
    score := row.relevance + significance + freshness.score
    label := Head.label row.head }

/-! ## The query -/

/-- `ts_rank` of a document and a query under a text search configuration. -/
abbrev TextRank := String → String → String → ℚ

/-- `relevance`: the better one of the two languages. -/
def ClaimRow.relevance (rank : TextRank) (question : String) (c : ClaimRow) : ℚ :=
  max (rank "russian" c.statement question)
    (rank "english" (" ".intercalate c.searchStatements) question)

namespace RetrievalStore

/-- A claim joined with its head under the snapshot and the assessment of the head. -/
def joined (store : RetrievalStore) (rank : TextRank) (question : String) (snap : SnapshotId)
    (c : ClaimRow) : Option RetrievalRow :=
  (store.cascade.know.heads c.id snap).map fun head =>
    { claim := c
      head := head
      graded := match head with
        | .current a _ => store.assessment a
        | .pending | .invalid => none
      relevance := c.relevance rank question }

/-- The query without its limit, the most relevant rows first; rows of one relevance come
in the order of the table. -/
def ranked (store : RetrievalStore) (rank : TextRank) (question : String)
    (snap : SnapshotId) : List RetrievalRow :=
  ((store.claims.filterMap (store.joined rank question snap)).filter
    (0 < ·.relevance)).insertionSort fun a b => b.relevance ≤ a.relevance

/-- `protected_claim_ids`: the closures of the open barriers. -/
def protectedClaimIds (store : RetrievalStore) : List ClaimId :=
  (store.cascade.manifests.filter fun m => store.cascade.barriers.any fun b =>
    b.closureManifestId = some m.id ∧ b.status ≠ .resolved).flatMap (·.body.claimIds)

end RetrievalStore

/-- One turn of the loop over the rows. -/
def collect (shielded : List ClaimId) (pendingLimit now : Nat) (acc : RetrievalResult)
    (row : RetrievalRow) : RetrievalResult :=
  if row.relevance < minRelevance then acc
  else
    let claim := row.toClaim now
    match row.head.state with
    | .current =>
      if claim.claimId ∈ shielded then acc
      else { acc with current := acc.current ++ [claim] }
    | .pending | .invalid =>
      if relevanceThreshold ≤ claim.relevance ∧ acc.pendingInvalid.length < pendingLimit then
        { acc with pendingInvalid := acc.pendingInvalid ++ [claim] }
      else acc

/-- `sort(key=score, reverse=True)`. -/
def byScore (claims : List RetrievedClaim) : List RetrievedClaim :=
  claims.insertionSort fun a b => b.score ≤ a.score

/-- `retrieve`. -/
def retrieve (store : RetrievalStore) (rank : TextRank) (question : String)
    (snap : SnapshotId) (currentLimit pendingLimit now : Nat) : RetrievalResult :=
  let rows := (store.ranked rank question snap).take (currentLimit + pendingLimit)
  let split := rows.foldl (collect store.protectedClaimIds pendingLimit now) ⟨[], []⟩
  ⟨byScore split.current, byScore split.pendingInvalid⟩

/-! ## What the loop picks -/

/-- A row that the loop takes as current knowledge. -/
def RetrievalRow.matching (shielded : List ClaimId) (row : RetrievalRow) : Bool :=
  minRelevance ≤ row.relevance ∧ row.head.state = .current ∧ row.claim.id ∉ shielded

/-- The head of the row is current, under a barrier or not. -/
def RetrievalRow.headCurrent (row : RetrievalRow) : Bool := row.head.state = .current

theorem RetrievalRow.headCurrent_of_matching {shielded : List ClaimId} {row : RetrievalRow}
    (h : row.matching shielded) : row.headCurrent := by
  simp only [matching, decide_eq_true_eq] at h
  simp [headCurrent, h.2.1]

theorem collect_current (shielded : List ClaimId) (pendingLimit now : Nat)
    (acc : RetrievalResult) (row : RetrievalRow) :
    (collect shielded pendingLimit now acc row).current =
      acc.current ++ if row.matching shielded then [row.toClaim now] else [] := by
  by_cases hlow : row.relevance < minRelevance
  · simp [collect, RetrievalRow.matching, hlow]
  · cases hstate : row.head.state with
    | current =>
      by_cases hin : row.claim.id ∈ shielded <;>
        simp [collect, RetrievalRow.matching, RetrievalRow.toClaim, hlow, hstate, hin,
          not_lt.mp hlow]
    | pending => simp [collect, RetrievalRow.matching, hlow, hstate, apply_ite]
    | invalid => simp [collect, RetrievalRow.matching, hlow, hstate, apply_ite]

theorem foldl_collect_current (shielded : List ClaimId) (pendingLimit now : Nat)
    (acc : RetrievalResult) (rows : List RetrievalRow) :
    (rows.foldl (collect shielded pendingLimit now) acc).current =
      acc.current ++ (rows.filter (·.matching shielded)).map (·.toClaim now) := by
  induction rows generalizing acc with
  | nil => simp
  | cons row rows ih =>
    rw [List.foldl_cons, ih, collect_current, List.append_assoc]
    by_cases hm : row.matching shielded <;> simp [hm]

/-! ## Displacement -/

namespace RetrievalStore

/-- The store with some of the claims. -/
def keeping (store : RetrievalStore) (keep : ClaimId → Bool) : RetrievalStore :=
  { store with claims := store.claims.filter fun c => keep c.id }

/-- Only claims with a pending or invalid head are left out. -/
def KeepsCurrent (store : RetrievalStore) (snap : SnapshotId) (keep : ClaimId → Bool) : Prop :=
  ∀ c, store.cascade.know.heads.state c snap = some .current → keep c

section Displacement

variable (store : RetrievalStore) (rank : TextRank) (question : String) (snap : SnapshotId)

theorem ranked_keeping (keep : ClaimId → Bool) :
    (store.keeping keep).ranked rank question snap =
      (store.ranked rank question snap).filter fun row => keep row.claim.id := by
  have hjoined : ∀ c : ClaimRow,
      (if keep c.id then store.joined rank question snap c else none) =
        (store.joined rank question snap c).filter fun row => keep row.claim.id := by
    intro c
    cases hhead : store.cascade.know.heads c.id snap with
    | none => simp [joined, hhead]
    | some head => by_cases hkeep : keep c.id <;> simp [joined, hhead, hkeep, Option.filter]
  have hrows : (store.claims.filter fun c => keep c.id).filterMap
        (store.joined rank question snap) =
      (store.claims.filterMap (store.joined rank question snap)).filter
        fun row => keep row.claim.id := by
    rw [List.filterMap_filter, List.filter_filterMap]
    exact congrArg (fun f => store.claims.filterMap f) (funext hjoined)
  unfold ranked
  rw [filter_insertionSort, List.filter_comm, ← hrows]
  rfl

/-- A row carries the head of its claim. -/
theorem head_of_mem_ranked {row : RetrievalRow} (h : row ∈ store.ranked rank question snap) :
    store.cascade.know.heads row.claim.id snap = some row.head := by
  unfold ranked at h
  rw [List.mem_insertionSort, List.mem_filter, List.mem_filterMap] at h
  obtain ⟨⟨c, -, hc⟩, -⟩ := h
  obtain ⟨head, hhead, rfl⟩ := Option.map_eq_some_iff.mp hc
  exact hhead

variable (currentLimit pendingLimit now : Nat)

/-- What the retrieval shows as current. -/
def currentOf : List RetrievedClaim :=
  (retrieve store rank question snap currentLimit pendingLimit now).current

theorem currentOf_eq :
    store.currentOf rank question snap currentLimit pendingLimit now =
      byScore ((((store.ranked rank question snap).take (currentLimit + pendingLimit)).filter
        (·.matching store.protectedClaimIds)).map (·.toClaim now)) := by
  show byScore _ = _
  rw [foldl_collect_current, List.nil_append]

/-- Leaving out claims with a pending or invalid head changes nothing of the current ones. -/
def Undisplaced : Prop :=
  ∀ keep, store.KeepsCurrent snap keep →
    (store.keeping keep).currentOf rank question snap currentLimit pendingLimit now =
      store.currentOf rank question snap currentLimit pendingLimit now

/-- The `current_limit` most relevant matching current claims are shown. -/
def ShowsBest : Prop :=
  ((((store.ranked rank question snap).filter (·.matching store.protectedClaimIds)).take
      currentLimit).map (·.toClaim now)).Subperm
    (store.currentOf rank question snap currentLimit pendingLimit now)

theorem undisplaced_iff :
    store.Undisplaced rank question snap currentLimit pendingLimit now ↔
      WithinCut (store.ranked rank question snap) (·.matching store.protectedClaimIds)
        RetrievalRow.headCurrent (currentLimit + pendingLimit) (currentLimit + pendingLimit) := by
  have hpq : ∀ row ∈ store.ranked rank question snap,
      row.matching store.protectedClaimIds → row.headCurrent :=
    fun _ _ => RetrievalRow.headCurrent_of_matching
  unfold Undisplaced
  constructor
  · intro h
    -- all claims without a current head are left out
    have hall := h (fun c => store.cascade.know.heads.state c snap = some .current)
      fun c hc => decide_eq_true hc
    rw [currentOf_eq, currentOf_eq, ranked_keeping] at hall
    have hsame : (store.ranked rank question snap).filter
          (fun row => decide (store.cascade.know.heads.state row.claim.id snap =
            some .current)) =
        (store.ranked rank question snap).filter RetrievalRow.headCurrent := by
      apply List.filter_congr
      intro row hrow
      simp [Heads.state, store.head_of_mem_ranked rank question snap hrow,
        RetrievalRow.headCurrent]
    rw [hsame] at hall
    apply withinCut_of_length_le hpq
    have hlen := congrArg List.length hall
    simp only [byScore, List.length_insertionSort, List.length_map] at hlen
    exact hlen.le
  · intro h keep hkeep
    have hrows : ∀ row ∈ store.ranked rank question snap, row.headCurrent →
        keep row.claim.id := by
      intro row hrow hcur
      apply hkeep
      simpa [Heads.state, store.head_of_mem_ranked rank question snap hrow,
        RetrievalRow.headCurrent] using hcur
    rw [currentOf_eq, currentOf_eq, ranked_keeping]
    exact congrArg (fun rows => byScore (rows.map (·.toClaim now)))
      (h.filter_take_eq hpq hrows)

theorem showsBest_iff :
    store.ShowsBest rank question snap currentLimit pendingLimit now ↔
      WithinCut (store.ranked rank question snap) (·.matching store.protectedClaimIds)
        (·.matching store.protectedClaimIds) currentLimit (currentLimit + pendingLimit) := by
  unfold ShowsBest
  rw [currentOf_eq]
  constructor
  · intro h
    apply withinCut_of_length_le fun _ _ hx => hx
    have hlen := h.length_le
    simp only [byScore, List.length_insertionSort, List.length_map] at hlen
    rwa [filter_take_filter_self]
  · intro h
    exact (h.take_filter_sublist.map _).subperm.trans
      (List.perm_insertionSort _ _).symm.subperm

end Displacement

end RetrievalStore

/-- **Displacement at the cut.** Claims with a pending or invalid head displace none of the
current claims exactly when no matching current claim is behind the cut of the whole ranking
and before the same cut of the claims with a current head; the best `current_limit` matching
current claims are shown exactly when none of them is behind the cut. -/
theorem retrieve_displacement_iff (store : RetrievalStore) (rank : TextRank)
    (question : String) (snap : SnapshotId) (currentLimit pendingLimit now : Nat) :
    (store.Undisplaced rank question snap currentLimit pendingLimit now ↔
      WithinCut (store.ranked rank question snap) (·.matching store.protectedClaimIds)
        RetrievalRow.headCurrent (currentLimit + pendingLimit)
        (currentLimit + pendingLimit)) ∧
    (store.ShowsBest rank question snap currentLimit pendingLimit now ↔
      WithinCut (store.ranked rank question snap) (·.matching store.protectedClaimIds)
        (·.matching store.protectedClaimIds) currentLimit (currentLimit + pendingLimit)) :=
  ⟨store.undisplaced_iff rank question snap currentLimit pendingLimit now,
    store.showsBest_iff rank question snap currentLimit pendingLimit now⟩

/-! ## A backlog before the current claim -/

/-- Two pending claims repeat the question, a current one shares a word with it. -/
def backlogStore : RetrievalStore where
  claims := [⟨1, "question", [], "external_fact", none⟩,
    ⟨2, "question", [], "external_fact", none⟩, ⟨3, "answer", [], "external_fact", none⟩]
  cascade := {
    know := ⟨fun c _ => if c = 3 then some (.current 1 .supported) else some .pending, [], [], 0⟩
    effective := 1
    dependencies := []
    graphRevision := 0
    manifests := []
    barriers := [] }
  assessment := fun _ => some (.E3, 75 / 100)

/-- A rank that prefers the repetition. -/
def backlogRank : TextRank := fun _ document _ =>
  if document = "question" then 1 / 2 else if document = "answer" then 1 / 4 else 0

/-- Of two places, both go to pending claims and the current claim is not shown. -/
theorem pending_claims_displace :
    ¬ ∀ (store : RetrievalStore) (rank : TextRank) (question : String) (snap : SnapshotId)
        (currentLimit pendingLimit now : Nat),
      store.Undisplaced rank question snap currentLimit pendingLimit now ∧
        store.ShowsBest rank question snap currentLimit pendingLimit now := by
  intro h
  have hkept := (h backlogStore backlogRank "question" 1 1 1 0).1 (· = 3) (by
    intro c hc
    by_contra hne
    have hstate : backlogStore.cascade.know.heads.state c 1 = some .pending := by
      simp only [decide_eq_true_eq] at hne
      simp [backlogStore, Heads.state, hne, Head.state]
    rw [hstate] at hc
    cases hc)
  have hlen := congrArg List.length hkept
  revert hlen
  decide +kernel

end Noezema.Cognition
