import Noezema.Memory.Reference

/-! # The claim operations of a commit

The first section of `apply_claim_staging`: each recorded `claim` operation creates a
claim, reuses the one with its statement and type, re-verifies the one it refers to, or is
rejected and keeps its place as a gap. The claims it creates have no head before the
assessment section, so what the section looks up does not change while it runs.
-/

namespace Noezema.Memory

open Noezema.Lib

/-- What the section reads of a row of `claims`. -/
structure ClaimRow where
  id : ClaimId
  statement : Text
  claimType : String
deriving DecidableEq

/-- The corpus as one session sees it: `hasHead` is a head under its snapshot. -/
structure Corpus where
  rows : List ClaimRow
  hasHead : ClaimId → Bool

namespace Corpus

/-- The claims with a head in the session's snapshot. -/
def visibleIds (db : Corpus) : List ClaimId :=
  (db.rows.filter fun r => db.hasHead r.id).map (·.id)

theorem mem_visibleIds {db : Corpus} {c : ClaimId} :
    c ∈ db.visibleIds ↔ c ∈ db.rows.map (·.id) ∧ db.hasHead c := by
  unfold visibleIds
  rw [List.mem_map, List.mem_map]
  constructor
  · intro ⟨r, hr, hc⟩
    obtain ⟨hmem, hhead⟩ := List.mem_filter.mp hr
    exact ⟨⟨r, hmem, hc⟩, by rwa [← hc]⟩
  · intro ⟨⟨r, hr, hc⟩, hhead⟩
    exact ⟨r, List.mem_filter.mpr ⟨hr, by rwa [hc]⟩, hc⟩

theorem visibleIds_nodup {db : Corpus} (h : (db.rows.map (·.id)).Nodup) :
    db.visibleIds.Nodup :=
  h.sublist (List.filter_sublist.map _)

/-- Other sessions commit: claims and heads are added, none is deleted. -/
structure Grows (db db' : Corpus) : Prop where
  rows : ∀ r ∈ db.rows, r ∈ db'.rows
  heads : ∀ c, db.hasHead c → db'.hasHead c

end Corpus

/-! ## One operation -/

/-- The payload of a recorded `claim` operation. -/
structure ClaimOp where
  statement : Text
  claimType : String
  existingClaimId : Option Text
deriving DecidableEq

/-- What becomes of an operation. -/
inductive StagedClaim where
  | created
  | reused (claim : ClaimId)
  | reverified (claim : ClaimId)
deriving DecidableEq, Repr

/-- Why an operation is rejected. -/
inductive ClaimProblem where
  | badStatementOrType
  | reference (problem : ReferenceProblem)
  | targetVanished
deriving DecidableEq, Repr

section Stage

variable (parseUuid : Text → Option ClaimId) (hex : ClaimId → Text)
  (hasRule : String → Bool)

/-- The statement as the row stores it. -/
def ClaimOp.clipped (op : ClaimOp) : Text := op.statement.take 2000

/-- The operation names a statement and a type the rules know. -/
def ClaimOp.wellFormed (op : ClaimOp) : Bool := op.clipped ≠ [] ∧ hasRule op.claimType

/-- The claim an operation without a reference reuses. -/
def Corpus.duplicate? (db : Corpus) (op : ClaimOp) : Option ClaimId :=
  (db.rows.find? fun r => r.statement = op.clipped ∧ r.claimType = op.claimType ∧
    db.hasHead r.id).map (·.id)

/-- One round of the claim loop. -/
def stageClaim (db : Corpus) (op : ClaimOp) : Except ClaimProblem StagedClaim :=
  if ¬ op.wellFormed hasRule then .error .badStatementOrType
  else match op.existingClaimId with
    | some raw =>
      match resolveClaimReference parseUuid hex raw db.visibleIds with
      | .error problem => .error (.reference problem)
      | .ok c => if c ∈ db.rows.map (·.id) then .ok (.reverified c) else .error .targetVanished
    | none =>
      match db.duplicate? op with
      | some c => .ok (.reused c)
      | none => .ok .created

/-- The curator boundary on a reverify reference: it is resolved over the claims of the
context pack, and the target must have a head in the session's snapshot. -/
def boundaryTarget (db : Corpus) (packIds : List ClaimId) (raw : Text) : Option ClaimId :=
  match resolveClaimReference parseUuid hex raw packIds with
  | .ok c => if c ∈ db.visibleIds then some c else none
  | .error _ => none

variable {parseUuid hex hasRule}

/-- What the boundary accepted is visible later. -/
theorem boundaryTarget_later {db db' : Corpus} {packIds : List ClaimId} {raw : Text}
    {x : ClaimId} (h : boundaryTarget parseUuid hex db packIds raw = some x)
    (hgrows : db.Grows db') :
    resolveClaimReference parseUuid hex raw packIds = .ok x ∧ x ∈ db'.visibleIds := by
  unfold boundaryTarget at h
  cases hr : resolveClaimReference parseUuid hex raw packIds with
  | error problem => simp [hr] at h
  | ok c =>
    simp only [hr] at h
    split at h
    · rename_i hvisible
      cases h
      obtain ⟨hrow, hhead⟩ := Corpus.mem_visibleIds.mp hvisible
      refine ⟨rfl, Corpus.mem_visibleIds.mpr ⟨?_, hgrows.heads x hhead⟩⟩
      obtain ⟨r, hmem, hid⟩ := List.mem_map.mp hrow
      exact List.mem_map.mpr ⟨r, hgrows.rows r hmem, hid⟩
    · cases h

/-- **A reverify at the commit.** Whatever claims other sessions commit after the boundary
accepted the reference for `x`, the operation re-verifies `x` or no claim at all. It is
rejected exactly when its own statement or type is not admitted, or when the reference is
a shortened one that another claim with a head in the session's snapshot matches as well;
then the problem is the ambiguity. -/
theorem reverify_at_commit {before after : Corpus} {packIds : List ClaimId} {op : ClaimOp}
    {raw : Text} {x : ClaimId} (hkeys : (after.rows.map (·.id)).Nodup)
    (hgrows : before.Grows after) (hop : op.existingClaimId = some raw)
    (haccepted : boundaryTarget parseUuid hex before packIds raw = some x) :
    (∀ staged, stageClaim parseUuid hex hasRule after op = .ok staged →
      staged = .reverified x) ∧
    (stageClaim parseUuid hex hasRule after op = .ok (.reverified x) ↔
      op.wellFormed hasRule ∧ ¬ NamesAnother parseUuid hex raw after.visibleIds x) ∧
    (∀ problem, op.wellFormed hasRule →
      stageClaim parseUuid hex hasRule after op = .error problem →
      ∃ shown n, problem = .reference (.ambiguous shown n)) := by
  obtain ⟨hpack, hvisible⟩ := boundaryTarget_later haccepted hgrows
  have hrow : x ∈ after.rows.map (·.id) := (Corpus.mem_visibleIds.mp hvisible).1
  unfold stageClaim
  by_cases hform : op.wellFormed hasRule
  · simp only [hform, not_true, if_false, hop, true_and]
    rcases resolve_again (Corpus.visibleIds_nodup hkeys) hpack hvisible with
      ⟨hok, hnone⟩ | ⟨⟨shown, n, hambiguous⟩, hanother⟩
    · simp only [hok, if_pos hrow, hnone, not_false_eq_true]
      refine ⟨fun staged h => ?_, trivial, ?_⟩
      · cases h
        rfl
      · intro problem _ h
        cases h
    · simp only [hambiguous, hanother, not_true]
      refine ⟨fun staged h => ?_, Iff.intro (fun h => ?_) False.elim, ?_⟩
      · cases h
      · cases h
      · intro problem _ h
        cases h
        exact ⟨shown, n, rfl⟩
  · rw [if_pos hform]
    refine ⟨fun staged h => ?_, Iff.intro (fun h => ?_) fun h => ?_, ?_⟩
    · cases h
    · cases h
    · exact absurd h.1 hform
    · intro problem hform'
      exact absurd hform' hform

end Stage

/-! ## Two claims with one prefix -/

/-- The value of a hex digit. -/
def hexValue (c : Char) : Nat := if c.isDigit then c.toNat - 48 else c.toNat - 87

/-- An id of thirty-two hex digits, dashes ignored. -/
def uuidOf (s : Text) : Option ClaimId :=
  let digits := s.filter (· ≠ '-')
  if digits.length = 32 ∧ digits.all isHexDigit then
    some (digits.foldl (fun n c => 16 * n + hexValue c) 0)
  else none

/-- The digits of an id, padded to thirty-two. -/
def hexOf (c : ClaimId) : Text :=
  let digits := Nat.toDigits 16 c
  List.replicate (32 - digits.length) '0' ++ digits

/-- The corpus at the boundary, and after another session has committed claim `2`. -/
def oneFact : Corpus where
  rows := [⟨1, ['a'], "fact"⟩]
  hasHead := fun _ => true

def twoFacts : Corpus where
  rows := [⟨1, ['a'], "fact"⟩, ⟨2, ['b'], "fact"⟩]
  hasHead := fun _ => true

/-- A reverify that names its claim by the first eight digits of its id. -/
def shortReverify : ClaimOp := ⟨['a'], "fact", some (List.replicate 8 '0')⟩

/-- A reverify that names its claim by its id, as the pack shows it. -/
def packedReverify : ClaimOp := ⟨['a'], "fact", some (['[', 'c', ':'] ++ hexOf 1 ++ [']'])⟩

theorem reverify_at_commit_packed :
    boundaryTarget uuidOf hexOf oneFact [1] (['[', 'c', ':'] ++ hexOf 1 ++ [']']) = some 1 ∧
      stageClaim uuidOf hexOf (fun _ => true) twoFacts packedReverify =
        .ok (.reverified 1) := by
  have haccepted : boundaryTarget uuidOf hexOf oneFact [1]
      (['[', 'c', ':'] ++ hexOf 1 ++ [']']) = some 1 := by decide
  have hgrows : oneFact.Grows twoFacts := ⟨by decide, fun _ h => h⟩
  have hread : readReference uuidOf (['[', 'c', ':'] ++ hexOf 1 ++ [']']) = .full 1 := by decide
  refine ⟨haccepted, ?_⟩
  apply (@reverify_at_commit _ _ _ _ _ _ packedReverify _ _ (by decide) hgrows rfl haccepted).2.1.mpr
  refine ⟨by decide, ?_⟩
  intro ⟨digits, hd, _⟩
  rw [hread] at hd
  cases hd

/-- The short reference names claim `1` alone in the pack and two claims at the commit. -/
theorem short_reverify_rejected : ¬ ∀ (parseUuid : Text → Option ClaimId)
    (hex : ClaimId → Text) (hasRule : String → Bool) (before after : Corpus)
    (packIds : List ClaimId) (op : ClaimOp) (raw : Text) (x : ClaimId),
    (after.rows.map (·.id)).Nodup → before.Grows after → op.existingClaimId = some raw →
    boundaryTarget parseUuid hex before packIds raw = some x → op.wellFormed hasRule →
    stageClaim parseUuid hex hasRule after op = .ok (.reverified x) := by
  intro hall
  have hok := hall uuidOf hexOf (fun _ => true) oneFact twoFacts [1] shortReverify _ 1
    (by decide) ⟨by decide, fun _ h => h⟩ rfl (by decide) (by decide)
  revert hok
  decide

end Noezema.Memory
