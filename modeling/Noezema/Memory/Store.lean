/-! # The memory store

The tables of the claim memory that the commit path, the cascade, the
reassessment worker and the activation lanes share. Rows keep the columns that
some modelled operation reads; identifiers are the `uuid`s of the source, taken
as numbers in the order the database compares them.
-/

namespace Noezema.Memory

abbrev ClaimId := Nat
abbrev SnapshotId := Nat
abbrev AssessmentId := Nat

/-- `epistemic_status` of an assessment. -/
inductive EpistemicStatus where
  | hypothesis | supported | disputed | refuted | deferred
deriving DecidableEq, Repr

/-- `assessment_state` of a head. -/
inductive AssessmentState where
  | current | pending | invalid
deriving DecidableEq, Repr

/-- A row of `claim_assessment_heads`. The table's CHECK constraint (`current`
exactly when the assessment and the status are set) is the shape of the type. -/
inductive Head where
  | current (assessment : AssessmentId) (status : EpistemicStatus)
  | pending
  | invalid
deriving DecidableEq, Repr

def Head.state : Head → AssessmentState
  | .current _ _ => .current
  | .pending => .pending
  | .invalid => .invalid

/-- `claim_dependencies.kind`. -/
inductive DependencyKind where
  | evidential | research
deriving DecidableEq, Repr

/-- A row of `claim_dependencies`: `fromClaimId` depends on `toClaimId`. -/
structure ClaimDependency where
  fromClaimId : ClaimId
  toClaimId : ClaimId
  kind : DependencyKind
deriving DecidableEq, Repr

/-- Heads by claim and configuration snapshot. -/
abbrev Heads := ClaimId → SnapshotId → Option Head

/-- Write one row of the heads table. -/
def Heads.set (h : Heads) (c : ClaimId) (s : SnapshotId) (v : Option Head) : Heads :=
  fun c' s' => if c' = c ∧ s' = s then v else h c' s'

@[simp] theorem Heads.set_same (h : Heads) (c s v) : h.set c s v c s = v := by
  simp [Heads.set]

theorem Heads.set_other (h : Heads) {c c' : ClaimId} {s s' : SnapshotId} (v)
    (hne : ¬ (c' = c ∧ s' = s)) : h.set c s v c' s' = h c' s' := by
  simp only [Heads.set, if_neg hne]

/-- The assessment state of a claim under a snapshot, if it has a head there. -/
def Heads.state (h : Heads) (c : ClaimId) (s : SnapshotId) : Option AssessmentState :=
  (h c s).map Head.state

end Noezema.Memory
