import Mathlib.Data.List.Sort
import Noezema.Memory.Rules

/-! # Environment independence

Environment manifests, the groups of their methods and the relations between
them. The group of a manifest is the digest of its protocol, implementation and
data lineage; a manifest without any of these is in the one untracked group.
-/

namespace Noezema.Memory

abbrev ManifestId := Nat

/-- `EnvManifestView`. -/
structure EnvManifestView where
  id : ManifestId
  protocolHash : Option String
  implementationHash : Option String
  datasetLineage : Option String
  runtimeHash : Option String
  hardwareHash : Option String
  toolchainHash : Option String
  dependencyHash : Option String
  seed : Option Int
  dataOrderHash : Option String
deriving DecidableEq

/-- The digest of a method: sixteen characters of the canonical hash. -/
structure MethodDigest where
  hash : String → String → String → String
  hash_length : ∀ protocol implementation lineage,
    (hash protocol implementation lineage).length = 16

/-- `UNTRACKED_GROUP`. -/
def untrackedGroup : String := "envgrp:untracked"

/-- No recorded lineage at all. -/
def EnvManifestView.untracked (v : EnvManifestView) : Bool :=
  v.protocolHash = none ∧ v.implementationHash = none ∧ v.datasetLineage = none

/-- `_env_key`: the execution fields. -/
def EnvManifestView.envKey (v : EnvManifestView) :
    Option String × Option String × Option String × Option String × Option Int ×
      Option String :=
  (v.runtimeHash, v.hardwareHash, v.toolchainHash, v.dependencyHash, v.seed,
    v.dataOrderHash)

section Relations

variable (dg : MethodDigest)

/-- `environment_group`. -/
def environmentGroup (v : EnvManifestView) : String :=
  if v.untracked then untrackedGroup
  else "envgrp:" ++ dg.hash (v.protocolHash.getD "") (v.implementationHash.getD "")
    (v.datasetLineage.getD "")

/-- `classify_pair`. -/
def classifyPair (a b : EnvManifestView) : EnvRelation :=
  if a.untracked then .untracked
  else if b.untracked then .untracked
  else if environmentGroup dg a = environmentGroup dg b then
    if a.envKey = b.envKey then .repeatability else .reproducibility
  else
    let methodIndependent :=
      a.protocolHash ≠ b.protocolHash ∨ a.implementationHash ≠ b.implementationHash
    let dataDependent := a.datasetLineage ≠ none ∧ b.datasetLineage ≠ none
    if methodIndependent ∧ ¬ (dataDependent ∧ a.datasetLineage = b.datasetLineage) then
      .independentReplication
    else .variation

/-- The better of the best pair so far and the next one. -/
def stronger (v : EnvManifestView) (best : EnvRelation × Option ManifestId)
    (other : EnvManifestView) : EnvRelation × Option ManifestId :=
  if best.1.rank < (classifyPair dg v other).rank then
    (classifyPair dg v other, some other.id)
  else best

/-- `strongest_pair_relation`: the relation and the counterpart that decides it. -/
def strongestPairRelation (v : EnvManifestView) (others : List EnvManifestView) :
    EnvRelation × Option ManifestId :=
  (others.insertionSort fun a b => a.id ≤ b.id).foldl (stronger dg v) (.none, none)

/-- The mapping of `build_environment_independence_snapshot`: group and relation of
each manifest. -/
def environmentMapping (views : List EnvManifestView) :
    List (ManifestId × String × EnvRelation) :=
  views.map fun v => (v.id, environmentGroup dg v,
    (strongestPairRelation dg v (views.filter fun o => o.id ≠ v.id)).1)

/-! ## The untracked group -/

/-- Only a manifest without lineage is in the untracked group. -/
theorem environmentGroup_untracked_iff (v : EnvManifestView) :
    environmentGroup dg v = untrackedGroup ↔ v.untracked := by
  constructor
  · intro h
    by_contra hv
    rw [environmentGroup, if_neg hv, untrackedGroup] at h
    have hlen := congrArg String.length h
    rw [String.length_append, dg.hash_length] at hlen
    exact absurd hlen (by decide)
  · intro hv
    rw [environmentGroup, if_pos hv]

/-- Every pair has a relation. -/
theorem classifyPair_rank (a b : EnvManifestView) : 0 < (classifyPair dg a b).rank := by
  simp only [classifyPair]
  repeat' split
  all_goals decide

theorem stronger_rank (v : EnvManifestView) (best : EnvRelation × Option ManifestId)
    (other : EnvManifestView) :
    best.1.rank ≤ (stronger dg v best other).1.rank ∧
      0 < (stronger dg v best other).1.rank := by
  have hpos := classifyPair_rank dg v other
  simp only [stronger]
  split
  · show best.1.rank ≤ (classifyPair dg v other).rank ∧ 0 < (classifyPair dg v other).rank
    omega
  · omega

/-- The fold lowers no rank. -/
theorem foldl_stronger_rank (v : EnvManifestView) (others : List EnvManifestView)
    (best : EnvRelation × Option ManifestId) :
    best.1.rank ≤ (others.foldl (stronger dg v) best).1.rank := by
  induction others generalizing best with
  | nil => exact Nat.le_refl _
  | cons other rest ih =>
    have hstep := (stronger_rank dg v best other).1
    have hrest := ih (stronger dg v best other)
    show _ ≤ (rest.foldl (stronger dg v) (stronger dg v best other)).1.rank
    omega

/-- A manifest has no relation exactly when it is the only one of its set. -/
theorem strongestPairRelation_none_iff (v : EnvManifestView)
    (others : List EnvManifestView) :
    (strongestPairRelation dg v others).1 = .none ↔ others = [] := by
  constructor
  · intro h
    have hperm := List.perm_insertionSort (fun a b : EnvManifestView => a.id ≤ b.id) others
    rw [strongestPairRelation] at h
    cases hsorted : others.insertionSort fun a b => a.id ≤ b.id with
    | nil =>
      rw [hsorted] at hperm
      exact hperm.nil_eq.symm
    | cons o rest =>
      -- the first pair has a rank, and the fold keeps it
      rw [hsorted, List.foldl_cons] at h
      have hfirst := (stronger_rank dg v (.none, none) o).2
      have hfold := foldl_stronger_rank dg v rest (stronger dg v (.none, none) o)
      rw [h] at hfold
      have hzero : EnvRelation.none.rank = 0 := rfl
      omega
  · intro h
    rw [h]
    rfl

end Relations

end Noezema.Memory
