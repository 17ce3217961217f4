import Mathlib.Data.Rat.Floor
import Mathlib.Data.Finset.Dedup
import Mathlib.Data.Finset.Card
import Noezema.Lib.Partition
import Noezema.Lib.Rounding
import Noezema.Memory.Scope
import Noezema.Memory.Store

/-! # The rules engine

`evaluate`: the only producer of a grade and a confidence. It counts supporting
evidence and distinct independence groups, which it knows by their names only;
`evaluate_relabel` says that the names themselves do not matter.
-/

namespace Noezema.Memory

/-- `evidence.relation`. -/
inductive EvidenceRelation where
  | supports | counters
deriving DecidableEq, Repr

/-- `EffectiveGrade`. -/
inductive EffectiveGrade where
  | E0 | E1 | E2 | E3 | E4
deriving DecidableEq, Repr

def EffectiveGrade.level : EffectiveGrade → Nat
  | .E0 => 0
  | .E1 => 1
  | .E2 => 2
  | .E3 => 3
  | .E4 => 4

/-- One grade up, never past `E4`. -/
def EffectiveGrade.lift : EffectiveGrade → EffectiveGrade
  | .E0 => .E1
  | .E1 => .E2
  | .E2 => .E3
  | .E3 => .E4
  | .E4 => .E4

/-- `GRADE_CONFIDENCE_BASE`. -/
def EffectiveGrade.confidenceBase : EffectiveGrade → ℚ
  | .E0 => 1 / 10
  | .E1 => 3 / 10
  | .E2 => 55 / 100
  | .E3 => 75 / 100
  | .E4 => 95 / 100

/-- The relation of an environment to the others of its set. -/
inductive EnvRelation where
  | none | untracked | variation | repeatability | reproducibility
  | independentReplication
deriving DecidableEq, Repr

/-- `_RELATION_RANK`. -/
def EnvRelation.rank : EnvRelation → Nat
  | .none => 0
  | .untracked => 1
  | .variation => 1
  | .repeatability => 2
  | .reproducibility => 3
  | .independentReplication => 4

/-- `REQUIRED_RELATIONS`. -/
inductive RequiredRelation where
  | repeatability | reproducibility | independentReplication
deriving DecidableEq, Repr

def RequiredRelation.relation : RequiredRelation → EnvRelation
  | .repeatability => .repeatability
  | .reproducibility => .reproducibility
  | .independentReplication => .independentReplication

def RequiredRelation.name : RequiredRelation → String
  | .repeatability => "repeatability"
  | .reproducibility => "reproducibility"
  | .independentReplication => "independent_replication"

/-- One executable claim-type rule. -/
structure ClaimTypeRule where
  minGradeForSupported : EffectiveGrade
  allowedKinds : List String
  minSupportEvidence : Int
  minIndependenceGroups : Int
  requiresScope : Bool
  requiresAsOf : Bool
  volatility : String
  requiredIndependence : Option RequiredRelation
deriving DecidableEq

/-- `VOLATILITY_REVERIFY_DAYS`, with its default. -/
def ClaimTypeRule.reverifyDays (r : ClaimTypeRule) : Nat :=
  if r.volatility = "static" then 90
  else if r.volatility = "configurable" ∨ r.volatility = "temporal" then 30
  else 90

/-- One evidence row as the rules engine sees it. -/
structure EvaluatedEvidence where
  identityHash : String
  kind : String
  relation : EvidenceRelation
  scope : Scope
  independenceGroup : String
  envRelation : EnvRelation
  resolved : Bool

structure AssessmentResult where
  grade : EffectiveGrade
  epistemicStatus : EpistemicStatus
  confidence : ℚ
  reverifyAfterDays : Nat
  reasons : List String
deriving DecidableEq

/-- `RuleValidationError`, with the data of its message. -/
inductive RuleValidationError where
  | kindNotAllowed (kind claimType : String)
  | unknownClaimType (claimType : String)
deriving DecidableEq, Repr

/-- The supporting items. -/
def supportOf (evs : List EvaluatedEvidence) : List EvaluatedEvidence :=
  evs.filter fun e => e.relation = .supports

/-- The unresolved counter items. -/
def counterOf (evs : List EvaluatedEvidence) : List EvaluatedEvidence :=
  evs.filter fun e => e.relation = .counters ∧ !e.resolved

/-- `{e.independence_group for e in ...}`. -/
def groupsOf (evs : List EvaluatedEvidence) : List String :=
  (evs.map (·.independenceGroup)).dedup

/-- `_relation_met`. -/
def relationMet (support : List EvaluatedEvidence) : RequiredRelation → Bool
  | .independentReplication =>
    2 ≤ (groupsOf (support.filter fun e => e.envRelation = .independentReplication)).length
  | required =>
    2 ≤ (support.filter fun e => required.relation.rank ≤ e.envRelation.rank).length

/-- `round(x, 4)`. -/
def round4 (x : ℚ) : ℚ := Lib.roundDecimals 4 x

section Evaluate

variable (parseDay parseTime : String → Option Int)

/-- `scope_ok`. -/
def scopeOk (rule : ClaimTypeRule) (claimScope : Scope)
    (support : List EvaluatedEvidence) : Bool :=
  if support ≠ [] then
    !rule.requiresScope || (claimScope ≠ ∅ &&
      support.all fun e => Scope.scopeCovers parseDay parseTime e.scope claimScope)
  else !rule.requiresScope || claimScope = ∅

/-- The confidence of a grade, a float. -/
def confidenceOf (rule : ClaimTypeRule) (grade : EffectiveGrade) (disputed : Bool)
    (groups : Nat) : ℚ :=
  let base := Lib.binary64 grade.confidenceBase
  let base := if disputed then Lib.binary64 (base * Lib.binary64 (6 / 10)) else base
  let base :=
    if rule.minIndependenceGroups ≠ 0 then
      Lib.binary64 (base * min 1 (Lib.binary64 (groups / rule.minIndependenceGroups)))
    else base
  round4 (min 1 (max 0 base))

theorem confidenceOf_mem (rule : ClaimTypeRule) (grade : EffectiveGrade) (disputed : Bool)
    (groups : Nat) : 0 ≤ confidenceOf rule grade disputed groups ∧
      confidenceOf rule grade disputed groups ≤ 1 :=
  Lib.roundDecimals_mem 4 (le_min zero_le_one (le_max_left _ _)) (min_le_left _ _)

/-- What is still missing when some support does not meet the rule, in the
order the source asks. -/
def unmetReason (rule : ClaimTypeRule) (supports groups : Nat)
    (relationOk scopeOk : Bool) : String :=
  if (supports : Int) < rule.minSupportEvidence then "insufficient_evidence"
  else if (groups : Int) < rule.minIndependenceGroups then "insufficient_independence"
  else if !relationOk then
    "independence_" ++ (rule.requiredIndependence.elim "None" (·.name)) ++ "_not_met"
  else if !scopeOk then "scope_not_covered"
  else "as_of_missing"

/-- Grade, status and reasons of an evidence set with some support. -/
def gradeSupported (rule : ClaimTypeRule) (supports groups : Nat)
    (relationOk scopeOk asOfOk disputed resolvedCounters : Bool) :
    EffectiveGrade × EpistemicStatus × List String :=
  let meets := rule.minSupportEvidence ≤ supports ∧
    rule.minIndependenceGroups ≤ groups ∧ relationOk ∧ scopeOk ∧ asOfOk
  if disputed then (.E1, .disputed, ["counterevidence_unresolved"])
  else if meets then
    let grade := rule.minGradeForSupported
    -- extra independent groups lift the grade by one step
    (if 2 * rule.minIndependenceGroups ≤ groups ∧ grade.level < 4 then grade.lift
      else grade,
      .supported,
      if resolvedCounters then ["requirements_met", "counterevidence_resolved"]
      else ["requirements_met"])
  else (.E1, .hypothesis, [unmetReason rule supports groups relationOk scopeOk])

/-- `evaluate`. -/
def evaluate (claimType : String) (rule : ClaimTypeRule) (claimScope : Scope)
    (evidences : List EvaluatedEvidence) (hasAsOf : Bool) :
    Except RuleValidationError AssessmentResult :=
  let support := supportOf evidences
  let counter := counterOf evidences
  let resolvedCounters := evidences.any fun e => e.relation = .counters ∧ e.resolved
  match support.find? fun e => e.kind ∉ rule.allowedKinds with
  | some e => .error (.kindNotAllowed e.kind claimType)
  | none =>
    if support = [] ∧ counter = [] then
      .ok ⟨.E0, if rule.requiresAsOf && !hasAsOf then .deferred else .hypothesis,
        Lib.binary64 (5 / 100), rule.reverifyDays, ["no_evidence"]⟩
    else if support = [] then
      .ok ⟨.E0, .refuted, 5 / 10, rule.reverifyDays, ["counterevidence_only"]⟩
    else
      let groups := (groupsOf support).length
      let relationOk := rule.requiredIndependence.all (relationMet support)
      let scopeOk := scopeOk parseDay parseTime rule claimScope support
      let asOfOk := !rule.requiresAsOf || hasAsOf
      let disputed : Bool := counter ≠ []
      let (grade, status, reasons) :=
        gradeSupported rule support.length groups relationOk scopeOk asOfOk disputed
          resolvedCounters
      .ok ⟨grade, status, confidenceOf rule grade disputed groups, rule.reverifyDays,
        reasons⟩

/-! ## What an assessment says about the groups -/

variable {parseDay parseTime}

/-- An assessment without support supports nothing; any other is graded by its
counts. -/
theorem evaluate_ok {claimType : String} {rule : ClaimTypeRule} {claimScope : Scope}
    {evs : List EvaluatedEvidence} {hasAsOf : Bool} {r : AssessmentResult}
    (h : evaluate parseDay parseTime claimType rule claimScope evs hasAsOf = .ok r) :
    r.epistemicStatus ≠ .supported ∧ r.reasons ≠ ["insufficient_independence"] ∨
      ∃ relationOk scopeOk asOfOk disputed resolvedCounters,
        (r.grade, r.epistemicStatus, r.reasons) =
          gradeSupported rule (supportOf evs).length (groupsOf (supportOf evs)).length
            relationOk scopeOk asOfOk disputed resolvedCounters := by
  simp only [evaluate] at h
  split at h
  · cases h
  · split at h
    · cases h
      refine .inl ⟨?_, by simp⟩
      show (if _ then EpistemicStatus.deferred else .hypothesis) ≠ .supported
      split <;> decide
    · split at h
      · cases h
        exact .inl ⟨by simp, by simp⟩
      · cases h
        exact .inr ⟨_, _, _, _, _, rfl⟩

/-- Every confidence meets the check of the table of assessments. -/
theorem evaluate_confidence {claimType : String} {rule : ClaimTypeRule} {claimScope : Scope}
    {evs : List EvaluatedEvidence} {hasAsOf : Bool} {r : AssessmentResult}
    (h : evaluate parseDay parseTime claimType rule claimScope evs hasAsOf = .ok r) :
    0 ≤ r.confidence ∧ r.confidence ≤ 1 := by
  simp only [evaluate] at h
  split at h
  · cases h
  · split at h
    · cases h
      exact Lib.binary64_mem (by norm_num) (by norm_num)
    · split at h
      · cases h
        constructor <;> norm_num
      · cases h
        exact confidenceOf_mem _ _ _ _

/-- Support of allowed kinds is assessed. -/
theorem evaluate_of_allowed (claimType : String) {rule : ClaimTypeRule} (claimScope : Scope)
    {evs : List EvaluatedEvidence} (hasAsOf : Bool)
    (h : ∀ e ∈ supportOf evs, e.kind ∈ rule.allowedKinds) :
    ∃ r, evaluate parseDay parseTime claimType rule claimScope evs hasAsOf = .ok r := by
  have hfind : (supportOf evs).find? (fun e => e.kind ∉ rule.allowedKinds) = none := by
    rw [List.find?_eq_none]
    intro e he
    simpa using h e he
  simp only [evaluate, hfind]
  split
  · exact ⟨_, rfl⟩
  · split <;> exact ⟨_, rfl⟩

theorem unmetReason_insufficient {rule : ClaimTypeRule} {supports groups : Nat}
    {relationOk scopeOk : Bool}
    (h : unmetReason rule supports groups relationOk scopeOk =
      "insufficient_independence") : (groups : Int) < rule.minIndependenceGroups := by
  by_contra hge
  have hname : ∀ required : Option RequiredRelation,
      "independence_" ++ required.elim "None" (·.name) ++ "_not_met" ≠
        "insufficient_independence" := by
    intro required
    cases required with
    | none => decide
    | some required => cases required <;> decide
  simp only [unmetReason, if_neg hge] at h
  split at h
  · exact absurd h (by decide)
  · split at h
    · exact hname _ h
    · split at h <;> exact absurd h (by decide)

/-- `insufficient_independence` is given for too few groups only. -/
theorem groups_of_insufficient {claimType : String} {rule : ClaimTypeRule}
    {claimScope : Scope} {evs : List EvaluatedEvidence} {hasAsOf : Bool}
    {r : AssessmentResult}
    (h : evaluate parseDay parseTime claimType rule claimScope evs hasAsOf = .ok r)
    (hr : r.reasons = ["insufficient_independence"]) :
    ((groupsOf (supportOf evs)).length : Int) < rule.minIndependenceGroups := by
  rcases evaluate_ok h with ⟨-, hne⟩ | ⟨relationOk, scopeOk, asOfOk, disputed, rc, heq⟩
  · exact absurd hr hne
  · have hreasons : r.reasons = _ := congrArg (·.2.2) heq
    rw [hreasons] at hr
    simp only [gradeSupported] at hr
    split at hr
    · exact absurd hr (by decide)
    · split at hr
      · cases rc <;> simp at hr
      · exact unmetReason_insufficient (List.cons.inj hr).1

/-- A supported claim has enough groups, and its grade is lifted by twice as many. -/
theorem groups_of_supported {claimType : String} {rule : ClaimTypeRule}
    {claimScope : Scope} {evs : List EvaluatedEvidence} {hasAsOf : Bool}
    {r : AssessmentResult}
    (h : evaluate parseDay parseTime claimType rule claimScope evs hasAsOf = .ok r)
    (hs : r.epistemicStatus = .supported) :
    rule.minIndependenceGroups ≤ (groupsOf (supportOf evs)).length ∧
      r.grade =
        if 2 * rule.minIndependenceGroups ≤ (groupsOf (supportOf evs)).length ∧
            rule.minGradeForSupported.level < 4
          then rule.minGradeForSupported.lift else rule.minGradeForSupported := by
  rcases evaluate_ok h with ⟨hne, -⟩ | ⟨relationOk, scopeOk, asOfOk, disputed, rc, heq⟩
  · exact absurd hs hne
  · have hstatus : r.epistemicStatus = _ := congrArg (·.2.1) heq
    have hgrade : r.grade = _ := congrArg (·.1) heq
    rw [hstatus] at hs
    rw [hgrade]
    simp only [gradeSupported] at hs ⊢
    split at hs
    · cases hs
    · rename_i hdisputed
      split at hs
      · rename_i hmeets
        rw [if_neg hdisputed, if_pos hmeets]
        exact ⟨hmeets.2.1, rfl⟩
      · cases hs

/-- A claim is deferred only when nothing supports it and no unresolved item counters
it. -/
theorem deferred_of_ok {claimType : String} {rule : ClaimTypeRule} {claimScope : Scope}
    {evs : List EvaluatedEvidence} {hasAsOf : Bool} {r : AssessmentResult}
    (h : evaluate parseDay parseTime claimType rule claimScope evs hasAsOf = .ok r) :
    r.epistemicStatus = .deferred ↔
      supportOf evs = [] ∧ counterOf evs = [] ∧ rule.requiresAsOf ∧ hasAsOf = false := by
  simp only [evaluate] at h
  split at h
  · cases h
  · split at h
    · rename_i hempty
      cases h
      simp only [hempty, true_and]
      cases rule.requiresAsOf <;> cases hasAsOf <;> simp
    · rename_i hsome
      split at h
      · rename_i hsupport
        cases h
        simp only [hsupport, true_and, reduceCtorEq, false_iff, not_and]
        intro hcounter
        exact absurd ⟨hsupport, hcounter⟩ hsome
      · rename_i hsupport
        cases h
        simp only [hsupport, false_and, iff_false, gradeSupported]
        split
        · simp
        · split <;> simp

/-- An item in force is support or an unresolved counter, unless it is resolved. -/
theorem eq_nil_of_no_side {evs : List EvaluatedEvidence} (hs : supportOf evs = [])
    (hc : counterOf evs = []) (hres : ∀ e ∈ evs, e.resolved = false) : evs = [] := by
  cases evs with
  | nil => rfl
  | cons e rest =>
    have hin : e ∈ e :: rest := List.mem_cons_self
    cases hrel : e.relation with
    | supports =>
      have hmem : e ∈ supportOf (e :: rest) := List.mem_filter.mpr ⟨hin, by simp [hrel]⟩
      rw [hs] at hmem
      cases hmem
    | counters =>
      have hmem : e ∈ counterOf (e :: rest) :=
        List.mem_filter.mpr ⟨hin, by simp [hrel, hres e hin]⟩
      rw [hc] at hmem
      cases hmem

theorem EffectiveGrade.lift_ne {g : EffectiveGrade} (h : g.level < 4) : g.lift ≠ g := by
  cases g <;> simp_all [EffectiveGrade.level, EffectiveGrade.lift]

/-! ## Group names do not matter -/

/-- Two namings that tell the same items apart have equally many names. -/
theorem dedup_length_relabel {α : Type*} {l : List α} {f g : α → String}
    (h : ∀ a ∈ l, ∀ b ∈ l, f a = f b ↔ g a = g b) :
    (l.map f).dedup.length = (l.map g).dedup.length := by
  classical
  have himage : ∀ k : α → String, (l.map k).dedup.length = (l.toFinset.image k).card := by
    intro k
    rw [← List.toFinset_card_of_nodup (List.nodup_dedup _)]
    congr 1
    ext x
    simp
  rw [himage, himage]
  exact Lib.card_image_eq_of_iff fun a ha b hb =>
    h a (List.mem_toFinset.mp ha) b (List.mem_toFinset.mp hb)

/-- Two items that differ in their groups at most. -/
def EvaluatedEvidence.SameButGroup (a b : EvaluatedEvidence) : Prop :=
  b = { a with independenceGroup := b.independenceGroup }

section Relabel

variable {α : Type*} {rows : List α} {f g : α → EvaluatedEvidence}

theorem filter_relabel {p : EvaluatedEvidence → Bool}
    (hp : ∀ a b, a.SameButGroup b → p b = p a) (hsame : ∀ r ∈ rows, (f r).SameButGroup (g r)) :
    (rows.map f).filter p = (rows.filter fun r => p (f r)).map f ∧
      (rows.map g).filter p = (rows.filter fun r => p (f r)).map g := by
  rw [List.filter_map, List.filter_map]
  refine ⟨rfl, congrArg _ (List.filter_congr fun r hr => ?_)⟩
  exact hp _ _ (hsame r hr)

theorem relationMet_relabel (hsame : ∀ r ∈ rows, (f r).SameButGroup (g r))
    (hgroups : ∀ r ∈ rows, ∀ r' ∈ rows,
      (f r).independenceGroup = (f r').independenceGroup ↔
        (g r).independenceGroup = (g r').independenceGroup) (required : RequiredRelation) :
    relationMet (rows.map g) required = relationMet (rows.map f) required := by
  have hrank : ∀ (p : EnvRelation → Bool),
      (rows.map f).filter (fun e => p e.envRelation) =
          (rows.filter fun r => p (f r).envRelation).map f ∧
        (rows.map g).filter (fun e => p e.envRelation) =
          (rows.filter fun r => p (f r).envRelation).map g := by
    intro p
    refine filter_relabel (fun a b h => ?_) hsame
    rw [h]
  cases required with
  | independentReplication =>
    obtain ⟨hf, hg⟩ := hrank fun r => r = .independentReplication
    simp only [relationMet, hf, hg, groupsOf, List.map_map]
    congr 2
    refine (dedup_length_relabel fun a ha b hb => ?_).symm
    exact hgroups a (List.mem_filter.mp ha).1 b (List.mem_filter.mp hb).1
  | repeatability =>
    obtain ⟨hf, hg⟩ := hrank fun r =>
      RequiredRelation.repeatability.relation.rank ≤ r.rank
    simp only [relationMet, hf, hg, List.length_map]
  | reproducibility =>
    obtain ⟨hf, hg⟩ := hrank fun r =>
      RequiredRelation.reproducibility.relation.rank ≤ r.rank
    simp only [relationMet, hf, hg, List.length_map]

theorem any_relabel {p : EvaluatedEvidence → Bool}
    (hp : ∀ a b, a.SameButGroup b → p b = p a) (hsame : ∀ r ∈ rows, (f r).SameButGroup (g r)) :
    (rows.map g).any p = (rows.map f).any p := by
  rw [List.any_map, List.any_map, Bool.eq_iff_iff, List.any_eq_true, List.any_eq_true]
  refine exists_congr fun r => and_congr_right fun hr => ?_
  show p (g r) = true ↔ p (f r) = true
  rw [hp _ _ (hsame r hr)]

/-- The first kind the rule does not allow. -/
theorem find_kind_relabel {p : String → Bool}
    (hsame : ∀ r ∈ rows, (f r).SameButGroup (g r)) :
    ((rows.map g).find? fun e => p e.kind).map (·.kind) =
      ((rows.map f).find? fun e => p e.kind).map (·.kind) := by
  induction rows with
  | nil => rfl
  | cons r rest ih =>
    have hkind : (g r).kind = (f r).kind := by
      rw [hsame r List.mem_cons_self]
    have hrest := ih fun r hr => hsame r (List.mem_cons_of_mem _ hr)
    simp only [List.map_cons, List.find?_cons, hkind]
    cases hp : p (f r).kind with
    | true => exact congrArg some hkind
    | false => exact hrest

theorem scopeOk_relabel (rule : ClaimTypeRule) (claimScope : Scope)
    (hsame : ∀ r ∈ rows, (f r).SameButGroup (g r)) :
    scopeOk parseDay parseTime rule claimScope (rows.map g) =
      scopeOk parseDay parseTime rule claimScope (rows.map f) := by
  have hall : (rows.map g).all (fun e =>
        Scope.scopeCovers parseDay parseTime e.scope claimScope) =
      (rows.map f).all fun e =>
        Scope.scopeCovers parseDay parseTime e.scope claimScope := by
    rw [← Bool.not_inj_iff, List.not_all_eq_any_not, List.not_all_eq_any_not]
    exact any_relabel (fun a b h => by rw [h]) hsame
  simp only [scopeOk, hall, ne_eq, List.map_eq_nil_iff]

/-- **Relabelling**: evidence lists that differ in the names of their groups only are
assessed alike. -/
theorem evaluate_relabel (claimType : String) (rule : ClaimTypeRule) (claimScope : Scope)
    (hasAsOf : Bool) (hsame : ∀ r ∈ rows, (f r).SameButGroup (g r))
    (hgroups : ∀ r ∈ rows, ∀ r' ∈ rows,
      (f r).independenceGroup = (f r').independenceGroup ↔
        (g r).independenceGroup = (g r').independenceGroup) :
    evaluate parseDay parseTime claimType rule claimScope (rows.map g) hasAsOf =
      evaluate parseDay parseTime claimType rule claimScope (rows.map f) hasAsOf := by
  obtain ⟨hsf, hsg⟩ := @filter_relabel α rows f g (fun e => e.relation = .supports)
    (fun a b h => by rw [h]) hsame
  obtain ⟨hcf, hcg⟩ := @filter_relabel α rows f g
    (fun e => e.relation = .counters ∧ !e.resolved) (fun a b h => by rw [h]) hsame
  have hresolved := @any_relabel α rows f g
    (fun e => e.relation = .counters ∧ e.resolved) (fun a b h => by rw [h]) hsame
  generalize hS : rows.filter (fun r => (f r).relation = .supports) = support at hsf hsg
  have hsub : ∀ r ∈ support, r ∈ rows := by
    intro r hr
    rw [← hS] at hr
    exact (List.mem_filter.mp hr).1
  have hsame' : ∀ r ∈ support, (f r).SameButGroup (g r) := fun r hr => hsame r (hsub r hr)
  have hgroups' : ∀ r ∈ support, ∀ r' ∈ support,
      (f r).independenceGroup = (f r').independenceGroup ↔
        (g r).independenceGroup = (g r').independenceGroup :=
    fun r hr r' hr' => hgroups r (hsub r hr) r' (hsub r' hr')
  have hcount : (groupsOf (support.map g)).length = (groupsOf (support.map f)).length := by
    simp only [groupsOf, List.map_map]
    exact (dedup_length_relabel hgroups').symm
  have hmet : relationMet (support.map g) = relationMet (support.map f) :=
    funext (relationMet_relabel hsame' hgroups')
  have hscope := @scopeOk_relabel parseDay parseTime α support f g rule claimScope hsame'
  have hkind := @find_kind_relabel α support f g (fun k => k ∉ rule.allowedKinds) hsame'
  simp only [evaluate, supportOf, counterOf, hsf, hsg, hcf, hcg, hresolved, hcount, hmet,
    hscope, List.map_eq_nil_iff, List.length_map, ne_eq]
  cases hf : (support.map f).find? fun e => e.kind ∉ rule.allowedKinds <;>
    cases hg : (support.map g).find? fun e => e.kind ∉ rule.allowedKinds <;>
    simp only [hf, hg, Option.map_some, Option.map_none, reduceCtorEq, Option.some_inj]
      at hkind ⊢
  rw [hkind]

end Relabel

end Evaluate

end Noezema.Memory
