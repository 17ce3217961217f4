import Mathlib.Data.Set.Card
import Noezema.Evaluation.Gates
import Noezema.Evaluation.Repetition

/-! # When the gates are rates

Eight of the nine ratio gates count a part of a set and the set. The gate of the near
duplicates counts in the journal and in the sessions: it is a rate exactly when the guard has
not named more questions than the sessions have selected.
-/

namespace Noezema.Evaluation

open Noezema.Lib Noezema.Memory

/-- What a gate reports is a rate: a part of the whole, and an interval in the unit one. -/
structure GateResult.IsRate (g : GateResult) : Prop where
  share : ∀ d, g.denominator = some d → g.numerator ≤ d
  interval : ∀ low high, g.ci95 = some (low, high) → 0 ≤ low ∧ low ≤ high ∧ high ≤ 1
  ratio : ∀ r, g.ratio = some r → 0 ≤ r ∧ r ≤ 1

section Interval

variable (fl : FloatArith) {p d : ℚ}

theorem wilsonZ_nonneg : 0 ≤ wilsonZ fl := fl.rnd_nonneg (by norm_num)

theorem wilsonZZ_nonneg : 0 ≤ fl.rnd (wilsonZ fl * wilsonZ fl) :=
  fl.rnd_nonneg (mul_nonneg (wilsonZ_nonneg fl) (wilsonZ_nonneg fl))

/-- The divisor of center and half width. -/
theorem one_le_wilsonDivisor (hd : 0 < d) :
    1 ≤ fl.rnd (1 + fl.rnd (fl.rnd (wilsonZ fl * wilsonZ fl) / d)) := by
  refine fl.one_le_rnd ?_
  have := fl.rnd_nonneg (div_nonneg (wilsonZZ_nonneg fl) hd.le)
  linarith

/-- A share has a square root to take. -/
theorem wilsonRadicand_nonneg (hp : 0 ≤ p) (hp1 : p ≤ 1) (hd : 0 < d) :
    0 ≤ wilsonRadicand fl p d := by
  have hvariance : 0 ≤ fl.rnd (p * fl.rnd (1 - p)) :=
    fl.rnd_nonneg (mul_nonneg hp (fl.rnd_nonneg (by linarith)))
  have hscale : 0 ≤ fl.rnd (fl.rnd (4 * d) * d) :=
    fl.rnd_nonneg (mul_nonneg (fl.rnd_nonneg (by linarith)) hd.le)
  exact fl.rnd_nonneg (add_nonneg (fl.rnd_nonneg (div_nonneg hvariance hd.le))
    (fl.rnd_nonneg (div_nonneg (wilsonZZ_nonneg fl) hscale)))

theorem wilsonCenter_mem (hp : 0 ≤ p) (hp1 : p ≤ 1) (hd : 0 < d) (hfloat : fl.rnd d = d) :
    0 ≤ wilsonCenter fl p d ∧ wilsonCenter fl p d ≤ 1 := by
  have hzz := wilsonZZ_nonneg fl
  have hdivisor := one_le_wilsonDivisor fl hd
  have htwice : d ≤ fl.rnd (2 * d) := by
    rw [← hfloat, hfloat]
    calc d = fl.rnd d := hfloat.symm
      _ ≤ fl.rnd (2 * d) := fl.rnd_mono (by linarith)
  have hshift : 0 ≤ fl.rnd (fl.rnd (wilsonZ fl * wilsonZ fl) / fl.rnd (2 * d)) :=
    fl.rnd_nonneg (div_nonneg hzz (hd.le.trans htwice))
  have hle : fl.rnd (fl.rnd (wilsonZ fl * wilsonZ fl) / fl.rnd (2 * d)) ≤
      fl.rnd (fl.rnd (wilsonZ fl * wilsonZ fl) / d) :=
    fl.rnd_mono (div_le_div_of_nonneg_left hzz hd htwice)
  unfold wilsonCenter
  refine fl.share_mem (fl.rnd_nonneg (by linarith)) (by linarith) (fl.rnd_mono (by linarith))

theorem wilsonHalf_nonneg (hp : 0 ≤ p) (hp1 : p ≤ 1) (hd : 0 < d) : 0 ≤ wilsonHalf fl p d := by
  have hroot := fl.sqrt_nonneg _ (wilsonRadicand_nonneg fl hp hp1 hd)
  have hdivisor := one_le_wilsonDivisor fl hd
  exact fl.rnd_nonneg (div_nonneg (fl.rnd_nonneg (mul_nonneg (wilsonZ_nonneg fl) hroot))
    (by linarith))

/-- The interval of a share is in the unit interval. -/
theorem wilsonCi95_of_le {numerator denominator : Nat} (h : numerator ≤ denominator) :
    ∃ ci, wilsonCi95 fl numerator denominator = .ok ci ∧
      ∀ low high, ci = some (low, high) → 0 ≤ low ∧ low ≤ high ∧ high ≤ 1 := by
  unfold wilsonCi95
  split
  · exact ⟨none, rfl, fun _ _ h => by cases h⟩
  · rename_i hpos
    have hcast : (numerator : ℚ) ≤ denominator := by exact_mod_cast h
    have hone : (1 : ℚ) ≤ denominator := by exact_mod_cast Nat.one_le_iff_ne_zero.mpr hpos
    obtain ⟨hp, hp1⟩ := fl.share_mem (Nat.cast_nonneg numerator) (by linarith) hcast
    have hd : 0 < fl.rnd denominator := by linarith [fl.one_le_rnd hone]
    obtain ⟨hcenter, hcenter1⟩ := wilsonCenter_mem fl hp hp1 hd (fl.rnd_rnd _)
    have hhalf := wilsonHalf_nonneg fl hp hp1 hd
    dsimp only
    rw [if_neg (not_lt.mpr (wilsonRadicand_nonneg fl hp hp1 hd))]
    refine ⟨_, rfl, fun low high heq => ?_⟩
    cases heq
    refine ⟨fl.round4_nonneg (le_max_left _ _), fl.round4_mono ?_,
      fl.round4_le_one (min_le_left _ _)⟩
    refine max_le (le_min zero_le_one (fl.rnd_nonneg (by linarith)))
      (le_min (fl.rnd_le_one (by linarith)) (fl.rnd_mono (by linarith)))

/-- A gate of a part of a whole reports a rate. -/
theorem gate_of_le {numerator denominator : Nat} (h : numerator ≤ denominator) (threshold : ℚ)
    (direction : GateDirection) :
    ∃ g, gate fl numerator denominator threshold direction = .ok g ∧ g.IsRate := by
  obtain ⟨ci, hci, hinterval⟩ := wilsonCi95_of_le fl h
  unfold gate
  rw [hci]
  dsimp only [ok_bind]
  split
  · exact ⟨_, rfl, ⟨fun d hd => by cases hd; exact h, hinterval, fun _ hr => by cases hr⟩⟩
  · rename_i hsample
    have hcast : (numerator : ℚ) ≤ denominator := by exact_mod_cast h
    have hpos : (0 : ℚ) < denominator := by
      rw [minSample] at hsample
      exact_mod_cast (by omega : 0 < denominator)
    obtain ⟨hratio, hratio1⟩ := fl.share_mem (Nat.cast_nonneg numerator) hpos hcast
    refine ⟨_, rfl, ⟨fun d hd => by cases hd; exact h, hinterval, fun r hr => ?_⟩⟩
    cases hr
    exact ⟨fl.round4_nonneg hratio, fl.round4_le_one hratio1⟩

/-- A gate reports its counts. -/
theorem gate_counts {numerator denominator : Nat} {threshold : ℚ} {direction : GateDirection}
    {g : GateResult} (h : gate fl numerator denominator threshold direction = .ok g) :
    g.numerator = numerator ∧ g.denominator = some denominator := by
  obtain ⟨ci, -, h⟩ := bind_eq_ok.mp h
  dsimp only at h
  split at h
  · cases h
    exact ⟨rfl, rfl⟩
  · cases h
    exact ⟨rfl, rfl⟩

end Interval

/-! ## The counts -/

theorem countsOf_le {α : Type} (rows : List α) (p : α → Bool) :
    (countsOf rows p).numerator ≤ (countsOf rows p).denominator :=
  List.length_filter_le p rows

namespace EvaluationDb

variable (db : EvaluationDb) (run : EvaluationRun)

theorem sessionCounts_le :
    (db.sessionCounts run).numerator ≤ (db.sessionCounts run).denominator :=
  calc (((db.eligibleSessions run).filter db.hasOutcome).map (·.id)).dedup.length
      ≤ (((db.eligibleSessions run).filter db.hasOutcome).map (·.id)).length :=
        (List.dedup_sublist _).length_le
    _ = ((db.eligibleSessions run).filter db.hasOutcome).length := List.length_map _
    _ ≤ (db.eligibleSessions run).length := List.length_filter_le _ _

/-- The touched claims are counted once each, and all of them are significant. -/
theorem reuse_le : db.reuse.numerator ≤ db.reuse.denominator := by
  refine (((List.nodup_dedup _).filter _).subperm fun c hc => ?_).length_le
  obtain ⟨r, hr, rfl⟩ := List.mem_map.mp (List.mem_dedup.mp (List.mem_of_mem_filter hc))
  simpa using List.of_mem_filter hr

/-! ## The near duplicates -/

/-- A row of the repetition guard names the question in a session of the window. -/
def Flags (q : String) : Prop :=
  ∃ a ∈ db.auditEvents, a.type = "repeat_cycle_detected" ∧ db.inWindow run a.sessionId = true ∧
    a.payload.lookup "question_id" = some q

/-- A session of the window has taken the question. -/
def Selects (q : String) : Prop :=
  ∃ s ∈ db.sessions, (∃ t, s.startedAt = some t ∧ run.startedAt ≤ t) ∧ s.questionId = some q

theorem mem_flaggedQuestions {q : String} : q ∈ db.flaggedQuestions run ↔ db.Flags run q := by
  simp only [flaggedQuestions, Flags, List.mem_dedup, List.mem_filterMap, List.mem_filter,
    decide_eq_true_eq, and_assoc]

theorem mem_selectedQuestions {q : String} :
    q ∈ db.selectedQuestions run ↔ db.Selects run q := by
  simp only [selectedQuestions, windowSessions, Selects, List.mem_dedup, List.mem_filterMap,
    List.mem_filter, Option.any_eq_true, decide_eq_true_eq, and_assoc]

/-- The two counts compare as what each set has over the other. -/
theorem nearDuplicates_le_iff :
    (db.nearDuplicates run).numerator ≤ (db.nearDuplicates run).denominator ↔
      {q | db.Flags run q ∧ ¬ db.Selects run q}.ncard ≤
        {q | db.Selects run q ∧ ¬ db.Flags run q}.ncard := by
  have hflags : {q | db.Flags run q} = ((db.flaggedQuestions run).toFinset : Set String) := by
    ext q
    simp [mem_flaggedQuestions]
  have hselects : {q | db.Selects run q} =
      ((db.selectedQuestions run).toFinset : Set String) := by
    ext q
    simp [mem_selectedQuestions]
  have hcards : (db.nearDuplicates run).numerator = {q | db.Flags run q}.ncard ∧
      (db.nearDuplicates run).denominator = {q | db.Selects run q}.ncard := by
    rw [hflags, hselects, Set.ncard_coe_finset, Set.ncard_coe_finset]
    exact ⟨(List.toFinset_card_of_nodup (List.nodup_dedup _)).symm,
      (List.toFinset_card_of_nodup (List.nodup_dedup _)).symm⟩
  rw [hcards.1, hcards.2]
  exact Set.ncard_le_ncard_iff_ncard_sdiff_le_ncard_sdiff
    (hflags ▸ Finset.finite_toSet _) (hselects ▸ Finset.finite_toSet _)

/-! ## All gates -/

section Gates

variable {fl : FloatArith}

theorem ratioGate_of_le {name : String} {default : ℚ} {direction : GateDirection}
    {counts : Counts} (h : counts.numerator ≤ counts.denominator) :
    ∃ g, ratioGate run fl name default direction counts = .ok g ∧ g.IsRate :=
  gate_of_le fl h _ _

/-- A gate without counts is a rate of nothing. -/
theorem isRate_empty (threshold : Option ℚ) :
    GateResult.IsRate ⟨0, some 0, threshold, none, none, .insufficientSample, none⟩ :=
  ⟨fun _ _ => Nat.zero_le _, fun _ _ h => (by cases h), fun _ h => by cases h⟩

theorem sloGate_isRate : ∃ g, db.sloGate run fl = .ok g ∧ g.IsRate := by
  unfold sloGate
  split
  · exact ⟨_, rfl, isRate_empty none⟩
  · rename_i seconds _
    have hle : (db.slo seconds).numerator ≤ (db.slo seconds).denominator := countsOf_le _ _
    obtain ⟨g, hg, hrate⟩ := gate_of_le fl hle 1 .atLeast
    refine ⟨{ g with sloSeconds := some seconds }, ?_,
      ⟨hrate.share, hrate.interval, hrate.ratio⟩⟩
    dsimp only
    rw [hg]
    rfl

theorem pendingAncestorGate_isRate : db.pendingAncestorGate.IsRate :=
  ⟨fun d h => by
    cases h
    exact countsOf_le _ _, fun _ _ h => (by cases h), fun _ h => by cases h⟩

theorem incidentsGate_isRate : (db.incidentsGate run).IsRate :=
  ⟨fun _ h => (by cases h), fun _ _ h => (by cases h), fun _ h => by cases h⟩

theorem blindGate_isRate {name : String} {default : ℚ} {blind : List ClaimId}
    {p : ClaimId → Bool} :
    ∃ g, blindGate run fl name default blind p = .ok g ∧ g.IsRate := by
  unfold blindGate
  split
  · exact ⟨_, rfl, isRate_empty _⟩
  · exact ratioGate_of_le run (countsOf_le blind p)

variable {σ : Type} {seeded : Int → σ} {shuffle : σ → List ClaimId → List ClaimId × σ}
  {now : Int}

/-- The run of the gates ends with rates when the near duplicates are a part of the
questions in number. -/
theorem computeGates_of_le
    (h : (db.nearDuplicates run).numerator ≤ (db.nearDuplicates run).denominator) :
    ∃ gates, db.computeGates run fl seeded shuffle now = .ok gates ∧
      ∀ g ∈ gates, g.2.IsRate := by
  unfold computeGates
  refine bind_ok_of (ratioGate_of_le run (countsOf_le _ _)) fun g₁ h₁ => ?_
  refine bind_ok_of (ratioGate_of_le run (countsOf_le _ _)) fun g₂ h₂ => ?_
  refine bind_ok_of (ratioGate_of_le run (db.sessionCounts_le run)) fun g₃ h₃ => ?_
  refine bind_ok_of (ratioGate_of_le run h) fun g₄ h₄ => ?_
  refine bind_ok_of (ratioGate_of_le run db.reuse_le) fun g₅ h₅ => ?_
  refine bind_ok_of (ratioGate_of_le run (countsOf_le _ _)) fun g₆ h₆ => ?_
  refine bind_ok_of (db.sloGate_isRate run) fun g₇ h₇ => ?_
  refine bind_ok_of (blindGate_isRate run) fun g₈ h₈ => ?_
  refine bind_ok_of (blindGate_isRate run) fun g₉ h₉ => ?_
  refine ⟨_, rfl, ?_⟩
  simp only [List.forall_mem_cons, List.not_mem_nil, false_imp_iff, implies_true, and_true]
  exact ⟨h₁, h₂, h₃, h₄, h₅, h₆, h₇, db.pendingAncestorGate_isRate, db.incidentsGate_isRate run,
    h₈, h₉⟩

/-- The run of the gates reports the near duplicates as it counted them. -/
theorem nearDuplicates_reported {gates : List (String × GateResult)}
    (h : db.computeGates run fl seeded shuffle now = .ok gates) :
    ∃ g ∈ gates, g.2.numerator = (db.nearDuplicates run).numerator ∧
      g.2.denominator = some (db.nearDuplicates run).denominator := by
  unfold computeGates at h
  obtain ⟨_, -, h⟩ := bind_eq_ok.mp h
  obtain ⟨_, -, h⟩ := bind_eq_ok.mp h
  obtain ⟨_, -, h⟩ := bind_eq_ok.mp h
  obtain ⟨g, hg, h⟩ := bind_eq_ok.mp h
  obtain ⟨_, -, h⟩ := bind_eq_ok.mp h
  obtain ⟨_, -, h⟩ := bind_eq_ok.mp h
  obtain ⟨_, -, h⟩ := bind_eq_ok.mp h
  obtain ⟨_, -, h⟩ := bind_eq_ok.mp h
  obtain ⟨_, -, h⟩ := bind_eq_ok.mp h
  cases h
  exact ⟨("near_duplicate_questions", g), by simp, gate_counts fl hg⟩

/-- The run of the gates raises what the gate of the near duplicates raises. -/
theorem computeGates_error {e : GateError}
    (h : ratioGate run fl "near_duplicate_questions" (15 / 100) .atMost
      (db.nearDuplicates run) = .error e) :
    db.computeGates run fl seeded shuffle now = .error e := by
  unfold computeGates
  refine bind_error_of (ratioGate_of_le run (countsOf_le _ _)) fun g₁ => ?_
  refine bind_error_of (ratioGate_of_le run (countsOf_le _ _)) fun g₂ => ?_
  refine bind_error_of (ratioGate_of_le run (db.sessionCounts_le run)) fun g₃ => ?_
  rw [h]
  rfl

/-- The gates are total and their rates are rates exactly when the questions that only the
guard has named are no more than the ones that only a session has taken. -/
theorem gates_are_rates_iff (fl : FloatArith) {σ : Type} (seeded : Int → σ)
    (shuffle : σ → List ClaimId → List ClaimId × σ) (now : Int) :
    (∃ gates, db.computeGates run fl seeded shuffle now = .ok gates ∧
        ∀ g ∈ gates, g.2.IsRate) ↔
      {q | db.Flags run q ∧ ¬ db.Selects run q}.ncard ≤
        {q | db.Selects run q ∧ ¬ db.Flags run q}.ncard := by
  rw [← nearDuplicates_le_iff]
  constructor
  · rintro ⟨gates, hgates, hrates⟩
    obtain ⟨g, hg, hnumerator, hdenominator⟩ := db.nearDuplicates_reported run hgates
    rw [← hnumerator]
    exact (hrates g hg).share _ hdenominator
  · exact db.computeGates_of_le run

end Gates

end EvaluationDb

/-! ## A session that skips two questions -/

def guardConfig : RepetitionConfig := ⟨true, 6 / 10, 2, by norm_num, by norm_num⟩

def sky : List Char := ['s', 'k', 'y']

def sea : List Char := ['s', 'e', 'a']

/-- Seven sessions on a question without a claim; two candidates repeat it. -/
def stuckDb : EvaluationDb where
  sessions := (List.range 7).map fun i =>
    ⟨i, some i, i, some "00000000-0000-4000-8000-000000000001", .succeeded, none⟩
  auditEvents := []
  questions := [⟨"00000000-0000-4000-8000-000000000001", sky, .partiallyAnswered, 0, 0⟩,
    ⟨"00000000-0000-4000-8000-000000000002", sky, .candidate, 2, 1⟩,
    ⟨"00000000-0000-4000-8000-000000000003", sky, .candidate, 1, 2⟩,
    ⟨"00000000-0000-4000-8000-000000000004", sea, .candidate, 0, 3⟩]
  claims := []
  effective := none
  heads _ _ := none
  assessments := []
  evidence := []
  assessmentEvidence := []
  claimRevisions := []
  dependencies := []
  jobs := []
  sources := []
  artifacts := []

/-- The next session selects by the guard. -/
def skippedDb : EvaluationDb :=
  stuckDb.selectForSession FloatArith.exact id guardConfig fifoSelector 7 100

/-- A window that begins with that session. -/
def skippedRun : EvaluationRun := ⟨100, fun _ => none, 0, 50⟩

theorem skippedDb_counts : skippedDb.nearDuplicates skippedRun = ⟨2, 1⟩ := by decide +kernel

/-- Two of one have no square root to take. -/
theorem gate_two_of_one :
    gate FloatArith.exact 2 1 (15 / 100) .atMost = .error .mathDomain := by
  have hnegative : wilsonRadicand FloatArith.exact 2 1 < 0 := by
    norm_num [FloatArith.exact, wilsonRadicand, wilsonZ]
  have hci : wilsonCi95 FloatArith.exact 2 1 = .error .mathDomain := by
    unfold wilsonCi95
    have hp : FloatArith.exact.rnd ((2 : Nat) / (1 : Nat)) = 2 := by norm_num [FloatArith.exact]
    have hd : FloatArith.exact.rnd (1 : Nat) = 1 := by norm_num [FloatArith.exact]
    rw [if_neg one_ne_zero, hp, hd, if_pos hnegative]
  rw [gate, hci, error_bind]

/-- A session that skips two questions and takes a third: the gates of its window raise. -/
theorem gates_raise_after_skips :
    (¬ ∀ (db : EvaluationDb) (run : EvaluationRun) (fl : FloatArith) (seeded : Int → Unit)
      (shuffle : Unit → List ClaimId → List ClaimId × Unit) (now : Int),
      ∃ gates, db.computeGates run fl seeded shuffle now = .ok gates ∧
        ∀ g ∈ gates, g.2.IsRate) ∧
    skippedDb.computeGates skippedRun FloatArith.exact (fun _ => ()) (fun s claims => (claims, s)) 100 =
      .error .mathDomain := by
  have hraises : skippedDb.computeGates skippedRun FloatArith.exact (fun _ => ())
      (fun s claims => (claims, s)) 100 = .error .mathDomain := by
    refine skippedDb.computeGates_error skippedRun ?_
    rw [skippedDb_counts]
    exact gate_two_of_one
  refine ⟨fun hall => ?_, hraises⟩
  obtain ⟨gates, hgates, -⟩ := hall skippedDb skippedRun FloatArith.exact (fun _ => ())
    (fun s claims => (claims, s)) 100
  cases hraises.symm.trans hgates

end Noezema.Evaluation
