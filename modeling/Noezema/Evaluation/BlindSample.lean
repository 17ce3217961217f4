import Noezema.Evaluation.Rates
import Noezema.Lib.Blocks
import Noezema.Lib.Entries

/-! # The strata of the blind sample

The sample has as many claims as it may have, each once. A stratum gives at least one claim
and at most its share rounded up, one stratum after the other; what exceeds the size is cut
from the end. A stratum is missed exactly when the strata before it have filled the size.
-/

namespace Noezema.Evaluation

open Noezema.Lib Noezema.Memory

/-- A claim with its type and status. -/
abbrev BlindRow := ClaimId × String × EpistemicStatus

namespace EvaluationDb

section Share

variable (fl : FloatArith)

theorem one_le_blindShare (size : Int) (total k : Nat) : 1 ≤ blindShare fl size total k :=
  le_max_left _ _

/-- A share is at most the proportional part rounded up. -/
theorem blindShare_le {size : Int} {total k : Nat} (hsize : 0 < size) (hle : size ≤ total)
    (hk : 0 < k) (hkt : k ≤ total) (hints : ∀ n : Nat, n ≤ total → fl.rnd n = n) :
    blindShare fl size total k ≤ ⌈(size * k / total : ℚ)⌉ := by
  have htotal : (0 : ℚ) < total := by exact_mod_cast hk.trans_le hkt
  have hsizeQ : (0 : ℚ) < size := by exact_mod_cast hsize
  have hkQ : (0 : ℚ) < k := by exact_mod_cast hk
  have hpos : 0 < ⌈(size * k / total : ℚ)⌉ := Int.ceil_pos.mpr (by positivity)
  have hceil : ⌈(size * k / total : ℚ)⌉ ≤ (total : Int) := by
    rw [Int.ceil_le, div_le_iff₀ htotal]
    have hs : (size : ℚ) ≤ total := by exact_mod_cast hle
    have hkle : (k : ℚ) ≤ total := by exact_mod_cast hkt
    push_cast
    exact mul_le_mul hs hkle hkQ.le htotal.le
  obtain ⟨n, hn⟩ := Int.eq_ofNat_of_zero_le hpos.le
  -- the part rounded up is an integer, and the float of it is itself
  have hrnd : fl.rnd (size * k / total) ≤ (n : Int) := by
    have hle' : (size * k / total : ℚ) ≤ n := by
      have := Int.le_ceil (size * k / total : ℚ)
      rw [hn] at this
      exact_mod_cast this
    have := fl.rnd_mono hle'
    rw [hints n (by omega)] at this
    exact_mod_cast this
  rw [hn]
  refine max_le (by omega) ?_
  exact roundHalfEven_le hrnd

end Share

theorem sliceTo_of_nonneg {α : Type} {xs : List α} {n : Int} (h : 0 ≤ n) :
    sliceTo xs n = xs.take n.toNat := if_pos h

variable (db : EvaluationDb) (run : EvaluationRun) (fl : FloatArith) {σ : Type}
  (seeded : Int → σ) (shuffle : σ → List ClaimId → List ClaimId × σ)

/-- The strata, the first to appear first. -/
def strata (rows : List BlindRow) : List (String × EpistemicStatus) := (rows.map (·.2)).eraseDups

/-- The claims of a stratum. -/
def members (rows : List BlindRow) (key : String × EpistemicStatus) : List ClaimId :=
  (rows.filter fun r => r.2 = key).map (·.1)

/-- How many claims a stratum gives before the top-up. -/
def stratumPick (rows : List BlindRow) (key : String × EpistemicStatus) : Nat :=
  min (blindShare fl (blindSize run rows) rows.length (members rows key).length).toNat
    (members rows key).length

variable {db run fl seeded shuffle} {rows : List BlindRow}

theorem mem_members {c : ClaimId} {key : String × EpistemicStatus} :
    c ∈ members rows key ↔ (c, key) ∈ rows := by
  simp only [members, List.mem_map, List.mem_filter, decide_eq_true_eq]
  constructor
  · rintro ⟨r, ⟨hr, rfl⟩, rfl⟩
    exact hr
  · intro h
    exact ⟨(c, key), ⟨h, rfl⟩, rfl⟩

theorem mem_strata {key : String × EpistemicStatus} :
    key ∈ strata rows ↔ ∃ r ∈ rows, r.2 = key := by
  rw [strata, List.mem_eraseDups, List.mem_map]

theorem members_ne_nil {key : String × EpistemicStatus} (h : key ∈ strata rows) :
    members rows key ≠ [] := by
  obtain ⟨r, hr, rfl⟩ := mem_strata.mp h
  exact List.ne_nil_of_mem (mem_members.mpr hr)

theorem length_members_le (key : String × EpistemicStatus) :
    (members rows key).length ≤ rows.length := by
  rw [members, List.length_map]
  exact List.length_filter_le _ _

/-- The strata hold the claims of the rows, each once. -/
theorem members_flatten_perm :
    ((strata rows).map (members rows)).flatten.Perm (rows.map (·.1)) := by
  have hgroups : (strata rows).map (members rows) =
      (keyGroups (·.2) rows).map (List.map (·.1)) := by
    rw [keyGroups, List.map_map]
    rfl
  rw [hgroups, ← List.map_flatten]
  exact (keyGroups_flatten_perm _ rows).map _

/-! ## What the strata give -/

/-- The turns of the shuffle: each stratum goes on with the state the one before left. -/
theorem shuffle_turns (hperm : ∀ s xs, (shuffle s xs).1.Perm xs) (groups : List (List ClaimId))
    (done : List (List ClaimId)) (rng : σ) :
    ∃ shuffled, List.Forall₂ (fun g b => b.Perm g) groups shuffled ∧
      (groups.foldl (fun (done, rng) members =>
        let (members, rng) := shuffle rng members
        (done ++ [members], rng)) (done, rng)).1 = done ++ shuffled := by
  induction groups generalizing done rng with
  | nil => exact ⟨[], List.Forall₂.nil, by simp⟩
  | cons g groups ih =>
    obtain ⟨shuffled, hshuffled, heq⟩ := ih (done ++ [(shuffle rng g).1]) (shuffle rng g).2
    refine ⟨(shuffle rng g).1 :: shuffled, List.Forall₂.cons (hperm rng g) hshuffled, ?_⟩
    rw [List.foldl_cons]
    simpa using heq

theorem shuffledStrata_perm (hperm : ∀ s xs, (shuffle s xs).1.Perm xs) :
    List.Forall₂ (fun key b => b.Perm (members rows key)) (strata rows)
      (shuffledStrata run seeded shuffle rows) := by
  obtain ⟨shuffled, hshuffled, heq⟩ := shuffle_turns hperm ((strata rows).map (members rows)) []
    (seeded run.blindSampleSeed)
  rw [List.nil_append] at heq
  have : shuffledStrata run seeded shuffle rows = shuffled := heq
  rw [this]
  exact List.forall₂_map_left_iff.mp hshuffled

theorem one_le_stratumPick {key : String × EpistemicStatus} (h : key ∈ strata rows) :
    1 ≤ stratumPick run fl rows key := by
  have hshare := one_le_blindShare fl (blindSize run rows) rows.length (members rows key).length
  have hlen := List.length_pos_of_ne_nil (members_ne_nil h)
  rw [stratumPick]
  omega

/-- What a stratum gives is of the stratum, and by its share. -/
theorem blindPicked_drawn (hperm : ∀ s xs, (shuffle s xs).1.Perm xs) :
    List.Forall₂ (fun key b => key ∈ strata rows ∧ b.Subperm (members rows key) ∧
        b.length = stratumPick run fl rows key) (strata rows)
      (blindPicked run fl seeded shuffle (blindSize run rows) rows) := by
  rw [List.forall₂_and_left]
  refine ⟨fun _ h => h, ?_⟩
  rw [blindPicked, List.forall₂_map_right_iff]
  refine (shuffledStrata_perm hperm).imp fun key b hb => ?_
  have hshare := one_le_blindShare fl (blindSize run rows) rows.length b.length
  rw [sliceTo_of_nonneg (by omega)]
  refine ⟨(List.take_sublist _ _).subperm.trans hb.subperm, ?_⟩
  rw [List.length_take, stratumPick, hb.length_eq]

theorem blindPicked_lengths (hperm : ∀ s xs, (shuffle s xs).1.Perm xs) :
    (blindPicked run fl seeded shuffle (blindSize run rows) rows).map List.length =
      (strata rows).map (stratumPick run fl rows) := by
  have hdrawn := @blindPicked_drawn run fl _ seeded _ rows hperm
  apply List.ext_getElem (by simpa using hdrawn.length_eq.symm)
  intro i hi hi'
  rw [List.getElem_map, List.getElem_map]
  exact (hdrawn.get (by simpa using hi') (by simpa using hi)).2.2

/-! ## The sample -/

/-- Keys that the kept entries take over are distinct where they were. -/
theorem nodup_keys_filterMap {α β γ : Type*} {l : List α} {f : α → Option (β × γ)} {k : α → β}
    (hkey : ∀ a r, f a = some r → r.1 = k a) (h : (l.map k).Nodup) :
    ((l.filterMap f).map (·.1)).Nodup := by
  rw [List.Nodup, List.pairwise_map] at h ⊢
  rw [List.pairwise_filterMap]
  refine h.imp fun {a b} hab r hr r' hr' => ?_
  rw [hkey a r hr, hkey b r' hr']
  exact hab

/-- The ids of the rows are ids of claims, each once. -/
theorem blindRows_nodup {db : EvaluationDb} (hids : (db.claims.map (·.id)).Nodup) :
    (db.blindRows.map (·.1)).Nodup := by
  have hsorted := (List.perm_insertionSort (fun a b : ClaimRow =>
    a.createdAt < b.createdAt ∨ (a.createdAt = b.createdAt ∧ a.id ≤ b.id)) db.claims).map (·.id)
  refine nodup_keys_filterMap (fun c r h => ?_) (hsorted.nodup_iff.mpr hids)
  split at h
  · obtain rfl := Option.some.inj h
    rfl
  · cases h

theorem blindPicked_subperm (hperm : ∀ s xs, (shuffle s xs).1.Perm xs) :
    (blindPicked run fl seeded shuffle (blindSize run rows) rows).flatten.Subperm
      ((strata rows).map (members rows)).flatten := by
  have hdrawn := (@blindPicked_drawn run fl _ seeded _ rows hperm).imp fun _ _ h => h.2.1
  generalize blindPicked run fl seeded shuffle (blindSize run rows) rows = picked at hdrawn
  generalize strata rows = keys at hdrawn
  induction hdrawn with
  | nil => exact List.Subperm.refl _
  | cons hb _ ih => exact hb.append ih

/-- What the strata give, each claim once. -/
theorem blindPicked_nodup (hids : (rows.map (·.1)).Nodup)
    (hperm : ∀ s xs, (shuffle s xs).1.Perm xs) :
    (blindPicked run fl seeded shuffle (blindSize run rows) rows).flatten.Nodup := by
  obtain ⟨l, hl, hsub⟩ := (@blindPicked_subperm run fl _ seeded _ rows hperm).trans members_flatten_perm.subperm
  exact hl.nodup_iff.mp (hsub.nodup hids)

/-- The sample is the beginning of what the strata give and the rest of the pool. -/
theorem blindSample_eq {db : EvaluationDb} (hids : (db.blindRows.map (·.1)).Nodup)
    (hperm : ∀ s xs, (shuffle s xs).1.Perm xs) (hsize : 1 ≤ run.blindSampleSize) :
    ∃ rest, ((blindPicked run fl seeded shuffle (blindSize run db.blindRows)
        db.blindRows).flatten ++ rest).Perm (db.blindRows.map (·.1)) ∧
      db.blindSample run fl seeded shuffle =
        ((blindPicked run fl seeded shuffle (blindSize run db.blindRows)
          db.blindRows).flatten ++ rest).take (blindSize run db.blindRows).toNat := by
  have hunique := @blindPicked_nodup run fl _ seeded _ _ hids hperm
  have hof := (@blindPicked_subperm run fl _ seeded _ db.blindRows hperm).trans members_flatten_perm.subperm
  simp only [blindSample]
  generalize (blindPicked run fl seeded shuffle (blindSize run db.blindRows)
    db.blindRows).flatten = unique at hunique hof ⊢
  rw [eraseDups_of_nodup hunique]
  have hpool := hperm (seeded run.blindSampleSeed) (db.blindRows.map (·.1))
  generalize (shuffle (seeded run.blindSampleSeed) (db.blindRows.map (·.1))).1 = pool at hpool ⊢
  have hpoolNodup := hpool.nodup_iff.mpr hids
  rw [eraseDups_of_nodup (hpoolNodup.filter _)]
  refine ⟨pool.filter (· ∉ unique), ?_, ?_⟩
  · -- the pool is what was given and what was not
    refine ((List.perm_ext_iff_of_nodup ?_ hpoolNodup).mpr fun c => ?_).trans hpool
    · refine List.nodup_append'.mpr ⟨hunique, hpoolNodup.filter _, ?_⟩
      intro c hc hrest
      simpa [hc] using (List.mem_filter.mp hrest).2
    · have hc : c ∈ unique → c ∈ pool := fun h => hpool.mem_iff.mpr (hof.subset h)
      by_cases h : c ∈ unique <;> simp [h, hc]
  · by_cases hrows : db.blindRows = []
    · simp [hrows, blindSize]
    · have hpos : 0 ≤ blindSize run db.blindRows := by
        rw [blindSize]
        omega
      rw [if_neg hrows, sliceTo_of_nonneg hpos]
      by_cases hfew : (unique.length : Int) < blindSize run db.blindRows
      · rw [if_pos hfew, sliceTo_of_nonneg (by omega), List.take_append, List.take_append,
          List.take_take]
        congr 2
        omega
      · rw [if_neg hfew, List.take_append_of_le_length (by omega)]

/-- Every stratum is in the sample exactly when the strata before the last leave a place. -/
theorem strata_reached_iff {db : EvaluationDb} (hids : (db.blindRows.map (·.1)).Nodup)
    (hperm : ∀ s xs, (shuffle s xs).1.Perm xs) (hsize : 1 ≤ run.blindSampleSize)
    (hne : strata db.blindRows ≠ []) :
    (∀ key ∈ strata db.blindRows, ∃ c ∈ db.blindSample run fl seeded shuffle,
        (c, key) ∈ db.blindRows) ↔
      (((strata db.blindRows).map (stratumPick run fl db.blindRows)).dropLast.sum : Int) <
        blindSize run db.blindRows := by
  obtain ⟨rest, -, hsample⟩ := @blindSample_eq run fl _ seeded _ _ hids hperm hsize
  have hgroups : List.Forall₂ (fun g b => b ≠ [] ∧ b ⊆ g)
      ((strata db.blindRows).map (members db.blindRows))
      (blindPicked run fl seeded shuffle (blindSize run db.blindRows) db.blindRows) := by
    rw [List.forall₂_map_left_iff]
    refine (blindPicked_drawn hperm).imp fun key b hb => ⟨?_, hb.2.1.subset⟩
    have hpick := @one_le_stratumPick run fl _ _ hb.1
    rw [← hb.2.2] at hpick
    exact List.ne_nil_of_length_pos hpick
  have hnodup := members_flatten_perm.nodup_iff.mpr hids
  have hreached := groups_reached_append_iff (by simpa using hne) hgroups hnodup rest
    (blindSize run db.blindRows).toNat
  rw [List.forall_mem_map, blindPicked_lengths hperm, ← hsample] at hreached
  have hcut : (∀ key ∈ strata db.blindRows, ∃ c ∈ db.blindSample run fl seeded shuffle,
      (c, key) ∈ db.blindRows) ↔ ∀ key ∈ strata db.blindRows,
        ∃ c ∈ members db.blindRows key, c ∈ db.blindSample run fl seeded shuffle := by
    refine forall_congr' fun key => forall_congr' fun _ => exists_congr fun c => ?_
    rw [mem_members, and_comm]
  rw [hcut, hreached]
  omega

/-! ## A stratified sample -/

/-- What a stratified sample is. -/
structure Stratified (db : EvaluationDb) (run : EvaluationRun) (fl : FloatArith) {σ : Type}
    (seeded : Int → σ) (shuffle : σ → List ClaimId → List ClaimId × σ) : Prop where
  distinct : (db.blindSample run fl seeded shuffle).Nodup
  size : ((db.blindSample run fl seeded shuffle).length : Int) =
    min run.blindSampleSize db.blindRows.length
  current : ∀ c ∈ db.blindSample run fl seeded shuffle, c ∈ db.blindRows.map (·.1)
  represented : ((strata db.blindRows).length : Int) ≤ run.blindSampleSize →
    ∀ key ∈ strata db.blindRows, ∃ c ∈ db.blindSample run fl seeded shuffle,
      (c, key) ∈ db.blindRows
  capped : List.Forall₂ (fun key picked => (∀ c ∈ picked, (c, key) ∈ db.blindRows) ∧
      (picked.length : Int) ≤ ⌈(blindSize run db.blindRows *
        (members db.blindRows key).length / db.blindRows.length : ℚ)⌉)
    (strata db.blindRows)
    (blindPicked run fl seeded shuffle (blindSize run db.blindRows) db.blindRows)

theorem blindPicked_capped (hperm : ∀ s xs, (shuffle s xs).1.Perm xs)
    (hints : ∀ n : Nat, n ≤ rows.length → fl.rnd n = n) (hsize : 1 ≤ run.blindSampleSize) :
    List.Forall₂ (fun key picked => (∀ c ∈ picked, (c, key) ∈ rows) ∧
        (picked.length : Int) ≤
          ⌈(blindSize run rows * (members rows key).length / rows.length : ℚ)⌉)
      (strata rows) (blindPicked run fl seeded shuffle (blindSize run rows) rows) := by
  refine (blindPicked_drawn hperm).imp fun key picked h => ?_
  obtain ⟨hkey, hof, hlen⟩ := h
  have hpos := List.length_pos_of_ne_nil (members_ne_nil hkey)
  have hle := @length_members_le rows key
  have hone := one_le_blindShare fl (blindSize run rows) rows.length (members rows key).length
  have hshare := @blindShare_le fl (blindSize run rows) _ _ (by rw [blindSize]; omega)
    (by rw [blindSize]; omega) hpos hle hints
  refine ⟨fun c hc => mem_members.mp (hof.subset hc), ?_⟩
  rw [hlen, stratumPick]
  omega

/-- The sample is stratified exactly when the strata but the last leave a place. -/
theorem blindSample_stratified_iff (hids : (db.claims.map (·.id)).Nodup)
    (hperm : ∀ s xs, (shuffle s xs).1.Perm xs)
    (hints : ∀ n : Nat, n ≤ db.blindRows.length → fl.rnd n = n)
    (hsize : 1 ≤ run.blindSampleSize) :
    Stratified db run fl seeded shuffle ↔
      (((strata db.blindRows).length : Int) ≤ run.blindSampleSize → strata db.blindRows ≠ [] →
        (((strata db.blindRows).map (stratumPick run fl db.blindRows)).dropLast.sum : Int) <
          min run.blindSampleSize db.blindRows.length) := by
  have hrows := blindRows_nodup hids
  constructor
  · intro h hfew hne
    exact (strata_reached_iff hrows hperm hsize hne).mp (h.represented hfew)
  · intro h
    obtain ⟨rest, hpool, hsample⟩ := @blindSample_eq run fl _ seeded _ _ hrows hperm hsize
    have hlen : (db.blindRows.map (·.1)).length = db.blindRows.length := List.length_map _
    refine ⟨?_, ?_, ?_, ?_, blindPicked_capped hperm hints hsize⟩
    · rw [hsample]
      exact (List.take_sublist _ _).nodup (hpool.nodup_iff.mpr hrows)
    · rw [hsample, List.length_take, hpool.length_eq, hlen, blindSize]
      omega
    · intro c hc
      rw [hsample] at hc
      exact hpool.mem_iff.mp (List.mem_of_mem_take hc)
    · intro hfew key hkey
      have hne := List.ne_nil_of_mem hkey
      exact (strata_reached_iff hrows hperm hsize hne).mpr (h hfew hne) key hkey

/-! ## Six claims of three strata -/

/-- Four claims of one type, then one claim of each of two other types. -/
def sixClaims : EvaluationDb where
  sessions := []
  auditEvents := []
  questions := []
  claims := [⟨0, "temporal_fact", none, none, 0⟩, ⟨1, "temporal_fact", none, none, 1⟩,
    ⟨2, "temporal_fact", none, none, 2⟩, ⟨3, "temporal_fact", none, none, 3⟩,
    ⟨4, "external_fact", none, none, 4⟩, ⟨5, "local_observation", none, none, 5⟩]
  effective := some 0
  heads c _ := some (.current c .supported)
  assessments := []
  evidence := []
  assessmentEvidence := []
  claimRevisions := []
  dependencies := []
  jobs := []
  sources := []
  artifacts := []

def sampleOfThree : EvaluationRun := ⟨0, fun _ => none, 0, 3⟩

/-- Two of the first stratum and one of the second: no place is left for the third. -/
theorem sixClaims_sample : sixClaims.blindSample sampleOfThree FloatArith.exact (fun _ => ())
    (fun s claims => (claims, s)) = [0, 1, 4] := by decide +kernel

theorem sixClaims_not_stratified :
    ¬ ∀ (db : EvaluationDb) (run : EvaluationRun) (fl : FloatArith) (seeded : Int → Unit)
      (shuffle : Unit → List ClaimId → List ClaimId × Unit), (db.claims.map (·.id)).Nodup →
      (∀ s xs, (shuffle s xs).1.Perm xs) →
      (∀ n : Nat, n ≤ db.blindRows.length → fl.rnd n = n) → 1 ≤ run.blindSampleSize →
      Stratified db run fl seeded shuffle := by
  intro hall
  have hsix := hall sixClaims sampleOfThree FloatArith.exact (fun _ => ())
    (fun s claims => (claims, s))
    (by decide) (fun _ _ => List.Perm.refl _) (fun _ _ => rfl) (by decide)
  obtain ⟨c, hc, hrow⟩ := hsix.represented (by decide) ("local_observation", .supported)
    (by decide)
  rw [sixClaims_sample] at hc
  have hrows : ∀ c ∈ [0, 1, 4], (c, "local_observation", EpistemicStatus.supported) ∉
      sixClaims.blindRows := by decide
  exact hrows c hc hrow

/-- With two places more the sample is stratified. -/
theorem sixClaims_five_stratified : Stratified sixClaims ⟨0, fun _ => none, 0, 5⟩ FloatArith.exact
    (fun _ => ()) (fun s claims => (claims, s)) :=
  (blindSample_stratified_iff (by decide) (fun _ _ => List.Perm.refl _) (fun _ _ => rfl)
    (by decide)).mpr fun _ _ => by decide +kernel

end EvaluationDb

end Noezema.Evaluation
