import Mathlib.Data.List.Dedup
import Mathlib.Data.List.DropRight
import Mathlib.Data.List.Forall2
import Mathlib.Data.List.Nodup
import Mathlib.Data.List.Sort

/-! # Entries of lists

Entries by their positions, by their first occurrences and by their keys. Some entries of a
list are left out and the others close up: the table of the new numbers is built from the old
positions in their order, and a reference by position is rewritten through it.
-/

namespace Noezema.Lib

variable {α : Type*}

/-! ## Partners, first occurrences and ends -/

/-- The partner of an element at its position. -/
theorem forall₂_getElem? {β : Type*} {R : α → β → Prop} {as : List α} {bs : List β}
    (h : List.Forall₂ R as bs) {i : Nat} {a : α} (ha : as[i]? = some a) :
    ∃ b, bs[i]? = some b ∧ R a b := by
  induction h generalizing i with
  | nil => simp at ha
  | cons hab _ ih =>
    cases i with
    | zero =>
      obtain rfl := Option.some.inj ha
      exact ⟨_, rfl, hab⟩
    | succ i => exact ih ha

/-- What is kept of a list, each once, is without repetition. -/
theorem nodup_eraseDups [DecidableEq α] : ∀ l : List α, l.eraseDups.Nodup
  | [] => by simp
  | a :: l => by
    rw [List.eraseDups_cons, List.nodup_cons]
    refine ⟨fun h => ?_, nodup_eraseDups _⟩
    simpa using List.mem_eraseDups.mp h
  termination_by l => l.length
  decreasing_by
    simp only [List.length_cons]
    exact Nat.lt_succ_of_le (List.length_filter_le _ l)

/-- A list without repetition is kept whole. -/
theorem eraseDups_of_nodup [DecidableEq α] {l : List α} (h : l.Nodup) : l.eraseDups = l := by
  induction l with
  | nil => rfl
  | cons a l ih =>
    obtain ⟨ha, hl⟩ := List.nodup_cons.mp h
    rw [List.eraseDups_cons, List.filter_eq_self.mpr, ih hl]
    intro b hb
    simpa using ne_of_mem_of_not_mem hb ha

/-- Two lists with the same elements give one list, sorted and without duplicates. -/
theorem dedup_insertionSort_congr [DecidableEq α] {r : α → α → Prop} [DecidableRel r]
    [Std.Antisymm r] [Std.Total r] [IsTrans α r] {xs ys : List α} (h : ∀ x, x ∈ xs ↔ x ∈ ys) :
    xs.dedup.insertionSort r = ys.dedup.insertionSort r := by
  have hperm : xs.dedup.Perm ys.dedup :=
    (List.perm_ext_iff_of_nodup (List.nodup_dedup xs) (List.nodup_dedup ys)).mpr
      fun x => by rw [List.mem_dedup, List.mem_dedup, h]
  have hsorted : (xs.dedup.insertionSort r).Perm (ys.dedup.insertionSort r) :=
    ((List.perm_insertionSort r _).trans hperm).trans (List.perm_insertionSort r _).symm
  exact hsorted.eq_of_pairwise' (List.pairwise_insertionSort r _)
    (List.pairwise_insertionSort r _)

/-- An entry that does not go stops what is dropped from the end. -/
theorem rdropWhile_append_of_neg {p : α → Bool} {x : α} (hx : ¬ p x)
    (a b : List α) : (a ++ x :: b).rdropWhile p = a ++ x :: b.rdropWhile p := by
  induction b using List.reverseRecOn with
  | nil => simp [List.rdropWhile_concat_neg _ _ _ hx]
  | append_singleton b y ih =>
    have hassoc : a ++ x :: (b ++ [y]) = (a ++ x :: b) ++ [y] := by simp
    by_cases hy : p y
    · rw [hassoc, List.rdropWhile_concat_pos _ _ _ hy, ih, List.rdropWhile_concat_pos _ _ _ hy]
    · rw [hassoc, List.rdropWhile_concat_neg _ _ _ hy, List.rdropWhile_concat_neg _ _ _ hy]
      simp

/-! ## Entries by their keys -/

/-- Where no two entries have one key, the entry found for a key is the one that has it. -/
theorem find?_key_eq_some {κ : Type*} [DecidableEq κ] {key : α → κ} {l : List α}
    (hkeys : (l.map key).Nodup) {a : α} {k : κ} :
    (l.find? fun x => decide (key x = k)) = some a ↔ a ∈ l ∧ key a = k := by
  constructor
  · intro h
    exact ⟨List.mem_of_find?_eq_some h, by simpa using List.find?_some h⟩
  · rintro ⟨ha, rfl⟩
    cases h : l.find? fun x => decide (key x = key a) with
    | none => exact absurd (decide_eq_true rfl) (List.find?_eq_none.mp h a ha)
    | some b =>
      have hb := List.mem_of_find?_eq_some h
      have hkey : key b = key a := by simpa using List.find?_some h
      rw [List.inj_on_of_nodup_map hkeys hb ha hkey]

/-! ## The kept entries -/

/-- The entries that are kept, with their old positions. -/
def keptEntries (keep : α → Nat → Bool) (l : List α) : List (α × Nat) :=
  l.zipIdx.filter fun e => keep e.1 e.2

/-- The old positions of what is kept. -/
def keptPositions (keep : α → Nat → Bool) (l : List α) : List Nat :=
  (keptEntries keep l).map (·.2)

theorem mem_keptEntries {keep : α → Nat → Bool} {l : List α} {a : α} {i : Nat} :
    (a, i) ∈ keptEntries keep l ↔ l[i]? = some a ∧ keep a i := by
  rw [keptEntries, List.mem_filter, List.mk_mem_zipIdx_iff_getElem?]

theorem mem_keptPositions {keep : α → Nat → Bool} {l : List α} {i : Nat} :
    i ∈ keptPositions keep l ↔ ∃ a, l[i]? = some a ∧ keep a i := by
  rw [keptPositions, List.mem_map]
  constructor
  · rintro ⟨⟨a, j⟩, h, rfl⟩
    exact ⟨a, mem_keptEntries.mp h⟩
  · intro ⟨a, h⟩
    exact ⟨(a, i), mem_keptEntries.mpr h, rfl⟩

/-- What is kept stays in its order, each entry once. -/
theorem keptPositions_pairwise (keep : α → Nat → Bool) (l : List α) :
    (keptPositions keep l).Pairwise (· < ·) := by
  have hall : (l.zipIdx.map (·.2)).Pairwise (· < ·) := by
    rw [List.zipIdx_map_snd]
    exact List.pairwise_lt_range'
  exact hall.sublist (List.filter_sublist.map _)

theorem keptPositions_nodup (keep : α → Nat → Bool) (l : List α) :
    (keptPositions keep l).Nodup :=
  (keptPositions_pairwise keep l).imp Nat.ne_of_lt

/-! ## The new numbers -/

/-- `{old: new for new, old in enumerate(positions)}`. -/
def renumbering (positions : List Nat) : List (Nat × Nat) := positions.zipIdx

theorem lookup_zipIdx {l : List Nat} (h : l.Nodup) (start old new : Nat) :
    (l.zipIdx start).lookup old = some new ↔ start ≤ new ∧ l[new - start]? = some old := by
  induction l generalizing start with
  | nil => simp
  | cons a l ih =>
    rw [List.nodup_cons] at h
    rw [List.zipIdx_cons, List.lookup_cons]
    by_cases ha : old = a
    · subst ha
      have hlater : ∀ k, l[k]? ≠ some old := fun k hk => h.1 (List.mem_of_getElem? hk)
      simp only [beq_self_eq_true, Option.some.injEq]
      constructor
      · rintro rfl
        simp
      · rintro ⟨hle, hnew⟩
        by_cases hfirst : new = start
        · exact hfirst.symm
        · rw [show new - start = new - (start + 1) + 1 by omega] at hnew
          exact absurd hnew (hlater _)
    · rw [show (old == a) = false by simpa using ha]
      rw [ih h.2]
      constructor
      · intro ⟨hle, hnew⟩
        refine ⟨by omega, ?_⟩
        rw [show new - start = new - (start + 1) + 1 by omega]
        exact hnew
      · intro ⟨hle, hnew⟩
        by_cases hfirst : new = start
        · rw [hfirst, Nat.sub_self] at hnew
          exact absurd (Option.some.inj hnew).symm ha
        · refine ⟨by omega, ?_⟩
          rw [show new - start = new - (start + 1) + 1 by omega] at hnew
          exact hnew

/-- **The table is right**: the new number of a position is its place among the kept. -/
theorem lookup_renumbering {positions : List Nat} (h : positions.Nodup) {old new : Nat} :
    (renumbering positions).lookup old = some new ↔ positions[new]? = some old := by
  rw [renumbering, lookup_zipIdx h]
  simp

theorem lookup_renumbering_of_mem {positions : List Nat} (h : positions.Nodup) {old : Nat}
    (hold : old ∈ positions) : ∃ new, (renumbering positions).lookup old = some new := by
  obtain ⟨new, hnew⟩ := List.mem_iff_getElem?.mp hold
  exact ⟨new, (lookup_renumbering h).mpr hnew⟩

end Noezema.Lib
