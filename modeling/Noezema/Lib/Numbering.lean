import Mathlib.Data.List.Basic
import Mathlib.Data.List.Range
import Noezema.Lib.Run

/-! # Numbers by the greatest one

Transactions overlap on a table whose rows are numbered in each scope: a row is given the
number after the greatest one its transaction sees, and a uniqueness constraint on scope and
number refuses it where another has been faster. A reading sees what is committed and what the
transaction has written itself; an insertion waits for a row of the same number that is not
committed, and its transaction is undone by one that is.

Whatever the order of the steps, the committed rows of a scope are numbered in the order of
their commits, without a gap (`Gapless`). Rows without a scope are under no constraint.
-/

namespace Noezema.Lib

/-- A row of the table; `none` is a scope that the constraint leaves out. -/
structure NumberedRow (κ β : Type*) where
  scope : Option κ
  number : Nat
  data : β

/-- The committed rows in the order of their commits, the rows of transactions that are open,
and the rows that have their number and are not inserted yet. -/
structure NumberedTable (κ β : Type*) where
  committed : List (NumberedRow κ β)
  written : List (Nat × NumberedRow κ β)
  pending : List (Nat × NumberedRow κ β)

namespace NumberedTable

variable {κ β : Type*} [DecidableEq κ]

def empty : NumberedTable κ β := ⟨[], [], []⟩

/-- The rows a transaction has written. -/
def own (w : NumberedTable κ β) (t : Nat) : List (NumberedRow κ β) :=
  (w.written.filter fun r => r.1 = t).map (·.2)

def inScope (scope : Option κ) (rows : List (NumberedRow κ β)) : List (NumberedRow κ β) :=
  rows.filter fun r => r.scope = scope

def numbers (scope : Option κ) (rows : List (NumberedRow κ β)) : List Nat :=
  (inScope scope rows).map (·.number)

/-- `COALESCE(MAX(number), first - 1) + 1`. -/
def nextNumber (first : Nat) (seen : List Nat) : Nat :=
  match seen.max? with
  | some m => m + 1
  | none => first

/-- The number a transaction gives its next row. -/
def assign (w : NumberedTable κ β) (first t : Nat) (scope : Option κ) (data : β) :
    NumberedTable κ β :=
  let number := nextNumber first (numbers scope (w.committed ++ w.own t))
  { w with
    pending := (t, ⟨scope, number, data⟩) :: w.pending.filter fun r => r.1 ≠ t }

/-- A committed row is in the way. -/
def taken (w : NumberedTable κ β) (row : NumberedRow κ β) : Bool :=
  row.scope.isSome && w.committed.any fun r => r.scope = row.scope && r.number = row.number

/-- A row of another open transaction is in the way. -/
def waits (w : NumberedTable κ β) (t : Nat) (row : NumberedRow κ β) : Bool :=
  row.scope.isSome && w.written.any fun r =>
    r.1 ≠ t && r.2.scope = row.scope && r.2.number = row.number

def rollback (w : NumberedTable κ β) (t : Nat) : NumberedTable κ β :=
  { w with
    written := w.written.filter fun r => r.1 ≠ t
    pending := w.pending.filter fun r => r.1 ≠ t }

def commit (w : NumberedTable κ β) (t : Nat) : NumberedTable κ β :=
  { w.rollback t with committed := w.committed ++ w.own t }

/-- The row of a transaction that has its number. -/
def pendingOf (w : NumberedTable κ β) (t : Nat) : Option (NumberedRow κ β) :=
  (w.pending.find? fun r => r.1 = t).map (·.2)

/-- The insertion of the row: `none` where it waits. -/
def insert (w : NumberedTable κ β) (t : Nat) (row : NumberedRow κ β) :
    Option (NumberedTable κ β) :=
  if w.taken row then some (w.rollback t)
  else if w.waits t row then none
  else some { w with
    written := w.written ++ [(t, row)]
    pending := w.pending.filter fun r => r.1 ≠ t }

/-! ## Counting a scope -/

section Numbers

variable (scope : Option κ)

@[simp] theorem numbers_nil : numbers scope ([] : List (NumberedRow κ β)) = [] := rfl

@[simp] theorem numbers_append (rows rows' : List (NumberedRow κ β)) :
    numbers scope (rows ++ rows') = numbers scope rows ++ numbers scope rows' := by
  simp [numbers, inScope]

theorem numbers_singleton (row : NumberedRow κ β) :
    numbers scope [row] = if row.scope = scope then [row.number] else [] := by
  by_cases h : row.scope = scope
  · simp [numbers, inScope, h]
  · simp [numbers, inScope, h]

theorem mem_numbers {n : Nat} {rows : List (NumberedRow κ β)} :
    n ∈ numbers scope rows ↔ ∃ r ∈ rows, r.scope = scope ∧ r.number = n := by
  simp only [numbers, inScope, List.mem_map, List.mem_filter, decide_eq_true_eq]
  constructor
  · rintro ⟨r, hr, hn⟩
    exact ⟨r, hr.1, hr.2, hn⟩
  · rintro ⟨r, hr, hs, hn⟩
    exact ⟨r, ⟨hr, hs⟩, hn⟩

end Numbers

theorem nextNumber_range' (first n : Nat) : nextNumber first (List.range' first n) = first + n := by
  cases n with
  | zero => rfl
  | succ n =>
    have hmax : (List.range' first (n + 1)).max? = some (first + n) := by
      refine List.max?_eq_some_iff.mpr ⟨?_, fun b hb => ?_⟩
      · exact List.mem_range'_1.mpr (by omega)
      · have := List.mem_range'_1.mp hb
        omega
    simp only [nextNumber, hmax]
    omega

omit [DecidableEq κ] in
theorem mem_own {w : NumberedTable κ β} {t : Nat} {row : NumberedRow κ β} :
    row ∈ w.own t ↔ (t, row) ∈ w.written := by
  simp only [own, List.mem_map, List.mem_filter, decide_eq_true_eq]
  constructor
  · rintro ⟨r, ⟨hr, ht⟩, hrow⟩
    rw [← ht, ← hrow]
    exact hr
  · intro h
    exact ⟨(t, row), ⟨h, rfl⟩, rfl⟩

omit [DecidableEq κ] in
theorem own_rollback_self (w : NumberedTable κ β) (t : Nat) : (w.rollback t).own t = [] := by
  simp [own, rollback, List.filter_filter]

omit [DecidableEq κ] in
theorem own_rollback_other (w : NumberedTable κ β) {t t' : Nat} (h : t' ≠ t) :
    (w.rollback t).own t' = w.own t' := by
  simp only [own, rollback, List.filter_filter]
  congr 1
  refine List.filter_congr fun r _ => ?_
  by_cases hr : r.1 = t'
  · simp [hr, h]
  · simp [hr]

/-! ## Rows numbered in their order -/

theorem take_range'_min (start n k : Nat) :
    (List.range' start n).take k = List.range' start (min k n) := by
  rcases Nat.le_total n k with h | h
  · rw [List.take_range'_of_length_le h, Nat.min_eq_right h]
  · rw [List.take_range'_of_length_ge h, Nat.min_eq_left h]

section Ordered

variable {rows : List (NumberedRow κ β)} {a : Nat}

omit [DecidableEq κ] in
/-- The rows from a number on are those behind the ones before it. -/
theorem filter_eq_drop (h : rows.map (·.number) = List.range' a rows.length) (k : Nat) :
    rows.filter (fun r => a + k ≤ r.number) = rows.drop k := by
  induction rows generalizing a k with
  | nil => simp
  | cons r rows ih =>
    obtain ⟨hr, hrest⟩ := List.cons.inj h
    have hr : r.number = a := hr
    cases k with
    | zero =>
      have hall := ih hrest 0
      have hle : ∀ x ∈ rows, a + 0 ≤ x.number := by
        intro x hx
        have hmem : x.number ∈ List.range' (a + 1) rows.length := hrest ▸ List.mem_map_of_mem hx
        have := List.mem_range'_1.mp hmem
        omega
      rw [List.drop_zero, List.filter_eq_self]
      intro x hx
      rcases List.mem_cons.mp hx with rfl | hx
      · simp [hr]
      · exact decide_eq_true (hle x hx)
    | succ k =>
      have hnot : ¬ a + (k + 1) ≤ r.number := by omega
      rw [List.filter_cons_of_neg (by simpa using hnot), List.drop_succ_cons, ← ih hrest k]
      refine List.filter_congr fun x _ => ?_
      rw [Nat.add_right_comm, Nat.add_assoc]

omit [DecidableEq κ] in
theorem pairwise_number (h : rows.map (·.number) = List.range' a rows.length) :
    rows.Pairwise fun r r' => r.number ≤ r'.number := by
  have hlt : (rows.map (·.number)).Pairwise (· < ·) := h ▸ List.pairwise_lt_range'
  exact (List.pairwise_map.mp hlt).imp fun h => Nat.le_of_lt h

omit [DecidableEq κ] in
/-- The greatest number of consecutive rows. -/
theorem foldl_max_number (h : rows.map (·.number) = List.range' (a + 1) rows.length) :
    rows.foldl (fun last r => max last r.number) a = a + rows.length := by
  induction rows generalizing a with
  | nil => rfl
  | cons r rows ih =>
    obtain ⟨hr, hrest⟩ := List.cons.inj h
    have hr : r.number = a + 1 := hr
    rw [List.foldl_cons, hr, Nat.max_eq_right (Nat.le_succ a), ih hrest, List.length_cons]
    omega

end Ordered

/-! ## No gap -/

/-- The committed rows of a scope are numbered from the first number on. The rows that one open
transaction has written follow them, and no other has rows of that scope; a number that waits
for its insertion is the next one, or behind it. -/
structure Gapless (first : Nat) (w : NumberedTable κ β) : Prop where
  committed : ∀ s : κ, numbers (some s) w.committed =
    List.range' first (numbers (some s) w.committed).length
  own : ∀ (t : Nat) (s : κ), numbers (some s) (w.own t) =
    List.range' (first + (numbers (some s) w.committed).length)
      (numbers (some s) (w.own t)).length
  single : ∀ (t t' : Nat) (s : κ), numbers (some s) (w.own t) ≠ [] →
    numbers (some s) (w.own t') ≠ [] → t = t'
  pending : ∀ (t : Nat) (row : NumberedRow κ β) (s : κ), (t, row) ∈ w.pending →
    row.scope = some s → first ≤ row.number ∧
      (numbers (some s) (w.own t) = [] →
        row.number ≤ first + (numbers (some s) w.committed).length) ∧
      (numbers (some s) (w.own t) ≠ [] →
        row.number = first + (numbers (some s) w.committed).length +
          (numbers (some s) (w.own t)).length)

theorem Gapless.empty (first : Nat) : Gapless first (empty : NumberedTable κ β) where
  committed _ := rfl
  own _ _ := rfl
  single _ _ _ h := absurd rfl h
  pending _ _ _ h := absurd h List.not_mem_nil

variable {first : Nat} {w : NumberedTable κ β}

/-- What a transaction sees of a scope. -/
theorem Gapless.seen (h : Gapless first w) (t : Nat) (s : κ) :
    numbers (some s) (w.committed ++ w.own t) =
      List.range' first ((numbers (some s) w.committed).length +
        (numbers (some s) (w.own t)).length) := by
  rw [numbers_append, ← List.range'_append_1, ← h.committed s, ← h.own t s]

theorem Gapless.assign (h : Gapless first w) (t : Nat) (scope : Option κ) (data : β) :
    Gapless first (w.assign first t scope data) where
  committed := h.committed
  own := h.own
  single := h.single
  pending t' row s hmem hscope := by
    rcases List.mem_cons.mp hmem with heq | hmem
    · obtain ⟨rfl, rfl⟩ := Prod.mk.inj heq
      obtain rfl : scope = some s := hscope
      have hnext := nextNumber_range' first ((numbers (some s) w.committed).length +
        (numbers (some s) (w.own t')).length)
      rw [← h.seen t' s] at hnext
      show first ≤ nextNumber _ _ ∧ (_ → nextNumber _ _ ≤ _) ∧ (_ → nextNumber _ _ = _)
      rw [hnext]
      refine ⟨by omega, fun hnil => ?_, fun _ => (Nat.add_assoc _ _ _).symm⟩
      have hlen : (numbers (some s) (w.own t')).length = 0 := by
        have : numbers (some s) (w.own t') = [] := hnil
        rw [this]
        rfl
      show _ ≤ first + (numbers (some s) w.committed).length
      omega
    · exact h.pending t' row s (List.mem_filter.mp hmem).1 hscope

theorem Gapless.rollback (h : Gapless first w) (t : Nat) : Gapless first (w.rollback t) where
  committed := h.committed
  own t' s := by
    by_cases heq : t' = t
    · rw [heq, own_rollback_self]
      rfl
    · rw [own_rollback_other w heq]
      exact h.own t' s
  single t₁ t₂ s h₁ h₂ := by
    by_cases heq₁ : t₁ = t
    · rw [heq₁, own_rollback_self] at h₁
      exact absurd rfl h₁
    · by_cases heq₂ : t₂ = t
      · rw [heq₂, own_rollback_self] at h₂
        exact absurd rfl h₂
      · rw [own_rollback_other w heq₁] at h₁
        rw [own_rollback_other w heq₂] at h₂
        exact h.single t₁ t₂ s h₁ h₂
  pending t' row s hmem hscope := by
    obtain ⟨hmem, hne⟩ := List.mem_filter.mp hmem
    rw [own_rollback_other w (by simpa using hne)]
    exact h.pending t' row s hmem hscope

omit [DecidableEq κ] in
theorem own_commit (w : NumberedTable κ β) (t t' : Nat) :
    (w.commit t).own t' = (w.rollback t).own t' := rfl

theorem Gapless.commit (h : Gapless first w) (t : Nat) : Gapless first (w.commit t) := by
  have hlen : ∀ s : κ, (numbers (some s) (w.commit t).committed).length =
      (numbers (some s) w.committed).length + (numbers (some s) (w.own t)).length := by
    intro s
    show (numbers (some s) (w.committed ++ w.own t)).length = _
    rw [numbers_append, List.length_append]
  -- where another transaction has rows of a scope, the committed one has none
  have hother : ∀ (t' : Nat) (s : κ), t' ≠ t → numbers (some s) (w.own t') ≠ [] →
      (numbers (some s) (w.own t)).length = 0 := by
    intro t' s hne hrows
    by_contra hpos
    have ht : numbers (some s) (w.own t) ≠ [] := fun hnil => hpos (by rw [hnil]; rfl)
    exact hne (h.single t' t s hrows ht)
  have hroll := h.rollback t
  refine ⟨fun s => ?_, fun t' s => ?_, hroll.single, fun t' row s hmem hscope => ?_⟩
  · rw [hlen s]
    exact h.seen t s
  · rw [own_commit, hlen s]
    by_cases hnil : numbers (some s) ((w.rollback t).own t') = []
    · rw [hnil]
      rfl
    · have hne : t' ≠ t := by
        intro heq
        rw [heq, own_rollback_self] at hnil
        exact hnil rfl
      rw [own_rollback_other w hne] at hnil ⊢
      rw [hother t' s hne hnil]
      exact h.own t' s
  · obtain ⟨hmem, hne⟩ := List.mem_filter.mp hmem
    have hne : t' ≠ t := by simpa using hne
    obtain ⟨hfirst, hfresh, hnext⟩ := h.pending t' row s hmem hscope
    rw [own_commit, hlen s, own_rollback_other w hne]
    refine ⟨hfirst, fun hnil => ?_, fun hrows => ?_⟩
    · have := hfresh hnil
      omega
    · rw [hother t' s hne hrows]
      exact hnext hrows

omit [DecidableEq κ] in
theorem pendingOf_mem {t : Nat} {row : NumberedRow κ β} (h : w.pendingOf t = some row) :
    (t, row) ∈ w.pending := by
  obtain ⟨r, hr, hrow⟩ := Option.map_eq_some_iff.mp h
  have hmem := List.mem_of_find?_eq_some hr
  have ht : r.1 = t := by simpa using List.find?_some hr
  rw [← ht, ← hrow]
  exact hmem

/-- A row that is neither in the way of a committed one nor of another transaction's has the
next number, and its transaction is the only one with rows of the scope. -/
theorem Gapless.next (h : Gapless first w) {t : Nat} {row : NumberedRow κ β} {s : κ}
    (hrow : (t, row) ∈ w.pending) (hscope : row.scope = some s) (hfree : w.taken row = false)
    (hgo : w.waits t row = false) :
    row.number = first + (numbers (some s) w.committed).length +
        (numbers (some s) (w.own t)).length ∧
      ∀ t', t' ≠ t → numbers (some s) (w.own t') = [] := by
  obtain ⟨hfirst, hfresh, hnext⟩ := h.pending t row s hrow hscope
  have hnotCommitted : row.number ∉ numbers (some s) w.committed := by
    intro hmem
    obtain ⟨r, hr, hrs, hrn⟩ := (mem_numbers (some s)).mp hmem
    have htaken : w.taken row = true := by
      simp only [taken, hscope, Option.isSome_some, Bool.true_and]
      exact List.any_eq_true.mpr ⟨r, hr, by simp [hrs, hrn]⟩
    rw [htaken] at hfree
    cases hfree
  have hnotWritten : ∀ t', t' ≠ t → row.number ∉ numbers (some s) (w.own t') := by
    intro t' hne hmem
    obtain ⟨r, hr, hrs, hrn⟩ := (mem_numbers (some s)).mp hmem
    have hwaits : w.waits t row = true := by
      simp only [waits, hscope, Option.isSome_some, Bool.true_and]
      exact List.any_eq_true.mpr ⟨(t', r), mem_own.mp hr, by simp [hne, hrs, hrn]⟩
    rw [hwaits] at hgo
    cases hgo
  by_cases hnil : numbers (some s) (w.own t) = []
  · have hle := hfresh hnil
    have hge : ¬ row.number < first + (numbers (some s) w.committed).length := by
      intro hlt
      apply hnotCommitted
      rw [h.committed s]
      exact List.mem_range'_1.mpr ⟨hfirst, hlt⟩
    have hnumber : row.number = first + (numbers (some s) w.committed).length := by omega
    refine ⟨by rw [hnil, hnumber]; rfl, fun t' hne => ?_⟩
    -- the rows of another transaction would begin with this number
    by_contra hrows
    apply hnotWritten t' hne
    rw [h.own t' s, hnumber]
    exact List.mem_range'_1.mpr ⟨le_rfl, Nat.lt_add_of_pos_right (List.length_pos_iff.mpr hrows)⟩
  · refine ⟨hnext hnil, fun t' hne => ?_⟩
    by_contra hrows
    exact hne (h.single t' t s hrows hnil)

omit [DecidableEq κ] in
theorem own_written_append (w : NumberedTable κ β) (t t' : Nat) (row : NumberedRow κ β)
    (pending : List (Nat × NumberedRow κ β)) :
    NumberedTable.own ⟨w.committed, w.written ++ [(t, row)], pending⟩ t' =
      w.own t' ++ if t' = t then [row] else [] := by
  by_cases heq : t' = t
  · simp [own, heq]
  · simp [own, heq, Ne.symm heq]

theorem Gapless.insert {w' : NumberedTable κ β} {t : Nat} {row : NumberedRow κ β}
    (h : Gapless first w) (hrow : w.pendingOf t = some row)
    (hs : w.insert t row = some w') : Gapless first w' := by
  unfold NumberedTable.insert at hs
  split at hs
  · cases hs
    exact h.rollback t
  · rename_i hfree
    split at hs
    · cases hs
    · rename_i hgo
      cases hs
      have hmem := pendingOf_mem hrow
      have hfree : w.taken row = false := by simpa using hfree
      have hgo : w.waits t row = false := by simpa using hgo
      -- a scope that is not the row's keeps its numbers
      have hsame : ∀ (t' : Nat) (s : κ), t' ≠ t ∨ row.scope ≠ some s →
          numbers (some s) (w.own t' ++ if t' = t then [row] else []) =
            numbers (some s) (w.own t') := by
        intro t' s hor
        by_cases heq : t' = t
        · have hne := hor.resolve_left (not_not.mpr heq)
          rw [if_pos heq, numbers_append, numbers_singleton, if_neg hne, List.append_nil]
        · rw [if_neg heq, List.append_nil]
      have hadded : ∀ s : κ, row.scope = some s →
          numbers (some s) (w.own t ++ if t = t then [row] else []) =
            numbers (some s) (w.own t) ++ [row.number] := by
        intro s hscope
        rw [if_pos rfl, numbers_append, numbers_singleton, if_pos hscope]
      refine ⟨h.committed, fun t' s => ?_, fun t₁ t₂ s h₁ h₂ => ?_,
        fun t' row' s hpend hscope' => ?_⟩
      · rw [own_written_append]
        by_cases hor : t' ≠ t ∨ row.scope ≠ some s
        · rw [hsame t' s hor]
          exact h.own t' s
        · obtain ⟨heq, hscope⟩ := not_or.mp hor
          obtain rfl := not_not.mp heq
          have hscope := not_not.mp hscope
          obtain ⟨hnumber, -⟩ := h.next hmem hscope hfree hgo
          rw [hadded s hscope, List.length_append, List.length_singleton, List.range'_1_concat,
            ← h.own t' s, hnumber]
      · rw [own_written_append] at h₁ h₂
        by_cases hscope : row.scope = some s
        · obtain ⟨-, hnone⟩ := h.next hmem hscope hfree hgo
          have honly : ∀ t', numbers (some s) (w.own t' ++ if t' = t then [row] else []) ≠ [] →
              t' = t := by
            intro t' hrows
            by_contra hne
            rw [hsame t' s (.inl hne)] at hrows
            exact hrows (hnone t' hne)
          rw [honly t₁ h₁, honly t₂ h₂]
        · rw [hsame t₁ s (.inr hscope)] at h₁
          rw [hsame t₂ s (.inr hscope)] at h₂
          exact h.single t₁ t₂ s h₁ h₂
      · obtain ⟨hpend, hne⟩ := List.mem_filter.mp hpend
        have hne : t' ≠ t := by simpa using hne
        rw [own_written_append, hsame t' s (.inl hne)]
        exact h.pending t' row' s hpend hscope'

end NumberedTable

end Noezema.Lib
