import Noezema.Lib.Regex

/-! # What an expression reads

An expression without groups and assertions matches the words of a language (`Spells`). Where its
preferred way is the longest (`Longest`), a search reads the longest word at each place. The
matches of a text are met reading it from the left (`Met`).
-/

namespace Noezema.Lib

variable {α : Type}

theorem append_prefix_iff {v w l : List α} : v ++ w <+: l ↔ v <+: l ∧ w <+: l.drop v.length := by
  constructor
  · rintro ⟨post, rfl⟩
    rw [List.append_assoc, List.drop_left]
    exact ⟨List.prefix_append _ _, List.prefix_append _ _⟩
  · rintro ⟨⟨rest, rfl⟩, post, hpost⟩
    rw [List.drop_left] at hpost
    exact ⟨post, by rw [← hpost, List.append_assoc]⟩

/-- Behind a shorter part of a text, the longer one goes on. -/
theorem exists_next {w' w l : List α} (h' : w' <+: l) (h : w <+: l) (hlt : w'.length < w.length) :
    ∃ x ∈ w, (l.drop w'.length).head? = some x := by
  obtain ⟨v, rfl⟩ := List.prefix_of_prefix_length_le h' h hlt.le
  obtain ⟨post, rfl⟩ := h
  rw [List.length_append] at hlt
  obtain ⟨x, v, rfl⟩ := List.exists_cons_of_length_pos (l := v) (by omega)
  refine ⟨x, by simp, ?_⟩
  rw [List.append_assoc, List.drop_left]
  rfl

namespace Cursor

/-- The cursor behind so many symbols. -/
def behind (c : Cursor α) (w : List α) : Cursor α :=
  ⟨w.reverse ++ c.left, c.right.drop w.length, c.groups⟩

variable (c : Cursor α) (v w : List α)

@[simp] theorem behind_nil : c.behind [] = c := rfl

@[simp] theorem behind_right : (c.behind w).right = c.right.drop w.length := rfl

@[simp] theorem behind_groups : (c.behind w).groups = c.groups := rfl

@[simp] theorem behind_pos : (c.behind w).pos = c.pos + w.length := by
  rw [pos, behind, List.length_append, List.length_reverse, pos, Nat.add_comm]

@[simp] theorem behind_behind : (c.behind v).behind w = c.behind (v ++ w) := by
  rw [behind, behind, behind, List.reverse_append, List.append_assoc, List.length_append,
    List.drop_drop]

theorem behind_append (left w post : List α) (groups : List (Nat × Nat × Nat)) :
    behind ⟨left, w ++ post, groups⟩ w = ⟨w.reverse ++ left, post, groups⟩ := by
  rw [behind, List.drop_left]

theorem capture_behind (left w post : List α) (groups : List (Nat × Nat × Nat)) (i : Nat) :
    (behind ⟨left, w ++ post, groups⟩ w).capture i left.length =
      ⟨w.reverse ++ left, post, (i, left.length, left.length + w.length) :: groups⟩ := by
  rw [capture, behind_pos, behind, List.drop_left]
  rfl

end Cursor

namespace Regex

/-! ## The language of an expression -/

/-- The expression matches the words of the language, at every place. -/
def Spells (r : Regex α) (L : List α → Prop) : Prop :=
  ∀ c d, d ∈ r.paths c ↔ ∃ w, L w ∧ w <+: c.right ∧ d = c.behind w

variable {r s : Regex α} {L M : List α → Prop}

theorem Spells.congr (h : Spells r L) (hLM : ∀ w, L w ↔ M w) : Spells r M := by
  intro c d
  simp only [h c d, hLM]

theorem spells_empty : Spells (empty : Regex α) (· = []) := by
  intro c d
  rw [paths, List.mem_singleton]
  constructor
  · rintro rfl
    exact ⟨[], rfl, List.nil_prefix, rfl⟩
  · rintro ⟨w, rfl, -, rfl⟩
    rfl

theorem spells_symbol (p : α → Bool) : Spells (symbol p) (fun w => ∃ x, p x ∧ w = [x]) := by
  intro c d
  rw [paths]
  constructor
  · intro h
    split at h
    · rename_i x rest hright
      split at h
      · rename_i hp
        rw [List.mem_singleton.mp h]
        refine ⟨[x], ⟨x, hp, rfl⟩, ?_, ?_⟩
        · rw [hright]
          exact List.prefix_append [x] rest
        · rw [Cursor.behind, hright]
          rfl
      · cases h
    · cases h
  · rintro ⟨w, ⟨x, hp, rfl⟩, ⟨rest, hrest⟩, rfl⟩
    rw [List.singleton_append] at hrest
    rw [← hrest]
    dsimp only
    rw [if_pos hp, List.mem_singleton, Cursor.behind, ← hrest]
    rfl

theorem Spells.seq (h : Spells r L) (h' : Spells s M) :
    Spells (r.seq s) (fun w => ∃ u v, L u ∧ M v ∧ w = u ++ v) := by
  intro c d
  rw [paths, List.mem_flatMap]
  constructor
  · rintro ⟨e, he, hd⟩
    obtain ⟨u, hu, hpre, rfl⟩ := (h c e).mp he
    obtain ⟨v, hv, hpre', rfl⟩ := (h' _ d).mp hd
    refine ⟨u ++ v, ⟨u, v, hu, hv, rfl⟩, append_prefix_iff.mpr ⟨hpre, hpre'⟩, ?_⟩
    rw [Cursor.behind_behind]
  · rintro ⟨w, ⟨u, v, hu, hv, rfl⟩, hpre, rfl⟩
    obtain ⟨hu', hv'⟩ := append_prefix_iff.mp hpre
    refine ⟨c.behind u, (h c _).mpr ⟨u, hu, hu', rfl⟩, (h' _ _).mpr ⟨v, hv, hv', ?_⟩⟩
    rw [Cursor.behind_behind]

/-- So many words of a language. -/
def Words (L : List α → Prop) (n : Nat) (w : List α) : Prop :=
  ∃ ws : List (List α), ws.length = n ∧ (∀ u ∈ ws, L u) ∧ w = ws.flatten

theorem words_zero {w : List α} : Words L 0 w ↔ w = [] := by
  constructor
  · rintro ⟨ws, hlen, -, rfl⟩
    rw [List.length_eq_zero_iff.mp hlen]
    rfl
  · rintro rfl
    exact ⟨[], rfl, by simp, rfl⟩

theorem words_succ {n : Nat} {w : List α} :
    Words L (n + 1) w ↔ ∃ u v, L u ∧ Words L n v ∧ w = u ++ v := by
  constructor
  · rintro ⟨ws, hlen, hL, rfl⟩
    obtain ⟨u, us, rfl⟩ := List.exists_cons_of_length_eq_add_one hlen
    refine ⟨u, us.flatten, hL u List.mem_cons_self, ⟨us, by simpa using hlen, ?_, rfl⟩,
      List.flatten_cons⟩
    exact fun x hx => hL x (List.mem_cons_of_mem _ hx)
  · rintro ⟨u, v, hu, ⟨us, hlen, hL, rfl⟩, rfl⟩
    refine ⟨u :: us, by rw [List.length_cons, hlen], ?_, List.flatten_cons.symm⟩
    intro x hx
    rcases List.mem_cons.mp hx with rfl | hx
    · exact hu
    · exact hL x hx

theorem Words.length_le (hne : ∀ w, L w → w ≠ []) : ∀ {n : Nat} {w : List α},
    Words L n w → n ≤ w.length := by
  intro n
  induction n with
  | zero => exact fun _ => Nat.zero_le _
  | succ n ih =>
    intro w h
    obtain ⟨u, v, hu, hv, rfl⟩ := words_succ.mp h
    have hpos := List.length_pos_iff.mpr (hne u hu)
    have := ih hv
    rw [List.length_append]
    omega

/-- At most so many turns. -/
theorem spells_upTo (h : Spells r L) (hne : ∀ w, L w → w ≠ []) (extra : Nat) :
    ∀ c d, d ∈ upTo r.paths extra c ↔
      ∃ w, (∃ n ≤ extra, Words L n w) ∧ w <+: c.right ∧ d = c.behind w := by
  induction extra with
  | zero =>
    intro c d
    rw [upTo, List.mem_singleton]
    constructor
    · rintro rfl
      exact ⟨[], ⟨0, le_refl _, words_zero.mpr rfl⟩, List.nil_prefix, rfl⟩
    · rintro ⟨w, ⟨n, hn, hw⟩, -, rfl⟩
      rw [Nat.le_zero.mp hn] at hw
      rw [words_zero.mp hw, Cursor.behind_nil]
  | succ extra ih =>
    intro c d
    rw [upTo, List.mem_append, List.mem_flatMap, List.mem_singleton]
    constructor
    · rintro (⟨e, he, hd⟩ | rfl)
      · obtain ⟨u, hu, hpre, rfl⟩ := (h c e).mp (List.mem_filter.mp he).1
        obtain ⟨v, ⟨n, hn, hv⟩, hpre', rfl⟩ := (ih _ d).mp hd
        refine ⟨u ++ v, ⟨n + 1, by omega, words_succ.mpr ⟨u, v, hu, hv, rfl⟩⟩,
          append_prefix_iff.mpr ⟨hpre, hpre'⟩, ?_⟩
        rw [Cursor.behind_behind]
      · exact ⟨[], ⟨0, Nat.zero_le _, words_zero.mpr rfl⟩, List.nil_prefix, rfl⟩
    · rintro ⟨w, ⟨n, hn, hw⟩, hpre, rfl⟩
      cases n with
      | zero =>
        rw [words_zero.mp hw]
        exact .inr rfl
      | succ n =>
        obtain ⟨u, v, hu, hv, rfl⟩ := words_succ.mp hw
        obtain ⟨hu', hv'⟩ := append_prefix_iff.mp hpre
        refine .inl ⟨c.behind u, List.mem_filter.mpr ⟨(h c _).mpr ⟨u, hu, hu', rfl⟩, ?_⟩, ?_⟩
        · have hpos := List.length_pos_iff.mpr (hne u hu)
          rw [Cursor.behind_pos, decide_eq_true_eq]
          omega
        · refine (ih _ _).mpr ⟨v, ⟨n, by omega, hv⟩, hv', ?_⟩
          rw [Cursor.behind_behind]

theorem spells_repeats (h : Spells r L) (hne : ∀ w, L w → w ≠ []) (extra min : Nat) :
    ∀ c d, d ∈ repeats r.paths extra min c ↔
      ∃ w, (∃ n, min ≤ n ∧ n ≤ min + extra ∧ Words L n w) ∧ w <+: c.right ∧ d = c.behind w := by
  induction min with
  | zero =>
    intro c d
    rw [repeats, spells_upTo h hne]
    simp only [Nat.zero_le, true_and, Nat.zero_add]
  | succ min ih =>
    intro c d
    rw [repeats, List.mem_flatMap]
    constructor
    · rintro ⟨e, he, hd⟩
      obtain ⟨u, hu, hpre, rfl⟩ := (h c e).mp he
      obtain ⟨v, ⟨n, hmin, hmax, hv⟩, hpre', rfl⟩ := (ih _ d).mp hd
      refine ⟨u ++ v, ⟨n + 1, by omega, by omega, words_succ.mpr ⟨u, v, hu, hv, rfl⟩⟩,
        append_prefix_iff.mpr ⟨hpre, hpre'⟩, ?_⟩
      rw [Cursor.behind_behind]
    · rintro ⟨w, ⟨n, hmin, hmax, hw⟩, hpre, rfl⟩
      obtain ⟨n, rfl⟩ : ∃ k, n = k + 1 := ⟨n - 1, by omega⟩
      obtain ⟨u, v, hu, hv, rfl⟩ := words_succ.mp hw
      obtain ⟨hu', hv'⟩ := append_prefix_iff.mp hpre
      refine ⟨c.behind u, (h c _).mpr ⟨u, hu, hu', rfl⟩, (ih _ _).mpr ⟨v,
        ⟨n, by omega, by omega, hv⟩, hv', ?_⟩⟩
      rw [Cursor.behind_behind]

theorem Spells.many (h : Spells r L) (hne : ∀ w, L w → w ≠ []) (min : Nat) (extra : Option Nat) :
    Spells (Regex.many min extra r)
      (fun w => ∃ n, min ≤ n ∧ (∀ e ∈ extra, n ≤ min + e) ∧ Words L n w) := by
  intro c d
  rw [paths, spells_repeats h hne]
  cases extra with
  | some e =>
    simp only [Option.getD_some, Option.mem_some_iff, forall_eq']
  | none =>
    simp only [Option.getD_none, Option.not_mem_none, false_imp_iff, implies_true, true_and]
    constructor
    · rintro ⟨w, ⟨n, hmin, -, hw⟩, hpre, rfl⟩
      exact ⟨w, ⟨n, hmin, hw⟩, hpre, rfl⟩
    · rintro ⟨w, ⟨n, hmin, hw⟩, hpre, rfl⟩
      have hlen := (hw.length_le hne).trans hpre.length_le
      exact ⟨w, ⟨n, hmin, by omega, hw⟩, hpre, rfl⟩

theorem words_symbols {p : α → Bool} : ∀ {n : Nat} {w : List α},
    Words (fun w => ∃ x, p x ∧ w = [x]) n w ↔ w.length = n ∧ ∀ x ∈ w, p x := by
  intro n
  induction n with
  | zero =>
    intro w
    rw [words_zero, List.length_eq_zero_iff]
    constructor
    · rintro rfl
      exact ⟨rfl, by simp⟩
    · exact And.left
  | succ n ih =>
    intro w
    rw [words_succ]
    constructor
    · rintro ⟨u, v, ⟨x, hx, rfl⟩, hv, rfl⟩
      obtain ⟨hlen, hall⟩ := ih.mp hv
      refine ⟨by rw [List.length_append, hlen, List.length_singleton, Nat.add_comm], ?_⟩
      intro y hy
      rcases List.mem_cons.mp hy with rfl | hy
      · exact hx
      · exact hall y hy
    · rintro ⟨hlen, hall⟩
      obtain ⟨x, v, rfl⟩ := List.exists_cons_of_length_eq_add_one hlen
      refine ⟨[x], v, ⟨x, hall x List.mem_cons_self, rfl⟩, ih.mpr ⟨by simpa using hlen, ?_⟩, rfl⟩
      exact fun y hy => hall y (List.mem_cons_of_mem _ hy)

theorem spells_word [DecidableEq α] (w : List α) :
    Spells (word (fun a b => a = b) w) (· = w) := by
  induction w with
  | nil => exact spells_empty
  | cons x w ih =>
    refine ((spells_symbol _).seq ih).congr ?_
    intro v
    constructor
    · rintro ⟨u, v, ⟨y, hy, rfl⟩, rfl, rfl⟩
      obtain rfl : x = y := by simpa using hy
      rfl
    · rintro rfl
      exact ⟨[x], w, ⟨x, by simp, rfl⟩, rfl, rfl⟩

/-- A run of symbols. -/
theorem spells_run (p : α → Bool) (min : Nat) (extra : Option Nat) :
    Spells (Regex.many min extra (symbol p))
      (fun w => (∀ x ∈ w, p x) ∧ min ≤ w.length ∧ ∀ e ∈ extra, w.length ≤ min + e) := by
  have hne : ∀ w : List α, (∃ x, p x ∧ w = [x]) → w ≠ [] := by
    rintro w ⟨x, -, rfl⟩
    exact List.cons_ne_nil _ _
  refine ((spells_symbol p).many hne min extra).congr ?_
  intro w
  simp only [words_symbols]
  constructor
  · rintro ⟨n, hmin, hmax, rfl, hall⟩
    exact ⟨hall, hmin, hmax⟩
  · rintro ⟨hall, hmin, hmax⟩
    exact ⟨w.length, hmin, hmax, rfl, hall⟩

/-! ## The preferred way is the longest -/

/-- At most one word of the language begins a text. -/
def Forced (L : List α → Prop) : Prop :=
  ∀ u v l : List α, L u → L v → u <+: l → v <+: l → u = v

theorem forced_of_length {n : Nat} (h : ∀ w, L w → w.length = n) : Forced L := by
  intro u v l hu hv hpre hpre'
  exact (List.prefix_of_prefix_length_le hpre hpre' (by rw [h u hu, h v hv])).eq_of_length
    (by rw [h u hu, h v hv])

theorem forced_symbol (p : α → Bool) : Forced (fun w => ∃ x, p x ∧ w = [x]) := by
  refine forced_of_length (n := 1) ?_
  rintro w ⟨x, -, rfl⟩
  rfl

/-- Where a shorter sequence of words was read, one more word is ahead. -/
theorem Words.next (hL : Forced L) : ∀ {n' n : Nat} {w' w l : List α}, Words L n' w' →
    Words L n w → w' <+: l → w <+: l → w'.length < w.length →
    ∃ u, L u ∧ u <+: l.drop w'.length := by
  have hfirst : ∀ {n : Nat} {w : List α}, Words L n w → 0 < w.length →
      ∃ k u v, n = k + 1 ∧ L u ∧ Words L k v ∧ w = u ++ v := by
    intro n w hw hpos
    cases n with
    | zero =>
      rw [words_zero.mp hw] at hpos
      exact absurd hpos (Nat.lt_irrefl 0)
    | succ k =>
      obtain ⟨u, v, hu, hv, rfl⟩ := words_succ.mp hw
      exact ⟨k, u, v, rfl, hu, hv, rfl⟩
  intro n'
  induction n' with
  | zero =>
    intro n w' w l hw' hw hpre' hpre hlt
    rw [words_zero.mp hw'] at hlt ⊢
    obtain ⟨k, u, v, rfl, hu, -, rfl⟩ := hfirst hw hlt
    exact ⟨u, hu, (append_prefix_iff.mp hpre).1⟩
  | succ n' ih =>
    intro n w' w l hw' hw hpre' hpre hlt
    obtain ⟨u', v', hu', hv', rfl⟩ := words_succ.mp hw'
    obtain ⟨k, u, v, rfl, hu, hv, rfl⟩ := hfirst hw (by omega)
    obtain ⟨hpu', hpv'⟩ := append_prefix_iff.mp hpre'
    obtain ⟨hpu, hpv⟩ := append_prefix_iff.mp hpre
    obtain rfl := hL u' u l hu' hu hpu' hpu
    rw [List.length_append, List.length_append] at hlt
    obtain ⟨x, hx, hpx⟩ := ih hv' hv hpv' hpv (by omega)
    refine ⟨x, hx, ?_⟩
    rw [List.length_append, ← List.drop_drop]
    exact hpx

/-- From the longest way to the shortest. -/
def Descending (l : List (Cursor α)) : Prop := l.Pairwise fun d e => e.pos < d.pos

def Longest (r : Regex α) : Prop := ∀ c, Descending (r.paths c)

theorem Descending.head?_eq_some_iff {l : List (Cursor α)} (h : Descending l) {d : Cursor α} :
    l.head? = some d ↔ d ∈ l ∧ ∀ e ∈ l, e.pos ≤ d.pos := by
  cases l with
  | nil => simp
  | cons x l =>
    have hx := (List.pairwise_cons.mp h).1
    rw [List.head?_cons, Option.some_inj]
    constructor
    · rintro rfl
      refine ⟨List.mem_cons_self, ?_⟩
      intro e he
      rcases List.mem_cons.mp he with rfl | he
      · exact le_refl _
      · exact (hx e he).le
    · rintro ⟨hd, hmax⟩
      rcases List.mem_cons.mp hd with rfl | hd
      · rfl
      · exact absurd (hmax x List.mem_cons_self) (Nat.not_le.mpr (hx d hd))

theorem longest_symbol (p : α → Bool) : Longest (symbol p) := by
  intro c
  rw [paths]
  split
  · split
    · exact List.pairwise_singleton _ _
    · exact List.Pairwise.nil
  · exact List.Pairwise.nil

theorem Longest.seq (hr : Longest r) (hs : Longest s)
    (hstop : ∀ c, ∀ e ∈ r.paths c, ∀ e' ∈ r.paths c, e'.pos < e.pos →
      ∀ d ∈ s.paths e', d.pos < e.pos) : Longest (r.seq s) := by
  intro c
  rw [paths, Descending, List.pairwise_flatMap]
  refine ⟨fun e _ => hs e, ?_⟩
  refine (hr c).imp_of_mem ?_
  intro e e' he he' hlt d hd d' hd'
  obtain ⟨w, hw⟩ := paths_reads s e d hd
  have hpos := hw.pos_eq
  have hstop' := hstop c e he e' he' hlt d' hd'
  omega

/-- The first part is read in at most one way. -/
theorem Longest.seq_of_forced (hr : Longest r) (h : Spells r L) (hL : Forced L) (hs : Longest s) :
    Longest (r.seq s) := by
  refine hr.seq hs ?_
  intro c e he e' he' hlt
  obtain ⟨u, hu, hpu, rfl⟩ := (h c e).mp he
  obtain ⟨v, hv, hpv, rfl⟩ := (h c e').mp he'
  rw [hL u v c.right hu hv hpu hpv] at hlt
  exact absurd hlt (Nat.lt_irrefl _)

/-- A word of a forced language is read in at most one way. -/
theorem Longest.one (hr : Longest r) (h : Spells r L) (hL : Forced L) (c : Cursor α) :
    r.paths c = [] ∨ ∃ e, r.paths c = [e] := by
  have hlong := hr c
  cases hpaths : r.paths c with
  | nil => exact .inl rfl
  | cons e l =>
    cases l with
    | nil => exact .inr ⟨e, rfl⟩
    | cons e' l =>
      rw [hpaths] at hlong
      have hlt := (List.pairwise_cons.mp hlong).1 e' List.mem_cons_self
      obtain ⟨u, hu, hpu, rfl⟩ := (h c e).mp (by rw [hpaths]; exact List.mem_cons_self)
      obtain ⟨v, hv, hpv, rfl⟩ := (h c e').mp
        (by rw [hpaths]; exact List.mem_cons_of_mem _ List.mem_cons_self)
      rw [hL u v c.right hu hv hpu hpv] at hlt
      exact absurd hlt (Nat.lt_irrefl _)

theorem longest_upTo (hr : Longest r) (h : Spells r L) (hL : Forced L) (extra : Nat) :
    ∀ c, Descending (upTo r.paths extra c) := by
  induction extra with
  | zero =>
    intro c
    exact List.pairwise_singleton _ _
  | succ extra ih =>
    intro c
    have hmore : ∀ d ∈ ((r.paths c).filter (c.pos < ·.pos)).flatMap (upTo r.paths extra),
        c.pos < d.pos := by
      intro d hd
      obtain ⟨e, he, hde⟩ := List.mem_flatMap.mp hd
      obtain ⟨w, hw⟩ := upTo_reads (paths_reads r) extra e d hde
      have hpos := hw.pos_eq
      have hlt := (List.mem_filter.mp he).2
      simp only [decide_eq_true_eq] at hlt
      omega
    rw [upTo, Descending, List.pairwise_append]
    refine ⟨?_, List.pairwise_singleton _ _, ?_⟩
    · rw [List.pairwise_flatMap]
      refine ⟨fun e _ => ih e, ?_⟩
      rcases hr.one h hL c with hpaths | ⟨e, hpaths⟩
      · rw [hpaths]
        exact List.Pairwise.nil
      · rw [hpaths]
        exact (List.pairwise_singleton _ e).filter _
    · intro d hd e he
      rw [List.mem_singleton.mp he]
      exact hmore d hd

theorem longest_repeats (hr : Longest r) (h : Spells r L) (hL : Forced L) (extra min : Nat) :
    ∀ c, Descending (repeats r.paths extra min c) := by
  induction min with
  | zero => exact longest_upTo hr h hL extra
  | succ min ih =>
    intro c
    rw [repeats]
    rcases hr.one h hL c with hpaths | ⟨e, hpaths⟩
    · rw [hpaths]
      exact List.Pairwise.nil
    · rw [hpaths, List.flatMap_singleton]
      exact ih e

theorem Longest.many (hr : Longest r) (h : Spells r L) (hL : Forced L) (min : Nat)
    (extra : Option Nat) : Longest (Regex.many min extra r) :=
  fun c => longest_repeats hr h hL _ min c

theorem longest_run (p : α → Bool) (min : Nat) (extra : Option Nat) :
    Longest (Regex.many min extra (symbol p)) :=
  (longest_symbol p).many (spells_symbol p) (forced_symbol p) min extra

theorem Longest.optional (hr : Longest r) : Longest (Regex.optional r) := by
  intro c
  rw [Regex.optional, paths, Option.getD_some, repeats, upTo, Descending, List.pairwise_append]
  have hone : ∀ l : List (Cursor α), l.flatMap (upTo r.paths 0) = l := by
    intro l
    induction l with
    | nil => rfl
    | cons d l ih => rw [List.flatMap_cons, ih, upTo, List.singleton_append]
  rw [hone]
  refine ⟨(hr c).filter _, List.pairwise_singleton _ _, ?_⟩
  intro d hd e he
  rw [List.mem_singleton.mp he]
  simpa using (List.mem_filter.mp hd).2

/-! ## Assertions and groups around an expression -/

theorem Spells.paths_isEmpty_iff (h : Spells r L) {c : Cursor α} :
    (r.paths c).isEmpty = true ↔ ∀ w, L w → ¬ w <+: c.right := by
  rw [List.isEmpty_iff, List.eq_nil_iff_forall_not_mem]
  constructor
  · intro hno w hw hpre
    exact hno _ ((h c _).mpr ⟨w, hw, hpre, rfl⟩)
  · intro hno d hd
    obtain ⟨w, hw, hpre, -⟩ := (h c d).mp hd
    exact hno w hw hpre

theorem paths_notBehind_seq (p : α → Bool) (c : Cursor α) :
    ((notBehind p).seq r).paths c = if c.left.head?.any p then [] else r.paths c := by
  rw [paths, paths]
  split
  · rfl
  · rw [List.flatMap_singleton]

theorem paths_seq_notAhead (c : Cursor α) :
    (r.seq (notAhead s)).paths c = (r.paths c).filter fun e => (s.paths e).isEmpty := by
  rw [paths]
  induction r.paths c with
  | nil => rfl
  | cons e l ih =>
    rw [List.flatMap_cons, ih, paths, List.filter_cons]
    split
    · rfl
    · rfl

theorem paths_seq_assoc (t : Regex α) (c : Cursor α) :
    (r.seq (s.seq t)).paths c = ((r.seq s).seq t).paths c := by
  rw [paths, paths, paths, List.flatMap_assoc]
  rfl

theorem paths_seq_congr {t : Regex α} (h : s.paths = t.paths) :
    (r.seq s).paths = (r.seq t).paths := by
  funext c
  rw [paths, paths, h]

theorem Descending.filter {l : List (Cursor α)} (h : Descending l) (p : Cursor α → Bool) :
    Descending (l.filter p) := List.Pairwise.filter p h

theorem Descending.capture {l : List (Cursor α)} (h : Descending l) (i start : Nat) :
    Descending (l.map (·.capture i start)) := List.pairwise_map.mpr h

/-- Where only one way of a first part goes on, the second part follows it. -/
theorem head?_flatMap_of_forced {β γ : Type} {l : List β} {f : β → List γ} {e : β} (he : e ∈ l)
    (h : ∀ e' ∈ l, f e' ≠ [] → e' = e) : (l.flatMap f).head? = (f e).head? := by
  induction l with
  | nil => cases he
  | cons x l ih =>
    rw [List.flatMap_cons]
    have hrest : ∀ e' ∈ l, f e' ≠ [] → e' = e := fun e' he' => h e' (List.mem_cons_of_mem _ he')
    by_cases hx : f x = []
    · rw [hx, List.nil_append]
      rcases List.mem_cons.mp he with rfl | he
      · -- nothing goes on behind this way, so nothing at all
        have hnone : l.flatMap f = [] := by
          rw [List.flatMap_eq_nil_iff]
          intro e' he'
          by_contra hne
          rw [hrest e' he' hne] at hne
          exact hne hx
        rw [hnone, hx]
      · exact ih he hrest
    · rw [List.head?_append_of_ne_nil _ hx, h x List.mem_cons_self hx]

section Ways

variable {s : Regex α} {left w post : List α} {groups : List (Nat × Nat × Nat)} {i : Nat}

theorem Spells.exists_of_ne_nil (h : Spells r L) {right : List α}
    (hne : r.paths ⟨left, right, groups⟩ ≠ []) : ∃ w post, L w ∧ right = w ++ post := by
  obtain ⟨d, hd⟩ := List.exists_mem_of_ne_nil _ hne
  obtain ⟨w, hw, ⟨post, rfl⟩, -⟩ := (h _ d).mp hd
  exact ⟨w, post, hw, rfl⟩

theorem Spells.exists_of_seq_ne_nil (h : Spells r L) {right : List α}
    (hne : (r.seq s).paths ⟨left, right, groups⟩ ≠ []) : ∃ w post, L w ∧ right = w ++ post ∧
      s.paths ⟨w.reverse ++ left, post, groups⟩ ≠ [] := by
  obtain ⟨d, hd⟩ := List.exists_mem_of_ne_nil _ hne
  obtain ⟨e, he, hd⟩ := List.mem_flatMap.mp hd
  obtain ⟨w, hw, ⟨post, rfl⟩, rfl⟩ := (h _ e).mp he
  rw [Cursor.behind_append] at hd
  exact ⟨w, post, hw, rfl, List.ne_nil_of_mem hd⟩

theorem Spells.exists_of_group_seq_ne_nil (h : Spells r L) {right : List α}
    (hne : ((group i r).seq s).paths ⟨left, right, groups⟩ ≠ []) :
    ∃ w post, L w ∧ right = w ++ post ∧ s.paths ⟨w.reverse ++ left, post,
      (i, left.length, left.length + w.length) :: groups⟩ ≠ [] := by
  obtain ⟨d, hd⟩ := List.exists_mem_of_ne_nil _ hne
  obtain ⟨e, he, hd⟩ := List.mem_flatMap.mp hd
  obtain ⟨f, hf, rfl⟩ := List.mem_map.mp he
  obtain ⟨w, hw, ⟨post, rfl⟩, rfl⟩ := (h _ f).mp hf
  have hcapture := Cursor.capture_behind left w post groups i
  exact ⟨w, post, hw, rfl, List.ne_nil_of_mem (hcapture ▸ hd)⟩

/-- Where only one word has a continuation, the first way is behind it. -/
theorem Spells.head?_seq (h : Spells r L) (hw : L w)
    (honly : ∀ w' post', L w' → w' ++ post' = w ++ post →
      s.paths ⟨w'.reverse ++ left, post', groups⟩ ≠ [] → w' = w) :
    ((r.seq s).paths ⟨left, w ++ post, groups⟩).head? =
      (s.paths ⟨w.reverse ++ left, post, groups⟩).head? := by
  have hmem := (h ⟨left, w ++ post, groups⟩ _).mpr ⟨w, hw, List.prefix_append _ _, rfl⟩
  rw [Cursor.behind_append] at hmem
  refine head?_flatMap_of_forced hmem ?_
  intro e he hne
  obtain ⟨w', hw', ⟨post', hsame⟩, rfl⟩ := (h _ e).mp he
  dsimp only at hsame
  rw [← hsame, Cursor.behind_append] at hne ⊢
  obtain rfl := honly w' post' hw' hsame hne
  rw [List.append_cancel_left hsame]

theorem Spells.head?_group_seq (h : Spells r L) (hw : L w)
    (honly : ∀ w' post', L w' → w' ++ post' = w ++ post → s.paths ⟨w'.reverse ++ left, post',
      (i, left.length, left.length + w'.length) :: groups⟩ ≠ [] → w' = w) :
    (((group i r).seq s).paths ⟨left, w ++ post, groups⟩).head? =
      (s.paths ⟨w.reverse ++ left, post,
        (i, left.length, left.length + w.length) :: groups⟩).head? := by
  have hmem := (h ⟨left, w ++ post, groups⟩ _).mpr ⟨w, hw, List.prefix_append _ _, rfl⟩
  refine head?_flatMap_of_forced
    (List.mem_map.mpr ⟨_, hmem, Cursor.capture_behind left w post groups i⟩) ?_
  intro e he hne
  obtain ⟨f, hf, rfl⟩ := List.mem_map.mp he
  obtain ⟨w', hw', ⟨post', hsame⟩, rfl⟩ := (h _ f).mp hf
  dsimp only at hsame
  rw [← hsame] at hne ⊢
  have hcapture := Cursor.capture_behind left w' post' groups i
  obtain rfl := honly w' post' hw' hsame (hcapture ▸ hne)
  rw [List.append_cancel_left hsame]
  exact Cursor.capture_behind _ _ _ _ _

end Ways

/-- The group of a match holds what was read in it. -/
theorem groupText_of_span {m : Match} {i : Nat} {left w post : List α}
    (h : m.span i = some (left.length, left.length + w.length)) :
    m.groupText (left.reverse ++ (w ++ post)) i = some w := by
  have hlen : left.length = left.reverse.length := List.length_reverse.symm
  rw [Match.groupText, h, Option.map_some]
  dsimp only
  rw [Nat.add_sub_cancel_left, hlen, List.drop_left, List.take_left]

/-! ## Reading a text from the left -/

section Met

variable {β : Type}

/-- What is met reading from the left: where something stands it is read, and the reading goes on
behind it. -/
inductive Met (At : List α → List α → List α → β → Prop) : List α → List α → β → Prop where
  | here {left w post : List α} {x : β} (h : At left w post x) : Met At left (w ++ post) x
  | past {left v rest : List α} {x y : β} (h : At left v rest y)
      (hmet : Met At (v.reverse ++ left) rest x) : Met At left (v ++ rest) x
  | skip {left rest : List α} {c : α} {x : β}
      (h : ∀ w post y, w ++ post = c :: rest → ¬ At left w post y)
      (hmet : Met At (c :: left) rest x) : Met At left (c :: rest) x

/-- The expression matches where something stands, and a match is what stands there. -/
structure Finds (r : Regex α) (Is : List α → Match → β → Prop)
    (At : List α → List α → List α → β → Prop) : Prop where
  sound : ∀ {left right : List α} {m : Match}, r.matchAt left right = some m →
    ∃ w post y, right = w ++ post ∧ w ≠ [] ∧ m.start = left.length ∧
      m.stop = left.length + w.length ∧ At left w post y ∧
      ∀ x, Is (left.reverse ++ right) m x → At left w post x
  complete : ∀ {left w post : List α} {x : β}, At left w post x → w ≠ [] ∧
    ∃ m, r.matchAt left (w ++ post) = some m ∧ m.start = left.length ∧
      m.stop = left.length + w.length ∧ Is (left.reverse ++ (w ++ post)) m x

theorem findFrom_append (r : Regex α) : ∀ (v left rest : List α),
    r.findFrom v.length left (v ++ rest) = r.findFrom 0 (v.reverse ++ left) rest := by
  intro v
  induction v with
  | nil => exact fun _ _ => rfl
  | cons c v ih =>
    intro left rest
    rw [List.length_cons, List.cons_append, findFrom, ih, List.reverse_cons, List.append_assoc,
      List.singleton_append]

theorem findFrom_match {r : Regex α} {left w post : List α} {m : Match} (hw : w ≠ [])
    (h : r.matchAt left (w ++ post) = some m) (hstart : m.start = left.length)
    (hstop : m.stop = left.length + w.length) :
    r.findFrom 0 left (w ++ post) = m :: r.findFrom 0 (w.reverse ++ left) post := by
  obtain ⟨c, v, rfl⟩ := List.exists_cons_of_ne_nil hw
  have hskip : m.stop - m.start - 1 = v.length := by
    rw [hstop, hstart, List.length_cons]
    omega
  rw [List.cons_append] at h ⊢
  rw [findFrom, h]
  dsimp only
  rw [hskip, findFrom_append, List.reverse_cons, List.append_assoc, List.singleton_append]

variable {r : Regex α} {Is : List α → Match → β → Prop} {At : List α → List α → List α → β → Prop}

theorem Finds.none (h : Finds r Is At) {left right : List α} :
    r.matchAt left right = none ↔ ∀ w post x, w ++ post = right → ¬ At left w post x := by
  constructor
  · rintro hnone w post x rfl hat
    obtain ⟨-, m, hm, -⟩ := h.complete hat
    rw [hnone] at hm
    cases hm
  · intro hno
    cases hm : r.matchAt left right with
    | none => rfl
    | some m =>
      obtain ⟨w, post, y, hright, -, -, -, hat, -⟩ := h.sound hm
      exact absurd hat (hno w post y hright.symm)

theorem text_moved (left w post : List α) :
    (w.reverse ++ left).reverse ++ post = left.reverse ++ (w ++ post) := by
  rw [List.reverse_append, List.reverse_reverse, List.append_assoc]

theorem text_moved_cons (left rest : List α) (c : α) :
    (c :: left).reverse ++ rest = left.reverse ++ c :: rest := text_moved left [c] rest

theorem Finds.found (h : Finds r Is At) {left right : List α} {x : β}
    (hmet : Met At left right x) :
    ∃ m ∈ r.findFrom 0 left right, Is (left.reverse ++ right) m x := by
  induction hmet with
  | here hat =>
    obtain ⟨hw, m, hm, hstart, hstop, his⟩ := h.complete hat
    rw [findFrom_match hw hm hstart hstop]
    exact ⟨m, List.mem_cons_self, his⟩
  | @past left v rest x y hat _ ih =>
    obtain ⟨hv, m', hm, hstart, hstop, -⟩ := h.complete hat
    obtain ⟨m, hmem, his⟩ := ih
    rw [text_moved] at his
    rw [findFrom_match hv hm hstart hstop]
    exact ⟨m, List.mem_cons_of_mem _ hmem, his⟩
  | @skip left rest c x hno _ ih =>
    obtain ⟨m, hmem, his⟩ := ih
    rw [text_moved_cons] at his
    rw [findFrom, h.none.mpr hno]
    exact ⟨m, hmem, his⟩

theorem Finds.met (h : Finds r Is At) : ∀ {n : Nat} {left right : List α} {m : Match} {x : β},
    right.length ≤ n → m ∈ r.findFrom 0 left right → Is (left.reverse ++ right) m x →
    Met At left right x := by
  intro n
  induction n with
  | zero =>
    intro left right m x hlen hm
    rw [List.length_eq_zero_iff.mp (Nat.le_zero.mp hlen), findFrom] at hm
    cases hm
  | succ n ih =>
    intro left right m x hlen hm his
    cases right with
    | nil =>
      rw [findFrom] at hm
      cases hm
    | cons c rest =>
      cases hmatch : r.matchAt left (c :: rest) with
      | none =>
        rw [findFrom, hmatch] at hm
        rw [← text_moved_cons] at his
        exact .skip (h.none.mp hmatch) (ih (Nat.le_of_succ_le_succ hlen) hm his)
      | some m' =>
        obtain ⟨w, post, y, hright, hw, hstart, hstop, hat, hall⟩ := h.sound hmatch
        rw [hright] at hm hmatch hlen his hall ⊢
        rw [findFrom_match hw hmatch hstart hstop] at hm
        rcases List.mem_cons.mp hm with rfl | hm
        · exact .here (hall x his)
        · have hpos := List.length_pos_iff.mpr hw
          rw [List.length_append] at hlen
          rw [← text_moved] at his
          exact .past hat (ih (by omega) hm his)

/-- **The matches of a search are what is met reading from the left.** -/
theorem Finds.findAll_iff (h : Finds r Is At) {text : List α} {x : β} :
    (∃ m ∈ r.findAll text, Is text m x) ↔ Met At [] text x := by
  constructor
  · rintro ⟨m, hm, his⟩
    exact h.met (le_refl _) hm his
  · exact h.found

/-! ## The places that are read -/

/-- Reading from the left comes to the end of the first part of a text: no match that begins in
it goes on behind it. -/
inductive Reaches (At : List α → List α → List α → β → Prop) :
    List α → List α → List α → Prop where
  | done {left rest : List α} : Reaches At left [] rest
  | past {left v mid rest : List α} {y : β} (h : At left v (mid ++ rest) y)
      (hreach : Reaches At (v.reverse ++ left) mid rest) : Reaches At left (v ++ mid) rest
  | skip {left mid rest : List α} {c : α}
      (h : ∀ w post y, w ++ post = c :: (mid ++ rest) → ¬ At left w post y)
      (hreach : Reaches At (c :: left) mid rest) : Reaches At left (c :: mid) rest

/-- What stands where the reading comes to is met. -/
theorem Reaches.met {left pre w post : List α} {x : β} (h : Reaches At left pre (w ++ post))
    (hat : At (pre.reverse ++ left) w post x) : Met At left (pre ++ (w ++ post)) x := by
  generalize hrest : w ++ post = rest at h
  induction h with
  | done =>
    rw [List.nil_append, ← hrest]
    exact .here hat
  | @past left v mid rest y hv _ ih =>
    rw [List.append_assoc]
    rw [List.reverse_append, List.append_assoc] at hat
    exact .past hv (ih hat hrest)
  | @skip left mid rest c hno _ ih =>
    rw [List.reverse_cons, List.append_assoc, List.singleton_append] at hat
    exact .skip hno (ih hat hrest)

/-- What is met stands at a place where the reading comes to. -/
theorem met_iff {left text : List α} {x : β} : Met At left text x ↔ ∃ pre w post,
    text = pre ++ (w ++ post) ∧ Reaches At left pre (w ++ post) ∧
      At (pre.reverse ++ left) w post x := by
  constructor
  · intro h
    induction h with
    | @here left w post x hat => exact ⟨[], w, post, rfl, .done, hat⟩
    | @past left v rest x y hv _ ih =>
      obtain ⟨pre, w, post, rfl, hreach, hat⟩ := ih
      refine ⟨v ++ pre, w, post, (List.append_assoc _ _ _).symm, .past hv hreach, ?_⟩
      rwa [List.reverse_append, List.append_assoc]
    | @skip left rest c x hno _ ih =>
      obtain ⟨pre, w, post, rfl, hreach, hat⟩ := ih
      refine ⟨c :: pre, w, post, rfl, .skip hno hreach, ?_⟩
      rwa [List.reverse_cons, List.append_assoc, List.singleton_append]
  · rintro ⟨pre, w, post, rfl, hreach, hat⟩
    exact hreach.met hat

/-- Where nothing that stands in the first part goes on behind it, the reading comes to its
end. -/
theorem Reaches.of_clear {rest : List α}
    (hne : ∀ {left w post : List α} {x : β}, At left w post x → w ≠ []) :
    ∀ {n : Nat} {left pre : List α}, pre.length ≤ n →
      (∀ u v y post x, pre = u ++ v → v ≠ [] → y ++ post = v ++ rest →
        At (u.reverse ++ left) y post x → y.length ≤ v.length) → Reaches At left pre rest := by
  intro n
  induction n with
  | zero =>
    intro left pre hlen _
    rw [List.length_eq_zero_iff.mp (Nat.le_zero.mp hlen)]
    exact .done
  | succ n ih =>
    intro left pre hlen hclear
    cases pre with
    | nil => exact .done
    | cons c mid =>
      by_cases hstands : ∃ y post x, y ++ post = c :: (mid ++ rest) ∧ At left y post x
      · obtain ⟨y, post, x, hsame, hat⟩ := hstands
        have hle := hclear [] (c :: mid) y post x rfl (List.cons_ne_nil _ _) hsame hat
        obtain ⟨mid', hmid⟩ := List.prefix_of_prefix_length_le (List.prefix_append y post)
          (hsame ▸ List.prefix_append (c :: mid) rest) hle
        rw [← hmid]
        rw [← List.cons_append, ← hmid, List.append_assoc] at hsame
        obtain rfl := List.append_cancel_left hsame
        have hpos := List.length_pos_iff.mpr (hne hat)
        have hlen' := congrArg List.length hmid
        rw [List.length_append] at hlen'
        refine .past hat (ih (by omega) ?_)
        intro u v y' post' x' hsplit hv hsame' hat'
        refine hclear (y ++ u) v y' post' x' ?_ hv hsame' ?_
        · rw [← hmid, hsplit, List.append_assoc]
        · rwa [List.reverse_append, List.append_assoc]
      · refine .skip (fun w post y hsame hat => hstands ⟨w, post, y, hsame, hat⟩) (ih ?_ ?_)
        · rw [List.length_cons] at hlen
          omega
        · intro u v y' post' x' hsplit hv hsame' hat'
          refine hclear (c :: u) v y' post' x' ?_ hv hsame' ?_
          · rw [hsplit, List.cons_append]
          · rwa [List.reverse_cons, List.append_assoc, List.singleton_append]

theorem Finds.start_le (h : Finds r Is At) : ∀ {n : Nat} {left right : List α} {m : Match},
    right.length ≤ n → m ∈ r.findFrom 0 left right → left.length ≤ m.start := by
  intro n
  induction n with
  | zero =>
    intro left right m hlen hm
    rw [List.length_eq_zero_iff.mp (Nat.le_zero.mp hlen), findFrom] at hm
    cases hm
  | succ n ih =>
    intro left right m hlen hm
    cases right with
    | nil =>
      rw [findFrom] at hm
      cases hm
    | cons c rest =>
      cases hmatch : r.matchAt left (c :: rest) with
      | none =>
        rw [findFrom, hmatch] at hm
        have hle := ih (Nat.le_of_succ_le_succ hlen) hm
        rw [List.length_cons] at hle
        omega
      | some m' =>
        obtain ⟨w, post, y, hright, hw, hstart, hstop, -, -⟩ := h.sound hmatch
        rw [hright] at hm hmatch hlen
        rw [findFrom_match hw hmatch hstart hstop] at hm
        rcases List.mem_cons.mp hm with rfl | hm
        · exact hstart.ge
        · have hpos := List.length_pos_iff.mpr hw
          rw [List.length_append] at hlen
          have hle := ih (by omega) hm
          rw [List.length_append] at hle
          omega

/-- A match that starts at the cursor is what stands there. -/
theorem Finds.at_start (h : Finds r Is At) {left w post : List α} {m : Match}
    (hm : m ∈ r.findFrom 0 left (w ++ post)) (hstart : m.start = left.length)
    (hstop : m.stop = left.length + w.length) : ∃ x, At left w post x := by
  cases hright : w ++ post with
  | nil =>
    rw [hright, findFrom] at hm
    cases hm
  | cons c rest =>
    rw [hright] at hm
    cases hmatch : r.matchAt left (c :: rest) with
    | none =>
      rw [findFrom, hmatch] at hm
      have hle := h.start_le (le_refl _) hm
      rw [List.length_cons] at hle
      omega
    | some m' =>
      obtain ⟨v, post', y, hsame, hv, hstart', hstop', hat, -⟩ := h.sound hmatch
      rw [hsame] at hm hmatch
      rw [findFrom_match hv hmatch hstart' hstop'] at hm
      rcases List.mem_cons.mp hm with rfl | hm
      · obtain rfl : w = v := List.append_inj_left (hright.trans hsame) (by omega)
        obtain rfl := List.append_cancel_left (hright.trans hsame)
        exact ⟨y, hat⟩
      · have hle := h.start_le (le_refl _) hm
        have hpos := List.length_pos_iff.mpr hv
        rw [List.length_append, List.length_reverse] at hle
        omega

theorem Finds.reaches (h : Finds r Is At) {w post : List α} : ∀ {n : Nat} {left pre : List α}
    {m : Match}, pre.length ≤ n → m ∈ r.findFrom 0 left (pre ++ (w ++ post)) →
      m.start = left.length + pre.length → m.stop = left.length + pre.length + w.length →
      Reaches At left pre (w ++ post) ∧ ∃ x, At (pre.reverse ++ left) w post x := by
  intro n
  induction n with
  | zero =>
    intro left pre m hlen hm hstart hstop
    obtain rfl := List.length_eq_zero_iff.mp (Nat.le_zero.mp hlen)
    exact ⟨.done, h.at_start hm hstart hstop⟩
  | succ n ih =>
    intro left pre m hlen hm hstart hstop
    cases pre with
    | nil => exact ih (Nat.zero_le _) hm hstart hstop
    | cons c mid =>
      rw [List.length_cons] at hstart hstop hlen
      rw [List.cons_append] at hm
      cases hmatch : r.matchAt left (c :: (mid ++ (w ++ post))) with
      | none =>
        rw [findFrom, hmatch] at hm
        obtain ⟨hreach, x, hat⟩ := @ih (c :: left) _ _ (by omega) hm
          (by rw [List.length_cons]; omega) (by rw [List.length_cons]; omega)
        refine ⟨.skip (h.none.mp hmatch) hreach, x, ?_⟩
        rwa [List.reverse_cons, List.append_assoc, List.singleton_append]
      | some m' =>
        obtain ⟨v, post', y, hsame, hv, hstart', hstop', hat, -⟩ := h.sound hmatch
        rw [hsame] at hm hmatch
        rw [findFrom_match hv hmatch hstart' hstop'] at hm
        rcases List.mem_cons.mp hm with rfl | hm
        · omega
        · have hle := h.start_le (le_refl _) hm
          rw [List.length_append, List.length_reverse] at hle
          have hpre : c :: mid <+: v ++ post' := ⟨w ++ post, hsame⟩
          obtain ⟨mid', hmid⟩ := List.prefix_of_prefix_length_le (List.prefix_append v post') hpre
            (by rw [List.length_cons]; omega)
          have hpos := List.length_pos_iff.mpr hv
          have hlen' := congrArg List.length hmid
          rw [List.length_append, List.length_cons] at hlen'
          rw [← List.cons_append, ← hmid, List.append_assoc] at hsame
          obtain rfl := (List.append_cancel_left hsame).symm
          obtain ⟨hreach, x, hx⟩ := @ih (v.reverse ++ left) mid' _ (by omega) hm
            (by rw [List.length_append, List.length_reverse]; omega)
            (by rw [List.length_append, List.length_reverse]; omega)
          rw [← hmid]
          refine ⟨.past hat hreach, x, ?_⟩
          rwa [List.reverse_append, List.append_assoc]

theorem Finds.found_at (h : Finds r Is At) {left pre w post : List α} {x : β}
    (hreach : Reaches At left pre (w ++ post)) (hat : At (pre.reverse ++ left) w post x) :
    ∃ m ∈ r.findFrom 0 left (pre ++ (w ++ post)), m.start = left.length + pre.length ∧
      m.stop = left.length + pre.length + w.length := by
  generalize hrest : w ++ post = rest at hreach
  induction hreach with
  | done =>
    rw [← hrest]
    obtain ⟨hw, m, hm, hstart, hstop, -⟩ := h.complete hat
    rw [List.reverse_nil, List.nil_append] at hm hstart hstop
    rw [List.nil_append, findFrom_match hw hm hstart hstop]
    exact ⟨m, List.mem_cons_self, hstart, hstop⟩
  | @past left v mid rest y hv _ ih =>
    rw [List.reverse_append, List.append_assoc] at hat
    obtain ⟨m, hm, hstart, hstop⟩ := ih hat hrest
    obtain ⟨hne, m', hm', hstart', hstop', -⟩ := h.complete hv
    rw [List.append_assoc, findFrom_match hne hm' hstart' hstop']
    refine ⟨m, List.mem_cons_of_mem _ hm, ?_, ?_⟩
    · rw [hstart, List.length_append, List.length_append, List.length_reverse]
      omega
    · rw [hstop, List.length_append, List.length_append, List.length_reverse]
      omega
  | @skip left mid rest c hno _ ih =>
    rw [List.reverse_cons, List.append_assoc, List.singleton_append] at hat
    obtain ⟨m, hm, hstart, hstop⟩ := ih hat hrest
    rw [List.cons_append, findFrom, h.none.mpr hno]
    refine ⟨m, hm, ?_, ?_⟩
    · rw [hstart, List.length_cons, List.length_cons]
      omega
    · rw [hstop, List.length_cons, List.length_cons]
      omega

/-- **A search matches a place exactly where the reading from the left comes to it and something
stands there.** -/
theorem Finds.place_iff (h : Finds r Is At) {pre w post : List α} :
    (∃ m ∈ r.findAll (pre ++ (w ++ post)), m.start = pre.length ∧
        m.stop = pre.length + w.length) ↔
      Reaches At [] pre (w ++ post) ∧ ∃ x, At pre.reverse w post x := by
  constructor
  · rintro ⟨m, hm, hstart, hstop⟩
    have hread : Reaches At [] pre (w ++ post) ∧ ∃ x, At (pre.reverse ++ []) w post x :=
      h.reaches (le_refl _) hm (by simpa using hstart) (by simpa using hstop)
    simpa using hread
  · rintro ⟨hreach, x, hat⟩
    have hfound := h.found_at hreach (by simpa using hat)
    rw [List.length_nil, Nat.zero_add] at hfound
    exact hfound

end Met

end Regex

end Noezema.Lib
