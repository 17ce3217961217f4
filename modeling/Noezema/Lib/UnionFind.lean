import Mathlib.Logic.Relation
import Mathlib.Logic.Function.Iterate

/-! # Union-find with path halving

A forest of parent pointers. `find` climbs to the root and halves the path it
climbs; `union` points one root at another, without ranks. The rank of the
structure's invariant is a ghost: it bounds the climbs, and it is why every
pointer chain ends.

The result is `Forest.unions_root`: after any list of unions two elements have
the same root iff the pairs connect them.
-/

namespace Noezema.Lib

open Relation

variable {α : Type*}

/-- Ranks that grow along the pointers, bounded by `height`. -/
structure Ranks (parent : α → α) (height : Nat) (rank : α → Nat) : Prop where
  bound : ∀ x, rank x ≤ height
  climb : ∀ x, parent x ≠ x → rank x < rank (parent x)

/-- A forest of parent pointers without cycles; a root points at itself. -/
structure Forest (α : Type*) where
  parent : α → α
  height : Nat
  ranked : ∃ rank, Ranks parent height rank

theorem Ranks.le_parent {parent : α → α} {height : Nat} {rank : α → Nat}
    (h : Ranks parent height rank) (x : α) : rank x ≤ rank (parent x) := by
  by_cases hx : parent x = x
  · exact Nat.le_of_eq (congrArg rank hx.symm)
  · exact Nat.le_of_lt (h.climb x hx)

/-- Two steps that return to the start are no steps. -/
theorem Ranks.parent_of_loop {parent : α → α} {height : Nat} {rank : α → Nat}
    (h : Ranks parent height rank) {x : α} (hx : parent (parent x) = x) :
    parent x = x := by
  by_contra hne
  have h1 := h.climb x hne
  have h2 := h.le_parent (parent x)
  rw [hx] at h2
  omega

namespace Forest

/-- Every element alone. -/
def singletons (α : Type*) : Forest α where
  parent := id
  height := 0
  ranked := ⟨fun _ => 0, fun _ => Nat.le_refl 0, fun _ h => absurd rfl h⟩

/-- The root of an element's tree. -/
def root (f : Forest α) (x : α) : α := f.parent^[f.height] x

/-! ## Roots -/

theorem iterate_rank {parent : α → α} {height : Nat} {rank : α → Nat}
    (h : Ranks parent height rank) (x : α) (n : Nat) :
    parent (parent^[n] x) = parent^[n] x ∨ n ≤ rank (parent^[n] x) := by
  induction n with
  | zero => exact .inr (Nat.zero_le _)
  | succ n ih =>
    rw [Function.iterate_succ_apply']
    rcases ih with hfix | hle
    · rw [hfix]
      exact .inl hfix
    · by_cases hfix : parent (parent^[n] x) = parent^[n] x
      · rw [hfix]
        exact .inl hfix
      · have := h.climb _ hfix
        exact .inr (by omega)

/-- A root points at itself. -/
theorem parent_root (f : Forest α) (x : α) : f.parent (f.root x) = f.root x := by
  obtain ⟨rank, h⟩ := f.ranked
  rcases iterate_rank h x f.height with hfix | hle
  · exact hfix
  · by_contra hne
    have h1 := h.climb _ hne
    have h2 := h.bound (f.parent (f.root x))
    have h3 : f.height ≤ rank (f.root x) := hle
    omega

theorem root_parent (f : Forest α) (x : α) : f.root (f.parent x) = f.root x := by
  have h : f.root (f.parent x) = f.parent (f.root x) :=
    (Function.iterate_succ_apply f.parent f.height x).symm.trans
      (Function.iterate_succ_apply' f.parent f.height x)
  rw [h, parent_root]

theorem root_of_parent {f : Forest α} {x : α} (h : f.parent x = x) : f.root x = x :=
  Function.iterate_fixed h f.height

@[simp] theorem root_root (f : Forest α) (x : α) : f.root (f.root x) = f.root x :=
  root_of_parent (f.parent_root x)

/-- What is constant along the pointers takes its value at the root. -/
theorem eq_at_root {β : Type*} {f : Forest α} {g : α → β}
    (h : ∀ x, g (f.parent x) = g x) (x : α) : g (f.root x) = g x := by
  have : ∀ n, g (f.parent^[n] x) = g x := by
    intro n
    induction n with
    | zero => rfl
    | succ n ih => rw [Function.iterate_succ_apply', h, ih]
  exact this f.height

/-! ## `find` -/

variable [DecidableEq α]

/-- `parent[x] = parent[parent[x]]`. -/
def halve (f : Forest α) (x : α) : Forest α where
  parent := Function.update f.parent x (f.parent (f.parent x))
  height := f.height
  ranked := by
    obtain ⟨rank, h⟩ := f.ranked
    refine ⟨rank, h.bound, ?_⟩
    intro y hy
    by_cases hyx : y = x
    · subst hyx
      rw [Function.update_self] at hy ⊢
      by_cases hp : f.parent y = y
      · rw [hp, hp] at hy
        exact absurd rfl hy
      · exact Nat.lt_of_lt_of_le (h.climb y hp) (h.le_parent _)
    · rw [Function.update_of_ne hyx] at hy ⊢
      exact h.climb y hy

theorem halve_parent_self (f : Forest α) (x : α) :
    (f.halve x).parent x = f.parent (f.parent x) := Function.update_self ..

/-- Halving a path moves no root. -/
theorem halve_root (f : Forest α) (x y : α) : (f.halve x).root y = f.root y := by
  obtain ⟨rank, h⟩ := f.ranked
  have hconst : ∀ z, f.root ((f.halve x).parent z) = f.root z := by
    intro z
    by_cases hz : z = x
    · rw [hz, halve_parent_self, root_parent, root_parent]
    · have heq : (f.halve x).parent z = f.parent z := Function.update_of_ne hz ..
      rw [heq, root_parent]
  have hfix := (f.halve x).parent_root y
  have hroot : f.parent ((f.halve x).root y) = (f.halve x).root y := by
    by_cases hz : (f.halve x).root y = x
    · rw [hz, halve_parent_self] at hfix
      rw [hz]
      exact h.parent_of_loop hfix
    · have heq : (f.halve x).parent ((f.halve x).root y) =
          f.parent ((f.halve x).root y) := Function.update_of_ne hz ..
      rwa [heq] at hfix
  rw [← eq_at_root hconst y, root_of_parent hroot]

/-- The `while parent[x] != x` loop, with a bound on its rounds. -/
def findLoop : Nat → Forest α → α → Forest α × α
  | 0, f, x => (f, x)
  | n + 1, f, x =>
    if f.parent x = x then (f, x)
    else findLoop n (f.halve x) ((f.halve x).parent x)

/-- Every round climbs at least one rank, so `height` rounds are enough. -/
def find (f : Forest α) (x : α) : Forest α × α := findLoop f.height f x

theorem findLoop_root {f : Forest α} {n : Nat} {x : α} {rank : α → Nat}
    (h : Ranks f.parent f.height rank) (fuel : f.height ≤ rank x + n) :
    (findLoop n f x).2 = f.root x ∧ ∀ y, (findLoop n f x).1.root y = f.root y := by
  induction n generalizing f x with
  | zero =>
    refine ⟨?_, fun _ => rfl⟩
    have hfix : f.parent x = x := by
      by_contra hne
      have h1 := h.climb x hne
      have h2 := h.bound (f.parent x)
      omega
    exact (root_of_parent hfix).symm
  | succ n ih =>
    simp only [findLoop]
    split
    · rename_i hfix
      exact ⟨(root_of_parent hfix).symm, fun _ => rfl⟩
    · rename_i hne
      have hclimb := h.climb x hne
      have h' : Ranks (f.halve x).parent (f.halve x).height rank := by
        refine ⟨h.bound, ?_⟩
        intro y hy
        by_cases hyx : y = x
        · subst hyx
          rw [halve_parent_self]
          exact Nat.lt_of_lt_of_le hclimb (h.le_parent _)
        · have heq : (f.halve x).parent y = f.parent y := Function.update_of_ne hyx ..
          rw [heq] at hy ⊢
          exact h.climb y hy
      have hle := h.le_parent (f.parent x)
      obtain ⟨hr, hsame⟩ := ih h' (x := (f.halve x).parent x) (by
        rw [halve_parent_self]
        show f.height ≤ _
        omega)
      constructor
      · rw [hr, halve_root, halve_parent_self, root_parent, root_parent]
      · intro y
        rw [hsame, halve_root]

/-- **`find` returns the root**, and its halving moves none. -/
theorem find_root (f : Forest α) (x : α) :
    (f.find x).2 = f.root x ∧ ∀ y, (f.find x).1.root y = f.root y := by
  obtain ⟨rank, h⟩ := f.ranked
  exact findLoop_root h (by omega)

/-! ## `union` -/

/-- `parent[ra] = rb`, for another root `rb`. -/
def link (f : Forest α) (ra rb : α) (hne : ra ≠ rb) (hrb : f.parent rb = rb) :
    Forest α where
  parent := Function.update f.parent ra rb
  height := f.height + 1
  ranked := by
    obtain ⟨rank, h⟩ := f.ranked
    refine ⟨fun z => if z = rb then f.height + 1 else rank z, ?_, ?_⟩
    · intro z
      have := h.bound z
      show (if z = rb then f.height + 1 else rank z) ≤ f.height + 1
      split <;> omega
    · intro z hz
      by_cases hza : z = ra
      · subst hza
        rw [Function.update_self]
        have := h.bound z
        simp only [if_neg hne, if_true]
        omega
      · rw [Function.update_of_ne hza] at hz ⊢
        have hzb : z ≠ rb := by
          intro heq
          rw [heq] at hz
          exact hz hrb
        have h1 := h.climb z hz
        have h2 := h.bound z
        simp only [if_neg hzb]
        split <;> omega

theorem link_root {f : Forest α} {ra rb : α} (hne : ra ≠ rb) (hra : f.root ra = ra)
    (hrb : f.parent rb = rb) (y : α) :
    (f.link ra rb hne hrb).root y = if f.root y = ra then rb else f.root y := by
  have hbroot : f.root rb = rb := root_of_parent hrb
  have hconst : ∀ z, (if f.root ((f.link ra rb hne hrb).parent z) = ra then rb
      else f.root ((f.link ra rb hne hrb).parent z)) =
      if f.root z = ra then rb else f.root z := by
    intro z
    by_cases hz : z = ra
    · have heq : (f.link ra rb hne hrb).parent z = rb := by
        rw [hz]
        exact Function.update_self ..
      rw [heq, hbroot, hz, hra, if_pos rfl, if_neg (Ne.symm hne)]
    · have heq : (f.link ra rb hne hrb).parent z = f.parent z :=
        Function.update_of_ne hz ..
      rw [heq, root_parent]
  have hfix := (f.link ra rb hne hrb).parent_root y
  have hna : (f.link ra rb hne hrb).root y ≠ ra := by
    intro heq
    rw [heq] at hfix
    exact hne (hfix.symm.trans (Function.update_self ..))
  have heq : (f.link ra rb hne hrb).parent ((f.link ra rb hne hrb).root y) =
      f.parent ((f.link ra rb hne hrb).root y) := Function.update_of_ne hna ..
  rw [heq] at hfix
  have hself := root_of_parent hfix
  have hval := eq_at_root (g := fun z => if f.root z = ra then rb else f.root z) hconst y
  rw [hself, if_neg hna] at hval
  exact hval

/-- `union(a, b)`. What `find` returns is a root, so the second test only serves
the forest's invariant. -/
def union (f : Forest α) (a b : α) : Forest α :=
  let (f, ra) := f.find a
  let (f, rb) := f.find b
  if h : ra ≠ rb ∧ f.parent rb = rb then f.link ra rb h.1 h.2 else f

/-- **One union**: the tree of `a` gets the root of `b`. -/
theorem union_root (f : Forest α) (a b y : α) :
    (f.union a b).root y = if f.root y = f.root a then f.root b else f.root y := by
  obtain ⟨ha, hsame⟩ := f.find_root a
  obtain ⟨hb, hsame'⟩ := (f.find a).1.find_root b
  have hroots : ∀ z, ((f.find a).1.find b).1.root z = f.root z := by
    intro z
    rw [hsame', hsame]
  rw [hsame] at hb
  unfold union
  generalize f.find a = p at *
  obtain ⟨f₁, ra⟩ := p
  simp only at ha hb hroots ⊢
  generalize f₁.find b = q at *
  obtain ⟨f₂, rb⟩ := q
  simp only at hb hroots ⊢
  have hrb : f₂.parent rb = rb := by
    have := f₂.parent_root b
    rwa [hroots, ← hb] at this
  split
  · rename_i h
    rw [link_root h.1 (by rw [hroots, ha, root_root]) hrb, hroots, ha, hb]
  · rename_i h
    have heq : ra = rb := by
      by_contra hne
      exact h ⟨hne, hrb⟩
    rw [hroots]
    split
    · rename_i hy
      rw [hy, ← ha, heq, hb]
    · rfl

/-- A list of unions, in order. -/
def unions (f : Forest α) (ps : List (α × α)) : Forest α :=
  ps.foldl (fun f p => f.union p.1 p.2) f

/-- By induction on the unions: the trees are the classes of what was in one tree
before and of the united pairs. -/
theorem unions_root_iff (f : Forest α) (ps : List (α × α)) (x y : α) :
    (f.unions ps).root x = (f.unions ps).root y ↔
      EqvGen (fun a b => f.root a = f.root b ∨ (a, b) ∈ ps) x y := by
  induction ps generalizing f with
  | nil =>
    constructor
    · intro h
      exact .rel _ _ (.inl h)
    · intro h
      induction h with
      | rel _ _ h => exact h.resolve_right (by simp)
      | refl => rfl
      | symm _ _ _ ih => exact ih.symm
      | trans _ _ _ _ _ ih₁ ih₂ => exact ih₁.trans ih₂
  | cons p ps ih =>
    obtain ⟨a, b⟩ := p
    have hcons : f.unions ((a, b) :: ps) = (f.union a b).unions ps := rfl
    rw [hcons, ih]
    clear ih
    constructor
    · refine EqvGen.eqvGen_le ?_ x y
      intro u v h
      rcases h with h | h
      · -- one tree after the union: one before it, or the trees of `a` and `b`
        have hab : EqvGen (fun a' b' => f.root a' = f.root b' ∨ (a', b') ∈ (a, b) :: ps)
            a b := .rel _ _ (.inr (by simp))
        have hto : ∀ u c, f.root u = f.root c → EqvGen (fun a' b' =>
            f.root a' = f.root b' ∨ (a', b') ∈ (a, b) :: ps) u c :=
          fun u c h => .rel _ _ (.inl h)
        simp only [union_root] at h
        split at h <;> split at h
        · rename_i hu hv
          exact hto u v (hu.trans hv.symm)
        · rename_i hu hv
          exact (hto u a hu).trans _ _ _ (hab.trans _ _ _ (hto b v h))
        · rename_i hu hv
          exact (hto u b h).trans _ _ _ ((hab.symm _ _).trans _ _ _ (hto a v hv.symm))
        · exact hto u v h
      · exact .rel _ _ (.inr (List.mem_cons_of_mem _ h))
    · refine EqvGen.eqvGen_le ?_ x y
      intro u v h
      rcases h with h | h
      · exact .rel _ _ (.inl (by rw [union_root, union_root, h]))
      · rcases List.mem_cons.mp h with heq | h
        · obtain ⟨rfl, rfl⟩ := Prod.mk.inj heq
          exact .rel _ _ (.inl (by simp [union_root]))
        · exact .rel _ _ (.inr h)

/-- **Roots are connectivity.** -/
theorem unions_root (ps : List (α × α)) (x y : α) :
    ((singletons α).unions ps).root x = ((singletons α).unions ps).root y ↔
      EqvGen (fun a b => (a, b) ∈ ps) x y := by
  rw [unions_root_iff]
  constructor
  · refine EqvGen.eqvGen_le ?_ x y
    intro u v h
    rcases h with h | h
    · have heq : u = v := h
      rw [heq]
      exact .refl v
    · exact .rel _ _ h
  · refine EqvGen.eqvGen_le ?_ x y
    intro u v h
    exact .rel _ _ (.inr h)

end Forest

end Noezema.Lib
