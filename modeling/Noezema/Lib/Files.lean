import Noezema.Lib.Entries
import Mathlib.Order.Defs.LinearOrder
import Mathlib.Order.Lattice

/-! # A directory of files

A directory is the list of its files in the order of their names; a name occurs
once. `put` writes a file whole, replacing the one of its name, and `get` reads one.
-/

namespace Noezema.Lib

variable {α κ : Type*} [LinearOrder κ] (name : α → κ)

/-- Write one file. -/
def put (x : α) (dir : List α) : List α :=
  dir.filter (fun y => name y < name x) ++ x :: dir.filter (fun y => name x < name y)

/-- Read the file of a name. -/
def get (n : κ) (dir : List α) : Option α := dir.find? fun y => name y = n

/-- No two files of one name. -/
def Distinct (dir : List α) : Prop := (dir.map name).Nodup

variable {name}

theorem mem_put {x y : α} {dir : List α} :
    y ∈ put name x dir ↔ y = x ∨ (y ∈ dir ∧ name y ≠ name x) := by
  simp only [put, List.mem_append, List.mem_cons, List.mem_filter, decide_eq_true_eq]
  constructor
  · rintro (⟨hy, hlt⟩ | rfl | ⟨hy, hlt⟩)
    · exact .inr ⟨hy, ne_of_lt hlt⟩
    · exact .inl rfl
    · exact .inr ⟨hy, ne_of_gt hlt⟩
  · rintro (rfl | ⟨hy, hne⟩)
    · exact .inr (.inl rfl)
    · rcases lt_or_gt_of_ne hne with hlt | hlt
      · exact .inl ⟨hy, hlt⟩
      · exact .inr (.inr ⟨hy, hlt⟩)

theorem Distinct.put {dir : List α} (h : Distinct name dir) (x : α) :
    Distinct name (put name x dir) := by
  unfold Distinct at h ⊢
  have hbelow : ∀ y ∈ dir.filter (fun y => name y < name x), name y < name x := by
    intro y hy
    simpa using (List.mem_filter.mp hy).2
  have habove : ∀ y ∈ dir.filter (fun y => name x < name y), name x < name y := by
    intro y hy
    simpa using (List.mem_filter.mp hy).2
  simp only [Lib.put, List.map_append, List.map_cons]
  refine List.nodup_append'.mpr ⟨?_, List.nodup_cons.mpr ⟨?_, ?_⟩, ?_⟩
  · exact h.sublist (List.filter_sublist.map name)
  · intro hmem
    obtain ⟨y, hy, heq⟩ := List.mem_map.mp hmem
    exact absurd heq (ne_of_gt (habove y hy))
  · exact h.sublist (List.filter_sublist.map name)
  · intro k hk hk'
    obtain ⟨y, hy, rfl⟩ := List.mem_map.mp hk
    have hlt := hbelow y hy
    rcases List.mem_cons.mp hk' with heq | hmem
    · exact absurd heq (ne_of_lt hlt)
    · obtain ⟨z, hz, heq⟩ := List.mem_map.mp hmem
      exact absurd heq (ne_of_gt (lt_trans hlt (habove z hz)))

/-- A file whose name comes after all others goes to the end. -/
theorem put_last {x : α} {dir : List α} (h : ∀ y ∈ dir, name y < name x) :
    put name x dir = dir ++ [x] := by
  have hall : dir.filter (fun y => name y < name x) = dir :=
    List.filter_eq_self.mpr fun y hy => by simpa using h y hy
  have hnone : dir.filter (fun y => name x < name y) = [] :=
    List.filter_eq_nil_iff.mpr fun y hy => by simpa using le_of_lt (h y hy)
  rw [put, hall, hnone]

theorem get_eq_some {n : κ} {x : α} {dir : List α} (h : Distinct name dir) :
    get name n dir = some x ↔ x ∈ dir ∧ name x = n :=
  find?_key_eq_some h

theorem get_eq_none {n : κ} {dir : List α} :
    get name n dir = none ↔ ∀ x ∈ dir, name x ≠ n := by
  simp [get]

end Noezema.Lib
