import Mathlib.Logic.Relation
import Mathlib.Data.Finset.Card
import Mathlib.Data.Finset.Dedup

/-! # Reachability in a finite graph

Graph searches keep a set of seen nodes and a set of nodes still to expand.
`Search` is what such a search keeps true between two expansions, whatever the
order it expands in; `Search.done` reads reachability off a finished search.
`unseen` is the measure that bounds its expansions.

The second half is about cycles: deleting from a graph every new edge that lies
on a cycle leaves no cycle that was not there before.
-/

namespace Noezema.Lib

open Relation

variable {α : Type*}

/-- The edge relation of an edge list. -/
def Edge (es : List (α × α)) (a b : α) : Prop := (a, b) ∈ es

/-- No node reaches itself along one edge or more. -/
def Acyclic (R : α → α → Prop) : Prop := ∀ v, ¬ TransGen R v v

/-- The edge `e` of `es` closes a cycle: its target reaches its source. -/
def OnCycle (es : List (α × α)) (e : α × α) : Prop :=
  e ∈ es ∧ ReflTransGen (Edge es) e.2 e.1

/-! ## Searches -/

/-- **The search invariant.** `seen` holds the root and only nodes it reaches,
`todo` is a part of `seen`, and a seen node that is not in `todo` has all its
successors seen. -/
structure Search (R : α → α → Prop) (root : α) (seen todo : List α) : Prop where
  root_mem : root ∈ seen
  sound : ∀ v ∈ seen, ReflTransGen R root v
  todo_sub : ∀ v ∈ todo, v ∈ seen
  closed : ∀ v ∈ seen, v ∉ todo → ∀ w, R v w → w ∈ seen

theorem Search.start (R : α → α → Prop) (root : α) :
    Search R root [root] [root] where
  root_mem := by simp
  sound := by
    intro v hv
    rw [List.mem_singleton.mp hv]
  todo_sub := fun _ h => h
  closed := fun v hv hn => absurd hv hn

/-- One expansion: `v` leaves `todo`, its successors are seen, and the nodes seen
for the first time are in the new `todo`. -/
theorem Search.expand {R : α → α → Prop} {root v : α}
    {seen todo seen' todo' : List α} (h : Search R root seen todo)
    (hv : v ∈ seen)
    (sub : ∀ w ∈ seen, w ∈ seen')
    (fresh : ∀ w ∈ seen', w ∈ seen ∨ (R v w ∧ w ∈ todo'))
    (kept : ∀ w ∈ todo, w = v ∨ w ∈ todo')
    (todo_sub : ∀ w ∈ todo', w ∈ seen')
    (all : ∀ w, R v w → w ∈ seen') : Search R root seen' todo' where
  root_mem := sub _ h.root_mem
  sound := by
    intro w hw
    rcases fresh w hw with hs | ⟨hr, -⟩
    · exact h.sound w hs
    · exact (h.sound v hv).tail hr
  todo_sub := todo_sub
  closed := by
    intro w hw hn x hx
    rcases fresh w hw with hs | ⟨-, ht⟩
    · by_cases hwt : w ∈ todo
      · rcases kept w hwt with rfl | ht
        · exact all x hx
        · exact absurd ht hn
      · exact sub x (h.closed w hs hwt x hx)
    · exact absurd ht hn

/-- A finished search has seen exactly what the root reaches. -/
theorem Search.done {R : α → α → Prop} {root : α} {seen : List α}
    (h : Search R root seen []) (v : α) :
    v ∈ seen ↔ ReflTransGen R root v := by
  constructor
  · exact h.sound v
  · intro hr
    induction hr with
    | refl => exact h.root_mem
    | tail _ hbc ih => exact h.closed _ ih (by simp) _ hbc

/-- How many of `nodes` a search has not seen. -/
def unseen [DecidableEq α] (nodes seen : List α) : Nat :=
  (nodes.toFinset \ seen.toFinset).card

theorem unseen_le [DecidableEq α] (nodes seen : List α) :
    unseen nodes seen ≤ nodes.length :=
  (Finset.card_le_card Finset.sdiff_subset).trans nodes.toFinset_card_le

/-- Seeing one node for the first time lowers the measure by one. -/
theorem unseen_cons [DecidableEq α] {nodes seen : List α} {v : α}
    (hn : v ∈ nodes) (hs : v ∉ seen) :
    unseen nodes (v :: seen) + 1 = unseen nodes seen := by
  have hmem : v ∈ nodes.toFinset \ seen.toFinset := by simp [hn, hs]
  have heq : nodes.toFinset \ (v :: seen).toFinset =
      (nodes.toFinset \ seen.toFinset).erase v := by
    ext w
    simp only [List.toFinset_cons, Finset.mem_sdiff, Finset.mem_insert,
      Finset.mem_erase]
    tauto
  rw [unseen, heq, Finset.card_erase_add_one hmem, unseen]

/-! ## Cycles -/

theorem Acyclic.mono {R S : α → α → Prop} (h : Acyclic S)
    (hsub : ∀ a b, R a b → S a b) : Acyclic R :=
  fun v hv => h v (TransGen.mono hsub v v hv)

/-- A path of `R ∪ S` is a path of `R` or goes through an edge of `S`. -/
theorem transGen_union {R S : α → α → Prop} {x y : α}
    (h : TransGen (fun a b => R a b ∨ S a b) x y) :
    TransGen R x y ∨ ∃ a b, S a b ∧
      ReflTransGen (fun a b => R a b ∨ S a b) x a ∧
      ReflTransGen (fun a b => R a b ∨ S a b) b y := by
  induction h with
  | single hxb =>
    rcases hxb with hr | hs
    · exact .inl (.single hr)
    · exact .inr ⟨_, _, hs, .refl, .refl⟩
  | tail hxb hbc ih =>
    rcases hbc with hr | hs
    · rcases ih with hp | ⟨a, b, hab, hxa, hby⟩
      · exact .inl (hp.tail hr)
      · exact .inr ⟨a, b, hab, hxa, hby.tail (.inl hr)⟩
    · exact .inr ⟨_, _, hs, hxb.to_reflTransGen, .refl⟩

/-- **Cutting the cycles.** If no edge of `S` has its target reach its source in
`R ∪ S`, a cycle of `R ∪ S` is already one of `R`. -/
theorem Acyclic.union {R S : α → α → Prop} (hR : Acyclic R)
    (hS : ∀ a b, S a b → ¬ ReflTransGen (fun a b => R a b ∨ S a b) b a) :
    Acyclic (fun a b => R a b ∨ S a b) := by
  intro v hv
  rcases transGen_union hv with hp | ⟨a, b, hab, hva, hbv⟩
  · exact hR v hp
  · exact hS a b hab (hbv.trans hva)

end Noezema.Lib
