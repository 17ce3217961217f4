import Mathlib.Data.List.Sort
import Noezema.Lib.Reach
import Noezema.Memory.Store

/-! # Reverse closures

`compute_reverse_closure`: the claims that transitively depend on a root, ranked
by their distance from it. The walk goes level by level; its state is a graph
search in the sense of `Lib.Search`, so what it returns is reachability.
-/

namespace Noezema.Memory

open Relation Noezema.Lib

/-- `v` is in the reverse closure of `root`: another claim that depends on it
through one evidential edge or more. -/
def InClosure (edges : List (ClaimId × ClaimId)) (root v : ClaimId) : Prop :=
  v ≠ root ∧ TransGen (Edge edges) v root

/-! ## The walk -/

/-- `reverse.get(node, ())`: the claims with an edge to `node`; a self-edge is not
entered. -/
def dependents (edges : List (ClaimId × ClaimId)) (node : ClaimId) : List ClaimId :=
  (edges.filter fun e => e.1 ≠ e.2 ∧ e.2 = node).map (·.1)

/-- `seen`, `depths` and `nxt`. -/
structure Walk where
  seen : List ClaimId
  depths : List (ClaimId × Nat)
  nxt : List ClaimId

/-- The body of the `for dep` loop. -/
def Walk.visit (depth : Nat) (w : Walk) (dep : ClaimId) : Walk :=
  if dep ∈ w.seen then w
  else ⟨dep :: w.seen, w.depths ++ [(dep, depth)], w.nxt ++ [dep]⟩

/-- The `for node in frontier` loop. -/
def Walk.level (edges : List (ClaimId × ClaimId)) (depth : Nat) :
    List ClaimId → Walk → Walk
  | [], w => w
  | node :: rest, w =>
    Walk.level edges depth rest ((dependents edges node).foldl (Walk.visit depth) w)

/-- The `while frontier` loop, with a bound on its iterations. -/
def walkLevels (edges : List (ClaimId × ClaimId)) :
    Nat → Nat → List ClaimId → List ClaimId → List (ClaimId × Nat) →
      List (ClaimId × Nat)
  | 0, _, _, _, depths => depths
  | n + 1, depth, frontier, seen, depths =>
    if frontier = [] then depths
    else
      let w := Walk.level edges (depth + 1) frontier ⟨seen, depths, []⟩
      walkLevels edges n (depth + 1) w.nxt w.seen w.depths

/-- The order `sorted(depths, key=lambda c: (depths[c], c))` sorts by. -/
def rankLe (a b : ClaimId × Nat) : Prop := a.2 < b.2 ∨ a.2 = b.2 ∧ a.1 ≤ b.1

instance : DecidableRel rankLe := fun a b =>
  inferInstanceAs (Decidable (a.2 < b.2 ∨ a.2 = b.2 ∧ a.1 ≤ b.1))

/-- The reverse closure of a root claim (root excluded). -/
structure ClosureResult where
  root : ClaimId
  graphRevision : Nat
  claimIds : List ClaimId
  ranks : List (ClaimId × Nat)
deriving DecidableEq, Repr

def ClosureResult.count (c : ClosureResult) : Nat := c.claimIds.length

/-- One durable cursor window of the ordered closure. -/
def ClosureResult.batch (c : ClosureResult) (offset size : Nat) : List ClaimId :=
  (c.claimIds.drop offset).take size

/-- Every level but the last sees a new source of an edge, so one iteration for
each edge and one for the empty frontier is enough. -/
def computeReverseClosure (edges : List (ClaimId × ClaimId)) (root : ClaimId)
    (graphRevision : Nat) : ClosureResult :=
  let depths := walkLevels edges (edges.length + 1) 0 [root] [root] []
  let ordered := depths.insertionSort rankLe
  ⟨root, graphRevision, ordered.map (·.1), ordered⟩

/-! ## The walk is a search -/

/-- The step relation of the walk: from a claim to one that depends on it. -/
def DependedOn (edges : List (ClaimId × ClaimId)) (a b : ClaimId) : Prop :=
  b ∈ dependents edges a

theorem dependedOn_iff {edges : List (ClaimId × ClaimId)} {a b : ClaimId} :
    DependedOn edges a b ↔ Edge edges b a ∧ b ≠ a := by
  unfold DependedOn dependents Edge
  simp only [List.mem_map, List.mem_filter, decide_eq_true_eq]
  constructor
  · rintro ⟨⟨x, y⟩, ⟨hmem, hne, rfl⟩, rfl⟩
    exact ⟨hmem, hne⟩
  · rintro ⟨hmem, hne⟩
    exact ⟨(b, a), ⟨hmem, hne, rfl⟩, rfl⟩

/-- Self-edges change nothing: the walk reaches what depends on the root. -/
theorem reaches_iff {edges : List (ClaimId × ClaimId)} {root v : ClaimId} :
    ReflTransGen (DependedOn edges) root v ↔ ReflTransGen (Edge edges) v root := by
  constructor
  · intro h
    induction h with
    | refl => exact .refl
    | tail _ hbc ih => exact .head (dependedOn_iff.mp hbc).1 ih
  · intro h
    induction h using ReflTransGen.head_induction_on with
    | refl => exact .refl
    | @head a b hab _ ih =>
      by_cases heq : a = b
      · rw [heq]
        exact ih
      · exact ih.tail (dependedOn_iff.mpr ⟨hab, heq⟩)

/-- The claims that have a rank are the seen ones other than the root. -/
def Walk.Ranked (root : ClaimId) (w : Walk) : Prop :=
  ∀ v, v ∈ w.depths.map (·.1) ↔ v ∈ w.seen ∧ v ≠ root

/-- What the `for dep` loops leave behind: the dependents are seen, the new ones
are in `nxt` and have a rank, and every new claim is paid for by an unseen one. -/
structure Walk.Grows (nodes : List ClaimId) (root : ClaimId) (deps : List ClaimId)
    (w w' : Walk) : Prop where
  seen : ∀ v, v ∈ w'.seen ↔ v ∈ w.seen ∨ v ∈ deps
  kept : ∀ v ∈ w.nxt, v ∈ w'.nxt
  fresh : ∀ v ∈ w'.seen, v ∈ w.seen ∨ v ∈ w'.nxt
  nxt : ∀ v ∈ w'.nxt, v ∈ w.nxt ∨ v ∈ deps
  ranked : root ∈ w.seen → w.Ranked root → w'.Ranked root
  measure : unseen nodes w'.seen + w'.nxt.length =
    unseen nodes w.seen + w.nxt.length

theorem Walk.visit_grows {nodes : List ClaimId} {dep : ClaimId} (depth : Nat)
    (root : ClaimId) (w : Walk) (hdep : dep ∈ nodes) :
    Walk.Grows nodes root [dep] w (w.visit depth dep) := by
  unfold Walk.visit
  split
  · rename_i hseen
    exact {
      seen := by
        intro v
        simp only [List.mem_singleton]
        constructor
        · exact .inl
        · rintro (h | rfl)
          · exact h
          · exact hseen
      kept := fun _ h => h
      fresh := fun _ h => .inl h
      nxt := fun _ h => .inl h
      ranked := fun _ h => h
      measure := rfl }
  · rename_i hseen
    exact {
      seen := by
        intro v
        simp only [List.mem_cons, List.not_mem_nil, or_false]
        exact Or.comm
      kept := fun v h => List.mem_append_left _ h
      fresh := by
        intro v hv
        rcases List.mem_cons.mp hv with rfl | hv
        · exact .inr (by simp)
        · exact .inl hv
      nxt := fun v h => List.mem_append.mp h
      ranked := by
        intro hroot h v
        have hv := h v
        simp only [List.map_append, List.map_cons, List.map_nil, List.mem_append, hv,
          List.mem_cons, List.not_mem_nil, or_false]
        constructor
        · rintro (⟨hs, hne⟩ | rfl)
          · exact ⟨.inr hs, hne⟩
          · refine ⟨.inl rfl, ?_⟩
            intro heq
            exact hseen (heq ▸ hroot)
        · rintro ⟨rfl | hs, hne⟩
          · exact .inr rfl
          · exact .inl ⟨hs, hne⟩
      measure := by
        have := unseen_cons hdep hseen
        simp only [List.length_append, List.length_singleton]
        omega }

theorem Walk.Grows.trans {nodes : List ClaimId} {root : ClaimId}
    {ds es : List ClaimId} {w w₁ w₂ : Walk} (h₁ : Walk.Grows nodes root ds w w₁)
    (h₂ : Walk.Grows nodes root es w₁ w₂) : Walk.Grows nodes root (ds ++ es) w w₂ where
  seen := by
    intro v
    rw [h₂.seen, h₁.seen, List.mem_append, or_assoc]
  kept := fun v h => h₂.kept v (h₁.kept v h)
  fresh := by
    intro v hv
    rcases h₂.fresh v hv with h | h
    · rcases h₁.fresh v h with h | h
      · exact .inl h
      · exact .inr (h₂.kept v h)
    · exact .inr h
  nxt := by
    intro v hv
    rw [List.mem_append]
    rcases h₂.nxt v hv with h | h
    · rcases h₁.nxt v h with h | h
      · exact .inl h
      · exact .inr (.inl h)
    · exact .inr (.inr h)
  ranked := by
    intro hroot h
    exact h₂.ranked ((h₁.seen root).mpr (.inl hroot)) (h₁.ranked hroot h)
  measure := h₂.measure.trans h₁.measure

theorem Walk.foldl_grows {nodes : List ClaimId} (depth : Nat) (root : ClaimId)
    {deps : List ClaimId} (w : Walk) (hdeps : ∀ d ∈ deps, d ∈ nodes) :
    Walk.Grows nodes root deps w (deps.foldl (Walk.visit depth) w) := by
  induction deps generalizing w with
  | nil =>
    exact ⟨by simp, fun _ h => h, fun _ h => .inl h, fun _ h => .inl h, fun _ h => h, rfl⟩
  | cons d ds ih =>
    have hd := Walk.visit_grows depth root w (hdeps d (by simp))
    exact hd.trans (ih _ fun e he => hdeps e (by simp [he]))

theorem dependents_sub (edges : List (ClaimId × ClaimId)) (node : ClaimId) :
    ∀ d ∈ dependents edges node, d ∈ edges.map (·.1) := by
  intro d hd
  exact List.mem_map.mpr ⟨(d, node), (dependedOn_iff.mp hd).1, rfl⟩

/-- One level: a search with `frontier` to expand becomes one with `nxt` to
expand. -/
theorem Walk.level_search {edges : List (ClaimId × ClaimId)} {root : ClaimId}
    {depth : Nat} {frontier : List ClaimId} {w : Walk}
    (hs : Search (DependedOn edges) root w.seen (frontier ++ w.nxt))
    (hr : w.Ranked root) :
    Search (DependedOn edges) root (Walk.level edges depth frontier w).seen
        (Walk.level edges depth frontier w).nxt ∧
      (Walk.level edges depth frontier w).Ranked root ∧
      unseen (edges.map (·.1)) (Walk.level edges depth frontier w).seen +
          (Walk.level edges depth frontier w).nxt.length =
        unseen (edges.map (·.1)) w.seen + w.nxt.length := by
  induction frontier generalizing w with
  | nil => exact ⟨hs, hr, rfl⟩
  | cons node rest ih =>
    simp only [Walk.level]
    have hg := Walk.foldl_grows depth root w (dependents_sub edges node)
    generalize (dependents edges node).foldl (Walk.visit depth) w = w' at hg ⊢
    have hs' : Search (DependedOn edges) root w'.seen (rest ++ w'.nxt) := by
      refine hs.expand (hs.todo_sub node (by simp)) ?_ ?_ ?_ ?_ ?_
      · intro v hv
        exact (hg.seen v).mpr (.inl hv)
      · intro v hv
        by_cases hold : v ∈ w.seen
        · exact .inl hold
        · have hdep := ((hg.seen v).mp hv).resolve_left hold
          have hnxt := (hg.fresh v hv).resolve_left hold
          exact .inr ⟨hdep, List.mem_append_right _ hnxt⟩
      · intro v hv
        rcases List.mem_append.mp hv with hv | hv
        · rcases List.mem_cons.mp hv with rfl | hv
          · exact .inl rfl
          · exact .inr (List.mem_append_left _ hv)
        · exact .inr (List.mem_append_right _ (hg.kept v hv))
      · intro v hv
        rw [hg.seen]
        rcases List.mem_append.mp hv with hv | hv
        · exact .inl (hs.todo_sub v (by simp [hv]))
        · rcases hg.nxt v hv with h | h
          · exact .inl (hs.todo_sub v (by simp [h]))
          · exact .inr h
      · intro v hv
        exact (hg.seen v).mpr (.inr hv)
    obtain ⟨h1, h2, h3⟩ := ih hs' (hg.ranked hs.root_mem hr)
    exact ⟨h1, h2, h3.trans hg.measure⟩

/-- The whole walk: with enough iterations left it ranks exactly what the root
reaches, other than the root. -/
theorem mem_walkLevels {edges : List (ClaimId × ClaimId)} {root v : ClaimId}
    {n depth : Nat} {frontier seen : List ClaimId} {depths : List (ClaimId × Nat)}
    (hs : Search (DependedOn edges) root seen frontier)
    (hr : Walk.Ranked root ⟨seen, depths, []⟩)
    (fuel : frontier = [] ∨ unseen (edges.map (·.1)) seen < n) :
    v ∈ (walkLevels edges n depth frontier seen depths).map (·.1) ↔
      v ≠ root ∧ ReflTransGen (DependedOn edges) root v := by
  induction n generalizing depth frontier seen depths with
  | zero =>
    have hnil : frontier = [] := fuel.resolve_right (by omega)
    subst hnil
    rw [walkLevels, hr v, hs.done]
    exact And.comm
  | succ n ih =>
    simp only [walkLevels]
    split
    · rename_i hnil
      subst hnil
      rw [hr v, hs.done]
      exact And.comm
    · rename_i hne
      have hsearch := @Walk.level_search edges root (depth + 1) frontier
        ⟨seen, depths, []⟩ (by simpa using hs) hr
      generalize Walk.level edges (depth + 1) frontier ⟨seen, depths, []⟩ = w at hsearch ⊢
      obtain ⟨hs', hr', hm⟩ := hsearch
      refine ih hs' hr' ?_
      have hlt := fuel.resolve_left hne
      simp only [List.length_nil] at hm
      by_cases hnxt : w.nxt = []
      · exact .inl hnxt
      · have : 0 < w.nxt.length := List.length_pos_iff.mpr hnxt
        exact .inr (by omega)

/-- **`compute_reverse_closure` is the reverse closure**, on every graph. -/
theorem mem_computeReverseClosure {edges : List (ClaimId × ClaimId)}
    {root v : ClaimId} {revision : Nat} :
    v ∈ (computeReverseClosure edges root revision).claimIds ↔
      InClosure edges root v := by
  have hwalk : v ∈ (walkLevels edges (edges.length + 1) 0 [root] [root] []).map (·.1) ↔
      v ≠ root ∧ ReflTransGen (DependedOn edges) root v := by
    refine mem_walkLevels (.start _ _) ?_ ?_
    · intro u
      simp
    · have := unseen_le (edges.map (·.1)) [root]
      simp only [List.length_map] at this
      exact .inr (by omega)
  have hsort : v ∈ (computeReverseClosure edges root revision).claimIds ↔
      v ∈ (walkLevels edges (edges.length + 1) 0 [root] [root] []).map (·.1) := by
    simp only [computeReverseClosure, List.mem_map, List.mem_insertionSort]
  rw [hsort, hwalk, reaches_iff, InClosure]
  constructor
  · rintro ⟨hne, hr⟩
    rcases reflTransGen_iff_eq_or_transGen.mp hr with heq | hp
    · exact absurd heq.symm hne
    · exact ⟨hne, hp⟩
  · rintro ⟨hne, hp⟩
    exact ⟨hne, hp.to_reflTransGen⟩

theorem InClosure.mono {es es' : List (ClaimId × ClaimId)} {root v : ClaimId}
    (h : InClosure es root v) (hsub : ∀ x ∈ es, x ∈ es') : InClosure es' root v :=
  ⟨h.1, TransGen.mono (fun _ _ hab => hsub _ hab) _ _ h.2⟩

/-- What depends on the root or on its closure is in the closure, but for the root. -/
theorem InClosure.of_edge {es : List (ClaimId × ClaimId)} {root d e : ClaimId}
    (hedge : (d, e) ∈ es) (hne : d ≠ root) (he : e = root ∨ InClosure es root e) :
    InClosure es root d := by
  refine ⟨hne, ?_⟩
  rcases he with rfl | he
  · exact .single hedge
  · exact .head hedge he.2

/-- A diamond under the root `1`, with the root's own dependency left out. -/
example : (computeReverseClosure [(2, 1), (3, 1), (4, 3), (4, 2), (1, 9)] 1 7).ranks =
    [(2, 1), (3, 1), (4, 2)] := by decide

end Noezema.Memory
