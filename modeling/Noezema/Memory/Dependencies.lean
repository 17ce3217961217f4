import Noezema.Lib.Run
import Noezema.Lib.Reach
import Noezema.Memory.Store

/-! # Claim dependencies at the commit boundary

The dependency section of `apply_claim_staging`: a session commit proposes, for
each of its claims, a list of dependencies; malformed, dangling and non-current
ones are rejected with a reason, `find_evidential_cycles` drops the evidential
edges that would close a cycle, and the rest is inserted once. The results are
that the check finds exactly the edges on a cycle and that the stored evidential
graph stays acyclic over every sequence of commits.
-/

namespace Noezema.Memory

open Relation Noezema.Lib

/-! ## `find_evidential_cycles` -/

section FindEvidentialCycles

variable {α : Type*} [DecidableEq α]

/-- `graph.get(node, ())`: the targets of the node's edges, in list order. -/
def successors (es : List (α × α)) (node : α) : List α :=
  (es.filter fun e => e.1 = node).map (·.2)

/-- The `for nxt in graph.get(node, ())` loop over `visited` and `stack`. `none`
is its `break` with `cyclic = True`. -/
def scanSuccessors (src : α) : List α → List α → List α →
    Option (List α × List α)
  | [], visited, stack => some (visited, stack)
  | nxt :: rest, visited, stack =>
    if nxt = src then none
    else if nxt ∈ visited then scanSuccessors src rest visited stack
    else scanSuccessors src rest (nxt :: visited) (nxt :: stack)

/-- The `while stack` loop, with a bound on its iterations. -/
def searchCycle (graph : List (α × α)) (src : α) : Nat → List α → List α → Bool
  | 0, _, _ => false
  | _ + 1, _, [] => false
  | n + 1, visited, node :: stack =>
    match scanSuccessors src (successors graph node) visited stack with
    | none => true
    | some (visited, stack) => searchCycle graph src n visited stack

/-- The search for one new edge. A node is pushed only when it is seen for the
first time, so one iteration for each edge and one for `dst` is enough. -/
def closesCycle (graph : List (α × α)) (e : α × α) : Bool :=
  searchCycle graph e.1 (graph.length + 2) [e.2] [e.2]

/-- Indices of `new` edges that would create a cycle in the evidential DAG. -/
def findEvidentialCycles (existing new : List (α × α)) : List Nat :=
  (List.range new.length).filter fun i =>
    (new[i]?).any fun e => closesCycle (existing ++ new) e

theorem mem_successors {es : List (α × α)} {a b : α} :
    b ∈ successors es a ↔ Edge es a b := by
  constructor
  · intro h
    obtain ⟨e, he, rfl⟩ := List.mem_map.mp h
    obtain ⟨hmem, hsrc⟩ := List.mem_filter.mp he
    have : e.1 = a := by simpa using hsrc
    subst this
    exact hmem
  · intro h
    exact List.mem_map.mpr ⟨(a, b), List.mem_filter.mpr ⟨h, by simp⟩, rfl⟩

/-- What the inner loop does when it runs to its end: `src` is not among the
successors, and the unseen ones enter `visited` and `stack` together. -/
theorem scanSuccessors_some {src : α} {ns visited stack v' s' : List α}
    (h : scanSuccessors src ns visited stack = some (v', s')) :
    src ∉ ns ∧ (∀ w, w ∈ v' ↔ w ∈ visited ∨ w ∈ ns) ∧
      (∀ w ∈ stack, w ∈ s') ∧
      (∀ w ∈ s', w ∈ stack ∨ (w ∈ ns ∧ w ∈ v')) ∧
      (∀ w ∈ v', w ∈ visited ∨ w ∈ s') := by
  induction ns generalizing visited stack with
  | nil =>
    simp only [scanSuccessors, Option.some.injEq, Prod.mk.injEq] at h
    obtain ⟨rfl, rfl⟩ := h
    simp +contextual
  | cons n ns ih =>
    simp only [scanSuccessors] at h
    split at h
    · exact absurd h (by simp)
    · rename_i hne
      split at h
      · rename_i hvis
        obtain ⟨h1, h2, h3, h4, h5⟩ := ih h
        refine ⟨by simp [h1, Ne.symm hne], ?_, h3, ?_, h5⟩
        · intro w
          rw [h2, List.mem_cons]
          constructor
          · rintro (hw | hw)
            · exact .inl hw
            · exact .inr (.inr hw)
          · rintro (hw | rfl | hw)
            · exact .inl hw
            · exact .inl hvis
            · exact .inr hw
        · intro w hw
          rcases h4 w hw with hs | ⟨hn, hv⟩
          · exact .inl hs
          · exact .inr ⟨List.mem_cons_of_mem _ hn, hv⟩
      · obtain ⟨h1, h2, h3, h4, h5⟩ := ih h
        refine ⟨by simp [h1, Ne.symm hne], ?_, ?_, ?_, ?_⟩
        · intro w
          rw [h2, List.mem_cons, List.mem_cons]
          tauto
        · intro w hw
          exact h3 w (List.mem_cons_of_mem _ hw)
        · intro w hw
          rcases h4 w hw with hs | ⟨hn, hv⟩
          · rcases List.mem_cons.mp hs with rfl | hs
            · exact .inr ⟨by simp, (h2 _).mpr (.inl (by simp))⟩
            · exact .inl hs
          · exact .inr ⟨List.mem_cons_of_mem _ hn, hv⟩
        · intro w hw
          rcases h5 w hw with hv | hs
          · rcases List.mem_cons.mp hv with rfl | hv
            · exact .inr (h3 _ (by simp))
            · exact .inl hv
          · exact .inr hs

theorem scanSuccessors_none {src : α} {ns visited stack : List α} :
    scanSuccessors src ns visited stack = none ↔ src ∈ ns := by
  induction ns generalizing visited stack with
  | nil => simp [scanSuccessors]
  | cons n ns ih =>
    simp only [scanSuccessors]
    split
    · rename_i heq
      simp [heq]
    · rename_i hne
      split <;> rw [ih] <;> simp [Ne.symm hne]

/-- The inner loop trades unseen targets for stack entries. -/
theorem scanSuccessors_measure {src : α} {ns visited stack v' s' : List α}
    (nodes : List α)
    (h : scanSuccessors src ns visited stack = some (v', s'))
    (hns : ∀ n ∈ ns, n ∈ nodes) :
    unseen nodes v' + s'.length = unseen nodes visited + stack.length := by
  induction ns generalizing visited stack with
  | nil =>
    simp only [scanSuccessors, Option.some.injEq, Prod.mk.injEq] at h
    obtain ⟨rfl, rfl⟩ := h
    rfl
  | cons n ns ih =>
    simp only [scanSuccessors] at h
    split at h
    · exact absurd h (by simp)
    · split at h
      · exact ih h fun m hm => hns m (List.mem_cons_of_mem _ hm)
      · rename_i hvis
        rw [ih h fun m hm => hns m (List.mem_cons_of_mem _ hm)]
        have := unseen_cons (hns n (by simp)) hvis
        simp only [List.length_cons]
        omega

/-- **The outer loop.** With enough iterations left, the search from a root
answers whether the root reaches `src` along one edge or more. `clear` is what
the early exit leaves behind: an expanded node has no edge to `src`. -/
theorem searchCycle_iff {graph : List (α × α)} {src root : α} {n : Nat}
    {visited stack : List α}
    (hs : Search (Edge graph) root visited stack)
    (clear : ∀ v ∈ visited, v ∉ stack → ¬ Edge graph v src)
    (fuel : unseen (graph.map (·.2)) visited + stack.length < n) :
    searchCycle graph src n visited stack = true ↔
      TransGen (Edge graph) root src := by
  induction n generalizing visited stack with
  | zero => omega
  | succ n ih =>
    cases stack with
    | nil =>
      simp only [searchCycle, Bool.false_eq_true, false_iff]
      intro hp
      obtain ⟨v, hrv, hvs⟩ := TransGen.tail'_iff.mp hp
      exact clear v ((hs.done v).mpr hrv) (by simp) hvs
    | cons node stack =>
      simp only [searchCycle]
      have hnode : node ∈ visited := hs.todo_sub node (by simp)
      cases hscan : scanSuccessors src (successors graph node) visited stack with
      | none =>
        have hedge := mem_successors.mp (scanSuccessors_none.mp hscan)
        simp only [true_iff]
        exact TransGen.tail' (hs.sound node hnode) hedge
      | some p =>
        obtain ⟨v', s'⟩ := p
        obtain ⟨hsrc, hv', hkeep, hs', hnew⟩ := scanSuccessors_some hscan
        have hmeas := scanSuccessors_measure (graph.map (·.2)) hscan
          (fun m hm => List.mem_map.mpr ⟨(node, m), mem_successors.mp hm, rfl⟩)
        refine ih ?_ ?_ ?_
        · refine hs.expand hnode (fun w hw => (hv' w).mpr (.inl hw)) ?_ ?_ ?_ ?_
          · intro w hw
            by_cases hwv : w ∈ visited
            · exact .inl hwv
            · have hwn := ((hv' w).mp hw).resolve_left hwv
              exact .inr ⟨mem_successors.mp hwn, (hnew w hw).resolve_left hwv⟩
          · intro w hw
            rcases List.mem_cons.mp hw with rfl | hw
            · exact .inl rfl
            · exact .inr (hkeep w hw)
          · intro w hw
            rcases hs' w hw with hst | ⟨-, hv⟩
            · exact (hv' w).mpr (.inl (hs.todo_sub w (by simp [hst])))
            · exact hv
          · intro w hw
            exact (hv' w).mpr (.inr (mem_successors.mpr hw))
        · intro w hw hns hedge
          rcases hnew w hw with hv | hst
          · by_cases hwn : w = node
            · subst hwn
              exact hsrc (mem_successors.mpr hedge)
            · refine clear w hv ?_ hedge
              intro hmem
              rcases List.mem_cons.mp hmem with rfl | hmem
              · exact hwn rfl
              · exact hns (hkeep w hmem)
          · exact hns hst
        · simp only [List.length_cons] at fuel
          omega

theorem closesCycle_iff {graph : List (α × α)} {e : α × α} :
    closesCycle graph e = true ↔ TransGen (Edge graph) e.2 e.1 := by
  refine searchCycle_iff (.start _ _) (fun v hv hn => absurd hv hn) ?_
  have := unseen_le (graph.map (·.2)) [e.2]
  simp only [List.length_map] at this
  simp only [List.length_singleton]
  omega

/-- **The cycle check is exact.** An edge of the graph is reported iff it lies
on a cycle. -/
theorem closesCycle_iff_onCycle {graph : List (α × α)} {e : α × α}
    (he : e ∈ graph) : closesCycle graph e = true ↔ OnCycle graph e := by
  rw [closesCycle_iff, OnCycle]
  constructor
  · intro h
    exact ⟨he, h.to_reflTransGen⟩
  · rintro ⟨-, h⟩
    rcases Relation.reflTransGen_iff_eq_or_transGen.mp h with heq | hp
    · have hswap : (e.2, e.1) = e := Prod.ext heq.symm heq
      refine .single ?_
      rw [Edge, hswap]
      exact he
    · exact hp

theorem mem_findEvidentialCycles {existing new : List (α × α)} {i : Nat} :
    i ∈ findEvidentialCycles existing new ↔
      ∃ e, new[i]? = some e ∧ OnCycle (existing ++ new) e := by
  simp only [findEvidentialCycles, List.mem_filter, List.mem_range]
  constructor
  · rintro ⟨hi, hc⟩
    rw [List.getElem?_eq_getElem hi, Option.any_some] at hc
    have hmem : new[i] ∈ existing ++ new := by simp
    exact ⟨new[i], List.getElem?_eq_getElem hi, (closesCycle_iff_onCycle hmem).mp hc⟩
  · rintro ⟨e, he, hc⟩
    obtain ⟨hi, rfl⟩ := List.getElem?_eq_some_iff.mp he
    refine ⟨hi, ?_⟩
    rw [he, Option.any_some]
    exact (closesCycle_iff_onCycle hc.1).mpr hc

end FindEvidentialCycles

/-! ## The dependency section of `apply_claim_staging` -/

/-- An element of a staged `dependencies` list: `_dependency_dict` passes the
objects on, with the `str` of the two keys the section reads. -/
inductive RawDependency where
  | notDict
  | dict (kind claimId : Option String)
deriving DecidableEq, Repr

/-- Why a proposed edge is rejected, with the data its message shows. -/
inductive Rejection where
  | unparseable (claim : ClaimId)
  | badKind (claim : ClaimId) (kind : String)
  | badClaimId (claim : ClaimId) (raw : String)
  | selfDependency (claim : ClaimId)
  | targetMissing (claim target : ClaimId)
  | nonCurrent (claim target : ClaimId)
  | cycle (source target : ClaimId)
deriving DecidableEq, Repr

/-- The text recorded in `deps_rejected`; `showId` and `repr` are Python's
`str(uuid)` and `repr(str)`. -/
def Rejection.text (showId : ClaimId → String) (repr : String → String) :
    Rejection → String
  | .unparseable c => showId c ++ ": unparseable dependency"
  | .badKind c k => showId c ++ ": bad dependency kind " ++ repr k
  | .badClaimId c raw => showId c ++ ": bad dependency claim_id " ++ repr raw
  | .selfDependency c => showId c ++ ": self-dependency"
  | .targetMissing c t =>
    showId c ++ ": dependency target " ++ showId t ++ " missing"
  | .nonCurrent c t =>
    showId c ++ ": evidential dependency on non-current claim " ++ showId t
  | .cycle f t =>
    showId f ++ ": evidential edge to " ++ showId t ++
      " rejected (would create a cycle)"

/-- The tables the section reads and writes. -/
structure DepStore where
  claims : List ClaimId
  heads : Heads
  dependencies : List ClaimDependency

/-- `SELECT from_claim_id, to_claim_id FROM claim_dependencies
WHERE kind = 'evidential'`. -/
def evidentialEdges (ds : List ClaimDependency) : List (ClaimId × ClaimId) :=
  (ds.filter (·.kind = .evidential)).map fun d => (d.fromClaimId, d.toClaimId)

def parseKind (s : String) : Option DependencyKind :=
  if s = "evidential" then some .evidential
  else if s = "research" then some .research
  else none

section Staging

variable (parseUuid : String → Option ClaimId)

/-- The checks on one proposed dependency, in the source's order. -/
def checkDependency (db : DepStore) (snapshot : SnapshotId) (claim : ClaimId)
    (kind claimId : Option String) : Except Rejection ClaimDependency :=
  let kindText := kind.getD "evidential"
  match parseKind kindText with
  | none => .error (.badKind claim kindText)
  | some k =>
    let raw := claimId.getD ""
    match parseUuid raw with
    | none => .error (.badClaimId claim raw)
    | some toId =>
      if toId = claim then .error (.selfDependency claim)
      else if toId ∉ db.claims then .error (.targetMissing claim toId)
      else if k = .evidential ∧ db.heads.state toId snapshot ≠ some .current then
        .error (.nonCurrent claim toId)
      else .ok ⟨claim, toId, k⟩

/-- The staged elements of every claim, one after the other. -/
def staged (claimDeps : List (ClaimId × List RawDependency)) :
    List (ClaimId × RawDependency) :=
  claimDeps.flatMap fun c => c.2.map fun d => (c.1, d)

/-- `dep_edges` and the rejections of what is no object. -/
def collect : List (ClaimId × RawDependency) →
    List (ClaimId × Option String × Option String) × List Rejection
  | [] => ([], [])
  | (c, .notDict) :: rest =>
    let (edges, bad) := collect rest
    (edges, .unparseable c :: bad)
  | (c, .dict k i) :: rest =>
    let (edges, bad) := collect rest
    ((c, k, i) :: edges, bad)

/-- `proposed` and the rejections of the admission checks. -/
def checkAll (db : DepStore) (snapshot : SnapshotId) :
    List (ClaimId × Option String × Option String) →
      List ClaimDependency × List Rejection
  | [] => ([], [])
  | (c, k, i) :: rest =>
    let (ok, bad) := checkAll db snapshot rest
    match checkDependency parseUuid db snapshot c k i with
    | .ok d => (d :: ok, bad)
    | .error r => (ok, r :: bad)

/-- The endpoint pairs of the evidential edges whose index among the evidential
edges is in `cyclic`; `idx` is `ev_idx`. -/
def dropPairs (cyclic : List Nat) : Nat → List ClaimDependency →
    List (ClaimId × ClaimId)
  | _, [] => []
  | idx, d :: ds =>
    if d.kind = .evidential then
      if idx ∈ cyclic then
        (d.fromClaimId, d.toClaimId) :: dropPairs cyclic (idx + 1) ds
      else dropPairs cyclic (idx + 1) ds
    else dropPairs cyclic idx ds

/-- The pairs the cycle check refuses: `drop` of the source. -/
def refusedPairs (db : DepStore) (proposed : List ClaimDependency) :
    List (ClaimId × ClaimId) :=
  dropPairs
    (findEvidentialCycles (evidentialEdges db.dependencies) (evidentialEdges proposed))
    0 proposed

/-- Insert the edges the table does not hold yet. -/
def insertEdges : List ClaimDependency → List ClaimDependency →
    List ClaimDependency
  | table, [] => table
  | table, d :: ds =>
    if d ∈ table then insertEdges table ds else insertEdges (table ++ [d]) ds

/-- The admissible edges of a commit: what passes every check but the cycle
check. -/
def proposedEdges (db : DepStore) (snapshot : SnapshotId)
    (claimDeps : List (ClaimId × List RawDependency)) : List ClaimDependency :=
  (checkAll parseUuid db snapshot (collect (staged claimDeps)).1).1

/-- What the section returns: the table after it, `deps_rejected`, the part of it
the audit record shows, and the two counters. -/
structure DepsResult where
  db : DepStore
  rejected : List Rejection
  audited : Option (List Rejection)
  deps : Nat
  depsEvidential : Nat

/-- Section 1b of `apply_claim_staging`. -/
def applyDependencies (db : DepStore) (snapshot : SnapshotId)
    (claimDeps : List (ClaimId × List RawDependency)) : DepsResult :=
  let (edges, unparseable) := collect (staged claimDeps)
  let (proposed, refused) := checkAll parseUuid db snapshot edges
  let drop := refusedPairs db proposed
  let kept := proposed.filter fun d => (d.fromClaimId, d.toClaimId) ∉ drop
  let table := insertEdges db.dependencies kept
  let rejected := unparseable ++ refused ++ drop.map fun p => .cycle p.1 p.2
  { db := { db with dependencies := table }
    rejected := rejected
    -- the record is made inside `if dep_edges`, so an all-malformed list leaves none
    audited := if edges = [] ∨ rejected = [] then none else some (rejected.take 20)
    deps := table.length - db.dependencies.length
    depsEvidential :=
      (evidentialEdges table).length - (evidentialEdges db.dependencies).length }

/-! ## What one commit does to the evidential graph -/

theorem mem_evidentialEdges {ds : List ClaimDependency} {e : ClaimId × ClaimId} :
    e ∈ evidentialEdges ds ↔ ⟨e.1, e.2, .evidential⟩ ∈ ds := by
  constructor
  · intro h
    obtain ⟨d, hd, rfl⟩ := List.mem_map.mp h
    obtain ⟨hmem, hk⟩ := List.mem_filter.mp hd
    have hkind : d.kind = .evidential := by simpa using hk
    rw [← hkind]
    exact hmem
  · intro h
    exact List.mem_map.mpr ⟨_, List.mem_filter.mpr ⟨h, by simp⟩, rfl⟩

theorem mem_insertEdges {table ds : List ClaimDependency} {d : ClaimDependency} :
    d ∈ insertEdges table ds ↔ d ∈ table ∨ d ∈ ds := by
  induction ds generalizing table with
  | nil => simp [insertEdges]
  | cons x ds ih =>
    simp only [insertEdges]
    split
    · rename_i hx
      rw [ih, List.mem_cons]
      constructor
      · tauto
      · rintro (h | rfl | h)
        · exact .inl h
        · exact .inl hx
        · exact .inr h
    · rw [ih, List.mem_append, List.mem_singleton, List.mem_cons, or_assoc]

/-- `dropPairs` picks the pairs at the `cyclic` positions of the evidential
edges, counted from `idx`. -/
theorem mem_dropPairs {cyclic : List Nat} {idx : Nat} {ds : List ClaimDependency}
    {p : ClaimId × ClaimId} :
    p ∈ dropPairs cyclic idx ds ↔
      ∃ j, (evidentialEdges ds)[j]? = some p ∧ idx + j ∈ cyclic := by
  induction ds generalizing idx with
  | nil => simp [dropPairs, evidentialEdges]
  | cons d ds ih =>
    simp only [dropPairs]
    by_cases hk : d.kind = .evidential
    · have hcons : evidentialEdges (d :: ds) =
          (d.fromClaimId, d.toClaimId) :: evidentialEdges ds := by
        simp [evidentialEdges, hk]
      have hsplit : (∃ j, (evidentialEdges (d :: ds))[j]? = some p ∧ idx + j ∈ cyclic) ↔
          ((d.fromClaimId, d.toClaimId) = p ∧ idx ∈ cyclic) ∨
            p ∈ dropPairs cyclic (idx + 1) ds := by
        rw [hcons, ih]
        constructor
        · rintro ⟨j, hj, hc⟩
          cases j with
          | zero => exact .inl ⟨by simpa using hj, hc⟩
          | succ j => exact .inr ⟨j, by simpa using hj, by rwa [Nat.add_right_comm, Nat.add_assoc]⟩
        · rintro (⟨rfl, hc⟩ | ⟨j, hj, hc⟩)
          · exact ⟨0, by simp, hc⟩
          · exact ⟨j + 1, by simpa using hj, by rwa [Nat.add_right_comm, Nat.add_assoc] at hc⟩
      rw [if_pos hk, hsplit]
      split
      · rename_i hc
        rw [List.mem_cons]
        constructor
        · rintro (rfl | h)
          · exact .inl ⟨rfl, hc⟩
          · exact .inr h
        · rintro (⟨rfl, -⟩ | h)
          · exact .inl rfl
          · exact .inr h
      · rename_i hc
        constructor
        · exact .inr
        · rintro (⟨-, h⟩ | h)
          · exact absurd h hc
          · exact h
    · have hcons : evidentialEdges (d :: ds) = evidentialEdges ds := by
        simp [evidentialEdges, hk]
      rw [if_neg hk, ih, hcons]

/-- The edges the check refuses are the admissible ones on a cycle of the stored
and the admissible edges together. -/
theorem mem_refusedPairs {db : DepStore} {proposed : List ClaimDependency}
    {p : ClaimId × ClaimId} :
    p ∈ refusedPairs db proposed ↔ p ∈ evidentialEdges proposed ∧
      OnCycle (evidentialEdges db.dependencies ++ evidentialEdges proposed) p := by
  rw [refusedPairs, mem_dropPairs]
  constructor
  · rintro ⟨j, hj, hc⟩
    rw [Nat.zero_add, mem_findEvidentialCycles] at hc
    obtain ⟨e, he, hcyc⟩ := hc
    obtain rfl := Option.some.inj (hj.symm.trans he)
    exact ⟨List.mem_of_getElem? hj, hcyc⟩
  · rintro ⟨hmem, hcyc⟩
    obtain ⟨j, hj⟩ := List.mem_iff_getElem?.mp hmem
    exact ⟨j, hj, by rw [Nat.zero_add, mem_findEvidentialCycles]; exact ⟨p, hj, hcyc⟩⟩

variable {parseUuid : String → Option ClaimId}

/-- An evidential edge of the table after the section was stored before it or was
proposed and lies on no cycle. -/
theorem applyDependencies_edge {db : DepStore} {snapshot : SnapshotId}
    {claimDeps : List (ClaimId × List RawDependency)} {e : ClaimId × ClaimId} :
    e ∈ evidentialEdges
        (applyDependencies parseUuid db snapshot claimDeps).db.dependencies ↔
      e ∈ evidentialEdges db.dependencies ∨
        (e ∈ evidentialEdges (proposedEdges parseUuid db snapshot claimDeps) ∧
          e ∉ refusedPairs db (proposedEdges parseUuid db snapshot claimDeps)) := by
  simp only [mem_evidentialEdges, applyDependencies, mem_insertEdges,
    List.mem_filter, decide_eq_true_eq, proposedEdges]

theorem mem_collect {ds : List (ClaimId × RawDependency)} {c : ClaimId}
    {k i : Option String} (h : (c, k, i) ∈ (collect ds).1) : (c, .dict k i) ∈ ds := by
  induction ds with
  | nil => simp [collect] at h
  | cons d ds ih =>
    obtain ⟨c', d⟩ := d
    cases d with
    | notDict => exact List.mem_cons_of_mem _ (ih h)
    | dict k' i' =>
      rcases List.mem_cons.mp h with heq | h
      · cases heq
        exact List.mem_cons_self
      · exact List.mem_cons_of_mem _ (ih h)

theorem mem_checkAll {db : DepStore} {snapshot : SnapshotId}
    {ds : List (ClaimId × Option String × Option String)} {d : ClaimDependency}
    (h : d ∈ (checkAll parseUuid db snapshot ds).1) :
    ∃ c k i, (c, k, i) ∈ ds ∧ checkDependency parseUuid db snapshot c k i = .ok d := by
  induction ds with
  | nil => simp [checkAll] at h
  | cons x ds ih =>
    obtain ⟨c, k, i⟩ := x
    simp only [checkAll] at h
    split at h
    · rename_i d' hd'
      rcases List.mem_cons.mp h with rfl | h
      · exact ⟨c, k, i, List.mem_cons_self, hd'⟩
      · obtain ⟨c', k', i', hmem, hok⟩ := ih h
        exact ⟨c', k', i', List.mem_cons_of_mem _ hmem, hok⟩
    · obtain ⟨c', k', i', hmem, hok⟩ := ih h
      exact ⟨c', k', i', List.mem_cons_of_mem _ hmem, hok⟩

/-- An evidential dependency passes the checks only under that kind's name and on a
current target. -/
theorem checkDependency_evidential {db : DepStore} {snapshot : SnapshotId} {c : ClaimId}
    {k i : Option String} {d : ClaimDependency}
    (h : checkDependency parseUuid db snapshot c k i = .ok d) (hkind : d.kind = .evidential) :
    k.getD "evidential" = "evidential" ∧
      db.heads.state d.toClaimId snapshot = some .current := by
  simp only [checkDependency] at h
  split at h
  · cases h
  · rename_i kind hparse
    split at h
    · cases h
    · split_ifs at h with hself hmissing hcurrent
      cases h
      have hkind : kind = .evidential := hkind
      refine ⟨?_, ?_⟩
      · rw [hkind] at hparse
        unfold parseKind at hparse
        split_ifs at hparse with hname hresearch
        · exact hname
        · cases hparse
      · by_contra hne
        exact hcurrent ⟨hkind, hne⟩

/-- What a commit proposes as an evidential edge. -/
theorem proposedEdges_evidential {db : DepStore} {snapshot : SnapshotId}
    {claimDeps : List (ClaimId × List RawDependency)} {e : ClaimId × ClaimId}
    (h : e ∈ evidentialEdges (proposedEdges parseUuid db snapshot claimDeps)) :
    db.heads.state e.2 snapshot = some .current ∧
      ∃ x ∈ claimDeps, ∃ k i, .dict k i ∈ x.2 ∧ k.getD "evidential" = "evidential" := by
  obtain ⟨c, k, i, hmem, hok⟩ := mem_checkAll (mem_evidentialEdges.mp h)
  obtain ⟨hname, hcurrent⟩ := checkDependency_evidential hok rfl
  obtain ⟨x, hx, hin⟩ := List.mem_flatMap.mp (mem_collect hmem)
  obtain ⟨raw, hraw, heq⟩ := List.mem_map.mp hin
  obtain ⟨rfl, rfl⟩ := Prod.mk.inj heq
  exact ⟨hcurrent, x, hx, k, i, hraw, hname⟩

theorem evidentialEdges_insertEdges {table ds : List ClaimDependency}
    (h : ∀ d ∈ ds, d.kind ≠ .evidential) :
    evidentialEdges (insertEdges table ds) = evidentialEdges table := by
  induction ds generalizing table with
  | nil => rfl
  | cons d ds ih =>
    have hd := h d List.mem_cons_self
    have hds : ∀ x ∈ ds, x.kind ≠ .evidential := fun x hx => h x (List.mem_cons_of_mem d hx)
    simp only [insertEdges]
    split
    · exact ih hds
    · rw [ih hds]
      simp [evidentialEdges, hd]

theorem insertEdges_keeps (table ds : List ClaimDependency) :
    table <+: insertEdges table ds := by
  induction ds generalizing table with
  | nil => exact List.prefix_refl table
  | cons d ds ih =>
    simp only [insertEdges]
    split
    · exact ih table
    · exact (List.prefix_append table [d]).trans (ih _)

/-- The stored evidential edges stay, in their order. -/
theorem applyDependencies_extends (db : DepStore) (snapshot : SnapshotId)
    (claimDeps : List (ClaimId × List RawDependency)) :
    evidentialEdges db.dependencies <+:
      evidentialEdges (applyDependencies parseUuid db snapshot claimDeps).db.dependencies :=
  ((insertEdges_keeps db.dependencies _).filter _).map _

/-- **When the section leaves the evidential graph alone**: no proposed dependency is named
evidential, or the counter stays at zero. -/
theorem applyDependencies_same {db : DepStore} {snapshot : SnapshotId}
    {claimDeps : List (ClaimId × List RawDependency)}
    (h : (∀ x ∈ claimDeps, ∀ k i, .dict k i ∈ x.2 → k.getD "evidential" ≠ "evidential") ∨
      (applyDependencies parseUuid db snapshot claimDeps).depsEvidential = 0) :
    evidentialEdges (applyDependencies parseUuid db snapshot claimDeps).db.dependencies =
      evidentialEdges db.dependencies := by
  rcases h with hnames | hzero
  · refine evidentialEdges_insertEdges ?_
    intro d hd hkind
    obtain ⟨hprop, -⟩ := List.mem_filter.mp hd
    have hedge : (d.fromClaimId, d.toClaimId) ∈
        evidentialEdges (proposedEdges parseUuid db snapshot claimDeps) := by
      rw [mem_evidentialEdges, ← hkind]
      exact hprop
    obtain ⟨-, x, hx, k, i, hraw, hname⟩ := proposedEdges_evidential hedge
    exact hnames x hx k i hraw hname
  · have hpre := @applyDependencies_extends parseUuid db snapshot claimDeps
    have hlen := hpre.length_le
    have hdiff : (evidentialEdges (applyDependencies parseUuid db snapshot
        claimDeps).db.dependencies).length - (evidentialEdges db.dependencies).length = 0 := hzero
    exact (hpre.eq_of_length (by omega)).symm

theorem mem_collect_rejected {ds : List (ClaimId × RawDependency)} {r : Rejection}
    (h : r ∈ (collect ds).2) : ∃ c, r = .unparseable c := by
  induction ds with
  | nil => simp [collect] at h
  | cons d ds ih =>
    obtain ⟨c, d⟩ := d
    cases d with
    | notDict =>
      rcases List.mem_cons.mp h with rfl | h
      · exact ⟨c, rfl⟩
      · exact ih h
    | dict k i => exact ih h

theorem checkDependency_not_cycle {db : DepStore} {snapshot : SnapshotId} {claim : ClaimId}
    {k i : Option String} {r : Rejection}
    (h : checkDependency parseUuid db snapshot claim k i = .error r) (a b : ClaimId) :
    r ≠ .cycle a b := by
  rintro rfl
  simp only [checkDependency] at h
  split at h
  · simp at h
  · split at h
    · simp at h
    · split_ifs at h <;> simp at h

theorem mem_checkAll_rejected {db : DepStore} {snapshot : SnapshotId}
    {ds : List (ClaimId × Option String × Option String)} {r : Rejection}
    (h : r ∈ (checkAll parseUuid db snapshot ds).2) (a b : ClaimId) :
    r ≠ .cycle a b := by
  induction ds with
  | nil => simp [checkAll] at h
  | cons d ds ih =>
    simp only [checkAll] at h
    split at h
    · exact ih h
    · rename_i r' hr
      rcases List.mem_cons.mp h with rfl | h
      · exact checkDependency_not_cycle hr a b
      · exact ih h

/-- **The refusals of the cycle check**, read off the recorded rejections. -/
theorem applyDependencies_cycle {db : DepStore} {snapshot : SnapshotId}
    {claimDeps : List (ClaimId × List RawDependency)} {e : ClaimId × ClaimId} :
    Rejection.cycle e.1 e.2 ∈
        (applyDependencies parseUuid db snapshot claimDeps).rejected ↔
      e ∈ refusedPairs db (proposedEdges parseUuid db snapshot claimDeps) := by
  simp only [applyDependencies, List.mem_append, proposedEdges]
  constructor
  · rintro ((h | h) | h)
    · obtain ⟨c, hc⟩ := mem_collect_rejected h
      simp at hc
    · exact absurd rfl (mem_checkAll_rejected h e.1 e.2)
    · obtain ⟨p, hp, heq⟩ := List.mem_map.mp h
      rw [Rejection.cycle.injEq] at heq
      rw [← Prod.ext heq.1 heq.2]
      exact hp
  · intro h
    exact .inr (List.mem_map.mpr ⟨e, h, rfl⟩)

/-- One commit keeps the evidential graph acyclic. -/
theorem applyDependencies_acyclic {db : DepStore} {snapshot : SnapshotId}
    {claimDeps : List (ClaimId × List RawDependency)}
    (h : Acyclic (Edge (evidentialEdges db.dependencies))) :
    Acyclic (Edge (evidentialEdges
      (applyDependencies parseUuid db snapshot claimDeps).db.dependencies)) := by
  let proposed := proposedEdges parseUuid db snapshot claimDeps
  let added : ClaimId → ClaimId → Prop := fun a b =>
    (a, b) ∈ evidentialEdges proposed ∧ (a, b) ∉ refusedPairs db proposed
  refine Acyclic.mono (Acyclic.union (S := added) h ?_) ?_
  · rintro a b ⟨hab, hkept⟩ hback
    refine hkept (mem_refusedPairs.mpr ⟨hab, List.mem_append_right _ hab, ?_⟩)
    -- the union of old and kept edges is a part of the graph the check searched
    refine ReflTransGen.mono ?_ _ _ hback
    rintro x y (hxy | ⟨hxy, -⟩)
    · exact List.mem_append_left _ hxy
    · exact List.mem_append_right _ hxy
  · intro a b hab
    exact applyDependencies_edge.mp hab

/-! ## Sequences of commits -/

/-- What changes the tables of the section: a commit, which first creates its own
claims, and any other transaction that moves heads. -/
inductive DepEvent where
  | commit (newClaims : List ClaimId) (snapshot : SnapshotId)
      (claimDeps : List (ClaimId × List RawDependency))
  | heads (heads : Heads)

variable (parseUuid) in
def depStep (db : DepStore) : DepEvent → Option DepStore
  | .commit newClaims snapshot claimDeps =>
    let db := { db with claims := db.claims ++ newClaims }
    some (applyDependencies parseUuid db snapshot claimDeps).db
  | .heads heads => some { db with heads := heads }

theorem depStep_acyclic {db db' : DepStore} {e : DepEvent}
    (h : Acyclic (Edge (evidentialEdges db.dependencies)))
    (hs : depStep parseUuid db e = some db') :
    Acyclic (Edge (evidentialEdges db'.dependencies)) := by
  cases e with
  | commit newClaims snapshot claimDeps =>
    obtain rfl := Option.some.inj hs
    exact applyDependencies_acyclic h
  | heads heads =>
    obtain rfl := Option.some.inj hs
    exact h

/-- **The evidential graph stays acyclic.** From a store without edges, after any
sequence of commits, the stored evidential edges have no cycle; and the cycle
check of the next commit refuses exactly the admissible evidential edges that lie
on a cycle of the stored and the admissible edges. -/
theorem evidential_graph_acyclic {db₀ db : DepStore}
    (hempty : db₀.dependencies = []) (hrun : Run (depStep parseUuid) anyStep db₀ db) :
    Acyclic (Edge (evidentialEdges db.dependencies)) ∧
    ∀ newClaims snapshot claimDeps e,
      let db' := { db with claims := db.claims ++ newClaims }
      let proposed := proposedEdges parseUuid db' snapshot claimDeps
      Rejection.cycle e.1 e.2 ∈
          (applyDependencies parseUuid db' snapshot claimDeps).rejected ↔
        e ∈ evidentialEdges proposed ∧
          OnCycle (evidentialEdges db.dependencies ++ evidentialEdges proposed) e := by
  refine ⟨hrun.invariant (I := fun db => Acyclic (Edge (evidentialEdges db.dependencies)))
    ?_ fun h _ hs => depStep_acyclic h hs, ?_⟩
  · intro v hv
    obtain ⟨w, hw, -⟩ := TransGen.head'_iff.mp hv
    simp [Edge, hempty, evidentialEdges] at hw
  · intro newClaims snapshot claimDeps e
    exact applyDependencies_cycle.trans mem_refusedPairs

end Staging

/-- Two claims with current heads and no edge yet. -/
def twoClaims : DepStore where
  claims := [1, 2]
  heads := fun _ _ => some (.current 0 .supported)
  dependencies := []

/-- `uuid.UUID` on the two identifiers of `twoClaims`. -/
def parseTwo (s : String) : Option ClaimId :=
  if s = "00000000-0000-0000-0000-000000000001" then some 1
  else if s = "00000000-0000-0000-0000-000000000002" then some 2
  else none

/-- A commit that stores `1 → 2`. -/
def firstCommit : DepEvent :=
  .commit [] 0 [(1, [.dict none (some "00000000-0000-0000-0000-000000000002")])]

/-- A commit that proposes `2 → 1`. -/
def crossingCommit : DepEvent :=
  .commit [] 0 [(2, [.dict none (some "00000000-0000-0000-0000-000000000001")])]

theorem evidential_graph_acyclic_crossing :
    ∃ db, exec (depStep parseTwo) twoClaims [firstCommit, crossingCommit] = some db ∧
      evidentialEdges db.dependencies = [(1, 2)] ∧
      Acyclic (Edge (evidentialEdges db.dependencies)) :=
  ⟨_, rfl, by decide, (evidential_graph_acyclic rfl
    (Run.of_exec [firstCommit, crossingCommit] rfl)).1⟩

end Noezema.Memory
