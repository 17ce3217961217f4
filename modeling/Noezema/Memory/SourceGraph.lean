import Mathlib
import Noezema.Lib.UnionFind
import Noezema.Lib.Partition

/-! # The source graph

`group_source_graph`: which sources count as one. A union-find runs over the
shared domains, the identical contents, the overlapping texts, the parents, the
explicit merges and the dependency edges; sources without lineage share one group.
The groups get the names `g0`, `g1`, ... in the order of the input.

`groupSourceGraph_eq_iff`: two sources share a group exactly when the documented
links connect them.
-/

namespace Noezema.Memory

open Relation Noezema.Lib

abbrev SourceId := Nat

/-- What the grouping takes from the string library. -/
structure TextReader where
  /-- `urlsplit(normalize_uri(uri)).hostname`. -/
  hostname : String → Option String
  /-- `str.isdigit` of one character. -/
  isDigit : Char → Bool
  /-- `_word_set`. -/
  wordSet : String → Finset String
  /-- `_short` of an identifier. -/
  short : Nat → String

/-- `MULTI_PART_SUFFIXES`. -/
def multiPartSuffixes : List String := [
  "co.uk", "org.uk", "gov.uk", "ac.uk", "net.uk", "sch.uk",
  "com.au", "net.au", "org.au", "edu.au", "gov.au",
  "com.br", "org.br", "gov.br",
  "com.cn", "org.cn", "gov.cn", "net.cn",
  "co.jp", "ne.jp", "or.jp", "ac.jp", "go.jp",
  "co.in", "org.in", "net.in", "ac.in", "gov.in",
  "com.mx", "org.mx", "gob.mx",
  "com.tr", "org.tr", "gov.tr",
  "com.tw", "org.tw", "gov.tw",
  "co.kr", "or.kr",
  "com.hk", "org.hk", "gov.hk",
  "com.sg", "org.sg", "gov.sg",
  "co.nz", "org.nz",
  "com.ar", "com.co", "com.pe", "com.pl",
  "uk.com", "au.com", "br.com", "cn.com", "jp.com",
  "kr.com", "se.com", "za.com"]

/-- `".".join(labels[-n:])`. -/
def lastLabels (labels : List String) (n : Nat) : String :=
  ".".intercalate (labels.drop (labels.length - n))

/-- `registrable_domain`. -/
def registrableDomain (rd : TextReader) (uri : String) : Option String :=
  match rd.hostname uri with
  | none => none
  | some host =>
    let digits := host.toList.filter (· ≠ '.')
    let labels := host.splitOn "."
    if host = "" then none
    else if (digits ≠ [] ∧ digits.all rd.isDigit) ∨ ':' ∈ host.toList then some host
    else if labels.length < 2 then some host
    else match [3, 2].find? fun n =>
        n ≤ labels.length ∧ lastLabels labels n ∈ multiPartSuffixes with
      | some n =>
        some (if n < labels.length then lastLabels labels (n + 1) else lastLabels labels n)
      | none => some (lastLabels labels 2)

/-- One source as the full-graph algorithm sees it. -/
structure SourceGraphInput where
  sourceId : SourceId
  canonicalUri : Option String
  contentHash : Option String
  sampleText : Option String
  parentSourceId : Option SourceId
deriving DecidableEq

/-- A row of `source_dependency_edges`. -/
structure SourceGraphEdge where
  edgeId : Nat
  fromId : SourceId
  toId : SourceId
  kind : String
deriving DecidableEq

inductive CorrectionKind where
  | merge | split
deriving DecidableEq, Repr

/-- A row of `source_graph_corrections`. -/
structure SourceGraphCorrection where
  correctionId : Nat
  fromId : SourceId
  toId : SourceId
  kind : CorrectionKind
  valid : Bool
deriving DecidableEq

/-- The input of the grouping. -/
structure SourceGraph where
  sources : List SourceGraphInput
  edges : List SourceGraphEdge
  corrections : List SourceGraphCorrection
deriving DecidableEq

namespace SourceGraphInput

variable (rd : TextReader)

/-- `registrable_domain(s.canonical_uri) if s.canonical_uri else None`. -/
def domain (s : SourceGraphInput) : Option String :=
  match s.canonicalUri with
  | none => none
  | some uri => if uri = "" then none else registrableDomain rd uri

/-- The source has no lineage: no domain and no content hash. -/
def unknown (s : SourceGraphInput) : Bool :=
  s.domain rd = none ∧ s.contentHash = none

/-- The words of a non-empty sample text. -/
def words (s : SourceGraphInput) : Option (Finset String) :=
  match s.sampleText with
  | none => none
  | some text => if text = "" then none else some (rd.wordSet text)

end SourceGraphInput

/-- `_jaccard(a, b) >= TEXT_OVERLAP_THRESHOLD`, a threshold of 4/5. -/
def overlaps (a b : Finset String) : Bool :=
  a ≠ ∅ ∧ b ≠ ∅ ∧ 4 * (a ∪ b).card ≤ 5 * (a ∩ b).card

/-- The first of a bucket with each other. -/
def star : List SourceId → List (SourceId × SourceId)
  | [] => []
  | x :: xs => xs.map fun y => (x, y)

/-- The pairs of a list, in the order of the two nested loops. -/
def orderedPairs {α : Type*} : List α → List (α × α)
  | [] => []
  | x :: xs => xs.map (fun y => (x, y)) ++ orderedPairs xs

namespace SourceGraph

variable (rd : TextReader)

def ids (g : SourceGraph) : List SourceId := g.sources.map (·.sourceId)

/-- The sources the loop over the facts does not skip. -/
def known (g : SourceGraph) : List SourceGraphInput :=
  g.sources.filter fun s => !s.unknown rd

/-- `by_domain` and `by_content`: the sources of each value of a key, in the order
the values are first seen. -/
def buckets (g : SourceGraph) (key : SourceGraphInput → Option String) :
    List (List SourceId) :=
  ((g.known rd).filterMap key).eraseDups.map fun k =>
    ((g.known rd).filter fun s => key s = some k).map (·.sourceId)

/-- The unions of equal keys. -/
def keyLinks (g : SourceGraph) (key : SourceGraphInput → Option String) :
    List (SourceId × SourceId) :=
  ((g.buckets rd key).map star).flatten

/-- The unions of overlapping texts. -/
def textLinks (g : SourceGraph) : List (SourceId × SourceId) :=
  let texts := (g.known rd).filterMap fun s => (s.words rd).map fun w => (s.sourceId, w)
  ((orderedPairs texts).filter fun p => overlaps p.1.2 p.2.2).map
    fun p => (p.1.1, p.2.1)

/-- Parent links, only to parents that are nodes. -/
def parentLinks (g : SourceGraph) : List (SourceId × SourceId) :=
  g.sources.filterMap fun s =>
    match s.parentSourceId with
    | none => none
    | some p => if p ∈ g.ids then some (s.sourceId, p) else none

/-- `_pair(a, b) in splits`. -/
def splits (g : SourceGraph) (a b : SourceId) : Bool :=
  g.corrections.any fun c => c.valid ∧ c.kind = .split ∧
    (c.fromId = a ∧ c.toId = b ∨ c.fromId = b ∧ c.toId = a)

/-- A correction that merges its pair. -/
def merges (g : SourceGraph) (c : SourceGraphCorrection) : Bool :=
  c.valid ∧ c.kind = .merge ∧ g.splits c.fromId c.toId = false

/-- An edge that merges its pair. -/
def ties (g : SourceGraph) (e : SourceGraphEdge) : Bool :=
  e.fromId ∈ g.ids ∧ e.toId ∈ g.ids ∧ g.splits e.fromId e.toId = false

def mergeLinks (g : SourceGraph) : List (SourceId × SourceId) :=
  (g.corrections.filter g.merges).map fun c => (c.fromId, c.toId)

def edgeLinks (g : SourceGraph) : List (SourceId × SourceId) :=
  (g.edges.filter g.ties).map fun e => (e.fromId, e.toId)

/-- Unknown lineage: one shared group. -/
def unknownLinks (g : SourceGraph) : List (SourceId × SourceId) :=
  star ((g.sources.filter fun s => s.unknown rd).map (·.sourceId))

/-- All unions, in the order of the source. -/
def links (g : SourceGraph) : List (SourceId × SourceId) :=
  g.keyLinks rd (·.domain rd) ++ g.keyLinks rd (·.contentHash) ++ g.textLinks rd ++
    g.parentLinks ++ g.mergeLinks ++ g.edgeLinks ++ g.unknownLinks rd

end SourceGraph

/-- The naming loop: `seen` are the roots named so far, each by its index. -/
def nameGroups (f : Forest SourceId) (seen : List SourceId) :
    List SourceId → List (SourceId × String)
  | [] => []
  | s :: rest =>
    let (f, root) := f.find s
    let seen := if root ∈ seen then seen else seen ++ [root]
    (s, "g" ++ Nat.repr (seen.idxOf root)) :: nameGroups f seen rest

section Grouping

variable (rd : TextReader)

/-- `groups` of `group_source_graph`. -/
def groupSourceGraph (g : SourceGraph) : List (SourceId × String) :=
  nameGroups ((Forest.singletons SourceId).unions (g.links rd)) [] g.ids

/-- `same`: the members of a source's group. -/
def SourceGraph.sameGroup (g : SourceGraph) (s : SourceId) : List SourceGraphInput :=
  g.sources.filter fun o =>
    (groupSourceGraph rd g).lookup o.sourceId = (groupSourceGraph rd g).lookup s

/-- `bases`: what ties a source into its group, in recording order. -/
def SourceGraph.basis (g : SourceGraph) (s : SourceGraphInput) : String :=
  let same := g.sameGroup rd s.sourceId
  let sameIds := same.map (·.sourceId)
  let others := same.filter fun o => o.sourceId ≠ s.sourceId
  let touches (a b : SourceId) : Bool :=
    a ∈ sameIds ∧ b ∈ sameIds ∧ (s.sourceId = a ∨ s.sourceId = b)
  let edge := g.edges.find? fun e => touches e.fromId e.toId
  if s.unknown rd then "unknown_lineage"
  else if s.parentSourceId.any fun p => p ∈ sameIds ∧ p ≠ s.sourceId then
    "parent:" ++ rd.short (s.parentSourceId.getD 0)
  else if g.corrections.any fun c => g.merges c ∧ touches c.fromId c.toId then
    "correction:merge"
  else if g.edges.any fun e =>
      touches e.fromId e.toId ∧ g.splits e.fromId e.toId = false then
    -- the edge named is the first of the pair's kind, split or not
    edge.elim "" fun e => "edge:" ++ e.kind ++ ":" ++ rd.short e.edgeId
  else if s.domain rd ≠ none ∧ others.any fun o => o.domain rd = s.domain rd then
    "domain:" ++ (s.domain rd).getD ""
  else if s.contentHash ≠ none ∧ others.any fun o => o.contentHash = s.contentHash then
    "content:" ++ String.ofList ((s.contentHash.getD "").toList.take 12)
  else if others.any fun o =>
      (s.words rd).any fun a => (o.words rd).any fun b => overlaps a b then
    "text_overlap"
  else "single"

end Grouping

/-! ## The documented links -/

/-- Two sources are linked: what the module's documentation lists. -/
inductive SourceGraph.Linked (rd : TextReader) (g : SourceGraph) :
    SourceId → SourceId → Prop where
  /-- One registrable domain. -/
  | domain (a b : SourceGraphInput) (ha : a ∈ g.sources) (hb : b ∈ g.sources)
      (some : a.domain rd ≠ none) (same : a.domain rd = b.domain rd) :
      Linked rd g a.sourceId b.sourceId
  /-- One document. -/
  | content (a b : SourceGraphInput) (ha : a ∈ g.sources) (hb : b ∈ g.sources)
      (some : a.contentHash ≠ none) (same : a.contentHash = b.contentHash) :
      Linked rd g a.sourceId b.sourceId
  /-- Overlapping texts of sources with a lineage. -/
  | text (a b : SourceGraphInput) (ha : a ∈ g.known rd) (hb : b ∈ g.known rd)
      (u v : Finset String) (hu : a.words rd = some u) (hv : b.words rd = some v)
      (overlap : overlaps u v) : Linked rd g a.sourceId b.sourceId
  /-- Child and parent, both nodes. -/
  | parent (a : SourceGraphInput) (p : SourceId) (ha : a ∈ g.sources)
      (hp : a.parentSourceId = some p) (node : p ∈ g.ids) : Linked rd g a.sourceId p
  /-- A valid merge that no split contradicts. -/
  | merge (c : SourceGraphCorrection) (hc : c ∈ g.corrections) (merges : g.merges c) :
      Linked rd g c.fromId c.toId
  /-- A dependency edge between nodes that no split cancels. -/
  | edge (e : SourceGraphEdge) (he : e ∈ g.edges) (ties : g.ties e) :
      Linked rd g e.fromId e.toId
  /-- No lineage on either side. -/
  | unknown (a b : SourceGraphInput) (ha : a ∈ g.sources) (hb : b ∈ g.sources)
      (ua : a.unknown rd) (ub : b.unknown rd) : Linked rd g a.sourceId b.sourceId

/-! ## Stars and pairs -/

theorem mem_of_star {l : List SourceId} {a b : SourceId} (h : (a, b) ∈ star l) :
    a ∈ l ∧ b ∈ l := by
  cases l with
  | nil => cases h
  | cons x xs =>
    obtain ⟨y, hy, heq⟩ := List.mem_map.mp h
    obtain ⟨rfl, rfl⟩ := Prod.mk.inj heq
    exact ⟨List.mem_cons_self, List.mem_cons_of_mem _ hy⟩

/-- A star connects its bucket. -/
theorem eqvGen_of_star {l : List SourceId} {r : SourceId → SourceId → Prop}
    (h : ∀ a b, (a, b) ∈ star l → EqvGen r a b) {a b : SourceId} (ha : a ∈ l)
    (hb : b ∈ l) : EqvGen r a b := by
  cases l with
  | nil => cases ha
  | cons x xs =>
    have hto : ∀ c, c ∈ x :: xs → EqvGen r x c := by
      intro c hc
      rcases List.mem_cons.mp hc with rfl | hc
      · exact .refl c
      · exact h x c (List.mem_map_of_mem hc)
    exact ((hto a ha).symm _ _).trans _ _ _ (hto b hb)

theorem mem_of_orderedPairs {α : Type*} {l : List α} {p : α × α}
    (h : p ∈ orderedPairs l) : p.1 ∈ l ∧ p.2 ∈ l := by
  induction l with
  | nil => cases h
  | cons x xs ih =>
    rcases List.mem_append.mp h with h | h
    · obtain ⟨y, hy, rfl⟩ := List.mem_map.mp h
      exact ⟨List.mem_cons_self, List.mem_cons_of_mem _ hy⟩
    · exact ⟨List.mem_cons_of_mem _ (ih h).1, List.mem_cons_of_mem _ (ih h).2⟩

/-- The two nested loops meet every pair, in one order. -/
theorem orderedPairs_total {α : Type*} {l : List α} {x y : α} (hx : x ∈ l) (hy : y ∈ l) :
    x = y ∨ (x, y) ∈ orderedPairs l ∨ (y, x) ∈ orderedPairs l := by
  induction l with
  | nil => cases hx
  | cons z zs ih =>
    simp only [orderedPairs, List.mem_append, List.mem_map, Prod.mk.injEq]
    rcases List.mem_cons.mp hx with rfl | hxs <;> rcases List.mem_cons.mp hy with rfl | hys
    · exact .inl rfl
    · exact .inr (.inl (.inl ⟨y, hys, rfl, rfl⟩))
    · exact .inr (.inr (.inl ⟨x, hxs, rfl, rfl⟩))
    · rcases ih hxs hys with h | h | h
      · exact .inl h
      · exact .inr (.inl (.inr h))
      · exact .inr (.inr (.inr h))

theorem overlaps_comm (a b : Finset String) : overlaps a b = overlaps b a := by
  simp only [overlaps, Finset.union_comm a b, Finset.inter_comm a b, and_left_comm]

/-! ## The unions are the links -/

namespace SourceGraph

variable {rd : TextReader} {g : SourceGraph}

theorem mem_known {s : SourceGraphInput} :
    s ∈ g.known rd ↔ s ∈ g.sources ∧ s.unknown rd = false := by
  simp [known]

theorem known_of_domain {s : SourceGraphInput} (hs : s ∈ g.sources)
    (h : s.domain rd ≠ none) : s ∈ g.known rd :=
  mem_known.mpr ⟨hs, by simp [SourceGraphInput.unknown, h]⟩

theorem known_of_content {s : SourceGraphInput} (hs : s ∈ g.sources)
    (h : s.contentHash ≠ none) : s ∈ g.known rd :=
  mem_known.mpr ⟨hs, by simp [SourceGraphInput.unknown, h]⟩

/-- A key's links join sources that carry one value of the key. -/
theorem of_keyLinks {key : SourceGraphInput → Option String} {a b : SourceId}
    (h : (a, b) ∈ g.keyLinks rd key) :
    ∃ s t, s ∈ g.sources ∧ t ∈ g.sources ∧ s.sourceId = a ∧ t.sourceId = b ∧
      key s ≠ none ∧ key s = key t := by
  simp only [keyLinks, buckets, List.map_map, List.mem_flatten, List.mem_map] at h
  obtain ⟨_, ⟨k, -, rfl⟩, h⟩ := h
  obtain ⟨ha, hb⟩ := mem_of_star h
  simp only [List.mem_map, List.mem_filter, decide_eq_true_eq] at ha hb
  obtain ⟨s, ⟨hs, hks⟩, rfl⟩ := ha
  obtain ⟨t, ⟨ht, hkt⟩, rfl⟩ := hb
  exact ⟨s, t, (mem_known.mp hs).1, (mem_known.mp ht).1, rfl, rfl, by simp [hks],
    hks.trans hkt.symm⟩

/-- A key's links connect the known sources that carry one value. -/
theorem eqvGen_keyLinks (key : SourceGraphInput → Option String)
    {r : SourceId → SourceId → Prop} (hr : ∀ a b, (a, b) ∈ g.keyLinks rd key → EqvGen r a b)
    {s t : SourceGraphInput} (hs : s ∈ g.known rd) (ht : t ∈ g.known rd)
    (hsome : key s ≠ none) (heq : key s = key t) : EqvGen r s.sourceId t.sourceId := by
  obtain ⟨k, hk⟩ := Option.ne_none_iff_exists'.mp hsome
  have hbucket : ((g.known rd).filter fun s => key s = some k).map (·.sourceId) ∈
      g.buckets rd key :=
    List.mem_map_of_mem (List.mem_eraseDups.mpr (List.mem_filterMap.mpr ⟨s, hs, hk⟩))
  have hin : ∀ u ∈ g.known rd, key u = some k →
      u.sourceId ∈ ((g.known rd).filter fun s => key s = some k).map (·.sourceId) :=
    fun u hu hku => List.mem_map_of_mem (List.mem_filter.mpr ⟨hu, decide_eq_true hku⟩)
  refine eqvGen_of_star (fun a b hab => hr a b ?_) (hin s hs hk) (hin t ht (heq ▸ hk))
  exact List.mem_flatten_of_mem (List.mem_map_of_mem hbucket) hab

theorem mem_textLinks {a b : SourceId} (h : (a, b) ∈ g.textLinks rd) :
    Linked rd g a b := by
  simp only [textLinks, List.mem_map, List.mem_filter] at h
  obtain ⟨p, ⟨hp, hover⟩, heq⟩ := h
  obtain ⟨rfl, rfl⟩ := Prod.mk.inj heq
  obtain ⟨h1, h2⟩ := mem_of_orderedPairs hp
  simp only [List.mem_filterMap, Option.map_eq_some_iff] at h1 h2
  obtain ⟨s, hs, u, hu, hsu⟩ := h1
  obtain ⟨t, ht, v, hv, htv⟩ := h2
  rw [← hsu, ← htv] at hover ⊢
  exact .text s t hs ht u v hu hv hover

theorem eqvGen_textLinks {r : SourceId → SourceId → Prop}
    (hr : ∀ a b, (a, b) ∈ g.textLinks rd → EqvGen r a b) {s t : SourceGraphInput}
    (hs : s ∈ g.known rd) (ht : t ∈ g.known rd) {u v : Finset String}
    (hu : s.words rd = some u) (hv : t.words rd = some v) (h : overlaps u v) :
    EqvGen r s.sourceId t.sourceId := by
  have hsm : (s.sourceId, u) ∈ (g.known rd).filterMap fun s =>
      (s.words rd).map fun w => (s.sourceId, w) :=
    List.mem_filterMap.mpr ⟨s, hs, by simp [hu]⟩
  have htm : (t.sourceId, v) ∈ (g.known rd).filterMap fun s =>
      (s.words rd).map fun w => (s.sourceId, w) :=
    List.mem_filterMap.mpr ⟨t, ht, by simp [hv]⟩
  rcases orderedPairs_total hsm htm with heq | hp | hp
  · rw [(Prod.mk.inj heq).1]
    exact .refl _
  · exact hr _ _ (List.mem_map.mpr ⟨_, List.mem_filter.mpr ⟨hp, h⟩, rfl⟩)
  · rw [overlaps_comm] at h
    exact (hr _ _ (List.mem_map.mpr ⟨_, List.mem_filter.mpr ⟨hp, h⟩, rfl⟩)).symm _ _

theorem mem_parentLinks {a b : SourceId} :
    (a, b) ∈ g.parentLinks ↔
      ∃ s ∈ g.sources, s.sourceId = a ∧ s.parentSourceId = some b ∧ b ∈ g.ids := by
  simp only [parentLinks, List.mem_filterMap]
  constructor
  · rintro ⟨s, hs, h⟩
    cases hp : s.parentSourceId with
    | none => simp [hp] at h
    | some p =>
      simp only [hp] at h
      split at h
      · rename_i hnode
        obtain ⟨rfl, rfl⟩ := Prod.mk.inj (Option.some.inj h)
        exact ⟨s, hs, rfl, hp, hnode⟩
      · cases h
  · rintro ⟨s, hs, rfl, hp, hnode⟩
    exact ⟨s, hs, by simp [hp, hnode]⟩

/-- Every union is a documented link. -/
theorem linked_of_links {a b : SourceId} (h : (a, b) ∈ g.links rd) :
    Linked rd g a b := by
  simp only [links, List.mem_append, or_assoc] at h
  rcases h with h | h | h | h | h | h | h
  · obtain ⟨s, t, hs, ht, rfl, rfl, hsome, heq⟩ := of_keyLinks h
    exact .domain s t hs ht hsome heq
  · obtain ⟨s, t, hs, ht, rfl, rfl, hsome, heq⟩ := of_keyLinks h
    exact .content s t hs ht hsome heq
  · exact mem_textLinks h
  · obtain ⟨s, hs, rfl, hp, hnode⟩ := mem_parentLinks.mp h
    exact .parent s b hs hp hnode
  · obtain ⟨c, hc, heq⟩ := List.mem_map.mp h
    obtain ⟨rfl, rfl⟩ := Prod.mk.inj heq
    exact .merge c (List.mem_filter.mp hc).1 (List.mem_filter.mp hc).2
  · obtain ⟨e, he, heq⟩ := List.mem_map.mp h
    obtain ⟨rfl, rfl⟩ := Prod.mk.inj heq
    exact .edge e (List.mem_filter.mp he).1 (List.mem_filter.mp he).2
  · obtain ⟨ha, hb⟩ := mem_of_star h
    simp only [List.mem_map, List.mem_filter] at ha hb
    obtain ⟨s, ⟨hs, hus⟩, rfl⟩ := ha
    obtain ⟨t, ⟨ht, hut⟩, rfl⟩ := hb
    exact .unknown s t hs ht hus hut

/-- The unions connect every documented link. -/
theorem eqvGen_of_linked {a b : SourceId} (h : Linked rd g a b) :
    EqvGen (fun a b => (a, b) ∈ g.links rd) a b := by
  have hmem : ∀ {a b : SourceId}, (a, b) ∈ g.links rd →
      EqvGen (fun a b => (a, b) ∈ g.links rd) a b := fun h => .rel _ _ h
  cases h with
  | domain s t hs ht hsome heq =>
    refine eqvGen_keyLinks (·.domain rd) (fun a b hab => hmem (by simp [links, hab]))
      (known_of_domain hs hsome) (known_of_domain ht ?_) hsome heq
    rwa [← heq]
  | content s t hs ht hsome heq =>
    have hkey : ∀ a b, (a, b) ∈ g.keyLinks rd (·.contentHash) → (a, b) ∈ g.links rd :=
      fun a b hab => by simp [links, hab]
    refine eqvGen_keyLinks (·.contentHash) (fun a b hab => hmem (hkey a b hab))
      (known_of_content hs hsome) (known_of_content ht ?_) hsome heq
    rwa [← heq]
  | text s t hs ht u v hu hv hover =>
    exact eqvGen_textLinks (fun a b hab => hmem (by simp [links, hab])) hs ht hu hv hover
  | parent s p hs hp hnode =>
    exact hmem (by simp [links, mem_parentLinks.mpr ⟨s, hs, rfl, hp, hnode⟩])
  | merge c hc h =>
    have : (c.fromId, c.toId) ∈ g.mergeLinks :=
      List.mem_map.mpr ⟨c, List.mem_filter.mpr ⟨hc, h⟩, rfl⟩
    exact hmem (by simp [links, this])
  | edge e he h =>
    have : (e.fromId, e.toId) ∈ g.edgeLinks :=
      List.mem_map.mpr ⟨e, List.mem_filter.mpr ⟨he, h⟩, rfl⟩
    exact hmem (by simp [links, this])
  | unknown s t hs ht hus hut =>
    refine eqvGen_of_star (l := (g.sources.filter fun s => s.unknown rd).map (·.sourceId))
      (fun a b hab => hmem ?_)
      (List.mem_map_of_mem (List.mem_filter.mpr ⟨hs, hus⟩))
      (List.mem_map_of_mem (List.mem_filter.mpr ⟨ht, hut⟩))
    exact List.mem_append_right _ hab

/-- **The union-find computes the documented connection.** -/
theorem links_eqvGen_iff {a b : SourceId} :
    EqvGen (fun a b => (a, b) ∈ g.links rd) a b ↔ EqvGen (Linked rd g) a b := by
  constructor
  · exact EqvGen.eqvGen_le (fun _ _ h => .rel _ _ (linked_of_links h)) a b
  · exact EqvGen.eqvGen_le (fun _ _ h => eqvGen_of_linked h) a b

end SourceGraph

/-! ## Group names -/

/-- The roots in the order the naming loop meets them. -/
def rootsSeen (root : SourceId → SourceId) (seen l : List SourceId) : List SourceId :=
  l.foldl (fun seen s => if root s ∈ seen then seen else seen ++ [root s]) seen

theorem rootsSeen_keeps (root : SourceId → SourceId) (seen l : List SourceId) :
    ∃ more, rootsSeen root seen l = seen ++ more := by
  induction l generalizing seen with
  | nil => exact ⟨[], (List.append_nil _).symm⟩
  | cons s rest ih =>
    obtain ⟨more, hmore⟩ := ih (if root s ∈ seen then seen else seen ++ [root s])
    refine ⟨(if root s ∈ seen then [] else [root s]) ++ more, ?_⟩
    show rootsSeen root _ rest = _
    rw [hmore]
    split <;> simp

theorem mem_rootsSeen {root : SourceId → SourceId} {l : List SourceId} {s : SourceId}
    (seen : List SourceId) (hs : s ∈ l) : root s ∈ rootsSeen root seen l := by
  induction l generalizing seen with
  | nil => cases hs
  | cons t rest ih =>
    rcases List.mem_cons.mp hs with rfl | hs
    · obtain ⟨more, hmore⟩ := rootsSeen_keeps root
        (if root s ∈ seen then seen else seen ++ [root s]) rest
      show root s ∈ rootsSeen root _ rest
      rw [hmore]
      apply List.mem_append_left
      split
      · assumption
      · simp
    · exact ih _ hs

/-- A source's name is the index of its root. -/
theorem nameGroups_eq (f : Forest SourceId) (root : SourceId → SourceId)
    (hroot : ∀ y, f.root y = root y) (seen l : List SourceId) :
    nameGroups f seen l =
      l.map fun s => (s, "g" ++ Nat.repr ((rootsSeen root seen l).idxOf (root s))) := by
  induction l generalizing f seen with
  | nil => rfl
  | cons s rest ih =>
    obtain ⟨hfind, hsame⟩ := f.find_root s
    have hs : (f.find s).2 = root s := hfind.trans (hroot s)
    simp only [nameGroups, List.map_cons, hs]
    rw [ih (f.find s).1 (fun y => (hsame y).trans (hroot y))]
    have hstep : rootsSeen root seen (s :: rest) =
        rootsSeen root (if root s ∈ seen then seen else seen ++ [root s]) rest := rfl
    rw [hstep]
    congr 3
    obtain ⟨more, hmore⟩ := rootsSeen_keeps root
      (if root s ∈ seen then seen else seen ++ [root s]) rest
    rw [hmore, List.idxOf_append_of_mem]
    split
    · assumption
    · simp

theorem lookup_map_self {β : Type*} {f : SourceId → β} {l : List SourceId} {s : SourceId}
    (hs : s ∈ l) : (l.map fun s => (s, f s)).lookup s = some (f s) := by
  induction l with
  | nil => cases hs
  | cons t rest ih =>
    rw [List.map_cons, List.lookup_cons]
    by_cases h : s = t
    · rw [h, beq_self_eq_true]
    · rw [beq_false_of_ne h]
      exact ih ((List.mem_cons.mp hs).resolve_left h)

section Names

variable (rd : TextReader) (g : SourceGraph)

/-- Every node has a group, and its name is a `g` with a number. -/
theorem groupSourceGraph_lookup {s : SourceId} (hs : s ∈ g.ids) :
    ∃ n : Nat, (groupSourceGraph rd g).lookup s = some ("g" ++ Nat.repr n) := by
  rw [groupSourceGraph, nameGroups_eq _ _ fun _ => rfl, lookup_map_self hs]
  exact ⟨_, rfl⟩

/-- **The groups are the connected classes**: two nodes share a group exactly when
documented links connect them. -/
theorem groupSourceGraph_eq_iff {s t : SourceId} (hs : s ∈ g.ids) (ht : t ∈ g.ids) :
    (groupSourceGraph rd g).lookup s = (groupSourceGraph rd g).lookup t ↔
      EqvGen (SourceGraph.Linked rd g) s t := by
  rw [← SourceGraph.links_eqvGen_iff, ← Forest.unions_root]
  rw [groupSourceGraph, nameGroups_eq _ _ fun _ => rfl, lookup_map_self hs,
    lookup_map_self ht, Option.some_inj, String.append_right_inj, Nat.repr_inj,
    List.idxOf_inj (mem_rootsSeen _ hs)]

end Names

end Noezema.Memory
