import Noezema.Memory.SourceGraph

/-! # The closure of the documented facts

The documentation of `group_source_graph` counts as one what these facts tie: one
registrable domain, one content, overlapping texts, a parent inside the graph, a valid
merge, a dependency edge, and no lineage on both sides. The code takes less and more:
it leaves out the texts of sources without domain and content, and calls all of these
lineage-unknown although some have a URI, a parent or a text.

`partitionIsClosure_iff`: when the groups are the closure all the same.
-/

namespace Noezema.Memory

open Relation

/-- No URI, no content hash, no parent, no sample text. -/
def SourceGraphInput.lineageUnknown (s : SourceGraphInput) : Bool :=
  s.canonicalUri.getD "" = "" ∧ s.contentHash = none ∧ s.parentSourceId = none ∧
    s.sampleText.getD "" = ""

namespace SourceGraph

/-- The algorithmic facts of the documentation: they are data, and no split undoes
them. -/
inductive Fact (rd : TextReader) (g : SourceGraph) : SourceId → SourceId → Prop where
  /-- One registrable domain. -/
  | domain (a b : SourceGraphInput) (ha : a ∈ g.sources) (hb : b ∈ g.sources)
      (some : a.domain rd ≠ none) (same : a.domain rd = b.domain rd) :
      Fact rd g a.sourceId b.sourceId
  /-- One document. -/
  | content (a b : SourceGraphInput) (ha : a ∈ g.sources) (hb : b ∈ g.sources)
      (some : a.contentHash ≠ none) (same : a.contentHash = b.contentHash) :
      Fact rd g a.sourceId b.sourceId
  /-- Overlapping texts, of any two sources. -/
  | text (a b : SourceGraphInput) (ha : a ∈ g.sources) (hb : b ∈ g.sources)
      (u v : Finset String) (hu : a.words rd = some u) (hv : b.words rd = some v)
      (overlap : overlaps u v) : Fact rd g a.sourceId b.sourceId
  /-- Child and parent, both nodes. -/
  | parent (a : SourceGraphInput) (p : SourceId) (ha : a ∈ g.sources)
      (hp : a.parentSourceId = some p) (node : p ∈ g.ids) : Fact rd g a.sourceId p

/-- Everything the documentation lets count two sources as one. -/
inductive Documented (rd : TextReader) (g : SourceGraph) : SourceId → SourceId → Prop where
  | fact {a b : SourceId} (h : Fact rd g a b) : Documented rd g a b
  /-- A valid merge that no split contradicts. -/
  | merge (c : SourceGraphCorrection) (hc : c ∈ g.corrections) (merges : g.merges c) :
      Documented rd g c.fromId c.toId
  /-- A dependency edge between nodes that no split cancels. -/
  | edge (e : SourceGraphEdge) (he : e ∈ g.edges) (ties : g.ties e) :
      Documented rd g e.fromId e.toId
  /-- No lineage on either side. -/
  | unknown (a b : SourceGraphInput) (ha : a ∈ g.sources) (hb : b ∈ g.sources)
      (ua : a.lineageUnknown) (ub : b.lineageUnknown) : Documented rd g a.sourceId b.sourceId

/-- The graphs the callers build: distinct ids, and nothing about other ids. -/
structure WellFormed (g : SourceGraph) : Prop where
  nodup : g.ids.Nodup
  edges : ∀ e ∈ g.edges, e.fromId ∈ g.ids ∧ e.toId ∈ g.ids
  corrections : ∀ c ∈ g.corrections, c.fromId ∈ g.ids ∧ c.toId ∈ g.ids

/-- The graph with one more correction. -/
def correct (g : SourceGraph) (c : SourceGraphCorrection) : SourceGraph :=
  { g with corrections := c :: g.corrections }

/-- A valid split of two nodes. -/
structure IsSplit (g : SourceGraph) (c : SourceGraphCorrection) : Prop where
  kind : c.kind = .split
  valid : c.valid
  nodes : c.fromId ∈ g.ids ∧ c.toId ∈ g.ids

/-- A source that keeps every fact of another. -/
structure KeepsFacts (rd : TextReader) (s s' : SourceGraphInput) : Prop where
  sourceId : s'.sourceId = s.sourceId
  domain : s.domain rd ≠ none → s'.domain rd = s.domain rd
  contentHash : s.contentHash ≠ none → s'.contentHash = s.contentHash
  words : s.words rd ≠ none → s'.words rd = s.words rd
  parent : s.parentSourceId ≠ none → s'.parentSourceId = s.parentSourceId
  lineageUnknown : s.lineageUnknown → s'.lineageUnknown

/-- A graph that has every fact of another and maybe more. -/
structure Grows (rd : TextReader) (g g' : SourceGraph) : Prop where
  sources : ∀ s ∈ g.sources, ∃ s' ∈ g'.sources, KeepsFacts rd s s'
  merge : ∀ c ∈ g.corrections, g.merges c → c ∈ g'.corrections ∧ g'.merges c
  edge : ∀ e ∈ g.edges, g.ties e → e ∈ g'.edges ∧ g'.ties e

section Groups

variable (rd : TextReader)

/-- Two sources have one group. -/
def Same (g : SourceGraph) (s t : SourceId) : Prop :=
  (groupSourceGraph rd g).lookup s = (groupSourceGraph rd g).lookup t

/-- What the documentation promises of the groups of a graph. -/
structure PartitionIsClosure (g : SourceGraph) : Prop where
  closure : ∀ s ∈ g.ids, ∀ t ∈ g.ids, g.Same rd s t ↔ EqvGen (Documented rd g) s t
  order : ∀ g' : SourceGraph, g'.sources.Perm g.sources → g'.edges.Perm g.edges →
    g'.corrections.Perm g.corrections → ∀ s ∈ g.ids, ∀ t ∈ g.ids,
    (g'.Same rd s t ↔ g.Same rd s t)
  splitNeverMerges : ∀ c, g.IsSplit c → ∀ s ∈ g.ids, ∀ t ∈ g.ids,
    (g.correct c).Same rd s t → g.Same rd s t
  splitKeepsFacts : ∀ c, g.IsSplit c → ∀ s ∈ g.ids, ∀ t ∈ g.ids,
    EqvGen (Fact rd g) s t → (g.correct c).Same rd s t
  growthNeverSeparates : ∀ g' : SourceGraph, g'.WellFormed → g.Grows rd g' →
    ∀ s ∈ g.ids, ∀ t ∈ g.ids, g.Same rd s t → g'.Same rd s t

/-- The unions of a graph connect a source without domain and content with every
source of `g` whose text overlaps its own. -/
def JoinsTexts (g g' : SourceGraph) : Prop :=
  ∀ a ∈ g.sources, ∀ b ∈ g.sources, a.unknown rd → ∀ u v, a.words rd = some u →
    b.words rd = some v → overlaps u v → EqvGen (Linked rd g') a.sourceId b.sourceId

/-- The sources without domain and content belong where the documentation puts them:
other facts connect any two of them, and what their texts overlap is connected without
these texts, also after a split and in any graph with more facts. -/
structure LineageJoined (g : SourceGraph) : Prop where
  unknown : ∀ a ∈ g.sources, ∀ b ∈ g.sources, a.unknown rd → b.unknown rd →
    EqvGen (Documented rd g) a.sourceId b.sourceId
  split : ∀ c, g.IsSplit c → g.JoinsTexts rd (g.correct c)
  grown : ∀ g' : SourceGraph, g'.WellFormed → g.Grows rd g' → g.JoinsTexts rd g'

end Groups

/-! ## Graphs with the same or more links -/

variable {rd : TextReader} {g g' : SourceGraph}

theorem same_iff {s t : SourceId} (hs : s ∈ g.ids) (ht : t ∈ g.ids) :
    g.Same rd s t ↔ EqvGen (Linked rd g) s t :=
  groupSourceGraph_eq_iff rd g hs ht

/-- The same sources and no fewer merges and edges: no fewer links. -/
theorem Linked.mono {a b : SourceId} (hsources : ∀ s ∈ g.sources, s ∈ g'.sources)
    (hmerge : ∀ c ∈ g.corrections, g.merges c → c ∈ g'.corrections ∧ g'.merges c)
    (hedge : ∀ e ∈ g.edges, g.ties e → e ∈ g'.edges ∧ g'.ties e)
    (h : Linked rd g a b) : Linked rd g' a b := by
  have hknown : ∀ s ∈ g.known rd, s ∈ g'.known rd := fun s hs =>
    mem_known.mpr ⟨hsources s (mem_known.mp hs).1, (mem_known.mp hs).2⟩
  cases h with
  | domain a b ha hb hsome same => exact .domain a b (hsources a ha) (hsources b hb) hsome same
  | content a b ha hb hsome same =>
    exact .content a b (hsources a ha) (hsources b hb) hsome same
  | text a b ha hb u v hu hv overlap =>
    exact .text a b (hknown a ha) (hknown b hb) u v hu hv overlap
  | parent a p ha hp node =>
    obtain ⟨s, hs, rfl⟩ := List.mem_map.mp node
    exact .parent a _ (hsources a ha) hp (List.mem_map_of_mem (hsources s hs))
  | merge c hc merges =>
    obtain ⟨hc', merges'⟩ := hmerge c hc merges
    exact .merge c hc' merges'
  | edge e he ties =>
    obtain ⟨he', ties'⟩ := hedge e he ties
    exact .edge e he' ties'
  | unknown a b ha hb ua ub => exact .unknown a b (hsources a ha) (hsources b hb) ua ub

theorem splits_congr (h : ∀ c, c ∈ g'.corrections ↔ c ∈ g.corrections) (a b : SourceId) :
    g'.splits a b = g.splits a b := by
  rw [Bool.eq_iff_iff]
  simp only [splits, List.any_eq_true, h]

/-- The links do not depend on the order of the lists. -/
theorem linked_of_perm (hs : g'.sources.Perm g.sources) (he : g'.edges.Perm g.edges)
    (hc : g'.corrections.Perm g.corrections) {a b : SourceId} (h : Linked rd g a b) :
    Linked rd g' a b := by
  have hsplits : ∀ a b, g'.splits a b = g.splits a b := splits_congr fun c => hc.mem_iff
  have hids : ∀ a, a ∈ g'.ids ↔ a ∈ g.ids := fun a => (hs.map (·.sourceId)).mem_iff
  apply h.mono
  · exact fun s h => hs.mem_iff.mpr h
  · intro c h merges
    refine ⟨hc.mem_iff.mpr h, ?_⟩
    rw [← merges, SourceGraph.merges, SourceGraph.merges, hsplits]
  · intro e h ties
    refine ⟨he.mem_iff.mpr h, ?_⟩
    rw [← ties]
    simp only [SourceGraph.ties, hsplits, hids]

/-- **The order of the input is no matter.** -/
theorem same_of_perm (hs : g'.sources.Perm g.sources) (he : g'.edges.Perm g.edges)
    (hc : g'.corrections.Perm g.corrections) {s t : SourceId} (hms : s ∈ g.ids)
    (hmt : t ∈ g.ids) : g'.Same rd s t ↔ g.Same rd s t := by
  have hids : ∀ a, a ∈ g.ids → a ∈ g'.ids := fun a => (hs.map (·.sourceId)).mem_iff.mpr
  rw [same_iff (hids s hms) (hids t hmt), same_iff hms hmt]
  constructor
  · exact EqvGen.eqvGen_le (fun _ _ h => .rel _ _ (linked_of_perm hs.symm he.symm hc.symm h)) s t
  · exact EqvGen.eqvGen_le (fun _ _ h => .rel _ _ (linked_of_perm hs he hc h)) s t

/-! ## One more split -/

theorem splits_correct {c : SourceGraphCorrection} {a b : SourceId}
    (h : (g.correct c).splits a b = false) : g.splits a b = false := by
  simp only [splits, correct, List.any_cons, Bool.or_eq_false_iff] at h
  exact h.2

/-- After a split there are no other links than before. -/
theorem linked_of_split {c : SourceGraphCorrection} (hc : g.IsSplit c) {a b : SourceId}
    (h : Linked rd (g.correct c) a b) : Linked rd g a b := by
  apply h.mono
  · exact fun s h => h
  · intro d hd hmerges
    simp only [merges, decide_eq_true_eq] at hmerges
    obtain ⟨hvalid, hkind, hclear⟩ := hmerges
    rcases List.mem_cons.mp hd with rfl | hd
    · rw [hc.kind] at hkind
      cases hkind
    · exact ⟨hd, by simp [merges, hvalid, hkind, splits_correct hclear]⟩
  · intro e he hties
    simp only [ties, decide_eq_true_eq] at hties
    obtain ⟨hfrom, hto, hclear⟩ := hties
    refine ⟨he, ?_⟩
    simp only [ties, decide_eq_true_eq]
    exact ⟨hfrom, hto, splits_correct hclear⟩

/-- **A split never merges.** -/
theorem same_of_split {c : SourceGraphCorrection} (hc : g.IsSplit c) {s t : SourceId}
    (hs : s ∈ g.ids) (ht : t ∈ g.ids) (h : (g.correct c).Same rd s t) : g.Same rd s t := by
  rw [same_iff hs ht]
  exact EqvGen.eqvGen_le (fun _ _ h => .rel _ _ (linked_of_split hc h)) s t
    ((same_iff (g := g.correct c) hs ht).mp h)

/-! ## The facts and the links -/

theorem unknown_of_lineageUnknown {s : SourceGraphInput} (h : s.lineageUnknown) :
    s.unknown rd := by
  simp only [SourceGraphInput.lineageUnknown, decide_eq_true_eq] at h
  obtain ⟨huri, hhash, -, -⟩ := h
  have hdomain : s.domain rd = none := by
    cases hu : s.canonicalUri with
    | none => simp [SourceGraphInput.domain, hu]
    | some uri =>
      rw [hu, Option.getD_some] at huri
      simp [SourceGraphInput.domain, hu, huri]
  simp [SourceGraphInput.unknown, hdomain, hhash]

theorem KeepsFacts.refl (s : SourceGraphInput) : KeepsFacts rd s s :=
  ⟨rfl, fun _ => rfl, fun _ => rfl, fun _ => rfl, fun _ => rfl, id⟩

/-- A source with domain or content keeps one of them. -/
theorem KeepsFacts.known {s s' : SourceGraphInput} (h : KeepsFacts rd s s')
    (hs : s.unknown rd = false) : s'.unknown rd = false := by
  simp only [SourceGraphInput.unknown, decide_eq_false_iff_not, not_and_or] at hs ⊢
  rcases hs with hd | hc
  · exact .inl (by rw [h.domain hd]; exact hd)
  · exact .inr (by rw [h.contentHash hc]; exact hc)

theorem Grows.refl (g : SourceGraph) : g.Grows rd g where
  sources s hs := ⟨s, hs, .refl s⟩
  merge _ hc merges := ⟨hc, merges⟩
  edge _ he ties := ⟨he, ties⟩

theorem Grows.ids (h : g.Grows rd g') {s : SourceId} (hs : s ∈ g.ids) : s ∈ g'.ids := by
  obtain ⟨i, hi, rfl⟩ := List.mem_map.mp hs
  obtain ⟨i', hi', hk⟩ := h.sources i hi
  exact List.mem_map.mpr ⟨i', hi', hk.sourceId⟩

/-- The data of a source, kept: where the texts are joined, the links connect what the
facts tie. -/
theorem eqvGen_of_fact (hsources : ∀ s ∈ g.sources, ∃ s' ∈ g'.sources, KeepsFacts rd s s')
    (htexts : g.JoinsTexts rd g') {a b : SourceId} (h : Fact rd g a b) :
    EqvGen (Linked rd g') a b := by
  cases h with
  | domain a b ha hb hsome same =>
    obtain ⟨a', ha', ka⟩ := hsources a ha
    obtain ⟨b', hb', kb⟩ := hsources b hb
    rw [← ka.sourceId, ← kb.sourceId]
    refine .rel _ _ (.domain a' b' ha' hb' ?_ ?_)
    · rwa [ka.domain hsome]
    · rw [ka.domain hsome, kb.domain (same ▸ hsome), same]
  | content a b ha hb hsome same =>
    obtain ⟨a', ha', ka⟩ := hsources a ha
    obtain ⟨b', hb', kb⟩ := hsources b hb
    rw [← ka.sourceId, ← kb.sourceId]
    refine .rel _ _ (.content a' b' ha' hb' ?_ ?_)
    · rwa [ka.contentHash hsome]
    · rw [ka.contentHash hsome, kb.contentHash (same ▸ hsome), same]
  | text a b ha hb u v hu hv overlap =>
    by_cases ua : a.unknown rd
    · exact htexts a ha b hb ua u v hu hv overlap
    by_cases ub : b.unknown rd
    · rw [overlaps_comm] at overlap
      exact (htexts b hb a ha ub v u hv hu overlap).symm _ _
    -- both have a lineage, and the code compares the texts
    obtain ⟨a', ha', ka⟩ := hsources a ha
    obtain ⟨b', hb', kb⟩ := hsources b hb
    have hua : a'.words rd = some u := (ka.words (by simp [hu])).trans hu
    have hvb : b'.words rd = some v := (kb.words (by simp [hv])).trans hv
    have hna : a'.unknown rd = false := ka.known (eq_false_of_ne_true ua)
    have hnb : b'.unknown rd = false := kb.known (eq_false_of_ne_true ub)
    rw [← ka.sourceId, ← kb.sourceId]
    exact .rel _ _ (.text a' b' (mem_known.mpr ⟨ha', hna⟩) (mem_known.mpr ⟨hb', hnb⟩) u v
      hua hvb overlap)
  | parent a p ha hp node =>
    obtain ⟨a', ha', ka⟩ := hsources a ha
    obtain ⟨q, hq, rfl⟩ := List.mem_map.mp node
    obtain ⟨q', hq', kq⟩ := hsources q hq
    rw [← ka.sourceId, ← kq.sourceId]
    refine .rel _ _ (.parent a' _ ha' ?_ (List.mem_map_of_mem hq'))
    rw [ka.parent (by simp [hp]), hp, kq.sourceId]

/-- The links of a grown graph connect what the documentation ties. -/
theorem eqvGen_of_documented (hg : g.Grows rd g') (htexts : g.JoinsTexts rd g')
    {a b : SourceId} (h : Documented rd g a b) : EqvGen (Linked rd g') a b := by
  cases h with
  | fact h => exact eqvGen_of_fact hg.sources htexts h
  | merge c hc merges =>
    obtain ⟨hc', merges'⟩ := hg.merge c hc merges
    exact .rel _ _ (.merge c hc' merges')
  | edge e he ties =>
    obtain ⟨he', ties'⟩ := hg.edge e he ties
    exact .rel _ _ (.edge e he' ties')
  | unknown a b ha hb ua ub =>
    obtain ⟨a', ha', ka⟩ := hg.sources a ha
    obtain ⟨b', hb', kb⟩ := hg.sources b hb
    rw [← ka.sourceId, ← kb.sourceId]
    exact .rel _ _ (.unknown a' b' ha' hb' (unknown_of_lineageUnknown (ka.lineageUnknown ua))
      (unknown_of_lineageUnknown (kb.lineageUnknown ub)))

/-- The documentation ties what a link joins, where it ties the sources the code
calls unknown. -/
theorem documented_of_linked
    (hunknown : ∀ a ∈ g.sources, ∀ b ∈ g.sources, a.unknown rd → b.unknown rd →
      EqvGen (Documented rd g) a.sourceId b.sourceId)
    {a b : SourceId} (h : Linked rd g a b) : EqvGen (Documented rd g) a b := by
  cases h with
  | domain a b ha hb hsome same => exact .rel _ _ (.fact (.domain a b ha hb hsome same))
  | content a b ha hb hsome same => exact .rel _ _ (.fact (.content a b ha hb hsome same))
  | text a b ha hb u v hu hv overlap =>
    exact .rel _ _ (.fact (.text a b (mem_known.mp ha).1 (mem_known.mp hb).1 u v hu hv overlap))
  | parent a p ha hp node => exact .rel _ _ (.fact (.parent a _ ha hp node))
  | merge c hc merges => exact .rel _ _ (.merge c hc merges)
  | edge e he ties => exact .rel _ _ (.edge e he ties)
  | unknown a b ha hb ua ub => exact hunknown a ha b hb ua ub

/-! ## When the groups are the closure -/

theorem LineageJoined.eqvGen_iff (hg : g.WellFormed) (h : g.LineageJoined rd)
    {s t : SourceId} : EqvGen (Linked rd g) s t ↔ EqvGen (Documented rd g) s t := by
  constructor
  · exact EqvGen.eqvGen_le (fun _ _ => documented_of_linked h.unknown) s t
  · exact EqvGen.eqvGen_le
      (fun _ _ => eqvGen_of_documented (.refl g) (h.grown g hg (.refl g))) s t

/-- **When the partition is the documented closure**: exactly when the sources
without domain and content are connected as the documentation wants it. -/
theorem partitionIsClosure_iff (rd : TextReader) (g : SourceGraph) (hg : g.WellFormed) :
    g.PartitionIsClosure rd ↔ g.LineageJoined rd := by
  constructor
  · intro h
    constructor
    · intro a ha b hb ua ub
      have hma : a.sourceId ∈ g.ids := List.mem_map_of_mem ha
      have hmb : b.sourceId ∈ g.ids := List.mem_map_of_mem hb
      rw [← h.closure _ hma _ hmb, same_iff hma hmb]
      exact .rel _ _ (.unknown a b ha hb ua ub)
    · intro c hc a ha b hb _ u v hu hv overlap
      have hma : a.sourceId ∈ g.ids := List.mem_map_of_mem ha
      have hmb : b.sourceId ∈ g.ids := List.mem_map_of_mem hb
      rw [← same_iff (g := g.correct c) hma hmb]
      exact h.splitKeepsFacts c hc _ hma _ hmb (.rel _ _ (.text a b ha hb u v hu hv overlap))
    · -- the overlap ties the two in `g`, and growth does not separate them
      intro g' hg' grows a ha b hb _ u v hu hv overlap
      have hma : a.sourceId ∈ g.ids := List.mem_map_of_mem ha
      have hmb : b.sourceId ∈ g.ids := List.mem_map_of_mem hb
      rw [← same_iff (grows.ids hma) (grows.ids hmb)]
      refine h.growthNeverSeparates g' hg' grows _ hma _ hmb ((h.closure _ hma _ hmb).mpr ?_)
      exact .rel _ _ (.fact (.text a b ha hb u v hu hv overlap))
  · intro h
    constructor
    · intro s hs t ht
      rw [same_iff hs ht, h.eqvGen_iff hg]
    · intro g' hs he hc s hms t hmt
      exact same_of_perm hs he hc hms hmt
    · intro c hc s hs t ht
      exact same_of_split hc hs ht
    · intro c hc s hs t ht hfacts
      rw [same_iff (g := g.correct c) hs ht]
      have hsources : ∀ s ∈ g.sources, ∃ s' ∈ (g.correct c).sources, KeepsFacts rd s s' :=
        fun s hs => ⟨s, hs, .refl s⟩
      apply EqvGen.eqvGen_le _ s t hfacts
      exact fun _ _ => eqvGen_of_fact hsources (h.split c hc)
    · intro g' hg' grows s hs t ht hsame
      rw [same_iff hs ht, h.eqvGen_iff hg] at hsame
      rw [same_iff (grows.ids hs) (grows.ids ht)]
      apply EqvGen.eqvGen_le _ s t hsame
      exact fun _ _ => eqvGen_of_documented grows (h.grown g' hg' grows)

/-- A reader for sources without URI whose texts are one word each. -/
def oneWord : TextReader where
  hostname _ := none
  isDigit := Char.isDigit
  wordSet text := {text}
  short := Nat.repr

/-- Two mirrors of one document. -/
def mirrors : SourceGraph where
  sources := [⟨1, none, some "d0c5", some "red", none⟩, ⟨2, none, some "d0c5", none, none⟩]
  edges := []
  corrections := []

theorem mirrors_wellFormed : mirrors.WellFormed := by
  constructor <;> decide

theorem mirrors_known : ∀ a ∈ mirrors.sources, a.unknown oneWord = false := by decide

theorem partitionIsClosure_mirrors : mirrors.PartitionIsClosure oneWord := by
  refine (partitionIsClosure_iff oneWord mirrors mirrors_wellFormed).mpr ⟨?_, ?_, ?_⟩
  · intro a ha _ _ ua
    rw [mirrors_known a ha] at ua
    cases ua
  · intro _ _ a ha _ _ ua
    rw [mirrors_known a ha] at ua
    cases ua
  · intro _ _ _ a ha _ _ ua
    rw [mirrors_known a ha] at ua
    cases ua

/-- Two notes without URI and content hash, of different texts. -/
def notes : SourceGraph where
  sources := [⟨1, none, none, some "red", none⟩, ⟨2, none, none, some "blue", none⟩]
  edges := []
  corrections := []

/-- No documented fact is about two notes. -/
theorem eq_of_documented_notes {a b : SourceId} (h : Documented oneWord notes a b) : a = b := by
  have hdomain : ∀ s ∈ notes.sources, s.domain oneWord = none := by decide
  have hhash : ∀ s ∈ notes.sources, s.contentHash = none := by decide
  have hparent : ∀ s ∈ notes.sources, s.parentSourceId = none := by decide
  have hlineage : ∀ s ∈ notes.sources, s.lineageUnknown = false := by decide
  have htext : ∀ s ∈ notes.sources, ∀ t ∈ notes.sources, ∀ u ∈ s.words oneWord,
      ∀ v ∈ t.words oneWord, overlaps u v → s.sourceId = t.sourceId := by decide
  cases h with
  | fact h =>
    cases h with
    | domain a b ha hb hsome same => exact absurd (hdomain a ha) hsome
    | content a b ha hb hsome same => exact absurd (hhash a ha) hsome
    | text a b ha hb u v hu hv overlap => exact htext a ha b hb u hu v hv overlap
    | parent a p ha hp node =>
      rw [hparent a ha] at hp
      cases hp
  | merge c hc merges => cases hc
  | edge e he ties => cases he
  | unknown a b ha hb ua ub =>
    rw [hlineage a ha] at ua
    cases ua

/-- The code counts the two notes as one source. -/
theorem partition_not_closure :
    ¬ ∀ (rd : TextReader) (g : SourceGraph), g.WellFormed → g.PartitionIsClosure rd := by
  intro h
  have hnotes := h oneWord notes (by constructor <;> decide)
  have hsame : notes.Same oneWord 1 2 :=
    (same_iff (by decide) (by decide)).mpr
      (.rel _ _ (.unknown notes.sources[0] notes.sources[1] (by decide) (by decide)
        (by decide) (by decide)))
  have htied := (hnotes.closure 1 (by decide) 2 (by decide)).mp hsame
  have heq := EqvGen.eqvGen_le (fun _ _ hd => eq_of_documented_notes hd) 1 2 htied
  exact absurd heq (by decide)

end SourceGraph

end Noezema.Memory
