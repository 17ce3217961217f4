import Noezema.Memory.SourceClosure

/-! # The recorded basis

Beside its group every source gets a basis, the text of what ties it into the group. The
unions are long done then, and the basis is searched for anew, by tests of its own. The
last search for an edge is by another test than the one that has found that there is one.

`trueBasis_iff`: when the text names a tie to another member.
-/

namespace Noezema.Memory

open Relation

namespace SourceGraph

/-- The basis of an edge. -/
def edgeText (rd : TextReader) (e : SourceGraphEdge) : String :=
  "edge:" ++ e.kind ++ ":" ++ rd.short e.edgeId

/-- One of a pair's ends is the source. -/
def AtEnd (s a b : SourceId) : Prop := s = a ∨ s = b

instance (s a b : SourceId) : Decidable (AtEnd s a b) :=
  inferInstanceAs (Decidable (s = a ∨ s = b))

/-- The pair is the two sources, in one order. -/
def IsPair (s o a b : SourceId) : Prop := s = a ∧ o = b ∨ s = b ∧ o = a

/-- What ties a source to another one by a union of the code, and the text that names it.
A parent link is a fact of the child. -/
inductive Reason (rd : TextReader) (g : SourceGraph) (s o : SourceGraphInput) :
    String → Prop where
  | unknown (us : s.unknown rd) (uo : o.unknown rd) : Reason rd g s o "unknown_lineage"
  | parent (hp : s.parentSourceId = some o.sourceId) :
      Reason rd g s o ("parent:" ++ rd.short o.sourceId)
  | merge (c : SourceGraphCorrection) (hc : c ∈ g.corrections) (hmerges : g.merges c)
      (pair : IsPair s.sourceId o.sourceId c.fromId c.toId) : Reason rd g s o "correction:merge"
  | edge (e : SourceGraphEdge) (he : e ∈ g.edges) (hties : g.ties e)
      (pair : IsPair s.sourceId o.sourceId e.fromId e.toId) : Reason rd g s o (edgeText rd e)
  | domain (d : String) (hs : s.domain rd = some d) (ho : o.domain rd = some d) :
      Reason rd g s o ("domain:" ++ d)
  | content (c : String) (hs : s.contentHash = some c) (ho : o.contentHash = some c) :
      Reason rd g s o ("content:" ++ String.ofList (c.toList.take 12))
  | text (ks : s.unknown rd = false) (ko : o.unknown rd = false) (u v : Finset String)
      (hu : s.words rd = some u) (hv : o.words rd = some v) (overlap : overlaps u v) :
      Reason rd g s o "text_overlap"

section Basis

variable (rd : TextReader) (g : SourceGraph) (s : SourceGraphInput)

/-- Another member of the group of the source. -/
def Fellow (o : SourceGraphInput) : Prop :=
  o ∈ g.sameGroup rd s.sourceId ∧ o.sourceId ≠ s.sourceId

/-- The text names what ties the source to another member. -/
def Named (text : String) : Prop := ∃ o, g.Fellow rd s o ∧ Reason rd g s o text

/-- **The recorded basis is a true reason**: it names a tie to another member; or it says
`single` and none of the source's own facts ties it to another member; or the source
without lineage is alone. -/
def TrueBasis : Prop :=
  g.Named rd s (g.basis rd s) ∨
    (g.basis rd s = "single" ∧ ∀ o, g.Fellow rd s o → ∀ text, ¬ Reason rd g s o text) ∨
    (g.basis rd s = "unknown_lineage" ∧ ∀ o, ¬ g.Fellow rd s o)

/-! ## What the search asks -/

/-- The unions connect another source with the source. -/
def Joined (o : SourceGraphInput) : Prop :=
  o ∈ g.sources ∧ o.sourceId ≠ s.sourceId ∧ EqvGen (Linked rd g) s.sourceId o.sourceId

/-- Another node is the parent. -/
def HasParent : Prop :=
  ∃ p, s.parentSourceId = some p ∧ p ∈ g.ids ∧ p ≠ s.sourceId

/-- A merge at the source that no split contradicts. -/
def HasMerge : Prop :=
  ∃ c ∈ g.corrections, g.merges c ∧ AtEnd s.sourceId c.fromId c.toId

/-- A dependency edge at the source that no split cancels. -/
def HasEdge : Prop :=
  ∃ e ∈ g.edges, g.ties e ∧ AtEnd s.sourceId e.fromId e.toId

def HasDomain : Prop :=
  ∃ o ∈ g.sources, o.sourceId ≠ s.sourceId ∧ s.domain rd ≠ none ∧ o.domain rd = s.domain rd

def HasContent : Prop :=
  ∃ o ∈ g.sources, o.sourceId ≠ s.sourceId ∧ s.contentHash ≠ none ∧
    o.contentHash = s.contentHash

/-- The texts of two sources overlap. -/
def TextsOverlap (o : SourceGraphInput) : Prop :=
  ∃ u v, s.words rd = some u ∧ o.words rd = some v ∧ overlaps u v

/-- An edge at the source whose ends are in one group, cancelled or not. -/
def InGroup (e : SourceGraphEdge) : Prop :=
  e.fromId ∈ g.ids ∧ e.toId ∈ g.ids ∧ EqvGen (Linked rd g) e.fromId e.toId ∧
    AtEnd s.sourceId e.fromId e.toId

/-- The first such edge of the list. -/
def IsFirstEdge (e : SourceGraphEdge) : Prop :=
  g.InGroup rd s e ∧ ∃ before after, g.edges = before ++ e :: after ∧
    ∀ x ∈ before, ¬ g.InGroup rd s x

/-- The source has a domain or a content, and neither a parent nor a merge nor an edge. -/
structure Untied : Prop where
  known : s.unknown rd = false
  noParent : ¬ g.HasParent s
  noMerge : ¬ g.HasMerge s
  noEdge : ¬ g.HasEdge s

/-- **The basis that the source gets**, by what the search asks in turn. -/
inductive Gets : String → Prop where
  | unknown (us : s.unknown rd) : Gets "unknown_lineage"
  | parent (ks : s.unknown rd = false) (p : SourceId) (hp : s.parentSourceId = some p)
      (node : p ∈ g.ids) (other : p ≠ s.sourceId) : Gets ("parent:" ++ rd.short p)
  | merge (ks : s.unknown rd = false) (noParent : ¬ g.HasParent s) (has : g.HasMerge s) :
      Gets "correction:merge"
  | edge (ks : s.unknown rd = false) (noParent : ¬ g.HasParent s) (noMerge : ¬ g.HasMerge s)
      (has : g.HasEdge s) (e : SourceGraphEdge) (first : g.IsFirstEdge rd s e) :
      Gets (edgeText rd e)
  | domain (untied : g.Untied rd s) (d : String) (hd : s.domain rd = some d)
      (has : g.HasDomain rd s) : Gets ("domain:" ++ d)
  | content (untied : g.Untied rd s) (noDomain : ¬ g.HasDomain rd s) (c : String)
      (hc : s.contentHash = some c) (has : g.HasContent s) :
      Gets ("content:" ++ String.ofList (c.toList.take 12))
  | text (untied : g.Untied rd s) (noDomain : ¬ g.HasDomain rd s)
      (noContent : ¬ g.HasContent s) (o : SourceGraphInput) (ho : g.Joined rd s o)
      (overlap : TextsOverlap rd s o) : Gets "text_overlap"
  | single (untied : g.Untied rd s) (noDomain : ¬ g.HasDomain rd s)
      (noContent : ¬ g.HasContent s) (noText : ∀ o, g.Joined rd s o → ¬ TextsOverlap rd s o) :
      Gets "single"

/-- **The sources whose basis is none**. -/
inductive Misnamed : Prop where
  /-- The only source without domain and content, which other facts put into a group. -/
  | loneUnknown (us : s.unknown rd)
      (lone : ∀ o ∈ g.sources, o.unknown rd → o.sourceId = s.sourceId)
      (o : SourceGraphInput) (ho : g.Joined rd s o)
  /-- A merge of the source with itself, and no other. -/
  | selfMerge (ks : s.unknown rd = false) (noParent : ¬ g.HasParent s) (has : g.HasMerge s)
      (self : ∀ c ∈ g.corrections, g.merges c → AtEnd s.sourceId c.fromId c.toId →
        c.fromId = c.toId)
  /-- The first edge of the list is a cancelled one or a loop, and none of the edges that
  tie the source has its text. -/
  | cancelledEdge (ks : s.unknown rd = false) (noParent : ¬ g.HasParent s)
      (noMerge : ¬ g.HasMerge s) (has : g.HasEdge s) (e : SourceGraphEdge)
      (first : g.IsFirstEdge rd s e)
      (cancelled : ∀ x ∈ g.edges, g.ties x → AtEnd s.sourceId x.fromId x.toId →
        edgeText rd e = edgeText rd x → x.fromId = x.toId)
  /-- The only overlapping texts are of sources without domain and content, which the
  unions do not look at. -/
  | unreadText (untied : g.Untied rd s) (noDomain : ¬ g.HasDomain rd s)
      (noContent : ¬ g.HasContent s) (o : SourceGraphInput) (ho : g.Joined rd s o)
      (overlap : TextsOverlap rd s o)
      (unread : ∀ x, g.Joined rd s x → TextsOverlap rd s x → x.unknown rd)

end Basis

variable {rd : TextReader} {g : SourceGraph} {s o : SourceGraphInput}

/-! ## Members of a group -/

theorem mem_sameGroup (hs : s ∈ g.sources) :
    o ∈ g.sameGroup rd s.sourceId ↔
      o ∈ g.sources ∧ EqvGen (Linked rd g) s.sourceId o.sourceId := by
  simp only [sameGroup, List.mem_filter, decide_eq_true_eq]
  apply and_congr_right
  intro ho
  rw [groupSourceGraph_eq_iff rd g (List.mem_map_of_mem ho) (List.mem_map_of_mem hs)]
  exact ⟨fun h => h.symm _ _, fun h => h.symm _ _⟩

theorem fellow_iff (hs : s ∈ g.sources) : g.Fellow rd s o ↔ g.Joined rd s o := by
  rw [Fellow, mem_sameGroup hs, Joined]
  tauto

theorem mem_sameIds (hs : s ∈ g.sources) {a : SourceId} :
    a ∈ (g.sameGroup rd s.sourceId).map (·.sourceId) ↔
      a ∈ g.ids ∧ EqvGen (Linked rd g) s.sourceId a := by
  rw [List.mem_map]
  constructor
  · intro ⟨o, ho, hid⟩
    obtain ⟨hmem, hjoin⟩ := (mem_sameGroup hs).mp ho
    rw [← hid]
    exact ⟨List.mem_map_of_mem hmem, hjoin⟩
  · intro ⟨hnode, hjoin⟩
    obtain ⟨o, ho, hid⟩ := List.mem_map.mp hnode
    rw [← hid] at hjoin
    exact ⟨o, (mem_sameGroup hs).mpr ⟨ho, hjoin⟩, hid⟩

theorem joined_of_linked (ho : o ∈ g.sources) (hne : o.sourceId ≠ s.sourceId)
    (h : Linked rd g s.sourceId o.sourceId) : g.Joined rd s o :=
  ⟨ho, hne, .rel _ _ h⟩

/-- The other end of a pair at the source. -/
theorem IsPair.of_atEnd {s a b : SourceId} (h : AtEnd s a b) (hne : a ≠ b) :
    ∃ o, o ≠ s ∧ IsPair s o a b := by
  rcases h with rfl | rfl
  · exact ⟨b, hne.symm, .inl ⟨rfl, rfl⟩⟩
  · exact ⟨a, hne, .inr ⟨rfl, rfl⟩⟩

theorem IsPair.atEnd {s o a b : SourceId} (h : IsPair s o a b) : AtEnd s a b :=
  h.imp And.left And.left

theorem IsPair.ne {s o a b : SourceId} (h : IsPair s o a b) (hne : o ≠ s) : a ≠ b := by
  rcases h with ⟨rfl, rfl⟩ | ⟨rfl, rfl⟩
  · exact hne.symm
  · exact hne

theorem IsPair.eqvGen {r : SourceId → SourceId → Prop} {s o a b : SourceId}
    (h : IsPair s o a b) (hab : r a b) : EqvGen r s o := by
  rcases h with ⟨rfl, rfl⟩ | ⟨rfl, rfl⟩
  · exact .rel _ _ hab
  · exact .symm _ _ (.rel _ _ hab)

/-! ## What the search finds -/

/-- `touches`: both ends are members, one is the source. -/
def touches (rd : TextReader) (g : SourceGraph) (s : SourceGraphInput) (a b : SourceId) : Bool :=
  let sameIds := (g.sameGroup rd s.sourceId).map (·.sourceId)
  a ∈ sameIds ∧ b ∈ sameIds ∧ (s.sourceId = a ∨ s.sourceId = b)

section Search

variable (hg : g.WellFormed) (hs : s ∈ g.sources)
include hs

theorem touches_iff {a b : SourceId} :
    touches rd g s a b ↔
      a ∈ g.ids ∧ b ∈ g.ids ∧ EqvGen (Linked rd g) a b ∧ AtEnd s.sourceId a b := by
  simp only [touches, decide_eq_true_eq, mem_sameIds hs, AtEnd]
  constructor
  · intro ⟨⟨hna, hja⟩, ⟨hnb, hjb⟩, hend⟩
    exact ⟨hna, hnb, (hja.symm _ _).trans _ _ _ hjb, hend⟩
  · intro ⟨hna, hnb, hab, hend⟩
    rcases hend with rfl | rfl
    · exact ⟨⟨hna, .refl _⟩, ⟨hnb, hab⟩, .inl rfl⟩
    · exact ⟨⟨hna, hab.symm _ _⟩, ⟨hnb, .refl _⟩, .inr rfl⟩

theorem hasParent_iff :
    (s.parentSourceId.any fun p => decide (p ∈ (g.sameGroup rd s.sourceId).map (·.sourceId) ∧
      p ≠ s.sourceId)) ↔ g.HasParent s := by
  unfold HasParent
  cases hp : s.parentSourceId with
  | none => simp
  | some p =>
    simp only [Option.any_some, decide_eq_true_eq, mem_sameIds hs, Option.some.injEq,
      exists_eq_left']
    constructor
    · intro ⟨⟨hnode, _⟩, hne⟩
      exact ⟨hnode, hne⟩
    · intro ⟨hnode, hne⟩
      exact ⟨⟨hnode, .rel _ _ (.parent s p hs hp hnode)⟩, hne⟩

include hg in
theorem hasMerge_iff :
    (g.corrections.any fun c => decide (g.merges c ∧ touches rd g s c.fromId c.toId)) ↔
      g.HasMerge s := by
  simp only [List.any_eq_true, decide_eq_true_eq, touches_iff hs, HasMerge]
  constructor
  · intro ⟨c, hc, hmerges, _, _, _, hend⟩
    exact ⟨c, hc, hmerges, hend⟩
  · intro ⟨c, hc, hmerges, hend⟩
    obtain ⟨hfrom, hto⟩ := hg.corrections c hc
    exact ⟨c, hc, hmerges, hfrom, hto, .rel _ _ (.merge c hc hmerges), hend⟩

theorem hasEdge_iff :
    (g.edges.any fun e => decide (touches rd g s e.fromId e.toId ∧
      g.splits e.fromId e.toId = false)) ↔ g.HasEdge s := by
  simp only [List.any_eq_true, decide_eq_true_eq, touches_iff hs, HasEdge]
  constructor
  · rintro ⟨e, he, ⟨hfrom, hto, _, hend⟩, hclear⟩
    exact ⟨e, he, by simp [ties, hfrom, hto, hclear], hend⟩
  · rintro ⟨e, he, hties, hend⟩
    obtain ⟨hfrom, hto, hclear⟩ := of_decide_eq_true hties
    exact ⟨e, he, ⟨hfrom, hto, .rel _ _ (.edge e he hties), hend⟩, hclear⟩

/-- What the selection takes, where the test has found an edge. -/
theorem isFirstEdge_of_hasEdge (has : g.HasEdge s) :
    ∃ e, g.edges.find? (fun e => touches rd g s e.fromId e.toId) = some e ∧
      g.IsFirstEdge rd s e := by
  obtain ⟨x, hx, hties, hend⟩ := has
  obtain ⟨hfrom, hto, _⟩ := of_decide_eq_true hties
  have hfound : (g.edges.find? fun e => touches rd g s e.fromId e.toId).isSome :=
    List.find?_isSome.mpr ⟨x, hx, (touches_iff hs).mpr
      ⟨hfrom, hto, .rel _ _ (.edge x hx hties), hend⟩⟩
  obtain ⟨e, he⟩ := Option.isSome_iff_exists.mp hfound
  obtain ⟨hthis, before, after, hlist, hbefore⟩ := List.find?_eq_some_iff_append.mp he
  refine ⟨e, he, (touches_iff hs).mp hthis, before, after, hlist, ?_⟩
  intro x hx hin
  have hno := hbefore x hx
  rw [(touches_iff hs).mpr hin] at hno
  cases hno

/-- What the tests over the other members find. -/
theorem any_fellow_iff (test : SourceGraphInput → Bool) :
    (((g.sameGroup rd s.sourceId).filter fun o => o.sourceId ≠ s.sourceId).any test) ↔
      ∃ o, g.Joined rd s o ∧ test o := by
  simp only [List.any_eq_true, List.mem_filter, mem_sameGroup hs, decide_eq_true_eq]
  constructor
  · intro ⟨o, ⟨⟨ho, hjoin⟩, hne⟩, htest⟩
    exact ⟨o, ⟨ho, hne, hjoin⟩, htest⟩
  · intro ⟨o, ⟨ho, hne, hjoin⟩, htest⟩
    exact ⟨o, ⟨⟨ho, hjoin⟩, hne⟩, htest⟩

theorem hasDomain_iff :
    (s.domain rd ≠ none ∧
      (((g.sameGroup rd s.sourceId).filter fun o => o.sourceId ≠ s.sourceId).any fun o =>
        decide (o.domain rd = s.domain rd))) ↔ g.HasDomain rd s := by
  rw [any_fellow_iff hs]
  simp only [decide_eq_true_eq, HasDomain]
  constructor
  · intro ⟨hsome, o, ⟨ho, hne, _⟩, hsame⟩
    exact ⟨o, ho, hne, hsome, hsame⟩
  · intro ⟨o, ho, hne, hsome, hsame⟩
    exact ⟨hsome, o, joined_of_linked ho hne (.domain s o hs ho hsome hsame.symm), hsame⟩

theorem hasContent_iff :
    (s.contentHash ≠ none ∧
      (((g.sameGroup rd s.sourceId).filter fun o => o.sourceId ≠ s.sourceId).any fun o =>
        decide (o.contentHash = s.contentHash))) ↔ g.HasContent s := by
  rw [any_fellow_iff hs]
  simp only [decide_eq_true_eq, HasContent]
  constructor
  · intro ⟨hsome, o, ⟨ho, hne, _⟩, hsame⟩
    exact ⟨o, ho, hne, hsome, hsame⟩
  · intro ⟨o, ho, hne, hsome, hsame⟩
    exact ⟨hsome, o, joined_of_linked ho hne (.content s o hs ho hsome hsame.symm), hsame⟩

theorem hasText_iff :
    (((g.sameGroup rd s.sourceId).filter fun o => o.sourceId ≠ s.sourceId).any fun o =>
      (s.words rd).any fun a => (o.words rd).any fun b => overlaps a b) ↔
      ∃ o, g.Joined rd s o ∧ TextsOverlap rd s o := by
  rw [any_fellow_iff hs]
  simp only [Option.any_eq_true, TextsOverlap]
  constructor
  · intro ⟨o, ho, u, hu, v, hv, hover⟩
    exact ⟨o, ho, u, v, hu, hv, hover⟩
  · intro ⟨o, ho, u, v, hu, hv, hover⟩
    exact ⟨o, ho, u, hu, v, hv, hover⟩

include hg in
/-- **The search**, said once. -/
theorem gets_basis : g.Gets rd s (g.basis rd s) := by
  unfold basis
  dsimp only
  -- the reasons in the order in which the code looks for them: each case has the
  -- failure of those before it
  split
  · rename_i us
    exact .unknown us
  rename_i hknown
  have ks : s.unknown rd = false := eq_false_of_ne_true hknown
  split
  · rename_i h
    obtain ⟨p, hp, node, other⟩ := (hasParent_iff hs).mp h
    rw [hp, Option.getD_some]
    exact .parent ks p hp node other
  rename_i h
  have noParent : ¬ g.HasParent s := mt (hasParent_iff hs).mpr h
  split
  · rename_i h
    exact .merge ks noParent ((hasMerge_iff hg hs).mp h)
  rename_i h
  have noMerge : ¬ g.HasMerge s := mt (hasMerge_iff hg hs).mpr h
  split
  · rename_i h
    have has : g.HasEdge s := (hasEdge_iff hs).mp h
    obtain ⟨e, he, first⟩ : ∃ e, g.edges.find? (fun e => touches rd g s e.fromId e.toId) =
        some e ∧ g.IsFirstEdge rd s e := isFirstEdge_of_hasEdge hs has
    show g.Gets rd s ((g.edges.find? fun e => touches rd g s e.fromId e.toId).elim ""
      (edgeText rd))
    rw [he]
    exact .edge ks noParent noMerge has e first
  rename_i h
  have untied : g.Untied rd s := ⟨ks, noParent, noMerge, mt (hasEdge_iff hs).mpr h⟩
  split
  · rename_i h
    obtain ⟨d, hd⟩ := Option.ne_none_iff_exists'.mp h.1
    rw [hd, Option.getD_some]
    exact .domain untied d hd ((hasDomain_iff hs).mp h)
  rename_i h
  have noDomain : ¬ g.HasDomain rd s := mt (hasDomain_iff hs).mpr h
  split
  · rename_i h
    obtain ⟨c, hc⟩ := Option.ne_none_iff_exists'.mp h.1
    rw [hc, Option.getD_some]
    exact .content untied noDomain c hc ((hasContent_iff hs).mp h)
  rename_i h
  have noContent : ¬ g.HasContent s := mt (hasContent_iff hs).mpr h
  split
  · rename_i h
    obtain ⟨o, ho, hover⟩ := (hasText_iff hs).mp h
    exact .text untied noDomain noContent o ho hover
  · rename_i h
    refine .single untied noDomain noContent fun o ho hover => ?_
    exact h ((hasText_iff hs).mpr ⟨o, ho, hover⟩)

end Search

/-! ## The text of a reason -/

/-- A text begins with the word for its kind, and three characters tell the kinds apart. -/
def kindOf (text : String) : List Char := text.toList.take 3

theorem kindOf_append {word rest : String} (h : 3 ≤ word.toList.length) :
    kindOf (word ++ rest) = kindOf word := by
  rw [kindOf, kindOf, String.toList_append, List.take_append_of_le_length h]

theorem kindOf_edgeText (rd : TextReader) (e : SourceGraphEdge) :
    kindOf (edgeText rd e) = ['e', 'd', 'g'] := by
  rw [edgeText, String.append_assoc, String.append_assoc, kindOf_append (by decide)]
  decide

namespace Reason

/-- The kinds of the reasons that a text of some kind can name. -/
theorem of_text {text : String} (h : Reason rd g s o text) :
    (kindOf text = ['u', 'n', 'k'] ∧ s.unknown rd ∧ o.unknown rd) ∨
      kindOf text = ['p', 'a', 'r'] ∨
      (kindOf text = ['c', 'o', 'r'] ∧ ∃ c ∈ g.corrections, g.merges c ∧
        IsPair s.sourceId o.sourceId c.fromId c.toId) ∨
      (kindOf text = ['e', 'd', 'g'] ∧ ∃ e ∈ g.edges, g.ties e ∧
        IsPair s.sourceId o.sourceId e.fromId e.toId ∧ text = edgeText rd e) ∨
      kindOf text = ['d', 'o', 'm'] ∨ kindOf text = ['c', 'o', 'n'] ∨
      (kindOf text = ['t', 'e', 'x'] ∧ s.unknown rd = false ∧ o.unknown rd = false ∧
        TextsOverlap rd s o) := by
  cases h with
  | unknown us uo => exact .inl ⟨by decide, us, uo⟩
  | parent hp => exact .inr (.inl ((kindOf_append (by decide)).trans (by decide)))
  | merge c hc hmerges pair => exact .inr (.inr (.inl ⟨by decide, c, hc, hmerges, pair⟩))
  | edge e he hties pair =>
    exact .inr (.inr (.inr (.inl ⟨kindOf_edgeText rd e, e, he, hties, pair, rfl⟩)))
  | domain d hs ho =>
    exact .inr (.inr (.inr (.inr (.inl ((kindOf_append (by decide)).trans (by decide))))))
  | content c hs ho =>
    exact .inr (.inr (.inr (.inr (.inr (.inl ((kindOf_append (by decide)).trans (by decide)))))))
  | text ks ko u v hu hv overlap =>
    exact .inr (.inr (.inr (.inr (.inr (.inr ⟨by decide, ks, ko, u, v, hu, hv, overlap⟩)))))

theorem of_unknownLineage (h : Reason rd g s o "unknown_lineage") :
    s.unknown rd ∧ o.unknown rd := by
  have hkind : kindOf "unknown_lineage" = ['u', 'n', 'k'] := by decide
  simpa [hkind] using h.of_text

theorem of_correctionMerge (h : Reason rd g s o "correction:merge") :
    ∃ c ∈ g.corrections, g.merges c ∧ IsPair s.sourceId o.sourceId c.fromId c.toId := by
  have hkind : kindOf "correction:merge" = ['c', 'o', 'r'] := by decide
  simpa [hkind] using h.of_text

theorem of_edgeText {e : SourceGraphEdge} (h : Reason rd g s o (edgeText rd e)) :
    ∃ x ∈ g.edges, g.ties x ∧ IsPair s.sourceId o.sourceId x.fromId x.toId ∧
      edgeText rd e = edgeText rd x := by
  simpa [kindOf_edgeText] using h.of_text

theorem of_textOverlap (h : Reason rd g s o "text_overlap") :
    o.unknown rd = false ∧ TextsOverlap rd s o := by
  have hkind : kindOf "text_overlap" = ['t', 'e', 'x'] := by decide
  have hall : s.unknown rd = false ∧ o.unknown rd = false ∧ TextsOverlap rd s o := by
    simpa [hkind] using h.of_text
  exact hall.2

/-- A source with a reason has one of the ties that the search looks for. -/
theorem not_of_none (untied : g.Untied rd s) (noDomain : ¬ g.HasDomain rd s)
    (noContent : ¬ g.HasContent s) (noText : ¬ TextsOverlap rd s o) (ho : o ∈ g.sources)
    (hne : o.sourceId ≠ s.sourceId) (text : String) : ¬ Reason rd g s o text := by
  intro h
  cases h with
  | unknown us uo =>
    rw [untied.known] at us
    cases us
  | parent hp => exact untied.noParent ⟨o.sourceId, hp, List.mem_map_of_mem ho, hne⟩
  | merge c hc hmerges pair => exact untied.noMerge ⟨c, hc, hmerges, pair.atEnd⟩
  | edge e he hties pair => exact untied.noEdge ⟨e, he, hties, pair.atEnd⟩
  | domain d hds hdo => exact noDomain ⟨o, ho, hne, by simp [hds], hdo.trans hds.symm⟩
  | content c hcs hco => exact noContent ⟨o, ho, hne, by simp [hcs], hco.trans hcs.symm⟩
  | text ks ko u v hu hv overlap => exact noText ⟨u, v, hu, hv, overlap⟩

end Reason

/-! ## When the basis is a true reason -/

section Basis

variable (hs : s ∈ g.sources)
include hs

/-- A tie of the pair's kind to the node at the other end. -/
theorem fellow_of_pair {a b : SourceId} (hlink : Linked rd g a b) (ha : a ∈ g.ids)
    (hb : b ∈ g.ids) (hend : AtEnd s.sourceId a b) (hne : a ≠ b) :
    ∃ o, g.Fellow rd s o ∧ IsPair s.sourceId o.sourceId a b := by
  obtain ⟨x, hx, pair⟩ := IsPair.of_atEnd hend hne
  have hnode : x ∈ g.ids := by
    rcases pair with ⟨_, rfl⟩ | ⟨_, rfl⟩
    · exact hb
    · exact ha
  obtain ⟨o, ho, rfl⟩ := List.mem_map.mp hnode
  exact ⟨o, (fellow_iff hs).mpr ⟨ho, hx, pair.eqvGen hlink⟩, pair⟩

end Basis

open Classical in
/-- There is one first edge. -/
theorem IsFirstEdge.unique {e x : SourceGraphEdge} (he : g.IsFirstEdge rd s e)
    (hx : g.IsFirstEdge rd s x) : e = x := by
  have hfound : ∀ y, g.IsFirstEdge rd s y →
      g.edges.find? (fun y => decide (g.InGroup rd s y)) = some y := by
    intro y ⟨hthis, before, after, hlist, hbefore⟩
    rw [List.find?_eq_some_iff_append]
    exact ⟨decide_eq_true hthis, before, after, hlist, fun z hz => by simp [hbefore z hz]⟩
  exact Option.some.inj ((hfound e he).symm.trans (hfound x hx))

/-! ## Which texts name a tie -/

section Ties

variable (hs : s ∈ g.sources)
include hs

theorem named_unknown (us : s.unknown rd) :
    g.Named rd s "unknown_lineage" ↔
      ∃ o ∈ g.sources, o.sourceId ≠ s.sourceId ∧ o.unknown rd := by
  constructor
  · intro ⟨o, ho, hreason⟩
    exact ⟨o, ((fellow_iff hs).mp ho).1, ho.2, hreason.of_unknownLineage.2⟩
  · intro ⟨o, ho, hne, uo⟩
    exact ⟨o, (fellow_iff hs).mpr (joined_of_linked ho hne (.unknown s o hs ho us uo)),
      .unknown us uo⟩

theorem named_merge (hg : g.WellFormed) :
    g.Named rd s "correction:merge" ↔
      ∃ c ∈ g.corrections, g.merges c ∧ AtEnd s.sourceId c.fromId c.toId ∧ c.fromId ≠ c.toId := by
  constructor
  · intro ⟨o, ho, hreason⟩
    obtain ⟨c, hc, hmerges, pair⟩ := hreason.of_correctionMerge
    exact ⟨c, hc, hmerges, pair.atEnd, pair.ne ho.2⟩
  · intro ⟨c, hc, hmerges, hend, hne⟩
    obtain ⟨hfrom, hto⟩ := hg.corrections c hc
    obtain ⟨o, ho, pair⟩ := fellow_of_pair hs (.merge c hc hmerges) hfrom hto hend hne
    exact ⟨o, ho, .merge c hc hmerges pair⟩

theorem named_edge (e : SourceGraphEdge) :
    g.Named rd s (edgeText rd e) ↔
      ∃ x ∈ g.edges, g.ties x ∧ AtEnd s.sourceId x.fromId x.toId ∧
        edgeText rd e = edgeText rd x ∧ x.fromId ≠ x.toId := by
  constructor
  · intro ⟨o, ho, hreason⟩
    obtain ⟨x, hx, hties, pair, htext⟩ := hreason.of_edgeText
    exact ⟨x, hx, hties, pair.atEnd, htext, pair.ne ho.2⟩
  · intro ⟨x, hx, hties, hend, htext, hne⟩
    obtain ⟨hfrom, hto, _⟩ := of_decide_eq_true hties
    obtain ⟨o, ho, pair⟩ := fellow_of_pair hs (.edge x hx hties) hfrom hto hend hne
    rw [htext]
    exact ⟨o, ho, .edge x hx hties pair⟩

theorem named_text (ks : s.unknown rd = false) :
    g.Named rd s "text_overlap" ↔
      ∃ o, g.Joined rd s o ∧ TextsOverlap rd s o ∧ o.unknown rd = false := by
  constructor
  · intro ⟨o, ho, hreason⟩
    obtain ⟨ko, hover⟩ := hreason.of_textOverlap
    exact ⟨o, (fellow_iff hs).mp ho, hover, ko⟩
  · intro ⟨o, ho, ⟨u, v, hu, hv, overlap⟩, ko⟩
    exact ⟨o, (fellow_iff hs).mpr ho, .text ks ko u v hu hv overlap⟩

end Ties

/-! ## Which sources are misnamed -/

theorem misnamed_of_unknown (us : s.unknown rd) :
    g.Misnamed rd s ↔ (∃ o, g.Joined rd s o) ∧
      ∀ o ∈ g.sources, o.unknown rd → o.sourceId = s.sourceId := by
  constructor
  · intro h
    cases h with
    | loneUnknown _ lone o ho => exact ⟨⟨o, ho⟩, lone⟩
    | selfMerge ks => rw [us] at ks; cases ks
    | cancelledEdge ks => rw [us] at ks; cases ks
    | unreadText untied => rw [untied.known] at us; cases us
  · intro ⟨⟨o, ho⟩, lone⟩
    exact .loneUnknown us lone o ho

theorem misnamed_of_merge (ks : s.unknown rd = false) (noParent : ¬ g.HasParent s)
    (has : g.HasMerge s) :
    g.Misnamed rd s ↔ ∀ c ∈ g.corrections, g.merges c → AtEnd s.sourceId c.fromId c.toId →
      c.fromId = c.toId := by
  constructor
  · intro h
    cases h with
    | loneUnknown us => rw [ks] at us; cases us
    | selfMerge _ _ _ self => exact self
    | cancelledEdge _ _ noMerge => exact absurd has noMerge
    | unreadText untied => exact absurd has untied.noMerge
  · exact .selfMerge ks noParent has

theorem misnamed_of_edge (ks : s.unknown rd = false) (noParent : ¬ g.HasParent s)
    (noMerge : ¬ g.HasMerge s) (has : g.HasEdge s) {e : SourceGraphEdge}
    (first : g.IsFirstEdge rd s e) :
    g.Misnamed rd s ↔ ∀ x ∈ g.edges, g.ties x → AtEnd s.sourceId x.fromId x.toId →
      edgeText rd e = edgeText rd x → x.fromId = x.toId := by
  constructor
  · intro h
    cases h with
    | loneUnknown us => rw [ks] at us; cases us
    | selfMerge _ _ hasMerge => exact absurd hasMerge noMerge
    | cancelledEdge _ _ _ _ e' first' cancelled =>
      rw [first.unique first']
      exact cancelled
    | unreadText untied => exact absurd has untied.noEdge
  · exact .cancelledEdge ks noParent noMerge has e first

theorem misnamed_of_untied (untied : g.Untied rd s) :
    g.Misnamed rd s ↔ ¬ g.HasDomain rd s ∧ ¬ g.HasContent s ∧
      (∃ o, g.Joined rd s o ∧ TextsOverlap rd s o) ∧
      ∀ o, g.Joined rd s o → TextsOverlap rd s o → o.unknown rd := by
  constructor
  · intro h
    cases h with
    | loneUnknown us => rw [untied.known] at us; cases us
    | selfMerge _ _ has => exact absurd has untied.noMerge
    | cancelledEdge _ _ _ has => exact absurd has untied.noEdge
    | unreadText _ noDomain noContent o ho overlap unread =>
      exact ⟨noDomain, noContent, ⟨o, ho, overlap⟩, unread⟩
  · intro ⟨noDomain, noContent, ⟨o, ho, overlap⟩, unread⟩
    exact .unreadText untied noDomain noContent o ho overlap unread

theorem not_misnamed_of_parent (ks : s.unknown rd = false) (h : g.HasParent s) :
    ¬ g.Misnamed rd s := by
  intro hmis
  cases hmis with
  | loneUnknown us => rw [ks] at us; cases us
  | selfMerge _ noParent => exact noParent h
  | cancelledEdge _ noParent => exact noParent h
  | unreadText untied => exact untied.noParent h

/-! ## When the basis is a true reason -/

/-- By what the source gets. -/
theorem true_iff_of_gets (hg : g.WellFormed) (hs : s ∈ g.sources) {text : String}
    (hgets : g.Gets rd s text) :
    (g.Named rd s text ∨
      (text = "single" ∧ ∀ o, g.Fellow rd s o → ∀ text, ¬ Reason rd g s o text) ∨
      (text = "unknown_lineage" ∧ ∀ o, ¬ g.Fellow rd s o)) ↔ ¬ g.Misnamed rd s := by
  cases hgets with
  | unknown us =>
    have hnot : ¬ ("unknown_lineage" = "single") := by decide
    rw [named_unknown hs us, misnamed_of_unknown us]
    simp only [hnot, false_and, false_or, true_and, fellow_iff hs]
    constructor
    · intro h ⟨⟨o, ho⟩, lone⟩
      rcases h with ⟨x, hx, hne, ux⟩ | halone
      · exact hne (lone x hx ux)
      · exact halone o ho
    · intro h
      by_cases halone : ∃ o, g.Joined rd s o
      · push Not at h
        obtain ⟨x, hx, ux, hne⟩ := h halone
        exact .inl ⟨x, hx, hne, ux⟩
      · exact .inr fun o ho => halone ⟨o, ho⟩
  | parent ks p hp node other =>
    obtain ⟨o, ho, rfl⟩ := List.mem_map.mp node
    have hjoined : g.Joined rd s o := joined_of_linked ho other (.parent s _ hs hp node)
    exact iff_of_true (.inl ⟨o, (fellow_iff hs).mpr hjoined, .parent hp⟩)
      (not_misnamed_of_parent ks ⟨_, hp, node, other⟩)
  | merge ks noParent has =>
    have hsingle : ¬ ("correction:merge" = "single") := by decide
    have halone : ¬ ("correction:merge" = "unknown_lineage") := by decide
    rw [named_merge hs hg, misnamed_of_merge ks noParent has]
    simp only [hsingle, halone, false_and, or_false]
    push Not
    rfl
  | edge ks noParent noMerge has e first =>
    have hkind := kindOf_edgeText rd e
    have hsingle : ¬ (edgeText rd e = "single") := by
      intro h
      rw [h] at hkind
      exact absurd hkind (by decide)
    have halone : ¬ (edgeText rd e = "unknown_lineage") := by
      intro h
      rw [h] at hkind
      exact absurd hkind (by decide)
    rw [named_edge hs, misnamed_of_edge ks noParent noMerge has first]
    simp only [hsingle, halone, false_and, or_false]
    push Not
    rfl
  | domain untied d hd has =>
    obtain ⟨o, ho, hne, hsome, hsame⟩ := has
    have hjoined : g.Joined rd s o :=
      joined_of_linked ho hne (.domain s o hs ho hsome hsame.symm)
    refine iff_of_true (.inl ⟨o, (fellow_iff hs).mpr hjoined, .domain d hd (hsame.trans hd)⟩) ?_
    rw [misnamed_of_untied untied]
    exact fun h => h.1 ⟨o, ho, hne, hsome, hsame⟩
  | content untied noDomain c hc has =>
    obtain ⟨o, ho, hne, hsome, hsame⟩ := has
    have hjoined : g.Joined rd s o :=
      joined_of_linked ho hne (.content s o hs ho hsome hsame.symm)
    refine iff_of_true (.inl ⟨o, (fellow_iff hs).mpr hjoined, .content c hc (hsame.trans hc)⟩) ?_
    rw [misnamed_of_untied untied]
    exact fun h => h.2.1 ⟨o, ho, hne, hsome, hsame⟩
  | text untied noDomain noContent o ho overlap =>
    have hsingle : ¬ ("text_overlap" = "single") := by decide
    have halone : ¬ ("text_overlap" = "unknown_lineage") := by decide
    rw [named_text hs untied.known, misnamed_of_untied untied]
    simp only [hsingle, halone, false_and, or_false]
    constructor
    · -- a source without lineage is compared by the basis, and by no union
      intro ⟨x, hx, hover, kx⟩ ⟨_, _, _, unread⟩
      have ux := unread x hx hover
      rw [kx] at ux
      cases ux
    · intro h
      by_contra hnone
      refine h ⟨noDomain, noContent, ⟨o, ho, overlap⟩, fun x hx hover => ?_⟩
      by_contra kx
      exact hnone ⟨x, hx, hover, eq_false_of_ne_true kx⟩
  | single untied noDomain noContent noText =>
    refine iff_of_true (.inr (.inl ⟨rfl, ?_⟩)) ?_
    · intro o ho text
      have hjoined := (fellow_iff hs).mp ho
      exact Reason.not_of_none untied noDomain noContent (noText o hjoined) hjoined.1 ho.2 text
    · rw [misnamed_of_untied untied]
      intro ⟨_, _, ⟨o, ho, overlap⟩, _⟩
      exact noText o ho overlap

/-- **When the recorded basis is a true reason**: for every source but the misnamed. -/
theorem trueBasis_iff (rd : TextReader) (g : SourceGraph) (hg : g.WellFormed)
    (s : SourceGraphInput) (hs : s ∈ g.sources) : g.TrueBasis rd s ↔ ¬ g.Misnamed rd s :=
  true_iff_of_gets hg hs (gets_basis hg hs)

theorem trueBasis_mirrors : mirrors.TrueBasis oneWord mirrors.sources[0] := by
  refine (trueBasis_iff oneWord mirrors mirrors_wellFormed _ (by decide)).mpr ?_
  intro hmis
  cases hmis with
  | loneUnknown us => exact absurd us (by decide)
  | selfMerge _ _ has =>
    obtain ⟨c, hc, _⟩ := has
    cases hc
  | cancelledEdge _ _ _ has =>
    obtain ⟨e, he, _⟩ := has
    cases he
  | unreadText _ _ noContent =>
    exact noContent ⟨mirrors.sources[1], by decide, by decide, by decide, by decide⟩

/-- Three documents: the edge between the first two is cancelled, the third is tied to
both. -/
def cancelledPair : SourceGraph where
  sources := [⟨1, none, some "a", none, none⟩, ⟨2, none, some "b", none, none⟩,
    ⟨3, none, some "c", none, none⟩]
  edges := [⟨1, 1, 2, "quote"⟩, ⟨2, 1, 3, "republish"⟩, ⟨3, 3, 2, "republish"⟩]
  corrections := [⟨1, 1, 2, .split, true⟩]

theorem cancelledPair_inGroup :
    cancelledPair.InGroup oneWord cancelledPair.sources[0] cancelledPair.edges[0] := by
  have hfirst : Linked oneWord cancelledPair 1 3 :=
    .edge cancelledPair.edges[1] (by decide) (by decide)
  have hsecond : Linked oneWord cancelledPair 3 2 :=
    .edge cancelledPair.edges[2] (by decide) (by decide)
  exact ⟨by decide, by decide, .trans _ _ _ (.rel _ _ hfirst) (.rel _ _ hsecond), .inl rfl⟩

/-- The first document gets the cancelled edge for its basis. -/
theorem basis_not_true : ¬ ∀ (rd : TextReader) (g : SourceGraph), g.WellFormed →
    ∀ s ∈ g.sources, g.TrueBasis rd s := by
  intro h
  have hg : cancelledPair.WellFormed := by constructor <;> decide
  have hs : cancelledPair.sources[0] ∈ cancelledPair.sources := by decide
  have htrue := h oneWord cancelledPair hg _ hs
  refine (true_iff_of_gets hg hs (gets_basis hg hs)).mp htrue ?_
  refine .cancelledEdge (by decide) ?_ ?_ ⟨cancelledPair.edges[1], by decide, by decide,
    .inl rfl⟩ cancelledPair.edges[0] ⟨cancelledPair_inGroup, [], _, rfl, by simp⟩ (by decide)
  · intro ⟨p, hp, _⟩
    cases hp
  · intro ⟨c, hc, hmerges, _⟩
    have hnone : ∀ c ∈ cancelledPair.corrections, ¬ cancelledPair.merges c := by decide
    exact hnone c hc hmerges

end SourceGraph

end Noezema.Memory
