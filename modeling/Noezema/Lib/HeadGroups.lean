import Mathlib

/-! # Groups by their heads

Elements are taken one after another, and each joins the first group whose head it is linked
to, or opens a group. The link need not be transitive, so the groups depend on the order; the
group of an element whose neighbourhood is closed does not (`mem_group_iff_near`).
-/

namespace Noezema.Lib

variable {α : Type*} (linked : α → α → Bool)

/-- The element is linked to the head of the group. -/
def joins (g : List α) (x : α) : Bool := g.head?.any (linked · x)

/-- The element joins the first group it can. -/
def addToGroups : List (List α) → α → List (List α)
  | [], x => [[x]]
  | g :: groups, x => if joins linked g x then (g ++ [x]) :: groups else g :: addToGroups groups x

def headGroups (l : List α) : List (List α) := l.foldl (addToGroups linked) []

/-- The element itself, and what it is linked to. -/
def Near (h y : α) : Prop := y = h ∨ linked h y

/-- What is near to an element near to `x` is what is near to `x`. -/
def ClosedAt (l : List α) (x : α) : Prop :=
  ∀ y ∈ l, Near linked x y → ∀ z ∈ l, Near linked y z ↔ Near linked x z

/-- The groups of a list. -/
structure HeadGrouped (l : List α) (groups : List (List α)) : Prop where
  perm : groups.flatten.Perm l
  headed : ∀ g ∈ groups, ∃ h rest, g = h :: rest ∧ ∀ y ∈ rest, linked h y
  /-- An element is not linked to the head of an earlier group. -/
  separated : groups.Pairwise fun g g' => ∀ h ∈ g.head?, ∀ y ∈ g', ¬ linked h y
  first : groups.head?.bind List.head? = l.head?

variable {linked}

theorem addToGroups_perm (groups : List (List α)) (x : α) :
    (addToGroups linked groups x).flatten.Perm (groups.flatten ++ [x]) := by
  induction groups with
  | nil => exact List.Perm.refl _
  | cons g groups ih =>
    rw [addToGroups]
    split
    · rw [List.flatten_cons, List.flatten_cons, List.append_assoc, List.append_assoc]
      exact List.Perm.append_left g List.perm_append_comm
    · rw [List.flatten_cons, List.flatten_cons, List.append_assoc]
      exact List.Perm.append_left g ih

/-- The groups after one more element: a new one, one that it joined, or an old one. -/
theorem mem_addToGroups {groups : List (List α)} {x : α} {g : List α}
    (h : g ∈ addToGroups linked groups x) :
    g = [x] ∨ g ∈ groups ∨ ∃ old ∈ groups, joins linked old x ∧ g = old ++ [x] := by
  induction groups with
  | nil => exact .inl (List.mem_singleton.mp h)
  | cons old groups ih =>
    rw [addToGroups] at h
    split at h
    · rename_i hjoins
      rcases List.mem_cons.mp h with rfl | h
      · exact .inr (.inr ⟨old, List.mem_cons_self, hjoins, rfl⟩)
      · exact .inr (.inl (List.mem_cons_of_mem _ h))
    · rcases List.mem_cons.mp h with rfl | h
      · exact .inr (.inl List.mem_cons_self)
      · rcases ih h with rfl | h | ⟨old', hold, hjoins, rfl⟩
        · exact .inl rfl
        · exact .inr (.inl (List.mem_cons_of_mem _ h))
        · exact .inr (.inr ⟨old', List.mem_cons_of_mem _ hold, hjoins, rfl⟩)

theorem addToGroups_separated {groups : List (List α)} {x : α}
    (hne : ∀ g ∈ groups, g ≠ [])
    (h : groups.Pairwise fun g g' => ∀ h ∈ g.head?, ∀ y ∈ g', ¬ linked h y) :
    (addToGroups linked groups x).Pairwise fun g g' => ∀ h ∈ g.head?, ∀ y ∈ g', ¬ linked h y := by
  induction groups with
  | nil => exact List.pairwise_singleton _ _
  | cons g groups ih =>
    obtain ⟨hg, hrest⟩ := List.pairwise_cons.mp h
    obtain ⟨hgne, hrestne⟩ := List.forall_mem_cons.mp hne
    rw [addToGroups]
    split
    · refine List.pairwise_cons.mpr ⟨fun g' hg' h hh => hg g' hg' h ?_, hrest⟩
      rwa [Option.mem_def, List.head?_append_of_ne_nil _ hgne] at hh
    · rename_i hjoins
      refine List.pairwise_cons.mpr ⟨fun g' hg' h hh y hy => ?_, ih hrestne hrest⟩
      have hnew : ¬ linked h x := by
        intro hlinked
        apply hjoins
        rw [joins, Option.mem_def.mp hh]
        exact hlinked
      rcases mem_addToGroups hg' with rfl | hold | ⟨old, hold, -, rfl⟩
      · rwa [List.mem_singleton.mp hy]
      · exact hg g' hold h hh y hy
      · rcases List.mem_append.mp hy with hy | hy
        · exact hg old hold h hh y hy
        · rwa [List.mem_singleton.mp hy]

theorem addToGroups_first {groups : List (List α)} {x : α} (hne : ∀ g ∈ groups, g ≠ []) :
    (addToGroups linked groups x).head?.bind List.head? =
      (groups.head?.bind List.head?).or (some x) := by
  cases groups with
  | nil => rfl
  | cons g groups =>
    obtain ⟨h, rest, rfl⟩ := List.exists_cons_of_ne_nil (hne g List.mem_cons_self)
    rw [addToGroups]
    split <;> rfl

/-- One more element. -/
theorem HeadGrouped.add {l : List α} {groups : List (List α)} (h : HeadGrouped linked l groups)
    (x : α) : HeadGrouped linked (l ++ [x]) (addToGroups linked groups x) := by
  have hne : ∀ g ∈ groups, g ≠ [] := by
    intro g hg
    obtain ⟨head, rest, rfl, -⟩ := h.headed g hg
    exact List.cons_ne_nil _ _
  refine ⟨(addToGroups_perm groups x).trans (h.perm.append_right _), ?_,
    addToGroups_separated hne h.separated, ?_⟩
  · intro g hg
    rcases mem_addToGroups hg with rfl | hold | ⟨old, hold, hjoins, rfl⟩
    · exact ⟨x, [], rfl, fun y hy => (by cases hy)⟩
    · exact h.headed g hold
    · obtain ⟨head, rest, rfl, hrest⟩ := h.headed old hold
      refine ⟨head, rest ++ [x], rfl, fun y hy => ?_⟩
      rcases List.mem_append.mp hy with hy | hy
      · exact hrest y hy
      · rw [List.mem_singleton.mp hy]
        simpa [joins] using hjoins
  · rw [addToGroups_first hne, h.first]
    cases l <;> rfl

theorem HeadGrouped.foldl {l : List α} {groups : List (List α)} (h : HeadGrouped linked l groups)
    (xs : List α) : HeadGrouped linked (l ++ xs) (xs.foldl (addToGroups linked) groups) := by
  induction xs generalizing l groups with
  | nil =>
    rw [List.append_nil]
    exact h
  | cons x xs ih =>
    have hstep := ih (h.add x)
    rwa [List.append_assoc] at hstep

theorem headGroups_grouped (l : List α) : HeadGrouped linked l (headGroups linked l) :=
  HeadGrouped.foldl ⟨List.Perm.refl _, fun _ h => (by cases h), List.Pairwise.nil, rfl⟩ l

namespace HeadGrouped

variable {l : List α} {groups : List (List α)}

theorem mem_of_mem_group (h : HeadGrouped linked l groups) {g : List α} (hg : g ∈ groups) {x : α}
    (hx : x ∈ g) : x ∈ l := h.perm.mem_iff.mp (List.mem_flatten.mpr ⟨g, hg, hx⟩)

theorem exists_group (h : HeadGrouped linked l groups) {x : α} (hx : x ∈ l) :
    ∃ g ∈ groups, x ∈ g := List.mem_flatten.mp (h.perm.mem_iff.mpr hx)

/-- Two groups share no element. -/
theorem group_unique (h : HeadGrouped linked l groups) (hl : l.Nodup) {g g' : List α}
    (hg : g ∈ groups) (hg' : g' ∈ groups) {x : α} (hx : x ∈ g) (hx' : x ∈ g') : g = g' := by
  by_contra hne
  have hdisjoint := (List.nodup_flatten.mp (h.perm.nodup_iff.mpr hl)).2
  have : Std.Symm (@List.Disjoint α) := ⟨fun _ _ h => h.symm⟩
  exact hdisjoint.forall hg hg' hne hx hx'

/-- Of two groups one is the earlier one. -/
theorem separated_of_ne (h : HeadGrouped linked l groups) {g g' : List α} (hg : g ∈ groups)
    (hg' : g' ∈ groups) (hne : g ≠ g') :
    (∀ h ∈ g.head?, ∀ y ∈ g', ¬ linked h y) ∨ ∀ h ∈ g'.head?, ∀ y ∈ g, ¬ linked h y := by
  have : Std.Symm fun g g' : List α => (∀ h ∈ g.head?, ∀ y ∈ g', ¬ linked h y) ∨
      ∀ h ∈ g'.head?, ∀ y ∈ g, ¬ linked h y := ⟨fun _ _ => Or.symm⟩
  have heither : groups.Pairwise fun g g' : List α => (∀ h ∈ g.head?, ∀ y ∈ g', ¬ linked h y) ∨
      ∀ h ∈ g'.head?, ∀ y ∈ g, ¬ linked h y := h.separated.imp fun hr => .inl hr
  exact heither.forall hg hg' hne

/-- The members of a group are near to its head. -/
theorem near_head (h : HeadGrouped linked l groups) {g : List α} (hg : g ∈ groups) :
    ∃ head, g.head? = some head ∧ head ∈ g ∧ ∀ y ∈ g, Near linked head y := by
  obtain ⟨head, rest, rfl, hrest⟩ := h.headed g hg
  refine ⟨head, rfl, List.mem_cons_self, fun y hy => ?_⟩
  rcases List.mem_cons.mp hy with rfl | hy
  · exact .inl rfl
  · exact .inr (hrest y hy)

end HeadGrouped

theorem Near.symm (hsymm : ∀ x y, linked x y → linked y x) {x y : α} (h : Near linked x y) :
    Near linked y x := h.imp Eq.symm (hsymm x y)

/-- **The group of an element with a closed neighbourhood** is its neighbourhood. -/
theorem HeadGrouped.mem_group_iff_near {l : List α} {groups : List (List α)}
    (h : HeadGrouped linked l groups) (hsymm : ∀ x y, linked x y → linked y x) (hl : l.Nodup)
    {x : α} (hclosed : ClosedAt linked l x) {g : List α} (hg : g ∈ groups) (hx : x ∈ g) {y : α}
    (hy : y ∈ l) : y ∈ g ↔ Near linked x y := by
  obtain ⟨head, hhead, hmem, hnear⟩ := h.near_head hg
  have hheadl := h.mem_of_mem_group hg hmem
  have hxhead : Near linked x head := (hnear x hx).symm hsymm
  have hsame := hclosed head hheadl hxhead
  refine ⟨fun hyg => (hsame y hy).mp (hnear y hyg), fun hxy => ?_⟩
  obtain ⟨g', hg', hyg'⟩ := h.exists_group hy
  by_contra hyg
  have hne : g ≠ g' := fun heq => hyg (heq ▸ hyg')
  obtain ⟨head', hhead', hmem', hnear'⟩ := h.near_head hg'
  have hheadl' := h.mem_of_mem_group hg' hmem'
  -- both heads are in the neighbourhood, and the later one would have joined the earlier one
  have hxhead' : Near linked x head' :=
    (hclosed y hy hxy head' hheadl').mp ((hnear' y hyg').symm hsymm)
  have hlink : linked head head' := by
    rcases (hsame head' hheadl').mpr hxhead' with heq | hlinked
    · exact absurd (h.group_unique hl hg hg' hmem (heq ▸ hmem')) hne
    · exact hlinked
  rcases h.separated_of_ne hg hg' hne with hr | hr
  · exact hr head hhead head' hmem' hlink
  · exact hr head' hhead' head hmem (hsymm _ _ hlink)

/-- The group of the first element is its neighbourhood, closed or not. -/
theorem HeadGrouped.mem_first_group_iff {x : α} {l : List α} {groups : List (List α)}
    (h : HeadGrouped linked (x :: l) groups) (hl : (x :: l).Nodup) :
    ∃ g rest, groups = g :: rest ∧ ∀ y ∈ x :: l, y ∈ g ↔ Near linked x y := by
  have hfirst := h.first
  cases groups with
  | nil => simp at hfirst
  | cons g rest =>
    have hhead : g.head? = some x := by simpa using hfirst
    refine ⟨g, rest, rfl, fun y hy => ⟨fun hyg => ?_, fun hnear => ?_⟩⟩
    · obtain ⟨head, hhead', -, hnear⟩ := h.near_head List.mem_cons_self
      rw [hhead, Option.some.injEq] at hhead'
      exact hhead' ▸ hnear y hyg
    · obtain ⟨g', hg', hyg'⟩ := h.exists_group hy
      rcases List.mem_cons.mp hg' with rfl | hrest
      · exact hyg'
      · rcases hnear with rfl | hlinked
        · exact List.mem_of_mem_head? hhead
        · exact absurd hlinked ((List.pairwise_cons.mp h.separated).1 g' hrest x hhead y hyg')

end Noezema.Lib
