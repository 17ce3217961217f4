import Noezema.Gc.Sweep

/-! # A sweep and the foreign keys

A sweep is total and safe when no row that stays names a row it deletes. The root set knows
the evidence and what is like it; model runs, actions, edges of the source graph, sessions,
checkpoints and attempts are named in the condition, since it does not know them.
-/

namespace Noezema.Gc

open Noezema.Lib

/-- The tables the sweep deletes from. -/
def Table.isSwept : Table → Bool
  | .artifacts | .commitAttempts | .dependencyInvalidationBarriers | .closureManifests
  | .workspaceManifests => true
  | _ => false

/-- The tables of the parts. -/
def Table.isPart : Table → Bool
  | .workspaceEntries | .artifactChunks => true
  | _ => false

/-- The row is there. -/
def GcDb.Has (db : GcDb) (k : Key) : Prop := k.2 ∈ db.ids k.1

/-- **A safe sweep**: what a row that is still there names, under a constraint that does not
cascade, is still there. -/
def Safe (db db' : GcDb) : Prop :=
  ∀ r ∈ db.references, r.onDelete ≠ .cascade → db'.Has r.row → db.Has r.target →
    db'.Has r.target

/-! ## The references by column -/

section Columns

variable {db : GcDb} {r : Reference Key}

theorem column_onDelete {α : Type*} {table : Table} {rows : List α} {id : α → Nat}
    {value : α → Option Nat} {target : Table} {onDelete : OnDelete}
    (h : r ∈ column table rows id value target onDelete) : r.onDelete = onDelete := by
  obtain ⟨x, -, t, -, rfl⟩ := mem_column.mp h
  rfl

theorem restricting_noAction (h : r ∈ db.restricting) : r.onDelete = .noAction := by
  simp only [GcDb.restricting, List.mem_append] at h
  rcases h with ((((((h | h) | h) | h) | h) | h) | h) | h <;> exact column_onDelete h

theorem clearing_setNull (h : r ∈ db.clearing) : r.onDelete = .setNull := by
  simp only [GcDb.clearing, List.mem_append] at h
  rcases h with (((((h | h) | h) | h) | h) | h) | h <;> exact column_onDelete h

theorem cascading_cascade (h : r ∈ db.cascading) : r.onDelete = .cascade := by
  simp only [GcDb.cascading, List.mem_append] at h
  rcases h with h | h <;> exact column_onDelete h

/-- The row and the table a reference of a column is about. -/
theorem column_row {α : Type*} {table : Table} {rows : List α} {id : α → Nat}
    {value : α → Option Nat} {target : Table} {onDelete : OnDelete}
    (h : r ∈ column table rows id value target onDelete) : r.row.1 = table := by
  obtain ⟨x, -, t, -, rfl⟩ := mem_column.mp h
  rfl

theorem mem_restricting : r ∈ db.references ∧ r.onDelete = .noAction ↔ r ∈ db.restricting := by
  constructor
  · intro ⟨hr, hon⟩
    rcases List.mem_append.mp hr with hr | hr
    · rcases List.mem_append.mp hr with hr | hr
      · exact hr
      · rw [clearing_setNull hr] at hon
        cases hon
    · rw [cascading_cascade hr] at hon
      cases hon
  · intro hr
    exact ⟨List.mem_append_left _ (List.mem_append_left _ hr), restricting_noAction hr⟩

/-- The rows that restrict a DELETE, by column. -/
inductive Restricts (db : GcDb) : Key → Key → Prop where
  | commitAttempt (s : Session) (t : Nat) : s ∈ db.sessions → s.commitAttemptId = some t →
      Restricts db (.sessions, s.id) (.commitAttempts, t)
  | baseManifest (s : Session) (t : Nat) : s ∈ db.sessions →
      s.baseWorkspaceManifestId = some t →
      Restricts db (.sessions, s.id) (.workspaceManifests, t)
  | committedManifest (s : Session) (t : Nat) : s ∈ db.sessions →
      s.committedWorkspaceManifestId = some t →
      Restricts db (.sessions, s.id) (.workspaceManifests, t)
  | attemptManifest (a : CommitAttempt) (t : Nat) : a ∈ db.commitAttempts →
      a.workspaceManifestId = some t →
      Restricts db (.commitAttempts, a.id) (.workspaceManifests, t)
  | context (m : ModelRun) (t : Nat) : m ∈ db.modelRuns →
      m.contextManifestArtifactId = some t → Restricts db (.modelRuns, m.id) (.artifacts, t)
  | rawResponse (m : ModelRun) (t : Nat) : m ∈ db.modelRuns →
      m.rawResponseArtifactId = some t → Restricts db (.modelRuns, m.id) (.artifacts, t)
  | result (a : Holder) (t : Nat) : a ∈ db.actions → a.artifactId = some t →
      Restricts db (.actions, a.id) (.artifacts, t)
  | closure (b : Barrier) (t : Nat) : b ∈ db.barriers → b.closureManifestId = some t →
      Restricts db (.dependencyInvalidationBarriers, b.id) (.closureManifests, t)

theorem restricts_of_mem (h : r ∈ db.restricting) : Restricts db r.row r.target := by
  simp only [GcDb.restricting, List.mem_append, mem_column] at h
  rcases h with ((((((⟨x, hx, t, ht, rfl⟩ | ⟨x, hx, t, ht, rfl⟩) | ⟨x, hx, t, ht, rfl⟩) |
    ⟨x, hx, t, ht, rfl⟩) | ⟨x, hx, t, ht, rfl⟩) | ⟨x, hx, t, ht, rfl⟩) | ⟨x, hx, t, ht, rfl⟩) |
    ⟨x, hx, t, ht, rfl⟩
  · exact .commitAttempt x t hx ht
  · exact .baseManifest x t hx ht
  · exact .committedManifest x t hx ht
  · exact .attemptManifest x t hx ht
  · exact .context x t hx ht
  · exact .rawResponse x t hx ht
  · exact .result x t hx ht
  · exact .closure x t hx ht

theorem Restricts.mem {row target : Key} (h : Restricts db row target) :
    ⟨row, target, .noAction⟩ ∈ db.restricting := by
  simp only [GcDb.restricting, List.mem_append, mem_column]
  cases h with
  | commitAttempt x t hx ht =>
    exact .inl (.inl (.inl (.inl (.inl (.inl (.inl ⟨x, hx, t, ht, rfl⟩))))))
  | baseManifest x t hx ht =>
    exact .inl (.inl (.inl (.inl (.inl (.inl (.inr ⟨x, hx, t, ht, rfl⟩))))))
  | committedManifest x t hx ht =>
    exact .inl (.inl (.inl (.inl (.inl (.inr ⟨x, hx, t, ht, rfl⟩)))))
  | attemptManifest x t hx ht => exact .inl (.inl (.inl (.inl (.inr ⟨x, hx, t, ht, rfl⟩))))
  | context x t hx ht => exact .inl (.inl (.inl (.inr ⟨x, hx, t, ht, rfl⟩)))
  | rawResponse x t hx ht => exact .inl (.inl (.inr ⟨x, hx, t, ht, rfl⟩))
  | result x t hx ht => exact .inl (.inr ⟨x, hx, t, ht, rfl⟩)
  | closure x t hx ht => exact .inr ⟨x, hx, t, ht, rfl⟩

/-- The rows that lose a column with a DELETE. -/
inductive Loses (db : GcDb) : Key → Key → Prop where
  | checkpoint (c : Checkpoint) (t : Nat) : c ∈ db.checkpoints →
      c.workspaceManifestId = some t → Loses db (.checkpoints, c.id) (.workspaceManifests, t)
  | observation (e : Holder) (t : Nat) : e ∈ db.evidence → e.artifactId = some t →
      Loses db (.evidence, e.id) (.artifacts, t)
  | attestation (e : Holder) (t : Nat) : e ∈ db.operatorAttestations → e.artifactId = some t →
      Loses db (.operatorAttestations, e.id) (.artifacts, t)
  | environment (e : Holder) (t : Nat) : e ∈ db.environmentManifests → e.artifactId = some t →
      Loses db (.environmentManifests, e.id) (.artifacts, t)
  | edge (e : Holder) (t : Nat) : e ∈ db.sourceGraphEdges → e.artifactId = some t →
      Loses db (.sourceGraphEdges, e.id) (.artifacts, t)
  | correction (e : Holder) (t : Nat) : e ∈ db.sourceGraphCorrections → e.artifactId = some t →
      Loses db (.sourceGraphCorrections, e.id) (.artifacts, t)
  | inventory (b : BackupManifest) (t : Nat) : b ∈ db.backupManifests →
      b.artifactInventoryArtifactId = some t → Loses db (.backupManifests, b.id) (.artifacts, t)

theorem loses_of_mem (h : r ∈ db.clearing) : Loses db r.row r.target := by
  simp only [GcDb.clearing, List.mem_append, mem_column] at h
  rcases h with (((((⟨x, hx, t, ht, rfl⟩ | ⟨x, hx, t, ht, rfl⟩) | ⟨x, hx, t, ht, rfl⟩) |
    ⟨x, hx, t, ht, rfl⟩) | ⟨x, hx, t, ht, rfl⟩) | ⟨x, hx, t, ht, rfl⟩) | ⟨x, hx, t, ht, rfl⟩
  · exact .checkpoint x t hx ht
  · exact .observation x t hx ht
  · exact .attestation x t hx ht
  · exact .environment x t hx ht
  · exact .edge x t hx ht
  · exact .correction x t hx ht
  · exact .inventory x t hx ht

theorem Loses.mem {row target : Key} (h : Loses db row target) :
    ⟨row, target, .setNull⟩ ∈ db.clearing := by
  simp only [GcDb.clearing, List.mem_append, mem_column]
  cases h with
  | checkpoint x t hx ht => exact .inl (.inl (.inl (.inl (.inl (.inl ⟨x, hx, t, ht, rfl⟩)))))
  | observation x t hx ht => exact .inl (.inl (.inl (.inl (.inl (.inr ⟨x, hx, t, ht, rfl⟩)))))
  | attestation x t hx ht => exact .inl (.inl (.inl (.inl (.inr ⟨x, hx, t, ht, rfl⟩))))
  | environment x t hx ht => exact .inl (.inl (.inl (.inr ⟨x, hx, t, ht, rfl⟩)))
  | edge x t hx ht => exact .inl (.inl (.inr ⟨x, hx, t, ht, rfl⟩))
  | correction x t hx ht => exact .inl (.inr ⟨x, hx, t, ht, rfl⟩)
  | inventory x t hx ht => exact .inr ⟨x, hx, t, ht, rfl⟩

theorem Restricts.has {row target : Key} (h : Restricts db row target) :
    db.Has row ∧ row.1.isPart = false ∧ target.1.isPart = false := by
  cases h <;> exact ⟨List.mem_map_of_mem (by assumption), rfl, rfl⟩

theorem Loses.has {row target : Key} (h : Loses db row target) :
    db.Has row ∧ row.1.isPart = false ∧ target.1.isPart = false ∧ row.1.isSwept = false := by
  cases h <;> exact ⟨List.mem_map_of_mem (by assumption), rfl, rfl, rfl⟩

end Columns

/-! ## DELETE -/

section Delete

variable {db : GcDb} {doomed : List Key}

/-- What is there after a DELETE. -/
theorem has_without (hswept : ∀ k ∈ doomed, k.1.isSwept) {k : Key} (hk : k.1.isPart = false) :
    (db.without doomed).Has k ↔ db.Has k ∧ k ∉ doomed := by
  obtain ⟨t, i⟩ := k
  have hout : t.isSwept = false → (t, i) ∉ doomed := by
    intro ht hmem
    have := hswept _ hmem
    rw [ht] at this
    cases this
  have hfilter : ∀ {α : Type} (rows : List α) (id : α → Nat),
      i ∈ (rows.filter fun r => (t, id r) ∉ doomed).map id ↔ i ∈ rows.map id ∧ (t, i) ∉ doomed := by
    intro α rows id
    simp only [List.mem_map, List.mem_filter, decide_eq_true_eq]
    constructor
    · intro ⟨r, ⟨hr, hnot⟩, hid⟩
      subst hid
      exact ⟨⟨r, hr, rfl⟩, hnot⟩
    · intro ⟨⟨r, hr, hid⟩, hnot⟩
      subst hid
      exact ⟨r, ⟨hr, hnot⟩, rfl⟩
  have hmap : ∀ {α : Type} (rows : List α) (id : α → Nat) (f : α → α), (∀ r, id (f r) = id r) →
      t.isSwept = false → (i ∈ (rows.map f).map id ↔ i ∈ rows.map id ∧ (t, i) ∉ doomed) := by
    intro α rows id f hf ht
    rw [List.map_map, show id ∘ f = id from funext hf]
    simp [hout ht]
  have hsame : ∀ l : List Nat, t.isSwept = false → (i ∈ l ↔ i ∈ l ∧ (t, i) ∉ doomed) := by
    intro l ht
    simp [hout ht]
  cases t with
  | workspaceEntries => cases hk
  | artifactChunks => cases hk
  | artifacts => exact hfilter db.artifacts (·.id)
  | commitAttempts => exact hfilter db.commitAttempts (·.id)
  | workspaceManifests => exact hfilter db.workspaceManifests (·.id)
  | dependencyInvalidationBarriers => exact hfilter db.barriers (·.id)
  | closureManifests =>
    have h := hfilter db.closureManifests fun m => m
    rwa [List.map_id', List.map_id'] at h
  | checkpoints => exact hmap db.checkpoints (·.id) _ (fun _ => rfl) rfl
  | evidence => exact hmap db.evidence (·.id) _ (fun _ => rfl) rfl
  | operatorAttestations => exact hmap db.operatorAttestations (·.id) _ (fun _ => rfl) rfl
  | environmentManifests => exact hmap db.environmentManifests (·.id) _ (fun _ => rfl) rfl
  | sourceGraphEdges => exact hmap db.sourceGraphEdges (·.id) _ (fun _ => rfl) rfl
  | sourceGraphCorrections => exact hmap db.sourceGraphCorrections (·.id) _ (fun _ => rfl) rfl
  | backupManifests => exact hmap db.backupManifests (·.id) _ (fun _ => rfl) rfl
  | sessions => exact hsame _ rfl
  | modelRuns => exact hsame _ rfl
  | actions => exact hsame _ rfl

/-- The rows that restrict after a DELETE are those that restricted and are still there. -/
theorem restricting_without (hswept : ∀ k ∈ doomed, k.1.isSwept) {r : Reference Key} :
    r ∈ (db.without doomed).restricting ↔ r ∈ db.restricting ∧ r.row ∉ doomed := by
  have hkept : ∀ {α : Type} {table : Table} {rows : List α} {id : α → Nat}
      {value : α → Option Nat} {target : Table}, table.isSwept = false →
      (r ∈ column table rows id value target .noAction ↔
        r ∈ column table rows id value target .noAction ∧ r.row ∉ doomed) := by
    intro α table rows id value target htable
    constructor
    · intro h
      refine ⟨h, fun hmem => ?_⟩
      have := hswept _ hmem
      rw [column_row h, htable] at this
      cases this
    · exact And.left
  have hfilter : ∀ {α : Type} {table : Table} {rows : List α} {id : α → Nat}
      {value : α → Option Nat} {target : Table},
      r ∈ column table (rows.filter fun x => (table, id x) ∉ doomed) id value target .noAction ↔
        r ∈ column table rows id value target .noAction ∧ r.row ∉ doomed := by
    intro α table rows id value target
    simp only [mem_column, List.mem_filter, decide_eq_true_eq]
    constructor
    · intro ⟨x, ⟨hx, hnot⟩, t, ht, heq⟩
      subst heq
      exact ⟨⟨x, hx, t, ht, rfl⟩, hnot⟩
    · intro ⟨⟨x, hx, t, ht, heq⟩, hnot⟩
      subst heq
      exact ⟨x, ⟨hx, hnot⟩, t, ht, rfl⟩
  simp only [GcDb.restricting, List.mem_append, or_and_right]
  refine or_congr (or_congr (or_congr (or_congr (or_congr (or_congr (or_congr ?_ ?_) ?_) ?_)
    ?_) ?_) ?_) ?_
  · exact hkept rfl
  · exact hkept rfl
  · exact hkept rfl
  · exact hfilter
  · exact hkept rfl
  · exact hkept rfl
  · exact hkept rfl
  · exact hfilter

/-- The keys of a DELETE. -/
def keys (table : Table) (ids : List Nat) : List Key := ids.map fun i => (table, i)

@[simp] theorem mem_keys {t table : Table} {i : Nat} {ids : List Nat} :
    (t, i) ∈ keys table ids ↔ t = table ∧ i ∈ ids := by
  simp only [keys, List.mem_map, Prod.mk.injEq]
  constructor
  · intro ⟨j, hj, ht, hi⟩
    exact ⟨ht.symm, hi ▸ hj⟩
  · intro ⟨ht, hi⟩
    exact ⟨i, hi, ht.symm, rfl⟩

theorem keys_swept {table : Table} (h : table.isSwept) (ids : List Nat) :
    ∀ k ∈ keys table ids, k.1.isSwept := by
  intro k hk
  obtain ⟨i, -, rfl⟩ := List.mem_map.mp hk
  exact h

/-- **What DELETEs do**, one after another, to the rows and to what restricts. -/
structure Deletes (db : GcDb) (doomed : List Key) (db' : GcDb) : Prop where
  swept : ∀ k ∈ doomed, k.1.isSwept
  has : ∀ k : Key, k.1.isPart = false → (db'.Has k ↔ db.Has k ∧ k ∉ doomed)
  restricting : ∀ r, r ∈ db'.restricting ↔ r ∈ db.restricting ∧ r.row ∉ doomed

theorem Deletes.refl (db : GcDb) : Deletes db [] db := ⟨by simp, by simp, by simp⟩

theorem Deletes.trans {a b c : GcDb} {first second : List Key} (h : Deletes a first b)
    (k : Deletes b second c) : Deletes a (first ++ second) c := by
  constructor
  · intro x hx
    exact (List.mem_append.mp hx).elim (h.swept x) (k.swept x)
  · intro x hx
    rw [k.has x hx, h.has x hx, List.mem_append, not_or, and_assoc]
  · intro r
    rw [k.restricting, h.restricting, List.mem_append, not_or, and_assoc]

theorem deleteRows_ok {table : Table} {ids : List Nat} {db' : GcDb} (ht : table.isSwept)
    (h : db.deleteRows table ids = .ok db') : Deletes db (keys table ids) db' := by
  obtain ⟨-, -, h⟩ := bind_eq_ok.mp h
  cases h
  exact ⟨keys_swept ht ids, fun k hk => has_without (keys_swept ht ids) hk,
    fun r => restricting_without (keys_swept ht ids)⟩

theorem deleteCandidates_ok {table : Table} {ids : List Nat} {db' : GcDb} {n : Option Nat}
    (ht : table.isSwept) (h : db.deleteCandidates table ids = .ok (db', n)) :
    Deletes db (keys table ids) db' ∧ (n.isSome ↔ ids ≠ []) := by
  unfold GcDb.deleteCandidates at h
  split at h
  · rename_i hnil
    cases h
    rw [hnil]
    exact ⟨.refl db, by simp⟩
  · rename_i hsome
    obtain ⟨u, hu, h⟩ := bind_eq_ok.mp h
    cases h
    exact ⟨deleteRows_ok ht hu, by simpa using hsome⟩

/-- A DELETE goes through unless a row restricts it. -/
theorem deleteRows_succeeds {table : Table} {ids : List Nat}
    (h : ∀ r ∈ db.restricting, r.target ∈ keys table ids → r.row ∈ keys table ids) :
    ∃ db', db.deleteRows table ids = .ok db' := by
  have hopen : ¬ Refuses db.references (keys table ids) :=
    not_refuses.mpr fun r hr hon => h r (mem_restricting.mp ⟨hr, hon⟩)
  exact ⟨_, bind_eq_ok.mpr ⟨(), require_eq_ok.mpr hopen, rfl⟩⟩

theorem deleteCandidates_succeeds {table : Table} {ids : List Nat}
    (h : ∀ r ∈ db.restricting, r.target ∈ keys table ids → r.row ∈ keys table ids) :
    ∃ out, db.deleteCandidates table ids = .ok out := by
  unfold GcDb.deleteCandidates
  split
  · exact ⟨_, rfl⟩
  · obtain ⟨db', hdb⟩ := deleteRows_succeeds h
    exact ⟨_, bind_eq_ok.mpr ⟨db', hdb, rfl⟩⟩

theorem deleteOrphanClosures_ok {barriers : Option Nat} {db' : GcDb}
    (h : db.deleteOrphanClosures barriers = .ok db') :
    ∃ closures, Deletes db (keys .closureManifests closures) db' ∧
      ∀ m ∈ closures, m ∈ db.orphanClosures := by
  unfold GcDb.deleteOrphanClosures at h
  split at h
  · exact ⟨_, deleteRows_ok rfl h, fun _ hm => hm⟩
  · cases h
    exact ⟨[], .refl db, by simp⟩

/-- No barrier names a closure manifest that is an orphan. -/
theorem not_restricts_orphan {row : Key} {m : Nat} (hm : m ∈ db.orphanClosures) :
    ¬ Restricts db row (.closureManifests, m) := by
  intro h
  generalize htarget : ((.closureManifests, m) : Key) = target at h
  cases h with
  | closure b t hb ht =>
    cases htarget
    have hno := of_decide_eq_true (List.mem_filter.mp hm).2
    exact hno (List.any_eq_true.mpr ⟨b, hb, decide_eq_true ht⟩)
  | _ => cases htarget

theorem deleteOrphanClosures_succeeds (barriers : Option Nat) :
    ∃ db', db.deleteOrphanClosures barriers = .ok db' := by
  unfold GcDb.deleteOrphanClosures
  split
  · apply deleteRows_succeeds
    intro r hr htarget
    obtain ⟨m, hm, heq⟩ := List.mem_map.mp htarget
    exact absurd (heq ▸ restricts_of_mem hr) (not_restricts_orphan hm)
  · exact ⟨_, rfl⟩

end Delete

/-! ## The whole sweep -/

section Sweep

variable {db : GcDb} {now : Nat}

/-- The rows the plan deletes, but for the closure manifests. -/
def planned (db : GcDb) (now : Nat) (closures : List Nat) : List Key :=
  keys .artifacts (db.listGcRoots now).candidateArtifacts ++
    (keys .commitAttempts (db.listGcRoots now).candidateTerminalAttempts ++
      (keys .dependencyInvalidationBarriers (db.listGcRoots now).candidateResolvedBarriers ++
        (keys .closureManifests closures ++
          keys .workspaceManifests (db.listGcRoots now).candidateWorkspaceManifests)))

/-- **What a sweep does**: it deletes the candidates, and the closure manifests that no
barrier names any more. -/
theorem sweep_ok {db' : GcDb} {n : GcDb.Deleted} (h : db.sweep now = .ok (db', n)) :
    ∃ closures, Deletes db (planned db now closures) db' ∧
      ∀ b ∈ db.barriers, ∀ m ∈ closures, b.closureManifestId = some m →
        b.id ∈ (db.listGcRoots now).candidateResolvedBarriers := by
  unfold GcDb.sweep at h
  dsimp only at h
  obtain ⟨⟨db₁, n₁⟩, h₁, h⟩ := bind_eq_ok.mp h
  obtain ⟨⟨db₂, n₂⟩, h₂, h⟩ := bind_eq_ok.mp h
  obtain ⟨⟨db₃, n₃⟩, h₃, h⟩ := bind_eq_ok.mp h
  obtain ⟨db₄, h₄, h⟩ := bind_eq_ok.mp h
  obtain ⟨⟨db₅, n₅⟩, h₅, h⟩ := bind_eq_ok.mp h
  cases h
  have hartifacts := (deleteCandidates_ok rfl h₁).1
  have hattempts := (deleteCandidates_ok rfl h₂).1
  have hbarriers := (deleteCandidates_ok rfl h₃).1
  have hmanifests := (deleteCandidates_ok rfl h₅).1
  obtain ⟨closures, hclosures, horphan⟩ := deleteOrphanClosures_ok h₄
  refine ⟨closures, hartifacts.trans (hattempts.trans (hbarriers.trans
    (hclosures.trans hmanifests))), ?_⟩
  intro b hb m hm hnames
  by_contra hstays
  -- the barrier is still there when the closures are deleted
  have hrestricts : Restricts db₃ (.dependencyInvalidationBarriers, b.id)
      (.closureManifests, m) := by
    have hgone := hartifacts.trans (hattempts.trans hbarriers)
    have hafter := (hgone.restricting _).mpr ⟨(Restricts.closure b m hb hnames).mem, ?_⟩
    · exact restricts_of_mem hafter
    · simp [List.mem_append, hstays]
  exact not_restricts_orphan (horphan m hm) hrestricts

/-! ### What the plan collects -/

/-- The row is one the sweep collects. -/
def GcDb.Collects (db : GcDb) (now : Nat) : Key → Prop
  | (.artifacts, i) => ∃ a ∈ db.artifacts, a.id = i ∧ db.isCandidateArtifact now a
  | (.commitAttempts, i) => ∃ a ∈ db.commitAttempts, a.id = i ∧ db.isCandidateAttempt now a
  | (.workspaceManifests, i) => ∃ m ∈ db.workspaceManifests, m.id = i ∧
      db.isCandidateManifest now m
  | (.dependencyInvalidationBarriers, i) => ∃ b ∈ db.barriers, b.id = i ∧
      isCandidateBarrier now b
  | _ => False

/-- The ids of the rows that meet a predicate, in some order. -/
theorem mem_candidates {α : Type*} {rows : List α} {p : α → Bool} {le : α → α → Prop}
    [DecidableRel le] {id : α → Nat} {i : Nat} :
    i ∈ ((rows.filter p).insertionSort le).map id ↔ ∃ a ∈ rows, id a = i ∧ p a := by
  simp only [List.mem_map, List.mem_insertionSort, List.mem_filter]
  constructor
  · intro ⟨a, ⟨ha, hp⟩, hid⟩
    exact ⟨a, ha, hid, hp⟩
  · intro ⟨a, ha, hid, hp⟩
    exact ⟨a, ⟨ha, hp⟩, hid⟩

theorem mem_planned {closures : List Nat} {k : Key} :
    k ∈ planned db now closures ↔ db.Collects now k ∨ k ∈ keys .closureManifests closures := by
  obtain ⟨t, i⟩ := k
  simp only [planned, List.mem_append, mem_keys, GcDb.listGcRoots, mem_candidates]
  cases t <;> simp [GcDb.Collects]

/-- The root set has what evidence, attestations, environments, corrections and backups
name. -/
theorem collected_unnamed {i : Nat} (h : db.Collects now (.artifacts, i)) :
    i ∉ db.namedArtifacts := by
  obtain ⟨a, ha, rfl, hcandidate⟩ := h
  intro hnamed
  have hroot : a.id ∈ db.rootSet now := by
    simp only [GcDb.rootSet, List.mem_append]
    refine .inl (.inl (.inl (.inl (.inl ?_))))
    exact List.mem_filter.mpr ⟨List.mem_map_of_mem ha, decide_eq_true hnamed⟩
  exact (of_decide_eq_true hcandidate).1 hroot

/-! ### When a sweep is total and safe -/

/-- **What the candidates do not check**: the columns that name a row they may collect. -/
structure GcDb.SparesReferences (db : GcDb) (now : Nat) : Prop where
  contexts : ∀ m ∈ db.modelRuns, ∀ i, m.contextManifestArtifactId = some i →
    ¬ db.Collects now (.artifacts, i)
  responses : ∀ m ∈ db.modelRuns, ∀ i, m.rawResponseArtifactId = some i →
    ¬ db.Collects now (.artifacts, i)
  results : ∀ a ∈ db.actions, ∀ i, a.artifactId = some i → ¬ db.Collects now (.artifacts, i)
  edges : ∀ e ∈ db.sourceGraphEdges, ∀ i, e.artifactId = some i →
    ¬ db.Collects now (.artifacts, i)
  sessions : ∀ s ∈ db.sessions, ∀ i, s.commitAttemptId = some i →
    ¬ db.Collects now (.commitAttempts, i)
  bases : ∀ s ∈ db.sessions, ∀ i, s.baseWorkspaceManifestId = some i →
    ¬ db.Collects now (.workspaceManifests, i)
  committed : ∀ s ∈ db.sessions, ∀ i, s.committedWorkspaceManifestId = some i →
    ¬ db.Collects now (.workspaceManifests, i)
  checkpoints : ∀ c ∈ db.checkpoints, ∀ i, c.workspaceManifestId = some i →
    ¬ db.Collects now (.workspaceManifests, i)
  attempts : ∀ a ∈ db.commitAttempts, ∀ i, a.workspaceManifestId = some i →
    db.Collects now (.workspaceManifests, i) → db.Collects now (.commitAttempts, a.id)

/-- A sweep is safe when a row that names a deleted one is deleted with it. -/
theorem Deletes.safe_iff {doomed : List Key} {db' : GcDb} (h : Deletes db doomed db') :
    Safe db db' ↔ ∀ row target, Restricts db row target ∨ Loses db row target →
      db.Has target → target ∈ doomed → row ∈ doomed := by
  constructor
  · intro hsafe row target hnames hthere htarget
    by_contra hrow
    have hstays : db.Has row → row.1.isPart = false → db'.Has row :=
      fun hhas hpart => (h.has row hpart).mpr ⟨hhas, hrow⟩
    rcases hnames with hr | hl
    · obtain ⟨hhas, hpart, hwhole⟩ := hr.has
      have := hsafe _ (mem_restricting.mpr hr.mem).1 nofun (hstays hhas hpart) hthere
      exact ((h.has target hwhole).mp this).2 htarget
    · obtain ⟨hhas, hpart, hwhole, -⟩ := hl.has
      have hmem := List.mem_append_left db.cascading (List.mem_append_right db.restricting hl.mem)
      have := hsafe _ hmem nofun (hstays hhas hpart) hthere
      exact ((h.has target hwhole).mp this).2 htarget
  · intro hall r hr hon hrow htarget
    have hnames : Restricts db r.row r.target ∨ Loses db r.row r.target := by
      rcases List.mem_append.mp hr with hr | hr
      · exact (List.mem_append.mp hr).imp restricts_of_mem loses_of_mem
      · exact absurd (cascading_cascade hr) hon
    have hparts : r.row.1.isPart = false ∧ r.target.1.isPart = false :=
      hnames.elim (fun hr => hr.has.2) fun hl => ⟨hl.has.2.1, hl.has.2.2.1⟩
    refine (h.has _ hparts.2).mpr ⟨htarget, fun hdoomed => ?_⟩
    exact ((h.has _ hparts.1).mp hrow).2 (hall _ _ hnames htarget hdoomed)

/-- The columns the candidates do check name no row they collect, so the condition is about
every reference. -/
theorem sparesReferences_iff : db.SparesReferences now ↔
    ∀ row target, Restricts db row target ∨ Loses db row target →
      db.Collects now target → db.Collects now row := by
  constructor
  · intro h row target hnames hc
    have hlive : ∀ {i}, i ∈ db.namedArtifacts → ¬ db.Collects now (.artifacts, i) :=
      fun hnamed hcollected => collected_unnamed hcollected hnamed
    simp only [GcDb.namedArtifacts, List.mem_append, List.mem_filterMap] at hlive
    rcases hnames with hr | hl
    · cases hr with
      | commitAttempt s t hs ht => exact absurd hc (h.sessions s hs t ht)
      | baseManifest s t hs ht => exact absurd hc (h.bases s hs t ht)
      | committedManifest s t hs ht => exact absurd hc (h.committed s hs t ht)
      | attemptManifest a t ha ht => exact h.attempts a ha t ht hc
      | context m t hm ht => exact absurd hc (h.contexts m hm t ht)
      | rawResponse m t hm ht => exact absurd hc (h.responses m hm t ht)
      | result a t ha ht => exact absurd hc (h.results a ha t ht)
      | closure b t hb ht => cases hc
    · cases hl with
      | checkpoint c t hc' ht => exact absurd hc (h.checkpoints c hc' t ht)
      | edge e t he ht => exact absurd hc (h.edges e he t ht)
      | observation e t he ht => exact absurd hc (hlive (.inl (.inl (.inl (.inl ⟨e, he, ht⟩)))))
      | attestation e t he ht => exact absurd hc (hlive (.inl (.inl (.inl (.inr ⟨e, he, ht⟩)))))
      | environment e t he ht => exact absurd hc (hlive (.inl (.inl (.inr ⟨e, he, ht⟩))))
      | correction e t he ht => exact absurd hc (hlive (.inl (.inr ⟨e, he, ht⟩)))
      | inventory b t hb ht => exact absurd hc (hlive (.inr ⟨b, hb, ht⟩))
  · intro h
    constructor
    · exact fun m hm i hi hc => h _ _ (.inl (.context m i hm hi)) hc
    · exact fun m hm i hi hc => h _ _ (.inl (.rawResponse m i hm hi)) hc
    · exact fun a ha i hi hc => h _ _ (.inl (.result a i ha hi)) hc
    · exact fun e he i hi hc => h _ _ (.inr (.edge e i he hi)) hc
    · exact fun s hs i hi hc => h _ _ (.inl (.commitAttempt s i hs hi)) hc
    · exact fun s hs i hi hc => h _ _ (.inl (.baseManifest s i hs hi)) hc
    · exact fun s hs i hi hc => h _ _ (.inl (.committedManifest s i hs hi)) hc
    · exact fun c hc' i hi hc => h _ _ (.inr (.checkpoint c i hc' hi)) hc
    · exact fun a ha i hi hc => h _ _ (.inl (.attemptManifest a i ha hi)) hc

/-- A row a sweep collects is there. -/
theorem collects_has {k : Key} (h : db.Collects now k) : db.Has k := by
  obtain ⟨t, i⟩ := k
  cases t with
  | artifacts | commitAttempts | workspaceManifests | dependencyInvalidationBarriers =>
    obtain ⟨a, ha, hid, -⟩ := h
    exact hid ▸ List.mem_map_of_mem ha
  | _ => cases h

/-- A DELETE of candidates goes through when what restricts it is gone. -/
theorem deleteCollected {before : GcDb} {doomed : List Key} {table : Table} {ids : List Nat}
    (h : db.SparesReferences now) (hdel : Deletes db doomed before)
    (hids : ∀ i ∈ ids, db.Collects now (table, i))
    (hgone : ∀ row t, Restricts db row (table, t) → db.Collects now row → row ∈ doomed) :
    ∃ out, before.deleteCandidates table ids = .ok out := by
  apply deleteCandidates_succeeds
  intro r hr htarget
  obtain ⟨hbefore, hstays⟩ := (hdel.restricting r).mp hr
  obtain ⟨i, hi, heq⟩ := List.mem_map.mp htarget
  have hrestricts : Restricts db r.row (table, i) := heq ▸ restricts_of_mem hbefore
  have hrow := sparesReferences_iff.mp h _ _ (.inl hrestricts) (hids i hi)
  exact absurd (hgone _ i hrestricts hrow) hstays

/-- No statement of the sweep is refused. -/
theorem sweep_succeeds (h : db.SparesReferences now) : ∃ out, db.sweep now = .ok out := by
  obtain ⟨⟨db₁, n₁⟩, h₁⟩ : ∃ out, db.deleteCandidates .artifacts
      (db.listGcRoots now).candidateArtifacts = .ok out := by
    apply deleteCollected h (.refl db)
    · exact fun i hi => mem_candidates.mp hi
    · intro row t hr hrow
      cases hr <;> cases hrow
  have hdel₁ := (deleteCandidates_ok rfl h₁).1
  obtain ⟨⟨db₂, n₂⟩, h₂⟩ : ∃ out, db₁.deleteCandidates .commitAttempts
      (db.listGcRoots now).candidateTerminalAttempts = .ok out := by
    apply deleteCollected h hdel₁
    · exact fun i hi => mem_candidates.mp hi
    · intro row t hr hrow
      cases hr
      cases hrow
  have hdel₂ := hdel₁.trans (deleteCandidates_ok rfl h₂).1
  obtain ⟨⟨db₃, n₃⟩, h₃⟩ : ∃ out, db₂.deleteCandidates .dependencyInvalidationBarriers
      (db.listGcRoots now).candidateResolvedBarriers = .ok out := by
    apply deleteCollected h hdel₂
    · exact fun i hi => mem_candidates.mp hi
    · intro row t hr hrow
      cases hr
  have hdel₃ := hdel₂.trans (deleteCandidates_ok rfl h₃).1
  obtain ⟨db₄, h₄⟩ : ∃ db₄, db₃.deleteOrphanClosures n₃ = .ok db₄ :=
    deleteOrphanClosures_succeeds n₃
  obtain ⟨closures, hclosures, -⟩ := deleteOrphanClosures_ok h₄
  have hdel₄ := hdel₃.trans hclosures
  obtain ⟨⟨db₅, n₅⟩, h₅⟩ : ∃ out, db₄.deleteCandidates .workspaceManifests
      (db.listGcRoots now).candidateWorkspaceManifests = .ok out := by
    apply deleteCollected h hdel₄
    · exact fun i hi => mem_candidates.mp hi
    · intro row t hr hrow
      -- an attempt that names a collected manifest went with the attempts
      cases hr with
      | attemptManifest a t ha ht =>
        have hplanned : a.id ∈ (db.listGcRoots now).candidateTerminalAttempts :=
          mem_candidates.mpr hrow
        simp [List.mem_append, hplanned]
      | _ => cases hrow
  refine ⟨(db₅, ⟨n₁, n₂, n₃, n₅⟩), ?_⟩
  unfold GcDb.sweep
  refine bind_eq_ok.mpr ⟨_, h₁, ?_⟩
  refine bind_eq_ok.mpr ⟨_, h₂, ?_⟩
  refine bind_eq_ok.mpr ⟨_, h₃, ?_⟩
  refine bind_eq_ok.mpr ⟨_, h₄, ?_⟩
  exact bind_eq_ok.mpr ⟨_, h₅, rfl⟩

/-- **A sweep is total and safe exactly when no column it does not check names a row it
collects.** -/
theorem GcDb.sweep_total_safe_iff (db : GcDb) (now : Nat) :
    (∃ out, db.sweep now = .ok out ∧ Safe db out.1) ↔ db.SparesReferences now := by
  constructor
  · intro ⟨out, hok, hsafe⟩
    obtain ⟨closures, hdel, -⟩ := sweep_ok hok
    rw [sparesReferences_iff]
    intro row target hnames hc
    have hrow := hdel.safe_iff.mp hsafe row target hnames (collects_has hc)
      (mem_planned.mpr (.inl hc))
    rcases mem_planned.mp hrow with hcollects | hclosure
    · exact hcollects
    · rcases hnames with hr | hl
      · cases hr <;> simp at hclosure
      · cases hl <;> simp at hclosure
  · intro h
    obtain ⟨out, hok⟩ := sweep_succeeds h
    obtain ⟨closures, hdel, horphan⟩ := sweep_ok hok
    refine ⟨out, hok, hdel.safe_iff.mpr ?_⟩
    intro row target hnames _ hdoomed
    rcases mem_planned.mp hdoomed with hc | hclosure
    · exact mem_planned.mpr (.inl (sparesReferences_iff.mp h row target hnames hc))
    · rcases hnames with hr | hl
      · cases hr with
        | closure b t hb ht =>
          have hgone := horphan b hb t (mem_keys.mp hclosure).2 ht
          exact mem_planned.mpr (.inl (mem_candidates.mp hgone))
        | _ => simp at hclosure
      · cases hl <;> simp at hclosure

/-- A node a month after its only session, which succeeded and names its attempt and the
manifest that attempt published. -/
def quietNode : GcDb where
  sessions := [⟨1, .succeeded, some 1, none, some 1⟩]
  workspaceManifests := [⟨1, some 1, 0⟩]
  workspaceEntries := []
  commitAttempts := [⟨1, 1, .committed, some 1, some 0⟩]
  checkpoints := []
  modelRuns := []
  actions := []
  artifacts := []
  artifactChunks := []
  evidence := []
  operatorAttestations := []
  environmentManifests := []
  sourceGraphEdges := []
  sourceGraphCorrections := []
  backupManifests := []
  resolutions := []
  closureManifests := []
  barriers := []
  configSnapshots := []
  pinned := []

/-- Its attempt is a candidate, the session still names it, and the sweep fails. -/
theorem quiet_node_sweep_fails :
    ¬ ∃ out, quietNode.sweep (days 31) = .ok out ∧ Safe quietNode out.1 := by
  intro ⟨out, hok, _⟩
  have hfails : quietNode.sweep (days 31) = .error .foreignKey := rfl
  rw [hfails] at hok
  cases hok

end Sweep

end Noezema.Gc
