import Noezema.Memory.BarrierRows

/-! # What a cascade call changes

The write transactions of `start_cascade` and `process_barrier` seen from outside: which
claims they invalidate, that an invalidation moves the `knowledge` revision, and what
becomes of the barrier rows.
-/

namespace Noezema.Memory

open Noezema.Lib

/-! ## Announced changes -/

namespace Knowledge

/-- A change of a head moves the revision. -/
def Announces (k k' : Knowledge) : Prop :=
  (k'.heads = k.heads ∧ k'.revision = k.revision) ∨ k.revision < k'.revision

theorem Announces.refl (k : Knowledge) : Announces k k := .inl ⟨rfl, rfl⟩

theorem Announces.le {k k' : Knowledge} (h : Announces k k') : k.revision ≤ k'.revision := by
  rcases h with ⟨-, hrev⟩ | hlt
  · omega
  · omega

@[simp] theorem enqueueQuestion_revision (k : Knowledge) (q : QuestionName) :
    (k.enqueueQuestion q).revision = k.revision := by
  unfold enqueueQuestion
  split <;> rfl

@[simp] theorem invalidateHead_revision (k : Knowledge) (c : ClaimId) (s : SnapshotId) :
    (k.invalidateHead c s).1.revision = k.revision := by
  unfold invalidateHead
  split <;> rfl

@[simp] theorem enqueueJob_revision (k : Knowledge) (c : ClaimId) (s : SnapshotId)
    (reason : String) : (k.enqueueJob c s reason).1.revision = k.revision := by
  unfold enqueueJob
  split <;> rfl

@[simp] theorem cascadeClaim_revision (k : Knowledge) (c : ClaimId) (s : SnapshotId)
    (reason : String) : (k.cascadeClaim c s reason).1.revision = k.revision := by
  have hr := invalidateHead_revision k c s
  unfold cascadeClaim
  split
  · rename_i k₁ heq
    rw [heq] at hr
    exact (enqueueJob_revision k₁ c s reason).trans hr
  · rename_i k₁ prior hne heq
    rw [heq] at hr
    exact hr

/-- A claim that was not current is left alone. -/
theorem cascadeClaim_zero {k : Knowledge} {c : ClaimId} {s : SnapshotId} {reason : String}
    (h : (k.cascadeClaim c s reason).2.1 = 0) : (k.cascadeClaim c s reason).1 = k := by
  unfold cascadeClaim at h ⊢
  unfold invalidateHead at h ⊢
  cases hs : k.heads.state c s with
  | none => rfl
  | some st =>
    cases st with
    | current => simp [hs] at h
    | pending => rfl
    | invalid => rfl

@[simp] theorem invalidateClaim_revision (k : Knowledge) (c : ClaimId) (s : SnapshotId)
    (reason : String) : (k.invalidateClaim c s reason).1.revision = k.revision := by
  have hr := cascadeClaim_revision k c s reason
  unfold invalidateClaim
  split
  · rename_i k₁ created heq
    rwa [heq] at hr
  · rename_i k₁ n created hne heq
    rw [heq] at hr
    exact (enqueueQuestion_revision k₁ _).trans hr

theorem invalidateClaim_zero {k : Knowledge} {c : ClaimId} {s : SnapshotId} {reason : String}
    (h : (k.invalidateClaim c s reason).2.1 = 0) : (k.invalidateClaim c s reason).1 = k := by
  have hzero := @cascadeClaim_zero k c s reason
  unfold invalidateClaim at h ⊢
  split at h
  · rename_i k₁ created heq
    rw [heq] at hzero
    exact hzero rfl
  · rename_i k₁ n created hne heq
    exact absurd h hne

@[simp] theorem invalidateBatch_revision (s : SnapshotId) (reason : String)
    (cs : List ClaimId) (k : Knowledge) :
    (invalidateBatch s reason cs k).1.revision = k.revision := by
  induction cs generalizing k with
  | nil => rfl
  | cons c cs ih => exact (ih _).trans (invalidateClaim_revision k c s reason)

/-- A batch without a current claim changes nothing. -/
theorem invalidateBatch_zero {s : SnapshotId} {reason : String} {cs : List ClaimId}
    {k : Knowledge} (h : (invalidateBatch s reason cs k).2.1 = 0) :
    (invalidateBatch s reason cs k).1 = k := by
  induction cs generalizing k with
  | nil => rfl
  | cons c cs ih =>
    have hsum : (k.invalidateClaim c s reason).2.1 +
        (invalidateBatch s reason cs (k.invalidateClaim c s reason).1).2.1 = 0 := h
    have hone : (k.invalidateClaim c s reason).1 = k := invalidateClaim_zero (by omega)
    show (invalidateBatch s reason cs (k.invalidateClaim c s reason).1).1 = k
    rw [hone] at hsum ⊢
    exact ih (by omega)

end Knowledge

theorem bumpIf_announces {k k' : Knowledge} {n : Nat} (hrev : k'.revision = k.revision)
    (hzero : n = 0 → k'.heads = k.heads) : Knowledge.Announces k (bumpIf k' n) := by
  unfold bumpIf
  split
  · refine .inr ?_
    show k.revision < k'.revision + 1
    omega
  · exact .inl ⟨hzero (by omega), hrev⟩

theorem invalidateFrom_announces (db : CascadeDb) (root : ClaimId) (members : List ClaimId)
    (reason : String) :
    Knowledge.Announces db.know (invalidateFrom db root members reason).1 := by
  unfold invalidateFrom
  apply bumpIf_announces
  · simp
  · intro hzero
    generalize hk : Knowledge.invalidateBatch db.effective ("root: " ++ reason) [root] db.know =
      first at hzero
    have hsum : first.2.1 + (Knowledge.invalidateBatch db.effective reason members
      first.1).2.1 = 0 := hzero
    have hroot : first.1 = db.know := by
      rw [← hk]
      exact Knowledge.invalidateBatch_zero (by rw [hk]; omega)
    show (Knowledge.invalidateBatch db.effective reason members first.1).1.heads = _
    rw [Knowledge.invalidateBatch_zero (by omega), hroot]

/-! ## `start_cascade` -/

section Calls

variable {digest : ManifestBody → String}

/-- What `_get_or_create_manifest` leaves: the manifests there were, and maybe the one of
the closure. -/
theorem getOrCreateManifest_mem {db : CascadeDb} {c : ClosureResult} {m : ClosureManifest}
    (h : m ∈ (getOrCreateManifest digest db c).1.manifests) :
    m ∈ db.manifests ∨ m = manifestFor digest c := by
  simp only [getOrCreateManifest] at h
  split at h
  · exact .inl h
  · exact (List.mem_append.mp h).imp_right List.mem_singleton.mp

/-- **What the write transaction of `start_cascade` changes.** The root and some claims of
the closure go back to `pending`, inline all of them; otherwise a barrier of the root
stands for the rest. -/
structure Started (digest : ManifestBody → String) (closure : ClosureResult)
    (db db' : CascadeDb) (cs : List ClaimId) : Prop where
  graph : SameGraph db db'
  revision : closure.graphRevision = db.graphRevision
  know : Knowledge.Invalidates db.know db'.know (closure.root :: cs) db.effective
  announces : Knowledge.Announces db.know db'.know
  members : ∀ c ∈ cs, c ∈ closure.claimIds
  manifests : ∀ m ∈ db'.manifests, m ∈ db.manifests ∨ m = manifestFor digest closure
  barriers : (cs = closure.claimIds ∧ db'.barriers = db.barriers) ∨
    ∃ b, db'.barriers = db.barriers ++ [b] ∧ b.id = db.barriers.length ∧
      b.rootClaimId = closure.root ∧ b.status ≠ .resolved ∧ b.closureManifestId = some (digest (manifestBody closure))

theorem startCascade_started {db db' : CascadeDb} {closure : ClosureResult} {reason : String}
    {r : CascadeStartResult} (h : startCascade digest db closure reason = .ok (db', r)) :
    ∃ cs, Started digest closure db db' cs := by
  obtain ⟨hrev, hgraph, -⟩ := startCascade_ok h
  unfold startCascade at h
  split at h
  · cases h
  · have hmem := @getOrCreateManifest_mem digest db closure
    have hrows := @getOrCreateManifest_barriers digest db closure
    have hid := @getOrCreateManifest_id digest db closure
    have hsame : SameGraph db (getOrCreateManifest digest db closure).1 :=
      getOrCreateManifest_same db closure
    generalize getOrCreateManifest digest db closure = p at h hmem hrows hid hsame
    obtain ⟨db₁, manifest⟩ := p
    simp only at h hmem hrows hid hsame
    split at h
    · cases h
      refine ⟨closure.claimIds, hgraph, hrev, ?_, ?_, fun _ hc => hc, fun _ => hmem,
        .inl ⟨rfl, hrows.1⟩⟩
      · rw [← hrows.2, ← hsame.effective]
        exact invalidateFrom_invalidates db₁ _ _ reason
      · rw [← hrows.2]
        exact invalidateFrom_announces db₁ _ _ reason
    · split at h
      · cases h
        refine ⟨closure.batch 0 batchSize, hgraph, hrev, ?_, ?_, ?_, fun _ => hmem, .inr ?_⟩
        · rw [← hrows.2, ← hsame.effective]
          exact invalidateFrom_invalidates db₁ _ _ reason
        · rw [← hrows.2]
          exact invalidateFrom_announces db₁ _ _ reason
        · intro c hc
          exact List.mem_of_mem_drop (List.mem_of_mem_take hc)
        · refine ⟨firstBarrier db₁ closure manifest.id, ?_, ?_, rfl, ?_, by rw [← hid]; rfl⟩
          · show db₁.barriers ++ _ = _
            rw [hrows.1]
          · exact congrArg List.length hrows.1
          · show (if _ then BarrierStatus.active else .closing) ≠ .resolved
            split <;> simp
      · cases h

/-! ## `process_barrier` -/

/-- The claims a barrier row may invalidate: those of its manifest. -/
def Barrier.Names (b : Barrier) (manifests : List ClosureManifest) (cs : List ClaimId) : Prop :=
  cs = [] ∨ ∃ m ∈ manifests, b.closureManifestId = some m.id ∧ ∀ c ∈ cs, c ∈ m.body.claimIds

/-- **What a step on the barrier `b` changes.** A part of the manifest goes back to
`pending`, and the row is written; it is resolved only over a settled closure. -/
structure Stepped (digest : ManifestBody → String) (b : Barrier) (db db' : CascadeDb)
    (cs : List ClaimId) (row : Barrier) : Prop where
  graph : SameGraph db db'
  know : Knowledge.Invalidates db.know db'.know cs db.effective
  announces : Knowledge.Announces db.know db'.know
  names : row.Names db'.manifests cs
  manifests : ∀ m ∈ db'.manifests,
    m ∈ db.manifests ∨ m = manifestFor digest (db.loadClosure b.rootClaimId)
  barriers : db'.barriers = db.barriers.map fun b' => if b'.id = row.id then row else b'
  id : row.id = b.id
  root : row.rootClaimId = b.rootClaimId
  manifest : row.closureManifestId = b.closureManifestId ∨
    row.closureManifestId = some (digest (manifestBody (db.loadClosure b.rootClaimId)))
  resolved : row.status = .resolved → db'.Settled b.rootClaimId

/-- The generation a step works on. -/
structure Regenerated (digest : ManifestBody → String) (b : Barrier) (db db₁ : CascadeDb)
    (b₁ : Barrier) : Prop where
  graph : SameGraph db db₁
  know : db₁.know = db.know
  barriers : db₁.barriers = db.barriers
  manifests : ∀ m ∈ db₁.manifests,
    m ∈ db.manifests ∨ m = manifestFor digest (db.loadClosure b.rootClaimId)
  id : b₁.id = b.id
  root : b₁.rootClaimId = b.rootClaimId
  manifest : b₁.closureManifestId = b.closureManifestId ∨
    b₁.closureManifestId = some (digest (manifestBody (db.loadClosure b.rootClaimId)))
  open' : b₁.status ≠ .resolved

theorem currentGeneration_regenerated {db : CascadeDb} {b : Barrier}
    (hopen : b.status ≠ .resolved) :
    Regenerated digest b db (currentGeneration digest db b).1
      (currentGeneration digest db b).2 := by
  obtain ⟨hgraph, hroot, hstatus⟩ := @currentGeneration_ok digest db b hopen
  unfold currentGeneration at hgraph hroot hstatus ⊢
  split
  · rename_i hnew
    rw [if_pos hnew] at hgraph hroot hstatus
    have hrows := @getOrCreateManifest_barriers digest db (db.loadClosure b.rootClaimId)
    refine ⟨hgraph, hrows.2, hrows.1, fun m hm => getOrCreateManifest_mem hm, rfl, hroot, .inr ?_,
      hstatus⟩
    show some (getOrCreateManifest digest db (db.loadClosure b.rootClaimId)).2.id = _
    rw [getOrCreateManifest_id]
  · exact ⟨.refl db, rfl, rfl, fun m hm => .inl hm, rfl, rfl, .inl rfl, hopen⟩

/-- The `active` section: it blocks the row and invalidates nothing, or it invalidates a
window of the manifest. -/
theorem activeStep_change {db : CascadeDb} {b b' : Barrier} {k : Knowledge} {n : Nat}
    (hactive : b.status = .active) (h : activeStep digest db b = .ok (b', k, n)) :
    b'.id = b.id ∧ b'.closureManifestId = b.closureManifestId ∧ ∃ cs,
      Knowledge.Invalidates db.know k cs db.effective ∧ k.revision = db.know.revision ∧
        (n = 0 → k.heads = db.know.heads) ∧ (b'.status = .blocked → cs = [] ∧ k = db.know) ∧
        b'.Names db.manifests cs := by
  unfold activeStep at h
  have hblocked : ∀ errorClass message,
      (b.block errorClass message, db.know, 0) = (b', k, n) →
      b'.id = b.id ∧ b'.closureManifestId = b.closureManifestId ∧ ∃ cs,
        Knowledge.Invalidates db.know k cs db.effective ∧ k.revision = db.know.revision ∧
          (n = 0 → k.heads = db.know.heads) ∧ (b'.status = .blocked → cs = [] ∧ k = db.know) ∧
          b'.Names db.manifests cs := by
    intro errorClass message heq
    cases heq
    exact ⟨rfl, rfl, [], .refl _ _, rfl, fun _ => rfl, fun _ => ⟨rfl, rfl⟩, .inl rfl⟩
  split at h
  · exact hblocked _ _ (Except.ok.inj h)
  · rename_i m hm
    split at h
    · exact hblocked _ _ (Except.ok.inj h)
    · split at h
      · cases h
      · split at h
        · exact hblocked _ _ (Except.ok.inj h)
        · cases h
          obtain ⟨i, hi, hfind⟩ := Option.bind_eq_some_iff.mp hm
          have hid : m.id = i := by simpa using List.find?_some hfind
          refine ⟨rfl, rfl, _, Knowledge.invalidateBatch_invalidates _ _ _ _, by simp, ?_, ?_,
            .inr ⟨m, List.mem_of_find?_eq_some hfind, by rw [hid]; exact hi, ?_⟩⟩
          · intro hzero
            rw [Knowledge.invalidateBatch_zero hzero]
          · intro hst
            have hne : (if m.body.count ≤ b.nextOffset +
                ((m.body.claimIds.drop b.nextOffset).take batchSize).length
                then BarrierStatus.closing else b.status) = .blocked := hst
            rw [hactive] at hne
            split at hne <;> cases hne
          · intro c hc
            exact List.mem_of_mem_drop (List.mem_of_mem_take hc)

/-- The end of the transaction, over the generation and what was invalidated. -/
theorem finishBarrier_stepped {db db₁ db' : CascadeDb} {b b₁ b₂ : Barrier} {k : Knowledge}
    {n now : Nat} {cs : List ClaimId} {st : BarrierStatus} (hre : Regenerated digest b db db₁ b₁)
    (hid : b₂.id = b₁.id) (hroot : b₂.rootClaimId = b₁.rootClaimId)
    (hmanifest : b₂.closureManifestId = b₁.closureManifestId) (hopen : b₂.status ≠ .resolved)
    (hinv : Knowledge.Invalidates db₁.know k cs db₁.effective)
    (hrev : k.revision = db₁.know.revision) (hzero : n = 0 → k.heads = db₁.know.heads)
    (hnames : b₂.Names db₁.manifests cs)
    (h : finishBarrier now { db₁ with know := k } b₂ n = .ok (db', st)) :
    ∃ row, Stepped digest b db db' cs row := by
  have hset := (finishBarrier_ok hopen h).2
  obtain ⟨db₂, hsave, heq⟩ := map_eq_ok.mp h
  obtain ⟨rfl, hst⟩ := Prod.mk.inj heq
  generalize hrow : (if b₂.status = .closing then closeStep now { db₁ with know := k } b₂
    else b₂) = row at hsave hst
  have hsame : row.id = b₂.id ∧ row.rootClaimId = b₂.rootClaimId ∧
      row.closureManifestId = b₂.closureManifestId := by
    rw [← hrow]
    split
    · obtain ⟨hi, hr, -, -, -, hm⟩ := closeStep_same now { db₁ with know := k } b₂
      exact ⟨hi, hr, hm⟩
    · exact ⟨rfl, rfl, rfl⟩
  obtain ⟨hrid, hrroot, hrmanifest⟩ := hsame
  obtain ⟨-, rfl⟩ := saveBarrier_eq_ok.mp hsave
  refine ⟨row, ?_⟩
  constructor
  · exact hre.graph.trans ⟨rfl, rfl, rfl⟩
  · rw [← hre.know, ← hre.graph.effective]
    exact hinv.congr (bumpIf_heads k n) (bumpIf_jobs k n)
  · rw [← hre.know]
    exact bumpIf_announces hrev hzero
  · rcases hnames with hnil | ⟨m, hm, hmid, hmem⟩
    · exact .inl hnil
    · exact .inr ⟨m, hm, hrmanifest.trans hmid, hmem⟩
  · exact hre.manifests
  · rw [← hre.barriers]
  · rw [hrid, hid, hre.id]
  · rw [hrroot, hroot, hre.root]
  · rw [hrmanifest, hmanifest]
    exact hre.manifest
  · intro hres
    have hs := hset (hst.symm.trans hres)
    rwa [hroot, hre.root] at hs

/-- **The change of a processor step**: nothing on a resolved barrier, otherwise a step on
its row. -/
theorem processBarrier_stepped {db db' : CascadeDb} {now : Nat} {id : BarrierId}
    {st : BarrierStatus} (h : processBarrier digest now id db = .ok (db', st)) :
    db' = db ∨ ∃ b cs row, db.barrier? id = some b ∧ b.status ≠ .resolved ∧
      Stepped digest b db db' cs row := by
  unfold processBarrier at h
  cases hb : db.barrier? id with
  | none => simp [hb] at h
  | some b =>
    simp only [hb] at h
    split at h
    · cases h
      exact .inl rfl
    · rename_i hopen
      refine .inr ⟨b, ?_⟩
      split at h
      · cases h
      · have hre := @currentGeneration_regenerated digest db b hopen
        generalize currentGeneration digest db b = p at h hre
        obtain ⟨db₁, b₁⟩ := p
        dsimp only at h hre
        split at h
        · rename_i hactive
          split at h
          · cases h
          · rename_i b₂ k n hstep
            obtain ⟨hid, hmanifest, cs, hinv, hrev, hzero, hblock, hnames⟩ :=
              activeStep_change hactive hstep
            split at h
            · rename_i hblocked
              obtain ⟨db₂, hsave, heq⟩ := map_eq_ok.mp h
              obtain ⟨rfl, -⟩ := Prod.mk.inj heq
              obtain ⟨-, rfl⟩ := saveBarrier_eq_ok.mp hsave
              obtain ⟨rfl, rfl⟩ := hblock hblocked
              refine ⟨[], b₂, rfl, hopen, hre.graph.trans ⟨rfl, rfl, rfl⟩, ?_, ?_, .inl rfl,
                hre.manifests, ?_, hid.trans hre.id, ?_, ?_, ?_⟩
              · rw [← hre.know, ← hre.graph.effective]
                exact hinv
              · rw [← hre.know]
                exact .refl _
              · rw [← hre.barriers]
              · rw [activeStep_root hstep, hre.root]
              · rw [hmanifest]
                exact hre.manifest
              · intro hres
                rw [hblocked] at hres
                cases hres
            · obtain ⟨row, hrow⟩ := finishBarrier_stepped hre hid (activeStep_root hstep)
                hmanifest (activeStep_open hstep hre.open') hinv hrev hzero hnames h
              exact ⟨cs, row, rfl, hopen, hrow⟩
        · obtain ⟨row, hrow⟩ := finishBarrier_stepped hre rfl rfl rfl hre.open' (.refl _ _) rfl
            (fun _ => rfl) (.inl rfl) h
          exact ⟨[], row, rfl, hopen, hrow⟩

/-! ## A call -/

/-- **All that a cascade call can do** to the database. -/
inductive CascadeChange (digest : ManifestBody → String) (w : CascadeWorld) :
    CascadeDb → Prop where
  /-- It has read, raised, or found a resolved barrier. -/
  | quiet : CascadeChange digest w w.db
  | started (i : Nat) (closure : ClosureResult) (cs : List ClaimId) (db : CascadeDb) :
      w.drivers[i]? = some (.closureRead closure) → Started digest closure w.db db cs →
      CascadeChange digest w db
  | stepped (id : BarrierId) (b row : Barrier) (cs : List ClaimId) (db : CascadeDb) :
      w.db.barrier? id = some b → b.status ≠ .resolved → Stepped digest b w.db db cs row →
      CascadeChange digest w db
  | dropped (ids : List String) : CascadeChange digest w
      { w.db with manifests := w.db.manifests.filter fun m => m.id ∉ ids }

theorem cascadeStep_change {w w' : CascadeWorld} {e : CascadeEvent}
    (hedges : ∀ new, e ≠ .commitEdges new) (hhead : ∀ c s h, e ≠ .writeHead c s h)
    (hflip : ∀ s, e ≠ .flip s) (h : cascadeStep digest w e = some w') :
    CascadeChange digest w w'.db := by
  cases e with
  | readRevision root =>
    cases h
    exact .quiet
  | readEdges i =>
    simp only [cascadeStep] at h
    split at h
    · cases h
      exact .quiet
    · cases h
  | startTx i reason =>
    simp only [cascadeStep] at h
    split at h
    · rename_i closure hi
      split at h
      · rename_i db r hstart
        cases h
        obtain ⟨cs, hcs⟩ := startCascade_started hstart
        exact .started i closure cs db hi hcs
      · cases h
        exact .quiet
    · cases h
  | process now id =>
    simp only [cascadeStep] at h
    split at h
    · rename_i db st hprocess
      cases h
      rcases processBarrier_stepped hprocess with rfl | ⟨b, cs, row, hb, hopen, hstep⟩
      · exact .quiet
      · exact .stepped id b row cs db hb hopen hstep
    · cases h
      exact .quiet
  | commitEdges new => exact absurd rfl (hedges new)
  | writeHead c s v => exact absurd rfl (hhead c s v)
  | flip s => exact absurd rfl (hflip s)
  | dropManifests ids =>
    cases h
    exact .dropped ids

/-- A call invalidates claims under the effective snapshot, and announces it. -/
theorem CascadeChange.invalidates {w : CascadeWorld} {db : CascadeDb}
    (h : CascadeChange digest w db) : SameGraph w.db db ∧
      Knowledge.Announces w.db.know db.know ∧
      ∃ cs, Knowledge.Invalidates w.db.know db.know cs w.db.effective := by
  cases h with
  | quiet => exact ⟨.refl _, .refl _, [], .refl _ _⟩
  | started i closure cs db hi hs => exact ⟨hs.graph, hs.announces, _, hs.know⟩
  | stepped id b row cs db hb hopen hs => exact ⟨hs.graph, hs.announces, _, hs.know⟩
  | dropped ids => exact ⟨⟨rfl, rfl, rfl⟩, .refl _, [], .refl _ _⟩

end Calls

end Noezema.Memory
