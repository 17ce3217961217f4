import Noezema.Memory.HeadWrites

/-! # What a current claim rests on

A commit refuses an evidential dependency on a claim that is not current, and a cascade
takes a claim back together with what depends on it, in one transaction or behind a
barrier. A change of the evidence takes back single claims, and neither the worker nor a
session asks about the dependencies of a claim it assesses. So a current claim rests on
current ones, up to the open barriers and to what one of these two has left behind.
-/

namespace Noezema.Memory

open Relation Noezema.Lib

namespace CascadeDb

/-- The head of the claim under the effective snapshot is current. -/
def IsCurrent (db : CascadeDb) (c : ClaimId) : Prop :=
  db.know.heads.state c db.effective = some .current

instance (db : CascadeDb) (c : ClaimId) : Decidable (db.IsCurrent c) :=
  inferInstanceAs (Decidable (_ = _))

/-- The claim is downstream of an open barrier. -/
def Protected (db : CascadeDb) (c : ClaimId) : Prop :=
  ∃ b ∈ db.barriers, b.status ≠ .resolved ∧ InClosure db.edges b.rootClaimId c

/-- `d` is current and depends on `e`, which is not. -/
structure Unsupported (db : CascadeDb) (d e : ClaimId) : Prop where
  current : db.IsCurrent d
  edge : (d, e) ∈ db.edges
  lapsed : ¬ db.IsCurrent e

theorem Protected.grow {db db' : CascadeDb} {c : ClaimId} (h : db.Protected c)
    (hbarriers : ∀ b ∈ db.barriers, b ∈ db'.barriers) (hedges : ∀ x ∈ db.edges, x ∈ db'.edges) :
    db'.Protected c := by
  obtain ⟨b, hb, hopen, hclosure⟩ := h
  exact ⟨b, hbarriers b hb, hopen, hclosure.mono hedges⟩

end CascadeDb

/-- An invalidation makes no claim current, and takes those it names back. -/
theorem Knowledge.Invalidates.current {k k' : Knowledge} {cs : List ClaimId} {s : SnapshotId}
    (h : Invalidates k k' cs s) {c : ClaimId} :
    k'.heads.state c s = some .current ↔ k.heads.state c s = some .current ∧ c ∉ cs := by
  by_cases hc : c ∈ cs
  · simp [h.not_current hc, hc]
  · have heq := h.heads c s
    rw [if_neg fun hin => hc hin.1] at heq
    simp [Heads.state, heq, hc]

/-! ## Cascade calls -/

section Calls

variable {digest : ManifestBody → String}

/-- **The invariant of manifests and barriers.** A manifest lists claims of the reverse
closure of its root, and the manifest of a barrier is one of the barrier's root. -/
structure Anchored (digest : ManifestBody → String) (db : CascadeDb) : Prop where
  acyclic : Acyclic (Edge db.edges)
  manifests : ∀ m ∈ db.manifests, m.id = digest m.body ∧
    ∀ c ∈ m.body.claimIds, InClosure db.edges m.body.root c
  barriers : ∀ b ∈ db.barriers, ∀ i, b.closureManifestId = some i →
    ∃ body : ManifestBody, digest body = i ∧ body.root = b.rootClaimId
  ids : db.barriers.map (·.id) = List.range db.barriers.length

theorem Anchored.grow {db db' : CascadeDb} (h : Anchored digest db)
    (hacyclic : Acyclic (Edge db'.edges)) (hedges : ∀ x ∈ db.edges, x ∈ db'.edges)
    (hmanifests : ∀ m ∈ db'.manifests, m ∈ db.manifests)
    (hbarriers : db'.barriers = db.barriers) : Anchored digest db' where
  acyclic := hacyclic
  manifests := by
    intro m hm
    obtain ⟨hid, hmem⟩ := h.manifests m (hmanifests m hm)
    exact ⟨hid, fun c hc => (hmem c hc).mono hedges⟩
  barriers := by
    rw [hbarriers]
    exact h.barriers
  ids := by
    rw [hbarriers]
    exact h.ids

/-- The manifests after a call that has computed a closure of the graph. -/
theorem Anchored.manifest {db db' : CascadeDb} (h : Anchored digest db) (hgraph : SameGraph db db')
    {closure : ClosureResult} (hclosure : ∀ c ∈ closure.claimIds, InClosure db.edges closure.root c)
    (hmanifests : ∀ m ∈ db'.manifests, m ∈ db.manifests ∨ m = manifestFor digest closure) :
    ∀ m ∈ db'.manifests, m.id = digest m.body ∧
      ∀ c ∈ m.body.claimIds, InClosure db'.edges m.body.root c := by
  intro m hm
  rw [hgraph.edges]
  rcases hmanifests m hm with hm | rfl
  · exact h.manifests m hm
  · exact ⟨rfl, hclosure⟩

/-- A driver that reaches its write transaction has the closure of the graph. -/
theorem Started.closure {w : CascadeWorld} {i : Nat} {closure : ClosureResult} {db : CascadeDb}
    {cs : List ClaimId} (hfresh : DriversFresh w)
    (hi : w.drivers[i]? = some (.closureRead closure)) (hs : Started digest closure w.db db cs) :
    ∀ v, v ∈ closure.claimIds ↔ InClosure w.db.edges closure.root v :=
  (hfresh _ (List.mem_of_getElem? hi)).2 hs.revision

theorem Anchored.started {db db' : CascadeDb} {closure : ClosureResult} {cs : List ClaimId}
    (h : Anchored digest db) (hclosure : ∀ v, v ∈ closure.claimIds ↔ InClosure db.edges closure.root v)
    (hs : Started digest closure db db' cs) : Anchored digest db' where
  acyclic := by
    rw [hs.graph.edges]
    exact h.acyclic
  manifests := h.manifest hs.graph (fun c hc => (hclosure c).mp hc) hs.manifests
  barriers := by
    intro b hb i hi
    rcases hs.barriers with ⟨-, hsame⟩ | ⟨new, hnew, -, hroot, -, hmanifest⟩
    · rw [hsame] at hb
      exact h.barriers b hb i hi
    · rw [hnew] at hb
      rcases List.mem_append.mp hb with hb | hb
      · exact h.barriers b hb i hi
      · rw [List.mem_singleton.mp hb] at hi ⊢
        rw [hmanifest] at hi
        exact ⟨manifestBody closure, Option.some.inj hi, hroot.symm⟩
  ids := by
    rcases hs.barriers with ⟨-, hsame⟩ | ⟨new, hnew, hid, -, -, -⟩
    · rw [hsame]
      exact h.ids
    · rw [hnew, List.map_append, h.ids, List.map_singleton, hid, List.length_append,
        List.length_singleton, List.range_succ]

theorem Anchored.stepped {db db' : CascadeDb} {b row : Barrier} {cs : List ClaimId}
    (h : Anchored digest db) (hb : b ∈ db.barriers) (hs : Stepped digest b db db' cs row) :
    Anchored digest db' where
  acyclic := by
    rw [hs.graph.edges]
    exact h.acyclic
  manifests := h.manifest hs.graph (fun _ hc => mem_computeReverseClosure.mp hc) hs.manifests
  barriers := by
    intro x hx i hi
    rw [hs.barriers] at hx
    obtain ⟨y, hy, rfl⟩ := List.mem_map.mp hx
    split at hi
    · rename_i hid
      rw [if_pos hid, hs.root]
      rcases hs.manifest with hsame | hnew
      · rw [hsame] at hi
        exact h.barriers b hb i hi
      · rw [hnew] at hi
        exact ⟨manifestBody (db.loadClosure b.rootClaimId), Option.some.inj hi, rfl⟩
    · rename_i hid
      rw [if_neg hid]
      exact h.barriers y hy i hi
  ids := by
    rw [hs.barriers, List.length_map, ← h.ids, List.map_map]
    refine List.map_congr_left fun x _ => ?_
    show (if x.id = row.id then row else x).id = x.id
    split
    · rename_i hid
      exact hid.symm
    · rfl

theorem Anchored.call {w : CascadeWorld} {db : CascadeDb} (h : Anchored digest w.db)
    (hfresh : DriversFresh w) (hcall : CascadeChange digest w db) : Anchored digest db := by
  cases hcall with
  | quiet => exact h
  | started i closure cs db hi hs => exact h.started (hs.closure hfresh hi) hs
  | stepped id b row cs db hb hopen hs => exact h.stepped (List.mem_of_find?_eq_some hb) hs
  | dropped ids =>
    exact h.grow h.acyclic (fun _ hx => hx) (fun _ hm => List.mem_of_mem_filter hm) rfl

/-- **Open barriers**: a call drops the protection of no current claim. -/
theorem CascadeChange.protected' {w : CascadeWorld} {db : CascadeDb} {d : ClaimId}
    (h : Anchored digest w.db) (hcall : CascadeChange digest w db) (hd : w.db.Protected d)
    (hcurrent : db.IsCurrent d) : db.Protected d := by
  cases hcall with
  | quiet => exact hd
  | started i closure cs db hi hs =>
    refine hd.grow ?_ fun x hx => by rwa [hs.graph.edges]
    intro b hb
    rcases hs.barriers with ⟨-, hsame⟩ | ⟨new, hnew, -⟩
    · rwa [hsame]
    · rw [hnew]
      exact List.mem_append_left _ hb
  | stepped id b row cs db hb hopen hs =>
    obtain ⟨x, hx, hxopen, hclosure⟩ := hd
    rw [← hs.graph.edges] at hclosure
    by_cases hid : x.id = row.id
    · have hxb : x = b := by
        have hnodup : (w.db.barriers.map (·.id)).Nodup := by
          rw [h.ids]
          exact List.nodup_range
        exact List.inj_on_of_nodup_map hnodup hx (List.mem_of_find?_eq_some hb)
          (hid.trans hs.id)
      rw [hxb, ← hs.root] at hclosure
      refine ⟨row, ?_, ?_, hclosure⟩
      · rw [hs.barriers]
        exact List.mem_map.mpr ⟨x, hx, if_pos hid⟩
      · intro hresolved
        rw [hs.root] at hclosure
        exact hs.resolved hresolved d hclosure hcurrent
    · refine ⟨x, ?_, hxopen, hclosure⟩
      rw [hs.barriers]
      exact List.mem_map.mpr ⟨x, hx, if_neg hid⟩
  | dropped ids => exact hd

/-- **A cascade call leaves nothing behind**: what rests on a claim it takes back is taken
back with it, or is downstream of an open barrier. -/
theorem CascadeChange.unsupported {w : CascadeWorld} {db : CascadeDb} {d e : ClaimId}
    (hdigest : ∀ m m' : ManifestBody, digest m = digest m' → m.root = m'.root)
    (h : Anchored digest w.db) (hfresh : DriversFresh w) (hcall : CascadeChange digest w db)
    (hd : db.Unsupported d e) : db.Protected d ∨ w.db.Unsupported d e := by
  have hafter := h.call hfresh hcall
  obtain ⟨hcurrent, hedge, hlapsed⟩ := hd
  cases hcall with
  | quiet => exact .inr ⟨hcurrent, hedge, hlapsed⟩
  | started i closure cs db hi hs =>
    unfold CascadeDb.IsCurrent at hcurrent hlapsed
    rw [hs.graph.effective, hs.know.current] at hcurrent hlapsed
    rw [hs.graph.edges] at hedge
    by_cases he : w.db.IsCurrent e
    · -- `e` is the root or in its closure, so `d` is downstream of the root
      have hin : e ∈ closure.root :: cs := by
        by_contra hout
        exact hlapsed ⟨he, hout⟩
      have hclosure := hs.closure hfresh hi
      have hdown : InClosure w.db.edges closure.root d := by
        refine .of_edge hedge (fun heq => hcurrent.2 (heq ▸ List.mem_cons_self)) ?_
        exact (List.mem_cons.mp hin).imp_right fun hc => (hclosure e).mp (hs.members e hc)
      rcases hs.barriers with ⟨rfl, -⟩ | ⟨b, hnew, -, hroot, hopen, -⟩
      · exact absurd (List.mem_cons_of_mem _ ((hclosure d).mpr hdown)) hcurrent.2
      · refine .inl ⟨b, ?_, hopen, ?_⟩
        · rw [hnew]
          exact List.mem_append_right _ (List.mem_singleton.mpr rfl)
        · rwa [hroot, hs.graph.edges]
    · exact .inr ⟨hcurrent.1, hedge, he⟩
  | stepped id b row cs db hb hopen hs =>
    have hedge' := hedge
    unfold CascadeDb.IsCurrent at hcurrent hlapsed
    have hcurrent' := hcurrent
    rw [hs.graph.effective, hs.know.current] at hcurrent hlapsed
    rw [hs.graph.edges] at hedge
    by_cases he : w.db.IsCurrent e
    · have hin : e ∈ cs := by
        by_contra hout
        exact hlapsed ⟨he, hout⟩
      -- the batch is a part of a manifest of the row's root
      have hrow : row ∈ db.barriers := by
        rw [hs.barriers]
        exact List.mem_map.mpr ⟨b, List.mem_of_find?_eq_some hb, if_pos hs.id.symm⟩
      have hclosure : InClosure db.edges row.rootClaimId e := by
        rcases hs.names with hnil | ⟨m, hm, hmid, hmem⟩
        · rw [hnil] at hin
          cases hin
        · obtain ⟨hid, hmembers⟩ := hafter.manifests m hm
          obtain ⟨body, hbody, hroot⟩ := hafter.barriers row hrow m.id hmid
          rw [← hroot, hdigest body m.body (hbody.trans hid)]
          exact hmembers e (hmem e hin)
      have hdown : InClosure db.edges row.rootClaimId d := by
        refine .of_edge hedge' ?_ (.inr hclosure)
        intro heq
        rw [heq] at hedge'
        exact hafter.acyclic row.rootClaimId (.head hedge' hclosure.2)
      refine .inl ⟨row, hrow, ?_, hdown⟩
      intro hresolved
      rw [hs.root] at hdown
      exact hs.resolved hresolved d hdown hcurrent'
    · exact .inr ⟨hcurrent.1, hedge, he⟩
  | dropped ids => exact .inr ⟨hcurrent, hedge, hlapsed⟩

end Calls

/-! ## The system -/

namespace World

/-- **The invariant.** Sessions and final transactions run under the snapshot in force. -/
structure Grounded (digest : ManifestBody → String) (w : World) : Prop where
  anchored : Anchored digest w.db.cascade
  fresh : DriversFresh ⟨w.db.cascade, w.drivers⟩
  pins : ∀ s ∈ w.sessions, s.pin = w.db.effective
  active : ∀ f, w.finalizing = some f → f.active = w.db.effective

/-- The rules stay: no step of an online activation, no publication of an offline
change. -/
def KeepsRules (_ : World) : SystemEvent → Prop
  | .lane _ | .publishOffline => False
  | _ => True

/-- **The event goes past the dependency of `d` on `e`**: it is a change of the evidence
that takes `e` back and leaves `d`, or it assesses `d` while `e` is not current. -/
inductive Bypasses (w : World) (d e : ClaimId) : SystemEvent → Prop where
  | requeued (ev : SystemEvent) : w.db.cascade.IsCurrent e → e ∈ w.requeued ev →
      w.db.cascade.IsCurrent d → d ∉ w.requeued ev → Bypasses w d e ev
  | worker (ev : WorkerEvent) : ¬ w.db.cascade.IsCurrent d → ¬ w.db.cascade.IsCurrent e →
      Bypasses w d e (.worker ev)
  | session : ¬ w.db.cascade.IsCurrent d → ¬ w.db.cascade.IsCurrent e → Bypasses w d e .finalize

theorem Initial.grounded {digest : ManifestBody → String} {w : World} (h : w.Initial) :
    w.Grounded digest where
  anchored := by
    constructor
    · intro v hv
      obtain ⟨x, hx, -⟩ := TransGen.head'_iff.mp hv
      simp [Edge, CascadeDb.edges, h.dependencies, evidentialEdges] at hx
    · simp [h.manifests]
    · simp [h.barriers]
    · simp [h.barriers]
  fresh := by
    intro d hd
    rw [show w.drivers = [] from h.drivers] at hd
    cases hd
  pins := by simp [h.sessions]
  active := by simp [h.finalizing]

section Runs

variable {host : Host} {digest : ManifestBody → String}
  {headDigest : List (ClaimId × Head) → String}

/-- **What a step owes**: the invariant, the protection of what stays current, and for each
claim without support that support was missing before or is bypassed. -/
structure Accounts (digest : ManifestBody → String) (w : World) (ev : SystemEvent)
    (w' : World) : Prop where
  grounded : w'.Grounded digest
  protection : ∀ d, w.db.cascade.Protected d → w'.db.cascade.IsCurrent d →
    w'.db.cascade.Protected d
  unsupported : ∀ d e, w'.db.cascade.Unsupported d e →
    w'.db.cascade.Protected d ∨ w.db.cascade.Unsupported d e ∨
      ((d, e) ∈ w.db.cascade.edges ∧ w.Bypasses d e ev)

/-- A step that writes nothing of the cascade tables but heads and jobs. -/
theorem Grounded.next {w w' : World} {ev : SystemEvent} (h : w.Grounded digest)
    (hcascade : w'.db.cascade = { w.db.cascade with know := w'.db.know })
    (hdrivers : w'.drivers = w.drivers)
    (hpins : ∀ s ∈ w'.sessions, s.pin = w.db.effective ∨ ∃ s' ∈ w.sessions, s'.pin = s.pin)
    (hactive : ∀ f, w'.finalizing = some f →
      w.finalizing = some f ∨ f.active = w.db.effective)
    (hunsupported : ∀ d e, w'.db.cascade.IsCurrent d → (d, e) ∈ w.db.cascade.edges →
      ¬ w'.db.cascade.IsCurrent e → w.db.cascade.Unsupported d e ∨ w.Bypasses d e ev) :
    Accounts digest w ev w' := by
  have hsame : SameGraph w.db.cascade w'.db.cascade := by
    rw [hcascade]
    exact ⟨rfl, rfl, rfl⟩
  have heffective : w'.db.effective = w.db.effective := hsame.effective
  have hbarriers : w'.db.cascade.barriers = w.db.cascade.barriers := by rw [hcascade]
  have hmanifests : w'.db.cascade.manifests = w.db.cascade.manifests := by rw [hcascade]
  have hedges : ∀ x ∈ w.db.cascade.edges, x ∈ w'.db.cascade.edges := by
    intro x hx
    rwa [hsame.edges]
  refine ⟨⟨?_, ?_, ?_, ?_⟩, ?_, ?_⟩
  · exact h.anchored.grow (by rw [hsame.edges]; exact h.anchored.acyclic) hedges
      (by rw [hmanifests]; exact fun _ hm => hm) hbarriers
  · intro d hd
    rw [hdrivers] at hd
    exact (h.fresh d hd).same hsame
  · intro s hs
    rw [heffective]
    rcases hpins s hs with heq | ⟨s', hs', heq⟩
    · exact heq
    · rw [← heq]
      exact h.pins s' hs'
  · intro f hf
    rw [heffective]
    rcases hactive f hf with hold | heq
    · exact h.active f hold
    · exact heq
  · intro d hd _
    exact hd.grow (by rw [hbarriers]; exact fun _ hb => hb) hedges
  · intro d e ⟨hcurrent, hedge, hlapsed⟩
    rw [hsame.edges] at hedge
    exact .inr ((hunsupported d e hcurrent hedge hlapsed).imp_right fun hb => ⟨hedge, hb⟩)

/-- A step that leaves the cascade tables alone. -/
theorem Grounded.same {w w' : World} {ev : SystemEvent} (h : w.Grounded digest)
    (hcascade : w'.db.cascade = w.db.cascade) (hdrivers : w'.drivers = w.drivers)
    (hpins : ∀ s ∈ w'.sessions, s.pin = w.db.effective ∨ ∃ s' ∈ w.sessions, s'.pin = s.pin)
    (hactive : ∀ f, w'.finalizing = some f →
      w.finalizing = some f ∨ f.active = w.db.effective) : Accounts digest w ev w' := by
  refine h.next ?_ hdrivers hpins hactive ?_
  · rw [show w'.db.know = w.db.know from congrArg CascadeDb.know hcascade, hcascade]
  · intro d e hcurrent hedge hlapsed
    rw [hcascade] at hcurrent hlapsed
    exact .inl ⟨hcurrent, hedge, hlapsed⟩

/-- A final transaction makes claims current, and adds edges to current claims only. -/
theorem Grounded.committed {w w' : World} {f : FinalizeTx} {s : WorldSession}
    (h : w.Grounded digest) (hs : w.sessions[f.session]? = some s)
    (hcommit : w.commitFinalize host f s = some w') : Accounts digest w .finalize w' := by
  have hpin : s.pin = w.db.effective := h.pins s (List.mem_of_getElem? hs)
  have hset : ∀ t : WorldSession, t.pin = s.pin → PinsFrom w (w.sessions.set f.session t) :=
    fun t ht => PinsFrom.set hs ht
  obtain ⟨-, rfl | ⟨db, res, hok, rfl⟩⟩ := commitFinalize_cases hcommit
  · exact h.same rfl rfl (hset _ rfl) nofun
  · obtain ⟨created, hcommits, -⟩ := MemoryDb.commitMemory_commits hok
    obtain ⟨hacyclic, hkept, hnew, hsame⟩ := MemoryDb.commitMemory_edges hok
    -- the session runs under the pointer, so no claim it creates is left pending
    have hstays : ∀ c, w.db.cascade.IsCurrent c → db.cascade.IsCurrent c := by
      intro c hc
      unfold CascadeDb.IsCurrent at hc ⊢
      rw [show db.cascade.effective = w.db.effective from hcommits.effective]
      rcases hcommits.heads c w.db.effective with heq | ⟨-, -, a, e, hcur⟩ | ⟨-, hmem, hp⟩
      · unfold Heads.state at hc ⊢
        rwa [heq]
      · exact Knowledge.state_eq_current.mpr ⟨a, e, hcur⟩
      · obtain ⟨a, e, hcur⟩ := hcommits.pinned c hmem
        rw [hpin, hp] at hcur
        cases hcur
    refine ⟨⟨?_, ?_, ?_, nofun⟩, ?_, ?_⟩
    · exact h.anchored.grow (hacyclic h.anchored.acyclic) hkept
        (fun m hm => hcommits.manifests ▸ hm) hcommits.barriers
    · intro d hd
      refine (h.fresh d hd).later ?_ ?_
      · show _ ≤ ite _ _ _
        rw [hcommits.graphRevision]
        split
        · exact Nat.le_succ _
        · exact Nat.le_refl _
      · intro hrev
        refine hsame fun hbumps => ?_
        have hrev' : ite _ _ _ = w.db.cascade.graphRevision := hrev
        rw [if_pos hbumps, hcommits.graphRevision] at hrev'
        omega
    · intro t ht
      show t.pin = db.effective
      rw [hcommits.effective]
      rcases hset { s with phase := .ended, admission := _ } rfl t ht with heq | ⟨t', ht', heq⟩
      · exact heq
      · rw [← heq]
        exact h.pins t' ht'
    · intro d hd _
      exact hd.grow (fun b hb => hcommits.barriers ▸ hb) hkept
    · intro d e ⟨hcurrent, hedge, hlapsed⟩
      have hlapsed' : ¬ w.db.cascade.IsCurrent e := fun hc => hlapsed (hstays e hc)
      have hedge' : (d, e) ∈ w.db.cascade.edges := by
        rcases hnew (d, e) hedge with hold | hc
        · exact hold
        · rw [hpin] at hc
          exact absurd hc hlapsed'
      by_cases hd : w.db.cascade.IsCurrent d
      · exact .inr (.inl ⟨hd, hedge', hlapsed'⟩)
      · exact .inr (.inr ⟨hedge', .session hd hlapsed'⟩)

/-- **The step lemma.** -/
theorem Grounded.step {w w' : World} {ev : SystemEvent}
    (hdigest : ∀ m m' : ManifestBody, digest m = digest m' → m.root = m'.root)
    (h : w.Grounded digest) (hrules : w.KeepsRules ev)
    (hstep : w.systemStep host digest headDigest ev = some w') : Accounts digest w ev w' := by
  have hpins : ∀ s ∈ w.sessions, s.pin = w.db.effective ∨ ∃ s' ∈ w.sessions, s'.pin = s.pin :=
    PinsFrom.same w
  cases systemStep_change hstep with
  | refused => exact h.same rfl rfl hpins fun _ hf => .inl hf
  | lane e db hopen hlane => exact hrules.elim
  | worker e =>
    have hsettles := @MemoryDb.workerStep_settles host.parseDay host.parseTime host.readers w.db e
    have hknow := @MemoryDb.workerStep_onlyKnow host.parseDay host.parseTime host.readers w.db e
    have heffective : (w.db.workerStep host.parseDay host.parseTime host.readers e).effective =
        w.db.effective := (congrArg CascadeDb.effective hknow :)
    refine h.next hknow rfl hpins (fun _ hf => .inl hf) ?_
    intro d e hcurrent hedge hlapsed
    have hlapsed' : ¬ w.db.cascade.IsCurrent e := by
      intro hc
      have hafter := hsettles.current hc
      rw [show w.db.cascade.effective = _ from heffective.symm] at hafter
      exact hlapsed hafter
    by_cases hd : w.db.cascade.IsCurrent d
    · exact .inl ⟨hd, hedge, hlapsed'⟩
    · exact .inr (.worker _ hd hlapsed')
  | cascade e cw hedges hhead hflip hcall =>
    have hchange := cascadeStep_change hedges hhead hflip hcall
    have hsame := hchange.invalidates.1
    refine ⟨⟨?_, ?_, ?_, ?_⟩, ?_, ?_⟩
    · exact h.anchored.call h.fresh hchange
    · exact cascadeStep_fresh h.fresh hcall
    · intro s hs
      exact (h.pins s hs).trans hsame.effective.symm
    · intro f hf
      exact (h.active f hf).trans hsame.effective.symm
    · intro d hd hcurrent
      exact hchange.protected' h.anchored hd hcurrent
    · intro d e hd
      rcases hchange.unsupported hdigest h.anchored h.fresh hd with hp | hu
      · exact .inl hp
      · exact .inr (.inl hu)
  | requeued ev db hreq =>
    have heffective : db.effective = w.db.effective := (congrArg CascadeDb.effective hreq.cascade :)
    refine h.next hreq.cascade rfl hpins (fun _ hf => .inl hf) ?_
    intro d e' hcurrent hedge hlapsed
    have hcurrent' : db.know.heads.state d db.effective = some .current := hcurrent
    have hlapsed' : ¬ db.know.heads.state e' db.effective = some .current := hlapsed
    rw [heffective, hreq.know.current] at hcurrent' hlapsed'
    by_cases he : w.db.cascade.IsCurrent e'
    · have hin : e' ∈ w.requeued ev := by
        by_contra hout
        exact hlapsed' ⟨he, hout⟩
      exact .inr (.requeued ev he hin hcurrent'.1 hcurrent'.2)
    · exact .inl ⟨hcurrent'.1, hedge, he⟩
  | sessions e ss fin hpins' hfin => exact h.same rfl rfl hpins' fun f hf => .inl (hfin f hf)
  | began e f hactive hnone =>
    refine h.same rfl rfl hpins ?_
    intro f' hf
    obtain rfl : f = f' := Option.some.inj hf
    exact .inr hactive
  | committed f s w' hf hs hcommit => exact h.committed hs hcommit
  | offlineRead id q run hfresh hnone hread => exact h.same rfl rfl hpins fun _ hf => .inl hf
  | offlineVerified run run' hrun hcandidate hheads =>
    exact h.same rfl rfl hpins fun _ hf => .inl hf
  | offlineDropped e => exact h.same rfl rfl hpins fun _ hf => .inl hf
  | offlinePublished run db hrun hpublish => exact hrules.elim

variable (host digest headDigest)

/-- Support of `d` by `e` was bypassed at some step of the run, and has been missing
since. -/
def LeftBehind (w₀ w : World) (d e : ClaimId) : Prop :=
  ∃ w₁ ev w₂, Run (systemStep host digest headDigest) KeepsRules w₀ w₁ ∧ w₁.KeepsRules ev ∧
    w₁.systemStep host digest headDigest ev = some w₂ ∧
    (d, e) ∈ w₁.db.cascade.edges ∧ w₁.Bypasses d e ev ∧
    Run (systemStep host digest headDigest)
      (fun v ev' => v.KeepsRules ev' ∧ v.db.cascade.Unsupported d e) w₂ w

variable {host digest headDigest}

/-- **A current claim rests on current claims**, in any run under one set of rules: a claim
it depends on is current, or the claim is downstream of an open barrier, or a change of the
evidence or an assessment has bypassed the dependency and it has been missing since. -/
theorem current_rests_on_current {w₀ w : World}
    (hdigest : ∀ m m' : ManifestBody, digest m = digest m' → m.root = m'.root)
    (h₀ : w₀.Initial) (hrun : Run (systemStep host digest headDigest) KeepsRules w₀ w)
    {d e : ClaimId} (hd : w.db.cascade.IsCurrent d) (hedge : (d, e) ∈ w.db.cascade.edges) :
    w.db.cascade.IsCurrent e ∨ w.db.cascade.Protected d ∨
      LeftBehind host digest headDigest w₀ w d e := by
  have hall : w.Grounded digest ∧ (w.db.cascade.Unsupported d e →
      w.db.cascade.Protected d ∨ LeftBehind host digest headDigest w₀ w d e) := by
    clear hd hedge
    induction hrun with
    | nil =>
      refine ⟨h₀.grounded, fun hu => ?_⟩
      have hnone := hu.edge
      simp [CascadeDb.edges, h₀.dependencies, evidentialEdges] at hnone
    | @snoc v w ev hrun hrules hstep ih =>
      obtain ⟨hgrounded, hexplained⟩ := ih
      obtain ⟨hnext, hprotection, hunsupported⟩ := hgrounded.step hdigest hrules hstep
      refine ⟨hnext, fun hu => ?_⟩
      rcases hunsupported d e hu with hp | hbefore | ⟨hedge, hbypass⟩
      · exact .inl hp
      · rcases hexplained hbefore with hp | ⟨w₁, ev₁, w₂, hfirst, hg, hs, he, hb, hsince⟩
        · exact .inl (hprotection d hp hu.current)
        · exact .inr ⟨w₁, ev₁, w₂, hfirst, hg, hs, he, hb,
            .snoc hsince ⟨hrules, hbefore⟩ hstep⟩
      · exact .inr ⟨v, ev, w, hrun, hrules, hstep, hedge, hbypass, .nil⟩
  by_cases he : w.db.cascade.IsCurrent e
  · exact .inl he
  · exact .inr (hall.2 ⟨hd, hedge, he⟩)

end Runs

end World

/-! ## Claims without support -/

/-- A digest that tells closures of different roots apart. -/
def rootDigest (m : ManifestBody) : String := String.ofList (List.replicate m.root 'm')

theorem rootDigest_root (m m' : ManifestBody) (h : rootDigest m = rootDigest m') :
    m.root = m'.root := by
  simpa [rootDigest] using congrArg String.length h

/-- The system of a host that reads the dependencies of `twoClaims`. -/
abbrev edgeSystem : World → SystemEvent → Option World :=
  World.systemStep { plainHost with parseUuid := parseTwo } rootDigest fun _ => "heads"

/-- A fact that depends on claim `1`. -/
def dependentFact (id : ClaimId) : ProposedClaim :=
  ⟨⟨List.replicate id 'a', "fact", none⟩, id, false, ∅,
    [.dict none (some "00000000-0000-0000-0000-000000000001")]⟩

/-- Session `i` commits claims that depend on claim `1`, the first of them with evidence. -/
def dependentCommit (i : Nat) (ids : List ClaimId) : List SystemEvent :=
  [.admission (i + 1), .committing i, .prepare i,
    .beginFinalize i (ids.map dependentFact) [pageLink 3 "b"], .finalize]

/-- Session `2` states claim `2` again. -/
def restatedCommit : List SystemEvent :=
  [.admission 3, .committing 2, .prepare 2,
    .beginFinalize 2 [{ dependentFact 2 with newId := 3 }] [], .finalize]

/-- A cascade from claim `1`. -/
def cascadeFromOne : List SystemEvent :=
  [.cascade (.readRevision 1), .cascade (.readEdges 0), .cascade (.startTx 0 "dispute")]

def dependentWorld : World :=
  (exec edgeSystem pageWorld (reportedCommit ++ dependentCommit 1 [2])).getD pageWorld

theorem current_rests_on_current_requeued : ∃ w,
    exec edgeSystem pageWorld (reportedCommit ++ dependentCommit 1 [2] ++
      [.sourceGraph (mergedPages dependentWorld) [1, 2]]) = some w ∧
    w.db.cascade.IsCurrent 2 ∧ (2, 1) ∈ w.db.cascade.edges ∧
    (w.db.cascade.IsCurrent 1 ∨ w.db.cascade.Protected 2 ∨
      World.LeftBehind { plainHost with parseUuid := parseTwo } rootDigest (fun _ => "heads")
        pageWorld w 2 1) := by
  refine ⟨_, rfl, rfl, by decide, ?_⟩
  have hrun := @Run.of_exec_guarded _ _ edgeSystem World.KeepsRules pageWorld _
    (reportedCommit ++ dependentCommit 1 [2] ++
      [.sourceGraph (mergedPages dependentWorld) [1, 2]]) rfl (by
      intro e he a
      fin_cases he <;> trivial)
  exact World.current_rests_on_current rootDigest_root pageWorld_initial hrun rfl (by decide)

set_option maxRecDepth 20000 in
/-- Claim `2` loses its support to a change of the source graph; to a worker that finds no
evidence for claim `1` but some for claim `2`; and to a session that states it again. Claim
`34` is beyond the first batch of a cascade. -/
theorem current_without_support :
    (∃ w, exec edgeSystem pageWorld (reportedCommit ++ dependentCommit 1 [2] ++
        [.sourceGraph (mergedPages dependentWorld) [1, 2]]) = some w ∧
      w.db.cascade.Unsupported 2 1 ∧ w.db.cascade.barriers = []) ∧
    (∃ w, exec edgeSystem pageWorld (factCommit ++ dependentCommit 1 [2] ++ cascadeFromOne ++
        [.worker (.lease 3 2 9), .worker (.process 4 0), .worker (.process 5 1)]) = some w ∧
      w.db.cascade.Unsupported 2 1 ∧ w.db.cascade.barriers = []) ∧
    (∃ w, exec edgeSystem pageWorld (reportedCommit ++ dependentCommit 1 [2] ++
        cascadeFromOne ++ restatedCommit) = some w ∧
      w.db.cascade.Unsupported 2 1 ∧ w.db.cascade.barriers = []) ∧
    ∃ w, exec edgeSystem pageWorld (reportedCommit ++
        dependentCommit 1 (List.range' 2 11) ++ dependentCommit 2 (List.range' 13 11) ++
        dependentCommit 3 (List.range' 24 11) ++ cascadeFromOne) = some w ∧
      w.db.cascade.Unsupported 34 1 := by
  refine ⟨⟨_, rfl, ⟨rfl, by decide, by decide⟩, rfl⟩, ⟨_, rfl, ⟨rfl, by decide, by decide⟩, rfl⟩,
    ⟨_, rfl, ⟨rfl, by decide, by decide⟩, rfl⟩, ⟨_, rfl, ⟨rfl, by decide, by decide⟩⟩⟩

end Noezema.Memory
