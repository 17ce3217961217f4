import Mathlib.Logic.Equiv.List
import Noezema.Backup.History

/-! # Backups that can be restored

A sweep does not know what an inventory lists, and the drill takes an object that is gone for
one that never was in the store. Both are harmless while the listed rows are wanted for
another reason and no listed object is lost; the invariant `Kept` carries that along a run.
-/

namespace Noezema.Backup

open Noezema.Lib Noezema.Artifacts Noezema.Gc

/-! ## What a backup is good for -/

/-- **A sweep spares the backups**: what the inventory of a retained one lists keeps its row
and its bytes. -/
def SparesBackups (w w' : World) (now : Nat) : Prop :=
  ∀ b ∈ w.taken, isRetained b.manifest now → ∀ a ∈ b.rows,
    (a ∈ w.db.artifacts → a ∈ w'.db.artifacts) ∧
      ∀ data, w.store.get a.sha256 = .ok data → w'.store.get a.sha256 = .ok data

/-- **The drill tells the truth**: where it passes, what was in the store is there, with the
recorded hash and size. -/
def DrillHonest (c : Codec) (w : World) : Prop :=
  ∀ b ∈ w.taken, ∀ host, (runRestoreDrill c w.db w.store b.manifest host).passed →
    ∀ a ∈ b.rows, b.store.isPresent a.sha256 →
      ∃ data, w.store.get a.sha256 = .ok data ∧ c.sha256 data = a.sha256 ∧ data.length = a.size

/-! ## What keeps it so -/

/-- The sweep keeps the row for a reason of its own: a live row names it, it is pinned, or it
is young. -/
def Wanted (db : GcDb) (now : Nat) (a : Artifact) : Prop :=
  a.id ∈ db.namedArtifacts ∨ db.isPinned "artifact" a.id ∨
    now ≤ a.createdAt + days artifactRetentionDays

/-- A backup that is retained lists the hash. -/
def ListedRetained (w : World) (now : Nat) (sha : String) : Prop :=
  ∃ b ∈ w.taken, isRetained b.manifest now ∧ ∃ a ∈ b.rows, a.sha256 = sha

/-- A backup found the object of the row in the store. -/
def FoundResident (w : World) (a : Artifact) : Prop :=
  ∃ b ∈ w.taken, a ∈ b.rows ∧ b.store.isPresent a.sha256

/-- The step takes nothing from the backups: a sweep wants the rows that a retained one
lists, a failed one also does not unlink what a backup found in the store, and no such object
goes missing while its row is there. -/
def Careful (w : World) : Event → Prop
  | .sweep now _ _ => ∀ a ∈ w.db.artifacts, ListedRetained w now a.sha256 → Wanted w.db now a
  | .failedSweep now _ unlinks _ =>
    (∀ a ∈ w.db.artifacts, ListedRetained w now a.sha256 → Wanted w.db now a) ∧
      ∀ a ∈ w.db.artifacts, FoundResident w a → Wanted w.db now a ∨ unlinks a.sha256 = false
  | .lose sha left => ∀ a ∈ w.db.artifacts, a.sha256 = sha → FoundResident w a → left ≠ none
  | _ => True

/-! ## The laws of hash and document -/

/-- JSON reads back what it wrote, and the hash has no collision among the bytes that occur. -/
structure Codec.Lawful (c : Codec) (occurring : Set Bytes) : Prop where
  loads_dumps : ∀ entries, c.loads (c.dumps entries) = some entries
  injective : Set.InjOn c.sha256 occurring

/-- The step brings no other bytes. -/
def Brings (c : Codec) (occurring : Set Bytes) (w : World) (e : Event) : Prop :=
  ∀ data ∈ e.brings c w, data ∈ occurring

/-! ## The invariant -/

section Invariant

variable {c : Codec} {occurring : Set Bytes}

/-- The document of a backup. -/
def TakenBackup.document (c : Codec) (b : TakenBackup) : Bytes :=
  c.dumps (buildArtifactInventory (b.rows.insertionSort fun a b => a.id ≤ b.id))

/-- What stays true of a backup: its rows are the only ones of their ids, and what it found in
the store is there or has lost its row. -/
structure KeptBackup (c : Codec) (occurring : Set Bytes) (w : World) (b : TakenBackup) :
    Prop where
  hash : b.manifest.artifactInventoryHash = c.sha256 (b.document c)
  document : b.document c ∈ occurring
  issued : ∀ a ∈ b.rows, a.id ∈ w.issued
  rows : ∀ a ∈ b.rows, ∀ a' ∈ w.db.artifacts, a'.id = a.id → a' = a
  present : ∀ a ∈ b.rows, b.store.isPresent a.sha256 →
    w.store.isPresent a.sha256 ∨ a ∉ w.db.artifacts

/-- Ids and hashes of the registry are unique, and its backups are kept. -/
structure Kept (c : Codec) (occurring : Set Bytes) (w : World) : Prop where
  ids : (w.db.artifacts.map (·.id)).Nodup
  shas : (w.db.artifacts.map (·.sha256)).Nodup
  issued : ∀ a ∈ w.db.artifacts, a.id ∈ w.issued
  stored : ∀ sha data, w.store sha = some data → data ∈ occurring
  backups : ∀ b ∈ w.taken, KeptBackup c occurring w b

theorem Kept.fresh {w : World} (h : w.Fresh) : Kept c occurring w := by
  obtain ⟨hrows, -, htaken, hstore⟩ := h
  constructor
  · simp [hrows]
  · simp [hrows]
  · simp [hrows]
  · simp [hstore]
  · simp [htaken]

/-- Two rows of one hash are one. -/
theorem Kept.eq_of_sha {w : World} (h : Kept c occurring w) {a a' : Artifact}
    (ha : a ∈ w.db.artifacts) (ha' : a' ∈ w.db.artifacts) (hsha : a'.sha256 = a.sha256) :
    a' = a :=
  List.inj_on_of_nodup_map h.shas ha' ha hsha

/-- A step that issues ids for its new rows, and keeps the bytes of the listed ones that are
still there, keeps a backup. -/
theorem KeptBackup.next {w w' : World} {b : TakenBackup} (h : KeptBackup c occurring w b)
    (hissued : ∀ i ∈ w.issued, i ∈ w'.issued)
    (hrows : ∀ a ∈ w'.db.artifacts, a ∈ w.db.artifacts ∨ a.id ∉ w.issued)
    (hbytes : ∀ a ∈ b.rows, b.store.isPresent a.sha256 → a ∈ w.db.artifacts →
      a ∈ w'.db.artifacts → w.store.isPresent a.sha256 → w'.store.isPresent a.sha256) :
    KeptBackup c occurring w' b := by
  have hold : ∀ a ∈ b.rows, ∀ a' ∈ w'.db.artifacts, a'.id = a.id → a' ∈ w.db.artifacts := by
    intro a ha a' ha' hid
    rcases hrows a' ha' with hin | hnew
    · exact hin
    · exact absurd (hid ▸ h.issued a ha) hnew
  refine ⟨h.hash, h.document, fun a ha => hissued _ (h.issued a ha), ?_, ?_⟩
  · intro a ha a' ha' hid
    exact h.rows a ha a' (hold a ha a' ha' hid) hid
  · intro a ha hresident
    by_cases hin : a ∈ w'.db.artifacts
    · have hbefore := hold a ha a hin rfl
      rcases h.present a ha hresident with hpresent | hgone
      · exact .inl (hbytes a ha hresident hbefore hin hpresent)
      · exact absurd hbefore hgone
    · exact .inr hin

/-! ## Steps -/

/-- A step that writes no row, and keeps the bytes of the rows a backup found resident. -/
theorem Kept.shrink {w w' : World} (h : Kept c occurring w) (htaken : w'.taken = w.taken)
    (hissued : ∀ i ∈ w.issued, i ∈ w'.issued)
    (hrows : w'.db.artifacts.Sublist w.db.artifacts)
    (hstored : ∀ sha data, w'.store sha = some data → data ∈ occurring)
    (hbytes : ∀ a ∈ w'.db.artifacts, FoundResident w a → w.store.isPresent a.sha256 →
      w'.store.isPresent a.sha256) : Kept c occurring w' := by
  constructor
  · exact h.ids.sublist (hrows.map _)
  · exact h.shas.sublist (hrows.map _)
  · exact fun a ha => hissued _ (h.issued a (hrows.subset ha))
  · exact hstored
  · intro b hb
    rw [htaken] at hb
    refine (h.backups b hb).next hissued (fun a ha => .inl (hrows.subset ha)) ?_
    intro a ha hresident _ hin hpresent
    exact hbytes a hin ⟨b, hb, ha, hresident⟩ hpresent

/-- A step that writes one row, under a new id and a new hash. -/
theorem Kept.addRow {w w' : World} (h : Kept c occurring w) {row : Artifact}
    (hid : row.id ∉ w.issued) (hsha : row.sha256 ∉ w.db.artifacts.map (·.sha256))
    (hrows : w'.db.artifacts = w.db.artifacts ++ [row]) (hissued : w'.issued = row.id :: w.issued)
    (hstore : w'.store = w.store) (htaken : w'.taken = w.taken) : Kept c occurring w' := by
  have hfresh : row.id ∉ w.db.artifacts.map (·.id) := by
    intro hin
    obtain ⟨a, ha, heq⟩ := List.mem_map.mp hin
    exact hid (heq ▸ h.issued a ha)
  have hmem : ∀ a ∈ w'.db.artifacts, a ∈ w.db.artifacts ∨ a = row := by
    intro a ha
    rw [hrows] at ha
    exact (List.mem_append.mp ha).imp_right List.mem_singleton.mp
  constructor
  · rw [hrows]
    simpa [List.nodup_append, h.ids] using hfresh
  · rw [hrows]
    simpa [List.nodup_append, h.shas] using hsha
  · intro a ha
    rw [hissued]
    rcases hmem a ha with ha | rfl
    · exact List.mem_cons_of_mem _ (h.issued a ha)
    · exact List.mem_cons_self
  · rw [hstore]
    exact h.stored
  · intro b hb
    rw [htaken] at hb
    apply (h.backups b hb).next
    · rw [hissued]
      exact fun i hi => List.mem_cons_of_mem _ hi
    · intro a ha
      rcases hmem a ha with ha | rfl
      · exact .inl ha
      · exact .inr hid
    · rw [hstore]
      exact fun _ _ _ _ _ hpresent => hpresent

theorem Kept.put {w : World} (h : Kept c occurring w) {data : Bytes} {store : ArtifactStore}
    (hdata : data ∈ occurring) (hput : w.store.put c.sha256 data = .ok store) :
    Kept c occurring { w with store := store } := by
  refine h.shrink rfl (fun _ hi => hi) (.refl _) ?_ ?_
  · intro sha stored hstored
    rcases (ArtifactStore.put_ok hput).2 sha with heq | ⟨-, heq⟩
    · exact h.stored sha stored (heq ▸ hstored)
    · cases heq.symm.trans hstored
      exact hdata
  · exact fun _ _ _ hpresent => ArtifactStore.isPresent_of_put hput hpresent

/-- A backup is kept when it is taken. -/
theorem Kept.take {w w' : World} (h : Kept c occurring w) {b : TakenBackup}
    (hhash : b.manifest.artifactInventoryHash = c.sha256 (b.document c))
    (hdocument : b.document c ∈ occurring) (hrows : ∀ a ∈ b.rows, a ∈ w.db.artifacts)
    (hpresent : ∀ sha, b.store.isPresent sha → w.store.isPresent sha)
    (hartifacts : w'.db.artifacts = w.db.artifacts) (hissued : w'.issued = w.issued)
    (hstore : w'.store = w.store) (htaken : w'.taken = w.taken ++ [b]) :
    Kept c occurring w' := by
  have hnow : KeptBackup c occurring w b := by
    refine ⟨hhash, hdocument, fun a ha => h.issued a (hrows a ha), ?_, ?_⟩
    · intro a ha a' ha' hid
      exact List.inj_on_of_nodup_map h.ids ha' (hrows a ha) hid
    · exact fun a _ hresident => .inl (hpresent _ hresident)
  have hbackups : ∀ b' ∈ w'.taken, KeptBackup c occurring w b' := by
    intro b' hb'
    rw [htaken] at hb'
    rcases List.mem_append.mp hb' with hb' | hb'
    · exact h.backups b' hb'
    · rw [List.mem_singleton.mp hb']
      exact hnow
  constructor
  · exact hartifacts ▸ h.ids
  · exact hartifacts ▸ h.shas
  · rw [hartifacts, hissued]
    exact h.issued
  · exact hstore ▸ h.stored
  · intro b' hb'
    apply (hbackups b' hb').next
    · exact fun i hi => hissued ▸ hi
    · exact fun a ha => .inl (hartifacts ▸ ha)
    · rw [hstore]
      exact fun _ _ _ _ _ hresident => hresident

theorem Kept.backup {w : World} (h : Kept c occurring w) {req : BackupRequest} {db : GcDb}
    {store : ArtifactStore} {m : BackupManifest} (hid : req.artifactId ∉ w.issued)
    (hbrings : c.dumps (inventory w.db) ∈ occurring)
    (hbackup : createBackup c w.db w.store req = .ok (db, store, m)) :
    Kept c occurring ⟨db, store, w.taken ++ [⟨m, w.db.artifacts, w.store⟩],
      req.artifactId :: w.issued⟩ := by
  obtain ⟨hput, hhash, hartifacts⟩ := createBackup_ok hbackup
  have hstored := h.put hbrings hput
  have hrow : Kept c occurring ⟨db, store, w.taken, req.artifactId :: w.issued⟩ ∧
      ∀ a ∈ w.db.artifacts, a ∈ db.artifacts := by
    rcases hartifacts with hsame | ⟨row, hrow, hsha, hadded⟩
    · constructor
      · have hrows : db.artifacts.Sublist w.db.artifacts := by rw [hsame]
        exact hstored.shrink rfl (fun i hi => List.mem_cons_of_mem _ hi) hrows hstored.stored
          fun _ _ _ hpresent => hpresent
      · exact fun a ha => hsame ▸ ha
    · constructor
      · exact hstored.addRow (hrow ▸ hid) hsha hadded (by rw [hrow]) rfl rfl
      · intro a ha
        rw [hadded]
        exact List.mem_append_left _ ha
  have hpresent : ∀ sha, w.store.isPresent sha → store.isPresent sha :=
    fun _ hpresent => ArtifactStore.isPresent_of_put hput hpresent
  exact hrow.1.take (b := ⟨m, w.db.artifacts, w.store⟩) hhash hbrings hrow.2 hpresent rfl rfl rfl rfl

/-! ### Sweeps -/

/-- A wanted row is no candidate. -/
theorem Kept.spared {w : World} (h : Kept c occurring w) {now : Nat} {a : Artifact}
    (ha : a ∈ w.db.artifacts) (hwanted : Wanted w.db now a) :
    ¬ w.db.Collects now (.artifacts, a.id) := by
  intro hcollects
  obtain ⟨a', ha', hid, hcandidate⟩ := id hcollects
  have heq : a' = a := List.inj_on_of_nodup_map h.ids ha' ha hid
  subst heq
  obtain ⟨-, hpinned, hold⟩ := of_decide_eq_true hcandidate
  rcases hwanted with hnamed | hpin | hyoung
  · exact collected_unnamed hcollects hnamed
  · exact hpinned hpin
  · omega

/-- A sweep keeps the backups whose resident rows, if they stay, are no candidates it
unlinks. -/
theorem Kept.sweep {w w' : World} (h : Kept c occurring w) {now : Nat} {rows : List Artifact}
    {unlinks : String → Bool} {failure : Option Failure} {committed : Bool}
    (hsweep : w.sweep now rows unlinks failure committed = some w')
    (hkeeps : committed = false → ∀ a ∈ w.db.artifacts, FoundResident w a →
      Wanted w.db now a ∨ unlinks a.sha256 = false) : Kept c occurring w' := by
  obtain ⟨loop, rfl, hcommitted, rfl⟩ := World.sweep_some hsweep
  refine h.shrink rfl (fun _ hi => hi) runGc_rows.1 ?_ ?_
  · exact fun sha data hdata => h.stored sha data (runGc_object hdata)
  · intro a ha hresident hpresent
    obtain ⟨data, hdata⟩ := ArtifactStore.isPresent_iff.mp hpresent
    have hrow : a ∈ w.db.artifacts := runGc_rows.1.subset ha
    have hspared : ¬ w.db.Collects now (.artifacts, a.id) ∨ loop.unlinks a.sha256 = false := by
      cases committed with
      | true => exact .inl (runGc_spared hcommitted ha)
      | false => exact (hkeeps rfl a hrow hresident).imp_left (h.spared hrow)
    refine ArtifactStore.isPresent_iff.mpr ⟨data, runGc_keeps_object hdata ?_⟩
    intro a' ha' hsha hcollects
    rw [h.eq_of_sha hrow ha' hsha] at hcollects
    exact hspared.resolve_left (not_not.mpr hcollects)

/-- **A sweep that wants what the retained backups list spares them.** -/
theorem Kept.spares {w w' : World} (h : Kept c occurring w) {now : Nat} {rows : List Artifact}
    {unlinks : String → Bool} {failure : Option Failure} {committed : Bool}
    (hsweep : w.sweep now rows unlinks failure committed = some w')
    (hwanted : ∀ a ∈ w.db.artifacts, ListedRetained w now a.sha256 → Wanted w.db now a) :
    SparesBackups w w' now := by
  obtain ⟨loop, -, -, rfl⟩ := World.sweep_some hsweep
  intro b hb hretained a ha
  have hspared : ∀ a' ∈ w.db.artifacts, a'.sha256 = a.sha256 →
      ¬ w.db.Collects now (.artifacts, a'.id) := by
    intro a' ha' hsha
    exact h.spared ha' (hwanted a' ha' ⟨b, hb, hretained, a, ha, hsha.symm⟩)
  constructor
  · exact fun hrow => runGc_rows.2 a hrow (hspared a hrow rfl)
  · intro data hdata
    apply runGc_keeps_object hdata
    exact fun a' ha' hsha hcollects => absurd hcollects (hspared a' ha' hsha)

/-! ### A loss -/

theorem Kept.lose {w : World} (h : Kept c occurring w) {sha : String} {left : Option Bytes}
    (hbrings : ∀ data, left = some data → data ∈ occurring)
    (hleft : ∀ a ∈ w.db.artifacts, a.sha256 = sha → FoundResident w a → left ≠ none) :
    Kept c occurring { w with store := Function.update w.store sha left } := by
  refine h.shrink rfl (fun _ hi => hi) (.refl _) ?_ ?_
  · intro sha' data hdata
    dsimp only at hdata
    by_cases hsha : sha' = sha
    · subst hsha
      rw [Function.update_self] at hdata
      exact hbrings data hdata
    · rw [Function.update_of_ne hsha] at hdata
      exact h.stored sha' data hdata
  · intro a ha hresident hpresent
    obtain ⟨hname, hobject⟩ := (Bool.and_eq_true _ _).mp hpresent
    refine (Bool.and_eq_true _ _).mpr ⟨hname, ?_⟩
    dsimp only
    by_cases hsha : a.sha256 = sha
    · subst hsha
      rw [Function.update_self]
      exact Option.isSome_iff_ne_none.mpr (hleft a ha rfl hresident)
    · rwa [Function.update_of_ne hsha]

/-! ### The run -/

/-- **One careful step keeps the backups.** -/
theorem Kept.step {w w' : World} {e : Event} (h : Kept c occurring w) (hcareful : Careful w e)
    (hbrings : Brings c occurring w e) (hstep : Backup.step c w e = some w') :
    Kept c occurring w' := by
  cases e with
  | put data =>
    simp only [Backup.step] at hstep
    split at hstep
    · rename_i store hput
      cases hstep
      exact h.put (hbrings data (List.mem_singleton_self _)) hput
    · cases hstep
  | register id sha size clock =>
    simp only [Backup.step] at hstep
    split at hstep
    · rename_i hnew
      cases hstep
      exact h.addRow hnew.1 hnew.2 rfl rfl rfl rfl
    · cases hstep
  | backup req =>
    simp only [Backup.step] at hstep
    split at hstep
    · rename_i hid
      split at hstep
      · rename_i db store m hbackup
        cases hstep
        exact h.backup hid (hbrings _ (List.mem_singleton_self _)) hbackup
      · cases hstep
    · cases hstep
  | sweep now rows unlinks => exact h.sweep hstep nofun
  | failedSweep now rows unlinks failure => exact h.sweep hstep fun _ => hcareful.2
  | lose sha left =>
    cases hstep
    exact h.lose (fun data hdata => hbrings data (by simp [Event.brings, hdata])) hcareful
  | activity db =>
    simp only [Backup.step] at hstep
    split at hstep
    · rename_i hsame
      cases hstep
      have hrows : db.artifacts.Sublist w.db.artifacts := by rw [hsame.1]
      exact h.shrink rfl (fun _ hi => hi) hrows h.stored fun _ _ _ hpresent => hpresent
    · cases hstep

/-- **Over kept backups the drill tells the truth**: it has read the document, so every listed
row is there, and with it the object that was. -/
theorem Kept.drillHonest {w : World} (h : Kept c occurring w) (hc : c.Lawful occurring) :
    DrillHonest c w := by
  intro b hb host hpassed a ha hresident
  have hkept := h.backups b hb
  obtain ⟨document, entries, hdocument, hhash, hloads, hentries⟩ := passed_reads hpassed
  have hread : document = b.document c := by
    refine hc.injective (h.stored _ _ (ArtifactStore.get_eq_ok.mp hdocument).2) hkept.document ?_
    rw [hhash, hkept.hash]
  have hentry : (⟨some a.id, some a.sha256, some a.size⟩ : InventoryEntry) ∈ entries := by
    rw [hread, TakenBackup.document, hc.loads_dumps] at hloads
    cases hloads
    exact List.mem_map_of_mem (f := fun a : Artifact =>
      (⟨some a.id, some a.sha256, some a.size⟩ : InventoryEntry)) ((List.mem_insertionSort _).mpr ha)
  obtain ⟨hobject, hrow⟩ := hentries _ hentry
  obtain ⟨row, hin, hid⟩ := verifyRow_ok hrow
  have hrow : a ∈ w.db.artifacts := hkept.rows a ha row hin hid ▸ hin
  rcases hkept.present a ha hresident with hpresent | hgone
  · obtain ⟨data, hdata⟩ := ArtifactStore.isPresent_iff.mp hpresent
    exact ⟨data, hdata, verifyEntry_ok hobject hdata⟩
  · exact absurd hrow hgone

end Invariant

/-- **Backups stay restorable and the drill tells the truth** in a run whose steps are
careful. -/
theorem backups_restorable (c : Codec) (occurring : Set Bytes) (hc : c.Lawful occurring)
    {w₀ w : World} (hfresh : w₀.Fresh)
    (hrun : Run (step c) (fun w e => Careful w e ∧ Brings c occurring w e) w₀ w) :
    DrillHonest c w ∧ ∀ e w' now, Careful w e → step c w e = some w' → e.sweepsAt = some now →
      SparesBackups w w' now := by
  have hkept : Kept c occurring w :=
    hrun.invariant (.fresh hfresh) fun hkept hguard hstep => hkept.step hguard.1 hguard.2 hstep
  refine ⟨hkept.drillHonest hc, ?_⟩
  intro e w' now hcareful hstep hsweeps
  cases e with
  | sweep now' rows unlinks =>
    cases hsweeps
    exact hkept.spares hstep hcareful
  | failedSweep now' rows unlinks failure =>
    cases hsweeps
    exact hkept.spares hstep hcareful.1
  | _ => cases hsweeps

/-! ### One artifact -/

/-- An entry in numbers. -/
def inventoryEntryCode (e : InventoryEntry) : Option Nat × Option (List Nat) × Option Nat :=
  (e.id, e.sha256.map fun sha => sha.toList.map Char.toNat, e.size)

/-- An entry from its numbers. -/
def inventoryEntryOfCode (code : Option Nat × Option (List Nat) × Option Nat) : InventoryEntry :=
  ⟨code.1, code.2.1.map fun sha => String.ofList (sha.map Char.ofNat), code.2.2⟩

theorem inventoryEntryOfCode_code (e : InventoryEntry) :
    inventoryEntryOfCode (inventoryEntryCode e) = e := by
  obtain ⟨id, sha, size⟩ := e
  cases sha with
  | none => rfl
  | some sha =>
    have hchars : (sha.toList.map Char.toNat).map Char.ofNat = sha.toList := by
      rw [List.map_map]
      exact (List.map_congr_left fun c _ => Char.ofNat_toNat c).trans (List.map_id' _)
    simp only [inventoryEntryOfCode, inventoryEntryCode, Option.map_some, hchars,
      String.ofList_toList]

instance : Encodable InventoryEntry :=
  Encodable.ofLeftInverse inventoryEntryCode inventoryEntryOfCode inventoryEntryOfCode_code

/-- What a backup lists of the node with one artifact. -/
def orphanEntry : InventoryEntry := ⟨some 1, some orphanArtifact.sha256, some 0⟩

/-- The document of that backup. -/
def orphanDocument : Bytes :=
  ("\x7b\"artifacts\":[\x7b\"id\":\"1\",\"mime\":null,\"origin\":\"research_proxy\"," ++
    "\"sha256\":\"e3b0c44298fc1c149afbf4c8996fb92427ae41e4649b934ca495991b7852b855\"," ++
    "\"size\":0,\"trust_class\":\"untrusted_external\"\x7d],\"schema_version\":1\x7d").toUTF8.data.toList

/-- Its hash. -/
def orphanSha : String := "5163861eb913c2f9d61326c805c74a607d0391ad02c986ae9a2c3731ccad7122"

/-- A hash and a JSON that are the real ones on the object and the document. -/
def orphanCodec : Codec where
  sha256 data := if data = [] then orphanArtifact.sha256 else
    if data = orphanDocument then orphanSha else ""
  dumps entries := if entries = [orphanEntry] then orphanDocument else
    List.replicate (Encodable.encode entries) 0
  loads data := if data = orphanDocument then some [orphanEntry] else
    Encodable.decode data.length

/-- The store with the object of the artifact. -/
def orphanObjects : ArtifactStore := Objects.add (fun _ => none) orphanArtifact.sha256 []

/-- A node without artifacts, and the node once it has one. -/
def emptyWorld : World := ⟨{ orphanNode with artifacts := [] }, fun _ => none, [], []⟩

def orphanWorld : World := ⟨orphanNode, orphanObjects, [], [1]⟩

/-- The backup is taken on day 20 and retained until day 50. -/
def orphanRequest : BackupRequest := ⟨2, 1, days 20, days 20, 30⟩

def orphanManifest : BackupManifest := ⟨1, orphanSha, some 2, some (days 50), true⟩

def documentRow : Artifact := ⟨2, orphanSha, orphanDocument.length, days 20⟩

def backedUpWorld : World where
  db := { orphanNode with
    artifacts := [orphanArtifact, documentRow]
    backupManifests := [orphanManifest] }
  store := Objects.add orphanObjects orphanSha orphanDocument
  taken := [⟨orphanManifest, [orphanArtifact], orphanObjects⟩]
  issued := [2, 1]

theorem orphanCodec_document : orphanCodec.sha256 orphanDocument = orphanSha := by
  decide +kernel

theorem orphanCodec_dumps : orphanCodec.dumps [orphanEntry] = orphanDocument := by
  simp only [orphanCodec, if_true]

theorem step_put_orphan : step orphanCodec emptyWorld (.put []) =
    some { emptyWorld with store := orphanObjects } := by
  have hname : isSha256 orphanArtifact.sha256 := by decide
  have hput : ArtifactStore.put orphanCodec.sha256 (fun _ => none) [] = .ok orphanObjects :=
    if_pos hname
  simp only [step, emptyWorld, hput]

theorem step_register_orphan : step orphanCodec { emptyWorld with store := orphanObjects }
    (.register 1 orphanArtifact.sha256 0 0) = some orphanWorld := rfl

theorem createBackup_orphan : createBackup orphanCodec orphanNode orphanObjects orphanRequest =
    .ok (backedUpWorld.db, backedUpWorld.store, orphanManifest) := by
  have hinventory : inventory orphanNode = [orphanEntry] := rfl
  have hname : isSha256 orphanSha := by decide
  have hfree : orphanObjects orphanSha = none := by decide
  have hput : orphanObjects.put orphanCodec.sha256 orphanDocument =
      .ok (Objects.add orphanObjects orphanSha orphanDocument) := by
    simp only [ArtifactStore.put, orphanCodec_document, hname, if_true, hfree]
  have hrow : inventoryRow orphanNode orphanSha orphanDocument.length orphanRequest =
      (documentRow, [orphanArtifact, documentRow]) := by
    have hnew : orphanNode.artifacts.find? (fun a => a.sha256 = orphanSha) = none := by
      decide
    simp only [inventoryRow, hnew]
    rfl
  simp only [createBackup, hinventory, orphanCodec_dumps, orphanCodec_document, hput, hrow]
  rfl

theorem step_backup_orphan :
    step orphanCodec orphanWorld (.backup orphanRequest) = some backedUpWorld := by
  simp only [step, orphanWorld, createBackup_orphan]
  rfl

/-- The bytes of the node. -/
def orphanBytes : Set Bytes := {[], orphanDocument}

theorem orphanCodec_lawful : orphanCodec.Lawful orphanBytes := by
  constructor
  · intro entries
    by_cases hentries : entries = [orphanEntry]
    · subst hentries
      rw [orphanCodec_dumps]
      simp only [orphanCodec, if_true]
    · have hother : List.replicate (Encodable.encode entries) 0 ≠ orphanDocument := by
        intro heq
        have hbrace : (123 : UInt8) ∈ orphanDocument := by decide
        rw [← heq] at hbrace
        exact absurd (List.eq_of_mem_replicate hbrace) (by decide)
      simp only [orphanCodec, hentries, if_false, hother, List.length_replicate,
        Encodable.encodek]
  · have hshas : orphanArtifact.sha256 ≠ orphanSha := by decide
    have hempty : orphanCodec.sha256 [] = orphanArtifact.sha256 := rfl
    intro x hx y hy hxy
    simp only [orphanBytes, Set.mem_insert_iff, Set.mem_singleton_iff] at hx hy
    rcases hx with hx | hx <;> rcases hy with hy | hy <;> rw [hx, hy] at hxy ⊢
    · rw [hempty, orphanCodec_document] at hxy
      exact absurd hxy hshas
    · rw [hempty, orphanCodec_document] at hxy
      exact absurd hxy.symm hshas

/-- Every step until the backup is one that any guard on the bytes lets through. -/
theorem run_backedUp : Run (step orphanCodec)
    (fun w e => Careful w e ∧ Brings orphanCodec orphanBytes w e) emptyWorld backedUpWorld := by
  have hput : Brings orphanCodec orphanBytes emptyWorld (.put []) := by
    simp [Brings, Event.brings, orphanBytes]
  have hbackup : Brings orphanCodec orphanBytes orphanWorld (.backup orphanRequest) := by
    have hinventory : inventory orphanNode = [orphanEntry] := rfl
    simp [Brings, Event.brings, orphanBytes, orphanWorld, hinventory, orphanCodec_dumps]
  have hregister : Brings orphanCodec orphanBytes { emptyWorld with store := orphanObjects }
      (.register 1 orphanArtifact.sha256 0 0) := by
    simp [Brings, Event.brings]
  refine .snoc (.snoc (.snoc .nil ?_ step_put_orphan) ?_ step_register_orphan) ?_
    step_backup_orphan
  · exact ⟨trivial, hput⟩
  · exact ⟨trivial, hregister⟩
  · exact ⟨trivial, hbackup⟩

/-- On day 25 the artifact is young, and a sweep leaves it. -/
theorem backups_restorable_young :
    DrillHonest orphanCodec backedUpWorld ∧
      SparesBackups backedUpWorld backedUpWorld (days 25) := by
  have hfresh : emptyWorld.Fresh := ⟨rfl, rfl, rfl, fun _ => rfl⟩
  obtain ⟨hdrill, hspares⟩ :=
    backups_restorable orphanCodec orphanBytes orphanCodec_lawful hfresh run_backedUp
  refine ⟨hdrill, hspares (.sweep (days 25) [] fun _ => true) backedUpWorld (days 25) ?_ ?_ rfl⟩
  · intro a ha _
    have hyoung : ∀ a ∈ backedUpWorld.db.artifacts,
        days 25 ≤ a.createdAt + days artifactRetentionDays := by decide
    exact .inr (.inr (hyoung a ha))
  · rfl

/-- A month later the artifact is a candidate, and its unlink succeeds. -/
def backedUpLoop : Unlinking backedUpWorld.db (days 31) where
  rows := [orphanArtifact]
  unlinks := fun _ => true
  selected := by decide

/-- A sweep on day 31 deletes the artifact that the backup lists until day 50. -/
theorem sweep_takes_listed : ∃ w', step orphanCodec backedUpWorld
    (.sweep (days 31) [orphanArtifact] fun _ => true) = some w' ∧
      ¬ SparesBackups backedUpWorld w' (days 31) := by
  have hcommitted : (runGc backedUpWorld.db backedUpWorld.store (days 31) backedUpLoop
      none).committed = true := by decide
  have hstep : step orphanCodec backedUpWorld
      (.sweep (days 31) [orphanArtifact] fun _ => true) = some { backedUpWorld with
        db := (runGc backedUpWorld.db backedUpWorld.store (days 31) backedUpLoop none).db
        store := (runGc backedUpWorld.db backedUpWorld.store (days 31) backedUpLoop none).store } :=
    World.sweep_of backedUpLoop hcommitted
  have hcollects : backedUpWorld.db.Collects (days 31) (.artifacts, 1) :=
    ⟨orphanArtifact, List.mem_cons_self, rfl, by decide⟩
  refine ⟨_, hstep, ?_⟩
  intro hspares
  have hretained : isRetained orphanManifest (days 31) := by decide
  have hlisted := hspares _ (List.mem_singleton_self _) hretained _ (List.mem_singleton_self _)
  exact runGc_spared hcommitted (hlisted.1 List.mem_cons_self) hcollects

/-- The node when its store has lost the object. -/
def lostWorld : World :=
  { backedUpWorld with
    store := Function.update backedUpWorld.store orphanArtifact.sha256 none }

/-- The drill passes without the object. -/
theorem drill_passes_lost : ¬ DrillHonest orphanCodec lostWorld := by
  intro hhonest
  have hpassed : (runRestoreDrill orphanCodec lostWorld.db lostWorld.store orphanManifest
      []).passed := by decide +kernel
  have hresident : orphanObjects.isPresent orphanArtifact.sha256 := by decide
  obtain ⟨data, hdata, -⟩ := hhonest _ (List.mem_singleton_self _) [] hpassed orphanArtifact
    (List.mem_singleton_self _) hresident
  have hgone : lostWorld.store orphanArtifact.sha256 = none := by decide
  rw [ArtifactStore.get_eq_ok, hgone] at hdata
  cases hdata.2

/-- Neither holds of every run: a sweep takes what a retained backup lists, and a drill passes
over a loss. -/
theorem backups_not_restorable :
    (¬ ∀ w, Run (step orphanCodec) (Brings orphanCodec orphanBytes) emptyWorld w →
      ∀ e w' now, step orphanCodec w e = some w' → e.sweepsAt = some now →
        SparesBackups w w' now) ∧
    ¬ ∀ w, Run (step orphanCodec) (Brings orphanCodec orphanBytes) emptyWorld w →
      DrillHonest orphanCodec w := by
  have hrun : Run (step orphanCodec) (Brings orphanCodec orphanBytes) emptyWorld backedUpWorld :=
    run_backedUp.mono fun _ _ hguard => hguard.2
  constructor
  · intro hspares
    obtain ⟨w', hstep, htaken⟩ := sweep_takes_listed
    exact htaken (hspares _ hrun _ w' (days 31) hstep rfl)
  · intro hhonest
    have hlose : Brings orphanCodec orphanBytes backedUpWorld
        (.lose orphanArtifact.sha256 none) := by simp [Brings, Event.brings]
    exact drill_passes_lost (hhonest _ (hrun.snoc hlose rfl))

end Noezema.Backup
