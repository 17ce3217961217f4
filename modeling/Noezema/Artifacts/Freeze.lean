import Mathlib.Data.List.Lex
import Mathlib.Data.List.Sort
import Mathlib.Data.Prod.Lex
import Mathlib.Data.String.Basic
import Noezema.Artifacts.Store
import Noezema.Lib.CodePoints
import Noezema.Lib.JsonText
import Noezema.Lib.SelfDelimiting

/-! # The frozen workspace

At the commit boundary the overlay of a session is frozen into a manifest: the path, the size and
the hash of each regular file, and a root hash over them. The overlay is destroyed then, so what
the manifest says of it is all there is. The root names the files it was computed from, whatever
characters are in their names: two overlays of one root have the same files, or two of the texts
that were hashed collide (`frozen_root_identifies`).
-/

namespace Noezema.Artifacts

open Noezema.Lib

/-! ## The overlay -/

def nulSymbol : CodePoint := .ofChar (Char.ofNat 0)

def newline : CodePoint := .ofChar '\n'

inductive NodeKind where
  | file (data : Bytes)
  | directory
  | link
  | special

/-- What `rglob` finds at a path relative to the overlay; no name has a NUL. -/
structure OverlayNode where
  path : PyText
  kind : NodeKind
  named : nulSymbol ∉ path

/-- The regular files. -/
def files (overlay : List OverlayNode) : List (PyText × Bytes) :=
  overlay.filterMap fun node =>
    match node.kind with
    | .file data => some (node.path, data)
    | _ => none

/-! ## The manifest -/

/-- `ORMWorkspaceEntry`. -/
structure WorkspaceEntry where
  path : PyText
  size : Nat
  sha256 : String
deriving DecidableEq

/-- `ORMWorkspaceManifest` with its entries. -/
structure WorkspaceManifest where
  rootSha256 : String
  entryCount : Nat
  totalSize : Nat
  entries : List WorkspaceEntry

inductive FreezeError where
  | tooLarge
  | notUtf8
deriving DecidableEq, Repr

/-- `MAX_ENTRY_PATHS`. -/
def maxEntryPaths : Nat := 10000

/-- The entry of a file. -/
def fileEntry (sha256 : Sha256) (file : PyText × Bytes) : WorkspaceEntry where
  path := file.1
  size := file.2.length
  sha256 := sha256 file.2

/-- The text of a number. -/
def sizeText (size : Nat) : PyText := PyText.ofChars (Nat.toDigits 10 size)

/-- `f"{path}\x00{size}\x00{sha}\n"`. -/
def entryLine (e : WorkspaceEntry) : PyText :=
  (e.path ++ [nulSymbol]) ++
    ((sizeText e.size ++ [nulSymbol]) ++ (PyText.lit e.sha256 ++ [newline]))

/-- What entries are sorted by. -/
def entryKey (e : WorkspaceEntry) : PyText ×ₗ Nat ×ₗ String :=
  toLex (e.path, toLex (e.size, e.sha256))

def sortEntries (entries : List WorkspaceEntry) : List WorkspaceEntry :=
  entries.insertionSort fun a b => entryKey a ≤ entryKey b

/-- What the root is the hash of; none where a name is not UTF-8. -/
def rootBytes (entries : List WorkspaceEntry) : Option Bytes :=
  PyText.encodeUtf8 ((sortEntries entries).flatMap entryLine)

/-- `compute_root_sha256`. -/
def computeRootSha256 (sha256 : Sha256) (entries : List WorkspaceEntry) :
    Except FreezeError String :=
  match rootBytes entries with
  | some data => .ok (sha256 data)
  | none => .error .notUtf8

/-- `freeze_workspace`. -/
def freezeWorkspace (sha256 : Sha256) (overlay : List OverlayNode) :
    Except FreezeError WorkspaceManifest :=
  let entries := (files overlay).map (fileEntry sha256)
  if maxEntryPaths < entries.length then .error .tooLarge
  else
    match computeRootSha256 sha256 entries with
    | .error e => .error e
    | .ok root =>
      .ok {
        rootSha256 := root
        entryCount := entries.length
        totalSize := (entries.map (·.size)).sum
        entries := entries }

/-- All that was hashed of an overlay: its files and the lines of the root. -/
def hashedOf (sha256 : Sha256) (overlay : List OverlayNode) : List Bytes :=
  (files overlay).map (·.2) ++ (rootBytes ((files overlay).map (fileEntry sha256))).toList

/-! ## The order of the entries -/

theorem entryKey_injective : Function.Injective entryKey := by
  intro a b h
  have hpair := toLex_inj.mp h
  have hrest := toLex_inj.mp (Prod.mk.inj hpair).2
  cases a
  cases b
  obtain ⟨hsize, hsha⟩ := Prod.mk.inj hrest
  exact WorkspaceEntry.mk.injEq .. ▸ ⟨(Prod.mk.inj hpair).1, hsize, hsha⟩

theorem pairwise_sortEntries (l : List WorkspaceEntry) :
    (sortEntries l).Pairwise fun a b => entryKey a ≤ entryKey b := by
  have htotal : Std.Total fun a b : WorkspaceEntry => entryKey a ≤ entryKey b :=
    ⟨fun a b => le_total (entryKey a) (entryKey b)⟩
  have htrans : IsTrans WorkspaceEntry fun a b => entryKey a ≤ entryKey b :=
    ⟨fun _ _ _ hab hbc => le_trans hab hbc⟩
  exact List.pairwise_insertionSort _ l

/-- Sorting forgets the order of the entries and nothing else. -/
theorem sortEntries_eq_iff {l l' : List WorkspaceEntry} :
    sortEntries l = sortEntries l' ↔ l.Perm l' := by
  have hsorted : ∀ l, (sortEntries l).Perm l := List.perm_insertionSort _
  constructor
  · intro h
    exact (hsorted l).symm.trans (h ▸ hsorted l')
  · intro h
    refine List.Perm.eq_of_pairwise ?_ (pairwise_sortEntries l) (pairwise_sortEntries l')
      ((hsorted l).trans (h.trans (hsorted l').symm))
    intro a b _ _ hab hba
    exact entryKey_injective (le_antisymm hab hba)

/-! ## The lines of the root -/

/-- A name without a NUL and a hash without a line break. -/
structure Framed (e : WorkspaceEntry) : Prop where
  path : nulSymbol ∉ e.path
  sha256 : newline ∉ PyText.lit e.sha256

theorem sizeText_injective : Function.Injective sizeText := by
  intro m n h
  exact toDigits_inj (PyText.ofChars_injective h)

theorem nulSymbol_notMem_sizeText (size : Nat) : nulSymbol ∉ sizeText size := by
  intro h
  obtain ⟨c, hc, heq⟩ := List.mem_map.mp h
  have hdigit := Nat.isDigit_of_mem_toDigits (by decide) (by decide) hc
  have hnul : c = Char.ofNat 0 :=
    Char.toNat_inj.mp (congrArg (fun x : CodePoint => x.val) heq)
  rw [hnul] at hdigit
  revert hdigit
  decide

theorem lit_injective : Function.Injective PyText.lit := by
  intro s t h
  exact String.toList_injective (PyText.ofChars_injective h)

/-- Each line says where it ends. -/
theorem entryLine_selfDelimiting : SelfDelimiting Framed entryLine := by
  have hpath : SelfDelimiting (fun path : PyText => nulSymbol ∉ path)
      fun path => id path ++ [nulSymbol] :=
    SelfDelimiting.terminated (fun _ _ _ _ h => h) fun _ h => h
  have hsize : SelfDelimiting (fun _ : Nat => True) fun size => sizeText size ++ [nulSymbol] :=
    SelfDelimiting.terminated (fun _ _ _ _ h => sizeText_injective h)
      fun size _ => nulSymbol_notMem_sizeText size
  have hsha : SelfDelimiting (fun sha => newline ∉ PyText.lit sha)
      fun sha => PyText.lit sha ++ [newline] :=
    SelfDelimiting.terminated (fun _ _ _ _ h => lit_injective h) fun _ h => h
  have hline := (hpath.prod (hsize.prod hsha)).comap
    (f := fun e : WorkspaceEntry => (e.path, e.size, e.sha256)) (by
      intro a b h
      cases a
      cases b
      cases h
      rfl)
  constructor
  · intro a b r s ha hb h
    exact hline.split a b r s ⟨ha.path, trivial, ha.sha256⟩ ⟨hb.path, trivial, hb.sha256⟩ h
  · intro a ha
    exact hline.ne_nil a ⟨ha.path, trivial, ha.sha256⟩

/-- The bytes of the root are of one list of entries, up to its order. -/
theorem rootBytes_inj {l l' : List WorkspaceEntry} (hl : ∀ e ∈ l, Framed e)
    (hl' : ∀ e ∈ l', Framed e) {data : Bytes} (h : rootBytes l = some data)
    (h' : rootBytes l' = some data) : l.Perm l' := by
  have hperm : ∀ l, (sortEntries l).Perm l := List.perm_insertionSort _
  apply sortEntries_eq_iff.mp
  apply entryLine_selfDelimiting.flatMap_inj
  · exact fun e he => hl e ((hperm l).subset he)
  · exact fun e he => hl' e ((hperm l').subset he)
  · exact PyText.encodeUtf8_inj h h'

/-! ## What the root says -/

section Frozen

variable {sha256 : Sha256} {o o' : List OverlayNode} {m m' : WorkspaceManifest}

/-- What a freeze has computed. -/
structure Frozen (sha256 : Sha256) (o : List OverlayNode) (m : WorkspaceManifest) (data : Bytes) :
    Prop where
  entries : m.entries = (files o).map (fileEntry sha256)
  bounded : m.entryCount ≤ maxEntryPaths
  counted : m.entryCount = (files o).length
  sized : m.totalSize = ((files o).map fun file => file.2.length).sum
  bytes : rootBytes m.entries = some data
  root : m.rootSha256 = sha256 data

theorem freezeWorkspace_ok (h : freezeWorkspace sha256 o = .ok m) :
    ∃ data, Frozen sha256 o m data := by
  rw [freezeWorkspace] at h
  split at h
  · cases h
  · rename_i hsize
    split at h
    · cases h
    · rename_i root hroot
      cases h
      rw [computeRootSha256] at hroot
      split at hroot
      · rename_i data hdata
        cases hroot
        refine ⟨data, rfl, Nat.le_of_not_lt hsize, List.length_map _, ?_, hdata, rfl⟩
        show (((files o).map (fileEntry sha256)).map (·.size)).sum = _
        rw [List.map_map]
        rfl
      · cases hroot

/-- A line is encoded where its name is. -/
theorem clean_entryLine {e : WorkspaceEntry} : (entryLine e).Clean ↔ e.path.Clean := by
  have hnul : nulSymbol.isSurrogate = false := CodePoint.ofChar_not_surrogate _
  have hline : newline.isSurrogate = false := CodePoint.ofChar_not_surrogate _
  have hsingle : ∀ {c : CodePoint}, c.isSurrogate = false → PyText.Clean [c] :=
    fun hc x hx => List.mem_singleton.mp hx ▸ hc
  constructor
  · intro h
    exact h.sublist ((List.sublist_append_left _ _).trans (List.sublist_append_left _ _))
  · intro h
    exact (h.append (hsingle hnul)).append
      (((PyText.clean_ofChars _).append (hsingle hnul)).append
        ((PyText.clean_ofChars _).append (hsingle hline)))

/-- An overlay is frozen unless it has too many files or a name that is not UTF-8. -/
theorem freezeWorkspace_ok_iff : (∃ m, freezeWorkspace sha256 o = .ok m) ↔
    (files o).length ≤ maxEntryPaths ∧ ∀ file ∈ files o, file.1.Clean := by
  have hperm : ∀ l, (sortEntries l).Perm l := List.perm_insertionSort _
  have hroot : (∃ data, rootBytes ((files o).map (fileEntry sha256)) = some data) ↔
      ∀ file ∈ files o, file.1.Clean := by
    simp only [rootBytes, PyText.encodeUtf8_eq_some_iff]
    constructor
    · intro h file hfile
      have hmem := (hperm ((files o).map (fileEntry sha256))).symm.subset
        (List.mem_map_of_mem hfile)
      exact (clean_entryLine (e := fileEntry sha256 file)).mp
        fun c hc => h c (List.mem_flatMap.mpr ⟨_, hmem, hc⟩)
    · intro h c hc
      obtain ⟨e, he, hc⟩ := List.mem_flatMap.mp hc
      obtain ⟨file, hfile, rfl⟩ := List.mem_map.mp ((hperm _).subset he)
      exact (clean_entryLine (e := fileEntry sha256 file)).mpr (h file hfile) c hc
  rw [← hroot, freezeWorkspace, List.length_map]
  by_cases hsize : maxEntryPaths < (files o).length
  · rw [if_pos hsize]
    constructor
    · rintro ⟨m, hm⟩
      cases hm
    · intro h
      exact absurd h.1 (Nat.not_le.mpr hsize)
  · rw [if_neg hsize, computeRootSha256]
    cases rootBytes ((files o).map (fileEntry sha256)) with
    | none => simp
    | some data => simp [Nat.le_of_not_lt hsize]

theorem files_named {file : PyText × Bytes} (h : file ∈ files o) : nulSymbol ∉ file.1 := by
  obtain ⟨node, -, hnode⟩ := List.mem_filterMap.mp h
  split at hnode
  · cases hnode
    exact node.named
  · cases hnode

/-- The hash is a hex text. -/
theorem newline_notMem_lit {sha : String} (h : isSha256 sha = true) :
    newline ∉ PyText.lit sha := by
  intro hmem
  rw [isSha256, decide_eq_true_eq] at h
  obtain ⟨c, hc, heq⟩ := List.mem_map.mp hmem
  have hline : c = '\n' := Char.toNat_inj.mp (congrArg (fun x : CodePoint => x.val) heq)
  have hhex := List.all_eq_true.mp h.2 c hc
  rw [hline] at hhex
  revert hhex
  decide

theorem Frozen.framed {data : Bytes} (h : Frozen sha256 o m data)
    (hhex : ∀ bytes, isSha256 (sha256 bytes) = true) : ∀ e ∈ m.entries, Framed e := by
  intro e he
  rw [h.entries] at he
  obtain ⟨file, hfile, rfl⟩ := List.mem_map.mp he
  exact ⟨files_named hfile, newline_notMem_lit (hhex file.2)⟩

/-- Two of the texts that were hashed are different and have one hash. -/
def Collides (sha256 : Sha256) (o o' : List OverlayNode) : Prop :=
  ∃ a ∈ hashedOf sha256 o, ∃ b ∈ hashedOf sha256 o', a ≠ b ∧ sha256 a = sha256 b

theorem Frozen.hashed {data : Bytes} (h : Frozen sha256 o m data) :
    data ∈ hashedOf sha256 o := by
  rw [hashedOf, ← h.entries, h.bytes]
  exact List.mem_append_right _ List.mem_cons_self

theorem files_perm_of_root {data data' : Bytes} (h : Frozen sha256 o m data)
    (h' : Frozen sha256 o' m' data') (hhex : ∀ bytes, isSha256 (sha256 bytes) = true)
    (hroot : m.rootSha256 = m'.rootSha256) (hfree : ¬ Collides sha256 o o') :
    (files o).Perm (files o') := by
  have hsame : ∀ a ∈ hashedOf sha256 o, ∀ b ∈ hashedOf sha256 o', sha256 a = sha256 b → a = b := by
    intro a ha b hb heq
    by_contra hne
    exact hfree ⟨a, ha, b, hb, hne, heq⟩
  rw [h.root, h'.root] at hroot
  have hbytes : data' = data := (hsame data h.hashed data' h'.hashed hroot).symm
  have hentries : m.entries.Perm m'.entries :=
    rootBytes_inj (h.framed hhex) (h'.framed hhex) h.bytes (hbytes ▸ h'.bytes)
  rw [h.entries, h'.entries] at hentries
  apply perm_of_map_perm hentries
  intro file hfile file' hfile' heq
  have hdata : file.2 = file'.2 :=
    hsame _ (List.mem_append_left _ (List.mem_map_of_mem hfile)) _
      (List.mem_append_left _ (List.mem_map_of_mem hfile')) (congrArg (·.sha256) heq)
  exact Prod.ext (congrArg (·.path) heq) hdata

theorem root_of_files_perm {data data' : Bytes} (h : Frozen sha256 o m data)
    (h' : Frozen sha256 o' m' data') (hfiles : (files o).Perm (files o')) :
    m.rootSha256 = m'.rootSha256 := by
  have hentries : m.entries.Perm m'.entries := by
    rw [h.entries, h'.entries]
    exact hfiles.map _
  have hbytes : rootBytes m.entries = rootBytes m'.entries := by
    rw [rootBytes, rootBytes, sortEntries_eq_iff.mpr hentries]
  rw [h.bytes, h'.bytes] at hbytes
  rw [h.root, h'.root, Option.some.inj hbytes]

/-- **The root names the files**: two frozen overlays have one root if they have the same regular
files in whatever order, and only then, unless two of the texts that were hashed collide; and a
manifest counts and sizes the files it was made of. -/
theorem frozen_root_identifies (hhex : ∀ bytes, isSha256 (sha256 bytes) = true)
    (h : freezeWorkspace sha256 o = .ok m) (h' : freezeWorkspace sha256 o' = .ok m') :
    ((files o).Perm (files o') → m.rootSha256 = m'.rootSha256) ∧
      (m.rootSha256 = m'.rootSha256 → (files o).Perm (files o') ∨ Collides sha256 o o') ∧
      m.entryCount = (files o).length ∧ m.entryCount ≤ maxEntryPaths ∧
      m.totalSize = ((files o).map fun file => file.2.length).sum := by
  obtain ⟨data, hfrozen⟩ := freezeWorkspace_ok h
  obtain ⟨data', hfrozen'⟩ := freezeWorkspace_ok h'
  refine ⟨root_of_files_perm hfrozen hfrozen', fun hroot => ?_, hfrozen.counted, hfrozen.bounded,
    hfrozen.sized⟩
  by_cases hcollides : Collides sha256 o o'
  · exact .inr hcollides
  · exact .inl (files_perm_of_root hfrozen hfrozen' hhex hroot hcollides)

end Frozen

/-! ## Two walks over one overlay -/

/-- The bytes as the digits of a number, of which the last 64 hexadecimal ones are kept. -/
def digitHash : Sha256 := fun bytes =>
  let n := bytes.foldl (fun acc b => acc * 257 + b.toNat + 1) 0
  String.ofList ((List.range 64).map fun i => Nat.digitChar (n / 16 ^ i % 16))

theorem isSha256_digitHash (bytes : Bytes) : isSha256 (digitHash bytes) = true := by
  have hdigit : ∀ d < 16, Nat.digitChar d ∈ "0123456789abcdef".toList := by decide
  refine decide_eq_true ⟨by simp [digitHash], List.all_eq_true.mpr ?_⟩
  intro c hc
  rw [digitHash, String.toList_ofList] at hc
  obtain ⟨i, -, rfl⟩ := List.mem_map.mp hc
  exact decide_eq_true (hdigit _ (Nat.mod_lt _ (by decide)))

theorem nul_notMem_a : nulSymbol ∉ PyText.lit "a" := by decide

theorem nul_notMem_b : nulSymbol ∉ PyText.lit "b" := by decide

/-- A file and a link. -/
def fileThenLink : List OverlayNode :=
  [⟨PyText.lit "a", .file [120], nul_notMem_a⟩, ⟨PyText.lit "b", .link, nul_notMem_b⟩]

def linkThenFile : List OverlayNode :=
  [⟨PyText.lit "b", .link, nul_notMem_b⟩, ⟨PyText.lit "a", .file [120], nul_notMem_a⟩]

/-- The file with another text. -/
def editedFile : List OverlayNode := [⟨PyText.lit "a", .file [121], nul_notMem_a⟩]

/-- The walks name one root, and the edited file another one. -/
theorem frozen_root_identifies_walks : ∃ m m' edited,
    freezeWorkspace digitHash fileThenLink = .ok m ∧
      freezeWorkspace digitHash linkThenFile = .ok m' ∧
      freezeWorkspace digitHash editedFile = .ok edited ∧ m.rootSha256 = m'.rootSha256 ∧
      m.rootSha256 ≠ edited.rootSha256 ∧ m.entryCount = 1 := by
  have hclean : ∀ bytes : Bytes, ∀ file ∈ [(PyText.lit "a", bytes)], file.1.Clean := by
    intro bytes file hfile
    rw [List.mem_singleton.mp hfile]
    exact PyText.clean_ofChars _
  have htaken : ∃ m, freezeWorkspace digitHash fileThenLink = .ok m :=
    freezeWorkspace_ok_iff.mpr ⟨by decide, hclean _⟩
  have htaken' : ∃ m, freezeWorkspace digitHash linkThenFile = .ok m :=
    freezeWorkspace_ok_iff.mpr ⟨by decide, hclean _⟩
  have hedited : ∃ m, freezeWorkspace digitHash editedFile = .ok m :=
    freezeWorkspace_ok_iff.mpr ⟨by decide, hclean _⟩
  obtain ⟨m, hm⟩ := htaken
  obtain ⟨m', hm'⟩ := htaken'
  obtain ⟨edited, hedit⟩ := hedited
  obtain ⟨hroot, -, hcount, -⟩ := frozen_root_identifies isSha256_digitHash hm hm'
  refine ⟨m, m', edited, hm, hm', hedit, hroot (List.Perm.refl _), fun heq => ?_, hcount⟩
  have hfree : ¬ Collides digitHash fileThenLink editedFile := by
    unfold Collides
    decide +kernel
  rcases (frozen_root_identifies isSha256_digitHash hm hedit).2.1 heq with hperm | hcollides
  · exact absurd hperm (by decide)
  · exact hfree hcollides

end Noezema.Artifacts
