import Noezema.Lib.Objects

/-! # The artifact store

`FilesystemArtifactStore`: immutable objects under their SHA-256. The hash is a parameter.
-/

namespace Noezema.Artifacts

open Noezema.Lib

abbrev Bytes := List UInt8

/-- `hashlib.sha256(data).hexdigest()`. -/
abbrev Sha256 := Bytes → String

/-- `ArtifactStoreError`. -/
inductive StoreError where
  | invalid
  | collision
  | notFound
deriving DecidableEq, Repr

abbrev ArtifactStore := Objects String Bytes

/-- What `_path` accepts. -/
def isSha256 (sha : String) : Bool :=
  sha.length = 64 ∧ sha.toList.all (· ∈ "0123456789abcdef".toList)

namespace ArtifactStore

/-- `get`. -/
def get (store : ArtifactStore) (sha : String) : Except StoreError Bytes :=
  if isSha256 sha then
    match store sha with
    | some data => .ok data
    | none => .error .notFound
  else .error .invalid

/-- `exists`. -/
def isPresent (store : ArtifactStore) (sha : String) : Bool :=
  isSha256 sha && (store sha).isSome

/-- `put`: the object under its hash; one that is there stays as it is. -/
def put (sha256 : Sha256) (store : ArtifactStore) (data : Bytes) :
    Except StoreError ArtifactStore :=
  if isSha256 (sha256 data) then
    match store (sha256 data) with
    | some old => if old.length ≠ data.length then .error .collision else .ok store
    | none => .ok (store.add (sha256 data) data)
  else .error .invalid

variable {store : ArtifactStore} {sha : String} {data : Bytes}

theorem get_eq_ok : store.get sha = .ok data ↔ isSha256 sha ∧ store sha = some data := by
  unfold get
  by_cases hname : isSha256 sha
  · cases hobject : store sha <;> simp [hname]
  · simp [hname]

theorem isPresent_iff : store.isPresent sha ↔ ∃ data, store.get sha = .ok data := by
  simp only [isPresent, Bool.and_eq_true, Option.isSome_iff_exists, get_eq_ok]
  exact ⟨fun ⟨hname, data, h⟩ => ⟨data, hname, h⟩, fun ⟨data, hname, h⟩ => ⟨hname, data, h⟩⟩

/-- A `put` leaves every object that is there, and its own. -/
theorem put_ok {sha256 : Sha256} {store' : ArtifactStore}
    (h : put sha256 store data = .ok store') :
    store'.isPresent (sha256 data) ∧
      ∀ sha, store' sha = store sha ∨ (store sha = none ∧ store' sha = some data) := by
  unfold put at h
  split at h
  · rename_i hname
    split at h
    · rename_i old hold
      split at h
      · cases h
      · cases h
        exact ⟨by simp [isPresent, hname, hold], fun sha => .inl rfl⟩
    · rename_i hnew
      cases h
      refine ⟨by simp [isPresent, hname, Objects.add], fun sha => ?_⟩
      by_cases hsha : sha = sha256 data
      · exact .inr ⟨hsha ▸ hnew, hsha ▸ Function.update_self _ _ _⟩
      · exact .inl (Function.update_of_ne hsha _ _)
  · cases h

/-- A `put` loses nothing. -/
theorem isPresent_of_put {sha256 : Sha256} {store' : ArtifactStore}
    (h : put sha256 store data = .ok store') (hsha : store.isPresent sha) :
    store'.isPresent sha := by
  rcases (put_ok h).2 sha with heq | ⟨hnone, -⟩
  · rw [isPresent, heq]
    exact hsha
  · rw [isPresent, hnone] at hsha
    simp at hsha

end ArtifactStore

end Noezema.Artifacts
