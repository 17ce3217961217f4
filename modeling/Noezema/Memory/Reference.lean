import Noezema.Lib.UniqueMatch
import Noezema.Memory.Dependencies

/-! # References to existing claims

A reverify operation names its claim by text: a full id or a prefix of one. The text is
resolved twice, at the curator boundary over the claims of the context pack and at the
commit over the claims with a head in the session's snapshot; the staged payload carries
the text. What the two resolutions have to do with each other is the result here.
-/

namespace Noezema.Memory

open Noezema.Lib

/-- A Python string, as its code points. -/
abbrev Text := List Char

/-! ## `resolve_claim_reference` -/

/-- `str.isspace`. -/
def isSpace (c : Char) : Bool :=
  let n := c.toNat
  (9 ≤ n && n ≤ 13) || (28 ≤ n && n ≤ 32) || n = 133 || n = 160 || n = 5760 ||
    (8192 ≤ n && n ≤ 8202) || n = 8232 || n = 8233 || n = 8239 || n = 8287 || n = 12288

/-- `str.strip()`. -/
def strip (s : Text) : Text :=
  ((s.dropWhile isSpace).reverse.dropWhile isSpace).reverse

/-- `str.lower()`: letters outside ASCII are in no reference that parses. -/
def lower (s : Text) : Text := s.map Char.toLower

/-- `_strip_claim_ref_pack`. -/
def stripClaimRefPack (ref : Text) : Text :=
  let ref := strip ref
  if ['['].isPrefixOf ref ∧ [']'].isSuffixOf ref then
    let inner := strip (ref.drop 1).dropLast
    if ['c', ':'].isPrefixOf (lower inner) then strip (inner.drop 2) else ref
  else if ['c', ':'].isPrefixOf (lower ref) then strip (ref.drop 2)
  else ref

def isHexDigit (c : Char) : Bool := ('0' ≤ c && c ≤ '9') || ('a' ≤ c && c ≤ 'f')

/-- `_CLAIM_REF_PREFIX_RE`. -/
def isClaimRefPrefix (s : Text) : Bool := 8 ≤ s.length ∧ s.length ≤ 31 ∧ s.all isHexDigit

/-- Why a reference is refused. -/
inductive ReferenceProblem where
  | notVisible (claim : ClaimId)
  | noMatch (shown : Text)
  | ambiguous (shown : Text) (matched : Nat)
  | unparseable (shown : Text)
deriving DecidableEq, Repr

section Resolve

variable (parseUuid : Text → Option ClaimId) (hex : ClaimId → Text)

/-- What a reference asks for. -/
inductive ClaimReference where
  | full (claim : ClaimId)
  | shortened (digits : Text)
  | unparseable
deriving DecidableEq, Repr

/-- How the text is read, whatever is visible. -/
def readReference (raw : Text) : ClaimReference :=
  let ref := lower (stripClaimRefPack raw)
  let nodash := ref.filter (· ≠ '-')
  match parseUuid ref with
  | some full => .full full
  | none => if isClaimRefPrefix nodash then .shortened nodash else .unparseable

/-- `resolve_claim_reference`; `hex` is `str(id)` without its dashes. -/
def resolveClaimReference (raw : Text) (visibleIds : List ClaimId) :
    Except ReferenceProblem ClaimId :=
  match readReference parseUuid raw with
  | .full full => if full ∈ visibleIds then .ok full else .error (.notVisible full)
  | .shortened digits =>
    match uniqueMatch (fun c => digits.isPrefixOf (hex c)) visibleIds with
    | .one c => .ok c
    | .none => .error (.noMatch (digits.take 16))
    | .many n => .error (.ambiguous (digits.take 16) n)
  | .unparseable => .error (.unparseable (raw.take 20))

variable {parseUuid hex}

/-- A reference is resolved to a claim in view. -/
theorem resolve_mem {raw : Text} {visibleIds : List ClaimId} {c : ClaimId}
    (h : resolveClaimReference parseUuid hex raw visibleIds = .ok c) : c ∈ visibleIds := by
  unfold resolveClaimReference at h
  split at h
  · split at h
    · rename_i hmem
      cases h
      exact hmem
    · cases h
  · split at h
    · rename_i hone
      cases h
      have hfilter := uniqueMatch_one hone
      exact (List.mem_filter.mp (hfilter ▸ List.mem_singleton_self c)).1
    · cases h
    · cases h
  · cases h

/-- Another claim in view that the reference names as well. -/
def NamesAnother (parseUuid : Text → Option ClaimId) (hex : ClaimId → Text) (raw : Text)
    (visibleIds : List ClaimId) (x : ClaimId) : Prop :=
  ∃ digits, readReference parseUuid raw = .shortened digits ∧
    ∃ y ∈ visibleIds, y ≠ x ∧ digits.isPrefixOf (hex y)

/-- **The two resolutions.** What one list of claims resolves to `x`, another one that
has `x` resolves to `x` too, or finds ambiguous, and then the reference is a shortened one
that names another claim of the list. -/
theorem resolve_again {raw : Text} {pack visible : List ClaimId} {x : ClaimId}
    (hnodup : visible.Nodup) (h : resolveClaimReference parseUuid hex raw pack = .ok x)
    (hx : x ∈ visible) :
    (resolveClaimReference parseUuid hex raw visible = .ok x ∧
      ¬ NamesAnother parseUuid hex raw visible x) ∨
    ((∃ shown n, resolveClaimReference parseUuid hex raw visible = .error (.ambiguous shown n)) ∧
      NamesAnother parseUuid hex raw visible x) := by
  unfold resolveClaimReference at h ⊢
  unfold NamesAnother
  cases hr : readReference parseUuid raw with
  | full full =>
    simp only [hr] at h
    split at h
    · cases h
      refine .inl ⟨if_pos hx, ?_⟩
      intro ⟨digits, hd, _⟩
      cases hd
    · cases h
  | shortened digits =>
    simp only [hr] at h
    cases hm : uniqueMatch (fun c => digits.isPrefixOf (hex c)) pack with
    | none => simp [hm] at h
    | many n => simp [hm] at h
    | one c =>
      simp only [hm] at h
      cases h
      rcases uniqueMatch_widen hnodup hm hx with ⟨hone, hall⟩ | ⟨n, hmany, y, hy, hne, hp⟩
      · refine .inl ⟨by simp only [hone], ?_⟩
        intro ⟨digits', hd, y, hy, hne, hp⟩
        cases hd
        exact hne (hall y hy hp)
      · exact .inr ⟨⟨digits.take 16, n, by simp only [hmany]⟩, digits, rfl, y, hy, hne, hp⟩
  | unparseable => simp [hr] at h

end Resolve

end Noezema.Memory
