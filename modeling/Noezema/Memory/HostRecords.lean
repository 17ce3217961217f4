import Mathlib.Data.Finmap
import Noezema.Lib.CodePoints

/-! # Host records in the scope of evidence

The host keeps its decision on the origin of a value in the scope of the evidence row: whose
figures the row retells (`ValueAttribution`), or that it is the producer's own publication
(`SelfPublication`). The scope is derived again at every commit of the claim, and the decisions are
carried over (`carryValueAttribution`).

A record is written as the builder made it and read by the builder, which strips the basis and then
cuts it. So a basis that was cut behind a space comes back without it (`records_survive_iff`).
-/

namespace Noezema.Memory.HostRecords

open Noezema.Lib PyText

/-! ## JSON values and scopes -/

/-- A JSON value, with a number by its text. -/
inductive ScopeValue where
  | null
  | bool (b : Bool)
  | num (text : PyText)
  | str (s : PyText)
  | list (xs : List ScopeValue)
  | dict (fields : List (String × ScopeValue))

/-- A scope dictionary. -/
abbrev EvidenceScope := Finmap fun _ : String => ScopeValue

namespace ScopeValue

def isText (s : PyText) : Option ScopeValue → Bool
  | some (.str t) => t = s
  | _ => false

/-- `str(raw.get(name, ""))`; `render` gives the text of what is no string. -/
def textOf (render : ScopeValue → PyText) : Option ScopeValue → PyText
  | some (.str s) => s
  | some v => render v
  | none => []

end ScopeValue

/-- `derive_evidence_scope`: the marker, the time of the observation and the domain. -/
def deriveEvidenceScope (sourceDomain observedAt : Option PyText) : EvidenceScope :=
  let value : Option PyText → ScopeValue := fun s => (s.map .str).getD .null
  ((Finmap.singleton "scope_schema" (.str (lit "host-scope-v1"))).insert "as_of"
    (value observedAt)).insert "source_domain" (value sourceDomain)

/-! ## Cleaned texts -/

def nul : CodePoint := .ofChar (Char.ofNat 0)

/-- `NUL_MARKER`. -/
def nulMarker : PyText := lit "\\x00"

/-- `mask_nul`. -/
def maskNul (text : PyText) : PyText := text.flatMap fun c => if c = nul then nulMarker else [c]

def fieldLimit : Nat := 200

def uriLimit : Nat := 500

def basisLimit : Nat := 1000

/-- A field of a record: masked, stripped, not empty and not too long. -/
def cleanField (limit : Nat) (value : PyText) : Option PyText :=
  let text := strip (maskNul value)
  if text = [] ∨ limit < text.length then none else some text

/-- The basis of a record: masked, stripped, and cut. -/
def cleanBasis (basisFragment : PyText) : PyText :=
  let basis := strip (maskNul basisFragment)
  if basisLimit < basis.length then basis.take basisLimit else basis

/-! ## The records -/

/-- `VALUE_ATTRIBUTION_PAIRINGS`, the strict one first. -/
def valueAttributionPairings : List PyText :=
  [lit "value_and_primary_in_fragment", lit "publication_window",
    lit "bibliography_known_producer", lit "known_producer_mentioned",
    lit "statement_names_producer"]

def pairingStrict : PyText := lit "value_and_primary_in_fragment"

/-- A `ValueAttribution`, and what it is built from. -/
structure ValueAttribution where
  primaryKey : PyText
  primaryName : PyText
  primaryUri : PyText
  parentSourceId : PyText
  method : PyText
  basisFragment : PyText
  pairing : PyText
deriving DecidableEq

/-- A `SelfPublication`, and what it is built from. -/
structure SelfPublication where
  primaryKey : PyText
  primaryName : PyText
  primaryUri : PyText
  method : PyText
  basisFragment : PyText
deriving DecidableEq

def valueAttributionKey : String := "value_attribution"

def valueAttributionSchema : PyText := lit "host-value-attribution-v1"

def selfPublicationKey : String := "value_self_publication"

def selfPublicationSchema : PyText := lit "host-value-self-publication-v1"

/-- `ValueAttribution.as_scope`. -/
def ValueAttribution.asScope (a : ValueAttribution) : ScopeValue :=
  .dict [("schema", .str valueAttributionSchema), ("primary_key", .str a.primaryKey),
    ("primary_name", .str a.primaryName), ("primary_uri", .str a.primaryUri),
    ("parent_source_id", .str a.parentSourceId), ("method", .str a.method),
    ("basis_fragment", .str a.basisFragment), ("pairing", .str a.pairing)]

/-- `SelfPublication.as_scope`. -/
def SelfPublication.asScope (p : SelfPublication) : ScopeValue :=
  .dict [("schema", .str selfPublicationSchema), ("primary_key", .str p.primaryKey),
    ("primary_name", .str p.primaryName), ("primary_uri", .str p.primaryUri),
    ("method", .str p.method), ("basis_fragment", .str p.basisFragment)]

section Records

-- `uuid.UUID` takes the text, and `str` of a value that is no string
variable (isUuid : PyText → Bool) (render : ScopeValue → PyText)

/-- `build_value_attribution`. -/
def buildValueAttribution (raw : ValueAttribution) : Option ValueAttribution := do
  let primaryKey ← cleanField fieldLimit raw.primaryKey
  let primaryName ← cleanField fieldLimit raw.primaryName
  let primaryUri ← cleanField uriLimit raw.primaryUri
  let parentSourceId ← cleanField fieldLimit raw.parentSourceId
  let method ← cleanField fieldLimit raw.method
  if isUuid parentSourceId && valueAttributionPairings.contains raw.pairing then
    some ⟨primaryKey, primaryName, primaryUri, parentSourceId, method,
      cleanBasis raw.basisFragment, raw.pairing⟩
  else none

/-- `build_self_publication`. -/
def buildSelfPublication (raw : SelfPublication) : Option SelfPublication := do
  let primaryKey ← cleanField fieldLimit raw.primaryKey
  let primaryName ← cleanField fieldLimit raw.primaryName
  let primaryUri ← cleanField uriLimit raw.primaryUri
  let method ← cleanField fieldLimit raw.method
  some ⟨primaryKey, primaryName, primaryUri, method, cleanBasis raw.basisFragment⟩

/-- The pairing of a record; the records of the first version have none. -/
def readPairing (fields : List (String × ScopeValue)) : Option PyText :=
  match fields.lookup "pairing" with
  | none => some pairingStrict
  | some (.str s) => some s
  | some _ => none

def readValueAttribution : ScopeValue → Option ValueAttribution
  | .dict fields =>
    let text := fun name => ScopeValue.textOf render (fields.lookup name)
    if ScopeValue.isText valueAttributionSchema (fields.lookup "schema") then
      (readPairing fields).bind fun pairing => buildValueAttribution isUuid
        ⟨text "primary_key", text "primary_name", text "primary_uri", text "parent_source_id",
          text "method", text "basis_fragment", pairing⟩
    else none
  | _ => none

/-- `parse_value_attribution`. -/
def parseValueAttribution (scope : Option EvidenceScope) : Option ValueAttribution :=
  (scope.bind (·.lookup valueAttributionKey)).bind (readValueAttribution isUuid render)

def readSelfPublication : ScopeValue → Option SelfPublication
  | .dict fields =>
    let text := fun name => ScopeValue.textOf render (fields.lookup name)
    if ScopeValue.isText selfPublicationSchema (fields.lookup "schema") then
      buildSelfPublication ⟨text "primary_key", text "primary_name", text "primary_uri",
        text "method", text "basis_fragment"⟩
    else none
  | _ => none

/-- `parse_self_publication`. -/
def parseSelfPublication (scope : Option EvidenceScope) : Option SelfPublication :=
  (scope.bind (·.lookup selfPublicationKey)).bind (readSelfPublication render)

/-- The scope with the records it is given. -/
def withRecords (derived : EvidenceScope) (attribution : Option ValueAttribution)
    (publication : Option SelfPublication) : EvidenceScope :=
  let carried := attribution.elim derived fun a => derived.insert valueAttributionKey a.asScope
  publication.elim carried fun p => carried.insert selfPublicationKey p.asScope

/-- `carry_value_attribution`. -/
def carryValueAttribution (current : Option EvidenceScope) (derived : EvidenceScope) :
    EvidenceScope :=
  withRecords derived (parseValueAttribution isUuid render current)
    (parseSelfPublication render current)

/-! ## What is asked of the records -/

/-- The scope keeps these records, as they are written. -/
structure Stores (scope : EvidenceScope) (a : Option ValueAttribution)
    (p : Option SelfPublication) : Prop where
  attribution : scope.lookup valueAttributionKey = a.map (·.asScope)
  publication : scope.lookup selfPublicationKey = p.map (·.asScope)

/-- The records are read as they were built, and the scope that a commit derives again keeps
them. -/
structure Survive (a : Option ValueAttribution) (p : Option SelfPublication) : Prop where
  read : ∀ scope, Stores scope a p → parseValueAttribution isUuid render (some scope) = a ∧
    parseSelfPublication render (some scope) = p
  twice : ∀ scope, Stores scope a p → ∀ domain time,
    let carry := carryValueAttribution isUuid render
    let derived := deriveEvidenceScope domain time
    carry (some (carry (some scope) derived)) derived = carry (some scope) derived ∧
      carry (some scope) (carry (some scope) derived) = carry (some scope) derived
  kept : ∀ scope, Stores scope a p → ∀ domain time,
    Stores (carryValueAttribution isUuid render (some scope) (deriveEvidenceScope domain time)) a p

/-- The first thousand symbols of the basis do not end in a space. -/
def WholeBasis (basisFragment : PyText) : Prop :=
  ∀ c ∈ ((strip (maskNul basisFragment)).take basisLimit).getLast?, c.isSpace = false

instance (basisFragment : PyText) : Decidable (WholeBasis basisFragment) :=
  decidable_of_iff
    (((strip (maskNul basisFragment)).take basisLimit).getLast?.all (!·.isSpace) = true)
    (by simp [WholeBasis, Option.all_eq_true])

end Records

/-! ## Cleaning what is clean -/

theorem nul_notMem_maskNul (text : PyText) : nul ∉ maskNul text := by
  have hmarker : ∀ c ∈ nulMarker, c ≠ nul := by
    intro c hc
    have : nulMarker.all (· ≠ nul) = true := by decide
    simpa using List.all_eq_true.mp this c hc
  intro h
  obtain ⟨c, -, hc⟩ := List.mem_flatMap.mp h
  split at hc
  · exact hmarker nul hc rfl
  · rename_i hne
    exact hne (List.mem_singleton.mp hc).symm

theorem maskNul_eq_self {text : PyText} (h : nul ∉ text) : maskNul text = text := by
  induction text with
  | nil => rfl
  | cons c text ih =>
    have hc : c ≠ nul := fun hc => h (hc ▸ List.mem_cons_self)
    have hrest := ih fun hmem => h (List.mem_cons_of_mem _ hmem)
    rw [maskNul, List.flatMap_cons, if_neg hc, List.singleton_append]
    exact congrArg (c :: ·) hrest

/-- What is left of a masked text is masked. -/
theorem maskNul_of_sublist {text t : PyText} (h : t.Sublist (maskNul text)) : maskNul t = t :=
  maskNul_eq_self fun hmem => nul_notMem_maskNul text (h.subset hmem)

theorem cleanField_clean {limit : Nat} {value t : PyText} (h : cleanField limit value = some t) :
    cleanField limit t = some t := by
  rw [cleanField] at h
  split at h
  · cases h
  · rename_i hfits
    obtain rfl := Option.some_inj.mp h
    rw [cleanField, maskNul_of_sublist (strip_sublist _), strip_strip]
    exact if_neg hfits

theorem cleanBasis_eq_take (basisFragment : PyText) :
    cleanBasis basisFragment = (strip (maskNul basisFragment)).take basisLimit := by
  rw [cleanBasis]
  split
  · rfl
  · rename_i hshort
    rw [List.take_of_length_le (by omega)]

/-- A cleaned basis is only stripped again. -/
theorem cleanBasis_cleanBasis (basisFragment : PyText) :
    cleanBasis (cleanBasis basisFragment) = strip (cleanBasis basisFragment) := by
  have hsub : (cleanBasis basisFragment).Sublist (maskNul basisFragment) := by
    rw [cleanBasis_eq_take]
    exact (List.take_sublist _ _).trans (strip_sublist _)
  have hlen : (strip (cleanBasis basisFragment)).length ≤ basisLimit := by
    refine (strip_sublist _).length_le.trans ?_
    rw [cleanBasis_eq_take]
    exact List.length_take_le _ _
  rw [cleanBasis_eq_take (cleanBasis basisFragment), maskNul_of_sublist hsub,
    List.take_of_length_le hlen]

theorem strip_cleanBasis_iff (basisFragment : PyText) :
    strip (cleanBasis basisFragment) = cleanBasis basisFragment ↔ WholeBasis basisFragment := by
  rw [strip_eq_self_iff, cleanBasis_eq_take, WholeBasis]
  constructor
  · exact And.right
  · intro hlast
    -- stripping has left no space at the start, and cutting makes none
    refine ⟨?_, hlast⟩
    intro c hc
    rw [List.head?_take] at hc
    split at hc
    · cases hc
    · exact head_strip hc

/-! ## Reading what was written -/

section Reading

variable {isUuid : PyText → Bool} {render : ScopeValue → PyText}

/-- The record as it is read. -/
def ValueAttribution.trimmed (a : ValueAttribution) : ValueAttribution :=
  { a with basisFragment := strip a.basisFragment }

def SelfPublication.trimmed (p : SelfPublication) : SelfPublication :=
  { p with basisFragment := strip p.basisFragment }

theorem readValueAttribution_asScope (a : ValueAttribution) :
    readValueAttribution isUuid render a.asScope = buildValueAttribution isUuid a := by
  simp [ValueAttribution.asScope, readValueAttribution, readPairing, ScopeValue.isText,
    ScopeValue.textOf, List.lookup]

theorem readSelfPublication_asScope (p : SelfPublication) :
    readSelfPublication render p.asScope = buildSelfPublication p := by
  simp [SelfPublication.asScope, readSelfPublication, ScopeValue.isText, ScopeValue.textOf,
    List.lookup]

/-- The builder trims its own record. -/
theorem buildValueAttribution_built {raw a : ValueAttribution}
    (h : buildValueAttribution isUuid raw = some a) :
    a.basisFragment = cleanBasis raw.basisFragment ∧
      buildValueAttribution isUuid a = some a.trimmed := by
  simp only [buildValueAttribution, Option.bind_eq_bind, Option.bind_eq_some_iff] at h
  obtain ⟨key, hkey, name, hname, uri, huri, parent, hparent, method, hmethod, h⟩ := h
  split at h
  · rename_i hok
    obtain rfl := Option.some_inj.mp h
    refine ⟨rfl, ?_⟩
    simp only [buildValueAttribution, cleanField_clean hkey, cleanField_clean hname,
      cleanField_clean huri, cleanField_clean hparent, cleanField_clean hmethod,
      Option.bind_eq_bind, Option.bind_some, if_pos hok, cleanBasis_cleanBasis,
      ValueAttribution.trimmed]
  · cases h

theorem buildSelfPublication_built {raw p : SelfPublication}
    (h : buildSelfPublication raw = some p) :
    p.basisFragment = cleanBasis raw.basisFragment ∧
      buildSelfPublication p = some p.trimmed := by
  simp only [buildSelfPublication, Option.bind_eq_bind, Option.bind_eq_some_iff] at h
  obtain ⟨key, hkey, name, hname, uri, huri, method, hmethod, h⟩ := h
  obtain rfl := Option.some_inj.mp h
  refine ⟨rfl, ?_⟩
  simp only [buildSelfPublication, cleanField_clean hkey, cleanField_clean hname,
    cleanField_clean huri, cleanField_clean hmethod, Option.bind_eq_bind, Option.bind_some,
    cleanBasis_cleanBasis, SelfPublication.trimmed]

theorem ValueAttribution.trimmed_eq_self_iff {raw a : ValueAttribution}
    (h : buildValueAttribution isUuid raw = some a) :
    a.trimmed = a ↔ WholeBasis raw.basisFragment := by
  rw [← strip_cleanBasis_iff, ← (buildValueAttribution_built h).1]
  constructor
  · intro heq
    exact congrArg ValueAttribution.basisFragment heq
  · intro heq
    rw [trimmed, heq]

theorem SelfPublication.trimmed_eq_self_iff {raw p : SelfPublication}
    (h : buildSelfPublication raw = some p) :
    p.trimmed = p ↔ WholeBasis raw.basisFragment := by
  rw [← strip_cleanBasis_iff, ← (buildSelfPublication_built h).1]
  constructor
  · intro heq
    exact congrArg SelfPublication.basisFragment heq
  · intro heq
    rw [trimmed, heq]

/-! ## Scopes that keep records -/

/-- The builder reads these records back, trimmed. -/
structure Read (isUuid : PyText → Bool) (a : Option ValueAttribution)
    (p : Option SelfPublication) : Prop where
  attribution : ∀ x ∈ a, buildValueAttribution isUuid x = some x.trimmed
  publication : ∀ x ∈ p, buildSelfPublication x = some x.trimmed

variable {a : Option ValueAttribution} {p : Option SelfPublication} {scope : EvidenceScope}

theorem Read.trimmed (h : Read isUuid a p) :
    Read isUuid (a.map (·.trimmed)) (p.map (·.trimmed)) := by
  constructor
  · intro x hx
    obtain ⟨y, hy, rfl⟩ := Option.map_eq_some_iff.mp hx
    exact (buildValueAttribution_built (h.attribution y hy)).2
  · intro x hx
    obtain ⟨y, hy, rfl⟩ := Option.map_eq_some_iff.mp hx
    exact (buildSelfPublication_built (h.publication y hy)).2

theorem Stores.parse (h : Stores scope a p) (hr : Read isUuid a p) :
    parseValueAttribution isUuid render (some scope) = a.map (·.trimmed) ∧
      parseSelfPublication render (some scope) = p.map (·.trimmed) := by
  rw [parseValueAttribution, parseSelfPublication, Option.bind_some, Option.bind_some,
    h.attribution, h.publication]
  constructor
  · cases a with
    | none => rfl
    | some x => exact (readValueAttribution_asScope x).trans (hr.attribution x rfl)
  · cases p with
    | none => rfl
    | some x => exact (readSelfPublication_asScope x).trans (hr.publication x rfl)

/-- Only the key of a record that is given changes. -/
theorem lookup_withRecords (derived : EvidenceScope) (key : String) :
    (withRecords derived a p).lookup key =
      if key = selfPublicationKey ∧ p.isSome then p.map (·.asScope)
      else if key = valueAttributionKey ∧ a.isSome then a.map (·.asScope)
      else derived.lookup key := by
  have hcarried :
      (a.elim derived fun x => derived.insert valueAttributionKey x.asScope).lookup key =
        if key = valueAttributionKey ∧ a.isSome then a.map (·.asScope)
        else derived.lookup key := by
    cases a with
    | none => simp
    | some x =>
      by_cases hkey : key = valueAttributionKey
      · rw [hkey, Option.elim_some, Finmap.lookup_insert]
        simp
      · rw [Option.elim_some, Finmap.lookup_insert_of_ne _ hkey, if_neg (fun h => hkey h.1)]
  -- the publication is written last
  rw [withRecords]
  cases p with
  | none => simpa using hcarried
  | some y =>
    by_cases hkey : key = selfPublicationKey
    · rw [hkey, Option.elim_some, Finmap.lookup_insert]
      simp
    · rw [Option.elim_some, Finmap.lookup_insert_of_ne _ hkey, hcarried]
      exact (if_neg fun h => hkey h.1).symm

/-- A scope that is given its records twice has them once. -/
theorem withRecords_withRecords (derived : EvidenceScope) :
    withRecords (withRecords derived a p) a p = withRecords derived a p := by
  refine Finmap.ext_lookup fun key => ?_
  simp only [lookup_withRecords]
  split_ifs
  · rfl
  · rfl
  · rfl

theorem keys_ne : valueAttributionKey ≠ selfPublicationKey := by decide

theorem deriveEvidenceScope_fresh (domain time : Option PyText) :
    Stores (deriveEvidenceScope domain time) none none := by
  have hother : ∀ key : String, key ≠ "scope_schema" → key ≠ "as_of" → key ≠ "source_domain" →
      (deriveEvidenceScope domain time).lookup key = none := by
    intro key hschema htime hdomain
    rw [deriveEvidenceScope, Finmap.lookup_insert_of_ne _ hdomain,
      Finmap.lookup_insert_of_ne _ htime, Finmap.lookup_eq_none, Finmap.mem_singleton]
    exact hschema
  constructor
  · exact hother valueAttributionKey (by decide) (by decide) (by decide)
  · exact hother selfPublicationKey (by decide) (by decide) (by decide)

theorem Stores.withRecords {derived : EvidenceScope} (h : Stores derived none none) :
    Stores (withRecords derived a p) a p := by
  constructor
  · rw [lookup_withRecords, if_neg (fun hkey => keys_ne hkey.1)]
    cases a with
    | none => exact h.attribution
    | some x => rfl
  · rw [lookup_withRecords]
    cases p with
    | none =>
      rw [if_neg (by simp), if_neg (fun hkey => keys_ne hkey.1.symm)]
      exact h.publication
    | some y => rfl

/-- What is carried over is what is read. -/
theorem Stores.carry (h : Stores scope a p) (hr : Read isUuid a p) (derived : EvidenceScope) :
    carryValueAttribution isUuid render (some scope) derived =
      HostRecords.withRecords derived (a.map (·.trimmed)) (p.map (·.trimmed)) := by
  obtain ⟨hattribution, hpublication⟩ := @Stores.parse _ render _ _ _ h hr
  rw [carryValueAttribution, hattribution, hpublication]

/-- **Records survive exactly where reading does not trim them.** -/
theorem survive_iff_trimmed (hr : Read isUuid a p) :
    Survive isUuid render a p ↔ (∀ x ∈ a, x.trimmed = x) ∧ ∀ x ∈ p, x.trimmed = x := by
  constructor
  · intro h
    have hstored := (deriveEvidenceScope_fresh none none).withRecords (a := a) (p := p)
    obtain ⟨hattribution, hpublication⟩ := h.read _ hstored
    obtain ⟨hattribution', hpublication'⟩ := @Stores.parse _ render _ _ _ hstored hr
    rw [hattribution] at hattribution'
    rw [hpublication] at hpublication'
    constructor
    · rintro x rfl
      exact (Option.some_inj.mp hattribution').symm
    · rintro x rfl
      exact (Option.some_inj.mp hpublication').symm
  · rintro ⟨hattribution, hpublication⟩
    have hsame : a.map (·.trimmed) = a ∧ p.map (·.trimmed) = p := by
      constructor
      · cases a with
        | none => rfl
        | some x => exact congrArg some (hattribution x rfl)
      · cases p with
        | none => rfl
        | some x => exact congrArg some (hpublication x rfl)
    -- what is carried over is what was stored, so a second commit finds it again
    have hkept : ∀ scope, Stores scope a p → ∀ domain time,
        Stores (carryValueAttribution isUuid render (some scope)
          (deriveEvidenceScope domain time)) a p := by
      intro scope hstored domain time
      rw [hstored.carry hr, hsame.1, hsame.2]
      exact (deriveEvidenceScope_fresh domain time).withRecords
    constructor
    · intro scope hstored
      have hparse := @Stores.parse _ render _ _ _ hstored hr
      rwa [hsame.1, hsame.2] at hparse
    · intro scope hstored domain time
      constructor
      · rw [(hkept scope hstored domain time).carry hr, hstored.carry hr]
      · rw [hstored.carry hr, hstored.carry hr, withRecords_withRecords]
    · exact hkept

/-- **Built records survive exactly where no basis was cut behind a space.** -/
theorem records_survive_iff (isUuid : PyText → Bool) (render : ScopeValue → PyText)
    {rawA a : Option ValueAttribution} {rawP p : Option SelfPublication}
    (ha : Option.Rel (fun raw x => buildValueAttribution isUuid raw = some x) rawA a)
    (hp : Option.Rel (fun raw x => buildSelfPublication raw = some x) rawP p) :
    Survive isUuid render a p ↔
      (∀ raw ∈ rawA, WholeBasis raw.basisFragment) ∧
        ∀ raw ∈ rawP, WholeBasis raw.basisFragment := by
  have hr : Read isUuid a p := by
    constructor
    · rintro x rfl
      cases ha with
      | some h => exact (buildValueAttribution_built h).2
    · rintro x rfl
      cases hp with
      | some h => exact (buildSelfPublication_built h).2
  have hattribution : (∀ x ∈ a, x.trimmed = x) ↔ ∀ raw ∈ rawA, WholeBasis raw.basisFragment := by
    cases ha with
    | none => simp
    | some h => simpa using ValueAttribution.trimmed_eq_self_iff h
  have hpublication : (∀ x ∈ p, x.trimmed = x) ↔ ∀ raw ∈ rawP, WholeBasis raw.basisFragment := by
    cases hp with
    | none => simp
    | some h => simpa using SelfPublication.trimmed_eq_self_iff h
  rw [survive_iff_trimmed hr, hattribution, hpublication]

end Reading

/-! ## A record with a masked symbol, and one that is cut -/

/-- 32 hexadecimal digits, with dashes anywhere. -/
def isPlainUuid (text : PyText) : Bool :=
  let digits := text.filter (· ≠ CodePoint.ofChar '-')
  digits.length = 32 && digits.all fun c =>
    (48 ≤ c.val && c.val ≤ 57) || (97 ≤ c.val && c.val ≤ 102) || (65 ≤ c.val && c.val ≤ 70)

def retellingOf (basisFragment : PyText) : ValueAttribution where
  primaryKey := lit "cbr"
  primaryName := lit "Банк России"
  primaryUri := lit "https://cbr.ru/"
  parentSourceId := lit "0b9c1c1e-2f7e-4f0e-9b0a-0123456789ab"
  method := lit "host-value-attribution-v18"
  basisFragment := basisFragment
  pairing := pairingStrict

def ownPublicationOf (basisFragment : PyText) : SelfPublication where
  primaryKey := lit "cbr"
  primaryName := lit "Банк России"
  primaryUri := lit "https://cbr.ru/"
  method := lit "host-value-attribution-v18"
  basisFragment := basisFragment

def noText : ScopeValue → PyText := fun _ => []

/-- A record with a masked symbol is read back, and a publication beside it. -/
theorem records_survive_masked :
    Survive isPlainUuid noText (some (retellingOf (lit "6\\x00%")))
      (some (ownPublicationOf (lit "7%"))) := by
  have hretelling : buildValueAttribution isPlainUuid (retellingOf [54, nul, 37]) =
      some (retellingOf (lit "6\\x00%")) := by decide
  have hpublication : buildSelfPublication (ownPublicationOf (lit " 7% ")) =
      some (ownPublicationOf (lit "7%")) := by decide
  refine (records_survive_iff isPlainUuid noText (.some hretelling) (.some hpublication)).mpr ?_
  constructor
  · rintro raw ⟨⟩
    show WholeBasis [54, nul, 37]
    decide
  · rintro raw ⟨⟩
    show WholeBasis (lit " 7% ")
    decide

/-- A basis of 1001 symbols with a space before the last one. -/
def cutBasis : PyText := List.replicate 999 (CodePoint.ofChar 'x') ++ lit " x"

theorem cut_basis_altered :
    ∃ a, buildValueAttribution isPlainUuid (retellingOf cutBasis) = some a ∧
      ¬ Survive isPlainUuid noText (some a) none := by
  have hbuilt : buildValueAttribution isPlainUuid (retellingOf cutBasis) =
      some (retellingOf (cleanBasis cutBasis)) := by decide +kernel
  have hread : Read isPlainUuid (some (retellingOf (cleanBasis cutBasis))) none := by
    constructor
    · rintro x ⟨⟩
      exact (buildValueAttribution_built hbuilt).2
    · rintro x ⟨⟩
  refine ⟨_, hbuilt, fun hsurvive => ?_⟩
  have hkept := ((survive_iff_trimmed hread).mp hsurvive).1 _ rfl
  revert hkept
  decide +kernel

end Noezema.Memory.HostRecords
