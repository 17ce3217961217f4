import Noezema.Lib.JsonSchema

/-! # The schema that is sent

An engine that refuses a keyword gets the response schema without it. The stripped schema accepts
just the documents the full one accepts when the assertions of the stripped keywords are ignored
(`schema_profile_relaxes`): no answer the host would accept is withheld from the engine. The
condition is on the schema: no property bears the name of a stripped keyword, which would be
stripped with it.
-/

namespace Noezema.Gateway

open Noezema.Lib

variable {φ : Type}

/-! ## Stripping -/

/-- `HALOGEN_UNSUPPORTED_KEYWORDS`. -/
def halogenUnsupportedKeywords : List (List Char) := ["format".toList, "pattern".toList]

/-- `LLAMACPP_ROCMFPX_UNSUPPORTED_KEYWORDS`. -/
def llamacppRocmfpxUnsupportedKeywords : List (List Char) :=
  ["minLength".toList, "maxLength".toList]

/-- The names of `SCHEMA_PROFILES`. -/
inductive SchemaProfile where
  | none
  | halogen
  | llamacppRocmfpx
deriving DecidableEq, Repr

/-- `SCHEMA_PROFILES`. -/
def SchemaProfile.keywords : SchemaProfile → List (List Char)
  | .none => []
  | .halogen => halogenUnsupportedKeywords
  | .llamacppRocmfpx => llamacppRocmfpxUnsupportedKeywords

/-- `_strip`. -/
def strip (keywords : List (List Char)) : ∀ {i : JsonKind}, JsonTerm φ i → JsonTerm φ i
  | _, .obj kvs => .obj (strip keywords kvs)
  | _, .arr xs => .arr (strip keywords xs)
  | _, .item x xs => .item (strip keywords x) (strip keywords xs)
  | _, .field key x rest =>
    if keywords.contains key then strip keywords rest
    else .field key (strip keywords x) (strip keywords rest)
  | _, t => t

section Stripped

variable (kws : List (List Char))

@[simp] theorem strip_obj (kvs : JsonTerm φ .fields) :
    strip kws (.obj kvs) = .obj (strip kws kvs) := rfl

@[simp] theorem strip_arr (xs : JsonTerm φ .items) :
    strip kws (.arr xs) = .arr (strip kws xs) := rfl

@[simp] theorem strip_item (x : JsonTerm φ .value) (xs : JsonTerm φ .items) :
    strip kws (.item x xs) = .item (strip kws x) (strip kws xs) := rfl

theorem strip_field (key : List Char) (x : JsonTerm φ .value) (rest : JsonTerm φ .fields) :
    strip kws (.field key x rest) =
      if kws.contains key then strip kws rest
      else .field key (strip kws x) (strip kws rest) := rfl

end Stripped

/-- `strip_schema_keywords`. -/
def stripSchemaKeywords (schema : JsonTerm φ .value) (keywords : List (List Char)) :
    JsonTerm φ .value :=
  if keywords = [] then schema else strip keywords schema

theorem strip_nil {i : JsonKind} (t : JsonTerm φ i) : strip [] t = t := by
  induction t with
  | null | bool _ | int _ | number _ | str _ | noItem | noField => rfl
  | arr xs ih => rw [strip_arr, ih]
  | obj kvs ih => rw [strip_obj, ih]
  | item x xs ih ih' => rw [strip_item, ih, ih']
  | field key x rest ih ih' => rw [strip_field, if_neg (by simp), ih, ih']

/-- The case of no keywords is no case of its own. -/
theorem stripSchemaKeywords_eq (schema : JsonTerm φ .value) (keywords : List (List Char)) :
    stripSchemaKeywords schema keywords = strip keywords schema := by
  unfold stripSchemaKeywords
  split
  · rename_i h
    rw [h, strip_nil]
  · rfl

/-- Stripping twice is stripping both. -/
theorem strip_strip (kws kws' : List (List Char)) {i : JsonKind} (t : JsonTerm φ i) :
    strip kws (strip kws' t) = strip (kws ++ kws') t := by
  induction t with
  | null | bool _ | int _ | number _ | str _ | noItem | noField => rfl
  | arr xs ih => simp only [strip_arr, ih]
  | obj kvs ih => simp only [strip_obj, ih]
  | item x xs ih ih' => simp only [strip_item, ih, ih']
  | field key x rest ih ih' =>
    by_cases h : kws'.contains key = true
    · have hboth : (kws ++ kws').contains key = true := by simp_all
      rw [strip_field, if_pos h, ih', strip_field, if_pos hboth]
    · rw [strip_field, if_neg h]
      by_cases h' : kws.contains key = true
      · have hboth : (kws ++ kws').contains key = true := by simp_all
        rw [strip_field, if_pos h', ih', strip_field, if_pos hboth]
      · have hboth : ¬ (kws ++ kws').contains key = true := by simp_all
        rw [strip_field, if_neg h', ih, ih', strip_field, if_neg hboth]

theorem strip_congr {kws kws' : List (List Char)} (h : ∀ key, key ∈ kws ↔ key ∈ kws')
    {i : JsonKind} (t : JsonTerm φ i) : strip kws t = strip kws' t := by
  have hcontains : ∀ key, kws.contains key = kws'.contains key := by
    intro key
    rw [Bool.eq_iff_iff, List.contains_iff_mem, List.contains_iff_mem]
    exact h key
  induction t with
  | null | bool _ | int _ | number _ | str _ | noItem | noField => rfl
  | arr xs ih => simp only [strip_arr, ih]
  | obj kvs ih => simp only [strip_obj, ih]
  | item x xs ih ih' => simp only [strip_item, ih, ih']
  | field key x rest ih ih' => simp only [strip_field, ih, ih', hcontains]

theorem strip_idempotent (kws : List (List Char)) {i : JsonKind} (t : JsonTerm φ i) :
    strip kws (strip kws t) = strip kws t := by
  rw [strip_strip]
  exact strip_congr (fun key => by simp) t

/-! ## The parts of a stripped value -/

section Parts

variable (kws : List (List Char))

theorem fieldValue_strip (key : List Char) {i : JsonKind} (t : JsonTerm φ i) :
    (strip kws t).fieldValue key =
      if kws.contains key then none else (t.fieldValue key).map (strip kws) := by
  induction t with
  | null | bool _ | int _ | number _ | str _ | arr _ _ | obj _ _ | noItem | item _ _ _ _
  | noField => exact (ite_self none).symm
  | field k x rest _ ih =>
    by_cases hk : kws.contains k = true
    · rw [strip_field, if_pos hk, ih, JsonTerm.fieldValue]
      by_cases heq : k = key
      · rw [← heq, if_pos hk, if_pos hk]
      · rw [if_neg heq]
    · rw [strip_field, if_neg hk, JsonTerm.fieldValue, JsonTerm.fieldValue]
      by_cases heq : k = key
      · rw [if_pos heq, if_pos heq, ← heq, if_neg hk]
        rfl
      · rw [if_neg heq, if_neg heq, ih]

theorem property_strip (name : List Char) (x : JsonTerm φ .value) :
    (strip kws x).property name =
      if kws.contains name then none else (x.property name).map (strip kws) := by
  cases x with
  | obj kvs => exact fieldValue_strip kws name kvs
  | null | bool _ | int _ | number _ | str _ | arr _ => exact (ite_self none).symm

theorem elements_strip {i : JsonKind} (t : JsonTerm φ i) (hi : i ≠ .fields) :
    (strip kws t).elements = t.elements.map (strip kws) := by
  induction t with
  | null | bool _ | int _ | number _ | str _ | obj _ _ | noItem | noField =>
    rfl
  | arr xs ih => rw [strip_arr, JsonTerm.elements, ih (by decide), JsonTerm.elements]
  | item x xs _ ih =>
    rw [strip_item, JsonTerm.elements, ih (by decide), JsonTerm.elements, List.map_cons]
  | field k x rest _ _ => exact absurd rfl hi

end Parts

/-! ## Schemas that can be stripped -/

/-- What a value is for the schema it stands in. -/
inductive SchemaRole where
  | schema
  | schemas
  | named
deriving DecidableEq, Repr

/-- No key is stripped from a value. -/
def untouched (kws : List (List Char)) : ∀ {i : JsonKind}, JsonTerm φ i → Bool
  | _, .obj kvs => untouched kws kvs
  | _, .arr xs => untouched kws xs
  | _, .item x xs => untouched kws x && untouched kws xs
  | _, .field key x rest => !kws.contains key && untouched kws x && untouched kws rest
  | _, _ => true

/-- Only keywords are stripped from a schema: no property and no definition bears the name of
one, and no asserted value has it as a key. -/
def tame (kws : List (List Char)) : ∀ {i : JsonKind}, JsonTerm φ i → SchemaRole → Bool
  | _, .obj kvs, role => tame kws kvs role
  | _, .arr xs, .schemas => tame kws xs .schemas
  | _, .item x xs, .schemas => tame kws x .schema && tame kws xs .schemas
  | _, .field key x rest, .schema =>
    (kws.contains key ||
      match SchemaKeyword.of key with
      | .ref | .assertion => untouched kws x
      | .anyOf | .allOf => tame kws x .schemas
      | .properties | .defs => tame kws x .named
      | .additionalProperties | .items => tame kws x .schema) && tame kws rest .schema
  | _, .field key x rest, .named =>
    !kws.contains key && tame kws x .schema && tame kws rest .named
  | _, _, _ => true

section Tame

variable {kws : List (List Char)}

theorem untouched_item (x : JsonTerm φ .value) (xs : JsonTerm φ .items) :
    untouched kws (.item x xs) = (untouched kws x && untouched kws xs) := rfl

theorem untouched_field (key : List Char) (x : JsonTerm φ .value) (rest : JsonTerm φ .fields) :
    untouched kws (.field key x rest) =
      (!kws.contains key && untouched kws x && untouched kws rest) := rfl

theorem tame_obj (kvs : JsonTerm φ .fields) (role : SchemaRole) :
    tame kws (.obj kvs) role = tame kws kvs role := rfl

theorem tame_arr (xs : JsonTerm φ .items) :
    tame kws (.arr xs) .schemas = tame kws xs .schemas := rfl

theorem tame_item (x : JsonTerm φ .value) (xs : JsonTerm φ .items) :
    tame kws (.item x xs) .schemas = (tame kws x .schema && tame kws xs .schemas) := rfl

theorem tame_field_schema (key : List Char) (x : JsonTerm φ .value)
    (rest : JsonTerm φ .fields) :
    tame kws (.field key x rest) .schema =
      ((kws.contains key ||
        match SchemaKeyword.of key with
        | .ref | .assertion => untouched kws x
        | .anyOf | .allOf => tame kws x .schemas
        | .properties | .defs => tame kws x .named
        | .additionalProperties | .items => tame kws x .schema) && tame kws rest .schema) := rfl

theorem tame_field_named (key : List Char) (x : JsonTerm φ .value)
    (rest : JsonTerm φ .fields) :
    tame kws (.field key x rest) .named =
      (!kws.contains key && tame kws x .schema && tame kws rest .named) := rfl

theorem strip_untouched {i : JsonKind} {t : JsonTerm φ i} (h : untouched kws t = true) :
    strip kws t = t := by
  induction t with
  | null | bool _ | int _ | number _ | str _ | noItem | noField => rfl
  | arr xs ih => rw [strip_arr, ih h]
  | obj kvs ih => rw [strip_obj, ih h]
  | item x xs ih ih' =>
    rw [untouched_item, Bool.and_eq_true] at h
    rw [strip_item, ih h.1, ih' h.2]
  | field key x rest ih ih' =>
    rw [untouched_field, Bool.and_eq_true, Bool.and_eq_true, Bool.not_eq_true'] at h
    rw [strip_field, if_neg (by rw [h.1.1]; exact Bool.false_ne_true), ih h.1.2, ih' h.2]

theorem tame_named {i : JsonKind} {t : JsonTerm φ i} (h : tame kws t .named = true)
    {name : List Char} {s : JsonTerm φ .value} (hs : t.fieldValue name = some s) :
    kws.contains name = false ∧ tame kws s .schema = true := by
  induction t with
  | null | bool _ | int _ | number _ | str _ | arr _ _ | obj _ _ | noItem | item _ _ _ _
  | noField => cases hs
  | field k x rest _ ih =>
    rw [tame_field_named, Bool.and_eq_true, Bool.and_eq_true, Bool.not_eq_true'] at h
    rw [JsonTerm.fieldValue] at hs
    split at hs
    · rename_i heq
      cases hs
      rw [← heq]
      exact h.1
    · exact ih h.2 hs

theorem tame_property {x s : JsonTerm φ .value} (h : tame kws x .named = true)
    {name : List Char} (hs : x.property name = some s) :
    kws.contains name = false ∧ tame kws s .schema = true := by
  cases x with
  | obj kvs =>
    rw [tame_obj] at h
    exact tame_named h hs
  | null | bool _ | int _ | number _ | str _ | arr _ => cases hs

theorem tame_elements {i : JsonKind} {t : JsonTerm φ i} (h : tame kws t .schemas = true)
    {s : JsonTerm φ .value} (hs : s ∈ t.elements) : tame kws s .schema = true := by
  induction t with
  | null | bool _ | int _ | number _ | str _ | obj _ _ | noItem | noField | field _ _ _ _ _ =>
    cases hs
  | arr xs ih =>
    rw [tame_arr] at h
    exact ih h hs
  | item x xs _ ih =>
    rw [tame_item, Bool.and_eq_true] at h
    rcases List.mem_cons.mp hs with rfl | hs
    · exact h.1
    · exact ih h.2 hs

/-- What a keyword of a tame schema is, where it is not stripped. -/
def TameKeyword (kws : List (List Char)) (key : List Char) (x : JsonTerm φ .value) : Prop :=
  match SchemaKeyword.of key with
  | .ref | .assertion => strip kws x = x
  | .anyOf | .allOf => tame kws x .schemas = true
  | .properties | .defs => tame kws x .named = true
  | .additionalProperties | .items => tame kws x .schema = true

theorem tame_keyword {i : JsonKind} {t : JsonTerm φ i} (h : tame kws t .schema = true)
    {key : List Char} {x : JsonTerm φ .value} (hkey : kws.contains key = false)
    (hx : t.fieldValue key = some x) : TameKeyword kws key x := by
  induction t with
  | null | bool _ | int _ | number _ | str _ | arr _ _ | obj _ _ | noItem | item _ _ _ _
  | noField => cases hx
  | field k y rest _ ih =>
    rw [tame_field_schema, Bool.and_eq_true, Bool.or_eq_true] at h
    rw [JsonTerm.fieldValue] at hx
    split at hx
    · rename_i heq
      cases hx
      subst heq
      rcases h.1 with hcut | hrole
      · rw [hkey] at hcut
        cases hcut
      · unfold TameKeyword
        cases hk : SchemaKeyword.of k with
        | ref | assertion =>
          rw [hk] at hrole
          exact strip_untouched hrole
        | anyOf | allOf | properties | defs | additionalProperties | items =>
          rw [hk] at hrole
          exact hrole
    · exact ih h.2 hx

theorem property_strip_named {x : JsonTerm φ .value} (h : tame kws x .named = true)
    (name : List Char) : (strip kws x).property name = (x.property name).map (strip kws) := by
  rw [property_strip]
  cases hx : x.property name with
  | none => simp
  | some s => rw [(tame_property h hx).1, if_neg Bool.false_ne_true]

end Tame

/-! ## What a stripped schema accepts -/

/-- The assertions without those of some keywords. -/
def ignoring (kws : List (List Char)) (asserts : Assertions φ) : Assertions φ :=
  fun key x doc => kws.contains key = true ∨ asserts key x doc

section Meaning

variable {kws : List (List Char)} {asserts : Assertions φ} {root : JsonTerm φ .value}

/-- Only assertions are stripped. -/
theorem combining_kept (hkws : ∀ key ∈ kws, SchemaKeyword.of key = .assertion) {key : List Char}
    (hkey : SchemaKeyword.of key ≠ .assertion) : kws.contains key = false := by
  by_contra h
  exact hkey (hkws key (List.contains_iff_mem.mp (eq_true_of_ne_false h)))

theorem refTarget_strip (hkws : ∀ key ∈ kws, SchemaKeyword.of key = .assertion)
    (hroot : tame kws root .schema = true) (x : JsonTerm φ .value) :
    refTarget (strip kws root) x = (refTarget root x).map (strip kws) ∧
      ∀ s, refTarget root x = some s → tame kws s .schema = true := by
  cases x with
  | str t =>
    rw [refTarget, refTarget]
    by_cases hpre : defsPrefix <+: t
    · rw [if_pos hpre, if_pos hpre]
      have hdefs : kws.contains defsKey = false :=
        combining_kept hkws (by rw [SchemaKeyword.of_defs]; decide)
      rw [property_strip, hdefs, if_neg Bool.false_ne_true]
      cases hx : root.property defsKey with
      | none => exact ⟨rfl, fun s hs => by cases hs⟩
      | some defs =>
        have hnamed : tame kws defs .named = true := by
          cases root with
          | obj kvs =>
            rw [tame_obj] at hroot
            have hkeyword := tame_keyword hroot hdefs hx
            rw [TameKeyword, SchemaKeyword.of_defs] at hkeyword
            exact hkeyword
          | null | bool _ | int _ | number _ | str _ | arr _ => cases hx
        exact ⟨property_strip_named hnamed _, fun s hs => (tame_property hnamed hs).2⟩
    · rw [if_neg hpre, if_neg hpre]
      exact ⟨rfl, fun s hs => by cases hs⟩
  | null | bool _ | int _ | number _ | arr _ | obj _ => exact ⟨rfl, fun s hs => by cases hs⟩

theorem keywordHolds_strip (hkws : ∀ key ∈ kws, SchemaKeyword.of key = .assertion)
    (hroot : tame kws root .schema = true)
    {accepts accepts' : JsonTerm φ .value → JsonTerm φ .value → Prop}
    (hacc : ∀ s doc, tame kws s .schema = true → (accepts' (strip kws s) doc ↔ accepts s doc))
    {kvs : JsonTerm φ .fields} (hkvs : tame kws kvs .schema = true) {key : List Char}
    (hkey : kws.contains key = false) {x : JsonTerm φ .value} (hx : TameKeyword kws key x)
    (doc : JsonTerm φ .value) :
    KeywordHolds asserts (strip kws root) accepts' (strip kws kvs) key (strip kws x) doc ↔
      KeywordHolds (ignoring kws asserts) root accepts kvs key x doc := by
  unfold TameKeyword at hx
  unfold KeywordHolds
  cases hof : SchemaKeyword.of key with
  | ref =>
    rw [hof] at hx
    obtain ⟨htarget, htame⟩ := refTarget_strip hkws hroot x
    dsimp only at hx ⊢
    rw [hx, htarget]
    constructor
    · rintro ⟨s', hs', h⟩
      obtain ⟨s, hs, rfl⟩ := Option.map_eq_some_iff.mp hs'
      exact ⟨s, hs, (hacc s doc (htame s hs)).mp h⟩
    · rintro ⟨s, hs, h⟩
      exact ⟨strip kws s, by rw [hs]; rfl, (hacc s doc (htame s hs)).mpr h⟩
  | anyOf =>
    rw [hof] at hx
    dsimp only at hx ⊢
    rw [elements_strip kws x (by decide)]
    constructor
    · rintro ⟨s', hs', h⟩
      obtain ⟨s, hs, rfl⟩ := List.mem_map.mp hs'
      exact ⟨s, hs, (hacc s doc (tame_elements hx hs)).mp h⟩
    · rintro ⟨s, hs, h⟩
      exact ⟨strip kws s, List.mem_map_of_mem hs, (hacc s doc (tame_elements hx hs)).mpr h⟩
  | allOf =>
    rw [hof] at hx
    dsimp only at hx ⊢
    rw [elements_strip kws x (by decide)]
    constructor
    · intro h s hs
      exact (hacc s doc (tame_elements hx hs)).mp (h _ (List.mem_map_of_mem hs))
    · intro h s' hs'
      obtain ⟨s, hs, rfl⟩ := List.mem_map.mp hs'
      exact (hacc s doc (tame_elements hx hs)).mpr (h s hs)
  | properties =>
    rw [hof] at hx
    dsimp only at hx ⊢
    constructor
    · intro h name s y hs hy
      have hs' : (strip kws x).property name = some (strip kws s) := by
        rw [property_strip_named hx, hs]
        rfl
      exact (hacc s y (tame_property hx hs).2).mp (h name _ y hs' hy)
    · intro h name s' y hs' hy
      rw [property_strip_named hx] at hs'
      obtain ⟨s, hs, rfl⟩ := Option.map_eq_some_iff.mp hs'
      exact (hacc s y (tame_property hx hs).2).mpr (h name s y hs hy)
  | additionalProperties =>
    rw [hof] at hx
    dsimp only at hx ⊢
    have hprops : kws.contains propertiesKey = false :=
      combining_kept hkws (by rw [SchemaKeyword.of_properties]; decide)
    -- the properties of the stripped schema are those of the full one
    have hsame : ∀ name, (((strip kws kvs).fieldValue propertiesKey).bind
        (JsonTerm.property name) = none ↔
          (kvs.fieldValue propertiesKey).bind (JsonTerm.property name) = none) := by
      intro name
      rw [fieldValue_strip, hprops, if_neg Bool.false_ne_true]
      cases hp : kvs.fieldValue propertiesKey with
      | none => exact Iff.rfl
      | some props =>
        have hnamed := tame_keyword hkvs hprops hp
        rw [TameKeyword, SchemaKeyword.of_properties] at hnamed
        show (strip kws props).property name = none ↔ props.property name = none
        rw [property_strip_named hnamed, Option.map_eq_none_iff]
    constructor
    · intro h name y hy hnone
      exact (hacc x y hx).mp (h name y hy ((hsame name).mpr hnone))
    · intro h name y hy hnone
      exact (hacc x y hx).mpr (h name y hy ((hsame name).mp hnone))
  | items =>
    rw [hof] at hx
    dsimp only at hx ⊢
    exact forall₂_congr fun y _ => hacc x y hx
  | defs => exact Iff.rfl
  | assertion =>
    rw [hof] at hx
    dsimp only at hx ⊢
    rw [hx]
    constructor
    · exact Or.inr
    · rintro (hcut | h)
      · rw [hkey] at hcut
        cases hcut
      · exact h

/-- A stripped keyword is an assertion that is ignored. -/
theorem keywordHolds_ignored (hkws : ∀ key ∈ kws, SchemaKeyword.of key = .assertion)
    {accepts : JsonTerm φ .value → JsonTerm φ .value → Prop} {kvs : JsonTerm φ .fields}
    {key : List Char} (hkey : kws.contains key = true) (x doc : JsonTerm φ .value) :
    KeywordHolds (ignoring kws asserts) root accepts kvs key x doc := by
  rw [KeywordHolds, hkws key (List.contains_iff_mem.mp hkey)]
  exact .inl hkey

theorem acceptsWithin_strip (hkws : ∀ key ∈ kws, SchemaKeyword.of key = .assertion)
    (hroot : tame kws root .schema = true) (n : Nat) :
    ∀ s doc, tame kws s .schema = true →
      (AcceptsWithin asserts (strip kws root) n (strip kws s) doc ↔
        AcceptsWithin (ignoring kws asserts) root n s doc) := by
  induction n with
  | zero => exact fun _ _ _ => Iff.rfl
  | succ n ih =>
    intro s doc hs
    cases s with
    | obj kvs =>
      rw [tame_obj] at hs
      constructor
      · intro h key x hx
        cases hcut : kws.contains key with
        | true => exact keywordHolds_ignored hkws hcut x doc
        | false =>
          have hx' : (strip kws kvs).fieldValue key = some (strip kws x) := by
            rw [fieldValue_strip, hcut, if_neg Bool.false_ne_true, hx]
            rfl
          have hkeyword := tame_keyword hs hcut hx
          exact (keywordHolds_strip hkws hroot ih hs hcut hkeyword doc).mp (h key _ hx')
      · intro h key x' hx'
        rw [fieldValue_strip] at hx'
        cases hcut : kws.contains key with
        | true =>
          rw [hcut, if_pos rfl] at hx'
          cases hx'
        | false =>
          rw [hcut, if_neg Bool.false_ne_true] at hx'
          obtain ⟨x, hx, rfl⟩ := Option.map_eq_some_iff.mp hx'
          have hkeyword := tame_keyword hs hcut hx
          exact (keywordHolds_strip hkws hroot ih hs hcut hkeyword doc).mpr (h key x hx)
    | null | bool _ | int _ | number _ | str _ | arr _ => exact Iff.rfl

theorem accepts_strip (hkws : ∀ key ∈ kws, SchemaKeyword.of key = .assertion)
    {schema : JsonTerm φ .value} (hschema : tame kws schema .schema = true)
    (doc : JsonTerm φ .value) :
    Accepts asserts (strip kws schema) doc ↔ Accepts (ignoring kws asserts) schema doc :=
  exists_congr fun n => acceptsWithin_strip hkws hschema n schema doc hschema

end Meaning

/-! ## The profiles -/

theorem SchemaProfile.keywords_assert (profile : SchemaProfile) :
    ∀ key ∈ profile.keywords, SchemaKeyword.of key = .assertion := by
  cases profile <;> decide

/-- **Stripping only relaxes**: whatever the assertions say, the schema that is sent accepts just
the documents the full schema accepts when the assertions of the stripped keywords are ignored. No
document of the full schema is lost, and stripping again changes nothing. -/
theorem schema_profile_relaxes (profile : SchemaProfile) {schema : JsonTerm φ .value}
    (hschema : tame profile.keywords schema .schema = true) (asserts : Assertions φ) :
    (∀ doc, Accepts asserts (stripSchemaKeywords schema profile.keywords) doc ↔
      Accepts (ignoring profile.keywords asserts) schema doc) ∧
    (∀ doc, Accepts asserts schema doc →
      Accepts asserts (stripSchemaKeywords schema profile.keywords) doc) ∧
    stripSchemaKeywords (stripSchemaKeywords schema profile.keywords) profile.keywords =
      stripSchemaKeywords schema profile.keywords := by
  have hsame : ∀ doc, Accepts asserts (strip profile.keywords schema) doc ↔
      Accepts (ignoring profile.keywords asserts) schema doc :=
    fun doc => accepts_strip profile.keywords_assert hschema doc
  simp only [stripSchemaKeywords_eq]
  refine ⟨hsame, fun doc hdoc => ?_, strip_idempotent _ schema⟩
  exact (hsame doc).mpr (hdoc.weaken fun _ _ _ h => .inr h)

/-- The schema of an object with one identifier, by reference. -/
def identifierSchema : JsonTerm Empty .value :=
  .obj (.field defsKey (.obj (.field "Id".toList
      (.obj (.field "type".toList (.str "string".toList)
        (.field "format".toList (.str "uuid".toList) .noField))) .noField))
    (.field propertiesKey (.obj (.field "id".toList
      (.obj (.field "$ref".toList (.str "#/$defs/Id".toList) .noField)) .noField)) .noField))

/-- `{"id": "x"}`. -/
def identifierDocument : JsonTerm Empty .value :=
  .obj (.field "id".toList (.str "x".toList) .noField)

/-- No format is met. -/
def refuseFormat : Assertions Empty := fun key _ _ => key ≠ "format".toList

theorem refuseFormat_ignored (key : List Char) (x doc : JsonTerm Empty .value) :
    ignoring halogenUnsupportedKeywords refuseFormat key x doc := by
  by_cases h : key = "format".toList
  · left
    rw [h]
    decide
  · exact .inr h

theorem identifierSchema_accepts {asserts : Assertions Empty}
    (hall : ∀ key x doc, asserts key x doc) :
    Accepts asserts identifierSchema identifierDocument := by
  refine ⟨3, fun key x hx => ?_⟩
  simp only [JsonTerm.fieldValue] at hx
  split at hx
  · rename_i hkey
    rw [KeywordHolds, ← hkey, SchemaKeyword.of_defs]
    trivial
  split at hx
  · rename_i hkey
    cases hx
    rw [KeywordHolds, ← hkey, SchemaKeyword.of_properties]
    intro name s y hs _
    simp only [JsonTerm.property, JsonTerm.fieldValue] at hs
    split at hs
    · cases hs
      intro key x hx
      simp only [JsonTerm.fieldValue] at hx
      split at hx
      · rename_i hkey
        cases hx
        subst hkey
        refine ⟨_, rfl, fun key x hx => ?_⟩
        change (if "type".toList = key then _ else if "format".toList = key then _ else none) =
          some x at hx
        split at hx
        · rename_i hkey
          subst hkey
          exact hall _ _ _
        split at hx
        · rename_i hkey
          subst hkey
          exact hall _ _ _
        · cases hx
      · cases hx
    · cases hs
  · cases hx

theorem schema_profile_relaxes_identifier :
    tame halogenUnsupportedKeywords identifierSchema .schema = true ∧
      Accepts refuseFormat (stripSchemaKeywords identifierSchema halogenUnsupportedKeywords)
        identifierDocument := by
  have htame : tame halogenUnsupportedKeywords identifierSchema .schema = true := by decide
  exact ⟨htame, ((schema_profile_relaxes .halogen htame refuseFormat).1 identifierDocument).mpr
    (identifierSchema_accepts refuseFormat_ignored)⟩

end Noezema.Gateway
