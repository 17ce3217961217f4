import Noezema.Lib.JsonText

/-! # The order of keys

An object has no order, its fields as a program holds them have one. Sorting the fields of every
object gives one representative of each value: two values of distinct keys are sorted alike just
when one is the other up to the order of fields (`sortKeys_eq_iff`).
-/

namespace Noezema.Lib

namespace JsonTerm

variable {φ : Type}

/-! ## Sorting -/

/-- A field put before the first greater key. -/
def insertField (key : List Char) (x : JsonTerm φ .value) :
    ∀ {i : JsonKind}, JsonTerm φ i → JsonTerm φ i
  | _, .noField => .field key x .noField
  | _, .field k y rest =>
    if key < k then .field key x (.field k y rest) else .field k y (insertField key x rest)
  | _, t => t

/-- The fields of every object in the order of their keys. -/
def sortKeys : ∀ {i : JsonKind}, JsonTerm φ i → JsonTerm φ i
  | _, .null => .null
  | _, .bool b => .bool b
  | _, .int n => .int n
  | _, .number x => .number x
  | _, .str s => .str s
  | _, .arr xs => .arr xs.sortKeys
  | _, .obj kvs => .obj kvs.sortKeys
  | _, .noItem => .noItem
  | _, .item x xs => .item x.sortKeys xs.sortKeys
  | _, .noField => .noField
  | _, .field key x rest => insertField key x.sortKeys rest.sortKeys

/-! ## Values up to the order of fields -/

/-- One value is the other up to the order of the fields of its objects. -/
inductive Reorders : ∀ {i : JsonKind}, JsonTerm φ i → JsonTerm φ i → Prop where
  | refl {i : JsonKind} (t : JsonTerm φ i) : Reorders t t
  | trans {i : JsonKind} {t u v : JsonTerm φ i} : Reorders t u → Reorders u v → Reorders t v
  | arr {xs ys : JsonTerm φ .items} : Reorders xs ys → Reorders (.arr xs) (.arr ys)
  | obj {xs ys : JsonTerm φ .fields} : Reorders xs ys → Reorders (.obj xs) (.obj ys)
  | item {x y : JsonTerm φ .value} {xs ys : JsonTerm φ .items} :
      Reorders x y → Reorders xs ys → Reorders (.item x xs) (.item y ys)
  | field {key : List Char} {x y : JsonTerm φ .value} {xs ys : JsonTerm φ .fields} :
      Reorders x y → Reorders xs ys → Reorders (.field key x xs) (.field key y ys)
  | swap {k k' : List Char} (x x' : JsonTerm φ .value) (rest : JsonTerm φ .fields) :
      Reorders (.field k x (.field k' x' rest)) (.field k' x' (.field k x rest))

theorem Reorders.symm {i : JsonKind} {t u : JsonTerm φ i} (h : Reorders t u) :
    Reorders u t := by
  induction h with
  | refl t => exact .refl t
  | trans _ _ ih ih' => exact .trans ih' ih
  | arr _ ih => exact .arr ih
  | obj _ ih => exact .obj ih
  | item _ _ ih ih' => exact .item ih ih'
  | field _ _ ih ih' => exact .field ih ih'
  | swap x x' rest => exact .swap x' x rest

theorem reorders_insertField (key : List Char) (x : JsonTerm φ .value)
    (kvs : JsonTerm φ .fields) : Reorders (.field key x kvs) (insertField key x kvs) := by
  cases kvs with
  | noField => exact .refl _
  | field k y rest =>
    simp only [insertField]
    split
    · exact .refl _
    · exact .trans (.swap x y rest) (.field (.refl y) (reorders_insertField key x rest))

/-- Sorting only moves fields. -/
theorem reorders_sortKeys {i : JsonKind} (t : JsonTerm φ i) : Reorders t t.sortKeys := by
  induction t with
  | null | bool _ | int _ | number _ | str _ | noItem | noField => exact .refl _
  | arr xs ih => exact .arr ih
  | obj kvs ih => exact .obj ih
  | item x xs ih ih' => exact .item ih ih'
  | field key x rest ih ih' =>
    exact .trans (.field ih ih') (reorders_insertField key x.sortKeys rest.sortKeys)

/-! ## Distinct keys -/

def keys : ∀ {i : JsonKind}, JsonTerm φ i → List (List Char)
  | _, .field key _ rest => key :: rest.keys
  | _, _ => []

/-- The value of a key among fields. -/
def fieldValue (key : List Char) : ∀ {i : JsonKind}, JsonTerm φ i → Option (JsonTerm φ .value)
  | _, .field k x rest => if k = key then some x else fieldValue key rest
  | _, _ => none

/-- No object has two fields of one key. -/
def Distinct : ∀ {i : JsonKind}, JsonTerm φ i → Prop
  | _, .null | _, .bool _ | _, .int _ | _, .number _ | _, .str _ | _, .noItem | _, .noField => True
  | _, .arr xs => xs.Distinct
  | _, .obj kvs => kvs.Distinct
  | _, .item x xs => x.Distinct ∧ xs.Distinct
  | _, .field key x rest => key ∉ rest.keys ∧ x.Distinct ∧ rest.Distinct

/-- Two fields of different keys may be put in either order. -/
theorem insertField_comm {k k' : List Char} (hne : k ≠ k') (x x' : JsonTerm φ .value)
    {i : JsonKind} (t : JsonTerm φ i) :
    insertField k x (insertField k' x' t) = insertField k' x' (insertField k x t) := by
  induction t with
  | null | bool _ | int _ | number _ | str _ | arr _ _ | obj _ _ | noItem | item _ _ _ _ => rfl
  | noField =>
    rcases lt_or_gt_of_ne hne with hlt | hlt
    · simp only [insertField, if_pos hlt, if_neg hlt.asymm]
    · simp only [insertField, if_pos hlt, if_neg hlt.asymm]
  | field l y rest _ ih =>
    by_cases h : k < l
    · by_cases h' : k' < l
      · rcases lt_or_gt_of_ne hne with hlt | hlt
        · simp only [insertField, if_pos h, if_pos h', if_pos hlt, if_neg hlt.asymm]
        · simp only [insertField, if_pos h, if_pos h', if_pos hlt, if_neg hlt.asymm]
      · have hlt : k < k' := h.trans_le (not_lt.mp h')
        simp only [insertField, if_pos h, if_neg h', if_neg hlt.asymm]
    · by_cases h' : k' < l
      · have hlt : k' < k := h'.trans_le (not_lt.mp h)
        simp only [insertField, if_neg h, if_pos h', if_neg hlt.asymm]
      · simp only [insertField, if_neg h, if_neg h', ih]

theorem Reorders.mem_keys {i : JsonKind} {t u : JsonTerm φ i} (h : Reorders t u)
    (key : List Char) : key ∈ t.keys ↔ key ∈ u.keys := by
  induction h with
  | refl t => exact Iff.rfl
  | trans _ _ ih ih' => exact ih.trans ih'
  | arr _ _ | obj _ _ | item _ _ _ _ => exact Iff.rfl
  | field _ _ _ ih => simp [keys, ih]
  | swap x x' rest => simp [keys, or_left_comm]

/-- What distinct keys a value has does not depend on the order. -/
theorem Reorders.distinct {i : JsonKind} {t u : JsonTerm φ i} (h : Reorders t u) :
    t.Distinct → u.Distinct := by
  induction h with
  | refl t => exact id
  | trans _ _ ih ih' => exact ih' ∘ ih
  | arr _ ih => exact ih
  | obj _ ih => exact ih
  | item _ _ ih ih' => exact fun hd => ⟨ih hd.1, ih' hd.2⟩
  | field _ hrest ih ih' =>
    exact fun hd => ⟨fun hmem => hd.1 ((hrest.mem_keys _).mpr hmem), ih hd.2.1, ih' hd.2.2⟩
  | swap x x' rest =>
    intro hd
    obtain ⟨hk, hx, hk', hx', hrest⟩ := hd
    simp only [keys, List.mem_cons, not_or] at hk
    refine ⟨?_, hx', hk.2, hx, hrest⟩
    simp only [keys, List.mem_cons, not_or]
    exact ⟨fun heq => hk.1 heq.symm, hk'⟩

theorem Reorders.sortKeys_eq {i : JsonKind} {t u : JsonTerm φ i} (h : Reorders t u) :
    t.Distinct → t.sortKeys = u.sortKeys := by
  induction h with
  | refl t => exact fun _ => rfl
  | trans h _ ih ih' => exact fun hd => (ih hd).trans (ih' (h.distinct hd))
  | arr _ ih => exact fun hd => congrArg JsonTerm.arr (ih hd)
  | obj _ ih => exact fun hd => congrArg JsonTerm.obj (ih hd)
  | item _ _ ih ih' => exact fun hd => congrArg₂ JsonTerm.item (ih hd.1) (ih' hd.2)
  | field _ _ ih ih' => exact fun hd => by simp only [sortKeys, ih hd.2.1, ih' hd.2.2]
  | swap x x' rest =>
    intro hd
    refine insertField_comm (fun heq => hd.1 ?_) x.sortKeys x'.sortKeys rest.sortKeys
    rw [heq]
    exact List.mem_cons_self

/-- **Sorting decides equality up to the order of fields.** -/
theorem sortKeys_eq_iff {i : JsonKind} {t u : JsonTerm φ i} (hd : t.Distinct) :
    t.sortKeys = u.sortKeys ↔ Reorders t u := by
  constructor
  · intro h
    exact .trans (reorders_sortKeys t) (h ▸ (reorders_sortKeys u).symm)
  · intro h
    exact h.sortKeys_eq hd

end JsonTerm

end Noezema.Lib
