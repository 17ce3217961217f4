import Noezema.Lib.JsonOrder

/-! # Payloads

The JSON values the host writes and hashes. `canonical_json_bytes` is one text for each value,
whatever the order its dictionaries were filled in; `mask_nul_deep` takes the NUL symbols out
before a payload is stored, and the layers that mask it again find nothing to do.

A floating-point number is an element of `φ` with the text of `repr`. A lone surrogate, which
the encoding refuses, is no `Char`.
-/

namespace Noezema.Domain

open Noezema.Lib

variable {φ : Type}

/-! ## Canonical bytes -/

/-- A value of dictionaries and lists: a dictionary has no key twice. -/
structure Payload (φ : Type) where
  tree : JsonTerm φ .value
  distinct : tree.Distinct

/-- `canonical_json_bytes`. -/
def canonicalJsonBytes (p : NumberText φ) (v : Payload φ) : ByteArray :=
  (String.ofList (v.tree.sortKeys.text p)).toByteArray

/-- **The canonical bytes are those of the value**: two payloads have the same bytes if and only
if they differ in nothing but the order of the fields of their dictionaries. -/
theorem canonical_json_injective (p : NumberText φ) (v w : Payload φ) :
    canonicalJsonBytes p v = canonicalJsonBytes p w ↔ v.tree.Reorders w.tree := by
  rw [← JsonTerm.sortKeys_eq_iff v.distinct]
  constructor
  · intro h
    exact JsonTerm.text_inj p (String.ofList_injective (String.toByteArray_inj.mp h))
  · intro h
    rw [canonicalJsonBytes, canonicalJsonBytes, h]

/-- The floats half-way between two integers, `repr` of which has no exponent: the sign, the
integer below the absolute value, and a fraction of one digit. -/
def halfText (x : Bool × Fin (10 ^ 15)) : List Char :=
  (if x.1 then ['-'] else []) ++ (Nat.toDigits 10 x.2 ++ ['.', '5'])

theorem halfText_cases {x : Bool × Fin (10 ^ 15)} {c : Char} (h : c ∈ halfText x) :
    c = '-' ∨ c.isDigit = true ∨ c = '.' := by
  simp only [halfText, List.mem_append, List.mem_cons, List.not_mem_nil, or_false] at h
  rcases h with h | h | rfl | rfl
  · split at h
    · exact .inl (List.mem_singleton.mp h)
    · cases h
  · exact .inr (.inl (isDigit_of_mem_digits h))
  · exact .inr (.inr rfl)
  · exact .inr (.inl rfl)

theorem minus_notMem_digits (m : Nat) : '-' ∉ Nat.toDigits 10 m ++ ['.', '5'] := by
  intro h
  rcases List.mem_append.mp h with h | h
  · exact absurd (isDigit_of_mem_digits h) (by decide)
  · exact absurd h (by decide)

theorem halfText_inj (x y : Bool × Fin (10 ^ 15)) (h : halfText x = halfText y) : x = y := by
  obtain ⟨negative, m⟩ := x
  obtain ⟨negative', m'⟩ := y
  have hsame : ∀ {l l' : List Char}, l ++ ['.', '5'] = l' ++ ['.', '5'] → l = l' :=
    fun heq => List.append_cancel_right heq
  cases negative <;> cases negative' <;> simp only [halfText] at h
  · exact Prod.ext rfl (Fin.ext (toDigits_inj (hsame h)))
  · exact absurd (h ▸ List.mem_cons_self) (minus_notMem_digits m)
  · exact absurd (h ▸ List.mem_cons_self) (minus_notMem_digits m')
  · exact Prod.ext rfl (Fin.ext (toDigits_inj (hsame (List.cons.inj h).2)))

theorem halfText_start (x : Bool × Fin (10 ^ 15)) :
    ∃ c rest, halfText x = c :: rest ∧ isNumberStart c = true := by
  unfold halfText
  split
  · exact ⟨'-', _, rfl, rfl⟩
  · cases h : Nat.toDigits 10 x.2 with
    | nil => exact absurd h Nat.toDigits_ne_nil
    | cons c rest =>
      have hdigit := isDigit_of_mem_digits (h ▸ List.mem_cons_self)
      exact ⟨c, _, rfl, by simp [isNumberStart, hdigit]⟩

theorem isDelimiter_halfText (x : Bool × Fin (10 ^ 15)) (c : Char) (h : c ∈ halfText x) :
    isDelimiter c = false := by
  rcases halfText_cases h with rfl | hdigit | rfl
  · rfl
  · exact isDelimiter_of_isDigit hdigit
  · rfl

/-- No integer has a point. -/
theorem halfText_ne_intText (x : Bool × Fin (10 ^ 15)) (n : Int) : halfText x ≠ intText n := by
  intro h
  have hpoint : '.' ∈ intText n := by
    rw [← h]
    simp [halfText]
  unfold intText at hpoint
  split at hpoint
  · rcases List.mem_cons.mp hpoint with heq | hdigit
    · exact absurd heq (by decide)
    · exact absurd (isDigit_of_mem_digits hdigit) (by decide)
  · exact absurd (isDigit_of_mem_digits hpoint) (by decide)

def halves : NumberText (Bool × Fin (10 ^ 15)) where
  text := halfText
  text_inj := halfText_inj
  start := halfText_start
  chars := isDelimiter_halfText
  not_int := halfText_ne_intText

/-- A field of numbers and a field of ids, in one order and in the other. -/
def measured (x : Bool × Fin (10 ^ 15)) : JsonTerm (Bool × Fin (10 ^ 15)) .value :=
  .obj (.field ['v'] (.number x) (.field ['i', 'd'] (.arr (.item (.int 1) .noItem)) .noField))

def measuredLater (x : Bool × Fin (10 ^ 15)) : JsonTerm (Bool × Fin (10 ^ 15)) .value :=
  .obj (.field ['i', 'd'] (.arr (.item (.int 1) .noItem)) (.field ['v'] (.number x) .noField))

theorem distinct_measured (x : Bool × Fin (10 ^ 15)) : (measured x).Distinct := by
  simp [measured, JsonTerm.Distinct, JsonTerm.keys]

theorem distinct_measuredLater (x : Bool × Fin (10 ^ 15)) : (measuredLater x).Distinct := by
  simp [measuredLater, JsonTerm.Distinct, JsonTerm.keys]

/-- `12.5` in either order of the fields, and `-12.5`. -/
theorem canonical_json_injective_measured :
    canonicalJsonBytes halves ⟨measured (false, 12), distinct_measured _⟩ =
        canonicalJsonBytes halves ⟨measuredLater (false, 12), distinct_measuredLater _⟩ ∧
      canonicalJsonBytes halves ⟨measured (false, 12), distinct_measured _⟩ ≠
        canonicalJsonBytes halves ⟨measuredLater (true, 12), distinct_measuredLater _⟩ := by
  constructor
  · exact (canonical_json_injective halves _ _).mpr (.obj (.swap _ _ _))
  · intro h
    have hsorted := ((canonical_json_injective halves _ _).mp h).sortKeys_eq
      (distinct_measured (false, 12))
    have hlater : ¬ ['v'] < ['i', 'd'] := by decide
    have hearlier : ['i', 'd'] < ['v'] := by decide
    simp [measured, measuredLater, JsonTerm.sortKeys, JsonTerm.insertField, hlater,
      hearlier] at hsorted

/-! ## NUL symbols -/

def nul : Char := Char.ofNat 0

/-- `NUL_MARKER`. -/
def nulMarker : List Char := ['\\', 'x', '0', '0']

/-- `mask_nul`. -/
def maskNul (text : List Char) : List Char :=
  text.flatMap fun c => if c = nul then nulMarker else [c]

/-- The assignment of a key of a dictionary. -/
def putField (key : List Char) (x : JsonTerm φ .value) :
    ∀ {i : JsonKind}, JsonTerm φ i → JsonTerm φ i
  | _, .noField => .field key x .noField
  | _, .field k y rest =>
    if k = key then .field k x rest else .field k y (putField key x rest)
  | _, t => t

/-- The value masked; the fields of a dictionary are assigned one by one to `done`, so that two
keys that are masked alike become one. -/
def maskWith : ∀ {i : JsonKind}, JsonTerm φ i → JsonTerm φ .fields → JsonTerm φ i
  | _, .null, _ => .null
  | _, .bool b, _ => .bool b
  | _, .int n, _ => .int n
  | _, .number x, _ => .number x
  | _, .str s, _ => .str (maskNul s)
  | _, .arr xs, _ => .arr (maskWith xs .noField)
  | _, .obj kvs, _ => .obj (maskWith kvs .noField)
  | _, .noItem, _ => .noItem
  | _, .item x xs, _ => .item (maskWith x .noField) (maskWith xs .noField)
  | _, .noField, done => done
  | _, .field key x rest, done =>
    maskWith rest (putField (maskNul key) (maskWith x .noField) done)

/-- No string and no key has a NUL. -/
def NulFree : ∀ {i : JsonKind}, JsonTerm φ i → Prop
  | _, .str s => nul ∉ s
  | _, .arr xs => NulFree xs
  | _, .obj kvs => NulFree kvs
  | _, .item x xs => NulFree x ∧ NulFree xs
  | _, .field key x rest => nul ∉ key ∧ NulFree x ∧ NulFree rest
  | _, _ => True

theorem nul_notMem_maskNul (text : List Char) : nul ∉ maskNul text := by
  intro h
  obtain ⟨c, -, hc⟩ := List.mem_flatMap.mp h
  split at hc
  · revert hc
    decide
  · rename_i hne
    exact hne (List.mem_singleton.mp hc).symm

theorem maskNul_eq_self {text : List Char} (h : nul ∉ text) : maskNul text = text := by
  induction text with
  | nil => rfl
  | cons c text ih =>
    have hc : c ≠ nul := fun heq => h (heq ▸ List.mem_cons_self)
    rw [maskNul, List.flatMap_cons, if_neg hc, List.singleton_append]
    exact congrArg (c :: ·) (ih fun hmem => h (List.mem_cons_of_mem c hmem))

/-! ## The keys of a dictionary that is being filled -/

theorem keys_putField (key : List Char) (x : JsonTerm φ .value) {i : JsonKind}
    (t : JsonTerm φ i) (hi : i = .fields) (l : List Char) :
    l ∈ (putField key x t).keys ↔ l = key ∨ l ∈ t.keys := by
  induction t with
  | noField => simp [putField, JsonTerm.keys]
  | field k y rest _ ih =>
    by_cases hk : k = key
    · subst hk
      simp [putField, JsonTerm.keys]
    · simp only [putField, if_neg hk, JsonTerm.keys, List.mem_cons, ih rfl]
      exact or_left_comm
  | null | bool _ | int _ | number _ | str _ | arr _ _ | obj _ _ | noItem | item _ _ _ _ =>
    cases hi

theorem distinct_putField {key : List Char} {x : JsonTerm φ .value} (hx : x.Distinct)
    {i : JsonKind} {t : JsonTerm φ i} (ht : t.Distinct) : (putField key x t).Distinct := by
  induction t with
  | noField => exact ⟨List.not_mem_nil, hx, trivial⟩
  | field k y rest _ ih =>
    obtain ⟨hk, hy, hrest⟩ := ht
    by_cases heq : k = key
    · simp only [putField, if_pos heq]
      exact ⟨hk, hx, hrest⟩
    · simp only [putField, if_neg heq]
      refine ⟨fun hmem => ?_, hy, ih hrest⟩
      rcases (keys_putField key x rest rfl k).mp hmem with h | h
      · exact heq h
      · exact hk h
  | null | bool _ | int _ | number _ | str _ | arr _ _ | obj _ _ | noItem | item _ _ _ _ =>
    exact ht

theorem nulFree_putField {key : List Char} {x : JsonTerm φ .value} (hkey : nul ∉ key)
    (hx : NulFree x) {i : JsonKind} {t : JsonTerm φ i} (ht : NulFree t) :
    NulFree (putField key x t) := by
  induction t with
  | noField => exact ⟨hkey, hx, trivial⟩
  | field k y rest _ ih =>
    obtain ⟨hk, hy, hrest⟩ := ht
    by_cases heq : k = key
    · simp only [putField, if_pos heq]
      exact ⟨hk, hx, hrest⟩
    · simp only [putField, if_neg heq]
      exact ⟨hk, hy, ih hrest⟩
  | null | bool _ | int _ | number _ | str _ | arr _ _ | obj _ _ | noItem | item _ _ _ _ =>
    exact ht

/-! ## Masking -/

theorem distinct_maskWith {i : JsonKind} (t : JsonTerm φ i) :
    ∀ done : JsonTerm φ .fields, done.Distinct → (maskWith t done).Distinct := by
  induction t with
  | null | bool _ | int _ | number _ | str _ | noItem => exact fun _ _ => trivial
  | arr xs ih => exact fun _ _ => ih .noField trivial
  | obj kvs ih => exact fun _ _ => ih .noField trivial
  | item x xs ih ih' =>
    exact fun _ _ => ⟨ih .noField trivial, ih' .noField trivial⟩
  | noField => exact fun _ hd => hd
  | field key x rest ih ih' =>
    exact fun _ hd => ih' _ (distinct_putField (ih .noField trivial) hd)

theorem nulFree_maskWith {i : JsonKind} (t : JsonTerm φ i) :
    ∀ done : JsonTerm φ .fields, NulFree done → NulFree (maskWith t done) := by
  induction t with
  | null | bool _ | int _ | number _ | noItem => exact fun _ _ => trivial
  | str s => exact fun _ _ => nul_notMem_maskNul s
  | arr xs ih => exact fun _ _ => ih .noField trivial
  | obj kvs ih => exact fun _ _ => ih .noField trivial
  | item x xs ih ih' =>
    exact fun _ _ => ⟨ih .noField trivial, ih' .noField trivial⟩
  | noField => exact fun _ hd => hd
  | field key x rest ih ih' =>
    exact fun _ hd => ih' _ (nulFree_putField (nul_notMem_maskNul key)
      (ih .noField trivial) hd)

/-- The fields of one dictionary behind those of another. -/
def appendFields : ∀ {i : JsonKind}, JsonTerm φ i → JsonTerm φ .fields → JsonTerm φ .fields
  | _, .field key x rest, kvs => .field key x (appendFields rest kvs)
  | _, _, kvs => kvs

/-- A key that is new is put at the end. -/
theorem putField_of_notMem {key : List Char} (x : JsonTerm φ .value) {i : JsonKind}
    (t : JsonTerm φ i) (hi : i = .fields) (h : key ∉ t.keys) :
    ∀ kvs, appendFields (putField key x t) kvs = appendFields t (.field key x kvs) := by
  induction t with
  | noField => exact fun _ => rfl
  | field k y rest _ ih =>
    intro kvs
    simp only [JsonTerm.keys, List.mem_cons, not_or] at h
    simp only [putField, if_neg (Ne.symm h.1), appendFields, ih rfl h.2 kvs]
  | null | bool _ | int _ | number _ | str _ | arr _ _ | obj _ _ | noItem | item _ _ _ _ =>
    cases hi

theorem appendFields_noField (kvs : JsonTerm φ .fields) :
    appendFields kvs .noField = kvs := by
  cases kvs with
  | noField => rfl
  | field key x rest => exact congrArg (JsonTerm.field key x) (appendFields_noField rest)

/-- The value, or its fields behind those of `done`. -/
def behind : ∀ {i : JsonKind}, JsonTerm φ i → JsonTerm φ .fields → JsonTerm φ i
  | _, .noField, done => done
  | _, .field key x rest, done => appendFields done (.field key x rest)
  | _, t, _ => t

theorem behind_value (x : JsonTerm φ .value) (done : JsonTerm φ .fields) :
    behind x done = x := by
  cases x <;> rfl

theorem behind_fields (rest done : JsonTerm φ .fields) :
    behind rest done = appendFields done rest := by
  cases rest with
  | noField => exact (appendFields_noField done).symm
  | field key x rest => rfl

/-- A value without NUL is not changed. -/
theorem maskWith_of_nulFree {i : JsonKind} (t : JsonTerm φ i) :
    ∀ done : JsonTerm φ .fields, NulFree t → t.Distinct →
      (∀ k ∈ t.keys, k ∉ done.keys) → maskWith t done = behind t done := by
  induction t with
  | null | bool _ | int _ | number _ | noItem | noField => exact fun _ _ _ _ => rfl
  | str s => exact fun _ hs _ _ => congrArg JsonTerm.str (maskNul_eq_self hs)
  | arr xs ih =>
    intro done hs hd _
    have hxs := ih .noField hs hd (fun _ _ => List.not_mem_nil)
    refine congrArg JsonTerm.arr (hxs.trans ?_)
    cases xs <;> rfl
  | obj kvs ih =>
    intro done hs hd _
    have hkvs := ih .noField hs hd (fun _ _ => List.not_mem_nil)
    refine congrArg JsonTerm.obj (hkvs.trans ?_)
    rw [behind_fields]
    rfl
  | item x xs ih ih' =>
    intro done hs hd _
    have hx := ih .noField hs.1 hd.1 (fun _ _ => List.not_mem_nil)
    have hxs := ih' .noField hs.2 hd.2 (fun _ _ => List.not_mem_nil)
    refine congrArg₂ JsonTerm.item (hx.trans (behind_value x _)) (hxs.trans ?_)
    cases xs <;> rfl
  | field key x rest ih ih' =>
    intro done hs hd hnew
    have hx := (ih .noField hs.2.1 hd.2.1
      (fun _ _ => List.not_mem_nil)).trans (behind_value x _)
    have hkey : key ∉ done.keys := hnew key List.mem_cons_self
    -- the rest meets a dictionary that has this key now
    have hrest := ih' (putField key x done) hs.2.2 hd.2.2 fun k hk hmem => by
      rcases (keys_putField key x done rfl k).mp hmem with rfl | hold
      · exact hd.1 hk
      · exact hnew k (List.mem_cons_of_mem key hk) hold
    rw [maskWith, maskNul_eq_self hs.1, hx, hrest, behind_fields,
      putField_of_notMem x done rfl hkey]
    rfl

/-- `mask_nul_deep`. -/
def maskNulDeep (v : Payload φ) : Payload φ :=
  ⟨maskWith v.tree .noField, distinct_maskWith v.tree .noField trivial⟩

theorem mask_nul_deep_clean (v : Payload φ) : NulFree (maskNulDeep v).tree :=
  nulFree_maskWith v.tree .noField trivial

theorem maskNulDeep_eq_self {v : Payload φ} (h : NulFree v.tree) : maskNulDeep v = v := by
  have hsame : maskWith v.tree .noField = v.tree :=
    (maskWith_of_nulFree v.tree _ h v.distinct fun _ _ => List.not_mem_nil).trans
      (behind_value v.tree _)
  cases v
  simp only [maskNulDeep, hsame]

/-- **Masking is done once**: no NUL is left in any string or key at any depth, a layer that
masks again changes nothing, and only payloads with a NUL are changed at all. -/
theorem mask_nul_deep_stable (v : Payload φ) :
    NulFree (maskNulDeep v).tree ∧ maskNulDeep (maskNulDeep v) = maskNulDeep v ∧
      (maskNulDeep v = v ↔ NulFree v.tree) := by
  have hclean := mask_nul_deep_clean v
  exact ⟨hclean, maskNulDeep_eq_self hclean, fun h => h ▸ hclean, maskNulDeep_eq_self⟩

end Noezema.Domain
