import Noezema.Lib.JsonOrder

/-! # What a JSON schema accepts

A schema is a JSON value. Its keywords either combine schemas, by reference, by choice or on the
parts of a document, or assert something of the document; what an assertion says is a parameter.
A derivation is bounded, so that a schema that refers to itself without end accepts nothing.

The keywords are those a schema is combined with where none is negated: `not`, `if` and `oneOf`
are assertions here.
-/

namespace Noezema.Lib

namespace JsonTerm

variable {φ : Type}

/-! ## Parts of a value -/

/-- The property of an object. -/
def property (name : List Char) : JsonTerm φ .value → Option (JsonTerm φ .value)
  | .obj kvs => kvs.fieldValue name
  | _ => none

/-- The elements of an array. -/
def elements : ∀ {i : JsonKind}, JsonTerm φ i → List (JsonTerm φ .value)
  | _, .arr xs => xs.elements
  | _, .item x xs => x :: xs.elements
  | _, _ => []

end JsonTerm

/-! ## Keywords -/

inductive SchemaKeyword where
  | ref
  | anyOf
  | allOf
  | properties
  | additionalProperties
  | items
  | defs
  | assertion
deriving DecidableEq, Repr

def propertiesKey : List Char := "properties".toList

def defsKey : List Char := "$defs".toList

def SchemaKeyword.of (key : List Char) : SchemaKeyword :=
  if key = "$ref".toList then .ref
  else if key = "anyOf".toList then .anyOf
  else if key = "allOf".toList then .allOf
  else if key = propertiesKey then .properties
  else if key = "additionalProperties".toList then .additionalProperties
  else if key = "items".toList then .items
  else if key = defsKey then .defs
  else .assertion

theorem SchemaKeyword.of_properties : SchemaKeyword.of propertiesKey = .properties := by decide

theorem SchemaKeyword.of_defs : SchemaKeyword.of defsKey = .defs := by decide

/-- `#/$defs/`. -/
def defsPrefix : List Char := "#/$defs/".toList

section Meaning

variable {φ : Type}

/-- The definition a reference names. -/
def refTarget (root : JsonTerm φ .value) : JsonTerm φ .value → Option (JsonTerm φ .value)
  | .str s =>
    if defsPrefix <+: s then
      (root.property defsKey).bind (JsonTerm.property (s.drop defsPrefix.length))
    else none
  | _ => none

/-- What the assertions say: of a keyword, its value and the document. -/
abbrev Assertions (φ : Type) := List Char → JsonTerm φ .value → JsonTerm φ .value → Prop

/-- What a keyword of the schema `kvs` asks of a document. -/
def KeywordHolds (asserts : Assertions φ) (root : JsonTerm φ .value)
    (accepts : JsonTerm φ .value → JsonTerm φ .value → Prop) (kvs : JsonTerm φ .fields)
    (key : List Char) (x doc : JsonTerm φ .value) : Prop :=
  match SchemaKeyword.of key with
  | .ref => ∃ s, refTarget root x = some s ∧ accepts s doc
  | .anyOf => ∃ s ∈ x.elements, accepts s doc
  | .allOf => ∀ s ∈ x.elements, accepts s doc
  | .properties => ∀ name s y, x.property name = some s → doc.property name = some y → accepts s y
  | .additionalProperties => ∀ name y, doc.property name = some y →
      (kvs.fieldValue propertiesKey).bind (JsonTerm.property name) = none → accepts x y
  | .items => ∀ y ∈ doc.elements, accepts x y
  | .defs => True
  | .assertion => asserts key x doc

/-- A document is accepted by a derivation of a bounded depth. -/
def AcceptsWithin (asserts : Assertions φ) (root : JsonTerm φ .value) :
    Nat → JsonTerm φ .value → JsonTerm φ .value → Prop
  | 0, _, _ => False
  | n + 1, s, doc =>
    match s with
    | .bool b => b = true
    | .obj kvs => ∀ key x, kvs.fieldValue key = some x →
        KeywordHolds asserts root (AcceptsWithin asserts root n) kvs key x doc
    | _ => False

def Accepts (asserts : Assertions φ) (schema doc : JsonTerm φ .value) : Prop :=
  ∃ n, AcceptsWithin asserts schema n schema doc

variable {asserts weaker : Assertions φ} {root : JsonTerm φ .value}

/-- Assertions that ask less accept more. -/
theorem AcceptsWithin.weaken (hweak : ∀ key x doc, asserts key x doc → weaker key x doc)
    {n : Nat} {s doc : JsonTerm φ .value} (h : AcceptsWithin asserts root n s doc) :
    AcceptsWithin weaker root n s doc := by
  induction n generalizing s doc with
  | zero => exact h
  | succ n ih =>
    cases s with
    | bool b => exact h
    | obj kvs =>
      intro key x hx
      have hkey := h key x hx
      unfold KeywordHolds at hkey ⊢
      split at hkey
      · obtain ⟨s, hs, hacc⟩ := hkey
        exact ⟨s, hs, ih hacc⟩
      · obtain ⟨s, hs, hacc⟩ := hkey
        exact ⟨s, hs, ih hacc⟩
      · exact fun s hs => ih (hkey s hs)
      · exact fun name s y hs hy => ih (hkey name s y hs hy)
      · exact fun name y hy hnone => ih (hkey name y hy hnone)
      · exact fun y hy => ih (hkey y hy)
      · trivial
      · exact hweak key x doc hkey
    | null | int _ | number _ | str _ | arr _ => exact h

theorem Accepts.weaken (hweak : ∀ key x doc, asserts key x doc → weaker key x doc)
    {schema doc : JsonTerm φ .value} (h : Accepts asserts schema doc) :
    Accepts weaker schema doc := by
  obtain ⟨n, hn⟩ := h
  exact ⟨n, hn.weaken hweak⟩

end Meaning

end Noezema.Lib
