import Mathlib.Data.Finmap

/-! # Scopes

JSON values as the store keeps them, the scope dictionaries of claims and
evidence, and the coverage predicate of the rules engine. A scope is a finite map:
like a Python dictionary it has no order.
-/

namespace Noezema.Memory

mutual
/-- A JSON value. -/
inductive Json where
  | null
  | bool (b : Bool)
  | num (n : Int)
  | str (s : String)
  | arr (xs : JsonItems)
  | obj (kvs : JsonFields)
/-- The elements of a JSON array. -/
inductive JsonItems where
  | nil
  | cons (x : Json) (xs : JsonItems)
/-- The fields of a JSON object. -/
inductive JsonFields where
  | nil
  | cons (key : String) (value : Json) (rest : JsonFields)
end

deriving instance DecidableEq for Json, JsonItems, JsonFields

def JsonItems.toList : JsonItems → List Json
  | .nil => []
  | .cons x xs => x :: xs.toList

/-- `value -> key` of an object's fields. -/
def JsonFields.get (key : String) : JsonFields → Option Json
  | .nil => none
  | .cons k v rest => if k = key then some v else rest.get key

/-- `->>`: the text of a scalar. The text of an array or an object is no
identifier, so its readers treat it as missing. -/
def Json.text : Json → Option String
  | .str s => some s
  | .num n => some (toString n)
  | .bool b => some (toString b)
  | .null | .arr _ | .obj _ => none

/-- A scope dictionary. -/
abbrev Scope := Finmap fun _ : String => Json

namespace Scope

/-- `SCOPE_SCHEMA`. -/
def schema : Json := .str "host-scope-v1"

/-- The scope carries the marker of a host-derived one. -/
def isHostDerived (s : Scope) : Bool := s.lookup "scope_schema" = some schema

/-- `merged.setdefault(k, v)` for every item of `s`: the first value stays. -/
def setDefaults (merged s : Scope) : Scope := merged ∪ s

section Coverage

-- `date.fromisoformat` and `datetime.fromisoformat`, as seconds in UTC
variable (parseDay parseTime : String → Option Int)

/-- A parsed non-empty string value. -/
def parseValue (parse : String → Option Int) : Option Json → Option Int
  | some (.str s) => if s = "" then none else parse s
  | _ => none

/-- `_canonical_covers`: every dimension the claim declares is shown by the
evidence. -/
def canonicalCovers (evidence claim : Scope) : Bool :=
  let timely := match parseValue parseDay (claim.lookup "as_of") with
    | none => true
    | some day => match parseValue parseTime (evidence.lookup "as_of") with
      | none => false
      | some at' => day ≤ at'
  let sourced := match claim.lookup "source_domains" with
    | some (.arr domains) =>
      domains.toList = [] || match evidence.lookup "source_domain" with
        | some domain => domain ≠ .null && domain ∈ domains.toList
        | none => false
    | _ => true
  timely && sourced

/-- `legacy_scope_covers`: every claim key is in the evidence scope with an
equal or unset value. -/
def legacyScopeCovers (evidence claim : Scope) : Bool :=
  ∀ key ∈ claim.keys, (claim.lookup key).all fun value =>
    match evidence.lookup key with
    | none => false
    | some shown => value = .null || shown = .null || shown = value

/-- `scope_covers`: the predicate goes by the origin of the claim scope. -/
def scopeCovers (evidence claim : Scope) : Bool :=
  if claim.isHostDerived then canonicalCovers parseDay parseTime evidence claim
  else legacyScopeCovers evidence claim

end Coverage

end Scope

end Noezema.Memory
