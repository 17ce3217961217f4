import Noezema.Memory.Scope
import Mathlib.Data.List.Sort

/-! # The scope the host derives

A claim row has no scope. The host derives one from the question of each session that
asserts the claim, and an assessment keeps it. A session whose question names no date must
not erase the date of an existing claim, nor drop a domain it has declared: its scope is
merged with the one of the claim's head.
-/

namespace Noezema.Memory

/-! ## The reference date -/

/-- `ClaimDateAnchor`: the branch that has produced the reference date. -/
inductive ClaimDateAnchor where
  | explicit | relative | none
deriving DecidableEq, Repr

def ClaimDateAnchor.value : ClaimDateAnchor → String
  | .explicit => "explicit"
  | .relative => "relative"
  | .none => "none"

/-- What the host reads in the text of a question: the day it names, whether it speaks of
the present, and the registrable domains of its URLs, each once. Without a question there is
nothing to read. -/
structure QuestionReading where
  day : Option Int
  relative : Bool
  domains : List String
  named : ∀ d ∈ domains, d ≠ ""
  distinct : domains.Nodup

theorem QuestionReading.named_nil : ∀ d ∈ ([] : List String), d ≠ "" := List.forall_mem_nil _

/-- Instants are seconds in UTC. -/
def midnight (day : Int) : Int := day * 86400

/-- `.date()` of an instant. -/
def dateOf (t : Int) : Int := t / 86400

structure ClaimAsOf where
  asOf : Option Int
  anchor : ClaimDateAnchor
deriving DecidableEq

/-- `derive_claim_as_of`. -/
def deriveClaimAsOf (q : QuestionReading) (asOf sessionDate : Option Int) : ClaimAsOf :=
  match q.day with
  | some day => ⟨some (midnight day), .explicit⟩
  | none =>
    match if q.relative then sessionDate else none with
    | some day => ⟨some (midnight day), .relative⟩
    | none => ⟨asOf, .none⟩

/-- The question carries no date of its own. -/
def QuestionReading.Dateless (q : QuestionReading) (sessionDate : Option Int) : Prop :=
  q.day = none ∧ (q.relative → sessionDate = none)

theorem deriveClaimAsOf_dateless {q : QuestionReading} {sessionDate : Option Int}
    (hq : q.Dateless sessionDate) (asOf : Option Int) :
    deriveClaimAsOf q asOf sessionDate = ⟨asOf, .none⟩ := by
  obtain ⟨hday, hrelative⟩ := hq
  unfold deriveClaimAsOf
  rw [hday]
  by_cases h : q.relative
  · simp [hrelative h]
  · simp [h]

/-! ## The scope of one session -/

def JsonItems.ofList : List Json → JsonItems
  | [] => .nil
  | x :: xs => .cons x (ofList xs)

@[simp] theorem JsonItems.toList_ofList (xs : List Json) : (ofList xs).toList = xs := by
  induction xs with
  | nil => rfl
  | cons x xs ih => simp [ofList, toList, ih]

/-- A list of texts as a JSON array. -/
def Json.texts (xs : List String) : Json := .arr (.ofList (xs.map .str))

/-- `anchor_from_scope`: a scope without a known anchor is read as `relative`. -/
def anchorFromScope (s : Scope) : ClaimDateAnchor :=
  match s.lookup "date_anchor" with
  | some (.str v) =>
    if v = ClaimDateAnchor.explicit.value then .explicit
    else if v = ClaimDateAnchor.none.value then .none
    else .relative
  | _ => .relative

theorem anchorFromScope_value {s : Scope} {a : ClaimDateAnchor}
    (h : s.lookup "date_anchor" = some (.str a.value)) : anchorFromScope s = a := by
  unfold anchorFromScope
  rw [h]
  cases a <;> simp [ClaimDateAnchor.value]

/-- The empty scope is read as that of a claim about the present. -/
theorem anchorFromScope_empty : anchorFromScope ∅ = .relative := by
  simp [anchorFromScope]

section Derivation

-- `date.isoformat`, and `str` of a value that is no text
variable (isoDay : Int → String) (render : Json → String)

/-- The text of a day, `null` without one. -/
def dayJson (asOf : Option Int) : Json :=
  match asOf with
  | some t => .str (isoDay (dateOf t))
  | none => .null

/-- `derive_claim_scope`. -/
def deriveClaimScope (q : QuestionReading) (asOf sessionDate : Option Int) : Scope :=
  let reference := deriveClaimAsOf q asOf sessionDate
  ((((∅ : Scope).insert "scope_schema" Scope.schema).insert "as_of"
    (dayJson isoDay reference.asOf)).insert "source_domains" (.texts q.domains)).insert
      "date_anchor" (.str reference.anchor.value)

/-- `str(d)`. -/
def Json.display : Json → String
  | .str s => s
  | j => render j

/-- The domains a scope declares. The host stores them as an array. -/
def declaredDomains (s : Scope) : List String :=
  match s.lookup "source_domains" with
  | some (.arr xs) => (xs.toList.map (Json.display render)).filter (· ≠ "")
  | _ => []

/-! ## Reverify and reuse -/

/-- `ReverifyReference`. -/
structure ReverifyReference where
  asOf : Option Int
  anchor : ClaimDateAnchor
  carriedExisting : Bool
  proposedConflict : Option Int
  changedFrom : Option Int
deriving DecidableEq

/-- `resolve_reverify_reference`. -/
def resolveReverifyReference (q : QuestionReading)
    (proposalAsOf sessionDate existingAsOf : Option Int) (existingScope : Option Scope) :
    ReverifyReference :=
  let derived := deriveClaimAsOf q proposalAsOf sessionDate
  let carried := anchorFromScope (existingScope.getD ∅)
  if derived.anchor = .explicit ∨ derived.anchor = .relative then
    -- the session carries a date: the claim moves to it
    ⟨derived.asOf, derived.anchor, false, none,
      existingAsOf.filter fun stored => some (dateOf stored) ≠ derived.asOf.map dateOf⟩
  else
    match derived.asOf, existingAsOf with
    | some proposed, none => ⟨some proposed, derived.anchor, false, none, none⟩
    | some proposed, some stored =>
      ⟨some stored, carried, true,
        if dateOf stored = dateOf proposed then none else some proposed, none⟩
    | none, some stored => ⟨some stored, carried, true, none, none⟩
    | none, none => ⟨none, derived.anchor, false, none, none⟩

/-- `merge_reverify_scope`. -/
def mergeReverifyScope (questionScope : Scope) (existingScope : Option Scope)
    (reference : ReverifyReference) : Scope :=
  let domains := declaredDomains render questionScope ++
    declaredDomains render (existingScope.getD ∅)
  ((questionScope.insert "as_of" (dayJson isoDay reference.asOf)).insert "date_anchor"
    (.str reference.anchor.value)).insert "source_domains"
      (.texts (domains.dedup.insertionSort (· ≤ ·)))

/-- The scope that a reverify or a reuse of a claim commits, for a claim with the date
`existingAsOf` whose head has `existingScope`. -/
def reverifyScope (q : QuestionReading) (proposalAsOf sessionDate existingAsOf : Option Int)
    (existingScope : Option Scope) : Scope :=
  mergeReverifyScope isoDay render (deriveClaimScope isoDay q proposalAsOf sessionDate)
    existingScope
    (resolveReverifyReference q proposalAsOf sessionDate existingAsOf existingScope)

end Derivation

/-! ## What a claim was established with -/

/-- The anchor and the domains a claim was established with. -/
structure EstablishedScope where
  anchor : ClaimDateAnchor
  domains : List String
  named : ∀ d ∈ domains, d ≠ ""

/-- What a question establishes. -/
def EstablishedScope.ofQuestion (q : QuestionReading) (asOf sessionDate : Option Int) :
    EstablishedScope :=
  ⟨(deriveClaimAsOf q asOf sessionDate).anchor, q.domains, q.named⟩

/-- **A scope keeps what the claim was established with**: it is a host-derived one, with
the anchor and with all the domains. -/
structure EstablishedScope.KeptBy (e : EstablishedScope) (s : Scope) : Prop where
  host : s.isHostDerived
  anchor : s.lookup "date_anchor" = some (.str e.anchor.value)
  domains : ∃ xs, s.lookup "source_domains" = some (.texts xs) ∧ ∀ d ∈ e.domains, d ∈ xs

theorem ClaimDateAnchor.value_inj {a b : ClaimDateAnchor} (h : a.value = b.value) : a = b := by
  cases a <;> cases b <;> first | rfl | simp [value] at h

theorem Json.texts_inj {xs ys : List String} (h : Json.texts xs = .texts ys) : xs = ys := by
  simp only [texts, Json.arr.injEq] at h
  have hlist := congrArg JsonItems.toList h
  rw [JsonItems.toList_ofList, JsonItems.toList_ofList] at hlist
  exact (List.map_injective_iff.mpr fun a b hab => Json.str.inj hab) hlist

/-- The empty scope keeps nothing. -/
theorem EstablishedScope.not_keptBy_empty (e : EstablishedScope) : ¬ e.KeptBy ∅ := by
  intro h
  have hhost := h.host
  simp [Scope.isHostDerived] at hhost

section Derivation

variable {isoDay : Int → String} {render : Json → String}

theorem declaredDomains_texts {s : Scope} {xs : List String}
    (h : s.lookup "source_domains" = some (.texts xs)) :
    declaredDomains render s = xs.filter (· ≠ "") := by
  have hid : (Json.display render ∘ Json.str) = id := rfl
  simp [declaredDomains, h, Json.texts, hid]

theorem EstablishedScope.KeptBy.declared {e : EstablishedScope} {s : Scope}
    (h : e.KeptBy s) {d : String} (hd : d ∈ e.domains) : d ∈ declaredDomains render s := by
  obtain ⟨xs, hxs, hsub⟩ := h.domains
  rw [declaredDomains_texts hxs]
  exact List.mem_filter.mpr ⟨hsub d hd, by simpa using e.named d hd⟩

/-- The scope of a new claim keeps what its question establishes. -/
theorem keptBy_derived (q : QuestionReading) (asOf sessionDate : Option Int) :
    (EstablishedScope.ofQuestion q asOf sessionDate).KeptBy
      (deriveClaimScope isoDay q asOf sessionDate) where
  host := by simp [Scope.isHostDerived, deriveClaimScope, Finmap.lookup_insert_of_ne]
  anchor := by simp [deriveClaimScope, EstablishedScope.ofQuestion]
  domains := by
    refine ⟨q.domains, ?_, fun d hd => hd⟩
    simp [deriveClaimScope, Finmap.lookup_insert_of_ne]

/-- The anchor of a dateless reverify: a claim with a date keeps the one its head shows. -/
theorem reverifyReference_dateless {q : QuestionReading} {sessionDate : Option Int}
    (hq : q.Dateless sessionDate) (proposalAsOf existingAsOf : Option Int)
    (existingScope : Option Scope) :
    let reference :=
      resolveReverifyReference q proposalAsOf sessionDate existingAsOf existingScope
    reference.asOf = existingAsOf.or proposalAsOf ∧
      reference.anchor = if existingAsOf.isSome then anchorFromScope (existingScope.getD ∅)
        else .none := by
  unfold resolveReverifyReference
  rw [deriveClaimAsOf_dateless hq]
  cases proposalAsOf <;> cases existingAsOf <;> simp

/-- The domains of a question and those of a claim, once each and in order. -/
def QuestionReading.mergedDomains (q : QuestionReading) (xs : List String) : List String :=
  (q.domains ++ xs).dedup.insertionSort (· ≤ ·)

theorem QuestionReading.mem_mergedDomains {q : QuestionReading} {xs : List String} {d : String} :
    d ∈ q.mergedDomains xs ↔ d ∈ q.domains ∨ d ∈ xs := by
  rw [mergedDomains, List.mem_insertionSort, List.mem_dedup, List.mem_append]

section Reverified

variable {q : QuestionReading} {proposalAsOf sessionDate existingAsOf : Option Int}
  {existingScope : Option Scope}

theorem declaredDomains_derived :
    declaredDomains render (deriveClaimScope isoDay q proposalAsOf sessionDate) =
      q.domains := by
  have htexts : (deriveClaimScope isoDay q proposalAsOf sessionDate).lookup "source_domains" =
      some (.texts q.domains) := by
    simp [deriveClaimScope, Finmap.lookup_insert_of_ne]
  rw [declaredDomains_texts htexts, List.filter_eq_self]
  exact fun d hd => decide_eq_true (q.named d hd)

/-- The scope of a reverify is a host-derived one. -/
theorem reverifyScope_isHostDerived :
    (reverifyScope isoDay render q proposalAsOf sessionDate existingAsOf
      existingScope).isHostDerived := by
  simp [Scope.isHostDerived, reverifyScope, mergeReverifyScope, deriveClaimScope,
    Finmap.lookup_insert_of_ne]

/-- It shows the day of the reference. -/
theorem reverifyScope_asOf :
    (reverifyScope isoDay render q proposalAsOf sessionDate existingAsOf
        existingScope).lookup "as_of" =
      some (dayJson isoDay (resolveReverifyReference q proposalAsOf sessionDate existingAsOf
        existingScope).asOf) := by
  rw [reverifyScope, mergeReverifyScope, Finmap.lookup_insert_of_ne _ (by decide),
    Finmap.lookup_insert_of_ne _ (by decide), Finmap.lookup_insert]

/-- It shows the anchor of the reference. -/
theorem reverifyScope_anchor :
    (reverifyScope isoDay render q proposalAsOf sessionDate existingAsOf
        existingScope).lookup "date_anchor" =
      some (.str (resolveReverifyReference q proposalAsOf sessionDate existingAsOf
        existingScope).anchor.value) := by
  rw [reverifyScope, mergeReverifyScope, Finmap.lookup_insert_of_ne _ (by decide),
    Finmap.lookup_insert]

/-- It shows the merged domains. -/
theorem reverifyScope_domains :
    (reverifyScope isoDay render q proposalAsOf sessionDate existingAsOf
        existingScope).lookup "source_domains" =
      some (.texts (q.mergedDomains (declaredDomains render (existingScope.getD ∅)))) := by
  rw [reverifyScope, mergeReverifyScope, Finmap.lookup_insert, declaredDomains_derived]
  rfl

end Reverified

/-- **What a dateless reverify keeps.** The claim keeps its anchor and its domains if the
head of the claim shows them. -/
theorem keptBy_reverifyScope_iff {q : QuestionReading} {sessionDate : Option Int}
    (hq : q.Dateless sessionDate) (proposalAsOf existingAsOf : Option Int)
    (existingScope : Option Scope) (e : EstablishedScope) :
    e.KeptBy (reverifyScope isoDay render q proposalAsOf sessionDate existingAsOf
        existingScope) ↔
      (if existingAsOf.isSome then anchorFromScope (existingScope.getD ∅) else .none) =
          e.anchor ∧
        ∀ d ∈ e.domains, d ∈ q.domains ∨
          d ∈ declaredDomains render (existingScope.getD ∅) := by
  rw [← (reverifyReference_dateless hq proposalAsOf existingAsOf existingScope).2]
  constructor
  · intro h
    obtain ⟨-, hdate, xs, hxs, hsub⟩ := h
    rw [reverifyScope_anchor] at hdate
    rw [reverifyScope_domains] at hxs
    obtain rfl := Json.texts_inj (Option.some.inj hxs)
    refine ⟨ClaimDateAnchor.value_inj (Json.str.inj (Option.some.inj hdate)), ?_⟩
    intro d hd
    exact QuestionReading.mem_mergedDomains.mp (hsub d hd)
  · intro ⟨hsame, hdomains⟩
    refine ⟨reverifyScope_isHostDerived, ?_, _, reverifyScope_domains, ?_⟩
    · rw [reverifyScope_anchor, hsame]
    · intro d hd
      exact QuestionReading.mem_mergedDomains.mpr (hdomains d hd)

end Derivation

end Noezema.Memory
