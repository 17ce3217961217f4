import Noezema.Lib.Datetime
import Noezema.Lib.Entries
import Noezema.Lib.Except
import Noezema.Memory.HostScope
import Noezema.Memory.Rules

/-! # The reference date of a reverify

`resolve_reverify_reference` and `merge_reverify_scope` on dates and times with their offsets,
and on stored scopes of any shape. Three sources give a date: the question, the claim and the
proposal. The reference of a reverify is the first of them that has one, with the anchor of
that source, and a second reverify with the same question changes nothing.

`reverify_reference`: the reference, its repetition and the deadline.
-/

namespace Noezema.Memory.Zoned

open Noezema.Lib

/-! ## The reference date -/

structure ClaimAsOf where
  asOf : Option Datetime
  anchor : ClaimDateAnchor
deriving DecidableEq

/-- `derive_claim_as_of`. -/
def deriveClaimAsOf (q : QuestionReading) (asOf : Option Datetime)
    (sessionDate : Option Int) : ClaimAsOf :=
  match q.day with
  | some day => ⟨some (.ofDay day), .explicit⟩
  | none =>
    match if q.relative then sessionDate else none with
    | some day => ⟨some (.ofDay day), .relative⟩
    | none => ⟨asOf.map .assumeUtc, .none⟩

/-- `ReverifyReference`. -/
structure ReverifyReference where
  asOf : Option Datetime
  anchor : ClaimDateAnchor
  carriedExisting : Bool
  proposedConflict : Option Datetime
  changedFrom : Option Datetime
deriving DecidableEq

/-- `resolve_reverify_reference`. -/
def resolveReverifyReference (q : QuestionReading) (proposalAsOf : Option Datetime)
    (sessionDate : Option Int) (existingAsOf : Option Datetime) (existingScope : Option Scope) :
    ReverifyReference :=
  let derived := deriveClaimAsOf q proposalAsOf sessionDate
  let stored := existingAsOf.map .assumeUtc
  let carried := anchorFromScope (existingScope.getD ∅)
  if derived.anchor = .explicit ∨ derived.anchor = .relative then
    ⟨derived.asOf, derived.anchor, false, none,
      stored.filter fun t => some t.date ≠ derived.asOf.map Datetime.date⟩
  else
    match derived.asOf, stored with
    | some proposed, none => ⟨some proposed, derived.anchor, false, none, none⟩
    | some proposed, some t =>
      ⟨some t, carried, true, if t.date = proposed.date then none else some proposed, none⟩
    | none, some t => ⟨some t, carried, true, none, none⟩
    | none, none => ⟨none, derived.anchor, false, none, none⟩

/-! ## The merged scope -/

/-- The keys of an object, in their order. -/
def keys : JsonFields → List String
  | .nil => []
  | .cons k _ rest => k :: keys rest

/-- The items of `value or []`; a number or `true` cannot be iterated. -/
def iterate : Option Json → Except Unit (List Json)
  | none | some .null => .ok []
  | some (.bool b) => if b then .error () else .ok []
  | some (.num n) => if n = 0 then .ok [] else .error ()
  | some (.str s) => .ok (s.toList.map fun ch => .str (String.singleton ch))
  | some (.arr xs) => .ok xs.toList
  | some (.obj kvs) => .ok ((keys kvs).map .str)

section Derivation

-- `date.isoformat`, and `str` of a value that is no text
variable (isoDay : Int → String) (render : Json → String)

/-- The text of the day, `null` without one. -/
def dayJson (asOf : Option Datetime) : Json :=
  match asOf with
  | some t => .str (isoDay t.date)
  | none => .null

/-- `derive_claim_scope`. -/
def deriveClaimScope (q : QuestionReading) (asOf : Option Datetime)
    (sessionDate : Option Int) : Scope :=
  let reference := deriveClaimAsOf q asOf sessionDate
  ((((∅ : Scope).insert "scope_schema" Scope.schema).insert "as_of"
    (dayJson isoDay reference.asOf)).insert "source_domains" (.texts q.domains)).insert
      "date_anchor" (.str reference.anchor.value)

/-- One round of the loop over the domains of the claim. -/
def addDomain (domains : List String) (d : Json) : List String :=
  let text := d.display render
  if text ≠ "" ∧ text ∉ domains then domains ++ [text] else domains

/-- `merge_reverify_scope`. -/
def mergeReverifyScope (questionScope : Scope) (existingScope : Option Scope)
    (reference : ReverifyReference) : Except Unit Scope := do
  let scope := (questionScope.insert "as_of" (dayJson isoDay reference.asOf)).insert
    "date_anchor" (.str reference.anchor.value)
  let own ← iterate (scope.lookup "source_domains")
  let stored ← iterate ((existingScope.getD ∅).lookup "source_domains")
  let domains := stored.foldl (addDomain render)
    ((own.map (Json.display render)).filter (· ≠ ""))
  pure (scope.insert "source_domains" (.texts (domains.dedup.insertionSort (· ≤ ·))))

end Derivation

/-- `reverify_after`. -/
def reverifyAfter (result : AssessmentResult) (anchor : ClaimDateAnchor) (now : Datetime) :
    Option Datetime :=
  if anchor ≠ .relative then none else some (now.addDays result.reverifyAfterDays)

/-! ## The first source with a date -/

/-- The day of the question, with the anchor it gives. -/
def ownDate (q : QuestionReading) (sessionDate : Option Int) : Option (Int × ClaimDateAnchor) :=
  match q.day with
  | some day => some (day, .explicit)
  | none => if q.relative then sessionDate.map fun day => (day, .relative) else none

/-- The date of a claim and the anchor of its scope. -/
def storedDate (existingAsOf : Option Datetime) (existingScope : Option Scope) :
    Option (Datetime × ClaimDateAnchor) :=
  existingAsOf.map fun t => (t.assumeUtc, anchorFromScope (existingScope.getD ∅))

/-- The question, then the claim, then the proposal. -/
def firstDate (q : QuestionReading) (proposalAsOf : Option Datetime) (sessionDate : Option Int)
    (existingAsOf : Option Datetime) (existingScope : Option Scope) :
    Option (Datetime × ClaimDateAnchor) :=
  ((ownDate q sessionDate).map fun own => (.ofDay own.1, own.2)).or
    ((storedDate existingAsOf existingScope).or
      (proposalAsOf.map fun t => (t.assumeUtc, .none)))

section Resolve

variable {q : QuestionReading} {proposalAsOf existingAsOf : Option Datetime}
  {sessionDate : Option Int} {existingScope : Option Scope}

/-- A question without a date leaves it to the proposal. -/
theorem deriveClaimAsOf_none (h : ownDate q sessionDate = none) :
    deriveClaimAsOf q proposalAsOf sessionDate = ⟨proposalAsOf.map .assumeUtc, .none⟩ := by
  unfold ownDate at h
  unfold deriveClaimAsOf
  cases hday : q.day with
  | some day => simp [hday] at h
  | none =>
    by_cases hrelative : q.relative
    · simp only [hday, if_pos hrelative, Option.map_eq_none_iff] at h
      simp only [if_pos hrelative, h]
    · simp only [if_neg hrelative]

/-- A date of the question is the derived one. -/
theorem deriveClaimAsOf_some {day : Int} {a : ClaimDateAnchor}
    (h : ownDate q sessionDate = some (day, a)) :
    deriveClaimAsOf q proposalAsOf sessionDate = ⟨some (.ofDay day), a⟩ ∧
      (a = .explicit ∨ a = .relative) := by
  unfold ownDate at h
  unfold deriveClaimAsOf
  cases hday : q.day with
  | some day' =>
    simp only [hday, Option.some.injEq, Prod.mk.injEq] at h
    obtain ⟨rfl, rfl⟩ := h
    exact ⟨rfl, .inl rfl⟩
  | none =>
    by_cases hrelative : q.relative
    · simp only [hday, if_pos hrelative, Option.map_eq_some_iff, Prod.mk.injEq] at h
      obtain ⟨day', hsession, rfl, rfl⟩ := h
      simp [if_pos hrelative, hsession]
    · simp [hday, hrelative] at h

/-- **The reference**: its date and its anchor are those of the first source with a date. -/
theorem resolve_firstDate :
    let reference :=
      resolveReverifyReference q proposalAsOf sessionDate existingAsOf existingScope
    let first := firstDate q proposalAsOf sessionDate existingAsOf existingScope
    reference.asOf = first.map (·.1) ∧ reference.anchor = (first.map (·.2)).getD .none := by
  unfold resolveReverifyReference firstDate storedDate
  cases hown : ownDate q sessionDate with
  | some own =>
    obtain ⟨day, a⟩ := own
    obtain ⟨hderived, hanchor⟩ := @deriveClaimAsOf_some q proposalAsOf sessionDate day a hown
    simp [hderived, hanchor]
  | none =>
    rw [deriveClaimAsOf_none hown]
    cases proposalAsOf <;> cases existingAsOf <;> simp

end Resolve

/-! ## A second time -/

section Merge

variable {isoDay : Int → String} {render : Json → String} {questionScope merged : Scope}
  {existingScope : Option Scope} {reference : ReverifyReference}

/-- **The loop over the domains** adds those of the claim that are no empty text. -/
theorem mem_foldl_addDomain {items : List Json} {domains : List String} {d : String} :
    d ∈ items.foldl (addDomain render) domains ↔
      d ∈ domains ∨ (d ≠ "" ∧ d ∈ items.map (Json.display render)) := by
  induction items generalizing domains with
  | nil => simp
  | cons j rest ih =>
    have hone : d ∈ addDomain render domains j ↔
        d ∈ domains ∨ (d ≠ "" ∧ d = j.display render) := by
      unfold addDomain
      dsimp only
      by_cases hadd : j.display render ≠ "" ∧ j.display render ∉ domains
      · rw [if_pos hadd, List.mem_append, List.mem_singleton]
        apply or_congr_right
        constructor
        · rintro rfl
          exact ⟨hadd.1, rfl⟩
        · exact And.right
      · rw [if_neg hadd]
        constructor
        · exact .inl
        · rintro (hd | ⟨hne, rfl⟩)
          · exact hd
          · by_contra hout
            exact hadd ⟨hne, hout⟩
    rw [List.foldl_cons, ih, hone, List.map_cons, List.mem_cons, or_assoc, ← and_or_left]

/-- The declared domains of two scopes, from the items of their arrays. -/
def unionDomains (render : Json → String) (own stored : List Json) : List String :=
  (((own ++ stored).map (Json.display render)).filter (· ≠ "")).dedup.insertionSort (· ≤ ·)

theorem mem_unionDomains {own stored : List Json} {d : String} :
    d ∈ unionDomains render own stored ↔
      (d ∈ own.map (Json.display render) ∨ d ∈ stored.map (Json.display render)) ∧ d ≠ "" := by
  rw [unionDomains, List.mem_insertionSort, List.mem_dedup, List.mem_filter,
    decide_eq_true_eq, List.map_append, List.mem_append]

/-- A union is taken once. -/
theorem unionDomains_again (own stored : List Json) :
    unionDomains render own ((unionDomains render own stored).map .str) =
      unionDomains render own stored := by
  apply dedup_insertionSort_congr
  intro d
  have hid : (Json.display render ∘ Json.str) = id := rfl
  simp only [List.mem_filter, decide_eq_true_eq, List.map_append, List.mem_append,
    List.map_map, hid, List.map_id, mem_unionDomains]
  tauto

/-- **What a merge gives**: the day, the anchor, the domains of both scopes, and what the
scope of the question has besides. -/
theorem mergeReverifyScope_ok_iff :
    mergeReverifyScope isoDay render questionScope existingScope reference = .ok merged ↔
      ∃ own stored, iterate (questionScope.lookup "source_domains") = .ok own ∧
        iterate ((existingScope.getD ∅).lookup "source_domains") = .ok stored ∧
        ((questionScope.insert "as_of" (dayJson isoDay reference.asOf)).insert
          "date_anchor" (.str reference.anchor.value)).insert "source_domains"
            (.texts (unionDomains render own stored)) = merged := by
  have hdomains : ∀ own stored : List Json, (stored.foldl (addDomain render)
      ((own.map (Json.display render)).filter (· ≠ ""))).dedup.insertionSort (· ≤ ·) =
        unionDomains render own stored := by
    intro own stored
    apply dedup_insertionSort_congr
    intro d
    rw [mem_foldl_addDomain, List.map_append, List.filter_append, List.mem_append,
      List.mem_filter, List.mem_filter, decide_eq_true_eq, and_comm (a := d ≠ "")]
  unfold mergeReverifyScope
  dsimp only
  rw [Finmap.lookup_insert_of_ne _ (by decide), Finmap.lookup_insert_of_ne _ (by decide)]
  simp only [bind_eq_ok, pure_eq_ok, Except.ok.injEq, hdomains, exists_and_left]

/-- The scope that a merge gives. -/
theorem mergeReverifyScope_lookup
    (h : mergeReverifyScope isoDay render questionScope existingScope reference = .ok merged) :
    anchorFromScope merged = reference.anchor := by
  obtain ⟨own, stored, -, -, rfl⟩ := mergeReverifyScope_ok_iff.mp h
  apply anchorFromScope_value
  rw [Finmap.lookup_insert_of_ne _ (by decide), Finmap.lookup_insert]

/-- **A merge with its own result** gives the same scope for the same reference. -/
theorem mergeReverifyScope_again {reference' : ReverifyReference}
    (hasOf : reference'.asOf = reference.asOf) (hanchor : reference'.anchor = reference.anchor)
    (h : mergeReverifyScope isoDay render questionScope existingScope reference = .ok merged) :
    mergeReverifyScope isoDay render questionScope (some merged) reference' = .ok merged := by
  obtain ⟨own, stored, hown, -, hmerged⟩ := mergeReverifyScope_ok_iff.mp h
  refine mergeReverifyScope_ok_iff.mpr
    ⟨own, (unionDomains render own stored).map .str, hown, ?_, ?_⟩
  · rw [Option.getD_some, ← hmerged, Finmap.lookup_insert]
    simp [iterate, Json.texts]
  · rw [unionDomains_again, hasOf, hanchor, hmerged]

end Merge

section Again

variable {q : QuestionReading} {proposalAsOf existingAsOf : Option Datetime}
  {sessionDate : Option Int} {existingScope : Option Scope} {merged : Scope}

/-- A first date that is stored with its anchor is the first one again. -/
theorem firstDate_again
    (hanchor : anchorFromScope merged = ((firstDate q proposalAsOf sessionDate existingAsOf
      existingScope).map (·.2)).getD .none) :
    firstDate q proposalAsOf sessionDate ((firstDate q proposalAsOf sessionDate existingAsOf
        existingScope).map (·.1)) (some merged) =
      firstDate q proposalAsOf sessionDate existingAsOf existingScope := by
  revert hanchor
  unfold firstDate storedDate
  cases ownDate q sessionDate with
  | some own => simp
  | none => cases existingAsOf <;> cases proposalAsOf <;> simp_all

/-- **The reference of a reverify.** It is the date of the question, then that of the claim
with its anchor, then that of the proposal; the same reverify of its own result changes
neither the reference nor the scope; and there is a deadline exactly for the anchor
`relative`. The scope is merged whenever the stored domains can be iterated. -/
theorem reverify_reference (isoDay : Int → String) (render : Json → String)
    (q : QuestionReading) (proposalAsOf : Option Datetime) (sessionDate : Option Int)
    (existingAsOf : Option Datetime) (existingScope : Option Scope) :
    let reference :=
      resolveReverifyReference q proposalAsOf sessionDate existingAsOf existingScope
    let first := firstDate q proposalAsOf sessionDate existingAsOf existingScope
    let merge := mergeReverifyScope isoDay render
      (deriveClaimScope isoDay q proposalAsOf sessionDate)
    (reference.asOf = first.map (·.1) ∧ reference.anchor = (first.map (·.2)).getD .none) ∧
    ((∃ merged, merge existingScope reference = .ok merged) ↔
      ∃ stored, iterate ((existingScope.getD ∅).lookup "source_domains") = .ok stored) ∧
    ∀ merged, merge existingScope reference = .ok merged →
      (let again :=
        resolveReverifyReference q proposalAsOf sessionDate reference.asOf (some merged)
      again.asOf = reference.asOf ∧ again.anchor = reference.anchor ∧
        merge (some merged) again = .ok merged) ∧
      ∀ result now, (reverifyAfter result (anchorFromScope merged) now).isSome ↔
        reference.anchor = .relative := by
  intro reference first merge
  have hfirst : reference.asOf = first.map (·.1) ∧
      reference.anchor = (first.map (·.2)).getD .none := resolve_firstDate
  have hown : iterate ((deriveClaimScope isoDay q proposalAsOf sessionDate).lookup
      "source_domains") = .ok (q.domains.map .str) := by
    rw [deriveClaimScope, Finmap.lookup_insert_of_ne _ (by decide), Finmap.lookup_insert]
    simp [iterate, Json.texts]
  refine ⟨hfirst, ?_, ?_⟩
  · constructor
    · rintro ⟨merged, hmerged⟩
      obtain ⟨_, stored, -, hstored, -⟩ := mergeReverifyScope_ok_iff.mp hmerged
      exact ⟨stored, hstored⟩
    · rintro ⟨stored, hstored⟩
      exact ⟨_, mergeReverifyScope_ok_iff.mpr ⟨_, stored, hown, hstored, rfl⟩⟩
  · -- the merged scope shows the anchor, and so the first date is found again
    intro merged hmerged
    have hanchor : anchorFromScope merged = reference.anchor := mergeReverifyScope_lookup hmerged
    have hagain := @resolve_firstDate q proposalAsOf reference.asOf sessionDate (some merged)
    rw [hfirst.1, firstDate_again (hanchor.trans hfirst.2), ← hfirst.1] at hagain
    have hasOf' := hagain.1.trans hfirst.1.symm
    have hanchor' := hagain.2.trans hfirst.2.symm
    refine ⟨⟨hasOf', hanchor', mergeReverifyScope_again hasOf' hanchor' hmerged⟩, ?_⟩
    intro result now
    rw [hanchor, reverifyAfter]
    split <;> simp_all

/-- A question about the present that names no day and no address. -/
def presentQuestion : QuestionReading :=
  ⟨none, true, [], QuestionReading.named_nil, List.nodup_nil⟩

/-- Without the date of the session, a claim with a naive date and a scope without an anchor
keeps the date, and from then on the anchor of the present. -/
theorem reverify_reference_carried : ∃ merged,
    mergeReverifyScope (fun _ => "1970-01-01") (fun _ => "")
      (deriveClaimScope (fun _ => "1970-01-01") presentQuestion none none) (some ∅)
      (resolveReverifyReference presentQuestion none none (some ⟨0, none⟩) (some ∅)) =
        .ok merged ∧
    (resolveReverifyReference presentQuestion none none (some ⟨0, some 0⟩) (some merged)).asOf =
      some ⟨0, some 0⟩ ∧
    (resolveReverifyReference presentQuestion none none (some ⟨0, some 0⟩)
      (some merged)).anchor = .relative := by
  obtain ⟨⟨hasOf, hanchor⟩, hmerge, hagain⟩ := reverify_reference (fun _ => "1970-01-01")
    (fun _ => "") presentQuestion none none (some ⟨0, none⟩) (some ∅)
  obtain ⟨merged, hmerged⟩ := hmerge.mpr ⟨[], rfl⟩
  have h := (hagain merged hmerged).1
  rw [hasOf, hanchor] at h
  exact ⟨merged, hmerged, h.1, h.2.1.trans (by simp [firstDate, ownDate, storedDate,
    presentQuestion, anchorFromScope_empty])⟩

/-- A store with time zones gives back what it is given, for dates in UTC. -/
theorem reference_readBack
    (hproposal : ∀ t, proposalAsOf = some t → t.offset.getD 0 = 0)
    (hexisting : ∀ t, existingAsOf = some t → t.offset.getD 0 = 0) :
    (resolveReverifyReference q proposalAsOf sessionDate existingAsOf existingScope).asOf.map
        Datetime.toUtc =
      (resolveReverifyReference q proposalAsOf sessionDate existingAsOf existingScope).asOf := by
  have hutc : ∀ t : Datetime, t.offset.getD 0 = 0 → t.assumeUtc.toUtc = t.assumeUtc := by
    intro t ht
    apply Datetime.toUtc_of_offset
    rw [Datetime.assumeUtc, ht]
  rw [resolve_firstDate.1]
  unfold firstDate storedDate
  cases hown : ownDate q sessionDate with
  | some own =>
    have hday : (Datetime.ofDay own.1).toUtc = .ofDay own.1 := Datetime.toUtc_of_offset rfl
    simp [hday]
  | none =>
    cases hstored : existingAsOf with
    | some t => simp [hutc t (hexisting t hstored)]
    | none =>
      cases hproposed : proposalAsOf with
      | some t => simp [hutc t (hproposal t hproposed)]
      | none => rfl

end Again

/-! ## The dates in seconds -/

section Seconds

variable {q : QuestionReading} {proposalAsOf existingAsOf : Option Datetime}
  {sessionDate : Option Int} {existingScope : Option Scope}

theorem dateOf_seconds (t : Datetime) : dateOf t.seconds = t.date := t.seconds_ediv

theorem deriveClaimAsOf_seconds :
    Memory.deriveClaimAsOf q (proposalAsOf.map Datetime.seconds) sessionDate =
      ⟨(deriveClaimAsOf q proposalAsOf sessionDate).asOf.map Datetime.seconds,
        (deriveClaimAsOf q proposalAsOf sessionDate).anchor⟩ := by
  have hmidnight : ∀ day, midnight day = (Datetime.ofDay day).seconds := fun day =>
    (Datetime.seconds_ofDay day).symm
  unfold Memory.deriveClaimAsOf deriveClaimAsOf
  cases q.day with
  | some day => simp [hmidnight]
  | none =>
    cases hsession : if q.relative then sessionDate else none with
    | some day => simp [hmidnight]
    | none => cases proposalAsOf <;> simp

/-- **The same reference**: the times in seconds give the reference in seconds. -/
theorem resolve_seconds :
    let reference :=
      resolveReverifyReference q proposalAsOf sessionDate existingAsOf existingScope
    Memory.resolveReverifyReference q (proposalAsOf.map Datetime.seconds) sessionDate
        (existingAsOf.map Datetime.seconds) existingScope =
      ⟨reference.asOf.map Datetime.seconds, reference.anchor, reference.carriedExisting,
        reference.proposedConflict.map Datetime.seconds,
        reference.changedFrom.map Datetime.seconds⟩ := by
  unfold Memory.resolveReverifyReference resolveReverifyReference
  rw [deriveClaimAsOf_seconds]
  dsimp only
  split
  · cases existingAsOf with
    | none => rfl
    | some t =>
      cases (deriveClaimAsOf q proposalAsOf sessionDate).asOf with
      | none => simp [Option.filter]
      | some moved =>
        by_cases hmoved : t.date = moved.date <;> simp [Option.filter, dateOf_seconds, hmoved]
  · cases (deriveClaimAsOf q proposalAsOf sessionDate).asOf with
    | none => cases existingAsOf <;> rfl
    | some proposed =>
      cases existingAsOf with
      | none => rfl
      | some t =>
        by_cases hsame : t.date = proposed.date <;> simp [dateOf_seconds, hsame]

/-- The declared domains of a scope are an array, or there are none. -/
def Listed (s : Scope) : Prop :=
  (s.lookup "source_domains").getD .null = .null ∨ ∃ xs, s.lookup "source_domains" = some (.arr xs)

theorem iterate_listed {s : Scope} (h : Listed s) {render : Json → String} :
    ∃ items, iterate (s.lookup "source_domains") = .ok items ∧
      (items.map (Json.display render)).filter (· ≠ "") = declaredDomains render s := by
  unfold declaredDomains
  rcases h with hnull | ⟨xs, hxs⟩
  · refine ⟨[], ?_⟩
    cases hlookup : s.lookup "source_domains" with
    | none => exact ⟨rfl, rfl⟩
    | some j =>
      rw [hlookup, Option.getD_some] at hnull
      rw [hnull]
      exact ⟨rfl, rfl⟩
  · rw [hxs]
    exact ⟨xs.toList, rfl, rfl⟩

/-- **The same scope**, for scopes as the host stores them. -/
theorem merge_seconds {isoDay : Int → String} {render : Json → String} {questionScope : Scope}
    {reference : ReverifyReference} {inSeconds : Memory.ReverifyReference}
    (hasOf : inSeconds.asOf = reference.asOf.map Datetime.seconds)
    (hanchor : inSeconds.anchor = reference.anchor) (hquestion : Listed questionScope)
    (hexisting : Listed (existingScope.getD ∅)) :
    mergeReverifyScope isoDay render questionScope existingScope reference =
      .ok (Memory.mergeReverifyScope isoDay render questionScope existingScope inSeconds) := by
  obtain ⟨own, hown, howned⟩ := @iterate_listed _ hquestion render
  obtain ⟨stored, hstored, hlisted⟩ := @iterate_listed _ hexisting render
  refine mergeReverifyScope_ok_iff.mpr ⟨own, stored, hown, hstored, ?_⟩
  have hday : Memory.dayJson isoDay inSeconds.asOf = dayJson isoDay reference.asOf := by
    rw [hasOf]
    cases reference.asOf with
    | none => rfl
    | some t => simp [Memory.dayJson, dayJson, dateOf_seconds]
  rw [Memory.mergeReverifyScope, hday, hanchor, unionDomains, List.map_append,
    List.filter_append, howned, hlisted]

end Seconds

end Noezema.Memory.Zoned
