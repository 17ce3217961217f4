import Noezema.Memory.HostScope

/-! # What a reverify leaves covered

Evidence covers the host-derived scope of a claim if it shows the day and one of the declared
domains. A claim without domains asks for none, so the union that a reverify takes of the
domains of the claim and of its own question can ask for more than the claim did.

`reverifyScope_covers_iff`: when a dateless reverify keeps what covered the claim.
-/

namespace Noezema.Memory

namespace Scope

/-! ## The coverage predicate -/

section Coverage

variable (parseDay parseTime : String → Option Int)

/-- The evidence shows the day that the claim is about, or a later one. -/
def Timely (evidence claim : Scope) : Prop :=
  ∀ day, parseValue parseDay (claim.lookup "as_of") = some day →
    ∃ at', parseValue parseTime (evidence.lookup "as_of") = some at' ∧ day ≤ at'

/-- The evidence shows one of the domains, if there are any. -/
def Sourced (evidence : Scope) (domains : List String) : Prop :=
  domains ≠ [] → ∃ d ∈ domains, evidence.lookup "source_domain" = some (.str d)

/-- The scope declares the domains: an array of non-empty texts, or nothing. -/
structure Declares (s : Scope) (domains : List String) : Prop where
  value : s.lookup "source_domains" = some (.texts domains) ∨
    domains = [] ∧ (s.lookup "source_domains").getD .null = .null
  named : ∀ d ∈ domains, d ≠ ""

variable {parseDay parseTime} {evidence claim : Scope} {domains : List String}

/-- **The predicate of a host-derived scope**: the day and the domains. -/
theorem scopeCovers_iff (hhost : claim.isHostDerived) (hdomains : claim.Declares domains) :
    scopeCovers parseDay parseTime evidence claim ↔
      Timely parseDay parseTime evidence claim ∧ evidence.Sourced domains := by
  rw [scopeCovers, if_pos hhost, canonicalCovers, Bool.and_eq_true]
  apply and_congr
  · unfold Timely
    cases parseValue parseDay (claim.lookup "as_of") with
    | none => simp
    | some day => cases parseValue parseTime (evidence.lookup "as_of") <;> simp
  · unfold Sourced
    rcases hdomains.value with hvalue | ⟨rfl, hvalue⟩
    · rw [hvalue, Json.texts]
      simp only [JsonItems.toList_ofList, Bool.or_eq_true, decide_eq_true_eq,
        List.map_eq_nil_iff, ne_eq]
      rw [or_iff_not_imp_left]
      apply imp_congr_right
      intro _
      cases evidence.lookup "source_domain" with
      | none => simp
      | some domain =>
        simp only [Bool.and_eq_true, decide_eq_true_eq, List.mem_map, Option.some.injEq]
        constructor
        · rintro ⟨_, d, hd, heq⟩
          exact ⟨d, hd, heq.symm⟩
        · rintro ⟨d, hd, rfl⟩
          exact ⟨by simp, d, hd, rfl⟩
    · simp only [ne_eq, not_true_eq_false, false_imp_iff, iff_true]
      cases hlookup : claim.lookup "source_domains" with
      | none => rfl
      | some j =>
        rw [hlookup, Option.getD_some] at hvalue
        rw [hvalue]

end Coverage

end Scope

/-! ## The merged scope -/

section Merge

variable {isoDay : Int → String} {render : Json → String} {q : QuestionReading}
  {proposalAsOf sessionDate existingAsOf : Option Int} {existing : Scope} {xs : List String}

theorem Scope.Declares.declared (h : existing.Declares xs) :
    declaredDomains render existing = xs := by
  rcases h.value with hvalue | ⟨rfl, hvalue⟩
  · rw [declaredDomains_texts hvalue, List.filter_eq_self]
    exact fun d hd => decide_eq_true (h.named d hd)
  · cases hlookup : existing.lookup "source_domains" with
    | none => simp [declaredDomains, hlookup]
    | some j =>
      rw [hlookup, Option.getD_some] at hvalue
      simp [declaredDomains, hlookup, hvalue]

theorem deriveClaimScope_declares :
    (deriveClaimScope isoDay q proposalAsOf sessionDate).Declares q.domains where
  value := .inl (by simp [deriveClaimScope, Finmap.lookup_insert_of_ne])
  named := q.named

/-- The scope of a reverify declares the merged domains. -/
theorem reverifyScope_declares (h : existing.Declares xs) :
    (reverifyScope isoDay render q proposalAsOf sessionDate existingAsOf
      (some existing)).Declares (q.mergedDomains xs) where
  value := by
    rw [reverifyScope_domains, Option.getD_some, h.declared]
    exact .inl rfl
  named := by
    intro d hd
    rcases QuestionReading.mem_mergedDomains.mp hd with hd | hd
    · exact q.named d hd
    · exact h.named d hd

/-- A dateless reverify keeps the date of a claim that has one. -/
theorem carriedExisting_iff (hq : q.Dateless sessionDate) {scope : Option Scope} :
    (resolveReverifyReference q proposalAsOf sessionDate existingAsOf scope).carriedExisting ↔
      existingAsOf.isSome := by
  unfold resolveReverifyReference
  rw [deriveClaimAsOf_dateless hq]
  cases proposalAsOf <;> cases existingAsOf <;> simp

end Merge

/-! ## Coverage kept -/

section Kept

open Scope

variable {parseDay parseTime : String → Option Int} {isoDay : Int → String}
  {render : Json → String} {q : QuestionReading}
  {proposalAsOf sessionDate existingAsOf : Option Int} {existing : Scope} {xs : List String}

/-- Evidence with one of the domains, and with a time if there is a text for it. -/
def showing (asOf : Option String) (xs : List String) : Scope :=
  let sourced : Scope := match xs with
    | [] => ∅
    | d :: _ => (∅ : Scope).insert "source_domain" (.str d)
  match asOf with
  | none => sourced
  | some s => sourced.insert "as_of" (.str s)

theorem showing_sourced (asOf : Option String) (xs : List String) :
    (showing asOf xs).Sourced xs := by
  intro hne
  obtain ⟨d, rest, rfl⟩ := List.exists_cons_of_ne_nil hne
  refine ⟨d, List.mem_cons_self, ?_⟩
  cases asOf with
  | none => exact Finmap.lookup_insert _
  | some s =>
    rw [showing, Finmap.lookup_insert_of_ne _ (by decide)]
    exact Finmap.lookup_insert _

theorem showing_asOf (asOf : Option String) (xs : List String) :
    (showing asOf xs).lookup "as_of" = asOf.map .str := by
  cases asOf with
  | none => cases xs <;> simp [showing, Finmap.lookup_insert_of_ne]
  | some s => exact Finmap.lookup_insert _

/-- Evidence without domains is left out by a scope with some. -/
theorem showing_nil_not_sourced (asOf : Option String) {ys : List String} (hys : ys ≠ []) :
    ¬ (showing asOf []).Sourced ys := by
  intro h
  obtain ⟨d, -, hd⟩ := h hys
  cases asOf <;> simp [showing, Finmap.lookup_insert_of_ne] at hd

theorem parseValue_eq_some {parse : String → Option Int} {v : Option Json} {t : Int}
    (h : parseValue parse v = some t) : ∃ s, v = some (.str s) ∧ s ≠ "" ∧ parse s = some t := by
  unfold parseValue at h
  split at h
  · rename_i s
    split_ifs at h with hempty
    exact ⟨s, rfl, hempty, h⟩
  · cases h

/-- What covers the scope of a dateless reverify: evidence that shows the day of the reference
date or a later one, from one of the merged domains. -/
theorem scopeCovers_reverify_iff (hdomains : existing.Declares xs) (hq : q.Dateless sessionDate)
    {t : Int} (htext : isoDay (dateOf t) ≠ "")
    (hday : parseDay (isoDay (dateOf t)) = some (midnight (dateOf t))) (evidence : Scope) :
    scopeCovers parseDay parseTime evidence (reverifyScope isoDay render q proposalAsOf
        sessionDate (some t) (some existing)) ↔
      (∃ at', parseValue parseTime (evidence.lookup "as_of") = some at' ∧
        midnight (dateOf t) ≤ at') ∧ evidence.Sourced (q.mergedDomains xs) := by
  rw [scopeCovers_iff reverifyScope_isHostDerived (reverifyScope_declares hdomains), Timely,
    reverifyScope_asOf, (reverifyReference_dateless hq _ _ _).1, Option.some_or, dayJson,
    parseValue, if_neg htext, hday]
  simp

/-- **When a reverify keeps the coverage.** All that covered the scope of a claim covers the
scope of a dateless reverify exactly when the question adds no domains to a claim without
any, and the scope shows the reference date or a later day. -/
theorem reverifyScope_covers_iff (hhost : existing.isHostDerived)
    (hdomains : existing.Declares xs) (hq : q.Dateless sessionDate)
    (hcarried : (resolveReverifyReference q proposalAsOf sessionDate existingAsOf
      (some existing)).carriedExisting)
    (htext : ∀ day, isoDay day ≠ "")
    (hday : ∀ t, existingAsOf = some t →
      parseDay (isoDay (dateOf t)) = some (midnight (dateOf t)))
    (htime : ∀ s t, parseDay s = some t → parseTime s = some t) :
    (∀ evidence, scopeCovers parseDay parseTime evidence existing →
      scopeCovers parseDay parseTime evidence (reverifyScope isoDay render q proposalAsOf
        sessionDate existingAsOf (some existing))) ↔
    (xs = [] → q.domains = []) ∧ ∃ t day, existingAsOf = some t ∧
      parseValue parseDay (existing.lookup "as_of") = some day ∧ midnight (dateOf t) ≤ day := by
  obtain ⟨t, rfl⟩ := Option.isSome_iff_exists.mp ((carriedExisting_iff hq).mp hcarried)
  have hnew := @scopeCovers_reverify_iff parseDay parseTime isoDay render q proposalAsOf
    sessionDate existing xs hdomains hq t (htext _) (hday t rfl)
  simp only [hnew, scopeCovers_iff hhost hdomains]
  constructor
  · intro h
    cases hparse : parseValue parseDay (existing.lookup "as_of") with
    | none =>
      -- nothing in the scope asks for a time
      have hold : Timely parseDay parseTime (showing none xs) existing := by
        intro day hsome
        rw [hparse] at hsome
        cases hsome
      obtain ⟨⟨at', hat, -⟩, -⟩ := h _ ⟨hold, showing_sourced none xs⟩
      rw [showing_asOf] at hat
      cases hat
    | some day =>
      obtain ⟨s, -, hne, hs⟩ := parseValue_eq_some hparse
      have hshown : parseValue parseTime ((showing (some s) xs).lookup "as_of") = some day := by
        rw [showing_asOf, Option.map_some, parseValue, if_neg hne, htime s day hs]
      have hold : Timely parseDay parseTime (showing (some s) xs) existing := by
        intro day' hday'
        obtain rfl := Option.some.inj (hparse.symm.trans hday')
        exact ⟨day, hshown, le_rfl⟩
      obtain ⟨⟨at', hat, hle⟩, hsourced⟩ := h _ ⟨hold, showing_sourced _ xs⟩
      obtain rfl := Option.some.inj (hshown.symm.trans hat)
      refine ⟨?_, t, day, rfl, rfl, hle⟩
      rintro rfl
      by_contra hadded
      refine showing_nil_not_sourced (some s) ?_ hsourced
      obtain ⟨d, rest, heq⟩ := List.exists_cons_of_ne_nil hadded
      exact List.ne_nil_of_mem
        (QuestionReading.mem_mergedDomains.mpr (.inl (heq ▸ List.mem_cons_self)))
  · intro ⟨hadds, t', day, ht, hparse, hle⟩ evidence ⟨htimely, hsourced⟩
    obtain rfl := Option.some.inj ht
    obtain ⟨at', hat, hat'⟩ := htimely day hparse
    refine ⟨⟨at', hat, hle.trans hat'⟩, ?_⟩
    intro hne
    have hxs : xs ≠ [] := by
      rintro rfl
      obtain ⟨d, hd⟩ := List.exists_mem_of_ne_nil _ hne
      rcases QuestionReading.mem_mergedDomains.mp hd with hd | hd
      · rw [hadds rfl] at hd
        cases hd
      · cases hd
    obtain ⟨d, hd, hlookup⟩ := hsourced hxs
    exact ⟨d, QuestionReading.mem_mergedDomains.mpr (.inr hd), hlookup⟩

end Kept

/-! ## A claim without domains -/

/-- `date.isoformat` at the first of January 2025. -/
def isoNewYear (day : Int) : String := if day = 20089 then "2025-01-01" else "other"

/-- `date.fromisoformat` at the first of January 2025. -/
def parseNewYear (s : String) : Option Int :=
  if s = "2025-01-01" then some (midnight 20089) else none

/-- A question without a date and without addresses. -/
def quietQuestion : QuestionReading :=
  ⟨none, false, [], QuestionReading.named_nil, List.nodup_nil⟩

/-- A question without a date that names one site. -/
def sitedQuestion : QuestionReading :=
  ⟨none, false, ["example.org"], by simp, List.nodup_singleton _⟩

/-- The scope of a claim at noon of that day. -/
def noonScope (q : QuestionReading) : Scope :=
  deriveClaimScope isoNewYear q (some (midnight 20089 + 43200)) none

theorem noonScope_isHostDerived (q : QuestionReading) : (noonScope q).isHostDerived := by
  simp [Scope.isHostDerived, noonScope, deriveClaimScope, Finmap.lookup_insert_of_ne]

theorem noonScope_asOf {q : QuestionReading} (hq : q.Dateless none) :
    Scope.parseValue parseNewYear ((noonScope q).lookup "as_of") = some (midnight 20089) := by
  rw [noonScope, deriveClaimScope, deriveClaimAsOf_dateless hq,
    Finmap.lookup_insert_of_ne _ (by decide), Finmap.lookup_insert_of_ne _ (by decide),
    Finmap.lookup_insert]
  decide

theorem isoNewYear_ne (day : Int) : isoNewYear day ≠ "" := by
  unfold isoNewYear
  split <;> decide

theorem parse_isoNewYear (t : Int) (ht : some (midnight 20089 + 43200) = some t) :
    parseNewYear (isoNewYear (dateOf t)) = some (midnight (dateOf t)) := by
  cases ht
  decide

theorem noonScope_declares (q : QuestionReading) : (noonScope q).Declares q.domains :=
  deriveClaimScope_declares

/-- Evidence of that day from a site covers the claim about it. -/
theorem noonScope_covered {q : QuestionReading} (hq : q.Dateless none) :
    Scope.scopeCovers parseNewYear parseNewYear (showing (some "2025-01-01") q.domains)
      (noonScope q) := by
  apply (Scope.scopeCovers_iff (noonScope_isHostDerived _) (noonScope_declares _)).mpr
  refine ⟨?_, showing_sourced _ _⟩
  intro day hday
  rw [noonScope_asOf hq] at hday
  exact ⟨midnight 20089, by rw [showing_asOf]; decide, (Option.some.inj hday).ge⟩

theorem reverifyScope_covers_sited : Scope.scopeCovers parseNewYear parseNewYear
    (showing (some "2025-01-01") sitedQuestion.domains) (reverifyScope isoNewYear
      (fun _ => "") quietQuestion none none (some (midnight 20089 + 43200))
        (some (noonScope sitedQuestion))) := by
  have hdateless : ∀ q : QuestionReading, q.day = none → q.Dateless none :=
    fun q hday => ⟨hday, fun _ => rfl⟩
  apply (reverifyScope_covers_iff (noonScope_isHostDerived _) (noonScope_declares _)
    (hdateless quietQuestion rfl) ((carriedExisting_iff (hdateless _ rfl)).mpr rfl)
    isoNewYear_ne parse_isoNewYear (fun _ _ hs => hs)).mpr
  · exact ⟨fun _ => rfl, _, _, rfl, noonScope_asOf (hdateless sitedQuestion rfl), by decide⟩
  · exact noonScope_covered (hdateless sitedQuestion rfl)

/-- A reverify with a site takes the coverage away. -/
theorem coverage_lost : ¬ ∀ (parseDay parseTime : String → Option Int) (isoDay : Int → String)
    (render : Json → String) (q : QuestionReading) (proposalAsOf sessionDate existingAsOf :
      Option Int) (existing : Scope) (xs : List String),
    existing.isHostDerived → existing.Declares xs → q.Dateless sessionDate →
    (resolveReverifyReference q proposalAsOf sessionDate existingAsOf
      (some existing)).carriedExisting →
    (∀ day, isoDay day ≠ "") →
    (∀ t, existingAsOf = some t →
      parseDay (isoDay (dateOf t)) = some (midnight (dateOf t))) →
    (∀ s t, parseDay s = some t → parseTime s = some t) →
    ∀ evidence, Scope.scopeCovers parseDay parseTime evidence existing →
      Scope.scopeCovers parseDay parseTime evidence (reverifyScope isoDay render q proposalAsOf
        sessionDate existingAsOf (some existing)) := by
  intro h
  have hplain : quietQuestion.Dateless none := ⟨rfl, fun _ => rfl⟩
  have hcovers : Scope.scopeCovers parseNewYear parseNewYear (showing (some "2025-01-01") [])
      (noonScope quietQuestion) := noonScope_covered hplain
  have hlost := h parseNewYear parseNewYear isoNewYear (fun _ => "") sitedQuestion none none
    (some (midnight 20089 + 43200)) (noonScope quietQuestion) [] (noonScope_isHostDerived _)
    (noonScope_declares _) ⟨rfl, fun _ => rfl⟩
    ((carriedExisting_iff ⟨rfl, fun _ => rfl⟩).mpr rfl) isoNewYear_ne parse_isoNewYear
    (fun _ _ hs => hs) _ hcovers
  rw [Scope.scopeCovers_iff reverifyScope_isHostDerived
    (reverifyScope_declares (noonScope_declares _))] at hlost
  refine showing_nil_not_sourced _ ?_ hlost.2
  exact List.ne_nil_of_mem (QuestionReading.mem_mergedDomains.mpr (.inl List.mem_cons_self))

end Noezema.Memory
