import Noezema.Cognition.CuratorBoundary

/-! # The gates on the links of an operation

Two gates of the boundary judge the links of an operation one by one. The gate of the values
removes a supporting link whose texts lack the value of the claim (`linksWithoutClaimValue`); the
gate of the periods removes one whose texts do not name a period of the claim near its value, or
the date of a document anywhere (`claimPeriodRejectionsByLinks`).

The operation itself is judged on the union of the texts of all its links, and on the links of all
relations. So it outlives its support where the links miss different periods, or where a
counterevidence link is left (`support_survives_iff`).
-/

namespace Noezema.Cognition.PeriodGate

open Noezema.Lib Noezema.Memory

inductive PeriodKind where
  | month | date | quarter | half | target
deriving DecidableEq

/-- A period that a statement names. -/
structure PeriodToken where
  kind : PeriodKind
  month : Option Nat := none
  day : Option Nat := none
  year : Option Nat := none
  ordinal : Option Nat := none
  label : Text := []
  /-- It stands after a marker of the date of a document. -/
  docDate : Bool := false

def PeriodToken.isForecastDateCapable (t : PeriodToken) : Bool :=
  t.kind = .date || (t.kind = .month && t.year.isSome)

abbrev Span := Nat × Nat

/-- A month word; `stamped` beside a day, with the year that stands right after it. -/
structure MonthOccurrence where
  span : Span
  month : Nat
  stamped : Bool
  attachedYear : Option Nat

structure DateOccurrence where
  span : Span
  day : Nat
  month : Nat
  year : Option Nat

/-- What the expressions of the periods find in a text. -/
structure PageScan where
  months : List MonthOccurrence
  years : List (Span × Nat)
  dates : List DateOccurrence
  quarters : List (Span × Nat)
  halves : List (Span × Nat)
  /-- Two months with a connective between them. -/
  monthRanges : List (Span × Nat × Nat)
  /-- A month with its year, in one line. -/
  lineMonthYears : List (Nat × Nat)

/-- The readers of statements and of page texts. -/
structure PeriodReader where
  statementPeriodTokens : Text → List PeriodToken
  hasForecastMarker : Text → Bool
  /-- The statement says that the page does not tell the date of the forecast. -/
  namesUnstatedDate : Text → Bool
  normalizeScanText : Text → Text
  page : Text → PageScan
  /-- Where the measured values of a statement stand in a text. -/
  valueAnchorSpans : Text → Text → List Span

/-! ## A period near the value -/

def periodWindowChars : Nat := 400

def maxScanChars : Nat := 40000

/-- A text in which the value stands, with the windows and the sentences around it. -/
structure UsableText where
  page : PageScan
  windows : List Span
  fragments : List Span

def spanIn (around : List Span) (s : Span) : Bool := around.any fun w => w.1 ≤ s.1 ∧ s.2 ≤ w.2

def isFragmentBreak (c : Char) : Bool := c ∈ ['.', '!', '?', '\n']

def windowOf (scanned : Text) (s : Span) : Span :=
  (s.1 - periodWindowChars, min scanned.length (s.2 + periodWindowChars))

/-- The sentence around a span. -/
def fragmentOf (scanned : Text) (s : Span) : Span :=
  (s.1 - ((scanned.take s.1).reverse.takeWhile (!isFragmentBreak ·)).length,
    s.2 + ((scanned.drop s.2).takeWhile (!isFragmentBreak ·)).length)

namespace UsableText

variable (u : UsableText) (t : PeriodToken)

def hasYearInWindow (year : Nat) : Bool :=
  u.page.years.any fun y => y.2 = year && spanIn u.windows y.1

/-- The year of the token is named in the window, when it has one. -/
def yearConfirmed : Bool := t.year.all u.hasYearInWindow

/-- The year of a month that the window confirms, taken from the page as a whole. -/
def monthYearConfirmedOnPage : Bool :=
  match t.month, t.year with
  | some month, some year =>
    if u.page.months.any fun o => o.month = month && spanIn u.windows o.span &&
        o.attachedYear.any (· ≠ year) then false
    else u.page.lineMonthYears.contains (month, year) ||
      u.page.dates.any fun d => d.month = month && d.year = some year
  | _, _ => false

def monthFound : Bool :=
  if u.page.months.any fun o => some o.month = t.month && spanIn u.windows o.span &&
      (!o.stamped || spanIn u.fragments o.span) then
    u.yearConfirmed t || u.monthYearConfirmedOnPage t
  else false

def dateFound : Bool :=
  u.page.dates.any fun d => some d.day = t.day && some d.month = t.month &&
    (t.year.isNone || d.year.isNone || d.year = t.year) && spanIn u.windows d.span &&
    (t.year.isNone || d.year.isSome || u.yearConfirmed t)

end UsableText

def PeriodToken.months (t : PeriodToken) : List Nat :=
  if t.kind = .quarter then
    -- the code takes a missing or zero number for the first quarter
    let ordinal := max 1 (t.ordinal.getD 1)
    [3 * ordinal - 2, 3 * ordinal - 1, 3 * ordinal]
  else if t.ordinal = some 1 then [1, 2, 3, 4, 5, 6] else [7, 8, 9, 10, 11, 12]

/-- A quarter or a half by its name, by a range of months, or by all its months. -/
def UsableText.spanFound (u : UsableText) (t : PeriodToken) (names : List (Span × Nat)) : Bool :=
  (names.any fun n => some n.2 = t.ordinal && spanIn u.windows n.1 && u.yearConfirmed t) ||
  (u.page.monthRanges.any fun r => t.months.all (fun m => r.2.1 ≤ m && m ≤ r.2.2) &&
    spanIn u.windows r.1 && u.yearConfirmed t) ||
  ((t.months.all fun m => u.page.months.any fun o => o.month = m && !o.stamped &&
    spanIn u.windows o.span) && u.yearConfirmed t)

/-- `_period_token_found`. -/
def periodTokenFound (t : PeriodToken) (u : UsableText) : Bool :=
  match t.kind with
  | .month => u.monthFound t
  | .date => u.dateFound t
  | .quarter => u.spanFound t u.page.quarters
  | .half => u.spanFound t u.page.halves
  | .target => t.year.any u.hasYearInWindow

/-- `_doc_date_found`: the date of a document stands on the page, near the value or not. -/
def docDateFound (t : PeriodToken) (page : PageScan) : Bool :=
  match t.kind with
  | .date =>
    let sameDay := page.dates.filter fun d => some d.day = t.day && some d.month = t.month
    (sameDay.any fun d => t.year.isNone || d.year = t.year) ||
      ((sameDay.any (·.year.isNone)) && page.years.any fun y => some y.2 = t.year)
  | .month =>
    page.months.any fun o => some o.month = t.month &&
      (t.year.isNone || o.attachedYear = t.year ||
        (o.attachedYear.isNone &&
          t.year.any fun year => page.lineMonthYears.contains (o.month, year)))
  | _ => false

/-! ## The gate of the periods -/

def gatedClaimTypes : List String := ["external_fact", "temporal_fact"]

section Gate

variable (reader : PeriodReader)

def scanTexts (raw : List Text) : List Text :=
  (raw.filter (· ≠ [])).map fun text => (reader.normalizeScanText text).take maxScanChars

def usableText (statement scanned : Text) : Option UsableText :=
  let anchors := reader.valueAnchorSpans scanned statement
  if anchors = [] then none
  else some ⟨reader.page scanned, anchors.map (windowOf scanned), anchors.map (fragmentOf scanned)⟩

/-- The periods that none of the texts with the value names near it. -/
def periodMissing (statement : Text) (scanned : List Text) : List PeriodToken :=
  let usable := scanned.filterMap (usableText reader statement)
  (reader.statementPeriodTokens statement).filter fun t =>
    !usable.isEmpty && !t.docDate && !usable.any (periodTokenFound t)

/-- The dates of documents that none of the texts has. -/
def docMissing (statement : Text) (scanned : List Text) : List PeriodToken :=
  (reader.statementPeriodTokens statement).filter fun t =>
    t.docDate && !scanned.isEmpty && !scanned.any fun text => docDateFound t (reader.page text)

def quotedLabels (tokens : List PeriodToken) : Text :=
  "», «".toList.intercalate ((tokens.take 3).map (·.label))

def rejectPeriod (tokens : List PeriodToken) : Text :=
  "период «".toList ++ quotedLabels tokens ++
    ("» не найден рядом со значением на связанной странице — " ++
      "возьми период из текста или напиши, что период не указан").toList

def rejectDocDate (tokens : List PeriodToken) : Text :=
  "дата документа «".toList ++ quotedLabels tokens ++
    ("» не найдена на связанной странице — " ++
      "возьми дату публикации из текста страницы или напиши, " ++
      "что дата на странице не указана").toList

def rejectForecastDate : Text :=
  ("утверждение с прогнозом или ожиданием обязано называть дату, когда прогноз сделан " ++
    "(месяц и год либо дату), или писать «дата прогноза на странице не указана»").toList

/-- A forecast has to name the day it was made on. -/
def forecastDateMissing (statement : Text) : Bool :=
  reader.hasForecastMarker statement && !reader.namesUnstatedDate statement &&
    !(reader.statementPeriodTokens statement).any (·.isForecastDateCapable)

def linkLine (link : Nat) (evidenceIndex claimIndex : Nat) (what : String)
    (tokens : List PeriodToken) : Text :=
  s!"evidence_link[{link}]: evidence {evidenceIndex} {what} of claim {claimIndex}: «".toList ++
    quotedLabels tokens ++ "»".toList

/-- One link against the statement of its claim. -/
def linkRejection (statement : Text) (e : Nat × ProposedLink × List Text) : Option Text :=
  let texts := scanTexts reader e.2.2
  if texts = [] then none
  else
    let period := periodMissing reader statement texts
    let doc := docMissing reader statement texts
    if period = [] ∧ doc = [] then none
    else some ("; ".toList.intercalate
      ((if period = [] then [] else
        [linkLine e.1 e.2.1.evidenceIndex e.2.1.claimIndex "does not confirm the period" period]) ++
      (if doc = [] then [] else
        [linkLine e.1 e.2.1.evidenceIndex e.2.1.claimIndex "does not contain the document date"
          doc])))

/-- The operation against the texts of all its links. -/
def claimRejection (statement : Text) (index : Nat)
    (listed : List (Nat × ProposedLink × List Text)) : Option Text :=
  let scanned := listed.flatMap fun e => scanTexts reader e.2.2
  let period := periodMissing reader statement scanned
  let doc := docMissing reader statement scanned
  let problems := (if forecastDateMissing reader statement then [rejectForecastDate] else []) ++
    (if period = [] then [] else [rejectPeriod period]) ++
    (if doc = [] then [] else [rejectDocDate doc])
  if problems = [] then none
  else some (s!"claim[{index}]: ".toList ++ "; ".toList.intercalate problems)

/-- The statement that the operation is judged by: for a reverify that of its target. -/
def judgedStatement (input : PeriodGateInput) (i : Nat) (claim : ClaimProposal) : Text :=
  let own := strip claim.statement
  if claim.existingClaimId.isSome then
    let target := strip ((input.statementOverrides i).getD [])
    if target = [] then own else target
  else own

/-- The statement of an operation that the gate checks. -/
def gated (input : PeriodGateInput) (i : Nat) : Option Text :=
  (input.claims[i]?).bind fun claim =>
    let statement := judgedStatement input i claim
    if input.alreadyDropped.contains i || !gatedClaimTypes.contains claim.claimType ||
      statement = [] then none else some statement

/-- The links of an operation that the gate checks. -/
def listed (input : PeriodGateInput) (i : Nat) : List (Nat × ProposedLink × List Text) :=
  input.textsByLink.filter (·.2.1.claimIndex = i)

/-- `claim_period_rejections_by_links`. -/
def claimPeriodRejectionsByLinks (input : PeriodGateInput) : PeriodGateDecision where
  claimRejections := fun i =>
    (gated input i).bind fun statement => claimRejection reader statement i (listed input i)
  linkRejections := fun k =>
    (input.textsByLink.find? (·.1 = k)).bind fun e =>
      (gated input e.2.1.claimIndex).bind fun statement => linkRejection reader statement e

end Gate

/-! ## What a link confirms -/

section Confirmed

variable (reader : PeriodReader) (statement : Text)

/-- The texts of a link say enough to judge the token by: the value of the statement for a
period, anything at all for the date of a document. -/
def judges (t : PeriodToken) (scanned : List Text) : Prop :=
  if t.docDate then scanned ≠ [] else scanned.filterMap (usableText reader statement) ≠ []

/-- One of the texts confirms the token. -/
def confirms (t : PeriodToken) (scanned : List Text) : Prop :=
  if t.docDate then ∃ text ∈ scanned, docDateFound t (reader.page text)
  else ∃ u ∈ scanned.filterMap (usableText reader statement), periodTokenFound t u

def scannedOf (e : Nat × ProposedLink × List Text) : List Text := scanTexts reader e.2.2

variable {reader statement}

theorem missing_iff {t : PeriodToken} {scanned : List Text} :
    (t ∈ periodMissing reader statement scanned ∨ t ∈ docMissing reader statement scanned) ↔
      t ∈ reader.statementPeriodTokens statement ∧ judges reader statement t scanned ∧
        ¬ confirms reader statement t scanned := by
  simp only [periodMissing, docMissing, List.mem_filter, Bool.and_eq_true, Bool.not_eq_true',
    List.isEmpty_eq_false_iff, List.any_eq_false, judges, confirms]
  cases hdoc : t.docDate with
  | true =>
    simp only [Bool.true_eq_false, false_and, and_false, false_or, true_and, if_true, ne_eq,
      not_exists, not_and]
  | false =>
    simp only [and_true, Bool.false_eq_true, false_and, and_false, or_false, if_false, ne_eq,
      not_exists, not_and]

theorem missing_eq_nil {scanned : List Text} :
    (periodMissing reader statement scanned = [] ∧ docMissing reader statement scanned = []) ↔
      ∀ t ∈ reader.statementPeriodTokens statement, judges reader statement t scanned →
        confirms reader statement t scanned := by
  constructor
  · rintro ⟨hperiod, hdoc⟩ t ht hjudges
    by_contra hconfirms
    rcases missing_iff.mpr ⟨ht, hjudges, hconfirms⟩ with h | h
    · rw [hperiod] at h
      cases h
    · rw [hdoc] at h
      cases h
  · intro h
    have hnone : ∀ t, ¬ (t ∈ periodMissing reader statement scanned ∨
        t ∈ docMissing reader statement scanned) := by
      intro t hmissing
      obtain ⟨ht, hjudges, hconfirms⟩ := missing_iff.mp hmissing
      exact hconfirms (h t ht hjudges)
    exact ⟨List.eq_nil_iff_forall_not_mem.mpr fun t ht => hnone t (.inl ht),
      List.eq_nil_iff_forall_not_mem.mpr fun t ht => hnone t (.inr ht)⟩

/-- **A link is rejected** where a token of the statement is not confirmed by its texts. -/
theorem linkRejection_isSome {e : Nat × ProposedLink × List Text} :
    (linkRejection reader statement e).isSome ↔ ∃ t ∈ reader.statementPeriodTokens statement,
      judges reader statement t (scannedOf reader e) ∧
        ¬ confirms reader statement t (scannedOf reader e) := by
  rw [linkRejection, scannedOf]
  dsimp only
  split
  · rename_i hnone
    rw [hnone]
    simp [judges]
  · split
    · rename_i hnil
      have hall := missing_eq_nil.mp hnil
      simp only [Option.isSome_none, Bool.false_eq_true, false_iff, not_exists, not_and, not_not]
      exact hall
    · rename_i hnil
      rw [missing_eq_nil] at hnil
      push Not at hnil
      simpa using hnil

/-- The texts of several links judge what those of one of them do. -/
theorem judges_flatMap {t : PeriodToken} {es : List (Nat × ProposedLink × List Text)} :
    judges reader statement t (es.flatMap (scannedOf reader)) ↔
      ∃ e ∈ es, judges reader statement t (scannedOf reader e) := by
  cases hdoc : t.docDate <;>
    simp [judges, hdoc, List.filterMap_flatMap]

theorem confirms_flatMap {t : PeriodToken} {es : List (Nat × ProposedLink × List Text)} :
    confirms reader statement t (es.flatMap (scannedOf reader)) ↔
      ∃ e ∈ es, confirms reader statement t (scannedOf reader e) := by
  cases hdoc : t.docDate with
  | true =>
    simp only [confirms, hdoc, if_true, List.mem_flatMap]
    grind
  | false =>
    simp only [confirms, hdoc, Bool.false_eq_true, if_false, List.filterMap_flatMap,
      List.mem_flatMap]
    grind

/-- **An operation is rejected** where a token is not confirmed by any of its links. -/
theorem claimRejection_isSome {index : Nat} {es : List (Nat × ProposedLink × List Text)} :
    (claimRejection reader statement index es).isSome ↔
      forecastDateMissing reader statement = true ∨
        ∃ t ∈ reader.statementPeriodTokens statement,
          (∃ e ∈ es, judges reader statement t (scannedOf reader e)) ∧
            ∀ e ∈ es, ¬ confirms reader statement t (scannedOf reader e) := by
  have hmissing := @missing_eq_nil reader statement (es.flatMap (scannedOf reader))
  simp only [judges_flatMap, confirms_flatMap] at hmissing
  have hproblems : (claimRejection reader statement index es).isSome ↔
      ¬ (forecastDateMissing reader statement = false ∧
        periodMissing reader statement (es.flatMap (scannedOf reader)) = [] ∧
          docMissing reader statement (es.flatMap (scannedOf reader)) = []) := by
    have hscanned : (es.flatMap fun e => scanTexts reader e.2.2) =
        es.flatMap (scannedOf reader) := rfl
    rw [claimRejection, hscanned]
    by_cases hforecast : forecastDateMissing reader statement = true
    · simp [hforecast]
    · by_cases hperiod : periodMissing reader statement (es.flatMap (scannedOf reader)) = []
      · by_cases hdoc : docMissing reader statement (es.flatMap (scannedOf reader)) = []
        · simp [hforecast, hperiod, hdoc]
        · simp [hforecast, hperiod, hdoc]
      · simp [hforecast, hperiod]
  rw [hproblems, hmissing]
  cases forecastDateMissing reader statement with
  | true => simp
  | false =>
    simp only [true_and, Bool.false_eq_true, false_or]
    push Not
    exact Iff.rfl

end Confirmed

/-! ## No operation without its support -/

section Support

variable (reader : PeriodReader) (host : BoundaryHost) (evidence : List SessionEvidence)
  (packIds : List Uuid) (p : CuratorProposal)

/-- An operation is rejected with the last of its links. -/
def RejectedWithLinks (input : PeriodGateInput) : Prop :=
  ∀ i, listed input i ≠ [] →
    (∀ e ∈ listed input i,
      ((claimPeriodRejectionsByLinks reader input).linkRejections e.1).isSome) →
    ((claimPeriodRejectionsByLinks reader input).claimRejections i).isSome

/-- Every link of the operation misses a token, and every token has a link that confirms it. -/
structure Scattered (input : PeriodGateInput) (i : Nat) (statement : Text) : Prop where
  gated : gated input i = some statement
  listed_ne : listed input i ≠ []
  dated : forecastDateMissing reader statement = false
  missed : ∀ e ∈ listed input i, ∃ t ∈ reader.statementPeriodTokens statement,
    judges reader statement t (scannedOf reader e) ∧
      ¬ confirms reader statement t (scannedOf reader e)
  confirmed : ∀ t ∈ reader.statementPeriodTokens statement,
    (∃ e ∈ listed input i, judges reader statement t (scannedOf reader e)) →
      ∃ e ∈ listed input i, confirms reader statement t (scannedOf reader e)

/-- The supporting links of an operation. -/
def supportsOf (i : Nat) : List (ProposedLink × Nat) :=
  p.evidenceLinks.zipIdx.filter fun e => e.1.relation = .supports ∧ e.1.claimIndex = i

/-- An operation is dropped with the last of its supporting links. -/
def DroppedWithSupport (dropped : Dropped) : Prop :=
  ∀ i, supportsOf p i ≠ [] →
    (∀ e ∈ supportsOf p i, e.2 ∈ linksWithoutClaimValue host evidence packIds p dropped) →
      i ∈ unlinkedClaims p (linksWithoutClaimValue host evidence packIds p dropped)

/-- The link is checked, and its texts lack the value of the claim. -/
def LacksValue (dropped : Dropped) (link : ProposedLink) : Prop :=
  dropped.has link.claimIndex = false ∧ ∃ claim texts,
    p.claims[link.claimIndex]? = some claim ∧ linkValueTexts evidence link = some texts ∧
      host.linkValueGate (gateStatement host evidence packIds p link.claimIndex claim) texts =
        .absent

/-- No supporting link of the operation has its value, and a link of another relation is left. -/
structure OnlyCounters (dropped : Dropped) (i : Nat) : Prop where
  supports_ne : supportsOf p i ≠ []
  lack : ∀ e ∈ supportsOf p i, LacksValue host evidence packIds p dropped e.1
  counter : ∃ link ∈ p.evidenceLinks, link.claimIndex = i ∧ link.relation ≠ .supports

variable {reader host evidence packIds p}

theorem linkRejections_eq {input : PeriodGateInput} (hkeys : (input.textsByLink.map (·.1)).Nodup)
    {e : Nat × ProposedLink × List Text} (he : e ∈ input.textsByLink) :
    (claimPeriodRejectionsByLinks reader input).linkRejections e.1 =
      (gated input e.2.1.claimIndex).bind fun statement => linkRejection reader statement e := by
  have hfound : input.textsByLink.find? (·.1 = e.1) = some e := by
    cases hf : input.textsByLink.find? (·.1 = e.1) with
    | none =>
      have := List.find?_eq_none.mp hf e he
      simp at this
    | some e' =>
      have hmem := List.mem_of_find?_eq_some hf
      have hkey : e'.1 = e.1 := by simpa using List.find?_some hf
      rw [List.inj_on_of_nodup_map hkeys hmem he hkey]
  simp only [claimPeriodRejectionsByLinks, hfound, Option.bind_some]

/-- **The gate of the periods** rejects an operation with the last of its links exactly when no
operation is scattered. -/
theorem rejectedWithLinks_iff {input : PeriodGateInput}
    (hkeys : (input.textsByLink.map (·.1)).Nodup) :
    RejectedWithLinks reader input ↔ ∀ i statement, ¬ Scattered reader input i statement := by
  have hlisted : ∀ {i}, ∀ e ∈ listed input i, e ∈ input.textsByLink ∧ e.2.1.claimIndex = i := by
    intro i e he
    obtain ⟨hmem, hindex⟩ := List.mem_filter.mp he
    exact ⟨hmem, of_decide_eq_true hindex⟩
  constructor
  · intro h i statement hscattered
    have hclaim : ((claimPeriodRejectionsByLinks reader input).claimRejections i).isSome := by
      apply h i hscattered.listed_ne
      intro e he
      rw [linkRejections_eq hkeys (hlisted e he).1, (hlisted e he).2, hscattered.gated,
        Option.bind_some, linkRejection_isSome]
      exact hscattered.missed e he
    simp only [claimPeriodRejectionsByLinks, hscattered.gated, Option.bind_some] at hclaim
    rcases claimRejection_isSome.mp hclaim with hforecast | ⟨t, ht, hjudges, hnone⟩
    · rw [hscattered.dated] at hforecast
      cases hforecast
    · obtain ⟨e, he, hconfirms⟩ := hscattered.confirmed t ht hjudges
      exact hnone e he hconfirms
  · intro h i hne hrejected
    obtain ⟨e₀, he₀⟩ := List.exists_mem_of_ne_nil _ hne
    have hfirst := hrejected e₀ he₀
    rw [linkRejections_eq hkeys (hlisted e₀ he₀).1, (hlisted e₀ he₀).2] at hfirst
    cases hgated : gated input i with
    | none =>
      rw [hgated] at hfirst
      cases hfirst
    | some statement =>
      simp only [claimPeriodRejectionsByLinks, hgated, Option.bind_some, claimRejection_isSome]
      by_contra hkept
      push Not at hkept
      refine h i statement ⟨hgated, hne, by simpa using hkept.1, ?_, ?_⟩
      · intro e he
        have hlink := hrejected e he
        rw [linkRejections_eq hkeys (hlisted e he).1, (hlisted e he).2, hgated,
          Option.bind_some] at hlink
        exact linkRejection_isSome.mp hlink
      · rintro t ht ⟨e, he, hjudges⟩
        exact hkept.2 t ht ⟨e, he, hjudges⟩

theorem mem_linksWithoutClaimValue {dropped : Dropped} {k : Nat} :
    k ∈ linksWithoutClaimValue host evidence packIds p dropped ↔
      ∃ link, p.evidenceLinks[k]? = some link ∧ link.relation = .supports ∧
        LacksValue host evidence packIds p dropped link := by
  simp only [linksWithoutClaimValue, List.mem_filterMap, Prod.exists,
    List.mk_mem_zipIdx_iff_getElem?]
  constructor
  · rintro ⟨link, k', hk, h⟩
    split at h
    · rename_i hchecked
      split at h
      · rename_i claim texts hclaim htexts
        split at h
        · rename_i habsent
          obtain rfl := Option.some.inj h
          exact ⟨link, hk, hchecked.1, by simpa using hchecked.2, claim, texts, hclaim, htexts,
            habsent⟩
        · cases h
      · cases h
    · cases h
  · rintro ⟨link, hk, hsupports, hdropped, claim, texts, hclaim, htexts, habsent⟩
    refine ⟨link, k, hk, ?_⟩
    rw [if_pos ⟨hsupports, by simpa using hdropped⟩, hclaim, htexts]
    exact if_pos habsent

theorem mem_supportsOf {i : Nat} {e : ProposedLink × Nat} : e ∈ supportsOf p i ↔
    p.evidenceLinks[e.2]? = some e.1 ∧ e.1.relation = .supports ∧ e.1.claimIndex = i := by
  rw [supportsOf, List.mem_filter, decide_eq_true_eq]
  exact and_congr_left' List.mem_zipIdx_iff_getElem?

theorem mem_unlinkedClaims {removed : List Nat} {i : Nat} : i ∈ unlinkedClaims p removed ↔
    i < p.claims.length ∧
      (∃ (k : Nat) (link : ProposedLink), p.evidenceLinks[k]? = some link ∧ k ∈ removed ∧
        link.claimIndex = i) ∧
      ∀ (k : Nat) (link : ProposedLink), p.evidenceLinks[k]? = some link →
        link.claimIndex = i → k ∈ removed := by
  simp only [unlinkedClaims, List.mem_filter, List.mem_range, List.any_eq_true, Prod.exists,
    List.mk_mem_zipIdx_iff_getElem?, decide_eq_true_eq, Bool.decide_and, Bool.and_eq_true]
  refine and_congr_right fun _ => and_congr ?_ ?_
  · constructor
    · rintro ⟨link, k, hk, hremoved, hindex⟩
      exact ⟨k, link, hk, hremoved, hindex⟩
    · rintro ⟨k, link, hk, hremoved, hindex⟩
      exact ⟨link, k, hk, hremoved, hindex⟩
  · constructor
    · intro h k link hk hindex
      by_contra hkept
      exact h ⟨link, k, hk, hkept, hindex⟩
    · rintro h ⟨link, k, hk, hkept, hindex⟩
      exact hkept (h k link hk hindex)

/-- **The gate of the values** drops an operation with the last of its supporting links exactly
when no operation is left with counterevidence only. -/
theorem droppedWithSupport_iff {dropped : Dropped} :
    DroppedWithSupport host evidence packIds p dropped ↔
      ∀ i, ¬ OnlyCounters host evidence packIds p dropped i := by
  have hremoved : ∀ {i}, ∀ e ∈ supportsOf p i,
      e.2 ∈ linksWithoutClaimValue host evidence packIds p dropped ↔
        LacksValue host evidence packIds p dropped e.1 := by
    intro i e he
    obtain ⟨hk, hsupports, -⟩ := mem_supportsOf.mp he
    rw [mem_linksWithoutClaimValue]
    constructor
    · rintro ⟨link, hk', -, hlacks⟩
      rwa [Option.some.inj (hk.symm.trans hk')]
    · exact fun hlacks => ⟨e.1, hk, hsupports, hlacks⟩
  constructor
  · intro h i hcounters
    have hmem := h i hcounters.supports_ne fun e he => (hremoved e he).mpr (hcounters.lack e he)
    obtain ⟨link, hlink, hindex, hrelation⟩ := hcounters.counter
    obtain ⟨k, hk⟩ := List.mem_iff_getElem?.mp hlink
    have hkremoved := (mem_unlinkedClaims.mp hmem).2.2 k link hk hindex
    obtain ⟨link', hk', hsupports, -⟩ := mem_linksWithoutClaimValue.mp hkremoved
    rw [Option.some.inj (hk.symm.trans hk')] at hrelation
    exact hrelation hsupports
  · intro h i hne hall
    obtain ⟨e, he⟩ := List.exists_mem_of_ne_nil _ hne
    obtain ⟨hk, -, hindex⟩ := mem_supportsOf.mp he
    obtain ⟨-, claim, -, hclaim, -, -⟩ := (hremoved e he).mp (hall e he)
    rw [hindex] at hclaim
    refine mem_unlinkedClaims.mpr ⟨(List.getElem?_eq_some_iff.mp hclaim).1,
      ⟨e.2, e.1, hk, hall e he, hindex⟩, ?_⟩
    intro k link hlink hlinkindex
    by_cases hsupports : link.relation = .supports
    · exact hall (link, k) (mem_supportsOf.mpr ⟨hlink, hsupports, hlinkindex⟩)
    · exact absurd ⟨hne, fun e he => (hremoved e he).mp (hall e he), link,
        List.mem_of_getElem? hlink, hlinkindex, hsupports⟩ (h i)

/-! ## Through both gates -/

theorem has_add {d : Dropped} {e : Nat × DropReason} {i : Nat} :
    (d.add e).has i ↔ d.has i ∨ e.1 = i := by
  rw [Dropped.add]
  split
  · rename_i hhas
    constructor
    · exact .inl
    · rintro (h | rfl)
      · exact h
      · exact hhas
  · rw [Dropped.has, Dropped.has, List.lookup_append, Option.isSome_or, Bool.or_eq_true]
    refine or_congr Iff.rfl ?_
    by_cases h : i = e.1
    · simp [List.lookup, h]
    · simp [List.lookup, beq_eq_false_iff_ne.mpr h, Ne.symm h]

theorem has_addAll {es : List (Nat × DropReason)} {d : Dropped} {i : Nat} :
    (d.addAll es).has i ↔ d.has i ∨ ∃ e ∈ es, e.1 = i := by
  induction es generalizing d with
  | nil => simp [Dropped.addAll]
  | cons e es ih =>
    have hstep : d.addAll (e :: es) = (d.add e).addAll es := rfl
    rw [hstep, ih, has_add]
    simp only [List.mem_cons, exists_eq_or_imp]
    rw [or_assoc]

theorem periodGateInput_keys :
    ((periodGateInput host evidence packIds p).textsByLink.map (·.1)).Nodup := by
  have hsub : ((periodGateInput host evidence packIds p).textsByLink.map (·.1)).Sublist
      (p.evidenceLinks.zipIdx.map (·.2)) := by
    rw [periodGateInput]
    dsimp only
    generalize p.evidenceLinks.zipIdx = entries
    induction entries with
    | nil => exact List.Sublist.refl _
    | cons e entries ih =>
      rw [List.filterMap_cons]
      split
      · exact ih.cons _
      · rename_i x hx
        split at hx
        · obtain ⟨texts, -, rfl⟩ := Option.map_eq_some_iff.mp hx
          exact ih.cons_cons _
        · cases hx
  exact hsub.nodup (by rw [List.zipIdx_map_snd]; exact List.nodup_range')

/-- A link that the gate of the periods checks. -/
theorem mem_listed {i : Nat} {e : Nat × ProposedLink × List Text}
    (he : e ∈ listed (periodGateInput host evidence packIds p) i) :
    p.evidenceLinks[e.1]? = some e.2.1 ∧ e.2.1.relation = .supports ∧ e.2.1.claimIndex = i ∧
      e.1 ∉ valueRemoved host evidence packIds p := by
  obtain ⟨hmem, hindex⟩ := List.mem_filter.mp he
  obtain ⟨⟨link, k⟩, hk, hsome⟩ := List.mem_filterMap.mp hmem
  dsimp only at hsome
  split at hsome
  · rename_i hkept
    obtain ⟨texts, -, rfl⟩ := Option.map_eq_some_iff.mp hsome
    exact ⟨List.mk_mem_zipIdx_iff_getElem?.mp hk, hkept.2, of_decide_eq_true hindex, hkept.1⟩
  · cases hsome

theorem mem_removedLinks {k : Nat} : k ∈ removedLinks host evidence packIds p ↔
    k ∈ valueRemoved host evidence packIds p ∨ ∃ link, p.evidenceLinks[k]? = some link ∧
      ((periodDecision host evidence packIds p).linkRejections k).isSome ∧
        (periodDecision host evidence packIds p).claimRejections link.claimIndex = none := by
  rw [removedLinks, List.mem_append, List.mem_filterMap]
  refine or_congr Iff.rfl ?_
  simp only [Prod.exists, List.mk_mem_zipIdx_iff_getElem?]
  constructor
  · rintro ⟨link, k', hk, h⟩
    split at h
    · rename_i hrejected
      obtain rfl := Option.some.inj h
      exact ⟨link, hk, hrejected⟩
    · cases h
  · rintro ⟨link, hk, hrejected⟩
    exact ⟨link, k, hk, if_pos hrejected⟩

/-- A link that the boundary removes for its periods is one that the gate checks. -/
theorem listed_of_linkRejection
    (hgate : host.claimPeriodRejections = claimPeriodRejectionsByLinks reader) {k : Nat}
    (h : ((periodDecision host evidence packIds p).linkRejections k).isSome) :
    periodDecision host evidence packIds p =
        claimPeriodRejectionsByLinks reader (periodGateInput host evidence packIds p) ∧
      ∃ i, ∃ e ∈ listed (periodGateInput host evidence packIds p) i, e.1 = k ∧
        i < p.claims.length := by
  rw [periodDecision] at h ⊢
  split at h
  · rename_i hon
    rw [if_pos hon, hgate]
    rw [hgate] at h
    refine ⟨rfl, ?_⟩
    obtain ⟨reason, hreason⟩ := Option.isSome_iff_exists.mp h
    obtain ⟨e, he, hsome⟩ := Option.bind_eq_some_iff.mp hreason
    obtain ⟨statement, hstatement, -⟩ := Option.bind_eq_some_iff.mp hsome
    obtain ⟨claim, hclaim, -⟩ := Option.bind_eq_some_iff.mp hstatement
    have hlength := (List.getElem?_eq_some_iff.mp hclaim).1
    refine ⟨e.2.1.claimIndex, e, List.mem_filter.mpr ⟨List.mem_of_find?_eq_some he,
      decide_eq_true rfl⟩, by simpa using List.find?_some he, ?_⟩
    simpa [periodGateInput, stagedClaims] using hlength
  · cases h

/-- **An operation that the two gates leave keeps a supporting link.** -/
theorem survivor_keeps_support
    (hgate : host.claimPeriodRejections = claimPeriodRejectionsByLinks reader)
    (hperiod : RejectedWithLinks reader (periodGateInput host evidence packIds p))
    (hvalue : DroppedWithSupport host evidence packIds p (reverifyDropped host evidence packIds p))
    {i : Nat} (hne : supportsOf p i ≠ [])
    (hsurvives : (periodDropped host evidence packIds p).has i = false) :
    ∃ e ∈ supportsOf p i, e.2 ∉ removedLinks host evidence packIds p := by
  by_contra hall
  push Not at hall
  rw [periodDropped, Bool.eq_false_iff, ne_eq, has_addAll, not_or] at hsurvives
  obtain ⟨hvalued, hnotRejected⟩ := hsurvives
  have hclaims : i < p.claims.length → (periodDecision host evidence packIds p).claimRejections i =
      none := by
    intro hi
    by_contra hsome
    obtain ⟨reason, hreason⟩ := Option.ne_none_iff_exists'.mp hsome
    exact hnotRejected ⟨(i, .period reason), List.mem_filterMap.mpr
      ⟨i, List.mem_range.mpr hi, by rw [hreason]; rfl⟩, rfl⟩
  have hlength : i < p.claims.length := by
    obtain ⟨e, he⟩ := List.exists_mem_of_ne_nil _ hne
    obtain ⟨hk, -, hindex⟩ := mem_supportsOf.mp he
    rcases mem_removedLinks.mp (hall e he) with hremoved | ⟨-, -, hrejected, -⟩
    · obtain ⟨link, hk', -, -, claim, -, hclaim, -, -⟩ := mem_linksWithoutClaimValue.mp hremoved
      rw [← Option.some.inj (hk.symm.trans hk'), hindex] at hclaim
      exact (List.getElem?_eq_some_iff.mp hclaim).1
    · obtain ⟨-, j, e', he', hkey, hj⟩ := listed_of_linkRejection hgate hrejected
      obtain ⟨hk', -, hindex', -⟩ := mem_listed he'
      rw [hkey] at hk'
      rwa [← hindex, Option.some.inj (hk.symm.trans hk'), hindex']
  by_cases hremoved : ∀ e ∈ supportsOf p i, e.2 ∈ valueRemoved host evidence packIds p
  · -- the gate of the values took them all
    have hunlinked := hvalue i hne hremoved
    apply hvalued
    rw [valueDropped, has_addAll]
    exact .inr ⟨(i, .noClaimValue), List.mem_map.mpr ⟨i, hunlinked, rfl⟩, rfl⟩
  · -- the gate of the periods took those that the other one left
    push Not at hremoved
    obtain ⟨e₀, he₀, hkept⟩ := hremoved
    have hrejected : ∀ e ∈ supportsOf p i, e.2 ∉ valueRemoved host evidence packIds p →
        ((periodDecision host evidence packIds p).linkRejections e.2).isSome := by
      intro e he hnot
      rcases mem_removedLinks.mp (hall e he) with h | ⟨-, -, h, -⟩
      · exact absurd h hnot
      · exact h
    obtain ⟨hdecision, j, e', he', hkey, -⟩ :=
      listed_of_linkRejection hgate (hrejected e₀ he₀ hkept)
    obtain ⟨hk', -, hindex', -⟩ := mem_listed he'
    obtain ⟨hk₀, -, hindex₀⟩ := mem_supportsOf.mp he₀
    rw [hkey] at hk'
    obtain rfl : j = i := by rw [← hindex', ← Option.some.inj (hk₀.symm.trans hk'), hindex₀]
    have hclaim := hperiod j (List.ne_nil_of_mem he') fun e he => by
      obtain ⟨hk, hsupports, hindex, hnot⟩ := mem_listed he
      rw [← hdecision]
      exact hrejected (e.2.1, e.1) (mem_supportsOf.mpr ⟨hk, hsupports, hindex⟩) hnot
    rw [← hdecision, hclaims hlength] at hclaim
    cases hclaim

/-- An operation of one link is not scattered. -/
theorem not_scattered_of_one_link {input : PeriodGateInput} {i : Nat} {statement : Text}
    {e : Nat × ProposedLink × List Text} (hone : ∀ e' ∈ listed input i, e' = e) :
    ¬ Scattered reader input i statement := by
  intro h
  obtain ⟨e', he'⟩ := List.exists_mem_of_ne_nil _ h.listed_ne
  obtain rfl := hone e' he'
  obtain ⟨t, ht, hjudges, hmissed⟩ := h.missed e' he'
  obtain ⟨e'', he'', hconfirms⟩ := h.confirmed t ht ⟨e', he', hjudges⟩
  rw [hone e'' he''] at hconfirms
  exact hmissed hconfirms

/-- **No operation outlives its support** in the gates exactly when none is scattered over links
that miss different tokens and none is left with counterevidence only; then one that passes both
gates of the boundary keeps a supporting link. -/
theorem support_survives_iff (reader : PeriodReader) (host : BoundaryHost)
    (evidence : List SessionEvidence) (packIds : List Uuid) (p : CuratorProposal)
    (input : PeriodGateInput) (dropped : Dropped)
    (hgate : host.claimPeriodRejections = claimPeriodRejectionsByLinks reader)
    (hkeys : (input.textsByLink.map (·.1)).Nodup) :
    (RejectedWithLinks reader input ↔ ∀ i statement, ¬ Scattered reader input i statement) ∧
    (DroppedWithSupport host evidence packIds p dropped ↔
      ∀ i, ¬ OnlyCounters host evidence packIds p dropped i) ∧
    ((∀ i statement,
        ¬ Scattered reader (periodGateInput host evidence packIds p) i statement) →
      (∀ i, ¬ OnlyCounters host evidence packIds p (reverifyDropped host evidence packIds p) i) →
      ∀ i, supportsOf p i ≠ [] → (periodDropped host evidence packIds p).has i = false →
        ∃ e ∈ supportsOf p i, e.2 ∉ removedLinks host evidence packIds p) := by
  refine ⟨rejectedWithLinks_iff hkeys, droppedWithSupport_iff, fun hscattered hcounters i => ?_⟩
  exact survivor_keeps_support hgate ((rejectedWithLinks_iff periodGateInput_keys).mpr hscattered)
    (droppedWithSupport_iff.mpr hcounters)

end Support

/-! ## Two months on two pages -/

/-- Two months with one value. -/
def monthsStatement : Text := "В мае 2026 года и в июне 2026 года 5,5%".toList

def mayPage : Text := "В мае 2026 года 5,5%".toList

def junePage : Text := "В июне 2026 года 5,5%".toList

/-- What the expressions find in the statement and on the two pages. -/
def monthsReader : PeriodReader where
  statementPeriodTokens := fun statement =>
    if statement = monthsStatement then
      [{ kind := .month, month := some 5, year := some 2026, label := "мае 2026".toList },
        { kind := .month, month := some 6, year := some 2026, label := "июне 2026".toList }]
    else []
  hasForecastMarker := fun _ => false
  namesUnstatedDate := fun _ => false
  normalizeScanText := fun text => text
  page := fun text =>
    if text = mayPage then
      ⟨[⟨(2, 5), 5, false, some 2026⟩], [((6, 10), 2026)], [], [], [], [], [(5, 2026)]⟩
    else if text = junePage then
      ⟨[⟨(2, 6), 6, false, some 2026⟩], [((7, 11), 2026)], [], [], [], [], [(6, 2026)]⟩
    else ⟨[], [], [], [], [], [], []⟩
  valueAnchorSpans := fun text _ =>
    if text = mayPage then [(16, 19)] else if text = junePage then [(17, 20)] else []

def monthsClaim : ClaimProposal :=
  ⟨monthsStatement, none, [], "external_fact", ∅, none, []⟩

/-- The operation with a link to each of the pages. -/
def monthsInput (pages : List Text) : PeriodGateInput where
  claims := [monthsClaim]
  textsByLink := pages.zipIdx.map fun e => (e.2, ⟨e.2, 0, .supports⟩, [e.1])
  alreadyDropped := []
  statementOverrides := fun _ => none

/-- A host on whose pages no value is found. -/
def absentHost : BoundaryHost where
  uuids := .plain
  anchor := fun _ => none
  emptyProposalDefect := fun _ => false
  linkValueGate := fun _ _ => .absent
  valueDuplicates := fun _ _ _ => none
  claimPeriodRejections := claimPeriodRejectionsByLinks monthsReader
  parseDay := fun _ => none
  parseTime := fun _ => none
  rules := fun _ => none
  questionsMax := 4
  curatorRecordGates := true

def newsPage : SessionEvidence :=
  ⟨⟨"page", "source_assertion"⟩, ['s'], ['u'], "Новости".toList, none⟩

/-- The operation with a link of each of the relations to one page. -/
def monthsProposal (relations : List EvidenceRelation) : CuratorProposal :=
  ⟨['s'], [monthsClaim], relations.map fun r => ⟨0, 0, r⟩, [], []⟩

/-- With one link there is nothing that it could outlive. -/
theorem support_survives_one_link :
    RejectedWithLinks monthsReader (monthsInput [mayPage]) ∧
      DroppedWithSupport absentHost [newsPage] [] (monthsProposal [.supports]) [] := by
  obtain ⟨hperiod, hvalue, -⟩ := support_survives_iff monthsReader absentHost [newsPage] []
    (monthsProposal [.supports]) (monthsInput [mayPage]) [] rfl (by decide)
  refine ⟨hperiod.mpr fun i statement => ?_, hvalue.mpr fun i hcounters => ?_⟩
  · apply not_scattered_of_one_link
    intro e he
    exact List.mem_singleton.mp (List.mem_of_mem_filter he)
  · obtain ⟨link, hlink, -, hrelation⟩ := hcounters.counter
    rw [List.mem_singleton.mp hlink] at hrelation
    exact hrelation rfl

/-- Each page misses a month of the other one, and the counterevidence keeps an operation whose
value no page has. -/
theorem support_outlived :
    ¬ RejectedWithLinks monthsReader (monthsInput [mayPage, junePage]) ∧
      ¬ DroppedWithSupport absentHost [newsPage] [] (monthsProposal [.supports, .counters]) [] := by
  constructor
  · intro h
    have hrejected := h 0 (by decide) (by decide)
    exact absurd hrejected (by decide)
  · intro h
    have hdropped := h 0 (by decide) (by decide)
    exact absurd hdropped (by decide)

end Noezema.Cognition.PeriodGate
