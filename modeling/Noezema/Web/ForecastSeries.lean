import Noezema.Lib.HeadGroups
import Noezema.Lib.MoveBehind

/-! # The forecast series of an answer card

The records of a card that are forecasts of one producer, of one indicator and of overlapping
horizons are put into groups, each record compared with the head of a group only
(`forecastMarks`). The record of the latest forecast date is marked as the actual one of its
group, the earlier ones as outdated, and those without a date as undated; the stale ones then go
behind the rest of their series (`staleAfterCurrent`).

Overlap of horizons and equality of indicators are not transitive, so a group may hold records
that are not of one series, and which ones depends on the ids (`forecastMarks_own_iff`).
-/

namespace Noezema.Web

open Noezema.Lib

/-- Year, month and day, in the order of the calendar. -/
abbrev CalendarDate := ℕ ×ₗ ℕ ×ₗ ℕ

def daysInMonth (year month : Nat) : Nat :=
  if month = 2 then
    if year % 4 = 0 ∧ (year % 100 ≠ 0 ∨ year % 400 = 0) then 29 else 28
  else if month ∈ [4, 6, 9, 11] then 30 else 31

/-- The date, when there is one. -/
def calendarDate (year month day : Nat) : Option CalendarDate :=
  if 1 ≤ year ∧ year ≤ 9999 ∧ 1 ≤ month ∧ month ≤ 12 ∧ 1 ≤ day ∧ day ≤ daysInMonth year month then
    some (toLex (year, toLex (month, day)))
  else none

inductive PeriodKind where
  | month | date | quarter | half | target
deriving DecidableEq

/-- A period that a statement names. -/
structure PeriodToken where
  kind : PeriodKind
  month : Option Nat := none
  day : Option Nat := none
  year : Option Nat := none
  /-- It stands after a marker of the date of a document. -/
  docDate : Bool := false
  /-- A marker of a decision stands next to one of its occurrences. -/
  decision : Bool := false

def PeriodToken.isForecastDateCapable (t : PeriodToken) : Bool :=
  t.kind = .date || (t.kind = .month && t.year.isSome)

/-- What the closed vocabularies read in a statement. -/
structure StatementReading where
  forecastMarker : Bool
  /-- It names a realized value. -/
  realized : Bool
  /-- The roots of the families of the producers that it names. -/
  roots : List String
  sberbank : Bool
  /-- The producers that it names only inside a clause of somebody's expectation. -/
  foreignExpectations : List String
  survey : Bool
  tokens : List PeriodToken
  /-- The years of the phrases that are a horizon for the card only. -/
  vitrineYears : List Nat
  territoryGroups : Finset Nat
  qualifierGroups : Finset Nat
  namesQualifier : Bool
  indicatorWords : List String

structure ForecastRecord where
  claimId : String
  statement : StatementReading
  asOf : Option CalendarDate
  metric : Option String

/-- The producer, and whether it publishes a survey or a forecast of its own. -/
structure SeriesKey where
  survey : Bool
  root : String
deriving DecidableEq

structure Forecast where
  record : ForecastRecord
  seriesKey : SeriesKey
  producerName : String
  horizon : Finset Nat
  date : Option CalendarDate
  dateLabel : String

inductive MarkKind where
  | actual | outdated | undated
deriving DecidableEq

/-- The mark of a record, with what it tells of the actual record of the series. -/
structure ForecastMark where
  claimId : String
  kind : MarkKind
  series : SeriesKey × Nat
  producer : String
  dateLabel : String
deriving DecidableEq

def monthGenitive : List String :=
  ["января", "февраля", "марта", "апреля", "мая", "июня", "июля", "августа", "сентября",
    "октября", "ноября", "декабря"]

def renderDate (day month : Option Nat) (year : Nat) : String :=
  match month.bind fun m => if 1 ≤ m then monthGenitive[m - 1]? else none with
  | some name =>
    match day with
    | some d => s!"{d} {name} {year}"
    | none => s!"{name} {year}"
  | none => toString year

/-- Zero and nothing stand for one. -/
def orOne : Option Nat → Nat
  | some (n + 1) => n + 1
  | _ => 1

def tokenDate (t : PeriodToken) : Option (CalendarDate × String) := do
  let year ← t.year
  let day := if t.kind = .date then t.day else none
  let date ← calendarDate year (orOne t.month) (orOne day)
  some (date, renderDate day t.month year)

/-- The latest of the dates that the tokens name, the first of equal ones. -/
def latestToken (tokens : List PeriodToken) : Option (CalendarDate × String) :=
  (tokens.filterMap tokenDate).argmax (·.1)

def decisionDate (tokens : List PeriodToken) : Option (CalendarDate × String) :=
  latestToken (tokens.filter fun t => !t.docDate && t.isForecastDateCapable && t.decision)

/-- The date of the document that the statement names, then that of a decision, then the anchor
of the record. -/
def forecastDate (statement : StatementReading) (asOf : Option CalendarDate) :
    Option (CalendarDate × String) :=
  (latestToken (statement.tokens.filter fun t => t.docDate && t.isForecastDateCapable)).or
    ((decisionDate statement.tokens).or
      (asOf.map fun d => (d, renderDate (some (ofLex (ofLex d).2).2) (some (ofLex (ofLex d).2).1)
        (ofLex d).1)))

def sberLinkRoot : String := "sbercib"

/-- The one producer that the statement names. -/
def producer (statement : StatementReading) : Option String :=
  match statement.roots with
  | [] => if statement.sberbank then some sberLinkRoot else none
  | [root] => some root
  | _ => none

def horizon (statement : StatementReading) : Finset Nat :=
  (statement.tokens.filterMap fun t => if t.kind = .target then t.year else none).toFinset ∪
    statement.vitrineYears.toFinset

/-- The roots of the indicators that the card can name. -/
def seriesIndicatorStems : List String := ["инфля", "ставк", "зарплат", "безработ", "доход"]

def namesIndicator (stems : List String) (core : String) : Bool := stems.any (·.startsWith core)

def groupsDisjoint (left right : Finset Nat) : Bool :=
  decide (left.Nonempty) && decide (right.Nonempty) && decide (left ∩ right = ∅)

/-- A metric that is declared and not empty. -/
def declaredMetric (r : ForecastRecord) : Option String := r.metric.filter (· ≠ "")

def sameIndicator (left right : ForecastRecord) : Bool :=
  match declaredMetric left, declaredMetric right with
  | some l, some r => l = r
  | _, _ =>
    !groupsDisjoint left.statement.territoryGroups right.statement.territoryGroups &&
    !groupsDisjoint left.statement.qualifierGroups right.statement.qualifierGroups &&
    left.statement.namesQualifier == right.statement.namesQualifier &&
    seriesIndicatorStems.any fun core =>
      namesIndicator left.statement.indicatorWords core &&
        namesIndicator right.statement.indicatorWords core

def surveyNameSuffix : String := "опрос"

section Marks

-- the names of the producers of the closed vocabulary
variable (sourceName : String → Option String)

def producerName (key : SeriesKey) : String :=
  let name := (sourceName key.root).getD key.root
  if key.survey then s!"{name} ({surveyNameSuffix})" else name

/-- Whether the record is a forecast, whose, in which role, for which horizon and of which
date. -/
def read (record : ForecastRecord) : Option Forecast := do
  let statement := record.statement
  guard (statement.forecastMarker && !statement.realized)
  let root ← producer statement
  guard (!statement.foreignExpectations.contains root)
  guard (horizon statement ≠ ∅)
  let key : SeriesKey := ⟨statement.survey, root⟩
  let found := forecastDate statement record.asOf
  some ⟨record, key, producerName sourceName key, horizon statement, found.map (·.1),
    (found.map (·.2)).getD ""⟩

/-- Of one producer, of one indicator and with a year of the horizon in common. -/
def ofOneSeries (head f : Forecast) : Bool :=
  head.seriesKey = f.seriesKey && decide ((head.horizon ∩ f.horizon).Nonempty) &&
    sameIndicator head.record f.record

/-- All records of the series name one date: there is nothing to tell apart. -/
def seriesIsQuiet (dated group : List Forecast) : Bool :=
  if dated.length ≠ group.length then false else decide ((dated.map (·.date)).dedup.length < 2)

def markKind (latest : CalendarDate) : Option CalendarDate → MarkKind
  | none => .undated
  | some d => if latest ≤ d then .actual else .outdated

def markAs (reference : Forecast) (index : Nat) (latest : CalendarDate) (f : Forecast) :
    ForecastMark :=
  ⟨f.record.claimId, markKind latest f.date, (reference.seriesKey, index), reference.producerName,
    reference.dateLabel⟩

def byClaimId (fs : List Forecast) : List Forecast :=
  fs.insertionSort fun a b => a.record.claimId ≤ b.record.claimId

/-- The marks of one group. -/
def groupMarks (group : List Forecast) (index : Nat) : List ForecastMark :=
  let dated := group.filter (·.date.isSome)
  if group.length < 2 || dated.isEmpty || seriesIsQuiet dated group then []
  else ((dated.filterMap (·.date)).max?.bind fun latest =>
    (byClaimId (dated.filter (·.date = some latest))).head?.map fun reference =>
      group.map (markAs reference index latest)).getD []

/-- The forecasts of a card. -/
def forecasts (records : List ForecastRecord) : List Forecast := records.filterMap (read sourceName)

def seriesGroups (records : List ForecastRecord) : List (List Forecast) :=
  headGroups ofOneSeries (byClaimId (forecasts sourceName records))

def forecastMarks (records : List ForecastRecord) : List ForecastMark :=
  (seriesGroups sourceName records).zipIdx.flatMap fun entry => groupMarks entry.1 entry.2

end Marks

/-- The mark of a record; of several the one that was put last stands. -/
def markFor (marks : List ForecastMark) (claimId : String) : Option ForecastMark :=
  (marks.filter (·.claimId = claimId)).getLast?

def MarkKind.stale : MarkKind → Bool
  | .actual => false
  | .outdated | .undated => true

section Reorder

variable {α : Type*} (id : α → String) (marks : List ForecastMark)

/-- The entry has a mark that moves it. -/
def isStale (x : α) : Bool := (markFor marks (id x)).any (·.kind.stale)

def sameSeries (x y : α) : Bool :=
  (markFor marks (id x)).any fun m => (markFor marks (id y)).any fun m' => m'.series = m.series

/-- A stale entry goes behind the last one of its series. -/
def behindSeries (out : List α) (entry : α) : List α :=
  if isStale id marks entry then
    moveBehind (sameSeries id marks entry) out (out.findIdx fun x => id x = id entry) entry
  else out

def staleAfterCurrent (items : List α) : List α := items.foldl (behindSeries id marks) items

end Reorder

/-! ## The marks of a group -/

/-- The forecasts of one series with a forecast, itself among them. -/
def seriesOf (fs : List Forecast) (h : Forecast) : Set Forecast :=
  {x | x ∈ fs ∧ Near (ofOneSeries · ·) h x}

/-- Two of the forecasts differ in their dates, or one of them has none. -/
def Telling (s : Set Forecast) : Prop := ∃ x ∈ s, ∃ y ∈ s, x.date ≠ y.date

def IsLatest (s : Set Forecast) (f : Forecast) (latest : CalendarDate) : Prop :=
  f ∈ s ∧ f.date = some latest ∧ ∀ y ∈ s, ∀ d ∈ y.date, d ≤ latest

theorem IsLatest.unique {s : Set Forecast} {f f' : Forecast} {d d' : CalendarDate}
    (h : IsLatest s f d) (h' : IsLatest s f' d') : d = d' :=
  le_antisymm (h'.2.2 f h.1 d h.2.1) (h.2.2 f' h'.1 d' h'.2.1)

theorem seriesIsQuiet_eq_false {g : List Forecast} (h : Telling {x | x ∈ g}) :
    seriesIsQuiet (g.filter (·.date.isSome)) g = false := by
  obtain ⟨x, hx, y, hy, hne⟩ := h
  rw [seriesIsQuiet]
  split
  · rfl
  · rename_i hlen
    have hall : g.filter (·.date.isSome) = g := by
      rw [List.filter_eq_self]
      exact List.length_filter_eq_length_iff.mp (not_not.mp hlen)
    rw [hall, decide_eq_false_iff_not]
    intro hshort
    have hxd : x.date ∈ (g.map (·.date)).dedup := List.mem_dedup.mpr (List.mem_map_of_mem hx)
    have hyd : y.date ∈ (g.map (·.date)).dedup := List.mem_dedup.mpr (List.mem_map_of_mem hy)
    obtain ⟨d, hd⟩ := List.length_eq_one_iff.mp
      (show (g.map (·.date)).dedup.length = 1 by have := List.length_pos_of_mem hxd; omega)
    rw [hd, List.mem_singleton] at hxd hyd
    exact hne (hxd.trans hyd.symm)

/-- A group is passed over exactly when its dates tell nothing apart. -/
theorem groupMarks_guard (g : List Forecast) :
    (g.length < 2 || (g.filter (·.date.isSome)).isEmpty ||
      seriesIsQuiet (g.filter (·.date.isSome)) g) = true ↔ ¬ Telling {x | x ∈ g} := by
  constructor
  · intro hguard htelling
    rw [seriesIsQuiet_eq_false htelling, Bool.or_false, Bool.or_eq_true, decide_eq_true_eq,
      List.isEmpty_iff, List.filter_eq_nil_iff] at hguard
    obtain ⟨x, hx, y, hy, hne⟩ := htelling
    rcases hguard with hlen | hnone
    · have hpos := List.length_pos_of_mem hx
      obtain ⟨z, rfl⟩ := List.length_eq_one_iff.mp (show g.length = 1 by omega)
      obtain rfl := List.mem_singleton.mp hx
      obtain rfl := List.mem_singleton.mp hy
      exact hne rfl
    · have hxn := hnone x hx
      have hyn := hnone y hy
      simp only [Bool.not_eq_true, Option.isSome_eq_false_iff, Option.isNone_iff_eq_none]
        at hxn hyn
      exact hne (hxn.trans hyn.symm)
  · intro hquiet
    have hsame : ∀ x ∈ g, ∀ y ∈ g, x.date = y.date := by
      intro x hx y hy
      by_contra hne
      exact hquiet ⟨x, hx, y, hy, hne⟩
    cases g with
    | nil => rfl
    | cons x g =>
      have hx : ∀ y ∈ x :: g, y.date = x.date := fun y hy =>
        hsame y hy x List.mem_cons_self
      cases hdate : x.date with
      | none =>
        have hnil : (x :: g).filter (·.date.isSome) = [] := by
          rw [List.filter_eq_nil_iff]
          intro y hy
          rw [hx y hy, hdate]
          exact Bool.false_ne_true
        rw [hnil]
        simp
      | some d =>
        have hall : (x :: g).filter (·.date.isSome) = x :: g := by
          rw [List.filter_eq_self]
          intro y hy
          rw [hx y hy, hdate]
          rfl
        have hconst : (x :: g).map (·.date) = List.replicate (x :: g).length x.date :=
          List.eq_replicate_iff.mpr ⟨List.length_map _, by simpa using hx⟩
        have hone : ((x :: g).map (·.date)).dedup = [x.date] := by
          rw [hconst, List.replicate_dedup (by simp)]
        rw [hall, seriesIsQuiet, if_neg (by simp), hone]
        simp

theorem groupMarks_eq_nil {g : List Forecast} (h : ¬ Telling {x | x ∈ g}) (i : Nat) :
    groupMarks g i = [] := by
  rw [groupMarks]
  exact if_pos ((groupMarks_guard g).mpr h)

/-- The first in the order of ids is the least. -/
theorem byClaimId_head {fs : List Forecast} {f : Forecast} (h : (byClaimId fs).head? = some f) :
    f ∈ fs ∧ ∀ y ∈ fs, f.record.claimId ≤ y.record.claimId := by
  have hpairwise : (byClaimId fs).Pairwise fun a b => a.record.claimId ≤ b.record.claimId := by
    have : Std.Total fun a b : Forecast => a.record.claimId ≤ b.record.claimId :=
      ⟨fun a b => le_total _ _⟩
    have : IsTrans Forecast fun a b => a.record.claimId ≤ b.record.claimId :=
      ⟨fun _ _ _ => le_trans⟩
    exact List.pairwise_insertionSort _ fs
  have hmem : ∀ y, y ∈ byClaimId fs ↔ y ∈ fs := fun y => List.mem_insertionSort _
  refine ⟨(hmem f).mp (List.mem_of_mem_head? h), fun y hy => ?_⟩
  have hys := (hmem y).mpr hy
  cases hs : byClaimId fs with
  | nil =>
    rw [hs] at hys
    cases hys
  | cons z rest =>
    rw [hs] at h hys hpairwise
    obtain rfl : z = f := by simpa using h
    rcases List.mem_cons.mp hys with rfl | hrest
    · exact le_refl _
    · exact (List.pairwise_cons.mp hpairwise).1 y hrest

/-- **The marks of a group whose dates tell its records apart.** -/
theorem groupMarks_of_telling {g : List Forecast} (h : Telling {x | x ∈ g}) :
    ∃ latest reference, IsLatest {x | x ∈ g} reference latest ∧
      (∀ y ∈ g, y.date = some latest → reference.record.claimId ≤ y.record.claimId) ∧
      ∀ i, groupMarks g i = g.map (markAs reference i latest) := by
  have hguard := mt (groupMarks_guard g).mp (not_not.mpr h)
  have hdated : (g.filter (·.date.isSome)).filterMap (·.date) ≠ [] := by
    intro hnil
    apply hguard
    have hempty : g.filter (·.date.isSome) = [] := by
      rw [List.filterMap_eq_nil_iff] at hnil
      rw [List.eq_nil_iff_forall_not_mem]
      intro x hx
      have hsome := (List.mem_filter.mp hx).2
      rw [hnil x hx] at hsome
      exact Bool.false_ne_true hsome
    rw [hempty]
    simp
  obtain ⟨latest, hlatest⟩ := Option.isSome_iff_exists.mp (List.isSome_max?_iff.mpr hdated)
  obtain ⟨hmem, hmax⟩ := List.max?_eq_some_iff.mp hlatest
  obtain ⟨f, hf, hfdate⟩ := List.mem_filterMap.mp hmem
  have hfmem : f ∈ (g.filter (·.date.isSome)).filter (·.date = some latest) :=
    List.mem_filter.mpr ⟨hf, decide_eq_true hfdate⟩
  have hne : byClaimId ((g.filter (·.date.isSome)).filter (·.date = some latest)) ≠ [] :=
    List.ne_nil_of_mem ((List.mem_insertionSort _).mpr hfmem)
  obtain ⟨reference, rest, hsorted⟩ := List.exists_cons_of_ne_nil hne
  have hhead : (byClaimId ((g.filter (·.date.isSome)).filter (·.date = some latest))).head? =
      some reference := by rw [hsorted]; rfl
  obtain ⟨hrmem, hrmin⟩ := byClaimId_head hhead
  have hmemiff : ∀ y, y ∈ (g.filter (·.date.isSome)).filter (·.date = some latest) ↔
      y ∈ g ∧ y.date = some latest := by
    intro y
    rw [List.mem_filter, List.mem_filter, decide_eq_true_eq, and_assoc]
    constructor
    · exact fun hy => ⟨hy.1, hy.2.2⟩
    · exact fun hy => ⟨hy.1, by rw [hy.2]; rfl, hy.2⟩
  refine ⟨latest, reference, ⟨((hmemiff _).mp hrmem).1, ((hmemiff _).mp hrmem).2, ?_⟩, ?_, ?_⟩
  · intro y hy d hd
    apply hmax
    exact List.mem_filterMap.mpr ⟨y, List.mem_filter.mpr ⟨hy, by rw [hd]; rfl⟩, hd⟩
  · exact fun y hy hdate => hrmin y ((hmemiff y).mpr ⟨hy, hdate⟩)
  · intro i
    rw [groupMarks]
    simp only [Bool.not_eq_true] at hguard
    simp only [hguard, Bool.false_eq_true, if_false, hlatest, Option.bind_some, hhead,
      Option.map_some, Option.getD_some]

/-! ## The mark of a record -/

section Lookup

variable {sourceName : String → Option String} {records : List ForecastRecord}

theorem read_record {r : ForecastRecord} {f : Forecast} (h : read sourceName r = some f) :
    f.record = r ∧ f.seriesKey.survey = r.statement.survey ∧
      f.producerName = producerName sourceName f.seriesKey := by
  simp only [read, Option.bind_eq_bind, Option.bind_eq_some_iff, Option.some.injEq] at h
  obtain ⟨-, -, root, -, -, -, -, -, rfl⟩ := h
  exact ⟨rfl, rfl, rfl⟩

theorem forecasts_records : ((forecasts sourceName records).map (·.record)).Sublist records := by
  induction records with
  | nil => exact List.Sublist.refl _
  | cons r records ih =>
    rw [forecasts, List.filterMap_cons]
    cases hread : read sourceName r with
    | none => exact ih.cons r
    | some f =>
      rw [List.map_cons, (read_record hread).1]
      exact ih.cons_cons r

/-- The ids of the records are distinct. -/
def DistinctIds (records : List ForecastRecord) : Prop := (records.map (·.claimId)).Nodup

theorem DistinctIds.forecasts (h : DistinctIds records) :
    ((forecasts sourceName records).map (·.record.claimId)).Nodup := by
  have hsub := (@forecasts_records sourceName records).map (·.claimId)
  rw [List.map_map] at hsub
  exact List.Nodup.sublist hsub h

theorem grouped (sourceName : String → Option String) (records : List ForecastRecord) :
    HeadGrouped ofOneSeries (byClaimId (forecasts sourceName records))
      (seriesGroups sourceName records) := headGroups_grouped _

theorem mem_byClaimId {fs : List Forecast} {f : Forecast} : f ∈ byClaimId fs ↔ f ∈ fs :=
  List.mem_insertionSort _

theorem DistinctIds.sorted (h : DistinctIds records) :
    (byClaimId (Web.forecasts sourceName records)).Nodup := by
  have hperm : (byClaimId (Web.forecasts sourceName records)).Perm _ :=
    List.perm_insertionSort _ _
  exact hperm.nodup_iff.mpr (List.Nodup.of_map _ h.forecasts)

theorem mem_of_group {g : List Forecast} (hg : g ∈ seriesGroups sourceName records) {x : Forecast}
    (hx : x ∈ g) : x ∈ forecasts sourceName records :=
  mem_byClaimId.mp ((grouped sourceName records).mem_of_mem_group hg hx)

theorem DistinctIds.eq_of_claimId (h : DistinctIds records) {x y : Forecast}
    (hx : x ∈ Web.forecasts sourceName records) (hy : y ∈ Web.forecasts sourceName records)
    (heq : x.record.claimId = y.record.claimId) : x = y :=
  List.inj_on_of_nodup_map h.forecasts hx hy heq

theorem groupMarks_ids (g : List Forecast) (i : Nat) :
    ((groupMarks g i).map (·.claimId)).Sublist (g.map (·.record.claimId)) := by
  by_cases h : Telling {x | x ∈ g}
  · obtain ⟨latest, reference, -, -, hmarks⟩ := groupMarks_of_telling h
    rw [hmarks, List.map_map]
    exact List.Sublist.refl _
  · rw [groupMarks_eq_nil h]
    exact List.nil_sublist _

theorem groupsMarks_ids (groups : List (List Forecast)) (k : Nat) :
    (((groups.zipIdx k).flatMap fun entry => groupMarks entry.1 entry.2).map (·.claimId)).Sublist
      (groups.flatten.map (·.record.claimId)) := by
  induction groups generalizing k with
  | nil => exact List.Sublist.refl _
  | cons g groups ih =>
    rw [List.zipIdx_cons, List.flatMap_cons, List.map_append, List.flatten_cons, List.map_append]
    exact (groupMarks_ids g k).append (ih (k + 1))

/-- Every record has one mark at most. -/
theorem DistinctIds.marks (h : DistinctIds records) :
    ((forecastMarks sourceName records).map (·.claimId)).Nodup := by
  have hperm : (seriesGroups sourceName records).flatten.Perm (Web.forecasts sourceName records) :=
    (grouped sourceName records).perm.trans (List.perm_insertionSort _ _)
  exact List.Nodup.sublist (groupsMarks_ids _ 0) ((hperm.map _).nodup_iff.mpr h.forecasts)

theorem mem_forecastMarks {m : ForecastMark} : m ∈ forecastMarks sourceName records ↔
    ∃ (i : Nat) (g : List Forecast),
      (seriesGroups sourceName records)[i]? = some g ∧ m ∈ groupMarks g i := by
  simp only [forecastMarks, List.mem_flatMap, Prod.exists, List.mem_zipIdx_iff_getElem?]
  exact exists_comm

theorem markFor_eq_some_iff {marks : List ForecastMark} (hmarks : (marks.map (·.claimId)).Nodup)
    {claimId : String} {m : ForecastMark} :
    markFor marks claimId = some m ↔ m ∈ marks ∧ m.claimId = claimId := by
  have hfound : ∀ m', markFor marks claimId = some m' → m' ∈ marks ∧ m'.claimId = claimId := by
    intro m' h
    have hmem := List.mem_filter.mp (List.mem_of_getLast? h)
    exact ⟨hmem.1, of_decide_eq_true hmem.2⟩
  constructor
  · exact hfound m
  rintro ⟨hmem, hid⟩
  have hne : marks.filter (·.claimId = claimId) ≠ [] :=
    List.ne_nil_of_mem (List.mem_filter.mpr ⟨hmem, decide_eq_true hid⟩)
  obtain ⟨m', hm'⟩ := Option.isSome_iff_exists.mp (List.getLast?_isSome.mpr hne)
  obtain ⟨hmem', hid'⟩ := hfound m' hm'
  rw [markFor, hm', List.inj_on_of_nodup_map hmarks hmem' hmem (hid'.trans hid.symm)]

/-- A mark is that of a record of a group whose dates tell its records apart. -/
theorem DistinctIds.markFor_iff (h : DistinctIds records) {claimId : String} {m : ForecastMark} :
    markFor (forecastMarks sourceName records) claimId = some m ↔
      ∃ (i : Nat) (g : List Forecast) (x : Forecast),
        (seriesGroups sourceName records)[i]? = some g ∧ x ∈ g ∧ x.record.claimId = claimId ∧
          Telling {y | y ∈ g} ∧ m ∈ groupMarks g i ∧ m.claimId = claimId := by
  rw [markFor_eq_some_iff h.marks, mem_forecastMarks]
  constructor
  · rintro ⟨⟨i, g, hg, hm⟩, hid⟩
    by_cases htelling : Telling {y | y ∈ g}
    · obtain ⟨latest, reference, -, -, hmarks⟩ := groupMarks_of_telling htelling
      have hm' := hm
      rw [hmarks] at hm'
      obtain ⟨x, hx, rfl⟩ := List.mem_map.mp hm'
      exact ⟨i, g, x, hg, hx, hid, htelling, hm, hid⟩
    · rw [groupMarks_eq_nil htelling] at hm
      cases hm
  · rintro ⟨i, g, -, hg, -, -, -, hm, hid⟩
    exact ⟨⟨i, g, hg, hm⟩, hid⟩

/-- What the mark of a record says is read off its group. -/
theorem DistinctIds.markFor_of_mem (h : DistinctIds records) {i : Nat} {g : List Forecast}
    (hg : (seriesGroups sourceName records)[i]? = some g) {latest : CalendarDate}
    {reference : Forecast} (hmarks : groupMarks g i = g.map (markAs reference i latest))
    {x : Forecast} (hx : x ∈ g) :
    markFor (forecastMarks sourceName records) x.record.claimId =
      some (markAs reference i latest x) := by
  rw [markFor_eq_some_iff h.marks, mem_forecastMarks]
  refine ⟨⟨i, g, hg, ?_⟩, rfl⟩
  rw [hmarks]
  exact List.mem_map_of_mem hx

/-- **Marks of one series** are those of the records of one group. -/
theorem DistinctIds.sameSeries_iff (h : DistinctIds records) {x y : Forecast}
    (hx : x ∈ Web.forecasts sourceName records) (hy : y ∈ Web.forecasts sourceName records) :
    sameSeries (·.record.claimId) (forecastMarks sourceName records) x y ↔
      ∃ g ∈ seriesGroups sourceName records, x ∈ g ∧ y ∈ g ∧ Telling {z | z ∈ g} := by
  simp only [sameSeries, Option.any_eq_true, decide_eq_true_eq]
  constructor
  · rintro ⟨m, hm, m', hm', hseries⟩
    obtain ⟨i, g, x', hg, hx', hxid, htelling, hmg, -⟩ := h.markFor_iff.mp hm
    obtain ⟨j, g', y', hg', hy', hyid, htelling', hmg', -⟩ := h.markFor_iff.mp hm'
    obtain ⟨latest, reference, -, -, hmarks⟩ := groupMarks_of_telling htelling
    obtain ⟨latest', reference', -, -, hmarks'⟩ := groupMarks_of_telling htelling'
    rw [hmarks] at hmg
    rw [hmarks'] at hmg'
    obtain ⟨z, -, rfl⟩ := List.mem_map.mp hmg
    obtain ⟨z', -, rfl⟩ := List.mem_map.mp hmg'
    obtain rfl : j = i := congrArg Prod.snd hseries
    obtain rfl : g' = g := Option.some.inj (hg'.symm.trans hg)
    have hgmem := List.mem_of_getElem? hg
    rw [← h.eq_of_claimId (mem_of_group hgmem hx') hx hxid,
      ← h.eq_of_claimId (mem_of_group hgmem hy') hy hyid]
    exact ⟨g', hgmem, hx', hy', htelling⟩
  · rintro ⟨g, hg, hxg, hyg, htelling⟩
    obtain ⟨i, hi⟩ := List.mem_iff_getElem?.mp hg
    obtain ⟨latest, reference, -, -, hmarks⟩ := groupMarks_of_telling htelling
    exact ⟨_, h.markFor_of_mem hi (hmarks i) hxg, _, h.markFor_of_mem hi (hmarks i) hyg, rfl⟩

end Lookup

/-! ## One series whatever the ids -/

theorem sameIndicator_comm (x y : ForecastRecord) : sameIndicator x y = sameIndicator y x := by
  have hdisjoint : ∀ s t : Finset Nat, groupsDisjoint s t = groupsDisjoint t s := by
    intro s t
    rw [groupsDisjoint, groupsDisjoint, Finset.inter_comm, Bool.and_comm (decide s.Nonempty)]
  have hstems : ∀ l r : List String, (seriesIndicatorStems.any fun core =>
      namesIndicator l core && namesIndicator r core) =
      seriesIndicatorStems.any fun core => namesIndicator r core && namesIndicator l core := by
    intro l r
    simp only [Bool.and_comm]
  rw [sameIndicator, sameIndicator]
  cases declaredMetric x <;> cases declaredMetric y
  case some.some l r => exact decide_eq_decide.mpr eq_comm
  all_goals
    dsimp only
    rw [hdisjoint x.statement.territoryGroups, hdisjoint x.statement.qualifierGroups, hstems,
      Bool.beq_comm]

theorem ofOneSeries_symm (x y : Forecast) (h : ofOneSeries x y) : ofOneSeries y x := by
  rw [ofOneSeries, Finset.inter_comm, sameIndicator_comm] at h
  simp only [ofOneSeries, Bool.and_eq_true, decide_eq_true_eq] at h ⊢
  exact ⟨⟨h.1.1.symm, h.1.2⟩, h.2⟩

theorem mem_seriesOf_self {fs : List Forecast} {h : Forecast} (hh : h ∈ fs) : h ∈ seriesOf fs h :=
  ⟨hh, .inl rfl⟩

/-- The forecasts that are of one series with a forecast are of one series with each other, when
their dates tell them apart, and the latest of them name their date in one way. -/
def SeriesAgree (fs : List Forecast) : Prop :=
  ∀ h ∈ fs, Telling (seriesOf fs h) →
    (∀ y ∈ seriesOf fs h, seriesOf fs y = seriesOf fs h) ∧
    ∀ x y d, IsLatest (seriesOf fs h) x d → IsLatest (seriesOf fs h) y d → x.dateLabel = y.dateLabel

section Groups

variable {sourceName : String → Option String} {records : List ForecastRecord}

theorem closedAt_iff {fs l : List Forecast} (hl : ∀ x, x ∈ l ↔ x ∈ fs) {h : Forecast} :
    ClosedAt (ofOneSeries · ·) l h ↔ ∀ y ∈ seriesOf fs h, seriesOf fs y = seriesOf fs h := by
  constructor
  · intro hclosed y hy
    ext z
    constructor
    · rintro ⟨hz, hyz⟩
      exact ⟨hz, (hclosed y ((hl y).mpr hy.1) hy.2 z ((hl z).mpr hz)).mp hyz⟩
    · rintro ⟨hz, hhz⟩
      exact ⟨hz, (hclosed y ((hl y).mpr hy.1) hy.2 z ((hl z).mpr hz)).mpr hhz⟩
  · intro hsame y hy hnear z hz
    have hset := hsame y ⟨(hl y).mp hy, hnear⟩
    have hz' := Set.ext_iff.mp hset z
    simpa [seriesOf, (hl z).mp hz] using hz'

/-- The group of a record is its series, when the records of the series agree. -/
theorem DistinctIds.group_eq (h : DistinctIds records) {x : Forecast} {g : List Forecast}
    (hg : g ∈ seriesGroups sourceName records) (hx : x ∈ g)
    (hclosed : ∀ y ∈ seriesOf (Web.forecasts sourceName records) x,
      seriesOf (Web.forecasts sourceName records) y =
        seriesOf (Web.forecasts sourceName records) x) :
    {y | y ∈ g} = seriesOf (Web.forecasts sourceName records) x := by
  ext y
  have hiff := fun hy => (grouped sourceName records).mem_group_iff_near ofOneSeries_symm h.sorted
    ((closedAt_iff fun _ => mem_byClaimId).mpr hclosed) hg hx (y := y) hy
  constructor
  · intro hy
    have hyf := mem_of_group hg hy
    exact ⟨hyf, (hiff (mem_byClaimId.mpr hyf)).mp hy⟩
  · rintro ⟨hyf, hnear⟩
    exact (hiff (mem_byClaimId.mpr hyf)).mpr hnear

theorem Telling.mono {s t : Set Forecast} (hst : s ⊆ t) (h : Telling s) : Telling t := by
  obtain ⟨x, hx, y, hy, hne⟩ := h
  exact ⟨x, hst hx, y, hst hy, hne⟩

/-- A group whose dates tell its records apart is the series of each of them. -/
theorem DistinctIds.telling_group (h : DistinctIds records)
    (hagree : SeriesAgree (Web.forecasts sourceName records)) {g : List Forecast}
    (hg : g ∈ seriesGroups sourceName records) (htelling : Telling {y | y ∈ g}) {x : Forecast}
    (hx : x ∈ g) : {y | y ∈ g} = seriesOf (Web.forecasts sourceName records) x := by
  obtain ⟨head, -, hmem, hnear⟩ := (grouped sourceName records).near_head hg
  have hsub : {y | y ∈ g} ⊆ seriesOf (Web.forecasts sourceName records) head :=
    fun y hy => ⟨mem_of_group hg hy, hnear y hy⟩
  have hsame := (hagree head (mem_of_group hg hmem) (htelling.mono hsub)).1
  have hxhead := hsame x (hsub hx)
  exact h.group_eq hg hx fun y hy => (hsame y (hxhead ▸ hy)).trans hxhead.symm

/-- **Records of one series have marks of one series**, and no others do. -/
theorem DistinctIds.sameSeries_of_agree (h : DistinctIds records)
    (hagree : SeriesAgree (Web.forecasts sourceName records)) {x y : Forecast}
    (hx : x ∈ Web.forecasts sourceName records) (hy : y ∈ Web.forecasts sourceName records) :
    sameSeries (·.record.claimId) (forecastMarks sourceName records) x y ↔
      Telling (seriesOf (Web.forecasts sourceName records) x) ∧
        y ∈ seriesOf (Web.forecasts sourceName records) x := by
  rw [h.sameSeries_iff hx hy]
  constructor
  · rintro ⟨g, hg, hxg, hyg, htelling⟩
    have hset := h.telling_group hagree hg htelling hxg
    rw [← hset]
    exact ⟨htelling, hyg⟩
  · rintro ⟨htelling, hyx⟩
    obtain ⟨g, hg, hxg⟩ := (grouped sourceName records).exists_group (mem_byClaimId.mpr hx)
    have hset := h.group_eq hg hxg (hagree x hx htelling).1
    refine ⟨g, hg, hxg, ?_, ?_⟩
    · rw [← hset] at hyx
      exact hyx
    · rw [hset]
      exact htelling

/-- What a mark says, apart from whose it is and the number of its series. -/
def ForecastMark.shown (m : ForecastMark) : MarkKind × String × String :=
  (m.kind, m.producer, m.dateLabel)

/-- **What the mark of a record says** is read off its series. -/
theorem DistinctIds.shown_of_agree (h : DistinctIds records)
    (hagree : SeriesAgree (Web.forecasts sourceName records)) {x : Forecast}
    (hx : x ∈ Web.forecasts sourceName records) (said : MarkKind × String × String) :
    (markFor (forecastMarks sourceName records) x.record.claimId).map ForecastMark.shown =
        some said ↔
      Telling (seriesOf (Web.forecasts sourceName records) x) ∧ ∃ latest reference,
        IsLatest (seriesOf (Web.forecasts sourceName records) x) reference latest ∧
          said = (markKind latest x.date, x.producerName, reference.dateLabel) := by
  have hproducer : ∀ y ∈ seriesOf (Web.forecasts sourceName records) x,
      y.producerName = x.producerName := by
    rintro y ⟨hy, hnear⟩
    rcases hnear with rfl | hlinked
    · rfl
    · obtain ⟨r, -, hr⟩ := List.mem_filterMap.mp hx
      obtain ⟨r', -, hr'⟩ := List.mem_filterMap.mp hy
      simp only [ofOneSeries, Bool.and_eq_true, decide_eq_true_eq] at hlinked
      rw [(read_record hr).2.2, (read_record hr').2.2, hlinked.1.1]
  obtain ⟨g, hg, hxg⟩ := (grouped sourceName records).exists_group (mem_byClaimId.mpr hx)
  obtain ⟨i, hi⟩ := List.mem_iff_getElem?.mp hg
  constructor
  · intro hsaid
    obtain ⟨m, hm, rfl⟩ := Option.map_eq_some_iff.mp hsaid
    obtain ⟨j, g', x', hg', hx', hid, htelling, -, -⟩ := h.markFor_iff.mp hm
    obtain rfl := h.eq_of_claimId (mem_of_group (List.mem_of_getElem? hg') hx') hx hid
    have hset := h.telling_group hagree (List.mem_of_getElem? hg') htelling hx'
    obtain ⟨latest, reference, hlatest, -, hmarks⟩ := groupMarks_of_telling htelling
    have hfound := h.markFor_of_mem hg' (hmarks j) hx'
    rw [hm, Option.some.injEq] at hfound
    rw [hset] at hlatest
    refine ⟨hset ▸ htelling, latest, reference, hlatest, ?_⟩
    rw [hfound, ForecastMark.shown, markAs, hproducer reference hlatest.1]
  · rintro ⟨htelling, latest, reference, hlatest, rfl⟩
    have hset := h.group_eq hg hxg (hagree x hx htelling).1
    obtain ⟨latest', reference', hlatest', -, hmarks⟩ := groupMarks_of_telling (hset ▸ htelling)
    rw [hset] at hlatest'
    obtain rfl := hlatest.unique hlatest'
    rw [h.markFor_of_mem hi (hmarks i) hxg, Option.map_some, ForecastMark.shown, markAs,
      hproducer reference' hlatest'.1,
      (hagree x hx htelling).2 reference reference' latest hlatest hlatest']

end Groups

/-! ## Other ids, another order -/

def ForecastRecord.rename (π : String → String) (r : ForecastRecord) : ForecastRecord :=
  { r with claimId := π r.claimId }

def Forecast.rename (π : String → String) (f : Forecast) : Forecast :=
  { f with record := f.record.rename π }

section Rename

variable {sourceName : String → Option String} {records records' : List ForecastRecord}
  {π : String → String}

theorem read_rename (r : ForecastRecord) :
    read sourceName (r.rename π) = (read sourceName r).map (·.rename π) := by
  simp only [read, ForecastRecord.rename, Option.bind_eq_bind, Option.map_bind, Function.comp_def]
  rfl

theorem forecasts_rename (h : records'.Perm (records.map (·.rename π))) :
    (forecasts sourceName records').Perm ((forecasts sourceName records).map (·.rename π)) := by
  have hmap : forecasts sourceName (records.map (·.rename π)) =
      (forecasts sourceName records).map (·.rename π) := by
    rw [forecasts, List.filterMap_map, forecasts, List.map_filterMap]
    exact List.filterMap_congr fun r _ => read_rename r
  exact hmap ▸ h.filterMap _

theorem DistinctIds.rename (hπ : π.Injective) (hd : DistinctIds records)
    (h : records'.Perm (records.map (·.rename π))) : DistinctIds records' := by
  have hids : (records.map (·.rename π)).map (·.claimId) = (records.map (·.claimId)).map π := by
    rw [List.map_map, List.map_map]
    rfl
  rw [DistinctIds, (h.map _).nodup_iff, hids]
  exact List.Nodup.map hπ hd

theorem rename_injective (hπ : π.Injective) : (Forecast.rename π).Injective := by
  intro x y h
  obtain ⟨⟨idx, sx, ax, mx⟩, kx, px, hx, dx, lx⟩ := x
  obtain ⟨⟨idy, sy, ay, my⟩, ky, py, hy, dy, ly⟩ := y
  simp only [Forecast.rename, ForecastRecord.rename, Forecast.mk.injEq,
    ForecastRecord.mk.injEq] at h ⊢
  exact ⟨⟨hπ h.1.1, h.1.2⟩, h.2⟩

/-- The series under other ids. -/
theorem seriesOf_rename (hπ : π.Injective) {fs fs' : List Forecast}
    (h : fs'.Perm (fs.map (·.rename π))) (x : Forecast) :
    seriesOf fs' (x.rename π) = Forecast.rename π '' seriesOf fs x := by
  have hnear : ∀ y : Forecast, Near (ofOneSeries · ·) (x.rename π) (y.rename π) ↔
      Near (ofOneSeries · ·) x y := fun y => or_congr (rename_injective hπ).eq_iff Iff.rfl
  ext y
  simp only [seriesOf, Set.mem_ofPred_eq, Set.mem_image, h.mem_iff, List.mem_map]
  constructor
  · rintro ⟨⟨z, hz, rfl⟩, hlinked⟩
    exact ⟨z, ⟨hz, (hnear z).mp hlinked⟩, rfl⟩
  · rintro ⟨z, ⟨hz, hlinked⟩, rfl⟩
    exact ⟨⟨z, hz, rfl⟩, (hnear z).mpr hlinked⟩

theorem telling_rename {s : Set Forecast} : Telling (Forecast.rename π '' s) ↔ Telling s := by
  simp only [Telling, Set.exists_mem_image]
  rfl

theorem isLatest_rename {s : Set Forecast} {x : Forecast} {d : CalendarDate}
    (hπ : π.Injective) : IsLatest (Forecast.rename π '' s) (x.rename π) d ↔ IsLatest s x d := by
  simp only [IsLatest, Set.forall_mem_image, (rename_injective hπ).mem_set_image]
  rfl

theorem SeriesAgree.rename (hπ : π.Injective) {fs fs' : List Forecast}
    (h : fs'.Perm (fs.map (·.rename π))) (hagree : SeriesAgree fs) : SeriesAgree fs' := by
  intro x' hx' htelling
  obtain ⟨x, hx, rfl⟩ := List.mem_map.mp (h.mem_iff.mp hx')
  rw [seriesOf_rename hπ h] at htelling ⊢
  obtain ⟨hsame, hlabel⟩ := hagree x hx (telling_rename.mp htelling)
  constructor
  · rintro _ ⟨y, hy, rfl⟩
    rw [seriesOf_rename hπ h, hsame y hy]
  · intro y' z' d hy hz
    obtain ⟨y, -, rfl⟩ := hy.1
    obtain ⟨z, -, rfl⟩ := hz.1
    exact hlabel y z d ((isLatest_rename hπ).mp hy) ((isLatest_rename hπ).mp hz)

/-- What the marks say, and which of them are of one series, under other ids. -/
structure CarriedBy (π : String → String) (records : List ForecastRecord)
    (marks marks' : List ForecastMark) : Prop where
  shown : ∀ r ∈ records, (markFor marks' (π r.claimId)).map ForecastMark.shown =
    (markFor marks r.claimId).map ForecastMark.shown
  series : ∀ r ∈ records, ∀ s ∈ records,
    sameSeries (·.claimId) marks' (r.rename π) (s.rename π) = sameSeries (·.claimId) marks r s

theorem markFor_none_of_read (hd : DistinctIds records) {r : ForecastRecord} (hr : r ∈ records)
    (hread : read sourceName r = none) :
    markFor (forecastMarks sourceName records) r.claimId = none := by
  cases hm : markFor (forecastMarks sourceName records) r.claimId with
  | none => rfl
  | some m =>
    obtain ⟨i, g, x, hg, hx, hid, -⟩ := hd.markFor_iff.mp hm
    obtain ⟨r', hr', hxr⟩ := List.mem_filterMap.mp (mem_of_group (List.mem_of_getElem? hg) hx)
    rw [(read_record hxr).1] at hid
    rw [List.inj_on_of_nodup_map hd hr' hr hid, hread] at hxr
    cases hxr

/-- **The marks are carried along** when the records of each series agree. -/
theorem SeriesAgree.carried (hd : DistinctIds records)
    (hagree : SeriesAgree (forecasts sourceName records)) (hπ : π.Injective)
    (h : records'.Perm (records.map (·.rename π))) :
    CarriedBy π records (forecastMarks sourceName records) (forecastMarks sourceName records') := by
  have hd' := hd.rename hπ h
  have hperm := @forecasts_rename sourceName records records' π h
  have hagree' := hagree.rename hπ hperm
  have hmem : ∀ {f}, f ∈ forecasts sourceName records →
      f.rename π ∈ forecasts sourceName records' := fun hf =>
    hperm.mem_iff.mpr (List.mem_map_of_mem hf)
  have hnone : ∀ r ∈ records, read sourceName r = none →
      markFor (forecastMarks sourceName records') (π r.claimId) = none := by
    intro r hr hread
    exact markFor_none_of_read hd' (r := r.rename π)
      (h.mem_iff.mpr (List.mem_map_of_mem hr)) (by rw [read_rename, hread]; rfl)
  constructor
  · intro r hr
    cases hread : read sourceName r with
    | none => rw [hnone r hr hread, markFor_none_of_read hd hr hread]
    | some x =>
      have hx : x ∈ forecasts sourceName records := List.mem_filterMap.mpr ⟨r, hr, hread⟩
      obtain rfl := (read_record hread).1
      ext said
      refine (hd'.shown_of_agree hagree' (hmem hx) said).trans ?_
      rw [hd.shown_of_agree hagree hx, seriesOf_rename hπ hperm, telling_rename]
      refine and_congr_right fun _ => exists_congr fun latest => ?_
      constructor
      · rintro ⟨reference, hlatest, hsaid⟩
        obtain ⟨y, -, rfl⟩ := hlatest.1
        exact ⟨y, (isLatest_rename hπ).mp hlatest, hsaid⟩
      · rintro ⟨y, hlatest, hsaid⟩
        exact ⟨y.rename π, (isLatest_rename hπ).mpr hlatest, hsaid⟩
  · intro r hr s hs
    cases hread : read sourceName r with
    | none =>
      simp only [sameSeries, ForecastRecord.rename, hnone r hr hread,
        markFor_none_of_read hd hr hread, Option.any_none]
    | some x =>
      cases hread' : read sourceName s with
      | none =>
        simp only [sameSeries, ForecastRecord.rename, hnone s hs hread',
          markFor_none_of_read hd hs hread', Option.any_none, Option.any_false]
      | some y =>
        have hx : x ∈ forecasts sourceName records := List.mem_filterMap.mpr ⟨r, hr, hread⟩
        have hy : y ∈ forecasts sourceName records := List.mem_filterMap.mpr ⟨s, hs, hread'⟩
        obtain rfl := (read_record hread).1
        obtain rfl := (read_record hread').1
        rw [Bool.eq_iff_iff]
        have hleft := hd'.sameSeries_of_agree hagree' (hmem hx) (hmem hy)
        have hright := hd.sameSeries_of_agree hagree hx hy
        rw [seriesOf_rename hπ hperm, telling_rename, (rename_injective hπ).mem_set_image,
          ← hright] at hleft
        exact hleft

end Rename

/-! ## A record put first -/

/-- The ids after which one record comes before all others. -/
def putFirst (claimId s : String) : String := if s = claimId then "a" else "b" ++ s

theorem b_append_ne (s : String) : "b" ++ s ≠ "a" := by
  intro h
  have hlist := congrArg String.toList h
  rw [String.toList_append] at hlist
  exact absurd (List.cons.inj hlist).1 (by decide)

theorem putFirst_injective (claimId : String) : (putFirst claimId).Injective := by
  intro s t h
  rw [putFirst, putFirst] at h
  split at h <;> split at h
  · rename_i hs ht
    rw [hs, ht]
  · exact absurd h.symm (b_append_ne t)
  · exact absurd h (b_append_ne s)
  · have hlist := congrArg String.toList h
    rw [String.toList_append, String.toList_append] at hlist
    exact String.toList_injective (List.append_cancel_left hlist)

theorem putFirst_lt {claimId s : String} (h : s ≠ claimId) :
    putFirst claimId claimId < putFirst claimId s := by
  rw [putFirst, putFirst, if_pos rfl, if_neg h, String.lt_iff_toList_lt, String.toList_append]
  exact List.Lex.rel (by decide)

section First

variable {sourceName : String → Option String} {records : List ForecastRecord}

theorem DistinctIds.first_group (hd : DistinctIds records) {h : Forecast}
    (hh : h ∈ Web.forecasts sourceName records)
    (hfirst : ∀ y ∈ Web.forecasts sourceName records, y ≠ h →
      h.record.claimId < y.record.claimId) :
    ∃ g, (seriesGroups sourceName records)[0]? = some g ∧
      {y | y ∈ g} = seriesOf (Web.forecasts sourceName records) h := by
  have hne : byClaimId (Web.forecasts sourceName records) ≠ [] :=
    List.ne_nil_of_mem (mem_byClaimId.mpr hh)
  obtain ⟨f, rest, hsorted⟩ := List.exists_cons_of_ne_nil hne
  obtain ⟨hf, hmin⟩ := byClaimId_head (by rw [hsorted]; rfl : _ = some f)
  obtain rfl : f = h := by
    by_contra hfh
    exact absurd (hfirst f hf hfh) (not_lt.mpr (hmin h hh))
  have hgrouped := grouped sourceName records
  have hnodup := @DistinctIds.sorted sourceName records hd
  rw [hsorted] at hgrouped hnodup
  obtain ⟨g, groups, hgroups, hiff⟩ := hgrouped.mem_first_group_iff hnodup
  refine ⟨g, by rw [hgroups]; rfl, ?_⟩
  have hmem : ∀ y, y ∈ f :: rest ↔ y ∈ Web.forecasts sourceName records := by
    intro y
    rw [← hsorted, mem_byClaimId]
  ext y
  constructor
  · intro hy
    have hyf := mem_of_group (hgroups ▸ List.mem_cons_self) hy
    exact ⟨hyf, (hiff y ((hmem y).mpr hyf)).mp hy⟩
  · rintro ⟨hyf, hnear⟩
    exact (hiff y ((hmem y).mpr hyf)).mpr hnear

/-- **The marks of the first record's series** are those of its series. -/
theorem DistinctIds.first_sameSeries (hd : DistinctIds records) {h x : Forecast}
    (hh : h ∈ Web.forecasts sourceName records) (hx : x ∈ Web.forecasts sourceName records)
    (hfirst : ∀ y ∈ Web.forecasts sourceName records, y ≠ h →
      h.record.claimId < y.record.claimId) :
    sameSeries (·.record.claimId) (forecastMarks sourceName records) h x ↔
      Telling (seriesOf (Web.forecasts sourceName records) h) ∧
        x ∈ seriesOf (Web.forecasts sourceName records) h := by
  obtain ⟨g, hg, hset⟩ := hd.first_group hh hfirst
  have hgmem := List.mem_of_getElem? hg
  have hhg : h ∈ g := (Set.ext_iff.mp hset h).mpr (mem_seriesOf_self hh)
  rw [hd.sameSeries_iff hh hx, ← hset]
  constructor
  · rintro ⟨g', hg', hhg', hxg', htelling⟩
    obtain rfl := (grouped sourceName records).group_unique hd.sorted hg' hgmem hhg' hhg
    exact ⟨htelling, hxg'⟩
  · rintro ⟨htelling, hxg⟩
    exact ⟨g, hgmem, hhg, hxg, htelling⟩

/-- The date of its series is named as the first record names it, when that is the latest. -/
theorem DistinctIds.first_dateLabel (hd : DistinctIds records) {h x : Forecast}
    (hfirst : ∀ y ∈ Web.forecasts sourceName records, y ≠ h →
      h.record.claimId < y.record.claimId)
    (htelling : Telling (seriesOf (Web.forecasts sourceName records) h)) {d : CalendarDate}
    (hlatest : IsLatest (seriesOf (Web.forecasts sourceName records) h) h d)
    (hx : x ∈ seriesOf (Web.forecasts sourceName records) h) :
    ∃ m, markFor (forecastMarks sourceName records) x.record.claimId = some m ∧
      m.dateLabel = h.dateLabel := by
  obtain ⟨g, hg, hset⟩ := hd.first_group hlatest.1.1 hfirst
  rw [← hset] at htelling hlatest hx
  obtain ⟨latest, reference, href, hmin, hmarks⟩ := groupMarks_of_telling htelling
  obtain rfl := hlatest.unique href
  refine ⟨_, hd.markFor_of_mem hg (hmarks 0) hx, ?_⟩
  have hle : reference.record.claimId ≤ h.record.claimId := hmin h hlatest.1 hlatest.2.1
  have heq : reference = h := by
    by_contra hne
    have hlt := hfirst reference (mem_of_group (List.mem_of_getElem? hg) href.1) hne
    exact absurd hlt (not_lt.mpr hle)
  rw [markAs, heq]

theorem sameSeries_congr {α : Type*} {id : α → String} {marks : List ForecastMark} {x y : α}
    (h : sameSeries id marks x y) (z : α) : sameSeries id marks x z = sameSeries id marks y z := by
  simp only [sameSeries, Option.any_eq_true, decide_eq_true_eq] at h ⊢
  obtain ⟨m, hm, m', hm', hseries⟩ := h
  rw [hm, hm', Option.any_some, Option.any_some, hseries]

/-- Records whose marks are carried along under all ids agree in each series. -/
theorem SeriesAgree.of_carried (hd : DistinctIds records)
    (h : ∀ π : String → String, π.Injective → CarriedBy π records (forecastMarks sourceName records)
      (forecastMarks sourceName (records.map (·.rename π)))) :
    SeriesAgree (forecasts sourceName records) := by
  -- the record `x` put first
  have hfirst : ∀ x ∈ forecasts sourceName records,
      ∀ y ∈ forecasts sourceName (records.map (·.rename (putFirst x.record.claimId))),
        y ≠ x.rename (putFirst x.record.claimId) →
          (x.rename (putFirst x.record.claimId)).record.claimId < y.record.claimId := by
    intro x hx y hy hne
    obtain ⟨z, hz, rfl⟩ := List.mem_map.mp ((forecasts_rename (List.Perm.refl _)).mem_iff.mp hy)
    apply putFirst_lt
    intro heq
    exact hne (by rw [hd.eq_of_claimId hz hx heq])
  have hseries : ∀ x ∈ forecasts sourceName records, ∀ y ∈ forecasts sourceName records,
      sameSeries (·.record.claimId) (forecastMarks sourceName records) x y ↔
        Telling (seriesOf (forecasts sourceName records) x) ∧
          y ∈ seriesOf (forecasts sourceName records) x := by
    intro x hx y hy
    have hπ := putFirst_injective x.record.claimId
    have hperm := @forecasts_rename sourceName records _ (putFirst x.record.claimId)
      (List.Perm.refl _)
    have hput := (hd.rename hπ (List.Perm.refl _)).first_sameSeries
      (hperm.mem_iff.mpr (List.mem_map_of_mem hx)) (hperm.mem_iff.mpr (List.mem_map_of_mem hy))
      (hfirst x hx)
    rw [seriesOf_rename hπ hperm, telling_rename, (rename_injective hπ).mem_set_image] at hput
    have hrecord : ∀ z ∈ forecasts sourceName records, z.record ∈ records := fun z hz =>
      forecasts_records.subset (List.mem_map_of_mem hz)
    rw [← hput, Bool.coe_iff_coe]
    exact ((h _ hπ).series x.record (hrecord x hx) y.record (hrecord y hy)).symm
  have hlabel : ∀ x d, Telling (seriesOf (forecasts sourceName records) x) →
      IsLatest (seriesOf (forecasts sourceName records) x) x d →
      ∀ y ∈ seriesOf (forecasts sourceName records) x, ∃ shown,
        (markFor (forecastMarks sourceName records) y.record.claimId).map ForecastMark.shown =
          some shown ∧ shown.2.2 = x.dateLabel := by
    intro x d htelling hlatest y hy
    have hπ := putFirst_injective x.record.claimId
    have hperm := @forecasts_rename sourceName records _ (putFirst x.record.claimId)
      (List.Perm.refl _)
    obtain ⟨m, hm, hdate⟩ := (hd.rename hπ (List.Perm.refl _)).first_dateLabel
      (x := y.rename (putFirst x.record.claimId)) (hfirst x hlatest.1.1)
      (by rwa [seriesOf_rename hπ hperm, telling_rename])
      (by rwa [seriesOf_rename hπ hperm, isLatest_rename hπ])
      (by rwa [seriesOf_rename hπ hperm, (rename_injective hπ).mem_set_image])
    have hshown := (h _ hπ).shown y.record (forecasts_records.subset (List.mem_map_of_mem hy.1))
    refine ⟨m.shown, hshown.symm.trans ?_, hdate⟩
    exact congrArg (Option.map ForecastMark.shown) hm
  intro x hx htelling
  have hsame : ∀ y ∈ seriesOf (forecasts sourceName records) x,
      seriesOf (forecasts sourceName records) y = seriesOf (forecasts sourceName records) x := by
    intro y hy
    have hxy := (hseries x hx y hy.1).mpr ⟨htelling, hy⟩
    have hyy := hxy
    rw [sameSeries_congr hxy] at hyy
    have htelling' := ((hseries y hy.1 y hy.1).mp hyy).1
    ext z
    by_cases hz : z ∈ forecasts sourceName records
    · have hx' := hseries x hx z hz
      rw [sameSeries_congr hxy, hseries y hy.1 z hz] at hx'
      simpa only [htelling, htelling', true_and] using hx'
    · exact iff_of_false (fun hzy => hz hzy.1) fun hzx => hz hzx.1
  refine ⟨hsame, fun y z d hy hz => ?_⟩
  have hys := hsame y hy.1
  have hzs := hsame z hz.1
  rw [← hys] at hy htelling
  rw [← hzs] at hz
  obtain ⟨shown, hshown, hydate⟩ := hlabel y d htelling hy z (by rw [hys, ← hzs]; exact hz.1)
  obtain ⟨shown', hshown', hzdate⟩ := hlabel z d (by rwa [hzs, ← hys]) hz z hz.1
  rw [hshown, Option.some.injEq] at hshown'
  rw [← hydate, hshown', hzdate]

end First

/-! ## Stale entries behind their series -/

section Moved

variable {α : Type*} {id : α → String} {marks : List ForecastMark}

/-- What moving the stale ones of `done` makes of the entries. -/
structure Moved (id : α → String) (marks : List ForecastMark) (items out done : List α) :
    Prop where
  seen : ∀ x ∈ done, x ∈ items
  perm : out.Perm items
  order : out.filter (!isStale id marks ·) = items.filter (!isStale id marks ·)
  behind : ∀ x ∈ done, isStale id marks x → ∀ y ∈ items, ¬ isStale id marks y →
    sameSeries id marks x y → [y, x].Sublist out

theorem sameSeries_self {x : α} (h : isStale id marks x) : sameSeries id marks x x := by
  simp only [isStale, sameSeries, Option.any_eq_true, decide_eq_true_eq] at h ⊢
  obtain ⟨m, hm, -⟩ := h
  exact ⟨m, hm, m, hm, rfl⟩

theorem behindSeries_eq {out : List α} {x : α} (hids : (out.map id).Nodup) (hx : x ∈ out)
    (hstale : isStale id marks x) :
    ∃ a b₁ b₂, out = a ++ x :: (b₁ ++ b₂) ∧ behindSeries id marks out x = a ++ b₁ ++ x :: b₂ ∧
      ∀ y ∈ b₂, ¬ sameSeries id marks x y := by
  obtain ⟨a, b, rfl⟩ := List.append_of_mem hx
  have hhere : (a ++ x :: b).findIdx (fun y => id y = id x) = a.length := by
    rw [List.findIdx_append, List.findIdx_cons, decide_eq_true rfl]
    have hlen : a.findIdx (fun y => id y = id x) = a.length := by
      rw [List.findIdx_eq_length]
      intro y hy
      rw [List.map_append, List.nodup_append] at hids
      exact decide_eq_false (hids.2.2 _ (List.mem_map_of_mem hy) _ List.mem_cons_self)
    rw [hlen, if_neg (lt_irrefl _), cond_true, Nat.zero_add]
  obtain ⟨b₁, b₂, rfl, hmoved, hlast⟩ := moveBehind_eq (l := a) (r := b) (sameSeries_self hstale)
  refine ⟨a, b₁, b₂, rfl, ?_, hlast⟩
  rw [behindSeries, if_pos hstale, hhere, hmoved]

/-- One entry more. -/
theorem Moved.step {items out done : List α} (hids : (items.map id).Nodup)
    (h : Moved id marks items out done) {x : α} (hx : x ∈ items) :
    Moved id marks items (behindSeries id marks out x) (done ++ [x]) := by
  have hseen : ∀ z ∈ done ++ [x], z ∈ items := by
    intro z hz
    rcases List.mem_append.mp hz with hz | hz
    · exact h.seen z hz
    · rwa [List.mem_singleton.mp hz]
  by_cases hstale : isStale id marks x
  case neg =>
    have hout : behindSeries id marks out x = out := if_neg hstale
    rw [hout]
    refine ⟨hseen, h.perm, h.order, fun z hz hzstale => h.behind z ?_ hzstale⟩
    rcases List.mem_append.mp hz with hz | hz
    · exact hz
    · rw [List.mem_singleton.mp hz] at hzstale
      exact absurd hzstale hstale
  have hidsout : (out.map id).Nodup := (h.perm.map id).nodup_iff.mpr hids
  obtain ⟨a, b₁, b₂, rfl, hmoved, hlast⟩ :=
    behindSeries_eq hidsout (h.perm.mem_iff.mpr hx) hstale
  rw [hmoved]
  have hothers : ∀ p : α → Bool, p x = false →
      (a ++ b₁ ++ x :: b₂).filter p = (a ++ x :: (b₁ ++ b₂)).filter p := by
    intro p hp
    simp only [List.filter_append, List.filter_cons, hp, Bool.false_eq_true, if_false,
      List.append_assoc]
  refine ⟨hseen, ?_, ?_, ?_⟩
  · have hperm : (a ++ b₁ ++ x :: b₂).Perm (a ++ x :: (b₁ ++ b₂)) := by
      rw [List.append_assoc]
      exact List.Perm.append_left a List.perm_middle
    exact hperm.trans h.perm
  · rw [hothers _ (by rw [hstale]; rfl), h.order]
  · intro z hz hzstale y hy hactual hsame
    have hyx : y ≠ x := fun heq => hactual (heq ▸ hstale)
    by_cases hzx : z = x
    · -- no entry of its series is behind it
      subst hzx
      have hyout : y ∈ a ++ b₁ := by
        have hmem := h.perm.mem_iff.mpr hy
        simp only [List.mem_append, List.mem_cons] at hmem ⊢
        rcases hmem with hmem | rfl | hmem | hmem
        · exact .inl hmem
        · exact absurd rfl hyx
        · exact .inr hmem
        · exact absurd hsame (hlast y hmem)
      exact (List.singleton_sublist.mpr hyout).append
        (List.singleton_sublist.mpr List.mem_cons_self)
    · -- the two entries keep their order
      have hzdone : z ∈ done := by
        rcases List.mem_append.mp hz with hz | hz
        · exact hz
        · exact absurd (List.mem_singleton.mp hz) hzx
      have hold := h.behind z hzdone hzstale y hy hactual hsame
      have hne : ∀ w ∈ items, w ≠ x → decide (id w ≠ id x) = true := by
        intro w hw hwx
        exact decide_eq_true fun heq => hwx (List.inj_on_of_nodup_map hids hw hx heq)
      have hpair : [y, z].filter (fun w => decide (id w ≠ id x)) = [y, z] := by
        rw [List.filter_eq_self]
        intro w hw
        rcases List.mem_pair.mp hw with rfl | rfl
        · exact hne w hy hyx
        · exact hne w (hseen w hz) hzx
      have hfiltered := hold.filter fun w => decide (id w ≠ id x)
      rw [hpair, ← hothers _ (decide_eq_false (not_not.mpr rfl))] at hfiltered
      exact hfiltered.trans List.filter_sublist

/-- **What the reordering does**: every stale entry is behind the actual ones of its series, and
the entries that are not stale keep their order. -/
theorem staleAfterCurrent_moved {items : List α} (hids : (items.map id).Nodup) :
    Moved id marks items (staleAfterCurrent id marks items) items := by
  have hrun : ∀ (rest done out : List α), done ++ rest = items → Moved id marks items out done →
      Moved id marks items (rest.foldl (behindSeries id marks) out) items := by
    intro rest
    induction rest with
    | nil =>
      intro done out hdone h
      rw [List.append_nil] at hdone
      rwa [hdone] at h
    | cons x rest ih =>
      intro done out hdone h
      have hx : x ∈ items := hdone ▸ List.mem_append_right done List.mem_cons_self
      exact ih (done ++ [x]) _ (by rw [List.append_assoc]; exact hdone) (h.step hids hx)
  exact hrun items [] items rfl ⟨fun _ hx => (by cases hx), List.Perm.refl _, rfl,
    fun _ hx => (by cases hx)⟩

end Moved

/-! ## Marks of the record's own series -/

/-- The forecast has an earlier date than another one. -/
def Forecast.earlier (x y : Forecast) : Prop := ∃ d ∈ x.date, ∃ d' ∈ y.date, d < d'

/-- The marks of a card are about the records' own series. -/
structure OwnSeriesMarks (sourceName : String → Option String) (records : List ForecastRecord) :
    Prop where
  /-- Other ids and another order of the list carry the marks along. -/
  carried : ∀ π : String → String, π.Injective → ∀ records',
    records'.Perm (records.map (·.rename π)) →
      CarriedBy π records (forecastMarks sourceName records) (forecastMarks sourceName records')
  outdated : ∀ x ∈ forecasts sourceName records, ∀ m,
    markFor (forecastMarks sourceName records) x.record.claimId = some m → m.kind = .outdated →
      ∃ y ∈ forecasts sourceName records, x.seriesKey = y.seriesKey ∧
        (x.horizon ∩ y.horizon).Nonempty ∧ sameIndicator x.record y.record ∧ x.earlier y
  actual : ∀ x ∈ forecasts sourceName records, ∀ y ∈ forecasts sourceName records,
    x.seriesKey = y.seriesKey → (x.horizon ∩ y.horizon).Nonempty →
      sameIndicator x.record y.record → ∀ m m',
        markFor (forecastMarks sourceName records) x.record.claimId = some m →
        markFor (forecastMarks sourceName records) y.record.claimId = some m' →
          m.kind = .actual → m'.kind = .actual → x.date = y.date
  /-- Stale entries go behind the actual ones of their series, and the others keep their order. -/
  reordered : ∀ (α : Type) (id : α → String) (items : List α), (items.map id).Nodup →
    Moved id (forecastMarks sourceName records) items
      (staleAfterCurrent id (forecastMarks sourceName records) items) items
  /-- In a list that shows all the records there is an actual one of the series. -/
  actualShown : ∀ (α : Type) (id : α → String) (items : List α),
    (∀ r ∈ records, ∃ x ∈ items, id x = r.claimId) → ∀ x ∈ items,
      isStale id (forecastMarks sourceName records) x → ∃ y ∈ items,
        sameSeries id (forecastMarks sourceName records) x y ∧
          ∃ m, markFor (forecastMarks sourceName records) (id y) = some m ∧ m.kind = .actual

section Own

variable {sourceName : String → Option String} {records : List ForecastRecord}

/-- A record linked to one with a mark has a mark of the same group. -/
theorem DistinctIds.actualShown (hd : DistinctIds records) {α : Type} {id : α → String}
    {items : List α} (hitems : ∀ r ∈ records, ∃ x ∈ items, id x = r.claimId) {x : α}
    (hstale : isStale id (forecastMarks sourceName records) x) :
    ∃ y ∈ items, sameSeries id (forecastMarks sourceName records) x y ∧
      ∃ m, markFor (forecastMarks sourceName records) (id y) = some m ∧ m.kind = .actual := by
  simp only [isStale, Option.any_eq_true] at hstale
  obtain ⟨m, hm, -⟩ := hstale
  obtain ⟨i, g, f, hg, hf, hid, htelling, hmg, -⟩ := hd.markFor_iff.mp hm
  obtain ⟨latest, reference, hlatest, -, hmarks⟩ := groupMarks_of_telling htelling
  have hgmem := List.mem_of_getElem? hg
  have href := mem_of_group hgmem hlatest.1
  obtain ⟨y, hy, hyid⟩ := hitems reference.record
    (forecasts_records.subset (List.mem_map_of_mem href))
  have hymark := hd.markFor_of_mem hg (hmarks i) hlatest.1
  have hxmark := hd.markFor_of_mem hg (hmarks i) hf
  rw [← hyid] at hymark
  rw [hid] at hxmark
  refine ⟨y, hy, ?_, _, hymark, ?_⟩
  · rw [sameSeries, hxmark, Option.any_some, hymark, Option.any_some]
    exact decide_eq_true rfl
  · rw [markAs, hlatest.2.1, markKind, if_pos (le_refl _)]

theorem SeriesAgree.outdated (hd : DistinctIds records)
    (hagree : SeriesAgree (forecasts sourceName records)) {x : Forecast}
    (hx : x ∈ forecasts sourceName records) {m : ForecastMark}
    (hm : markFor (forecastMarks sourceName records) x.record.claimId = some m)
    (hkind : m.kind = .outdated) :
    ∃ y ∈ forecasts sourceName records, x.seriesKey = y.seriesKey ∧
      (x.horizon ∩ y.horizon).Nonempty ∧ sameIndicator x.record y.record ∧ x.earlier y := by
  have hshown := (hd.shown_of_agree hagree hx m.shown).mp (congrArg (Option.map _) hm)
  obtain ⟨-, latest, reference, hlatest, hm'⟩ := hshown
  have hxkind : markKind latest x.date = .outdated :=
    (congrArg Prod.fst hm').symm.trans hkind
  cases hdate : x.date with
  | none =>
    rw [hdate] at hxkind
    cases hxkind
  | some d =>
    rw [hdate, markKind] at hxkind
    split at hxkind
    · cases hxkind
    · rename_i hlt
      have hearlier : x.earlier reference := ⟨d, hdate, latest, hlatest.2.1, not_le.mp hlt⟩
      refine ⟨reference, hlatest.1.1, ?_⟩
      rcases hlatest.1.2 with rfl | hlinked
      · rw [hlatest.2.1, Option.some.injEq] at hdate
        exact absurd (le_of_eq hdate) hlt
      · simp only [ofOneSeries, Bool.and_eq_true, decide_eq_true_eq] at hlinked
        exact ⟨hlinked.1.1, hlinked.1.2, hlinked.2, hearlier⟩

theorem SeriesAgree.actual (hd : DistinctIds records)
    (hagree : SeriesAgree (forecasts sourceName records)) {x y : Forecast}
    (hx : x ∈ forecasts sourceName records) (hy : y ∈ forecasts sourceName records)
    (hlinked : ofOneSeries x y) {m m' : ForecastMark}
    (hm : markFor (forecastMarks sourceName records) x.record.claimId = some m)
    (hm' : markFor (forecastMarks sourceName records) y.record.claimId = some m')
    (hkind : m.kind = .actual) (hkind' : m'.kind = .actual) : x.date = y.date := by
  obtain ⟨htelling, latest, reference, hlatest, hshown⟩ :=
    (hd.shown_of_agree hagree hx m.shown).mp (congrArg (Option.map _) hm)
  obtain ⟨-, latest', reference', hlatest', hshown'⟩ :=
    (hd.shown_of_agree hagree hy m'.shown).mp (congrArg (Option.map _) hm')
  have hyx : y ∈ seriesOf (forecasts sourceName records) x := ⟨hy, .inr hlinked⟩
  rw [(hagree x hx htelling).1 y hyx] at hlatest'
  obtain rfl := hlatest.unique hlatest'
  have hdate : ∀ f ∈ seriesOf (forecasts sourceName records) x,
      markKind latest f.date = .actual → f.date = some latest := by
    intro f hf hk
    cases hfd : f.date with
    | none =>
      rw [hfd] at hk
      cases hk
    | some d =>
      rw [hfd, markKind] at hk
      split at hk
      · rename_i hle
        rw [le_antisymm (hlatest.2.2 f hf d hfd) hle]
      · cases hk
  rw [hdate x (mem_seriesOf_self hx) ((congrArg Prod.fst hshown).symm.trans hkind),
    hdate y hyx ((congrArg Prod.fst hshown').symm.trans hkind')]

/-- A card of one series only, on which one date has one name. -/
theorem seriesAgree_of_linked {fs : List Forecast} (hlinked : ∀ x ∈ fs, ∀ y ∈ fs, ofOneSeries x y)
    (hlabel : ∀ x ∈ fs, ∀ y ∈ fs, x.date = y.date → x.dateLabel = y.dateLabel) :
    SeriesAgree fs := by
  have hall : ∀ h ∈ fs, seriesOf fs h = {x | x ∈ fs} := by
    intro h hh
    ext x
    exact ⟨fun hx => hx.1, fun hx => ⟨hx, .inr (hlinked h hh x hx)⟩⟩
  intro h hh _
  refine ⟨fun y hy => (hall y hy.1).trans (hall h hh).symm, fun x y d hx hy => ?_⟩
  exact hlabel x hx.1.1 y hy.1.1 (hx.2.1.trans hy.2.1.symm)

/-- **The marks of a card are about the records' own series** exactly when the records of each
series agree: what is of one series with one of them is of one series with all of them, and the
latest of them name their date in one way. -/
theorem forecastMarks_own_iff (sourceName : String → Option String)
    (records : List ForecastRecord) (hd : DistinctIds records) :
    OwnSeriesMarks sourceName records ↔ SeriesAgree (forecasts sourceName records) := by
  constructor
  · intro h
    exact SeriesAgree.of_carried hd fun π hπ => h.carried π hπ _ (List.Perm.refl _)
  · intro hagree
    refine ⟨fun π hπ records' h => hagree.carried hd hπ h,
      fun x hx m hm hkind => hagree.outdated hd hx hm hkind, ?_,
      fun α id items hids => staleAfterCurrent_moved hids,
      fun α id items hitems x _ hstale => hd.actualShown hitems hstale⟩
    intro x hx y hy hkey hhorizon hindicator m m' hm hm' hkind hkind'
    refine hagree.actual hd hx hy ?_ hm hm' hkind hkind'
    simp only [ofOneSeries, Bool.and_eq_true, decide_eq_true_eq]
    exact ⟨⟨hkey, hhorizon⟩, hindicator⟩

end Own

/-- A forecast of inflation by the bank of the vocabulary, for the years of the horizon. -/
def inflationForecast (claimId : String) (years : List Nat) (asOf : Option CalendarDate) :
    ForecastRecord where
  claimId := claimId
  statement :=
    { forecastMarker := true, realized := false, roots := ["cbr"], sberbank := false,
      foreignExpectations := [], survey := false, tokens := [], vitrineYears := years,
      territoryGroups := ∅, qualifierGroups := ∅, namesQualifier := false,
      indicatorWords := ["инфляц"] }
  asOf := asOf
  metric := some "inflation"

/-- Two forecasts for one year. -/
def yearCard : List ForecastRecord :=
  [inflationForecast "c1" [2026] (calendarDate 2026 2 13),
    inflationForecast "c2" [2026] (calendarDate 2026 4 24)]

theorem yearCard_own : OwnSeriesMarks (fun _ => none) yearCard :=
  (forecastMarks_own_iff (fun _ => none) yearCard
    (show (yearCard.map (·.claimId)).Nodup by decide)).mpr
    (seriesAgree_of_linked (by decide) (by decide))

/-- A forecast for two years, between one for the first of them and one for the second. -/
def overlapCard : List ForecastRecord :=
  [inflationForecast "c1" [2026, 2027] (calendarDate 2026 2 13),
    inflationForecast "c2" [2026] (calendarDate 2026 4 24),
    inflationForecast "c3" [2027] (calendarDate 2026 7 24)]

/-- The forecast for 2026 is called outdated, and no later one is for that year. -/
theorem overlapCard_not_own : ¬ OwnSeriesMarks (fun _ => none) overlapCard := by
  intro h
  have hmark : ∃ x ∈ forecasts (fun _ => none) overlapCard,
      (markFor (forecastMarks (fun _ => none) overlapCard) x.record.claimId).map (·.kind) =
        some .outdated ∧ ∀ y ∈ forecasts (fun _ => none) overlapCard,
          ¬ ((x.horizon ∩ y.horizon).Nonempty ∧ ∃ d ∈ x.date, ∃ d' ∈ y.date, d < d') := by
    decide
  obtain ⟨x, hx, hkind, hnone⟩ := hmark
  obtain ⟨m, hm, hk⟩ := Option.map_eq_some_iff.mp hkind
  obtain ⟨y, hy, -, hhorizon, -, hearlier⟩ := h.outdated x hx m hm hk
  exact hnone y hy ⟨hhorizon, hearlier⟩

end Noezema.Web
