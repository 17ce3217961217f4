import Noezema.Cognition.AssertionWindows
import Noezema.Cognition.SourceCoverage
import Noezema.Domain.Canonical
import Noezema.Explorer.Broker
import Noezema.Lib.FloatArith

/-! # The gates of a search and of a fetch

Before a `web.search` is executed its words are compared with the searches of the session
that have succeeded; before a `research.fetch` its host is looked up among the hosts that
have refused. `actors` is `named_query_actors`, the recognition of the catalog's names.
-/

namespace Noezema.Explorer

open Noezema.Lib
open Noezema.Domain (maskNul)
open Noezema.Memory (Text strip normalizedHost)
open Noezema.Cognition.AssertionWindows (stemOf)

/-! ## Words of a query -/

/-- `[0-9a-zа-я]`. -/
def isQueryChar (c : Char) : Bool :=
  ('0' ≤ c && c ≤ '9') || ('a' ≤ c && c ≤ 'z') || ('а' ≤ c && c ≤ 'я')

/-- `SEARCH_QUERY_SERVICE_WORDS`. -/
def searchQueryServiceWords : List Text :=
  ["в", "во", "с", "со", "у", "на", "за", "под", "над", "по", "из", "от", "до", "к", "ко",
    "о", "об", "при", "для", "без", "через", "между", "и", "а", "но", "или", "да", "как",
    "что", "чтобы", "если", "тоже", "также", "не", "же", "бы", "ли", "этот", "эта", "эти",
    "его", "её", "ее", "их", "год", "года", "году", "годы", "г"].map String.toList

section Queries

variable (fl : FloatArith) (t : UrlTables)

/-- `normalize_search_query`: the maximal words of the class. -/
def normalizeSearchQuery (query : Text) : Finset Text :=
  let text := (t.lower (maskNul query)).map fun c => if c = 'ё' then 'е' else c
  ((text.splitOnP fun c => !isQueryChar c).filter fun w => !w.isEmpty).toFinset

/-- A number stays as it is, a word is cut to its stem. -/
def tokenStem (token : Text) : Text :=
  if token.all fun c => '0' ≤ c && c ≤ '9' then token else stemOf token

/-- `content_word_stems`. -/
def contentWordStems (query : Text) : Finset Text :=
  ((normalizeSearchQuery t query).filter fun w =>
    searchQueryServiceWords.contains w = false).image tokenStem

/-- The words two queries have in common, as a share. -/
def wordRatio (query prior : Text) : ℚ :=
  let words := normalizeSearchQuery t query
  let priorWords := normalizeSearchQuery t prior
  fl.rnd ((words ∩ priorWords).card / max 1 (words ∪ priorWords).card)

/-- The query brings no content word that the prior one had not, and leaves none out; a
query of service words repeats every search. -/
def Repeats (query prior : Text) : Prop :=
  contentWordStems t query = ∅ ∨ contentWordStems t query = contentWordStems t prior

instance (query prior : Text) : Decidable (Repeats t query prior) := by
  unfold Repeats
  infer_instance

/-- One prior search of the loop. -/
def closerSearch (query : Text) (best : Option (Text × Nat × ℚ)) (prior : Text × Nat) :
    Option (Text × Nat × ℚ) :=
  if contentWordStems t query ≠ ∅ ∧ contentWordStems t query ≠ contentWordStems t prior.1 then
    best
  else
    let ratio := wordRatio fl t query prior.1
    match best with
    | none => some (prior.1, prior.2, ratio)
    | some (text, step, r) =>
      if r < ratio then some (prior.1, prior.2, ratio) else some (text, step, r)

/-- `search_near_duplicate`. -/
def searchNearDuplicate (query : Text) (previous : List (Text × Nat)) :
    Option (Text × Nat × ℚ) :=
  previous.foldl (closerSearch fl t query) none

variable {fl t}

theorem closerSearch_isSome {query : Text} {best : Option (Text × Nat × ℚ)}
    {prior : Text × Nat} : (closerSearch fl t query best prior).isSome = true ↔
      best.isSome = true ∨ Repeats t query prior.1 := by
  unfold closerSearch Repeats
  split
  · rename_i hnew
    simp [hnew]
  · rename_i hrepeat
    have hrepeat : contentWordStems t query = ∅ ∨
        contentWordStems t query = contentWordStems t prior.1 := by
      by_contra hnot
      exact hrepeat (not_or.mp hnot)
    dsimp only
    split
    · simp [hrepeat]
    · split <;> simp

/-- A search is refused as a near duplicate just when it repeats one that has succeeded. -/
theorem searchNearDuplicate_isSome {query : Text} {previous : List (Text × Nat)} :
    (searchNearDuplicate fl t query previous).isSome = true ↔
      ∃ prior ∈ previous, Repeats t query prior.1 := by
  have hfold : ∀ (previous : List (Text × Nat)) (best : Option (Text × Nat × ℚ)),
      (previous.foldl (closerSearch fl t query) best).isSome = true ↔
        best.isSome = true ∨ ∃ prior ∈ previous, Repeats t query prior.1 := by
    intro previous
    induction previous with
    | nil => simp
    | cons prior rest ih =>
      intro best
      rw [List.foldl_cons, ih, closerSearch_isSome]
      simp [or_assoc]
  rw [searchNearDuplicate, hfold]
  simp

end Queries

/-! ## Named actors -/

/-- `ActorSearchTracker`; the aggregate query and its step are set together. -/
structure ActorSearchTracker where
  named : List String
  covered : Finset String
  aggregate : Option (Text × Nat)
deriving DecidableEq

/-- `MULTI_ACTOR_MIN`. -/
def multiActorMin : Nat := 3

/-- `SEPARATE_SEARCH_MAX_ACTORS`. -/
def separateSearchMaxActors : Nat := 2

namespace ActorSearchTracker

variable (actors : Text → List String)

/-- `_query_actors`. -/
def queryActors (tracker : ActorSearchTracker) (query : Text) : Finset String :=
  (actors query).toFinset ∩ tracker.named.toFinset

/-- `is_aggregate`. -/
def isAggregate (tracker : ActorSearchTracker) (query : Text) : Bool :=
  multiActorMin ≤ (tracker.queryActors actors query).card

/-- `repeat_refusal`. -/
def repeatRefusal (tracker : ActorSearchTracker) (query : Text) : Option (Text × Nat) :=
  if tracker.named.length < multiActorMin then none
  else
    match tracker.aggregate with
    | none => none
    | some prior => if tracker.isAggregate actors query then some prior else none

/-- `mark_executed`. -/
def markExecuted (tracker : ActorSearchTracker) (query : Text) (step : Nat) :
    ActorSearchTracker :=
  let found := tracker.queryActors actors query
  if separateSearchMaxActors < found.card then
    if tracker.aggregate = none then { tracker with aggregate := some (query, step) } else tracker
  else { tracker with covered := tracker.covered ∪ found }

/-- `uncovered`. -/
def uncovered (tracker : ActorSearchTracker) : List String :=
  tracker.named.filter fun name => name ∉ tracker.covered

variable {actors}

@[simp] theorem markExecuted_named (tracker : ActorSearchTracker) (query : Text) (step : Nat) :
    (tracker.markExecuted actors query step).named = tracker.named := by
  unfold markExecuted
  dsimp only
  split
  · split <;> rfl
  · rfl

/-- The aggregate is set by an aggregate search, and then it stays set. -/
theorem markExecuted_aggregate {tracker : ActorSearchTracker} {query : Text} {step : Nat} :
    (tracker.markExecuted actors query step).aggregate.isSome = true ↔
      tracker.aggregate.isSome = true ∨ tracker.isAggregate actors query = true := by
  have hcard : separateSearchMaxActors < (tracker.queryActors actors query).card ↔
      tracker.isAggregate actors query = true := by
    rw [isAggregate, decide_eq_true_eq, separateSearchMaxActors, multiActorMin]
    omega
  unfold markExecuted
  dsimp only
  split
  · rename_i hlarge
    have hagg := hcard.mp hlarge
    split
    · simp [hagg]
    · rename_i hsome
      simp [Option.isSome_iff_ne_none, hsome]
  · rename_i hsmall
    have hagg : ¬ tracker.isAggregate actors query = true := fun h => hsmall (hcard.mpr h)
    simp [hagg]

/-- Whether a query is an aggregate depends on the question's actors only. -/
theorem isAggregate_congr {a b : ActorSearchTracker} (h : a.named = b.named) (query : Text) :
    a.isAggregate actors query = b.isAggregate actors query := by
  have hfound : a.queryActors actors query = b.queryActors actors query := by
    rw [queryActors, queryActors, h]
  rw [isAggregate, isAggregate, hfound]

/-- An aggregate search is refused just when the question names enough actors and one has
already succeeded. -/
theorem repeatRefusal_isSome {tracker : ActorSearchTracker} {query : Text} :
    (tracker.repeatRefusal actors query).isSome = true ↔
      multiActorMin ≤ tracker.named.length ∧ tracker.aggregate.isSome = true ∧
        tracker.isAggregate actors query = true := by
  unfold repeatRefusal
  split
  · rename_i hfew
    simp [Nat.not_le.mpr hfew]
  · rename_i hmany
    cases haggregate : tracker.aggregate with
    | none => simp
    | some prior =>
      by_cases hagg : tracker.isAggregate actors query = true
      · simp [hagg, Nat.le_of_not_lt hmany]
      · simp [hagg]

end ActorSearchTracker

/-! ## Hosts -/

/-- `fetch_url_host`: empty when there is no host to speak of. -/
def fetchUrlHost (t : UrlTables) (url : Text) : Except UrlError Text := do
  let parts ← t.urlsplit (strip url)
  pure (normalizedHost t parts)

/-- `HTTP_DENY_CODES`. -/
def httpDenyCodes : List String := ["401", "403", "429"]

/-- `classify_fetch_error`: `_NON200_RE` with one of the codes is that code's text. -/
def classifyFetchError (error : Text) : Option String :=
  match httpDenyCodes.find? fun code => strip error = "non-200 status: ".toList ++ code.toList with
  | some code => some code
  | none => if "timeout:".toList <+: error then some "timeout" else none

end Noezema.Explorer
