import Noezema.Cognition.NamedSources
import Noezema.Lib.SplitOn
import Noezema.Lib.Unquote

/-! # The coverage of the named sources

A session may complete once each source its question names was requested. An address is
matched by one text: its domain, its decoded path and, behind a question mark, its decoded
query. A decoded path may hold a question mark itself, and two pages with one text are
confused (`key_eq_iff`). From this follows when the tracker is complete.
-/

namespace Noezema.Cognition

open Noezema.Lib Noezema.Lib.SplitResult Noezema.Memory

/-! ## Pages -/

/-- What a coverage key is put together from. -/
structure Page where
  domain : List Char
  path : List Char
  query : List Char
deriving DecidableEq

namespace Page

def queryText (p : Page) : List Char := if p.query = [] then [] else '?' :: p.query

def key (p : Page) : List Char := p.domain ++ p.path ++ p.queryText

/-- The domain holds no delimiter, and the path is empty or begins with a slash. -/
structure Separated (p : Page) : Prop where
  slash : '/' ∉ p.domain
  question : '?' ∉ p.domain
  rooted : ∀ c ∈ p.path.head?, c = '/'

/-- The path of `b` goes on where that of `a` ends, with a question mark, and what the query
of `a` has beyond that is the query of `b`. -/
def RunsInto (a b : Page) : Prop :=
  a.domain = b.domain ∧
    ∃ r, b.path = a.path ++ '?' :: r ∧ a.queryText = '?' :: (r ++ b.queryText)

/-- Two pages that are one text cut at different question marks. -/
def Confusable (a b : Page) : Prop := a.RunsInto b ∨ b.RunsInto a

theorem queryText_head {p : Page} {c : Char} (h : c ∈ p.queryText.head?) : c = '?' := by
  unfold queryText at h
  split at h
  · cases h
  · simpa using h.symm

theorem queryText_inj {a b : Page} (h : a.queryText = b.queryText) : a.query = b.query := by
  unfold queryText at h
  split at h <;> split at h <;> simp_all

/-- The domain is what is in front of the first delimiter. -/
theorem Separated.domain_eq {p : Page} (h : p.Separated) :
    p.domain = p.key.takeWhile fun c => c ≠ '/' ∧ c ≠ '?' := by
  have hdomain : ∀ c ∈ p.domain, decide (c ≠ '/' ∧ c ≠ '?') = true := by
    intro c hc
    rw [decide_eq_true_eq]
    exact ⟨fun heq => h.slash (heq ▸ hc), fun heq => h.question (heq ▸ hc)⟩
  have hrest : (p.path ++ p.queryText).takeWhile (fun c => c ≠ '/' ∧ c ≠ '?') = [] := by
    cases hr : p.path ++ p.queryText with
    | nil => rfl
    | cons c rest =>
      have hc : c ∈ (p.path ++ p.queryText).head? := by rw [hr]; rfl
      have hdelim : c = '/' ∨ c = '?' := by
        rw [List.head?_append] at hc
        rcases Option.or_eq_some_iff.mp hc with hc | ⟨-, hc⟩
        · exact .inl (h.rooted c hc)
        · exact .inr (queryText_head hc)
      rcases hdelim with rfl | rfl <;> rfl
  rw [key, List.append_assoc, List.takeWhile_append_of_pos hdomain, hrest, List.append_nil]

theorem RunsInto.key_eq {a b : Page} (h : a.RunsInto b) : a.key = b.key := by
  obtain ⟨hdomain, r, hpath, hquery⟩ := h
  rw [key, key, hdomain, hpath, hquery]
  simp

theorem RunsInto.ne {a b : Page} (h : a.RunsInto b) : a ≠ b := by
  rintro rfl
  obtain ⟨-, r, hpath, -⟩ := h
  have hlen := congrArg List.length hpath
  simp at hlen

theorem Confusable.ne {a b : Page} (h : a.Confusable b) : a ≠ b := by
  rcases h with h | h
  · exact h.ne
  · exact h.ne.symm

/-- A part that one path has more comes from the query of the other. -/
theorem eq_or_runsInto {a b : Page} {w : List Char} (hdomain : a.domain = b.domain)
    (hpath : b.path = a.path ++ w) (hquery : a.queryText = w ++ b.queryText) :
    a = b ∨ a.RunsInto b := by
  cases w with
  | nil =>
    rw [List.append_nil] at hpath
    have hq := queryText_inj hquery
    cases a
    cases b
    simp_all
  | cons c r =>
    have hc : c = '?' := queryText_head (p := a) (by rw [hquery]; rfl)
    subst hc
    exact .inr ⟨hdomain, r, hpath, hquery⟩

/-- **When two pages share their key.** -/
theorem key_eq_iff {a b : Page} (ha : a.Separated) (hb : b.Separated) :
    a.key = b.key ↔ a = b ∨ a.Confusable b := by
  constructor
  · intro h
    have hdomain : a.domain = b.domain := by rw [ha.domain_eq, hb.domain_eq, h]
    have hrest : a.path ++ a.queryText = b.path ++ b.queryText := by
      rw [key, key, hdomain, List.append_assoc, List.append_assoc] at h
      exact List.append_cancel_left h
    rcases List.append_eq_append_iff.mp hrest with ⟨w, hpath, hquery⟩ | ⟨w, hpath, hquery⟩
    · exact (eq_or_runsInto hdomain hpath hquery).imp_right .inl
    · exact (eq_or_runsInto hdomain.symm hpath hquery).imp Eq.symm .inr
  · rintro (rfl | h | h)
    · rfl
    · exact h.key_eq
    · exact h.key_eq.symm

end Page

section Pages

variable (t : UrlTables) (rd : TextReader)

/-- `unquote(..).lower()`. -/
def decodedLower (s : List Char) : List Char := t.lower (unquote s)

/-- The components of the key of an address, none where it has no key. -/
def pageOf (url : List Char) : Except UrlError (Option Page) := do
  let parts ← t.urlsplit (strip url)
  let scheme := t.lower parts.scheme
  if (scheme ≠ "http".toList ∧ scheme ≠ "https".toList) ∨ parts.hostname t = none then
    pure none
  else do
    match ← registrableDomainOf t rd url with
    | none => pure none
    | some domain => pure (some
        { domain := domain.toList
          path := (decodedLower t parts.path).rdropWhile (· = '/')
          query := if parts.query = [] then [] else decodedLower t parts.query })

variable {t rd} {url : List Char}

/-- The key of an address is that of its page. -/
theorem coverageKey_eq : coverageKey t rd (decodedLower t) url =
    (pageOf t rd url).map (Option.map Page.key) := by
  unfold coverageKey pageOf
  cases t.urlsplit (strip url) with
  | error e => rfl
  | ok parts =>
    dsimp only [ok_bind]
    split
    · rfl
    · cases registrableDomainOf t rd url with
      | error e => rfl
      | ok domain => cases domain <;> rfl

theorem coverageKey_eq_some {key : List Char} :
    coverageKey t rd (decodedLower t) url = .ok (some key) ↔
      ∃ page, pageOf t rd url = .ok (some page) ∧ page.key = key := by
  rw [coverageKey_eq]
  cases pageOf t rd url with
  | error e => simp [Except.map]
  | ok page => cases page <;> simp [Except.map]

theorem splitUrl_path_rooted {url : List Char} (h : (splitUrl url).netloc ≠ []) {c : Char}
    (hc : c ∈ (splitUrl url).path.head?) : c = '/' := by
  have hrest : ∀ s, (splitNetloc s).1 ≠ [] →
      c ∈ (before '?' (before '#' (splitNetloc s).2)).head? → c = '/' := by
    intro s hs hc
    unfold splitNetloc at hs hc
    split at hs
    · rename_i rest
      replace hc : c ∈ (before '?' (before '#' (rest.dropWhile (· ∉ pathDelims)))).head? := hc
      cases hd : rest.dropWhile (· ∉ pathDelims) with
      | nil =>
        rw [hd] at hc
        cases hc
      | cons d tail =>
        -- what is left begins with a delimiter, and a path with none but the slash
        have hdelim : d ∈ pathDelims := by
          have hhead := List.head?_dropWhile_not (fun x => decide (x ∉ pathDelims)) rest
          rw [hd] at hhead
          simpa using hhead
        rw [hd] at hc
        fin_cases hdelim
        · simpa [before] using hc.symm
        · simp [before] at hc
        · simp [before] at hc
    · exact absurd rfl hs
  exact hrest _ h hc

/-- Lowering leaves a leading slash. -/
theorem decodedLower_head (hslash : ∀ s, t.lower ('/' :: s) = '/' :: t.lower s) {s : List Char}
    (hs : ∀ c ∈ s.head?, c = '/') {c : Char} (hc : c ∈ (decodedLower t s).head?) : c = '/' := by
  cases s with
  | nil =>
    rw [decodedLower, unquote_nil, t.lower_ascii [] (by simp)] at hc
    cases hc
  | cons x s =>
    obtain rfl := hs x rfl
    rw [decodedLower, unquote_slash, hslash] at hc
    simpa using hc.symm

theorem pageOf_separated (hslash : ∀ s, t.lower ('/' :: s) = '/' :: t.lower s) {page : Page}
    (h : pageOf t rd url = .ok (some page)) : page.Separated := by
  obtain ⟨parts, hparts, h⟩ := bind_eq_ok.mp h
  obtain rfl := urlsplit_eq hparts
  dsimp only at h
  split at h
  · cases h
  · rename_i hscheme
    obtain ⟨domain, hdomain, h⟩ := bind_eq_ok.mp h
    cases domain with
    | none => cases h
    | some domain =>
      obtain rfl := Option.some.inj (Except.ok.inj h)
      refine ⟨registrableDomainOf_no_delim hdomain (by decide),
        registrableDomainOf_no_delim hdomain (by decide), ?_⟩
      intro c hc
      have hnetloc : (splitUrl (strip url)).netloc ≠ [] := by
        intro hnil
        refine hscheme (.inr ?_)
        unfold SplitResult.hostname
        rw [hnil]
        rfl
      obtain ⟨slashes, hpath⟩ := List.rdropWhile_prefix (fun c => decide (c = '/'))
        (decodedLower t (splitUrl (strip url)).path)
      have hhead : c ∈ (decodedLower t (splitUrl (strip url)).path).head? := by
        rw [← hpath]
        exact List.mem_head?_append_of_mem_head? hc
      exact decodedLower_head hslash (fun x hx => splitUrl_path_rooted hnetloc hx) hhead

end Pages

/-! ## The tracker -/

inductive CoverageStatus where
  | pending | fetched | errored
deriving DecidableEq, Repr

/-- `STATUS_FETCHED if ok else STATUS_ERRORED`. -/
def CoverageStatus.ofMark (ok : Bool) : CoverageStatus := if ok then .fetched else .errored

/-- A tracker with the status of each of its keys. -/
structure Coverage where
  tracker : SourceCoverageTracker
  /-- `_status`. -/
  status : List (List Char × CoverageStatus)

section Tracker

variable (t : UrlTables) (rd : TextReader)

/-- `SourceCoverageTracker(named)`: all keys wait. -/
def Coverage.ofNamed (named : List (List Char)) : Except UrlError Coverage := do
  let tracker ← sourceCoverage t rd (decodedLower t) named
  pure ⟨tracker, tracker.pending.map fun key => (key, .pending)⟩

namespace Coverage

/-- The assignment `self._status[key] = s`. -/
def setStatus (c : Coverage) (key : List Char) (s : CoverageStatus) : Coverage :=
  { c with status := c.status.map fun e => if e.1 = key then (e.1, s) else e }

/-- `mark`. -/
def mark (c : Coverage) (url : List Char) (ok : Bool) : Except UrlError Coverage := do
  match ← coverageKey t rd (decodedLower t) url with
  | none => pure c
  | some key =>
    if c.status.lookup key ≠ some .pending then pure c
    else pure (c.setStatus key (.ofMark ok))

/-- The calls of a session; one that raises leaves the tracker as it was. -/
def markAll (c : Coverage) (marks : List (List Char × Bool)) : Coverage :=
  marks.foldl (fun c m => (c.mark t rd m.1 m.2).toOption.getD c) c

/-- The loop of `uncovered`. -/
def uncoveredFrom (c : Coverage) (seen : List (List Char)) :
    List (List Char × List Char) → List (List Char)
  | [] => []
  | (key, url) :: rest =>
    if c.status.lookup key = some .pending ∧ ¬ seen.contains key then
      url :: c.uncoveredFrom (key :: seen) rest
    else c.uncoveredFrom seen rest

/-- `uncovered`. -/
def uncovered (c : Coverage) : List (List Char) := c.uncoveredFrom [] c.tracker.namedKeys

/-- `is_complete`. -/
def isComplete (c : Coverage) : Bool := c.uncovered.isEmpty

end Coverage

/-- The first call for a key. -/
def firstMark (key : List Char) (marks : List (List Char × Bool)) : Option Bool :=
  marks.findSome? fun m =>
    if coverageKey t rd (decodedLower t) m.1 = .ok (some key) then some m.2 else none

/-- A status after the first call for its key: only one that waits is changed. -/
def settled : Option CoverageStatus → Option Bool → Option CoverageStatus
  | some .pending, some ok => some (.ofMark ok)
  | s, _ => s

variable {t rd}

theorem firstMark_cons (key : List Char) (m : List Char × Bool) (marks : List (List Char × Bool)) :
    firstMark t rd key (m :: marks) =
      if coverageKey t rd (decodedLower t) m.1 = .ok (some key) then some m.2
      else firstMark t rd key marks := by
  by_cases h : coverageKey t rd (decodedLower t) m.1 = .ok (some key)
  · simp [firstMark, h]
  · simp [firstMark, h]

theorem firstMark_eq_none {key : List Char} {marks : List (List Char × Bool)} :
    firstMark t rd key marks = none ↔
      ∀ m ∈ marks, coverageKey t rd (decodedLower t) m.1 ≠ .ok (some key) := by
  induction marks with
  | nil => simp [firstMark]
  | cons m marks ih =>
    rw [firstMark_cons, List.forall_mem_cons, ← ih]
    split <;> simp_all

@[simp] theorem settled_none (s : Option CoverageStatus) : settled s none = s := by
  cases s with
  | none => rfl
  | some s => cases s <;> rfl

theorem settled_of_covered {s : Option CoverageStatus} (hs : s ≠ some .pending)
    (first : Option Bool) : settled s first = s := by
  unfold settled
  split
  · contradiction
  · rfl

theorem settled_pending_eq_iff {first : Option Bool} :
    settled (some .pending) first = some .pending ↔ first = none := by
  cases first with
  | none => simp
  | some ok => cases ok <;> simp [settled, CoverageStatus.ofMark]

theorem settled_twice (s : Option CoverageStatus) (ok : Bool) (first : Option Bool) :
    settled (settled s (some ok)) first = settled s (some ok) := by
  refine settled_of_covered ?_ first
  unfold settled
  split
  · cases ok <;> simp_all [CoverageStatus.ofMark]
  · rename_i hne
    exact fun heq => hne ok heq rfl

namespace Coverage

variable {c : Coverage} {key : List Char}

@[simp] theorem setStatus_tracker (s : CoverageStatus) :
    (c.setStatus key s).tracker = c.tracker := rfl

theorem lookup_setStatus {s : CoverageStatus} {k : List Char} :
    (c.setStatus key s).status.lookup k =
      if k = key then (c.status.lookup k).map fun _ => s else c.status.lookup k := by
  unfold setStatus
  dsimp only
  induction c.status with
  | nil => simp
  | cons e rest ih =>
    have hfst : (if e.1 = key then (e.1, s) else e).1 = e.1 := by split <;> rfl
    rw [List.map_cons, List.lookup_cons, List.lookup_cons, hfst]
    by_cases hk : k = e.1
    · simp only [hk, beq_self_eq_true]
      split <;> simp_all
    · simp only [beq_eq_false_iff_ne.mpr hk, ih]

/-- One call. -/
theorem mark_spec (url : List Char) (ok : Bool) :
    ((c.mark t rd url ok).toOption.getD c).tracker = c.tracker ∧
      ∀ k, ((c.mark t rd url ok).toOption.getD c).status.lookup k =
        if coverageKey t rd (decodedLower t) url = .ok (some k) then
          settled (c.status.lookup k) (some ok) else c.status.lookup k := by
  unfold mark
  cases hkey : coverageKey t rd (decodedLower t) url with
  | error e => simp [Except.toOption]
  | ok o =>
    cases o with
    | none => simp [Except.toOption]
    | some key =>
      dsimp only [ok_bind]
      by_cases hwait : c.status.lookup key = some .pending
      · rw [if_neg (not_not.mpr hwait)]
        refine ⟨rfl, fun k => ?_⟩
        show (c.setStatus key (.ofMark ok)).status.lookup k = _
        rw [lookup_setStatus]
        by_cases hk : k = key
        · simp [hk, hwait, settled]
        · simp [hk, Ne.symm hk]
      · rw [if_pos hwait]
        refine ⟨rfl, fun k => ?_⟩
        show c.status.lookup k = _
        by_cases hk : k = key
        · subst hk
          rw [if_pos rfl, settled_of_covered hwait]
        · simp [Ne.symm hk]

@[simp] theorem markAll_nil : c.markAll t rd [] = c := rfl

theorem markAll_cons (m : List Char × Bool) (marks : List (List Char × Bool)) :
    c.markAll t rd (m :: marks) =
      ((c.mark t rd m.1 m.2).toOption.getD c).markAll t rd marks := rfl

/-- All calls of a session: the status of a key is decided by the first call for it. -/
theorem markAll_spec (marks : List (List Char × Bool)) :
    (c.markAll t rd marks).tracker = c.tracker ∧
      ∀ k, (c.markAll t rd marks).status.lookup k =
        settled (c.status.lookup k) (firstMark t rd k marks) := by
  induction marks generalizing c with
  | nil =>
    exact ⟨rfl, fun k => (settled_none _).symm⟩
  | cons m marks ih =>
    obtain ⟨htracker, hstatus⟩ := @mark_spec t rd c m.1 m.2
    obtain ⟨htracker', hstatus'⟩ := ih (c := (c.mark t rd m.1 m.2).toOption.getD c)
    refine ⟨?_, fun k => ?_⟩
    · rw [markAll_cons, htracker', htracker]
    · rw [markAll_cons, hstatus', hstatus, firstMark_cons]
      split
      · exact settled_twice _ _ _
      · rfl

theorem covered_stays {s : CoverageStatus} (hs : s ≠ .pending) (h : c.status.lookup key = some s)
    (marks : List (List Char × Bool)) : (c.markAll t rd marks).status.lookup key = some s := by
  rw [(markAll_spec marks).2, h]
  exact settled_of_covered (fun heq => hs (Option.some.inj heq)) _

theorem uncoveredFrom_eq_nil {seen : List (List Char)} {named : List (List Char × List Char)} :
    c.uncoveredFrom seen named = [] ↔
      ∀ e ∈ named, c.status.lookup e.1 = some .pending → e.1 ∈ seen := by
  induction named generalizing seen with
  | nil => simp [uncoveredFrom]
  | cons e named ih =>
    rw [uncoveredFrom]
    split
    · rename_i h
      simp only [List.mem_cons, forall_eq_or_imp, reduceCtorEq, false_iff]
      exact fun hall => h.2 (List.contains_iff_mem.mpr (hall.1 h.1))
    · rename_i h
      rw [ih]
      simp only [List.mem_cons, forall_eq_or_imp, not_and, not_not, List.contains_iff_mem] at h ⊢
      exact ⟨fun hall => ⟨h, hall⟩, fun hall => hall.2⟩

theorem isComplete_iff : c.isComplete ↔
    ∀ e ∈ c.tracker.namedKeys, c.status.lookup e.1 ≠ some .pending := by
  rw [isComplete, List.isEmpty_iff, uncovered, uncoveredFrom_eq_nil]
  simp

end Coverage

/-! ## The tracker of a list of named sources -/

theorem track_spec {tracker tracker' : SourceCoverageTracker} {url : List Char}
    (h : track t rd (decodedLower t) tracker url = .ok tracker') :
    (∀ e, e ∈ tracker'.namedKeys ↔ e ∈ tracker.namedKeys ∨
      e.2 = url ∧ coverageKey t rd (decodedLower t) url = .ok (some e.1)) ∧
    ∀ k, k ∈ tracker'.pending ↔ k ∈ tracker.pending ∨
      coverageKey t rd (decodedLower t) url = .ok (some k) := by
  obtain ⟨o, ho, h⟩ := bind_eq_ok.mp h
  rw [ho]
  cases o with
  | none =>
    obtain rfl := Except.ok.inj h
    simp
  | some key =>
    obtain rfl := Except.ok.inj h
    refine ⟨fun e => ?_, fun k => ?_⟩
    · simp [Prod.ext_iff, and_comm, eq_comm]
    · simp only [Except.ok.injEq, Option.some.injEq, List.contains_eq_mem, decide_eq_true_eq]
      split
      · rename_i hin
        exact ⟨.inl, fun hk => hk.elim id fun heq => heq ▸ hin⟩
      · simp [eq_comm]

theorem foldlM_track_spec {named : List (List Char)} {tracker tracker' : SourceCoverageTracker}
    (h : named.foldlM (track t rd (decodedLower t)) tracker = .ok tracker') :
    (∀ e, e ∈ tracker'.namedKeys ↔ e ∈ tracker.namedKeys ∨
      e.2 ∈ named ∧ coverageKey t rd (decodedLower t) e.2 = .ok (some e.1)) ∧
    ∀ k, k ∈ tracker'.pending ↔ k ∈ tracker.pending ∨
      ∃ url ∈ named, coverageKey t rd (decodedLower t) url = .ok (some k) := by
  induction named generalizing tracker with
  | nil =>
    obtain rfl := Except.ok.inj h
    simp
  | cons url named ih =>
    rw [List.foldlM_cons] at h
    obtain ⟨mid, hmid, h⟩ := bind_eq_ok.mp h
    obtain ⟨hkeys, hpending⟩ := track_spec hmid
    obtain ⟨hkeys', hpending'⟩ := ih h
    refine ⟨fun e => ?_, fun k => ?_⟩
    · rw [hkeys', hkeys, List.mem_cons, or_assoc]
      refine or_congr_right ⟨?_, ?_⟩
      · rintro (⟨heq, hkey⟩ | ⟨hin, hkey⟩)
        · exact ⟨.inl heq, heq ▸ hkey⟩
        · exact ⟨.inr hin, hkey⟩
      · rintro ⟨heq | hin, hkey⟩
        · exact .inl ⟨heq, heq ▸ hkey⟩
        · exact .inr ⟨hin, hkey⟩
    · rw [hpending', hpending, or_assoc]
      simp

theorem lookup_pendingAll {keys : List (List Char)} {k : List Char} :
    (keys.map fun key => (key, CoverageStatus.pending)).lookup k =
      if k ∈ keys then some .pending else none := by
  induction keys with
  | nil => rfl
  | cons key keys ih =>
    rw [List.map_cons, List.lookup_cons, ih]
    by_cases hk : k = key
    · simp [hk]
    · simp [hk, beq_eq_false_iff_ne.mpr hk]

/-- The tracker is complete once each named source that has a key saw a call for it. -/
theorem markAll_isComplete_iff {named : List (List Char)} {c : Coverage}
    (h : Coverage.ofNamed t rd named = .ok c) (marks : List (List Char × Bool)) :
    (c.markAll t rd marks).isComplete ↔
      ∀ url ∈ named, ∀ key, coverageKey t rd (decodedLower t) url = .ok (some key) →
        ∃ m ∈ marks, coverageKey t rd (decodedLower t) m.1 = .ok (some key) := by
  obtain ⟨tracker, htracker, h⟩ := bind_eq_ok.mp h
  obtain rfl := Except.ok.inj h
  obtain ⟨hkeys, hpending⟩ := foldlM_track_spec htracker
  obtain ⟨hsame, hstatus⟩ := @Coverage.markAll_spec t rd
    ⟨tracker, tracker.pending.map fun key => (key, .pending)⟩ marks
  have hcovered : ∀ k ∈ tracker.pending,
      (settled (some .pending) (firstMark t rd k marks) ≠ some .pending ↔
        ∃ m ∈ marks, coverageKey t rd (decodedLower t) m.1 = .ok (some k)) := by
    intro k _
    rw [Ne, settled_pending_eq_iff, firstMark_eq_none]
    push Not
    rfl
  rw [Coverage.isComplete_iff, hsame]
  constructor
  · intro hall url hurl key hkey
    have hin : key ∈ tracker.pending := (hpending key).mpr (.inr ⟨url, hurl, hkey⟩)
    have hne := hall (key, url) ((hkeys _).mpr (.inr ⟨hurl, hkey⟩))
    rw [hstatus, lookup_pendingAll, if_pos hin] at hne
    exact (hcovered key hin).mp hne
  · intro hall e he
    obtain hnil | ⟨hurl, hkey⟩ := (hkeys e).mp he
    · cases hnil
    have hin : e.1 ∈ tracker.pending := (hpending e.1).mpr (.inr ⟨e.2, hurl, hkey⟩)
    rw [hstatus, lookup_pendingAll, if_pos hin]
    exact (hcovered e.1 hin).mpr (hall e.2 hurl e.1 hkey)

/-- Each named source that has a page saw a call for a page that matches its own. -/
def RequestedUpTo (t : UrlTables) (rd : TextReader) (same : Page → Page → Prop)
    (named : List (List Char)) (marks : List (List Char × Bool)) : Prop :=
  ∀ url ∈ named, ∀ page, pageOf t rd url = .ok (some page) →
    ∃ m ∈ marks, ∃ page', pageOf t rd m.1 = .ok (some page') ∧ same page page'

theorem RequestedUpTo.mono {same same' : Page → Page → Prop} {named : List (List Char)}
    {marks : List (List Char × Bool)} (h : RequestedUpTo t rd same named marks)
    (hsame : ∀ a b, same a b → same' a b) : RequestedUpTo t rd same' named marks := by
  intro url hurl page hpage
  obtain ⟨m, hm, page', hpage', hmatch⟩ := h url hurl page hpage
  exact ⟨m, hm, page', hpage', hsame page page' hmatch⟩

/-- A complete tracker saw its named sources, each up to a confusion. -/
theorem markAll_isComplete_iff_requested (hslash : ∀ s, t.lower ('/' :: s) = '/' :: t.lower s)
    {named : List (List Char)} {c : Coverage} (h : Coverage.ofNamed t rd named = .ok c)
    (marks : List (List Char × Bool)) :
    (c.markAll t rd marks).isComplete ↔
      RequestedUpTo t rd (fun a b => a = b ∨ a.Confusable b) named marks := by
  rw [markAll_isComplete_iff h]
  constructor
  · intro hall url hurl page hpage
    obtain ⟨m, hm, hkey⟩ := hall url hurl page.key (coverageKey_eq_some.mpr ⟨page, hpage, rfl⟩)
    obtain ⟨page', hpage', heq⟩ := coverageKey_eq_some.mp hkey
    exact ⟨m, hm, page', hpage', (Page.key_eq_iff (pageOf_separated hslash hpage)
      (pageOf_separated hslash hpage')).mp heq.symm⟩
  · intro hall url hurl key hkey
    obtain ⟨page, hpage, rfl⟩ := coverageKey_eq_some.mp hkey
    obtain ⟨m, hm, page', hpage', hmatch⟩ := hall url hurl page hpage
    have heq := (Page.key_eq_iff (pageOf_separated hslash hpage)
      (pageOf_separated hslash hpage')).mpr hmatch
    exact ⟨m, hm, coverageKey_eq_some.mpr ⟨page', hpage', heq.symm⟩⟩

end Tracker

/-! ## When a named source is covered by its own page -/

section Claim

variable {t : UrlTables} {rd : TextReader}

/-- **Keys and pages.** Two keys are equal exactly when the pages are, unless the pages are
one text cut at different question marks. A tracker is complete exactly when each named
source was requested, unless one was requested only by such a confusion. No call changes a
status that was decided. -/
theorem covered_by_own_page_iff (hslash : ∀ s, t.lower ('/' :: s) = '/' :: t.lower s) :
    (∀ url url' key key', coverageKey t rd (decodedLower t) url = .ok (some key) →
      coverageKey t rd (decodedLower t) url' = .ok (some key') →
      ∃ page page', pageOf t rd url = .ok (some page) ∧ pageOf t rd url' = .ok (some page') ∧
        ((key = key' ↔ page = page') ↔ ¬ page.Confusable page')) ∧
    (∀ named c marks, Coverage.ofNamed t rd named = .ok c →
      (((c.markAll t rd marks).isComplete ↔ RequestedUpTo t rd (· = ·) named marks) ↔
        (RequestedUpTo t rd (fun a b => a = b ∨ a.Confusable b) named marks →
          RequestedUpTo t rd (· = ·) named marks))) ∧
    ∀ (c : Coverage) marks key s, s ≠ CoverageStatus.pending → c.status.lookup key = some s →
      (c.markAll t rd marks).status.lookup key = some s := by
  refine ⟨?_, ?_, fun c marks key s hs h => Coverage.covered_stays hs h marks⟩
  · intro url url' key key' hkey hkey'
    obtain ⟨page, hpage, rfl⟩ := coverageKey_eq_some.mp hkey
    obtain ⟨page', hpage', rfl⟩ := coverageKey_eq_some.mp hkey'
    refine ⟨page, page', hpage, hpage', ?_⟩
    rw [Page.key_eq_iff (pageOf_separated hslash hpage) (pageOf_separated hslash hpage')]
    constructor
    · intro hiff hconf
      exact hconf.ne (hiff.mp (.inr hconf))
    · intro hconf
      exact ⟨fun h => h.resolve_right hconf, .inl⟩
  · intro named c marks h
    rw [markAll_isComplete_iff_requested hslash h]
    constructor
    · exact fun hiff => hiff.mp
    · exact fun himp => ⟨himp, fun hreq => hreq.mono fun _ _ heq => .inl heq⟩

end Claim

/-! ## A page taken for another -/

/-- The page of a normalized address whose host is a number. -/
theorem pageOf_digits {t : UrlTables} {rd : TextReader} {url host : List Char}
    {parts : SplitResult} (hstrip : strip url = url) (hn : normalizeUri t url = .ok url)
    (hparts : t.urlsplit url = .ok parts) (hscheme : t.lower parts.scheme = "http".toList)
    (hhost : parts.hostname t = some host) (hne : host ≠ [])
    (hdigits : host.filter (· ≠ '.') ≠ [] ∧ (host.filter (· ≠ '.')).all rd.isDigit) :
    pageOf t rd url = .ok (some
      { domain := host
        path := (decodedLower t parts.path).rdropWhile (· = '/')
        query := if parts.query = [] then [] else decodedLower t parts.query }) := by
  have hdomain : registrableDomainOf t rd url = .ok (some (String.ofList host)) := by
    have hname : String.ofList host ≠ "" := by
      intro heq
      exact hne (by simpa using congrArg String.toList heq)
    unfold registrableDomainOf
    rw [hn, ok_bind, hparts, ok_bind, hhost]
    refine congrArg Except.ok ?_
    unfold registrableDomain
    dsimp only [Option.map_some]
    rw [if_neg hname, String.toList_ofList, if_pos (.inl hdigits)]
  have hhttp : ¬ ((t.lower parts.scheme ≠ "http".toList ∧ t.lower parts.scheme ≠ "https".toList) ∨
      parts.hostname t = none) := by
    rw [hscheme, hhost]
    simp
  unfold pageOf
  rw [hstrip, hparts, ok_bind]
  dsimp only
  rw [if_neg hhttp, hdomain, ok_bind]
  dsimp only
  rw [String.toList_ofList]
  rfl

/-- A page whose decoded path holds a question mark. -/
def markedUrl : List Char := "http://10.0.0.1/x%3Fy".toList

/-- Another page, with a query. -/
def queriedUrl : List Char := "http://10.0.0.1/x?y".toList

theorem pageOf_markedUrl : pageOf asciiTables plainReaders.text markedUrl =
    .ok (some ⟨"10.0.0.1".toList, "/x?y".toList, []⟩) := by
  have hparts : asciiTables.urlsplit markedUrl =
      .ok ⟨"http".toList, "10.0.0.1".toList, "/x%3Fy".toList, [], []⟩ := by decide
  have hpath : (decodedLower asciiTables "/x%3Fy".toList).rdropWhile (· = '/') =
      "/x?y".toList := by decide +kernel
  rw [@pageOf_digits _ _ _ "10.0.0.1".toList _ (by decide) (by decide) hparts
    (by decide +kernel) (by decide +kernel) (by decide +kernel) (by decide +kernel)]
  dsimp only
  rw [hpath, if_pos rfl]

theorem pageOf_queriedUrl : pageOf asciiTables plainReaders.text queriedUrl =
    .ok (some ⟨"10.0.0.1".toList, "/x".toList, "y".toList⟩) := by
  have hparts : asciiTables.urlsplit queriedUrl =
      .ok ⟨"http".toList, "10.0.0.1".toList, "/x".toList, "y".toList, []⟩ := by decide
  have hpath : (decodedLower asciiTables "/x".toList).rdropWhile (· = '/') = "/x".toList := by
    decide
  have hquery : decodedLower asciiTables "y".toList = "y".toList := by decide
  rw [@pageOf_digits _ _ _ "10.0.0.1".toList _ (by decide) (by decide) hparts
    (by decide) (by decide) (by decide) (by decide)]
  dsimp only
  rw [hpath, hquery, if_neg (by decide)]

/-- The tracker of a question that names the first page. -/
def markedCoverage : Coverage :=
  ⟨⟨[markedUrl], [("10.0.0.1/x?y".toList, markedUrl)], [], ["10.0.0.1/x?y".toList]⟩,
    [("10.0.0.1/x?y".toList, .pending)]⟩

theorem markedUrl_key : coverageKey asciiTables plainReaders.text (decodedLower asciiTables)
    markedUrl = .ok (some "10.0.0.1/x?y".toList) :=
  coverageKey_eq_some.mpr ⟨_, pageOf_markedUrl, by decide⟩

theorem queriedUrl_key : coverageKey asciiTables plainReaders.text (decodedLower asciiTables)
    queriedUrl = .ok (some "10.0.0.1/x?y".toList) :=
  coverageKey_eq_some.mpr ⟨_, pageOf_queriedUrl, by decide⟩

theorem ofNamed_markedUrl :
    Coverage.ofNamed asciiTables plainReaders.text [markedUrl] = .ok markedCoverage := by
  simp [Coverage.ofNamed, sourceCoverage, track, markedUrl_key, markedCoverage]

/-- A failed fetch of the page itself. -/
theorem markedUrl_own_page :
    ((markedCoverage.markAll asciiTables plainReaders.text [(markedUrl, false)]).isComplete ↔
      RequestedUpTo asciiTables plainReaders.text (· = ·) [markedUrl] [(markedUrl, false)]) ↔
    (RequestedUpTo asciiTables plainReaders.text (fun a b => a = b ∨ a.Confusable b) [markedUrl]
        [(markedUrl, false)] →
      RequestedUpTo asciiTables plainReaders.text (· = ·) [markedUrl] [(markedUrl, false)]) :=
  (covered_by_own_page_iff fun _ => rfl).2.1 [markedUrl] markedCoverage [(markedUrl, false)]
    ofNamed_markedUrl

/-- A fetch of the page with a query completes the tracker of the other. -/
theorem queriedUrl_covers_markedUrl :
    (¬ ∀ (t : UrlTables) (rd : TextReader), (∀ s, t.lower ('/' :: s) = '/' :: t.lower s) →
      ∀ url url' key key' page page',
        coverageKey t rd (decodedLower t) url = .ok (some key) →
        coverageKey t rd (decodedLower t) url' = .ok (some key') →
        pageOf t rd url = .ok (some page) → pageOf t rd url' = .ok (some page') →
        (key = key' ↔ page = page')) ∧
    (markedCoverage.markAll asciiTables plainReaders.text [(queriedUrl, true)]).isComplete ∧
    ¬ RequestedUpTo asciiTables plainReaders.text (· = ·) [markedUrl] [(queriedUrl, true)] := by
  refine ⟨fun hall => ?_, ?_, fun hreq => ?_⟩
  · have h := (hall asciiTables plainReaders.text (fun _ => rfl) _ _ _ _ _ _ markedUrl_key
      queriedUrl_key pageOf_markedUrl pageOf_queriedUrl).mp rfl
    revert h
    decide
  · rw [markAll_isComplete_iff ofNamed_markedUrl]
    intro url hurl key hkey
    rw [List.mem_singleton.mp hurl, markedUrl_key] at hkey
    rw [← Option.some.inj (Except.ok.inj hkey)]
    exact ⟨_, List.mem_singleton_self _, queriedUrl_key⟩
  · obtain ⟨m, hm, page', hpage', heq⟩ := hreq _ (List.mem_singleton_self _) _ pageOf_markedUrl
    rw [List.mem_singleton.mp hm, pageOf_queriedUrl] at hpage'
    rw [← heq] at hpage'
    revert hpage'
    decide

end Noezema.Cognition
