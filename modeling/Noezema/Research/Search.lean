import Noezema.Lib.LoggedWindow
import Noezema.Lib.Run
import Noezema.Research.SsrfGuard

/-! # Searches upstream

The `research_proxy` section selects the mode of the proxy. Only `curated` asks an upstream
engine, under a limit that counts the journal of upstream requests. A request is journaled when
it ends, so searches of one node that overlap do not count each other.

Instants are microseconds. The clock of a reading is `now()` of its transaction, which may lie
behind the instant of the reading.
-/

namespace Noezema.Research

open Noezema.Lib

/-! ## The modes -/

inductive ResearchMode where
  | sealed
  | curated
  | openLab
deriving DecidableEq, Repr

/-- A value of the section; an item of a list is `none` where it is no string. -/
inductive SectionValue where
  | null
  | bool (b : Bool)
  | int (n : Int)
  | str (s : Text)
  | list (items : List (Option Text))
  | other
deriving DecidableEq, Repr

/-- `ModeError`; the last one is the `ValueError` of splitting an address, which is none. -/
inductive ModeError where
  | notMapping
  | unknownMode (raw : SectionValue)
  | notPositive (key : String)
  | windowTooLong
  | searxngType
  | searxng (e : SsrfError)
  | allowedDomains
  | curatedNeedsSearxng
  | openLabNeedsDomains
  | url (e : UrlError)

/-- What each mode lets out: an allowlist is never empty. -/
inductive ModeEgress where
  | sealed
  | curated (searxngUrl searxngHost : Text)
  | openLab (domain : Text) (more : List Text)
deriving DecidableEq, Repr

/-- `ModePolicy`, with what `from_section` checks. -/
structure ModePolicy where
  lets : ModeEgress
  rateLimitMax : Nat
  rateLimitWindowSeconds : Nat
  max_pos : 1 ≤ rateLimitMax
  window_pos : 1 ≤ rateLimitWindowSeconds
  window_le : rateLimitWindowSeconds ≤ 86400

namespace ModePolicy

def mode (p : ModePolicy) : ResearchMode :=
  match p.lets with
  | .sealed => .sealed
  | .curated _ _ => .curated
  | .openLab _ _ => .openLab

def egress (p : ModePolicy) : Bool := p.mode ≠ .sealed

def allowedDomains (p : ModePolicy) : List Text :=
  match p.lets with
  | .openLab domain more => domain :: more
  | .sealed | .curated _ _ => []

/-- `domain_allowed`. -/
def domainAllowed (p : ModePolicy) (host : Text) : Bool :=
  p.allowedDomains.any fun domain => host = domain || ('.' :: domain).isSuffixOf host

end ModePolicy

/-- `ResearchMode(mode_raw)`. -/
def researchMode : SectionValue → Except ModeError ResearchMode
  | .str s =>
    if s = "sealed".toList then .ok .sealed
    else if s = "curated".toList then .ok .curated
    else if s = "open_lab".toList then .ok .openLab
    else .error (.unknownMode (.str s))
  | raw => .error (.unknownMode raw)

/-- `_positive_int`. -/
def positiveInt (key : String) (value : SectionValue) : Except ModeError {n : Nat // 1 ≤ n} :=
  match value with
  | .int n => if h : 1 ≤ n.toNat then .ok ⟨n.toNat, h⟩ else .error (.notPositive key)
  | _ => .error (.notPositive key)

/-- The window, after its upper bound. -/
def windowOf (value : SectionValue) : Except ModeError {n : Nat // 1 ≤ n ∧ n ≤ 86400} :=
  match positiveInt "rate_limit_window_seconds" value with
  | .ok n => if h : n.1 ≤ 86400 then .ok ⟨n.1, n.2, h⟩ else .error .windowTooLong
  | .error e => .error e

/-- The address of the engine and its host. -/
def searxngOf (t : UrlTables) : SectionValue → Except ModeError (Option (Text × Text))
  | .null => .ok none
  | .str url =>
    match validateUrl t url with
    | .ok target => .ok (some (url, target.1))
    | .error (.ssrf e) => .error (.searxng e)
    | .error (.url e) => .error (.url e)
  | _ => .error .searxngType

def domainsOf : SectionValue → Except ModeError (List Text)
  | .list items =>
    if items.all fun item => item.any (· ≠ []) then .ok (items.filterMap id)
    else .error .allowedDomains
  | _ => .error .allowedDomains

/-- What the mode needs of the options; the leftovers of another mode are ignored. -/
def letsOf (mode : ResearchMode) (searxng : Option (Text × Text)) (domains : List Text) :
    Except ModeError ModeEgress :=
  match mode with
  | .sealed => .ok .sealed
  | .curated =>
    match searxng with
    | some (url, host) => .ok (.curated url host)
    | none => .error .curatedNeedsSearxng
  | .openLab =>
    match domains with
    | domain :: more => .ok (.openLab domain more)
    | [] => .error .openLabNeedsDomains

/-- `from_section`; `none` is a section that is no mapping. -/
def ModePolicy.fromSection (t : UrlTables) (raw : Option (String → Option SectionValue)) :
    Except ModeError ModePolicy := do
  match raw with
  | none => throw .notMapping
  | some options =>
    let mode ← researchMode ((options "mode").getD (.str "sealed".toList))
    let max ← positiveInt "rate_limit_max" ((options "rate_limit_max").getD (.int 20))
    let window ← windowOf ((options "rate_limit_window_seconds").getD (.int 3600))
    let searxng ← searxngOf t ((options "searxng_url").getD .null)
    let domains ← domainsOf ((options "allowed_domains").getD (.list []))
    let lets ← letsOf mode searxng domains
    pure ⟨lets, max.1, window.1, max.2, window.2.1, window.2.2⟩

/-! ## The window of the journal -/

def micros (seconds : Nat) : Nat := seconds * 1000000

/-- `UpstreamWindow`. -/
structure UpstreamWindow where
  requests : Nat
  oldest : Option Nat
  now : Nat
  windowSeconds : Nat
deriving DecidableEq, Repr

/-- `upstream_window_state`, over the instants of the `research_upstream_request` rows. -/
def upstreamWindowState (rows : List Nat) (now windowSeconds : Nat) : UpstreamWindow :=
  let shown := rows.filter fun occurredAt => now < occurredAt + micros windowSeconds
  ⟨shown.length, shown.min?, now, windowSeconds⟩

/-- `minutes_until_release`. -/
def minutesUntilRelease (w : UpstreamWindow) : Option Nat :=
  w.oldest.map fun oldest => (oldest + micros w.windowSeconds - w.now + micros 60 - 1) / micros 60

/-! ## The searches of a node -/

/-- The upstream requests, newest first, and the searches the limit refused. -/
structure SearchNode where
  now : Nat
  requests : List LoggedEntry
  refusals : List (Nat × UpstreamWindow)
deriving DecidableEq, Repr

/-- The `research_upstream_request` rows. -/
def SearchNode.rows (w : SearchNode) : List Nat := loggedAt w.requests

inductive SearchEvent where
  | advance (now : Nat)
  /-- `search` up to the decision of `_search_upstream`. -/
  | search (policy : ModePolicy) (clock : Nat)
  /-- The engine meets a request. -/
  | send (id : Nat)
  /-- The request is journaled, as one that has failed or with its results. -/
  | journal (id occurredAt : Nat)
  /-- A process ends before it journals. -/
  | lose (id : Nat)

/-- The start of a search that asks the engine. -/
def SearchNode.askUpstream (w : SearchNode) (policy : ModePolicy) (clock : Nat) : SearchNode :=
  let window := upstreamWindowState w.rows clock policy.rateLimitWindowSeconds
  if policy.rateLimitMax ≤ window.requests then
    { w with refusals := (policy.rateLimitMax, window) :: w.refusals }
  else { w with requests := ⟨w.requests.length, clock, none, none, false⟩ :: w.requests }

def searchStep (w : SearchNode) : SearchEvent → Option SearchNode
  | .advance now => if w.now ≤ now then some { w with now } else none
  | .search policy clock =>
    if clock ≤ w.now then
      match policy.mode with
      | .curated => some (w.askUpstream policy clock)
      | .sealed | .openLab => some w
    else none
  | .send id =>
    some { w with
      requests := changeInFlight id (fun e => { e with sent := some (e.sent.getD w.now) })
        w.requests }
  | .journal id occurredAt =>
    if occurredAt ≤ w.now ∧
        (w.requests.all fun e => e.id ≠ id || e.sent.all (· ≤ occurredAt)) = true then
      some { w with
        requests := changeInFlight id (fun e => { e with logged := some occurredAt }) w.requests }
    else none
  | .lose id =>
    some { w with requests := changeInFlight id (fun e => { e with lost := true }) w.requests }

/-! ## The limit over any window -/

theorem requests_eq (es : List LoggedEntry) (now windowSeconds : Nat) :
    (upstreamWindowState (loggedAt es) now windowSeconds).requests =
      es.countP (LoggedEntry.counts (micros windowSeconds) now) := by
  rw [← countP_loggedAt, List.countP_eq_length_filter]
  rfl

structure SearchInv (limit windowSeconds flying : Nat) (w : SearchNode) : Prop where
  spaced : Spaced (micros windowSeconds) (limit + flying - 2) w.requests
  timed : ∀ e ∈ w.requests, e.Timed w.now

/-- Every search runs under such a limit and such a window, and when it starts fewer than
`flying` others are under way. -/
def Bounded (limit windowSeconds flying : Nat) (w : SearchNode) : SearchEvent → Prop
  | .search policy _ =>
    policy.rateLimitMax ≤ limit ∧ windowSeconds ≤ policy.rateLimitWindowSeconds ∧
      w.requests.countP LoggedEntry.inFlight < flying
  | _ => True

variable {limit windowSeconds flying : Nat} {w w' : SearchNode}

theorem SearchInv.askUpstream (h : SearchInv limit windowSeconds flying w) {policy : ModePolicy}
    {clock : Nat} (hclock : clock ≤ w.now) (hmax : policy.rateLimitMax ≤ limit)
    (hwindow : windowSeconds ≤ policy.rateLimitWindowSeconds)
    (hfly : w.requests.countP LoggedEntry.inFlight < flying) :
    SearchInv limit windowSeconds flying (w.askUpstream policy clock) := by
  simp only [SearchNode.askUpstream]
  split
  · exact ⟨h.spaced, h.timed⟩
  · rename_i hroom
    rw [SearchNode.rows, requests_eq, not_le] at hroom
    have hmicros : micros windowSeconds ≤ micros policy.rateLimitWindowSeconds :=
      Nat.mul_le_mul_right _ hwindow
    have hlog : w.requests.countP (LoggedEntry.counts (micros windowSeconds) clock) < limit := by
      have hmono : w.requests.countP (LoggedEntry.counts (micros windowSeconds) clock) ≤
          w.requests.countP
            (LoggedEntry.counts (micros policy.rateLimitWindowSeconds) clock) :=
        List.countP_mono_left fun e _ hc => LoggedEntry.counts_mono hmicros hc
      omega
    exact {
      spaced := h.spaced.admit hlog hfly
      timed := by
        intro e he
        rcases List.mem_cons.mp he with rfl | he
        · exact ⟨hclock, by simp, by simp⟩
        · exact h.timed e he }

theorem SearchInv.step {e : SearchEvent} (h : SearchInv limit windowSeconds flying w)
    (hb : Bounded limit windowSeconds flying w e) (hs : searchStep w e = some w') :
    SearchInv limit windowSeconds flying w' := by
  cases e with
  | advance now =>
    simp only [searchStep] at hs
    split at hs
    · rename_i hle
      cases hs
      exact ⟨h.spaced, fun e he => (h.timed e he).mono hle⟩
    · cases hs
  | search policy clock =>
    simp only [searchStep] at hs
    split at hs
    · rename_i hclock
      cases hmode : policy.mode with
      | curated =>
        rw [hmode] at hs
        cases hs
        exact h.askUpstream hclock hb.1 hb.2.1 hb.2.2
      | sealed =>
        rw [hmode] at hs
        cases hs
        exact h
      | openLab =>
        rw [hmode] at hs
        cases hs
        exact h
    · cases hs
  | send id =>
    cases hs
    refine ⟨h.spaced.changeInFlight fun _ => rfl, timed_changeInFlight ?_ h.timed⟩
    intro e he _ hfly ht
    have hlogged : e.logged = none :=
      Option.isNone_iff_eq_none.mp (Bool.and_eq_true_iff.mp hfly).1
    refine ⟨ht.checked, fun s hs => ?_, fun s l _ hl => by simp [hlogged] at hl⟩
    cases hsent : e.sent with
    | none =>
      obtain rfl : w.now = s := by simpa [hsent] using hs
      exact ⟨ht.checked, le_rfl⟩
    | some s' =>
      obtain rfl : s' = s := by simpa [hsent] using hs
      exact ht.sent s' hsent
  | journal id occurredAt =>
    simp only [searchStep] at hs
    split at hs
    · rename_i hat
      cases hs
      refine ⟨h.spaced.changeInFlight fun _ => rfl, timed_changeInFlight ?_ h.timed⟩
      intro e he hid _ ht
      refine ⟨ht.checked, ht.sent, fun s l hs hl => ?_⟩
      obtain rfl : occurredAt = l := by simpa using hl
      have hall := List.all_eq_true.mp hat.2 e he
      have hsent : e.sent = some s := hs
      simpa [hid, hsent] using hall
    · cases hs
  | lose id =>
    cases hs
    exact ⟨h.spaced.changeInFlight fun _ => rfl,
      timed_changeInFlight (fun e _ _ _ ht => ⟨ht.checked, ht.sent, ht.logged⟩) h.timed⟩

theorem one_le_limit : 1 ≤ 1 := le_rfl

theorem one_le_minute : 1 ≤ 60 := by decide

theorem minute_le_day : 60 ≤ 86400 := by decide

/-- One request a minute. -/
def oneAMinute : ModePolicy where
  lets := .curated "http://engine".toList "engine".toList
  rateLimitMax := 1
  rateLimitWindowSeconds := 60
  max_pos := one_le_limit
  window_pos := one_le_minute
  window_le := minute_le_day

theorem rows_step {e : SearchEvent} (hs : searchStep w e = some w') :
    w.rows.Sublist w'.rows := by
  cases e with
  | advance now =>
    simp only [searchStep] at hs
    split at hs
    · cases hs
      exact List.Sublist.refl _
    · cases hs
  | search policy clock =>
    simp only [searchStep] at hs
    split at hs
    · cases hmode : policy.mode with
      | curated =>
        rw [hmode] at hs
        cases hs
        simp only [SearchNode.askUpstream]
        split <;> exact List.Sublist.refl _
      | sealed =>
        rw [hmode] at hs
        cases hs
        exact List.Sublist.refl _
      | openLab =>
        rw [hmode] at hs
        cases hs
        exact List.Sublist.refl _
    · cases hs
  | send id =>
    cases hs
    exact loggedAt_changeInFlight id _ w.requests
  | journal id occurredAt =>
    simp only [searchStep] at hs
    split at hs
    · cases hs
      exact loggedAt_changeInFlight id _ w.requests
    · cases hs
  | lose id =>
    cases hs
    exact loggedAt_changeInFlight id _ w.requests

theorem rows_run (hrun : Run searchStep anyStep w w') : w.rows.Sublist w'.rows := by
  refine hrun.invariant (I := fun x => w.rows.Sublist x.rows) (List.Sublist.refl _) ?_
  intro a b e ha _ hs
  exact ha.trans (rows_step hs)

section Window

variable {rows rows' : List Nat} {now now' seconds oldest : Nat}

/-- The rows a window shows, with the oldest of them. -/
theorem oldest_mem (h : (upstreamWindowState rows now seconds).oldest = some oldest) :
    oldest ∈ rows ∧ now < oldest + micros seconds ∧
      ∀ r ∈ rows, now < r + micros seconds → oldest ≤ r := by
  obtain ⟨hmem, hleast⟩ := List.min?_eq_some_iff.mp h
  obtain ⟨hrow, hshown⟩ := List.mem_filter.mp hmem
  exact ⟨hrow, by simpa using hshown,
    fun r hr hr' => hleast r (List.mem_filter.mpr ⟨hr, by simpa using hr'⟩)⟩

theorem oldest_isSome (h : 0 < (upstreamWindowState rows now seconds).requests) :
    ∃ oldest, (upstreamWindowState rows now seconds).oldest = some oldest := by
  cases hmin : (upstreamWindowState rows now seconds).oldest with
  | some oldest => exact ⟨oldest, rfl⟩
  | none =>
    have hnil : rows.filter (fun r => now < r + micros seconds) = [] :=
      List.min?_eq_none_iff.mp hmin
    simp [upstreamWindowState, hnil] at h

/-- Until the oldest row leaves, a window of the same length shows every row it showed. -/
theorem requests_le_of_lt (h : (upstreamWindowState rows now seconds).oldest = some oldest)
    (hsub : rows.Sublist rows') (hlt : now' < oldest + micros seconds) :
    (upstreamWindowState rows now seconds).requests ≤
      (upstreamWindowState rows' now' seconds).requests := by
  obtain ⟨-, -, hleast⟩ := oldest_mem h
  show (rows.filter _).length ≤ (rows'.filter _).length
  rw [← List.countP_eq_length_filter, ← List.countP_eq_length_filter]
  refine le_trans (List.countP_mono_left fun r hr hshown => ?_) hsub.countP_le
  have hr' := hleast r hr (by simpa using hshown)
  simp only [decide_eq_true_eq]
  omega

/-- Once it has left, the window shows fewer, unless there are new ones. -/
theorem requests_lt_of_le (h : (upstreamWindowState rows now seconds).oldest = some oldest)
    (hle : oldest + micros seconds ≤ now') :
    (upstreamWindowState rows now' seconds).requests <
      (upstreamWindowState rows now seconds).requests := by
  obtain ⟨hmem, hshown, -⟩ := oldest_mem h
  show (rows.filter _).length < (rows.filter _).length
  have hsplit : (rows.filter fun r => now' < r + micros seconds) =
      (rows.filter fun r => now < r + micros seconds).filter
        fun r => now' < r + micros seconds := by
    rw [List.filter_filter]
    refine List.filter_congr fun r _ => ?_
    by_cases hr : now' < r + micros seconds
    · have : now < r + micros seconds := by omega
      simp [hr, this]
    · simp [hr]
  rw [hsplit]
  refine List.length_filter_lt_length_iff_exists.mpr ⟨oldest, ?_, ?_⟩
  · exact List.mem_filter.mpr ⟨hmem, by simpa using hshown⟩
  · simp only [decide_eq_true_eq]
    omega

/-- The minutes reach the release, and one minute less does not. -/
theorem minutesUntilRelease_spec
    (h : (upstreamWindowState rows now seconds).oldest = some oldest) :
    ∃ minutes, minutesUntilRelease (upstreamWindowState rows now seconds) = some minutes ∧
      oldest + micros seconds ≤ now + minutes * micros 60 ∧
      now + (minutes - 1) * micros 60 < oldest + micros seconds := by
  obtain ⟨-, hshown, -⟩ := oldest_mem h
  refine ⟨(oldest + micros seconds - now + micros 60 - 1) / micros 60, ?_, ?_⟩
  · rw [minutesUntilRelease, h]
    rfl
  · simp only [micros] at hshown ⊢
    omega

end Window

/-- **A refusal and its notice**: from a refusal on, in every run, every search under the same
limit is refused until the oldest request it counted leaves the window; the announced minutes
are the least that reach that instant, and if no request has been journaled since, the window
then shows fewer requests than the refusal counted. -/
theorem refused_until_release {policy : ModePolicy} {clock : Nat} (hclock : clock ≤ w.now)
    (hmode : policy.mode = .curated)
    (hfull : policy.rateLimitMax ≤
      (upstreamWindowState w.rows clock policy.rateLimitWindowSeconds).requests)
    (hrun : Run searchStep anyStep (w.askUpstream policy clock) w') :
    ∃ oldest minutes,
      (upstreamWindowState w.rows clock policy.rateLimitWindowSeconds).oldest = some oldest ∧
      minutesUntilRelease (upstreamWindowState w.rows clock policy.rateLimitWindowSeconds) =
        some minutes ∧
      oldest + micros policy.rateLimitWindowSeconds ≤ clock + minutes * micros 60 ∧
      clock + (minutes - 1) * micros 60 < oldest + micros policy.rateLimitWindowSeconds ∧
      (∀ clock' ≤ w'.now, clock' < oldest + micros policy.rateLimitWindowSeconds →
        ∃ w'', searchStep w' (.search policy clock') = some w'' ∧ w''.requests = w'.requests ∧
          w''.refusals.length = w'.refusals.length + 1) ∧
      (w'.rows = w.rows → ∀ clock', clock + minutes * micros 60 ≤ clock' →
        (upstreamWindowState w'.rows clock' policy.rateLimitWindowSeconds).requests <
          (upstreamWindowState w.rows clock policy.rateLimitWindowSeconds).requests) := by
  have hrows : w.rows.Sublist w'.rows := by
    have hask : searchStep w (.search policy clock) = some (w.askUpstream policy clock) := by
      simp only [searchStep, hmode, if_pos hclock]
    exact (rows_step hask).trans (rows_run hrun)
  obtain ⟨oldest, hold⟩ := oldest_isSome (policy.max_pos.trans hfull)
  obtain ⟨minutes, hminutes, hreach, hless⟩ := minutesUntilRelease_spec hold
  refine ⟨oldest, minutes, hold, hminutes, hreach, hless, ?_, ?_⟩
  · intro clock' hclock' hlt
    have hstill := hfull.trans (requests_le_of_lt hold hrows hlt)
    refine ⟨w'.askUpstream policy clock', by simp only [searchStep, hmode, if_pos hclock'],
      ?_, ?_⟩
    · simp only [SearchNode.askUpstream, if_pos hstill]
    · simp only [SearchNode.askUpstream, if_pos hstill]
      rfl
  · intro hsame clock' hle
    rw [hsame]
    exact requests_lt_of_le hold (hreach.trans hle)

/-- A node with one request in its journal. -/
def oneSearch : SearchNode := ⟨5, [⟨0, 1, some 2, some 3, false⟩], []⟩

/-- The request of instant 3 keeps the window of a minute full until instant 3 + 60 s. -/
theorem refused_until_release_full : ∃ minutes,
    minutesUntilRelease (upstreamWindowState oneSearch.rows 5 60) = some minutes ∧
      3 + micros 60 ≤ 5 + minutes * micros 60 ∧
      ∃ w', searchStep (oneSearch.askUpstream oneAMinute 5) (.search oneAMinute 4) = some w' ∧
        w'.refusals.length = 2 := by
  have hclock : 5 ≤ oneSearch.now := by decide
  have hfull : oneAMinute.rateLimitMax ≤
      (upstreamWindowState oneSearch.rows 5 oneAMinute.rateLimitWindowSeconds).requests := by
    decide
  obtain ⟨oldest, minutes, hold, hminutes, hreach, -, hrefused, -⟩ :=
    refused_until_release hclock rfl hfull Run.nil
  obtain rfl : 3 = oldest := Option.some_inj.mp hold
  obtain ⟨w', hw', -, hlen⟩ := hrefused 4 (by decide) (by decide)
  exact ⟨minutes, hminutes, hreach, w', hw', hlen⟩

end Noezema.Research
