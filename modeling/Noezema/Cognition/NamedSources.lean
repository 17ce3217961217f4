import Noezema.Lib.Entries
import Noezema.Commit.Session
import Noezema.Memory.Domains
import Noezema.Memory.HostScope
import Noezema.Memory.Lineage

/-! # The sources a question names

The host scans the text of a question for addresses, derives from each a registrable domain
and a coverage key, and from all of them the scope of the claims. Phase 1 of a session does
so in its transaction, unguarded: an address that cannot be split rolls the session back, and
the question stays a candidate.
-/

namespace Noezema.Cognition

open Noezema.Lib Noezema.Lib.SplitResult Noezema.Memory Noezema.Commit

/-! ## The scanner -/

/-- A letter of the scheme with `re.IGNORECASE`; the long `s` matches `s`. -/
def matchesLetter (l c : Char) : Bool := c = l ∨ c = l.toUpper ∨ (l = 's' ∧ c = 'ſ')

/-- `_URL_START_RE` at the beginning of a text: the length of the match. -/
def urlStart? : List Char → Option Nat
  | h :: t₁ :: t₂ :: p :: rest =>
    if matchesLetter 'h' h ∧ matchesLetter 't' t₁ ∧ matchesLetter 't' t₂ ∧
        matchesLetter 'p' p then
      match rest with
      | ':' :: '/' :: '/' :: _ => some 7
      | s :: ':' :: '/' :: '/' :: _ => if matchesLetter 's' s then some 8 else none
      | _ => none
    else none
  | _ => none

/-- `_URL_STOP_CHARS`. -/
def urlStopChars : List Char := ['"', '\'', '<', '>', ']']

/-- `_scan_url_token`: a closing parenthesis belongs to the address while it closes one of
the address. -/
def scanUrlToken : Nat → List Char → List Char
  | _, [] => []
  | depth, c :: rest =>
    if isSpace c ∨ c ∈ urlStopChars then []
    else if c = '(' then c :: scanUrlToken (depth + 1) rest
    else if c = ')' then
      match depth with
      | 0 => []
      | depth + 1 => c :: scanUrlToken depth rest
    else c :: scanUrlToken depth rest

/-- The address at the beginning of a text, its trailing punctuation on. -/
def urlAt? (text : List Char) : Option (List Char) :=
  (urlStart? text).bind fun n =>
    let token := scanUrlToken 0 (text.drop n)
    if token = [] then none else some (text.take n ++ token)

/-- `.rstrip(".,;:!?")`. -/
def stripPunctuation (url : List Char) : List Char :=
  url.rdropWhile (· ∈ ['.', ',', ';', ':', '!', '?'])

/-- The addresses of a text, the symbols of an address being skipped. -/
def urlsFrom : Nat → List Char → List (List Char)
  | _, [] => []
  | skip + 1, _ :: rest => urlsFrom skip rest
  | 0, c :: rest =>
    match urlAt? (c :: rest) with
    | some url => stripPunctuation url :: urlsFrom (url.length - 1) rest
    | none => urlsFrom 0 rest

/-- `extract_question_urls`. -/
def extractQuestionUrls (text : Text) : List (List Char) :=
  ((urlsFrom 0 text).filter (· ≠ [])).eraseDups

/-! ## What the host derives -/

/-- `SourceCoverageTracker`. -/
structure SourceCoverageTracker where
  named : List (List Char)
  namedKeys : List (List Char × List Char)
  untracked : List (List Char)
  /-- The keys that wait for a fetch. -/
  pending : List (List Char)

section Derivations

variable (t : UrlTables) (rd : TextReader)
  -- `unquote` and `str.lower` of a path or a query
  (decoded : List Char → List Char)

/-- `coverage_key`. -/
def coverageKey (url : List Char) : Except UrlError (Option (List Char)) := do
  let parts ← t.urlsplit (strip url)
  let scheme := t.lower parts.scheme
  if (scheme ≠ "http".toList ∧ scheme ≠ "https".toList) ∨ parts.hostname t = none then
    pure none
  else do
    match ← registrableDomainOf t rd url with
    | none => pure none
    | some domain =>
      let path := (decoded parts.path).rdropWhile (· = '/')
      let query := if parts.query = [] then [] else decoded parts.query
      pure (some (domain.toList ++ path ++ if query = [] then [] else '?' :: query))

/-- One named source of the tracker. -/
def track (tracker : SourceCoverageTracker) (url : List Char) :
    Except UrlError SourceCoverageTracker := do
  match ← coverageKey t rd decoded url with
  | none => pure { tracker with untracked := tracker.untracked ++ [url] }
  | some key => pure { tracker with
      namedKeys := tracker.namedKeys ++ [(key, url)]
      pending := if tracker.pending.contains key then tracker.pending else tracker.pending ++ [key] }

/-- `SourceCoverageTracker(named)`. -/
def sourceCoverage (named : List (List Char)) : Except UrlError SourceCoverageTracker :=
  named.foldlM (track t rd decoded) ⟨named, [], [], []⟩

/-- `source_domains` of `derive_claim_scope`. -/
def questionDomains (text : Text) : Except UrlError (List String) := do
  let domains ← (extractQuestionUrls text).mapM (registrableDomainOf t rd)
  pure (domains.filterMap fun d => d.filter (· ≠ "")).eraseDups

variable
  -- `parse_question_date` and `question_uses_relative_date`
  (questionDate : Text → Option Int) (usesRelativeDate : Text → Bool)
  -- `date.isoformat`
  (isoDay : Int → String)

/-- `derive_claim_scope` of a question. -/
def claimScopeOf (text : Text) (asOf sessionDate : Option Int) : Except UrlError Scope :=
  match h : questionDomains t rd text with
  | .error e => .error e
  | .ok domains => .ok (deriveClaimScope isoDay
      { day := questionDate text
        relative := usesRelativeDate text
        domains := domains
        named := by
          obtain ⟨ds, -, hds⟩ := bind_eq_ok.mp h
          obtain rfl := Except.ok.inj hds
          intro d hd
          obtain ⟨o, -, ho⟩ := List.mem_filterMap.mp (List.mem_eraseDups.mp hd)
          simpa using (Option.filter_eq_some_iff.mp ho).2
        distinct := by
          obtain ⟨ds, -, hds⟩ := bind_eq_ok.mp h
          obtain rfl := Except.ok.inj hds
          exact nodup_eraseDups _ } asOf sessionDate)

/-! ## Phase 1 -/

/-- A row of `questions`. -/
structure Question where
  id : Nat
  text : Text
  state : QuestionState
  priority : Int
  createdAt : Nat
deriving DecidableEq

abbrev QuestionDb := List Question

def setState (db : QuestionDb) (id : Nat) (state : QuestionState) : QuestionDb :=
  db.map fun q => if q.id = id then { q with state := state } else q

/-- Why phase 1 is rolled back: at the named sources, or later. -/
inductive PhaseFailure where
  | url (error : UrlError)
  | later
deriving DecidableEq

/-- What selects a question; the repetition guard may have deferred others. -/
abbrev Selector := QuestionDb → Option (Question × QuestionDb)

/-- Phase 1 behind the selection. -/
abbrev Phase := Question → Option SourceCoverageTracker → QuestionDb →
  Except PhaseFailure QuestionDb

variable (select : Selector) (rest : Phase)

/-- `_run_to_committing`. -/
def runToCommitting (db : QuestionDb) : Except PhaseFailure QuestionDb :=
  match select db with
  | none => .ok db
  | some (q, db) =>
    let db := setState db q.id .researching
    let named := extractQuestionUrls q.text
    if named = [] then rest q none db
    else match sourceCoverage t rd decoded named with
      | .ok tracker => rest q (some tracker) db
      | .error e => .error (.url e)

/-- A session: phase 1 is one transaction. -/
def runSession (db : QuestionDb) : QuestionDb :=
  match runToCommitting t rd decoded select rest db with
  | .ok db' => db'
  | .error _ => db

end Derivations

/-! ## What the scanner can produce -/

/-- The letters of a match. -/
def schemeLetters : List Char := ['h', 'H', 't', 'T', 'p', 'P', 's', 'S', 'ſ']

theorem mem_schemeLetters {l c : Char} (hl : l ∈ ['h', 't', 'p', 's'])
    (h : matchesLetter l c) : c ∈ schemeLetters := by
  simp only [matchesLetter, decide_eq_true_eq] at h
  fin_cases hl
  all_goals
    rcases h with rfl | rfl | ⟨h, rfl⟩
    · decide
    · decide
    · revert h
      decide

/-- No letter of a match ends an address or is dropped from it. -/
theorem schemeLetter_plain {c : Char} (h : c ∈ schemeLetters) :
    c ≠ ':' ∧ c ≠ ']' ∧ isKept c ∧ isSpace c = false ∧ 32 < c.toNat := by
  fin_cases h <;> decide

theorem urlStart?_eq_some {text : List Char} {n : Nat} (h : urlStart? text = some n) :
    ∃ c word rest, text = (c :: word) ++ ':' :: '/' :: '/' :: rest ∧ n = (c :: word).length + 3 ∧
      ∀ x ∈ c :: word, x ∈ schemeLetters := by
  unfold urlStart? at h
  split at h
  · rename_i h' t₁ t₂ p rest
    split at h
    · rename_i hletters
      obtain ⟨hh, ht₁, ht₂, hp⟩ := hletters
      have hfour : ∀ x ∈ [h', t₁, t₂, p], x ∈ schemeLetters := by
        simp only [List.forall_mem_cons, List.not_mem_nil, false_implies, implies_true, and_true]
        exact ⟨mem_schemeLetters (by simp) hh, mem_schemeLetters (by simp) ht₁,
          mem_schemeLetters (by simp) ht₂, mem_schemeLetters (by simp) hp⟩
      split at h
      · cases h
        exact ⟨h', [t₁, t₂, p], _, rfl, rfl, hfour⟩
      · split at h
        · rename_i s _ hs
          cases h
          refine ⟨h', [t₁, t₂, p, s], _, rfl, rfl, ?_⟩
          intro x hx
          rcases List.mem_append.mp (show x ∈ [h', t₁, t₂, p] ++ [s] from hx) with hx | hx
          · exact hfour x hx
          · rw [List.mem_singleton.mp hx]
            exact mem_schemeLetters (by simp) hs
        · cases h
      · cases h
    · cases h
  · cases h

theorem mem_scanUrlToken {c : Char} : ∀ {text : List Char} {depth : Nat},
    c ∈ scanUrlToken depth text → isSpace c = false ∧ c ∉ urlStopChars
  | [], depth, h => by simp [scanUrlToken] at h
  | x :: rest, depth, h => by
    unfold scanUrlToken at h
    split at h
    · cases h
    · rename_i hplain
      have hx : isSpace x = false ∧ x ∉ urlStopChars := by simpa [not_or] using hplain
      split at h
      · rcases List.mem_cons.mp h with rfl | h
        · exact hx
        · exact mem_scanUrlToken h
      · split at h
        · cases depth with
          | zero => cases h
          | succ depth =>
            rcases List.mem_cons.mp h with rfl | h
            · exact hx
            · exact mem_scanUrlToken h
        · rcases List.mem_cons.mp h with rfl | h
          · exact hx
          · exact mem_scanUrlToken h

/-- An address of the scanner: a scheme, `://`, and a text without spaces and without a
closing bracket. -/
structure Scanned (url : List Char) : Prop where
  announced : ∃ c word rest, url = (c :: word) ++ ':' :: '/' :: '/' :: rest ∧
    ∀ x ∈ c :: word, x ∈ schemeLetters
  unspaced : ∀ c ∈ url, isSpace c = false
  unclosed : ']' ∉ url

theorem urlAt?_scanned {text url : List Char} (h : urlAt? text = some url) : Scanned url := by
  obtain ⟨n, hn, h⟩ := Option.bind_eq_some_iff.mp h
  obtain ⟨c, word, rest, rfl, rfl, hletters⟩ := urlStart?_eq_some hn
  dsimp only at h
  split at h
  · cases h
  · obtain rfl := Option.some.inj h
    have htake : ((c :: word) ++ ':' :: '/' :: '/' :: rest).take ((c :: word).length + 3) =
        (c :: word) ++ [':', '/', '/'] := by
      rw [List.take_length_add_append]
      rfl
    rw [htake]
    generalize htoken : scanUrlToken 0 _ = token
    have hplain : ∀ x ∈ token, isSpace x = false ∧ x ∉ urlStopChars := by
      rw [← htoken]
      exact fun x hx => mem_scanUrlToken hx
    have hmem : ∀ x ∈ (c :: word) ++ [':', '/', '/'] ++ token,
        x ∈ schemeLetters ∨ x ∈ [':', '/', '/'] ∨ x ∈ token := by
      intro x hx
      rcases List.mem_append.mp hx with hx | hx
      · rcases List.mem_append.mp hx with hx | hx
        · exact .inl (hletters x hx)
        · exact .inr (.inl hx)
      · exact .inr (.inr hx)
    refine ⟨⟨c, word, token, by simp, hletters⟩, fun x hx => ?_, fun hx => ?_⟩
    · rcases hmem x hx with h | h | h
      · exact (schemeLetter_plain h).2.2.2.1
      · fin_cases h <;> decide
      · exact (hplain x h).1
    · rcases hmem _ hx with h | h | h
      · exact (schemeLetter_plain h).2.1 rfl
      · revert h
        decide
      · exact (hplain _ h).2 (by decide)

/-- Stripping the punctuation leaves the slashes. -/
theorem Scanned.stripPunctuation {url : List Char} (h : Scanned url) :
    Scanned (stripPunctuation url) := by
  obtain ⟨c, word, rest, rfl, hletters⟩ := h.announced
  have hstripped : Cognition.stripPunctuation ((c :: word) ++ ':' :: '/' :: '/' :: rest) <+:
      (c :: word) ++ ':' :: '/' :: '/' :: rest := List.rdropWhile_prefix _ _
  refine ⟨⟨c, word, rest.rdropWhile (· ∈ ['.', ',', ';', ':', '!', '?']), ?_, hletters⟩,
    fun x hx => h.unspaced x (hstripped.subset hx), fun hx => h.unclosed (hstripped.subset hx)⟩
  have hsplit : (c :: word) ++ ':' :: '/' :: '/' :: rest =
      ((c :: word) ++ [':', '/']) ++ '/' :: rest := by simp
  rw [Cognition.stripPunctuation, hsplit, rdropWhile_append_of_neg (by decide)]
  simp

theorem urlsFrom_scanned {url : List Char} : ∀ {text : List Char} {skip : Nat},
    url ∈ urlsFrom skip text → Scanned url
  | [], skip, h => by cases skip <;> simp [urlsFrom] at h
  | c :: rest, skip + 1, h => @urlsFrom_scanned url rest skip h
  | c :: rest, 0, h => by
    rw [urlsFrom] at h
    split at h
    · rename_i u hu
      rcases List.mem_cons.mp h with rfl | h
      · exact (urlAt?_scanned hu).stripPunctuation
      · exact urlsFrom_scanned h
    · exact urlsFrom_scanned h

theorem extractQuestionUrls_scanned {text : Text} {url : List Char}
    (h : url ∈ extractQuestionUrls text) : Scanned url :=
  urlsFrom_scanned (List.mem_filter.mp (List.mem_eraseDups.mp h)).1

namespace Scanned

variable {url : List Char}

theorem strip_eq (h : Scanned url) : strip url = url := by
  have hdrop : ∀ s : List Char, (∀ c ∈ s, isSpace c = false) → s.dropWhile isSpace = s := by
    intro s hs
    cases s with
    | nil => rfl
    | cons c s => simp [hs c (by simp)]
  rw [strip, hdrop url h.unspaced, hdrop url.reverse fun c hc => h.unspaced c (by simpa using hc),
    List.reverse_reverse]

theorem netloc_unclosed (h : Scanned url) : ']' ∉ (splitUrl (strip url)).netloc := by
  rw [h.strip_eq]
  exact fun hx => h.unclosed (mem_of_mem_netloc hx)

theorem rooted (h : Scanned url) : (splitUrl (strip url)).Rooted := by
  rw [h.strip_eq]
  obtain ⟨c, word, rest, rfl, hletters⟩ := h.announced
  refine splitUrl_rooted (fun hcolon => ?_) ?_ fun x hx => ?_
  · exact (schemeLetter_plain (hletters _ hcolon)).1 rfl
  · simpa using (schemeLetter_plain (hletters c (by simp))).2.2.2.2
  · exact (schemeLetter_plain (hletters x hx)).2.2.1

end Scanned

/-! ## When no derivation raises -/

/-- The host's derivations from a text return, and a session that selects a question with
this text gets past the selection. -/
structure Harmless (t : UrlTables) (rd : TextReader) (decoded : List Char → List Char)
    (questionDate : Text → Option Int) (usesRelativeDate : Text → Bool) (isoDay : Int → String)
    (text : Text) : Prop where
  normalized : ∀ url ∈ extractQuestionUrls text, ∃ n, normalizeUri t url = .ok n
  domain : ∀ url ∈ extractQuestionUrls text, ∃ d, registrableDomainOf t rd url = .ok d
  key : ∀ url ∈ extractQuestionUrls text, ∃ k, coverageKey t rd decoded url = .ok k
  scope : ∀ asOf sessionDate, ∃ s,
    claimScopeOf t rd questionDate usesRelativeDate isoDay text asOf sessionDate = .ok s
  passes : ∀ select rest db q db', select db = some (q, db') → q.text = text →
    ∃ tracker, runToCommitting t rd decoded select rest db =
      rest q tracker (setState db' q.id .researching)

section Harmless

variable {t : UrlTables} {rd : TextReader} {decoded : List Char → List Char}
  {questionDate : Text → Option Int} {usesRelativeDate : Text → Bool} {isoDay : Int → String}
  {text : Text}

/-- A coverage key needs no more than the domain. -/
theorem coverageKey_ok {url : List Char} (h : ∃ d, registrableDomainOf t rd url = .ok d) :
    ∃ k, coverageKey t rd decoded url = .ok k := by
  obtain ⟨d, hd⟩ := h
  obtain ⟨n, hn, -⟩ := bind_eq_ok.mp hd
  obtain ⟨parts, hparts, -⟩ := bind_eq_ok.mp hn
  unfold coverageKey
  rw [hparts]
  dsimp only [ok_bind]
  split
  · exact ⟨none, rfl⟩
  · rw [hd]
    cases d with
    | none => exact ⟨none, rfl⟩
    | some d => exact ⟨_, rfl⟩

theorem track_ok_iff (tracker : SourceCoverageTracker) (url : List Char) :
    (∃ tracker', track t rd decoded tracker url = .ok tracker') ↔
      ∃ k, coverageKey t rd decoded url = .ok k := by
  unfold track
  cases hk : coverageKey t rd decoded url with
  | error e => simp
  | ok k => cases k <;> simp

theorem sourceCoverage_ok_iff {named : List (List Char)} :
    (∃ tracker, sourceCoverage t rd decoded named = .ok tracker) ↔
      ∀ url ∈ named, ∃ k, coverageKey t rd decoded url = .ok k :=
  foldlM_ok_iff track_ok_iff

theorem claimScopeOf_ok (h : ∃ domains, questionDomains t rd text = .ok domains)
    (asOf sessionDate : Option Int) : ∃ s,
      claimScopeOf t rd questionDate usesRelativeDate isoDay text asOf sessionDate = .ok s := by
  obtain ⟨domains, hd⟩ := h
  unfold claimScopeOf
  split
  · rename_i e he
    cases he.symm.trans hd
  · exact ⟨_, rfl⟩

/-- A session that can track the named sources gets past the selection. -/
theorem runToCommitting_of_tracked {select : Selector} {rest : Phase} {db db' : QuestionDb}
    {q : Question} (hselect : select db = some (q, db'))
    (htracked : ∀ url ∈ extractQuestionUrls q.text, ∃ k, coverageKey t rd decoded url = .ok k) :
    ∃ tracker, runToCommitting t rd decoded select rest db =
      rest q tracker (setState db' q.id .researching) := by
  unfold runToCommitting
  rw [hselect]
  dsimp only
  split
  · exact ⟨none, rfl⟩
  · obtain ⟨tracker, h⟩ := sourceCoverage_ok_iff.mpr htracked
    exact ⟨some tracker, by rw [h]⟩

/-- **Which texts are harmless**: those whose addresses have authorities that can be read. -/
theorem harmless_iff : Harmless t rd decoded questionDate usesRelativeDate isoDay text ↔
    ∀ url ∈ extractQuestionUrls text, ReadableNetloc t (splitUrl url).netloc := by
  have hscanned : ∀ url ∈ extractQuestionUrls text, Scanned url :=
    fun url h => extractQuestionUrls_scanned h
  constructor
  · intro h url hurl
    have hs := hscanned url hurl
    have hreadable := (normalizeUri_ok_iff hs.netloc_unclosed).mp (h.normalized url hurl)
    rwa [hs.strip_eq] at hreadable
  · intro h
    have hreadable : ∀ url ∈ extractQuestionUrls text,
        ReadableNetloc t (splitUrl (strip url)).netloc := by
      intro url hurl
      rw [(hscanned url hurl).strip_eq]
      exact h url hurl
    have hdomain : ∀ url ∈ extractQuestionUrls text,
        ∃ d, registrableDomainOf t rd url = .ok d := by
      intro url hurl
      have hs := hscanned url hurl
      exact (registrableDomainOf_ok_iff hs.netloc_unclosed hs.rooted).mpr (hreadable url hurl)
    refine ⟨fun url hurl => ?_, hdomain, fun url hurl => coverageKey_ok (hdomain url hurl), ?_, ?_⟩
    · exact (normalizeUri_ok_iff (hscanned url hurl).netloc_unclosed).mpr (hreadable url hurl)
    · refine claimScopeOf_ok ?_
      obtain ⟨ds, hds⟩ := mapM_ok_iff.mpr hdomain
      exact ⟨_, bind_eq_ok.mpr ⟨ds, hds, rfl⟩⟩
    · rintro select rest db q db' hselect rfl
      exact runToCommitting_of_tracked hselect fun url hurl => coverageKey_ok (hdomain url hurl)

/-- A question with an address that has no key is selected and rolled back forever. -/
theorem rolled_back_forever {select : Selector} {db db' : QuestionDb} {q : Question}
    (hselect : select db = some (q, db')) {url : List Char}
    (hurl : url ∈ extractQuestionUrls q.text) {e : UrlError}
    (hkey : coverageKey t rd decoded url = .error e) (rest : Phase) (sessions : Nat) :
    (runSession t rd decoded select rest)^[sessions] db = db := by
  have hone : runSession t rd decoded select rest db = db := by
    have hne : extractQuestionUrls q.text ≠ [] := List.ne_nil_of_mem hurl
    unfold runSession runToCommitting
    rw [hselect]
    dsimp only
    rw [if_neg hne]
    cases hs : sourceCoverage t rd decoded (extractQuestionUrls q.text) with
    | ok tracker =>
      obtain ⟨k, hk⟩ := sourceCoverage_ok_iff.mp ⟨tracker, hs⟩ url hurl
      cases hkey.symm.trans hk
    | error e => rfl
  exact Function.iterate_fixed hone sessions

end Harmless

/-! ## A question that poisons the scheduler -/

/-- `FIFOQuestionSelector`: highest priority, oldest first. -/
def fifo : Selector := fun db =>
  ((db.filter (·.state = .candidate)).insertionSort fun a b =>
    b.priority < a.priority ∨ (b.priority = a.priority ∧ (a.createdAt < b.createdAt ∨
      (a.createdAt = b.createdAt ∧ a.id ≤ b.id)))).head?.map fun q => (q, db)

/-- A question names an address with an open bracket. -/
def bracketQuestion : Question := ⟨1, "http://[x".toList, .candidate, 0, 0⟩

theorem bracket_poisons :
    (¬ ∀ (t : UrlTables) (rd : TextReader) (decoded : List Char → List Char)
      (questionDate : Text → Option Int) (usesRelativeDate : Text → Bool)
      (isoDay : Int → String) (text : Text),
      Harmless t rd decoded questionDate usesRelativeDate isoDay text) ∧
    ∀ rest sessions, (runSession asciiTables plainReaders.text id fifo rest)^[sessions]
      [bracketQuestion] = [bracketQuestion] := by
  have hurl : "http://[x".toList ∈ extractQuestionUrls bracketQuestion.text := by decide
  have hkey : coverageKey asciiTables plainReaders.text id "http://[x".toList =
      .error .invalidIPv6Url := by rfl
  constructor
  · intro hall
    have h := hall asciiTables plainReaders.text id (fun _ => none) (fun _ => false)
      (fun _ => "") bracketQuestion.text
    obtain ⟨k, hk⟩ := h.key _ hurl
    cases hkey.symm.trans hk
  · exact fun rest sessions => rolled_back_forever rfl hurl hkey rest sessions

end Noezema.Cognition
