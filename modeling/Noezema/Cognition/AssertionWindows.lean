import Noezema.Lib.Regex
import Noezema.Lib.UrlSplit

/-! # The windows of an assertion

A piece of evidence keeps fragments of a page, not the page. The first window stands where the terms
of the question are densest (`selectAssertionWindow`), the second one around an exact signal, a
quote or a value that was read (`exactAnchorStart`), and else around a value near the top
(`bestValueWindowStart`).

Signals are searched in a folded copy, in small letters and without blanks. The places found there
are places of the text only where small letters are as many as the letters themselves.
-/

namespace Noezema.Cognition.AssertionWindows

open Noezema.Lib Regex

abbrev Text := List Char

/-- `_MATCH_SPAN`. -/
def matchSpan : Nat := 400

/-- `_LEAD`. -/
def lead : Nat := 300

/-- `_START_BONUS_DECAY`. -/
def startBonusDecay : Nat := 8000

/-- `_START_BONUS_MAX`. -/
def startBonusMax : ℚ := 1 / 2

/-- `_MIN_TERM_FREQ`. -/
def minTermFreq : Nat := 4

/-- `_CHROME`. -/
def chrome : List Text :=
  ["histor", "countr", "princi", "figure", "packag", "download", "wiki"].map String.toList

/-- `_MIN_TERM_LEN`. -/
def minTermLen : Nat := 4

/-- `_NUMBER_BONUS_MAX`. -/
def numberBonusMax : ℚ := 1 / 2

/-- `num_context`. -/
def numContext : Nat := 1500

/-- `_FACT_ZONE_DECAY`. -/
def factZoneDecay : Nat := 16000

/-- `_VALUE_WEIGHT`. -/
def valueWeight : ℚ := 2

/-- `_MAX_OCCURRENCE_ATTEMPTS`. -/
def maxOccurrenceAttempts : Nat := 12

/-- `_STOP`. -/
def stop : List Text := [
    "и", "в", "на", "по", "с", "о", "а", "но", "или", "не", "что", "как", "это", "когда", "где",
    "кто", "какой", "сколько", "много", "мало", "очень", "тот", "этот", "такой", "мой", "твой",
    "наш", "их", "его", "её", "за", "из", "до", "от", "у", "к", "над", "под", "между", "через",
    "против", "без", "при", "об", "обо", "же", "бы", "ли", "ни", "то", "насколько", "можно",
    "нужно", "надо", "есть", "быть", "был", "была", "было", "были", "стал", "стала", "стало",
    "стали", "ответь", "установи", "строго", "этим", "двум", "источникам", "источнику",
    "источника", "источниками", "текущую", "дату", "сейчас", "номер", "номеру", "версию",
    "версия", "какойто", "какая", "какое", "каких", "https", "http", "www", "org", "com", "ru",
    "en", "the", "a", "an", "of", "in", "on", "at", "to", "for", "and", "or", "but", "is",
    "are", "was", "were", "be", "been", "being", "what", "which", "who", "how", "why", "when",
    "where", "that", "this", "these", "those", "it", "its", "as", "by", "with", "from", "up",
    "about", "into", "through", "during", "before", "after", "above", "below", "between", "out",
    "off", "over", "under", "again", "then", "once", "here", "there", "all", "any", "both",
    "each", "few", "more", "most", "other", "some", "such", "no", "nor", "not", "only", "own",
    "same", "so", "than", "too", "very", "can", "will", "just", "should", "now", "do", "does",
    "did", "doing", "done", "you", "your", "we", "our", "they", "their", "tell", "me", "answer",
    "state", "set", "according", "strictly", "these", "two", "sources", "source", "current",
    "date", "today", "number", "version"].map String.toList

/-- What is used of the tables of Unicode. -/
structure TextTables where
  /-- `str.lower`. -/
  lower : Text → Text
  /-- `str.isdigit`. -/
  isDigit : Char → Bool
  /-- `\d`. -/
  isDecimal : Char → Bool
  /-- `int` of a digit. -/
  digitValue : Char → Nat
  /-- `str.isspace`. -/
  isSpace : Char → Bool
  url : UrlTables

inductive WindowError where
  | value | index
deriving DecidableEq

/-- A fragment, and where it starts; a fragment that no search chose has no start. -/
structure AssertionWindow where
  text : Text
  start : Option Nat
deriving DecidableEq

/-! ## Texts -/

/-- `text[start:start + length]`. -/
def slice (text : Text) (start length : Nat) : Text := (text.drop start).take length

/-- The places of a text, from the place `i` on, where a word begins. -/
def positionsOf (word : Text) : Nat → Text → List Nat
  | i, c :: rest =>
    if word.isPrefixOf (c :: rest) then i :: positionsOf word (i + 1) rest
    else positionsOf word (i + 1) rest
  | _, [] => []

/-- `word in text`, for a word that is not empty. -/
def occursIn (word text : Text) : Bool := !(positionsOf word 0 text).isEmpty

/-- `text.count(word)`; the next `skip` symbols belong to the last one that was counted. -/
def countFrom (word : Text) : Nat → Text → Nat
  | skip + 1, _ :: rest => countFrom word skip rest
  | 0, c :: rest =>
    if word.isPrefixOf (c :: rest) then countFrom word (word.length - 1) rest + 1
    else countFrom word 0 rest
  | _, [] => 0

/-- `s <= t`, by code points. -/
def textLe : Text → Text → Bool
  | [], _ => true
  | _ :: _, [] => false
  | a :: s, b :: t => a.toNat < b.toNat || (a = b && textLe s t)

section Selection

-- the rounding of each operation on floats
variable (t : TextTables) (rnd : ℚ → ℚ)

/-! ## The terms of a question -/

/-- `_URL_RE`. -/
def urlRe : Regex Char :=
  seqs [word (fun a b => a = b) "http".toList, optional (symbol (· = 's')),
    word (fun a b => a = b) "://".toList,
    many 1 none (symbol fun c => !(t.isSpace c || c = ')' || c = ']' || c = '>'))]

/-- `[a-zа-яё0-9]`. -/
def isTokenChar (c : Char) : Bool :=
  let between := fun a b : Char => a.toNat ≤ c.toNat && c.toNat ≤ b.toNat
  between 'a' 'z' || between 'а' 'я' || c = 'ё' || between '0' '9'

/-- `_TOKEN_RE`. -/
def tokenRe : Regex Char := many 1 none (symbol isTokenChar)

def strip (s : Text) : Text :=
  ((s.dropWhile t.isSpace).reverse.dropWhile t.isSpace).reverse

/-- `_prefix_stem`. -/
def stemOf (term : Text) : Text :=
  if 7 ≤ term.length then term.take 6
  else if 5 ≤ term.length then term.take 5
  else term

def isContent (tok : Text) : Bool :=
  minTermLen ≤ tok.length && !stop.contains tok && !(!tok.isEmpty && tok.all t.isDigit)

/-- `urlparse(url).path`: without the parameters of the last segment. -/
def urlPath (url : Text) : Except WindowError Text :=
  match t.url.urlsplit url with
  | .ok r =>
    if r.path.contains '/' then
      .ok (beforeLast '/' r.path ++ '/' :: before ';' (afterLast '/' r.path))
    else .ok (before ';' r.path)
  | .error _ => .error .value

/-- The content words among the segments of the path of an address. -/
def urlTerms (url : Text) : Except WindowError (List Text) := do
  let path ← urlPath t url
  let segments := path.splitOnP fun c => c = '/' || c = '_' || c = '-'
  pure ((segments.map fun seg => t.lower (strip t seg)).filter (isContent t))

/-- `extract_terms`. -/
def extractTerms (question : Text) : Except WindowError (List Text) := do
  let q := (urlRe t).sub (fun _ => [' ']) (t.lower question)
  let words := ((tokenRe.findAll q).map (·.all q)).filter (isContent t)
  let segments ← ((urlRe t).findAll question).mapM fun m => urlTerms t (m.all question)
  let raw := ((words ++ segments.flatten).eraseDups).insertionSort fun a b => textLe a b
  pure (raw.map stemOf).eraseDups

/-! ## The densest place -/

/-- The stems that are searched: those that the page has, but not all over it. -/
def keptStems (tl : Text) (terms : List Text) : List Text :=
  let counts := (terms.map fun s => (s, countFrom s 0 tl)).filter fun e => 0 < e.2
  let cap := max minTermFreq ((counts.map (·.2)).sum / 2)
  ((counts.filter fun e => e.2 ≤ cap && !chrome.contains e.1).insertionSort fun a b =>
    a.2 < b.2 ∨ (a.2 = b.2 ∧ textLe a.1 b.1)).map (·.1)

/-- The places of the stems, in the order of the text. -/
def stemPlaces (tl : Text) (stems : List Text) : List (Nat × Text) :=
  (stems.flatMap fun stem => (positionsOf stem 0 tl).map fun i => (i, stem)).insertionSort
    fun a b => a.1 ≤ b.1

/-- `_has_number`. -/
def hasNumber (window : Text) : Bool := window.any t.isDigit

/-- The score of a place, with so many stems ahead. -/
def densityScore (tl : Text) (distinct lo : Nat) : ℚ :=
  let hi := lo + 2 * matchSpan
  let numBonus := if hasNumber t (slice tl lo (hi + 1 + numContext - lo)) then numberBonusMax else 0
  let startBonus :=
    if lo < startBonusDecay then rnd (startBonusMax * rnd (1 - rnd (lo / startBonusDecay))) else 0
  rnd (rnd (distinct + numBonus) + startBonus)

/-- The sweep over the places: `coming` are the places that have not entered the span, `present` the
stems in it, and the last argument is the best score with its place. -/
def sweep (tl : Text) : List (Nat × Text) → List (Nat × Text) → List Text → ℚ × Nat → Nat
  | (lo, stem) :: anchors, coming, present, best =>
    let inSpan : Nat × Text → Bool := fun e => e.1 ≤ lo + 2 * matchSpan
    let present := present ++ (coming.takeWhile inSpan).map (·.2)
    let score := densityScore t rnd tl present.eraseDups.length lo
    sweep tl anchors (coming.dropWhile inSpan) (present.erase stem)
      (if best.1 < score then (score, lo) else best)
  | [], _, _, best => best.2

/-- A window of the text at a place. -/
def windowAt (text : Text) (budget start : Nat) : AssertionWindow :=
  ⟨slice text start budget, some start⟩

/-- The window before the densest place. No terms, none on the page or none kept: there are no
places, and the window is the head of the text. -/
def densestWindow (text : Text) (budget : Nat) (terms : List Text) : AssertionWindow :=
  let tl := t.lower text
  match stemPlaces tl (keptStems tl terms) with
  | [] => ⟨text.take budget, none⟩
  | first :: rest =>
    windowAt text budget
      (sweep t rnd tl (first :: rest) (first :: rest) [] (0, first.1) - lead)

/-- `select_assertion_window`. -/
def selectAssertionWindow (text question : Text) (budget : Nat) :
    Except WindowError AssertionWindow :=
  if budget = 0 then .error .value
  else if text.length ≤ budget then .ok ⟨text, some 0⟩
  else (extractTerms t question).map (densestWindow t rnd text budget)

/-! ## Values near the top -/

/-- `_NUMBER_RE`. -/
def numberRe : Regex Char := many 1 none (symbol t.isDecimal)

/-- `_DOTTED_RE`. -/
def dottedRe : Regex Char := seq (numberRe t) (many 0 none (seq (symbol (· = '.')) (numberRe t)))

/-- `_ISO_DATE_RE.match`; the end may be a line break. -/
def isIsoDate (s : Text) : Bool :=
  let dec := symbol t.isDecimal
  let date := seqs [many 1 (some 1) dec, symbol (· = '.'), many 1 (some 1) dec, symbol (· = '.'),
    many 4 (some 0) dec]
  date.fullMatch s || (s.getLast? = some '\n' && date.fullMatch s.dropLast)

/-- `_TOC_INDEX_AFTER`. -/
def tocIndexAfter : Regex Char :=
  seq (many 1 none (symbol t.isSpace)) (symbol fun c =>
    ('A'.toNat ≤ c.toNat && c.toNat ≤ 'Z'.toNat) || ('А'.toNat ≤ c.toNat && c.toNat ≤ 'Я'.toNat) ||
      c = 'Ё')

/-- `_TOC_MARKERS`. -/
def tocMarkers : List Text :=
  ["move to sidebar", "переместить в боковую панель", "отобразить", "подраздел"].map String.toList

/-- `_is_table_of_contents`. -/
def isTableOfContents (span : Text) : Bool :=
  tocMarkers.any (occursIn · span) ||
    (occursIn "toggle".toList span && occursIn "subsection".toList span)

/-- A number that states something. -/
def isSignificant (span : Text) (m : Match) : Bool :=
  let s := m.all span
  let parts := s.splitOn '.'
  if 1 < parts.length then
    !isIsoDate t s && !(parts.all (·.length = 1) &&
      ((tocIndexAfter t).matchAt [] (slice span m.stop 8)).isSome)
  else
    let v := s.foldl (fun n c => 10 * n + t.digitValue c) 0
    (3 ≤ s.length && !(s.length = 4 && 1900 ≤ v && v ≤ 2099)) || slice span m.stop 1 = ['%']

/-- `_significant_numbers`. -/
def significantNumbers (span : Text) : Nat :=
  ((dottedRe t).findAll span).countP (isSignificant t span)

structure Candidate where
  pos : Nat
  score : ℚ
  terms : Nat
  values : Nat

/-- `_fact_region_candidates`. -/
def factRegionCandidates (text question : Text) : Except WindowError (List Candidate) := do
  let tl := t.lower text
  let terms ← extractTerms t question
  let anchors := (((numberRe t).findAll tl).map (·.start)).filter (· < factZoneDecay)
  pure (anchors.filterMap fun pos =>
    let span := slice tl pos (2 * matchSpan)
    let n := terms.countP (occursIn · span)
    let sig := significantNumbers t span
    if n = 0 ∧ sig = 0 then none
    else some ⟨pos, rnd (rnd (n + rnd (valueWeight * sig)) * rnd (1 - rnd (pos / factZoneDecay))),
      n, sig⟩)

/-- The window at a place overlaps that at another one. -/
def overlaps (textLength budget start avoid : Nat) : Bool :=
  start < avoid + budget && avoid < min textLength (start + budget)

/-- The better one of a window and the window before a candidate; `tl` is the text in small
letters. -/
def betterWindow (tl : Text) (textLength budget : Nat) (avoid : Option Nat)
    (best : Option Nat × ℚ) (c : Candidate) : Option Nat × ℚ :=
  if c.score ≤ 0 then best
  else if isTableOfContents (slice tl c.pos (2 * matchSpan)) then best
  else if avoid.any (overlaps textLength budget (c.pos - lead)) then best
  else if best.2 < c.score then (some (c.pos - lead), c.score)
  else best

/-- `_best_value_window_start`. -/
def bestValueWindowStart (text question : Text) (budget : Nat) (avoid : Option Nat) :
    Except WindowError (Option Nat) :=
  (factRegionCandidates t rnd text question).map fun candidates =>
    (candidates.foldl (betterWindow (t.lower text) text.length budget avoid) (none, 0)).1

/-! ## Exact signals -/

inductive SignalKind where
  | quote | value | explorerValue | date
deriving DecidableEq

structure AnchorSignal where
  needle : Text
  kind : SignalKind
deriving DecidableEq

/-- `_signal_specificity`. -/
def signalSpecificity (needle : Text) : Nat := needle.countP t.isDigit

structure RankedSignal where
  rank : Nat
  specificity : Nat
  order : Nat
  signal : AnchorSignal

/-- The values of one of the lists, with their ranks; a date ranks last. -/
def rankedValues (kind : SignalKind) (rank : Nat) (terms : List Text) : List RankedSignal :=
  terms.zipIdx.map fun e =>
    if isIsoDate t e.1 then ⟨3, signalSpecificity t e.1, e.2, ⟨e.1, .date⟩⟩
    else ⟨rank, signalSpecificity t e.1, e.2, ⟨e.1, kind⟩⟩

/-- `anchor_signals`. -/
def anchorSignals (quoteTerms valueTerms explorerValueTerms : List Text) : List AnchorSignal :=
  let quotes : List RankedSignal := quoteTerms.zipIdx.map fun e => ⟨0, 0, e.2, ⟨e.1, .quote⟩⟩
  let ranked := quotes ++ rankedValues t .value 1 valueTerms ++
    rankedValues t .explorerValue 2 explorerValueTerms
  (ranked.insertionSort fun a b => a.rank < b.rank ∨ (a.rank = b.rank ∧
    (b.specificity < a.specificity ∨ (a.specificity = b.specificity ∧ a.order ≤ b.order)))).map
      (·.signal)

/-- `_FOLD_DROP_CHARS`: blanks and invisible symbols. -/
def isDropped (c : Char) : Bool :=
  let n := c.toNat
  n = 0x20 || (0x9 ≤ n && n ≤ 0xD) || n = 0xA0 || n = 0x1680 || (0x2000 ≤ n && n ≤ 0x200A) ||
    n = 0x202F || n = 0x205F || n = 0x3000 || n = 0xAD || (0x200B ≤ n && n ≤ 0x200D) ||
    n = 0x2060 || n = 0xFEFF

/-- `_fold`. -/
def fold (text : Text) : Text := (text.filter fun c => !isDropped c).flatMap fun c => t.lower [c]

/-- The symbols that the folding keeps, with their places. -/
def keptSymbols (text : Text) : List (Char × Nat) := text.zipIdx.filter fun e => !isDropped e.1

/-- `_fold_with_map`. -/
def foldWithMap (text : Text) : Text × List Nat :=
  ((keptSymbols text).flatMap fun e => t.lower [e.1], (keptSymbols text).map (·.2))

/-- `_numeric_boundary_ok`. -/
def numericBoundaryOk (text : Text) (rawStart rawEnd : Nat) : Bool :=
  (rawStart = 0 || !text[rawStart - 1]?.any t.isDigit) &&
    (text.length ≤ rawEnd || !text[rawEnd]?.any t.isDigit)

/-- The place is among navigation. -/
def inNavigation (text : Text) (rawStart : Nat) : Bool :=
  let vetoFrom := rawStart - 2 * matchSpan
  isTableOfContents (t.lower (slice text vetoFrom (rawStart + 2 * matchSpan - vetoFrom)))

/-- What the places of a signal come to. -/
inductive Placement where
  | absent
  /-- The first window has it. -/
  | covered
  /-- Its window is apart from the first one. -/
  | free (start : Nat)
  /-- Each of its windows overlaps the first one. -/
  | pinned (start : Nat)
deriving DecidableEq

/-- The loop over the places of a signal; `pinned` is the first window that overlaps. -/
def place (text needle : Text) (positions : List Nat) (budget : Nat)
    (primaryStart : Option Nat) : List Nat → Option Nat → Except WindowError Placement
  | [], pinned => .ok (pinned.elim .absent .pinned)
  | found :: rest, pinned =>
    match positions[found]?, positions[found + needle.length - 1]? with
    | some rawStart, some last =>
      let start := rawStart - lead
      -- a digit beside it: part of another number
      if needle.head?.any t.isDigit && !numericBoundaryOk t text rawStart (last + 1) then
        place text needle positions budget primaryStart rest pinned
      else if inNavigation t text rawStart then
        place text needle positions budget primaryStart rest pinned
      else if primaryStart.any fun p => p ≤ rawStart && last + 1 ≤ p + budget then .ok .covered
      else if primaryStart.any (overlaps text.length budget start) then
        place text needle positions budget primaryStart rest (pinned.or (some start))
      else .ok (.free start)
    -- the folded text is longer than its map
    | _, _ => .error .index

/-- The start of the exact window, and whether it displaces the first one. -/
def Placement.chosen : Placement → Option (Nat × Bool)
  | .absent => none
  | .covered => none
  | .free start => some (start, false)
  | .pinned start => some (start, true)

/-- `_exact_anchor_start`. -/
def exactAnchorStart (text : Text) (budget : Nat) (primaryStart : Option Nat) :
    List AnchorSignal → Except WindowError (Option (Nat × Bool))
  | [] => .ok none
  | signal :: rest =>
    let map := foldWithMap t text
    let needle := fold t signal.needle
    if needle.length < 2 then exactAnchorStart text budget primaryStart rest
    else
      (place t text needle map.2 budget primaryStart
        ((positionsOf needle 0 map.1).take maxOccurrenceAttempts) none).bind fun placement =>
          placement.chosen.elim (exactAnchorStart text budget primaryStart rest) (.ok ∘ some)

/-- The windows of a text that is longer than the budget, from the first one and the exact start. -/
def chooseWindows (text question : Text) (budget : Nat) (primary : AssertionWindow) :
    Option (Nat × Bool) → Except WindowError (List AssertionWindow)
  | some (exactStart, displaced) =>
    let exact := windowAt text budget exactStart
    -- the head of a page is its furniture, and is given up
    if primary.start = none then .ok [exact]
    else if !displaced then .ok [primary, exact]
    else (bestValueWindowStart t rnd text question budget (some exactStart)).map fun fill =>
      match fill with
      | none => [exact]
      | some fill =>
        let filler := windowAt text budget fill
        -- sorted by their starts
        if fill ≤ exactStart then [filler, exact] else [exact, filler]
  | none =>
    (bestValueWindowStart t rnd text question budget primary.start).map fun best =>
      match best with
      | none => [primary]
      | some bestStart =>
        if primary.start = none then [windowAt text budget bestStart]
        else [primary, windowAt text budget bestStart]

/-- `select_assertion_windows`. -/
def selectAssertionWindows (text question : Text) (budget maxWindows : Nat)
    (valueTerms quoteTerms explorerValueTerms : List Text) :
    Except WindowError (List AssertionWindow) :=
  if budget = 0 ∨ maxWindows = 0 then .error .value
  else if text.length ≤ budget then .ok [⟨text, some 0⟩]
  else do
    let primary ← selectAssertionWindow t rnd text question budget
    if maxWindows = 1 then pure [primary]
    else
      let signals := anchorSignals t quoteTerms valueTerms explorerValueTerms
      let exact ← exactAnchorStart t text budget primary.start signals
      chooseWindows t rnd text question budget primary exact

end Selection

/-! ## What is asked of the windows -/

section Asked

variable (t : TextTables)

/-- Where a window begins. -/
def AssertionWindow.origin (w : AssertionWindow) : Nat := w.start.getD 0

def AssertionWindow.stop (w : AssertionWindow) : Nat := w.origin + w.text.length

/-- A part of the text, not empty and within the budget. -/
structure IsFragment (text : Text) (budget : Nat) (w : AssertionWindow) : Prop where
  ne : w.text ≠ []
  short : w.text.length ≤ budget
  verbatim : w.text = slice text w.origin w.text.length

def Apart (w w' : AssertionWindow) : Prop := w.stop ≤ w'.origin ∨ w'.stop ≤ w.origin

/-- The place behind the first symbols when they fold to the word. -/
def foldEnd : Text → List (Char × Nat) → Option Nat
  | word, (c, i) :: rest =>
    if t.lower [c] = word then some (i + 1)
    else if (t.lower [c]).isPrefixOf word then foldEnd (word.drop (t.lower [c]).length) rest
    else none
  | _, [] => none

/-- The spans among these symbols that fold to the word. -/
def spansIn (word : Text) : List (Char × Nat) → List (Nat × Nat)
  | e :: rest =>
    ((foldEnd t word (e :: rest)).map fun stop => (e.2, stop)).toList ++ spansIn word rest
  | [] => []

/-- The spans of the text that fold to the word, in the order of the text. -/
def occurrences (text word : Text) : List (Nat × Nat) := spansIn t word (keptSymbols text)

/-- An occurrence of a signal in one of the windows. -/
def Shown (text : Text) (signal : AnchorSignal) (w : AssertionWindow) : Prop :=
  ∃ span ∈ occurrences t text (fold t signal.needle), w.origin ≤ span.1 ∧ span.2 ≤ w.stop

/-- The first occurrences of a signal. -/
def firstSpans (text : Text) (signal : AnchorSignal) : List (Nat × Nat) :=
  (occurrences t text (fold t signal.needle)).take maxOccurrenceAttempts

/-- A number that stands alone, or what is no number, outside of navigation. -/
structure Admissible (text word : Text) (span : Nat × Nat) : Prop where
  alone : word.head?.any t.isDigit → numericBoundaryOk t text span.1 span.2
  outside : inNavigation t text span.1 = false

/-- One of the first occurrences is admissible. -/
def Found (text : Text) (signal : AnchorSignal) : Prop :=
  ∃ span ∈ firstSpans t text signal, Admissible t text (fold t signal.needle) span

/-- A signal of two symbols or more that is found. -/
def Anchors (text : Text) (signal : AnchorSignal) : Prop :=
  2 ≤ (fold t signal.needle).length ∧ Found t text signal

end Asked

/-! ## The map of the folded text -/

section Folded

variable {t : TextTables}

/-- The small form of each of the symbols is one symbol. -/
def Plain (t : TextTables) (symbols : List (Char × Nat)) : Prop :=
  ∀ e ∈ symbols, ∃ d, t.lower [e.1] = [d]

/-- The folded text of these symbols. -/
def folded (t : TextTables) (symbols : List (Char × Nat)) : Text :=
  symbols.flatMap fun e => t.lower [e.1]

theorem folded_length {symbols : List (Char × Nat)} (h : Plain t symbols) :
    (folded t symbols).length = symbols.length := by
  induction symbols with
  | nil => rfl
  | cons e rest ih =>
    obtain ⟨d, hd⟩ := h e List.mem_cons_self
    have hrest := ih fun e' he' => h e' (List.mem_cons_of_mem _ he')
    rw [folded, List.flatMap_cons, hd, List.length_append, List.length_cons, ← folded, hrest]
    simp [Nat.add_comm]

/-- A word is read to its end exactly where the folded text begins with it. -/
theorem foldEnd_eq {symbols : List (Char × Nat)} (h : Plain t symbols) :
    ∀ {word : Text}, word ≠ [] → foldEnd t word symbols =
      if word.isPrefixOf (folded t symbols) then
        (symbols.map (·.2))[word.length - 1]?.map (· + 1)
      else none := by
  induction symbols with
  | nil =>
    intro word hne
    cases word with
    | nil => exact absurd rfl hne
    | cons x word => rfl
  | cons e rest ih =>
    intro word hne
    obtain ⟨c, i⟩ := e
    obtain ⟨d, hd⟩ := h (c, i) List.mem_cons_self
    have hrest : Plain t rest := fun e' he' => h e' (List.mem_cons_of_mem _ he')
    have hfolded : folded t ((c, i) :: rest) = d :: folded t rest := by
      rw [folded, List.flatMap_cons, hd]
      rfl
    rw [foldEnd, hfolded, hd]
    cases word with
    | nil => exact absurd rfl hne
    | cons x word =>
      by_cases hx : x = d
      · cases word with
        | nil => simp [hx]
        | cons y word =>
          have := ih hrest (List.cons_ne_nil y word)
          simp [hx, this]
      · have hx' : ¬ d = x := fun heq => hx heq.symm
        simp [hx, hx']

/-- The places of a span in the map. -/
def MapsTo (positions : List Nat) (n found : Nat) (span : Nat × Nat) : Prop :=
  positions[found]? = some span.1 ∧
    ∃ last, positions[found + n - 1]? = some last ∧ span.2 = last + 1

/-- **The places of a word in the folded text are its spans in the text.** -/
theorem positionsOf_spansIn {word : Text} (hne : word ≠ []) {positions : List Nat} :
    ∀ {symbols : List (Char × Nat)} {i : Nat}, Plain t symbols →
      positions.drop i = symbols.map (·.2) →
      List.Forall₂ (MapsTo positions word.length) (positionsOf word i (folded t symbols))
        (spansIn t word symbols) := by
  intro symbols
  induction symbols with
  | nil => exact fun _ _ => .nil
  | cons e rest ih =>
    intro i h hdrop
    obtain ⟨d, hd⟩ := h e List.mem_cons_self
    have hrest : Plain t rest := fun e' he' => h e' (List.mem_cons_of_mem _ he')
    have hfolded : folded t (e :: rest) = d :: folded t rest := by
      rw [folded, List.flatMap_cons, hd]
      rfl
    have hnext : positions.drop (i + 1) = rest.map (·.2) := by
      rw [← List.drop_drop, hdrop]
      rfl
    have hat : ∀ j, positions[i + j]? = ((e :: rest).map (·.2))[j]? := by
      intro j
      rw [← hdrop, List.getElem?_drop]
    have htail := ih hrest hnext
    have hend := foldEnd_eq h hne
    rw [spansIn, hend, hfolded, positionsOf]
    -- the word begins here, and its last symbol has a place
    by_cases hpre : word.isPrefixOf (d :: folded t rest)
    · rw [if_pos hpre, if_pos hpre]
      have hpos := List.length_pos_iff.mpr hne
      have hlen := (List.isPrefixOf_iff_prefix.mp hpre).length_le
      rw [List.length_cons, folded_length hrest] at hlen
      have hlast : word.length - 1 < ((e :: rest).map (·.2)).length := by
        rw [List.length_map, List.length_cons]
        omega
      rw [List.getElem?_eq_getElem hlast]
      refine .cons ⟨?_, _, ?_, rfl⟩ htail
      · rw [← Nat.add_zero i, hat]
        rfl
      · rw [Nat.add_sub_assoc hpos, hat, List.getElem?_eq_getElem hlast]
    · rw [if_neg hpre, if_neg hpre]
      exact htail

/-- The small form of each symbol of the text is one symbol, and so are there as many in the small
form of the whole text. -/
structure Aligned (t : TextTables) (text : Text) : Prop where
  whole : (t.lower text).length = text.length
  each : ∀ c ∈ text, (t.lower [c]).length = 1

variable {text : Text}

theorem mem_keptSymbols {e : Char × Nat} (h : e ∈ keptSymbols text) :
    e.1 ∈ text ∧ e.2 < text.length := by
  have hmem := (List.mem_filter.mp h).1
  obtain ⟨hlt, heq⟩ := List.mem_zipIdx' hmem
  refine ⟨?_, hlt⟩
  rw [heq]
  exact List.getElem_mem hlt

theorem Aligned.plain (h : Aligned t text) : Plain t (keptSymbols text) := by
  intro e he
  obtain ⟨d, hd⟩ := List.length_eq_one_iff.mp (h.each e.1 (mem_keptSymbols he).1)
  exact ⟨d, hd⟩

theorem mem_spansIn {word : Text} {span : Nat × Nat} : ∀ {symbols : List (Char × Nat)},
    span ∈ spansIn t word symbols →
    (∃ e ∈ symbols, span.1 = e.2) ∧ ∃ e ∈ symbols, span.2 = e.2 + 1 := by
  have hend : ∀ {symbols : List (Char × Nat)} {word : Text} {stop : Nat},
      foldEnd t word symbols = some stop → ∃ e ∈ symbols, stop = e.2 + 1 := by
    intro symbols
    induction symbols with
    | nil =>
      intro word stop h
      cases h
    | cons e rest ih =>
      intro word stop h
      rw [foldEnd] at h
      split_ifs at h
      · exact ⟨e, List.mem_cons_self, (Option.some_inj.mp h).symm⟩
      · obtain ⟨e', he', hstop⟩ := ih h
        exact ⟨e', List.mem_cons_of_mem _ he', hstop⟩
  intro symbols
  induction symbols with
  | nil =>
    intro h
    cases h
  | cons e rest ih =>
    intro h
    rw [spansIn, List.mem_append, Option.mem_toList, Option.map_eq_some_iff] at h
    rcases h with ⟨stop, hstop, rfl⟩ | h
    · exact ⟨⟨e, List.mem_cons_self, rfl⟩, hend hstop⟩
    · obtain ⟨⟨e', he', hstart⟩, e'', he'', hstop⟩ := ih h
      exact ⟨⟨e', List.mem_cons_of_mem _ he', hstart⟩, e'', List.mem_cons_of_mem _ he'', hstop⟩

theorem span_le {word : Text} {span : Nat × Nat} (h : span ∈ occurrences t text word) :
    span.1 < text.length ∧ span.2 ≤ text.length := by
  obtain ⟨⟨e, he, hstart⟩, e', he', hstop⟩ := mem_spansIn h
  have hlt := (mem_keptSymbols he).2
  have hlt' := (mem_keptSymbols he').2
  omega

end Folded

/-! ## The places of a signal -/

section Signals

variable {t : TextTables} {text : Text} {budget : Nat} {primaryStart : Option Nat}

theorem admissible_iff {word : Text} {span : Nat × Nat} : Admissible t text word span ↔
    ¬ (word.head?.any t.isDigit && !numericBoundaryOk t text span.1 span.2) = true ∧
      ¬ inNavigation t text span.1 = true := by
  constructor
  · rintro ⟨halone, houtside⟩
    refine ⟨?_, by simp [houtside]⟩
    intro h
    rw [Bool.and_eq_true, Bool.not_eq_true'] at h
    rw [halone h.1] at h
    cases h.2
  · rintro ⟨halone, houtside⟩
    refine ⟨?_, by simpa using houtside⟩
    intro h
    simpa [h] using halone

/-- The first window has the span. -/
def Covers (primaryStart : Option Nat) (budget : Nat) (span : Nat × Nat) : Prop :=
  ∃ p, primaryStart = some p ∧ p ≤ span.1 ∧ span.2 ≤ p + budget

/-- What the loop over the spans of a signal comes to. -/
inductive Placed (t : TextTables) (text word : Text) (budget : Nat) (primaryStart : Option Nat)
    (spans : List (Nat × Nat)) (pinned : Option Nat) : Placement → Prop where
  | absent (hpinned : pinned = none) (hno : ∀ span ∈ spans, ¬ Admissible t text word span) :
    Placed t text word budget primaryStart spans pinned .absent
  | covered {span : Nat × Nat} (hspan : span ∈ spans) (hok : Admissible t text word span)
      (hcovers : Covers primaryStart budget span) :
    Placed t text word budget primaryStart spans pinned .covered
  | free {span : Nat × Nat} (hspan : span ∈ spans) (hok : Admissible t text word span)
      (hapart : ∀ p, primaryStart = some p →
        overlaps text.length budget (span.1 - lead) p = false) :
    Placed t text word budget primaryStart spans pinned (.free (span.1 - lead))
  | pinned {span : Nat × Nat} (hspan : span ∈ spans) (hok : Admissible t text word span) :
    Placed t text word budget primaryStart spans pinned (.pinned (span.1 - lead))
  | before {start : Nat} (hpinned : pinned = some start) :
    Placed t text word budget primaryStart spans pinned (.pinned start)

theorem Placed.skip {word : Text} {spans : List (Nat × Nat)} {span : Nat × Nat}
    {pinned : Option Nat} {r : Placement} (hno : ¬ Admissible t text word span)
    (h : Placed t text word budget primaryStart spans pinned r) :
    Placed t text word budget primaryStart (span :: spans) pinned r := by
  cases h with
  | absent hpinned hrest =>
    refine .absent hpinned ?_
    intro s hs
    rcases List.mem_cons.mp hs with rfl | hs
    · exact hno
    · exact hrest s hs
  | covered hspan hok hcovers => exact .covered (List.mem_cons_of_mem _ hspan) hok hcovers
  | free hspan hok hapart => exact .free (List.mem_cons_of_mem _ hspan) hok hapart
  | pinned hspan hok => exact .pinned (List.mem_cons_of_mem _ hspan) hok
  | before hpinned => exact .before hpinned

theorem Placed.pin {word : Text} {spans : List (Nat × Nat)} {span : Nat × Nat}
    {pinned : Option Nat} {r : Placement} (hok : Admissible t text word span)
    (h : Placed t text word budget primaryStart spans (pinned.or (some (span.1 - lead))) r) :
    Placed t text word budget primaryStart (span :: spans) pinned r := by
  cases h with
  | absent hpinned hrest =>
    cases pinned with
    | none => cases hpinned
    | some start => cases hpinned
  | covered hspan hok hcovers => exact .covered (List.mem_cons_of_mem _ hspan) hok hcovers
  | free hspan hok hapart => exact .free (List.mem_cons_of_mem _ hspan) hok hapart
  | pinned hspan hok => exact .pinned (List.mem_cons_of_mem _ hspan) hok
  | before hpinned =>
    cases pinned with
    | none =>
      rw [← Option.some_inj.mp hpinned]
      exact .pinned List.mem_cons_self hok
    | some start => exact .before hpinned

/-- **The loop over the places of a signal raises nothing, and says where it is.** -/
theorem place_placed {word : Text} {positions : List Nat} {places : List Nat}
    {spans : List (Nat × Nat)} (h : List.Forall₂ (MapsTo positions word.length) places spans) :
    ∀ pinned, ∃ r, place t text word positions budget primaryStart places pinned = .ok r ∧
      Placed t text word budget primaryStart spans pinned r := by
  induction h with
  | nil =>
    intro pinned
    cases pinned with
    | none => exact ⟨_, rfl, .absent rfl (by simp)⟩
    | some start => exact ⟨_, rfl, .before rfl⟩
  | @cons found span places spans hmap _ ih =>
    -- one span: it is not admissible, it decides, or it pins its window
    intro pinned
    obtain ⟨hstart, last, hlast, hstop⟩ := hmap
    rw [place, hstart, hlast]
    dsimp only
    rw [← hstop]
    by_cases hok : Admissible t text word span
    · obtain ⟨halone, houtside⟩ := admissible_iff.mp hok
      rw [if_neg halone, if_neg houtside]
      split_ifs with hcovered hoverlap
      · refine ⟨_, rfl, .covered List.mem_cons_self hok ?_⟩
        obtain ⟨p, hp, hin⟩ := (Option.any_eq_true _ _).mp hcovered
        exact ⟨p, hp, by simpa using hin⟩
      · obtain ⟨r, hr, hplaced⟩ := ih (pinned.or (some (span.1 - lead)))
        exact ⟨r, hr, hplaced.pin hok⟩
      · refine ⟨_, rfl, .free List.mem_cons_self hok ?_⟩
        rintro p rfl
        simpa using hoverlap
    · obtain ⟨r, hr, hplaced⟩ := ih pinned
      refine ⟨r, ?_, hplaced.skip hok⟩
      rw [admissible_iff, not_and_or, not_not, not_not] at hok
      rcases hok with halone | houtside
      · rw [if_pos halone]
        exact hr
      · rw [if_pos houtside, hr]
        exact ite_self _

/-- One of the first occurrences of a signal is in the first window. -/
def Covered (t : TextTables) (text : Text) (budget : Nat) (primaryStart : Option Nat)
    (signal : AnchorSignal) : Prop :=
  ∃ span ∈ firstSpans t text signal, Covers primaryStart budget span

/-- The start comes from one of the first occurrences of a signal. -/
structure StartsAt (t : TextTables) (text : Text) (budget : Nat) (primaryStart : Option Nat)
    (signal : AnchorSignal) (span : Nat × Nat) (displaced : Bool) : Prop where
  first : span ∈ firstSpans t text signal
  anchors : Anchors t text signal
  apart : displaced = false → ∀ p, primaryStart = some p →
    overlaps text.length budget (span.1 - lead) p = false

/-- **One signal: it is passed over, or it gives the start.** -/
theorem exactAnchorStart_cons (h : Aligned t text) (signal : AnchorSignal)
    (rest : List AnchorSignal) :
    (exactAnchorStart t text budget primaryStart (signal :: rest) =
        exactAnchorStart t text budget primaryStart rest ∧
      (Anchors t text signal → Covered t text budget primaryStart signal)) ∨
    ∃ span displaced, StartsAt t text budget primaryStart signal span displaced ∧
      exactAnchorStart t text budget primaryStart (signal :: rest) =
        .ok (some (span.1 - lead, displaced)) := by
  rw [exactAnchorStart]
  by_cases hshort : (fold t signal.needle).length < 2
  · rw [if_pos hshort]
    refine .inl ⟨rfl, fun hanchors => ?_⟩
    have := hanchors.1
    omega
  · rw [if_neg hshort]
    have hne : fold t signal.needle ≠ [] := by
      rw [← List.length_pos_iff]
      omega
    have hspans : List.Forall₂ (MapsTo (foldWithMap t text).2 (fold t signal.needle).length)
        (positionsOf (fold t signal.needle) 0 (foldWithMap t text).1)
        (occurrences t text (fold t signal.needle)) :=
      positionsOf_spansIn hne h.plain List.drop_zero
    obtain ⟨r, hr, hplaced⟩ := @place_placed t text budget primaryStart _ _ _ _
      (List.forall₂_take maxOccurrenceAttempts hspans) none
    rw [hr]
    cases hplaced with
    | absent _ hno =>
      refine .inl ⟨rfl, ?_⟩
      rintro ⟨-, span, hspan, hok⟩
      exact absurd hok (hno span hspan)
    | covered hspan _ hcovers => exact .inl ⟨rfl, fun _ => ⟨_, hspan, hcovers⟩⟩
    | free hspan hok hapart =>
      exact .inr ⟨_, false, ⟨hspan, ⟨by omega, _, hspan, hok⟩, fun _ => hapart⟩, rfl⟩
    | pinned hspan hok =>
      exact .inr ⟨_, true, ⟨hspan, ⟨by omega, _, hspan, hok⟩, by simp⟩, rfl⟩
    | before hpinned => cases hpinned

/-- **All signals: nothing is raised, and a start comes from one of them.** -/
theorem exactAnchorStart_ok (h : Aligned t text) (signals : List AnchorSignal) :
    ∃ r, exactAnchorStart t text budget primaryStart signals = .ok r ∧
      ∀ start displaced, r = some (start, displaced) → ∃ signal ∈ signals, ∃ span,
        StartsAt t text budget primaryStart signal span displaced ∧ start = span.1 - lead := by
  induction signals with
  | nil => exact ⟨none, rfl, by simp⟩
  | cons signal rest ih =>
    rcases exactAnchorStart_cons h signal rest with ⟨hskip, -⟩ | ⟨span, displaced, hstarts, heq⟩
    · obtain ⟨r, hr, hstart⟩ := ih
      refine ⟨r, hskip.trans hr, ?_⟩
      intro start displaced hsome
      obtain ⟨y, hy, hspan⟩ := hstart start displaced hsome
      exact ⟨y, List.mem_cons_of_mem _ hy, hspan⟩
    · refine ⟨_, heq, ?_⟩
      intro start displaced' hsome
      obtain ⟨rfl, rfl⟩ := Prod.mk.inj (Option.some_inj.mp hsome)
      exact ⟨signal, List.mem_cons_self, span, hstarts, rfl⟩

/-- **The strongest signal gives the start, or the first window has it.** -/
theorem exactAnchorStart_strongest (h : Aligned t text) {signal : AnchorSignal}
    {rest : List AnchorSignal} (hanchors : Anchors t text signal) :
    ∀ {stronger : List AnchorSignal}, (∀ y ∈ stronger, ¬ Anchors t text y) →
    (∃ span displaced, StartsAt t text budget primaryStart signal span displaced ∧
      exactAnchorStart t text budget primaryStart (stronger ++ signal :: rest) =
        .ok (some (span.1 - lead, displaced))) ∨
    (Covered t text budget primaryStart signal ∧
      exactAnchorStart t text budget primaryStart (stronger ++ signal :: rest) =
        exactAnchorStart t text budget primaryStart rest) := by
  intro stronger
  induction stronger with
  | nil =>
    intro _
    rcases exactAnchorStart_cons h signal rest with ⟨hskip, hcovered⟩ | hstarts
    · exact .inr ⟨hcovered hanchors, hskip⟩
    · exact .inl hstarts
  | cons y stronger ih =>
    intro hno
    have hrest := ih fun z hz => hno z (List.mem_cons_of_mem _ hz)
    rcases exactAnchorStart_cons h y (stronger ++ signal :: rest) with
      ⟨hskip, -⟩ | ⟨span, displaced, hstarts, -⟩
    · rw [List.cons_append, hskip]
      exact hrest
    · exact absurd hstarts.anchors (hno y List.mem_cons_self)

end Signals

/-! ## Windows at places of the text -/

section Windows

variable {text : Text} {budget start start' : Nat}

theorem windowAt_length :
    (windowAt text budget start).text.length = min budget (text.length - start) := by
  rw [windowAt, slice, List.length_take, List.length_drop]

theorem windowAt_stop (h : start < text.length) :
    (windowAt text budget start).stop = min (start + budget) text.length := by
  have horigin : (windowAt text budget start).origin = start := rfl
  rw [AssertionWindow.stop, windowAt_length, horigin]
  omega

theorem slice_length_take (start length : Nat) :
    slice text start (slice text start length).length = slice text start length := by
  rw [slice, slice, List.length_take, ← List.take_take, List.take_length]

theorem isFragment_windowAt (hbudget : 0 < budget) (h : start < text.length) :
    IsFragment text budget (windowAt text budget start) := by
  have hlen := @windowAt_length text budget start
  constructor
  · rw [← List.length_pos_iff]
    omega
  · omega
  · exact (slice_length_take start budget).symm

theorem isFragment_take (hbudget : 0 < budget) (h : text ≠ []) :
    IsFragment text budget ⟨text.take budget, none⟩ := by
  have hpos := List.length_pos_iff.mpr h
  constructor
  · rw [← List.length_pos_iff, List.length_take]
    omega
  · exact List.length_take_le _ _
  · exact (slice_length_take 0 budget).symm

theorem apart_windowAt (h : start < text.length) (h' : start' < text.length)
    (hoverlap : overlaps text.length budget start start' = false) :
    Apart (windowAt text budget start) (windowAt text budget start') := by
  rw [Apart, windowAt_stop h, windowAt_stop h']
  simp only [overlaps, Bool.and_eq_false_iff, decide_eq_false_iff_not] at hoverlap
  show min (start + budget) text.length ≤ start' ∨ min (start' + budget) text.length ≤ start
  omega

theorem Apart.symm {w w' : AssertionWindow} (h : Apart w w') : Apart w' w := Or.symm h

/-- The window before a span shows it, when it is long enough. -/
theorem shown_windowAt {t : TextTables} {signal : AnchorSignal} {span : Nat × Nat}
    (hspan : span ∈ firstSpans t text signal) (hfits : lead + (span.2 - span.1) < budget) :
    Shown t text signal (windowAt text budget (span.1 - lead)) := by
  have hmem := List.mem_of_mem_take hspan
  obtain ⟨hlt, hle⟩ := span_le hmem
  refine ⟨span, hmem, Nat.sub_le _ _, ?_⟩
  rw [windowAt_stop (by omega)]
  omega

theorem shown_of_covered {t : TextTables} {signal : AnchorSignal} (h : start < text.length)
    (hcovered : Covered t text budget (some start) signal) :
    Shown t text signal (windowAt text budget start) := by
  obtain ⟨span, hspan, p, hp, hstart, hstop⟩ := hcovered
  obtain rfl := Option.some_inj.mp hp
  have hmem := List.mem_of_mem_take hspan
  have hle := (span_le hmem).2
  refine ⟨span, hmem, hstart, ?_⟩
  rw [windowAt_stop h]
  omega

end Windows

/-! ## The first window and the fallback -/

section Selected

variable {t : TextTables} {rnd : ℚ → ℚ} {text question : Text} {budget : Nat}

theorem mem_positionsOf {word : Text} : ∀ {text : Text} {i p : Nat},
    p ∈ positionsOf word i text → p < i + text.length := by
  intro text
  induction text with
  | nil =>
    intro i p h
    cases h
  | cons c rest ih =>
    intro i p h
    rw [positionsOf] at h
    rw [List.length_cons]
    split at h
    · rcases List.mem_cons.mp h with rfl | h
      · omega
      · have := ih h
        omega
    · have := ih h
      omega

/-- The sweep chooses one of the places. -/
theorem sweep_mem {tl : Text} : ∀ {anchors coming : List (Nat × Text)} {present : List Text}
    {best : ℚ × Nat}, sweep t rnd tl anchors coming present best = best.2 ∨
      sweep t rnd tl anchors coming present best ∈ anchors.map (·.1) := by
  intro anchors
  induction anchors with
  | nil => exact .inl rfl
  | cons anchor anchors ih =>
    intro coming present best
    obtain ⟨lo, stem⟩ := anchor
    rw [sweep, List.map_cons]
    dsimp only
    rcases @ih (coming.dropWhile fun e => e.1 ≤ lo + 2 * matchSpan) _ _ with hbest | hmem
    · rw [hbest]
      split
      · exact .inr List.mem_cons_self
      · exact .inl rfl
    · exact .inr (List.mem_cons_of_mem _ hmem)

theorem stemPlaces_lt {tl : Text} {stems : List Text} {e : Nat × Text}
    (h : e ∈ stemPlaces tl stems) : e.1 < tl.length := by
  rw [stemPlaces, List.mem_insertionSort] at h
  obtain ⟨stem, -, hplace⟩ := List.mem_flatMap.mp h
  obtain ⟨i, hi, rfl⟩ := List.mem_map.mp hplace
  simpa using mem_positionsOf hi

/-- **The first window is the head of the text, or begins in it.** -/
theorem densestWindow_cases (h : Aligned t text) (terms : List Text) :
    densestWindow t rnd text budget terms = ⟨text.take budget, none⟩ ∨
      ∃ p < text.length, densestWindow t rnd text budget terms = windowAt text budget p := by
  rw [densestWindow]
  cases hplaces : stemPlaces (t.lower text) (keptStems (t.lower text) terms) with
  | nil => exact .inl rfl
  | cons first rest =>
    refine .inr ⟨_, ?_, rfl⟩
    have hall : ∀ e ∈ first :: rest, e.1 < text.length := by
      intro e he
      rw [← hplaces] at he
      rw [← h.whole]
      exact stemPlaces_lt he
    have hmem : sweep t rnd (t.lower text) (first :: rest) (first :: rest) [] (0, first.1) ∈
        (first :: rest).map (·.1) := by
      rcases @sweep_mem t rnd (t.lower text) (first :: rest) (first :: rest) [] (0, first.1) with
        hfirst | hmem
      · rw [hfirst]
        exact List.mem_cons_self
      · exact hmem
    obtain ⟨e, he, heq⟩ := List.mem_map.mp hmem
    have := hall e he
    omega

/-- `urlparse` takes the addresses in the question. -/
def UrlsParse (t : TextTables) (question : Text) : Prop :=
  ∀ m ∈ (urlRe t).findAll question, ∃ r, t.url.urlsplit (m.all question) = .ok r

theorem mapM_ok {α β ε : Type} {f : α → Except ε β} : ∀ {l : List α},
    (∀ a ∈ l, ∃ b, f a = .ok b) → ∃ bs, l.mapM f = .ok bs := by
  intro l
  induction l with
  | nil => exact fun _ => ⟨[], rfl⟩
  | cons a l ih =>
    intro h
    obtain ⟨b, hb⟩ := h a List.mem_cons_self
    obtain ⟨bs, hbs⟩ := ih fun x hx => h x (List.mem_cons_of_mem _ hx)
    refine ⟨b :: bs, ?_⟩
    rw [List.mapM_cons, hb, hbs]
    rfl

theorem extractTerms_ok (h : UrlsParse t question) :
    ∃ terms, extractTerms t question = .ok terms := by
  have hsegments : ∃ segments, ((urlRe t).findAll question).mapM
      (fun m => urlTerms t (m.all question)) = Except.ok segments := by
    refine mapM_ok ?_
    intro m hm
    obtain ⟨r, hr⟩ := h m hm
    have hpath : ∃ path, urlPath t (m.all question) = .ok path := by
      rw [urlPath, hr]
      dsimp only
      split
      · exact ⟨_, rfl⟩
      · exact ⟨_, rfl⟩
    obtain ⟨path, hpath⟩ := hpath
    rw [urlTerms, hpath]
    exact ⟨_, rfl⟩
  obtain ⟨segments, hsegments⟩ := hsegments
  rw [extractTerms, hsegments]
  exact ⟨_, rfl⟩

theorem factRegionCandidates_ok (h : Aligned t text) (hurls : UrlsParse t question) :
    ∃ candidates, factRegionCandidates t rnd text question = .ok candidates ∧
      ∀ c ∈ candidates, c.pos < text.length := by
  obtain ⟨terms, hterms⟩ := extractTerms_ok hurls
  rw [factRegionCandidates, hterms]
  refine ⟨_, rfl, ?_⟩
  intro c hc
  obtain ⟨pos, hpos, hc⟩ := List.mem_filterMap.mp hc
  obtain ⟨m, hm, rfl⟩ := List.mem_map.mp (List.mem_filter.mp hpos).1
  have hlt := start_lt_of_mem_findAll hm
  rw [h.whole] at hlt
  dsimp only at hc
  split_ifs at hc
  rw [← Option.some_inj.mp hc]
  exact hlt

/-- A start in the text whose window does not overlap the one that is avoided. -/
def Suits (text : Text) (budget : Nat) (avoid : Option Nat) (start : Nat) : Prop :=
  start < text.length ∧ ∀ a, avoid = some a → overlaps text.length budget start a = false

theorem betterWindow_suits {tl : Text} {avoid : Option Nat} {best : Option Nat × ℚ} {c : Candidate}
    (hc : c.pos < text.length) (hbest : ∀ start ∈ best.1, Suits text budget avoid start) :
    ∀ start ∈ (betterWindow tl text.length budget avoid best c).1,
      Suits text budget avoid start := by
  rw [betterWindow]
  split_ifs with _ _ hoverlap
  · exact hbest
  · exact hbest
  · exact hbest
  · intro start hstart
    obtain rfl : c.pos - lead = start := Option.some_inj.mp hstart
    refine ⟨by omega, ?_⟩
    rintro a rfl
    simpa using hoverlap
  · exact hbest

/-- **The fallback window begins in the text and does not overlap.** -/
theorem bestValueWindowStart_ok (h : Aligned t text) (hurls : UrlsParse t question)
    (avoid : Option Nat) : ∃ r, bestValueWindowStart t rnd text question budget avoid = .ok r ∧
      ∀ start ∈ r, Suits text budget avoid start := by
  obtain ⟨candidates, hcandidates, hpos⟩ := @factRegionCandidates_ok t rnd text question h hurls
  rw [bestValueWindowStart, hcandidates]
  refine ⟨_, rfl, ?_⟩
  have hrun : ∀ (candidates : List Candidate) (best : Option Nat × ℚ),
      (∀ c ∈ candidates, c.pos < text.length) →
      (∀ start ∈ best.1, Suits text budget avoid start) →
      ∀ start ∈ (candidates.foldl (betterWindow (t.lower text) text.length budget avoid) best).1,
        Suits text budget avoid start := by
    intro candidates
    induction candidates with
    | nil => exact fun _ _ hbest => hbest
    | cons c candidates ih =>
      intro best hpos hbest
      refine ih _ (fun c' hc' => hpos c' (List.mem_cons_of_mem _ hc')) ?_
      exact betterWindow_suits (hpos c List.mem_cons_self) hbest
  exact hrun candidates (none, 0) hpos (by simp)

/-- One or two fragments of the text, apart from each other. -/
structure WindowsOk (text : Text) (budget : Nat) (windows : List AssertionWindow) : Prop where
  count : windows.length = 1 ∨ windows.length = 2
  fragments : ∀ w ∈ windows, IsFragment text budget w
  apart : windows.Pairwise Apart

theorem windowsOk_one {w : AssertionWindow} (h : IsFragment text budget w) :
    WindowsOk text budget [w] := by
  refine ⟨.inl rfl, ?_, List.pairwise_singleton _ _⟩
  intro x hx
  rw [List.mem_singleton.mp hx]
  exact h

theorem windowsOk_two {w w' : AssertionWindow} (h : IsFragment text budget w)
    (h' : IsFragment text budget w') (hapart : Apart w w') : WindowsOk text budget [w, w'] := by
  refine ⟨.inr rfl, ?_, List.pairwise_pair.mpr hapart⟩
  intro x hx
  rcases List.mem_cons.mp hx with rfl | hx
  · exact h
  · rw [List.mem_singleton.mp hx]
    exact h'

/-- The first window of a text that is longer than the budget. -/
inductive IsPrimary (text : Text) (budget : Nat) : AssertionWindow → Prop where
  | head : IsPrimary text budget ⟨text.take budget, none⟩
  | within {start : Nat} (h : start < text.length) :
    IsPrimary text budget (windowAt text budget start)

/-- The exact start is in the text, and apart from the first window if it does not displace it. -/
def IsExact (text : Text) (budget : Nat) (primaryStart : Option Nat) :
    Option (Nat × Bool) → Prop
  | none => True
  | some (start, displaced) => start < text.length ∧ (displaced = false →
    ∀ p, primaryStart = some p → overlaps text.length budget start p = false)

/-- The windows that are returned show the exact one, and the first one unless it is displaced. -/
structure Chosen (text : Text) (budget : Nat) (primary : AssertionWindow)
    (exact : Option (Nat × Bool)) (windows : List AssertionWindow) : Prop where
  ok : WindowsOk text budget windows
  exact_mem : ∀ start displaced, exact = some (start, displaced) →
    windowAt text budget start ∈ windows
  primary_mem : (∀ start, exact ≠ some (start, true)) → primary.start ≠ none → primary ∈ windows

theorem exact_mem_windows {windows : List AssertionWindow} {start : Nat} {displaced : Bool}
    (h : windowAt text budget start ∈ windows) : ∀ start' displaced',
    some (start, displaced) = some (start', displaced') →
      windowAt text budget start' ∈ windows := by
  intro start' displaced' hsome
  obtain ⟨rfl, -⟩ := Prod.mk.inj (Option.some_inj.mp hsome)
  exact h

/-- Without an exact signal: the first window and the fallback, or the fallback for the head. -/
theorem chooseWindows_fallback (h : Aligned t text) (hurls : UrlsParse t question)
    (hbudget : 0 < budget) (htext : text ≠ []) {primary : AssertionWindow}
    (hprimary : IsPrimary text budget primary) :
    ∃ windows, chooseWindows t rnd text question budget primary none = .ok windows ∧
      Chosen text budget primary none windows := by
  obtain ⟨best, hbest, hsuits⟩ :=
    @bestValueWindowStart_ok t rnd text question budget h hurls primary.start
  rw [chooseWindows, hbest]
  cases best with
  | none =>
    refine ⟨_, rfl, ?_, by simp, fun _ _ => List.mem_singleton_self _⟩
    cases hprimary with
    | head => exact windowsOk_one (isFragment_take hbudget htext)
    | within hp => exact windowsOk_one (isFragment_windowAt hbudget hp)
  | some start =>
    obtain ⟨hlt, hapart⟩ := hsuits start rfl
    have hfragment := isFragment_windowAt hbudget hlt
    cases hprimary with
    | head => exact ⟨_, rfl, windowsOk_one hfragment, by simp, fun _ hne => absurd rfl hne⟩
    | within hp =>
      refine ⟨_, rfl, windowsOk_two (isFragment_windowAt hbudget hp) hfragment ?_, by simp,
        fun _ _ => List.mem_cons_self⟩
      exact (apart_windowAt hlt hp (hapart _ rfl)).symm

/-- The first window gives way, and the fallback keeps clear of the exact one. -/
theorem chooseWindows_displaced (h : Aligned t text) (hurls : UrlsParse t question)
    (hbudget : 0 < budget) {p start : Nat} (hlt : start < text.length) :
    ∃ windows, chooseWindows t rnd text question budget (windowAt text budget p)
        (some (start, true)) = .ok windows ∧
      WindowsOk text budget windows ∧ windowAt text budget start ∈ windows := by
  obtain ⟨fill, hfill, hsuits⟩ :=
    @bestValueWindowStart_ok t rnd text question budget h hurls (some start)
  have hexact := isFragment_windowAt hbudget hlt
  have hstart : (windowAt text budget p).start = some p := rfl
  rw [chooseWindows, hstart, if_neg (Option.some_ne_none p), if_neg (by simp), hfill]
  cases fill with
  | none => exact ⟨_, rfl, windowsOk_one hexact, List.mem_singleton_self _⟩
  | some fill =>
    obtain ⟨hfilllt, hfillapart⟩ := hsuits fill rfl
    have hfiller := isFragment_windowAt hbudget hfilllt
    have happart := apart_windowAt hfilllt hlt (hfillapart start rfl)
    -- the two stand in the order of the text
    by_cases hle : fill ≤ start
    · refine ⟨[windowAt text budget fill, windowAt text budget start],
        congrArg Except.ok (if_pos hle), windowsOk_two hfiller hexact happart, ?_⟩
      exact List.mem_cons_of_mem _ (List.mem_singleton_self _)
    · exact ⟨[windowAt text budget start, windowAt text budget fill],
        congrArg Except.ok (if_neg hle), windowsOk_two hexact hfiller happart.symm,
        List.mem_cons_self⟩

/-- **The choice of the windows.** -/
theorem chooseWindows_ok (h : Aligned t text) (hurls : UrlsParse t question) (hbudget : 0 < budget)
    (htext : text ≠ []) {primary : AssertionWindow} (hprimary : IsPrimary text budget primary)
    {exact : Option (Nat × Bool)} (hexact : IsExact text budget primary.start exact) :
    ∃ windows, chooseWindows t rnd text question budget primary exact = .ok windows ∧
      Chosen text budget primary exact windows := by
  cases exact with
  | none => exact chooseWindows_fallback h hurls hbudget htext hprimary
  | some choice =>
    obtain ⟨start, displaced⟩ := choice
    obtain ⟨hlt, hapart⟩ := hexact
    have hfragment := isFragment_windowAt hbudget hlt
    cases hprimary with
    | head =>
      exact ⟨_, rfl, windowsOk_one hfragment, exact_mem_windows (List.mem_singleton_self _),
        fun _ hne => absurd rfl hne⟩
    | @within p hp =>
      cases displaced with
      | false =>
        refine ⟨[windowAt text budget p, windowAt text budget start], rfl,
          windowsOk_two (isFragment_windowAt hbudget hp) hfragment ?_, exact_mem_windows ?_,
          fun _ _ => List.mem_cons_self⟩
        · exact (apart_windowAt hlt hp (hapart rfl p rfl)).symm
        · exact List.mem_cons_of_mem _ (List.mem_singleton_self _)
      | true =>
        obtain ⟨windows, hchoose, hok, hmem⟩ :=
          @chooseWindows_displaced t rnd text question budget h hurls hbudget p start hlt
        exact ⟨windows, hchoose, hok, exact_mem_windows hmem, fun hno _ => absurd rfl (hno start)⟩

theorem selectAssertionWindow_ok (h : Aligned t text) (hurls : UrlsParse t question)
    (hbudget : 0 < budget) (hlong : budget < text.length) :
    ∃ primary, selectAssertionWindow t rnd text question budget = .ok primary ∧
      IsPrimary text budget primary := by
  obtain ⟨terms, hterms⟩ := extractTerms_ok hurls
  rw [selectAssertionWindow, if_neg (by omega), if_neg (by omega), hterms]
  refine ⟨_, rfl, ?_⟩
  rcases @densestWindow_cases t rnd text budget h terms with hhead | ⟨p, hp, hat⟩
  · rw [hhead]
    exact .head
  · rw [hat]
    exact .within hp

theorem isExact_of_startsAt {primaryStart : Option Nat} {exact : Option (Nat × Bool)}
    {signals : List AnchorSignal}
    (h : ∀ start displaced, exact = some (start, displaced) → ∃ signal ∈ signals, ∃ span,
      StartsAt t text budget primaryStart signal span displaced ∧ start = span.1 - lead) :
    IsExact text budget primaryStart exact := by
  cases exact with
  | none => trivial
  | some choice =>
    obtain ⟨start, displaced⟩ := choice
    obtain ⟨signal, -, span, hstarts, hstart⟩ := h start displaced rfl
    rw [hstart]
    have hlt := (span_le (List.mem_of_mem_take hstarts.first)).1
    exact ⟨by omega, hstarts.apart⟩

/-- The first window showed the signal, and gave way to a weaker one. -/
def GaveWay (t : TextTables) (rnd : ℚ → ℚ) (text question : Text) (budget : Nat)
    (signal : AnchorSignal) (weaker : List AnchorSignal) (windows : List AssertionWindow) : Prop :=
  ∃ primary, selectAssertionWindow t rnd text question budget = .ok primary ∧
    Shown t text signal primary ∧ primary ∉ windows ∧
    ∃ y ∈ weaker, ∃ w ∈ windows, Shown t text y w

theorem shown_of_covered_primary {signal : AnchorSignal} {primary : AssertionWindow}
    (hprimary : IsPrimary text budget primary)
    (hcovered : Covered t text budget primary.start signal) :
    Shown t text signal primary ∧ primary.start ≠ none := by
  cases hprimary with
  | head =>
    obtain ⟨-, -, p, hp, -⟩ := hcovered
    cases hp
  | within hp => exact ⟨shown_of_covered hp hcovered, Option.some_ne_none _⟩

/-- A text within the budget shows what it has. -/
theorem shown_whole {signal : AnchorSignal} (h : Anchors t text signal) :
    Shown t text signal ⟨text, some 0⟩ := by
  obtain ⟨-, span, hspan, -⟩ := h
  have hmem := List.mem_of_mem_take hspan
  refine ⟨span, hmem, Nat.zero_le _, ?_⟩
  show span.2 ≤ 0 + text.length
  have := (span_le hmem).2
  omega

/-- The strongest signal, in windows that were chosen for the signals. -/
theorem Chosen.strongest {signals : List AnchorSignal} {primary : AssertionWindow}
    {exact : Option (Nat × Bool)} {windows : List AssertionWindow} (halign : Aligned t text)
    (hselect : selectAssertionWindow t rnd text question budget = .ok primary)
    (hprimary : IsPrimary text budget primary)
    (hfits : ∀ signal ∈ signals, ∀ span ∈ firstSpans t text signal,
      lead + (span.2 - span.1) < budget)
    (hexact : exactAnchorStart t text budget primary.start signals = .ok exact)
    (hchosen : Chosen text budget primary exact windows) {stronger weaker : List AnchorSignal}
    {signal : AnchorSignal} (hsplit : signals = stronger ++ signal :: weaker)
    (hno : ∀ y ∈ stronger, ¬ Anchors t text y) (hanchors : Anchors t text signal) :
    (∃ w ∈ windows, Shown t text signal w) ∨
      GaveWay t rnd text question budget signal weaker windows := by
  subst hsplit
  rcases @exactAnchorStart_strongest t text budget primary.start halign signal weaker hanchors
    stronger hno with ⟨span, displaced, hstart, heq⟩ | ⟨hcovered, heq⟩
  · have hmem : signal ∈ stronger ++ signal :: weaker :=
      List.mem_append_right _ List.mem_cons_self
    have hsome := Except.ok.inj (hexact.symm.trans heq)
    exact .inl ⟨_, hchosen.exact_mem _ _ hsome,
      shown_windowAt hstart.first (hfits signal hmem span hstart.first)⟩
  · obtain ⟨hshown, hstart⟩ := shown_of_covered_primary hprimary hcovered
    by_cases hin : primary ∈ windows
    · exact .inl ⟨primary, hin, hshown⟩
    · -- so a weaker signal has pinned its window
      refine .inr ⟨primary, hselect, hshown, hin, ?_⟩
      obtain ⟨exact', hexact', hstarts'⟩ :=
        @exactAnchorStart_ok t text budget primary.start halign weaker
      obtain rfl : exact' = exact := Except.ok.inj (hexact'.symm.trans (heq.symm.trans hexact))
      by_contra hnone
      refine hin (hchosen.primary_mem ?_ hstart)
      intro start hsome
      obtain ⟨y, hy, span, hstarts, heq'⟩ := hstarts' start true hsome
      rw [heq'] at hsome
      have hmem : y ∈ stronger ++ signal :: weaker :=
        List.mem_append_right _ (List.mem_cons_of_mem _ hy)
      exact hnone ⟨y, hy, _, hchosen.exact_mem _ _ hsome,
        shown_windowAt hstarts.first (hfits y hmem span hstarts.first)⟩

/-- **The windows are parts of the text, apart from each other, and, where every signal fits
behind the lead, show the strongest signal that is found, unless the first window showed it and
gave way to a weaker one.** -/
theorem windows_show_strongest (t : TextTables) (rnd : ℚ → ℚ) {text question : Text} {budget : Nat}
    {valueTerms quoteTerms explorerValueTerms : List Text} (htext : text ≠ [])
    (halign : Aligned t text) (hurls : UrlsParse t question) (hbudget : 0 < budget) :
    ∃ windows, selectAssertionWindows t rnd text question budget 2 valueTerms quoteTerms
        explorerValueTerms = .ok windows ∧
      WindowsOk text budget windows ∧
      ((∀ signal ∈ anchorSignals t quoteTerms valueTerms explorerValueTerms,
          ∀ span ∈ firstSpans t text signal, lead + (span.2 - span.1) < budget) →
        ∀ stronger signal weaker,
        anchorSignals t quoteTerms valueTerms explorerValueTerms = stronger ++ signal :: weaker →
        (∀ y ∈ stronger, ¬ Anchors t text y) → Anchors t text signal →
        (∃ w ∈ windows, Shown t text signal w) ∨
          GaveWay t rnd text question budget signal weaker windows) := by
  rw [selectAssertionWindows, if_neg (by omega)]
  by_cases hshort : text.length ≤ budget
  · rw [if_pos hshort]
    have hfragment : IsFragment text budget ⟨text, some 0⟩ :=
      ⟨htext, hshort, (List.take_length).symm⟩
    refine ⟨_, rfl, windowsOk_one hfragment, ?_⟩
    intro _ stronger signal weaker _ _ hanchors
    exact .inl ⟨_, List.mem_singleton_self _, shown_whole hanchors⟩
  · rw [if_neg hshort]
    obtain ⟨primary, hselect, hprimary⟩ :=
      @selectAssertionWindow_ok t rnd text question budget halign hurls hbudget (by omega)
    obtain ⟨exact, hexact, hstarts⟩ := @exactAnchorStart_ok t text budget primary.start halign
      (anchorSignals t quoteTerms valueTerms explorerValueTerms)
    obtain ⟨windows, hchoose, hchosen⟩ := @chooseWindows_ok t rnd text question budget halign hurls
      hbudget htext primary hprimary exact (isExact_of_startsAt hstarts)
    refine ⟨windows, ?_, hchosen.ok, ?_⟩
    · rw [hselect]
      show (do
        let exact ← exactAnchorStart t text budget primary.start
          (anchorSignals t quoteTerms valueTerms explorerValueTerms)
        chooseWindows t rnd text question budget primary exact) = .ok windows
      rw [hexact]
      exact hchoose
    · intro hfits stronger signal weaker hsplit hno hanchors
      exact hchosen.strongest halign hselect hprimary hfits hexact hsplit hno hanchors

end Selected

/-! ## Texts with other windows -/

section Broken

variable (t : TextTables) (rnd : ℚ → ℚ) (text question : Text) (budget : Nat)

/-- The windows are parts of the text, and the strongest signal that is found is shown. -/
def Promised (valueTerms : List Text) : Prop :=
  ∃ windows, selectAssertionWindows t rnd text question budget 2 valueTerms [] [] = .ok windows ∧
    WindowsOk text budget windows ∧
    ∀ stronger signal weaker, anchorSignals t [] valueTerms [] = stronger ++ signal :: weaker →
      (∀ y ∈ stronger, ¬ Found t text y) → Found t text signal →
      ∃ w ∈ windows, Shown t text signal w

variable {t rnd text question budget} {valueTerms : List Text}

theorem not_promised_of_error {e : WindowError}
    (h : selectAssertionWindows t rnd text question budget 2 valueTerms [] [] = .error e) :
    ¬ Promised t rnd text question budget valueTerms := by
  rintro ⟨windows, hok, -⟩
  rw [h] at hok
  cases hok

theorem not_promised_of_hidden {windows : List AssertionWindow} {signal : AnchorSignal}
    {weaker : List AnchorSignal} {span : Nat × Nat}
    (h : selectAssertionWindows t rnd text question budget 2 valueTerms [] [] = .ok windows)
    (hsignals : anchorSignals t [] valueTerms [] = signal :: weaker)
    (hspan : span ∈ firstSpans t text signal)
    (hok : Admissible t text (fold t signal.needle) span)
    (hhidden : ∀ w ∈ windows, ¬ Shown t text signal w) :
    ¬ Promised t rnd text question budget valueTerms := by
  rintro ⟨windows', hselect, -, hshown⟩
  obtain rfl := Except.ok.inj (h.symm.trans hselect)
  obtain ⟨w, hw, hin⟩ := hshown [] signal weaker hsignals (by simp) ⟨span, hspan, hok⟩
  exact hhidden w hw hin

end Broken

instance (t : TextTables) (text : Text) (signal : AnchorSignal) (w : AssertionWindow) :
    Decidable (Shown t text signal w) :=
  inferInstanceAs (Decidable (∃ span ∈ occurrences t text (fold t signal.needle), _))

instance (t : TextTables) (text word : Text) (span : Nat × Nat) :
    Decidable (Admissible t text word span) := decidable_of_iff _ admissible_iff.symm

/-- `str.lower` of a symbol, for ASCII and the capital letter `i` with a dot, which becomes an `i`
and a dot. -/
def lowerSymbol (c : Char) : Text :=
  if c.toNat = 0x130 then ['i', Char.ofNat 0x307] else [c.toLower]

def asciiText : TextTables where
  lower s := s.flatMap lowerSymbol
  isDigit := Char.isDigit
  isDecimal := Char.isDigit
  digitValue c := c.toNat - 48
  isSpace c := c = ' ' || (9 ≤ c.toNat && c.toNat ≤ 13) || (28 ≤ c.toNat && c.toNat ≤ 31)
  url := asciiTables

def dashes (n : Nat) : Text := List.replicate n '-'

def value : Text := "5,59".toList

/-- A value in the middle of a text is shown. -/
theorem value_shown : ∃ windows, selectAssertionWindows asciiText id
      (dashes 400 ++ value ++ dashes 10) [] 310 2 [value] [] [] = .ok windows ∧
    ∃ w ∈ windows, Shown asciiText (dashes 400 ++ value ++ dashes 10) ⟨value, .value⟩ w := by
  have hsignals : anchorSignals asciiText [] [value] [] = [] ++ ⟨value, .value⟩ :: [] := by
    decide
  have halign : Aligned asciiText (dashes 400 ++ value ++ dashes 10) := by
    have hall : (dashes 400 ++ value ++ dashes 10).all
        (fun c => (asciiText.lower [c]).length = 1) = true := by decide +kernel
    exact ⟨by decide +kernel, fun c hc => by simpa using List.all_eq_true.mp hall c hc⟩
  have hurls : UrlsParse asciiText [] := by
    rintro m hm
    cases hm
  have hfits : ∀ signal ∈ anchorSignals asciiText [] [value] [],
      ∀ span ∈ firstSpans asciiText (dashes 400 ++ value ++ dashes 10) signal,
        lead + (span.2 - span.1) < 310 := by
    decide +kernel
  have hanchors : Anchors asciiText (dashes 400 ++ value ++ dashes 10) ⟨value, .value⟩ :=
    ⟨by decide +kernel, (400, 404), by decide +kernel, by decide +kernel⟩
  obtain ⟨windows, hselect, -, hshown⟩ :=
    @windows_show_strongest asciiText id (dashes 400 ++ value ++ dashes 10) [] 310 [value] [] []
      (by decide) halign hurls (by decide)
  refine ⟨windows, hselect, ?_⟩
  rcases hshown hfits [] _ [] hsignals (by simp) hanchors with hin | ⟨-, -, -, -, y, hy, -⟩
  · exact hin
  · cases hy

/-- The value with blanks in it that the folding drops. -/
def spaced : Text := dashes 400 ++ ['5'] ++ List.replicate 20 ' ' ++ ",59".toList ++ dashes 10

/-- The first window has the value, and a weaker one behind it pins a window without it. -/
def shadowed : Text := value ++ dashes 296 ++ "inflation---7,77".toList ++ dashes 20

theorem windows_not_promised :
    ¬ Promised asciiText id [] [] 310 [] ∧
    ¬ Promised asciiText id (dashes 400 ++ ['7'] ++ dashes 10) [] 310 [['7']] ∧
    ¬ Promised asciiText id spaced [] 310 [value] ∧
    ¬ Promised asciiText id (List.replicate 320 (Char.ofNat 0x130) ++ value) [] 310 [value] ∧
    ¬ Promised asciiText id (dashes 400) "http://[x".toList 310 [] ∧
    ¬ Promised asciiText id shadowed "inflation".toList 310 [value, "7,77".toList] := by
  refine ⟨?_, ?_, ?_, not_promised_of_error (e := .index) ?_,
    not_promised_of_error (e := .value) ?_, ?_⟩
  · rintro ⟨windows, hselect, hok, -⟩
    obtain rfl : [⟨[], some 0⟩] = windows := Except.ok.inj hselect
    exact (hok.fragments _ (List.mem_singleton_self _)).ne rfl
  · refine @not_promised_of_hidden _ _ _ _ _ _ [⟨dashes 310, none⟩] ⟨['7'], .value⟩ [] (400, 401)
      ?_ ?_ ?_ ?_ ?_
    all_goals decide +kernel
  · refine @not_promised_of_hidden _ _ _ _ _ _ [windowAt spaced 310 100] ⟨value, .value⟩ []
      (400, 424) ?_ ?_ ?_ ?_ ?_
    all_goals decide +kernel
  · decide +kernel
  · decide +kernel
  · refine @not_promised_of_hidden _ _ _ _ _ _ [windowAt shadowed 310 12] ⟨value, .value⟩
      [⟨"7,77".toList, .value⟩] (0, 4) ?_ ?_ ?_ ?_ ?_
    all_goals decide +kernel

end Noezema.Cognition.AssertionWindows
