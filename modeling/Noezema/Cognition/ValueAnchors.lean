import Noezema.Lib.Readings
import Noezema.Research.MeasuredValues

/-! # Where a value stands

The gate of the periods looks near the places where a value of the statement stands on the page
(`valueAnchorSpans`), and does not judge a page without one. It reads numbers and ranges by
expressions of its own: an integer part of one to three digits and groups of three behind it, no
digit or separator before the number.
-/

namespace Noezema.Cognition.ValueAnchors

open Noezema.Lib Noezema.Lib.Regex Noezema.Research.ValueAttribution PyText

section Expressions

variable (lex : ValueLexicon)

/-- Three digits behind a blank. -/
def digitGroup : Regex CodePoint := seq blank (many 3 (some 0) (digit lex))

def fraction : Regex CodePoint := seq separator (many 1 none (digit lex))

/-- `\d{1,3}(?:[ ]\d{3})*(?:[.,]\d+)?`. -/
def scannedNumber : Regex CodePoint :=
  seq (many 1 (some 2) (digit lex)) (seq (many 0 none (digitGroup lex)) (optional (fraction lex)))

/-- `[\d.,]`. -/
def isBound (c : CodePoint) : Bool := lex.isDecimal c || decimalSeparators.contains c

/-- `_SCANNED_NUMBER_RE`. -/
def scannedNumberRe : Regex CodePoint :=
  seqs [notBehind (isBound lex), group 1 (scannedNumber lex), notAhead (digit lex),
    notAhead (seq separator (digit lex))]

/-- `_SCANNED_RANGE_RE`. -/
def scannedRangeRe : Regex CodePoint :=
  let blanks := many 0 (some 3) blank
  alt
    (seqs [notBehind (isBound lex), group 1 (scannedNumber lex), blanks, anyOf "-–—", blanks,
      group 2 (scannedNumber lex)])
    (seqs [notBehind (isBound lex), group 3 (scannedNumber lex), many 1 none blank,
      word (fun a b => a = b) (lit "до"), many 1 none blank, group 4 (scannedNumber lex)])

end Expressions

section Anchors

variable {F : Type} [DecidableEq F] (lex : ValueLexicon) (float : PyText → Option F)

/-- `_token_value`. -/
def tokenValue (raw : PyText) : Option F :=
  float ((raw.filter (· ≠ space)).map fun c => if c = comma then point else c)

/-- The single values as numbers. -/
def floatSingles (matchValues : Finset PyText) : Finset (Option F) :=
  ((matchValues \ claimRangeTokens matchValues).image (tokenValue float)).erase none

/-- The ends of the ranges as numbers. -/
def rangePairs (matchValues : Finset PyText) : Finset (Option F × Option F) :=
  ((claimRangeTokens matchValues).image fun token =>
    (tokenValue float (rangeEnds token).1, tokenValue float (rangeEnds token).2)).filter
      fun pair => pair.1.isSome ∧ pair.2.isSome

/-- The place that a range gives, for two of its groups. -/
def rangeSpan (matchValues : Finset PyText) (scanned : PyText) (m : Match) (left right : Nat) :
    Option (Nat × Nat) := do
  let leftSpan ← m.span left
  let rightSpan ← m.span right
  let leftRaw ← m.groupText scanned left
  let rightRaw ← m.groupText scanned right
  let pair := (tokenValue float leftRaw, tokenValue float rightRaw)
  if pair.1 = none ∨ pair.2 = none then none
  else if pair ∈ rangePairs float matchValues then some (m.start, m.stop)
  else if pair.1 ∈ floatSingles float matchValues then some leftSpan
  else if pair.2 ∈ floatSingles float matchValues then some rightSpan
  else none

/-- `_value_anchor_spans`, of the values of a statement. -/
def anchorSpans (matchValues : Finset PyText) (scanned : PyText) : List (Nat × Nat) :=
  let numbers := ((scannedNumberRe lex).findAll scanned).filterMap fun m =>
    if ((m.groupText scanned 1).any fun raw =>
        tokenValue float raw ∈ floatSingles float matchValues) then some (m.start, m.stop)
    else none
  let ranges := ((scannedRangeRe lex).findAll scanned).flatMap fun m =>
    [(1, 2), (3, 4)].filterMap fun groups =>
      rangeSpan float matchValues scanned m groups.1 groups.2
  (numbers ++ ranges).dedup.mergeSort fun a b => a.1 < b.1 || (a.1 = b.1 && a.2 ≤ b.2)

/-- `_value_anchor_spans`. -/
def valueAnchorSpans (scanned statement : PyText) : List (Nat × Nat) :=
  anchorSpans lex float (claimMatchValues lex statement) scanned

/-- The gate of the values finds one of the values on the page. -/
def Confirmed (statement page : PyText) : Prop :=
  let matchValues := claimMatchValues lex statement
  claimValuesFoundInTexts lex.toDigitTable (matchValues \ claimRangeTokens matchValues)
      [some page] ≠ ∅ ∨
    claimRangesFoundInTexts lex (claimRangeTokens matchValues) [some page] ≠ ∅

end Anchors

/-! ## The numbers that are read -/

section Words

variable (lex : ValueLexicon)

def DigitRun (w : PyText) : Prop := ∀ c ∈ w, lex.isDecimal c

def GroupWord (w : PyText) : Prop := ∃ d, DigitRun lex d ∧ d.length = 3 ∧ w = space :: d

def FractionWord (w : PyText) : Prop :=
  ∃ sep f, sep ∈ decimalSeparators ∧ DigitRun lex f ∧ f ≠ [] ∧ w = sep :: f

/-- One to three digits, groups of three behind blanks, and a fraction that may be absent. -/
def NumberWord (w : PyText) : Prop :=
  ∃ head groups frac, DigitRun lex head ∧ 1 ≤ head.length ∧ head.length ≤ 3 ∧
    (∃ n, Words (GroupWord lex) n groups) ∧ (frac = [] ∨ FractionWord lex frac) ∧
    w = head ++ (groups ++ frac)

/-- Nothing beside a number goes on with it. -/
structure Standing (left w post : PyText) : Prop where
  number : NumberWord lex w
  left_free : ∀ c ∈ left.head?, isBound lex c = false
  no_digit : ∀ c ∈ post.head?, lex.isDecimal c = false
  no_fraction : ∀ s c, [s, c] <+: post → s ∈ decimalSeparators → lex.isDecimal c = false

/-- The longest of the numbers that stand at a place. -/
def NumberAt (left w post : PyText) (x : PyText) : Prop :=
  x = w ∧ Standing lex left w post ∧
    ∀ w' post', w' ++ post' = w ++ post → Standing lex left w' post' → w'.length ≤ w.length

/-- A dash with at most three blanks on each side. -/
def DashConnector (conn : PyText) : Prop :=
  ∃ i j dash, i ≤ 3 ∧ j ≤ 3 ∧ dash ∈ lit "-–—" ∧
    conn = List.replicate i space ++ dash :: List.replicate j space

/-- The word between blanks. -/
def WordConnector (conn : PyText) : Prop :=
  ∃ i j, 1 ≤ i ∧ 1 ≤ j ∧ conn = List.replicate i space ++ (lit "до" ++ List.replicate j space)

/-- Two numbers with a connective between them; the second one is as long as the text allows. -/
def RangeAt (left w post : PyText) (x : PyText × PyText) : Prop :=
  ∃ conn, w = x.1 ++ (conn ++ x.2) ∧ (∀ c ∈ left.head?, isBound lex c = false) ∧
    NumberWord lex x.1 ∧ (DashConnector conn ∨ WordConnector conn) ∧ NumberWord lex x.2 ∧
    ∀ b, NumberWord lex b → b <+: x.2 ++ post → b.length ≤ x.2.length

end Words

section Reading

variable {lex : ValueLexicon}

theorem spells_digit : Spells (digit lex) (fun w => ∃ c, lex.isDecimal c ∧ w = [c]) :=
  spells_symbol _

theorem spells_separator :
    Spells separator (fun w => ∃ c, decimalSeparators.contains c ∧ w = [c]) := spells_symbol _

theorem spells_digitGroup : Spells (digitGroup lex) (GroupWord lex) := by
  refine ((spells_symbol _).seq (spells_run _ 3 (some 0))).congr ?_
  intro w
  constructor
  · rintro ⟨u, v, ⟨x, hx, rfl⟩, ⟨hall, hmin, hmax⟩, rfl⟩
    have hmax := hmax 0 rfl
    obtain rfl : x = space := by simpa using hx
    exact ⟨v, hall, by omega, rfl⟩
  · rintro ⟨d, hall, hlen, rfl⟩
    refine ⟨[space], d, ⟨space, by simp, rfl⟩, ⟨hall, by omega, ?_⟩, rfl⟩
    intro e he
    omega

theorem groupWord_length {w : PyText} (h : GroupWord lex w) : w.length = 4 := by
  obtain ⟨d, -, hlen, rfl⟩ := h
  rw [List.length_cons, hlen]

theorem groupWord_ne {w : PyText} (h : GroupWord lex w) : w ≠ [] := by
  rw [← List.length_pos_iff, groupWord_length h]
  omega

theorem spells_fraction : Spells (fraction lex) (FractionWord lex) := by
  refine ((spells_symbol _).seq (spells_run _ 1 none)).congr ?_
  intro w
  constructor
  · rintro ⟨u, v, ⟨sep, hsep, rfl⟩, ⟨hall, hmin, -⟩, rfl⟩
    exact ⟨sep, v, List.contains_iff_mem.mp hsep, hall, List.length_pos_iff.mp hmin, rfl⟩
  · rintro ⟨sep, f, hsep, hall, hne, rfl⟩
    refine ⟨[sep], f, ⟨sep, List.contains_iff_mem.mpr hsep, rfl⟩,
      ⟨hall, List.length_pos_iff.mpr hne, ?_⟩, rfl⟩
    simp

theorem spells_optional_fraction :
    Spells (Regex.optional (fraction lex)) (fun w => w = [] ∨ FractionWord lex w) := by
  have hne : ∀ w, FractionWord lex w → w ≠ [] := by
    rintro w ⟨sep, f, -, -, -, rfl⟩
    exact List.cons_ne_nil _ _
  refine (spells_fraction.many hne 0 (some 1)).congr ?_
  intro w
  constructor
  · rintro ⟨n, -, hmax, hw⟩
    have hmax := hmax 1 rfl
    cases n with
    | zero => exact .inl (words_zero.mp hw)
    | succ n =>
      obtain rfl : n = 0 := by omega
      obtain ⟨u, v, hu, hv, rfl⟩ := words_succ.mp hw
      rw [words_zero.mp hv, List.append_nil]
      exact .inr hu
  · rintro (rfl | hw)
    · exact ⟨0, le_refl _, by simp, words_zero.mpr rfl⟩
    · refine ⟨1, by omega, ?_, words_succ.mpr ⟨w, [], hw, words_zero.mpr rfl, ?_⟩⟩
      · intro e he
        obtain rfl : 1 = e := by simpa using he
        omega
      · rw [List.append_nil]

theorem spells_scannedNumber : Spells (scannedNumber lex) (NumberWord lex) := by
  refine ((spells_run _ 1 (some 2)).seq
    ((spells_digitGroup.many (fun _ => groupWord_ne) 0 none).seq spells_optional_fraction)).congr ?_
  intro w
  constructor
  · rintro ⟨head, rest, ⟨hall, hmin, hmax⟩, ⟨groups, frac, ⟨n, -, -, hgroups⟩, hfrac, rfl⟩, rfl⟩
    exact ⟨head, groups, frac, hall, hmin, hmax 2 rfl, ⟨n, hgroups⟩, hfrac, rfl⟩
  · rintro ⟨head, groups, frac, hall, hmin, hmax, ⟨n, hgroups⟩, hfrac, rfl⟩
    refine ⟨head, groups ++ frac, ⟨hall, hmin, ?_⟩,
      ⟨groups, frac, ⟨n, Nat.zero_le _, by simp, hgroups⟩, hfrac, rfl⟩, rfl⟩
    intro e he
    obtain rfl : 2 = e := by simpa using he
    exact hmax

/-! ## The longest number is read -/

theorem separator_not_decimal {c : CodePoint} (h : c ∈ decimalSeparators) :
    lex.isDecimal c = false := by
  by_contra hdigit
  rw [Bool.not_eq_false] at hdigit
  exact lex.digit_not_separator c (lex.decimal_digit c hdigit) h

theorem space_not_decimal : lex.isDecimal space = false := by
  by_contra hdigit
  rw [Bool.not_eq_false] at hdigit
  exact digit_ne_space (lex.decimal_digit space hdigit) rfl

theorem groups_head {n : Nat} {groups : PyText} (h : Words (GroupWord lex) n groups) :
    ∀ c ∈ groups.head?, c = space := by
  intro c hc
  cases n with
  | zero =>
    rw [words_zero.mp h] at hc
    cases hc
  | succ n =>
    obtain ⟨u, v, ⟨d, -, -, rfl⟩, -, rfl⟩ := words_succ.mp h
    simpa using hc.symm

theorem fraction_head {frac : PyText} (h : frac = [] ∨ FractionWord lex frac) :
    ∀ c ∈ frac.head?, c ∈ decimalSeparators := by
  intro c hc
  rcases h with rfl | ⟨sep, f, hsep, -, -, rfl⟩
  · cases hc
  · obtain rfl : sep = c := by simpa using hc
    exact hsep

/-- Behind its first digits a number goes on with no digit. -/
theorem rest_head {n : Nat} {groups frac : PyText} (hgroups : Words (GroupWord lex) n groups)
    (hfrac : frac = [] ∨ FractionWord lex frac) :
    ∀ c ∈ (groups ++ frac).head?, lex.isDecimal c = false := by
  intro c hc
  cases groups with
  | nil => exact separator_not_decimal (fraction_head hfrac c hc)
  | cons x groups =>
    rw [groups_head hgroups c hc]
    exact space_not_decimal

/-- A text and what begins it begin with one symbol. -/
theorem head?_of_prefix {w l : PyText} (h : w <+: l) (hne : w ≠ []) : l.head? = w.head? := by
  obtain ⟨post, rfl⟩ := h
  rw [List.head?_append_of_ne_nil _ hne]

theorem longest_digitGroup : Longest (digitGroup lex) :=
  (longest_symbol _).seq_of_forced (spells_symbol _) (forced_symbol _) (longest_run _ 3 (some 0))

theorem longest_fraction : Longest (fraction lex) :=
  (longest_symbol _).seq_of_forced (spells_symbol _) (forced_symbol _) (longest_run _ 1 none)

theorem forced_groupWord : Forced (GroupWord lex) := forced_of_length fun _ => groupWord_length

theorem spells_groups :
    Spells (many 0 none (digitGroup lex)) (fun w => ∃ n, Words (GroupWord lex) n w) := by
  refine (spells_digitGroup.many (fun _ => groupWord_ne) 0 none).congr ?_
  simp

theorem longest_groups : Longest (many 0 none (digitGroup lex)) :=
  longest_digitGroup.many spells_digitGroup forced_groupWord 0 none

/-- Behind fewer groups than there are no fraction begins. -/
theorem longest_groups_fraction :
    Longest (seq (many 0 none (digitGroup lex)) (Regex.optional (fraction lex))) := by
  refine longest_groups.seq longest_fraction.optional ?_
  intro c e he e' he' hlt d hd
  obtain ⟨w, ⟨n, hw⟩, hpw, rfl⟩ := (spells_groups c e).mp he
  obtain ⟨w', ⟨n', hw'⟩, hpw', rfl⟩ := (spells_groups c e').mp he'
  obtain ⟨v, hv, hpv, rfl⟩ := (spells_optional_fraction _ d).mp hd
  rw [Cursor.behind_pos, Cursor.behind_pos] at hlt
  obtain ⟨u, hu, hpu⟩ := Words.next forced_groupWord hw' hw hpw' hpw (by omega)
  have hempty : v = [] := by
    by_contra hne
    obtain ⟨g, -, -, rfl⟩ := hu
    have hspace := head?_of_prefix hpu (List.cons_ne_nil _ _)
    have hhead := head?_of_prefix hpv hne
    rw [Cursor.behind_right, hspace, List.head?_cons] at hhead
    have hsep := fraction_head hv space hhead.symm
    exact (separator_not_space hsep).2 rfl
  rw [hempty, Cursor.behind_nil, Cursor.behind_pos, Cursor.behind_pos]
  exact hlt

theorem longest_scannedNumber : Longest (scannedNumber lex) := by
  -- behind fewer digits than there are another digit comes, so nothing else is read
  refine (longest_run _ 1 (some 2)).seq longest_groups_fraction ?_
  intro c e he e' he' hlt d hd
  obtain ⟨w, ⟨hw, -, -⟩, hpw, rfl⟩ := (spells_run _ 1 (some 2) c e).mp he
  obtain ⟨w', -, hpw', rfl⟩ := (spells_run _ 1 (some 2) c e').mp he'
  obtain ⟨v, ⟨groups, frac, ⟨n, hgroups⟩, hfrac, rfl⟩, hpv, rfl⟩ :=
    (spells_groups.seq spells_optional_fraction _ d).mp hd
  rw [Cursor.behind_pos, Cursor.behind_pos] at hlt
  obtain ⟨x, hx, hnext⟩ := exists_next hpw' hpw (by omega)
  have hempty : groups ++ frac = [] := by
    by_contra hne
    have hhead := head?_of_prefix hpv hne
    rw [Cursor.behind_right, hnext] at hhead
    have hdigit := rest_head hgroups hfrac x hhead.symm
    rw [hw x hx] at hdigit
    cases hdigit
  rw [hempty, Cursor.behind_nil, Cursor.behind_pos, Cursor.behind_pos]
  exact hlt

theorem numberWord_ne {w : PyText} (h : NumberWord lex w) : w ≠ [] := by
  obtain ⟨head, groups, frac, -, hmin, -, -, -, rfl⟩ := h
  rw [← List.length_pos_iff, List.length_append]
  omega

theorem bound_free_iff {left : PyText} :
    ¬ left.head?.any (isBound lex) = true ↔ ∀ c ∈ left.head?, isBound lex c = false := by
  cases left with
  | nil => simp
  | cons c left => simp

/-- What is not ahead of a number that stands alone. -/
theorem ahead_free_iff {e : Cursor CodePoint} :
    (((digit lex).paths e).isEmpty && ((seq separator (digit lex)).paths e).isEmpty) = true ↔
      (∀ c ∈ e.right.head?, lex.isDecimal c = false) ∧
        ∀ s c, [s, c] <+: e.right → s ∈ decimalSeparators → lex.isDecimal c = false := by
  rw [Bool.and_eq_true, spells_digit.paths_isEmpty_iff,
    (spells_separator.seq spells_digit).paths_isEmpty_iff]
  constructor
  · rintro ⟨hdigit, hsep⟩
    constructor
    · intro c hc
      by_contra hdec
      rw [Bool.not_eq_false] at hdec
      refine hdigit [c] ⟨c, hdec, rfl⟩ ?_
      obtain ⟨rest, hrest⟩ := List.head?_eq_some_iff.mp hc
      rw [hrest]
      exact List.prefix_append [c] rest
    · intro s c hpre hs
      by_contra hdec
      rw [Bool.not_eq_false] at hdec
      exact hsep [s, c] ⟨[s], [c], ⟨s, List.contains_iff_mem.mpr hs, rfl⟩, ⟨c, hdec, rfl⟩, rfl⟩ hpre
  · rintro ⟨hdigit, hsep⟩
    constructor
    · rintro w ⟨c, hdec, rfl⟩ ⟨rest, hrest⟩
      rw [hdigit c (by rw [← hrest]; rfl)] at hdec
      cases hdec
    · rintro w ⟨u, v, ⟨s, hs, rfl⟩, ⟨c, hdec, rfl⟩, rfl⟩ hpre
      rw [hsep s c hpre (List.contains_iff_mem.mp hs)] at hdec
      cases hdec

/-- The ways to read a number that stands alone, the longest first. -/
theorem scannedNumberRe_paths (left right : PyText) :
    Descending ((scannedNumberRe lex).paths ⟨left, right, []⟩) ∧
      ∀ d, d ∈ (scannedNumberRe lex).paths ⟨left, right, []⟩ ↔ ∃ w post, right = w ++ post ∧
        Standing lex left w post ∧
        d = ⟨w.reverse ++ left, post, [(1, left.length, left.length + w.length)]⟩ := by
  have hpaths : (scannedNumberRe lex).paths ⟨left, right, []⟩ =
      if left.head?.any (isBound lex) then [] else
        (((scannedNumber lex).paths ⟨left, right, []⟩).map (·.capture 1 left.length)).filter
          fun e => ((digit lex).paths e).isEmpty &&
            ((seq separator (digit lex)).paths e).isEmpty := by
    have hparts : scannedNumberRe lex = seq (notBehind (isBound lex))
        (seq (group 1 (scannedNumber lex))
          (seq (notAhead (digit lex)) (notAhead (seq separator (digit lex))))) := rfl
    rw [hparts, paths_notBehind_seq, paths_seq_assoc, paths_seq_notAhead, paths_seq_notAhead,
      List.filter_filter]
    simp only [paths, Bool.and_comm]
    rfl
  rw [hpaths]
  constructor
  · split
    · exact List.Pairwise.nil
    · exact ((longest_scannedNumber _).capture 1 left.length).filter _
  · intro d
    split
    · rename_i hbound
      constructor
      · intro h
        cases h
      · rintro ⟨w, post, -, hstanding, -⟩
        exact absurd hbound (bound_free_iff.mpr hstanding.left_free)
    · rename_i hbound
      rw [List.mem_filter, List.mem_map]
      constructor
      · rintro ⟨⟨e, he, rfl⟩, hok⟩
        obtain ⟨w, hw, ⟨post, rfl⟩, rfl⟩ := (spells_scannedNumber _ e).mp he
        rw [Cursor.capture_behind] at hok ⊢
        obtain ⟨hdigit, hfraction⟩ := ahead_free_iff.mp hok
        exact ⟨w, post, rfl, ⟨hw, bound_free_iff.mp hbound, hdigit, hfraction⟩, rfl⟩
      · rintro ⟨w, post, rfl, hstanding, rfl⟩
        have hread := (spells_scannedNumber ⟨left, w ++ post, []⟩ _).mpr
          ⟨w, hstanding.number, List.prefix_append _ _, rfl⟩
        refine ⟨⟨_, hread, Cursor.capture_behind _ _ _ _ _⟩, ?_⟩
        exact ahead_free_iff.mpr ⟨hstanding.no_digit, hstanding.no_fraction⟩

/-- A match of the group with this number. -/
def GroupIs (text : PyText) (m : Match) (w : PyText) : Prop := m.groupText text 1 = some w

/-- **The expression of a number finds the longest one that stands alone.** -/
theorem finds_scannedNumberRe : Finds (scannedNumberRe lex) GroupIs (NumberAt lex) := by
  constructor
  · intro left right m hm
    obtain ⟨hdesc, hmem⟩ := scannedNumberRe_paths left right
    obtain ⟨d, hhead, rfl⟩ := Option.map_eq_some_iff.mp hm
    obtain ⟨hd, hmax⟩ := hdesc.head?_eq_some_iff.mp hhead
    obtain ⟨w, post, rfl, hstanding, rfl⟩ := (hmem d).mp hd
    have hat : NumberAt lex left w post w := by
      refine ⟨rfl, hstanding, ?_⟩
      intro w' post' hsame hstanding'
      have hle := hmax _ ((hmem _).mpr ⟨w', post', hsame.symm, hstanding', rfl⟩)
      simp only [Cursor.pos, List.length_append, List.length_reverse] at hle
      omega
    refine ⟨w, post, w, rfl, numberWord_ne hstanding.number, rfl, ?_, hat, ?_⟩
    · simp only [Cursor.pos, List.length_append, List.length_reverse]
      omega
    · intro x hx
      rw [GroupIs, groupText_of_span rfl] at hx
      rw [← Option.some_inj.mp hx]
      exact hat
  · rintro left w post x ⟨rfl, hstanding, hmax⟩
    obtain ⟨hdesc, hmem⟩ := scannedNumberRe_paths left (x ++ post)
    have hhead := hdesc.head?_eq_some_iff.mpr ⟨(hmem _).mpr ⟨x, post, rfl, hstanding, rfl⟩, by
      intro e he
      obtain ⟨w', post', hsame, hstanding', rfl⟩ := (hmem e).mp he
      have hle := hmax w' post' hsame.symm hstanding'
      simp only [Cursor.pos, List.length_append, List.length_reverse]
      omega⟩
    refine ⟨numberWord_ne hstanding.number, ⟨left.length, _, _⟩,
      Option.map_eq_some_iff.mpr ⟨_, hhead, rfl⟩, rfl, ?_, groupText_of_span rfl⟩
    simp only [Cursor.pos, List.length_append, List.length_reverse]
    omega

/-! ## Ranges -/

/-- Digits, separators, and blanks with a digit behind them. -/
def Joined (lex : ValueLexicon) : PyText → Prop
  | [] => True
  | c :: w => (lex.isDecimal c ∨ c ∈ decimalSeparators ∨
      c = space ∧ ∃ d ∈ w.head?, lex.isDecimal d) ∧ Joined lex w

theorem Joined.of_append {u v : PyText} (h : Joined lex (u ++ v)) : Joined lex v := by
  induction u with
  | nil => exact h
  | cons c u ih => exact ih h.2

theorem Joined.digits {d w : PyText} (hd : DigitRun lex d) (h : Joined lex w) :
    Joined lex (d ++ w) := by
  induction d with
  | nil => exact h
  | cons c d ih =>
    exact ⟨.inl (hd c List.mem_cons_self), ih fun x hx => hd x (List.mem_cons_of_mem _ hx)⟩

theorem Joined.groups : ∀ {n : Nat} {groups w : PyText}, Words (GroupWord lex) n groups →
    Joined lex w → Joined lex (groups ++ w) := by
  intro n
  induction n with
  | zero =>
    intro groups w hgroups h
    rw [words_zero.mp hgroups]
    exact h
  | succ n ih =>
    intro groups w hgroups h
    obtain ⟨u, v, ⟨d, hd, hlen, rfl⟩, hv, rfl⟩ := words_succ.mp hgroups
    obtain ⟨x, d, rfl⟩ := List.exists_cons_of_length_eq_add_one hlen
    rw [List.append_assoc]
    refine ⟨.inr (.inr ⟨rfl, x, rfl, hd x List.mem_cons_self⟩), ?_⟩
    exact Joined.digits hd (ih hv h)

theorem NumberWord.joined {w : PyText} (h : NumberWord lex w) : Joined lex w := by
  obtain ⟨head, groups, frac, hhead, -, -, ⟨n, hgroups⟩, hfrac, rfl⟩ := h
  refine Joined.digits hhead (Joined.groups hgroups ?_)
  rcases hfrac with rfl | ⟨sep, f, hsep, hf, -, rfl⟩
  · trivial
  · refine ⟨.inr (.inl hsep), ?_⟩
    rw [← List.append_nil f]
    exact Joined.digits hf trivial

theorem NumberWord.head_decimal {w : PyText} (h : NumberWord lex w) :
    ∃ c rest, w = c :: rest ∧ lex.isDecimal c := by
  obtain ⟨head, groups, frac, hhead, hmin, -, -, -, rfl⟩ := h
  obtain ⟨c, rest, rfl⟩ := List.exists_cons_of_length_pos (l := head) (by omega)
  exact ⟨c, rest ++ (groups ++ frac), rfl, hhead c List.mem_cons_self⟩

/-- A dash or the word. -/
def Connector (conn : PyText) : Prop := DashConnector conn ∨ WordConnector conn

theorem connector_shape {conn : PyText} (h : Connector conn) :
    ∃ i j mid, conn = List.replicate i space ++ (mid ++ List.replicate j space) ∧ mid ≠ [] ∧
      ∀ c ∈ mid, c ∈ lit "-–—до" := by
  rcases h with ⟨i, j, dash, -, -, hdash, rfl⟩ | ⟨i, j, -, -, rfl⟩
  · refine ⟨i, j, [dash], rfl, List.cons_ne_nil _ _, ?_⟩
    intro c hc
    rw [List.mem_singleton.mp hc]
    have hmem := List.mem_append_left (lit "до") hdash
    exact hmem
  · refine ⟨i, j, lit "до", rfl, by decide, ?_⟩
    intro c hc
    have hmem := List.mem_append_right (lit "-–—") hc
    exact hmem

/-- What a connective is written with is no digit and no separator. -/
theorem connector_symbol {c : CodePoint} (h : c ∈ lit "-–—до") :
    lex.isDecimal c = false ∧ c ∉ decimalSeparators ∧ c ≠ space := by
  have hother : (lit "-–—до").all (fun c => c ∉ decimalSeparators ∧ c ≠ space) = true := by decide
  exact ⟨lex.connector_not_decimal c h, by simpa using List.all_eq_true.mp hother c h⟩

theorem connector_no_digit {conn : PyText} (h : Connector conn) :
    ∀ c ∈ conn, lex.isDecimal c = false := by
  obtain ⟨i, j, mid, rfl, -, hmid⟩ := connector_shape h
  intro c hc
  simp only [List.mem_append, List.mem_replicate] at hc
  rcases hc with ⟨-, rfl⟩ | hc | ⟨-, rfl⟩
  · exact space_not_decimal
  · exact (connector_symbol (hmid c hc)).1
  · exact space_not_decimal

/-- Nothing joins a number to a connective behind it. -/
theorem not_joined_connector {conn u r rest : PyText} (h : Connector conn) (hu : Joined lex u)
    (hsame : conn ++ r = u ++ rest) : u = [] := by
  obtain ⟨i, j, mid, rfl, hne, hmid⟩ := connector_shape h
  obtain ⟨x, mid, rfl⟩ := List.exists_cons_of_ne_nil hne
  obtain ⟨hdigit, hsep, hspace⟩ := @connector_symbol lex x (hmid x List.mem_cons_self)
  cases u with
  | nil => rfl
  | cons c u =>
    exfalso
    obtain ⟨hc, -⟩ := hu
    cases i with
    | zero =>
      obtain rfl : x = c := (List.cons_eq_cons.mp hsame).1
      rcases hc with hc | hc | ⟨hc, -⟩
      · rw [hdigit] at hc
        cases hc
      · exact hsep hc
      · exact hspace hc
    | succ i =>
      obtain ⟨rfl, htail⟩ := List.cons_eq_cons.mp hsame
      rcases hc with hc | hc | ⟨-, d, hd, hdec⟩
      · rw [space_not_decimal] at hc
        cases hc
      · exact (separator_not_space hc).2 rfl
      · obtain ⟨u, rfl⟩ := List.head?_eq_some_iff.mp hd
        -- behind the first blank there is a blank or the first symbol
        cases i with
        | zero =>
          obtain rfl : x = d := (List.cons_eq_cons.mp htail).1
          rw [hdigit] at hdec
          cases hdec
        | succ i =>
          obtain rfl : space = d := (List.cons_eq_cons.mp htail).1
          rw [space_not_decimal] at hdec
          cases hdec

/-- A number before a connective is as long as any number there. -/
theorem number_le_of_connector {w w' conn r post : PyText} (hw' : NumberWord lex w')
    (hconn : Connector conn) (hsame : w ++ (conn ++ r) = w' ++ post) : w'.length ≤ w.length := by
  by_contra hlt
  -- what a longer number has more would begin with the connective
  obtain ⟨u, rfl⟩ := List.prefix_of_prefix_length_le (List.prefix_append w (conn ++ r))
    (hsame ▸ List.prefix_append w' post) (by omega)
  rw [List.append_assoc, List.append_cancel_left_eq] at hsame
  rw [not_joined_connector hconn hw'.joined.of_append hsame, List.append_nil] at hlt
  omega

/-- A connective before a number is as long as any connective there. -/
theorem connector_le {conn conn' b r r' : PyText} (hconn' : Connector conn')
    (hb : NumberWord lex b) (hsame : conn ++ (b ++ r) = conn' ++ r') :
    conn'.length ≤ conn.length := by
  by_contra hlt
  -- a longer connective would hold the first digit of the number
  obtain ⟨x, hx, hnext⟩ := exists_next (List.prefix_append conn (b ++ r))
    (hsame ▸ List.prefix_append conn' r') (by omega)
  obtain ⟨c, rest, rfl, hc⟩ := hb.head_decimal
  rw [List.drop_left] at hnext
  obtain rfl : c = x := by simpa using hnext
  rw [connector_no_digit hconn' c hx] at hc
  cases hc

/-- A range, its parts, and what is behind it. -/
structure Parts (lex : ValueLexicon) (L : PyText → Prop) (right a conn b post : PyText) : Prop where
  text : right = a ++ (conn ++ (b ++ post))
  first : NumberWord lex a
  connector : L conn
  second : NumberWord lex b
  longest : ∀ b', NumberWord lex b' → b' <+: b ++ post → b'.length ≤ b.length

/-- **A place has one range.** -/
theorem Parts.unique {L L' : PyText → Prop} (hL : ∀ w, L w → Connector w)
    (hL' : ∀ w, L' w → Connector w) {right a conn b post a' conn' b' post' : PyText}
    (h : Parts lex L right a conn b post) (h' : Parts lex L' right a' conn' b' post') :
    a = a' ∧ conn = conn' ∧ b = b' ∧ post = post' := by
  have hsame := h.text.symm.trans h'.text
  obtain rfl : a = a' := by
    refine List.append_inj_left hsame ?_
    have hle := number_le_of_connector h'.first (hL _ h.connector) hsame
    have hge := number_le_of_connector h.first (hL' _ h'.connector) hsame.symm
    omega
  have hsame := List.append_cancel_left hsame
  obtain rfl : conn = conn' := by
    refine List.append_inj_left hsame ?_
    have hle := connector_le (hL' _ h'.connector) h.second hsame
    have hge := connector_le (hL _ h.connector) h'.second hsame.symm
    omega
  have hsame := List.append_cancel_left hsame
  obtain rfl : b = b' := by
    refine List.append_inj_left hsame ?_
    have hle := h.longest b' h'.second ⟨post', hsame.symm⟩
    have hge := h'.longest b h.second ⟨post, hsame⟩
    omega
  exact ⟨rfl, rfl, rfl, List.append_cancel_left hsame⟩

/-- The longest number that begins a text that one begins. -/
theorem exists_longest_number {b₀ l : PyText} (hb₀ : NumberWord lex b₀) (hpre : b₀ <+: l) :
    ∃ b post, l = b ++ post ∧ NumberWord lex b ∧
      ∀ b', NumberWord lex b' → b' <+: b ++ post → b'.length ≤ b.length := by
  have hmem := (spells_scannedNumber ⟨[], l, []⟩ _).mpr ⟨b₀, hb₀, hpre, rfl⟩
  obtain ⟨d, hhead⟩ : ∃ d, ((scannedNumber lex).paths ⟨[], l, []⟩).head? = some d := by
    cases hpaths : (scannedNumber lex).paths ⟨[], l, []⟩ with
    | nil =>
      rw [hpaths] at hmem
      cases hmem
    | cons d ds => exact ⟨d, rfl⟩
  obtain ⟨hd, hmax⟩ := (longest_scannedNumber _).head?_eq_some_iff.mp hhead
  obtain ⟨b, hb, ⟨post, rfl⟩, rfl⟩ := (spells_scannedNumber _ d).mp hd
  refine ⟨b, post, rfl, hb, ?_⟩
  intro b' hb' hpre'
  have hle := hmax _ ((spells_scannedNumber _ _).mpr ⟨b', hb', hpre', rfl⟩)
  simpa using hle

theorem scannedNumber_head {b post : PyText} (hb : NumberWord lex b)
    (hmax : ∀ b', NumberWord lex b' → b' <+: b ++ post → b'.length ≤ b.length) (left : PyText)
    (groups : List (Nat × Nat × Nat)) :
    ((scannedNumber lex).paths ⟨left, b ++ post, groups⟩).head? =
      some (Cursor.behind ⟨left, b ++ post, groups⟩ b) := by
  refine (longest_scannedNumber _).head?_eq_some_iff.mpr
    ⟨(spells_scannedNumber _ _).mpr ⟨b, hb, List.prefix_append _ _, rfl⟩, ?_⟩
  intro e he
  obtain ⟨b', hb', hpre', rfl⟩ := (spells_scannedNumber _ e).mp he
  have hle := hmax b' hb' hpre'
  rw [Cursor.behind_pos, Cursor.behind_pos]
  omega

section Branch

/-- A number, a connective and a number, in the groups `i` and `j`. -/
def rangeBranch (lex : ValueLexicon) (connector : Regex CodePoint) (i j : Nat) :
    Regex CodePoint :=
  seq (notBehind (isBound lex)) (seq (group i (scannedNumber lex))
    (seq connector (group j (scannedNumber lex))))

variable {connector : Regex CodePoint} {L : PyText → Prop} {i j : Nat}
  {left right a conn b post : PyText}

/-- Behind the parts of a range. -/
def rangeEnd (i j : Nat) (left a conn b post : PyText) : Cursor CodePoint :=
  let inner := conn.reverse ++ (a.reverse ++ left)
  ⟨b.reverse ++ inner, post, [(j, inner.length, inner.length + b.length),
    (i, left.length, left.length + a.length)]⟩

theorem rangeEnd_pos : (rangeEnd i j left a conn b post).pos =
    left.length + (a ++ (conn ++ b)).length := by
  simp only [rangeEnd, Cursor.pos, List.length_append, List.length_reverse]
  omega

/-- Behind a connective a number is read. -/
theorem exists_second {groups : List (Nat × Nat × Nat)}
    (h : (group j (scannedNumber lex)).paths ⟨left, right, groups⟩ ≠ []) :
    ∃ b post, NumberWord lex b ∧ right = b ++ post :=
  spells_scannedNumber.exists_of_ne_nil fun hnil => h (List.map_eq_nil_iff.mpr hnil)

/-- **A branch reads the range of a place.** -/
theorem rangeBranch_head (hspells : Spells connector L) (hL : ∀ w, L w → Connector w)
    (hfree : ∀ c ∈ left.head?, isBound lex c = false) (h : Parts lex L right a conn b post) :
    ((rangeBranch lex connector i j).paths ⟨left, right, []⟩).head? =
      some (rangeEnd i j left a conn b post) := by
  obtain ⟨rfl, ha, hconn, hb, hmax⟩ := h
  rw [rangeBranch, paths_notBehind_seq, if_neg (bound_free_iff.mpr hfree),
    spells_scannedNumber.head?_group_seq ha, hspells.head?_seq hconn, paths, List.head?_map,
    scannedNumber_head hb hmax, Option.map_some]
  · exact congrArg some (Cursor.capture_behind _ _ _ _ _)
  · -- a connective with a number behind it is as long as any
    intro conn' post' hconn' hsame hne
    obtain ⟨b', rest, hb', rfl⟩ := exists_second hne
    refine List.append_inj_left hsame ?_
    have hle := connector_le (hL _ hconn') hb hsame.symm
    have hge := connector_le (hL _ hconn) hb' hsame
    omega
  · -- and so is a number with a connective behind it
    intro a' post' ha' hsame hne
    obtain ⟨conn', rest, hconn', rfl, -⟩ := hspells.exists_of_seq_ne_nil hne
    refine List.append_inj_left hsame ?_
    have hle := number_le_of_connector ha' (hL _ hconn) hsame.symm
    have hge := number_le_of_connector ha (hL _ hconn') hsame
    omega

/-- Where a branch reads something there is a range. -/
theorem rangeBranch_parts (hspells : Spells connector L)
    (h : (rangeBranch lex connector i j).paths ⟨left, right, []⟩ ≠ []) :
    (∀ c ∈ left.head?, isBound lex c = false) ∧
      ∃ a conn b post, Parts lex L right a conn b post := by
  rw [rangeBranch, paths_notBehind_seq] at h
  split at h
  · exact absurd rfl h
  · rename_i hbound
    obtain ⟨a, rest, ha, rfl, hrest⟩ := spells_scannedNumber.exists_of_group_seq_ne_nil h
    obtain ⟨conn, second, hconn, rfl, hsecond⟩ := hspells.exists_of_seq_ne_nil hrest
    obtain ⟨b₀, rest, hb₀, rfl⟩ := exists_second hsecond
    obtain ⟨b, post, hsame, hb, hmax⟩ := exists_longest_number hb₀ (List.prefix_append b₀ rest)
    exact ⟨bound_free_iff.mp hbound, a, conn, b, post, by rw [hsame], ha, hconn, hb, hmax⟩

end Branch

/-! ## The expression of a range -/

def blanks3 : Regex CodePoint := many 0 (some 3) blank

def blanks1 : Regex CodePoint := many 1 none blank

def dashRe : Regex CodePoint := seq (seq blanks3 (anyOf "-–—")) blanks3

def wordRe : Regex CodePoint := seq (seq blanks1 (word (fun a b => a = b) (lit "до"))) blanks1

theorem spells_blanks (min : Nat) (extra : Option Nat) :
    Spells (many min extra blank) (fun w => ∃ n, min ≤ n ∧ (∀ e ∈ extra, n ≤ min + e) ∧
      w = List.replicate n space) := by
  refine (spells_run _ min extra).congr ?_
  intro w
  constructor
  · rintro ⟨hall, hmin, hmax⟩
    refine ⟨w.length, hmin, hmax, List.eq_replicate_iff.mpr ⟨rfl, ?_⟩⟩
    intro c hc
    simpa using hall c hc
  · rintro ⟨n, hmin, hmax, rfl⟩
    rw [List.length_replicate]
    refine ⟨?_, hmin, hmax⟩
    intro c hc
    simpa using List.eq_of_mem_replicate hc

theorem spells_dashRe : Spells dashRe DashConnector := by
  have hblanks := spells_blanks 0 (some 3)
  refine ((hblanks.seq (spells_symbol _)).seq hblanks).congr ?_
  intro w
  constructor
  · rintro ⟨u, v, ⟨u, u', ⟨m, -, hm, rfl⟩, ⟨dash, hdash, rfl⟩, rfl⟩, ⟨n, -, hn, rfl⟩, rfl⟩
    exact ⟨m, n, dash, by simpa using hm, by simpa using hn, List.contains_iff_mem.mp hdash,
      List.append_assoc _ _ _⟩
  · rintro ⟨m, n, dash, hm, hn, hdash, rfl⟩
    exact ⟨_, _, ⟨_, _, ⟨m, Nat.zero_le _, by simpa using hm, rfl⟩,
      ⟨dash, List.contains_iff_mem.mpr hdash, rfl⟩, rfl⟩,
      ⟨n, Nat.zero_le _, by simpa using hn, rfl⟩,
      by rw [List.append_assoc, List.singleton_append]⟩

theorem spells_wordRe : Spells wordRe WordConnector := by
  refine (((spells_blanks 1 none).seq (spells_word _)).seq (spells_blanks 1 none)).congr ?_
  intro w
  constructor
  · rintro ⟨u, v, ⟨u, u', ⟨m, hm, -, rfl⟩, rfl, rfl⟩, ⟨n, hn, -, rfl⟩, rfl⟩
    exact ⟨m, n, hm, hn, List.append_assoc _ _ _⟩
  · rintro ⟨m, n, hm, hn, rfl⟩
    exact ⟨_, _, ⟨_, _, ⟨m, hm, by simp, rfl⟩, rfl, rfl⟩, ⟨n, hn, by simp, rfl⟩,
      (List.append_assoc _ _ _).symm⟩

theorem scannedRangeRe_paths (c : Cursor CodePoint) :
    (scannedRangeRe lex).paths c =
      (rangeBranch lex dashRe 1 2).paths c ++ (rangeBranch lex wordRe 3 4).paths c := by
  have hassoc : ∀ (r s t u : Regex CodePoint),
      (seq r (seq s (seq t u))).paths = (seq (seq (seq r s) t) u).paths := by
    intro r s t u
    funext c
    rw [paths_seq_assoc, paths_seq_assoc]
  have hbranch : ∀ (r s t : Regex CodePoint) (i j : Nat),
      (seqs [notBehind (isBound lex), group i (scannedNumber lex), r, s, t,
        group j (scannedNumber lex)]).paths = (rangeBranch lex (seq (seq r s) t) i j).paths := by
    intro r s t i j
    exact paths_seq_congr (paths_seq_congr (hassoc r s t _))
  rw [scannedRangeRe, paths, hbranch, hbranch]
  rfl

/-- A match of the groups of a branch with these numbers. -/
def RangeIs (text : PyText) (m : Match) (x : PyText × PyText) : Prop :=
  ∃ groups ∈ [(1, 2), (3, 4)], m.groupText text groups.1 = some x.1 ∧
    m.groupText text groups.2 = some x.2

theorem dash_not_word {conn : PyText} (h : DashConnector conn) : ¬ WordConnector conn := by
  obtain ⟨i, j, dash, -, -, hdash, rfl⟩ := h
  rintro ⟨m, n, -, -, hsame⟩
  have hletter : CodePoint.ofChar 'о' ∈
      List.replicate i space ++ dash :: List.replicate j space := by
    rw [hsame]
    exact List.mem_append_right _ (List.mem_append_left _ (by decide))
  have hspace : CodePoint.ofChar 'о' ≠ space := by decide
  rcases List.mem_append.mp hletter with hmem | hmem
  · exact hspace (List.eq_of_mem_replicate hmem)
  · rcases List.mem_cons.mp hmem with rfl | hmem
    · revert hdash
      decide
    · exact hspace (List.eq_of_mem_replicate hmem)

/-- The texts of the two groups of a branch. -/
theorem rangeEnd_groups (i j : Nat) (hij : j ≠ i) (left a conn b post : PyText) (start stop : Nat) :
    let m : Match := ⟨start, stop, (rangeEnd i j left a conn b post).groups⟩
    let text := left.reverse ++ (a ++ (conn ++ (b ++ post)))
    m.groupText text i = some a ∧ m.groupText text j = some b := by
  intro m text
  constructor
  · refine groupText_of_span ?_
    have hne : (i == j) = false := beq_false_of_ne hij.symm
    simp only [Match.span, m, rangeEnd, List.lookup, hne, BEq.rfl]
  · have htext : text = (conn.reverse ++ (a.reverse ++ left)).reverse ++ (b ++ post) := by
      rw [text_moved, text_moved]
    rw [htext]
    refine groupText_of_span ?_
    simp only [Match.span, m, rangeEnd, List.lookup, BEq.rfl]

/-- The groups of the other branch are absent. -/
theorem rangeEnd_other (i j k : Nat) (hi : k ≠ i) (hj : k ≠ j) (left a conn b post text : PyText)
    (start stop : Nat) :
    (⟨start, stop, (rangeEnd i j left a conn b post).groups⟩ : Match).groupText text k = none := by
  simp only [Match.groupText, Match.span, rangeEnd, List.lookup, beq_false_of_ne hi,
    beq_false_of_ne hj, Option.map_none]

section Range

variable {left right a conn b post : PyText}

theorem Parts.weaken {L M : PyText → Prop} (h : Parts lex L right a conn b post) (hM : M conn) :
    Parts lex M right a conn b post := ⟨h.text, h.first, hM, h.second, h.longest⟩

theorem scannedRangeRe_head (hfree : ∀ c ∈ left.head?, isBound lex c = false)
    (h : Parts lex Connector right a conn b post) :
    ∃ g ∈ [(1, 2), (3, 4)], ((scannedRangeRe lex).paths ⟨left, right, []⟩).head? =
      some (rangeEnd g.1 g.2 left a conn b post) := by
  rw [scannedRangeRe_paths]
  rcases h.connector with hdash | hword
  · refine ⟨(1, 2), by simp, ?_⟩
    rw [List.head?_append, rangeBranch_head spells_dashRe (fun _ => .inl) hfree (h.weaken hdash),
      Option.some_or]
  · refine ⟨(3, 4), by simp, ?_⟩
    -- the first branch reads nothing: its connective would be the word
    have hnil : (rangeBranch lex dashRe 1 2).paths ⟨left, right, []⟩ = [] := by
      by_contra hne
      obtain ⟨-, a', conn', b', post', hparts⟩ := rangeBranch_parts spells_dashRe hne
      obtain ⟨-, rfl, -, -⟩ := h.unique (fun _ => id) (fun _ => .inl) hparts
      exact dash_not_word hparts.connector hword
    rw [hnil, List.nil_append]
    exact rangeBranch_head spells_wordRe (fun _ => .inr) hfree (h.weaken hword)

theorem scannedRangeRe_parts (h : (scannedRangeRe lex).paths ⟨left, right, []⟩ ≠ []) :
    (∀ c ∈ left.head?, isBound lex c = false) ∧
      ∃ a conn b post, Parts lex Connector right a conn b post := by
  rw [scannedRangeRe_paths, ne_eq, List.append_eq_nil_iff, not_and_or] at h
  rcases h with hdash | hword
  · obtain ⟨hfree, a, conn, b, post, hparts⟩ := rangeBranch_parts spells_dashRe hdash
    exact ⟨hfree, a, conn, b, post, hparts.weaken (.inl hparts.connector)⟩
  · obtain ⟨hfree, a, conn, b, post, hparts⟩ := rangeBranch_parts spells_wordRe hword
    exact ⟨hfree, a, conn, b, post, hparts.weaken (.inr hparts.connector)⟩

/-- What the groups of a match of a range are. -/
theorem rangeIs_iff {g : Nat × Nat} (hg : g ∈ [(1, 2), (3, 4)]) {start stop : Nat}
    {x : PyText × PyText} :
    RangeIs (left.reverse ++ (a ++ (conn ++ (b ++ post))))
      ⟨start, stop, (rangeEnd g.1 g.2 left a conn b post).groups⟩ x ↔ x = (a, b) := by
  have hother : ∀ g' ∈ [(1, 2), (3, 4)], g' ≠ g → g'.1 ≠ g.1 ∧ g'.1 ≠ g.2 := by
    revert g
    decide
  have hne : g.2 ≠ g.1 := by
    revert g
    decide
  obtain ⟨hfirst, hsecond⟩ := rangeEnd_groups g.1 g.2 hne left a conn b post start stop
  constructor
  · rintro ⟨g', hg', hx⟩
    by_cases hsame : g' = g
    · rw [hsame, hfirst, hsecond] at hx
      exact Prod.ext (Option.some_inj.mp hx.1).symm (Option.some_inj.mp hx.2).symm
    · obtain ⟨hi, hj⟩ := hother g' hg' hsame
      rw [rangeEnd_other _ _ _ hi hj] at hx
      cases hx.1
  · rintro rfl
    exact ⟨g, hg, hfirst, hsecond⟩

/-- **The expression of a range finds the range of a place.** -/
theorem finds_scannedRangeRe : Finds (scannedRangeRe lex) RangeIs (RangeAt lex) := by
  have hread : ∀ {left a conn b post : PyText}, (∀ c ∈ left.head?, isBound lex c = false) →
      Parts lex Connector (a ++ (conn ++ (b ++ post))) a conn b post →
      a ++ (conn ++ b) ≠ [] ∧ RangeAt lex left (a ++ (conn ++ b)) post (a, b) ∧
      ∃ m, (scannedRangeRe lex).matchAt left (a ++ (conn ++ (b ++ post))) = some m ∧
        m.start = left.length ∧ m.stop = left.length + (a ++ (conn ++ b)).length ∧
        ∀ x, RangeIs (left.reverse ++ (a ++ (conn ++ (b ++ post)))) m x ↔ x = (a, b) := by
    intro left a conn b post hfree hparts
    obtain ⟨g, hg, hhead⟩ := scannedRangeRe_head hfree hparts
    refine ⟨List.append_ne_nil_of_left_ne_nil (numberWord_ne hparts.first) _,
      ⟨conn, rfl, hfree, hparts.first, hparts.connector, hparts.second, hparts.longest⟩,
      _, Option.map_eq_some_iff.mpr ⟨_, hhead, rfl⟩, rfl, rangeEnd_pos, fun x => rangeIs_iff hg⟩
  constructor
  · intro left right m hm
    obtain ⟨d, hhead, -⟩ := Option.map_eq_some_iff.mp hm
    obtain ⟨hfree, a, conn, b, post, hparts⟩ :=
      scannedRangeRe_parts (List.ne_nil_of_mem (List.mem_of_head? hhead))
    obtain rfl := hparts.text
    obtain ⟨hne, hat, m', hm', hstart, hstop, his⟩ := hread hfree hparts
    obtain rfl : m' = m := Option.some_inj.mp (hm'.symm.trans hm)
    refine ⟨a ++ (conn ++ b), post, (a, b), ?_, hne, hstart, hstop, hat, ?_⟩
    · rw [List.append_assoc, List.append_assoc]
    · intro x hx
      rw [(his x).mp hx]
      exact hat
  · rintro left w post ⟨a, b⟩ ⟨conn, rfl, hfree, ha, hconn, hb, hmax⟩
    obtain ⟨hne, -, m, hm, hstart, hstop, his⟩ := hread hfree ⟨rfl, ha, hconn, hb, hmax⟩
    have htext : (a ++ (conn ++ b)) ++ post = a ++ (conn ++ (b ++ post)) := by
      rw [List.append_assoc, List.append_assoc]
    refine ⟨hne, m, ?_, hstart, hstop, ?_⟩
    · rw [htext]
      exact hm
    · rw [htext]
      exact (his _).mpr rfl

end Range

end Reading

/-! ## The places of the values -/

section Places

variable {F : Type} [DecidableEq F] {lex : ValueLexicon} {float : PyText → Option F}
  {matchValues : Finset PyText} {text : PyText}

/-- A range that is one of the values, or has one of them as an end. -/
def RangeCounts (float : PyText → Option F) (matchValues : Finset PyText)
    (x : PyText × PyText) : Prop :=
  let pair := (tokenValue float x.1, tokenValue float x.2)
  pair.1 ≠ none ∧ pair.2 ≠ none ∧ (pair ∈ rangePairs float matchValues ∨
    pair.1 ∈ floatSingles float matchValues ∨ pair.2 ∈ floatSingles float matchValues)

theorem exists_span {m : Match} {i : Nat} {w : PyText} (h : m.groupText text i = some w) :
    ∃ s, m.span i = some s := by
  obtain ⟨s, hs, -⟩ := Option.map_eq_some_iff.mp h
  exact ⟨s, hs⟩

theorem rangeSpan_isSome_iff {m : Match} {i j : Nat} :
    (rangeSpan float matchValues text m i j).isSome ↔ ∃ x : PyText × PyText,
      m.groupText text i = some x.1 ∧ m.groupText text j = some x.2 ∧
        RangeCounts float matchValues x := by
  constructor
  · intro h
    obtain ⟨s, hs⟩ := Option.isSome_iff_exists.mp h
    simp only [rangeSpan, Option.bind_eq_bind, Option.bind_eq_some_iff] at hs
    obtain ⟨_, -, _, -, left, hleft, right, hright, hs⟩ := hs
    refine ⟨(left, right), hleft, hright, ?_⟩
    split at hs
    · cases hs
    · rename_i hpresent
      obtain ⟨hne, hne'⟩ := not_or.mp hpresent
      refine ⟨hne, hne', ?_⟩
      split_ifs at hs with hpair hfirst hsecond
      · exact .inl hpair
      · exact .inr (.inl hfirst)
      · exact .inr (.inr hsecond)
  · rintro ⟨⟨left, right⟩, hleft, hright, hne, hne', hcounts⟩
    obtain ⟨s, hs⟩ := exists_span hleft
    obtain ⟨s', hs'⟩ := exists_span hright
    simp only [rangeSpan, hs, hs', hleft, hright, Option.bind_eq_bind, Option.bind_some]
    rw [if_neg (not_or.mpr ⟨hne, hne'⟩)]
    split_ifs with hpair hfirst hsecond
    · rfl
    · rfl
    · rfl
    · exact absurd hcounts (not_or.mpr ⟨hpair, not_or.mpr ⟨hfirst, hsecond⟩⟩)

theorem anchorSpans_ne_nil_iff : anchorSpans lex float matchValues text ≠ [] ↔
    (∃ m ∈ (scannedNumberRe lex).findAll text, ∃ w, GroupIs text m w ∧
        tokenValue float w ∈ floatSingles float matchValues) ∨
      ∃ m ∈ (scannedRangeRe lex).findAll text, ∃ x, RangeIs text m x ∧
        RangeCounts float matchValues x := by
  have hsorted : ∀ (l : List (Nat × Nat)) (le : Nat × Nat → Nat × Nat → Bool),
      l.dedup.mergeSort le ≠ [] ↔ ∃ s, s ∈ l := by
    intro l le
    constructor
    · intro hne
      obtain ⟨s, hs⟩ := List.exists_mem_of_ne_nil _ hne
      exact ⟨s, List.mem_dedup.mp (List.mem_mergeSort.mp hs)⟩
    · rintro ⟨s, hs⟩
      exact List.ne_nil_of_mem (List.mem_mergeSort.mpr (List.mem_dedup.mpr hs))
  rw [anchorSpans, hsorted]
  simp only [List.mem_append, exists_or]
  refine or_congr ?_ ?_
  · constructor
    · rintro ⟨s, hs⟩
      obtain ⟨m, hm, hs⟩ := List.mem_filterMap.mp hs
      split_ifs at hs with hany
      obtain ⟨w, hw, hcounts⟩ := (Option.any_eq_true _ _).mp hany
      exact ⟨m, hm, w, hw, by simpa using hcounts⟩
    · rintro ⟨m, hm, w, hw, hcounts⟩
      refine ⟨(m.start, m.stop), List.mem_filterMap.mpr ⟨m, hm, if_pos ?_⟩⟩
      rw [show m.groupText text 1 = some w from hw]
      simpa using hcounts
  · constructor
    · rintro ⟨s, hs⟩
      obtain ⟨m, hm, hs⟩ := List.mem_flatMap.mp hs
      obtain ⟨g, hg, hs⟩ := List.mem_filterMap.mp hs
      obtain ⟨x, hleft, hright, hcounts⟩ :=
        rangeSpan_isSome_iff.mp (Option.isSome_iff_exists.mpr ⟨s, hs⟩)
      exact ⟨m, hm, x, ⟨g, hg, hleft, hright⟩, hcounts⟩
    · rintro ⟨m, hm, x, ⟨g, hg, hleft, hright⟩, hcounts⟩
      obtain ⟨s, hs⟩ := Option.isSome_iff_exists.mp
        (rangeSpan_isSome_iff.mpr ⟨x, hleft, hright, hcounts⟩)
      exact ⟨s, List.mem_flatMap.mpr ⟨m, hm, List.mem_filterMap.mpr ⟨g, hg, hs⟩⟩⟩

/-- One of the values is met reading the text from the left. -/
def ValueMet (lex : ValueLexicon) (float : PyText → Option F) (matchValues : Finset PyText)
    (text : PyText) : Prop :=
  (∃ w, Met (NumberAt lex) [] text w ∧ tokenValue float w ∈ floatSingles float matchValues) ∨
    ∃ x, Met (RangeAt lex) [] text x ∧ RangeCounts float matchValues x

theorem anchorSpans_ne_nil_iff_met :
    anchorSpans lex float matchValues text ≠ [] ↔ ValueMet lex float matchValues text := by
  rw [anchorSpans_ne_nil_iff, ValueMet]
  constructor
  · rintro (⟨m, hm, w, hw, hcounts⟩ | ⟨m, hm, x, hx, hcounts⟩)
    · exact .inl ⟨w, finds_scannedNumberRe.findAll_iff.mp ⟨m, hm, hw⟩, hcounts⟩
    · exact .inr ⟨x, finds_scannedRangeRe.findAll_iff.mp ⟨m, hm, hx⟩, hcounts⟩
  · rintro (⟨w, hmet, hcounts⟩ | ⟨x, hmet, hcounts⟩)
    · obtain ⟨m, hm, hw⟩ := finds_scannedNumberRe.findAll_iff.mpr hmet
      exact .inl ⟨m, hm, w, hw, hcounts⟩
    · obtain ⟨m, hm, hx⟩ := finds_scannedRangeRe.findAll_iff.mpr hmet
      exact .inr ⟨m, hm, x, hx, hcounts⟩

end Places

end Noezema.Cognition.ValueAnchors
