import Noezema.Lib.CodePoints
import Noezema.Lib.Regex

/-! # Duplicates by value

A claim that the curator proposes without naming an existing one may write down a value that a
claim of the context pack has already. The host then turns the operation into a reverification
of that claim (`findIdenticalStatementDuplicates`, `findValueDuplicates`), and the card folds two
recorded claims of one value (`valueDuplicatePair`).

The gate asks that the period of the operation is a subset of that of the claim. The card and the
branch of the parentheses ask only that it is no proper superset, so they take periods of which
neither contains the other (`periodsCovered_iff`).
-/

namespace Noezema.Cognition.ValueDuplicate

open Noezema.Lib Noezema.Lib.Regex PyText

/-- What the gate uses of Unicode, of floats and of the tables of words. -/
structure Lexicon where
  /-- `\d`. -/
  isDecimal : CodePoint → Bool
  /-- `repr(float(token))`, none where there is no finite value. -/
  floatRepr : PyText → Option PyText
  /-- The words of letters of a statement in its normal form. -/
  letterWords : PyText → List PyText
  lower : PyText → PyText
  /-- A word that names the value, the period or the source, and no indicator. -/
  serviceWord : PyText → Bool
  /-- The months that a statement names by a word. -/
  namedMonthNumbers : PyText → Finset Nat

structure ValueDuplicateClaim where
  index : Nat
  statement : PyText
  claimType : String
  asOfYear : Option Nat
  hasSupportLink : Bool
  hasCounterLink : Bool
  metric : Option PyText := none

structure ValueDuplicateCandidate where
  claimId : String
  statement : PyText
  claimType : String
  asOfYear : Option Nat
  relied : Bool := false
  metric : Option PyText := none
  createdAt : Option Int := none

def isAsciiDigit (c : CodePoint) : Bool := 48 ≤ c.val ∧ c.val ≤ 57

def isOneOf (s : String) (c : CodePoint) : Bool := (lit s).contains c

section Statement

variable (lex : Lexicon)

/-! ## Values and years of a statement -/

def digits : Regex CodePoint := many 1 none (symbol lex.isDecimal)

def valueTokenRe : Regex CodePoint :=
  seqs [notBehind isAsciiDigit,
    group 1 (seq (digits lex) (many 1 none (seq (symbol (isOneOf ".,")) (digits lex)))),
    notAhead (symbol isAsciiDigit)]

def rangeTokenRe : Regex CodePoint :=
  let bound : CodePoint → Bool := fun c => isAsciiDigit c || isOneOf ".," c
  let spaces := many 0 none (symbol CodePoint.isSpace)
  seqs [notBehind bound, group 1 (digits lex), spaces, symbol (isOneOf "–—-"), spaces,
    group 2 (digits lex), notAhead (symbol bound), spaces,
    alt (symbol (isOneOf "%")) (word (fun a b => a = b) (lit "п.п."))]

def yearTokenRe : Regex CodePoint :=
  let digit := symbol isAsciiDigit
  seqs [notBehind lex.isDecimal,
    group 1 (alt (seqs [symbol (isOneOf "1"), digit, digit, digit])
      (seqs [symbol (isOneOf "2"), symbol (isOneOf "0"), digit, digit])),
    notAhead (symbol lex.isDecimal)]

def canonicalValue (token : PyText) : Option PyText :=
  lex.floatRepr (token.map fun c => if isOneOf "," c then CodePoint.ofChar '.' else c)

/-- The values of a statement; none where one of its tokens cannot be read. -/
def statementValues (statement : PyText) : Finset PyText :=
  let tokens := ((valueTokenRe lex).findAll statement).filterMap (·.groupText statement 1) ++
    ((rangeTokenRe lex).findAll statement).flatMap fun m =>
      [m.groupText statement 1, m.groupText statement 2].filterMap fun g => g
  match tokens.mapM (canonicalValue lex) with
  | some values => values.toFinset
  | none => ∅

/-- The years of a statement, where its values are taken out. -/
def statementYears (statement : PyText) : Finset Nat :=
  let masked := (valueTokenRe lex).sub (fun _ => lit " ") statement
  (((yearTokenRe lex).findAll masked).filterMap fun m => (m.groupText masked 1).map fun year =>
    year.foldl (fun n c => 10 * n + (c.val - 48)) 0).toFinset

def period (statement : PyText) (asOfYear : Option Nat) : Finset Nat :=
  statementYears lex statement ∪ asOfYear.toFinset

/-! ## The indicator of a statement -/

def indicatorStemLen : Nat := 5

def startsWithAny (starts : List PyText) (w : PyText) : Bool := starts.any (·.isPrefixOf w)

def territoryGroups : List (List PyText) :=
  [["росси", "россий"], ["сша", "амери"], ["европ", "евроз"], ["миров", "глоба"],
    ["белару", "белорус"], ["казах"], ["украи"], ["кита"], ["турц"], ["герман"], ["инди"],
    ["япон"]].map (·.map lit)

def indicatorQualifierGroups : List (List PyText) :=
  [["наблюдаем", "воспринимаем", "наблюда", "ощуща", "оцен"],
    ["ожидани", "ожидаем", "ожидающ"]].map (·.map lit)

def indicatorRespondentGroups : List (List PyText) :=
  [["насел", "гражд", "домохозяй"], ["предпр", "бизнес", "компани"]].map (·.map lit)

def indicatorHorizonMarkers : List PyText := ["вперед", "горизонт"].map lit

def horizonScaleExclusions : List PyText := ["город"].map lit

def indicatorHorizonScales : List (List PyText) :=
  [["год"], ["лет", "пятилет", "десятилет"]].map (·.map lit)

def indicatorTokens (statement : PyText) : List PyText :=
  ((lex.letterWords statement).map lex.lower).filter fun w => 3 ≤ w.length && !lex.serviceWord w

def statementIndicatorWords (statement : PyText) : Finset PyText :=
  ((indicatorTokens lex statement).map (·.take indicatorStemLen)).toFinset

def differentiatorWords (statement : PyText) : List PyText :=
  ((lex.letterWords statement).filter (3 ≤ ·.length)).map lex.lower

/-- The words that name one of the groups. -/
def namedWords (groups : List (List PyText)) (words : List PyText) : List PyText :=
  words.filter fun w => groups.any (startsWithAny · w)

def groupIds (groups : List (List PyText)) (words : List PyText) : Finset Nat :=
  ((groups.zipIdx.filter fun g => words.any (startsWithAny g.1)).map (·.2)).toFinset

def horizonScaleGroup (w : PyText) : Option Nat :=
  if startsWithAny horizonScaleExclusions w then none
  else indicatorHorizonScales.findIdx? (startsWithAny · w)

/-- A marker of a horizon and the scale right beside it. -/
def horizonPair (word other : PyText) : List PyText :=
  if startsWithAny indicatorHorizonMarkers word && !startsWithAny indicatorHorizonMarkers other &&
      (horizonScaleGroup other).isSome then [word, other] else []

def indicatorHorizonWords (statement : PyText) : List PyText :=
  let words := differentiatorWords lex statement
  (words.zip words.tail).flatMap fun p => horizonPair p.1 p.2 ++ horizonPair p.2 p.1

def indicatorHorizonGroupIds (words : List PyText) : Finset Nat :=
  (words.filterMap horizonScaleGroup).toFinset

/-- Both statements name something, and nothing in common. -/
def conflict (ids : List PyText → Finset Nat) (left right : List PyText) : Bool :=
  !left.isEmpty && !right.isEmpty && decide (ids left ∩ ids right = ∅)

inductive IndicatorDetail where
  | declaredMetric
  | noVocabulary
  | territories | qualifiers | respondents | horizons
  | overlap (shared union : Nat)
deriving DecidableEq

structure IndicatorCheck where
  matched : Bool
  detail : IndicatorDetail

/-- Whether the indicator is the same: by the declared metrics, else by the vocabularies. -/
def indicatorCheck (claim candidate : PyText) (claimMetric candidateMetric : Option PyText) :
    IndicatorCheck :=
  match claimMetric, candidateMetric with
  | some m, some m' => ⟨decide (m = m'), .declaredMetric⟩
  | _, _ =>
    let words := statementIndicatorWords lex claim
    let words' := statementIndicatorWords lex candidate
    let named := fun groups tokens => namedWords groups (tokens lex claim)
    let named' := fun groups tokens => namedWords groups (tokens lex candidate)
    if words = ∅ ∨ words' = ∅ then ⟨false, .noVocabulary⟩
    else if conflict (groupIds territoryGroups) (named territoryGroups indicatorTokens)
        (named' territoryGroups indicatorTokens) then ⟨false, .territories⟩
    else if conflict (groupIds indicatorQualifierGroups)
        (named indicatorQualifierGroups differentiatorWords)
        (named' indicatorQualifierGroups differentiatorWords) then ⟨false, .qualifiers⟩
    else if conflict (groupIds indicatorRespondentGroups)
        (named indicatorRespondentGroups differentiatorWords)
        (named' indicatorRespondentGroups differentiatorWords) then ⟨false, .respondents⟩
    else if conflict indicatorHorizonGroupIds (indicatorHorizonWords lex claim)
        (indicatorHorizonWords lex candidate) then ⟨false, .horizons⟩
    else
      let shared := (words ∩ words').card
      let union := (words ∪ words').card
      -- a share of 3/5 at least
      ⟨decide (3 * union ≤ 5 * shared), .overlap shared union⟩

/-! ## The pair of the card -/

def monthsConflict (op candidate : Finset Nat) : Bool :=
  decide (op ≠ ∅) && decide (candidate ≠ ∅) && decide (op ∩ candidate = ∅)

/-- The card folds the later claim `op` into the earlier one. -/
def valueDuplicatePair (opClaimType : String) (opStatement : PyText) (opAsOfYear : Option Nat)
    (candidateClaimType : String) (candidateStatement : PyText) (candidateAsOfYear : Option Nat)
    (opMetric candidateMetric : Option PyText) : Bool :=
  if statementValues lex opStatement = ∅ then false
  else if opClaimType ≠ candidateClaimType then false
  else if ¬ statementValues lex opStatement ⊆ statementValues lex candidateStatement then false
  else if period lex opStatement opAsOfYear = ∅ then false
  else if period lex candidateStatement candidateAsOfYear ⊂ period lex opStatement opAsOfYear then
    false
  else (indicatorCheck lex opStatement candidateStatement opMetric candidateMetric).matched

end Statement

/-! ## Decisions of the gate -/

inductive DuplicateAction where
  | kept | reverified
deriving DecidableEq

/-- By which likeness the claim was found. -/
inductive Likeness where
  | byteIdentical | parenthetical | value
deriving DecidableEq

inductive DuplicateReason where
  | several (likeness : Likeness) (claimIds : List String)
  | periodNotCovered (likeness : Likeness)
  | monthsApart (likeness : Likeness)
  | otherIndicator (likeness : Likeness) (detail : IndicatorDetail)
  | counterLinks (likeness : Likeness)
  | noSupport (likeness : Likeness)
  | converted (likeness : Likeness)
  /-- The candidates are duplicates of each other, and the earliest is the anchor. -/
  | cluster (claimIds : List String)
deriving DecidableEq

structure DuplicateDecision where
  claimIndex : Nat
  action : DuplicateAction
  target : Option String
  reason : DuplicateReason
deriving DecidableEq

namespace ValueDuplicateClaim

def kept (claim : ValueDuplicateClaim) (reason : DuplicateReason) : DuplicateDecision :=
  ⟨claim.index, .kept, none, reason⟩

def reverified (claim : ValueDuplicateClaim) (target : ValueDuplicateCandidate)
    (reason : DuplicateReason) : DuplicateDecision :=
  ⟨claim.index, .reverified, some target.claimId, reason⟩

end ValueDuplicateClaim

/-! ## Statements that differ in parentheses -/

/-- What stands outside of the parentheses, none where they are not balanced. -/
def outsideParentheses : Nat → PyText → Option PyText
  | depth, c :: rest =>
    if isOneOf "(" c then outsideParentheses (depth + 1) rest
    else if isOneOf ")" c then
      if depth = 0 then none else outsideParentheses (depth - 1) rest
    else if depth = 0 then (outsideParentheses depth rest).map (c :: ·)
    else outsideParentheses depth rest
  | depth, [] => if depth = 0 then some [] else none

def withoutParentheticals (statement : PyText) : Option PyText :=
  (outsideParentheses 0 statement).map fun kept =>
    let spaces := many 1 none (symbol CodePoint.isSpace)
    let collapsed := strip (spaces.sub (fun _ => lit " ") kept)
    (seq spaces (group 1 (symbol (isOneOf ",.!?;:")))).sub
      (fun m => (m.groupText collapsed 1).getD []) collapsed

section Gate

variable (lex : Lexicon)

def claimPeriod (claim : ValueDuplicateClaim) : Finset Nat :=
  period lex claim.statement claim.asOfYear

def candidatePeriod (candidate : ValueDuplicateCandidate) : Finset Nat :=
  period lex candidate.statement candidate.asOfYear

/-- The month words of the two conflict. -/
def monthsApart (op candidate : PyText) : Bool :=
  monthsConflict (lex.namedMonthNumbers op) (lex.namedMonthNumbers candidate)

/-- The claim of another type whose statement is the same outside of its parentheses. -/
def likeOutside (claim : ValueDuplicateClaim) (bare : PyText) (c : ValueDuplicateCandidate) :
    Bool := decide (c.claimType ≠ claim.claimType) &&
  decide (withoutParentheticals c.statement = some bare)

/-- The decision on the one claim whose statement is the same outside of its parentheses. -/
def relabel (claim : ValueDuplicateClaim) (target : ValueDuplicateCandidate) :
    Option DuplicateDecision :=
  if claim.hasCounterLink then some (claim.kept (.counterLinks .parenthetical))
  else if !claim.hasSupportLink then some (claim.kept (.noSupport .parenthetical))
  else if statementValues lex claim.statement = ∅ ∨
      statementValues lex claim.statement ≠ statementValues lex target.statement then none
  else if claimPeriod lex claim = ∅ ∨ candidatePeriod lex target ⊂ claimPeriod lex claim then
    some (claim.kept (.periodNotCovered .parenthetical))
  else if monthsApart lex claim.statement target.statement then
    some (claim.kept (.monthsApart .parenthetical))
  else
    let check := indicatorCheck lex claim.statement target.statement claim.metric target.metric
    if !check.matched then some (claim.kept (.otherIndicator .parenthetical check.detail))
    else some (claim.reverified target (.converted .parenthetical))

def relabelAfterParentheticals (claim : ValueDuplicateClaim)
    (ordered : List ValueDuplicateCandidate) : Option DuplicateDecision :=
  (withoutParentheticals claim.statement).bind fun bare =>
    match ordered.filter (likeOutside claim bare) with
    | [] => none
    | [target] => relabel lex claim target
    | several => some (claim.kept (.several .parenthetical (several.map (·.claimId))))

/-- The decision on claims with the same text, byte by byte. -/
def identicalText (claim : ValueDuplicateClaim) (sameText : List ValueDuplicateCandidate) :
    Option DuplicateDecision :=
  if sameText.any (·.claimType = claim.claimType) then none
  else match sameText with
    | [] => none
    | [target] =>
      some (if claim.hasCounterLink then claim.kept (.counterLinks .byteIdentical)
        else if !claim.hasSupportLink then claim.kept (.noSupport .byteIdentical)
        else claim.reverified target (.converted .byteIdentical))
    | several => some (claim.kept (.several .byteIdentical (several.map (·.claimId))))

def identicalStatementDecision (claim : ValueDuplicateClaim)
    (ordered : List ValueDuplicateCandidate) : Option DuplicateDecision :=
  if claim.statement = [] then none
  else
    let sameText := ordered.filter (·.statement = claim.statement)
    if sameText = [] then relabelAfterParentheticals lex claim ordered
    else identicalText claim sameText

def findIdenticalStatementDuplicates (claims : List ValueDuplicateClaim)
    (candidates : List ValueDuplicateCandidate) : List DuplicateDecision :=
  claims.filterMap fun claim =>
    identicalStatementDecision lex claim (candidates.insertionSort fun a b => a.claimId ≤ b.claimId)

/-! ## Statements with the same values -/

/-- The record that was made first; those without a date come after all others. -/
def clusterAnchor (members : List ValueDuplicateCandidate) : Option ValueDuplicateCandidate :=
  let dated := members.filter (·.createdAt.isSome)
  if dated.isEmpty then (members.insertionSort fun a b => a.claimId ≤ b.claimId).head?
  else (dated.insertionSort fun a b =>
    toLex (a.createdAt.getD 0, a.claimId) ≤ toLex (b.createdAt.getD 0, b.claimId)).head?

/-- The earlier record of the card would take the later one. -/
def mergeInto (candidate target : ValueDuplicateCandidate) : Bool :=
  valueDuplicatePair lex candidate.claimType candidate.statement candidate.asOfYear
    target.claimType target.statement target.asOfYear candidate.metric target.metric

def clusterPair (anchor member : ValueDuplicateCandidate) : Bool :=
  !monthsApart lex anchor.statement member.statement &&
    match anchor.createdAt, member.createdAt with
    | some t, some t' => if t ≤ t' then mergeInto lex member anchor else mergeInto lex anchor member
    | _, _ => mergeInto lex member anchor && mergeInto lex anchor member

/-- The candidate that the operation is compared with. -/
inductive Choice where
  | target (candidate : ValueDuplicateCandidate)
  | anchor (candidate : ValueDuplicateCandidate) (cluster : List String)
  | ambiguous (claimIds : List String)

/-- A cluster of duplicates of each other, when that is what the candidates are. -/
def chooseCluster (strict : List ValueDuplicateCandidate) : Choice :=
  match clusterAnchor strict with
  | some anchor =>
    let others := strict.filter (·.claimId ≠ anchor.claimId)
    if others.all (clusterPair lex anchor) then
      .anchor anchor (anchor.claimId :: others.map (·.claimId))
    else .ambiguous (strict.map (·.claimId))
  | none => .ambiguous []

def chooseTarget (strict : List ValueDuplicateCandidate) : Choice :=
  match strict.filter (·.relied) with
  | [target] => .target target
  | [] =>
    match strict with
    | [target] => .target target
    | _ => chooseCluster lex strict
  | several => .ambiguous (several.map (·.claimId))

/-- The conversion, unless the indicator or the links stand against it. -/
def mergeDecision (claim : ValueDuplicateClaim) (target : ValueDuplicateCandidate)
    (reason : DuplicateReason) : DuplicateDecision :=
  let check := indicatorCheck lex claim.statement target.statement claim.metric target.metric
  if !check.matched then claim.kept (.otherIndicator .value check.detail)
  else if claim.hasCounterLink then claim.kept (.counterLinks .value)
  else if !claim.hasSupportLink then claim.kept (.noSupport .value)
  else claim.reverified target reason

def choiceDecision (claim : ValueDuplicateClaim) : Choice → DuplicateDecision
  | .target candidate => mergeDecision lex claim candidate (.converted .value)
  | .anchor candidate cluster => mergeDecision lex claim candidate (.cluster cluster)
  | .ambiguous claimIds => claim.kept (.several .value claimIds)

/-- A claim of the same type that has the values of the operation. -/
def isSuspect (claim : ValueDuplicateClaim) (c : ValueDuplicateCandidate) : Bool :=
  decide (c.claimType = claim.claimType) &&
    decide (statementValues lex claim.statement ⊆ statementValues lex c.statement)

def periodCovered (claim : ValueDuplicateClaim) (c : ValueDuplicateCandidate) : Bool :=
  decide (claimPeriod lex claim ≠ ∅) && decide (claimPeriod lex claim ⊆ candidatePeriod lex c)

def valueDecision (claim : ValueDuplicateClaim) (ordered : List ValueDuplicateCandidate) :
    Option DuplicateDecision :=
  if statementValues lex claim.statement = ∅ then none
  else
    let suspects := ordered.filter (isSuspect lex claim)
    if suspects = [] then none
    else
      let covered := suspects.filter (periodCovered lex claim)
      let strict := covered.filter fun c => !monthsApart lex claim.statement c.statement
      if strict = [] then
        some (claim.kept (if covered = [] then .periodNotCovered .value else .monthsApart .value))
      else some (choiceDecision lex claim (chooseTarget lex strict))

def findValueDuplicates (claims : List ValueDuplicateClaim)
    (candidates : List ValueDuplicateCandidate) : List DuplicateDecision :=
  -- declared candidates first, then by the id
  let ordered := candidates.insertionSort fun a b =>
    toLex (!a.relied, a.claimId) ≤ toLex (!b.relied, b.claimId)
  claims.filterMap fun claim => valueDecision lex claim ordered

end Gate

/-! ## Periods that are covered -/

section Covered

variable (lex : Lexicon) (claim : ValueDuplicateClaim) (c : ValueDuplicateCandidate)

def pairOf : Bool :=
  valueDuplicatePair lex claim.claimType claim.statement claim.asOfYear c.claimType c.statement
    c.asOfYear claim.metric c.metric

/-- Of one type, with the values of the operation, and of the same indicator. -/
structure SameValue : Prop where
  claimType : claim.claimType = c.claimType
  values_ne : statementValues lex claim.statement ≠ ∅
  values : statementValues lex claim.statement ⊆ statementValues lex c.statement
  indicator :
    (indicatorCheck lex claim.statement c.statement claim.metric c.metric).matched = true

/-- The conditions on which the gate takes the candidate. -/
structure StrictCandidate : Prop extends SameValue lex claim c where
  period_ne : claimPeriod lex claim ≠ ∅
  period : claimPeriod lex claim ⊆ candidatePeriod lex c

/-- Neither of the periods contains the other. -/
def PeriodsApart : Prop :=
  ¬ claimPeriod lex claim ⊆ candidatePeriod lex c ∧ ¬ candidatePeriod lex c ⊆ claimPeriod lex claim

/-- The candidate is the one that differs from the operation in parentheses only, and nothing but
the period could stand against it. -/
structure SameOutside (candidates : List ValueDuplicateCandidate) : Prop where
  statement_ne : claim.statement ≠ []
  notIdentical : ∀ c' ∈ candidates, c'.statement ≠ claim.statement
  only : ∃ bare, withoutParentheticals claim.statement = some bare ∧
    candidates.filter (likeOutside claim bare) = [c]
  support : claim.hasSupportLink = true
  noCounter : claim.hasCounterLink = false
  values_ne : statementValues lex claim.statement ≠ ∅
  values : statementValues lex claim.statement = statementValues lex c.statement
  months : monthsApart lex claim.statement c.statement = false
  indicator :
    (indicatorCheck lex claim.statement c.statement claim.metric c.metric).matched = true

variable {lex claim c}

theorem pairOf_iff : pairOf lex claim c ↔ SameValue lex claim c ∧
    claimPeriod lex claim ≠ ∅ ∧ ¬ candidatePeriod lex c ⊂ claimPeriod lex claim := by
  rw [pairOf, valueDuplicatePair]
  constructor
  · intro h
    split_ifs at h with hvalues htype hsubset hperiod hsuperset
    exact ⟨⟨not_not.mp htype, hvalues, hsubset, h⟩, hperiod, hsuperset⟩
  · rintro ⟨hsame, hperiod, hsuperset⟩
    rw [claimPeriod] at hperiod
    rw [claimPeriod, candidatePeriod] at hsuperset
    rw [if_neg hsame.values_ne, if_neg (not_not.mpr hsame.claimType),
      if_neg (not_not.mpr hsame.values), if_neg hperiod, if_neg hsuperset]
    exact hsame.indicator

theorem ssubset_or_apart (h : ¬ claimPeriod lex claim ⊆ candidatePeriod lex c) :
    PeriodsApart lex claim c ↔ ¬ candidatePeriod lex c ⊂ claimPeriod lex claim := by
  rw [PeriodsApart, Finset.ssubset_def]
  tauto

/-- **The pair of the card is the gate's** where the periods are not apart. -/
theorem pairOf_iff_strict : (pairOf lex claim c ↔ StrictCandidate lex claim c) ↔
    (PeriodsApart lex claim c → ¬ SameValue lex claim c) := by
  constructor
  · intro h hapart hsame
    have hne : claimPeriod lex claim ≠ ∅ := by
      intro hempty
      exact hapart.1 (hempty ▸ Finset.empty_subset _)
    have hpair := pairOf_iff.mpr ⟨hsame, hne, (ssubset_or_apart hapart.1).mp hapart⟩
    exact hapart.1 (h.mp hpair).period
  · intro h
    constructor
    · intro hpair
      obtain ⟨hsame, hne, hsuperset⟩ := pairOf_iff.mp hpair
      refine ⟨hsame, hne, ?_⟩
      by_contra hsubset
      exact h ((ssubset_or_apart hsubset).mpr hsuperset) hsame
    · intro hstrict
      refine pairOf_iff.mpr ⟨hstrict.toSameValue, hstrict.period_ne, fun hss => ?_⟩
      exact hss.2 hstrict.period

/-- What the branch of the parentheses converts. -/
theorem relabel_eq_converted {d : DuplicateDecision} (hd : d.reason = .converted .parenthetical) :
    relabel lex claim c = some d ↔ d = claim.reverified c (.converted .parenthetical) ∧
      claim.hasCounterLink = false ∧ claim.hasSupportLink = true ∧
      statementValues lex claim.statement ≠ ∅ ∧
      statementValues lex claim.statement = statementValues lex c.statement ∧
      claimPeriod lex claim ≠ ∅ ∧ ¬ candidatePeriod lex c ⊂ claimPeriod lex claim ∧
      monthsApart lex claim.statement c.statement = false ∧
      (indicatorCheck lex claim.statement c.statement claim.metric c.metric).matched = true := by
  have hkept : ∀ reason, reason ≠ .converted .parenthetical →
      some (claim.kept reason) ≠ some d := by
    intro reason hne h
    rw [← Option.some.inj h] at hd
    exact hne hd
  rw [relabel]
  constructor
  · intro h
    dsimp only at h
    split_ifs at h with hcounter hsupport hvalues hperiod hmonths hindicator
    · exact absurd h (hkept _ nofun)
    · exact absurd h (hkept _ nofun)
    · exact absurd h (hkept _ nofun)
    · exact absurd h (hkept _ nofun)
    · exact absurd h (hkept _ nofun)
    · obtain ⟨hvalues_ne, hvalues⟩ := not_or.mp hvalues
      obtain ⟨hperiod_ne, hsuperset⟩ := not_or.mp hperiod
      simp only [Bool.not_eq_true] at hcounter hmonths
      simp only [Bool.not_eq_true', Bool.not_eq_false] at hsupport hindicator
      exact ⟨(Option.some.inj h).symm, hcounter, hsupport, hvalues_ne, not_not.mp hvalues,
        hperiod_ne, hsuperset, hmonths, hindicator⟩
  · rintro ⟨rfl, hcounter, hsupport, hne, hvalues, hperiod, hsuperset, hmonths, hindicator⟩
    rw [if_neg (by rw [hcounter]; exact Bool.false_ne_true), hsupport, if_neg (by decide),
      if_neg (not_or.mpr ⟨hne, not_not.mpr hvalues⟩), if_neg (not_or.mpr ⟨hperiod, hsuperset⟩),
      if_neg (by rw [hmonths]; exact Bool.false_ne_true)]
    simp only [hindicator, Bool.not_true, Bool.false_eq_true, if_false]

theorem identicalText_reason {sameText : List ValueDuplicateCandidate} {d : DuplicateDecision}
    (h : identicalText claim sameText = some d) : d.reason ≠ .converted .parenthetical := by
  unfold identicalText at h
  split at h
  · cases h
  · split at h
    · cases h
    · rw [← Option.some.inj h]
      split_ifs <;> nofun
    · rw [← Option.some.inj h]
      nofun

/-- The conversions by the branch of the parentheses. -/
theorem identical_parenthetical_iff {candidates : List ValueDuplicateCandidate}
    {d : DuplicateDecision} :
    (d ∈ findIdenticalStatementDuplicates lex [claim] candidates ∧
      d.reason = .converted .parenthetical) ↔
    ∃ c ∈ candidates, d = claim.reverified c (.converted .parenthetical) ∧
      SameOutside lex claim c candidates ∧ claimPeriod lex claim ≠ ∅ ∧
        ¬ candidatePeriod lex c ⊂ claimPeriod lex claim := by
  have hsingle : ∀ (p : ValueDuplicateCandidate → Bool) c,
      (candidates.insertionSort fun a b => a.claimId ≤ b.claimId).filter p = [c] ↔
        candidates.filter p = [c] := by
    intro p c
    have hperm := (List.perm_insertionSort (fun a b : ValueDuplicateCandidate =>
      a.claimId ≤ b.claimId) candidates).filter p
    constructor
    · intro h
      rw [h] at hperm
      exact List.perm_singleton.mp hperm.symm
    · intro h
      rw [h] at hperm
      exact List.perm_singleton.mp hperm
  have hnil : (candidates.insertionSort fun a b => a.claimId ≤ b.claimId).filter
      (·.statement = claim.statement) = [] ↔ ∀ c' ∈ candidates, c'.statement ≠ claim.statement := by
    simp only [List.filter_eq_nil_iff, List.mem_insertionSort, decide_eq_true_eq, ne_eq]
  have hone : d ∈ findIdenticalStatementDuplicates lex [claim] candidates ↔
      identicalStatementDecision lex claim
        (candidates.insertionSort fun a b => a.claimId ≤ b.claimId) = some d := by
    rw [findIdenticalStatementDuplicates, List.mem_filterMap]
    simp only [List.mem_singleton, exists_eq_left]
  rw [hone, identicalStatementDecision]
  constructor
  · rintro ⟨h, hreason⟩
    split at h
    · cases h
    rename_i hstatement
    dsimp only at h
    split at h
    · rename_i hsame
      obtain ⟨bare, hbare, hmatch⟩ := Option.bind_eq_some_iff.mp h
      split at hmatch
      · cases hmatch
      · rename_i c honly
        have honly' := (hsingle _ c).mp honly
        have hc : c ∈ candidates := List.mem_of_mem_filter (honly' ▸ List.mem_singleton_self c)
        obtain ⟨hd, hcounter, hsupport, hne, hvalues, hperiod, hsuperset, hmonths, hindicator⟩ :=
          (relabel_eq_converted hreason).mp hmatch
        exact ⟨c, hc, hd, ⟨hstatement, hnil.mp hsame, ⟨bare, hbare, honly'⟩, hsupport, hcounter,
          hne, hvalues, hmonths, hindicator⟩, hperiod, hsuperset⟩
      · rw [← Option.some.inj hmatch] at hreason
        cases hreason
    · exact absurd hreason (identicalText_reason h)
  · rintro ⟨c, hc, rfl, hsame, hperiod, hsuperset⟩
    obtain ⟨bare, hbare, honly⟩ := hsame.only
    refine ⟨?_, rfl⟩
    rw [if_neg hsame.statement_ne]
    dsimp only
    rw [if_pos (hnil.mpr hsame.notIdentical), relabelAfterParentheticals, hbare, Option.bind_some,
      (hsingle _ c).mpr honly]
    exact (relabel_eq_converted rfl).mpr ⟨rfl, hsame.noCounter, hsame.support, hsame.values_ne,
      hsame.values, hperiod, hsuperset, hsame.months, hsame.indicator⟩

theorem clusterAnchor_mem {members : List ValueDuplicateCandidate}
    (h : clusterAnchor members = some c) : c ∈ members := by
  rw [clusterAnchor] at h
  split at h
  · exact (List.mem_insertionSort _).mp (List.mem_of_mem_head? h)
  · exact List.mem_of_mem_filter ((List.mem_insertionSort _).mp (List.mem_of_mem_head? h))

/-- The candidate that the choice names. -/
def Choice.named : Choice → Option ValueDuplicateCandidate
  | .target candidate => some candidate
  | .anchor candidate _ => some candidate
  | .ambiguous _ => none

/-- What is chosen is one of the strict candidates. -/
theorem chooseTarget_mem {strict : List ValueDuplicateCandidate}
    (h : (chooseTarget lex strict).named = some c) : c ∈ strict := by
  have hcluster : (chooseCluster lex strict).named = some c → c ∈ strict := by
    intro h
    rw [chooseCluster] at h
    split at h
    · rename_i anchor hanchor
      dsimp only at h
      split at h
      · obtain rfl : anchor = c := Option.some.inj h
        exact clusterAnchor_mem hanchor
      · cases h
    · cases h
  unfold chooseTarget at h
  split at h
  · rename_i target hrelied
    obtain rfl : target = c := Option.some.inj h
    exact List.mem_of_mem_filter (hrelied ▸ List.mem_singleton_self target)
  · split at h
    · rename_i target _
      obtain rfl : target = c := Option.some.inj h
      exact List.mem_singleton_self target
    · exact hcluster h
  · cases h

theorem mergeDecision_target {reason : DuplicateReason}
    (h : (mergeDecision lex claim c reason).action = .reverified) :
    (mergeDecision lex claim c reason).target = some c.claimId := by
  rw [mergeDecision] at h ⊢
  split_ifs at h ⊢
  · cases h
  · cases h
  · cases h
  · rfl

theorem choiceDecision_target {choice : Choice}
    (h : (choiceDecision lex claim choice).action = .reverified) :
    ∃ c, choice.named = some c ∧ (choiceDecision lex claim choice).target = some c.claimId := by
  cases choice with
  | target candidate => exact ⟨candidate, rfl, mergeDecision_target h⟩
  | anchor candidate cluster => exact ⟨candidate, rfl, mergeDecision_target h⟩
  | ambiguous claimIds => cases h

/-- **The gate converts an operation only where its period is covered.** -/
theorem findValueDuplicates_covered {candidates : List ValueDuplicateCandidate}
    {d : DuplicateDecision} (h : d ∈ findValueDuplicates lex [claim] candidates)
    (hd : d.action = .reverified) :
    ∃ c ∈ candidates, d.target = some c.claimId ∧
      claimPeriod lex claim ⊆ candidatePeriod lex c := by
  rw [findValueDuplicates, List.mem_filterMap] at h
  simp only [List.mem_singleton, exists_eq_left] at h
  rw [valueDecision] at h
  split at h
  · cases h
  dsimp only at h
  split at h
  · cases h
  split at h
  · rw [← Option.some.inj h] at hd
    cases hd
  · rw [← Option.some.inj h] at hd ⊢
    obtain ⟨c, hnamed, htarget⟩ := choiceDecision_target hd
    have hstrict := chooseTarget_mem hnamed
    have hcovered := List.mem_of_mem_filter hstrict
    obtain ⟨hsuspect, hperiod⟩ := List.mem_filter.mp hcovered
    have hc := (List.mem_insertionSort _).mp (List.mem_of_mem_filter hsuspect)
    simp only [periodCovered, Bool.and_eq_true, decide_eq_true_eq] at hperiod
    exact ⟨c, hc, htarget, hperiod.2⟩

variable (lex claim) in
/-- The pair of the card is the gate's, and a conversion is one to a claim whose period contains
that of the operation. -/
structure PeriodsCovered (candidates : List ValueDuplicateCandidate) : Prop where
  pair : ∀ c ∈ candidates, pairOf lex claim c ↔ StrictCandidate lex claim c
  parenthetical : ∀ d ∈ findIdenticalStatementDuplicates lex [claim] candidates,
    d.reason = .converted .parenthetical → ∀ c ∈ candidates, d.target = some c.claimId →
      claimPeriod lex claim ⊆ candidatePeriod lex c
  gate : ∀ d ∈ findValueDuplicates lex [claim] candidates, d.action = .reverified →
    ∀ c ∈ candidates, d.target = some c.claimId →
      claimPeriod lex claim ⊆ candidatePeriod lex c

/-- **Periods are covered** exactly when no candidate that could be taken but for its period has
one that neither contains that of the operation nor is contained in it. -/
theorem periodsCovered_iff (lex : Lexicon) (claim : ValueDuplicateClaim)
    (candidates : List ValueDuplicateCandidate) (hids : (candidates.map (·.claimId)).Nodup) :
    PeriodsCovered lex claim candidates ↔ ∀ c ∈ candidates, PeriodsApart lex claim c →
      ¬ SameValue lex claim c ∧ ¬ SameOutside lex claim c candidates := by
  have hunique : ∀ c ∈ candidates, ∀ c' ∈ candidates, some c'.claimId = some c.claimId → c' = c :=
    fun c hc c' hc' heq => List.inj_on_of_nodup_map hids hc' hc (Option.some.inj heq)
  constructor
  · intro h c hc hapart
    refine ⟨pairOf_iff_strict.mp (h.pair c hc) hapart, fun hsame => ?_⟩
    have hne : claimPeriod lex claim ≠ ∅ := by
      intro hempty
      exact hapart.1 (hempty ▸ Finset.empty_subset _)
    obtain ⟨hmem, hreason⟩ := identical_parenthetical_iff.mpr
      ⟨c, hc, rfl, hsame, hne, (ssubset_or_apart hapart.1).mp hapart⟩
    exact hapart.1 (h.parenthetical _ hmem hreason c hc rfl)
  · intro h
    refine ⟨fun c hc => pairOf_iff_strict.mpr fun hapart => (h c hc hapart).1, ?_, ?_⟩
    · intro d hd hreason c hc htarget
      obtain ⟨c', hc', rfl, hsame, -, hsuperset⟩ := identical_parenthetical_iff.mp ⟨hd, hreason⟩
      obtain rfl := hunique c hc c' hc' htarget
      by_contra hsubset
      exact (h c' hc ((ssubset_or_apart hsubset).mpr hsuperset)).2 hsame
    · intro d hd haction c hc htarget
      obtain ⟨c', hc', htarget', hcovered⟩ := findValueDuplicates_covered hd haction
      obtain rfl := hunique c hc c' hc' (htarget'.symm.trans htarget)
      exact hcovered

end Covered

/-- Texts of digits and letters of ASCII, with values that are printed as they are written. -/
def plainLexicon : Lexicon where
  isDecimal := isAsciiDigit
  floatRepr := some
  letterWords := fun s => [s]
  lower := fun s => s
  serviceWord := fun _ => false
  namedMonthNumbers := fun _ => ∅

/-- The inflation of a year, in one sentence. -/
def inflationClaim (asOfYear : Nat) : ValueDuplicateClaim where
  index := 0
  statement := lit "CPI 5,59 % (yoy)"
  claimType := "external_fact"
  asOfYear := some asOfYear
  hasSupportLink := true
  hasCounterLink := false
  metric := some (lit "cpi")

def inflationCandidate (claimType : String) (asOfYear : Nat) : ValueDuplicateCandidate where
  claimId := "c1"
  statement := lit "CPI 5,59 %"
  claimType := claimType
  asOfYear := some asOfYear
  metric := some (lit "cpi")

theorem inflation_of_one_year_covered :
    PeriodsCovered plainLexicon (inflationClaim 2025)
      [inflationCandidate "external_fact" 2025] := by
  refine (periodsCovered_iff _ _ _ (by decide)).mpr ?_
  intro c hc hapart
  rw [List.mem_singleton.mp hc] at hapart
  exact absurd hapart.1 (by decide)

/-- The value of 2025 is folded into the record of 2024, and is written to it where the types
differ. -/
theorem inflation_of_two_years_not_covered :
    ¬ PeriodsCovered plainLexicon (inflationClaim 2025) [inflationCandidate "external_fact" 2024] ∧
    ¬ PeriodsCovered plainLexicon (inflationClaim 2025)
      [inflationCandidate "temporal_fact" 2024] := by
  constructor
  · intro h
    have hstrict := (h.pair _ (List.mem_singleton_self _)).mp (by decide)
    exact absurd hstrict.period (by decide)
  · intro h
    have hconverted : (inflationClaim 2025).reverified (inflationCandidate "temporal_fact" 2024)
        (.converted .parenthetical) ∈ findIdenticalStatementDuplicates plainLexicon
          [inflationClaim 2025] [inflationCandidate "temporal_fact" 2024] := by decide
    have hperiod := h.parenthetical _ hconverted rfl _ (List.mem_singleton_self _) rfl
    exact absurd hperiod (by decide)

end Noezema.Cognition.ValueDuplicate
