import Noezema.Research.ValueAttribution

/-! # Measured values

A number with a unit after it is a measured value of a statement, and two numbers with a connective
between them are one value, a range (`claimMatchValues`). A text confirms a range that it has as a
whole, or of which it has both ends (`claimRangesFoundInTexts`).
-/

namespace Noezema.Research.ValueAttribution

open Noezema.Lib Noezema.Lib.Regex PyText

/-- What is used of the tables of Unicode to read units. -/
structure ValueLexicon extends DigitTable where
  /-- `\w`. -/
  isWord : CodePoint → Bool
  /-- A letter of an expression against a symbol, with `re.IGNORECASE`. -/
  sameLetter : CodePoint → CodePoint → Bool
  connector_not_decimal : ∀ c ∈ lit "-–—до", isDecimal c = false

section Expressions

variable (lex : ValueLexicon)

def digit : Regex CodePoint := symbol lex.isDecimal

def anyOf (s : String) : Regex CodePoint := symbol fun c => (lit s).contains c

def separator : Regex CodePoint := symbol fun c => decimalSeparators.contains c

def blank : Regex CodePoint := symbol (· = space)

/-- `VALUE_NUMBER_PATTERN`. -/
def valueNumberPattern : Regex CodePoint :=
  let inner : CodePoint → Bool := fun c =>
    lex.isDecimal c || decimalSeparators.contains c || c.isSpace
  alt (seqs [digit lex, many 0 (some 15) (symbol inner), digit lex]) (many 1 none (digit lex))

/-- The start of a unit, at a border of a word. -/
def unitWord (s : String) : Regex CodePoint :=
  seq (notBehind lex.isWord) (word lex.sameLetter (lit s))

def wordEnd : Regex CodePoint := notAhead (symbol lex.isWord)

def wordRest : Regex CodePoint := many 0 none (symbol lex.isWord)

/-- `VALUE_UNIT_PATTERNS`. -/
def valueUnitPatterns : List (Regex CodePoint) :=
  [anyOf "%",
    seqs [unitWord lex "п", optional (anyOf "."), optional (symbol CodePoint.isSpace),
      word lex.sameLetter (lit "п"), anyOf "."],
    seq (unitWord lex "процент") (wordRest lex),
    seq (unitWord lex "млрд") (wordEnd lex),
    seq (unitWord lex "млн") (wordEnd lex),
    seq (unitWord lex "тыс") (wordRest lex),
    seq (unitWord lex "рубл") (wordRest lex),
    seq (unitWord lex "доллар") (wordRest lex),
    seq (unitWord lex "евро") (wordEnd lex),
    seq (unitWord lex "percent") (wordRest lex),
    seqs [unitWord lex "point", optional (word lex.sameLetter (lit "s")), wordEnd lex]]

/-- `_UNIT_SCAN`. -/
def unitScan : Regex CodePoint :=
  seq (many 0 (some 3) (symbol fun c => c = space || c.val = 9 || c.val = 160))
    ((valueUnitPatterns lex).foldr alt (symbol fun _ => false))

/-- `_RANGE_CONNECTOR`. -/
def rangeConnector : Regex CodePoint :=
  let blanks := many 0 (some 3) blank
  alt (seqs [blanks, anyOf "-–—", blanks])
    (seqs [many 1 none blank, word (fun a b => a = b) (lit "до"), many 1 none blank])

/-- `_SIMPLE_CANONICAL`. -/
def simpleCanonical : Regex CodePoint :=
  seq (many 1 none (digit lex))
    (optional (seq (symbol (· = point)) (many 1 none (digit lex))))

end Expressions

/-- `_UNIT_TAIL_CHARS`. -/
def unitTailChars : Nat := 8

/-- `_RANGE_TOKEN_SEP`. -/
def rangeTokenSep : CodePoint := .ofChar '-'

section Tokens

variable (lex : ValueLexicon)

/-- A unit stands at a place. -/
def unitAfter (text : PyText) (i : Nat) : Bool :=
  ((unitScan lex).matchAt [] ((text.drop i).take unitTailChars)).isSome

/-- `_range_value_spans`. -/
def rangeValueSpans (text : PyText) : List (Nat × Nat × PyText) :=
  let tokens := (valueNumberPattern lex).findAll text
  (tokens.zip tokens.tail).filterMap fun e =>
    let canonicalLeft := canonicalNumber lex.toDigitTable (e.1.all text)
    let canonicalRight := canonicalNumber lex.toDigitTable (e.2.all text)
    if !unitAfter lex text e.1.stop && (simpleCanonical lex).fullMatch canonicalLeft &&
        rangeConnector.fullMatch ((text.drop e.1.stop).take (e.2.start - e.1.stop)) &&
        unitAfter lex text e.2.stop && (simpleCanonical lex).fullMatch canonicalRight then
      some (e.1.start, e.2.stop, canonicalLeft ++ rangeTokenSep :: canonicalRight)
    else none

/-- `_measured_value_tokens`. -/
def measuredValueTokens (text : PyText) : Finset PyText :=
  let ranges := rangeValueSpans lex text
  (ranges.map (·.2.2)).toFinset ∪
    ((((valueNumberPattern lex).findAll text).filter fun m => unitAfter lex text m.stop &&
      !ranges.any fun r => r.1 ≤ m.start && m.stop ≤ r.2.1).map
        fun m => canonicalNumber lex.toDigitTable (m.all text)).toFinset

/-- `claim_match_values`. -/
def claimMatchValues (statement : PyText) : Finset PyText :=
  measuredValueTokens lex (normalizeScanText statement)

/-- `claim_range_tokens`. -/
def claimRangeTokens (matchValues : Finset PyText) : Finset PyText :=
  matchValues.filter (rangeTokenSep ∈ ·)

/-- `token.partition(_RANGE_TOKEN_SEP)`. -/
def rangeEnds (token : PyText) : PyText × PyText :=
  (token.takeWhile (· ≠ rangeTokenSep), (token.dropWhile (· ≠ rangeTokenSep)).drop 1)

/-- `claim_ranges_found_in_texts`. The scan texts are scanned once more for the ends. -/
def claimRangesFoundInTexts (ranges : Finset PyText) (texts : List (Option PyText)) :
    Finset PyText :=
  let scannedTexts := (texts.filterMap fun text => text.filter (· ≠ [])).map scanned
  ranges.filter fun token =>
    token.contains rangeTokenSep ∧ (rangeEnds token).1 ≠ [] ∧ (rangeEnds token).2 ≠ [] ∧
      ((∃ text ∈ scannedTexts, ((rangeValueSpans lex text).map (·.2.2)).contains token) ∨
        {(rangeEnds token).1, (rangeEnds token).2} ⊆
          claimValuesFoundInTexts lex.toDigitTable {(rangeEnds token).1, (rangeEnds token).2}
            (scannedTexts.map some))

end Tokens

end Noezema.Research.ValueAttribution
