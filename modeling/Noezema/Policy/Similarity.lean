import Noezema.Lib.CodePoints
import Noezema.Lib.Windows

/-! # Copies of untrusted text in an argument

The policy compares the string arguments of a tool call with the untrusted texts of the session. A
window of an argument that stands word for word in such a text is a signal, and a call that is not
denied needs the operator then.

The windows begin every 16 symbols, so a copy of 63 symbols is seen wherever it stands, and what is
reported is a copy of 48 symbols or of a shorter argument as a whole
(`hasVerbatimOverlap_detects`).
-/

namespace Noezema.Policy

open Noezema.Lib

/-- `_MIN_SIMILARITY_LEN`. -/
def minSimilarityLen : Nat := 24

/-- `_SIMILARITY_WINDOW`. -/
def similarityWindow : Nat := 48

def similarityStep : Nat := similarityWindow / 3

/-- What an untrusted text shows of a stripped argument. -/
def overlapsText (v ext : PyText) : Bool :=
  if ext = [] ∨ ext.length < minSimilarityLen then false
  else v <:+: ext || (windows similarityWindow similarityStep v).any (· <:+: ext)

/-- `_has_verbatim_overlap`. -/
def hasVerbatimOverlap (value : PyText) (externalTexts : List PyText) : Bool :=
  let v := PyText.strip value
  if v.length < minSimilarityLen then false else externalTexts.any (overlapsText v)

/-! ## The evaluation of a call -/

inductive PolicyDecision where
  | allow | deny | requireOperator
deriving DecidableEq, Repr

/-- `_check_similarity`: the values of the arguments, `none` for what is no string. -/
def checkSimilarity (args : List (Option PyText)) (externalTexts : List PyText) : Bool :=
  if externalTexts = [] then false
  else args.any fun value => value.any (hasVerbatimOverlap · externalTexts)

structure PolicyEvaluation where
  decision : PolicyDecision
  reasons : List PyText
  similaritySignal : Bool
deriving DecidableEq

def similarityReason : PyText := PyText.lit "argument similarity with external text"

/-- The end of `evaluate`, from the reasons of the other checks. -/
def evaluation (reasons : List PyText) (similarity : Bool) : PolicyEvaluation where
  decision :=
    if reasons ≠ [] then .deny else if similarity then .requireOperator else .allow
  reasons :=
    if reasons ≠ [] then reasons else if similarity then [similarityReason] else [[]]
  similaritySignal := similarity

/-- A call whose arguments are valid. -/
def evaluateArguments (reasons : List PyText) (args : List (Option PyText))
    (externalTexts : List PyText) : PolicyEvaluation :=
  evaluation reasons (checkSimilarity args externalTexts)

/-! ## What is seen -/

/-- The two texts have these symbols in common. -/
def Shares (v ext shared : PyText) : Prop := shared <:+: v ∧ shared <:+: ext

theorem similarityStep_pos : 0 < similarityStep := by decide

theorem overlapsText_iff {v ext : PyText} : overlapsText v ext = true ↔
    minSimilarityLen ≤ ext.length ∧
      (v <:+: ext ∨ ∃ w ∈ windows similarityWindow similarityStep v, w <:+: ext) := by
  rw [overlapsText]
  split
  · rename_i hshort
    constructor
    · intro h
      cases h
    · rintro ⟨hlen, -⟩
      have hpos : 0 < minSimilarityLen := by decide
      rcases hshort with rfl | hshort
      · exact absurd hlen (by decide)
      · omega
  · rename_i hlong
    rw [Bool.or_eq_true, decide_eq_true_eq, List.any_eq_true]
    simp only [decide_eq_true_eq]
    constructor
    · intro h
      exact ⟨by omega, h⟩
    · exact And.right

theorem hasVerbatimOverlap_iff {value : PyText} {externalTexts : List PyText} :
    hasVerbatimOverlap value externalTexts = true ↔
      minSimilarityLen ≤ (PyText.strip value).length ∧
        ∃ ext ∈ externalTexts, overlapsText (PyText.strip value) ext = true := by
  rw [hasVerbatimOverlap]
  split
  · rename_i hshort
    constructor
    · intro h
      cases h
    · rintro ⟨hlen, -⟩
      omega
  · rename_i hlong
    rw [List.any_eq_true]
    constructor
    · intro h
      exact ⟨by omega, h⟩
    · exact And.right

/-- A long run is seen, wherever it begins. -/
theorem hasVerbatimOverlap_of_run {value : PyText} {externalTexts : List PyText}
    {run ext : PyText} (hext : ext ∈ externalTexts) (hrun : Shares (PyText.strip value) ext run)
    (hlen : similarityWindow + similarityStep - 1 ≤ run.length) :
    hasVerbatimOverlap value externalTexts = true := by
  have hsize : minSimilarityLen ≤ similarityWindow + similarityStep - 1 := by decide
  obtain ⟨w, hw, -, hwrun⟩ := exists_window similarityStep_pos (by decide) hrun.1 hlen
  have hvlen := hrun.1.length_le
  have hextlen := hrun.2.length_le
  refine hasVerbatimOverlap_iff.mpr ⟨by omega, ext, hext, overlapsText_iff.mpr ⟨by omega, ?_⟩⟩
  exact .inr ⟨w, hw, hwrun.trans hrun.2⟩

/-- What is reported is shared. -/
theorem exists_shared {value : PyText} {externalTexts : List PyText}
    (h : hasVerbatimOverlap value externalTexts = true) :
    ∃ ext ∈ externalTexts, ∃ shared, Shares (PyText.strip value) ext shared ∧
      min similarityWindow (PyText.strip value).length ≤ shared.length ∧
      minSimilarityLen ≤ shared.length := by
  obtain ⟨hlen, ext, hext, hover⟩ := hasVerbatimOverlap_iff.mp h
  obtain ⟨-, hwhole | ⟨w, hw, hwext⟩⟩ := overlapsText_iff.mp hover
  · exact ⟨ext, hext, _, ⟨List.infix_rfl, hwhole⟩, min_le_right _ _, hlen⟩
  · have hwlen := length_of_mem_windows similarityStep_pos hw
    have hsize : minSimilarityLen ≤ similarityWindow := by decide
    exact ⟨ext, hext, w, ⟨infix_of_mem_windows hw, hwext⟩, by omega, by omega⟩

/-- **The signal has no blind offset.** -/
theorem hasVerbatimOverlap_detects (value : PyText) (externalTexts : List PyText) :
    ((∃ ext ∈ externalTexts, ∃ run, Shares (PyText.strip value) ext run ∧ 63 ≤ run.length) →
      hasVerbatimOverlap value externalTexts = true) ∧
    (hasVerbatimOverlap value externalTexts = true →
      ∃ ext ∈ externalTexts, ∃ shared, Shares (PyText.strip value) ext shared ∧
        min 48 (PyText.strip value).length ≤ shared.length ∧ 24 ≤ shared.length) := by
  constructor
  · rintro ⟨ext, hext, run, hrun, hlen⟩
    exact hasVerbatimOverlap_of_run hext hrun hlen
  · exact exists_shared

/-! ## The decision on a call -/

theorem checkSimilarity_iff {args : List (Option PyText)} {externalTexts : List PyText} :
    checkSimilarity args externalTexts = true ↔
      ∃ value, some value ∈ args ∧ hasVerbatimOverlap value externalTexts = true := by
  rw [checkSimilarity]
  split
  · rename_i hnone
    constructor
    · intro h
      cases h
    · rintro ⟨value, -, h⟩
      obtain ⟨-, ext, hext, -⟩ := hasVerbatimOverlap_iff.mp h
      rw [hnone] at hext
      cases hext
  · simp only [List.any_eq_true, Option.any_eq_true]
    constructor
    · rintro ⟨value, hvalue, v, rfl, h⟩
      exact ⟨v, hvalue, h⟩
    · rintro ⟨v, hvalue, h⟩
      exact ⟨some v, hvalue, v, rfl, h⟩

/-- A call with a copy in an argument is never allowed without the operator. -/
theorem evaluateArguments_copied (reasons : List PyText) {args : List (Option PyText)}
    {externalTexts : List PyText} {value ext run : PyText} (hvalue : some value ∈ args)
    (hext : ext ∈ externalTexts) (hrun : Shares (PyText.strip value) ext run)
    (hlen : similarityWindow + similarityStep - 1 ≤ run.length) :
    (evaluateArguments reasons args externalTexts).decision =
      if reasons = [] then .requireOperator else .deny := by
  have hsignal : checkSimilarity args externalTexts = true :=
    checkSimilarity_iff.mpr ⟨value, hvalue, hasVerbatimOverlap_of_run hext hrun hlen⟩
  rw [evaluateArguments, hsignal, evaluation]
  dsimp only
  by_cases hreasons : reasons = []
  · rw [if_neg (not_not_intro hreasons), if_pos rfl, if_pos hreasons]
  · rw [if_pos hreasons, if_neg hreasons]

end Noezema.Policy
