import Mathlib.Data.Rat.Floor
import Noezema.Lib.Rounding
import Noezema.Lib.Scan
import Noezema.Lib.Uuid
import Noezema.Memory.Reference
import Noezema.Cognition.Retrieval

/-! # The knowledge of a context pack

The retrieved claims become lines of text, the lines that fit become the claim sections of
the pack, and the sections become the knowledge that the curator reads. From the text of
that knowledge the host reads back which claims were shown. The statement of a claim stands
in its line as it is.
-/

namespace Noezema.Cognition

open Noezema.Lib Noezema.Memory

/-! ## The line of a claim -/

def statusValue : EpistemicStatus → Text
  | .hypothesis => "hypothesis".toList
  | .supported => "supported".toList
  | .disputed => "disputed".toList
  | .refuted => "refuted".toList
  | .deferred => "deferred".toList

def gradeValue : EffectiveGrade → Text
  | .E0 => "E0".toList
  | .E1 => "E1".toList
  | .E2 => "E2".toList
  | .E3 => "E3".toList
  | .E4 => "E4".toList

/-- The format `.2f`. -/
def fixed2 (q : ℚ) : Text :=
  let hundredths := (roundHalfEven (|q| * 100)).toNat
  (if q < 0 then ['-'] else []) ++ Nat.toDigits 10 (hundredths / 100) ++
    ['.', Nat.digitChar (hundredths % 100 / 10), Nat.digitChar (hundredths % 10)]

namespace RetrievedClaim

/-- What follows the statement, without the blank before it. -/
def metaText (c : RetrievedClaim) : Text :=
  '(' :: (c.epistemicStatus.elim "unknown".toList statusValue ++
    (c.grade.elim [] fun g => ", ".toList ++ gradeValue g) ++
    (c.confidence.elim [] fun p => ", p=".toList ++ fixed2 p) ++ [')'])

/-- The label with the blank after it. -/
def labelPrefix (c : RetrievedClaim) : Text :=
  if c.label = "" then [] else c.label.toList ++ [' ']

end RetrievedClaim

/-- The form `[c:<id>]`: 36 symbols between `[c:` and `]`. -/
def claimTag : TagForm Char where
  first := '['
  opening := ['c', ':']
  alphabet := fun c => isHexSymbol c || c = '-'
  length := 36
  closing := ']'
  first_opening := by decide
  first_alphabet := by decide
  first_closing := by decide

section Pack

-- which code points are of a word, and the id of a claim
variable (isWord : Char → Bool) (uuid : ClaimId → Uuid)

/-- `RetrievedClaim.line`. -/
def RetrievedClaim.line (c : RetrievedClaim) : Text :=
  claimTag.tag (uuid c.claimId).text ++
    ' ' :: (c.labelPrefix ++ (c.statement.toList ++ ' ' :: c.metaText))

/-! ## The budgets -/

/-- The tokens of the rest of a text, inside a word or not. -/
def countTokens : Bool → Text → Nat
  | _, [] => 0
  | inWord, c :: rest =>
    if isWord c then (if inWord then 0 else 1) + countTokens true rest
    else (if isSpace c then 0 else 1) + countTokens false rest

/-- `estimate_tokens`: words and single symbols. -/
def estimateTokens (text : Text) : Nat := countTokens isWord false text

/-- What `_fit_to_budget` collects. -/
structure Fitted where
  chosen : List Text
  used : Nat
  excluded : List ClaimId
  truncated : Bool

/-- One turn of the loop: a line that does not fit is left out as a whole. -/
def fitLine (budget : Int) (acc : Fitted) (line : ClaimId × Text) : Fitted :=
  let cost := estimateTokens isWord line.2
  if budget < (acc.used + cost : Nat) then
    { acc with excluded := acc.excluded ++ [line.1], truncated := true }
  else { acc with chosen := acc.chosen ++ [line.2], used := acc.used + cost }

/-- `_fit_to_budget`. -/
def fitToBudget (lines : List (ClaimId × Text)) (budget : Int) : Fitted :=
  lines.foldl (fitLine isWord budget) ⟨[], 0, [], false⟩

/-- `"\n".join(chosen)`. -/
def Fitted.content (f : Fitted) : Text := List.intercalate ['\n'] f.chosen

structure ContextSection where
  name : String
  content : Text
  tokens : Nat
  budget : Int
  truncated : Bool
  chunkIds : List ClaimId

/-- The section of some claims. -/
def claimSection (name : String) (claims : List RetrievedClaim) (budget : Int) :
    ContextSection :=
  let fitted := fitToBudget isWord (claims.map fun c => (c.claimId, c.line uuid)) budget
  { name := name
    content := fitted.content
    tokens := estimateTokens isWord fitted.content
    budget := budget
    truncated := fitted.truncated
    chunkIds := (claims.filter fun c => c.line uuid ∈ splitlines fitted.content).map (·.claimId) }

/-- The limits of the claim sections. -/
structure ClaimBudgets where
  claimsEvidence : Int
  contradictions : Int
  pendingClaims : Int

/-- The current claims that are disputed. -/
def RetrievalResult.disputed (result : RetrievalResult) : List RetrievedClaim :=
  result.current.filter fun c => c.epistemicStatus = some .disputed

/-- The claim sections of `ContextBuilder.build`, in the order in which the curator reads
them; the contradictions carry no chunk ids. -/
def claimSections (result : RetrievalResult) (budgets : ClaimBudgets) : List ContextSection :=
  [claimSection isWord uuid "claims_evidence" result.current budgets.claimsEvidence,
    claimSection isWord uuid "pending_claims" result.pendingInvalid budgets.pendingClaims,
    { claimSection isWord uuid "contradictions" result.disputed budgets.contradictions with
      chunkIds := [] }]

/-- The lines of knowledge of some sections. -/
def knowledgeLines (sections : List ContextSection) : List Text :=
  (sections.filter fun s => s.content ≠ []).flatMap fun s => splitlines s.content

/-- The knowledge that stands in the prompt of the curator. -/
def knowledgeText (sections : List ContextSection) : Text :=
  let knowledge := List.intercalate ['\n'] (knowledgeLines sections)
  if knowledge = [] then "(пусто)".toList else knowledge

/-- `_pack_claim_ids`: every id once. -/
def packClaimIds (knowledge : Text) : List Uuid :=
  (claimTag.scan knowledge).foldl (fun seen body =>
    match Uuid.parse body with
    | some u => if u ∈ seen then seen else seen ++ [u]
    | none => seen) []

/-! ## What is shown -/

/-- The budget keeps the line of the claim. -/
def keptLine (claims : List RetrievedClaim) (budget : Int) (c : RetrievedClaim) : Prop :=
  c ∈ claims ∧
    c.line uuid ∈ (fitToBudget isWord (claims.map fun c => (c.claimId, c.line uuid)) budget).chosen

/-- The claim is shown: its complete line is in one of the claim sections. -/
def Shown (result : RetrievalResult) (budgets : ClaimBudgets) (c : RetrievedClaim) : Prop :=
  keptLine isWord uuid result.current budgets.claimsEvidence c ∨
    keptLine isWord uuid result.pendingInvalid budgets.pendingClaims c ∨
    keptLine isWord uuid result.disputed budgets.contradictions c

/-- Current claims have no label, the others the one of their state. -/
def RetrievalResult.Labelled (result : RetrievalResult) : Prop :=
  (∀ c ∈ result.current, c.label = "") ∧
    ∀ c ∈ result.pendingInvalid, c.label = pendingLabel ∨ c.label = invalidLabel

/-- What the host reads back is what is shown, and every line of a shown pending or invalid
claim has its label. -/
structure ShowsFaithfully (result : RetrievalResult) (budgets : ClaimBudgets) : Prop where
  ids : ∀ u, u ∈ packClaimIds (knowledgeText (claimSections isWord uuid result budgets)) ↔
    ∃ c, Shown isWord uuid result budgets c ∧ uuid c.claimId = u
  labels : ∀ c, keptLine isWord uuid result.pendingInvalid budgets.pendingClaims c →
    ∀ l ∈ splitlines (c.line uuid), c.label.toList <:+: l

/-- The text mentions an id in the form of a claim tag. -/
def mentions (text : Text) (u : Uuid) : Prop :=
  ∃ body, claimTag.IsBody body ∧ claimTag.tag body <:+: text ∧ Uuid.parse body = some u

/-- The tags in the statements of the shown claims name shown claims. -/
def TagsShown (result : RetrievalResult) (budgets : ClaimBudgets) : Prop :=
  ∀ c, Shown isWord uuid result budgets c → ∀ u, mentions c.statement.toList u →
    ∃ c', Shown isWord uuid result budgets c' ∧ uuid c'.claimId = u

/-- The statements of the shown pending or invalid claims repeat the label in each line
after the first. -/
def LinesLabelled (result : RetrievalResult) (budgets : ClaimBudgets) : Prop :=
  ∀ c, keptLine isWord uuid result.pendingInvalid budgets.pendingClaims c →
    ∀ l ∈ (pieces c.statement.toList).tail, c.label.toList <:+: l

end Pack

/-! ## Tags in a line -/

/-- A symbol that is in the text around a statement: no bracket and no break. -/
def isPlain (c : Char) : Bool := c ≠ '[' && c ≠ ']' && !isLineBreak c

theorem isPlain_digitChar {d : Nat} (h : d < 10) : isPlain (Nat.digitChar d) := by
  revert d
  decide

theorem isPlain_of_isDigit {c : Char} (h : c.isDigit) : isPlain c := by
  have hrange : 48 ≤ c.toNat ∧ c.toNat ≤ 57 := by
    simp only [Char.isDigit, Bool.and_eq_true, decide_eq_true_eq, ge_iff_le,
      UInt32.le_iff_toNat_le] at h
    exact h
  have hopen : c ≠ '[' := by
    rintro rfl
    exact absurd hrange (by decide)
  have hclose : c ≠ ']' := by
    rintro rfl
    exact absurd hrange (by decide)
  have hbreak : isLineBreak c = false := by
    simp only [isLineBreak, Bool.or_eq_false_iff, Bool.and_eq_false_iff, decide_eq_false_iff_not]
    omega
  simp [isPlain, hopen, hclose, hbreak]

theorem isPlain_fixed2 (q : ℚ) : ∀ c ∈ fixed2 q, isPlain c := by
  intro c hc
  simp only [fixed2, List.mem_append, List.mem_cons, List.not_mem_nil, or_false] at hc
  rcases hc with (hsign | hint) | rfl | rfl | rfl
  · split at hsign
    · rw [List.mem_singleton.mp hsign]
      decide
    · exact absurd hsign List.not_mem_nil
  · exact isPlain_of_isDigit (Nat.isDigit_of_mem_toDigits (by decide) (by decide) hint)
  · decide
  · exact isPlain_digitChar (by omega)
  · exact isPlain_digitChar (by omega)

theorem isPlain_statusValue (status : EpistemicStatus) : (statusValue status).all isPlain := by
  cases status <;> decide

theorem isPlain_gradeValue (grade : EffectiveGrade) : (gradeValue grade).all isPlain := by
  cases grade <;> decide

namespace RetrievedClaim

theorem isPlain_metaText (c : RetrievedClaim) : ∀ x ∈ c.metaText, isPlain x := by
  have hstatus : (c.epistemicStatus.elim "unknown".toList statusValue).all isPlain := by
    cases c.epistemicStatus with
    | none => decide
    | some status => exact isPlain_statusValue status
  have hgrade : (c.grade.elim [] fun g => ", ".toList ++ gradeValue g).all isPlain := by
    cases c.grade with
    | none => rfl
    | some grade =>
      rw [Option.elim_some, List.all_append, isPlain_gradeValue, Bool.and_true]
      decide
  have hconfidence : (c.confidence.elim [] fun p => ", p=".toList ++ fixed2 p).all isPlain := by
    cases c.confidence with
    | none => rfl
    | some p =>
      rw [Option.elim_some, List.all_append, List.all_eq_true.mpr (isPlain_fixed2 p),
        Bool.and_true]
      decide
  rw [← List.all_eq_true]
  simp only [metaText, List.all_cons, List.all_append, hstatus, hgrade, hconfidence,
    Bool.and_true, List.all_nil]
  decide

end RetrievedClaim

/-- The labels that a retrieved claim can have. -/
def isLabel (label : String) : Prop := label = "" ∨ label = pendingLabel ∨ label = invalidLabel

theorem not_mem_label {label : String} (h : isLabel label) :
    'c' ∉ label.toList ∧ ∀ c ∈ label.toList, !isLineBreak c := by
  rw [← List.all_eq_true]
  rcases h with rfl | rfl | rfl <;> decide

theorem RetrievalResult.Labelled.isLabel {result : RetrievalResult} (h : result.Labelled)
    {c : RetrievedClaim} (hc : c ∈ result.current ∨ c ∈ result.pendingInvalid) :
    isLabel c.label := by
  rcases hc with hc | hc
  · exact .inl (h.1 c hc)
  · exact .inr (h.2 c hc)

theorem not_mem_tag {body : Text} (h : claimTag.IsBody body) :
    ∀ c ∈ claimTag.tag body, c ≠ ' ' ∧ c ≠ '\n' ∧ ¬ isLineBreak c := by
  have hbody : ∀ c, claimTag.alphabet c → 45 ≤ c.toNat ∧ c.toNat ≤ 102 := by
    intro c hc
    simp only [claimTag, isHexSymbol, Bool.or_eq_true, Bool.and_eq_true, decide_eq_true_eq,
      Char.le_def, UInt32.le_iff_toNat_le] at hc
    rcases hc with ((h | h) | h) | rfl
    · exact ⟨le_trans (by decide) h.1, le_trans h.2 (by decide)⟩
    · exact ⟨le_trans (by decide) h.1, le_trans h.2 (by decide)⟩
    · exact ⟨le_trans (by decide) h.1, le_trans h.2 (by decide)⟩
    · decide
  intro c hc
  have hrange : 45 ≤ c.toNat ∧ c.toNat ≤ 102 := by
    simp only [TagForm.tag, List.mem_cons, List.mem_append, List.not_mem_nil, or_false] at hc
    rcases hc with rfl | (hc | hc) | rfl
    · decide
    · have hopening : claimTag.opening = ['c', ':'] := rfl
      rw [hopening] at hc
      fin_cases hc <;> decide
    · exact hbody c (h.2 c hc)
    · decide
  refine ⟨?_, ?_, ?_⟩
  · rintro rfl
    exact absurd hrange (by decide)
  · rintro rfl
    exact absurd hrange (by decide)
  · simp only [isLineBreak, Bool.or_eq_true, Bool.and_eq_true, decide_eq_true_eq]
    omega

theorem isBody_text (u : Uuid) : claimTag.IsBody u.text := by
  refine ⟨Uuid.length_text u, fun c hc => ?_⟩
  simpa [claimTag] using Uuid.mem_text hc

/-- A tag in the line of a claim is its own or one in its statement. -/
theorem tag_infix_line (uuid : ClaimId → Uuid) {c : RetrievedClaim} (hlabel : isLabel c.label)
    {body : Text} (hbody : claimTag.IsBody body) :
    claimTag.tag body <:+: c.line uuid ↔
      body = (uuid c.claimId).text ∨ claimTag.tag body <:+: c.statement.toList := by
  have hblank : ' ' ∉ claimTag.tag body := fun h => (not_mem_tag hbody _ h).1 rfl
  have hown : claimTag.tag body <:+: claimTag.tag (uuid c.claimId).text ↔
      body = (uuid c.claimId).text := by
    constructor
    · intro h
      exact TagForm.tag_injective (h.eq_of_length (TagForm.length_tag_eq hbody (isBody_text _)))
    · intro h
      rw [h]
  have hmeta : ¬ claimTag.tag body <:+: c.metaText := by
    intro h
    have hopen : '[' ∈ c.metaText := h.subset List.mem_cons_self
    exact absurd (c.isPlain_metaText _ hopen) (by decide)
  have hrest : claimTag.tag body <:+: c.statement.toList ++ ' ' :: c.metaText ↔
      claimTag.tag body <:+: c.statement.toList := by
    rw [infix_append_cons_iff hblank, or_iff_left hmeta]
  unfold RetrievedClaim.line RetrievedClaim.labelPrefix
  rw [infix_append_cons_iff hblank, hown]
  refine or_congr_right ?_
  split
  · rw [List.nil_append, hrest]
  · have hnone : ¬ claimTag.tag body <:+: c.label.toList := by
      intro h
      exact (not_mem_label hlabel).1 (h.subset (List.mem_cons_of_mem _ List.mem_cons_self))
    rw [List.append_assoc, List.singleton_append, infix_append_cons_iff hblank, hrest,
      or_iff_right hnone]

/-! ## Tags in the knowledge -/

section Pack

variable (isWord : Char → Bool) (uuid : ClaimId → Uuid)

theorem fitLine_chosen (budget : Int) (acc : Fitted) (line : ClaimId × Text) :
    (fitLine isWord budget acc line).chosen = acc.chosen ∨
      (fitLine isWord budget acc line).chosen = acc.chosen ++ [line.2] := by
  unfold fitLine
  dsimp only
  split
  · exact .inl rfl
  · exact .inr rfl

/-- The loop chooses among the lines. -/
theorem mem_fitToBudget {lines : List (ClaimId × Text)} {budget : Int} {l : Text}
    (h : l ∈ (fitToBudget isWord lines budget).chosen) : ∃ line ∈ lines, line.2 = l := by
  have hloop : ∀ (acc : Fitted), l ∈ (lines.foldl (fitLine isWord budget) acc).chosen →
      l ∈ acc.chosen ∨ ∃ line ∈ lines, line.2 = l := by
    clear h
    induction lines with
    | nil => exact fun acc h => .inl h
    | cons line lines ih =>
      intro acc h
      rcases ih _ h with h | ⟨line', hmem, rfl⟩
      · rcases fitLine_chosen isWord budget acc line with hc | hc
        · rw [hc] at h
          exact .inl h
        · rw [hc, List.mem_append, List.mem_singleton] at h
          exact h.imp_right fun h => ⟨line, List.mem_cons_self, h.symm⟩
      · exact .inr ⟨line', List.mem_cons_of_mem _ hmem, rfl⟩
  rcases hloop _ h with h | h
  · cases h
  · exact h

/-- The chosen lines of a section are the lines of the claims that it keeps. -/
theorem mem_chosen_iff {claims : List RetrievedClaim} {budget : Int} {l : Text} :
    l ∈ (fitToBudget isWord (claims.map fun c => (c.claimId, c.line uuid)) budget).chosen ↔
      ∃ c, keptLine isWord uuid claims budget c ∧ c.line uuid = l := by
  constructor
  · intro h
    obtain ⟨line, hline, rfl⟩ := mem_fitToBudget isWord h
    obtain ⟨c, hc, rfl⟩ := List.mem_map.mp hline
    exact ⟨c, ⟨hc, h⟩, rfl⟩
  · rintro ⟨c, hc, rfl⟩
    exact hc.2

variable {isWord uuid}

/-- A word without a break is in a section exactly when it is in one of its lines. -/
theorem infix_content_iff {w : Text} (hne : w ≠ []) (hw : '\n' ∉ w)
    {claims : List RetrievedClaim} {budget : Int} :
    w <:+: (fitToBudget isWord (claims.map fun c => (c.claimId, c.line uuid)) budget).content ↔
      ∃ c, keptLine isWord uuid claims budget c ∧ w <:+: c.line uuid := by
  unfold Fitted.content
  rw [infix_intercalate_iff hne hw]
  constructor
  · rintro ⟨l, hl, hword⟩
    obtain ⟨c, hc, rfl⟩ := (mem_chosen_iff isWord uuid).mp hl
    exact ⟨c, hc, hword⟩
  · rintro ⟨c, hc, hword⟩
    exact ⟨c.line uuid, hc.2, hword⟩

theorem infix_knowledgeLines_iff {w : Text} (hne : w ≠ []) (hw : ∀ c ∈ w, ¬ isLineBreak c)
    (sections : List ContextSection) :
    (∃ l ∈ knowledgeLines sections, w <:+: l) ↔ ∃ s ∈ sections, w <:+: s.content := by
  constructor
  · rintro ⟨l, hl, hword⟩
    obtain ⟨s, hs, hline⟩ := List.mem_flatMap.mp hl
    exact ⟨s, List.mem_of_mem_filter hs, (infix_iff_splitlines hne hw).mpr ⟨l, hline, hword⟩⟩
  · rintro ⟨s, hs, hword⟩
    obtain ⟨l, hline, hl⟩ := (infix_iff_splitlines hne hw).mp hword
    have hcontent : s.content ≠ [] := by
      intro h
      rw [h, List.infix_nil] at hword
      exact hne hword
    exact ⟨l, List.mem_flatMap.mpr ⟨s, List.mem_filter.mpr ⟨hs, by simpa using hcontent⟩, hline⟩,
      hl⟩

/-- A tag is in the knowledge exactly when it is in one of the sections. -/
theorem tag_infix_sections {sections : List ContextSection} {body : Text}
    (hbody : claimTag.IsBody body) :
    claimTag.tag body <:+: knowledgeText sections ↔
      ∃ s ∈ sections, claimTag.tag body <:+: s.content := by
  have hne : claimTag.tag body ≠ [] := List.cons_ne_nil _ _
  have hfeed : '\n' ∉ claimTag.tag body := fun h => (not_mem_tag hbody _ h).2.1 rfl
  have hbreak : ∀ c ∈ claimTag.tag body, ¬ isLineBreak c := fun c hc =>
    (not_mem_tag hbody c hc).2.2
  rw [← infix_knowledgeLines_iff hne hbreak sections, ← infix_intercalate_iff hne hfeed]
  unfold knowledgeText
  dsimp only
  split
  · rename_i hempty
    rw [hempty, List.infix_nil, iff_false_right hne]
    intro h
    have hopen : '[' ∈ "(пусто)".toList := h.subset List.mem_cons_self
    exact absurd hopen (by decide)
  · rfl

/-- A tag is in the knowledge exactly when it is in the line of a shown claim. -/
theorem tag_infix_knowledge {result : RetrievalResult} {budgets : ClaimBudgets} {body : Text}
    (hbody : claimTag.IsBody body) :
    claimTag.tag body <:+: knowledgeText (claimSections isWord uuid result budgets) ↔
      ∃ c, Shown isWord uuid result budgets c ∧ claimTag.tag body <:+: c.line uuid := by
  have hne : claimTag.tag body ≠ [] := List.cons_ne_nil _ _
  have hfeed : '\n' ∉ claimTag.tag body := fun h => (not_mem_tag hbody _ h).2.1 rfl
  rw [tag_infix_sections hbody]
  simp only [claimSections, List.mem_cons, List.not_mem_nil, or_false,
    exists_eq_left, claimSection, infix_content_iff hne hfeed, Shown, or_and_right, exists_or]

theorem mem_packClaimIds {knowledge : Text} {u : Uuid} :
    u ∈ packClaimIds knowledge ↔ mentions knowledge u := by
  have hloop : ∀ (bodies : List Text) (seen : List Uuid),
      u ∈ bodies.foldl (fun seen body =>
        match Uuid.parse body with
        | some u => if u ∈ seen then seen else seen ++ [u]
        | none => seen) seen ↔ u ∈ seen ∨ ∃ body ∈ bodies, Uuid.parse body = some u := by
    intro bodies
    induction bodies with
    | nil => simp
    | cons body bodies ih =>
      intro seen
      rw [List.foldl_cons, ih]
      cases hparse : Uuid.parse body with
      | none => simp [hparse]
      | some v =>
        by_cases hv : v ∈ seen
        · simp only [hv, if_true, List.exists_mem_cons_iff, hparse, Option.some.injEq]
          refine ⟨Or.imp_right .inr, ?_⟩
          rintro (h | rfl | h)
          · exact .inl h
          · exact .inl hv
          · exact .inr h
        · simp [hv, hparse, or_assoc, eq_comm]
  unfold packClaimIds mentions
  rw [hloop]
  simp [TagForm.mem_scan, and_assoc]

/-- What the text of the knowledge mentions: the shown claims and what they mention. -/
theorem mentions_knowledge {result : RetrievalResult} (hlabelled : result.Labelled)
    {budgets : ClaimBudgets} {u : Uuid} :
    mentions (knowledgeText (claimSections isWord uuid result budgets)) u ↔
      ∃ c, Shown isWord uuid result budgets c ∧
        (uuid c.claimId = u ∨ mentions c.statement.toList u) := by
  have hlabel : ∀ c, Shown isWord uuid result budgets c → isLabel c.label := by
    rintro c (h | h | h)
    · exact hlabelled.isLabel (.inl h.1)
    · exact hlabelled.isLabel (.inr h.1)
    · exact hlabelled.isLabel (.inl (List.mem_of_mem_filter h.1))
  constructor
  · rintro ⟨body, hbody, htag, hparse⟩
    obtain ⟨c, hc, hline⟩ := (tag_infix_knowledge hbody).mp htag
    refine ⟨c, hc, ?_⟩
    rcases (tag_infix_line uuid (hlabel c hc) hbody).mp hline with hown | hstatement
    · rw [hown, Uuid.parse_text, Option.some.injEq] at hparse
      exact .inl hparse
    · exact .inr ⟨body, hbody, hstatement, hparse⟩
  · rintro ⟨c, hc, hu | ⟨body, hbody, hstatement, hparse⟩⟩
    · refine ⟨(uuid c.claimId).text, isBody_text _, ?_, hu ▸ Uuid.parse_text _⟩
      exact (tag_infix_knowledge (isBody_text _)).mpr
        ⟨c, hc, (tag_infix_line uuid (hlabel c hc) (isBody_text _)).mpr (.inl rfl)⟩
    · exact ⟨body, hbody, (tag_infix_knowledge hbody).mpr
        ⟨c, hc, (tag_infix_line uuid (hlabel c hc) hbody).mpr (.inr hstatement)⟩, hparse⟩

/-! ## Labels and lines -/

theorem collect_labelled {shielded : List ClaimId} {pendingLimit now : Nat}
    {acc : RetrievalResult} (h : acc.Labelled) (row : RetrievalRow) :
    (collect shielded pendingLimit now acc row).Labelled := by
  have hadd : ∀ {p : RetrievedClaim → Prop} {claims : List RetrievedClaim},
      (∀ c ∈ claims, p c) → p (row.toClaim now) → ∀ c ∈ claims ++ [row.toClaim now], p c := by
    intro p claims hclaims hrow c hc
    rcases List.mem_append.mp hc with hc | hc
    · exact hclaims c hc
    · rw [List.mem_singleton.mp hc]
      exact hrow
  have hlabel : (row.toClaim now).label = Head.label row.head := rfl
  unfold collect
  dsimp only
  cases hhead : row.head with
  | current assessment status =>
    rw [hhead] at hlabel
    simp only [Head.state]
    split_ifs
    · exact h
    · exact h
    · exact ⟨hadd h.1 hlabel, h.2⟩
  | pending =>
    rw [hhead] at hlabel
    simp only [Head.state]
    split_ifs
    · exact h
    · exact ⟨h.1, hadd h.2 (.inl hlabel)⟩
    · exact h
  | invalid =>
    rw [hhead] at hlabel
    simp only [Head.state]
    split_ifs
    · exact h
    · exact ⟨h.1, hadd h.2 (.inr hlabel)⟩
    · exact h

/-- What the retrieval returns is labelled. -/
theorem retrieve_labelled (store : RetrievalStore) (rank : TextRank) (question : String)
    (snap : SnapshotId) (currentLimit pendingLimit now : Nat) :
    (retrieve store rank question snap currentLimit pendingLimit now).Labelled := by
  have hloop : ∀ (rows : List RetrievalRow) (acc : RetrievalResult), acc.Labelled →
      (rows.foldl (collect store.protectedClaimIds pendingLimit now) acc).Labelled := by
    intro rows
    induction rows with
    | nil => exact fun acc h => h
    | cons row rows ih => exact fun acc h => ih _ (collect_labelled h row)
  obtain ⟨hcurrent, hpending⟩ := hloop
    ((store.ranked rank question snap).take (currentLimit + pendingLimit)) ⟨[], []⟩
    ⟨List.forall_mem_nil _, List.forall_mem_nil _⟩
  refine ⟨fun c hc => hcurrent c ?_, fun c hc => hpending c ?_⟩
  · exact (List.perm_insertionSort _ _).mem_iff.mp hc
  · exact (List.perm_insertionSort _ _).mem_iff.mp hc

/-- The lines of a labelled claim have the label exactly when the lines of its statement
after the first have it. -/
theorem labelled_line_iff {c : RetrievedClaim}
    (h : c.label = pendingLabel ∨ c.label = invalidLabel) :
    (∀ l ∈ splitlines (c.line uuid), c.label.toList <:+: l) ↔
      ∀ l ∈ (pieces c.statement.toList).tail, c.label.toList <:+: l := by
  have hlast : c.label.toList.getLast? = some ']' := by
    rcases h with h | h <;> rw [h] <;> decide
  have hne : c.label ≠ "" := by
    rcases h with h | h <;> rw [h] <;> decide
  have hplain := c.isPlain_metaText
  have hpost : ']' ∉ ' ' :: c.metaText := by
    rw [List.mem_cons, not_or]
    exact ⟨by decide, fun hmem => absurd (hplain _ hmem) (by decide)⟩
  have hline : c.line uuid = (claimTag.tag (uuid c.claimId).text ++
      ' ' :: (c.label.toList ++ [' '])) ++ (c.statement.toList ++ ' ' :: c.metaText) := by
    simp [RetrievedClaim.line, RetrievedClaim.labelPrefix, hne]
  rw [hline]
  refine forall_splitlines_within hlast hpost ?_ ?_ (List.cons_ne_nil _ _)
  · exact ⟨claimTag.tag (uuid c.claimId).text ++ [' '], [' '], by simp⟩
  · intro x hx
    simp only [List.mem_append, List.mem_cons, List.not_mem_nil, or_false] at hx
    rcases hx with (hx | rfl | hx | rfl) | rfl | hx
    · exact (not_mem_tag (isBody_text _) x hx).2.2
    · decide
    · simpa using (not_mem_label (.inr h)).2 x hx
    · decide
    · decide
    · have := hplain x hx
      simp only [isPlain, Bool.and_eq_true, Bool.not_eq_eq_eq_not, Bool.not_true] at this
      simp [this.2]

/-- **What is read back.** The host reads back from the knowledge exactly the claims that
are shown, and every line of a shown pending or invalid claim has its label, exactly when
the claim tags in the statements of shown claims name shown claims and the statements of
shown pending or invalid claims repeat the label in each of their lines after the first. -/
theorem showsFaithfully_iff {result : RetrievalResult} (hlabelled : result.Labelled)
    (budgets : ClaimBudgets) :
    ShowsFaithfully isWord uuid result budgets ↔
      TagsShown isWord uuid result budgets ∧ LinesLabelled isWord uuid result budgets := by
  have hids : ∀ u, u ∈ packClaimIds (knowledgeText (claimSections isWord uuid result budgets)) ↔
      ∃ c, Shown isWord uuid result budgets c ∧
        (uuid c.claimId = u ∨ mentions c.statement.toList u) :=
    fun u => mem_packClaimIds.trans (mentions_knowledge hlabelled)
  have hlines : ∀ c, keptLine isWord uuid result.pendingInvalid budgets.pendingClaims c →
      ((∀ l ∈ splitlines (c.line uuid), c.label.toList <:+: l) ↔
        ∀ l ∈ (pieces c.statement.toList).tail, c.label.toList <:+: l) :=
    fun c hc => labelled_line_iff (hlabelled.2 c hc.1)
  constructor
  · intro h
    refine ⟨fun c hc u hu => ?_, fun c hc => (hlines c hc).mp (h.labels c hc)⟩
    exact (h.ids u).mp ((hids u).mpr ⟨c, hc, .inr hu⟩)
  · rintro ⟨htags, hlabels⟩
    refine ⟨fun u => (hids u).trans ⟨?_, ?_⟩, fun c hc => (hlines c hc).mpr (hlabels c hc)⟩
    · rintro ⟨c, hc, hu | hu⟩
      · exact ⟨c, hc, hu⟩
      · exact htags c hc u hu
    · rintro ⟨c, hc, hu⟩
      exact ⟨c, hc, .inl hu⟩

end Pack

/-! ## Statements with tags and breaks -/

/-- A current claim, or a pending one. -/
def plainClaim (id : ClaimId) (state : AssessmentState) (statement : Text) : RetrievedClaim where
  claimId := id
  statement := String.ofList statement
  claimType := "external_fact"
  assessmentState := state
  epistemicStatus := if state = .current then some .supported else none
  grade := none
  confidence := none
  freshness := .fresh
  relevance := 1
  score := 1
  label := if state = .current then "" else pendingLabel

/-- The ids are numbered. -/
def plainUuid (c : ClaimId) : Uuid := BitVec.ofNat 128 c

/-- A budget for one line. -/
def lineBudget (c : RetrievedClaim) : ClaimBudgets :=
  let cost : Int := estimateTokens Char.isAlpha (c.line plainUuid)
  ⟨cost, cost, cost⟩

/-- The only line is kept where it fits. -/
theorem keptLine_single {isWord : Char → Bool} {uuid : ClaimId → Uuid} {c : RetrievedClaim}
    {budget : Int} (h : (estimateTokens isWord (c.line uuid) : Int) ≤ budget) :
    keptLine isWord uuid [c] budget c := by
  refine ⟨List.mem_singleton_self c, ?_⟩
  have hfits : ¬ budget < ((0 + estimateTokens isWord (c.line uuid) : Nat) : Int) := by
    rw [Nat.zero_add]
    exact not_lt.mpr h
  have hturn : fitLine isWord budget ⟨[], 0, [], false⟩ (c.claimId, c.line uuid) =
      ⟨[c.line uuid], 0 + estimateTokens isWord (c.line uuid), [], false⟩ := if_neg hfits
  rw [List.map_singleton, fitToBudget, List.foldl_cons, List.foldl_nil, hturn]
  exact List.mem_singleton_self _

/-- A current claim that names the pending claim behind it. -/
def referringClaim : RetrievedClaim := plainClaim 1 .current (claimTag.tag (plainUuid 2).text)

/-- A pending claim of two lines; the second one repeats the label. -/
def labelledClaim : RetrievedClaim :=
  plainClaim 2 .pending ('x' :: '\n' :: pendingLabel.toList)

/-- The two claims are shown, the name of the pending one is read back with them, and each of
its lines has the label. -/
theorem showsFaithfully_iff_referring :
    let result : RetrievalResult := ⟨[referringClaim], [labelledClaim]⟩
    let budgets : ClaimBudgets := { lineBudget labelledClaim with
      claimsEvidence := (lineBudget referringClaim).claimsEvidence }
    Shown Char.isAlpha plainUuid result budgets referringClaim ∧
      keptLine Char.isAlpha plainUuid result.pendingInvalid budgets.pendingClaims labelledClaim ∧
      ShowsFaithfully Char.isAlpha plainUuid result budgets := by
  intro result budgets
  have hcurrent : Shown Char.isAlpha plainUuid result budgets referringClaim :=
    .inl (keptLine_single le_rfl)
  have hpending : keptLine Char.isAlpha plainUuid result.pendingInvalid budgets.pendingClaims
      labelledClaim := keptLine_single le_rfl
  have hlabelled : result.Labelled :=
    ⟨by simp [result, referringClaim, plainClaim], by simp [result, labelledClaim, plainClaim]⟩
  refine ⟨hcurrent, hpending, (showsFaithfully_iff hlabelled budgets).mpr ⟨?_, ?_⟩⟩
  · intro c hc u hu
    have hread : u ∈ packClaimIds c.statement.toList := mem_packClaimIds.mpr hu
    have hcases : c = referringClaim ∨ c = labelledClaim := by
      rcases hc with hc | hc | hc
      · exact .inl (List.mem_singleton.mp hc.1)
      · exact .inr (List.mem_singleton.mp hc.1)
      · exact .inl (List.mem_singleton.mp (List.mem_of_mem_filter hc.1))
    rcases hcases with rfl | rfl
    · have hids : packClaimIds referringClaim.statement.toList = [plainUuid 2] := by
        decide
      rw [hids] at hread
      exact ⟨labelledClaim, .inr (.inl hpending), (List.mem_singleton.mp hread).symm⟩
    · have hids : packClaimIds labelledClaim.statement.toList = [] := by decide
      rw [hids] at hread
      cases hread
  · intro c hc l hl
    obtain rfl := List.mem_singleton.mp hc.1
    have hpieces : (pieces labelledClaim.statement.toList).tail = [pendingLabel.toList] := by
      decide
    rw [hpieces, List.mem_singleton] at hl
    subst hl
    exact List.infix_refl _

/-- A claim whose statement is the tag of another claim makes that one readable, and a
pending claim with a line break in its statement has a line without a label. -/
theorem statement_misread :
    (¬ ∀ (isWord : Char → Bool) (uuid : ClaimId → Uuid) (result : RetrievalResult)
        (budgets : ClaimBudgets), result.Labelled → ∀ u,
        u ∈ packClaimIds (knowledgeText (claimSections isWord uuid result budgets)) →
          ∃ c, Shown isWord uuid result budgets c ∧ uuid c.claimId = u) ∧
    ¬ ∀ (isWord : Char → Bool) (uuid : ClaimId → Uuid) (result : RetrievalResult)
        (budgets : ClaimBudgets), result.Labelled → ∀ c,
        keptLine isWord uuid result.pendingInvalid budgets.pendingClaims c →
          ∀ l ∈ splitlines (c.line uuid), c.label.toList <:+: l := by
  constructor
  · intro h
    let c := plainClaim 1 .current (claimTag.tag (plainUuid 2).text)
    have hlabelled : RetrievalResult.Labelled ⟨[c], []⟩ := ⟨by simp [c, plainClaim], by simp⟩
    have hmention : mentions c.statement.toList (plainUuid 2) :=
      ⟨(plainUuid 2).text, isBody_text _, by simp [c, plainClaim], Uuid.parse_text _⟩
    have hkept : keptLine Char.isAlpha plainUuid [c] (lineBudget c).claimsEvidence c :=
      keptLine_single le_rfl
    have hshown : mentions (knowledgeText
        (claimSections Char.isAlpha plainUuid ⟨[c], []⟩ (lineBudget c))) (plainUuid 2) :=
      (mentions_knowledge hlabelled).mpr ⟨c, .inl hkept, .inr hmention⟩
    have hread := mem_packClaimIds.mpr hshown
    obtain ⟨c', hc', hu⟩ := h Char.isAlpha plainUuid ⟨[c], []⟩ (lineBudget c) hlabelled _ hread
    have hid : c'.claimId = 1 := by
      rcases hc' with hc' | hc' | hc'
      · rw [List.mem_singleton.mp hc'.1]
        rfl
      · exact absurd hc'.1 List.not_mem_nil
      · rw [List.mem_singleton.mp (List.mem_of_mem_filter hc'.1)]
        rfl
    rw [hid] at hu
    exact absurd hu (by decide)
  · intro h
    let c := plainClaim 1 .pending ['\n']
    have hlines := h Char.isAlpha plainUuid ⟨[], [c]⟩ (lineBudget c)
      ⟨by simp, by simp [c, plainClaim]⟩ c (keptLine_single le_rfl)
    have hempty := (@labelled_line_iff plainUuid c (.inl rfl)).mp hlines []
      (by simp [c, plainClaim, pieces, isLineBreak])
    rw [List.infix_nil] at hempty
    exact absurd hempty (by decide)

end Noezema.Cognition
