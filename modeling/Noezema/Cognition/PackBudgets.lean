import Noezema.Cognition.TokenCount

/-! # The budgets of a context pack

`ContextBuilder.build`: each section has an absolute limit, the sum of the configured limits
is validated against the input budget, and each section is cut to its own limit. The protocol
is cut by symbols and counted by tokens, and a section without a configured limit has a
default one, which the validated sum does not contain.

`accounted_iff`: when every section is within its limit and counted as it is.
-/

namespace Noezema.Cognition

open Noezema.Lib Noezema.Memory

/-! ## Budgets -/

/-- The context window in the model section of a snapshot. -/
structure ModelLimits where
  contextWindow : Option Int
  backendContextLimit : Option Int
  maxOutputTokens : Option Int
  safetyMarginTokens : Option Int

/-- The sections of a config snapshot that the builder reads. -/
structure PackConfig where
  model : ModelLimits
  tokenBudgets : List (String × Int)
  distinct : (tokenBudgets.map (·.1)).Nodup

structure TokenBudgets where
  sectionLimits : List (String × Int)
  inputBudget : Int

inductive BudgetProblem where
  | sum (total inputBudget : Int)
  | negative (name : String) (limit : Int)
deriving DecidableEq, Repr

namespace TokenBudgets

/-- `from_snapshot`. -/
def fromSnapshot (model : ModelLimits) (limits : List (String × Int)) : TokenBudgets where
  sectionLimits := limits
  inputBudget := min (model.contextWindow.getD 32768) (model.backendContextLimit.getD 32768) -
    model.maxOutputTokens.getD 0 - model.safetyMarginTokens.getD 0

def validate (b : TokenBudgets) : List BudgetProblem :=
  let total := (b.sectionLimits.map (·.2)).sum
  (if b.inputBudget < total then [.sum total b.inputBudget] else []) ++
    b.sectionLimits.filterMap fun l => if l.2 < 0 then some (.negative l.1 l.2) else none

end TokenBudgets

/-- `PENDING_SECTION`. -/
def pendingSection : String := "pending_claims"

structure ContextBuilder where
  pendingBudget : Int
  budgets : TokenBudgets

namespace ContextBuilder

/-- The limit of the pending claims is taken out of the others. -/
def ofSnapshot (snapshot : PackConfig) : ContextBuilder where
  pendingBudget := (snapshot.tokenBudgets.lookup pendingSection).getD 1024
  budgets := .fromSnapshot snapshot.model
    (snapshot.tokenBudgets.filter fun l => l.1 ≠ pendingSection)

/-- `_limit`. -/
def limit (b : ContextBuilder) (name : String) (default : Int) : Int :=
  (b.budgets.sectionLimits.lookup name).getD default

end ContextBuilder

/-! ## The sections -/

/-- An entry of `exclusions`. -/
structure Exclusion where
  sectionName : String
  chunk : Option ClaimId
  reason : String
deriving DecidableEq, Repr

structure ContextPack where
  sections : List ContextSection
  totalTokens : Nat
  inputBudget : Int
  exclusions : List Exclusion
  pendingClaimIds : List ClaimId

/-- The texts of a session. -/
structure SessionTexts where
  protocol : Text
  identity : Text
  questionText : Text
  plan : Text
  lastSession : Text
  messages : List Text
  recentErrors : List Text

section Build

-- which code points are of a word, and the id of a claim
variable (isWord : Char → Bool) (uuid : ClaimId → Uuid)

/-- The loop of `_fit_section`: it stops at the first line that does not fit. -/
def keepLines (budget : Int) : Nat → List Text → List Text
  | _, [] => []
  | used, line :: rest =>
    let cost := estimateTokens isWord line
    if budget < (used + cost : Nat) then [] else line :: keepLines budget (used + cost) rest

/-- `_fit_section`. -/
def fitSection (name : String) (content : Text) (budget : Int) : ContextSection :=
  let truncated : Bool := budget < estimateTokens isWord content
  let content := if truncated then
    List.intercalate ['\n'] (keepLines isWord budget 0 (splitlines content)) else content
  ⟨name, content, estimateTokens isWord content, budget, truncated, []⟩

/-- The hard section: cut to four symbols a token, and counted as cut to the limit. -/
def protocolSection (protocol : Text) (budget : Int) : ContextSection :=
  let tokens := estimateTokens isWord protocol
  ⟨"protocol", protocol.take (budget * 4).toNat, (min (tokens : Int) budget).toNat, budget,
    budget < tokens, []⟩

/-- The headings `# Вопрос` and `# План`. -/
def questionHeading : Text := ['#', ' ', 'В', 'о', 'п', 'р', 'о', 'с']

def planHeading : Text := ['#', ' ', 'П', 'л', 'а', 'н']

/-- `question_plan`. -/
def questionPlan (questionText plan : Text) : Text :=
  questionHeading ++ '\n' :: (questionText ++ '\n' :: '\n' :: (planHeading ++ '\n' :: plan))

/-- The exclusion of a section that is cut. -/
def cutExclusion (s : ContextSection) (reason : String) : List Exclusion :=
  if s.truncated then [⟨s.name, none, reason⟩] else []

/-- The exclusions of a claim section. -/
def claimExclusions (name : String) (claims : List RetrievedClaim) (budget : Int)
    (reason : String) : List Exclusion :=
  (fitToBudget isWord (claims.map fun c => (c.claimId, c.line uuid)) budget).excluded.map
    fun c => ⟨name, some c, reason⟩

namespace ContextBuilder

/-- The fixed sections, each cut to its limit. -/
def textSections (b : ContextBuilder) (texts : SessionTexts) : List ContextSection :=
  [fitSection isWord "identity" texts.identity (b.limit "identity" 2048),
    fitSection isWord "question_plan" (questionPlan texts.questionText texts.plan)
      (b.limit "question_plan" 3072),
    fitSection isWord "last_session" texts.lastSession (b.limit "last_session" 2048),
    fitSection isWord "messages" (List.intercalate ['\n'] texts.messages)
      (b.limit "messages" 2048),
    fitSection isWord "recent_errors" (List.intercalate ['\n'] texts.recentErrors)
      (b.limit "recent_errors" 2048)]

/-- The sections of the claims; the contradictions carry no chunk ids. -/
def knowledgeSections (b : ContextBuilder) (result : RetrievalResult) : List ContextSection :=
  [claimSection isWord uuid "claims_evidence" result.current (b.limit "claims_evidence" 8192),
    { claimSection isWord uuid "contradictions" result.disputed
        (b.limit "contradictions" 3072) with chunkIds := [] },
    claimSection isWord uuid pendingSection result.pendingInvalid b.pendingBudget]

/-- `build`, for what the retrieval returns. -/
def build (b : ContextBuilder) (texts : SessionTexts) (result : RetrievalResult) :
    Except (List BudgetProblem) ContextPack :=
  let problems := b.budgets.validate
  if problems ≠ [] then .error problems
  else
    let protocol := protocolSection isWord texts.protocol (b.limit "protocol" 4096)
    let sections := protocol :: (b.textSections isWord texts ++
      b.knowledgeSections isWord uuid result)
    .ok {
      sections := sections
      totalTokens := (sections.map (·.tokens)).sum
      inputBudget := b.budgets.inputBudget
      exclusions := cutExclusion protocol "exceeded_hard_reservation" ++
        (b.textSections isWord texts).flatMap (cutExclusion · "budget") ++
        claimExclusions isWord uuid "claims_evidence" result.current
          (b.limit "claims_evidence" 8192) "budget" ++
        claimExclusions isWord uuid "contradictions" result.disputed
          (b.limit "contradictions" 3072) "budget" ++
        claimExclusions isWord uuid pendingSection result.pendingInvalid b.pendingBudget
          "no_budget_for_labeled_line"
      pendingClaimIds := result.pendingInvalid.map (·.claimId) }

end ContextBuilder

/-! ## The accounting -/

/-- **The accounting is true**: every section is counted as it is and within its budget, and
all but the pending claims are within the input budget. -/
structure ContextPack.Accounted (pack : ContextPack) : Prop where
  counted : ∀ s ∈ pack.sections, s.tokens = estimateTokens isWord s.content
  fits : ∀ s ∈ pack.sections, (s.tokens : Int) ≤ s.budget
  sum : ((((pack.sections.filter fun s => s.name ≠ pendingSection).map (·.tokens)).sum : Nat) :
    Int) ≤ pack.inputBudget

end Build

/-- What a claim section can spend of its limit: no line is shorter than sixteen tokens. -/
def claimSpend (limit : Int) : Int := if limit < 16 then 0 else limit

/-- What the question and the plan can spend: the first heading has two tokens. -/
def questionSpend (limit : Int) : Int := if limit = 1 then 0 else limit

/-- What the sections besides the protocol and the pending claims can spend. -/
def ContextBuilder.spend (b : ContextBuilder) : Int :=
  b.limit "identity" 2048 + questionSpend (b.limit "question_plan" 3072) +
    b.limit "last_session" 2048 + b.limit "messages" 2048 + b.limit "recent_errors" 2048 +
    claimSpend (b.limit "claims_evidence" 8192) + claimSpend (b.limit "contradictions" 3072)

/-! ## The limits -/

theorem TokenBudgets.validate_eq_nil {b : TokenBudgets} :
    b.validate = [] ↔ (b.sectionLimits.map (·.2)).sum ≤ b.inputBudget ∧
      ∀ l ∈ b.sectionLimits, 0 ≤ l.2 := by
  unfold validate
  rw [List.append_eq_nil_iff]
  apply and_congr
  · simp
  · simp [List.filterMap_eq_nil_iff]

theorem ContextBuilder.limit_nonneg {b : ContextBuilder} (h : b.budgets.validate = [])
    {default : Int} (hdefault : 0 ≤ default) (name : String) : 0 ≤ b.limit name default := by
  unfold limit
  cases hlookup : b.budgets.sectionLimits.lookup name with
  | none => exact hdefault
  | some limit =>
    obtain ⟨l, r, hsplit, -⟩ := List.lookup_eq_some_iff.mp hlookup
    refine (TokenBudgets.validate_eq_nil.mp h).2 (name, limit) ?_
    rw [hsplit]
    exact List.mem_append_right _ List.mem_cons_self

/-- Limits of different names sum up to no more than all limits. -/
theorem sum_lookup_le {limits : List (String × Int)} (h : ∀ l ∈ limits, 0 ≤ l.2)
    {names : List String} (hnames : names.Nodup) :
    (names.map fun name => (limits.lookup name).getD 0).sum ≤ (limits.map (·.2)).sum := by
  induction limits generalizing names with
  | nil => simp
  | cons l rest ih =>
    obtain ⟨key, value⟩ := l
    have hvalue : 0 ≤ value := h _ List.mem_cons_self
    have hrest : ∀ l ∈ rest, 0 ≤ l.2 := fun l hl => h l (List.mem_cons_of_mem _ hl)
    -- a name other than the key is looked up in the rest
    have hother : ∀ {names : List String}, key ∉ names →
        names.map (fun name => (((key, value) :: rest).lookup name).getD 0) =
          names.map fun name => (rest.lookup name).getD 0 := by
      intro names hkey
      apply List.map_congr_left
      intro name hname
      have hne : (name == key) = false := by
        rw [beq_eq_false_iff_ne]
        rintro rfl
        exact hkey hname
      rw [List.lookup_cons, hne]
    rw [List.map_cons, List.sum_cons]
    by_cases hkey : key ∈ names
    · have hperm := (List.perm_cons_erase hkey).map
        fun name => (((key, value) :: rest).lookup name).getD 0
      rw [hperm.sum_eq, List.map_cons, List.sum_cons, hother hnames.not_mem_erase,
        List.lookup_cons_self, Option.getD_some]
      exact Int.add_le_add_left (ih hrest (hnames.erase key)) _
    · rw [hother hkey]
      exact (ih hrest hnames).trans (Int.le_add_of_nonneg_left hvalue)

theorem claimSpend_le {limit : Int} (h : 0 ≤ limit) : claimSpend limit ≤ limit := by
  unfold claimSpend
  split <;> omega

theorem questionSpend_le {limit : Int} (h : 0 ≤ limit) : questionSpend limit ≤ limit := by
  unfold questionSpend
  split <;> omega

section Sections

variable {isWord : Char → Bool} {uuid : ClaimId → Uuid}

/-! ## Sections of a text -/

/-- **The kept lines** cost no more than the budget. -/
theorem keepLines_le {budget : Int} {used : Nat} (h : (used : Int) ≤ budget)
    (lines : List Text) :
    ((used + ((keepLines isWord budget used lines).map (estimateTokens isWord)).sum : Nat) : Int) ≤
      budget := by
  induction lines generalizing used with
  | nil => simpa [keepLines] using h
  | cons line rest ih =>
    unfold keepLines
    dsimp only
    split
    · simpa using h
    · rename_i hfits
      rw [List.map_cons, List.sum_cons, ← Nat.add_assoc]
      exact ih (not_lt.mp hfits)

/-- A section is within its budget. -/
theorem fitSection_fits (hword : WordChars isWord) (name : String) (content : Text)
    {budget : Int} (h : 0 ≤ budget) :
    ((fitSection isWord name content budget).tokens : Int) ≤ budget := by
  unfold fitSection
  dsimp only
  by_cases hcut : budget < estimateTokens isWord content
  · rw [if_pos (decide_eq_true hcut), hword.estimateTokens_lines]
    have hzero : ((0 : Nat) : Int) ≤ budget := by simpa using h
    simpa using keepLines_le hzero (splitlines content)
  · rw [if_neg (by simpa using hcut)]
    exact not_lt.mp hcut

/-- A text of the length of the limit spends the limit. -/
theorem fitSection_spends (hword : WordChars isWord) (name : String) {budget : Int}
    (h : 0 ≤ budget) :
    ((fitSection isWord name (List.replicate budget.toNat '#') budget).tokens : Int) =
      budget := by
  have hcount : (estimateTokens isWord (List.replicate budget.toNat '#') : Int) = budget := by
    rw [hword.estimateTokens_replicate, Int.toNat_of_nonneg h]
  unfold fitSection
  dsimp only
  rw [if_neg (by simp [hcount]), hcount]

/-! ## The question and the plan -/

/-- A line without a break in front of a text. -/
theorem pieces_line {line : Text} (h : ∀ c ∈ line, ¬ isLineBreak c) (rest : Text) :
    pieces (line ++ '\n' :: rest) = line :: pieces rest := by
  have hfeed : line.getLast? = some '\r' → ('\n' :: rest).head? ≠ some '\n' := fun hlast =>
    absurd (h _ (List.mem_of_getLast? hlast)) (by decide)
  rw [pieces_append hfeed, pieces_of_unbroken h, pieces_cons_of_break (by decide) (by simp)]
  exact glue_nil_cons (List.cons_ne_nil _ _) _

theorem splitlines_line {line : Text} (h : ∀ c ∈ line, ¬ isLineBreak c) (rest : Text) :
    splitlines (line ++ '\n' :: rest) = line :: splitlines rest := by
  unfold splitlines
  rw [pieces_line h]
  obtain ⟨p, ps, hp⟩ := List.exists_cons_of_ne_nil (pieces_ne_nil rest)
  rw [hp, List.getLast?_cons_cons, List.dropLast_cons_cons]
  split <;> rfl

theorem heading_unbroken :
    (∀ c ∈ questionHeading, ¬ isLineBreak c) ∧ ∀ c ∈ planHeading, ¬ isLineBreak c := by
  constructor
  · simp [questionHeading, isLineBreak]
  · simp [planHeading, isLineBreak]

/-- A heading has two tokens. -/
theorem estimateTokens_heading (hword : WordChars isWord) :
    estimateTokens isWord questionHeading = 2 ∧ estimateTokens isWord planHeading = 2 := by
  have hone : ∀ w : Text, w ≠ [] → (∀ c ∈ w, c ∈ "ВопросПлан".toList) →
      estimateTokens isWord ('#' :: ' ' :: w) = 2 := by
    intro w hne hsub
    rw [hword.symbol (by decide), hword.estimateTokens_space (by decide),
      estimateTokens_word hne fun c hc => hword.headings c (hsub c hc)]
  exact ⟨hone ['В', 'о', 'п', 'р', 'о', 'с'] (List.cons_ne_nil _ _) (by simp),
    hone ['П', 'л', 'а', 'н'] (List.cons_ne_nil _ _) (by simp)⟩

theorem estimateTokens_questionPlan (hword : WordChars isWord) (questionText plan : Text) :
    estimateTokens isWord (questionPlan questionText plan) =
      4 + estimateTokens isWord questionText + estimateTokens isWord plan := by
  obtain ⟨hquestion, hplan⟩ := estimateTokens_heading hword
  have hbreak : isSpace '\n' := by decide
  rw [questionPlan, hword.estimateTokens_between hbreak, hword.estimateTokens_between hbreak,
    hword.estimateTokens_space hbreak, hword.estimateTokens_between hbreak, hquestion, hplan]
  omega

/-- With one token not even the first heading fits. -/
theorem questionPlan_one (hword : WordChars isWord) (questionText plan : Text) :
    (fitSection isWord "question_plan" (questionPlan questionText plan) 1).tokens = 0 := by
  have hcut : (1 : Int) < estimateTokens isWord (questionPlan questionText plan) := by
    rw [estimateTokens_questionPlan hword]
    omega
  unfold fitSection
  dsimp only
  rw [if_pos (decide_eq_true hcut), questionPlan, splitlines_line heading_unbroken.1,
    keepLines, (estimateTokens_heading hword).1]
  rfl

/-- Any other limit can be spent. -/
theorem questionPlan_spends (hword : WordChars isWord) {budget : Int} (h : 2 ≤ budget) :
    ((fitSection isWord "question_plan" (questionPlan (List.replicate (budget - 2).toNat '#') [])
      budget).tokens : Int) = budget := by
  obtain ⟨hquestion, hplan⟩ := estimateTokens_heading hword
  have hmarks := hword.estimateTokens_replicate (budget - 2).toNat
  have hcut : budget < estimateTokens isWord
      (questionPlan (List.replicate (budget - 2).toNat '#') []) := by
    rw [estimateTokens_questionPlan hword, hmarks]
    omega
  have hunbroken : ∀ c ∈ List.replicate (budget - 2).toNat '#', ¬ isLineBreak c := by
    intro c hc
    rw [List.eq_of_mem_replicate hc]
    decide
  have hlines : splitlines (questionPlan (List.replicate (budget - 2).toNat '#') []) =
      [questionHeading, List.replicate (budget - 2).toNat '#', [], planHeading] := by
    rw [questionPlan, splitlines_line heading_unbroken.1, splitlines_line hunbroken,
      ← List.nil_append ('\n' :: _), splitlines_line (List.forall_mem_nil _),
      splitlines_line heading_unbroken.2]
    rfl
  have hkept : keepLines isWord budget 0
      [questionHeading, List.replicate (budget - 2).toNat '#', [], planHeading] =
        [questionHeading, List.replicate (budget - 2).toNat '#', []] := by
    simp only [keepLines, hquestion, hmarks, hplan, estimateTokens_nil]
    rw [if_neg (by omega), if_neg (by omega), if_neg (by omega), if_pos (by omega)]
  unfold fitSection
  dsimp only
  rw [if_pos (decide_eq_true hcut), hlines, hkept, hword.estimateTokens_lines]
  simp only [List.map_cons, List.map_nil, List.sum_cons, List.sum_nil, hquestion, hmarks,
    estimateTokens_nil]
  omega

/-! ## Sections of claims -/

/-- A fitted list is counted as it is, within the budget. -/
structure Fitted.Counted (isWord : Char → Bool) (budget : Int) (f : Fitted) : Prop where
  used : f.used = (f.chosen.map (estimateTokens isWord)).sum
  fits : (f.used : Int) ≤ budget
  lines : ∀ l ∈ f.chosen, (estimateTokens isWord l : Int) ≤ budget

/-- **One turn** of the loop. -/
theorem Fitted.Counted.fitLine {budget : Int} {f : Fitted} (h : f.Counted isWord budget)
    (line : ClaimId × Text) : (fitLine isWord budget f line).Counted isWord budget := by
  unfold Cognition.fitLine
  dsimp only
  split
  · exact ⟨h.used, h.fits, h.lines⟩
  · rename_i hfits
    refine ⟨?_, not_lt.mp hfits, ?_⟩
    · simp [h.used]
    · intro l hl
      rcases List.mem_append.mp hl with hl | hl
      · exact h.lines l hl
      · obtain rfl := List.mem_singleton.mp hl
        have := not_lt.mp hfits
        push_cast at this
        omega

/-- **The loop** keeps the count. -/
theorem fitToBudget_counted {budget : Int} (h : 0 ≤ budget) (lines : List (ClaimId × Text)) :
    (fitToBudget isWord lines budget).Counted isWord budget := by
  have hloop : ∀ f : Fitted, f.Counted isWord budget →
      (lines.foldl (fitLine isWord budget) f).Counted isWord budget := by
    induction lines with
    | nil => exact fun f hf => hf
    | cons line rest ih => exact fun f hf => ih _ (hf.fitLine line)
  exact hloop _ ⟨rfl, by simpa using h, List.forall_mem_nil _⟩

/-- The tokens of a claim section are those of its lines. -/
theorem claimSection_tokens (hword : WordChars isWord) (name : String)
    (claims : List RetrievedClaim) {budget : Int} (h : 0 ≤ budget) :
    (claimSection isWord uuid name claims budget).tokens =
      (fitToBudget isWord (claims.map fun c => (c.claimId, c.line uuid)) budget).used := by
  rw [(fitToBudget_counted h _).used, ← hword.estimateTokens_lines]
  rfl

theorem claimSection_fits (hword : WordChars isWord) (name : String)
    (claims : List RetrievedClaim) {budget : Int} (h : 0 ≤ budget) :
    ((claimSection isWord uuid name claims budget).tokens : Int) ≤ budget := by
  rw [claimSection_tokens hword name claims h]
  exact (fitToBudget_counted h _).fits

/-- No line of a claim is shorter than sixteen tokens. -/
theorem sixteen_le_line (hword : WordChars isWord) (c : RetrievedClaim) :
    16 ≤ estimateTokens isWord (c.line uuid) := by
  have hmeta := (hword.estimateTokens_metaText c).1
  rw [hword.estimateTokens_line]
  omega

/-- **What a claim section spends.** -/
theorem claimSection_le_spend (hword : WordChars isWord) (name : String)
    (claims : List RetrievedClaim) {budget : Int} (h : 0 ≤ budget) :
    ((claimSection isWord uuid name claims budget).tokens : Int) ≤ claimSpend budget := by
  unfold claimSpend
  split
  · rename_i hsmall
    have hcounted : (fitToBudget isWord (claims.map fun c => (c.claimId, c.line uuid))
        budget).Counted isWord budget := fitToBudget_counted h _
    have hnone : (fitToBudget isWord (claims.map fun c => (c.claimId, c.line uuid))
        budget).chosen = [] := by
      apply List.eq_nil_iff_forall_not_mem.mpr
      intro l hl
      have hle := hcounted.lines l hl
      obtain ⟨c, -, rfl⟩ := (mem_chosen_iff isWord uuid).mp hl
      have hcost : 16 ≤ estimateTokens isWord (c.line uuid) := sixteen_le_line hword c
      omega
    rw [claimSection_tokens hword name claims h, hcounted.used, hnone]
    simp
  · exact claimSection_fits hword name claims h

/-- A claim whose line has the tokens, at least sixteen. -/
def costing (id : ClaimId) (status : EpistemicStatus) (tokens : Int) : RetrievedClaim :=
  { plainClaim id .current (List.replicate (tokens - 16).toNat '#') with
    epistemicStatus := some status }

theorem estimateTokens_costing (hword : WordChars isWord) (id : ClaimId)
    (status : EpistemicStatus) {tokens : Int} (h : 16 ≤ tokens) :
    (estimateTokens isWord ((costing id status tokens).line uuid) : Int) = tokens := by
  have htext : (costing id status tokens).labelPrefix ++
      (costing id status tokens).statement.toList = List.replicate (tokens - 16).toNat '#' := by
    simp [costing, plainClaim, RetrievedClaim.labelPrefix]
  rw [hword.estimateTokens_line, htext, hword.estimateTokens_replicate,
    (hword.estimateTokens_metaText _).2 rfl rfl]
  omega

/-- The first line fills the section. -/
theorem claimSection_fills (hword : WordChars isWord) (name : String) {c : RetrievedClaim}
    {budget : Int} (h : (estimateTokens isWord (c.line uuid) : Int) = budget)
    (rest : List RetrievedClaim) :
    ((claimSection isWord uuid name (c :: rest) budget).tokens : Int) = budget := by
  have hbudget : 0 ≤ budget := by omega
  -- a line that does not fit any more leaves the section as it is
  have hrest : ∀ f : Fitted, (f.used : Int) = budget → ((rest.map fun c =>
      (c.claimId, c.line uuid)).foldl (fitLine isWord budget) f).used = f.used := by
    induction rest with
    | nil => exact fun f _ => rfl
    | cons d rest ih =>
      intro f hf
      have hcost : 16 ≤ estimateTokens isWord (d.line uuid) := sixteen_le_line hword d
      have hturn : (fitLine isWord budget f (d.claimId, d.line uuid)).used = f.used := by
        unfold fitLine
        dsimp only
        rw [if_pos (by push_cast; omega)]
      rw [List.map_cons, List.foldl_cons, ih _ (by rw [hturn, hf]), hturn]
  have hfirst : fitLine isWord budget ⟨[], 0, [], false⟩ (c.claimId, c.line uuid) =
      ⟨[c.line uuid], 0 + estimateTokens isWord (c.line uuid), [], false⟩ :=
    if_neg (by push_cast; omega)
  rw [claimSection_tokens hword name _ hbudget, fitToBudget, List.map_cons, List.foldl_cons,
    hfirst, hrest _ (by push_cast; omega)]
  push_cast
  omega

/-! ## The sections of a pack -/

namespace ContextBuilder

variable {b : ContextBuilder} {texts : SessionTexts} {result : RetrievalResult}

/-- What the sections besides the protocol and the pending claims spend. -/
def spent (isWord : Char → Bool) (uuid : ClaimId → Uuid) (b : ContextBuilder)
    (texts : SessionTexts) (result : RetrievalResult) : Nat :=
  ((b.textSections isWord texts).map (·.tokens)).sum +
    (claimSection isWord uuid "claims_evidence" result.current
      (b.limit "claims_evidence" 8192)).tokens +
    (claimSection isWord uuid "contradictions" result.disputed
      (b.limit "contradictions" 3072)).tokens

/-- Every section besides the protocol is counted as it is. -/
theorem section_counted {s : ContextSection}
    (hs : s ∈ b.textSections isWord texts ++ b.knowledgeSections isWord uuid result) :
    s.tokens = estimateTokens isWord s.content := by
  simp only [textSections, knowledgeSections, List.mem_append, List.mem_cons,
    List.not_mem_nil, or_false] at hs
  rcases hs with (rfl | rfl | rfl | rfl | rfl) | rfl | rfl | rfl <;> rfl

/-- Every section besides the protocol is within its budget, if that of the pending claims
is not negative. -/
theorem section_fits (hword : WordChars isWord) (hvalid : b.budgets.validate = [])
    (hpending : 0 ≤ b.pendingBudget) {s : ContextSection}
    (hs : s ∈ b.textSections isWord texts ++ b.knowledgeSections isWord uuid result) :
    (s.tokens : Int) ≤ s.budget := by
  have hlimit : ∀ default, 0 ≤ default → ∀ name, 0 ≤ b.limit name default :=
    fun _ hdefault => limit_nonneg hvalid hdefault
  simp only [textSections, knowledgeSections, List.mem_append, List.mem_cons,
    List.not_mem_nil, or_false] at hs
  rcases hs with (rfl | rfl | rfl | rfl | rfl) | rfl | rfl | rfl
  · exact fitSection_fits hword _ _ (hlimit _ (by decide) _)
  · exact fitSection_fits hword _ _ (hlimit _ (by decide) _)
  · exact fitSection_fits hword _ _ (hlimit _ (by decide) _)
  · exact fitSection_fits hword _ _ (hlimit _ (by decide) _)
  · exact fitSection_fits hword _ _ (hlimit _ (by decide) _)
  · exact claimSection_fits hword _ _ (hlimit _ (by decide) _)
  · exact claimSection_fits hword "contradictions" _ (hlimit _ (by decide) _)
  · exact claimSection_fits hword _ _ hpending

/-- **When a pack is accounted for**: the protocol is counted as it is, the limit of the
pending claims is a limit, and what is spent is within the input budget. -/
theorem build_accounted_iff (hword : WordChars isWord) (hvalid : b.budgets.validate = []) :
    (∃ pack, b.build isWord uuid texts result = .ok pack ∧ pack.Accounted isWord) ↔
      (estimateTokens isWord (texts.protocol.take (b.limit "protocol" 4096 * 4).toNat) : Int) =
          min (estimateTokens isWord texts.protocol : Int) (b.limit "protocol" 4096) ∧
        0 ≤ b.pendingBudget ∧
        min (estimateTokens isWord texts.protocol : Int) (b.limit "protocol" 4096) +
          b.spent isWord uuid texts result ≤ b.budgets.inputBudget := by
  have hprotocol : 0 ≤ b.limit "protocol" 4096 := limit_nonneg hvalid (by decide) _
  have htokens : ((protocolSection isWord texts.protocol (b.limit "protocol" 4096)).tokens : Int) =
      min (estimateTokens isWord texts.protocol : Int) (b.limit "protocol" 4096) :=
    Int.toNat_of_nonneg (le_min (Int.natCast_nonneg _) hprotocol)
  have hsum : (((protocolSection isWord texts.protocol (b.limit "protocol" 4096) ::
      (b.textSections isWord texts ++ b.knowledgeSections isWord uuid result)).filter
        fun s => s.name ≠ pendingSection).map (·.tokens)).sum =
      (protocolSection isWord texts.protocol (b.limit "protocol" 4096)).tokens +
        b.spent isWord uuid texts result := by
    simp [textSections, knowledgeSections, spent, protocolSection, fitSection, claimSection,
      pendingSection, Nat.add_assoc]
  unfold build
  simp only [hvalid, ne_eq, not_true_eq_false, if_false, Except.ok.injEq, exists_eq_left']
  constructor
  · intro h
    refine ⟨?_, ?_, ?_⟩
    · have := h.counted _ List.mem_cons_self
      rw [← htokens, this]
      rfl
    · have hpending := h.fits (claimSection isWord uuid pendingSection result.pendingInvalid
        b.pendingBudget) (by simp [knowledgeSections])
      exact (Int.natCast_nonneg _).trans hpending
    · have := h.sum
      dsimp only at this
      rw [hsum] at this
      push_cast at this
      rwa [htokens] at this
  · rintro ⟨hcounted, hpending, hspent⟩
    refine ⟨?_, ?_, ?_⟩
    · intro s hs
      rcases List.mem_cons.mp hs with rfl | hs
      · -- the protocol is cut by symbols, and the tokens of the cut text are not counted
        have : ((protocolSection isWord texts.protocol (b.limit "protocol" 4096)).tokens : Int) =
            (estimateTokens isWord
              (texts.protocol.take (b.limit "protocol" 4096 * 4).toNat) : Int) := by
          rw [htokens, hcounted]
        exact Int.ofNat_inj.mp this
      · exact section_counted hs
    · intro s hs
      rcases List.mem_cons.mp hs with rfl | hs
      · rw [htokens]
        exact min_le_right _ _
      · exact section_fits hword hvalid hpending hs
    · dsimp only
      rw [hsum]
      push_cast
      rwa [htokens]

/-- No session spends more. -/
theorem spent_le_spend (hword : WordChars isWord) (hvalid : b.budgets.validate = []) :
    (b.spent isWord uuid texts result : Int) ≤ b.spend := by
  have hlimit : ∀ default, 0 ≤ default → ∀ name, 0 ≤ b.limit name default :=
    fun _ hdefault => limit_nonneg hvalid hdefault
  have hidentity := fitSection_fits hword "identity" texts.identity
    (hlimit 2048 (by decide) "identity")
  have hlast := fitSection_fits hword "last_session" texts.lastSession
    (hlimit 2048 (by decide) "last_session")
  have hmessages := fitSection_fits hword "messages" (List.intercalate ['\n'] texts.messages)
    (hlimit 2048 (by decide) "messages")
  have herrors := fitSection_fits hword "recent_errors"
    (List.intercalate ['\n'] texts.recentErrors)
    (hlimit 2048 (by decide) "recent_errors")
  have hquestion : ((fitSection isWord "question_plan"
      (questionPlan texts.questionText texts.plan) (b.limit "question_plan" 3072)).tokens : Int) ≤
        questionSpend (b.limit "question_plan" 3072) := by
    unfold questionSpend
    split
    · rename_i hone
      rw [hone, questionPlan_one hword]
      rfl
    · exact fitSection_fits hword _ _ (hlimit _ (by decide) _)
  have hclaims : ((claimSection isWord uuid "claims_evidence" result.current
      (b.limit "claims_evidence" 8192)).tokens : Int) ≤
        claimSpend (b.limit "claims_evidence" 8192) :=
    claimSection_le_spend hword _ _ (hlimit _ (by decide) _)
  have hcontra : ((claimSection isWord uuid "contradictions" result.disputed
      (b.limit "contradictions" 3072)).tokens : Int) ≤
        claimSpend (b.limit "contradictions" 3072) :=
    claimSection_le_spend hword _ _ (hlimit _ (by decide) _)
  simp only [spent, spend, textSections, List.map_cons, List.map_nil, List.sum_cons,
    List.sum_nil]
  push_cast
  omega

/-- The texts of a session that spends all it can. -/
def longTexts (b : ContextBuilder) (protocol : Text) : SessionTexts where
  protocol := protocol
  identity := List.replicate (b.limit "identity" 2048).toNat '#'
  questionText := List.replicate (b.limit "question_plan" 3072 - 2).toNat '#'
  plan := []
  lastSession := List.replicate (b.limit "last_session" 2048).toNat '#'
  messages := [List.replicate (b.limit "messages" 2048).toNat '#']
  recentErrors := [List.replicate (b.limit "recent_errors" 2048).toNat '#']

/-- The claims of such a session: the first one fills the claims, and the disputed one the
contradictions. -/
def longClaims (b : ContextBuilder) : RetrievalResult where
  current := [costing 1 .supported (b.limit "claims_evidence" 8192),
    costing 2 .disputed (b.limit "contradictions" 3072)]
  pendingInvalid := []

/-- A claim that fills its section first spends what the section can. -/
theorem claimSpend_le_costing (hword : WordChars isWord) (name : String)
    (id : ClaimId) (status : EpistemicStatus) (limit : Int) (rest : List RetrievedClaim) :
    claimSpend limit ≤
      ((claimSection isWord uuid name (costing id status limit :: rest) limit).tokens : Int) := by
  unfold claimSpend
  split
  · exact Int.natCast_nonneg _
  · rename_i hlarge
    exact (claimSection_fills hword _
      (estimateTokens_costing hword id status (not_lt.mp hlarge)) _).ge

/-- **A session that spends all it can.** -/
theorem spend_le_spent (hword : WordChars isWord) (hvalid : b.budgets.validate = [])
    (protocol : Text) :
    b.spend ≤ b.spent isWord uuid (b.longTexts protocol) b.longClaims := by
  have hlimit : ∀ default, 0 ≤ default → ∀ name, 0 ≤ b.limit name default :=
    fun _ hdefault => limit_nonneg hvalid hdefault
  have hidentity := fitSection_spends hword "identity"
    (hlimit 2048 (by decide) "identity")
  have hlast := fitSection_spends hword "last_session"
    (hlimit 2048 (by decide) "last_session")
  have hmessages := fitSection_spends hword "messages"
    (hlimit 2048 (by decide) "messages")
  have herrors := fitSection_spends hword "recent_errors"
    (hlimit 2048 (by decide) "recent_errors")
  have hquestion : questionSpend (b.limit "question_plan" 3072) ≤
      ((fitSection isWord "question_plan" (questionPlan
        (List.replicate (b.limit "question_plan" 3072 - 2).toNat '#') [])
          (b.limit "question_plan" 3072)).tokens : Int) := by
    have hnonneg := hlimit 3072 (by decide) "question_plan"
    unfold questionSpend
    -- with one token the first heading does not fit, and nothing is spent
    by_cases htwo : 2 ≤ b.limit "question_plan" 3072
    · rw [if_neg (by omega), questionPlan_spends hword htwo]
    · split <;> omega
  have hclaims : claimSpend (b.limit "claims_evidence" 8192) ≤
      ((claimSection isWord uuid "claims_evidence" b.longClaims.current
        (b.limit "claims_evidence" 8192)).tokens : Int) :=
    claimSpend_le_costing hword _ _ _ _ _
  have hcontra : claimSpend (b.limit "contradictions" 3072) ≤
      ((claimSection isWord uuid "contradictions" b.longClaims.disputed
        (b.limit "contradictions" 3072)).tokens : Int) := by
    have hdisputed : b.longClaims.disputed =
        [costing 2 .disputed (b.limit "contradictions" 3072)] := by
      simp [longClaims, RetrievalResult.disputed, costing]
    rw [hdisputed]
    exact claimSpend_le_costing hword _ _ _ _ _
  simp only [spent, spend, textSections, longTexts, List.intercalate_singleton, List.map_cons,
    List.map_nil, List.sum_cons, List.sum_nil]
  push_cast
  omega

/-- The sections whose limits are summed. -/
def summedSections : List String :=
  ["protocol", "identity", "question_plan", "last_session", "messages", "recent_errors",
    "claims_evidence", "contradictions"]

/-- **Where every section has a configured limit**, the validated sum bounds what can be
spent. -/
theorem spend_le_inputBudget (hvalid : b.budgets.validate = [])
    (hall : ∀ name ∈ summedSections, (b.budgets.sectionLimits.lookup name).isSome) :
    b.limit "protocol" 4096 + b.spend ≤ b.budgets.inputBudget := by
  obtain ⟨hsum, hnonneg⟩ := TokenBudgets.validate_eq_nil.mp hvalid
  have hlimit : ∀ name ∈ summedSections, ∀ default, b.limit name default =
      (b.budgets.sectionLimits.lookup name).getD 0 := by
    intro name hname default
    obtain ⟨value, hlookup⟩ := Option.isSome_iff_exists.mp (hall name hname)
    rw [limit, hlookup, Option.getD_some, Option.getD_some]
  have hnodup : summedSections.Nodup := by decide
  have hnames := (sum_lookup_le hnonneg hnodup).trans hsum
  have hclaims : claimSpend (b.limit "claims_evidence" 8192) ≤
      b.limit "claims_evidence" 8192 :=
    claimSpend_le (limit_nonneg hvalid (by decide) _)
  have hcontra : claimSpend (b.limit "contradictions" 3072) ≤ b.limit "contradictions" 3072 :=
    claimSpend_le (limit_nonneg hvalid (by decide) _)
  have hquestion : questionSpend (b.limit "question_plan" 3072) ≤
      b.limit "question_plan" 3072 :=
    questionSpend_le (limit_nonneg hvalid (by decide) _)
  simp only [summedSections, List.map_cons, List.map_nil, List.sum_cons, List.sum_nil] at hnames
  rw [hlimit "claims_evidence" (by decide)] at hclaims
  rw [hlimit "contradictions" (by decide)] at hcontra
  rw [hlimit "question_plan" (by decide)] at hquestion
  rw [spend, hlimit "protocol" (by decide), hlimit "identity" (by decide),
    hlimit "last_session" (by decide), hlimit "messages" (by decide),
    hlimit "recent_errors" (by decide), hlimit "claims_evidence" (by decide),
    hlimit "contradictions" (by decide), hlimit "question_plan" (by decide)]
  omega

end ContextBuilder

/-- **When the accounting is true.** With valid limits and a protocol, the pack of every
session is accounted for exactly when the cut protocol has the tokens that are recorded, the
limit of the pending claims is not negative, and the protocol with what the other sections
can spend is within the input budget. -/
theorem accounted_iff (hword : WordChars isWord) (snapshot : PackConfig)
    (hvalid : (ContextBuilder.ofSnapshot snapshot).budgets.validate = []) (protocol : Text) :
    let b := ContextBuilder.ofSnapshot snapshot
    let recorded := min (estimateTokens isWord protocol : Int) (b.limit "protocol" 4096)
    (∀ texts result, texts.protocol = protocol →
      ∃ pack, b.build isWord uuid texts result = .ok pack ∧ pack.Accounted isWord) ↔
    (estimateTokens isWord (protocol.take (b.limit "protocol" 4096 * 4).toNat) : Int) =
        recorded ∧
      0 ≤ b.pendingBudget ∧ recorded + b.spend ≤ b.budgets.inputBudget := by
  intro b recorded
  constructor
  · intro h
    obtain ⟨hcounted, hpending, hspent⟩ := (ContextBuilder.build_accounted_iff hword hvalid).mp
      (h (b.longTexts protocol) b.longClaims rfl)
    have hspend : b.spend ≤ b.spent isWord uuid (b.longTexts protocol) b.longClaims :=
      ContextBuilder.spend_le_spent hword hvalid protocol
    exact ⟨hcounted, hpending, (Int.add_le_add_left hspend _).trans hspent⟩
  · rintro ⟨hcounted, hpending, hspend⟩ texts result rfl
    apply (ContextBuilder.build_accounted_iff hword hvalid).mpr
    have hspent : (b.spent isWord uuid texts result : Int) ≤ b.spend :=
      ContextBuilder.spent_le_spend hword hvalid
    exact ⟨hcounted, hpending, (Int.add_le_add_left hspent _).trans hspend⟩

end Sections

/-! ## A protocol of short words -/

/-- The word symbols of ASCII and of Russian. -/
def isWordSymbol (c : Char) : Bool :=
  c.isAlphanum || c = '_' || (1040 ≤ c.toNat && c.toNat ≤ 1103)

theorem isWordSymbol_wordChars : WordChars isWordSymbol where
  ascii := by
    intro c hc
    have hlatin : (decide (1040 ≤ c.toNat) && decide (c.toNat ≤ 1103)) = false := by
      simp only [Bool.and_eq_false_iff, decide_eq_false_iff_not]
      omega
    rw [isWordSymbol, hlatin, Bool.or_false]
  space := by
    intro c hc
    have hlow : c ≠ '_' := by
      rintro rfl
      exact absurd hc (by decide)
    simp only [isSpace, Bool.or_eq_true, Bool.and_eq_true, decide_eq_true_eq] at hc
    simp only [isWordSymbol, Char.isAlphanum, Char.isAlpha, Char.isUpper, Char.isLower,
      Char.isDigit, hlow, Bool.or_eq_false_iff, Bool.and_eq_false_iff, decide_eq_false_iff_not,
      UInt32.le_iff_toNat_le, ge_iff_le, decide_false]
    have hval : c.val.toNat = c.toNat := rfl
    rw [hval]
    refine ⟨⟨⟨⟨?_, ?_⟩, ?_⟩, trivial⟩, ?_⟩
    · show ¬ (65 ≤ c.toNat ∧ c.toNat ≤ 90)
      omega
    · show ¬ 97 ≤ c.toNat ∨ ¬ c.toNat ≤ 122
      omega
    · show ¬ 48 ≤ c.toNat ∨ ¬ c.toNat ≤ 57
      omega
    · omega
  headings := by
    simp [isWordSymbol]

/-- Every section has a limit of its own. -/
def limitedConfig : PackConfig where
  model := ⟨some 160, none, some 20, some 8⟩
  tokenBudgets := [("protocol", 2), ("identity", 2), ("question_plan", 8), ("last_session", 4),
    ("messages", 4), ("recent_errors", 4), ("claims_evidence", 40), ("contradictions", 20),
    ("pending_claims", 40)]
  distinct := by decide

/-- Three words of protocol, of which two fit, and messages of which one fits. -/
def wordyTexts : SessionTexts where
  protocol := ['a', 'b', ' ', 'c', 'd', 'e', 'f', 'g', ' ', 'h']
  identity := ['n', 'o', 'd', 'e']
  questionText := ['w', 'h', 'y']
  plan := []
  lastSession := []
  messages := [['o', 'n', 'e'], ['a', ' ', 'b', ' ', 'c', ' ', 'd']]
  recentErrors := []

/-- A supported claim that fits, a disputed one whose line is longer than the
contradictions' limit, and a pending one. -/
def wordyClaims : RetrievalResult where
  current := [costing 1 .supported 17, costing 2 .disputed 21]
  pendingInvalid := [plainClaim 3 .pending ['x']]

/-- What does not fit is left out, and the rest is counted as it is. -/
theorem accounted_limited : ∃ pack,
    (ContextBuilder.ofSnapshot limitedConfig).build isWordSymbol plainUuid wordyTexts
      wordyClaims = .ok pack ∧ pack.Accounted isWordSymbol ∧
    pack.exclusions = [⟨"protocol", none, "exceeded_hard_reservation"⟩,
      ⟨"messages", none, "budget"⟩, ⟨"contradictions", some 2, "budget"⟩] := by
  obtain ⟨pack, hpack, haccounted⟩ :=
    (accounted_iff isWordSymbol_wordChars limitedConfig (by decide) wordyTexts.protocol).mpr
      (by decide) wordyTexts wordyClaims rfl
  refine ⟨pack, hpack, haccounted, ?_⟩
  have hexcluded : ((ContextBuilder.ofSnapshot limitedConfig).build isWordSymbol plainUuid
      wordyTexts wordyClaims).toOption.map (·.exclusions) =
        some [⟨"protocol", none, "exceeded_hard_reservation"⟩,
          ⟨"messages", none, "budget"⟩, ⟨"contradictions", some 2, "budget"⟩] := by
    decide +kernel
  rw [hpack] at hexcluded
  exact Option.some.inj hexcluded

/-- Two tokens for the protocol. -/
def shortProtocol : PackConfig :=
  ⟨⟨none, none, none, none⟩, [("protocol", 2)], List.nodup_singleton _⟩

/-- A protocol of four words of one letter is not cut at all, and recorded as cut to two. -/
theorem protocol_miscounted : ¬ ∀ (isWord : Char → Bool) (uuid : ClaimId → Uuid)
    (snapshot : PackConfig) (texts : SessionTexts) (result : RetrievalResult),
    WordChars isWord → (ContextBuilder.ofSnapshot snapshot).budgets.validate = [] →
    ∃ pack, (ContextBuilder.ofSnapshot snapshot).build isWord uuid texts result = .ok pack ∧
      pack.Accounted isWord := by
  intro h
  have hpack := h isWordSymbol plainUuid shortProtocol
    ⟨['a', ' ', 'b', ' ', 'c', ' ', 'd'], [], [], [], [], [], []⟩ ⟨[], []⟩
    isWordSymbol_wordChars (by decide)
  have hcounted := ((ContextBuilder.build_accounted_iff isWordSymbol_wordChars
    (by decide)).mp hpack).1
  exact absurd hcounted (by decide)

end Noezema.Cognition
