import Noezema.Cognition.ContextPack

/-! # Counting tokens

`estimate_tokens` of a text in parts. A symbol that is of no word ends a word, so a text is
counted part by part at such symbols, and lines are counted one by one. The rest are the
counts of the texts that the host writes itself.
-/

namespace Noezema.Cognition

open Noezema.Lib Noezema.Memory

/-- What the symbols of a word are: of the ASCII ones the letters, the digits and the low
line, no spaces, and the letters of the headings. -/
structure WordChars (isWord : Char → Bool) : Prop where
  ascii : ∀ c, c.toNat < 128 → isWord c = (c.isAlphanum || c = '_')
  space : ∀ c, isSpace c → isWord c = false
  headings : ∀ c ∈ "ВопросПлан".toList, isWord c

section Count

variable {isWord : Char → Bool}

/-- **A symbol of no word ends a word.** -/
theorem countTokens_append_cons {c : Char} (hc : isWord c = false) (inWord : Bool)
    (a rest : Text) : countTokens isWord inWord (a ++ c :: rest) =
      countTokens isWord inWord a + estimateTokens isWord (c :: rest) := by
  induction a generalizing inWord with
  | nil => simp [countTokens, estimateTokens, hc]
  | cons d a ih =>
    rw [List.cons_append, countTokens, countTokens]
    split <;> rw [ih, Nat.add_assoc]

theorem estimateTokens_append_cons {c : Char} (hc : isWord c = false) (a rest : Text) :
    estimateTokens isWord (a ++ c :: rest) =
      estimateTokens isWord a + estimateTokens isWord (c :: rest) :=
  countTokens_append_cons hc false a rest

@[simp] theorem estimateTokens_nil : estimateTokens isWord [] = 0 := rfl

/-- A single symbol. -/
theorem estimateTokens_symbol {c : Char} (hc : isWord c = false) (hspace : isSpace c = false)
    (rest : Text) : estimateTokens isWord (c :: rest) = 1 + estimateTokens isWord rest := by
  simp [estimateTokens, countTokens, hc, hspace]

theorem countTokens_word {w : Text} (h : ∀ c ∈ w, isWord c) : countTokens isWord true w = 0 := by
  induction w with
  | nil => rfl
  | cons c w ih =>
    rw [countTokens, if_pos (h c List.mem_cons_self), if_pos rfl, Nat.zero_add]
    exact ih fun d hd => h d (List.mem_cons_of_mem c hd)

/-- A word. -/
theorem estimateTokens_word {w : Text} (hne : w ≠ []) (h : ∀ c ∈ w, isWord c) :
    estimateTokens isWord w = 1 := by
  obtain ⟨c, w, rfl⟩ := List.exists_cons_of_ne_nil hne
  rw [estimateTokens, countTokens, if_pos (h c List.mem_cons_self),
    countTokens_word fun d hd => h d (List.mem_cons_of_mem c hd)]
  rfl

namespace WordChars

variable (h : WordChars isWord)

include h

theorem estimateTokens_space {c : Char} (hc : isSpace c) (rest : Text) :
    estimateTokens isWord (c :: rest) = estimateTokens isWord rest := by
  simp [estimateTokens, countTokens, h.space c hc, hc]

/-- Two texts with a space between them. -/
theorem estimateTokens_between {c : Char} (hc : isSpace c) (a rest : Text) :
    estimateTokens isWord (a ++ c :: rest) =
      estimateTokens isWord a + estimateTokens isWord rest := by
  rw [estimateTokens_append_cons (h.space c hc), h.estimateTokens_space hc]

/-- **Lines are counted one by one.** -/
theorem estimateTokens_lines (lines : List Text) :
    estimateTokens isWord (List.intercalate ['\n'] lines) =
      (lines.map (estimateTokens isWord)).sum := by
  induction lines with
  | nil => rfl
  | cons l rest ih =>
    cases rest with
    | nil => simp
    | cons l' rest =>
      rw [List.intercalate_cons_cons, List.append_assoc, List.singleton_append,
        h.estimateTokens_between (by decide), ih]
      rfl

/-- A symbol of ASCII that is of no word. -/
theorem symbol {c : Char} (hc : (decide (c.toNat < 128) && !(c.isAlphanum || c = '_') &&
    !isSpace c) = true) (rest : Text) :
    estimateTokens isWord (c :: rest) = 1 + estimateTokens isWord rest := by
  simp only [Bool.and_eq_true, decide_eq_true_eq, Bool.not_eq_eq_eq_not, Bool.not_true] at hc
  exact estimateTokens_symbol ((h.ascii c hc.1.1).trans hc.1.2) hc.2 rest

/-- A symbol of ASCII after a text. -/
theorem append_symbol {c : Char} (hc : (decide (c.toNat < 128) &&
    !(c.isAlphanum || c = '_') && !isSpace c) = true) (a rest : Text) :
    estimateTokens isWord (a ++ c :: rest) =
      estimateTokens isWord a + (1 + estimateTokens isWord rest) := by
  have hword : isWord c = false := by
    simp only [Bool.and_eq_true, decide_eq_true_eq, Bool.not_eq_eq_eq_not, Bool.not_true] at hc
    exact (h.ascii c hc.1.1).trans hc.1.2
  rw [estimateTokens_append_cons hword, h.symbol hc]

theorem isWord_hex {c : Char} (hc : isHexSymbol c) : isWord c := by
  simp only [isHexSymbol, Bool.or_eq_true, Bool.and_eq_true, decide_eq_true_eq, Char.le_def,
    UInt32.le_iff_toNat_le] at hc
  have hrange : 48 ≤ c.toNat ∧ c.toNat ≤ 57 ∨ 97 ≤ c.toNat ∧ c.toNat ≤ 102 ∨
      65 ≤ c.toNat ∧ c.toNat ≤ 70 := by
    rcases hc with (hc | hc) | hc
    · exact .inl hc
    · exact .inr (.inl hc)
    · exact .inr (.inr hc)
  rw [h.ascii c (by omega), Bool.or_eq_true]
  left
  simp only [Char.isAlphanum, Char.isAlpha, Char.isUpper, Char.isLower, Char.isDigit,
    Bool.or_eq_true, Bool.and_eq_true, decide_eq_true_eq, UInt32.le_iff_toNat_le, ge_iff_le]
  rcases hrange with hrange | hrange | hrange
  · exact .inr hrange
  · exact .inl (.inr ⟨hrange.1, hrange.2.trans (by decide)⟩)
  · exact .inl (.inl ⟨hrange.1, hrange.2.trans (by decide)⟩)

/-- One token a symbol. -/
theorem estimateTokens_replicate (n : Nat) :
    estimateTokens isWord (List.replicate n '#') = n := by
  induction n with
  | zero => rfl
  | succ n ih => rw [List.replicate_succ, h.symbol (by decide), ih, Nat.add_comm]

/-! ## The line of a claim -/

/-- A group of the digits of an id. -/
theorem estimateTokens_digits {u : Uuid} {w : Text} (hne : w ≠ [])
    (hsub : w.Sublist (hexText 32 u.toNat)) : estimateTokens isWord w = 1 :=
  estimateTokens_word hne fun _ hc => h.isWord_hex (mem_hexText (hsub.subset hc)).1

/-- Five groups and four dashes. -/
theorem estimateTokens_uuid (u : Uuid) : estimateTokens isWord u.text = 9 := by
  have hlen : (hexText 32 u.toNat).length = 32 := length_hexText _ _
  have hne : ∀ a b, a < 32 → 0 < b → ((hexText 32 u.toNat).drop a).take b ≠ [] := by
    intro a b ha hb hnil
    have := congrArg List.length hnil
    simp only [List.length_take, List.length_drop, hlen, List.length_nil] at this
    omega
  have hgroup : ∀ a b, a < 32 → 0 < b →
      estimateTokens isWord (((hexText 32 u.toNat).drop a).take b) = 1 := fun a b ha hb =>
    h.estimateTokens_digits (hne a b ha hb) ((List.take_sublist _ _).trans (List.drop_sublist _ _))
  have hlast : estimateTokens isWord ((hexText 32 u.toNat).drop 20) = 1 := by
    rw [← hgroup 20 12 (by decide) (by decide), List.take_of_length_le (by simp [hlen])]
  have hfirst : estimateTokens isWord ((hexText 32 u.toNat).take 8) = 1 :=
    hgroup 0 8 (by decide) (by decide)
  unfold Uuid.text
  dsimp only
  rw [h.append_symbol (by decide), h.append_symbol (by decide), h.append_symbol (by decide),
    h.append_symbol (by decide), hfirst, hgroup 8 4 (by decide) (by decide),
    hgroup 12 4 (by decide) (by decide), hgroup 16 4 (by decide) (by decide), hlast]

theorem estimateTokens_tag (u : Uuid) : estimateTokens isWord (claimTag.tag u.text) = 13 := by
  have hc : isWord 'c' := by
    rw [h.ascii 'c' (by decide)]
    decide
  have hone : estimateTokens isWord ['c'] = 1 :=
    estimateTokens_word (List.cons_ne_nil _ _) (by simpa using hc)
  have htag : claimTag.tag u.text = '[' :: (['c'] ++ ':' :: (u.text ++ ']' :: [])) := by
    simp [TagForm.tag, claimTag]
  rw [htag, h.symbol (by decide), h.append_symbol (by decide), h.append_symbol (by decide),
    hone, h.estimateTokens_uuid, estimateTokens_nil]

/-- What follows the statement begins with a word between brackets. -/
theorem estimateTokens_metaText (c : RetrievedClaim) :
    3 ≤ estimateTokens isWord c.metaText ∧
      (c.grade = none → c.confidence = none → estimateTokens isWord c.metaText = 3) := by
  have hascii : ∀ w : Text, w ≠ [] →
      w.all (fun c => c.toNat < 128 && (c.isAlphanum || c = '_')) = true →
      estimateTokens isWord w = 1 := by
    intro w hne hall
    apply estimateTokens_word hne
    intro c hc
    have hcheck := List.all_eq_true.mp hall c hc
    simp only [Bool.and_eq_true, decide_eq_true_eq] at hcheck
    rw [h.ascii c hcheck.1, hcheck.2]
  have hstatus :
      estimateTokens isWord (c.epistemicStatus.elim "unknown".toList statusValue) = 1 := by
    cases c.epistemicStatus with
    | none => exact hascii _ (by decide) (by decide)
    | some status => cases status <;> exact hascii _ (by decide) (by decide)
  -- grade and confidence begin with a comma
  have hrest : (c.grade.elim [] fun g => ", ".toList ++ gradeValue g) ++
      (c.confidence.elim [] fun p => ", p=".toList ++ fixed2 p) = [] ∨
      ∃ t, (c.grade.elim [] fun g => ", ".toList ++ gradeValue g) ++
        (c.confidence.elim [] fun p => ", p=".toList ++ fixed2 p) = ',' :: t := by
    cases c.grade with
    | none =>
      cases c.confidence with
      | none => exact .inl rfl
      | some p => exact .inr ⟨_, rfl⟩
    | some g => exact .inr ⟨_, rfl⟩
  unfold RetrievedClaim.metaText
  rw [h.symbol (by decide), List.append_assoc (_ ++ _), List.append_assoc]
  constructor
  · rw [← List.append_assoc (c.grade.elim _ _)]
    rcases hrest with hnil | ⟨t, ht⟩
    · rw [hnil, List.nil_append, h.append_symbol (by decide), hstatus]
      omega
    · rw [ht, List.cons_append, h.append_symbol (by decide), hstatus]
      omega
  · intro hgrade hconfidence
    rw [hgrade, hconfidence, Option.elim_none, Option.elim_none, List.nil_append,
      List.nil_append, h.append_symbol (by decide), hstatus, estimateTokens_nil]

/-- **The line of a claim**: the tag, the label with the statement, and what follows. -/
theorem estimateTokens_line (uuid : ClaimId → Uuid) (c : RetrievedClaim) :
    estimateTokens isWord (c.line uuid) =
      13 + estimateTokens isWord (c.labelPrefix ++ c.statement.toList) +
        estimateTokens isWord c.metaText := by
  rw [RetrievedClaim.line, h.estimateTokens_between (by decide), h.estimateTokens_tag,
    ← List.append_assoc, h.estimateTokens_between (by decide), Nat.add_assoc]

end WordChars

end Count

end Noezema.Cognition
