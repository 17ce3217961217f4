import Noezema.Cognition.ValueAnchors

/-! # The values that have a place

Both gates look for the values of a statement on a page. The gate of the values takes a text form
that stands alone at any place of it; the gate of the periods takes the numbers that it meets
reading the page from the left.
-/

namespace Noezema.Cognition.ValueAnchors

open Noezema.Lib Noezema.Lib.Regex Noezema.Research.ValueAttribution PyText

variable {F : Type} {lex : ValueLexicon} {float : PyText → Option F}

/-! ## Numbers as values -/

/-- What `float` does with digits: it reads them, and zeros at the end of a fraction do not change
the number. -/
structure ReadsNumerals (table : DigitTable) (float : PyText → Option F) : Prop where
  reads : ∀ {head frac : PyText}, Numeral table head frac →
    float (decimalText head frac) ≠ none
  zeros : ∀ {head frac : PyText} (n : Nat), Numeral table head frac →
    float (decimalText head (frac ++ List.replicate n zero)) = float (decimalText head frac)

theorem Joined.mem : ∀ {w : PyText}, Joined lex w →
    ∀ c ∈ w, lex.isDecimal c ∨ c ∈ decimalSeparators ∨ c = space := by
  intro w
  induction w with
  | nil =>
    intro _ c hc
    cases hc
  | cons x w ih =>
    rintro ⟨hx, hw⟩ c hc
    rcases List.mem_cons.mp hc with rfl | hc
    · rcases hx with h | h | ⟨h, -⟩
      · exact .inl h
      · exact .inr (.inl h)
      · exact .inr (.inr h)
    · exact ih hw c hc

/-- The groups behind the first one. -/
theorem groupWords_join : ∀ {n : Nat} {groups : PyText}, Words (GroupWord lex) n groups →
    ∃ gs : List PyText, (∀ g ∈ gs, DigitRun lex g ∧ g.length = 3) ∧
      ∀ h, join [space] (h :: gs) = h ++ groups := by
  intro n
  induction n with
  | zero =>
    intro groups hgroups
    rw [words_zero.mp hgroups]
    refine ⟨[], by simp, ?_⟩
    intro h
    rw [join, List.append_nil]
  | succ n ih =>
    intro groups hgroups
    obtain ⟨u, v, ⟨d, hd, hlen, rfl⟩, hv, rfl⟩ := words_succ.mp hgroups
    obtain ⟨gs, hgs, hjoin⟩ := ih hv
    refine ⟨d :: gs, ?_, ?_⟩
    · intro g hg
      rcases List.mem_cons.mp hg with rfl | hg
      · exact ⟨hd, hlen⟩
      · exact hgs g hg
    · intro h
      rw [join, hjoin, List.append_assoc]
      rfl

/-- A number that the scan reads is written with the digits of a numeral. -/
theorem NumberWord.numeral {w : PyText} (h : NumberWord lex w) :
    ∃ head frac, Numeral lex.toDigitTable head frac ∧ Written head frac w := by
  obtain ⟨first, groups, frac, hfirst, hmin, hmax, ⟨n, hgroups⟩, hfrac, rfl⟩ := h
  obtain ⟨gs, hgs, hjoin⟩ := groupWords_join hgroups
  have hne : first ++ gs.flatten ≠ [] := by
    rw [← List.length_pos_iff, List.length_append]
    omega
  have hdigits : ∀ c ∈ first ++ gs.flatten, lex.isDecimal c := by
    intro c hc
    rcases List.mem_append.mp hc with hc | hc
    · exact hfirst c hc
    · obtain ⟨g, hg, hcg⟩ := List.mem_flatten.mp hc
      exact (hgs g hg).1 c hcg
  have hwritten : IntegerWritten (first ++ gs.flatten) (first ++ groups) := by
    rw [← hjoin]
    cases gs with
    | nil =>
      rw [join, List.flatten_nil, List.append_nil]
      exact .whole
    | cons g gs =>
      refine .grouped ⟨rfl, ?_, fun x hx => (hgs x hx).2, List.cons_ne_nil _ _⟩ (by simp)
      intro x hx
      obtain rfl : first = x := by simpa using hx
      exact ⟨hmin, hmax⟩
  rcases hfrac with rfl | ⟨sep, f, hsep, hf, hfne, rfl⟩
  · refine ⟨_, [], ⟨hne, hdigits, by simp⟩, ?_⟩
    rw [List.append_nil]
    exact .integer hwritten rfl
  · refine ⟨_, f, ⟨hne, hdigits, hf⟩, ?_⟩
    rw [← List.append_assoc]
    exact .decimal hwritten hsep hfne

theorem NumberWord.tokenValue_eq {head frac w : PyText} (h : NumberWord lex w)
    (hnum : Numeral lex.toDigitTable head frac) (hw : Written head frac w) :
    tokenValue float w = float (decimalText head frac) := by
  have hblank : w.filter (· ≠ space) = w.filter (!·.isSpace) := by
    refine List.filter_congr fun c hc => ?_
    rcases h.joined.mem c hc with hdigit | hsep | rfl
    · have hdigit := lex.decimal_digit c hdigit
      rw [lex.digit_not_space c hdigit]
      simpa using digit_ne_space hdigit
    · obtain ⟨hspace, hne⟩ := separator_not_space hsep
      rw [hspace]
      simpa using hne
    · decide
  rw [tokenValue, hblank, hw.pointed hnum]

theorem tokenValue_decimalText {head frac : PyText} (hnum : Numeral lex.toDigitTable head frac) :
    tokenValue float (decimalText head frac) = float (decimalText head frac) := by
  have hsymbol : ∀ c ∈ decimalText head frac, c ≠ space ∧ c ≠ comma := by
    intro c hc
    have hmem : c ∈ head ++ frac ∨ c = point := by
      rw [decimalText] at hc
      split at hc
      · exact .inl (List.mem_append_left _ hc)
      · rcases List.mem_append.mp hc with hc | hc
        · exact .inl (List.mem_append_left _ hc)
        · rcases List.mem_cons.mp hc with rfl | hc
          · exact .inr rfl
          · exact .inl (List.mem_append_right _ hc)
    rcases hmem with hmem | rfl
    · obtain ⟨-, hcomma, hspace⟩ := mem_decimalText_ne hnum c hmem
      refine ⟨?_, hcomma⟩
      rintro rfl
      exact absurd hspace (by decide)
    · decide
  have hmap : (decimalText head frac).map (fun c => if c = comma then point else c) =
      decimalText head frac :=
    (List.map_congr_left fun c hc => if_neg (hsymbol c hc).2).trans (List.map_id _)
  rw [tokenValue, List.filter_eq_self.mpr, hmap]
  intro c hc
  simpa using (hsymbol c hc).1

/-- A number and its canonical text are one value. -/
theorem NumberWord.tokenValue_canonical (hfloat : ReadsNumerals lex.toDigitTable float)
    {w : PyText} (h : NumberWord lex w) :
    tokenValue float (canonicalNumber lex.toDigitTable w) = tokenValue float w ∧
      tokenValue float w ≠ none := by
  obtain ⟨head, frac, hnum, hw⟩ := h.numeral
  obtain ⟨zeros, hzeros⟩ : ∃ k, frac = trimZeros zero frac ++ List.replicate k zero :=
    eq_trimZeros_append frac
  rw [h.tokenValue_eq hnum hw, hw.canonicalNumber hnum, tokenValue_decimalText hnum.trim]
  refine ⟨?_, hfloat.reads hnum⟩
  conv_rhs => rw [hzeros]
  exact (hfloat.zeros zeros hnum.trim).symm

/-! ## The form of a value that is read -/

theorem mem_join_flatten {c : CodePoint} {sep : PyText} : ∀ {ps : List PyText},
    c ∈ ps.flatten → c ∈ join sep ps := by
  intro ps
  induction ps using join.induct with
  | case1 => exact id
  | case2 p => simp [join]
  | case3 p q ps ih =>
    intro h
    rw [List.flatten_cons, List.mem_append] at h
    rw [join, List.append_assoc, List.mem_append, List.mem_append]
    exact h.imp_right fun h => .inr (ih h)

theorem integerWritten_subset {head w : PyText} (h : IntegerWritten head w) : head ⊆ w := by
  intro c hc
  cases h with
  | whole => exact hc
  | grouped hgroups h2 =>
    rw [← hgroups.flatten] at hc
    exact mem_join_flatten hc

/-- A number has one separator at most. -/
theorem NumberWord.separators {w : PyText} (h : NumberWord lex w) :
    w.countP decimalSeparators.contains ≤ 1 := by
  obtain ⟨head, frac, hnum, hw⟩ := h.numeral
  have hpoint : ∀ s : PyText, s ⊆ head ++ frac → s.countP (· = point) = 0 := by
    intro s hs
    refine List.countP_eq_zero.mpr fun c hc => ?_
    simpa using (mem_decimalText_ne hnum c (hs hc)).1
  have hcount : w.countP decimalSeparators.contains =
      (decimalText head frac).countP (· = point) := by
    rw [← hw.pointed hnum, List.countP_map, List.countP_filter]
    refine List.countP_congr fun c _ => ?_
    rw [List.contains_iff_mem, Bool.and_eq_true, Function.comp_apply, decide_eq_true_eq]
    constructor
    · intro hsep
      rw [(separator_not_space hsep).1]
      exact ⟨separator_as_point hsep, rfl⟩
    · rintro ⟨hc, -⟩
      rw [mem_decimalSeparators]
      split at hc
      · rename_i hcomma
        exact .inr hcomma
      · exact .inl hc
  rw [hcount, decimalText]
  split
  · rw [hpoint head (List.subset_append_left _ _)]
    exact Nat.zero_le 1
  · rw [List.countP_append, List.countP_cons, hpoint head (List.subset_append_left _ _),
      hpoint frac (List.subset_append_right _ _)]
    simp

/-- A dotted value has a separator before each of its later parts. -/
theorem dotted_separators : ∀ {parts : List PyText} {t : PyText},
    t ∈ parts.foldr (fun part tails => tails.flatMap fun tail => decimalSeparators.map fun sep =>
      sep :: part ++ tail) [[]] → parts.length ≤ t.countP decimalSeparators.contains := by
  intro parts
  induction parts with
  | nil => exact fun _ => Nat.zero_le _
  | cons part parts ih =>
    intro t ht
    rw [List.foldr_cons, List.mem_flatMap] at ht
    obtain ⟨tail, htail, ht⟩ := ht
    obtain ⟨sep, hsep, rfl⟩ := List.mem_map.mp ht
    have hle := ih htail
    have hcontains : decimalSeparators.contains sep = true := List.contains_iff_mem.mpr hsep
    rw [List.length_cons, List.cons_append, List.countP_cons_of_pos hcontains, List.countP_append]
    omega

/-- The digits of a value are in its forms. -/
theorem digits_subset_form {head fracMin w : PyText} (hne : head ≠ [])
    (hw : w ∈ (groupedDigits head).flatMap fun headForm =>
      if fracMin ≠ [] then
        (List.range (maxTrailingZeros + 1)).flatMap fun zeros => decimalSeparators.map fun sep =>
          headForm ++ sep :: (fracMin ++ List.replicate zeros zero)
      else
        headForm :: (List.range' 1 maxTrailingZeros).flatMap fun zeros =>
          decimalSeparators.map fun sep => headForm ++ sep :: List.replicate zeros zero) :
    head ⊆ w ∧ fracMin ⊆ w := by
  obtain ⟨headForm, hform, hw⟩ := List.mem_flatMap.mp hw
  have hsub := integerWritten_subset ((mem_groupedDigits hne).mp hform)
  split at hw
  · obtain ⟨zeros, -, hw⟩ := List.mem_flatMap.mp hw
    obtain ⟨sep, -, rfl⟩ := List.mem_map.mp hw
    refine ⟨List.Subset.trans hsub (List.subset_append_left _ _), ?_⟩
    intro c hc
    simp [hc]
  · rename_i hzeros
    rw [not_not.mp hzeros]
    refine ⟨?_, List.nil_subset _⟩
    rcases List.mem_cons.mp hw with rfl | hw
    · exact hsub
    · obtain ⟨zeros, -, hw⟩ := List.mem_flatMap.mp hw
      obtain ⟨sep, -, rfl⟩ := List.mem_map.mp hw
      exact List.Subset.trans hsub (List.subset_append_left _ _)

/-- A form of a value is the value, or has two separators, or has the digits of the value. -/
theorem form_digits {table : DigitTable} {v w : PyText} (hw : w ∈ valueTextForms table v) :
    w = v ∨ 2 ≤ w.countP decimalSeparators.contains ∨ ∃ head frac, v = decimalText head frac ∧
      head ≠ [] ∧ (∀ c ∈ head ++ frac, table.isDigit c) ∧ head ⊆ w ∧ trimZeros zero frac ⊆ w := by
  have hjoin : List.intercalate [point] (v.splitOn point) = v := List.intercalate_splitOn point
  rw [valueTextForms] at hw
  dsimp only at hw
  split at hw
  · exact .inl (List.mem_singleton.mp hw)
  · rename_i hdigits
    rw [not_not, List.all_eq_true] at hdigits
    have hpart : ∀ part ∈ v.splitOn point, part ≠ [] ∧ ∀ c ∈ part, table.isDigit c := by
      intro part hpart
      have h := hdigits part hpart
      rw [Bool.and_eq_true, Bool.not_eq_true', List.isEmpty_eq_false_iff, List.all_eq_true] at h
      exact h
    split at hw
    · rename_i hlong
      obtain ⟨tail, htail, rfl⟩ := List.mem_map.mp hw
      have hle := dotted_separators htail
      rw [List.length_tail] at hle
      refine .inr (.inl ?_)
      rw [List.countP_append]
      omega
    · rename_i hshort
      refine .inr (.inr ?_)
      cases hsplit : v.splitOn point with
      | nil => exact absurd hsplit (List.splitOn_ne_nil _ _)
      | cons head rest =>
        rw [hsplit] at hjoin hshort hpart hw
        obtain ⟨hne, hhead⟩ := hpart head List.mem_cons_self
        cases rest with
        | nil =>
          obtain ⟨hsub, -⟩ := digits_subset_form hne hw
          refine ⟨head, [], ?_, hne, by simpa using hhead, hsub, List.nil_subset _⟩
          rw [← hjoin, decimalText, if_pos rfl]
          simp [List.intercalate]
        | cons frac rest =>
          obtain rfl : rest = [] := by
            rw [List.length_cons, List.length_cons] at hshort
            exact List.length_eq_zero_iff.mp (by omega)
          obtain ⟨hne', hfrac⟩ := hpart frac (by simp)
          refine ⟨head, frac, ?_, hne, ?_, digits_subset_form hne hw⟩
          · rw [← hjoin, decimalText, if_neg hne']
            simp [List.intercalate]
          · intro c hc
            rcases List.mem_append.mp hc with hc | hc
            · exact hhead c hc
            · exact hfrac c hc

theorem trimZeros_idem (f : PyText) : trimZeros zero (trimZeros zero f) = trimZeros zero f :=
  List.rdropWhile_idempotent _ _

/-- The zeros at the end of a value do not count for its forms. -/
theorem valueTextForms_trim {table : DigitTable} {head frac : PyText}
    (hnum : Numeral table head frac) : valueTextForms table (decimalText head frac) =
      valueTextForms table (decimalText head (trimZeros zero frac)) := by
  rw [valueTextForms, valueTextForms]
  dsimp only
  rw [if_neg (not_not_intro (parts_digits hnum)), if_neg (not_not_intro (parts_digits hnum.trim)),
    splitOn_decimalText hnum, splitOn_decimalText hnum.trim]
  by_cases hfrac : frac = []
  · rw [hfrac]
    rfl
  · by_cases hzeros : trimZeros zero frac = []
    · simp [hfrac, hzeros]
    · simp [hfrac, hzeros, trimZeros_idem]

/-- **A form that the scan reads is the value as a number.** -/
theorem tokenValue_form (hfloat : ReadsNumerals lex.toDigitTable float) {v w : PyText}
    (hw : w ∈ valueTextForms lex.toDigitTable v) (hnumber : NumberWord lex w) :
    tokenValue float w = tokenValue float v := by
  rcases form_digits hw with rfl | htwo | ⟨head, frac, rfl, hne, hdigits, hhead, hfrac⟩
  · rfl
  · have hone := hnumber.separators
    omega
  · obtain ⟨k, hk⟩ : ∃ k, frac = trimZeros zero frac ++ List.replicate k zero :=
      eq_trimZeros_append frac
    have hdecimal : ∀ c ∈ w, lex.isDigit c → lex.isDecimal c := by
      intro c hc hdigit
      rcases hnumber.joined.mem c hc with h | hsep | rfl
      · exact h
      · exact absurd hsep (lex.digit_not_separator c hdigit)
      · exact absurd rfl (digit_ne_space hdigit)
    have hnum : Numeral lex.toDigitTable head (trimZeros zero frac) := by
      refine ⟨hne, ?_, ?_⟩
      · intro c hc
        exact hdecimal c (hhead hc) (hdigits c (List.mem_append_left _ hc))
      · intro c hc
        have hmem : c ∈ frac := (List.rdropWhile_prefix _ _).subset hc
        exact hdecimal c (hfrac hc) (hdigits c (List.mem_append_right _ hmem))
    have hwhole : Numeral lex.toDigitTable head frac := hk ▸ hnum.fill k
    rw [valueTextForms_trim hwhole, mem_valueTextForms hnum (trimZeros_idem frac)] at hw
    obtain ⟨zeros, -, hw⟩ := hw
    rw [hnumber.tokenValue_eq (hnum.fill zeros) hw, hfloat.zeros zeros hnum,
      tokenValue_decimalText hwhole]
    conv_rhs => rw [hk]
    exact (hfloat.zeros k hnum).symm

/-! ## What the gate of the values finds -/

section Found

variable (lex : ValueLexicon) (statement page : PyText)

def singleValues : Finset PyText :=
  claimMatchValues lex statement \ claimRangeTokens (claimMatchValues lex statement)

def rangeTokens : Finset PyText := claimRangeTokens (claimMatchValues lex statement)

/-- A form of a single value stands alone on the page. -/
structure FoundAt (v pre w post : PyText) : Prop where
  value : v ∈ singleValues lex statement
  page_ne : page ≠ []
  text : scanned page = pre ++ (w ++ post)
  form : w ∈ valueTextForms lex.toDigitTable v
  alone : ¬ PartOfLonger lex.toDigitTable pre w post

/-- A range of the statement with both of its ends. -/
structure Looked (token : PyText) : Prop where
  range : token ∈ rangeTokens lex statement
  first_ne : (rangeEnds token).1 ≠ []
  second_ne : (rangeEnds token).2 ≠ []
  page_ne : page ≠ []

/-- The range stands on the page as a whole. -/
def RangeFoundAt (token : PyText) (start stop : Nat) : Prop :=
  Looked lex statement page token ∧ (start, stop, token) ∈ rangeValueSpans lex (scanned page)

/-- A form of each of its ends stands alone on the page, which is scanned twice. -/
def EndsFound (token : PyText) : Prop :=
  Looked lex statement page token ∧ scanned page ≠ [] ∧
    ∀ v, v = (rangeEnds token).1 ∨ v = (rangeEnds token).2 → ∃ pre w post,
      scanned (scanned page) = pre ++ (w ++ post) ∧ w ∈ valueTextForms lex.toDigitTable v ∧
        ¬ PartOfLonger lex.toDigitTable pre w post

/-- A value of the statement stands on the page. -/
def Found : Prop :=
  (∃ v pre w post, FoundAt lex statement page v pre w post) ∨
    (∃ token start stop, RangeFoundAt lex statement page token start stop) ∨
      ∃ token, EndsFound lex statement page token

end Found

theorem mem_found_iff {table : DigitTable} {values : Finset PyText} {page v : PyText} :
    v ∈ claimValuesFoundInTexts table values [some page] ↔ v ∈ values ∧ page ≠ [] ∧
      ∃ pre w post, scanned page = pre ++ (w ++ post) ∧ w ∈ valueTextForms table v ∧
        ¬ PartOfLonger table pre w post := by
  rw [claimValuesFoundInTexts, mem_foldl_addFound]
  constructor
  · rintro (h | ⟨hv, text, htext, hne, form, hform, hfound⟩)
    · exact absurd h (Finset.notMem_empty v)
    · obtain rfl : text = page := by simpa using htext
      obtain ⟨pre, post, hsplit, halone⟩ := formFound_iff.mp hfound
      exact ⟨hv, hne, pre, form, post, by rw [hsplit, List.append_assoc], hform, halone⟩
  · rintro ⟨hv, hne, pre, w, post, hsplit, hform, halone⟩
    refine .inr ⟨hv, page, List.mem_singleton_self _, hne, w, hform, ?_⟩
    exact formFound_iff.mpr ⟨pre, post, by rw [hsplit, List.append_assoc], halone⟩

theorem mem_rangesFound_iff {ranges : Finset PyText} {page token : PyText} :
    token ∈ claimRangesFoundInTexts lex ranges [some page] ↔
      token ∈ ranges ∧ rangeTokenSep ∈ token ∧ (rangeEnds token).1 ≠ [] ∧
        (rangeEnds token).2 ≠ [] ∧ page ≠ [] ∧
          ((∃ start stop, (start, stop, token) ∈ rangeValueSpans lex (scanned page)) ∨
            ∀ v, v = (rangeEnds token).1 ∨ v = (rangeEnds token).2 →
              v ∈ claimValuesFoundInTexts lex.toDigitTable
                {(rangeEnds token).1, (rangeEnds token).2} [some (scanned page)]) := by
  rw [claimRangesFoundInTexts, Finset.mem_filter, List.contains_iff_mem]
  by_cases hpage : page = []
  · subst hpage
    simp [claimValuesFoundInTexts, Finset.subset_empty]
  · have hkept : ([some page].filterMap fun text : Option PyText => text.filter (· ≠ [])) =
        [page] := by
      simp [List.filterMap, Option.filter, hpage]
    rw [hkept]
    simp [hpage, Finset.insert_subset_iff]

/-- **The gate of the values confirms a page where something stands on it.** -/
theorem confirmed_iff {statement page : PyText} :
    Confirmed lex statement page ↔ Found lex statement page := by
  have hends : ∀ {token v : PyText}, v = (rangeEnds token).1 ∨ v = (rangeEnds token).2 →
      v ∈ ({(rangeEnds token).1, (rangeEnds token).2} : Finset PyText) := by
    intro token v hv
    rw [Finset.mem_insert, Finset.mem_singleton]
    exact hv
  rw [Confirmed, Found, ← Finset.nonempty_iff_ne_empty, ← Finset.nonempty_iff_ne_empty]
  constructor
  · rintro (⟨v, hv⟩ | ⟨token, htoken⟩)
    · obtain ⟨hmem, hne, pre, w, post, htext, hform, halone⟩ := mem_found_iff.mp hv
      exact .inl ⟨v, pre, w, post, hmem, hne, htext, hform, halone⟩
    · obtain ⟨hmem, -, hfirst, hsecond, hne, hplace | hboth⟩ := mem_rangesFound_iff.mp htoken
      · obtain ⟨start, stop, hplace⟩ := hplace
        exact .inr (.inl ⟨token, start, stop, ⟨hmem, hfirst, hsecond, hne⟩, hplace⟩)
      · obtain ⟨-, hscanned, -⟩ := mem_found_iff.mp (hboth _ (.inl rfl))
        refine .inr (.inr ⟨token, ⟨hmem, hfirst, hsecond, hne⟩, hscanned, ?_⟩)
        intro v hv
        exact (mem_found_iff.mp (hboth v hv)).2.2
  · have hsep : ∀ {token}, token ∈ rangeTokens lex statement → rangeTokenSep ∈ token :=
      fun h => (Finset.mem_filter.mp h).2
    rintro (⟨v, pre, w, post, h⟩ | ⟨token, start, stop, h, hplace⟩ | ⟨token, h, hne, hboth⟩)
    · exact .inl ⟨v, mem_found_iff.mpr ⟨h.value, h.page_ne, pre, w, post, h.text, h.form, h.alone⟩⟩
    · exact .inr ⟨token, mem_rangesFound_iff.mpr ⟨h.range, hsep h.range, h.first_ne, h.second_ne,
        h.page_ne, .inl ⟨start, stop, hplace⟩⟩⟩
    · refine .inr ⟨token, mem_rangesFound_iff.mpr ⟨h.range, hsep h.range, h.first_ne, h.second_ne,
        h.page_ne, .inr ?_⟩⟩
      intro v hv
      exact mem_found_iff.mpr ⟨hends hv, hne, hboth v hv⟩

/-! ## The places that are read -/

section Read

variable (lex : ValueLexicon)

/-- Reading the page from the left comes to the number, and reads it and no more. -/
structure NumberRead (pre w post : PyText) : Prop where
  number : NumberWord lex w
  no_separator : ∀ c ∈ pre.reverse.head?, c ∉ decimalSeparators
  longest : ∀ w' post', w' ++ post' = w ++ post → Standing lex pre.reverse w' post' →
    w'.length ≤ w.length
  reached : Reaches (NumberAt lex) [] pre (w ++ post)

structure RangeRead (pre w post : PyText) (x : PyText × PyText) : Prop where
  stands : RangeAt lex pre.reverse w post x
  reached : Reaches (RangeAt lex) [] pre (w ++ post)

/-- The canonical text of two numbers. -/
def rangeToken (x : PyText × PyText) : PyText :=
  canonicalNumber lex.toDigitTable x.1 ++ rangeTokenSep :: canonicalNumber lex.toDigitTable x.2

variable (statement page : PyText)

/-- One of the places where a value is found is read. -/
def FoundRead : Prop :=
  (∃ v pre w post, FoundAt lex statement page v pre w post ∧ NumberRead lex pre w post) ∨
    ∃ pre w post x, scanned page = pre ++ (w ++ post) ∧ RangeRead lex pre w post x ∧
      RangeFoundAt lex statement page (rangeToken lex x) pre.length (pre.length + w.length)

/-- A value of the statement is read as a number where no form of it is found. -/
def ReadElsewhere [DecidableEq F] (float : PyText → Option F) : Prop :=
  let matchValues := claimMatchValues lex statement
  (∃ pre w post, scanned page = pre ++ (w ++ post) ∧ Reaches (NumberAt lex) [] pre (w ++ post) ∧
      NumberAt lex pre.reverse w post w ∧ tokenValue float w ∈ floatSingles float matchValues ∧
        ∀ v, ¬ FoundAt lex statement page v pre w post) ∨
    ∃ pre w post x, scanned page = pre ++ (w ++ post) ∧ RangeRead lex pre w post x ∧
      RangeCounts float matchValues x ∧
        ¬ RangeFoundAt lex statement page (rangeToken lex x) pre.length (pre.length + w.length)

end Read

/-- Beside a form that stands alone there is no digit. -/
theorem numberAt_iff {statement page v pre w post : PyText}
    (h : FoundAt lex statement page v pre w post) :
    Reaches (NumberAt lex) [] pre (w ++ post) ∧ NumberAt lex pre.reverse w post w ↔
      NumberRead lex pre w post := by
  constructor
  · rintro ⟨hreach, -, hstanding, hmax⟩
    refine ⟨hstanding.number, ?_, hmax, hreach⟩
    intro c hc hsep
    have hbound := hstanding.left_free c hc
    rw [isBound, Bool.or_eq_false_iff, ← Bool.not_eq_true, ← Bool.not_eq_true,
      List.contains_iff_mem] at hbound
    exact hbound.2 hsep
  · intro hread
    obtain ⟨hbefore, hbehind⟩ := not_or.mp h.alone
    refine ⟨hread.reached, rfl, ⟨hread.number, ?_, ?_, ?_⟩, hread.longest⟩
    · intro c hc
      rw [isBound, Bool.or_eq_false_iff, ← Bool.not_eq_true, ← Bool.not_eq_true,
        List.contains_iff_mem]
      refine ⟨?_, hread.no_separator c hc⟩
      intro hdigit
      exact hbefore (.inl ⟨c, hc, lex.decimal_digit c hdigit⟩)
    · intro c hc
      by_contra hdigit
      rw [Bool.not_eq_false] at hdigit
      exact hbehind (.inl ⟨c, hc, lex.decimal_digit c hdigit⟩)
    · intro s c hpre hs
      by_contra hdigit
      rw [Bool.not_eq_false] at hdigit
      exact hbehind (.inr ⟨s, c, hpre, lex.decimal_digit c hdigit, .inl hs⟩)

/-! ## A number with nothing joined to it -/

/-- Of two neighbours one is a digit, and the last symbol is a digit. -/
def Linked (lex : ValueLexicon) (w : PyText) : Prop :=
  w.IsChain (fun a b => lex.isDecimal a ∨ lex.isDecimal b) ∧ ∀ c ∈ w.getLast?, lex.isDecimal c

theorem Linked.digits {d w : PyText} (hd : DigitRun lex d) (h : Linked lex w) :
    Linked lex (d ++ w) := by
  have hchain : d.IsChain (fun a b => lex.isDecimal a ∨ lex.isDecimal b) :=
    (List.pairwise_of_forall_mem_list fun a ha b _ => .inl (hd a ha)).isChain
  constructor
  · refine List.isChain_append.mpr ⟨hchain, h.1, ?_⟩
    intro a ha b _
    exact .inl (hd a (List.mem_of_getLast? ha))
  · intro c hc
    cases w with
    | nil =>
      rw [List.append_nil] at hc
      exact hd c (List.mem_of_getLast? hc)
    | cons x w =>
      rw [List.getLast?_append_of_ne_nil _ (List.cons_ne_nil _ _)] at hc
      exact h.2 c hc

/-- A symbol before a number that begins with a digit. -/
theorem Linked.cons {c x : CodePoint} {w : PyText} (hx : lex.isDecimal x)
    (h : Linked lex (x :: w)) : Linked lex (c :: x :: w) := by
  refine ⟨List.isChain_cons_cons.mpr ⟨.inr hx, h.1⟩, ?_⟩
  intro d hd
  rw [List.getLast?_cons_cons] at hd
  exact h.2 d hd

theorem linked_groups {frac : PyText} (hfrac : Linked lex frac) : ∀ {n : Nat} {groups : PyText},
    Words (GroupWord lex) n groups → Linked lex (groups ++ frac) := by
  intro n
  induction n with
  | zero =>
    intro groups hgroups
    rw [words_zero.mp hgroups]
    exact hfrac
  | succ n ih =>
    intro groups hgroups
    obtain ⟨u, v, ⟨d, hd, hlen, rfl⟩, hv, rfl⟩ := words_succ.mp hgroups
    have hrest := Linked.digits hd (ih hv)
    obtain ⟨x, d, rfl⟩ := List.exists_cons_of_length_eq_add_one hlen
    rw [List.append_assoc]
    exact Linked.cons (hd x List.mem_cons_self) hrest

theorem NumberWord.linked {w : PyText} (h : NumberWord lex w) : Linked lex w := by
  obtain ⟨head, groups, frac, hhead, -, -, ⟨n, hgroups⟩, hfrac, rfl⟩ := h
  refine Linked.digits hhead (linked_groups ?_ hgroups)
  rcases hfrac with rfl | ⟨sep, f, -, hf, hne, rfl⟩
  · exact ⟨List.isChain_nil, by simp⟩
  · have hdigits : Linked lex (f ++ []) := Linked.digits hf ⟨List.isChain_nil, by simp⟩
    rw [List.append_nil] at hdigits
    obtain ⟨x, f, rfl⟩ := List.exists_cons_of_ne_nil hne
    exact Linked.cons (hf x List.mem_cons_self) hdigits

section Plain

variable {statement page v pre w post : PyText} (h : FoundAt lex statement page v pre w post)

include h

/-- A longer number would go on with a digit, or with another symbol and a digit. -/
theorem FoundAt.longest (hbehind : ∀ c, [space, c] <+: post → lex.isDecimal c = false) :
    ∀ w' post', w' ++ post' = w ++ post → Standing lex pre.reverse w' post' →
      w'.length ≤ w.length := by
  obtain ⟨-, halone'⟩ := not_or.mp h.alone
  intro w' post' hsame hstanding
  by_contra hlonger
  rw [Nat.not_le] at hlonger
  obtain ⟨t, rfl⟩ := List.prefix_of_prefix_length_le (hsame ▸ List.prefix_append w post)
    (List.prefix_append w' post') hlonger.le
  rw [List.append_assoc] at hsame
  obtain rfl := (List.append_cancel_left hsame).symm
  obtain ⟨hchain, hlast⟩ := hstanding.number.linked
  cases t with
  | nil => simp at hlonger
  | cons e t =>
    have hmem := hstanding.number.joined.mem e (by simp)
    have hdecimal : lex.isDecimal e = false := by
      by_contra hdigit
      rw [Bool.not_eq_false] at hdigit
      exact halone' (.inl ⟨e, rfl, lex.decimal_digit e hdigit⟩)
    cases t with
    | nil =>
      rw [hlast e (by simp)] at hdecimal
      cases hdecimal
    | cons b t =>
      have hpair := (List.isChain_cons_cons.mp (List.isChain_append.mp hchain).2.1).1
      have hb : lex.isDecimal b := hpair.resolve_left (by rw [hdecimal]; exact Bool.false_ne_true)
      have hpre : [e, b] <+: e :: b :: (t ++ post') := List.prefix_append [e, b] (t ++ post')
      rcases hmem with hdigit | hsep' | rfl
      · rw [hdecimal] at hdigit
        cases hdigit
      · exact halone' (.inr ⟨e, b, hpre, lex.decimal_digit b hb, .inl hsep'⟩)
      · rw [hbehind b hpre] at hb
        cases hb

/-- A number that goes on into the form has a digit before it, or a blank with a digit. -/
theorem FoundAt.reached (hsep : ∀ c ∈ pre.reverse.head?, c ∉ decimalSeparators)
    (hbefore : ∀ c, [space, c] <+: pre.reverse → lex.isDecimal c = false) :
    Reaches (NumberAt lex) [] pre (w ++ post) := by
  obtain ⟨halone, -⟩ := not_or.mp h.alone
  refine Reaches.of_clear (fun hat => numberWord_ne hat.2.1.number) (le_refl _) ?_
  intro u v' y post' x hpre hne hsame hat
  by_contra hlonger
  rw [Nat.not_le] at hlonger
  obtain ⟨t, rfl⟩ := List.prefix_of_prefix_length_le (hsame ▸ List.prefix_append v' (w ++ post))
    (List.prefix_append y post') hlonger.le
  have hyword := hat.2.1.number
  obtain ⟨hchain, -⟩ := hyword.linked
  obtain ⟨v', c, rfl⟩ := (List.eq_nil_or_concat' v').resolve_left hne
  have hleft : pre.reverse = c :: (v'.reverse ++ u.reverse) := by
    rw [hpre, List.reverse_append, List.reverse_append]
    rfl
  rcases hyword.joined.mem c (by simp) with hdigit | hsep' | rfl
  · refine halone (.inl ⟨c, ?_, lex.decimal_digit c hdigit⟩)
    rw [hleft]
    rfl
  · refine hsep c ?_ hsep'
    rw [hleft]
    rfl
  · rcases List.eq_nil_or_concat' v' with rfl | ⟨v', d, rfl⟩
    · obtain ⟨b, rest, hcons, hb⟩ := hyword.head_decimal
      obtain ⟨rfl, -⟩ := List.cons_eq_cons.mp hcons
      rw [space_not_decimal] at hb
      cases hb
    · have hd : lex.isDecimal d := by
        have hpair : List.IsChain (fun a b => lex.isDecimal a ∨ lex.isDecimal b) [d, space] := by
          refine hchain.infix ⟨v', t, ?_⟩
          simp
        have hor := (List.isChain_cons_cons.mp hpair).1
        rw [space_not_decimal] at hor
        exact hor.resolve_right Bool.false_ne_true
      rw [hbefore d] at hd
      · cases hd
      · rw [hleft]
        simp

/-- **A form that stands alone is read where no separator and no blank with a digit is before it,
and no blank with a digit behind it.** -/
theorem FoundAt.read (hnumber : NumberWord lex w)
    (hsep : ∀ c ∈ pre.reverse.head?, c ∉ decimalSeparators)
    (hbefore : ∀ c, [space, c] <+: pre.reverse → lex.isDecimal c = false)
    (hbehind : ∀ c, [space, c] <+: post → lex.isDecimal c = false) : NumberRead lex pre w post :=
  ⟨hnumber, hsep, h.longest hbehind, h.reached hsep hbefore⟩

end Plain

/-! ## The two searches -/

/-- The ends of a range are the canonical texts of its numbers. -/
theorem rangeEnds_rangeToken {x : PyText × PyText} (h : NumberWord lex x.1) :
    rangeEnds (rangeToken lex x) =
      (canonicalNumber lex.toDigitTable x.1, canonicalNumber lex.toDigitTable x.2) := by
  obtain ⟨head, frac, hnum, hw⟩ := h.numeral
  have hfree : ∀ c ∈ canonicalNumber lex.toDigitTable x.1,
      decide (c ≠ rangeTokenSep) = true := by
    intro c hc
    rw [decide_eq_true_eq]
    rintro rfl
    rw [hw.canonicalNumber hnum, decimalText] at hc
    have hdigit : ∀ f : PyText, f ⊆ head ++ frac → rangeTokenSep ∉ f := by
      intro f hf hmem
      have hdecimal : lex.isDecimal rangeTokenSep = true := by
        rcases List.mem_append.mp (hf hmem) with hmem | hmem
        · exact hnum.head_decimal _ hmem
        · exact hnum.frac_decimal _ hmem
      rw [lex.connector_not_decimal _ (by decide)] at hdecimal
      cases hdecimal
    have hhead := hdigit head (List.subset_append_left _ _)
    have hfrac := hdigit (trimZeros zero frac) (List.Subset.trans
      (List.rdropWhile_prefix _ _).subset (List.subset_append_right _ _))
    split at hc
    · exact hhead hc
    · rcases List.mem_append.mp hc with hc | hc
      · exact hhead hc
      · rcases List.mem_cons.mp hc with hc | hc
        · revert hc
          decide
        · exact hfrac hc
  rw [rangeEnds, rangeToken, List.takeWhile_append_of_pos hfree, List.dropWhile_append_of_pos hfree,
    List.takeWhile_cons_of_neg (by simp), List.dropWhile_cons_of_neg (by simp), List.append_nil]
  rfl

variable [DecidableEq F]

/-- A single value that is found and read counts as a number. -/
theorem FoundAt.counts (hfloat : ReadsNumerals lex.toDigitTable float)
    {statement page v pre w post : PyText} (h : FoundAt lex statement page v pre w post)
    (hnumber : NumberWord lex w) :
    tokenValue float w ∈ floatSingles float (claimMatchValues lex statement) := by
  rw [floatSingles, Finset.mem_erase, Finset.mem_image]
  exact ⟨(hnumber.tokenValue_canonical hfloat).2, v, h.value,
    (tokenValue_form hfloat h.form hnumber).symm⟩

/-- A range that is found and read counts. -/
theorem RangeFoundAt.counts (hfloat : ReadsNumerals lex.toDigitTable float)
    {statement page : PyText} {x : PyText × PyText} {start stop : Nat}
    (h : RangeFoundAt lex statement page (rangeToken lex x) start stop)
    (hfirst : NumberWord lex x.1) (hsecond : NumberWord lex x.2) :
    RangeCounts float (claimMatchValues lex statement) x := by
  obtain ⟨heq, hne⟩ := hfirst.tokenValue_canonical hfloat
  obtain ⟨heq', hne'⟩ := hsecond.tokenValue_canonical hfloat
  refine ⟨hne, hne', .inl ?_⟩
  rw [rangePairs, Finset.mem_filter, Finset.mem_image]
  refine ⟨⟨rangeToken lex x, h.1.range, ?_⟩, Option.isSome_iff_ne_none.mpr hne,
    Option.isSome_iff_ne_none.mpr hne'⟩
  rw [rangeEnds_rangeToken hfirst, heq, heq']

/-- **A page with a value of the statement has a place for it exactly where a place at which the
value is found is read, or the value is read as a number elsewhere.** -/
theorem anchored_iff_read (lex : ValueLexicon) {float : PyText → Option F}
    (hfloat : ReadsNumerals lex.toDigitTable float) (statement page : PyText) :
    (∀ v pre w post, FoundAt lex statement page v pre w post →
      ((∃ m ∈ (scannedNumberRe lex).findAll (scanned page),
          m.start = pre.length ∧ m.stop = pre.length + w.length) ↔ NumberRead lex pre w post)) ∧
    ((Confirmed lex statement page → valueAnchorSpans lex float (scanned page) statement ≠ []) ↔
      (Found lex statement page →
        FoundRead lex statement page ∨ ReadElsewhere lex statement page float)) := by
  constructor
  · intro v pre w post h
    rw [← numberAt_iff h, h.text, finds_scannedNumberRe.place_iff]
    refine and_congr_right fun _ => ?_
    constructor
    · rintro ⟨x, hat⟩
      obtain rfl := hat.1
      exact hat
    · exact fun hat => ⟨w, hat⟩
  · rw [confirmed_iff, valueAnchorSpans, anchorSpans_ne_nil_iff_met, ValueMet]
    refine imp_congr_right fun _ => ?_
    simp only [met_iff, List.append_nil]
    constructor
    · rintro (⟨w, ⟨pre, w', post, htext, hreach, hat⟩, hcounts⟩ |
        ⟨x, ⟨pre, w, post, htext, hreach, hat⟩, hcounts⟩)
      · obtain rfl := hat.1
        by_cases hfound : ∃ v, FoundAt lex statement page v pre w post
        · obtain ⟨v, hfound⟩ := hfound
          exact .inl (.inl ⟨v, pre, w, post, hfound, (numberAt_iff hfound).mp ⟨hreach, hat⟩⟩)
        · exact .inr (.inl ⟨pre, w, post, htext, hreach, hat, hcounts, not_exists.mp hfound⟩)
      · by_cases hfound :
          RangeFoundAt lex statement page (rangeToken lex x) pre.length (pre.length + w.length)
        · exact .inl (.inr ⟨pre, w, post, x, htext, ⟨hat, hreach⟩, hfound⟩)
        · exact .inr (.inr ⟨pre, w, post, x, htext, ⟨hat, hreach⟩, hcounts, hfound⟩)
    · rintro ((⟨v, pre, w, post, hfound, hread⟩ | ⟨pre, w, post, x, htext, hread, hfound⟩) |
        (⟨pre, w, post, htext, hreach, hat, hcounts, -⟩ |
          ⟨pre, w, post, x, htext, hread, hcounts, -⟩))
      · obtain ⟨hreach, hat⟩ := (numberAt_iff hfound).mpr hread
        exact .inl ⟨w, ⟨pre, w, post, hfound.text, hreach, hat⟩, hfound.counts hfloat hread.number⟩
      · obtain ⟨conn, -, -, hfirst, -, hsecond, -⟩ := hread.stands
        exact .inr ⟨x, ⟨pre, w, post, htext, hread.reached, hread.stands⟩,
          hfound.counts hfloat hfirst hsecond⟩
      · exact .inl ⟨w, ⟨pre, w, post, htext, hreach, hat⟩, hcounts⟩
      · exact .inr ⟨x, ⟨pre, w, post, htext, hread.reached, hread.stands⟩, hcounts⟩

/-! ## The digits of ASCII -/

theorem ascii_connector_not_decimal : ∀ c ∈ lit "-–—до", isAsciiDigit c = false := by
  have hall : (lit "-–—до").all (fun c => !isAsciiDigit c) = true := by decide
  intro c hc
  simpa using List.all_eq_true.mp hall c hc

/-- The tables, for ASCII symbols. -/
def asciiLexicon : ValueLexicon where
  toDigitTable := asciiDigits
  isWord c := isAsciiDigit c || (65 ≤ c.val && c.val ≤ 90) || (97 ≤ c.val && c.val ≤ 122) ||
    c.val = 95
  sameLetter a b := a = b
  connector_not_decimal := ascii_connector_not_decimal

/-- `float`, of digits with a point or without. -/
def decimalFloat (text : PyText) : Option ℚ :=
  let whole := text.takeWhile (· ≠ point)
  let frac := (text.dropWhile (· ≠ point)).drop 1
  if (whole ++ frac).all isAsciiDigit && !(whole ++ frac).isEmpty then
    some (((whole ++ frac).foldl (fun n c => 10 * n + (c.val - 48)) 0 : Nat) / 10 ^ frac.length)
  else none

theorem foldl_zeros (n a : Nat) :
    (List.replicate n zero).foldl (fun m c => 10 * m + (c.val - 48)) a = a * 10 ^ n := by
  induction n generalizing a with
  | zero => simp
  | succ n ih =>
    have hzero : 10 * a + (zero.val - 48) = a * 10 := by
      have hval : zero.val - 48 = 0 := by decide
      rw [hval]
      omega
    rw [List.replicate_succ, List.foldl_cons, hzero, ih, pow_succ']
    ring

theorem decimalFloat_eq {head frac : PyText} (h : Numeral asciiDigits head frac) :
    decimalFloat (decimalText head frac) =
      some ((((head ++ frac).foldl (fun n c => 10 * n + (c.val - 48)) 0 : Nat) : ℚ) /
        10 ^ frac.length) := by
  obtain ⟨hwhole, hfrac⟩ := decimalText_parts h
  have hall : (head ++ frac).all isAsciiDigit = true := by
    rw [List.all_append, Bool.and_eq_true, List.all_eq_true, List.all_eq_true]
    exact ⟨h.head_decimal, h.frac_decimal⟩
  have hne : (head ++ frac).isEmpty = false := by
    rw [List.isEmpty_eq_false_iff]
    exact List.append_ne_nil_of_left_ne_nil h.head_ne _
  rw [decimalFloat, hwhole, hfrac, hall, hne]
  rfl

theorem decimalFloat_reads : ReadsNumerals asciiLexicon.toDigitTable decimalFloat := by
  constructor
  · intro head frac h
    rw [decimalFloat_eq h]
    exact Option.some_ne_none _
  · intro head frac n h
    rw [decimalFloat_eq h, decimalFloat_eq (h.fill n), ← List.append_assoc, List.foldl_append,
      foldl_zeros, List.length_append, List.length_replicate, pow_add, Nat.cast_mul, Nat.cast_pow,
      Nat.cast_ofNat, mul_div_mul_right _ _ (by positivity)]

theorem not_partOfLonger {table : DigitTable} {pre w post : PyText}
    (h : (glues table (w.contains space) pre.reverse || glues table (w.contains space) post) =
      false) : ¬ PartOfLonger table pre w post := by
  rw [Bool.or_eq_false_iff, ← Bool.not_eq_true, ← Bool.not_eq_true, glues_iff, glues_iff,
    List.contains_iff_mem] at h
  exact not_or.mpr h

/-- The second place is read. -/
theorem grouped_found : FoundAt asciiLexicon (lit "1649,5 %") (lit "1649,5 и 1 649,5")
    (lit "1649.5") (lit "1649,5 и ") (lit "1 649,5") [] where
  value := by decide
  page_ne := by decide
  text := by decide
  form := by decide
  alone := not_partOfLonger (by decide)

theorem digitRun_of_all {d : PyText} (h : d.all isAsciiDigit = true) : DigitRun asciiLexicon d :=
  List.all_eq_true.mp h

theorem grouped_number : NumberWord asciiLexicon (lit "1 649,5") := by
  refine ⟨lit "1", lit " 649", lit ",5", digitRun_of_all (by decide), by decide, by decide,
    ⟨1, [lit " 649"], rfl, ?_, rfl⟩, .inr ⟨comma, lit "5", by decide, digitRun_of_all (by decide),
      by decide, rfl⟩, rfl⟩
  intro u hu
  rw [List.mem_singleton.mp hu]
  exact ⟨lit "649", digitRun_of_all (by decide), by decide, rfl⟩

theorem grouped_read : NumberRead asciiLexicon (lit "1649,5 и ") (lit "1 649,5") [] := by
  have hhead : (lit "1649,5 и ").reverse.head? = some space := by decide
  have hsecond : (lit "1649,5 и ").reverse[1]? = some (.ofChar 'и') := by decide
  refine grouped_found.read grouped_number ?_ ?_ ?_
  · intro c hc hsep
    rw [hhead, Option.mem_some_iff] at hc
    exact (separator_not_space hsep).2 hc.symm
  · rintro c ⟨rest, hrest⟩
    rw [← hrest] at hsecond
    obtain rfl : c = .ofChar 'и' := by simpa using hsecond
    decide
  · intro c hpre
    cases List.prefix_nil.mp hpre

/-- `1649,5` is found twice, and has a place where it is written in groups. -/
theorem anchored_iff_read_grouped :
    Confirmed asciiLexicon (lit "1649,5 %") (lit "1649,5 и 1 649,5") ∧
      valueAnchorSpans asciiLexicon decimalFloat (scanned (lit "1649,5 и 1 649,5"))
        (lit "1649,5 %") ≠ [] := by
  have hconfirmed : Confirmed asciiLexicon (lit "1649,5 %") (lit "1649,5 и 1 649,5") :=
    confirmed_iff.mpr (.inl ⟨_, _, _, _, grouped_found⟩)
  refine ⟨hconfirmed, ?_⟩
  refine (anchored_iff_read asciiLexicon decimalFloat_reads _ _).2.mpr ?_ hconfirmed
  exact fun _ => .inl (.inl ⟨_, _, _, _, grouped_found, grouped_read⟩)

theorem four_digits_unanchored :
    Confirmed asciiLexicon (lit "1649 %") (lit "1649 %") ∧
      valueAnchorSpans asciiLexicon decimalFloat (scanned (lit "1649 %")) (lit "1649 %") = [] := by
  constructor
  · exact .inl (by decide)
  · decide +kernel

end Noezema.Cognition.ValueAnchors
