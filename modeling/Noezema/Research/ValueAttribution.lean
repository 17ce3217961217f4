import Noezema.Lib.CodePoints
import Noezema.Lib.Numerals
import Noezema.Lib.Regex

/-! # Values in the text of a page

A link of evidence stands where a value of its claim is written in a text of the page
(`claimValuesFoundInTexts`). The value is looked for in its text forms: the integer part whole or
in groups of three, either separator, up to three zeros at the end. A form counts where no digit,
and no separator with a digit, is next to it.

Beside a grouped form a blank with a digit does not count either. Beside an ungrouped one it does,
so `649.5` is found on `1 649,5`.
-/

namespace Noezema.Research.ValueAttribution

open Noezema.Lib Noezema.Lib.Regex PyText

def space : CodePoint := .ofChar ' '
def point : CodePoint := .ofChar '.'
def comma : CodePoint := .ofChar ','
def zero : CodePoint := .ofChar '0'

/-- `_DECIMAL_SEPARATORS`. -/
def decimalSeparators : PyText := [point, comma]

/-- What is used of the tables of Unicode. -/
structure DigitTable where
  /-- `\d`. -/
  isDecimal : CodePoint → Bool
  /-- `str.isdigit`. -/
  isDigit : CodePoint → Bool
  decimal_digit : ∀ c, isDecimal c → isDigit c
  digit_not_space : ∀ c, isDigit c → c.isSpace = false
  digit_not_separator : ∀ c, isDigit c → c ∉ decimalSeparators
  zero_decimal : isDecimal zero

/-! ## The text that is scanned -/

/-- `MAX_SCAN_CHARS`. -/
def maxScanChars : Nat := 40000

def scanBlank (c : CodePoint) : Bool :=
  (0x2000 ≤ c.val && c.val < 0x200B) || c.val = 0x00A0 || c.val = 0x202F || c.val = 0x205F

def scanRemoved (c : CodePoint) : Bool :=
  c.val = 0x00AD || (0x200B ≤ c.val && c.val ≤ 0x200D) || c.val = 0x2060 || c.val = 0xFEFF

/-- `text.translate(_SCAN_TRANSLATE)`. -/
def scanTranslate (text : PyText) : PyText :=
  (text.filter (!scanRemoved ·)).map fun c => if scanBlank c then space else c

def consecutiveSpaces : Regex CodePoint := many 2 none (symbol (· = space))

def spacedLineBreak : Regex CodePoint :=
  let blanks := many 1 none (symbol fun c => c = space || c = CodePoint.ofChar '\t')
  seqs [blanks, group 1 (seq (optional (symbol (· = CodePoint.ofChar '\r')))
    (symbol (· = CodePoint.ofChar '\n'))), blanks]

/-- `normalize_scan_text`. -/
def normalizeScanText (text : PyText) : PyText :=
  let collapsed := consecutiveSpaces.sub (fun _ => [space]) (scanTranslate text)
  spacedLineBreak.sub (fun m => (m.groupText collapsed 1).getD []) collapsed

def scanned (text : PyText) : PyText := (normalizeScanText text).take maxScanChars

/-! ## Numbers -/

def decimalText (head frac : PyText) : PyText :=
  if frac = [] then head else head ++ point :: frac

section Digits

variable (table : DigitTable)

/-- `_canonical_number`. -/
def canonicalNumber (raw : PyText) : PyText :=
  let text := (((raw.filter (!·.isSpace)).map fun c => if c = comma then point else c).dropWhile
    (· = point)).rdropWhile (· = point)
  let head := text.takeWhile (· ≠ point)
  let frac := (text.dropWhile (· ≠ point)).drop 1
  -- `_CANONICAL_DECIMAL.fullmatch(text)`
  if head ≠ [] ∧ head.all table.isDecimal ∧ frac ≠ [] ∧ frac.all table.isDecimal then
    decimalText head (trimZeros zero frac)
  else text

/-- `_grouped_digits`. -/
def groupedDigits (digits : PyText) : List PyText :=
  if digits.length < 4 then [digits] else [digits, join [space] (thousandGroups digits)]

/-- `_MAX_TRAILING_ZEROS`. -/
def maxTrailingZeros : Nat := 3

/-- `_value_text_forms`. -/
def valueTextForms (value : PyText) : List PyText :=
  let parts := value.splitOn point
  let head := parts.headD []
  if ¬ parts.all (fun part => !part.isEmpty && part.all table.isDigit) then [value]
  else if 2 < parts.length then
    (parts.tail.foldr (fun part tails => tails.flatMap fun tail => decimalSeparators.map fun sep =>
      sep :: part ++ tail) [[]]).map (head ++ ·)
  else
    let fracMin := if parts.length = 2 then trimZeros zero (parts.getD 1 []) else []
    (groupedDigits head).flatMap fun headForm =>
      if fracMin ≠ [] then
        (List.range (maxTrailingZeros + 1)).flatMap fun zeros => decimalSeparators.map fun sep =>
          headForm ++ sep :: (fracMin ++ List.replicate zeros zero)
      else
        headForm :: (List.range' 1 maxTrailingZeros).flatMap fun zeros =>
          decimalSeparators.map fun sep => headForm ++ sep :: List.replicate zeros zero

/-! ## The search -/

def digitAt (text : PyText) (i : Nat) : Bool := (text[i]?).any table.isDigit

def separatorAt (text : PyText) (i : Nat) : Bool := (text[i]?).any decimalSeparators.contains

def spaceAt (text : PyText) (i : Nat) : Bool := (text[i]?).any (· = space)

/-- `_form_is_standalone`. -/
def formIsStandalone (text : PyText) (start stop : Nat) (gluedSpace : Bool) : Bool :=
  let beforeGlue :=
    (0 < start && digitAt table text (start - 1)) ||
    (1 < start && separatorAt text (start - 1) && digitAt table text (start - 2)) ||
    (gluedSpace && 1 < start && spaceAt text (start - 1) && digitAt table text (start - 2))
  let afterGlue :=
    digitAt table text stop ||
    (separatorAt text stop && digitAt table text (stop + 1)) ||
    (gluedSpace && spaceAt text stop && digitAt table text (stop + 1))
  !(beforeGlue || afterGlue)

/-- The form at one of the places `text.find` gives. -/
def formFound (text form : PyText) : Bool :=
  (List.range (text.length + 1)).any fun start => form.isPrefixOf (text.drop start) &&
    formIsStandalone table text start (start + form.length) (form.contains space)

/-- What one more text confirms. -/
def addFound (values found : Finset PyText) : Option PyText → Finset PyText
  | some (c :: text) =>
    found ∪ values.filter fun v =>
      (valueTextForms table v).any (formFound table (scanned (c :: text)))
  | _ => found

/-- `claim_values_found_in_texts`. -/
def claimValuesFoundInTexts (values : Finset PyText) (texts : List (Option PyText)) :
    Finset PyText :=
  texts.foldl (addFound table values) ∅

/-! ## How a value is written -/

/-- The digits of an integer part, whole or in groups. -/
inductive IntegerWritten (head : PyText) : PyText → Prop where
  | whole : IntegerWritten head head
  | grouped {groups : List PyText} (h : ThousandGroups head groups) (h2 : 2 ≤ groups.length) :
      IntegerWritten head (join [space] groups)

/-- A number with these digits before and after the separator. -/
inductive Written (head frac : PyText) : PyText → Prop where
  | integer {w : PyText} (h : IntegerWritten head w) (hfrac : frac = []) : Written head frac w
  | decimal {w : PyText} {sep : CodePoint} (h : IntegerWritten head w)
      (hsep : sep ∈ decimalSeparators) (hfrac : frac ≠ []) :
      Written head frac (w ++ sep :: frac)

structure Numeral (head frac : PyText) : Prop where
  head_ne : head ≠ []
  head_decimal : ∀ c ∈ head, table.isDecimal c
  frac_decimal : ∀ c ∈ frac, table.isDecimal c

/-- Digits, or digits, a point and digits of which the last is no zero. -/
def Canonical (v : PyText) : Prop :=
  ∃ head frac, Numeral table head frac ∧ trimZeros zero frac = frac ∧ v = decimalText head frac

/-- A documented form of a value: at most three zeros are added to its fraction. -/
def DocumentedForm (v w : PyText) : Prop :=
  ∃ head frac, Numeral table head frac ∧ Written head frac w ∧
    frac.length ≤ (trimZeros zero frac).length + maxTrailingZeros ∧ canonicalNumber table w = v

/-- The text beside a number goes on with it; the nearest symbol comes first. -/
def Continues (grouped : Prop) (side : PyText) : Prop :=
  (∃ c ∈ side.head?, table.isDigit c) ∨
    ∃ s c, [s, c] <+: side ∧ table.isDigit c ∧ (s ∈ decimalSeparators ∨ grouped ∧ s = space)

/-- The number between the two texts is a part of a longer one. -/
def PartOfLonger (pre w post : PyText) : Prop :=
  Continues table (space ∈ w) pre.reverse ∨ Continues table (space ∈ w) post

variable {table}

/-! ## The digits of a numeral -/

section Symbols

variable {c : CodePoint}

theorem digit_ne_point (h : table.isDigit c) : c ≠ point := by
  rintro rfl
  exact table.digit_not_separator _ h List.mem_cons_self

theorem digit_ne_comma (h : table.isDigit c) : c ≠ comma := by
  rintro rfl
  exact table.digit_not_separator _ h (List.mem_cons_of_mem _ List.mem_cons_self)

theorem digit_ne_space (h : table.isDigit c) : c ≠ space := by
  rintro rfl
  have := table.digit_not_space _ h
  exact absurd this (by decide)

theorem mem_decimalSeparators : c ∈ decimalSeparators ↔ c = point ∨ c = comma := by
  simp [decimalSeparators]

theorem separator_not_space (h : c ∈ decimalSeparators) : c.isSpace = false ∧ c ≠ space := by
  rcases mem_decimalSeparators.mp h with rfl | rfl
  · decide
  · decide

theorem separator_as_point (h : c ∈ decimalSeparators) :
    (if c = comma then point else c) = point := by
  rcases mem_decimalSeparators.mp h with rfl | rfl
  · decide
  · decide

end Symbols

theorem Numeral.head_digit {head frac : PyText} (h : Numeral table head frac) :
    ∀ c ∈ head, table.isDigit c := fun c hc => table.decimal_digit c (h.head_decimal c hc)

theorem Numeral.frac_digit {head frac : PyText} (h : Numeral table head frac) :
    ∀ c ∈ frac, table.isDigit c := fun c hc => table.decimal_digit c (h.frac_decimal c hc)

theorem filter_join (groups : List PyText) :
    (join [space] groups).filter (!·.isSpace) = groups.flatten.filter (!·.isSpace) := by
  induction groups using join.induct with
  | case1 => rfl
  | case2 p => rw [join, List.flatten_singleton]
  | case3 p q ps ih =>
    have hspace : [space].filter (!·.isSpace) = [] := by decide
    rw [join, List.filter_append, List.filter_append, ih, hspace, List.append_nil,
      List.flatten_cons (L := q :: ps), List.filter_append]

/-- Of an integer part the digits are left. -/
theorem IntegerWritten.filter {head w : PyText} (hdigit : ∀ c ∈ head, table.isDigit c)
    (h : IntegerWritten head w) : w.filter (!·.isSpace) = head := by
  have hhead : head.filter (!·.isSpace) = head := by
    rw [List.filter_eq_self]
    intro c hc
    rw [table.digit_not_space c (hdigit c hc)]
    rfl
  cases h with
  | whole => exact hhead
  | grouped hgroups h2 => rw [filter_join, hgroups.flatten, hhead]

theorem mem_decimalText_ne {head frac : PyText} (h : Numeral table head frac) :
    ∀ c ∈ head ++ frac, c ≠ point ∧ c ≠ comma ∧ c.isSpace = false := by
  intro c hc
  have hdigit : table.isDigit c := by
    rcases List.mem_append.mp hc with hc | hc
    · exact h.head_digit c hc
    · exact h.frac_digit c hc
  exact ⟨digit_ne_point hdigit, digit_ne_comma hdigit, table.digit_not_space c hdigit⟩

/-- The blanks are out and the comma is a point. -/
theorem Written.pointed {head frac w : PyText} (hnum : Numeral table head frac)
    (h : Written head frac w) :
    ((w.filter (!·.isSpace)).map fun c => if c = comma then point else c) =
      decimalText head frac := by
  have hmap : ∀ s : PyText, s ⊆ head ++ frac →
      s.map (fun c => if c = comma then point else c) = s := by
    intro s hs
    refine (List.map_congr_left fun c hc => ?_).trans (List.map_id s)
    exact if_neg (mem_decimalText_ne hnum c (hs hc)).2.1
  have hfilter : frac.filter (!·.isSpace) = frac := by
    rw [List.filter_eq_self]
    intro c hc
    rw [table.digit_not_space c (hnum.frac_digit c hc)]
    rfl
  cases h with
  | integer hw hfrac =>
    rw [hw.filter hnum.head_digit, hmap head (List.subset_append_left _ _), decimalText,
      if_pos hfrac]
  | @decimal w sep hw hsep hfrac =>
    rw [List.filter_append, hw.filter hnum.head_digit,
      List.filter_cons_of_pos (by rw [(separator_not_space hsep).1]; rfl), hfilter, List.map_append,
      List.map_cons, hmap head (List.subset_append_left _ _),
      hmap frac (List.subset_append_right _ _), separator_as_point hsep, decimalText, if_neg hfrac]

/-- Neither end of a number is a point. -/
theorem strip_decimalText {head frac : PyText} (h : Numeral table head frac) :
    ((decimalText head frac).dropWhile (· = point)).rdropWhile (· = point) =
      decimalText head frac := by
  have hpoint : ∀ c ∈ head ++ frac, c ≠ point := fun c hc => (mem_decimalText_ne h c hc).1
  obtain ⟨c, cs, hcons⟩ := List.exists_cons_of_ne_nil h.head_ne
  have hhead : (decimalText head frac).dropWhile (· = point) = decimalText head frac := by
    have hc : c ≠ point := hpoint c (by simp [hcons])
    rw [decimalText, hcons]
    split
    · rw [List.dropWhile_cons_of_neg (by simpa using hc)]
    · rw [List.cons_append, List.dropWhile_cons_of_neg (by simpa using hc)]
  rw [hhead, List.rdropWhile_eq_self_iff]
  intro hne
  have hlast : (decimalText head frac).getLast hne ∈ head ++ frac := by
    by_cases hfrac : frac = []
    · simp only [decimalText, hfrac, if_true, List.append_nil]
      exact List.getLast_mem _
    · simp only [decimalText, hfrac, if_false]
      rw [List.getLast_append_of_ne_nil _ (List.cons_ne_nil _ _), List.getLast_cons hfrac]
      exact List.mem_append_right _ (List.getLast_mem hfrac)
  simpa using hpoint _ hlast

/-- The canonical value of a number: its digits without the zeros at the end. -/
theorem Written.canonicalNumber {head frac w : PyText} (hnum : Numeral table head frac)
    (h : Written head frac w) :
    canonicalNumber table w = decimalText head (trimZeros zero frac) := by
  have hpoint : ∀ c ∈ head, (decide (c ≠ point)) = true := fun c hc =>
    decide_eq_true (mem_decimalText_ne hnum c (List.mem_append_left _ hc)).1
  rw [ValueAttribution.canonicalNumber, h.pointed hnum, strip_decimalText hnum]
  by_cases hfrac : frac = []
  · subst hfrac
    have htext : decimalText head [] = head := if_pos rfl
    rw [htext, List.dropWhile_eq_nil_iff.mpr hpoint]
    simp [trimZeros, htext]
  · have htext : decimalText head frac = head ++ point :: frac := if_neg hfrac
    rw [htext, List.takeWhile_append_of_pos hpoint, List.dropWhile_append_of_pos hpoint,
      List.takeWhile_cons_of_neg (by simp), List.dropWhile_cons_of_neg (by simp), List.append_nil,
      List.drop_one, List.tail_cons, if_pos]
    exact ⟨hnum.head_ne, List.all_eq_true.mpr hnum.head_decimal, hfrac,
      List.all_eq_true.mpr hnum.frac_decimal⟩

/-- The digits before the point, and behind it. -/
theorem decimalText_parts {head frac : PyText} (h : Numeral table head frac) :
    (decimalText head frac).takeWhile (· ≠ point) = head ∧
      ((decimalText head frac).dropWhile (· ≠ point)).drop 1 = frac := by
  have hpoint : ∀ c ∈ head, (decide (c ≠ point)) = true := fun c hc =>
    decide_eq_true (mem_decimalText_ne h c (List.mem_append_left _ hc)).1
  rw [decimalText]
  split
  · rename_i hfrac
    rw [List.takeWhile_eq_self_iff.mpr hpoint, List.dropWhile_eq_nil_iff.mpr hpoint, hfrac]
    exact ⟨rfl, rfl⟩
  · rw [List.takeWhile_append_of_pos hpoint, List.dropWhile_append_of_pos hpoint,
      List.takeWhile_cons_of_neg (by simp), List.dropWhile_cons_of_neg (by simp)]
    exact ⟨List.append_nil _, rfl⟩

theorem decimalText_inj {head frac head' frac' : PyText} (h : Numeral table head frac)
    (h' : Numeral table head' frac') (heq : decimalText head frac = decimalText head' frac') :
    head = head' ∧ frac = frac' := by
  have hleft := decimalText_parts h
  rw [heq] at hleft
  have hright := decimalText_parts h'
  exact ⟨hleft.1.symm.trans hright.1, hleft.2.symm.trans hright.2⟩

/-! ## The forms are the documented ones -/

theorem mem_groupedDigits {head w : PyText} (hne : head ≠ []) :
    w ∈ groupedDigits head ↔ IntegerWritten head w := by
  have hgroups := thousandGroups_groups hne
  have hone := hgroups.one_iff
  have hpos := List.length_pos_iff.mpr hgroups.groups_ne
  rw [groupedDigits]
  constructor
  · intro h
    split at h
    · rw [List.mem_singleton.mp h]
      exact .whole
    · rcases List.mem_cons.mp h with rfl | h
      · exact .whole
      · rw [List.mem_singleton.mp h]
        exact .grouped hgroups (by omega)
  · intro h
    cases h with
    | whole =>
      split
      · exact List.mem_singleton_self _
      · exact List.mem_cons_self
    | grouped h h2 =>
      rw [h.unique hgroups] at h2 ⊢
      rw [if_neg (by omega)]
      exact List.mem_cons_of_mem _ (List.mem_singleton_self _)

theorem splitOn_decimalText {head frac : PyText} (h : Numeral table head frac) :
    (decimalText head frac).splitOn point = if frac = [] then [head] else [head, frac] := by
  have hhead : point ∉ head := fun hc => (mem_decimalText_ne h _ (List.mem_append_left _ hc)).1 rfl
  have hfrac : point ∉ frac := fun hc => (mem_decimalText_ne h _ (List.mem_append_right _ hc)).1 rfl
  rw [decimalText]
  split
  · exact List.splitOn_eq_singleton hhead
  · rw [List.splitOn_append_cons_self_of_not_mem hhead, List.splitOn_eq_singleton hfrac]

theorem written_iff {head frac w : PyText} : Written head frac w ↔
    ∃ headForm, IntegerWritten head headForm ∧
      (frac = [] ∧ w = headForm ∨
        frac ≠ [] ∧ ∃ sep ∈ decimalSeparators, headForm ++ sep :: frac = w) := by
  constructor
  · intro h
    cases h with
    | integer h hfrac => exact ⟨w, h, .inl ⟨hfrac, rfl⟩⟩
    | @decimal headForm sep h hsep hfrac => exact ⟨headForm, h, .inr ⟨hfrac, sep, hsep, rfl⟩⟩
  · rintro ⟨headForm, h, ⟨hfrac, rfl⟩ | ⟨hfrac, sep, hsep, rfl⟩⟩
    · exact .integer h hfrac
    · exact .decimal h hsep hfrac

/-- The parts of a canonical value are digits. -/
theorem parts_digits {head frac : PyText} (h : Numeral table head frac) :
    (((decimalText head frac).splitOn point).all
      fun part => !part.isEmpty && part.all table.isDigit) = true := by
  have hhead : (!head.isEmpty && head.all table.isDigit) = true := by
    rw [Bool.and_eq_true, List.all_eq_true, Bool.not_eq_true', List.isEmpty_eq_false_iff]
    exact ⟨h.head_ne, h.head_digit⟩
  rw [splitOn_decimalText h]
  split
  · rw [List.all_cons, hhead, List.all_nil]
    rfl
  · rename_i hfrac
    have hrest : (!frac.isEmpty && frac.all table.isDigit) = true := by
      rw [Bool.and_eq_true, List.all_eq_true, Bool.not_eq_true', List.isEmpty_eq_false_iff]
      exact ⟨hfrac, h.frac_digit⟩
    rw [List.all_cons, hhead, List.all_cons, hrest, List.all_nil]
    rfl

/-- The forms of a canonical value: its fraction is filled up with zeros. -/
theorem mem_valueTextForms {head frac w : PyText} (hnum : Numeral table head frac)
    (htrim : trimZeros zero frac = frac) :
    w ∈ valueTextForms table (decimalText head frac) ↔
      ∃ zeros ≤ maxTrailingZeros, Written head (frac ++ List.replicate zeros zero) w := by
  have hparts := parts_digits hnum
  rw [valueTextForms]
  dsimp only
  rw [if_neg (not_not_intro hparts), splitOn_decimalText hnum]
  by_cases hfrac : frac = []
  · -- an integer: the bare number, or a separator and zeros
    subst hfrac
    rw [if_pos rfl, if_neg (by simp), if_neg (by simp)]
    simp only [List.headD_cons, ne_eq, not_true_eq_false, if_false, List.mem_flatMap,
      List.mem_cons, List.mem_map, List.mem_range'_1, mem_groupedDigits hnum.head_ne,
      List.nil_append, written_iff]
    constructor
    · rintro ⟨headForm, h, rfl | ⟨zeros, hzeros, sep, hsep, rfl⟩⟩
      · exact ⟨0, Nat.zero_le _, w, h, .inl ⟨rfl, rfl⟩⟩
      · have hne : List.replicate zeros zero ≠ [] := by
          simp only [ne_eq, List.replicate_eq_nil_iff]
          omega
        exact ⟨zeros, by omega, headForm, h, .inr ⟨hne, sep, hsep, rfl⟩⟩
    · rintro ⟨zeros, hzeros, headForm, h, ⟨-, rfl⟩ | ⟨hne, sep, hsep, rfl⟩⟩
      · exact ⟨w, h, .inl rfl⟩
      · simp only [List.replicate_eq_nil_iff] at hne
        exact ⟨headForm, h, .inr ⟨zeros, by omega, sep, hsep, rfl⟩⟩
  · have hcount : [head, frac].length = 2 := rfl
    rw [if_neg hfrac, if_neg (by simp), if_pos hcount]
    simp only [List.headD_cons, List.getD_cons_succ, List.getD_cons_zero, htrim, ne_eq, hfrac,
      not_false_eq_true, if_true, List.mem_flatMap, List.mem_map, List.mem_range,
      mem_groupedDigits hnum.head_ne, written_iff, List.append_eq_nil_iff, false_and, false_or,
      true_and]
    constructor
    · rintro ⟨headForm, h, zeros, hzeros, sep, hsep, rfl⟩
      exact ⟨zeros, by omega, headForm, h, sep, hsep, rfl⟩
    · rintro ⟨zeros, hzeros, headForm, h, sep, hsep, rfl⟩
      exact ⟨headForm, h, zeros, by omega, sep, hsep, rfl⟩

theorem Numeral.fill {head frac : PyText} (h : Numeral table head frac) (zeros : Nat) :
    Numeral table head (frac ++ List.replicate zeros zero) := by
  refine ⟨h.head_ne, h.head_decimal, ?_⟩
  intro c hc
  rcases List.mem_append.mp hc with hc | hc
  · exact h.frac_decimal c hc
  · rw [List.eq_of_mem_replicate hc]
    exact table.zero_decimal

theorem Numeral.trim {head frac : PyText} (h : Numeral table head frac) :
    Numeral table head (trimZeros zero frac) := by
  refine ⟨h.head_ne, h.head_decimal, ?_⟩
  intro c hc
  exact h.frac_decimal c ((List.rdropWhile_prefix _ _).subset hc)

/-- **The forms of a canonical value are the documented ones.** -/
theorem mem_valueTextForms_iff {v w : PyText} (hv : Canonical table v) :
    w ∈ valueTextForms table v ↔ DocumentedForm table v w := by
  obtain ⟨head, frac, hnum, htrim, rfl⟩ := hv
  rw [mem_valueTextForms hnum htrim]
  constructor
  · rintro ⟨zeros, hzeros, h⟩
    refine ⟨head, _, hnum.fill zeros, h, ?_, ?_⟩
    · rw [trimZeros_append_replicate, htrim, List.length_append, List.length_replicate]
      omega
    · rw [h.canonicalNumber (hnum.fill zeros), trimZeros_append_replicate, htrim]
  · rintro ⟨head', frac', hnum', h, hlen, hvalue⟩
    rw [h.canonicalNumber hnum'] at hvalue
    obtain ⟨rfl, htrim'⟩ := decimalText_inj hnum'.trim hnum hvalue
    obtain ⟨zeros, hzeros⟩ : ∃ k, frac' = trimZeros zero frac' ++ List.replicate k zero :=
      eq_trimZeros_append frac'
    rw [htrim'] at hzeros hlen
    refine ⟨zeros, ?_, hzeros ▸ h⟩
    rw [hzeros, List.length_append, List.length_replicate] at hlen
    omega

/-! ## The text beside a form -/

/-- The text on one side of a form blocks it. -/
def glues (table : DigitTable) (gluedSpace : Bool) (side : PyText) : Bool :=
  digitAt table side 0 || (separatorAt side 0 && digitAt table side 1) ||
    (gluedSpace && spaceAt side 0 && digitAt table side 1)

theorem glues_iff {gluedSpace : Bool} {side : PyText} :
    glues table gluedSpace side = true ↔ Continues table (gluedSpace = true) side := by
  cases side with
  | nil => simp [glues, digitAt, separatorAt, spaceAt, Continues]
  | cons s side =>
    cases side with
    | nil => simp [glues, digitAt, separatorAt, spaceAt, Continues]
    | cons c side =>
      simp only [glues, digitAt, separatorAt, spaceAt, Continues, List.getElem?_cons_zero,
        List.getElem?_cons_succ, Option.any_some, Bool.or_eq_true, Bool.and_eq_true,
        List.contains_iff_mem, decide_eq_true_eq, List.head?_cons, Option.mem_some_iff,
        List.cons_prefix_cons, List.nil_prefix, and_true]
      constructor
      · rintro ((h | ⟨hs, hc⟩) | ⟨⟨hglued, hs⟩, hc⟩)
        · exact .inl ⟨s, rfl, h⟩
        · exact .inr ⟨s, c, ⟨rfl, rfl⟩, hc, .inl hs⟩
        · exact .inr ⟨s, c, ⟨rfl, rfl⟩, hc, .inr ⟨hglued, hs⟩⟩
      · rintro (⟨x, rfl, h⟩ | ⟨x, y, ⟨rfl, rfl⟩, hc, hs | hs⟩)
        · exact .inl (.inl h)
        · exact .inl (.inr ⟨hs, hc⟩)
        · exact .inr ⟨hs, hc⟩

/-- What is found before a place is read backwards from it. -/
theorem before_eq (pre rest : PyText) (i : Nat) (p : CodePoint → Bool) :
    (decide (i < pre.length) && ((pre ++ rest)[pre.length - (i + 1)]?).any p) =
      (pre.reverse[i]?).any p := by
  by_cases hi : i < pre.length
  · have hback : pre.length - (i + 1) = pre.length - 1 - i := by omega
    rw [decide_eq_true hi, Bool.true_and, List.getElem?_append_left (by omega),
      List.getElem?_reverse hi, hback]
  · have hnone : pre.reverse[i]? = none :=
      List.getElem?_eq_none (by rw [List.length_reverse]; omega)
    rw [decide_eq_false hi, hnone]
    rfl

theorem before_pair_eq (pre rest : PyText) (p q : CodePoint → Bool) :
    (decide (1 < pre.length) && ((pre ++ rest)[pre.length - 1]?).any p &&
      ((pre ++ rest)[pre.length - 2]?).any q) =
      ((pre.reverse[0]?).any p && (pre.reverse[1]?).any q) := by
  rw [← before_eq pre rest 0 p, ← before_eq pre rest 1 q]
  by_cases h : 1 < pre.length
  · rw [decide_eq_true h, decide_eq_true (show 0 < pre.length by omega), Bool.true_and,
      Bool.true_and]
  · rw [decide_eq_false h, Bool.false_and, Bool.false_and, Bool.and_false]

theorem after_eq (pre w post : PyText) (i : Nat) :
    (pre ++ w ++ post)[pre.length + w.length + i]? = post[i]? := by
  rw [← List.length_append, List.getElem?_append_right (by omega), Nat.add_sub_cancel_left]

theorem formIsStandalone_eq (pre w post : PyText) (gluedSpace : Bool) :
    formIsStandalone table (pre ++ w ++ post) pre.length (pre.length + w.length) gluedSpace =
      !(glues table gluedSpace pre.reverse || glues table gluedSpace post) := by
  have hdigit := before_eq pre (w ++ post) 0 table.isDigit
  have hseparator := before_pair_eq pre (w ++ post) decimalSeparators.contains table.isDigit
  have hspace := before_pair_eq pre (w ++ post) (· = space) table.isDigit
  rw [← List.append_assoc] at hdigit hseparator hspace
  have hafter := after_eq pre w post 0
  rw [Nat.add_zero] at hafter
  rw [formIsStandalone, glues, glues]
  simp only [digitAt, separatorAt, spaceAt]
  rw [Bool.and_assoc gluedSpace, Bool.and_assoc gluedSpace, hspace, hseparator, hdigit, hafter,
    after_eq]
  simp only [Bool.and_assoc]

theorem formFound_iff {text form : PyText} : formFound table text form = true ↔
    ∃ pre post, text = pre ++ form ++ post ∧ ¬ PartOfLonger table pre form post := by
  have hglued : (form.contains space = true) ↔ space ∈ form := List.contains_iff_mem
  have hstandalone (pre post : PyText) :
      formIsStandalone table (pre ++ form ++ post) pre.length (pre.length + form.length)
        (form.contains space) = true ↔ ¬ PartOfLonger table pre form post := by
    rw [formIsStandalone_eq, Bool.not_eq_true', ← Bool.not_eq_true, Bool.or_eq_true, glues_iff,
      glues_iff, hglued, PartOfLonger]
  rw [formFound, List.any_eq_true]
  constructor
  · rintro ⟨start, hstart, h⟩
    obtain ⟨hstarts, halone⟩ := Bool.and_eq_true_iff.mp h
    obtain ⟨post, hpost⟩ := List.isPrefixOf_iff_prefix.mp hstarts
    have hlen : (text.take start).length = start := by
      rw [List.length_take]
      have := List.mem_range.mp hstart
      omega
    have htext : text = text.take start ++ form ++ post := by
      rw [List.append_assoc, hpost, List.take_append_drop]
    refine ⟨text.take start, post, htext, ?_⟩
    rw [← hstandalone, ← htext, hlen]
    exact halone
  · rintro ⟨pre, post, rfl, halone⟩
    refine ⟨pre.length, ?_, ?_⟩
    · rw [List.mem_range, List.length_append, List.length_append]
      omega
    · rw [(hstandalone pre post).mpr halone, Bool.and_true, List.isPrefixOf_iff_prefix,
        List.append_assoc, List.drop_left]
      exact List.prefix_append _ _

/-! ## What the texts confirm -/

theorem mem_addFound {values found : Finset PyText} {text : Option PyText} {v : PyText} :
    v ∈ addFound table values found text ↔ v ∈ found ∨ v ∈ values ∧
      ∃ t, text = some t ∧ t ≠ [] ∧ ∃ form ∈ valueTextForms table v,
        formFound table (scanned t) form = true := by
  cases text with
  | none => simp [addFound]
  | some t =>
    cases t with
    | nil => simp [addFound]
    | cons c t => simp [addFound]

theorem mem_foldl_addFound {values : Finset PyText} {texts : List (Option PyText)} {v : PyText} :
    ∀ {found : Finset PyText}, v ∈ texts.foldl (addFound table values) found ↔ v ∈ found ∨
      v ∈ values ∧ ∃ t, some t ∈ texts ∧ t ≠ [] ∧ ∃ form ∈ valueTextForms table v,
        formFound table (scanned t) form = true := by
  induction texts with
  | nil => simp
  | cons text texts ih =>
    intro found
    rw [List.foldl_cons, ih, mem_addFound, or_assoc, ← and_or_left]
    simp only [List.mem_cons, or_and_right, exists_or, eq_comm (a := text)]

theorem form_ne {v w : PyText} (h : DocumentedForm table v w) : w ≠ [] := by
  obtain ⟨head, frac, hnum, hw, -⟩ := h
  rintro rfl
  have hpointed := hw.pointed hnum
  rw [decimalText] at hpointed
  split at hpointed
  · exact hnum.head_ne hpointed.symm
  · simp at hpointed

/-- **A value is found where one of its documented forms stands that is no part of a longer
number.** -/
theorem mem_claimValuesFoundInTexts_iff (table : DigitTable) {values : Finset PyText}
    {texts : List (Option PyText)} {v : PyText} (hv : Canonical table v) (hmem : v ∈ values) :
    v ∈ claimValuesFoundInTexts table values texts ↔
      ∃ text, some text ∈ texts ∧ ∃ pre w post, scanned text = pre ++ w ++ post ∧
        DocumentedForm table v w ∧ ¬ PartOfLonger table pre w post := by
  rw [claimValuesFoundInTexts, mem_foldl_addFound]
  constructor
  · rintro (h | ⟨-, text, htext, -, form, hform, hfound⟩)
    · exact absurd h (Finset.notMem_empty v)
    · obtain ⟨pre, post, hsplit, halone⟩ := formFound_iff.mp hfound
      exact ⟨text, htext, pre, form, post, hsplit, (mem_valueTextForms_iff hv).mp hform, halone⟩
  · rintro ⟨text, htext, pre, w, post, hsplit, hw, halone⟩
    refine .inr ⟨hmem, text, htext, ?_, w, (mem_valueTextForms_iff hv).mpr hw, ?_⟩
    · rintro rfl
      have hnil : scanned [] = [] := rfl
      rw [hnil] at hsplit
      have hempty := List.append_eq_nil_iff.mp hsplit.symm
      exact form_ne hw (List.append_eq_nil_iff.mp hempty.1).2
    · exact formFound_iff.mpr ⟨pre, post, hsplit, halone⟩

end Digits

/-! ## The digits of ASCII -/

def isAsciiDigit (c : CodePoint) : Bool := 48 ≤ c.val && c.val ≤ 57

theorem asciiDigit_not_space (c : CodePoint) (h : isAsciiDigit c) : c.isSpace = false := by
  simp only [isAsciiDigit, Bool.and_eq_true, decide_eq_true_eq] at h
  simp only [CodePoint.isSpace, Bool.or_eq_false_iff, Bool.and_eq_false_iff,
    decide_eq_false_iff_not]
  omega

theorem asciiDigit_not_separator (c : CodePoint) (h : isAsciiDigit c) : c ∉ decimalSeparators := by
  intro hsep
  rcases mem_decimalSeparators.mp hsep with rfl | rfl
  · exact absurd h (by decide)
  · exact absurd h (by decide)

theorem asciiDigit_zero : isAsciiDigit zero := by decide

def asciiDigits : DigitTable where
  isDecimal := isAsciiDigit
  isDigit := isAsciiDigit
  decimal_digit _ := id
  digit_not_space := asciiDigit_not_space
  digit_not_separator := asciiDigit_not_separator
  zero_decimal := asciiDigit_zero

theorem numeral_of_all {head frac : PyText} (hne : head ≠ [])
    (h : (head ++ frac).all isAsciiDigit) : Numeral asciiDigits head frac := by
  rw [List.all_append, Bool.and_eq_true] at h
  exact ⟨hne, List.all_eq_true.mp h.1, List.all_eq_true.mp h.2⟩

theorem canonical_two_two : Canonical asciiDigits (lit "2.2") :=
  ⟨lit "2", lit "2", numeral_of_all (by decide) (by decide), by decide, by decide⟩

/-- The second cell of a row of a table. -/
theorem mem_claimValuesFoundInTexts_cell :
    ∃ text, some text ∈ [some (lit "2026 2,20")] ∧ ∃ pre w post, scanned text = pre ++ w ++ post ∧
      DocumentedForm asciiDigits (lit "2.2") w ∧ ¬ PartOfLonger asciiDigits pre w post :=
  (mem_claimValuesFoundInTexts_iff asciiDigits canonical_two_two
    (Finset.mem_singleton_self (lit "2.2"))).mp (by decide)

/-- `1 649,5` is one number, and `649.5` is found on it. -/
theorem joined_groups_confirm :
    Canonical asciiDigits (lit "649.5") ∧ scanned (lit "1 649,5") = lit "1 649,5" ∧
      DocumentedForm asciiDigits (lit "1649.5") (lit "1 649,5") ∧
      lit "649.5" ∈ claimValuesFoundInTexts asciiDigits {lit "649.5"} [some (lit "1 649,5")] := by
  refine ⟨⟨lit "649", lit "5", numeral_of_all (by decide) (by decide), by decide, by decide⟩,
    by decide, ?_, by decide⟩
  have hgroups : ThousandGroups (lit "1649") [lit "1", lit "649"] :=
    ⟨by decide, by decide, by decide, by decide⟩
  have hwritten : Written (lit "1649") (lit "5") (lit "1 649" ++ comma :: lit "5") :=
    .decimal (.grouped hgroups (by decide)) (by decide) (by decide)
  exact ⟨lit "1649", lit "5", numeral_of_all (by decide) (by decide), hwritten, by decide,
    by decide⟩

end Noezema.Research.ValueAttribution
