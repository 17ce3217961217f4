import Mathlib

/-! # Splitting an address

`urlsplit` of the standard library: scheme, authority, path, query and fragment of an
address, and the host and the port of its authority. Three things make it raise: brackets in
the authority, a symbol of it that the compatibility form turns into a delimiter, and a port
that is no number or out of range. `urlsplit_ok_iff` and `port_ok_iff` say exactly when it
does not.
-/

namespace Noezema.Lib

/-! ## Symbols -/

def isAscii (c : Char) : Bool := c.toNat < 128

/-- What ends an authority. -/
def pathDelims : List Char := ['/', '?', '#']

/-- What the compatibility form must not bring into an authority. -/
def reservedDelims : List Char := ['/', '?', '#', '@', ':']

/-- `scheme_chars`. -/
def isSchemeChar (c : Char) : Bool := c.isAlphanum ∨ c = '+' ∨ c = '-' ∨ c = '.'

/-! ## Parts of a text -/

/-- The text before the first `d`, all of it without one. -/
def before (d : Char) (s : List Char) : List Char := s.takeWhile (· ≠ d)

/-- The text behind the first `d`. -/
def after (d : Char) (s : List Char) : List Char := (s.dropWhile (· ≠ d)).tail

/-- The text behind the last `d`, all of it without one. -/
def afterLast (d : Char) (s : List Char) : List Char := s.rtakeWhile (· ≠ d)

/-- The text before the last `d`. -/
def beforeLast (d : Char) (s : List Char) : List Char := (s.rdropWhile (· ≠ d)).dropLast

theorem mem_of_mem_before {d x : Char} {s : List Char} (h : x ∈ before d s) : x ∈ s ∧ x ≠ d :=
  ⟨(List.takeWhile_prefix _).subset h, by simpa using List.mem_takeWhile_imp h⟩

theorem mem_of_mem_after {d x : Char} {s : List Char} (h : x ∈ after d s) : x ∈ s :=
  (List.dropWhile_suffix _).subset (List.mem_of_mem_tail h)

theorem mem_of_mem_afterLast {d x : Char} {s : List Char} (h : x ∈ afterLast d s) :
    x ∈ s ∧ x ≠ d := by
  have hmem : x ∈ s.reverse.takeWhile (· ≠ d) := by
    rw [afterLast, List.rtakeWhile, List.mem_reverse] at h
    exact h
  refine ⟨?_, by simpa using List.mem_takeWhile_imp hmem⟩
  exact List.mem_reverse.mp ((List.takeWhile_prefix _).subset hmem)

theorem before_append {d : Char} {a : List Char} (h : d ∉ a) (b : List Char) :
    before d (a ++ d :: b) = a := by
  have hall : ∀ x ∈ a, decide (x ≠ d) = true := by
    intro x hx
    simpa using fun heq : x = d => h (heq ▸ hx)
  rw [before, List.takeWhile_append_of_pos hall]
  simp

theorem after_append {d : Char} {a : List Char} (h : d ∉ a) (b : List Char) :
    after d (a ++ d :: b) = b := by
  have hall : ∀ x ∈ a, decide (x ≠ d) = true := by
    intro x hx
    simpa using fun heq : x = d => h (heq ▸ hx)
  rw [after, List.dropWhile_append_of_pos hall]
  simp

/-- A part cut at symbols the second text begins with is in the first. -/
theorem mem_of_mem_takeWhile_append {p : Char → Bool} {a b : List Char} {x : Char}
    (hb : ∀ y ∈ b.head?, p y = false) (h : x ∈ (a ++ b).takeWhile p) : x ∈ a := by
  rw [List.takeWhile_append] at h
  split at h
  · rcases List.mem_append.mp h with ha | hin
    · exact ha
    · cases b with
      | nil => cases hin
      | cons y b =>
        have hy : p y = false := hb y rfl
        simp [hy] at hin
  · exact (List.takeWhile_prefix _).subset h

/-! ## The parts of an address -/

/-- `SplitResult`. -/
structure SplitResult where
  scheme : List Char
  netloc : List Char
  path : List Char
  query : List Char
  fragment : List Char
deriving DecidableEq

/-- No tab and no line break. -/
def isKept (c : Char) : Bool := c ≠ '\t' ∧ c ≠ '\r' ∧ c ≠ '\n'

/-- Leading control symbols are stripped, and tabs and line breaks removed. -/
def cleaned (url : List Char) : List Char := (url.dropWhile fun c => c.toNat ≤ 32).filter isKept

/-- The scheme and what is behind it, no scheme where there is none. -/
def splitScheme (url : List Char) : List Char × List Char :=
  let name := before ':' url
  if ':' ∈ url ∧ (name.head?.any Char.isAlpha) ∧ name.all isSchemeChar then
    (name.map Char.toLower, after ':' url)
  else ([], url)

/-- The authority and what is behind it, none where no slashes announce it. -/
def splitNetloc (url : List Char) : List Char × List Char :=
  match url with
  | '/' :: '/' :: rest => (rest.takeWhile (· ∉ pathDelims), rest.dropWhile (· ∉ pathDelims))
  | _ => ([], url)

/-- What `urlsplit` returns where it returns. -/
def splitUrl (url : List Char) : SplitResult :=
  let (scheme, rest) := splitScheme (cleaned url)
  let (netloc, rest) := splitNetloc rest
  { scheme := scheme
    netloc := netloc
    path := before '?' (before '#' rest)
    query := after '?' (before '#' rest)
    fragment := after '#' rest }

inductive UrlError where
  | invalidIPv6Url | invalidBracketedHost | invalidUnderNFKC | portNotInteger
  | tooManyDigits | portOutOfRange
deriving DecidableEq, Repr

/-- What splitting takes from the tables of the Unicode database and from the reader of
addresses. Lowering is the usual one on ASCII and adds no ASCII symbol but small letters; the
compatibility form of a text holds a delimiter exactly where that of one of its symbols does,
ASCII symbols are their own form, and lowering brings no delimiter into it. -/
structure UrlTables where
  /-- `str.lower`. -/
  lower : List Char → List Char
  /-- `unicodedata.normalize('NFKC', ..)`. -/
  nfkc : List Char → List Char
  /-- `_check_bracketed_host`. -/
  bracketedHost : List Char → Bool
  lower_ascii : ∀ s, (∀ c ∈ s, isAscii c) → lower s = s.map Char.toLower
  lower_symbol : ∀ s, ∀ c ∈ lower s, isAscii c → c.isLower = false → c ∈ s
  nfkc_delim : ∀ s, ∀ d ∈ reservedDelims, d ∈ nfkc s ↔ ∃ x ∈ s, d ∈ nfkc [x]
  nfkc_ascii : ∀ x, isAscii x → nfkc [x] = [x]
  lower_delim : ∀ s, ∀ x ∈ lower s, ∀ d ∈ reservedDelims, d ∈ nfkc [x] →
    ∃ y ∈ s, d ∈ nfkc [y]

/-- Tables that know ASCII only. -/
def asciiTables : UrlTables where
  lower s := s.map Char.toLower
  nfkc s := s
  bracketedHost _ := false
  lower_ascii _ _ := rfl
  lower_symbol s c hc _ hlower := by
    obtain ⟨x, hx, rfl⟩ := List.mem_map.mp hc
    rw [Char.isLower_toLower_eq_isAlpha] at hlower
    have hupper : ¬ x.isUpper := by
      intro h
      simp [Char.isAlpha, h] at hlower
    rwa [Char.toLower_eq_of_not_isUpper hupper]
  nfkc_delim s d _ := by simp
  nfkc_ascii _ _ := rfl
  lower_delim s x hx d hd hin := by
    obtain ⟨y, hy, rfl⟩ := List.mem_map.mp hx
    obtain rfl := List.mem_singleton.mp hin
    refine ⟨y, hy, ?_⟩
    have hupper : ¬ y.isUpper := by
      intro h
      have halpha : y.toLower.isLower := by simp [Char.isAlpha, h]
      generalize y.toLower = d at hd halpha
      fin_cases hd <;> revert halpha <;> decide
    rw [Char.toLower_eq_of_not_isUpper hupper]
    exact List.mem_singleton_self y

namespace UrlTables

variable (t : UrlTables)

/-- The check of the brackets. -/
def checkBrackets (netloc : List Char) : Except UrlError Unit :=
  if ('[' ∈ netloc ∧ ']' ∉ netloc) ∨ (']' ∈ netloc ∧ '[' ∉ netloc) then
    .error .invalidIPv6Url
  else if '[' ∈ netloc ∧ ']' ∈ netloc then
    if t.bracketedHost (before ']' (after '[' netloc)) then .ok ()
    else .error .invalidBracketedHost
  else .ok ()

/-- `_checknetloc`. -/
def checkNetloc (netloc : List Char) : Except UrlError Unit :=
  if netloc = [] ∨ netloc.all isAscii then .ok ()
  else
    let n := netloc.filter fun c => c ≠ '@' ∧ c ≠ ':' ∧ c ≠ '#' ∧ c ≠ '?'
    if n = t.nfkc n then .ok ()
    else if reservedDelims.any fun d => d ∈ t.nfkc n then .error .invalidUnderNFKC
    else .ok ()

/-- `urlsplit`. -/
def urlsplit (url : List Char) : Except UrlError SplitResult := do
  t.checkBrackets (splitUrl url).netloc
  t.checkNetloc (splitUrl url).netloc
  pure (splitUrl url)

end UrlTables

namespace SplitResult

/-- `username`: the user in front of the last `@`, the password off. -/
def username (r : SplitResult) : Option (List Char) :=
  if '@' ∈ r.netloc then some (before ':' (beforeLast '@' r.netloc)) else none

/-- `password`. -/
def password (r : SplitResult) : Option (List Char) :=
  if '@' ∈ r.netloc ∧ ':' ∈ beforeLast '@' r.netloc then
    some (after ':' (beforeLast '@' r.netloc))
  else none

/-- `_hostinfo`: the text of the host and that of the port. -/
def hostinfo (netloc : List Char) : List Char × List Char :=
  let info := afterLast '@' netloc
  if '[' ∈ info then
    (before ']' (after '[' info), after ':' (after ']' (after '[' info)))
  else (before ':' info, after ':' info)

/-- `hostname`: lowered up to the zone. -/
def hostname (t : UrlTables) (r : SplitResult) : Option (List Char) :=
  let host := (hostinfo r.netloc).1
  if host = [] then none
  else some (t.lower (before '%' host) ++ host.dropWhile (· ≠ '%'))

/-- `sys.get_int_max_str_digits()`. -/
def maxStrDigits : Nat := 4300

/-- `int` of decimal digits. -/
def decimalValue (digits : List Char) : Nat :=
  digits.foldl (fun n c => 10 * n + (c.toNat - '0'.toNat)) 0

/-- `port`. -/
def port (r : SplitResult) : Except UrlError (Option Nat) :=
  let text := (hostinfo r.netloc).2
  if text = [] then .ok none
  else if text.all Char.isDigit then
    if maxStrDigits < text.length then .error .tooManyDigits
    else if decimalValue text ≤ 65535 then .ok (some (decimalValue text))
    else .error .portOutOfRange
  else .error .portNotInteger

/-- The text of the port is a port. -/
structure PortText (text : List Char) : Prop where
  digits : ∀ c ∈ text, c.isDigit
  short : text.length ≤ maxStrDigits
  range : decimalValue text ≤ 65535

theorem port_ok_iff (r : SplitResult) :
    (∃ p, r.port = .ok p) ↔ PortText (hostinfo r.netloc).2 := by
  unfold port
  generalize (hostinfo r.netloc).2 = text
  constructor
  · rintro ⟨p, h⟩
    dsimp only at h
    split at h
    · rename_i hnil
      subst hnil
      exact ⟨by simp, by simp [maxStrDigits], by simp [decimalValue]⟩
    · split at h
      · rename_i hdigits
        split at h
        · cases h
        · rename_i hlen
          split at h
          · rename_i hrange
            exact ⟨List.all_eq_true.mp hdigits, not_lt.mp hlen, hrange⟩
          · cases h
      · cases h
  · intro h
    by_cases hnil : text = []
    · exact ⟨none, by simp [hnil]⟩
    · refine ⟨some (decimalValue text), ?_⟩
      simp [hnil, List.all_eq_true.mpr h.digits, not_lt.mpr h.short, h.range]

end SplitResult

/-! ## When an authority passes -/

section Netloc

variable {t : UrlTables}

/-- The delimiters are behind the authority. -/
theorem netloc_no_delim {url : List Char} {x : Char} (hx : x ∈ (splitUrl url).netloc) :
    x ∉ pathDelims := by
  have hsplit : ∀ rest, x ∈ (splitNetloc rest).1 → x ∉ pathDelims := by
    intro rest h
    unfold splitNetloc at h
    split at h
    · simpa using List.mem_takeWhile_imp h
    · cases h
  exact hsplit _ hx

/-- The compatibility form of the symbol holds a delimiter. -/
def UrlTables.Expands (t : UrlTables) (x : Char) : Prop := ∃ d ∈ reservedDelims, d ∈ t.nfkc [x]

/-- An authority that is accepted: no bracket, and no symbol beside `@` and `:` that the
compatibility form turns into a delimiter. -/
structure UrlTables.PlainNetloc (t : UrlTables) (netloc : List Char) : Prop where
  unbracketed : '[' ∉ netloc
  stable : ∀ x ∈ netloc, x = '@' ∨ x = ':' ∨ ¬ t.Expands x

/-- An ASCII symbol that is no delimiter stays as it is. -/
theorem not_expands_of_ascii {x : Char} (hx : isAscii x) (hd : x ∉ reservedDelims) :
    ¬ t.Expands x := by
  rintro ⟨d, hmem, hin⟩
  rw [t.nfkc_ascii x hx, List.mem_singleton] at hin
  exact hd (hin ▸ hmem)

theorem UrlTables.PlainNetloc.subset {a b : List Char} (h : t.PlainNetloc b)
    (hab : ∀ x ∈ a, x ∈ b) : t.PlainNetloc a :=
  ⟨fun hin => h.unbracketed (hab _ hin), fun x hx => h.stable x (hab x hx)⟩

theorem checkNetloc_ok_iff {netloc : List Char} (hd : ∀ x ∈ netloc, x ∉ pathDelims) :
    t.checkNetloc netloc = .ok () ↔ ∀ x ∈ netloc, x = '@' ∨ x = ':' ∨ ¬ t.Expands x := by
  have hstable : ∀ x ∈ netloc, isAscii x → x = '@' ∨ x = ':' ∨ ¬ t.Expands x := by
    intro x hx hascii
    by_cases hat : x = '@'
    · exact .inl hat
    by_cases hcolon : x = ':'
    · exact .inr (.inl hcolon)
    refine .inr (.inr (not_expands_of_ascii hascii ?_))
    have hpath := hd x hx
    simp only [pathDelims, reservedDelims, List.mem_cons, List.not_mem_nil, or_false] at hpath ⊢
    tauto
  have hfilter : ∀ x, x ∈ netloc.filter (fun c => c ≠ '@' ∧ c ≠ ':' ∧ c ≠ '#' ∧ c ≠ '?') ↔
      x ∈ netloc ∧ x ≠ '@' ∧ x ≠ ':' := by
    intro x
    simp only [List.mem_filter, decide_eq_true_eq]
    constructor
    · rintro ⟨hx, hat, hcolon, -, -⟩
      exact ⟨hx, hat, hcolon⟩
    · rintro ⟨hx, hat, hcolon⟩
      have := hd x hx
      simp only [pathDelims, List.mem_cons, List.not_mem_nil, or_false, not_or] at this
      exact ⟨hx, hat, hcolon, this.2.2, this.2.1⟩
  unfold UrlTables.checkNetloc
  dsimp only
  generalize hn : netloc.filter (fun c => c ≠ '@' ∧ c ≠ ':' ∧ c ≠ '#' ∧ c ≠ '?') = n
  rw [hn] at hfilter
  have hforms : (∃ d ∈ reservedDelims, d ∈ t.nfkc n) ↔
      ∃ x ∈ netloc, x ≠ '@' ∧ x ≠ ':' ∧ t.Expands x := by
    constructor
    · rintro ⟨d, hmem, hin⟩
      obtain ⟨x, hx, hdx⟩ := (t.nfkc_delim n d hmem).mp hin
      obtain ⟨hx, hat, hcolon⟩ := (hfilter x).mp hx
      exact ⟨x, hx, hat, hcolon, d, hmem, hdx⟩
    · rintro ⟨x, hx, hat, hcolon, d, hmem, hdx⟩
      exact ⟨d, hmem, (t.nfkc_delim n d hmem).mpr ⟨x, (hfilter x).mpr ⟨hx, hat, hcolon⟩, hdx⟩⟩
  split
  · rename_i hplain
    refine ⟨fun _ x hx => ?_, fun _ => rfl⟩
    rcases hplain with rfl | hascii
    · cases hx
    · exact hstable x hx (List.all_eq_true.mp hascii x hx)
  · split
    · -- a text that is its own form holds no delimiter
      rename_i hsame
      refine ⟨fun _ x hx => ?_, fun _ => rfl⟩
      by_contra hbad
      simp only [not_or, not_not] at hbad
      obtain ⟨d, hmem, hin⟩ := hforms.mpr ⟨x, hx, hbad⟩
      rw [← hsame] at hin
      obtain ⟨hin, hat, hcolon⟩ := (hfilter d).mp hin
      have hpath := hd d hin
      simp only [pathDelims, reservedDelims, List.mem_cons, List.not_mem_nil, or_false] at hmem hpath
      tauto
    · split
      · rename_i hany
        simp only [List.any_eq_true, decide_eq_true_eq] at hany
        obtain ⟨x, hx, hat, hcolon, hexp⟩ := hforms.mp hany
        refine ⟨fun h => (by cases h), fun h => ?_⟩
        rcases h x hx with hx' | hx' | hx'
        · exact absurd hx' hat
        · exact absurd hx' hcolon
        · exact absurd hexp hx'
      · rename_i hany
        refine ⟨fun _ x hx => ?_, fun _ => rfl⟩
        by_contra hbad
        simp only [not_or, not_not] at hbad
        apply hany
        simp only [List.any_eq_true, decide_eq_true_eq]
        exact hforms.mpr ⟨x, hx, hbad⟩

/-- **When an address is split**: where its authority has no closing bracket, exactly when
it is plain. -/
theorem urlsplit_ok_iff {url : List Char} (h : ']' ∉ (splitUrl url).netloc) :
    (∃ r, t.urlsplit url = .ok r) ↔ t.PlainNetloc (splitUrl url).netloc := by
  have hnetloc := @checkNetloc_ok_iff t (splitUrl url).netloc fun x hx => netloc_no_delim hx
  unfold UrlTables.urlsplit
  by_cases hbracket : '[' ∈ (splitUrl url).netloc
  · have hcheck : t.checkBrackets (splitUrl url).netloc = .error .invalidIPv6Url := by
      simp [UrlTables.checkBrackets, hbracket, h]
    rw [hcheck]
    exact ⟨fun ⟨r, hr⟩ => (by cases hr), fun hplain => absurd hbracket hplain.unbracketed⟩
  · have hcheck : t.checkBrackets (splitUrl url).netloc = .ok () := by
      simp [UrlTables.checkBrackets, hbracket, h]
    rw [hcheck]
    constructor
    · rintro ⟨r, hr⟩
      refine ⟨hbracket, hnetloc.mp ?_⟩
      cases hc : t.checkNetloc (splitUrl url).netloc with
      | ok u => rfl
      | error e =>
        rw [hc] at hr
        cases hr
    · intro hplain
      refine ⟨splitUrl url, ?_⟩
      rw [hnetloc.mpr hplain.stable]
      rfl

theorem urlsplit_eq {url : List Char} {r : SplitResult} (h : t.urlsplit url = .ok r) :
    r = splitUrl url := by
  unfold UrlTables.urlsplit at h
  cases hb : t.checkBrackets (splitUrl url).netloc with
  | error e =>
    rw [hb] at h
    cases h
  | ok u =>
    cases hc : t.checkNetloc (splitUrl url).netloc with
    | error e =>
      rw [hb, hc] at h
      cases h
    | ok u' =>
      rw [hb, hc] at h
      cases h
      rfl

end Netloc

/-- The authority is a part of the address. -/
theorem mem_of_mem_netloc {url : List Char} {x : Char} (hx : x ∈ (splitUrl url).netloc) :
    x ∈ url := by
  have hnetloc : ∀ s, x ∈ (splitNetloc s).1 → x ∈ s := by
    intro s h
    unfold splitNetloc at h
    split at h
    · exact List.mem_cons_of_mem _ (List.mem_cons_of_mem _
        ((List.takeWhile_prefix _).subset h))
    · cases h
  have hscheme : ∀ s, x ∈ (splitScheme s).2 → x ∈ s := by
    intro s h
    unfold splitScheme at h
    dsimp only at h
    split at h
    · exact mem_of_mem_after h
    · exact h
  exact (List.dropWhile_suffix _).subset
    (List.mem_filter.mp (hscheme (cleaned url) (hnetloc _ hx))).1

/-! ## An address put together again -/

/-- A scheme, lowered. -/
structure IsScheme (s : List Char) : Prop where
  first : s.head?.any Char.isAlpha
  chars : ∀ c ∈ s, isSchemeChar c
  lowered : s.map Char.toLower = s

theorem isSchemeChar_ascii {c : Char} (h : isSchemeChar c) : isAscii c := by
  simp only [isSchemeChar, Char.isAlphanum, Char.isAlpha, Char.isUpper, Char.isLower,
    Char.isDigit, Bool.or_eq_true, Bool.and_eq_true, decide_eq_true_eq,
    UInt32.le_iff_toNat_le, ge_iff_le] at h
  have hval : c.toNat = c.val.toNat := rfl
  have hZ : 'Z'.val.toNat = 90 := rfl
  have hz : 'z'.val.toNat = 122 := rfl
  have hnine : '9'.val.toNat = 57 := rfl
  rw [isAscii, decide_eq_true_eq]
  rcases h with h | rfl | rfl | rfl
  · omega
  all_goals decide

theorem isSchemeChar_toLower {c : Char} (h : isSchemeChar c) : isSchemeChar c.toLower := by
  by_cases hupper : c.isUpper
  · have halpha : c.toLower.isAlpha := by simp [Char.isAlpha, hupper]
    simp [isSchemeChar, Char.isAlphanum, halpha]
  · rwa [Char.toLower_eq_of_not_isUpper hupper]

theorem colon_not_schemeChar : isSchemeChar ':' = false := by decide

theorem IsScheme.no_colon {s : List Char} (h : IsScheme s) : ':' ∉ s := by
  intro hmem
  have := h.chars ':' hmem
  simp [colon_not_schemeChar] at this

/-- The scheme of a split address is a scheme, or there is none. -/
theorem splitUrl_scheme (url : List Char) :
    (splitUrl url).scheme = [] ∨ IsScheme (splitUrl url).scheme := by
  have hsplit : ∀ s, (splitScheme s).1 = [] ∨ IsScheme (splitScheme s).1 := by
    intro s
    unfold splitScheme
    dsimp only
    split
    · rename_i hname
      obtain ⟨-, hfirst, hchars⟩ := hname
      refine .inr ⟨?_, ?_, by simp⟩
      · cases hs : before ':' s with
        | nil => simp [hs] at hfirst
        | cons c rest => simpa [hs] using hfirst
      · intro c hc
        obtain ⟨b, hb, rfl⟩ := List.mem_map.mp hc
        exact isSchemeChar_toLower (List.all_eq_true.mp hchars b hb)
    · exact .inl rfl
  exact hsplit (cleaned url)

theorem cleaned_append {a b : List Char} (ha : a.head?.any fun c => 32 < c.toNat)
    (hclean : ∀ c ∈ a, isKept c) : cleaned (a ++ b) = a ++ b.filter isKept := by
  cases a with
  | nil => simp at ha
  | cons c a =>
    have hc : ¬ c.toNat ≤ 32 := by simpa using ha
    have hfilter : (c :: a).filter isKept = c :: a := List.filter_eq_self.mpr hclean
    rw [cleaned, List.cons_append, List.dropWhile_cons_of_neg (by simpa using hc),
      ← List.cons_append, List.filter_append, hfilter]

/-- An address is split behind its scheme. -/
theorem splitUrl_announced {scheme rest : List Char} (h : IsScheme scheme) :
    (splitUrl (scheme ++ ':' :: '/' :: '/' :: rest)).netloc =
      (rest.filter isKept).takeWhile (· ∉ pathDelims) := by
  have hclean : ∀ c ∈ scheme ++ [':', '/', '/'], isKept c := by
    intro c hc
    rcases List.mem_append.mp hc with hc | hc
    · have hchar := h.chars c hc
      rw [isKept, decide_eq_true_eq]
      refine ⟨?_, ?_, ?_⟩ <;> rintro rfl <;> revert hchar <;> decide
    · fin_cases hc <;> decide
  have hfirst : (scheme ++ [':', '/', '/']).head?.any fun c => 32 < c.toNat := by
    have halpha := h.first
    cases hs : scheme with
    | nil => simp [hs] at halpha
    | cons c s =>
      have hc : c.isAlpha := by simpa [hs] using halpha
      simp only [Char.isAlpha, Char.isUpper, Char.isLower, Bool.or_eq_true, Bool.and_eq_true,
        decide_eq_true_eq, UInt32.le_iff_toNat_le, ge_iff_le] at hc
      have hval : c.toNat = c.val.toNat := rfl
      have hA : 'A'.val.toNat = 65 := rfl
      have ha : 'a'.val.toNat = 97 := rfl
      simp only [List.cons_append, List.head?_cons, Option.any_some, decide_eq_true_eq]
      omega
  have hcleaned := @cleaned_append (scheme ++ [':', '/', '/']) rest hfirst hclean
  have hall : scheme.all isSchemeChar = true := List.all_eq_true.mpr h.chars
  simp only [List.append_assoc, List.cons_append, List.nil_append] at hcleaned
  simp only [splitUrl, hcleaned, splitScheme, before_append h.no_colon,
    after_append h.no_colon, h.first, hall]
  simp [splitNetloc]

/-- Without a scheme, or with a path from the root. -/
def SplitResult.Rooted (r : SplitResult) : Prop := r.scheme = [] ∨ ∀ c ∈ r.path.head?, c = '/'

/-- The path behind an announced authority begins at the root. -/
theorem splitUrl_rooted {word rest : List Char} (hcolon : ':' ∉ word)
    (hfirst : (word ++ [':', '/', '/']).head?.any fun c => 32 < c.toNat)
    (hclean : ∀ c ∈ word, isKept c) : (splitUrl (word ++ ':' :: '/' :: '/' :: rest)).Rooted := by
  have hkept : ∀ c ∈ word ++ [':', '/', '/'], isKept c := by
    intro c hc
    rcases List.mem_append.mp hc with hc | hc
    · exact hclean c hc
    · fin_cases hc <;> decide
  have hcleaned := @cleaned_append (word ++ [':', '/', '/']) rest hfirst hkept
  simp only [List.append_assoc, List.cons_append, List.nil_append] at hcleaned
  unfold splitUrl
  rw [hcleaned, splitScheme, before_append hcolon, after_append hcolon]
  dsimp only
  split
  · refine .inr fun c hc => ?_
    simp only [splitNetloc] at hc
    generalize hrest : (rest.filter isKept).dropWhile (· ∉ pathDelims) = behind at hc
    cases behind with
    | nil => simp [before] at hc
    | cons d tail =>
      have hd : d ∈ pathDelims := by
        have hhead := List.head?_dropWhile_not (fun c => decide (c ∉ pathDelims))
          (rest.filter isKept)
        rw [hrest] at hhead
        simpa using hhead
      simp only [pathDelims, List.mem_cons, List.not_mem_nil, or_false] at hd
      rcases hd with rfl | rfl | rfl
      · simpa [before, eq_comm] using hc
      · simp [before] at hc
      · simp [before] at hc
  · exact .inl rfl

/-- Of an address put together from a scheme, an authority and what begins with a delimiter,
the authority is read again; without a scheme there is none. -/
theorem netloc_of_parts {scheme netloc tail : List Char}
    (hparts : scheme = [] ∨ IsScheme scheme ∧ ∀ c ∈ tail.head?, c ∈ pathDelims)
    {x : Char} (hx : x ∈ (splitUrl (scheme ++ ':' :: '/' :: '/' :: (netloc ++ tail))).netloc) :
    x ∈ netloc := by
  rcases hparts with rfl | ⟨hscheme, htail⟩
  · -- no scheme: the address begins with a colon, and no slashes announce an authority
    exfalso
    have hcleaned := @cleaned_append [':', '/', '/'] (netloc ++ tail) (by decide)
      (by intro c hc; fin_cases hc <;> decide)
    simp only [List.cons_append, List.nil_append] at hcleaned
    simp [splitUrl, hcleaned, splitScheme, before, splitNetloc] at hx
  · rw [splitUrl_announced hscheme, List.filter_append] at hx
    have hmem := mem_of_mem_takeWhile_append (p := fun c => decide (c ∉ pathDelims)) ?_ hx
    · exact (List.mem_filter.mp hmem).1
    · intro y hy
      cases tail with
      | nil => simp at hy
      | cons c tail =>
        have hc : c ∈ pathDelims := htail c rfl
        have hkeep : isKept c = true := by
          simp only [pathDelims, List.mem_cons, List.not_mem_nil, or_false] at hc
          rcases hc with rfl | rfl | rfl <;> decide
        rw [List.filter_cons_of_pos hkeep, List.head?_cons, Option.mem_some_iff] at hy
        simpa [← hy] using hc

end Noezema.Lib
