import Mathlib.Data.Char
import Mathlib.Data.List.Lex
import Noezema.Lib.Uuid

/-! # The compact text of a JSON value

The text of a value without blanks, as a printer that keeps non-ASCII symbols writes it, and
the reason it can be read back: no text of a value continues another one up to a comma or a
closing bracket (`text_append_inj`). Numbers that are no integers are of a type of their own,
with the printing they come with (`NumberText`).

The syntax is one indexed family, so that one induction goes through values, elements and
fields together.
-/

namespace Noezema.Lib

/-! ## Syntax -/

inductive JsonKind where
  | value
  | items
  | fields
deriving DecidableEq

/-- A value, the elements of an array, or the fields of an object in their order. -/
inductive JsonTerm (φ : Type) : JsonKind → Type where
  | null : JsonTerm φ .value
  | bool (b : Bool) : JsonTerm φ .value
  | int (n : Int) : JsonTerm φ .value
  | number (x : φ) : JsonTerm φ .value
  | str (s : List Char) : JsonTerm φ .value
  | arr (xs : JsonTerm φ .items) : JsonTerm φ .value
  | obj (kvs : JsonTerm φ .fields) : JsonTerm φ .value
  | noItem : JsonTerm φ .items
  | item (x : JsonTerm φ .value) (xs : JsonTerm φ .items) : JsonTerm φ .items
  | noField : JsonTerm φ .fields
  | field (key : List Char) (x : JsonTerm φ .value) (rest : JsonTerm φ .fields) :
      JsonTerm φ .fields

/-! ## Numbers -/

/-- The decimal digits of an integer. -/
def intText (n : Int) : List Char :=
  if n < 0 then '-' :: Nat.toDigits 10 n.natAbs else Nat.toDigits 10 n.natAbs

/-- The symbols that follow a value in an array or an object. -/
def isDelimiter (c : Char) : Bool := c = ',' || c = ']' || c = '}'

/-- The first symbol of a number. -/
def isNumberStart (c : Char) : Bool := c.isDigit || c = '-' || c = 'N' || c = 'I'

/-- The printing of the numbers that are no integers. -/
structure NumberText (φ : Type) where
  text : φ → List Char
  text_inj : ∀ x y, text x = text y → x = y
  start : ∀ x, ∃ c rest, text x = c :: rest ∧ isNumberStart c = true
  chars : ∀ x, ∀ c ∈ text x, isDelimiter c = false
  not_int : ∀ x n, text x ≠ intText n

theorem toDigits_inj {m n : Nat} (h : Nat.toDigits 10 m = Nat.toDigits 10 n) : m = n := by
  have := congrArg (fun l => Nat.ofDigitChars 10 l 0) h
  simpa using this

theorem isDigit_of_mem_digits {n : Nat} {c : Char} (h : c ∈ Nat.toDigits 10 n) :
    c.isDigit = true :=
  Nat.isDigit_of_mem_toDigits (by decide) (by decide) h

theorem intText_inj {m n : Int} (h : intText m = intText n) : m = n := by
  have hminus : ∀ k j : Nat, '-' :: Nat.toDigits 10 k ≠ Nat.toDigits 10 j := by
    intro k j heq
    have hdigit : ('-' : Char).isDigit = true :=
      isDigit_of_mem_digits (heq ▸ List.mem_cons_self)
    simp at hdigit
  unfold intText at h
  split at h <;> split at h
  · have := toDigits_inj (List.cons.inj h).2
    omega
  · exact absurd h (hminus _ _)
  · exact absurd h.symm (hminus _ _)
  · have := toDigits_inj h
    omega

theorem intText_start (n : Int) :
    ∃ c rest, intText n = c :: rest ∧ isNumberStart c = true := by
  unfold intText
  split
  · exact ⟨'-', _, rfl, rfl⟩
  · cases h : Nat.toDigits 10 n.natAbs with
    | nil => exact absurd h Nat.toDigits_ne_nil
    | cons c rest =>
      have hdigit := isDigit_of_mem_digits (h ▸ List.mem_cons_self)
      exact ⟨c, rest, rfl, by simp [isNumberStart, hdigit]⟩

theorem isDelimiter_of_isDigit {c : Char} (h : c.isDigit = true) : isDelimiter c = false := by
  by_contra hc
  simp only [isDelimiter, Bool.not_eq_false, Bool.or_eq_true, decide_eq_true_eq] at hc
  rcases hc with (rfl | rfl) | rfl <;> simp at h

theorem isDelimiter_of_mem_intText {n : Int} {c : Char} (h : c ∈ intText n) :
    isDelimiter c = false := by
  unfold intText at h
  split at h
  · rcases List.mem_cons.mp h with rfl | h
    · rfl
    · exact isDelimiter_of_isDigit (isDigit_of_mem_digits h)
  · exact isDelimiter_of_isDigit (isDigit_of_mem_digits h)

/-! ## Strings -/

def controlText (c : Char) : List Char :=
  ['\\', 'u', '0', '0', hexChar (c.toNat / 16), hexChar (c.toNat % 16)]

/-- A symbol in a string: escaped where it is a quote, a backslash or a control symbol. -/
def escape (c : Char) : List Char :=
  if c = '"' then ['\\', '"']
  else if c = '\\' then ['\\', '\\']
  else if c = '\n' then ['\\', 'n']
  else if c = '\r' then ['\\', 'r']
  else if c = '\t' then ['\\', 't']
  else if c = '\x08' then ['\\', 'b']
  else if c = '\x0c' then ['\\', 'f']
  else if c.toNat < 32 then controlText c
  else [c]

def stringText (s : List Char) : List Char := '"' :: (s.flatMap escape ++ ['"'])

/-- The first symbol of an escaped text, and what is left. -/
def unescape : List Char → Option (Char × List Char)
  | '\\' :: 'u' :: '0' :: '0' :: a :: b :: rest =>
    some (Char.ofNat (16 * hexValue a + hexValue b), rest)
  | '\\' :: 'n' :: rest => some ('\n', rest)
  | '\\' :: 'r' :: rest => some ('\r', rest)
  | '\\' :: 't' :: rest => some ('\t', rest)
  | '\\' :: 'b' :: rest => some ('\x08', rest)
  | '\\' :: 'f' :: rest => some ('\x0c', rest)
  | '\\' :: c :: rest => some (c, rest)
  | c :: rest => some (c, rest)
  | [] => none

theorem unescape_escape (c : Char) (rest : List Char) :
    unescape (escape c ++ rest) = some (c, rest) := by
  unfold escape
  split_ifs with hquote hback hn hr ht hb hf hctl
  · subst hquote
    rfl
  · subst hback
    rfl
  · subst hn
    rfl
  · subst hr
    rfl
  · subst ht
    rfl
  · subst hb
    rfl
  · subst hf
    rfl
  · show some (Char.ofNat (16 * hexValue (hexChar (c.toNat / 16)) +
      hexValue (hexChar (c.toNat % 16))), rest) = _
    rw [(hexChar_digit (by omega)).1, (hexChar_digit (by omega)).1, Nat.div_add_mod,
      Char.ofNat_toNat]
  · simp only [List.cons_append, List.nil_append]
    unfold unescape
    split <;> simp_all

theorem escape_append_inj {c d : Char} {r s : List Char}
    (h : escape c ++ r = escape d ++ s) : c = d ∧ r = s := by
  have := congrArg unescape h
  rw [unescape_escape, unescape_escape] at this
  simpa using this

theorem escape_append_ne_quote (c : Char) (r s : List Char) : escape c ++ r ≠ '"' :: s := by
  intro h
  unfold escape at h
  split_ifs at h with hquote hback hn hr ht hb hf hctl
  all_goals simp_all [controlText]

theorem flatMap_escape_inj {s t r r' : List Char}
    (h : s.flatMap escape ++ '"' :: r = t.flatMap escape ++ '"' :: r') : s = t ∧ r = r' := by
  induction s generalizing t with
  | nil =>
    cases t with
    | nil => simpa using h
    | cons d t =>
      rw [List.flatMap_cons, List.append_assoc] at h
      exact absurd h.symm (escape_append_ne_quote d _ _)
  | cons c s ih =>
    cases t with
    | nil =>
      rw [List.flatMap_cons, List.append_assoc] at h
      exact absurd h (escape_append_ne_quote c _ _)
    | cons d t =>
      rw [List.flatMap_cons, List.flatMap_cons, List.append_assoc, List.append_assoc] at h
      obtain ⟨hc, hrest⟩ := escape_append_inj h
      obtain ⟨hs, hr⟩ := ih hrest
      exact ⟨by rw [hc, hs], hr⟩

theorem stringText_append_inj {s t r r' : List Char}
    (h : stringText s ++ r = stringText t ++ r') : s = t ∧ r = r' := by
  simp only [stringText, List.cons_append, List.append_assoc, List.nil_append] at h
  exact flatMap_escape_inj (List.cons.inj h).2

/-! ## Texts -/

namespace JsonTerm

variable {φ : Type} (p : NumberText φ)

/-- Every element and every field with the comma before it; a bracket drops the first one. -/
def text : ∀ {i : JsonKind}, JsonTerm φ i → List Char
  | _, .null => ['n', 'u', 'l', 'l']
  | _, .bool true => ['t', 'r', 'u', 'e']
  | _, .bool false => ['f', 'a', 'l', 's', 'e']
  | _, .int n => intText n
  | _, .number x => p.text x
  | _, .str s => stringText s
  | _, .arr xs => '[' :: (xs.text.tail ++ [']'])
  | _, .obj kvs => '{' :: (kvs.text.tail ++ ['}'])
  | _, .noItem => []
  | _, .item x xs => ',' :: (x.text ++ xs.text)
  | _, .noField => []
  | _, .field key x rest => ',' :: (stringText key ++ ':' :: (x.text ++ rest.text))

/-- What the first symbol of a value tells. -/
inductive Lead where
  | null
  | bool
  | number
  | str
  | arr
  | obj
deriving DecidableEq

def leadOf (c : Char) : Lead :=
  if c = 'n' then .null
  else if c = 't' ∨ c = 'f' then .bool
  else if c = '"' then .str
  else if c = '[' then .arr
  else if c = '{' then .obj
  else .number

def lead : JsonTerm φ .value → Lead
  | .null => .null
  | .bool _ => .bool
  | .int _ | .number _ => .number
  | .str _ => .str
  | .arr _ => .arr
  | .obj _ => .obj

theorem leadOf_of_isNumberStart {c : Char} (h : isNumberStart c = true) :
    leadOf c = .number ∧ isDelimiter c = false := by
  have hne : ∀ d : Char, isNumberStart d = false → c ≠ d := by
    rintro d hd rfl
    rw [h] at hd
    cases hd
  simp [leadOf, isDelimiter, hne 'n' rfl, hne 't' rfl, hne 'f' rfl, hne '"' rfl, hne '[' rfl,
    hne '{' rfl, hne ',' rfl, hne ']' rfl, hne '}' rfl]

theorem text_start (t : JsonTerm φ .value) :
    ∃ c rest, t.text p = c :: rest ∧ leadOf c = t.lead ∧ isDelimiter c = false := by
  cases t with
  | null => exact ⟨'n', _, rfl, rfl, rfl⟩
  | bool b =>
    cases b with
    | true => exact ⟨'t', _, rfl, rfl, rfl⟩
    | false => exact ⟨'f', _, rfl, rfl, rfl⟩
  | int n =>
    obtain ⟨c, rest, htext, hstart⟩ := intText_start n
    exact ⟨c, rest, htext, leadOf_of_isNumberStart hstart⟩
  | number x =>
    obtain ⟨c, rest, htext, hstart⟩ := p.start x
    exact ⟨c, rest, htext, leadOf_of_isNumberStart hstart⟩
  | str s => exact ⟨'"', _, rfl, rfl, rfl⟩
  | arr xs => exact ⟨'[', _, rfl, rfl, rfl⟩
  | obj kvs => exact ⟨'{', _, rfl, rfl, rfl⟩

theorem lead_eq {t u : JsonTerm φ .value} {r s : List Char}
    (h : t.text p ++ r = u.text p ++ s) : t.lead = u.lead := by
  obtain ⟨c, rest, ht, hc, -⟩ := text_start p t
  obtain ⟨d, rest', hu, hd, -⟩ := text_start p u
  rw [ht, hu] at h
  rw [← hc, ← hd, (List.cons.inj h).1]

/-- What may stand behind a text of this kind. -/
def Follows : JsonKind → List Char → Prop
  | .value, r => ∀ c, r.head? = some c → isDelimiter c = true
  | .items, r => r.head? = some ']'
  | .fields, r => r.head? = some '}'

/-- A text without delimiters ends where the first one stands. -/
theorem append_inj_of_delimiter {l l' r r' : List Char}
    (hl : ∀ c ∈ l, isDelimiter c = false) (hl' : ∀ c ∈ l', isDelimiter c = false)
    (hr : Follows .value r) (hr' : Follows .value r') (h : l ++ r = l' ++ r') :
    l = l' ∧ r = r' := by
  induction l generalizing l' with
  | nil =>
    cases l' with
    | nil => exact ⟨rfl, h⟩
    | cons c l' =>
      have hc := hr c (by rw [List.nil_append] at h; rw [h]; rfl)
      rw [hl' c List.mem_cons_self] at hc
      cases hc
  | cons c l ih =>
    cases l' with
    | nil =>
      have hc := hr' c (by rw [List.nil_append] at h; rw [← h]; rfl)
      rw [hl c List.mem_cons_self] at hc
      cases hc
    | cons d l' =>
      obtain ⟨hcd, hrest⟩ := List.cons.inj h
      obtain ⟨hll, hrr⟩ := ih (fun x hx => hl x (List.mem_cons_of_mem c hx))
        (fun x hx => hl' x (List.mem_cons_of_mem d hx)) hrest
      exact ⟨by rw [hcd, hll], hrr⟩

/-- A value is followed by the next element or by the closing bracket. -/
theorem follows_items {xs : JsonTerm φ .items} {r : List Char} (h : Follows .items r) :
    Follows .value (xs.text p ++ r) := by
  intro c hc
  cases xs with
  | noItem =>
    have hr : r.head? = some ']' := h
    obtain rfl : ']' = c := by simpa [text, hr] using hc
    rfl
  | item x xs =>
    obtain rfl : ',' = c := by simpa [text] using hc
    rfl

theorem follows_fields {kvs : JsonTerm φ .fields} {r : List Char} (h : Follows .fields r) :
    Follows .value (kvs.text p ++ r) := by
  intro c hc
  cases kvs with
  | noField =>
    have hr : r.head? = some '}' := h
    obtain rfl : '}' = c := by simpa [text, hr] using hc
    rfl
  | field key x rest =>
    obtain rfl : ',' = c := by simpa [text] using hc
    rfl

/-- The elements are found again without the first comma. -/
theorem items_of_tail {xs ys : JsonTerm φ .items} {r s : List Char}
    (h : (xs.text p).tail ++ ']' :: r = (ys.text p).tail ++ ']' :: s) :
    xs.text p ++ ']' :: r = ys.text p ++ ']' :: s := by
  have hne : ∀ (x : JsonTerm φ .value) (l l' : List Char), x.text p ++ l ≠ ']' :: l' := by
    intro x l l' heq
    obtain ⟨c, rest, htext, -, hc⟩ := text_start p x
    rw [htext] at heq
    rw [(List.cons.inj heq).1] at hc
    cases hc
  cases xs with
  | noItem =>
    cases ys with
    | noItem => exact h
    | item y ys =>
      simp only [text, List.tail_nil, List.nil_append, List.tail_cons, List.append_assoc] at h
      exact absurd h.symm (hne y _ _)
  | item x xs =>
    cases ys with
    | noItem =>
      simp only [text, List.tail_nil, List.nil_append, List.tail_cons, List.append_assoc] at h
      exact absurd h (hne x _ _)
    | item y ys => exact congrArg (',' :: ·) h

theorem fields_of_tail {xs ys : JsonTerm φ .fields} {r s : List Char}
    (h : (xs.text p).tail ++ '}' :: r = (ys.text p).tail ++ '}' :: s) :
    xs.text p ++ '}' :: r = ys.text p ++ '}' :: s := by
  cases xs with
  | noField =>
    cases ys with
    | noField => exact h
    | field key y ys => simp [text, stringText] at h
  | field key x xs =>
    cases ys with
    | noField => simp [text, stringText] at h
    | field key' y ys => exact congrArg (',' :: ·) h

/-- Numbers are of one class: their texts are compared as wholes. -/
theorem number_append_inj {t u : JsonTerm φ .value} (ht : t.lead = .number)
    (hu : u.lead = .number) {r s : List Char} (hr : Follows .value r) (hs : Follows .value s)
    (h : t.text p ++ r = u.text p ++ s) : t = u ∧ r = s := by
  have hplain : ∀ v : JsonTerm φ .value, v.lead = .number →
      ∀ c ∈ v.text p, isDelimiter c = false := by
    intro v hv c hc
    cases v with
    | int n => exact isDelimiter_of_mem_intText hc
    | number x => exact p.chars x c hc
    | null | bool _ | str _ | arr _ | obj _ => cases hv
  obtain ⟨htext, hrest⟩ := append_inj_of_delimiter (hplain t ht) (hplain u hu) hr hs h
  refine ⟨?_, hrest⟩
  cases t with
  | int m =>
    cases u with
    | int n => rw [intText_inj htext]
    | number y => exact absurd htext.symm (p.not_int y m)
    | null | bool _ | str _ | arr _ | obj _ => cases hu
  | number x =>
    cases u with
    | int n => exact absurd htext (p.not_int x n)
    | number y => rw [p.text_inj x y htext]
    | null | bool _ | str _ | arr _ | obj _ => cases hu
  | null | bool _ | str _ | arr _ | obj _ => cases ht

/-- **No text continues another one.** -/
theorem text_append_inj {i : JsonKind} (t : JsonTerm φ i) : ∀ {u : JsonTerm φ i}
    {r s : List Char}, Follows i r → Follows i s → t.text p ++ r = u.text p ++ s →
      t = u ∧ r = s := by
  induction t with
  | null =>
    intro u r s hr hs h
    have hlead := lead_eq p h
    cases u with
    | null => exact ⟨rfl, by simpa [text] using h⟩
    | bool _ | int _ | number _ | str _ | arr _ | obj _ => cases hlead
  | bool b =>
    intro u r s hr hs h
    have hlead := lead_eq p h
    cases u with
    | bool b' =>
      cases b <;> cases b' <;> simp_all [text]
    | null | int _ | number _ | str _ | arr _ | obj _ => cases hlead
  | int n =>
    intro u r s hr hs h
    exact number_append_inj p rfl (lead_eq p h).symm hr hs h
  | number x =>
    intro u r s hr hs h
    exact number_append_inj p rfl (lead_eq p h).symm hr hs h
  | str a =>
    intro u r s hr hs h
    have hlead := lead_eq p h
    cases u with
    | str b =>
      obtain ⟨hab, hrs⟩ := stringText_append_inj h
      exact ⟨by rw [hab], hrs⟩
    | null | bool _ | int _ | number _ | arr _ | obj _ => cases hlead
  | arr xs ih =>
    intro u r s hr hs h
    have hlead := lead_eq p h
    cases u with
    | arr ys =>
      simp only [text, List.cons_append, List.append_assoc, List.nil_append] at h
      obtain ⟨hxy, hrs⟩ := ih (by rfl) (by rfl) (items_of_tail p (List.cons.inj h).2)
      exact ⟨by rw [hxy], (List.cons.inj hrs).2⟩
    | null | bool _ | int _ | number _ | str _ | obj _ => cases hlead
  | obj xs ih =>
    intro u r s hr hs h
    have hlead := lead_eq p h
    cases u with
    | obj ys =>
      simp only [text, List.cons_append, List.append_assoc, List.nil_append] at h
      obtain ⟨hxy, hrs⟩ := ih (by rfl) (by rfl) (fields_of_tail p (List.cons.inj h).2)
      exact ⟨by rw [hxy], (List.cons.inj hrs).2⟩
    | null | bool _ | int _ | number _ | str _ | arr _ => cases hlead
  | noItem =>
    intro u r s hr hs h
    cases u with
    | noItem => exact ⟨rfl, h⟩
    | item y ys =>
      have hhead : r.head? = some ']' := hr
      rw [show r = _ from h] at hhead
      simp [text] at hhead
  | item x xs ihx ihxs =>
    intro u r s hr hs h
    cases u with
    | noItem =>
      have hhead : s.head? = some ']' := hs
      rw [show s = _ from h.symm] at hhead
      simp [text] at hhead
    | item y ys =>
      simp only [text, List.cons_append, List.append_assoc] at h
      obtain ⟨hx, hrest⟩ := ihx (follows_items p hr) (follows_items p hs) (List.cons.inj h).2
      obtain ⟨hxs, hrs⟩ := ihxs hr hs hrest
      exact ⟨by rw [hx, hxs], hrs⟩
  | noField =>
    intro u r s hr hs h
    cases u with
    | noField => exact ⟨rfl, h⟩
    | field key y ys =>
      have hhead : r.head? = some '}' := hr
      rw [show r = _ from h] at hhead
      simp [text] at hhead
  | field key x rest ihx ihrest =>
    intro u r s hr hs h
    cases u with
    | noField =>
      have hhead : s.head? = some '}' := hs
      rw [show s = _ from h.symm] at hhead
      simp [text] at hhead
    | field key' y rest' =>
      simp only [text, List.cons_append, List.append_assoc] at h
      obtain ⟨hkey, hvalue⟩ := stringText_append_inj (List.cons.inj h).2
      obtain ⟨hx, htail⟩ := ihx (follows_fields p hr) (follows_fields p hs)
        (List.cons.inj hvalue).2
      obtain ⟨hrest, hrs⟩ := ihrest hr hs htail
      exact ⟨by rw [hkey, hx, hrest], hrs⟩

theorem text_inj {t u : JsonTerm φ .value} (h : t.text p = u.text p) : t = u :=
  (text_append_inj p t (r := []) (s := []) (by simp [Follows]) (by simp [Follows])
    (by rw [h])).1

end JsonTerm

end Noezema.Lib
