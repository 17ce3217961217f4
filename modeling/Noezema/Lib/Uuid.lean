import Mathlib

/-! # UUIDs as texts

The canonical text of a 128-bit id, 32 hexadecimal digits in five groups, and the reader of
such texts, that takes the dashes anywhere.
-/

namespace Noezema.Lib

/-! ## Hexadecimal digits -/

/-- `[0-9a-fA-F]`. -/
def isHexSymbol (c : Char) : Bool :=
  ('0' ≤ c && c ≤ '9') || ('a' ≤ c && c ≤ 'f') || ('A' ≤ c && c ≤ 'F')

def hexChar (d : Nat) : Char :=
  if d < 10 then Char.ofNat (48 + d) else Char.ofNat (87 + d)

def hexValue (c : Char) : Nat :=
  if c ≤ '9' then c.toNat - 48 else if c ≤ 'F' then c.toNat - 55 else c.toNat - 87

/-- The last `k` digits of a number. -/
def hexText : Nat → Nat → List Char
  | 0, _ => []
  | k + 1, n => hexText k (n / 16) ++ [hexChar (n % 16)]

/-- The number that digits denote. -/
def hexNumber (digits : List Char) : Nat := digits.foldl (fun n c => 16 * n + hexValue c) 0

theorem hexChar_digit {d : Nat} (h : d < 16) :
    hexValue (hexChar d) = d ∧ isHexSymbol (hexChar d) ∧ hexChar d ≠ '-' := by
  revert h
  revert d
  decide

theorem length_hexText (k n : Nat) : (hexText k n).length = k := by
  induction k generalizing n with
  | zero => rfl
  | succ k ih => simp [hexText, ih]

theorem mem_hexText {k n : Nat} {c : Char} (h : c ∈ hexText k n) :
    isHexSymbol c ∧ c ≠ '-' := by
  induction k generalizing n with
  | zero => simp [hexText] at h
  | succ k ih =>
    rw [hexText, List.mem_append, List.mem_singleton] at h
    rcases h with h | rfl
    · exact ih h
    · exact (hexChar_digit (Nat.mod_lt n (by decide))).2

theorem hexNumber_hexText {k n : Nat} (h : n < 16 ^ k) : hexNumber (hexText k n) = n := by
  induction k generalizing n with
  | zero =>
    have hn : n = 0 := by simpa using h
    rw [hn]
    rfl
  | succ k ih =>
    have hdiv : n / 16 < 16 ^ k := by
      rw [pow_succ] at h
      omega
    have hhigher : hexNumber (hexText k (n / 16)) = n / 16 := ih hdiv
    have hdigit := (hexChar_digit (Nat.mod_lt n (by decide : 0 < 16))).1
    rw [hexText, hexNumber, List.foldl_append]
    simp only [List.foldl_cons, List.foldl_nil]
    rw [show List.foldl (fun n c => 16 * n + hexValue c) 0 (hexText k (n / 16)) = n / 16 from
      hhigher, hdigit]
    exact Nat.div_add_mod n 16

/-! ## Ids -/

abbrev Uuid := BitVec 128

instance : LawfulBEq Uuid := inferInstanceAs (LawfulBEq (BitVec 128))

namespace Uuid

/-- `str(uuid)`: groups of 8, 4, 4, 4 and 12 digits. -/
def text (u : Uuid) : List Char :=
  let hex := hexText 32 u.toNat
  hex.take 8 ++ '-' :: ((hex.drop 8).take 4 ++ '-' :: ((hex.drop 12).take 4 ++
    '-' :: ((hex.drop 16).take 4 ++ '-' :: hex.drop 20)))

/-- `uuid.UUID(text)`, of a text of digits and dashes. -/
def parse (text : List Char) : Option Uuid :=
  let hex := text.filter (· ≠ '-')
  if hex.length = 32 ∧ hex.all isHexSymbol then some (BitVec.ofNat 128 (hexNumber hex)) else none

theorem length_text (u : Uuid) : u.text.length = 36 := by
  simp [text, length_hexText]

theorem mem_text {u : Uuid} {c : Char} (h : c ∈ u.text) : isHexSymbol c ∨ c = '-' := by
  have hhex : ∀ l : List Char, l.Sublist (hexText 32 u.toNat) → c ∈ l → isHexSymbol c :=
    fun l hl hc => (mem_hexText (hl.subset hc)).1
  simp only [text, List.mem_append, List.mem_cons] at h
  rcases h with h | h | h | h | h | h | h | h | h
  · exact .inl (hhex _ (List.take_sublist _ _) h)
  · exact .inr h
  · exact .inl (hhex _ ((List.take_sublist _ _).trans (List.drop_sublist _ _)) h)
  · exact .inr h
  · exact .inl (hhex _ ((List.take_sublist _ _).trans (List.drop_sublist _ _)) h)
  · exact .inr h
  · exact .inl (hhex _ ((List.take_sublist _ _).trans (List.drop_sublist _ _)) h)
  · exact .inr h
  · exact .inl (hhex _ (List.drop_sublist _ _) h)

/-- Without its dashes the text is the digits. -/
theorem filter_text (u : Uuid) : u.text.filter (· ≠ '-') = hexText 32 u.toNat := by
  have hkeep : ∀ l : List Char, l.Sublist (hexText 32 u.toNat) → l.filter (· ≠ '-') = l := by
    intro l hl
    rw [List.filter_eq_self]
    intro c hc
    simpa using (mem_hexText (hl.subset hc)).2
  have hslice : ∀ i k, (((hexText 32 u.toNat).drop i).take k).filter (· ≠ '-') =
      ((hexText 32 u.toNat).drop i).take k :=
    fun i k => hkeep _ ((List.take_sublist _ _).trans (List.drop_sublist _ _))
  have hdash : ∀ a b : List Char, (a ++ '-' :: b).filter (· ≠ '-') =
      a.filter (· ≠ '-') ++ b.filter (· ≠ '-') := by
    intro a b
    simp
  unfold text
  rw [hdash, hdash, hdash, hdash, hslice, hslice, hslice, hkeep _ (List.take_sublist _ _),
    hkeep _ (List.drop_sublist _ _)]
  have h20 : (hexText 32 u.toNat).drop 20 = ((hexText 32 u.toNat).drop 16).drop 4 := by
    rw [List.drop_drop]
  have h16 : (hexText 32 u.toNat).drop 16 = ((hexText 32 u.toNat).drop 12).drop 4 := by
    rw [List.drop_drop]
  have h12 : (hexText 32 u.toNat).drop 12 = ((hexText 32 u.toNat).drop 8).drop 4 := by
    rw [List.drop_drop]
  rw [h20, List.take_append_drop, h16, List.take_append_drop, h12, List.take_append_drop,
    List.take_append_drop]

/-- **Round trip.** The reader recovers the id from its text. -/
theorem parse_text (u : Uuid) : parse u.text = some u := by
  have hhex : (hexText 32 u.toNat).all isHexSymbol :=
    List.all_eq_true.mpr fun c hc => (mem_hexText hc).1
  have hbound : u.toNat < 16 ^ 32 := u.isLt
  unfold parse
  simp only [filter_text, length_hexText, hhex, hexNumber_hexText hbound, and_self, if_pos,
    BitVec.ofNat_toNat, BitVec.setWidth_eq]

/-- A reader of ids that takes what `text` writes, and may take other forms. -/
structure Reader where
  parse : List Char → Option Uuid
  parse_text : ∀ u : Uuid, parse u.text = some u

/-- The reader of digits and dashes alone. -/
def Reader.plain : Reader := ⟨Uuid.parse, Uuid.parse_text⟩

end Uuid

end Noezema.Lib
