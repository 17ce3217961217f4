import Noezema.Lib.Unquote

/-! # Texts of code points

A string of the program may hold lone surrogates, which are no characters: they have no
UTF-8 form, and encoding a text that holds one raises. Decoding with a replacement makes
none.
-/

namespace Noezema.Lib

abbrev CodePoint := Fin 0x110000

/-- A string, as its code points. -/
abbrev PyText := List CodePoint

namespace CodePoint

def isSurrogate (c : CodePoint) : Bool := 0xD800 ≤ c.val ∧ c.val ≤ 0xDFFF

/-- `str.isspace`. -/
def isSpace (c : CodePoint) : Bool :=
  (9 ≤ c.val && c.val ≤ 13) || (28 ≤ c.val && c.val ≤ 32) || c.val = 133 || c.val = 160 ||
    c.val = 5760 || (8192 ≤ c.val && c.val ≤ 8202) || c.val = 8232 || c.val = 8233 ||
    c.val = 8239 || c.val = 8287 || c.val = 12288

theorem ofChar_lt (c : Char) : c.toNat < 0x110000 := by
  have h := c.valid
  have hnat : c.toNat = c.val.toNat := rfl
  simp only [UInt32.isValidChar, Nat.isValidChar] at h
  omega

def ofChar (c : Char) : CodePoint := ⟨c.toNat, ofChar_lt c⟩

theorem ofChar_not_surrogate (c : Char) : (ofChar c).isSurrogate = false := by
  have h := c.valid
  have hnat : c.toNat = c.val.toNat := rfl
  simp only [UInt32.isValidChar, Nat.isValidChar] at h
  rw [isSurrogate, decide_eq_false_iff_not]
  show ¬ (0xD800 ≤ c.toNat ∧ c.toNat ≤ 0xDFFF)
  omega

/-- The UTF-8 form of a code point that is a character. -/
def utf8 (c : CodePoint) : List UInt8 := String.utf8EncodeChar (Char.ofNat c.val)

end CodePoint

namespace PyText

/-- No lone surrogate. -/
def Clean (s : PyText) : Prop := ∀ c ∈ s, c.isSurrogate = false

def ofChars (s : List Char) : PyText := s.map CodePoint.ofChar

/-- A text of the source. -/
def lit (s : String) : PyText := ofChars s.toList

/-- `str.strip`. -/
def strip (s : PyText) : PyText :=
  ((s.dropWhile CodePoint.isSpace).reverse.dropWhile CodePoint.isSpace).reverse

/-- `text.encode("utf-8")`, none where it raises. -/
def encodeUtf8 (s : PyText) : Option (List UInt8) :=
  if s.any CodePoint.isSurrogate then none else some (s.flatMap CodePoint.utf8)

/-- `data.decode("utf-8", errors="replace")`. -/
def decodeUtf8 (data : List UInt8) : PyText := ofChars (decodeUtf8Replace (data.map UInt8.toNat))

/-- `data.decode("utf-8")`, none where it raises: nothing was replaced where the text has the
bytes that were read. -/
def decodeUtf8Strict (data : List UInt8) : Option PyText :=
  if encodeUtf8 (decodeUtf8 data) = some data then some (decodeUtf8 data) else none

/-- `sep.join(parts)`. -/
def join (sep : PyText) : List PyText → PyText
  | [] => []
  | [p] => p
  | p :: q :: ps => p ++ sep ++ join sep (q :: ps)

/-- A text is encoded exactly where it is clean. -/
theorem encodeUtf8_eq_some_iff {s : PyText} :
    (∃ data, encodeUtf8 s = some data) ↔ s.Clean := by
  unfold encodeUtf8
  by_cases h : s.any CodePoint.isSurrogate
  · rw [if_pos h]
    obtain ⟨c, hc, hs⟩ := List.any_eq_true.mp h
    refine ⟨fun ⟨data, hd⟩ => (by cases hd), fun hclean => ?_⟩
    rw [hclean c hc] at hs
    cases hs
  · rw [if_neg h]
    refine ⟨fun _ c hc => ?_, fun _ => ⟨_, rfl⟩⟩
    by_contra hs
    exact h (List.any_eq_true.mpr ⟨c, hc, by simpa using hs⟩)

theorem ofChar_toChar {c : CodePoint} (h : c.isSurrogate = false) :
    CodePoint.ofChar (Char.ofNat c.val) = c := by
  rw [CodePoint.isSurrogate, decide_eq_false_iff_not] at h
  have hlt := c.isLt
  have hvalid : c.val.isValidChar := by
    rw [Nat.isValidChar]
    omega
  apply Fin.ext
  show (Char.ofNat c.val).toNat = c.val
  rw [Char.ofNat, dif_pos hvalid]
  rfl

theorem ofChars_injective : Function.Injective ofChars := by
  intro s t h
  apply List.map_injective_iff.mpr _ h
  intro c d hcd
  have hnat : c.toNat = d.toNat := congrArg (fun x : CodePoint => x.val) hcd
  exact Char.toNat_inj.mp hnat

/-- Encoded alike, texts are alike. -/
theorem encodeUtf8_inj {s t : PyText} {data : List UInt8} (hs : encodeUtf8 s = some data)
    (ht : encodeUtf8 t = some data) : s = t := by
  have hchars : ∀ {s : PyText}, encodeUtf8 s = some data →
      s = ofChars (s.map fun c => Char.ofNat c.val) ∧
        data = (s.map fun c => Char.ofNat c.val).flatMap String.utf8EncodeChar := by
    intro s hs
    have hclean : s.Clean := encodeUtf8_eq_some_iff.mp ⟨data, hs⟩
    rw [encodeUtf8] at hs
    split at hs
    · cases hs
    · cases hs
      refine ⟨?_, by rw [List.flatMap_map]; rfl⟩
      rw [ofChars, List.map_map]
      exact (List.map_id' s).symm.trans
        (List.map_congr_left fun c hc => (ofChar_toChar (hclean c hc)).symm)
  obtain ⟨hs, hdata⟩ := hchars hs
  obtain ⟨ht, hdata'⟩ := hchars ht
  have hbytes := congrArg List.toByteArray (hdata.symm.trans hdata')
  have hsame := String.ofList_injective (String.toByteArray_inj.mp hbytes)
  rw [hs, hsame, ← ht]

theorem clean_ofChars (s : List Char) : Clean (ofChars s) := by
  intro c hc
  obtain ⟨x, -, rfl⟩ := List.mem_map.mp hc
  exact CodePoint.ofChar_not_surrogate x

theorem clean_decodeUtf8 (data : List UInt8) : Clean (decodeUtf8 data) := clean_ofChars _

theorem Clean.sublist {s t : PyText} (ht : Clean t) (h : s.Sublist t) : Clean s :=
  fun c hc => ht c (h.subset hc)

theorem Clean.append {s t : PyText} (hs : Clean s) (ht : Clean t) : Clean (s ++ t) := by
  intro c hc
  rcases List.mem_append.mp hc with hc | hc
  · exact hs c hc
  · exact ht c hc

theorem strip_sublist (s : PyText) : (strip s).Sublist s := by
  refine List.reverse_sublist.mp ?_
  rw [strip, List.reverse_reverse]
  exact (List.dropWhile_sublist _).trans (List.reverse_sublist.mpr (List.dropWhile_sublist _))

theorem Clean.strip {s : PyText} (h : Clean s) : Clean (strip s) := h.sublist (strip_sublist s)

/-- Stripping leaves what is no space. -/
theorem mem_strip {s : PyText} {c : CodePoint} (hc : c ∈ s) (hspace : c.isSpace = false) :
    c ∈ strip s := by
  have hdrop : ∀ {t : PyText}, c ∈ t → c ∈ t.dropWhile CodePoint.isSpace := by
    intro t ht
    rw [← List.takeWhile_append_dropWhile (p := CodePoint.isSpace) (l := t)] at ht
    rcases List.mem_append.mp ht with htake | hdrop
    · rw [List.mem_takeWhile_imp htake] at hspace
      cases hspace
    · exact hdrop
  rw [strip, List.mem_reverse]
  exact hdrop (List.mem_reverse.mpr (hdrop hc))

theorem not_space_of_surrogate {c : CodePoint} (h : c.isSurrogate) : c.isSpace = false := by
  rw [CodePoint.isSurrogate, decide_eq_true_eq] at h
  simp only [CodePoint.isSpace, Bool.or_eq_false_iff, Bool.and_eq_false_iff,
    decide_eq_false_iff_not]
  omega

theorem clean_strip_iff {s : PyText} : Clean (strip s) ↔ Clean s := by
  refine ⟨fun h c hc => ?_, Clean.strip⟩
  by_contra hsur
  have hsur : c.isSurrogate := by simpa using hsur
  have := h c (mem_strip hc (not_space_of_surrogate hsur))
  rw [hsur] at this
  cases this

/-- A stripped text begins with what is no space. -/
theorem head_strip {s : PyText} {c : CodePoint} (h : c ∈ (strip s).head?) : c.isSpace = false := by
  have hpre : strip s <+: s.dropWhile CodePoint.isSpace := by
    rw [strip, ← List.reverse_suffix, List.reverse_reverse]
    exact List.dropWhile_suffix _
  obtain ⟨rest, hrest⟩ := hpre
  have hhead : c ∈ (s.dropWhile CodePoint.isSpace).head? := by
    rw [← hrest]
    exact List.mem_head?_append_of_mem_head? h
  have hnot := List.head?_dropWhile_not CodePoint.isSpace s
  rw [hhead] at hnot
  simpa using hnot

theorem last_strip {s : PyText} {c : CodePoint} (h : c ∈ (strip s).getLast?) :
    c.isSpace = false := by
  rw [strip, List.getLast?_reverse] at h
  have hnot := List.head?_dropWhile_not CodePoint.isSpace (s.dropWhile CodePoint.isSpace).reverse
  rw [h] at hnot
  simpa using hnot

theorem dropWhile_space_of_head {s : PyText} (h : ∀ c ∈ s.head?, c.isSpace = false) :
    s.dropWhile CodePoint.isSpace = s := by
  cases s with
  | nil => rfl
  | cons c s =>
    have hc : ¬ c.isSpace = true := by
      rw [h c rfl]
      exact Bool.false_ne_true
    rw [List.dropWhile_cons_of_neg hc]

/-- A text is stripped where neither end is a space. -/
theorem strip_eq_self_iff {s : PyText} : strip s = s ↔
    (∀ c ∈ s.head?, c.isSpace = false) ∧ ∀ c ∈ s.getLast?, c.isSpace = false := by
  constructor
  · intro h
    rw [← h]
    exact ⟨fun _ => head_strip, fun _ => last_strip⟩
  · rintro ⟨hhead, hlast⟩
    rw [← List.head?_reverse] at hlast
    rw [strip, dropWhile_space_of_head hhead, dropWhile_space_of_head hlast, List.reverse_reverse]

theorem strip_strip (s : PyText) : strip (strip s) = strip s :=
  strip_eq_self_iff.mpr ⟨fun _ => head_strip, fun _ => last_strip⟩

theorem Clean.join {sep : PyText} (hsep : Clean sep) :
    ∀ {parts : List PyText}, (∀ p ∈ parts, Clean p) → Clean (join sep parts)
  | [], _ => fun c hc => (by cases hc)
  | [p], h => h p (List.mem_singleton_self p)
  | p :: q :: ps, h => by
    rw [PyText.join]
    refine ((h p List.mem_cons_self).append hsep).append (Clean.join hsep fun r hr => ?_)
    exact h r (List.mem_cons_of_mem _ hr)

end PyText

end Noezema.Lib
