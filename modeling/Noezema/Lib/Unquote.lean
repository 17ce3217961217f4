import Noezema.Lib.UrlSplit

/-! # Percent-decoding

`urllib.parse.unquote`: runs of ASCII are read as bytes, `%` with two hexadecimal digits as
one, and the bytes are decoded as UTF-8 with a replacement for each ill-formed part.
-/

namespace Noezema.Lib

/-- U+FFFD. -/
def replacementChar : Char := Char.ofNat 0xFFFD

def hexByte (c : Char) : Option Nat :=
  if '0' ≤ c ∧ c ≤ '9' then some (c.toNat - 48)
  else if 'a' ≤ c ∧ c ≤ 'f' then some (c.toNat - 87)
  else if 'A' ≤ c ∧ c ≤ 'F' then some (c.toNat - 55)
  else none

/-- `unquote_to_bytes` of an ASCII text. -/
def unquoteToBytes : List Char → List Nat
  | '%' :: a :: b :: rest =>
    match hexByte a, hexByte b with
    | some x, some y => (16 * x + y) :: unquoteToBytes rest
    | _, _ => 37 :: unquoteToBytes (a :: b :: rest)
  | c :: rest => c.toNat :: unquoteToBytes rest
  | [] => []

def isContinuation (b : Nat) : Bool := 0x80 ≤ b ∧ b ≤ 0xBF

/-- The second bytes that may follow a leading byte of three or four. -/
def secondByte (lead b : Nat) : Bool :=
  if lead = 0xE0 then 0xA0 ≤ b ∧ b ≤ 0xBF
  else if lead = 0xED then 0x80 ≤ b ∧ b ≤ 0x9F
  else if lead = 0xF0 then 0x90 ≤ b ∧ b ≤ 0xBF
  else if lead = 0xF4 then 0x80 ≤ b ∧ b ≤ 0x8F
  else isContinuation b

/-- `bytes.decode("utf-8", errors="replace")`: one replacement for each ill-formed part, the
longest one that begins a character. -/
def decodeUtf8Replace : List Nat → List Char
  | [] => []
  | b :: rest =>
    if b < 0x80 then Char.ofNat b :: decodeUtf8Replace rest
    else if 0xC2 ≤ b ∧ b ≤ 0xDF then
      match rest with
      | c :: rest =>
        if isContinuation c then
          Char.ofNat ((b - 0xC0) * 64 + (c - 0x80)) :: decodeUtf8Replace rest
        else replacementChar :: decodeUtf8Replace (c :: rest)
      | [] => [replacementChar]
    else if 0xE0 ≤ b ∧ b ≤ 0xEF then
      match rest with
      | c :: rest =>
        if secondByte b c then
          match rest with
          | d :: rest =>
            if isContinuation d then
              Char.ofNat ((b - 0xE0) * 4096 + (c - 0x80) * 64 + (d - 0x80)) ::
                decodeUtf8Replace rest
            else replacementChar :: decodeUtf8Replace (d :: rest)
          | [] => [replacementChar]
        else replacementChar :: decodeUtf8Replace (c :: rest)
      | [] => [replacementChar]
    else if 0xF0 ≤ b ∧ b ≤ 0xF4 then
      match rest with
      | c :: rest =>
        if secondByte b c then
          match rest with
          | d :: rest =>
            if isContinuation d then
              match rest with
              | e :: rest =>
                if isContinuation e then
                  Char.ofNat ((b - 0xF0) * 262144 + (c - 0x80) * 4096 + (d - 0x80) * 64 +
                    (e - 0x80)) :: decodeUtf8Replace rest
                else replacementChar :: decodeUtf8Replace (e :: rest)
              | [] => [replacementChar]
            else replacementChar :: decodeUtf8Replace (d :: rest)
          | [] => [replacementChar]
        else replacementChar :: decodeUtf8Replace (c :: rest)
      | [] => [replacementChar]
    else replacementChar :: decodeUtf8Replace rest

/-- The runs of ASCII of a text, decoded; `run` is the one that is being read. -/
def unquoteRuns (run : List Char) : List Char → List Char
  | [] => decodeUtf8Replace (unquoteToBytes run)
  | c :: rest =>
    if isAscii c then unquoteRuns (run ++ [c]) rest
    else decodeUtf8Replace (unquoteToBytes run) ++ c :: unquoteRuns [] rest

/-- `unquote`. -/
def unquote (s : List Char) : List Char := if '%' ∈ s then unquoteRuns [] s else s

@[simp] theorem unquote_nil : unquote [] = [] := rfl

theorem unquoteRuns_slash (run s : List Char) :
    unquoteRuns ('/' :: run) s = '/' :: unquoteRuns run s := by
  have hrun : ∀ r : List Char, decodeUtf8Replace (unquoteToBytes ('/' :: r)) =
      '/' :: decodeUtf8Replace (unquoteToBytes r) := by
    intro r
    have hbytes : unquoteToBytes ('/' :: r) = 47 :: unquoteToBytes r := by
      simp [unquoteToBytes]
    rw [hbytes, decodeUtf8Replace.eq_def]
    exact if_pos (by decide)
  induction s generalizing run with
  | nil => exact hrun run
  | cons c s ih =>
    rw [unquoteRuns, unquoteRuns, List.cons_append, ih, hrun]
    split <;> rfl

/-- A leading slash is decoded to itself. -/
theorem unquote_slash (s : List Char) : unquote ('/' :: s) = '/' :: unquote s := by
  have hstart : unquoteRuns [] ('/' :: s) = '/' :: unquoteRuns [] s := by
    rw [unquoteRuns, if_pos (by decide), List.nil_append, unquoteRuns_slash]
  by_cases h : '%' ∈ s
  · rw [unquote, unquote, if_pos (List.mem_cons_of_mem _ h), if_pos h, hstart]
  · rw [unquote, unquote, if_neg (by simpa using h), if_neg h]

example : unquote ['/', 'x', '%', '3', 'F', 'y'] = ['/', 'x', '?', 'y'] := by decide

end Noezema.Lib
