import Mathlib

/-! # Regular expressions with backtracking

The expressions of `re`: sequence, alternatives, greedy repetition, groups, and assertions
about what is ahead and about the symbol behind. A matcher returns all ways to match from a
cursor, the preferred one first; a search takes the first way at the first place that has one.
-/

namespace Noezema.Lib

/-- An expression over symbols. -/
inductive Regex (α : Type) where
  | empty
  | symbol (p : α → Bool)
  | seq (r s : Regex α)
  | alt (r s : Regex α)
  /-- Greedy: at least `min` times, and at most `extra` times more. -/
  | many (min : Nat) (extra : Option Nat) (r : Regex α)
  | group (i : Nat) (r : Regex α)
  | ahead (r : Regex α)
  | notAhead (r : Regex α)
  | notBehind (p : α → Bool)

/-- A place in a text: what is behind it, last symbol first, what is ahead, and the spans of
the groups that were read, the latest first. -/
structure Cursor (α : Type) where
  left : List α
  right : List α
  groups : List (Nat × Nat × Nat)

namespace Cursor

variable {α : Type}

def pos (c : Cursor α) : Nat := c.left.length

/-- The text as a whole. -/
def text (c : Cursor α) : List α := c.left.reverse ++ c.right

/-- The group `i` was read from the position `start` on. -/
def capture (i start : Nat) (c : Cursor α) : Cursor α :=
  { c with groups := (i, start, c.pos) :: c.groups }

/-- `d` is reached from `c` by reading `w`. -/
structure Reads (c : Cursor α) (w : List α) (d : Cursor α) : Prop where
  left : d.left = w.reverse ++ c.left
  right : c.right = w ++ d.right

theorem Reads.refl (c : Cursor α) : c.Reads [] c := ⟨rfl, rfl⟩

theorem Reads.trans {c d e : Cursor α} {v w : List α} (h : c.Reads v d) (h' : d.Reads w e) :
    c.Reads (v ++ w) e := by
  refine ⟨?_, ?_⟩
  · rw [h'.left, h.left, List.reverse_append, List.append_assoc]
  · rw [h.right, h'.right, List.append_assoc]

theorem Reads.pos_eq {c d : Cursor α} {w : List α} (h : c.Reads w d) :
    d.pos = c.pos + w.length := by
  rw [pos, h.left, List.length_append, List.length_reverse, pos, Nat.add_comm]

end Cursor

namespace Regex

variable {α : Type}

/-- At most so many turns of a matcher, as many as possible; each reads something. -/
def upTo (turn : Cursor α → List (Cursor α)) : Nat → Cursor α → List (Cursor α)
  | extra + 1, c => ((turn c).filter (c.pos < ·.pos)).flatMap (upTo turn extra) ++ [c]
  | 0, c => [c]

/-- The greedy repetition of a matcher: so many turns, and then up to so many more. -/
def repeats (turn : Cursor α → List (Cursor α)) (extra : Nat) : Nat → Cursor α → List (Cursor α)
  | min + 1, c => (turn c).flatMap (repeats turn extra min)
  | 0, c => upTo turn extra c

/-- The ways to match, the preferred one first. -/
def paths : Regex α → Cursor α → List (Cursor α)
  | empty, c => [c]
  | symbol p, c =>
    match c.right with
    | x :: rest => if p x then [{ c with left := x :: c.left, right := rest }] else []
    | [] => []
  | seq r s, c => (r.paths c).flatMap s.paths
  | alt r s, c => r.paths c ++ s.paths c
  | many min extra r, c => repeats r.paths (extra.getD c.right.length) min c
  | group i r, c => (r.paths c).map (·.capture i c.pos)
  | ahead r, c => if (r.paths c).isEmpty then [] else [c]
  | notAhead r, c => if (r.paths c).isEmpty then [c] else []
  | notBehind p, c => if c.left.head?.any p then [] else [c]

/-- A word, symbol by symbol. -/
def word {β : Type} (same : β → α → Bool) : List β → Regex α
  | [] => empty
  | x :: w => seq (symbol (same x)) (word same w)

/-- One expression after another. -/
def seqs : List (Regex α) → Regex α
  | [] => empty
  | [r] => r
  | r :: rs => seq r (seqs rs)

/-- A part that may be absent. -/
def optional (r : Regex α) : Regex α := many 0 (some 1) r

/-- What a search found: the span of the match and those of its groups. -/
structure Match where
  start : Nat
  stop : Nat
  groups : List (Nat × Nat × Nat)
deriving DecidableEq

/-- The span of a group. -/
def Match.span (m : Match) (i : Nat) : Option (Nat × Nat) := m.groups.lookup i

/-- `match.group(i)` of the text that was searched. -/
def Match.groupText (m : Match) (text : List α) (i : Nat) : Option (List α) :=
  (m.span i).map fun s => (text.drop s.1).take (s.2 - s.1)

/-- `match.group()` of the text that was searched. -/
def Match.all (m : Match) (text : List α) : List α := (text.drop m.start).take (m.stop - m.start)

/-- The match at a place. -/
def matchAt (r : Regex α) (left right : List α) : Option Match :=
  (r.paths ⟨left, right, []⟩).head?.map fun d => ⟨left.length, d.pos, d.groups⟩

/-- `fullmatch`. -/
def fullMatch (r : Regex α) (text : List α) : Bool :=
  (r.paths ⟨[], text, []⟩).any (·.right.isEmpty)

/-- The matches from a place on, the next `skip` symbols belonging to the last one. -/
def findFrom (r : Regex α) : Nat → List α → List α → List Match
  | skip + 1, left, x :: rest => r.findFrom skip (x :: left) rest
  | 0, left, x :: rest =>
    match r.matchAt left (x :: rest) with
    | some m => m :: r.findFrom (m.stop - m.start - 1) (x :: left) rest
    | none => r.findFrom 0 (x :: left) rest
  | _, _, [] => []

/-- `finditer`, for an expression that matches no empty text. -/
def findAll (r : Regex α) (text : List α) : List Match := r.findFrom 0 [] text

/-- The text with each of the matches replaced, from a position on. -/
def replaced (repl : Match → List α) (text : List α) : Nat → List Match → List α
  | pos, m :: ms =>
    (text.drop pos).take (m.start - pos) ++ repl m ++ replaced repl text m.stop ms
  | pos, [] => text.drop pos

/-- `sub`, for an expression that matches no empty text. -/
def sub (r : Regex α) (repl : Match → List α) (text : List α) : List α :=
  replaced repl text 0 (r.findAll text)

/-- `search`. -/
def search (r : Regex α) : List α → List α → Option Match
  | left, x :: rest =>
    match r.matchAt left (x :: rest) with
    | some m => some m
    | none => r.search (x :: left) rest
  | left, [] => r.matchAt left []

/-! ## What a matcher reads -/

theorem upTo_reads {turn : Cursor α → List (Cursor α)}
    (hturn : ∀ c, ∀ d ∈ turn c, ∃ w, c.Reads w d) (extra : Nat) :
    ∀ (c : Cursor α), ∀ d ∈ upTo turn extra c, ∃ w, c.Reads w d := by
  induction extra with
  | zero =>
    intro c d h
    rw [List.mem_singleton.mp h]
    exact ⟨[], .refl c⟩
  | succ extra ih =>
    intro c d h
    rcases List.mem_append.mp h with h | h
    · obtain ⟨e, he, hd⟩ := List.mem_flatMap.mp h
      obtain ⟨v, hv⟩ := hturn c e (List.mem_filter.mp he).1
      obtain ⟨w, hw⟩ := ih e d hd
      exact ⟨v ++ w, hv.trans hw⟩
    · rw [List.mem_singleton.mp h]
      exact ⟨[], .refl c⟩

theorem repeats_reads {turn : Cursor α → List (Cursor α)}
    (hturn : ∀ c, ∀ d ∈ turn c, ∃ w, c.Reads w d) (extra min : Nat) :
    ∀ (c : Cursor α), ∀ d ∈ repeats turn extra min c, ∃ w, c.Reads w d := by
  induction min with
  | zero => exact upTo_reads hturn extra
  | succ min ih =>
    intro c d h
    obtain ⟨e, he, hd⟩ := List.mem_flatMap.mp h
    obtain ⟨v, hv⟩ := hturn c e he
    obtain ⟨w, hw⟩ := ih e d hd
    exact ⟨v ++ w, hv.trans hw⟩

/-- Every way to match reads a part of the text. -/
theorem paths_reads (r : Regex α) : ∀ (c : Cursor α), ∀ d ∈ r.paths c, ∃ w, c.Reads w d := by
  induction r with
  | empty =>
    intro c d h
    rw [List.mem_singleton.mp h]
    exact ⟨[], .refl c⟩
  | symbol p =>
    intro c d h
    rw [paths] at h
    split at h
    · rename_i x rest hright
      split at h
      · rw [List.mem_singleton.mp h]
        exact ⟨[x], rfl, hright⟩
      · cases h
    · cases h
  | seq r s ihr ihs =>
    intro c d h
    obtain ⟨e, he, hd⟩ := List.mem_flatMap.mp h
    obtain ⟨v, hv⟩ := ihr c e he
    obtain ⟨w, hw⟩ := ihs e d hd
    exact ⟨v ++ w, hv.trans hw⟩
  | alt r s ihr ihs =>
    intro c d h
    rcases List.mem_append.mp h with h | h
    · exact ihr c d h
    · exact ihs c d h
  | many min extra r ih =>
    intro c d h
    exact repeats_reads ih _ _ c d h
  | group i r ih =>
    intro c d h
    obtain ⟨e, he, rfl⟩ := List.mem_map.mp h
    obtain ⟨w, hw⟩ := ih c e he
    exact ⟨w, hw.left, hw.right⟩
  | ahead r _ =>
    intro c d h
    rw [paths] at h
    split at h
    · cases h
    · rw [List.mem_singleton.mp h]
      exact ⟨[], .refl c⟩
  | notAhead r _ =>
    intro c d h
    rw [paths] at h
    split at h
    · rw [List.mem_singleton.mp h]
      exact ⟨[], .refl c⟩
    · cases h
  | notBehind p =>
    intro c d h
    rw [paths] at h
    split at h
    · cases h
    · rw [List.mem_singleton.mp h]
      exact ⟨[], .refl c⟩

/-- A match starts in the text that is searched. -/
theorem start_lt_of_mem_findFrom {r : Regex α} {m : Match} : ∀ {right left : List α} {skip : Nat},
    m ∈ r.findFrom skip left right → m.start < left.length + right.length := by
  intro right
  induction right with
  | nil =>
    intro left skip h
    cases skip with
    | zero => cases h
    | succ skip => cases h
  | cons x rest ih =>
    intro left skip h
    rw [List.length_cons]
    have hrest : ∀ {skip : Nat}, m ∈ r.findFrom skip (x :: left) rest →
        m.start < left.length + (rest.length + 1) := by
      intro skip hm
      have hlt := ih hm
      rw [List.length_cons] at hlt
      omega
    cases skip with
    | succ skip => exact hrest h
    | zero =>
      rw [findFrom] at h
      split at h
      · rename_i m' hm'
        rcases List.mem_cons.mp h with rfl | h
        · obtain ⟨d, -, rfl⟩ := Option.map_eq_some_iff.mp hm'
          show left.length < left.length + (rest.length + 1)
          omega
        · exact hrest h
      · exact hrest h

theorem start_lt_of_mem_findAll {r : Regex α} {text : List α} {m : Match}
    (h : m ∈ r.findAll text) : m.start < text.length := by
  simpa using start_lt_of_mem_findFrom h

end Regex

end Noezema.Lib
