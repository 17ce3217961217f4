import Mathlib.Data.List.Nodup

/-! # Unique matches

A lookup by a predicate that must hold of exactly one element of a list. `widen` is what
becomes of a lookup when the list it runs over changes and the element it found stays.
-/

namespace Noezema.Lib

variable {α : Type*}

/-- What a lookup finds; `many` carries the number of matches. -/
inductive Match (α : Type*) where
  | none
  | one (a : α)
  | many (n : Nat)
deriving DecidableEq, Repr

def uniqueMatch (p : α → Bool) (l : List α) : Match α :=
  match l.filter p with
  | [] => .none
  | [a] => .one a
  | a :: b :: rest => .many (a :: b :: rest).length

theorem uniqueMatch_one {p : α → Bool} {l : List α} {a : α}
    (h : uniqueMatch p l = .one a) : l.filter p = [a] := by
  unfold uniqueMatch at h
  split at h
  · cases h
  · rename_i b hb
    cases h
    exact hb
  · cases h

/-- In a list without duplicates a lookup finds the one element that matches. -/
theorem uniqueMatch_one_iff {p : α → Bool} {l : List α} (hl : l.Nodup) {a : α} :
    uniqueMatch p l = .one a ↔ a ∈ l ∧ p a ∧ ∀ b ∈ l, p b → b = a := by
  constructor
  · intro h
    have hf := uniqueMatch_one h
    have ha : a ∈ l.filter p := by
      rw [hf]
      exact List.mem_singleton_self a
    obtain ⟨hal, hpa⟩ := List.mem_filter.mp ha
    refine ⟨hal, hpa, fun b hb hpb => ?_⟩
    have hmem : b ∈ l.filter p := List.mem_filter.mpr ⟨hb, hpb⟩
    rw [hf] at hmem
    exact List.mem_singleton.mp hmem
  · intro ⟨hal, hpa, hall⟩
    have hf : l.filter p = [a] := by
      apply List.Perm.eq_singleton
      apply (List.perm_ext_iff_of_nodup (hl.filter p) (List.nodup_singleton a)).mpr
      intro b
      rw [List.mem_filter, List.mem_singleton]
      constructor
      · intro ⟨hb, hpb⟩
        exact hall b hb hpb
      · intro hb
        rw [hb]
        exact ⟨hal, hpa⟩
    unfold uniqueMatch
    rw [hf]

/-- **Another list.** A lookup that found an element finds it again in any list that has
it, unless another element of that list matches too. -/
theorem uniqueMatch_widen {p : α → Bool} {l l' : List α} (hl : l'.Nodup) {a : α}
    (h : uniqueMatch p l = .one a) (ha : a ∈ l') :
    (uniqueMatch p l' = .one a ∧ ∀ b ∈ l', p b → b = a) ∨
      ∃ n, uniqueMatch p l' = .many n ∧ ∃ b ∈ l', b ≠ a ∧ p b := by
  have hpa : p a := by
    have hmem : a ∈ l.filter p := by
      rw [uniqueMatch_one h]
      exact List.mem_singleton_self a
    exact (List.mem_filter.mp hmem).2
  by_cases hall : ∀ b ∈ l', p b → b = a
  · exact .inl ⟨(uniqueMatch_one_iff hl).mpr ⟨ha, hpa, hall⟩, hall⟩
  · have hother : ∃ b ∈ l', p b ∧ b ≠ a := by
      by_contra hno
      exact hall fun b hb hpb => by_contra fun hne => hno ⟨b, hb, hpb, hne⟩
    obtain ⟨b, hb, hpb, hne⟩ := hother
    have hfa : a ∈ l'.filter p := List.mem_filter.mpr ⟨ha, hpa⟩
    have hfb : b ∈ l'.filter p := List.mem_filter.mpr ⟨hb, hpb⟩
    unfold uniqueMatch
    split
    · rename_i hnil
      rw [hnil] at hfa
      cases hfa
    · rename_i c hc
      rw [hc] at hfa hfb
      rw [List.mem_singleton.mp hfa, List.mem_singleton.mp hfb] at hne
      exact absurd rfl hne
    · exact .inr ⟨_, rfl, b, hb, hne, hpb⟩

end Noezema.Lib
