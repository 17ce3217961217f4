import Mathlib

/-! # The symbols of the parts of a text

`String.splitOn` cuts a text at its separator. A part holds only symbols of the text, and so
does what is joined from parts, up to the symbols that join them.
-/

namespace Noezema.Lib

open String

theorem mem_of_mem_extractEnd {x : Char} {e : Pos.Raw} :
    ∀ {s : List Char} {i : Pos.Raw}, x ∈ Pos.Raw.extract.go₂ s i e → x ∈ s
  | [], _, h => by simp [Pos.Raw.extract.go₂] at h
  | c :: s, i, h => by
    unfold Pos.Raw.extract.go₂ at h
    split at h
    · cases h
    · rcases List.mem_cons.mp h with rfl | h
      · exact List.mem_cons_self
      · exact List.mem_cons_of_mem _ (mem_of_mem_extractEnd h)

theorem mem_of_mem_extractStart {x : Char} {b e : Pos.Raw} :
    ∀ {s : List Char} {i : Pos.Raw}, x ∈ Pos.Raw.extract.go₁ s i b e → x ∈ s
  | [], _, h => by simp [Pos.Raw.extract.go₁] at h
  | c :: s, i, h => by
    unfold Pos.Raw.extract.go₁ at h
    split at h
    · exact mem_of_mem_extractEnd h
    · exact List.mem_cons_of_mem _ (mem_of_mem_extractStart h)

theorem mem_of_mem_extract {x : Char} {s : String} {b e : Pos.Raw}
    (h : x ∈ (b.extract s e).toList) : x ∈ s.toList := by
  rw [Pos.Raw.extract] at h
  by_cases hempty : b.byteIdx ≥ e.byteIdx
  · rw [if_pos hempty] at h
    simp at h
  · rw [if_neg hempty, String.toList_ofList] at h
    exact mem_of_mem_extractStart h

theorem mem_of_mem_splitOnAux {x : Char} {w s sep : String} {b i j : Pos.Raw} {r : List String}
    (hr : ∀ v ∈ r, x ∈ v.toList → x ∈ s.toList) (hw : w ∈ splitOnAux s sep b i j r)
    (hx : x ∈ w.toList) : x ∈ s.toList := by
  have hpart : ∀ {r : List String}, (∀ v ∈ r, x ∈ v.toList → x ∈ s.toList) →
      ∀ (p e : Pos.Raw), ∀ v ∈ p.extract s e :: r, x ∈ v.toList → x ∈ s.toList := by
    intro r hr p e v hv hxv
    rcases List.mem_cons.mp hv with rfl | hv
    · exact mem_of_mem_extract hxv
    · exact hr v hv hxv
  induction b, i, j, r using splitOnAux.induct s sep with
  | case1 b i j r hend =>
    unfold splitOnAux at hw
    rw [if_pos hend] at hw
    exact hpart hr b i w (List.mem_reverse.mp hw) hx
  | case2 b i j r hend hsame i' j' hsep ih =>
    unfold splitOnAux at hw
    rw [if_neg hend, if_pos hsame] at hw
    dsimp only at hw
    rw [if_pos hsep] at hw
    exact ih (hpart hr _ _) hw
  | case3 b i j r hend hsame i' j' hsep ih =>
    unfold splitOnAux at hw
    rw [if_neg hend, if_pos hsame] at hw
    dsimp only at hw
    rw [if_neg hsep] at hw
    exact ih hr hw
  | case4 b i j r hend hsame ih =>
    unfold splitOnAux at hw
    rw [if_neg hend, if_neg hsame] at hw
    exact ih hr hw

theorem mem_of_mem_splitOn {x : Char} {w s sep : String} (hw : w ∈ s.splitOn sep)
    (hx : x ∈ w.toList) : x ∈ s.toList := by
  unfold splitOn at hw
  split at hw
  · rwa [← List.mem_singleton.mp hw]
  · exact mem_of_mem_splitOnAux (by simp) hw hx

theorem mem_of_mem_intersperse {α : Type*} {sep a : α} :
    ∀ {l : List α}, a ∈ l.intersperse sep → a = sep ∨ a ∈ l
  | [], h => .inr h
  | [_], h => .inr h
  | x :: y :: l, h => by
    rw [List.intersperse_cons_cons] at h
    rcases List.mem_cons.mp h with rfl | h
    · exact .inr List.mem_cons_self
    · rcases List.mem_cons.mp h with rfl | h
      · exact .inl rfl
      · exact (mem_of_mem_intersperse h).imp_right (List.mem_cons_of_mem _)

theorem mem_of_mem_intercalate {x : Char} {sep : String} {parts : List String}
    (h : x ∈ (sep.intercalate parts).toList) : x ∈ sep.toList ∨ ∃ w ∈ parts, x ∈ w.toList := by
  rw [String.toList_intercalate, List.intercalate] at h
  obtain ⟨part, hpart, hx⟩ := List.mem_flatten.mp h
  rcases mem_of_mem_intersperse hpart with rfl | hpart
  · exact .inl hx
  · obtain ⟨w, hw, rfl⟩ := List.mem_map.mp hpart
    exact .inr ⟨w, hw, hx⟩

end Noezema.Lib
