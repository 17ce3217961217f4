import Mathlib.Data.List.Perm.Basic

/-! # Codes that end themselves

A code ends itself where a text that begins with the code of a value says which value it is and
where its code stops. Such codes are put together, in pairs and in lists, and what is put together
can be taken apart again.
-/

namespace Noezema.Lib

variable {α β γ : Type*}

/-- The codes of the valid values end themselves. -/
structure SelfDelimiting (valid : α → Prop) (encode : α → List β) : Prop where
  split : ∀ a b r s, valid a → valid b → encode a ++ r = encode b ++ s → a = b ∧ r = s
  ne_nil : ∀ a, valid a → encode a ≠ []

/-- The symbols before the first terminator. -/
theorem append_terminator_inj {d : β} {l l' r s : List β} (hl : d ∉ l) (hl' : d ∉ l')
    (h : l ++ d :: r = l' ++ d :: s) : l = l' ∧ r = s := by
  induction l generalizing l' with
  | nil =>
    cases l' with
    | nil => exact ⟨rfl, (List.cons.inj h).2⟩
    | cons x l' => exact absurd ((List.cons.inj h).1 ▸ List.mem_cons_self) hl'
  | cons x l ih =>
    cases l' with
    | nil => exact absurd ((List.cons.inj h).1 ▸ List.mem_cons_self) hl
    | cons y l' =>
      obtain ⟨rfl, htail⟩ := List.cons.inj h
      obtain ⟨rfl, hrest⟩ := ih (List.not_mem_of_not_mem_cons hl)
        (List.not_mem_of_not_mem_cons hl') htail
      exact ⟨rfl, hrest⟩

section Combined

variable {valid : α → Prop} {valid' : γ → Prop} {encode : α → List β} {encode' : γ → List β}

/-- A terminator that no code contains. -/
theorem SelfDelimiting.terminated {d : β}
    (hinj : ∀ a b, valid a → valid b → encode a = encode b → a = b)
    (hd : ∀ a, valid a → d ∉ encode a) : SelfDelimiting valid fun a => encode a ++ [d] where
  split a b r s ha hb h := by
    simp only [List.append_assoc, List.singleton_append] at h
    obtain ⟨hcode, hrest⟩ := append_terminator_inj (hd a ha) (hd b hb) h
    exact ⟨hinj a b ha hb hcode, hrest⟩
  ne_nil a _ := by simp

theorem SelfDelimiting.prod (h : SelfDelimiting valid encode) (h' : SelfDelimiting valid' encode') :
    SelfDelimiting (fun p : α × γ => valid p.1 ∧ valid' p.2)
      fun p => encode p.1 ++ encode' p.2 where
  split p q r s hp hq heq := by
    simp only [List.append_assoc] at heq
    obtain ⟨hfst, hrest⟩ := h.split _ _ _ _ hp.1 hq.1 heq
    obtain ⟨hsnd, hend⟩ := h'.split _ _ _ _ hp.2 hq.2 hrest
    exact ⟨Prod.ext hfst hsnd, hend⟩
  ne_nil p hp hnil := h.ne_nil p.1 hp.1 (List.append_eq_nil_iff.mp hnil).1

/-- The code of what names a value. -/
theorem SelfDelimiting.comap (h : SelfDelimiting valid encode) {f : γ → α}
    (hf : Function.Injective f) : SelfDelimiting (fun c => valid (f c)) fun c => encode (f c) where
  split a b r s ha hb heq := by
    obtain ⟨hsame, hrest⟩ := h.split _ _ _ _ ha hb heq
    exact ⟨hf hsame, hrest⟩
  ne_nil a ha := h.ne_nil (f a) ha

/-- A list is read back from the codes of its elements. -/
theorem SelfDelimiting.flatMap_inj (h : SelfDelimiting valid encode) {l l' : List α}
    (hl : ∀ a ∈ l, valid a) (hl' : ∀ a ∈ l', valid a) (heq : l.flatMap encode = l'.flatMap encode) :
    l = l' := by
  induction l generalizing l' with
  | nil =>
    cases l' with
    | nil => rfl
    | cons b l' =>
      exact absurd (List.append_eq_nil_iff.mp heq.symm).1 (h.ne_nil b (hl' b List.mem_cons_self))
  | cons a l ih =>
    cases l' with
    | nil => exact absurd (List.append_eq_nil_iff.mp heq).1 (h.ne_nil a (hl a List.mem_cons_self))
    | cons b l' =>
      obtain ⟨ha, hrest⟩ := List.forall_mem_cons.mp hl
      obtain ⟨hb, hrest'⟩ := List.forall_mem_cons.mp hl'
      obtain ⟨rfl, htail⟩ := h.split a b _ _ ha hb heq
      rw [ih hrest hrest' htail]

end Combined

/-- Lists whose images are the same up to their order, where no image is of two elements. -/
theorem perm_of_map_perm {f : α → γ} {l l' : List α} (h : (l.map f).Perm (l'.map f))
    (hinj : ∀ a ∈ l, ∀ b ∈ l', f a = f b → a = b) : l.Perm l' := by
  induction l generalizing l' with
  | nil =>
    have hnil := h.length_eq
    rw [List.map_nil, List.length_nil, List.length_map] at hnil
    rw [List.length_eq_zero_iff.mp hnil.symm]
  | cons a l ih =>
    have hmem : f a ∈ l'.map f := h.subset List.mem_cons_self
    obtain ⟨b, hb, hfb⟩ := List.mem_map.mp hmem
    obtain rfl := hinj a List.mem_cons_self b hb hfb.symm
    obtain ⟨before, after, rfl⟩ := List.append_of_mem hb
    have hmiddle : (before ++ a :: after).Perm (a :: (before ++ after)) := List.perm_middle
    have hrest : (l.map f).Perm ((before ++ after).map f) :=
      (h.trans (hmiddle.map f)).cons_inv
    refine ((ih hrest fun x hx y hy => ?_).cons a).trans hmiddle.symm
    exact hinj x (List.mem_cons_of_mem a hx) y (hmiddle.symm.subset (List.mem_cons_of_mem a hy))

end Noezema.Lib
