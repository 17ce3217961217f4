import Mathlib.Logic.Relation
import Mathlib.Data.Finset.Card
import Mathlib.Data.Finset.Image

/-! # Counting classes

How many classes of a connection a finite set of elements falls into, and what
one more element or one more link does to that number.
-/

namespace Noezema.Lib

open Relation Classical

variable {α β γ : Type*}

/-- The number of classes of the connection generated by `r` that meet `s`. -/
noncomputable def classCount (r : α → α → Prop) (s : Finset α) : Nat :=
  (s.image (Quot.mk r)).card

/-- Two labellings that tell the same elements apart use equally many labels. -/
theorem card_image_eq_of_iff [DecidableEq β] [DecidableEq γ] {f : α → β} {g : α → γ}
    {s : Finset α} (h : ∀ a ∈ s, ∀ b ∈ s, f a = f b ↔ g a = g b) :
    (s.image f).card = (s.image g).card := by
  induction s using Finset.induction_on with
  | empty => simp
  | insert a s _ ih =>
    have hrest := ih fun x hx y hy =>
      h x (Finset.mem_insert_of_mem hx) y (Finset.mem_insert_of_mem hy)
    have hmem : f a ∈ s.image f ↔ g a ∈ s.image g := by
      simp only [Finset.mem_image]
      constructor
      · rintro ⟨b, hb, heq⟩
        exact ⟨b, hb, (h b (Finset.mem_insert_of_mem hb) a
          (Finset.mem_insert_self a s)).mp heq⟩
      · rintro ⟨b, hb, heq⟩
        exact ⟨b, hb, (h b (Finset.mem_insert_of_mem hb) a
          (Finset.mem_insert_self a s)).mpr heq⟩
    rw [Finset.image_insert, Finset.image_insert, Finset.card_insert_eq_ite,
      Finset.card_insert_eq_ite, hrest]
    simp only [hmem]

/-- A labelling by classes counts the classes. -/
theorem card_image_eq_classCount [DecidableEq β] {f : α → β} {r : α → α → Prop}
    {s : Finset α} (h : ∀ a ∈ s, ∀ b ∈ s, f a = f b ↔ EqvGen r a b) :
    (s.image f).card = classCount r s := by
  refine card_image_eq_of_iff fun a ha b hb => ?_
  rw [h a ha b hb]
  exact ⟨Quot.eqvGen_sound, Quot.eqvGen_exact⟩

/-- One more element is one more class, unless it is connected to the set. -/
theorem classCount_insert [DecidableEq α] (r : α → α → Prop) (a : α) (s : Finset α) :
    classCount r (insert a s) =
      classCount r s + if ∃ b ∈ s, EqvGen r a b then 0 else 1 := by
  have hmem : Quot.mk r a ∈ s.image (Quot.mk r) ↔ ∃ b ∈ s, EqvGen r a b := by
    simp only [Finset.mem_image]
    constructor
    · rintro ⟨b, hb, heq⟩
      exact ⟨b, hb, Quot.eqvGen_exact heq.symm⟩
    · rintro ⟨b, hb, hab⟩
      exact ⟨b, hb, (Quot.eqvGen_sound hab).symm⟩
  rw [classCount, Finset.image_insert, Finset.card_insert_eq_ite, classCount]
  by_cases h : ∃ b ∈ s, EqvGen r a b
  · rw [if_pos (hmem.mpr h), if_pos h]
    rfl
  · rw [if_neg (mt hmem.mp h), if_neg h]

/-- **When one more element adds no class**: it is connected to the set and the
set's own classes did not grow, or these became fewer. -/
theorem classCount_insert_le_iff [DecidableEq α] (r r' : α → α → Prop) (a : α) (s : Finset α) :
    classCount r' (insert a s) ≤ classCount r s ↔
      (∃ b ∈ s, EqvGen r' a b) ∧ classCount r' s ≤ classCount r s ∨
        classCount r' s < classCount r s := by
  rw [classCount_insert]
  split
  · rename_i h
    simp only [h, true_and, Nat.add_zero]
    omega
  · rename_i h
    simp only [h, false_and, false_or]
    omega

/-- More links, no more classes. -/
theorem classCount_mono {r r' : α → α → Prop} (s : Finset α)
    (h : ∀ a b, r a b → EqvGen r' a b) : classCount r' s ≤ classCount r s := by
  have hmap : s.image (Quot.mk r') =
      (s.image (Quot.mk r)).image (Quot.lift (Quot.mk r') fun a b hab =>
        Quot.eqvGen_sound (h a b hab)) := by
    rw [Finset.image_image]
    rfl
  rw [classCount, classCount, hmap]
  exact Finset.card_image_le

end Noezema.Lib
