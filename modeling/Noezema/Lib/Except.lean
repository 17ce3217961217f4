import Mathlib.Data.List.Forall2

/-! # Computations that may raise

Simp rules for `Except` programs written with `do`: what a bind does to a value and
to a raised error.
-/

namespace Noezema.Lib

variable {ε α β : Type _}

@[simp] theorem ok_bind (a : α) (f : α → Except ε β) :
    ((Except.ok a : Except ε α) >>= f) = f a := rfl

@[simp] theorem error_bind (e : ε) (f : α → Except ε β) :
    ((Except.error e : Except ε α) >>= f) = .error e := rfl

@[simp] theorem throw_eq_error (e : ε) : (throw e : Except ε α) = .error e := rfl

@[simp] theorem pure_eq_ok (a : α) : (pure a : Except ε α) = .ok a := rfl

/-- A computation succeeds by its parts. -/
theorem bind_eq_ok {x : Except ε α} {f : α → Except ε β} {b : β} :
    x >>= f = .ok b ↔ ∃ a, x = .ok a ∧ f a = .ok b := by
  cases x with
  | error e => simp
  | ok a => simp

/-- A computation fails by one of its parts. -/
theorem bind_eq_error {x : Except ε α} {f : α → Except ε β} {e : ε} :
    x >>= f = .error e ↔ x = .error e ∨ ∃ a, x = .ok a ∧ f a = .error e := by
  cases x with
  | error e => simp
  | ok a => simp

/-- A computation succeeds with what its first part promises to the rest. -/
theorem bind_ok_of {x : Except ε α} {f : α → Except ε β} {P : α → Prop} {Q : β → Prop}
    (hx : ∃ a, x = .ok a ∧ P a) (hf : ∀ a, P a → ∃ b, f a = .ok b ∧ Q b) :
    ∃ b, x >>= f = .ok b ∧ Q b := by
  obtain ⟨a, rfl, ha⟩ := hx
  exact hf a ha

/-- A computation fails with its rest when its first part succeeds. -/
theorem bind_error_of {x : Except ε α} {f : α → Except ε β} {P : α → Prop} {e : ε}
    (hx : ∃ a, x = .ok a ∧ P a) (hf : ∀ a, f a = .error e) : x >>= f = .error e := by
  obtain ⟨a, rfl, -⟩ := hx
  exact hf a

theorem map_eq_ok {f : α → β} {x : Except ε α} {b : β} :
    x.map f = .ok b ↔ ∃ a, x = .ok a ∧ f a = b := by
  cases x with
  | error e => simp [Except.map]
  | ok a => simp [Except.map]

theorem mapError_eq_ok {ε' : Type _} {f : ε → ε'} {x : Except ε α} {a : α} :
    x.mapError f = .ok a ↔ x = .ok a := by
  cases x with
  | error e =>
    constructor
    · intro h
      cases h
    · intro h
      cases h
  | ok b =>
    constructor
    · intro h
      cases h
      rfl
    · intro h
      cases h
      rfl

/-- Raise the error unless the condition holds. -/
def require (p : Prop) [Decidable p] (e : ε) : Except ε Unit :=
  if p then .ok () else .error e

@[simp] theorem require_eq_ok {p : Prop} [Decidable p] {e : ε} {u : Unit} :
    require p e = .ok u ↔ p := by
  unfold require
  split
  · simp [*]
  · simp [*]

@[simp] theorem require_eq_error {p : Prop} [Decidable p] {e e' : ε} :
    require p e = .error e' ↔ ¬ p ∧ e = e' := by
  unfold require
  split
  · simp [*]
  · simp [*]

/-- A pass that raises nothing: each value comes from an element, and each element has
its value. -/
theorem mapM_eq_ok {f : α → Except ε β} {as : List α} {bs : List β} (h : as.mapM f = .ok bs) :
    (∀ b ∈ bs, ∃ a ∈ as, f a = .ok b) ∧ ∀ a ∈ as, ∃ b ∈ bs, f a = .ok b := by
  induction as generalizing bs with
  | nil =>
    cases h
    simp
  | cons a as ih =>
    rw [List.mapM_cons] at h
    obtain ⟨b, hb, h⟩ := bind_eq_ok.mp h
    obtain ⟨bs', hbs, h⟩ := bind_eq_ok.mp h
    cases h
    obtain ⟨hfrom, hinto⟩ := ih hbs
    constructor
    · intro x hx
      rcases List.mem_cons.mp hx with rfl | hx
      · exact ⟨a, by simp, hb⟩
      · obtain ⟨y, hy, hok⟩ := hfrom x hx
        exact ⟨y, List.mem_cons_of_mem a hy, hok⟩
    · intro x hx
      rcases List.mem_cons.mp hx with rfl | hx
      · exact ⟨b, by simp, hb⟩
      · obtain ⟨y, hy, hok⟩ := hinto x hx
        exact ⟨y, List.mem_cons_of_mem b hy, hok⟩

/-- A pass that raises nothing: the values stand in the order of the elements. -/
theorem mapM_forall₂ {f : α → Except ε β} {as : List α} {bs : List β} (h : as.mapM f = .ok bs) :
    List.Forall₂ (fun a b => f a = .ok b) as bs := by
  induction as generalizing bs with
  | nil =>
    cases h
    exact .nil
  | cons a as ih =>
    rw [List.mapM_cons] at h
    obtain ⟨b, hb, h⟩ := bind_eq_ok.mp h
    obtain ⟨bs', hbs, h⟩ := bind_eq_ok.mp h
    cases h
    exact .cons hb (ih hbs)

/-- A pass raises nothing exactly when no element does. -/
theorem mapM_ok_iff {f : α → Except ε β} {as : List α} :
    (∃ bs, as.mapM f = .ok bs) ↔ ∀ a ∈ as, ∃ b, f a = .ok b := by
  constructor
  · rintro ⟨bs, h⟩ a ha
    obtain ⟨b, -, hb⟩ := (mapM_eq_ok h).2 a ha
    exact ⟨b, hb⟩
  · intro h
    induction as with
    | nil => exact ⟨[], rfl⟩
    | cons a as ih =>
      obtain ⟨b, hb⟩ := h a List.mem_cons_self
      obtain ⟨bs, hbs⟩ := ih fun a ha => h a (List.mem_cons_of_mem _ ha)
      exact ⟨b :: bs, by rw [List.mapM_cons, hb, hbs]; rfl⟩

/-- A loop whose steps raise at some elements, whatever was accumulated, raises nothing
exactly when it meets none of them. -/
theorem foldlM_ok_iff {f : β → α → Except ε β} {P : α → Prop}
    (hstep : ∀ b a, (∃ b', f b a = .ok b') ↔ P a) {as : List α} {b : β} :
    (∃ b', as.foldlM f b = .ok b') ↔ ∀ a ∈ as, P a := by
  induction as generalizing b with
  | nil => simp
  | cons a as ih =>
    rw [List.foldlM_cons, List.forall_mem_cons]
    constructor
    · rintro ⟨b', h⟩
      obtain ⟨b₁, hb₁, h⟩ := bind_eq_ok.mp h
      exact ⟨(hstep b a).mp ⟨b₁, hb₁⟩, ih.mp ⟨b', h⟩⟩
    · rintro ⟨ha, has⟩
      obtain ⟨b₁, hb₁⟩ := (hstep b a).mpr ha
      obtain ⟨b', h⟩ := (ih (b := b₁)).mpr has
      exact ⟨b', bind_eq_ok.mpr ⟨b₁, hb₁, h⟩⟩

end Noezema.Lib
