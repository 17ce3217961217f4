/-! # Computations with a trace

A computation that returns or raises, and the trace of what it did. What was done before a
raise stays in the trace, so a property of the trace is one of every run, ended well or not.
-/

namespace Noezema.Lib

/-- A trace, and the value or the error at its end. -/
structure Traced (ω ε α : Type) where
  trace : List ω
  result : Except ε α

namespace Traced

variable {ω ε α β : Type}

instance : Monad (Traced ω ε) where
  pure a := ⟨[], .ok a⟩
  bind x f := match x.result with
    | .ok a => ⟨x.trace ++ (f a).trace, (f a).result⟩
    | .error e => ⟨x.trace, .error e⟩

def emit (w : ω) : Traced ω ε Unit := ⟨[w], .ok ()⟩

/-- A computation without a trace. -/
def lift (x : Except ε α) : Traced ω ε α := ⟨[], x⟩

def raise (e : ε) : Traced ω ε α := lift (.error e)

@[simp] theorem trace_lift (x : Except ε α) : (lift x : Traced ω ε α).trace = [] := rfl

@[simp] theorem result_lift (x : Except ε α) : (lift x : Traced ω ε α).result = x := rfl

@[simp] theorem trace_raise (e : ε) : (raise e : Traced ω ε α).trace = [] := rfl

@[simp] theorem trace_pure (a : α) : (pure a : Traced ω ε α).trace = [] := rfl

@[simp] theorem trace_emit (w : ω) : (emit w : Traced ω ε Unit).trace = [w] := rfl

theorem bind_of_ok {x : Traced ω ε α} {a : α} (hx : x.result = .ok a)
    (f : α → Traced ω ε β) : x >>= f = ⟨x.trace ++ (f a).trace, (f a).result⟩ := by
  obtain ⟨trace, result⟩ := x
  cases hx
  rfl

theorem bind_of_error {x : Traced ω ε α} {e : ε} (hx : x.result = .error e)
    (f : α → Traced ω ε β) : x >>= f = ⟨x.trace, .error e⟩ := by
  obtain ⟨trace, result⟩ := x
  cases hx
  rfl

/-- A sequence returns by its parts. -/
theorem result_bind {x : Traced ω ε α} {f : α → Traced ω ε β} {b : β} :
    (x >>= f).result = .ok b ↔ ∃ a, x.result = .ok a ∧ (f a).result = .ok b := by
  cases hr : x.result with
  | ok a => simp [bind_of_ok hr]
  | error e => simp [bind_of_error hr]

/-- The trace of a sequence: that of the first part, and where this has returned, with that of
the second behind it. -/
theorem trace_bind {P : List ω → Prop} {x : Traced ω ε α} {f : α → Traced ω ε β}
    (hx : P x.trace) (hf : ∀ a, x.result = .ok a → P (x.trace ++ (f a).trace)) :
    P (x >>= f).trace := by
  cases hr : x.result with
  | ok a =>
    rw [bind_of_ok hr]
    exact hf a hr
  | error e =>
    rw [bind_of_error hr]
    exact hx

/-- A loop that has returned has done every one of its turns. -/
theorem mem_trace_forM {f : α → Traced ω ε PUnit} {as : List α} {u : PUnit}
    (h : (as.forM f).result = .ok u) {a : α} (ha : a ∈ as) :
    (∃ u, (f a).result = .ok u) ∧ ∀ w ∈ (f a).trace, w ∈ (as.forM f).trace := by
  induction as with
  | nil => cases ha
  | cons b as ih =>
    have hloop : (b :: as).forM f = f b >>= fun _ => as.forM f := rfl
    cases hb : (f b).result with
    | error e =>
      rw [hloop, bind_of_error hb] at h
      cases h
    | ok v =>
      rw [hloop, bind_of_ok hb] at h ⊢
      rcases List.mem_cons.mp ha with rfl | ha
      · exact ⟨⟨v, hb⟩, fun w hw => List.mem_append_left _ hw⟩
      · obtain ⟨hresult, htrace⟩ := ih h ha
        exact ⟨hresult, fun w hw => List.mem_append_right _ (htrace w hw)⟩

/-- A property of traces that holds of nothing done and of two in a row. -/
structure Closed (P : List ω → Prop) : Prop where
  nil : P []
  append : ∀ {l l'}, P l → P l' → P (l ++ l')

namespace Closed

variable {P : List ω → Prop} (h : Closed P)
include h

/-- The rule of a sequence: the second part counts where the first has returned. -/
theorem bind {x : Traced ω ε α} {f : α → Traced ω ε β} (hx : P x.trace)
    (hf : ∀ a, x.result = .ok a → P (f a).trace) : P (x >>= f).trace :=
  trace_bind hx fun a ha => h.append hx (hf a ha)

/-- The rule of a loop without a state. -/
theorem forM {f : α → Traced ω ε PUnit} {as : List α} (hf : ∀ a ∈ as, P (f a).trace) :
    P (as.forM f).trace := by
  induction as with
  | nil => exact h.nil
  | cons a as ih =>
    refine h.bind (hf a List.mem_cons_self) fun _ _ => ?_
    exact ih fun a ha => hf a (List.mem_cons_of_mem _ ha)

end Closed

end Traced

end Noezema.Lib
