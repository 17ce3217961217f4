import Mathlib.Logic.Relation

/-! # Runs of a transition system

A system is a partial step function `step : σ → ε → Option σ`: `none` is an
event the state does not enable. Every safety result of this development is an
invariant of the runs defined here; the induction is done once, in
`Run.invariant`. The `guard` restricts which enabled steps a run may take, so
that a result about the runs whose steps all meet a condition is stated with the
same relation.
-/

namespace Noezema.Lib

variable {σ ε : Type*}

/-- Runs of `step` whose every step meets `guard` in the state it leaves. -/
inductive Run (step : σ → ε → Option σ) (guard : σ → ε → Prop) (s : σ) :
    σ → Prop where
  | nil : Run step guard s s
  | snoc {t u : σ} {e : ε} : Run step guard s t → guard t e →
      step t e = some u → Run step guard s u

/-- The guard every step meets. -/
def anyStep : σ → ε → Prop := fun _ _ => True

/-- A list of events, taken left to right; a disabled event stops the run. -/
def exec (step : σ → ε → Option σ) : σ → List ε → Option σ
  | s, [] => some s
  | s, e :: es => (step s e).bind fun t => exec step t es

variable {step : σ → ε → Option σ} {guard : σ → ε → Prop}

/-- **The induction rule.** What holds at the start and is kept by every guarded
step holds in every state a run reaches. -/
theorem Run.invariant {s t : σ} {I : σ → Prop} (h : Run step guard s t)
    (start : I s)
    (keep : ∀ {a b : σ} {e : ε}, I a → guard a e → step a e = some b → I b) :
    I t := by
  induction h with
  | nil => exact start
  | snoc _ hg hs ih => exact keep ih hg hs

theorem Run.trans {s t u : σ} (h : Run step guard s t) (k : Run step guard t u) :
    Run step guard s u := by
  induction k with
  | nil => exact h
  | snoc _ hg hs ih => exact .snoc ih hg hs

theorem Run.mono {guard' : σ → ε → Prop} {s t : σ} (h : Run step guard s t)
    (hw : ∀ a e, guard a e → guard' a e) : Run step guard' s t := by
  induction h with
  | nil => exact .nil
  | snoc _ hg hs ih => exact .snoc ih (hw _ _ hg) hs

/-- An executed list of events that always meet the guard is a guarded run. -/
theorem Run.of_exec_guarded {s t : σ} (es : List ε) (h : exec step s es = some t)
    (hg : ∀ e ∈ es, ∀ a, guard a e) : Run step guard s t := by
  induction es generalizing s with
  | nil =>
    cases h
    exact .nil
  | cons e es ih =>
    obtain ⟨m, hm, hr⟩ := Option.bind_eq_some_iff.mp h
    have hrest := ih hr fun e' he' => hg e' (List.mem_cons_of_mem e he')
    exact (Run.snoc .nil (hg e List.mem_cons_self s) hm).trans hrest

/-- An executed event list is an unguarded run. -/
theorem Run.of_exec {s t : σ} (es : List ε) (h : exec step s es = some t) :
    Run step anyStep s t :=
  Run.of_exec_guarded es h fun _ _ _ => trivial

/-- A list of events, each of which meets the guard in its state. -/
def execGuarded (step : σ → ε → Option σ) (ok : σ → ε → Bool) : σ → List ε → Option σ
  | s, [] => some s
  | s, e :: es => if ok s e then (step s e).bind fun t => execGuarded step ok t es else none

theorem Run.of_execGuarded {ok : σ → ε → Bool} {s t : σ} (es : List ε)
    (h : execGuarded step ok s es = some t) : Run step (fun s e => ok s e) s t := by
  induction es generalizing s with
  | nil =>
    cases h
    exact .nil
  | cons e es ih =>
    simp only [execGuarded] at h
    split at h
    · rename_i hok
      obtain ⟨m, hm, hr⟩ := Option.bind_eq_some_iff.mp h
      have hfirst : Run step (fun s e => ok s e) s m := .snoc .nil hok hm
      exact hfirst.trans (ih hr)
    · cases h

end Noezema.Lib
