import Mathlib.Data.List.Sort
import Noezema.Lib.Run

/-! # Waiting in a ranked queue

What a waiting entry can lose. Entries have ranks, and an entry waits behind those of a smaller
rank. A run that takes entries from the front is bounded by the place of an entry in the queue and
by what arrives before it: its place is the potential that every turn is paid from.
-/

namespace Noezema.Lib

variable {σ ε α κ : Type*}

/-! ## Costs along a run -/

/-- What the events of a list cost together, each in the state it is taken in. -/
def total (step : σ → ε → Option σ) (cost : σ → ε → Nat) : σ → List ε → Nat
  | _, [] => 0
  | s, e :: es => cost s e + (step s e).elim 0 fun t => total step cost t es

section Place

variable [LinearOrder κ] (rank : α → κ)

/-- How many entries of a list come before a rank. -/
def ahead (l : List α) (k : κ) : Nat := l.countP fun a => rank a < k

variable {rank}

end Place

end Noezema.Lib
