import Mathlib.Tactic

/-! # Dates and times with and without an offset

A wall clock reading in microseconds since the epoch, and the offset of its clock from UTC.
A reading without an offset is naive; a reader may take it for UTC.
-/

namespace Noezema.Lib

structure Datetime where
  wall : Int
  offset : Option Int
deriving DecidableEq, Repr

namespace Datetime

/-- Microseconds of a day. -/
def dayLength : Int := 86400 * 1000000

/-- The calendar day that the clock shows. -/
def date (t : Datetime) : Int := t.wall / dayLength

/-- A naive reading taken for UTC; an aware one is kept. -/
def assumeUtc (t : Datetime) : Datetime := { t with offset := some (t.offset.getD 0) }

/-- Midnight UTC of a day. -/
def ofDay (day : Int) : Datetime := ⟨day * dayLength, some 0⟩

/-- The reading on a UTC clock, as a store with time zones gives it back. -/
def toUtc (t : Datetime) : Datetime := ⟨t.wall - t.offset.getD 0, some 0⟩

/-- Whole seconds that the clock shows. -/
def seconds (t : Datetime) : Int := t.wall / 1000000

def addDays (t : Datetime) (days : Nat) : Datetime := { t with wall := t.wall + days * dayLength }

@[simp] theorem assumeUtc_date (t : Datetime) : t.assumeUtc.date = t.date := rfl

@[simp] theorem assumeUtc_assumeUtc (t : Datetime) : t.assumeUtc.assumeUtc = t.assumeUtc := rfl

@[simp] theorem assumeUtc_ofDay (day : Int) : (ofDay day).assumeUtc = ofDay day := rfl

@[simp] theorem date_ofDay (day : Int) : (ofDay day).date = day :=
  Int.mul_ediv_cancel day (by decide)

@[simp] theorem assumeUtc_toUtc (t : Datetime) : t.toUtc.assumeUtc = t.toUtc := rfl

@[simp] theorem seconds_assumeUtc (t : Datetime) : t.assumeUtc.seconds = t.seconds := rfl

/-- The day by the seconds. -/
theorem seconds_ediv (t : Datetime) : t.seconds / 86400 = t.date := by
  rw [seconds, date, dayLength, Int.ediv_ediv_of_nonneg (by decide), mul_comm]

theorem seconds_ofDay (day : Int) : (ofDay day).seconds = day * 86400 := by
  rw [seconds, ofDay, dayLength, ← mul_assoc]
  exact Int.mul_ediv_cancel _ (by decide)

/-- What is on a UTC clock comes back as it is. -/
theorem toUtc_of_offset {t : Datetime} (h : t.offset = some 0) : t.toUtc = t := by
  obtain ⟨wall, offset⟩ := t
  obtain rfl : offset = some 0 := h
  simp [toUtc]

end Datetime

end Noezema.Lib
