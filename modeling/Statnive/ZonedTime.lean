import Mathlib.Algebra.Order.Group.Int
import Mathlib.Algebra.Order.Group.Unbundled.Abs
import Mathlib.Tactic.Common
import Statnive.CivilCalendar

/-!
# Time in zones

An instant is a number of seconds since 1970-01-01 00:00 in UTC. A zone says by how much its
clocks are ahead, which differs from instant to instant.
-/

namespace Statnive.ZonedTime

open CivilCalendar

structure Zone where
  offset : ℤ → ℤ
  lt_day : ∀ s, -86400 < offset s ∧ offset s < 86400

def utc : Zone := ⟨fun _ => 0, fun _ => by decide⟩

namespace Zone

variable (z : Zone)

/-- What a clock of the zone shows, in seconds since 1970-01-01 00:00 on that clock. -/
def reading (s : ℤ) : ℤ := s + z.offset s

def day (s : ℤ) : ℤ := z.reading s / 86400

def timeOfDay (s : ℤ) : ℤ := z.reading s % 86400

/-- The offset by which a reading is turned into an instant. A reading that the clocks show
twice or skip is turned by one of the two offsets around. -/
def offsetAt (r : ℤ) : ℤ := if z.offset r = 0 then 0 else z.offset (r - z.offset r)

/-- The instant of a date and a time of the day; the day may lie outside the month. -/
def date (year : ℤ) (month : ℕ) (day timeOfDay : ℤ) : ℤ :=
  let r := 86400 * dayNumber year month day + timeOfDay
  r - z.offsetAt r

/-- The same time of the day, some days later. -/
def addDays (s days : ℤ) : ℤ :=
  let today := civil (z.day s)
  z.date today.year today.month (today.day + days) (z.timeOfDay s)

variable {z}

theorem addDays_eq (s days : ℤ) :
    z.addDays s days =
      z.reading s + 86400 * days - z.offsetAt (z.reading s + 86400 * days) := by
  have hreading : 86400 * (z.day s + days) + z.timeOfDay s = z.reading s + 86400 * days := by
    simp only [day, timeOfDay]
    omega
  simp only [addDays, date, dayNumber_add, dayNumber_civil, hreading]

theorem offsetAt_lt_day (r : ℤ) : -86400 < z.offsetAt r ∧ z.offsetAt r < 86400 := by
  simp only [offsetAt]
  split_ifs
  · decide
  · exact z.lt_day _

/-- An instant is on the day `k` days later exactly when the time of the day, moved by what the
clocks show more than `k` days, stays within one day. -/
theorem day_eq_iff (s t k : ℤ) :
    z.day t = z.day s + k ↔
      0 ≤ z.timeOfDay s + (z.reading t - z.reading s - 86400 * k) ∧
        z.timeOfDay s + (z.reading t - z.reading s - 86400 * k) < 86400 := by
  simp only [day, timeOfDay]
  omega

end Zone

end Statnive.ZonedTime
