import Statnive.DashboardSignals
import Statnive.SaltRotation
import Statnive.TimeWindow

/-!
# The presets of the date picker

The picker writes the dates of a preset in UTC+3:30, and the server reads them in the zone of the
site. The tools count the same number of days back from the end of the day of the site.
-/

namespace Statnive.RangePresets

open CivilCalendar DashboardFilter DashboardSignals TimeWindow UnicodeText ZonedTime
open SaltRotation (timezones locationFor)

inductive DatePreset where
  | today
  | yesterday
  | last7
  | last30
  | last90
  | custom
  deriving DecidableEq

def presetToRange (nowMs : ℤ) : DatePreset → DashboardSignals.Range
  | .today => ⟨daysAgoIRST nowMs 0, daysAgoIRST nowMs (-1)⟩
  | .yesterday => ⟨daysAgoIRST nowMs 1, daysAgoIRST nowMs 0⟩
  | .last7 => ⟨daysAgoIRST nowMs 7, daysAgoIRST nowMs (-1)⟩
  | .last30 => ⟨daysAgoIRST nowMs 30, daysAgoIRST nowMs (-1)⟩
  | .last90 => ⟨daysAgoIRST nowMs 90, daysAgoIRST nowMs (-1)⟩
  | .custom => defaultRange nowMs

/-- The days that end with the present one, for a preset whose label says how many. -/
def DatePreset.days : DatePreset → Option ℕ
  | .today => some 1
  | .last7 => some 7
  | .last30 => some 30
  | .last90 => some 90
  | .yesterday | .custom => none

/-- The range of as many days in the tools. -/
def token (n : ℕ) : String := toString n ++ "d"

/-- `Date.now()` has whole milliseconds. -/
def millisecond : ℤ := 1000000

/-- What the server makes of the dates of the picker. -/
def pickedRange (loc : Zone) (p : DatePreset) (now : ℤ) : Except RangeError (ℤ × ℤ) :=
  let r := presetToRange (now / millisecond) p
  parseDateRange loc (fromUnits r.fromDay) (fromUnits r.toDay) now

/-- The dates of the preset, the token of its days and, if these are seven, no dates at all stand
for one interval, and the instant is in it. -/
def Agrees (loc : Zone) (p : DatePreset) (n : ℕ) (now : ℤ) : Prop :=
  ∃ start stop, pickedRange loc p now = .ok (start, stop) ∧
    parseRange loc (token n) now = .ok (start, stop) ∧
    (n = 7 → parseDateRange loc "" "" now = .ok (start, stop)) ∧ start ≤ now ∧ now < stop

/-- The date in UTC+3:30. -/
def irstDay (now : ℤ) : ℤ := (now / second + 12600) / 86400

private theorem daysAgoIRST_eq (now days : ℤ) :
    daysAgoIRST (now / millisecond) days = toCodeUnits (civil (irstDay now - days)).format := by
  have hday : (now / millisecond + irstOffset - days * dayMs) / dayMs = irstDay now - days := by
    simp only [irstDay, millisecond, second, irstOffset, dayMs]
    omega
  rw [daysAgoIRST, hday]

theorem midnight_civil (loc : Zone) (n : ℤ) :
    midnight loc (civil n) = 86400 * n - loc.offsetAt (86400 * n) := by
  simp only [midnight, Zone.date, dayNumber_civil, add_zero]

theorem format_ne_empty (date : Date) : date.format ≠ "" := by
  intro h
  have hchars := congrArg String.toList h
  simp [Date.format] at hchars

theorem parseLocalDate_format (loc : Zone) {n : ℤ} (hfirst : -unixEpoch ≤ n) (hlast : n ≤ lastDay) :
    parseLocalDate loc (civil n).format = .ok (midnight loc (civil n) * second) := by
  rw [parseLocalDate, if_neg (format_ne_empty _), parseDate_format hfirst hlast]

private theorem parseLocalDate_format_of_lt (loc : Zone) {n : ℤ} (hlast : lastDay < n) :
    parseLocalDate loc (civil n).format = .error (.notDate (civil n).format) := by
  rw [parseLocalDate, if_neg (format_ne_empty _), parseDate_format_of_lt hlast]

/-- No date from 1969 on is the zero time. -/
theorem midnight_ne_zeroTime (loc : Zone) {n : ℤ} (hn : -365 ≤ n) :
    midnight loc (civil n) * second ≠ zeroTime := by
  have hoffset := loc.offsetAt_lt_day (86400 * n)
  rw [midnight_civil]
  simp only [second, zeroTime, unixEpoch, day, hour, minute]
  omega

private theorem parseDateRange_formats
    (loc : Zone) {m n : ℤ} (now : ℤ) (hm : -365 ≤ m) (hmn : m ≤ n)
    (hn : n ≤ lastDay) : parseDateRange loc (civil m).format (civil n).format now =
      .ok (midnight loc (civil m) * second, midnight loc (civil n) * second) := by
  have hepoch : -unixEpoch ≤ m := le_trans (by decide) hm
  have hfrom := parseLocalDate_format loc hepoch (hmn.trans hn)
  have hto := parseLocalDate_format loc (hepoch.trans hmn) hn
  rw [parseDateRange, hfrom, hto]
  change Except.ok (ite _ _ _, ite _ _ _) = _
  rw [if_neg (midnight_ne_zeroTime loc hm), if_neg (midnight_ne_zeroTime loc (hm.trans hmn))]

variable {p : DatePreset} {n : ℕ}

theorem days_cases (h : p.days = some n) :
    p = .today ∧ n = 1 ∨ p = .last7 ∧ n = 7 ∨ p = .last30 ∧ n = 30 ∨ p = .last90 ∧ n = 90 := by
  cases p <;> simp_all [DatePreset.days]

/-- How many days before the present one the dates of a preset begin. -/
def daysBack (n : ℕ) : ℤ := if n = 1 then 0 else n

theorem pickedRange_eq (loc : Zone) (h : p.days = some n) (now : ℤ) :
    pickedRange loc p now = parseDateRange loc (civil (irstDay now - daysBack n)).format
      (civil (irstDay now + 1)).format now := by
  have hpreset : presetToRange (now / millisecond) p =
      ⟨toCodeUnits (civil (irstDay now - daysBack n)).format,
        toCodeUnits (civil (irstDay now + 1)).format⟩ := by
    obtain ⟨rfl, rfl⟩ | ⟨rfl, rfl⟩ | ⟨rfl, rfl⟩ | ⟨rfl, rfl⟩ := days_cases h <;>
      simp [presetToRange, daysAgoIRST_eq, daysBack]
  simp only [pickedRange, hpreset, fromUnits_toCodeUnits]

/-- The dates are refused from the last day of the year 9999 on. -/
theorem pickedRange_of_lt (loc : Zone) (h : p.days = some n) {now : ℤ}
    (hlast : lastDay ≤ irstDay now) : ∃ e, pickedRange loc p now = .error e := by
  have hto := parseLocalDate_format_of_lt loc (Int.lt_add_one_of_le hlast)
  rw [pickedRange_eq loc h, parseDateRange, hto]
  exact ⟨_, rfl⟩

private theorem irstDay_nonneg (now : ℕ) : 0 ≤ irstDay now := by
  simp only [irstDay, second]
  omega

theorem pickedRange_of_le (loc : Zone) (h : p.days = some n) {now : ℕ}
    (hlast : irstDay now < lastDay) : pickedRange loc p now =
      .ok (midnight loc (civil (irstDay now - daysBack n)) * second,
        midnight loc (civil (irstDay now + 1)) * second) := by
  have hday := irstDay_nonneg now
  have hback : 0 ≤ daysBack n ∧ daysBack n ≤ 90 := by
    obtain ⟨rfl, rfl⟩ | ⟨rfl, rfl⟩ | ⟨rfl, rfl⟩ | ⟨rfl, rfl⟩ := days_cases h <;> decide
  rw [pickedRange_eq loc h]
  exact parseDateRange_formats loc now (by omega) (by omega) (by omega)

/-- The end of the day of the site. -/
def dayEnd (loc : Zone) (s : ℤ) : ℤ := loc.addDays (midnight loc (civil (loc.day s))) 1

theorem addDays_mul_second (loc : Zone) (s days : ℤ) :
    TimeWindow.addDays loc (s * second) days = loc.addDays s days * second := by
  rw [TimeWindow.addDays, Int.mul_ediv_cancel s (by decide)]

private theorem parseRange_token (loc : Zone) (h : p.days = some n) (now : ℤ) :
    parseRange loc (token n) now =
      .ok (loc.addDays (dayEnd loc (now / second)) (-n) * second,
        dayEnd loc (now / second) * second) := by
  have hrange : parseRange loc (token n) now =
      .ok (TimeWindow.addDays loc (TimeWindow.addDays loc (startOfLocalDay loc now) 1) (-n),
        TimeWindow.addDays loc (startOfLocalDay loc now) 1) := by
    obtain ⟨rfl, rfl⟩ | ⟨rfl, rfl⟩ | ⟨rfl, rfl⟩ | ⟨rfl, rfl⟩ := days_cases h <;> rfl
  rw [hrange, startOfLocalDay, addDays_mul_second, addDays_mul_second, dayEnd]

/-- The offsets of the zone lie within half a day of each other. -/
def Steady (z : Zone) : Prop := ∀ s t, z.offset s - z.offset t < 43200

/-- Adding a day to the midnight of the day gives the next midnight, from which taking a day away
leads back, and the instant lies between the two. -/
structure PlainDay (z : Zone) (s : ℤ) : Prop where
  next : dayEnd z s = midnight z (civil (z.day s + 1))
  back : z.addDays (midnight z (civil (z.day s + 1))) (-1) = midnight z (civil (z.day s))
  start_le : midnight z (civil (z.day s)) ≤ s
  lt_stop : s < midnight z (civil (z.day s + 1))

variable {z : Zone}

theorem exists_offsetAt (z : Zone) (r : ℤ) : ∃ s, z.offsetAt r = z.offset s := by
  by_cases h : z.offset r = 0
  · exact ⟨r, by rw [Zone.offsetAt, if_pos h, h]⟩
  · exact ⟨r - z.offset r, by rw [Zone.offsetAt, if_neg h]⟩

/-- Days later than a midnight is within a day of the midnight of that day. -/
theorem Steady.addDays_midnight (hz : Steady z) (m k n : ℤ) :
    -86400 < z.addDays (midnight z (civil m)) k - midnight z (civil n) - 86400 * (m + k - n) ∧
      z.addDays (midnight z (civil m)) k - midnight z (civil n) - 86400 * (m + k - n) < 86400 := by
  rw [Zone.addDays_eq, Zone.reading, midnight_civil, midnight_civil]
  obtain ⟨s₁, h₁⟩ := exists_offsetAt z (86400 * m)
  obtain ⟨s₂, h₂⟩ := exists_offsetAt z (86400 * n)
  rw [h₁, h₂]
  obtain ⟨s₃, h₃⟩ := exists_offsetAt z
    (86400 * m - z.offset s₁ + z.offset (86400 * m - z.offset s₁) + 86400 * k)
  rw [h₃]
  have hstart := hz s₁ (86400 * m - z.offset s₁)
  have hstart' := hz (86400 * m - z.offset s₁) s₁
  have hstop := hz s₂ s₃
  have hstop' := hz s₃ s₂
  omega

/-- The two surfaces end the range together only where the dates are the same. -/
theorem Steady.day_eq (hz : Steady z) {s n : ℤ}
    (h : dayEnd z s = midnight z (civil (n + 1))) : z.day s = n := by
  have hshift := hz.addDays_midnight (z.day s) 1 (n + 1)
  rw [dayEnd] at h
  omega

/-- As many days back from the end of the day is later than the midnight that many days ago. -/
theorem Steady.midnight_lt (hz : Steady z) (n k : ℤ) :
    midnight z (civil (n - k)) < z.addDays (midnight z (civil (n + 1))) (-k) := by
  have hshift := hz.addDays_midnight (n + 1) (-k) (n - k)
  omega

theorem steady_utc : Steady utc := fun _ _ => show (0 : ℤ) - 0 < 43200 by decide

private theorem steady_locationFor {loadLocation : String → Option Zone}
    (hdb : ∀ name ∈ timezones, ∀ z, loadLocation name = some z → Steady z) (iana : String) :
    Steady (locationFor loadLocation iana) := by
  simp only [locationFor]
  split_ifs with hname
  · cases hload : loadLocation iana with
    | none => exact steady_utc
    | some z => exact hdb iana (List.contains_iff_mem.mp hname) z hload
  · exact steady_utc

/-- For any zone of the list, any instant and any preset with a number of days: the dates of the
preset and the token of its days stand for one interval with the instant in it exactly when the
preset is that of the present day, the day of the site is a plain one that is also the day in
UTC+3:30, and dates are still written in four digits of a year. -/
theorem agrees_iff {loadLocation : String → Option Zone}
    (hdb : ∀ name ∈ timezones, ∀ z, loadLocation name = some z → Steady z) (iana : String)
    (h : p.days = some n) (now : ℕ) :
    Agrees (locationFor loadLocation iana) p n now ↔
      n = 1 ∧ irstDay now < lastDay ∧
        (locationFor loadLocation iana).day (now / second) = irstDay now ∧
        PlainDay (locationFor loadLocation iana) (now / second) := by
  have hz := steady_locationFor hdb iana
  generalize locationFor loadLocation iana = z at hz
  have hrange := parseRange_token z h now
  have hsecond : (second : ℤ) ≠ 0 := by decide
  constructor
  · rintro ⟨start, stop, hpicked, htool, -, hstart, hstop⟩
    have hlast : irstDay now < lastDay := by
      by_contra hnot
      obtain ⟨e, he⟩ := pickedRange_of_lt z h (not_lt.mp hnot)
      exact absurd (he.symm.trans hpicked) (by simp)
    rw [pickedRange_of_le z h hlast] at hpicked
    rw [hrange] at htool
    obtain ⟨rfl, rfl⟩ := Prod.mk.inj (Except.ok.inj hpicked)
    obtain ⟨hfrom, hto⟩ := Prod.mk.inj (Except.ok.inj htool)
    have hend := Int.eq_of_mul_eq_mul_right hsecond hto
    have hback := Int.eq_of_mul_eq_mul_right hsecond hfrom
    have hday := hz.day_eq hend
    rw [hend] at hback
    have hn : n = 1 := by
      by_contra hne
      rw [daysBack, if_neg hne] at hback
      exact (hz.midnight_lt (irstDay now) n).ne' hback
    subst hn
    rw [daysBack, if_pos rfl, sub_zero] at hback hstart
    refine ⟨rfl, hlast, hday, ?_, ?_, ?_, ?_⟩
    · rw [hend, hday]
    · rw [hday]
      exact hback
    · rw [hday]
      exact (Int.le_ediv_iff_mul_le (by decide)).mpr hstart
    · rw [hday]
      exact Int.ediv_lt_of_lt_mul (by decide) hstop
  · rintro ⟨rfl, hlast, hday, hplain⟩
    have hpicked := pickedRange_of_le z h hlast
    rw [daysBack, if_pos rfl, sub_zero, ← hday] at hpicked
    rw [hplain.next] at hrange
    refine ⟨_, _, hpicked, ?_, by simp, ?_, ?_⟩
    · rw [hrange]
      congr 2
      exact congrArg (· * second) hplain.back
    · exact (Int.le_ediv_iff_mul_le (by decide)).mp hplain.start_le
    · exact Int.lt_mul_of_ediv_lt (by decide) hplain.lt_stop

def loadBerlin (name : String) : Option Zone :=
  if name = "Europe/Berlin" then some SaltRotation.berlin2026 else none

private theorem steady_loadBerlin : ∀ name ∈ timezones, ∀ z, loadBerlin name = some z →
    Steady z := by
  intro name _ z hz s t
  obtain ⟨-, rfl⟩ := (Option.ite_none_right_eq_some.mp hz).imp_right Option.some.inj
  simp only [SaltRotation.berlin2026]
  split_ifs <;> decide

def inBerlin : Zone := locationFor loadBerlin "Europe/Berlin"

/-- 2026-10-25 12:00 in UTC. -/
def noon : ℕ := 1792929600000000000

/-- The day of 25 hours is one range on both surfaces. -/
theorem agrees_today : Agrees inBerlin .today 1 noon := by
  have hplain : PlainDay inBerlin (noon / second) :=
    ⟨by decide +kernel, by decide +kernel, by decide +kernel, by decide +kernel⟩
  exact (agrees_iff steady_loadBerlin "Europe/Berlin" rfl noon).mpr
    ⟨rfl, by decide +kernel, by decide +kernel, hplain⟩

/-- 2026-06-04 13:30 in UTC. -/
def afternoon : ℕ := 1780579800000000000

def inUTC : Zone := locationFor (fun _ => some utc) "UTC"

/-- The dates of the last seven days are eight. -/
theorem last7_disagrees : ¬ Agrees inUTC .last7 7 afternoon := by
  rintro ⟨start, stop, hpicked, htool, -⟩
  have hne : pickedRange inUTC .last7 afternoon ≠ parseRange inUTC (token 7) afternoon := by
    decide +kernel
  exact hne (hpicked.trans htool.symm)

/-- At 14:00 seven hours behind UTC, the present day of the picker has not begun. -/
example : pickedRange ⟨fun _ => -25200, fun _ => by decide⟩ .today (1780606800 * second) =
    .ok (1780642800 * second, 1780729200 * second) := by
  decide +kernel

end Statnive.RangePresets
