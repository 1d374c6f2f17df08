import Mathlib.Algebra.BigOperators.Group.List.Basic
import Mathlib.Algebra.Order.Group.Int
import Mathlib.Algebra.Ring.Nat
import Mathlib.Tactic.Common

/-!
# The civil calendar

Days are counted from 1970-01-01 in the proleptic Gregorian calendar, and written as
`2006-01-02`.
-/

namespace Statnive.CivilCalendar

@[ext]
structure Date where
  year : ℤ
  month : ℕ
  day : ℕ
  deriving DecidableEq

def isLeap (year : ℤ) : Bool := year % 4 = 0 && (year % 100 ≠ 0 || year % 400 = 0)

def monthLengths (year : ℤ) : List ℕ :=
  [31, if isLeap year then 29 else 28, 31, 30, 31, 30, 31, 31, 30, 31, 30, 31]

/-- The days from 0001-01-01 to the first day of the year. -/
def daysBefore (year : ℤ) : ℤ :=
  let y := year - 1
  365 * y + y / 4 - y / 100 + y / 400

/-- The days from 0001-01-01 to 1970-01-01. -/
def unixEpoch : ℤ := 719162

/-- The day may lie outside the month. -/
def dayNumber (year : ℤ) (month : ℕ) (day : ℤ) : ℤ :=
  daysBefore year + (((monthLengths year).take (month - 1)).sum : ℕ) + (day - 1) - unixEpoch

/-- The year of a day, and the day within it. Cycles of 400, 100, 4 and 1 years are cut off
in turn; the last of the 100 and of the 1 year cycles takes the leap day that is left. -/
def yearDay (days : ℤ) : ℤ × ℕ :=
  let n400 := days / 146097
  let d400 := days % 146097
  let n100 := min (d400 / 36524) 3
  let d100 := d400 - 36524 * n100
  let n4 := d100 / 1461
  let d4 := d100 - 1461 * n4
  let n1 := min (d4 / 365) 3
  (400 * n400 + 100 * n100 + 4 * n4 + n1 + 1, (d4 - 365 * n1).toNat)

/-- The month that a day falls into, counted from `month`, and the day within it. -/
def monthDay : List ℕ → ℕ → ℕ → ℕ × ℕ
  | [], month, d => (month, d + 1)
  | len :: lens, month, d =>
    if d < len then (month, d + 1) else monthDay lens (month + 1) (d - len)

def civil (days : ℤ) : Date :=
  let yd := yearDay (days + unixEpoch)
  let md := monthDay (monthLengths yd.1) 1 yd.2
  ⟨yd.1, md.1, md.2⟩

theorem sum_monthLengths (year : ℤ) :
    (monthLengths year).sum = if isLeap year then 366 else 365 := by
  cases h : isLeap year <;> simp [monthLengths, h]

/-- A year by its place in the cycles. -/
theorem daysBefore_cycles {n400 n100 n4 n1 : ℤ} (h100 : 0 ≤ n100 ∧ n100 ≤ 3)
    (h4 : 0 ≤ n4 ∧ n4 ≤ 24) (h1 : 0 ≤ n1 ∧ n1 ≤ 3) :
    daysBefore (400 * n400 + 100 * n100 + 4 * n4 + n1 + 1) =
      146097 * n400 + 36524 * n100 + 1461 * n4 + 365 * n1 := by
  simp only [daysBefore]
  omega

private theorem isLeap_cycles (n400 : ℤ) {n100 n4 n1 : ℤ} (h100 : 0 ≤ n100 ∧ n100 ≤ 3)
    (h4 : 0 ≤ n4 ∧ n4 ≤ 24) (h1 : 0 ≤ n1 ∧ n1 ≤ 3) :
    isLeap (400 * n400 + 100 * n100 + 4 * n4 + n1 + 1) = true ↔ n1 = 3 ∧ (n4 < 24 ∨ n100 = 3) := by
  simp only [isLeap, Bool.and_eq_true, Bool.or_eq_true, decide_eq_true_eq]
  omega

theorem yearDay_spec (days : ℤ) :
    daysBefore (yearDay days).1 + (yearDay days).2 = days ∧
      (yearDay days).2 < (monthLengths (yearDay days).1).sum := by
  simp only [yearDay]
  generalize hn400 : days / 146097 = n400
  generalize hd400 : days % 146097 = d400
  have h400 : days = 146097 * n400 + d400 ∧ 0 ≤ d400 ∧ d400 < 146097 := by omega
  generalize hn100 : min (d400 / 36524) 3 = n100
  have h100 : (0 ≤ n100 ∧ n100 ≤ 3) ∧ 36524 * n100 ≤ d400 ∧
      d400 < 36524 * (n100 + 1) + (if n100 = 3 then 1 else 0) := by
    split_ifs <;> omega
  generalize hn4 : (d400 - 36524 * n100) / 1461 = n4
  have h4 : (0 ≤ n4 ∧ n4 ≤ 24) ∧ 1461 * n4 ≤ d400 - 36524 * n100 ∧
      d400 - 36524 * n100 < 1461 * (n4 + 1) := by
    split_ifs at h100 <;> omega
  generalize hn1 : min ((d400 - 36524 * n100 - 1461 * n4) / 365) 3 = n1
  have h1 : 0 ≤ n1 ∧ n1 ≤ 3 := by omega
  have hleap := isLeap_cycles n400 h100.1 h4.1 h1
  rw [daysBefore_cycles h100.1 h4.1 h1, sum_monthLengths]
  constructor
  · omega
  · simp only [hleap]
    split_ifs at h100 ⊢ <;> omega

theorem monthDay_spec (lens : List ℕ) (month d : ℕ) (h : d < lens.sum) :
    month ≤ (monthDay lens month d).1 ∧ (monthDay lens month d).1 < month + lens.length ∧
      0 < (monthDay lens month d).2 ∧
      (lens.take ((monthDay lens month d).1 - month)).sum + (monthDay lens month d).2 = d + 1 := by
  induction lens generalizing month d with
  | nil => simp at h
  | cons len lens ih =>
    rw [monthDay]
    split_ifs with hlt
    · simp
    · have hrest : d - len < lens.sum := by
        rw [List.sum_cons] at h
        omega
      obtain ⟨hlo, hhi, hpos, hsum⟩ := ih (month + 1) (d - len) hrest
      have htake : (len :: lens).take ((monthDay lens (month + 1) (d - len)).1 - month) =
          len :: lens.take ((monthDay lens (month + 1) (d - len)).1 - (month + 1)) := by
        obtain ⟨k, hk⟩ := Nat.exists_eq_add_of_le hlo
        rw [hk, show month + 1 + k - month = k + 1 by omega, List.take_succ_cons]
        congr 2
        omega
      rw [htake, List.sum_cons, List.length_cons]
      omega

private theorem monthDay_le (lens : List ℕ) (month d : ℕ) (h : d < lens.sum)
    (hlens : ∀ len ∈ lens, len ≤ 31) : (monthDay lens month d).2 ≤ 31 := by
  induction lens generalizing month d with
  | nil => simp at h
  | cons len lens ih =>
    obtain ⟨hlen, hlens⟩ := List.forall_mem_cons.mp hlens
    rw [monthDay]
    split_ifs with hlt
    · exact Nat.le_trans hlt hlen
    · apply ih _ _ _ hlens
      rw [List.sum_cons] at h
      omega

theorem dayNumber_civil (days : ℤ) :
    dayNumber (civil days).year (civil days).month (civil days).day = days := by
  obtain ⟨hyear, hday⟩ := yearDay_spec (days + unixEpoch)
  obtain ⟨-, -, -, hsum⟩ := monthDay_spec _ 1 _ hday
  simp only [dayNumber, civil]
  omega

/-- The day before the first of a month is the last of the month before, and so on: the day
number is linear in the day. -/
theorem dayNumber_add (year : ℤ) (month : ℕ) (day k : ℤ) :
    dayNumber year month (day + k) = dayNumber year month day + k := by
  simp only [dayNumber]
  omega

theorem civil_bounds (days : ℤ) :
    (1 ≤ (civil days).month ∧ (civil days).month ≤ 12) ∧
      1 ≤ (civil days).day ∧ (civil days).day ≤ 31 := by
  obtain ⟨-, hday⟩ := yearDay_spec (days + unixEpoch)
  obtain ⟨hlo, hhi, hpos, -⟩ := monthDay_spec _ 1 _ hday
  have hlens : ∀ len ∈ monthLengths (yearDay (days + unixEpoch)).1, len ≤ 31 := by
    cases h : isLeap (yearDay (days + unixEpoch)).1 <;> simp [monthLengths, h]
  refine ⟨⟨hlo, Nat.lt_succ_iff.mp hhi⟩, hpos, monthDay_le _ _ _ hday hlens⟩

/-- The day lies within its month. -/
theorem monthDay_le_length (lens : List ℕ) (month d : ℕ) (h : d < lens.sum) :
    lens[(monthDay lens month d).1 - month]?.any ((monthDay lens month d).2 ≤ ·) = true := by
  induction lens generalizing month d with
  | nil => simp at h
  | cons len lens ih =>
    rw [monthDay]
    split_ifs with hlt
    · simp only [Nat.sub_self, List.getElem?_cons_zero, Option.any_some, decide_eq_true_eq]
      exact hlt
    · have hrest : d - len < lens.sum := by
        rw [List.sum_cons] at h
        omega
      obtain ⟨hlo, -⟩ := monthDay_spec lens (month + 1) (d - len) hrest
      have hindex : (monthDay lens (month + 1) (d - len)).1 - month =
          (monthDay lens (month + 1) (d - len)).1 - (month + 1) + 1 := by omega
      rw [hindex, List.getElem?_cons_succ]
      exact ih (month + 1) (d - len) hrest

theorem civil_day_le_length (n : ℤ) :
    (monthLengths (civil n).year)[(civil n).month - 1]?.any ((civil n).day ≤ ·) = true := by
  obtain ⟨-, hday⟩ := yearDay_spec (n + unixEpoch)
  exact monthDay_le_length _ 1 _ hday

/-- 9999-12-31 -/
def lastDay : ℤ := 2932896

theorem civil_year_bounds (n : ℤ) :
    (0 < (civil n).year ↔ -unixEpoch ≤ n) ∧ ((civil n).year < 10000 ↔ n ≤ lastDay) := by
  obtain ⟨hyear, hday⟩ := yearDay_spec (n + unixEpoch)
  simp only [civil, lastDay]
  rw [sum_monthLengths] at hday
  generalize yearDay (n + unixEpoch) = yd at *
  simp only [daysBefore, unixEpoch, isLeap, Bool.and_eq_true, Bool.or_eq_true, decide_eq_true_eq]
    at hyear hday ⊢
  split_ifs at hday <;> constructor <;> omega

/-- The number, with zeros in front up to the width. -/
def appendInt (x : ℤ) (width : ℕ) : List Char :=
  (if x < 0 then ['-'] else []) ++ (Nat.toDigits 10 x.natAbs).leftpad width '0'

def Date.format (date : Date) : String :=
  String.ofList (appendInt date.year 4 ++ '-' :: appendInt date.month 2 ++
    '-' :: appendInt date.day 2)

theorem ofDigitChars_leftpad (n width : ℕ) :
    Nat.ofDigitChars 10 ((Nat.toDigits 10 n).leftpad width '0') 0 = n := by
  rw [List.leftpad, Nat.ofDigitChars_append, Nat.ofDigitChars_replicate_zero, Nat.mul_zero,
    Nat.ofDigitChars_ten_toDigits]

theorem leftpad_ne_dash (n width : ℕ) (cs : List Char) :
    (Nat.toDigits 10 n).leftpad width '0' ≠ '-' :: cs := by
  intro h
  have hdash : '-' ∈ (Nat.toDigits 10 n).leftpad width '0' := by
    rw [h]
    exact List.mem_cons_self
  rcases List.mem_append.mp hdash with hdash | hdash
  · simp at hdash
  · have hdigit := Nat.isDigit_of_mem_toDigits (by decide) (by decide) hdash
    simp at hdigit

theorem leftpad_injective {m n width : ℕ}
    (h : (Nat.toDigits 10 m).leftpad width '0' = (Nat.toDigits 10 n).leftpad width '0') :
    m = n := by
  rw [← ofDigitChars_leftpad m width, h, ofDigitChars_leftpad]

theorem appendInt_injective (width : ℕ) : Function.Injective (fun x => appendInt x width) := by
  intro x y h
  simp only [appendInt] at h
  split_ifs at h with hx hy hy
  · have habs : x.natAbs = y.natAbs := leftpad_injective (List.cons.inj h).2
    omega
  · exact absurd h.symm (leftpad_ne_dash _ _ _)
  · exact absurd h (leftpad_ne_dash _ _ _)
  · have habs : x.natAbs = y.natAbs := leftpad_injective h
    omega

theorem length_appendInt {n width : ℕ} (hpos : 0 < width) (h : n < 10 ^ width) :
    (appendInt n width).length = width := by
  have hlen := (Nat.length_toDigits_le_iff (by decide) hpos).mpr h
  have hneg : ¬ (n : ℤ) < 0 := by omega
  simp only [appendInt, if_neg hneg, List.nil_append, Int.natAbs_natCast, List.leftpad,
    List.length_append, List.length_replicate]
  omega

/-- The month and the day have two digits each. -/
theorem format_injective {a b : Date} (ha : a.month < 100 ∧ a.day < 100)
    (hb : b.month < 100 ∧ b.day < 100) (h : a.format = b.format) : a = b := by
  have hchars := String.ofList_injective h
  have hday : (appendInt a.day 2).length = (appendInt b.day 2).length := by
    rw [length_appendInt (by decide) ha.2, length_appendInt (by decide) hb.2]
  have hmonth : (appendInt a.month 2).length = (appendInt b.month 2).length := by
    rw [length_appendInt (by decide) ha.1, length_appendInt (by decide) hb.1]
  obtain ⟨hfront, hback⟩ := List.append_inj' hchars (by simp [hday])
  obtain ⟨hyears, hmonths⟩ := List.append_inj' hfront (by simp [hmonth])
  have hyear := appendInt_injective 4 hyears
  have hm := Int.ofNat.inj (appendInt_injective 2 (List.cons.inj hmonths).2)
  have hd := Int.ofNat.inj (appendInt_injective 2 (List.cons.inj hback).2)
  exact Date.ext hyear hm hd

theorem format_civil_injective : Function.Injective (fun days => (civil days).format) := by
  intro a b h
  have hbound (days : ℤ) : (civil days).month < 100 ∧ (civil days).day < 100 := by
    have := civil_bounds days
    omega
  have hdate : civil a = civil b := format_injective (hbound a) (hbound b) h
  rw [← dayNumber_civil a, hdate, dayNumber_civil b]

example : (civil 20751).format = "2026-10-25" := by decide

end Statnive.CivilCalendar
