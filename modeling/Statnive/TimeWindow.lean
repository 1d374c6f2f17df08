import Statnive.AuthGuards
import Statnive.DashboardFilter
import Statnive.IngestHandler
import Statnive.ZonedTime

/-!
# Date windows

The ranges of the dashboard and of the tools, parsed into instants. A date stands for its
midnight in the zone of the site, and hours for those of UTC.
-/

namespace Statnive.TimeWindow

open AuthGuards (digitValue)
open CivilCalendar DashboardFilter ZonedTime
open IngestHandler (trimSpace)
open PrivacyPolicy (Bytes)
open VisitorIdentity (utf8)

/-- The texts of `ErrBadRange`, with what they name. -/
inductive RangeError where
  | notDate (raw : String)
  | bothDates
  | startBeforeEnd
  | maxRange
  | wantRange (s : String)
  | wantPositive (s : String)
  | unit (c : UInt8)
  deriving DecidableEq

def number (cs : List Char) : Option ℕ :=
  (cs.mapM digitValue).map (·.foldl (fun n d => 10 * n + d) 0)

/-- `time.Parse` with the layout `2006-01-02`. -/
def parseDate (raw : String) : Option Date :=
  match raw.toList with
  | [y₁, y₂, y₃, y₄, '-', m₁, m₂, '-', d₁, d₂] => do
    let year ← number [y₁, y₂, y₃, y₄]
    let month ← number [m₁, m₂]
    let day ← number [d₁, d₂]
    if 0 < month && 0 < day && (monthLengths year)[month - 1]?.any (day ≤ ·) then
      some ⟨year, month, day⟩
    else none
  | _ => none

/-- The start of a day, in seconds. -/
def midnight (loc : Zone) (d : Date) : ℤ := loc.date d.year d.month d.day 0

/-- An empty text is the zero time. -/
def parseLocalDate (loc : Zone) (raw : String) : Except RangeError ℤ :=
  if raw = "" then .ok zeroTime
  else match parseDate raw with
  | some d => .ok (midnight loc d * second)
  | none => .error (.notDate raw)

/-- The midnight before an instant. -/
def startOfLocalDay (loc : Zone) (t : ℤ) : ℤ := midnight loc (civil (loc.day (t / second))) * second

/-- Days are added on the clock of the zone. -/
def addDays (loc : Zone) (t days : ℤ) : ℤ := loc.addDays (t / second) days * second

def defaultRangeDays : ℤ := 7

/-- The range of a request to the dashboard. -/
def parseDateRange (loc : Zone) (fromRaw toRaw : String) (now : ℤ) : Except RangeError (ℤ × ℤ) := do
  let toTime ← parseLocalDate loc toRaw
  let toTime := if toTime = zeroTime then addDays loc (startOfLocalDay loc now) 1 else toTime
  let fromTime ← parseLocalDate loc fromRaw
  let fromTime := if fromTime = zeroTime then addDays loc toTime (-defaultRangeDays) else fromTime
  return (fromTime, toTime)

def maxRangeDays : ℤ := 365

/-- `strings.Cut` at the first two dots. -/
def cutDots : List Char → Option (List Char × List Char)
  | [] => none
  | '.' :: '.' :: cs => some ([], cs)
  | c :: cs => (cutDots cs).map fun p => (c :: p.1, p.2)

/-- `strconv.Atoi`. -/
def atoi (bs : Bytes) : Option ℤ :=
  let digits := match bs with
    | c :: cs => if c = '+'.toUInt8 || c = '-'.toUInt8 then cs else bs
    | [] => []
  let n : ℤ := digits.foldl (fun n c => 10 * n + (c.toNat - '0'.toNat)) 0
  let n := if bs.head? = some '-'.toUInt8 then -n else n
  if digits = [] || digits.any (fun c => c < '0'.toUInt8 || '9'.toUInt8 < c) then none
  else if -2 ^ 63 ≤ n && n < 2 ^ 63 then some n
  else none

def parseExplicitRange (loc : Zone) (lhs rhs : String) : Except RangeError (ℤ × ℤ) := do
  let fromTime ← parseLocalDate loc (trimSpace lhs)
  let toTime ← parseLocalDate loc (trimSpace rhs)
  if fromTime = zeroTime || toTime = zeroTime then .error .bothDates
  else if toTime ≤ fromTime then .error .startBeforeEnd
  else if maxRangeDays * day < toTime - fromTime then .error .maxRange
  else .ok (fromTime, toTime)

def parseShorthand (loc : Zone) (s : String) (now : ℤ) : Except RangeError (ℤ × ℤ) :=
  let bs := utf8 s
  if bs.length < 2 then .error (.wantRange s)
  else
    let unit := bs.getLast?.getD 0
    let n := (atoi bs.dropLast).getD 0
    if n ≤ 0 then .error (.wantPositive s)
    else if unit = 'd'.toUInt8 then
      if maxRangeDays < n then .error .maxRange
      else
        let toTime := addDays loc (startOfLocalDay loc now) 1
        .ok (addDays loc toTime (-n), toTime)
    else if unit = 'h'.toUInt8 then
      if maxRangeDays * 24 < n then .error .maxRange
      else
        let toTime := truncate now hour + hour
        .ok (toTime - n * hour, toTime)
    else .error (.unit unit)

/-- The range of a tool. -/
def parseRange (loc : Zone) (s : String) (now : ℤ) : Except RangeError (ℤ × ℤ) :=
  let s := trimSpace s
  let s := if s = "" then "7d" else s
  match cutDots s.toList with
  | some (lhs, rhs) => parseExplicitRange loc (String.ofList lhs) (String.ofList rhs)
  | none => parseShorthand loc s now

-- At 2026-06-04 13:30 in UTC.
example : parseRange utc "7d" (1780579800 * second) =
    parseRange utc " 2026-05-29 .. 2026-06-05 " (1780579800 * second) := by decide +kernel

example : parseRange utc "24h" (1780579800 * second) =
    .ok (1780579800 * second - 23 * hour - 30 * minute, 1780579800 * second + 30 * minute) := by
  decide +kernel

private theorem digitValue_of_isDigit {c : Char} (h : c.isDigit = true) :
    digitValue c = some (c.toNat - '0'.toNat) := by
  simp only [Char.isDigit, Bool.and_eq_true, decide_eq_true_eq] at h
  exact if_pos h

private theorem number_eq {cs : List Char} (h : ∀ c ∈ cs, c.isDigit = true) :
    number cs = some (Nat.ofDigitChars 10 cs 0) := by
  have hmap : cs.mapM digitValue = some (cs.map fun c => c.toNat - '0'.toNat) := by
    induction cs with
    | nil => rfl
    | cons c cs ih =>
      obtain ⟨hc, hcs⟩ := List.forall_mem_cons.mp h
      simp [List.mapM_cons, digitValue_of_isDigit hc, ih hcs]
  rw [number, hmap, Option.map_some, List.foldl_map, Nat.ofDigitChars_eq_foldl]

theorem number_appendInt (n width : ℕ) : number (appendInt n width) = some n := by
  have happend : appendInt n width = (Nat.toDigits 10 n).leftpad width '0' := by
    simp [appendInt]
  rw [happend, number_eq, ofDigitChars_leftpad]
  intro c hc
  obtain hzero | hdigit := List.mem_append.mp hc
  · rw [List.eq_of_mem_replicate hzero]
    rfl
  · exact Nat.isDigit_of_mem_toDigits (by decide) (by decide) hdigit

/-- A text of ten letters with two dashes in their places. -/
theorem parseDate_eq {y m d : List Char} (hy : y.length = 4) (hm : m.length = 2)
    (hd : d.length = 2) :
    parseDate (String.ofList (y ++ '-' :: m ++ '-' :: d)) = (do
      let year ← number y
      let month ← number m
      let day ← number d
      if 0 < month && 0 < day && (monthLengths year)[month - 1]?.any (day ≤ ·) then
        some ⟨year, month, day⟩
      else none) := by
  match y, hy with
  | [y₁, y₂, y₃, y₄], _ =>
    match m, hm with
    | [m₁, m₂], _ =>
      match d, hd with
      | [d₁, d₂], _ => simp [parseDate]

theorem parseDate_format {n : ℤ} (hfirst : -unixEpoch ≤ n) (hlast : n ≤ lastDay) :
    parseDate (civil n).format = some (civil n) := by
  have hbounds := civil_year_bounds n
  obtain ⟨⟨hmonth, hmonth'⟩, hday, hday'⟩ := civil_bounds n
  obtain ⟨year, hyear⟩ := Int.eq_ofNat_of_zero_le (hbounds.1.mpr hfirst).le
  have hlt := hbounds.2.mpr hlast
  rw [hyear] at hlt
  rw [Date.format, parseDate_eq, hyear, number_appendInt, number_appendInt, number_appendInt]
  · have hlength := civil_day_le_length n
    rw [hyear] at hlength
    have hvalid : (0 < (civil n).month && 0 < (civil n).day &&
        (monthLengths year)[(civil n).month - 1]?.any ((civil n).day ≤ ·)) = true := by
      rw [hlength, Bool.and_true, Bool.and_eq_true]
      exact ⟨decide_eq_true hmonth, decide_eq_true hday⟩
    exact (if_pos hvalid).trans (congrArg some (Date.ext hyear.symm rfl rfl))
  · exact hyear ▸ length_appendInt (by decide) (by omega)
  · exact length_appendInt (by decide) (by omega)
  · exact length_appendInt (by decide) (by omega)

private theorem length_of_parseDate {raw : String} {d : Date} (h : parseDate raw = some d) :
    raw.toList.length = 10 := by
  simp only [parseDate] at h
  split at h
  · next heq => simp [heq]
  · simp at h

/-- The years from 10000 on have five digits. -/
theorem parseDate_format_of_lt {n : ℤ} (hlast : lastDay < n) :
    parseDate (civil n).format = none := by
  have hyear : 10000 ≤ (civil n).year := not_lt.mp fun h =>
    not_lt.mpr ((civil_year_bounds n).2.mp h) hlast
  obtain ⟨year, hy⟩ := Int.eq_ofNat_of_zero_le (le_trans (by decide) hyear)
  obtain ⟨⟨-, hmonth⟩, -, hday⟩ := civil_bounds n
  have hlong : 4 < (appendInt year 4).length := by
    have hdigits := (Nat.length_toDigits_le_iff (n := year) (k := 4) (b := 10) (by decide)
      (by decide)).not.mpr (by omega)
    simp only [appendInt, List.length_append, List.leftpad, Int.natAbs_natCast]
    omega
  refine Option.eq_none_iff_forall_ne_some.mpr fun d hd => ?_
  have hlength := length_of_parseDate hd
  simp only [Date.format, String.toList_ofList, List.length_append, List.length_cons, hy] at hlength
  rw [length_appendInt (by decide) (show (civil n).month < 10 ^ 2 by omega),
    length_appendInt (by decide) (show (civil n).day < 10 ^ 2 by omega)] at hlength
  omega

end Statnive.TimeWindow
