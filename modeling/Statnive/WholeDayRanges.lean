import Statnive.RangePresets
import Statnive.SiteOrigins

/-!
# Ranges of whole days

A token of the tools stands for a number of days that end with the present one, or of hours that
end with the present one. Which days these are, the clocks of the zone of the site tell; under the
law of the days a range has their instants and no others, `covers_of_daysLaw`.
-/

namespace Statnive.WholeDayRanges

open AuthGuards (digitValue)
open CivilCalendar DashboardFilter RangePresets TimeWindow ZonedTime
open IngestHandler (isSpace trimSpace)
open PrivacyPolicy (Bytes)
open VisitorIdentity (utf8)

def dayToken (n : ℕ) : String := toString n ++ "d"

def hourToken (n : ℕ) : String := toString n ++ "h"

theorem digit_bounds {c : Char} (h : c.isDigit = true) : 48 ≤ c.toNat ∧ c.toNat ≤ 57 := by
  simp only [Char.isDigit, Bool.and_eq_true, decide_eq_true_eq] at h
  exact h

private theorem utf8EncodeChar_ascii {c : Char} (h : c.toNat < 128) :
    String.utf8EncodeChar c = [c.toUInt8] := by
  have hsize : c.utf8Size = 1 := by
    rw [Char.utf8Size_eq_one_iff, UInt32.le_iff_toNat_le]
    exact Nat.le_of_lt_succ h
  rw [String.utf8EncodeChar_eq_singleton hsize]
  rfl

theorem toNat_toUInt8 {c : Char} (h : c.toNat < 128) : c.toUInt8.toNat = c.toNat := by
  rw [Char.toUInt8, UInt32.toNat_toUInt8]
  exact Nat.mod_eq_of_lt (h.trans (by decide))

private theorem utf8_ascii {l : List Char} (h : ∀ c ∈ l, c.toNat < 128) :
    utf8 (String.ofList l) = l.map Char.toUInt8 := by
  induction l with
  | nil => rfl
  | cons c l ih =>
    rw [List.forall_mem_cons] at h
    have htail := ih h.2
    simp only [utf8, String.toList_ofList] at htail ⊢
    rw [List.flatMap_cons, utf8EncodeChar_ascii h.1, htail]
    rfl

theorem foldl_digits {cs : List Char} (hdigit : ∀ c ∈ cs, c.isDigit = true) (m : ℕ) :
    (cs.map Char.toUInt8).foldl (fun n c => 10 * n + ((c.toNat : ℤ) - '0'.toNat)) (m : ℤ) =
      (Nat.ofDigitChars 10 cs m : ℕ) := by
  induction cs generalizing m with
  | nil => rfl
  | cons c cs ih =>
    rw [List.forall_mem_cons] at hdigit
    have hbounds := digit_bounds hdigit.1
    have hzero : '0'.toNat = 48 := rfl
    have hstep : 10 * (m : ℤ) + ((c.toUInt8.toNat : ℤ) - '0'.toNat) =
        ((10 * m + (c.toNat - '0'.toNat) : ℕ) : ℤ) := by
      rw [toNat_toUInt8 (by omega), hzero]
      omega
    rw [List.map_cons, List.foldl_cons, hstep, ih hdigit.2, Nat.ofDigitChars_cons]

/-- Digits are read back. -/
theorem atoi_digits {cs : List Char} (hne : cs ≠ []) (hdigit : ∀ c ∈ cs, c.isDigit = true)
    (hlt : Nat.ofDigitChars 10 cs 0 < 2 ^ 63) :
    atoi (cs.map Char.toUInt8) = some ((Nat.ofDigitChars 10 cs 0 : ℕ) : ℤ) := by
  have hbyte : ∀ b ∈ cs.map Char.toUInt8, 48 ≤ b.toNat ∧ b.toNat ≤ 57 := by
    rw [List.forall_mem_map]
    intro c hc
    have hbounds := digit_bounds (hdigit c hc)
    rw [toNat_toUInt8 (by omega)]
    exact hbounds
  have hany : (cs.map Char.toUInt8).any (fun c => c < '0'.toUInt8 || '9'.toUInt8 < c) = false := by
    rw [List.any_eq_false]
    intro b hb
    have hbounds := hbyte b hb
    simp only [UInt8.lt_iff_toNat_lt, Bool.or_eq_true, decide_eq_true_eq]
    change ¬(b.toNat < 48 ∨ 57 < b.toNat)
    omega
  have hfold : (cs.map Char.toUInt8).foldl (fun n c => 10 * n + ((c.toNat : ℤ) - '0'.toNat)) 0 =
      (Nat.ofDigitChars 10 cs 0 : ℕ) := foldl_digits hdigit 0
  have hne' : cs.map Char.toUInt8 ≠ [] := by simpa using hne
  have hhead : ∀ b ∈ (cs.map Char.toUInt8).head?, 48 ≤ b.toNat :=
    fun b hb => (hbyte b (List.mem_of_mem_head? hb)).1
  generalize cs.map Char.toUInt8 = bs at hany hfold hne' hhead
  cases bs with
  | nil => exact absurd rfl hne'
  | cons b bs =>
    have hb : 48 ≤ b.toNat := hhead b rfl
    have hsign : b ≠ '+'.toUInt8 ∧ b ≠ '-'.toUInt8 := by
      constructor <;>
      · rintro rfl
        exact absurd hb (by decide)
    have hminus : (b :: bs).head? ≠ some '-'.toUInt8 := by simpa using hsign.2
    have hdigits : (if b = '+'.toUInt8 || b = '-'.toUInt8 then bs else b :: bs) = b :: bs := by
      simp [hsign]
    simp only [atoi, hdigits, if_neg hminus, hany, List.cons_ne_nil, decide_false,
      Bool.or_false, Bool.false_eq_true, if_false, hfold]
    have hlower : -2 ^ 63 ≤ ((Nat.ofDigitChars 10 cs 0 : ℕ) : ℤ) := by omega
    have hupper : ((Nat.ofDigitChars 10 cs 0 : ℕ) : ℤ) < 2 ^ 63 := by exact_mod_cast hlt
    rw [if_pos ((Bool.and_eq_true _ _).mpr ⟨decide_eq_true hlower, decide_eq_true hupper⟩)]

private theorem cutDots_eq_none {l : List Char} (h : '.' ∉ l) : cutDots l = none := by
  induction l with
  | nil => rfl
  | cons c l ih =>
    rw [List.mem_cons, not_or] at h
    rw [cutDots, ih h.2, Option.map_none]
    rintro cs rfl
    exact absurd rfl h.1

/-- A number with a letter behind it is parsed as a shorthand. -/
theorem parseRange_letter (loc : Zone) (n : ℕ) {u : Char} (hu : isSpace u = false ∧ u ≠ '.')
    (now : ℤ) : parseRange loc (toString n ++ String.ofList [u]) now =
      parseShorthand loc (toString n ++ String.ofList [u]) now := by
  have hchars : (toString n ++ String.ofList [u]).toList = Nat.toDigits 10 n ++ [u] := by
    rw [String.toList_append, Nat.toString_eq_ofList_toDigits, String.toList_ofList,
      String.toList_ofList]
  have hdigit {c : Char} (hc : c ∈ Nat.toDigits 10 n) : 48 ≤ c.toNat ∧ c.toNat ≤ 57 :=
    digit_bounds (Nat.isDigit_of_mem_toDigits (by decide) (by decide) hc)
  have htrim : trimSpace (toString n ++ String.ofList [u]) = toString n ++ String.ofList [u] := by
    apply SiteOrigins.trimSpace_eq_self
    intro c hc
    rw [hchars] at hc
    rcases List.mem_append.mp hc with hc | hc
    · have hbounds := hdigit hc
      exact SiteOrigins.isSpace_of_bounds (by omega) (by omega)
    · obtain rfl := List.mem_singleton.mp hc
      exact hu.1
  have hne : toString n ++ String.ofList [u] ≠ "" := by
    intro h
    have hnil := congrArg String.toList h
    simp at hnil
  have hdot : '.' ∉ Nat.toDigits 10 n ++ [u] := by
    intro hmem
    rcases List.mem_append.mp hmem with hmem | hmem
    · exact absurd (hdigit hmem) (by decide)
    · exact hu.2 (List.mem_singleton.mp hmem).symm
  rw [parseRange, htrim, if_neg hne, hchars, cutDots_eq_none hdot]

theorem parseShorthand_letter (loc : Zone) {n : ℕ} (hn : n < 2 ^ 63) {u : Char}
    (hu : u.toNat < 128) (now : ℤ) :
    parseShorthand loc (toString n ++ String.ofList [u]) now =
      if (n : ℤ) ≤ 0 then .error (.wantPositive (toString n ++ String.ofList [u]))
      else if u.toUInt8 = 'd'.toUInt8 then
        if maxRangeDays < n then .error .maxRange
        else
          let toTime := TimeWindow.addDays loc (startOfLocalDay loc now) 1
          .ok (TimeWindow.addDays loc toTime (-n), toTime)
      else if u.toUInt8 = 'h'.toUInt8 then
        if maxRangeDays * 24 < n then .error .maxRange
        else
          let toTime := truncate now hour + hour
          .ok (toTime - n * hour, toTime)
      else .error (.unit u.toUInt8) := by
  have hdigit : ∀ c ∈ Nat.toDigits 10 n, c.isDigit = true :=
    fun c hc => Nat.isDigit_of_mem_toDigits (by decide) (by decide) hc
  have hbytes : utf8 (toString n ++ String.ofList [u]) =
      (Nat.toDigits 10 n).map Char.toUInt8 ++ [u.toUInt8] := by
    rw [Nat.toString_eq_ofList_toDigits, ← String.ofList_append, utf8_ascii, List.map_append]
    · rfl
    · intro c hc
      rcases List.mem_append.mp hc with hc | hc
      · have hbounds := digit_bounds (hdigit c hc)
        omega
      · obtain rfl := List.mem_singleton.mp hc
        exact hu
  have hatoi := atoi_digits Nat.toDigits_ne_nil hdigit (Nat.ofDigitChars_ten_toDigits.trans_lt hn)
  rw [Nat.ofDigitChars_ten_toDigits] at hatoi
  have hlen : ¬ ((Nat.toDigits 10 n).map Char.toUInt8 ++ [u.toUInt8]).length < 2 := by
    have hpos := Nat.length_toDigits_pos (b := 10) (n := n)
    simp only [List.length_append, List.length_map, List.length_singleton]
    omega
  rw [parseShorthand, hbytes]
  simp only [if_neg hlen, List.getLast?_append, List.getLast?_singleton, Option.some_or,
    Option.getD_some, List.dropLast_concat, hatoi]

theorem parseRange_dayToken (loc : Zone) {n : ℕ} (hpos : 1 ≤ n) (hle : n ≤ 365) (now : ℤ) :
    parseRange loc (dayToken n) now =
      .ok (loc.addDays (dayEnd loc (now / second)) (-n) * second,
        dayEnd loc (now / second) * second) := by
  have hmax : maxRangeDays = 365 := rfl
  have htoken := parseRange_letter loc n (u := 'd') (by decide) now
  rw [parseShorthand_letter loc (by omega) (by decide), if_neg (by omega), if_pos rfl,
    if_neg (by omega)] at htoken
  rw [dayToken]
  refine htoken.trans ?_
  dsimp only
  rw [startOfLocalDay, addDays_mul_second, addDays_mul_second, dayEnd]

private theorem parseRange_hourToken
    (loc : Zone) {n : ℕ} (hpos : 1 ≤ n) (hle : n ≤ 8760) (now : ℤ) :
    parseRange loc (hourToken n) now =
      .ok (truncate now hour + hour - n * hour, truncate now hour + hour) := by
  have hmax : maxRangeDays = 365 := rfl
  have htoken := parseRange_letter loc n (u := 'h') (by decide) now
  rw [parseShorthand_letter loc (by omega) (by decide), if_neg (by omega), if_neg (by decide),
    if_pos rfl, if_neg (by omega)] at htoken
  exact htoken

/-- The instants before `s` are of earlier days, and those from it on are not. -/
def StartsDay (z : Zone) (m s : ℤ) : Prop := ∀ t, t < s ↔ z.day t < m

/-- The day of an instant in nanoseconds. -/
def localDay (z : Zone) (t : ℤ) : ℤ := z.day (t / second)

theorem startsDay_mul_second {z : Zone} {m s : ℤ} :
    (∀ t, t < s * second ↔ localDay z t < m) ↔ StartsDay z m s := by
  have hsecond : 0 < second := by decide
  constructor
  · intro h t
    have ht := h (t * second)
    rwa [localDay, Int.mul_ediv_cancel t hsecond.ne', Int.mul_lt_mul_right hsecond] at ht
  · intro h t
    rw [localDay, ← h, Int.ediv_lt_iff_lt_mul hsecond]

/-- Everything that `Validate` asks of a filter with the given range, but for the range itself. -/
structure OtherwiseValid (f : Filter) (span : ℤ) : Prop where
  siteID : f.siteID ≠ 0
  props : f.hasPropFilter = true → span ≤ maxPropFilterRange ∧
    f.hitProps.length + f.sessionProps.length + f.userProps.length ≤ maxPropFiltersTotal
  limit : 0 ≤ f.limit ∧ 0 ≤ f.offset
  dir : f.dir = "" ∨ f.dir = "asc" ∨ f.dir = "desc"

/-- The range begins with the first of the days and ends with the present one, and a filter may
have it. -/
def DaysLaw (z : Zone) (n : ℕ) (now : ℤ) : Prop :=
  ∃ start stop, parseRange z (dayToken n) now = .ok (start, stop) ∧
    (∀ t, t < stop ↔ localDay z t < localDay z now + 1) ∧
    (∀ t, t < start ↔ localDay z t < localDay z now + 1 - n) ∧
    ∀ f : Filter, OtherwiseValid f (stop - start) →
      { f with fromTime := start, toTime := stop }.validate = .ok ()

/-- The range has the hours that end with the present one. -/
def HoursLaw (z : Zone) (n : ℕ) (now : ℤ) : Prop :=
  ∃ start stop, parseRange z (hourToken n) now = .ok (start, stop) ∧
    hour ∣ stop ∧ stop - hour ≤ now ∧ now < stop ∧ stop - start = n * hour

/-- So the instants of the range are those of the days. -/
theorem covers_of_daysLaw {z : Zone} {n : ℕ} {now : ℤ} (h : DaysLaw z n now) :
    ∃ start stop, parseRange z (dayToken n) now = .ok (start, stop) ∧
      ∀ t, (start ≤ t ∧ t < stop) ↔
        localDay z now - (n - 1) ≤ localDay z t ∧ localDay z t ≤ localDay z now := by
  obtain ⟨start, stop, hrange, hstop, hstart, -⟩ := h
  refine ⟨start, stop, hrange, fun t => ?_⟩
  rw [← not_lt, hstart, hstop]
  omega

/-- When a token of days keeps its law. -/
structure Regular (z : Zone) (n : ℕ) (now : ℤ) : Prop where
  /-- The clocks show the midnight at which the present day is taken to begin. -/
  today : z.reading (midnight z (civil (localDay z now))) = 86400 * localDay z now
  /-- The next day begins with the instant of its midnight. -/
  tomorrow : StartsDay z (localDay z now + 1) (midnight z (civil (localDay z now + 1)))
  /-- The first day begins at the time of the day at which the next day does. -/
  first : StartsDay z (localDay z now + 1 - n)
    (z.addDays (midnight z (civil (localDay z now + 1))) (-n))
  /-- The days last no longer than 365 times 24 hours. -/
  span : midnight z (civil (localDay z now + 1)) -
    z.addDays (midnight z (civil (localDay z now + 1))) (-n) ≤ 365 * 86400
  zero : midnight z (civil (localDay z now + 1)) * second ≠ zeroTime ∧
    z.addDays (midnight z (civil (localDay z now + 1))) (-n) * second ≠ zeroTime

/-- Around the day the offset of the zone changes once at most, by twelve hours at most. -/
def Calm (z : Zone) (m : ℤ) : Prop :=
  ∃ change before after, after - before ≤ 43200 ∧ before - after ≤ 43200 ∧
    ∀ t, 86400 * (m - 3) ≤ t → t ≤ 86400 * (m + 3) →
      z.offset t = if t < change then before else after

/-- The clocks show the midnight at which a day begins at one instant, and are changed once at
most in the days around it. -/
structure ShownOnce (z : Zone) (m : ℤ) : Prop where
  calm : ∃ change before after, ∀ t, 86400 * (m - 2) ≤ t → t ≤ 86400 * (m + 2) →
    z.offset t = if t < change then before else after
  once : ∃! s, z.reading s = 86400 * m

/-- The clocks show three midnights once each: those at which the present day, the next one and
the first of the `n` days begin. They are not so much further ahead at the first midnight than
at the last that the days between outlast 365 times 24 hours, which matters for `n = 365`. -/
structure ByClock (z : Zone) (n : ℕ) (now : ℤ) : Prop where
  today : ShownOnce z (localDay z now)
  tomorrow : ShownOnce z (localDay z now + 1)
  first : ShownOnce z (localDay z now + 1 - n)
  ahead : ∀ s t, z.reading s = 86400 * (localDay z now + 1 - n) →
    z.reading t = 86400 * (localDay z now + 1) → z.offset s ≤ z.offset t + 86400 * (365 - n)
  era : -unixEpoch < localDay z now + 1 - n

private theorem hoursLaw (z : Zone) {n : ℕ} (hpos : 1 ≤ n) (hle : n ≤ 8760) (now : ℤ) :
    HoursLaw z n now := by
  refine ⟨_, _, parseRange_hourToken z hpos hle now, ?_, ?_, ?_, sub_sub_cancel _ _⟩
  · refine ⟨now / hour + 1, ?_⟩
    simp only [truncate, hour, minute, second]
    omega
  · simp only [truncate, hour, minute, second]
    omega
  · simp only [truncate, hour, minute, second]
    omega

theorem validate_iff {f : Filter} {start stop : ℤ} (hf : OtherwiseValid f (stop - start))
    (hlt : start < stop) :
    { f with fromTime := start, toTime := stop }.validate = .ok () ↔
      start ≠ zeroTime ∧ stop ≠ zeroTime ∧ stop - start ≤ maxRange := by
  have hprops : ({ f with fromTime := start, toTime := stop } : Filter).hasPropFilter =
      f.hasPropFilter := rfl
  have hspan : (f.hasPropFilter && maxPropFilterRange < stop - start) = false := by
    rw [Bool.and_eq_false_imp]
    exact fun h => decide_eq_false (not_lt.mpr (hf.props h).1)
  have hcount : (f.hasPropFilter && maxPropFiltersTotal <
      f.hitProps.length + f.sessionProps.length + f.userProps.length) = false := by
    rw [Bool.and_eq_false_imp]
    exact fun h => decide_eq_false (not_lt.mpr (hf.props h).2)
  have hlimit : (decide (f.limit < 0) || decide (f.offset < 0)) = false := by
    simp [hf.limit.1, hf.limit.2]
  have hdir : (decide (f.dir ≠ "") && decide (f.dir ≠ "asc") && decide (f.dir ≠ "desc")) =
      false := by
    rcases hf.dir with h | h | h <;> simp [h]
  simp only [Filter.validate, hprops, hf.siteID, hspan, hcount, hlimit, hdir, not_le.mpr hlt,
    Bool.false_eq_true, if_false]
  split_ifs with hzero hrange
  · simp only [Bool.or_eq_true, decide_eq_true_eq] at hzero
    simp only [false_iff]
    rintro ⟨hstart, hstop, -⟩
    rcases hzero with h | h
    · exact hstart h
    · exact hstop h
  · simp only [false_iff]
    rintro ⟨-, -, hle⟩
    exact absurd hrange (not_lt.mpr hle)
  · simp only [Bool.or_eq_true, decide_eq_true_eq, not_or] at hzero
    simp only [true_iff]
    exact ⟨hzero.1, hzero.2, not_lt.mp hrange⟩

theorem offsetAt_eq (z : Zone) (r : ℤ) : z.offsetAt r = z.offset (r - z.offset r) := by
  rw [Zone.offsetAt]
  split
  next h => rw [h, sub_zero, h]
  next => rfl

theorem dayEnd_of_today {z : Zone} {s : ℤ}
    (h : z.reading (midnight z (civil (z.day s))) = 86400 * z.day s) :
    dayEnd z s = midnight z (civil (z.day s + 1)) := by
  rw [dayEnd, Zone.addDays_eq, h, midnight_civil]
  congr 2 <;> omega

theorem daysLaw_iff (z : Zone) {n : ℕ} (hpos : 1 ≤ n) (hle : n ≤ 365) (now : ℤ) :
    DaysLaw z n now ↔
      StartsDay z (localDay z now + 1) (dayEnd z (now / second)) ∧
      StartsDay z (localDay z now + 1 - n) (z.addDays (dayEnd z (now / second)) (-n)) ∧
      dayEnd z (now / second) - z.addDays (dayEnd z (now / second)) (-n) ≤ 365 * 86400 ∧
      dayEnd z (now / second) * second ≠ zeroTime ∧
      z.addDays (dayEnd z (now / second)) (-n) * second ≠ zeroTime := by
  have hrange := parseRange_dayToken z hpos hle now
  have hmax : maxRange = 365 * 86400 * second := by decide
  have hsecond : 0 < second := by decide
  generalize dayEnd z (now / second) = e at hrange
  generalize z.addDays e (-n) = b at hrange
  -- the present instant lies between the two
  have hlt (he : StartsDay z (localDay z now + 1) e) (hb : StartsDay z (localDay z now + 1 - n) b) :
      b * second < e * second := by
    have hnow : now / second < e := (he _).mpr (Int.lt_succ _)
    have hback : ¬ now / second < b := by
      rw [hb, localDay]
      omega
    exact (Int.mul_lt_mul_right hsecond).mpr (by omega)
  have hspan : e * second - b * second ≤ maxRange ↔ e - b ≤ 365 * 86400 := by
    rw [hmax, ← Int.sub_mul]
    exact Int.mul_le_mul_right hsecond
  constructor
  · rintro ⟨start, stop, hok, hstop, hstart, hvalid⟩
    obtain ⟨rfl, rfl⟩ := Prod.mk.inj (Except.ok.inj (hrange.symm.trans hok))
    rw [startsDay_mul_second] at hstop hstart
    have hplain : OtherwiseValid { siteID := 1, fromTime := 0, toTime := 0 }
        (e * second - b * second) :=
      ⟨by decide, fun h => absurd h (by decide), by decide, .inl rfl⟩
    obtain ⟨hzero, hzero', hle⟩ := (validate_iff hplain (hlt hstop hstart)).mp (hvalid _ hplain)
    exact ⟨hstop, hstart, hspan.mp hle, hzero', hzero⟩
  · rintro ⟨hstop, hstart, hle, hzero', hzero⟩
    refine ⟨_, _, hrange, startsDay_mul_second.mpr hstop, startsDay_mul_second.mpr hstart, ?_⟩
    intro f hf
    exact (validate_iff hf (hlt hstop hstart)).mpr ⟨hzero, hzero', hspan.mpr hle⟩

/-- The instant at which a day begins, told from the offset around it. -/
theorem day_starts {z : Zone} {m o e : ℤ} (hlast : z.offset (86400 * m - o - 1) = o)
    (hfirst : z.offset (86400 * m - o) = o) (h : StartsDay z m e) : e = 86400 * m - o := by
  have hbefore := h (86400 * m - o - 1)
  have hat := h (86400 * m - o)
  simp only [Zone.day, Zone.reading, hlast, hfirst] at hbefore hat
  omega

/-- Where the clocks skip the midnight at which the present day is taken to begin, the end of the
day is not where the next day begins. -/
theorem today_of_calm {z : Zone} {s : ℤ} (hcalm : Calm z (z.day s))
    (h : StartsDay z (z.day s + 1) (dayEnd z s)) :
    z.reading (midnight z (civil (z.day s))) = 86400 * z.day s := by
  obtain ⟨c, o₁, o₂, hjump, hjump', hoff⟩ := hcalm
  rw [dayEnd, Zone.addDays_eq] at h
  rw [midnight_civil] at h ⊢
  generalize z.day s = d at h hoff
  rw [offsetAt_eq, offsetAt_eq] at h
  rw [offsetAt_eq]
  simp only [Zone.reading] at h ⊢
  -- the midnight as an instant of UTC, what it is taken for, and what the clocks show then
  have hq := hoff (86400 * d) (by omega) (by omega)
  have hqday := z.lt_day (86400 * d)
  generalize hu : 86400 * d - z.offset (86400 * d) = u at h
  have hu' := hoff u (by omega) (by omega)
  have huday := z.lt_day u
  generalize hT : 86400 * d - z.offset u = T at h
  have hT' := hoff T (by omega) (by omega)
  by_contra hshown
  -- the midnight is skipped, so the clocks go forward
  have hforward : o₁ < o₂ ∧ c ≤ 86400 * d - o₁ ∧ -86400 < o₂ ∧ o₂ < 86400 ∧
      (z.offset T = o₁ ∧ T = 86400 * d - o₂ ∨ z.offset T = o₂ ∧ T = 86400 * d - o₁) := by
    split_ifs at hq hu' hT' <;> omega
  clear hq hqday hu hu' huday hT' hshown
  obtain ⟨hlt, hc, hlower, hupper, hT⟩ := hforward
  -- they have done so when the next day begins
  have hend := day_starts (z := z) (m := d + 1) (o := o₂)
    ((hoff _ (by omega) (by omega)).trans (if_neg (by omega)))
    ((hoff _ (by omega) (by omega)).trans (if_neg (by omega))) h
  generalize hr : T + z.offset T + 86400 * 1 = r at hend
  have hrday := z.lt_day r
  have hroff := hoff r (by omega) (by omega)
  have hstop := hoff (r - z.offset r) (by omega) (by omega)
  rcases hT with ⟨hTo, rfl⟩ | ⟨hTo, rfl⟩
  · rw [hTo] at hr
    split_ifs at hroff hstop <;> omega
  · rw [hTo] at hr
    split_ifs at hroff hstop <;> omega

theorem daysLaw_of_regular {z : Zone} {n : ℕ} {now : ℤ} (hpos : 1 ≤ n) (hle : n ≤ 365)
    (h : Regular z n now) : DaysLaw z n now := by
  rw [daysLaw_iff z hpos hle, dayEnd_of_today h.today]
  exact ⟨h.tomorrow, h.first, h.span, h.zero⟩

private theorem regular_of_daysLaw {z : Zone} {n : ℕ} {now : ℤ} (hpos : 1 ≤ n) (hle : n ≤ 365)
    (hcalm : Calm z (localDay z now)) (h : DaysLaw z n now) : Regular z n now := by
  rw [daysLaw_iff z hpos hle] at h
  have htoday := today_of_calm hcalm h.1
  rw [dayEnd_of_today htoday] at h
  exact ⟨htoday, h.1, h.2.1, h.2.2.1, h.2.2.2⟩

/-- `time.Date` finds a midnight that the clocks show once, and the day begins there. -/
theorem midnight_of_shownOnce {z : Zone} {m : ℤ} (h : ShownOnce z m) :
    z.reading (midnight z (civil m)) = 86400 * m ∧ StartsDay z m (midnight z (civil m)) := by
  obtain ⟨c, o₁, o₂, hoff⟩ := h.calm
  obtain ⟨s, hs, huniq⟩ := h.once
  rw [midnight_civil, offsetAt_eq]
  simp only [Zone.reading] at hs huniq
  generalize hr : 86400 * m = r at hs huniq
  have hr' := z.lt_day r
  have hs' := z.lt_day s
  -- the instant that the first guess comes to shows the midnight, or has the other offset
  have hguess : r - z.offset (r - z.offset r) = s := by
    by_cases hsame : z.offset (r - z.offset r) = z.offset r
    · rw [hsame]
      exact huniq _ (by rw [hsame]; omega)
    · have hu := hoff (r - z.offset r) (by omega) (by omega)
      have hro := hoff r (by omega) (by omega)
      have hso := hoff s (by omega) (by omega)
      have hne : z.offset s ≠ z.offset r := by
        intro heq
        have hback : r - z.offset r = s := by omega
        exact hsame (hback ▸ heq)
      split_ifs at hu hro hso <;> omega
  rw [hguess]
  refine ⟨hs, fun t => ?_⟩
  have hday : z.day t < m ↔ z.reading t < r := by
    rw [Zone.day]
    omega
  rw [hday, Zone.reading]
  have ht := z.lt_day t
  by_cases hfar : 86400 * (m - 2) ≤ t ∧ t ≤ 86400 * (m + 2)
  · have hto := hoff t hfar.1 hfar.2
    have hso := hoff s (by omega) (by omega)
    by_cases heq : z.offset t = z.offset s
    · omega
    · -- before and after the change: neither offset takes another instant to the midnight
      have hw := hoff (r - z.offset t) (by omega) (by omega)
      have hother : r - z.offset t + z.offset (r - z.offset t) ≠ r := by
        intro hshown
        have hw' := huniq _ hshown
        rw [hw'] at hshown
        omega
      split_ifs at hto hso hw <;> omega
  · omega

private theorem regular_of_byClock
    {z : Zone} {n : ℕ} {now : ℤ} (hpos : 1 ≤ n) (h : ByClock z n now) :
    Regular z n now := by
  obtain ⟨hstop, htomorrow⟩ := midnight_of_shownOnce h.tomorrow
  obtain ⟨hstart, hfirst⟩ := midnight_of_shownOnce h.first
  have hback : z.addDays (midnight z (civil (localDay z now + 1))) (-n) =
      midnight z (civil (localDay z now + 1 - n)) := by
    rw [Zone.addDays_eq, hstop, midnight_civil, ← Int.mul_add, ← sub_eq_add_neg]
  have hspan := h.ahead _ _ hstart hstop
  have hera := h.era
  have hlower := z.lt_day (midnight z (civil (localDay z now + 1 - n)))
  have hupper := z.lt_day (midnight z (civil (localDay z now + 1)))
  simp only [Zone.reading] at hstart hstop
  have hzero : ∀ t : ℤ, -unixEpoch * 86400 < t → t * second ≠ zeroTime := by
    intro t ht
    simp only [zeroTime, day, hour, minute, second]
    omega
  refine ⟨(midnight_of_shownOnce h.today).1, htomorrow, hback ▸ hfirst, ?_, hzero _ ?_, hzero _ ?_⟩
  · rw [hback]
    omega
  · omega
  · rw [hback]
    omega

/-- The days and the hours of the tokens. -/
theorem parseRange_wholeDays (z : Zone) (now : ℤ) :
    (∀ n, 1 ≤ n → n ≤ 365 → (ByClock z n now → Regular z n now) ∧
      (Regular z n now → DaysLaw z n now)) ∧
    (∀ n, 1 ≤ n → n ≤ 365 → Calm z (localDay z now) →
      (DaysLaw z n now ↔ Regular z n now)) ∧
    ∀ n, 1 ≤ n → n ≤ 8760 → HoursLaw z n now :=
  ⟨fun _ hpos hle => ⟨regular_of_byClock hpos, daysLaw_of_regular hpos hle⟩,
    fun _ hpos hle hcalm =>
      ⟨regular_of_daysLaw hpos hle hcalm, daysLaw_of_regular hpos hle⟩,
    fun _ hpos hle => hoursLaw z hpos hle now⟩

/-- Europe/Berlin from October 2025 to October 2026. -/
def berlinYear : Zone where
  offset s := if s < 1761440400 ∨ 1774746000 ≤ s ∧ s < 1792890000 then 7200 else 3600
  lt_day s := by split_ifs <;> decide

theorem berlinYear_shownOnce {m : ℤ} (change before after s : ℤ)
    (hcalm : ∀ t, 86400 * (m - 2) ≤ t → t ≤ 86400 * (m + 2) →
      berlinYear.offset t = if t < change then before else after)
    (hs : berlinYear.reading s = 86400 * m)
    (hs' : berlinYear.reading (86400 * m - 3600) = 86400 * m → s = 86400 * m - 3600)
    (hs'' : berlinYear.reading (86400 * m - 7200) = 86400 * m → s = 86400 * m - 7200) :
    ShownOnce berlinYear m := by
  refine ⟨⟨change, before, after, hcalm⟩, s, hs, fun t ht => ?_⟩
  have hor : berlinYear.offset t = 7200 ∨ berlinYear.offset t = 3600 := by
    simp only [berlinYear]
    split_ifs <;> simp
  rcases hor with ho | ho
  · have heq : t = 86400 * m - 7200 := by
      simp only [Zone.reading, ho] at ht
      omega
    rw [heq, hs'' (heq ▸ ht)]
  · have heq : t = 86400 * m - 3600 := by
      simp only [Zone.reading, ho] at ht
      omega
    rw [heq, hs' (heq ▸ ht)]

/-- The thirty days that end with the day on which the clocks are set back. -/
theorem wholeDays_berlin : DaysLaw berlinYear 30 (1792929600 * second) ∧
    HoursLaw berlinYear 24 (1792929600 * second) := by
  have h := parseRange_wholeDays berlinYear (1792929600 * second)
  have hclock : ByClock berlinYear 30 (1792929600 * second) := by
    have hday : localDay berlinYear (1792929600 * second) = 20751 := by decide
    have haround {m : ℤ} (hm : 20751 ≤ m) (hm' : m ≤ 20752) (t : ℤ) (hlo : 86400 * (m - 2) ≤ t)
        (hhi : t ≤ 86400 * (m + 2)) :
        berlinYear.offset t = if t < 1792890000 then 7200 else 3600 := by
      simp only [berlinYear]
      split_ifs <;> omega
    constructor
    · rw [hday]
      exact berlinYear_shownOnce 1792890000 7200 3600 1792879200 (haround (by decide) (by decide))
        (by decide)
        (by decide) (by decide)
    · rw [hday]
      exact berlinYear_shownOnce 1792890000 7200 3600 1792969200 (haround (by decide) (by decide))
        (by decide)
        (by decide) (by decide)
    · rw [hday]
      refine berlinYear_shownOnce 0 0 7200 1790373600 (fun t hlo hhi => ?_) (by decide) (by decide)
        (by decide)
      simp only [berlinYear]
      split_ifs <;> omega
    · intro s t _ _
      have hs := berlinYear.lt_day s
      have ht := berlinYear.lt_day t
      omega
    · rw [hday]
      decide
  obtain ⟨hregular, hlaw⟩ := h.1 30 (by decide) (by decide)
  exact ⟨hlaw (hregular hclock), h.2.2 24 (by decide) (by decide)⟩

/-- America/Sao_Paulo in November 2018, when summer time began at a midnight. -/
def saoPaulo2018 : Zone where
  offset s := if s < 1541300400 then -10800 else -7200
  lt_day s := by split_ifs <;> decide

/-- A year that ends with the long day of October is an hour too long, and the day before a
skipped midnight is taken to end at 23:00. -/
theorem wholeDays_fail :
    (∃ start stop, parseRange berlinYear "365d" (1792929600 * second) = .ok (start, stop) ∧
      ({ siteID := 1, fromTime := start, toTime := stop } : Filter).validate =
        .error (.rangeExceeds (maxRange + hour))) ∧
    ¬ DaysLaw berlinYear 365 (1792929600 * second) ∧
    ¬ DaysLaw saoPaulo2018 1 (1541257200 * second) := by
  have hyear := parseRange_dayToken berlinYear (n := 365) (by decide) (by decide)
    (1792929600 * second)
  have hend : dayEnd berlinYear (1792929600 * second / second) = 1792969200 := by decide
  have hstart : berlinYear.addDays 1792969200 (-(365 : ℕ)) = 1761429600 := by decide
  have hshort : dayEnd saoPaulo2018 (1541257200 * second / second) = 1541296800 := by decide
  rw [hend, hstart] at hyear
  refine ⟨⟨_, _, hyear, by decide⟩, ?_, ?_⟩
  · rw [daysLaw_iff _ (by decide) (by decide), hend, hstart]
    rintro ⟨-, -, hspan, -⟩
    exact absurd hspan (by decide)
  · rw [daysLaw_iff _ (by decide) (by decide), hshort]
    rintro ⟨hstop, -⟩
    -- the first instant after the range is one of the same day
    exact absurd ((hstop 1541296800).mpr (by decide)) (by decide)

end Statnive.WholeDayRanges
