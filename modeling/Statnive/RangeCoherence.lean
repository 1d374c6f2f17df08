import Mathlib.Algebra.Order.Group.Abs
import Mathlib.Algebra.Order.Ring.Int
import Mathlib.Algebra.Ring.Divisibility.Basic
import Statnive.Rollups
import Statnive.TimeWindow

/-!
# One range over all panels

The dashboard parses a range between midnights of the site, and the panels read it over buckets
of hours and days in UTC. A panel covers the events that its view and its statement are about.
-/

namespace Statnive.RangeCoherence

open DashboardFilter GroupedAggregates Rollups StoreQueries TimeWindow
open ZonedTime (Zone utc)

def hourKeyed : List Panel := [.overview, .trend]

def dayKeyed : List Panel := [.sources, .pages, .campaigns, .geo]

/-- A filter of a range and nothing else, as the dashboard builds it. -/
structure OfDashboard (loc : Zone) (f : ZonedFilter) : Prop where
  parsed : ∃ fromRaw toRaw now,
    parseDateRange loc fromRaw toRaw now = .ok (f.fromTime, f.toTime)
  fromZone : f.fromZone = "UTC"
  toZone : f.toZone = "UTC"
  valid : f.validate = .ok ()
  columns : ∀ c, value f.toFilter c = ""
  props : f.hasPropFilter = false

/-- The hour-keyed panels are about pageviews and goals, and campaigns about tagged events. -/
def covers : Panel → Event → Bool
  | .overview, e | .trend, e => e.eventType = "pageview" || e.isGoal
  | .campaigns, e => e.utmCampaign ≠ ""
  | _, _ => true

/-- The events of the site in the range that are not of bots. -/
def inRange (f : Filter) (events : Multiset Event) : Multiset Event :=
  events.filter fun e =>
    e.isBot = false ∧ e.siteID = f.siteID ∧ f.fromTime ≤ e.time ∧ e.time < f.toTime

/-- The column that the rollup of a panel is bucketed by. -/
def columnOf : Panel → TimeColumn
  | .overview | .trend => .hour
  | _ => .day

/-- The bucket of the event starts in the range exactly when the event is in it. -/
def Uncut (f : Filter) (column : TimeColumn) (e : Event) : Prop :=
  (f.fromTime ≤ bucketStart e.time column ∧ bucketStart e.time column < f.toTime) ↔
    (f.fromTime ≤ e.time ∧ e.time < f.toTime)

instance (f : Filter) (column : TimeColumn) : DecidablePred (Uncut f column) :=
  fun _ => inferInstanceAs (Decidable (_ ↔ _))

/-- In seconds. -/
def width : TimeColumn → ℤ
  | .hour => 3600
  | .day => 86400
  | .time => 1

/-- In the two weeks around an instant the clocks are ahead by a number of whole buckets. -/
def WholeAround (loc : Zone) (column : TimeColumn) (t : ℤ) : Prop :=
  ∀ s, t - 7 * day ≤ s * second → s * second ≤ t + 7 * day → width column ∣ loc.offset s

/-- The events that are counted in the rows of a panel, before its limit. -/
def counted (zones : String → Zone) (p : Panel) (f : ZonedFilter) (events : Multiset Event) :
    Multiset Event :=
  let q := (p.reader f.toFilter).query f
  match Statement.select q.statement with
  | none => 0
  | some sel => sel.counted zones q events

def groupOf (p : Panel) (e : Event) : Group :=
  match Statement.select p.rollup.statement with
  | none => {}
  | some sel => sel.grouping.ofEvent e

/-- No group of the panel is cut off. -/
def WithinLimit (p : Panel) (f : Filter) (events : Multiset Event) : Prop :=
  ∀ n, p.rollup.cap.limit f = some n → (((events.map (groupOf p)).dedup.card : ℕ) : ℤ) ≤ n

theorem second_eq : second = 1000000000 := by decide

theorem day_eq : day = 86400 * second := by decide

section Whole

variable {loc : Zone} {w : ℤ} (hw : w ∣ 86400)

/-- The clocks are ahead by multiples of `w` in the two days around the instant of a reading. -/
theorem dvd_offsetAt {r : ℤ}
    (h : ∀ s, |s - (r - loc.offsetAt r)| ≤ 2 * 86400 → w ∣ loc.offset s) : w ∣ loc.offsetAt r := by
  unfold Zone.offsetAt at h ⊢
  split_ifs at h ⊢ with hzero
  · exact Int.dvd_zero w
  · apply h
    have hr := loc.lt_day r
    have hnext := loc.lt_day (r - loc.offset r)
    rw [abs_le]
    omega

include hw

theorem dvd_midnight {d : CivilCalendar.Date}
    (h : ∀ s, |s - midnight loc d| ≤ 2 * 86400 → w ∣ loc.offset s) : w ∣ midnight loc d := by
  simp only [midnight, Zone.date, add_zero] at h ⊢
  exact dvd_sub (hw.mul_right _) (dvd_offsetAt h)

private theorem dvd_zoneAddDays {s days : ℤ} (hs : w ∣ s) (hoffset : w ∣ loc.offset s)
    (h : ∀ x, |x - loc.addDays s days| ≤ 2 * 86400 → w ∣ loc.offset x) :
    w ∣ loc.addDays s days := by
  rw [Zone.addDays_eq] at h ⊢
  exact dvd_sub (dvd_add (dvd_add hs hoffset) (hw.mul_right days)) (dvd_offsetAt h)

/-- The instant is one of a number of whole seconds, which `w` divides. -/
def IsWhole (w t : ℤ) : Prop := ∃ s, t = s * second ∧ w ∣ s

/-- The clocks are ahead by multiples of `w` in the two weeks around an instant. -/
def WholeNear (loc : Zone) (w t : ℤ) : Prop :=
  ∀ s, t - 7 * day ≤ s * second → s * second ≤ t + 7 * day → w ∣ loc.offset s

omit hw in
theorem WholeNear.seconds {t n : ℤ} (h : WholeNear loc w (t * second)) (hn : n ≤ 7 * 86400) {s : ℤ}
    (hs : |s - t| ≤ n) : w ∣ loc.offset s := by
  obtain ⟨hlow, hhigh⟩ := abs_le.mp hs
  apply h
  · rw [day_eq, second_eq]
    omega
  · rw [day_eq, second_eq]
    omega

theorem isWhole_parseLocalDate {raw : String} {t : ℤ} (h : parseLocalDate loc raw = .ok t)
    (hloc : WholeNear loc w t) (hne : t ≠ zeroTime) : IsWhole w t := by
  unfold parseLocalDate at h
  split at h
  · exact absurd (Except.ok.inj h).symm hne
  · split at h
    · obtain rfl := Except.ok.inj h
      exact ⟨_, rfl, dvd_midnight hw fun s hs => hloc.seconds (by omega) hs⟩
    · exact absurd h (by simp)

theorem isWhole_addDays {t days : ℤ} (ht : IsWhole w t) (hoffset : w ∣ loc.offset (t / second))
    (hloc : WholeNear loc w (addDays loc t days)) : IsWhole w (addDays loc t days) := by
  obtain ⟨s, rfl, hs⟩ := ht
  have hdiv : s * second / second = s := Int.mul_ediv_cancel s (by decide)
  rw [hdiv] at hoffset
  refine ⟨_, rfl, ?_⟩
  rw [hdiv]
  refine dvd_zoneAddDays hw hs hoffset fun x hx => ?_
  rw [addDays, hdiv] at hloc
  exact hloc.seconds (by omega) hx

/-- The midnight after an instant is less than four days from the one before it. -/
theorem isWhole_tomorrow {now : ℤ}
    (hloc : WholeNear loc w (addDays loc (startOfLocalDay loc now) 1)) :
    IsWhole w (addDays loc (startOfLocalDay loc now) 1) := by
  have hnear (m : ℤ) : |m - loc.addDays m 1| ≤ 4 * 86400 := by
    have hm := loc.lt_day m
    have hat := loc.offsetAt_lt_day (loc.reading m + 86400 * 1)
    rw [Zone.addDays_eq, abs_le]
    simp only [Zone.reading] at hat ⊢
    omega
  have hdiv : startOfLocalDay loc now / second =
      midnight loc (CivilCalendar.civil (loc.day (now / second))) :=
    Int.mul_ediv_cancel _ (by decide)
  have hloc' := hloc
  rw [addDays, hdiv] at hloc'
  refine isWhole_addDays hw ⟨_, rfl, dvd_midnight hw fun s hs => ?_⟩ ?_ hloc
  · have hm := hnear (midnight loc (CivilCalendar.civil (loc.day (now / second))))
    refine hloc'.seconds (n := 6 * 86400) (by omega) ?_
    rw [abs_le] at hs hm ⊢
    omega
  · rw [hdiv]
    exact hloc'.seconds (by omega) (hnear _)

/-- The range of a site whose clocks are ahead by multiples of `w` around its ends. -/
theorem isWhole_of_parseDateRange {fromRaw toRaw : String} {now start stop : ℤ}
    (h : parseDateRange loc fromRaw toRaw now = .ok (start, stop)) (hstart : WholeNear loc w start)
    (hstop : WholeNear loc w stop) : IsWhole w start ∧ IsWhole w stop := by
  unfold parseDateRange at h
  cases hto : parseLocalDate loc toRaw with
  | error e => simp [hto, bind, Except.bind] at h
  | ok toTime =>
    cases hfrom : parseLocalDate loc fromRaw with
    | error e => simp [hto, hfrom, bind, Except.bind] at h
    | ok fromTime =>
      simp only [hto, hfrom, bind, Except.bind, pure, Except.pure, Except.ok.injEq,
        Prod.mk.injEq] at h
      obtain ⟨rfl, rfl⟩ := h
      have hstop' : IsWhole w (if toTime = zeroTime then addDays loc (startOfLocalDay loc now) 1
          else toTime) := by
        by_cases hzero : toTime = zeroTime
        · rw [if_pos hzero] at hstop ⊢
          exact isWhole_tomorrow hw hstop
        · rw [if_neg hzero] at hstop ⊢
          exact isWhole_parseLocalDate hw hto hstop hzero
      refine ⟨?_, hstop'⟩
      by_cases hzero : fromTime = zeroTime
      · rw [if_pos hzero] at hstart ⊢
        refine isWhole_addDays hw hstop' ?_ hstart
        obtain ⟨s, hs, -⟩ := hstop'
        rw [hs] at hstop ⊢
        rw [Int.mul_ediv_cancel s (by decide)]
        exact hstop.seconds (n := 0) (by omega) (by simp)
      · rw [if_neg hzero] at hstart ⊢
        exact isWhole_parseLocalDate hw hfrom hstart hzero

end Whole

/-- Midnights are at whole seconds. -/
theorem seconds_of_parseDateRange {loc : Zone} {fromRaw toRaw : String} {now start stop : ℤ}
    (h : parseDateRange loc fromRaw toRaw now = .ok (start, stop)) :
    truncate start second = start ∧ truncate stop second = stop := by
  have htruncate {t : ℤ} (ht : IsWhole 1 t) : truncate t second = t := by
    obtain ⟨s, rfl, -⟩ := ht
    rw [truncate, Int.mul_emod_left, sub_zero]
  have hones (t : ℤ) : WholeNear loc 1 t := fun s _ _ => one_dvd _
  exact (isWhole_of_parseDateRange (one_dvd _) h (hones _) (hones _)).imp htruncate htruncate

theorem inUTC_of_dashboard {loc : Zone} {f : ZonedFilter} (h : OfDashboard loc f) : InUTC f := by
  obtain ⟨fromRaw, toRaw, now, hparsed⟩ := h.parsed
  obtain ⟨hfrom, hto⟩ := seconds_of_parseDateRange hparsed
  exact ⟨h.fromZone, h.toZone, hfrom, hto⟩

private theorem width_dvd_day (column : TimeColumn) : width column ∣ 86400 := by
  cases column <;> decide

/-- A range between starts of buckets cuts none. -/
theorem uncut_of_isWhole {f : Filter} {column : TimeColumn}
    (hfrom : IsWhole (width column) f.fromTime) (hto : IsWhole (width column) f.toTime)
    (e : Event) : Uncut f column e := by
  obtain ⟨-, hstart, start, rfl⟩ := hfrom
  obtain ⟨-, hstop, stop, rfl⟩ := hto
  have hhour : hour = 3600000000000 := by decide
  have hday : day = 86400000000000 := by decide
  cases column with
  | hour =>
    rw [Uncut, hstart, hstop]
    simp only [bucketStart, truncate, width, hhour, second_eq]
    omega
  | day =>
    rw [Uncut, hstart, hstop]
    simp only [bucketStart, truncate, width, hday, second_eq]
    omega
  | time => exact Iff.rfl

/-- Whole hours off UTC, no bucket of an hour is cut; at UTC, none of a day. -/
theorem uncut_of_wholeAround {loc : Zone} {f : ZonedFilter} (hf : OfDashboard loc f)
    {column : TimeColumn} (hfrom : WholeAround loc column f.fromTime)
    (hto : WholeAround loc column f.toTime) (e : Event) : Uncut f.toFilter column e := by
  obtain ⟨fromRaw, toRaw, now, hparsed⟩ := hf.parsed
  obtain ⟨hstart, hstop⟩ :=
    isWhole_of_parseDateRange (width_dvd_day column) hparsed hfrom hto
  exact uncut_of_isWhole hstart hstop e

section Panels

variable {zones : String → Zone} (hutc : zones "UTC" = utc)
variable {loc : Zone} {f : ZonedFilter} {events : Multiset Event} (hf : OfDashboard loc f)
variable {r : Reader} {sel : Select} {v : View} {keeps : Event → Prop} [DecidablePred keeps]
  (hfits : Fits r sel) (hsource : sel.source = .rollup v)
  (hkeeps : ∀ e, (v.keeps e = true ∧ sel.fixed (sel.source.bucket e) = true) ↔
    (e.isBot = false ∧ keeps e))

include hutc hf hfits hsource hkeeps

/-- The statement of a rollup counts the events that its view and its own condition keep and
whose bucket starts in the range. -/
theorem counts_iff (e : Event) : (sel.source.keeps (r.query f).props e &&
      (Query.holds zones (r.query f) (sel.source.bucket e) && sel.fixed (sel.source.bucket e))) =
        true ↔
    (e.isBot = false ∧ e.siteID = f.siteID ∧ keeps e) ∧
      f.fromTime ≤ bucketStart e.time sel.source.column ∧
        bucketStart e.time sel.source.column < f.toTime := by
  have hmatches : MatchesCols f.toFilter r.cols e := fun c _ hc => absurd (hf.columns c) hc
  have hview : sel.source.keeps (r.query f).props e = v.keeps e := by rw [hsource]; rfl
  rw [Bool.and_eq_true, Bool.and_eq_true, hview,
    holds_query_utc hutc hfits (inUTC_of_dashboard hf)]
  have hiff := hkeeps e
  tauto

/-- Of the events of which `P` says that they are uncut, those in the range are counted. -/
theorem counted_of_fits {P : Event → Prop} [DecidablePred P]
    (huncut : ∀ e ∈ events, e.siteID = f.siteID → e.isBot = false → keeps e → P e →
      Uncut f.toFilter sel.source.column e) : (sel.counted zones (r.query f) events).filter P =
        ((inRange f.toFilter events).filter keeps).filter P := by
  rw [Select.counted, inRange, Multiset.filter_filter, Multiset.filter_filter,
    Multiset.filter_filter]
  refine Multiset.filter_congr fun e he => ?_
  rw [counts_iff hutc hf hfits hsource hkeeps e]
  have hcut := huncut e he
  constructor
  · rintro ⟨hP, ⟨hbot, hsite, hkept⟩, hbucket⟩
    obtain ⟨hfrom, hto⟩ := (hcut hsite hbot hkept hP).mp hbucket
    exact ⟨⟨hP, hkept⟩, hbot, hsite, hfrom, hto⟩
  · rintro ⟨⟨hP, hkept⟩, hbot, hsite, hfrom, hto⟩
    exact ⟨hP, ⟨hbot, hsite, hkept⟩, (hcut hsite hbot hkept hP).mpr ⟨hfrom, hto⟩⟩

end Panels

/-- The statement of a panel over its rollup, and what the two keep. -/
structure Covered (p : Panel) (sel : Select) (v : View) : Prop where
  fits : Fits p.rollup sel
  source : sel.source = .rollup v
  column : sel.source.column = columnOf p
  keeps : ∀ e, (v.keeps e = true ∧ sel.fixed (sel.source.bucket e) = true) ↔
    (e.isBot = false ∧ covers p e = true)
  series : sel.grouping = .daily → p.rollup.cap = .unlimited
  whole : sel.grouping = .whole → p.rollup.cap = .unlimited

private theorem exists_covered {p : Panel} (hp : p ∈ hourKeyed ++ dayKeyed) :
    ∃ sel v, Covered p sel v := by
  cases p with
  | overview =>
    refine ⟨{ source := .rollup mvHourlyVisitors, grouping := .whole }, mvHourlyVisitors,
      ⟨rfl, rfl, by decide, by decide⟩, rfl, rfl, fun e => ?_, fun _ => rfl, fun _ => rfl⟩
    simp [mvHourlyVisitors, covers]
  | trend =>
    refine ⟨{ source := .rollup mvHourlyVisitors, grouping := .daily }, mvHourlyVisitors,
      ⟨rfl, rfl, by decide, by decide⟩, rfl, rfl, fun e => ?_, fun _ => rfl, fun _ => rfl⟩
    simp [mvHourlyVisitors, covers]
  | sources =>
    refine ⟨{ source := .rollup mvDailySources, grouping := .dims sourcesDims }, mvDailySources,
      ⟨rfl, rfl, by decide, by decide⟩, rfl, rfl, fun e => ?_, by simp, by simp⟩
    simp [mvDailySources, covers]
  | pages =>
    refine ⟨{ source := .rollup mvDailyPages, grouping := .dims [.column .pathname] },
      mvDailyPages, ⟨rfl, rfl, by decide, by decide⟩, rfl, rfl, fun e => ?_, by simp, by simp⟩
    simp [mvDailyPages, covers]
  | campaigns =>
    let tagged : Select :=
      { source := .rollup mvDailySources, grouping := .dims campaignsDims, fixed := isTagged }
    refine ⟨tagged, mvDailySources, ⟨rfl, rfl, by decide, by decide⟩, rfl, rfl, fun e => ?_, by simp,
      by simp⟩
    rw [show tagged.fixed = isTagged from rfl, isTagged_bucket (by decide)]
    simp [mvDailySources, covers]
  | geo =>
    let places : Grouping := .dims [.column .countryCode, .province, .city]
    refine ⟨{ source := .rollup mvDailyGeo, grouping := places }, mvDailyGeo,
      ⟨rfl, rfl, by decide, by decide⟩, rfl, rfl, fun e => ?_, by simp [places], by simp [places]⟩
    simp [mvDailyGeo, covers]
  | sourcesByChannel => exact absurd hp (by decide)
  | seo => exact absurd hp (by decide)
  | geoTopCountries => exact absurd hp (by decide)

private theorem sum_views (rows : Multiset (Group × Totals)) :
    ((rows.map toRow).map Row.views).sum = (total Prod.snd rows).views := by
  induction rows using Multiset.induction_on with
  | empty => rfl
  | cons row rows ih =>
    rw [Multiset.map_cons, Multiset.map_cons, Multiset.sum_cons, ih, total_cons, Totals.add_views]
    rfl

section Main

variable {ρ : Type*} [LinearOrder ρ] (rpv : ℕ → ℕ → ρ)
variable {zones : String → Zone} {loc : Zone} {f : ZonedFilter} {events : Multiset Event}

private theorem reader_of_dashboard (hf : OfDashboard loc f) (p : Panel) :
    p.reader f.toFilter = p.rollup := by
  rw [Panel.reader, hf.props, if_neg Bool.false_ne_true]

/-- Without a limit in the way, all groups are returned. -/
theorem card_groupsOf_le {p : Panel} {sel : Select} {v : View} (hcovered : Covered p sel v)
    {start stop : ℤ} {m : Event → Totals} {s : Multiset Event}
    (hlimit : WithinLimit p f.toFilter s) {n : ℕ}
    (hn : (p.rollup.cap.limit f.toFilter).map Int.toNat = some n) :
    (groupsOf sel.grouping start stop m s).card ≤ n := by
  obtain ⟨k, hk, rfl⟩ := Option.map_eq_some_iff.mp hn
  have hlimited : p.rollup.cap ≠ .unlimited := by
    intro hnone
    rw [hnone] at hk
    exact absurd hk (by simp [Cap.limit])
  have hgroup : groupOf p = sel.grouping.ofEvent := by
    funext e
    rw [groupOf, hcovered.fits.select]
  have hcard := hlimit k hk
  rw [hgroup] at hcard
  cases hgrouping : sel.grouping with
  | whole => exact absurd (hcovered.whole hgrouping) hlimited
  | daily => exact absurd (hcovered.series hgrouping) hlimited
  | dims ds =>
    rw [hgrouping] at hcard
    have hrows : (groupsOf (.dims ds) start stop m s).card =
        (s.map (Grouping.dims ds).ofEvent).dedup.card := by
      rw [groupsOf, ← fst_groupBy (m := m), Multiset.card_map]
    rw [hrows]
    omega

/-- No bucket of a panel is cut where the clocks are ahead by whole buckets around the ends of the
range. Of the events that are not cut, a panel counts exactly those in the range that it covers.
If no event is cut, its rows add up to them unless some are cut off by its limit. -/
theorem panels_coherent (hutc : zones "UTC" = utc) (hf : OfDashboard loc f)
    {p : Panel} (hp : p ∈ hourKeyed ++ dayKeyed) :
    let uncut := Uncut f.toFilter (columnOf p)
    let covered := (inRange f.toFilter events).filter fun e => covers p e = true
    (WholeAround loc (columnOf p) f.fromTime → WholeAround loc (columnOf p) f.toTime →
      ∀ e, uncut e) ∧
    (counted zones p f events).filter uncut = covered.filter uncut ∧
    ((∀ e ∈ events, e.siteID = f.siteID → e.isBot = false → covers p e = true → uncut e) →
      counted zones p f events = covered ∧ (WithinLimit p f.toFilter covered →
        ∀ out ∈ Query.answers rpv zones ((p.reader f.toFilter).query f) events,
          (out.map Row.views).sum = covered.card)) := by
  obtain ⟨sel, v, hcovered⟩ := exists_covered hp
  have hselect : Statement.select (p.rollup.query f).statement = some sel := hcovered.fits.select
  have htotals : sel.source.totals = Event.totals := by
    rw [hcovered.source]
    rfl
  rw [counted, reader_of_dashboard hf]
  simp only [hselect]
  refine ⟨fun hfrom hto => uncut_of_wholeAround hf hfrom hto,
    counted_of_fits hutc hf hcovered.fits hcovered.source hcovered.keeps
      fun e _ _ _ _ huncut => hcovered.column ▸ huncut, fun huncut => ?_⟩
  have hcounted : sel.counted zones (p.rollup.query f) events =
      (inRange f.toFilter events).filter fun e => covers p e = true := by
    have hall := counted_of_fits (P := fun _ => True) hutc hf hcovered.fits hcovered.source
      hcovered.keeps fun e he hsite hbot hkept _ =>
        hcovered.column ▸ huncut e he hsite hbot hkept
    simpa only [Multiset.filter_true] using hall
  refine ⟨hcounted, fun hlimit out hout => ?_⟩
  rw [answers_utc hutc rpv hcovered.fits (inUTC_of_dashboard hf), hcounted, htotals] at hout
  have hrows := coe_of_mem_answers hout fun n hn => by
    rw [Multiset.card_map]
    exact card_groupsOf_le hcovered hlimit hn
  have hsum := sum_views (groupsOf sel.grouping (truncate f.fromTime day) (truncate f.toTime day)
    Event.totals ((inRange f.toFilter events).filter fun e => covers p e = true))
  rw [← hrows, total_groupsOf, views_total] at hsum
  exact hsum

end Main

/-- The first day of the epoch, of a site in UTC. -/
def epochDay : ZonedFilter :=
  { siteID := 1, fromTime := 0, toTime := day, fromZone := "UTC", toZone := "UTC" }

private theorem ofDashboard_epochDay : OfDashboard utc epochDay where
  parsed := ⟨"1970-01-01", "1970-01-02", 0, by decide +kernel⟩
  fromZone := rfl
  toZone := rfl
  valid := rfl
  columns c := by cases c <;> rfl
  props := rfl

/-- A visit without a campaign. -/
def visit : Event := { siteID := 1, time := hour, visitorHash := [1], pathname := "/" }

/-- An hour ahead, and two from the morning of 1980-04-06 on. -/
def berlin : Zone where
  offset s := if s < 323830800 then 3600 else 7200
  lt_day s := by split_ifs <;> decide

/-- The day of the change, of a site in Berlin. -/
def changeDay : ZonedFilter :=
  { siteID := 1, fromTime := 323823600 * second, toTime := 323906400 * second
    fromZone := "UTC", toZone := "UTC" }

private theorem ofDashboard_changeDay : OfDashboard berlin changeDay where
  parsed := ⟨"1980-04-06", "1980-04-07", 0, by decide +kernel⟩
  fromZone := rfl
  toZone := rfl
  valid := rfl
  columns c := by cases c <;> rfl
  props := rfl

theorem wholeAround_berlin (t : ℤ) : WholeAround berlin .hour t := by
  intro s _ _
  simp only [berlin, width]
  split_ifs <;> decide

/-- Visits in the first and the last half hour of that day, and just before and after it. -/
def changeVisits : Multiset Event :=
  {{ visit with time := 323824000 * second }, { visit with time := 323905000 * second },
    { visit with time := 323823000 * second }, { visit with time := 323906400 * second }}

theorem panels_coherent_changeDay : Multiset.card (counted (fun _ => utc) .overview changeDay
    changeVisits) = 2 ∧ ∀ out ∈ Query.answers (· / ·) (fun _ => utc)
      ((Panel.overview.reader changeDay.toFilter).query changeDay) changeVisits,
      (out.map Row.views).sum = 2 := by
  obtain ⟨huncut, -, hrows⟩ := @panels_coherent _ _ (· / ·) (fun _ => utc) berlin changeDay
    changeVisits rfl ofDashboard_changeDay .overview (by decide)
  obtain ⟨hcounted, hsum⟩ := hrows fun e _ _ _ _ =>
    huncut (wholeAround_berlin _) (wholeAround_berlin _) e
  have hcard : Multiset.card ((inRange changeDay.toFilter changeVisits).filter
      fun e => covers .overview e = true) = 2 := by decide +kernel
  exact ⟨hcounted ▸ hcard, fun out hout => (hsum nofun out hout).trans hcard⟩

/-- Three and a half hours ahead. -/
def tehran : Zone := ⟨fun _ => 12600, fun _ => by decide⟩

/-- The second day of the epoch, of a site in Tehran. -/
def tehranDay : ZonedFilter :=
  { siteID := 1, fromTime := day - 12600 * second, toTime := 2 * day - 12600 * second
    fromZone := "UTC", toZone := "UTC" }

private theorem ofDashboard_tehranDay : OfDashboard tehran tehranDay where
  parsed := ⟨"1970-01-02", "1970-01-03", 0, by decide +kernel⟩
  fromZone := rfl
  toZone := rfl
  valid := rfl
  columns c := by cases c <;> rfl
  props := rfl

/-- An hour into that day. -/
def nightVisit : Event :=
  { visit with time := day - 9000 * second, utmCampaign := "spring" }

def customVisit : Event := { visit with eventType := "custom" }

/-- An event that is neither a pageview nor a goal nor tagged is on the day-keyed panels but
those of campaigns; and one before the midnight of UTC is on the hour-keyed panels only. -/
theorem panels_incoherent :
    (OfDashboard utc epochDay ∧ inRange epochDay.toFilter {customVisit} = {customVisit} ∧
      counted (fun _ => utc) .sources epochDay {customVisit} = {customVisit} ∧
      counted (fun _ => utc) .campaigns epochDay {customVisit} = 0 ∧
      counted (fun _ => utc) .overview epochDay {customVisit} = 0) ∧
    OfDashboard tehran tehranDay ∧ inRange tehranDay.toFilter {nightVisit} = {nightVisit} ∧
      counted (fun _ => utc) .overview tehranDay {nightVisit} = {nightVisit} ∧
      counted (fun _ => utc) .sources tehranDay {nightVisit} = 0 :=
  ⟨⟨ofDashboard_epochDay, by decide +kernel⟩, ofDashboard_tehranDay, by decide +kernel⟩

end Statnive.RangeCoherence
