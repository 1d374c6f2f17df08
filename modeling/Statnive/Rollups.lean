import Statnive.GroupedAggregates
import Statnive.StoreQueries
import Statnive.ZonedTime

/-!
# The rollups and their queries

The views of the migrations aggregate the events by site, bucket of time and some dimensions.
A panel groups the rows of a view, or the events themselves. Visitors are counted exactly.
-/

namespace Statnive.Rollups

open CivilCalendar DashboardFilter GroupedAggregates StoreQueries ZonedTime
open PrivacyPolicy (Bytes)

/-- What the panels read of a row of `events_raw`. -/
structure Event where
  siteID : ℕ
  time : ℤ
  visitorHash : Bytes
  pathname : String
  referrerName : String := ""
  channel : String := ""
  utmSource : String := ""
  utmMedium : String := ""
  utmCampaign : String := ""
  utmContent : String := ""
  utmTerm : String := ""
  countryCode : String := ""
  province : String := ""
  city : String := ""
  eventType : String := "pageview"
  eventValue : ℕ := 0
  isGoal : Bool := false
  isBot : Bool := false
  hitProps : List (String × String) := []
  sessionProps : List (String × String) := []
  userProps : List (String × String) := []
  deriving DecidableEq

/-- The columns of filters and two more that are grouped by. -/
inductive Dim where
  | column (c : Column)
  | province
  | city
  deriving DecidableEq

def Event.value (e : Event) : Dim → String
  | .column .channel => e.channel
  | .column .referrerName => e.referrerName
  | .column .utmSource => e.utmSource
  | .column .utmMedium => e.utmMedium
  | .column .utmCampaign => e.utmCampaign
  | .column .utmContent => e.utmContent
  | .column .utmTerm => e.utmTerm
  | .column .pathname => e.pathname
  | .column .countryCode => e.countryCode
  | .province => e.province
  | .city => e.city

def Event.props (e : Event) : PropScope → List (String × String)
  | .hit => e.hitProps
  | .session => e.sessionProps
  | .user => e.userProps

/-- `has(props, name) AND props[name] = value`. -/
def Event.has (e : Event) (prop : PropScope × String × String) : Bool :=
  (e.props prop.1).lookup prop.2.1 = some prop.2.2

/-- The aggregates of a row; the state of the visitors is their set. -/
@[ext] structure Totals where
  views : ℕ
  visitors : Finset Bytes
  goals : ℕ
  revenue : ℕ
  deriving DecidableEq

instance : Zero Totals := ⟨⟨0, ∅, 0, 0⟩⟩

instance : Add Totals := ⟨fun a b => ⟨a.views + b.views, a.visitors ∪ b.visitors,
  a.goals + b.goals, a.revenue + b.revenue⟩⟩

instance : AddCommMonoid Totals where
  add_assoc a b c := Totals.ext (add_assoc _ _ _) (Finset.union_assoc _ _ _) (add_assoc _ _ _)
    (add_assoc _ _ _)
  zero_add a := Totals.ext (zero_add _) (Finset.empty_union _) (zero_add _) (zero_add _)
  add_zero a := Totals.ext (add_zero _) (Finset.union_empty _) (add_zero _) (add_zero _)
  add_comm a b := Totals.ext (add_comm _ _) (Finset.union_comm _ _) (add_comm _ _) (add_comm _ _)
  nsmul := nsmulRec

@[simp] theorem Totals.zero_views : (0 : Totals).views = 0 := rfl

@[simp] theorem Totals.add_views (a b : Totals) : (a + b).views = a.views + b.views := rfl

/-- `count()`, `uniqCombined64State(visitor_hash)`, `sum(is_goal)` and `sum(event_value)`. -/
def Event.totals (e : Event) : Totals where
  views := 1
  visitors := {e.visitorHash}
  goals := if e.isGoal then 1 else 0
  revenue := e.eventValue

theorem views_total (s : Multiset Event) : (total Event.totals s).views = s.card := by
  induction s using Multiset.induction_on with
  | empty => rfl
  | cons e s ih =>
    rw [total_cons, Totals.add_views, ih, Multiset.card_cons, add_comm]
    rfl

/-- The aggregates over the events themselves: revenue is that of the goals. -/
def Event.rawTotals (countsView : Event → Bool) (e : Event) : Totals where
  views := if countsView e then 1 else 0
  visitors := {e.visitorHash}
  goals := if e.isGoal then 1 else 0
  revenue := if e.isGoal then e.eventValue else 0

/-- The bucket of an instant, by its start. -/
def bucketStart (t : ℤ) : TimeColumn → ℤ
  | .hour => truncate t hour
  | .day => truncate t day
  | .time => t

def pick (dims : List Dim) (value : Dim → String) : List (Dim × String) :=
  dims.map fun d => (d, value d)

/-- What the rows of a table are told apart by. -/
structure Bucket where
  siteID : ℕ
  start : ℤ
  dims : List (Dim × String)
  deriving DecidableEq

def Bucket.value (b : Bucket) (d : Dim) : String := (b.dims.lookup d).getD ""

structure View where
  column : TimeColumn
  dims : List Dim
  keeps : Event → Bool

def mvHourlyVisitors : View where
  column := .hour
  dims := [.column .channel]
  keeps e := !e.isBot && (e.eventType = "pageview" || e.isGoal)

def mvDailyPages : View where
  column := .day
  dims := [.column .pathname, .column .channel]
  keeps e := !e.isBot

def mvDailySources : View where
  column := .day
  dims := [.column .referrerName, .column .channel, .column .utmSource, .column .utmMedium,
    .column .utmCampaign, .column .utmContent, .column .utmTerm]
  keeps e := !e.isBot

def mvDailyGeo : View where
  column := .day
  dims := [.column .countryCode, .province, .city]
  keeps e := !e.isBot

/-- Where a statement reads from: a rollup, or the events, whose views it counts as it says. -/
inductive Source where
  | rollup (v : View)
  | eventsRaw (countsView : Event → Bool)

def Source.column : Source → TimeColumn
  | .rollup v => v.column
  | .eventsRaw _ => .time

def Source.dims : Source → List Dim
  | .rollup v => v.dims
  | .eventsRaw _ => candidates.map .column

def Source.keeps (props : List (PropScope × String × String)) : Source → Event → Bool
  | .rollup v, e => v.keeps e
  | .eventsRaw _, e => props.all e.has

def Source.totals : Source → Event → Totals
  | .rollup _, e => e.totals
  | .eventsRaw countsView, e => e.rawTotals countsView

def Source.bucket (s : Source) (e : Event) : Bucket where
  siteID := e.siteID
  start := bucketStart e.time s.column
  dims := pick s.dims e.value

/-- The rows of the table: one for each bucket of a rollup, one for each event. -/
def Source.rows (props : List (PropScope × String × String)) (s : Source)
    (events : Multiset Event) : Multiset (Bucket × Totals) :=
  let kept := events.filter fun e => s.keeps props e
  match s with
  | .rollup _ => groupBy s.bucket s.totals kept
  | .eventsRaw _ => kept.map fun e => (s.bucket e, s.totals e)

/-- What the rows are grouped by: nothing, dimensions, or the day. -/
inductive Grouping where
  | whole
  | dims (ds : List Dim)
  | daily

structure Select where
  source : Source
  grouping : Grouping
  /-- The conditions of the statement itself. -/
  fixed : Bucket → Bool := fun _ => true

def channelOrganicSearch : String := "Organic Search"

def isOrganic (b : Bucket) : Bool := b.value (.column .channel) = channelOrganicSearch

def isTagged (b : Bucket) : Bool := b.value (.column .utmCampaign) ≠ ""

/-- `count()`. -/
def countsAll : Event → Bool := fun _ => true

/-- `countIf(event_type = 'pageview')`. -/
def countsPageviews : Event → Bool := fun e => e.eventType = "pageview"

def sourcesDims : List Dim := [.column .referrerName, .column .channel]

def campaignsDims : List Dim :=
  [.column .utmCampaign, .column .utmSource, .column .utmMedium, .column .utmContent,
    .column .utmTerm, .column .channel]

/-- The other statements are not of a panel. -/
def Statement.select : Statement → Option Select
  | .overview => some { source := .rollup mvHourlyVisitors, grouping := .whole }
  | .overviewFromRaw => some { source := .eventsRaw countsPageviews, grouping := .whole }
  | .sources => some { source := .rollup mvDailySources, grouping := .dims sourcesDims }
  | .sourcesFromRaw => some { source := .eventsRaw countsAll, grouping := .dims sourcesDims }
  | .sourcesByChannel => some
      { source := .rollup mvDailySources, grouping := .dims [.column .channel] }
  | .sourcesByChannelFromRaw => some
      { source := .eventsRaw countsAll, grouping := .dims [.column .channel] }
  | .pages => some { source := .rollup mvDailyPages, grouping := .dims [.column .pathname] }
  | .pagesFromRaw => some
      { source := .eventsRaw countsAll, grouping := .dims [.column .pathname] }
  | .seo => some { source := .rollup mvDailySources, grouping := .daily, fixed := isOrganic }
  | .seoFromRaw => some { source := .eventsRaw countsAll, grouping := .daily, fixed := isOrganic }
  | .campaigns => some
      { source := .rollup mvDailySources, grouping := .dims campaignsDims, fixed := isTagged }
  | .campaignsFromRaw => some
      { source := .eventsRaw countsAll, grouping := .dims campaignsDims }
  | .trend => some { source := .rollup mvHourlyVisitors, grouping := .daily }
  | .trendFromRaw => some { source := .eventsRaw countsAll, grouping := .daily }
  | .geo => some
      { source := .rollup mvDailyGeo, grouping := .dims [.column .countryCode, .province, .city] }
  | .geoTopCountries => some
      { source := .rollup mvDailyGeo, grouping := .dims [.column .countryCode] }
  | _ => none

/-- The instant at which a day starts. -/
def dayStart (z : Zone) (n : ℤ) : ℤ :=
  z.date (civil n).year (civil n).month (civil n).day 0 * second

/-- What a panel groups by, as it is returned. -/
structure Group where
  day : Option ℤ := none
  dims : List (Dim × String) := []
  deriving DecidableEq

def Grouping.key : Grouping → Bucket → Group
  | .whole, _ => {}
  | .dims ds, b => { dims := pick ds b.value }
  | .daily, b => { day := some (truncate b.start day) }

section Server

-- the time zones that the server knows by name
variable (zones : String → Zone)

/-- A `Date` is compared with a `DateTime` as the midnight in the zone of the latter. -/
def comparedStart (column : TimeColumn) (start : ℤ) (zone : String) : ℤ :=
  match column with
  | .day => dayStart (zones zone) (start / day)
  | _ => start

/-- The arguments are sent in whole seconds. -/
def withinRange : StoreQueries.Range → Bucket → Bool
  | .between siteID column start stop, b => b.siteID = siteID &&
      truncate start.instant second ≤ comparedStart zones column b.start start.zone &&
      comparedStart zones column b.start stop.zone < truncate stop.instant second
  | _, _ => false

def Query.holds (q : Query) (b : Bucket) : Bool :=
  withinRange zones q.range b && q.filters.all fun c => b.value (.column c.1) = c.2

def Select.matching (sel : Select) (q : Query) (events : Multiset Event) :
    Multiset (Bucket × Totals) :=
  (sel.source.rows q.props events).filter fun row => Query.holds zones q row.1 && sel.fixed row.1

/-- `toDate` of an argument over a rollup, `toStartOfDay` over the events. -/
def Source.fillBound (s : Source) (t : Time) : ℤ :=
  let n := (zones t.zone).day (t.instant / second)
  match s with
  | .rollup _ => n * day
  | .eventsRaw _ => dayStart (zones t.zone) n

/-- The days of a range that have no row get an empty one. -/
def fill (start stop : ℤ) (rows : Multiset (Group × Totals)) : Multiset (Group × Totals) :=
  let days := (List.range ((stop - start + day - 1) / day).toNat).map fun (k : ℕ) =>
    start + k * day
  let missing := days.filter fun d => ∀ row ∈ rows, row.1.day ≠ some d
  rows + (missing.map fun d => ({ day := some d }, 0) : List (Group × Totals))

/-- Without a `GROUP BY` there is one row, whether anything matches or not. -/
def Select.groups (sel : Select) (q : Query) (events : Multiset Event) :
    Multiset (Group × Totals) :=
  let matching := sel.matching zones q events
  let grouped := groupBy (fun row => sel.grouping.key row.1) Prod.snd matching
  match sel.grouping, q.range with
  | .whole, _ => {({}, total Prod.snd matching)}
  | .daily, .between _ _ start stop =>
    fill (sel.source.fillBound zones start) (sel.source.fillBound zones stop) grouped
  | _, _ => grouped

end Server

structure Row where
  group : Group
  views : ℕ
  visitors : ℕ
  goals : ℕ
  revenue : ℕ
  deriving DecidableEq

def toRow (row : Group × Totals) : Row where
  group := row.1
  views := row.2.views
  visitors := row.2.visitors.card
  goals := row.2.goals
  revenue := row.2.revenue

def Row.value (r : Row) (d : Dim) : String := (r.group.dims.lookup d).getD ""

section Order

-- `rpv` is the quotient of revenue and visitors, zero without visitors
variable {ρ : Type*} [LinearOrder ρ] (rpv : ℕ → ℕ → ρ)

def compareBy (a b : Row) : SortKey → Ordering
  | .views => compare a.views b.views
  | .visitors => compare a.visitors b.visitors
  | .goals => compare a.goals b.goals
  | .revenue => compare a.revenue b.revenue
  | .rpv => compare (rpv a.revenue a.visitors) (rpv b.revenue b.visitors)
  | .pathname => compare (a.value (.column .pathname)) (b.value (.column .pathname))
  | .referrerName => compare (a.value (.column .referrerName)) (b.value (.column .referrerName))
  | .channel => compare (a.value (.column .channel)) (b.value (.column .channel))
  | .utmCampaign => compare (a.value (.column .utmCampaign)) (b.value (.column .utmCampaign))
  | .countryCode => compare (a.value (.column .countryCode)) (b.value (.column .countryCode))
  | .province => compare (a.value .province) (b.value .province)
  | .city => compare (a.value .city) (b.value .city)

/-- The first term that tells two rows apart decides. -/
def compareTerms (a b : Row) : List OrderTerm → Ordering
  | [] => .eq
  | t :: ts =>
    (if t.descending then compareBy rpv b a t.key else compareBy rpv a b t.key).then
      (compareTerms a b ts)

def rowLE (grouping : Grouping) (order : List OrderTerm) (a b : Row) : Prop :=
  match grouping with
  | .daily => a.group.day.getD 0 ≤ b.group.day.getD 0
  | _ => compareTerms rpv a b order ≠ .gt

/-- The rows that a panel may return; the store adds the quotient of revenue and visitors to
each. -/
def Query.answers (zones : String → Zone) (q : Query) (events : Multiset Event) :
    Set (List Row) :=
  match Statement.select q.statement with
  | none => ∅
  | some sel => Answers (rowLE rpv sel.grouping q.order) (q.limit.map Int.toNat)
      ((sel.groups zones q events).map toRow)

end Order

section Counted

variable (zones : String → Zone)

/-- The events that are counted in the rows of a statement. -/
def Select.counted (sel : Select) (q : Query) (events : Multiset Event) : Multiset Event :=
  events.filter fun e => sel.source.keeps q.props e &&
    (Query.holds zones q (sel.source.bucket e) && sel.fixed (sel.source.bucket e))

variable {zones} {sel : Select} {q : Query} {events : Multiset Event}

theorem counted_eq : sel.counted zones q events =
    (events.filter fun e => sel.source.keeps q.props e).filter fun e =>
      Query.holds zones q (sel.source.bucket e) && sel.fixed (sel.source.bucket e) := by
  rw [Select.counted, Multiset.filter_filter]
  exact Multiset.filter_congr fun e _ => by rw [Bool.and_eq_true, and_comm]

/-- The rows of a rollup are counted as the events are that they are of. -/
theorem groupBy_matching {κ : Type*} [DecidableEq κ] (g : Bucket → κ) :
    groupBy (fun row => g row.1) Prod.snd (sel.matching zones q events) =
      groupBy (fun e => g (sel.source.bucket e)) sel.source.totals
        (sel.counted zones q events) := by
  rw [Select.matching, counted_eq]
  cases hsource : sel.source with
  | rollup v =>
    simp only [Source.rows]
    rw [filter_groupBy fun b => (Query.holds zones q b && sel.fixed b) = true, groupBy_groupBy]
  | eventsRaw countsView =>
    simp only [Source.rows]
    rw [Multiset.filter_map, groupBy_map]
    rfl

theorem total_matching :
    total Prod.snd (sel.matching zones q events) =
      total sel.source.totals (sel.counted zones q events) := by
  rw [Select.matching, counted_eq]
  cases hsource : sel.source with
  | rollup v =>
    simp only [Source.rows]
    rw [filter_groupBy fun b => (Query.holds zones q b && sel.fixed b) = true, total_groupBy]
  | eventsRaw countsView =>
    simp only [Source.rows]
    rw [Multiset.filter_map, total, Multiset.map_map]
    rfl

end Counted

private theorem lookup_pick {dims : List Dim} {value : Dim → String} {d : Dim} (h : d ∈ dims) :
    (pick dims value).lookup d = some (value d) := by
  induction dims with
  | nil => simp at h
  | cons d' dims ih =>
    rw [pick, List.map_cons, List.lookup_cons]
    by_cases hd : d = d'
    · simp [hd]
    · rw [beq_false_of_ne hd]
      exact ih ((List.mem_cons.mp h).resolve_left hd)

theorem bucket_value {s : Source} {e : Event} {d : Dim} (h : d ∈ s.dims) :
    (s.bucket e).value d = e.value d := by
  rw [Bucket.value, Source.bucket, lookup_pick h]
  rfl

theorem isOrganic_bucket {s : Source} (h : Dim.column .channel ∈ s.dims) (e : Event) :
    isOrganic (s.bucket e) = true ↔ e.channel = channelOrganicSearch := by
  rw [isOrganic, bucket_value h, decide_eq_true_eq]
  exact Iff.rfl

theorem isTagged_bucket {s : Source} (h : Dim.column .utmCampaign ∈ s.dims) (e : Event) :
    isTagged (s.bucket e) = true ↔ e.utmCampaign ≠ "" := by
  rw [isTagged, bucket_value h, decide_eq_true_eq]
  exact Iff.rfl

private theorem truncate_bucketStart (t : ℤ) (column : TimeColumn) :
    truncate (bucketStart t column) day = truncate t day := by
  cases column with
  | hour =>
    have hday : day = 24 * hour := rfl
    have hhour : hour = 3600000000000 := by decide
    simp only [bucketStart, truncate, hday, hhour]
    omega
  | day =>
    simp only [bucketStart, truncate]
    rw [Int.sub_emod, Int.emod_emod_of_dvd t dvd_rfl, sub_self, Int.zero_emod, sub_zero]
  | time => rfl

/-- Between midnights the buckets of a range are those of its events. -/
theorem bucketStart_range {start stop : ℤ} (hstart : truncate start day = start)
    (hstop : truncate stop day = stop) (t : ℤ) (column : TimeColumn) :
    (start ≤ bucketStart t column ∧ bucketStart t column < stop) ↔ (start ≤ t ∧ t < stop) := by
  have hday : day = 86400000000000 := by decide
  have hhour : hour = 3600000000000 := by decide
  cases column with
  | hour =>
    simp only [bucketStart, truncate, hday, hhour] at *
    omega
  | day =>
    simp only [bucketStart, truncate, hday] at *
    omega
  | time => exact Iff.rfl

def Grouping.dimsOf : Grouping → List Dim
  | .dims ds => ds
  | _ => []

/-- The group that an event is counted in. -/
def Grouping.ofEvent : Grouping → Event → Group
  | .whole, _ => {}
  | .dims ds, e => { dims := pick ds e.value }
  | .daily, e => { day := some (truncate e.time day) }

private theorem key_bucket
    {s : Source} {grouping : Grouping} (h : ∀ d ∈ grouping.dimsOf, d ∈ s.dims)
    (e : Event) : grouping.key (s.bucket e) = grouping.ofEvent e := by
  cases grouping with
  | whole => rfl
  | dims ds =>
    have hpick : pick ds (s.bucket e).value = pick ds e.value :=
      List.map_congr_left fun d hd => by rw [bucket_value (h d hd)]
    rw [Grouping.key, Grouping.ofEvent, hpick]
  | daily => rw [Grouping.key, Grouping.ofEvent, Source.bucket, truncate_bucketStart]

/-- The groups of the events that a statement counts. -/
def groupsOf (grouping : Grouping) (start stop : ℤ) (m : Event → Totals)
    (counted : Multiset Event) : Multiset (Group × Totals) :=
  match grouping with
  | .whole => {({}, total m counted)}
  | .dims ds => groupBy (Grouping.dims ds).ofEvent m counted
  | .daily => fill start stop (groupBy Grouping.daily.ofEvent m counted)

/-- Empty rows add nothing. -/
theorem total_fill (start stop : ℤ) (rows : Multiset (Group × Totals)) :
    total Prod.snd (fill start stop rows) = total Prod.snd rows := by
  rw [fill, total, Multiset.map_add, Multiset.sum_add, ← total]
  rw [Multiset.sum_eq_zero (s := Multiset.map Prod.snd _) fun t ht => ?_, add_zero]
  obtain ⟨row, hrow, rfl⟩ := Multiset.mem_map.mp ht
  obtain ⟨d, -, rfl⟩ := List.mem_map.mp (Multiset.mem_coe.mp hrow)
  rfl

/-- All rows together count all events. -/
theorem total_groupsOf (grouping : Grouping) (start stop : ℤ) (m : Event → Totals)
    (counted : Multiset Event) :
    total Prod.snd (groupsOf grouping start stop m counted) = total m counted := by
  cases grouping with
  | whole => exact Multiset.sum_singleton _
  | dims ds => exact total_groupBy
  | daily => exact (total_fill _ _ _).trans total_groupBy

theorem groupsOf_congr {grouping : Grouping} {start stop : ℤ} {m m' : Event → Totals}
    {counted : Multiset Event} (h : ∀ e ∈ counted, m e = m' e) :
    groupsOf grouping start stop m counted = groupsOf grouping start stop m' counted := by
  have hgroups (g : Grouping) : groupBy g.ofEvent m counted = groupBy g.ofEvent m' counted :=
    groupBy_congr (fun _ _ => rfl) h
  cases grouping with
  | whole => rw [groupsOf, groupsOf, total_congr h]
  | dims ds => rw [groupsOf, groupsOf, hgroups]
  | daily => rw [groupsOf, groupsOf, hgroups]

private theorem groups_eq
    {zones : String → Zone} {sel : Select} {q : Query} {events : Multiset Event}
    {siteID : ℕ} {column : TimeColumn} {start stop : Time}
    (hrange : q.range = .between siteID column start stop)
    (hdims : ∀ d ∈ sel.grouping.dimsOf, d ∈ sel.source.dims) :
    sel.groups zones q events = groupsOf sel.grouping (sel.source.fillBound zones start)
      (sel.source.fillBound zones stop) sel.source.totals (sel.counted zones q events) := by
  have hkey : (fun e => sel.grouping.key (sel.source.bucket e)) = sel.grouping.ofEvent :=
    funext (key_bucket hdims)
  have hgroups : groupBy (fun row => sel.grouping.key row.1) Prod.snd
      (sel.matching zones q events) =
        groupBy sel.grouping.ofEvent sel.source.totals (sel.counted zones q events) := by
    rw [groupBy_matching, hkey]
  simp only [Select.groups, hgroups, total_matching, hrange]
  cases sel.grouping <;> rfl

/-- The event has the values that the filter asks of the columns. -/
def MatchesCols (f : Filter) (cols : List Column) (e : Event) : Prop :=
  ∀ c ∈ cols, value f c ≠ "" → e.value (.column c) = value f c

instance (f : Filter) (cols : List Column) (e : Event) : Decidable (MatchesCols f cols e) :=
  inferInstanceAs (Decidable (∀ c ∈ cols, value f c ≠ "" → e.value (.column c) = value f c))

private theorem filters_hold {f : Filter} {cols : List Column} {s : Source} {e : Event}
    (hcols : ∀ c ∈ cols, Dim.column c ∈ s.dims) :
    ((applyFilters f cols).all fun c => (s.bucket e).value (.column c.1) = c.2) = true ↔
      MatchesCols f cols e := by
  have hcandidates (c : Column) : c ∈ candidates := by cases c <;> decide
  simp only [applyFilters, List.all_map, List.all_eq_true, List.mem_filter, hcandidates, true_and,
    Function.comp_apply, Bool.and_eq_true, List.contains_iff_mem, decide_eq_true_eq]
  constructor
  · intro h c hc hvalue
    rw [← h c ⟨hc, hvalue⟩, bucket_value (hcols c hc)]
  · rintro h c ⟨hc, hvalue⟩
    rw [bucket_value (hcols c hc), h c hc hvalue]

section UTC

variable {zones : String → Zone} (hutc : zones "UTC" = utc)

theorem dayStart_utc (n : ℤ) : dayStart utc n = n * day := by
  have hday : day = 86400000000000 := by decide
  have hsecond : second = 1000000000 := rfl
  have hoffset (r : ℤ) : utc.offsetAt r = 0 := rfl
  rw [dayStart, Zone.date, hoffset, dayNumber_civil, hday, hsecond]
  omega

include hutc

private theorem fillBound_utc (s : Source) (t : ℤ) :
    s.fillBound zones ⟨t, "UTC"⟩ = truncate t day := by
  have hday : day = 86400000000000 := by decide
  have hsecond : second = 1000000000 := rfl
  have hn : utc.day (t / second) * day = truncate t day := by
    simp only [Zone.day, Zone.reading, utc, truncate, hday, hsecond]
    omega
  cases s with
  | rollup v => simp only [Source.fillBound, hutc, hn]
  | eventsRaw countsView => simp only [Source.fillBound, hutc, dayStart_utc, hn]

private theorem comparedStart_utc (t : ℤ) (column : TimeColumn) :
    comparedStart zones column (bucketStart t column) "UTC" = bucketStart t column := by
  cases column with
  | hour => rfl
  | day =>
    have hday : day = 86400000000000 := by decide
    simp only [comparedStart, bucketStart, hutc, dayStart_utc, truncate, hday]
    omega
  | time => rfl

/-- The buckets whose start is in the range are read. -/
theorem withinRange_utc {s : Source} {e : Event} {siteID : ℕ} {start stop : ℤ} :
    withinRange zones (.between siteID s.column ⟨start, "UTC"⟩ ⟨stop, "UTC"⟩) (s.bucket e) = true ↔
      e.siteID = siteID ∧ truncate start second ≤ bucketStart e.time s.column ∧
        bucketStart e.time s.column < truncate stop second := by
  simp only [withinRange, Source.bucket, comparedStart_utc hutc, Bool.and_eq_true,
    decide_eq_true_eq, and_assoc]
  exact and_congr_left' decide_eq_true_iff

end UTC

/-- The statement of a reader, whose columns its table has. -/
structure Fits (r : Reader) (sel : Select) : Prop where
  select : Statement.select r.statement = some sel
  column : r.column = sel.source.column
  cols : ∀ c ∈ r.cols, Dim.column c ∈ sel.source.dims
  dims : ∀ d ∈ sel.grouping.dimsOf, d ∈ sel.source.dims

/-- The range is given in UTC, in whole seconds. -/
structure InUTC (f : ZonedFilter) : Prop where
  fromZone : f.fromZone = "UTC"
  toZone : f.toZone = "UTC"
  fromTime : truncate f.fromTime second = f.fromTime
  toTime : truncate f.toTime second = f.toTime

section Panels

variable {zones : String → Zone} (hutc : zones "UTC" = utc)
variable {r : Reader} {sel : Select} {f : ZonedFilter} {events : Multiset Event}

include hutc

theorem holds_query_utc (hfits : Fits r sel) (hf : InUTC f) (e : Event) :
    Query.holds zones (r.query f) (sel.source.bucket e) = true ↔
      e.siteID = f.siteID ∧ f.fromTime ≤ bucketStart e.time sel.source.column ∧
        bucketStart e.time sel.source.column < f.toTime ∧ MatchesCols f.toFilter r.cols e := by
  have hrange : withinRange zones (.between f.siteID sel.source.column ⟨f.fromTime, "UTC"⟩
      ⟨f.toTime, "UTC"⟩) (sel.source.bucket e) = true ↔
      e.siteID = f.siteID ∧ truncate f.fromTime second ≤ bucketStart e.time sel.source.column ∧
        bucketStart e.time sel.source.column < truncate f.toTime second :=
    withinRange_utc hutc
  rw [hf.fromTime, hf.toTime] at hrange
  simp only [Query.holds, Bool.and_eq_true, Reader.query, whereTimeAndTenant, ZonedFilter.start,
    ZonedFilter.stop, hf.fromZone, hf.toZone, hfits.column]
  rw [hrange, filters_hold hfits.cols]
  simp only [and_assoc]

/-- The answers of a panel are those of the events that it counts. -/
theorem answers_utc {ρ : Type*} [LinearOrder ρ] (rpv : ℕ → ℕ → ρ) (hfits : Fits r sel)
    (hf : InUTC f) :
    Query.answers rpv zones (r.query f) events =
      Answers (rowLE rpv sel.grouping (orderClause f.toFilter r.sortable r.fallback))
        ((r.cap.limit f.toFilter).map Int.toNat)
        ((groupsOf sel.grouping (truncate f.fromTime day) (truncate f.toTime day)
          sel.source.totals (sel.counted zones (r.query f) events)).map toRow) := by
  have hrange : (r.query f).range = .between f.siteID r.column f.start f.stop := rfl
  have hselect : Statement.select (r.query f).statement = some sel := hfits.select
  have hstart : f.start = ⟨f.fromTime, "UTC"⟩ := by rw [ZonedFilter.start, hf.fromZone]
  have hstop : f.stop = ⟨f.toTime, "UTC"⟩ := by rw [ZonedFilter.stop, hf.toZone]
  rw [Query.answers, hselect]
  simp only [groups_eq hrange hfits.dims, hstart, hstop, fillBound_utc hutc]
  rfl

end Panels

end Statnive.Rollups
