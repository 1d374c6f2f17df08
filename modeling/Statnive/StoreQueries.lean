import Statnive.DashboardFilter

/-!
# The queries of the store

A read of the dashboard is one statement. What varies of its text is how it is restricted,
ordered and limited, and the arguments stand in their places here. The panels that read a rollup
have a sibling over the raw events, which a filter with property constraints is answered from.
-/

namespace Statnive.StoreQueries

open DashboardFilter

/-- A `time.Time`. -/
structure Time where
  instant : ℤ
  zone : String
  deriving DecidableEq

/-- A filter with the locations of its range. -/
structure ZonedFilter extends Filter where
  fromZone : String
  toZone : String
  deriving DecidableEq

def ZonedFilter.start (f : ZonedFilter) : Time := ⟨f.fromTime, f.fromZone⟩
def ZonedFilter.stop (f : ZonedFilter) : Time := ⟨f.toTime, f.toZone⟩

inductive Column where
  | channel | referrerName
  | utmSource | utmMedium | utmCampaign | utmContent | utmTerm
  | pathname | countryCode
  deriving DecidableEq

/-- The column that a rollup is bucketed by, or the time of a raw event. -/
inductive TimeColumn where
  | hour | day | time
  deriving DecidableEq

inductive PropScope where
  | hit | session | user
  deriving DecidableEq

inductive SortKey where
  | views | visitors | goals | revenue | rpv
  | pathname | referrerName | channel | utmCampaign
  | countryCode | province | city
  deriving DecidableEq

structure OrderTerm where
  key : SortKey
  descending : Bool
  deriving DecidableEq

/-- The statements, under the methods that send them. -/
inductive Statement where
  | overview | overviewFromRaw
  | sources | sourcesFromRaw
  | sourcesByChannel | sourcesByChannelFromRaw
  | pages | pagesFromRaw
  | seo | seoFromRaw
  | campaigns | campaignsFromRaw
  | trend | trendFromRaw
  | realtime | realtimeFromRaw
  | geo | geoTopCountries
  | propNames (scope : PropScope) (limit : ℤ)
  | compare (scope : PropScope) (name goal : String)
  deriving DecidableEq

/-- The first terms of the `WHERE` clause. A statement with `WITH FILL` fills the same range. -/
inductive Range where
  | between (siteID : ℕ) (column : TimeColumn) (start stop : Time)
  | sinceHour (siteID : ℕ) (hour : ℤ)
  /-- The last minutes or days, by the clock of the server. -/
  | recent (siteID : ℕ)
  deriving DecidableEq

structure Query where
  statement : Statement
  range : Range
  filters : List (Column × String) := []
  props : List (PropScope × String × String) := []
  order : List OrderTerm := []
  limit : Option ℤ := none
  deriving DecidableEq

def value (f : Filter) : Column → String
  | .channel => f.channel
  | .referrerName => f.referrer
  | .utmSource => f.utmSource
  | .utmMedium => f.utmMedium
  | .utmCampaign => f.utmCampaign
  | .utmContent => f.utmContent
  | .utmTerm => f.utmTerm
  | .pathname => f.path
  | .countryCode => f.country

/-- All columns, in the order of `applyFilters`. -/
def candidates : List Column :=
  [.channel, .referrerName, .utmSource, .utmMedium, .utmCampaign, .utmContent, .utmTerm,
    .pathname, .countryCode]

def dailySourcesCols : List Column :=
  [.channel, .referrerName, .utmSource, .utmMedium, .utmCampaign, .utmContent, .utmTerm]

def dailyPagesCols : List Column := [.pathname, .channel]

def hourlyVisitorsCols : List Column := [.channel]

def dailyGeoCols : List Column := [.countryCode]

def seoCols : List Column := [.referrerName, .utmSource, .utmMedium, .utmCampaign]

def eventsRawCols : List Column := candidates

def whereTimeAndTenant (f : ZonedFilter) (column : TimeColumn) : Range :=
  .between f.siteID column f.start f.stop

def applyFilters (f : Filter) (cols : List Column) : List (Column × String) :=
  (candidates.filter (fun c => cols.contains c && value f c ≠ "")).map (fun c => (c, value f c))

/-- The constraints of a map in the order of their names. -/
def propPredicates (scope : PropScope) (props : List (String × String)) :
    List (PropScope × String × String) :=
  (props.insertionSort fun a b => a.1 ≤ b.1).map (fun kv => (scope, kv.1, kv.2))

def Filter.propPredicates (f : Filter) : List (PropScope × String × String) :=
  StoreQueries.propPredicates .hit f.hitProps ++
    StoreQueries.propPredicates .session f.sessionProps ++
    StoreQueries.propPredicates .user f.userProps

/-- What a sort name stands for; the direction is put behind each of its terms. -/
abbrev Sortable := String → Option (List SortKey)

def metricsSortable : Sortable
  | "views" => some [.views]
  | "visitors" => some [.visitors]
  | "goals" => some [.goals]
  | "revenue" => some [.revenue, .visitors]
  | "rpv" => some [.rpv]
  | _ => none

def sortableExtending (base extras : Sortable) : Sortable := fun name =>
  (extras name).or (base name)

def pagesSortable : Sortable := sortableExtending metricsSortable fun
  | "pathname" => some [.pathname]
  | _ => none

def sourcesSortable : Sortable := sortableExtending metricsSortable fun
  | "referrer" => some [.referrerName]
  | "channel" => some [.channel]
  | _ => none

def campaignsSortable : Sortable := sortableExtending metricsSortable fun
  | "campaign" => some [.utmCampaign]
  | _ => none

def sourcesByChannelSortable : Sortable := sortableExtending metricsSortable fun
  | "channel" => some [.channel]
  | _ => none

def geoSortable : Sortable := sortableExtending metricsSortable fun
  | "country" => some [.countryCode]
  | "province" => some [.province]
  | "city" => some [.city]
  | _ => none

/-- A fallback is descending in all of its terms. -/
def orderClause (f : Filter) (allowed : Sortable) (fallback : List SortKey) : List OrderTerm :=
  match allowed f.sort with
  | none => fallback.map (fun key => ⟨key, true⟩)
  | some keys => keys.map (fun key => ⟨key, f.dir ≠ "asc"⟩)

inductive Cap where
  | unlimited
  | effective
  | fixed (n : ℤ)

def Cap.limit (f : Filter) : Cap → Option ℤ
  | .unlimited => none
  | .effective => some f.effectiveLimit
  | .fixed n => some n

/-- A statement of a panel, with what it lets a filter do. -/
structure Reader where
  statement : Statement
  column : TimeColumn
  cols : List Column
  sortable : Sortable := fun _ => none
  fallback : List SortKey := []
  cap : Cap := .unlimited
  readsProps : Bool := false

def Reader.query (r : Reader) (f : ZonedFilter) : Query where
  statement := r.statement
  range := whereTimeAndTenant f r.column
  filters := applyFilters f.toFilter r.cols
  props := if r.readsProps then Filter.propPredicates f.toFilter else []
  order := orderClause f.toFilter r.sortable r.fallback
  limit := r.cap.limit f.toFilter

/-- The panels that are cached under the hash of the filter. -/
inductive Panel where
  | overview | sources | sourcesByChannel | pages | seo | campaigns | trend
  | geo | geoTopCountries
  deriving DecidableEq

def overview : Reader :=
  { statement := .overview, column := .hour, cols := hourlyVisitorsCols }

def overviewFromRaw : Reader :=
  { statement := .overviewFromRaw, column := .time, cols := eventsRawCols, readsProps := true }

def sources : Reader :=
  { statement := .sources, column := .day, cols := dailySourcesCols, sortable := sourcesSortable
    fallback := [.revenue, .views], cap := .effective }

def sourcesFromRaw : Reader :=
  { statement := .sourcesFromRaw, column := .time, cols := eventsRawCols
    sortable := sourcesSortable, fallback := [.revenue, .views], cap := .effective
    readsProps := true }

def sourcesByChannel : Reader :=
  { statement := .sourcesByChannel, column := .day, cols := dailySourcesCols
    sortable := sourcesByChannelSortable, fallback := [.revenue, .views] }

def sourcesByChannelFromRaw : Reader :=
  { statement := .sourcesByChannelFromRaw, column := .time, cols := eventsRawCols
    sortable := sourcesByChannelSortable, fallback := [.revenue, .views], readsProps := true }

def pages : Reader :=
  { statement := .pages, column := .day, cols := dailyPagesCols, sortable := pagesSortable
    fallback := [.views], cap := .effective }

def pagesFromRaw : Reader :=
  { statement := .pagesFromRaw, column := .time, cols := eventsRawCols, sortable := pagesSortable
    fallback := [.revenue, .views], cap := .effective, readsProps := true }

def seo : Reader :=
  { statement := .seo, column := .day, cols := seoCols }

def seoFromRaw : Reader :=
  { statement := .seoFromRaw, column := .time, cols := eventsRawCols, readsProps := true }

def campaigns : Reader :=
  { statement := .campaigns, column := .day, cols := dailySourcesCols
    sortable := campaignsSortable, fallback := [.revenue, .views], cap := .effective }

def campaignsFromRaw : Reader :=
  { statement := .campaignsFromRaw, column := .time, cols := eventsRawCols
    sortable := campaignsSortable, fallback := [.revenue, .views], cap := .effective
    readsProps := true }

def trend : Reader :=
  { statement := .trend, column := .hour, cols := hourlyVisitorsCols }

def trendFromRaw : Reader :=
  { statement := .trendFromRaw, column := .time, cols := eventsRawCols, readsProps := true }

def geo : Reader :=
  { statement := .geo, column := .day, cols := dailyGeoCols, sortable := geoSortable
    fallback := [.revenue, .visitors], cap := .effective }

def geoTopCountriesLimit : ℤ := 25

def geoTopCountries : Reader :=
  { statement := .geoTopCountries, column := .day, cols := dailyGeoCols
    fallback := [.visitors], cap := .fixed geoTopCountriesLimit }

def Panel.rollup : Panel → Reader
  | .overview => StoreQueries.overview
  | .sources => StoreQueries.sources
  | .sourcesByChannel => StoreQueries.sourcesByChannel
  | .pages => StoreQueries.pages
  | .seo => StoreQueries.seo
  | .campaigns => StoreQueries.campaigns
  | .trend => StoreQueries.trend
  | .geo => StoreQueries.geo
  | .geoTopCountries => StoreQueries.geoTopCountries

/-- The two panels over `daily_geo` have no sibling. -/
def Panel.raw : Panel → Reader
  | .overview => overviewFromRaw
  | .sources => sourcesFromRaw
  | .sourcesByChannel => sourcesByChannelFromRaw
  | .pages => pagesFromRaw
  | .seo => seoFromRaw
  | .campaigns => campaignsFromRaw
  | .trend => trendFromRaw
  | .geo => StoreQueries.geo
  | .geoTopCountries => StoreQueries.geoTopCountries

def Panel.reader (p : Panel) (f : Filter) : Reader := if f.hasPropFilter then p.raw else p.rollup

def realtime (f : Filter) (now : ℤ) : Query :=
  if f.hasPropFilter then
    { statement := .realtimeFromRaw, range := .recent f.siteID
      filters := applyFilters f [.channel], props := Filter.propPredicates f }
  else
    { statement := .realtime, range := .sinceHour f.siteID (truncate now hour)
      filters := applyFilters f [.channel] }

def scopeToColumn : String → Option PropScope
  | "hit" => some .hit
  | "session" => some .session
  | "user" => some .user
  | _ => none

/-- A refusal of the arguments, with what its text names. -/
inductive StoreError where
  | filter (e : FilterError)
  | scope (scope : String)
  | dimension (dimension : String)
  | dimensionScope (scope : String)
  | goalRequired
  deriving DecidableEq

def propNames (f : Filter) (scope : String) (limit : ℤ) : Except StoreError Query :=
  match scopeToColumn scope with
  | none => .error (.scope scope)
  | some col => .ok {
      statement := .propNames col (if limit ≤ 0 || 200 < limit then 100 else limit)
      range := .recent f.siteID }

/-- `strings.Cut` at the first colon. -/
def cutColon (s : String) : Option (String × String) :=
  match s.toList.span (· ≠ ':') with
  | (before, _ :: after) => some (String.ofList before, String.ofList after)
  | (_, []) => none

def compare (f : ZonedFilter) (dimension goal : String) : Except StoreError Query :=
  match cutColon dimension with
  | none => .error (.dimension dimension)
  | some (scope, name) => match scopeToColumn scope with
    | none => .error (.dimensionScope scope)
    | some col =>
      if goal = "" then .error .goalRequired
      else .ok { statement := .compare col name goal, range := whereTimeAndTenant f .time }

/-- Columns that are not filtered on are not looked at. -/
theorem applyFilters_congr {f g : Filter} {cols : List Column}
    (h : ∀ c ∈ cols, value f c = value g c) : applyFilters f cols = applyFilters g cols := by
  have hkeep (c : Column) : (cols.contains c && value f c ≠ "") =
      (cols.contains c && value g c ≠ "") := by
    cases hc : cols.contains c with
    | false => rfl
    | true => rw [h c (List.contains_iff_mem.mp hc)]
  rw [applyFilters, applyFilters, funext hkeep]
  refine List.map_congr_left fun c hc => ?_
  have hmem : cols.contains c = true := by
    simp only [List.mem_filter, Bool.and_eq_true] at hc
    exact hc.2.1
  rw [h c (List.contains_iff_mem.mp hmem)]

theorem Reader.query_inj {r : Reader} {f g : ZonedFilter} :
    r.query f = r.query g ↔ whereTimeAndTenant f r.column = whereTimeAndTenant g r.column ∧
      applyFilters f.toFilter r.cols = applyFilters g.toFilter r.cols ∧
      (r.readsProps = true → Filter.propPredicates f.toFilter = Filter.propPredicates g.toFilter) ∧
      orderClause f.toFilter r.sortable r.fallback = orderClause g.toFilter r.sortable r.fallback ∧
      r.cap.limit f.toFilter = r.cap.limit g.toFilter := by
  cases hprops : r.readsProps <;> simp [Reader.query, hprops]

end Statnive.StoreQueries
