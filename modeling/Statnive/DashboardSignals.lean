import Statnive.CivilCalendar
import Statnive.EffectCascade
import Statnive.FilterQuery

/-!
# The signals of the dashboard

The hash of the URL, the filters and the date range as three signals, with the two effects that
keep them in step and the operations that assign them.
-/

namespace Statnive.DashboardSignals

open UnicodeText PlainObject SearchParams FilterQuery CivilCalendar EffectCascade LabelledRuns

inductive PanelName where
  | overview
  | sources
  | pages
  | seo
  | campaigns
  | geo
  | realtime
  | admin
  | compare
  | connect
deriving DecidableEq

def PanelName.text : PanelName → String
  | .overview => "overview"
  | .sources => "sources"
  | .pages => "pages"
  | .seo => "seo"
  | .campaigns => "campaigns"
  | .geo => "geo"
  | .realtime => "realtime"
  | .admin => "admin"
  | .compare => "compare"
  | .connect => "connect"

/-- `VALID` -/
def validPanels : List PanelName :=
  [.overview, .sources, .pages, .seo, .campaigns, .geo, .realtime, .admin, .compare, .connect]

def defaultPanel : PanelName := .overview

structure HashState where
  panel : PanelName
  params : URLSearchParams
deriving DecidableEq

/-- The part before the first `?`, and the part after it. -/
def splitQuery (raw : Bytes) : Bytes × Bytes :=
  match raw.idxOf? 0x3F with
  | none => (raw, [])
  | some qIdx => (raw.take qIdx, raw.drop (qIdx + 1))

def parseHash (hash : Bytes) : HashState :=
  let raw := if hash.head? = some 0x23 then hash.tail else hash
  let parts := splitQuery raw
  { panel := (validPanels.find? fun panel => toUtf8 panel.text = parts.1).getD defaultPanel
    params := .ofString parts.2 }

def serialize (state : HashState) : Bytes :=
  let q := state.params.toString
  if q ≠ [] then toUtf8 state.panel.text ++ 0x3F :: q else toUtf8 state.panel.text

/-- The bytes that the URL parser leaves as they are in a fragment. -/
def isFragmentByte (b : UInt8) : Bool :=
  0x20 < b.toNat && b.toNat < 0x7F && b ≠ 0x22 && b ≠ 0x3C && b ≠ 0x3E && b ≠ 0x60

/-- Tabs and line ends are removed. -/
def encodeFragmentByte (b : UInt8) : Bytes :=
  if b = 0x09 ∨ b = 0x0A ∨ b = 0x0D then []
  else if isFragmentByte b then [b]
  else [0x25, FormEncoding.hexDigit (b.toNat / 16), FormEncoding.hexDigit (b.toNat % 16)]

/-- `location.hash` after the URL was replaced by `#` and the fragment. -/
def locationHash (fragment : Bytes) : Bytes :=
  if fragment.flatMap encodeFragmentByte = [] then [] else 0x23 :: fragment.flatMap encodeFragmentByte

structure Range where
  fromDay : CodeUnits
  toDay : CodeUnits
deriving DecidableEq

def dayMs : ℤ := 24 * 60 * 60 * 1000

def irstOffset : ℤ := (3 * 60 + 30) * 60 * 1000

/-- The date is that of `toISOString`, in years of four digits. -/
def daysAgoIRST (nowMs days : ℤ) : CodeUnits :=
  toCodeUnits (civil ((nowMs + irstOffset - days * dayMs) / dayMs)).format

/-- `IRST_DATE_RE` -/
def isIrstDate : CodeUnits → Bool
  | [y1, y2, y3, y4, dash1, m1, m2, dash2, d1, d2] =>
    [y1, y2, y3, y4, m1, m2, d1, d2].all isDigit && dash1 = 0x2D && dash2 = 0x2D
  | _ => false

def isValidIrstRange (fromDay toDay : CodeUnits) : Bool :=
  isIrstDate fromDay && isIrstDate toDay && decide (fromDay ≤ toDay)

def defaultRange (nowMs : ℤ) : Range := ⟨daysAgoIRST nowMs 7, daysAgoIRST nowMs (-1)⟩

/-- The dates of the filters, if there are two and they are a range. -/
def rangeOf (f : Filters) : Option Range :=
  if f.scalar .fromDay ≠ [] ∧ f.scalar .toDay ≠ [] ∧
      isValidIrstRange (f.scalar .fromDay) (f.scalar .toDay) = true then
    some ⟨f.scalar .fromDay, f.scalar .toDay⟩
  else none

/-- The value that `rangeSignal` is initialised with. -/
def initialRange (nowMs : ℤ) (f : Filters) : Range := (rangeOf f).getD (defaultRange nowMs)

structure Signals where
  hash : HashState
  filters : Filters
  range : Range

inductive Signal where
  | hashSignal
  | filtersSignal
  | rangeSignal
deriving DecidableEq

inductive Effect where
  | syncFilters
  | syncRange
deriving DecidableEq

instance : Fintype Effect where
  elems := {.syncFilters, .syncRange}
  complete := by intro i; cases i <;> simp

def effects : Effects Effect Signal Signals where
  reads
    | .syncFilters, _ => {.hashSignal, .filtersSignal}
    | .syncRange, s =>
      if (rangeOf s.filters).isSome then {.filtersSignal, .rangeSignal} else {.filtersSignal}
  body
    | .syncFilters, s =>
      let fromHash := queryToFilters s.hash.params
      if !filtersEqual fromHash s.filters then some (.filtersSignal, { s with filters := fromHash })
      else none
    | .syncRange, s =>
      match rangeOf s.filters with
      | some r => if s.range ≠ r then some (.rangeSignal, { s with range := r }) else none
      | none => none

/-- `location.hash`, and the signals with the effects that wait for them. -/
structure Dashboard where
  location : Bytes
  board : Board Effect Signal Signals

def Dashboard.signals (d : Dashboard) : Signals := d.board.state

/-- The order in which effects run after each assignment of an operation. -/
abbrev Order := ℕ → List Effect

def Dashboard.assign (d : Dashboard) (x : Signal) (s : Signals) (order : List Effect) :
    Option Dashboard :=
  (settle effects (d.board.assign x s) order).map fun board => { d with board := board }

/-- `pushState` or `replaceState` with `#` and the serialized state, unless it is there. -/
def Dashboard.setLocation (d : Dashboard) (next : HashState) : Dashboard :=
  if d.location ≠ 0x23 :: serialize next then { d with location := locationHash (serialize next) }
  else d

def Dashboard.setHash (d : Dashboard) (next : HashState) (order : List Effect) : Option Dashboard :=
  (d.setLocation next).assign .hashSignal { d.signals with hash := next } order

def navigate (panel : PanelName) (params : Option URLSearchParams) (order : Order) (d : Dashboard) :
    Option Dashboard :=
  d.setHash ⟨panel, params.getD .empty⟩ (order 0)

def replaceHashParams (params : URLSearchParams) (order : Order) (d : Dashboard) :
    Option Dashboard :=
  d.setHash ⟨d.signals.hash.panel, params⟩ (order 0)

/-- `popstate` or `hashchange` to any hash. -/
def resync (hash : Bytes) (order : Order) (d : Dashboard) : Option Dashboard :=
  { d with location := hash }.assign .hashSignal { d.signals with hash := parseHash hash } (order 0)

def Order.rest (order : Order) : Order := fun n => order (n + 1)

/-- The filters are assigned, and then their query. -/
def writeFilters (filters : Filters) (params : URLSearchParams) (order : Order) (d : Dashboard) :
    Option Dashboard :=
  (d.assign .filtersSignal { d.signals with filters := filters } (order 0)).bind
    (replaceHashParams params order.rest)

def updateFilters (next : Patch) (order : Order) (d : Dashboard) : Option Dashboard :=
  let merged := merge d.signals.filters next
  writeFilters merged (filtersToQuery merged) order d

def clearFilters (order : Order) (d : Dashboard) : Option Dashboard :=
  writeFilters emptyFilters .empty order d

def setPropFilter (scope : Scope) (name value : CodeUnits) (order : Order) (d : Dashboard) :
    Option Dashboard :=
  if name = [] then some d
  else updateFilters (setPropPatch d.signals.filters scope name value) order d

def removePropFilter (scope : Scope) (name : CodeUnits) (order : Order) (d : Dashboard) :
    Option Dashboard :=
  updateFilters (removePropPatch d.signals.filters scope name) order d

def rangePatch (r : Range) : Patch where
  scalar
    | .fromDay => some r.fromDay
    | .toDay => some r.toDay
    | _ => none

def setRange (r : Range) (order : Order) (d : Dashboard) : Option Dashboard :=
  if !isValidIrstRange r.fromDay r.toDay then some d
  else (d.assign .rangeSignal { d.signals with range := r } (order 0)).bind
    (updateFilters (rangePatch r) order.rest)

inductive MetricId where
  | visitors
  | conversion
  | revenue
  | rpv
  | pageviews
  | goals
deriving DecidableEq

def MetricId.text : MetricId → String
  | .visitors => "visitors"
  | .conversion => "conversion"
  | .revenue => "revenue"
  | .rpv => "rpv"
  | .pageviews => "pageviews"
  | .goals => "goals"

def allMetrics : List MetricId := [.visitors, .conversion, .revenue, .rpv, .pageviews, .goals]

def defaultMetrics : List MetricId := [.visitors]

/-- `,` -/
def comma : UInt16 := 0x2C

def selectedMetrics (f : Filters) : List MetricId :=
  if f.scalar .metrics = [] then defaultMetrics
  else
    let ids := ((f.scalar .metrics).splitOn comma).filterMap fun m =>
      allMetrics.find? fun id => toCodeUnits id.text = m
    if ids.length > 0 then ids else defaultMetrics

def metricsPatch (ids : List MetricId) : Patch where
  scalar
    | .metrics => some ([comma].intercalate (ids.map fun id => toCodeUnits id.text))
    | _ => none

def nextMetrics (id : MetricId) (current : List MetricId) : List MetricId :=
  if id ∈ current then current.filter (· ≠ id) else current ++ [id]

/-- Removing the last active metric does nothing. -/
def toggleMetric (id : MetricId) (order : Order) (d : Dashboard) : Option Dashboard :=
  let next := nextMetrics id (selectedMetrics d.signals.filters)
  if next.length = 0 then some d else updateFilters (metricsPatch next) order d

inductive Event where
  | setRange (r : Range)
  | updateFilters (next : Patch)
  | setPropFilter (scope : Scope) (name value : CodeUnits)
  | removePropFilter (scope : Scope) (name : CodeUnits)
  | clearFilters
  | toggleMetric (id : MetricId)
  | navigate (panel : PanelName) (params : Option URLSearchParams)
  | resync (hash : Bytes)

def operate : Event → Order → Dashboard → Option Dashboard
  | .setRange r => setRange r
  | .updateFilters next => updateFilters next
  | .setPropFilter scope name value => setPropFilter scope name value
  | .removePropFilter scope name => removePropFilter scope name
  | .clearFilters => clearFilters
  | .toggleMetric id => toggleMetric id
  | .navigate panel params => navigate panel params
  | .resync hash => resync hash

def step (d : Dashboard) (e : Event × Order) : Option Dashboard := operate e.1 e.2 d

/-- The signals of a page that is loaded with the hash. -/
def load (nowMs : ℤ) (hash : Bytes) : Dashboard where
  location := hash
  board :=
    let state := parseHash hash
    let filters := queryToFilters state.params
    fresh effects ⟨state, filters, initialRange nowMs filters⟩

def changes : Signal → Signals → Signals → Prop
  | .hashSignal, s, s' => s'.filters = s.filters ∧ s'.range = s.range
  | .filtersSignal, s, s' => s'.hash = s.hash ∧ s'.range = s.range
  | .rangeSignal, s, s' => s'.hash = s.hash ∧ s'.filters = s.filters

theorem body_syncFilters_eq_some {s s' : Signals} {x : Signal} :
    effects.body .syncFilters s = some (x, s') ↔
      ¬ (queryToFilters s.hash.params).Same s.filters ∧ x = .filtersSignal ∧
        s' = { s with filters := queryToFilters s.hash.params } := by
  rw [← filtersEqual_iff]
  simp only [effects, Option.ite_none_right_eq_some, Bool.not_eq_true', Option.some.injEq,
    Prod.mk.injEq, Bool.not_eq_true]
  exact and_congr_right fun _ => and_congr eq_comm eq_comm

theorem body_syncFilters_eq_none {s : Signals} :
    effects.body .syncFilters s = none ↔ (queryToFilters s.hash.params).Same s.filters := by
  rw [← filtersEqual_iff]
  simp [effects]

theorem body_syncRange_eq_some {s s' : Signals} {x : Signal} :
    effects.body .syncRange s = some (x, s') ↔
      ∃ r, rangeOf s.filters = some r ∧ s.range ≠ r ∧ x = .rangeSignal ∧
        s' = { s with range := r } := by
  simp only [effects]
  cases rangeOf s.filters with
  | none => simp
  | some r =>
    simp only [Option.ite_none_right_eq_some, Option.some.injEq, Prod.mk.injEq]
    constructor
    · rintro ⟨hne, rfl, rfl⟩
      exact ⟨r, rfl, hne, rfl, rfl⟩
    · rintro ⟨_, rfl, hne, rfl, rfl⟩
      exact ⟨hne, rfl, rfl⟩

theorem body_syncRange_eq_none {s : Signals} :
    effects.body .syncRange s = none ↔ ∀ r, rangeOf s.filters = some r → s.range = r := by
  simp only [effects]
  cases rangeOf s.filters with
  | none => simp
  | some r => simp

theorem lawful_effects : Lawful effects changes where
  assigned := by
    intro i s x s' h
    cases i with
    | syncFilters =>
      obtain ⟨-, rfl, rfl⟩ := body_syncFilters_eq_some.mp h
      exact ⟨by simp [effects], rfl, rfl⟩
    | syncRange =>
      obtain ⟨r, hr, -, rfl, rfl⟩ := body_syncRange_eq_some.mp h
      exact ⟨by simp [effects, hr], rfl, rfl⟩
  unread := by
    intro i s x s' hchange hx
    cases i with
    | syncFilters =>
      cases x with
      | hashSignal => simp [effects] at hx
      | filtersSignal => simp [effects] at hx
      | rangeSignal =>
        obtain ⟨hhash, hfilters⟩ := hchange
        rw [body_syncFilters_eq_none, body_syncFilters_eq_none, hhash, hfilters]
        exact ⟨rfl, id⟩
    | syncRange =>
      rw [body_syncRange_eq_none, body_syncRange_eq_none]
      cases x with
      | hashSignal =>
        obtain ⟨hfilters, hrange⟩ := hchange
        rw [hfilters, hrange]
        exact ⟨by simp only [effects, hfilters], id⟩
      | filtersSignal =>
        exfalso
        apply hx
        simp only [effects]
        split_ifs <;> simp
      | rangeSignal =>
        obtain ⟨-, hfilters⟩ := hchange
        refine ⟨by simp only [effects, hfilters], fun _ r hr => ?_⟩
        rw [hfilters] at hr
        simp [effects, hr] at hx

/-- The filters come before the range. -/
def rank (s : Signals) : ℕ :=
  (if (effects.body .syncFilters s).isNone then 0 else 2) +
    if (effects.body .syncRange s).isNone then 0 else 1

theorem rank_le (s : Signals) : rank s ≤ 3 := by
  rw [rank]
  split_ifs <;> omega

theorem rank_body (i : Effect) (s : Signals) (x : Signal) (s' : Signals)
    (h : effects.body i s = some (x, s')) : rank s' < rank s := by
  cases i with
  | syncFilters =>
    obtain ⟨-, -, rfl⟩ := body_syncFilters_eq_some.mp h
    have hnext : effects.body .syncFilters { s with filters := queryToFilters s.hash.params } =
        none := body_syncFilters_eq_none.mpr (Filters.Same.refl _)
    rw [rank, rank, hnext, h]
    simp only [Option.isNone_none, Option.isNone_some, if_true]
    split_ifs <;> simp_all
  | syncRange =>
    obtain ⟨r, hr, -, -, rfl⟩ := body_syncRange_eq_some.mp h
    have hnext : effects.body .syncRange { s with range := r } = none :=
      body_syncRange_eq_none.mpr fun r' hr' => Option.some.inj (hr.symm.trans hr')
    have hsame : effects.body .syncFilters { s with range := r } = none ↔
        effects.body .syncFilters s = none := by
      rw [body_syncFilters_eq_none, body_syncFilters_eq_none]
    rw [rank, rank, hnext, h]
    simp only [Option.isNone_iff_eq_none, hsame]
    split_ifs <;> simp_all

end Statnive.DashboardSignals
