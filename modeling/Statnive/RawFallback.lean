import Statnive.Rollups

/-!
# The panels over the events

A filter with property constraints is answered from the events, in the shape of the panel. The
rows are meant to be those of the rollups when every event of the site meets the constraints.
The statements over the events count bots, and the value of goals only.
-/

namespace Statnive.RawFallback

open DashboardFilter GroupedAggregates Rollups StoreQueries
open ZonedTime (Zone utc)

def withoutProps (f : ZonedFilter) : ZonedFilter :=
  { f with hitProps := [], sessionProps := [], userProps := [] }

/-- The panels with a sibling over the events. -/
def fallbackPanels : List Panel :=
  [.overview, .sources, .sourcesByChannel, .pages, .seo, .campaigns, .trend]

/-- What the store returns for a panel. -/
def read {ρ : Type*} [LinearOrder ρ] (rpv : ℕ → ℕ → ρ) (zones : String → Zone) (p : Panel)
    (f : ZonedFilter) (events : Multiset Event) : Except FilterError (Set (List Row)) :=
  match f.validate with
  | .error e => .error e
  | .ok () => .ok (Query.answers rpv zones ((p.reader f.toFilter).query f) events)

/-- The range starts and ends at midnight in UTC. -/
structure UTCMidnights (f : ZonedFilter) : Prop where
  fromZone : f.fromZone = "UTC"
  toZone : f.toZone = "UTC"
  fromTime : truncate f.fromTime day = f.fromTime
  toTime : truncate f.toTime day = f.toTime

def isPageview (e : Event) : Prop := e.eventType = "pageview"

/-- An event that the whole filter matches is a pageview of a human, in a campaign, without a
value unless it is a goal; any other one is not counted by the rollup of a panel either. -/
structure CountedAlike (f : Filter) (e : Event) : Prop where
  matching : MatchesCols f candidates e →
    e.isBot = false ∧ isPageview e ∧ e.utmCampaign ≠ "" ∧ (e.isGoal = true ∨ e.eventValue = 0)
  others : ¬ MatchesCols f candidates e → e.isBot = true ∨
    (¬ (MatchesCols f hourlyVisitorsCols e ∧ (isPageview e ∨ e.isGoal = true)) ∧
      ¬ MatchesCols f dailySourcesCols e ∧ ¬ MatchesCols f dailyPagesCols e ∧
      ¬ (MatchesCols f seoCols e ∧ e.channel = channelOrganicSearch))

/-- The events of the site and range that the whole filter matches. -/
def matched (f : Filter) (events : Multiset Event) : Multiset Event :=
  events.filter fun e =>
    e.siteID = f.siteID ∧ f.fromTime ≤ e.time ∧ e.time < f.toTime ∧ MatchesCols f candidates e

def pageTotals (f : Filter) (events : Multiset Event) (pathname : String) : Totals :=
  total Event.totals ((matched f events).filter (·.pathname = pathname))

/-- The pages are sorted by a name, or stand by their views as they do by revenue first. -/
def PagesAlike (f : Filter) (events : Multiset Event) : Prop :=
  pagesSortable f.sort ≠ none ∨ ∀ a ∈ matched f events, ∀ b ∈ matched f events,
    let s := pageTotals f events a.pathname
    let t := pageTotals f events b.pathname
    (s.views ≤ t.views ↔ s.revenue < t.revenue ∨ s.revenue = t.revenue ∧ s.views ≤ t.views)

theorem inUTC_of_midnights {f : ZonedFilter} (h : UTCMidnights f) : InUTC f := by
  have hseconds {t : ℤ} (ht : truncate t day = t) : truncate t second = t := by
    have hday : day = 86400 * second := rfl
    have hsecond : second = 1000000000 := rfl
    simp only [truncate, hday, hsecond] at ht ⊢
    omega
  exact ⟨h.fromZone, h.toZone, hseconds h.fromTime, hseconds h.toTime⟩

theorem matchesCols_mono {f : Filter} {e : Event} {cols cols' : List Column} (h : cols ⊆ cols')
    (hmatches : MatchesCols f cols' e) : MatchesCols f cols e :=
  fun c hc => hmatches c (h hc)

section Counting

variable {zones : String → Zone} (hutc : zones "UTC" = utc)
variable {r : Reader} {sel : Select} {f : ZonedFilter} {events : Multiset Event}

include hutc

theorem counted_eq_filter (hfits : Fits r sel) (hf : UTCMidnights f) :
    sel.counted zones (r.query f) events = events.filter fun e =>
      sel.source.keeps (r.query f).props e = true ∧ e.siteID = f.siteID ∧ f.fromTime ≤ e.time ∧
        e.time < f.toTime ∧ MatchesCols f.toFilter r.cols e ∧
        sel.fixed (sel.source.bucket e) = true := by
  refine Multiset.filter_congr fun e _ => ?_
  have hrange := bucketStart_range hf.fromTime hf.toTime e.time sel.source.column
  rw [Bool.and_eq_true, Bool.and_eq_true, holds_query_utc hutc hfits (inUTC_of_midnights hf)]
  tauto

end Counting

section Events

variable {f : Filter} {e : Event}

theorem hourlyVisitors_alike (h : CountedAlike f e) :
    MatchesCols f candidates e ↔
      mvHourlyVisitors.keeps e = true ∧ MatchesCols f hourlyVisitorsCols e := by
  have hkeeps : mvHourlyVisitors.keeps e = true ↔
      e.isBot = false ∧ (isPageview e ∨ e.isGoal = true) := by
    simp [mvHourlyVisitors, isPageview]
  rw [hkeeps]
  constructor
  · intro hm
    obtain ⟨hbot, hview, -, -⟩ := h.matching hm
    exact ⟨⟨hbot, .inl hview⟩, matchesCols_mono (by decide) hm⟩
  · rintro ⟨⟨hbot, hcounts⟩, hcols⟩
    by_contra hm
    rcases h.others hm with hbot' | ⟨hnone, -⟩
    · exact absurd (hbot.symm.trans hbot') (by decide)
    · exact hnone ⟨hcols, hcounts⟩

theorem dailySources_alike (h : CountedAlike f e) :
    MatchesCols f candidates e ↔
      mvDailySources.keeps e = true ∧ MatchesCols f dailySourcesCols e := by
  have hkeeps : mvDailySources.keeps e = true ↔ e.isBot = false := by simp [mvDailySources]
  rw [hkeeps]
  constructor
  · exact fun hm => ⟨(h.matching hm).1, matchesCols_mono (by decide) hm⟩
  · rintro ⟨hbot, hcols⟩
    by_contra hm
    rcases h.others hm with hbot' | ⟨-, hnone, -⟩
    · exact absurd (hbot.symm.trans hbot') (by decide)
    · exact hnone hcols

private theorem dailyPages_alike (h : CountedAlike f e) :
    MatchesCols f candidates e ↔
      mvDailyPages.keeps e = true ∧ MatchesCols f dailyPagesCols e := by
  have hkeeps : mvDailyPages.keeps e = true ↔ e.isBot = false := by simp [mvDailyPages]
  rw [hkeeps]
  constructor
  · exact fun hm => ⟨(h.matching hm).1, matchesCols_mono (by decide) hm⟩
  · rintro ⟨hbot, hcols⟩
    by_contra hm
    rcases h.others hm with hbot' | ⟨-, -, hnone, -⟩
    · exact absurd (hbot.symm.trans hbot') (by decide)
    · exact hnone hcols

private theorem seo_alike (h : CountedAlike f e) :
    (MatchesCols f candidates e ∧ e.channel = channelOrganicSearch) ↔
      mvDailySources.keeps e = true ∧ MatchesCols f seoCols e ∧
        e.channel = channelOrganicSearch := by
  have hkeeps : mvDailySources.keeps e = true ↔ e.isBot = false := by simp [mvDailySources]
  rw [hkeeps]
  constructor
  · exact fun hm => ⟨(h.matching hm.1).1, matchesCols_mono (by decide) hm.1, hm.2⟩
  · rintro ⟨hbot, hcols, horganic⟩
    refine ⟨?_, horganic⟩
    by_contra hm
    rcases h.others hm with hbot' | ⟨-, -, -, hnone⟩
    · exact absurd (hbot.symm.trans hbot') (by decide)
    · exact hnone ⟨hcols, horganic⟩

private theorem campaigns_alike (h : CountedAlike f e) :
    MatchesCols f candidates e ↔ mvDailySources.keeps e = true ∧
      MatchesCols f dailySourcesCols e ∧ e.utmCampaign ≠ "" := by
  rw [dailySources_alike h]
  constructor
  · rintro ⟨hkeeps, hcols⟩
    have hm := (dailySources_alike h).mpr ⟨hkeeps, hcols⟩
    exact ⟨hkeeps, hcols, (h.matching hm).2.2.1⟩
  · rintro ⟨hkeeps, hcols, -⟩
    exact ⟨hkeeps, hcols⟩

/-- What a matching event adds is the same on both paths. -/
theorem totals_alike (h : CountedAlike f e) (hm : MatchesCols f candidates e) :
    e.rawTotals countsAll = e.totals ∧ e.rawTotals countsPageviews = e.totals := by
  obtain ⟨-, hview, -, hvalue⟩ := h.matching hm
  have hrevenue : (if e.isGoal then e.eventValue else 0) = e.eventValue := by
    split_ifs with hgoal
    · rfl
    · exact (hvalue.resolve_left hgoal).symm
  have hcounts : countsPageviews e = true := by
    simpa [countsPageviews, isPageview] using hview
  constructor
  · exact Totals.ext rfl rfl rfl hrevenue
  · exact Totals.ext (if_pos hcounts) rfl rfl hrevenue

end Events

/-- A filter with properties and the same one without, over the events of the site. -/
structure Scene (f : ZonedFilter) (events : Multiset Event) : Prop where
  midnights : UTCMidnights f
  props : ∀ e ∈ events, e.siteID = f.siteID →
    (Filter.propPredicates f.toFilter).all e.has = true
  alike : ∀ e ∈ events, e.siteID = f.siteID → f.fromTime ≤ e.time → e.time < f.toTime →
    CountedAlike f.toFilter e

/-- The two statements of a panel. -/
structure Siblings (r r' : Reader) (sel sel' : Select) : Prop where
  fits : Fits r sel
  fits' : Fits r' sel'
  grouping : sel.grouping = sel'.grouping
  source : ∃ countsView, sel.source = .eventsRaw countsView
  source' : ∃ v, sel'.source = .rollup v
  props : r.readsProps = true
  props' : r'.readsProps = false
  cols : r.cols = candidates
  cap : r'.cap = r.cap
  cap_cases : r.cap = .unlimited ∨ r.cap = .effective ∧ sel.grouping ≠ .daily

theorem overview_siblings : Siblings overviewFromRaw overview
    { source := .eventsRaw countsPageviews, grouping := .whole }
    { source := .rollup mvHourlyVisitors, grouping := .whole } :=
  ⟨⟨rfl, rfl, by decide, by decide⟩, ⟨rfl, rfl, by decide, by decide⟩, rfl, ⟨_, rfl⟩, ⟨_, rfl⟩,
    rfl, rfl, rfl, rfl, .inl rfl⟩

private theorem sources_siblings : Siblings sourcesFromRaw sources
    { source := .eventsRaw countsAll, grouping := .dims sourcesDims }
    { source := .rollup mvDailySources, grouping := .dims sourcesDims } :=
  ⟨⟨rfl, rfl, by decide, by decide⟩, ⟨rfl, rfl, by decide, by decide⟩, rfl, ⟨_, rfl⟩, ⟨_, rfl⟩,
    rfl, rfl, rfl, rfl, .inr ⟨rfl, Grouping.noConfusion⟩⟩

theorem sourcesByChannel_siblings : Siblings sourcesByChannelFromRaw sourcesByChannel
    { source := .eventsRaw countsAll, grouping := .dims [.column .channel] }
    { source := .rollup mvDailySources, grouping := .dims [.column .channel] } :=
  ⟨⟨rfl, rfl, by decide, by decide⟩, ⟨rfl, rfl, by decide, by decide⟩, rfl, ⟨_, rfl⟩, ⟨_, rfl⟩,
    rfl, rfl, rfl, rfl, .inl rfl⟩

theorem pages_siblings : Siblings pagesFromRaw pages
    { source := .eventsRaw countsAll, grouping := .dims [.column .pathname] }
    { source := .rollup mvDailyPages, grouping := .dims [.column .pathname] } :=
  ⟨⟨rfl, rfl, by decide, by decide⟩, ⟨rfl, rfl, by decide, by decide⟩, rfl, ⟨_, rfl⟩, ⟨_, rfl⟩,
    rfl, rfl, rfl, rfl, .inr ⟨rfl, Grouping.noConfusion⟩⟩

theorem seo_siblings : Siblings seoFromRaw seo
    { source := .eventsRaw countsAll, grouping := .daily, fixed := isOrganic }
    { source := .rollup mvDailySources, grouping := .daily, fixed := isOrganic } :=
  ⟨⟨rfl, rfl, by decide, by decide⟩, ⟨rfl, rfl, by decide, by decide⟩, rfl, ⟨_, rfl⟩, ⟨_, rfl⟩,
    rfl, rfl, rfl, rfl, .inl rfl⟩

theorem campaigns_siblings : Siblings campaignsFromRaw campaigns
    { source := .eventsRaw countsAll, grouping := .dims campaignsDims }
    { source := .rollup mvDailySources, grouping := .dims campaignsDims, fixed := isTagged } :=
  ⟨⟨rfl, rfl, by decide, by decide⟩, ⟨rfl, rfl, by decide, by decide⟩, rfl, ⟨_, rfl⟩, ⟨_, rfl⟩,
    rfl, rfl, rfl, rfl, .inr ⟨rfl, Grouping.noConfusion⟩⟩

private theorem trend_siblings : Siblings trendFromRaw trend
    { source := .eventsRaw countsAll, grouping := .daily }
    { source := .rollup mvHourlyVisitors, grouping := .daily } :=
  ⟨⟨rfl, rfl, by decide, by decide⟩, ⟨rfl, rfl, by decide, by decide⟩, rfl, ⟨_, rfl⟩, ⟨_, rfl⟩,
    rfl, rfl, rfl, rfl, .inl rfl⟩

/-- The events that both paths count. -/
def CountedOnBoth (f : ZonedFilter) (sel sel' : Select) (r' : Reader) (e : Event) : Prop :=
  (MatchesCols f.toFilter candidates e ∧ sel.fixed (sel.source.bucket e) = true) ↔
    sel'.source.keeps [] e = true ∧ MatchesCols f.toFilter r'.cols e ∧
      sel'.fixed (sel'.source.bucket e) = true

theorem matchesCols_withoutProps {f : ZonedFilter} {cols : List Column} {e : Event} :
    MatchesCols (withoutProps f).toFilter cols e ↔ MatchesCols f.toFilter cols e := by
  have hvalue (c : Column) : value (withoutProps f).toFilter c = value f.toFilter c := by
    cases c <;> rfl
  simp only [MatchesCols, hvalue]

theorem midnights_withoutProps {f : ZonedFilter} (h : UTCMidnights f) :
    UTCMidnights (withoutProps f) :=
  ⟨h.fromZone, h.toZone, h.fromTime, h.toTime⟩

section Panels

variable {zones : String → Zone} (hutc : zones "UTC" = utc)
variable {f : ZonedFilter} {events : Multiset Event} (hscene : Scene f events)
variable {r r' : Reader} {sel sel' : Select} (hsiblings : Siblings r r' sel sel')

include hutc hscene hsiblings

/-- The events that the raw sibling counts are the matched ones. -/
theorem counted_raw : sel.counted zones (r.query f) events =
    (matched f.toFilter events).filter fun e => sel.fixed (sel.source.bucket e) = true := by
  rw [counted_eq_filter hutc hsiblings.fits hscene.midnights, matched, Multiset.filter_filter]
  refine Multiset.filter_congr fun e he => ?_
  have hkeeps (hsite : e.siteID = f.siteID) :
      sel.source.keeps (r.query f).props e = true := by
    obtain ⟨countsView, hsource⟩ := hsiblings.source
    rw [hsource, Reader.query, if_pos hsiblings.props]
    exact hscene.props e he hsite
  rw [hsiblings.cols]
  tauto

private theorem counted_siblings
    (hboth : ∀ e, CountedAlike f.toFilter e → CountedOnBoth f sel sel' r' e) :
    sel.counted zones (r.query f) events =
      sel'.counted zones (r'.query (withoutProps f)) events := by
  have hnone : (r'.query (withoutProps f)).props = [] := by
    simp [Reader.query, hsiblings.props']
  rw [counted_raw hutc hscene hsiblings,
    counted_eq_filter hutc hsiblings.fits' (midnights_withoutProps hscene.midnights), matched,
    Multiset.filter_filter]
  refine Multiset.filter_congr fun e he => ?_
  rw [hnone, matchesCols_withoutProps]
  have hsame := fun hsite hfrom hto => hboth e (hscene.alike e he hsite hfrom hto)
  simp only [CountedOnBoth] at hsame
  constructor
  · rintro ⟨hfixed, hsite, hfrom, hto, hm⟩
    obtain ⟨hkeeps, hm', hfixed'⟩ := (hsame hsite hfrom hto).mp ⟨hm, hfixed⟩
    exact ⟨hkeeps, hsite, hfrom, hto, hm', hfixed'⟩
  · rintro ⟨hkeeps, hsite, hfrom, hto, hm', hfixed'⟩
    obtain ⟨hm, hfixed⟩ := (hsame hsite hfrom hto).mpr ⟨hkeeps, hm', hfixed'⟩
    exact ⟨hfixed, hsite, hfrom, hto, hm⟩

/-- Siblings that count the same events, and order their rows alike, answer alike. -/
theorem answers_siblings {ρ : Type*} [LinearOrder ρ] (rpv : ℕ → ℕ → ρ)
    (hboth : ∀ e, CountedAlike f.toFilter e → CountedOnBoth f sel sel' r' e)
    (htotals : ∀ e, CountedAlike f.toFilter e → MatchesCols f.toFilter candidates e →
      sel.source.totals e = e.totals)
    (horder : ∀ a ∈ (groupsOf sel'.grouping f.fromTime f.toTime Event.totals
        (sel.counted zones (r.query f) events)).map toRow,
      ∀ b ∈ (groupsOf sel'.grouping f.fromTime f.toTime Event.totals
        (sel.counted zones (r.query f) events)).map toRow,
      (rowLE rpv sel'.grouping (orderClause f.toFilter r.sortable r.fallback) a b ↔
        rowLE rpv sel'.grouping (orderClause f.toFilter r'.sortable r'.fallback) a b)) :
    Query.answers rpv zones (r.query f) events =
      Query.answers rpv zones (r'.query (withoutProps f)) events := by
  have hmid := midnights_withoutProps hscene.midnights
  have hcounted := counted_siblings hutc hscene hsiblings hboth
  have hsame : ∀ e ∈ sel.counted zones (r.query f) events, sel.source.totals e = e.totals := by
    intro e he
    rw [counted_raw hutc hscene hsiblings, matched, Multiset.filter_filter,
      Multiset.mem_filter] at he
    obtain ⟨he, -, hsite, hfrom, hto, hm⟩ := he
    exact htotals e (hscene.alike e he hsite hfrom hto) hm
  have htotals' : sel'.source.totals = Event.totals := by
    obtain ⟨v, hsource'⟩ := hsiblings.source'
    rw [hsource']
    rfl
  have hlimit : r.cap.limit f.toFilter = r'.cap.limit (withoutProps f).toFilter := by
    rw [hsiblings.cap]
    cases r.cap <;> rfl
  rw [answers_utc hutc rpv hsiblings.fits (inUTC_of_midnights hscene.midnights),
    answers_utc hutc rpv hsiblings.fits' (inUTC_of_midnights hmid), ← hcounted, htotals',
    groupsOf_congr hsame, hsiblings.grouping, hlimit, hscene.midnights.fromTime,
    hscene.midnights.toTime, hmid.fromTime, hmid.toTime]
  exact answers_congr horder

end Panels

private theorem rowLE_views
    {ρ : Type*} [LinearOrder ρ] (rpv : ℕ → ℕ → ρ) (ds : List Dim) (a b : Row) :
    rowLE rpv (.dims ds) [⟨.views, true⟩] a b ↔ b.views ≤ a.views := by
  simp [rowLE, compareTerms, compareBy, compare_gt_iff_gt]

private theorem rowLE_revenue_views {ρ : Type*} [LinearOrder ρ] (rpv : ℕ → ℕ → ρ) (ds : List Dim)
    (a b : Row) : rowLE rpv (.dims ds) [⟨.revenue, true⟩, ⟨.views, true⟩] a b ↔
      b.revenue < a.revenue ∨ b.revenue = a.revenue ∧ b.views ≤ a.views := by
  have hgt : rowLE rpv (.dims ds) [⟨.revenue, true⟩, ⟨.views, true⟩] a b ↔
      ¬ (a.revenue < b.revenue ∨ b.revenue = a.revenue ∧ a.views < b.views) := by
    simp [rowLE, compareTerms, compareBy, Ordering.then_eq_gt, compare_gt_iff_gt]
  rw [hgt]
  omega

/-- A row of the pages has the totals of its page. -/
theorem of_mem_pages {f : Filter} {events : Multiset Event} {start stop : ℤ} {row : Row}
    (h : row ∈ (groupsOf (.dims [.column .pathname]) start stop Event.totals
      (matched f events)).map toRow) :
    ∃ e ∈ matched f events, row.views = (pageTotals f events e.pathname).views ∧
      row.revenue = (pageTotals f events e.pathname).revenue := by
  obtain ⟨group, hgroup, rfl⟩ := Multiset.mem_map.mp h
  obtain ⟨⟨e, he, hkey⟩, htotal⟩ := mem_groupBy.mp hgroup
  have hpage : (matched f events).filter
      (fun i => (Grouping.dims [.column .pathname]).ofEvent i = group.1) =
        (matched f events).filter (·.pathname = e.pathname) := by
    refine Multiset.filter_congr fun i _ => ?_
    rw [← hkey]
    simp [Grouping.ofEvent, pick, Event.value]
  rw [hpage] at htotal
  refine ⟨e, he, ?_, ?_⟩
  · rw [toRow, htotal]
    rfl
  · rw [toRow, htotal]
    rfl

private theorem pages_order {ρ : Type*} [LinearOrder ρ] (rpv : ℕ → ℕ → ρ) {f : Filter}
    {events : Multiset Event} (h : PagesAlike f events) {start stop : ℤ} {a b : Row}
    (ha : a ∈ (groupsOf (.dims [.column .pathname]) start stop Event.totals
      (matched f events)).map toRow)
    (hb : b ∈ (groupsOf (.dims [.column .pathname]) start stop Event.totals
      (matched f events)).map toRow) :
    rowLE rpv (.dims [.column .pathname]) (orderClause f pagesSortable [.revenue, .views]) a b ↔
      rowLE rpv (.dims [.column .pathname]) (orderClause f pagesSortable [.views]) a b := by
  cases hsort : pagesSortable f.sort with
  | some keys => simp only [orderClause, hsort]
  | none =>
    simp only [orderClause, hsort, List.map_cons, List.map_nil]
    obtain ⟨e, he, hviews, hrevenue⟩ := of_mem_pages ha
    obtain ⟨e', he', hviews', hrevenue'⟩ := of_mem_pages hb
    have hpages := (h.resolve_left (not_not.mpr hsort)) e' he' e he
    rw [rowLE_revenue_views, rowLE_views, hviews, hviews', hrevenue, hrevenue']
    exact hpages.symm

section Main

variable {ρ : Type*} [LinearOrder ρ] (rpv : ℕ → ℕ → ρ)
variable {zones : String → Zone} {f : ZonedFilter} {events : Multiset Event}

/-- Statements without conditions of their own count the events that their filters match. -/
theorem countedOnBoth_of_iff {sel sel' : Select} {r' : Reader} {e : Event}
    (hfixed : sel.fixed = fun _ => true) (hfixed' : sel'.fixed = fun _ => true)
    (h : MatchesCols f.toFilter candidates e ↔
      sel'.source.keeps [] e = true ∧ MatchesCols f.toFilter r'.cols e) :
    CountedOnBoth f sel sel' r' e := by
  simp only [CountedOnBoth, hfixed, hfixed', and_true]
  exact h

variable (hutc : zones "UTC" = utc) (hscene : Scene f events)

include hutc hscene

private theorem overview_agrees : Query.answers rpv zones (overviewFromRaw.query f) events =
    Query.answers rpv zones (overview.query (withoutProps f)) events :=
  answers_siblings hutc hscene overview_siblings rpv
    (fun _ h => countedOnBoth_of_iff rfl rfl (hourlyVisitors_alike h))
    (fun _ h hm => (totals_alike h hm).2) (fun _ _ _ _ => Iff.rfl)

private theorem trend_agrees : Query.answers rpv zones (trendFromRaw.query f) events =
    Query.answers rpv zones (trend.query (withoutProps f)) events :=
  answers_siblings hutc hscene trend_siblings rpv
    (fun _ h => countedOnBoth_of_iff rfl rfl (hourlyVisitors_alike h))
    (fun _ h hm => (totals_alike h hm).1) (fun _ _ _ _ => Iff.rfl)

private theorem sources_agrees : Query.answers rpv zones (sourcesFromRaw.query f) events =
    Query.answers rpv zones (sources.query (withoutProps f)) events :=
  answers_siblings hutc hscene sources_siblings rpv
    (fun _ h => countedOnBoth_of_iff rfl rfl (dailySources_alike h))
    (fun _ h hm => (totals_alike h hm).1) (fun _ _ _ _ => Iff.rfl)

private theorem sourcesByChannel_agrees :
    Query.answers rpv zones (sourcesByChannelFromRaw.query f) events =
      Query.answers rpv zones (sourcesByChannel.query (withoutProps f)) events :=
  answers_siblings hutc hscene sourcesByChannel_siblings rpv
    (fun _ h => countedOnBoth_of_iff rfl rfl (dailySources_alike h))
    (fun _ h hm => (totals_alike h hm).1) (fun _ _ _ _ => Iff.rfl)

private theorem pages_agrees (hpages : PagesAlike f.toFilter events) :
    Query.answers rpv zones (pagesFromRaw.query f) events =
      Query.answers rpv zones (pages.query (withoutProps f)) events := by
  have hcounted := counted_raw hutc hscene pages_siblings
  rw [Multiset.filter_eq_self.mpr fun _ _ => rfl] at hcounted
  refine answers_siblings hutc hscene pages_siblings rpv
    (fun _ h => countedOnBoth_of_iff rfl rfl (dailyPages_alike h))
    (fun _ h hm => (totals_alike h hm).1) ?_
  rw [hcounted]
  exact fun a ha b hb => pages_order rpv hpages ha hb

private theorem seo_agrees : Query.answers rpv zones (seoFromRaw.query f) events =
    Query.answers rpv zones (seo.query (withoutProps f)) events := by
  refine answers_siblings hutc hscene seo_siblings rpv (fun e h => ?_)
    (fun _ h hm => (totals_alike h hm).1) (fun _ _ _ _ => Iff.rfl)
  simp only [CountedOnBoth]
  rw [isOrganic_bucket (by decide), isOrganic_bucket (by decide)]
  exact seo_alike h

private theorem campaigns_agrees : Query.answers rpv zones (campaignsFromRaw.query f) events =
    Query.answers rpv zones (campaigns.query (withoutProps f)) events := by
  refine answers_siblings hutc hscene campaigns_siblings rpv (fun e h => ?_)
    (fun _ h hm => (totals_alike h hm).1) (fun _ _ _ _ => Iff.rfl)
  simp only [CountedOnBoth, and_true]
  rw [isTagged_bucket (by decide)]
  exact campaigns_alike h

theorem answers_agree (hpages : PagesAlike f.toFilter events) {p : Panel}
    (hp : p ∈ fallbackPanels) : Query.answers rpv zones (p.raw.query f) events =
      Query.answers rpv zones (p.rollup.query (withoutProps f)) events := by
  cases p with
  | overview => exact overview_agrees rpv hutc hscene
  | sources => exact sources_agrees rpv hutc hscene
  | sourcesByChannel => exact sourcesByChannel_agrees rpv hutc hscene
  | pages => exact pages_agrees rpv hutc hscene hpages
  | seo => exact seo_agrees rpv hutc hscene
  | campaigns => exact campaigns_agrees rpv hutc hscene
  | trend => exact trend_agrees rpv hutc hscene
  | geo => exact absurd hp (by decide)
  | geoTopCountries => exact absurd hp (by decide)

end Main

section Single

variable {ρ : Type*} [LinearOrder ρ] {rpv : ℕ → ℕ → ρ}
variable {zones : String → Zone} {r r' : Reader} {sel sel' : Select} {f g : ZonedFilter}
  {e : Event}

/-- The statement counts the event, which is of its site and range. -/
def Counts (sel : Select) (r : Reader) (f : ZonedFilter) (e : Event) : Prop :=
  sel.source.keeps (r.query f).props e = true ∧ MatchesCols f.toFilter r.cols e ∧
    sel.fixed (sel.source.bucket e) = true

/-- The event is of the site, and in the range. -/
def InScope (f : ZonedFilter) (e : Event) : Prop :=
  e.siteID = f.siteID ∧ f.fromTime ≤ e.time ∧ e.time < f.toTime

theorem counted_single (hutc : zones "UTC" = utc) (hfits : Fits r sel) (hf : UTCMidnights f)
    (he : InScope f e) :
    (Counts sel r f e → sel.counted zones (r.query f) {e} = {e}) ∧
      (¬ Counts sel r f e → sel.counted zones (r.query f) {e} = 0) := by
  obtain ⟨hsite, hfrom, hto⟩ := he
  rw [counted_eq_filter hutc hfits hf]
  constructor
  · rintro ⟨hkeeps, hm, hfixed⟩
    refine Multiset.filter_eq_self.mpr fun i hi => ?_
    obtain rfl := Multiset.mem_singleton.mp hi
    exact ⟨hkeeps, hsite, hfrom, hto, hm, hfixed⟩
  · intro hno
    refine Multiset.filter_eq_nil.mpr fun i hi => ?_
    obtain rfl := Multiset.mem_singleton.mp hi
    exact fun h => hno ⟨h.1, h.2.2.2.2⟩

/-- The row of the event is the only one of a panel that is not empty. -/
theorem groups_single (grouping : Grouping) (start stop : ℤ) (m : Event → Totals) (e : Event) :
    (∃ k, (k, m e) ∈ groupsOf grouping start stop m {e}) ∧
      ∀ row ∈ groupsOf grouping start stop m {e}, row.2 = m e ∨ row.2 = 0 := by
  have htotal : total m {e} = m e := by simp [total]
  cases grouping with
  | whole =>
    rw [groupsOf, htotal]
    refine ⟨⟨_, Multiset.mem_singleton_self _⟩, fun row hrow => .inl ?_⟩
    rw [Multiset.mem_singleton.mp hrow]
  | dims ds =>
    rw [groupsOf, groupBy_singleton]
    refine ⟨⟨_, Multiset.mem_singleton_self _⟩, fun row hrow => .inl ?_⟩
    rw [Multiset.mem_singleton.mp hrow]
  | daily =>
    rw [groupsOf, groupBy_singleton, fill]
    refine ⟨⟨_, Multiset.mem_add.mpr (.inl (Multiset.mem_singleton_self _))⟩, fun row hrow => ?_⟩
    rcases Multiset.mem_add.mp hrow with hrow | hrow
    · exact .inl (by rw [Multiset.mem_singleton.mp hrow])
    · obtain ⟨d, -, rfl⟩ := List.mem_map.mp (Multiset.mem_coe.mp hrow)
      exact .inr rfl

private theorem groups_zero (grouping : Grouping) (start stop : ℤ) (m : Event → Totals) :
    ∀ row ∈ groupsOf grouping start stop m 0, row.2 = 0 := by
  intro row hrow
  cases grouping with
  | whole => rw [Multiset.mem_singleton.mp hrow, total_zero]
  | dims ds => exact absurd hrow (Multiset.notMem_zero row)
  | daily =>
    rw [groupsOf, groupBy_zero, fill, zero_add] at hrow
    obtain ⟨d, -, rfl⟩ := List.mem_map.mp (Multiset.mem_coe.mp hrow)
    rfl

/-- Of at most one event, a panel without days has at most one row. -/
theorem card_groups_le_one {grouping : Grouping} (h : grouping ≠ .daily) (start stop : ℤ)
    (m : Event → Totals) {counted : Multiset Event} (hcounted : counted = {e} ∨ counted = 0) :
    (groupsOf grouping start stop m counted).card ≤ 1 := by
  cases grouping with
  | whole => exact le_rfl
  | dims ds =>
    rcases hcounted with rfl | rfl
    · rw [groupsOf, groupBy_singleton, Multiset.card_singleton]
    · exact Nat.zero_le 1
  | daily => exact absurd rfl h

/-- A limit lets at least one row through. -/
theorem one_le_limit {cap : Cap} {n : ℕ} (hcap : cap = .unlimited ∨ cap = .effective)
    (h : (cap.limit f.toFilter).map Int.toNat = some n) : 1 ≤ n := by
  rcases hcap with rfl | rfl
  · exact absurd h (by simp [Cap.limit])
  · have heffective : 0 < f.effectiveLimit := by
      unfold Filter.effectiveLimit
      split_ifs with hlimit
      · decide
      · omega
    simp only [Cap.limit, Option.map_some, Option.some.injEq] at h
    omega

private theorem daily_answers_nonempty
    (order : List OrderTerm) (limit : Option ℕ) (rows : Multiset Row) :
    (Answers (rowLE rpv .daily order) limit rows).Nonempty := by
  let byDay (a b : Row) : Prop := a.group.day.getD 0 ≤ b.group.day.getD 0
  have htotal : Std.Total byDay := ⟨fun a b => le_total _ _⟩
  have htrans : IsTrans Row byDay := ⟨fun a b c => le_trans⟩
  have hdecidable : DecidableRel byDay := fun a b => inferInstanceAs (Decidable (_ ≤ _))
  exact show (Answers byDay limit rows).Nonempty from answers_nonempty

theorem card_visitors (s : Source) (e : Event) : (s.totals e).visitors.card = 1 := by
  cases s <;> rfl

/-- The row of the event is among those of equal rows. -/
theorem row_of_single {grouping : Grouping} {start stop : ℤ} {m : Event → Totals}
    {groups : Multiset (Group × Totals)}
    (h : (groupsOf grouping start stop m {e}).map toRow = groups.map toRow) :
    ∃ row ∈ groups, row.2.views = (m e).views ∧ row.2.visitors.card = (m e).visitors.card ∧
      row.2.revenue = (m e).revenue := by
  obtain ⟨⟨k, hk⟩, -⟩ := groups_single grouping start stop m e
  have hmem := Multiset.mem_map_of_mem toRow hk
  rw [h] at hmem
  obtain ⟨row, hrow, heq⟩ := Multiset.mem_map.mp hmem
  exact ⟨row, hrow, congrArg Row.views heq, congrArg Row.visitors heq, congrArg Row.revenue heq⟩

theorem no_row_of_zero {grouping grouping' : Grouping} {start stop start' stop' : ℤ}
    {m m' : Event → Totals} (hm : (m e).visitors.card = 1)
    (h : (groupsOf grouping start stop m {e}).map toRow =
      (groupsOf grouping' start' stop' m' 0).map toRow) : False := by
  obtain ⟨row, hrow, -, hvisitors, -⟩ := row_of_single h
  rw [groups_zero grouping' start' stop' m' row hrow, hm] at hvisitors
  exact absurd hvisitors (by decide)

/-- Siblings that answer alike count one event alike, and alike measured. -/
theorem counts_iff (hutc : zones "UTC" = utc) (hsiblings : Siblings r r' sel sel')
    (hf : UTCMidnights f) (he : InScope f e)
    (h : Query.answers rpv zones (r.query f) {e} =
      Query.answers rpv zones (r'.query (withoutProps f)) {e}) :
    (Counts sel r f e ↔ Counts sel' r' (withoutProps f) e) ∧ (Counts sel r f e →
      (sel.source.totals e).views = (sel'.source.totals e).views ∧
        (sel.source.totals e).revenue = (sel'.source.totals e).revenue) := by
  have hmid := midnights_withoutProps hf
  have hsingle := counted_single hutc hsiblings.fits hf he
  have hsingle' := counted_single hutc hsiblings.fits' hmid he
  have hlimits : r.cap.limit f.toFilter = r'.cap.limit (withoutProps f).toFilter := by
    rw [hsiblings.cap]
    cases r.cap <;> rfl
  rw [answers_utc hutc rpv hsiblings.fits (inUTC_of_midnights hf), answers_utc hutc rpv
    hsiblings.fits' (inUTC_of_midnights hmid), ← hsiblings.grouping, ← hlimits] at h
  have hone := (em (Counts sel r f e)).imp hsingle.1 hsingle.2
  have hone' := (em (Counts sel' r' (withoutProps f) e)).imp hsingle'.1 hsingle'.2
  have hcard (m : Event → Totals) (hdaily : sel.grouping ≠ .daily) (start stop : ℤ)
      {counted : Multiset Event} (hcounted : counted = {e} ∨ counted = 0) :
      ((groupsOf sel.grouping start stop m counted).map toRow).card ≤ 1 := by
    rw [Multiset.card_map]
    exact card_groups_le_one hdaily start stop m hcounted
  have hrows := rows_eq_of_answers h ?nonempty ?fits
  case nonempty =>
    by_cases hdaily : sel.grouping = .daily
    · rw [hdaily]
      exact daily_answers_nonempty _ _ _
    · exact answers_nonempty_of_card_le_one (hcard _ hdaily _ _ hone)
  case fits =>
    intro n hn
    rcases hsiblings.cap_cases with hnone | ⟨heffective, hdaily⟩
    · rw [hnone] at hn
      exact absurd hn (by simp [Cap.limit])
    · have hn := one_le_limit (.inr heffective) hn
      exact ⟨(hcard _ hdaily _ _ hone).trans hn, (hcard _ hdaily _ _ hone').trans hn⟩
  by_cases hc : Counts sel r f e <;> by_cases hc' : Counts sel' r' (withoutProps f) e
  · rw [hsingle.1 hc, hsingle'.1 hc'] at hrows
    obtain ⟨row, hrow, hviews, hvisitors, hrevenue⟩ := row_of_single hrows
    rcases (groups_single _ _ _ _ _).2 row hrow with hm | hm
    · rw [hm] at hviews hrevenue
      exact ⟨iff_of_true hc hc', fun _ => ⟨hviews.symm, hrevenue.symm⟩⟩
    · rw [hm, card_visitors] at hvisitors
      exact absurd hvisitors (by decide)
  · rw [hsingle.1 hc, hsingle'.2 hc'] at hrows
    exact (no_row_of_zero (card_visitors _ _) hrows).elim
  · rw [hsingle.2 hc, hsingle'.1 hc'] at hrows
    exact (no_row_of_zero (card_visitors _ _) hrows.symm).elim
  · exact ⟨iff_of_false hc hc', fun h => absurd h hc⟩

/-- What siblings that answer alike say of an event that meets the constraints. -/
theorem countedOnBoth_of_answers (hutc : zones "UTC" = utc) (hsiblings : Siblings r r' sel sel')
    (hf : UTCMidnights f) (he : InScope f e)
    (hhas : (Filter.propPredicates f.toFilter).all e.has = true)
    (h : Query.answers rpv zones (r.query f) {e} =
      Query.answers rpv zones (r'.query (withoutProps f)) {e}) :
    CountedOnBoth f sel sel' r' e ∧
      (MatchesCols f.toFilter candidates e → sel.fixed (sel.source.bucket e) = true →
        (sel.source.totals e).views = (sel'.source.totals e).views ∧
          (sel.source.totals e).revenue = (sel'.source.totals e).revenue) := by
  have hraw : Counts sel r f e ↔
      MatchesCols f.toFilter candidates e ∧ sel.fixed (sel.source.bucket e) = true := by
    have hkeeps : sel.source.keeps (r.query f).props e = true := by
      obtain ⟨countsView, hsource⟩ := hsiblings.source
      rw [hsource, Reader.query, if_pos hsiblings.props]
      exact hhas
    rw [Counts, hsiblings.cols]
    exact and_iff_right hkeeps
  have hrollup : Counts sel' r' (withoutProps f) e ↔
      sel'.source.keeps [] e = true ∧ MatchesCols f.toFilter r'.cols e ∧
        sel'.fixed (sel'.source.bucket e) = true := by
    have hnone : (r'.query (withoutProps f)).props = [] := by
      simp [Reader.query, hsiblings.props']
    rw [Counts, hnone, matchesCols_withoutProps]
  obtain ⟨hcounts, hsame⟩ := counts_iff hutc hsiblings hf he h
  exact ⟨hraw.symm.trans (hcounts.trans hrollup), fun hm hfixed => hsame (hraw.mpr ⟨hm, hfixed⟩)⟩

end Single

section Exact

variable {ρ : Type*} [LinearOrder ρ] {rpv : ℕ → ℕ → ρ}
variable {zones : String → Zone} {f : ZonedFilter} {e : Event}
variable (hutc : zones "UTC" = utc) (hf : UTCMidnights f) (he : InScope f e)
variable (hhas : (Filter.propPredicates f.toFilter).all e.has = true)
variable (h : ∀ p ∈ fallbackPanels, Query.answers rpv zones (p.raw.query f) {e} =
  Query.answers rpv zones (p.rollup.query (withoutProps f)) {e})

include hutc hf he hhas h

private theorem matching_of_answers (hm : MatchesCols f.toFilter candidates e) :
    e.isBot = false ∧ isPageview e ∧ e.utmCampaign ≠ "" ∧
      (e.isGoal = true ∨ e.eventValue = 0) := by
  obtain ⟨hsources, hrevenue⟩ := countedOnBoth_of_answers hutc sourcesByChannel_siblings hf he hhas
    (h .sourcesByChannel (by decide))
  obtain ⟨-, hviews⟩ := countedOnBoth_of_answers hutc overview_siblings hf he hhas
    (h .overview (by decide))
  obtain ⟨hcampaigns, -⟩ := countedOnBoth_of_answers hutc campaigns_siblings hf he hhas
    (h .campaigns (by decide))
  have hbot : e.isBot = false := by
    have hkeeps : mvDailySources.keeps e = true := (hsources.mp ⟨hm, rfl⟩).1
    simpa [mvDailySources] using hkeeps
  have hview : isPageview e := by
    have hone : (if countsPageviews e then 1 else 0) = 1 := (hviews hm rfl).1
    simpa [countsPageviews, isPageview] using hone
  have htagged : e.utmCampaign ≠ "" :=
    (isTagged_bucket (by decide) e).mp (hcampaigns.mp ⟨hm, rfl⟩).2.2
  have hvalue : (if e.isGoal then e.eventValue else 0) = e.eventValue := (hrevenue hm rfl).2
  refine ⟨hbot, hview, htagged, ?_⟩
  split_ifs at hvalue with hgoal
  · exact .inl hgoal
  · exact .inr hvalue.symm

private theorem others_of_answers (hno : ¬ MatchesCols f.toFilter candidates e) : e.isBot = true ∨
    (¬ (MatchesCols f.toFilter hourlyVisitorsCols e ∧ (isPageview e ∨ e.isGoal = true)) ∧
      ¬ MatchesCols f.toFilter dailySourcesCols e ∧ ¬ MatchesCols f.toFilter dailyPagesCols e ∧
      ¬ (MatchesCols f.toFilter seoCols e ∧ e.channel = channelOrganicSearch)) := by
  obtain ⟨hhourly, -⟩ := countedOnBoth_of_answers hutc overview_siblings hf he hhas
    (h .overview (by decide))
  obtain ⟨hsources, -⟩ := countedOnBoth_of_answers hutc sourcesByChannel_siblings hf he hhas
    (h .sourcesByChannel (by decide))
  obtain ⟨hpages, -⟩ := countedOnBoth_of_answers hutc pages_siblings hf he hhas
    (h .pages (by decide))
  obtain ⟨hseo, -⟩ := countedOnBoth_of_answers hutc seo_siblings hf he hhas (h .seo (by decide))
  cases hbot : e.isBot with
  | true => exact .inl rfl
  | false =>
    have hkeeps : mvDailySources.keeps e = true := by simp [mvDailySources, hbot]
    refine .inr ⟨?_, ?_, ?_, ?_⟩
    · rintro ⟨hcols, hcounts⟩
      have hkeeps : mvHourlyVisitors.keeps e = true := by
        simpa [mvHourlyVisitors, hbot, isPageview] using hcounts
      exact hno (hhourly.mpr ⟨hkeeps, hcols, rfl⟩).1
    · exact fun hcols => hno (hsources.mpr ⟨hkeeps, hcols, rfl⟩).1
    · exact fun hcols => hno (hpages.mpr ⟨hkeeps, hcols, rfl⟩).1
    · rintro ⟨hcols, horganic⟩
      have hfixed := (isOrganic_bucket (s := .rollup mvDailySources) (by decide) e).mpr horganic
      exact hno (hseo.mpr ⟨hkeeps, hcols, hfixed⟩).1

end Exact

private theorem pagesAlike_singleton (f : Filter) (e : Event) : PagesAlike f {e} := by
  refine .inr fun a ha b hb => ?_
  rw [Multiset.mem_singleton.mp (Multiset.mem_of_mem_filter ha),
    Multiset.mem_singleton.mp (Multiset.mem_of_mem_filter hb)]
  exact iff_of_true le_rfl (.inr ⟨rfl, le_rfl⟩)

/-- The panels answer alike for an event alone exactly when it is counted alike. -/
theorem single_answers_agree_iff {ρ : Type*} [LinearOrder ρ] (rpv : ℕ → ℕ → ρ)
    {zones : String → Zone} (hutc : zones "UTC" = utc) {f : ZonedFilter} (hf : UTCMidnights f)
    {e : Event} (he : InScope f e)
    (hhas : (Filter.propPredicates f.toFilter).all e.has = true) :
    (∀ p ∈ fallbackPanels, Query.answers rpv zones (p.raw.query f) {e} =
      Query.answers rpv zones (p.rollup.query (withoutProps f)) {e}) ↔
        CountedAlike f.toFilter e := by
  constructor
  · intro h
    exact ⟨matching_of_answers hutc hf he hhas h, others_of_answers hutc hf he hhas h⟩
  · intro halike p hp
    have hscene : Scene f {e} := by
      refine ⟨hf, fun i hi _ => ?_, fun i hi _ _ _ => ?_⟩
      · rwa [Multiset.mem_singleton.mp hi]
      · rwa [Multiset.mem_singleton.mp hi]
    exact answers_agree rpv hutc hscene (pagesAlike_singleton f.toFilter e) hp

private theorem validate_withoutProps {f : ZonedFilter} (h : f.validate = .ok ()) :
    (withoutProps f).validate = .ok () := by
  have hnone : (withoutProps f).hasPropFilter = false := rfl
  simp only [Filter.validate] at h
  split_ifs at h with hsite hzero horder hspan hprops hcount hlimit hdir
  simp only [Filter.validate, hnone, Bool.false_and, Bool.false_eq_true, if_false]
  exact (if_neg hsite).trans <| (if_neg hzero).trans <| (if_neg horder).trans <|
    (if_neg hspan).trans <| (if_neg hlimit).trans (if_neg hdir)

/-- For a filter whose properties every event of the site has, the panels return what they
return without them, when the events are counted alike and the pages stand alike. -/
theorem raw_agrees {ρ : Type*} [LinearOrder ρ] (rpv : ℕ → ℕ → ρ) {zones : String → Zone}
    (hutc : zones "UTC" = utc) {f : ZonedFilter} {events : Multiset Event}
    (hvalid : f.validate = .ok ()) (hprops : f.hasPropFilter = true) (hscene : Scene f events)
    (hpages : PagesAlike f.toFilter events) {p : Panel} (hp : p ∈ fallbackPanels) :
    read rpv zones p f events = read rpv zones p (withoutProps f) events := by
  have hraw : p.reader f.toFilter = p.raw := if_pos hprops
  have hrollup : p.reader (withoutProps f).toFilter = p.rollup := if_neg Bool.false_ne_true
  rw [read, read, hvalid, validate_withoutProps hvalid, hraw, hrollup,
    answers_agree rpv hutc hscene hpages hp]

/-- The first day of the epoch in UTC, for the members. -/
def memberDay : ZonedFilter :=
  { siteID := 1, fromTime := 0, toTime := day, fromZone := "UTC", toZone := "UTC"
    userProps := [("plan", "member")] }

def memberVisit : Event :=
  { siteID := 1, time := hour, visitorHash := [1], pathname := "/", utmCampaign := "spring"
    userProps := [("plan", "member")] }

def memberBot : Event := { memberVisit with isBot := true }

private theorem midnights_memberDay : UTCMidnights memberDay :=
  ⟨rfl, rfl, by decide, by decide⟩

/-- Two members on two pages, one of them with a goal, and visits of the next day and to another
site. -/
def memberVisits : Multiset Event :=
  {memberVisit, { memberVisit with time := 3 * hour }, { memberVisit with
      visitorHash := [2], pathname := "/pricing", eventValue := 5, isGoal := true },
    { memberVisit with time := day + hour }, { memberVisit with siteID := 2, userProps := [] }}

/-- The same filter with the pages in the order of their views. -/
def memberPages : ZonedFilter := { memberDay with sort := "views" }

private theorem scene_memberVisits : Scene memberPages memberVisits := by
  refine ⟨⟨rfl, rfl, by decide, by decide⟩, ?_, ?_⟩
  · decide +kernel
  · intro e he
    simp only [memberVisits, Multiset.insert_eq_cons, Multiset.mem_cons, Multiset.mem_singleton]
      at he
    rcases he with rfl | rfl | rfl | rfl | rfl
    · exact fun _ _ _ => ⟨fun _ => ⟨rfl, rfl, by decide, .inr rfl⟩, fun h => absurd (by decide) h⟩
    · exact fun _ _ _ => ⟨fun _ => ⟨rfl, rfl, by decide, .inr rfl⟩, fun h => absurd (by decide) h⟩
    · exact fun _ _ _ => ⟨fun _ => ⟨rfl, rfl, by decide, .inl rfl⟩, fun h => absurd (by decide) h⟩
    · exact fun _ _ hlt => absurd hlt (by decide)
    · exact fun hsite => absurd hsite (by decide)

theorem raw_agrees_memberVisits :
    read (· / ·) (fun _ => utc) .pages memberPages memberVisits =
      read (· / ·) (fun _ => utc) .pages (withoutProps memberPages) memberVisits :=
  raw_agrees (· / ·) rfl rfl rfl scene_memberVisits (.inl (by decide)) (by decide)

/-- A bot is counted over the events only. -/
theorem memberBot_disagrees : memberDay.validate = .ok () ∧
    (∀ e ∈ ({memberBot} : Multiset Event), e.siteID = memberDay.siteID →
      (Filter.propPredicates memberDay.toFilter).all e.has = true) ∧
    read (· / ·) (fun _ => utc) .sourcesByChannel memberDay {memberBot} ≠
      read (· / ·) (fun _ => utc) .sourcesByChannel (withoutProps memberDay) {memberBot} := by
  refine ⟨rfl, fun e he _ => ?_, fun h => ?_⟩
  · rw [Multiset.mem_singleton.mp he]
    decide
  · have hscope : InScope memberDay memberBot := ⟨rfl, by decide, by decide⟩
    obtain ⟨hboth, -⟩ := countedOnBoth_of_answers rfl sourcesByChannel_siblings
      midnights_memberDay hscope (by decide) (Except.ok.inj h)
    exact absurd (hboth.mp ⟨by decide, rfl⟩).1 (by decide)

end Statnive.RawFallback
