import Mathlib.Algebra.Order.BigOperators.Group.Multiset
import Statnive.GoalSnapshot
import Statnive.Rollups
import Statnive.StoredProps

/-!
# Goals and revenue of the stored events

A visitor sends `is_goal` and `event_value` with an event, the pipeline matches its name against
the snapshot of goals, and the rollups add up the values of the rows.
-/

namespace Statnive.GoalRevenue

open EnrichPipeline GoalSnapshot GoalsHandlers GroupedAggregates IngestEvents IngestHandler
open PrivacyPolicy Rollups

variable {φ : Type}

/-- A request as it is served. The snapshot at its `i`-th event was read from the goals
`goals i`. -/
structure Ingested (φ : Type) where
  cfg : Config
  dec : Decoder
  deps : Deps φ
  goals : ℕ → List Goal
  clock : ℕ → Clock
  appendAndWait : ℕ → EnrichedEvent → Bool
  pipeline : EnrichPipeline.State φ
  request : Request

def Ingested.snapshot (s : Ingested φ) (i : ℕ) : Option GoalMap :=
  some (bySite (listActive (s.goals i)))

/-- The pipeline asks the snapshot of the moment. -/
def Ingested.depsAt (s : Ingested φ) (i : ℕ) : Deps φ :=
  { s.deps with goals := some fun siteID name => (matchGoal (s.snapshot i) siteID name).map Goal.value }

def Ingested.backend (s : Ingested φ) : Backend (EnrichPipeline.State φ) where
  enrich i p raw := (((s.depsAt i).enrich (s.clock i) p raw).1.toOption,
    ((s.depsAt i).enrich (s.clock i) p raw).2)
  appendAndWait := s.appendAndWait

def Ingested.outputs (s : Ingested φ) : List Output :=
  serve s.cfg s.backend s.dec s.pipeline s.request

/-- No bot, and its name is that of an enabled goal of its site. -/
def Ingested.isGoalEvent (s : Ingested φ) (i : ℕ) (e : EnrichedEvent) : Bool :=
  e.isBot = 0 && (matchGoal (s.snapshot i) e.siteID e.eventName).isSome

/-- The rows of the request, each with whether it is a goal. -/
def Ingested.stored (s : Ingested φ) : List (Bool × EnrichedEvent) :=
  s.outputs.filterMap fun
    | .appended i _ e true => some (s.isGoalEvent i e, e)
    | _ => none

def rollups : List View := [mvHourlyVisitors, mvDailyPages, mvDailySources, mvDailyGeo]

/-- The row of `events_raw` as the views read it. -/
def asEvent (e : EnrichedEvent) : Event where
  siteID := e.siteID
  time := e.tsUTC
  visitorHash := e.visitorHash.map UInt8.ofNat
  pathname := e.pathname
  referrerName := e.referrerName
  channel := e.channel
  utmSource := e.utmSource
  utmMedium := e.utmMedium
  utmCampaign := e.utmCampaign
  utmContent := e.utmContent
  utmTerm := e.utmTerm
  countryCode := e.countryCode
  province := e.province
  city := e.city
  eventType := e.eventType
  eventValue := e.eventValue
  isGoal := e.isGoal = 1
  isBot := e.isBot ≠ 0
  hitProps := e.hitProps
  sessionProps := e.sessionProps
  userProps := e.userProps

/-- The revenue of a site over all rows of a rollup. -/
def reported (v : View) (siteID : ℕ) (events : Multiset Event) : ℕ :=
  (total Prod.snd (((Source.rollup v).rows [] events).filter
    fun row => row.1.siteID = siteID)).revenue

def rowsOf (calls : List (Ingested φ)) : List (Bool × EnrichedEvent) :=
  calls.flatMap Ingested.stored

def eventsOf (rows : List (Bool × EnrichedEvent)) : Multiset Event :=
  (rows.map fun row => asEvent row.2 : List Event)

structure Integrity (calls : List (Ingested φ)) : Prop where
  goals : ∀ row ∈ rowsOf calls, row.2.isGoal = 1 → row.1 = true
  revenue : ∀ v ∈ rollups, ∀ siteID, reported v siteID (eventsOf (rowsOf calls)) =
    reported v siteID (eventsOf ((rowsOf calls).filter Prod.fst))

/-- The name under which an event is matched. -/
def sentName (ev : Payload) : String :=
  if ev.eventName = "" then if ev.eventType = "" then "pageview" else ev.eventType
  else ev.eventName

def Ingested.fromBot (s : Ingested φ) : Bool :=
  let userAgent := s.request.header "User-Agent"
  s.deps.isBot userAgent (clientIP s.request) || (s.deps.parseUA userAgent).isBot

/-- The `i`-th event is that of an enabled goal, and not from a bot. -/
def Ingested.sendsGoal (s : Ingested φ) (i : ℕ) (ev : Payload) : Bool :=
  !s.fromBot && match s.cfg.lookupSitePolicy i ev.hostname with
    | none => false
    | some (siteID, _) => (matchGoal (s.snapshot i) siteID (sentName ev)).isSome

/-- An event that is no goal does not say it is one, and names no price unless a bot sends it. -/
def Honest (calls : List (Ingested φ)) : Prop :=
  ∀ s ∈ calls, ∀ evs, parseBody s.dec s.request.body = .ok evs → ∀ i ev, evs[i]? = some ev →
    (∃ siteID e, .appended i siteID e true ∈ s.outputs) → s.sendsGoal i ev = false →
      ev.isGoal = false ∧ (s.fromBot = false → s.deps.uint64 ev.eventValue = 0)

/-- A match sets the flag, and may set the value. -/
theorem applyGoalMatch_eq (goals : ℕ → String → Option ℕ) (ev : EnrichedEvent) :
    ∃ value, applyGoalMatch goals ev =
      if (goals ev.siteID ev.eventName).isSome then { ev with isGoal := 1, eventValue := value }
      else ev := by
  cases h : goals ev.siteID ev.eventName with
  | none => exact ⟨0, by simp [applyGoalMatch, h]⟩
  | some value => exact ⟨_, by simp only [applyGoalMatch, h]; rfl⟩

/-- The matcher runs on the events of no bot. -/
theorem row_match {d : Deps φ} {goals : ℕ → String → Option ℕ} (hgoals : d.goals = some goals)
    (hash : VisitorHash) (isNew : Bool) (raw : RawEvent) :
    ∃ value, d.row hash isNew raw =
      if (!d.isBotEvent raw &&
          (goals raw.siteID (d.newRow hash isNew raw).eventName).isSome) = true then
        { d.newRow hash isNew raw with isGoal := 1, eventValue := value }
      else d.newRow hash isNew raw := by
  obtain ⟨value, hmatch⟩ := applyGoalMatch_eq goals (d.newRow hash isNew raw)
  refine ⟨value, ?_⟩
  have hbot : (d.newRow hash isNew raw).isBot = boolU8 (d.isBotEvent raw) := rfl
  simp only [Deps.row, hgoals, hmatch]
  cases hb : d.isBotEvent raw with
  | true => simp [hbot, hb, boolU8]
  | false => simp [hbot, hb, boolU8, show (d.newRow hash isNew raw).siteID = raw.siteID from rfl]

/-- What reaches the pipeline is what was sent, under the site of its host. -/
structure Sent (s : Ingested φ) (i : ℕ) (ev : Payload) (raw : RawEvent) : Prop where
  site : ∃ policy, s.cfg.lookupSitePolicy i ev.hostname = some (raw.siteID, policy)
  userAgent : raw.userAgent = s.request.header "User-Agent"
  ip : raw.ip = clientIP s.request
  eventType : raw.eventType = ev.eventType
  eventName : raw.eventName = ev.eventName
  eventValue : raw.eventValue = ev.eventValue
  isGoal : raw.isGoal = ev.isGoal

variable {s : Ingested φ} {i : ℕ} {ev : Payload} {raw : RawEvent}

private theorem identityGates_pass_server {siteID : ℕ} {policy : SitePolicy} {c : String}
    {raw' : RawEvent} (h : identityGates s.cfg s.request i siteID policy c raw' = .pass raw) :
    raw.siteID = raw'.siteID ∧ raw.userAgent = raw'.userAgent ∧ raw.ip = raw'.ip := by
  simp only [identityGates] at h
  split_ifs at h
  all_goals
    obtain rfl := Verdict.pass.inj h
    exact ⟨rfl, rfl, rfl⟩

theorem sent_of_identityGates {siteID : ℕ} {policy : SitePolicy} {c : String} {raw' : RawEvent}
    (hsite : s.cfg.lookupSitePolicy i ev.hostname = some (siteID, policy))
    (hvalid : EventSanitize.validateAndSanitize (rawEvent s.cfg s.request siteID policy ev) =
      .ok raw')
    (h : identityGates s.cfg s.request i siteID policy c raw' = .pass raw) : Sent s i ev raw := by
  obtain ⟨hid, hagent, hip⟩ := identityGates_pass_server h
  have hpayload := StoredProps.identityGates_pass_toPayload h
  simp only [EventSanitize.validateAndSanitize] at hvalid
  split at hvalid
  · cases hvalid
  · obtain rfl := Except.ok.inj hvalid
    refine ⟨⟨policy, ?_⟩, ?_, ?_, (congrArg Payload.eventType hpayload).trans rfl,
      (congrArg Payload.eventName hpayload).trans rfl,
      (congrArg Payload.eventValue hpayload).trans rfl,
      (congrArg Payload.isGoal hpayload).trans rfl⟩
    · simpa only [hid, EventSanitize.sanitize, rawEvent] using hsite
    · simp only [hagent, EventSanitize.sanitize, rawEvent]
    · simp only [hip, EventSanitize.sanitize, rawEvent]

theorem sent_of_gate {c : String} (h : (gate s.cfg s.request i c ev).verdict = .pass raw) :
    Sent s i ev raw := by
  simp only [gate] at h
  cases hsite : s.cfg.lookupSitePolicy i ev.hostname with
  | none => simp [hsite] at h
  | some found =>
    obtain ⟨siteID, policy⟩ := found
    cases hvalid : EventSanitize.validateAndSanitize
        (rawEvent s.cfg s.request siteID policy ev) with
    | error reason => simp [hsite, hvalid] at h
    | ok raw' =>
      simp only [hsite, hvalid] at h
      split_ifs at h
      · exact sent_of_identityGates hsite hvalid h
      · exact sent_of_identityGates hsite hvalid h

theorem isBotEvent_eq (h : Sent s i ev raw) : (s.depsAt i).isBotEvent raw = s.fromBot := by
  simp only [Deps.isBotEvent, Ingested.depsAt, Ingested.fromBot, h.userAgent, h.ip]

/-- A row is a goal event exactly when a goal was sent; else it keeps what was sent with it. -/
structure RowOf (s : Ingested φ) (i : ℕ) (ev : Payload) (e : EnrichedEvent) : Prop where
  isBot : e.isBot = boolU8 s.fromBot
  goal : s.isGoalEvent i e = s.sendsGoal i ev
  flagged : s.sendsGoal i ev = true → e.isGoal = 1
  kept : s.sendsGoal i ev = false → e.isGoal = boolU8 ev.isGoal ∧
    e.eventValue = s.deps.uint64 ev.eventValue

private theorem rowOf_sent (h : Sent s i ev raw) (hash : VisitorHash) (isNew : Bool) :
    RowOf s i ev ((s.depsAt i).row hash isNew raw) := by
  obtain ⟨policy, hsite⟩ := h.site
  have hbot : ((s.depsAt i).newRow hash isNew raw).isBot = boolU8 s.fromBot := by
    rw [← isBotEvent_eq h]
    rfl
  have hname : ((s.depsAt i).newRow hash isNew raw).eventName = sentName ev := by
    simp only [Deps.newRow, sentName, h.eventName, h.eventType]
  have hkept : ((s.depsAt i).newRow hash isNew raw).isGoal = boolU8 ev.isGoal ∧
      ((s.depsAt i).newRow hash isNew raw).eventValue = s.deps.uint64 ev.eventValue := by
    simp only [Deps.newRow, h.isGoal, h.eventValue, Ingested.depsAt, and_self]
  have hsends : s.sendsGoal i ev =
      (!s.fromBot && (matchGoal (s.snapshot i) raw.siteID (sentName ev)).isSome) := by
    simp only [Ingested.sendsGoal, hsite]
  obtain ⟨value, hrow⟩ := row_match (d := s.depsAt i) rfl hash isNew raw
  rw [isBotEvent_eq h, hname, Option.isSome_map, ← hsends] at hrow
  have hgoal (e : EnrichedEvent) (hb : e.isBot = boolU8 s.fromBot) (hs : e.siteID = raw.siteID)
      (hn : e.eventName = sentName ev) : s.isGoalEvent i e = s.sendsGoal i ev := by
    rw [Ingested.isGoalEvent, hb, hs, hn, hsends]
    cases s.fromBot <;> rfl
  by_cases hsent : s.sendsGoal i ev = true
  · rw [hrow, if_pos hsent]
    exact ⟨hbot, hgoal _ hbot rfl hname, fun _ => rfl, by simp [hsent]⟩
  · rw [hrow, if_neg hsent]
    exact ⟨hbot, hgoal _ hbot rfl hname, fun h => absurd h hsent, fun _ => hkept⟩

theorem backend_ok {p : EnrichPipeline.State φ} {e : EnrichedEvent}
    (h : (s.backend.enrich i p raw).1 = some e) :
    ∃ hash isNew, e = (s.depsAt i).row hash isNew raw := by
  cases hok : ((s.depsAt i).enrich (s.clock i) p raw).1 with
  | error reason => simp [Ingested.backend, hok, Except.toOption] at h
  | ok e' =>
    obtain rfl : e' = e := by simpa [Ingested.backend, hok, Except.toOption] using h
    exact ⟨_, _, enrich_ok hok⟩

theorem rowOf_appended {siteID : ℕ} {e : EnrichedEvent} {ok : Bool}
    (h : .appended i siteID e ok ∈ s.outputs) :
    ∃ evs ev, parseBody s.dec s.request.body = .ok evs ∧ evs[i]? = some ev ∧ RowOf s i ev e := by
  obtain ⟨evs, hbody, -, raw, -, hmem⟩ := HashOptOut.appended_serve_iff.mp h
  obtain ⟨k, ev, hk, hev, hpass⟩ := enriched_of_mem hmem
  obtain rfl : i = k := by omega
  obtain ⟨p, hres⟩ := StoredProps.exists_state_of_enriched hmem
  obtain ⟨hash, isNew, rfl⟩ := backend_ok hres
  exact ⟨evs, ev, hbody, hev, rowOf_sent (sent_of_gate hpass) hash isNew⟩

private theorem mem_stored {row : Bool × EnrichedEvent} : row ∈ s.stored ↔
    ∃ i siteID, .appended i siteID row.2 true ∈ s.outputs ∧ s.isGoalEvent i row.2 = row.1 := by
  simp only [Ingested.stored, List.mem_filterMap]
  constructor
  · rintro ⟨o, ho, hrow⟩
    split at hrow
    · obtain rfl := Option.some.inj hrow
      exact ⟨_, _, ho, rfl⟩
    · cases hrow
  · rintro ⟨i, siteID, hmem, hgoal⟩
    exact ⟨_, hmem, by simp [hgoal]⟩

private theorem revenue_total (events : Multiset Event) :
    (total Event.totals events).revenue = total Event.eventValue events := by
  induction events using Multiset.induction_on with
  | empty => rfl
  | cons e events ih =>
    rw [total_cons, total_cons, ← ih]
    rfl

/-- The revenue of a site is that of the rows the view keeps. -/
theorem reported_eq (v : View) (siteID : ℕ) (events : Multiset Event) :
    reported v siteID events =
      total Event.eventValue (events.filter fun e => v.keeps e ∧ e.siteID = siteID) := by
  have hrows : ((Source.rollup v).rows [] events).filter (fun row => row.1.siteID = siteID) =
      groupBy (Source.rollup v).bucket Event.totals
        (events.filter fun e => v.keeps e ∧ e.siteID = siteID) := by
    rw [Source.rows]
    rw [filter_groupBy fun b : Bucket => b.siteID = siteID, Multiset.filter_filter]
    simp only [and_comm]
    rfl
  rw [reported, hrows, total_groupBy, revenue_total]

/-- What a row adds to the revenue of a site. -/
def revenueOf (v : View) (siteID : ℕ) (row : Bool × EnrichedEvent) : ℕ :=
  if v.keeps (asEvent row.2) = true ∧ row.2.siteID = siteID then row.2.eventValue else 0

theorem reported_eventsOf (v : View) (siteID : ℕ) (rows : List (Bool × EnrichedEvent)) :
    reported v siteID (eventsOf rows) = (rows.map (revenueOf v siteID)).sum := by
  rw [reported_eq]
  induction rows with
  | nil => rfl
  | cons row rows ih =>
    rw [List.map_cons, List.sum_cons, ← ih]
    have hcons : eventsOf (row :: rows) = asEvent row.2 ::ₘ eventsOf rows := rfl
    rw [hcons]
    by_cases h : v.keeps (asEvent row.2) = true ∧ row.2.siteID = siteID
    · have hkept : v.keeps (asEvent row.2) = true ∧ (asEvent row.2).siteID = siteID := h
      rw [Multiset.filter_cons_of_pos (p := fun e : Event => v.keeps e = true ∧ e.siteID = siteID) _
        hkept, total_cons, revenueOf, if_pos h]
      rfl
    · have hkept : ¬ (v.keeps (asEvent row.2) = true ∧ (asEvent row.2).siteID = siteID) := h
      rw [Multiset.filter_cons_of_neg (p := fun e : Event => v.keeps e = true ∧ e.siteID = siteID) _
        hkept, revenueOf, if_neg h, zero_add]

/-- Every view keeps the events of visitors that are no bots but for the hourly one. -/
theorem revenue_iff (rows : List (Bool × EnrichedEvent)) :
    (∀ v ∈ rollups, ∀ siteID, reported v siteID (eventsOf rows) =
        reported v siteID (eventsOf (rows.filter Prod.fst))) ↔
      ∀ row ∈ rows, row.1 = false → row.2.isBot = 0 → row.2.eventValue = 0 := by
  have hsplit (v : View) (siteID : ℕ) : reported v siteID (eventsOf rows) =
      reported v siteID (eventsOf (rows.filter Prod.fst)) ↔
        ∀ row ∈ rows, row.1 = false → revenueOf v siteID row = 0 := by
    rw [reported_eventsOf, reported_eventsOf]
    exact ListAccounting.sum_map_filter_eq_iff rows
  simp only [hsplit]
  constructor
  · intro h row hrow hgoal hbot
    have hzero := h mvDailyPages (by simp [rollups]) row.2.siteID row hrow hgoal
    simpa [revenueOf, mvDailyPages, asEvent, hbot] using hzero
  · intro h v hv siteID row hrow hgoal
    have hkeeps : v.keeps (asEvent row.2) = true → row.2.isBot = 0 := by
      simp only [rollups, List.mem_cons, List.not_mem_nil, or_false] at hv
      rcases hv with rfl | rfl | rfl | rfl <;>
        simp +contextual [mvHourlyVisitors, mvDailyPages, mvDailySources, mvDailyGeo, asEvent]
    rw [revenueOf]
    split_ifs with hkept
    · exact h row hrow hgoal (hkeeps hkept.1)
    · rfl

theorem mem_rowsOf {calls : List (Ingested φ)} {row : Bool × EnrichedEvent} :
    row ∈ rowsOf calls ↔ ∃ s ∈ calls, ∃ i siteID, .appended i siteID row.2 true ∈ s.outputs ∧
      s.isGoalEvent i row.2 = row.1 := by
  simp only [rowsOf, List.mem_flatMap, mem_stored]

private theorem boolU8_eq_one {b : Bool} : boolU8 b = 1 ↔ b = true := by
  cases b <;> simp [boolU8]

theorem boolU8_eq_zero {b : Bool} : boolU8 b = 0 ↔ b = false := by
  cases b <;> simp [boolU8]

/-- Only goals are flagged and paid for exactly when the visitors say no more than that. -/
theorem integrity_iff (calls : List (Ingested φ)) : Integrity calls ↔ Honest calls := by
  constructor
  · rintro ⟨hgoals, hrevenue⟩ s hs evs hbody i ev hev ⟨siteID, e, happ⟩ hsends
    obtain ⟨evs', ev', hbody', hev', hrow⟩ := rowOf_appended happ
    obtain rfl : evs = evs' := Except.ok.inj (hbody.symm.trans hbody')
    obtain rfl : ev = ev' := Option.some.inj (hev.symm.trans hev')
    have hmem : (false, e) ∈ rowsOf calls :=
      mem_rowsOf.mpr ⟨s, hs, i, siteID, happ, hrow.goal.trans hsends⟩
    obtain ⟨hflag, hvalue⟩ := hrow.kept hsends
    refine ⟨?_, fun hbot => ?_⟩
    · by_contra htrue
      have hone : e.isGoal = 1 := by simpa [hflag, boolU8_eq_one] using htrue
      simpa using hgoals (false, e) hmem hone
    · rw [← hvalue]
      refine (revenue_iff _).mp hrevenue (false, e) hmem rfl ?_
      rw [hrow.isBot, boolU8_eq_zero, hbot]
  · intro h
    have hnone (row : Bool × EnrichedEvent) (hrow : row ∈ rowsOf calls) (hgoal : row.1 = false) :
        row.2.isGoal = 0 ∧ (row.2.isBot = 0 → row.2.eventValue = 0) := by
      obtain ⟨s, hs, i, siteID, happ, hrow1⟩ := mem_rowsOf.mp hrow
      obtain ⟨evs, ev, hbody, hev, hof⟩ := rowOf_appended happ
      have hsends : s.sendsGoal i ev = false := by rw [← hof.goal, hrow1, hgoal]
      obtain ⟨hflag, hvalue⟩ := hof.kept hsends
      obtain ⟨hsaid, hprice⟩ := h s hs evs hbody i ev hev ⟨siteID, row.2, happ⟩ hsends
      refine ⟨by rw [hflag, hsaid, boolU8_eq_zero], fun hbot => ?_⟩
      rw [hvalue]
      exact hprice (by rwa [hof.isBot, boolU8_eq_zero] at hbot)
    refine ⟨fun row hrow hone => ?_, ?_⟩
    · by_contra hgoal
      obtain ⟨hzero, -⟩ := hnone row hrow (by simpa using hgoal)
      omega
    · exact (revenue_iff _).mpr fun row hrow hgoal => (hnone row hrow hgoal).2

def purchase : Payload where
  hostname := "one"
  eventName := "purchase"
  eventValue := 1000
  isGoal := true

def forgedPurchase : Ingested (List VisitorHash) where
  cfg := sampleConfig
  dec := ⟨fun _ => none, fun _ => some purchase⟩
  deps := { samplePipeline with uint64 := fun value => value.num.toNat / value.den }
  goals _ := []
  clock _ := {}
  appendAndWait _ _ := true
  pipeline := { bits := [] }
  request := sampleVisit

/-- The row is a goal and is paid for, though no goal is configured. -/
theorem forged_purchase_counted : ¬ Integrity [forgedPurchase] ∧
    reported mvDailyPages 1 (eventsOf (rowsOf [forgedPurchase])) = 1000 := by
  constructor
  · intro h
    have hgoals := h.goals
    revert hgoals
    decide +kernel
  · rw [reported_eventsOf]
    decide +kernel

end Statnive.GoalRevenue
