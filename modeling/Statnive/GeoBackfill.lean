import Mathlib.Algebra.Order.Group.Multiset
import Mathlib.Algebra.Order.Ring.Int
import Statnive.LabelledRuns
import Statnive.Rollups

/-!
# The backfill of the geo rollup

The view adds the events that come in to `daily_geo`, from its creation on. A backfill goes over a
range of days and inserts the events of every day of which the rollup counts too few.
-/

namespace Statnive.GeoBackfill

open DashboardFilter GroupedAggregates LabelledRuns Rollups

/-- The bucket of a day is its first instant. -/
def date (n : ℤ) : ℤ := n * day

def geo : Source := .rollup mvDailyGeo

/-- `toDate(time)` is the day. -/
def onDay (n : ℤ) (e : Event) : Bool := e.time / day = n

/-- The events that are not of bots. -/
def counted (events : Multiset Event) : Multiset Event := events.filter fun e => !e.isBot

/-- A row of `daily_geo` may be split over any number of rows, of which sums are taken. -/
structure Tables where
  eventsRaw : Multiset Event
  dailyGeo : Multiset (Bucket × Totals) := 0
  view : Bool := false
  deriving DecidableEq

namespace Tables

def rollupViews (t : Tables) (n : ℤ) : ℕ :=
  total (fun row => row.2.views) (t.dailyGeo.filter fun row => row.1.start = date n)

def rawCount (t : Tables) (n : ℤ) : ℕ := ((counted t.eventsRaw).filter (onDay n ·)).card

/-- The `INSERT` of a day. -/
def backfillDay (t : Tables) (n : ℤ) : Tables :=
  { t with dailyGeo := t.dailyGeo + geo.rows [] (t.eventsRaw.filter (onDay n ·)) }

/-- A block of new events. The view aggregates the block. -/
def ingest (t : Tables) (block : Multiset Event) : Tables :=
  { t with
    eventsRaw := t.eventsRaw + block
    dailyGeo := if t.view then t.dailyGeo + geo.rows [] block else t.dailyGeo }

end Tables

/-- Where the loop stands with its day. -/
inductive Phase where
  | top
  | counted (rollupViews : ℕ)
  | needed
  | inserted
  deriving DecidableEq

structure Job where
  fromDay : ℤ
  toDay : ℤ
  dryRun : Bool := false
  skipChk : Bool := false
  day : ℤ := fromDay
  phase : Phase := .top
  deriving DecidableEq

def Job.nextDay (j : Job) : Job := { j with day := j.day + 1, phase := .top }

/-- One statement of `processDay`, where the loop is not at its end. -/
def Job.statement (j : Job) (t : Tables) : Tables × Job :=
  match j.phase with
  | .top =>
    if j.dryRun then (t, j.nextDay)
    else if j.skipChk then (t.backfillDay j.day, { j with phase := .inserted })
    else (t, { j with phase := .counted (t.rollupViews j.day) })
  | .counted rollupViews =>
    if rollupViews < t.rawCount j.day then (t, { j with phase := .needed }) else (t, j.nextDay)
  | .needed => (t.backfillDay j.day, { j with phase := .inserted })
  | .inserted => (t, j.nextDay)

/-- The next statement of the run is an `INSERT`. -/
def Job.inserts (j : Job) : Bool :=
  j.phase = .needed || (j.phase = .top && j.skipChk && !j.dryRun)

structure State where
  tables : Tables
  job : Option Job := none
  deriving DecidableEq

/-- A run that stops was interrupted, or failed at a statement. -/
inductive Action where
  | ingest (block : Multiset Event)
  | createView
  | run (fromDay toDay : ℤ) (dryRun skipChk : Bool)
  | statement
  | stop
  | finish
  deriving DecidableEq

def step (s : State) : Action → Option State
  | .ingest block => some { s with tables := s.tables.ingest block }
  | .createView => some { s with tables := { s.tables with view := true } }
  | .run fromDay toDay dryRun skipChk =>
    if s.job.isNone && fromDay ≤ toDay then
      some { s with job := some { fromDay, toDay, dryRun, skipChk } }
    else none
  | .statement => match s.job with
    | none => none
    | some j => if j.day ≤ j.toDay then some ⟨(j.statement s.tables).1, (j.statement s.tables).2⟩
      else none
  | .stop => s.job.map fun _ => { s with job := none }
  | .finish => match s.job with
    | none => none
    | some j => if j.toDay < j.day then some { s with job := none } else none

theorem step_run {s s' : State} {fromDay toDay : ℤ} {dryRun skipChk : Bool}
    (h : step s (.run fromDay toDay dryRun skipChk) = some s') :
    s' = { s with job := some { fromDay, toDay, dryRun, skipChk } } := by
  simp only [step] at h
  split_ifs at h
  exact (Option.some.inj h).symm

theorem step_statement {s s' : State} (h : step s .statement = some s') :
    ∃ j, s.job = some j ∧ j.day ≤ j.toDay ∧
      s' = ⟨(j.statement s.tables).1, (j.statement s.tables).2⟩ := by
  cases hj : s.job with
  | none => simp [step, hj] at h
  | some j =>
    simp only [step, hj] at h
    split_ifs at h with hday
    exact ⟨j, rfl, hday, (Option.some.inj h).symm⟩

theorem step_stop {s s' : State} (h : step s .stop = some s') : s' = { s with job := none } := by
  obtain ⟨-, -, rfl⟩ := Option.map_eq_some_iff.mp h
  rfl

theorem step_finish {s s' : State} (h : step s .finish = some s') :
    ∃ j, s.job = some j ∧ j.toDay < j.day ∧ s' = { s with job := none } := by
  cases hj : s.job with
  | none => simp [step, hj] at h
  | some j =>
    simp only [step, hj] at h
    split_ifs at h with hend
    exact ⟨j, rfl, hend, (Option.some.inj h).symm⟩

/-- The tables when `daily_geo` has been created. -/
def init (events : Multiset Event) : State := { tables := { eventsRaw := events } }

/-- A statement inserts the day, ends the day, or is one of the two counts. -/
theorem statement_cases (j : Job) (t : Tables) :
    j.inserts = true ∧ j.statement t = (t.backfillDay j.day, { j with phase := .inserted }) ∨
    (j.dryRun = true ∨ j.phase = .inserted ∨ ∃ v, j.phase = .counted v ∧ t.rawCount j.day ≤ v) ∧
      j.statement t = (t, j.nextDay) ∨
    j.phase = .top ∧ j.statement t = (t, { j with phase := .counted (t.rollupViews j.day) }) ∨
    (∃ v, j.phase = .counted v ∧ v < t.rawCount j.day) ∧
      j.statement t = (t, { j with phase := .needed }) := by
  cases hphase : j.phase with
  | top =>
    by_cases hdry : j.dryRun = true
    · exact .inr (.inl ⟨.inl hdry, by simp only [Job.statement, hphase, if_pos hdry]⟩)
    by_cases hskip : j.skipChk = true
    · refine .inl ⟨by simp [Job.inserts, hphase, hskip, hdry], ?_⟩
      simp only [Job.statement, hphase, if_neg hdry, if_pos hskip]
    · refine .inr (.inr (.inl ⟨rfl, ?_⟩))
      simp only [Job.statement, hphase, if_neg hdry, if_neg hskip]
  | counted v =>
    by_cases hneed : v < t.rawCount j.day
    · refine .inr (.inr (.inr ⟨⟨v, rfl, hneed⟩, ?_⟩))
      simp only [Job.statement, hphase, if_pos hneed]
    · refine .inr (.inl ⟨.inr (.inr ⟨v, rfl, not_lt.mp hneed⟩), ?_⟩)
      simp only [Job.statement, hphase, if_neg hneed]
  | needed =>
    refine .inl ⟨by simp [Job.inserts, hphase], ?_⟩
    simp only [Job.statement, hphase]
  | inserted =>
    refine .inr (.inl ⟨.inr (.inl rfl), ?_⟩)
    simp only [Job.statement, hphase]

/-- The sums of a site and day in the rollup are those over its events. -/
def Exact (t : Tables) (siteID : ℕ) (n : ℤ) : Prop :=
  total Prod.snd (t.dailyGeo.filter fun row => row.1.siteID = siteID ∧ row.1.start = date n) =
    total Event.totals ((counted t.eventsRaw).filter fun e => e.siteID = siteID ∧ onDay n e)

instance (t : Tables) (siteID : ℕ) (n : ℤ) : Decidable (Exact t siteID n) :=
  inferInstanceAs (Decidable (_ = _))

/-- The run is through with the day. -/
def Job.done (j : Job) (n : ℤ) : Prop :=
  j.fromDay ≤ n ∧ (n < j.day ∨ n = j.day ∧ j.phase = .inserted)

instance (j : Job) (n : ℤ) : Decidable (j.done n) := inferInstanceAs (Decidable (_ ∧ _))

/-- An `INSERT` finds nothing of its day in the rollup. No event of a day that the run is through
with comes in before the view is there. -/
def Clean (s : State) : Action → Prop
  | .statement => ∀ j ∈ s.job, j.inserts = true → s.tables.rollupViews j.day = 0
  | .ingest block => s.tables.view = false → ∀ j ∈ s.job, j.dryRun = false →
      ∀ e ∈ counted block, ¬ j.done (e.time / day)
  | _ => True

instance (s : State) : DecidablePred (Clean s)
  | .ingest _ => inferInstanceAs (Decidable (_ → ∀ _ ∈ s.job, _ → ∀ _ ∈ _, ¬ _))
  | .statement => inferInstanceAs (Decidable (∀ _ ∈ s.job, _ → _))
  | .createView | .run .. | .stop | .finish => .isTrue trivial

variable {t : Tables} {c : Multiset Event} {n : ℤ}

theorem bucket_start (e : Event) (n : ℤ) : (geo.bucket e).start = date n ↔ onDay n e = true := by
  have hday : (day : ℤ) ≠ 0 := by decide
  have htruncate : (geo.bucket e).start = e.time / day * day := by
    have hdiv := Int.ediv_mul_add_emod e.time day
    simp only [geo, Source.bucket, Source.column, mvDailyGeo, bucketStart, truncate]
    omega
  rw [htruncate, date, onDay, decide_eq_true_eq]
  exact mul_left_inj' hday

theorem rows_geo (events : Multiset Event) :
    geo.rows [] events = groupBy geo.bucket Event.totals (counted events) := rfl

private theorem views_sum {ι : Type*} (m : ι → Totals) (s : Multiset ι) :
    (total m s).views = total (fun i => (m i).views) s := by
  induction s using Multiset.induction_on with
  | empty => rfl
  | cons i s ih => rw [total_cons, total_cons, Totals.add_views, ih]

/-- The rows of the rollup are those of a part of the events. -/
structure Captures (t : Tables) (c : Multiset Event) : Prop where
  le : c ≤ counted t.eventsRaw
  rows : Represents geo.bucket Event.totals t.dailyGeo c

/-- No event of the day is missing. -/
def Complete (t : Tables) (c : Multiset Event) (n : ℤ) : Prop :=
  (counted t.eventsRaw).filter (onDay n ·) ≤ c

private theorem captures_init (events : Multiset Event) : Captures (init events).tables 0 where
  le := Multiset.zero_le _
  rows := represents_zero _ _

theorem Captures.rollupViews (h : Captures t c) (n : ℤ) :
    t.rollupViews n = (c.filter (onDay n ·)).card := by
  have hday := h.rows fun b => b.start = date n
  rw [Tables.rollupViews, ← views_sum Prod.snd, hday, views_total]
  simp only [bucket_start]

theorem Captures.day_le (h : Captures t c) (n : ℤ) :
    c.filter (onDay n ·) ≤ (counted t.eventsRaw).filter (onDay n ·) :=
  Multiset.filter_le_filter _ h.le

theorem Captures.day_eq (h : Captures t c) (hn : Complete t c n) :
    c.filter (onDay n ·) = (counted t.eventsRaw).filter (onDay n ·) := by
  apply le_antisymm (h.day_le n)
  have hfilter := Multiset.filter_le_filter (onDay n ·) hn
  rwa [Multiset.filter_filter, Multiset.filter_congr fun _ _ => and_self_iff] at hfilter

/-- A day of which no event is missing is exact. -/
theorem Captures.exact (h : Captures t c) (hn : Complete t c n) (siteID : ℕ) :
    Exact t siteID n := by
  have hsite (s : Multiset Event) : s.filter (fun e => e.siteID = siteID ∧ onDay n e) =
      (s.filter (onDay n ·)).filter (fun e => e.siteID = siteID) := by
    rw [Multiset.filter_filter]
  have hrows := h.rows fun b => b.siteID = siteID ∧ b.start = date n
  simp only [bucket_start] at hrows
  rw [Exact, hrows, hsite]
  change total _ (c.filter fun e => e.siteID = siteID ∧ onDay n e) = _
  rw [hsite, h.day_eq hn]

/-- As many as there are events of the day are all of them. -/
theorem Captures.complete_of_count (h : Captures t c)
    (hcount : t.rawCount n ≤ (c.filter (onDay n ·)).card) : Complete t c n := by
  have heq := Multiset.eq_of_le_of_card_le (h.day_le n) hcount
  rw [Complete, ← heq]
  exact Multiset.filter_le _ c

theorem counted_add (s s' : Multiset Event) : counted (s + s') = counted s + counted s' :=
  Multiset.filter_add _ s s'

theorem Captures.ingest (h : Captures t c) (hview : t.view = true) (block : Multiset Event) :
    Captures (t.ingest block) (c + counted block) where
  le := by
    simp only [Tables.ingest, counted_add]
    exact add_le_add h.le le_rfl
  rows := by
    simp only [Tables.ingest, hview, if_true, rows_geo]
    exact h.rows.add (represents_groupBy _ _ _)

theorem Captures.ingest_missed (h : Captures t c) (hview : t.view = false)
    (block : Multiset Event) : Captures (t.ingest block) c where
  le := by
    simp only [Tables.ingest, counted_add]
    exact h.le.trans (Multiset.le_add_right _ _)
  rows := by simpa [Tables.ingest, hview] using h.rows

theorem Complete.ingest (h : Complete t c n) (block : Multiset Event) :
    Complete (t.ingest block) (c + counted block) n := by
  simp only [Complete, Tables.ingest, counted_add, Multiset.filter_add]
  exact add_le_add h (Multiset.filter_le _ _)

theorem Complete.ingest_missed (h : Complete t c n) {block : Multiset Event}
    (hmissed : ∀ e ∈ counted block, onDay n e = false) : Complete (t.ingest block) c n := by
  have hnone : (counted block).filter (onDay n ·) = 0 :=
    Multiset.filter_eq_nil.mpr fun e he => by simp [hmissed e he]
  simpa [Complete, Tables.ingest, counted_add, Multiset.filter_add, hnone] using h

/-- A part that has nothing of a day may take all of it. -/
theorem add_filter_le {s : Multiset Event} (hle : c ≤ s) (p : Event → Prop) [DecidablePred p]
    (hnone : c.filter p = 0) : c + s.filter p ≤ s := by
  have hc : c = c.filter (¬ p ·) := by
    have hsplit := Multiset.filter_add_not p c
    rwa [hnone, zero_add, eq_comm] at hsplit
  calc c + s.filter p = s.filter p + c.filter (¬ p ·) := by rw [← hc, add_comm]
    _ ≤ s.filter p + s.filter (¬ p ·) :=
      add_le_add le_rfl (Multiset.filter_le_filter _ hle)
    _ = s := Multiset.filter_add_not p s

/-- An `INSERT` that finds nothing of its day captures the day. -/
theorem Captures.backfillDay (h : Captures t c) (hclean : t.rollupViews n = 0) :
    ∃ c', c ≤ c' ∧ Captures (t.backfillDay n) c' ∧ Complete (t.backfillDay n) c' n := by
  have hnone : c.filter (onDay n ·) = 0 := by
    rw [h.rollupViews, Multiset.card_eq_zero] at hclean
    exact hclean
  refine ⟨c + (counted t.eventsRaw).filter (onDay n ·), Multiset.le_add_right _ _, ⟨?_, ?_⟩,
    Multiset.le_add_left _ _⟩
  · exact add_filter_le h.le _ hnone
  · have hcomm : counted (t.eventsRaw.filter (onDay n ·)) =
        (counted t.eventsRaw).filter (onDay n ·) := Multiset.filter_comm _ _ _
    simp only [Tables.backfillDay, rows_geo, hcomm]
    exact h.rows.add (represents_groupBy _ _ _)

/-- What a run knows: the days that it is through with, and a count that has not shrunk. -/
structure Progress (t : Tables) (c : Multiset Event) (j : Job) : Prop where
  fromDay_le : j.fromDay ≤ j.day
  done : j.dryRun = false → ∀ n, j.done n → Complete t c n
  counted : ∀ v, j.phase = .counted v → v ≤ (c.filter (onDay j.day ·)).card

def Inv (s : State) : Prop := ∃ c, Captures s.tables c ∧ ∀ j ∈ s.job, Progress s.tables c j

theorem inv_init (events : Multiset Event) : Inv (init events) :=
  ⟨0, captures_init events, by simp [init]⟩

theorem Progress.mono {t' : Tables} {c' : Multiset Event} {j : Job} (h : Progress t c j)
    (hc : c ≤ c')
    (hdone : j.dryRun = false → ∀ n, j.done n → Complete t c n → Complete t' c' n) :
    Progress t' c' j where
  fromDay_le := h.fromDay_le
  done hdry n hn := hdone hdry n hn (h.done hdry n hn)
  counted v hv := (h.counted v hv).trans
    (Multiset.card_le_card (Multiset.filter_le_filter _ hc))

private theorem inv_ingest {s : State} (hs : Inv s) {block : Multiset Event}
    (hclean : Clean s (.ingest block)) : Inv { s with tables := s.tables.ingest block } := by
  obtain ⟨c, hcapt, hjob⟩ := hs
  cases hview : s.tables.view with
  | true =>
    refine ⟨c + counted block, hcapt.ingest hview block, fun j hj => ?_⟩
    exact (hjob j hj).mono (Multiset.le_add_right _ _) fun _ n _ hn => hn.ingest block
  | false =>
    refine ⟨c, hcapt.ingest_missed hview block, fun j hj => ?_⟩
    refine (hjob j hj).mono le_rfl fun hdry n hdone hn => hn.ingest_missed fun e he => ?_
    have hmiss := hclean hview j hj hdry e he
    by_contra hon
    obtain rfl : e.time / day = n := by simpa [onDay] using hon
    exact hmiss hdone

private theorem done_nextDay {j : Job} : j.nextDay.done n ↔ j.fromDay ≤ n ∧ n ≤ j.day := by
  simp only [Job.done, Job.nextDay, reduceCtorEq, and_false, or_false, Int.lt_add_one_iff]

/-- The days before that of the loop stay done, and so does a complete day of the loop. -/
theorem Progress.nextDay {j : Job} (h : Progress t c j)
    (hday : j.dryRun = false → Complete t c j.day) : Progress t c j.nextDay where
  fromDay_le := Int.le_add_one h.fromDay_le
  done hdry n hn := by
    obtain ⟨hfrom, hle⟩ := done_nextDay.mp hn
    obtain hlt | rfl := hle.lt_or_eq
    · exact h.done hdry n ⟨hfrom, .inl hlt⟩
    · exact hday hdry
  counted v hv := by simp [Job.nextDay] at hv

theorem Progress.phase {j : Job} (h : Progress t c j) {phase : Phase} (hphase : phase ≠ .inserted)
    (hcount : ∀ v, phase = .counted v → v ≤ (c.filter (onDay j.day ·)).card) :
    Progress t c { j with phase } where
  fromDay_le := h.fromDay_le
  done hdry n hn := by
    obtain ⟨hfrom, hlt | ⟨-, hins⟩⟩ := hn
    · exact h.done hdry n ⟨hfrom, .inl hlt⟩
    · exact absurd hins hphase
  counted := hcount

theorem Progress.insert {j : Job} (h : Progress t c j) (hcapt : Captures t c)
    (hclean : t.rollupViews j.day = 0) :
    ∃ c', Captures (t.backfillDay j.day) c' ∧
      Progress (t.backfillDay j.day) c' { j with phase := .inserted } := by
  obtain ⟨c', hle, hcapt', hday⟩ := hcapt.backfillDay hclean
  refine ⟨c', hcapt', h.fromDay_le, fun hdry n hn => ?_, fun v hv => by simp at hv⟩
  obtain ⟨hfrom, hlt | ⟨rfl, -⟩⟩ := hn
  · exact (h.done hdry n ⟨hfrom, .inl hlt⟩).trans hle
  · exact hday

theorem Progress.statement {j : Job} (h : Progress t c j) (hcapt : Captures t c)
    (hclean : j.inserts = true → t.rollupViews j.day = 0) :
    ∃ c', Captures (j.statement t).1 c' ∧ Progress (j.statement t).1 c' (j.statement t).2 := by
  obtain ⟨hins, heq⟩ | ⟨hnext, heq⟩ | ⟨-, heq⟩ | ⟨-, heq⟩ := statement_cases j t
  · rw [heq]
    exact h.insert hcapt (hclean hins)
  · rw [heq]
    refine ⟨c, hcapt, h.nextDay fun hdry => ?_⟩
    obtain hnot | hphase | ⟨v, hphase, hle⟩ := hnext
    · simp [hdry] at hnot
    · exact h.done hdry j.day ⟨h.fromDay_le, .inr ⟨rfl, hphase⟩⟩
    · exact hcapt.complete_of_count (hle.trans (h.counted v hphase))
  · rw [heq]
    refine ⟨c, hcapt, h.phase (by simp) fun v hv => ?_⟩
    rw [← Phase.counted.inj hv, hcapt.rollupViews]
  · rw [heq]
    exact ⟨c, hcapt, h.phase (by simp) (by simp)⟩

/-- A run that begins is through with no day. -/
theorem progress_run (t : Tables) (c : Multiset Event) (fromDay toDay : ℤ)
    (dryRun skipChk : Bool) : Progress t c { fromDay, toDay, dryRun, skipChk } where
  fromDay_le := le_rfl
  done _ n hn := by
    obtain ⟨hfrom, hlt | ⟨-, hins⟩⟩ := hn
    · exact absurd hfrom (not_le.mpr hlt)
    · simp at hins
  counted v hv := by simp at hv

theorem inv_step {s s' : State} {a : Action} (hs : Inv s) (hclean : Clean s a)
    (hstep : step s a = some s') : Inv s' := by
  cases a with
  | ingest block =>
    obtain rfl := Option.some.inj hstep
    exact inv_ingest hs hclean
  | createView =>
    obtain rfl := Option.some.inj hstep
    obtain ⟨c, hcapt, hjob⟩ := hs
    exact ⟨c, ⟨hcapt.le, hcapt.rows⟩, fun j hj => (hjob j hj).mono le_rfl fun _ _ _ hn => hn⟩
  | run fromDay toDay dryRun skipChk =>
    obtain ⟨c, hcapt, -⟩ := hs
    obtain rfl := step_run hstep
    refine ⟨c, hcapt, fun j hj => ?_⟩
    obtain rfl := Option.some.inj hj
    exact progress_run _ c fromDay toDay dryRun skipChk
  | statement =>
    obtain ⟨c, hcapt, hjob⟩ := hs
    obtain ⟨j, hj, -, rfl⟩ := step_statement hstep
    obtain ⟨c', hcapt', hprog⟩ := (hjob j hj).statement hcapt (hclean j hj)
    refine ⟨c', hcapt', fun j' hj' => ?_⟩
    obtain rfl := Option.some.inj hj'
    exact hprog
  | stop =>
    obtain ⟨c, hcapt, -⟩ := hs
    obtain rfl := step_stop hstep
    exact ⟨c, hcapt, by simp⟩
  | finish =>
    obtain ⟨c, hcapt, -⟩ := hs
    obtain ⟨-, -, -, rfl⟩ := step_finish hstep
    exact ⟨c, hcapt, by simp⟩

theorem inv_exec {events : Multiset Event} {as : List Action} {s : State}
    (hrun : exec step (init events) as = some s) (hclean : Along step Clean (init events) as) :
    Inv s :=
  exec_guarded (fun _ _ _ hs hc hstep => inv_step hs hc hstep) hclean hrun (inv_init events)

/-- A run over days of the range, or one of its steps. -/
def Repeats (j : Job) : Action → Prop
  | .run fromDay toDay _ skipChk => j.fromDay ≤ fromDay ∧ toDay ≤ j.toDay ∧ skipChk = false
  | .statement | .stop | .finish => True
  | .ingest _ | .createView => False

/-- A run over days of the range that has found nothing to insert. -/
structure Idle (j : Job) (t : Tables) (s : State) : Prop where
  tables : s.tables = t
  job : ∀ r ∈ s.job, j.fromDay ≤ r.day ∧ r.toDay ≤ j.toDay ∧ r.skipChk = false ∧
    (r.phase = .top ∨ r.phase = .counted (t.rollupViews r.day))

private theorem idle_statement {j r : Job} {s : State} (hs : Idle j t s)
    (hequal : ∀ n, j.fromDay ≤ n → n ≤ j.toDay → t.rawCount n ≤ t.rollupViews n)
    (hr : r ∈ s.job) (hday : r.day ≤ r.toDay) :
    Idle j t ⟨(r.statement s.tables).1, (r.statement s.tables).2⟩ := by
  obtain ⟨hfrom, hto, hskip, hphase⟩ := hs.job r hr
  have hcount := hequal r.day hfrom (hday.trans hto)
  rw [hs.tables]
  obtain ⟨hins, heq⟩ | ⟨-, heq⟩ | ⟨-, heq⟩ | ⟨⟨v, hv, hlt⟩, heq⟩ := statement_cases r t
  · obtain hphase | hphase := hphase <;> simp [Job.inserts, hphase, hskip] at hins
  · rw [heq]
    refine ⟨rfl, fun r' hr' => ?_⟩
    obtain rfl := Option.some.inj hr'
    exact ⟨Int.le_add_one hfrom, hto, hskip, .inl rfl⟩
  · rw [heq]
    refine ⟨rfl, fun r' hr' => ?_⟩
    obtain rfl := Option.some.inj hr'
    exact ⟨hfrom, hto, hskip, .inr rfl⟩
  · obtain hphase | hphase := hphase
    · simp [hphase] at hv
    · obtain rfl := Phase.counted.inj (hphase.symm.trans hv)
      omega

private theorem idle_step {j : Job} {s s' : State} {a : Action} (hs : Idle j t s)
    (hequal : ∀ n, j.fromDay ≤ n → n ≤ j.toDay → t.rawCount n ≤ t.rollupViews n)
    (ha : Repeats j a) (hstep : step s a = some s') : Idle j t s' := by
  cases a with
  | ingest block => exact ha.elim
  | createView => exact ha.elim
  | run fromDay toDay dryRun skipChk =>
    obtain ⟨hfrom, hto, hskip⟩ := ha
    obtain rfl := step_run hstep
    refine ⟨hs.tables, fun r hr => ?_⟩
    obtain rfl := Option.some.inj hr
    exact ⟨hfrom, hto, hskip, .inl rfl⟩
  | statement =>
    obtain ⟨r, hr, hday, rfl⟩ := step_statement hstep
    exact idle_statement hs hequal hr hday
  | stop =>
    obtain rfl := step_stop hstep
    exact ⟨hs.tables, by simp⟩
  | finish =>
    obtain ⟨-, -, -, rfl⟩ := step_finish hstep
    exact ⟨hs.tables, by simp⟩

/-- Whatever the events are, whenever the view is created and whichever runs were begun and
stopped before: when a run completes that is no dry run, and every `INSERT` so far found nothing of
its day, every day of its range is exact for every site, and further runs over the range, stopped
or not, change nothing. -/
theorem backfill_exact (events : Multiset Event) {as : List Action} {s s' : State} {j : Job}
    (hrun : exec step (init events) as = some s) (hclean : Along step Clean (init events) as)
    (hj : s.job = some j) (hdry : j.dryRun = false) (hfinish : step s .finish = some s') :
    (∀ siteID n, j.fromDay ≤ n → n ≤ j.toDay → Exact s'.tables siteID n) ∧
      ∀ bs s'', (∀ b ∈ bs, Repeats j b) → exec step s' bs = some s'' → s''.tables = s'.tables := by
  obtain ⟨c, hcapt, hjob⟩ := inv_exec hrun hclean
  obtain ⟨j', hj', hend, rfl⟩ := step_finish hfinish
  obtain rfl : j = j' := Option.some.inj (hj.symm.trans hj')
  have hcomplete (n : ℤ) (hfrom : j.fromDay ≤ n) (hto : n ≤ j.toDay) : Complete s.tables c n :=
    (hjob j hj).done hdry n ⟨hfrom, .inl (hto.trans_lt hend)⟩
  refine ⟨fun siteID n hfrom hto => hcapt.exact (hcomplete n hfrom hto) siteID, ?_⟩
  intro bs s'' hbs hfurther
  have hequal : ∀ n, j.fromDay ≤ n → n ≤ j.toDay →
      s.tables.rawCount n ≤ s.tables.rollupViews n := by
    intro n hfrom hto
    rw [hcapt.rollupViews, hcapt.day_eq (hcomplete n hfrom hto)]
    exact le_rfl
  have hidle : Idle j s.tables { s with job := none } := ⟨rfl, by simp⟩
  exact (exec_invariant_of (fun _ _ _ hs hb hstep => idle_step hs hequal hb hstep) hbs hfurther
    hidle).tables

def visit (time : ℤ) : Event := { siteID := 1, time, visitorHash := [7], pathname := "/" }

def after (as : List Action) : State := (exec step (init {visit 0}) as).getD (init {visit 0})

/-- A run over one day that inserts it. -/
def oneDay : List Action := [.run 0 0 false false, .statement, .statement, .statement, .statement]

def oneDayJob : Job := { fromDay := 0, toDay := 0, day := 1 }

/-- The run over the day of an event from before the view. -/
def completed : State := after (.createView :: oneDay ++ [.finish])

theorem backfill_exact_oneDay :
    (∀ siteID n, 0 ≤ n → n ≤ 0 → Exact completed.tables siteID n) ∧
      ∀ bs s, (∀ b ∈ bs, Repeats oneDayJob b) → exec step completed bs = some s →
        s.tables = completed.tables :=
  have hrun : exec step (init {visit 0}) (.createView :: oneDay) =
    some (after (.createView :: oneDay)) := by decide
  have hfinish : step (after (.createView :: oneDay)) .finish = some completed := by decide
  backfill_exact {visit 0} (j := oneDayJob) hrun (by decide) (by decide) rfl hfinish

/-- One event comes before the view, one after it. The rollup counts one of the two, and the
`INSERT` of the day adds both. -/
theorem later_event_counted_twice :
    let as := [.createView, .ingest {visit 1}] ++ oneDay ++ [.finish]
    exec step (init {visit 0}) as = some (after as) ∧ ¬ Exact (after as).tables 1 0 := by
  decide

end Statnive.GeoBackfill
