import Statnive.AcceptedEvents
import Statnive.GoalRevenue

/-!
# What the panels show after crashes and replays

A replay inserts events a second time, so a panel may show more views than there were. The
state of the visitors is a set: a row shows the visitors of the accepted events, and none that
no gate let through.
-/

namespace Statnive.ReplayedCounts

open LabelledRuns IngestEvents SegmentedLog WriteAheadLog SyncerContents GroupedAggregates Rollups
open StoreQueries (Query)
open PrivacyPolicy (Bytes)
open GoalRevenue (asEvent)
open ErasureCompleteness (Present present_step mem_upstream)
open EventLedger AcceptedEvents

section Figures

variable {m : Event → Totals} {s t : Multiset Event}

private theorem total_add (m : Event → Totals) (s t : Multiset Event) :
    total m (s + t) = total m s + total m t := by
  rw [total, Multiset.map_add, Multiset.sum_add]
  rfl

theorem mem_visitors_total {v : Bytes} :
    v ∈ (total m s).visitors ↔ ∃ e ∈ s, v ∈ (m e).visitors := by
  induction s using Multiset.induction_on with
  | empty => simp [total, show ((0 : Totals).visitors) = ∅ from rfl]
  | cons e s ih =>
    have hcons : (m e + total m s).visitors = (m e).visitors ∪ (total m s).visitors := rfl
    rw [total_cons, hcons, Finset.mem_union, ih]
    simp

/-- The visitors depend only on which events there are, not on how often. -/
theorem visitors_subset (h : ∀ e ∈ s, e ∈ t) : (total m s).visitors ⊆ (total m t).visitors := by
  intro v hv
  obtain ⟨e, he, hve⟩ := mem_visitors_total.mp hv
  exact mem_visitors_total.mpr ⟨e, h e he, hve⟩

/-- No figure goes down with more events. -/
theorem total_le (h : s ≤ t) : (total m s).views ≤ (total m t).views ∧
    (total m s).goals ≤ (total m t).goals ∧ (total m s).revenue ≤ (total m t).revenue := by
  obtain ⟨u, rfl⟩ := Multiset.le_iff_exists_add.mp h
  rw [total_add]
  exact ⟨Nat.le_add_right _ _, Nat.le_add_right _ _, Nat.le_add_right _ _⟩

variable (zones : String → ZonedTime.Zone) (q : Query)

/-- The events that a group of the answer counts. -/
def ofGroup (sel : Select) (g : Group) (events : Multiset Event) : Multiset Event :=
  (sel.counted zones q events).filter fun e => sel.grouping.key (sel.source.bucket e) = g

/-- The figures of a group in an answer to the query. -/
def figures (g : Group) (events : Multiset Event) : Totals :=
  match Statement.select q.statement with
  | none => 0
  | some sel => total sel.source.totals (ofGroup zones q sel g events)

variable {zones q} in
theorem mem_ofGroup {sel : Select} {g : Group} {e : Event} :
    e ∈ ofGroup zones q sel g s ↔
      e ∈ s ∧ (sel.source.keeps q.props e && (Query.holds zones q (sel.source.bucket e) &&
        sel.fixed (sel.source.bucket e))) = true ∧
        sel.grouping.key (sel.source.bucket e) = g := by
  simp only [ofGroup, Select.counted, Multiset.mem_filter, and_assoc]

private theorem figures_le (g : Group) (h : s ≤ t) :
    (figures zones q g s).views ≤ (figures zones q g t).views ∧
      (figures zones q g s).goals ≤ (figures zones q g t).goals ∧
      (figures zones q g s).revenue ≤ (figures zones q g t).revenue := by
  unfold figures
  split
  · exact ⟨Nat.le_refl _, Nat.le_refl _, Nat.le_refl _⟩
  · exact total_le (Multiset.filter_le_filter _ (Multiset.filter_le_filter _ h))

theorem figures_visitors (g : Group) (h : ∀ e ∈ s, e ∈ t) :
    (figures zones q g s).visitors ⊆ (figures zones q g t).visitors := by
  unfold figures
  split
  · exact Finset.Subset.refl _
  · refine visitors_subset fun e he => ?_
    obtain ⟨hs, hrest⟩ := mem_ofGroup.mp he
    exact mem_ofGroup.mpr ⟨h e hs, hrest⟩

variable {zones q}

theorem mem_grouped {sel : Select} {row : Group × Totals} :
    row ∈ groupBy (fun row => sel.grouping.key row.1) Prod.snd (sel.matching zones q s) ↔
      (∃ e, e ∈ ofGroup zones q sel row.1 s) ∧
        row.2 = total sel.source.totals (ofGroup zones q sel row.1 s) := by
  rw [groupBy_matching, mem_groupBy]
  simp only [ofGroup, Multiset.mem_filter]

/-- A row that was filled in stands for a day without events. -/
theorem ofGroup_filled {sel : Select} {d : ℤ}
    (h : ∀ row ∈ groupBy (fun row => sel.grouping.key row.1) Prod.snd (sel.matching zones q s),
      row.1.day ≠ some d) : ofGroup zones q sel { day := some d } s = 0 := by
  refine Multiset.eq_zero_of_forall_notMem fun e he => ?_
  have hrow : (({ day := some d } : Group), total sel.source.totals
      (ofGroup zones q sel { day := some d } s)) ∈
        groupBy (fun row => sel.grouping.key row.1) Prod.snd (sel.matching zones q s) :=
    mem_grouped.mpr ⟨⟨e, he⟩, rfl⟩
  exact h _ hrow rfl

private theorem snd_of_mem_groups {sel : Select} {row : Group × Totals}
    (h : row ∈ sel.groups zones q s) :
    row.2 = total sel.source.totals (ofGroup zones q sel row.1 s) := by
  unfold Select.groups at h
  dsimp only at h
  split at h
  · rename_i hwhole
    rw [Multiset.mem_singleton] at h
    have hkey : ofGroup zones q sel {} s = sel.counted zones q s := by
      refine Multiset.filter_eq_self.mpr fun e _ => ?_
      rw [hwhole]
      rfl
    rw [h, hkey, total_matching]
  · rename_i start stop _ _
    rw [fill, Multiset.mem_add] at h
    rcases h with h | h
    · exact (mem_grouped.mp h).2
    · obtain ⟨d, hd, rfl⟩ := List.mem_map.mp (Multiset.mem_coe.mp h)
      have hmissing := of_decide_eq_true (List.mem_filter.mp hd).2
      rw [ofGroup_filled hmissing]
      rfl
  · exact (mem_grouped.mp h).2

/-- A row of an answer shows the figures of its group. -/
theorem row_of_mem_answers {ρ : Type*} [LinearOrder ρ] {rpv : ℕ → ℕ → ρ} {answer : List Row}
    (h : answer ∈ Query.answers rpv zones q s) {row : Row} (hrow : row ∈ answer) :
    row = toRow (row.group, figures zones q row.group s) := by
  unfold Query.answers at h
  split at h
  · exact h.elim
  · rename_i sel hsel
    obtain ⟨l, hl, -, rfl⟩ := h
    have hmem : row ∈ l := by
      cases hlimit : q.limit with
      | none => simpa [hlimit] using hrow
      | some n =>
        rw [hlimit] at hrow
        exact List.mem_of_mem_take hrow
    rw [← Multiset.mem_coe, hl, Multiset.mem_map] at hmem
    obtain ⟨r, hr, rfl⟩ := hmem
    have hsnd := snd_of_mem_groups hr
    have hfig : figures zones q r.1 s = r.2 := by rw [figures, hsel, hsnd]
    change toRow r = toRow (r.1, figures zones q r.1 s)
    rw [hfig]

end Figures

/-- The event that an action lets through the gates. -/
def letThrough : Action → List EnrichedEvent
  | .process (.gate _ _ (some e)) => [e]
  | _ => []

private theorem mem_enforceSizeCap {fmt : Format EnrichedEvent} {maxBytes : ℕ} {size : Option ℕ}
    {fault : TruncateFault} {w : WALWriter EnrichedEvent} (hw : w.log.Untorn) {e : EnrichedEvent}
    (h : e ∈ (enforceSizeCap fmt maxBytes size fault w).log.contents) : e ∈ w.log.contents := by
  unfold enforceSizeCap at h
  split at h
  · exact h
  · split at h
    · exact h
    · split at h
      · exact h
      · dsimp only at h
        split at h
        · exact h
        · exact (hw.truncateFront fmt _ fault).2 e h

variable {cfg : ErasureSystem.Config} {maxBytes : ℕ}

private theorem present_sizeCap
    {fmt : Format EnrichedEvent} {s : ErasureSystem.State} {size : Option ℕ}
    {fault : TruncateFault} (hs : s.syncer.wal.log.Untorn) {e : EnrichedEvent}
    (h : Present { s with syncer := { s.syncer with
      wal := enforceSizeCap fmt maxBytes size fault s.syncer.wal } } e) : Present s e := by
  refine h.imp_right fun hup => mem_upstream.mpr ?_
  rcases mem_upstream.mp hup with hin | hheld | hbatch
  · exact .inl hin
  · refine .inr (.inl (mem_held.mpr ?_))
    rcases mem_held.mp hheld with hw | hstaged | ho | hl
    · exact .inl hw
    · exact .inr (.inl hstaged)
    · exact .inr (.inr (.inl ho))
    · exact .inr (.inr (.inr (mem_enforceSizeCap hs hl)))
  · exact .inr (.inr hbatch)

private theorem present_ledger_step
    {l l' : Ledger} {a : Action} (h : step cfg maxBytes l a = some l')
    (hs : l.state.syncer.wal.log.Untorn) {e : EnrichedEvent} (he : Present l'.state e) :
    Present l.state e ∨ e ∈ letThrough a := by
  cases a with
  | process a =>
    obtain ⟨s, hstep, rfl⟩ := Option.map_eq_some_iff.mp h
    have hstate : (record l a s).state = s := by cases a <;> rfl
    rw [hstate] at he
    refine (present_step hstep hs he).imp_right fun hadmitted => ?_
    obtain ⟨-, i, ingest, rfl, -⟩ := hadmitted
    simp [letThrough]
  | sizeCap size fault =>
    simp only [step, Option.ite_none_right_eq_some, Option.some.injEq] at h
    obtain ⟨-, rfl⟩ := h
    exact .inl (present_sizeCap hs he)

/-- What a run leaves in the system was there before or came through a gate. -/
theorem present_run {as : List Action} {l l' : Ledger} (hs : Inv cfg l)
    (hsafe : Along (step cfg maxBytes) (Safe maxBytes) l as)
    (h : exec (step cfg maxBytes) l as = some l') {e : EnrichedEvent} (he : Present l'.state e) :
    Present l.state e ∨ e ∈ as.flatMap letThrough := by
  induction as generalizing l with
  | nil =>
    obtain rfl := Option.some.inj h
    exact .inl he
  | cons a as ih =>
    obtain ⟨u, hu, hrun⟩ := exec_cons.mp h
    obtain ⟨ha, hrest⟩ := hsafe
    rw [List.flatMap_cons, List.mem_append]
    rcases ih (inv_step cfg maxBytes l a u hs ha hu) (hrest u hu) hrun with hpresent | hlater
    · exact (present_ledger_step hu hs.log.holding.inOrder.untorn hpresent).imp_right .inl
    · exact .inr (.inr hlater)

private theorem present_init {files : Files EnrichedEvent} {rows : List EnrichedEvent}
    {suppressionWAL : JournalFile.File UInt8} {e : EnrichedEvent}
    (h : Present (init files rows suppressionWAL).state e) : e ∈ rows ++ files.entries := by
  rw [List.mem_append]
  refine h.imp_right fun hup => ?_
  rcases mem_upstream.mp hup with ⟨hd, hm, -⟩ | hheld | ⟨env, hm, -⟩
  · simp [init, ErasureSystem.init] at hm
  · rw [show (init files rows suppressionWAL).state.syncer =
      { GroupSyncer.init files.log with wal := newWALWriter files.log } from rfl,
      ErasureCompleteness.held_init] at hheld
    exact files.entries_log ▸ files.inOrder.mem_entries hheld
  · simp [init, ErasureSystem.init, IngestConsumer.init] at hm

def eventsOf (rows : List EnrichedEvent) : Multiset Event :=
  (rows : Multiset EnrichedEvent).map asEvent

private theorem eventsOf_le
    {rows rows' : List EnrichedEvent} (h : ∀ e, rows.count e ≤ rows'.count e) :
    eventsOf rows ≤ eventsOf rows' := by
  refine Multiset.map_le_map (Multiset.le_iff_count.mpr fun e => ?_)
  rw [Multiset.coe_count, Multiset.coe_count]
  exact h e

theorem eventsOf_mono {rows rows' : List EnrichedEvent} (h : ∀ e ∈ rows, e ∈ rows') :
    ∀ e ∈ eventsOf rows, e ∈ eventsOf rows' := by
  intro e he
  obtain ⟨r, hr, rfl⟩ := Multiset.mem_map.mp he
  exact Multiset.mem_map_of_mem asEvent (h r hr)

/-- The batch with a visit is inserted, and the process crashes before the ack. -/
def crashBeforeAck : List Action :=
  let insertAndCrash : List ErasureSystem.Action :=
    [.consumer .tick, .insertBatch true true, .crash 1 0 0 0, .boot {} true]
  (ErasureCompleteness.visitToBatch ++ insertAndCrash).map Action.process

private theorem crashBeforeAck_runs :
    (exec (step ErasureCompleteness.liveConfig 100) (init .new [] {}) crashBeforeAck).isSome := by
  decide +kernel

def insertedTwice : Ledger :=
  (exec (step ErasureCompleteness.liveConfig 100) (init .new [] {}) crashBeforeAck).get
    crashBeforeAck_runs

private theorem rows_insertedTwice : insertedTwice.state.rows =
    [ErasureCompleteness.visitRow, ErasureCompleteness.visitRow] := by
  decide +kernel

/-- The sources of site 1 on the first day of the epoch. -/
def firstDay : StoreQueries.ZonedFilter :=
  { siteID := 1, fromTime := 0, toTime := DashboardFilter.day, fromZone := "UTC", toZone := "UTC" }

def direct : Row where
  group := { dims := [(.column .referrerName, ""), (.column .channel, "")] }
  views := 2
  visitors := 1
  goals := 0
  revenue := 0

private theorem answers_insertedTwice : [direct] ∈ Query.answers (· / ·) (fun _ => ZonedTime.utc)
    (StoreQueries.sources.query firstDay) (eventsOf insertedTwice.state.rows) := by
  rw [rows_insertedTwice]
  refine ⟨[direct], ?_, List.pairwise_singleton _ _, ?_⟩
  · decide +kernel
  · decide +kernel

end Statnive.ReplayedCounts
