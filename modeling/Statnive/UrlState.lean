import Statnive.DashboardSignals

/-!
# The URL and the state of the dashboard

When the filters and the range are those that the page would have if it were loaded from its URL.
-/

namespace Statnive.UrlState

open UnicodeText PlainObject SearchParams FilterQuery CivilCalendar EffectCascade LabelledRuns
  DashboardSignals

theorem parseHash_serialize (state : HashState) : parseHash (0x23 :: serialize state) = state := by
  have hpanel : (validPanels.find? fun panel =>
      toUtf8 panel.text = toUtf8 state.panel.text) = some state.panel := by
    cases state.panel <;> decide
  have hno : (0x3F : UInt8) ∉ toUtf8 state.panel.text := by
    cases state.panel <;> decide
  simp only [parseHash, List.head?_cons, if_true, List.tail_cons, serialize]
  by_cases hq : state.params.toString = []
  · have hparams : URLSearchParams.ofString [] = state.params := by
      rw [← hq, URLSearchParams.ofString_toString]
    have hsplit : splitQuery (toUtf8 state.panel.text) = (toUtf8 state.panel.text, []) := by
      rw [splitQuery, List.idxOf?_eq_none_iff.mpr hno]
    simp [hq, hsplit, hpanel, hparams]
  · have hsplit : splitQuery (toUtf8 state.panel.text ++ 0x3F :: state.params.toString) =
        (toUtf8 state.panel.text, state.params.toString) := by
      rw [splitQuery, idxOf?_append_cons _ hno]
      simp
    simp [hq, hsplit, hpanel, URLSearchParams.ofString_toString]

private theorem isFragmentByte_of_isFormByte {b : UInt8} (h : FormEncoding.isFormByte b = true) :
    isFragmentByte b = true := by
  have hall : ∀ n < 256, FormEncoding.isFormByte (UInt8.ofNat n) = true →
      isFragmentByte (UInt8.ofNat n) = true := by decide +kernel
  have hb := hall b.toNat b.toNat_lt
  rw [UInt8.ofNat_toNat] at hb
  exact hb h

private theorem isFragmentByte_serialize {state : HashState} {b : UInt8} (h : b ∈ serialize state) :
    isFragmentByte b = true := by
  have hpanel : ∀ c ∈ toUtf8 state.panel.text, isFragmentByte c = true := by
    cases state.panel <;> decide +kernel
  have hquery : ∀ c ∈ state.params.toString, isFragmentByte c = true := by
    intro c hc
    rcases URLSearchParams.mem_toString hc with hform | rfl | rfl
    · exact isFragmentByte_of_isFormByte hform
    · decide
    · decide
  rw [serialize] at h
  split_ifs at h
  · rcases List.mem_append.mp h with h | h
    · exact hpanel b h
    · rcases List.mem_cons.mp h with rfl | h
      · decide
      · exact hquery b h
  · exact hpanel b h

/-- The URL keeps what is serialized as it is. -/
theorem locationHash_serialize (state : HashState) :
    locationHash (serialize state) = 0x23 :: serialize state := by
  have hone : ∀ b ∈ serialize state, encodeFragmentByte b = [b] := by
    intro b hb
    have hbyte := isFragmentByte_serialize hb
    have hcontrol : ¬ (b = 0x09 ∨ b = 0x0A ∨ b = 0x0D) := by
      rintro (rfl | rfl | rfl) <;> exact absurd hbyte (by decide)
    rw [encodeFragmentByte, if_neg hcontrol, if_pos hbyte]
  have hsame : (serialize state).flatMap encodeFragmentByte = serialize state := by
    rw [List.flatMap_congr hone]
    simp
  have hne : serialize state ≠ [] := by
    have hpanel : toUtf8 state.panel.text ≠ [] := by cases state.panel <;> decide
    rw [serialize]
    split_ifs
    · simp
    · exact hpanel
  rw [locationHash, hsame, if_neg hne]

private theorem parseHash_setLocation (d : Dashboard) (next : HashState) :
    parseHash (d.setLocation next).location = next := by
  rw [Dashboard.setLocation]
  split_ifs with h
  · rw [locationHash_serialize, parseHash_serialize]
  · rw [not_not.mp h, parseHash_serialize]

theorem ascii_of_isIrstDate {s : CodeUnits} (h : isIrstDate s = true) :
    ∀ u ∈ s, u.toNat < 0x80 := by
  fun_cases isIrstDate s with
  | case1 y1 y2 y3 y4 dash1 m1 m2 dash2 d1 d2 =>
    simp only [isIrstDate, List.all_cons, List.all_nil, isDigit, Bool.and_eq_true,
      decide_eq_true_eq] at h
    obtain ⟨⟨hdigits, rfl⟩, rfl⟩ := h
    intro u hu
    simp only [List.mem_cons, List.not_mem_nil, or_false] at hu
    rcases hu with rfl | rfl | rfl | rfl | rfl | rfl | rfl | rfl | rfl | rfl <;>
      first | decide | omega
  | case2 => simp [isIrstDate] at h

private theorem isIrstDate_usv (s : CodeUnits) : isIrstDate (usv s) = true ↔
    isIrstDate s = true ∧ usv s = s := by
  constructor
  · intro h
    have husv : usv s = s := isWellFormed_of_ascii_read (ascii_of_isIrstDate h)
    exact ⟨husv ▸ h, husv⟩
  · rintro ⟨h, husv⟩
    exact husv.symm ▸ h

theorem rangeOf_eq_some {f : Filters} {r : Range} :
    rangeOf f = some r ↔ isValidIrstRange r.fromDay r.toDay = true ∧
      f.scalar .fromDay = r.fromDay ∧ f.scalar .toDay = r.toDay := by
  have hne {s : CodeUnits} (h : isIrstDate s = true) : s ≠ [] := by
    rintro rfl
    cases h
  rw [rangeOf]
  constructor
  · intro h
    split_ifs at h with hrange
    rw [← Option.some.inj h]
    exact ⟨hrange.2.2, rfl, rfl⟩
  · rintro ⟨hvalid, hfrom, hto⟩
    have hdates := hvalid
    simp only [isValidIrstRange, Bool.and_eq_true] at hdates
    rw [hfrom, hto, if_pos ⟨hne hdates.1.1, hne hdates.1.2, hvalid⟩]

theorem rangeOf_congr {f g : Filters} (h : f.scalar = g.scalar) : rangeOf f = rangeOf g := by
  rw [rangeOf, rangeOf, h]

/-- A valid pair of dates is read back from the query, and no other pair is. -/
theorem rangeOf_filtersToQuery (f : Filters) :
    rangeOf (queryToFilters (filtersToQuery f)) = rangeOf f := by
  have hscalar (k : ScalarKey) (hk : k ≠ .dir) :
      (queryToFilters (filtersToQuery f)).scalar k = usv (f.scalar k) := by
    rw [queryToFilters_eq]
    dsimp only
    rw [if_neg fun h => hk h.1, scalarOf_filtersToQuery]
  apply Option.ext
  intro r
  rw [rangeOf_eq_some, rangeOf_eq_some, hscalar _ (by decide), hscalar _ (by decide)]
  apply and_congr_right
  intro hvalid
  simp only [isValidIrstRange, Bool.and_eq_true] at hvalid
  have hread {s t : CodeUnits} (ht : isIrstDate t = true) : usv s = t ↔ s = t := by
    constructor
    · intro h
      rw [← ((isIrstDate_usv s).mp (h.symm ▸ ht)).2, h]
    · rintro rfl
      exact isWellFormed_of_ascii (ascii_of_isIrstDate ht)
  rw [hread hvalid.1.1, hread hvalid.1.2]

private theorem same_empty : (queryToFilters .empty).scalar = emptyFilters.scalar := by
  funext k
  rw [queryToFilters_eq]
  cases k <;> rfl

/-- The effects have settled, and the hash signal is that of the URL. -/
structure InStep (d : Dashboard) : Prop where
  coherent : Coherent effects d.board
  settled : d.board.pending = ∅
  located : parseHash d.location = d.signals.hash

namespace InStep

variable {d d' : Dashboard}

theorem body (h : InStep d) (i : Effect) : effects.body i d.signals = none :=
  (h.coherent i (by simp [h.settled])).1

theorem same (h : InStep d) : (queryToFilters d.signals.hash.params).Same d.signals.filters :=
  body_syncFilters_eq_none.mp (h.body .syncFilters)

theorem rangeOf_eq (h : InStep d) :
    rangeOf (queryToFilters d.signals.hash.params) = rangeOf d.signals.filters :=
  rangeOf_congr h.same.1

theorem range_eq (h : InStep d) {r : Range} (hr : rangeOf d.signals.filters = some r) :
    d.signals.range = r :=
  body_syncRange_eq_none.mp (h.body .syncRange) r hr

end InStep

theorem assign_eq_some {d d' : Dashboard} {x : Signal} {s : Signals} {order : List Effect} :
    d.assign x s order = some d' ↔
      settle effects (d.board.assign x s) order = some d'.board ∧ d'.location = d.location := by
  obtain ⟨location, board⟩ := d'
  simp only [Dashboard.assign, Option.map_eq_some_iff, Dashboard.mk.injEq]
  constructor
  · rintro ⟨b, hsettle, rfl, rfl⟩
    exact ⟨hsettle, rfl⟩
  · rintro ⟨hsettle, rfl⟩
    exact ⟨board, hsettle, rfl, rfl⟩

variable {d d' : Dashboard} {x : Signal} {s : Signals} {order : List Effect}

theorem hash_of_settle {b c : Board Effect Signal Signals} (h : settle effects b order = some c) :
    c.state.hash = b.state.hash := by
  refine state_settle (I := fun t => t.hash = b.state.hash) ?_ h rfl
  intro i t y t' hbody ht
  cases i with
  | syncFilters =>
    obtain ⟨-, -, rfl⟩ := body_syncFilters_eq_some.mp hbody
    exact ht
  | syncRange =>
    obtain ⟨_, -, -, -, rfl⟩ := body_syncRange_eq_some.mp hbody
    exact ht

/-- The range stays where it is if neither the filters nor those of the hash call for another. -/
theorem range_of_settle {b c : Board Effect Signal Signals} (h : settle effects b order = some c)
    (hfilters : ∀ r, rangeOf b.state.filters = some r → b.state.range = r)
    (hhash : ∀ r, rangeOf (queryToFilters b.state.hash.params) = some r → b.state.range = r) :
    c.state.range = b.state.range := by
  have hkeep : c.state.range = b.state.range ∧ c.state.hash = b.state.hash ∧
      (c.state.filters = b.state.filters ∨
        c.state.filters = queryToFilters b.state.hash.params) := by
    refine state_settle (I := fun t => t.range = b.state.range ∧ t.hash = b.state.hash ∧
      (t.filters = b.state.filters ∨ t.filters = queryToFilters b.state.hash.params)) ?_ h
      ⟨rfl, rfl, .inl rfl⟩
    intro i t y t' hbody ⟨hrange, hsame, hold⟩
    cases i with
    | syncFilters =>
      obtain ⟨-, -, rfl⟩ := body_syncFilters_eq_some.mp hbody
      have hread : queryToFilters t.hash.params = queryToFilters b.state.hash.params := by
        rw [hsame]
      exact ⟨hrange, hsame, .inr hread⟩
    | syncRange =>
      obtain ⟨r, hr, hne, -, rfl⟩ := body_syncRange_eq_some.mp hbody
      exfalso
      apply hne
      rw [hrange]
      rcases hold with hold | hold
      · exact hfilters r (hold ▸ hr)
      · exact hhash r (hold ▸ hr)
  exact hkeep.1

theorem inStep_assign (h : d.assign x s order = some d') (hd : Coherent effects d.board)
    (hchange : changes x d.signals s) (hlocated : parseHash d.location = s.hash) : InStep d' := by
  obtain ⟨hsettle, hlocation⟩ := assign_eq_some.mp h
  have hcoherent := coherent_assign lawful_effects hchange hd
  constructor
  · exact coherent_settle lawful_effects hsettle hcoherent
  · exact (settle_eq_some.mp hsettle).2
  · rw [hlocation, hlocated]
    exact (hash_of_settle hsettle).symm

/-- The parameters are in the URL, and the range is theirs or the one before. -/
structure Reached (d : Dashboard) (p : URLSearchParams) (d' : Dashboard) : Prop where
  inStep : InStep d'
  params : d'.signals.hash.params = p
  range : d'.signals.range = (rangeOf (queryToFilters p)).getD d.signals.range

theorem reached_assignHash {location : Bytes} {next : HashState} (hd : InStep d)
    (hlocated : parseHash location = next)
    (h : ({ d with location := location } : Dashboard).assign .hashSignal
      { d.signals with hash := next } order = some d') : Reached d next.params d' := by
  have hin : InStep d' := inStep_assign h hd.coherent ⟨rfl, rfl⟩ hlocated
  obtain ⟨hsettle, -⟩ := assign_eq_some.mp h
  have hhash : d'.signals.hash = next := hash_of_settle hsettle
  refine ⟨hin, congrArg HashState.params hhash, ?_⟩
  cases hrange : rangeOf (queryToFilters next.params) with
  | some r =>
    have hr : rangeOf d'.signals.filters = some r := by rw [← hin.rangeOf_eq, hhash, hrange]
    exact hin.range_eq hr
  | none =>
    apply range_of_settle hsettle
    · exact fun r hr => hd.range_eq hr
    · intro r hr
      exact absurd (hrange.symm.trans hr) (by simp)

theorem reached_setHash {next : HashState} (hd : InStep d) (h : d.setHash next order = some d') :
    Reached d next.params d' := by
  have hlocated := parseHash_setLocation d next
  have hboard : d.setLocation next = { d with location := (d.setLocation next).location } := by
    rw [Dashboard.setLocation]
    split_ifs <;> rfl
  rw [Dashboard.setHash, hboard] at h
  exact reached_assignHash hd hlocated h

theorem reached_writeFilters {filters : Filters} {params : URLSearchParams} {order : Order}
    (hparams : rangeOf (queryToFilters params) = rangeOf filters) (hd : InStep d)
    (h : writeFilters filters params order d = some d') : Reached d params d' := by
  obtain ⟨d₁, hfirst, hsecond⟩ := Option.bind_eq_some_iff.mp h
  have hin : InStep d₁ := inStep_assign hfirst hd.coherent ⟨rfl, rfl⟩ hd.located
  have hreached : Reached d₁ params d' := reached_setHash hin hsecond
  refine ⟨hreached.inStep, hreached.params, ?_⟩
  rw [hreached.range]
  cases hrange : rangeOf (queryToFilters params) with
  | some r => rfl
  | none =>
    obtain ⟨hsettle, -⟩ := assign_eq_some.mp hfirst
    apply range_of_settle hsettle
    · intro r hr
      exact absurd ((hparams.symm.trans hrange).symm.trans hr) (by simp)
    · intro r hr
      exact hd.range_eq (hd.rangeOf_eq ▸ hr)

theorem reached_updateFilters {next : Patch} {order : Order} (hd : InStep d)
    (h : updateFilters next order d = some d') :
    Reached d (filtersToQuery (merge d.signals.filters next)) d' :=
  reached_writeFilters (rangeOf_filtersToQuery _) hd h

/-- The filters whose dates an operation leaves in the URL. -/
def written (d : Dashboard) : Event → Filters
  | .setRange r =>
    if isValidIrstRange r.fromDay r.toDay then merge d.signals.filters (rangePatch r)
    else d.signals.filters
  | .updateFilters next => merge d.signals.filters next
  | .clearFilters => emptyFilters
  | .navigate _ params => queryToFilters (params.getD .empty)
  | .resync hash => queryToFilters (parseHash hash).params
  | .setPropFilter _ _ _ | .removePropFilter _ _ | .toggleMetric _ => d.signals.filters

/-- The effects have settled, and the range is that of the URL or the one before. -/
structure Moved (d : Dashboard) (filters : Filters) (d' : Dashboard) : Prop where
  inStep : InStep d'
  written : rangeOf (queryToFilters d'.signals.hash.params) = rangeOf filters
  range : d'.signals.range = (rangeOf filters).getD d.signals.range

theorem Reached.moved {params : URLSearchParams} {filters : Filters} (h : Reached d params d')
    (hparams : rangeOf (queryToFilters params) = rangeOf filters) : Moved d filters d' :=
  ⟨h.inStep, h.params ▸ hparams, hparams ▸ h.range⟩

theorem moved_self (hd : InStep d) : Moved d d.signals.filters d := by
  refine ⟨hd, hd.rangeOf_eq, ?_⟩
  cases hrange : rangeOf d.signals.filters with
  | none => rfl
  | some r => exact hd.range_eq hrange

/-- An update that leaves the dates alone. -/
theorem moved_updateFilters {next : Patch} {order : Order}
    (hfrom : next.scalar .fromDay = none) (hto : next.scalar .toDay = none) (hd : InStep d)
    (h : updateFilters next order d = some d') : Moved d d.signals.filters d' := by
  apply (reached_updateFilters hd h).moved
  rw [rangeOf_filtersToQuery]
  simp only [rangeOf, merge, hfrom, hto, Option.getD_none]

private theorem moved_setRange {r : Range} {order : Order} (hd : InStep d)
    (h : setRange r order d = some d') : Moved d (written d (.setRange r)) d' := by
  rw [setRange] at h
  by_cases hvalid : isValidIrstRange r.fromDay r.toDay = true
  · have hrange (f : Filters) : rangeOf (merge f (rangePatch r)) = some r :=
      rangeOf_eq_some.mpr ⟨hvalid, rfl, rfl⟩
    rw [if_neg (by simp [hvalid])] at h
    obtain ⟨d₁, hfirst, hsecond⟩ := Option.bind_eq_some_iff.mp h
    have hin : InStep d₁ := inStep_assign hfirst hd.coherent ⟨rfl, rfl⟩ hd.located
    have hreached := reached_updateFilters hin hsecond
    have hparams := (rangeOf_filtersToQuery (merge d₁.signals.filters (rangePatch r))).trans
      (hrange _)
    rw [written, if_pos hvalid]
    refine ⟨hreached.inStep, ?_, ?_⟩
    · rw [hreached.params, hparams, hrange]
    · rw [hreached.range, hparams, hrange]
      rfl
  · rw [if_pos (by simp [hvalid])] at h
    rw [written, if_neg hvalid, ← Option.some.inj h]
    exact moved_self hd

theorem moved_operate {e : Event} {order : Order} (hd : InStep d)
    (h : operate e order d = some d') : Moved d (written d e) d' := by
  cases e with
  | setRange r => exact moved_setRange hd h
  | updateFilters next =>
    exact (reached_updateFilters hd h).moved (rangeOf_filtersToQuery _)
  | clearFilters =>
    have hempty := rangeOf_congr same_empty
    exact (reached_writeFilters hempty hd h).moved hempty
  | navigate panel params => exact (reached_setHash hd h).moved rfl
  | resync hash => exact (reached_assignHash hd rfl h).moved rfl
  | setPropFilter scope name value =>
    rw [operate, setPropFilter] at h
    split_ifs at h
    · rw [← Option.some.inj h]
      exact moved_self hd
    · exact moved_updateFilters rfl rfl hd h
  | removePropFilter scope name => exact moved_updateFilters rfl rfl hd h
  | toggleMetric id =>
    rw [operate, toggleMetric] at h
    split_ifs at h
    · rw [← Option.some.inj h]
      exact moved_self hd
    · exact moved_updateFilters rfl rfl hd h

/-- However the effects are ordered, an assignment is followed by eleven of their runs at most. -/
theorem length_le_eleven {b c : Board Effect Signal Signals} {order : List Effect}
    (h : exec (runPending effects) (b.assign x s) order = some c) : order.length ≤ 11 := by
  have hlength := length_le_bound rank_body h
  have hrank := rank_le s
  have hpending := Finset.card_le_univ (b.assign x s).pending
  have hcard : Fintype.card Effect = 2 := rfl
  rw [bound, hcard] at hlength
  rw [hcard] at hpending
  have hstate : (b.assign x s).state = s := rfl
  rw [hstate] at hlength
  omega

theorem exists_assign (d : Dashboard) (x : Signal) (s : Signals) :
    ∃ order d', d.assign x s order = some d' := by
  obtain ⟨order, board, h⟩ := exists_settle rank_body (d.board.assign x s)
  exact ⟨order, { d with board := board }, assign_eq_some.mpr ⟨h, rfl⟩⟩

/-- The effects run in the one order first, and in the others after the later assignments. -/
def Order.cons (first : List Effect) (order : Order) : Order
  | 0 => first
  | n + 1 => order n

theorem exists_setHash (d : Dashboard) (next : HashState) :
    ∃ (order : Order) (d' : Dashboard), d.setHash next (order 0) = some d' := by
  obtain ⟨order, d', h⟩ := exists_assign (d.setLocation next) .hashSignal
    { d.signals with hash := next }
  exact ⟨fun _ => order, d', h⟩

theorem exists_writeFilters (d : Dashboard) (filters : Filters) (params : URLSearchParams) :
    ∃ order d', writeFilters filters params order d = some d' := by
  obtain ⟨first, d₁, hfirst⟩ := exists_assign d .filtersSignal
    { d.signals with filters := filters }
  obtain ⟨order, d', hsecond⟩ := exists_setHash d₁ ⟨d₁.signals.hash.panel, params⟩
  exact ⟨Order.cons first order, d', Option.bind_eq_some_iff.mpr ⟨d₁, hfirst, hsecond⟩⟩

private theorem exists_operate (d : Dashboard) (e : Event) : ∃ order d', operate e order d =
    some d' := by
  have hstay : ∃ (order : Order) (d' : Dashboard), some d = some d' := ⟨fun _ => [], d, rfl⟩
  cases e with
  | setRange r =>
    simp only [operate, setRange]
    split_ifs
    · exact hstay
    · obtain ⟨first, d₁, hfirst⟩ := exists_assign d .rangeSignal { d.signals with range := r }
      obtain ⟨order, d', hrest⟩ := exists_writeFilters d₁ (merge d₁.signals.filters (rangePatch r))
        (filtersToQuery (merge d₁.signals.filters (rangePatch r)))
      exact ⟨Order.cons first order, d', Option.bind_eq_some_iff.mpr ⟨d₁, hfirst, hrest⟩⟩
  | updateFilters next => exact exists_writeFilters d _ _
  | clearFilters => exact exists_writeFilters d _ _
  | navigate panel params => exact exists_setHash d _
  | resync hash =>
    obtain ⟨order, d', h⟩ := exists_assign { d with location := hash } .hashSignal
      { d.signals with hash := parseHash hash }
    exact ⟨fun _ => order, d', h⟩
  | setPropFilter scope name value =>
    simp only [operate, setPropFilter]
    split_ifs
    · exact hstay
    · exact exists_writeFilters d _ _
  | removePropFilter scope name => exact exists_writeFilters d _ _
  | toggleMetric id =>
    simp only [operate, toggleMetric]
    split_ifs
    · exact hstay
    · exact exists_writeFilters d _ _

def irstDay (nowMs : ℤ) : ℤ := (nowMs + irstOffset) / dayMs

private theorem defaultRange_congr {nowMs laterMs : ℤ} (h : irstDay laterMs = irstDay nowMs) :
    defaultRange laterMs = defaultRange nowMs := by
  have hdays (ms days : ℤ) : (ms + irstOffset - days * dayMs) / dayMs = irstDay ms - days := by
    simp only [irstDay, irstOffset, dayMs]
    omega
  simp only [defaultRange, daysAgoIRST, hdays, h]

/-- The signals are those of a page that is loaded from the URL later on the day. -/
structure Determined (loadedMs : ℤ) (d : Dashboard) : Prop where
  filters : filtersEqual (queryToFilters d.signals.hash.params) d.signals.filters = true
  reloaded : ∀ nowMs, irstDay nowMs = irstDay loadedMs →
    (load nowMs d.location).signals.hash = d.signals.hash ∧
      (load nowMs d.location).signals.range = d.signals.range

/-- The operation leaves a valid pair of dates in the URL, or the range is the default one. -/
def Keeps (loadedMs : ℤ) (d : Dashboard) (e : Event × Order) : Prop :=
  (rangeOf (written d e.1)).isSome ∨ d.signals.range = defaultRange loadedMs

theorem inStep_load (nowMs : ℤ) (hash : Bytes) : InStep (load nowMs hash) := by
  refine ⟨coherent_fresh effects fun i => ?_, rfl, rfl⟩
  cases i with
  | syncFilters => exact body_syncFilters_eq_none.mpr (Filters.Same.refl _)
  | syncRange =>
    apply body_syncRange_eq_none.mpr
    intro r hr
    simp only [initialRange]
    rw [hr, Option.getD_some]

theorem determined_iff {loadedMs : ℤ} (hd : InStep d) :
    Determined loadedMs d ↔
      d.signals.range = initialRange loadedMs (queryToFilters d.signals.hash.params) := by
  have hload (nowMs : ℤ) : (load nowMs d.location).signals.hash = d.signals.hash ∧
      (load nowMs d.location).signals.range =
        initialRange nowMs (queryToFilters d.signals.hash.params) := by
    rw [← hd.located]
    exact ⟨rfl, rfl⟩
  constructor
  · intro h
    rw [← (h.reloaded loadedMs rfl).2, (hload loadedMs).2]
  · intro h
    refine ⟨(filtersEqual_iff _ _).mpr hd.same, fun nowMs hday => ⟨(hload nowMs).1, ?_⟩⟩
    rw [(hload nowMs).2, h, initialRange, initialRange, defaultRange_congr hday]

private theorem determined_operate {loadedMs : ℤ} {e : Event × Order} (hd : InStep d)
    (h : step d e = some d') : Determined loadedMs d' ↔ Keeps loadedMs d e := by
  have hmoved := moved_operate hd h
  rw [determined_iff hmoved.inStep, initialRange, hmoved.written, hmoved.range, Keeps]
  cases rangeOf (written d e.1) with
  | none => simp
  | some r => simp

/-- The signals are those of a reload, in every state of a run, exactly when each operation that
leaves no valid dates in the URL meets the default range. Each operation completes, with the
effects in any order. -/
theorem determined_iff_along {loadedMs : ℤ} {hash : Bytes} {run : List (Event × Order)}
    (h : exec step (load loadedMs hash) run = some d) :
    (Throughout step (Determined loadedMs) (load loadedMs hash) run ↔
      Along step (Keeps loadedMs) (load loadedMs hash) run) ∧
      (∀ e, ∃ order d', step d (e, order) = some d') ∧
        ∀ x s order board, exec (runPending effects) (d.board.assign x s) order = some board →
          order.length ≤ 11 := by
  refine ⟨?_, exists_operate d, fun x s order board hrun => length_le_eleven hrun⟩
  have hanyone : ∀ e ∈ run, (fun _ : Event × Order => True) e := fun _ _ => trivial
  have hload : Determined loadedMs (load loadedMs hash) :=
    (determined_iff (inStep_load loadedMs hash)).mpr rfl
  refine throughout_iff_along_of (J := InStep) ?_ ?_ h hanyone (inStep_load loadedMs hash) hload
  · exact fun d e d' _ hd _ hstep _ => (moved_operate hd hstep).inStep
  · exact fun d e d' _ hd _ hstep => determined_operate hd hstep

/-- 2026-09-21, in milliseconds. -/
def september : ℤ := 1790000000000

def january : Range := ⟨toCodeUnits "2026-01-01", toCodeUnits "2026-02-01"⟩

/-- The filters are read back from the hash before the range is looked at. -/
def filtersFirst : List Effect := [.syncFilters, .syncFilters, .syncRange]

/-- No effect waits for the range of a page without dates in its URL. -/
def pickJanuary : Event × Order := (.setRange january, Order.cons [] fun _ => filtersFirst)

theorem determined_iff_along_pickJanuary :
    ∃ d, exec step (load september []) [pickJanuary] = some d ∧
      (Throughout step (Determined september) (load september []) [pickJanuary] ↔
        Along step (Keeps september) (load september []) [pickJanuary]) ∧
        (∀ e, ∃ order d', step d (e, order) = some d') ∧
          ∀ x s order board, exec (runPending effects) (d.board.assign x s) order = some board →
            order.length ≤ 11 := by
  have hrun : (exec step (load september []) [pickJanuary]).isSome = true := by decide +kernel
  obtain ⟨d, hd⟩ := Option.isSome_iff_exists.mp hrun
  exact ⟨d, hd, determined_iff_along hd⟩

/-- The filters are cleared, but the range stays where it was set, and a reload shows another. -/
theorem range_stays_cleared :
    ((exec step (load september [])
        [pickJanuary, (.clearFilters, fun _ => filtersFirst)]).map fun d =>
          (d.signals.range, d.location, (load september d.location).signals.range)) =
      some (january, toUtf8 "#overview", ⟨toCodeUnits "2026-09-14", toCodeUnits "2026-09-22"⟩) := by
  decide +kernel

end Statnive.UrlState
