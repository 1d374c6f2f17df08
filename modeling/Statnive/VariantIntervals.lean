import Mathlib.Analysis.Real.Sqrt
import Statnive.Rollups

/-!
# Intervals of variants

A comparison has a row for each value of a dimension, with its visitors and the events of a goal.
The rate of a row and its Wilson interval are computed in exact arithmetic here, and what a float
computes is no number where a root of a negative number is taken.
-/

namespace Statnive.VariantIntervals

open Rollups StoreQueries ZonedTime
open PrivacyPolicy (Bytes)

/-- What the comparison reads of a row of `events_raw`. -/
structure NamedEvent extends Rollups.Event where
  eventName : String
  deriving DecidableEq

/-- A row of the answer. -/
structure Counts where
  value : String
  visitors : ℕ
  goalCompletions : ℕ
  deriving DecidableEq

/-- The parts of a statement `compare`. -/
structure Comparison where
  scope : PropScope
  name : String
  goal : String
  range : StoreQueries.Range

namespace Comparison

variable (zones : String → Zone) (uniq : Finset Bytes → ℕ) (c : Comparison)
  (events : Multiset NamedEvent)

def property (e : NamedEvent) : Option String := (e.props c.scope).lookup c.name

def selects (e : NamedEvent) : Bool :=
  withinRange zones c.range ⟨e.siteID, e.time, []⟩ && (c.property e).isSome

/-- The events of a value. -/
def variant (value : String) : Multiset NamedEvent :=
  events.filter fun e => c.selects zones e && (c.property e).getD "" = value

/-- `uniqCombined64(visitor_hash)`, where `uniq` is what it counts. -/
def visitors (value : String) : ℕ :=
  uniq ((c.variant zones events value).map fun e => e.visitorHash).toFinset

def isCompletion (e : NamedEvent) : Bool := e.isGoal && e.eventName = c.goal

/-- `countIf(is_goal = 1 AND event_name = ?)`. -/
def goalCompletions (value : String) : ℕ :=
  (c.variant zones events value).countP fun e => c.isCompletion e

def groups : Multiset Counts :=
  (((events.filter fun e => c.selects zones e).map fun e => (c.property e).getD "").dedup).map
    fun value => ⟨value, c.visitors zones uniq events value, c.goalCompletions zones events value⟩

/-- The first rows in some order by visitors. -/
def Returns (rows : List Counts) : Prop :=
  ∃ all : List Counts, (all : Multiset Counts) = c.groups zones uniq events ∧
    all.Pairwise (fun a b => b.visitors ≤ a.visitors) ∧ rows = all.take 25

end Comparison

/-- A value that is a number, if it is one. -/
abbrev Number := Option ℝ

noncomputable def sqrt (x : ℚ) : Number := if x < 0 then none else some √x

structure VariantRow where
  value : String
  visitors : ℕ
  goalCompletions : ℕ
  conversionRate : ℚ := 0
  ci : Option (ℝ × ℝ) := none
  deltaPP : Option ℚ := none
  deltaRel : Option ℚ := none
  pValue : Option Number := none

def minVariantVisitors : ℕ := 100

def minVariantConversions : ℕ := 25

/-- The body of the loop over the rows. -/
def Counts.scan (r : Counts) : VariantRow where
  value := r.value
  visitors := r.visitors
  goalCompletions := r.goalCompletions
  conversionRate := if 0 < r.visitors then (r.goalCompletions : ℚ) / r.visitors else 0

section Wilson

-- the square of `z`
variable (zz : ℚ) (k n : ℕ)

def denom : ℚ := 1 + zz / n

def center : ℚ := ((k : ℚ) / n + zz / (2 * n)) / denom zz n

def radicand : ℚ := (k : ℚ) / n * (1 - (k : ℚ) / n) / n + zz / (4 * n * n)

noncomputable def wilsonCI : Option (ℝ × ℝ) :=
  if n = 0 then some (0, 0)
  else (sqrt (radicand zz k n)).map fun root =>
    let margin := √zz / denom zz n * root
    let lo := center zz k n - margin
    let hi := center zz k n + margin
    (if lo < 0 then 0 else lo, if 1 < hi then 1 else hi)

end Wilson

/-- The square of the constant of the source. -/
def z95 : ℚ := (1959963984540054 / 1000000000000000) ^ 2

noncomputable def twoProportionZTestPValue (erfc : ℝ → ℝ) (kA nA kB nB : ℕ) : Number :=
  if nA = 0 || nB = 0 then some 1
  else
    let pPool : ℚ := ((kA + kB : ℕ) : ℚ) / (nA + nB : ℕ)
    if pPool ≤ 0 || 1 ≤ pPool then some 1
    else (sqrt (pPool * (1 - pPool) * (1 / nA + 1 / nB))).map fun se =>
      if se = 0 then 1
      else erfc (|(((kB : ℚ) / nB - (kA : ℚ) / nA : ℚ) : ℝ) / se| / √2)

def hasMinimumSample (v : VariantRow) : Bool :=
  minVariantVisitors ≤ v.visitors && minVariantConversions ≤ v.goalCompletions

/-- The body of the loop over the variants. -/
noncomputable def applyVariantStats (zz : ℚ) (erfc : ℝ → ℝ) (control v : VariantRow) :
    VariantRow :=
  let v := { v with ci := wilsonCI zz v.goalCompletions v.visitors }
  if v.value = control.value then v
  else if !hasMinimumSample v || !hasMinimumSample control then v
  else
    let dPP := v.conversionRate - control.conversionRate
    { v with
      deltaPP := some dPP
      deltaRel := if 0 < control.conversionRate then some (dPP / control.conversionRate) else none
      pValue := some (twoProportionZTestPValue erfc control.goalCompletions control.visitors
        v.goalCompletions v.visitors) }

/-- The most visitors first, then by value. -/
def precedes (a b : VariantRow) : Prop :=
  b.visitors < a.visitors ∨ (a.visitors = b.visitors ∧ a.value ≤ b.value)

instance : DecidableRel precedes := fun _ _ => inferInstanceAs (Decidable (_ ∨ _))

/-- The variants of the result of `Compare`, of which the first one is the control. -/
noncomputable def compareVariants (zz : ℚ) (erfc : ℝ → ℝ) (rows : List Counts) :
    List VariantRow :=
  match (rows.map Counts.scan).insertionSort precedes with
  | [] => []
  | control :: rest => (control :: rest).map (applyVariantStats zz erfc control)

/-- The rate and the interval of a row are in their domains, and all of it are numbers. -/
structure InDomain (zz : ℚ) (v : VariantRow) : Prop where
  rate : 0 ≤ v.conversionRate ∧ v.conversionRate ≤ 1
  radicand : 0 ≤ radicand zz v.goalCompletions v.visitors
  interval : ∃ lo hi, v.ci = some (lo, hi) ∧ 0 ≤ lo ∧ lo ≤ v.conversionRate ∧
    (v.conversionRate : ℝ) ≤ hi ∧ hi ≤ 1
  pValue : v.pValue ≠ some none

section Wilson

variable {zz : ℚ} {k n : ℕ}

theorem rate_mem (hn : 0 < n) : (0 : ℚ) ≤ (k : ℚ) / n ∧ ((k : ℚ) / n ≤ 1 ↔ k ≤ n) := by
  have hpos : (0 : ℚ) < n := Nat.cast_pos.mpr hn
  exact ⟨by positivity, by rw [div_le_one hpos, Nat.cast_le]⟩

theorem denom_pos (hzz : 0 < zz) : 0 < denom zz n := by
  rw [denom]
  positivity

/-- The variance of the rate. -/
theorem variance_nonneg (hn : 0 < n) (hk : k ≤ n) :
    (0 : ℚ) ≤ (k : ℚ) / n * (1 - (k : ℚ) / n) := by
  obtain ⟨h0, h1⟩ := rate_mem (k := k) hn
  exact mul_nonneg h0 (sub_nonneg.mpr (h1.mpr hk))

theorem radicand_nonneg (hzz : 0 < zz) (hn : 0 < n) (hk : k ≤ n) : 0 ≤ radicand zz k n := by
  have hvar := variance_nonneg hn hk
  rw [radicand]
  positivity

private theorem denom_mul_center_sub (hzz : 0 < zz) (hn : 0 < n) :
    denom zz n * (center zz k n - (k : ℚ) / n) = zz / n * (1 / 2 - (k : ℚ) / n) := by
  have hpos : (0 : ℚ) < n := Nat.cast_pos.mpr hn
  have hdenom := (denom_pos (n := n) hzz).ne'
  rw [center, mul_sub, mul_div_cancel₀ _ hdenom, denom]
  field_simp
  ring

/-- The centre is no farther from the rate than the margin. -/
theorem sq_center_sub_le (hzz : 0 < zz) (hn : 0 < n) (hk : k ≤ n) :
    (denom zz n * (center zz k n - (k : ℚ) / n)) ^ 2 ≤ zz * radicand zz k n := by
  have hpos : (0 : ℚ) < n := Nat.cast_pos.mpr hn
  have hvar := variance_nonneg hn hk
  have hgap : zz * radicand zz k n - (zz / n * (1 / 2 - (k : ℚ) / n)) ^ 2 =
      (k : ℚ) / n * (1 - (k : ℚ) / n) * (zz / n * (1 + zz / n)) := by
    rw [radicand]
    field_simp
    ring
  have hnonneg : 0 ≤ (k : ℚ) / n * (1 - (k : ℚ) / n) * (zz / n * (1 + zz / n)) := by positivity
  rw [denom_mul_center_sub hzz hn]
  linarith only [hgap, hnonneg]

private theorem abs_center_sub_le (hzz : 0 < zz) (hn : 0 < n) (hk : k ≤ n) :
    |((center zz k n - (k : ℚ) / n : ℚ) : ℝ)| ≤ √zz / denom zz n * √(radicand zz k n) := by
  have hdenom : (0 : ℝ) < denom zz n := by exact_mod_cast denom_pos hzz
  have hzz' : (0 : ℝ) ≤ zz := by exact_mod_cast hzz.le
  have hsq : ((denom zz n : ℝ) * ((center zz k n - (k : ℚ) / n : ℚ) : ℝ)) ^ 2 ≤
      (zz : ℝ) * (radicand zz k n : ℝ) := by exact_mod_cast sq_center_sub_le hzz hn hk
  have habs := Real.abs_le_sqrt hsq
  rw [abs_mul, abs_of_pos hdenom, Real.sqrt_mul hzz', mul_comm, ← le_div_iff₀ hdenom] at habs
  calc |((center zz k n - (k : ℚ) / n : ℚ) : ℝ)|
      ≤ √zz * √(radicand zz k n) / denom zz n := habs
    _ = √zz / denom zz n * √(radicand zz k n) := by ring

private theorem wilsonCI_mem (hzz : 0 < zz) (hn : 0 < n) (hk : k ≤ n) :
    ∃ lo hi, wilsonCI zz k n = some (lo, hi) ∧ 0 ≤ lo ∧ lo ≤ (((k : ℚ) / n : ℚ) : ℝ) ∧
      (((k : ℚ) / n : ℚ) : ℝ) ≤ hi ∧ hi ≤ 1 := by
  obtain ⟨h0, h1⟩ := rate_mem (k := k) hn
  have hrate0 : (0 : ℝ) ≤ (((k : ℚ) / n : ℚ) : ℝ) := by exact_mod_cast h0
  have hrate1 : (((k : ℚ) / n : ℚ) : ℝ) ≤ 1 := by exact_mod_cast h1.mpr hk
  obtain ⟨hlow, hhigh⟩ := abs_le.mp (abs_center_sub_le hzz hn hk)
  rw [Rat.cast_sub] at hlow hhigh
  have hroot : sqrt (radicand zz k n) = some √(radicand zz k n) :=
    if_neg (not_lt.mpr (radicand_nonneg hzz hn hk))
  rw [wilsonCI, if_neg hn.ne', hroot, Option.map_some]
  refine ⟨_, _, rfl, ?_, ?_, ?_, ?_⟩
  · split
    next => exact le_rfl
    next h => exact not_lt.mp h
  · split
    next => exact hrate0
    next => linarith only [hhigh]
  · split
    next => exact hrate1
    next => linarith only [hlow]
  · split
    next => exact le_rfl
    next h => exact not_lt.mp h

private theorem wilsonCI_eq_none (hn : n ≠ 0) (hneg : radicand zz k n < 0) : wilsonCI zz k n =
    none := by
  rw [wilsonCI, if_neg hn, sqrt, if_pos hneg, Option.map_none]

end Wilson

/-- The test takes no root of a negative number. -/
theorem twoProportionZTestPValue_ne_none (erfc : ℝ → ℝ) (kA nA kB nB : ℕ) :
    twoProportionZTestPValue erfc kA nA kB nB ≠ none := by
  rw [twoProportionZTestPValue]
  split
  next => simp
  next hn =>
    dsimp only
    split
    next => simp
    next hpool =>
      simp only [Bool.or_eq_true, decide_eq_true_eq, not_or, not_le] at hpool
      have hpos : 0 ≤ (1 : ℚ) / nA + 1 / nB := by positivity
      have hvar := mul_nonneg hpool.1.le (sub_nonneg.mpr hpool.2.le)
      have hroot := not_lt.mpr (mul_nonneg hvar hpos)
      rw [sqrt, if_neg hroot, Option.map_some]
      exact Option.some_ne_none _

section Stats

variable (zz : ℚ) (erfc : ℝ → ℝ) (control v : VariantRow)

@[simp] theorem applyVariantStats_value :
    (applyVariantStats zz erfc control v).value = v.value := by
  simp only [applyVariantStats]
  split_ifs <;> rfl

@[simp] theorem applyVariantStats_visitors :
    (applyVariantStats zz erfc control v).visitors = v.visitors := by
  simp only [applyVariantStats]
  split_ifs <;> rfl

@[simp] theorem applyVariantStats_goalCompletions :
    (applyVariantStats zz erfc control v).goalCompletions = v.goalCompletions := by
  simp only [applyVariantStats]
  split_ifs <;> rfl

@[simp] theorem applyVariantStats_conversionRate :
    (applyVariantStats zz erfc control v).conversionRate = v.conversionRate := by
  simp only [applyVariantStats]
  split_ifs <;> rfl

@[simp] theorem applyVariantStats_ci :
    (applyVariantStats zz erfc control v).ci = wilsonCI zz v.goalCompletions v.visitors := by
  simp only [applyVariantStats]
  split_ifs <;> rfl

private theorem applyVariantStats_pValue (hv : v.pValue = none) :
    (applyVariantStats zz erfc control v).pValue ≠ some none := by
  simp only [applyVariantStats]
  split_ifs
  · simp [hv]
  · simp [hv]
  · simp [twoProportionZTestPValue_ne_none]
  · simp [twoProportionZTestPValue_ne_none]

end Stats

/-- A row with visitors is in its domain when it has no more completions than visitors. -/
theorem inDomain_iff {zz : ℚ} (hzz : 0 < zz) (erfc : ℝ → ℝ) (control : VariantRow) {r : Counts}
    (hr : 0 < r.visitors) : InDomain zz (applyVariantStats zz erfc control r.scan) ↔
      r.goalCompletions ≤ r.visitors := by
  obtain ⟨h0, h1⟩ := rate_mem (k := r.goalCompletions) hr
  have hrate : r.scan.conversionRate = (r.goalCompletions : ℚ) / r.visitors := if_pos hr
  constructor
  · intro h
    have hle := h.rate.2
    rw [applyVariantStats_conversionRate, hrate] at hle
    exact h1.mp hle
  · intro hk
    refine ⟨?_, ?_, ?_, applyVariantStats_pValue zz erfc control r.scan rfl⟩
    · rw [applyVariantStats_conversionRate, hrate]
      exact ⟨h0, h1.mpr hk⟩
    · rw [applyVariantStats_goalCompletions, applyVariantStats_visitors]
      exact radicand_nonneg hzz hr hk
    · rw [applyVariantStats_ci, applyVariantStats_conversionRate, hrate]
      exact wilsonCI_mem hzz hr hk

private theorem exists_of_mem_compareVariants {zz : ℚ} {erfc : ℝ → ℝ} {rows : List Counts}
    {v : VariantRow} (hv : v ∈ compareVariants zz erfc rows) :
    ∃ control, ∃ r ∈ rows, v = applyVariantStats zz erfc control r.scan := by
  rw [compareVariants] at hv
  split at hv
  next => exact absurd hv List.not_mem_nil
  next control rest hsort =>
    obtain ⟨w, hw, rfl⟩ := List.mem_map.mp hv
    rw [← hsort, List.mem_insertionSort] at hw
    obtain ⟨r, hr, rfl⟩ := List.mem_map.mp hw
    exact ⟨control, r, hr, rfl⟩

private theorem mem_groups_of_returns
    {zones : String → Zone} {uniq : Finset Bytes → ℕ} {c : Comparison}
    {events : Multiset NamedEvent} {rows : List Counts}
    (hrows : c.Returns zones uniq events rows) {r : Counts} (hr : r ∈ rows) :
    r ∈ c.groups zones uniq events := by
  obtain ⟨all, hall, -, rfl⟩ := hrows
  rw [← hall, Multiset.mem_coe]
  exact List.mem_of_mem_take hr

/-- A value that is returned has visitors. -/
theorem visitors_pos {zones : String → Zone} {uniq : Finset Bytes → ℕ}
    (huniq : ∀ s : Finset Bytes, s.Nonempty → 0 < uniq s) {c : Comparison}
    {events : Multiset NamedEvent} {r : Counts} (hr : r ∈ c.groups zones uniq events) :
    r.visitors = c.visitors zones uniq events r.value ∧
      r.goalCompletions = c.goalCompletions zones events r.value ∧ 0 < r.visitors := by
  obtain ⟨value, hvalue, rfl⟩ := Multiset.mem_map.mp hr
  obtain ⟨e, he, rfl⟩ := Multiset.mem_map.mp (Multiset.mem_dedup.mp hvalue)
  refine ⟨rfl, rfl, huniq _ ⟨e.visitorHash, ?_⟩⟩
  obtain ⟨he, hsel⟩ := Multiset.mem_filter.mp he
  rw [Multiset.mem_toFinset]
  refine Multiset.mem_map_of_mem _ (Multiset.mem_filter.mpr ⟨he, ?_⟩)
  simp [hsel]

theorem compare_inDomain_iff {uniq : Finset Bytes → ℕ}
    (huniq : ∀ s : Finset Bytes, s.Nonempty → 0 < uniq s) {zz : ℚ} (hzz : 0 < zz) (erfc : ℝ → ℝ)
    {zones : String → Zone} {c : Comparison} {events : Multiset NamedEvent} {rows : List Counts}
    (hrows : c.Returns zones uniq events rows) {v : VariantRow}
    (hv : v ∈ compareVariants zz erfc rows) :
    InDomain zz v ↔
      c.goalCompletions zones events v.value ≤ c.visitors zones uniq events v.value := by
  obtain ⟨control, r, hr, rfl⟩ := exists_of_mem_compareVariants hv
  obtain ⟨hn, hk, hpos⟩ := visitors_pos huniq (mem_groups_of_returns hrows hr)
  rw [inDomain_iff hzz erfc control hpos, applyVariantStats_value, Counts.scan, hk, hn]

/-- Visitors that are counted exactly and reach the goal at most once. -/
theorem goalCompletions_le_card {zones : String → Zone} {c : Comparison}
    {events : Multiset NamedEvent} {value : String}
    (honce : (((c.variant zones events value).filter fun e => c.isCompletion e).map
      fun e => e.visitorHash).Nodup) :
    c.goalCompletions zones events value ≤ c.visitors zones Finset.card events value := by
  rw [Comparison.goalCompletions, Comparison.visitors, Multiset.countP_eq_card_filter,
    ← Multiset.card_map (fun e : NamedEvent => e.visitorHash), Multiset.toFinset]
  refine Multiset.card_le_card ?_
  rw [Multiset.le_dedup]
  exact ⟨Multiset.map_le_map (Multiset.filter_le _ _), honce⟩

def purchases : Comparison :=
  ⟨.hit, "v", "purchase", .between 1 .time ⟨0, "UTC"⟩ ⟨1000000000, "UTC"⟩⟩

def purchase : NamedEvent where
  siteID := 1
  time := 0
  visitorHash := [1]
  pathname := "/"
  isGoal := true
  hitProps := [("v", "A")]
  eventName := "purchase"

private theorem returns_purchase : purchases.Returns (fun _ => utc) Finset.card {purchase}
    [⟨"A", 1, 1⟩] :=
  ⟨[⟨"A", 1, 1⟩], by decide +kernel, List.pairwise_singleton _ _, rfl⟩

private theorem returns_purchases :
    purchases.Returns (fun _ => utc) Finset.card {purchase, purchase}
    [⟨"A", 1, 2⟩] :=
  ⟨[⟨"A", 1, 2⟩], by decide +kernel, List.pairwise_singleton _ _, rfl⟩

theorem mem_compareVariants (zz : ℚ) (erfc : ℝ → ℝ) (r : Counts) :
    applyVariantStats zz erfc r.scan r.scan ∈ compareVariants zz erfc [r] :=
  List.mem_singleton_self _

theorem inDomain_purchase : InDomain z95
    (applyVariantStats z95 (fun x => x) (Counts.scan ⟨"A", 1, 1⟩) (Counts.scan ⟨"A", 1, 1⟩)) :=
  (compare_inDomain_iff (fun _ hs => Finset.card_pos.mpr hs) (by norm_num [z95]) (fun x => x)
    returns_purchase (mem_compareVariants _ _ _)).mpr (by decide +kernel)

/-- A visitor who purchases twice has a rate of two, and the interval is no number. -/
theorem rate_purchases : ∃ v ∈ compareVariants z95 (fun x => x) [⟨"A", 1, 2⟩],
    purchases.Returns (fun _ => utc) Finset.card {purchase, purchase} [⟨"A", 1, 2⟩] ∧
    v.conversionRate = 2 ∧ v.ci = none ∧ ¬ InDomain z95 v := by
  refine ⟨_, mem_compareVariants z95 _ ⟨"A", 1, 2⟩, returns_purchases, ?_, ?_, ?_⟩
  · rw [applyVariantStats_conversionRate]
    norm_num [Counts.scan]
  · have hneg : radicand z95 2 1 < 0 := by norm_num [radicand, z95]
    rw [applyVariantStats_ci]
    exact wilsonCI_eq_none one_ne_zero hneg
  · intro h
    have hle := h.rate.2
    rw [applyVariantStats_conversionRate] at hle
    norm_num [Counts.scan] at hle

end Statnive.VariantIntervals
