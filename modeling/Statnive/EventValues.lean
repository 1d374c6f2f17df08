import Mathlib.Algebra.Ring.Nat
import Mathlib.Data.Rat.Floor
import Mathlib.Tactic.Linarith
import Statnive.GoalRevenue

/-!
# The value of a stored event

A visitor sends `event_value` as a number, the row holds an unsigned integer, and the
conversion between them is left to the pipeline. No stage looks at the number before.
-/

namespace Statnive.EventValues

open EnrichPipeline GoalRevenue GoalSnapshot GoalsHandlers IngestEvents IngestHandler

/-- The number without its fraction. -/
def truncate (x : ℚ) : ℤ := if 0 ≤ x then ⌊x⌋ else ⌈x⌉

/-- What the language says of `uint64(x)`: the result is the number without its fraction
where that is one of the type, and some value of the type elsewhere. -/
structure ConvertsUint64 (convert : ℚ → ℕ) : Prop where
  lt : ∀ x, convert x < 2 ^ 64
  exact : ∀ x, 0 ≤ truncate x → truncate x < 2 ^ 64 → (convert x : ℤ) = truncate x

private theorem truncate_nonneg_iff (x : ℚ) : 0 ≤ truncate x ↔ -1 < x := by
  rw [truncate]
  split
  · next h => exact iff_of_true (Int.floor_nonneg.mpr h) (by linarith)
  · rw [show (0 : ℤ) ≤ ⌈x⌉ ↔ -1 < ⌈x⌉ by omega, Int.lt_ceil]
    norm_num

private theorem truncate_lt_iff (x : ℚ) : truncate x < 2 ^ 64 ↔ x < 2 ^ 64 := by
  rw [truncate]
  split
  · rw [Int.floor_lt]
    norm_num
  · next h =>
    have hceil : ⌈x⌉ ≤ 0 := Int.ceil_le.mpr (by push_cast; linarith)
    exact iff_of_true (by omega) (by linarith)

/-- A conversion drops the fraction exactly where the result is one of the type. -/
theorem converts_iff {convert : ℚ → ℕ} (h : ConvertsUint64 convert) (x : ℚ) :
    (convert x : ℤ) = truncate x ↔ -1 < x ∧ x < 2 ^ 64 := by
  rw [← truncate_nonneg_iff, ← truncate_lt_iff]
  constructor
  · intro heq
    have hlt := h.lt x
    omega
  · rintro ⟨hlow, hhigh⟩
    exact h.exact x hlow hhigh

/-- The price of the goal that an event matches, unless the goal leaves it to the visitor. -/
def goalPrice {φ : Type} (s : Ingested φ) (i : ℕ) (e : EnrichedEvent) : Option ℕ :=
  if e.isBot = 0 then
    ((matchGoal (s.snapshot i) e.siteID e.eventName).map Goal.value).filter (0 < ·)
  else none

/-- The conversion runs on a number of the type, and the row holds it without its fraction,
or else the price of the goal. -/
structure ValueLaw {φ : Type} (s : Ingested φ) (i : ℕ) (raw : RawEvent) (e : EnrichedEvent) :
    Prop where
  nonneg : 0 ≤ raw.eventValue
  lt : raw.eventValue < 2 ^ 64
  stored : (e.eventValue : ℤ) = ((goalPrice s i e).map Nat.cast).getD (truncate raw.eventValue)

variable {φ : Type} {s : Ingested φ} {i : ℕ} {raw : RawEvent} {e : EnrichedEvent}

/-- The price is that of the row before the goals are matched. -/
theorem goalPrice_row (hash : VisitorHash) (isNew : Bool) :
    goalPrice s i ((s.depsAt i).row hash isNew raw) =
      goalPrice s i ((s.depsAt i).newRow hash isNew raw) := by
  obtain ⟨goal, value, hrow⟩ := row_eq (s.depsAt i) hash isNew raw
  rw [hrow]
  rfl

private theorem row_eventValue (hash : VisitorHash) (isNew : Bool) :
    ((s.depsAt i).row hash isNew raw).eventValue =
      (goalPrice s i ((s.depsAt i).row hash isNew raw)).getD (s.deps.uint64 raw.eventValue) := by
  rw [goalPrice_row]
  have hvalue : ((s.depsAt i).newRow hash isNew raw).eventValue =
      s.deps.uint64 raw.eventValue := rfl
  have hgoals : (s.depsAt i).goals =
      some fun siteID name => (matchGoal (s.snapshot i) siteID name).map Goal.value := rfl
  simp only [Deps.row, hgoals, goalPrice]
  generalize (s.depsAt i).newRow hash isNew raw = e at hvalue ⊢
  by_cases hbot : e.isBot = 0
  · simp only [if_pos hbot, applyGoalMatch]
    cases matchGoal (s.snapshot i) e.siteID e.eventName with
    | none => simpa using hvalue
    | some goal =>
      by_cases hprice : 0 < goal.value
      · simp [hprice, Option.filter]
      · simpa [hprice, Option.filter] using hvalue
  · simpa [if_neg hbot] using hvalue

/-- What is stored of the number that a visitor sent. -/
theorem eventValue_of_enriched (h : .enriched i raw (some e) ∈ s.outputs) :
    e.eventValue = (goalPrice s i e).getD (s.deps.uint64 raw.eventValue) ∧
      ∀ evs, parseBody s.dec s.request.body = .ok evs →
        ∃ ev, evs[i]? = some ev ∧ raw.eventValue = ev.eventValue := by
  obtain ⟨evs, hbody, hmem⟩ := mem_serve_iff.mp h
  obtain ⟨k, ev, hk, hev, hpass⟩ := enriched_of_mem hmem
  obtain rfl : i = k := by omega
  obtain ⟨p, hres⟩ := StoredProps.exists_state_of_enriched hmem
  obtain ⟨hash, isNew, rfl⟩ := backend_ok hres
  refine ⟨row_eventValue hash isNew, fun evs' hbody' => ⟨ev, ?_, (sent_of_gate hpass).eventValue⟩⟩
  rwa [Except.ok.inj (hbody'.symm.trans hbody)]

/-- The law holds of the events whose number, as it was sent, is one of the type. A stored
number that no goal has set is the one that was sent, without its fraction, exactly when
that is one of the type. -/
theorem valueLaw_iff (hconv : ConvertsUint64 s.deps.uint64)
    (h : .enriched i raw (some e) ∈ s.outputs) {evs : List Payload} {ev : Payload}
    (hbody : parseBody s.dec s.request.body = .ok evs) (hev : evs[i]? = some ev) :
    (ValueLaw s i raw e ↔ 0 ≤ ev.eventValue ∧ ev.eventValue < 2 ^ 64) ∧
      (goalPrice s i e = none → ((e.eventValue : ℤ) = truncate ev.eventValue ↔
        -1 < ev.eventValue ∧ ev.eventValue < 2 ^ 64)) := by
  obtain ⟨hstored, hsent⟩ := eventValue_of_enriched h
  obtain ⟨ev', hev', hvalue⟩ := hsent evs hbody
  obtain rfl : ev' = ev := Option.some.inj (hev'.symm.trans hev)
  constructor
  · constructor
    · intro hlaw
      exact ⟨hvalue ▸ hlaw.nonneg, hvalue ▸ hlaw.lt⟩
    · rintro ⟨hlow, hhigh⟩
      refine ⟨hvalue ▸ hlow, hvalue ▸ hhigh, ?_⟩
      have hexact : (s.deps.uint64 raw.eventValue : ℤ) = truncate raw.eventValue := by
        rw [converts_iff hconv, hvalue]
        exact ⟨by linarith, hhigh⟩
      rw [hstored]
      cases goalPrice s i e with
      | none => exact hexact
      | some price => rfl
  · intro hprice
    rw [hstored, hprice, Option.getD_none, hvalue]
    exact converts_iff hconv ev'.eventValue

/-- A conversion that keeps the low 64 bits. -/
def lowBits (x : ℚ) : ℕ := (truncate x % 2 ^ 64).toNat

private theorem lowBits_converts : ConvertsUint64 lowBits where
  lt x := by
    have hmod := Int.emod_lt_of_pos (truncate x) (show (0 : ℤ) < 2 ^ 64 by norm_num)
    unfold lowBits
    omega
  exact x hlow hhigh := by
    rw [lowBits, Int.emod_eq_of_lt hlow hhigh, Int.toNat_of_nonneg hlow]

def priced (value : ℚ) : Ingested (List VisitorHash) where
  cfg := sampleConfig
  dec := ⟨fun _ => none, fun _ => some { hostname := "one", eventValue := value }⟩
  deps := { samplePipeline with uint64 := lowBits }
  goals _ := []
  clock _ := {}
  appendAndWait _ _ := true
  pipeline := { bits := [] }
  request := sampleVisit

def isStored (sent : ℚ) (stored : ℕ) : Output → Bool
  | .enriched _ raw (some e) => decide (raw.eventValue = sent) && decide (e.eventValue = stored)
  | _ => false

theorem exists_of_isStored {sent : ℚ} {stored : ℕ} {os : List Output}
    (h : os.any (isStored sent stored) = true) :
    ∃ i raw e, .enriched i raw (some e) ∈ os ∧ raw.eventValue = sent ∧ e.eventValue = stored := by
  obtain ⟨o, ho, hstored⟩ := List.any_eq_true.mp h
  unfold isStored at hstored
  split at hstored
  · next i raw e =>
    simp only [Bool.and_eq_true, decide_eq_true_eq] at hstored
    exact ⟨i, raw, e, ho, hstored.1, hstored.2⟩
  · cases hstored

/-- The value 5/2 is stored as 2. -/
theorem fraction_dropped :
    ∃ raw e, .enriched 0 raw (some e) ∈ (priced (5 / 2)).outputs ∧ e.eventValue = 2 ∧
      ValueLaw (priced (5 / 2)) 0 raw e := by
  have hany : (priced (5 / 2)).outputs.any (isStored (5 / 2) 2) = true := by decide +kernel
  obtain ⟨i, raw, e, hmem, -, hstored⟩ := exists_of_isStored hany
  have hbody : parseBody (priced (5 / 2)).dec (priced (5 / 2)).request.body =
      .ok [{ hostname := "one", eventValue := 5 / 2 }] := rfl
  obtain ⟨ev, hev, -⟩ := (eventValue_of_enriched hmem).2 _ hbody
  obtain rfl : i = 0 := Nat.lt_one_iff.mp (List.getElem?_eq_some_iff.mp hev).1
  refine ⟨raw, e, hmem, hstored, (valueLaw_iff lowBits_converts hmem hbody rfl).1.mpr ?_⟩
  constructor <;> norm_num

/-- The value -1 is converted, and stored as the largest number. -/
theorem negative_value_wraps :
    (priced (-1)).outputs.any (isStored (-1) (2 ^ 64 - 1)) = true ∧
      ¬ ∀ i raw e, .enriched i raw (some e) ∈ (priced (-1)).outputs →
        ValueLaw (priced (-1)) i raw e := by
  have hany : (priced (-1)).outputs.any (isStored (-1) (2 ^ 64 - 1)) = true := by decide +kernel
  refine ⟨hany, fun h => ?_⟩
  obtain ⟨i, raw, e, hmem, hsent, -⟩ := exists_of_isStored hany
  have hlow := (h i raw e hmem).nonneg
  rw [hsent] at hlow
  exact absurd hlow (by decide)

end Statnive.EventValues
