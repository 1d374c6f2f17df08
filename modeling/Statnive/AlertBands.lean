import Mathlib.Logic.Function.Basic
import Statnive.LabelledRuns

/-!
# Bands of an alert

A `BandTracker` holds the band of one source of alerts and reports a transition when it changes.
An `Observe` loads the band and stores the new one in two atomic steps, between which the calls of
others may come.
-/

namespace Statnive.AlertBands

open LabelledRuns

inductive Severity where
  | info | warn | critical
  deriving DecidableEq

structure Transition where
  entered : Bool
  exited : Bool
  band : UInt32
  prev : UInt32
  deriving DecidableEq

/-- What a call returns that found the band `prev` and was given another one. -/
def changed (prev band : UInt32) : Transition := ⟨band > prev, band < prev, band, prev⟩

/-- What a call returns that found the band it was given. -/
def steady (band : UInt32) : Transition := ⟨false, false, band, band⟩

/-- An `Observe` that no other call comes between, with the band it leaves. -/
def observe (current band : UInt32) : Transition × UInt32 :=
  if band = current then (steady band, current) else (changed current band, band)

/-- The band of a gauge, by ascending thresholds. -/
def classifyRatio {R : Type*} [LE R] [DecidableLE R] (ratio : R) (low middle high : R) :
    UInt32 × Severity :=
  if ratio ≥ high then (3, .critical)
  else if ratio ≥ middle then (2, .critical)
  else if ratio ≥ low then (1, .warn)
  else (0, .info)

def Transition.IsEmpty (t : Transition) : Prop := t.entered = false ∧ t.exited = false

/-- The change of the band that a transition tells of. -/
def Transition.edge (t : Transition) : UInt32 × UInt32 := (t.prev, t.band)

private theorem steady_isEmpty (band : UInt32) : (steady band).IsEmpty := ⟨rfl, rfl⟩

private theorem changed_not_isEmpty {prev band : UInt32} (h : band ≠ prev) :
    ¬ (changed prev band).IsEmpty := by
  rintro ⟨hentered, hexited⟩
  simp only [changed, decide_eq_false_iff_not, gt_iff_lt, UInt32.not_lt] at hentered hexited
  exact h (UInt32.le_antisymm hentered hexited)

/-- Where a call is: before its load, between its load and its store, or behind them. -/
inductive CallPhase where
  | idle
  | called (band : UInt32)
  | loaded (band prev : UInt32)
  | returned (t : Transition)
  deriving DecidableEq

/-- `stores` has the calls that have stored, in that order, with what they return, and `changes`
the values that `current` had before and after each change. -/
structure State where
  current : UInt32 := 0
  calls : ℕ → CallPhase := fun _ => .idle
  stores : List (ℕ × Transition) := []
  changes : List (UInt32 × UInt32) := []

inductive Action where
  | observe (caller : ℕ) (band : UInt32)
  | load (caller : ℕ)
  | store (caller : ℕ)
  deriving DecidableEq

def State.setCall (s : State) (i : ℕ) (phase : CallPhase) : State :=
  { s with calls := Function.update s.calls i phase }

def step (s : State) : Action → Option State
  | .observe i band => match s.calls i with
    | .idle => some (s.setCall i (.called band))
    | _ => none
  | .load i => match s.calls i with
    | .called band =>
      if band = s.current then some (s.setCall i (.returned (steady band)))
      else some (s.setCall i (.loaded band s.current))
    | _ => none
  | .store i => match s.calls i with
    | .loaded band prev => some {
        current := band
        calls := Function.update s.calls i (.returned (changed prev band))
        stores := s.stores ++ [(i, changed prev band)]
        changes := if s.current = band then s.changes else s.changes ++ [(s.current, band)] }
    | _ => none

/-- The transitions that are not empty, in the order of their stores. -/
def State.reports (s : State) : List Transition := s.stores.map Prod.snd

/-- Each transition starts from the band in which the one before it ended. -/
def Chains : UInt32 → List Transition → Prop
  | _, [] => True
  | band, t :: ts => t.prev = band ∧ Chains t.band ts

/-- What the callers are promised. -/
structure Linked (s : State) : Prop where
  chain : Chains 0 s.reports
  /-- Each change of the band is reported once. -/
  once : (s.reports.map Transition.edge).Perm s.changes

/-- A store finds the band that its call has loaded. -/
def Undisturbed (s : State) : Action → Prop
  | .store i => ∀ band prev, s.calls i = .loaded band prev → s.current = prev
  | _ => True

/-- Whatever a step does, it is one of these. -/
inductive Moves (s : State) : Action → State → Prop
  | called {i : ℕ} {band : UInt32} (h : s.calls i = .idle) :
    Moves s (.observe i band) (s.setCall i (.called band))
  | found {i : ℕ} (h : s.calls i = .called s.current) :
    Moves s (.load i) (s.setCall i (.returned (steady s.current)))
  | loaded {i : ℕ} {band : UInt32} (h : s.calls i = .called band) (hne : band ≠ s.current) :
    Moves s (.load i) (s.setCall i (.loaded band s.current))
  | stored {i : ℕ} {band prev : UInt32} (h : s.calls i = .loaded band prev) :
    Moves s (.store i) {
      current := band
      calls := Function.update s.calls i (.returned (changed prev band))
      stores := s.stores ++ [(i, changed prev band)]
      changes := if s.current = band then s.changes else s.changes ++ [(s.current, band)] }

variable {s t : State} {a : Action}

theorem moves_of_step (h : step s a = some t) : Moves s a t := by
  cases a with
  | observe i band =>
    cases hcall : s.calls i with
    | idle =>
      simp only [step, hcall, Option.some.injEq] at h
      exact h ▸ .called hcall
    | called _ | loaded _ _ | returned _ => simp [step, hcall] at h
  | load i =>
    cases hcall : s.calls i with
    | called band =>
      simp only [step, hcall] at h
      split_ifs at h with hfound
      · subst hfound
        exact Option.some.inj h ▸ .found hcall
      · exact Option.some.inj h ▸ .loaded hcall hfound
    | idle | loaded _ _ | returned _ => simp [step, hcall] at h
  | store i =>
    cases hcall : s.calls i with
    | loaded band prev =>
      simp only [step, hcall, Option.some.injEq] at h
      exact h ▸ .stored hcall
    | idle | called _ | returned _ => simp [step, hcall] at h

/-- The band in which the transitions end. -/
def lastBand : UInt32 → List Transition → UInt32
  | band, [] => band
  | _, t :: ts => lastBand t.band ts

private theorem chains_snoc {band : UInt32} {ts : List Transition} {t : Transition} :
    Chains band (ts ++ [t]) ↔ Chains band ts ∧ t.prev = lastBand band ts := by
  induction ts generalizing band with
  | nil => simp [Chains, lastBand]
  | cons u ts ih => simp only [List.cons_append, Chains, lastBand, ih, and_assoc]

private theorem lastBand_snoc {band : UInt32} {ts : List Transition} {t : Transition} :
    lastBand band (ts ++ [t]) = t.band := by
  induction ts generalizing band with
  | nil => rfl
  | cons u ts ih => exact ih

/-- What holds in every run. -/
structure Inv (s : State) : Prop where
  current : s.current = lastBand 0 s.reports
  loaded : ∀ i band prev, s.calls i = .loaded band prev → band ≠ prev
  /-- The calls that have stored are those that return a transition which is not empty. -/
  reported : ∀ i t, (i, t) ∈ s.stores ↔ s.calls i = .returned t ∧ ¬ t.IsEmpty
  nodup : (s.stores.map Prod.fst).Nodup

theorem inv_start : Inv {} where
  current := rfl
  loaded := by simp
  reported := by simp
  nodup := List.nodup_nil

/-- A call that stores nothing reports nothing. -/
theorem Inv.setCall (hs : Inv s) {i : ℕ} {phase : CallPhase}
    (hold : ∀ t, s.calls i = .returned t → t.IsEmpty)
    (hloaded : ∀ band prev, phase = .loaded band prev → band ≠ prev)
    (hnew : ∀ t, phase = .returned t → t.IsEmpty) : Inv (s.setCall i phase) where
  current := hs.current
  loaded j band prev h := by
    by_cases hj : j = i
    · subst hj
      exact hloaded band prev (by simpa [State.setCall] using h)
    · exact hs.loaded j band prev (by simpa [State.setCall, hj] using h)
  reported j t := by
    change (j, t) ∈ s.stores ↔ _
    rw [hs.reported]
    by_cases hj : j = i
    · subst hj
      simp only [State.setCall, Function.update_self]
      exact ⟨fun h => absurd (hold t h.1) h.2, fun h => absurd (hnew t h.1) h.2⟩
    · simp [State.setCall, hj]
  nodup := hs.nodup

theorem inv_step (hs : Inv s) (h : step s a = some t) : Inv t := by
  cases moves_of_step h with
  | called hcall => exact hs.setCall (by simp [hcall]) (by simp) (by simp)
  | found hcall =>
    refine hs.setCall (by simp [hcall]) (by simp) fun t ht => ?_
    exact CallPhase.returned.inj ht ▸ steady_isEmpty _
  | loaded hcall hne =>
    refine hs.setCall (by simp [hcall]) (fun band prev heq => ?_) (by simp)
    obtain ⟨rfl, rfl⟩ := CallPhase.loaded.inj heq
    exact hne
  | @stored i band prev hcall =>
    have hnew (t : Transition) : (i, t) ∉ s.stores := fun hmem => by
      have hreturned := ((hs.reported i t).mp hmem).1
      rw [hcall] at hreturned
      cases hreturned
    refine ⟨by simp [State.reports, lastBand_snoc, changed], fun j band' prev' hj => ?_,
      fun j t => ?_, ?_⟩
    · by_cases hji : j = i
      · simp [hji] at hj
      · exact hs.loaded j band' prev' (by simpa [hji] using hj)
    · rw [List.mem_append, List.mem_singleton, Prod.mk.injEq]
      by_cases hji : j = i
      · subst hji
        have hne := changed_not_isEmpty (hs.loaded j band prev hcall)
        simp only [hnew t, false_or, true_and, Function.update_self, CallPhase.returned.injEq]
        exact ⟨fun heq => ⟨heq.symm, heq ▸ hne⟩, fun h => h.1.symm⟩
      · simp [hji, hs.reported]
    · rw [List.map_append, List.map_singleton, List.nodup_append]
      refine ⟨hs.nodup, List.pairwise_singleton _ i, fun j hj k hk heq => ?_⟩
      obtain ⟨⟨_, t⟩, hmem, rfl⟩ := List.mem_map.mp hj
      obtain rfl := List.mem_singleton.mp hk
      exact hnew t (heq ▸ hmem)

/-- A step keeps the promise exactly when it is not disturbed. -/
theorem linked_step (hs : Inv s) (h : step s a = some t) :
    Linked t ↔ Linked s ∧ Undisturbed s a := by
  cases moves_of_step h with
  | called | found | loaded =>
    exact ⟨fun hl => ⟨⟨hl.chain, hl.once⟩, trivial⟩, fun hl => ⟨hl.1.chain, hl.1.once⟩⟩
  | @stored i band prev hcall =>
    have hne := hs.loaded i band prev hcall
    have hcalm : Undisturbed s (.store i) ↔ s.current = prev := by
      simp [Undisturbed, hcall]
    have hchain : Chains 0 (s.reports ++ [changed prev band]) ↔
        Chains 0 s.reports ∧ s.current = prev := by
      rw [chains_snoc, ← hs.current]
      exact and_congr_right' eq_comm
    rw [hcalm]
    constructor
    · rintro ⟨htrans, honce⟩
      simp only [State.reports, List.map_append, List.map_singleton] at htrans honce
      obtain ⟨hold, rfl⟩ := hchain.mp htrans
      rw [if_neg hne.symm] at honce
      exact ⟨⟨hold, (List.perm_append_right_iff _).mp honce⟩, rfl⟩
    · rintro ⟨hl, rfl⟩
      refine ⟨?_, ?_⟩
      · simpa only [State.reports, List.map_append, List.map_singleton] using
          hchain.mpr ⟨hl.chain, rfl⟩
      · simp only [State.reports, List.map_append, List.map_singleton, if_neg hne.symm]
        exact hl.once.append_right _

/-- The transitions of calls that run at the same time chain, and each change is reported once,
exactly when each store finds the band that its call has loaded. -/
theorem linked_iff_undisturbed {es : List Action} (h : exec step {} es = some t) :
    Linked t ↔ Along step Undisturbed {} es := by
  have hrun := exec_iff_along (fun s e t hs h => inv_step hs h)
    (fun s e t hs h => linked_step hs h) h inv_start
  rwa [and_iff_right ⟨trivial, List.Perm.refl _⟩] at hrun

/-- A call that no other one comes between returns what `observe` does, and is not disturbed. -/
theorem exec_alone {i : ℕ} (hidle : s.calls i = .idle) (band : UInt32) :
    ∃ es t, exec step s (.observe i band :: .load i :: es) = some t ∧
      t.calls i = .returned (observe s.current band).1 ∧
      t.current = (observe s.current band).2 ∧
      Along step Undisturbed s (.observe i band :: .load i :: es) := by
  have hobserve : step s (.observe i band) = some (s.setCall i (.called band)) := by
    simp [step, hidle]
  by_cases hband : band = s.current
  · have hload : step (s.setCall i (.called band)) (.load i) =
        some ((s.setCall i (.called band)).setCall i (.returned (steady band))) := by
      simp [step, State.setCall, hband]
    refine ⟨[], _, exec_cons.mpr ⟨_, hobserve, exec_cons.mpr ⟨_, hload, rfl⟩⟩, ?_, ?_, ?_⟩
    · simp [State.setCall, observe, hband]
    · simp [State.setCall, observe, hband]
    · exact .cons hobserve trivial (.cons hload trivial trivial)
  · have hload : step (s.setCall i (.called band)) (.load i) =
        some ((s.setCall i (.called band)).setCall i (.loaded band s.current)) := by
      simp [step, State.setCall, hband]
    have hcalm : Undisturbed ((s.setCall i (.called band)).setCall i (.loaded band s.current))
        (.store i) := by
      simp [Undisturbed, State.setCall]
    obtain ⟨t, hstore, hcall, hcurrent⟩ :
        ∃ t, step ((s.setCall i (.called band)).setCall i (.loaded band s.current)) (.store i) =
          some t ∧ t.calls i = .returned (changed s.current band) ∧ t.current = band := by
      simp [step, State.setCall]
    refine ⟨[.store i], t, exec_cons.mpr ⟨_, hobserve, exec_cons.mpr ⟨_, hload,
      exec_cons.mpr ⟨t, hstore, rfl⟩⟩⟩, ?_, ?_, ?_⟩
    · simpa [observe, hband] using hcall
    · simpa [observe, hband] using hcurrent
    · exact .cons hobserve trivial (.cons hload trivial (.cons hstore hcalm trivial))

/-- Two calls, one after the other. -/
def twoBands : List Action :=
  [.observe 0 1, .load 0, .store 0, .observe 1 3, .load 1, .store 1]

theorem linked_iff_undisturbed_twoBands :
    (∃ t, exec step {} twoBands = some t ∧ (Linked t ↔ Along step Undisturbed {} twoBands)) ∧
      ∃ es t, exec step {} (.observe 0 1 :: .load 0 :: es) = some t ∧
        t.calls 0 = .returned (observe 0 1).1 ∧ Linked t := by
  obtain ⟨es, t, hrun, hcall, -, hcalm⟩ := exec_alone (s := {}) (i := 0) rfl 1
  exact ⟨⟨_, rfl, linked_iff_undisturbed rfl⟩, es, t, hrun, hcall,
    (linked_iff_undisturbed hrun).mpr hcalm⟩

/-- Two calls that see the same change enter the band from the same one. -/
def bothEnter : List Action :=
  [.observe 0 1, .observe 1 1, .load 0, .load 1, .store 0, .store 1]

theorem change_reported_twice : ∃ t, exec step {} bothEnter = some t ∧ t.changes = [(0, 1)] ∧
    t.reports = [changed 0 1, changed 0 1] ∧ ¬ Linked t := by
  refine ⟨_, rfl, rfl, rfl, fun h => ?_⟩
  have hprev : (0 : UInt32) = 1 := h.chain.2.1
  exact absurd hprev (by decide)

end Statnive.AlertBands
