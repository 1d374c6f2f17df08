import Mathlib.Data.List.Basic
import Mathlib.Data.List.Nodup
import Mathlib.Tactic.Common
import Statnive.LabelledRuns

/-!
# Operations that seem to happen at once

The operations of an object take several atomic steps each, with those of others in between. The
object is linearizable if there is an order of the operations that agrees with what each of them
answers when they are done one after the other, and in which what had returned before another
one was called comes first. This holds where the last step of an operation does all of its work.
-/

namespace Statnive.Linearizability

open LabelledRuns

variable {σ ω ι ρ ε α : Type*}

/-- Operation `i` is called, does its work, or returns. -/
inductive Event (ω ρ : Type*) where
  | call (i : ℕ) (op : ω)
  | point (i : ℕ) (op : ω) (r : ρ)
  | ret (i : ℕ) (r : ρ)
  deriving DecidableEq

def Event.id : Event ω ρ → ℕ
  | .call i _ | .point i _ _ | .ret i _ => i

/-- What the callers see. -/
def Event.seen : Event ω ρ → Bool
  | .point _ _ _ => false
  | _ => true

def Event.point? : Event ω ρ → Option (ℕ × ω × ρ)
  | .point i op r => some (i, op, r)
  | _ => none

def points (h : List (Event ω ρ)) : List (ℕ × ω × ρ) := h.filterMap Event.point?

def ofCall (i : ℕ) (h : List (Event ω ρ)) : List (Event ω ρ) := h.filter (fun e => e.id = i)

/-- Operations that are done one after the other. -/
inductive Runs (spec : α → ω → ρ → α → Prop) (a : α) : List (ℕ × ω × ρ) → α → Prop
  | nil : Runs spec a [] a
  | snoc {done : List (ℕ × ω × ρ)} {b c : α} {i : ℕ} {op : ω} {r : ρ} (before : Runs spec a done b)
      (last : spec b op r c) : Runs spec a (done ++ [(i, op, r)]) c

/-- `order` explains the history, with `b` as the state at its end. -/
structure Explains (spec : α → ω → ρ → α → Prop) (a : α) (h : List (Event ω ρ))
    (order : List (ℕ × ω × ρ)) (b : α) : Prop where
  runs : Runs spec a order b
  once : (order.map Prod.fst).Nodup
  called : ∀ e ∈ order, .call e.1 e.2.1 ∈ h
  respects : ∀ h₁ h₂, h = h₁ ++ h₂ → ∃ order₁ order₂, order = order₁ ++ order₂ ∧
    (∀ i r, .ret i r ∈ h₁ → ∃ op, (i, op, r) ∈ order₁) ∧
    ∀ i op, .call i op ∈ h₂ → ∀ e ∈ order₁, e.1 ≠ i

def Linearizable (spec : α → ω → ρ → α → Prop) (a : α) (h : List (Event ω ρ)) : Prop :=
  ∃ order b, Explains spec a h order b

/-- How far operation `i` has got. -/
inductive Progress (i : ℕ) : List (Event ω ρ) → Prop
  | uncalled : Progress i []
  | called (op : ω) : Progress i [.call i op]
  | worked (op : ω) (r : ρ) : Progress i [.call i op, .point i op r]
  | returned (op : ω) (r : ρ) : Progress i [.call i op, .point i op r, .ret i r]

def Pointed (h : List (Event ω ρ)) : Prop := ∀ i, Progress i (ofCall i h)

variable {h h₁ h₂ : List (Event ω ρ)} {i : ℕ} {op : ω} {r : ρ}

@[simp] theorem ofCall_append (i : ℕ) (h₁ h₂ : List (Event ω ρ)) :
    ofCall i (h₁ ++ h₂) = ofCall i h₁ ++ ofCall i h₂ := List.filter_append ..

@[simp] theorem points_append (h₁ h₂ : List (Event ω ρ)) :
    points (h₁ ++ h₂) = points h₁ ++ points h₂ := List.filterMap_append

@[simp] theorem points_nil : points ([] : List (Event ω ρ)) = [] := rfl

@[simp] theorem points_call (i : ℕ) (op : ω) (h : List (Event ω ρ)) :
    points (.call i op :: h) = points h := rfl

@[simp] theorem points_point (i : ℕ) (op : ω) (r : ρ) (h : List (Event ω ρ)) :
    points (.point i op r :: h) = (i, op, r) :: points h := rfl

@[simp] theorem points_ret (i : ℕ) (r : ρ) (h : List (Event ω ρ)) :
    points (.ret i r :: h) = points h := rfl

theorem mem_points : (i, op, r) ∈ points h ↔ .point i op r ∈ h := by
  simp only [points, List.mem_filterMap]
  constructor
  · rintro ⟨e, he, hpoint⟩
    cases e with
    | point j op' r' =>
      obtain ⟨rfl, rfl, rfl⟩ := by simpa [Event.point?] using hpoint
      exact he
    | _ => simp [Event.point?] at hpoint
  · exact fun hmem => ⟨_, hmem, rfl⟩

theorem mem_ofCall {e : Event ω ρ} : e ∈ ofCall i h ↔ e ∈ h ∧ e.id = i := by simp [ofCall]

/-- A return stands behind its point. -/
theorem Pointed.point_of_ret (hpointed : Pointed (h₁ ++ h₂)) (hret : .ret i r ∈ h₁) :
    ∃ op, .point i op r ∈ h₁ := by
  have hmem : .ret i r ∈ ofCall i h₁ := mem_ofCall.mpr ⟨hret, rfl⟩
  have hprogress := hpointed i
  rw [ofCall_append] at hprogress
  have hpoint : ∃ op, .point i op r ∈ ofCall i h₁ := by
    generalize ofCall i h₁ = g₁ at *
    generalize ofCall i h₂ = g₂ at *
    generalize hg : g₁ ++ g₂ = g at hprogress
    cases hprogress with
    | uncalled => simp_all
    | called op =>
      have := hg ▸ List.mem_append_left g₂ hmem
      simp at this
    | worked op r' =>
      have := hg ▸ List.mem_append_left g₂ hmem
      simp at this
    | returned op r' =>
      obtain rfl : r = r' := by
        have := hg ▸ List.mem_append_left g₂ hmem
        simpa using this
      match g₁, hmem with
      | [_], hmem => simp_all
      | [_, _], hmem => simp_all
      | _ :: e :: _ :: _, _ =>
        simp only [List.cons_append, List.cons.injEq] at hg
        exact ⟨op, by simp [hg.2.1]⟩
  obtain ⟨op, hpoint⟩ := hpoint
  exact ⟨op, (mem_ofCall.mp hpoint).1⟩

/-- Nothing of an operation stands before its call. -/
theorem Pointed.nil_of_call (hpointed : Pointed (h₁ ++ h₂)) (hcall : .call i op ∈ h₂) :
    ofCall i h₁ = [] := by
  have hmem : .call i op ∈ ofCall i h₂ := mem_ofCall.mpr ⟨hcall, rfl⟩
  have hprogress := hpointed i
  rw [ofCall_append] at hprogress
  generalize ofCall i h₁ = g₁ at *
  generalize ofCall i h₂ = g₂ at *
  cases g₁ with
  | nil => rfl
  | cons e g₁ =>
    have htail : ∀ e' ∈ g₁ ++ g₂, ∀ op', e' ≠ .call i op' := by
      rw [List.cons_append] at hprogress
      generalize g₁ ++ g₂ = tail at hprogress
      cases hprogress <;> simp
    exact absurd rfl (htail _ (List.mem_append_right _ hmem) op)

theorem Pointed.call_of_point (hpointed : Pointed h) (hpoint : .point i op r ∈ h) :
    .call i op ∈ h := by
  have hmem : .point i op r ∈ ofCall i h := mem_ofCall.mpr ⟨hpoint, rfl⟩
  have hprogress := hpointed i
  have hcall : .call i op ∈ ofCall i h := by
    generalize ofCall i h = g at *
    cases hprogress <;> simp_all
  exact (mem_ofCall.mp hcall).1

private theorem points_ofCall (i : ℕ) (h : List (Event ω ρ)) :
    points (ofCall i h) = (points h).filter (fun e => e.1 = i) := by
  induction h with
  | nil => rfl
  | cons e h ih =>
    have hcons : ofCall i (e :: h) = if e.id = i then e :: ofCall i h else ofCall i h := by
      simp [ofCall, List.filter_cons]
    rw [hcons]
    cases e with
    | call j op | ret j r => split <;> simpa using ih
    | point j op r =>
      by_cases hj : j = i
      · simpa [Event.id, hj] using ih
      · simpa [Event.id, hj] using ih

theorem Pointed.once (hpointed : Pointed h) : ((points h).map Prod.fst).Nodup := by
  rw [List.nodup_iff_count_le_one]
  intro i
  have hcount : ((points h).map Prod.fst).count i = (points (ofCall i h)).length := by
    rw [points_ofCall, List.count, List.countP_map, List.countP_eq_length_filter]
    congr 2
  rw [hcount]
  have hprogress := hpointed i
  generalize ofCall i h = g at *
  cases hprogress <;> simp

/-- The order of the points explains what is seen. -/
theorem Pointed.explains {spec : α → ω → ρ → α → Prop} {a b : α} (hpointed : Pointed h)
    (hruns : Runs spec a (points h) b) : Explains spec a (h.filter Event.seen) (points h) b where
  runs := hruns
  once := hpointed.once
  called e he := List.mem_filter.mpr ⟨hpointed.call_of_point (mem_points.mp he), rfl⟩
  respects h₁ h₂ hsplit := by
    obtain ⟨g₁, g₂, rfl, rfl, rfl⟩ := List.filter_eq_append_iff.mp hsplit
    refine ⟨points g₁, points g₂, points_append g₁ g₂, fun i r hret => ?_,
      fun i op hcall e he => ?_⟩
    · obtain ⟨op, hpoint⟩ := hpointed.point_of_ret (List.mem_of_mem_filter hret)
      exact ⟨op, mem_points.mpr hpoint⟩
    · rintro rfl
      have hnone := hpointed.nil_of_call (List.mem_of_mem_filter hcall)
      have hpoint : .point e.1 e.2.1 e.2.2 ∈ ofCall e.1 g₁ :=
        mem_ofCall.mpr ⟨mem_points.mp he, rfl⟩
      simp [hnone] at hpoint

/-- An operation starts with what `begin` says and takes its atomic steps, each with an outcome
of the environment, until one of them answers. -/
structure Object (σ ω ι ρ ε : Type*) where
  begin : ω → ι
  enabled : ε → σ → Bool
  step : ε → σ → ι → σ × (ι ⊕ ρ)

inductive Call (ω ι ρ : Type*) where
  | running (op : ω) (x : ι)
  | answered (op : ω) (r : ρ)
  | returned (op : ω) (r : ρ)

structure State (σ ω ι ρ : Type*) where
  shared : σ
  calls : List (Call ω ι ρ) := []
  history : List (Event ω ρ) := []

inductive Action (ω ε : Type*) where
  | invoke (op : ω)
  | proceed (i : ℕ) (env : ε)
  | ret (i : ℕ)

variable {O : Object σ ω ι ρ ε}

def proceed (O : Object σ ω ι ρ ε) (s : State σ ω ι ρ) (i : ℕ) (env : ε) (op : ω) (x : ι) :
    State σ ω ι ρ :=
  match O.step env s.shared x with
  | (shared, .inl y) => { s with shared := shared, calls := s.calls.set i (.running op y) }
  | (shared, .inr r) => { s with
      shared := shared
      calls := s.calls.set i (.answered op r)
      history := s.history ++ [.point i op r] }

def step (O : Object σ ω ι ρ ε) (s : State σ ω ι ρ) : Action ω ε → Option (State σ ω ι ρ)
  | .invoke op => some { s with
      calls := s.calls ++ [.running op (O.begin op)]
      history := s.history ++ [.call s.calls.length op] }
  | .proceed i env => match s.calls[i]? with
    | some (.running op x) =>
      if O.enabled env s.shared then some (proceed O s i env op x) else none
    | _ => none
  | .ret i => match s.calls[i]? with
    | some (.answered op r) => some { s with
        calls := s.calls.set i (.returned op r)
        history := s.history ++ [.ret i r] }
    | _ => none

/-- What the callers see of a run. -/
def State.seen (s : State σ ω ι ρ) : List (Event ω ρ) := s.history.filter Event.seen

/-- Every operation does its work in the step that answers. `holds` is what it knows before. -/
structure AtLastStep (O : Object σ ω ι ρ ε) (spec : α → ω → ρ → α → Prop) where
  abs : σ → α
  inv : σ → Prop
  holds : ω → ι → Prop
  begins : ∀ op, holds op (O.begin op)
  goesOn : ∀ env s op x t y, inv s → holds op x → O.enabled env s = true →
    O.step env s x = (t, .inl y) → inv t ∧ holds op y ∧ abs t = abs s
  answers : ∀ env s op x t r, inv s → holds op x → O.enabled env s = true →
    O.step env s x = (t, .inr r) → inv t ∧ spec (abs s) op r (abs t)

/-- The events of operation `i`. -/
def Call.events (i : ℕ) : Call ω ι ρ → List (Event ω ρ)
  | .running op _ => [.call i op]
  | .answered op r => [.call i op, .point i op r]
  | .returned op r => [.call i op, .point i op r, .ret i r]

structure Inv {spec : α → ω → ρ → α → Prop} (L : AtLastStep O spec) (a : α)
    (s : State σ ω ι ρ) : Prop where
  shared : L.inv s.shared
  events : ∀ i, ofCall i s.history = (s.calls[i]?).elim [] (Call.events i)
  holds : ∀ op x, .running op x ∈ s.calls → L.holds op x
  runs : Runs spec a (points s.history) (L.abs s.shared)

variable {spec : α → ω → ρ → α → Prop} {L : AtLastStep O spec} {a : α} {s t : State σ ω ι ρ}

theorem Inv.pointed (h : Inv L a s) : Pointed s.history := by
  intro i
  rw [h.events i]
  cases s.calls[i]? with
  | none => exact .uncalled
  | some c => cases c with
    | running op x => exact .called op
    | answered op r => exact .worked op r
    | returned op r => exact .returned op r

/-- The event that is added is the next one of its operation. -/
theorem events_set {i : ℕ} {c d : Call ω ι ρ} {added : List (Event ω ρ)}
    (h : ∀ j, ofCall j s.history = (s.calls[j]?).elim [] (Call.events j))
    (hcall : s.calls[i]? = some c) (hadded : ∀ e ∈ added, e.id = i)
    (hnext : d.events i = c.events i ++ added) (j : ℕ) :
    ofCall j (s.history ++ added) = ((s.calls.set i d)[j]?).elim [] (Call.events j) := by
  have hi : i < s.calls.length := (List.getElem?_eq_some_iff.mp hcall).1
  rw [ofCall_append, h j]
  by_cases hij : i = j
  · subst hij
    have hall : ofCall i added = added :=
      List.filter_eq_self.mpr fun e he => by simpa using hadded e he
    rw [hall, hcall, List.getElem?_set_self hi]
    exact hnext.symm
  · have hnone : ofCall j added = [] :=
      List.filter_eq_nil_iff.mpr fun e he => by simpa [hadded e he] using hij
    rw [hnone, List.append_nil, List.getElem?_set_ne hij]

theorem inv_proceed (h : Inv L a s) {i : ℕ} {env : ε} {op : ω} {x : ι}
    (hcall : s.calls[i]? = some (.running op x)) (henabled : O.enabled env s.shared = true) :
    Inv L a (proceed O s i env op x) := by
  have hknows := h.holds op x (List.mem_of_getElem? hcall)
  have hothers {c : Call ω ι ρ} (op' : ω) (x' : ι) (hc : c = .running op' x' → L.holds op' x')
      (hmem : .running op' x' ∈ s.calls.set i c) : L.holds op' x' := by
    rcases List.mem_or_eq_of_mem_set hmem with hmem | heq
    · exact h.holds op' x' hmem
    · exact hc heq.symm
  cases hstep : O.step env s.shared x with
  | mk shared next =>
    cases next with
    | inl y =>
      obtain ⟨hinv, hy, habs⟩ := L.goesOn env s.shared op x shared y h.shared hknows henabled hstep
      simp only [proceed, hstep]
      refine ⟨hinv, fun j => ?_, fun op' x' => hothers op' x' fun heq => ?_, habs ▸ h.runs⟩
      · have hnone : ∀ e ∈ ([] : List (Event ω ρ)), e.id = i := by simp
        have hsame : Call.events i (.running op y : Call ω ι ρ) =
            Call.events i (.running op x : Call ω ι ρ) ++ [] := rfl
        have hset := events_set h.events hcall hnone hsame j
        rwa [List.append_nil] at hset
      · obtain ⟨rfl, rfl⟩ := Call.running.inj heq
        exact hy
    | inr r =>
      obtain ⟨hinv, hspec⟩ := L.answers env s.shared op x shared r h.shared hknows henabled hstep
      simp only [proceed, hstep]
      refine ⟨hinv, events_set h.events hcall (by simp [Event.id]) rfl,
        fun op' x' => hothers op' x' (fun heq => by cases heq), ?_⟩
      rw [points_append]
      exact .snoc h.runs hspec

theorem inv_step (h : Inv L a s) {act : Action ω ε} (hstep : step O s act = some t) :
    Inv L a t := by
  cases act with
  | invoke op =>
    obtain rfl := Option.some.inj hstep
    refine ⟨h.shared, fun i => ?_, fun op' x hmem => ?_, ?_⟩
    · rw [ofCall_append, h.events i]
      rcases Nat.lt_trichotomy i s.calls.length with hi | rfl | hi
      · have hother : ofCall i [(Event.call s.calls.length op : Event ω ρ)] = [] := by
          simp [ofCall, Event.id, Nat.ne_of_gt hi]
        rw [hother, List.append_nil, List.getElem?_append_left hi]
      · simp [ofCall, Event.id, Call.events]
      · have hother : ofCall i [(Event.call s.calls.length op : Event ω ρ)] = [] := by
          simp [ofCall, Event.id, Nat.ne_of_lt hi]
        rw [hother, List.append_nil, List.getElem?_eq_none (Nat.le_of_lt hi),
          List.getElem?_eq_none (by simpa using Nat.succ_le_of_lt hi)]
    · rcases List.mem_append.mp hmem with hmem | hmem
      · exact h.holds op' x hmem
      · obtain ⟨rfl, rfl⟩ := Call.running.inj (List.mem_singleton.mp hmem)
        exact L.begins op'
    · rw [points_append]
      simpa using h.runs
  | proceed i env =>
    simp only [step] at hstep
    split at hstep
    · next op x hcall =>
      split_ifs at hstep with henabled
      obtain rfl := Option.some.inj hstep
      exact inv_proceed h hcall henabled
    · cases hstep
  | ret i =>
    simp only [step] at hstep
    split at hstep
    · next op r hcall =>
      obtain rfl := Option.some.inj hstep
      refine ⟨h.shared, events_set h.events hcall (by simp [Event.id]) rfl,
        fun op' x hmem => ?_, ?_⟩
      · rcases List.mem_or_eq_of_mem_set hmem with hmem | heq
        · exact h.holds op' x hmem
        · cases heq
      · rw [points_append]
        simpa using h.runs
    · cases hstep

/-- Every run of the object can be explained by its operations one after the other. -/
theorem AtLastStep.linearizable (L : AtLastStep O spec) {shared : σ} (hshared : L.inv shared)
    {acts : List (Action ω ε)} (hrun : exec (step O) { shared := shared } acts = some t) :
    Linearizable spec (L.abs shared) t.seen := by
  have hstart : Inv L (L.abs shared) { shared := shared } :=
    ⟨hshared, fun i => by simp [ofCall], fun op x hmem => (List.not_mem_nil hmem).elim, .nil⟩
  have hinv := exec_invariant (fun s act t h hstep => inv_step h hstep) hrun hstart
  exact ⟨points t.history, L.abs t.shared, hinv.pointed.explains hinv.runs⟩

end Statnive.Linearizability
