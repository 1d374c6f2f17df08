import Mathlib.Data.Fintype.Card
import Statnive.LabelledRuns

/-!
# Cascades of effects

Effects read signals, and each run of one assigns at most one signal. An effect is pending once
a signal that its last run has read is assigned, and pending effects run in any order until none
is left.
-/

namespace Statnive.EffectCascade

open LabelledRuns

variable {ι X σ : Type*}

/-- The signals that a run of an effect reads, and the signal it assigns with the state after
that, if it assigns one. -/
structure Effects (ι X σ : Type*) where
  reads : ι → σ → Finset X
  body : ι → σ → Option (X × σ)

structure Board (ι X σ : Type*) where
  state : σ
  pending : Finset ι
  /-- The signals that the last run of an effect has read. -/
  subs : ι → Finset X

variable (E : Effects ι X σ)

/-- A board on which every effect has run in the state `s`. -/
def fresh (s : σ) : Board ι X σ := ⟨s, ∅, fun i => E.reads i s⟩

/-- What effects may rely on: a run that assigns a signal has read it, and a signal that a run
does not read bears neither on what it reads nor on whether it assigns. -/
structure Lawful (changes : X → σ → σ → Prop) : Prop where
  assigned : ∀ i s x s', E.body i s = some (x, s') → x ∈ E.reads i s ∧ changes x s s'
  unread : ∀ i s x s', changes x s s' → x ∉ E.reads i s →
    E.reads i s' = E.reads i s ∧ (E.body i s = none → E.body i s' = none)

/-- An effect that is not pending would assign nothing. -/
def Coherent (b : Board ι X σ) : Prop :=
  ∀ i, i ∉ b.pending → E.body i b.state = none ∧ b.subs i = E.reads i b.state

theorem coherent_fresh {s : σ} (h : ∀ i, E.body i s = none) : Coherent E (fresh E s) :=
  fun i _ => ⟨h i, rfl⟩

variable [Fintype ι] [DecidableEq ι] [DecidableEq X]

def Board.assign (x : X) (s : σ) (b : Board ι X σ) : Board ι X σ :=
  { b with
    state := s
    pending := b.pending ∪ Finset.univ.filter fun i => x ∈ b.subs i }

def run (i : ι) (b : Board ι X σ) : Board ι X σ :=
  let b' : Board ι X σ :=
    { b with
      pending := b.pending.erase i
      subs := Function.update b.subs i (E.reads i b.state) }
  match E.body i b.state with
  | some (x, s) => b'.assign x s
  | none => b'

def runPending (b : Board ι X σ) (i : ι) : Option (Board ι X σ) :=
  if i ∈ b.pending then some (run E i b) else none

/-- The board after the effects have run in the order `is`, with none left. -/
def settle (b : Board ι X σ) (is : List ι) : Option (Board ι X σ) :=
  (exec (runPending E) b is).filter fun c => c.pending = ∅

variable {E} {changes : X → σ → σ → Prop} {b c : Board ι X σ} {i : ι} {is : List ι}

theorem coherent_assign (hE : Lawful E changes) {x : X} {s : σ} (hs : changes x b.state s)
    (hb : Coherent E b) : Coherent E (b.assign x s) := by
  intro i hi
  simp only [Board.assign, Finset.mem_union, Finset.mem_filter, Finset.mem_univ, true_and,
    not_or] at hi
  obtain ⟨hbody, hsubs⟩ := hb i hi.1
  obtain ⟨hreads, hnone⟩ := hE.unread i b.state x s hs (hsubs ▸ hi.2)
  exact ⟨hnone hbody, hsubs.trans hreads.symm⟩

private theorem coherent_run (hE : Lawful E changes) (i : ι) (hb : Coherent E b) :
    Coherent E (run E i b) := by
  intro j hj
  rw [run] at hj ⊢
  cases hbody : E.body i b.state with
  | none =>
    rw [hbody] at hj
    by_cases hji : j = i
    · subst hji
      exact ⟨hbody, Function.update_self ..⟩
    · have hpending : j ∉ b.pending := fun hmem => hj (Finset.mem_erase.mpr ⟨hji, hmem⟩)
      obtain ⟨hnone, hsubs⟩ := hb j hpending
      exact ⟨hnone, (Function.update_of_ne hji _ _).trans hsubs⟩
  | some assigned =>
    obtain ⟨x, s⟩ := assigned
    rw [hbody] at hj
    obtain ⟨hread, hchange⟩ := hE.assigned i b.state x s hbody
    simp only [Board.assign, Finset.mem_union, Finset.mem_filter, Finset.mem_univ, true_and,
      not_or] at hj
    by_cases hji : j = i
    · subst hji
      rw [Function.update_self] at hj
      exact absurd hread hj.2
    · rw [Function.update_of_ne hji] at hj
      have hpending : j ∉ b.pending := fun hmem => hj.1 (Finset.mem_erase.mpr ⟨hji, hmem⟩)
      obtain ⟨hnone, hsubs⟩ := hb j hpending
      obtain ⟨hreads, hstill⟩ := hE.unread j b.state x s hchange (hsubs ▸ hj.2)
      exact ⟨hstill hnone, (Function.update_of_ne hji _ _).trans (hsubs.trans hreads.symm)⟩

theorem runPending_eq_some : runPending E b i = some c ↔ i ∈ b.pending ∧ run E i b = c := by
  simp [runPending]

theorem settle_eq_some : settle E b is = some c ↔ exec (runPending E) b is = some c ∧ c.pending = ∅ := by
  simp [settle, Option.filter_eq_some_iff]

theorem coherent_settle (hE : Lawful E changes) (h : settle E b is = some c)
    (hb : Coherent E b) : Coherent E c := by
  refine exec_invariant (I := Coherent E) ?_ (settle_eq_some.mp h).1 hb
  intro b i c hb hstep
  obtain ⟨-, rfl⟩ := runPending_eq_some.mp hstep
  exact coherent_run hE i hb

private theorem state_run (i : ι) (b : Board ι X σ) :
    (run E i b).state = b.state ∨ ∃ x, E.body i b.state = some (x, (run E i b).state) := by
  rw [run]
  cases hbody : E.body i b.state with
  | none => exact .inl rfl
  | some assigned => exact .inr ⟨assigned.1, rfl⟩

/-- What every body keeps of the state, the cascade keeps. -/
theorem state_settle {I : σ → Prop}
    (hI : ∀ i s x s', E.body i s = some (x, s') → I s → I s')
    (h : settle E b is = some c) (hb : I b.state) : I c.state := by
  refine exec_invariant (I := fun b => I b.state) ?_ (settle_eq_some.mp h).1 hb
  intro b i c hb hstep
  obtain ⟨-, rfl⟩ := runPending_eq_some.mp hstep
  rcases state_run (E := E) i b with hsame | ⟨x, hbody⟩
  · exact hsame ▸ hb
  · exact hI i b.state x _ hbody hb

/-- The runs left, at most, where every assignment lowers `rank`. -/
def bound (rank : σ → ℕ) (b : Board ι X σ) : ℕ :=
  rank b.state * (Fintype.card ι + 1) + b.pending.card

variable {rank : σ → ℕ}

theorem bound_run (hrank : ∀ i s x s', E.body i s = some (x, s') → rank s' < rank s)
    (hi : i ∈ b.pending) : bound rank (run E i b) < bound rank b := by
  have herase := Finset.card_erase_lt_of_mem hi
  rw [run, bound, bound]
  cases hbody : E.body i b.state with
  | none => exact Nat.add_lt_add_left herase _
  | some assigned =>
    obtain ⟨x, s⟩ := assigned
    have hlower := hrank i b.state x s hbody
    have hcard : (b.pending.erase i ∪ Finset.univ.filter fun j =>
        x ∈ Function.update b.subs i (E.reads i b.state) j).card ≤ Fintype.card ι :=
      Finset.card_le_univ _
    have hscale := Nat.mul_le_mul_right (Fintype.card ι + 1) hlower
    rw [Nat.succ_mul] at hscale
    simp only [Board.assign]
    omega

theorem length_le_bound (hrank : ∀ i s x s', E.body i s = some (x, s') → rank s' < rank s)
    (h : exec (runPending E) b is = some c) : is.length ≤ bound rank b := by
  induction is generalizing b with
  | nil => exact Nat.zero_le _
  | cons i is ih =>
    obtain ⟨d, hstep, hrest⟩ := exec_cons.mp h
    obtain ⟨hi, rfl⟩ := runPending_eq_some.mp hstep
    have hlt := bound_run hrank hi
    have hle := ih hrest
    rw [List.length_cons]
    omega

/-- The effects can always be run until none is pending. -/
theorem exists_settle (hrank : ∀ i s x s', E.body i s = some (x, s') → rank s' < rank s)
    (b : Board ι X σ) : ∃ is c, settle E b is = some c := by
  induction hn : bound rank b using Nat.strong_induction_on generalizing b with
  | _ n ih =>
    rcases b.pending.eq_empty_or_nonempty with hnone | ⟨i, hi⟩
    · exact ⟨[], b, settle_eq_some.mpr ⟨rfl, hnone⟩⟩
    · obtain ⟨is, c, hsettle⟩ := ih _ (hn ▸ bound_run hrank hi) (run E i b) rfl
      obtain ⟨hexec, hempty⟩ := settle_eq_some.mp hsettle
      have hstep : runPending E b i = some (run E i b) := runPending_eq_some.mpr ⟨hi, rfl⟩
      exact ⟨i :: is, c, settle_eq_some.mpr ⟨exec_cons.mpr ⟨_, hstep, hexec⟩, hempty⟩⟩

end Statnive.EffectCascade
