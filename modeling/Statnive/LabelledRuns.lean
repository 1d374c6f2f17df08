import Mathlib.Data.List.Basic
import Mathlib.Order.Basic

/-!
# Runs of a partial labelled transition function

A system is a function `step : σ → ε → Option σ`. Every choice of the environment
(a message, a failure, the branch a select takes) is part of the label, so a finite
run is determined by its labels and can be evaluated. An invariant is proved once
for one step and carried to every run here.
-/

namespace Statnive.LabelledRuns

variable {σ ε : Type*}

/-- The state after the labels `es`, or `none` when one of them is not enabled. -/
def exec (step : σ → ε → Option σ) : σ → List ε → Option σ
  | s, [] => some s
  | s, e :: es => (step s e).bind (fun t => exec step t es)

/-- Every step that the labels `es` take from `s` meets `P`. -/
def Along (step : σ → ε → Option σ) (P : σ → ε → Prop) : σ → List ε → Prop
  | _, [] => True
  | s, e :: es => P s e ∧ ∀ t, step s e = some t → Along step P t es

variable {step : σ → ε → Option σ}

instance decidableAlong (P : σ → ε → Prop) [∀ s e, Decidable (P s e)] :
    (s : σ) → (es : List ε) → Decidable (Along step P s es)
  | _, [] => .isTrue trivial
  | s, e :: es =>
    match h : step s e with
    | none => decidable_of_iff (P s e) (by simp [Along, h])
    | some t =>
      have := decidableAlong P t es
      decidable_of_iff (P s e ∧ Along step P t es) (by simp [Along, h])

@[simp] theorem exec_nil (s : σ) : exec step s [] = some s := rfl

theorem exec_cons {s t : σ} {e : ε} {es : List ε} :
    exec step s (e :: es) = some t ↔ ∃ u, step s e = some u ∧ exec step u es = some t := by
  simp [exec, Option.bind_eq_some_iff]

theorem exec_append {s t : σ} {es fs : List ε} : exec step s (es ++ fs) = some t ↔
    ∃ u, exec step s es = some u ∧ exec step u fs = some t := by
  induction es generalizing s with
  | nil => simp
  | cons e es ih =>
    simp only [List.cons_append, exec_cons, ih]
    constructor
    · rintro ⟨u, hu, v, hv, ht⟩
      exact ⟨v, ⟨u, hu, hv⟩, ht⟩
    · rintro ⟨v, ⟨u, hu, hv⟩, ht⟩
      exact ⟨u, hu, v, hv, ht⟩

/-- An invariant of one step holds after every run. -/
theorem exec_invariant {I : σ → Prop} (hstep : ∀ s e t, I s → step s e = some t → I t)
    {s t : σ} {es : List ε} (h : exec step s es = some t) (hs : I s) : I t := by
  induction es generalizing s with
  | nil => exact Option.some.inj h ▸ hs
  | cons e es ih =>
    obtain ⟨u, hu, ht⟩ := exec_cons.mp h
    exact ih ht (hstep s e u hs hu)

/-- An invariant kept by the labels that meet `A` holds after a run of such labels. -/
theorem exec_invariant_of {I : σ → Prop} {A : ε → Prop}
    (hstep : ∀ s e t, I s → A e → step s e = some t → I t) {s t : σ} {es : List ε}
    (hA : ∀ e ∈ es, A e) (h : exec step s es = some t) (hs : I s) : I t := by
  induction es generalizing s with
  | nil => exact Option.some.inj h ▸ hs
  | cons e es ih =>
    obtain ⟨u, hu, ht⟩ := exec_cons.mp h
    obtain ⟨hAe, hrest⟩ := List.forall_mem_cons.mp hA
    exact ih hrest ht (hstep s e u hs hAe hu)

/-- An invariant kept by the steps that meet `P` holds after a run of such steps. -/
theorem exec_guarded {I : σ → Prop} {P : σ → ε → Prop}
    (hstep : ∀ s e t, I s → P s e → step s e = some t → I t)
    {s t : σ} {es : List ε} (hP : Along step P s es) (h : exec step s es = some t)
    (hs : I s) : I t := by
  induction es generalizing s with
  | nil => exact Option.some.inj h ▸ hs
  | cons e es ih =>
    obtain ⟨u, hu, ht⟩ := exec_cons.mp h
    exact ih (hP.2 u hu) ht (hstep s e u hs hP.1 hu)

/-- What holds after a run held before it, or a step of the run brought it about. -/
theorem exec_origin {I : σ → Prop} {P : σ → ε → Prop}
    (hstep : ∀ s e t, step s e = some t → I t → I s ∨ P s e) {s t : σ} {es : List ε}
    (h : exec step s es = some t) (ht : I t) :
    I s ∨ ∃ pre e post u, es = pre ++ e :: post ∧ exec step s pre = some u ∧ P u e := by
  induction es generalizing s with
  | nil => exact .inl (Option.some.inj h ▸ ht)
  | cons e es ih =>
    obtain ⟨u, hu, hrun⟩ := exec_cons.mp h
    rcases ih hrun with hI | ⟨pre, e', post, v, rfl, hpre, hP⟩
    · exact (hstep s e u hu hI).imp_right fun hP => ⟨[], e, es, s, rfl, rfl, hP⟩
    · exact .inr ⟨e :: pre, e', post, v, rfl, exec_cons.mpr ⟨u, hu, hpre⟩, hP⟩

theorem Along.cons {P : σ → ε → Prop} {s t : σ} {e : ε} {es : List ε} (hstep : step s e = some t)
    (hP : P s e) (h : Along step P t es) : Along step P s (e :: es) := by
  refine ⟨hP, fun u hu => ?_⟩
  obtain rfl : t = u := Option.some.inj (hstep.symm.trans hu)
  exact h

theorem along_append {P : σ → ε → Prop} {s : σ} {es fs : List ε} :
    Along step P s (es ++ fs) ↔
      Along step P s es ∧ ∀ t, exec step s es = some t → Along step P t fs := by
  induction es generalizing s with
  | nil => simp [Along]
  | cons e es ih =>
    simp only [List.cons_append, Along, ih, exec_cons]
    constructor
    · rintro ⟨hP, h⟩
      exact ⟨⟨hP, fun t ht => (h t ht).1⟩, fun t ⟨u, hu, ht⟩ => (h u hu).2 t ht⟩
    · rintro ⟨⟨hP, h⟩, hrest⟩
      exact ⟨hP, fun u hu => ⟨h u hu, fun t ht => hrest t ⟨u, hu, ht⟩⟩⟩

theorem along_of_labels {A : ε → Prop} {s : σ} {es : List ε} (hA : ∀ e ∈ es, A e) :
    Along step (fun _ e => A e) s es := by
  induction es generalizing s with
  | nil => trivial
  | cons e es ih =>
    obtain ⟨hAe, hrest⟩ := List.forall_mem_cons.mp hA
    exact ⟨hAe, fun _ _ => ih hrest⟩

/-- A condition along a run is one on each label and the state from which it is taken. -/
theorem along_iff_splits {P : σ → ε → Prop} {s : σ} {es : List ε} :
    Along step P s es ↔
      ∀ pre e post u, es = pre ++ e :: post → exec step s pre = some u → P u e := by
  induction es generalizing s with
  | nil => simp [Along]
  | cons e es ih =>
    simp only [Along, ih]
    constructor
    · rintro ⟨he, hrest⟩ pre e' post u heq hu
      cases pre with
      | nil =>
        obtain ⟨rfl, -⟩ := List.cons.inj heq
        exact Option.some.inj hu ▸ he
      | cons a pre =>
        obtain ⟨rfl, hpost⟩ := List.cons.inj heq
        obtain ⟨t, ht, hu⟩ := exec_cons.mp hu
        exact hrest t ht pre e' post u hpost hu
    · intro h
      refine ⟨h [] e es s rfl rfl, fun t ht pre e' post u hpost hu => ?_⟩
      exact h (e :: pre) e' post u (congrArg (e :: ·) hpost) (exec_cons.mpr ⟨t, ht, hu⟩)

theorem Along.mono {P Q : σ → ε → Prop} (hPQ : ∀ s e, P s e → Q s e) {s : σ} {es : List ε}
    (h : Along step P s es) : Along step Q s es := by
  induction es generalizing s with
  | nil => trivial
  | cons e es ih => exact ⟨hPQ s e h.1, fun t ht => ih (h.2 t ht)⟩

theorem Along.and {P Q : σ → ε → Prop} {s : σ} {es : List ε} (hP : Along step P s es)
    (hQ : Along step Q s es) : Along step (fun s e => P s e ∧ Q s e) s es := by
  induction es generalizing s with
  | nil => trivial
  | cons e es ih => exact ⟨⟨hP.1, hQ.1⟩, fun t ht => ih (hP.2 t ht) (hQ.2 t ht)⟩

/-- Two conditions that agree under an invariant, which the first of them keeps, hold along
the same runs. -/
theorem along_congr {I : σ → Prop} {P Q : σ → ε → Prop}
    (hI : ∀ s e t, I s → P s e → step s e = some t → I t) (hPQ : ∀ s e, I s → (P s e ↔ Q s e))
    {s : σ} {es : List ε} (hs : I s) : Along step P s es ↔ Along step Q s es := by
  induction es generalizing s with
  | nil => exact Iff.rfl
  | cons e es ih =>
    constructor
    · rintro ⟨hP, h⟩
      exact ⟨(hPQ s e hs).mp hP, fun t ht => (ih (hI s e t hs hP ht)).mp (h t ht)⟩
    · rintro ⟨hQ, h⟩
      have hP := (hPQ s e hs).mpr hQ
      exact ⟨hP, fun t ht => (ih (hI s e t hs hP ht)).mpr (h t ht)⟩

/-- Two conditions that agree on the steps that are taken under an invariant hold along the
same runs. -/
theorem along_congr_of_exec {I : σ → Prop} {P Q : σ → ε → Prop}
    (hI : ∀ s e t, I s → step s e = some t → I t)
    (hPQ : ∀ s e t, I s → step s e = some t → (P s e ↔ Q s e)) {s t : σ} {es : List ε}
    (h : exec step s es = some t) (hs : I s) : Along step P s es ↔ Along step Q s es := by
  induction es generalizing s with
  | nil => exact Iff.rfl
  | cons e es ih =>
    obtain ⟨u, hu, ht⟩ := exec_cons.mp h
    have hrest := ih ht (hI s e u hs hu)
    have huniq (R : σ → ε → Prop) :
        (∀ v, step s e = some v → Along step R v es) ↔ Along step R u es := by simp [hu]
    simp only [Along, huniq, hPQ s e u hs hu, hrest]

/-- A map of states under which each step of one system is that of another maps runs to runs. -/
theorem exec_map {τ : Type*} {step' : τ → ε → Option τ} {f : σ → τ} {I : σ → Prop} {A : ε → Prop}
    (hI : ∀ s e t, I s → A e → step s e = some t → I t)
    (hstep : ∀ s e, I s → A e → (step s e).map f = step' (f s) e) {s : σ} {es : List ε}
    (hA : ∀ e ∈ es, A e) (hs : I s) : (exec step s es).map f = exec step' (f s) es := by
  induction es generalizing s with
  | nil => rfl
  | cons e es ih =>
    obtain ⟨hAe, hrest⟩ := List.forall_mem_cons.mp hA
    rw [exec, exec, ← hstep s e hs hAe]
    cases hu : step s e with
    | none => rfl
    | some u => exact ih hrest (hI s e u hs hAe hu)

/-- The labels of a run are enabled where they are taken. -/
theorem along_enabled {s t : σ} {es : List ε} (h : exec step s es = some t) :
    Along step (fun s e => ∃ u, step s e = some u) s es := by
  induction es generalizing s with
  | nil => trivial
  | cons e es ih =>
    obtain ⟨u, hu, ht⟩ := exec_cons.mp h
    refine ⟨⟨u, hu⟩, fun v hv => ?_⟩
    obtain rfl : u = v := Option.some.inj (hu.symm.trans hv)
    exact ih ht

/-- An invariant may be assumed in every state from which a step is taken. -/
theorem Along.strengthen {I : σ → Prop} {P : σ → ε → Prop}
    (hstep : ∀ s e t, I s → P s e → step s e = some t → I t) {s : σ} {es : List ε}
    (h : Along step P s es) (hs : I s) : Along step (fun s e => I s ∧ P s e) s es := by
  induction es generalizing s with
  | nil => trivial
  | cons e es ih => exact ⟨⟨hs, h.1⟩, fun t ht => ih (h.2 t ht) (hstep s e t hs h.1 ht)⟩

/-- If a step that misses `P` leads into `D` and no step leaves `D`, then a run that
ends outside `D` meets `P` along the way. -/
theorem along_of_final {I D : σ → Prop} {A P : σ → ε → Prop}
    (hI : ∀ s e t, I s → step s e = some t → I t)
    (hD : ∀ s e t, I s → A s e → (D s ∨ ¬ P s e) → step s e = some t → D t)
    {s t : σ} {es : List ε} (h : exec step s es = some t) (hA : Along step A s es)
    (hs : I s) (ht : ¬ D t) : Along step P s es := by
  induction es generalizing s with
  | nil => trivial
  | cons e es ih =>
    obtain ⟨u, hu, hrun⟩ := exec_cons.mp h
    have hIu := hI s e u hs hu
    have hstay : ∀ s e t, (I s ∧ D s) → A s e → step s e = some t → (I t ∧ D t) :=
      fun s e t hs ha hst => ⟨hI s e t hs.1 hst, hD s e t hs.1 ha (.inl hs.2) hst⟩
    constructor
    · by_contra hP
      have hDu := hD s e u hs hA.1 (.inr hP) hu
      exact ht (exec_guarded hstay (hA.2 u hu) hrun ⟨hIu, hDu⟩).2
    · intro v hv
      obtain rfl : u = v := Option.some.inj (hu.symm.trans hv)
      exact ih hrun (hA.2 u hu) hIu

/-- A property of the reached state that each step keeps exactly when the step meets
`P` holds at the end of a run exactly when every step of the run meets `P`. -/
theorem exec_iff_along {I Q : σ → Prop} {P : σ → ε → Prop}
    (hI : ∀ s e t, I s → step s e = some t → I t)
    (hQ : ∀ s e t, I s → step s e = some t → (Q t ↔ Q s ∧ P s e))
    {s t : σ} {es : List ε} (h : exec step s es = some t) (hs : I s) :
    Q t ↔ Q s ∧ Along step P s es := by
  induction es generalizing s with
  | nil => simp [Option.some.inj h, Along]
  | cons e es ih =>
    obtain ⟨u, hu, ht⟩ := exec_cons.mp h
    have hrest := ih ht (hI s e u hs hu)
    have hone := hQ s e u hs hu
    have huniq : (∀ v, step s e = some v → Along step P v es) ↔ Along step P u es := by simp [hu]
    simp only [Along, hrest, hone, huniq, and_assoc]

/-- The same for labels that meet `A`. -/
theorem exec_iff_along_of {I Q : σ → Prop} {A : ε → Prop} {P : σ → ε → Prop}
    (hI : ∀ s e t, A e → I s → step s e = some t → I t)
    (hQ : ∀ s e t, A e → I s → step s e = some t → (Q t ↔ Q s ∧ P s e))
    {s t : σ} {es : List ε} (h : exec step s es = some t) (hA : ∀ e ∈ es, A e) (hs : I s) :
    Q t ↔ Q s ∧ Along step P s es := by
  induction es generalizing s with
  | nil => simp [Option.some.inj h, Along]
  | cons e es ih =>
    obtain ⟨u, hu, ht⟩ := exec_cons.mp h
    obtain ⟨hAe, hAes⟩ := List.forall_mem_cons.mp hA
    have hrest := ih ht hAes (hI s e u hAe hs hu)
    have hone := hQ s e u hAe hs hu
    have huniq : (∀ v, step s e = some v → Along step P v es) ↔ Along step P u es := by simp [hu]
    simp only [Along, hrest, hone, huniq, and_assoc]

/-- Every state that the labels `es` pass through from `s` meets `I`. -/
def Throughout (step : σ → ε → Option σ) (I : σ → Prop) : σ → List ε → Prop
  | s, [] => I s
  | s, e :: es => I s ∧ ∀ t, step s e = some t → Throughout step I t es

instance decidableThroughout (I : σ → Prop) [∀ s, Decidable (I s)] :
    (s : σ) → (es : List ε) → Decidable (Throughout step I s es)
  | s, [] => decidable_of_iff (I s) (by simp [Throughout])
  | s, e :: es =>
    match h : step s e with
    | none => decidable_of_iff (I s) (by simp [Throughout, h])
    | some t =>
      have := decidableThroughout I t es
      decidable_of_iff (I s ∧ Throughout step I t es) (by simp [Throughout, h])

theorem Throughout.mono {I J : σ → Prop} (hIJ : ∀ s, I s → J s) {s : σ} {es : List ε}
    (h : Throughout step I s es) : Throughout step J s es := by
  induction es generalizing s with
  | nil => exact hIJ s h
  | cons e es ih => exact ⟨hIJ s h.1, fun t ht => ih (h.2 t ht)⟩

theorem Throughout.final {I : σ → Prop} {s t : σ} {es : List ε} (h : Throughout step I s es)
    (hexec : exec step s es = some t) : I t := by
  induction es generalizing s with
  | nil => exact Option.some.inj hexec ▸ h
  | cons e es ih =>
    obtain ⟨u, hu, ht⟩ := exec_cons.mp hexec
    exact ih (h.2 u hu) ht

theorem throughout_of_along {I : σ → Prop} {P : σ → ε → Prop}
    (hstep : ∀ s e t, I s → P s e → step s e = some t → I t) {s : σ} {es : List ε}
    (hP : Along step P s es) (hs : I s) : Throughout step I s es := by
  induction es generalizing s with
  | nil => exact hs
  | cons e es ih => exact ⟨hs, fun t ht => ih (hP.2 t ht) (hstep s e t hs hP.1 ht)⟩

/-- For labels that meet `A`: where, under an invariant that holds as long as `I` does, a step
keeps `I` exactly when it meets `P`, a run keeps `I` throughout exactly when all its steps
meet `P`. -/
theorem throughout_iff_along_of {J I : σ → Prop} {A : ε → Prop} {P : σ → ε → Prop}
    (hJ : ∀ s e t, A e → J s → I s → step s e = some t → I t → J t)
    (hstep : ∀ s e t, A e → J s → I s → step s e = some t → (I t ↔ P s e)) {s t : σ} {es : List ε}
    (h : exec step s es = some t) (hA : ∀ e ∈ es, A e) (hJs : J s) (hs : I s) :
    Throughout step I s es ↔ Along step P s es := by
  induction es generalizing s with
  | nil => simp [Throughout, Along, hs]
  | cons e es ih =>
    obtain ⟨u, hu, ht⟩ := exec_cons.mp h
    have hAe := hA e List.mem_cons_self
    have hone := hstep s e u hAe hJs hs hu
    have hrest (hu' : I u) := ih ht (fun e he => hA e (List.mem_cons_of_mem _ he))
      (hJ s e u hAe hJs hs hu hu') hu'
    constructor
    · rintro ⟨-, hI⟩
      have hIu := hI u hu
      have hu' : I u := by cases es <;> [exact hIu; exact hIu.1]
      refine ⟨hone.mp hu', fun v hv => ?_⟩
      obtain rfl : u = v := Option.some.inj (hu.symm.trans hv)
      exact (hrest hu').mp hIu
    · rintro ⟨hP, hAlong⟩
      refine ⟨hs, fun v hv => ?_⟩
      obtain rfl : u = v := Option.some.inj (hu.symm.trans hv)
      exact (hrest (hone.mpr hP)).mpr (hAlong u hu)

theorem throughout_iff_along {I : σ → Prop} {P : σ → ε → Prop}
    (hstep : ∀ s e t, I s → step s e = some t → (I t ↔ P s e)) {s t : σ} {es : List ε}
    (h : exec step s es = some t) (hs : I s) : Throughout step I s es ↔ Along step P s es :=
  throughout_iff_along_of (J := fun _ => True) (A := fun _ => True)
    (fun _ _ _ _ _ _ _ _ => trivial) (fun s e t _ _ hs h => hstep s e t hs h) h
    (fun _ _ => trivial) trivial hs

/-- A run that never ends. -/
structure Forever (step : σ → ε → Option σ) where
  state : ℕ → σ
  label : ℕ → ε
  follows : ∀ n, step (state n) (label n) = some (state (n + 1))

/-- Labels of a kind of which one is enabled from some state on are taken. -/
def Forever.Fair (r : Forever step) (A : ε → Prop) : Prop :=
  ∀ n, (∀ m, n ≤ m → ∃ e, A e ∧ ∃ t, step (r.state m) e = some t) → ∃ m, n ≤ m ∧ A (r.label m)

theorem Forever.invariant {I : σ → Prop} (hstep : ∀ s e t, I s → step s e = some t → I t)
    (r : Forever step) {n : ℕ} (hn : I (r.state n)) {m : ℕ} (hm : n ≤ m) : I (r.state m) := by
  induction hm with
  | refl => exact hn
  | step _ ih => exact hstep _ _ _ ih (r.follows _)

/-- A fair run leaves `P` for `Q`, if it can only leave it so and a label that does is enabled
while the run stays in `P`. -/
theorem Forever.leaves (P Q : σ → Prop) {A : ε → Prop} {r : Forever step} (hfair : r.Fair A)
    (hstep : ∀ s e t, P s → step s e = some t → P t ∨ Q t)
    (hA : ∀ s e t, P s → A e → step s e = some t → Q t) {n : ℕ} (hn : P (r.state n))
    (henabled : (∀ m, n ≤ m → P (r.state m)) →
      ∃ l, n ≤ l ∧ ∀ m, l ≤ m → ∃ e, A e ∧ ∃ t, step (r.state m) e = some t) :
    ∃ m, n ≤ m ∧ Q (r.state m) := by
  by_contra! hQ
  have hP (m : ℕ) (hm : n ≤ m) : P (r.state m) := by
    induction hm with
    | refl => exact hn
    | step hm ih =>
      exact (hstep _ _ _ ih (r.follows _)).resolve_right (hQ _ (Nat.le_succ_of_le hm))
  obtain ⟨l, hl, hen⟩ := henabled hP
  obtain ⟨m, hm, hlabel⟩ := hfair l hen
  have hnm := Nat.le_trans hl hm
  exact hQ (m + 1) (Nat.le_succ_of_le hnm) (hA _ _ _ (hP m hnm) hlabel (r.follows m))

end Statnive.LabelledRuns
