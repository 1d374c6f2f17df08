import Mathlib.Data.List.Basic
import Mathlib.Tactic.Common

/-!
# Calls with a trace

A computation asks for things one after another, of which any may fail. It keeps what it has
asked for, so that a triple says what it asks for and what it returns.
-/

namespace Statnive.TracedCalls

universe u

/-- `asked` is in order, and ends where the computation fails. -/
structure Traced (ρ ε α : Type*) where
  asked : List ρ
  result : Except ε α

namespace Traced

variable {ρ ρ' ε ε' : Type*} {α β : Type u}

/-- What is asked for is answered, or the computation fails. -/
def ask (q : ρ) (answer : Except ε α) : Traced ρ ε α := ⟨[q], answer⟩

def ofExcept (result : Except ε α) : Traced ρ ε α := ⟨[], result⟩

def fail (e : ε) : Traced ρ ε α := ofExcept (.error e)

instance : Monad (Traced ρ ε) where
  pure a := ofExcept (.ok a)
  bind x f := match x.result with
    | .ok a => ⟨x.asked ++ (f a).asked, (f a).result⟩
    | .error e => ⟨x.asked, .error e⟩

/-- The computation as a part of another one. -/
def lift (x : Traced ρ ε α) (f : ρ → ρ') (g : ε → ε') : Traced ρ' ε' α :=
  ⟨x.asked.map f, x.result.mapError g⟩

/-- The computation asks for nothing outside `P`, and what it returns is in `Q`. -/
structure Triple (x : Traced ρ ε α) (P : ρ → Prop) (Q : α → Prop) : Prop where
  asks : ∀ q ∈ x.asked, P q
  returns : ∀ a, x.result = .ok a → Q a

variable {x : Traced ρ ε α} {f : α → Traced ρ ε β} {P : ρ → Prop} {Q : α → Prop} {R : β → Prop}

theorem Triple.ask {q : ρ} {answer : Except ε α} (hq : P q) (ha : ∀ a, answer = .ok a → Q a) :
    Triple (.ask q answer) P Q where
  asks q' hq' := by
    obtain rfl := List.mem_singleton.mp hq'
    exact hq
  returns := ha

theorem Triple.ofExcept {result : Except ε α} (h : ∀ a, result = .ok a → Q a) :
    Triple (.ofExcept result : Traced ρ ε α) P Q where
  asks q hq := by simp [Traced.ofExcept] at hq
  returns := h

theorem Triple.fail (e : ε) : Triple (.fail e : Traced ρ ε α) P Q := .ofExcept fun _ h => by simp at h

theorem Triple.pure {a : α} (h : Q a) : Triple (Pure.pure a : Traced ρ ε α) P Q :=
  .ofExcept fun _ hb => Except.ok.inj hb ▸ h

theorem Triple.bind (hx : Triple x P Q) (hf : ∀ a, Q a → Triple (f a) P R) :
    Triple (x >>= f) P R := by
  cases hresult : x.result with
  | error e =>
    have hbind : x >>= f = ⟨x.asked, .error e⟩ := by simp [Bind.bind, hresult]
    rw [hbind]
    exact ⟨hx.asks, fun b hb => by simp at hb⟩
  | ok a =>
    have hbind : x >>= f = ⟨x.asked ++ (f a).asked, (f a).result⟩ := by simp [Bind.bind, hresult]
    have hnext := hf a (hx.returns a hresult)
    rw [hbind]
    exact ⟨fun q hq => (List.mem_append.mp hq).elim (hx.asks q) (hnext.asks q), hnext.returns⟩

/-- Nothing is known of the answer. -/
theorem Triple.ask_bind {q : ρ} {answer : Except ε α} (hq : P q) (hf : ∀ a, Triple (f a) P R) :
    Triple (Traced.ask q answer >>= f) P R :=
  (Triple.ask (Q := fun _ => True) hq fun _ _ => trivial).bind fun a _ => hf a

theorem Triple.mono {P' : ρ → Prop} {Q' : α → Prop} (h : Triple x P Q) (hP : ∀ q, P q → P' q)
    (hQ : ∀ a, Q a → Q' a) : Triple x P' Q' :=
  ⟨fun q hq => hP q (h.asks q hq), fun a ha => hQ a (h.returns a ha)⟩

theorem Triple.lift {P' : ρ' → Prop} (g : ρ → ρ') (e : ε → ε') (h : Triple x P Q)
    (hP : ∀ q, P q → P' (g q)) : Triple (x.lift g e) P' Q where
  asks _ hq := by
    obtain ⟨q, hmem, rfl⟩ := List.mem_map.mp hq
    exact hP q (h.asks q hmem)
  returns a ha := by
    cases hresult : x.result with
    | error e => simp [Traced.lift, hresult, Except.mapError] at ha
    | ok b =>
      simp only [Traced.lift, hresult, Except.mapError, Except.ok.injEq] at ha
      exact ha ▸ h.returns b hresult

end Traced

end Statnive.TracedCalls
