import Mathlib.Data.List.Basic
import Mathlib.Tactic.Common

/-!
# Operations on the entries of a keyed map

Each operation reads and writes the entry of its own key and gives an answer. What the
operations under one key are answered is then what they are answered alone.
-/

namespace Statnive.KeyedRuns

variable {κ ε ο α : Type*} [DecidableEq κ] (key : ο → κ) (act : ο → Option ε → ε × α)

/-- The operations in order, each with its answer. -/
def answers : (κ → Option ε) → List ο → List (ο × α)
  | _, [] => []
  | m, o :: os =>
    let next := act o (m (key o))
    (o, next.2) :: answers (Function.update m (key o) (some next.1)) os

variable {key act}

/-- Under the other keys anything may have happened. -/
theorem answers_filter {k : κ} {m m' : κ → Option ε} (h : m k = m' k) (os : List ο) :
    (answers key act m os).filter (fun x => key x.1 = k) =
      answers key act m' (os.filter (fun o => key o = k)) := by
  induction os generalizing m m' with
  | nil => rfl
  | cons o os ih =>
    by_cases hk : key o = k
    · subst hk
      have hstep : Function.update m (key o) (some (act o (m (key o))).1) (key o) =
          Function.update m' (key o) (some (act o (m' (key o))).1) (key o) := by simp [h]
      simp only [answers, List.filter_cons, decide_true, if_true, ih hstep]
      rw [h]
    · have hstep : Function.update m (key o) (some (act o (m (key o))).1) k = m' k := by
        rw [Function.update_of_ne (Ne.symm hk), h]
      simp [answers, hk, ih hstep]

end Statnive.KeyedRuns
