import Mathlib.Algebra.BigOperators.Group.List.Basic
import Mathlib.Order.Basic
import Mathlib.Tactic.Common
import Mathlib.Tactic.Ring

/-!
# Fixed windows

A limiter that counts in fixed windows lets `cap` calls through a window, and opens the next
one with a call that comes when the window is over. What it lets through are the times of
such windows, and an interval as long as a window meets no more than two of them.
-/

namespace Statnive.FixedWindow

/-- The times of the calls that one window let through; the first of them opened it. -/
structure Window (cap : ℕ) (span : ℤ) where
  start : ℤ
  later : List ℤ
  within : ∀ t ∈ later, start ≤ t ∧ t < start + span
  bounded : later.length < cap

variable {cap : ℕ} {span : ℤ}

def Window.times (w : Window cap span) : List ℤ := w.start :: w.later

/-- The windows are in order, and each is over when the next one starts. -/
def Apart (ws : List (Window cap span)) : Prop :=
  ws.Pairwise (fun v w => v.start + span ≤ w.start)

def times (ws : List (Window cap span)) : List ℤ := ws.flatMap Window.times

/-- How many of the times are in the closed interval of the length of a window from `a` on. -/
def inInterval (span a : ℤ) (ts : List ℤ) : ℕ := ts.countP (fun t => a ≤ t ∧ t ≤ a + span)

theorem inInterval_times_cons (w : Window cap span) (ws : List (Window cap span)) (a : ℤ) :
    inInterval span a (times (w :: ws)) =
      inInterval span a w.times + inInterval span a (times ws) := by
  simp [inInterval, times, List.countP_append]

theorem inInterval_window (w : Window cap span) (a : ℤ) : inInterval span a w.times ≤ cap :=
  List.countP_le_length.trans w.bounded

theorem start_le {w : Window cap span} {t : ℤ} (ht : t ∈ w.times) : w.start ≤ t := by
  rcases List.mem_cons.mp ht with rfl | ht
  · exact le_rfl
  · exact (w.within t ht).1

private theorem lt_end (hspan : 0 < span) {w : Window cap span} {t : ℤ} (ht : t ∈ w.times) :
    t < w.start + span := by
  rcases List.mem_cons.mp ht with rfl | ht
  · omega
  · exact (w.within t ht).2

private theorem inInterval_late {ws : List (Window cap span)} {a : ℤ}
    (hlate : ∀ w ∈ ws, a + span < w.start) : inInterval span a (times ws) = 0 := by
  refine List.countP_eq_zero.mpr fun t ht => ?_
  obtain ⟨w, hw, ht⟩ := List.mem_flatMap.mp ht
  have hstart := start_le ht
  have hw := hlate w hw
  simp only [decide_eq_true_eq, not_and, not_le]
  omega

/-- Only the first of the windows that start behind `a` can be met. -/
theorem inInterval_behind {ws : List (Window cap span)} {a : ℤ} (hapart : Apart ws)
    (hbehind : ∀ w ∈ ws, a < w.start) : inInterval span a (times ws) ≤ cap := by
  cases ws with
  | nil => simp [inInterval, times]
  | cons w ws =>
    have hw := hbehind w List.mem_cons_self
    have hlate : ∀ v ∈ ws, a + span < v.start := by
      intro v hv
      have hnext := (List.pairwise_cons.mp hapart).1 v hv
      omega
    have hone := inInterval_window w a
    rw [inInterval_times_cons, inInterval_late hlate]
    omega

/-- No interval of the length of a window meets more than two windows. -/
theorem inInterval_le (hspan : 0 < span) {ws : List (Window cap span)} (hapart : Apart ws)
    (a : ℤ) : inInterval span a (times ws) ≤ 2 * cap := by
  induction ws with
  | nil => simp [inInterval, times]
  | cons w ws ih =>
    obtain ⟨hnext, hrest⟩ := List.pairwise_cons.mp hapart
    rw [inInterval_times_cons]
    rcases Nat.eq_zero_or_pos (inInterval span a w.times) with hzero | hpos
    · have hmore := ih hrest
      omega
    · obtain ⟨t, ht, hin⟩ := List.countP_pos_iff.mp hpos
      have hend := lt_end hspan ht
      simp only [decide_eq_true_eq] at hin
      have hbehind : ∀ v ∈ ws, a < v.start := by
        intro v hv
        have hv := hnext v hv
        omega
      have hone := inInterval_window w a
      have hmore := inInterval_behind hrest hbehind
      omega

end Statnive.FixedWindow
