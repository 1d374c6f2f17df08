import Mathlib.Data.List.Sort
import Mathlib.Order.Basic

/-!
# Percentiles by nearest rank

The percentile of a list of samples is the smallest sample that enough of them are at or
below. In a sorted list it stands at a position that the length alone determines.
-/

namespace Statnive.NearestRank

variable {α : Type*} [LinearOrder α] {p : ℕ} {l s : List α} {x y : α}

/-- How many samples are at or below `x`. -/
def below (l : List α) (x : α) : ℕ := l.countP (fun y => y ≤ x)

/-- `x` is the smallest sample such that `p` of 100 samples are at or below it. -/
structure IsPercentile (p : ℕ) (l : List α) (x : α) : Prop where
  sample : x ∈ l
  covers : p * l.length ≤ 100 * below l x
  least : ∀ y ∈ l, p * l.length ≤ 100 * below l y → x ≤ y

theorem IsPercentile.unique (hx : IsPercentile p l x) (hy : IsPercentile p l y) : x = y :=
  le_antisymm (hx.least y hy.sample hy.covers) (hy.least x hx.sample hx.covers)

theorem IsPercentile.perm (h : IsPercentile p l x) (hperm : l.Perm s) : IsPercentile p s x := by
  have hbelow (y : α) : below s y = below l y := (hperm.countP_eq _).symm
  refine ⟨hperm.mem_iff.mp h.sample, ?_, fun y hy hcovers => ?_⟩
  · rw [hbelow, ← hperm.length_eq]
    exact h.covers
  · rw [hbelow, ← hperm.length_eq] at hcovers
    exact h.least y (hperm.mem_iff.mpr hy) hcovers

/-- The samples up to a position are at or below the one that stands there. -/
theorem succ_le_below (hs : s.Pairwise (· ≤ ·)) {r : ℕ} (hr : r < s.length) :
    r + 1 ≤ below s s[r] := by
  have hsplit : below s s[r] = below (s.take (r + 1)) s[r] + below (s.drop (r + 1)) s[r] := by
    simp only [below, ← List.countP_append, List.take_append_drop]
  have hall : below (s.take (r + 1)) s[r] = (s.take (r + 1)).length := by
    refine List.countP_eq_length.mpr fun y hy => ?_
    obtain ⟨i, hi, rfl⟩ := List.mem_iff_getElem.mp hy
    simp only [List.length_take] at hi
    simp only [List.getElem_take, decide_eq_true_eq]
    exact hs.sortedLE.getElem_le_getElem_of_le (by omega)
  have hlength : (s.take (r + 1)).length = r + 1 := by
    simp only [List.length_take]
    omega
  omega

/-- What is less than the sample at a position has no more samples at or below it. -/
theorem below_le (hs : s.Pairwise (· ≤ ·)) {r : ℕ} (hr : r < s.length) (hy : y < s[r]) :
    below s y ≤ r := by
  have hsplit : below s y = below (s.take r) y + below (s.drop r) y := by
    simp only [below, ← List.countP_append, List.take_append_drop]
  have hnone : below (s.drop r) y = 0 := by
    refine List.countP_eq_zero.mpr fun z hz => ?_
    obtain ⟨i, hi, rfl⟩ := List.mem_iff_getElem.mp hz
    simp only [List.length_drop] at hi
    have hle : s[r] ≤ s[r + i] := hs.sortedLE.getElem_le_getElem_of_le (by omega)
    simp only [List.getElem_drop, decide_eq_true_eq, not_le]
    exact hy.trans_le hle
  have hbound : below (s.take r) y ≤ r :=
    List.countP_le_length.trans (List.length_take_le r s)
  omega

/-- The percentile of a sorted list stands at the first position that has enough samples up
to it. -/
theorem isPercentile_getElem (hs : s.Pairwise (· ≤ ·)) {r : ℕ} (hr : r < s.length)
    (hlow : 100 * r < p * s.length) (hhigh : p * s.length ≤ 100 * (r + 1)) :
    IsPercentile p s s[r] := by
  refine ⟨List.getElem_mem hr, ?_, fun y _ hcovers => ?_⟩
  · have hup := succ_le_below hs hr
    omega
  · by_contra hlt
    have hfew := below_le hs hr (not_le.mp hlt)
    omega

/-- The percentile of a list is what stands at that position once the list is sorted. -/
theorem isPercentile_iff (hperm : s.Perm l) (hs : s.Pairwise (· ≤ ·)) {r : ℕ}
    (hr : r < l.length) (hlow : 100 * r < p * l.length) (hhigh : p * l.length ≤ 100 * (r + 1)) :
    IsPercentile p l x ↔ s[r]? = some x := by
  rw [← hperm.length_eq] at hr hlow hhigh
  have hat := (isPercentile_getElem hs hr hlow hhigh).perm hperm
  rw [List.getElem?_eq_getElem hr, Option.some.injEq]
  constructor
  · intro h
    exact hat.unique h
  · rintro rfl
    exact hat

end Statnive.NearestRank
