import Mathlib.Algebra.Group.Nat.Defs
import Statnive.NearestRank
import Statnive.RingBuffer

/-!
# The reported fsync percentile

`recordFsync` and `Stats` of the group syncer. The loop times each `Sync` and keeps the
durations of those that succeed in a ring; the health check sorts what the ring holds.
-/

namespace Statnive.FsyncPercentile

open NearestRank RingBuffer

def fsyncSampleCap : ℕ := 256

/-- Durations are in nanoseconds. -/
structure FsyncSamples where
  fsyncRing : List ℤ := List.replicate fsyncSampleCap 0
  fsyncWritten : UInt64 := 0
  deriving DecidableEq

structure WALSyncerStats where
  fsyncP99 : ℤ := 0
  fsyncSampleCount : ℕ := 0
  deriving DecidableEq

def recordFsync (g : FsyncSamples) (d : ℤ) : FsyncSamples where
  fsyncRing := push g.fsyncRing g.fsyncWritten.toNat d
  fsyncWritten := g.fsyncWritten + 1

/-- The part of `flush` behind `Sync`, which took `d` or failed. -/
def flush (g : FsyncSamples) : Option ℤ → FsyncSamples
  | some d => recordFsync g d
  | none => g

def p99Idx (n : ℕ) : ℕ :=
  let idx := (n * 99 + 99) / 100
  if n ≤ idx then n - 1 else idx

def stats (g : FsyncSamples) : WALSyncerStats :=
  let n := min g.fsyncWritten.toNat g.fsyncRing.length
  if n = 0 then {}
  else
    let samples := (g.fsyncRing.take n).insertionSort (· ≤ ·)
    ⟨(samples[p99Idx n]?).getD 0, n⟩

/-- The syncer after its flushes. -/
def afterFlushes (flushes : List (Option ℤ)) : FsyncSamples := flushes.foldl flush {}

/-- Only the flushes that succeed are timed. -/
def durations (flushes : List (Option ℤ)) : List ℤ := flushes.filterMap id

/-- The durations that the percentile is of. -/
def samples (flushes : List (Option ℤ)) : List ℤ :=
  latest fsyncSampleCap (durations flushes)

def ascending (flushes : List (Option ℤ)) : List ℤ := (samples flushes).insertionSort (· ≤ ·)

/-- The number of samples by the counter, which begins again after 2 ^ 64 flushes. -/
def counted (flushes : List (Option ℤ)) : ℕ :=
  min ((durations flushes).length % 2 ^ 64) fsyncSampleCap

def countedAscending (flushes : List (Option ℤ)) : List ℤ :=
  (latest (counted flushes) (durations flushes)).insertionSort (· ≤ ·)

/-- The rank of the percentile, counted from one. -/
def rank (n : ℕ) : ℕ := (99 * n + 99) / 100

variable {flushes : List (Option ℤ)}

/-- A turn of the counter is some turns of the ring. -/
theorem push_mod {ring : List ℤ} (hring : ring.length = fsyncSampleCap) (n : ℕ) (d : ℤ) :
    push ring (n % 2 ^ 64) d = push ring n d := by
  have hdvd : ring.length ∣ 2 ^ 64 := by
    rw [hring]
    exact ⟨2 ^ 56, rfl⟩
  rw [push, push, Nat.mod_mod_of_dvd n hdvd]

theorem afterFlushes_invariant (flushes : List (Option ℤ)) :
    (afterFlushes flushes).fsyncRing.length = fsyncSampleCap ∧
      (afterFlushes flushes).fsyncWritten.toNat = (durations flushes).length % 2 ^ 64 ∧
      Holds (afterFlushes flushes).fsyncRing (durations flushes) := by
  induction flushes using List.reverseRecOn with
  | nil => exact ⟨List.length_replicate, rfl, holds_nil _⟩
  | append_singleton flushes f ih =>
    obtain ⟨hlength, hwritten, hholds⟩ := ih
    have hstep : afterFlushes (flushes ++ [f]) = flush (afterFlushes flushes) f := by
      simp [afterFlushes]
    cases f with
    | none => simpa [durations, hstep, flush] using ⟨hlength, hwritten, hholds⟩
    | some d =>
      have hpos : 0 < (afterFlushes flushes).fsyncRing.length := by
        rw [hlength]
        decide
      have hnext := hholds.push hpos d
      rw [← push_mod hlength, ← hwritten] at hnext
      have hcount : ((afterFlushes flushes).fsyncWritten + 1).toNat =
          ((durations flushes).length + 1) % 2 ^ 64 := by
        rw [UInt64.toNat_add, hwritten, UInt64.toNat_one, Nat.mod_add_mod]
      simpa [durations, hstep, flush, recordFsync, hlength, hcount] using hnext

theorem length_samples (flushes : List (Option ℤ)) :
    (samples flushes).length = min (durations flushes).length fsyncSampleCap :=
  length_latest _ _

/-- What `Stats` copies are the latest durations, as many as are counted. -/
theorem take_counted (flushes : List (Option ℤ)) :
    ((afterFlushes flushes).fsyncRing.take (counted flushes)).Perm
      (latest (counted flushes) (durations flushes)) := by
  obtain ⟨hlength, -, hholds⟩ := afterFlushes_invariant flushes
  have hcap : fsyncSampleCap = 256 := rfl
  have hmod : (durations flushes).length % 2 ^ 64 ≤ (durations flushes).length := Nat.mod_le _ _
  rcases Nat.lt_or_ge ((durations flushes).length % 2 ^ 64) fsyncSampleCap with hlt | hge
  · have hcounted : counted flushes = (durations flushes).length % 2 ^ 64 := Nat.min_eq_left hlt.le
    have hturn : ((durations flushes).length - counted flushes) %
        (afterFlushes flushes).fsyncRing.length = 0 := by
      rw [hlength, hcap]
      omega
    exact .of_eq (hholds.take (hcounted ▸ hmod) (hlength ▸ hcounted ▸ hlt) hturn)
  · have hcounted : counted flushes = fsyncSampleCap := Nat.min_eq_right hge
    have hperm := hholds.perm
    rwa [hlength, Nat.min_eq_right (hge.trans hmod), ← hcounted] at hperm

/-- What `Stats` sorts are the latest durations, as many as are counted. -/
theorem stats_eq (flushes : List (Option ℤ)) :
    stats (afterFlushes flushes) =
      ⟨((countedAscending flushes)[p99Idx (counted flushes)]?).getD 0, counted flushes⟩ := by
  obtain ⟨hlength, hwritten, -⟩ := afterFlushes_invariant flushes
  have hcount : min (afterFlushes flushes).fsyncWritten.toNat
      (afterFlushes flushes).fsyncRing.length = counted flushes := by
    rw [hwritten, hlength, counted]
  have hsorted : ((afterFlushes flushes).fsyncRing.take (counted flushes)).insertionSort (· ≤ ·) =
      countedAscending flushes := by
    have hsame := ((List.perm_insertionSort (· ≤ ·) _).trans (take_counted flushes)).trans
      (List.perm_insertionSort (· ≤ ·) (latest (counted flushes) (durations flushes))).symm
    exact hsame.eq_of_pairwise' (List.pairwise_insertionSort (· ≤ ·) _)
      (List.pairwise_insertionSort (· ≤ ·) _)
  rw [stats, hcount, hsorted]
  by_cases hnone : counted flushes = 0
  · have hempty : countedAscending flushes = [] := by
      rw [countedAscending, hnone, latest, Nat.sub_zero, List.drop_length, List.insertionSort_nil]
    rw [if_pos hnone, hempty, hnone]
    rfl
  · exact if_neg hnone

theorem rank_spec {n : ℕ} (hn : 0 < n) :
    rank n - 1 < n ∧ 100 * (rank n - 1) < 99 * n ∧ 99 * n ≤ 100 * (rank n - 1 + 1) := by
  unfold rank
  omega

/-- Below 100 samples the rank is cut to the last one. From there on the position that is
read is the rank itself, which counts from one. -/
theorem p99Idx_eq {n : ℕ} (hn : 0 < n) :
    p99Idx n = if n < 100 then rank n - 1 else rank n := by
  simp only [p99Idx, rank]
  split_ifs <;> omega

private theorem rank_lt {n : ℕ} (hn : 100 ≤ n) : rank n < n := by
  unfold rank
  omega

/-- The percentile stands one before its rank, which counts from one. -/
theorem isPercentile_samples (hsome : samples flushes ≠ []) (d : ℤ) :
    IsPercentile 99 (samples flushes) d ↔
      (ascending flushes)[rank (samples flushes).length - 1]? = some d := by
  have hn := List.length_pos_iff.mpr hsome
  obtain ⟨hr, hlow, hhigh⟩ := rank_spec hn
  exact isPercentile_iff (List.perm_insertionSort _ _) (List.pairwise_insertionSort _ _)
    hr hlow hhigh

/-- In ascending order the sample behind the percentile equals it. -/
def Tied (flushes : List (Option ℤ)) : Prop :=
  (ascending flushes)[rank (samples flushes).length - 1]? =
    (ascending flushes)[rank (samples flushes).length]?

instance : Decidable (Tied flushes) := inferInstanceAs (Decidable (_ = _))

/-- Of the samples that are counted again, the one in the place that is read is the percentile
of all. -/
def Recounted (flushes : List (Option ℤ)) : Prop :=
  (ascending flushes)[rank (samples flushes).length - 1]? =
    some (((countedAscending flushes)[p99Idx (counted flushes)]?).getD 0)

/-- After any flushes of which one succeeded, what is reported is the 99th percentile of the
latest durations exactly when fewer than 100 flushes succeeded or the next sample is equal, as
long as the counter has not begun again. -/
theorem reported_iff (flushes : List (Option ℤ)) (hsome : durations flushes ≠ []) :
    IsPercentile 99 (samples flushes) (stats (afterFlushes flushes)).fsyncP99 ↔
      if counted flushes = (samples flushes).length then
        (durations flushes).length < 100 ∨ Tied flushes
      else Recounted flushes := by
  have hpos : 0 < (durations flushes).length := List.length_pos_iff.mpr hsome
  have hlength := length_samples flushes
  have hcap : fsyncSampleCap = 256 := rfl
  have hn : 0 < (samples flushes).length := by omega
  have hsamples := List.length_pos_iff.mp hn
  have hascending : (ascending flushes).length = (samples flushes).length :=
    List.length_insertionSort _ _
  rw [isPercentile_samples hsamples, stats_eq flushes]
  split_ifs with hcounted
  · have hdrop : (durations flushes).length - min (durations flushes).length fsyncSampleCap =
        (durations flushes).length - fsyncSampleCap := by omega
    have hsame : countedAscending flushes = ascending flushes := by
      rw [countedAscending, hcounted, hlength, ascending, samples, latest, latest, hdrop]
    rw [hsame, hcounted, p99Idx_eq hn]
    rcases Nat.lt_or_ge (durations flushes).length 100 with hfew | hmany
    · have hread : rank (samples flushes).length - 1 < (ascending flushes).length :=
        (rank_spec hn).1.trans_eq hascending.symm
      rw [if_pos (by omega), List.getElem?_eq_getElem hread]
      simp [hfew]
    · have hread : rank (samples flushes).length < (ascending flushes).length :=
        (rank_lt (by omega)).trans_eq hascending.symm
      rw [if_neg (by omega), Tied, List.getElem?_eq_getElem hread]
      simp [hmany]
  · exact Iff.rfl

/-- Before 2 ^ 64 flushes the counter has not begun again. -/
theorem counted_eq (h : (durations flushes).length < 2 ^ 64) :
    counted flushes = (samples flushes).length := by
  rw [counted, Nat.mod_eq_of_lt h, length_samples]

theorem reported_three : IsPercentile 99 (samples [some 5, none, some 3])
    (stats (afterFlushes [some 5, none, some 3])).fsyncP99 := by
  refine (reported_iff [some 5, none, some 3] (by decide)).mpr ?_
  rw [if_pos (counted_eq (by decide))]
  exact .inl (by decide)

/-- 99 flushes take a millisecond, the last one a second. -/
def oneSlow : List (Option ℤ) := List.replicate 99 (some 1000000) ++ [some 1000000000]

/-- 99 of the 100 durations are a millisecond, and a second is reported. -/
theorem slow_reported :
    (stats (afterFlushes oneSlow)).fsyncP99 = 1000000000 ∧
      IsPercentile 99 (samples oneSlow) 1000000 ∧
      ¬ IsPercentile 99 (samples oneSlow) (stats (afterFlushes oneSlow)).fsyncP99 := by
  have hreported : (stats (afterFlushes oneSlow)).fsyncP99 = 1000000000 := by decide +kernel
  have hexact : IsPercentile 99 (samples oneSlow) 1000000 :=
    ⟨by decide +kernel, by decide +kernel, by decide +kernel⟩
  refine ⟨hreported, hexact, fun h => ?_⟩
  rw [hreported] at h
  exact absurd (h.unique hexact) (by decide)

end Statnive.FsyncPercentile
