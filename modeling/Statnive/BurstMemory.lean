import Mathlib.Algebra.BigOperators.Group.Finset.Basic
import Mathlib.Algebra.Order.BigOperators.Group.Finset
import Mathlib.Data.Nat.Digits.Lemmas
import Statnive.BurstWindows

/-!
# What the burst guard keeps

No entry of the burst guard is ever deleted: it holds one for every visitor that it has seen.
-/

namespace Statnive.BurstMemory

open EnrichPipeline BurstWindows

def activeVisitors (g : ShardedGuard) : ℕ := ∑ i, (g.shards i).length

def visitors (calls : List Call) : Finset VisitorHash := (calls.map Call.visitorHash).toFinset

/-- The visitors of the window that ends at `now`. -/
def live (now : ℤ) (calls : List Call) : Finset VisitorHash :=
  visitors (calls.filter (fun c => now - burstWindow < c.now))

/-- The visitors that were seen, but not in the window that ends at `now`. -/
def stale (now : ℤ) (calls : List Call) : Finset VisitorHash := visitors calls \ live now calls

/-- After each call there are entries for the visitors of the preceding window, and `k` more. -/
def Bounded (cap : ℤ) (k : ℕ) (calls : List Call) : Prop :=
  ∀ pre c post, calls = pre ++ c :: post →
    activeVisitors (after (newBurstGuard cap) (pre ++ [c])) ≤ (live c.now (pre ++ [c])).card + k

/-- At each call at most `k` of the visitors seen are not of the preceding window. -/
def FewStale (k : ℕ) (calls : List Call) : Prop :=
  ∀ pre c post, calls = pre ++ c :: post → (stale c.now (pre ++ [c])).card ≤ k

/-- The 16 bytes of a hash. -/
def IsHash (hash : VisitorHash) : Prop := hash.length = 16 ∧ ∀ b ∈ hash, b < 256

def hashCount : ℕ := 256 ^ 16

/-- A constant that is less than the number of all hashes bounds what any run keeps. -/
def BoundedByConstant (cap : ℤ) : Prop :=
  ∃ k, k + 2 ≤ hashCount ∧ ∀ calls, NonDecreasing calls → (∀ c ∈ calls, IsHash c.visitorHash) →
    Bounded cap k calls

/-- The shards hold an entry for each visitor of `s` and no other. -/
def Holds (g : ShardedGuard) (s : Finset VisitorHash) : Prop :=
  ∀ i, ((g.shards i).map Prod.fst).Nodup ∧
    ∀ hash, hash ∈ (g.shards i).map Prod.fst ↔ hash ∈ s ∧ shardOf hash = i

theorem Holds.activeVisitors {g : ShardedGuard} {s : Finset VisitorHash} (h : Holds g s) :
    activeVisitors g = s.card := by
  have hshard (i : Fin 256) : (g.shards i).length = (s.filter (fun v => shardOf v = i)).card := by
    have hset : ((g.shards i).map Prod.fst).toFinset = s.filter (fun v => shardOf v = i) := by
      ext hash
      rw [List.mem_toFinset, (h i).2, Finset.mem_filter]
    rw [← hset, List.toFinset_card_of_nodup (h i).1, List.length_map]
  simp only [BurstMemory.activeVisitors, hshard]
  exact (Finset.card_eq_sum_card_fiberwise fun v _ => Finset.mem_coe.mpr (Finset.mem_univ _)).symm

theorem map_put (m : Shard) (hash : VisitorHash) (e : BurstEntry) :
    (m.put hash e).map Prod.fst = hash :: (m.map Prod.fst).filter (fun v => v ≠ hash) := by
  simp [Shard.put, List.filter_map, Function.comp_def]

theorem Holds.put {g : ShardedGuard} {s : Finset VisitorHash} (h : Holds g s)
    (hash : VisitorHash) (e : BurstEntry) : Holds (g.put hash e) (insert hash s) := by
  intro i
  obtain ⟨hnodup, hmem⟩ := h i
  by_cases hi : i = shardOf hash
  · subst hi
    simp only [ShardedGuard.put, Function.update_self, map_put]
    refine ⟨List.nodup_cons.mpr ⟨by simp, hnodup.filter _⟩, fun v => ?_⟩
    rw [List.mem_cons, List.mem_filter, hmem, Finset.mem_insert]
    by_cases hv : v = hash <;> simp [hv]
  · simp only [ShardedGuard.put, Function.update_of_ne hi]
    refine ⟨hnodup, fun v => ?_⟩
    rw [hmem, Finset.mem_insert]
    constructor
    · rintro ⟨hv, rfl⟩
      exact ⟨.inr hv, rfl⟩
    · rintro ⟨rfl | hv, rfl⟩
      · exact absurd rfl hi
      · exact ⟨hv, rfl⟩

theorem Holds.of_entry {g : ShardedGuard} {s : Finset VisitorHash} (h : Holds g s)
    {hash : VisitorHash} {e : BurstEntry} (he : g.entry hash = some e) : hash ∈ s := by
  obtain ⟨kv, hkv, -⟩ := Option.map_eq_some_iff.mp he
  have hkey : kv.1 = hash := by simpa using List.find?_some hkv
  have hin := List.mem_map_of_mem (f := Prod.fst) (List.mem_of_find?_eq_some hkv)
  rw [hkey] at hin
  exact (((h _).2 hash).mp hin).1

/-- A call leaves an entry for its visitor, and all others. -/
theorem Holds.allow {g : ShardedGuard} {s : Finset VisitorHash} (h : Holds g s)
    (hcap : 0 < g.cap) (hash : VisitorHash) (now : ℤ) :
    Holds (g.allow hash now).2 (insert hash s) := by
  rw [ShardedGuard.allow, if_neg (by omega)]
  cases he : g.entry hash with
  | none => exact h.put hash _
  | some e =>
    simp only
    split_ifs
    · exact h.put hash _
    · rwa [Finset.insert_eq_of_mem (h.of_entry he)]
    · exact h.put hash _

theorem after_snoc (g : ShardedGuard) (calls : List Call) (c : Call) :
    after g (calls ++ [c]) = ((after g calls).allow c.visitorHash c.now).2 := by
  simp [after]

private theorem visitors_snoc (calls : List Call) (c : Call) :
    visitors (calls ++ [c]) = insert c.visitorHash (visitors calls) := by
  ext v
  simp [visitors]

/-- With a positive cap the guard holds all visitors that it has seen. -/
theorem after_holds {cap : ℤ} (hcap : 0 < cap) (calls : List Call) :
    (after (newBurstGuard cap) calls).cap = cap ∧
      Holds (after (newBurstGuard cap) calls) (visitors calls) := by
  induction calls using List.reverseRecOn with
  | nil => exact ⟨rfl, fun i => ⟨List.nodup_nil, by simp [visitors, after, newBurstGuard]⟩⟩
  | append_singleton calls c ih =>
    obtain ⟨hkeep, hholds⟩ := ih
    have hpos : 0 < (after (newBurstGuard cap) calls).cap := by rwa [hkeep]
    rw [after_snoc, visitors_snoc]
    exact ⟨(allow_enabled hpos _ _).2.1.trans hkeep, hholds.allow hpos _ _⟩

private theorem after_disabled {cap : ℤ} (hcap : cap ≤ 0) (calls : List Call) :
    after (newBurstGuard cap) calls = newBurstGuard cap := by
  induction calls using List.reverseRecOn with
  | nil => rfl
  | append_singleton calls c ih =>
    rw [after_snoc, ih, allow_disabled (g := newBurstGuard cap) hcap]

private theorem live_subset (now : ℤ) (calls : List Call) : live now calls ⊆ visitors calls := by
  intro v hv
  obtain ⟨c, hc, rfl⟩ := List.mem_map.mp (List.mem_toFinset.mp hv)
  exact List.mem_toFinset.mpr (List.mem_map_of_mem (List.mem_filter.mp hc).1)

private theorem activeVisitors_disabled {cap : ℤ} (hcap : cap ≤ 0) (calls : List Call) :
    activeVisitors (after (newBurstGuard cap) calls) = 0 := by
  rw [after_disabled hcap]
  simp [activeVisitors, newBurstGuard]

/-- The entries beyond those of the preceding window are those of the visitors that are gone. -/
theorem activeVisitors_eq {cap : ℤ} (hcap : 0 < cap) (now : ℤ) (calls : List Call) :
    activeVisitors (after (newBurstGuard cap) calls) =
      (live now calls).card + (stale now calls).card := by
  rw [(after_holds hcap calls).2.activeVisitors, stale, Nat.add_comm]
  exact (Finset.card_sdiff_add_card_eq_card (live_subset now calls)).symm

theorem bounded_iff (cap : ℤ) (k : ℕ) (calls : List Call) :
    Bounded cap k calls ↔ cap ≤ 0 ∨ FewStale k calls := by
  rcases le_or_gt cap 0 with hcap | hcap
  · simp [Bounded, activeVisitors_disabled hcap, hcap]
  · have hat (now : ℤ) (seen : List Call) :
        activeVisitors (after (newBurstGuard cap) seen) ≤ (live now seen).card + k ↔
          (stale now seen).card ≤ k := by
      rw [activeVisitors_eq hcap now seen, Nat.add_le_add_iff_left]
    simp only [Bounded, FewStale, hat, not_le.mpr hcap, false_or]

/-- A new visitor every two minutes. -/
def newVisitor (i : ℕ) : Call := ⟨Nat.digitsAppend 256 16 i, i * (2 * burstWindow)⟩

def newVisitors (n : ℕ) : List Call := (List.range n).map newVisitor

private theorem nonDecreasing_newVisitors (n : ℕ) : NonDecreasing (newVisitors n) := by
  have hrange : (List.range n).Pairwise (· < ·) := List.pairwise_lt_range
  refine List.pairwise_map.mpr (hrange.imp fun {i j} hij => ?_)
  simp only [newVisitor, burstWindow]
  omega

private theorem isHash_newVisitors {n : ℕ} (hn : n ≤ hashCount) :
    ∀ c ∈ newVisitors n, IsHash c.visitorHash := by
  intro c hc
  obtain ⟨i, hi, rfl⟩ := List.mem_map.mp hc
  have hlt : i < 256 ^ 16 := (List.mem_range.mp hi).trans_le hn
  exact ⟨Nat.length_digitsAppend (by decide) 16 hlt,
    fun b hb => Nat.lt_of_mem_digitsAppend (by decide) 16 b hb⟩

theorem visitorHash_injective : Function.Injective (fun i => (newVisitor i).visitorHash) := by
  intro i j hij
  have hdigits (i : ℕ) : Nat.ofDigits 256 (newVisitor i).visitorHash = i := by
    rw [newVisitor, Nat.digitsAppend, Nat.ofDigits_append_replicate_zero, Nat.ofDigits_digits]
  calc i = Nat.ofDigits 256 (newVisitor i).visitorHash := (hdigits i).symm
    _ = Nat.ofDigits 256 (newVisitor j).visitorHash := congrArg _ hij
    _ = j := hdigits j

/-- At the last of these calls all visitors before it are gone. -/
theorem stale_newVisitors (n : ℕ) :
    n ≤ (stale (newVisitor n).now (newVisitors n ++ [newVisitor n])).card := by
  have hgone : (Finset.range n).image (fun i => (newVisitor i).visitorHash) ⊆
      stale (newVisitor n).now (newVisitors n ++ [newVisitor n]) := by
    intro v hv
    obtain ⟨i, hi, rfl⟩ := Finset.mem_image.mp hv
    have hi := Finset.mem_range.mp hi
    refine Finset.mem_sdiff.mpr ⟨?_, fun hlive => ?_⟩
    · refine List.mem_toFinset.mpr (List.mem_map_of_mem (List.mem_append_left _ ?_))
      exact List.mem_map_of_mem (List.mem_range.mpr hi)
    · obtain ⟨c, hc, hsame⟩ := List.mem_map.mp (List.mem_toFinset.mp hlive)
      obtain ⟨hc, hnow⟩ := List.mem_filter.mp hc
      rw [newVisitors, ← List.map_singleton, ← List.map_append, ← List.range_succ] at hc
      obtain ⟨j, -, rfl⟩ := List.mem_map.mp hc
      obtain rfl := visitorHash_injective hsame
      have hnow := of_decide_eq_true hnow
      simp only [newVisitor, burstWindow] at hnow
      omega
  have hcard := Finset.card_le_card hgone
  rwa [Finset.card_image_of_injective _ visitorHash_injective, Finset.card_range] at hcard

private theorem not_fewStale (k : ℕ) : ¬ FewStale k (newVisitors (k + 2)) := by
  intro h
  have hsplit : newVisitors (k + 2) = newVisitors (k + 1) ++ newVisitor (k + 1) :: [] := by
    simp [newVisitors, List.range_succ]
  have hfew := h _ _ _ hsplit
  have hmany := stale_newVisitors (k + 1)
  omega

theorem not_boundedByConstant {cap : ℤ} (hcap : 0 < cap) : ¬ BoundedByConstant cap := by
  rintro ⟨k, hk, hbounded⟩
  have hrun := hbounded (newVisitors (k + 2)) (nonDecreasing_newVisitors _) (isHash_newVisitors hk)
  rcases (bounded_iff cap k _).mp hrun with hle | hfew
  · omega
  · exact not_fewStale k hfew

/-- The entries after each call stay within the visitors of the preceding window and a constant
exactly when the guard is disabled, or in a run at whose calls no more than the constant are
gone; no constant serves all runs of an enabled guard. -/
theorem memory_bounded_iff (cap : ℤ) :
    (∀ k calls, Bounded cap k calls ↔ cap ≤ 0 ∨ FewStale k calls) ∧
      (BoundedByConstant cap ↔ cap ≤ 0) := by
  refine ⟨bounded_iff cap, ?_, fun hcap => ?_⟩
  · intro h
    by_contra hcap
    exact not_boundedByConstant (not_le.mp hcap) h
  · refine ⟨0, by decide, fun calls _ _ => ?_⟩
    exact (bounded_iff cap 0 calls).mpr (.inl hcap)

/-- With the cap of 500 events a new visitor every two minutes outgrows any constant. -/
theorem memory_unbounded : ¬ BoundedByConstant 500 := not_boundedByConstant (by decide)

end Statnive.BurstMemory
