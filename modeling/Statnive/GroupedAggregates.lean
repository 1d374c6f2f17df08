import Mathlib.Algebra.BigOperators.Group.Finset.Basic
import Mathlib.Algebra.BigOperators.Group.Finset.Piecewise
import Mathlib.Data.List.Sort

/-!
# Grouped aggregates

Items are measured in a commutative monoid and their measures are added up for every key. An
aggregate of the aggregates is one of the items, by whatever the keys still tell.
-/

namespace Statnive.GroupedAggregates

variable {ι κ κ' M : Type*} [DecidableEq κ] [DecidableEq κ'] [AddCommMonoid M]

def total (m : ι → M) (s : Multiset ι) : M := (s.map m).sum

/-- A row for every key that occurs. -/
def groupBy (key : ι → κ) (m : ι → M) (s : Multiset ι) : Multiset (κ × M) :=
  (s.map key).dedup.map fun k => (k, total m (s.filter (key · = k)))

section Groups

variable {key : ι → κ} {m : ι → M} {s : Multiset ι}

@[simp] theorem total_zero (m : ι → M) : total m 0 = 0 := rfl

@[simp] theorem total_cons (m : ι → M) (i : ι) (s : Multiset ι) :
    total m (i ::ₘ s) = m i + total m s := by
  simp [total]

theorem total_congr {m' : ι → M} (h : ∀ i ∈ s, m i = m' i) : total m s = total m' s := by
  rw [total, total, Multiset.map_congr rfl h]

theorem groupBy_congr {key' : ι → κ} {m' : ι → M} (hkey : ∀ i ∈ s, key i = key' i)
    (hm : ∀ i ∈ s, m i = m' i) : groupBy key m s = groupBy key' m' s := by
  rw [groupBy, groupBy, Multiset.map_congr rfl hkey]
  refine Multiset.map_congr rfl fun k _ => ?_
  have hfilter : s.filter (key · = k) = s.filter (key' · = k) :=
    Multiset.filter_congr fun i hi => by rw [hkey i hi]
  rw [hfilter, total_congr fun i hi => hm i (Multiset.mem_of_mem_filter hi)]

/-- Grouping a renamed collection is grouping by the renamed keys. -/
theorem groupBy_map {ι' : Type*} (f : ι' → ι) (t : Multiset ι') :
    groupBy key m (t.map f) = groupBy (key ∘ f) (m ∘ f) t := by
  rw [groupBy, groupBy, Multiset.map_map]
  refine Multiset.map_congr rfl fun k _ => ?_
  rw [Multiset.filter_map, total, total, Multiset.map_map]
  rfl

theorem fst_groupBy : (groupBy key m s).map Prod.fst = (s.map key).dedup := by
  rw [groupBy, Multiset.map_map]
  exact Multiset.map_id _

theorem mem_groupBy {row : κ × M} : row ∈ groupBy key m s ↔
    (∃ i ∈ s, key i = row.1) ∧ row.2 = total m (s.filter (key · = row.1)) := by
  simp only [groupBy, Multiset.mem_map, Multiset.mem_dedup]
  constructor
  · rintro ⟨k, ⟨i, hi, rfl⟩, rfl⟩
    exact ⟨⟨i, hi, rfl⟩, rfl⟩
  · rintro ⟨⟨i, hi, hk⟩, htotal⟩
    exact ⟨row.1, ⟨i, hi, hk⟩, by rw [← htotal]⟩

/-- Rows are kept by their keys as the items are. -/
theorem filter_groupBy (p : κ → Prop) [DecidablePred p] :
    (groupBy key m s).filter (fun row => p row.1) =
      groupBy key m (s.filter fun i => p (key i)) := by
  have hkeys : ((s.filter fun i => p (key i)).map key).dedup = (s.map key).dedup.filter p := by
    refine ((Multiset.nodup_dedup _).ext ((Multiset.nodup_dedup _).filter p)).mpr fun k => ?_
    simp only [Multiset.mem_dedup, Multiset.mem_filter, Multiset.mem_map]
    constructor
    · rintro ⟨i, ⟨hi, hp⟩, rfl⟩
      exact ⟨⟨i, hi, rfl⟩, hp⟩
    · rintro ⟨⟨i, hi, rfl⟩, hp⟩
      exact ⟨i, ⟨hi, hp⟩, rfl⟩
  rw [groupBy, groupBy, hkeys, Multiset.filter_map]
  refine Multiset.map_congr rfl fun k hk => ?_
  have hp : p k := (Multiset.mem_filter.mp hk).2
  rw [Multiset.filter_filter]
  congr 2
  refine Multiset.filter_congr fun i _ => ?_
  exact ⟨fun h => ⟨h, h ▸ hp⟩, fun h => h.1⟩

@[simp] theorem groupBy_zero (key : ι → κ) (m : ι → M) : groupBy key m 0 = 0 := rfl

theorem groupBy_singleton (key : ι → κ) (m : ι → M) (i : ι) :
    groupBy key m {i} = {(key i, m i)} := by
  rw [groupBy, Multiset.map_singleton, Multiset.dedup_singleton, Multiset.map_singleton,
    Multiset.filter_singleton, if_pos rfl, total, Multiset.map_singleton, Multiset.sum_singleton]

/-- What is added up for the keys of a set is added up for the items with a key in it. -/
theorem sum_total (m : ι → M) (key : ι → κ) (K : Finset κ) {s : Multiset ι}
    (hs : ∀ i ∈ s, key i ∈ K) : ∑ k ∈ K, total m (s.filter (key · = k)) = total m s := by
  induction s using Multiset.induction_on with
  | empty => simp
  | cons i s ih =>
    have hcons (k : κ) : total m ((i ::ₘ s).filter (key · = k)) =
        (if key i = k then m i else 0) + total m (s.filter (key · = k)) := by
      by_cases hk : key i = k
      · rw [Multiset.filter_cons_of_pos s hk, total_cons, if_pos hk]
      · rw [Multiset.filter_cons_of_neg s hk, if_neg hk, zero_add]
    simp only [hcons, Finset.sum_add_distrib]
    rw [Finset.sum_ite_eq, if_pos (hs i (Multiset.mem_cons_self i s)),
      ih fun j hj => hs j (Multiset.mem_cons_of_mem hj), total_cons]

theorem total_groupBy : total Prod.snd (groupBy key m s) = total m s := by
  have hkeys : ∀ i ∈ s, key i ∈ (s.map key).toFinset := fun i hi =>
    Multiset.mem_toFinset.mpr (Multiset.mem_map_of_mem key hi)
  rw [← sum_total m key _ hkeys, total, groupBy, Multiset.map_map]
  rfl

/-- Rows are grouped as the items are. -/
theorem groupBy_groupBy (g : κ → κ') :
    groupBy (fun row => g row.1) Prod.snd (groupBy key m s) = groupBy (fun i => g (key i)) m s := by
  have hkeys : ((groupBy key m s).map fun row => g row.1).dedup =
      (s.map fun i => g (key i)).dedup := by
    have hfst : ((groupBy key m s).map fun row => g row.1) = (s.map key).dedup.map g := by
      rw [← fst_groupBy (m := m), Multiset.map_map]
      rfl
    rw [hfst, Multiset.dedup_map_dedup_eq, Multiset.map_map]
    rfl
  rw [groupBy, hkeys]
  refine Multiset.map_congr rfl fun k _ => ?_
  rw [filter_groupBy fun k' => g k' = k, total_groupBy]

/-- The rows tell the sums over the items, of any keys. -/
def Represents (key : ι → κ) (m : ι → M) (rows : Multiset (κ × M)) (s : Multiset ι) : Prop :=
  ∀ (p : κ → Prop) [DecidablePred p],
    total Prod.snd (rows.filter (fun row => p row.1)) = total m (s.filter fun i => p (key i))

omit [DecidableEq κ] in
theorem represents_zero (key : ι → κ) (m : ι → M) : Represents key m 0 0 := fun _ _ => rfl

theorem represents_groupBy (key : ι → κ) (m : ι → M) (s : Multiset ι) :
    Represents key m (groupBy key m s) s := by
  intro p _
  rw [filter_groupBy p, total_groupBy]

omit [DecidableEq κ] in
theorem Represents.add {rows rows' : Multiset (κ × M)} {t : Multiset ι}
    (h : Represents key m rows s) (h' : Represents key m rows' t) :
    Represents key m (rows + rows') (s + t) := by
  intro p _
  simp only [Multiset.filter_add, total, Multiset.map_add, Multiset.sum_add]
  exact congrArg₂ (· + ·) (h p) (h' p)

end Groups

variable {ρ : Type*}

/-- The lists that the rows may be returned as: which of the rows that compare alike come
first, and so which of them are cut off, is left open. -/
def Answers (le : ρ → ρ → Prop) (limit : Option ℕ) (rows : Multiset ρ) : Set (List ρ) :=
  {out | ∃ l : List ρ, (l : Multiset ρ) = rows ∧ l.Pairwise le ∧ out = limit.elim l l.take}

theorem answers_congr {le le' : ρ → ρ → Prop} {limit : Option ℕ} {rows : Multiset ρ}
    (h : ∀ a ∈ rows, ∀ b ∈ rows, (le a b ↔ le' a b)) :
    Answers le limit rows = Answers le' limit rows := by
  ext out
  refine exists_congr fun l => and_congr_right fun hl => and_congr_left fun _ => ?_
  subst hl
  exact List.Pairwise.iff_of_mem fun ha hb => h _ ha _ hb

/-- Rows that fit within the limit are all returned. -/
theorem coe_of_mem_answers {le : ρ → ρ → Prop} {limit : Option ℕ} {rows : Multiset ρ}
    {out : List ρ} (h : out ∈ Answers le limit rows) (hlimit : ∀ n, limit = some n → rows.card ≤ n) :
    (out : Multiset ρ) = rows := by
  obtain ⟨l, hl, -, rfl⟩ := h
  cases limit with
  | none => exact hl
  | some n =>
    have hlen : l.length ≤ n := by
      have hcard := hlimit n rfl
      rwa [← hl, Multiset.coe_card] at hcard
    rw [Option.elim_some, List.take_of_length_le hlen, hl]

theorem answers_nonempty_of_card_le_one {le : ρ → ρ → Prop} {limit : Option ℕ}
    {rows : Multiset ρ} (h : rows.card ≤ 1) : (Answers le limit rows).Nonempty := by
  refine ⟨_, rows.toList, rows.coe_toList, ?_, rfl⟩
  rw [← Multiset.length_toList] at h
  match hl : rows.toList with
  | [] => exact List.Pairwise.nil
  | [a] => exact List.pairwise_singleton _ a
  | a :: b :: l => simp [hl] at h

theorem answers_nonempty {le : ρ → ρ → Prop} [DecidableRel le] [Std.Total le] [IsTrans ρ le]
    {limit : Option ℕ} {rows : Multiset ρ} : (Answers le limit rows).Nonempty := by
  refine ⟨_, rows.toList.insertionSort le, ?_, List.pairwise_insertionSort le _, rfl⟩
  rw [Multiset.coe_eq_coe.mpr (List.perm_insertionSort le _), Multiset.coe_toList]

/-- Answers that nothing is cut off of tell the rows. -/
theorem rows_eq_of_answers {le le' : ρ → ρ → Prop} {limit : Option ℕ} {rows rows' : Multiset ρ}
    (h : Answers le limit rows = Answers le' limit rows') (hne : (Answers le limit rows).Nonempty)
    (hlimit : ∀ n, limit = some n → rows.card ≤ n ∧ rows'.card ≤ n) : rows = rows' := by
  obtain ⟨out, hout⟩ := hne
  rw [← coe_of_mem_answers hout fun n hn => (hlimit n hn).1]
  rw [h] at hout
  exact coe_of_mem_answers hout fun n hn => (hlimit n hn).2

end Statnive.GroupedAggregates
