import Mathlib.Algebra.Ring.Nat
import Mathlib.Data.List.Perm.Subperm
import Mathlib.Data.List.Nodup
import Mathlib.Data.List.Pairwise

/-!
# Accounting with lists

A list of items splits into those handled and those lost or skipped. These lemmas say
when the handled part covers the items of interest, and when it is a prefix of them.
-/

namespace Statnive.ListAccounting

variable {α : Type*}

/-- The handled part covers the items that satisfy `p` exactly when no lost one does. -/
theorem filter_subperm_iff {all handled lost : List α} (p : α → Bool)
    (h : all.Perm (handled ++ lost)) :
    (all.filter p).Subperm handled ↔ ∀ x ∈ lost, p x = false := by
  have hf := h.filter p
  rw [List.filter_append] at hf
  constructor
  · intro hs
    have hlen := (hs.filter p).length_le
    simp only [List.filter_filter, Bool.and_self, hf.length_eq, List.length_append] at hlen
    have hnil : lost.filter p = [] := List.length_eq_zero_iff.mp (by omega)
    intro x hx
    simpa using List.filter_eq_nil_iff.mp hnil x hx
  · intro hx
    have hnil : lost.filter p = [] := List.filter_eq_nil_iff.mpr (fun x hm => by simp [hx x hm])
    rw [hnil, List.append_nil] at hf
    exact hf.subperm.trans List.filter_sublist.subperm

/-- The handled part is everything exactly when nothing was lost. -/
theorem subperm_iff_lost_eq_nil {all handled lost : List α} (h : all.Perm (handled ++ lost)) :
    all.Subperm handled ↔ lost = [] := by
  have hf := filter_subperm_iff (fun _ => true) h
  simp only [List.filter_true] at hf
  rw [hf, List.eq_nil_iff_forall_not_mem]
  simp

/-- Taking the item at position `k` next keeps the taken list a prefix exactly when
no earlier item was skipped. -/
theorem snoc_prefix_iff {all taken : List α} {k : ℕ} {x : α} (hnodup : all.Nodup)
    (hk : all[k]? = some x) (hlen : taken.length ≤ k) :
    taken ++ [x] <+: all ↔ taken <+: all ∧ taken.length = k := by
  constructor
  · intro h
    refine ⟨(List.prefix_append taken [x]).trans h, ?_⟩
    have hx : all[taken.length]? = some x := by
      have := List.prefix_iff_getElem?.mp h taken.length (by simp)
      simpa using this
    have hkl : k < all.length := (List.getElem?_eq_some_iff.mp hk).1
    exact (List.getElem?_inj (by omega) hnodup).mp (hx.trans hk.symm)
  · rintro ⟨⟨rest, rfl⟩, rfl⟩
    cases rest with
    | nil => simp at hk
    | cons y rest =>
      simp only [List.getElem?_append_right (Nat.le_refl _), Nat.sub_self, List.getElem?_cons_zero,
        Option.some.injEq] at hk
      exact ⟨rest, by simp [hk]⟩

/-- If what the entries of a log contribute is free of duplicates, an item tells which
entry contributed it. -/
theorem eq_of_nodup_flatMap {β : Type*} {log : List α} {f : α → List β} {a b : α} {x : β}
    (h : (log.flatMap f).Nodup) (ha : a ∈ log) (hb : b ∈ log) (hxa : x ∈ f a) (hxb : x ∈ f b) :
    a = b := by
  by_contra hne
  have hpair := (List.nodup_flatMap.mp h).2
  have : Std.Symm (Function.onFun List.Disjoint f) := ⟨fun _ _ hd _ hu hv => hd hv hu⟩
  exact hpair.forall ha hb hne hxa hxb

theorem getElem?_modify_eq_some {f : α → α} {l : List α} {c d : ℕ} {k' : α}
    (h : (l.modify c f)[d]? = some k') : ∃ k, l[d]? = some k ∧ k' = if c = d then f k else k := by
  rw [List.getElem?_modify, Option.map_eq_map, Option.map_eq_some_iff] at h
  obtain ⟨k, hk, rfl⟩ := h
  exact ⟨k, hk, rfl⟩

theorem mem_modify {l : List α} {i : ℕ} {f : α → α} {a : α} (h : a ∈ l.modify i f) :
    a ∈ l ∨ ∃ b, l[i]? = some b ∧ a = f b := by
  obtain ⟨j, hj⟩ := List.getElem?_of_mem h
  obtain ⟨b, hb, rfl⟩ := getElem?_modify_eq_some hj
  by_cases hij : i = j
  · subst hij
    exact Or.inr ⟨b, hb, by simp⟩
  · rw [if_neg hij]
    exact Or.inl (List.mem_of_getElem? hb)

private theorem sum_map_filter_le (f : α → ℕ) (p : α → Bool) (l : List α) :
    ((l.filter p).map f).sum ≤ (l.map f).sum := by
  induction l with
  | nil => simp
  | cons a l ih =>
    cases ha : p a with
    | true => simpa [ha] using ih
    | false =>
      simp only [List.filter_cons, ha, Bool.false_eq_true, if_false, List.map_cons, List.sum_cons]
      omega

/-- A sum is that of a part exactly when the rest adds nothing. -/
theorem sum_map_filter_eq_iff {f : α → ℕ} {p : α → Bool} (l : List α) :
    (l.map f).sum = ((l.filter p).map f).sum ↔ ∀ a ∈ l, p a = false → f a = 0 := by
  induction l with
  | nil => simp
  | cons a l ih =>
    have hle := sum_map_filter_le f p l
    rw [List.forall_mem_cons]
    cases ha : p a with
    | true => simpa [ha] using ih
    | false =>
      simp only [List.filter_cons, ha, Bool.false_eq_true, if_false, List.map_cons, List.sum_cons,
        true_imp_iff]
      constructor
      · intro hsum
        exact ⟨by omega, ih.mp (by omega)⟩
      · rintro ⟨hzero, hrest⟩
        simpa [hzero] using ih.mpr hrest

end Statnive.ListAccounting
