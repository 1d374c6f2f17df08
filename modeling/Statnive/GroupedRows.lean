import Mathlib.Algebra.BigOperators.Group.List.Basic
import Mathlib.Data.List.Induction
import Mathlib.Data.List.Nodup
import Mathlib.Data.List.Perm.Basic

/-!
# Rows under their keys

Records are kept in a list, one for each key, in the order in which the keys come up. What a row
does to the record of its key is the same as what all the rows of the key do to a new record, one
after the other.
-/

namespace Statnive.GroupedRows

variable {R N K M : Type*} [DecidableEq K]

/-- `touch` on the record of a key, which is made and put behind the others where there is none. -/
def upsert (keyOf : N → K) (create : K → N) (k : K) (touch : N → N) : List N → List N
  | [] => [touch (create k)]
  | n :: ns => if keyOf n = k then touch n :: ns else n :: upsert keyOf create k touch ns

/-- The rows of a key. -/
def ofKey (key : R → K) (rows : List R) (k : K) : List R := rows.filter (key · = k)

/-- The keys of rows, each where it first comes up. -/
def keys (key : R → K) (rows : List R) : List K := (rows.map key).eraseDups

variable {keyOf : N → K} {create : K → N} {key : R → K} {rows rows' : List R} {k : K}

theorem eraseDups_concat (l : List K) (k : K) :
    (l ++ [k]).eraseDups = if k ∈ l then l.eraseDups else l.eraseDups ++ [k] := by
  rw [List.eraseDups_append]
  by_cases h : k ∈ l <;> simp [List.removeAll, List.eraseDups_cons, h]

theorem nodup_eraseDups (l : List K) : l.eraseDups.Nodup := by
  induction l using List.reverseRecOn with
  | nil => exact List.nodup_nil
  | append_singleton l k ih =>
    rw [eraseDups_concat]
    split
    · exact ih
    · rw [List.nodup_append]
      refine ⟨ih, List.nodup_singleton k, fun a ha b hb heq => ?_⟩
      rw [List.mem_singleton] at hb
      exact absurd (List.mem_eraseDups.mp ha) (heq ▸ hb ▸ ‹_›)

theorem eraseDups_perm {l l' : List K} (h : l.Perm l') : l.eraseDups.Perm l'.eraseDups :=
  (List.perm_ext_iff_of_nodup (nodup_eraseDups l) (nodup_eraseDups l')).mpr fun k => by
    rw [List.mem_eraseDups, List.mem_eraseDups, h.mem_iff]

theorem nodup_keys : (keys key rows).Nodup := nodup_eraseDups _

theorem mem_keys : k ∈ keys key rows ↔ ∃ r ∈ rows, key r = k := by
  rw [keys, List.mem_eraseDups, List.mem_map]

private theorem keys_concat (r : R) : keys key (rows ++ [r]) =
    if key r ∈ keys key rows then keys key rows else keys key rows ++ [key r] := by
  simp only [keys, List.mem_eraseDups]
  rw [List.map_append, List.map_singleton, eraseDups_concat]

theorem keys_perm (h : rows.Perm rows') : (keys key rows).Perm (keys key rows') :=
  eraseDups_perm (h.map key)

theorem ofKey_perm (h : rows.Perm rows') : (ofKey key rows k).Perm (ofKey key rows' k) :=
  h.filter _

private theorem upsert_map_of_mem
    {g : K → N} (hg : ∀ k, keyOf (g k) = k) {touch : N → N} {ks : List K}
    (hks : ks.Nodup) (hk : k ∈ ks) :
    upsert keyOf create k touch (ks.map g) =
      ks.map fun k' => if k' = k then touch (g k') else g k' := by
  induction ks with
  | nil => simp at hk
  | cons k' ks ih =>
    rw [List.nodup_cons] at hks
    rw [List.map_cons, upsert, hg, List.map_cons]
    by_cases heq : k' = k
    · subst heq
      rw [if_pos rfl, if_pos rfl]
      congr 1
      refine List.map_congr_left fun k'' hk'' => ?_
      rw [if_neg fun heq : k'' = k' => hks.1 (heq ▸ hk'')]
    · rw [if_neg heq, if_neg heq, ih hks.2 ((List.mem_cons.mp hk).resolve_left (Ne.symm heq))]

private theorem upsert_map_of_not_mem {g : K → N} (hg : ∀ k, keyOf (g k) = k) {touch : N → N}
    {ks : List K} (hk : k ∉ ks) :
    upsert keyOf create k touch (ks.map g) = ks.map g ++ [touch (create k)] := by
  induction ks with
  | nil => rfl
  | cons k' ks ih =>
    rw [List.mem_cons, not_or] at hk
    rw [List.map_cons, upsert, hg, if_neg (Ne.symm hk.1), ih hk.2, List.cons_append]

theorem ofKey_concat (r : R) : ofKey key (rows ++ [r]) k =
    if key r = k then ofKey key rows k ++ [r] else ofKey key rows k := by
  rw [ofKey, List.filter_append]
  split
  · rw [List.filter_cons_of_pos (by simpa), List.filter_nil, ofKey]
  · rw [List.filter_cons_of_neg (by simpa), List.filter_nil, List.append_nil, ofKey]

private theorem ofKey_eq_nil (h : k ∉ keys key rows) : ofKey key rows k = [] := by
  rw [ofKey, List.filter_eq_nil_iff]
  exact fun r hr => by simpa using fun heq : key r = k => h (mem_keys.mpr ⟨r, hr, heq⟩)

/-- The records after all the rows: one for each key, touched by the rows of the key. -/
theorem foldl_upsert (key : R → K) (touch : N → R → N) (hcreate : ∀ k, keyOf (create k) = k)
    (htouch : ∀ n r, keyOf (touch n r) = keyOf n) (rows : List R) :
    rows.foldl (fun ns r => upsert keyOf create (key r) (touch · r) ns) [] =
      (keys key rows).map fun k => (ofKey key rows k).foldl touch (create k) := by
  have hfold : ∀ (rs : List R) (n : N), keyOf (rs.foldl touch n) = keyOf n := by
    intro rs
    induction rs with
    | nil => exact fun _ => rfl
    | cons r rs ih => exact fun n => (ih (touch n r)).trans (htouch n r)
  have hkeyOf : ∀ rows k, keyOf ((ofKey key rows k).foldl touch (create k)) = k :=
    fun rows k => (hfold _ _).trans (hcreate k)
  induction rows using List.reverseRecOn with
  | nil => rfl
  | append_singleton rows r ih =>
    rw [List.foldl_append, ih, List.foldl_cons, List.foldl_nil, keys_concat]
    by_cases h : key r ∈ keys key rows
    · rw [if_pos h, upsert_map_of_mem (hkeyOf rows) nodup_keys h]
      refine List.map_congr_left fun k _ => ?_
      rw [ofKey_concat]
      by_cases heq : k = key r
      · rw [if_pos heq, if_pos heq.symm, List.foldl_append, List.foldl_cons, List.foldl_nil]
      · rw [if_neg heq, if_neg (Ne.symm heq)]
    · rw [if_neg h, upsert_map_of_not_mem (hkeyOf rows) h, List.map_append, List.map_singleton]
      congr 1
      · refine List.map_congr_left fun k hk => ?_
        rw [ofKey_concat, if_neg fun heq : key r = k => h (heq ▸ hk)]
      · rw [ofKey_concat, if_pos rfl, ofKey_eq_nil h, List.nil_append, List.foldl_cons,
          List.foldl_nil]

/-- What the rows of each key add up to adds up to what all of them do. -/
theorem sum_keys [AddCommMonoid M] (key : R → K) (f : R → M) (rows : List R) :
    ((keys key rows).map fun k => ((ofKey key rows k).map f).sum).sum = (rows.map f).sum := by
  have hsum : ∀ ks : List K, ks.Nodup → (∀ r ∈ rows, key r ∈ ks) →
      (ks.map fun k => ((ofKey key rows k).map f).sum).sum = (rows.map f).sum := by
    intro ks hks hrows
    induction rows with
    | nil => simp [ofKey]
    | cons r rows ih =>
      have hsplit : ∀ k, ((ofKey key (r :: rows) k).map f).sum =
          (if k = key r then f r else 0) + ((ofKey key rows k).map f).sum := by
        intro k
        by_cases h : key r = k
        · simp [ofKey, h]
        · simp [ofKey, h, Ne.symm h]
      simp only [hsplit]
      rw [List.sum_map_add, ih fun r' hr' => hrows r' (List.mem_cons_of_mem _ hr')]
      have hone : (ks.map fun k => if k = key r then f r else 0).sum = f r := by
        rw [List.sum_map_eq_nsmul_single (key r) _ fun k hk _ => if_neg hk, if_pos rfl,
          List.count_eq_one_of_mem hks (hrows r List.mem_cons_self), one_nsmul]
      rw [hone, List.map_cons, List.sum_cons]
  exact hsum _ nodup_keys fun r hr => mem_keys.mpr ⟨r, hr, rfl⟩

end Statnive.GroupedRows
