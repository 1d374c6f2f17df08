import Statnive.CampaignTree
import Mathlib.Algebra.Order.Ring.Cast
import Mathlib.Data.List.Forall2

/-!
# The rows behind the campaign tree

Each node stands for the rows whose utm tuple starts with the path of the node. The order of the
rows shows in nothing but the order of ties and of terms.
-/

namespace Statnive.CampaignTotals

open GroupedRows CampaignTree

/-- A node of a tree, with the raw values on the way to it. -/
inductive At : List CampaignTreeNode → List String → CampaignTreeNode → Prop
  | top {nodes : List CampaignTreeNode} {n : CampaignTreeNode} (h : n ∈ nodes) :
    At nodes [n.rawValue] n
  | child {nodes : List CampaignTreeNode} {m n : CampaignTreeNode} {path : List String}
    (hm : m ∈ nodes) (hn : At m.children path n) : At nodes (m.rawValue :: path) n

/-- The rows whose tuple starts with a path. -/
def rowsAt (levels : Levels) (path : List String) (rows : List CampaignRow) : List CampaignRow :=
  rows.filter fun r => path <+: tuple levels r

/-- What revenue and views make of the order of siblings. -/
def rank (n : CampaignTreeNode) : ℤ × ℤ := (n.revenue, n.views)

structure Siblings (nodes : List CampaignTreeNode) : Prop where
  distinct : (nodes.map (·.rawValue)).Nodup
  ordered : nodes.Pairwise fun a b =>
    b.revenue < a.revenue ∨ b.revenue = a.revenue ∧ b.views ≤ a.views

/-- The distinct terms, without the empty one. -/
def termsOf (rows : List CampaignRow) : List String :=
  ((rows.map (·.utmTerm)).filter (· ≠ "")).eraseDups

/-- What the node `n` at a path has to do with the rows. -/
structure Accounts (levels : Levels) (rows : List CampaignRow) (path : List String)
    (n : CampaignTreeNode) : Prop where
  metrics : n.toMetrics = sumsOf ((rowsAt levels path rows).map (·.toMetrics))
  parent : n.children ≠ [] → n.toMetrics = sumsOf (n.children.map (·.toMetrics))
  siblings : Siblings n.children
  leaf : n.children = [] → path.length = levels.length ∧ n.terms = termsOf (rowsAt levels path rows)

/-- `R` holds of the data of the nodes, `T` of the children as they stand, and the children match in
some order. -/
inductive Matches (R : NodeData → NodeData → Prop)
    (T : List CampaignTreeNode → List CampaignTreeNode → Prop) :
    CampaignTreeNode → CampaignTreeNode → Prop
  | mk {n n' : CampaignTreeNode} {mid : List CampaignTreeNode}
    (data : R n.toNodeData n'.toNodeData) (siblings : T n.children n'.children)
    (children : List.Forall₂ (Matches R T) n.children mid) (perm : mid.Perm n'.children) :
    Matches R T n n'

/-- Trees of which the nodes at the top match, in some order. -/
def TreesMatch (R : NodeData → NodeData → Prop)
    (T : List CampaignTreeNode → List CampaignTreeNode → Prop)
    (nodes nodes' : List CampaignTreeNode) : Prop :=
  T nodes nodes' ∧ ∃ mid, List.Forall₂ (Matches R T) nodes mid ∧ mid.Perm nodes'

/-- The same but for the order of the terms. -/
def SameButTerms (a b : NodeData) : Prop :=
  { a with terms := [] } = { b with terms := [] } ∧ a.terms.Perm b.terms

/-- Siblings that differ in the order of ties at most. -/
def SameRanks (nodes nodes' : List CampaignTreeNode) : Prop := nodes.map rank = nodes'.map rank

theorem byRevenueDesc_le_iff (a b : NodeData) : byRevenueDesc a b ≤ 0 ↔
    b.revenue < a.revenue ∨ b.revenue = a.revenue ∧ b.views ≤ a.views := by
  rw [byRevenueDesc]
  by_cases h : b.revenue = a.revenue
  · simp [h]
  · rw [if_pos h, sub_nonpos, Int.cast_le]
    omega

instance : Std.Total fun a b : CampaignTreeNode => byRevenueDesc a.toNodeData b.toNodeData ≤ 0 where
  total a b := by
    simp only [byRevenueDesc_le_iff]
    omega

instance : IsTrans CampaignTreeNode fun a b => byRevenueDesc a.toNodeData b.toNodeData ≤ 0 where
  trans a b c := by
    simp only [byRevenueDesc_le_iff]
    omega

theorem sortSiblings_perm (cmp : NodeData → NodeData → ℚ) (nodes : List CampaignTreeNode) :
    (sortSiblings cmp nodes).Perm nodes := List.perm_insertionSort _ nodes

private theorem ordered_sortSiblings (nodes : List CampaignTreeNode) :
    (sortSiblings byRevenueDesc nodes).Pairwise fun a b =>
      b.revenue < a.revenue ∨ b.revenue = a.revenue ∧ b.views ≤ a.views :=
  (List.pairwise_insertionSort (fun a b : CampaignTreeNode =>
    byRevenueDesc a.toNodeData b.toNodeData ≤ 0) nodes).imp fun h => (byRevenueDesc_le_iff _ _).mp h

variable {levels : Levels} {level : CampaignTreeLevel} {value : CampaignRow → String}
  {parentPath : String} {rows rows' : List CampaignRow} {n : CampaignTreeNode} {path : List String}

theorem tree_cons_perm : (tree ((level, value) :: levels) parentPath rows).Perm
    ((keys value rows).map fun k => nodeOf level levels parentPath (ofKey value rows k) k
      (tree levels (childKey parentPath k) (ofKey value rows k))) := by
  rw [tree]
  exact sortSiblings_perm _ _

theorem siblings_tree : Siblings (tree levels parentPath rows) := by
  cases levels with
  | nil => exact ⟨List.nodup_nil, .nil⟩
  | cons l levels =>
    refine ⟨?_, ?_⟩
    · rw [(tree_cons_perm.map _).nodup_iff, List.map_map]
      exact (List.map_id (keys l.2 rows)).symm ▸ nodup_keys
    · rw [tree]
      exact ordered_sortSiblings _

theorem dedupeTerms_eq (terms : List String) :
    dedupeTerms terms = (terms.filter (· ≠ "")).eraseDups := by
  induction terms using List.reverseRecOn with
  | nil => rfl
  | append_singleton terms term ih =>
    rw [dedupeTerms, List.foldl_append, ← dedupeTerms, ih, List.foldl_cons, List.foldl_nil,
      List.filter_append]
    by_cases hempty : term = ""
    · simp [hempty]
    · rw [List.filter_cons_of_pos (by simpa), List.filter_nil, eraseDups_concat]
      simp [hempty]

theorem rowsAt_cons (k : String) : rowsAt ((level, value) :: levels) (k :: path) rows =
    rowsAt levels path (ofKey value rows k) := by
  rw [rowsAt, rowsAt, ofKey, List.filter_filter]
  refine List.filter_congr fun r _ => ?_
  rw [← Bool.decide_and, decide_eq_decide, tuple, List.map_cons, List.cons_prefix_cons, ← tuple,
    and_comm, eq_comm]

theorem rowsAt_nil : rowsAt levels [] rows = rows := by
  simp [rowsAt]

theorem at_iff {nodes : List CampaignTreeNode} : At nodes path n ↔
    ∃ m ∈ nodes, (path = [m.rawValue] ∧ n = m) ∨
      ∃ path', path = m.rawValue :: path' ∧ At m.children path' n := by
  constructor
  · intro h
    cases h with
    | top hn => exact ⟨n, hn, .inl ⟨rfl, rfl⟩⟩
    | child hm hn => exact ⟨_, hm, .inr ⟨_, rfl, hn⟩⟩
  · rintro ⟨m, hm, ⟨rfl, rfl⟩ | ⟨path', rfl, hn⟩⟩
    · exact .top hm
    · exact .child hm hn

private theorem tree_ne_nil {l : CampaignTreeLevel × (CampaignRow → String)} (hrows : rows ≠ []) :
    tree (l :: levels) parentPath rows ≠ [] := by
  obtain ⟨r, hr⟩ := List.exists_mem_of_ne_nil rows hrows
  intro hnil
  have hperm : List.Perm _ (tree (l :: levels) parentPath rows) := tree_cons_perm.symm
  rw [hnil, List.perm_nil, List.map_eq_nil_iff] at hperm
  exact absurd (mem_keys.mpr ⟨r, hr, rfl⟩) (hperm ▸ List.not_mem_nil)

/-- The nodes at the top add up to all the rows. -/
theorem sum_tree (l : CampaignTreeLevel × (CampaignRow → String)) :
    ((tree (l :: levels) parentPath rows).map (·.toMetrics)).sum = total rows := by
  rw [(tree_cons_perm.map _).sum_eq, List.map_map]
  exact sum_keys l.2 (·.toMetrics) rows

private theorem accounts_nodeOf {k : String} (hk : k ∈ keys value rows) :
    Accounts ((level, value) :: levels) rows [k] (nodeOf level levels parentPath
      (ofKey value rows k) k (tree levels (childKey parentPath k) (ofKey value rows k))) where
  metrics := by
    rw [rowsAt_cons, rowsAt_nil, ← sum_eq_sumsOf]
    rfl
  parent hchildren := by
    cases levels with
    | nil => exact absurd rfl hchildren
    | cons l levels => exact (sum_tree l).symm.trans (sum_eq_sumsOf _)
  siblings := siblings_tree
  leaf hchildren := by
    cases levels with
    | nil =>
      refine ⟨rfl, ?_⟩
      rw [rowsAt_cons, rowsAt_nil]
      exact dedupeTerms_eq _
    | cons l levels =>
      refine absurd hchildren (tree_ne_nil fun hnil => ?_)
      obtain ⟨r, hr, heq⟩ := mem_keys.mp hk
      have hmem : r ∈ ofKey value rows k := List.mem_filter.mpr ⟨hr, by simpa using heq⟩
      exact absurd hmem (hnil ▸ List.not_mem_nil)

private theorem accounts_of_at (h : At (tree levels parentPath rows) path n) :
    Accounts levels rows path n := by
  induction levels generalizing parentPath rows path with
  | nil =>
    obtain ⟨m, hm, -⟩ := at_iff.mp h
    exact absurd hm List.not_mem_nil
  | cons l levels ih =>
    obtain ⟨level, value⟩ := l
    obtain ⟨m, hm, hcases⟩ := at_iff.mp h
    obtain ⟨k, hk, rfl⟩ := List.mem_map.mp (tree_cons_perm.mem_iff.mp hm)
    obtain ⟨rfl, rfl⟩ | ⟨path', rfl, hn⟩ := hcases
    · exact accounts_nodeOf hk
    · obtain ⟨hmetrics, hparent, hsiblings, hleaf⟩ := ih hn
      refine ⟨?_, hparent, hsiblings, fun hchildren => ?_⟩
      · rw [hmetrics]
        exact congrArg (fun rs => sumsOf (rs.map (·.toMetrics))) (rowsAt_cons k).symm
      · obtain ⟨hlength, hterms⟩ := hleaf hchildren
        refine ⟨congrArg (· + 1) hlength, ?_⟩
        rw [hterms]
        exact congrArg termsOf (rowsAt_cons k).symm

private theorem not_at_nil {nodes : List CampaignTreeNode} : ¬ At nodes [] n := by
  intro h
  obtain ⟨m, -, ⟨h, -⟩ | ⟨path, h, -⟩⟩ := at_iff.mp h
  · cases h
  · cases h

/-- There is a node for each way that a tuple of the rows begins, and for no other. -/
theorem exists_at_iff : (∃ n, At (tree levels parentPath rows) path n) ↔
    path ≠ [] ∧ rowsAt levels path rows ≠ [] := by
  induction levels generalizing parentPath rows path with
  | nil =>
    have hnone : rowsAt [] path rows ≠ [] → path = [] := fun h => by
      obtain ⟨r, hr⟩ := List.exists_mem_of_ne_nil _ h
      simpa [rowsAt, tuple] using (List.mem_filter.mp hr).2
    constructor
    · rintro ⟨n, hn⟩
      obtain ⟨m, hm, -⟩ := at_iff.mp hn
      exact absurd hm List.not_mem_nil
    · exact fun ⟨hpath, hrows⟩ => absurd (hnone hrows) hpath
  | cons l levels ih =>
    obtain ⟨level, value⟩ := l
    cases path with
    | nil => exact iff_of_false (fun ⟨n, hn⟩ => not_at_nil hn) fun h => h.1 rfl
    | cons k path =>
      have hkey : ofKey value rows k ≠ [] → k ∈ keys value rows := fun h => by
        obtain ⟨r, hr⟩ := List.exists_mem_of_ne_nil _ h
        obtain ⟨hr, hk⟩ := List.mem_filter.mp hr
        exact mem_keys.mpr ⟨r, hr, by simpa using hk⟩
      rw [rowsAt_cons]
      constructor
      · rintro ⟨n, hn⟩
        refine ⟨List.cons_ne_nil _ _, ?_⟩
        obtain ⟨m, hm, hcases⟩ := at_iff.mp hn
        obtain ⟨k', hk', rfl⟩ := List.mem_map.mp (tree_cons_perm.mem_iff.mp hm)
        obtain ⟨r, hr, hk'⟩ := mem_keys.mp hk'
        obtain ⟨hpath, -⟩ | ⟨path', hpath, hn⟩ := hcases
        · obtain ⟨rfl, rfl⟩ := List.cons.inj hpath
          have hmem : r ∈ ofKey value rows k := List.mem_filter.mpr ⟨hr, by simpa using hk'⟩
          rw [rowsAt_nil]
          exact List.ne_nil_of_mem hmem
        · obtain ⟨rfl, rfl⟩ := List.cons.inj hpath
          exact (ih.mp ⟨n, hn⟩).2
      · rintro ⟨-, hrows⟩
        have hof : ofKey value rows k ≠ [] := fun hnil => hrows (by rw [hnil, rowsAt, List.filter_nil])
        have hm := tree_cons_perm.mem_iff.mpr (List.mem_map_of_mem (f := fun k =>
          nodeOf level levels parentPath (ofKey value rows k) k
            (tree levels (childKey parentPath k) (ofKey value rows k))) (hkey hof))
        by_cases hpath : path = []
        · subst hpath
          exact ⟨_, .top hm⟩
        · obtain ⟨n, hn⟩ := ih.mpr ⟨hpath, hrows⟩
          exact ⟨n, .child hm hn⟩

theorem total_perm (h : rows.Perm rows') : total rows = total rows' := (h.map _).sum_eq

private theorem dedupeTerms_perm (h : rows.Perm rows') :
    (dedupeTerms (leafTerms levels rows)).Perm (dedupeTerms (leafTerms levels rows')) := by
  rw [dedupeTerms_eq, dedupeTerms_eq, leafTerms, leafTerms]
  split
  · exact eraseDups_perm ((h.map _).filter _)
  · exact .refl _

/-- Where the ranks are the same in some order, they are in the order of the siblings. -/
theorem sameRanks_of_perm {nodes nodes' : List CampaignTreeNode} (h : Siblings nodes)
    (h' : Siblings nodes') (hperm : (nodes.map rank).Perm (nodes'.map rank)) :
    SameRanks nodes nodes' := by
  have hpairwise : ∀ {ns : List CampaignTreeNode}, Siblings ns →
      (ns.map rank).Pairwise fun a b => b.1 < a.1 ∨ b.1 = a.1 ∧ b.2 ≤ a.2 :=
    fun hns => List.pairwise_map.mpr hns.ordered
  refine List.Perm.eq_of_pairwise ?_ (hpairwise h) (hpairwise h') hperm
  intro a b _ _ hab hba
  exact Prod.ext (by omega) (by omega)

private theorem tree_match (h : rows.Perm rows') : TreesMatch SameButTerms SameRanks
    (tree levels parentPath rows) (tree levels parentPath rows') := by
  induction levels generalizing parentPath rows rows' with
  | nil => exact ⟨rfl, [], .nil, .refl _⟩
  | cons l levels ih =>
    obtain ⟨level, value⟩ := l
    let f := fun (rows : List CampaignRow) k =>
      nodeOf level levels parentPath (ofKey value rows k) k
        (tree levels (childKey parentPath k) (ofKey value rows k))
    have hf : ∀ k, Matches SameButTerms SameRanks (f rows k) (f rows' k) := by
      intro k
      obtain ⟨hranks, mid, hmid, hperm⟩ :
          TreesMatch SameButTerms SameRanks (f rows k).children (f rows' k).children :=
        ih (ofKey_perm h)
      refine .mk ⟨?_, dedupeTerms_perm (ofKey_perm h)⟩ hranks hmid hperm
      simp only [f, nodeOf, total_perm (ofKey_perm h)]
    have hrank : ∀ k, rank (f rows k) = rank (f rows' k) := fun k => by
      simp only [f, nodeOf, rank, total_perm (ofKey_perm h)]
    have hkeys : ((keys value rows).map (f rows')).Perm
        (tree ((level, value) :: levels) parentPath rows') :=
      ((keys_perm h).map _).trans tree_cons_perm.symm
    -- Both lists are sorted, so that the same ranks in some order are the same ranks in order.
    refine ⟨sameRanks_of_perm siblings_tree siblings_tree ?_, ?_⟩
    · refine (tree_cons_perm.map rank).trans (List.Perm.trans ?_ (hkeys.map rank))
      rw [List.map_map, List.map_map]
      exact .of_eq (List.map_congr_left fun k _ => hrank k)
    · have hforall : List.Forall₂ (Matches SameButTerms SameRanks) ((keys value rows).map (f rows))
          ((keys value rows).map (f rows')) := by
        rw [List.forall₂_map_left_iff, List.forall₂_map_right_iff, List.forall₂_same]
        exact fun k _ => hf k
      obtain ⟨mid, hmid, hperm⟩ := List.perm_comp_forall₂ tree_cons_perm hforall
      exact ⟨mid, hmid, hperm.trans hkeys⟩

/-- What a sort does to the siblings, where it does `g` to each of them. -/
theorem children_match {R : NodeData → NodeData → Prop}
    {T : List CampaignTreeNode → List CampaignTreeNode → Prop} {nodes : List CampaignTreeNode}
    {g : CampaignTreeNode → CampaignTreeNode} (h : ∀ c ∈ nodes, Matches R T c (g c)) :
    List.Forall₂ (Matches R T) nodes (nodes.map g) := by
  rwa [List.forall₂_map_right_iff, List.forall₂_same]

private theorem map_perm_walkSort (cmp : NodeData → NodeData → ℚ) (nodes : List CampaignTreeNode) :
    (nodes.map fun c => { c with children := walkSort cmp c.children }).Perm
      (walkSort cmp nodes) := by
  rw [walkSort_eq]
  exact ((sortSiblings_perm cmp nodes).map _).symm

private theorem walkSort_match (cmp : NodeData → NodeData → ℚ) (nodes : List CampaignTreeNode) :
    TreesMatch Eq (fun _ _ => True) nodes (walkSort cmp nodes) := by
  induction nodes using siblings_induction with
  | step nodes ih =>
    refine ⟨trivial, _, children_match fun c hc => ?_, map_perm_walkSort cmp nodes⟩
    obtain ⟨-, mid, hmid, hperm⟩ := ih c hc
    exact .mk rfl trivial hmid hperm

/-- Every node is at a path. -/
theorem at_of_mem_treeNodes {nodes : List CampaignTreeNode} (h : n ∈ treeNodes nodes) :
    ∃ path, At nodes path n := by
  induction nodes using siblings_induction with
  | step nodes ih =>
    rw [treeNodes_eq] at h
    obtain ⟨c, hc, hn⟩ := List.mem_flatMap.mp h
    obtain rfl | hn := List.mem_cons.mp hn
    · exact ⟨_, .top hc⟩
    · obtain ⟨path, hpath⟩ := ih c hc hn
      exact ⟨_, .child hc hpath⟩

/-- The tree conserves its rows: there is a node for each way that a utm tuple begins, which has
what the rows of it add up to, and the nodes at the top have what all rows add up to. -/
theorem campaignTree_conserves (rows : List CampaignRow) :
    sumsOf ((buildCampaignTree rows).map (·.toMetrics)) = sumsOf (rows.map (·.toMetrics)) ∧
    (∀ path, (∃ n, At (buildCampaignTree rows) path n) ↔
      path ≠ [] ∧ ∃ r ∈ rows, path <+: tuple utmLevels r) ∧
    Siblings (buildCampaignTree rows) ∧
    (∀ n ∈ treeNodes (buildCampaignTree rows), ∃ path, At (buildCampaignTree rows) path n) ∧
    (∀ path n, At (buildCampaignTree rows) path n → Accounts utmLevels rows path n) ∧
    (∀ rows', rows.Perm rows' →
      TreesMatch SameButTerms SameRanks (buildCampaignTree rows) (buildCampaignTree rows')) ∧
    ∀ localeCompare key dir nodes,
      TreesMatch Eq (fun _ _ => True) nodes (sortCampaignTree localeCompare key dir nodes) := by
  refine ⟨?_, fun path => ?_, ?_, fun n => at_of_mem_treeNodes, fun path n h => ?_,
    fun rows' h => ?_, ?_⟩
  · rw [buildCampaignTree_eq, ← sum_eq_sumsOf, ← sum_eq_sumsOf]
    exact sum_tree _
  · have hrows : rowsAt utmLevels path rows ≠ [] ↔ ∃ r ∈ rows, path <+: tuple utmLevels r := by
      simp [rowsAt]
    rw [buildCampaignTree_eq, exists_at_iff, hrows]
  · rw [buildCampaignTree_eq]
    exact siblings_tree
  · rw [buildCampaignTree_eq] at h
    exact accounts_of_at h
  · rw [buildCampaignTree_eq, buildCampaignTree_eq]
    exact tree_match h
  · exact fun localeCompare key dir nodes => walkSort_match _ nodes

/-- A row of the campaign `spring` with the term of it. -/
def springRow (utmSource utmTerm : String) (views : ℤ) : CampaignRow where
  views := views
  visitors := 1
  goals := 0
  revenue := 0
  utmCampaign := "spring"
  utmSource := utmSource
  utmMedium := "cpc"
  utmContent := ""
  utmTerm := utmTerm

def springRows : List CampaignRow :=
  [springRow "google" "shoes" 3, springRow "bing" "boots" 2, springRow "google" "boots" 5]

/-- The node of a source has the views of its two rows, the node above it those of all three. -/
theorem campaignTree_conserves_spring :
    (∃ n, At (buildCampaignTree springRows) ["spring"] n ∧ n.views = 10) ∧
      ∃ n, At (buildCampaignTree springRows) ["spring", "google"] n ∧ n.views = 8 := by
  obtain ⟨-, hnodes, -, -, haccounts, -⟩ := campaignTree_conserves springRows
  have hmem : springRow "google" "shoes" 3 ∈ springRows := List.mem_cons_self
  constructor
  · obtain ⟨n, hn⟩ := (hnodes ["spring"]).mpr ⟨List.cons_ne_nil _ _, _, hmem, by decide⟩
    refine ⟨n, hn, (congrArg Metrics.views (haccounts _ n hn).metrics).trans ?_⟩
    decide +kernel
  · obtain ⟨n, hn⟩ := (hnodes ["spring", "google"]).mpr ⟨List.cons_ne_nil _ _, _, hmem, by decide⟩
    refine ⟨n, hn, (congrArg Metrics.views (haccounts _ n hn).metrics).trans ?_⟩
    decide +kernel

end Statnive.CampaignTotals
