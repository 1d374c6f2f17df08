import Statnive.CampaignTree
import Mathlib.Data.Finset.Card

/-!
# The keys of the campaign tree

A row of the tree is told apart from the others by its path key, under which it is expanded and
collapsed. The key of a node whose parent has an empty key is the value of the node alone.
-/

namespace Statnive.CampaignKeys

open GroupedRows CampaignTree

mutual

def allPathKeys.walk (out : Finset String) : CampaignTreeNode → Finset String
  | ⟨data, children⟩ => allPathKeys.nodes (insert data.pathKey out) children

def allPathKeys.nodes (out : Finset String) : List CampaignTreeNode → Finset String
  | [] => out
  | n :: ns => allPathKeys.nodes (allPathKeys.walk out n) ns

end

def allPathKeys (tree : List CampaignTreeNode) : Finset String := allPathKeys.nodes ∅ tree

/-- The click on the arrow of a row. -/
def toggle (expanded : Finset String) (key : String) : Finset String :=
  if key ∈ expanded then expanded.erase key else insert key expanded

def isOpen (expanded : Finset String) (node : CampaignTreeNode) : Prop := node.pathKey ∈ expanded

/-- A click on either of two rows leaves the other one as it is. -/
def Independent (a b : CampaignTreeNode) : Prop :=
  ∀ expanded, (isOpen (toggle expanded a.pathKey) b ↔ isOpen expanded b) ∧
    (isOpen (toggle expanded b.pathKey) a ↔ isOpen expanded a)

structure UniqueKeys (tree : List CampaignTreeNode) : Prop where
  distinct : ((treeNodes tree).map (·.pathKey)).Nodup
  size : (allPathKeys tree).card = (treeNodes tree).length
  independent : (treeNodes tree).Pairwise Independent

/-- No NUL in the values of a utm tuple. -/
def NulFree (rows : List CampaignRow) : Prop :=
  ∀ r ∈ rows, ∀ l ∈ utmLevels, '\x00' ∉ (l.2 r).toList

/-- A row without a campaign has no source that is the campaign of a row. -/
def Clear (rows : List CampaignRow) : Prop :=
  ∀ r ∈ rows, r.utmCampaign = "" → ∀ r' ∈ rows, r.utmSource ≠ r'.utmCampaign

theorem allPathKeys_nodes (out : Finset String) (nodes : List CampaignTreeNode) :
    allPathKeys.nodes out nodes = out ∪ ((treeNodes nodes).map (·.pathKey)).toFinset := by
  induction nodes using siblings_induction generalizing out with
  | step nodes ih =>
    induction nodes generalizing out with
    | nil => simp [allPathKeys.nodes, treeNodes]
    | cons n nodes ihnodes =>
      obtain ⟨hn, hnodes⟩ := List.forall_mem_cons.mp ih
      obtain ⟨data, children⟩ := n
      rw [allPathKeys.nodes, allPathKeys.walk, hn, ihnodes hnodes, treeNodes, treeNodes.walk]
      ext key
      simp only [Finset.mem_union, Finset.mem_insert, List.mem_toFinset, List.map_append,
        List.map_cons, List.mem_append, List.mem_cons]
      tauto

private theorem mem_toggle (expanded : Finset String) (key key' : String) :
    (key' ∈ toggle expanded key ↔ key' ∈ expanded) ↔ key ≠ key' := by
  rw [toggle]
  by_cases heq : key = key'
  · subst heq
    by_cases h : key ∈ expanded <;> simp [h]
  · split <;> simp [Ne.symm heq, heq]

private theorem independent_iff {a b : CampaignTreeNode} : Independent a b ↔
    a.pathKey ≠ b.pathKey := by
  simp only [Independent, isOpen, mem_toggle]
  exact ⟨fun h => (h ∅).1, fun h _ => ⟨h, h.symm⟩⟩

private theorem uniqueKeys_iff (tree : List CampaignTreeNode) :
    UniqueKeys tree ↔ ((treeNodes tree).map (·.pathKey)).Nodup := by
  refine ⟨fun h => h.distinct, fun h => ⟨h, ?_, ?_⟩⟩
  · rw [allPathKeys, allPathKeys_nodes, Finset.empty_union, List.toFinset_card_of_nodup h,
      List.length_map]
  · exact (List.pairwise_map.mp h).imp independent_iff.mpr

variable {levels : Levels} {parentPath : String} {rows : List CampaignRow}
  {path p q : List String}

/-- The key of the node at a path below `parentPath`. -/
def pathKeyOf (parentPath : String) (path : List String) : String := path.foldl childKey parentPath

/-- The paths of a tree: of the nodes at the top, and of those under each of them. -/
def pathsOf : Levels → List CampaignRow → List (List String)
  | [], _ => []
  | (_, value) :: levels, rows => (keys value rows).flatMap fun k =>
    [k] :: (pathsOf levels (ofKey value rows k)).map (k :: ·)

private theorem pathKeys_perm : ((treeNodes (tree levels parentPath rows)).map (·.pathKey)).Perm
    ((pathsOf levels rows).map (pathKeyOf parentPath)) := by
  induction levels generalizing parentPath rows with
  | nil => exact .refl _
  | cons l levels ih =>
    obtain ⟨level, value⟩ := l
    rw [tree, treeNodes_eq, List.map_flatMap, pathsOf, List.map_flatMap]
    refine ((List.perm_insertionSort _ _).flatMap_right _).trans ?_
    rw [List.flatMap_map]
    refine .flatMap_left _ fun k _ => ?_
    rw [List.map_cons, List.map_cons, List.map_map]
    exact ih.cons _

theorem mem_pathsOf : path ∈ pathsOf levels rows ↔
    path ≠ [] ∧ ∃ r ∈ rows, path <+: tuple levels r := by
  induction levels generalizing rows path with
  | nil =>
    simp only [pathsOf, tuple, List.not_mem_nil, List.map_nil, List.prefix_nil, false_iff]
    rintro ⟨hne, -, -, hnil⟩
    exact hne hnil
  | cons l levels ih =>
    obtain ⟨level, value⟩ := l
    rw [pathsOf, List.mem_flatMap]
    constructor
    · rintro ⟨k, hk, hpath⟩
      obtain ⟨r, hr, rfl⟩ := mem_keys.mp hk
      obtain rfl | hpath := List.mem_cons.mp hpath
      · exact ⟨List.cons_ne_nil _ _, r, hr, by simp [tuple]⟩
      · obtain ⟨path', hpath', rfl⟩ := List.mem_map.mp hpath
        obtain ⟨-, r', hr', hpre'⟩ := ih.mp hpath'
        obtain ⟨hr', hkey⟩ := List.mem_filter.mp hr'
        refine ⟨List.cons_ne_nil _ _, r', hr', ?_⟩
        exact List.cons_prefix_cons.mpr ⟨(by simpa using hkey : value r' = value r).symm, hpre'⟩
    · rintro ⟨hne, r, hr, hpre⟩
      cases path with
      | nil => exact absurd rfl hne
      | cons k path' =>
        obtain ⟨rfl, hpre'⟩ := List.cons_prefix_cons.mp hpre
        refine ⟨value r, mem_keys.mpr ⟨r, hr, rfl⟩, ?_⟩
        by_cases hnil : path' = []
        · exact hnil ▸ List.mem_cons_self
        · refine List.mem_cons_of_mem _ (List.mem_map_of_mem (ih.mpr ⟨hnil, r, ?_, hpre'⟩))
          exact List.mem_filter.mpr ⟨hr, by simp⟩

private theorem nodup_pathsOf : (pathsOf levels rows).Nodup := by
  induction levels generalizing rows with
  | nil => exact List.nodup_nil
  | cons l levels ih =>
    obtain ⟨level, value⟩ := l
    rw [pathsOf, List.nodup_flatMap]
    refine ⟨fun k _ => ?_, ?_⟩
    · rw [List.nodup_cons]
      refine ⟨fun hmem => ?_, ih.map (List.cons_injective)⟩
      obtain ⟨path', hpath', heq⟩ := List.mem_map.mp hmem
      exact (mem_pathsOf.mp hpath').1 (List.cons.inj heq).2
    · refine nodup_keys.imp fun {k k'} hne path hpath hpath' => hne ?_
      have hhead : ∀ {k : String} {ps : List (List String)}, path ∈ [k] :: ps.map (k :: ·) →
          path.head? = some k := by
        intro k ps hmem
        obtain rfl | hmem := List.mem_cons.mp hmem
        · rfl
        · obtain ⟨path', -, rfl⟩ := List.mem_map.mp hmem
          rfl
      exact Option.some.inj ((hhead hpath).symm.trans (hhead hpath'))

/-- Path keys are distinct where no two paths have the same key. -/
theorem uniqueKeys_build_iff : UniqueKeys (buildCampaignTree rows) ↔
    ∀ p ∈ pathsOf utmLevels rows, ∀ q ∈ pathsOf utmLevels rows,
      pathKeyOf "" p = pathKeyOf "" q → p = q := by
  rw [uniqueKeys_iff, buildCampaignTree_eq, pathKeys_perm.nodup_iff,
    List.nodup_map_iff_inj_on nodup_pathsOf]

/-- A path without the empty values that it starts with. -/
def stripped (path : List String) : List String := path.dropWhile (· = "")

private theorem childKey_ne_empty {parentPath : String} (h : parentPath ≠ "") (v : String) :
    childKey parentPath v ≠ "" := by
  rw [childKey, if_neg h]
  intro heq
  have := congrArg String.toList heq
  simp [String.toList_append, pathSep] at this

private theorem intercalate_append_cons {α : Type*} (sep a b : List α) (ls : List (List α)) :
    sep.intercalate ((a ++ b) :: ls) = a ++ sep.intercalate (b :: ls) := by
  cases ls <;> simp

theorem toList_pathKeyOf {v : String} (hv : v ≠ "") (path : List String) :
    (pathKeyOf v path).toList = ['\x00'].intercalate ((v :: path).map String.toList) := by
  induction path generalizing v with
  | nil => simp [pathKeyOf]
  | cons w path ih =>
    rw [pathKeyOf, List.foldl_cons, ← pathKeyOf, ih (childKey_ne_empty hv w), childKey, if_neg hv,
      List.map_cons, String.toList_append, intercalate_append_cons, String.toList_append,
      List.map_cons, List.map_cons, List.intercalate_cons_cons]
    rfl

theorem toList_key (path : List String) :
    (pathKeyOf "" path).toList = ['\x00'].intercalate ((stripped path).map String.toList) := by
  induction path with
  | nil => rfl
  | cons v path ih =>
    rw [pathKeyOf, List.foldl_cons, childKey, if_pos rfl, ← pathKeyOf, stripped]
    by_cases hv : v = ""
    · rw [hv, List.dropWhile_cons_of_pos (by simp), ih, stripped]
    · rw [toList_pathKeyOf hv, List.dropWhile_cons_of_neg (by simpa)]

theorem stripped_cons (v : String) (path : List String) :
    stripped (v :: path) = if v = "" then stripped path else v :: path := by
  rw [stripped, List.dropWhile_cons, ← stripped]
  simp

theorem stripped_eq_nil (h : pathKeyOf "" path = "") : stripped path = [] := by
  induction path with
  | nil => rfl
  | cons v path ih =>
    rw [pathKeyOf, List.foldl_cons, childKey, if_pos rfl, ← pathKeyOf] at h
    rw [stripped_cons]
    by_cases hv : v = ""
    · rw [if_pos hv]
      exact ih (hv ▸ h)
    · obtain ⟨c, cs, hcs⟩ := List.exists_cons_of_ne_nil fun hnil => hv (String.toList_inj.mp hnil)
      have hjoin := toList_pathKeyOf hv path
      rw [h, List.map_cons, hcs, List.intercalate_cons_cons_left] at hjoin
      cases hjoin

/-- Paths without NULs that have the same key differ in the empty values at their start at most. -/
theorem stripped_eq_of_key (hp : ∀ v ∈ p, '\x00' ∉ v.toList) (hq : ∀ v ∈ q, '\x00' ∉ v.toList)
    (h : pathKeyOf "" p = pathKeyOf "" q) : stripped p = stripped q := by
  -- The empty key is the join of no values, which the split does not give back.
  by_cases hempty : pathKeyOf "" p = ""
  · rw [stripped_eq_nil hempty, stripped_eq_nil (h ▸ hempty)]
  have hsplit : ∀ path, (∀ v ∈ path, '\x00' ∉ v.toList) → pathKeyOf "" path ≠ "" →
      (pathKeyOf "" path).toList.splitOn '\x00' = (stripped path).map String.toList := by
    intro path hpath hkey
    rw [toList_key, List.splitOn_intercalate]
    · intro l hl
      obtain ⟨v, hv, rfl⟩ := List.mem_map.mp hl
      exact hpath v ((List.dropWhile_sublist _).subset hv)
    · intro hnil
      have hjoin := toList_key path
      rw [hnil] at hjoin
      exact hkey (String.toList_inj.mp hjoin)
  have hmap := hsplit p hp hempty
  rw [h, hsplit q hq (h ▸ hempty)] at hmap
  exact (List.map_injective_iff.mpr fun _ _ => String.toList_inj.mp) hmap.symm

/-- The two kinds of paths in a tree: those below a campaign, and those below the empty one. -/
theorem stripped_cases (hclear : Clear rows) (hpath : path ∈ pathsOf utmLevels rows) :
    (stripped path = path ∧ ∃ r ∈ rows, path.head? = some r.utmCampaign) ∨
    ∃ rest, path = "" :: rest ∧ stripped path = rest ∧
      ∀ r ∈ rows, rest.head? ≠ some r.utmCampaign := by
  obtain ⟨hne, r, hr, hpre⟩ := mem_pathsOf.mp hpath
  cases path with
  | nil => exact absurd rfl hne
  | cons c rest =>
    obtain ⟨rfl, hpre'⟩ := List.cons_prefix_cons.mp hpre
    by_cases hc : r.utmCampaign = ""
    · refine .inr ⟨rest, congrArg (· :: rest) hc, ?_⟩
      cases rest with
      | nil => exact ⟨by simp [stripped, hc], fun _ _ h => by cases h⟩
      | cons s rest =>
        obtain ⟨rfl, -⟩ := List.cons_prefix_cons.mp hpre'
        -- The row's own campaign is the empty one, so its source is not empty.
        have hsource : r.utmSource ≠ "" := hc ▸ hclear r hr hc r hr
        refine ⟨?_, fun r' hr' heq => hclear r hr hc r' hr' (Option.some.inj heq)⟩
        have htail : stripped (r.utmSource :: rest) = r.utmSource :: rest :=
          (stripped_cons _ _).trans (if_neg hsource)
        exact (stripped_cons _ _).trans ((if_pos hc).trans htail)
    · exact .inl ⟨(stripped_cons _ _).trans (if_neg hc), r, hr, rfl⟩

theorem eq_of_key (hnul : NulFree rows) (hclear : Clear rows) (hp : p ∈ pathsOf utmLevels rows)
    (hq : q ∈ pathsOf utmLevels rows) (h : pathKeyOf "" p = pathKeyOf "" q) : p = q := by
  have hfree : ∀ path ∈ pathsOf utmLevels rows, ∀ v ∈ path, '\x00' ∉ v.toList := by
    intro path hpath v hv
    obtain ⟨-, r, hr, hpre⟩ := mem_pathsOf.mp hpath
    obtain ⟨l, hl, rfl⟩ := List.mem_map.mp (hpre.subset hv)
    exact hnul r hr l hl
  have heq := stripped_eq_of_key (hfree p hp) (hfree q hq) h
  obtain ⟨hp', r, hr, hhead⟩ | ⟨rest, rfl, hp', hrest⟩ := stripped_cases hclear hp
  · obtain ⟨hq', -⟩ | ⟨rest', rfl, hq', hrest'⟩ := stripped_cases hclear hq
    · rw [← hp', ← hq', heq]
    · refine absurd hhead ?_
      rw [← hp', heq, hq']
      exact hrest' r hr
  · obtain ⟨hq', r, hr, hhead⟩ | ⟨rest', rfl, hq', -⟩ := stripped_cases hclear hq
    · refine absurd hhead ?_
      rw [← hq', ← heq, hp']
      exact hrest r hr
    · rw [← hp', ← hq', heq]

/-- A row without a campaign whose source is a campaign has two nodes of one key with it. -/
theorem exists_same_key (h : ¬ Clear rows) : ∃ p ∈ pathsOf utmLevels rows,
    ∃ q ∈ pathsOf utmLevels rows, pathKeyOf "" p = pathKeyOf "" q ∧ p ≠ q := by
  simp only [Clear, not_forall, not_not] at h
  obtain ⟨r, hr, hc, r', hr', hsource⟩ := h
  refine ⟨["", r.utmSource], ?_, [r.utmSource], ?_, ?_, ?_⟩
  · exact mem_pathsOf.mpr ⟨List.cons_ne_nil _ _, r, hr, by simp [tuple, utmLevels, hc]⟩
  · exact mem_pathsOf.mpr ⟨List.cons_ne_nil _ _, r', hr', by simp [tuple, utmLevels, hsource]⟩
  · simp [pathKeyOf, childKey]
  · simp

/-- Path keys are unique where no source of a row without a campaign is a campaign. -/
theorem uniqueKeys_iff_clear (h : NulFree rows) :
    UniqueKeys (buildCampaignTree rows) ↔ Clear rows := by
  rw [uniqueKeys_build_iff]
  constructor
  · intro hinj
    by_contra hclear
    obtain ⟨p, hp, q, hq, hkey, hne⟩ := exists_same_key hclear
    exact hne (hinj p hp q hq hkey)
  · exact fun hclear p hp q hq => eq_of_key h hclear hp hq

theorem uniqueKeys_iff_clear_spring :
    UniqueKeys (buildCampaignTree [
      { utmCampaign := "", utmSource := "google", utmMedium := "cpc", utmContent := "" },
      { utmCampaign := "spring", utmSource := "", utmMedium := "", utmContent := "" }]) := by
  refine (uniqueKeys_iff_clear ?_).mpr ?_
  · simp [NulFree, utmLevels]
  · simp [Clear]

/-- A row without a campaign from the source `spring`, and the campaign `spring`. -/
def sharedRows : List CampaignRow :=
  [{ utmCampaign := "", utmSource := "spring", utmMedium := "cpc", utmContent := "" },
    { utmCampaign := "spring", utmSource := "google", utmMedium := "", utmContent := "" }]

theorem keys_shared : NulFree sharedRows ∧
    (treeNodes (buildCampaignTree sharedRows)).map (·.pathKey) =
      ["", "spring", "spring\x00cpc", "spring\x00cpc\x00", "spring", "spring\x00google",
        "spring\x00google\x00", "spring\x00google\x00\x00"] ∧
    (allPathKeys (buildCampaignTree sharedRows)).card = 7 ∧
    ¬ UniqueKeys (buildCampaignTree sharedRows) := by
  have hkeys : (treeNodes (buildCampaignTree sharedRows)).map (·.pathKey) =
      ["", "spring", "spring\x00cpc", "spring\x00cpc\x00", "spring", "spring\x00google",
        "spring\x00google\x00", "spring\x00google\x00\x00"] := by decide +kernel
  refine ⟨by simp [NulFree, sharedRows, utmLevels], hkeys, ?_, fun h => ?_⟩
  · rw [allPathKeys, allPathKeys_nodes, hkeys]
    decide
  · exact absurd (hkeys ▸ h.distinct) (by decide)

end Statnive.CampaignKeys
