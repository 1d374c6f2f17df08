import Statnive.GroupedRows
import Mathlib.Algebra.Order.Ring.Rat
import Mathlib.Data.List.Sort

/-!
# The campaign tree of the dashboard

One row for each utm tuple becomes a tree of campaigns, sources, media and contents, whose metrics
are the sums of the rows under them.
-/

namespace Statnive.CampaignTree

open GroupedRows

inductive CampaignTreeLevel where
  | campaign | source | medium | content
  deriving DecidableEq

@[ext]
structure Metrics where
  views : ℤ := 0
  visitors : ℤ := 0
  goals : ℤ := 0
  revenue : ℤ := 0
  deriving DecidableEq

structure CampaignRow extends Metrics where
  utmCampaign : String
  utmSource : String
  utmMedium : String
  utmContent : String
  utmTerm : String := ""

/-- A node without its children. -/
structure NodeData extends Metrics where
  level : CampaignTreeLevel
  /-- The key of the node in the side tables (`topBucket` and the map of its parent). -/
  rawValue : String
  label : String
  pathKey : String
  terms : List String := []
  rpv : ℚ := 0
  deriving DecidableEq

structure CampaignTreeNode extends NodeData where
  children : List CampaignTreeNode := []

def noneLabel : String := "(none)"

def pathSep : String := "\x00"

def label (value : String) : String := if value = "" then noneLabel else value

def rpvOf (revenue visitors : ℤ) : ℚ := if visitors = 0 then 0 else revenue / visitors

def childKey (parentPath rawValue : String) : String :=
  if parentPath = "" then rawValue else parentPath ++ pathSep ++ rawValue

def emptyNode (level : CampaignTreeLevel) (rawValue parentPath : String) : CampaignTreeNode :=
  { level, rawValue, label := label rawValue, pathKey := childKey parentPath rawValue }

def accumulate (node : CampaignTreeNode) (row : CampaignRow) : CampaignTreeNode :=
  { node with
    views := node.views + row.views
    visitors := node.visitors + row.visitors
    goals := node.goals + row.goals
    revenue := node.revenue + row.revenue }

/-- What `update` does to the child, which is made where there is none. -/
def findOrCreateChild (parentPath : String) (level : CampaignTreeLevel) (rawValue : String)
    (update : CampaignTreeNode → CampaignTreeNode) :
    List CampaignTreeNode → List CampaignTreeNode :=
  upsert (·.rawValue) (emptyNode level · parentPath) rawValue update

/-- The body of the loop over the rows. -/
def addRow (top : List CampaignTreeNode) (row : CampaignRow) : List CampaignTreeNode :=
  top |> findOrCreateChild "" .campaign row.utmCampaign fun campaign =>
    let campaign := accumulate campaign row
    { campaign with
      children := campaign.children |>
        findOrCreateChild campaign.pathKey .source row.utmSource fun source =>
          let source := accumulate source row
          { source with
            children := source.children |>
              findOrCreateChild source.pathKey .medium row.utmMedium fun medium =>
                let medium := accumulate medium row
                { medium with
                  children := medium.children |>
                    findOrCreateChild medium.pathKey .content row.utmContent fun content =>
                      let content := accumulate content row
                      { content with terms := content.terms ++ [row.utmTerm] } } } }

def dedupeTerms (terms : List String) : List String :=
  terms.foldl (fun out term => if term = "" ∨ term ∈ out then out else out ++ [term]) []

mutual

def finalize : CampaignTreeNode → CampaignTreeNode
  | ⟨data, children⟩ =>
    { data with
      rpv := rpvOf data.revenue data.visitors
      terms := dedupeTerms data.terms
      children := finalize.nodes children }

def finalize.nodes : List CampaignTreeNode → List CampaignTreeNode
  | [] => []
  | n :: ns => finalize n :: finalize.nodes ns

end

/-- The sort of JavaScript is stable. The comparisons look at no children. -/
def sortSiblings (cmp : NodeData → NodeData → ℚ) (nodes : List CampaignTreeNode) :
    List CampaignTreeNode :=
  nodes.insertionSort fun a b => cmp a.toNodeData b.toNodeData ≤ 0

mutual

def walkSort.below (cmp : NodeData → NodeData → ℚ) : CampaignTreeNode → CampaignTreeNode
  | ⟨data, children⟩ => ⟨data, sortSiblings cmp (walkSort.nodes cmp children)⟩

def walkSort.nodes (cmp : NodeData → NodeData → ℚ) : List CampaignTreeNode → List CampaignTreeNode
  | [] => []
  | n :: ns => walkSort.below cmp n :: walkSort.nodes cmp ns

end

/-- The children are sorted before their parents here, and after them in `walkSort_eq`. -/
def walkSort (cmp : NodeData → NodeData → ℚ) (nodes : List CampaignTreeNode) :
    List CampaignTreeNode :=
  sortSiblings cmp (walkSort.nodes cmp nodes)

def byRevenueDesc (a b : NodeData) : ℚ :=
  if b.revenue ≠ a.revenue then b.revenue - a.revenue else b.views - a.views

def buildCampaignTree (rows : List CampaignRow) : List CampaignTreeNode :=
  walkSort byRevenueDesc (finalize.nodes (rows.foldl addRow []))

inductive CampaignSortKey where
  | campaign | views | visitors | goals | revenue | rpv
  deriving DecidableEq

/-- The field `key` of a node, where it is a number. -/
def NodeData.number (a : NodeData) : CampaignSortKey → ℚ
  | .campaign => 0
  | .views => a.views
  | .visitors => a.visitors
  | .goals => a.goals
  | .revenue => a.revenue
  | .rpv => a.rpv

inductive SortDir where
  | asc | desc
  deriving DecidableEq

def sortCampaignTree (localeCompare : String → String → ℤ) (key : CampaignSortKey) (dir : SortDir)
    (tree : List CampaignTreeNode) : List CampaignTreeNode :=
  let sign : ℚ := if dir = .asc then 1 else -1
  tree |> walkSort fun a b =>
    if key = .campaign then localeCompare a.label b.label * sign
    else
      let diff := a.number key - b.number key
      if diff ≠ 0 then diff * sign else b.revenue - a.revenue

mutual

def treeNodes.walk : CampaignTreeNode → List CampaignTreeNode
  | ⟨data, children⟩ => ⟨data, children⟩ :: treeNodes children

/-- Every node, each before those under it. -/
def treeNodes : List CampaignTreeNode → List CampaignTreeNode
  | [] => []
  | n :: ns => treeNodes.walk n ++ treeNodes ns

end

theorem treeNodes_eq (nodes : List CampaignTreeNode) :
    treeNodes nodes = nodes.flatMap fun n => n :: treeNodes n.children := by
  induction nodes with
  | nil => rw [treeNodes, List.flatMap_nil]
  | cons n nodes ih =>
    cases n
    rw [treeNodes, treeNodes.walk, ih, List.flatMap_cons]

/-- What holds of siblings if it holds of the children of each of them holds of all siblings. -/
theorem siblings_induction {P : List CampaignTreeNode → Prop}
    (step : ∀ nodes, (∀ c ∈ nodes, P c.children) → P nodes) (nodes : List CampaignTreeNode) :
    P nodes := by
  have hnodes : ∀ c ∈ nodes, P c.children := fun c _ =>
    @CampaignTreeNode.rec (fun n => P n.children) (fun ns => ∀ n ∈ ns, P n.children)
      (fun _ children => step children) (by simp)
      (fun _ _ h hs => List.forall_mem_cons.mpr ⟨h, hs⟩) c
  exact step nodes hnodes

instance : Add Metrics where
  add m m' :=
    ⟨m.views + m'.views, m.visitors + m'.visitors, m.goals + m'.goals, m.revenue + m'.revenue⟩

instance : Zero Metrics where
  zero := {}

theorem Metrics.add_def (m m' : Metrics) : m + m' =
    ⟨m.views + m'.views, m.visitors + m'.visitors, m.goals + m'.goals, m.revenue + m'.revenue⟩ :=
  rfl

theorem Metrics.zero_def : (0 : Metrics) = ⟨0, 0, 0, 0⟩ := rfl

instance : AddCommMonoid Metrics where
  add_assoc a b c := by simp only [Metrics.add_def, add_assoc]
  zero_add a := by simp only [Metrics.add_def, Metrics.zero_def, zero_add]
  add_zero a := by simp only [Metrics.add_def, Metrics.zero_def, add_zero]
  add_comm a b := by simp only [Metrics.add_def, add_comm]
  nsmul := nsmulRec

/-- The sum of metrics, one by one. -/
def sumsOf (ms : List Metrics) : Metrics where
  views := (ms.map (·.views)).sum
  visitors := (ms.map (·.visitors)).sum
  goals := (ms.map (·.goals)).sum
  revenue := (ms.map (·.revenue)).sum

theorem sum_eq_sumsOf (ms : List Metrics) : ms.sum = sumsOf ms := by
  induction ms with
  | nil => rfl
  | cons m ms ih =>
    rw [List.sum_cons, ih]
    rfl

/-- What is summed over rows. -/
def total (rows : List CampaignRow) : Metrics := (rows.map (·.toMetrics)).sum

/-- The levels of a tree from the top on, with the part of the utm tuple that each has. -/
abbrev Levels := List (CampaignTreeLevel × (CampaignRow → String))

def utmLevels : Levels :=
  [(.campaign, (·.utmCampaign)), (.source, (·.utmSource)), (.medium, (·.utmMedium)),
    (.content, (·.utmContent))]

/-- The utm tuple. -/
def tuple (levels : Levels) (row : CampaignRow) : List String := levels.map fun l => l.2 row

/-- What a row does to a node below which there are `levels`. -/
def addBelow : Levels → CampaignRow → CampaignTreeNode → CampaignTreeNode
  | [], row, n => { n with terms := n.terms ++ [row.utmTerm] }
  | (level, value) :: levels, row, n =>
    { n with
      children := n.children |> findOrCreateChild n.pathKey level (value row) fun c =>
        addBelow levels row (accumulate c row) }

private theorem addRow_eq (top : List CampaignTreeNode) (row : CampaignRow) : addRow top row =
    findOrCreateChild "" .campaign row.utmCampaign
      (fun c => addBelow utmLevels.tail row (accumulate c row)) top := rfl

/-- The terms of the rows of a node, if there are no `levels` below it. -/
def leafTerms (levels : Levels) (rows : List CampaignRow) : List String :=
  if levels.isEmpty then rows.map (·.utmTerm) else []

/-- The tree before it is finalized and sorted: one node for each value of the rows. -/
def grouped : Levels → String → List CampaignRow → List CampaignTreeNode
  | [], _, _ => []
  | (level, value) :: levels, parentPath, rows => (keys value rows).map fun k =>
    { emptyNode level k parentPath with
      toMetrics := total (ofKey value rows k)
      terms := leafTerms levels (ofKey value rows k)
      children := grouped levels (childKey parentPath k) (ofKey value rows k) }

/-- The node of the value `k` at the first of the levels, where `children` are below it. -/
def nodeOf (level : CampaignTreeLevel) (levels : Levels) (parentPath : String)
    (rows : List CampaignRow) (k : String) (children : List CampaignTreeNode) : CampaignTreeNode :=
  { emptyNode level k parentPath with
    toMetrics := total rows
    terms := dedupeTerms (leafTerms levels rows)
    rpv := rpvOf (total rows).revenue (total rows).visitors
    children }

/-- The tree that is returned. -/
def tree : Levels → String → List CampaignRow → List CampaignTreeNode
  | [], _, _ => []
  | (level, value) :: levels, parentPath, rows =>
    sortSiblings byRevenueDesc <| (keys value rows).map fun k =>
      nodeOf level levels parentPath (ofKey value rows k) k
        (tree levels (childKey parentPath k) (ofKey value rows k))

private theorem foldl_addBelow_nil (rows : List CampaignRow) (n : CampaignTreeNode) :
    rows.foldl (fun n r => addBelow [] r (accumulate n r)) n =
      { n with
        toMetrics := n.toMetrics + total rows
        terms := n.terms ++ rows.map (·.utmTerm) } := by
  induction rows generalizing n with
  | nil =>
    cases n
    simp [total]
  | cons r rows ih =>
    rw [List.foldl_cons, ih]
    simp only [addBelow, total, List.map_cons, List.sum_cons, List.append_assoc,
      List.singleton_append, ← add_assoc]
    rfl

private theorem foldl_addBelow_cons (level : CampaignTreeLevel) (value : CampaignRow → String)
    (levels : Levels) (rows : List CampaignRow) (n : CampaignTreeNode) :
    rows.foldl (fun n r => addBelow ((level, value) :: levels) r (accumulate n r)) n =
      { n with
        toMetrics := n.toMetrics + total rows
        children := rows.foldl (fun cs r => findOrCreateChild n.pathKey level (value r)
          (fun c => addBelow levels r (accumulate c r)) cs) n.children } := by
  induction rows generalizing n with
  | nil =>
    cases n
    simp [total]
  | cons r rows ih =>
    rw [List.foldl_cons, ih]
    simp only [addBelow, total, List.map_cons, List.sum_cons, List.foldl_cons, ← add_assoc]
    rfl

/-- The children that the rows make. -/
theorem foldl_findOrCreateChild (level : CampaignTreeLevel) (value : CampaignRow → String)
    (levels : Levels) (parentPath : String) (rows : List CampaignRow) :
    rows.foldl (fun cs r => findOrCreateChild parentPath level (value r)
        (fun c => addBelow levels r (accumulate c r)) cs) [] =
      grouped ((level, value) :: levels) parentPath rows := by
  induction levels generalizing level value parentPath rows with
  | nil =>
    refine (foldl_upsert value (fun n r => addBelow [] r (accumulate n r)) (fun _ => rfl)
      (fun _ _ => rfl) rows).trans ?_
    rw [grouped]
    refine List.map_congr_left fun k _ => ?_
    rw [foldl_addBelow_nil, show (emptyNode level k parentPath).toMetrics = 0 from rfl, zero_add]
    rfl
  | cons l levels ih =>
    refine (foldl_upsert value (fun n r => addBelow (l :: levels) r (accumulate n r)) (fun _ => rfl)
      (fun _ _ => rfl) rows).trans ?_
    rw [grouped]
    refine List.map_congr_left fun k _ => ?_
    rw [foldl_addBelow_cons, show (emptyNode level k parentPath).toMetrics = 0 from rfl, zero_add,
      ← ih]
    rfl

private theorem foldl_addRow (rows : List CampaignRow) :
    rows.foldl addRow [] = grouped utmLevels "" rows := by
  rw [funext₂ addRow_eq]
  exact foldl_findOrCreateChild .campaign (·.utmCampaign) utmLevels.tail "" rows

private theorem finalize_nodes (nodes : List CampaignTreeNode) :
    finalize.nodes nodes = nodes.map finalize := by
  induction nodes with
  | nil => rfl
  | cons n nodes ih => rw [finalize.nodes, ih, List.map_cons]

theorem walkSort_nodes (cmp : NodeData → NodeData → ℚ) (nodes : List CampaignTreeNode) :
    walkSort.nodes cmp nodes = nodes.map (walkSort.below cmp) := by
  induction nodes with
  | nil => rfl
  | cons n nodes ih => rw [walkSort.nodes, ih, List.map_cons]

theorem walkSort_below (cmp : NodeData → NodeData → ℚ) (n : CampaignTreeNode) :
    walkSort.below cmp n = { n with children := walkSort cmp n.children } := by
  cases n
  rfl

/-- The siblings are sorted, and then the children of each of them are. -/
theorem walkSort_eq (cmp : NodeData → NodeData → ℚ) (nodes : List CampaignTreeNode) :
    walkSort cmp nodes =
      (sortSiblings cmp nodes).map fun n => { n with children := walkSort cmp n.children } := by
  rw [← funext (walkSort_below cmp), walkSort, walkSort_nodes]
  refine (List.map_insertionSort _ _ _ _ fun a _ b _ => ?_).symm
  rw [walkSort_below, walkSort_below]

private theorem walkSort_finalize_grouped (levels : Levels) (parentPath : String)
    (rows : List CampaignRow) :
    walkSort byRevenueDesc (finalize.nodes (grouped levels parentPath rows)) =
      tree levels parentPath rows := by
  induction levels generalizing parentPath rows with
  | nil => rfl
  | cons l levels ih =>
    obtain ⟨level, value⟩ := l
    rw [walkSort, walkSort_nodes, finalize_nodes, grouped, tree, List.map_map, List.map_map]
    congr 1
    refine List.map_congr_left fun k _ => ?_
    rw [Function.comp_apply, Function.comp_apply, walkSort_below, finalize, ← ih]
    rfl

theorem buildCampaignTree_eq (rows : List CampaignRow) :
    buildCampaignTree rows = tree utmLevels "" rows := by
  rw [buildCampaignTree, foldl_addRow, walkSort_finalize_grouped]

end Statnive.CampaignTree
