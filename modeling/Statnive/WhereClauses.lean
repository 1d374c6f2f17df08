import Statnive.StoreQueries

/-!
# The text of a restriction and its arguments

The helpers of the queries extend a `WHERE` clause and the list of its arguments side by side.
A clause is read as the conjuncts that it is a text of, and each of them takes its arguments
from the front of the list.
-/

namespace Statnive.WhereClauses

open DashboardFilter
open StoreQueries (Column TimeColumn PropScope value candidates seoCols)

section PrefixCodes

variable {α β : Type*}

/-- No code word begins with another one. -/
def PrefixFree (code : α → List β) : Prop := ∀ a b, code a <+: code b → a = b

theorem PrefixFree.append_inj {code : α → List β} (h : PrefixFree code) {a b : α}
    {r s : List β} (heq : code a ++ r = code b ++ s) : a = b ∧ r = s := by
  have hab : a = b := by
    have hpre : code a <+: code b ++ s := heq ▸ List.prefix_append (code a) r
    rcases List.prefix_or_prefix_of_prefix hpre (List.prefix_append (code b) s) with hp | hp
    · exact h a b hp
    · exact (h b a hp).symm
  subst hab
  exact ⟨rfl, List.append_cancel_left heq⟩

theorem PrefixFree.map {code : α → List β} (h : PrefixFree code) (w : List β) :
    PrefixFree fun a => w ++ code a :=
  fun a b hab => h a b ((List.prefix_append_right_inj w).mp hab)

theorem PrefixFree.flatMap_injective {code : α → List β} (h : PrefixFree code)
    (hne : ∀ a, code a ≠ []) : Function.Injective (List.flatMap code) := by
  intro l
  induction l with
  | nil =>
    intro l' heq
    cases l' with
    | nil => rfl
    | cons b l' => exact absurd (List.append_eq_nil_iff.mp heq.symm).1 (hne b)
  | cons a l ih =>
    intro l' heq
    cases l' with
    | nil => exact absurd (List.append_eq_nil_iff.mp heq).1 (hne a)
    | cons b l' =>
      obtain ⟨rfl, hrest⟩ := h.append_inj heq
      rw [ih hrest]

end PrefixCodes

/-- What is bound to a placeholder. -/
inductive Arg where
  | number (n : ℕ)
  | time (t : ℤ)
  | text (s : String)
  deriving DecidableEq

def columnName : Column → String
  | .channel => "channel"
  | .referrerName => "referrer_name"
  | .utmSource => "utm_source"
  | .utmMedium => "utm_medium"
  | .utmCampaign => "utm_campaign"
  | .utmContent => "utm_content"
  | .utmTerm => "utm_term"
  | .pathname => "pathname"
  | .countryCode => "country_code"

def timeColumnName : TimeColumn → String
  | .hour => "hour"
  | .day => "day"
  | .time => "time"

def scopeName : PropScope → String
  | .hit => "hit_props"
  | .session => "session_props"
  | .user => "user_props"

/-- A clause and its arguments. -/
abbrev Clause := String × List Arg

def whereTimeAndTenant (f : Filter) (timeColumn : TimeColumn) : Clause :=
  ("WHERE site_id = ? AND " ++ timeColumnName timeColumn ++ " >= ? AND " ++
    timeColumnName timeColumn ++ " < ?",
    [.number f.siteID, .time f.fromTime, .time f.toTime])

/-- The value of a map at one of its keys. -/
def lookup (props : List (String × String)) (k : String) : Option String :=
  (props.find? fun kv => kv.1 = k).map Prod.snd

/-- The body of the loop over the sorted keys. -/
def appendProp (scope : PropScope) (props : List (String × String)) (w : Clause) (k : String) :
    Clause :=
  (w.1 ++ " AND has(" ++ scopeName scope ++ ", ?) AND " ++ scopeName scope ++ "[?] = ?",
    w.2 ++ [.text k, .text k, .text ((lookup props k).getD "")])

def appendPropPredicates (w : Clause) (scope : PropScope) (props : List (String × String)) :
    Clause :=
  if props.length = 0 then w
  else ((props.map Prod.fst).insertionSort (· ≤ ·)).foldl (appendProp scope props) w

/-- The body of the loop over the candidates. -/
def applyFilter (f : Filter) (cols : List Column) (w : Clause) (c : Column) : Clause :=
  if !cols.contains c || value f c = "" then w
  else (w.1 ++ " AND " ++ columnName c ++ " = ?", w.2 ++ [.text (value f c)])

def applyFilters (f : Filter) (w : Clause) (cols : List Column) : Clause :=
  candidates.foldl (applyFilter f cols) w

def whereWithProps (f : Filter) (timeColumn : TimeColumn) (cols : List Column) : Clause :=
  let w := applyFilters f (whereTimeAndTenant f timeColumn) cols
  let w := appendPropPredicates w .hit f.hitProps
  let w := appendPropPredicates w .session f.sessionProps
  appendPropPredicates w .user f.userProps

def channelOrganicSearch : String := "Organic Search"

def seoSelect : String := "
		SELECT
			day,
			toUInt64(sum(views))                AS views,
			toUInt64(uniqCombined64Merge(visitors_state)) AS visitors,
			toUInt64(sum(goals))                AS goals,
			toUInt64(sum(revenue))              AS revenue
		FROM statnive.daily_sources "

/-- The bounds of the fill are the last two arguments. -/
def seoFill : String := "
		GROUP BY day
		ORDER BY day WITH FILL FROM toDate(?) TO toDate(?) STEP INTERVAL 1 DAY
	"

/-- The statement of `SEO` over the rollup, with its arguments. -/
def seo (f : Filter) : Clause :=
  let w := applyFilters f (whereTimeAndTenant f .day) seoCols
  (seoSelect ++ w.1 ++ " AND channel = ?" ++ seoFill,
    w.2 ++ [.text channelOrganicSearch, .time f.fromTime, .time f.toTime])

inductive Conjunct where
  | siteID
  | since (timeColumn : TimeColumn)
  | before (timeColumn : TimeColumn)
  | equals (c : Column)
  | has (scope : PropScope)
  | propEquals (scope : PropScope)
  deriving DecidableEq

def Conjunct.text : Conjunct → String
  | .siteID => "site_id = ?"
  | .since timeColumn => timeColumnName timeColumn ++ " >= ?"
  | .before timeColumn => timeColumnName timeColumn ++ " < ?"
  | .equals c => columnName c ++ " = ?"
  | .has scope => "has(" ++ scopeName scope ++ ", ?)"
  | .propEquals scope => scopeName scope ++ "[?] = ?"

/-- What a conjunct after the first one adds to a clause. -/
def Conjunct.tail (c : Conjunct) : List Char := " AND ".toList ++ c.text.toList

theorem Conjunct.tail_eq (c : Conjunct) : c.tail = " AND ".toList ++ c.text.toList := rfl

/-- The text of a clause. -/
def render (c : Conjunct) (cs : List Conjunct) : String :=
  String.ofList ("WHERE ".toList ++ c.text.toList ++ cs.flatMap Conjunct.tail)

def allConjuncts : List Conjunct :=
  .siteID :: [TimeColumn.hour, .day, .time].map .since ++
    [TimeColumn.hour, .day, .time].map .before ++ candidates.map .equals ++
    [PropScope.hit, .session, .user].map .has ++ [PropScope.hit, .session, .user].map .propEquals

theorem mem_allConjuncts (c : Conjunct) : c ∈ allConjuncts := by
  cases c with
  | siteID => decide
  | since t => cases t <;> decide
  | before t => cases t <;> decide
  | equals c => cases c <;> decide
  | has s => cases s <;> decide
  | propEquals s => cases s <;> decide

theorem prefixFree_text : PrefixFree fun c : Conjunct => c.text.toList := by
  have hall : (allConjuncts.all fun a => allConjuncts.all fun b =>
      !a.text.toList.isPrefixOf b.text.toList || a = b) = true := by decide +kernel
  intro a b hab
  have hab' := List.all_eq_true.mp (List.all_eq_true.mp hall a (mem_allConjuncts a)) b
    (mem_allConjuncts b)
  simpa [List.isPrefixOf_iff_prefix.mpr hab] using hab'

/-- A text is that of one clause only. -/
theorem render_injective {c d : Conjunct} {cs ds : List Conjunct}
    (h : render c cs = render d ds) : c = d ∧ cs = ds := by
  have hlist := String.ofList_injective h
  rw [List.append_assoc, List.append_assoc] at hlist
  obtain ⟨rfl, hrest⟩ := prefixFree_text.append_inj (List.append_cancel_left hlist)
  refine ⟨rfl, (prefixFree_text.map " AND ".toList).flatMap_injective ?_ hrest⟩
  intro a
  exact List.append_ne_nil_of_left_ne_nil (by decide) _

private theorem render_append (c : Conjunct) (cs ds : List Conjunct) :
    render c (cs ++ ds) = render c cs ++ String.ofList (ds.flatMap Conjunct.tail) := by
  unfold render
  generalize "WHERE ".toList ++ c.text.toList = head
  rw [List.flatMap_append, ← List.append_assoc, String.ofList_append]

/-- What the terms of a clause read of a row. The time of a rollup is the begin of its bucket. -/
structure Row where
  siteID : ℕ
  time : TimeColumn → ℤ
  column : Column → String
  props : PropScope → String → Option String

/-- The truth of a conjunct on a row and the arguments that it leaves. The value of a map at
a key that it does not have is empty. -/
def Conjunct.eval (row : Row) : Conjunct → List Arg → Option (Bool × List Arg)
  | .siteID, .number n :: args => some (row.siteID = n, args)
  | .since c, .time t :: args => some (t ≤ row.time c, args)
  | .before c, .time t :: args => some (row.time c < t, args)
  | .equals c, .text v :: args => some (row.column c = v, args)
  | .has scope, .text k :: args => some ((row.props scope k).isSome, args)
  | .propEquals scope, .text k :: .text v :: args =>
    some ((row.props scope k).getD "" = v, args)
  | _, _ => none

def evalAll (row : Row) : List Conjunct → List Arg → Option (Bool × List Arg)
  | [], args => some (true, args)
  | c :: cs, args =>
    (c.eval row args).bind fun r => (evalAll row cs r.2).map fun r' => (r.1 && r'.1, r'.2)

private theorem evalAll_append (row : Row) (cs ds : List Conjunct) (args : List Arg) :
    evalAll row (cs ++ ds) args =
      (evalAll row cs args).bind fun r =>
        (evalAll row ds r.2).map fun r' => (r.1 && r'.1, r'.2) := by
  induction cs generalizing args with
  | nil => simp [evalAll]
  | cons c cs ih =>
    rw [List.cons_append, evalAll, evalAll]
    cases c.eval row args with
    | none => rfl
    | some r =>
      rw [Option.bind_some, Option.bind_some, ih]
      cases evalAll row cs r.2 with
      | none => rfl
      | some r' =>
        rw [Option.bind_some, Option.map_some, Option.bind_some]
        cases evalAll row ds r'.2 with
        | none => rfl
        | some r'' => simp only [Option.map_some, Bool.and_assoc]

/-- The conjuncts take exactly the given arguments and say what is given of every row. -/
def Means (cs : List Conjunct) (args : List Arg) (P : Row → Prop) : Prop :=
  ∀ row rest, ∃ b, evalAll row cs (args ++ rest) = some (b, rest) ∧ (b = true ↔ P row)

theorem Means.append {cs ds : List Conjunct} {args args' : List Arg} {P Q : Row → Prop}
    (hc : Means cs args P) (hd : Means ds args' Q) :
    Means (cs ++ ds) (args ++ args') fun row => P row ∧ Q row := by
  intro row rest
  obtain ⟨b, hb, hP⟩ := hc row (args' ++ rest)
  obtain ⟨b', hb', hQ⟩ := hd row rest
  refine ⟨b && b', ?_, ?_⟩
  · rw [evalAll_append, List.append_assoc, hb, Option.bind_some, hb']
    rfl
  · rw [Bool.and_eq_true, hP, hQ]

/-- A clause that begins with the site, has one placeholder for each argument, and, however its
text is read, is true of exactly the rows in question. -/
structure Compiles (w : Clause) (siteID : ℕ) (P : Row → Prop) : Prop where
  text : ∃ cs, w.1 = render .siteID cs
  means : ∀ c cs, w.1 = render c cs → Means (c :: cs) w.2 P
  site : w.2.head? = some (.number siteID)
  marks : w.1.toList.count '?' = w.2.length

theorem Compiles.of_render {w : Clause} {siteID : ℕ} {P : Row → Prop} {cs : List Conjunct}
    (htext : w.1 = render .siteID cs) (hmeans : Means (.siteID :: cs) w.2 P)
    (hsite : w.2.head? = some (.number siteID)) (hmarks : w.1.toList.count '?' = w.2.length) :
    Compiles w siteID P := by
  refine ⟨⟨cs, htext⟩, ?_, hsite, hmarks⟩
  intro d ds hread
  obtain ⟨rfl, rfl⟩ := render_injective (htext.symm.trans hread)
  exact hmeans

theorem Compiles.congr {w : Clause} {siteID : ℕ} {P Q : Row → Prop} (h : Compiles w siteID P)
    (hPQ : ∀ row, P row ↔ Q row) : Compiles w siteID Q := by
  have heq : P = Q := funext fun row => propext (hPQ row)
  exact heq ▸ h

theorem Compiles.extend {w : Clause} {siteID : ℕ} {P Q : Row → Prop} {ds : List Conjunct}
    {args : List Arg} (h : Compiles w siteID P) (text : String)
    (htext : text = String.ofList (ds.flatMap Conjunct.tail)) (hmeans : Means ds args Q)
    (hmarks : text.toList.count '?' = args.length) :
    Compiles (w.1 ++ text, w.2 ++ args) siteID fun row => P row ∧ Q row := by
  obtain ⟨cs, hcs⟩ := h.text
  have hread : w.1 ++ text = render .siteID (cs ++ ds) := by rw [render_append, hcs, htext]
  apply Compiles.of_render hread
  · exact (h.means .siteID cs hcs).append hmeans
  · rw [List.head?_append, h.site, Option.some_or]
  · rw [String.toList_append, List.count_append, h.marks, hmarks, List.length_append]

private theorem count_columnName (c : Column) : (columnName c).toList.count '?' = 0 := by
  cases c <;> decide

private theorem count_scopeName (scope : PropScope) : (scopeName scope).toList.count '?' = 0 := by
  cases scope <;> decide

private theorem compiles_whereTimeAndTenant (f : Filter) (t : TimeColumn) :
    Compiles (whereTimeAndTenant f t) f.siteID fun row =>
      row.siteID = f.siteID ∧ f.fromTime ≤ row.time t ∧ row.time t < f.toTime := by
  have htext (t : TimeColumn) : "WHERE site_id = ? AND " ++ timeColumnName t ++ " >= ? AND " ++
      timeColumnName t ++ " < ?" = render .siteID [.since t, .before t] := by
    cases t <;> decide +kernel
  have hmarks (t : TimeColumn) : (render .siteID [.since t, .before t]).toList.count '?' = 3 := by
    cases t <;> decide +kernel
  refine Compiles.of_render (htext t) ?_ rfl ?_
  · intro row rest
    exact ⟨_, rfl, by simp⟩
  · exact (congrArg (fun text : String => text.toList.count '?') (htext t)).trans (hmarks t)

private theorem compiles_applyFilter {f : Filter} {cols : List Column} {w : Clause} {siteID : ℕ}
    {P : Row → Prop} (h : Compiles w siteID P) (c : Column) :
    Compiles (applyFilter f cols w c) siteID fun row =>
      P row ∧ (c ∈ cols → value f c ≠ "" → row.column c = value f c) := by
  rw [applyFilter]
  split
  next hskip =>
    refine h.congr fun row => ⟨fun hP => ⟨hP, fun hmem hne => ?_⟩, And.left⟩
    simp [hmem, hne] at hskip
  next hadd =>
    have hmem : c ∈ cols ∧ value f c ≠ "" := by simpa using hadd
    have hmeans : Means [.equals c] [.text (value f c)] fun row => row.column c = value f c :=
      fun row rest => ⟨_, rfl, by simp⟩
    have hext := h.extend (" AND " ++ columnName c ++ " = ?") ?_ hmeans ?_
    · rw [← String.append_assoc, ← String.append_assoc] at hext
      exact hext.congr fun row => by simp [hmem]
    · apply String.toList_injective
      simp [Conjunct.tail_eq, Conjunct.text]
    · simp [count_columnName]

private theorem compiles_applyFilters {f : Filter} {cols : List Column} {w : Clause} {siteID : ℕ}
    {P : Row → Prop} (h : Compiles w siteID P) :
    Compiles (applyFilters f w cols) siteID fun row =>
      P row ∧ ∀ c ∈ cols, value f c ≠ "" → row.column c = value f c := by
  have hrun (l : List Column) : ∀ {w P}, Compiles w siteID P →
      Compiles (l.foldl (applyFilter f cols) w) siteID fun row =>
        P row ∧ ∀ c ∈ l, c ∈ cols → value f c ≠ "" → row.column c = value f c := by
    induction l with
    | nil => exact fun h => h.congr fun row => by simp
    | cons c l ih =>
      intro w P h
      refine (ih (compiles_applyFilter h c)).congr fun row => ?_
      rw [List.forall_mem_cons, and_assoc]
  have hall (c : Column) : c ∈ candidates := by cases c <;> decide
  exact (hrun candidates h).congr fun row => by simp [hall]

/-- The requested key is there and has the requested value. -/
theorem compiles_appendProp {scope : PropScope} {props : List (String × String)} {w : Clause}
    {siteID : ℕ} {P : Row → Prop} (h : Compiles w siteID P) (k : String) :
    Compiles (appendProp scope props w k) siteID fun row =>
      P row ∧ row.props scope k = some ((lookup props k).getD "") := by
  have hmeans : Means [.has scope, .propEquals scope]
      [.text k, .text k, .text ((lookup props k).getD "")]
      fun row => row.props scope k = some ((lookup props k).getD "") := by
    intro row rest
    refine ⟨_, rfl, ?_⟩
    cases hprop : row.props scope k <;> simp [hprop]
  have hext := h.extend (" AND has(" ++ scopeName scope ++ ", ?) AND " ++ scopeName scope ++
    "[?] = ?") ?_ hmeans ?_
  · simpa only [appendProp, String.append_assoc] using hext
  · apply String.toList_injective
    simp [Conjunct.tail_eq, Conjunct.text]
  · simp [count_scopeName]

private theorem lookup_isSome {props : List (String × String)} {k : String}
    (hk : k ∈ props.map Prod.fst) : ∃ v, lookup props k = some v := by
  obtain ⟨kv, hkv, rfl⟩ := List.mem_map.mp hk
  have hsome : (props.find? fun e => e.1 = kv.1).isSome := by
    rw [List.find?_isSome]
    exact ⟨kv, hkv, by simp⟩
  obtain ⟨e, he⟩ := Option.isSome_iff_exists.mp hsome
  exact ⟨e.2, by rw [lookup, he, Option.map_some]⟩

theorem mem_of_lookup {props : List (String × String)} {k v : String}
    (h : lookup props k = some v) : k ∈ props.map Prod.fst := by
  obtain ⟨kv, hfind, -⟩ := Option.map_eq_some_iff.mp h
  have hkey : kv.1 = k := by simpa using List.find?_some hfind
  exact List.mem_map.mpr ⟨kv, List.mem_of_find?_eq_some hfind, hkey⟩

theorem compiles_appendPropPredicates {scope : PropScope} {props : List (String × String)}
    {w : Clause} {siteID : ℕ} {P : Row → Prop} (h : Compiles w siteID P) :
    Compiles (appendPropPredicates w scope props) siteID fun row =>
      P row ∧ ∀ k v, lookup props k = some v → row.props scope k = some v := by
  have hrun (keys : List String) : ∀ {w P}, Compiles w siteID P →
      Compiles (keys.foldl (appendProp scope props) w) siteID fun row =>
        P row ∧ ∀ k ∈ keys, row.props scope k = some ((lookup props k).getD "") := by
    induction keys with
    | nil => exact fun h => h.congr fun row => by simp
    | cons k keys ih =>
      intro w P h
      refine (ih (compiles_appendProp h k)).congr fun row => ?_
      rw [List.forall_mem_cons, and_assoc]
  rw [appendPropPredicates]
  split
  next hlen =>
    obtain rfl := List.length_eq_zero_iff.mp hlen
    exact h.congr fun row => by simp [lookup]
  next =>
    refine (hrun _ h).congr fun row => and_congr_right fun _ => ⟨?_, ?_⟩
    · intro hkeys k v hv
      have hk := hkeys k ((List.mem_insertionSort _).mpr (mem_of_lookup hv))
      rwa [hv] at hk
    · intro hprops k hk
      obtain ⟨v, hv⟩ := lookup_isSome ((List.mem_insertionSort _).mp hk)
      rw [hv]
      exact hprops k v hv

/-- The rows that the site, the range and the dimensions of a filter select. -/
def Selects (f : Filter) (timeColumn : TimeColumn) (cols : List Column) (row : Row) : Prop :=
  row.siteID = f.siteID ∧ f.fromTime ≤ row.time timeColumn ∧ row.time timeColumn < f.toTime ∧
    ∀ c ∈ cols, value f c ≠ "" → row.column c = value f c

def requested (f : Filter) : PropScope → List (String × String)
  | .hit => f.hitProps
  | .session => f.sessionProps
  | .user => f.userProps

/-- The rows with every requested property. -/
def HasProps (f : Filter) (row : Row) : Prop :=
  ∀ scope k v, lookup (requested f scope) k = some v → row.props scope k = some v

theorem compiles_dimensions (f : Filter) (timeColumn : TimeColumn) (cols : List Column) :
    Compiles (applyFilters f (whereTimeAndTenant f timeColumn) cols) f.siteID
      (Selects f timeColumn cols) := by
  refine (compiles_applyFilters (compiles_whereTimeAndTenant f timeColumn)).congr fun row => ?_
  rw [Selects, and_assoc, and_assoc]

private theorem compiles_whereWithProps
    (f : Filter) (timeColumn : TimeColumn) (cols : List Column) :
    Compiles (whereWithProps f timeColumn cols) f.siteID fun row =>
      Selects f timeColumn cols row ∧ HasProps f row := by
  have hhit : Compiles (appendPropPredicates _ .hit f.hitProps) f.siteID _ :=
    compiles_appendPropPredicates (compiles_dimensions f timeColumn cols)
  have hsession : Compiles (appendPropPredicates _ .session f.sessionProps) f.siteID _ :=
    compiles_appendPropPredicates hhit
  have huser : Compiles (appendPropPredicates _ .user f.userProps) f.siteID _ :=
    compiles_appendPropPredicates hsession
  refine huser.congr fun row => ?_
  rw [and_assoc, and_assoc]
  refine and_congr_right fun _ => ⟨?_, ?_⟩
  · rintro ⟨hhit, hsession, huser⟩ scope k v hv
    cases scope with
    | hit => exact hhit k v hv
    | session => exact hsession k v hv
    | user => exact huser k v hv
  · intro hprops
    exact ⟨hprops .hit, hprops .session, hprops .user⟩

theorem count_of_eq_ofList {s : String} {l : List Char} {c : Char} {n : ℕ}
    (hs : s = String.ofList l) (hl : l.count c = n) : s.toList.count c = n := by
  rw [hs, String.toList_ofList, hl]

set_option maxRecDepth 4000 in
private theorem count_seoSelect : seoSelect.toList.count '?' = 0 :=
  count_of_eq_ofList (show seoSelect = String.ofList _ from rfl) (by decide +kernel)

set_option maxRecDepth 4000 in
private theorem count_seoFill : seoFill.toList.count '?' = 2 :=
  count_of_eq_ofList (show seoFill = String.ofList _ from rfl) (by decide +kernel)

/-- The restriction of `SEO`, and what is bound in it. -/
theorem compiles_seo (f : Filter) : ∃ w : Clause,
    seo f = (seoSelect ++ w.1 ++ seoFill, w.2 ++ [.time f.fromTime, .time f.toTime]) ∧
    Compiles w f.siteID (fun row =>
      Selects f .day seoCols row ∧ row.column .channel = channelOrganicSearch) ∧
    (seo f).1.toList.count '?' = (seo f).2.length := by
  have hmeans : Means [.equals .channel] [.text channelOrganicSearch]
      fun row => row.column .channel = channelOrganicSearch := fun row rest => ⟨_, rfl, by simp⟩
  have hw := (compiles_dimensions f .day seoCols).extend " AND channel = ?" (by decide +kernel)
    hmeans (by decide)
  refine ⟨_, ?_, hw, ?_⟩
  · simp [seo, String.append_assoc]
  · have hmarks := hw.marks
    simp only [String.toList_append, List.count_append, List.length_append] at hmarks
    simp only [seo, String.toList_append, List.count_append, List.length_append, count_seoSelect,
      count_seoFill]
    simp only [List.length_cons, List.length_nil] at hmarks ⊢
    omega

/-- Two orders in which the entries of one map are iterated. -/
def SameMap (props props' : List (String × String)) : Prop :=
  (props.map Prod.fst).Nodup ∧ props.Perm props'

theorem SameMap.lookup_eq {props props' : List (String × String)} (h : SameMap props props')
    (k : String) : lookup props k = lookup props' k := by
  obtain ⟨hnodup, hperm⟩ := h
  induction hperm with
  | nil => rfl
  | cons e _ ih =>
    rw [List.map_cons, List.nodup_cons] at hnodup
    have htail := ih hnodup.2
    rw [lookup, lookup] at htail ⊢
    rw [List.find?_cons, List.find?_cons]
    by_cases he : e.1 = k <;> simp [he, htail]
  | swap a b l =>
    simp only [List.map_cons, List.nodup_cons, List.mem_cons, not_or] at hnodup
    rw [lookup, lookup]
    simp only [List.find?_cons]
    by_cases ha : a.1 = k
    · have hb : b.1 ≠ k := fun hb => hnodup.1.1 (hb.trans ha.symm)
      simp [ha, hb]
    · simp [ha]
  | trans hperm _ ih ih' =>
    exact (ih hnodup).trans (ih' ((hperm.map Prod.fst).nodup_iff.mp hnodup))

theorem SameMap.appendPropPredicates_eq {props props' : List (String × String)}
    (h : SameMap props props') (w : Clause) (scope : PropScope) :
    appendPropPredicates w scope props' = appendPropPredicates w scope props := by
  have hkeys : (props'.map Prod.fst).insertionSort (· ≤ ·) =
      (props.map Prod.fst).insertionSort (· ≤ ·) := by
    apply List.Perm.eq_of_pairwise'
      (List.pairwise_insertionSort _ _) (List.pairwise_insertionSort _ _)
    have hperm := h.2.symm.map Prod.fst
    exact (List.perm_insertionSort _ _).trans (hperm.trans (List.perm_insertionSort _ _).symm)
  have hprop : appendProp scope props' = appendProp scope props := by
    funext w k
    rw [appendProp, appendProp, h.lookup_eq k]
  rw [appendPropPredicates, appendPropPredicates, hkeys, hprop, h.2.length_eq]

/-- What is built from a filter does not depend on the orders of its maps. -/
theorem whereWithProps_order (f : Filter) (timeColumn : TimeColumn) (cols : List Column)
    {hit session user : List (String × String)} (hhit : SameMap f.hitProps hit)
    (hsession : SameMap f.sessionProps session) (huser : SameMap f.userProps user) :
    whereWithProps { f with hitProps := hit, sessionProps := session, userProps := user }
      timeColumn cols = whereWithProps f timeColumn cols := by
  have hcols : applyFilters { f with hitProps := hit, sessionProps := session, userProps := user }
      (whereTimeAndTenant f timeColumn) cols =
        applyFilters f (whereTimeAndTenant f timeColumn) cols := rfl
  rw [whereWithProps, whereWithProps, ← hhit.appendPropPredicates_eq,
    ← hsession.appendPropPredicates_eq, ← huser.appendPropPredicates_eq, ← hcols]
  rfl

end Statnive.WhereClauses
