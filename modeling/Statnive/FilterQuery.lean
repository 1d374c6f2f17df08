import Statnive.PlainObject
import Statnive.SearchParams

/-!
# Dashboard filters in the URL

The filters of the dashboard, the query they are written to, and the two readers of the query:
the dashboard itself and the server.
-/

namespace Statnive.FilterQuery

open UnicodeText PlainObject SearchParams

inductive ScalarKey where
  | device
  | channel
  | country
  | path
  | fromDay
  | toDay
  | metrics
  | sort
  | dir
deriving DecidableEq

def ScalarKey.param : ScalarKey → String
  | .device => "device"
  | .channel => "channel"
  | .country => "country"
  | .path => "path"
  | .fromDay => "from"
  | .toDay => "to"
  | .metrics => "metrics"
  | .sort => "sort"
  | .dir => "dir"

inductive Scope where
  | hitProps
  | sessionProps
  | userProps
deriving DecidableEq

/-- `PROP_PARAM_NAMES` -/
def Scope.param : Scope → String
  | .hitProps => "hit_prop"
  | .sessionProps => "session_prop"
  | .userProps => "user_prop"

def keys : List ScalarKey :=
  [.device, .channel, .country, .path, .fromDay, .toDay, .metrics, .sort, .dir]

def scopes : List Scope := [.hitProps, .sessionProps, .userProps]

abbrev PropMap := Record CodeUnits

structure Filters where
  scalar : ScalarKey → CodeUnits
  props : Scope → PropMap

def emptyFilters : Filters := ⟨fun _ => [], fun _ => .empty⟩

def Filters.setScalar (f : Filters) (k : ScalarKey) (v : CodeUnits) : Filters :=
  { f with scalar := Function.update f.scalar k v }

def Filters.setProps (f : Filters) (scope : Scope) (m : PropMap) : Filters :=
  { f with props := Function.update f.props scope m }

/-- `:` -/
def colon : UInt16 := 0x3A

def appendProp (m : PropMap) (param : String) (p : URLSearchParams) (name : CodeUnits) :
    URLSearchParams :=
  match m.get name with
  | some value => if name ≠ [] then p.append param (name ++ colon :: value) else p
  | none => p

def filtersToQuery (f : Filters) : URLSearchParams :=
  let p := keys.foldl
    (fun p k => if f.scalar k ≠ [] then p.set k.param (f.scalar k) else p) .empty
  scopes.foldl
    (fun p scope => (f.props scope).keys.foldl (appendProp (f.props scope) scope.param) p) p

def readScalar (p : URLSearchParams) (out : Filters) (k : ScalarKey) : Filters :=
  match p.get k.param with
  | some v => if v ≠ [] then out.setScalar k v else out
  | none => out

def readEntry (m : PropMap) (entry : CodeUnits) : PropMap :=
  match entry.idxOf? colon with
  | none | some 0 => m
  | some idx => m.assign (entry.take idx) (entry.drop (idx + 1))

def queryToFilters (p : URLSearchParams) : Filters :=
  let out := keys.foldl (readScalar p) emptyFilters
  let out := if out.scalar .sort = [] then out.setScalar .dir [] else out
  scopes.foldl
    (fun out scope => (p.getAll scope.param).foldl
      (fun out entry => out.setProps scope (readEntry (out.props scope) entry)) out) out

def mapsEqual (a b : PropMap) : Bool :=
  a.keys.length = b.keys.length && a.keys.all fun k => a.get k = b.get k

def filtersEqual (a b : Filters) : Bool :=
  (keys.all fun k => a.scalar k = b.scalar k) &&
    scopes.all fun scope => mapsEqual (a.props scope) (b.props scope)

/-- `Partial<Filters>` -/
structure Patch where
  scalar : ScalarKey → Option CodeUnits := fun _ => none
  props : Scope → Option PropMap := fun _ => none

/-- `{ ...current, ...next }` -/
def merge (current : Filters) (next : Patch) : Filters where
  scalar := fun k => (next.scalar k).getD (current.scalar k)
  props := fun scope => (next.props scope).getD (current.props scope)

def propsPatch (scope : Scope) (m : PropMap) : Patch :=
  { props := Function.update (fun _ => none) scope (some m) }

/-- What `setPropFilter` passes to `updateFilters`. -/
def setPropPatch (current : Filters) (scope : Scope) (name value : CodeUnits) : Patch :=
  propsPatch scope ((current.props scope).define name value)

/-- What `removePropFilter` passes to `updateFilters`. -/
def removePropPatch (current : Filters) (scope : Scope) (name : CodeUnits) : Patch :=
  propsPatch scope ((current.props scope).delete name)

/-- `strings.Cut` at `:` -/
def cut (v : Bytes) : Bytes × Bytes × Bool :=
  match v.idxOf? 0x3A with
  | some idx => (v.take idx, v.drop (idx + 1), true)
  | none => (v, [], false)

def parseEntry (out : Bytes → Option Bytes) (v : Bytes) : Bytes → Option Bytes :=
  let (k, val, ok) := cut v
  if !ok || k = [] then out
  else if k.length > 200 || val.length > 1000 then out
  else Function.update out k (some val)

/-- A map is its readings. -/
def parseScopedProps (values : List Bytes) : Bytes → Option Bytes :=
  values.foldl parseEntry fun _ => none

/-- The values of a scope's parameter, as they reach the server. -/
def received (f : Filters) (scope : Scope) : List Bytes :=
  ((filtersToQuery f).getAll scope.param).map fun v => toUtf8 (fromUnits v)

/-- The text of a string in a query. -/
def usv (v : CodeUnits) : CodeUnits := toCodeUnits (fromUnits v)

private theorem usv_eq_nil_iff (v : CodeUnits) : usv v = [] ↔ v = [] := by
  have hscalars : scalars (usv v) = scalars v := by
    have h := scalars_toCodeUnits_append (fromUnits v) []
    rwa [List.append_nil, show scalars [] = [] from rfl, List.append_nil, fromUnits,
      String.toList_ofList] at h
  rw [← scalars_eq_nil_iff, hscalars, scalars_eq_nil_iff]

/-- The entries of a map that are written. -/
def writtenEntries (m : PropMap) : List (CodeUnits × CodeUnits) :=
  m.keys.filterMap fun name => (m.get name).bind fun value =>
    if name ≠ [] then some (name, value) else none

def scalarPairs (f : Filters) : List (String × String) :=
  keys.filterMap fun k =>
    if f.scalar k ≠ [] then some (k.param, fromUnits (f.scalar k)) else none

def propPairs (f : Filters) : List (String × String) :=
  scopes.flatMap fun scope => (writtenEntries (f.props scope)).map fun e =>
    (scope.param, fromUnits (e.1 ++ colon :: e.2))

theorem param_injective : Function.Injective ScalarKey.param := by
  intro k l h
  cases k <;> cases l <;> first | rfl | exact absurd h (by decide)

private theorem foldl_set
    {f : Filters} {ks : List ScalarKey} (hnodup : ks.Nodup) {p : URLSearchParams}
    (hp : ∀ k ∈ ks, k.param ∉ p.list.map Prod.fst) :
    (ks.foldl (fun p k => if f.scalar k ≠ [] then p.set k.param (f.scalar k) else p) p).list =
      p.list ++ ks.filterMap fun k =>
        if f.scalar k ≠ [] then some (k.param, fromUnits (f.scalar k)) else none := by
  induction ks generalizing p with
  | nil => simp
  | cons k ks ih =>
    rw [List.nodup_cons] at hnodup
    rw [List.foldl_cons, List.filterMap_cons]
    by_cases hk : f.scalar k ≠ []
    · have hset : (p.set k.param (f.scalar k)).list =
          p.list ++ [(k.param, fromUnits (f.scalar k))] :=
        congrArg URLSearchParams.list (URLSearchParams.set_of_not_mem _ (hp k (by simp)))
      rw [if_pos hk, if_pos hk, ih hnodup.2 ?_, hset, List.append_assoc]
      · rfl
      · intro l hl
        have hne : l.param ≠ k.param := fun heq => hnodup.1 (param_injective heq ▸ hl)
        rw [hset, List.map_append, List.mem_append, not_or]
        exact ⟨hp l (List.mem_cons_of_mem _ hl), by simpa using hne⟩
    · rw [if_neg hk, if_neg hk]
      exact ih hnodup.2 fun l hl => hp l (List.mem_cons_of_mem _ hl)

private theorem foldl_appendProp {m : PropMap} {param : String} {names : List CodeUnits}
    {p : URLSearchParams} :
    (names.foldl (appendProp m param) p).list =
      p.list ++ (names.filterMap fun name => (m.get name).bind fun value =>
        if name ≠ [] then some (name, value) else none).map fun e =>
          (param, fromUnits (e.1 ++ colon :: e.2)) := by
  induction names generalizing p with
  | nil => simp
  | cons name names ih =>
    rw [List.foldl_cons, ih, List.filterMap_cons, appendProp]
    cases m.get name with
    | none => rfl
    | some value =>
      by_cases hname : name ≠ []
      · simp [hname, URLSearchParams.append]
      · simp [hname]

theorem list_filtersToQuery (f : Filters) :
    (filtersToQuery f).list = scalarPairs f ++ propPairs f := by
  have hnodup : keys.Nodup := by decide
  have hscalar := foldl_set (f := f) hnodup (p := .empty)
    (fun k _ => by simp [URLSearchParams.empty])
  simp only [filtersToQuery, scopes, List.foldl_cons, List.foldl_nil, foldl_appendProp, hscalar]
  simp [scalarPairs, propPairs, writtenEntries, scopes, URLSearchParams.empty]

theorem param_ne (k : ScalarKey) (scope : Scope) : k.param ≠ scope.param := by
  cases k <;> cases scope <;> decide

private theorem find?_scalarPairs (f : Filters) (k : ScalarKey) (ks : List ScalarKey) :
    (ks.filterMap fun l =>
      if f.scalar l ≠ [] then some (l.param, fromUnits (f.scalar l)) else none).find?
        (fun e => e.1 = k.param) =
      if k ∈ ks ∧ f.scalar k ≠ [] then some (k.param, fromUnits (f.scalar k)) else none := by
  induction ks with
  | nil => simp
  | cons l ks ih =>
    rw [List.filterMap_cons]
    by_cases hlk : l = k
    · subst hlk
      by_cases hl : f.scalar l ≠ []
      · simp [hl]
      · rw [if_neg hl, ih, if_neg fun h => hl h.2, if_neg fun h => hl h.2]
    · have hparam : l.param ≠ k.param := fun heq => hlk (param_injective heq)
      have hmem : k ∈ l :: ks ↔ k ∈ ks := by simp [Ne.symm hlk]
      simp only [hmem]
      rw [← ih]
      by_cases hl : f.scalar l ≠ []
      · rw [if_pos hl]
        exact List.find?_cons_of_neg (by simpa using hparam)
      · rw [if_neg hl]

private theorem get_filtersToQuery (f : Filters) (k : ScalarKey) :
    (filtersToQuery f).get k.param = if f.scalar k ≠ [] then some (usv (f.scalar k)) else none := by
  have hprops : (propPairs f).find? (fun e => e.1 = k.param) = none := by
    rw [List.find?_eq_none]
    intro e he
    obtain ⟨scope, -, he⟩ := List.mem_flatMap.mp he
    obtain ⟨entry, -, rfl⟩ := List.mem_map.mp he
    simpa using (param_ne k scope).symm
  have hkey : k ∈ keys := by cases k <;> decide
  rw [URLSearchParams.get, list_filtersToQuery, List.find?_append, hprops, Option.or_none,
    scalarPairs, find?_scalarPairs]
  by_cases hk : f.scalar k ≠ []
  · rw [if_pos ⟨hkey, hk⟩, if_pos hk]
    rfl
  · rw [if_neg fun h => hk h.2, if_neg hk]
    rfl

theorem getAll_filtersToQuery (f : Filters) (scope : Scope) :
    (filtersToQuery f).getAll scope.param =
      (writtenEntries (f.props scope)).map fun e => usv (e.1 ++ colon :: e.2) := by
  have hscalar : (scalarPairs f).filter (fun e => e.1 = scope.param) = [] := by
    rw [List.filter_eq_nil_iff]
    intro e he
    obtain ⟨k, -, hk⟩ := List.mem_filterMap.mp he
    split_ifs at hk
    rw [← Option.some.inj hk]
    simpa using param_ne k scope
  have hother (other : Scope) : ((writtenEntries (f.props other)).map fun e =>
      (other.param, fromUnits (e.1 ++ colon :: e.2))).filter (fun e => e.1 = scope.param) =
        if other = scope then (writtenEntries (f.props other)).map fun e =>
          (other.param, fromUnits (e.1 ++ colon :: e.2)) else [] := by
    rw [List.filter_map]
    cases other <;> cases scope <;> simp [Scope.param, Function.comp_def]
  rw [URLSearchParams.getAll, list_filtersToQuery, List.filter_append, hscalar, List.nil_append,
    propPairs, List.filter_flatMap]
  simp only [hother]
  cases scope <;> simp [scopes, usv, Function.comp_def]

theorem idxOf?_append_cons {α : Type*} [DecidableEq α] {a : α} {s : List α} (t : List α)
    (h : a ∉ s) : (s ++ a :: t).idxOf? a = some s.length := by
  induction s with
  | nil => simp [List.idxOf?_cons]
  | cons b s ih =>
    rw [List.mem_cons, not_or] at h
    have hne : ¬ b = a := fun heq => h.1 heq.symm
    rw [List.cons_append, List.idxOf?_cons, ih h.2]
    simp [hne]

private theorem foldl_readScalar (p : URLSearchParams) (ks : List ScalarKey) (out : Filters)
    (k : ScalarKey) :
    (ks.foldl (readScalar p) out).scalar k =
      if k ∈ ks then ((p.get k.param).filter (· ≠ [])).getD (out.scalar k)
      else out.scalar k := by
  induction ks generalizing out with
  | nil => simp
  | cons l ks ih =>
    rw [List.foldl_cons, ih]
    by_cases hkl : k = l
    · subst hkl
      rw [readScalar, if_pos List.mem_cons_self]
      cases hget : p.get k.param with
      | none => simp
      | some v =>
        by_cases hv : v = []
        · simp [hv, Option.filter]
        · simp [hv, Filters.setScalar, Option.filter]
    · have hsame : (readScalar p out l).scalar k = out.scalar k := by
        rw [readScalar]
        split
        · split_ifs
          · simp [Filters.setScalar, hkl]
          · rfl
        · rfl
      rw [hsame]
      simp [hkl]

private theorem foldl_readEntry (entries : List CodeUnits) (scope : Scope) (out : Filters) :
    entries.foldl (fun out entry => out.setProps scope (readEntry (out.props scope) entry)) out =
      out.setProps scope (entries.foldl readEntry (out.props scope)) := by
  induction entries generalizing out with
  | nil => simp [Filters.setProps]
  | cons entry entries ih =>
    rw [List.foldl_cons, ih]
    simp [Filters.setProps]

/-- A parameter that is there and not empty. -/
def scalarOf (p : URLSearchParams) (k : ScalarKey) : CodeUnits :=
  ((p.get k.param).filter (· ≠ [])).getD []

private theorem foldl_readScalar_props (p : URLSearchParams) (ks : List ScalarKey) (out : Filters) :
    (ks.foldl (readScalar p) out).props = out.props := by
  induction ks generalizing out with
  | nil => rfl
  | cons k ks ih =>
    rw [List.foldl_cons, ih, readScalar]
    split
    · split_ifs <;> rfl
    · rfl

private theorem foldl_scopes
    (p : URLSearchParams) {out : Filters} (hout : out.props = emptyFilters.props) :
    scopes.foldl (fun out scope => (p.getAll scope.param).foldl
      (fun out entry => out.setProps scope (readEntry (out.props scope) entry)) out) out =
      ⟨out.scalar, fun scope => (p.getAll scope.param).foldl readEntry .empty⟩ := by
  obtain ⟨scalar, props⟩ := out
  obtain rfl : props = emptyFilters.props := hout
  simp only [scopes, List.foldl_cons, List.foldl_nil, foldl_readEntry]
  simp only [Filters.setProps, Filters.mk.injEq, true_and]
  funext scope
  cases scope <;> rfl

theorem queryToFilters_eq (p : URLSearchParams) :
    queryToFilters p =
      ⟨fun k => if k = .dir ∧ scalarOf p .sort = [] then [] else scalarOf p k,
        fun scope => (p.getAll scope.param).foldl readEntry .empty⟩ := by
  have hread (l : ScalarKey) : (keys.foldl (readScalar p) emptyFilters).scalar l =
      scalarOf p l := by
    rw [foldl_readScalar, if_pos (by cases l <;> decide)]
    rfl
  have hprops := foldl_readScalar_props p keys emptyFilters
  rw [queryToFilters, foldl_scopes p (by split_ifs <;> exact hprops), hread]
  congr 1
  funext k
  by_cases hsort : scalarOf p .sort = []
  · by_cases hdir : k = .dir
    · simp [hsort, hdir, Filters.setScalar]
    · simp [hsort, hdir, Filters.setScalar, hread]
  · simp [hsort, hread]

theorem scalarOf_filtersToQuery (f : Filters) (k : ScalarKey) :
    scalarOf (filtersToQuery f) k = usv (f.scalar k) := by
  rw [scalarOf, get_filtersToQuery]
  by_cases hk : f.scalar k = []
  · simp [hk, usv, toCodeUnits, fromUnits, scalars]
  · have husv : usv (f.scalar k) ≠ [] := fun h => hk ((usv_eq_nil_iff _).mp h)
    simp [hk, husv, Option.filter]

def Filters.Same (a b : Filters) : Prop :=
  a.scalar = b.scalar ∧ ∀ scope, (a.props scope).Same (b.props scope)

private theorem mapsEqual_iff (a b : PropMap) : mapsEqual a b = true ↔ a.Same b := by
  simp [mapsEqual, Record.same_iff]

theorem filtersEqual_iff (a b : Filters) : filtersEqual a b = true ↔ a.Same b := by
  simp only [filtersEqual, Bool.and_eq_true, List.all_eq_true, decide_eq_true_eq, mapsEqual_iff,
    Filters.Same]
  apply and_congr
  · constructor
    · intro h
      funext k
      exact h k (by cases k <;> decide)
    · exact fun h k _ => congrFun h k
  · constructor
    · intro h scope
      exact h scope (by cases scope <;> decide)
    · exact fun h scope _ => h scope

theorem Filters.Same.refl (a : Filters) : a.Same a := ⟨rfl, fun _ => Record.Same.refl _⟩

theorem Filters.Same.trans {a b c : Filters} (h : a.Same b) (h' : b.Same c) : a.Same c :=
  ⟨h.1.trans h'.1, fun scope => (h.2 scope).trans (h'.2 scope)⟩

end Statnive.FilterQuery
