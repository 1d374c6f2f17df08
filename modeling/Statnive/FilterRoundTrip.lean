import Statnive.FilterQuery

/-!
# Filters that survive the URL

What the dashboard and the server read in the query that filters are written to.
-/

namespace Statnive.FilterRoundTrip

open UnicodeText PlainObject SearchParams FilterQuery

/-- A property name that stands before the first colon of its entry. -/
structure IsPlainName (name : CodeUnits) : Prop where
  wellFormed : IsWellFormed name
  noColon : colon ∉ name
  notProto : name ≠ Record.proto

structure Plain (f : Filters) : Prop where
  scalar : ∀ k, IsWellFormed (f.scalar k)
  name : ∀ scope name value, (f.props scope).get name = some value → IsPlainName name
  value : ∀ scope name value, (f.props scope).get name = some value → IsWellFormed value

/-- The filters without a direction that has no sort key, and without properties that have no
name. -/
def kept (f : Filters) : Filters where
  scalar := fun k => if k = .dir ∧ f.scalar .sort = [] then [] else f.scalar k
  props := fun scope => (f.props scope).delete []

theorem isWellFormed_join {name value : CodeUnits} (hname : IsWellFormed name)
    (hvalue : IsWellFormed value) :
    IsWellFormed (name ++ colon :: value) ∧
      fromUnits (name ++ colon :: value) = fromUnits name ++ ":" ++ fromUnits value := by
  have hjoin : name ++ colon :: value = toCodeUnits (fromUnits name ++ ":" ++ fromUnits value) := by
    rw [toCodeUnits_append, toCodeUnits_append, hname, hvalue, List.append_assoc]
    rfl
  rw [hjoin, fromUnits_toCodeUnits]
  exact ⟨isWellFormed_toCodeUnits _, rfl⟩

theorem readEntry_append {name : CodeUnits} (hcolon : colon ∉ name) (hne : name ≠ [])
    (m : PropMap) (value : CodeUnits) :
    readEntry m (name ++ colon :: value) = m.assign name value := by
  have hpos : name.length ≠ 0 := fun h => hne (List.length_eq_zero_iff.mp h)
  rw [readEntry, idxOf?_append_cons _ hcolon]
  split
  · rename_i heq
    cases heq
  · rename_i heq
    exact absurd (Option.some.inj heq) hpos
  · rename_i idx _ heq
    obtain rfl : name.length = idx := Option.some.inj heq
    simp

private theorem readEntry_join {name : CodeUnits} (hname : IsPlainName name) (hne : name ≠ [])
    (m : PropMap) (value : CodeUnits) :
    readEntry m (name ++ colon :: value) = m.define name value := by
  rw [readEntry_append hname.noColon hne, Record.get_assign hname.notProto]

private theorem colon_not_mem_toUtf8 {name : CodeUnits} (hname : IsPlainName name) :
    (0x3A : UInt8) ∉ toUtf8 (fromUnits name) := by
  intro h
  have hchar : ':' ∈ (fromUnits name).toList := (mem_toUtf8_iff (by decide) _).mp h
  have hunit : UInt16.ofNat ':'.toNat ∈ toCodeUnits (fromUnits name) :=
    (mem_toCodeUnits_iff (by decide) _).mpr hchar
  rw [hname.wellFormed] at hunit
  exact hname.noColon hunit

/-- The bounds that the server puts on a name and a value. -/
def WithinCaps (k v : Bytes) : Prop := k.length ≤ 200 ∧ v.length ≤ 1000

instance (k v : Bytes) : Decidable (WithinCaps k v) := inferInstanceAs (Decidable (_ ∧ _))

private theorem parseEntry_join {name : CodeUnits} (hname : IsPlainName name) (hne : name ≠ [])
    {value : CodeUnits} (hvalue : IsWellFormed value) (out : Bytes → Option Bytes) :
    parseEntry out (toUtf8 (fromUnits (name ++ colon :: value))) =
      if WithinCaps (toUtf8 (fromUnits name)) (toUtf8 (fromUnits value)) then
        Function.update out (toUtf8 (fromUnits name)) (some (toUtf8 (fromUnits value)))
      else out := by
  have hbytes : toUtf8 (fromUnits (name ++ colon :: value)) =
      toUtf8 (fromUnits name) ++ 0x3A :: toUtf8 (fromUnits value) := by
    rw [(isWellFormed_join hname.wellFormed hvalue).2, toUtf8_append, toUtf8_append,
      List.append_assoc]
    rfl
  have hnonempty : toUtf8 (fromUnits name) ≠ [] := by
    intro h
    have hempty : fromUnits name = "" := toUtf8_injective h
    apply hne
    rw [← hname.wellFormed, hempty]
    rfl
  have hcut : cut (toUtf8 (fromUnits name) ++ 0x3A :: toUtf8 (fromUnits value)) =
      (toUtf8 (fromUnits name), toUtf8 (fromUnits value), true) := by
    rw [cut, idxOf?_append_cons _ (colon_not_mem_toUtf8 hname)]
    simp
  rw [hbytes, parseEntry, hcut]
  simp only [hnonempty, WithinCaps]
  by_cases hk : (toUtf8 (fromUnits name)).length ≤ 200
  · by_cases hv : (toUtf8 (fromUnits value)).length ≤ 1000
    · simp [hk, hv, Nat.not_lt.mpr]
    · simp [hk, hv, Nat.lt_of_not_le hv]
  · simp [hk, Nat.lt_of_not_le hk]

/-- Entries with different keys are all found in the map they are written to. -/
theorem foldl_update_iff {α β γ : Type*} [DecidableEq β] {key : α → β} {value : α → γ}
    {es : List α} (h : (es.map key).Nodup) (m : β → Option γ) (b : β) (c : γ) :
    es.foldl (fun m e => Function.update m (key e) (some (value e))) m b = some c ↔
      (∃ e ∈ es, b = key e ∧ c = value e) ∨ b ∉ es.map key ∧ m b = some c := by
  induction es generalizing m with
  | nil => simp
  | cons e es ih =>
    rw [List.map_cons, List.nodup_cons] at h
    rw [List.foldl_cons, ih h.2]
    by_cases hb : b = key e
    · subst hb
      have hno : ¬ ∃ e' ∈ es, key e = key e' ∧ c = value e' := by
        rintro ⟨e', he', heq, -⟩
        exact h.1 (heq ▸ List.mem_map_of_mem he')
      simp only [List.mem_cons, exists_eq_or_imp, hno, h.1, Function.update_self, List.map_cons,
        not_true, not_false_eq_true, true_and, false_and, or_false, false_or,
        Option.some.injEq]
      exact eq_comm
    · simp [hb]

theorem mem_writtenEntries {m : PropMap} {name value : CodeUnits} :
    (name, value) ∈ writtenEntries m ↔ name ≠ [] ∧ m.get name = some value := by
  simp only [writtenEntries, List.mem_filterMap, Option.bind_eq_some_iff]
  constructor
  · rintro ⟨other, -, v, hget, hsome⟩
    split_ifs at hsome with hne
    obtain ⟨rfl, rfl⟩ := Prod.mk.inj (Option.some.inj hsome)
    exact ⟨hne, hget⟩
  · rintro ⟨hne, hget⟩
    exact ⟨name, Record.mem_keys_iff.mpr ⟨value, hget⟩, value, hget, if_pos hne⟩

theorem nodup_writtenEntries (m : PropMap) : ((writtenEntries m).map Prod.fst).Nodup := by
  have hsublist : ((writtenEntries m).map Prod.fst).Sublist m.keys := by
    rw [writtenEntries]
    induction m.keys with
    | nil => exact List.Sublist.slnil
    | cons name names ih =>
      rw [List.filterMap_cons]
      cases hget : m.get name with
      | none => exact ih.cons name
      | some value =>
        by_cases hne : name ≠ []
        · simpa [hne] using ih.cons_cons name
        · simpa [hne] using ih.cons name
  exact m.nodup_keys.sublist hsublist

private theorem get_foldl_define (es : List (CodeUnits × CodeUnits)) (m : PropMap) :
    (es.foldl (fun m e => m.define e.1 e.2) m).get =
      es.foldl (fun (g : CodeUnits → Option CodeUnits) e => Function.update g e.1 (some e.2))
        m.get := by
  induction es generalizing m with
  | nil => rfl
  | cons e es ih =>
    rw [List.foldl_cons, List.foldl_cons, ih]
    congr 1
    funext name
    rw [Record.get_define, Function.update_apply]

variable {f : Filters}

theorem plain_of_mem_writtenEntries (h : Plain f) {scope : Scope} {e : CodeUnits × CodeUnits}
    (he : e ∈ writtenEntries (f.props scope)) :
    IsPlainName e.1 ∧ e.1 ≠ [] ∧ IsWellFormed e.2 := by
  obtain ⟨hne, hget⟩ := mem_writtenEntries.mp he
  exact ⟨h.name scope e.1 e.2 hget, hne, h.value scope e.1 e.2 hget⟩

/-- The dashboard reads every entry that has a name. -/
theorem readEntry_written (h : Plain f) (scope : Scope) :
    (((filtersToQuery f).getAll scope.param).foldl readEntry .empty).Same
      ((f.props scope).delete []) := by
  have hread : ((filtersToQuery f).getAll scope.param).foldl readEntry .empty =
      (writtenEntries (f.props scope)).foldl (fun m e => m.define e.1 e.2) .empty := by
    rw [getAll_filtersToQuery, List.foldl_map]
    apply List.foldl_ext
    intro m e he
    obtain ⟨hname, hne, hvalue⟩ := plain_of_mem_writtenEntries h he
    have hjoin : usv (e.1 ++ colon :: e.2) = e.1 ++ colon :: e.2 :=
      (isWellFormed_join hname.wellFormed hvalue).1
    rw [hjoin, readEntry_join hname hne]
  rw [hread]
  intro name
  apply Option.ext
  intro value
  rw [get_foldl_define, foldl_update_iff (nodup_writtenEntries _), Record.get_delete]
  constructor
  · rintro (⟨e, he, rfl, rfl⟩ | ⟨-, hnone⟩)
    · obtain ⟨hne, hget⟩ := mem_writtenEntries.mp he
      rw [if_neg hne, hget]
    · cases hnone
  · intro hget
    split_ifs at hget with hne
    exact .inl ⟨(name, value), mem_writtenEntries.mpr ⟨hne, hget⟩, rfl, rfl⟩

/-- The server reads every entry that has a name and is within its bounds. -/
theorem parseScopedProps_written (h : Plain f) (scope : Scope) (k v : Bytes) :
    parseScopedProps (received f scope) k = some v ↔
      WithinCaps k v ∧ ∃ name value, (f.props scope).get name = some value ∧ name ≠ [] ∧
        k = toUtf8 (fromUnits name) ∧ v = toUtf8 (fromUnits value) := by
  have hread : parseScopedProps (received f scope) =
      ((writtenEntries (f.props scope)).filter fun e =>
        WithinCaps (toUtf8 (fromUnits e.1)) (toUtf8 (fromUnits e.2))).foldl
          (fun out e => Function.update out (toUtf8 (fromUnits e.1))
            (some (toUtf8 (fromUnits e.2)))) fun _ => none := by
    rw [parseScopedProps, received, getAll_filtersToQuery, List.map_map, List.foldl_map,
      List.foldl_filter]
    apply List.foldl_ext
    intro out e he
    obtain ⟨hname, hne, hvalue⟩ := plain_of_mem_writtenEntries h he
    have hjoin : fromUnits (usv (e.1 ++ colon :: e.2)) = fromUnits (e.1 ++ colon :: e.2) :=
      fromUnits_toCodeUnits _
    rw [Function.comp_apply, hjoin, parseEntry_join hname hne hvalue]
    simp
  have hnodup : (((writtenEntries (f.props scope)).filter fun e =>
      WithinCaps (toUtf8 (fromUnits e.1)) (toUtf8 (fromUnits e.2))).map
        fun e => toUtf8 (fromUnits e.1)).Nodup := by
    apply List.Nodup.map_on
    · intro e he e' he' heq
      have hname := (plain_of_mem_writtenEntries h (List.mem_filter.mp he).1).1.wellFormed
      have hname' := (plain_of_mem_writtenEntries h (List.mem_filter.mp he').1).1.wellFormed
      have hfst : e.1 = e'.1 := by
        rw [← hname, ← hname', toUtf8_injective heq]
      exact List.inj_on_of_nodup_map (nodup_writtenEntries _) (List.mem_filter.mp he).1
        (List.mem_filter.mp he').1 hfst
    · exact (List.Nodup.of_map Prod.fst (nodup_writtenEntries _)).filter _
  rw [hread, foldl_update_iff hnodup]
  constructor
  · rintro (⟨e, he, rfl, rfl⟩ | ⟨-, hnone⟩)
    · rw [List.mem_filter, decide_eq_true_eq] at he
      obtain ⟨hne, hget⟩ := mem_writtenEntries.mp he.1
      exact ⟨he.2, e.1, e.2, hget, hne, rfl, rfl⟩
    · cases hnone
  · rintro ⟨hcaps, name, value, hget, hne, rfl, rfl⟩
    have hwritten := mem_writtenEntries.mpr ⟨hne, hget⟩
    exact .inl ⟨(name, value), List.mem_filter.mpr ⟨hwritten, decide_eq_true hcaps⟩, rfl, rfl⟩

private theorem isWellFormed_scalarOf (p : URLSearchParams) (k : ScalarKey) :
    IsWellFormed (scalarOf p k) := by
  rw [scalarOf, URLSearchParams.get]
  cases p.list.find? fun e => e.1 = k.param with
  | none => exact isWellFormed_toCodeUnits ""
  | some e =>
    by_cases hempty : toCodeUnits e.2 = []
    · rw [Option.map_some, hempty]
      exact isWellFormed_toCodeUnits ""
    · simpa [hempty, Option.filter] using isWellFormed_toCodeUnits e.2

/-- The two sides of the first colon of a text. -/
theorem exists_cut {s : String} (h : colon ∈ toCodeUnits s) :
    ∃ name value, toCodeUnits s = toCodeUnits name ++ colon :: toCodeUnits value ∧
      colon ∉ toCodeUnits name := by
  have hcolon : UInt16.ofNat ':'.toNat = colon := rfl
  have hchar : ':' ∈ s.toList := (mem_toCodeUnits_iff (by decide) s).mp h
  obtain ⟨before, after, hlist, hbefore⟩ := List.eq_append_cons_of_mem hchar
  refine ⟨String.ofList before, String.ofList after, ?_, ?_⟩
  · rw [toCodeUnits, hlist, List.flatMap_append, List.flatMap_cons]
    simp only [toCodeUnits, String.toList_ofList]
    rfl
  · rw [← hcolon, mem_toCodeUnits_iff (by decide), String.toList_ofList]
    exact hbefore

/-- The properties that a reading can leave in a map. -/
def Readable (m : PropMap) : Prop :=
  ∀ name value, m.get name = some value → IsPlainName name ∧ name ≠ [] ∧ IsWellFormed value

private theorem readable_readEntry {m : PropMap} (h : Readable m) (s : String) :
    Readable (readEntry m (toCodeUnits s)) := by
  by_cases hcolon : colon ∈ toCodeUnits s
  · obtain ⟨before, after, hunits, hbefore⟩ := exists_cut hcolon
    rw [hunits]
    by_cases hempty : toCodeUnits before = []
    · rw [hempty]
      simpa [readEntry, List.idxOf?_cons] using h
    · rw [readEntry_append hbefore hempty, Record.assign]
      split_ifs with hproto
      · exact h
      · intro name value hget
        rw [Record.get_define] at hget
        split_ifs at hget with hname
        · subst hname
          obtain rfl := Option.some.inj hget
          refine ⟨⟨isWellFormed_toCodeUnits _, hbefore, fun heq => hproto ⟨heq, ?_⟩⟩, hempty,
            isWellFormed_toCodeUnits _⟩
          by_contra hsome
          obtain ⟨old, hold⟩ := Option.ne_none_iff_exists'.mp hsome
          exact (h _ _ hold).1.notProto heq
        · exact h name value hget
  · have hread : readEntry m (toCodeUnits s) = m := by
      rw [readEntry, List.idxOf?_eq_none_iff.mpr hcolon]
    rw [hread]
    exact h

theorem readable_queryToFilters (p : URLSearchParams) (scope : Scope) :
    Readable ((queryToFilters p).props scope) := by
  have hfold (entries : List (String × String)) (m : PropMap) (h : Readable m) :
      Readable ((entries.map fun e => toCodeUnits e.2).foldl readEntry m) := by
    induction entries generalizing m with
    | nil => exact h
    | cons e entries ih => exact ih _ (readable_readEntry h e.2)
  rw [queryToFilters_eq]
  exact hfold _ _ fun name value hget => by cases hget

private theorem plain_queryToFilters (p : URLSearchParams) : Plain (queryToFilters p) where
  scalar := by
    intro k
    rw [queryToFilters_eq]
    dsimp only
    split_ifs
    · exact isWellFormed_toCodeUnits ""
    · exact isWellFormed_scalarOf p k
  name := fun scope name value hget => (readable_queryToFilters p scope name value hget).1
  value := fun scope name value hget => (readable_queryToFilters p scope name value hget).2.2

private theorem kept_queryToFilters (p : URLSearchParams) :
    (kept (queryToFilters p)).Same (queryToFilters p) := by
  constructor
  · funext k
    simp only [kept, queryToFilters_eq]
    by_cases hk : k = .dir
    · by_cases hsort : scalarOf p .sort = [] <;> simp [hk, hsort]
    · simp [hk]
  · intro scope name
    simp only [kept]
    rw [Record.get_delete]
    split_ifs with hname
    · subst hname
      symm
      by_contra hsome
      obtain ⟨value, hvalue⟩ := Option.ne_none_iff_exists'.mp hsome
      exact (readable_queryToFilters p scope [] value hvalue).2.1 rfl
    · rfl

theorem same_round_trip (h : Plain f) : (queryToFilters (filtersToQuery f)).Same (kept f) := by
  have husv (k : ScalarKey) : usv (f.scalar k) = f.scalar k := h.scalar k
  rw [queryToFilters_eq]
  constructor
  · funext k
    simp only [scalarOf_filtersToQuery, husv, kept]
  · exact readEntry_written h

/-- Filters that come from a query, as those the dashboard shows do, are read back as they are. -/
theorem query_round_trip (p : URLSearchParams) :
    filtersEqual (queryToFilters (filtersToQuery (queryToFilters p))) (queryToFilters p) = true :=
  (filtersEqual_iff _ _).mpr
    ((same_round_trip (plain_queryToFilters p)).trans (kept_queryToFilters p))

/-- The dashboard reads back all but a direction without a sort key and properties without a
name, and the server reads the same properties within its bounds. -/
theorem filters_survive (f : Filters) (h : Plain f) :
    filtersEqual (queryToFilters (filtersToQuery f)) (kept f) = true ∧
      ∀ scope k v, parseScopedProps (received f scope) k = some v ↔
        WithinCaps k v ∧ ∃ name value, (f.props scope).get name = some value ∧ name ≠ [] ∧
          k = toUtf8 (fromUnits name) ∧ v = toUtf8 (fromUnits value) :=
  ⟨(filtersEqual_iff _ _).mpr (same_round_trip h), parseScopedProps_written h⟩

/-- What `updateFilters` makes of a direction alone. -/
def directionOnly : Filters :=
  merge emptyFilters { scalar := Function.update (fun _ => none) .dir (some (toCodeUnits "asc")) }

/-- What `updateFilters` makes of a single hit property. -/
def withHitProp (name value : CodeUnits) : Filters :=
  merge emptyFilters (propsPatch .hitProps (Record.empty.define name value))

theorem get_withHitProp (name value : CodeUnits) (scope : Scope) (other : CodeUnits) :
    ((withHitProp name value).props scope).get other =
      if scope = .hitProps ∧ other = name then some value else none := by
  cases scope
  · simp [withHitProp, merge, propsPatch, Record.get_define]
  · rfl
  · rfl

theorem plain_withHitProp {name value : CodeUnits} (hname : IsPlainName name)
    (hvalue : IsWellFormed value) : Plain (withHitProp name value) := by
  constructor
  · exact fun k => isWellFormed_toCodeUnits ""
  · intro scope other v hget
    rw [get_withHitProp] at hget
    split_ifs at hget with h
    exact h.2 ▸ hname
  · intro scope other v hget
    rw [get_withHitProp] at hget
    split_ifs at hget with h
    exact Option.some.inj hget ▸ hvalue

theorem filters_survive_url :
    filtersEqual
        (queryToFilters (filtersToQuery (withHitProp (toCodeUnits "url") (toCodeUnits "a:b"))))
        (kept (withHitProp (toCodeUnits "url") (toCodeUnits "a:b"))) = true ∧
      ∀ scope k v,
        parseScopedProps (received (withHitProp (toCodeUnits "url") (toCodeUnits "a:b")) scope) k =
            some v ↔
          WithinCaps k v ∧ ∃ name value,
            ((withHitProp (toCodeUnits "url") (toCodeUnits "a:b")).props scope).get name =
              some value ∧
              name ≠ [] ∧ k = toUtf8 (fromUnits name) ∧ v = toUtf8 (fromUnits value) := by
  have hname : IsPlainName (toCodeUnits "url") := ⟨isWellFormed_toCodeUnits _, by decide, by decide⟩
  exact filters_survive _ (plain_withHitProp hname (isWellFormed_toCodeUnits _))

def longName (n : ℕ) : String := String.ofList (List.replicate n 'a')

private theorem isPlainName_longName (n : ℕ) : IsPlainName (toCodeUnits (longName n)) where
  wellFormed := isWellFormed_toCodeUnits _
  noColon := by
    intro h
    have hchar : ':' ∈ (longName n).toList := (mem_toCodeUnits_iff (by decide) _).mp h
    rw [longName, String.toList_ofList] at hchar
    exact absurd (List.eq_of_mem_replicate hchar) (by decide)
  notProto := by
    intro h
    have hlist : (longName n).toList = "__proto__".toList := congrArg String.toList
      (toCodeUnits_injective h)
    have hchar : '_' ∈ (longName n).toList := hlist ▸ (by decide)
    rw [longName, String.toList_ofList] at hchar
    exact absurd (List.eq_of_mem_replicate hchar) (by decide)

private theorem length_longName (n : ℕ) : (toUtf8 (longName n)).length = n := by
  rw [toUtf8, longName, String.toList_ofList, List.length_flatMap, List.map_replicate]
  simp [String.length_utf8EncodeChar, Char.utf8Size]

/-- A direction without a sort key is dropped, as is a property without a name. A name with a
colon, the name `__proto__` and a lone surrogate are changed. A long name does not reach the
server. -/
theorem filters_altered :
    filtersEqual (queryToFilters (filtersToQuery directionOnly)) directionOnly = false ∧
      (∀ name ∈ [[], toCodeUnits "a:b", Record.proto, [0xD800]],
        filtersEqual (queryToFilters (filtersToQuery (withHitProp name (toCodeUnits "v"))))
          (withHitProp name (toCodeUnits "v")) = false) ∧
      parseScopedProps
        (received (withHitProp (toCodeUnits (longName 201)) (toCodeUnits "v")) .hitProps)
        (toUtf8 (longName 201)) = none := by
  refine ⟨by decide +kernel, by decide +kernel, ?_⟩
  rw [Option.eq_none_iff_forall_ne_some]
  intro v hv
  have hplain := plain_withHitProp (isPlainName_longName 201) (isWellFormed_toCodeUnits "v")
  have hcaps := ((parseScopedProps_written hplain .hitProps _ v).mp hv).1.1
  rw [length_longName] at hcaps
  omega

end Statnive.FilterRoundTrip
