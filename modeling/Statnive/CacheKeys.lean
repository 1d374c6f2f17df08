import Statnive.DashboardCache
import Statnive.StoreQueries

/-!
# Which calls share an entry of the cache

A call is answered from the entry of its key, whichever call has loaded it. The key is meant to
determine the query that the store would send. The bytes that the hash of a filter is taken of
put a NUL behind each value, and no value is quoted.
-/

namespace Statnive.CacheKeys

open CivilCalendar DashboardFilter DashboardCache StoreQueries
open PrivacyPolicy (Bytes)
open VisitorIdentity (utf8 hexEncode)

structure Request where
  endpoint : Endpoint
  filter : ZonedFilter

def Request.key (digest : Bytes → Bytes) (r : Request) : String :=
  r.endpoint.key digest r.filter.toFilter

def Request.panel (p : Panel) (f : ZonedFilter) : Except StoreError Query :=
  .ok ((p.reader f.toFilter).query f)

/-- What the method of the store sends for arguments that it accepts. -/
def Request.dispatch (r : Request) (now : ℤ) : Except StoreError Query :=
  match r.endpoint with
  | .overview => panel .overview r.filter
  | .sources => panel .sources r.filter
  | .sourcesByChannel => panel .sourcesByChannel r.filter
  | .pages => panel .pages r.filter
  | .seo => panel .seo r.filter
  | .campaigns => panel .campaigns r.filter
  | .trend => panel .trend r.filter
  | .geo => panel .geo r.filter
  | .geoTopCountries => panel .geoTopCountries r.filter
  | .realtime => .ok (realtime r.filter.toFilter now)
  | .propNames scope limit => propNames r.filter.toFilter scope limit
  | .compare dimension goal => StoreQueries.compare r.filter dimension goal

/-- The filter is validated first; `now` is the clock of the process. -/
def Request.issues (r : Request) (now : ℤ) : Except StoreError Query :=
  match r.filter.validate with
  | .error e => .error (.filter e)
  | .ok () => r.dispatch now

def panelEndpoint : Panel → Endpoint
  | .overview => .overview
  | .sources => .sources
  | .sourcesByChannel => .sourcesByChannel
  | .pages => .pages
  | .seo => .seo
  | .campaigns => .campaigns
  | .trend => .trend
  | .geo => .geo
  | .geoTopCountries => .geoTopCountries

def nul : Char := Char.ofNat 0

def propEntries (scope : String) (m : List (String × String)) : List (String × String) :=
  if m = [] then [("prop:" ++ scope, "")]
  else (m.insertionSort fun a b => a.1 ≤ b.1).map fun e => ("prop:" ++ scope ++ ":" ++ e.1, e.2)

def fieldEntries (f : Filter) : List (String × String) :=
  [("site_id", decimal f.siteID), ("from", formatRFC3339Nano f.fromTime),
    ("to", formatRFC3339Nano f.toTime), ("path", f.path), ("referrer", f.referrer),
    ("channel", f.channel), ("utm_source", f.utmSource), ("utm_medium", f.utmMedium),
    ("utm_campaign", f.utmCampaign), ("utm_content", f.utmContent), ("utm_term", f.utmTerm),
    ("country", f.country), ("browser", f.browser), ("os", f.os), ("device", f.device),
    ("sort", f.sort), ("dir", f.dir), ("search", f.search), ("limit", decimal f.effectiveLimit),
    ("offset", decimal f.offset)]

/-- The names and values that are written, in order. -/
def entries (f : Filter) : List (String × String) :=
  fieldEntries f ++ propEntries "h" f.hitProps ++ propEntries "s" f.sessionProps ++
    propEntries "u" f.userProps

/-- `name=value`. -/
def assignment (e : String × String) : List Char := (e.1 ++ "=" ++ e.2).toList

/-- The assignments, cut at every NUL. -/
def pieces (f : Filter) : List (List Char) :=
  (entries f).flatMap fun e => (assignment e).splitOn nul

theorem writePropMap_entries (scope : String) (m : List (String × String)) :
    writePropMap scope m = (propEntries scope m).flatMap fun e => writeStr e.1 e.2 := by
  simp only [writePropMap, propEntries]
  split
  · simp
  · simp [List.flatMap_map]

private theorem bytes_entries (f : Filter) :
    f.bytes = (entries f).flatMap fun e => writeStr e.1 e.2 := by
  have hint (key : String) (n : ℤ) : writeInt key n = writeStr key (decimal n) := rfl
  have huint (key : String) (n : ℕ) : writeUint32 key n = writeStr key (decimal n) := rfl
  have htime (key : String) (t : ℤ) : writeTime key t = writeStr key (formatRFC3339Nano t) := rfl
  unfold Filter.bytes entries fieldEntries
  rw [List.flatMap_append, List.flatMap_append, List.flatMap_append, writePropMap_entries,
    writePropMap_entries, writePropMap_entries]
  simp only [List.flatMap_cons, List.flatMap_nil]
  simp only [List.append_nil]
  simp only [hint, huint, htime]
  simp only [List.append_assoc]

/-- The text whose UTF-8 the bytes are. -/
def text (f : Filter) : List Char := (entries f).flatMap fun e => assignment e ++ [nul]

theorem bytes_text (f : Filter) : f.bytes = utf8 (String.ofList (text f)) := by
  have hwrite (e : String × String) :
      writeStr e.1 e.2 = (assignment e ++ [nul]).flatMap String.utf8EncodeChar := by
    have hnul : String.utf8EncodeChar nul = [0] := by decide
    have heq : String.utf8EncodeChar '=' = ['='.toUInt8] := by decide
    simp [writeStr, assignment, utf8, String.toList_append, hnul, heq]
  rw [bytes_entries]
  simp only [hwrite, utf8, text, String.toList_ofList]
  rw [List.flatMap_assoc]

theorem splitOn_text (f : Filter) : (text f).splitOn nul = pieces f ++ [[]] := by
  simp only [text, pieces]
  induction entries f with
  | nil => rfl
  | cons e es ih =>
    rw [List.flatMap_cons, List.append_assoc, List.singleton_append,
      List.splitOn_append_cons_self, ih, List.flatMap_cons, List.append_assoc]

/-- Two filters are of the same bytes when they are cut into the same pieces. -/
theorem bytes_eq_iff {f g : Filter} : f.bytes = g.bytes ↔ pieces f = pieces g := by
  rw [bytes_text, bytes_text]
  constructor
  · intro h
    have htext := String.ofList_injective (VisitorIdentity.utf8_injective h)
    have hsplit := congrArg (List.splitOn nul) htext
    rw [splitOn_text, splitOn_text] at hsplit
    exact List.append_cancel_right hsplit
  · intro h
    have hf : [nul].intercalate ((text f).splitOn nul) = text f := List.intercalate_splitOn nul
    have hg : [nul].intercalate ((text g).splitOn nul) = text g := List.intercalate_splitOn nul
    rw [← hf, ← hg, splitOn_text, splitOn_text, h]

theorem hash_eq_iff {digest : Bytes → Bytes} {f g : Filter} (hd : Apart digest [f, g]) :
    f.hash digest = g.hash digest ↔ pieces f = pieces g := by
  rw [← bytes_eq_iff]
  constructor
  · intro h
    exact hd f (by simp) g (by simp) (VisitorIdentity.hexEncode_injective h)
  · intro h
    rw [Filter.hash, Filter.hash, h]

/-- The filters pick the same statement of the panel, and restrict, order and limit it alike. -/
structure SameReading (p : Panel) (f g : Filter) : Prop where
  reader : p.reader f = p.reader g
  filters : applyFilters f (p.reader f).cols = applyFilters g (p.reader f).cols
  props : (p.reader f).readsProps = true → Filter.propPredicates f = Filter.propPredicates g
  order : orderClause f (p.reader f).sortable (p.reader f).fallback =
    orderClause g (p.reader f).sortable (p.reader f).fallback
  limit : (p.reader f).cap.limit f = (p.reader f).cap.limit g

theorem rollup_eq_raw {p : Panel} (h : p.rollup.statement = p.raw.statement) :
    p.rollup = p.raw := by
  cases p <;> first | rfl | exact absurd h (by decide)

/-- The statement of a panel tells which of its two readers sends it. -/
theorem reader_eq_of_statement {p : Panel} {f g : Filter}
    (h : (p.reader f).statement = (p.reader g).statement) : p.reader f = p.reader g := by
  unfold Panel.reader at h ⊢
  split_ifs at h ⊢
  · rfl
  · exact (rollup_eq_raw h.symm).symm
  · exact rollup_eq_raw h
  · rfl

theorem query_eq_iff {p : Panel} {f g : ZonedFilter} :
    (p.reader f.toFilter).query f = (p.reader g.toFilter).query g ↔
      whereTimeAndTenant f (p.reader f.toFilter).column =
        whereTimeAndTenant g (p.reader f.toFilter).column ∧
      SameReading p f.toFilter g.toFilter := by
  constructor
  · intro h
    have hreader := reader_eq_of_statement (congrArg Query.statement h)
    rw [← hreader] at h
    obtain ⟨hrange, hfilters, hprops, horder, hlimit⟩ := Reader.query_inj.mp h
    exact ⟨hrange, hreader, hfilters, hprops, horder, hlimit⟩
  · rintro ⟨hrange, hreader, hfilters, hprops, horder, hlimit⟩
    rw [← hreader]
    exact Reader.query_inj.mpr ⟨hrange, hfilters, hprops, horder, hlimit⟩

/-- An entry holds a NUL, or its name an equals sign. -/
def Escapes (f : Filter) : Prop :=
  ∃ e ∈ entries f, nul ∈ e.1.toList ∨ nul ∈ e.2.toList ∨ '=' ∈ e.1.toList

theorem assignment_toList (e : String × String) :
    assignment e = e.1.toList ++ '=' :: e.2.toList := by
  simp [assignment, String.toList_append]

theorem pieces_of_not_escapes {f : Filter} (hf : ¬ Escapes f) :
    pieces f = (entries f).map assignment := by
  have hsplit : ∀ e ∈ entries f, (assignment e).splitOn nul = [assignment e] := by
    intro e he
    have hno : nul ∉ assignment e := by
      intro hmem
      rw [assignment_toList, List.mem_append, List.mem_cons] at hmem
      rcases hmem with hmem | hmem | hmem
      · exact hf ⟨e, he, .inl hmem⟩
      · exact absurd hmem (by decide)
      · exact hf ⟨e, he, .inr (.inl hmem)⟩
    exact List.splitOn_eq_singleton hno
  rw [pieces, List.map_eq_flatMap]
  exact List.flatMap_congr hsplit

private theorem assignment_injOn {e e' : String × String} (he : '=' ∉ e.1.toList)
    (he' : '=' ∉ e'.1.toList) (h : assignment e = assignment e') : e = e' := by
  rw [assignment_toList, assignment_toList] at h
  obtain ⟨hname, hval⟩ := append_cons_inj he he' h
  exact Prod.ext (String.toList_injective hname) (String.toList_injective hval)

/-- Without separators in them, the entries are determined by the pieces. -/
theorem entries_eq_of_pieces {f g : Filter} (hf : ¬ Escapes f) (hg : ¬ Escapes g)
    (h : pieces f = pieces g) : entries f = entries g := by
  rw [pieces_of_not_escapes hf, pieces_of_not_escapes hg] at h
  have hname {k : Filter} (hk : ¬ Escapes k) : ∀ e ∈ entries k, '=' ∉ e.1.toList :=
    fun e he heq => hk ⟨e, he, .inr (.inr heq)⟩
  have hnames := hname hf
  have hnames' := hname hg
  generalize entries f = es at *
  generalize entries g = es' at *
  induction es generalizing es' with
  | nil => exact (List.map_eq_nil_iff.mp h.symm).symm
  | cons e es ih =>
    cases es' with
    | nil => simp at h
    | cons e' es' =>
      rw [List.forall_mem_cons] at hnames hnames'
      obtain ⟨hhead, htail⟩ := List.cons.inj h
      rw [assignment_injOn hnames.1 hnames'.1 hhead, ih hnames.2 es' hnames'.2 htail]

theorem decimal_injective : Function.Injective decimal := fun _ _ h =>
  appendInt_injective 1 (String.ofList_injective h)

/-- A name with a property in it is not the name that an empty map is written under. -/
theorem not_mem_written {scope : String} {m : List (String × String)} :
    ("prop:" ++ scope, "") ∉ m.map fun e => ("prop:" ++ scope ++ ":" ++ e.1, e.2) := by
  intro hmem
  obtain ⟨e, -, he⟩ := List.mem_map.mp hmem
  have hlen := congrArg String.length (Prod.mk.inj he).1
  have hcolon : ":".length = 1 := by decide
  simp only [String.length_append] at hlen
  omega

/-- What is written of a map is the map in the order of its names. -/
theorem sorted_eq_of_propEntries {scope : String} {m m' : List (String × String)}
    (h : propEntries scope m = propEntries scope m') :
    m.insertionSort (fun a b => a.1 ≤ b.1) = m'.insertionSort (fun a b => a.1 ≤ b.1) := by
  unfold propEntries at h
  split_ifs at h with hm hm' hm'
  · rw [hm, hm']
  · exact absurd (h ▸ List.mem_singleton_self _) not_mem_written
  · exact absurd (h ▸ List.mem_singleton_self _) not_mem_written
  · refine List.map_injective_iff.mpr (fun e e' hee => ?_) h
    obtain ⟨hname, hval⟩ := Prod.mk.inj hee
    exact Prod.ext ((String.append_right_inj _).mp hname) hval

/-- The letter behind `prop:`. -/
def scopeLetter (e : String × String) : Option Char := e.1.toList[5]?

theorem scopeLetter_of_mem {c : Char} {m : List (String × String)} {e : String × String}
    (h : e ∈ propEntries (String.singleton c) m) : scopeLetter e = some c := by
  have hprop : "prop:".toList = ['p', 'r', 'o', 'p', ':'] := by decide
  unfold propEntries at h
  unfold scopeLetter
  split at h
  · obtain rfl := List.mem_singleton.mp h
    simp [hprop]
  · obtain ⟨d, -, rfl⟩ := List.mem_map.mp h
    simp [String.toList_append, hprop]

/-- The entries of a scope are those with its letter. -/
theorem filter_scopeLetter (c d : Char) (m : List (String × String)) :
    (propEntries (String.singleton d) m).filter (fun e => scopeLetter e = some c) =
      if d = c then propEntries (String.singleton d) m else [] := by
  split_ifs with h
  · exact List.filter_eq_self.mpr fun e he => by simp [scopeLetter_of_mem he, h]
  · exact List.filter_eq_nil_iff.mpr fun e he => by simp [scopeLetter_of_mem he, h]

private theorem propPredicates_eq_of_append {f g : Filter}
    (h : propEntries "h" f.hitProps ++ (propEntries "s" f.sessionProps ++
        propEntries "u" f.userProps) =
      propEntries "h" g.hitProps ++ (propEntries "s" g.sessionProps ++
        propEntries "u" g.userProps)) :
    Filter.propPredicates f = Filter.propPredicates g := by
  have hname : "h" = String.singleton 'h' ∧ "s" = String.singleton 's' ∧
      "u" = String.singleton 'u' := by decide
  rw [hname.1, hname.2.1, hname.2.2] at h
  have hscope (c : Char) := congrArg (List.filter fun e => scopeLetter e = some c) h
  have hh := hscope 'h'
  have hs := hscope 's'
  have hu := hscope 'u'
  simp only [List.filter_append, filter_scopeLetter, Char.reduceEq, if_true, if_false,
    List.append_nil, List.nil_append] at hh hs hu
  unfold Filter.propPredicates StoreQueries.propPredicates
  rw [sorted_eq_of_propEntries hh, sorted_eq_of_propEntries hs, sorted_eq_of_propEntries hu]

/-- What panels read of a filter. -/
structure SameValues (f g : Filter) : Prop where
  values : ∀ c, value f c = value g c
  props : Filter.propPredicates f = Filter.propPredicates g
  sort : f.sort = g.sort
  dir : f.dir = g.dir
  limit : f.effectiveLimit = g.effectiveLimit

theorem length_fieldEntries (f : Filter) : (fieldEntries f).length = 20 := by
  simp only [fieldEntries, List.length_cons, List.length_nil]

private theorem sameValues_of_entries {f g : Filter} (h : entries f = entries g) :
    SameValues f g := by
  simp only [entries, List.append_assoc] at h
  obtain ⟨hfields, hprops⟩ := List.append_inj h
    ((length_fieldEntries f).trans (length_fieldEntries g).symm)
  simp only [fieldEntries, List.cons.injEq, Prod.mk.injEq, true_and, and_true] at hfields
  obtain ⟨-, -, -, hpath, hreferrer, hchannel, hsource, hmedium, hcampaign, hcontent, hterm,
    hcountry, -, -, -, hsort, hdir, -, hlimit, -⟩ := hfields
  refine ⟨fun c => ?_, propPredicates_eq_of_append hprops, hsort, hdir, decimal_injective hlimit⟩
  cases c <;> assumption

theorem hasPropFilter_iff (f : Filter) :
    f.hasPropFilter = true ↔ Filter.propPredicates f ≠ [] := by
  simp only [Filter.hasPropFilter, Filter.propPredicates, StoreQueries.propPredicates,
    decide_eq_true_eq, ne_eq, ← List.length_eq_zero_iff, List.length_append, List.length_map,
    List.length_insertionSort]
  omega

theorem SameValues.sameReading {f g : Filter} (h : SameValues f g) (p : Panel) :
    SameReading p f g := by
  have hraw : f.hasPropFilter = g.hasPropFilter := by
    rw [Bool.eq_iff_iff, hasPropFilter_iff, hasPropFilter_iff, h.props]
  refine ⟨?_, ?_, fun _ => h.props, ?_, ?_⟩
  · rw [Panel.reader, Panel.reader, hraw]
  · exact applyFilters_congr fun c _ => h.values c
  · simp only [orderClause, h.sort, h.dir]
  · cases (p.reader f).cap <;> simp [Cap.limit, h.limit]

/-- Filters without separators in them that are of the same pieces are read alike. -/
theorem sameReading_of_pieces {f g : Filter} (hf : ¬ Escapes f) (hg : ¬ Escapes g)
    (h : pieces f = pieces g) (p : Panel) : SameReading p f g :=
  (sameValues_of_entries (entries_eq_of_pieces hf hg h)).sameReading p

/-- The statement of the endpoint is about the range of the filter. -/
def ReadsRange : Endpoint → Prop
  | .realtime | .propNames _ _ => False
  | _ => True

/-- Two calls that share an entry and send different queries. -/
inductive Confused : Request → Request → Prop
  /-- The key of `Realtime` leaves the property constraints out. -/
  | realtime {f g : ZonedFilter} (hsite : f.siteID = g.siteID) (hchannel : f.channel = g.channel)
      (hprops : Filter.propPredicates f.toFilter ≠ Filter.propPredicates g.toFilter) :
      Confused ⟨.realtime, f⟩ ⟨.realtime, g⟩
  /-- A colon of the name or of the goal may be the one between them. -/
  | compare {f g : ZonedFilter} {dimension goal dimension' goal' : String}
      (hpieces : pieces f.toFilter = pieces g.toFilter)
      (htext : dimension ++ ":" ++ goal = dimension' ++ ":" ++ goal')
      (hcut : dimension ≠ dimension') :
      Confused ⟨.compare dimension goal, f⟩ ⟨.compare dimension' goal', g⟩
  /-- The instants are hashed in UTC, and sent in their locations. -/
  | zones {f g : ZonedFilter} {e : Endpoint} (hrange : ReadsRange e)
      (hpieces : pieces f.toFilter = pieces g.toFilter)
      (hzones : (f.fromZone, f.toZone) ≠ (g.fromZone, g.toZone)) : Confused ⟨e, f⟩ ⟨e, g⟩
  /-- A value holds a NUL, or a property name a NUL or an equals sign. -/
  | separators {f g : ZonedFilter} {p : Panel}
      (hescapes : Escapes f.toFilter ∨ Escapes g.toFilter)
      (hpieces : pieces f.toFilter = pieces g.toFilter)
      (hreads : ¬ SameReading p f.toFilter g.toFilter) :
      Confused ⟨panelEndpoint p, f⟩ ⟨panelEndpoint p, g⟩

theorem whereTimeAndTenant_eq_iff {f g : ZonedFilter}
    (h : pieces f.toFilter = pieces g.toFilter) (column : TimeColumn) :
    whereTimeAndTenant f column = whereTimeAndTenant g column ↔
      (f.fromZone, f.toZone) = (g.fromZone, g.toZone) := by
  obtain ⟨hsite, hfrom, hto⟩ := Filter.range_eq_of_bytes (bytes_eq_iff.mpr h)
  simp [whereTimeAndTenant, ZonedFilter.start, ZonedFilter.stop, hsite, hfrom, hto]

theorem dispatch_of_issues {r : Request} {now : ℤ} {q : Query} (h : r.issues now = .ok q) :
    r.dispatch now = .ok q := by
  unfold Request.issues at h
  split at h
  · exact absurd h (by simp)
  · exact h

private theorem dispatch_panelEndpoint (p : Panel) (f : ZonedFilter) (now : ℤ) :
    Request.dispatch ⟨panelEndpoint p, f⟩ now = .ok ((p.reader f.toFilter).query f) := by
  cases p <;> rfl

theorem key_panelEndpoint (digest : Bytes → Bytes) (p : Panel) (f : Filter) :
    (panelEndpoint p).key digest f = (panelEndpoint p).name ++ ":" ++ f.hash digest := by
  cases p <;> rfl

private theorem readsRange_panelEndpoint (p : Panel) : ReadsRange (panelEndpoint p) := by
  cases p <;> trivial

theorem endpoint_cases (e : Endpoint) : (∃ p, e = panelEndpoint p) ∨ e = .realtime ∨
    (∃ scope limit, e = .propNames scope limit) ∨ ∃ dimension goal, e = .compare dimension goal := by
  cases e with
  | overview => exact .inl ⟨.overview, rfl⟩
  | sources => exact .inl ⟨.sources, rfl⟩
  | sourcesByChannel => exact .inl ⟨.sourcesByChannel, rfl⟩
  | pages => exact .inl ⟨.pages, rfl⟩
  | seo => exact .inl ⟨.seo, rfl⟩
  | campaigns => exact .inl ⟨.campaigns, rfl⟩
  | trend => exact .inl ⟨.trend, rfl⟩
  | geo => exact .inl ⟨.geo, rfl⟩
  | geoTopCountries => exact .inl ⟨.geoTopCountries, rfl⟩
  | realtime => exact .inr (.inl rfl)
  | propNames scope limit => exact .inr (.inr (.inl ⟨scope, limit, rfl⟩))
  | compare dimension goal => exact .inr (.inr (.inr ⟨dimension, goal, rfl⟩))

private theorem propNames_of_name {e : Endpoint} {scope : String} {limit : ℤ}
    (h : e.name = (Endpoint.propNames scope limit).name) :
    ∃ scope' limit', e = .propNames scope' limit' := by
  cases e with
  | propNames scope' limit' => exact ⟨scope', limit', rfl⟩
  | _ => exact absurd h (by simp only [Endpoint.name]; decide)

private theorem compare_of_name {e : Endpoint} {dimension goal : String}
    (h : e.name = (Endpoint.compare dimension goal).name) :
    ∃ dimension' goal', e = .compare dimension' goal' := by
  cases e with
  | compare dimension' goal' => exact ⟨dimension', goal', rfl⟩
  | _ => exact absurd h (by simp only [Endpoint.name]; decide)

theorem of_cutColon {s before after : String} (h : cutColon s = some (before, after)) :
    ':' ∉ before.toList ∧ s.toList = before.toList ++ ':' :: after.toList := by
  have hsplit := List.takeWhile_append_dropWhile (p := (· ≠ ':')) (l := s.toList)
  have hcolon := List.head?_dropWhile_not (· ≠ ':') s.toList
  unfold cutColon at h
  rw [List.span_eq_takeWhile_dropWhile] at h
  split at h
  · next l c r heq =>
    obtain ⟨hl, hr⟩ := Prod.mk.inj heq
    obtain ⟨rfl, rfl⟩ := Prod.mk.inj (Option.some.inj h)
    rw [hr] at hcolon hsplit
    have hc : c = ':' := by simpa using hcolon
    rw [String.toList_ofList, String.toList_ofList, ← hsplit, hl, hc]
    refine ⟨fun hmem => ?_, rfl⟩
    rw [← hl] at hmem
    exact absurd (List.mem_takeWhile_imp hmem) (by simp)
  · simp at h

/-- What a comparison sends, of a dimension that is cut into a scope and a name. -/
theorem of_compare {f : ZonedFilter} {dimension goal : String} {q : Query}
    (h : StoreQueries.compare f dimension goal = .ok q) : ∃ scope name col,
      cutColon dimension = some (scope, name) ∧ scopeToColumn scope = some col ∧
      q = { statement := .compare col name goal, range := whereTimeAndTenant f .time } := by
  unfold StoreQueries.compare at h
  split at h
  · exact absurd h (by simp)
  · next scope name hcut =>
    split at h
    · exact absurd h (by simp)
    · next col hcol =>
      split at h
      · exact absurd h (by simp)
      · exact ⟨scope, name, col, hcut, hcol, (Except.ok.inj h).symm⟩

theorem colon_notMem_hash (digest : Bytes → Bytes) (f : Filter) :
    ':' ∉ (f.hash digest).toList := by
  have hdigit : ∀ n < 16, ':' ≠ Nat.digitChar n := by decide
  intro hmem
  simp only [Filter.hash, hexEncode, String.toList_ofList, List.mem_flatMap] at hmem
  obtain ⟨d, -, hc⟩ := hmem
  have hlt := d.toNat_lt
  rcases List.mem_pair.mp hc with hc | hc
  · exact hdigit _ (by omega) hc
  · exact hdigit _ (by omega) hc

theorem colon_notMem_decimal (n : ℤ) : ':' ∉ (decimal n).toList := by
  intro hmem
  rw [decimal, String.toList_ofList] at hmem
  rcases appendInt_chars hmem with h | h
  · exact absurd h (by decide)
  · exact absurd h (by decide)

theorem colon_notMem_scope {scope : String} {col : PropScope}
    (h : scopeToColumn scope = some col) : ':' ∉ scope.toList := by
  unfold scopeToColumn at h
  split at h <;> first | decide | simp at h

/-- What stands behind the last separator is determined by the whole. -/
theorem append_cons_inj_last {c : Char} {a b r s : List Char} (hr : c ∉ r) (hs : c ∉ s)
    (h : a ++ c :: r = b ++ c :: s) : a = b ∧ r = s := by
  have hrev := congrArg List.reverse h
  simp only [List.reverse_append, List.reverse_cons, List.append_assoc,
    List.singleton_append] at hrev
  obtain ⟨hrs, hab⟩ := append_cons_inj (by simpa using hr) (by simpa using hs) hrev
  exact ⟨List.reverse_injective hab, List.reverse_injective hrs⟩

theorem key_compare_iff {digest : Bytes → Bytes} {f g : Filter}
    {dimension goal dimension' goal' : String} :
    Endpoint.key digest f (.compare dimension goal) =
        Endpoint.key digest g (.compare dimension' goal') ↔
      dimension ++ ":" ++ goal = dimension' ++ ":" ++ goal' ∧ f.hash digest = g.hash digest := by
  constructor
  · intro h
    have hrest := congrArg String.toList (key_inj h).2
    have hlist (s t : String) : (s ++ ":" ++ t).toList = s.toList ++ ':' :: t.toList := by
      simp [String.toList_append]
    simp only [Endpoint.keyRest] at hrest
    rw [hlist (dimension ++ ":" ++ goal), hlist (dimension' ++ ":" ++ goal')] at hrest
    obtain ⟨htext, hhash⟩ := append_cons_inj_last (colon_notMem_hash digest f)
      (colon_notMem_hash digest g) hrest
    exact ⟨String.toList_injective htext, String.toList_injective hhash⟩
  · rintro ⟨htext, hhash⟩
    rw [Endpoint.key, Endpoint.key, Endpoint.keyRest, Endpoint.keyRest, htext, hhash]
    rfl

/-- Comparisons whose texts agree send one query exactly when they are cut alike. -/
theorem compare_query_iff {f g : ZonedFilter} {dimension goal dimension' goal' : String}
    {q q' : Query} (hq : StoreQueries.compare f dimension goal = .ok q)
    (hq' : StoreQueries.compare g dimension' goal' = .ok q')
    (htext : dimension ++ ":" ++ goal = dimension' ++ ":" ++ goal') :
    q = q' ↔ whereTimeAndTenant f .time = whereTimeAndTenant g .time ∧ dimension = dimension' := by
  obtain ⟨scope, name, col, hcut, hcol, rfl⟩ := of_compare hq
  obtain ⟨scope', name', col', hcut', hcol', rfl⟩ := of_compare hq'
  obtain ⟨hno, hdim⟩ := of_cutColon hcut
  obtain ⟨hno', hdim'⟩ := of_cutColon hcut'
  have hlist := congrArg String.toList htext
  simp only [String.toList_append, String.reduceToList, hdim, hdim', List.append_assoc,
    List.cons_append, List.nil_append] at hlist
  obtain ⟨hscope, hback⟩ := append_cons_inj hno hno' hlist
  obtain rfl := String.toList_injective hscope
  obtain rfl : col = col' := Option.some.inj (hcol.symm.trans hcol')
  have hname : name = name' ↔ dimension = dimension' := by
    rw [← String.toList_inj, ← String.toList_inj, hdim, hdim']
    simp
  constructor
  · intro h
    obtain ⟨hstatement, hrange⟩ : Statement.compare col name goal = .compare col name' goal' ∧
        whereTimeAndTenant f .time = whereTimeAndTenant g .time :=
      ⟨congrArg Query.statement h, congrArg Query.range h⟩
    exact ⟨hrange, hname.mp (Statement.compare.inj hstatement).2.1⟩
  · rintro ⟨hrange, hdims⟩
    obtain rfl := hname.mpr hdims
    have hgoal := (List.cons.inj (List.append_cancel_left hback)).2
    rw [hrange, String.toList_injective hgoal]

theorem key_realtime_iff {digest : Bytes → Bytes} {f g : Filter} :
    Endpoint.key digest f .realtime = Endpoint.key digest g .realtime ↔
      f.siteID = g.siteID ∧ f.channel = g.channel := by
  constructor
  · intro h
    have hrest := congrArg String.toList (key_inj h).2
    simp only [Endpoint.keyRest, String.toList_append, String.reduceToList, List.append_assoc,
      List.cons_append, List.nil_append] at hrest
    obtain ⟨hsite, hchannel⟩ := append_cons_inj (colon_notMem_decimal _) (colon_notMem_decimal _)
      hrest
    exact ⟨Int.ofNat.inj (decimal_injective (String.toList_injective hsite)),
      String.toList_injective hchannel⟩
  · rintro ⟨hsite, hchannel⟩
    rw [Endpoint.key, Endpoint.key, Endpoint.keyRest, Endpoint.keyRest, hsite, hchannel]

/-- Of one site and channel, it is the properties that `Realtime` is asked for. -/
theorem realtime_query_iff {f g : Filter} (hsite : f.siteID = g.siteID)
    (hchannel : f.channel = g.channel) (now : ℤ) :
    realtime f now = realtime g now ↔ Filter.propPredicates f = Filter.propPredicates g := by
  have hfilters : applyFilters f [.channel] = applyFilters g [.channel] :=
    applyFilters_congr (by simpa [value] using hchannel)
  have hnone {k : Filter} (hk : ¬ k.hasPropFilter = true) : Filter.propPredicates k = [] :=
    not_not.mp ((hasPropFilter_iff k).not.mp hk)
  unfold realtime
  split_ifs with hf hg hg
  · simp [hsite, hfilters]
  · simp [hnone hg, (hasPropFilter_iff f).mp hf]
  · simp [hnone hf, Ne.symm ((hasPropFilter_iff g).mp hg)]
  · simp [hsite, hfilters, hnone hf, hnone hg]

/-- The key of `PropNames` tells its arguments. -/
theorem of_key_propNames {digest : Bytes → Bytes} {f g : Filter} {scope scope' : String}
    {limit limit' : ℤ} {col col' : PropScope} (hcol : scopeToColumn scope = some col)
    (hcol' : scopeToColumn scope' = some col')
    (h : Endpoint.key digest f (.propNames scope limit) =
      Endpoint.key digest g (.propNames scope' limit')) :
    f.siteID = g.siteID ∧ scope = scope' ∧ limit = limit' := by
  have hrest := congrArg String.toList (key_inj h).2
  simp only [Endpoint.keyRest, String.toList_append, String.reduceToList, List.append_assoc,
    List.cons_append, List.nil_append] at hrest
  obtain ⟨hsite, hrest⟩ := append_cons_inj (colon_notMem_decimal _) (colon_notMem_decimal _) hrest
  obtain ⟨hscope, hlimit⟩ := append_cons_inj (colon_notMem_scope hcol) (colon_notMem_scope hcol')
    hrest
  exact ⟨Int.ofNat.inj (decimal_injective (String.toList_injective hsite)),
    String.toList_injective hscope, decimal_injective (String.toList_injective hlimit)⟩

/-- Names are asked for in a scope that exists. -/
theorem of_propNames {f : Filter} {scope : String} {limit : ℤ} {q : Query}
    (h : propNames f scope limit = .ok q) : ∃ col, scopeToColumn scope = some col := by
  unfold propNames at h
  split at h
  · exact absurd h (by simp)
  · next col hcol => exact ⟨col, hcol⟩

section Sharing

variable {digest : Bytes → Bytes} {r r' : Request} {now : ℤ} {q q' : Query}

private theorem key_of_confused
    (h : Confused r r') (hd : Apart digest [r.filter.toFilter, r'.filter.toFilter]) :
    r.key digest = r'.key digest := by
  cases h with
  | realtime hsite hchannel hprops => exact key_realtime_iff.mpr ⟨hsite, hchannel⟩
  | compare hpieces htext hcut => exact key_compare_iff.mpr ⟨htext, (hash_eq_iff hd).mpr hpieces⟩
  | @zones f g e hrange hpieces hzones =>
    have hhash := (hash_eq_iff hd).mpr hpieces
    obtain ⟨p, rfl⟩ | rfl | ⟨scope, limit, rfl⟩ | ⟨dimension, goal, rfl⟩ := endpoint_cases e
    · rw [Request.key, Request.key, key_panelEndpoint, key_panelEndpoint, hhash]
    · exact hrange.elim
    · exact hrange.elim
    · exact key_compare_iff.mpr ⟨rfl, hhash⟩
  | separators hescapes hpieces hreads =>
    rw [Request.key, Request.key, key_panelEndpoint, key_panelEndpoint,
      (hash_eq_iff hd).mpr hpieces]

theorem query_of_panel {p : Panel} {f : ZonedFilter}
    (h : Request.issues ⟨panelEndpoint p, f⟩ now = .ok q) :
    q = (p.reader f.toFilter).query f := by
  have hdispatch := dispatch_of_issues h
  rw [dispatch_panelEndpoint] at hdispatch
  exact (Except.ok.inj hdispatch).symm

private theorem ne_of_confused (h : Confused r r') (hq : r.issues now = .ok q)
    (hq' : r'.issues now = .ok q') : q ≠ q' := by
  cases h with
  | realtime hsite hchannel hprops =>
    obtain rfl := Except.ok.inj (dispatch_of_issues hq)
    obtain rfl := Except.ok.inj (dispatch_of_issues hq')
    exact mt (realtime_query_iff hsite hchannel now).mp hprops
  | compare hpieces htext hcut =>
    intro heq
    exact hcut ((compare_query_iff (dispatch_of_issues hq) (dispatch_of_issues hq') htext).mp heq).2
  | @zones f g e hrange hpieces hzones =>
    intro heq
    refine hzones ?_
    obtain ⟨p, rfl⟩ | rfl | ⟨scope, limit, rfl⟩ | ⟨dimension, goal, rfl⟩ := endpoint_cases e
    · rw [query_of_panel hq, query_of_panel hq'] at heq
      exact (whereTimeAndTenant_eq_iff hpieces _).mp (query_eq_iff.mp heq).1
    · exact hrange.elim
    · exact hrange.elim
    · exact (whereTimeAndTenant_eq_iff hpieces _).mp
        ((compare_query_iff (dispatch_of_issues hq) (dispatch_of_issues hq') rfl).mp heq).1
  | separators hescapes hpieces hreads =>
    rw [query_of_panel hq, query_of_panel hq']
    exact fun heq => hreads (query_eq_iff.mp heq).2

private theorem eq_of_not_confused (h : ¬ Confused r r')
    (hd : Apart digest [r.filter.toFilter, r'.filter.toFilter])
    (hkey : r.key digest = r'.key digest) (hq : r.issues now = .ok q)
    (hq' : r'.issues now = .ok q') : q = q' := by
  obtain ⟨e, f⟩ := r
  obtain ⟨e', g⟩ := r'
  obtain ⟨hname, -⟩ := key_inj hkey
  have hzones (he : ReadsRange e) (hee : e' = e) (hpieces : pieces f.toFilter = pieces g.toFilter)
      (column : TimeColumn) : whereTimeAndTenant f column = whereTimeAndTenant g column := by
    rw [whereTimeAndTenant_eq_iff hpieces]
    by_contra hne
    subst hee
    exact h (.zones he hpieces hne)
  obtain ⟨p, rfl⟩ | rfl | ⟨scope, limit, rfl⟩ | ⟨dimension, goal, rfl⟩ := endpoint_cases e
  · have he : ¬ (panelEndpoint p).IgnoresRange := by cases p <;> exact id
    obtain rfl := eq_of_name he hname.symm
    rw [Request.key, Request.key, key_panelEndpoint, key_panelEndpoint] at hkey
    have hpieces := (hash_eq_iff hd).mp ((String.append_right_inj _).mp hkey)
    rw [query_of_panel hq, query_of_panel hq', query_eq_iff]
    refine ⟨hzones (readsRange_panelEndpoint p) rfl hpieces _, ?_⟩
    by_contra hreads
    refine h (.separators ?_ hpieces hreads)
    by_contra hno
    obtain ⟨hf, hg⟩ := not_or.mp hno
    exact hreads (sameReading_of_pieces hf hg hpieces p)
  · obtain rfl := eq_of_name (e := .realtime) id hname.symm
    obtain ⟨hsite, hchannel⟩ := key_realtime_iff.mp hkey
    obtain rfl := Except.ok.inj (dispatch_of_issues hq)
    obtain rfl := Except.ok.inj (dispatch_of_issues hq')
    rw [realtime_query_iff hsite hchannel]
    by_contra hprops
    exact h (.realtime hsite hchannel hprops)
  · obtain ⟨scope', limit', rfl⟩ := propNames_of_name hname.symm
    have hnames := dispatch_of_issues hq
    have hnames' := dispatch_of_issues hq'
    obtain ⟨col, hcol⟩ := of_propNames hnames
    obtain ⟨col', hcol'⟩ := of_propNames hnames'
    obtain ⟨hsite, rfl, rfl⟩ := of_key_propNames hcol hcol' hkey
    have hsame : propNames f.toFilter scope limit = propNames g.toFilter scope limit := by
      have hsite : f.siteID = g.siteID := hsite
      simp only [propNames, hsite]
    exact Except.ok.inj (hnames.symm.trans (hsame.trans hnames'))
  · obtain ⟨dimension', goal', rfl⟩ := compare_of_name hname.symm
    obtain ⟨htext, hhash⟩ := key_compare_iff.mp hkey
    have hpieces := (hash_eq_iff hd).mp hhash
    rw [compare_query_iff (dispatch_of_issues hq) (dispatch_of_issues hq') htext]
    have hcut : dimension = dimension' := by
      by_contra hcut
      exact h (.compare hpieces htext hcut)
    subst hcut
    have hgoal : goal = goal' := (String.append_right_inj _).mp htext
    exact ⟨hzones trivial (by rw [hgoal]) hpieces .time, rfl⟩

/-- Calls with one key send one query exactly when they are not confused. -/
theorem shared_query_iff (hd : Apart digest [r.filter.toFilter, r'.filter.toFilter])
    (hq : r.issues now = .ok q) (hq' : r'.issues now = .ok q') :
    (r.key digest = r'.key digest → q = q') ↔ ¬ Confused r r' := by
  constructor
  · intro h hconfused
    exact ne_of_confused hconfused hq hq' (h (key_of_confused hconfused hd))
  · intro h hkey
    exact eq_of_not_confused h hd hkey hq hq'

end Sharing

/-- The first day of the epoch, in UTC. -/
def firstDayUTC : ZonedFilter := { firstDay with fromZone := "UTC", toZone := "UTC" }

def realtimeToday : Request := ⟨.realtime, firstDayUTC⟩

/-- The same, of the members. -/
def realtimeMembers : Request :=
  ⟨.realtime, { firstDayUTC with userProps := [("plan", "member")] }⟩

/-- The identity tells all filters apart. -/
theorem shared_query_iff_realtimeMembers :
    (realtimeToday.key id = realtimeMembers.key id →
      realtime realtimeToday.filter.toFilter hour = realtime realtimeMembers.filter.toFilter hour) ↔
      ¬ Confused realtimeToday realtimeMembers :=
  shared_query_iff (fun _ _ _ _ h => h) (show realtimeToday.issues hour = .ok _ from rfl)
    (show realtimeMembers.issues hour = .ok _ from rfl)

/-- The visitors of a site are answered for its members. -/
theorem realtime_confused : ∃ q q', realtimeToday.issues hour = .ok q ∧
    realtimeMembers.issues hour = .ok q' ∧ q ≠ q' ∧
    ∀ digest, realtimeToday.key digest = realtimeMembers.key digest := by
  refine ⟨_, _, rfl, rfl, by decide, fun digest => rfl⟩

end Statnive.CacheKeys
