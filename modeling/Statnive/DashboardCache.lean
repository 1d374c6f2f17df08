import Mathlib.Logic.Function.Basic
import Statnive.DashboardFilter
import Statnive.LabelledRuns

/-!
# The cache of the dashboard

Every endpoint picks the key and the TTL of its entry. A call that misses takes the lock of
its key, looks again and loads the value. Entries leave the cache at any time, by capacity,
by the time limit of the LRU itself or by a purge.
-/

namespace Statnive.DashboardCache

open CivilCalendar DashboardFilter LabelledRuns
open PrivacyPolicy (Bytes)

def ttlRealtime : ℤ := 10 * second
def ttlToday : ℤ := 60 * second
def ttlYesterday : ℤ := hour
def ttlHistorical : ℤ := day * 365

def resolveTTL (now toTime : ℤ) : ℤ :=
  let currentHour := truncate now hour
  let today := truncate now day
  let yesterday := today - day
  if currentHour ≤ toTime then ttlRealtime
  else if today ≤ toTime then ttlToday
  else if yesterday ≤ toTime then ttlYesterday
  else ttlHistorical

/-- The methods of the store that are cached. -/
inductive Endpoint where
  | overview | sources | sourcesByChannel | pages | seo | campaigns | trend
  | geo | geoTopCountries
  | realtime
  | propNames (scope : String) (limit : ℤ)
  | compare (dimension goal : String)
  deriving DecidableEq

/-- What stands before the first colon of the key. -/
def Endpoint.name : Endpoint → String
  | .overview => "overview"
  | .sources => "sources"
  | .sourcesByChannel => "sources_by_channel"
  | .pages => "pages"
  | .seo => "seo"
  | .campaigns => "campaigns"
  | .trend => "trend"
  | .geo => "geo"
  | .geoTopCountries => "geo_top_countries"
  | .realtime => "realtime"
  | .propNames _ _ => "propnames"
  | .compare _ _ => "compare"

def decimal (n : ℤ) : String := String.ofList (appendInt n 1)

def Endpoint.keyRest (digest : Bytes → Bytes) (f : Filter) : Endpoint → String
  | .realtime => decimal f.siteID ++ ":" ++ f.channel
  | .propNames scope limit => decimal f.siteID ++ ":" ++ scope ++ ":" ++ decimal limit
  | .compare dimension goal => dimension ++ ":" ++ goal ++ ":" ++ f.hash digest
  | _ => f.hash digest

def Endpoint.key (digest : Bytes → Bytes) (f : Filter) (e : Endpoint) : String :=
  e.name ++ ":" ++ e.keyRest digest f

/-- The TTL of a call; `wrapFiltered` asks the policy for the range of the filter. -/
def Endpoint.ttl (now : ℤ) (f : Filter) : Endpoint → ℤ
  | .realtime => ttlRealtime
  | .propNames _ _ | .compare _ _ => ttlHistorical
  | _ => resolveTTL now f.toTime

/-- `loadedAt` is when the value came from the inner store. Without `expiresAt` an entry does
not expire. -/
structure Entry (ν : Type*) where
  value : ν
  loadedAt : ℤ
  expiresAt : Option ℤ

variable {ν : Type*}

def Entry.expired (e : Entry ν) (now : ℤ) : Bool := e.expiresAt.any (· < now)

def get (items : String → Option (Entry ν)) (k : String) (now : ℤ) : Option (Entry ν) :=
  (items k).filter (fun e => !e.expired now)

def set (items : String → Option (Entry ν)) (k : String) (v : ν) (ttl now : ℤ) :
    String → Option (Entry ν) :=
  Function.update items k (some ⟨v, now, if 0 < ttl then some (now + ttl) else none⟩)

/-- Where a call stands: before its first look, waiting for the lock, loading, or over. -/
inductive Stage where
  | probe | lock | load | returned
  deriving DecidableEq

/-- A value that a call returns at `now`. -/
structure Served (ν : Type*) where
  value : ν
  loadedAt : ℤ
  now : ℤ

/-- The TTL is the one at the start of the call. Without `served` it has no value, or failed. -/
structure Call (ν : Type*) where
  endpoint : Endpoint
  filter : Filter
  startedAt : ℤ
  stage : Stage := .probe
  served : Option (Served ν) := none

def Call.key (digest : Bytes → Bytes) (c : Call ν) : String := c.endpoint.key digest c.filter

def Call.ttl (c : Call ν) : ℤ := c.endpoint.ttl c.startedAt c.filter

def Call.returns (c : Call ν) (served : Option (Served ν)) : Call ν :=
  { c with stage := .returned, served := served }

structure State (ν : Type*) where
  clock : ℤ
  items : String → Option (Entry ν) := fun _ => none
  calls : List (Call ν) := []

/-- A load whose result is `none` has failed. -/
inductive Action (ν : Type*) where
  | call (e : Endpoint) (f : Filter) (now : ℤ)
  | probe (i : ℕ) (now : ℤ)
  | acquire (i : ℕ) (now : ℤ)
  | finish (i : ℕ) (now : ℤ) (result : Option ν)
  | evict (drops : String → Bool)

/-- A look into the cache: a hit is returned. -/
def look (digest : Bytes → Bytes) (items : String → Option (Entry ν)) (c : Call ν) (now : ℤ)
    (miss : Stage) : Call ν :=
  match get items (c.key digest) now with
  | some e => c.returns (some ⟨e.value, e.loadedAt, now⟩)
  | none => { c with stage := miss }

def locked (digest : Bytes → Bytes) (s : State ν) (k : String) : Bool :=
  s.calls.any (fun d => d.stage = .load && d.key digest = k)

def waits (digest : Bytes → Bytes) (s : State ν) (i : ℕ) : Bool :=
  s.calls[i]?.any fun c => locked digest s (c.key digest)

/-- The call goes on from the stage that it is in. -/
def proceed (s : State ν) (i : ℕ) (now : ℤ) (stage : Stage) (f : Call ν → State ν) :
    Option (State ν) :=
  match s.calls[i]? with
  | none => none
  | some c => if s.clock ≤ now ∧ c.stage = stage then some (f c) else none

def step (digest : Bytes → Bytes) (s : State ν) : Action ν → Option (State ν)
  | .call e f now =>
    if s.clock ≤ now then
      some { s with
        clock := now
        calls := s.calls ++ [{ endpoint := e, filter := f, startedAt := now }] }
    else none
  | .probe i now => proceed s i now .probe fun c =>
      { s with clock := now, calls := s.calls.set i (look digest s.items c now .lock) }
  | .acquire i now =>
    if waits digest s i then none
    else proceed s i now .lock fun c =>
      { s with clock := now, calls := s.calls.set i (look digest s.items c now .load) }
  | .finish i now result => proceed s i now .load fun c =>
      match result with
      | none => { s with clock := now, calls := s.calls.set i (c.returns none) }
      | some v =>
        { clock := now
          items := set s.items (c.key digest) v c.ttl now
          calls := s.calls.set i (c.returns (some ⟨v, now, now⟩)) }
  | .evict drops => some { s with items := fun k => if drops k then none else s.items k }

/-- The value is no older than the policy lets an entry for the range get. -/
def Call.Fresh (c : Call ν) : Prop :=
  ∀ v, c.served = some v → v.now - v.loadedAt ≤ resolveTTL v.loadedAt c.filter.toTime

instance (c : Call ν) : Decidable c.Fresh :=
  match h : c.served with
  | none => .isTrue fun v hv => by simp [h] at hv
  | some v => decidable_of_iff (v.now - v.loadedAt ≤ resolveTTL v.loadedAt c.filter.toTime)
      (by simp [Call.Fresh, h])

def Fresh (s : State ν) : Prop := ∀ c ∈ s.calls, c.Fresh

instance (s : State ν) : Decidable (Fresh s) := inferInstanceAs (Decidable (∀ c ∈ s.calls, c.Fresh))

/-- The endpoints that do not ask the policy, and keep their entries for the longest time. -/
def Endpoint.IgnoresRange : Endpoint → Prop
  | .propNames _ _ | .compare _ _ => True
  | _ => False

/-- The action looks into the cache for the call. -/
def Looks (s : State ν) (c : Call ν) (now : ℤ) : Action ν → Prop
  | .probe i now' => s.calls[i]? = some c ∧ c.stage = .probe ∧ now' = now
  | .acquire i now' => s.calls[i]? = some c ∧ c.stage = .lock ∧ now' = now
  | _ => False

/-- A call of such an endpoint does not come between the TTL of its range and that of a range in
the past, both counted from the load of its key, unless the entry has left the cache since. -/
def Timely (digest : Bytes → Bytes) (s : State ν) (a : Action ν) : Prop :=
  ∀ c now e, Looks s c now a → c.endpoint.IgnoresRange → s.items (c.key digest) = some e →
    now ≤ e.loadedAt + resolveTTL e.loadedAt c.filter.toTime ∨ e.loadedAt + ttlHistorical < now

theorem truncate_mono {d now later : ℤ} (hd : 0 < d) (h : now ≤ later) :
    truncate now d ≤ truncate later d := by
  have hle := Int.mul_le_mul_of_nonneg_left (Int.ediv_le_ediv hd h) (le_of_lt hd)
  have hnow := Int.mul_ediv_add_emod now d
  have hlater := Int.mul_ediv_add_emod later d
  unfold truncate
  omega

theorem ttlRealtime_le (now toTime : ℤ) : ttlRealtime ≤ resolveTTL now toTime := by
  simp only [resolveTTL]
  split_ifs <;> decide

/-- As time goes by, a range moves into longer tiers only. -/
theorem resolveTTL_mono {now later : ℤ} (h : now ≤ later) (toTime : ℤ) :
    resolveTTL now toTime ≤ resolveTTL later toTime := by
  have hhour := truncate_mono (d := hour) (by decide) h
  have hday := truncate_mono (d := day) (by decide) h
  simp only [resolveTTL]
  split_ifs <;> first | decide | omega

theorem colon_notMem_name (e : Endpoint) : ':' ∉ e.name.toList := by
  cases e <;> simp only [Endpoint.name] <;> decide

theorem key_inj {digest : Bytes → Bytes} {f g : Filter} {e e' : Endpoint}
    (h : e.key digest f = e'.key digest g) :
    e.name = e'.name ∧ e.keyRest digest f = e'.keyRest digest g := by
  have happ (e : Endpoint) (f : Filter) : (e.key digest f).toList =
      e.name.toList ++ ':' :: (e.keyRest digest f).toList := by
    simp [Endpoint.key, String.toList_append]
  have hlist := congrArg String.toList h
  rw [happ, happ] at hlist
  obtain ⟨hname, hrest⟩ := append_cons_inj (colon_notMem_name e) (colon_notMem_name e') hlist
  exact ⟨String.toList_injective hname, String.toList_injective hrest⟩

/-- The digest tells the filters of `fs` apart. -/
def Apart (digest : Bytes → Bytes) (fs : List Filter) : Prop :=
  ∀ f ∈ fs, ∀ g ∈ fs, digest f.bytes = digest g.bytes → f.bytes = g.bytes

private theorem ignoresRange_of_name
    {e e' : Endpoint} (he : e.IgnoresRange) (h : e'.name = e.name) :
    e'.IgnoresRange := by
  cases e <;> first
    | exact absurd he id
    | (cases e' <;> first | trivial | exact absurd h (by simp only [Endpoint.name]; decide))

/-- An endpoint that does not ignore the range is told by its name. -/
theorem eq_of_name {e e' : Endpoint} (he : ¬ e.IgnoresRange) (h : e'.name = e.name) : e' = e := by
  cases e <;> first
    | exact absurd trivial he
    | (cases e' <;> first | rfl | exact absurd h (by simp only [Endpoint.name]; decide))

/-- The entries that such an endpoint finds were stored by it, for the same range. -/
theorem stored_of_key {digest : Bytes → Bytes} {fs : List Filter} (hfs : Apart digest fs)
    {f g : Filter} (hf : f ∈ fs) (hg : g ∈ fs) {e e' : Endpoint} (he : ¬ e.IgnoresRange)
    (h : e'.key digest g = e.key digest f) (now : ℤ) : e'.ttl now g = e.ttl now f := by
  obtain ⟨hname, hrest⟩ := key_inj h
  obtain rfl := eq_of_name he hname
  have hto (hhash : g.hash digest = f.hash digest) : g.toTime = f.toTime := by
    have hbytes := hfs g hg f hf (VisitorIdentity.hexEncode_injective hhash)
    exact (Filter.range_eq_of_bytes hbytes).2.2
  cases e' with
  | realtime => rfl
  | propNames scope limit => exact absurd trivial he
  | compare dimension goal => exact absurd trivial he
  | _ => simp only [Endpoint.ttl, hto hrest]

/-- The bound that such an endpoint is after. -/
theorem ttl_le_resolveTTL {e : Endpoint} (he : ¬ e.IgnoresRange) (now : ℤ) (f : Filter) :
    e.ttl now f ≤ resolveTTL now f.toTime := by
  cases e with
  | realtime => exact ttlRealtime_le now f.toTime
  | propNames scope limit => exact absurd trivial he
  | compare dimension goal => exact absurd trivial he
  | _ => exact le_rfl

private theorem ttl_mono {now later : ℤ} (h : now ≤ later) (e : Endpoint) (f : Filter) :
    e.ttl now f ≤ e.ttl later f := by
  cases e with
  | realtime => exact le_rfl
  | propNames scope limit => exact le_rfl
  | compare dimension goal => exact le_rfl
  | _ => exact resolveTTL_mono h f.toTime

private theorem ttl_pos (e : Endpoint) (now : ℤ) (f : Filter) : 0 < e.ttl now f := by
  have hpos : 0 < ttlRealtime := by decide
  have hlong : 0 < ttlHistorical := by decide
  cases e with
  | realtime => exact hpos
  | propNames scope limit => exact hlong
  | compare dimension goal => exact hlong
  | _ => exact lt_of_lt_of_le hpos (ttlRealtime_le now f.toTime)

/-- The entry was stored by a call for its key, under the TTL at the start of the call. -/
def Stored (digest : Bytes → Bytes) (fs : List Filter) (k : String) (e : Entry ν) : Prop :=
  ∃ endpoint : Endpoint, ∃ f ∈ fs, endpoint.key digest f = k ∧
    ∃ startedAt ≤ e.loadedAt, e.expiresAt = some (e.loadedAt + endpoint.ttl startedAt f)

structure Inv (digest : Bytes → Bytes) (fs : List Filter) (s : State ν) : Prop where
  started : ∀ c ∈ s.calls, c.startedAt ≤ s.clock
  filters : ∀ c ∈ s.calls, c.filter ∈ fs
  items : ∀ k e, s.items k = some e → Stored digest fs k e

section Steps

variable {digest : Bytes → Bytes} {fs : List Filter} {s t : State ν} {c : Call ν} {e : Entry ν}
  {i : ℕ} {now : ℤ}

private theorem stored_of_get {items : String → Option (Entry ν)} {k : String}
    (h : get items k now = some e) : items k = some e ∧ e.expired now = false := by
  simpa [get, Option.filter_eq_some_iff] using h

/-- What the other endpoints find is as fresh as the policy wants it. -/
theorem now_le_of_get (hfs : Apart digest fs) (hs : Inv digest fs s) (hc : c.filter ∈ fs)
    (hep : ¬ c.endpoint.IgnoresRange) (h : get s.items (c.key digest) now = some e) :
    now ≤ e.loadedAt + resolveTTL e.loadedAt c.filter.toTime := by
  obtain ⟨hitem, hexp⟩ := stored_of_get h
  obtain ⟨endpoint, f, hf, hkey, startedAt, hstart, hat⟩ := hs.items _ _ hitem
  have hnow : now ≤ e.loadedAt + endpoint.ttl startedAt f := by
    simpa [Entry.expired, hat] using hexp
  have hlater := ttl_mono hstart endpoint f
  have htier := stored_of_key hfs hc hf hep hkey e.loadedAt
  have hbound := ttl_le_resolveTTL hep e.loadedAt c.filter
  omega

/-- The entries that the endpoints without a range store stay for a year. -/
theorem get_iff_of_ignoresRange (hs : Inv digest fs s) (hep : c.endpoint.IgnoresRange) :
    get s.items (c.key digest) now = some e ↔
      s.items (c.key digest) = some e ∧ now ≤ e.loadedAt + ttlHistorical := by
  rw [get, Option.filter_eq_some_iff]
  refine and_congr_right fun hitem => ?_
  obtain ⟨endpoint, f, -, hkey, startedAt, -, hat⟩ := hs.items _ _ hitem
  have hep' := ignoresRange_of_name hep (key_inj hkey).1
  have httl : endpoint.ttl startedAt f = ttlHistorical := by
    cases endpoint <;> first | rfl | exact absurd hep' id
  simp [Entry.expired, hat, httl]

theorem forall_mem_set {α : Type*} {P : α → Prop} {l : List α} {a b : α} (hl : ∀ x ∈ l, P x)
    (hi : l[i]? = some a) : (∀ x ∈ l.set i b, P x) ↔ P b := by
  have hlt : i < l.length := (List.getElem?_eq_some_iff.mp hi).1
  constructor
  · exact fun h => h b (List.mem_set hlt b)
  · intro hb x hx
    rcases List.mem_or_eq_of_mem_set hx with hx | rfl
    · exact hl x hx
    · exact hb

theorem proceed_eq_some {stage : Stage} {f : Call ν → State ν}
    (h : proceed s i now stage f = some t) :
    ∃ c, s.calls[i]? = some c ∧ s.clock ≤ now ∧ c.stage = stage ∧ t = f c := by
  unfold proceed at h
  cases hc : s.calls[i]? with
  | none => simp [hc] at h
  | some c =>
    simp only [hc] at h
    split at h
    · next hcond => exact ⟨c, rfl, hcond.1, hcond.2, (Option.some.inj h).symm⟩
    · simp at h

/-- A look keeps the call fresh exactly when the entry it finds, if it finds one, is. -/
theorem fresh_look {miss : Stage} (hc : c.Fresh) : (look digest s.items c now miss).Fresh ↔
    ∀ e, get s.items (c.key digest) now = some e →
      now ≤ e.loadedAt + resolveTTL e.loadedAt c.filter.toTime := by
  unfold look
  cases get s.items (c.key digest) now with
  | none => exact iff_of_true hc fun e he => by simp at he
  | some e =>
    simp only [Call.Fresh, Call.returns, Option.some.injEq, forall_eq']
    omega

theorem look_same {miss : Stage} :
    (look digest s.items c now miss).startedAt = c.startedAt ∧
      (look digest s.items c now miss).filter = c.filter := by
  unfold look
  split <;> exact ⟨rfl, rfl⟩

theorem fresh_of_look (hfs : Apart digest fs) (hs : Inv digest fs s) (hfresh : Fresh s)
    (hi : s.calls[i]? = some c) {miss : Stage} :
    (∀ d ∈ s.calls.set i (look digest s.items c now miss), d.Fresh) ↔
      ∀ e, c.endpoint.IgnoresRange → s.items (c.key digest) = some e →
        now ≤ e.loadedAt + resolveTTL e.loadedAt c.filter.toTime ∨
          e.loadedAt + ttlHistorical < now := by
  have hmem := List.mem_of_getElem? hi
  rw [forall_mem_set hfresh hi, fresh_look (hfresh c hmem)]
  constructor
  · intro h e hep hitem
    by_cases hlong : now ≤ e.loadedAt + ttlHistorical
    · exact .inl (h e ((get_iff_of_ignoresRange hs hep).mpr ⟨hitem, hlong⟩))
    · exact .inr (not_le.mp hlong)
  · intro h e he
    by_cases hep : c.endpoint.IgnoresRange
    · obtain ⟨hitem, hlong⟩ := (get_iff_of_ignoresRange hs hep).mp he
      exact (h e hep hitem).resolve_right (not_lt.mpr hlong)
    · exact now_le_of_get hfs hs (hs.filters c hmem) hep he

theorem fresh_step (hfs : Apart digest fs) (hs : Inv digest fs s) (hfresh : Fresh s)
    {a : Action ν} (h : step digest s a = some t) : Fresh t ↔ Timely digest s a := by
  cases a with
  | call e f now =>
    simp only [step, Option.ite_none_right_eq_some, Option.some.injEq] at h
    obtain ⟨-, rfl⟩ := h
    refine iff_of_true (fun c hc => ?_) fun c now' e hlook => absurd hlook id
    rcases List.mem_append.mp hc with hc | hc
    · exact hfresh c hc
    · obtain rfl := List.mem_singleton.mp hc
      exact fun v hv => by simp at hv
  | probe i now =>
    obtain ⟨c, hi, -, hstage, rfl⟩ := proceed_eq_some h
    refine (fresh_of_look hfs hs hfresh hi).trans ?_
    simp only [Timely, Looks, hi, Option.some.injEq]
    constructor
    · rintro h _ _ e ⟨rfl, -, rfl⟩ hep he
      exact h e hep he
    · exact fun h e hep he => h c now e ⟨rfl, hstage, rfl⟩ hep he
  | acquire i now =>
    simp only [step, Option.ite_none_left_eq_some] at h
    obtain ⟨c, hi, -, hstage, rfl⟩ := proceed_eq_some h.2
    refine (fresh_of_look hfs hs hfresh hi).trans ?_
    simp only [Timely, Looks, hi, Option.some.injEq]
    constructor
    · rintro h _ _ e ⟨rfl, -, rfl⟩ hep he
      exact h e hep he
    · exact fun h e hep he => h c now e ⟨rfl, hstage, rfl⟩ hep he
  | finish i now result =>
    obtain ⟨c, hi, -, -, rfl⟩ := proceed_eq_some h
    refine iff_of_true ?_ fun c now' e hlook => absurd hlook id
    have hpos : 0 < ttlRealtime := by decide
    cases result with
    | none =>
      refine (forall_mem_set hfresh hi).mpr fun v hv => ?_
      simp [Call.returns] at hv
    | some v =>
      refine (forall_mem_set hfresh hi).mpr fun w hw => ?_
      obtain rfl := Option.some.inj hw
      have hle := ttlRealtime_le now c.filter.toTime
      simp only [Call.returns]
      omega
  | evict drops =>
    obtain rfl := Option.some.inj h
    exact iff_of_true hfresh fun c now' e hlook => absurd hlook id

/-- The filter of a call is one of `fs`. -/
def Within (fs : List Filter) : Action ν → Prop
  | .call _ f _ => f ∈ fs
  | _ => True

theorem calls_look (hs : Inv digest fs s) (hi : s.calls[i]? = some c) (hnow : s.clock ≤ now)
    {d : Call ν} (hd : d.startedAt = c.startedAt ∧ d.filter = c.filter) :
    ∀ x ∈ s.calls.set i d, x.startedAt ≤ now ∧ x.filter ∈ fs := by
  have hmem := List.mem_of_getElem? hi
  refine (forall_mem_set (fun x hx => ⟨(hs.started x hx).trans hnow, hs.filters x hx⟩) hi).mpr ?_
  rw [hd.1, hd.2]
  exact ⟨(hs.started c hmem).trans hnow, hs.filters c hmem⟩

theorem inv_step (hs : Inv digest fs s) {a : Action ν} (ha : Within fs a)
    (h : step digest s a = some t) : Inv digest fs t := by
  cases a with
  | call e f now =>
    simp only [step, Option.ite_none_right_eq_some, Option.some.injEq] at h
    obtain ⟨hnow, rfl⟩ := h
    refine ⟨fun c hc => ?_, fun c hc => ?_, hs.items⟩
    · rcases List.mem_append.mp hc with hc | hc
      · exact (hs.started c hc).trans hnow
      · obtain rfl := List.mem_singleton.mp hc
        exact le_rfl
    · rcases List.mem_append.mp hc with hc | hc
      · exact hs.filters c hc
      · obtain rfl := List.mem_singleton.mp hc
        exact ha
  | probe i now =>
    obtain ⟨c, hi, hnow, -, rfl⟩ := proceed_eq_some h
    have hcalls := calls_look hs hi hnow (d := look digest s.items c now .lock) look_same
    exact ⟨fun x hx => (hcalls x hx).1, fun x hx => (hcalls x hx).2, hs.items⟩
  | acquire i now =>
    simp only [step, Option.ite_none_left_eq_some] at h
    obtain ⟨c, hi, hnow, -, rfl⟩ := proceed_eq_some h.2
    have hcalls := calls_look hs hi hnow (d := look digest s.items c now .load) look_same
    exact ⟨fun x hx => (hcalls x hx).1, fun x hx => (hcalls x hx).2, hs.items⟩
  | finish i now result =>
    obtain ⟨c, hi, hnow, -, rfl⟩ := proceed_eq_some h
    have hmem := List.mem_of_getElem? hi
    cases result with
    | none =>
      have hcalls := calls_look hs hi hnow (d := c.returns none) ⟨rfl, rfl⟩
      exact ⟨fun x hx => (hcalls x hx).1, fun x hx => (hcalls x hx).2, hs.items⟩
    | some v =>
      have hcalls := calls_look hs hi hnow (d := c.returns (some ⟨v, now, now⟩)) ⟨rfl, rfl⟩
      refine ⟨fun x hx => (hcalls x hx).1, fun x hx => (hcalls x hx).2, fun k e he => ?_⟩
      by_cases hk : k = c.key digest
      · subst hk
        have hpos := ttl_pos c.endpoint c.startedAt c.filter
        simp only [set, Function.update_self, Call.ttl, Option.some.injEq] at he
        subst he
        exact ⟨c.endpoint, c.filter, hs.filters c hmem, rfl, c.startedAt,
          (hs.started c hmem).trans hnow, if_pos hpos⟩
      · simp only [set, Function.update_of_ne hk] at he
        exact hs.items k e he
  | evict drops =>
    obtain rfl := Option.some.inj h
    refine ⟨hs.started, hs.filters, fun k e he => ?_⟩
    simp only [Option.ite_none_left_eq_some] at he
    exact hs.items k e he.2

end Steps

/-- From an empty cache, no value that is served is older than the policy lets it get exactly
when no call of an endpoint that ignores the range comes between the TTL of its range and a year
after the load of its key. -/
theorem fresh_iff_along (digest : Bytes → Bytes) {fs : List Filter} (hfs : Apart digest fs)
    {clock : ℤ} {as : List (Action ν)} {t : State ν} (has : ∀ a ∈ as, Within fs a)
    (hrun : exec (step digest) { clock := clock } as = some t) :
    Throughout (step digest) Fresh { clock := clock } as ↔
      Along (step digest) (Timely digest) { clock := clock } as := by
  refine throughout_iff_along_of (J := Inv digest fs) (fun s a t ha hs _ h _ => inv_step hs ha h)
    (fun s a t _ hs hfresh h => fresh_step hfs hs hfresh h) hrun has ?_ ?_
  · exact ⟨by simp, by simp, by simp⟩
  · simp [Fresh]

/-- The first day of the epoch. -/
def firstDay : Filter := { siteID := 1, fromTime := 0, toTime := day }

/-- A call that loads at noon, and another one for the same a minute later. -/
def twice (e : Endpoint) : List (Action Unit) :=
  let noon := 12 * hour
  [.call e firstDay noon, .probe 0 noon, .acquire 0 noon, .finish 0 noon (some ()),
    .call e firstDay (noon + minute), .probe 1 (noon + minute)]

/-- Sixteen bytes. -/
def sampleDigest (bs : Bytes) : Bytes := bs.take 16

theorem fresh_iff_along_overview :
    Throughout (step sampleDigest) Fresh { clock := 0 } (twice .overview) ↔
      Along (step sampleDigest) (Timely sampleDigest) { clock := 0 } (twice .overview) := by
  have hapart : Apart sampleDigest [firstDay] := by simp [Apart]
  have hwithin : ∀ a ∈ twice .overview, Within [firstDay] a := by simp [twice, Within]
  have hsome : (exec (step sampleDigest) { clock := 0 } (twice .overview)).isSome = true := by
    decide +kernel
  exact fresh_iff_along sampleDigest hapart hwithin (Option.eq_some_of_isSome hsome)

/-- A comparison over the present day is served from an entry that is a minute old. -/
theorem compare_served_stale : ¬ Throughout (step sampleDigest) Fresh { clock := 0 }
    (twice (.compare "variant" "signup")) := by
  decide +kernel

end Statnive.DashboardCache
