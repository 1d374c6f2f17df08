import Mathlib.Tactic.MkIffOfInductiveProp
import Statnive.SiteRegistry
import Statnive.LabelledRuns

/-!
# The ids and the hostnames of sites

`CreateSite` looks the hostname up, checks the slug, reads the largest id and inserts the
row, each by a query of its own. Other calls and changes of the enabled flag run in between;
`create_alone` is the call without them.
-/

namespace Statnive.SiteIdentity

open SiteRegistry LabelledRuns
open IngestHandler (trimSpace isSpace)
open EnrichPipeline (afterFirst cutLast trimLeft extractHostLower)

structure CreateArgs where
  hostname : String
  slug : String := ""
  tz : String := ""
  currency : String := ""

/-- The table that the look-up of the hostname met, and whether the query failed. -/
structure LookedUp where
  rows : List SiteRow
  failed : Bool

/-- The query that a call makes next. `among` is the number of rows of which the largest id
was read. -/
inductive Phase where
  | lookup (args : CreateArgs)
  | lookupToggled (args : CreateArgs) (seen : LookedUp)
  | check (args : CreateArgs) (seen : LookedUp)
  | maxID (site : NewSite) (seen : LookedUp)
  | insert (site : NewSite) (seen : LookedUp) (maxID among : ℕ)
  | returned

structure State where
  rows : List SiteRow
  calls : List Phase := []

/-- A query fails where it says so, and an insert that fails inserts nothing. -/
inductive Action where
  | create (args : CreateArgs)
  | proceed (i : ℕ) (fails : Bool)
  | setEnabled (siteID : ℕ) (enabled fails : Bool)

/-- The part of a call before its first query. -/
def start (u : Unicode) (args : CreateArgs) : Phase :=
  let hostname := u.lowerString (trimSpace args.hostname)
  if !validateHostname hostname then .returned else .lookup { args with hostname := hostname }

/-- The part of a call between the look-ups and the read of the largest id. -/
def checkAttributes (u : Unicode) (rows : List SiteRow) (fails : StoreCall → Bool)
    (hostname slug tz currency : String) : Except RegistryError NewSite := do
  let slug ← resolveSlug u rows fails hostname slug
  let tz ← normalizeAttribute tz defaultTimezone isValidTimezone .invalidTimezone
  let currency ← normalizeAttribute currency defaultCurrency isValidCurrency .invalidCurrency
  .ok ⟨hostname, slug, tz, currency⟩

def next (u : Unicode) (rows : List SiteRow) (fails : Bool) : Phase → Phase
  | .lookup args =>
    let host := normalizeHostname u args.hostname
    if host = "" then .check args ⟨rows, fails⟩
    else match lookupExact rows host fails with
    | some _ => .returned
    | none => .lookupToggled args ⟨rows, fails⟩
  | .lookupToggled args seen =>
    match lookupExact rows (wwwToggle (normalizeHostname u args.hostname)) fails with
    | some _ => .returned
    | none => .check args seen
  | .check args seen =>
    match checkAttributes u rows (fun _ => fails) args.hostname args.slug args.tz args.currency with
    | .error _ => .returned
    | .ok site => .maxID site seen
  | .maxID site seen =>
    if fails then .returned else .insert site seen (maxSiteID rows) rows.length
  | .insert _ _ _ _ | .returned => .returned

def inserted (fails : Bool) : Phase → List SiteRow
  | .insert site _ maxID _ => if fails then [] else [site.row maxID]
  | _ => []

def after (u : Unicode) (s : State) : Action → State
  | .create args => { s with calls := s.calls ++ [start u args] }
  | .proceed i fails => match s.calls[i]? with
    | none => s
    | some phase => ⟨s.rows ++ inserted fails phase, s.calls.set i (next u s.rows fails phase)⟩
  | .setEnabled siteID enabled fails =>
    match updateSiteEnabled s.rows (fun _ => fails) siteID enabled with
    | .error _ => s
    | .ok rows => { s with rows := rows }

def step (u : Unicode) (s : State) (a : Action) : Option State := some (after u s a)

def identity (row : SiteRow) : ℕ × String := (row.siteID, row.hostname)

/-- Ids and hostnames are one site's each, and those of the `start` have stayed. -/
@[mk_iff]
structure Identified (u : Unicode) (start rows : List SiteRow) : Prop where
  ids : (rows.map SiteRow.siteID).Nodup
  hostnames : (rows.map fun row => normalizeHostname u row.hostname).Nodup
  kept : start.map identity <+: rows.map identity

instance (u : Unicode) (start rows : List SiteRow) : Decidable (Identified u start rows) :=
  decidable_of_iff _ (identified_iff u start rows).symm

/-- A row with the hostname was in the table, and the look-up did not find it. -/
def Overlooked (hostname : String) (seen : LookedUp) : Prop :=
  ∃ row ∈ seen.rows, row.hostname = hostname ∧
    (seen.failed = true ∨ row.enabled = false ∨ row.siteID = 0)

/-- A call that inserts a row has overlooked none with its hostname, and none was inserted
since; no row at all was inserted since it read the largest id, and a largest id that wraps
around leaves the id zero to it. -/
def KeepsIdentity (s : State) : Action → Prop
  | .proceed i false => ∀ site seen maxID among,
      s.calls[i]? = some (.insert site seen maxID among) →
        (¬ Overlooked site.hostname seen ∧
          ∀ row ∈ s.rows.drop seen.rows.length, row.hostname ≠ site.hostname) ∧
        s.rows.length = among ∧ (maxID + 1 = 2 ^ 32 → ∀ row ∈ s.rows, row.siteID ≠ 0)
  | _ => True

theorem afterFirst_eq_none {c : Char} {pat cs : List Char} (h : c ∉ cs) :
    afterFirst (c :: pat) cs = none := by
  induction cs with
  | nil => rfl
  | cons d cs ih =>
    obtain ⟨hne, hnot⟩ : c ≠ d ∧ c ∉ cs := by simpa using h
    simp [afterFirst, List.isPrefixOf, hne, ih hnot]

theorem cutLast_eq_none {c : Char} {cs : List Char} (h : c ∉ cs) : cutLast c cs = none := by
  simp [cutLast, h]

/-- Where a path, a query or a fragment begins. -/
def isCut (c : Char) : Bool := c = '/' || c = '?' || c = '#'

def afterScheme (s : List Char) : List Char :=
  (afterFirst "://".toList s).getD (trimLeft "//".toList s)

def cutTail (s : List Char) : List Char := s.takeWhile (fun c => !isCut c)

def dropUser (s : List Char) : List Char := ((cutLast '@' s).map Prod.snd).getD s

/-- The host that is left of a host and a port. -/
def hostOf (s : List Char) : List Char :=
  if s.contains ']' then
    let inner := s.takeWhile (· ≠ ']')
    if inner.contains '[' then (inner.dropWhile (· ≠ '[')).drop 1 else s
  else ((cutLast ':' s).map Prod.fst).getD s

theorem extractHostLower_eq (toLower : String → String) (s : String) :
    extractHostLower toLower s =
      toLower (String.ofList (hostOf (dropUser (cutTail (afterScheme s.toList))))) := by
  have hcut : (fun c : Char => decide (c ≠ '/') && decide (c ≠ '?') && decide (c ≠ '#')) =
      fun c => !isCut c := by
    funext c
    simp [isCut]
  have hlast (s : List Char) : toLower (String.ofList (hostOf s)) =
      if s.contains ']' then
        if (s.takeWhile (· ≠ ']')).contains '[' then
          toLower (String.ofList (((s.takeWhile (· ≠ ']')).dropWhile (· ≠ '[')).drop 1))
        else toLower (String.ofList s)
      else toLower (String.ofList (((cutLast ':' s).map Prod.fst).getD s)) := by
    simp only [hostOf]
    split_ifs <;> rfl
  simp only [extractHostLower, hcut]
  exact (hlast _).symm

/-- A host alone is only put into lower case. -/
theorem extractHostLower_plain {toLower : String → String} {s : String}
    (h : ∀ c ∈ "/?#@:]".toList, c ∉ s.toList) : extractHostLower toLower s = toLower s := by
  have hslash : trimLeft "//".toList s.toList = s.toList := by
    cases hs : s.toList with
    | nil => rfl
    | cons c cs =>
      have hne : c ≠ '/' := fun heq => h '/' (by decide) (by simp [hs, heq])
      simp [trimLeft, List.isPrefixOf, hne.symm]
  have hcut : s.toList.takeWhile (fun c => c ≠ '/' && c ≠ '?' && c ≠ '#') = s.toList := by
    rw [List.takeWhile_eq_self_iff]
    intro c hc
    have hne {d : Char} (hd : d ∈ "/?#@:]".toList) : c ≠ d := fun heq => h d hd (heq ▸ hc)
    simp [hne (d := '/') (by decide), hne (d := '?') (by decide), hne (d := '#') (by decide)]
  have hbracket : s.toList.contains ']' = false := by simpa using h ']' (by decide)
  have hscheme : afterFirst "://".toList s.toList = none :=
    afterFirst_eq_none (h ':' (by decide))
  have huser := cutLast_eq_none (h '@' (by decide))
  have hport := cutLast_eq_none (h ':' (by decide))
  simp only [extractHostLower, hscheme, Option.getD_none, hslash, hcut, huser, Option.map_none,
    hbracket, hport, Bool.false_eq_true, if_false, String.ofList_toList]

theorem extractHostLower_host {toLower : String → String} {s : String}
    (h : ∀ c ∈ s.toList, isHostnameChar c = true) : extractHostLower toLower s = toLower s := by
  apply extractHostLower_plain
  intro c hc hmem
  have hplain : "/?#@:]".toList.all (fun d => isHostnameChar d = false) = true := by decide
  have hother := decide_eq_true_eq.mp (List.all_eq_true.mp hplain c hc)
  exact absurd (h c hmem) (by simp [hother])

/-- What `CreateSite` stores as a hostname is in normal form. -/
theorem normalizeHostname_lower (u : Unicode) {raw : String}
    (h : validateHostname (u.lowerString (trimSpace raw)) = true) :
    normalizeHostname u (u.lowerString (trimSpace raw)) = u.lowerString (trimSpace raw) := by
  have htrim : trimSpace (u.lowerString (trimSpace raw)) = u.lowerString (trimSpace raw) := by
    rw [trimSpace_lowerString, trimSpace_trimSpace]
  have hchars : ∀ c ∈ (u.lowerString (trimSpace raw)).toList, isHostnameChar c = true := by
    simp only [validateHostname, htrim, Bool.and_eq_true, List.all_eq_true] at h
    exact h.2
  rw [normalizeHostname, htrim, extractHostLower_host hchars, lowerString_lowerString]

structure Normal (u : Unicode) (hostname : String) : Prop where
  normalized : normalizeHostname u hostname = hostname
  ne_empty : hostname ≠ ""

/-- The look-up found no row in a table of which this one is a continuation. -/
structure Missed (u : Unicode) (rows : List SiteRow) (hostname : String) (seen : LookedUp) :
    Prop extends Normal u hostname where
  earlier : seen.rows.map identity <+: rows.map identity
  missed : lookupExact seen.rows hostname seen.failed = none

/-- The largest id is the one of the table, unless a row was inserted since: then the next id
is taken. -/
structure Numbered (rows : List SiteRow) (maxID among : ℕ) : Prop where
  among_le : among ≤ rows.length
  current : among = rows.length → maxID = maxSiteID rows
  taken : among < rows.length → ∃ row ∈ rows, row.siteID = nextSiteID maxID

/-- What a call that is about to make a query knows. -/
inductive Knows (u : Unicode) (rows : List SiteRow) : Phase → Prop where
  | lookup {args} (h : Normal u args.hostname) : Knows u rows (.lookup args)
  | lookupToggled {args seen} (h : Missed u rows args.hostname seen) :
      Knows u rows (.lookupToggled args seen)
  | check {args seen} (h : Missed u rows args.hostname seen) : Knows u rows (.check args seen)
  | maxID {site seen} (h : Missed u rows site.hostname seen) : Knows u rows (.maxID site seen)
  | insert {site seen maxID among} (h : Missed u rows site.hostname seen)
      (hmax : Numbered rows maxID among) : Knows u rows (.insert site seen maxID among)
  | returned : Knows u rows .returned

theorem Knows.of_insert {u : Unicode} {rows : List SiteRow} {site : NewSite} {seen : LookedUp}
    {maxID among : ℕ} (h : Knows u rows (.insert site seen maxID among)) :
    Missed u rows site.hostname seen ∧ Numbered rows maxID among := by
  cases h with
  | insert hm hmax => exact ⟨hm, hmax⟩

structure Inv (u : Unicode) (s : State) : Prop where
  normalized : ∀ row ∈ s.rows, normalizeHostname u row.hostname = row.hostname
  calls : ∀ phase ∈ s.calls, Knows u s.rows phase

variable {u : Unicode} {rows rows' : List SiteRow}

theorem ne_empty_of_valid {hostname : String} (h : validateHostname hostname = true) :
    hostname ≠ "" := by
  rintro rfl
  exact absurd h (by decide)

private theorem start_knows (args : CreateArgs) : Knows u rows (start u args) := by
  unfold start
  cases hvalid : validateHostname (u.lowerString (trimSpace args.hostname)) with
  | false =>
    simp only [hvalid]
    exact .returned
  | true =>
    simp only [hvalid]
    exact .lookup ⟨normalizeHostname_lower u hvalid, ne_empty_of_valid hvalid⟩

theorem checkAttributes_hostname {fails : StoreCall → Bool} {hostname slug tz currency : String}
    {site : NewSite} (h : checkAttributes u rows fails hostname slug tz currency = .ok site) :
    site.hostname = hostname := by
  simp only [checkAttributes, bind, Except.bind] at h
  split at h
  · simp at h
  split at h
  · simp at h
  split at h
  · simp at h
  · exact (Except.ok.inj h) ▸ rfl

private theorem next_knows {phase : Phase} (fails : Bool) (h : Knows u rows phase) :
    Knows u rows (next u rows fails phase) := by
  cases h with
  | @lookup args hn =>
    simp only [next, hn.normalized, hn.ne_empty, if_false]
    cases hfound : lookupExact rows args.hostname fails with
    | some siteID => exact .returned
    | none => exact .lookupToggled ⟨hn, List.prefix_rfl, hfound⟩
  | lookupToggled hm =>
    simp only [next]
    split
    · exact .returned
    · exact .check hm
  | check hm =>
    simp only [next]
    split
    · exact .returned
    · next site hsite =>
      rw [← checkAttributes_hostname hsite] at hm
      exact .maxID hm
  | maxID hm =>
    cases fails with
    | true => exact .returned
    | false => exact .insert hm ⟨le_rfl, fun _ => rfl, fun hlt => absurd hlt (lt_irrefl _)⟩
  | insert hm hmax => exact .returned
  | returned => exact .returned

private theorem maxSiteID_congr (h : rows'.map identity = rows.map identity) :
    maxSiteID rows' = maxSiteID rows := by
  have hids (l : List SiteRow) : l.map SiteRow.siteID = (l.map identity).map Prod.fst := by
    rw [List.map_map]
    rfl
  simp only [maxSiteID, hids, h]

theorem exists_siteID_iff {id : ℕ} :
    (∃ row ∈ rows, row.siteID = id) ↔ ∃ key ∈ rows.map identity, key.1 = id := by
  simp [identity]

theorem Missed.mono {hostname : String} {seen : LookedUp} (h : Missed u rows hostname seen)
    (hrows : rows.map identity <+: rows'.map identity) : Missed u rows' hostname seen :=
  { h with earlier := h.earlier.trans hrows }

theorem Numbered.congr {maxID among : ℕ} (h : Numbered rows maxID among)
    (hrows : rows'.map identity = rows.map identity) : Numbered rows' maxID among := by
  have hlen : rows'.length = rows.length := by simpa using congrArg List.length hrows
  refine ⟨hlen ▸ h.among_le, ?_, ?_⟩
  · rw [hlen, maxSiteID_congr hrows]
    exact h.current
  · rw [hlen, exists_siteID_iff, hrows, ← exists_siteID_iff]
    exact h.taken

/-- A row under the next id takes it from the other calls. -/
theorem Numbered.snoc {maxID among : ℕ} (h : Numbered rows maxID among) {row : SiteRow}
    (hrow : row.siteID = nextSiteID (maxSiteID rows)) : Numbered (rows ++ [row]) maxID among := by
  have hle := h.among_le
  have hlen : (rows ++ [row]).length = rows.length + 1 := by simp
  refine ⟨by omega, fun heq => by omega, fun _ => ?_⟩
  rcases Nat.lt_or_eq_of_le hle with hlt | heq
  · obtain ⟨old, hold, hid⟩ := h.taken hlt
    exact ⟨old, List.mem_append_left _ hold, hid⟩
  · exact ⟨row, by simp, by rw [hrow, h.current heq]⟩

theorem Knows.congr {phase : Phase} (h : Knows u rows phase)
    (hrows : rows'.map identity = rows.map identity) : Knows u rows' phase := by
  have hpre : rows.map identity <+: rows'.map identity := hrows ▸ List.prefix_rfl
  cases h with
  | lookup hn => exact .lookup hn
  | lookupToggled hm => exact .lookupToggled (hm.mono hpre)
  | check hm => exact .check (hm.mono hpre)
  | maxID hm => exact .maxID (hm.mono hpre)
  | insert hm hmax => exact .insert (hm.mono hpre) (hmax.congr hrows)
  | returned => exact .returned

theorem Knows.snoc {phase : Phase} (h : Knows u rows phase) {row : SiteRow}
    (hrow : row.siteID = nextSiteID (maxSiteID rows)) : Knows u (rows ++ [row]) phase := by
  have hpre : rows.map identity <+: (rows ++ [row]).map identity := by
    rw [List.map_append]
    exact List.prefix_append _ _
  cases h with
  | lookup hn => exact .lookup hn
  | lookupToggled hm => exact .lookupToggled (hm.mono hpre)
  | check hm => exact .check (hm.mono hpre)
  | maxID hm => exact .maxID (hm.mono hpre)
  | insert hm hmax => exact .insert (hm.mono hpre) (hmax.snoc hrow)
  | returned => exact .returned

private theorem alterUpdate_identity {siteID : ℕ} {enabled : Option Bool} :
    (alterUpdate rows siteID (·.withEnabled enabled)).map identity = rows.map identity := by
  rw [alterUpdate, List.map_map]
  refine List.map_congr_left fun row _ => ?_
  simp only [Function.comp_apply]
  split <;> rfl

theorem map_hostname (hn : ∀ row ∈ rows, normalizeHostname u row.hostname = row.hostname) :
    (rows.map fun row => normalizeHostname u row.hostname) = rows.map SiteRow.hostname :=
  List.map_congr_left hn

theorem nodup_map_snoc {α β : Type*} {f : α → β} {l : List α} {a : α} :
    ((l ++ [a]).map f).Nodup ↔ (l.map f).Nodup ∧ ∀ b ∈ l, f b ≠ f a := by
  simp [List.nodup_append]

private theorem identified_insert {start : List SiteRow} {row : SiteRow}
    (hn : ∀ r ∈ rows ++ [row], normalizeHostname u r.hostname = r.hostname)
    (hs : Identified u start rows) : Identified u start (rows ++ [row]) ↔
      (∀ r ∈ rows, r.hostname ≠ row.hostname) ∧ ∀ r ∈ rows, r.siteID ≠ row.siteID := by
  have hnames : (rows.map SiteRow.hostname).Nodup := by
    rw [← map_hostname fun r hr => hn r (List.mem_append_left _ hr)]
    exact hs.hostnames
  have hkept : start.map identity <+: (rows ++ [row]).map identity := by
    rw [List.map_append]
    exact hs.kept.trans (List.prefix_append _ _)
  rw [identified_iff, map_hostname hn, nodup_map_snoc, nodup_map_snoc]
  simp only [hs.ids, hnames, hkept, true_and, and_true]
  exact and_comm

/-- The next id is free exactly when no row was inserted since the largest was read. -/
theorem Numbered.free_iff {maxID among : ℕ} (h : Numbered rows maxID among) :
    (∀ row ∈ rows, row.siteID ≠ nextSiteID maxID) ↔
      rows.length = among ∧ (maxID + 1 = 2 ^ 32 → ∀ row ∈ rows, row.siteID ≠ 0) := by
  constructor
  · intro hfree
    constructor
    · by_contra hne
      have hle := h.among_le
      obtain ⟨row, hrow, hid⟩ := h.taken (by omega)
      exact hfree row hrow hid
    · intro hwrap row hrow
      have hzero : nextSiteID maxID = 0 := by simp [nextSiteID, hwrap]
      exact hzero ▸ hfree row hrow
  · rintro ⟨hlen, hwrap⟩ row hrow hid
    obtain rfl := h.current hlen.symm
    have hle := siteID_le_maxSiteID hrow
    have hlt := maxSiteID_lt rows
    rcases nextSiteID_eq rows with hnext | hnext
    · omega
    · have hmax : maxSiteID rows + 1 = 2 ^ 32 := by
        by_contra hne
        have hsmall : nextSiteID (maxSiteID rows) = maxSiteID rows + 1 :=
          Nat.mod_eq_of_lt (by omega)
        omega
      exact hwrap hmax row hrow (hid.trans hnext)

/-- A look-up that finds no row overlooks the rows with the hostname that there are. -/
theorem overlooked_iff {hostname : String} {seen : LookedUp}
    (h : lookupExact seen.rows hostname seen.failed = none) :
    Overlooked hostname seen ↔ ∃ row ∈ seen.rows, row.hostname = hostname := by
  constructor
  · rintro ⟨row, hrow, hname, -⟩
    exact ⟨row, hrow, hname⟩
  · rintro ⟨row, hrow, hname⟩
    unfold lookupExact at h
    split at h
    · next hfailed => exact ⟨row, hrow, hname, .inl hfailed⟩
    cases hfind : seen.rows.find? (fun row => row.hostname = hostname && row.enabled) with
    | none =>
      have hoff := List.find?_eq_none.mp hfind row hrow
      refine ⟨row, hrow, hname, .inr (.inl ?_)⟩
      simpa [hname] using hoff
    | some found =>
      have hmem := List.mem_of_find?_eq_some hfind
      have hmatch := List.find?_some hfind
      simp only [hfind] at h
      have hzero : found.siteID = 0 := by
        by_contra hne
        simp [hne] at h
      simp only [Bool.and_eq_true, decide_eq_true_eq] at hmatch
      exact ⟨found, hmem, hmatch.1, .inr (.inr hzero)⟩

theorem Missed.free_iff {hostname : String} {seen : LookedUp} (h : Missed u rows hostname seen) :
    (∀ row ∈ rows, row.hostname ≠ hostname) ↔ ¬ Overlooked hostname seen ∧
      ∀ row ∈ rows.drop seen.rows.length, row.hostname ≠ hostname := by
  have hnames : (rows.take seen.rows.length).map SiteRow.hostname =
      seen.rows.map SiteRow.hostname := by
    have htake := List.prefix_iff_eq_take.mp h.earlier
    rw [List.length_map, ← List.map_take] at htake
    have hsnd := congrArg (List.map Prod.snd) htake
    simpa [identity, Function.comp_def] using hsnd.symm
  have hearlier : (∃ row ∈ seen.rows, row.hostname = hostname) ↔
      ∃ row ∈ rows.take seen.rows.length, row.hostname = hostname := by
    simp only [← List.mem_map, hnames]
  have hall : (∀ row ∈ rows, row.hostname ≠ hostname) ↔
      ∀ row ∈ rows.take seen.rows.length ++ rows.drop seen.rows.length, row.hostname ≠ hostname := by
    rw [List.take_append_drop]
  rw [overlooked_iff h.missed, hearlier, hall]
  simp only [List.mem_append, or_imp, forall_and, not_exists, not_and]

variable {s : State}

private theorem updateSiteEnabled_ok {fails : StoreCall → Bool} {siteID : ℕ} {enabled : Bool}
    (h : updateSiteEnabled rows fails siteID enabled = .ok rows') :
    rows' = alterUpdate rows siteID (·.withEnabled (some enabled)) := by
  unfold updateSiteEnabled at h
  split at h
  · simp at h
  · exact (updateRows_ok h).2.2

/-- What an action does to the table: nothing but flags, or the insert of a call. -/
theorem after_rows (u : Unicode) (s : State) (a : Action) :
    ((after u s a).rows.map identity = s.rows.map identity ∧ KeepsIdentity s a) ∨
      ∃ i site seen maxID among, a = .proceed i false ∧
        s.calls[i]? = some (.insert site seen maxID among) ∧
        after u s a = ⟨s.rows ++ [site.row maxID], s.calls.set i .returned⟩ := by
  cases a with
  | create args => exact .inl ⟨rfl, trivial⟩
  | setEnabled siteID enabled fails =>
    refine .inl ⟨?_, trivial⟩
    simp only [after]
    cases hup : updateSiteEnabled s.rows (fun _ => fails) siteID enabled with
    | error e => rfl
    | ok rows =>
      simp only [updateSiteEnabled_ok hup]
      exact alterUpdate_identity
  | proceed i fails =>
    cases hcall : s.calls[i]? with
    | none => exact .inl ⟨by simp [after, hcall], by cases fails <;> simp [KeepsIdentity, hcall]⟩
    | some phase =>
      cases phase with
      | insert site seen maxID among =>
        cases fails with
        | true => exact .inl ⟨by simp [after, hcall, inserted], trivial⟩
        | false =>
          exact .inr ⟨i, site, seen, maxID, among, rfl, hcall,
            by simp [after, hcall, inserted, next]⟩
      | _ =>
        exact .inl ⟨by simp [after, hcall, inserted], by cases fails <;> simp [KeepsIdentity, hcall]⟩

private theorem calls_inv (hs : Inv u s) (a : Action) : ∀ phase ∈ (after u s a).calls,
    Knows u s.rows phase := by
  intro phase hphase
  cases a with
  | create args =>
    simp only [after, List.mem_append, List.mem_singleton] at hphase
    rcases hphase with h | h
    · exact hs.calls phase h
    · rw [h]
      exact start_knows args
  | setEnabled siteID enabled fails =>
    simp only [after] at hphase
    split at hphase <;> exact hs.calls phase hphase
  | proceed i fails =>
    simp only [after] at hphase
    split at hphase
    · exact hs.calls phase hphase
    · next old hold =>
      rcases List.mem_or_eq_of_mem_set hphase with h | rfl
      · exact hs.calls phase h
      · exact next_knows fails (hs.calls old (List.mem_of_getElem? hold))

theorem identified_congr {start : List SiteRow} (hi : Identified u start s.rows)
    (h : rows.map identity = s.rows.map identity) : Identified u start rows := by
  have hids (l : List SiteRow) : l.map SiteRow.siteID = (l.map identity).map Prod.fst := by
    simp [identity, Function.comp_def]
  have hnames (l : List SiteRow) : (l.map fun row => normalizeHostname u row.hostname) =
      (l.map identity).map fun key => normalizeHostname u key.2 := by
    simp [identity, Function.comp_def]
  refine ⟨?_, ?_, h ▸ hi.kept⟩
  · rw [hids, h, ← hids]
    exact hi.ids
  · rw [hnames, h, ← hnames]
    exact hi.hostnames

/-- The ids and hostnames stay one site's exactly when the condition is met. -/
theorem identified_after {start : List SiteRow} (hs : Inv u s) (hi : Identified u start s.rows)
    (a : Action) : Identified u start (after u s a).rows ↔ KeepsIdentity s a := by
  rcases after_rows u s a with ⟨hsame, hkeeps⟩ | ⟨i, site, seen, maxID, among, rfl, hcall, hafter⟩
  · exact iff_of_true (identified_congr hi hsame) hkeeps
  obtain ⟨hmissed, hnumbered⟩ := (hs.calls _ (List.mem_of_getElem? hcall)).of_insert
  have hn : ∀ r ∈ s.rows ++ [site.row maxID], normalizeHostname u r.hostname = r.hostname := by
    intro r hr
    rcases List.mem_append.mp hr with hr | hr
    · exact hs.normalized r hr
    · obtain rfl := List.mem_singleton.mp hr
      exact hmissed.normalized
  have hfree := and_congr hmissed.free_iff hnumbered.free_iff
  rw [hafter]
  refine ((identified_insert hn hi).trans hfree).trans ?_
  simp only [KeepsIdentity, hcall, Option.some.injEq, Phase.insert.injEq]
  constructor
  · rintro h _ _ _ _ ⟨rfl, rfl, rfl, rfl⟩
    exact h
  · exact fun h => h site seen maxID among ⟨rfl, rfl, rfl, rfl⟩

theorem inv_after {start : List SiteRow} (hs : Inv u s) (a : Action)
    (hi : Identified u start s.rows) (h : Identified u start (after u s a).rows) :
    Inv u (after u s a) := by
  have hkeeps := (identified_after hs hi a).mp h
  have hcalls := calls_inv hs a
  rcases after_rows u s a with ⟨hsame, -⟩ | ⟨i, site, seen, maxID, among, rfl, hcall, hafter⟩
  · refine ⟨fun row hrow => ?_, fun phase hphase => (hcalls phase hphase).congr hsame⟩
    have hkey : identity row ∈ s.rows.map identity := hsame ▸ List.mem_map_of_mem hrow
    obtain ⟨old, hold, heq⟩ := List.mem_map.mp hkey
    have hname : old.hostname = row.hostname := congrArg Prod.snd heq
    rw [← hname]
    exact hs.normalized old hold
  obtain ⟨hmissed, hnumbered⟩ := (hs.calls _ (List.mem_of_getElem? hcall)).of_insert
  obtain ⟨-, hlen, -⟩ := hkeeps site seen maxID among hcall
  have hid : (site.row maxID).siteID = nextSiteID (maxSiteID s.rows) :=
    congrArg nextSiteID (hnumbered.current hlen.symm)
  rw [hafter] at hcalls ⊢
  refine ⟨fun row hrow => ?_, fun phase hphase => (hcalls phase hphase).snoc hid⟩
  rcases List.mem_append.mp hrow with hrow | hrow
  · exact hs.normalized row hrow
  · obtain rfl := List.mem_singleton.mp hrow
    exact hmissed.normalized

theorem exec_step (u : Unicode) (s : State) (es : List Action) : ∃ t, exec (step u) s es = some t := by
  induction es generalizing s with
  | nil => exact ⟨s, rfl⟩
  | cons a es ih =>
    obtain ⟨t, ht⟩ := ih (after u s a)
    exact ⟨t, exec_cons.mpr ⟨_, rfl, ht⟩⟩

/-- From a table whose hostnames are in normal form, every id and every hostname denotes one
site in all states of a run exactly when each insert of the run meets the condition. -/
theorem identified_iff_along (u : Unicode) {rows : List SiteRow}
    (hn : ∀ row ∈ rows, normalizeHostname u row.hostname = row.hostname)
    (hi : Identified u rows rows) (es : List Action) :
    Throughout (step u) (fun s => Identified u rows s.rows) { rows := rows } es ↔
      Along (step u) KeepsIdentity { rows := rows } es := by
  obtain ⟨t, ht⟩ := exec_step u { rows := rows } es
  refine throughout_iff_along_of (J := Inv u) (A := fun _ => True) ?_ ?_ ht (fun _ _ => trivial)
    ⟨hn, by simp⟩ hi
  · rintro s a t - hs hi h hafter
    obtain rfl := Option.some.inj h
    exact inv_after hs a hi hafter
  · rintro s a t - hs hi h
    obtain rfl := Option.some.inj h
    exact identified_after hs hi a

/-- The rows after the queries of a call that nothing else runs between. -/
def alone (u : Unicode) : List SiteRow → Phase → List Bool → List SiteRow
  | rows, _, [] => rows
  | rows, phase, fails :: rest =>
    alone u (rows ++ inserted fails phase) (next u rows fails phase) rest

@[simp] theorem alone_returned (rows : List SiteRow) (fails : List Bool) :
    alone u rows .returned fails = rows := by
  induction fails with
  | nil => rfl
  | cons f fails ih => simpa [alone, inserted, next] using ih

theorem exec_proceed {i : ℕ} {phase : Phase} (h : s.calls[i]? = some phase) (fails : List Bool) :
    ∃ t, exec (step u) s (fails.map (Action.proceed i)) = some t ∧
      t.rows = alone u s.rows phase fails := by
  induction fails generalizing s phase with
  | nil => exact ⟨s, rfl, rfl⟩
  | cons f fails ih =>
    have hi : i < s.calls.length := (List.getElem?_eq_some_iff.mp h).1
    have hafter : after u s (.proceed i f) =
        ⟨s.rows ++ inserted f phase, s.calls.set i (next u s.rows f phase)⟩ := by
      simp only [after, h]
    have hnext : (after u s (.proceed i f)).calls[i]? = some (next u s.rows f phase) := by
      rw [hafter]
      exact List.getElem?_set_self hi
    obtain ⟨t, ht, hrows⟩ := ih hnext
    rw [hafter] at hrows
    exact ⟨t, exec_cons.mpr ⟨_, rfl, ht⟩, hrows⟩

theorem checkNewSite_eq {fails : StoreCall → Bool} {args : CreateArgs} :
    checkNewSite u rows fails args.hostname args.slug args.tz args.currency =
      if validateHostname (u.lowerString (trimSpace args.hostname)) = false then
        .error .invalidHostname
      else if (lookupSiteIDByHostname u rows fails
          (u.lowerString (trimSpace args.hostname))).isSome then .error .hostnameTaken
      else checkAttributes u rows (fun _ => fails .slug) (u.lowerString (trimSpace args.hostname))
        args.slug args.tz args.currency := by
  cases hvalid : validateHostname (u.lowerString (trimSpace args.hostname)) with
  | false => simp [checkNewSite, hvalid, bind, Except.bind]
  | true =>
    cases hfound : lookupSiteIDByHostname u rows fails (u.lowerString (trimSpace args.hostname)) with
    | some siteID => simp [checkNewSite, hvalid, hfound, bind, Except.bind]
    | none => simp [checkNewSite, checkAttributes, resolveSlug, hvalid, hfound, bind, Except.bind]

theorem alone_cons {phase : Phase} {f : Bool} {fails : List Bool} :
    alone u rows phase (f :: fails) =
      alone u (rows ++ inserted f phase) (next u rows f phase) fails := rfl

private theorem alone_check {args : CreateArgs} {seen : LookedUp} {f g h : Bool} :
    alone u rows (.check args seen) [f, g, h] =
      match checkAttributes u rows (fun _ => f) args.hostname args.slug args.tz args.currency with
      | .error _ => rows
      | .ok site => if g || h then rows else rows ++ [site.row (maxSiteID rows)] := by
  rw [alone_cons]
  simp only [next, inserted, List.append_nil]
  cases hcheck : checkAttributes u rows (fun _ => f) args.hostname args.slug args.tz args.currency with
  | error e => exact alone_returned rows [g, h]
  | ok site =>
    rw [alone_cons]
    simp only [next, inserted, List.append_nil]
    cases g with
    | true => exact alone_returned rows [h]
    | false => cases h <;> simp [alone, inserted]

private theorem createSite_eq {fails : StoreCall → Bool} {args : CreateArgs} :
    createSite u rows fails args.hostname args.slug args.tz args.currency =
      match checkNewSite u rows fails args.hostname args.slug args.tz args.currency with
      | .error e => .error e
      | .ok site => if fails .maxID || fails .insert then .error .internal
        else .ok (site.row (maxSiteID rows)) := by
  simp only [createSite, bind, Except.bind]
  cases checkNewSite u rows fails args.hostname args.slug args.tz args.currency with
  | error e => rfl
  | ok site => cases fails .maxID <;> rfl

/-- Without anything in between, the queries of a call do what `createSite` does. -/
theorem alone_start {fails : StoreCall → Bool} {args : CreateArgs} :
    alone u rows (start u args)
        [fails .hostname, fails .hostnameToggled, fails .slug, fails .maxID, fails .insert] =
      match createSite u rows fails args.hostname args.slug args.tz args.currency with
      | .error _ => rows
      | .ok row => rows ++ [row] := by
  rw [createSite_eq, checkNewSite_eq, start]
  cases hvalid : validateHostname (u.lowerString (trimSpace args.hostname)) with
  | false => exact alone_returned rows _
  | true =>
    have hnormal := normalizeHostname_lower u hvalid
    have hne := ne_empty_of_valid hvalid
    generalize u.lowerString (trimSpace args.hostname) = hostname at hnormal hne
    simp only [lookupSiteIDByHostname, hnormal, hne, if_false, Bool.not_true, Bool.false_eq_true,
      Bool.true_eq_false]
    rw [alone_cons]
    simp only [next, inserted, hnormal, hne, if_false, List.append_nil]
    cases lookupExact rows hostname (fails .hostname) with
    | some siteID => exact alone_returned rows _
    | none =>
      simp only
      rw [alone_cons]
      simp only [next, inserted, hnormal, List.append_nil]
      cases lookupExact rows (wwwToggle hostname) (fails .hostnameToggled) with
      | some siteID => exact alone_returned rows _
      | none =>
        simp only [Option.isSome_none, Bool.false_eq_true, if_false]
        rw [alone_check]
        cases checkAttributes u rows (fun _ => fails .slug) hostname args.slug args.tz
            args.currency with
        | error e => rfl
        | ok site => cases fails .maxID <;> cases fails .insert <;> rfl

/-- A call that runs alone leaves what `createSite` leaves. -/
theorem create_alone (u : Unicode) (s : State) (fails : StoreCall → Bool) (args : CreateArgs) :
    ∃ t, exec (step u) s (.create args :: [fails .hostname, fails .hostnameToggled, fails .slug,
        fails .maxID, fails .insert].map (.proceed s.calls.length)) = some t ∧
      t.rows = match createSite u s.rows fails args.hostname args.slug args.tz args.currency with
        | .error _ => s.rows
        | .ok row => s.rows ++ [row] := by
  have hcall : (after u s (.create args)).calls[s.calls.length]? = some (start u args) := by
    simp [after]
  obtain ⟨t, ht, hrows⟩ := exec_proceed hcall
    [fails .hostname, fails .hostnameToggled, fails .slug, fails .maxID, fails .insert]
  simp only [after] at hrows
  refine ⟨t, exec_cons.mpr ⟨_, rfl, ht⟩, ?_⟩
  rw [hrows, alone_start]

def callQueries (i : ℕ) : List Action := List.replicate 5 (.proceed i false)

theorem identified_iff_along_create :
    Throughout (step sampleUnicode) (fun s => Identified sampleUnicode [] s.rows) { rows := [] }
        (.create { hostname := "shop.example" } :: callQueries 0) ↔
      Along (step sampleUnicode) KeepsIdentity { rows := [] }
        (.create { hostname := "shop.example" } :: callQueries 0) :=
  identified_iff_along sampleUnicode (by simp) (by decide) _

/-- The hostname of a site that has been disabled is taken again. -/
theorem disabled_hostname_taken : ¬ Throughout (step sampleUnicode)
    (fun s => Identified sampleUnicode [] s.rows) { rows := [] }
    (.create { hostname := "shop.example" } :: callQueries 0 ++
      .setEnabled 1 false false ::
        .create { hostname := "shop.example", slug := "shop-again" } :: callQueries 1) := by
  decide +kernel

end Statnive.SiteIdentity
