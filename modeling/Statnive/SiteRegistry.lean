import Mathlib.Data.List.DropRight
import Mathlib.Data.List.Sort
import Statnive.SiteOrigins
import Statnive.EnrichPipeline
import Statnive.SaltRotation

/-!
# The registry of sites

The rows of the `sites` table, the checks of a site policy, and the reads and writes of
the registry. A call to the store may fail, which leaves the table as it was.
-/

namespace Statnive.SiteRegistry

open SiteOrigins
open PrivacyPolicy (Bytes)
open VisitorIdentity (utf8)
open IngestHandler (trimSpace isSpace)
open EnrichPipeline (extractHostLower)
open SaltRotation (timezones)

/-- The tables of Unicode for the case of letters. -/
structure Unicode where
  toLower : Char → Char
  toLower_ascii : ∀ c, c.toNat < 0x80 → toLower c = c.toLower
  toLower_idem : ∀ c, toLower (toLower c) = toLower c
  isSpace_toLower : ∀ c, isSpace (toLower c) = isSpace c

/-- The tables that the registry rests on. -/
structure SiteTables extends LookupProfile, Unicode

instance : Coe SiteTables Unicode := ⟨SiteTables.toUnicode⟩

def Unicode.lowerString (u : Unicode) (s : String) : String := String.ofList (s.toList.map u.toLower)

/-- `none` is the nil slice. -/
structure SitePolicy where
  respectDNT : Bool := false
  respectGPC : Bool := false
  trackBots : Bool := false
  jurisdiction : String := ""
  consentMode : String := ""
  eventAllowlist : Option (List String) := none
  allowedOrigins : Option (List String) := none
  deriving DecidableEq

def validJurisdictions : List String :=
  ["DE", "FR", "IT", "ES", "NL", "BE", "IE", "UK", "OTHER-EU", "OTHER-NON-EU", "IR"]

def validConsentModes : List String := ["permissive", "consent-free", "consent-required", "hybrid"]

def euJurisdictions : List String := ["DE", "FR", "IT", "ES", "NL", "BE", "IE", "UK", "OTHER-EU"]

def maxAllowedOriginsPerSite : ℕ := 10

/-- A refusal of `Validate`, with what its text names. -/
inductive PolicyError where
  | originsCap (n : ℕ)
  | originEntry (raw : String)
  | jurisdiction (code : String)
  | consentMode (mode : String)
  | dePermissive
  | hybridOutsideEU (code : String)
  | hybridAllowlist (n : ℕ)
  | consentFreeAllowlist (n : ℕ)
  deriving DecidableEq

def SitePolicy.events (p : SitePolicy) : List String := p.eventAllowlist.getD []

def SitePolicy.origins (p : SitePolicy) : List String := p.allowedOrigins.getD []

def validateJurisdictionAndConsentMode (p : SitePolicy) : Except PolicyError Unit :=
  if !validJurisdictions.contains p.jurisdiction then .error (.jurisdiction p.jurisdiction)
  else if p.consentMode ≠ "" && !validConsentModes.contains p.consentMode then
    .error (.consentMode p.consentMode)
  else if p.jurisdiction = "DE" && p.consentMode = "permissive" then .error .dePermissive
  else if p.consentMode = "hybrid" && !euJurisdictions.contains p.jurisdiction then
    .error (.hybridOutsideEU p.jurisdiction)
  else if p.consentMode = "hybrid" && (p.events.length < 1 || 3 < p.events.length) then
    .error (.hybridAllowlist p.events.length)
  else if p.consentMode = "consent-free" && 3 < p.events.length then
    .error (.consentFreeAllowlist p.events.length)
  else .ok ()

def validateAllowedOrigins (lookup : LookupProfile) (origins : List String) :
    Except PolicyError Unit :=
  if maxAllowedOriginsPerSite < origins.length then .error (.originsCap origins.length)
  else match origins.find? (fun raw => (normalizeOrigin lookup raw).isNone) with
  | some raw => .error (.originEntry raw)
  | none => .ok ()

def SitePolicy.validate (lookup : LookupProfile) (p : SitePolicy) : Except PolicyError Unit := do
  validateAllowedOrigins lookup p.origins
  if p.jurisdiction = "" then .ok () else validateJurisdictionAndConsentMode p

def derivedConsentMode (jurisdiction : String) : String :=
  if euJurisdictions.contains jurisdiction then "consent-free" else "permissive"

/-- The defaults are those of the columns that an insert leaves out. The id is 32 bits wide. -/
structure SiteRow where
  siteID : ℕ
  siteID_lt : siteID < 2 ^ 32 := by decide
  hostname : String
  slug : String
  enabled : Bool := true
  tz : String
  currency : String
  respectDNT : Bool := false
  respectGPC : Bool := false
  trackBots : Bool := true
  jurisdiction : String := "OTHER-NON-EU"
  consentMode : String := "permissive"
  eventAllowlist : List String := []
  allowedOrigins : List String := []
  deriving DecidableEq

/-- A stored list as it is read back: the empty one is nil. -/
def parseJSONStringSlice (stored : List String) : Option (List String) :=
  if stored = [] then none else some stored

def SiteRow.policy (row : SiteRow) : SitePolicy where
  respectDNT := row.respectDNT
  respectGPC := row.respectGPC
  trackBots := row.trackBots
  jurisdiction := row.jurisdiction
  consentMode := row.consentMode
  eventAllowlist := parseJSONStringSlice row.eventAllowlist
  allowedOrigins := parseJSONStringSlice row.allowedOrigins

/-- The calls of the store, of which any may fail. -/
inductive StoreCall where
  | hostname | hostnameToggled | slug | maxID | insert
  | siteByID | policy | attributes | enabled
  | originCheck | rebuild | list
  deriving DecidableEq

inductive RegistryError where
  | unknownHostname | hostnameTaken | invalidHostname
  | invalidCurrency | invalidTimezone | slugTaken
  | internal
  deriving DecidableEq

def normalizeHostname (u : Unicode) (raw : String) : String :=
  extractHostLower u.lowerString (trimSpace raw)

def isHostnameChar (c : Char) : Bool :=
  ('a' ≤ c && c ≤ 'z') || ('A' ≤ c && c ≤ 'Z') || ('0' ≤ c && c ≤ '9') || c = '.' || c = '-'

def validateHostname (h : String) : Bool :=
  let h := trimSpace h
  h ≠ "" && (utf8 h).length ≤ 253 && h.toList.all isHostnameChar

/-- The id of the first enabled row with the host; a failed read finds no row. -/
def lookupExact (rows : List SiteRow) (host : String) (fails : Bool) : Option ℕ :=
  if fails then none
  else match rows.find? (fun row => row.hostname = host && row.enabled) with
  | none => none
  | some row => if row.siteID = 0 then none else some row.siteID

/-- The other host that is asked for. -/
def wwwToggle (host : String) : String :=
  String.ofList ((wwwBareToggleHost "www.".toList host.toList).getD [])

def lookupSiteIDByHostname (u : Unicode) (rows : List SiteRow) (fails : StoreCall → Bool)
    (hostname : String) : Option ℕ :=
  let host := normalizeHostname u hostname
  if host = "" then none
  else match lookupExact rows host (fails .hostname) with
  | some siteID => some siteID
  | none => lookupExact rows (wwwToggle host) (fails .hostnameToggled)

def reservedSlugs : List String :=
  ["admin", "api", "app", "assets", "auth", "demo", "docs", "healthz", "login", "logout", "s",
    "signup", "statnive", "static", "tracker"]

def tlds : List String :=
  [".com", ".org", ".net", ".io", ".dev", ".co.uk", ".co", ".ir", ".live", ".app"]

def isSlugChar (c : Char) : Bool :=
  ('a' ≤ c && c ≤ 'z') || ('A' ≤ c && c ≤ 'Z') || ('0' ≤ c && c ≤ '9')

/-- Every run of other characters becomes one dash; `prev` says that the last was one. -/
def dashRuns : Bool → List Char → List Char
  | _, [] => []
  | prev, c :: cs =>
    if isSlugChar c then c :: dashRuns false cs
    else if prev then dashRuns true cs else '-' :: dashRuns true cs

def trimDashes (cs : List Char) : List Char :=
  ((cs.dropWhile (· = '-')).reverse.dropWhile (· = '-')).reverse

def generateSlug (u : Unicode) (hostname : String) : String :=
  let h := (u.lowerString (trimSpace hostname)).toList
  let stem := match tlds.find? (fun tld => tld.toList.isSuffixOf h) with
    | some tld => h.take (h.length - tld.toList.length)
    | none => h
  String.ofList ((trimDashes (dashRuns false stem)).take 32)

def isSlugAvailable (u : Unicode) (rows : List SiteRow) (slug : String) : Bool :=
  let slug := u.lowerString (trimSpace slug)
  slug ≠ "" && !reservedSlugs.contains slug && !rows.any (fun row => row.slug = slug)

def resolveSlug (u : Unicode) (rows : List SiteRow) (fails : StoreCall → Bool)
    (hostname slug : String) : Except RegistryError String :=
  let slug := u.lowerString (trimSpace slug)
  let slug := if slug = "" then generateSlug u hostname else slug
  if slug = "" then .error .invalidHostname
  else if reservedSlugs.contains slug then .error .slugTaken
  else if fails .slug then .error .internal
  else if !isSlugAvailable u rows slug then .error .slugTaken
  else .ok slug

def normalizeAttribute (raw fallback : String) (valid : String → Bool) (invalid : RegistryError) :
    Except RegistryError String :=
  let v := trimSpace raw
  if v = "" then .ok fallback else if !valid v then .error invalid else .ok v

def defaultTimezone : String := "Europe/Berlin"

def defaultCurrency : String := "EUR"

def currencies : List String :=
  ["EUR", "USD", "GBP", "CAD", "AUD", "CHF", "SEK", "NOK", "DKK", "INR", "AED", "SAR", "TRY",
    "PLN", "CZK", "HUF", "JPY", "KRW", "IRR", "VND", "CNY", "HKD", "SGD", "TWD", "MYR", "THB",
    "IDR", "BRL", "MXN", "ZAR"]

def isValidCurrency (code : String) : Bool := currencies.contains code

def isValidTimezone (iana : String) : Bool := timezones.contains iana

def maxSiteID (rows : List SiteRow) : ℕ := (rows.map SiteRow.siteID).foldr max 0

/-- The largest id wraps around. -/
def nextSiteID (maxID : ℕ) : ℕ := (maxID + 1) % 2 ^ 32

/-- A row to insert, before its id is known. -/
structure NewSite where
  hostname : String
  slug : String
  tz : String
  currency : String
  deriving DecidableEq

/-- The row under the id that follows `maxID`. -/
def NewSite.row (site : NewSite) (maxID : ℕ) : SiteRow where
  siteID := nextSiteID maxID
  siteID_lt := Nat.mod_lt _ (by decide)
  hostname := site.hostname
  slug := site.slug
  tz := site.tz
  currency := site.currency

/-- `CreateSite` up to the read of the largest id. -/
def checkNewSite (u : Unicode) (rows : List SiteRow) (fails : StoreCall → Bool)
    (hostname slug tz currency : String) : Except RegistryError NewSite := do
  let hostname := u.lowerString (trimSpace hostname)
  if !validateHostname hostname then .error .invalidHostname
  if (lookupSiteIDByHostname u rows fails hostname).isSome then .error .hostnameTaken
  let slug ← resolveSlug u rows fails hostname slug
  let tz ← normalizeAttribute tz defaultTimezone isValidTimezone .invalidTimezone
  let currency ← normalizeAttribute currency defaultCurrency isValidCurrency .invalidCurrency
  .ok ⟨hostname, slug, tz, currency⟩

/-- A new row and its id. -/
def createSite (u : Unicode) (rows : List SiteRow) (fails : StoreCall → Bool)
    (hostname slug tz currency : String) : Except RegistryError SiteRow := do
  let site ← checkNewSite u rows fails hostname slug tz currency
  if fails .maxID then .error .internal
  if fails .insert then .error .internal
  .ok (site.row (maxSiteID rows))

/-- What the update of a policy leaves of a row: empty texts and nil lists are no change. -/
def SiteRow.withPolicy (row : SiteRow) (p : SitePolicy) : SiteRow :=
  { row with
    respectDNT := p.respectDNT
    respectGPC := p.respectGPC
    trackBots := p.trackBots
    jurisdiction := if p.jurisdiction = "" then row.jurisdiction else p.jurisdiction
    consentMode := if p.consentMode = "" then row.consentMode else p.consentMode
    eventAllowlist := p.eventAllowlist.getD row.eventAllowlist
    allowedOrigins := p.allowedOrigins.getD row.allowedOrigins }

/-- A field that is `none` is left unchanged. -/
def SiteRow.withAttributes (row : SiteRow) (currency tz : Option String) : SiteRow :=
  { row with currency := currency.getD row.currency, tz := tz.getD row.tz }

def SiteRow.withEnabled (row : SiteRow) (enabled : Option Bool) : SiteRow :=
  { row with enabled := enabled.getD row.enabled }

/-- The rows with the given id are rewritten. -/
def alterUpdate (rows : List SiteRow) (siteID : ℕ) (f : SiteRow → SiteRow) : List SiteRow :=
  rows.map fun row => if row.siteID = siteID then f row else row

/-- A read of the existence of a site, and then the update of its rows. -/
def updateRows (rows : List SiteRow) (fails : Bool) (siteID : ℕ) (f : SiteRow → SiteRow) :
    Except RegistryError (List SiteRow) :=
  if fails then .error .internal
  else if !rows.any (fun row => row.siteID = siteID) then .error .unknownHostname
  else .ok (alterUpdate rows siteID f)

/-- The policy with its origins in canonical form. -/
def SitePolicy.normalized (lookup : LookupProfile) (p : SitePolicy) : Option SitePolicy :=
  match p.allowedOrigins with
  | none => some p
  | some origins => (origins.mapM (normalizeOrigin lookup)).map fun canon =>
      { p with allowedOrigins := some canon }

def updateSitePolicy (u : SiteTables) (rows : List SiteRow) (fails : StoreCall → Bool) (siteID : ℕ)
    (policy : SitePolicy) : Except RegistryError (List SiteRow) :=
  if siteID = 0 then .error .unknownHostname
  else match policy.normalized u.toLookupProfile with
  | some p => updateRows rows (fails .policy) siteID (·.withPolicy p)
  | none => if fails .policy || rows.any (fun row => row.siteID = siteID) then .error .internal
    else .error .unknownHostname

def updateSiteAttributes (rows : List SiteRow) (fails : StoreCall → Bool) (siteID : ℕ)
    (currency tz : Option String) : Except RegistryError (List SiteRow) :=
  if siteID = 0 then .error .unknownHostname
  else if currency = none && tz = none then .ok rows
  else if currency.any (fun c => !isValidCurrency c) then .error .invalidCurrency
  else if tz.any (fun z => !isValidTimezone z) then .error .invalidTimezone
  else updateRows rows (fails .attributes) siteID (·.withAttributes currency tz)

def updateSiteEnabled (rows : List SiteRow) (fails : StoreCall → Bool) (siteID : ℕ)
    (enabled : Bool) : Except RegistryError (List SiteRow) :=
  if siteID = 0 then .error .unknownHostname
  else updateRows rows (fails .enabled) siteID (·.withEnabled (some enabled))

/-- A failed read finds no row. -/
def lookupSiteByID (rows : List SiteRow) (fails : StoreCall → Bool) (siteID : ℕ) : Option SiteRow :=
  if siteID = 0 || fails .siteByID then none
  else rows.find? (fun row => row.siteID = siteID)

def listAdmin (rows : List SiteRow) : List SiteRow :=
  rows.insertionSort (fun a b => a.siteID ≤ b.siteID)

theorem siteID_le_maxSiteID {rows : List SiteRow} {row : SiteRow} (h : row ∈ rows) :
    row.siteID ≤ maxSiteID rows := by
  induction rows with
  | nil => simp at h
  | cons r rows ih =>
    simp only [maxSiteID, List.map_cons, List.foldr_cons] at ih ⊢
    rcases List.mem_cons.mp h with rfl | h
    · exact Nat.le_max_left _ _
    · exact Nat.le_trans (ih h) (Nat.le_max_right _ _)

theorem maxSiteID_lt (rows : List SiteRow) : maxSiteID rows < 2 ^ 32 := by
  induction rows with
  | nil => decide
  | cons r rows ih =>
    simp only [maxSiteID, List.map_cons, List.foldr_cons] at ih ⊢
    exact Nat.max_lt.mpr ⟨r.siteID_lt, ih⟩

/-- The next id is above all others unless it wraps around to zero. -/
theorem nextSiteID_eq (rows : List SiteRow) :
    nextSiteID (maxSiteID rows) = maxSiteID rows + 1 ∨ nextSiteID (maxSiteID rows) = 0 := by
  have hlt := maxSiteID_lt rows
  by_cases hmax : maxSiteID rows + 1 = 2 ^ 32
  · exact .inr (by simp [nextSiteID, hmax])
  · exact .inl (Nat.mod_eq_of_lt (by omega))

theorem createSite_ok {u : Unicode} {rows : List SiteRow} {fails : StoreCall → Bool}
    {hostname slug tz currency : String} {row : SiteRow}
    (h : createSite u rows fails hostname slug tz currency = .ok row) :
    ∃ site, checkNewSite u rows fails hostname slug tz currency = .ok site ∧
      row = site.row (maxSiteID rows) := by
  cases hcheck : checkNewSite u rows fails hostname slug tz currency with
  | error e => simp [createSite, hcheck, bind, Except.bind] at h
  | ok site =>
    simp only [createSite, hcheck, bind, Except.bind] at h
    split at h
    · simp at h
    · split at h
      · simp at h
      · exact ⟨site, rfl, (Except.ok.inj h).symm⟩

/-- A new id that is not zero is no other row's. -/
theorem createSite_fresh {u : Unicode} {rows : List SiteRow} {fails : StoreCall → Bool}
    {hostname slug tz currency : String} {row : SiteRow}
    (h : createSite u rows fails hostname slug tz currency = .ok row) (hid : row.siteID ≠ 0) :
    ∀ old ∈ rows, old.siteID ≠ row.siteID := by
  obtain ⟨site, -, rfl⟩ := createSite_ok h
  intro old hold heq
  have hle := siteID_le_maxSiteID hold
  have hnext : old.siteID = nextSiteID (maxSiteID rows) := heq
  rcases nextSiteID_eq rows with hn | hn
  · omega
  · exact hid hn

theorem mem_listAdmin {rows : List SiteRow} {row : SiteRow} : row ∈ listAdmin rows ↔ row ∈ rows :=
  (List.perm_insertionSort _ rows).mem_iff

theorem updateRows_ok {rows rows' : List SiteRow} {fails : Bool} {siteID : ℕ}
    {f : SiteRow → SiteRow} (h : updateRows rows fails siteID f = .ok rows') :
    fails = false ∧ (∃ row ∈ rows, row.siteID = siteID) ∧ rows' = alterUpdate rows siteID f := by
  cases fails with
  | true => simp [updateRows] at h
  | false =>
    by_cases hex : rows.any (fun row => row.siteID = siteID) = true
    · simp only [updateRows, hex] at h
      exact ⟨rfl, by simpa using hex, by simpa using h.symm⟩
    · simp [updateRows, hex] at h

theorem updateSitePolicy_ok {u : SiteTables} {rows rows' : List SiteRow} {fails : StoreCall → Bool}
    {siteID : ℕ} {policy : SitePolicy}
    (h : updateSitePolicy u rows fails siteID policy = .ok rows') :
    siteID ≠ 0 ∧ (∃ row ∈ rows, row.siteID = siteID) ∧ fails .policy = false ∧ ∃ p,
      policy.normalized u.toLookupProfile = some p ∧
        rows' = alterUpdate rows siteID (·.withPolicy p) := by
  by_cases hid : siteID = 0
  · simp [updateSitePolicy, hid] at h
  · cases hp : policy.normalized u.toLookupProfile with
    | none =>
      simp only [updateSitePolicy, hid, hp, if_false] at h
      split at h <;> simp at h
    | some p =>
      simp only [updateSitePolicy, hid, hp, if_false] at h
      obtain ⟨hans, hex, hrows⟩ := updateRows_ok h
      exact ⟨hid, hex, hans, p, rfl, hrows⟩

theorem updateSitePolicy_eq {u : SiteTables} {rows : List SiteRow} {fails : StoreCall → Bool}
    {siteID : ℕ} {policy p : SitePolicy} (hid : siteID ≠ 0)
    (hex : ∃ row ∈ rows, row.siteID = siteID) (hp : policy.normalized u.toLookupProfile = some p)
    (hans : fails .policy = false) : updateSitePolicy u rows fails siteID policy =
      .ok (alterUpdate rows siteID (·.withPolicy p)) := by
  have hany : rows.any (fun row => row.siteID = siteID) = true := by simpa using hex
  simp [updateSitePolicy, hid, hp, updateRows, hans, hany]

@[simp] theorem withAttributes_none (row : SiteRow) : row.withAttributes none none = row := rfl

@[simp] theorem withEnabled_none (row : SiteRow) : row.withEnabled none = row := rfl

theorem alterUpdate_id (rows : List SiteRow) (siteID : ℕ) {f : SiteRow → SiteRow}
    (h : ∀ row ∈ rows, row.siteID = siteID → f row = row) : alterUpdate rows siteID f = rows := by
  refine (List.map_congr_left fun row hrow => ?_).trans (List.map_id rows)
  by_cases hid : row.siteID = siteID
  · simp [hid, h row hrow hid]
  · simp [hid]

/-- Two rewritings that keep the id are one. -/
theorem alterUpdate_comp (rows : List SiteRow) (siteID : ℕ) {f g : SiteRow → SiteRow}
    (hf : ∀ row, (f row).siteID = row.siteID) :
    alterUpdate (alterUpdate rows siteID f) siteID g = alterUpdate rows siteID (g ∘ f) := by
  simp only [alterUpdate, List.map_map]
  refine List.map_congr_left fun row _ => ?_
  by_cases hid : row.siteID = siteID
  · simp [hid, hf]
  · simp [hid]

theorem mem_alterUpdate {rows : List SiteRow} {siteID : ℕ} {f : SiteRow → SiteRow} {row : SiteRow}
    (h : row ∈ alterUpdate rows siteID f) :
    ∃ old ∈ rows, (old.siteID ≠ siteID ∧ row = old) ∨ (old.siteID = siteID ∧ row = f old) := by
  obtain ⟨old, hold, rfl⟩ := List.mem_map.mp h
  by_cases hid : old.siteID = siteID
  · exact ⟨old, hold, .inr ⟨hid, by simp [hid]⟩⟩
  · exact ⟨old, hold, .inl ⟨hid, by simp [hid]⟩⟩

theorem lookupSiteByID_some {rows : List SiteRow} {fails : StoreCall → Bool} {siteID : ℕ}
    {row : SiteRow} (h : lookupSiteByID rows fails siteID = some row) :
    siteID ≠ 0 ∧ row ∈ rows ∧ row.siteID = siteID := by
  unfold lookupSiteByID at h
  split at h
  · simp at h
  · next hcond =>
    simp only [Bool.or_eq_true, decide_eq_true_eq, not_or] at hcond
    exact ⟨hcond.1, List.mem_of_find?_eq_some h, by simpa using List.find?_some h⟩

theorem toLower_cases (c : Char) :
    c.toLower = c ∨ (65 ≤ c.toNat ∧ c.toNat ≤ 90 ∧ c.toLower.toNat = c.toNat + 32) := by
  unfold Char.toLower
  split
  · next h =>
    have hlow : 65 ≤ c.toNat := h.1
    have hhigh : c.toNat ≤ 90 := h.2
    refine .inr ⟨hlow, hhigh, ?_⟩
    change (c.val + ('a'.val - 'A'.val)).toNat = c.toNat + 32
    have hval : c.val.toNat = c.toNat := rfl
    rw [UInt32.toNat_add, hval, show ('a'.val - 'A'.val).toNat = 32 from rfl]
    omega
  · exact .inl rfl

private theorem toLower_toLower (c : Char) : c.toLower.toLower = c.toLower := by
  rcases toLower_cases c with h | ⟨hlow, -, hval⟩
  · rw [h, h]
  · rcases toLower_cases c.toLower with h | ⟨-, hhigh, -⟩
    · exact h
    · omega

theorem isSpace_toLower (c : Char) : isSpace c.toLower = isSpace c := by
  rcases toLower_cases c with h | ⟨hlow, hhigh, hval⟩
  · rw [h]
  · rw [isSpace_of_bounds (c := c) (by omega) (by omega),
      isSpace_of_bounds (c := c.toLower) (by omega) (by omega)]

private theorem dropWhile_rdropWhile
    {α : Type*} {p : α → Bool} {l : List α} (h : l.dropWhile p = l) :
    (l.rdropWhile p).dropWhile p = l.rdropWhile p := by
  obtain ⟨t, ht⟩ := l.rdropWhile_prefix p
  cases hr : l.rdropWhile p with
  | nil => rfl
  | cons a r =>
    rw [← ht, hr, List.cons_append, List.dropWhile_cons] at h
    cases hp : p a with
    | false => simp [hp]
    | true =>
      have hlen := congrArg List.length h
      have hle := (r ++ t).length_dropWhile_le p
      simp only [hp, if_true, List.length_cons] at hlen
      omega

theorem trimSpace_trimSpace (s : String) : trimSpace (trimSpace s) = trimSpace s := by
  have hdrop : (s.toList.dropWhile isSpace).dropWhile isSpace = s.toList.dropWhile isSpace :=
    List.dropWhile_idempotent _ _
  have hleft := dropWhile_rdropWhile hdrop
  have hright := List.rdropWhile_idempotent isSpace (s.toList.dropWhile isSpace)
  simp only [List.rdropWhile] at hleft hright
  simp only [trimSpace, String.toList_ofList]
  rw [hleft, hright]

theorem trimSpace_lowerString (u : Unicode) (s : String) :
    trimSpace (u.lowerString s) = u.lowerString (trimSpace s) := by
  have hcomp : isSpace ∘ u.toLower = isSpace := funext u.isSpace_toLower
  simp only [trimSpace, Unicode.lowerString, String.toList_ofList, List.dropWhile_map, hcomp,
    ← List.map_reverse]

theorem lowerString_lowerString (u : Unicode) (s : String) :
    u.lowerString (u.lowerString s) = u.lowerString s := by
  simp only [Unicode.lowerString, String.toList_ofList, List.map_map]
  congr 2
  funext c
  exact u.toLower_idem c

/-- The lower case of ASCII alone. -/
def sampleUnicode : Unicode where
  toLower := Char.toLower
  toLower_ascii := fun _ _ => rfl
  toLower_idem := toLower_toLower
  isSpace_toLower := isSpace_toLower

def sampleTables : SiteTables := { sampleLookup, sampleUnicode with }

end Statnive.SiteRegistry
