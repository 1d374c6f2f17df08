import Statnive.CSRFTokens
import Statnive.ConsentHandlers
import Statnive.SiteRegistry
import Statnive.VisitorExport

/-!
# The privacy routes

`GET /privacy` behind `CORS`, and the privacy API behind `CORS` and then `RequireCSRF`. The
middlewares are functions from handlers to handlers, and what happens to a request is an
`Exchange`.
-/

namespace Statnive.PrivacyRoutes

open CookieJar PrivacyPolicy VisitorIdentity SuppressionRecord ConsentHandlers VisitorExport
open CSRFTokens

inductive Method where
  | get | head | post | put | patch | delete | options
  | other (name : String)
  deriving DecidableEq

inductive Endpoint where
  | page | optOut | access | erase | consent
  deriving DecidableEq

def Endpoint.method : Endpoint → Method
  | .page | .access => .get
  | .optOut | .erase | .consent => .post

def Endpoint.changesState : Endpoint → Bool
  | .page | .access => false
  | .optOut | .erase | .consent => true

/-- `site` is the parameter of the query, empty where there is none. -/
structure HttpRequest extends PrivacyRequest where
  method : Method
  site : String := ""

structure EraseResult where
  table : String
  mutationSent : Bool
  err : String := ""
  deriving DecidableEq

/-- `page` is the template of `/privacy` with its two fields, and `accepted` the answer to an
erasure. -/
inductive Body where
  | text (s : String)
  | page (token site : String)
  | access (result : ExportResult)
  | accepted (tables : List EraseResult) (siteID : ℕ)
  deriving DecidableEq

structure Reply where
  status : ℕ
  headers : List (String × String) := []
  cookies : List Cookie := []
  body : Body := .text ""
  deriving DecidableEq

/-- The first value of a header, empty where there is none. -/
def Reply.header (r : Reply) (name : String) : String := (r.headers.lookup name).getD ""

inductive PrivacyEvent where
  | consent (e : AuditEvent)
  | accessRequested (siteID : ℕ) (hash : String)
  | accessReturned (siteID : ℕ) (hash : String) (rowCount : ℕ) (truncated : Bool)
  | eraseRequested (siteID : ℕ) (hash : String) (tables : ℕ)
  deriving DecidableEq

def PrivacyEvent.siteID : PrivacyEvent → ℕ
  | .consent e => e.siteID
  | .accessRequested siteID _ | .accessReturned siteID _ _ _ | .eraseRequested siteID _ _ => siteID

/-- The suppression list, and `events_raw`. -/
structure State where
  suppression : Suppression.State
  rows : List EventRow

/-- The handler that a request reached, with the site that it resolved. -/
structure Run where
  endpoint : Endpoint
  site : Option ℕ
  deriving DecidableEq

structure Exchange where
  reply : Reply
  state : State
  audit : List PrivacyEvent := []
  ran : Option Run := none

abbrev Handler := HttpRequest → State → Exchange

/-- `fold` takes the characters that differ in case alone to one of them. -/
structure Config extends ConsentHandlers.Config where
  hmacSHA256 : Bytes → Bytes → Bytes
  fold : Char → Char
  parseUUID : String → Option (List ℕ)
  devInsecure : Bool := false
  specMode : Bool := false
  privacyPage : Bool := true
  privacyAPI : Bool := true
  exportWired : Bool := true
  eraseWired : Bool := true
  maxRows : ℕ := 10000

def Config.signer (cfg : Config) : Signer where
  hmacSHA256 := cfg.hmacSHA256
  secret := cfg.key.masterSecret
  devInsecure := cfg.devInsecure

/-- The store, for one request: the answer to the query of an export, the tables that an erasure
finds, each with the error of its statement, and the time and the ids that are drawn. -/
structure Env (cfg : Config) where
  sites : SitesResolver
  random : Option Bytes
  uuid : IngestHandler.UUID
  unixAt : Int64
  outcome : Suppression.Outcome
  now : ℤ
  query : List EventRow → String → ℕ → ℕ → Option (List EventRow)
  answers : ∀ {table hash siteID limit answer}, query table hash siteID limit = some answer →
    Answers cfg.parseUUID table hash siteID limit answer
  rowsErr : Bool
  discovered : Option (List (String × Option String))

def corsAllowedHeaders : String := "Content-Type, X-CSRF-Token, X-Statnive-Site"

def corsAllowedMethods : String := "GET, POST, OPTIONS"

def corsMaxAge : String := "600"

def allowOrigin : String := "Access-Control-Allow-Origin"

def allowCredentials : String := "Access-Control-Allow-Credentials"

def varyOrigin : List (String × String) := [("Vary", "Origin")]

def corsHeaders (origin : String) : List (String × String) :=
  [(allowOrigin, origin), (allowCredentials, "true"), ("Vary", "Origin"),
    ("Access-Control-Allow-Headers", corsAllowedHeaders),
    ("Access-Control-Allow-Methods", corsAllowedMethods), ("Access-Control-Max-Age", corsMaxAge)]

def equalFold (fold : Char → Char) (s t : String) : Bool :=
  s.toList.map fold = t.toList.map fold

def sameOriginMatch (fold : Char → Char) (r : PrivacyRequest) (origin : String) : Bool :=
  let host := if r.header "X-Forwarded-Host" ≠ "" then r.header "X-Forwarded-Host" else r.host
  if host = "" then false
  else equalFold fold origin ((if isHTTPS r then "https" else "http") ++ "://" ++ host)

def Exchange.withHeaders (x : Exchange) (headers : List (String × String)) : Exchange :=
  { x with reply := { x.reply with headers := headers ++ x.reply.headers } }

/-- A reply that leaves everything as it is. -/
def respond (status : ℕ) (body : String) : Handler := fun _ s =>
  { reply := { status := status, body := .text body }, state := s }

/-- `resolve` is the look-up in the index of origins. -/
def cors (fold : Char → Char) (resolve : String → Option ℕ) (next : Handler) : Handler :=
  fun r s =>
    let origin := r.header "Origin"
    if origin = "" then (next r s).withHeaders varyOrigin
    else if origin = "null" then (respond 403 "origin not allowed" r s).withHeaders varyOrigin
    else match resolve origin with
    | none =>
      if r.method = .options then (respond 403 "origin not allowed" r s).withHeaders varyOrigin
      -- a request of an unknown origin is served, but the browser does not show the reply
      else (next r s).withHeaders varyOrigin
    | some siteID =>
      if r.header "Sec-Fetch-Site" = "same-origin" ∧
          sameOriginMatch fold r.toPrivacyRequest origin = false then
        (respond 403 "origin mismatch" r s).withHeaders varyOrigin
      else if r.method = .options then (respond 204 "" r s).withHeaders (corsHeaders origin)
      else (next { r with siteFromOrigin := some siteID } s).withHeaders (corsHeaders origin)

def isStateChanging : Method → Bool
  | .post | .put | .patch | .delete => true
  | .get | .head | .options | .other _ => false

def requireCSRF (k : Signer) (next : Handler) : Handler := fun r s =>
  if isStateChanging r.method ∧ verifyCSRF k r.toRequest ≠ .ok () then
    respond 403 "csrf token required" r s
  else next r s

def siteValidator (sites : SitesResolver) (hostname : String) : Bool :=
  (lookupSite sites hostname).toOption.isSome

def resolveSiteParam (r : HttpRequest) (validate : String → Bool) : Option String :=
  if r.site = "" then some ""
  else if !SiteRegistry.validateHostname r.site then none
  else if !validate r.site then none
  else some r.site

def pageHeaders : List (String × String) :=
  [("Content-Type", "text/html; charset=utf-8"), ("Cache-Control", "private, no-store"),
    ("X-Content-Type-Options", "nosniff"),
    ("Referrer-Policy", "strict-origin-when-cross-origin"), ("X-Frame-Options", "DENY"),
    ("Content-Security-Policy", "default-src 'self'; script-src 'self' 'unsafe-inline'; " ++
      "style-src 'self' 'unsafe-inline'; frame-ancestors 'none'; form-action 'none'")]

section Handlers

variable (cfg : Config) (env : Env cfg)

def privacyPage : Handler := fun r s =>
  match resolveSiteParam r (siteValidator env.sites) with
  | none => respond 400 "unknown site" r s
  | some site => match issueCSRFToken cfg.signer env.random with
    | none => respond 500 "internal error" r s
    | some (token, cookie) =>
      { reply :=
          { status := 200, headers := pageHeaders, cookies := [cookie], body := .page token site }
        state := s }

/-- The exchange of a handler that leaves the rows alone. -/
def ofResponse (s : State) (out : Response × Suppression.State) : Exchange where
  reply := { status := out.1.status, cookies := out.1.cookies, body := .text out.1.body }
  state := { s with suppression := out.2 }
  audit := out.1.audit.toList.map .consent

def optOut : Handler := fun r s =>
  ofResponse s (ConsentHandlers.optOut cfg.toConfig env.sites s.suppression r.toPrivacyRequest
    env.unixAt env.outcome)

def consent : Handler := fun r s =>
  ofResponse s (ConsentHandlers.consent cfg.toConfig env.sites s.suppression r.toPrivacyRequest
    env.uuid env.unixAt env.outcome)

/-- The site with the `_statnive` cookie, of which the handlers use the hash. -/
def resolveSiteAndCookie (r : HttpRequest) : Except (ℕ × String) (ℕ × String) :=
  match resolveSiteID env.sites r.toPrivacyRequest with
  | .error status => .error (status, statusText status)
  | .ok siteID => match statniveCookie r.toRequest with
    | none => .error (401, "no statnive cookie")
    | some v => .ok (siteID, v)

def jsonHeaders : List (String × String) :=
  [("Content-Type", "application/json"), ("Cache-Control", "private, no-store")]

def access : Handler := fun r s =>
  match resolveSiteAndCookie cfg env r with
  | .error (status, body) => respond status body r s
  | .ok (siteID, v) =>
    let hash := hexCookieIDHash cfg.key siteID v
    let requested : PrivacyEvent := .accessRequested siteID hash
    if !cfg.exportWired then
      { respond 503 "access not configured" r s with audit := [requested] }
    else match exportVisitorRows cfg.parseUUID cfg.maxRows env.now siteID hash
      (env.query s.rows hash siteID (cfg.maxRows + 1)) env.rowsErr with
    | .error _ => { respond 500 "internal error" r s with audit := [requested] }
    | .ok result =>
      { reply := { status := 200, headers := jsonHeaders, body := .access result }
        state := s
        audit := [requested, .accessReturned siteID hash result.rowCount result.truncated] }

/-- The only table with a `cookie_id` that a migration creates. -/
def eventsRaw : String := "events_raw"

def eraseResult (t : String × Option String) : EraseResult where
  table := t.1
  mutationSent := t.2.isNone
  err := t.2.getD ""

/-- `EraseByCookieID`, with the rows that are left once its statements have run. -/
def eraseByCookieID (rows : List EventRow) (siteID : ℕ) (hash : String) :
    Option (List EraseResult × List EventRow) :=
  if hash = "" ∨ siteID = 0 then none
  else env.discovered.map fun tables =>
    (tables.map eraseResult,
      if (eventsRaw, none) ∈ tables then
        rows.filter fun e => !eraseWhere cfg.parseUUID hash siteID e.toEnrichedEvent
      else rows)

def erase : Handler := fun r s =>
  match resolveSiteAndCookie cfg env r with
  | .error (status, body) => respond status body r s
  | .ok (siteID, v) =>
    let hash := hexCookieIDHash cfg.key siteID v
    if !cfg.eraseWired then respond 503 "erase not configured" r s
    else match eraseByCookieID cfg env s.rows siteID hash with
    | none => respond 500 "internal error" r s
    | some (results, rows) =>
      match addHash s.suppression (Hash.ofCookie cfg.key siteID v) env.unixAt env.outcome with
      | (false, suppression) => respond 500 "internal error" r ⟨suppression, rows⟩
      | (true, suppression) =>
        { reply := { status := 202, headers := jsonHeaders, body := .accepted results siteID }
          state := ⟨suppression, rows⟩
          audit := [.eraseRequested siteID hash results.length] }

/-- The handler of an endpoint; that of the page resolves no site. -/
def handle (e : Endpoint) : Handler := fun r s =>
  let site := (resolveSiteID env.sites r.toPrivacyRequest).toOption
  match e with
  | .page => { privacyPage cfg env r s with ran := some ⟨.page, none⟩ }
  | .optOut => { optOut cfg env r s with ran := some ⟨.optOut, site⟩ }
  | .access => { access cfg env r s with ran := some ⟨.access, site⟩ }
  | .erase => { erase cfg env r s with ran := some ⟨.erase, site⟩ }
  | .consent => { consent cfg env r s with ran := some ⟨.consent, site⟩ }

def Config.mounted (cfg : Config) : Endpoint → Bool
  | .page => cfg.specMode || cfg.privacyPage
  | .optOut | .access | .erase | .consent => cfg.specMode || cfg.privacyAPI

/-- A path is mounted with its own method and with `OPTIONS`. -/
def serve (resolve : String → Option ℕ) (e : Endpoint) : Handler := fun r s =>
  if !cfg.mounted e then respond 404 "404 page not found" r s
  else if r.method ≠ e.method ∧ r.method ≠ .options then respond 405 "" r s
  else if e = .page then cors cfg.fold resolve (handle cfg env .page) r s
  else cors cfg.fold resolve (requireCSRF cfg.signer (handle cfg env e)) r s

end Handlers

/-- The cookies of the visitor, and those of the site. -/
def cookieNames (siteID : ℕ) : List String :=
  [cookieName, legacyConsentCookieName, consentCookieName siteID, optoutCookieName siteID]

/-- At most the hash of the sender's cookie for the site is added. -/
def Suppresses (cfg : Config) (siteID : ℕ) (r : Request) (s t : Suppression.State) : Prop :=
  t = s ∨ ∃ l v unixAt outcome, s.list = some l ∧ statniveCookie r = some v ∧
    t = Suppression.add s l (Hash.ofCookie cfg.key siteID v) unixAt outcome

/-- Nothing but the site is touched: what is suppressed and what is deleted is the sender's on the
site, and the cookies and the audit log are about it. -/
structure ActsOn (cfg : Config) (siteID : ℕ) (r : Request) (s : State) (x : Exchange) : Prop where
  suppression : Suppresses cfg siteID r s.suppression x.state.suppression
  rows : x.state.rows = s.rows ∨ ∃ v, statniveCookie r = some v ∧
    x.state.rows = s.rows.filter fun e =>
      ¬ (e.cookieID = hexCookieIDHash cfg.key siteID v ∧ e.siteID = siteID)
  cookies : ∀ c ∈ x.reply.cookies, c.name ∈ cookieNames siteID
  audit : ∀ e ∈ x.audit, e.siteID = siteID

/-- What a body tells is about the site: the rows of an export are rows of it, and a page names
one of its hosts, or none. -/
def Concerns (sites : SitesResolver) (rows : List EventRow) (siteID : ℕ) : Body → Prop
  | .text _ => True
  | .page _ site => site ≠ "" → lookupSite sites site = .ok siteID
  | .access result => result.siteID = siteID ∧
    ∀ row ∈ result.rows, ∃ e ∈ rows, e.siteID = siteID ∧ exported e.toEnrichedEvent = row
  | .accepted _ id => id = siteID

/-- The handler touches only the site, and so does what it answers. -/
structure Confined (cfg : Config) (sites : SitesResolver) (siteID : ℕ) (r : Request) (s : State)
    (x : Exchange) : Prop where
  acts : ActsOn cfg siteID r s x
  concerns : Concerns sites s.rows siteID x.reply.body

variable {cfg : Config} {env : Env cfg} {r : HttpRequest} {s : State} {siteID : ℕ}

theorem confined_respond (status : ℕ) (body : String) :
    Confined cfg env.sites siteID r.toRequest s (respond status body r s) :=
  ⟨⟨.inl rfl, .inl rfl, List.forall_mem_nil _, List.forall_mem_nil _⟩, trivial⟩

theorem suppresses_addHash {r : Request} {v : String} (hv : statniveCookie r = some v)
    {s t : Suppression.State} {unixAt : Int64} {outcome : Suppression.Outcome} {ok : Bool}
    (h : addHash s (Hash.ofCookie cfg.key siteID v) unixAt outcome = (ok, t)) :
    Suppresses cfg siteID r s t := by
  cases hl : s.list with
  | none =>
    simp only [addHash, hl, Prod.mk.injEq] at h
    exact .inl h.2.symm
  | some l =>
    simp only [addHash, hl, Prod.mk.injEq] at h
    exact .inr ⟨l, v, unixAt, outcome, hl, hv, h.2.symm⟩

/-- A response of the handlers that are given the suppression list alone. -/
structure SiteResponse (cfg : Config) (siteID : ℕ) (r : Request) (s : Suppression.State)
    (out : Response × Suppression.State) : Prop where
  suppression : Suppresses cfg siteID r s out.2
  cookies : ∀ c ∈ out.1.cookies, c.name ∈ cookieNames siteID
  audit : ∀ e, out.1.audit = some e → e.siteID = siteID

theorem confined_ofResponse {out : Response × Suppression.State}
    (h : SiteResponse cfg siteID r.toRequest s.suppression out) :
    Confined cfg env.sites siteID r.toRequest s (ofResponse s out) where
  acts := by
    refine ⟨h.suppression, .inl rfl, h.cookies, fun e he => ?_⟩
    obtain ⟨event, hevent, rfl⟩ := List.mem_map.mp he
    exact h.audit event (Option.mem_toList.mp hevent)
  concerns := trivial

private theorem siteResponse_optOut
    (hsite : resolveSiteID env.sites r.toPrivacyRequest = .ok siteID)
    (t : Suppression.State) : SiteResponse cfg siteID r.toRequest t
      (ConsentHandlers.optOut cfg.toConfig env.sites t r.toPrivacyRequest env.unixAt
        env.outcome) := by
  cases hv : statniveCookie r.toRequest with
  | none =>
    simp only [ConsentHandlers.optOut, hsite, hv]
    exact ⟨.inl rfl, by simp [marker, cookieNames], by simp⟩
  | some v =>
    rcases hadd : addHash t (Hash.ofCookie cfg.key siteID v) env.unixAt env.outcome with ⟨ok, t'⟩
    have hsupp := suppresses_addHash hv hadd
    simp only [ConsentHandlers.optOut, hsite, hv, hadd]
    cases ok with
    | false => exact ⟨hsupp, by simp [internalError], by simp [internalError]⟩
    | true => exact ⟨hsupp, by simp [marker, cookieNames], by simp⟩

private theorem siteResponse_withdraw (r : Request) (t : Suppression.State) (secure : Bool)
    (unixAt : Int64) (outcome : Suppression.Outcome) : SiteResponse cfg siteID r t
      (withdraw cfg.toConfig t siteID r secure unixAt outcome) := by
  cases hv : statniveCookie r with
  | none =>
    simp only [withdraw, hv]
    exact ⟨.inl rfl, by simp, by simp⟩
  | some v =>
    rcases hadd : addHash t (Hash.ofCookie cfg.key siteID v) unixAt outcome with ⟨ok, t'⟩
    have hsupp := suppresses_addHash hv hadd
    simp only [withdraw, hv, hadd]
    cases ok with
    | false =>
      exact ⟨hsupp, by simp [internalError, expireCookie, cookieNames], by simp [internalError]⟩
    | true => exact ⟨hsupp, by simp [marker, expireCookie, cookieNames], by simp⟩

private theorem siteResponse_give (r : Request) (t : Suppression.State) (uuid : IngestHandler.UUID)
    (secure : Bool) :
    SiteResponse cfg siteID r t (give cfg.toConfig siteID r uuid secure, t) := by
  refine ⟨.inl rfl, fun c hc => ?_, by simp [give]⟩
  simp only [give, readOrMintStatnive] at hc
  cases hv : statniveCookie r with
  | none =>
    simp only [hv, List.cons_append, List.nil_append, List.mem_cons, List.not_mem_nil,
      or_false] at hc
    rcases hc with rfl | rfl <;> simp [marker, cookieNames]
  | some v =>
    simp only [hv, List.nil_append, List.mem_singleton] at hc
    simp [hc, marker, cookieNames]

private theorem siteResponse_consent
    (hsite : resolveSiteID env.sites r.toPrivacyRequest = .ok siteID)
    (t : Suppression.State) : SiteResponse cfg siteID r.toRequest t
      (ConsentHandlers.consent cfg.toConfig env.sites t r.toPrivacyRequest env.uuid env.unixAt
        env.outcome) := by
  have hrefused (body : String) : SiteResponse cfg siteID r.toRequest t
      ({ status := 400, body := body }, t) := ⟨.inl rfl, by simp, by simp⟩
  simp only [ConsentHandlers.consent, hsite]
  cases r.body.toOption.bind cfg.decodeAction with
  | none => exact hrefused _
  | some action =>
    simp only
    split_ifs
    · exact siteResponse_give r.toRequest t env.uuid _
    · exact siteResponse_withdraw r.toRequest t _ env.unixAt env.outcome
    · exact hrefused _

theorem resolveSiteAndCookie_ok {v : String}
    (h : resolveSiteAndCookie cfg env r = .ok (siteID, v)) :
    resolveSiteID env.sites r.toPrivacyRequest = .ok siteID ∧
      statniveCookie r.toRequest = some v := by
  simp only [resolveSiteAndCookie] at h
  cases hsite : resolveSiteID env.sites r.toPrivacyRequest with
  | error status => simp [hsite] at h
  | ok id => cases hv : statniveCookie r.toRequest with
    | none => simp [hsite, hv] at h
    | some w =>
      simp only [hsite, hv, Except.ok.injEq, Prod.mk.injEq] at h
      exact ⟨congrArg _ h.1, congrArg _ h.2⟩

/-- The rows of an export are rows of its site. -/
theorem concerns_export {now : ℤ} {hash : String} {result : ExportResult}
    (h : exportVisitorRows cfg.parseUUID cfg.maxRows now siteID hash
      (env.query s.rows hash siteID (cfg.maxRows + 1)) env.rowsErr = .ok result) :
    Concerns env.sites s.rows siteID (.access result) := by
  cases hquery : env.query s.rows hash siteID (cfg.maxRows + 1) with
  | none =>
    simp only [exportVisitorRows, hquery] at h
    split_ifs at h
  | some answer =>
    rw [hquery] at h
    obtain ⟨-, -, -, hid, hrows, -⟩ := exportVisitorRows_ok h
    refine ⟨hid, fun row hrow => ?_⟩
    rw [hrows] at hrow
    obtain ⟨e, he, rfl⟩ := List.mem_map.mp hrow
    obtain ⟨sorted, hperm, -, hanswer⟩ := env.answers hquery
    have hmem : e ∈ sorted := List.mem_of_mem_take (hanswer ▸ List.mem_of_mem_take he)
    obtain ⟨htable, hwhere⟩ := List.mem_filter.mp (hperm.mem_iff.mp hmem)
    exact ⟨e, htable, (exportWhere_iff.mp hwhere).2, rfl⟩

private theorem confined_access (hsite : resolveSiteID env.sites r.toPrivacyRequest = .ok siteID) :
    Confined cfg env.sites siteID r.toRequest s (access cfg env r s) := by
  simp only [access]
  cases hresolve : resolveSiteAndCookie cfg env r with
  | error e => exact confined_respond _ _
  | ok found =>
    obtain ⟨id, v⟩ := found
    obtain ⟨hid, hv⟩ := resolveSiteAndCookie_ok hresolve
    obtain rfl : siteID = id := Except.ok.inj (hsite.symm.trans hid)
    have hfailed (status : ℕ) (body : String) : Confined cfg env.sites siteID r.toRequest s
        { respond status body r s with
          audit := [.accessRequested siteID (hexCookieIDHash cfg.key siteID v)] } :=
      ⟨⟨.inl rfl, .inl rfl, List.forall_mem_nil _, by simp [PrivacyEvent.siteID]⟩, trivial⟩
    simp only
    split_ifs
    · exact hfailed _ _
    · cases hexport : exportVisitorRows cfg.parseUUID cfg.maxRows env.now siteID
        (hexCookieIDHash cfg.key siteID v) (env.query s.rows (hexCookieIDHash cfg.key siteID v)
          siteID (cfg.maxRows + 1)) env.rowsErr with
      | error err => exact hfailed _ _
      | ok result =>
        exact ⟨⟨.inl rfl, .inl rfl, List.forall_mem_nil _, by simp [PrivacyEvent.siteID]⟩,
          concerns_export hexport⟩

private theorem eraseByCookieID_rows {rows rows' : List EventRow} {hash : String}
    {results : List EraseResult}
    (h : eraseByCookieID cfg env rows siteID hash = some (results, rows')) :
    rows' = rows ∨ rows' = rows.filter fun e => ¬ (e.cookieID = hash ∧ e.siteID = siteID) := by
  simp only [eraseByCookieID] at h
  split_ifs at h
  cases htables : env.discovered with
  | none => simp [htables] at h
  | some tables =>
    simp only [htables, Option.map_some, Option.some.injEq, Prod.mk.injEq] at h
    obtain ⟨-, rfl⟩ := h
    split_ifs
    · right
      apply List.filter_congr
      intro e _
      have hwhere : exportWhere cfg.parseUUID hash siteID e.toEnrichedEvent =
          decide (e.cookieID = hash ∧ e.siteID = siteID) :=
        Bool.eq_iff_iff.mpr (exportWhere_iff.trans decide_eq_true_iff.symm)
      rw [eraseWhere_eq, hwhere, decide_not]
    · exact .inl rfl

private theorem confined_erase (hsite : resolveSiteID env.sites r.toPrivacyRequest = .ok siteID) :
    Confined cfg env.sites siteID r.toRequest s (erase cfg env r s) := by
  simp only [erase]
  cases hresolve : resolveSiteAndCookie cfg env r with
  | error e => exact confined_respond _ _
  | ok found =>
    obtain ⟨id, v⟩ := found
    obtain ⟨hid, hv⟩ := resolveSiteAndCookie_ok hresolve
    obtain rfl : siteID = id := Except.ok.inj (hsite.symm.trans hid)
    simp only
    split_ifs
    · exact confined_respond _ _
    · cases herase : eraseByCookieID cfg env s.rows siteID (hexCookieIDHash cfg.key siteID v) with
      | none => exact confined_respond _ _
      | some out =>
        obtain ⟨results, rows⟩ := out
        have hrows : rows = s.rows ∨ ∃ v, statniveCookie r.toRequest = some v ∧ rows =
            s.rows.filter fun e =>
              ¬ (e.cookieID = hexCookieIDHash cfg.key siteID v ∧ e.siteID = siteID) :=
          (eraseByCookieID_rows herase).imp_right fun h => ⟨v, hv, h⟩
        rcases hadd : addHash s.suppression (Hash.ofCookie cfg.key siteID v) env.unixAt env.outcome
          with ⟨ok, t⟩
        have hsupp := suppresses_addHash hv hadd
        simp only
        cases ok with
        | false => exact ⟨⟨hsupp, hrows, List.forall_mem_nil _, List.forall_mem_nil _⟩, trivial⟩
        | true => exact ⟨⟨hsupp, hrows, List.forall_mem_nil _, by simp [PrivacyEvent.siteID]⟩, rfl⟩

/-- A handler of the API works for the site that it resolves. -/
theorem confined_handle {e : Endpoint} (he : e ≠ .page)
    (hsite : resolveSiteID env.sites r.toPrivacyRequest = .ok siteID) :
    Confined cfg env.sites siteID r.toRequest s (handle cfg env e r s) := by
  have hran {x : Exchange} (h : Confined cfg env.sites siteID r.toRequest s x)
      (run : Option Run) : Confined cfg env.sites siteID r.toRequest s { x with ran := run } :=
    ⟨⟨h.acts.suppression, h.acts.rows, h.acts.cookies, h.acts.audit⟩, h.concerns⟩
  cases e with
  | page => exact absurd rfl he
  | optOut => exact hran (confined_ofResponse (siteResponse_optOut hsite s.suppression)) _
  | access => exact hran (confined_access hsite) _
  | erase => exact hran (confined_erase hsite) _
  | consent => exact hran (confined_ofResponse (siteResponse_consent hsite s.suppression)) _

theorem ActsOn.withHeaders {r : Request} {x : Exchange} (h : ActsOn cfg siteID r s x)
    (headers : List (String × String)) : ActsOn cfg siteID r s (x.withHeaders headers) :=
  ⟨h.suppression, h.rows, h.cookies, h.audit⟩

theorem handle_ran (e : Endpoint) (r : HttpRequest) (s : State) : (handle cfg env e r s).ran =
    some ⟨e, if e = .page then none
      else (resolveSiteID env.sites r.toPrivacyRequest).toOption⟩ := by
  cases e <;> rfl

theorem resolveSiteID_origin (hne : siteID ≠ 0) :
    resolveSiteID env.sites { r with siteFromOrigin := some siteID }.toPrivacyRequest =
      .ok siteID := by
  simp [resolveSiteID, hne]

/-- The page is about the site of its parameter. -/
theorem handle_page {token site : String}
    (h : (handle cfg env .page r s).reply.body = .page token site) :
    site = r.site ∧ (site ≠ "" → siteValidator env.sites site = true) := by
  simp only [handle, privacyPage] at h
  split at h
  · nomatch h
  · rename_i named hnamed
    split at h
    · nomatch h
    · obtain ⟨-, rfl⟩ := Body.page.inj h
      simp only [resolveSiteParam] at hnamed
      split_ifs at hnamed with hempty hhost hvalid
      · obtain rfl := Option.some.inj hnamed
        exact ⟨hempty.symm, fun hne => absurd rfl hne⟩
      · obtain rfl := Option.some.inj hnamed
        exact ⟨rfl, fun _ => by simpa using hvalid⟩

private theorem isStateChanging_method (e : Endpoint) : isStateChanging e.method =
    e.changesState := by
  cases e <;> rfl

/-- Every way in which `CORS` serves a request with an origin. -/
inductive CorsCase (resolve : String → Option ℕ) (next : Handler) (r : HttpRequest) (s : State) :
    Exchange → Prop where
  | refused (body : String) :
      CorsCase resolve next r s ((respond 403 body r s).withHeaders varyOrigin)
  | preflight {siteID : ℕ} (hmethod : r.method = .options)
      (hsite : resolve (r.header "Origin") = some siteID) :
      CorsCase resolve next r s
        ((respond 204 "" r s).withHeaders (corsHeaders (r.header "Origin")))
  | unknown (hmethod : r.method ≠ .options) (hnone : resolve (r.header "Origin") = none) :
      CorsCase resolve next r s ((next r s).withHeaders varyOrigin)
  | known {siteID : ℕ} (hmethod : r.method ≠ .options)
      (hsite : resolve (r.header "Origin") = some siteID) :
      CorsCase resolve next r s ((next { r with siteFromOrigin := some siteID } s).withHeaders
        (corsHeaders (r.header "Origin")))

theorem corsCase (fold : Char → Char) (resolve : String → Option ℕ) (next : Handler)
    (r : HttpRequest) (s : State) (horigin : r.header "Origin" ≠ "") :
    CorsCase resolve next r s (cors fold resolve next r s) := by
  cases hsite : resolve (r.header "Origin") with
  | none =>
    simp only [cors, if_neg horigin, hsite]
    split_ifs with hnull hmethod
    · exact .refused _
    · exact .refused _
    · exact .unknown hmethod hsite
  | some siteID =>
    simp only [cors, if_neg horigin, hsite]
    split_ifs with hnull hmismatch hmethod
    · exact .refused _
    · exact .refused _
    · exact .preflight hmethod hsite
    · exact .known hmethod hsite

/-- The reply carries no `Access-Control-Allow-Origin`. -/
def Reply.Hidden (reply : Reply) : Prop := reply.headers.lookup allowOrigin = none

theorem hidden_withHeaders {x : Exchange} {headers : List (String × String)}
    (hheaders : headers.lookup allowOrigin = none) (hx : x.reply.Hidden) :
    (x.withHeaders headers).reply.Hidden := by
  rw [Reply.Hidden, Exchange.withHeaders, List.lookup_append, hheaders, hx, Option.or_none]

theorem hidden_handle (e : Endpoint) (r : HttpRequest) (s : State) :
    (handle cfg env e r s).reply.Hidden := by
  have hjson : jsonHeaders.lookup allowOrigin = none := by decide
  have hpage : pageHeaders.lookup allowOrigin = none := by decide
  cases e with
  | page =>
    simp only [handle, privacyPage]
    repeat' split
    · rfl
    · rfl
    · exact hpage
  | optOut => rfl
  | access =>
    simp only [handle, access]
    repeat' split
    · rfl
    · rfl
    · rfl
    · exact hjson
  | erase =>
    simp only [handle, erase]
    repeat' split
    · rfl
    · rfl
    · rfl
    · rfl
    · exact hjson
  | consent => rfl

/-- Every way in which a request with an origin is served: refused in silence, answered before
the handler, and handled, with the site of the origin if it has one. A handler that changes state
is only reached with a token. -/
inductive ServeCase (cfg : Config) (env : Env cfg) (resolve : String → Option ℕ) (e : Endpoint)
    (r : HttpRequest) (s : State) : Exchange → Prop where
  | refused (status : ℕ) (body : String) {headers : List (String × String)}
      (hhidden : headers.lookup allowOrigin = none) :
      ServeCase cfg env resolve e r s ((respond status body r s).withHeaders headers)
  | answered (status : ℕ) (body : String) {siteID : ℕ}
      (hsite : resolve (r.header "Origin") = some siteID) :
      ServeCase cfg env resolve e r s
        ((respond status body r s).withHeaders (corsHeaders (r.header "Origin")))
  | unknown (hnone : resolve (r.header "Origin") = none)
      (htoken : e.changesState = true → r.header csrfHeader ≠ "") :
      ServeCase cfg env resolve e r s ((handle cfg env e r s).withHeaders varyOrigin)
  | known {siteID : ℕ} (hsite : resolve (r.header "Origin") = some siteID) :
      ServeCase cfg env resolve e r s
        ((handle cfg env e { r with siteFromOrigin := some siteID } s).withHeaders
          (corsHeaders (r.header "Origin")))

private theorem serveCase_page {resolve : String → Option ℕ} {x : Exchange}
    (h : CorsCase resolve (handle cfg env .page) r s x) :
    ServeCase cfg env resolve .page r s x := by
  cases h with
  | refused body => exact .refused 403 body rfl
  | preflight _ hsite => exact .answered 204 "" hsite
  | unknown _ hnone => exact .unknown hnone fun h => nomatch h
  | known _ hsite => exact .known hsite

private theorem serveCase_api {resolve : String → Option ℕ} {e : Endpoint} {x : Exchange}
    (hmethod : r.method ≠ .options → r.method = e.method)
    (h : CorsCase resolve (requireCSRF cfg.signer (handle cfg env e)) r s x) :
    ServeCase cfg env resolve e r s x := by
  cases h with
  | refused body => exact .refused 403 body rfl
  | preflight _ hsite => exact .answered 204 "" hsite
  | unknown hoptions hnone =>
    simp only [requireCSRF]
    split_ifs with hcsrf
    · exact .refused 403 _ rfl
    · refine .unknown hnone fun hchanges => ?_
      have hchanging : isStateChanging r.method = true := by
        rw [hmethod hoptions, isStateChanging_method, hchanges]
      apply header_ne_of_verifyCSRF (k := cfg.signer)
      by_contra hfails
      exact hcsrf ⟨hchanging, hfails⟩
  | known hoptions hsite =>
    simp only [requireCSRF]
    split_ifs with hcsrf
    · exact .answered 403 _ hsite
    · exact .known hsite

theorem serveCase (cfg : Config) (env : Env cfg) (resolve : String → Option ℕ) (e : Endpoint)
    (r : HttpRequest) (s : State) (horigin : r.header "Origin" ≠ "") :
    ServeCase cfg env resolve e r s (serve cfg env resolve e r s) := by
  simp only [serve]
  split_ifs with hmounted hmethod he
  · exact ServeCase.refused 404 "404 page not found" (List.lookup_nil)
  · exact ServeCase.refused 405 "" (List.lookup_nil)
  · subst he
    exact serveCase_page (corsCase cfg.fold resolve _ r s horigin)
  · refine serveCase_api (fun hoptions => ?_) (corsCase cfg.fold resolve _ r s horigin)
    by_contra hne
    exact hmethod ⟨hne, hoptions⟩

end Statnive.PrivacyRoutes
