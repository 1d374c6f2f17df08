import Statnive.CookieJar
import Statnive.IngestHandler
import Statnive.Suppression

/-!
# The consent and opt-out handlers

`Consent` for `POST /api/privacy/consent` and `OptOut` for `POST /api/privacy/opt-out`, over
the suppression list.
-/

namespace Statnive.ConsentHandlers

open CookieJar PrivacyPolicy VisitorIdentity SuppressionRecord Suppression

/-- `siteFromOrigin` is what the CORS middleware left in the context. -/
structure PrivacyRequest extends Request where
  siteFromOrigin : Option ℕ := none
  host : String := ""
  urlHost : String := ""
  tls : Bool := false

inductive EventName where
  | consentGiven | consentWithdrawn | optOutReceived
  deriving DecidableEq

structure AuditEvent where
  name : EventName
  siteID : ℕ
  cookieIDHash : String
  deriving DecidableEq

structure Response where
  status : ℕ
  body : String := ""
  cookies : List Cookie := []
  audit : Option AuditEvent := none
  deriving DecidableEq

/-- `decodeAction` is the JSON decoder of the consent request. -/
structure Config where
  key : Keyed
  secret_ne : key.masterSecret ≠ []
  decodeAction : Bytes → Option String

/-- `LookupSitePolicy` at the time of a request. -/
abbrev SitesResolver := String → Option (ℕ × SitePolicy)

def statusText : ℕ → String
  | 400 => "Bad Request"
  | 404 => "Not Found"
  | _ => ""

def statusError (status : ℕ) : Response := { status := status, body := statusText status }

/-- A year, in seconds. -/
def consentCookieMaxAge : ℤ := 365 * 24 * 3600

def requestHost (r : PrivacyRequest) : String :=
  let host := if r.host = "" then r.urlHost else r.host
  String.ofList (host.toList.takeWhile (· ≠ ':'))

def isHTTPS (r : PrivacyRequest) : Bool := r.tls || r.header "X-Forwarded-Proto" = "https"

def lookupSite (sites : SitesResolver) (hostname : String) : Except ℕ ℕ :=
  match sites hostname with
  | none => .error 404
  | some (id, _) => if id = 0 then .error 404 else .ok id

def resolveSiteID (sites : SitesResolver) (r : PrivacyRequest) : Except ℕ ℕ :=
  let hint := r.header "X-Statnive-Site"
  let fromHeaders :=
    if hint ≠ "" then lookupSite sites hint
    else if requestHost r = "" then .error 400
    else lookupSite sites (requestHost r)
  match r.siteFromOrigin with
  | some id => if id ≠ 0 then .ok id else fromHeaders
  | none => fromHeaders

def marker (name value : String) (secure : Bool) : Cookie where
  name := name
  value := value
  maxAge := consentCookieMaxAge
  secure := secure
  sameSite := "None"
  partitioned := true

def expireCookie (name : String) (secure : Bool) : Cookie where
  name := name
  value := ""
  maxAge := -1
  secure := secure
  sameSite := "None"
  partitioned := true

/-- The `_statnive` cookie of a request, if it is not empty. -/
def statniveCookie (r : Request) : Option String := (r.cookie cookieName).filter (· ≠ "")

def readOrMintStatnive (r : Request) (uuid : IngestHandler.UUID) (secure : Bool) :
    String × List Cookie :=
  match statniveCookie r with
  | some v => (v, [])
  | none => (uuid, [marker cookieName uuid secure])

/-- `Add`, and whether it returned nil. -/
def addHash (s : State) (hash : Hash) (unixAt : Int64) (outcome : Outcome) : Bool × State :=
  match s.list with
  | none => (false, s)
  | some l => (addReturnsNil s hash outcome, add s l hash unixAt outcome)

def internalError (cookies : List Cookie) : Response :=
  { status := 500, body := "internal error", cookies := cookies }

def give (cfg : Config) (siteID : ℕ) (r : Request) (uuid : IngestHandler.UUID) (secure : Bool) :
    Response :=
  let rawID := readOrMintStatnive r uuid secure
  { status := 204
    cookies := rawID.2 ++ [marker (consentCookieName siteID) consentCookieValue secure]
    audit := some ⟨.consentGiven, siteID, hexCookieIDHash cfg.key siteID rawID.1⟩ }

def withdraw (cfg : Config) (s : State) (siteID : ℕ) (r : Request) (secure : Bool)
    (unixAt : Int64) (outcome : Outcome) : Response × State :=
  match statniveCookie r with
  | none => ({ status := 401, body := "no statnive cookie" }, s)
  | some v =>
    let expired := [expireCookie (consentCookieName siteID) secure,
      expireCookie legacyConsentCookieName secure, expireCookie cookieName secure]
    match addHash s (Hash.ofCookie cfg.key siteID v) unixAt outcome with
    -- the cookies were expired before the list was asked
    | (false, s') => (internalError expired, s')
    | (true, s') =>
      ({ status := 204
         cookies := expired ++ [marker (optoutCookieName siteID) "v1" secure]
         audit := some ⟨.consentWithdrawn, siteID, hexCookieIDHash cfg.key siteID v⟩ }, s')

def consent (cfg : Config) (sites : SitesResolver) (s : State) (r : PrivacyRequest)
    (uuid : IngestHandler.UUID) (unixAt : Int64) (outcome : Outcome) : Response × State :=
  match resolveSiteID sites r with
  | .error status => (statusError status, s)
  | .ok siteID => match r.body.toOption.bind cfg.decodeAction with
    | none => ({ status := 400, body := "bad request" }, s)
    | some action =>
      if action = "give" then (give cfg siteID r.toRequest uuid (isHTTPS r), s)
      else if action = "withdraw" then
        withdraw cfg s siteID r.toRequest (isHTTPS r) unixAt outcome
      else ({ status := 400, body := "action must be 'give' or 'withdraw'" }, s)

def optOut (cfg : Config) (sites : SitesResolver) (s : State) (r : PrivacyRequest)
    (unixAt : Int64) (outcome : Outcome) : Response × State :=
  match resolveSiteID sites r with
  | .error status => (statusError status, s)
  | .ok siteID =>
    let done (hash : String) : Response :=
      { status := 204
        cookies := [marker (optoutCookieName siteID) "v1" (isHTTPS r)]
        audit := some ⟨.optOutReceived, siteID, hash⟩ }
    match statniveCookie r.toRequest with
    | none => (done "", s)
    | some v => match addHash s (Hash.ofCookie cfg.key siteID v) unixAt outcome with
      | (false, s') => (internalError [], s')
      | (true, s') => (done (hexCookieIDHash cfg.key siteID v), s')

end Statnive.ConsentHandlers
