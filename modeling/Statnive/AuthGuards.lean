import Statnive.AuthTypes

/-!
# The guards of the dashboard

The API-token middleware attaches a principal to the request, and the guards of a route let
it through, possibly with other grants, or answer themselves.
-/

namespace Statnive.AuthGuards

open AuthTypes

/-- A token minted from the dashboard, by an existing user; `expiresAt = 0` never expires. -/
structure MintedToken where
  tokenID : ℕ
  userID : UserID
  name : String
  siteIDs : List ℕ
  role : Role
  expiresAt : ℕ := 0
  user_ne : userID ≠ uuidNil

def MintedToken.grants (t : MintedToken) : Grants := t.siteIDs.map (fun id => (id, t.role))

/-- A token of the configuration, with its decoded hash. -/
structure StaticToken where
  hashBytes : List UInt8
  siteID : ℕ
  label : String
  role : Role

/-- `sha256` of the bearer token is looked up among the static tokens and then, as hex, in
the token store; `none` also stands for an error of the store. -/
structure TokenDeps where
  sha256 : String → List UInt8
  apiTokens : List StaticToken := []
  dynamicTokens : Option (List UInt8 → Option MintedToken) := none

/-- The principal of a minted token. -/
def MintedToken.principal (t : MintedToken) : User where
  userID := t.userID
  role := t.role
  username := "mcp-token:" ++ t.name
  sites := some t.grants

/-- What a request carries for the guards: the user of its session, its bearer token, and the
query parameters `site` and `site_id`. -/
structure AuthRequest where
  session : Option User := none
  bearerToken : Option String := none
  site : String := ""
  siteIDParam : String := ""

def apiTokenMiddleware (deps : TokenDeps) (r : AuthRequest) : Option User :=
  match r.session with
  | some u => some u
  | none => match r.bearerToken with
    | none => none
    | some raw =>
      match deps.apiTokens.find? (fun t => t.hashBytes = deps.sha256 raw) with
      | some t => some { siteID := t.siteID, role := t.role, username := "api:" ++ t.label }
      | none => match deps.dynamicTokens with
        | none => none
        | some lookupActive => (lookupActive (deps.sha256 raw)).map MintedToken.principal

/-- The request is authenticated with the minted token. -/
def MintedRequest (deps : TokenDeps) (r : AuthRequest) (t : MintedToken) : Prop :=
  r.session = none ∧ ∃ raw lookupActive, r.bearerToken = some raw ∧
    deps.apiTokens.find? (fun s => s.hashBytes = deps.sha256 raw) = none ∧
    deps.dynamicTokens = some lookupActive ∧ lookupActive (deps.sha256 raw) = some t

theorem apiTokenMiddleware_minted {deps : TokenDeps} {r : AuthRequest} {t : MintedToken}
    (h : MintedRequest deps r t) : apiTokenMiddleware deps r = some t.principal := by
  obtain ⟨hs, raw, lookupActive, hraw, hstatic, hdyn, ht⟩ := h
  simp only [apiTokenMiddleware, hs, hraw, hstatic, hdyn, ht, Option.map_some]

/-- `LoadUserSites`, where `none` is an error. -/
abbrev SitesStore := UserID → Option Grants

inductive Outcome where
  | unauthorized | badRequest | forbidden | internalError
  | next (u : User) (activeSiteID : Option ℕ)
  deriving DecidableEq

def digitValue (c : Char) : Option ℕ :=
  if '0' ≤ c ∧ c ≤ '9' then some (c.toNat - '0'.toNat) else none

/-- `strconv.ParseUint` to base 10 and 32 bits. -/
def parseUint32 (raw : String) : Option ℕ :=
  if raw = "" then none
  else match raw.toList.mapM digitValue with
  | none => none
  | some ds =>
    let n := ds.foldl (fun n d => 10 * n + d) 0
    if n < 4294967296 then some n else none

def parseSiteID (raw : String) : Option ℕ :=
  match parseUint32 raw with
  | some n => if n = 0 then none else some n
  | none => none

theorem parseSiteID_ne_zero {raw : String} {siteID : ℕ} (h : parseSiteID raw = some siteID) :
    siteID ≠ 0 := by
  simp only [parseSiteID] at h
  cases hn : parseUint32 raw with
  | none => simp [hn] at h
  | some n =>
    by_cases hzero : n = 0
    · simp [hn, hzero] at h
    · obtain rfl : n = siteID := by simpa [hn, hzero] using h
      exact hzero

def hasAnyRole (grants : Grants) (required : Role) : Bool :=
  grants.any (fun kv => roleRank kv.2 ≤ roleRank required)

def requireSiteRole (sitesStore : SitesStore) (required : Role) (r : AuthRequest) (u : User) :
    Outcome :=
  let loaded := if u.userID = uuidNil then some [] else sitesStore u.userID
  match loaded with
  | none => .internalError
  | some grants =>
    if !hasAnyRole grants required then .forbidden
    else
      let scopedUser : User := { u with sites := some grants }
      if r.siteIDParam = "" then .next scopedUser none
      else match parseSiteID r.siteIDParam with
      | none => .badRequest
      | some siteID =>
        if scopedUser.canAccessSite siteID required then .next scopedUser (some siteID)
        else .forbidden

def scopeUserToSite (sitesStore : Option SitesStore) (required : Role) (u : User) (siteID : ℕ) :
    Option User :=
  if u.userID = uuidNil then
    if u.siteID ≠ 0 && u.siteID ≠ siteID then none
    else if roleRank required < roleRank u.role then none
    else some { u with sites := some [(siteID, u.role)] }
  else match sitesStore with
  | none =>
    if u.siteID ≠ siteID then none
    else if roleRank required < roleRank u.role then none
    else some { u with sites := none }
  | some store => match store u.userID with
    | none => none
    | some grants => match grants.get siteID with
      | none => none
      | some role =>
        if roleRank required < roleRank role then none else some { u with sites := some grants }

def requireDashboardSiteAccess (sitesStore : Option SitesStore) (required : Role)
    (r : AuthRequest) (u : User) : Outcome :=
  match parseSiteID r.site with
  | none => .badRequest
  | some siteID => match scopeUserToSite sitesStore required u siteID with
    | none => .forbidden
    | some scopedUser => .next scopedUser (some siteID)

def hydrateActorGrants (sitesStore : Option SitesStore) (u : User) : Outcome :=
  if u.userID = uuidNil then .next u none
  else match sitesStore, u.sites with
  | some store, none => match store u.userID with
    | none => .next u none
    | some grants => .next { u with sites := some grants } none
  | _, _ => .next u none

/-- What stands between authentication and the handler, behind `RequireRole`. -/
inductive SiteGuard where
  | unguarded
  | hydrate (sitesStore : Option SitesStore)
  | siteRole (sitesStore : SitesStore) (required : Role)
  | dashboardSiteAccess (sitesStore : Option SitesStore) (required : Role)

def SiteGuard.serve (guard : SiteGuard) (r : AuthRequest) (u : User) : Outcome :=
  match guard with
  | .unguarded => .next u none
  | .hydrate sitesStore => hydrateActorGrants sitesStore u
  | .siteRole sitesStore required => requireSiteRole sitesStore required r u
  | .dashboardSiteAccess sitesStore required =>
    requireDashboardSiteAccess sitesStore required r u

/-- A route names the roles of `RequireRole`, if it has that guard. -/
structure Route where
  allowed : Option (List Role)
  guard : SiteGuard

def Route.serve (route : Route) (r : AuthRequest) (user : Option User) : Outcome :=
  match user with
  | none => .unauthorized
  | some u =>
    if route.allowed.any (fun allowed => !allowed.contains u.role) then .forbidden
    else route.guard.serve r u

def siteListing (userSites : Option SitesStore) : Route :=
  ⟨some [.admin, .viewer, .api], .hydrate userSites⟩

def siteScoped (userSites : Option SitesStore) : Route :=
  ⟨some [.admin, .viewer, .api], .dashboardSiteAccess userSites .api⟩

/-- `userSites` is nil unless the flag `per_site_admin` is set. -/
def adminRoute (userSites : Option SitesStore) : Route :=
  match userSites with
  | some store => ⟨none, .siteRole store .admin⟩
  | none => ⟨some [.admin], .unguarded⟩

end Statnive.AuthGuards
