import Statnive.GoalsHandlers
import Statnive.McpBudget
import Statnive.SiteRegistry
import Statnive.TimeWindow
import Statnive.TracedCalls

/-!
# The tools of the MCP server

A call of a tool passes the floor of its role and the budget of its actor. A tool about one
site resolves its argument and checks the grants of the actor before it reads.
-/

namespace Statnive.McpServer

open AuthGuards (parseSiteID)
open AuthTypes DashboardFilter TracedCalls TracedCalls.Traced
open GoalsHandlers (Goal MatchType)
open IngestHandler (trimSpace)
open McpBudget (Answer Principal Query isWildcardActor)
open SiteRegistry (SitePolicy)
open TimeWindow (RangeError)
open ZonedTime (Zone)

inductive Tool where
  | listSites | overview | trend | sources | pages | campaigns | seo | realtime | geo | compare
  | propsList | goalsList | myAccess | eventAudit | siteConfig | about | systemHealth | devices
  | funnel
  deriving DecidableEq

/-- An entry of the catalogue. `reserved` only keeps a tool off `tools/list`. -/
structure ToolDef where
  name : String
  roleClass : Role := .api
  isScoped : Bool := true
  maxCallsPerMin : ℤ := 0
  reserved : Bool := false

def Tool.toolDef : Tool → ToolDef
  | .listSites => { name := "list_sites", isScoped := false }
  | .overview => { name := "overview" }
  | .trend => { name := "trend" }
  | .sources => { name := "sources" }
  | .pages => { name := "pages" }
  | .campaigns => { name := "campaigns" }
  | .seo => { name := "seo" }
  | .realtime => { name := "realtime" }
  | .geo => { name := "geo" }
  | .compare => { name := "compare" }
  | .propsList => { name := "props_list" }
  | .goalsList => { name := "goals_list" }
  | .myAccess => { name := "my_access", isScoped := false }
  | .eventAudit => { name := "event_audit", roleClass := .admin }
  | .siteConfig => { name := "site_config", roleClass := .admin }
  | .about => { name := "about", isScoped := false }
  | .systemHealth => { name := "system_health", roleClass := .admin, isScoped := false }
  | .devices => { name := "devices", reserved := true }
  | .funnel => { name := "funnel", reserved := true }

def catalog : List Tool :=
  [.listSites, .overview, .trend, .sources, .pages, .campaigns, .seo, .realtime, .geo, .compare,
    .propsList, .goalsList, .myAccess, .eventAudit, .siteConfig, .about, .systemHealth, .devices,
    .funnel]

def findTool (name : String) : Option Tool := catalog.find? (fun tool => tool.toolDef.name = name)

structure FiltersArg where
  path : String := ""
  referrer : String := ""
  channel : String := ""
  utmSource : String := ""
  utmMedium : String := ""
  utmCampaign : String := ""
  utmContent : String := ""
  utmTerm : String := ""
  country : String := ""
  browser : String := ""
  os : String := ""
  device : String := ""
  hitProps : List (String × String) := []
  sessionProps : List (String × String) := []
  userProps : List (String × String) := []

structure ToolArgs where
  site : String := ""
  range : String := ""
  filters : FiltersArg := {}
  limit : ℤ := 0
  sort : String := ""
  dir : String := ""
  search : String := ""
  dimension : String := ""
  goal : String := ""
  scope : String := ""

/-- `arguments = none` cannot be decoded. -/
structure CallParams where
  name : String
  arguments : Option ToolArgs

structure Site where
  id : ℕ
  hostname : String
  enabled : Bool
  tz : String
  currency : String
  deriving DecidableEq

structure SiteAdmin extends Site, SitePolicy where
  slug : String
  plan : String
  createdAt : ℤ

inductive StoreQuery where
  | overview | trend | sources | sourcesByChannel | pages | seo | campaigns | realtime | devices
  | funnel (steps : List String)
  | geo | geoTopCountries
  | propNames (scope : String) (limit : ℤ)
  | compare (dimension goal : String)
  deriving DecidableEq

inductive RegistryRead where
  | list
  | siteByID (siteID : ℕ)
  | siteIDBySlug (slug : String)
  | sitePolicy (hostname : String)
  deriving DecidableEq

/-- What a call asks for: an operation on its budget, what it reads to resolve its site, and
all that it reads else. -/
inductive Ask where
  | budget (q : Query)
  | resolve (r : RegistryRead)
  | registry (r : RegistryRead)
  | store (q : StoreQuery) (f : Filter)
  | goalsForSite (siteID : ℕ)
  | eventNames (siteID : ℕ) (fromTime toTime : ℤ)
  | ping

structure EventNameCount where
  name : String
  count : ℕ

structure GoalSummary where
  name : String
  pattern : String
  matchType : MatchType
  value : ℕ

structure AccessInfo where
  role : Role
  wildcard : Bool := false
  sites : Grants := []

inductive Liveness where
  | unknown | down | up

/-- The results of the tools; `α` is what the store returns. -/
inductive Result (α : Type) where
  | sites (rows : List Site)
  | stored (answers : List α)
  | goals (summaries : List GoalSummary)
  | access (info : AccessInfo)
  | events (rows : List EventNameCount) (distinct : ℕ) (overCap : Bool)
  | config (row : SiteAdmin)
  | about
  | health (clickhouse : Liveness)

inductive LookupError where
  | unknown | failed

inductive StoreError where
  | notImplemented | invalidFilter | failed

/-- Why a call is refused, with what the text of the refusal names. -/
inductive Refusal where
  | invalidParams
  | unknownTool (name : String)
  | unauthenticated
  | insufficientRole (name : String)
  | invalidArguments
  | budgetExhausted (retryAfter : ℤ)
  | siteRequired
  | unknownSite (raw : String)
  | resolutionFailed
  | notAuthorized
  | badRange (e : RangeError)
  | badFilter (e : FilterError)
  | compareRequires
  | notAvailable
  | storeFilter
  | queryFailed
  | encodingFailed

/-- The registry, the stores and the budget, as they answer during the call. A dependency that
is not wired is `none`. -/
structure Backend (α : Type) where
  list : Except LookupError (List Site)
  lookupSiteByID : ℕ → Except LookupError SiteAdmin
  lookupSiteIDBySlug : String → Except LookupError ℕ
  lookupSitePolicy : String → Except LookupError (ℕ × SitePolicy)
  store : StoreQuery → Filter → Except StoreError α
  rows : α → ℕ
  goals : Option (ℕ → List Goal) := none
  concrete : Option (ℕ → ℤ → ℤ → Except StoreError (List EventNameCount)) := none
  health : Option Bool := none
  budget : Query → Answer
  locationFor : String → Zone
  now : ℤ
  geoEnabled : Bool := false
  encodes : Result α → Bool := fun _ => true

variable {α : Type}

/-- A number is an id as it is, and other texts are slugs or else hostnames. -/
def resolveSiteID (b : Backend α) (raw : String) : Traced RegistryRead Refusal ℕ :=
  match parseSiteID raw with
  | some siteID => pure siteID
  | none => do
    let slug ← ask (.siteIDBySlug raw) (.ok (b.lookupSiteIDBySlug raw))
    match slug with
    | .ok siteID => pure siteID
    | .error .failed => fail .resolutionFailed
    | .error .unknown => do
      let policy ← ask (.sitePolicy raw) (.ok (b.lookupSitePolicy raw))
      match policy with
      | .ok (siteID, _) => pure siteID
      | .error .unknown => fail (.unknownSite raw)
      | .error .failed => fail .resolutionFailed

/-- No access is granted by this. -/
def resolveSite (b : Backend α) (site : String) : Traced RegistryRead Refusal (ℕ × Zone) :=
  let raw := trimSpace site
  if raw = "" then fail .siteRequired
  else do
    let siteID ← resolveSiteID b raw
    let row ← ask (.siteByID siteID)
      ((b.lookupSiteByID siteID).mapError fun _ => Refusal.unknownSite raw)
    return (siteID, b.locationFor row.tz)

def maxToolLimit : ℤ := 500

def clampLimit (n : ℤ) : ℤ := if n < 0 then 0 else if maxToolLimit < n then maxToolLimit else n

def buildFilter (siteID : ℕ) (args : ToolArgs) (loc : Zone) (now : ℤ) : Except Refusal Filter := do
  let (fromTime, toTime) ← (TimeWindow.parseRange loc args.range now).mapError Refusal.badRange
  let f : Filter :=
    { siteID := siteID, fromTime := fromTime, toTime := toTime
      path := args.filters.path, referrer := args.filters.referrer
      channel := args.filters.channel, utmSource := args.filters.utmSource
      utmMedium := args.filters.utmMedium, utmCampaign := args.filters.utmCampaign
      utmContent := args.filters.utmContent, utmTerm := args.filters.utmTerm
      country := args.filters.country, browser := args.filters.browser
      os := args.filters.os, device := args.filters.device
      hitProps := args.filters.hitProps, sessionProps := args.filters.sessionProps
      userProps := args.filters.userProps
      sort := args.sort, dir := args.dir, search := args.search, limit := clampLimit args.limit }
  f.validate.mapError Refusal.badFilter
  return f

def spend (b : Backend α) (q : Query) : Traced Ask Refusal Answer := ask (.budget q) (.ok (b.budget q))

def prepareScope (b : Backend α) (actor : User) (args : ToolArgs) : Traced Ask Refusal Filter := do
  let (siteID, loc) ← (resolveSite b args.site).lift Ask.resolve id
  if !actor.actorCanReadSite siteID then fail .notAuthorized
  else do
    let f ← ofExcept (buildFilter siteID args loc b.now)
    let _ ← spend b (.noteSite siteID)
    return f

/-- Without a scope, `filter` is the zero filter, which no global tool reads. -/
structure ToolCtx where
  actor : User
  args : ToolArgs
  filter : Filter

def noFilter : Filter := { siteID := 0, fromTime := zeroTime, toTime := zeroTime }

def handlerError : StoreError → Refusal
  | .notImplemented => .notAvailable
  | .invalidFilter => .storeFilter
  | .failed => .queryFailed

/-- Queries of the store one after another, all of the filter of the call. -/
def queryStore (b : Backend α) (f : Filter) : List StoreQuery → Traced Ask Refusal (List α)
  | [] => pure []
  | q :: qs => do
    let a ← ask (.store q f) ((b.store q f).mapError handlerError)
    let rest ← queryStore b f qs
    return a :: rest

def stored (b : Backend α) (f : Filter) (qs : List StoreQuery) :
    Traced Ask Refusal (Result α × ℕ) := do
  let answers ← queryStore b f qs
  return (.stored answers, (answers.map b.rows).sum)

def filterSitesForActor (u : User) (all : List Site) : List Site :=
  if isWildcardActor u then all else all.filter fun site => u.actorCanReadSite site.id

/-- The keys of a map, in order. -/
def siteIDs (grants : Grants) : List ℕ := (grants.map Prod.fst).dedup.insertionSort (· ≤ ·)

/-- The access of the actor itself. -/
def accessInfo (u : User) : AccessInfo :=
  if isWildcardActor u then { role := u.role, wildcard := true }
  else match u.sites with
  | some grants =>
    { role := u.role
      sites := (siteIDs grants).filterMap fun id => (grants.get id).map fun role => (id, role) }
  | none => { role := u.role, sites := if u.siteID ≠ 0 then [(u.siteID, u.role)] else [] }

def Goal.summary (g : Goal) : GoalSummary := ⟨g.name, g.pattern, g.matchType, g.value⟩

def eventNameCapCeiling : ℕ := 3

def maxEventAuditNames : ℕ := 500

def handler (b : Backend α) (tc : ToolCtx) : Tool → Traced Ask Refusal (Result α × ℕ)
  | .listSites => do
    let all ← ask (.registry .list) (b.list.mapError fun _ => Refusal.queryFailed)
    let allowed := filterSitesForActor tc.actor all
    return (.sites allowed, allowed.length)
  | .overview => stored b tc.filter [.overview]
  | .trend => stored b tc.filter [.trend]
  | .sources => stored b tc.filter [.sources, .sourcesByChannel]
  | .pages => stored b tc.filter [.pages]
  | .campaigns => stored b tc.filter [.campaigns]
  | .seo => stored b tc.filter [.seo]
  | .realtime => stored b tc.filter [.realtime]
  | .geo =>
    if !b.geoEnabled then fail .notAvailable else stored b tc.filter [.geoTopCountries, .geo]
  | .compare =>
    if tc.args.dimension = "" || tc.args.goal = "" then fail .compareRequires
    else stored b tc.filter [.compare tc.args.dimension tc.args.goal]
  | .propsList =>
    let scope := if tc.args.scope = "" then "hit" else tc.args.scope
    stored b tc.filter [.propNames scope tc.filter.effectiveLimit]
  | .goalsList => match b.goals with
    | none => pure (.goals [], 0)
    | some goalsForSite => do
      let gs ← ask (.goalsForSite tc.filter.siteID) (.ok (goalsForSite tc.filter.siteID))
      return (.goals (gs.map Goal.summary), gs.length)
  | .myAccess =>
    let info := accessInfo tc.actor
    pure (.access info, info.sites.length + 1)
  | .eventAudit => match b.concrete with
    | none => fail .notAvailable
    | some eventNames => do
      let f := tc.filter
      let rows ← ask (.eventNames f.siteID f.fromTime f.toTime)
        ((eventNames f.siteID f.fromTime f.toTime).mapError handlerError)
      return (.events (rows.take maxEventAuditNames) rows.length
        (decide (eventNameCapCeiling < rows.length)), rows.length)
  | .siteConfig => do
    let row ← ask (.registry (.siteByID tc.filter.siteID))
      ((b.lookupSiteByID tc.filter.siteID).mapError fun _ => Refusal.queryFailed)
    return (.config row, 1)
  | .about => pure (.about, 1)
  | .systemHealth => match b.health with
    | none => pure (.health .unknown, 1)
    | some up => do
      let alive ← ask .ping (.ok up)
      return (.health (if alive then .up else .down), 1)
  | .devices => stored b tc.filter [.devices]
  | .funnel => stored b tc.filter [.funnel []]

def meetsRoleFloor (u : User) (required : Role) : Bool := roleRank u.role ≤ roleRank required

def filterOf (b : Backend α) (actor : User) (tool : Tool) (args : ToolArgs) :
    Traced Ask Refusal Filter :=
  if tool.toolDef.isScoped then prepareScope b actor args else pure noFilter

def runTool (b : Backend α) (actor : User) (tool : Tool) (args : ToolArgs) :
    Traced Ask Refusal (Result α) := do
  let filter ← filterOf b actor tool args
  let (result, rows) ← handler b ⟨actor, args, filter⟩ tool
  if !b.encodes result then fail .encodingFailed
  else do
    let _ ← spend b (.charge rows)
    return result

/-- `params = none` cannot be decoded, and `actor = none` is not authenticated. -/
def toolsCall (b : Backend α) (actor : Option User) (params : Option CallParams) :
    Traced Ask Refusal (Result α) :=
  match params with
  | none => fail .invalidParams
  | some p => match findTool p.name with
    | none => fail (.unknownTool p.name)
    | some tool => match actor with
      | none => fail .unauthenticated
      | some actor =>
        if !meetsRoleFloor actor tool.toolDef.roleClass then fail (.insufficientRole p.name)
        else match p.arguments with
          | none => fail .invalidArguments
          | some args => do
            let answer ← spend b (.reserve tool.toolDef.maxCallsPerMin)
            match answer with
            | .refused retryAfter => fail (.budgetExhausted retryAfter)
            | _ => runTool b actor tool args

end Statnive.McpServer
