import Statnive.PrivacyRoutes
import Statnive.RegistryInvariants

/-!
# Pages of other origins

A browser that sends its cookies and the origin of the page with every request, asks with a
preflight before it sends a header that is not simple, and shows a reply to the page where the
reply allows its origin.
-/

namespace Statnive.CrossSitePages

open LabelledRuns CookieJar PrivacyPolicy CSRFTokens PrivacyRoutes
open ConsentHandlers (lookupSite resolveSiteID)
open SiteRegistry (SiteTables SiteRow listAdmin sampleTables)
open RegistryInvariants (WellFormed exec_indexLookup_ne_zero)
open IngestHandler (trimSpace)

/-- A page of another origin. The browser and the proxies add the other headers to its requests,
of which none is a token. -/
structure Page where
  origin : String
  origin_ne : origin ≠ ""
  ambient : String → String
  ambient_token : ambient csrfHeader = ""
  remoteAddr : String
  host : String
  urlHost : String
  tls : Bool

/-- A request of the page; `headers` are those that its script sets. -/
structure Fetch where
  endpoint : Endpoint
  method : Method
  site : String := ""
  headers : List (String × String) := []
  body : Except ReadError Bytes := .ok []

def simpleTypes : List String :=
  ["application/x-www-form-urlencoded", "multipart/form-data", "text/plain"]

def isSimple (h : String × String) : Bool :=
  ["Accept", "Accept-Language", "Content-Language", "Range"].contains h.1 ||
    h.1 = "Content-Type" &&
      simpleTypes.contains (trimSpace (String.ofList (h.2.toList.takeWhile (· ≠ ';'))))

/-- The names of the headers that need a preflight. -/
def Fetch.unsafeHeaders (f : Fetch) : List String :=
  (f.headers.filter fun h => !isSimple h).map Prod.fst

def Page.request (page : Page) (jar : Jar) (f : Fetch) : HttpRequest where
  header name :=
    if name = "Origin" then page.origin else (f.headers.lookup name).getD (page.ambient name)
  cookies := jar
  remoteAddr := page.remoteAddr
  body := f.body
  host := page.host
  urlHost := page.urlHost
  tls := page.tls
  method := f.method
  site := f.site

/-- The preflight of a request is the browser's own, and has no cookies. -/
def Page.preflight (page : Page) (f : Fetch) : HttpRequest :=
  page.request [] { f with method := .options, headers := [], body := .ok [] }

def methodName : Method → String
  | .get => "GET"
  | .head => "HEAD"
  | .post => "POST"
  | .put => "PUT"
  | .patch => "PATCH"
  | .delete => "DELETE"
  | .options => "OPTIONS"
  | .other name => name

/-- The values of a header that is a list. -/
def listed (value : String) : List String :=
  (value.toList.splitOn ',').map fun cs => trimSpace (String.ofList cs)

/-- The reply allows the origin, with credentials. -/
def Allows (reply : Reply) (origin : String) : Prop :=
  reply.header allowOrigin = origin ∧ reply.header allowCredentials = "true"

instance (reply : Reply) (origin : String) : Decidable (Allows reply origin) :=
  inferInstanceAs (Decidable (_ ∧ _))

def Admits (reply : Reply) (origin : String) (f : Fetch) : Prop :=
  Allows reply origin ∧ 200 ≤ reply.status ∧ reply.status < 300 ∧
    methodName f.method ∈ listed (reply.header "Access-Control-Allow-Methods") ∧
      ∀ name ∈ f.unsafeHeaders, name ∈ listed (reply.header "Access-Control-Allow-Headers")

instance (reply : Reply) (origin : String) (f : Fetch) : Decidable (Admits reply origin f) :=
  inferInstanceAs (Decidable (_ ∧ _))

/-- A preflight that admitted `g` admits `f` as well. -/
def Fetch.Covers (g f : Fetch) : Prop :=
  g.endpoint = f.endpoint ∧ g.method = f.method ∧ f.unsafeHeaders ⊆ g.unsafeHeaders

instance (g f : Fetch) : Decidable (g.Covers f) :=
  inferInstanceAs (Decidable (_ ∧ _ ∧ ∀ name ∈ f.unsafeHeaders, name ∈ g.unsafeHeaders))

/-- The cookies that the browser keeps, the requests that a preflight admitted, and the server. -/
structure World where
  jar : Jar
  admitted : List Fetch := []
  server : State

/-- A request of the page or its preflight, with what the server meets then. -/
structure Event (cfg : Config) where
  fetch : Fetch
  preflight : Bool := false
  env : Env cfg

variable {cfg : Config} (resolve : String → Option ℕ) (page : Page)

def Event.request (w : World) (e : Event cfg) : HttpRequest :=
  if e.preflight then page.preflight e.fetch else page.request w.jar e.fetch

def exchange (w : World) (e : Event cfg) : Exchange :=
  serve cfg e.env resolve e.fetch.endpoint (e.request page w) w.server

/-- The script of the page sees replies to its own requests. -/
def Shown (w : World) (e : Event cfg) : Prop :=
  e.preflight = false ∧ Allows (exchange resolve page w e).reply page.origin

def step (w : World) (e : Event cfg) : Option World :=
  let x := exchange resolve page w e
  if e.preflight then
    some { w with
      admitted := if Admits x.reply page.origin e.fetch then e.fetch :: w.admitted else w.admitted
      server := x.state }
  else if e.fetch.unsafeHeaders = [] ∨ ∃ g ∈ w.admitted, g.Covers e.fetch then
    some { w with jar := w.jar.applyAll x.reply.cookies, server := x.state }
  else none

/-- A handler that changes state acts on the site of the page. -/
def Acts (w : World) (e : Event cfg) : Prop :=
  ∀ run, (exchange resolve page w e).ran = some run → run.endpoint.changesState = true →
    ∃ siteID, resolve page.origin = some siteID ∧ run.site = some siteID ∧
      ActsOn cfg siteID (e.request page w).toRequest w.server (exchange resolve page w e)

/-- A reply that the page is shown is about the site of the page. -/
def Told (w : World) (e : Event cfg) : Prop :=
  Shown resolve page w e → ∃ siteID, resolve page.origin = some siteID ∧
    Concerns e.env.sites w.server.rows siteID (exchange resolve page w e).reply.body

/-- The same but for `/privacy`, which is about the site that its parameter names. -/
def ToldBySite (w : World) (e : Event cfg) : Prop :=
  Shown resolve page w e → ∃ siteID, resolve page.origin = some siteID ∧
    if e.fetch.endpoint = .page then
      ∀ token site, (exchange resolve page w e).reply.body = .page token site →
        site = e.fetch.site ∧ (site ≠ "" → siteValidator e.env.sites site = true)
    else Concerns e.env.sites w.server.rows siteID (exchange resolve page w e).reply.body

variable {resolve page} {w : World} {e : Event cfg}

theorem request_origin (page : Page) (w : World) (e : Event cfg) :
    (e.request page w).header "Origin" = page.origin := by
  simp only [Event.request]
  split_ifs <;> rfl

/-- A script that sends a token needs a preflight. -/
theorem mem_unsafeHeaders {f : Fetch} {jar : Jar}
    (h : (page.request jar f).header csrfHeader ≠ "") : csrfHeader ∈ f.unsafeHeaders := by
  have hname : csrfHeader ≠ "Origin" := by decide
  simp only [Page.request, if_neg hname] at h
  cases hset : f.headers.lookup csrfHeader with
  | none =>
    rw [hset, Option.getD_none] at h
    exact absurd page.ambient_token h
  | some v =>
    obtain ⟨before, after, hsplit, -⟩ := List.lookup_eq_some_iff.mp hset
    have hmem : (csrfHeader, v) ∈ f.headers := by simp [hsplit]
    have hneeds : isSimple (csrfHeader, v) = false := by simp [isSimple, csrfHeader]
    exact List.mem_map.mpr ⟨(csrfHeader, v), List.mem_filter.mpr ⟨hmem, by simp [hneeds]⟩, rfl⟩

theorem preflight_token (f : Fetch) : (page.preflight f).header csrfHeader = "" := by
  have hname : csrfHeader ≠ "Origin" := by decide
  simp only [Page.preflight, Page.request, if_neg hname, List.lookup_nil, Option.getD_none]
  exact page.ambient_token

theorem exchangeCase (resolve : String → Option ℕ) (page : Page) (w : World) (e : Event cfg) :
    ServeCase cfg e.env resolve e.fetch.endpoint (e.request page w) w.server
      (exchange resolve page w e) := by
  apply serveCase
  rw [request_origin]
  exact page.origin_ne

theorem not_allows_of_hidden {reply : Reply} (h : reply.Hidden) : ¬ Allows reply page.origin := by
  intro hallows
  have hempty : reply.header allowOrigin = "" := by rw [Reply.header, h, Option.getD_none]
  exact page.origin_ne (hallows.1.symm.trans hempty)

/-- Only an origin of a site is allowed anything, and what it is told is an answer from before
the handler, or of the handler with its site. -/
theorem allowed_cases (h : Allows (exchange resolve page w e).reply page.origin) :
    ∃ siteID, resolve page.origin = some siteID ∧
      ((∃ body, (exchange resolve page w e).reply.body = .text body) ∨
        (exchange resolve page w e).reply.body = (handle cfg e.env e.fetch.endpoint
          { e.request page w with siteFromOrigin := some siteID } w.server).reply.body) := by
  have hcase := exchangeCase resolve page w e
  generalize exchange resolve page w e = x at h hcase
  have horigin := request_origin page w e
  cases hcase with
  | refused status body hhidden =>
    exact absurd h (not_allows_of_hidden (hidden_withHeaders hhidden rfl))
  | answered status body hsite => exact ⟨_, horigin ▸ hsite, .inl ⟨body, rfl⟩⟩
  | unknown hnone htoken =>
    exact absurd h (not_allows_of_hidden (hidden_withHeaders rfl (hidden_handle _ _ _)))
  | known hsite => exact ⟨_, horigin ▸ hsite, .inr rfl⟩

/-- What a preflight has admitted, it has admitted for an origin of a site. -/
def Vouched (resolve : String → Option ℕ) (page : Page) (w : World) : Prop :=
  w.admitted ≠ [] → ∃ siteID, resolve page.origin = some siteID

private theorem vouched_step {w' : World} (hw : Vouched resolve page w)
    (h : step resolve page w e = some w') : Vouched resolve page w' := by
  simp only [step] at h
  split_ifs at h with hpreflight hadmits hsent
  · obtain rfl := Option.some.inj h
    intro _
    obtain ⟨siteID, hsite, -⟩ := allowed_cases hadmits.1
    exact ⟨siteID, hsite⟩
  · exact Option.some.inj h ▸ hw
  · exact Option.some.inj h ▸ hw

/-- A request is only sent with a token where the origin is one of a site. -/
theorem resolve_of_token {w' : World} (hw : Vouched resolve page w)
    (h : step resolve page w e = some w')
    (htoken : (e.request page w).header csrfHeader ≠ "") :
    ∃ siteID, resolve page.origin = some siteID := by
  simp only [step] at h
  split_ifs at h with hpreflight hadmits hsent
  · rw [Event.request, if_pos hpreflight, preflight_token] at htoken
    exact absurd rfl htoken
  · rw [Event.request, if_pos hpreflight, preflight_token] at htoken
    exact absurd rfl htoken
  · rw [Event.request, if_neg hpreflight] at htoken
    have hneeds := List.ne_nil_of_mem (mem_unsafeHeaders htoken)
    obtain ⟨g, hg, -⟩ := hsent.resolve_left hneeds
    exact hw (List.ne_nil_of_mem hg)

private theorem acts_of_step {w' : World} (hzero : resolve page.origin ≠ some 0)
    (hw : Vouched resolve page w) (h : step resolve page w e = some w') :
    Acts resolve page w e := by
  intro run hran hchanges
  have hcase := exchangeCase resolve page w e
  have horigin := request_origin page w e
  have htold := resolve_of_token hw h
  generalize exchange resolve page w e = x at hran hcase ⊢
  cases hcase with
  | refused status body hhidden => nomatch hran
  | answered status body hsite => nomatch hran
  | unknown hnone htoken =>
    have hrun := Option.some.inj ((handle_ran _ _ _).symm.trans hran)
    rw [← hrun] at hchanges
    obtain ⟨siteID, hsite⟩ := htold (htoken hchanges)
    rw [horigin, hsite] at hnone
    nomatch hnone
  | @known siteID hsite =>
    rw [horigin] at hsite
    have hne : siteID ≠ 0 := fun hid => hzero (hid ▸ hsite)
    have hresolved : resolveSiteID e.env.sites
        { e.request page w with siteFromOrigin := some siteID }.toPrivacyRequest = .ok siteID :=
      resolveSiteID_origin hne
    have hrun := Option.some.inj ((handle_ran _ _ _).symm.trans hran)
    have hpage : e.fetch.endpoint ≠ .page := by
      intro heq
      rw [← hrun, heq] at hchanges
      nomatch hchanges
    refine ⟨siteID, hsite, ?_, (confined_handle hpage hresolved).acts.withHeaders _⟩
    rw [← hrun, if_neg hpage, hresolved]
    rfl

private theorem toldBySite_of_ne_zero (hzero : resolve page.origin ≠ some 0) (w : World)
    (e : Event cfg) : ToldBySite resolve page w e := by
  rintro ⟨hfetch, hallows⟩
  obtain ⟨siteID, hsite, hbody⟩ := allowed_cases hallows
  have hne : siteID ≠ 0 := fun hid => hzero (hid ▸ hsite)
  refine ⟨siteID, hsite, ?_⟩
  split_ifs with hpage
  · intro token site hshown
    rcases hbody with ⟨body, htext⟩ | hhandled
    · rw [htext] at hshown
      nomatch hshown
    · rw [hhandled, hpage] at hshown
      have hparam : (e.request page w).site = e.fetch.site := by
        simp [Event.request, hfetch, Page.request]
      obtain ⟨hsame, hvalid⟩ := handle_page hshown
      exact ⟨hsame.trans hparam, hvalid⟩
  · rcases hbody with ⟨body, htext⟩ | hhandled
    · rw [htext]
      trivial
    · rw [hhandled]
      exact (confined_handle hpage (resolveSiteID_origin hne)).concerns

/-- The look-up that `CORS` is given. -/
def resolver (u : SiteTables) (reg : SitesHandlers.State) (origin : String) : Option ℕ :=
  OriginIndex.indexLookup u.toLookupProfile reg.index origin

/-- Whatever a page of another origin requests, in whatever order: the handlers that change state
act on the site that the index resolves its origin to, what it is shown is about that site, and
both only where there is one. `/privacy` is about the site that its parameter names. -/
theorem cross_site_confined (cfg : Config) {u : SiteTables} {rows : List SiteRow}
    (hrows : WellFormed u.toLookupProfile rows) {requests : List SitesHandlers.Served}
    {reg : SitesHandlers.State}
    (hreg : exec (SitesHandlers.step u) ⟨rows, none⟩ requests = some reg)
    (page : Page) (jar : Jar) (server : State) {run : List (Event cfg)} {w : World}
    (hrun : exec (step (resolver u reg) page) { jar := jar, server := server } run = some w) :
    Along (step (resolver u reg) page)
      (fun w e => Acts (resolver u reg) page w e ∧ ToldBySite (resolver u reg) page w e)
      { jar := jar, server := server } run := by
  have hzero : resolver u reg page.origin ≠ some 0 :=
    exec_indexLookup_ne_zero hrows hreg page.origin
  have hstart : Vouched (resolver u reg) page { jar := jar, server := server } :=
    fun hne => absurd rfl hne
  have hvouched := (along_enabled hrun).strengthen
    (fun w e w' hw _ hstep => vouched_step hw hstep) hstart
  apply hvouched.mono
  rintro w e ⟨hw, w', hstep⟩
  exact ⟨acts_of_step hzero hw hstep, toldBySite_of_ne_zero hzero w e⟩

def sampleConfig : Config where
  key := ⟨id, [0x2A]⟩
  secret_ne := by decide
  decodeAction _ := none
  hmacSHA256 key message := key ++ message
  fold := Char.toLower
  parseUUID _ := none

def sampleSites (hostname : String) : Option (ℕ × SitePolicy) :=
  if hostname = "shop.example" then some (1, {})
  else if hostname = "blog.example" then some (2, {})
  else none

def sampleEnv : Env sampleConfig where
  sites := sampleSites
  random := some (List.replicate 32 0x07)
  uuid := IngestHandler.sampleUUID
  unixAt := 0
  outcome := .done
  now := 0
  query _ _ _ _ := none
  answers h := nomatch h
  rowsErr := false
  discovered := none

private theorem firstID_lt : 1 < 2 ^ 32 := by decide

def sampleRows : List SiteRow :=
  [{ siteID := 1, siteID_lt := firstID_lt, hostname := "shop.example", slug := "shop", tz := "UTC"
     currency := "EUR", allowedOrigins := ["https://shop.example"] },
    { siteID := 2, hostname := "blog.example", slug := "blog", tz := "UTC", currency := "EUR"
      allowedOrigins := ["https://blog.example"] }]

private theorem sampleRows_wellFormed :
    WellFormed sampleTables.toLookupProfile sampleRows where
  canonical row hrow origin horigin := by
    have hnormal : ∀ row ∈ sampleRows, ∀ origin ∈ row.allowedOrigins,
        SiteOrigins.normalizeOrigin sampleTables.toLookupProfile origin =
          some origin := by decide +kernel
    exact SiteOrigins.canonical_of_normalizeOrigin (hnormal row hrow origin horigin)
  unique := by decide
  zero := by decide

/-- The index as it is built at boot. -/
def sampleRegistry : SitesHandlers.State where
  rows := sampleRows
  index := some (OriginIndex.rebuildFromSites sampleTables.toLookupProfile
    (listAdmin sampleRows))

def sampleResolve : String → Option ℕ := resolver sampleTables sampleRegistry

def shopPage : Page where
  origin := "https://shop.example"
  origin_ne := by decide
  ambient _ := ""
  ambient_token := rfl
  remoteAddr := "192.0.2.1:40000"
  host := "app.statnive.live"
  urlHost := ""
  tls := true

def visitor : World where
  jar := [("_statnive", IngestHandler.sampleUUID)]
  server := ⟨{ list := some { set := [] } }, []⟩

def loadPage (site : String) : Event sampleConfig where
  fetch := { endpoint := .page, method := .get, site := site }
  env := sampleEnv

/-- The token is the one of the page. -/
def requestOptOut (preflight : Bool) : Event sampleConfig where
  fetch :=
    { endpoint := .optOut
      method := .post
      headers := [(csrfHeader, tokenOf sampleConfig.signer (List.replicate 32 0x07))] }
  preflight := preflight
  env := sampleEnv

def optOutRun : List (Event sampleConfig) :=
  [loadPage "shop.example", requestOptOut true, requestOptOut false]

private theorem sampleRegistry_reached : exec (SitesHandlers.step sampleTables)
    ⟨sampleRows, none⟩ [⟨.reload, SitesHandlers.answered⟩] = some sampleRegistry := rfl

/-- The visitor opts out on the page of the shop. -/
theorem cross_site_confined_shop :
    ∃ w, exec (step sampleResolve shopPage) visitor optOutRun = some w ∧
      w.server.suppression.acked.length = 1 ∧
        Along (step sampleResolve shopPage)
          (fun w e => Acts sampleResolve shopPage w e ∧ ToldBySite sampleResolve shopPage w e)
          visitor optOutRun := by
  have hrun : (exec (step sampleResolve shopPage) visitor optOutRun).map
      (fun w => w.server.suppression.acked.length) = some 1 := by decide +kernel
  obtain ⟨w, hw, hacked⟩ := Option.map_eq_some_iff.mp hrun
  exact ⟨w, hw, hacked, cross_site_confined sampleConfig sampleRows_wellFormed
    sampleRegistry_reached shopPage visitor.jar visitor.server hw⟩

/-- A page that is shown under the name of another site is not about the site of its origin. -/
theorem not_told {siteID : ℕ} {token site : String} (hshown : Shown resolve page w e)
    (hsite : resolve page.origin = some siteID)
    (hbody : (exchange resolve page w e).reply.body = .page token site) (hne : site ≠ "")
    (hother : lookupSite e.env.sites site ≠ .ok siteID) : ¬ Told resolve page w e := by
  intro htold
  obtain ⟨id, hid, hconcerns⟩ := htold hshown
  obtain rfl := Option.some.inj (hsite.symm.trans hid)
  rw [hbody] at hconcerns
  exact hother (hconcerns hne)

/-- The page of the shop asks for the privacy page of the blog, and is shown it. -/
theorem other_site_shown :
    (exec (step sampleResolve shopPage) visitor [loadPage "blog.example"]).isSome = true ∧
      ¬ Along (step sampleResolve shopPage)
        (fun w e => Acts sampleResolve shopPage w e ∧ Told sampleResolve shopPage w e)
        visitor [loadPage "blog.example"] := by
  have hsite : sampleResolve shopPage.origin = some 1 := by decide +kernel
  have hshown : Shown sampleResolve shopPage visitor (loadPage "blog.example") :=
    ⟨rfl, by decide +kernel⟩
  have hbody : (exchange sampleResolve shopPage visitor (loadPage "blog.example")).reply.body =
      .page (tokenOf sampleConfig.signer (List.replicate 32 0x07)) "blog.example" := by
    decide +kernel
  have hother : lookupSite sampleSites "blog.example" ≠ .ok 1 := by decide
  refine ⟨by decide +kernel, fun h => ?_⟩
  exact not_told hshown hsite hbody (by decide) hother h.1.2

end Statnive.CrossSitePages
