import Statnive.McpServer

/-!
# Tenancy of the MCP tools

The site of a call is resolved before it is authorised. After that a call reads of no site
but this one, on which the principal is granted a role that the tool asks for.
-/

namespace Statnive.McpTenancy

open AuthGuards AuthTypes DashboardFilter McpServer TracedCalls TracedCalls.Traced
open McpBudget (Principal isWildcardActor)
open OAuthServer (get_map_role grantsForToken)

variable {α : Type}

/-- The role of a principal on a site. -/
def granted : Principal → ℕ → Option Role
  | .stdio _ true, _ => some .admin
  | .stdio allowSites false, siteID => if siteID ∈ allowSites then some .admin else none
  | .static t, siteID => if t.siteID = 0 ∨ t.siteID = siteID then some t.role else none
  | .minted t, siteID => if siteID ∈ t.siteIDs then some t.role else none
  | .oauth cfg claims, siteID => (grantsForToken cfg claims).get siteID

/-- The grant on a site is enough for the class of a tool. -/
def Dominates (p : Principal) (tool : Tool) (siteID : ℕ) : Prop :=
  ∃ role, granted p siteID = some role ∧ roleRank role ≤ roleRank tool.toolDef.roleClass

/-- What a call may ask for: it resolves the site argument of a scoped tool, it lists the sites
for `list_sites`, and all else is of sites on which the principal is granted enough. -/
def Confined (b : Backend α) (p : Principal) (tool : Tool) (args : ToolArgs) : Ask → Prop
  | .budget _ => True
  | .resolve r => tool.toolDef.isScoped ∧ r ∈ (resolveSite b args.site).asked
  | .registry .list => tool = .listSites
  | .registry (.siteByID siteID) => Dominates p tool siteID
  | .registry (.siteIDBySlug _) | .registry (.sitePolicy _) => False
  | .store _ f => Dominates p tool f.siteID
  | .goalsForSite siteID => Dominates p tool siteID
  | .eventNames siteID _ _ => Dominates p tool siteID
  | .ping => tool = .systemHealth

/-- The sites that a result lists are granted. -/
def RevealsGranted (p : Principal) : Result α → Prop
  | .sites rows => ∀ row ∈ rows, ∃ role, granted p row.id = some role
  | .access info => ∀ entry ∈ info.sites, granted p entry.1 = some entry.2
  | _ => True

/-- The map of a principal holds what it is granted. -/
theorem granted_eq_get {p : Principal} {grants : Grants} (h : p.actor.sites = some grants)
    (siteID : ℕ) : granted p siteID = grants.get siteID := by
  cases p with
  | stdio allowSites allowAll =>
    cases allowAll with
    | true => simp [Principal.actor, McpBudget.syntheticOperator] at h
    | false =>
      obtain rfl := Option.some.inj h
      exact (get_map_role allowSites .admin siteID).symm
  | static t => simp [Principal.actor] at h
  | minted t =>
    obtain rfl := Option.some.inj h
    exact (get_map_role t.siteIDs t.role siteID).symm
  | oauth cfg claims =>
    obtain rfl := Option.some.inj h
    rfl

theorem userID_ne {p : Principal} {grants : Grants} (h : p.actor.sites = some grants) :
    p.actor.userID ≠ uuidNil := by
  cases p with
  | stdio allowSites allowAll =>
    cases allowAll with
    | true => simp [Principal.actor, McpBudget.syntheticOperator] at h
    | false =>
      change McpBudget.stdioScopedActorID ≠ uuidNil
      decide
  | static t => simp [Principal.actor] at h
  | minted t => exact t.user_ne
  | oauth cfg claims => exact OAuthServer.oauthActorID_ne

/-- A principal has one role on all of its sites. -/
theorem granted_role {p : Principal} {siteID : ℕ} {role : Role}
    (h : granted p siteID = some role) : role = p.actor.role := by
  cases p with
  | stdio allowSites allowAll =>
    cases allowAll with
    | true => exact (Option.some.inj h).symm
    | false =>
      simp only [granted, Option.ite_none_right_eq_some, Option.some.injEq] at h
      exact h.2.symm
  | static t | minted t =>
    simp only [granted, Option.ite_none_right_eq_some, Option.some.injEq] at h
    exact h.2.symm
  | oauth cfg claims =>
    simp only [granted, grantsForToken] at h
    split at h <;> rw [get_map_role, Option.ite_none_right_eq_some, Option.some.injEq] at h <;>
      exact h.2.symm

theorem granted_of_reads {p : Principal} {siteID : ℕ}
    (h : p.actor.actorCanReadSite siteID = true) : granted p siteID = some p.actor.role := by
  cases hsites : p.actor.sites with
  | some grants =>
    rw [actorCanReadSite_iff (userID_ne hsites) hsites, canAccessSite_iff hsites] at h
    obtain ⟨got, hget, -⟩ := h
    have hgranted := (granted_eq_get hsites siteID).trans hget
    rw [hgranted, granted_role hgranted]
  | none =>
    cases p with
    | stdio allowSites allowAll =>
      cases allowAll with
      | true => rfl
      | false => simp [Principal.actor, McpBudget.syntheticOperator] at hsites
    | static t =>
      have hreads : (decide (t.siteID = 0) || decide (t.siteID = siteID)) = true := h
      exact if_pos (by simpa using hreads)
    | minted t => simp [Principal.actor, MintedToken.principal] at hsites
    | oauth cfg claims => simp [Principal.actor, OAuthServer.oauthUser] at hsites

/-- The floor of the tool is met by the one role. -/
theorem dominates_of_reads {p : Principal} {tool : Tool} {siteID : ℕ}
    (hfloor : meetsRoleFloor p.actor tool.toolDef.roleClass = true)
    (h : p.actor.actorCanReadSite siteID = true) : Dominates p tool siteID :=
  ⟨p.actor.role, granted_of_reads h, by simpa [meetsRoleFloor] using hfloor⟩

private theorem granted_of_listed {p : Principal} {all : List Site} {row : Site}
    (h : row ∈ filterSitesForActor p.actor all) : ∃ role, granted p row.id = some role := by
  refine ⟨p.actor.role, granted_of_reads ?_⟩
  simp only [filterSitesForActor] at h
  split at h
  · next hwildcard =>
    simp only [isWildcardActor, Bool.and_eq_true, decide_eq_true_eq] at hwildcard
    simp [User.actorCanReadSite, hwildcard.1, hwildcard.2]
  · exact (List.mem_filter.mp h).2

private theorem granted_of_accessInfo {p : Principal} {siteID : ℕ} {role : Role}
    (h : (siteID, role) ∈ (accessInfo p.actor).sites) : granted p siteID = some role := by
  simp only [accessInfo] at h
  split at h
  · simp at h
  · split at h
    · next grants hsites =>
      obtain ⟨id, -, hid⟩ := List.mem_filterMap.mp h
      obtain ⟨got, hget, heq⟩ := Option.map_eq_some_iff.mp hid
      obtain ⟨rfl, rfl⟩ := Prod.mk.inj heq
      exact (granted_eq_get hsites id).trans hget
    · next hsites =>
      split at h
      · obtain ⟨rfl, rfl⟩ := Prod.mk.inj (List.mem_singleton.mp h)
        refine granted_of_reads ?_
        simp [User.actorCanReadSite, hsites]
      · simp at h

variable {b : Backend α} {p : Principal} {tool : Tool} {args : ToolArgs}

private theorem buildFilter_siteID {siteID : ℕ} {loc : ZonedTime.Zone} {now : ℤ} {f : Filter}
    (h : buildFilter siteID args loc now = .ok f) : f.siteID = siteID := by
  unfold buildFilter at h
  cases hrange : TimeWindow.parseRange loc args.range now with
  | error e => simp [hrange, Except.mapError, bind, Except.bind] at h
  | ok range =>
    simp only [hrange, Except.mapError, bind, Except.bind] at h
    split at h
    · simp at h
    · obtain rfl := Except.ok.inj h
      rfl

private theorem prepareScope_triple
    (b : Backend α) (actor : User) (hscoped : tool.toolDef.isScoped) :
    Triple (prepareScope b actor args) (Confined b p tool args)
      (fun f => actor.actorCanReadSite f.siteID = true) := by
  have hresolve : Triple (resolveSite b args.site) (· ∈ (resolveSite b args.site).asked)
      (fun _ => True) := ⟨fun _ hq => hq, fun _ _ => trivial⟩
  refine (hresolve.lift Ask.resolve id fun r hr => ⟨hscoped, hr⟩).bind ?_
  rintro ⟨siteID, loc⟩ -
  dsimp only
  split
  · exact .fail _
  · next hreads =>
    have hreads : actor.actorCanReadSite siteID = true := by simpa using hreads
    have hbuild : Triple (ofExcept (buildFilter siteID args loc b.now) : Traced Ask Refusal Filter)
        (Confined b p tool args) (fun f => f.siteID = siteID) :=
      .ofExcept fun f hf => buildFilter_siteID hf
    refine hbuild.bind fun f hf => .ask_bind trivial fun _ => .pure ?_
    rw [hf]
    exact hreads

private theorem queryStore_triple (b : Backend α) {f : Filter} (h : Dominates p tool f.siteID)
    (qs : List StoreQuery) :
    Triple (queryStore b f qs) (Confined b p tool args) (fun _ => True) := by
  induction qs with
  | nil => exact .pure trivial
  | cons q qs ih =>
    exact .ask_bind h fun _ => ih.bind fun _ _ => .pure trivial

private theorem stored_triple (b : Backend α) {f : Filter} (h : Dominates p tool f.siteID)
    (qs : List StoreQuery) :
    Triple (stored b f qs) (Confined b p tool args) (fun r => RevealsGranted p r.1) :=
  (queryStore_triple b h qs).bind fun _ _ => .pure trivial

/-- A scoped tool reads of the site of its filter, and a global one of none. -/
theorem handler_triple (b : Backend α) {f : Filter}
    (h : tool.toolDef.isScoped = true → Dominates p tool f.siteID) :
    Triple (handler b ⟨p.actor, args, f⟩ tool) (Confined b p tool args)
      (fun r => RevealsGranted p r.1) := by
  have hstored (qs : List StoreQuery) (hscoped : tool.toolDef.isScoped = true) :
      Triple (stored b f qs) (Confined b p tool args) (fun r => RevealsGranted p r.1) :=
    stored_triple b (h hscoped) qs
  cases tool with
  | listSites => exact .ask_bind rfl fun _ => .pure fun _ hrow => granted_of_listed hrow
  | overview | trend | sources | pages | campaigns | seo | realtime | propsList | devices | funnel =>
    exact hstored _ rfl
  | geo =>
    simp only [handler]
    split
    · exact .fail _
    · exact hstored _ rfl
  | compare =>
    simp only [handler]
    split
    · exact .fail _
    · exact hstored _ rfl
  | goalsList =>
    simp only [handler]
    split
    · exact .pure trivial
    · exact .ask_bind (h rfl) fun _ => .pure trivial
  | myAccess => exact .pure fun entry hentry => granted_of_accessInfo hentry
  | eventAudit =>
    simp only [handler]
    split
    · exact .fail _
    · exact .ask_bind (h rfl) fun _ => .pure trivial
  | siteConfig => exact .ask_bind (h rfl) fun _ => .pure trivial
  | about => exact .pure trivial
  | systemHealth =>
    simp only [handler]
    split
    · exact .pure trivial
    · exact .ask_bind rfl fun _ => .pure trivial

private theorem runTool_triple (b : Backend α)
    (hfloor : meetsRoleFloor p.actor tool.toolDef.roleClass = true) :
    Triple (runTool b p.actor tool args) (Confined b p tool args) (RevealsGranted p) := by
  have hscope : Triple (filterOf b p.actor tool args) (Confined b p tool args)
      (fun f => tool.toolDef.isScoped = true → Dominates p tool f.siteID) := by
    unfold filterOf
    split
    · next hscoped =>
      exact (prepareScope_triple b p.actor hscoped).mono (fun _ hq => hq)
        fun f hf _ => dominates_of_reads hfloor hf
    · next hscoped => exact .pure fun h => absurd h hscoped
  refine hscope.bind fun f hf => (handler_triple b hf).bind ?_
  rintro ⟨result, rows⟩ hresult
  dsimp only
  split
  · exact .fail _
  · exact .ask_bind trivial fun _ => .pure hresult

/-- A call names a tool and its arguments. -/
def Names (params : Option CallParams) (tool : Tool) (args : ToolArgs) : Prop :=
  ∃ call, params = some call ∧ findTool call.name = some tool ∧ call.arguments = some args

/-- Apart from what resolves its site argument, and from the list of sites that `list_sites`
takes the granted ones from, a call reads of sites only on which the principal is granted what
the tool asks for. -/
theorem toolsCall_confined (b : Backend α) (p : Principal) (params : Option CallParams) :
    Triple (toolsCall b (some p.actor) params)
      (fun q => ∃ tool args, Names params tool args ∧ Confined b p tool args q)
      (RevealsGranted p) := by
  cases params with
  | none => exact .fail _
  | some call =>
    simp only [toolsCall]
    split
    · exact .fail _
    · next tool htool =>
      split
      · exact .fail _
      · next hfloor =>
        split
        · exact .fail _
        · next args hargs =>
          have hnames {q : Ask} (hq : Confined b p tool args q) :
              ∃ tool args, Names (some call) tool args ∧ Confined b p tool args q :=
            ⟨tool, args, ⟨call, rfl, htool, hargs⟩, hq⟩
          refine .ask_bind (hnames trivial) fun answer => ?_
          split
          · exact .fail _
          · exact (runTool_triple b (by simpa using hfloor)).mono (fun _ hq => hnames hq)
              fun _ h => h

def tokenOfOne : Principal := .static ⟨[], 1, "one", .api⟩

def siteTwo : SiteAdmin where
  id := 2
  hostname := "two.example"
  enabled := true
  tz := "UTC"
  currency := "EUR"
  slug := "two"
  plan := "free"
  createdAt := 0

def twoSites : Backend Unit where
  list := .ok [siteTwo.toSite]
  lookupSiteByID := fun siteID => if siteID = 2 then .ok siteTwo else .error .unknown
  lookupSiteIDBySlug := fun _ => .error .unknown
  lookupSitePolicy := fun _ => .error .unknown
  store := fun _ _ => .ok ()
  rows := fun _ => 1
  budget := fun _ => .admitted
  locationFor := fun _ => ZonedTime.utc
  now := 0

/-- The token of site 1 has the row of site 2 looked up, and is then refused. -/
theorem resolves_ungranted :
    let call := toolsCall twoSites (some tokenOfOne.actor) (some ⟨"overview", some { site := "2" }⟩)
    call.asked = [.budget (.reserve 0), .resolve (.siteByID 2)] ∧
      call.result = .error .notAuthorized ∧ granted tokenOfOne 2 = none :=
  ⟨rfl, rfl, rfl⟩

end Statnive.McpTenancy
