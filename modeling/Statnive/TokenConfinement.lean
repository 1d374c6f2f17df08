import Statnive.AuthGuards

/-!
# What a minted token can reach

The principal of a minted token carries the grants of the token and the id of the user who
minted it. A guard that loads grants loads them by that id.
-/

namespace Statnive.TokenConfinement

open AuthTypes AuthGuards

/-- A request that was let through is authorised for the active site at the role that the
guard required, and wherever the principal handed to the handler has access. -/
def Authorised (required : Role) (out : Outcome) (siteID : ℕ) (r : Role) : Prop :=
  ∃ u active, out = .next u active ∧
    ((active = some siteID ∧ r = required) ∨ u.canAccessSite siteID r = true ∨
      (r = .api ∧ u.actorCanReadSite siteID = true))

/-- The role that a guard for one site asks for. -/
def requiredRole : SiteGuard → Role
  | .siteRole _ required | .dashboardSiteAccess _ required => required
  | .unguarded | .hydrate _ => .api

/-- A site and a role within the token's own scope. -/
def InScope (t : MintedToken) (siteID : ℕ) (r : Role) : Prop :=
  siteID ∈ t.siteIDs ∧ roleRank t.role ≤ roleRank r

def Confined (deps : TokenDeps) (route : Route) (r : AuthRequest) (t : MintedToken) : Prop :=
  ∀ siteID role, Authorised (requiredRole route.guard)
    (route.serve r (apiTokenMiddleware deps r)) siteID role → InScope t siteID role

/-- The grants that the guard loads for a principal that has an id and a grant map. -/
def loads (guard : SiteGuard) (userID : UserID) : Option Grants :=
  match guard with
  | .siteRole store _ | .dashboardSiteAccess (some store) _ => store userID
  | .unguarded | .hydrate _ | .dashboardSiteAccess none _ => none

/-- The loaded grants satisfy the guard. -/
def admits (guard : SiteGuard) (r : AuthRequest) (grants : Grants) : Prop :=
  match guard with
  | .siteRole _ required => hasAnyRole grants required = true ∧
      (r.siteIDParam = "" ∨ ∃ siteID got, parseSiteID r.siteIDParam = some siteID ∧
        grants.get siteID = some got ∧ roleRank got ≤ roleRank required)
  | .dashboardSiteAccess _ required => ∃ siteID got, parseSiteID r.site = some siteID ∧
      grants.get siteID = some got ∧ roleRank got ≤ roleRank required
  | .unguarded | .hydrate _ => False

/-- No grant goes beyond the token's scope. -/
def Within (t : MintedToken) (grants : Grants) : Prop :=
  ∀ siteID got, grants.get siteID = some got → InScope t siteID got

private theorem grants_get {t : MintedToken} {siteID : ℕ} {got : Role}
    (h : t.grants.get siteID = some got) : siteID ∈ t.siteIDs ∧ got = t.role := by
  obtain ⟨kv, hfind, rfl⟩ := Option.map_eq_some_iff.mp h
  obtain ⟨id, hid, rfl⟩ := List.mem_map.mp (List.mem_of_find?_eq_some hfind)
  have hkey : id = siteID := by simpa using List.find?_some hfind
  exact ⟨hkey ▸ hid, rfl⟩

/-- A principal with the grants `grants` reaches what the grants name, and no more. -/
theorem inScope_of_access {t : MintedToken} {u : User} {grants : Grants} (hid : u.userID ≠ uuidNil)
    (hsites : u.sites = some grants) (hwithin : Within t grants) {siteID : ℕ} {r : Role}
    (h : u.canAccessSite siteID r = true ∨ (r = .api ∧ u.actorCanReadSite siteID = true)) :
    InScope t siteID r := by
  have hacc : u.canAccessSite siteID r = true := by
    rcases h with h | ⟨rfl, h⟩
    · exact h
    · rwa [actorCanReadSite_iff hid hsites] at h
  obtain ⟨got, hget, hle⟩ := (canAccessSite_iff hsites siteID r).mp hacc
  obtain ⟨hmem, hrole⟩ := hwithin siteID got hget
  exact ⟨hmem, Nat.le_trans hrole hle⟩

private theorem within_own (t : MintedToken) : Within t t.grants := by
  intro siteID got h
  obtain ⟨hmem, rfl⟩ := grants_get h
  exact ⟨hmem, Nat.le_refl _⟩

theorem principal_userID_ne (t : MintedToken) : t.principal.userID ≠ uuidNil := t.user_ne

/-- The principal after a guard has loaded the grants. -/
def regranted (t : MintedToken) (grants : Grants) : User :=
  { t.principal with sites := some grants }

private theorem requireSiteRole_loaded {store : SitesStore} (required : Role) (r : AuthRequest)
    {t : MintedToken} {grants : Grants} (hload : store t.userID = some grants) :
    requireSiteRole store required r t.principal =
      if hasAnyRole grants required = false then .forbidden
      else if r.siteIDParam = "" then .next (regranted t grants) none
      else match parseSiteID r.siteIDParam with
      | none => .badRequest
      | some siteID =>
        if (regranted t grants).canAccessSite siteID required = true then
          .next (regranted t grants) (some siteID)
        else .forbidden := by
  have hid : ¬ t.principal.userID = uuidNil := principal_userID_ne t
  have hload' : store t.principal.userID = some grants := hload
  simp only [requireSiteRole, hid, if_false, hload', regranted, Bool.not_eq_true']
  rfl

private theorem requireSiteRole_next_iff {store : SitesStore} (required : Role) (r : AuthRequest)
    {t : MintedToken} {grants : Grants} (hload : store t.userID = some grants) (u : User)
    (active : Option ℕ) :
    requireSiteRole store required r t.principal = .next u active ↔
      u = regranted t grants ∧ hasAnyRole grants required = true ∧
        ((r.siteIDParam = "" ∧ active = none) ∨ r.siteIDParam ≠ "" ∧ ∃ siteID got,
          parseSiteID r.siteIDParam = some siteID ∧ active = some siteID ∧
          grants.get siteID = some got ∧ roleRank got ≤ roleRank required) := by
  have hacc (siteID : ℕ) : (regranted t grants).canAccessSite siteID required = true ↔
      ∃ got, grants.get siteID = some got ∧ roleRank got ≤ roleRank required :=
    canAccessSite_iff rfl siteID required
  rw [requireSiteRole_loaded required r hload]
  cases hasAnyRole grants required with
  | false => simp
  | true =>
    by_cases hparam : r.siteIDParam = ""
    · simp [hparam, eq_comm]
    · cases parseSiteID r.siteIDParam with
      | none => simp [hparam]
      | some siteID =>
        by_cases h : (regranted t grants).canAccessSite siteID required = true
        · obtain ⟨got, hget, hle⟩ := (hacc siteID).mp h
          simp only [hparam, h]
          grind
        · have hnone : ¬ ∃ got, grants.get siteID = some got ∧
              roleRank got ≤ roleRank required := fun hex => h ((hacc siteID).mpr hex)
          simp only [hparam, h]
          grind

private theorem requireDashboardSiteAccess_next_iff {store : SitesStore} (required : Role)
    (r : AuthRequest) {t : MintedToken} {grants : Grants} (hload : store t.userID = some grants)
    (u : User) (active : Option ℕ) :
    requireDashboardSiteAccess (some store) required r t.principal = .next u active ↔
      u = regranted t grants ∧ ∃ siteID got,
        parseSiteID r.site = some siteID ∧ active = some siteID ∧
        grants.get siteID = some got ∧ roleRank got ≤ roleRank required := by
  have hid : ¬ t.principal.userID = uuidNil := principal_userID_ne t
  have hload' : store t.principal.userID = some grants := hload
  simp only [requireDashboardSiteAccess, scopeUserToSite, hid, if_false, hload']
  cases parseSiteID r.site with
  | none => simp
  | some siteID =>
    cases hget : grants.get siteID with
    | none => simp [hget]
    | some got =>
      by_cases hlt : roleRank required < roleRank got
      · simp [hget, hlt]
      · simp [hget, hlt, regranted]
        grind

/-- A guard that loads grants lets the token through when they satisfy it, and hands on the
principal with the loaded grants; at most one site they name becomes the active one. -/
theorem serve_next_iff {guard : SiteGuard} {r : AuthRequest} {t : MintedToken} {grants : Grants}
    (hload : loads guard t.userID = some grants) :
    (admits guard r grants ↔ ∃ u active, guard.serve r t.principal = .next u active) ∧
      ∀ u active, guard.serve r t.principal = .next u active → u = regranted t grants ∧
        ∀ siteID, active = some siteID → ∃ got, grants.get siteID = some got ∧
          roleRank got ≤ roleRank (requiredRole guard) := by
  cases guard with
  | unguarded => simp [loads] at hload
  | hydrate sitesStore => simp [loads] at hload
  | siteRole store required =>
    have hiff := requireSiteRole_next_iff required r hload
    refine ⟨⟨?_, ?_⟩, ?_⟩
    · rintro ⟨hany, hparam | ⟨siteID, got, hparse, hget, hle⟩⟩
      · exact ⟨_, none, (hiff _ _).mpr ⟨rfl, hany, Or.inl ⟨hparam, rfl⟩⟩⟩
      · by_cases hparam : r.siteIDParam = ""
        · exact ⟨_, none, (hiff _ _).mpr ⟨rfl, hany, Or.inl ⟨hparam, rfl⟩⟩⟩
        · exact ⟨_, some siteID, (hiff _ _).mpr
            ⟨rfl, hany, Or.inr ⟨hparam, siteID, got, hparse, rfl, hget, hle⟩⟩⟩
    · rintro ⟨u, active, hserve⟩
      obtain ⟨-, hany, ⟨hparam, -⟩ | ⟨-, siteID, got, hparse, -, hget, hle⟩⟩ :=
        (hiff u active).mp hserve
      · exact ⟨hany, Or.inl hparam⟩
      · exact ⟨hany, Or.inr ⟨siteID, got, hparse, hget, hle⟩⟩
    · intro u active hserve
      obtain ⟨hu, -, ⟨-, hactive⟩ | ⟨-, siteID, got, -, hactive, hget, hle⟩⟩ :=
        (hiff u active).mp hserve
      · exact ⟨hu, fun siteID h => by simp [hactive] at h⟩
      · refine ⟨hu, fun siteID' h => ?_⟩
        obtain rfl : siteID = siteID' := by simpa [hactive] using h
        exact ⟨got, hget, hle⟩
  | dashboardSiteAccess sitesStore required =>
    cases sitesStore with
    | none => simp [loads] at hload
    | some store =>
      have hiff := requireDashboardSiteAccess_next_iff required r hload
      refine ⟨⟨?_, ?_⟩, ?_⟩
      · rintro ⟨siteID, got, hparse, hget, hle⟩
        exact ⟨_, some siteID, (hiff _ _).mpr ⟨rfl, siteID, got, hparse, rfl, hget, hle⟩⟩
      · rintro ⟨u, active, hserve⟩
        obtain ⟨-, siteID, got, hparse, -, hget, hle⟩ := (hiff u active).mp hserve
        exact ⟨siteID, got, hparse, hget, hle⟩
      · intro u active hserve
        obtain ⟨hu, siteID, got, -, hactive, hget, hle⟩ := (hiff u active).mp hserve
        refine ⟨hu, fun siteID' h => ?_⟩
        obtain rfl : siteID = siteID' := by simpa [hactive] using h
        exact ⟨got, hget, hle⟩

/-- A guard that loads nothing lets through the principal as it is, or nothing. -/
theorem serve_of_loads_none {guard : SiteGuard} {r : AuthRequest} {t : MintedToken}
    (hload : loads guard t.userID = none) {u : User} {active : Option ℕ}
    (h : guard.serve r t.principal = .next u active) : u = t.principal ∧ active = none := by
  have hid : ¬ t.principal.userID = uuidNil := principal_userID_ne t
  cases guard with
  | unguarded =>
    obtain ⟨rfl, rfl⟩ : t.principal = u ∧ none = active := by simpa [SiteGuard.serve] using h
    exact ⟨rfl, rfl⟩
  | hydrate sitesStore =>
    have hserve : hydrateActorGrants sitesStore t.principal = .next t.principal none := by
      simp only [hydrateActorGrants, hid, if_false]
      cases sitesStore <;> rfl
    obtain ⟨rfl, rfl⟩ : t.principal = u ∧ none = active := by
      simpa [SiteGuard.serve, hserve] using h
    exact ⟨rfl, rfl⟩
  | siteRole store required =>
    have hload' : store t.principal.userID = none := hload
    simp [SiteGuard.serve, requireSiteRole, hid, hload'] at h
  | dashboardSiteAccess sitesStore required =>
    cases sitesStore with
    | none =>
      simp only [SiteGuard.serve, requireDashboardSiteAccess] at h
      cases hparse : parseSiteID r.site with
      | none => simp [hparse] at h
      | some siteID =>
        have hsite : ¬ t.principal.siteID = siteID := (parseSiteID_ne_zero hparse).symm
        simp [hparse, scopeUserToSite, hid, hsite] at h
    | some store =>
      have hload' : store t.principal.userID = none := hload
      simp only [SiteGuard.serve, requireDashboardSiteAccess] at h
      cases hparse : parseSiteID r.site with
      | none => simp [hparse] at h
      | some siteID => simp [hparse, scopeUserToSite, hid, hload'] at h

/-- `RequireRole` of the route, on the role of the token. -/
def Allowed (route : Route) (t : MintedToken) : Prop :=
  route.allowed.all (fun allowed => allowed.contains t.role) = true

theorem route_next_iff (route : Route) (r : AuthRequest) (t : MintedToken) (u : User)
    (active : Option ℕ) : route.serve r (some t.principal) = .next u active ↔
      Allowed route t ∧ route.guard.serve r t.principal = .next u active := by
  have hrole : t.principal.role = t.role := rfl
  simp only [Route.serve, Allowed, hrole]
  cases route.allowed with
  | none => simp
  | some allowed => by_cases h : allowed.contains t.role = true <;> simp_all

/-- Whatever grants of the minting user the guard accepts, they are all the token's own. -/
def OwnGrants (route : Route) (r : AuthRequest) (t : MintedToken) : Prop :=
  Allowed route t → ∀ grants, loads route.guard t.userID = some grants →
    admits route.guard r grants → Within t grants

private theorem authorised_inScope {route : Route} {r : AuthRequest} {t : MintedToken}
    (hown : OwnGrants route r t) {siteID : ℕ} {role : Role}
    (h : Authorised (requiredRole route.guard) (route.serve r (some t.principal)) siteID role) :
    InScope t siteID role := by
  obtain ⟨u, active, hnext, hreach⟩ := h
  obtain ⟨hallowed, hserve⟩ := (route_next_iff route r t u active).mp hnext
  cases hload : loads route.guard t.userID with
  | none =>
    obtain ⟨rfl, rfl⟩ := serve_of_loads_none hload hserve
    have hreach' : t.principal.canAccessSite siteID role = true ∨
        (role = .api ∧ t.principal.actorCanReadSite siteID = true) := by
      rcases hreach with ⟨hactive, -⟩ | hreach
      · cases hactive
      · exact hreach
    exact inScope_of_access (principal_userID_ne t) rfl (within_own t) hreach'
  | some grants =>
    obtain ⟨hadmits, hshape⟩ := serve_next_iff (r := r) hload
    have hwithin : Within t grants := hown hallowed grants hload (hadmits.mpr ⟨u, active, hserve⟩)
    obtain ⟨rfl, hactive⟩ := hshape u active hserve
    rcases hreach with ⟨hsite, rfl⟩ | hreach
    · obtain ⟨got, hget, hle⟩ := hactive siteID hsite
      obtain ⟨hmem, hrole⟩ := hwithin siteID got hget
      exact ⟨hmem, Nat.le_trans hrole hle⟩
    · exact inScope_of_access (u := regranted t grants) (principal_userID_ne t) rfl hwithin hreach

/-- The accepted grants become the handler's, each at its full role. -/
theorem own_of_confined {route : Route} {r : AuthRequest} {t : MintedToken}
    (h : ∀ siteID role, Authorised (requiredRole route.guard) (route.serve r (some t.principal))
      siteID role → InScope t siteID role) : OwnGrants route r t := by
  intro hallowed grants hload hpassed siteID got hget
  obtain ⟨hadmits, hshape⟩ := serve_next_iff (r := r) hload
  obtain ⟨u, active, hserve⟩ := hadmits.mp hpassed
  obtain ⟨rfl, -⟩ := hshape u active hserve
  apply h siteID got
  refine ⟨_, active, (route_next_iff route r t _ active).mpr ⟨hallowed, hserve⟩, Or.inr (Or.inl ?_)⟩
  exact (canAccessSite_iff rfl siteID got).mpr ⟨got, hget, Nat.le_refl _⟩

/-- For every request with a minted token and every route: it is authorised only within the
token's own scope exactly when the grants of the minting user that the guard accepts do not
go beyond that scope. -/
theorem confined_iff (deps : TokenDeps) (route : Route) (r : AuthRequest) (t : MintedToken)
    (hminted : MintedRequest deps r t) : Confined deps route r t ↔ OwnGrants route r t := by
  simp only [Confined, apiTokenMiddleware_minted hminted]
  exact ⟨own_of_confined, fun hown _ _ => authorised_inScope hown⟩

/-- Minted by the admin of the sites 5 and 6, for reading site 5. -/
def siteFiveToken : MintedToken where
  tokenID := 1
  userID := 7
  name := "reports"
  siteIDs := [5]
  role := .api
  user_ne := by decide

def minterGrants : SitesStore :=
  fun userID => if userID = 7 then some [(5, .admin), (6, .admin)] else some []

def rawToken : String := "stnv_0000000000000000000000000000000000000000000000000000000000000000"

/-- The SHA-256 digest of the raw token. -/
def rawTokenHash : List UInt8 :=
  [96, 52, 221, 145, 49, 209, 201, 177, 98, 141, 0, 9, 15, 107, 58, 221, 229, 153, 250, 191, 117,
  152, 13, 0, 64, 166, 23, 48, 67, 168, 29, 233]

def sampleDeps : TokenDeps where
  sha256 := fun raw => if raw = rawToken then rawTokenHash else []
  dynamicTokens := some (fun hash => if hash = rawTokenHash then some siteFiveToken else none)

def sampleRequest (site : String) : AuthRequest :=
  { bearerToken := some rawToken, site := site, siteIDParam := site }

theorem sample_minted (site : String) :
    MintedRequest sampleDeps (sampleRequest site) siteFiveToken :=
  ⟨rfl, rawToken, _, rfl, rfl, rfl, rfl⟩

/-- The listing shows the token's own sites, whatever the minting user has. -/
theorem confined_iff_siteListing :
    Confined sampleDeps (siteListing (some minterGrants)) (sampleRequest "5") siteFiveToken := by
  apply (confined_iff sampleDeps _ (sampleRequest "5") siteFiveToken (sample_minted "5")).mpr
  intro _ grants hload
  simp [siteListing, loads] at hload

/-- With the token for site 5 a request reads site 6, which the minting user can read, and
passes for an administrator. -/
theorem minter_grants_widen :
    ¬ Confined sampleDeps (siteScoped (some minterGrants)) (sampleRequest "6") siteFiveToken ∧
      ¬ Confined sampleDeps (adminRoute (some minterGrants)) (sampleRequest "5") siteFiveToken := by
  have hminted (site : String) : apiTokenMiddleware sampleDeps (sampleRequest site) =
      some siteFiveToken.principal := apiTokenMiddleware_minted (sample_minted site)
  constructor
  · intro h
    have hscope : InScope siteFiveToken 6 .api := by
      apply h 6 .api
      rw [hminted]
      exact ⟨_, some 6, rfl, Or.inl ⟨rfl, rfl⟩⟩
    exact absurd hscope.1 (by decide)
  · intro h
    have hscope : InScope siteFiveToken 5 .admin := by
      apply h 5 .admin
      rw [hminted]
      exact ⟨_, some 5, rfl, Or.inl ⟨rfl, rfl⟩⟩
    exact absurd hscope.2 (by decide)

end Statnive.TokenConfinement
