import Statnive.GrantWrites
import Statnive.GoalsHandlers
import Statnive.PatchedRows

/-!
# The sites that an admin reaches

With grants per site configured, an admin is to reach the sites that the grants give. Each
handler of the admin routes has a check of its own: some take the site of the query
parameter, which the guard has checked, or else the site of the actor's row, which nobody
has; some check the sites of the body; and some check nothing.
-/

namespace Statnive.AdminConfinement

open AuthTypes AuthStore AuthGuards SiteRegistry UsersHandlers GoalsHandlers LabelledRuns
open SitesHandlers (CreateSiteRequest UpdateSiteRequest)
open GrantWrites (MakesUser Removes Cascades)
open PatchedRows (PatchAlters)

/-- `scope` is not part of the program: the sites on which the actor is admin at the start,
and those that the actor has created. -/
structure State where
  tables : Tables
  goals : List Goal
  sites : SitesHandlers.State
  scope : List ℕ

/-- Ids and bodies are `none` where they do not parse. -/
inductive Request where
  | createUser (body : Option CreateUserRequest)
  | updateUser (userID : Option UserID) (body : Option Role)
  | setEnabled (userID : Option UserID) (enable : Bool)
  | resetPassword (userID : Option UserID) (body : Option String)
  | deleteUser (userID : Option UserID)
  | updateSites (userID : Option UserID) (body : Option (List SiteRole))
  | createGoal (body : Option GoalRequest)
  | updateGoal (goalID : Option ℕ) (body : Option GoalRequest)
  | disableGoal (goalID : Option ℕ)
  | listGoals
  | createSite (body : Option CreateSiteRequest)
  | updateSite (siteIDParam : String) (body : Option UpdateSiteRequest)

/-- A request as it is served: the principal of its session, the query parameter, and what it
meets in the stores. -/
structure Served where
  principal : Option User
  siteIDParam : String := ""
  request : Request
  users : Env
  goals : GoalEnv
  sites : StoreCall → Bool

/-- `RequireSiteRole` before the handler. -/
def guardOutcome (s : State) (r : Served) : Outcome :=
  (adminRoute (some (loadUserSites r.users .guardGrants s.tables.grants))).serve
    { siteIDParam := r.siteIDParam } r.principal

/-- The actor of a new site is granted admin on it. -/
def createSite (u : SiteTables) (s : State) (r : Served) (actor : User)
    (body : Option CreateSiteRequest) : State :=
  match body with
  | none => s
  | some req =>
    let siteID := nextSiteID (maxSiteID s.sites.rows)
    let created := SitesHandlers.create u r.sites s.sites req
    match created.2, grantSite r.users s.tables.grants actor.userID siteID .admin with
    | 201, some grants => { s with
        sites := created.1
        tables := { s.tables with grants := grants }
        scope := siteID :: s.scope }
    | _, _ => { s with sites := created.1 }

def updateSite (u : SiteTables) (s : State) (r : Served) (siteIDParam : String)
    (body : Option UpdateSiteRequest) : State :=
  match parseSiteID siteIDParam, body with
  | some siteID, some req =>
    { s with sites := (SitesHandlers.updateSite u r.sites s.sites siteID req).1 }
  | _, _ => s

def dispatch (u : SiteTables) (deps : Deps) (s : State) (r : Served) (actor : User)
    (active : Option ℕ) : State :=
  let siteID := activeSiteOr active actor.siteID
  match r.request with
  | .createUser body =>
    { s with tables := (createUser u deps r.users s.tables actor body).1 }
  | .updateUser userID body =>
    { s with tables := (updateUser deps r.users s.tables actor userID body).1 }
  | .setEnabled userID enable =>
    { s with tables := (setEnabled deps r.users s.tables actor userID enable).1 }
  | .resetPassword userID body =>
    { s with tables := (resetPassword deps r.users s.tables actor userID body).1 }
  | .deleteUser userID =>
    { s with tables := (deleteAccount deps r.users s.tables actor userID).1 }
  | .updateSites userID body =>
    { s with tables := (updateSites deps r.users s.tables actor userID body).1 }
  | .createGoal body => { s with goals := (createGoal r.goals s.goals siteID body).1 }
  | .updateGoal goalID body => { s with goals := (updateGoal r.goals s.goals siteID goalID body).1 }
  | .disableGoal goalID => { s with goals := (disableGoal r.goals s.goals siteID goalID).1 }
  | .listGoals => s
  | .createSite body => createSite u s r actor body
  | .updateSite siteIDParam body => updateSite u s r siteIDParam body

def serve (u : SiteTables) (deps : Deps) (s : State) (r : Served) : State :=
  match guardOutcome s r with
  | .next actor active => dispatch u deps s r actor active
  | _ => s

/-- The goals in the response. -/
def listed (s : State) (r : Served) : List Goal :=
  match guardOutcome s r, r.request with
  | .next actor active, .listGoals =>
    (listGoals r.goals s.goals (activeSiteOr active actor.siteID)).1
  | _, _ => []

/-- New UUIDs are new, and a request with a session is one of the actor. -/
structure Fits (actorID : UserID) (s : State) (r : Served) : Prop where
  principal : ∀ p ∈ r.principal, p.userID = actorID
  userID_ne : r.users.newID ≠ uuidNil ∧ r.users.newID ≠ actorID
  user_new : s.tables.grants r.users.newID = []
  goal_new : ∀ g ∈ s.goals, g.goalID ≠ r.goals.newID

instance (actorID : UserID) (s : State) (r : Served) : Decidable (Fits actorID s r) :=
  decidable_of_iff ((∀ p ∈ r.principal, p.userID = actorID) ∧
      (r.users.newID ≠ uuidNil ∧ r.users.newID ≠ actorID) ∧
      s.tables.grants r.users.newID = [] ∧ ∀ g ∈ s.goals, g.goalID ≠ r.goals.newID)
    ⟨fun ⟨hp, hid, hu, hg⟩ => ⟨hp, hid, hu, hg⟩, fun ⟨hp, hid, hu, hg⟩ => ⟨hp, hid, hu, hg⟩⟩

def step (u : SiteTables) (deps : Deps) (actorID : UserID) (s : State) (r : Served) : Option State :=
  if Fits actorID s r then some (serve u deps s r) else none

/-- The site that a request to create one adds. -/
def NewSite (s : State) (r : Served) (siteID : ℕ) : Prop :=
  (∃ body, r.request = .createSite body) ∧ siteID = nextSiteID (maxSiteID s.sites.rows)

/-- What has changed from `s` to `t` belongs to the sites of the actor, and so does what is
listed. -/
structure Within (s : State) (r : Served) (t : State) : Prop where
  grants : GrantWrites.Kept (fun siteID => siteID ∉ s.scope ∧ ¬ NewSite s r siteID)
    s.tables.grants t.tables.grants
  goals : GoalsHandlers.Kept (· ∉ s.scope) s.goals t.goals
  sites : ∀ row : SiteRow, row.siteID ∉ s.scope → ¬ NewSite s r row.siteID →
    (row ∈ t.sites.rows ↔ row ∈ s.sites.rows)
  listed : ∀ g ∈ listed s r, g.siteID ∈ s.scope

def Confined (u : SiteTables) (deps : Deps) (actorID : UserID) (s : State) (r : Served) : Prop :=
  ∀ t, step u deps actorID s r = some t → Within s r t

/-- The requests that reach a site outside the scope, with what is to be true for it:
* a user is created without `sites`, and gets a role on the site of the actor's row;
* the grants of a user are replaced, or the user is deleted, and one of the grants that go is
  on such a site;
* a goal is written or listed on such a site;
* a patch names such a site and changes its row. -/
inductive Overreaches (u : SiteTables) (deps : Deps) (s : State) (r : Served) (actor : User)
    (active : Option ℕ) : Request → Prop
  | createUser {req : CreateUserRequest} (makes : MakesUser u deps r.users actor req)
      (out : actor.siteID ∉ s.scope) :
      Overreaches u deps s r actor active (.createUser (some req))
  | updateSites {userID : UserID} {sites : List SiteRole} {siteID : ℕ}
      (removes : Removes deps r.users s.tables actor userID sites siteID)
      (out : siteID ∉ s.scope) :
      Overreaches u deps s r actor active (.updateSites (some userID) (some sites))
  | deleteUser {userID : UserID} {siteID : ℕ}
      (cascades : Cascades deps r.users s.tables actor userID siteID)
      (out : siteID ∉ s.scope) : Overreaches u deps s r actor active (.deleteUser (some userID))
  | createGoal {body : Option GoalRequest}
      (creates : Creates r.goals (activeSiteOr active actor.siteID) body)
      (out : activeSiteOr active actor.siteID ∉ s.scope) :
      Overreaches u deps s r actor active (.createGoal body)
  | updateGoal {goalID : ℕ} {req : GoalRequest} {existing : Goal}
      (overwrites : Overwrites r.goals s.goals
        (req.goal (activeSiteOr active actor.siteID) goalID) existing)
      (out : activeSiteOr active actor.siteID ∉ s.scope) :
      Overreaches u deps s r actor active (.updateGoal (some goalID) (some req))
  | disableGoal {goalID : ℕ} {g existing : Goal}
      (found : GoalsHandlers.get r.goals s.goals (activeSiteOr active actor.siteID) goalID = .ok g)
      (overwrites : Overwrites r.goals s.goals { g with enabled := false } existing)
      (out : activeSiteOr active actor.siteID ∉ s.scope) :
      Overreaches u deps s r actor active (.disableGoal (some goalID))
  | listGoals {g : Goal} (answered : r.goals.fails .list = false) (mem : g ∈ s.goals)
      (site : g.siteID = activeSiteOr active actor.siteID)
      (out : activeSiteOr active actor.siteID ∉ s.scope) :
      Overreaches u deps s r actor active .listGoals
  | updateSite {siteIDParam : String} {req : UpdateSiteRequest} {siteID : ℕ}
      (parsed : parseSiteID siteIDParam = some siteID)
      (alters : PatchAlters u r.sites s.sites siteID req) (out : siteID ∉ s.scope) :
      Overreaches u deps s r actor active (.updateSite siteIDParam (some req))

def Leaks (u : SiteTables) (deps : Deps) (s : State) (r : Served) : Prop :=
  ∃ actor active, guardOutcome s r = .next actor active ∧ Overreaches u deps s r actor active r.request

variable {u : SiteTables} {deps : Deps} {actorID : UserID} {s t : State} {r : Served} {actor : User}
  {active : Option ℕ}

private theorem roleRank_le_admin {role : Role} : roleRank role ≤ roleRank .admin ↔ role =
    .admin := by
  cases role <;> decide

/-- The actor as the handlers see it: with the grants of the table, and admin on the site of
the query parameter. -/
structure Admitted (actorID : UserID) (s : State) (actor : User) (active : Option ℕ) : Prop where
  userID : actor.userID = actorID
  sites : actor.sites = some (s.tables.grants actorID)
  active : ∀ siteID ∈ active, (s.tables.grants actorID).get siteID = some .admin

theorem canAccess_admin_iff {grants : Grants} (h : actor.sites = some grants) (siteID : ℕ) :
    actor.canAccessSite siteID .admin = true ↔ grants.get siteID = some .admin := by
  rw [canAccessSite_iff h]
  simp only [roleRank_le_admin, exists_eq_right]

theorem admitted (hfits : Fits actorID s r) (h : guardOutcome s r = .next actor active) :
    Admitted actorID s actor active := by
  simp only [guardOutcome, adminRoute, Route.serve] at h
  cases hp : r.principal with
  | none => simp [hp] at h
  | some p =>
    obtain rfl := hfits.principal p hp
    simp only [hp, Option.any_none, Bool.false_eq_true, if_false, SiteGuard.serve,
      requireSiteRole] at h
    by_cases hid : p.userID = uuidNil
    · simp [hid, hasAnyRole] at h
    · rw [if_neg hid] at h
      cases hload : loadUserSites r.users .guardGrants s.tables.grants p.userID with
      | none => simp [hload] at h
      | some grants =>
        obtain rfl := GrantWrites.loadUserSites_some hload
        simp only [hload] at h
        split_ifs at h with hany hparam
        · obtain ⟨rfl, rfl⟩ := Outcome.next.inj h
          exact ⟨rfl, rfl, by simp⟩
        · cases hparse : parseSiteID r.siteIDParam with
          | none => simp [hparse] at h
          | some siteID =>
            simp only [hparse] at h
            split_ifs at h with haccess
            obtain ⟨rfl, rfl⟩ := Outcome.next.inj h
            refine ⟨rfl, rfl, fun site hsite => ?_⟩
            obtain rfl := Option.some.inj hsite
            exact (canAccess_admin_iff rfl _).mp haccess

/-- The actor is admin on sites of the scope only. -/
def Inv (actorID : UserID) (s : State) : Prop :=
  ∀ siteID, (s.tables.grants actorID).get siteID = some .admin → siteID ∈ s.scope

theorem Admitted.canAccess_mem (ha : Admitted actorID s actor active) (hs : Inv actorID s)
    (siteID : ℕ) (h : actor.canAccessSite siteID .admin = true) : siteID ∈ s.scope :=
  hs siteID ((canAccess_admin_iff ha.sites siteID).mp h)

theorem createSite_tables (u : SiteTables) (s : State) (r : Served) (actor : User)
    (body : Option CreateSiteRequest) :
    (createSite u s r actor body).tables.grants = s.tables.grants ∧
        (createSite u s r actor body).scope = s.scope ∨
      (createSite u s r actor body).scope = nextSiteID (maxSiteID s.sites.rows) :: s.scope ∧
        ∀ other siteID, siteID ≠ nextSiteID (maxSiteID s.sites.rows) →
          ((createSite u s r actor body).tables.grants other).get siteID =
            (s.tables.grants other).get siteID := by
  cases body with
  | none => exact .inl ⟨rfl, rfl⟩
  | some req =>
    simp only [createSite]
    split
    · next grants _ hgrant =>
      refine .inr ⟨rfl, fun other siteID hne => ?_⟩
      rw [grantSite_get hgrant, if_neg fun h => hne h.2]
    · exact .inl ⟨rfl, rfl⟩

/-- A site that is created adds no row of another id and changes none. -/
theorem createSite_rows (body : Option CreateSiteRequest) {row : SiteRow}
    (h : row.siteID ≠ nextSiteID (maxSiteID s.sites.rows)) :
    row ∈ (createSite u s r actor body).sites.rows ↔ row ∈ s.sites.rows := by
  cases body with
  | none => exact Iff.rfl
  | some req =>
    have hsites : (createSite u s r actor (some req)).sites =
        (SitesHandlers.create u r.sites s.sites req).1 := by
      simp only [createSite]
      split <;> rfl
    have hinsert {new : SiteRow}
        (hnew : SitesHandlers.RowInsert u r.sites s.sites req new) :
        new.siteID = nextSiteID (maxSiteID s.sites.rows) := by
      obtain ⟨site, -, rfl⟩ := createSite_ok hnew.created
      rfl
    rw [hsites]
    rcases SitesHandlers.create_cases u r.sites s.sites req with
      ⟨hsame, -⟩ | ⟨new, hnew, ⟨hstate, -⟩ | ⟨policy, p, -, hstate⟩⟩
    · rw [hsame]
    · have hne : row ≠ new := fun heq => h (heq ▸ hinsert hnew)
      simp [hstate, SitesHandlers.State.insert, hne]
    · have hne : row ≠ new := fun heq => h (heq ▸ hinsert hnew)
      have hid : row.siteID ≠ new.siteID := fun heq => h (heq.trans (hinsert hnew))
      rw [hstate, SitesHandlers.withPolicy_rows,
        PatchedRows.mem_alterUpdate_of_ne (f := (·.withPolicy p)) _ (fun _ => rfl) hid]
      simp [SitesHandlers.State.insert, hne]

private theorem inv_dispatch (hdeps : deps.userSites = true) (hs : Inv actorID s)
    (hfits : Fits actorID s r) (ha : Admitted actorID s actor active) :
    Inv actorID (dispatch u deps s r actor active) := by
  intro siteID hadmin
  unfold dispatch at hadmin ⊢
  cases hreq : r.request with
  | createUser body =>
    simp only [hreq] at hadmin
    rw [GrantWrites.createUser_get u deps body hfits.userID_ne.2.symm] at hadmin
    exact hs siteID hadmin
  | updateUser userID body =>
    simp only [hreq, GrantWrites.updateUser_grants] at hadmin
    exact hs siteID hadmin
  | setEnabled userID enable =>
    simp only [hreq, GrantWrites.setEnabled_grants] at hadmin
    exact hs siteID hadmin
  | resetPassword userID body =>
    simp only [hreq, GrantWrites.resetPassword_grants] at hadmin
    exact hs siteID hadmin
  | deleteUser userID =>
    simp only [hreq] at hadmin
    rcases GrantWrites.deleteAccount_get _ _ _ hdeps userID siteID actorID with
      ⟨-, -, hnone⟩ | ⟨-, hsame⟩
    · rw [hnone] at hadmin
      simp at hadmin
    · exact hs siteID (hsame.symm.trans hadmin)
  | updateSites userID body =>
    simp only [hreq] at hadmin
    by_contra hout
    have hno : actor.canAccessSite siteID .admin = false := by
      simpa using fun h => hout (ha.canAccess_mem hs siteID h)
    rcases GrantWrites.updateSites_get _ _ hdeps hno userID body actorID with
      ⟨-, -, -, -, hnone⟩ | ⟨-, hsame⟩
    · rw [hnone] at hadmin
      simp at hadmin
    · exact hout (hs siteID (hsame.symm.trans hadmin))
  | createGoal body | updateGoal goalID body | disableGoal goalID | listGoals =>
    simp only [hreq] at hadmin
    exact hs siteID hadmin
  | createSite body =>
    simp only [hreq] at hadmin
    rcases createSite_tables u s r actor body with ⟨hgrants, hscope⟩ | ⟨hscope, hget⟩
    · rw [hgrants] at hadmin
      exact hscope ▸ hs siteID hadmin
    · rw [hscope]
      by_cases hnew : siteID = nextSiteID (maxSiteID s.sites.rows)
      · exact hnew ▸ List.mem_cons_self
      · rw [hget actorID siteID hnew] at hadmin
        exact List.mem_cons_of_mem _ (hs siteID hadmin)
  | updateSite siteIDParam body =>
    simp only [hreq, updateSite] at hadmin ⊢
    split at hadmin <;> exact hs siteID hadmin

theorem within_iff (hreq : ∀ body, r.request ≠ .createSite body) : Within s r t ↔
    GrantWrites.Kept (· ∉ s.scope) s.tables.grants t.tables.grants ∧
      GoalsHandlers.Kept (· ∉ s.scope) s.goals t.goals ∧
      (∀ row : SiteRow, row.siteID ∉ s.scope → (row ∈ t.sites.rows ↔ row ∈ s.sites.rows)) ∧
      ∀ g ∈ listed s r, g.siteID ∈ s.scope := by
  have hnew (siteID : ℕ) : ¬ NewSite s r siteID := fun ⟨⟨body, h⟩, _⟩ => hreq body h
  constructor
  · rintro ⟨hgrants, hgoals, hsites, hlisted⟩
    exact ⟨fun userID siteID hout => hgrants userID siteID ⟨hout, hnew siteID⟩, hgoals,
      fun row hout => hsites row hout (hnew row.siteID), hlisted⟩
  · rintro ⟨hgrants, hgoals, hsites, hlisted⟩
    exact ⟨fun userID siteID hout => hgrants userID siteID hout.1, hgoals,
      fun row hout _ => hsites row hout, hlisted⟩

theorem listed_of_ne (hreq : r.request ≠ .listGoals) : listed s r = [] := by
  unfold listed
  split
  · next heq => exact absurd heq hreq
  · rfl

/-- A request of users reaches no more than the grants that it changes. -/
theorem within_tables_iff {tables : Tables} (hreq : ∀ body, r.request ≠ .createSite body)
    (hlist : r.request ≠ .listGoals) : Within s r { s with tables := tables } ↔
      GrantWrites.Kept (· ∉ s.scope) s.tables.grants tables.grants := by
  rw [within_iff hreq, listed_of_ne hlist]
  simp [GoalsHandlers.Kept.of_eq]

theorem within_goals_iff {goals : List Goal} (hreq : ∀ body, r.request ≠ .createSite body)
    (hlist : r.request ≠ .listGoals) : Within s r { s with goals := goals } ↔
      GoalsHandlers.Kept (· ∉ s.scope) s.goals goals := by
  rw [within_iff hreq, listed_of_ne hlist]
  simp [GrantWrites.Kept.of_eq]

private theorem within_createSite
    (body : Option CreateSiteRequest) (hreq : r.request = .createSite body) :
    Within s r (createSite u s r actor body) := by
  have hnew {siteID : ℕ} (h : ¬ NewSite s r siteID) :
      siteID ≠ nextSiteID (maxSiteID s.sites.rows) := fun heq => h ⟨⟨body, hreq⟩, heq⟩
  have hlist : r.request ≠ .listGoals := by simp [hreq]
  refine ⟨fun other siteID hout => ?_, ?_, fun row _ hrow => createSite_rows body (hnew hrow), ?_⟩
  · rcases createSite_tables u s r actor body with ⟨hgrants, -⟩ | ⟨-, hget⟩
    · rw [hgrants]
    · exact hget other siteID (hnew hout.2)
  · apply GoalsHandlers.Kept.of_eq
    cases body with
    | none => rfl
    | some req =>
      simp only [createSite]
      split <;> rfl
  · simp [listed_of_ne hlist]

private theorem within_updateSite_iff {siteIDParam : String} {body : Option UpdateSiteRequest}
    (hreq : r.request = .updateSite siteIDParam body) :
    Within s r (updateSite u s r siteIDParam body) ↔ ¬ ∃ siteID req,
      parseSiteID siteIDParam = some siteID ∧ body = some req ∧
        PatchAlters u r.sites s.sites siteID req ∧ siteID ∉ s.scope := by
  rw [within_iff (by simp [hreq]), listed_of_ne (by simp [hreq])]
  cases hparse : parseSiteID siteIDParam with
  | none => simp [updateSite, hparse, GrantWrites.Kept.of_eq, GoalsHandlers.Kept.of_eq]
  | some siteID => cases body with
    | none => simp [updateSite, hparse, GrantWrites.Kept.of_eq, GoalsHandlers.Kept.of_eq]
    | some req =>
      obtain ⟨policy, currency, tz, enabled, hrows, halters⟩ :=
        PatchedRows.updateSite_rows u r.sites s.sites siteID req
      have hsame := PatchedRows.alterUpdate_same_iff s.sites.rows siteID
        (PatchedRows.patched_patched policy currency tz enabled)
      have hother {row : SiteRow} (hne : row.siteID ≠ siteID) :=
        PatchedRows.mem_alterUpdate_of_ne s.sites.rows
          (PatchedRows.patched_siteID policy currency tz enabled) hne
      simp only [updateSite, hparse, hrows, GrantWrites.Kept.of_eq, GoalsHandlers.Kept.of_eq,
        true_and, List.not_mem_nil, false_imp_iff, implies_true, and_true, Option.some.injEq]
      constructor
      · rintro h ⟨id, req', rfl, rfl, hpatch, hout⟩
        obtain ⟨row, hrow, hid, hne⟩ := halters.mpr hpatch
        exact hne (hsame.mp (fun row' hid' => h row' (hid' ▸ hout)) row hrow hid)
      · intro hno row hout
        by_cases hid : row.siteID = siteID
        · refine hsame.mpr (fun row' hrow' hid' => ?_) row hid
          by_contra hne
          exact hno ⟨siteID, req, rfl, rfl, halters.mp ⟨row', hrow', hid', hne⟩, hid ▸ hout⟩
        · exact hother hid

private theorem within_listGoals_iff (hreq : r.request = .listGoals)
    (hnext : guardOutcome s r = .next actor active) : Within s r s ↔
      ¬ ∃ g ∈ s.goals, r.goals.fails .list = false ∧
        g.siteID = activeSiteOr active actor.siteID ∧
        activeSiteOr active actor.siteID ∉ s.scope := by
  have hlisted : listed s r = (listGoals r.goals s.goals (activeSiteOr active actor.siteID)).1 := by
    simp [listed, hnext, hreq]
  rw [within_iff (by simp [hreq]), hlisted]
  simp only [GrantWrites.Kept.of_eq, GoalsHandlers.Kept.of_eq, implies_true, true_and, mem_listGoals]
  constructor
  · rintro h ⟨g, hg, hans, hsite, hout⟩
    exact hout (hsite ▸ h g ⟨hans, hg, hsite⟩)
  · rintro hno g ⟨hans, hg, hsite⟩
    by_contra hout
    exact hno ⟨g, hg, hans, hsite, hsite ▸ hout⟩

/-- A request stays within the scope exactly when it does not overreach. -/
theorem within_dispatch_iff (hdeps : deps.userSites = true) (hs : Inv actorID s)
    (hfits : Fits actorID s r) (hnext : guardOutcome s r = .next actor active) :
    Within s r (dispatch u deps s r actor active) ↔
      ¬ Overreaches u deps s r actor active r.request := by
  have ha := admitted hfits hnext
  have hmem (siteID : ℕ) (h : actor.canAccessSite siteID .admin = true) : ¬ siteID ∉ s.scope :=
    not_not_intro (ha.canAccess_mem hs siteID h)
  unfold dispatch
  cases hreq : r.request with
  | createUser body =>
    simp only
    rw [within_tables_iff (by simp [hreq]) (by simp [hreq]),
      GrantWrites.createUser_kept_iff hdeps hfits.userID_ne.1 hfits.user_new hmem]
    refine not_congr ⟨?_, ?_⟩
    · rintro ⟨req, rfl, hmakes, hout⟩
      exact .createUser hmakes hout
    · intro h
      cases h with
      | createUser hmakes hout => exact ⟨_, rfl, hmakes, hout⟩
  | updateUser userID body =>
    simp only
    rw [within_tables_iff (by simp [hreq]) (by simp [hreq])]
    exact iff_of_true (GrantWrites.Kept.of_eq (GrantWrites.updateUser_grants ..)) (by rintro ⟨⟩)
  | setEnabled userID enable =>
    simp only
    rw [within_tables_iff (by simp [hreq]) (by simp [hreq])]
    exact iff_of_true (GrantWrites.Kept.of_eq (GrantWrites.setEnabled_grants ..)) (by rintro ⟨⟩)
  | resetPassword userID body =>
    simp only
    rw [within_tables_iff (by simp [hreq]) (by simp [hreq])]
    exact iff_of_true (GrantWrites.Kept.of_eq (GrantWrites.resetPassword_grants ..)) (by rintro ⟨⟩)
  | deleteUser userID =>
    simp only
    rw [within_tables_iff (by simp [hreq]) (by simp [hreq]),
      GrantWrites.deleteAccount_kept_iff hdeps]
    refine not_congr ⟨?_, ?_⟩
    · rintro ⟨id, siteID, rfl, hcascades, hout⟩
      exact .deleteUser hcascades hout
    · intro h
      cases h with
      | deleteUser hcascades hout => exact ⟨_, _, rfl, hcascades, hout⟩
  | updateSites userID body =>
    simp only
    rw [within_tables_iff (by simp [hreq]) (by simp [hreq]),
      GrantWrites.updateSites_kept_iff hdeps hmem]
    refine not_congr ⟨?_, ?_⟩
    · rintro ⟨id, sites, siteID, rfl, rfl, hremoves, hout⟩
      exact .updateSites hremoves hout
    · intro h
      cases h with
      | updateSites hremoves hout => exact ⟨_, _, _, rfl, rfl, hremoves, hout⟩
  | createGoal body =>
    simp only
    rw [within_goals_iff (by simp [hreq]) (by simp [hreq]), createGoal_kept_iff hfits.goal_new]
    refine not_congr ⟨?_, ?_⟩
    · rintro ⟨hout, hcreates⟩
      exact .createGoal hcreates hout
    · intro h
      cases h with
      | createGoal hcreates hout => exact ⟨hout, hcreates⟩
  | updateGoal goalID body =>
    simp only
    rw [within_goals_iff (by simp [hreq]) (by simp [hreq]), updateGoal_kept_iff]
    refine not_congr ⟨?_, ?_⟩
    · rintro ⟨hout, id, req, existing, rfl, rfl, hover⟩
      exact .updateGoal hover hout
    · intro h
      cases h with
      | updateGoal hover hout => exact ⟨hout, _, _, _, rfl, rfl, hover⟩
  | disableGoal goalID =>
    simp only
    rw [within_goals_iff (by simp [hreq]) (by simp [hreq]), disableGoal_kept_iff]
    refine not_congr ⟨?_, ?_⟩
    · rintro ⟨hout, id, g, existing, rfl, hget, hover⟩
      exact .disableGoal hget hover hout
    · intro h
      cases h with
      | disableGoal hget hover hout => exact ⟨hout, _, _, _, rfl, hget, hover⟩
  | listGoals =>
    simp only
    rw [within_listGoals_iff hreq hnext]
    refine not_congr ⟨?_, ?_⟩
    · rintro ⟨g, hg, hans, hsite, hout⟩
      exact .listGoals hans hg hsite hout
    · intro h
      cases h with
      | listGoals hans hg hsite hout => exact ⟨_, hg, hans, hsite, hout⟩
  | createSite body =>
    exact iff_of_true (within_createSite body hreq) (by rintro ⟨⟩)
  | updateSite siteIDParam body =>
    simp only
    rw [within_updateSite_iff hreq]
    refine not_congr ⟨?_, ?_⟩
    · rintro ⟨siteID, req, hparse, rfl, halters, hout⟩
      exact .updateSite hparse halters hout
    · intro h
      cases h with
      | updateSite hparse halters hout => exact ⟨_, _, hparse, rfl, halters, hout⟩

theorem step_some (h : step u deps actorID s r = some t) :
    Fits actorID s r ∧ t = serve u deps s r := by
  unfold step at h
  split at h
  · next hfits => exact ⟨hfits, (Option.some.inj h).symm⟩
  · simp at h

theorem serve_of_refused (h : ∀ actor active, guardOutcome s r ≠ .next actor active) :
    serve u deps s r = s := by
  unfold serve
  split
  · next heq => exact absurd heq (h _ _)
  · rfl

theorem inv_step (hdeps : deps.userSites = true) (hs : Inv actorID s)
    (h : step u deps actorID s r = some t) : Inv actorID t := by
  obtain ⟨hfits, rfl⟩ := step_some h
  by_cases hnext : ∃ actor active, guardOutcome s r = .next actor active
  · obtain ⟨actor, active, hnext⟩ := hnext
    simp only [serve, hnext]
    exact inv_dispatch hdeps hs hfits (admitted hfits hnext)
  · push Not at hnext
    rw [serve_of_refused hnext]
    exact hs

private theorem step_confined_iff (hdeps : deps.userSites = true) (hs : Inv actorID s)
    (h : step u deps actorID s r = some t) :
    Confined u deps actorID s r ↔ ¬ Leaks u deps s r := by
  have hone : Confined u deps actorID s r ↔ Within s r t := by
    constructor
    · exact fun hconf => hconf t h
    · intro hwithin t' ht'
      obtain rfl : t = t' := Option.some.inj (h.symm.trans ht')
      exact hwithin
  obtain ⟨hfits, rfl⟩ := step_some h
  rw [hone]
  by_cases hnext : ∃ actor active, guardOutcome s r = .next actor active
  · obtain ⟨actor, active, hnext⟩ := hnext
    have hstate : serve u deps s r = dispatch u deps s r actor active := by simp only [serve, hnext]
    rw [hstate, within_dispatch_iff hdeps hs hfits hnext]
    refine not_congr ⟨fun hover => ⟨actor, active, hnext, hover⟩, ?_⟩
    rintro ⟨actor', active', hnext', hover⟩
    obtain ⟨rfl, rfl⟩ := Outcome.next.inj (hnext.symm.trans hnext')
    exact hover
  · have hlisted : listed s r = [] := by
      unfold listed
      split
      · next heq _ => exact absurd ⟨_, _, heq⟩ hnext
      · rfl
    rw [serve_of_refused (by simpa using hnext)]
    refine iff_of_true ⟨GrantWrites.Kept.of_eq rfl, GoalsHandlers.Kept.of_eq rfl,
      fun _ _ _ => Iff.rfl, by simp [hlisted]⟩ ?_
    rintro ⟨actor, active, heq, -⟩
    exact hnext ⟨actor, active, heq⟩

/-- The requests of an actor stay within the sites on which the grants make the actor admin
exactly when none of them overreaches. -/
theorem confined_iff_along (u : SiteTables) {deps : Deps} (hdeps : deps.userSites = true)
    {actorID : UserID} {s t : State} {rs : List Served}
    (hscope : ∀ siteID, siteID ∈ s.scope ↔ (s.tables.grants actorID).get siteID = some .admin)
    (h : exec (step u deps actorID) s rs = some t) :
    Along (step u deps actorID) (Confined u deps actorID) s rs ↔
      Along (step u deps actorID) (fun s r => ¬ Leaks u deps s r) s rs :=
  along_congr_of_exec (I := Inv actorID) (fun _ _ _ hs h => inv_step hdeps hs h)
    (fun _ _ _ hs h => step_confined_iff hdeps hs h) h fun siteID hadmin => (hscope siteID).mpr hadmin

/-- An account whose row is on site 1. -/
def sampleActor : User where
  userID := 5
  siteID := 1
  email := "ops@shop.example"
  username := "ops"
  role := .admin

/-- The grants make the actor admin on site 2 alone. -/
def sampleState : State where
  tables := ⟨[⟨sampleActor, "hash"⟩], fun userID => if userID = 5 then [(2, .admin)] else []⟩
  goals := []
  sites := ⟨[], none⟩
  scope := [2]

def sampleDeps : Deps where
  hashPassword := some
  userSites := true
  defaultSiteID := 1

/-- A goal is created, with a query parameter or with none. -/
def goalRequest (siteIDParam : String) : Served where
  principal := some sampleActor
  siteIDParam := siteIDParam
  request := .createGoal (some {
    name := "signup"
    matchType := .eventNameEquals
    pattern := "signup"
    enabled := true })
  users := { fails := fun _ => false, now := 0, newID := 9, rank := id }
  goals := { fails := fun _ => false, now := 0, newID := 7 }
  sites := fun _ => false

private theorem sampleState_scope (siteID : ℕ) : siteID ∈ sampleState.scope ↔
    (sampleState.tables.grants sampleActor.userID).get siteID = some .admin := by
  have hget : (sampleState.tables.grants sampleActor.userID).get siteID =
      if 2 = siteID then some .admin else none := get_cons (2, .admin) [] siteID
  rw [hget]
  simp [sampleState, eq_comm]

theorem confined_iff_along_siteParam :
    Along (step sampleTables sampleDeps sampleActor.userID)
      (Confined sampleTables sampleDeps sampleActor.userID) sampleState [goalRequest "2"] := by
  have hrun : exec (step sampleTables sampleDeps sampleActor.userID) sampleState [goalRequest "2"] =
      some (serve sampleTables sampleDeps sampleState (goalRequest "2")) := by
    have hfits : Fits sampleActor.userID sampleState (goalRequest "2") := by decide
    simp [exec, step, hfits]
  refine (confined_iff_along sampleTables rfl sampleState_scope hrun).mpr ⟨?_, fun _ _ => trivial⟩
  rintro ⟨actor, active, hnext, hover⟩
  have hactive : guardOutcome sampleState (goalRequest "2") =
      .next { sampleActor with sites := some [(2, .admin)] } (some 2) := by decide +kernel
  obtain ⟨-, rfl⟩ := Outcome.next.inj (hactive.symm.trans hnext)
  cases hover with
  | createGoal _ hout => exact hout (show (2 : ℕ) ∈ [2] from List.mem_cons_self)

/-- Without the parameter the goal is created on site 1. -/
theorem goal_outside_grants : ¬ Along (step sampleTables sampleDeps sampleActor.userID)
    (Confined sampleTables sampleDeps sampleActor.userID) sampleState [goalRequest ""] := by
  rintro ⟨hconf, -⟩
  have hfits : Fits sampleActor.userID sampleState (goalRequest "") := by decide
  have hwithin := hconf (serve sampleTables sampleDeps sampleState (goalRequest "")) (if_pos hfits)
  have hgoal := hwithin.goals
    { goalID := 7, siteID := 1, name := "signup", matchType := .eventNameEquals
      pattern := "signup", value := 0, enabled := true } (by decide)
  revert hgoal
  decide +kernel

end Statnive.AdminConfinement
