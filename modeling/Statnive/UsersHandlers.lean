import Mathlib.Logic.Function.Basic
import Statnive.AuthStore
import Statnive.AuthGuards
import Statnive.SiteRegistry

/-!
# The admin handlers of users

Creating, changing and deleting an account, and the roles per site that go with it. The
requests are served one after the other, so that a read of the grants, which the cache
before the table drops at each write, is one of the table. A request comes with the calls
of the stores that fail while it is served.
-/

namespace Statnive.UsersHandlers

open AuthTypes AuthStore AuthGuards
open SiteRegistry (Unicode)
open IngestHandler (trimSpace)

/-- The map with one more grant, or another role for one it has. -/
def assign (g : Grants) (siteID : ℕ) (role : Role) : Grants :=
  (siteID, role) :: g.filter (fun kv => kv.1 ≠ siteID)

def without (g : Grants) (siteID : ℕ) : Grants := g.filter (fun kv => kv.1 ≠ siteID)

theorem get_cons (kv : ℕ × Role) (g : Grants) (siteID : ℕ) :
    Grants.get (kv :: g) siteID = if kv.1 = siteID then some kv.2 else Grants.get g siteID := by
  by_cases h : kv.1 = siteID <;> simp [Grants.get, h]

theorem get_without (g : Grants) (siteID other : ℕ) :
    (without g siteID).get other = if other = siteID then none else g.get other := by
  induction g with
  | nil => simp [without, Grants.get]
  | cons kv g ih =>
    by_cases hkv : kv.1 = siteID
    · have hdrop : without (kv :: g) siteID = without g siteID := by simp [without, hkv]
      rw [hdrop, ih, get_cons, hkv]
      by_cases h : other = siteID
      · simp [h]
      · simp [h, Ne.symm h]
    · have hkeep : without (kv :: g) siteID = kv :: without g siteID := by simp [without, hkv]
      rw [hkeep, get_cons, get_cons, ih]
      by_cases h : other = siteID
      · simp [h, hkv]
      · simp [h]

theorem get_assign (g : Grants) (siteID other : ℕ) (role : Role) :
    (assign g siteID role).get other = if other = siteID then some role else g.get other := by
  have h : Grants.get (g.filter (fun kv => kv.1 ≠ siteID)) other =
      if other = siteID then none else g.get other := get_without g siteID other
  rw [assign, get_cons, h]
  by_cases hother : other = siteID
  · simp [hother]
  · simp [hother, Ne.symm hother]

/-- A site has a grant exactly when it is a key of the map. -/
theorem get_eq_none_iff {g : Grants} {siteID : ℕ} :
    g.get siteID = none ↔ siteID ∉ g.map Prod.fst := by
  simp only [Grants.get, Option.map_eq_none_iff, List.find?_eq_none, List.mem_map, not_exists,
    not_and, decide_eq_true_eq]

/-- The calls of the stores, of which any may fail. -/
inductive Query where
  | guardGrants | targetGrants | deletedGrants
  | createUser | getUser | changeUser | listUsers | revokeSessions | eraseUser | deleteUser
  | grant (siteID : ℕ)
  | revoke (siteID : ℕ)
  deriving DecidableEq

/-- What a request meets: the calls that fail, the clock, a new UUID, and the order of the
keys of a map in a loop over it. -/
structure Env where
  fails : Query → Bool
  now : ℤ
  newID : UserID
  rank : ℕ → ℕ

structure Deps where
  hashPassword : String → Option String
  /-- The store of grants per site is configured. -/
  userSites : Bool
  defaultSiteID : ℕ

structure Tables where
  users : List UserRow
  grants : UserID → Grants

def loadUserSites (env : Env) (q : Query) (grants : UserID → Grants) (userID : UserID) :
    Option Grants :=
  if userID = uuidNil || env.fails q then none else some (grants userID)

def grantSite (env : Env) (grants : UserID → Grants) (userID : UserID) (siteID : ℕ) (role : Role) :
    Option (UserID → Grants) :=
  if userID = uuidNil || siteID = 0 || !role.valid || env.fails (.grant siteID) then none
  else some (Function.update grants userID (assign (grants userID) siteID role))

def revokeSite (env : Env) (grants : UserID → Grants) (userID : UserID) (siteID : ℕ) :
    Option (UserID → Grants) :=
  if userID = uuidNil || siteID = 0 || env.fails (.revoke siteID) then none
  else some (Function.update grants userID (without (grants userID) siteID))

def normalizeEmail (u : Unicode) (raw : String) : String := u.lowerString (trimSpace raw)

/-- `none` is any error. -/
def createUserRow (u : Unicode) (env : Env) (users : List UserRow) (user : User)
    (pwHash : String) : Option (List UserRow) :=
  if !user.role.valid || normalizeEmail u user.email = "" || pwHash = "" ||
    env.fails .createUser then none
  else some (insertUserRow users
    { user with email := normalizeEmail u user.email, createdAt := env.now, updatedAt := env.now }
    pwHash)

def getUser (env : Env) (users : List UserRow) (userID : UserID) : Option User :=
  if env.fails .getUser then none else (getUserByID users userID).toOption

def listUsers (users : List UserRow) (siteID : ℕ) : List User :=
  (users.map UserRow.user).filter (fun u => u.siteID = siteID)

/-- The pairs of a map in the order in which a loop over it comes to them. -/
def visit (env : Env) (g : Grants) : Grants :=
  g.mergeSort (fun a b => env.rank a.1 ≤ env.rank b.1)

@[simp] theorem mem_visit {env : Env} {g : Grants} {kv : ℕ × Role} : kv ∈ visit env g ↔ kv ∈ g :=
  List.mem_mergeSort

def canManageUser (deps : Deps) (actor target : User) (targetGrants : Option Grants) : Bool :=
  if actor.sites = none || !deps.userSites then actor.siteID = target.siteID
  else match targetGrants with
  | none => false
  | some grants => grants.any (fun kv => actor.canAccessSite kv.1 .admin)

def hasOtherEnabledAdmin (users : List UserRow) (target : User) : Bool :=
  (listUsers users target.siteID).any
    (fun u => u.userID ≠ target.userID && u.role = .admin && !u.disabled)

structure SiteRole where
  siteID : ℕ
  role : Role
  deriving DecidableEq

structure CreateUserRequest where
  email : String := ""
  username : String := ""
  password : String := ""
  role : Role := .other
  sites : List SiteRole := []
  deriving DecidableEq

/-- Viewer is the safe default. -/
def orViewer (role : Role) : Role := if role.valid then role else .viewer

/-- The site and the role of the new row. -/
def newUserSite (deps : Deps) (actor : User) (req : CreateUserRequest) : Except ℕ (ℕ × Role) :=
  match deps.userSites, req.sites with
  | true, first :: rest =>
    if (first :: rest).any (fun s => !actor.canAccessSite s.siteID .admin) then .error 403
    else .ok (if deps.defaultSiteID ≠ 0 then deps.defaultSiteID else actor.siteID,
      orViewer first.role)
  | _, _ => if req.role.valid then .ok (actor.siteID, req.role) else .error 400

/-- The grants that a new user is to have. -/
def newUserGrants (deps : Deps) (req : CreateUserRequest) (siteID : ℕ) (role : Role) :
    List SiteRole :=
  if !deps.userSites then []
  else if req.sites = [] then [⟨siteID, role⟩]
  else req.sites.map (fun s => ⟨s.siteID, orViewer s.role⟩)

/-- A grant that fails is passed over. -/
def grantEach (env : Env) (grants : UserID → Grants) (userID : UserID) (sites : List SiteRole) :
    UserID → Grants :=
  sites.foldl (fun g s => (grantSite env g userID s.siteID s.role).getD g) grants

def createUser (u : Unicode) (deps : Deps) (env : Env) (t : Tables) (actor : User)
    (body : Option CreateUserRequest) : Tables × ℕ :=
  match body with
  | none => (t, 400)
  | some req =>
    if u.lowerString (trimSpace req.email) = "" || req.password = "" || trimSpace req.username = ""
    then (t, 400)
    else match newUserSite deps actor req with
    | .error status => (t, status)
    | .ok (siteID, role) => match deps.hashPassword req.password with
      | none => (t, 400)
      | some hash =>
        let user : User := {
          userID := env.newID
          siteID := siteID
          email := u.lowerString (trimSpace req.email)
          username := trimSpace req.username
          role := role }
        match createUserRow u env t.users user hash with
        | none => (t, 500)
        | some users =>
          (⟨users, grantEach env t.grants env.newID (newUserGrants deps req siteID role)⟩, 201)

/-- `CachedStore` changes the row and then revokes the sessions of the user. -/
def cachedChange (env : Env) (t : Tables) (userID : UserID) (change : Change) :
    Tables × Except (Option AuthError) Unit :=
  if env.fails .changeUser then (t, .error none)
  else match changeUser t.users userID change env.now with
  | .error err => (t, .error (some err))
  | .ok users => ({ t with users := users },
      if env.fails .revokeSessions then .error none else .ok ())

/-- The target of a request, if the actor may manage it. -/
def managedTarget (deps : Deps) (env : Env) (t : Tables) (actor : User) (userID : UserID) :
    Except ℕ User :=
  match getUser env t.users userID with
  | none => .error 404
  | some target =>
    if canManageUser deps actor target (loadUserSites env .targetGrants t.grants userID) then
      .ok target
    else .error 403

def changeStatus : Except (Option AuthError) Unit → ℕ
  | .error (some .notFound) => 404
  | .error _ => 500
  | .ok () => 200

/-- The role is changed before the target is looked at; `none` is a body that does not decode,
and the role is the trimmed one. -/
def updateUser (deps : Deps) (env : Env) (t : Tables) (actor : User) (userID : Option UserID)
    (body : Option Role) : Tables × ℕ :=
  match userID, body with
  | some userID, some role =>
    if !role.valid then (t, 400)
    else match cachedChange env t userID (.changeRole (some role)) with
    | (t', .error err) => (t', changeStatus (.error err))
    | (t', .ok ()) => match managedTarget deps env t' actor userID with
      | .error status => (t', status)
      | .ok _ => (t', 200)
  | _, _ => (t, 400)

/-- `enabled` has no effect on the row, as enabling is not implemented. -/
def setEnabled (deps : Deps) (env : Env) (t : Tables) (actor : User) (userID : Option UserID)
    (enable : Bool) : Tables × ℕ :=
  match userID with
  | none => (t, 400)
  | some userID => match managedTarget deps env t actor userID with
    | .error status => (t, status)
    | .ok _ =>
      if enable then (t, 204)
      else match cachedChange env t userID .disableUser with
      | (t', .error _) => (t', 500)
      | (t', .ok ()) => (t', 204)

def resetPassword (deps : Deps) (env : Env) (t : Tables) (actor : User) (userID : Option UserID)
    (body : Option String) : Tables × ℕ :=
  match userID, body with
  | some userID, some password =>
    if password = "" then (t, 400)
    else match managedTarget deps env t actor userID with
    | .error status => (t, status)
    | .ok _ => match deps.hashPassword password with
      | none => (t, 400)
      | some hash => match cachedChange env t userID (.updateUserPassword hash) with
        | (t', .error _) => (t', 500)
        | (t', .ok ()) => (t', 204)
  | _, _ => (t, 400)

/-- The guards of a deletion. -/
def checkDelete (deps : Deps) (env : Env) (t : Tables) (actor : User) (userID : UserID) :
    Except ℕ Unit :=
  if userID = actor.userID then .error 403
  else match managedTarget deps env t actor userID with
  | .error status => .error status
  | .ok target =>
    if target.role ≠ .admin then .ok ()
    else if env.fails .listUsers then .error 500
    else if hasOtherEnabledAdmin t.users target then .ok () else .error 409

/-- The grants are revoked one after the other, up to the first failure. -/
def revokeAll (env : Env) (userID : UserID) (grants : UserID → Grants) :
    List ℕ → (UserID → Grants) × Bool
  | [] => (grants, true)
  | siteID :: rest => match revokeSite env grants userID siteID with
    | none => (grants, false)
    | some grants' => revokeAll env userID grants' rest

/-- The second step of the cascade, which is left out where there are no grants. -/
def revokeGrants (deps : Deps) (env : Env) (t : Tables) (userID : UserID) : Tables × Bool :=
  if !deps.userSites then (t, true)
  else match loadUserSites env .deletedGrants t.grants userID with
  | none => (t, false)
  | some grants =>
    let revoked := revokeAll env userID t.grants ((visit env grants).map Prod.fst)
    ({ t with grants := revoked.1 }, revoked.2)

/-- Sessions, grants, data, and the row last. -/
def cascadeEraseAndDelete (deps : Deps) (env : Env) (t : Tables) (userID : UserID) : Tables × ℕ :=
  if env.fails .revokeSessions then (t, 500)
  else match revokeGrants deps env t userID with
  | (t', false) => (t', 500)
  | (t', true) =>
    if env.fails .eraseUser || env.fails .deleteUser then (t', 500)
    else match deleteUser t'.users userID with
    | .error _ => (t', 500)
    | .ok users => ({ t' with users := users }, 204)

def deleteAccount (deps : Deps) (env : Env) (t : Tables) (actor : User) (userID : Option UserID) :
    Tables × ℕ :=
  match userID with
  | none => (t, 400)
  | some userID => match checkDelete deps env t actor userID with
    | .error status => (t, status)
    | .ok () => cascadeEraseAndDelete deps env t userID

/-- The actor must be admin on a site of the target, and on each site of the request. -/
def checkUpdateSites (deps : Deps) (env : Env) (t : Tables) (actor : User) (userID : UserID)
    (sites : List SiteRole) : Except ℕ Grants :=
  match getUser env t.users userID with
  | none => .error 404
  | some target => match loadUserSites env .targetGrants t.grants userID with
    | none => .error 500
    | some current =>
      if !canManageUser deps actor target (some current) then .error 403
      else if sites.any (fun s => !actor.canAccessSite s.siteID .admin) then .error 403
      else .ok current

/-- The roles that a request asks for; of two for one site the last. -/
def wanted (sites : List SiteRole) : Grants :=
  sites.foldl (fun g s => assign g s.siteID (orViewer s.role)) []

/-- New and changed grants are written one after the other, up to the first failure. -/
def grantChanged (env : Env) (userID : UserID) (current : Grants) (grants : UserID → Grants) :
    Grants → (UserID → Grants) × Bool
  | [] => (grants, true)
  | (siteID, role) :: rest =>
    if current.get siteID = some role then grantChanged env userID current grants rest
    else match grantSite env grants userID siteID role with
    | none => (grants, false)
    | some grants' => grantChanged env userID current grants' rest

/-- A revoke that fails is passed over. -/
def revokeUnwanted (env : Env) (userID : UserID) (keep : Grants) (grants : UserID → Grants)
    (current : Grants) : UserID → Grants :=
  current.foldl (fun g kv => if (keep.get kv.1).isSome then g
    else (revokeSite env g userID kv.1).getD g) grants

def updateSites (deps : Deps) (env : Env) (t : Tables) (actor : User) (userID : Option UserID)
    (body : Option (List SiteRole)) : Tables × ℕ :=
  if !deps.userSites then (t, 501)
  else match userID, body with
  | some userID, some sites => match checkUpdateSites deps env t actor userID sites with
    | .error status => (t, status)
    | .ok current =>
      match grantChanged env userID current t.grants (visit env (wanted sites)) with
      | (grants, false) => ({ t with grants := grants }, 500)
      | (grants, true) =>
        (⟨t.users, revokeUnwanted env userID (wanted sites) grants (visit env current)⟩, 204)
  | _, _ => (t, 400)

variable {env : Env} {grants : UserID → Grants} {userID : UserID}

theorem grantSite_some {grants' : UserID → Grants} {siteID : ℕ} {role : Role}
    (h : grantSite env grants userID siteID role = some grants') :
    (userID ≠ uuidNil ∧ siteID ≠ 0 ∧ role.valid = true ∧ env.fails (.grant siteID) = false) ∧
      grants' = Function.update grants userID (assign (grants userID) siteID role) := by
  simp only [grantSite] at h
  split_ifs at h with hbad
  refine ⟨?_, (Option.some.inj h).symm⟩
  simpa [and_assoc] using hbad

/-- A grant leaves the other users and the other sites. -/
theorem grantSite_get {grants' : UserID → Grants} {siteID : ℕ} {role : Role}
    (h : grantSite env grants userID siteID role = some grants') (other : UserID) (site : ℕ) :
    (grants' other).get site =
      if other = userID ∧ site = siteID then some role else (grants other).get site := by
  obtain ⟨-, rfl⟩ := grantSite_some h
  by_cases hother : other = userID
  · subst hother
    simp [get_assign]
  · simp [hother]

/-- A grant that can be revoked. -/
def Revocable (env : Env) (siteID : ℕ) : Bool := siteID ≠ 0 && !env.fails (.revoke siteID)

theorem revokeSite_eq (hid : userID ≠ uuidNil) (siteID : ℕ) :
    revokeSite env grants userID siteID = if Revocable env siteID then
      some (Function.update grants userID (without (grants userID) siteID)) else none := by
  by_cases hzero : siteID = 0
  · simp [revokeSite, Revocable, hzero]
  · by_cases hfails : env.fails (.revoke siteID) = true
    · simp [revokeSite, Revocable, hfails]
    · simp [revokeSite, Revocable, hid, hzero, hfails]

theorem update_without_get (other : UserID) (siteID site : ℕ) :
    (Function.update grants userID (without (grants userID) siteID) other).get site =
      if other = userID ∧ site = siteID then none else (grants other).get site := by
  by_cases hother : other = userID
  · subst hother
    simp [get_without]
  · simp [hother]

theorem grantEach_get (sites : List SiteRole) (other : UserID) {site : ℕ}
    (h : other = userID → site ∉ sites.map SiteRole.siteID) :
    (grantEach env grants userID sites other).get site = (grants other).get site := by
  induction sites generalizing grants with
  | nil => rfl
  | cons s sites ih =>
    have hrest : other = userID → site ∉ sites.map SiteRole.siteID :=
      fun hid hmem => h hid (List.mem_cons_of_mem _ hmem)
    have hne : ¬ (other = userID ∧ site = s.siteID) :=
      fun ⟨hid, hsite⟩ => h hid (by simp [hsite])
    have hstep : grantEach env grants userID (s :: sites) =
        grantEach env ((grantSite env grants userID s.siteID s.role).getD grants) userID sites := rfl
    rw [hstep, ih hrest]
    cases hg : grantSite env grants userID s.siteID s.role with
    | none => rfl
    | some grants' => rw [Option.getD_some, grantSite_get hg, if_neg hne]

theorem grantChanged_get {current : Grants} (todo : Grants) (other : UserID) {site : ℕ}
    (h : other = userID → site ∉ todo.map Prod.fst) :
    ((grantChanged env userID current grants todo).1 other).get site =
      (grants other).get site := by
  induction todo generalizing grants with
  | nil => rfl
  | cons kv todo ih =>
    obtain ⟨siteID, role⟩ := kv
    have hrest : other = userID → site ∉ todo.map Prod.fst :=
      fun hid hmem => h hid (List.mem_cons_of_mem _ hmem)
    have hne : ¬ (other = userID ∧ site = siteID) :=
      fun ⟨hid, hsite⟩ => h hid (by simp [hsite])
    simp only [grantChanged]
    split_ifs with hsame
    · exact ih hrest
    · cases hg : grantSite env grants userID siteID role with
      | none => rfl
      | some grants' =>
        change ((grantChanged env userID current grants' todo).1 other).get site = _
        rw [ih hrest, grantSite_get hg, if_neg hne]

/-- All that is to be granted is there already or can be written. -/
theorem grantChanged_done {current : Grants} (hid : userID ≠ uuidNil) {todo : Grants}
    (hvalid : ∀ kv ∈ todo, kv.2.valid = true) :
    (grantChanged env userID current grants todo).2 = true ↔
      ∀ kv ∈ todo, current.get kv.1 = some kv.2 ∨ kv.1 ≠ 0 ∧ env.fails (.grant kv.1) = false := by
  induction todo generalizing grants with
  | nil => simp [grantChanged]
  | cons kv todo ih =>
    obtain ⟨siteID, role⟩ := kv
    have hrest : ∀ kv ∈ todo, kv.2.valid = true := fun kv hkv => hvalid kv (List.mem_cons_of_mem _ hkv)
    have hrole : role.valid = true := hvalid (siteID, role) List.mem_cons_self
    simp only [grantChanged, List.forall_mem_cons]
    split_ifs with hsame
    · simp [hsame, ih hrest]
    · cases hg : grantSite env grants userID siteID role with
      | none =>
        have hbad : siteID = 0 ∨ env.fails (.grant siteID) = true := by
          by_contra hgood
          push Not at hgood
          simp [grantSite, hid, hrole, hgood] at hg
        have hfirst : ¬ (current.get siteID = some role ∨
            siteID ≠ 0 ∧ env.fails (.grant siteID) = false) := by
          rintro (h | ⟨hzero, hans⟩)
          · exact hsame h
          · rcases hbad with h | h
            · exact hzero h
            · simp [hans] at h
        simp [hfirst]
      | some grants' =>
        obtain ⟨⟨-, hzero, -, hans⟩, -⟩ := grantSite_some hg
        simp [hzero, hans, ih hrest]

theorem revokeUnwanted_get (hid : userID ≠ uuidNil) (keep current : Grants) (other : UserID)
    (site : ℕ) : (revokeUnwanted env userID keep grants current other).get site =
      if other = userID ∧ site ∈ current.map Prod.fst ∧ keep.get site = none ∧
        Revocable env site = true then none else (grants other).get site := by
  induction current generalizing grants with
  | nil => simp [revokeUnwanted]
  | cons kv current ih =>
    obtain ⟨siteID, role⟩ := kv
    have hstep : revokeUnwanted env userID keep grants ((siteID, role) :: current) =
        revokeUnwanted env userID keep (if (keep.get siteID).isSome then grants
          else (revokeSite env grants userID siteID).getD grants) current := rfl
    have hmem : site ∈ ((siteID, role) :: current).map Prod.fst ↔
        site = siteID ∨ site ∈ current.map Prod.fst := List.mem_cons
    rw [hstep, ih]
    simp only [hmem]
    by_cases hkeep : (keep.get siteID).isSome = true
    · have hne : keep.get site = none → site ≠ siteID := by
        rintro hnone rfl
        simp [hnone] at hkeep
      rw [if_pos hkeep]
      by_cases hnone : keep.get site = none
      · simp only [hnone, hne hnone, false_or]
      · simp only [hnone, false_and, and_false]
    · have hnone : keep.get siteID = none := by simpa using hkeep
      rw [if_neg hkeep, revokeSite_eq hid]
      by_cases hsite : site = siteID
      · subst hsite
        by_cases hrev : Revocable env site = true
        · simp only [hrev, if_true, Option.getD_some, update_without_get, hnone, true_or, and_true]
          by_cases hother : other = userID <;> simp [hother]
        · simp [hrev]
      · by_cases hrev : Revocable env siteID = true
        · simp only [hrev, if_true, Option.getD_some, update_without_get, hsite, and_false,
            false_or, if_false]
        · simp only [hrev, Bool.false_eq_true, if_false, Option.getD_none, hsite, false_or]

theorem revokeAll_get (hid : userID ≠ uuidNil) (sites : List ℕ) (other : UserID) (site : ℕ) :
    ((revokeAll env userID grants sites).1 other).get site =
      if other = userID ∧ site ∈ sites.takeWhile (Revocable env) then none
      else (grants other).get site := by
  induction sites generalizing grants with
  | nil => simp [revokeAll]
  | cons siteID sites ih =>
    simp only [revokeAll, revokeSite_eq hid]
    by_cases hrev : Revocable env siteID = true
    · simp only [hrev, if_true, List.takeWhile_cons_of_pos, List.mem_cons]
      rw [ih, update_without_get]
      by_cases hsite : site = siteID
      · by_cases hother : other = userID <;> simp [hother, hsite]
      · simp [hsite]
    · simp [hrev]

/-- Revoking ends well exactly when each of the grants can be revoked. -/
theorem revokeAll_done (hid : userID ≠ uuidNil) (sites : List ℕ) :
    (revokeAll env userID grants sites).2 = true ↔ ∀ siteID ∈ sites, Revocable env siteID = true := by
  induction sites generalizing grants with
  | nil => simp [revokeAll]
  | cons siteID sites ih =>
    simp only [revokeAll, revokeSite_eq hid, List.forall_mem_cons]
    by_cases hrev : Revocable env siteID = true
    · simp only [hrev, if_true, true_and]
      exact ih
    · simp [hrev]

theorem revokeGrants_users (deps : Deps) (env : Env) (t : Tables) (userID : UserID) :
    (revokeGrants deps env t userID).1.users = t.users := by
  unfold revokeGrants
  split
  · rfl
  · split <;> rfl

private theorem orViewer_valid (role : Role) : (orViewer role).valid = true := by
  cases role <;> rfl

theorem mem_wanted {sites : List SiteRole} {kv : ℕ × Role} (h : kv ∈ wanted sites) :
    kv.1 ∈ sites.map SiteRole.siteID ∧ kv.2.valid = true := by
  have hfold : ∀ (sites : List SiteRole) (g : Grants),
      kv ∈ sites.foldl (fun g s => assign g s.siteID (orViewer s.role)) g →
        kv ∈ g ∨ kv.1 ∈ sites.map SiteRole.siteID ∧ kv.2.valid = true := by
    intro sites
    induction sites with
    | nil => exact fun g h => Or.inl h
    | cons s sites ih =>
      intro g h
      rcases ih _ h with hmem | ⟨hsite, hvalid⟩
      · rcases List.mem_cons.mp hmem with rfl | hold
        · exact Or.inr ⟨by simp, orViewer_valid s.role⟩
        · exact Or.inl (List.mem_of_mem_filter hold)
      · exact Or.inr ⟨List.mem_cons_of_mem _ hsite, hvalid⟩
  rcases hfold sites [] h with hnil | hwanted
  · exact absurd hnil (by simp)
  · exact hwanted

end Statnive.UsersHandlers
