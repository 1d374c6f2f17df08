import Statnive.UsersHandlers

/-!
# The grants that a request writes

For each handler of users, when it leaves the grants on some sites alone.
-/

namespace Statnive.GrantWrites

open AuthTypes AuthStore UsersHandlers
open SiteRegistry (Unicode trimSpace_trimSpace trimSpace_lowerString lowerString_lowerString)
open IngestHandler (trimSpace)

/-- The grants on the sites `out` are as they were. -/
def Kept (out : ℕ → Prop) (grants grants' : UserID → Grants) : Prop :=
  ∀ userID siteID, out siteID → (grants' userID).get siteID = (grants userID).get siteID

theorem Kept.of_eq {out : ℕ → Prop} {grants grants' : UserID → Grants} (h : grants' = grants) :
    Kept out grants grants' := by
  subst h
  exact fun _ _ _ => rfl

variable {u : Unicode} {deps : Deps} {env : Env} {t : Tables} {actor : User} {userID : UserID}
  {out : ℕ → Prop}

theorem cachedChange_grants (env : Env) (t : Tables) (userID : UserID) (change : Change) :
    (cachedChange env t userID change).1.grants = t.grants := by
  unfold cachedChange
  split
  · rfl
  · cases changeUser t.users userID change env.now <;> rfl

theorem updateUser_grants (deps : Deps) (env : Env) (t : Tables) (actor : User)
    (userID : Option UserID) (body : Option Role) :
    (updateUser deps env t actor userID body).1.grants = t.grants := by
  cases userID with
  | none => rfl
  | some userID => cases body with
    | none => rfl
    | some role =>
      have h := cachedChange_grants env t userID (.changeRole (some role))
      simp only [updateUser]
      split_ifs
      · rfl
      · cases hc : cachedChange env t userID (.changeRole (some role)) with
        | mk t' result =>
          rw [hc] at h
          cases result with
          | error err => exact h
          | ok _ =>
            cases hm : managedTarget deps env t' actor userID <;> simpa only [hm] using h

theorem setEnabled_grants (deps : Deps) (env : Env) (t : Tables) (actor : User)
    (userID : Option UserID) (enable : Bool) :
    (setEnabled deps env t actor userID enable).1.grants = t.grants := by
  cases userID with
  | none => rfl
  | some userID =>
    have h := cachedChange_grants env t userID .disableUser
    simp only [setEnabled]
    cases managedTarget deps env t actor userID with
    | error status => rfl
    | ok target =>
      cases enable with
      | true => rfl
      | false =>
        cases hc : cachedChange env t userID .disableUser with
        | mk t' result =>
          rw [hc] at h
          cases result <;> exact h

theorem resetPassword_grants (deps : Deps) (env : Env) (t : Tables) (actor : User)
    (userID : Option UserID) (body : Option String) :
    (resetPassword deps env t actor userID body).1.grants = t.grants := by
  cases userID with
  | none => rfl
  | some userID => cases body with
    | none => rfl
    | some password =>
      simp only [resetPassword]
      split_ifs
      · rfl
      · cases managedTarget deps env t actor userID with
        | error status => rfl
        | ok target => cases deps.hashPassword password with
          | none => rfl
          | some hash =>
            have h := cachedChange_grants env t userID (.updateUserPassword hash)
            cases hc : cachedChange env t userID (.updateUserPassword hash) with
            | mk t' result =>
              rw [hc] at h
              cases result <;> simpa only [hc] using h

/-- A body without `sites` that makes a user with a grant on the site of the actor's row. -/
structure MakesUser (u : Unicode) (deps : Deps) (env : Env) (actor : User)
    (req : CreateUserRequest) : Prop where
  sites : req.sites = []
  email : u.lowerString (trimSpace req.email) ≠ ""
  username : trimSpace req.username ≠ ""
  password : req.password ≠ ""
  role : req.role.valid = true
  hash : ∃ hash, deps.hashPassword req.password = some hash ∧ hash ≠ ""
  created : env.fails .createUser = false
  granted : actor.siteID ≠ 0 ∧ env.fails (.grant actor.siteID) = false

theorem normalizeEmail_normalized (u : Unicode) (raw : String) :
    normalizeEmail u (u.lowerString (trimSpace raw)) = u.lowerString (trimSpace raw) := by
  rw [normalizeEmail, trimSpace_lowerString, trimSpace_trimSpace, lowerString_lowerString]

/-- The site of the new row, for a body without `sites`. -/
theorem newUserSite_nil {req : CreateUserRequest} (h : req.sites = []) :
    newUserSite deps actor req =
      if req.role.valid then .ok (actor.siteID, req.role) else .error 400 := by
  simp only [newUserSite, h]
  split
  · next heq => simp at heq
  · rfl

/-- The actor is admin on every site that a body names. -/
theorem newUserSite_ok {req : CreateUserRequest} {site : ℕ × Role} (hdeps : deps.userSites = true)
    (hsites : req.sites ≠ []) (h : newUserSite deps actor req = .ok site) :
    ∀ s ∈ req.sites, actor.canAccessSite s.siteID .admin = true := by
  obtain ⟨first, rest, hcons⟩ := List.exists_cons_of_ne_nil hsites
  simp only [newUserSite, hdeps, hcons] at h
  by_cases hbad : (first :: rest).any (fun s => !actor.canAccessSite s.siteID .admin) = true
  · rw [if_pos hbad] at h
    simp at h
  · rw [hcons]
    simpa using hbad

/-- What a create has checked before it writes. -/
structure Accepted (u : Unicode) (deps : Deps) (env : Env) (actor : User) (req : CreateUserRequest)
    (siteID : ℕ) (role : Role) : Prop where
  email : u.lowerString (trimSpace req.email) ≠ ""
  username : trimSpace req.username ≠ ""
  password : req.password ≠ ""
  site : newUserSite deps actor req = .ok (siteID, role)
  hash : ∃ hash, deps.hashPassword req.password = some hash ∧ hash ≠ ""
  created : env.fails .createUser = false

/-- A create leaves the grants alone or writes those that the new user is to have. -/
theorem createUser_cases (u : Unicode) (deps : Deps) (env : Env) (t : Tables) (actor : User)
    (body : Option CreateUserRequest) :
    (createUser u deps env t actor body).1.grants = t.grants ∨
      ∃ req siteID role, body = some req ∧ Accepted u deps env actor req siteID role ∧
        (createUser u deps env t actor body).1.grants =
          grantEach env t.grants env.newID (newUserGrants deps req siteID role) := by
  cases body with
  | none => exact Or.inl rfl
  | some req =>
    simp only [createUser]
    split_ifs with hempty
    · exact Or.inl rfl
    · simp only [Bool.or_eq_true, decide_eq_true_eq, not_or] at hempty
      obtain ⟨⟨hemail, hpassword⟩, husername⟩ := hempty
      cases hsite : newUserSite deps actor req with
      | error status => exact Or.inl rfl
      | ok site => cases hhash : deps.hashPassword req.password with
        | none => exact Or.inl rfl
        | some hash =>
          simp only
          split
          · exact Or.inl rfl
          · next users hrow =>
            simp only [createUserRow, Bool.or_eq_true, decide_eq_true_eq] at hrow
            split at hrow
            · simp at hrow
            · next hgood =>
              simp only [not_or, Bool.not_eq_true] at hgood
              exact Or.inr ⟨req, site.1, site.2, rfl,
                ⟨hemail, husername, hpassword, hsite, ⟨hash, hhash, hgood.1.2⟩, hgood.2⟩, rfl⟩

theorem MakesUser.grants {req : CreateUserRequest} (h : MakesUser u deps env actor req)
    (hdeps : deps.userSites = true) : (createUser u deps env t actor (some req)).1.grants =
      grantEach env t.grants env.newID [⟨actor.siteID, req.role⟩] := by
  obtain ⟨hash, hhash, hne⟩ := h.hash
  have hsite : newUserSite deps actor req = .ok (actor.siteID, req.role) := by
    rw [newUserSite_nil h.sites, if_pos h.role]
  simp [createUser, h.email, h.username, h.password, hsite, hhash, createUserRow, h.role, hne,
    normalizeEmail_normalized, h.created, newUserGrants, hdeps, h.sites]

/-- The grants of the others stay. -/
theorem createUser_get (u : Unicode) (deps : Deps) (body : Option CreateUserRequest)
    {other : UserID} (h : other ≠ env.newID) (siteID : ℕ) :
    ((createUser u deps env t actor body).1.grants other).get siteID =
      (t.grants other).get siteID := by
  rcases createUser_cases u deps env t actor body with heq | ⟨req, site, role, -, -, heq⟩
  · rw [heq]
  · rw [heq]
    exact grantEach_get _ other fun hid => absurd hid h

theorem createUser_kept_iff (hdeps : deps.userSites = true) (hid : env.newID ≠ uuidNil)
    (hnew : t.grants env.newID = [])
    (hactor : ∀ siteID, actor.canAccessSite siteID .admin = true → ¬ out siteID)
    (body : Option CreateUserRequest) :
    Kept out t.grants (createUser u deps env t actor body).1.grants ↔
      ¬ ∃ req, body = some req ∧ MakesUser u deps env actor req ∧ out actor.siteID := by
  constructor
  · rintro hkept ⟨req, rfl, hmakes, hout⟩
    have hsame := hkept env.newID actor.siteID hout
    have hgrant : grantSite env t.grants env.newID actor.siteID req.role = some
        (Function.update t.grants env.newID (assign (t.grants env.newID) actor.siteID req.role)) := by
      simp [grantSite, hid, hmakes.granted, hmakes.role]
    rw [hmakes.grants hdeps] at hsame
    simp [grantEach, hgrant, hnew, assign, Grants.get] at hsame
  · intro hno
    rcases createUser_cases u deps env t actor body with heq | ⟨req, siteID, role, rfl, hacc, heq⟩
    · exact Kept.of_eq heq
    · intro userID site hout
      rw [heq]
      by_cases hsites : req.sites = []
      · obtain ⟨hrole, rfl, rfl⟩ :
            req.role.valid = true ∧ actor.siteID = siteID ∧ req.role = role := by
          have hsite := hacc.site
          rw [newUserSite_nil hsites] at hsite
          split_ifs at hsite with hvalid
          simpa [hvalid] using hsite
        simp only [newUserGrants, hdeps, hsites, Bool.not_true, Bool.false_eq_true, if_false, if_true]
        by_cases hsame : site = actor.siteID
        · have hgranted : ¬ (actor.siteID ≠ 0 ∧ env.fails (.grant actor.siteID) = false) :=
            fun hgranted => hno ⟨req, rfl, ⟨hsites, hacc.email, hacc.username, hacc.password, hrole,
              hacc.hash, hacc.created, hgranted⟩, hsame ▸ hout⟩
          have hnone : grantSite env t.grants env.newID actor.siteID req.role = none := by
            cases hg : grantSite env t.grants env.newID actor.siteID req.role with
            | none => rfl
            | some grants' =>
              obtain ⟨⟨-, hzero, -, hans⟩, -⟩ := grantSite_some hg
              exact absurd ⟨hzero, hans⟩ hgranted
          simp [grantEach, hnone]
        · exact grantEach_get _ userID fun _ => by simpa using hsame
      · have hall := newUserSite_ok hdeps hsites hacc.site
        refine grantEach_get _ userID fun _ hmem => ?_
        simp only [newUserGrants, hdeps, hsites, Bool.not_true, Bool.false_eq_true, if_false,
          List.map_map, List.mem_map] at hmem
        obtain ⟨s, hs, rfl⟩ := hmem
        exact hactor s.siteID (hall s hs) hout

theorem getUser_ne {users : List UserRow} {target : User} (h : getUser env users userID = some target) :
    userID ≠ uuidNil := by
  rintro rfl
  simp only [getUser, getUserByID, if_true] at h
  split_ifs at h
  simp [Except.toOption] at h

theorem loadUserSites_some {q : Query} {grants : UserID → Grants} {g : Grants}
    (h : loadUserSites env q grants userID = some g) : g = grants userID := by
  simp only [loadUserSites] at h
  split_ifs at h
  exact (Option.some.inj h).symm

private theorem checkUpdateSites_ok {sites : List SiteRole} {current : Grants}
    (h : checkUpdateSites deps env t actor userID sites = .ok current) :
    userID ≠ uuidNil ∧ current = t.grants userID ∧
      ∀ s ∈ sites, actor.canAccessSite s.siteID .admin = true := by
  simp only [checkUpdateSites] at h
  cases htarget : getUser env t.users userID with
  | none => simp [htarget] at h
  | some target =>
    cases hload : loadUserSites env .targetGrants t.grants userID with
    | none => simp [htarget, hload] at h
    | some loaded =>
      simp only [htarget, hload] at h
      split_ifs at h with hmanage hbad
      refine ⟨getUser_ne htarget, ?_, by simpa using hbad⟩
      rw [← Except.ok.inj h]
      exact loadUserSites_some hload

/-- What makes the grant of a user on a site go: the request passes its checks, no grant that
it asks for fails, and the site is not wanted any more. -/
structure Removes (deps : Deps) (env : Env) (t : Tables) (actor : User) (userID : UserID)
    (sites : List SiteRole) (siteID : ℕ) : Prop where
  checked : checkUpdateSites deps env t actor userID sites = .ok (t.grants userID)
  written : ∀ kv ∈ wanted sites, (t.grants userID).get kv.1 = some kv.2 ∨
    kv.1 ≠ 0 ∧ env.fails (.grant kv.1) = false
  held : siteID ∈ (t.grants userID).map Prod.fst
  revocable : Revocable env siteID = true

/-- A grant outside the actor's sites goes exactly when the request removes it. -/
theorem updateSites_get (env : Env) (t : Tables) (hdeps : deps.userSites = true) {siteID : ℕ}
    (hactor : actor.canAccessSite siteID .admin = false) (target : Option UserID)
    (body : Option (List SiteRole)) (other : UserID) :
    let grants' := (updateSites deps env t actor target body).1.grants
    (∃ sites, target = some other ∧ body = some sites ∧
        Removes deps env t actor other sites siteID ∧ (grants' other).get siteID = none) ∨
      (¬ ∃ sites, target = some other ∧ body = some sites ∧
        Removes deps env t actor other sites siteID) ∧
      (grants' other).get siteID = (t.grants other).get siteID := by
  cases target with
  | none => simp [updateSites, hdeps]
  | some id => cases body with
    | none => simp [updateSites, hdeps]
    | some sites =>
      simp only [Option.some.injEq]
      cases hcheck : checkUpdateSites deps env t actor id sites with
      | error status =>
        refine .inr ⟨?_, by simp [updateSites, hdeps, hcheck]⟩
        rintro ⟨sites', rfl, rfl, hremoves⟩
        simp [hremoves.checked] at hcheck
      | ok current =>
        obtain ⟨hid, rfl, hall⟩ := checkUpdateSites_ok hcheck
        have hwanted {kv : ℕ × Role} (hkv : kv ∈ wanted sites) : kv.1 ≠ siteID := by
          rintro rfl
          obtain ⟨s, hs, hsite⟩ := List.mem_map.mp (mem_wanted hkv).1
          simp [← hsite, hall s hs] at hactor
        have hchanged : ((grantChanged env id (t.grants id) t.grants
            (visit env (wanted sites))).1 other).get siteID = (t.grants other).get siteID := by
          refine grantChanged_get _ other fun _ hmem => ?_
          obtain ⟨kv, hkv, hsite⟩ := List.mem_map.mp hmem
          exact hwanted (mem_visit.mp hkv) hsite
        have hunwanted : (wanted sites).get siteID = none := by
          refine get_eq_none_iff.mpr fun hmem => ?_
          obtain ⟨kv, hkv, hsite⟩ := List.mem_map.mp hmem
          exact hwanted hkv hsite
        have hdone : (grantChanged env id (t.grants id) t.grants (visit env (wanted sites))).2 =
            true ↔ _ :=
          grantChanged_done hid fun kv hkv => (mem_wanted (mem_visit.mp hkv)).2
        have hkeys : siteID ∈ (visit env (t.grants id)).map Prod.fst ↔
            siteID ∈ (t.grants id).map Prod.fst := by
          simp only [List.mem_map, mem_visit]
        cases hgrant : grantChanged env id (t.grants id) t.grants (visit env (wanted sites)) with
        | mk grants done =>
          rw [hgrant] at hchanged hdone
          cases done with
          | false =>
            refine .inr ⟨?_, by simpa [updateSites, hdeps, hcheck, hgrant] using hchanged⟩
            rintro ⟨sites', rfl, rfl, hremoves⟩
            have hwritten := hdone.mpr fun kv hkv => hremoves.written kv (mem_visit.mp hkv)
            simp at hwritten
          | true =>
            have hwritten := hdone.mp rfl
            simp only [updateSites, hdeps, hcheck, hgrant, Bool.not_true, Bool.false_eq_true, if_false]
            by_cases hgone : other = id ∧ siteID ∈ (visit env (t.grants id)).map Prod.fst ∧
                (wanted sites).get siteID = none ∧ Revocable env siteID = true
            · have hnone : (revokeUnwanted env id (wanted sites) grants (visit env (t.grants id))
                  other).get siteID = none := by
                rw [revokeUnwanted_get hid, if_pos hgone]
              obtain ⟨rfl, hheld, -, hrev⟩ := hgone
              exact .inl ⟨sites, rfl, rfl, ⟨hcheck, fun kv hkv => hwritten kv (mem_visit.mpr hkv),
                hkeys.mp hheld, hrev⟩, hnone⟩
            · refine .inr ⟨?_, ?_⟩
              · rintro ⟨sites', rfl, rfl, hremoves⟩
                exact hgone ⟨rfl, hkeys.mpr hremoves.held, hunwanted, hremoves.revocable⟩
              · rw [revokeUnwanted_get hid, if_neg hgone, hchanged]

theorem updateSites_kept_iff (hdeps : deps.userSites = true)
    (hactor : ∀ siteID, actor.canAccessSite siteID .admin = true → ¬ out siteID)
    (target : Option UserID) (body : Option (List SiteRole)) :
    Kept out t.grants (updateSites deps env t actor target body).1.grants ↔
      ¬ ∃ id sites siteID, target = some id ∧ body = some sites ∧
        Removes deps env t actor id sites siteID ∧ out siteID := by
  have hget {siteID : ℕ} (hout : out siteID) (other : UserID) :=
    updateSites_get env t hdeps
      (by simpa using fun h => hactor siteID h hout : actor.canAccessSite siteID .admin = false)
      target body other
  constructor
  · rintro hkept ⟨id, sites, siteID, htarget, hbody, hremoves, hout⟩
    rcases hget hout id with ⟨-, -, -, -, hnone⟩ | ⟨hno, -⟩
    · exact get_eq_none_iff.mp ((hkept id siteID hout).symm.trans hnone) hremoves.held
    · exact hno ⟨sites, htarget, hbody, hremoves⟩
  · intro hno other siteID hout
    rcases hget hout other with ⟨sites, htarget, hbody, hremoves, -⟩ | ⟨-, hsame⟩
    · exact absurd ⟨other, sites, siteID, htarget, hbody, hremoves, hout⟩ hno
    · exact hsame

theorem checkDelete_ok (h : checkDelete deps env t actor userID = .ok ()) : userID ≠ uuidNil := by
  cases htarget : getUser env t.users userID with
  | none =>
    simp only [checkDelete, managedTarget, htarget] at h
    split at h <;> simp at h
  | some target => exact getUser_ne htarget

/-- What makes the grant of a deleted user on a site go: the revocations come to it before one
of them fails. -/
structure Cascades (deps : Deps) (env : Env) (t : Tables) (actor : User) (userID : UserID)
    (siteID : ℕ) : Prop where
  checked : checkDelete deps env t actor userID = .ok ()
  answered : env.fails .revokeSessions = false ∧ env.fails .deletedGrants = false
  reached : siteID ∈ ((visit env (t.grants userID)).map Prod.fst).takeWhile (Revocable env)

/-- The grants after the cascade are those after its second step. -/
theorem cascade_grants (deps : Deps) (env : Env) (t : Tables) (userID : UserID) :
    (cascadeEraseAndDelete deps env t userID).1.grants =
      if env.fails .revokeSessions then t.grants else (revokeGrants deps env t userID).1.grants := by
  unfold cascadeEraseAndDelete
  split
  · rfl
  · cases hrev : revokeGrants deps env t userID with
    | mk t' done => cases done with
      | false => rfl
      | true =>
        simp only
        split
        · rfl
        · cases deleteUser t'.users userID <;> rfl

/-- A grant goes exactly when the cascade reaches it. -/
theorem deleteAccount_get (env : Env) (t : Tables) (actor : User)
    (hdeps : deps.userSites = true) (target : Option UserID) (siteID : ℕ) (other : UserID) :
    let grants' := (deleteAccount deps env t actor target).1.grants
    (target = some other ∧ Cascades deps env t actor other siteID ∧
        (grants' other).get siteID = none) ∨
      ¬ (target = some other ∧ Cascades deps env t actor other siteID) ∧
      (grants' other).get siteID = (t.grants other).get siteID := by
  cases target with
  | none => simp [deleteAccount]
  | some id =>
    cases hcheck : checkDelete deps env t actor id with
    | error status =>
      refine .inr ⟨?_, by simp [deleteAccount, hcheck]⟩
      rintro ⟨hid, hcascades⟩
      obtain rfl := Option.some.inj hid
      simp [hcascades.checked] at hcheck
    | ok _ =>
      have hid := checkDelete_ok hcheck
      have hstate : (deleteAccount deps env t actor (some id)).1.grants =
          (cascadeEraseAndDelete deps env t id).1.grants := by
        simp [deleteAccount, hcheck]
      simp only [hstate, cascade_grants]
      by_cases hans : env.fails .revokeSessions = false ∧ env.fails .deletedGrants = false
      · have hload : loadUserSites env .deletedGrants t.grants id = some (t.grants id) := by
          simp [loadUserSites, hid, hans.2]
        simp only [hans.1, Bool.false_eq_true, if_false, revokeGrants, hdeps, Bool.not_true, hload]
        by_cases hgone : other = id ∧
            siteID ∈ ((visit env (t.grants id)).map Prod.fst).takeWhile (Revocable env)
        · have hnone : ((revokeAll env id t.grants ((visit env (t.grants id)).map Prod.fst)).1
              other).get siteID = none := by
            rw [revokeAll_get hid, if_pos hgone]
          obtain ⟨rfl, hreached⟩ := hgone
          exact .inl ⟨rfl, ⟨hcheck, hans, hreached⟩, hnone⟩
        · refine .inr ⟨?_, by rw [revokeAll_get hid, if_neg hgone]⟩
          rintro ⟨hid', hcascades⟩
          obtain rfl := Option.some.inj hid'
          exact hgone ⟨rfl, hcascades.reached⟩
      · refine .inr ⟨fun h => hans h.2.answered, ?_⟩
        by_cases hsessions : env.fails .revokeSessions = true
        · rw [if_pos hsessions]
        · have hfails : env.fails .deletedGrants = true := by
            by_contra hgood
            exact hans ⟨by simpa using hsessions, by simpa using hgood⟩
          rw [if_neg hsessions]
          simp [revokeGrants, hdeps, loadUserSites, hfails]

theorem Cascades.held {siteID : ℕ} (h : Cascades deps env t actor userID siteID) :
    siteID ∈ (t.grants userID).map Prod.fst := by
  have hmem := (List.takeWhile_prefix (Revocable env)).subset h.reached
  simpa only [List.mem_map, mem_visit] using hmem

theorem deleteAccount_kept_iff (hdeps : deps.userSites = true) (target : Option UserID) :
    Kept out t.grants (deleteAccount deps env t actor target).1.grants ↔
      ¬ ∃ id siteID, target = some id ∧ Cascades deps env t actor id siteID ∧ out siteID := by
  have hget (siteID : ℕ) (other : UserID) :=
    deleteAccount_get env t actor hdeps target siteID other
  constructor
  · rintro hkept ⟨id, siteID, htarget, hcascades, hout⟩
    rcases hget siteID id with ⟨-, -, hnone⟩ | ⟨hno, -⟩
    · exact get_eq_none_iff.mp ((hkept id siteID hout).symm.trans hnone) hcascades.held
    · exact hno ⟨htarget, hcascades⟩
  · intro hno other siteID hout
    rcases hget siteID other with ⟨htarget, hcascades, -⟩ | ⟨-, hsame⟩
    · exact absurd ⟨other, siteID, htarget, hcascades, hout⟩ hno
    · exact hsame

end Statnive.GrantWrites
