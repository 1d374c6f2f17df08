import Statnive.GrantWrites
import Statnive.SessionCascade

/-!
# Deleting an account

`Delete` revokes the sessions of a user and the grants, erases what other tables hold of the
user, and removes the row last. Each statement may fail on its own. Those that erase OAuth
grants say so in their results, which the handler does not read. `deleteAccount_coarse` finds the
deletion of `UsersHandlers` in it.
-/

namespace Statnive.AccountDeletion

open AuthTypes AuthStore AuthSessions SessionCascade
open UsersHandlers (Query Env Deps canManageUser checkDelete hasOtherEnabledAdmin)

/-- The tables from which the rows of a user are erased. -/
inductive AccountTable where
  | mcpTokens | oauthAuthCodes | oauthRefreshTokens
  deriving DecidableEq

inductive StoreCall where
  | query (q : Query)
  | listSessions
  | selectSession (hash : Hash)
  | sessionUser (hash : Hash)
  | insertSession (hash : Hash)
  | erase (table : AccountTable)
  deriving DecidableEq

/-- What a deletion meets: the statements that fail, the clock, and the order in which the loop
over the grants comes to them. -/
structure Run where
  fails : StoreCall → Bool
  now : ℕ
  rank : ℕ → ℕ

def Run.env (run : Run) : Env := ⟨fun q => run.fails (.query q), run.now, uuidNil, run.rank⟩

structure Tables where
  users : List UserRow
  sessions : List SessionRow
  grants : UserID → Grants

def Tables.auth (t : Tables) : AuthSessions.Tables := ⟨t.users, t.sessions⟩

def Tables.admin (t : Tables) : UsersHandlers.Tables := ⟨t.users, t.grants⟩

/-- The error is none where a statement fails. -/
def lookupSession (run : Run) (db : AuthSessions.Tables) (hash : Hash) :
    Except (Option AuthError) SessionInfo :=
  if run.fails (.selectSession hash) then .error none
  else match selectSession db.sessions hash with
  | none => .error (some .notFound)
  | some ⟨sess, _⟩ =>
    if 0 < sess.revokedAt then .error (some .revoked)
    else if 0 < sess.expiresAt ∧ sess.expiresAt ≤ run.now then .error (some .expired)
    else if run.fails (.sessionUser hash) then .error none
    else match getUserByID db.users sess.userID with
    | .error e => .error (some e)
    | .ok u =>
      if u.disabled then .error (some .disabled)
      else if u.role ≠ sess.role then .error (some .revoked)
      else .ok ⟨u, sess⟩

def revokeSession (run : Run) (db : AuthSessions.Tables) (hash : Hash) :
    Except (Option AuthError) AuthSessions.Tables :=
  match lookupSession run db hash with
  | .ok info =>
    if run.fails (.insertSession hash) then .error none
    else .ok { db with
      sessions := insertSession db.sessions { info.session with revokedAt := run.now } run.now }
  | .error (some .expired) | .error (some .revoked) => .ok db
  | .error e => .error e

/-- The sessions up to the first error, and whether there was none. -/
def revokeEach (run : Run) (db : AuthSessions.Tables) : List Hash → AuthSessions.Tables × Bool
  | [] => (db, true)
  | hash :: hashes => match revokeSession run db hash with
    | .error _ => (db, false)
    | .ok db' => revokeEach run db' hashes

def revokeAllUserSessions (run : Run) (db : AuthSessions.Tables) (userID : UserID) :
    AuthSessions.Tables × Bool :=
  if run.fails .listSessions then (db, false) else revokeEach run db (activeSessions db userID)

structure EraseResult where
  table : AccountTable
  mutationSent : Bool
  deriving DecidableEq

def oauthGrantTables : List AccountTable := [.oauthAuthCodes, .oauthRefreshTokens]

def eraseTokensByUserID (run : Run) (userID : UserID) : Bool :=
  userID ≠ uuidNil && !run.fails (.erase .mcpTokens)

def eraseOAuthGrantsByUserID (run : Run) (userID : UserID) : Option (List EraseResult) :=
  if userID = uuidNil then none
  else some (oauthGrantTables.map fun table => ⟨table, !run.fails (.erase table)⟩)

def eraseByUserID (run : Run) (userID : UserID) : Option (List EraseResult) :=
  if userID = uuidNil then none
  else if eraseTokensByUserID run userID then eraseOAuthGrantsByUserID run userID else none

/-- The tables that have accepted a mutation, where the erasure has not ended with an error. -/
def acceptedOf (results : List EraseResult) : List AccountTable :=
  .mcpTokens :: (results.filter EraseResult.mutationSent).map EraseResult.table

structure Outcome where
  tables : Tables
  accepted : List AccountTable
  status : ℕ

/-- The steps behind the revocations, of which the results are not read. -/
def eraseAndDelete (run : Run) (t : Tables) (userID : UserID) : Outcome :=
  match eraseByUserID run userID with
  | none => ⟨t, [], 500⟩
  | some results =>
    if run.fails (.query .deleteUser) then ⟨t, acceptedOf results, 500⟩
    else match deleteUser t.users userID with
    | .error _ => ⟨t, acceptedOf results, 500⟩
    | .ok users => ⟨{ t with users := users }, acceptedOf results, 204⟩

def cascadeEraseAndDelete (deps : Deps) (run : Run) (t : Tables) (userID : UserID) : Outcome :=
  match revokeAllUserSessions run t.auth userID with
  | (db, false) => ⟨{ t with sessions := db.sessions }, [], 500⟩
  | (db, true) => match UsersHandlers.revokeGrants deps run.env t.admin userID with
    | (t', false) => ⟨⟨t.users, db.sessions, t'.grants⟩, [], 500⟩
    | (t', true) => eraseAndDelete run ⟨t.users, db.sessions, t'.grants⟩ userID

def deleteAccount (deps : Deps) (run : Run) (t : Tables) (actor : User)
    (userID : Option UserID) : Outcome :=
  match userID with
  | none => ⟨t, [], 400⟩
  | some userID => match checkDelete deps run.env t.admin actor userID with
    | .error status => ⟨t, [], status⟩
    | .ok () => cascadeEraseAndDelete deps run t userID

def NoGrants (grants : Grants) : Prop := ∀ siteID, grants.get siteID = none

/-- No session of the user is accepted from now on, even by a user as before. -/
structure Complete (run : Run) (t : Tables) (userID : UserID) (o : Outcome) : Prop where
  sessions : ∀ hash r, selectSession t.sessions hash = some r → r.session.userID = userID →
    Dead ⟨t.users, o.tables.sessions⟩ hash run.now
  grants : NoGrants (o.tables.grants userID)
  mutations : ∀ table, table ∈ o.accepted
  row : ∀ r ∈ o.tables.users, r.user.userID ≠ userID

/-- A run in which no statement fails. -/
def Run.Clean (run : Run) : Prop := ∀ call, run.fails call = false

/-- A deletion that says so is complete, and one that fails behind the guards is made complete
by the same request later on. -/
structure Promised (deps : Deps) (run : Run) (t : Tables) (actor : User) (userID : UserID) :
    Prop where
  done : (deleteAccount deps run t actor (some userID)).status = 204 →
    Complete run t userID (deleteAccount deps run t actor (some userID))
  retried : checkDelete deps run.env t.admin actor userID = .ok () →
    (deleteAccount deps run t actor (some userID)).status ≠ 204 →
    ∀ again : Run, again.Clean → run.now ≤ again.now →
      let left := (deleteAccount deps run t actor (some userID)).tables
      (deleteAccount deps again left actor (some userID)).status = 204 ∧
        Complete again left userID (deleteAccount deps again left actor (some userID))

variable {run : Run} {db : AuthSessions.Tables} {t : Tables} {userID : UserID}

/-- A session is passed over when it is not live. Of a live one the user is read, and the row is
written where the user is enabled and still has the role. -/
def Revocable (run : Run) (users : List UserRow) (r : SessionRow) : Prop :=
  run.fails (.selectSession r.session.idHash) = false ∧
    (Live r run.now → run.fails (.sessionUser r.session.idHash) = false ∧
      ∃ v, selectUser users r.session.userID = some v ∧ v.user.disabled = false ∧
        (v.user.role = r.session.role → run.fails (.insertSession r.session.idHash) = false))

/-- What is revoked here is revoked as by a store that does not fail. -/
theorem revokeSession_ok {db' : AuthSessions.Tables} {hash : Hash}
    (h : revokeSession run db hash = .ok db') :
    AuthSessions.revokeSession db hash run.now = .ok db' := by
  simp only [revokeSession, lookupSession, AuthSessions.revokeSession,
    AuthSessions.lookupSession] at h ⊢
  by_cases hselect : run.fails (.selectSession hash) = true
  · simp [hselect] at h
  · simp only [hselect] at h
    cases hr : selectSession db.sessions hash with
    | none => simp [hr] at h
    | some r =>
      simp only [hr] at h ⊢
      by_cases hrevoked : 0 < r.session.revokedAt
      · simpa [hrevoked] using h
      · by_cases hexpired : 0 < r.session.expiresAt ∧ r.session.expiresAt ≤ run.now
        · simpa [hrevoked, hexpired] using h
        · simp only [hrevoked, hexpired, if_false] at h ⊢
          by_cases huser : run.fails (.sessionUser hash) = true
          · simp [huser] at h
          · simp only [huser] at h
            cases hu : getUserByID db.users r.session.userID with
            | error e => cases e <;> simp_all
            | ok u =>
              by_cases hdisabled : u.disabled = true
              · simp [hu, hdisabled] at h
              · by_cases hrole : u.role = r.session.role
                · by_cases hinsert : run.fails (.insertSession hash) = true
                  · simp [hu, hdisabled, hrole, hinsert] at h
                  · simpa [hu, hdisabled, hrole, hinsert] using h
                · simpa [hu, hdisabled, hrole] using h

private theorem revokeSession_ok_iff {r : SessionRow} (hid : r.session.userID ≠ uuidNil)
    (hr : selectSession db.sessions r.session.idHash = some r) :
    (∃ db', revokeSession run db r.session.idHash = .ok db') ↔ Revocable run db.users r := by
  by_cases hselect : run.fails (.selectSession r.session.idHash) = true
  · simp [revokeSession, lookupSession, Revocable, hselect]
  · by_cases hlive : Live r run.now
    · have hlookup : lookupSession run db r.session.idHash =
          if run.fails (.sessionUser r.session.idHash) then .error none
          else match getUserByID db.users r.session.userID with
          | .error e => .error (some e)
          | .ok u =>
            if u.disabled then .error (some .disabled)
            else if u.role ≠ r.session.role then .error (some .revoked)
            else .ok ⟨u, r.session⟩ := by
        simp [lookupSession, hselect, hr, hlive.1, hlive.2]
      by_cases huser : run.fails (.sessionUser r.session.idHash) = true
      · simp [revokeSession, hlookup, Revocable, hlive, huser]
      · cases hv : selectUser db.users r.session.userID with
        | none => simp [revokeSession, hlookup, Revocable, hlive, huser, getUserByID, hid, hv]
        | some v =>
          by_cases hdisabled : v.user.disabled = true
          · simp [revokeSession, hlookup, Revocable, hlive, huser, getUserByID, hid, hv, hdisabled]
          · by_cases hrole : v.user.role = r.session.role
            · by_cases hinsert : run.fails (.insertSession r.session.idHash) = true
              · simp [revokeSession, hlookup, Revocable, hlive, huser, getUserByID, hid, hv,
                  hdisabled, hrole, hinsert]
              · simp [revokeSession, hlookup, Revocable, hselect, hlive, huser, getUserByID, hid,
                  hv, hdisabled, hrole, hinsert]
            · simp [revokeSession, hlookup, Revocable, hselect, hlive, huser, getUserByID, hid, hv,
                hdisabled, hrole]
    · have hrefused : lookupSession run db r.session.idHash = .error (some .revoked) ∨
          lookupSession run db r.session.idHash = .error (some .expired) := by
        by_cases hrevoked : 0 < r.session.revokedAt
        · simp [lookupSession, hselect, hr, hrevoked]
        · have hexpired : 0 < r.session.expiresAt ∧ r.session.expiresAt ≤ run.now := by
            by_contra hne
            exact hlive ⟨by omega, hne⟩
          simp [lookupSession, hselect, hr, hrevoked, hexpired]
      have hrev : Revocable run db.users r := ⟨by simpa using hselect, fun h => absurd h hlive⟩
      rcases hrefused with h | h <;> simp [revokeSession, h, hrev]

theorem Revocable.persist {users : List UserRow} {r r' : SessionRow}
    (h : Revocable run users r) (hp : Persists r r')
    (hhash : r'.session.idHash = r.session.idHash) : Revocable run users r' := by
  have hlive : Live r' run.now → Live r run.now := by
    intro ⟨hrevoked, hexpires⟩
    refine ⟨?_, hp.expiresAt ▸ hexpires⟩
    have hpos := hp.revoked
    omega
  refine ⟨hhash ▸ h.1, fun hl => ?_⟩
  rw [hhash, hp.userID, hp.role]
  exact h.2 (hlive hl)

theorem select_revokeSession_of_ne {db' : AuthSessions.Tables} {hash other : Hash} {now : ℕ}
    (h : AuthSessions.revokeSession db hash now = .ok db') (hne : hash ≠ other) :
    selectSession db'.sessions other = selectSession db.sessions other := by
  cases hlook : AuthSessions.lookupSession db hash now with
  | error e => cases e <;> simp_all [AuthSessions.revokeSession]
  | ok info =>
    obtain ⟨r, v, hr, hsess, -⟩ := lookupSession_ok hlook
    have hhash : info.session.idHash = hash := hsess ▸ (selectSession_mem hr).2
    obtain rfl : { db with
        sessions := insertSession db.sessions { info.session with revokedAt := now } now } =
        db' := by simpa [AuthSessions.revokeSession, hlook] using h
    have hne' : ({ info.session with revokedAt := now } : Session).idHash ≠ other := hhash ▸ hne
    exact selectSession_insert_of_ne hne' now

def Owned (db : AuthSessions.Tables) (userID : UserID) (hashes : List Hash) : Prop :=
  ∀ hash ∈ hashes, ∃ r, selectSession db.sessions hash = some r ∧ r.session.userID = userID

theorem Owned.persist {db' : AuthSessions.Tables} {hash : Hash} {hashes : List Hash}
    (h : Owned db userID (hash :: hashes)) (hp : SessionsPersist db.sessions db'.sessions) :
    Owned db' userID hashes := by
  intro other hother
  obtain ⟨r, hr, huser⟩ := h other (List.mem_cons_of_mem _ hother)
  obtain ⟨r', hr', hpersist⟩ := hp other r hr
  exact ⟨r', hr', hpersist.userID.trans huser⟩

theorem revokeEach_revokes (hfits : Fits db.sessions run.now) (hpos : 0 < run.now)
    (hashes : List Hash) : Revokes db (revokeEach run db hashes).1 run.now := by
  induction hashes generalizing db with
  | nil => exact Revokes.refl hfits
  | cons hash hashes ih =>
    cases hrevoke : revokeSession run db hash with
    | error e =>
      simp only [revokeEach, hrevoke]
      exact Revokes.refl hfits
    | ok db' =>
      have hone := (SessionCascade.revokeSession_ok hfits hpos (revokeSession_ok hrevoke)).1
      simp only [revokeEach, hrevoke]
      exact hone.trans (ih hone.fits)

/-- A loop without an error is the one over a store that does not fail. -/
theorem revokeEach_done {hashes : List Hash} (h : (revokeEach run db hashes).2 = true) :
    AuthSessions.revokeEach db run.now hashes = ((revokeEach run db hashes).1, none) := by
  induction hashes generalizing db with
  | nil => rfl
  | cons hash hashes ih =>
    cases hrevoke : revokeSession run db hash with
    | error e => simp [revokeEach, hrevoke] at h
    | ok db' =>
      simp only [revokeEach, hrevoke] at h ⊢
      simp only [AuthSessions.revokeEach, revokeSession_ok hrevoke]
      exact ih h

private theorem revokeEach_done_iff (hfits : Fits db.sessions run.now) (hpos : 0 < run.now)
    (hid : userID ≠ uuidNil) {hashes : List Hash} (howned : Owned db userID hashes) :
    (revokeEach run db hashes).2 = true ↔
      ∀ hash ∈ hashes, ∀ r, selectSession db.sessions hash = some r →
        Revocable run db.users r := by
  induction hashes generalizing db with
  | nil => simp [revokeEach]
  | cons hash hashes ih =>
    obtain ⟨r, hr, huser⟩ := howned hash List.mem_cons_self
    obtain rfl : r.session.idHash = hash := (selectSession_mem hr).2
    have hiff : (∃ db', revokeSession run db r.session.idHash = .ok db') ↔
        Revocable run db.users r := revokeSession_ok_iff (huser ▸ hid) hr
    by_cases hrev : Revocable run db.users r
    · obtain ⟨db', hdb'⟩ := hiff.mpr hrev
      have hpure := revokeSession_ok hdb'
      have hone := (SessionCascade.revokeSession_ok hfits hpos hpure).1
      simp only [revokeEach, hdb']
      rw [ih hone.fits (howned.persist hone.persist), hone.users]
      constructor
      · intro h other hother s hs
        by_cases hsame : r.session.idHash = other
        · subst hsame
          rwa [Option.some.inj (hs.symm.trans hr)]
        · rcases List.mem_cons.mp hother with rfl | hother
          · exact absurd rfl hsame
          · exact h other hother s (by rwa [select_revokeSession_of_ne hpure hsame])
      · intro h other hother s' hs'
        obtain ⟨s, hs, -⟩ := howned other (List.mem_cons_of_mem _ hother)
        obtain ⟨s₁, hs₁, hp⟩ := hone.persist other s hs
        obtain rfl : s' = s₁ := Option.some.inj (hs'.symm.trans hs₁)
        have hhash := (selectSession_mem hs').2.trans (selectSession_mem hs).2.symm
        exact (h other (List.mem_cons_of_mem _ hother) s hs).persist hp hhash
    · have herror : ∃ e, revokeSession run db r.session.idHash = .error e := by
        cases hcase : revokeSession run db r.session.idHash with
        | error e => exact ⟨e, rfl⟩
        | ok db' => exact absurd (hiff.mp ⟨db', hcase⟩) hrev
      obtain ⟨e, he⟩ := herror
      simp only [revokeEach, he]
      constructor
      · intro h
        simp at h
      · intro h
        exact absurd (h _ List.mem_cons_self r hr) hrev

/-- Nothing changes in the sessions of a blocked user. -/
theorem revokeEach_blocked (hblocked : Blocked db.users userID) {hashes : List Hash}
    (howned : Owned db userID hashes) : (revokeEach run db hashes).1 = db := by
  induction hashes with
  | nil => rfl
  | cons hash hashes ih =>
    cases hrevoke : revokeSession run db hash with
    | error e => simp only [revokeEach, hrevoke]
    | ok db' =>
      have hpure := revokeSession_ok hrevoke
      obtain ⟨r, hr, rfl⟩ := howned hash List.mem_cons_self
      have hsame : db' = db := by
        by_cases hlive : Live r run.now
        · obtain ⟨e, he⟩ := SessionCascade.revokeSession_blocked hr hlive hblocked
          simp [he] at hpure
        · rw [revokeSession_of_not_live hr hlive] at hpure
          exact (Except.ok.inj hpure).symm
      simp only [revokeEach, hrevoke, hsame]
      exact ih fun other hother => howned other (List.mem_cons_of_mem _ hother)

def SessionsRevocable (run : Run) (t : Tables) (userID : UserID) : Prop :=
  run.fails .listSessions = false ∧
    ∀ r ∈ t.sessions, r.session.userID = userID → r.session.revokedAt = 0 →
      Revocable run t.users r

def GrantsRevocable (deps : Deps) (run : Run) (t : Tables) (userID : UserID) : Prop :=
  deps.userSites = true → run.fails (.query .deletedGrants) = false ∧
    ∀ kv ∈ t.grants userID, run.fails (.query (.revoke kv.1)) = false

/-- No step of the cascade fails, as far as the handler can tell. -/
structure Succeeds (deps : Deps) (run : Run) (t : Tables) (userID : UserID) : Prop where
  sessions : SessionsRevocable run t userID
  grants : GrantsRevocable deps run t userID
  tokens : run.fails (.erase .mcpTokens) = false
  row : run.fails (.query .deleteUser) = false

theorem activeSessions_mem {hash : Hash} :
    hash ∈ activeSessions db userID ↔
      ∃ r ∈ db.sessions, (r.session.userID = userID ∧ r.session.revokedAt = 0) ∧
        r.session.idHash = hash := by
  simp [activeSessions, and_assoc]

theorem revokeAll_done_iff (hfits : Fits t.sessions run.now) (hpos : 0 < run.now)
    (hid : userID ≠ uuidNil) :
    (revokeAllUserSessions run t.auth userID).2 = true ↔ SessionsRevocable run t userID := by
  have howned : Owned t.auth userID (activeSessions t.auth userID) :=
    activeSessions_owned hfits.keys
  simp only [revokeAllUserSessions, SessionsRevocable]
  split_ifs with hlist
  · simp [hlist]
  · rw [revokeEach_done_iff hfits hpos hid howned]
    constructor
    · intro h
      refine ⟨by simpa using hlist, fun r hr huser hrevoked => ?_⟩
      exact h _ (activeSessions_mem.mpr ⟨r, hr, ⟨huser, hrevoked⟩, rfl⟩) r (hfits.keys.select hr)
    · intro ⟨_, h⟩ hash hmem r hr
      obtain ⟨s, hs, ⟨huser, hrevoked⟩, rfl⟩ := activeSessions_mem.mp hmem
      obtain rfl : s = r := Option.some.inj ((hfits.keys.select hs).symm.trans hr)
      exact h s hs huser hrevoked

theorem revokeAllUserSessions_revokes (hfits : Fits t.sessions run.now) (hpos : 0 < run.now) :
    Revokes t.auth (revokeAllUserSessions run t.auth userID).1 run.now := by
  rw [revokeAllUserSessions]
  split_ifs
  · exact Revokes.refl hfits
  · exact revokeEach_revokes hfits hpos _

theorem revokeAllUserSessions_dead (hfits : Fits t.sessions run.now) (hpos : 0 < run.now)
    (h : (revokeAllUserSessions run t.auth userID).2 = true) {hash : Hash} {r : SessionRow}
    (hr : selectSession t.sessions hash = some r) (huser : r.session.userID = userID) :
    Dead (revokeAllUserSessions run t.auth userID).1 hash run.now := by
  simp only [revokeAllUserSessions] at h ⊢
  split_ifs at h ⊢ with hlist
  have hpure := revokeEach_done h
  have hnone : (AuthSessions.revokeAllUserSessions t.auth userID run.now).2 = none := by
    rw [AuthSessions.revokeAllUserSessions, hpure]
  have hdead := revokeAll_dead hfits hpos hnone (show selectSession t.auth.sessions hash = some r
    from hr) huser
  rwa [AuthSessions.revokeAllUserSessions, hpure] at hdead

/-- Where no statement fails, only the look-up of a blocked user does. -/
theorem sessionsRevocable_clean (hclean : run.Clean) :
    SessionsRevocable run t userID ↔
      (Blocked t.users userID → NoLiveSession t.auth userID run.now) := by
  constructor
  · intro h hblocked r hr huser hlive
    obtain ⟨v, hv, henabled, -⟩ := ((h.2 r hr huser hlive.1).2 hlive).2
    have hdisabled := hblocked v (huser ▸ hv)
    rw [hdisabled] at henabled
    simp at henabled
  · intro h
    refine ⟨hclean _, fun r hr huser hrevoked => ⟨hclean _, fun hlive => ⟨hclean _, ?_⟩⟩⟩
    by_contra hnone
    have hblocked : Blocked t.users userID := by
      intro v hv
      by_contra henabled
      exact hnone ⟨v, huser ▸ hv, by simpa using henabled, fun _ => hclean _⟩
    exact h hblocked r hr huser hlive

/-- The sites of which the grant is revoked before a revocation fails. -/
def reached (run : Run) (t : Tables) (userID : UserID) : List ℕ :=
  ((UsersHandlers.visit run.env (t.grants userID)).map Prod.fst).takeWhile
    (UsersHandlers.Revocable run.env)

theorem revokeGrants_done_iff {deps : Deps} (hid : userID ≠ uuidNil)
    (hzero : (t.grants userID).get 0 = none) :
    (UsersHandlers.revokeGrants deps run.env t.admin userID).2 = true ↔
      GrantsRevocable deps run t userID := by
  have hne : ∀ kv ∈ t.grants userID, kv.1 ≠ 0 := by
    intro kv hkv hkey
    exact UsersHandlers.get_eq_none_iff.mp hzero (List.mem_map.mpr ⟨kv, hkv, hkey⟩)
  by_cases hsites : deps.userSites = true
  · by_cases hload : run.fails (.query .deletedGrants) = true
    · simp [UsersHandlers.revokeGrants, UsersHandlers.loadUserSites, GrantsRevocable, Run.env,
        hsites, hload]
    · have hgrants : UsersHandlers.loadUserSites run.env .deletedGrants t.admin.grants userID =
          some (t.grants userID) := by
        simp [UsersHandlers.loadUserSites, Run.env, hid, hload, Tables.admin]
      simp only [UsersHandlers.revokeGrants, hsites, hgrants, Bool.not_true, Bool.false_eq_true,
        if_false, UsersHandlers.revokeAll_done hid, List.forall_mem_map, UsersHandlers.mem_visit]
      constructor
      · intro h _
        refine ⟨by simpa using hload, fun kv hkv => ?_⟩
        have hrev := h kv hkv
        simp only [UsersHandlers.Revocable, Bool.and_eq_true, Bool.not_eq_true'] at hrev
        exact hrev.2
      · intro h kv hkv
        have hans := (h hsites).2 kv hkv
        simp only [UsersHandlers.Revocable, Bool.and_eq_true, Bool.not_eq_true',
          decide_eq_true_eq]
        exact ⟨hne kv hkv, hans⟩
  · simp [UsersHandlers.revokeGrants, GrantsRevocable, hsites]

theorem revokeGrants_get {deps : Deps} (hid : userID ≠ uuidNil) (siteID : ℕ) :
    ((UsersHandlers.revokeGrants deps run.env t.admin userID).1.grants userID).get siteID =
      if deps.userSites = true ∧ run.fails (.query .deletedGrants) = false ∧
        siteID ∈ reached run t userID then none else (t.grants userID).get siteID := by
  by_cases hsites : deps.userSites = true
  · by_cases hload : run.fails (.query .deletedGrants) = true
    · simp [UsersHandlers.revokeGrants, UsersHandlers.loadUserSites, Run.env, hsites, hload,
        Tables.admin]
    · have hgrants : UsersHandlers.loadUserSites run.env .deletedGrants t.grants userID =
          some (t.grants userID) := by
        simp [UsersHandlers.loadUserSites, Run.env, hid, hload]
      simp only [UsersHandlers.revokeGrants, hsites, hgrants, Bool.not_true, Bool.false_eq_true,
        if_false, UsersHandlers.revokeAll_get hid, true_and, hload, reached, Tables.admin]
  · simp [UsersHandlers.revokeGrants, hsites, Tables.admin]

/-- The steps as one sees them who does not look into the sessions and the tables to erase. -/
def Run.coarse (run : Run) (t : Tables) (userID : UserID) : Env :=
  { run.env with fails := fun q => match q with
      | .revokeSessions => !(revokeAllUserSessions run t.auth userID).2
      | .eraseUser => run.fails (.erase .mcpTokens)
      | q => run.fails (.query q) }

/-- The tables behind the revocations, whether they have ended well or not. -/
def revoked (deps : Deps) (run : Run) (t : Tables) (userID : UserID) : Tables where
  users := t.users
  sessions := (revokeAllUserSessions run t.auth userID).1.sessions
  grants := if (revokeAllUserSessions run t.auth userID).2 then
    (UsersHandlers.revokeGrants deps run.env t.admin userID).1.grants else t.grants

theorem cascade_eq (deps : Deps) (run : Run) (t : Tables) (userID : UserID) :
    cascadeEraseAndDelete deps run t userID =
      if (revokeAllUserSessions run t.auth userID).2 = true ∧
          (UsersHandlers.revokeGrants deps run.env t.admin userID).2 = true then
        eraseAndDelete run (revoked deps run t userID) userID
      else ⟨revoked deps run t userID, [], 500⟩ := by
  simp only [cascadeEraseAndDelete, revoked]
  cases hdb : revokeAllUserSessions run t.auth userID with
  | mk db sessions => cases sessions with
    | false => simp
    | true => cases hg : UsersHandlers.revokeGrants deps run.env t.admin userID with
      | mk t' grants => cases grants <;> simp

theorem eraseAndDelete_eq (hid : userID ≠ uuidNil) :
    eraseAndDelete run t userID =
      if run.fails (.erase .mcpTokens) then ⟨t, [], 500⟩
      else
        let accepted := acceptedOf
          (oauthGrantTables.map fun table => ⟨table, !run.fails (.erase table)⟩)
        if run.fails (.query .deleteUser) then ⟨t, accepted, 500⟩
        else ⟨{ t with users := t.users.filter fun r => r.user.userID ≠ userID }, accepted, 204⟩ := by
  by_cases htokens : run.fails (.erase .mcpTokens) = true
  · simp [eraseAndDelete, eraseByUserID, eraseTokensByUserID, hid, htokens]
  · by_cases hrow : run.fails (.query .deleteUser) = true
    · simp [eraseAndDelete, eraseByUserID, eraseTokensByUserID, eraseOAuthGrantsByUserID, hid,
        htokens, hrow]
    · simp [eraseAndDelete, eraseByUserID, eraseTokensByUserID, eraseOAuthGrantsByUserID, hid,
        htokens, hrow, deleteUser]

private theorem revokeAll_coarse
    (run : Run) (t : Tables) (userID : UserID) (grants : UserID → Grants)
    (sites : List ℕ) :
    UsersHandlers.revokeAll (run.coarse t userID) userID grants sites =
      UsersHandlers.revokeAll run.env userID grants sites := by
  induction sites generalizing grants with
  | nil => rfl
  | cons siteID sites ih =>
    have hsite : UsersHandlers.revokeSite (run.coarse t userID) grants userID siteID =
        UsersHandlers.revokeSite run.env grants userID siteID := rfl
    simp only [UsersHandlers.revokeAll, hsite, ih]

private theorem revokeGrants_coarse (deps : Deps) (run : Run) (t : Tables) (userID : UserID) :
    UsersHandlers.revokeGrants deps (run.coarse t userID) t.admin userID =
      UsersHandlers.revokeGrants deps run.env t.admin userID := by
  have hload : UsersHandlers.loadUserSites (run.coarse t userID) .deletedGrants t.admin.grants
      userID = UsersHandlers.loadUserSites run.env .deletedGrants t.admin.grants userID := rfl
  have hvisit (grants : Grants) : UsersHandlers.visit (run.coarse t userID) grants =
      UsersHandlers.visit run.env grants := rfl
  simp only [UsersHandlers.revokeGrants, hload, hvisit, revokeAll_coarse]

/-- With its steps seen that way, this is the deletion among the other handlers of users. -/
theorem deleteAccount_coarse (deps : Deps) (run : Run) (t : Tables) (actor : User)
    (userID : UserID) :
    UsersHandlers.deleteAccount deps (run.coarse t userID) t.admin actor (some userID) =
      ((deleteAccount deps run t actor (some userID)).tables.admin,
        (deleteAccount deps run t actor (some userID)).status) := by
  have hcheck : checkDelete deps (run.coarse t userID) t.admin actor userID =
      checkDelete deps run.env t.admin actor userID := rfl
  have hrevoke := revokeGrants_coarse deps run t userID
  have husers := UsersHandlers.revokeGrants_users deps run.env t.admin userID
  simp only [UsersHandlers.deleteAccount, deleteAccount, hcheck]
  cases hguards : checkDelete deps run.env t.admin actor userID with
  | error status => rfl
  | ok u =>
    have hid := GrantWrites.checkDelete_ok hguards
    simp only [UsersHandlers.cascadeEraseAndDelete, cascadeEraseAndDelete, hrevoke]
    cases hdb : revokeAllUserSessions run t.auth userID with
    | mk db sessions => cases sessions with
      | false => simp [Run.coarse, hdb, Tables.admin]
      | true => cases hg : UsersHandlers.revokeGrants deps run.env t.admin userID with
        | mk t' grants =>
          obtain ⟨users', grants'⟩ := t'
          rw [hg] at husers
          obtain rfl : users' = t.users := husers
          cases grants with
          | false => simp [Run.coarse, hdb, Tables.admin]
          | true =>
            simp only [eraseAndDelete_eq hid, Run.coarse, hdb]
            by_cases htokens : run.fails (.erase .mcpTokens) = true
            · simp [htokens, Tables.admin]
            · by_cases hrow : run.fails (.query .deleteUser) = true
              · simp [htokens, hrow, Tables.admin]
              · simp [htokens, hrow, Tables.admin, deleteUser, hid]

theorem mem_acceptedOf {table : AccountTable} :
    table ∈ acceptedOf (oauthGrantTables.map fun table => ⟨table, !run.fails (.erase table)⟩) ↔
      table = .mcpTokens ∨ table ∈ oauthGrantTables ∧ run.fails (.erase table) = false := by
  simp only [acceptedOf, List.mem_cons, List.mem_map, List.mem_filter]
  constructor
  · rintro (htokens | ⟨result, ⟨⟨sent, hsent, rfl⟩, haccepted⟩, rfl⟩)
    · exact .inl htokens
    · exact .inr ⟨hsent, by simpa using haccepted⟩
  · rintro (htokens | ⟨hmem, haccepted⟩)
    · exact .inl htokens
    · exact .inr ⟨_, ⟨⟨table, hmem, rfl⟩, by simpa using haccepted⟩, rfl⟩

/-- Of the three tables, the handler does not hear of the two with OAuth grants. -/
theorem acceptedOf_all :
    (∀ table, table ∈ acceptedOf
        (oauthGrantTables.map fun table => ⟨table, !run.fails (.erase table)⟩)) ↔
      ∀ table ∈ oauthGrantTables, run.fails (.erase table) = false := by
  constructor
  · intro h table htable
    rcases mem_acceptedOf.mp (h table) with rfl | ⟨-, haccepted⟩
    · exact absurd htable (by decide)
    · exact haccepted
  · intro h table
    apply mem_acceptedOf.mpr
    cases table with
    | mcpTokens => exact .inl rfl
    | oauthAuthCodes => exact .inr ⟨by decide, h _ (by decide)⟩
    | oauthRefreshTokens => exact .inr ⟨by decide, h _ (by decide)⟩

section Request

variable {deps : Deps} {actor : User}

theorem deleteAccount_of_checked (h : checkDelete deps run.env t.admin actor userID = .ok ()) :
    deleteAccount deps run t actor (some userID) = cascadeEraseAndDelete deps run t userID := by
  simp [deleteAccount, h]

/-- A request that its guards refuse is not answered with 204. -/
theorem checkDelete_error {status : ℕ} {env : Env} {tables : UsersHandlers.Tables}
    (h : checkDelete deps env tables actor userID = .error status) : status ≠ 204 := by
  rw [checkDelete] at h
  split at h
  · obtain rfl := Except.error.inj h
    decide
  · cases hmanaged : UsersHandlers.managedTarget deps env tables actor userID with
    | error refused =>
      obtain rfl : refused = status := by simpa [hmanaged] using h
      rw [UsersHandlers.managedTarget] at hmanaged
      split at hmanaged
      · obtain rfl := Except.error.inj hmanaged
        decide
      · split_ifs at hmanaged
        obtain rfl := Except.error.inj hmanaged
        decide
    | ok target =>
      simp only [hmanaged] at h
      split_ifs at h
      · obtain rfl := Except.error.inj h
        decide
      · obtain rfl := Except.error.inj h
        decide

theorem cascade_of_succeeds (hfits : Fits t.sessions run.now) (hpos : 0 < run.now)
    (hid : userID ≠ uuidNil) (hzero : (t.grants userID).get 0 = none)
    (h : Succeeds deps run t userID) :
    cascadeEraseAndDelete deps run t userID =
      ⟨{ revoked deps run t userID with
          users := t.users.filter fun r => r.user.userID ≠ userID },
        acceptedOf (oauthGrantTables.map fun table => ⟨table, !run.fails (.erase table)⟩), 204⟩ := by
  rw [cascade_eq, if_pos ⟨(revokeAll_done_iff hfits hpos hid).mpr h.sessions,
    (revokeGrants_done_iff hid hzero).mpr h.grants⟩, eraseAndDelete_eq hid]
  simp [h.tokens, h.row, revoked]

theorem cascade_of_not_succeeds (hfits : Fits t.sessions run.now) (hpos : 0 < run.now)
    (hid : userID ≠ uuidNil) (hzero : (t.grants userID).get 0 = none)
    (h : ¬ Succeeds deps run t userID) :
    (cascadeEraseAndDelete deps run t userID).status = 500 ∧
      (cascadeEraseAndDelete deps run t userID).tables = revoked deps run t userID := by
  rw [cascade_eq]
  split_ifs with hrevoked
  · rw [eraseAndDelete_eq hid]
    by_cases htokens : run.fails (.erase .mcpTokens) = true
    · simp [htokens]
    · by_cases hrow : run.fails (.query .deleteUser) = true
      · simp [htokens, hrow]
      · refine absurd ⟨?_, ?_, by simpa using htokens, by simpa using hrow⟩ h
        · exact (revokeAll_done_iff hfits hpos hid).mp hrevoked.1
        · exact (revokeGrants_done_iff hid hzero).mp hrevoked.2
  · exact ⟨rfl, rfl⟩

/-- The answer says that the steps of which the handler hears have not failed. -/
theorem status_iff (hfits : Fits t.sessions run.now) (hpos : 0 < run.now)
    (hzero : (t.grants userID).get 0 = none) :
    (deleteAccount deps run t actor (some userID)).status = 204 ↔
      checkDelete deps run.env t.admin actor userID = .ok () ∧ Succeeds deps run t userID := by
  cases hcheck : checkDelete deps run.env t.admin actor userID with
  | error status =>
    have hne := checkDelete_error hcheck
    simp [deleteAccount, hcheck, hne]
  | ok u =>
    have hid := GrantWrites.checkDelete_ok hcheck
    rw [deleteAccount_of_checked hcheck]
    by_cases hsucceeds : Succeeds deps run t userID
    · simp [cascade_of_succeeds hfits hpos hid hzero hsucceeds, hsucceeds]
    · simp [(cascade_of_not_succeeds hfits hpos hid hzero hsucceeds).1, hsucceeds]

theorem revoked_grants (h : Succeeds deps run t userID) (hfits : Fits t.sessions run.now)
    (hpos : 0 < run.now) (hid : userID ≠ uuidNil) (hzero : (t.grants userID).get 0 = none) :
    NoGrants ((revoked deps run t userID).grants userID) ↔
      deps.userSites = true ∨ NoGrants (t.grants userID) := by
  have hdone := (revokeAll_done_iff hfits hpos hid).mpr h.sessions
  simp only [NoGrants, revoked, hdone, if_true, revokeGrants_get hid]
  by_cases hsites : deps.userSites = true
  · obtain ⟨hload, hrevoke⟩ := h.grants hsites
    simp only [hsites, hload, true_and, true_or, iff_true]
    have hall : reached run t userID =
        (UsersHandlers.visit run.env (t.grants userID)).map Prod.fst := by
      apply List.takeWhile_eq_self_iff.mpr
      intro siteID hmem
      obtain ⟨kv, hkv, rfl⟩ := List.mem_map.mp hmem
      rw [UsersHandlers.mem_visit] at hkv
      have hne : kv.1 ≠ 0 := fun hkey =>
        UsersHandlers.get_eq_none_iff.mp hzero (List.mem_map.mpr ⟨kv, hkv, hkey⟩)
      simp [UsersHandlers.Revocable, hne, Run.env, hrevoke kv hkv]
    intro siteID
    split_ifs with hreached
    · rfl
    · apply UsersHandlers.get_eq_none_iff.mpr
      intro hkey
      obtain ⟨kv, hkv, rfl⟩ := List.mem_map.mp hkey
      refine hreached (hall ▸ List.mem_map.mpr ⟨kv, UsersHandlers.mem_visit.mpr hkv, rfl⟩)
  · simp [hsites]

theorem deletion_complete_iff (hfits : Fits t.sessions run.now) (hpos : 0 < run.now)
    (hzero : (t.grants userID).get 0 = none)
    (hcheck : checkDelete deps run.env t.admin actor userID = .ok ())
    (hsucceeds : Succeeds deps run t userID) :
    Complete run t userID (deleteAccount deps run t actor (some userID)) ↔
      (∀ table ∈ oauthGrantTables, run.fails (.erase table) = false) ∧
        (deps.userSites = true ∨ NoGrants (t.grants userID)) := by
  have hid := GrantWrites.checkDelete_ok hcheck
  rw [deleteAccount_of_checked hcheck, cascade_of_succeeds hfits hpos hid hzero hsucceeds]
  constructor
  · intro h
    exact ⟨acceptedOf_all.mp h.mutations, (revoked_grants hsucceeds hfits hpos hid hzero).mp h.grants⟩
  · intro ⟨hoauth, hsites⟩
    refine ⟨fun hash r hr huser => ?_, ?_, acceptedOf_all.mpr hoauth, fun r hr => ?_⟩
    · have hdone := (revokeAll_done_iff hfits hpos hid).mpr hsucceeds.sessions
      have hdead := revokeAllUserSessions_dead hfits hpos hdone hr huser
      have husers : (revokeAllUserSessions run t.auth userID).1.users = t.users :=
        (revokeAllUserSessions_revokes hfits hpos).users
      have htables : (revokeAllUserSessions run t.auth userID).1 =
          ⟨t.users, (revoked deps run t userID).sessions⟩ := by
        rw [← husers]
        rfl
      rwa [htables] at hdead
    · exact (revoked_grants hsucceeds hfits hpos hid hzero).mpr hsites
    · simpa using (List.mem_filter.mp hr).2

/-- The actor is not refused as one who manages other users. -/
def Manages (deps : Deps) (actor : User) (grants : Grants) : Prop :=
  actor.sites = none ∨ deps.userSites = false ∨
    ∃ siteID, grants.get siteID ≠ none ∧ actor.canAccessSite siteID .admin = true

theorem checkDelete_iff {env : Env} {tables : UsersHandlers.Tables} :
    checkDelete deps env tables actor userID = .ok () ↔
      userID ≠ actor.userID ∧ ∃ target, UsersHandlers.getUser env tables.users userID = some target ∧
        canManageUser deps actor target
          (UsersHandlers.loadUserSites env .targetGrants tables.grants userID) = true ∧
        (target.role = .admin → env.fails .listUsers = false ∧
          hasOtherEnabledAdmin tables.users target = true) := by
  rw [checkDelete]
  by_cases hself : userID = actor.userID
  · simp [hself]
  · cases htarget : UsersHandlers.getUser env tables.users userID with
    | none => simp [hself, UsersHandlers.managedTarget, htarget]
    | some target =>
      by_cases hmanage : canManageUser deps actor target
          (UsersHandlers.loadUserSites env .targetGrants tables.grants userID) = true
      · by_cases hrole : target.role = .admin
        · by_cases hlist : env.fails .listUsers = true
          · simp [hself, UsersHandlers.managedTarget, htarget, hmanage, hrole, hlist]
          · by_cases hother : hasOtherEnabledAdmin tables.users target = true
            · simp [hself, UsersHandlers.managedTarget, htarget, hmanage, hrole, hlist, hother]
            · simp [hself, UsersHandlers.managedTarget, htarget, hmanage, hrole, hlist, hother]
        · simp [hself, UsersHandlers.managedTarget, htarget, hmanage, hrole]
      · simp [hself, UsersHandlers.managedTarget, htarget, hmanage]

private theorem exists_grant_iff {grants : Grants} :
    grants.any (fun kv => actor.canAccessSite kv.1 .admin) = true ↔
      ∃ siteID, grants.get siteID ≠ none ∧ actor.canAccessSite siteID .admin = true := by
  simp only [List.any_eq_true, ne_eq, UsersHandlers.get_eq_none_iff, not_not, List.mem_map]
  constructor
  · intro ⟨kv, hkv, haccess⟩
    exact ⟨kv.1, ⟨kv, hkv, rfl⟩, haccess⟩
  · rintro ⟨siteID, ⟨kv, hkv, rfl⟩, haccess⟩
    exact ⟨kv, hkv, haccess⟩

theorem canManageUser_iff {target : User} {grants : Grants} :
    canManageUser deps actor target (some grants) = true ↔
      (actor.sites = none ∨ deps.userSites = false → actor.siteID = target.siteID) ∧
        Manages deps actor grants := by
  rw [canManageUser, Manages, ← exists_grant_iff]
  by_cases hsites : actor.sites = none
  · simp [hsites]
  · by_cases hstore : deps.userSites = true
    · simp [hsites, hstore]
    · simp [hsites, hstore]

/-- Whether the guards let the same request through depends on the grants that are left. -/
theorem checkDelete_again {again : Run} {left : Tables} (hclean : again.Clean)
    (husers : left.users = t.users)
    (h : checkDelete deps run.env t.admin actor userID = .ok ()) :
    checkDelete deps again.env left.admin actor userID = .ok () ↔
      Manages deps actor (left.grants userID) := by
  obtain ⟨hself, target, htarget, hmanage, hadmin⟩ := checkDelete_iff.mp h
  have hid := GrantWrites.checkDelete_ok h
  have hfound : UsersHandlers.getUser again.env left.admin.users userID = some target := by
    simp only [UsersHandlers.getUser, Tables.admin, husers] at htarget ⊢
    split_ifs at htarget
    simpa [Run.env, hclean _] using htarget
  have hgrants : UsersHandlers.loadUserSites again.env .targetGrants left.admin.grants userID =
      some (left.grants userID) := by
    simp [UsersHandlers.loadUserSites, Run.env, hclean _, hid, Tables.admin]
  have hsite : actor.sites = none ∨ deps.userSites = false → actor.siteID = target.siteID := by
    intro hlegacy
    have hcond : (actor.sites = none || !deps.userSites) = true := by simpa using hlegacy
    simp only [canManageUser, hcond, if_true] at hmanage
    simpa using hmanage
  rw [checkDelete_iff]
  constructor
  · rintro ⟨-, other, hother, hmanaged, -⟩
    rw [hgrants] at hmanaged
    exact (canManageUser_iff.mp hmanaged).2
  · intro hmanages
    refine ⟨hself, target, hfound, ?_, fun hrole => ⟨hclean _, ?_⟩⟩
    · rw [hgrants]
      exact canManageUser_iff.mpr ⟨hsite, hmanages⟩
    · rw [show left.admin.users = t.admin.users from husers]
      exact (hadmin hrole).2

/-- A run without failures goes through, but for the live sessions of a blocked user. -/
theorem succeeds_clean (hclean : run.Clean) :
    Succeeds deps run t userID ↔
      (Blocked t.users userID → NoLiveSession t.auth userID run.now) := by
  rw [← sessionsRevocable_clean hclean]
  constructor
  · exact Succeeds.sessions
  · intro hsessions
    exact ⟨hsessions, fun _ => ⟨hclean _, fun _ _ => hclean _⟩, hclean _, hclean _⟩

private theorem manages_of_checked (h : checkDelete deps run.env t.admin actor userID = .ok ()) :
    Manages deps actor (t.grants userID) := by
  obtain ⟨-, target, -, hmanage, -⟩ := checkDelete_iff.mp h
  by_cases hlegacy : actor.sites = none ∨ deps.userSites = false
  · rcases hlegacy with hsites | hstore
    · exact .inl hsites
    · exact .inr (.inl hstore)
  · have hcond : ¬ ((actor.sites = none || !deps.userSites) = true) := by simpa using hlegacy
    cases hload : UsersHandlers.loadUserSites run.env .targetGrants t.admin.grants userID with
    | none => simp [canManageUser, hcond, hload] at hmanage
    | some grants =>
      have hgrants : grants = t.grants userID := by
        rw [UsersHandlers.loadUserSites] at hload
        split_ifs at hload
        exact (Option.some.inj hload).symm
      rw [hload] at hmanage
      exact hgrants ▸ (canManageUser_iff.mp hmanage).2

/-- The actor does not manage the user by grants that a failed deletion has revoked. -/
def StillManaged (deps : Deps) (run : Run) (t : Tables) (actor : User) (userID : UserID) : Prop :=
  actor.sites = none ∨ deps.userSites = false ∨ ¬ SessionsRevocable run t userID ∨
    run.fails (.query .deletedGrants) = true ∨
    ∃ siteID ∉ reached run t userID, (t.grants userID).get siteID ≠ none ∧
      actor.canAccessSite siteID .admin = true

/-- The grants that are left by the revocations. -/
theorem revoked_get (hfits : Fits t.sessions run.now) (hpos : 0 < run.now)
    (hid : userID ≠ uuidNil) (siteID : ℕ) :
    ((revoked deps run t userID).grants userID).get siteID ≠ none ↔
      (t.grants userID).get siteID ≠ none ∧
        (SessionsRevocable run t userID → deps.userSites = true →
          run.fails (.query .deletedGrants) = false → siteID ∉ reached run t userID) := by
  have hiff := revokeAll_done_iff hfits hpos hid
  by_cases hsessions : SessionsRevocable run t userID
  · simp only [revoked, hiff.mpr hsessions, if_true, revokeGrants_get hid, hsessions,
      forall_const]
    split_ifs with hgone
    · obtain ⟨hstore, hload, hreached⟩ := hgone
      simp [hstore, hload, hreached]
    · simp only [iff_self_and]
      intro _ hstore hload hreached
      exact hgone ⟨hstore, hload, hreached⟩
  · have hnot : ¬ (revokeAllUserSessions run t.auth userID).2 = true := fun h => hsessions (hiff.mp h)
    simp [revoked, hnot, hsessions]

private theorem manages_revoked (hfits : Fits t.sessions run.now) (hpos : 0 < run.now)
    (h : checkDelete deps run.env t.admin actor userID = .ok ()) :
    Manages deps actor ((revoked deps run t userID).grants userID) ↔
      StillManaged deps run t actor userID := by
  have hid := GrantWrites.checkDelete_ok h
  simp only [Manages, StillManaged, revoked_get hfits hpos hid]
  rcases manages_of_checked h with hsites | hstore | ⟨siteID, hget, haccess⟩
  · simp [hsites]
  · simp [hstore]
  · apply or_congr_right
    constructor
    · rintro (hstore | ⟨other, ⟨hother, hleft⟩, hadmin⟩)
      · exact .inl hstore
      · by_contra hnot
        simp only [not_or, not_not, not_exists, not_and, Bool.not_eq_true, Bool.not_eq_false]
          at hnot
        obtain ⟨hstore, hsessions, hload, hnone⟩ := hnot
        simpa [hadmin] using hnone other (hleft hsessions hstore hload) hother
    · rintro (hstore | hsessions | hload | ⟨other, hleft, hother, hadmin⟩)
      · exact .inl hstore
      · exact .inr ⟨siteID, ⟨hget, fun h => absurd h hsessions⟩, haccess⟩
      · exact .inr ⟨siteID, ⟨hget, fun _ _ h => by simp [hload] at h⟩, haccess⟩
      · exact .inr ⟨other, ⟨hother, fun _ _ _ => hleft⟩, hadmin⟩

private theorem revoked_fits (hfits : Fits t.sessions run.now) (hpos : 0 < run.now) :
    Fits (revoked deps run t userID).sessions run.now :=
  (revokeAllUserSessions_revokes hfits hpos).fits

/-- A failed deletion leaves the sessions of a blocked user as they are. -/
theorem revoked_blocked (hfits : Fits t.sessions run.now) (h : Blocked t.users userID) :
    (revoked deps run t userID).sessions = t.sessions := by
  have howned : Owned t.auth userID (activeSessions t.auth userID) :=
    activeSessions_owned hfits.keys
  simp only [revoked, revokeAllUserSessions]
  split_ifs
  · rfl
  · rw [revokeEach_blocked h howned]
    rfl

private theorem noLiveSession_mono
    {now later : ℕ} (h : NoLiveSession db userID now) (hle : now ≤ later) :
    NoLiveSession db userID later := by
  intro r hr huser hlive
  exact h r hr huser ⟨hlive.1, fun hexp => hlive.2 ⟨hexp.1, hexp.2.trans hle⟩⟩

/-- The sessions are those of a table that is not ahead of the clock, and no grant is for the
site 0, which `Grant` refuses. -/
structure Request where
  tables : Tables
  run : Run
  fits : Fits tables.sessions run.now
  started : 0 < run.now
  granted : ∀ userID, (tables.grants userID).get 0 = none

/-- The statements on OAuth tables succeed in a deletion that is not answered with an error, and
one that is can be repeated. -/
structure Kept (deps : Deps) (run : Run) (t : Tables) (actor : User) (userID : UserID) : Prop where
  store : deps.userSites = true ∨ NoGrants (t.grants userID)
  oauth : Succeeds deps run t userID →
    ∀ table ∈ oauthGrantTables, run.fails (.erase table) = false
  blocked : ¬ Succeeds deps run t userID → Blocked t.users userID →
    NoLiveSession t.auth userID run.now
  managed : ¬ Succeeds deps run t userID → StillManaged deps run t actor userID

/-- The same request without failures, after one that has failed. -/
theorem again_iff (req : Request) {again : Run}
    (hcheck : checkDelete deps req.run.env req.tables.admin actor userID = .ok ())
    (hclean : again.Clean) (hlater : req.run.now ≤ again.now) :
    (deleteAccount deps again (revoked deps req.run req.tables userID) actor
          (some userID)).status = 204 ∧
        Complete again (revoked deps req.run req.tables userID) userID
          (deleteAccount deps again (revoked deps req.run req.tables userID) actor (some userID)) ↔
      StillManaged deps req.run req.tables actor userID ∧
        (Blocked req.tables.users userID → NoLiveSession req.tables.auth userID again.now) ∧
        (deps.userSites = true ∨ NoGrants (req.tables.grants userID)) := by
  have hid := GrantWrites.checkDelete_ok hcheck
  have hget : ∀ siteID, ((revoked deps req.run req.tables userID).grants userID).get siteID ≠ none ↔
      _ := revoked_get req.fits req.started hid
  have hfits : Fits (revoked deps req.run req.tables userID).sessions again.now :=
    (revoked_fits req.fits req.started).mono hlater
  have hpos : 0 < again.now := req.started.trans_le hlater
  have hzero : ((revoked deps req.run req.tables userID).grants userID).get 0 = none := by
    by_contra hsome
    exact ((hget 0).mp hsome).1 (req.granted userID)
  have husers : (revoked deps req.run req.tables userID).users = req.tables.users := rfl
  have hagain : checkDelete deps again.env (revoked deps req.run req.tables userID).admin actor
      userID = .ok () ↔ StillManaged deps req.run req.tables actor userID :=
    (checkDelete_again hclean husers hcheck).trans (manages_revoked req.fits req.started hcheck)
  have hlive : (Blocked (revoked deps req.run req.tables userID).users userID →
      NoLiveSession (revoked deps req.run req.tables userID).auth userID again.now) ↔
      (Blocked req.tables.users userID → NoLiveSession req.tables.auth userID again.now) := by
    apply forall_congr'
    intro hblocked
    simp only [NoLiveSession, Tables.auth, revoked_blocked req.fits hblocked]
  have hgrants : deps.userSites = true ∨
      NoGrants ((revoked deps req.run req.tables userID).grants userID) ↔
      deps.userSites = true ∨ NoGrants (req.tables.grants userID) := by
    by_cases hstore : deps.userSites = true
    · simp [hstore]
    · apply or_congr_right
      apply forall_congr'
      intro siteID
      have hsite := hget siteID
      simp only [hstore, Bool.false_eq_true, false_imp_iff, implies_true, and_true] at hsite
      exact not_iff_not.mp hsite
  rw [status_iff hfits hpos hzero, succeeds_clean hclean, hlive]
  constructor
  · intro ⟨⟨hchecked, hsucceeds⟩, hcomplete⟩
    have hleft := (deletion_complete_iff hfits hpos hzero hchecked
      ((succeeds_clean hclean).mpr (hlive.mpr hsucceeds))).mp hcomplete
    exact ⟨hagain.mp hchecked, hsucceeds, hgrants.mp hleft.2⟩
  · intro ⟨hmanaged, hsucceeds, hstore⟩
    have hchecked := hagain.mpr hmanaged
    exact ⟨⟨hchecked, hsucceeds⟩, (deletion_complete_iff hfits hpos hzero hchecked
      ((succeeds_clean hclean).mpr (hlive.mpr hsucceeds))).mpr
        ⟨fun _ _ => hclean _, hgrants.mpr hstore⟩⟩

/-- A deletion is complete or can be repeated exactly under these conditions. -/
theorem promised_iff (req : Request) (deps : Deps) (actor : User) (userID : UserID) :
    Promised deps req.run req.tables actor userID ↔
      (checkDelete deps req.run.env req.tables.admin actor userID = .ok () →
        Kept deps req.run req.tables actor userID) := by
  have hzero := req.granted userID
  have hstatus : (deleteAccount deps req.run req.tables actor (some userID)).status = 204 ↔ _ :=
    status_iff req.fits req.started hzero
  constructor
  · intro hpromised hcheck
    by_cases hsucceeds : Succeeds deps req.run req.tables userID
    · have hcomplete := (deletion_complete_iff req.fits req.started hzero hcheck hsucceeds).mp
        (hpromised.done (hstatus.mpr ⟨hcheck, hsucceeds⟩))
      exact ⟨hcomplete.2, fun _ => hcomplete.1, fun h => absurd hsucceeds h,
        fun h => absurd hsucceeds h⟩
    · have hid := GrantWrites.checkDelete_ok hcheck
      have htables := (cascade_of_not_succeeds req.fits req.started hid hzero hsucceeds).2
      let again : Run := { req.run with fails := fun _ => false }
      have hclean : again.Clean := fun _ => rfl
      have hlater : req.run.now ≤ again.now := Nat.le_refl _
      have hretried := hpromised.retried hcheck (fun h => hsucceeds (hstatus.mp h).2) again
        hclean hlater
      rw [deleteAccount_of_checked hcheck, htables] at hretried
      obtain ⟨hmanaged, hlive, hstore⟩ := (again_iff req hcheck hclean hlater).mp hretried
      exact ⟨hstore, fun h => absurd h hsucceeds, fun _ => hlive, fun _ => hmanaged⟩
  · intro hkept
    constructor
    · intro h
      obtain ⟨hcheck, hsucceeds⟩ := hstatus.mp h
      have hcond := hkept hcheck
      exact (deletion_complete_iff req.fits req.started hzero hcheck hsucceeds).mpr
        ⟨hcond.oauth hsucceeds, hcond.store⟩
    · intro hcheck hfailed again hclean hlater
      have hid := GrantWrites.checkDelete_ok hcheck
      have hsucceeds : ¬ Succeeds deps req.run req.tables userID :=
        fun h => hfailed (hstatus.mpr ⟨hcheck, h⟩)
      have hcond := hkept hcheck
      rw [deleteAccount_of_checked hcheck,
        (cascade_of_not_succeeds req.fits req.started hid hzero hsucceeds).2]
      exact (again_iff req hcheck hclean hlater).mpr ⟨hcond.managed hsucceeds,
        fun hblocked => noLiveSession_mono (hcond.blocked hsucceeds hblocked) hlater, hcond.store⟩

end Request

def viewerID : UserID := 7

def viewerRow : UserRow where
  user := { userID := viewerID, siteID := 1, role := .viewer }
  passwordHash := "x"

def siteAdmin : User := { userID := 1, siteID := 1, role := .admin, sites := some [(1, .admin)] }

/-- A viewer of site 1, and the one statement that fails. -/
def failing (call : StoreCall) : Request where
  tables := ⟨[viewerRow], [], fun _ => [(1, .viewer)]⟩
  run := ⟨fun c => c = call, 1, id⟩
  fits := ⟨by simp [SessionKeys], by simp⟩
  started := Nat.one_pos
  granted := fun _ => rfl

def perSiteDeps : Deps := ⟨some, true, 1⟩

/-- The codes of the viewer stay behind a deletion that is answered with 204, and the one that
ends with the tokens cannot be repeated: its actor manages the viewer no more. -/
theorem codes_stay_and_retry_refused :
    ((deleteAccount perSiteDeps (failing (.erase .oauthAuthCodes)).run
        (failing (.erase .oauthAuthCodes)).tables siteAdmin (some viewerID)).status = 204 ∧
      ¬ Promised perSiteDeps (failing (.erase .oauthAuthCodes)).run
        (failing (.erase .oauthAuthCodes)).tables siteAdmin viewerID) ∧
    (deleteAccount perSiteDeps (failing (.erase .mcpTokens)).run
        (failing (.erase .mcpTokens)).tables siteAdmin (some viewerID)).status = 500 ∧
      ¬ Promised perSiteDeps (failing (.erase .mcpTokens)).run
        (failing (.erase .mcpTokens)).tables siteAdmin viewerID := by
  refine ⟨⟨by decide +kernel, fun h => ?_⟩, by decide +kernel, fun h => ?_⟩
  · have hmutation := (h.done (by decide +kernel)).mutations .oauthAuthCodes
    revert hmutation
    decide +kernel
  · have hretried := (h.retried rfl (by decide +kernel) ⟨fun _ => false, 1, id⟩ (fun _ => rfl)
      (Nat.le_refl _)).1
    revert hretried
    decide +kernel

end Statnive.AccountDeletion
