import Statnive.AccountChanges
import Statnive.AccountDeletion

/-!
# Updates of a user that are refused

`Update` writes the role and revokes the sessions of its target before it looks whether the
actor may manage the target. The user name of the request is not written at all. What becomes of
the users is as in `UsersHandlers`: `update_users`.
-/

namespace Statnive.RefusedUpdates

open AuthTypes AuthStore SessionCascade
open AuthSessions (activeSessions lookupSession selectSession)
open AccountDeletion (Tables Run Revocable SessionsRevocable)
open UsersHandlers (Deps canManageUser loadUserSites managedTarget)

/-- The body of an update, with its role trimmed. -/
structure UpdateUserRequest where
  username : String := ""
  role : Role

/-- The error with which the loop over the sessions ends. -/
def cascadeError (run : Run) (db : AuthSessions.Tables) :
    List Hash → Option (Option AuthError)
  | [] => none
  | hash :: hashes => match AccountDeletion.revokeSession run db hash with
    | .error e => some e
    | .ok db' => cascadeError run db' hashes

def revokeAllError (run : Run) (db : AuthSessions.Tables) (userID : UserID) :
    Option (Option AuthError) :=
  if run.fails .listSessions then some none else cascadeError run db (activeSessions db userID)

/-- `CachedStore.ChangeRole` with the error it returns. -/
def changeRole (run : Run) (t : Tables) (userID : UserID) (role : Role) :
    Tables × Option (Option AuthError) :=
  if run.fails (.query .changeUser) then (t, some none)
  else match changeUser t.users userID (.changeRole (some role)) run.now with
  | .error e => (t, some (some e))
  | .ok users =>
    let revoked := AccountDeletion.revokeAllUserSessions run ⟨users, t.sessions⟩ userID
    (⟨users, revoked.1.sessions, t.grants⟩, revokeAllError run ⟨users, t.sessions⟩ userID)

/-- `none` stands for no actor, a path without a UUID, and a body that does not decode. -/
def update (deps : Deps) (run : Run) (t : Tables) (actor : Option User) (userID : Option UserID)
    (body : Option UpdateUserRequest) : Tables × ℕ :=
  match actor, userID, body with
  | none, _, _ => (t, 401)
  | some actor, some userID, some req =>
    if !req.role.valid then (t, 400)
    else match changeRole run t userID req.role with
    | (t', some err) => (t', if err = some .notFound then 404 else 500)
    | (t', none) => match managedTarget deps run.env t'.admin actor userID with
      | .error status => (t', status)
      | .ok _ => (t', 200)
  | some _, _, _ => (t, 400)

/-- The users are those that the handler leaves where sessions are not looked at. -/
theorem update_users (deps : Deps) (run : Run) (t : Tables) (actor : User)
    (userID : Option UserID) (body : Option UpdateUserRequest) :
    (update deps run t (some actor) userID body).1.users =
      (UsersHandlers.updateUser deps run.env t.admin actor userID
        (body.map UpdateUserRequest.role)).1.users := by
  cases userID with
  | none => rfl
  | some userID =>
    cases body with
    | none => rfl
    | some req =>
      have hfails : run.env.fails .changeUser = run.fails (.query .changeUser) := rfl
      have hnow : run.env.now = run.now := rfl
      simp only [update, UsersHandlers.updateUser, changeRole, UsersHandlers.cachedChange,
        Option.map_some, hfails, hnow, Tables.admin]
      by_cases hvalid : req.role.valid = true
      swap
      · simp [hvalid]
      by_cases hwrite : run.fails (.query .changeUser) = true
      · simp [hvalid, hwrite]
      cases changeUser t.users userID (.changeRole (some req.role)) run.now with
      | error e => simp [hvalid, hwrite]
      | ok users =>
        simp only [hvalid, hwrite, Bool.not_true, Bool.false_eq_true, if_false]
        -- whatever either is answered with, both have written the users
        trans users
        · split
          · next heq =>
            obtain ⟨rfl, -⟩ := Prod.mk.inj heq
            rfl
          · next heq =>
            obtain ⟨rfl, -⟩ := Prod.mk.inj heq
            split <;> rfl
        · symm
          split
          · next heq =>
            obtain ⟨rfl, -⟩ := Prod.mk.inj heq
            rfl
          · next heq =>
            obtain ⟨rfl, -⟩ := Prod.mk.inj heq
            split <;> rfl

/-- A session that a look-up accepts for the user. -/
def Active (t : Tables) (userID : UserID) (now : ℕ) (hash : Hash) : Prop :=
  ∃ info, lookupSession t.auth hash now = .ok info ∧ info.session.userID = userID

structure Untouched (t t' : Tables) (userID : UserID) (now : ℕ) : Prop where
  role : (selectUser t'.users userID).map (·.user.role) =
    (selectUser t.users userID).map (·.user.role)
  username : (selectUser t'.users userID).map (·.user.username) =
    (selectUser t.users userID).map (·.user.username)
  sessions : ∀ hash, Active t' userID now hash ↔ Active t userID now hash

/-- An update that is answered with 4xx leaves its target untouched. -/
def RefusedUntouched (deps : Deps) (run : Run) (t : Tables) (actor : Option User)
    (userID : Option UserID) (body : Option UpdateUserRequest) : Prop :=
  let answered := update deps run t actor userID body
  400 ≤ answered.2 → answered.2 < 500 →
    ∀ target, userID = some target → Untouched t answered.1 target run.now

/-- No statement fails that revoking the sessions of the target under its new role needs, and a
live one is not of a disabled user. -/
def CascadeRuns (run : Run) (t : Tables) (target : UserID) (role : Role) (v : UserRow) : Prop :=
  run.fails .listSessions = false ∧
    ∀ r ∈ t.sessions, r.session.userID = target → r.session.revokedAt = 0 →
      run.fails (.selectSession r.session.idHash) = false ∧
      (Live r run.now → run.fails (.sessionUser r.session.idHash) = false ∧
        v.user.disabled = false ∧
        (role = r.session.role → run.fails (.insertSession r.session.idHash) = false))

/-- The role of the target is written and its sessions are revoked. The target is then not read
again, or is not one that the actor manages; and the update has made a difference. -/
structure WrittenAndRefused (deps : Deps) (run : Run) (t : Tables) (actor : User)
    (target : UserID) (role : Role) (v : UserRow) : Prop where
  valid : role.valid = true
  named : target ≠ uuidNil
  found : selectUser t.users target = some v
  written : run.fails (.query .changeUser) = false
  revoked : CascadeRuns run t target role v
  refused : run.fails (.query .getUser) = true ∨
    canManageUser deps actor v.user (loadUserSites run.env .targetGrants t.grants target) = false
  differs : v.user.role ≠ role ∨ ∃ hash, Active t target run.now hash

/-- Tables of which no row is from later than the clock. -/
structure Sound (t : Tables) (now : ℕ) : Prop where
  users : UserKeys t.users
  versions : ∀ r ∈ t.users, UserRow.version r ≤ now
  sessions : Fits t.sessions now
  started : 0 < now

variable {run : Run} {t : Tables} {target : UserID} {role : Role} {v : UserRow}

private theorem cascadeError_none_iff (db : AuthSessions.Tables) (hashes : List Hash) :
    cascadeError run db hashes = none ↔ (AccountDeletion.revokeEach run db hashes).2 = true := by
  induction hashes generalizing db with
  | nil => simp [cascadeError, AccountDeletion.revokeEach]
  | cons hash hashes ih =>
    cases h : AccountDeletion.revokeSession run db hash with
    | error e => simp [cascadeError, AccountDeletion.revokeEach, h]
    | ok db' => simpa only [cascadeError, AccountDeletion.revokeEach, h] using ih db'

theorem revokeAllError_none_iff (db : AuthSessions.Tables) (userID : UserID) :
    revokeAllError run db userID = none ↔
      (AccountDeletion.revokeAllUserSessions run db userID).2 = true := by
  rw [revokeAllError, AccountDeletion.revokeAllUserSessions]
  split
  · simp
  · exact cascadeError_none_iff db _

/-- The look-up of a session, of a user that exists, does not say that something is missing. -/
theorem lookupSession_ne_notFound {db : AuthSessions.Tables} {hash : Hash}
    {r : AuthSessions.SessionRow} (hr : selectSession db.sessions hash = some r)
    (hv : selectUser db.users r.session.userID = some v) (hid : r.session.userID ≠ uuidNil) :
    AccountDeletion.lookupSession run db hash ≠ .error (some .notFound) := by
  have hu : getUserByID db.users r.session.userID = .ok v.user := by
    simp [getUserByID, hid, hv]
  simp only [AccountDeletion.lookupSession, hr, hu]
  split_ifs <;> simp

private theorem revokeSession_ne_notFound {db : AuthSessions.Tables} {hash : Hash}
    (h : AccountDeletion.lookupSession run db hash ≠ .error (some .notFound)) :
    AccountDeletion.revokeSession run db hash ≠ .error (some .notFound) := by
  cases hlook : AccountDeletion.lookupSession run db hash with
  | ok info =>
    simp only [AccountDeletion.revokeSession, hlook]
    split_ifs <;> simp
  | error e =>
    rw [hlook] at h
    cases e with
    | none => simp [AccountDeletion.revokeSession, hlook]
    | some e => cases e <;> simp_all [AccountDeletion.revokeSession]

private theorem cascadeError_ne_notFound
    {db : AuthSessions.Tables} (hfits : Fits db.sessions run.now)
    (hpos : 0 < run.now) (hid : target ≠ uuidNil) (hv : selectUser db.users target = some v)
    {hashes : List Hash} (howned : AccountDeletion.Owned db target hashes) :
    cascadeError run db hashes ≠ some (some .notFound) := by
  induction hashes generalizing db with
  | nil => simp [cascadeError]
  | cons hash hashes ih =>
    obtain ⟨r, hr, rfl⟩ := howned hash List.mem_cons_self
    have hlook : AccountDeletion.lookupSession run db hash ≠ .error (some .notFound) :=
      lookupSession_ne_notFound hr hv hid
    have hne := revokeSession_ne_notFound hlook
    cases hrevoke : AccountDeletion.revokeSession run db hash with
    | error e =>
      rw [hrevoke] at hne
      simp only [cascadeError, hrevoke]
      intro heq
      exact hne (congrArg Except.error (Option.some.inj heq))
    | ok db' =>
      have hone := (SessionCascade.revokeSession_ok hfits hpos
        (AccountDeletion.revokeSession_ok hrevoke)).1
      simp only [cascadeError, hrevoke]
      exact ih hone.fits (hone.users ▸ hv) (howned.persist hone.persist)

/-- The row of the target with its new role. -/
def withRole (run : Run) (role : Role) (v : UserRow) : UserRow :=
  ⟨{ v.user with role := role, updatedAt := run.now }, v.passwordHash⟩

/-- The tables with the role written. -/
def written (run : Run) (t : Tables) (role : Role) (v : UserRow) : Tables :=
  ⟨insertUserRow t.users (withRole run role v).user v.passwordHash, t.sessions, t.grants⟩

/-- The tables with the role written and the sessions revoked. -/
def changed (run : Run) (t : Tables) (target : UserID) (role : Role) (v : UserRow) : Tables :=
  ⟨(written run t role v).users,
    (AccountDeletion.revokeAllUserSessions run (written run t role v).auth target).1.sessions,
    t.grants⟩

theorem changeUser_role (hvalid : role.valid = true) (hid : target ≠ uuidNil)
    (hv : selectUser t.users target = some v) :
    changeUser t.users target (.changeRole (some role)) run.now =
      .ok (written run t role v).users := by
  simp [changeUser, Change.refused, Change.mutation, mutateUser, Mutation.loadUser,
    Mutation.loadHash, Mutation.apply, getUserByID, selectPasswordHash, hvalid, hid, hv, written,
    withRole]

theorem changeUser_ok {users : List UserRow}
    (h : changeUser t.users target (.changeRole (some role)) run.now = .ok users) :
    target ≠ uuidNil ∧ ∃ v, selectUser t.users target = some v := by
  have hid : target ≠ uuidNil := by
    rintro rfl
    simp [changeUser, Change.refused, mutateUser, Mutation.loadUser] at h
  simp only [changeUser, Change.refused] at h
  obtain ⟨v, -, hv, -⟩ := mutateUser_ok h
  exact ⟨hid, v, hv⟩

theorem selectUser_written (hs : Sound t run.now) (hv : selectUser t.users target = some v) :
    selectUser (written run t role v).users target = some (withRole run role v) :=
  (AccountChanges.insert_mutates (u := (withRole run role v).user) v.passwordHash hs.users
    hs.versions (Nat.le_refl _) hv (selectUser_mem hv).2 rfl rfl).2

/-- What the request finds of its target after the change. -/
theorem managedTarget_changed (hs : Sound t run.now) (hid : target ≠ uuidNil)
    (hv : selectUser t.users target = some v) (deps : Deps) (actor : User) :
    managedTarget deps run.env (changed run t target role v).admin actor target =
      if run.fails (.query .getUser) = true then .error 404
      else if canManageUser deps actor v.user (loadUserSites run.env .targetGrants t.grants target)
      then .ok (withRole run role v).user else .error 403 := by
  have hget : getUserByID (written run t role v).users target =
      .ok (withRole run role v).user := by
    simp [getUserByID, hid, selectUser_written hs hv]
  have hsame : canManageUser deps actor (withRole run role v).user =
      canManageUser deps actor v.user := rfl
  simp only [managedTarget, UsersHandlers.getUser, changed, Tables.admin, Run.env, hget]
  split_ifs <;> simp_all [Except.toOption]

/-- All ways through the handler: the tables are as before, or the role has been written. -/
theorem update_cases (hs : Sound t run.now) (deps : Deps) (actor : Option User)
    (userID : Option UserID) (body : Option UpdateUserRequest) :
    (update deps run t actor userID body).1 = t ∨
      ∃ a target req v, actor = some a ∧ userID = some target ∧ body = some req ∧
        req.role.valid = true ∧ target ≠ uuidNil ∧ selectUser t.users target = some v ∧
        run.fails (.query .changeUser) = false ∧
        (update deps run t actor userID body).1 = changed run t target req.role v ∧
        ((update deps run t actor userID body).2 = 500 ∨
          revokeAllError run (written run t req.role v).auth target = none ∧
            (update deps run t actor userID body).2 =
              match managedTarget deps run.env (changed run t target req.role v).admin a target with
              | .error status => status
              | .ok _ => 200) := by
  cases actor with
  | none => exact .inl rfl
  | some a =>
    cases userID with
    | none => exact .inl rfl
    | some target =>
      cases body with
      | none => exact .inl rfl
      | some req =>
        by_cases hvalid : req.role.valid = true
        swap
        · exact .inl (by simp [update, hvalid])
        by_cases hwrite : run.fails (.query .changeUser) = true
        · exact .inl (by simp [update, hvalid, changeRole, hwrite])
        cases hch : changeUser t.users target (.changeRole (some req.role)) run.now with
        | error e => exact .inl (by simp [update, hvalid, changeRole, hwrite, hch])
        | ok users =>
          obtain ⟨hid, v, hv⟩ := changeUser_ok hch
          obtain rfl : (written run t req.role v).users = users :=
            Except.ok.inj ((changeUser_role hvalid hid hv).symm.trans hch)
          have hrole : changeRole run t target req.role = (changed run t target req.role v,
              revokeAllError run (written run t req.role v).auth target) := by
            simp only [changeRole, hwrite, hch]
            rfl
          refine .inr ⟨a, target, req, v, rfl, rfl, rfl, hvalid, hid, hv, by simpa using hwrite, ?_⟩
          cases herr : revokeAllError run (written run t req.role v).auth target with
          | none =>
            simp only [update, hvalid, hrole, herr]
            cases managedTarget deps run.env (changed run t target req.role v).admin a target with
            | error status => exact ⟨rfl, .inr ⟨trivial, rfl⟩⟩
            | ok u => exact ⟨rfl, .inr ⟨trivial, rfl⟩⟩
          | some err =>
            have hne : err ≠ some .notFound := by
              rintro rfl
              simp only [revokeAllError] at herr
              split_ifs at herr
              · cases herr
              · exact cascadeError_ne_notFound hs.sessions hs.started hid
                  (selectUser_written hs hv)
                  (SessionCascade.activeSessions_owned hs.sessions.keys) herr
            simp only [update, hvalid, hrole, herr, if_neg hne]
            exact ⟨rfl, .inl rfl⟩

/-- The condition on the sessions does not need the new row. -/
theorem cascadeRuns_iff (hs : Sound t run.now) (hv : selectUser t.users target = some v) :
    SessionsRevocable run (written run t role v) target ↔ CascadeRuns run t target role v := by
  have hnew : selectUser (written run t role v).users target = some (withRole run role v) :=
    selectUser_written hs hv
  refine and_congr_right fun _ => forall₂_congr fun r _ => ?_
  refine forall₂_congr fun huser _ => and_congr_right fun _ => imp_congr_right fun _ => ?_
  refine and_congr_right fun _ => ?_
  rw [huser]
  constructor
  · rintro ⟨w, hw, henabled, hinsert⟩
    obtain rfl : withRole run role v = w := Option.some.inj (hnew.symm.trans hw)
    exact ⟨henabled, hinsert⟩
  · rintro ⟨henabled, hinsert⟩
    exact ⟨_, hnew, henabled, hinsert⟩

theorem revokeAllError_written_iff (hs : Sound t run.now) (hid : target ≠ uuidNil)
    (hv : selectUser t.users target = some v) :
    revokeAllError run (written run t role v).auth target = none ↔
      CascadeRuns run t target role v := by
  rw [revokeAllError_none_iff, AccountDeletion.revokeAll_done_iff (t := written run t role v)
    hs.sessions hs.started hid, cascadeRuns_iff hs hv]

/-- Revoking writes sessions that exist. -/
theorem selectSession_revokeEach {db : AuthSessions.Tables} {hash : Hash} {hashes : List Hash}
    (h : selectSession db.sessions hash = none) :
    selectSession (AccountDeletion.revokeEach run db hashes).1.sessions hash = none := by
  induction hashes generalizing db with
  | nil => exact h
  | cons first hashes ih =>
    cases hrevoke : AccountDeletion.revokeSession run db first with
    | error e => simpa only [AccountDeletion.revokeEach, hrevoke] using h
    | ok db' =>
      have hpure := AccountDeletion.revokeSession_ok hrevoke
      simp only [AccountDeletion.revokeEach, hrevoke]
      apply ih
      by_cases hne : first = hash
      · subst hne
        simp [AuthSessions.revokeSession, lookupSession, h] at hpure
      · rw [AccountDeletion.select_revokeSession_of_ne hpure hne, h]

/-- No session of the target is accepted after its sessions were revoked. -/
theorem not_active_changed (hs : Sound t run.now)
    (h : revokeAllError run (written run t role v).auth target = none) (hash : Hash) :
    ¬ Active (changed run t target role v) target run.now hash := by
  rintro ⟨info, hok, huser⟩
  have hfits : Fits (written run t role v).sessions run.now := hs.sessions
  have hdone := (revokeAllError_none_iff _ _).mp h
  have hrevokes : SessionCascade.Revokes (written run t role v).auth
      (AccountDeletion.revokeAllUserSessions run (written run t role v).auth target).1 run.now :=
    AccountDeletion.revokeAllUserSessions_revokes hfits hs.started
  have hdb : (changed run t target role v).auth =
      (AccountDeletion.revokeAllUserSessions run (written run t role v).auth target).1 :=
    congrArg (AuthSessions.Tables.mk · _) hrevokes.users.symm
  obtain ⟨r, -, hr, hsess, -⟩ := lookupSession_ok hok
  cases hold : selectSession t.sessions hash with
  | none =>
    have hnone : selectSession (changed run t target role v).sessions hash = none := by
      simp only [changed, AccountDeletion.revokeAllUserSessions]
      split_ifs
      · exact hold
      · exact selectSession_revokeEach hold
    exact absurd (hr.symm.trans hnone) (by simp)
  | some old =>
    obtain ⟨r', hr', hp⟩ := hrevokes.persist hash old hold
    rw [← hdb] at hr'
    obtain rfl : r = r' := Option.some.inj (hr.symm.trans hr')
    have howner : old.session.userID = target := by rw [← hp.userID, hsess, huser]
    have hdead := AccountDeletion.revokeAllUserSessions_dead (t := written run t role v)
      hfits hs.started hdone hold howner
    rw [← hdb] at hdead
    exact hdead.not_ok (Nat.le_refl _) info hok

theorem Untouched.refl (t : Tables) (userID : UserID) (now : ℕ) : Untouched t t userID now :=
  ⟨rfl, rfl, fun _ => Iff.rfl⟩

/-- Only an update that makes no difference leaves the target as it was. -/
theorem untouched_changed_iff (hs : Sound t run.now) (hv : selectUser t.users target = some v)
    (h : revokeAllError run (written run t role v).auth target = none) :
    Untouched t (changed run t target role v) target run.now ↔
      ¬ (v.user.role ≠ role ∨ ∃ hash, Active t target run.now hash) := by
  have hnew : selectUser (changed run t target role v).users target =
      some (withRole run role v) := selectUser_written hs hv
  constructor
  · rintro hsame (hrole | ⟨hash, hactive⟩)
    · have heq := hsame.role
      rw [hnew, hv] at heq
      exact hrole (Option.some.inj heq).symm
    · exact not_active_changed hs h hash ((hsame.sessions hash).mpr hactive)
  · intro hsame
    obtain ⟨hrole, hnone⟩ := not_or.mp hsame
    have hrole := not_not.mp hrole
    have hnone := not_exists.mp hnone
    refine ⟨?_, ?_, fun hash => iff_of_false (not_active_changed hs h hash) (hnone hash)⟩
    · rw [hnew, hv, ← hrole]
      rfl
    · rw [hnew, hv]
      rfl

/-- The status of an update whose role is written. -/
theorem update_written (hs : Sound t run.now) {deps : Deps} {actor : User}
    {req : UpdateUserRequest} (hvalid : req.role.valid = true) (hid : target ≠ uuidNil)
    (hv : selectUser t.users target = some v) (hwrite : run.fails (.query .changeUser) = false)
    (hrev : revokeAllError run (written run t req.role v).auth target = none) :
    update deps run t (some actor) (some target) (some req) =
      (changed run t target req.role v,
        if run.fails (.query .getUser) = true then 404
        else if canManageUser deps actor v.user
          (loadUserSites run.env .targetGrants t.grants target) then 200 else 403) := by
  have hrole : changeRole run t target req.role = (changed run t target req.role v, none) := by
    rw [changeRole, changeUser_role hvalid hid hv, if_neg (by simp [hwrite])]
    exact congrArg (Prod.mk _) hrev
  simp only [update, hvalid, hrole, managedTarget_changed hs hid hv, Bool.not_true,
    Bool.false_eq_true, if_false]
  split_ifs <;> rfl

/-- A refused update changes nothing, unless the role was written and the sessions revoked for
an actor who may not do so. -/
theorem refusedUntouched_iff (hs : Sound t run.now) (deps : Deps) (actor : Option User)
    (userID : Option UserID) (body : Option UpdateUserRequest) :
    RefusedUntouched deps run t actor userID body ↔
      ¬ ∃ a target req v, actor = some a ∧ userID = some target ∧ body = some req ∧
        WrittenAndRefused deps run t a target req.role v := by
  constructor
  · rintro h ⟨a, target, req, v, rfl, rfl, rfl, hw⟩
    have hrev := (revokeAllError_written_iff hs hw.named hw.found).mpr hw.revoked
    have hsame := h
    rw [RefusedUntouched,
      update_written hs hw.valid hw.named hw.found hw.written hrev] at hsame
    have hstatus : (if run.fails (.query .getUser) = true then 404
        else if canManageUser deps a v.user
          (loadUserSites run.env .targetGrants t.grants target) then 200 else 403) = 404 ∨
        (if run.fails (.query .getUser) = true then 404
        else if canManageUser deps a v.user
          (loadUserSites run.env .targetGrants t.grants target) then 200 else 403) = 403 := by
      rcases hw.refused with hget | hmanage
      · exact .inl (if_pos hget)
      · by_cases hget : run.fails (.query .getUser) = true
        · exact .inl (if_pos hget)
        · exact .inr (by rw [if_neg hget, if_neg (by simp [hmanage])])
    have huntouched := hsame (by omega) (by omega) target rfl
    exact (untouched_changed_iff hs hw.found hrev).mp huntouched hw.differs
  · intro h hlow hhigh target htarget
    obtain hsame | ⟨a, target', req, v, rfl, rfl, rfl, hvalid, hid, hv, hwrite, htables, hanswer⟩ :=
      update_cases hs deps actor userID body
    · rw [hsame]
      exact Untouched.refl t target run.now
    · obtain rfl : target' = target := Option.some.inj htarget
      obtain hfailed | ⟨hrev, -⟩ := hanswer
      · omega
      · rw [htables, untouched_changed_iff hs hv hrev]
        intro hdiffers
        refine h ⟨a, target', req, v, rfl, rfl, rfl, hvalid, hid, hv, hwrite,
          (revokeAllError_written_iff hs hid hv).mp hrev, ?_, hdiffers⟩
        by_contra hrefused
        obtain ⟨hget, hmanage⟩ := not_or.mp hrefused
        rw [update_written hs hvalid hid hv hwrite hrev, if_neg hget,
          if_pos (by simpa using hmanage)] at hlow
        omega

def otherAdmin : User := { userID := 1, siteID := 2, role := .admin, sites := some [(2, .admin)] }

def quietRun : Run := ⟨fun _ => false, 1, id⟩

/-- One viewer of site 1, with a session. -/
def viewerTables : Tables where
  users := [AccountDeletion.viewerRow]
  sessions := [⟨{ idHash := [1], userID := AccountDeletion.viewerID, siteID := 1, role := .viewer },
    0⟩]
  grants _ := [(1, .viewer)]

private theorem viewerTables_sound : Sound viewerTables quietRun.now where
  users := by simp [viewerTables, UserKeys, OwnKey]
  versions := by decide
  sessions := ⟨by simp [viewerTables, AuthSessions.SessionKeys], by decide⟩
  started := Nat.one_pos

def promote : UpdateUserRequest := { role := .admin }

/-- The admin of the viewer's own site is not refused. -/
theorem promoted_by_own_admin :
    RefusedUntouched AccountDeletion.perSiteDeps quietRun viewerTables
      (some AccountDeletion.siteAdmin) (some AccountDeletion.viewerID) (some promote) := by
  refine (refusedUntouched_iff viewerTables_sound _ _ _ _).mpr ?_
  rintro ⟨a, target, req, v, ha, htarget, hreq, hw⟩
  obtain rfl := Option.some.inj ha
  obtain rfl := Option.some.inj htarget
  obtain rfl : AccountDeletion.viewerRow = v := Option.some.inj hw.found
  rcases hw.refused with hget | hmanage
  · exact absurd hget (by decide)
  · exact absurd hmanage (by decide)

/-- The viewer is an admin, and signed out, after the update that is answered with 403. -/
theorem promoted_by_stranger :
    (update AccountDeletion.perSiteDeps quietRun viewerTables (some otherAdmin)
        (some AccountDeletion.viewerID) (some promote)).2 = 403 ∧
      ¬ RefusedUntouched AccountDeletion.perSiteDeps quietRun viewerTables (some otherAdmin)
        (some AccountDeletion.viewerID) (some promote) := by
  have hstatus : (update AccountDeletion.perSiteDeps quietRun viewerTables (some otherAdmin)
      (some AccountDeletion.viewerID) (some promote)).2 = 403 := by decide +kernel
  refine ⟨hstatus, fun h => ?_⟩
  have hrole := (h (by omega) (by omega) _ rfl).role
  revert hrole
  decide +kernel

end Statnive.RefusedUpdates
