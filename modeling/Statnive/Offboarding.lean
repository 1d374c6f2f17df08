import Statnive.LabelledRuns
import Statnive.OAuthServer
import Statnive.SessionRevocation
import Statnive.TokenMint
import Statnive.UsersHandlers

/-!
# What outlives an offboarding

A user who is disabled, or loses the grant on a site, has handed out credentials before:
tokens minted in the dashboard, and consents from which a client refreshes its access tokens.
Each of them carries the sites that the user had when it was made.

The daemon drops what it has cached of a user with every write it makes. The authorization
server has a cache of its own over the grants, which no write drops.
-/

namespace Statnive.Offboarding

open AuthTypes AuthStore AuthSessions AuthGuards SessionCascade CacheRevocation TokenMint
open OAuthServer (Claims Params Decision TokenRequest Readable oauthReads)
open AccountChanges LabelledRuns

inductive Withdrawal where
  | user (userID : UserID)
  | grant (userID : UserID) (siteID : ℕ)
  deriving DecidableEq

/-- An access token, and what had been offboarded when it was issued. -/
structure Issued where
  claims : Claims
  after : List Withdrawal

structure Config where
  verifyPassword : String → String → Bool
  defaultSiteID : ℕ
  sessionTTL : ℕ
  apiTokens : List StaticToken := []
  /-- The flag `per_site_admin`. -/
  perSiteAdmin : Bool
  mint : MintDeps
  digests : OAuthServer.Digests
  oauth : OAuthServer.Config
  sitesTTL : ℕ

/-- `consentItems` is the authorization server's cache of grants. The clock counts unix
nanoseconds. -/
structure State where
  auth : SessionRevocation.State
  grants : List GrantRow := []
  tokens : List TokenRow := []
  oauth : OAuthServer.Store := {}
  consentItems : UserID → Option (Grants × ℕ) := fun _ => none
  issued : List Issued := []
  clock : ℕ
  offboarded : List Withdrawal := []

/-- A session is given by the hash of its cookie; `up` says whether the look-up of grants that
a request makes succeeds. -/
inductive Action where
  | login (email password : String) (lockedOut : Bool) (hash : Hash) (now : ℕ)
  | visit (hash : Hash) (now : ℕ)
  | mint (hash : Hash) (body : Option CreateRequest) (env : MintEnv) (up : Bool)
  | authorize (hash : Hash) (p : Params) (env : OAuthServer.Env) (now : ℕ) (up : Bool)
  | consent (hash : Hash) (p : Params) (decision : Decision) (env : OAuthServer.Env) (now : ℕ)
      (up : Bool)
  | token (req : TokenRequest) (env : OAuthServer.Env) (now : ℕ)
  | disableUser (userID : UserID) (now : ℕ)
  | revokeGrant (userID : UserID) (siteID : ℕ) (now : ℕ) (up : Bool)

def Action.now : Action → ℕ
  | .login _ _ _ _ now | .visit _ now | .authorize _ _ _ now _ | .consent _ _ _ _ now _
  | .token _ _ now | .disableUser _ now | .revokeGrant _ _ now _ => now
  | .mint _ _ env _ => env.now

def getUserByEmail (users : List UserRow) (siteID : ℕ) (email : String) : Option UserRow :=
  users.find? (fun r => r.user.siteID = siteID && r.user.email = email)

/-- The checks of a login: the lockout, the user, and the password. -/
def authenticate (cfg : Config) (users : List UserRow) (email password : String)
    (lockedOut : Bool) : Option User :=
  let email := UsersHandlers.normalizeEmail cfg.mint.unicode email
  if email = "" || password = "" || lockedOut then none
  else match getUserByEmail users cfg.defaultSiteID email with
  | none => none
  | some r =>
    if r.user.disabled then none
    else if cfg.verifyPassword r.passwordHash password then some r.user
    else none

def newSession (cfg : Config) (u : User) (hash : Hash) (now : ℕ) : Session where
  idHash := hash
  userID := u.userID
  siteID := u.siteID
  role := u.role
  createdAt := now
  lastUsedAt := now
  expiresAt := now + cfg.sessionTTL

/-- The user of a session, as a row is read: without a map of grants. -/
def sessionUser (s : State) (hash : Hash) (now : ℕ) : Option User :=
  match (s.auth.store.lookup hash (unixSeconds now)).2 with
  | .ok info => some { info.user with sites := none }
  | .error _ => none

/-- The state after the look-up of a session. -/
def afterVisit (s : State) (hash : Hash) (now : ℕ) : State :=
  { s with
    auth := SessionRevocation.after s.auth (.lookup hash (unixSeconds now))
    clock := now }

/-- The grants of a user as the guards of the dashboard load them. -/
def userSites (cfg : Config) (grants : List GrantRow) (up : Bool) : Option SitesStore :=
  if cfg.perSiteAdmin then some (fun userID => if up then loadUserSites grants userID else none)
  else none

/-- Who mints: the user of the session, behind the guards of the route. -/
def minter (cfg : Config) (s : State) (hash : Hash) (now : ℕ) (up : Bool) : Option User :=
  match (mintRoute (userSites cfg s.grants up)).serve {} (sessionUser s hash now) with
  | .next u _ => some u
  | _ => none

def readConsentGrants (cfg : Config) (s : State) (userID : UserID) (now : ℕ) (up : Bool) :
    (UserID → Option (Grants × ℕ)) × Option Grants :=
  (sitesCache cfg.sitesTTL).read s.grants s.consentItems userID (unixSeconds now) up

def atTime (env : OAuthServer.Env) (now : ℕ) : OAuthServer.Env :=
  { env with now := unixSeconds now }

/-- `/authorize`, which changes nothing but the caches. -/
def afterAuthorize (cfg : Config) (s : State) (hash : Hash) (p : Params) (env : OAuthServer.Env)
    (now : ℕ) (up : Bool) : State :=
  match OAuthServer.validateAuthParams cfg.oauth (atTime env now) s.oauth p,
      sessionUser s hash now with
  | .ok _, some u =>
    { afterVisit s hash now with consentItems := (readConsentGrants cfg s u.userID now up).1 }
  | _, _ => afterVisit s hash now

def afterConsent (cfg : Config) (s : State) (hash : Hash) (p : Params) (decision : Decision)
    (env : OAuthServer.Env) (now : ℕ) (up : Bool) : State :=
  match OAuthServer.validateAuthParams cfg.oauth (atTime env now) s.oauth p,
      sessionUser s hash now with
  | .ok _, some u =>
    if decision.approve then
      let read := readConsentGrants cfg s u.userID now up
      { afterVisit s hash now with
        consentItems := read.1
        oauth := (OAuthServer.consent cfg.digests.hashToken cfg.oauth (atTime env now) s.oauth
          (some u) read.2 p decision).1 }
    else afterVisit s hash now
  | _, _ => afterVisit s hash now

def afterToken (cfg : Config) (s : State) (req : TokenRequest) (env : OAuthServer.Env)
    (now : ℕ) : State :=
  let out := OAuthServer.token cfg.digests cfg.oauth (atTime env now) s.oauth req
  match out.2 with
  | .tokens access _ =>
    { s with oauth := out.1, issued := s.issued ++ [⟨access, s.offboarded⟩], clock := now }
  | _ => { s with oauth := out.1, clock := now }

/-- `DisableUser` makes its change. -/
def Disables (s : State) (userID : UserID) (now : ℕ) : Prop :=
  ∃ users, AuthStore.changeUser s.auth.store.db.users userID .disableUser (unixSeconds now) =
    .ok users

/-- `Revoke` finds the grant and marks it. -/
def Revokes (s : State) (userID : UserID) (siteID : ℕ) (now : ℕ) (up : Bool) : Prop :=
  up = true ∧ loadOneGrant s.grants userID siteID ≠ none ∧
    ∃ rows, CacheRevocation.revokeGrant s.grants userID siteID (unixSeconds now) = some rows

instance (s : State) (userID : UserID) (now : ℕ) : Decidable (Disables s userID now) :=
  match h : AuthStore.changeUser s.auth.store.db.users userID .disableUser (unixSeconds now) with
  | .ok users => .isTrue ⟨users, h⟩
  | .error e => .isFalse (by rintro ⟨users, hok⟩; simp [h] at hok)

instance (s : State) (userID : UserID) (siteID : ℕ) (now : ℕ) (up : Bool) :
    Decidable (Revokes s userID siteID now up) :=
  decidable_of_iff (up = true ∧ loadOneGrant s.grants userID siteID ≠ none ∧
    (CacheRevocation.revokeGrant s.grants userID siteID (unixSeconds now)).isSome = true)
    (by simp only [Revokes, Option.isSome_iff_exists])

def afterDisable (s : State) (userID : UserID) (now : ℕ) : State :=
  { s with
    auth := SessionRevocation.after s.auth
      (.operate userID (.change .disableUser) (unixSeconds now))
    clock := now
    offboarded :=
      if Disables s userID now then .user userID :: s.offboarded else s.offboarded }

def afterRevoke (s : State) (userID : UserID) (siteID : ℕ) (now : ℕ) (up : Bool) : State :=
  { s with
    grants := if up then
      (CacheRevocation.revokeGrant s.grants userID siteID (unixSeconds now)).getD s.grants
      else s.grants
    clock := now
    offboarded := if Revokes s userID siteID now up then .grant userID siteID :: s.offboarded
      else s.offboarded }

def after (cfg : Config) (s : State) : Action → State
  | .login email password lockedOut hash now =>
    match authenticate cfg s.auth.store.db.users email password lockedOut with
    | none => { s with clock := now }
    | some u => { s with
        auth := SessionRevocation.after s.auth
          (.login (newSession cfg u hash (unixSeconds now)) (unixSeconds now))
        clock := now }
  | .visit hash now => afterVisit s hash now
  | .mint hash body env up => match minter cfg s hash env.now up with
    | none => afterVisit s hash env.now
    | some u => { afterVisit s hash env.now with
        tokens := (mintToken cfg.mint env s.tokens u body).1 }
  | .authorize hash p env now up => afterAuthorize cfg s hash p env now up
  | .consent hash p decision env now up => afterConsent cfg s hash p decision env now up
  | .token req env now => afterToken cfg s req env now
  | .disableUser userID now => afterDisable s userID now
  | .revokeGrant userID siteID now up => afterRevoke s userID siteID now up

/-- Cookies and secrets are random: a new one has no row yet. Only a daemon with grants per
site revokes one. -/
def Enabled (cfg : Config) (s : State) : Action → Prop
  | .login _ _ _ hash _ => selectSession s.auth.store.db.sessions hash = none
  | .mint _ _ env _ => (∀ r ∈ s.tokens, r.hash ≠ cfg.mint.sha256 env.raw) ∧
      ∀ t ∈ cfg.apiTokens, t.hashBytes ≠ cfg.mint.sha256 env.raw
  | .revokeGrant _ _ _ _ => cfg.perSiteAdmin = true
  | _ => True

instance (cfg : Config) (s : State) (a : Action) : Decidable (Enabled cfg s a) := by
  cases a <;> unfold Enabled <;> infer_instance

/-- Time does not go back from one action to the next. -/
def step (cfg : Config) (s : State) (a : Action) : Option State :=
  if s.clock ≤ a.now ∧ Enabled cfg s a then some (after cfg s a) else none

/-- Rows under their own keys and no later than the clock, an empty cache of sessions, and
tokens that list a site at a role. -/
structure Starts (s : State) : Prop where
  auth : SessionRevocation.Starts s.auth
  clock : s.auth.clock ≤ unixSeconds s.clock
  grants : ∀ r ∈ s.grants, r.updatedAt ≤ unixSeconds s.clock
  tokens : ∀ r ∈ s.tokens, r.token.siteIDs ≠ [] ∧ r.token.role.valid = true
  issued : s.issued = []
  offboarded : s.offboarded = []

structure Inv (s : State) : Prop where
  auth : SessionRevocation.Inv s.auth
  clock : s.auth.clock ≤ unixSeconds s.clock
  grants : ∀ r ∈ s.grants, r.updatedAt ≤ unixSeconds s.clock
  tokens : ∀ r ∈ s.tokens, r.token.siteIDs ≠ [] ∧ r.token.role.valid = true
  disabled : ∀ userID, .user userID ∈ s.offboarded → Blocked s.auth.store.db.users userID
  /-- The cache holds no session of a disabled user. -/
  sessions : ∀ hash e, s.auth.store.items hash = some e →
    .user e.info.user.userID ∉ s.offboarded
  revoked : ∀ userID siteID, .grant userID siteID ∈ s.offboarded →
    GrantRevoked (userID, siteID) s.grants

theorem inv_of_starts {s : State} (h : Starts s) : Inv s where
  auth := SessionRevocation.inv_of_starts h.auth
  clock := h.clock
  grants := h.grants
  tokens := h.tokens
  disabled := by simp [h.offboarded]
  sessions := by simp [h.offboarded]
  revoked := by simp [h.offboarded]

variable {cfg : Config} {s : State}

/-- A session that the store accepts is of a user who has not been disabled. -/
theorem lookupSession_user (hs : Inv s) {hash : Hash} {now : ℕ} {info : SessionInfo}
    (h : lookupSession s.auth.store.db hash now = .ok info) :
    .user info.user.userID ∉ s.offboarded := by
  obtain ⟨r, v, -, -, hv, hinfo, -, henabled, -⟩ := lookupSession_ok h
  intro hoff
  rw [← hinfo, (selectUser_mem hv).2] at hoff
  have hdisabled := hs.disabled _ hoff v hv
  simp [henabled] at hdisabled

theorem sessionUser_user (hs : Inv s) {hash : Hash} {now : ℕ} {u : User}
    (h : sessionUser s hash now = some u) : .user u.userID ∉ s.offboarded := by
  cases hok : (s.auth.store.lookup hash (unixSeconds now)).2 with
  | error e => simp [sessionUser, hok] at h
  | ok info =>
    obtain rfl : { info.user with sites := none } = u := by simpa [sessionUser, hok] using h
    rcases lookup_answer hok with ⟨e, hitem, rfl⟩ | hlook
    · exact hs.sessions hash e hitem
    · exact lookupSession_user hs hlook

/-- The row that a login goes by is the one that the session's user is loaded from. -/
theorem getUserByEmail_select {users : List UserRow} (hkeys : UserKeys users) {siteID : ℕ}
    {email : String} {r : UserRow} (h : getUserByEmail users siteID email = some r) :
    selectUser users r.user.userID = some r := by
  have hmem := List.mem_of_find?_eq_some h
  have hkey : r.key = (siteID, email) := by
    simpa [UserRow.key, Prod.ext_iff] using List.find?_some h
  rw [← h]
  apply List.find?_congr
  intro other hother
  have hown : other.user.userID = r.user.userID ↔ other.key = (siteID, email) :=
    hkey ▸ hkeys r hmem other hother
  rw [Bool.eq_iff_iff, decide_eq_true_eq, hown]
  simp [UserRow.key]

private theorem authenticate_some {users : List UserRow} (hkeys : UserKeys users)
    {email password : String} {lockedOut : Bool} {u : User}
    (h : authenticate cfg users email password lockedOut = some u) :
    ∃ v, selectUser users u.userID = some v ∧ v.user = u ∧ v.user.disabled = false := by
  simp only [authenticate] at h
  split_ifs at h with hempty
  cases hr : getUserByEmail users cfg.defaultSiteID
      (UsersHandlers.normalizeEmail cfg.mint.unicode email) with
  | none => simp [hr] at h
  | some r =>
    simp only [hr] at h
    split_ifs at h with hdisabled hpassword
    obtain rfl := Option.some.inj h
    exact ⟨r, getUserByEmail_select hkeys hr, rfl, by simpa using hdisabled⟩

theorem after_clock (a : SessionRevocation.Action) :
    (SessionRevocation.after s.auth a).clock = a.now := by
  cases a <;> rfl

/-- An action of the auth store that leaves the users, and caches no session of a disabled
user, keeps the invariant. -/
theorem inv_authAction (hs : Inv s) {now : ℕ} (hnow : s.clock ≤ now)
    {a : SessionRevocation.Action} (hat : a.now = unixSeconds now)
    (hen : SessionRevocation.Enabled s.auth a)
    (husers : (SessionRevocation.after s.auth a).store.db.users = s.auth.store.db.users)
    (hitems : ∀ hash e, (SessionRevocation.after s.auth a).store.items hash = some e →
      s.auth.store.items hash = some e ∨ .user e.info.user.userID ∉ s.offboarded) :
    Inv { s with auth := SessionRevocation.after s.auth a, clock := now } where
  auth := by
    apply SessionRevocation.inv_step hs.auth (a := a)
    exact if_pos ⟨hat ▸ hs.clock.trans (unixSeconds_mono hnow), hen⟩
  clock := by rw [after_clock, hat]
  grants := fun r hr => (hs.grants r hr).trans (unixSeconds_mono hnow)
  tokens := hs.tokens
  disabled := fun userID hoff => husers ▸ hs.disabled userID hoff
  sessions := fun hash e he => (hitems hash e he).elim (hs.sessions hash e) id
  revoked := hs.revoked

theorem inv_afterVisit (hs : Inv s) (hash : Hash) {now : ℕ} (hnow : s.clock ≤ now) :
    Inv (afterVisit s hash now) := by
  apply inv_authAction hs (a := .lookup hash (unixSeconds now)) hnow rfl trivial
  · exact congrArg Tables.users (lookup_db s.auth.store hash (unixSeconds now))
  · intro other e he
    exact (lookup_entry he).imp_right (lookupSession_user hs)

/-- The clock alone. -/
theorem inv_later (hs : Inv s) {now : ℕ} (hnow : s.clock ≤ now) : Inv { s with clock := now } where
  auth := hs.auth
  clock := hs.clock.trans (unixSeconds_mono hnow)
  grants := fun r hr => (hs.grants r hr).trans (unixSeconds_mono hnow)
  tokens := hs.tokens
  disabled := hs.disabled
  sessions := hs.sessions
  revoked := hs.revoked

private theorem inv_login (hs : Inv s) {email password : String} {lockedOut : Bool} {hash : Hash}
    {now : ℕ} (hnow : s.clock ≤ now)
    (hnew : selectSession s.auth.store.db.sessions hash = none) :
    Inv (after cfg s (.login email password lockedOut hash now)) := by
  cases hauth : authenticate cfg s.auth.store.db.users email password lockedOut with
  | none =>
    simp only [after, hauth]
    exact inv_later hs hnow
  | some u =>
    obtain ⟨v, hv, rfl, henabled⟩ := authenticate_some hs.auth.users hauth
    set sess := newSession cfg v.user hash (unixSeconds now) with hsess
    have hidHash : selectSession s.auth.store.db.sessions sess.idHash = none := hnew
    have husers := (SessionRevocation.login_effect hs.auth hidHash
      (hs.clock.trans (unixSeconds_mono hnow))).2.1
    simp only [after, hauth, ← hsess]
    apply inv_authAction hs (a := .login sess (unixSeconds now)) hnow rfl hidHash husers
    intro other e he
    refine (create_entry he).imp_right ?_
    rintro ⟨v', hv', huser⟩ hoff
    obtain rfl : v = v' := Option.some.inj (hv.symm.trans hv')
    rw [huser] at hoff
    have hdisabled := hs.disabled _ hoff v hv
    simp [henabled] at hdisabled

/-- A cascade leaves only entries of other users. -/
theorem disable_entry (hs : Inv s) {userID : UserID} {now : ℕ} {users : List UserRow}
    (hok : (Operation.change .disableUser).mutate userID now s.auth.store.db.users = .ok users)
    {hash : Hash} {e : CachedSession}
    (he : ((Operation.change .disableUser).run s.auth.store userID now).1.items hash = some e) :
    s.auth.store.items hash = some e ∧ e.info.user.userID ≠ userID := by
  rw [run_of_ok hok] at he
  by_cases hmem : hash ∈ s.auth.store.usersIndex userID
  · simp [CachedStore.revokeAll, CachedStore.forgetUser, hmem] at he
  · have hitem : s.auth.store.items hash = some e := by
      simpa [CachedStore.revokeAll, CachedStore.forgetUser, hmem] using he
    refine ⟨hitem, ?_⟩
    rintro rfl
    exact hmem (hs.auth.indexed hash e hitem).1

theorem inv_afterDisable (hs : Inv s) (userID : UserID) {now : ℕ} (hnow : s.clock ≤ now) :
    Inv (afterDisable s userID now) := by
  have hsec := hs.clock.trans (unixSeconds_mono hnow)
  by_cases hdis : Disables s userID now
  · obtain ⟨users, hok⟩ := id hdis
    have hok' : (Operation.change .disableUser).mutate userID (unixSeconds now)
        s.auth.store.db.users = .ok users := hok
    have husers := SessionRevocation.operate_users hs.auth hsec hok'
    obtain ⟨-, hmutates, v, v', hv, hv', hdisabled⟩ :=
      change_ok hs.auth.users hs.auth.userVersions hsec hok'
    refine ⟨?_, le_of_eq (after_clock _), fun r hr => (hs.grants r hr).trans (unixSeconds_mono hnow),
      hs.tokens, ?_, ?_, ?_⟩
    · apply SessionRevocation.inv_step hs.auth
        (a := .operate userID (.change .disableUser) (unixSeconds now))
      exact if_pos ⟨hsec, trivial⟩
    · intro other hoff w hw
      have hw' : selectUser users other = some w := husers ▸ hw
      by_cases hne : userID = other
      · obtain rfl : v' = w := Option.some.inj (hv'.symm.trans (hne ▸ hw'))
        simp [hdisabled]
      · have hold : .user other ∈ s.offboarded := by
          simpa [afterDisable, hdis, Ne.symm hne] using hoff
        exact hs.disabled other hold w (hmutates.others other hne ▸ hw')
    · intro hash e he hoff
      obtain ⟨hitem, hne⟩ := disable_entry hs hok' he
      have hold : .user e.info.user.userID ∈ s.offboarded := by
        simpa [afterDisable, hdis, hne] using hoff
      exact hs.sessions hash e hitem hold
    · intro other siteID hoff
      exact hs.revoked other siteID (by simpa [afterDisable, hdis] using hoff)
  · have hfails : ∀ users, (Operation.change .disableUser).mutate userID (unixSeconds now)
        s.auth.store.db.users ≠ .ok users := fun users hok => hdis ⟨users, hok⟩
    have hstore : (SessionRevocation.after s.auth
        (.operate userID (.change .disableUser) (unixSeconds now))).store = s.auth.store := by
      cases hmutate : (Operation.change .disableUser).mutate userID (unixSeconds now)
          s.auth.store.db.users with
      | ok users => exact absurd hmutate (hfails users)
      | error e => exact congrArg Prod.fst (run_of_error hmutate)
    have hinv : Inv { s with
        auth := SessionRevocation.after s.auth
          (.operate userID (.change .disableUser) (unixSeconds now))
        clock := now } := by
      apply inv_authAction hs (a := .operate userID (.change .disableUser) (unixSeconds now)) hnow rfl
        trivial
      · rw [hstore]
      · intro hash e he
        rw [hstore] at he
        exact Or.inl he
    simpa only [afterDisable, hdis, if_false] using hinv

theorem inv_afterRevoke (hs : Inv s) (userID : UserID) (siteID : ℕ) {now : ℕ}
    (hnow : s.clock ≤ now) (up : Bool) : Inv (afterRevoke s userID siteID now up) := by
  have hsec := unixSeconds_mono hnow
  have hlater := inv_later hs hnow
  by_cases hfound : up = true ∧ ∃ rows,
      CacheRevocation.revokeGrant s.grants userID siteID (unixSeconds now) = some rows
  · obtain ⟨rfl, rows, hrevoke⟩ := hfound
    have hgrants : (afterRevoke s userID siteID now true).grants = rows := by
      simp [afterRevoke, hrevoke]
    refine ⟨hlater.auth, hlater.clock, ?_, hlater.tokens, ?_, ?_, ?_⟩
    · rw [hgrants]
      exact @revokeGrant_good _ _ (userID, siteID) _ _ hs.grants hsec hrevoke
    · intro other hoff
      apply hs.disabled other
      by_cases h : Revokes s userID siteID now true <;>
        simpa [afterRevoke, h] using hoff
    · intro hash e he hoff
      apply hs.sessions hash e he
      by_cases h : Revokes s userID siteID now true <;>
        simpa [afterRevoke, h] using hoff
    · intro other site hoff
      rw [hgrants]
      by_cases hsame : (other, site) = (userID, siteID)
      · rw [hsame]
        exact revokeGrant_revokes hs.grants hsec hrevoke
      · have hold : .grant other site ∈ s.offboarded := by
          have hne : ¬ (other = userID ∧ site = siteID) := by simpa using hsame
          by_cases h : Revokes s userID siteID now true
          · simpa [afterRevoke, h, hne] using hoff
          · simpa [afterRevoke, h] using hoff
        exact @revokeGrant_keeps _ _ (userID, siteID) _ _ (hs.revoked other site hold) hrevoke
  · have hnot : ¬ Revokes s userID siteID now up := fun h => hfound ⟨h.1, h.2.2⟩
    have hgrants : (if up then (CacheRevocation.revokeGrant s.grants userID siteID
        (unixSeconds now)).getD s.grants else s.grants) = s.grants := by
      cases up with
      | false => rfl
      | true =>
        cases hrevoke : CacheRevocation.revokeGrant s.grants userID siteID (unixSeconds now) with
        | none => rfl
        | some rows => exact absurd ⟨rfl, rows, hrevoke⟩ hfound
    simpa only [afterRevoke, hgrants, hnot, if_false] using hlater

/-- Who mints, with the grants that the guard has loaded, if it has. -/
theorem minter_some {hash : Hash} {now : ℕ} {up : Bool} {u : User}
    (h : minter cfg s hash now up = some u) :
    ∃ u₀, sessionUser s hash now = some u₀ ∧ u.userID = u₀.userID ∧
      (u.sites = none ∨ ∃ grants, loadUserSites s.grants u.userID = some grants ∧
        u.sites = some grants) := by
  cases huser : sessionUser s hash now with
  | none => simp [minter, huser, Route.serve] at h
  | some u₀ =>
    refine ⟨u₀, rfl, ?_⟩
    have hsites : u₀.sites = none := by
      simp only [sessionUser] at huser
      split at huser
      · exact (Option.some.inj huser).symm ▸ rfl
      · cases huser
    simp only [minter, huser, Route.serve] at h
    by_cases hrole : (mintRoute (userSites cfg s.grants up)).allowed.any
        (fun allowed => !allowed.contains u₀.role) = true
    · simp only [hrole, if_true, reduceCtorEq] at h
    · rw [if_neg hrole] at h
      simp only [mintRoute, SiteGuard.serve, hydrateActorGrants, userSites, hsites] at h
      by_cases hid : u₀.userID = uuidNil
      · obtain rfl : u₀ = u := by simpa [hid] using h
        exact ⟨rfl, Or.inl hsites⟩
      · cases hflag : cfg.perSiteAdmin with
        | false =>
          obtain rfl : u₀ = u := by simpa [hid, hflag] using h
          exact ⟨rfl, Or.inl hsites⟩
        | true =>
          cases hload : (if up then loadUserSites s.grants u₀.userID else none) with
          | none =>
            obtain rfl : u₀ = u := by simpa [hid, hflag, hload] using h
            exact ⟨rfl, Or.inl hsites⟩
          | some grants =>
            obtain rfl : { u₀ with sites := some grants } = u := by
              simpa [hid, hflag, hload] using h
            refine ⟨rfl, Or.inr ⟨grants, ?_, rfl⟩⟩
            cases up with
            | false => simp at hload
            | true => simpa using hload

private theorem inv_mint (hs : Inv s) {hash : Hash} {body : Option CreateRequest} {env : MintEnv}
    {up : Bool} (hnow : s.clock ≤ env.now) : Inv (after cfg s (.mint hash body env up)) := by
  have hvisited := inv_afterVisit hs hash hnow
  cases hminter : minter cfg s hash env.now up with
  | none =>
    simp only [after, hminter]
    exact hvisited
  | some u =>
    simp only [after, hminter]
    refine ⟨hvisited.auth, hvisited.clock, hvisited.grants, ?_, hvisited.disabled,
      hvisited.sessions, hvisited.revoked⟩
    rcases mintToken_cases cfg.mint env s.tokens u body with ⟨hsame, -⟩ |
      ⟨p, m, hcheck, -, -, hsites, hrole, -, hinsert⟩
    · rw [hsame]
      exact hs.tokens
    · intro r hr
      rw [hinsert] at hr
      rcases ReplacingTable.mem_insert hr with rfl | hold
      · obtain ⟨-, -, hroles, -, hne, -⟩ := checkMint_ok hcheck
        refine ⟨hsites ▸ hne, ?_⟩
        rcases hroles with h | h <;> rw [hrole, h] <;> rfl
      · exact hs.tokens r hold

theorem inv_after (hs : Inv s) {a : Action} (hnow : s.clock ≤ a.now) (hen : Enabled cfg s a) :
    Inv (after cfg s a) := by
  cases a with
  | login email password lockedOut hash now => exact inv_login hs hnow hen
  | visit hash now => exact inv_afterVisit hs hash hnow
  | mint hash body env up => exact inv_mint hs hnow
  | authorize hash p env now up =>
    have hvisited := inv_afterVisit hs hash hnow
    simp only [after, afterAuthorize]
    split
    · exact ⟨hvisited.auth, hvisited.clock, hvisited.grants, hvisited.tokens, hvisited.disabled,
        hvisited.sessions, hvisited.revoked⟩
    · exact hvisited
  | consent hash p decision env now up =>
    have hvisited := inv_afterVisit hs hash hnow
    simp only [after, afterConsent]
    split
    · split_ifs
      · exact ⟨hvisited.auth, hvisited.clock, hvisited.grants, hvisited.tokens,
          hvisited.disabled, hvisited.sessions, hvisited.revoked⟩
      · exact hvisited
    · exact hvisited
  | token req env now =>
    have hlater := inv_later hs hnow
    simp only [after, afterToken]
    split <;> exact ⟨hlater.auth, hlater.clock, hlater.grants, hlater.tokens, hlater.disabled,
      hlater.sessions, hlater.revoked⟩
  | disableUser userID now => exact inv_afterDisable hs userID hnow
  | revokeGrant userID siteID now up => exact inv_afterRevoke hs userID siteID hnow up

theorem step_eq {t : State} {a : Action} (h : step cfg s a = some t) :
    s.clock ≤ a.now ∧ Enabled cfg s a ∧ after cfg s a = t := by
  simp only [step] at h
  split_ifs at h with hen
  exact ⟨hen.1, hen.2, Option.some.inj h⟩

theorem inv_step {t : State} {a : Action} (hs : Inv s) (h : step cfg s a = some t) : Inv t := by
  obtain ⟨hnow, hen, rfl⟩ := step_eq h
  exact inv_after hs hnow hen

end Statnive.Offboarding
