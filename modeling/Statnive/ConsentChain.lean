import Statnive.CacheRevocation
import Statnive.DelegatedAccess
import Statnive.LabelledRuns
import Statnive.OAuthServer
import Statnive.SingleUse

/-!
# From a consent to a request of the resource server

A consent is validated, looks up the user's sites and saves a code, each with a query of its
own, and the token endpoint takes over from there. The authorization server has a cache of its
own over the grants, which no write of grants drops. A consent that is alone is the handler's
(`consent_alone`).

A trail is kept of the consents, the exchanges of codes, what each refresh token was made for,
and the access tokens.
-/

namespace Statnive.ConsentChain

open AuthTypes CacheRevocation OAuthServer LabelledRuns
open TokenExchange (CodeExchange Ledger RefreshExchange Source Stage advance)

/-- What a consent has met: who is logged in and posts what, the clients that are registered
when the request is validated, the grants that the user holds when the sites are looked up, the
sites that pass, and the code. -/
structure Consent where
  user : User
  params : Params
  posted : List String
  clients : List Client
  held : Grants := []
  siteIDs : List ℕ := []
  code : String := ""

/-- What a consent does next. -/
inductive ConsentStage where
  | validate (user : Option User) (p : Params) (decision : Decision)
  | loadSites (e : Consent) (req : AuthorizationRequest)
  | saveCode (e : Consent) (req : AuthorizationRequest)
  | replied (reply : Reply)

/-- Refresh tokens stand under their hashes. -/
structure Trail where
  consents : List Consent := []
  exchanges : List CodeExchange := []
  links : List (Source × String) := []
  signed : List (Source × Claims) := []

structure Config where
  digests : Digests
  oauth : OAuthServer.Config
  sitesTTL : ℕ

structure State extends TokenExchange.State where
  grants : List GrantRow := []
  consentItems : UserID → Option (Grants × ℕ) := fun _ => none
  consenting : List ConsentStage := []
  trail : Trail := {}

/-- `now` is the clock of the cache, in nanoseconds, and `up` says whether the look-up of grants
succeeds. -/
inductive Action where
  | consent (user : Option User) (p : Params) (decision : Decision)
  | proceedConsent (i : ℕ) (env : Env) (now : ℕ) (up : Bool)
  | authorize (user : Option User) (p : Params) (env : Env) (now : ℕ) (up : Bool)
  | writeGrants (rows : List GrantRow)
  | register (clients : List Client)
  | request (req : TokenRequest)
  | proceed (i : ℕ) (env : Env)
  | remove (hashes : List String)
  | restart (version : ℕ)

variable (cfg : Config)

def loadSites (s : State) (userID : UserID) (now : ℕ) (up : Bool) :
    (UserID → Option (Grants × ℕ)) × Option Grants :=
  (sitesCache cfg.sitesTTL).read s.grants s.consentItems userID now up

def held (rows : List GrantRow) (userID : UserID) : Grants := (loadUserSites rows userID).getD []

def validated (env : Env) (s : Store) (user : Option User) (p : Params) (decision : Decision) :
    ConsentStage :=
  match user with
  | none => .replied (.http 401 "unauthorized")
  | some u => match validateAuthParams cfg.oauth env s p with
    | .error reply => .replied reply
    | .ok req =>
      if !decision.approve then
        .replied (.redirectErr req.redirectURI req.state "access_denied" "user denied the request")
      else .loadSites { user := u, params := p, posted := decision.siteIDs, clients := s.clients } req

/-- The sites that are posted and that the look-up grants go into the code. -/
def clamped (rows : List GrantRow) (e : Consent) (req : AuthorizationRequest) :
    Option Grants → ConsentStage
  | none => .replied
      (.redirectErr req.redirectURI req.state "server_error" "could not load your sites")
  | some grants =>
    let siteIDs := clampConsent cfg.oauth grants e.posted
    if siteIDs = [] then
      .replied (.redirectErr req.redirectURI req.state "access_denied"
        "no authorized sites selected")
    else .saveCode { e with held := held rows e.user.userID, siteIDs := siteIDs } req

def codeRow (env : Env) (e : Consent) (req : AuthorizationRequest) : CodeRow where
  hash := cfg.digests.hashToken env.raw
  grant := ⟨req.client.id, e.user.userID, req.scope, req.audience, e.siteIDs⟩
  redirectURI := req.redirectURI
  codeChallenge := req.codeChallenge
  expiresAt := env.now + cfg.oauth.codeTTL

def savedReply (env : Env) (req : AuthorizationRequest) : Reply :=
  if env.fate .saveCode = .ok then .redirectCode req.redirectURI req.state env.raw
  else .redirectErr req.redirectURI req.state "server_error" "could not issue code"

def State.setConsent (s : State) (i : ℕ) (stage : ConsentStage) : State :=
  { s with consenting := s.consenting.set i stage }

def proceedConsent (s : State) (i : ℕ) (env : Env) (now : ℕ) (up : Bool) :
    ConsentStage → Option State
  | .validate user p decision => some (s.setConsent i (validated cfg env s.store user p decision))
  | .loadSites e req =>
    let read := loadSites cfg s e.user.userID now up
    some ({ s with consentItems := read.1 }.setConsent i (clamped cfg s.grants e req read.2))
  | .saveCode e req =>
    (TokenExchange.step cfg.digests cfg.oauth s.toState
      (.saveCode (codeRow cfg env e req) (env.fate .saveCode))).map fun t =>
        { s with
          toState := t
          consenting := s.consenting.set i (.replied (savedReply env req))
          trail.consents := { e with code := env.raw } :: s.trail.consents }
  | .replied _ => none

/-- What a query of the token endpoint adds to the trail. -/
def Trail.after (tr : Trail) (env : Env) : Stage → Trail
  | .burnCode x c =>
    if env.fate .burnCode = .ok && bindsCode cfg.digests c x.client x.redirectURI x.verifier then
      { tr with exchanges := x :: tr.exchanges }
    else tr
  | .saveRefresh source _ =>
    { tr with links := (source, cfg.digests.hashToken env.raw) :: tr.links }
  | .saveSuccessor x _ =>
    { tr with links :=
        (.refresh (cfg.digests.hashToken x.old), cfg.digests.hashToken x.raw) :: tr.links }
  | .sign source g _ =>
    if env.signs then
      { tr with signed := (source, signAccessToken cfg.oauth env.now g) :: tr.signed }
    else tr
  | _ => tr

def exchange (s : State) (a : TokenExchange.Action) : Option State :=
  (TokenExchange.step cfg.digests cfg.oauth s.toState a).map fun t => { s with toState := t }

/-- A restart ends the consents and empties the cache. -/
def step (s : State) : Action → Option State
  | .consent user p decision =>
    some { s with consenting := s.consenting ++ [.validate user p decision] }
  | .proceedConsent i env now up =>
    (s.consenting[i]?).bind (proceedConsent cfg s i env now up)
  | .authorize user p env now up =>
    match validateAuthParams cfg.oauth env s.store p, user with
    | .ok _, some u => some { s with consentItems := (loadSites cfg s u.userID now up).1 }
    | _, _ => some s
  | .writeGrants rows => some { s with grants := rows }
  | .register clients => exchange cfg s (.register clients)
  | .request req => exchange cfg s (.request req)
  | .proceed i env => (s.calls[i]?).bind fun stage =>
    exchange cfg { s with trail := s.trail.after cfg env stage } (.proceed i env)
  | .remove hashes => exchange cfg s (.remove hashes)
  | .restart version =>
    exchange cfg { s with consentItems := fun _ => none, consenting := [] } (.restart version)

/-- A deployment without codes and tokens. -/
def start (clients : List Client) (rows : List GrantRow) : State :=
  { store := { clients := clients }, grants := rows }

/-- The site was ticked, and the user held a grant on it that dominates the role. -/
def Consent.Covers (e : Consent) (siteID : ℕ) (role : Role) : Prop :=
  siteID ∈ parseSiteIDs e.posted ∧ ∃ got ∈ e.held.get siteID, roleRank got ≤ roleRank role

/-- The source of a token goes back to the code, through refresh tokens. -/
inductive Descends (d : Digests) (tr : Trail) (code : String) : Source → Prop
  | code : Descends d tr code (.code (d.hashToken code))
  | refresh {source : Source} {hash : String} (parent : Descends d tr code source)
      (link : (source, hash) ∈ tr.links) : Descends d tr code (.refresh hash)

/-- The code of the consent was exchanged by its client, with its redirect URI, which is
registered for the client, and with the verifier of its challenge. -/
structure Redeems (d : Digests) (e : Consent) (x : CodeExchange) : Prop where
  code : x.code = e.code
  client : x.client.id = e.params.clientID
  redirectURI : x.redirectURI = e.params.redirectURI
  registered : ∃ c ∈ e.clients, c.id = e.params.clientID ∧ c.revoked = false ∧
    e.params.redirectURI ∈ c.redirectURIs
  method : e.params.codeChallengeMethod = "S256"
  verifier : d.s256 x.verifier = e.params.codeChallenge

/-- Whatever the resource server authorises goes back to a consent that covers it. -/
def Traced (s : State) : Prop :=
  ∀ source claims, (source, claims) ∈ s.trail.signed → ∀ now siteID u,
    oauthPrincipal cfg.oauth claims now = some u → u.actorCanReadSite siteID = true →
    ∃ e ∈ s.trail.consents, ∃ x ∈ s.trail.exchanges, Descends cfg.digests s.trail e.code source ∧
      Redeems cfg.digests e x ∧ claims.sub = e.user.userID ∧ e.Covers siteID u.role ∧
      ∀ role, u.canAccessSite siteID role = true → e.Covers siteID role

/-- The consent that is about to look up its user's sites. -/
def lookedUp (s : State) (i : ℕ) : Option Consent :=
  (s.consenting[i]?).bind fun stage => match stage with
    | .loadSites e _ => some e
    | _ => none

/-- Where the cache answers, the user still holds the posted sites that it lets through. -/
def Current (s : State) : Action → Prop
  | .proceedConsent i _ now _ => ∀ e ∈ lookedUp s i, ∀ item ∈ s.consentItems e.user.userID,
      now < item.2 → ∀ siteID ∈ clampConsent cfg.oauth item.1 e.posted,
        siteID ∈ (held s.grants e.user.userID).map Prod.fst
  | _ => True

instance (s : State) (a : Action) : Decidable (Current cfg s a) :=
  match a with
  | .proceedConsent i _ now _ => inferInstanceAs (Decidable (∀ e ∈ lookedUp s i,
      ∀ item ∈ s.consentItems e.user.userID, now < item.2 →
        ∀ siteID ∈ clampConsent cfg.oauth item.1 e.posted,
          siteID ∈ (held s.grants e.user.userID).map Prod.fst))
  | .consent _ _ _ | .authorize _ _ _ _ _ | .writeGrants _ | .register _ | .request _
  | .proceed _ _ | .remove _ | .restart _ => .isTrue trivial

variable {cfg} {s t : State} {tr tr' : Trail} {env : Env} {i now : ℕ} {up : Bool}

/-- Queries of the consent that nothing runs between lead to the store and the reply. -/
def Replies (cfg : Config) (s : State) (i : ℕ) (env : Env) (now : ℕ) (up : Bool)
    (out : Store × Reply) : Prop :=
  ∃ n t, exec (step cfg) s (List.replicate n (.proceedConsent i env now up)) = some t ∧
    t.store = out.1 ∧ t.consenting[i]? = some (.replied out.2)

theorem Replies.next {out : Store × Reply} (h : Replies cfg t i env now up out)
    (hstep : step cfg s (.proceedConsent i env now up) = some t) :
    Replies cfg s i env now up out := by
  obtain ⟨n, u, hexec, hu⟩ := h
  exact ⟨n + 1, u, exec_cons.mpr ⟨t, hstep, hexec⟩, hu⟩

theorem replied_replies {reply : Reply} (h : s.consenting[i]? = some (.replied reply)) :
    Replies cfg s i env now up (s.store, reply) :=
  ⟨0, s, rfl, rfl, h⟩

theorem setConsent_self {stage : ConsentStage} (h : s.consenting[i]? = some stage)
    (next : ConsentStage) : (s.setConsent i next).consenting[i]? = some next := by
  have hi := (List.getElem?_eq_some_iff.mp h).1
  simp [State.setConsent, hi]

private theorem saveCode_replies {e : Consent} {req : AuthorizationRequest}
    (hstage : s.consenting[i]? = some (.saveCode e req))
    (hnew : cfg.digests.hashToken env.raw ∉ s.hashes) :
    Replies cfg s i env now up (issueCode cfg.digests.hashToken cfg.oauth env s.store req
      e.user.userID e.siteIDs) := by
  have hi := (List.getElem?_eq_some_iff.mp hstage).1
  have hopen : ¬ ((codeRow cfg env e req).hash ∈ s.hashes ∨
      (codeRow cfg env e req).consumed = true) := by simp [codeRow, hnew]
  have hstep : (step cfg s (.proceedConsent i env now up)).isSome = true := by
    simp only [step, hstage, Option.bind_some, proceedConsent, TokenExchange.step, hopen,
      Bool.or_eq_true, decide_eq_true_eq, if_false, Option.map_some, Option.isSome_some]
  obtain ⟨t, ht⟩ := Option.isSome_iff_exists.mp hstep
  refine ⟨1, t, exec_cons.mpr ⟨t, ht, rfl⟩, ?_⟩
  simp only [step, hstage, Option.bind_some, proceedConsent, TokenExchange.step, hopen,
    Bool.or_eq_true, decide_eq_true_eq, if_false, Option.map_some, Option.some.injEq] at ht
  subst ht
  refine ⟨rfl, ?_⟩
  simp [hi, savedReply, issueCode]

/-- The handler from the answer of the look-up on. -/
def afterSites (cfg : Config) (env : Env) (store : Store) (e : Consent)
    (req : AuthorizationRequest) : Option Grants → Store × Reply
  | none => (store,
      .redirectErr req.redirectURI req.state "server_error" "could not load your sites")
  | some grants =>
    if clampConsent cfg.oauth grants e.posted = [] then
      (store, .redirectErr req.redirectURI req.state "access_denied"
        "no authorized sites selected")
    else issueCode cfg.digests.hashToken cfg.oauth env store req e.user.userID
      (clampConsent cfg.oauth grants e.posted)

private theorem clamped_replies {e : Consent} {req : AuthorizationRequest} {rows : List GrantRow}
    {grants : Option Grants} (hstage : s.consenting[i]? = some (clamped cfg rows e req grants))
    (hnew : cfg.digests.hashToken env.raw ∉ s.hashes) :
    Replies cfg s i env now up (afterSites cfg env s.store e req grants) := by
  cases grants with
  | none => exact replied_replies hstage
  | some grants =>
    simp only [clamped] at hstage
    simp only [afterSites]
    split
    · next hnone =>
      rw [if_pos hnone] at hstage
      exact replied_replies hstage
    · next hsome =>
      rw [if_neg hsome] at hstage
      exact saveCode_replies hstage hnew

/-- A consent that nothing comes between does what the handler does. -/
theorem consent_alone {user : Option User} {p : Params} {decision : Decision}
    (hstage : s.consenting[i]? = some (.validate user p decision))
    (hnew : cfg.digests.hashToken env.raw ∉ s.hashes) :
    Replies cfg s i env now up (consent cfg.digests.hashToken cfg.oauth env s.store user
      (user.bind fun u => (loadSites cfg s u.userID now up).2) p decision) := by
  let next := validated cfg env s.store user p decision
  have hvalidated := setConsent_self hstage next
  have hstep : step cfg s (.proceedConsent i env now up) = some (s.setConsent i next) := by
    simp only [step, hstage, Option.bind_some, proceedConsent]
    rfl
  have hreplied {reply : Reply} (hnext : next = .replied reply) :
      Replies cfg s i env now up (s.store, reply) := by
    rw [hnext] at hvalidated hstep
    have hdone : Replies cfg (s.setConsent i (.replied reply)) i env now up (s.store, reply) :=
      replied_replies hvalidated
    exact hdone.next hstep
  cases user with
  | none => exact hreplied rfl
  | some u =>
    cases hreq : validateAuthParams cfg.oauth env s.store p with
    | error reply =>
      simp only [consent, hreq]
      exact hreplied (by simp only [next, validated, hreq])
    | ok req =>
      by_cases hdenied : (!decision.approve) = true
      · simp only [consent, hreq, hdenied, if_true]
        exact hreplied (by simp only [next, validated, hreq, hdenied, if_true])
      · let e : Consent :=
          { user := u, params := p, posted := decision.siteIDs, clients := s.store.clients }
        have hnext : next = .loadSites e req := by
          simp only [next, validated, hreq, hdenied, if_false, Bool.false_eq_true]
          rfl
        rw [hnext] at hvalidated hstep
        let read := loadSites cfg (s.setConsent i (.loadSites e req)) u.userID now up
        let loaded : State := { s.setConsent i (.loadSites e req) with consentItems := read.1 }
        have hload : step cfg (s.setConsent i (.loadSites e req)) (.proceedConsent i env now up) =
            some (loaded.setConsent i (clamped cfg s.grants e req read.2)) := by
          simp only [step, hvalidated, Option.bind_some, proceedConsent]
          rfl
        have hloaded : loaded.consenting[i]? = some (.loadSites e req) := hvalidated
        have hclamped := setConsent_self hloaded (clamped cfg s.grants e req read.2)
        have hout : consent cfg.digests.hashToken cfg.oauth env s.store (some u) read.2 p decision =
            afterSites cfg env s.store e req read.2 := by
          simp only [consent, hreq, hdenied, if_false, Bool.false_eq_true]
          rfl
        have hdone := ((clamped_replies hclamped hnew).next hload).next hstep
        exact hout ▸ hdone

/-- The request is the one whose parameters are posted. -/
structure Consent.Asks (e : Consent) (req : AuthorizationRequest) : Prop where
  client : req.client.id = e.params.clientID
  redirectURI : req.redirectURI = e.params.redirectURI
  registered : ∃ c ∈ e.clients, c.id = e.params.clientID ∧ c.revoked = false ∧
    e.params.redirectURI ∈ c.redirectURIs
  method : e.params.codeChallengeMethod = "S256"
  challenge : req.codeChallenge = e.params.codeChallenge

private theorem validateAuthParams_ok {cfg : OAuthServer.Config} {s : Store} {p : Params}
    {req : AuthorizationRequest} (h : validateAuthParams cfg env s p = .ok req) :
    req.client.id = p.clientID ∧ req.redirectURI = p.redirectURI ∧
      (∃ c ∈ s.clients, c.id = p.clientID ∧ c.revoked = false ∧
        p.redirectURI ∈ c.redirectURIs) ∧
      p.codeChallengeMethod = "S256" ∧ req.codeChallenge = p.codeChallenge := by
  unfold validateAuthParams at h
  split at h
  · simp at h
  · next client hclient =>
    cases hscope : resolveScope cfg p.scope with
    | none =>
      simp only [hscope] at h
      split_ifs at h
    | some scope =>
      simp only [hscope] at h
      split_ifs at h with hredirect htype hpkce haudience
      obtain rfl := Except.ok.inj h
      simp only [getClient] at hclient
      split_ifs at hclient with hfate
      have hfound := List.find?_some hclient
      simp only [Bool.and_eq_true, decide_eq_true_eq, Bool.not_eq_true'] at hfound
      simp only [Bool.or_eq_true, Bool.not_eq_true', not_or, Bool.not_eq_false,
        exactRedirectMatch, List.contains_iff_mem] at hredirect
      simp only [Bool.or_eq_true, Bool.not_eq_true', not_or, Bool.not_eq_false,
        validChallengeMethod, decide_eq_true_eq] at hpkce
      exact ⟨hfound.1, rfl, ⟨client, List.mem_of_find?_eq_some hclient, hfound.1, hfound.2,
        hredirect.2⟩, hpkce.1, rfl⟩

/-- The grant is of the consent's user, and no wider than what the user ticked and held. -/
def Consent.Gives (e : Consent) (g : Grant) : Prop :=
  g.userID = e.user.userID ∧ ∀ siteID ∈ g.siteIDs, e.Covers siteID .api

/-- A code of the consent. -/
structure Carries (d : Digests) (e : Consent) (row : CodeRow) : Prop where
  hash : row.hash = d.hashToken e.code
  client : row.grant.clientID = e.params.clientID
  redirectURI : row.redirectURI = e.params.redirectURI
  challenge : row.codeChallenge = e.params.codeChallenge
  registered : ∃ c ∈ e.clients, c.id = e.params.clientID ∧ c.revoked = false ∧
    e.params.redirectURI ∈ c.redirectURIs
  method : e.params.codeChallengeMethod = "S256"
  gives : e.Gives row.grant

private theorem held_dominates {rows : List GrantRow} {userID : UserID} {siteID : ℕ}
    (h : siteID ∈ (held rows userID).map Prod.fst) :
    ∃ got ∈ (held rows userID).get siteID, roleRank got ≤ roleRank .api := by
  obtain ⟨kv, hkv, rfl⟩ := List.mem_map.mp h
  cases hget : (held rows userID).find? (fun kv' => kv'.1 = kv.1) with
  | none => simpa using List.find?_eq_none.mp hget kv hkv
  | some found =>
    refine ⟨found.2, by simp [Grants.get, hget], ?_⟩
    have hmem := List.mem_of_find?_eq_some hget
    simp only [held, loadUserSites] at hmem
    split_ifs at hmem with hnil
    · simp at hmem
    · obtain ⟨r, hr, rfl⟩ := List.mem_map.mp hmem
      have hvalid : r.role.valid = true := by
        have := (List.mem_filter.mp hr).2
        simp only [Bool.and_eq_true] at this
        exact this.2
      cases hrole : r.role <;> simp [hrole, roleRank, Role.valid] at hvalid ⊢

/-- What the look-up answers is in the table, or in an entry of the cache that is still fresh. -/
theorem loadSites_some {userID : UserID} {now : ℕ} {up : Bool} {grants : Grants}
    (h : (loadSites cfg s userID now up).2 = some grants) :
    (∃ item ∈ s.consentItems userID, now < item.2 ∧ item.1 = grants) ∨
      held s.grants userID = grants := by
  have hfetch (items) (h : ((sitesCache cfg.sitesTTL).fetch s.grants items userID now up).2 =
      some grants) : held s.grants userID = grants := by
    cases up with
    | false => simp [LookAsideCache.Design.fetch] at h
    | true =>
      cases hload : loadUserSites s.grants userID with
      | none => simp [LookAsideCache.Design.fetch, sitesCache, hload] at h
      | some loaded =>
        simp only [LookAsideCache.Design.fetch, sitesCache, hload, if_true] at h
        simpa [held, hload] using h
  simp only [loadSites, LookAsideCache.Design.read] at h
  split at h
  · exact .inr (hfetch _ h)
  · next v expiresAt hitem =>
    by_cases hfresh : now < expiresAt
    · simp only [hfresh, sitesCache, if_true, Option.some.injEq] at h
      exact .inl ⟨(v, expiresAt), hitem, hfresh, h⟩
    · rw [if_neg hfresh] at h
      exact .inr (hfetch _ h)

/-- A token of the source goes back to a consent that gives the grant. -/
def Sourced (d : Digests) (tr : Trail) (source : Source) (g : Grant) : Prop :=
  ∃ e ∈ tr.consents, ∃ x ∈ tr.exchanges, Descends d tr e.code source ∧ Redeems d e x ∧ e.Gives g

/-- What the tables hold goes back to consents. -/
structure Books (d : Digests) (tr : Trail) (store : Store) : Prop where
  codes : ∀ row ∈ store.codes, ∃ e ∈ tr.consents, Carries d e row
  refresh : ∀ row ∈ store.refresh, Sourced d tr (.refresh row.hash) row.grant

/-- So does what a request at the token endpoint has read. -/
def Backed (d : Digests) (tr : Trail) : Stage → Prop
  | .burnCode x c => ∃ e ∈ tr.consents, Carries d e c ∧ e.code = x.code
  | .saveRefresh source g | .sign source g _ => Sourced d tr source g
  | .revokeMembers _ _ members => ∀ m ∈ members, Sourced d tr (.refresh m.hash) m.grant
  | .markRotated x t | .saveSuccessor x t =>
    Sourced d tr (.refresh (d.hashToken x.old)) t.grant
  | _ => True

def ConsentStage.Sound : ConsentStage → Prop
  | .loadSites e req => e.Asks req
  | .saveCode e req => e.Asks req ∧ ∀ siteID ∈ e.siteIDs, e.Covers siteID .api
  | _ => True

structure Inv (cfg : Config) (s : State) : Prop where
  books : Books cfg.digests s.trail s.store
  calls : ∀ stage ∈ s.calls, Backed cfg.digests s.trail stage
  consenting : ∀ stage ∈ s.consenting, stage.Sound
  signed : ∀ source claims, (source, claims) ∈ s.trail.signed → ∃ g issuedAt,
    claims = signAccessToken cfg.oauth issuedAt g ∧ Sourced cfg.digests s.trail source g

structure Trail.Le (tr tr' : Trail) : Prop where
  consents : tr.consents ⊆ tr'.consents
  exchanges : tr.exchanges ⊆ tr'.exchanges
  links : tr.links ⊆ tr'.links

theorem Trail.Le.refl (tr : Trail) : tr.Le tr :=
  ⟨List.Subset.refl _, List.Subset.refl _, List.Subset.refl _⟩

theorem Trail.le_after (cfg : Config) (tr : Trail) (env : Env) (stage : Stage) :
    tr.Le (tr.after cfg env stage) := by
  have hrefl := Trail.Le.refl tr
  cases stage with
  | burnCode x c =>
    simp only [Trail.after]
    split
    · exact ⟨hrefl.consents, List.subset_cons_self _ _, hrefl.links⟩
    · exact hrefl
  | saveRefresh source g => exact ⟨hrefl.consents, hrefl.exchanges, List.subset_cons_self _ _⟩
  | saveSuccessor x t => exact ⟨hrefl.consents, hrefl.exchanges, List.subset_cons_self _ _⟩
  | sign source g raw =>
    simp only [Trail.after]
    split
    · exact ⟨hrefl.consents, hrefl.exchanges, hrefl.links⟩
    · exact hrefl
  | _ => exact hrefl

variable {d : Digests}

theorem Descends.mono (hle : tr.Le tr') {code : String} {source : Source}
    (h : Descends d tr code source) : Descends d tr' code source := by
  induction h with
  | code => exact .code
  | refresh _ link ih => exact .refresh ih (hle.links link)

theorem Sourced.mono (hle : tr.Le tr') {source : Source} {g : Grant}
    (h : Sourced d tr source g) : Sourced d tr' source g := by
  obtain ⟨e, he, x, hx, hdescends, hrest⟩ := h
  exact ⟨e, hle.consents he, x, hle.exchanges hx, hdescends.mono hle, hrest⟩

theorem Books.mono (hle : tr.Le tr') {store : Store} (h : Books d tr store) :
    Books d tr' store where
  codes row hrow := by
    obtain ⟨e, he, hcarries⟩ := h.codes row hrow
    exact ⟨e, hle.consents he, hcarries⟩
  refresh row hrow := (h.refresh row hrow).mono hle

theorem Backed.mono (hle : tr.Le tr') {stage : Stage} (h : Backed d tr stage) :
    Backed d tr' stage := by
  cases stage with
  | burnCode x c =>
    obtain ⟨e, he, hcarries⟩ := h
    exact ⟨e, hle.consents he, hcarries⟩
  | saveRefresh source g => exact Sourced.mono hle h
  | sign source g raw => exact Sourced.mono hle h
  | revokeMembers hash familyID members => exact fun m hm => (h m hm).mono hle
  | markRotated x t => exact Sourced.mono hle h
  | saveSuccessor x t => exact Sourced.mono hle h
  | _ => trivial

theorem Books.putRefresh {store : Store} (h : Books d tr store) (fate : Fate) {row : RefreshRow}
    (hrow : Sourced d tr (.refresh row.hash) row.grant) :
    Books d tr (store.putRefresh fate row) where
  codes r hr := h.codes r (by simpa using hr)
  refresh r hr := by
    simp only [Store.putRefresh] at hr
    split_ifs at hr with hfailed
    · exact h.refresh r hr
    · rcases ReplacingTable.mem_insert hr with rfl | hr
      · exact hrow
      · exact h.refresh r hr

theorem Books.putCode {store : Store} (h : Books d tr store) (fate : Fate) {row : CodeRow}
    {e : Consent} (he : e ∈ tr.consents) (hrow : Carries d e row) :
    Books d tr (store.putCode fate row) where
  codes r hr := by
    simp only [Store.putCode] at hr
    split_ifs at hr with hfailed
    · exact h.codes r hr
    · rcases ReplacingTable.mem_insert hr with rfl | hr
      · exact ⟨e, he, ⟨hrow.hash, hrow.client, hrow.redirectURI, hrow.challenge, hrow.registered,
          hrow.method, hrow.gives⟩⟩
      · exact h.codes r hr
  refresh r hr := h.refresh r (by simpa using hr)

/-- A code that is bound to the request has been redeemed by it. -/
theorem Carries.redeems {e : Consent} {x : CodeExchange} {c : CodeRow} (h : Carries d e c)
    (hcode : e.code = x.code) (hbinds : bindsCode d c x.client x.redirectURI x.verifier = true) :
    Redeems d e x := by
  simp only [bindsCode, verifyPKCE, exactRedirectMatch, Bool.and_eq_true, decide_eq_true_eq,
    List.contains_iff_mem, List.mem_singleton] at hbinds
  obtain ⟨⟨hclient, hredirect⟩, -, hverifier⟩ := hbinds
  exact ⟨hcode.symm, hclient.symm.trans h.client, hredirect.trans h.redirectURI, h.registered,
    h.method, hverifier.trans h.challenge⟩

/-- A query leaves tables that go back to consents, and so does what it reads and issues. -/
structure Kept (cfg : Config) (env : Env) (tr : Trail) (l : Ledger) (stage : Stage) : Prop where
  books : Books cfg.digests (tr.after cfg env stage)
    (advance cfg.digests cfg.oauth env l stage).1.store
  next : Backed cfg.digests (tr.after cfg env stage)
    (advance cfg.digests cfg.oauth env l stage).2
  signed : ∀ source claims, (source, claims) ∈ (tr.after cfg env stage).signed →
    (source, claims) ∈ tr.signed ∨
      ∃ g issuedAt, claims = signAccessToken cfg.oauth issuedAt g ∧
        Sourced cfg.digests tr source g

private theorem dispatch_backed (env : Env) (client : Client) (grant : TokenGrant) :
    Backed d tr (TokenExchange.dispatch env client grant) := by
  cases grant with
  | authorizationCode code redirectURI verifier =>
    simp only [TokenExchange.dispatch]
    split <;> trivial
  | refreshToken old =>
    simp only [TokenExchange.dispatch]
    split <;> trivial
  | other => trivial

theorem advance_burnCode {l : Ledger} {x : CodeExchange} {c : CodeRow}
    (h : Books cfg.digests tr l.store) (hstage : Backed cfg.digests tr (.burnCode x c)) :
    Kept cfg env tr l (.burnCode x c) := by
  have hle := tr.le_after cfg env (.burnCode x c)
  obtain ⟨e, he, hcarries, hcode⟩ := hstage
  have hburnt : Carries cfg.digests e { c with consumed := true } :=
    ⟨hcarries.hash, hcarries.client, hcarries.redirectURI, hcarries.challenge,
      hcarries.registered, hcarries.method, hcarries.gives⟩
  have hbooks := (h.mono hle).putCode (env.fate .burnCode) (hle.consents he) hburnt
  have hsigned : (tr.after cfg env (.burnCode x c)).signed = tr.signed := by
    simp only [Trail.after]
    split <;> rfl
  by_cases hok : env.fate .burnCode = .ok
  · refine ⟨?_, ?_, fun source claims hc => .inl (hsigned ▸ hc)⟩
    · simp only [advance, hok, if_true]
      exact hok ▸ hbooks
    · simp only [advance, hok, if_true, TokenExchange.bound]
      by_cases hbinds : bindsCode cfg.digests c x.client x.redirectURI x.verifier = true
      · rw [if_pos hbinds]
        refine ⟨e, hle.consents he, x, ?_, ?_, hcarries.redeems hcode hbinds, hcarries.gives⟩
        · simp [Trail.after, hok, hbinds]
        · rw [hcarries.hash]
          exact .code
      · rw [if_neg hbinds]
        trivial
  · refine ⟨?_, ?_, fun source claims hc => .inl (hsigned ▸ hc)⟩
    · simp only [advance, hok, if_false]
      exact hbooks
    · simp only [advance, hok, if_false]
      trivial

/-- The refresh token that is made for a source descends from it. -/
theorem Sourced.link {source : Source} {g : Grant} {hash : String} (h : Sourced d tr source g) :
    Sourced d { tr with links := (source, hash) :: tr.links } (.refresh hash) g := by
  have hle : tr.Le { tr with links := (source, hash) :: tr.links } :=
    ⟨List.Subset.refl _, List.Subset.refl _, List.subset_cons_self _ _⟩
  obtain ⟨e, he, x, hx, hdescends, hrest⟩ := h
  exact ⟨e, he, x, hx, .refresh (hdescends.mono hle) List.mem_cons_self, hrest⟩

private theorem advance_kept (hinj : Function.Injective cfg.digests.hashToken) {l : Ledger}
    {stage : Stage} (h : Books cfg.digests tr l.store) (hstage : Backed cfg.digests tr stage) :
    Kept cfg env tr l stage := by
  cases stage with
  | authenticate req =>
    refine ⟨?_, ?_, fun source claims => .inl⟩ <;> simp only [advance]
    · split <;> exact h
    · split
      · trivial
      · exact dispatch_backed env _ _
  | lockCode x | lockRefresh x | returned reply => exact ⟨h, trivial, fun source claims => .inl⟩
  | selectCode x =>
    refine ⟨?_, ?_, fun source claims => .inl⟩ <;> simp only [advance]
    · split <;> exact h
    · split
      · trivial
      · next c hcheck =>
        obtain ⟨hmem, hhash, -⟩ := SingleUse.checkCode_ok hcheck
        obtain ⟨e, he, hcarries⟩ := h.codes c hmem
        exact ⟨e, he, hcarries, hinj (hcarries.hash.symm.trans hhash)⟩
  | burnCode x c => exact advance_burnCode h hstage
  | saveRefresh source g =>
    have hle := tr.le_after cfg env (.saveRefresh source g)
    refine ⟨(h.mono hle).putRefresh _ hstage.link, ?_, fun source claims => .inl⟩
    simp only [advance]
    split
    · exact Sourced.mono hle hstage
    · trivial
  | selectRefresh x =>
    refine ⟨?_, ?_, fun source claims => .inl⟩ <;> simp only [advance]
    · split <;> exact h
    · split
      · trivial
      · next t hselect =>
        obtain ⟨hmem, hhash⟩ := SingleUse.selectRefresh_ok hselect
        simp only [TokenExchange.checkRefresh]
        split_ifs with hreused hexpired
        · trivial
        · trivial
        · have hsourced := h.refresh t hmem
          rwa [hhash] at hsourced
  | selectFamily hash familyID =>
    refine ⟨?_, ?_, fun source claims => .inl⟩ <;> simp only [advance]
    · split <;> exact h
    · split
      · trivial
      · exact fun m hm => h.refresh m (List.mem_of_mem_filter hm)
  | revokeMembers hash familyID members =>
    cases members with
    | nil => exact ⟨h, trivial, fun source claims => .inl⟩
    | cons m members =>
      refine ⟨h.putRefresh _ (hstage m List.mem_cons_self), ?_, fun source claims => .inl⟩
      simp only [advance]
      split
      · exact fun m' hm' => hstage m' (List.mem_cons_of_mem _ hm')
      · trivial
  | markRotated x t =>
    refine ⟨h.putRefresh _ hstage, ?_, fun source claims => .inl⟩
    simp only [advance]
    split
    · exact hstage
    · trivial
  | saveSuccessor x t =>
    have hle := tr.le_after cfg env (.saveSuccessor x t)
    let row : RefreshRow :=
      { t with hash := cfg.digests.hashToken x.raw, rotated := false, familyRevoked := false }
    have hrow : Sourced cfg.digests (tr.after cfg env (.saveSuccessor x t)) (.refresh row.hash)
        row.grant := Sourced.link hstage
    have hbooks := (h.mono hle).putRefresh (env.fate .saveSuccessor) hrow
    refine ⟨?_, ?_, fun source claims => .inl⟩ <;> simp only [advance]
    · split <;> exact hbooks
    · split
      · exact Sourced.mono hle hstage
      · trivial
  | sign source g raw =>
    have hle := tr.le_after cfg env (.sign source g raw)
    refine ⟨?_, trivial, fun source' claims hc => ?_⟩
    · simp only [advance]
      split <;> exact h.mono hle
    · simp only [Trail.after] at hc
      split at hc
      · rcases List.mem_cons.mp hc with hnew | hold
        · obtain ⟨rfl, rfl⟩ := Prod.mk.inj hnew
          exact .inr ⟨g, env.now, rfl, hstage⟩
        · exact .inl hold
      · exact .inl hc

private theorem sound_validated
    {user : Option User} {p : Params} {decision : Decision} {store : Store} :
    (validated cfg env store user p decision).Sound := by
  cases user with
  | none => trivial
  | some u =>
    simp only [validated]
    cases hreq : validateAuthParams cfg.oauth env store p with
    | error reply => trivial
    | ok req =>
      obtain ⟨hclient, hredirect, hregistered, hmethod, hchallenge⟩ := validateAuthParams_ok hreq
      simp only
      split
      · trivial
      · exact ⟨hclient, hredirect, hregistered, hmethod, hchallenge⟩

private theorem sound_clamped {e : Consent} {req : AuthorizationRequest} {grants : Option Grants}
    (hasks : e.Asks req)
    (hheld : ∀ loaded ∈ grants, ∀ siteID ∈ clampConsent cfg.oauth loaded e.posted,
      siteID ∈ (held s.grants e.user.userID).map Prod.fst) :
    (clamped cfg s.grants e req grants).Sound := by
  cases grants with
  | none => trivial
  | some loaded =>
    simp only [clamped]
    split
    · trivial
    · refine ⟨⟨hasks.client, hasks.redirectURI, hasks.registered, hasks.method,
        hasks.challenge⟩, fun siteID hsite => ⟨?_, ?_⟩⟩
      · exact List.mem_of_mem_filter hsite
      · exact held_dominates (hheld loaded rfl siteID hsite)

private theorem clampConsent_mem {cfg : OAuthServer.Config} {grants : Grants} {posted : List String}
    {siteID : ℕ} (h : siteID ∈ clampConsent cfg grants posted) :
    siteID ∈ grants.map Prod.fst := by
  have hconsentable := (List.mem_filter.mp h).2
  simp only [consentableSites, List.contains_iff_mem] at hconsentable
  exact List.mem_of_mem_filter hconsentable

/-- Under the condition every site that passes is one that the user holds. -/
theorem held_of_current {i now : ℕ} {up : Bool} {e : Consent} {req : AuthorizationRequest}
    (hstage : s.consenting[i]? = some (.loadSites e req))
    (hcurrent : Current cfg s (.proceedConsent i env now up)) :
    ∀ loaded ∈ (loadSites cfg s e.user.userID now up).2,
      ∀ siteID ∈ clampConsent cfg.oauth loaded e.posted,
        siteID ∈ (held s.grants e.user.userID).map Prod.fst := by
  intro loaded hloaded siteID hsite
  rcases loadSites_some hloaded with ⟨item, hitem, hfresh, rfl⟩ | hheld
  · exact hcurrent e (by simp [lookedUp, hstage]) item hitem hfresh siteID hsite
  · rw [hheld]
    exact clampConsent_mem hsite

theorem Inv.setConsent (h : Inv cfg s) (i : ℕ) {stage : ConsentStage} (hstage : stage.Sound) :
    Inv cfg (s.setConsent i stage) where
  books := h.books
  calls := h.calls
  consenting stage' hmem := by
    rcases List.mem_or_eq_of_mem_set hmem with hmem | rfl
    · exact h.consenting stage' hmem
    · exact hstage
  signed := h.signed

private theorem carries_codeRow {e : Consent} {req : AuthorizationRequest}
    (h : (ConsentStage.saveCode e req).Sound) :
    Carries cfg.digests { e with code := env.raw } (codeRow cfg env e req) := by
  obtain ⟨hasks, hcovers⟩ := h
  exact ⟨rfl, hasks.client, hasks.redirectURI, hasks.challenge, hasks.registered, hasks.method,
    rfl, hcovers⟩

private theorem inv_saveCode (h : Inv cfg s) {i : ℕ} {e : Consent} {req : AuthorizationRequest}
    {now : ℕ} {up : Bool} (hsound : (ConsentStage.saveCode e req).Sound)
    (hstep : proceedConsent cfg s i env now up (.saveCode e req) = some t) : Inv cfg t := by
  simp only [proceedConsent, Option.map_eq_some_iff, TokenExchange.step] at hstep
  obtain ⟨saved, hsaved, rfl⟩ := hstep
  split_ifs at hsaved with hnew
  obtain rfl := Option.some.inj hsaved
  let e' : Consent := { e with code := env.raw }
  have hle : s.trail.Le { s.trail with consents := e' :: s.trail.consents } :=
    ⟨List.subset_cons_self _ _, List.Subset.refl _, List.Subset.refl _⟩
  refine ⟨?_, fun stage hmem => (h.calls stage hmem).mono hle, fun stage hmem => ?_,
    fun source claims hmem => ?_⟩
  · exact (h.books.mono hle).putCode _ List.mem_cons_self (carries_codeRow hsound)
  · rcases List.mem_or_eq_of_mem_set hmem with hmem | rfl
    · exact h.consenting stage hmem
    · trivial
  · obtain ⟨g, issuedAt, hclaims, hsourced⟩ := h.signed source claims hmem
    exact ⟨g, issuedAt, hclaims, hsourced.mono hle⟩

private theorem inv_proceedConsent (h : Inv cfg s) {i now : ℕ} {up : Bool}
    (hcurrent : Current cfg s (.proceedConsent i env now up))
    (hstep : step cfg s (.proceedConsent i env now up) = some t) : Inv cfg t := by
  simp only [step, Option.bind_eq_some_iff] at hstep
  obtain ⟨stage, hstage, hstep⟩ := hstep
  have hsound := h.consenting stage (List.mem_of_getElem? hstage)
  cases stage with
  | validate user p decision =>
    obtain rfl := Option.some.inj hstep
    exact h.setConsent i sound_validated
  | loadSites e req =>
    obtain rfl := Option.some.inj hstep
    have hread : Inv cfg { s with consentItems := (loadSites cfg s e.user.userID now up).1 } :=
      ⟨h.books, h.calls, h.consenting, h.signed⟩
    exact hread.setConsent i (sound_clamped hsound (held_of_current hstage hcurrent))
  | saveCode e req => exact inv_saveCode h hsound hstep
  | replied reply => simp [proceedConsent] at hstep

theorem inv_proceed (hinj : Function.Injective cfg.digests.hashToken) (h : Inv cfg s) {i : ℕ}
    (hstep : step cfg s (.proceed i env) = some t) : Inv cfg t := by
  simp only [step, exchange, Option.bind_eq_some_iff, Option.map_eq_some_iff] at hstep
  obtain ⟨stage, hstage, next, hnext, rfl⟩ := hstep
  simp only [TokenExchange.step, hstage] at hnext
  split_ifs at hnext with hwaits hfresh
  obtain rfl := Option.some.inj hnext
  have hkept : Kept cfg env s.trail s.toLedger stage :=
    advance_kept hinj h.books (h.calls stage (List.mem_of_getElem? hstage))
  have hle := s.trail.le_after cfg env stage
  refine ⟨hkept.books, fun stage' hmem => ?_, h.consenting, fun source claims hmem => ?_⟩
  · rcases List.mem_or_eq_of_mem_set hmem with hmem | rfl
    · exact (h.calls stage' hmem).mono hle
    · exact hkept.next
  · rcases hkept.signed source claims hmem with hold | ⟨g, issuedAt, hclaims, hsourced⟩
    · obtain ⟨g, issuedAt, hclaims, hsourced⟩ := h.signed source claims hold
      exact ⟨g, issuedAt, hclaims, hsourced.mono hle⟩
    · exact ⟨g, issuedAt, hclaims, hsourced.mono hle⟩

theorem inv_step (hinj : Function.Injective cfg.digests.hashToken) (h : Inv cfg s) {a : Action}
    (hcurrent : Current cfg s a) (hstep : step cfg s a = some t) : Inv cfg t := by
  cases a with
  | consent user p decision =>
    obtain rfl := Option.some.inj hstep
    refine ⟨h.books, h.calls, fun stage hmem => ?_, h.signed⟩
    rcases List.mem_append.mp hmem with hmem | hmem
    · exact h.consenting stage hmem
    · obtain rfl := List.mem_singleton.mp hmem
      trivial
  | proceedConsent i env now up => exact inv_proceedConsent h hcurrent hstep
  | authorize user p env now up =>
    simp only [step] at hstep
    split at hstep
    · obtain rfl := Option.some.inj hstep
      exact ⟨h.books, h.calls, h.consenting, h.signed⟩
    · exact Option.some.inj hstep ▸ h
  | writeGrants rows =>
    obtain rfl := Option.some.inj hstep
    exact ⟨h.books, h.calls, h.consenting, h.signed⟩
  | register clients =>
    obtain rfl := Option.some.inj hstep
    exact ⟨⟨h.books.codes, h.books.refresh⟩, h.calls, h.consenting, h.signed⟩
  | request req =>
    obtain rfl := Option.some.inj hstep
    refine ⟨h.books, fun stage hmem => ?_, h.consenting, h.signed⟩
    rcases List.mem_append.mp hmem with hmem | hmem
    · exact h.calls stage hmem
    · obtain rfl := List.mem_singleton.mp hmem
      trivial
  | proceed i env => exact inv_proceed hinj h hstep
  | remove hashes =>
    obtain rfl := Option.some.inj hstep
    exact ⟨⟨fun row hrow => h.books.codes row (List.mem_of_mem_filter hrow),
      fun row hrow => h.books.refresh row (List.mem_of_mem_filter hrow)⟩, h.calls,
      h.consenting, h.signed⟩
  | restart version =>
    simp only [step, exchange, TokenExchange.step, Option.map_eq_some_iff] at hstep
    obtain ⟨next, hnext, rfl⟩ := hstep
    split_ifs at hnext with hversion
    obtain rfl := Option.some.inj hnext
    exact ⟨⟨h.books.codes, h.books.refresh⟩, by simp, by simp, h.signed⟩

theorem inv_start (clients : List Client) (rows : List GrantRow) :
    Inv cfg (start clients rows) where
  books := ⟨by simp [start], by simp [start]⟩
  calls := by simp [start]
  consenting := by simp [start]
  signed := by simp [start]

/-- What the resource server authorises for a token of the grant is on a site of the grant. -/
theorem authorised_site {g : Grant} {issuedAt now siteID : ℕ} {u : User}
    (hprincipal : oauthPrincipal cfg.oauth (signAccessToken cfg.oauth issuedAt g) now = some u)
    (hreads : u.actorCanReadSite siteID = true) :
    siteID ∈ g.siteIDs ∧ u.role = .api ∧
      ∀ role, u.canAccessSite siteID role = true → roleRank .api ≤ roleRank role := by
  simp only [oauthPrincipal, Option.ite_none_right_eq_some, Option.some.injEq] at hprincipal
  obtain ⟨-, rfl⟩ := hprincipal
  have haccess (role : Role) :
      (oauthUser cfg.oauth (signAccessToken cfg.oauth issuedAt g)).canAccessSite siteID role =
        true ↔ siteID ∈ g.siteIDs ∧ siteID ∈ cfg.oauth.allowedSiteIDs ∧
          roleRank .api ≤ roleRank role := by
    rw [canAccessSite_iff rfl]
    simp [grantsForToken, signAccessToken, get_map_role, and_assoc]
  rw [actorCanReadSite_iff oauthActorID_ne rfl, haccess] at hreads
  exact ⟨hreads.1, rfl, fun role hrole => ((haccess role).mp hrole).2.2⟩

theorem Inv.traced (h : Inv cfg s) : Traced cfg s := by
  intro source claims hsigned now siteID u hprincipal hreads
  obtain ⟨g, issuedAt, rfl, e, he, x, hx, hdescends, hredeems, huser, hcovers⟩ :=
    h.signed source claims hsigned
  obtain ⟨hsite, hrole, hrank⟩ := authorised_site hprincipal hreads
  obtain ⟨hticked, got, hgot, hdominates⟩ := hcovers siteID hsite
  have hcovers (role : Role) (hrole : roleRank .api ≤ roleRank role) : e.Covers siteID role :=
    ⟨hticked, got, hgot, hdominates.trans hrole⟩
  exact ⟨e, he, x, hx, hdescends, hredeems, huser, hcovers _ (hrole ▸ le_rfl),
    fun role haccess => hcovers role (hrank role haccess)⟩

/-- Where the cache answers no consent with a site that the user has lost, whatever the
resource server authorises goes back to a consent. -/
theorem requests_traced (hinj : Function.Injective cfg.digests.hashToken)
    (clients : List Client) (rows : List GrantRow) {as : List Action}
    (hcurrent : Along (step cfg) (Current cfg) (start clients rows) as) :
    Throughout (step cfg) (Traced cfg) (start clients rows) as :=
  (throughout_of_along (fun _ _ _ hs hc hstep => inv_step hinj hs hc hstep) hcurrent
    (inv_start clients rows)).mono fun _ h => h.traced

/-- SHA-256 in hex of the sample's secrets, and nothing that is a digest for any other string. -/
def sampleHash (raw : String) : String :=
  match DelegatedAccess.digests.find? (fun kv => kv.1 = raw) with
  | some kv => kv.2
  | none => "-" ++ raw

theorem sampleHash_injective : Function.Injective sampleHash := by
  have hlisted : ∀ kv ∈ DelegatedAccess.digests, ∀ kv' ∈ DelegatedAccess.digests,
      kv.2 = kv'.2 → kv.1 = kv'.1 := by decide +kernel
  have hhex : ∀ kv ∈ DelegatedAccess.digests, kv.2.toList.head? ≠ some '-' := by decide +kernel
  have hother (kv) (hkv : kv ∈ DelegatedAccess.digests) (raw : String) : kv.2 ≠ "-" ++ raw := by
    intro h
    exact hhex kv hkv (by simp [h])
  intro a b h
  simp only [sampleHash] at h
  cases ha : DelegatedAccess.digests.find? (fun kv => kv.1 = a) with
  | none =>
    cases hb : DelegatedAccess.digests.find? (fun kv => kv.1 = b) with
    | none => simpa [ha, hb] using h
    | some kv =>
      simp only [ha, hb] at h
      exact absurd h.symm (hother kv (List.mem_of_find?_eq_some hb) a)
  | some kv =>
    have hkv : kv.1 = a := by simpa using List.find?_some ha
    cases hb : DelegatedAccess.digests.find? (fun kv => kv.1 = b) with
    | none =>
      simp only [ha, hb] at h
      exact absurd h (hother kv (List.mem_of_find?_eq_some ha) b)
    | some kv' =>
      have hkv' : kv'.1 = b := by simpa using List.find?_some hb
      simp only [ha, hb] at h
      rw [← hkv, ← hkv']
      exact hlisted kv (List.mem_of_find?_eq_some ha) kv' (List.mem_of_find?_eq_some hb) h

def sampleConfig : Config where
  digests := { DelegatedAccess.sampleConfig.digests with hashToken := sampleHash }
  oauth := DelegatedAccess.sampleConfig.oauth
  sitesTTL := 60000000000

def annsStart : State := start DelegatedAccess.annsSite.oauth.clients [⟨7, 1, .viewer, false, 100⟩]

def codeEnv : Env := { now := 103, raw := "AQEBAQEBAQEBAQEBAQEBAQEBAQEBAQEBAQEBAQEBAQE" }

def tokenEnv : Env :=
  { now := 104, raw := "AgICAgICAgICAgICAgICAgICAgICAgICAgICAgICAgI", familyID := 3 }

def refreshEnv : Env := { now := 105, raw := "AwMDAwMDAwMDAwMDAwMDAwMDAwMDAwMDAwMDAwMDAwM" }

/-- The user consents to the assistant, which exchanges the code. -/
def annConsents : List Action :=
  .consent (some DelegatedAccess.ann) DelegatedAccess.annsParams ⟨true, ["1"]⟩ ::
    List.replicate 3 (.proceedConsent 0 codeEnv 103000000000 true) ++
    .request (DelegatedAccess.assistantRequest (.authorizationCode codeEnv.raw
      "https://chat.example/callback" "BAQEBAQEBAQEBAQEBAQEBAQEBAQEBAQEBAQEBAQEBAQ")) ::
    List.replicate 6 (.proceed 0 tokenEnv)

/-- The assistant refreshes its access token. -/
def assistantRefreshes : List Action :=
  .request (DelegatedAccess.assistantRequest (.refreshToken tokenEnv.raw)) ::
    List.replicate 6 (.proceed 1 refreshEnv)

theorem requests_traced_annConsents :
    Throughout (step sampleConfig) (Traced sampleConfig) annsStart
      (annConsents ++ assistantRefreshes) ∧
    (exec (step sampleConfig) annsStart (annConsents ++ assistantRefreshes)).any
      (fun t => t.trail.signed.length = 2) = true :=
  ⟨requests_traced sampleHash_injective _ _ (by decide +kernel), by decide +kernel⟩

/-- The user opens `/authorize` and loses the grant before the consent. -/
def annLosesGrant : List Action :=
  .authorize (some DelegatedAccess.ann) DelegatedAccess.annsParams codeEnv 101000000000 true ::
    .writeGrants [⟨7, 1, .viewer, true, 102⟩] :: annConsents

/-- The cache still answers with the grant, and the access token reads the site. -/
theorem revoked_grant_consented : Function.Injective sampleConfig.digests.hashToken ∧
    ∃ t, exec (step sampleConfig) annsStart annLosesGrant = some t ∧ ¬ Traced sampleConfig t := by
  have hruns : (exec (step sampleConfig) annsStart annLosesGrant).any (fun t =>
      t.trail.signed.any (fun sc =>
        (oauthPrincipal sampleConfig.oauth sc.2 104).any (fun u => u.actorCanReadSite 1)) &&
      t.trail.consents.all (fun e => (e.held.get 1).isNone)) = true := by decide +kernel
  obtain ⟨t, ht, hreads⟩ := (Option.any_eq_true _ _).mp hruns
  obtain ⟨hsigned, hlost⟩ := (Bool.and_eq_true _ _).mp hreads
  obtain ⟨sc, hmem, hprincipal⟩ := List.any_eq_true.mp hsigned
  obtain ⟨u, hu, hread⟩ := (Option.any_eq_true _ _).mp hprincipal
  refine ⟨sampleHash_injective, t, ht, fun htraced => ?_⟩
  obtain ⟨e, he, -, -, -, -, -, ⟨-, got, hgot, -⟩, -⟩ :=
    htraced sc.1 sc.2 hmem 104 1 u hu hread
  have hnone := List.all_eq_true.mp hlost e he
  rw [Option.isNone_iff_eq_none.mp hnone] at hgot
  cases hgot

end Statnive.ConsentChain
