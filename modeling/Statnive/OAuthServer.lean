import Mathlib.Data.List.Basic
import Statnive.AuthGuards
import Statnive.IngestHandler
import Statnive.ReplacingTable

/-!
# The OAuth authorization server and its resource server

A logged-in user consents to a client reading some of the user's sites. The consent is kept
in a single-use code, carried over to a refresh token for the code and from each refresh
token to its successor, and signed into every access token. The resource server checks an
access token by itself: it asks no store.
-/

namespace Statnive.OAuthServer

open AuthTypes AuthGuards
open IngestHandler (trimSpace isSpace)

/-- The consented authorization. -/
structure Grant where
  clientID : String
  userID : UserID
  scope : String
  audience : String
  siteIDs : List ℕ
  deriving DecidableEq

structure Client where
  id : String
  secretHash : String
  redirectURIs : List String
  revoked : Bool := false

/-- The row of an authorization code; times are unix seconds. -/
structure CodeRow where
  hash : String
  grant : Grant
  redirectURI : String
  codeChallenge : String
  expiresAt : ℕ
  consumed : Bool := false
  version : ℕ := 0

def CodeRow.stamp (r : CodeRow) : ℤ := r.version

/-- The tokens that descend from one code are a family. -/
structure RefreshRow where
  hash : String
  familyID : ℕ
  grant : Grant
  expiresAt : ℕ
  rotated : Bool := false
  familyRevoked : Bool := false
  version : ℕ := 0

def RefreshRow.stamp (r : RefreshRow) : ℤ := r.version

/-- `version` is the counter of the process that the versions of rows are taken from. -/
structure Store where
  clients : List Client := []
  codes : List CodeRow := []
  refresh : List RefreshRow := []
  version : ℕ := 0

inductive Query where
  | getClient | saveCode | selectCode | burnCode
  | saveRefresh | selectRefresh | markRotated | saveSuccessor
  | selectFamily
  | revokeMember (hash : String)
  deriving DecidableEq

/-- How a query goes: an insert that fails may have put its row into the table. -/
inductive Fate where
  | ok | failed | failedAfter
  deriving DecidableEq

/-- What a request meets: the clock in unix seconds, the fate of each query, a new secret and
a new family, which are random, and whether the key signs. -/
structure Env where
  now : ℕ
  fate : Query → Fate := fun _ => .ok
  raw : String := ""
  familyID : ℕ := 0
  signs : Bool := true

def Store.putCode (s : Store) (fate : Fate) (row : CodeRow) : Store :=
  if fate = .failed then { s with version := s.version + 1 }
  else { s with
    codes := ReplacingTable.insert CodeRow.hash CodeRow.stamp s.codes
      { row with version := s.version + 1 }
    version := s.version + 1 }

def Store.putRefresh (s : Store) (fate : Fate) (row : RefreshRow) : Store :=
  if fate = .failed then { s with version := s.version + 1 }
  else { s with
    refresh := ReplacingTable.insert RefreshRow.hash RefreshRow.stamp s.refresh
      { row with version := s.version + 1 }
    version := s.version + 1 }

inductive StoreError where
  | codeNotFound | codeConsumed | codeExpired
  | refreshInvalid | refreshExpired | refreshReused
  | failed
  deriving DecidableEq

def getClient (env : Env) (s : Store) (id : String) : Option Client :=
  if env.fate .getClient ≠ .ok then none
  else s.clients.find? (fun c => c.id = id && !c.revoked)

/-- The code as it is read, before it is burnt. -/
def checkCode (env : Env) (s : Store) (codeHash : String) : Except StoreError CodeRow :=
  if env.fate .selectCode ≠ .ok then .error .failed
  else match s.codes.find? (fun r => r.hash = codeHash) with
  | none => .error .codeNotFound
  | some c =>
    if c.consumed then .error .codeConsumed
    else if c.expiresAt ≤ env.now then .error .codeExpired
    else .ok c

def consumeAuthCode (env : Env) (s : Store) (codeHash : String) :
    Store × Except StoreError CodeRow :=
  match checkCode env s codeHash with
  | .error e => (s, .error e)
  | .ok c =>
    (s.putCode (env.fate .burnCode) { c with consumed := true },
      if env.fate .burnCode = .ok then .ok c else .error .failed)

/-- The members of a family are marked one after the other, up to the first error. -/
def revokeMembers (env : Env) (s : Store) : List RefreshRow → Store × Bool
  | [] => (s, true)
  | m :: members =>
    let fate := env.fate (.revokeMember m.hash)
    let s' := s.putRefresh fate { m with familyRevoked := true }
    if fate = .ok then revokeMembers env s' members else (s', false)

def revokeFamily (env : Env) (s : Store) (familyID : ℕ) : Store × Bool :=
  if env.fate .selectFamily ≠ .ok then (s, false)
  else revokeMembers env s
    (s.refresh.filter (fun r => r.familyID = familyID && !r.familyRevoked))

/-- The token was rotated before, its family is revoked, or it is another client's. -/
def RefreshRow.reused (r : RefreshRow) (clientID : String) : Bool :=
  r.rotated || r.familyRevoked || r.grant.clientID ≠ clientID

/-- The refresh token as it is read. -/
def selectRefresh (env : Env) (s : Store) (hash : String) : Except StoreError RefreshRow :=
  if env.fate .selectRefresh ≠ .ok then .error .failed
  else match s.refresh.find? (fun r => r.hash = hash) with
  | none => .error .refreshInvalid
  | some t => .ok t

def rotateRefreshToken (env : Env) (s : Store) (oldHash newHash clientID : String) :
    Store × Except StoreError RefreshRow :=
  match selectRefresh env s oldHash with
  | .error e => (s, .error e)
  | .ok t =>
    if t.reused clientID then
      let revoked := revokeFamily env s t.familyID
      (revoked.1, .error (if revoked.2 then .refreshReused else .failed))
    else if t.expiresAt ≤ env.now then (s, .error .refreshExpired)
    else
      let marked := s.putRefresh (env.fate .markRotated) { t with hash := oldHash, rotated := true }
      if env.fate .markRotated ≠ .ok then (marked, .error .failed)
      else
        let next := marked.putRefresh (env.fate .saveSuccessor)
          { t with hash := newHash, rotated := false, familyRevoked := false }
        (next, if env.fate .saveSuccessor = .ok then .ok t else .error .failed)

/-- Both servers are configured from it; lifetimes are in seconds. -/
structure Config where
  issuer : String
  audience : String
  requiredScope : String := ""
  allowedSiteIDs : List ℕ
  accessTTLSeconds : ℤ := 0
  refreshTTLSeconds : ℤ := 0
  codeTTLSeconds : ℤ := 0

def orDefault (seconds : ℤ) (default : ℕ) : ℕ := if seconds ≤ 0 then default else seconds.toNat

def Config.accessTTL (cfg : Config) : ℕ := orDefault cfg.accessTTLSeconds 1800
def Config.refreshTTL (cfg : Config) : ℕ := orDefault cfg.refreshTTLSeconds 2592000
def Config.codeTTL (cfg : Config) : ℕ := orDefault cfg.codeTTLSeconds 60

def Config.scope (cfg : Config) : String :=
  if cfg.requiredScope = "" then "analytics:read" else cfg.requiredScope

/-- The claims of an access token; `siteIDs = none` is an absent claim. -/
structure Claims where
  iss : String
  sub : UserID
  aud : String
  scope : String
  siteIDs : Option (List ℕ)
  nbf : ℕ
  exp : ℕ
  deriving DecidableEq

def signAccessToken (cfg : Config) (now : ℕ) (g : Grant) : Claims where
  iss := cfg.issuer
  sub := g.userID
  aud := g.audience
  scope := g.scope
  siteIDs := some g.siteIDs
  nbf := now
  exp := now + cfg.accessTTL

inductive Reply where
  | http (status : ℕ) (message : String)
  | login
  | consentPage (siteIDs : List ℕ)
  | redirectErr (redirectURI state code description : String)
  | redirectCode (redirectURI state code : String)
  | oauthError (status : ℕ) (code description : String)
  | tokens (access : Claims) (refresh : String)

/-- The parameters of `/authorize`, which the consent form carries along. -/
structure Params where
  clientID : String
  redirectURI : String
  state : String := ""
  responseType : String := "code"
  codeChallenge : String
  codeChallengeMethod : String := "S256"
  scope : String := ""
  resource : String := ""

structure AuthorizationRequest where
  client : Client
  redirectURI : String
  state : String
  scope : String
  codeChallenge : String
  audience : String

def isBase64URL (c : Char) : Bool :=
  ('A' ≤ c && c ≤ 'Z') || ('a' ≤ c && c ≤ 'z') || ('0' ≤ c && c ≤ '9') || c = '-' || c = '_'

def validChallengeMethod (method : String) : Bool := method = "S256"

def validChallenge (c : String) : Bool := c.utf8ByteSize = 43 && c.toList.all isBase64URL

/-- `strings.Fields`. -/
def fields (s : String) : List String :=
  ((s.toList.splitOnP isSpace).filter (· ≠ [])).map String.ofList

def resolveScope (cfg : Config) (requested : String) : Option String :=
  if trimSpace requested = "" then some cfg.scope
  else if (fields requested).all (· = cfg.scope) then some cfg.scope
  else none

def exactRedirectMatch (registered : List String) (candidate : String) : Bool :=
  registered.contains candidate

/-- The client and its redirect URI come first: no other error may be sent to a URI that is
not the client's. -/
def validateAuthParams (cfg : Config) (env : Env) (s : Store) (p : Params) :
    Except Reply AuthorizationRequest :=
  match getClient env s p.clientID with
  | none => .error (.http 400 "invalid client_id")
  | some client =>
    if p.redirectURI = "" || !exactRedirectMatch client.redirectURIs p.redirectURI then
      .error (.http 400 "invalid redirect_uri")
    else if p.responseType ≠ "code" then
      .error (.redirectErr p.redirectURI p.state "unsupported_response_type"
        "only response_type=code is supported")
    else if !validChallengeMethod p.codeChallengeMethod || !validChallenge p.codeChallenge then
      .error (.redirectErr p.redirectURI p.state "invalid_request"
        "PKCE with code_challenge_method=S256 is required")
    else match resolveScope cfg p.scope with
    | none => .error (.redirectErr p.redirectURI p.state "invalid_scope"
        ("only " ++ cfg.scope ++ " is supported"))
    | some scope =>
      if p.resource ≠ "" && p.resource ≠ cfg.audience then
        .error (.redirectErr p.redirectURI p.state "invalid_target" "unknown resource")
      else .ok ⟨client, p.redirectURI, p.state, scope, p.codeChallenge, cfg.audience⟩

/-- The sites that a user may grant: the user's own within the deployment's. -/
def consentableSites (cfg : Config) (grants : Grants) : List ℕ :=
  (grants.map Prod.fst).filter (fun siteID => cfg.allowedSiteIDs.contains siteID)

/-- `grants` is what the look-up of the user's sites answers, with `none` for an error. -/
def authorize (cfg : Config) (env : Env) (s : Store) (user : Option User)
    (grants : Option Grants) (p : Params) : Reply :=
  match validateAuthParams cfg env s p with
  | .error reply => reply
  | .ok req => match user, grants with
    | none, _ => .login
    | some _, none => .redirectErr req.redirectURI req.state "server_error"
        "could not load your sites"
    | some _, some grants => .consentPage (consentableSites cfg grants)

def parseSiteIDs (raw : List String) : List ℕ := raw.filterMap parseSiteID

/-- The posted sites that the user may grant. -/
def clampConsent (cfg : Config) (grants : Grants) (posted : List String) : List ℕ :=
  (parseSiteIDs posted).filter (fun siteID => (consentableSites cfg grants).contains siteID)

structure Decision where
  approve : Bool
  siteIDs : List String

/-- A registered URI parses, so that the redirect does not fail. -/
def issueCode (hashToken : String → String) (cfg : Config) (env : Env) (s : Store)
    (req : AuthorizationRequest) (userID : UserID) (siteIDs : List ℕ) : Store × Reply :=
  let code : CodeRow :=
    { hash := hashToken env.raw
      grant := ⟨req.client.id, userID, req.scope, req.audience, siteIDs⟩
      redirectURI := req.redirectURI
      codeChallenge := req.codeChallenge
      expiresAt := env.now + cfg.codeTTL }
  (s.putCode (env.fate .saveCode) code,
    if env.fate .saveCode = .ok then .redirectCode req.redirectURI req.state env.raw
    else .redirectErr req.redirectURI req.state "server_error" "could not issue code")

def consent (hashToken : String → String) (cfg : Config) (env : Env) (s : Store)
    (user : Option User) (grants : Option Grants) (p : Params) (decision : Decision) :
    Store × Reply :=
  match user with
  | none => (s, .http 401 "unauthorized")
  | some u => match validateAuthParams cfg env s p with
    | .error reply => (s, reply)
    | .ok req =>
      if !decision.approve then
        (s, .redirectErr req.redirectURI req.state "access_denied" "user denied the request")
      else match grants with
      | none =>
        (s, .redirectErr req.redirectURI req.state "server_error" "could not load your sites")
      | some grants =>
        if clampConsent cfg grants decision.siteIDs = [] then
          (s, .redirectErr req.redirectURI req.state "access_denied"
            "no authorized sites selected")
        else issueCode hashToken cfg env s req u.userID (clampConsent cfg grants decision.siteIDs)

/-- `sha256` with the encodings that the server puts on it. -/
structure Digests where
  /-- SHA-256 in hex. -/
  hashToken : String → String
  /-- SHA-256 in base64url. -/
  s256 : String → String

inductive TokenGrant where
  | authorizationCode (code redirectURI codeVerifier : String)
  | refreshToken (refresh : String)
  | other

/-- The client's id and secret stand in the form or, without an id there, in the header. -/
structure TokenRequest where
  clientID : String
  clientSecret : String := ""
  basicAuth : Option (String × String) := none
  grant : TokenGrant

def TokenRequest.credentials (req : TokenRequest) : String × String :=
  if req.clientID = "" then req.basicAuth.getD (req.clientID, req.clientSecret)
  else (req.clientID, req.clientSecret)

def authenticateClient (d : Digests) (env : Env) (s : Store) (req : TokenRequest) :
    Except Reply Client :=
  match getClient env s req.credentials.1 with
  | none => .error (.oauthError 401 "invalid_client" "unknown client")
  | some client =>
    if client.secretHash ≠ "" && d.hashToken req.credentials.2 ≠ client.secretHash then
      .error (.oauthError 401 "invalid_client" "bad client credentials")
    else .ok client

def isUnreserved (c : Char) : Bool := isBase64URL c || c = '.' || c = '~'

def validVerifier (v : String) : Bool :=
  43 ≤ v.utf8ByteSize && v.utf8ByteSize ≤ 128 && v.toList.all isUnreserved

def verifyPKCE (d : Digests) (challenge verifier : String) : Bool :=
  challenge ≠ "" && validVerifier verifier && d.s256 verifier = challenge

/-- The code belongs to the client, to the URI it was sent to and to the verifier. -/
def bindsCode (d : Digests) (c : CodeRow) (client : Client) (redirectURI verifier : String) : Bool :=
  c.grant.clientID = client.id && exactRedirectMatch [c.redirectURI] redirectURI &&
    verifyPKCE d c.codeChallenge verifier

def writeTokens (cfg : Config) (env : Env) (g : Grant) (refresh : String) : Reply :=
  if env.signs then .tokens (signAccessToken cfg env.now g) refresh
  else .oauthError 500 "server_error" "could not sign token"

def issueTokens (d : Digests) (cfg : Config) (env : Env) (s : Store) (g : Grant) : Store × Reply :=
  (s.putRefresh (env.fate .saveRefresh)
      { hash := d.hashToken env.raw, familyID := env.familyID, grant := g
        expiresAt := env.now + cfg.refreshTTL },
    if env.fate .saveRefresh = .ok then writeTokens cfg env g env.raw
    else .oauthError 500 "server_error" "could not store token")

def grantAuthorizationCode (d : Digests) (cfg : Config) (env : Env) (s : Store) (client : Client)
    (code redirectURI verifier : String) : Store × Reply :=
  if code = "" then (s, .oauthError 400 "invalid_request" "missing code")
  else match consumeAuthCode env s (d.hashToken code) with
  | (s', .error _) => (s', .oauthError 400 "invalid_grant" "invalid or expired code")
  | (s', .ok c) =>
    if bindsCode d c client redirectURI verifier then issueTokens d cfg env s' c.grant
    else (s', .oauthError 400 "invalid_grant" "code binding mismatch")

def grantRefreshToken (d : Digests) (cfg : Config) (env : Env) (s : Store) (client : Client)
    (refresh : String) : Store × Reply :=
  if refresh = "" then (s, .oauthError 400 "invalid_request" "missing refresh_token")
  else match rotateRefreshToken env s (d.hashToken refresh) (d.hashToken env.raw) client.id with
  | (s', .error _) => (s', .oauthError 400 "invalid_grant" "invalid refresh token")
  | (s', .ok t) => (s', writeTokens cfg env t.grant env.raw)

def token (d : Digests) (cfg : Config) (env : Env) (s : Store) (req : TokenRequest) :
    Store × Reply :=
  match authenticateClient d env s req with
  | .error reply => (s, reply)
  | .ok client => match req.grant with
    | .authorizationCode code redirectURI verifier =>
      grantAuthorizationCode d cfg env s client code redirectURI verifier
    | .refreshToken refresh => grantRefreshToken d cfg env s client refresh
    | .other => (s, .oauthError 400 "unsupported_grant_type"
        "only authorization_code and refresh_token are supported")

/-- In seconds. -/
def jwtLeeway : ℕ := 60

def validateClaims (cfg : Config) (c : Claims) (now : ℕ) : Bool :=
  c.iss = cfg.issuer && c.aud = cfg.audience && !(c.exp = 0 || c.exp + jwtLeeway < now) &&
    !(0 < c.nbf && now + jwtLeeway < c.nbf) &&
    (cfg.requiredScope = "" || (fields c.scope).contains cfg.requiredScope)

/-- The sites of the token within the deployment's; a token without the claim has all of
these. -/
def grantsForToken (cfg : Config) (c : Claims) : Grants :=
  match c.siteIDs with
  | none => cfg.allowedSiteIDs.map (fun siteID => (siteID, .api))
  | some siteIDs =>
    (siteIDs.filter (fun siteID => cfg.allowedSiteIDs.contains siteID)).map
      (fun siteID => (siteID, .api))

/-- `uuid.UUID{0xfe}`: the principal is no user of the table. -/
def oauthActorID : UserID := 0xfe * 256 ^ 15

def oauthUser (cfg : Config) (c : Claims) : User where
  userID := oauthActorID
  role := .api
  sites := some (grantsForToken cfg c)

/-- The principal of a request with an access token whose signature is good. -/
def oauthPrincipal (cfg : Config) (c : Claims) (now : ℕ) : Option User :=
  if validateClaims cfg c now then some (oauthUser cfg c) else none

def RefreshRow.usable (r : RefreshRow) (clientID : String) (now : ℕ) : Bool :=
  !r.reused clientID && now < r.expiresAt

/-- The grant of the code or refresh token that a request presents, when it is accepted. -/
def presentedGrant (d : Digests) (env : Env) (s : Store) (req : TokenRequest) : Option Grant :=
  match authenticateClient d env s req with
  | .error _ => none
  | .ok client => match req.grant with
    | .authorizationCode code redirectURI verifier =>
      if code = "" then none
      else match checkCode env s (d.hashToken code) with
      | .error _ => none
      | .ok c => if bindsCode d c client redirectURI verifier then some c.grant else none
    | .refreshToken refresh =>
      if refresh = "" then none
      else match selectRefresh env s (d.hashToken refresh) with
      | .error _ => none
      | .ok t => if t.usable client.id env.now then some t.grant else none
    | .other => none

/-- The inserts that go with an exchange succeed, and the key signs. -/
def completes (env : Env) : TokenGrant → Bool
  | .authorizationCode _ _ _ =>
    env.fate .burnCode = .ok && env.fate .saveRefresh = .ok && env.signs
  | .refreshToken _ => env.fate .markRotated = .ok && env.fate .saveSuccessor = .ok && env.signs
  | .other => false

variable {d : Digests} {cfg : Config} {env : Env} {s : Store}

theorem writeTokens_iff {g : Grant} {raw : String} {access : Claims} {refresh : String} :
    writeTokens cfg env g raw = .tokens access refresh ↔
      env.signs = true ∧ access = signAccessToken cfg env.now g ∧ refresh = raw := by
  cases hsigns : env.signs <;> simp [writeTokens, hsigns, eq_comm]

private theorem grantAuthorizationCode_iff {client : Client} {code redirectURI verifier : String}
    {access : Claims} {refresh : String} :
    (grantAuthorizationCode d cfg env s client code redirectURI verifier).2 =
        .tokens access refresh ↔
      ∃ c, code ≠ "" ∧ checkCode env s (d.hashToken code) = .ok c ∧
        bindsCode d c client redirectURI verifier = true ∧
        completes env (.authorizationCode code redirectURI verifier) = true ∧
        access = signAccessToken cfg env.now c.grant ∧ refresh = env.raw := by
  by_cases hcode : code = ""
  · simp [grantAuthorizationCode, hcode]
  · cases hcheck : checkCode env s (d.hashToken code) with
    | error e => simp [grantAuthorizationCode, hcode, consumeAuthCode, hcheck]
    | ok c =>
      by_cases hburn : env.fate .burnCode = .ok
      · by_cases hbinds : bindsCode d c client redirectURI verifier = true
        · by_cases hsave : env.fate .saveRefresh = .ok
          · simp [grantAuthorizationCode, hcode, consumeAuthCode, hcheck, hburn, hbinds,
              issueTokens, hsave, completes, writeTokens_iff]
          · simp [grantAuthorizationCode, hcode, consumeAuthCode, hcheck, hburn, hbinds,
              issueTokens, hsave, completes]
        · simp [grantAuthorizationCode, hcode, consumeAuthCode, hcheck, hburn, hbinds]
      · simp [grantAuthorizationCode, hcode, consumeAuthCode, hcheck, hburn, completes]

private theorem grantRefreshToken_iff {client : Client} {old : String} {access : Claims}
    {refresh : String} :
    (grantRefreshToken d cfg env s client old).2 = .tokens access refresh ↔
      ∃ t, old ≠ "" ∧ selectRefresh env s (d.hashToken old) = .ok t ∧
        t.usable client.id env.now = true ∧
        completes env (.refreshToken old) = true ∧
        access = signAccessToken cfg env.now t.grant ∧ refresh = env.raw := by
  by_cases hold : old = ""
  · simp [grantRefreshToken, hold]
  · cases hselect : selectRefresh env s (d.hashToken old) with
    | error e => simp [grantRefreshToken, hold, rotateRefreshToken, hselect]
    | ok t =>
      by_cases hreused : t.reused client.id = true
      · simp [grantRefreshToken, hold, rotateRefreshToken, hselect, hreused, RefreshRow.usable]
      · by_cases hexpired : t.expiresAt ≤ env.now
        · simp [grantRefreshToken, hold, rotateRefreshToken, hselect, hreused, hexpired,
            RefreshRow.usable]
        · have husable : t.usable client.id env.now = true := by
            simpa [RefreshRow.usable] using And.intro (by simpa using hreused) (not_le.mp hexpired)
          by_cases hmark : env.fate .markRotated = .ok
          · by_cases hsave : env.fate .saveSuccessor = .ok
            · simp [grantRefreshToken, hold, rotateRefreshToken, hselect, hreused, hexpired,
                hmark, hsave, completes, writeTokens_iff, husable]
            · simp [grantRefreshToken, hold, rotateRefreshToken, hselect, hreused, hexpired,
                hmark, hsave, completes]
          · simp [grantRefreshToken, hold, rotateRefreshToken, hselect, hreused, hexpired,
              hmark, completes]

/-- An access token is issued for the presented grant and no other. -/
theorem token_issues_iff {req : TokenRequest} {access : Claims} {refresh : String} :
    (token d cfg env s req).2 = .tokens access refresh ↔
      ∃ g, presentedGrant d env s req = some g ∧ completes env req.grant = true ∧
        access = signAccessToken cfg env.now g ∧ refresh = env.raw := by
  cases hclient : authenticateClient d env s req with
  | error reply =>
    have hreply : ∀ access refresh, reply ≠ .tokens access refresh := by
      rintro access refresh rfl
      simp only [authenticateClient] at hclient
      split at hclient
      · simp at hclient
      · split_ifs at hclient
        simp at hclient
    simp [token, presentedGrant, hclient, hreply]
  | ok client =>
    cases hgrant : req.grant with
    | authorizationCode code redirectURI verifier =>
      simp only [token, presentedGrant, hclient, hgrant, grantAuthorizationCode_iff]
      by_cases hcode : code = ""
      · simp [hcode]
      · cases hcheck : checkCode env s (d.hashToken code) with
        | error e => simp [hcode]
        | ok c =>
          by_cases hbinds : bindsCode d c client redirectURI verifier = true
          · simp [hcode, hbinds]
          · simp [hcode, hbinds]
    | refreshToken old =>
      simp only [token, presentedGrant, hclient, hgrant, grantRefreshToken_iff]
      by_cases hold : old = ""
      · simp [hold]
      · cases hselect : selectRefresh env s (d.hashToken old) with
        | error e => simp [hold]
        | ok t =>
          by_cases husable : t.usable client.id env.now = true
          · simp [hold, husable]
          · simp [hold, husable]
    | other => simp [token, presentedGrant, hclient, hgrant]

theorem token_of_presented (cfg : Config) {req : TokenRequest} {g : Grant}
    (hgrant : presentedGrant d env s req = some g) (hcompletes : completes env req.grant = true) :
    (token d cfg env s req).2 = .tokens (signAccessToken cfg env.now g) env.raw :=
  token_issues_iff.mpr ⟨g, hgrant, hcompletes, rfl, rfl⟩

/-- The resource server reads the site for a token of the grant while the token lasts. -/
def Readable (cfg : Config) (g : Grant) (siteID : ℕ) : Prop :=
  g.audience = cfg.audience ∧
    (cfg.requiredScope = "" ∨ cfg.requiredScope ∈ fields g.scope) ∧
    siteID ∈ g.siteIDs ∧ siteID ∈ cfg.allowedSiteIDs

instance (cfg : Config) (g : Grant) (siteID : ℕ) : Decidable (Readable cfg g siteID) :=
  inferInstanceAs (Decidable (_ ∧ _ ∧ _ ∧ _))

def oauthReads (cfg : Config) (c : Claims) (now : ℕ) (siteID : ℕ) : Bool :=
  (oauthPrincipal cfg c now).any (fun u => u.actorCanReadSite siteID)

private theorem accessTTL_pos (cfg : Config) : 0 < cfg.accessTTL := by
  simp only [Config.accessTTL, orDefault]
  split_ifs <;> omega

theorem oauthActorID_ne : oauthActorID ≠ uuidNil := by decide

theorem get_map_role (siteIDs : List ℕ) (role : Role) (siteID : ℕ) :
    Grants.get (siteIDs.map (fun id => (id, role))) siteID =
      if siteID ∈ siteIDs then some role else none := by
  induction siteIDs with
  | nil => rfl
  | cons id siteIDs ih =>
    by_cases h : id = siteID
    · simp [Grants.get, h]
    · have hrest : Grants.get ((id :: siteIDs).map (fun id => (id, role))) siteID =
          Grants.get (siteIDs.map (fun id => (id, role))) siteID := by simp [Grants.get, h]
      rw [hrest, ih]
      simp [Ne.symm h]

private theorem validateClaims_sign
    (cfg : Config) (g : Grant) {now issuedAt : ℕ} (hnow : issuedAt ≤ now) :
    validateClaims cfg (signAccessToken cfg issuedAt g) now = true ↔ g.audience = cfg.audience ∧
      (cfg.requiredScope = "" ∨ cfg.requiredScope ∈ fields g.scope) ∧
      now ≤ issuedAt + cfg.accessTTL + jwtLeeway := by
  have hexp : (signAccessToken cfg issuedAt g).exp ≠ 0 := by
    have httl := accessTTL_pos cfg
    simp only [signAccessToken]
    omega
  have hnbf : ¬ now + jwtLeeway < (signAccessToken cfg issuedAt g).nbf := by
    simp only [signAccessToken]
    omega
  simp only [validateClaims, hexp, hnbf, Bool.and_eq_true, Bool.or_eq_true, Bool.not_eq_true',
    Bool.or_eq_false_iff, Bool.and_eq_false_iff, decide_eq_true_eq, decide_eq_false_iff_not,
    List.contains_iff_mem, not_lt]
  simp only [signAccessToken]
  tauto

/-- A token that the server has signed reads for as long as it lasts. -/
theorem oauthReads_sign_iff {g : Grant} {now issuedAt siteID : ℕ} (hnow : issuedAt ≤ now) :
    oauthReads cfg (signAccessToken cfg issuedAt g) now siteID = true ↔
      Readable cfg g siteID ∧ now ≤ issuedAt + cfg.accessTTL + jwtLeeway := by
  have hclaims := validateClaims_sign cfg g hnow
  have hreads : (oauthUser cfg (signAccessToken cfg issuedAt g)).actorCanReadSite siteID = true ↔
      siteID ∈ g.siteIDs ∧ siteID ∈ cfg.allowedSiteIDs := by
    rw [actorCanReadSite_iff oauthActorID_ne rfl, canAccessSite_iff rfl]
    simp [grantsForToken, signAccessToken, get_map_role]
  by_cases hvalid : validateClaims cfg (signAccessToken cfg issuedAt g) now = true
  · obtain ⟨haud, hscope, hexp⟩ := hclaims.mp hvalid
    simp only [oauthReads, oauthPrincipal, hvalid, if_true, Option.any_some, hreads, Readable,
      haud, hscope, hexp, true_and, and_true]
  · simp only [oauthReads, oauthPrincipal, hvalid, if_false, Option.any_none, Bool.false_eq_true,
      false_iff]
    rintro ⟨⟨haud, hscope, -⟩, hexp⟩
    exact hvalid (hclaims.mpr ⟨haud, hscope, hexp⟩)

end Statnive.OAuthServer
