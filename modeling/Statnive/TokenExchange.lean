import Statnive.LabelledRuns
import Statnive.OAuthServer

/-!
# Exchanges at the token endpoint that overlap

A code or refresh token is looked up and spent under a mutex. Each query is a step of its own
here. Other requests, restarts and removals of rows run in between; without them a request is
answered as by `OAuthServer` (`token_alone`).
-/

namespace Statnive.TokenExchange

open OAuthServer LabelledRuns

/-- A code to be exchanged; `now` is read before the mutex is taken. -/
structure CodeExchange where
  client : Client
  code : String
  redirectURI : String
  verifier : String
  now : ℕ

/-- A refresh token to be exchanged for one with the secret `raw`. -/
structure RefreshExchange where
  client : Client
  old : String
  raw : String
  now : ℕ

/-- What a pair of tokens is issued for. -/
inductive Source where
  | code (hash : String)
  | refresh (hash : String)
  deriving DecidableEq

/-- What a request does next, with what it has read. -/
inductive Stage where
  | authenticate (req : TokenRequest)
  | lockCode (x : CodeExchange)
  | selectCode (x : CodeExchange)
  | burnCode (x : CodeExchange) (c : CodeRow)
  | saveRefresh (source : Source) (g : Grant)
  | lockRefresh (x : RefreshExchange)
  | selectRefresh (x : RefreshExchange)
  | selectFamily (hash : String) (familyID : ℕ)
  | revokeMembers (hash : String) (familyID : ℕ) (members : List RefreshRow)
  | markRotated (x : RefreshExchange) (t : RefreshRow)
  | saveSuccessor (x : RefreshExchange) (t : RefreshRow)
  | sign (source : Source) (g : Grant) (raw : String)
  | returned (reply : Reply)

/-- What the calls of the store have returned and the endpoint has issued. -/
inductive Event where
  /-- `ConsumeAuthCode` returned the code. -/
  | consumed (hash : String)
  /-- `RotateRefreshToken` returned the token. -/
  | rotated (hash : String) (familyID : ℕ)
  /-- `RotateRefreshToken` returned `ErrRefreshReused`. -/
  | reused (hash : String) (familyID : ℕ)
  | issued (source : Source)
  deriving DecidableEq

/-- The store has given out what `source` names. -/
def Event.spends (source : Source) : Event → Bool
  | .consumed hash => .code hash = source
  | .rotated hash _ => .refresh hash = source
  | _ => false

/-- The store with what has happened at it; secrets and families are never drawn twice. -/
structure Ledger where
  store : Store := {}
  hashes : List String := []
  families : List ℕ := []
  log : List Event := []

/-- `lock` is the request that holds the mutex. -/
structure State extends Ledger where
  lock : Option ℕ := none
  calls : List Stage := []

inductive Action where
  | saveCode (row : CodeRow) (fate : Fate)
  | register (clients : List Client)
  | request (req : TokenRequest)
  | proceed (i : ℕ) (env : Env)
  | remove (hashes : List String)
  | restart (version : ℕ)

def Ledger.record (l : Ledger) (e : Event) : Ledger := { l with log := l.log ++ [e] }

def Stage.waits : Stage → Bool
  | .lockCode _ | .lockRefresh _ => true
  | _ => false

def Stage.holds : Stage → Bool
  | .selectCode _ | .burnCode _ _ | .selectRefresh _ | .selectFamily _ _ | .revokeMembers _ _ _
  | .markRotated _ _ | .saveSuccessor _ _ => true
  | _ => false

/-- A pair of tokens is still to be issued for what has been spent. -/
def Stage.owes (source : Source) : Stage → Bool
  | .saveRefresh source' _ | .sign source' _ _ => source' = source
  | _ => false

/-- A request of an authenticated client up to the mutex. -/
def dispatch (env : Env) (client : Client) : TokenGrant → Stage
  | .authorizationCode code redirectURI verifier =>
    if code = "" then .returned (.oauthError 400 "invalid_request" "missing code")
    else .lockCode ⟨client, code, redirectURI, verifier, env.now⟩
  | .refreshToken old =>
    if old = "" then .returned (.oauthError 400 "invalid_request" "missing refresh_token")
    else .lockRefresh ⟨client, old, env.raw, env.now⟩
  | .other => .returned (.oauthError 400 "unsupported_grant_type"
      "only authorization_code and refresh_token are supported")

def invalidCode : Stage := .returned (.oauthError 400 "invalid_grant" "invalid or expired code")

def invalidRefresh : Stage := .returned (.oauthError 400 "invalid_grant" "invalid refresh token")

/-- A burnt code that belongs to the request leads to a new family of tokens. -/
def bound (d : Digests) (x : CodeExchange) (c : CodeRow) : Stage :=
  if bindsCode d c x.client x.redirectURI x.verifier then .saveRefresh (.code c.hash) c.grant
  else .returned (.oauthError 400 "invalid_grant" "code binding mismatch")

/-- A refresh token that is reused leads to its family, a good one to its rotation. -/
def checkRefresh (d : Digests) (x : RefreshExchange) (t : RefreshRow) : Stage :=
  if t.reused x.client.id then .selectFamily (d.hashToken x.old) t.familyID
  else if t.expiresAt ≤ x.now then invalidRefresh
  else .markRotated x t

/-- The ledger after the next query, and the query that follows. -/
def advance (d : Digests) (cfg : Config) (env : Env) (l : Ledger) : Stage → Ledger × Stage
  | .authenticate req => match authenticateClient d env l.store req with
    | .error reply => (l, .returned reply)
    | .ok client => (l, dispatch env client req.grant)
  | .lockCode x => (l, .selectCode x)
  | .selectCode x =>
    match checkCode { env with now := x.now } l.store (d.hashToken x.code) with
    | .error _ => (l, invalidCode)
    | .ok c => (l, .burnCode x c)
  | .burnCode x c =>
    let burnt := { l with
      store := l.store.putCode (env.fate .burnCode) { c with consumed := true } }
    if env.fate .burnCode = .ok then (burnt.record (.consumed c.hash), bound d x c)
    else (burnt, invalidCode)
  | .saveRefresh source g =>
    let row : RefreshRow :=
      { hash := d.hashToken env.raw, familyID := env.familyID, grant := g
        expiresAt := env.now + cfg.refreshTTL }
    ({ l with
        store := l.store.putRefresh (env.fate .saveRefresh) row
        hashes := row.hash :: l.hashes
        families := row.familyID :: l.families },
      if env.fate .saveRefresh = .ok then .sign source g env.raw
      else .returned (.oauthError 500 "server_error" "could not store token"))
  | .lockRefresh x => (l, .selectRefresh x)
  | .selectRefresh x => match selectRefresh env l.store (d.hashToken x.old) with
    | .error _ => (l, invalidRefresh)
    | .ok t => (l, checkRefresh d x t)
  | .selectFamily hash familyID =>
    if env.fate .selectFamily ≠ .ok then (l, invalidRefresh)
    else (l, .revokeMembers hash familyID
      (l.store.refresh.filter (fun r => r.familyID = familyID && !r.familyRevoked)))
  | .revokeMembers hash familyID [] => (l.record (.reused hash familyID), invalidRefresh)
  | .revokeMembers hash familyID (m :: members) =>
    let fate := env.fate (.revokeMember m.hash)
    ({ l with store := l.store.putRefresh fate { m with familyRevoked := true } },
      if fate = .ok then .revokeMembers hash familyID members else invalidRefresh)
  | .markRotated x t =>
    let spent := { t with hash := d.hashToken x.old, rotated := true }
    ({ l with store := l.store.putRefresh (env.fate .markRotated) spent },
      if env.fate .markRotated = .ok then .saveSuccessor x t else invalidRefresh)
  | .saveSuccessor x t =>
    let row := { t with hash := d.hashToken x.raw, rotated := false, familyRevoked := false }
    let saved := { l with
      store := l.store.putRefresh (env.fate .saveSuccessor) row
      hashes := d.hashToken x.raw :: l.hashes }
    if env.fate .saveSuccessor = .ok then
      (saved.record (.rotated (d.hashToken x.old) t.familyID),
        .sign (.refresh (d.hashToken x.old)) t.grant x.raw)
    else (saved, invalidRefresh)
  | .sign source g raw =>
    (if env.signs then l.record (.issued source) else l, .returned (writeTokens cfg env g raw))
  | .returned reply => (l, .returned reply)

/-- The secrets and families that a step draws are new. -/
def fresh (d : Digests) (env : Env) (l : Ledger) : Stage → Bool
  | .saveRefresh _ _ => d.hashToken env.raw ∉ l.hashes && env.familyID ∉ l.families
  | .saveSuccessor x _ => d.hashToken x.raw ∉ l.hashes
  | _ => true

def Store.remove (s : Store) (hashes : List String) : Store :=
  { s with
    codes := s.codes.filter (fun r => r.hash ∉ hashes)
    refresh := s.refresh.filter (fun r => r.hash ∉ hashes) }

/-- The mutex is released when the call of the store returns. -/
def proceed (d : Digests) (cfg : Config) (s : State) (i : ℕ) (env : Env) (stage : Stage) : State :=
  let next := advance d cfg env s.toLedger stage
  { next.1 with
    lock := if next.2.holds then some i else if stage.holds then none else s.lock
    calls := s.calls.set i next.2 }

/-- Consents save codes, the table of clients changes, merges and erasures remove rows. A
restart ends the requests and seeds the versions above those of the rows. -/
def step (d : Digests) (cfg : Config) (s : State) : Action → Option State
  | .saveCode row fate =>
    if row.hash ∈ s.hashes || row.consumed then none
    else some { s with store := s.store.putCode fate row, hashes := row.hash :: s.hashes }
  | .register clients => some { s with store := { s.store with clients := clients } }
  | .request req => some { s with calls := s.calls ++ [.authenticate req] }
  | .proceed i env => match s.calls[i]? with
    | none => none
    | some stage =>
      if stage.waits && s.lock.isSome then none
      else if fresh d env s.toLedger stage then some (proceed d cfg s i env stage)
      else none
  | .remove hashes => some { s with store := Store.remove s.store hashes }
  | .restart version =>
    if s.store.version ≤ version then
      some { s with store := { s.store with version := version }, lock := none, calls := [] }
    else none

variable {d : Digests} {cfg : Config} {env : Env} {l : Ledger} {s : State}

/-- The queries of a request that nothing runs between lead to the reply. -/
inductive Finishes (d : Digests) (cfg : Config) (env : Env) : Ledger → Stage → Store → Reply → Prop
  | returned {l : Ledger} {reply : Reply} : Finishes d cfg env l (.returned reply) l.store reply
  | next {l : Ledger} {stage : Stage} {store : Store} {reply : Reply}
      (new : fresh d env l stage = true)
      (rest : Finishes d cfg env (advance d cfg env l stage).1 (advance d cfg env l stage).2
        store reply) :
      Finishes d cfg env l stage store reply

private theorem exec_finishes {i : ℕ} {store : Store} {reply : Reply} {stage : Stage}
    (h : Finishes d cfg env s.toLedger stage store reply) (hcall : s.calls[i]? = some stage)
    (hlock : s.lock = if stage.holds then some i else none) :
    ∃ n t, exec (step d cfg) s (List.replicate n (.proceed i env)) = some t ∧
      t.store = store ∧ t.calls[i]? = some (.returned reply) := by
  generalize hledger : s.toLedger = l at h
  induction h generalizing s with
  | returned => exact ⟨0, s, rfl, hledger ▸ rfl, hcall⟩
  | @next l stage store reply hfresh _ ih =>
    subst hledger
    have hi : i < s.calls.length := (List.getElem?_eq_some_iff.mp hcall).1
    have hwaits : (stage.waits && s.lock.isSome) = false := by
      cases stage <;> simp [hlock, Stage.waits, Stage.holds]
    have hstep : step d cfg s (.proceed i env) = some (proceed d cfg s i env stage) := by
      simp [step, hcall, hwaits, hfresh]
    have hnext : (proceed d cfg s i env stage).lock =
        if (advance d cfg env s.toLedger stage).2.holds then some i else none := by
      simp only [proceed, hlock]
      split_ifs <;> rfl
    obtain ⟨n, t, hexec, ht⟩ := ih (s := proceed d cfg s i env stage)
      (by simp [proceed, hi]) hnext rfl
    exact ⟨n + 1, t, exec_cons.mpr ⟨_, hstep, hexec⟩, ht⟩

theorem sign_finishes (d : Digests) (cfg : Config) (env : Env) (l : Ledger) (source : Source)
    (g : Grant) (raw : String) :
    Finishes d cfg env l (.sign source g raw) l.store (writeTokens cfg env g raw) := by
  have hstore : (if env.signs then l.record (.issued source) else l).store = l.store := by
    split <;> rfl
  exact .next rfl (hstore ▸ .returned)

private theorem issue_finishes
    (hraw : d.hashToken env.raw ∉ l.hashes) (hfamily : env.familyID ∉ l.families)
    (source : Source) (g : Grant) :
    Finishes d cfg env l (.saveRefresh source g) (issueTokens d cfg env l.store g).1
      (issueTokens d cfg env l.store g).2 := by
  have hnew : fresh d env l (.saveRefresh source g) = true := by simp [fresh, hraw, hfamily]
  refine .next hnew ?_
  by_cases hsave : env.fate .saveRefresh = .ok
  · simpa [advance, issueTokens, hsave] using sign_finishes d cfg env _ source g env.raw
  · simpa [advance, issueTokens, hsave] using Finishes.returned

private theorem consume_finishes (hraw : d.hashToken env.raw ∉ l.hashes)
    (hfamily : env.familyID ∉ l.families) {client : Client} {code redirectURI verifier : String}
    (hcode : code ≠ "") :
    Finishes d cfg env l (.lockCode ⟨client, code, redirectURI, verifier, env.now⟩)
      (grantAuthorizationCode d cfg env l.store client code redirectURI verifier).1
      (grantAuthorizationCode d cfg env l.store client code redirectURI verifier).2 := by
  refine .next rfl (.next rfl ?_)
  simp only [grantAuthorizationCode, hcode, if_false, consumeAuthCode, advance]
  cases hcheck : checkCode env l.store (d.hashToken code) with
  | error e => exact .returned
  | ok c =>
    refine .next rfl ?_
    by_cases hburn : env.fate .burnCode = .ok
    · simp only [advance, hburn, if_true, bound]
      by_cases hbinds : bindsCode d c client redirectURI verifier = true
      · simp only [hbinds, if_true]
        let store := l.store.putCode .ok { c with consumed := true }
        let burnt := { l with store := store }.record (.consumed c.hash)
        have hraw : d.hashToken env.raw ∉ burnt.hashes := hraw
        exact issue_finishes hraw hfamily (.code c.hash) c.grant
      · simp only [hbinds, if_false, Bool.false_eq_true]
        exact .returned
    · simp only [advance, hburn, if_false]
      exact .returned

private theorem revoke_finishes
    (d : Digests) (cfg : Config) (env : Env) (l : Ledger) (hash : String)
    (familyID : ℕ) (members : List RefreshRow) :
    Finishes d cfg env l (.revokeMembers hash familyID members)
      (revokeMembers env l.store members).1
      (.oauthError 400 "invalid_grant" "invalid refresh token") := by
  induction members generalizing l with
  | nil => exact .next rfl .returned
  | cons m members ih =>
    refine .next rfl ?_
    by_cases hok : env.fate (.revokeMember m.hash) = .ok
    · simpa [advance, revokeMembers, hok] using ih _
    · simpa [advance, revokeMembers, hok, invalidRefresh] using Finishes.returned

private theorem rotate_finishes
    (hraw : d.hashToken env.raw ∉ l.hashes) {client : Client} {old : String}
    (hold : old ≠ "") :
    Finishes d cfg env l (.lockRefresh ⟨client, old, env.raw, env.now⟩)
      (grantRefreshToken d cfg env l.store client old).1
      (grantRefreshToken d cfg env l.store client old).2 := by
  refine .next rfl (.next rfl ?_)
  simp only [grantRefreshToken, hold, if_false, rotateRefreshToken, advance]
  cases hselect : selectRefresh env l.store (d.hashToken old) with
  | error e => exact .returned
  | ok t =>
    simp only [checkRefresh]
    by_cases hreused : t.reused client.id = true
    · simp only [hreused, if_true]
      refine .next rfl ?_
      by_cases hfamily : env.fate .selectFamily = .ok
      · simpa [advance, revokeFamily, hfamily] using revoke_finishes d cfg env l _ _ _
      · simpa [advance, revokeFamily, hfamily, invalidRefresh] using Finishes.returned
    · by_cases hexpired : t.expiresAt ≤ env.now
      · simp only [hreused, hexpired, if_true, if_false, Bool.false_eq_true]
        exact .returned
      · simp only [hreused, hexpired, if_false, Bool.false_eq_true]
        refine .next rfl ?_
        by_cases hmark : env.fate .markRotated = .ok
        · refine .next (by simp [advance, hmark, fresh, hraw]) ?_
          by_cases hsave : env.fate .saveSuccessor = .ok
          · simp only [advance, hmark, hsave, if_true, ne_eq, not_true, if_false]
            exact sign_finishes d cfg env _ _ t.grant env.raw
          · simpa [advance, hmark, hsave, invalidRefresh] using Finishes.returned
        · simpa [advance, hmark, invalidRefresh] using Finishes.returned

private theorem token_finishes
    (hraw : d.hashToken env.raw ∉ l.hashes) (hfamily : env.familyID ∉ l.families)
    (req : TokenRequest) :
    Finishes d cfg env l (.authenticate req) (token d cfg env l.store req).1
      (token d cfg env l.store req).2 := by
  refine .next rfl ?_
  simp only [token, advance]
  cases hclient : authenticateClient d env l.store req with
  | error reply => exact .returned
  | ok client =>
    cases hgrant : req.grant with
    | authorizationCode code redirectURI verifier =>
      simp only [dispatch]
      by_cases hcode : code = ""
      · simpa [grantAuthorizationCode, hcode] using Finishes.returned
      · simpa [hcode] using consume_finishes hraw hfamily hcode
    | refreshToken old =>
      simp only [dispatch]
      by_cases hold : old = ""
      · simpa [grantRefreshToken, hold] using Finishes.returned
      · simpa [hold] using rotate_finishes hraw hold
    | other => exact .returned

/-- Served while nobody holds the mutex, a request does what the endpoint does at once. -/
theorem token_alone {i : ℕ} {req : TokenRequest} (hcall : s.calls[i]? = some (.authenticate req))
    (hlock : s.lock = none) (hraw : d.hashToken env.raw ∉ s.hashes)
    (hfamily : env.familyID ∉ s.families) :
    ∃ n t, exec (step d cfg) s (List.replicate n (.proceed i env)) = some t ∧
      t.store = (token d cfg env s.store req).1 ∧
      t.calls[i]? = some (.returned (token d cfg env s.store req).2) :=
  exec_finishes (token_finishes hraw hfamily req) hcall hlock

end Statnive.TokenExchange
