import Mathlib.Data.List.Dedup
import Mathlib.Data.List.Sort
import Statnive.CacheRevocation
import Statnive.SiteRegistry

/-!
# Minting a token

A user of the dashboard mints a token for a program that reads in the user's place. The
sites of the token are clamped to those that the user has when it is minted, and are stored
with it.
-/

namespace Statnive.TokenMint

open AuthTypes AuthGuards CacheRevocation
open SiteRegistry (Unicode)
open IngestHandler (trimSpace)

def countActiveForUser (rows : List TokenRow) (userID : UserID) (now : ℕ) : ℕ :=
  (rows.filter (fun r => r.token.userID = userID && !r.revoked && unexpired r.token now)).length

/-- What a request to mint meets: the clock in unix nanoseconds, a new id and a new secret,
which are random, and the calls of the store that fail. -/
structure MintEnv where
  now : ℕ
  tokenID : ℕ
  raw : String
  countFails : Bool := false
  insertFails : Bool := false

/-- `Create`, where `none` is an error; `ttl` is in seconds, and zero never expires. -/
def createToken (sha256 : String → Hash) (env : MintEnv) (rows : List TokenRow) (userID : UserID)
    (name : String) (siteIDs : List ℕ) (role : Role) (ttl : ℕ) :
    Option (List TokenRow × MintedToken) :=
  if hid : userID = uuidNil then none
  else if !role.valid then none
  else if siteIDs = [] then none
  else if env.insertFails then none
  else
    let token : MintedToken :=
      ⟨env.tokenID, userID, name, siteIDs, role,
        if 0 < ttl then unixSeconds env.now + ttl else 0, hid⟩
    some (ReplacingTable.insert TokenRow.key TokenRow.stamp rows
      ⟨token, sha256 env.raw, false, env.now⟩, token)

theorem createToken_some {sha256 : String → Hash} {env : MintEnv} {rows rows' : List TokenRow}
    {userID : UserID} {name : String} {siteIDs : List ℕ} {role : Role} {ttl : ℕ}
    {token : MintedToken}
    (h : createToken sha256 env rows userID name siteIDs role ttl = some (rows', token)) :
    env.insertFails = false ∧ token.userID = userID ∧ token.siteIDs = siteIDs ∧
      token.role = role ∧ rows' = ReplacingTable.insert TokenRow.key TokenRow.stamp rows
        ⟨token, sha256 env.raw, false, env.now⟩ := by
  simp only [createToken] at h
  generalize (if 0 < ttl then unixSeconds env.now + ttl else 0) = expiresAt at h
  split_ifs at h with hid hrole hsites hfails
  obtain ⟨rfl, rfl⟩ := Prod.mk.inj (Option.some.inj h)
  exact ⟨by simpa using hfails, rfl, rfl, rfl, rfl⟩

structure MintDeps where
  unicode : Unicode
  sha256 : String → Hash
  maxPerUser : ℤ := 0
  defaultTTLDays : ℤ := 0

structure CreateRequest where
  name : String
  siteIDs : List ℕ := []
  role : String := ""
  ttlDays : ℤ := 0

def defaultMaxTokensPerUser : ℤ := 20
def defaultTokenTTLDays : ℤ := 90
def maxTokenNameLen : ℕ := 80
def maxTokenTTLDays : ℤ := 365

structure Refusal where
  status : ℕ
  message : String
  deriving DecidableEq

def hasPrefix (s start : String) : Bool := start.toList.isPrefixOf s.toList

/-- A session is asked for: a token does not beget another. -/
def mintingActor (actor : User) : Except Refusal User :=
  if actor.userID = uuidNil then .error ⟨403, "a dashboard session is required to mint tokens"⟩
  else if hasPrefix actor.username "api:" || hasPrefix actor.username "mcp-token:" then
    .error ⟨403, "a dashboard session is required to mint tokens"⟩
  else .ok actor

/-- The grants of the actor or, when there are none, the site of the users row. -/
def availableSites (actor : User) : Grants :=
  match actor.sites with
  | some (kv :: grants) => kv :: grants
  | _ => if actor.siteID ≠ 0 then [(actor.siteID, actor.role)] else []

def sortedSites (siteIDs : List ℕ) : List ℕ := siteIDs.insertionSort (· ≤ ·)

def sortedKeys (grants : Grants) : List ℕ := sortedSites (grants.map Prod.fst).dedup

/-- The loop over the requested sites; the error is the first site that is not the actor's. -/
def clampEach (avail : Grants) (role : Role) (out : List ℕ) : List ℕ → Except ℕ (List ℕ)
  | [] => .ok out
  | siteID :: siteIDs =>
    if out.contains siteID then clampEach avail role out siteIDs
    else if ({ role := role, sites := some avail } : User).canAccessSite siteID role then
      clampEach avail role (out ++ [siteID]) siteIDs
    else .error siteID

def clampSites (avail : Grants) (requested : List ℕ) (role : Role) : Except ℕ (List ℕ) :=
  if requested = [] then .ok (sortedKeys avail)
  else (clampEach avail role [] requested).map sortedSites

/-- A token only reads. -/
def tokenRole (u : Unicode) (raw : String) : Option Role :=
  let role := u.lowerString (trimSpace raw)
  if role = "" || role = "api" then some .api
  else if role = "viewer" then some .viewer
  else none

/-- In seconds. -/
def ttlFor (deps : MintDeps) (days : ℤ) : ℕ :=
  let configured := if deps.defaultTTLDays ≤ 0 then defaultTokenTTLDays else deps.defaultTTLDays
  let days := if days ≤ 0 then configured else days
  (min days maxTokenTTLDays).toNat * 86400

/-- What is to be created. -/
structure Scope where
  userID : UserID
  name : String
  siteIDs : List ℕ
  role : Role
  ttl : ℕ

def MintDeps.cap (deps : MintDeps) : ℤ :=
  if deps.maxPerUser ≤ 0 then defaultMaxTokensPerUser else deps.maxPerUser

def limitReached (deps : MintDeps) (env : MintEnv) (rows : List TokenRow) (userID : UserID) : Bool :=
  !env.countFails && deps.cap ≤ countActiveForUser rows userID env.now

/-- The checks of a decoded body. -/
def checkRequest (deps : MintDeps) (env : MintEnv) (rows : List TokenRow) (actor : User)
    (req : CreateRequest) : Except Refusal Scope :=
  let name := trimSpace req.name
  if name = "" || maxTokenNameLen < name.utf8ByteSize then
    .error ⟨400, "name required (1-80 chars)"⟩
  else match tokenRole deps.unicode req.role with
  | none => .error ⟨400, "role must be viewer or api"⟩
  | some role =>
    let avail := availableSites actor
    if avail = [] then .error ⟨403, "no site access"⟩
    else match clampSites avail req.siteIDs role with
    | .error siteID => .error ⟨403, "site " ++ toString siteID ++ " not in your access scope"⟩
    | .ok siteIDs =>
      if limitReached deps env rows actor.userID then
        .error ⟨409, "token limit reached (" ++ toString deps.cap ++ ") — revoke one first"⟩
      else .ok ⟨actor.userID, name, siteIDs, role, ttlFor deps req.ttlDays⟩

/-- The handler up to the insert; a body of `none` does not decode. -/
def checkMint (deps : MintDeps) (env : MintEnv) (rows : List TokenRow) (actor : User)
    (body : Option CreateRequest) : Except Refusal Scope :=
  match mintingActor actor, body with
  | .error refusal, _ => .error refusal
  | .ok _, none => .error ⟨400, "malformed body"⟩
  | .ok actor, some req => checkRequest deps env rows actor req

inductive MintReply where
  | refused (refusal : Refusal)
  | created (token : MintedToken) (raw : String)

def mintToken (deps : MintDeps) (env : MintEnv) (rows : List TokenRow) (actor : User)
    (body : Option CreateRequest) : List TokenRow × MintReply :=
  match checkMint deps env rows actor body with
  | .error refusal => (rows, .refused refusal)
  | .ok p => match createToken deps.sha256 env rows p.userID p.name p.siteIDs p.role p.ttl with
    | none => (rows, .refused ⟨500, "mint failed"⟩)
    | some (rows', token) => (rows', .created token env.raw)

/-- The route of the handler; the limit on requests per minute only refuses more. -/
def mintRoute (userSites : Option SitesStore) : Route :=
  ⟨some [.admin, .viewer], .hydrate userSites⟩

private theorem tokenRole_cases
    {u : Unicode} {raw : String} {role : Role} (h : tokenRole u raw = some role) :
    role = .api ∨ role = .viewer := by
  simp only [tokenRole] at h
  split_ifs at h
  · exact Or.inl (Option.some.inj h).symm
  · exact Or.inr (Option.some.inj h).symm

@[simp] theorem mem_sortedSites {siteIDs : List ℕ} {siteID : ℕ} :
    siteID ∈ sortedSites siteIDs ↔ siteID ∈ siteIDs :=
  (List.perm_insertionSort _ siteIDs).mem_iff

@[simp] theorem mem_sortedKeys {grants : Grants} {siteID : ℕ} :
    siteID ∈ sortedKeys grants ↔ siteID ∈ grants.map Prod.fst := by
  rw [sortedKeys, mem_sortedSites, List.mem_dedup]

private theorem clampEach_mem {avail : Grants} {role : Role} {requested out sites : List ℕ}
    (h : clampEach avail role out requested = .ok sites) (hout : ∀ id ∈ out, id ∈ avail.map Prod.fst) :
    (∀ id ∈ sites, id ∈ avail.map Prod.fst) ∧ ∀ id, id ∈ out ∨ id ∈ requested → id ∈ sites := by
  induction requested generalizing out with
  | nil =>
    obtain rfl := Except.ok.inj h
    exact ⟨hout, by simp⟩
  | cons siteID siteIDs ih =>
    rw [clampEach] at h
    split_ifs at h with hseen hacc
    · obtain ⟨hkeys, hmem⟩ := ih h hout
      refine ⟨hkeys, fun id hid => hmem id ?_⟩
      have hseen' : siteID ∈ out := by simpa using hseen
      rcases hid with hid | hid
      · exact Or.inl hid
      · rcases List.mem_cons.mp hid with rfl | hid
        · exact Or.inl hseen'
        · exact Or.inr hid
    · have hkey : siteID ∈ avail.map Prod.fst := by
        obtain ⟨got, hget, -⟩ := (canAccessSite_iff rfl siteID role).mp hacc
        obtain ⟨kv, hfind, -⟩ := Option.map_eq_some_iff.mp hget
        have hid : kv.1 = siteID := by simpa using List.find?_some hfind
        exact List.mem_map.mpr ⟨kv, List.mem_of_find?_eq_some hfind, hid⟩
      have hout' : ∀ id ∈ out ++ [siteID], id ∈ avail.map Prod.fst := by
        intro id hid
        rcases List.mem_append.mp hid with hid | hid
        · exact hout id hid
        · exact List.mem_singleton.mp hid ▸ hkey
      obtain ⟨hkeys, hmem⟩ := ih h hout'
      refine ⟨hkeys, fun id hid => hmem id ?_⟩
      rcases hid with hid | hid
      · exact Or.inl (List.mem_append_left _ hid)
      · rcases List.mem_cons.mp hid with rfl | hid
        · exact Or.inl (List.mem_append_right _ (List.mem_singleton_self _))
        · exact Or.inr hid

/-- The clamped sites are some of those available. -/
theorem clampSites_ok {avail : Grants} {requested sites : List ℕ} {role : Role}
    (h : clampSites avail requested role = .ok sites) (havail : avail ≠ []) :
    sites ≠ [] ∧ ∀ id ∈ sites, id ∈ avail.map Prod.fst := by
  by_cases hreq : requested = []
  · obtain rfl : sortedKeys avail = sites := by simpa [clampSites, hreq] using h
    obtain ⟨kv, hkv⟩ := List.exists_mem_of_ne_nil avail havail
    exact ⟨List.ne_nil_of_mem (mem_sortedKeys.mpr (List.mem_map_of_mem hkv)),
      fun id hid => mem_sortedKeys.mp hid⟩
  · rw [clampSites, if_neg hreq] at h
    cases hclamp : clampEach avail role [] requested with
    | error siteID => simp [hclamp, Except.map] at h
    | ok out =>
      obtain rfl : sortedSites out = sites := by simpa [hclamp, Except.map] using h
      obtain ⟨hkeys, hmem⟩ := clampEach_mem hclamp (by simp)
      obtain ⟨siteID, hsite⟩ := List.exists_mem_of_ne_nil requested hreq
      have hin : siteID ∈ sortedSites out := mem_sortedSites.mpr (hmem siteID (Or.inr hsite))
      exact ⟨List.ne_nil_of_mem hin, fun id hid => hkeys id (mem_sortedSites.mp hid)⟩

private theorem ttlFor_pos (deps : MintDeps) (days : ℤ) : 0 < ttlFor deps days := by
  have hdays : 0 < min (if days ≤ 0 then if deps.defaultTTLDays ≤ 0 then defaultTokenTTLDays
      else deps.defaultTTLDays else days) maxTokenTTLDays := by
    simp only [defaultTokenTTLDays, maxTokenTTLDays]
    split_ifs <;> omega
  simp only [ttlFor]
  omega

/-- A request that passes the checks, with its sites as they are clamped and room for it. -/
theorem checkRequest_scope {deps : MintDeps} {env : MintEnv} {rows : List TokenRow} {actor : User}
    {req : CreateRequest} {p : Scope} (h : checkRequest deps env rows actor req = .ok p) :
    p.userID = actor.userID ∧ (p.role = .api ∨ p.role = .viewer) ∧ 0 < p.ttl ∧
      availableSites actor ≠ [] ∧
      clampSites (availableSites actor) req.siteIDs p.role = .ok p.siteIDs ∧
      limitReached deps env rows actor.userID = false := by
  by_cases hname : (trimSpace req.name = "" ||
      maxTokenNameLen < (trimSpace req.name).utf8ByteSize) = true
  · simp only [checkRequest, hname, if_true, reduceCtorEq] at h
  · simp only [checkRequest, hname, if_false, Bool.false_eq_true] at h
    cases hrole : tokenRole deps.unicode req.role with
    | none => simp [hrole] at h
    | some role =>
      by_cases havail : availableSites actor = []
      · simp [hrole, havail] at h
      · simp only [hrole, havail, if_false] at h
        cases hclamp : clampSites (availableSites actor) req.siteIDs role with
        | error siteID => simp [hclamp] at h
        | ok siteIDs =>
          simp only [hclamp] at h
          split_ifs at h with hlimit
          obtain rfl := Except.ok.inj h
          exact ⟨rfl, tokenRole_cases hrole, ttlFor_pos deps req.ttlDays, havail, hclamp,
            by simpa using hlimit⟩

private theorem checkRequest_ok
    {deps : MintDeps} {env : MintEnv} {rows : List TokenRow} {actor : User}
    {req : CreateRequest} {p : Scope} (h : checkRequest deps env rows actor req = .ok p) :
    p.userID = actor.userID ∧ (p.role = .api ∨ p.role = .viewer) ∧ 0 < p.ttl ∧ p.siteIDs ≠ [] ∧
      ∀ id ∈ p.siteIDs, id ∈ (availableSites actor).map Prod.fst := by
  obtain ⟨huser, hrole, httl, havail, hclamp, -⟩ := checkRequest_scope h
  exact ⟨huser, hrole, httl, clampSites_ok hclamp havail⟩

theorem mintingActor_ok {actor u : User} (h : mintingActor actor = .ok u) :
    u = actor ∧ actor.userID ≠ uuidNil := by
  simp only [mintingActor] at h
  split_ifs at h with hid htoken
  exact ⟨(Except.ok.inj h).symm, hid⟩

/-- A request that passes the checks. -/
theorem checkMint_ok {deps : MintDeps} {env : MintEnv} {rows : List TokenRow} {actor : User}
    {body : Option CreateRequest} {p : Scope} (h : checkMint deps env rows actor body = .ok p) :
    actor.userID ≠ uuidNil ∧ p.userID = actor.userID ∧ (p.role = .api ∨ p.role = .viewer) ∧
      0 < p.ttl ∧ p.siteIDs ≠ [] ∧ ∀ id ∈ p.siteIDs, id ∈ (availableSites actor).map Prod.fst := by
  cases hactor : mintingActor actor with
  | error refusal => simp [checkMint, hactor] at h
  | ok u =>
    obtain ⟨rfl, hid⟩ := mintingActor_ok hactor
    cases body with
    | none => simp [checkMint, hactor] at h
    | some req =>
      simp only [checkMint, hactor] at h
      exact ⟨hid, checkRequest_ok h⟩

theorem checkMint_scope {deps : MintDeps} {env : MintEnv} {rows : List TokenRow} {actor : User}
    {body : Option CreateRequest} {p : Scope} (h : checkMint deps env rows actor body = .ok p) :
    clampSites (availableSites actor) ((body.map CreateRequest.siteIDs).getD []) p.role =
      .ok p.siteIDs := by
  cases hactor : mintingActor actor with
  | error refusal => simp [checkMint, hactor] at h
  | ok u =>
    obtain ⟨rfl, -⟩ := mintingActor_ok hactor
    cases body with
    | none => simp [checkMint, hactor] at h
    | some req =>
      simp only [checkMint, hactor] at h
      exact (checkRequest_scope h).2.2.2.2.1

/-- A request that passes the checks had its count below the cap, or none. -/
theorem checkMint_room {deps : MintDeps} {env : MintEnv} {rows : List TokenRow} {actor : User}
    {body : Option CreateRequest} {p : Scope} (h : checkMint deps env rows actor body = .ok p)
    (hcount : env.countFails = false) :
    (countActiveForUser rows actor.userID env.now : ℤ) < deps.cap := by
  cases hactor : mintingActor actor with
  | error refusal => simp [checkMint, hactor] at h
  | ok u =>
    obtain ⟨rfl, -⟩ := mintingActor_ok hactor
    cases body with
    | none => simp [checkMint, hactor] at h
    | some req =>
      simp only [checkMint, hactor] at h
      have hlimit := (checkRequest_scope h).2.2.2.2.2
      simpa [limitReached, hcount] using hlimit

/-- What a request leaves: the table as it was, or one more row, which is active. -/
theorem mintToken_cases (deps : MintDeps) (env : MintEnv) (rows : List TokenRow) (actor : User)
    (body : Option CreateRequest) :
    ((mintToken deps env rows actor body).1 = rows ∧
        ∀ p, checkMint deps env rows actor body = .ok p → env.insertFails = true) ∨
      ∃ p token, checkMint deps env rows actor body = .ok p ∧ env.insertFails = false ∧
        token.userID = actor.userID ∧ token.siteIDs = p.siteIDs ∧ token.role = p.role ∧
        unexpired token env.now = true ∧
        (mintToken deps env rows actor body).1 = ReplacingTable.insert TokenRow.key TokenRow.stamp
          rows ⟨token, deps.sha256 env.raw, false, env.now⟩ := by
  cases hcheck : checkMint deps env rows actor body with
  | error refusal => exact Or.inl ⟨by simp [mintToken, hcheck], by simp⟩
  | ok p =>
    obtain ⟨hid, hp, hrole, httl, hne, -⟩ := checkMint_ok hcheck
    have hvalid : p.role.valid = true := by rcases hrole with h | h <;> rw [h] <;> rfl
    have hid' : p.userID ≠ uuidNil := hp ▸ hid
    cases hfails : env.insertFails with
    | true =>
      refine Or.inl ⟨?_, fun _ _ => rfl⟩
      simp [mintToken, hcheck, createToken, hid', hvalid, hne, hfails]
    | false =>
      refine Or.inr ⟨p, ⟨env.tokenID, p.userID, p.name, p.siteIDs, p.role,
        unixSeconds env.now + p.ttl, hid'⟩, rfl, rfl, hp, rfl, rfl, ?_, ?_⟩
      · simp [unexpired, httl]
      · simp [mintToken, hcheck, createToken, hid', hvalid, hne, hfails, httl]

end Statnive.TokenMint
