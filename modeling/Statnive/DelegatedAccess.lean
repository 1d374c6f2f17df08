import Statnive.Offboarding
import Statnive.TokenConfinement

/-!
# What delegated credentials read after an offboarding

A minted token is checked against the table of tokens and, for the reports, against the
grants of the user who minted it. An access token is checked against nothing. Neither check
asks whether the user was disabled.
-/

namespace Statnive.DelegatedAccess

open AuthTypes AuthSessions AuthGuards CacheRevocation TokenMint TokenConfinement Offboarding
open OAuthServer (Readable oauthReads)
open LabelledRuns

def tokenDeps (cfg : Config) (s : State) (now : ℕ) : TokenDeps where
  sha256 := cfg.mint.sha256
  apiTokens := cfg.apiTokens
  dynamicTokens := some (fun hash => lookupActive s.tokens hash now)

/-- The reports of the dashboard, its list of sites, and the tools of the MCP server. -/
inductive Surface where
  | stats | listing | mcp

structure ReadRequest where
  surface : Surface
  auth : AuthRequest
  siteID : ℕ
  now : ℕ
  up : Bool := true

/-- The request is authorised to read the site. -/
def reads (cfg : Config) (s : State) (r : ReadRequest) : Bool :=
  let user := apiTokenMiddleware (tokenDeps cfg s r.now) r.auth
  match r.surface with
  | .stats => match (siteScoped (userSites cfg s.grants r.up)).serve r.auth user with
    | .next _ active => active = some r.siteID
    | _ => false
  | .listing => match (siteListing (userSites cfg s.grants r.up)).serve r.auth user with
    | .next u _ => u.actorCanReadSite r.siteID
    | _ => false
  | .mcp => user.any (fun u => u.actorCanReadSite r.siteID)

/-- The user was disabled, or lost the grant on the site. -/
def Ended (l : List Withdrawal) (userID : UserID) (siteID : ℕ) : Prop :=
  .user userID ∈ l ∨ .grant userID siteID ∈ l

instance (l : List Withdrawal) (userID : UserID) (siteID : ℕ) :
    Decidable (Ended l userID siteID) := inferInstanceAs (Decidable (_ ∨ _))

/-- No request that comes now or later with a token minted by the user is authorised to read
the site. -/
def TokensEnded (cfg : Config) (s : State) : Prop :=
  ∀ r m, s.clock ≤ r.now → MintedRequest (tokenDeps cfg s r.now) r.auth m →
    Ended s.offboarded m.userID r.siteID → reads cfg s r = false

/-- Nor is one with an access token that was issued afterwards for the user's consent. -/
def AccessEnded (cfg : Config) (s : State) : Prop :=
  ∀ i ∈ s.issued, ∀ siteID now, Ended i.after i.claims.sub siteID → s.clock ≤ now →
    oauthReads cfg.oauth i.claims (unixSeconds now) siteID = false

/-- What was delegated ends with the offboarding. -/
def DelegationEnds (cfg : Config) (s : State) : Prop := TokensEnded cfg s ∧ AccessEnded cfg s

/-- A token that the user has minted is active and lists the site. -/
def ActiveToken (cfg : Config) (s : State) (userID : UserID) (siteID : ℕ) (now : ℕ) : Prop :=
  ∃ r m, MintedRequest (tokenDeps cfg s now) r m ∧ m.userID = userID ∧ siteID ∈ m.siteIDs

/-- The user has no grants to go by, and the site of the users row stands in for them. -/
def FallsBack (u : User) : Prop := u.sites = none ∨ u.sites = some []

instance (u : User) : Decidable (FallsBack u) := inferInstanceAs (Decidable (_ ∨ _))

/-- An offboarding finds none of the user's tokens active for what it takes away, no token is
minted for a site of the users row whose grant was revoked, and no code or refresh token is
redeemed that lists a site its user was offboarded from. -/
def LeavesNothing (cfg : Config) (s : State) : Action → Prop
  | .disableUser userID now =>
    Disables s userID now → ∀ siteID, ¬ ActiveToken cfg s userID siteID now
  | .revokeGrant userID siteID now up =>
    Revokes s userID siteID now up → ¬ ActiveToken cfg s userID siteID now
  | .mint hash body env up => ∀ u p, minter cfg s hash env.now up = some u →
      checkMint cfg.mint env s.tokens u body = .ok p → env.insertFails = false →
      FallsBack u → .grant u.userID u.siteID ∉ s.offboarded
  | .token req env now => ∀ g,
      OAuthServer.presentedGrant cfg.digests (atTime env now) s.oauth req = some g →
      OAuthServer.completes (atTime env now) req.grant = true →
      ∀ siteID, Readable cfg.oauth g siteID → ¬ Ended s.offboarded g.userID siteID
  | _ => True

variable {cfg : Config} {s t : State}

/-- A token that is active was active before. -/
theorem lookupActive_earlier {rows : List TokenRow} {hash : Hash} {m : MintedToken}
    {now later : ℕ} (hle : now ≤ later) (h : lookupActive rows hash later = some m) :
    lookupActive rows hash now = some m := by
  cases hfind : rows.find? (fun r => r.hash = hash) with
  | none => simp [lookupActive, hfind] at h
  | some r =>
    simp only [lookupActive, hfind] at h ⊢
    split_ifs at h with hrevoked hlater
    have hnow := unexpired_earlier hle hlater
    simpa [hrevoked, hnow] using h

theorem lookupActive_mem {rows : List TokenRow} {hash : Hash} {m : MintedToken} {now : ℕ}
    (h : lookupActive rows hash now = some m) : ∃ r ∈ rows, r.hash = hash ∧ r.token = m := by
  cases hfind : rows.find? (fun r => r.hash = hash) with
  | none => simp [lookupActive, hfind] at h
  | some r =>
    simp only [lookupActive, hfind] at h
    split_ifs at h
    have hhash : r.hash = hash := by simpa using List.find?_some hfind
    exact ⟨r, List.mem_of_find?_eq_some hfind, hhash, Option.some.inj h⟩

/-- A token under a new hash is found by it, and the others are found as before. -/
theorem lookupActive_insert {rows : List TokenRow} (row : TokenRow) {now : ℕ}
    (hnew : ∀ r ∈ rows, r.hash ≠ row.hash) (hactive : row.revoked = false)
    (hunexpired : unexpired row.token now = true) (hash : Hash) :
    lookupActive (ReplacingTable.insert TokenRow.key TokenRow.stamp rows row) hash now =
      if hash = row.hash then some row.token else lookupActive rows hash now := by
  have hkeys : ∀ r ∈ rows, r.key ≠ row.key := fun r hr hk => hnew r hr (congrArg Prod.fst hk)
  by_cases hsame : hash = row.hash
  · have hnone : rows.find? (fun r => r.hash = hash) = none := by
      simpa [hsame] using hnew
    have hfind : (ReplacingTable.insert TokenRow.key TokenRow.stamp rows row).find?
        (fun r => r.hash = hash) = some row :=
      ReplacingTable.find?_insert_new hkeys hnone (by simp [hsame])
    rw [if_pos hsame]
    simp [lookupActive, hfind, hactive, hunexpired]
  · have hfind : (ReplacingTable.insert TokenRow.key TokenRow.stamp rows row).find?
        (fun r => r.hash = hash) = rows.find? (fun r => r.hash = hash) :=
      ReplacingTable.find?_insert_of_not (fun r hr _ => hkeys r hr) (by simpa using Ne.symm hsame)
    simp only [lookupActive, hfind, hsame, if_false]

theorem activeToken_iff {userID : UserID} {siteID now : ℕ} :
    ActiveToken cfg s userID siteID now ↔ ∃ raw m,
      cfg.apiTokens.find? (fun st => st.hashBytes = cfg.mint.sha256 raw) = none ∧
        lookupActive s.tokens (cfg.mint.sha256 raw) now = some m ∧ m.userID = userID ∧
        siteID ∈ m.siteIDs := by
  constructor
  · rintro ⟨r, m, ⟨-, raw, lookup, -, hstatic, hlookup, hm⟩, huser, hsite⟩
    obtain rfl := Option.some.inj hlookup
    exact ⟨raw, m, hstatic, hm, huser, hsite⟩
  · rintro ⟨raw, m, hstatic, hm, huser, hsite⟩
    exact ⟨{ bearerToken := some raw }, m, ⟨rfl, raw, _, rfl, hstatic, rfl, hm⟩, huser, hsite⟩

/-- Without a new token, no user gets an active one. -/
theorem activeToken_earlier (htokens : t.tokens = s.tokens) {userID : UserID}
    {siteID now later : ℕ} (hle : now ≤ later) (h : ActiveToken cfg t userID siteID later) :
    ActiveToken cfg s userID siteID now := by
  obtain ⟨raw, m, hstatic, hm, huser, hsite⟩ := activeToken_iff.mp h
  rw [htokens] at hm
  exact activeToken_iff.mpr ⟨raw, m, hstatic, lookupActive_earlier hle hm, huser, hsite⟩

theorem principal_reads_iff {m : MintedToken} (hrole : m.role.valid = true) {siteID : ℕ} :
    m.principal.actorCanReadSite siteID = true ↔ siteID ∈ m.siteIDs := by
  have hrank : roleRank m.role ≤ roleRank .api := by
    cases hcase : m.role <;> simp_all [Role.valid, roleRank]
  rw [actorCanReadSite_iff (principal_userID_ne m) rfl, canAccessSite_iff rfl]
  simp only [MintedToken.grants, OAuthServer.get_map_role]
  constructor
  · rintro ⟨got, hget, -⟩
    by_contra hmem
    simp [hmem] at hget
  · intro hmem
    exact ⟨m.role, if_pos hmem, hrank⟩

private theorem loads_siteScoped
    {grants : List GrantRow} {up : Bool} {userID : UserID} {loaded : Grants}
    (h : loads (siteScoped (userSites cfg grants up)).guard userID = some loaded) :
    loadUserSites grants userID = some loaded := by
  cases hflag : cfg.perSiteAdmin with
  | false => simp [siteScoped, userSites, hflag, loads] at h
  | true => cases up <;> simp_all [siteScoped, userSites, loads]

/-- A report is given for a site that the user has a grant on at the time. -/
theorem reads_stats {r : ReadRequest} {m : MintedToken}
    (hm : MintedRequest (tokenDeps cfg s r.now) r.auth m) (hsurface : r.surface = .stats)
    (h : reads cfg s r = true) :
    ∃ grants, loadUserSites s.grants m.userID = some grants ∧
      r.siteID ∈ grants.map Prod.fst := by
  simp only [reads, hsurface, apiTokenMiddleware_minted hm] at h
  cases hserve : (siteScoped (userSites cfg s.grants r.up)).serve r.auth (some m.principal) with
  | next u active =>
    obtain rfl : active = some r.siteID := by simpa [hserve] using h
    obtain ⟨-, hguard⟩ := (route_next_iff _ _ _ _ _).mp hserve
    cases hloads : loads (siteScoped (userSites cfg s.grants r.up)).guard m.userID with
    | none => simpa using (serve_of_loads_none hloads hguard).2
    | some grants =>
      obtain ⟨-, hactive⟩ := (serve_next_iff hloads).2 _ _ hguard
      obtain ⟨got, hget, -⟩ := hactive r.siteID rfl
      obtain ⟨kv, hfind, -⟩ := Option.map_eq_some_iff.mp hget
      have hkey : kv.1 = r.siteID := by simpa using List.find?_some hfind
      exact ⟨grants, loads_siteScoped hloads,
        List.mem_map.mpr ⟨kv, List.mem_of_find?_eq_some hfind, hkey⟩⟩
  | _ => simp [hserve] at h

private theorem reads_listed {r : ReadRequest} {m : MintedToken}
    (hm : MintedRequest (tokenDeps cfg s r.now) r.auth m) (hrole : m.role.valid = true)
    (hsurface : r.surface ≠ .stats) (h : reads cfg s r = true) : r.siteID ∈ m.siteIDs := by
  cases hcase : r.surface with
  | stats => exact absurd hcase hsurface
  | mcp =>
    rw [← principal_reads_iff hrole]
    simpa [reads, hcase, apiTokenMiddleware_minted hm] using h
  | listing =>
    simp only [reads, hcase, apiTokenMiddleware_minted hm] at h
    cases hserve : (siteListing (userSites cfg s.grants r.up)).serve r.auth (some m.principal) with
    | next u active =>
      obtain ⟨-, hguard⟩ := (route_next_iff _ _ _ _ _).mp hserve
      obtain ⟨rfl, -⟩ := serve_of_loads_none (rfl : loads (.hydrate _) _ = none) hguard
      rw [← principal_reads_iff hrole]
      simpa [hserve] using h
    | _ => simp [hserve] at h

theorem minted_row {r : AuthRequest} {m : MintedToken} {now : ℕ}
    (h : MintedRequest (tokenDeps cfg s now) r m) : ∃ row ∈ s.tokens, row.token = m := by
  obtain ⟨-, raw, lookup, -, -, hlookup, hm⟩ := h
  obtain rfl := Option.some.inj hlookup
  obtain ⟨row, hrow, -, htoken⟩ := lookupActive_mem hm
  exact ⟨row, hrow, htoken⟩

private theorem minted_earlier
    {r : AuthRequest} {m : MintedToken} {now later : ℕ} (hle : now ≤ later)
    (h : MintedRequest (tokenDeps cfg s later) r m) :
    MintedRequest (tokenDeps cfg s now) r m := by
  obtain ⟨hsession, raw, lookup, hraw, hstatic, hlookup, hm⟩ := h
  obtain rfl := Option.some.inj hlookup
  exact ⟨hsession, raw, _, hraw, hstatic, rfl, lookupActive_earlier hle hm⟩

/-- Tokens have ended when no active one lists a site that its user was offboarded from. -/
theorem tokensEnded_iff (hs : Inv s) : TokensEnded cfg s ↔ ∀ userID siteID,
    ActiveToken cfg s userID siteID s.clock → ¬ Ended s.offboarded userID siteID := by
  constructor
  · rintro h _ siteID ⟨r, m, hm, rfl, hsite⟩ hended
    obtain ⟨row, hrow, rfl⟩ := minted_row hm
    have hread := (principal_reads_iff (hs.tokens row hrow).2).mpr hsite
    have hrefused := h ⟨.mcp, r, siteID, s.clock, true⟩ row.token le_rfl hm hended
    simp [reads, apiTokenMiddleware_minted hm, hread] at hrefused
  · intro h r m hnow hm hended
    by_contra hreads
    rw [Bool.not_eq_false] at hreads
    obtain ⟨row, hrow, rfl⟩ := minted_row hm
    obtain ⟨hne, hrole⟩ := hs.tokens row hrow
    have hlisted : ∀ siteID ∈ row.token.siteIDs,
        ¬ Ended s.offboarded row.token.userID siteID := fun siteID hsite =>
      h row.token.userID siteID ⟨r.auth, row.token, minted_earlier hnow hm, rfl, hsite⟩
    by_cases hsurface : r.surface = .stats
    · rcases hended with hdisabled | hrevoked
      · obtain ⟨siteID, hsite⟩ := List.exists_mem_of_ne_nil _ hne
        exact hlisted siteID hsite (Or.inl hdisabled)
      · obtain ⟨grants, hload, hmem⟩ := reads_stats hm hsurface hreads
        exact (sitesRevocable 0).load_clean (row.token.userID, r.siteID) s.grants 0 0 _ grants
          (hs.revoked _ _ hrevoked) le_rfl hload ⟨rfl, hmem⟩
    · exact hlisted r.siteID (reads_listed hm hrole hsurface hreads) hended

theorem accessEnded_later (hissued : t.issued = s.issued) (hclock : s.clock ≤ t.clock)
    (h : AccessEnded cfg s) : AccessEnded cfg t := by
  intro i hi siteID now hended hnow
  exact h i (hissued ▸ hi) siteID now hended (hclock.trans hnow)

theorem ended_append {new old : List Withdrawal} {userID : UserID} {siteID : ℕ} :
    Ended (new ++ old) userID siteID ↔ Ended new userID siteID ∨ Ended old userID siteID := by
  simp only [Ended, List.mem_append]
  tauto

private theorem tokensEnded_later (hs : Inv s) (ht : Inv t) (h : TokensEnded cfg s)
    (htokens : t.tokens = s.tokens) (hclock : s.clock ≤ t.clock)
    (hoff : t.offboarded = s.offboarded) : TokensEnded cfg t := by
  rw [tokensEnded_iff ht, hoff]
  intro userID siteID hactive
  exact (tokensEnded_iff hs).mp h userID siteID (activeToken_earlier htokens hclock hactive)

/-- A step that hands out nothing leaves nothing when no active token is for what it takes
away. -/
theorem delegationEnds_offboard {new : List Withdrawal} (hs : Inv s) (ht : Inv t)
    (hends : DelegationEnds cfg s) (htokens : t.tokens = s.tokens) (hissued : t.issued = s.issued)
    (hclock : s.clock ≤ t.clock) (hoff : t.offboarded = new ++ s.offboarded) :
    DelegationEnds cfg t ↔ ∀ userID siteID, Ended new userID siteID →
      ¬ ActiveToken cfg s userID siteID t.clock := by
  have haccess := accessEnded_later hissued hclock hends.2
  simp only [DelegationEnds, haccess, and_true]
  rw [tokensEnded_iff ht]
  constructor
  · intro h userID siteID hended hactive
    apply h userID siteID (activeToken_earlier htokens.symm le_rfl hactive)
    rw [hoff, ended_append]
    exact Or.inl hended
  · intro h userID siteID hactive hended
    rw [hoff, ended_append] at hended
    rcases hended with hnew | hold
    · exact h userID siteID hnew (activeToken_earlier htokens le_rfl hactive)
    · exact (tokensEnded_iff hs).mp hends.1 userID siteID
        (activeToken_earlier htokens hclock hactive) hold

/-- A step that neither hands out nor takes away. -/
theorem delegationEnds_quiet (hs : Inv s) (ht : Inv t) (hends : DelegationEnds cfg s)
    (htokens : t.tokens = s.tokens) (hissued : t.issued = s.issued) (hclock : s.clock ≤ t.clock)
    (hoff : t.offboarded = s.offboarded) : DelegationEnds cfg t := by
  have hnone : t.offboarded = [] ++ s.offboarded := hoff
  apply (delegationEnds_offboard hs ht hends htokens hissued hclock hnone).mpr
  rintro userID siteID (h | h) <;> cases h

theorem after_now (s : State) (a : Action) : (after cfg s a).clock = a.now := by
  cases a with
  | login email password lockedOut hash now => simp only [after]; split <;> rfl
  | visit hash now => rfl
  | mint hash body env up => simp only [after]; split <;> rfl
  | authorize hash p env now up => simp only [after, afterAuthorize]; split <;> rfl
  | consent hash p decision env now up =>
    simp only [after, afterConsent]
    split
    · split_ifs <;> rfl
    · rfl
  | token req env now => simp only [after, afterToken]; split <;> rfl
  | disableUser userID now => rfl
  | revokeGrant userID siteID now up => rfl

/-- The user is disabled when none of the tokens minted by the user is active. -/
theorem disable_ends_iff (hs : Inv s) (hends : DelegationEnds cfg s) {userID : UserID} {now : ℕ}
    (hnow : s.clock ≤ now) : DelegationEnds cfg (afterDisable s userID now) ↔
      (Disables s userID now → ∀ siteID, ¬ ActiveToken cfg s userID siteID now) := by
  have ht := inv_afterDisable hs userID hnow
  by_cases hdis : Disables s userID now
  · have hoff : (afterDisable s userID now).offboarded = [.user userID] ++ s.offboarded :=
      if_pos hdis
    rw [delegationEnds_offboard hs ht hends rfl rfl hnow hoff]
    constructor
    · intro h _ siteID
      exact h userID siteID (Or.inl (List.mem_singleton_self _))
    · rintro h other siteID (hother | hother)
      · obtain rfl : other = userID := by simpa using hother
        exact h hdis siteID
      · simp at hother
  · have hoff : (afterDisable s userID now).offboarded = s.offboarded := if_neg hdis
    exact iff_of_true (delegationEnds_quiet hs ht hends rfl rfl hnow hoff) fun h => absurd h hdis

private theorem revoke_ends_iff (hs : Inv s) (hends : DelegationEnds cfg s) {userID : UserID}
    {siteID now : ℕ} {up : Bool} (hnow : s.clock ≤ now) :
    DelegationEnds cfg (afterRevoke s userID siteID now up) ↔
      (Revokes s userID siteID now up → ¬ ActiveToken cfg s userID siteID now) := by
  have ht := inv_afterRevoke hs userID siteID hnow up
  by_cases hrevokes : Revokes s userID siteID now up
  · have hoff : (afterRevoke s userID siteID now up).offboarded =
        [.grant userID siteID] ++ s.offboarded := if_pos hrevokes
    rw [delegationEnds_offboard hs ht hends rfl rfl hnow hoff]
    constructor
    · intro h _
      exact h userID siteID (Or.inr (List.mem_singleton_self _))
    · rintro h other site (hother | hother)
      · simp at hother
      · obtain ⟨rfl, rfl⟩ : other = userID ∧ site = siteID := by simpa using hother
        exact h hrevokes
  · have hoff : (afterRevoke s userID siteID now up).offboarded = s.offboarded := if_neg hrevokes
    exact iff_of_true (delegationEnds_quiet hs ht hends rfl rfl hnow hoff)
      fun h => absurd h hrevokes

/-- A token of a user without grants is for the site of the users row. -/
theorem mint_fallsBack {env : MintEnv} {rows : List TokenRow} {u : User}
    {body : Option CreateRequest} {p : Scope} (hback : FallsBack u)
    (h : checkMint cfg.mint env rows u body = .ok p) (siteID : ℕ) :
    siteID ∈ p.siteIDs ↔ siteID = u.siteID := by
  obtain ⟨-, -, -, -, hne, havail⟩ := checkMint_ok h
  have hown : ∀ id ∈ p.siteIDs, id = u.siteID := by
    intro id hid
    have hmem := havail id hid
    rcases hback with hsites | hsites <;>
      · simp only [availableSites, hsites] at hmem
        split_ifs at hmem <;> simp_all
  constructor
  · exact hown siteID
  · rintro rfl
    obtain ⟨id, hid⟩ := List.exists_mem_of_ne_nil _ hne
    exact hown id hid ▸ hid

/-- A token of a user with grants is for some of these. -/
theorem mint_loaded (hs : Inv s) {hash : Hash} {env : MintEnv} {up : Bool} {u : User}
    {body : Option CreateRequest} {p : Scope} (hminter : minter cfg s hash env.now up = some u)
    (hback : ¬ FallsBack u) (h : checkMint cfg.mint env s.tokens u body = .ok p) :
    ∀ siteID ∈ p.siteIDs, .grant u.userID siteID ∉ s.offboarded := by
  obtain ⟨-, -, -, -, -, havail⟩ := checkMint_ok h
  obtain ⟨u₀, -, -, hnone | ⟨grants, hload, hsites⟩⟩ := minter_some hminter
  · exact absurd (Or.inl hnone) hback
  · have hown : availableSites u = grants := by
      cases hgrants : grants with
      | nil => exact absurd (Or.inr (hsites.trans (congrArg some hgrants))) hback
      | cons kv rest => simp [availableSites, hsites, hgrants]
    intro siteID hsite hoff
    exact (sitesRevocable 0).load_clean (u.userID, siteID) s.grants 0 0 _ grants
      (hs.revoked _ _ hoff) le_rfl hload ⟨rfl, hown ▸ havail siteID hsite⟩

/-- The active tokens after a mint are those from before and the new one. -/
theorem activeToken_mint {hash : Hash} {body : Option CreateRequest} {env : MintEnv} {up : Bool}
    {token : MintedToken}
    (hen : Enabled cfg s (.mint hash body env up)) (hunexpired : unexpired token env.now = true)
    (htokens : t.tokens = ReplacingTable.insert TokenRow.key TokenRow.stamp s.tokens
      ⟨token, cfg.mint.sha256 env.raw, false, env.now⟩) (userID : UserID) (siteID : ℕ) :
    ActiveToken cfg t userID siteID env.now ↔
      (token.userID = userID ∧ siteID ∈ token.siteIDs) ∨
        ActiveToken cfg s userID siteID env.now := by
  have hlookup := lookupActive_insert ⟨token, cfg.mint.sha256 env.raw, false, env.now⟩
    hen.1 rfl hunexpired
  have hstatic : cfg.apiTokens.find? (fun st => st.hashBytes = cfg.mint.sha256 env.raw) = none := by
    simpa using hen.2
  simp only [activeToken_iff, htokens, hlookup]
  constructor
  · rintro ⟨raw, m, hnone, hm, huser, hsite⟩
    split_ifs at hm with hsame
    · obtain rfl := Option.some.inj hm
      exact Or.inl ⟨huser, hsite⟩
    · exact Or.inr ⟨raw, m, hnone, hm, huser, hsite⟩
  · rintro (⟨huser, hsite⟩ | ⟨raw, m, hnone, hm, huser, hsite⟩)
    · exact ⟨env.raw, token, hstatic, if_pos rfl, huser, hsite⟩
    · refine ⟨raw, m, hnone, ?_, huser, hsite⟩
      rw [if_neg, hm]
      intro hsame
      obtain ⟨row, hrow, hhash, -⟩ := lookupActive_mem hm
      exact hen.1 row hrow (hhash.trans hsame)

/-- A new token adds what it lists. -/
theorem delegationEnds_mint {hash : Hash} {body : Option CreateRequest} {env : MintEnv} {up : Bool}
    {token : MintedToken} (hs : Inv s) (ht : Inv t) (hends : DelegationEnds cfg s)
    (hnow : s.clock ≤ env.now) (hen : Enabled cfg s (.mint hash body env up))
    (hunexpired : unexpired token env.now = true)
    (htokens : t.tokens = ReplacingTable.insert TokenRow.key TokenRow.stamp s.tokens
      ⟨token, cfg.mint.sha256 env.raw, false, env.now⟩)
    (hissued : t.issued = s.issued) (hclock : t.clock = env.now)
    (hoff : t.offboarded = s.offboarded) :
    DelegationEnds cfg t ↔
      ∀ siteID ∈ token.siteIDs, ¬ Ended s.offboarded token.userID siteID := by
  have haccess := accessEnded_later hissued (hnow.trans_eq hclock.symm) hends.2
  simp only [DelegationEnds, haccess, and_true]
  rw [tokensEnded_iff ht, hclock, hoff]
  simp only [activeToken_mint hen hunexpired htokens]
  constructor
  · intro h siteID hsite
    exact h token.userID siteID (Or.inl ⟨rfl, hsite⟩)
  · rintro h userID siteID (⟨rfl, hsite⟩ | hold)
    · exact h siteID hsite
    · exact (tokensEnded_iff hs).mp hends.1 userID siteID (activeToken_earlier rfl hnow hold)

/-- A mint leaves nothing when it does not fall back on a site that was revoked. -/
theorem mint_ends_iff (hs : Inv s) (hends : DelegationEnds cfg s) {hash : Hash}
    {body : Option CreateRequest} {env : MintEnv} {up : Bool} (hnow : s.clock ≤ env.now)
    (hen : Enabled cfg s (.mint hash body env up)) :
    DelegationEnds cfg (after cfg s (.mint hash body env up)) ↔
      LeavesNothing cfg s (.mint hash body env up) := by
  have ht := inv_after hs (a := .mint hash body env up) hnow hen
  have hquiet : (after cfg s (.mint hash body env up)).tokens = s.tokens →
      DelegationEnds cfg (after cfg s (.mint hash body env up)) := by
    intro htokens
    have hclock : s.clock ≤ (after cfg s (.mint hash body env up)).clock :=
      hnow.trans_eq (after_now s (.mint hash body env up)).symm
    refine delegationEnds_quiet hs ht hends htokens ?_ hclock ?_ <;>
      · simp only [after]
        split <;> rfl
  cases hminter : minter cfg s hash env.now up with
  | none =>
    refine iff_of_true (hquiet (by simp only [after, hminter]; rfl)) ?_
    simp [LeavesNothing, hminter]
  | some u =>
    rcases mintToken_cases cfg.mint env s.tokens u body with ⟨hsame, hfails⟩ |
      ⟨p, token, hcheck, hinserts, huser, hsites, -, hunexpired, hinsert⟩
    · refine iff_of_true (hquiet (by simpa only [after, hminter] using hsame)) ?_
      intro v q hv hq hinserts
      obtain rfl : u = v := Option.some.inj (hminter.symm.trans hv)
      simp [hfails q hq] at hinserts
    · have hadds : DelegationEnds cfg (after cfg s (.mint hash body env up)) ↔
          ∀ siteID ∈ p.siteIDs, ¬ Ended s.offboarded u.userID siteID := by
        rw [← huser, ← hsites]
        apply delegationEnds_mint hs ht hends hnow hen hunexpired _ _
          (after_now s (.mint hash body env up))
        all_goals simp only [after, hminter]
        · rfl
        · exact hinsert
        · rfl
      obtain ⟨u₀, hu₀, hid, -⟩ := minter_some hminter
      have henabled : .user u.userID ∉ s.offboarded := hid ▸ sessionUser_user hs hu₀
      simp only [hadds, Ended, henabled, false_or]
      constructor
      · intro h v q hv hq _ hback
        obtain rfl : u = v := Option.some.inj (hminter.symm.trans hv)
        obtain rfl : p = q := Except.ok.inj (hcheck.symm.trans hq)
        exact h u.siteID ((mint_fallsBack hback hcheck u.siteID).mpr rfl)
      · intro h siteID hsite
        by_cases hback : FallsBack u
        · rw [(mint_fallsBack hback hcheck siteID).mp hsite]
          exact h u p hminter hcheck hinserts hback
        · exact mint_loaded hs hminter hback hcheck siteID hsite

/-- The access token of a grant reads nothing that its user was offboarded from when the grant
lists no such site. -/
theorem signed_ended_iff {g : OAuthServer.Grant} {l : List Withdrawal} {now : ℕ} :
    (∀ siteID later, Ended l g.userID siteID → now ≤ later → oauthReads cfg.oauth
        (OAuthServer.signAccessToken cfg.oauth (unixSeconds now) g) (unixSeconds later) siteID =
          false) ↔
      ∀ siteID, Readable cfg.oauth g siteID → ¬ Ended l g.userID siteID := by
  constructor
  · intro h siteID hreadable hended
    have hreads := (OAuthServer.oauthReads_sign_iff (le_refl (unixSeconds now))).mpr
      ⟨hreadable, by omega⟩
    simp [h siteID now hended le_rfl] at hreads
  · intro h siteID later hended hle
    by_contra hreads
    rw [Bool.not_eq_false, OAuthServer.oauthReads_sign_iff (unixSeconds_mono hle)] at hreads
    exact h siteID hreads.1 hended

/-- An exchange leaves nothing when it is not for a site that the user was offboarded from. -/
theorem token_ends_iff (hs : Inv s) (hends : DelegationEnds cfg s)
    {req : OAuthServer.TokenRequest} {env : OAuthServer.Env} {now : ℕ} (hnow : s.clock ≤ now) :
    DelegationEnds cfg (afterToken cfg s req env now) ↔
      LeavesNothing cfg s (.token req env now) := by
  have ht : Inv (afterToken cfg s req env now) := inv_after hs (a := .token req env now) hnow trivial
  cases hreply : (OAuthServer.token cfg.digests cfg.oauth (atTime env now) s.oauth req).2 with
  | tokens access refresh =>
    obtain ⟨g, hgrant, hcompletes, rfl, -⟩ := OAuthServer.token_issues_iff.mp hreply
    have hleaves : LeavesNothing cfg s (.token req env now) ↔
        ∀ siteID, Readable cfg.oauth g siteID → ¬ Ended s.offboarded g.userID siteID := by
      simp [LeavesNothing, hgrant, hcompletes]
    have hissued : (afterToken cfg s req env now).issued = s.issued ++
        [⟨OAuthServer.signAccessToken cfg.oauth (unixSeconds now) g, s.offboarded⟩] := by
      simp only [afterToken, hreply]
      rfl
    have htokens : TokensEnded cfg (afterToken cfg s req env now) := by
      apply tokensEnded_later hs ht hends.1
      all_goals simp only [afterToken, hreply]
      exact hnow
    have hclock : (afterToken cfg s req env now).clock = now := after_now s (.token req env now)
    rw [hleaves, ← signed_ended_iff]
    simp only [DelegationEnds, htokens, true_and, AccessEnded, hissued, hclock, List.forall_mem_append,
      List.forall_mem_singleton]
    constructor
    · intro h
      exact h.2
    · intro h
      refine ⟨fun i hi siteID later hended hle => ?_, h⟩
      exact hends.2 i hi siteID later hended (hnow.trans hle)
  | _ =>
    have hnone : ∀ g, OAuthServer.presentedGrant cfg.digests (atTime env now) s.oauth req = some g →
        OAuthServer.completes (atTime env now) req.grant ≠ true := by
      intro g hgrant hcompletes
      have hissued := OAuthServer.token_of_presented cfg.oauth hgrant hcompletes
      simp [hreply] at hissued
    refine iff_of_true ?_ fun g hgrant hcompletes => absurd hcompletes (hnone g hgrant)
    apply delegationEnds_quiet hs ht hends
    all_goals simp only [afterToken, hreply]
    exact hnow

private theorem step_ends_iff (hs : Inv s) (hends : DelegationEnds cfg s) {a : Action}
    (h : step cfg s a = some t) : DelegationEnds cfg t ↔ LeavesNothing cfg s a := by
  have ht := inv_step hs h
  obtain ⟨hnow, hen, rfl⟩ := step_eq h
  have hclock : s.clock ≤ (after cfg s a).clock := hnow.trans_eq (after_now s a).symm
  have hquiet := delegationEnds_quiet hs ht hends
  cases a with
  | login email password lockedOut hash now =>
    refine iff_of_true (hquiet ?_ ?_ hclock ?_) trivial
    all_goals simp only [after]; split <;> rfl
  | visit hash now => exact iff_of_true (hquiet rfl rfl hclock rfl) trivial
  | mint hash body env up => exact mint_ends_iff hs hends hnow hen
  | authorize hash p env now up =>
    refine iff_of_true (hquiet ?_ ?_ hclock ?_) trivial
    all_goals simp only [after, afterAuthorize]; split <;> rfl
  | consent hash p decision env now up =>
    refine iff_of_true (hquiet ?_ ?_ hclock ?_) trivial
    all_goals
      simp only [after, afterConsent]
      split
      · split_ifs <;> rfl
      · rfl
  | token req env now => exact token_ends_iff hs hends hnow
  | disableUser userID now => exact disable_ends_iff hs hends hnow
  | revokeGrant userID siteID now up => exact revoke_ends_iff hs hends hnow

/-- What a user has delegated ends with the offboarding throughout a run exactly when each step
of the run leaves nothing. -/
theorem delegation_ends_iff_along {as : List Action} (hs : Starts s)
    (h : exec (step cfg) s as = some t) :
    Throughout (step cfg) (DelegationEnds cfg) s as ↔ Along (step cfg) (LeavesNothing cfg) s as := by
  have hstarts : DelegationEnds cfg s := by
    constructor
    · intro r m _ _ hended
      simp [Ended, hs.offboarded] at hended
    · intro i hi
      simp [hs.issued] at hi
  exact throughout_iff_along_of (J := Inv) (A := fun _ => True)
    (fun s a t _ hinv _ hstep _ => inv_step hinv hstep)
    (fun s a t _ hinv hends hstep => step_ends_iff hinv hends hstep) h (fun _ _ => trivial)
    (inv_of_starts hs) hstarts

/-- A secret and its SHA-256 in hex. -/
def digests : List (String × String) :=
  [("AQEBAQEBAQEBAQEBAQEBAQEBAQEBAQEBAQEBAQEBAQE",
      "56d5fa7333f6d747db42c239407e5da4c32f4c79f35d092b134fd35a402d9c5c"),
    ("AgICAgICAgICAgICAgICAgICAgICAgICAgICAgICAgI",
      "6c1d63bbdab437c54368cbbd8886a886a79ad977297e265eebf1f5f5f01533b9"),
    ("AwMDAwMDAwMDAwMDAwMDAwMDAwMDAwMDAwMDAwMDAwM",
      "83bee072fbd3423f7481fc163821636ad8cfb73faef0dd0581f3979ea0c731b9"),
    ("BQUFBQUFBQUFBQUFBQUFBQUFBQUFBQUFBQUFBQUFBQU",
      "894e352d1d8cc10c303df8fd45a59ee97b30841bdbf60b47fa317c7fa4c95859")]

def sampleConfig : Config where
  verifyPassword := fun hash password => hash = "$2a$12$ann" && password = "correct horse"
  defaultSiteID := 1
  sessionTTL := 1209600
  perSiteAdmin := true
  mint := { unicode := SiteRegistry.sampleUnicode, sha256 := sampleDeps.sha256 }
  digests :=
    { hashToken := fun raw => ((digests.find? (fun kv => kv.1 = raw)).map Prod.snd).getD ""
      s256 := fun verifier =>
        if verifier = "BAQEBAQEBAQEBAQEBAQEBAQEBAQEBAQEBAQEBAQEBAQ" then
          "T2o7tabHLReFa-FfYudH74jfgTnww4QRyFARZMHBvdg"
        else "" }
  oauth :=
    { issuer := "https://stats.example", audience := "https://stats.example/mcp"
      allowedSiteIDs := [1] }
  sitesTTL := 60

def ann : User where
  userID := 7
  siteID := 1
  email := "ann@shop.example"
  role := .viewer

/-- One user with one grant, and one client. -/
def annsSite : State where
  auth := { store := ⟨⟨[⟨ann, "$2a$12$ann"⟩], []⟩, fun _ => none, fun _ => [], 60⟩, clock := 100 }
  grants := [⟨7, 1, .viewer, false, 100⟩]
  oauth :=
    { clients := [⟨"assistant", "894e352d1d8cc10c303df8fd45a59ee97b30841bdbf60b47fa317c7fa4c95859", ["https://chat.example/callback"], false⟩] }
  clock := 100000000000

def cookie : Hash := List.replicate 32 1

def annsParams : OAuthServer.Params where
  clientID := "assistant"
  redirectURI := "https://chat.example/callback"
  codeChallenge := "T2o7tabHLReFa-FfYudH74jfgTnww4QRyFARZMHBvdg"

def assistantRequest (grant : OAuthServer.TokenGrant) : OAuthServer.TokenRequest where
  clientID := "assistant"
  clientSecret := "BQUFBQUFBQUFBQUFBQUFBQUFBQUFBQUFBQUFBQUFBQU"
  grant := grant

def secret (raw : String) : OAuthServer.Env := { now := 0, raw := raw, familyID := 3 }

/-- The user mints a token and consents to the assistant, which redeems its code; then the user
is disabled, and the assistant refreshes. -/
def annIsDisabled : List Action :=
  [.login "ann@shop.example" "correct horse" false cookie 101000000000,
    .mint cookie (some { name := "agent", siteIDs := [1] })
      { now := 102000000000, tokenID := 5, raw := rawToken } true,
    .consent cookie annsParams ⟨true, ["1"]⟩
      (secret "AQEBAQEBAQEBAQEBAQEBAQEBAQEBAQEBAQEBAQEBAQE") 103000000000 true,
    .token (assistantRequest (.authorizationCode "AQEBAQEBAQEBAQEBAQEBAQEBAQEBAQEBAQEBAQEBAQE"
        "https://chat.example/callback" "BAQEBAQEBAQEBAQEBAQEBAQEBAQEBAQEBAQEBAQEBAQ"))
      (secret "AgICAgICAgICAgICAgICAgICAgICAgICAgICAgICAgI") 104000000000,
    .disableUser 7 105000000000,
    .token (assistantRequest (.refreshToken "AgICAgICAgICAgICAgICAgICAgICAgICAgICAgICAgI"))
      (secret "AwMDAwMDAwMDAwMDAwMDAwMDAwMDAwMDAwMDAwMDAwM") 106000000000]

theorem annsSite_starts : Starts annsSite where
  auth :=
    { users := by simp [annsSite, AuthStore.UserKeys, AuthStore.OwnKey]
      userVersions := by decide
      sessions := by simp [annsSite, SessionKeys]
      sessionVersions := by simp [annsSite]
      clock := by decide
      items := fun _ => rfl
      condemned := rfl }
  clock := by decide
  grants := by decide
  tokens := by decide
  issued := rfl
  offboarded := rfl

theorem delegation_ends_iff_along_annIsDisabled :
    Throughout (step sampleConfig) (DelegationEnds sampleConfig) annsSite annIsDisabled ↔
      Along (step sampleConfig) (LeavesNothing sampleConfig) annsSite annIsDisabled := by
  have hruns : (exec (step sampleConfig) annsSite annIsDisabled).isSome = true := by decide +kernel
  exact delegation_ends_iff_along annsSite_starts (Option.eq_some_of_isSome hruns)

/-- The minted token and the refreshed access token both read the site after the user was
disabled. -/
theorem disabled_user_reads : Starts annsSite ∧
    ∃ t, exec (step sampleConfig) annsSite annIsDisabled = some t ∧
      ¬ TokensEnded sampleConfig t ∧ ¬ AccessEnded sampleConfig t := by
  have hreads : (exec (step sampleConfig) annsSite annIsDisabled).any (fun t =>
      reads sampleConfig t ⟨.mcp, { bearerToken := some rawToken }, 1, t.clock, true⟩ &&
        (lookupActive t.tokens rawTokenHash t.clock).any
          (fun m => decide (Ended t.offboarded m.userID 1)) &&
        t.issued.any (fun i => decide (Ended i.after i.claims.sub 1) &&
          oauthReads sampleConfig.oauth i.claims (unixSeconds t.clock) 1)) = true := by
    decide +kernel
  obtain ⟨t, ht, hreads⟩ := (Option.any_eq_true _ _).mp hreads
  simp only [Bool.and_eq_true] at hreads
  obtain ⟨⟨hread, hactive⟩, hissued⟩ := hreads
  refine ⟨annsSite_starts, t, ht, ?_, ?_⟩
  · obtain ⟨m, hm, hended⟩ := (Option.any_eq_true _ _).mp hactive
    intro hends
    have hrefused := hends ⟨.mcp, { bearerToken := some rawToken }, 1, t.clock, true⟩ m le_rfl
      ⟨rfl, rawToken, _, rfl, rfl, rfl, hm⟩ (of_decide_eq_true hended)
    simp [hread] at hrefused
  · obtain ⟨i, hi, hafter⟩ := List.any_eq_true.mp hissued
    obtain ⟨hended, hreadable⟩ := (Bool.and_eq_true _ _).mp hafter
    intro hends
    have hrefused := hends i hi 1 t.clock (of_decide_eq_true hended) le_rfl
    simp [hreadable] at hrefused

end Statnive.DelegatedAccess
