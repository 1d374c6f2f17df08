import Statnive.JwksCache

/-!
# Rotation of the signing key

The authorization server signs with the key that it was last started with and publishes it with
the retired ones; the resource server has what it fetched. Tokens are presented at any time, by
anyone, while keys are rotated and fetches are under way.
-/

namespace Statnive.KeyRotation

open PrivacyPolicy JSONInto AccessTokens KeySets LabelledRuns
open License (dot)
open OAuthServer (Config Grant)

/-- The `kid` that `verifyToken` looks up, unless it refuses the token before. -/
def askedKID (raw : Bytes) : Option String :=
  match raw.splitOn dot with
  | [part₀, _, _] => do
    let hdrBytes ← Base64URL.decode part₀
    let hdr ← unmarshal (intoStruct headerFields) {} hdrBytes
    if hdr.alg ≠ "RS256" ∧ hdr.alg ≠ "ES256" then none else some hdr.kid
  | _ => none

variable {sch : Schemes}

/-- A token that the authorization server has issued, at this unix time. -/
structure Issued (sch : Schemes) where
  priv : sch.PrivateKey
  grant : Grant
  issuedAt : ℕ
  jti : String

/-- A token that is presented, with the time in nanoseconds; its thread, where it asks for a
key. -/
structure Request where
  raw : Bytes
  arrived : ℕ
  thread : Option ℕ
  deriving DecidableEq

/-- `loaded` records the public keys that the authorization server has been started with. -/
structure State (sch : Schemes) where
  cache : JwksCache.State := {}
  ring : KeyRing sch
  loaded : List RSAKey
  issued : List (Issued sch) := []
  requests : List Request := []

def State.start (ring : KeyRing sch) : State sch where
  ring := ring
  loaded := ring.publics

inductive Action (sch : Schemes) where
  | cache (a : JwksCache.Action)
  | load (ring : KeyRing sch)
  | issue (grant : Grant) (jti : String)
  | present (raw : Bytes)

def unix (now : ℕ) : ℕ := now / 10 ^ 9

section System

variable (sha256 : Bytes → Bytes)

/-- What is served is the document of the keys that are loaded. -/
def State.serves (s : State sch) : JwksCache.Action → Bool
  | .serve _ body => body = marshalJWKS (s.ring.published sha256)
  | _ => true

def State.present (s : State sch) (raw : Bytes) : Option (State sch) :=
  match askedKID raw with
  | none => some { s with requests := s.requests ++ [⟨raw, s.cache.now, none⟩] }
  | some kid => (JwksCache.step s.cache (.ask kid)).map fun cache => { s with
    cache := cache
    requests := s.requests ++ [⟨raw, s.cache.now, some s.cache.threads.length⟩] }

def step (s : State sch) : Action sch → Option (State sch)
  | .cache a =>
    if s.serves sha256 a then (JwksCache.step s.cache a).map fun cache => { s with cache := cache }
    else none
  | .load ring => some { s with ring := ring, loaded := ring.publics ++ s.loaded }
  | .issue grant jti =>
    some { s with issued := ⟨s.ring.priv, grant, unix s.cache.now, jti⟩ :: s.issued }
  | .present raw => s.present raw

def Issued.token (cfg : Config) (t : Issued sch) : Bytes :=
  (signingKey sha256 t.priv).signAccessToken cfg t.grant t.issuedAt t.jti

/-- The claims of the token, as `OAuthServer` has them. -/
def Issued.claims (cfg : Config) (t : Issued sch) : OAuthServer.Claims :=
  OAuthServer.signAccessToken cfg t.issuedAt t.grant

end System

/-- What has become of a request: no answer yet, or a principal or none. -/
def State.outcome (cfg : Config) (s : State sch) (r : Request) : Option (Option AuthTypes.User) :=
  match r.thread with
  | none => some (principal sch (fun _ => none) cfg r.raw (Int64.ofNat (unix r.arrived)))
  | some i => s.cache.threads[i]?.bind fun t => match t.phase with
    | .answered (.found pub) =>
      some (principal sch (fun _ => some pub) cfg r.raw (Int64.ofNat (unix r.arrived)))
    | .answered _ => some none
    | _ => none

private theorem principal_none (cfg : Config) (raw : Bytes) (now : Int64) :
    principal sch (fun _ => none) cfg raw now = none := by
  rw [principal]
  cases hverify : verifyToken sch (fun _ => none) cfg raw now with
  | error e => rfl
  | ok c =>
    obtain ⟨_, _, _, _, _, _, _, -, -, hkey, -⟩ := verifyToken_ok hverify
    cases hkey

private theorem askedKID_sign (k : SigningKey sch) (c : AccessClaims) :
    askedKID (k.sign c) = some k.kid := by
  rw [askedKID, splitOn_sign]
  simp [Base64URL.decode_encode, unmarshal_marshalHeader]

variable {sha256 : Bytes → Bytes} {s s' : State sch}

theorem cache_step {a : JwksCache.Action} (h : step sha256 s (.cache a) = some s') :
    s.serves sha256 a = true ∧
      ∃ cache, JwksCache.step s.cache a = some cache ∧ s' = { s with cache := cache } := by
  obtain ⟨hserves, h⟩ := Option.ite_none_right_eq_some.mp h
  obtain ⟨cache, hcache, rfl⟩ := Option.map_eq_some_iff.mp h
  exact ⟨hserves, cache, hcache, rfl⟩

theorem present_step {raw : Bytes} (h : step sha256 s (.present raw) = some s') :
    (askedKID raw = none ∧
        s' = { s with requests := s.requests ++ [⟨raw, s.cache.now, none⟩] }) ∨
      ∃ kid cache, askedKID raw = some kid ∧ JwksCache.step s.cache (.ask kid) = some cache ∧
        s' = { s with
          cache := cache
          requests := s.requests ++ [⟨raw, s.cache.now, some s.cache.threads.length⟩] } := by
  rw [step, State.present] at h
  split at h
  next hkid => exact .inl ⟨hkid, (Option.some.inj h).symm⟩
  next kid hkid =>
    obtain ⟨cache, hcache, rfl⟩ := Option.map_eq_some_iff.mp h
    exact .inr ⟨kid, cache, hkid, hcache, rfl⟩

/-- Keys under their thumbprints that the authorization server was started with. -/
def FromLoaded (sha256 : Bytes → Bytes) (loaded : List RSAKey) (keys : List (String × PublicKey)) :
    Prop :=
  ∀ k ∈ keys, ∃ pub ∈ loaded, k = (thumbprint sha256 pub, .rsa pub)

/-- The thread of a request is there, with what it asks for. -/
def Request.Waits (r : Request) (threads : List JwksCache.Thread) : Prop :=
  ∀ i, r.thread = some i →
    ∃ t, threads[i]? = some t ∧ t.kid = askedKID r.raw ∧ t.asked = r.arrived

structure Inv (sha256 : Bytes → Bytes) (s : State sch) : Prop where
  cache : JwksCache.Inv s.cache
  sourced : JwksCache.Sourced (FromLoaded sha256 s.loaded) s.cache
  ring : s.ring.Servable sha256
  loaded : ∀ pub ∈ s.ring.publics, pub ∈ s.loaded
  requests : ∀ r ∈ s.requests, r.Waits s.cache.threads
  asks : ∀ r ∈ s.requests, r.thread = none → askedKID r.raw = none

/-- The keys that the authorization server is started with can be served. -/
def Loads (Q : KeyRing sch → Prop) : Action sch → Prop
  | .load ring => Q ring
  | _ => True

theorem inv_start {ring : KeyRing sch} (hring : ring.Servable sha256) :
    Inv sha256 (State.start ring) where
  cache := JwksCache.inv_init
  sourced := JwksCache.sourced_init
  ring := hring
  loaded _ h := h
  requests _ h := by cases h
  asks _ h := by cases h

/-- What is served has keys that were loaded. -/
theorem Inv.serves (h : Inv sha256 s) {a : JwksCache.Action} (ha : s.serves sha256 a = true)
    {Q : List (String × PublicKey) → Prop}
    (hQ : Q (s.ring.publics.map fun pub => (thumbprint sha256 pub, .rsa pub))) :
    JwksCache.Serves Q a := by
  cases a with
  | serve i body =>
    obtain rfl := of_decide_eq_true ha
    intro keys hkeys
    obtain rfl := Option.some.inj (h.ring.parseKeys.symm.trans hkeys)
    exact hQ
  | _ => trivial

theorem Inv.publics (h : Inv sha256 s) : FromLoaded sha256 s.loaded
    (s.ring.publics.map fun pub => (thumbprint sha256 pub, .rsa pub)) := by
  intro k hk
  obtain ⟨pub, hpub, rfl⟩ := List.mem_map.mp hk
  exact ⟨pub, h.loaded pub hpub, rfl⟩

theorem waits_step {a : JwksCache.Action} {c c' : JwksCache.State} {r : Request}
    (hstep : JwksCache.step c a = some c') (h : r.Waits c.threads) : r.Waits c'.threads := by
  intro i hi
  obtain ⟨t, ht, hkid, hasked⟩ := h i hi
  obtain ⟨u, hu, hkid', hasked'⟩ := JwksCache.thread_step hstep ht
  exact ⟨u, hu, hkid'.trans hkid, hasked'.trans hasked⟩

theorem inv_step {a : Action sch} (h : Inv sha256 s) (ha : Loads (KeyRing.Servable sha256) a)
    (hstep : step sha256 s a = some s') : Inv sha256 s' := by
  cases a with
  | cache a =>
    obtain ⟨hserves, cache, hcache, rfl⟩ := cache_step hstep
    have hsourced := JwksCache.sourced_step h.sourced (h.serves hserves h.publics) hcache
    exact ⟨JwksCache.inv_step h.cache hcache, hsourced, h.ring, h.loaded,
      fun r hr => waits_step hcache (h.requests r hr), h.asks⟩
  | load ring =>
    obtain rfl := Option.some.inj hstep
    refine ⟨h.cache, h.sourced.mono fun keys hkeys k hk => ?_, ha,
      fun pub hpub => List.mem_append_left _ hpub, h.requests, h.asks⟩
    obtain ⟨pub, hpub, hk⟩ := hkeys k hk
    exact ⟨pub, List.mem_append_right _ hpub, hk⟩
  | issue grant jti =>
    obtain rfl := Option.some.inj hstep
    exact ⟨h.cache, h.sourced, h.ring, h.loaded, h.requests, h.asks⟩
  | present raw =>
    obtain ⟨hkid, rfl⟩ | ⟨kid, cache, hkid, hcache, rfl⟩ := present_step hstep
    · refine ⟨h.cache, h.sourced, h.ring, h.loaded, fun r hr => ?_, fun r hr hnone => ?_⟩
      · rcases List.mem_append.mp hr with hr | hr
        · exact h.requests r hr
        · obtain rfl := List.mem_singleton.mp hr
          intro i hi
          cases hi
      · rcases List.mem_append.mp hr with hr | hr
        · exact h.asks r hr hnone
        · obtain rfl := List.mem_singleton.mp hr
          exact hkid
    · have hsourced := JwksCache.sourced_step h.sourced
        (by trivial : JwksCache.Serves _ (.ask kid)) hcache
      refine ⟨JwksCache.inv_step h.cache hcache, hsourced, h.ring, h.loaded, fun r hr => ?_,
        fun r hr hnone => ?_⟩
      · rcases List.mem_append.mp hr with hr | hr
        · exact waits_step hcache (h.requests r hr)
        · obtain rfl := List.mem_singleton.mp hr
          obtain rfl := Option.some.inj hcache
          intro i hi
          obtain rfl := Option.some.inj hi
          exact ⟨s.cache.ask kid, List.getElem?_concat_length, hkid.symm, rfl⟩
      · rcases List.mem_append.mp hr with hr | hr
        · exact h.asks r hr hnone
        · obtain rfl := List.mem_singleton.mp hr
          cases hnone

/-- With the keys that the authorization server has been started with nothing is signed but the
tokens that it issues. -/
def Unforged (sha256 : Bytes → Bytes) (cfg : Config) (s : State sch) (raw : Bytes) : Prop :=
  ∀ pub ∈ s.loaded, ∀ part₀ part₁ part₂ sig, raw.splitOn dot = [part₀, part₁, part₂] →
    Base64URL.decode part₂ = some sig → sch.verifyRSA pub (part₀ ++ dot :: part₁) sig = true →
    ∃ t ∈ s.issued, part₀ ++ dot :: part₁ =
      signingInput (signingKey sha256 t.priv).kid (accessClaims cfg t.grant t.issuedAt t.jti)

/-- A token whose first two segments are a signing input has these claims. -/
theorem segments_of_signingInput {raw part₀ part₁ part₂ : Bytes} {kid : String} {c : AccessClaims}
    (hsplit : raw.splitOn dot = [part₀, part₁, part₂])
    (h : part₀ ++ dot :: part₁ = signingInput kid c) :
    part₁ = Base64URL.encode (marshalClaims c) ∧ raw = signingInput kid c ++ dot :: part₂ := by
  have hraw : raw = signingInput kid c ++ dot :: part₂ := by
    rw [License.eq_of_splitOn hsplit, ← h, List.append_assoc, List.cons_append]
  refine ⟨?_, hraw⟩
  rw [hraw, signingInput, List.append_assoc, List.cons_append,
    List.splitOn_append_cons_self_of_not_mem (License.dot_notMem_encode _),
    List.splitOn_append_cons_self_of_not_mem (License.dot_notMem_encode _)] at hsplit
  simp only [List.cons.injEq] at hsplit
  exact hsplit.2.1.symm

/-- The claims of an issued token are accepted as `OAuthServer` accepts them. -/
theorem principal_of_claims {cfg : Config} {t : Issued sch} {now : ℕ}
    (hsites : ∀ id ∈ t.grant.siteIDs, id < 2 ^ 32)
    (hissued : t.issuedAt + cfg.accessTTL + 60 < 2 ^ 63) (hnow : now + 60 < 2 ^ 63)
    (hvalid : validateClaims cfg (accessClaims cfg t.grant t.issuedAt t.jti).received
      (Int64.ofNat now) = .ok ()) :
    OAuthServer.oauthPrincipal cfg (t.claims cfg) now = some
      { userID := OAuthServer.oauthActorID, role := .api,
        sites := some
          (grantsForToken cfg (accessClaims cfg t.grant t.issuedAt t.jti).received) } := by
  have hclaims := (validateClaims_received cfg t.grant t.jti hissued hnow).mp hvalid
  have hgrants : grantsForToken cfg (accessClaims cfg t.grant t.issuedAt t.jti).received =
      OAuthServer.grantsForToken cfg (t.claims cfg) := by
    simp only [grantsForToken, AccessClaims.received, accessClaims, OAuthServer.grantsForToken,
      Issued.claims, OAuthServer.signAccessToken, Slice.toList_whole, toNat_siteIDs hsites]
  rw [OAuthServer.oauthPrincipal, Issued.claims, if_pos hclaims, hgrants]
  rfl

theorem exec_inv {ring : KeyRing sch} (hring : ring.Servable sha256) {as : List (Action sch)}
    (hloads : ∀ a ∈ as, Loads (KeyRing.Servable sha256) a)
    (h : exec (step sha256) (State.start ring) as = some s) : Inv sha256 s :=
  exec_invariant_of (fun _ _ _ hs ha => inv_step hs ha) hloads h (inv_start hring)

/-- A principal is made with a key that a thread found. -/
theorem outcome_some {cfg : Config} {r : Request} {u : AuthTypes.User}
    (h : s.outcome cfg r = some (some u)) : ∃ (i : ℕ) (t : JwksCache.Thread) (pub : PublicKey),
      s.cache.threads[i]? = some t ∧ t.phase = .answered (.found pub) ∧
      principal sch (fun _ => some pub) cfg r.raw (Int64.ofNat (unix r.arrived)) = some u := by
  rw [State.outcome] at h
  split at h
  next => simp [principal_none] at h
  next i hi =>
    obtain ⟨t, ht, h⟩ := Option.bind_eq_some_iff.mp h
    split at h
    next pub hphase => exact ⟨i, t, pub, ht, hphase, Option.some.inj h⟩
    next => cases h
    next => cases h

/-- Whatever is presented and whenever keys are rotated, whoever is admitted has a token that
was issued, changed behind its claims at most, and is the principal of its grant. -/
theorem admitted_issued {cfg : Config} {ring : KeyRing sch} (hring : ring.Servable sha256)
    {as : List (Action sch)} (hloads : ∀ a ∈ as, Loads (KeyRing.Servable sha256) a)
    (h : exec (step sha256) (State.start ring) as = some s)
    (hsites : ∀ t ∈ s.issued, ∀ id ∈ t.grant.siteIDs, id < 2 ^ 32)
    (hissued : ∀ t ∈ s.issued, t.issuedAt + cfg.accessTTL + 60 < 2 ^ 63) {r : Request}
    (harrived : unix r.arrived + 60 < 2 ^ 63) (hunforged : Unforged sha256 cfg s r.raw)
    {u : AuthTypes.User} (hu : s.outcome cfg r = some (some u)) :
    ∃ t ∈ s.issued, OAuthServer.oauthPrincipal cfg (t.claims cfg) (unix r.arrived) = some u ∧
      ∃ rest, r.raw = signingInput (signingKey sha256 t.priv).kid
        (accessClaims cfg t.grant t.issuedAt t.jti) ++ dot :: rest := by
  have hinv := exec_inv hring hloads h
  obtain ⟨i, th, pub, hth, hphase, hprincipal⟩ := outcome_some hu
  obtain ⟨kid, keys, -, hkeys, hlookup⟩ := hinv.sourced.answers i th pub hth hphase
  obtain ⟨k, hk, hpub⟩ := hkeys _ (lookup_mem hlookup)
  obtain rfl : pub = .rsa k := congrArg Prod.snd hpub
  rw [principal] at hprincipal
  cases hverify : verifyToken sch (fun _ => some (.rsa k)) cfg r.raw
      (Int64.ofNat (unix r.arrived)) with
  | error e => simp [hverify] at hprincipal
  | ok c =>
    obtain ⟨part₀, part₁, part₂, hdr, pub, sig, payload, hsplit, -, hpub', hsig, hgood, hpayload,
      hc, hvalid⟩ := verifyToken_ok hverify
    obtain rfl := Option.some.inj hpub'
    rcases hgood with ⟨k', -, hk', hgood⟩ | ⟨k', -, hk', -⟩
    · obtain rfl := PublicKey.rsa.inj hk'
      obtain ⟨t, ht, hinput⟩ := hunforged k hk part₀ part₁ part₂ sig hsplit hsig hgood
      obtain ⟨hclaims, hraw⟩ := segments_of_signingInput hsplit hinput
      rw [hclaims, Base64URL.decode_encode] at hpayload
      obtain rfl := Option.some.inj hpayload
      rw [unmarshal_marshalClaims] at hc
      obtain rfl := Option.some.inj hc
      refine ⟨t, ht, ?_, part₂, hraw⟩
      rw [principal_of_claims (hsites t ht) (hissued t ht) harrived hvalid, ← hprincipal, hverify]
    · cases hk'

/-- The fetch of the request has failed, or the one before its second look had failed or was
under way. -/
def State.Outage (s : State sch) (r : Request) : Prop :=
  ∃ i t, r.thread = some i ∧ s.cache.threads[i]? = some t ∧
    (t.phase = .answered .fetchError ∨ t.phase = .answered (.unknown false))

/-- Keys that are in the cache under one thumbprint are one key. -/
theorem found_of_kid (hdistinct : ∀ a ∈ s.loaded, ∀ b ∈ s.loaded,
      sha256 (canonical a) = sha256 (canonical b) → canonical a = canonical b)
    (hdigest : ∀ pub, keyID (thumbprint sha256 pub) = thumbprint sha256 pub)
    {keys : List (String × PublicKey)} (hkeys : FromLoaded sha256 s.loaded keys) {k : RSAKey}
    (hk : k ∈ s.loaded) {pub : PublicKey} (hlookup : lookup keys (thumbprint sha256 k) = some pub) :
    pub = .rsa k := by
  obtain ⟨k', hk', hpub⟩ := hkeys _ (lookup_mem hlookup)
  obtain ⟨hkid, rfl⟩ := Prod.mk.inj hpub
  rw [hdigest] at hkid
  have hsame := hdistinct k hk k' hk' (base64_injective hkid)
  rw [canonical_injective hsame]

/-- The key has been published since, and what is served has it. -/
structure Publishing (sha256 : Bytes → Bytes) (since : ℕ) (k : RSAKey) (s : State sch) : Prop where
  inv : Inv sha256 s
  published : k ∈ s.ring.publics
  fresh : JwksCache.Fresh since (thumbprint sha256 k) (.rsa k) s.cache

private theorem publishing_step {since : ℕ} {k : RSAKey} {a : Action sch}
    (h : Publishing sha256 since k s)
    (ha : Loads (fun ring => ring.Servable sha256 ∧ k ∈ ring.publics) a)
    (hstep : step sha256 s a = some s') : Publishing sha256 since k s' := by
  have hinv' : Inv sha256 s' := by
    refine inv_step h.inv ?_ hstep
    cases a with
    | load ring => exact ha.1
    | _ => trivial
  refine ⟨hinv', ?_, ?_⟩
  · cases a with
    | cache a =>
      obtain ⟨-, cache, -, rfl⟩ := cache_step hstep
      exact h.published
    | load ring =>
      obtain rfl := Option.some.inj hstep
      exact ha.2
    | issue grant jti =>
      obtain rfl := Option.some.inj hstep
      exact h.published
    | present raw =>
      obtain ⟨-, rfl⟩ | ⟨kid, cache, -, -, rfl⟩ := present_step hstep
      · exact h.published
      · exact h.published
  · cases a with
    | cache a =>
      obtain ⟨hserves, cache, hcache, rfl⟩ := cache_step hstep
      exact JwksCache.fresh_step h.inv.cache h.fresh
        (h.inv.serves hserves (h.inv.ring.lookup h.published)) hcache
    | load ring =>
      obtain rfl := Option.some.inj hstep
      exact h.fresh
    | issue grant jti =>
      obtain rfl := Option.some.inj hstep
      exact h.fresh
    | present raw =>
      obtain ⟨-, rfl⟩ | ⟨kid, cache, -, hcache, rfl⟩ := present_step hstep
      · exact h.fresh
      · exact JwksCache.fresh_step h.inv.cache h.fresh
          (by trivial : JwksCache.Serves _ (.ask kid)) hcache

/-- A token of a key that has been published for a minute is admitted as the principal of its
grant, unless the keys cannot be fetched. -/
theorem issued_admitted {cfg : Config} {ring : KeyRing sch} (hring : ring.Servable sha256)
    {before after : List (Action sch)} {s₀ : State sch} {t : Issued sch}
    (hbefore : exec (step sha256) (State.start ring) before = some s₀)
    (hafter : exec (step sha256) s₀ after = some s)
    (hloads : ∀ a ∈ before, Loads (KeyRing.Servable sha256) a)
    (hpublished : sch.publicOf t.priv ∈ s₀.ring.publics)
    (hpublishes : ∀ a ∈ after,
      Loads (fun ring => ring.Servable sha256 ∧ sch.publicOf t.priv ∈ ring.publics) a)
    (hdistinct : ∀ a ∈ s.loaded, ∀ b ∈ s.loaded,
      sha256 (canonical a) = sha256 (canonical b) → canonical a = canonical b)
    (hsound : (signingKey sha256 t.priv).Sound) (hsites : ∀ id ∈ t.grant.siteIDs, id < 2 ^ 32)
    (hissued : t.issuedAt + cfg.accessTTL + 60 < 2 ^ 63) {r : Request} (hr : r ∈ s.requests)
    (hraw : r.raw = t.token sha256 cfg)
    (harrived : s₀.cache.now + JwksCache.jwksRefetchInterval ≤ r.arrived)
    (hnow : unix r.arrived + 60 < 2 ^ 63) :
    s.outcome cfg r = none ∨
      s.outcome cfg r = some (OAuthServer.oauthPrincipal cfg (t.claims cfg) (unix r.arrived)) ∨
      s.Outage r := by
  have hinv₀ := exec_inv hring hloads hbefore
  have hpublishing : Publishing sha256 s₀.cache.now (sch.publicOf t.priv) s :=
    exec_invariant_of (fun _ _ _ hs ha => publishing_step hs ha) hpublishes hafter
      ⟨hinv₀, hpublished, hinv₀.cache.fresh _ _⟩
  obtain ⟨hinv, hmem, hfresh⟩ := hpublishing
  have hasked : askedKID r.raw = some (thumbprint sha256 (sch.publicOf t.priv)) := by
    rw [hraw, Issued.token, SigningKey.signAccessToken, askedKID_sign]
    rfl
  cases hthread : r.thread with
  | none =>
    rw [hinv.asks r hr hthread] at hasked
    cases hasked
  | some i =>
    obtain ⟨th, hth, hkid, hat⟩ := hinv.requests r hr i hthread
    rw [hasked] at hkid
    have houtcome : s.outcome cfg r = match th.phase with
        | .answered (.found pub) =>
          some (principal sch (fun _ => some pub) cfg r.raw (Int64.ofNat (unix r.arrived)))
        | .answered _ => some none
        | _ => none := by
      rw [State.outcome, hthread]
      simp only [hth, Option.bind_some]
    cases hphase : th.phase with
    | missed => exact .inl (houtcome.trans (by rw [hphase]))
    | fetching started body => exact .inl (houtcome.trans (by rw [hphase]))
    | refreshed => exact .inl (houtcome.trans (by rw [hphase]))
    | answered result =>
      refine .inr ?_
      cases result with
      | found pub =>
        left
        obtain ⟨kid, keys, hkid', hkeys, hlookup⟩ := hinv.sourced.answers i th pub hth hphase
        obtain rfl := Option.some.inj (hkid.symm.trans hkid')
        obtain rfl := found_of_kid hdistinct hring.keyID hkeys (hinv.loaded _ hmem) hlookup
        rw [houtcome, hphase]
        simp only
        rw [hraw, Issued.token]
        exact congrArg some (principal_signAccessToken (signingKey sha256 t.priv) _ rfl hsound cfg
          t.grant hsites t.issuedAt (unix r.arrived) t.jti hissued hnow)
      | unknown stored =>
        obtain rfl := hfresh.unknown i th stored hth hkid (hat ▸ harrived) hphase
        exact .inr ⟨i, th, hthread, hth, .inr hphase⟩
      | fetchError => exact .inr ⟨i, th, hthread, hth, .inl hphase⟩

def exampleDocument : Bytes := marshalJWKS (exampleRing.published firstBytes)

def exampleIssued : Issued echo := ⟨exampleRing.priv, exampleGrant, 1000, "jti"⟩

def exampleRequest : Request :=
  ⟨exampleIssued.token firstBytes exampleConfig, 1060 * 10 ^ 9, some 1⟩

def exampleBefore : List (Action echo) :=
  [.cache (.elapse (1000 * 10 ^ 9)), .issue exampleGrant "jti"]

/-- The keys are fetched for the token, which comes a minute later. -/
def exampleAfter : List (Action echo) :=
  [.cache (.elapse JwksCache.jwksRefetchInterval), .present exampleRequest.raw,
    .cache (.refresh 1), .cache (.serve 1 exampleDocument), .cache (.store 1), .cache (.again 1)]

def exampleStart : State echo := State.start exampleRing

def exampleUser : AuthTypes.User where
  userID := OAuthServer.oauthActorID
  role := .api
  sites := some [(1, .api), (3, .api)]

/-- What the two runs end in. -/
structure ExampleRun (s₀ s : State echo) : Prop where
  before : exec (step firstBytes) exampleStart exampleBefore = some s₀
  after : exec (step firstBytes) s₀ exampleAfter = some s
  issuing : s₀.cache.now = 1000 * 10 ^ 9 ∧ s₀.ring.publics = exampleRing.publics
  issued : s.issued = [exampleIssued]
  loaded : s.loaded = exampleRing.publics
  requests : s.requests = [exampleRequest]
  outcome : s.outcome exampleConfig exampleRequest = some (some exampleUser)
  phase : s.cache.threads[1]?.map JwksCache.Thread.phase =
    some (.answered (.found (.rsa exampleRing.priv)))

private theorem issued_exampleAfter {s₀ s : State echo} (hs₀ : s₀.issued = [exampleIssued])
    (h : exec (step firstBytes) s₀ exampleAfter = some s) : s.issued = [exampleIssued] := by
  refine exec_invariant_of (I := fun s => s.issued = [exampleIssued])
    (A := fun a => ∀ grant jti, a ≠ .issue grant jti) (fun s a s' hs ha hstep => ?_) ?_ h hs₀
  · cases a with
    | cache a =>
      obtain ⟨-, cache, -, rfl⟩ := cache_step hstep
      exact hs
    | load ring =>
      obtain rfl := Option.some.inj hstep
      exact hs
    | issue grant jti => exact absurd rfl (ha grant jti)
    | present raw =>
      obtain ⟨-, rfl⟩ | ⟨kid, cache, -, -, rfl⟩ := present_step hstep
      · exact hs
      · exact hs
  · simp [exampleAfter]

theorem exists_exampleRun : ∃ s₀ s, ExampleRun s₀ s := by
  obtain ⟨s₀, hbefore, hissuing, hissued⟩ : ∃ s₀ : State echo,
      exec (step firstBytes) exampleStart exampleBefore = some s₀ ∧
        (s₀.cache.now = 1000 * 10 ^ 9 ∧ s₀.ring.publics = exampleRing.publics) ∧
        s₀.issued = [exampleIssued] := ⟨_, rfl, ⟨rfl, rfl⟩, rfl⟩
  have hafter : (exec (step firstBytes) exampleStart (exampleBefore ++ exampleAfter)).map
      (fun s => (s.loaded, s.requests, s.outcome exampleConfig exampleRequest,
        s.cache.threads[1]?.map JwksCache.Thread.phase)) =
      some (exampleRing.publics, [exampleRequest], some (some exampleUser),
        some (.answered (.found (.rsa exampleRing.priv)))) := by decide +kernel
  obtain ⟨s, hs, hstate⟩ := Option.map_eq_some_iff.mp hafter
  obtain ⟨s₀', hbefore', hs⟩ := exec_append.mp hs
  obtain rfl := Option.some.inj (hbefore.symm.trans hbefore')
  simp only [Prod.mk.injEq] at hstate
  exact ⟨s₀, s, hbefore, hs, hissuing, issued_exampleAfter hissued hs, hstate.1, hstate.2.1,
    hstate.2.2.1, hstate.2.2.2⟩

theorem loads_example (Q : KeyRing echo → Prop) :
    (∀ a ∈ exampleBefore, Loads Q a) ∧ ∀ a ∈ exampleAfter, Loads Q a := by
  simp [exampleBefore, exampleAfter, Loads]

private theorem unforged_example {s₀ s : State echo} (h : ExampleRun s₀ s) :
    Unforged firstBytes exampleConfig s exampleRequest.raw := by
  intro pub _ part₀ part₁ part₂ sig hsplit hsig hverify
  refine ⟨exampleIssued, by rw [h.issued]; exact List.mem_singleton_self _, ?_⟩
  have hsegments := splitOn_sign (signingKey firstBytes exampleIssued.priv)
    (accessClaims exampleConfig exampleGrant 1000 "jti")
  have hraw : exampleRequest.raw.splitOn dot = _ := hsegments
  rw [hsplit] at hraw
  simp only [List.cons.injEq, and_true] at hraw
  rw [hraw.1, hraw.2.1]
  rfl

theorem admitted_issued_example : ∃ s₀ s, ExampleRun s₀ s ∧ ∃ t ∈ s.issued,
    OAuthServer.oauthPrincipal exampleConfig (t.claims exampleConfig)
      (unix exampleRequest.arrived) = some exampleUser ∧
    ∃ rest, exampleRequest.raw = signingInput (signingKey firstBytes t.priv).kid
      (accessClaims exampleConfig t.grant t.issuedAt t.jti) ++ dot :: rest := by
  obtain ⟨s₀, s, h⟩ := exists_exampleRun
  obtain ⟨hbefore, hafter⟩ := loads_example (KeyRing.Servable firstBytes)
  refine ⟨s₀, s, h, admitted_issued servable_exampleRing
    (fun a ha => (List.mem_append.mp ha).elim (hbefore a) (hafter a))
    (exec_append.mpr ⟨s₀, h.before, h.after⟩) ?_ ?_ (by decide) (unforged_example h) h.outcome⟩
  · rw [h.issued]
    decide
  · rw [h.issued]
    decide

theorem issued_admitted_example : ∃ s₀ s, ExampleRun s₀ s ∧
    s.outcome exampleConfig exampleRequest = some (OAuthServer.oauthPrincipal exampleConfig
      (exampleIssued.claims exampleConfig) (unix exampleRequest.arrived)) := by
  obtain ⟨s₀, s, h⟩ := exists_exampleRun
  have hpublished : echo.publicOf exampleIssued.priv ∈ s₀.ring.publics := by
    rw [h.issuing.2]
    decide
  have hdistinct : ∀ a ∈ s.loaded, ∀ b ∈ s.loaded,
      firstBytes (canonical a) = firstBytes (canonical b) → canonical a = canonical b := by
    rw [h.loaded]
    exact servable_exampleRing.distinct
  have harrived : s₀.cache.now + JwksCache.jwksRefetchInterval ≤ exampleRequest.arrived := by
    rw [h.issuing.1]
    decide
  have hadmitted : s.outcome exampleConfig exampleRequest = none ∨
      s.outcome exampleConfig exampleRequest = some (OAuthServer.oauthPrincipal exampleConfig
        (exampleIssued.claims exampleConfig) (unix exampleRequest.arrived)) ∨
      s.Outage exampleRequest :=
    issued_admitted servable_exampleRing h.before h.after (loads_example _).1 hpublished
      (loads_example _).2 hdistinct (fun message => decide_eq_true rfl) (by decide) (by decide)
      (by rw [h.requests]; exact List.mem_singleton_self _) rfl harrived (by decide)
  refine ⟨s₀, s, h, ?_⟩
  rcases hadmitted with hnone | hsome | ⟨i, t, hthread, ht, hphase⟩
  · rw [h.outcome] at hnone
    cases hnone
  · exact hsome
  · obtain rfl := Option.some.inj hthread
    have hfound := h.phase
    rw [ht, Option.map_some, Option.some.injEq] at hfound
    rw [hfound] at hphase
    simp at hphase

end Statnive.KeyRotation
