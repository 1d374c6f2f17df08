import Statnive.AuthGuards
import Statnive.LookAsideCache
import Statnive.SessionCascade

/-!
# Revocation through the caches

The sessions, the grants of a user and the minted tokens are each read through a look-aside
cache, and each has a revocation that is to take effect at once. `lookup_alone` has the look-up of
a session by the cached store as a run of the cache.
-/

namespace Statnive.CacheRevocation

open AuthTypes AuthGuards AuthSessions LookAsideCache LabelledRuns

/-- `CachedStore`: the entry is dropped before the session is revoked. -/
def sessionCache (ttl : ℕ) : Design Tables Hash SessionInfo Hash where
  load := fun db hash now => (lookupSession db hash now).toOption
  revoke := fun db hash now => (revokeSession db hash now).toOption
  serves := fun _ _ => true
  covers := fun target hash => target = hash
  dropsFirst := true
  dropsOnError := true
  ttl := ttl

/-- The cache of the sequential store. -/
structure Matches (s : State Tables Hash SessionInfo Hash) (c : CachedStore) : Prop where
  store : s.store = c.db
  items : ∀ hash, s.items hash = (c.items hash).map (fun e => (e.info, e.expiresAt))

theorem Matches.setItem {s : State Tables Hash SessionInfo Hash} {c : CachedStore}
    (h : Matches s c) (hash : Hash) (e : Option CachedSession) :
    Matches (s.setItem hash (e.map (fun e => (e.info, e.expiresAt))))
      { c with items := Function.update c.items hash e } := by
  refine ⟨h.store, fun other => ?_⟩
  by_cases hne : other = hash
  · subst hne
    simp [State.setItem]
  · simpa [State.setItem, hne] using h.items other

private theorem load_alone
    {s : State Tables Hash SessionInfo Hash} {c : CachedStore} (h : Matches s c)
    (hash : Hash) (now : ℕ) : ∃ t l,
      exec (step (sessionCache c.ttl)) (s.begin hash now .missed)
        [.load s.lookups.length now true, .fill s.lookups.length] = some t ∧
      Matches t (c.load hash now).1 ∧ t.lookups[s.lookups.length]? = some l ∧
      l.phase = .done (c.load hash now).2.toOption := by
  have hmissed := begin_last s hash now (.missed : Phase SessionInfo)
  have hloaded := setPhase_self hmissed (.loaded (lookupSession c.db hash now).toOption)
  have hload : step (sessionCache c.ttl) (s.begin hash now .missed)
      (.load s.lookups.length now true) = some ((s.begin hash now .missed).setPhase
        s.lookups.length (.loaded (lookupSession c.db hash now).toOption)) := by
    simp [step, sessionCache, State.begin, State.setPhase, h.store]
  have hrun := exec_cons.mpr ⟨_, hload,
    exec_cons.mpr ⟨_, step_fill (d := sessionCache c.ttl) hloaded, exec_nil _⟩⟩
  have hphase (v : Option SessionInfo) := setPhase_self hloaded (.done v)
  cases hlook : lookupSession c.db hash now with
  | error e =>
    rw [hlook] at hrun hphase
    refine ⟨_, _, hrun, ?_, hphase none, ?_⟩
    · simp only [CachedStore.load, hlook]
      have hset := h.setItem hash none
      exact ⟨hset.store, hset.items⟩
    · simp [CachedStore.load, hlook, Except.toOption]
  | ok info =>
    rw [hlook] at hrun hphase
    refine ⟨_, _, hrun, ?_, hphase (some info), ?_⟩
    · simp only [CachedStore.load, hlook]
      have hset := h.setItem hash (some ⟨info, now + c.ttl⟩)
      exact ⟨hset.store, hset.items⟩
    · simp [CachedStore.load, hlook, Except.toOption]

/-- Run without anything in between, a look-up does what the cached store does. -/
theorem lookup_alone {s : State Tables Hash SessionInfo Hash} {c : CachedStore} (h : Matches s c)
    (hash : Hash) {now : ℕ} (hnow : s.clock ≤ now) : ∃ as t l,
      exec (step (sessionCache c.ttl)) s as = some t ∧ Matches t (c.lookup hash now).1 ∧
      t.lookups[s.lookups.length]? = some l ∧
      l.phase = .done (c.lookup hash now).2.toOption := by
  obtain ⟨t, l, hrun, hload⟩ := load_alone h hash now
  have hmiss (hbegin : beginLookup (sessionCache c.ttl) s hash now = s.begin hash now .missed)
      (hlookup : c.lookup hash now = c.load hash now) : ∃ as t l,
      exec (step (sessionCache c.ttl)) s as = some t ∧ Matches t (c.lookup hash now).1 ∧
      t.lookups[s.lookups.length]? = some l ∧
      l.phase = .done (c.lookup hash now).2.toOption := by
    rw [hlookup]
    refine ⟨.lookup hash now :: _, t, l, exec_cons.mpr ⟨_, ?_, hrun⟩, hload⟩
    rw [step, if_pos hnow, hbegin]
  cases hitem : c.items hash with
  | none =>
    apply hmiss
    · simp [beginLookup, h.items, hitem]
    · simp [CachedStore.lookup, hitem]
  | some cached =>
    by_cases hfresh : now < cached.expiresAt
    · have hlookup : c.lookup hash now = (c, .ok cached.info) := by
        simp [CachedStore.lookup, hitem, hfresh]
      rw [hlookup]
      refine ⟨[.lookup hash now], s.begin hash now (.done (some cached.info)), _, ?_,
        ⟨h.store, h.items⟩, begin_last s hash now _, rfl⟩
      simp [exec, step, hnow, beginLookup, h.items, hitem, hfresh, sessionCache]
    · apply hmiss
      · simp [beginLookup, h.items, hitem, hfresh]
      · simp [CachedStore.lookup, hitem, hfresh]

structure GrantRow where
  userID : UserID
  siteID : ℕ
  role : Role
  revoked : Bool
  updatedAt : ℕ

def GrantRow.key (r : GrantRow) : UserID × ℕ := (r.userID, r.siteID)

def GrantRow.version (r : GrantRow) : ℤ := r.updatedAt

def loadUserSites (rows : List GrantRow) (userID : UserID) : Option Grants :=
  if userID = uuidNil then none
  else some ((rows.filter (fun r => r.userID = userID && !r.revoked && r.role.valid)).map
    (fun r => (r.siteID, r.role)))

def loadOneGrant (rows : List GrantRow) (userID : UserID) (siteID : ℕ) : Option Role :=
  (rows.find? (fun r => r.userID = userID && r.siteID = siteID && !r.revoked)).map GrantRow.role

/-- `Revoke`, where `none` is an error; a grant that is not active is left alone. -/
def revokeGrant (rows : List GrantRow) (userID : UserID) (siteID : ℕ) (now : ℕ) :
    Option (List GrantRow) :=
  if userID = uuidNil then none
  else if siteID = 0 then none
  else match loadOneGrant rows userID siteID with
  | none => some rows
  | some current => some (ReplacingTable.insert GrantRow.key GrantRow.version rows
      ⟨userID, siteID, current, true, now⟩)

/-- `CachedSitesStore`: writes through and invalidates. -/
def sitesCache (ttl : ℕ) : Design (List GrantRow) UserID Grants (UserID × ℕ) where
  load := fun rows userID _ => loadUserSites rows userID
  revoke := fun rows target now => revokeGrant rows target.1 target.2 now
  serves := fun _ _ => true
  covers := fun target userID => target.1 = userID
  dropsFirst := false
  dropsOnError := true
  ttl := ttl

/-- `version` is in unix nanoseconds. -/
structure TokenRow where
  token : MintedToken
  hash : Hash
  revoked : Bool
  version : ℕ

def TokenRow.key (r : TokenRow) : Hash × ℕ := (r.hash, r.token.tokenID)

def TokenRow.stamp (r : TokenRow) : ℤ := r.version

def unixSeconds (now : ℕ) : ℕ := now / 1000000000

/-- The token has not expired by its own time. -/
def unexpired (m : MintedToken) (now : ℕ) : Bool :=
  m.expiresAt = 0 || unixSeconds now < m.expiresAt

theorem unixSeconds_mono {a b : ℕ} (h : a ≤ b) : unixSeconds a ≤ unixSeconds b :=
  Nat.div_le_div_right h

theorem unexpired_earlier {m : MintedToken} {now later : ℕ} (hle : now ≤ later)
    (h : unexpired m later = true) : unexpired m now = true := by
  have hsec := unixSeconds_mono hle
  simp only [unexpired, Bool.or_eq_true, decide_eq_true_eq] at h ⊢
  omega

def lookupActive (rows : List TokenRow) (hash : Hash) (now : ℕ) : Option MintedToken :=
  match rows.find? (fun r => r.hash = hash) with
  | none => none
  | some r => if r.revoked then none else if unexpired r.token now then some r.token else none

/-- `Revoke` by the owner, where `none` is an error. -/
def revokeToken (rows : List TokenRow) (tokenID : ℕ) (userID : UserID) (now : ℕ) :
    Option (List TokenRow) :=
  match rows.find? (fun r => r.token.tokenID = tokenID) with
  | none => none
  | some r =>
    if r.token.userID ≠ userID then none
    else if r.revoked then some rows
    else some (ReplacingTable.insert TokenRow.key TokenRow.stamp rows
      { r with revoked := true, version := now })

/-- `CachedAPITokenStore`: the value `none` is an unknown hash, and a revocation flushes. -/
def tokenCache (ttl : ℕ) : Design (List TokenRow) Hash (Option MintedToken) (ℕ × UserID) where
  load := fun rows hash now => some (lookupActive rows hash now)
  revoke := fun rows target now => revokeToken rows target.1 target.2 now
  serves := fun found now => found.all (fun m => unexpired m now)
  covers := fun _ _ => true
  dropsFirst := false
  dropsOnError := false
  ttl := ttl

theorem revoke_ok {db db' : Tables} {hash : Hash} {now c : ℕ}
    (hfits : SessionCascade.Fits db.sessions c ∧ 0 < c) (hnow : c ≤ now)
    (h : (revokeSession db hash now).toOption = some db') :
    SessionCascade.Revokes db db' now ∧ SessionCascade.Dead db' hash now := by
  cases hrevoke : revokeSession db hash now with
  | error e => simp [hrevoke, Except.toOption] at h
  | ok db'' =>
    obtain rfl : db'' = db' := by simpa [hrevoke, Except.toOption] using h
    exact SessionCascade.revokeSession_ok (hfits.1.mono hnow) (Nat.lt_of_lt_of_le hfits.2 hnow)
      hrevoke

theorem dead_mono {db : Tables} {hash : Hash} {c now : ℕ} (h : SessionCascade.Dead db hash c)
    (hnow : c ≤ now) : SessionCascade.Dead db hash now :=
  h.persist hnow (SessionCascade.SessionsPersist.refl _) fun _ _ v hv => ⟨v, hv, rfl⟩

def sessionRevocable (ttl : ℕ) : Revocable (sessionCache ttl) where
  reveals := fun target hash _ => hash = target
  good := fun db c => SessionCascade.Fits db.sessions c ∧ 0 < c
  clean := fun target db c => SessionCascade.Dead db target c
  covers := by
    intro target hash _ h
    simpa [sessionCache] using h.symm
  good_mono := fun _ _ _ h hnow => ⟨h.1.mono hnow, Nat.lt_of_lt_of_le h.2 hnow⟩
  clean_mono := fun _ _ _ _ h hnow => dead_mono h hnow
  good_revoke := fun _ _ _ _ _ h hnow hrevoke =>
    ⟨(revoke_ok h hnow hrevoke).1.fits, Nat.lt_of_lt_of_le h.2 hnow⟩
  clean_of_revoke := fun _ _ _ _ _ h hnow hrevoke => (revoke_ok h hnow hrevoke).2
  clean_revoke := fun _ _ _ _ _ _ h hclean hnow hrevoke =>
    (revoke_ok h hnow hrevoke).1.dead (dead_mono hclean hnow)
  load_clean := by
    rintro target db c now hash info hclean hnow hload rfl
    cases hlook : lookupSession db hash now with
    | error e => simp [sessionCache, hlook, Except.toOption] at hload
    | ok found => exact hclean.not_ok hnow found hlook

/-- The grant has no active row. -/
def GrantRevoked (target : UserID × ℕ) (rows : List GrantRow) : Prop :=
  ∀ r ∈ rows, r.key = target → r.revoked = true

theorem revokeGrant_cases {rows rows' : List GrantRow} {userID : UserID} {siteID now : ℕ}
    (h : revokeGrant rows userID siteID now = some rows') :
    (loadOneGrant rows userID siteID = none ∧ rows' = rows) ∨
      ∃ role, rows' = ReplacingTable.insert GrantRow.key GrantRow.version rows
        ⟨userID, siteID, role, true, now⟩ := by
  simp only [revokeGrant] at h
  split_ifs at h
  cases hload : loadOneGrant rows userID siteID with
  | none => exact Or.inl ⟨rfl, by simpa [hload, eq_comm] using h⟩
  | some role => exact Or.inr ⟨role, by simpa [hload, eq_comm] using h⟩

theorem revokeGrant_revokes {rows rows' : List GrantRow} {target : UserID × ℕ} {c now : ℕ}
    (hgood : ∀ r ∈ rows, r.updatedAt ≤ c) (hnow : c ≤ now)
    (h : revokeGrant rows target.1 target.2 now = some rows') : GrantRevoked target rows' := by
  rcases revokeGrant_cases h with ⟨hnone, rfl⟩ | ⟨role, rfl⟩
  · intro r hr hkey
    have hfind : rows'.find? (fun r => r.userID = target.1 && r.siteID = target.2 && !r.revoked) =
        none := by simpa [loadOneGrant] using hnone
    obtain rfl : (r.userID, r.siteID) = target := hkey
    simpa using List.find?_eq_none.mp hfind r hr
  · intro r hr hkey
    rcases ReplacingTable.mem_insert_cases hr with ⟨-, hne⟩ | ⟨old, hold, -, rfl⟩ | ⟨-, rfl⟩
    · exact absurd hkey hne
    · have hle : old.version ≤ GrantRow.version ⟨target.1, target.2, role, true, now⟩ :=
        Int.ofNat_le.mpr ((hgood old hold).trans hnow)
      rw [ReplacingTable.newer, if_pos hle]
    · rfl

theorem revokeGrant_keeps {rows rows' : List GrantRow} {target other : UserID × ℕ} {now : ℕ}
    (hclean : GrantRevoked other rows)
    (h : revokeGrant rows target.1 target.2 now = some rows') : GrantRevoked other rows' := by
  rcases revokeGrant_cases h with ⟨-, rfl⟩ | ⟨role, rfl⟩
  · exact hclean
  · intro r hr hkey
    rcases ReplacingTable.mem_insert hr with rfl | hold
    · rfl
    · exact hclean r hold hkey

theorem revokeGrant_good {rows rows' : List GrantRow} {target : UserID × ℕ} {c now : ℕ}
    (hgood : ∀ r ∈ rows, r.updatedAt ≤ c) (hnow : c ≤ now)
    (h : revokeGrant rows target.1 target.2 now = some rows') : ∀ r ∈ rows', r.updatedAt ≤ now := by
  intro r hr
  rcases revokeGrant_cases h with ⟨-, rfl⟩ | ⟨role, rfl⟩
  · exact (hgood r hr).trans hnow
  · rcases ReplacingTable.mem_insert hr with rfl | hold
    · exact Nat.le_refl now
    · exact (hgood r hold).trans hnow

def sitesRevocable (ttl : ℕ) : Revocable (sitesCache ttl) where
  reveals := fun target userID grants => userID = target.1 ∧ target.2 ∈ grants.map Prod.fst
  good := fun rows c => ∀ r ∈ rows, r.updatedAt ≤ c
  clean := fun target rows _ => GrantRevoked target rows
  covers := by
    intro target userID _ h
    simpa [sitesCache] using h.1.symm
  good_mono := fun _ _ _ h hnow r hr => (h r hr).trans hnow
  clean_mono := fun _ _ _ _ h _ => h
  good_revoke := fun _ _ _ _ _ h hnow hrevoke => revokeGrant_good h hnow hrevoke
  clean_of_revoke := fun _ _ _ _ _ h hnow hrevoke => revokeGrant_revokes h hnow hrevoke
  clean_revoke := fun _ _ _ _ _ _ _ hclean _ hrevoke => revokeGrant_keeps hclean hrevoke
  load_clean := by
    intro target rows c now userID grants hclean _ hload hreveals
    obtain ⟨huser, hmem⟩ := hreveals
    simp only [sitesCache, loadUserSites] at hload
    split_ifs at hload
    obtain rfl := Option.some.inj hload
    obtain ⟨kv, hkv, hsite⟩ := List.mem_map.mp hmem
    obtain ⟨r, hr, rfl⟩ := List.mem_map.mp hkv
    obtain ⟨hr, hactive⟩ := List.mem_filter.mp hr
    have hactive' : (r.userID = userID ∧ r.revoked = false) ∧ r.role.valid = true := by
      simpa using hactive
    have hkey : r.key = target := Prod.ext (hactive'.1.1.trans huser) hsite
    simp [hclean r hr hkey] at hactive'

/-- Each token has one row, from no later than the clock. -/
structure TokensFit (rows : List TokenRow) (c : ℕ) : Prop where
  one : ∀ r ∈ rows, ∀ s ∈ rows, r.token.tokenID = s.token.tokenID → r = s
  versions : ∀ r ∈ rows, r.version ≤ c

def TokenRevoked (tokenID : ℕ) (rows : List TokenRow) : Prop :=
  ∀ r ∈ rows, r.token.tokenID = tokenID → r.revoked = true

theorem revokeToken_cases {rows rows' : List TokenRow} {tokenID now : ℕ} {userID : UserID}
    (h : revokeToken rows tokenID userID now = some rows') :
    ∃ r ∈ rows, r.token.tokenID = tokenID ∧ ((r.revoked = true ∧ rows' = rows) ∨
      rows' = ReplacingTable.insert TokenRow.key TokenRow.stamp rows
        { r with revoked := true, version := now }) := by
  simp only [revokeToken] at h
  cases hfind : rows.find? (fun r => r.token.tokenID = tokenID) with
  | none => simp [hfind] at h
  | some r =>
    simp only [hfind] at h
    refine ⟨r, List.mem_of_find?_eq_some hfind, by simpa using List.find?_some hfind, ?_⟩
    split_ifs at h with howner hrevoked
    · exact Or.inl ⟨hrevoked, (Option.some.inj h).symm⟩
    · exact Or.inr (Option.some.inj h).symm

private theorem revokeToken_revokes
    {rows rows' : List TokenRow} {tokenID c now : ℕ} {userID : UserID}
    (hfit : TokensFit rows c) (hnow : c ≤ now)
    (h : revokeToken rows tokenID userID now = some rows') : TokenRevoked tokenID rows' := by
  obtain ⟨r₀, hr₀, rfl, ⟨hrevoked, rfl⟩ | rfl⟩ := revokeToken_cases h
  · intro r hr hid
    rw [hfit.one r hr r₀ hr₀ hid, hrevoked]
  · intro r hr hid
    rcases ReplacingTable.mem_insert_cases hr with ⟨hr, hne⟩ | ⟨old, hold, -, rfl⟩ | ⟨-, rfl⟩
    · exact absurd (by rw [hfit.one r hr r₀ hr₀ hid]; rfl) hne
    · have hle : old.stamp ≤ TokenRow.stamp { r₀ with revoked := true, version := now } :=
        Int.ofNat_le.mpr ((hfit.versions old hold).trans hnow)
      rw [ReplacingTable.newer, if_pos hle]
    · rfl

private theorem revokeToken_keeps
    {rows rows' : List TokenRow} {tokenID other now : ℕ} {userID : UserID}
    (hclean : TokenRevoked other rows)
    (h : revokeToken rows tokenID userID now = some rows') : TokenRevoked other rows' := by
  obtain ⟨r₀, -, -, ⟨-, rfl⟩ | rfl⟩ := revokeToken_cases h
  · exact hclean
  · intro r hr hid
    rcases ReplacingTable.mem_insert hr with rfl | hold
    · rfl
    · exact hclean r hold hid

theorem TokensFit.mono {rows : List TokenRow} {c now : ℕ} (h : TokensFit rows c)
    (hnow : c ≤ now) : TokensFit rows now :=
  ⟨h.one, fun r hr => (h.versions r hr).trans hnow⟩

theorem TokensFit.revoke {rows rows' : List TokenRow} {tokenID c now : ℕ} {userID : UserID}
    (hfit : TokensFit rows c) (hnow : c ≤ now)
    (h : revokeToken rows tokenID userID now = some rows') : TokensFit rows' now := by
  obtain ⟨r₀, hr₀, -, ⟨-, rfl⟩ | rfl⟩ := revokeToken_cases h
  · exact hfit.mono hnow
  · have hcases : ∀ r ∈ ReplacingTable.insert TokenRow.key TokenRow.stamp rows
        { r₀ with revoked := true, version := now }, (r ∈ rows ∧ r ≠ r₀) ∨
        r = { r₀ with revoked := true, version := now } := by
      intro r hr
      rcases ReplacingTable.mem_insert_cases hr with ⟨hr, hne⟩ | ⟨old, hold, -, rfl⟩ | ⟨-, rfl⟩
      · refine Or.inl ⟨hr, ?_⟩
        rintro rfl
        exact hne rfl
      · have hle : old.stamp ≤ TokenRow.stamp { r₀ with revoked := true, version := now } :=
          Int.ofNat_le.mpr ((hfit.versions old hold).trans hnow)
        rw [ReplacingTable.newer, if_pos hle]
        exact Or.inr rfl
      · exact Or.inr rfl
    constructor
    · intro r hr s hs hid
      rcases hcases r hr with ⟨hr, hrne⟩ | rfl <;> rcases hcases s hs with ⟨hs, hsne⟩ | rfl
      · exact hfit.one r hr s hs hid
      · exact absurd (hfit.one r hr r₀ hr₀ hid) hrne
      · exact absurd (hfit.one r₀ hr₀ s hs hid).symm hsne
      · rfl
    · intro r hr
      rcases hcases r hr with ⟨hr, -⟩ | rfl
      · exact (hfit.versions r hr).trans hnow
      · exact Nat.le_refl now

def tokenRevocable (ttl : ℕ) : Revocable (tokenCache ttl) where
  reveals := fun target _ found => ∃ m, found = some m ∧ m.tokenID = target.1
  good := TokensFit
  clean := fun target rows _ => TokenRevoked target.1 rows
  covers := fun _ _ _ _ => rfl
  good_mono := fun _ _ _ h hnow => h.mono hnow
  clean_mono := fun _ _ _ _ h _ => h
  good_revoke := fun _ _ _ _ _ h hnow hrevoke => h.revoke hnow hrevoke
  clean_of_revoke := fun _ _ _ _ _ h hnow hrevoke => revokeToken_revokes h hnow hrevoke
  clean_revoke := fun _ _ _ _ _ _ _ hclean _ hrevoke => revokeToken_keeps hclean hrevoke
  load_clean := by
    rintro target rows c now hash found hclean _ hload ⟨m, rfl, hid⟩
    have hlook : lookupActive rows hash now = some m := Option.some.inj hload
    simp only [lookupActive] at hlook
    cases hfind : rows.find? (fun r => r.hash = hash) with
    | none => simp [hfind] at hlook
    | some r =>
      simp only [hfind] at hlook
      split_ifs at hlook with hrevoked hunexpired
      obtain rfl := Option.some.inj hlook
      exact hrevoked (hclean r (List.mem_of_find?_eq_some hfind) hid)

/-- Through each of the three caches: in every run that keeps what was revoked out of the
cache, no look-up that begins after a revocation has returned yields the revoked session, grant
or token. -/
theorem immediate_revocation (ttl : ℕ) :
    (∀ s t as, Starts (sessionRevocable ttl) s → exec (step (sessionCache ttl)) s as = some t →
      Along (step (sessionCache ttl)) (KeepsOut (sessionRevocable ttl)) s as →
      Immediate (sessionRevocable ttl) t) ∧
    (∀ s t as, Starts (sitesRevocable ttl) s → exec (step (sitesCache ttl)) s as = some t →
      Along (step (sitesCache ttl)) (KeepsOut (sitesRevocable ttl)) s as →
      Immediate (sitesRevocable ttl) t) ∧
    (∀ s t as, Starts (tokenRevocable ttl) s → exec (step (tokenCache ttl)) s as = some t →
      Along (step (tokenCache ttl)) (KeepsOut (tokenRevocable ttl)) s as →
      Immediate (tokenRevocable ttl) t) :=
  ⟨fun _ _ _ => immediate_of_keepsOut, fun _ _ _ => immediate_of_keepsOut,
    fun _ _ _ => immediate_of_keepsOut⟩

def oneSession : State Tables Hash SessionInfo Hash where
  store := ⟨[⟨{ userID := 7, siteID := 1, email := "a@b", role := .viewer }, "hash"⟩],
    [⟨{ idHash := [1], userID := 7, siteID := 1, role := .viewer, createdAt := 1,
        lastUsedAt := 1 }, 1⟩]⟩
  clock := 1

def oneGrant : State (List GrantRow) UserID Grants (UserID × ℕ) where
  store := [⟨7, 5, .admin, false, 1⟩]
  clock := 1

def oneToken : State (List TokenRow) Hash (Option MintedToken) (ℕ × UserID) where
  store := [⟨⟨3, 8, "reports", [5], .api, 0, by decide⟩, [9], false, 1⟩]
  clock := 1

theorem oneSession_starts (ttl : ℕ) : Starts (sessionRevocable ttl) oneSession where
  good := by
    refine ⟨⟨fun r hr s hs _ => ?_, by decide⟩, by decide⟩
    rw [List.mem_singleton.mp hr, List.mem_singleton.mp hs]
  items := fun _ => rfl
  lookups := rfl
  revocations := rfl
  revoked := rfl

theorem oneGrant_starts (ttl : ℕ) : Starts (sitesRevocable ttl) oneGrant where
  good := by
    intro r hr
    rw [List.mem_singleton.mp hr]
    decide
  items := fun _ => rfl
  lookups := rfl
  revocations := rfl
  revoked := rfl

theorem oneToken_starts (ttl : ℕ) : Starts (tokenRevocable ttl) oneToken where
  good := by
    refine ⟨fun r hr s hs _ => ?_, fun r hr => ?_⟩
    · rw [List.mem_singleton.mp hr, List.mem_singleton.mp hs]
    · rw [List.mem_singleton.mp hr]
      decide
  items := fun _ => rfl
  lookups := rfl
  revocations := rfl
  revoked := rfl

private theorem oneSession_keepsOut :
    Along (step (sessionCache 60)) (KeepsOut (sessionRevocable 60))
    oneSession [.revoke [1], .commit 0 3 true, .lookup [1] 4, .load 0 4 true, .fill 0] := by
  refine ⟨trivial, fun t ht => ⟨?_, fun t' ht' => ⟨trivial, fun u hu => ⟨trivial, fun u' hu' =>
    ⟨?_, fun _ _ => trivial⟩⟩⟩⟩⟩
  · obtain rfl := Option.some.inj ht
    intro _ r st _ _ _ k v expiresAt hitem
    simp [State.dropEntries, oneSession] at hitem
  · obtain rfl := Option.some.inj ht
    obtain rfl := Option.some.inj ht'
    obtain rfl := Option.some.inj hu
    obtain rfl := Option.some.inj hu'
    intro l v hl hphase
    obtain rfl := Option.some.inj hl
    cases hphase

private theorem oneGrant_keepsOut : Along (step (sitesCache 60)) (KeepsOut (sitesRevocable 60))
    oneGrant [.revoke (7, 5), .commit 0 3 true, .drop 0, .lookup 7 4, .load 0 4 true, .fill 0] := by
  refine ⟨trivial, fun t ht => ⟨keepsOut_commit rfl, fun t₁ h₁ => ⟨trivial, fun t₂ h₂ =>
    ⟨trivial, fun t₃ h₃ => ⟨trivial, fun t₄ h₄ => ⟨?_, fun _ _ => trivial⟩⟩⟩⟩⟩⟩
  obtain rfl := Option.some.inj ht
  obtain rfl := Option.some.inj h₁
  obtain rfl := Option.some.inj h₂
  obtain rfl := Option.some.inj h₃
  obtain rfl := Option.some.inj h₄
  intro l grants hl hphase
  obtain rfl := Option.some.inj hl
  have hnone : grants = [] := by
    cases hphase
    rfl
  refine Or.inr fun r _ hreveals => ?_
  simpa [hnone] using hreveals.2

private theorem oneToken_keepsOut : Along (step (tokenCache 60)) (KeepsOut (tokenRevocable 60))
    oneToken [.revoke (3, 8), .commit 0 3 true, .drop 0, .lookup [9] 4, .load 0 4 true,
      .fill 0] := by
  refine ⟨trivial, fun t ht => ⟨keepsOut_commit rfl, fun t₁ h₁ => ⟨trivial, fun t₂ h₂ =>
    ⟨trivial, fun t₃ h₃ => ⟨trivial, fun t₄ h₄ => ⟨?_, fun _ _ => trivial⟩⟩⟩⟩⟩⟩
  obtain rfl := Option.some.inj ht
  obtain rfl := Option.some.inj h₁
  obtain rfl := Option.some.inj h₂
  obtain rfl := Option.some.inj h₃
  obtain rfl := Option.some.inj h₄
  intro l found hl hphase
  obtain rfl := Option.some.inj hl
  have hnone : found = none := by
    cases hphase
    rfl
  refine Or.inr fun r _ hreveals => ?_
  obtain ⟨m, hm, -⟩ := hreveals
  simp [hnone] at hm

/-- A look-up after the revocation, in each cache. -/
theorem immediate_revocation_before_load :
    (∃ t, exec (step (sessionCache 60)) oneSession [.revoke [1], .commit 0 3 true,
        .lookup [1] 4, .load 0 4 true, .fill 0] = some t ∧ Immediate (sessionRevocable 60) t) ∧
    (∃ t, exec (step (sitesCache 60)) oneGrant [.revoke (7, 5), .commit 0 3 true, .drop 0,
        .lookup 7 4, .load 0 4 true, .fill 0] = some t ∧ Immediate (sitesRevocable 60) t) ∧
    (∃ t, exec (step (tokenCache 60)) oneToken [.revoke (3, 8), .commit 0 3 true, .drop 0,
        .lookup [9] 4, .load 0 4 true, .fill 0] = some t ∧ Immediate (tokenRevocable 60) t) := by
  obtain ⟨hsessions, hsites, htokens⟩ := immediate_revocation 60
  exact ⟨⟨_, rfl, hsessions _ _ _ (oneSession_starts 60) rfl oneSession_keepsOut⟩,
    ⟨_, rfl, hsites _ _ _ (oneGrant_starts 60) rfl oneGrant_keepsOut⟩,
    ⟨_, rfl, htokens _ _ _ (oneToken_starts 60) rfl oneToken_keepsOut⟩⟩

/-- In each cache a look-up that loads before the revocation and fills after it makes the next
look-up yield what was revoked. -/
theorem stale_fill_outlives :
    (Starts (sessionRevocable 60) oneSession ∧
      ∃ t, exec (step (sessionCache 60)) oneSession [.lookup [1] 2, .load 0 2 true, .revoke [1],
        .commit 0 3 true, .fill 0, .lookup [1] 4] = some t ∧
      ¬ Immediate (sessionRevocable 60) t) ∧
    (Starts (sitesRevocable 60) oneGrant ∧
      ∃ t, exec (step (sitesCache 60)) oneGrant [.lookup 7 2, .load 0 2 true, .revoke (7, 5),
        .commit 0 3 true, .drop 0, .fill 0, .lookup 7 4] = some t ∧
      ¬ Immediate (sitesRevocable 60) t) ∧
    (Starts (tokenRevocable 60) oneToken ∧
      ∃ t, exec (step (tokenCache 60)) oneToken [.lookup [9] 2, .load 0 2 true, .revoke (3, 8),
        .commit 0 3 true, .drop 0, .fill 0, .lookup [9] 4] = some t ∧
      ¬ Immediate (tokenRevocable 60) t) := by
  refine ⟨⟨oneSession_starts 60, _, rfl, fun h => ?_⟩, ⟨oneGrant_starts 60, _, rfl, fun h => ?_⟩,
    ⟨oneToken_starts 60, _, rfl, fun h => ?_⟩⟩
  · exact h _ (List.mem_of_getElem? (i := 1) rfl) [1] (List.mem_singleton_self _) _ rfl rfl
  · exact h _ (List.mem_of_getElem? (i := 1) rfl) (7, 5) (List.mem_singleton_self _) _ rfl
      ⟨rfl, List.mem_singleton_self _⟩
  · exact h _ (List.mem_of_getElem? (i := 1) rfl) (3, 8) (List.mem_singleton_self _) _ rfl
      ⟨_, rfl, rfl⟩

end Statnive.CacheRevocation
