import Statnive.AuthSessions

/-!
# Revoking the sessions of a user

A session that is revoked or expired is refused from then on, one that is not of its user's
role as long as the user keeps the role. A cascade revokes the sessions of a user one look-up at
a time and ends at the first look-up that fails otherwise, as it does for a disabled user.
-/

namespace Statnive.SessionCascade

open AuthTypes AuthStore AuthSessions

/-- A session that is neither revoked nor expired. -/
def Live (r : SessionRow) (now : ℕ) : Prop :=
  r.session.revokedAt = 0 ∧ ¬ (0 < r.session.expiresAt ∧ r.session.expiresAt ≤ now)

def NoLiveSession (db : Tables) (userID : UserID) (now : ℕ) : Prop :=
  ∀ r ∈ db.sessions, r.session.userID = userID → ¬ Live r now

/-- A session keeps its user, its role and its expiry, and it stays revoked. -/
structure Persists (r r' : SessionRow) : Prop where
  userID : r'.session.userID = r.session.userID
  role : r'.session.role = r.session.role
  expiresAt : r'.session.expiresAt = r.session.expiresAt
  revoked : 0 < r.session.revokedAt → 0 < r'.session.revokedAt

def SessionsPersist (sessions sessions' : List SessionRow) : Prop :=
  ∀ hash r, selectSession sessions hash = some r →
    ∃ r', selectSession sessions' hash = some r' ∧ Persists r r'

/-- Sessions under their own keys, none from later than the clock. -/
structure Fits (sessions : List SessionRow) (clock : ℕ) : Prop where
  keys : SessionKeys sessions
  versions : ∀ r ∈ sessions, r.updatedAt ≤ clock

/-- Refused from now on: the session is revoked, expired, or not of its user's role. -/
def Dead (db : Tables) (hash : Hash) (clock : ℕ) : Prop :=
  ∃ r, selectSession db.sessions hash = some r ∧
    (0 < r.session.revokedAt ∨ (0 < r.session.expiresAt ∧ r.session.expiresAt ≤ clock) ∨
      ∀ v, selectUser db.users r.session.userID = some v → v.user.role ≠ r.session.role)

theorem Persists.refl (r : SessionRow) : Persists r r := ⟨rfl, rfl, rfl, id⟩

theorem Persists.trans {r s t : SessionRow} (h : Persists r s) (h' : Persists s t) :
    Persists r t :=
  ⟨h'.userID.trans h.userID, h'.role.trans h.role, h'.expiresAt.trans h.expiresAt,
    fun hr => h'.revoked (h.revoked hr)⟩

theorem SessionsPersist.refl (sessions : List SessionRow) : SessionsPersist sessions sessions :=
  fun _ r hr => ⟨r, hr, Persists.refl r⟩

theorem SessionsPersist.trans {l l' l'' : List SessionRow} (h : SessionsPersist l l')
    (h' : SessionsPersist l' l'') : SessionsPersist l l'' := by
  intro hash r hr
  obtain ⟨r', hr', hp⟩ := h hash r hr
  obtain ⟨r'', hr'', hp'⟩ := h' hash r' hr'
  exact ⟨r'', hr'', hp.trans hp'⟩

theorem Fits.mono {sessions : List SessionRow} {clock now : ℕ} (h : Fits sessions clock)
    (hnow : clock ≤ now) : Fits sessions now :=
  ⟨h.keys, fun r hr => (h.versions r hr).trans hnow⟩

theorem Fits.insert {sessions : List SessionRow} {clock now : ℕ} (h : Fits sessions clock)
    (hnow : clock ≤ now) {sess : Session}
    (hsite : ∀ r, selectSession sessions sess.idHash = some r → sess.siteID = r.session.siteID) :
    Fits (insertSession sessions sess now) now := by
  refine ⟨h.keys.insert hsite now, fun r hr => ?_⟩
  rcases ReplacingTable.mem_insert hr with rfl | hr
  · exact Nat.le_refl now
  · exact (h.versions r hr).trans hnow

/-- A row with a stamp that is not behind the clock becomes the visible one. -/
theorem Fits.select_insert {sessions : List SessionRow} {clock now : ℕ} (h : Fits sessions clock)
    (hnow : clock ≤ now) {sess : Session} {old : SessionRow}
    (hold : selectSession sessions sess.idHash = some old)
    (hsite : sess.siteID = old.session.siteID) :
    selectSession (insertSession sessions sess now) sess.idHash = some ⟨sess, now⟩ := by
  have hle : old.version ≤ SessionRow.version ⟨sess, now⟩ :=
    Int.ofNat_le.mpr ((h.versions old (selectSession_mem hold).1).trans hnow)
  rw [selectSession_insert h.keys hold hsite, ReplacingTable.newer, if_pos hle]

theorem Dead.persist {db db' : Tables} {hash : Hash} {clock now : ℕ} (h : Dead db hash clock)
    (hnow : clock ≤ now) (hsessions : SessionsPersist db.sessions db'.sessions)
    (hroles : ∀ r, selectSession db.sessions hash = some r →
      ∀ v', selectUser db'.users r.session.userID = some v' →
        ∃ v, selectUser db.users r.session.userID = some v ∧ v'.user.role = v.user.role) :
    Dead db' hash now := by
  obtain ⟨r, hr, hdead⟩ := h
  obtain ⟨r', hr', hp⟩ := hsessions hash r hr
  refine ⟨r', hr', ?_⟩
  rcases hdead with hrevoked | ⟨hpos, hexp⟩ | hdrift
  · exact Or.inl (hp.revoked hrevoked)
  · rw [hp.expiresAt]
    exact Or.inr (Or.inl ⟨hpos, hexp.trans hnow⟩)
  · refine Or.inr (Or.inr fun v' hv' => ?_)
    rw [hp.userID] at hv'
    obtain ⟨v, hv, hrole⟩ := hroles r hr v' hv'
    rw [hrole, hp.role]
    exact hdrift v hv

theorem getUserByID_ok {users : List UserRow} {userID : UserID} {u : User}
    (h : getUserByID users userID = .ok u) :
    ∃ v, selectUser users userID = some v ∧ v.user = u := by
  simp only [getUserByID] at h
  split_ifs at h
  cases hv : selectUser users userID with
  | none => simp [hv] at h
  | some v => exact ⟨v, rfl, by simpa [hv] using h⟩

theorem getUserByID_error {users : List UserRow} {userID : UserID} {e : AuthError}
    (h : getUserByID users userID = .error e) : e = .invalidInput ∨ e = .notFound := by
  simp only [getUserByID] at h
  split_ifs at h
  · exact Or.inl (by simpa [eq_comm] using h)
  · cases hv : selectUser users userID with
    | none => exact Or.inr (by simpa [hv, eq_comm] using h)
    | some v => simp [hv] at h

/-- What an accepted session is like. -/
theorem lookupSession_ok {db : Tables} {hash : Hash} {now : ℕ} {info : SessionInfo}
    (h : lookupSession db hash now = .ok info) :
    ∃ r v, selectSession db.sessions hash = some r ∧ r.session = info.session ∧
      selectUser db.users r.session.userID = some v ∧ v.user = info.user ∧ Live r now ∧
      v.user.disabled = false ∧ v.user.role = r.session.role := by
  simp only [lookupSession] at h
  cases hr : selectSession db.sessions hash with
  | none => simp [hr] at h
  | some r =>
    simp only [hr] at h
    split_ifs at h with hrevoked hexpired
    cases hu : getUserByID db.users r.session.userID with
    | error e => simp [hu] at h
    | ok u =>
      simp only [hu] at h
      split_ifs at h with hdisabled hrole
      obtain ⟨v, hv, rfl⟩ := getUserByID_ok hu
      obtain rfl := Except.ok.inj h
      exact ⟨r, v, rfl, rfl, hv, rfl, ⟨by omega, hexpired⟩, by simpa using hdisabled,
        by simpa using hrole⟩

theorem Dead.not_ok {db : Tables} {hash : Hash} {clock now : ℕ} (h : Dead db hash clock)
    (hnow : clock ≤ now) (info : SessionInfo) : lookupSession db hash now ≠ .ok info := by
  intro hok
  obtain ⟨r, v, hr, -, hv, -, ⟨hrevoked, hexpired⟩, -, hrole⟩ := lookupSession_ok hok
  obtain ⟨r', hr', hdead⟩ := h
  obtain rfl : r = r' := Option.some.inj (hr.symm.trans hr')
  rcases hdead with hdead | ⟨hpos, hexp⟩ | hdrift
  · omega
  · exact hexpired ⟨hpos, hexp.trans hnow⟩
  · exact hdrift v hv hrole

/-- A look-up that says expired or revoked says so from then on. -/
theorem dead_of_refused {db : Tables} {hash : Hash} {now : ℕ}
    (h : lookupSession db hash now = .error .expired ∨
      lookupSession db hash now = .error .revoked) : Dead db hash now := by
  cases hr : selectSession db.sessions hash with
  | none => simp [lookupSession, hr] at h
  | some r =>
    refine ⟨r, hr, ?_⟩
    by_cases hrevoked : 0 < r.session.revokedAt
    · exact Or.inl hrevoked
    · by_cases hexpired : 0 < r.session.expiresAt ∧ r.session.expiresAt ≤ now
      · exact Or.inr (Or.inl hexpired)
      · refine Or.inr (Or.inr fun v hv hrole => ?_)
        simp only [lookupSession, hr, hrevoked, hexpired, if_false] at h
        cases hu : getUserByID db.users r.session.userID with
        | error e =>
          simp only [hu] at h
          rcases getUserByID_error hu with rfl | rfl <;> simp at h
        | ok u =>
          obtain ⟨v', hv', rfl⟩ := getUserByID_ok hu
          obtain rfl : v = v' := Option.some.inj (hv.symm.trans hv')
          simp only [hu, hrole] at h
          cases hdisabled : v.user.disabled <;> simp [hdisabled] at h

/-- What a call that revokes leaves of the tables. -/
structure Revokes (db db' : Tables) (now : ℕ) : Prop where
  users : db'.users = db.users
  fits : Fits db'.sessions now
  persist : SessionsPersist db.sessions db'.sessions

theorem Revokes.refl {db : Tables} {now : ℕ} (h : Fits db.sessions now) : Revokes db db now :=
  ⟨rfl, h, SessionsPersist.refl _⟩

theorem Revokes.trans {db db' db'' : Tables} {now : ℕ} (h : Revokes db db' now)
    (h' : Revokes db' db'' now) : Revokes db db'' now :=
  ⟨h'.users.trans h.users, h'.fits, h.persist.trans h'.persist⟩

theorem Revokes.dead {db db' : Tables} {hash : Hash} {now : ℕ} (h : Revokes db db' now)
    (hdead : Dead db hash now) : Dead db' hash now := by
  apply hdead.persist (Nat.le_refl now) h.persist
  intro r _ v' hv'
  exact ⟨v', h.users ▸ hv', rfl⟩

theorem revokeSession_ok {db db' : Tables} {hash : Hash} {now : ℕ} (hfits : Fits db.sessions now)
    (hpos : 0 < now) (h : revokeSession db hash now = .ok db') :
    Revokes db db' now ∧ Dead db' hash now := by
  cases hlook : lookupSession db hash now with
  | error e =>
    have hrefused : db = db' ∧ (e = .expired ∨ e = .revoked) := by
      cases e <;> simp_all [revokeSession]
    obtain ⟨rfl, he⟩ := hrefused
    exact ⟨Revokes.refl hfits, dead_of_refused (by rcases he with rfl | rfl <;> simp [hlook])⟩
  | ok info =>
    obtain ⟨r, v, hr, hsess, -⟩ := lookupSession_ok hlook
    have hhash : info.session.idHash = hash := hsess ▸ (selectSession_mem hr).2
    obtain rfl : { db with
        sessions := insertSession db.sessions { info.session with revokedAt := now } now } =
        db' := by simpa [revokeSession, hlook] using h
    have hold : selectSession db.sessions
        ({ info.session with revokedAt := now } : Session).idHash = some r := hhash ▸ hr
    have hsite : ∀ r', selectSession db.sessions
        ({ info.session with revokedAt := now } : Session).idHash = some r' →
          info.session.siteID = r'.session.siteID := by
      intro r' hr'
      obtain rfl : r = r' := Option.some.inj (hold.symm.trans hr')
      rw [hsess]
    have hnew := hfits.select_insert (Nat.le_refl now) hold (hsite r hold)
    refine ⟨⟨rfl, hfits.insert (Nat.le_refl now) hsite, ?_⟩, _, hhash ▸ hnew, Or.inl hpos⟩
    intro other r' hr'
    by_cases hne : info.session.idHash = other
    · obtain rfl : r = r' := by
        rw [← hne] at hr'
        exact Option.some.inj (hold.symm.trans hr')
      exact ⟨_, hne ▸ hnew, by simp [hsess], by simp [hsess], by simp [hsess], fun _ => hpos⟩
    · refine ⟨r', ?_, Persists.refl r'⟩
      rw [← hr']
      have hne' : ({ info.session with revokedAt := now } : Session).idHash ≠ other := hne
      exact selectSession_insert_of_ne hne' now

theorem revokeEach_revokes {db : Tables} {now : ℕ} (hfits : Fits db.sessions now)
    (hpos : 0 < now) (hashes : List Hash) : Revokes db (revokeEach db now hashes).1 now := by
  induction hashes generalizing db with
  | nil => exact Revokes.refl hfits
  | cons hash hashes ih =>
    cases hrevoke : revokeSession db hash now with
    | error e =>
      simp only [revokeEach, hrevoke]
      exact Revokes.refl hfits
    | ok db' =>
      have hone := (revokeSession_ok hfits hpos hrevoke).1
      simp only [revokeEach, hrevoke]
      exact hone.trans (ih hone.fits)

theorem revokeAll_revokes {db : Tables} {now : ℕ} (hfits : Fits db.sessions now) (hpos : 0 < now)
    (userID : UserID) : Revokes db (revokeAllUserSessions db userID now).1 now :=
  revokeEach_revokes hfits hpos _

/-- When no call fails, every listed session is dead. -/
theorem revokeEach_dead {db : Tables} {now : ℕ} (hfits : Fits db.sessions now) (hpos : 0 < now)
    {hashes : List Hash} (h : (revokeEach db now hashes).2 = none) :
    ∀ hash ∈ hashes, Dead (revokeEach db now hashes).1 hash now := by
  induction hashes generalizing db with
  | nil => simp
  | cons first hashes ih =>
    cases hrevoke : revokeSession db first now with
    | error e => simp [revokeEach, hrevoke] at h
    | ok db' =>
      obtain ⟨hone, hdead⟩ := revokeSession_ok hfits hpos hrevoke
      simp only [revokeEach, hrevoke] at h ⊢
      intro hash hmem
      rcases List.mem_cons.mp hmem with rfl | hmem
      · exact (revokeEach_revokes hone.fits hpos hashes).dead hdead
      · exact ih hone.fits h hash hmem

/-- After a cascade without an error every session of the user is dead. -/
theorem revokeAll_dead {db : Tables} {userID : UserID} {now : ℕ} (hfits : Fits db.sessions now)
    (hpos : 0 < now) (h : (revokeAllUserSessions db userID now).2 = none) {hash : Hash}
    {r : SessionRow} (hr : selectSession db.sessions hash = some r)
    (huser : r.session.userID = userID) :
    Dead (revokeAllUserSessions db userID now).1 hash now := by
  obtain ⟨hmem, hhash⟩ := selectSession_mem hr
  by_cases hrevoked : 0 < r.session.revokedAt
  · exact (revokeEach_revokes hfits hpos _).dead ⟨r, hr, Or.inl hrevoked⟩
  · apply revokeEach_dead hfits hpos h
    refine List.mem_map.mpr ⟨r, List.mem_filter.mpr ⟨hmem, ?_⟩, hhash⟩
    simpa using ⟨huser, by omega⟩

/-- A user whose sessions are all refused with an error that ends the cascade. -/
def Blocked (users : List UserRow) (userID : UserID) : Prop :=
  ∀ v, selectUser users userID = some v → v.user.disabled = true

theorem revokeSession_of_not_live {db : Tables} {hash : Hash} {now : ℕ} {r : SessionRow}
    (hr : selectSession db.sessions hash = some r) (h : ¬ Live r now) :
    revokeSession db hash now = .ok db := by
  have hrefused : lookupSession db hash now = .error .revoked ∨
      lookupSession db hash now = .error .expired := by
    by_cases hrevoked : 0 < r.session.revokedAt
    · simp [lookupSession, hr, hrevoked]
    · have hexpired : 0 < r.session.expiresAt ∧ r.session.expiresAt ≤ now := by
        by_contra hne
        exact h ⟨by omega, hne⟩
      simp [lookupSession, hr, hrevoked, hexpired]
  rcases hrefused with h | h <;> simp [revokeSession, h]

theorem revokeSession_blocked {db : Tables} {hash : Hash} {now : ℕ} {r : SessionRow}
    (hr : selectSession db.sessions hash = some r) (hlive : Live r now)
    (hblocked : Blocked db.users r.session.userID) :
    ∃ e, revokeSession db hash now = .error e := by
  have hlook : lookupSession db hash now = .error .invalidInput ∨
      lookupSession db hash now = .error .notFound ∨
      lookupSession db hash now = .error .disabled := by
    simp only [lookupSession, hr, hlive.1, hlive.2, Nat.lt_irrefl, if_false]
    cases hu : getUserByID db.users r.session.userID with
    | error e => rcases getUserByID_error hu with rfl | rfl <;> simp
    | ok u =>
      obtain ⟨v, hv, rfl⟩ := getUserByID_ok hu
      simp [hblocked v hv]
  rcases hlook with h | h | h <;> simp [revokeSession, h]

/-- The cascade over a blocked user fails exactly when a listed session is live. -/
theorem revokeEach_blocked {db : Tables} {userID : UserID} {now : ℕ}
    (hblocked : Blocked db.users userID) {hashes : List Hash}
    (howned : ∀ hash ∈ hashes, ∃ r, selectSession db.sessions hash = some r ∧
      r.session.userID = userID) :
    (revokeEach db now hashes).2 = none ↔
      ∀ hash ∈ hashes, ∀ r, selectSession db.sessions hash = some r → ¬ Live r now := by
  induction hashes with
  | nil => simp [revokeEach]
  | cons hash hashes ih =>
    obtain ⟨r, hr, rfl⟩ := howned hash (by simp)
    by_cases hlive : Live r now
    · obtain ⟨e, he⟩ := revokeSession_blocked hr hlive hblocked
      simp [revokeEach, he, hr, hlive]
    · have hok := revokeSession_of_not_live hr hlive
      have hrest := ih (fun h hh => howned h (List.mem_cons_of_mem _ hh))
      simp [revokeEach, hok, hrest, hr, hlive]

private theorem revokeSession_enabled {db : Tables} {hash : Hash} (now : ℕ) {r : SessionRow}
    {v : UserRow} (hr : selectSession db.sessions hash = some r)
    (hv : selectUser db.users r.session.userID = some v) (hid : r.session.userID ≠ uuidNil)
    (henabled : v.user.disabled = false) : ∃ db', revokeSession db hash now = .ok db' := by
  by_cases hlive : Live r now
  · have hlook : lookupSession db hash now = .error .revoked ∨
        lookupSession db hash now = .ok ⟨v.user, r.session⟩ := by
      simp only [lookupSession, hr, hlive.1, hlive.2, Nat.lt_irrefl, if_false, getUserByID, hid,
        hv, henabled]
      by_cases hrole : v.user.role = r.session.role <;> simp [hrole]
    rcases hlook with h | h <;> simp [revokeSession, h]
  · exact ⟨db, revokeSession_of_not_live hr hlive⟩

/-- The cascade over an enabled user does not fail. -/
theorem revokeEach_enabled {db : Tables} {userID : UserID} {now : ℕ} {v : UserRow}
    (hfits : Fits db.sessions now) (hpos : 0 < now)
    (hv : selectUser db.users userID = some v) (hid : userID ≠ uuidNil)
    (henabled : v.user.disabled = false) {hashes : List Hash}
    (howned : ∀ hash ∈ hashes, ∃ r, selectSession db.sessions hash = some r ∧
      r.session.userID = userID) : (revokeEach db now hashes).2 = none := by
  induction hashes generalizing db with
  | nil => rfl
  | cons hash hashes ih =>
    obtain ⟨r, hr, rfl⟩ := howned hash (by simp)
    obtain ⟨db', hdb'⟩ := revokeSession_enabled now hr hv hid henabled
    obtain ⟨hrevokes, -⟩ := revokeSession_ok hfits hpos hdb'
    simp only [revokeEach, hdb']
    apply ih hrevokes.fits
    · rw [hrevokes.users]
      exact hv
    · intro h hh
      obtain ⟨s, hs, huser⟩ := howned h (List.mem_cons_of_mem _ hh)
      obtain ⟨s', hs', hp⟩ := hrevokes.persist h s hs
      exact ⟨s', hs', hp.userID.trans huser⟩

theorem activeSessions_owned {db : Tables} (hkeys : SessionKeys db.sessions) {userID : UserID} :
    ∀ hash ∈ activeSessions db userID, ∃ r, selectSession db.sessions hash = some r ∧
      r.session.userID = userID := by
  intro hash hmem
  obtain ⟨r, hr, rfl⟩ := List.mem_map.mp hmem
  obtain ⟨hr, hcond⟩ := List.mem_filter.mp hr
  exact ⟨r, hkeys.select hr, (by simpa using hcond : _ ∧ _).1⟩

theorem revokeAll_blocked {db : Tables} (hkeys : SessionKeys db.sessions) {userID : UserID}
    {now : ℕ} (hblocked : Blocked db.users userID) :
    (revokeAllUserSessions db userID now).2 = none ↔ NoLiveSession db userID now := by
  rw [revokeAllUserSessions, revokeEach_blocked hblocked (activeSessions_owned hkeys)]
  constructor
  · intro h r hr huser hlive
    have hmem : r.session.idHash ∈ activeSessions db userID :=
      List.mem_map.mpr ⟨r, List.mem_filter.mpr ⟨hr, by simpa using ⟨huser, hlive.1⟩⟩, rfl⟩
    exact h _ hmem r (hkeys.select hr) hlive
  · intro h hash hmem r hr
    obtain ⟨r', hr', huser⟩ := activeSessions_owned hkeys hash hmem
    obtain rfl : r = r' := Option.some.inj (hr.symm.trans hr')
    exact h r (selectSession_mem hr).1 huser

end Statnive.SessionCascade
