import Statnive.AccountChanges
import Statnive.LabelledRuns

/-!
# Sessions after a change of their user

A change of a user through the cached store is followed by the revocation of the user's
sessions, one look-up at a time. The look-up of a session of a disabled or deleted user
fails, so the cascade ends there and the operation with it, although the change is made.
-/

namespace Statnive.SessionRevocation

open AuthTypes AuthStore AuthSessions SessionCascade AccountChanges LabelledRuns

/-- `condemned` lists the sessions that existed before a change of their user. -/
structure State where
  store : CachedStore
  clock : ℕ
  condemned : List Hash := []

inductive Action where
  | operate (userID : UserID) (op : Operation) (now : ℕ)
  | enable (userID : UserID) (now : ℕ)
  | login (sess : Session) (now : ℕ)
  | lookup (hash : Hash) (now : ℕ)
  | logout (hash : Hash) (now : ℕ)

def Action.now : Action → ℕ
  | .operate _ _ now | .enable _ now | .login _ now | .lookup _ now | .logout _ now => now

/-- The change is made to an existing user. -/
def Accepted (s : State) (userID : UserID) (op : Operation) (now : ℕ) : Prop :=
  ∃ v users, selectUser s.store.db.users userID = some v ∧
    op.mutate userID now s.store.db.users = .ok users

def sessionsOf (db : Tables) (userID : UserID) : List Hash :=
  (db.sessions.filter (fun r => r.session.userID = userID)).map (fun r => r.session.idHash)

def condemn (s : State) (userID : UserID) (op : Operation) (now : ℕ) : List Hash :=
  match selectUser s.store.db.users userID, op.mutate userID now s.store.db.users with
  | some _, .ok _ => s.condemned ++ sessionsOf s.store.db userID
  | _, _ => s.condemned

def after (s : State) (a : Action) : State :=
  match a with
  | .operate userID op now =>
    ⟨(op.run s.store userID now).1, now, condemn s userID op now⟩
  | .enable userID now =>
    { s with
      store := { s.store with
        db := { s.store.db with users := enableUser s.store.db.users userID now } }
      clock := now }
  | .login sess now => { s with store := (s.store.create sess now).1, clock := now }
  | .lookup hash now => { s with store := (s.store.lookup hash now).1, clock := now }
  | .logout hash now => { s with store := (s.store.revoke hash now).1, clock := now }

/-- A session token is random: no two sessions have one. -/
def Enabled (s : State) : Action → Prop
  | .login sess _ => selectSession s.store.db.sessions sess.idHash = none
  | _ => True

instance (s : State) (a : Action) : Decidable (Enabled s a) := by
  cases a <;> unfold Enabled <;> infer_instance

/-- Time does not go back from one action to the next. -/
def step (s : State) (a : Action) : Option State :=
  if s.clock ≤ a.now ∧ Enabled s a then some (after s a) else none

/-- Rows under their own keys, no later than the clock, and an empty cache. -/
structure Starts (s : State) : Prop where
  users : UserKeys s.store.db.users
  userVersions : ∀ r ∈ s.store.db.users, r.version ≤ s.clock
  sessions : SessionKeys s.store.db.sessions
  sessionVersions : ∀ r ∈ s.store.db.sessions, r.updatedAt ≤ s.clock
  clock : 0 < s.clock
  items : ∀ hash, s.store.items hash = none
  condemned : s.condemned = []

/-- An accepted change returns success. -/
def Succeeds (s : State) (a : Action) : Prop :=
  ∀ userID op now, a = .operate userID op now → Accepted s userID op now →
    (op.run s.store userID now).2 = none

/-- The user stays enabled, or has no live session. -/
def CanCascade (s : State) (a : Action) : Prop :=
  ∀ userID op now, a = .operate userID op now → Accepted s userID op now →
    StaysEnabled s.store.db.users userID op ∨ NoLiveSession s.store.db userID now

/-- No session that existed before a change of its user is accepted, now or later. -/
def NotAccepted (s : State) : Prop :=
  ∀ hash ∈ s.condemned, ∀ now, s.clock ≤ now → ∀ info, (s.store.lookup hash now).2 ≠ .ok info

structure Inv (s : State) : Prop where
  users : UserKeys s.store.db.users
  userVersions : ∀ r ∈ s.store.db.users, r.version ≤ s.clock
  sessions : Fits s.store.db.sessions s.clock
  clock : 0 < s.clock
  indexed : Indexed s.store

/-- The condemned sessions are dead, and out of the cache. -/
def Condemned (s : State) : Prop :=
  ∀ hash ∈ s.condemned, s.store.items hash = none ∧ Dead s.store.db hash s.clock

theorem inv_of_starts {s : State} (h : Starts s) : Inv s := by
  refine ⟨h.users, h.userVersions, ⟨h.sessions, h.sessionVersions⟩, h.clock, ?_⟩
  intro hash e he
  simp [h.items hash] at he

/-- The cascade of an accepted change fails exactly when it comes to a live session of a user
who is not left enabled. -/
theorem run_succeeds_iff {s : State} (hs : Inv s) {op : Operation} {userID : UserID} {now : ℕ}
    (hnow : s.clock ≤ now) {v : UserRow} {users : List UserRow}
    (hv : selectUser s.store.db.users userID = some v)
    (hok : op.mutate userID now s.store.db.users = .ok users) :
    (op.run s.store userID now).2 = none ↔
      StaysEnabled s.store.db.users userID op ∨ NoLiveSession s.store.db userID now := by
  have hfits : Fits s.store.db.sessions now := hs.sessions.mono hnow
  have hpos : 0 < now := lt_of_lt_of_le hs.clock hnow
  have hrun : (op.run s.store userID now).2 =
      (revokeAllUserSessions { s.store.db with users := users } userID now).2 := by
    rw [run_of_ok hok]
    rfl
  let db : Tables := { s.store.db with users := users }
  have hfitsdb : Fits db.sessions now := hfits
  have howned : ∀ hash ∈ activeSessions db userID, ∃ r, selectSession db.sessions hash = some r ∧
      r.session.userID = userID := activeSessions_owned hfitsdb.keys
  rw [hrun]
  by_cases hstays : StaysEnabled s.store.db.users userID op
  · refine iff_of_true ?_ (Or.inl hstays)
    obtain ⟨ch, v₀, rfl, hne, hv₀, henabled⟩ := hstays
    obtain ⟨hnil, -, v₁, v', hv₁, hv', hdisabled⟩ :=
      change_ok hs.users hs.userVersions hnow hok
    obtain rfl : v₀ = v₁ := Option.some.inj (hv₀.symm.trans hv₁)
    have hvdb : selectUser db.users userID = some v' := hv'
    exact revokeEach_enabled hfitsdb hpos hvdb hnil
      (by simpa [hne, henabled] using hdisabled) howned
  · have hblocked : Blocked db.users userID := by
      cases op with
      | delete =>
        intro v' hv'
        have hnone : selectUser db.users userID = none :=
          (delete_ok hs.users hs.userVersions hnow hok).2
        simp [hnone] at hv'
      | change ch =>
        obtain ⟨-, -, v₁, v₂, hv₁, hv₂, hdisabled⟩ := change_ok hs.users hs.userVersions hnow hok
        intro v' hv'
        obtain rfl : v₂ = v' := Option.some.inj (hv₂.symm.trans hv')
        rw [hdisabled]
        by_contra hfalse
        apply hstays
        exact ⟨ch, v₁, rfl, by simp_all, hv₁, by simp_all⟩
    simp only [hstays, false_or]
    exact revokeAll_blocked hfitsdb.keys hblocked

theorem succeeds_iff {s : State} (hs : Inv s) {a : Action} (hnow : s.clock ≤ a.now) :
    Succeeds s a ↔ CanCascade s a := by
  constructor
  · rintro h userID op now rfl ⟨v, users, hv, hok⟩
    exact (run_succeeds_iff hs hnow hv hok).mp (h userID op now rfl ⟨v, users, hv, hok⟩)
  · rintro h userID op now rfl ⟨v, users, hv, hok⟩
    exact (run_succeeds_iff hs hnow hv hok).mpr (h userID op now rfl ⟨v, users, hv, hok⟩)

/-- The tables, the index and the clock after an action, and what sessions keep over it. -/
structure Effect (s : State) (store : CachedStore) (now : ℕ) : Prop where
  users : UserKeys store.db.users
  userVersions : ∀ r ∈ store.db.users, r.version ≤ now
  fits : Fits store.db.sessions now
  persist : SessionsPersist s.store.db.sessions store.db.sessions
  indexed : Indexed store

theorem Effect.unchanged {s : State} (hs : Inv s) {now : ℕ} (hnow : s.clock ≤ now)
    {store : CachedStore} (hdb : store.db = s.store.db) (hindexed : Indexed store) :
    Effect s store now := by
  refine ⟨?_, ?_, ?_, ?_, hindexed⟩ <;> rw [hdb]
  · exact hs.users
  · exact fun r hr => (hs.userVersions r hr).trans (Int.ofNat_le.mpr hnow)
  · exact hs.sessions.mono hnow
  · exact SessionsPersist.refl _

theorem operate_effect {s : State} (hs : Inv s) (op : Operation) (userID : UserID) {now : ℕ}
    (hnow : s.clock ≤ now) : Effect s (op.run s.store userID now).1 now := by
  cases hmutate : op.mutate userID now s.store.db.users with
  | error e =>
    rw [run_of_error hmutate]
    exact Effect.unchanged hs hnow rfl hs.indexed
  | ok users =>
    have hmutates := mutate_ok hs.users hs.userVersions hnow hmutate
    have hfits : Fits ({ s.store.db with users := users } : Tables).sessions now :=
      hs.sessions.mono hnow
    have hrevokes := revokeAll_revokes hfits (lt_of_lt_of_le hs.clock hnow) userID
    have hindexed : Indexed { s.store with db := { s.store.db with users := users } } :=
      hs.indexed.withDB (SessionsPersist.refl _)
    rw [run_of_ok hmutate]
    refine ⟨?_, ?_, hrevokes.fits, hrevokes.persist, ?_⟩
    · exact hrevokes.users ▸ hmutates.keys
    · exact hrevokes.users ▸ hmutates.versions
    · exact (hindexed.forgetUser userID).withDB hrevokes.persist

theorem enableUser_mutates {s : State} (hs : Inv s) (userID : UserID) {now : ℕ}
    (hnow : s.clock ≤ now) :
    Mutates s.store.db.users (enableUser s.store.db.users userID now) userID now ∧
      ∀ v', selectUser (enableUser s.store.db.users userID now) userID = some v' →
        ∃ v, selectUser s.store.db.users userID = some v ∧ v'.user.role = v.user.role := by
  cases hv : selectUser s.store.db.users userID with
  | none =>
    simp only [enableUser, hv]
    refine ⟨⟨hs.users, fun r hr => ?_, fun _ _ => rfl⟩, by simp⟩
    exact (hs.userVersions r hr).trans (Int.ofNat_le.mpr hnow)
  | some v =>
    simp only [enableUser, hv]
    obtain ⟨hmutates, hnew⟩ := insert_mutates
      (u := { v.user with disabled := false, updatedAt := now }) v.passwordHash hs.users
      hs.userVersions hnow hv (selectUser_mem hv).2 rfl rfl
    refine ⟨hmutates, fun v' hv' => ⟨v, rfl, ?_⟩⟩
    rw [hnew] at hv'
    obtain rfl := Option.some.inj hv'
    rfl

private theorem enable_effect {s : State} (hs : Inv s) (userID : UserID) {now : ℕ}
    (hnow : s.clock ≤ now) : Effect s { s.store with
      db := { s.store.db with users := enableUser s.store.db.users userID now } } now := by
  obtain ⟨hmutates, -⟩ := enableUser_mutates hs userID hnow
  exact ⟨hmutates.keys, hmutates.versions, hs.sessions.mono hnow, SessionsPersist.refl _,
    hs.indexed.withDB (SessionsPersist.refl _)⟩

theorem load_effect {s : State} (hs : Inv s) (hash : Hash) {now : ℕ} (hnow : s.clock ≤ now) :
    Effect s (s.store.load hash now).1 now := by
  cases hlook : lookupSession s.store.db hash now with
  | error e =>
    simp only [CachedStore.load, hlook]
    exact Effect.unchanged hs hnow rfl (hs.indexed.drop hash)
  | ok info =>
    obtain ⟨r, v, hr, -, hv, hinfo, -⟩ := lookupSession_ok hlook
    have huser : r.session.userID = info.user.userID := by
      rw [← hinfo]
      exact (selectUser_mem hv).2.symm
    simp only [CachedStore.load, hlook]
    exact Effect.unchanged hs hnow rfl (hs.indexed.fill hr huser now)

private theorem lookup_effect
    {s : State} (hs : Inv s) (hash : Hash) {now : ℕ} (hnow : s.clock ≤ now) :
    Effect s (s.store.lookup hash now).1 now := by
  cases hitem : s.store.items hash with
  | none =>
    simp only [CachedStore.lookup, hitem]
    exact load_effect hs hash hnow
  | some cached =>
    simp only [CachedStore.lookup, hitem]
    by_cases hfresh : now < cached.expiresAt
    · rw [if_pos hfresh]
      exact Effect.unchanged hs hnow rfl hs.indexed
    · rw [if_neg hfresh]
      exact load_effect hs hash hnow

theorem logout_effect {s : State} (hs : Inv s) (hash : Hash) {now : ℕ} (hnow : s.clock ≤ now) :
    Effect s (s.store.revoke hash now).1 now ∧
      (s.store.revoke hash now).1.db.users = s.store.db.users := by
  have hforget : (s.store.forget hash).db = s.store.db := by
    simp only [CachedStore.forget]
    cases s.store.items hash <;> rfl
  cases hrevoke : revokeSession s.store.db hash now with
  | error e =>
    simp only [CachedStore.revoke, hrevoke]
    exact ⟨Effect.unchanged hs hnow hforget (hs.indexed.forget hash), by rw [hforget]⟩
  | ok db =>
    have hrevokes := (revokeSession_ok (hs.sessions.mono hnow)
      (lt_of_lt_of_le hs.clock hnow) hrevoke).1
    simp only [CachedStore.revoke, hrevoke]
    refine ⟨⟨hrevokes.users ▸ hs.users, fun r hr => ?_, hrevokes.fits, hrevokes.persist, ?_⟩,
      hrevokes.users⟩
    · exact (hs.userVersions r (hrevokes.users ▸ hr)).trans (Int.ofNat_le.mpr hnow)
    · exact (hs.indexed.forget hash).withDB (by rw [hforget]; exact hrevokes.persist)

theorem login_effect {s : State} (hs : Inv s) {sess : Session}
    (hnew : selectSession s.store.db.sessions sess.idHash = none) {now : ℕ}
    (hnow : s.clock ≤ now) : Effect s (s.store.create sess now).1 now ∧
      (s.store.create sess now).1.db.users = s.store.db.users ∧
      ∀ hash, sess.idHash ≠ hash →
        (s.store.create sess now).1.items hash = s.store.items hash := by
  cases hcreate : createSession s.store.db sess now with
  | error e =>
    simp only [CachedStore.create, hcreate]
    exact ⟨Effect.unchanged hs hnow rfl hs.indexed, by simp⟩
  | ok created =>
    obtain ⟨db, stamped⟩ := created
    obtain ⟨rfl, hhash, -⟩ := createSession_ok hcreate
    rw [← hhash] at hnew
    have hpersist : SessionsPersist s.store.db.sessions
        (insertSession s.store.db.sessions stamped now) := by
      intro hash r hr
      have hne : stamped.idHash ≠ hash := by
        rintro rfl
        simp [hnew] at hr
      exact ⟨r, by rw [selectSession_insert_of_ne hne, hr], Persists.refl r⟩
    have hfits : Fits (insertSession s.store.db.sessions stamped now) now :=
      hs.sessions.insert hnow (by simp [hnew])
    have hversions : ∀ r ∈ s.store.db.users, r.version ≤ now :=
      fun r hr => (hs.userVersions r hr).trans (Int.ofNat_le.mpr hnow)
    have hindexed : Indexed { s.store with db := { s.store.db with
        sessions := insertSession s.store.db.sessions stamped now } } :=
      hs.indexed.withDB hpersist
    cases hu : getUserByID s.store.db.users stamped.userID with
    | error e =>
      simp only [CachedStore.create, hcreate, hu]
      exact ⟨⟨hs.users, hversions, hfits, hpersist, hindexed⟩, trivial, fun _ _ => trivial⟩
    | ok u =>
      obtain ⟨v, hv, rfl⟩ := getUserByID_ok hu
      have huser : stamped.userID = (⟨v.user, stamped⟩ : SessionInfo).user.userID :=
        (selectUser_mem hv).2.symm
      have hfill := hindexed.fill (selectSession_insert_new hnew now) huser now
      simp only [CachedStore.create, hcreate, hu]
      refine ⟨⟨hs.users, hversions, hfits, hpersist, hfill⟩, rfl, fun hash hne => ?_⟩
      simp [CachedStore.fill, hhash, hne.symm]

private theorem after_effect {s : State} (hs : Inv s) {a : Action} (hnow : s.clock ≤ a.now)
    (hen : Enabled s a) : Effect s (after s a).store a.now ∧ (after s a).clock = a.now := by
  cases a with
  | operate userID op now => exact ⟨operate_effect hs op userID hnow, rfl⟩
  | enable userID now => exact ⟨enable_effect hs userID hnow, rfl⟩
  | login sess now => exact ⟨(login_effect hs hen hnow).1, rfl⟩
  | lookup hash now => exact ⟨lookup_effect hs hash hnow, rfl⟩
  | logout hash now => exact ⟨(logout_effect hs hash hnow).1, rfl⟩

theorem step_eq {s t : State} {a : Action} (h : step s a = some t) :
    s.clock ≤ a.now ∧ Enabled s a ∧ after s a = t := by
  simp only [step] at h
  split_ifs at h with hen
  exact ⟨hen.1, hen.2, Option.some.inj h⟩

theorem inv_step {s t : State} {a : Action} (hs : Inv s) (h : step s a = some t) : Inv t := by
  obtain ⟨hnow, hen, rfl⟩ := step_eq h
  obtain ⟨heffect, hclock⟩ := after_effect hs hnow hen
  refine ⟨heffect.users, ?_, ?_, ?_, heffect.indexed⟩ <;> rw [hclock]
  · exact heffect.userVersions
  · exact heffect.fits
  · exact lt_of_lt_of_le hs.clock hnow

/-- An accepted change that succeeds leaves every session of the user dead and out of the
cache. -/
theorem operate_dead {s : State} (hs : Inv s) {op : Operation} {userID : UserID} {now : ℕ}
    (hnow : s.clock ≤ now) {users : List UserRow}
    (hok : op.mutate userID now s.store.db.users = .ok users)
    (hnone : (op.run s.store userID now).2 = none) {hash : Hash} {r : SessionRow}
    (hr : selectSession s.store.db.sessions hash = some r) (huser : r.session.userID = userID) :
    (op.run s.store userID now).1.items hash = none ∧
      Dead (op.run s.store userID now).1.db hash now := by
  rw [run_of_ok hok] at hnone ⊢
  have hindexed : Indexed { s.store with db := { s.store.db with users := users } } :=
    hs.indexed.withDB (SessionsPersist.refl _)
  have hfits : Fits ({ s.store.db with users := users } : Tables).sessions now :=
    hs.sessions.mono hnow
  subst huser
  exact ⟨hindexed.forgetUser_none hr,
    revokeAll_dead hfits (lt_of_lt_of_le hs.clock hnow) hnone hr rfl⟩

private theorem sessionsOf_mem {s : State} (hs : Inv s) {userID : UserID} {hash : Hash}
    (h : hash ∈ sessionsOf s.store.db userID) :
    ∃ r, selectSession s.store.db.sessions hash = some r ∧ r.session.userID = userID := by
  obtain ⟨r, hr, rfl⟩ := List.mem_map.mp h
  obtain ⟨hr, huser⟩ := List.mem_filter.mp hr
  exact ⟨r, hs.sessions.keys.select hr, by simpa using huser⟩

private theorem operate_items {s : State} {op : Operation} {userID : UserID} {now : ℕ} {hash : Hash}
    (h : s.store.items hash = none) : (op.run s.store userID now).1.items hash = none := by
  cases hmutate : op.mutate userID now s.store.db.users with
  | error e => rwa [run_of_error hmutate]
  | ok users =>
    rw [run_of_ok hmutate]
    simp [CachedStore.revokeAll, CachedStore.forgetUser, h]

/-- The users after an operation, as far as it was accepted. -/
theorem operate_users {s : State} (hs : Inv s) {op : Operation} {userID : UserID} {now : ℕ}
    (hnow : s.clock ≤ now) {users : List UserRow}
    (hok : op.mutate userID now s.store.db.users = .ok users) :
    (op.run s.store userID now).1.db.users = users := by
  have hfits : Fits ({ s.store.db with users := users } : Tables).sessions now :=
    hs.sessions.mono hnow
  rw [run_of_ok hok]
  exact (revokeAll_revokes hfits (lt_of_lt_of_le hs.clock hnow) userID).users

private theorem condemn_eq {s : State} {op : Operation} {userID : UserID} {now : ℕ} {hash : Hash}
    (h : hash ∈ condemn s userID op now) : hash ∈ s.condemned ∨
      (Accepted s userID op now ∧ hash ∈ sessionsOf s.store.db userID) := by
  simp only [condemn] at h
  split at h
  · exact (List.mem_append.mp h).imp_right (fun hmem => ⟨⟨_, _, ‹_›, ‹_›⟩, hmem⟩)
  · exact Or.inl h

private theorem operate_condemned {s : State} (hs : Inv s) (hc : Condemned s) {op : Operation}
    {userID : UserID} {now : ℕ} (hnow : s.clock ≤ now)
    (hok : Succeeds s (.operate userID op now)) :
    Condemned (after s (.operate userID op now)) := by
  intro hash hmem
  rcases condemn_eq hmem with hold | ⟨hacc, hown⟩
  · obtain ⟨hitem, hdead⟩ := hc hash hold
    obtain ⟨r, hr, -⟩ := id hdead
    have heffect := operate_effect hs op userID hnow
    by_cases huser : Accepted s userID op now ∧ r.session.userID = userID
    · obtain ⟨⟨v, users, hv, hmutate⟩, huser⟩ := huser
      have hnone := hok userID op now rfl ⟨v, users, hv, hmutate⟩
      exact operate_dead hs hnow hmutate hnone hr huser
    · refine ⟨operate_items hitem, hdead.persist hnow heffect.persist ?_⟩
      intro r' hr' v' hv'
      obtain rfl : r = r' := Option.some.inj (hr.symm.trans hr')
      cases hmutate : op.mutate userID now s.store.db.users with
      | error e =>
        simp only [after, run_of_error hmutate] at hv'
        exact ⟨v', hv', rfl⟩
      | ok users =>
        have husers := operate_users hs hnow hmutate
        simp only [after, husers] at hv'
        by_cases hid : r.session.userID = userID
        · have hmissing : selectUser s.store.db.users userID = none := by
            cases hv : selectUser s.store.db.users userID with
            | none => rfl
            | some v => exact absurd ⟨⟨v, users, hv, hmutate⟩, hid⟩ huser
          rw [hid, mutate_of_missing hs.users hs.userVersions hnow hmissing hmutate] at hv'
          cases hv'
        · have hmutates := mutate_ok hs.users hs.userVersions hnow hmutate
          rw [hmutates.others _ (Ne.symm hid)] at hv'
          exact ⟨v', hv', rfl⟩
  · obtain ⟨r, hr, huser⟩ := sessionsOf_mem hs hown
    obtain ⟨v, users, hv, hmutate⟩ := hacc
    have hnone := hok userID op now rfl ⟨v, users, hv, hmutate⟩
    exact operate_dead hs hnow hmutate hnone hr huser

private theorem condemned_step {s t : State} {a : Action} (hs : Inv s) (hc : Condemned s)
    (hok : Succeeds s a) (h : step s a = some t) : Condemned t := by
  obtain ⟨hnow, hen, rfl⟩ := step_eq h
  cases a with
  | operate userID op now => exact operate_condemned hs hc hnow hok
  | enable userID now =>
    intro hash hmem
    obtain ⟨hitem, hdead⟩ := hc hash hmem
    obtain ⟨hmutates, hrole⟩ := enableUser_mutates hs userID hnow
    refine ⟨hitem, hdead.persist hnow (SessionsPersist.refl _) fun r _ v' hv' => ?_⟩
    by_cases hid : userID = r.session.userID
    · subst hid
      exact hrole v' hv'
    · exact ⟨v', (hmutates.others _ hid) ▸ hv', rfl⟩
  | login sess now =>
    intro hash hmem
    obtain ⟨hitem, hdead⟩ := hc hash hmem
    obtain ⟨heffect, husers, hitems⟩ := login_effect hs hen hnow
    have hne : sess.idHash ≠ hash := by
      rintro rfl
      obtain ⟨r, hr, -⟩ := hdead
      simp [show selectSession s.store.db.sessions sess.idHash = none from hen] at hr
    exact ⟨(hitems hash hne).trans hitem,
      hdead.persist hnow heffect.persist fun r _ v' hv' => ⟨v', husers ▸ hv', rfl⟩⟩
  | lookup other now =>
    intro hash hmem
    obtain ⟨hitem, hdead⟩ := hc hash hmem
    refine ⟨lookup_items hitem (hdead.not_ok hnow), ?_⟩
    simp only [after, lookup_db]
    exact hdead.persist hnow (SessionsPersist.refl _) fun _ _ v' hv' => ⟨v', hv', rfl⟩
  | logout other now =>
    intro hash hmem
    obtain ⟨hitem, hdead⟩ := hc hash hmem
    obtain ⟨heffect, husers⟩ := logout_effect hs other hnow
    exact ⟨logout_items hitem,
      hdead.persist hnow heffect.persist fun r _ v' hv' => ⟨v', husers ▸ hv', rfl⟩⟩

private theorem notAccepted_of_condemned {s : State} (hc : Condemned s) : NotAccepted s := by
  intro hash hmem now hnow info
  obtain ⟨hitem, hdead⟩ := hc hash hmem
  simp only [CachedStore.lookup, hitem, CachedStore.load]
  cases hlook : lookupSession s.store.db hash now with
  | error e => simp
  | ok found => exact absurd hlook (hdead.not_ok hnow found)

/-- Along a run an operation succeeds exactly when its cascade can. -/
theorem along_succeeds_iff {s t : State} {as : List Action} (hs : Inv s)
    (hrun : exec step s as = some t) :
    Along step Succeeds s as ↔ Along step CanCascade s as := by
  have hen := along_enabled hrun
  have hkeep {P : State → Action → Prop} (hP : Along step P s as) :
      Along step (fun s a => Inv s ∧ (∃ u, step s a = some u) ∧ P s a) s as :=
    (hen.and hP).strengthen (fun _ _ _ hs _ hstep => inv_step hs hstep) hs
  constructor
  · intro h
    apply (hkeep h).mono
    rintro s a ⟨hs, ⟨u, hu⟩, hok⟩
    exact (succeeds_iff hs (step_eq hu).1).mp hok
  · intro h
    apply (hkeep h).mono
    rintro s a ⟨hs, ⟨u, hu⟩, hok⟩
    exact (succeeds_iff hs (step_eq hu).1).mpr hok

/-- In every run, every accepted change succeeds and no session that existed before one is
accepted afterwards exactly when each change leaves its user enabled or finds no live session
of the user. -/
theorem revocation_permanent_iff (s t : State) (as : List Action) (hstart : Starts s)
    (hrun : exec step s as = some t) :
    (Along step Succeeds s as ∧ NotAccepted t) ↔ Along step CanCascade s as := by
  have hs := inv_of_starts hstart
  rw [← along_succeeds_iff hs hrun, and_iff_left_iff_imp]
  intro hok
  have hc : Condemned s := by
    intro hash hmem
    simp [hstart.condemned] at hmem
  have hfinal : Inv t ∧ Condemned t := by
    apply exec_guarded _ hok hrun ⟨hs, hc⟩
    intro s a t hs hok hstep
    exact ⟨inv_step hs.1 hstep, condemned_step hs.1 hs.2 hok hstep⟩
  exact notAccepted_of_condemned hfinal.2

def liveSession : Session :=
  { idHash := [1], userID := 7, siteID := 1, role := .viewer, createdAt := 1, lastUsedAt := 1 }

def viewer : State where
  store :=
    { db := ⟨[⟨{ userID := 7, siteID := 1, email := "a@b", role := .viewer }, "hash"⟩],
        [⟨liveSession, 1⟩]⟩
      items := fun _ => none
      usersIndex := fun _ => []
      ttl := 60 }
  clock := 1

theorem viewer_starts : Starts viewer where
  users := by
    intro r hr s hs
    obtain rfl := List.mem_singleton.mp hr
    obtain rfl := List.mem_singleton.mp hs
    decide
  userVersions := by decide
  sessions := by
    intro r hr s hs _
    rw [List.mem_singleton.mp hr, List.mem_singleton.mp hs]
  sessionVersions := by decide
  clock := by decide
  items := fun _ => rfl
  condemned := rfl

def toRole (role : Role) (now : ℕ) : Action := .operate 7 (.change (.changeRole (some role))) now

theorem canCascade_toRole {s : State} {v : UserRow} {role : Role} {now : ℕ}
    (hv : selectUser s.store.db.users 7 = some v) (henabled : v.user.disabled = false) :
    CanCascade s (toRole role now) := by
  intro userID op now' ha _
  obtain ⟨rfl, rfl, -⟩ : 7 = userID ∧ Operation.change (.changeRole (some role)) = op ∧
      now = now' := by simpa [toRole] using ha
  exact Or.inl ⟨_, v, rfl, by simp, hv, henabled⟩

/-- A change of the role there and back revokes the session for good. -/
theorem revocation_permanent_iff_role :
    NotAccepted (after (after viewer (toRole .admin 2)) (toRole .viewer 3)) := by
  refine ((revocation_permanent_iff viewer _ [toRole .admin 2, toRole .viewer 3] viewer_starts
    rfl).mpr ⟨canCascade_toRole rfl rfl, fun t ht => ?_⟩).2
  obtain rfl : after viewer (toRole .admin 2) = t := Option.some.inj ht
  exact ⟨canCascade_toRole rfl rfl, fun _ _ => trivial⟩

/-- `DisableUser` with a live session returns an error, and the session is accepted again once
the user is enabled. -/
theorem disable_keeps_session : Starts viewer ∧
    exec step viewer [.operate 7 (.change .disableUser) 2, .enable 7 3] =
      some (after (after viewer (.operate 7 (.change .disableUser) 2)) (.enable 7 3)) ∧
    ¬ Succeeds viewer (.operate 7 (.change .disableUser) 2) ∧
    ¬ NotAccepted (after (after viewer (.operate 7 (.change .disableUser) 2)) (.enable 7 3)) := by
  refine ⟨viewer_starts, rfl, ?_, ?_⟩
  · intro h
    have hnone := h 7 (.change .disableUser) 2 rfl ⟨_, _, rfl, rfl⟩
    exact absurd hnone (by decide)
  · intro h
    exact h [1] (by decide) 3 (Nat.le_refl 3) _ rfl

end Statnive.SessionRevocation
