import Mathlib.Logic.Function.Basic
import Statnive.AuthStore

/-!
# Sessions and their cache

A session is accepted when its row is neither revoked nor expired and its user exists, is
enabled and still has the role of the session. `CachedStore` keeps accepted sessions in
memory and follows every change of a user with the revocation of the user's sessions.
-/

namespace Statnive.AuthSessions

open AuthTypes AuthStore

structure SessionRow where
  session : Session
  updatedAt : ℕ
  deriving DecidableEq

def SessionRow.key (r : SessionRow) : ℕ × Hash := (r.session.siteID, r.session.idHash)

def SessionRow.version (r : SessionRow) : ℤ := r.updatedAt

structure Tables where
  users : List UserRow
  sessions : List SessionRow
  deriving DecidableEq

def selectSession (sessions : List SessionRow) (hash : Hash) : Option SessionRow :=
  sessions.find? (fun r => r.session.idHash = hash)

def insertSession (sessions : List SessionRow) (sess : Session) (now : ℕ) : List SessionRow :=
  ReplacingTable.insert SessionRow.key SessionRow.version sessions ⟨sess, now⟩

structure SessionInfo where
  user : User
  session : Session
  deriving DecidableEq

def lookupSession (db : Tables) (hash : Hash) (now : ℕ) : Except AuthError SessionInfo :=
  match selectSession db.sessions hash with
  | none => .error .notFound
  | some ⟨sess, _⟩ =>
    if 0 < sess.revokedAt then .error .revoked
    else if 0 < sess.expiresAt ∧ sess.expiresAt ≤ now then .error .expired
    else match getUserByID db.users sess.userID with
    | .error e => .error e
    | .ok u =>
      if u.disabled then .error .disabled
      else if u.role ≠ sess.role then .error .revoked
      else .ok ⟨u, sess⟩

def createSession (db : Tables) (sess : Session) (now : ℕ) : Except AuthError (Tables × Session) :=
  if sess.userID = uuidNil then .error .invalidInput
  else
    let stamped : Session :=
      { sess with
        createdAt := if sess.createdAt = 0 then now else sess.createdAt
        lastUsedAt := if sess.lastUsedAt = 0 then now else sess.lastUsedAt }
    .ok ({ db with sessions := insertSession db.sessions stamped now }, stamped)

def revokeSession (db : Tables) (hash : Hash) (now : ℕ) : Except AuthError Tables :=
  match lookupSession db hash now with
  | .ok info => .ok { db with
      sessions := insertSession db.sessions { info.session with revokedAt := now } now }
  | .error .expired | .error .revoked => .ok db
  | .error e => .error e

/-- The sessions of the user that are not marked revoked. -/
def activeSessions (db : Tables) (userID : UserID) : List Hash :=
  (db.sessions.filter (fun r => r.session.userID = userID ∧ r.session.revokedAt = 0)).map
    (fun r => r.session.idHash)

/-- Revoke one session after the other, up to the first error. -/
def revokeEach (db : Tables) (now : ℕ) : List Hash → Tables × Option AuthError
  | [] => (db, none)
  | hash :: hashes => match revokeSession db hash now with
    | .error e => (db, some e)
    | .ok db' => revokeEach db' now hashes

def revokeAllUserSessions (db : Tables) (userID : UserID) (now : ℕ) : Tables × Option AuthError :=
  revokeEach db now (activeSessions db userID)

/-- Each session has one row. -/
def SessionKeys (sessions : List SessionRow) : Prop :=
  ∀ r ∈ sessions, ∀ s ∈ sessions, r.session.idHash = s.session.idHash → r = s

theorem selectSession_mem {sessions : List SessionRow} {hash : Hash} {r : SessionRow}
    (h : selectSession sessions hash = some r) : r ∈ sessions ∧ r.session.idHash = hash :=
  ⟨List.mem_of_find?_eq_some h, by simpa using List.find?_some h⟩

theorem SessionKeys.select {sessions : List SessionRow} (hkeys : SessionKeys sessions)
    {r : SessionRow} (hr : r ∈ sessions) : selectSession sessions r.session.idHash = some r := by
  cases hsel : selectSession sessions r.session.idHash with
  | none =>
    have hne := List.find?_eq_none.mp hsel r hr
    simp at hne
  | some s =>
    obtain ⟨hs, hhash⟩ := selectSession_mem hsel
    rw [hkeys r hr s hs hhash.symm]

theorem selectSession_insert {sessions : List SessionRow} (hkeys : SessionKeys sessions)
    {sess : Session} {old : SessionRow} (hold : selectSession sessions sess.idHash = some old)
    (hsite : sess.siteID = old.session.siteID) (now : ℕ) :
    selectSession (insertSession sessions sess now) sess.idHash =
      some (ReplacingTable.newer SessionRow.version old ⟨sess, now⟩) := by
  obtain ⟨hmem, hhash⟩ := selectSession_mem hold
  have hkey : old.key = SessionRow.key ⟨sess, now⟩ := by simp [SessionRow.key, hsite, hhash]
  apply ReplacingTable.find?_insert hold
  · intro r hr
    simp only [decide_eq_true_eq, ← hkey]
    constructor
    · intro h
      rw [hkeys r hr old hmem (h.trans hhash.symm)]
    · intro h
      exact (congrArg Prod.snd h).trans hhash
  · simp

theorem selectSession_insert_of_ne {sessions : List SessionRow} {sess : Session} {hash : Hash}
    (hne : sess.idHash ≠ hash) (now : ℕ) :
    selectSession (insertSession sessions sess now) hash = selectSession sessions hash := by
  apply ReplacingTable.find?_insert_of_not
  · intro r _ hr hkey
    have hsame : r.session.idHash = sess.idHash := congrArg Prod.snd hkey
    exact hne (hsame.symm.trans (by simpa using hr))
  · simpa using hne

theorem selectSession_insert_new {sessions : List SessionRow} {sess : Session}
    (hnew : selectSession sessions sess.idHash = none) (now : ℕ) :
    selectSession (insertSession sessions sess now) sess.idHash = some ⟨sess, now⟩ := by
  apply ReplacingTable.find?_insert_new
  · intro r hr hkey
    have hsame : r.session.idHash = sess.idHash := congrArg Prod.snd hkey
    exact absurd hsame (by simpa using List.find?_eq_none.mp hnew r hr)
  · exact hnew
  · simp

theorem SessionKeys.insert {sessions : List SessionRow} (hkeys : SessionKeys sessions)
    {sess : Session}
    (hsite : ∀ r, selectSession sessions sess.idHash = some r → sess.siteID = r.session.siteID)
    (now : ℕ) : SessionKeys (insertSession sessions sess now) := by
  have hother : ∀ r ∈ sessions, r.key ≠ SessionRow.key ⟨sess, now⟩ →
      r.session.idHash ≠ sess.idHash := by
    intro r hr hne hhash
    have hsel : selectSession sessions sess.idHash = some r := hhash ▸ hkeys.select hr
    exact hne (by simp [SessionRow.key, hsite r hsel, hhash])
  have hown : ∀ old : SessionRow, old.key = SessionRow.key ⟨sess, now⟩ →
      (ReplacingTable.newer SessionRow.version old ⟨sess, now⟩).session.idHash = sess.idHash := by
    intro old hkey
    rcases ReplacingTable.newer_eq_or SessionRow.version old ⟨sess, now⟩ with he | he
    · rw [he]
    · rw [he]
      exact congrArg Prod.snd hkey
  intro r hr s hs hhash
  rcases ReplacingTable.mem_insert_cases hr with ⟨hr, hrne⟩ | ⟨old, hold, hkey, rfl⟩ | ⟨hnone, rfl⟩
  · rcases ReplacingTable.mem_insert_cases hs with ⟨hs, -⟩ | ⟨old, -, hkey, rfl⟩ | ⟨-, rfl⟩
    · exact hkeys r hr s hs hhash
    · exact absurd (hhash.trans (hown old hkey)) (hother r hr hrne)
    · exact absurd hhash (hother r hr hrne)
  · rcases ReplacingTable.mem_insert_cases hs with ⟨hs, hsne⟩ | ⟨old', hold', hkey', rfl⟩ |
      ⟨hnone, rfl⟩
    · exact absurd (hhash.symm.trans (hown old hkey)) (hother s hs hsne)
    · rw [hkeys old hold old' hold' (congrArg Prod.snd (hkey.trans hkey'.symm))]
    · exact absurd hkey (hnone old hold)
  · rcases ReplacingTable.mem_insert_cases hs with ⟨hs, hsne⟩ | ⟨old', hold', hkey', rfl⟩ | ⟨-, rfl⟩
    · exact absurd hhash.symm (hother s hs hsne)
    · exact absurd hkey' (hnone old' hold')
    · rfl

structure CachedSession where
  info : SessionInfo
  expiresAt : ℕ

/-- `usersIndex` lists the hashes that were cached for a user. -/
structure CachedStore where
  db : Tables
  items : Hash → Option CachedSession
  usersIndex : UserID → List Hash
  ttl : ℕ

def CachedStore.drop (c : CachedStore) (hash : Hash) : CachedStore :=
  { c with items := Function.update c.items hash none }

def CachedStore.fill (c : CachedStore) (hash : Hash) (info : SessionInfo) (now : ℕ) :
    CachedStore :=
  { c with
    items := Function.update c.items hash (some ⟨info, now + c.ttl⟩)
    usersIndex := Function.update c.usersIndex info.user.userID
      (hash :: c.usersIndex info.user.userID) }

/-- The look-up past the cache; an error drops what was cached. -/
def CachedStore.load (c : CachedStore) (hash : Hash) (now : ℕ) :
    CachedStore × Except AuthError SessionInfo :=
  match lookupSession c.db hash now with
  | .error e => (c.drop hash, .error e)
  | .ok info => (c.fill hash info now, .ok info)

def CachedStore.lookup (c : CachedStore) (hash : Hash) (now : ℕ) :
    CachedStore × Except AuthError SessionInfo :=
  match c.items hash with
  | none => c.load hash now
  | some cached => if now < cached.expiresAt then (c, .ok cached.info) else c.load hash now

def CachedStore.create (c : CachedStore) (sess : Session) (now : ℕ) :
    CachedStore × Option AuthError :=
  match createSession c.db sess now with
  | .error e => (c, some e)
  | .ok (db, stamped) => match getUserByID db.users stamped.userID with
    | .error e => ({ c with db := db }, some e)
    | .ok u => (({ c with db := db } : CachedStore).fill stamped.idHash ⟨u, stamped⟩ now, none)

/-- The entry goes before the store is asked to revoke. -/
def CachedStore.forget (c : CachedStore) (hash : Hash) : CachedStore :=
  match c.items hash with
  | none => c.drop hash
  | some cached => { c.drop hash with
      usersIndex := Function.update c.usersIndex cached.info.user.userID
        ((c.usersIndex cached.info.user.userID).filter (· ≠ hash)) }

def CachedStore.revoke (c : CachedStore) (hash : Hash) (now : ℕ) :
    CachedStore × Option AuthError :=
  match revokeSession c.db hash now with
  | .error e => (c.forget hash, some e)
  | .ok db => ({ c.forget hash with db := db }, none)

def CachedStore.forgetUser (c : CachedStore) (userID : UserID) : CachedStore :=
  { c with
    items := fun hash => if (c.usersIndex userID).contains hash then none else c.items hash
    usersIndex := Function.update c.usersIndex userID [] }

def CachedStore.revokeAll (c : CachedStore) (userID : UserID) (now : ℕ) :
    CachedStore × Option AuthError :=
  let revoked := revokeAllUserSessions c.db userID now
  ({ c.forgetUser userID with db := revoked.1 }, revoked.2)

/-- A change of a user and, when it succeeded, the revocation of the user's sessions. -/
def CachedStore.cascadeRevoke (c : CachedStore) (userID : UserID) (now : ℕ)
    (mutate : List UserRow → Except AuthError (List UserRow)) : CachedStore × Option AuthError :=
  match mutate c.db.users with
  | .error e => (c, some e)
  | .ok users => ({ c with db := { c.db with users := users } } : CachedStore).revokeAll userID now

def CachedStore.changeUser (c : CachedStore) (userID : UserID) (change : Change) (now : ℕ) :
    CachedStore × Option AuthError :=
  c.cascadeRevoke userID now (fun users => AuthStore.changeUser users userID change now)

def CachedStore.deleteUser (c : CachedStore) (userID : UserID) (now : ℕ) :
    CachedStore × Option AuthError :=
  c.cascadeRevoke userID now (fun users => AuthStore.deleteUser users userID)

end Statnive.AuthSessions
