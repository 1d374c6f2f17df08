import Statnive.SessionCascade

/-!
# Changes of a user through the cached store

A change touches the rows of the one user, then drops the user's entries from the cache and
starts the cascade over the user's sessions.
-/

namespace Statnive.AccountChanges

open AuthTypes AuthStore AuthSessions SessionCascade

/-- The operations with a cascade. -/
inductive Operation where
  | change (change : Change)
  | delete

def Operation.mutate (op : Operation) (userID : UserID) (now : ℕ) (users : List UserRow) :
    Except AuthError (List UserRow) :=
  match op with
  | .change ch => AuthStore.changeUser users userID ch now
  | .delete => AuthStore.deleteUser users userID

def Operation.run (op : Operation) (c : CachedStore) (userID : UserID) (now : ℕ) :
    CachedStore × Option AuthError :=
  match op with
  | .change ch => c.changeUser userID ch now
  | .delete => c.deleteUser userID now

theorem run_eq (op : Operation) (c : CachedStore) (userID : UserID) (now : ℕ) :
    op.run c userID now = c.cascadeRevoke userID now (op.mutate userID now) := by
  cases op <;> rfl

/-- The store has no call that enables a user: this is the direct flip of the row. -/
def enableUser (users : List UserRow) (userID : UserID) (now : ℕ) : List UserRow :=
  match selectUser users userID with
  | none => users
  | some v => insertUserRow users { v.user with disabled := false, updatedAt := now } v.passwordHash

/-- An enabled user that the operation neither disables nor deletes. -/
def StaysEnabled (users : List UserRow) (userID : UserID) (op : Operation) : Prop :=
  ∃ ch v, op = .change ch ∧ ch ≠ .disableUser ∧ selectUser users userID = some v ∧
    v.user.disabled = false

theorem run_of_ok {op : Operation} {c : CachedStore} {userID : UserID} {now : ℕ}
    {users : List UserRow} (h : op.mutate userID now c.db.users = .ok users) :
    op.run c userID now =
      ({ c with db := { c.db with users := users } } : CachedStore).revokeAll userID now := by
  rw [run_eq]
  simp only [CachedStore.cascadeRevoke, h]

theorem run_of_error {op : Operation} {c : CachedStore} {userID : UserID} {now : ℕ}
    {e : AuthError} (h : op.mutate userID now c.db.users = .error e) :
    op.run c userID now = (c, some e) := by
  rw [run_eq]
  simp only [CachedStore.cascadeRevoke, h]

/-- What an accepted change leaves of the table of users: only the one user changes. -/
structure Mutates (users users' : List UserRow) (userID : UserID) (now : ℕ) : Prop where
  keys : UserKeys users'
  versions : ∀ r ∈ users', r.version ≤ now
  others : ∀ other, userID ≠ other → selectUser users' other = selectUser users other

theorem insert_mutates {users : List UserRow} {userID : UserID} {now clock : ℕ} {v : UserRow}
    {u : User} (pwHash : String) (hkeys : UserKeys users)
    (hversions : ∀ r ∈ users, r.version ≤ clock) (hnow : clock ≤ now)
    (hv : selectUser users userID = some v) (hid : u.userID = userID)
    (hkey : (u.siteID, u.email) = v.key) (hstamp : u.updatedAt = now) :
    Mutates users (insertUserRow users u pwHash) userID now ∧
      selectUser (insertUserRow users u pwHash) userID = some ⟨u, pwHash⟩ := by
  have hle : ∀ r ∈ users, r.version ≤ now :=
    fun r hr => (hversions r hr).trans (Int.ofNat_le.mpr hnow)
  have hnewer : UserRow.version v ≤ UserRow.version ⟨u, pwHash⟩ := by
    rw [show UserRow.version ⟨u, pwHash⟩ = now from hstamp]
    exact hle v (selectUser_mem hv).1
  have hown : OwnKey users u.userID (u.siteID, u.email) := by
    rw [hid, hkey]
    exact hkeys.own hv
  refine ⟨⟨hkeys.insert hv hid hkey, fun r hr => ?_, fun other hne => ?_⟩, ?_⟩
  · rcases ReplacingTable.mem_insert hr with rfl | hold
    · exact le_of_eq hstamp
    · exact hle r hold
  · exact selectUser_insert_of_ne hown (hid ▸ hne)
  · rw [selectUser_insert (hkeys.own hv) hv hid hkey, ReplacingTable.newer, if_pos hnewer]

theorem change_ok {ch : Change} {userID : UserID} {now clock : ℕ} {users users' : List UserRow}
    (hkeys : UserKeys users) (hversions : ∀ r ∈ users, r.version ≤ clock) (hnow : clock ≤ now)
    (h : (Operation.change ch).mutate userID now users = .ok users') :
    userID ≠ uuidNil ∧ Mutates users users' userID now ∧
      ∃ v v', selectUser users userID = some v ∧ selectUser users' userID = some v' ∧
      v'.user.disabled = (decide (ch = .disableUser) || v.user.disabled) := by
  simp only [Operation.mutate, AuthStore.changeUser] at h
  split_ifs at h
  have hnil : userID ≠ uuidNil := by
    rintro rfl
    simp [mutateUser, Mutation.loadUser] at h
  obtain ⟨v, pwHash, hv, rfl⟩ := mutateUser_ok h
  obtain ⟨-, hid⟩ := selectUser_mem hv
  obtain ⟨hmutates, hnew⟩ := insert_mutates (u := ch.mutation.apply now v.user) pwHash
    hkeys hversions hnow hv hid rfl rfl
  refine ⟨hnil, hmutates, v, _, hv, hnew, ?_⟩
  cases ch <;> simp [Change.mutation, Mutation.apply]

theorem delete_ok {userID : UserID} {now clock : ℕ} {users users' : List UserRow}
    (hkeys : UserKeys users) (hversions : ∀ r ∈ users, r.version ≤ clock) (hnow : clock ≤ now)
    (h : Operation.delete.mutate userID now users = .ok users') :
    Mutates users users' userID now ∧ selectUser users' userID = none := by
  simp only [Operation.mutate, AuthStore.deleteUser] at h
  split_ifs at h
  obtain rfl := Except.ok.inj h
  refine ⟨⟨hkeys.filter _, fun r hr => ?_, fun other hne => ?_⟩, ?_⟩
  · exact (hversions r (List.mem_of_mem_filter hr)).trans (Int.ofNat_le.mpr hnow)
  · simp only [selectUser, List.find?_filter]
    apply List.find?_congr
    intro r _
    by_cases hr : r.user.userID = other <;> simp [hr, hne.symm]
  · apply List.find?_eq_none.mpr
    intro r hr
    simpa using (List.mem_filter.mp hr).2

theorem mutate_ok {op : Operation} {userID : UserID} {now clock : ℕ} {users users' : List UserRow}
    (hkeys : UserKeys users) (hversions : ∀ r ∈ users, r.version ≤ clock) (hnow : clock ≤ now)
    (h : op.mutate userID now users = .ok users') : Mutates users users' userID now := by
  cases op with
  | change ch => exact (change_ok hkeys hversions hnow h).2.1
  | delete => exact (delete_ok hkeys hversions hnow h).1

theorem mutate_of_missing {op : Operation} {userID : UserID} {now clock : ℕ}
    {users users' : List UserRow} (hkeys : UserKeys users)
    (hversions : ∀ r ∈ users, r.version ≤ clock) (hnow : clock ≤ now)
    (hmissing : selectUser users userID = none) (h : op.mutate userID now users = .ok users') :
    selectUser users' userID = none := by
  cases op with
  | delete => exact (delete_ok hkeys hversions hnow h).2
  | change ch =>
    obtain ⟨-, -, v, -, hv, -⟩ := change_ok hkeys hversions hnow h
    simp [hmissing] at hv

/-- Every entry is for a session of the table, listed under the user of that session. -/
def Indexed (c : CachedStore) : Prop :=
  ∀ hash e, c.items hash = some e → hash ∈ c.usersIndex e.info.user.userID ∧
    ∃ r, selectSession c.db.sessions hash = some r ∧ r.session.userID = e.info.user.userID

theorem Indexed.withDB {c : CachedStore} (h : Indexed c) {db : Tables}
    (hpersist : SessionsPersist c.db.sessions db.sessions) : Indexed { c with db := db } := by
  intro hash e he
  obtain ⟨hindex, r, hr, huser⟩ := h hash e he
  obtain ⟨r', hr', hp⟩ := hpersist hash r hr
  exact ⟨hindex, r', hr', hp.userID.trans huser⟩

theorem Indexed.drop {c : CachedStore} (h : Indexed c) (hash : Hash) : Indexed (c.drop hash) := by
  intro other e he
  by_cases hne : other = hash
  · simp [CachedStore.drop, hne] at he
  · exact h other e (by simpa [CachedStore.drop, hne] using he)

theorem Indexed.forget {c : CachedStore} (h : Indexed c) (hash : Hash) :
    Indexed (c.forget hash) := by
  cases hitem : c.items hash with
  | none =>
    simp only [CachedStore.forget, hitem]
    exact h.drop hash
  | some cached =>
    simp only [CachedStore.forget, hitem]
    intro other e he
    obtain ⟨hindex, hrow⟩ := h.drop hash other e he
    refine ⟨?_, hrow⟩
    have hne : other ≠ hash := by
      rintro rfl
      simp [CachedStore.drop] at he
    have hdrop : (c.drop hash).usersIndex = c.usersIndex := rfl
    rw [hdrop] at hindex
    by_cases huser : e.info.user.userID = cached.info.user.userID
    · rw [huser] at hindex ⊢
      simpa [hne] using hindex
    · simpa [huser] using hindex

theorem Indexed.fill {c : CachedStore} (h : Indexed c) {hash : Hash} {info : SessionInfo}
    {r : SessionRow} (hr : selectSession c.db.sessions hash = some r)
    (huser : r.session.userID = info.user.userID) (now : ℕ) :
    Indexed (c.fill hash info now) := by
  intro other e he
  by_cases hne : other = hash
  · subst hne
    obtain rfl : (⟨info, now + c.ttl⟩ : CachedSession) = e := by simpa [CachedStore.fill] using he
    exact ⟨by simp [CachedStore.fill], r, hr, huser⟩
  · obtain ⟨hindex, hrow⟩ := h other e (by simpa [CachedStore.fill, hne] using he)
    refine ⟨?_, hrow⟩
    by_cases hsame : e.info.user.userID = info.user.userID
    · simp only [CachedStore.fill, hsame, Function.update_self]
      exact List.mem_cons_of_mem _ (hsame ▸ hindex)
    · simpa [CachedStore.fill, hsame] using hindex

theorem Indexed.forgetUser {c : CachedStore} (h : Indexed c) (userID : UserID) :
    Indexed (c.forgetUser userID) := by
  intro hash e he
  by_cases hmem : hash ∈ c.usersIndex userID
  · simp [CachedStore.forgetUser, hmem] at he
  · have hitem : c.items hash = some e := by simpa [CachedStore.forgetUser, hmem] using he
    obtain ⟨hindex, hrow⟩ := h hash e hitem
    refine ⟨?_, hrow⟩
    have hne : e.info.user.userID ≠ userID := by
      rintro rfl
      exact hmem hindex
    simpa [CachedStore.forgetUser, hne] using hindex

/-- A cascade drops every entry of the user. -/
theorem Indexed.forgetUser_none {c : CachedStore} (h : Indexed c) {hash : Hash} {r : SessionRow}
    (hr : selectSession c.db.sessions hash = some r) :
    (c.forgetUser r.session.userID).items hash = none := by
  by_cases hmem : hash ∈ c.usersIndex r.session.userID
  · simp [CachedStore.forgetUser, hmem]
  · cases hitem : c.items hash with
    | none => simp [CachedStore.forgetUser, hitem]
    | some e =>
      obtain ⟨hindex, r', hr', huser⟩ := h hash e hitem
      obtain rfl : r = r' := Option.some.inj (hr.symm.trans hr')
      exact absurd (huser ▸ hindex) hmem

theorem lookup_items {c : CachedStore} {hash other : Hash} {now : ℕ}
    (hitem : c.items hash = none) (hdead : ∀ info, lookupSession c.db hash now ≠ .ok info) :
    (c.lookup other now).1.items hash = none := by
  have hload : (c.load other now).1.items hash = none := by
    cases hlook : lookupSession c.db other now with
    | error e =>
      simp only [CachedStore.load, hlook, CachedStore.drop]
      by_cases hne : hash = other <;> simp [hne, hitem]
    | ok info =>
      have hne : hash ≠ other := by
        rintro rfl
        exact hdead info hlook
      simp [CachedStore.load, hlook, CachedStore.fill, hne, hitem]
  cases hother : c.items other with
  | none => simpa only [CachedStore.lookup, hother] using hload
  | some cached =>
    by_cases hfresh : now < cached.expiresAt
    · simpa only [CachedStore.lookup, hother, hfresh, if_true] using hitem
    · simpa only [CachedStore.lookup, hother, hfresh, if_false] using hload

theorem lookup_db (c : CachedStore) (hash : Hash) (now : ℕ) : (c.lookup hash now).1.db = c.db := by
  have hload : (c.load hash now).1.db = c.db := by
    simp only [CachedStore.load]
    cases lookupSession c.db hash now <;> rfl
  simp only [CachedStore.lookup]
  cases c.items hash with
  | none => exact hload
  | some cached =>
    by_cases hfresh : now < cached.expiresAt
    · simp only [hfresh, if_true]
    · simp only [hfresh, if_false, hload]

/-- What a look-up yields was cached or has just been loaded. -/
theorem lookup_answer {c : CachedStore} {hash : Hash} {now : ℕ} {info : SessionInfo}
    (h : (c.lookup hash now).2 = .ok info) :
    (∃ e, c.items hash = some e ∧ e.info = info) ∨ lookupSession c.db hash now = .ok info := by
  have hload (h : (c.load hash now).2 = .ok info) : lookupSession c.db hash now = .ok info := by
    cases hlook : lookupSession c.db hash now with
    | error e => simp [CachedStore.load, hlook] at h
    | ok found => simpa [CachedStore.load, hlook] using h
  cases hitem : c.items hash with
  | none => exact Or.inr (hload (by simpa only [CachedStore.lookup, hitem] using h))
  | some e =>
    by_cases hfresh : now < e.expiresAt
    · exact Or.inl ⟨e, rfl, by simpa [CachedStore.lookup, hitem, hfresh] using h⟩
    · exact Or.inr (hload (by simpa only [CachedStore.lookup, hitem, hfresh, if_false] using h))

theorem lookup_entry {c : CachedStore} {hash other : Hash} {now : ℕ} {e : CachedSession}
    (h : (c.lookup hash now).1.items other = some e) :
    c.items other = some e ∨ lookupSession c.db hash now = .ok e.info := by
  have hload (h : (c.load hash now).1.items other = some e) :
      c.items other = some e ∨ lookupSession c.db hash now = .ok e.info := by
    cases hlook : lookupSession c.db hash now with
    | error err =>
      by_cases hne : other = hash
      · simp [CachedStore.load, hlook, CachedStore.drop, hne] at h
      · exact Or.inl (by simpa [CachedStore.load, hlook, CachedStore.drop, hne] using h)
    | ok info =>
      by_cases hne : other = hash
      · obtain rfl : (⟨info, now + c.ttl⟩ : CachedSession) = e := by
          simpa [CachedStore.load, hlook, CachedStore.fill, hne] using h
        exact Or.inr rfl
      · exact Or.inl (by simpa [CachedStore.load, hlook, CachedStore.fill, hne] using h)
  cases hitem : c.items hash with
  | none => exact hload (by simpa only [CachedStore.lookup, hitem] using h)
  | some cached =>
    by_cases hfresh : now < cached.expiresAt
    · exact Or.inl (by simpa only [CachedStore.lookup, hitem, hfresh, if_true] using h)
    · exact hload (by simpa only [CachedStore.lookup, hitem, hfresh, if_false] using h)

/-- A session is stored under the hash and the user it comes with. -/
theorem createSession_ok {db db' : Tables} {sess stamped : Session} {now : ℕ}
    (h : createSession db sess now = .ok (db', stamped)) :
    db' = { db with sessions := insertSession db.sessions stamped now } ∧
      stamped.idHash = sess.idHash ∧ stamped.userID = sess.userID := by
  by_cases hnil : sess.userID = uuidNil
  · simp [createSession, hnil] at h
  · rw [createSession, if_neg hnil] at h
    obtain ⟨rfl, rfl⟩ := Prod.mk.inj (Except.ok.inj h)
    exact ⟨rfl, rfl, rfl⟩

/-- A new session is cached with the row of its user. -/
theorem create_entry {c : CachedStore} {sess : Session} {now : ℕ} {other : Hash}
    {e : CachedSession} (h : (c.create sess now).1.items other = some e) :
    c.items other = some e ∨ ∃ v, selectUser c.db.users sess.userID = some v ∧
      e.info.user = v.user := by
  cases hcreate : createSession c.db sess now with
  | error err => exact Or.inl (by simpa only [CachedStore.create, hcreate] using h)
  | ok created =>
    obtain ⟨db, stamped⟩ := created
    obtain ⟨rfl, -, hid⟩ := createSession_ok hcreate
    cases hu : getUserByID c.db.users stamped.userID with
    | error err => exact Or.inl (by simpa only [CachedStore.create, hcreate, hu] using h)
    | ok u =>
      obtain ⟨v, hv, rfl⟩ := getUserByID_ok hu
      simp only [CachedStore.create, hcreate, hu, CachedStore.fill] at h
      by_cases hne : other = stamped.idHash
      · subst hne
        rw [Function.update_self] at h
        obtain rfl := Option.some.inj h
        exact Or.inr ⟨v, hid ▸ hv, rfl⟩
      · exact Or.inl (by simpa [hne] using h)

theorem logout_items {c : CachedStore} {hash other : Hash} {now : ℕ}
    (hitem : c.items hash = none) : (c.revoke other now).1.items hash = none := by
  have hforget : (c.forget other).items hash = none := by
    have hdrop : (c.drop other).items hash = none := by
      by_cases hne : hash = other <;> simp [CachedStore.drop, hne, hitem]
    simp only [CachedStore.forget]
    cases c.items other <;> exact hdrop
  simp only [CachedStore.revoke]
  cases revokeSession c.db other now <;> exact hforget

end Statnive.AccountChanges
