import Statnive.AuthTypes
import Statnive.ReplacingTable

/-!
# The auth store

The tables `users` and `sessions` are replacing tables, read with `FINAL`: the visible row of
a key is the one with the latest `updated_at`, and of equal ones the last inserted. A user is
changed by inserting the whole row again, and a session is revoked the same way.
-/

namespace Statnive.AuthStore

open AuthTypes

inductive AuthError where
  | notFound | invalidInput | disabled | expired | revoked
  deriving DecidableEq

structure UserRow where
  user : User
  passwordHash : String
  deriving DecidableEq

def UserRow.key (r : UserRow) : ℕ × String := (r.user.siteID, r.user.email)

def UserRow.version (r : UserRow) : ℤ := r.user.updatedAt

def selectUser (users : List UserRow) (userID : UserID) : Option UserRow :=
  users.find? (fun r => r.user.userID = userID)

def getUserByID (users : List UserRow) (userID : UserID) : Except AuthError User :=
  if userID = uuidNil then .error .invalidInput
  else match selectUser users userID with
  | none => .error .notFound
  | some r => .ok r.user

def selectPasswordHash (users : List UserRow) (userID : UserID) : Except AuthError String :=
  match selectUser users userID with
  | none => .error .notFound
  | some r => .ok r.passwordHash

def insertUserRow (users : List UserRow) (u : User) (pwHash : String) : List UserRow :=
  ReplacingTable.insert UserRow.key UserRow.version users ⟨u, pwHash⟩

/-- What `mutateUser` is called with: the empty hash keeps the password, and `none` is the
empty role, which keeps the role. -/
structure Mutation where
  newHash : String := ""
  newRole : Option Role := none
  disable : Bool := false

/-- The first read of `mutateUser`, after its checks. -/
def Mutation.loadUser (m : Mutation) (users : List UserRow) (userID : UserID) :
    Except AuthError User :=
  if userID = uuidNil then .error .invalidInput
  else if m.newRole.any (fun role => !role.valid) then .error .invalidInput
  else getUserByID users userID

/-- The second read, for the hash that is kept. -/
def Mutation.loadHash (m : Mutation) (users : List UserRow) (userID : UserID) :
    Except AuthError String :=
  if m.newHash = "" then selectPasswordHash users userID else .ok m.newHash

def Mutation.apply (m : Mutation) (now : ℤ) (u : User) : User :=
  { u with
    role := m.newRole.getD u.role
    disabled := m.disable || u.disabled
    updatedAt := now }

def mutateUser (users : List UserRow) (userID : UserID) (m : Mutation) (now : ℤ) :
    Except AuthError (List UserRow) :=
  match m.loadUser users userID with
  | .error e => .error e
  | .ok u => match m.loadHash users userID with
    | .error e => .error e
    | .ok pwHash => .ok (insertUserRow users (m.apply now u) pwHash)

/-- The calls that change a user; `none` is the empty role. -/
inductive Change where
  | updateUserPassword (newHash : String)
  | disableUser
  | changeRole (newRole : Option Role)
  deriving DecidableEq

def Change.mutation : Change → Mutation
  | .updateUserPassword newHash => { newHash := newHash }
  | .disableUser => { disable := true }
  | .changeRole newRole => { newRole := newRole }

/-- `UpdateUserPassword` refuses the empty hash before it calls `mutateUser`. -/
def Change.refused : Change → Bool
  | .updateUserPassword newHash => newHash = ""
  | _ => false

def changeUser (users : List UserRow) (userID : UserID) (change : Change) (now : ℤ) :
    Except AuthError (List UserRow) :=
  if change.refused then .error .invalidInput else mutateUser users userID change.mutation now

def deleteUser (users : List UserRow) (userID : UserID) : Except AuthError (List UserRow) :=
  if userID = uuidNil then .error .invalidInput
  else .ok (users.filter (fun r => r.user.userID ≠ userID))

/-- The effect that a change promises on the visible row. -/
def Change.effect : Change → UserRow → UserRow
  | .updateUserPassword newHash, r => { r with passwordHash := newHash }
  | .disableUser, r => { r with user := { r.user with disabled := true } }
  | .changeRole newRole, r => { r with user := { r.user with role := newRole.getD r.user.role } }

/-- A row apart from its version. -/
def UserRow.content (r : UserRow) : UserRow := { r with user := { r.user with updatedAt := 0 } }

@[simp] theorem effect_key (change : Change) (r : UserRow) : (change.effect r).key = r.key := by
  cases change <;> rfl

@[simp] theorem effect_userID (change : Change) (r : UserRow) :
    (change.effect r).user.userID = r.user.userID := by
  cases change <;> rfl

/-- Of the effect on a row, its content is the effect on the content. -/
theorem content_effect (change : Change) (r : UserRow) :
    (change.effect r).content = change.effect r.content := by
  cases change <;> rfl

/-- What a call inserts is, apart from the version, the effect on what it has read. -/
theorem written_content (change : Change) (now : ℤ) (u : User) {pwHash : String}
    (hpw : ∀ newHash, change = .updateUserPassword newHash → pwHash = newHash) :
    UserRow.content ⟨change.mutation.apply now u, pwHash⟩ =
      (change.effect ⟨u, pwHash⟩).content := by
  cases change with
  | updateUserPassword newHash =>
    obtain rfl : pwHash = newHash := hpw newHash rfl
    simp [Change.mutation, Mutation.apply, Change.effect, UserRow.content]
  | disableUser => simp [Change.mutation, Mutation.apply, Change.effect, UserRow.content]
  | changeRole newRole => simp [Change.mutation, Mutation.apply, Change.effect, UserRow.content]

/-- The rows of the user are those under its key. -/
def OwnKey (users : List UserRow) (userID : UserID) (key : ℕ × String) : Prop :=
  ∀ r ∈ users, r.user.userID = userID ↔ r.key = key

theorem OwnKey.insert {users : List UserRow} {userID : UserID} {key : ℕ × String}
    (h : OwnKey users userID key) {u : User} {pwHash : String}
    (hrow : u.userID = userID ↔ (u.siteID, u.email) = key) :
    OwnKey (insertUserRow users u pwHash) userID key := by
  intro r hr
  rcases ReplacingTable.mem_insert hr with rfl | hold
  · exact hrow
  · exact h r hold

/-- The row that stays, of the visible row and one inserted for the same user. -/
theorem selectUser_insert {users : List UserRow} {userID : UserID} {v : UserRow}
    (hown : OwnKey users userID v.key) (hv : selectUser users userID = some v) {u : User}
    {pwHash : String} (hid : u.userID = userID) (hkey : (u.siteID, u.email) = v.key) :
    selectUser (insertUserRow users u pwHash) userID =
      some (ReplacingTable.newer UserRow.version v ⟨u, pwHash⟩) := by
  have hrowKey : UserRow.key ⟨u, pwHash⟩ = v.key := hkey
  apply ReplacingTable.find?_insert hv
  · intro r hr
    simpa [hrowKey] using hown r hr
  · simpa using hid

theorem selectUser_mem {users : List UserRow} {userID : UserID} {r : UserRow}
    (h : selectUser users userID = some r) : r ∈ users ∧ r.user.userID = userID :=
  ⟨List.mem_of_find?_eq_some h, by simpa using List.find?_some h⟩

/-- An insert for one user leaves the look-up of the others. -/
theorem selectUser_insert_of_ne {users : List UserRow} {u : User} {pwHash : String}
    {userID : UserID} (hown : OwnKey users u.userID (u.siteID, u.email))
    (hne : u.userID ≠ userID) :
    selectUser (insertUserRow users u pwHash) userID = selectUser users userID := by
  apply ReplacingTable.find?_insert_of_not
  · intro r hr hid hkey
    have hsame : r.user.userID = u.userID := (hown r hr).mpr hkey
    exact hne (hsame.symm.trans (by simpa using hid))
  · simpa using hne

/-- Each user has its own key. -/
def UserKeys (users : List UserRow) : Prop := ∀ r ∈ users, OwnKey users r.user.userID r.key

theorem UserKeys.own {users : List UserRow} (h : UserKeys users) {userID : UserID} {v : UserRow}
    (hv : selectUser users userID = some v) : OwnKey users userID v.key := by
  obtain ⟨hmem, rfl⟩ := selectUser_mem hv
  exact h v hmem

theorem UserKeys.insert {users : List UserRow} (h : UserKeys users) {userID : UserID} {v : UserRow}
    (hv : selectUser users userID = some v) {u : User} {pwHash : String}
    (hid : u.userID = userID) (hkey : (u.siteID, u.email) = v.key) :
    UserKeys (insertUserRow users u pwHash) := by
  obtain ⟨hmem, rfl⟩ := selectUser_mem hv
  intro r hr
  rcases ReplacingTable.mem_insert hr with rfl | hold
  · have hown : OwnKey users u.userID (u.siteID, u.email) := by
      rw [hid, hkey]
      exact h v hmem
    exact hown.insert (iff_of_true rfl rfl)
  · apply (h r hold).insert
    rw [hid, hkey]
    exact h r hold v hmem

theorem UserKeys.filter {users : List UserRow} (h : UserKeys users) (p : UserRow → Bool) :
    UserKeys (users.filter p) :=
  fun r hr s hs => h r (List.mem_of_mem_filter hr) s (List.mem_of_mem_filter hs)

/-- What an accepted change leaves: the row of the user as it was read, with the change. -/
theorem mutateUser_ok {users users' : List UserRow} {userID : UserID} {m : Mutation} {now : ℤ}
    (h : mutateUser users userID m now = .ok users') :
    ∃ v pwHash, selectUser users userID = some v ∧
      users' = insertUserRow users (m.apply now v.user) pwHash := by
  simp only [mutateUser, Mutation.loadUser, getUserByID] at h
  split_ifs at h
  cases hv : selectUser users userID with
  | none => simp [hv] at h
  | some v =>
    cases hpw : m.loadHash users userID with
    | error e => simp [hv, hpw] at h
    | ok pwHash => exact ⟨v, pwHash, rfl, by simpa [hv, hpw, eq_comm] using h⟩

end Statnive.AuthStore
