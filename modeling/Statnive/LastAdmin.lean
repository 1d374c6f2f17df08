import Statnive.GrantWrites
import Statnive.LabelledRuns

/-!
# The last enabled admin of a site

A deletion counts the other enabled admins of the target's site and then goes through a
cascade of which the last step removes the row. A disable and a change of role count nobody.
Each query is a step of its own, and those of other requests run in between. Where none do
(`exec_proceed`), the requests are served as by `UsersHandlers`: `delete_alone`, `disable_alone`,
`changeRole_alone`.
-/

namespace Statnive.LastAdmin

open AuthTypes AuthStore UsersHandlers LabelledRuns

inductive Operation where
  | delete
  | disable
  | changeRole (role : Role)
  deriving DecidableEq

/-- The query that a request makes next, with what it has read. -/
inductive Stage where
  | loadTarget (op : Operation)
  | manage (op : Operation) (target : User)
  | countAdmins (target : User)
  | revokeSessions
  | revokeGrants
  | eraseUser
  | deleteRow
  | loadUser (change : Change)
  | loadHash (change : Change) (u : User)
  | writeRow (change : Change) (u : User) (pwHash : String)
  | returned

/-- The actor comes with the grants that the guard has loaded. -/
structure Call where
  actor : User
  userID : UserID
  stage : Stage

structure State where
  tables : Tables
  calls : List Call := []

inductive Action where
  | request (actor : User) (userID : UserID) (op : Operation)
  | proceed (i : ℕ) (env : Env)

/-- A request up to its first query. -/
def start (actor : User) (userID : UserID) : Operation → Stage
  | .delete => if userID = actor.userID then .returned else .loadTarget .delete
  | .disable => .loadTarget .disable
  | .changeRole role => if role.valid then .loadUser (.changeRole (some role)) else .returned

/-- A request whose target the actor may manage. -/
def managed (target : User) : Operation → Stage
  | .delete => if target.role = .admin then .countAdmins target else .revokeSessions
  | .disable => .loadUser .disableUser
  | .changeRole _ => .returned

/-- The tables after the next query, and the query that follows. -/
def advance (deps : Deps) (env : Env) (t : Tables) (call : Call) : Tables × Stage :=
  match call.stage with
  | .loadTarget op => match getUser env t.users call.userID with
    | none => (t, .returned)
    | some target => (t, .manage op target)
  | .manage op target =>
    if canManageUser deps call.actor target
        (loadUserSites env .targetGrants t.grants call.userID) then (t, managed target op)
    else (t, .returned)
  | .countAdmins target =>
    if env.fails .listUsers then (t, .returned)
    else if hasOtherEnabledAdmin t.users target then (t, .revokeSessions) else (t, .returned)
  | .revokeSessions => (t, if env.fails .revokeSessions then .returned else .revokeGrants)
  | .revokeGrants =>
    let revoked := UsersHandlers.revokeGrants deps env t call.userID
    (revoked.1, if revoked.2 then .eraseUser else .returned)
  | .eraseUser => (t, if env.fails .eraseUser then .returned else .deleteRow)
  | .deleteRow =>
    if env.fails .deleteUser then (t, .returned)
    else match deleteUser t.users call.userID with
    | .error _ => (t, .returned)
    | .ok users => ({ t with users := users }, .returned)
  | .loadUser change =>
    if env.fails .changeUser then (t, .returned)
    else match change.mutation.loadUser t.users call.userID with
    | .error _ => (t, .returned)
    | .ok u => (t, .loadHash change u)
  | .loadHash change u =>
    if env.fails .changeUser then (t, .returned)
    else match change.mutation.loadHash t.users call.userID with
    | .error _ => (t, .returned)
    | .ok pwHash => (t, .writeRow change u pwHash)
  | .writeRow change u pwHash =>
    if env.fails .changeUser then (t, .returned)
    else ({ t with users := insertUserRow t.users (change.mutation.apply env.now u) pwHash },
      .returned)
  | .returned => (t, .returned)

def after (deps : Deps) (s : State) : Action → State
  | .request actor userID op =>
    { s with calls := s.calls ++ [⟨actor, userID, start actor userID op⟩] }
  | .proceed i env => match s.calls[i]? with
    | none => s
    | some call =>
      let next := advance deps env s.tables call
      { tables := next.1, calls := s.calls.set i { call with stage := next.2 } }

def step (deps : Deps) (s : State) (a : Action) : Option State := some (after deps s a)

def IsAdmin (siteID : ℕ) (r : UserRow) : Prop :=
  r.user.siteID = siteID ∧ r.user.role = .admin ∧ r.user.disabled = false

instance (siteID : ℕ) (r : UserRow) : Decidable (IsAdmin siteID r) :=
  inferInstanceAs (Decidable (_ ∧ _ ∧ _))

def HasAdmin (users : List UserRow) (siteID : ℕ) : Prop := ∃ r ∈ users, IsAdmin siteID r

instance (users : List UserRow) (siteID : ℕ) : Decidable (HasAdmin users siteID) :=
  inferInstanceAs (Decidable (∃ _ ∈ _, _))

def Administered (sites : List ℕ) (s : State) : Prop :=
  ∀ siteID ∈ sites, HasAdmin s.tables.users siteID

instance (sites : List ℕ) (s : State) : Decidable (Administered sites s) :=
  inferInstanceAs (Decidable (∀ _ ∈ _, _))

/-- The sites that have users. -/
def userSites (users : List UserRow) : List ℕ := users.map (fun r => r.user.siteID)

/-- The user is not the only enabled admin of a site. -/
def Spared (users : List UserRow) (userID : UserID) : Prop :=
  ∀ r ∈ users, r.user.userID = userID → IsAdmin r.user.siteID r →
    ∃ other ∈ users, other.user.userID ≠ userID ∧ IsAdmin r.user.siteID other

instance (users : List UserRow) (userID : UserID) : Decidable (Spared users userID) :=
  inferInstanceAs (Decidable (∀ _ ∈ _, _ → _ → ∃ _ ∈ _, _))

/-- Two users are both enabled admins of one site. -/
def Together (users : List UserRow) (userID otherID : UserID) : Prop :=
  ∃ r ∈ users, ∃ other ∈ users, r.user.userID = userID ∧ other.user.userID = otherID ∧
    userID ≠ otherID ∧ IsAdmin other.user.siteID r ∧ IsAdmin other.user.siteID other

instance (users : List UserRow) (userID otherID : UserID) :
    Decidable (Together users userID otherID) :=
  inferInstanceAs (Decidable (∃ _ ∈ _, ∃ _ ∈ _, _))

/-- The row that a change writes is not that of an enabled admin. -/
def takes (change : Change) (u : User) : Bool :=
  let row := change.mutation.apply 0 u
  !(row.role = .admin && !row.disabled)

/-- A request past its check: it goes on to remove its user, or to write the user's row as that
of no enabled admin. -/
def Call.pending (call : Call) : Bool :=
  match call.stage with
  | .manage .delete target => target.role ≠ .admin
  | .revokeSessions | .revokeGrants | .eraseUser | .deleteRow => true
  | .loadHash change u | .writeRow change u _ => takes change u
  | _ => false

/-- The users of the other requests that are past their checks. -/
def pendingUsers (s : State) (i : ℕ) : List UserID :=
  ((s.calls.eraseIdx i).filter Call.pending).map Call.userID

/-- No other request is about to take away another enabled admin of the user's site. -/
def Clear (s : State) (i : ℕ) (userID : UserID) : Prop :=
  ∀ otherID ∈ pendingUsers s i, ¬ Together s.tables.users userID otherID

instance (s : State) (i : ℕ) (userID : UserID) : Decidable (Clear s i userID) :=
  inferInstanceAs (Decidable (∀ _ ∈ _, ¬ _))

/-- A disable or a demotion reads its row while the user is not the only enabled admin; a
statement that takes an enabled admin away runs while no other request, past its check, is about
to take away another one of the site, and one that makes a user an enabled admin while none is
about to take this user away. -/
def QueryInTurn (s : State) (i : ℕ) (env : Env) (userID : UserID) : Stage → Prop
  | .loadUser change => env.fails .changeUser = false →
    ∀ u ∈ (change.mutation.loadUser s.tables.users userID).toOption,
      takes change u = true → Spared s.tables.users userID
  | .deleteRow => env.fails .deleteUser = false → Clear s i userID
  | .writeRow change u _ => env.fails .changeUser = false →
    if takes change u = true then Clear s i userID else userID ∉ pendingUsers s i
  | _ => True

instance (s : State) (i : ℕ) (env : Env) (userID : UserID) :
    (stage : Stage) → Decidable (QueryInTurn s i env userID stage)
  | .loadUser change => inferInstanceAs (Decidable (env.fails .changeUser = false →
    ∀ u ∈ (change.mutation.loadUser s.tables.users userID).toOption,
      takes change u = true → Spared s.tables.users userID))
  | .deleteRow => inferInstanceAs (Decidable (env.fails .deleteUser = false → Clear s i userID))
  | .writeRow change u _ => inferInstanceAs (Decidable (env.fails .changeUser = false →
    if takes change u = true then Clear s i userID else userID ∉ pendingUsers s i))
  | .loadTarget _ | .manage _ _ | .countAdmins _ | .revokeSessions | .revokeGrants | .eraseUser
  | .loadHash _ _ | .returned => .isTrue trivial

def InTurn (s : State) : Action → Prop
  | .request _ _ _ => True
  | .proceed i env => ∀ call ∈ s.calls[i]?, QueryInTurn s i env call.userID call.stage

instance (s : State) (a : Action) : Decidable (InTurn s a) :=
  match a with
  | .request _ _ _ => .isTrue trivial
  | .proceed i _ => inferInstanceAs (Decidable (∀ _ ∈ s.calls[i]?, _))

variable {users : List UserRow} {siteID : ℕ} {userID otherID : UserID}

theorem hasAdmin_delete (h : HasAdmin users siteID) (hspared : Spared users userID) :
    HasAdmin (users.filter (fun r => r.user.userID ≠ userID)) siteID := by
  obtain ⟨r, hr, hadmin⟩ := h
  by_cases hid : r.user.userID = userID
  · obtain ⟨other, hother, hne, hadmin'⟩ := hspared r hr hid (hadmin.1.symm ▸ hadmin)
    exact ⟨other, List.mem_filter.mpr ⟨hother, by simpa using hne⟩, hadmin.1 ▸ hadmin'⟩
  · exact ⟨r, List.mem_filter.mpr ⟨hr, by simpa using hid⟩, hadmin⟩

private theorem spared_delete
    (h : Spared users otherID) (hclear : ¬ Together users userID otherID) :
    Spared (users.filter (fun r => r.user.userID ≠ userID)) otherID := by
  intro r hr hid hadmin
  have hmem := (List.mem_filter.mp hr).1
  obtain ⟨other, hother, hne, hadmin'⟩ := h r hmem hid hadmin
  refine ⟨other, List.mem_filter.mpr ⟨hother, ?_⟩, hne, hadmin'⟩
  have hstays : other.user.userID ≠ userID := fun hgone =>
    hclear ⟨other, hother, r, hmem, hgone, hid, fun h => hne (hgone.trans h), hadmin', hadmin⟩
  simpa using hstays

/-- A user as the table first had it, under a key of the user's own. -/
def Known (users₀ : List UserRow) (u : User) : Prop :=
  ∃ r ∈ users₀, r.user.userID = u.userID ∧ r.key = (u.siteID, u.email)

theorem Known.key_iff {users₀ : List UserRow} (hkeys : UserKeys users₀) {u v : User}
    (hu : Known users₀ u) (hv : Known users₀ v) :
    u.userID = v.userID ↔ (u.siteID, u.email) = (v.siteID, v.email) := by
  obtain ⟨r, hr, hid, hkey⟩ := hu
  obtain ⟨r', hr', hid', hkey'⟩ := hv
  rw [← hid, ← hid', ← hkey, ← hkey']
  exact hkeys r' hr' r hr

/-- The rows of the table are those of the users that it first had, one under each key. -/
structure Rows (users₀ users : List UserRow) : Prop where
  keys : UserKeys users₀
  known : ∀ r ∈ users, Known users₀ r.user
  nodup : (users.map UserRow.key).Nodup

section Rows

variable {users₀ : List UserRow}

theorem Rows.key_iff (h : Rows users₀ users) {r : UserRow} (hr : r ∈ users) {u : User}
    (hu : Known users₀ u) : r.user.userID = u.userID ↔ r.key = (u.siteID, u.email) :=
  (h.known r hr).key_iff h.keys hu

theorem Rows.eq_of_id (h : Rows users₀ users) {r r' : UserRow} (hr : r ∈ users) (hr' : r' ∈ users)
    (hid : r.user.userID = r'.user.userID) : r = r' :=
  List.inj_on_of_nodup_map h.nodup hr hr' ((h.key_iff hr (h.known r' hr')).mp hid)

theorem Rows.filter (h : Rows users₀ users) (p : UserRow → Bool) : Rows users₀ (users.filter p) where
  keys := h.keys
  known r hr := h.known r (List.mem_filter.mp hr).1
  nodup := h.nodup.sublist (List.filter_sublist.map _)

theorem Rows.insert (h : Rows users₀ users) {u : User} (hu : Known users₀ u) (pwHash : String) :
    Rows users₀ (insertUserRow users u pwHash) where
  keys := h.keys
  known r hr := by
    rcases ReplacingTable.mem_insert hr with rfl | hold
    · exact hu
    · exact h.known r hold
  nodup := ReplacingTable.nodup_insert h.nodup

private theorem known_apply {change : Change} {now : ℤ} {u : User} (h : Known users₀ u) :
    Known users₀ (change.mutation.apply now u) := h

/-- Whether a row is one of an enabled admin does not depend on when it is written. -/
theorem isAdmin_apply (change : Change) (now : ℤ) (u : User) (pwHash : String) :
    IsAdmin u.siteID ⟨change.mutation.apply now u, pwHash⟩ ↔ takes change u = false := by
  simp only [IsAdmin, takes, Bool.not_eq_false', Bool.and_eq_true, decide_eq_true_eq,
    Bool.not_eq_true']
  exact ⟨fun h => h.2, fun h => ⟨rfl, h⟩⟩

private theorem hasAdmin_write
    (h : HasAdmin users siteID) (hrows : Rows users₀ users) {change : Change}
    {now : ℤ} {u : User} {pwHash : String} (hu : Known users₀ u)
    (hspared : takes change u = true → Spared users u.userID) :
    HasAdmin (insertUserRow users (change.mutation.apply now u) pwHash) siteID := by
  obtain ⟨r, hr, hadmin⟩ := h
  by_cases hkey : r.key = (u.siteID, u.email)
  · have hid := (hrows.key_iff hr hu).mpr hkey
    have hsite : u.siteID = siteID := (congrArg Prod.fst hkey).symm.trans hadmin.1
    cases htakes : takes change u with
    | true =>
      obtain ⟨other, hother, hne, hadmin'⟩ := hspared htakes r hr hid (hadmin.1.symm ▸ hadmin)
      have hkey' : other.key ≠ (u.siteID, u.email) := fun h =>
        hne ((hrows.key_iff hother hu).mpr h)
      exact ⟨other, (ReplacingTable.mem_insert_of_ne hkey').mpr hother, hadmin.1 ▸ hadmin'⟩
    | false =>
      refine ⟨_, ReplacingTable.newer_mem_insert hr hkey, ?_⟩
      rcases ReplacingTable.newer_eq_or UserRow.version r
        ⟨change.mutation.apply now u, pwHash⟩ with he | he <;> rw [he]
      · exact hsite ▸ (isAdmin_apply change now u pwHash).mpr htakes
      · exact hadmin
  · exact ⟨r, (ReplacingTable.mem_insert_of_ne hkey).mpr hr, hadmin⟩

private theorem spared_write
    (h : Spared users otherID) (hrows : Rows users₀ users) {change : Change}
    {now : ℤ} {u : User} {pwHash : String} (hu : Known users₀ u)
    (hclear : takes change u = true → ¬ Together users u.userID otherID)
    (hgives : takes change u = false → u.userID ≠ otherID) :
    Spared (insertUserRow users (change.mutation.apply now u) pwHash) otherID := by
  have hnew (hid : u.userID = otherID) :
      ¬ IsAdmin u.siteID ⟨change.mutation.apply now u, pwHash⟩ := fun hadmin =>
    hgives ((isAdmin_apply change now u pwHash).mp hadmin) hid
  -- A row of the table that stays as it was.
  have hstays (r : UserRow) (hr : r ∈ users) (hid : r.user.userID = otherID)
      (hadmin : IsAdmin r.user.siteID r) :
      ∃ other ∈ insertUserRow users (change.mutation.apply now u) pwHash,
        other.user.userID ≠ otherID ∧ IsAdmin r.user.siteID other := by
    obtain ⟨other, hother, hne, hadmin'⟩ := h r hr hid hadmin
    by_cases hkey : other.key = (u.siteID, u.email)
    · have hsame := (hrows.key_iff hother hu).mpr hkey
      have hsite : u.siteID = r.user.siteID := (congrArg Prod.fst hkey).symm.trans hadmin'.1
      cases htakes : takes change u with
      | true =>
        exact absurd ⟨other, hother, r, hr, hsame, hid, fun h => hne (hsame.trans h), hadmin',
          hadmin⟩ (hclear htakes)
      | false =>
        refine ⟨_, ReplacingTable.newer_mem_insert hother hkey, ?_⟩
        rcases ReplacingTable.newer_eq_or UserRow.version other
          ⟨change.mutation.apply now u, pwHash⟩ with he | he <;> rw [he]
        · exact ⟨hgives htakes, hsite ▸ (isAdmin_apply change now u pwHash).mpr htakes⟩
        · exact ⟨hne, hadmin'⟩
    · exact ⟨other, (ReplacingTable.mem_insert_of_ne hkey).mpr hother, hne, hadmin'⟩
  intro r hr hid hadmin
  rcases ReplacingTable.mem_insert hr with rfl | hold
  · exact absurd hadmin (hnew hid)
  · exact hstays r hold hid hadmin

end Rows

variable {deps : Deps} {s t : State}

/-- A step leaves the table of users alone, removes the rows of a user, or inserts a row. -/
inductive Statement (s : State) (users' : List UserRow) : Action → Prop
  | none {a : Action} (same : users' = s.tables.users) : Statement s users' a
  | delete {i : ℕ} {env : Env} {call : Call} (call_eq : s.calls[i]? = some call)
      (stage : call.stage = .deleteRow) (answered : env.fails .deleteUser = false)
      (rows : users' = s.tables.users.filter (fun r => r.user.userID ≠ call.userID)) :
      Statement s users' (.proceed i env)
  | write {i : ℕ} {env : Env} {call : Call} {change : Change} {u : User} {pwHash : String}
      (call_eq : s.calls[i]? = some call) (stage : call.stage = .writeRow change u pwHash)
      (answered : env.fails .changeUser = false)
      (rows : users' = insertUserRow s.tables.users (change.mutation.apply env.now u) pwHash) :
      Statement s users' (.proceed i env)

/-- Only the last step of the cascade and the insert of a changed row write the table. -/
theorem advance_users (env : Env) (t : Tables) (call : Call) (hdelete : call.stage ≠ .deleteRow)
    (hwrite : ∀ change u pwHash, call.stage ≠ .writeRow change u pwHash) :
    (advance deps env t call).1.users = t.users := by
  unfold advance
  cases hstage : call.stage with
  | loadTarget op => cases getUser env t.users call.userID <;> rfl
  | manage op target => simp only; split <;> rfl
  | countAdmins target => simp only; split_ifs <;> rfl
  | revokeSessions | eraseUser | returned => rfl
  | revokeGrants => exact revokeGrants_users deps env t call.userID
  | deleteRow => exact absurd hstage hdelete
  | loadUser change =>
    simp only
    split
    · rfl
    · cases change.mutation.loadUser t.users call.userID <;> rfl
  | loadHash change u =>
    simp only
    split
    · rfl
    · cases change.mutation.loadHash t.users call.userID <;> rfl
  | writeRow change u pwHash => exact absurd hstage (hwrite change u pwHash)

private theorem after_statement (deps : Deps) (s : State) (a : Action) :
    Statement s (after deps s a).tables.users a := by
  cases a with
  | request actor userID op => exact .none rfl
  | proceed i env =>
    cases hcall : s.calls[i]? with
    | none => exact .none (by simp only [after, hcall])
    | some call =>
      have hafter : (after deps s (.proceed i env)).tables = (advance deps env s.tables call).1 := by
        simp only [after, hcall]
      by_cases hdelete : call.stage = .deleteRow
      · cases hfails : env.fails .deleteUser with
        | true => exact .none (by simp [hafter, advance, hdelete, hfails])
        | false =>
          by_cases hnil : call.userID = uuidNil
          · exact .none (by simp [hafter, advance, hdelete, deleteUser, hnil])
          · exact .delete hcall hdelete hfails
              (by simp [hafter, advance, hdelete, hfails, deleteUser, hnil])
      · by_cases hwrite : ∃ change u pwHash, call.stage = .writeRow change u pwHash
        · obtain ⟨change, u, pwHash, hstage⟩ := hwrite
          cases hfails : env.fails .changeUser with
          | true => exact .none (by simp [hafter, advance, hstage, hfails])
          | false => exact .write hcall hstage hfails (by simp [hafter, advance, hstage, hfails])
        · push Not at hwrite
          exact .none (by rw [hafter, advance_users env s.tables call hdelete hwrite])

/-- What a request has read is of its user, as the table first had it. -/
def Carries (users₀ : List UserRow) (call : Call) : Prop :=
  match call.stage with
  | .manage _ u | .countAdmins u | .loadHash _ u | .writeRow _ u _ =>
    Known users₀ u ∧ u.userID = call.userID
  | _ => True

theorem getUserByID_ok {u : User} (h : getUserByID users userID = .ok u) :
    ∃ r ∈ users, r.user = u ∧ u.userID = userID := by
  simp only [getUserByID] at h
  split_ifs at h
  cases hv : selectUser users userID with
  | none => simp [hv] at h
  | some v =>
    obtain ⟨hmem, hid⟩ := selectUser_mem hv
    obtain rfl : v.user = u := by simpa [hv] using h
    exact ⟨v, hmem, rfl, hid⟩

theorem getUser_some {env : Env} {u : User} (h : getUser env users userID = some u) :
    ∃ r ∈ users, r.user = u ∧ u.userID = userID := by
  simp only [getUser] at h
  split_ifs at h
  cases hget : getUserByID users userID with
  | error e => simp [hget, Except.toOption] at h
  | ok v =>
    obtain rfl : v = u := by simpa [hget, Except.toOption] using h
    exact getUserByID_ok hget

theorem loadUser_ok {m : Mutation} {u : User} (h : m.loadUser users userID = .ok u) :
    ∃ r ∈ users, r.user = u ∧ u.userID = userID := by
  simp only [Mutation.loadUser] at h
  split_ifs at h
  exact getUserByID_ok h

variable {users₀ : List UserRow} {env : Env} {tables : Tables} {call : Call}

private theorem carries_advance (hrows : Rows users₀ tables.users) (h : Carries users₀ call) :
    Carries users₀ { call with stage := (advance deps env tables call).2 } := by
  unfold advance
  cases hstage : call.stage with
  | loadTarget op =>
    cases hget : getUser env tables.users call.userID with
    | none => trivial
    | some u =>
      obtain ⟨r, hr, rfl, hid⟩ := getUser_some hget
      exact ⟨hrows.known r hr, hid⟩
  | manage op target =>
    simp only
    split
    · cases op with
      | delete =>
        simp only [managed]
        split
        · simpa only [Carries, hstage] using h
        · trivial
      | disable => trivial
      | changeRole role => trivial
    · trivial
  | countAdmins target => simp only; split_ifs <;> trivial
  | revokeSessions => simp only; split_ifs <;> trivial
  | revokeGrants => simp only; split_ifs <;> trivial
  | eraseUser => simp only; split_ifs <;> trivial
  | deleteRow =>
    simp only
    split
    · trivial
    · cases deleteUser tables.users call.userID <;> trivial
  | loadUser change =>
    simp only
    split
    · trivial
    · cases hload : change.mutation.loadUser tables.users call.userID with
      | error e => trivial
      | ok u =>
        obtain ⟨r, hr, rfl, hid⟩ := loadUser_ok hload
        exact ⟨hrows.known r hr, hid⟩
  | loadHash change u =>
    simp only
    split
    · trivial
    · cases change.mutation.loadHash tables.users call.userID with
      | error e => trivial
      | ok pwHash => simpa only [Carries, hstage] using h
  | writeRow change u pwHash => simp only; split_ifs <;> trivial
  | returned => trivial

/-- The count of a deletion finds another enabled admin on the site of its user. -/
theorem spared_of_count (hrows : Rows users₀ users) {target : User} (hknown : Known users₀ target)
    (h : hasOtherEnabledAdmin users target = true) : Spared users target.userID := by
  simp only [hasOtherEnabledAdmin, listUsers, List.any_eq_true, List.mem_filter, List.mem_map] at h
  obtain ⟨_, ⟨⟨other, hmem, rfl⟩, hosite⟩, hadmin⟩ := h
  simp only [Bool.and_eq_true, decide_eq_true_eq, Bool.not_eq_true'] at hadmin hosite
  intro r hr hid _
  have hsite : r.user.siteID = target.siteID :=
    congrArg Prod.fst ((hrows.key_iff hr hknown).mp hid)
  exact ⟨other, hmem, hadmin.1.1, hosite.trans hsite.symm, hadmin.1.2, hadmin.2⟩

/-- A request comes past its check only where its user is not the only enabled admin: a deletion
has counted, or its user is no admin, and a change has read its row in turn. -/
theorem spared_of_pending (hrows : Rows users₀ tables.users) (hcarries : Carries users₀ call)
    (hspared : call.pending = true → Spared tables.users call.userID)
    (hload : ∀ change u, call.stage = .loadUser change → env.fails .changeUser = false →
      change.mutation.loadUser tables.users call.userID = .ok u → takes change u = true →
        Spared tables.users call.userID)
    (h : ({ call with stage := (advance deps env tables call).2 } : Call).pending = true) :
    Spared tables.users call.userID := by
  unfold advance at h
  cases hstage : call.stage with
  | loadTarget op =>
    simp only [hstage] at h
    cases hget : getUser env tables.users call.userID with
    | none => simp [hget, Call.pending] at h
    | some u =>
      simp only [hget] at h
      cases op with
      | delete =>
        obtain ⟨r, hr, rfl, hid⟩ := getUser_some hget
        have hrole : r.user.role ≠ .admin := by simpa [Call.pending] using h
        intro r' hr' hid' hadmin
        obtain rfl := hrows.eq_of_id hr' hr (hid'.trans hid.symm)
        exact absurd hadmin.2.1 hrole
      | disable => simp [Call.pending] at h
      | changeRole role => simp [Call.pending] at h
  | manage op target =>
    simp only [hstage] at h
    split at h
    · cases op with
      | delete =>
        by_cases hadmin : target.role = .admin
        · simp [managed, hadmin, Call.pending] at h
        · exact hspared (by simpa [Call.pending, hstage] using hadmin)
      | disable => simp [managed, Call.pending] at h
      | changeRole role => simp [managed, Call.pending] at h
    · simp [Call.pending] at h
  | countAdmins target =>
    simp only [hstage] at h
    split_ifs at h with hfails hcount
    · simp [Call.pending] at h
    · simp only [Carries, hstage] at hcarries
      exact hcarries.2 ▸ spared_of_count hrows hcarries.1 hcount
    · simp [Call.pending] at h
  | revokeSessions => exact hspared (by simp [Call.pending, hstage])
  | revokeGrants => exact hspared (by simp [Call.pending, hstage])
  | eraseUser => exact hspared (by simp [Call.pending, hstage])
  | deleteRow => exact hspared (by simp [Call.pending, hstage])
  | loadUser change =>
    simp only [hstage] at h
    split_ifs at h with hfails
    · simp [Call.pending] at h
    · cases hget : change.mutation.loadUser tables.users call.userID with
      | error e => simp [hget, Call.pending] at h
      | ok u =>
        simp only [hget] at h
        exact hload change u hstage (by simpa using hfails) hget h
  | loadHash change u =>
    simp only [hstage] at h
    split_ifs at h with hfails
    · simp [Call.pending] at h
    · cases hget : change.mutation.loadHash tables.users call.userID with
      | error e => simp [hget, Call.pending] at h
      | ok pwHash =>
        simp only [hget] at h
        exact hspared (by simpa only [Call.pending, hstage] using h)
  | writeRow change u pwHash =>
    simp only [hstage] at h
    split_ifs at h <;> simp [Call.pending] at h
  | returned => simp [hstage, Call.pending] at h

/-- A request that is past its check has not come to its statement. -/
theorem advance_users_of_pending
    (h : ({ call with stage := (advance deps env tables call).2 } : Call).pending = true) :
    (advance deps env tables call).1.users = tables.users := by
  apply advance_users
  · intro hstage
    simp only [advance, hstage] at h
    split at h
    · simp [Call.pending] at h
    · cases hrows : deleteUser tables.users call.userID <;> simp [hrows, Call.pending] at h
  · intro change u pwHash hstage
    simp only [advance, hstage] at h
    split at h <;> simp [Call.pending] at h

/-- The users of requests past their checks are not the only enabled admins of their sites. -/
structure Inv (users₀ : List UserRow) (sites : List ℕ) (s : State) : Prop where
  rows : Rows users₀ s.tables.users
  carries : ∀ call ∈ s.calls, Carries users₀ call
  spared : ∀ call ∈ s.calls, call.pending = true → Spared s.tables.users call.userID
  administered : Administered sites s

variable {sites : List ℕ}

private theorem mem_pendingUsers {i j : ℕ} (hj : s.calls[j]? = some call) (hne : j ≠ i)
    (h : call.pending = true) : call.userID ∈ pendingUsers s i :=
  List.mem_map_of_mem (List.mem_filter.mpr ⟨List.mem_eraseIdx_iff_getElem?.mpr ⟨j, hne, hj⟩, h⟩)

/-- What the statement of a step leaves of the rows, of the admins, and for the other requests. -/
theorem Inv.statement (h : Inv users₀ sites s) {a : Action} (hturn : InTurn s a)
    {users' : List UserRow} (hstatement : Statement s users' a) :
    Rows users₀ users' ∧ (∀ siteID ∈ sites, HasAdmin users' siteID) ∧
      ∀ i env, a = .proceed i env → ∀ otherID ∈ pendingUsers s i,
        Spared s.tables.users otherID → Spared users' otherID := by
  cases hstatement with
  | none same =>
    obtain rfl := same
    exact ⟨h.rows, h.administered, fun _ _ _ _ _ hspared => hspared⟩
  | @delete i env call hcall hstage hans hrows =>
    obtain rfl := hrows
    have hclear : Clear s i call.userID := by
      have hturn' := hturn call hcall
      simp only [hstage, QueryInTurn] at hturn'
      exact hturn' hans
    have hspared := h.spared call (List.mem_of_getElem? hcall) (by simp [Call.pending, hstage])
    refine ⟨h.rows.filter _, fun siteID hsite => hasAdmin_delete (h.administered siteID hsite) hspared,
      fun j env' ha otherID hother hsp => ?_⟩
    obtain ⟨rfl, -⟩ := Action.proceed.inj ha
    exact spared_delete hsp (hclear otherID hother)
  | @write i env call change u pwHash hcall hstage hans hrows =>
    obtain rfl := hrows
    have hmem := List.mem_of_getElem? hcall
    have hcarries := h.carries call hmem
    simp only [Carries, hstage] at hcarries
    obtain ⟨hknown, hid⟩ := hcarries
    have hspared (htakes : takes change u = true) : Spared s.tables.users u.userID :=
      hid ▸ h.spared call hmem (by simpa only [Call.pending, hstage] using htakes)
    have hturn' := hturn call hcall
    simp only [hstage, QueryInTurn] at hturn'
    have hcond := hturn' hans
    refine ⟨h.rows.insert (known_apply hknown) pwHash,
      fun siteID hsite => hasAdmin_write (h.administered siteID hsite) h.rows hknown hspared,
      fun j env' ha otherID hother hsp => ?_⟩
    obtain ⟨rfl, -⟩ := Action.proceed.inj ha
    apply spared_write hsp h.rows hknown
    · intro htakes
      rw [if_pos htakes] at hcond
      exact hid ▸ hcond otherID hother
    · rintro htakes rfl
      rw [if_neg (by simp [htakes])] at hcond
      exact hcond (hid ▸ hother)

theorem inv_step {a : Action} (h : Inv users₀ sites s) (hturn : InTurn s a)
    (hstep : step deps s a = some t) : Inv users₀ sites t := by
  obtain rfl := Option.some.inj hstep
  have hstatement := after_statement deps s a
  obtain ⟨hrows, hadmins, hothers⟩ := h.statement hturn hstatement
  cases a with
  | request actor userID op =>
    refine ⟨h.rows, fun call hcall => ?_, fun call hcall hpending => ?_, h.administered⟩
    · rcases List.mem_append.mp hcall with hcall | hcall
      · exact h.carries call hcall
      · obtain rfl := List.mem_singleton.mp hcall
        cases op <;> simp only [start, Carries] <;> split_ifs <;> trivial
    · rcases List.mem_append.mp hcall with hcall | hcall
      · exact h.spared call hcall hpending
      · obtain rfl := List.mem_singleton.mp hcall
        cases op <;> simp only [start] at hpending <;> first
          | split_ifs at hpending <;> simp [Call.pending] at hpending
          | simp [Call.pending] at hpending
  | proceed i env =>
    cases hcall : s.calls[i]? with
    | none =>
      have hsame : after deps s (.proceed i env) = s := by simp only [after, hcall]
      exact hsame.symm ▸ h
    | some call =>
      have hmem := List.mem_of_getElem? hcall
      have hafter : after deps s (.proceed i env) =
          { tables := (advance deps env s.tables call).1
            calls := s.calls.set i { call with stage := (advance deps env s.tables call).2 } } := by
        simp only [after, hcall]
      rw [hafter] at hrows hadmins hothers ⊢
      refine ⟨hrows, fun call' hcall' => ?_, fun call' hcall' hpending => ?_, hadmins⟩
      · rcases List.mem_or_eq_of_mem_set hcall' with hold | rfl
        · exact h.carries call' hold
        · exact carries_advance h.rows (h.carries call hmem)
      · obtain ⟨j, hj⟩ := List.mem_iff_getElem?.mp hcall'
        by_cases hji : j = i
        · obtain rfl := hji
          rw [List.getElem?_set_self (List.getElem?_eq_some_iff.mp hcall).1] at hj
          obtain rfl := Option.some.inj hj
          have hspared : Spared s.tables.users call.userID := by
            refine spared_of_pending h.rows (h.carries call hmem) (h.spared call hmem)
              (fun change u hstage hans hload htakes => ?_) hpending
            have hturn' := hturn call hcall
            simp only [hstage, QueryInTurn] at hturn'
            exact hturn' hans u (by simp [hload, Except.toOption]) htakes
          -- A request that is past its check has not run its statement.
          exact (advance_users_of_pending hpending).symm ▸ hspared
        · rw [List.getElem?_set_ne (Ne.symm hji)] at hj
          exact hothers i env rfl _ (mem_pendingUsers hj hji hpending)
            (h.spared call' (List.mem_of_getElem? hj) hpending)

/-- From a table in which each user has a row under a key of its own and every site that has
users has an enabled admin, each of these sites has one in all states of a run whose requests
come and overlap only as `InTurn` says. -/
theorem administered_of_along (deps : Deps) (tables : Tables) (hkeys : UserKeys tables.users)
    (hnodup : (tables.users.map UserRow.key).Nodup)
    (h : ∀ siteID ∈ userSites tables.users, HasAdmin tables.users siteID) (as : List Action)
    (hturn : Along (step deps) InTurn { tables := tables } as) :
    Throughout (step deps) (Administered (userSites tables.users)) { tables := tables } as := by
  have hinit : Inv tables.users (userSites tables.users) { tables := tables } := by
    refine ⟨⟨hkeys, fun r hr => ⟨r, hr, rfl, rfl⟩, hnodup⟩, ?_, ?_, h⟩ <;> simp
  exact (throughout_of_along (fun _ _ _ => inv_step) hturn hinit).mono fun _ hs => hs.administered

section Alone

variable {env : Env} {tables : Tables} {actor : User} {userID : UserID}

/-- The tables after the next queries of a request that nothing else runs between. -/
def alone (deps : Deps) (env : Env) : ℕ → Tables → Call → Tables
  | 0, t, _ => t
  | n + 1, t, call =>
    alone deps env n (advance deps env t call).1 { call with stage := (advance deps env t call).2 }

theorem alone_returned (n : ℕ) (t : Tables) (actor : User) (userID : UserID) :
    alone deps env n t ⟨actor, userID, .returned⟩ = t := by
  induction n with
  | zero => rfl
  | succ n ih => exact ih

theorem exec_proceed {i : ℕ} {call : Call} (h : s.calls[i]? = some call) (n : ℕ) :
    ∃ t, exec (step deps) s (List.replicate n (.proceed i env)) = some t ∧
      t.tables = alone deps env n s.tables call := by
  induction n generalizing s call with
  | zero => exact ⟨s, rfl, rfl⟩
  | succ n ih =>
    have hi : i < s.calls.length := (List.getElem?_eq_some_iff.mp h).1
    have hafter : after deps s (.proceed i env) =
        { tables := (advance deps env s.tables call).1
          calls := s.calls.set i { call with stage := (advance deps env s.tables call).2 } } := by
      simp only [after, h]
    have hnext : (after deps s (.proceed i env)).calls[i]? =
        some { call with stage := (advance deps env s.tables call).2 } := by
      rw [hafter]
      exact List.getElem?_set_self hi
    obtain ⟨t, ht, htables⟩ := ih hnext
    rw [hafter] at htables
    exact ⟨t, exec_cons.mpr ⟨_, rfl, ht⟩, htables⟩

theorem alone_next {t t' : Tables} {stage stage' : Stage} (n : ℕ)
    (h : advance deps env t ⟨actor, userID, stage⟩ = (t', stage')) :
    alone deps env (n + 1) t ⟨actor, userID, stage⟩ = alone deps env n t' ⟨actor, userID, stage'⟩ := by
  rw [alone, h]

theorem alone_last {t t' : Tables} {stage : Stage} (n : ℕ)
    (h : advance deps env t ⟨actor, userID, stage⟩ = (t', .returned)) :
    alone deps env (n + 1) t ⟨actor, userID, stage⟩ = t' := by
  rw [alone_next n h, alone_returned]

/-- The cascade, once the guards of a deletion are passed. -/
theorem alone_cascade (deps : Deps) (env : Env) (t : Tables) (actor : User) (userID : UserID)
    (n : ℕ) : alone deps env (n + 4) t ⟨actor, userID, .revokeSessions⟩ =
      (cascadeEraseAndDelete deps env t userID).1 := by
  unfold cascadeEraseAndDelete
  by_cases hsessions : env.fails .revokeSessions = true
  · rw [alone_last _ (by simp [advance, hsessions] : _ = (t, Stage.returned)), if_pos hsessions]
  · rw [alone_next _ (by simp [advance, hsessions] : _ = (t, Stage.revokeGrants)), if_neg hsessions]
    cases hrev : UsersHandlers.revokeGrants deps env t userID with
    | mk t' done => cases done with
      | false => rw [alone_last _ (by simp [advance, hrev] : _ = (t', Stage.returned))]
      | true =>
        rw [alone_next _ (by simp [advance, hrev] : _ = (t', Stage.eraseUser))]
        by_cases herase : env.fails .eraseUser = true
        · rw [alone_last _ (by simp [advance, herase] : _ = (t', Stage.returned))]
          simp [herase]
        · rw [alone_next _ (by simp [advance, herase] : _ = (t', Stage.deleteRow))]
          by_cases hdelete : env.fails .deleteUser = true
          · rw [alone_last _ (by simp [advance, hdelete] : _ = (t', Stage.returned))]
            simp [hdelete]
          · cases hrows : deleteUser t'.users userID with
            | error err =>
              rw [alone_last _ (by simp [advance, hdelete, hrows] : _ = (t', Stage.returned))]
              simp [herase, hdelete, hrows]
            | ok users =>
              rw [alone_last _ (by simp [advance, hdelete, hrows] : _ =
                ((⟨users, t'.grants⟩ : Tables), Stage.returned))]
              simp [herase, hdelete, hrows]

/-- The queries of a deletion, one after the other, do what the handler does. -/
theorem delete_alone (deps : Deps) (env : Env) (t : Tables) (actor : User) (userID : UserID) :
    alone deps env 7 t ⟨actor, userID, start actor userID .delete⟩ =
      (deleteAccount deps env t actor (some userID)).1 := by
  simp only [deleteAccount, checkDelete, managedTarget, start]
  by_cases hself : userID = actor.userID
  · rw [if_pos hself, if_pos hself, alone_returned]
  · rw [if_neg hself, if_neg hself]
    cases htarget : getUser env t.users userID with
    | none => rw [alone_last _ (by simp [advance, htarget] : _ = (t, Stage.returned))]
    | some target =>
      rw [alone_next _ (by simp [advance, htarget] : _ = (t, Stage.manage .delete target))]
      by_cases hmanage : canManageUser deps actor target
          (loadUserSites env .targetGrants t.grants userID) = true
      · simp only [hmanage, if_true]
        rw [alone_next _ (by simp [advance, hmanage] : _ = (t, managed target .delete)), managed]
        by_cases hadmin : target.role = .admin
        · simp only [hadmin, ne_eq, not_true, if_true, if_false]
          by_cases hlist : env.fails .listUsers = true
          · rw [alone_last _ (by simp [advance, hlist] : _ = (t, Stage.returned)), if_pos hlist]
          · rw [if_neg hlist]
            by_cases hother : hasOtherEnabledAdmin t.users target = true
            · rw [alone_next _ (by simp [advance, hlist, hother] : _ = (t, Stage.revokeSessions)),
                if_pos hother]
              exact alone_cascade deps env t actor userID 0
            · rw [alone_last _ (by simp [advance, hlist, hother] : _ = (t, Stage.returned)),
                if_neg hother]
        · simp only [hadmin, ne_eq, not_false_eq_true, if_true, if_false]
          exact alone_cascade deps env t actor userID 1
      · rw [alone_last _ (by simp [advance, hmanage] : _ = (t, Stage.returned))]
        simp [hmanage]

/-- The queries of a change of the row, which no call of the store refuses. -/
theorem alone_change (deps : Deps) (env : Env) (t : Tables) (actor : User) (userID : UserID)
    {change : Change} (hrefused : change.refused = false) (n : ℕ) :
    alone deps env (n + 3) t ⟨actor, userID, .loadUser change⟩ =
      (cachedChange env t userID change).1 := by
  simp only [cachedChange, changeUser, hrefused, Bool.false_eq_true, if_false, mutateUser]
  by_cases hfails : env.fails .changeUser = true
  · rw [alone_last _ (by simp [advance, hfails] : _ = (t, Stage.returned)), if_pos hfails]
  · rw [if_neg hfails]
    cases huser : change.mutation.loadUser t.users userID with
    | error err => rw [alone_last _ (by simp [advance, hfails, huser] : _ = (t, Stage.returned))]
    | ok u =>
      rw [alone_next _ (by simp [advance, hfails, huser] : _ = (t, Stage.loadHash change u))]
      cases hhash : change.mutation.loadHash t.users userID with
      | error err => rw [alone_last _ (by simp [advance, hfails, hhash] : _ = (t, Stage.returned))]
      | ok pwHash =>
        rw [alone_next _ (by simp [advance, hfails, hhash] : _ = (t, Stage.writeRow change u pwHash)),
          alone_last _ (by simp [advance, hfails] : _ =
            ((⟨insertUserRow t.users (change.mutation.apply env.now u) pwHash, t.grants⟩ : Tables),
              Stage.returned))]

theorem disable_alone (deps : Deps) (env : Env) (t : Tables) (actor : User) (userID : UserID) :
    alone deps env 5 t ⟨actor, userID, start actor userID .disable⟩ =
      (setEnabled deps env t actor (some userID) false).1 := by
  simp only [setEnabled, managedTarget, start]
  cases htarget : getUser env t.users userID with
  | none => rw [alone_last _ (by simp [advance, htarget] : _ = (t, Stage.returned))]
  | some target =>
    rw [alone_next _ (by simp [advance, htarget] : _ = (t, Stage.manage .disable target))]
    by_cases hmanage : canManageUser deps actor target
        (loadUserSites env .targetGrants t.grants userID) = true
    · rw [alone_next _ (by simp [advance, hmanage, managed] : _ = (t, Stage.loadUser .disableUser)),
        alone_change deps env t actor userID rfl 0]
      simp only [hmanage, if_true, Bool.false_eq_true, if_false]
      cases cachedChange env t userID .disableUser with
      | mk t' result => cases result <;> rfl
    · rw [alone_last _ (by simp [advance, hmanage] : _ = (t, Stage.returned))]
      simp [hmanage]

theorem changeRole_alone (deps : Deps) (env : Env) (t : Tables) (actor : User) (userID : UserID)
    (role : Role) : alone deps env 3 t ⟨actor, userID, start actor userID (.changeRole role)⟩ =
      (updateUser deps env t actor (some userID) (some role)).1 := by
  simp only [updateUser, start]
  cases hvalid : role.valid with
  | false => simpa using alone_returned 3 t actor userID
  | true =>
    simp only [if_true, Bool.not_true, Bool.false_eq_true, if_false]
    rw [alone_change deps env t actor userID rfl 0]
    cases cachedChange env t userID (.changeRole (some role)) with
    | mk t' result => cases result with
      | error err => rfl
      | ok _ => cases hmanaged : managedTarget deps env t' actor userID <;> simp [hmanaged]

private theorem deleteAccount_users (deps : Deps) (env : Env) (t : Tables) (actor : User)
    (userID : UserID) : (deleteAccount deps env t actor (some userID)).1.users = t.users ∨
      checkDelete deps env t actor userID = .ok () ∧
        (deleteAccount deps env t actor (some userID)).1.users =
          t.users.filter (fun r => r.user.userID ≠ userID) := by
  simp only [deleteAccount]
  cases hcheck : checkDelete deps env t actor userID with
  | error status => exact .inl rfl
  | ok _ =>
    simp only [cascadeEraseAndDelete]
    split
    · exact .inl rfl
    · have husers := revokeGrants_users deps env t userID
      cases hrev : UsersHandlers.revokeGrants deps env t userID with
      | mk t' done =>
        rw [hrev] at husers
        cases done with
        | false => exact .inl husers
        | true =>
          simp only
          split
          · exact .inl husers
          · have hid := GrantWrites.checkDelete_ok hcheck
            have husers' : t'.users = t.users := husers
            exact .inr ⟨trivial, by simp [deleteUser, hid, husers']⟩

private theorem checkDelete_counts (h : checkDelete deps env tables actor userID = .ok ()) :
    ∃ target, getUser env tables.users userID = some target ∧
      (target.role = .admin → hasOtherEnabledAdmin tables.users target = true) := by
  simp only [checkDelete, managedTarget] at h
  split at h
  · simp at h
  · cases htarget : getUser env tables.users userID with
    | none => simp [htarget] at h
    | some target =>
      refine ⟨target, rfl, fun hadmin => ?_⟩
      simp only [htarget] at h
      by_contra hno
      split at h
      · simp at h
      · next found hfound =>
        split at hfound
        · obtain rfl := Except.ok.inj hfound
          simp only [hadmin, ne_eq, not_true, if_false, hno] at h
          split at h <;> simp at h
        · simp at hfound

/-- Where each user has one row, the look-up finds it. -/
theorem getUser_row (hone : ∀ r ∈ users, ∀ r' ∈ users, r.user.userID = r'.user.userID → r = r')
    {r : UserRow} (hr : r ∈ users) {target : User}
    (h : getUser env users r.user.userID = some target) : target = r.user := by
  have hid := GrantWrites.getUser_ne h
  simp only [getUser, getUserByID, hid, if_false] at h
  split at h
  · simp at h
  · cases hv : selectUser users r.user.userID with
    | none => simp [hv, Except.toOption] at h
    | some v =>
      obtain ⟨hmem, hvid⟩ := selectUser_mem hv
      have hvr := hone v hmem r hr hvid
      simpa [hv, Except.toOption, hvr, eq_comm] using h

/-- Served alone, a deletion leaves an enabled admin on the site. -/
theorem deleteAccount_keeps (hone : ∀ r ∈ tables.users, ∀ r' ∈ tables.users,
      r.user.userID = r'.user.userID → r = r')
    (h : HasAdmin tables.users siteID) :
    HasAdmin (deleteAccount deps env tables actor (some userID)).1.users siteID := by
  rcases deleteAccount_users deps env tables actor userID with hsame | ⟨hcheck, hrows⟩
  · exact hsame ▸ h
  · rw [hrows]
    refine hasAdmin_delete h fun r hr hid hadmin => ?_
    obtain ⟨target, htarget, hcount⟩ := checkDelete_counts hcheck
    obtain rfl := getUser_row hone hr (hid.symm ▸ htarget)
    have hother := hcount hadmin.2.1
    simp only [hasOtherEnabledAdmin, listUsers, List.any_eq_true, List.mem_filter, List.mem_map]
      at hother
    obtain ⟨_, ⟨⟨other, hmem, rfl⟩, hosite⟩, hadmin'⟩ := hother
    simp only [Bool.and_eq_true, decide_eq_true_eq, Bool.not_eq_true'] at hadmin' hosite
    exact ⟨other, hmem, hid ▸ hadmin'.1.1, hosite, hadmin'.1.2, hadmin'.2⟩

end Alone

def admin (userID : UserID) (email : String) : User where
  userID := userID
  siteID := 1
  email := email
  role := .admin

/-- Two admins on one site, without grants per site. -/
def twoAdmins : State where
  tables := ⟨[⟨admin 1 "ann@shop.example", "h1"⟩, ⟨admin 2 "bob@shop.example", "h2"⟩], fun _ => []⟩

def legacyDeps : Deps where
  hashPassword := some
  userSites := false
  defaultSiteID := 1

def calm : Env where
  fails := fun _ => false
  now := 10
  newID := 9
  rank := id

/-- Each of them deletes the other one, and both count before either removes the row. -/
def crossDeletion : List Action :=
  .request (admin 1 "ann@shop.example") 2 .delete ::
    .request (admin 2 "bob@shop.example") 1 .delete ::
      (List.replicate 3 (.proceed 0 calm) ++ List.replicate 3 (.proceed 1 calm) ++
        List.replicate 4 (.proceed 0 calm) ++ List.replicate 4 (.proceed 1 calm))

/-- The one who counts second has nobody left. -/
def deletionInTurn : List Action :=
  .request (admin 1 "ann@shop.example") 2 .delete ::
    .request (admin 2 "bob@shop.example") 1 .delete ::
      (List.replicate 2 (.proceed 1 calm) ++ List.replicate 7 (.proceed 0 calm) ++
        List.replicate 5 (.proceed 1 calm))

theorem administered_of_along_deletionInTurn : Throughout (step legacyDeps)
    (Administered (userSites twoAdmins.tables.users)) twoAdmins deletionInTurn :=
  administered_of_along legacyDeps twoAdmins.tables
    (by unfold UserKeys OwnKey; decide +kernel) (by decide +kernel)
    (by decide +kernel) deletionInTurn (by decide +kernel)

/-- No enabled admin remains. -/
theorem both_admins_deleted : ¬ Throughout (step legacyDeps)
    (Administered (userSites twoAdmins.tables.users)) twoAdmins crossDeletion := by
  decide +kernel

end Statnive.LastAdmin
