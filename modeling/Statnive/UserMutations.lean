import Mathlib.Data.List.Induction
import Statnive.AuthStore
import Statnive.LabelledRuns
import Statnive.ListAccounting

/-!
# Concurrent changes of one user

A change of a user reads its row, reads the password hash it keeps, and inserts the whole
row. Other calls run between these. The row that a call inserts holds what the call has
read, so a change made meanwhile is lost with it, and it stays invisible when its stamp is
older than the visible row.
-/

namespace Statnive.UserMutations

open AuthTypes AuthStore LabelledRuns ListAccounting

inductive Progress where
  | start
  | loaded (u : User)
  | hashed (u : User) (pwHash : String)
  | returned (err : Option AuthError)
  deriving DecidableEq

structure Call where
  change : Change
  progress : Progress := .start
  deriving DecidableEq

/-- `written` records the changes that were inserted, in their order. -/
structure State where
  users : List UserRow
  calls : List Call
  written : List Change := []
  deriving DecidableEq

inductive Action where
  | load (c : ℕ)
  | readHash (c : ℕ)
  | write (c : ℕ) (now : ℤ)

def State.setProgress (s : State) (c : ℕ) (p : Progress) : State :=
  { s with calls := s.calls.modify c (fun call => { call with progress := p }) }

def load (userID : UserID) (s : State) (c : ℕ) (call : Call) : State :=
  if call.change.refused then s.setProgress c (.returned (some .invalidInput))
  else match call.change.mutation.loadUser s.users userID with
  | .error e => s.setProgress c (.returned (some e))
  | .ok u => s.setProgress c (.loaded u)

def readHash (userID : UserID) (s : State) (c : ℕ) (call : Call) (u : User) : State :=
  match call.change.mutation.loadHash s.users userID with
  | .error e => s.setProgress c (.returned (some e))
  | .ok pwHash => s.setProgress c (.hashed u pwHash)

/-- The stamp `now` is taken before the insert, and may be older than it. -/
def write (s : State) (c : ℕ) (call : Call) (u : User) (pwHash : String) (now : ℤ) : State :=
  { s.setProgress c (.returned none) with
    users := insertUserRow s.users (call.change.mutation.apply now u) pwHash
    written := s.written ++ [call.change] }

def step (userID : UserID) (s : State) : Action → Option State
  | .load c => match s.calls[c]? with
    | some ⟨change, .start⟩ => some (load userID s c ⟨change, .start⟩)
    | _ => none
  | .readHash c => match s.calls[c]? with
    | some ⟨change, .loaded u⟩ => some (readHash userID s c ⟨change, .loaded u⟩ u)
    | _ => none
  | .write c now => match s.calls[c]? with
    | some ⟨change, .hashed u pwHash⟩ =>
      some (write s c ⟨change, .hashed u pwHash⟩ u pwHash now)
    | _ => none

/-- The visible row of the user before any of the calls. -/
structure Starts (userID : UserID) (row : UserRow) (s : State) : Prop where
  visible : selectUser s.users userID = some row
  own : OwnKey s.users userID row.key
  idle : ∀ call ∈ s.calls, call.progress = .start
  written : s.written = []

inductive Column where
  | passwordHash | disabled | role
  deriving DecidableEq

def column : Change → Option Column
  | .updateUserPassword _ => some .passwordHash
  | .disableUser => some .disabled
  | .changeRole newRole => newRole.map (fun _ => .role)

/-- The row has what the change was to write. -/
def ShownIn (r : UserRow) : Change → Prop
  | .updateUserPassword newHash => r.passwordHash = newHash
  | .disableUser => r.user.disabled = true
  | .changeRole newRole => ∀ role ∈ newRole, r.user.role = role

/-- Each of the calls that returned success is visible in the row of the user, itself or
another one that wrote the same column. -/
def Reflected (userID : UserID) (s : State) : Prop :=
  ∃ r, selectUser s.users userID = some r ∧
    ∀ call ∈ s.calls, call.progress = .returned none →
      ∃ other ∈ s.calls, other.progress = .returned none ∧
        column other.change = column call.change ∧ ShownIn r other.change

/-- A write keeps up with the visible row: with its change, what it has read is the visible
row with its change; or the visible row, too new to be replaced, shows the change already. -/
def KeepsUp (userID : UserID) (s : State) (a : Action) : Prop :=
  ∀ c now change u pwHash, a = .write c now → s.calls[c]? = some ⟨change, .hashed u pwHash⟩ →
    ∃ v, selectUser s.users userID = some v ∧
      ((v.version ≤ now ∧ (change.effect ⟨u, pwHash⟩).content = (change.effect v).content) ∨
        (now < v.version ∧ (change.effect v).content = v.content))

def Progress.user : Progress → Option User
  | .loaded u | .hashed u _ => some u
  | .start | .returned _ => none

/-- A step reads for one call, or writes what it has read. -/
inductive Effect (userID : UserID) (s : State) : Action → State → Prop
  | read {a : Action} {c : ℕ} {call : Call} {p : Progress} (hcall : s.calls[c]? = some call)
      (hwas : call.progress ≠ .returned none) (his : p ≠ .returned none)
      (huser : ∀ u, p.user = some u → call.progress.user = some u ∨
        (call.change.refused = false ∧ ∃ r, selectUser s.users userID = some r ∧ r.user = u))
      (hhash : ∀ u pwHash, p = .hashed u pwHash →
        ∀ newHash, call.change = .updateUserPassword newHash → newHash ≠ "" → pwHash = newHash)
      (ha : ∀ d now, a ≠ .write d now) : Effect userID s a (s.setProgress c p)
  | write {c : ℕ} {now : ℤ} {change : Change} {u : User} {pwHash : String}
      (hcall : s.calls[c]? = some ⟨change, .hashed u pwHash⟩) :
      Effect userID s (.write c now) (write s c ⟨change, .hashed u pwHash⟩ u pwHash now)

theorem loadUser_ok {m : Mutation} {users : List UserRow} {userID : UserID} {u : User}
    (h : m.loadUser users userID = .ok u) :
    ∃ r, selectUser users userID = some r ∧ r.user = u := by
  simp only [Mutation.loadUser, getUserByID] at h
  split_ifs at h
  cases hsel : selectUser users userID with
  | none => simp [hsel] at h
  | some r => exact ⟨r, rfl, by simpa [hsel] using h⟩

theorem loadHash_ok {newHash : String} {users : List UserRow} {userID : UserID} {pwHash : String}
    (h : (Change.updateUserPassword newHash).mutation.loadHash users userID = .ok pwHash)
    (hne : newHash ≠ "") : pwHash = newHash := by
  simpa [Mutation.loadHash, Change.mutation, hne, eq_comm] using h

/-- The hash to be written is the row's own or the new one. -/
theorem loadHash_cases {change : Change} {users : List UserRow} {userID : UserID}
    {pwHash : String} {v : UserRow} (hv : selectUser users userID = some v)
    (h : change.mutation.loadHash users userID = .ok pwHash) :
    pwHash = v.passwordHash ∨ change = .updateUserPassword pwHash := by
  have hkept (hempty : change.mutation.newHash = "") : pwHash = v.passwordHash := by
    simpa [Mutation.loadHash, hempty, selectPasswordHash, hv, eq_comm] using h
  cases change with
  | updateUserPassword newHash =>
    by_cases hne : newHash = ""
    · exact Or.inl (hkept hne)
    · exact Or.inr (by rw [loadHash_ok h hne])
  | disableUser => exact Or.inl (hkept rfl)
  | changeRole newRole => exact Or.inl (hkept rfl)

theorem load_effect {userID : UserID} {s : State} {c : ℕ} {change : Change}
    (hcall : s.calls[c]? = some ⟨change, .start⟩) :
    Effect userID s (.load c) (load userID s c ⟨change, .start⟩) := by
  cases href : change.refused with
  | true =>
    have hload : load userID s c ⟨change, .start⟩ =
        s.setProgress c (.returned (some .invalidInput)) := by simp [load, href]
    rw [hload]
    exact .read hcall (by simp) (by simp) (by simp [Progress.user]) (by simp) (by simp)
  | false =>
    cases hu : change.mutation.loadUser s.users userID with
    | error e =>
      have hload : load userID s c ⟨change, .start⟩ =
          s.setProgress c (.returned (some e)) := by simp [load, href, hu]
      rw [hload]
      exact .read hcall (by simp) (by simp) (by simp [Progress.user]) (by simp) (by simp)
    | ok u =>
      have hload : load userID s c ⟨change, .start⟩ = s.setProgress c (.loaded u) := by
        simp [load, href, hu]
      rw [hload]
      refine .read hcall (by simp) (by simp) ?_ (by simp) (by simp)
      intro u' hu'
      obtain rfl : u = u' := by simpa [Progress.user] using hu'
      exact Or.inr ⟨href, loadUser_ok hu⟩

private theorem readHash_effect {userID : UserID} {s : State} {c : ℕ} {change : Change} {u : User}
    (hcall : s.calls[c]? = some ⟨change, .loaded u⟩) :
    Effect userID s (.readHash c) (readHash userID s c ⟨change, .loaded u⟩ u) := by
  cases hpw : change.mutation.loadHash s.users userID with
  | error e =>
    have hread : readHash userID s c ⟨change, .loaded u⟩ u =
        s.setProgress c (.returned (some e)) := by simp [readHash, hpw]
    rw [hread]
    exact .read hcall (by simp) (by simp) (by simp [Progress.user]) (by simp) (by simp)
  | ok pwHash =>
    have hread : readHash userID s c ⟨change, .loaded u⟩ u =
        s.setProgress c (.hashed u pwHash) := by simp [readHash, hpw]
    rw [hread]
    refine .read hcall (by simp) (by simp) (fun u' hu' => Or.inl hu') ?_ (by simp)
    intro u' pwHash' heq newHash hchange hne
    obtain ⟨-, rfl⟩ : u = u' ∧ pwHash = pwHash' := by simpa using heq
    subst hchange
    exact loadHash_ok hpw hne

theorem step_effect {userID : UserID} {s t : State} {a : Action} (h : step userID s a = some t) :
    Effect userID s a t := by
  cases a with
  | load c =>
    simp only [step] at h
    split at h
    · obtain rfl := Option.some.inj h
      exact load_effect ‹_›
    · cases h
  | readHash c =>
    simp only [step] at h
    split at h
    · obtain rfl := Option.some.inj h
      exact readHash_effect ‹_›
    · cases h
  | write c now =>
    simp only [step] at h
    split at h
    · obtain rfl := Option.some.inj h
      exact .write ‹_›
    · cases h

/-- Facts about every reached state: the user keeps its row and key, the calls have read that
user, and the changes written are those of the calls that returned success. -/
structure Inv (userID : UserID) (key : ℕ × String) (s : State) : Prop where
  visible : ∃ v, selectUser s.users userID = some v
  own : OwnKey s.users userID key
  read : ∀ (c : ℕ) (call : Call) (u : User), s.calls[c]? = some call →
    call.progress.user = some u →
      u.userID = userID ∧ (u.siteID, u.email) = key ∧ call.change.refused = false
  hash : ∀ (c : ℕ) (u : User) (pwHash newHash : String),
    s.calls[c]? = some ⟨.updateUserPassword newHash, .hashed u pwHash⟩ → pwHash = newHash
  written : ∀ change, change ∈ s.written ↔
    ∃ c : ℕ, s.calls[c]? = some ⟨change, .returned none⟩

theorem calls_setProgress {s : State} {c d : ℕ} {p : Progress} {call' : Call}
    (h : (s.setProgress c p).calls[d]? = some call') :
    ∃ call, s.calls[d]? = some call ∧ call'.change = call.change ∧
      call'.progress = if c = d then p else call.progress := by
  obtain ⟨call, hcall, rfl⟩ := getElem?_modify_eq_some h
  refine ⟨call, hcall, ?_, ?_⟩ <;> split_ifs <;> rfl

theorem setProgress_self {s : State} {c : ℕ} {p : Progress} {call : Call}
    (h : s.calls[c]? = some call) :
    (s.setProgress c p).calls[c]? = some { call with progress := p } := by
  simp [State.setProgress, h]

theorem setProgress_of_ne {s : State} {c d : ℕ} {p : Progress} (h : c ≠ d) :
    (s.setProgress c p).calls[d]? = s.calls[d]? := by
  simp [State.setProgress, h]

theorem inv_of_starts {userID : UserID} {row : UserRow} {s : State} (h : Starts userID row s) :
    Inv userID row.key s := by
  have hidle : ∀ (c : ℕ) (call : Call), s.calls[c]? = some call → call.progress = .start :=
    fun c call hcall => h.idle call (List.mem_of_getElem? hcall)
  constructor
  · exact ⟨row, h.visible⟩
  · exact h.own
  · intro c call u hcall hu
    simp [hidle c call hcall, Progress.user] at hu
  · intro c u pwHash newHash hcall
    simpa using hidle c _ hcall
  · intro change
    simp only [h.written, List.not_mem_nil, false_iff, not_exists]
    intro c hcall
    simpa using hidle c _ hcall

theorem Inv.setProgress {userID : UserID} {key : ℕ × String} {s : State} (hs : Inv userID key s)
    {c : ℕ} {call : Call} {p : Progress} (hcall : s.calls[c]? = some call)
    (hwas : call.progress ≠ .returned none) (his : p ≠ .returned none)
    (huser : ∀ u, p.user = some u → call.progress.user = some u ∨
      (call.change.refused = false ∧ ∃ r, selectUser s.users userID = some r ∧ r.user = u))
    (hhash : ∀ u pwHash, p = .hashed u pwHash →
      ∀ newHash, call.change = .updateUserPassword newHash → newHash ≠ "" → pwHash = newHash) :
    Inv userID key (s.setProgress c p) := by
  have hread : ∀ u, p.user = some u →
      u.userID = userID ∧ (u.siteID, u.email) = key ∧ call.change.refused = false := by
    intro u hu
    rcases huser u hu with hold | ⟨href, r, hr, rfl⟩
    · exact hs.read c call u hcall hold
    · obtain ⟨hmem, hid⟩ := selectUser_mem hr
      exact ⟨hid, (hs.own r hmem).mp hid, href⟩
  constructor
  · exact hs.visible
  · exact hs.own
  · intro d call' u hcall' hu
    obtain ⟨old, hold, hchange, hprogress⟩ := calls_setProgress hcall'
    rw [hprogress] at hu
    rw [hchange]
    by_cases hcd : c = d
    · subst hcd
      obtain rfl : call = old := Option.some.inj (hcall.symm.trans hold)
      exact hread u (by simpa using hu)
    · exact hs.read d old u hold (by simpa [hcd] using hu)
  · intro d u pwHash newHash hd
    by_cases hcd : c = d
    · subst hcd
      have heq : call.change = .updateUserPassword newHash ∧ p = .hashed u pwHash := by
        simpa [setProgress_self hcall] using hd
      obtain ⟨-, -, href⟩ := hread u (by simp [heq.2, Progress.user])
      have hne : newHash ≠ "" := by simpa [heq.1, Change.refused] using href
      exact hhash u pwHash heq.2 newHash heq.1 hne
    · exact hs.hash d u pwHash newHash (setProgress_of_ne hcd ▸ hd)
  · intro change
    rw [show (s.setProgress c p).written = s.written from rfl, hs.written change]
    apply exists_congr
    intro d
    by_cases hcd : c = d
    · subst hcd
      constructor
      · intro h
        obtain rfl : call = ⟨change, .returned none⟩ := Option.some.inj (hcall.symm.trans h)
        exact absurd rfl hwas
      · intro h
        have hp : p = .returned none := by
          have := setProgress_self (p := p) hcall ▸ h
          simpa using congrArg (Option.map Call.progress) this
        exact absurd hp his
    · rw [setProgress_of_ne hcd]

/-- The row that a write leaves visible. -/
theorem write_visible {userID : UserID} {key : ℕ × String} {s : State} (hs : Inv userID key s)
    {c : ℕ} {change : Change} {u : User} {pwHash : String} {v : UserRow}
    (hcall : s.calls[c]? = some ⟨change, .hashed u pwHash⟩)
    (hv : selectUser s.users userID = some v) (now : ℤ) :
    selectUser (write s c ⟨change, .hashed u pwHash⟩ u pwHash now).users userID =
      some (ReplacingTable.newer UserRow.version v ⟨change.mutation.apply now u, pwHash⟩) := by
  obtain ⟨hid, hkey, -⟩ := hs.read c _ u hcall rfl
  obtain ⟨hmem, hvid⟩ := selectUser_mem hv
  have hvkey : v.key = key := (hs.own v hmem).mp hvid
  exact selectUser_insert (hvkey ▸ hs.own) hv hid (hkey.trans hvkey.symm)

theorem Inv.write {userID : UserID} {key : ℕ × String} {s : State} (hs : Inv userID key s)
    {c : ℕ} {change : Change} {u : User} {pwHash : String}
    (hcall : s.calls[c]? = some ⟨change, .hashed u pwHash⟩) (now : ℤ) :
    Inv userID key (write s c ⟨change, .hashed u pwHash⟩ u pwHash now) := by
  obtain ⟨hid, hkey, -⟩ := hs.read c _ u hcall rfl
  obtain ⟨v, hv⟩ := hs.visible
  have hcalls (d : ℕ) :
      (UserMutations.write s c ⟨change, .hashed u pwHash⟩ u pwHash now).calls[d]? =
        if c = d then some ⟨change, .returned none⟩ else s.calls[d]? := by
    split_ifs with hcd
    · subst hcd
      exact setProgress_self hcall
    · exact setProgress_of_ne hcd
  constructor
  · exact ⟨_, write_visible hs hcall hv now⟩
  · exact hs.own.insert (iff_of_true hid hkey)
  · intro d call u' hd hu
    rw [hcalls] at hd
    split_ifs at hd
    · obtain rfl := Option.some.inj hd
      simp [Progress.user] at hu
    · exact hs.read d call u' hd hu
  · intro d u' pwHash' newHash hd
    rw [hcalls] at hd
    split_ifs at hd
    · simp at hd
    · exact hs.hash d u' pwHash' newHash hd
  · intro change'
    have hwritten : (UserMutations.write s c ⟨change, .hashed u pwHash⟩ u pwHash now).written =
        s.written ++ [change] := rfl
    rw [hwritten, List.mem_append, List.mem_singleton, hs.written change']
    constructor
    · rintro (⟨d, hd⟩ | rfl)
      · have hcd : c ≠ d := fun hcd => by simp [← hcd, hcall] at hd
        exact ⟨d, by rw [hcalls, if_neg hcd, hd]⟩
      · exact ⟨c, by rw [hcalls, if_pos rfl]⟩
    · rintro ⟨d, hd⟩
      rw [hcalls] at hd
      split_ifs at hd
      · exact Or.inr (by simpa [eq_comm] using hd)
      · exact Or.inl ⟨d, hd⟩

theorem inv_step {userID : UserID} {key : ℕ × String} {s t : State} {a : Action}
    (hs : Inv userID key s) (h : step userID s a = some t) : Inv userID key t := by
  cases step_effect h with
  | read hcall hwas his huser hhash _ => exact hs.setProgress hcall hwas his huser hhash
  | write hcall => exact hs.write hcall _

/-- The row with the changes one after the other. -/
def serial (row : UserRow) (changes : List Change) : UserRow :=
  changes.foldl (fun r change => change.effect r) row

/-- The visible row is the first one with every change written so far. -/
def Serial (userID : UserID) (row : UserRow) (s : State) : Prop :=
  ∃ v, selectUser s.users userID = some v ∧ v.content = (serial row s.written).content

/-- A write adds its change to the visible row exactly when it keeps up. -/
theorem keepsUp_iff {userID : UserID} {key : ℕ × String} {s : State} (hs : Inv userID key s)
    {c : ℕ} {change : Change} {u : User} {pwHash : String} {v : UserRow}
    (hcall : s.calls[c]? = some ⟨change, .hashed u pwHash⟩)
    (hv : selectUser s.users userID = some v) (now : ℤ) :
    KeepsUp userID s (.write c now) ↔
      (ReplacingTable.newer UserRow.version v ⟨change.mutation.apply now u, pwHash⟩).content =
        (change.effect v).content := by
  have hwritten : UserRow.content ⟨change.mutation.apply now u, pwHash⟩ =
      (change.effect ⟨u, pwHash⟩).content := by
    apply written_content
    rintro newHash rfl
    exact hs.hash c u pwHash newHash hcall
  have hversion : UserRow.version ⟨change.mutation.apply now u, pwHash⟩ = now := rfl
  have hkeeps : KeepsUp userID s (.write c now) ↔
      (v.version ≤ now ∧ (change.effect ⟨u, pwHash⟩).content = (change.effect v).content) ∨
        (now < v.version ∧ (change.effect v).content = v.content) := by
    constructor
    · intro h
      obtain ⟨v', hv', hor⟩ := h c now change u pwHash rfl hcall
      obtain rfl : v = v' := Option.some.inj (hv.symm.trans hv')
      exact hor
    · intro hor c' now' change' u' pwHash' ha hcall'
      obtain ⟨rfl, rfl⟩ : c = c' ∧ now = now' := by simpa using ha
      obtain ⟨rfl, rfl, rfl⟩ : change = change' ∧ u = u' ∧ pwHash = pwHash' := by
        simpa [hcall] using hcall'
      exact ⟨v, hv, hor⟩
  rw [hkeeps, ReplacingTable.newer, hversion]
  by_cases hle : v.version ≤ now
  · simp [hle, hwritten]
  · have hlt : now < v.version := not_le.mp hle
    simp [hle, hlt, eq_comm]

theorem serial_snoc (row : UserRow) (changes : List Change) (change : Change) :
    serial row (changes ++ [change]) = change.effect (serial row changes) := by
  simp [serial]

private theorem serial_step
    {userID : UserID} {row : UserRow} {key : ℕ × String} {s t : State} {a : Action}
    (hs : Inv userID key s) (hserial : Serial userID row s) (hkeeps : KeepsUp userID s a)
    (h : step userID s a = some t) : Serial userID row t := by
  obtain ⟨v, hv, hcontent⟩ := hserial
  cases step_effect h with
  | read => exact ⟨v, hv, hcontent⟩
  | @write c now change u pwHash hcall =>
    refine ⟨_, write_visible hs hcall hv now, ?_⟩
    calc _ = (change.effect v).content := (keepsUp_iff hs hcall hv now).mp hkeeps
      _ = (change.effect (serial row s.written)).content := by
        rw [content_effect, content_effect, hcontent]
      _ = (serial row (s.written ++ [change])).content := by rw [serial_snoc]

theorem shownIn_content (r : UserRow) (change : Change) :
    ShownIn r.content change ↔ ShownIn r change := by
  cases change <;> rfl

private theorem shownIn_effect (change : Change) (r : UserRow) :
    ShownIn (change.effect r) change := by
  cases change with
  | updateUserPassword newHash => rfl
  | disableUser => rfl
  | changeRole newRole =>
    intro role hrole
    simp [Change.effect, Option.mem_def.mp hrole]

private theorem shownIn_effect_of_ne {change other : Change} {r : UserRow}
    (hne : column other ≠ column change) (h : ShownIn r other) :
    ShownIn (change.effect r) other := by
  cases change with
  | updateUserPassword newHash => cases other <;> first | exact absurd rfl hne | exact h
  | disableUser => cases other <;> first | exact absurd rfl hne | exact h
  | changeRole newRole =>
    cases newRole with
    | none => cases other <;> exact h
    | some role =>
      cases other with
      | updateUserPassword newHash => exact h
      | disableUser => exact h
      | changeRole kept =>
        intro role' hrole'
        exact absurd (by simp [column, Option.mem_def.mp hrole']) hne

/-- A serial row shows each of its changes, or a later one to the same column. -/
theorem shownIn_serial (row : UserRow) (changes : List Change) :
    ∀ change ∈ changes, ∃ other ∈ changes, column other = column change ∧
      ShownIn (serial row changes) other := by
  induction changes using List.reverseRecOn with
  | nil => simp
  | append_singleton changes last ih =>
    intro change hchange
    rw [serial_snoc]
    by_cases hcol : column last = column change
    · exact ⟨last, by simp, hcol, shownIn_effect last _⟩
    · have hmem : change ∈ changes := by
        rcases List.mem_append.mp hchange with hmem | hlast
        · exact hmem
        · exact absurd (by rw [List.mem_singleton.mp hlast]) hcol
      obtain ⟨other, hother, hsame, hshown⟩ := ih change hmem
      refine ⟨other, List.mem_append_left _ hother, hsame, shownIn_effect_of_ne ?_ hshown⟩
      exact fun h => hcol (h.symm.trans hsame)

private theorem reflected_of_serial {userID : UserID} {row : UserRow} {key : ℕ × String} {s : State}
    (hs : Inv userID key s) (hserial : Serial userID row s) : Reflected userID s := by
  obtain ⟨v, hv, hcontent⟩ := hserial
  refine ⟨v, hv, fun call hcall hreturned => ?_⟩
  obtain ⟨c, hc⟩ := List.getElem?_of_mem hcall
  have hcall' : call = ⟨call.change, .returned none⟩ := by rw [← hreturned]
  have hwritten : call.change ∈ s.written := (hs.written _).mpr ⟨c, hcall' ▸ hc⟩
  obtain ⟨other, hother, hcol, hshown⟩ := shownIn_serial row s.written _ hwritten
  obtain ⟨d, hd⟩ := (hs.written other).mp hother
  refine ⟨⟨other, .returned none⟩, List.mem_of_getElem? hd, rfl, hcol, ?_⟩
  rwa [← shownIn_content, hcontent, shownIn_content]

theorem changeUser_ok {users users' : List UserRow} {userID : UserID} {change : Change} {now : ℤ}
    (h : changeUser users userID change now = .ok users') :
    change.refused = false ∧ ∃ u pwHash, change.mutation.loadUser users userID = .ok u ∧
      change.mutation.loadHash users userID = .ok pwHash ∧
      users' = insertUserRow users (change.mutation.apply now u) pwHash := by
  simp only [changeUser, mutateUser] at h
  split_ifs at h with href
  cases hu : change.mutation.loadUser users userID with
  | error e => simp [hu] at h
  | ok u =>
    cases hpw : change.mutation.loadHash users userID with
    | error e => simp [hu, hpw] at h
    | ok pwHash =>
      exact ⟨by simpa using href, u, pwHash, rfl, rfl, by simpa [hu, hpw, eq_comm] using h⟩

private theorem step_load {userID : UserID} {s : State} {c : ℕ} {change : Change} {u : User}
    (hcall : s.calls[c]? = some ⟨change, .start⟩) (href : change.refused = false)
    (hu : change.mutation.loadUser s.users userID = .ok u) :
    step userID s (.load c) = some (s.setProgress c (.loaded u)) := by
  simp [step, hcall, load, href, hu]

private theorem step_readHash {userID : UserID} {s : State} {c : ℕ} {change : Change} {u : User}
    {pwHash : String} (hcall : s.calls[c]? = some ⟨change, .loaded u⟩)
    (hpw : change.mutation.loadHash s.users userID = .ok pwHash) :
    step userID s (.readHash c) = some (s.setProgress c (.hashed u pwHash)) := by
  simp [step, hcall, readHash, hpw]

theorem step_write (userID : UserID) {s : State} {c : ℕ} {change : Change} {u : User}
    {pwHash : String} (hcall : s.calls[c]? = some ⟨change, .hashed u pwHash⟩) (now : ℤ) :
    step userID s (.write c now) =
      some (write s c ⟨change, .hashed u pwHash⟩ u pwHash now) := by
  simp [step, hcall]

/-- A write keeps up when its call has read the row that is still visible, and the clock is
not behind that row. -/
theorem keepsUp_of_unchanged {userID : UserID} {s : State} {c : ℕ} {change : Change}
    {pwHash : String} {v : UserRow} {now : ℤ}
    (hcall : s.calls[c]? = some ⟨change, .hashed v.user pwHash⟩)
    (hv : selectUser s.users userID = some v)
    (hpw : pwHash = v.passwordHash ∨ change = .updateUserPassword pwHash)
    (hclock : v.version ≤ now) : KeepsUp userID s (.write c now) := by
  intro c' now' change' u' pwHash' ha hcall'
  obtain ⟨rfl, rfl⟩ : c = c' ∧ now = now' := by simpa using ha
  obtain ⟨rfl, rfl, rfl⟩ : change = change' ∧ v.user = u' ∧ pwHash = pwHash' := by
    simpa [hcall] using hcall'
  refine ⟨v, hv, Or.inl ⟨hclock, ?_⟩⟩
  rcases hpw with rfl | rfl
  · rfl
  · simp [Change.effect]

/-- Run without another call in between, a call does what the store's function does, and keeps
up if the clock is not behind the visible row. -/
theorem exec_alone {userID : UserID} {s : State} {c : ℕ} {change : Change} {now : ℤ}
    {users : List UserRow} (hcall : s.calls[c]? = some ⟨change, .start⟩)
    (h : changeUser s.users userID change now = .ok users)
    (hclock : ∀ v, selectUser s.users userID = some v → v.version ≤ now) :
    (∃ t, exec (step userID) s [.load c, .readHash c, .write c now] = some t ∧ t.users = users ∧
        t.calls[c]? = some ⟨change, .returned none⟩) ∧
      Along (step userID) (KeepsUp userID) s [.load c, .readHash c, .write c now] := by
  obtain ⟨href, u, pwHash, hu, hpw, rfl⟩ := changeUser_ok h
  obtain ⟨v, hv, rfl⟩ := loadUser_ok hu
  have hcall₁ := setProgress_self (p := .loaded v.user) hcall
  have hcall₂ := setProgress_self (p := .hashed v.user pwHash) hcall₁
  have hload := step_load hcall href hu
  have hhash := step_readHash hcall₁ hpw
  have hwrite := step_write userID hcall₂ now
  have hquiet (s : State) (a : Action) (ha : ∀ d now, a ≠ .write d now) : KeepsUp userID s a :=
    fun d now _ _ _ hwrite => absurd hwrite (ha d now)
  constructor
  · exact ⟨_, exec_cons.mpr ⟨_, hload, exec_cons.mpr ⟨_, hhash, exec_cons.mpr ⟨_, hwrite, rfl⟩⟩⟩,
      rfl, setProgress_self hcall₂⟩
  · have hkeeps := keepsUp_of_unchanged hcall₂ hv (loadHash_cases hv hpw) (hclock v hv)
    exact .cons hload (hquiet _ _ (by simp))
      (.cons hhash (hquiet _ _ (by simp)) (.cons hwrite hkeeps trivial))

/-- In every run in which each write keeps up with the visible row, the row reflects each call
that has returned success. -/
theorem reflected_of_keepsUp (userID : UserID) (row : UserRow) (s t : State) (es : List Action)
    (hstart : Starts userID row s) (hrun : exec (step userID) s es = some t)
    (hkeeps : Along (step userID) (KeepsUp userID) s es) : Reflected userID t := by
  have hserial : Serial userID row s := ⟨row, hstart.visible, by simp [hstart.written, serial]⟩
  have hinv := exec_guarded (I := fun s => Inv userID row.key s ∧ Serial userID row s)
    (fun s a t hs hkeeps hstep => ⟨inv_step hs.1 hstep, serial_step hs.1 hs.2 hkeeps hstep⟩)
    hkeeps hrun ⟨inv_of_starts hstart, hserial⟩
  exact reflected_of_serial hinv.1 hinv.2

def viewerRow : UserRow := ⟨{ userID := 7, siteID := 1, email := "a@b", role := .viewer }, "hash"⟩

/-- `DisableUser` and `ChangeRole` to admin, not yet started. -/
def twoCalls : State where
  users := [viewerRow]
  calls := [⟨.disableUser, .start⟩, ⟨.changeRole (some .admin), .start⟩]

theorem twoCalls_starts : Starts 7 viewerRow twoCalls := by
  refine ⟨rfl, ?_, by decide, rfl⟩
  intro r hr
  obtain rfl : r = viewerRow := by simpa [twoCalls] using hr
  decide

def afterDisable : State where
  users := [⟨{ viewerRow.user with disabled := true, updatedAt := 100 }, "hash"⟩]
  calls := [⟨.disableUser, .returned none⟩, ⟨.changeRole (some .admin), .start⟩]
  written := [.disableUser]

/-- The user after both calls, run one after the other within a second. -/
def disabledAdmin : State where
  users := [⟨{ viewerRow.user with role := .admin, disabled := true, updatedAt := 100 }, "hash"⟩]
  calls := [⟨.disableUser, .returned none⟩, ⟨.changeRole (some .admin), .returned none⟩]
  written := [.disableUser, .changeRole (some .admin)]

/-- The user after both calls have read before one of them writes. -/
def enabledAdmin : State :=
  { disabledAdmin with
    users := [⟨{ viewerRow.user with role := .admin, updatedAt := 101 }, "hash"⟩] }

private theorem keepsUp_oneByOne : Along (step 7) (KeepsUp 7) twoCalls
    ([.load 0, .readHash 0, .write 0 100] ++ [.load 1, .readHash 1, .write 1 100]) := by
  refine along_append.mpr ⟨(exec_alone rfl rfl ?_).2, fun t ht => ?_⟩
  · intro v hv
    obtain rfl : viewerRow = v := Option.some.inj hv
    decide
  · obtain rfl : afterDisable = t := Option.some.inj ht
    refine (exec_alone rfl rfl ?_).2
    intro v hv
    obtain rfl := Option.some.inj hv
    decide

/-- One after the other, both calls are visible. -/
theorem reflected_of_keepsUp_oneByOne : Reflected 7 disabledAdmin :=
  reflected_of_keepsUp 7 viewerRow twoCalls disabledAdmin _ twoCalls_starts (by decide)
    keepsUp_oneByOne

/-- Both calls return success, and the user is not disabled. -/
theorem disable_lost : Starts 7 viewerRow twoCalls ∧
    exec (step 7) twoCalls
        [.load 0, .readHash 0, .load 1, .readHash 1, .write 0 100, .write 1 101] =
      some enabledAdmin ∧
    (∀ call ∈ enabledAdmin.calls, call.progress = .returned none) ∧
    ¬ Reflected 7 enabledAdmin := by
  refine ⟨twoCalls_starts, by decide, by decide, ?_⟩
  rintro ⟨r, hr, hall⟩
  obtain rfl := Option.some.inj hr
  obtain ⟨other, hother, -, hcol, hshown⟩ :=
    hall ⟨.disableUser, .returned none⟩ (by decide) rfl
  rcases List.mem_cons.mp hother with rfl | hother
  · exact absurd hshown (by simp [ShownIn, viewerRow])
  · obtain rfl := List.mem_singleton.mp hother
    exact absurd hcol (by decide)

end Statnive.UserMutations
