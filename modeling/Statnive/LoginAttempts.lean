import Statnive.GrantWrites
import Statnive.LockoutTable
import Statnive.Offboarding

/-!
# Attempts to log in

Each request for `/api/login` is an attempt that goes on in steps: the lockout, the user, the
password, and what follows from these. The steps of concurrent attempts interleave, and users are
written in between.

An attempt on an account does what one on an unknown email does, as long as the password is wrong
and the account is not disabled.
-/

namespace Statnive.LoginAttempts

open AuthTypes AuthStore LabelledRuns LockoutTable
open SiteRegistry (Unicode sampleUnicode)
open UsersHandlers (normalizeEmail)
open Offboarding (getUserByEmail)

def minBcryptCost : ℕ := 12

/-- `hashCost` is the cost that a hash was made with, and what a comparison with it takes. -/
structure Deps where
  unicode : Unicode
  verifyPassword : String → String → Bool
  hashCost : String → ℕ
  defaultSiteID : ℕ
  sessionTTL : ℕ

inductive Phase where
  | received
  | allowed
  | loaded (row : Option UserRow)
  | refused
  | verified (u : User)
  | created
  | answered (status : ℕ)
  deriving DecidableEq

/-- `work` is what the comparisons of the attempt have taken. -/
structure Attempt where
  email : String
  password : String
  phase : Phase
  work : ℕ := 0
  deriving DecidableEq

/-- `era` counts the writes to the table of users. -/
structure State where
  lockout : Lockout
  era : ℕ := 0
  attempts : List Attempt := []
  sessions : List Session := []

inductive Action where
  | arrive (email password : String)
  | check (i : ℕ) (now : ℤ)
  | load (i : ℕ) (ok : Bool)
  | verify (i : ℕ)
  | record (i : ℕ) (now : ℤ) (victim : Option String)
  | create (i : ℕ) (hash : Hash) (now : ℕ) (ok : Bool)
  | clear (i : ℕ)
  | writeUsers
  deriving DecidableEq

/-- `decodeLogin` of a body with these fields. -/
def decodeLogin (d : Deps) (email password : String) : Attempt :=
  let email := normalizeEmail d.unicode email
  { email := email
    password := password
    phase := if email = "" ∨ password = "" then .answered 401 else .received }

def newSession (d : Deps) (u : User) (hash : Hash) (now : ℕ) : Session where
  idHash := hash
  userID := u.userID
  siteID := u.siteID
  role := u.role
  createdAt := now
  lastUsedAt := now
  expiresAt := now + d.sessionTTL

/-- The comparison with the dummy hash, or with the hash of an account that is not disabled. -/
def Attempt.verify (d : Deps) (a : Attempt) : Option UserRow → Attempt
  | none => { a with phase := .refused, work := a.work + minBcryptCost }
  | some row =>
    if row.user.disabled then { a with phase := .answered 401 }
    else { a with
      phase := if d.verifyPassword row.passwordHash a.password then .verified row.user else .refused
      work := a.work + d.hashCost row.passwordHash }

def State.put (s : State) (i : ℕ) (a : Attempt) : State := { s with attempts := s.attempts.set i a }

/-- `userAt` is the user of an email at an era. -/
def step (d : Deps) (userAt : ℕ → String → Option UserRow) (s : State) : Action → Option State
  | .arrive email password =>
    some { s with attempts := s.attempts ++ [decodeLogin d email password] }
  | .check i now => s.attempts[i]?.bind fun a => match a.phase with
    | .received =>
      let checked := s.lockout.check (lockoutKey d.unicode a.email) now
      some { s.put i { a with phase := if checked.1 then .answered 401 else .allowed } with
        lockout := checked.2 }
    | _ => none
  | .load i ok => s.attempts[i]?.bind fun a => match a.phase with
    | .allowed =>
      let row := userAt s.era (normalizeEmail d.unicode a.email)
      some (s.put i { a with phase := if ok then .loaded row else .answered 401 })
    | _ => none
  | .verify i => s.attempts[i]?.bind fun a => match a.phase with
    | .loaded row => some (s.put i (a.verify d row))
    | _ => none
  | .record i now victim => s.attempts[i]?.bind fun a => match a.phase with
    | .refused => (s.lockout.record (lockoutKey d.unicode a.email) now victim).map fun lockout =>
      { s.put i { a with phase := .answered 401 } with lockout := lockout }
    | _ => none
  | .create i hash now ok => s.attempts[i]?.bind fun a => match a.phase with
    | .verified u =>
      if ok then some { s.put i { a with phase := .created } with
        sessions := s.sessions ++ [newSession d u hash now] }
      else some (s.put i { a with phase := .answered 500 })
    | _ => none
  | .clear i => s.attempts[i]?.bind fun a => match a.phase with
    | .created => some { s.put i { a with phase := .answered 200 } with
        lockout := s.lockout.clear (lockoutKey d.unicode a.email) }
    | _ => none
  | .writeUsers => some { s with era := s.era + 1 }

/-- The users of the default site, in each era. -/
def usersOf (d : Deps) (users : ℕ → List UserRow) (era : ℕ) (email : String) : Option UserRow :=
  getUserByEmail (users era) d.defaultSiteID email

def init (cfg : LockoutConfig) : State := { lockout := newLockout cfg }

/-- What an attempt has taken, and its answer. -/
def Attempt.observe (a : Attempt) : ℕ × Option ℕ :=
  match a.phase with
  | .answered status => (a.work, some status)
  | _ => (a.work, none)

def State.observe (s : State) : Lockout × List Session × List (ℕ × Option ℕ) :=
  (s.lockout, s.sessions, s.attempts.map Attempt.observe)

/-- A comparison with the account of the row, if there is one, is a comparison with the dummy
hash. -/
def LikeDummy (d : Deps) (password : String) (row : Option UserRow) : Prop :=
  ∀ r, row = some r → r.user.disabled = false ∧
    d.verifyPassword r.passwordHash password = false ∧ d.hashCost r.passwordHash = minBcryptCost

section Hidden

variable {d : Deps} {userAt : ℕ → String → Option UserRow} {v : String} {s s' : State} {i : ℕ}
  {a : Attempt}

/-- The users without the account of an email. -/
def hide (v : String) (userAt : ℕ → String → Option UserRow) (era : ℕ) (email : String) :
    Option UserRow :=
  if email = v then none else userAt era email

def Attempt.hide (d : Deps) (v : String) (a : Attempt) : Attempt :=
  match a.phase with
  | .loaded _ =>
    if normalizeEmail d.unicode a.email = v then { a with phase := .loaded none } else a
  | _ => a

def State.hide (d : Deps) (v : String) (s : State) : State :=
  { s with attempts := s.attempts.map (Attempt.hide d v) }

private theorem observe_hide (s : State) : (s.hide d v).observe = s.observe := by
  have hattempt (a : Attempt) : (a.hide d v).observe = a.observe := by
    unfold Attempt.hide
    split
    next row hphase =>
      split_ifs
      · simp [Attempt.observe, hphase]
      · rfl
    next => rfl
  simp only [State.observe, State.hide, List.map_map]
  congr 2
  exact List.map_congr_left fun a _ => hattempt a

/-- The attempts on the account are with passwords that are wrong, and what they have found is
like nothing. -/
def Unguessed (d : Deps) (userAt : ℕ → String → Option UserRow) (v : String) (s : State) : Prop :=
  ∀ a ∈ s.attempts, normalizeEmail d.unicode a.email = v →
    (∀ era, LikeDummy d a.password (userAt era v)) ∧
      ∀ row, a.phase = .loaded row → LikeDummy d a.password row

/-- A password that is tried on the account is wrong. -/
def Misses (d : Deps) (userAt : ℕ → String → Option UserRow) (v : String) : Action → Prop
  | .arrive email password =>
    normalizeEmail d.unicode email = v → ∀ era, LikeDummy d password (userAt era v)
  | _ => True

theorem hide_of_ne (h : ∀ row, a.phase ≠ .loaded row) : a.hide d v = a := by
  unfold Attempt.hide
  split
  next row hphase => exact absurd hphase (h row)
  next => rfl

theorem hide_of_loaded {row : Option UserRow} (h : a.phase = .loaded row) :
    a.hide d v =
      { a with phase := .loaded (if normalizeEmail d.unicode a.email = v then none else row) } := by
  rw [Attempt.hide, h]
  dsimp only
  split_ifs
  · rfl
  · rw [← h]

/-- Whatever else changes, an attempt that has found nothing yet stays as it is. -/
theorem hide_set (h : ∀ row, a.phase ≠ .loaded row) (l : Lockout) (era : ℕ)
    (attempts : List Attempt) (sessions : List Session) :
    State.hide d v ⟨l, era, attempts.set i a, sessions⟩ =
      ⟨l, era, (attempts.map (Attempt.hide d v)).set i a, sessions⟩ := by
  simp only [State.hide, List.map_set, hide_of_ne h]

theorem hide_put (s : State) (i : ℕ) (a : Attempt) :
    (s.put i a).hide d v = (s.hide d v).put i (a.hide d v) := by
  simp only [State.hide, State.put, List.map_set]

/-- A step of an attempt is mapped by what is done with the attempt. -/
theorem bind_hide {f g : Attempt → Option State}
    (h : ∀ a ∈ s.attempts, (f a).map (State.hide d v) = g (a.hide d v)) :
    (s.attempts[i]?.bind f).map (State.hide d v) = (s.hide d v).attempts[i]?.bind g := by
  have hget : (s.hide d v).attempts[i]? = s.attempts[i]?.map (Attempt.hide d v) := List.getElem?_map
  rw [hget]
  cases ha : s.attempts[i]? with
  | none => rfl
  | some a => exact h a (List.mem_of_getElem? ha)

/-- On the account of nobody a comparison goes the same way. -/
theorem verify_hide {row : Option UserRow} (h : LikeDummy d a.password row) :
    a.verify d row = a.verify d none := by
  cases row with
  | none => rfl
  | some r =>
    obtain ⟨henabled, hwrong, hcost⟩ := h r rfl
    simp [Attempt.verify, henabled, hwrong, hcost]

/-- A step from another phase than that of the comparison is mapped as it is. -/
theorem bind_hide_of_ne {f g : Attempt → Option State}
    (hf : ∀ a row, a.phase = .loaded row → f a = none)
    (hg : ∀ a row, a.phase = .loaded row → g a = none)
    (h : ∀ a, (∀ row, a.phase ≠ .loaded row) → (f a).map (State.hide d v) = g a) :
    (s.attempts[i]?.bind f).map (State.hide d v) = (s.hide d v).attempts[i]?.bind g := by
  apply bind_hide
  intro a _
  by_cases hloaded : ∃ row, a.phase = .loaded row
  · obtain ⟨row, hrow⟩ := hloaded
    rw [hf a row hrow, hide_of_loaded hrow, hg _ _ rfl]
    rfl
  · rw [not_exists] at hloaded
    rw [hide_of_ne hloaded, h a hloaded]

private theorem verify_phase (d : Deps) (a : Attempt) (p : Phase) (row : Option UserRow) :
    ({ a with phase := p } : Attempt).verify d row = a.verify d row := by
  cases row <;> rfl

theorem phase_verify (d : Deps) (a : Attempt) (row found : Option UserRow) :
    (a.verify d row).phase ≠ .loaded found := by
  unfold Attempt.verify
  split
  · simp
  · split_ifs <;> simp

private theorem hide_load (a : Attempt) (ok : Bool) (era : ℕ) :
    Attempt.hide d v { a with
      phase := if ok then .loaded (userAt era (normalizeEmail d.unicode a.email))
        else .answered 401 } =
    { a with
      phase := if ok then .loaded (hide v userAt era (normalizeEmail d.unicode a.email))
        else .answered 401 } := by
  cases ok with
  | false =>
    rw [if_neg Bool.false_ne_true, if_neg Bool.false_ne_true]
    exact hide_of_ne (fun row => by simp)
  | true =>
    rw [if_pos rfl, if_pos rfl]
    exact hide_of_loaded rfl

private theorem hide_verify {row : Option UserRow}
    (h : normalizeEmail d.unicode a.email = v → LikeDummy d a.password row) :
    (a.verify d row).hide d v =
      a.verify d (if normalizeEmail d.unicode a.email = v then none else row) := by
  rw [hide_of_ne (phase_verify d a row)]
  split_ifs with hv
  · exact verify_hide (h hv)
  · rfl

private theorem step_hide (h : Unguessed d userAt v s) (e : Action) :
    (step d userAt s e).map (State.hide d v) = step d (hide v userAt) (s.hide d v) e := by
  cases e with
  | arrive email password =>
    have hne : (decodeLogin d email password).hide d v = decodeLogin d email password := by
      apply hide_of_ne
      intro row
      simp only [decodeLogin]
      split_ifs <;> simp
    simp [step, State.hide, hne]
  | check i now =>
    apply bind_hide_of_ne (fun a row hrow => by simp [hrow]) (fun a row hrow => by simp [hrow])
    intro a _
    cases hphase : a.phase with
    | received =>
      have hne (b : Bool) (row : Option UserRow) :
          (if b then Phase.answered 401 else .allowed) ≠ .loaded row := by cases b <;> simp
      exact congrArg some (hide_set (fun row => hne _ row) _ _ _ _)
    | _ => rfl
  | load i ok =>
    apply bind_hide_of_ne (fun a row hrow => by simp [hrow]) (fun a row hrow => by simp [hrow])
    intro a _
    cases hphase : a.phase with
    | allowed => exact congrArg some ((hide_put s i _).trans (congrArg _ (hide_load a ok _)))
    | _ => rfl
  | verify i =>
    apply bind_hide
    intro a ha
    cases hphase : a.phase with
    | loaded row =>
      rw [hide_of_loaded hphase]
      simp only [verify_phase]
      exact congrArg some ((hide_put s i _).trans (congrArg _ (hide_verify fun hv =>
        (h a ha hv).2 row hphase)))
    | _ => rw [hide_of_ne (by simp [hphase])]; simp [hphase]
  | record i now victim =>
    apply bind_hide_of_ne (fun a row hrow => by simp [hrow]) (fun a row hrow => by simp [hrow])
    intro a _
    cases hphase : a.phase with
    | refused =>
      simp only [Option.map_map]
      have hlockout : (s.hide d v).lockout = s.lockout := rfl
      rw [hlockout]
      congr 1
      funext lockout
      exact hide_set (fun row => by simp) _ _ _ _
    | _ => rfl
  | create i hash now ok =>
    apply bind_hide_of_ne (fun a row hrow => by simp [hrow]) (fun a row hrow => by simp [hrow])
    intro a _
    cases hphase : a.phase with
    | verified u =>
      cases ok with
      | false => exact congrArg some (hide_set (fun row => by simp) _ _ _ _)
      | true => exact congrArg some (hide_set (fun row => by simp) _ _ _ _)
    | _ => rfl
  | clear i =>
    apply bind_hide_of_ne (fun a row hrow => by simp [hrow]) (fun a row hrow => by simp [hrow])
    intro a _
    cases hphase : a.phase with
    | created => exact congrArg some (hide_set (fun row => by simp) _ _ _ _)
    | _ => rfl
  | writeUsers => rfl

theorem Unguessed.put (h : Unguessed d userAt v s) {b : Attempt} (ha : a ∈ s.attempts)
    (hemail : b.email = a.email) (hpassword : b.password = a.password)
    (hphase : ∀ row, b.phase = .loaded row →
      ∃ era, row = userAt era (normalizeEmail d.unicode a.email)) :
    Unguessed d userAt v (s.put i b) := by
  intro c hc hv
  rcases List.mem_or_eq_of_mem_set hc with hc | rfl
  · exact h c hc hv
  · rw [hemail] at hv
    obtain ⟨hwrong, -⟩ := h a ha hv
    rw [hpassword]
    refine ⟨hwrong, fun row hrow => ?_⟩
    obtain ⟨era, rfl⟩ := hphase row hrow
    rw [hv]
    exact hwrong era

private theorem unguessed_step {e : Action} (h : Unguessed d userAt v s) (he : Misses d userAt v e)
    (hstep : step d userAt s e = some s') : Unguessed d userAt v s' := by
  cases e with
  | arrive email password =>
    obtain rfl := Option.some.inj hstep
    intro a ha hv
    rcases List.mem_append.mp ha with ha | ha
    · exact h a ha hv
    · obtain rfl := List.mem_singleton.mp ha
      have hemail : normalizeEmail d.unicode email = v :=
        (GrantWrites.normalizeEmail_normalized d.unicode email).symm.trans hv
      refine ⟨he hemail, fun row hrow => ?_⟩
      simp only [decodeLogin] at hrow
      split_ifs at hrow
  | check i now =>
    obtain ⟨a, ha, hstep⟩ := Option.bind_eq_some_iff.mp hstep
    split at hstep
    next =>
      obtain rfl := Option.some.inj hstep
      refine h.put (List.mem_of_getElem? ha) rfl rfl (fun row hrow => ?_)
      dsimp only at hrow
      split_ifs at hrow
    next => cases hstep
  | load i ok =>
    obtain ⟨a, ha, hstep⟩ := Option.bind_eq_some_iff.mp hstep
    split at hstep
    next =>
      obtain rfl := Option.some.inj hstep
      refine h.put (List.mem_of_getElem? ha) rfl rfl (fun row hrow => ⟨s.era, ?_⟩)
      dsimp only at hrow
      split_ifs at hrow
      exact (Phase.loaded.inj hrow).symm
    next => cases hstep
  | verify i =>
    obtain ⟨a, ha, hstep⟩ := Option.bind_eq_some_iff.mp hstep
    split at hstep
    next row _ =>
      obtain rfl := Option.some.inj hstep
      have hsame : (a.verify d row).email = a.email ∧ (a.verify d row).password = a.password := by
        unfold Attempt.verify
        split
        · exact ⟨rfl, rfl⟩
        · split_ifs <;> exact ⟨rfl, rfl⟩
      exact h.put (List.mem_of_getElem? ha) hsame.1 hsame.2
        (fun found hfound => absurd hfound (phase_verify d a row found))
    next => cases hstep
  | record i now victim =>
    obtain ⟨a, ha, hstep⟩ := Option.bind_eq_some_iff.mp hstep
    split at hstep
    next =>
      obtain ⟨lockout, -, rfl⟩ := Option.map_eq_some_iff.mp hstep
      exact h.put (List.mem_of_getElem? ha) rfl rfl (fun row hrow => by cases hrow)
    next => cases hstep
  | create i hash now ok =>
    obtain ⟨a, ha, hstep⟩ := Option.bind_eq_some_iff.mp hstep
    split at hstep
    next =>
      split_ifs at hstep
      · obtain rfl := Option.some.inj hstep
        exact h.put (List.mem_of_getElem? ha) rfl rfl (fun row hrow => by cases hrow)
      · obtain rfl := Option.some.inj hstep
        exact h.put (List.mem_of_getElem? ha) rfl rfl (fun row hrow => by cases hrow)
    next => cases hstep
  | clear i =>
    obtain ⟨a, ha, hstep⟩ := Option.bind_eq_some_iff.mp hstep
    split at hstep
    next =>
      obtain rfl := Option.some.inj hstep
      exact h.put (List.mem_of_getElem? ha) rfl rfl (fun row hrow => by cases hrow)
    next => cases hstep
  | writeUsers =>
    obtain rfl := Option.some.inj hstep
    exact h

/-- A run of attempts that miss the account is a run without the account. -/
theorem exec_hide (cfg : LockoutConfig) {as : List Action}
    (has : ∀ e ∈ as, Misses d userAt v e) :
    (exec (step d userAt) (init cfg) as).map (State.hide d v) =
      exec (step d (hide v userAt)) (init cfg) as :=
  exec_map (fun _ _ _ hs he hstep => unguessed_step hs he hstep) (fun _ e hs _ => step_hide hs e)
    has (fun a ha => by cases ha)

end Hidden

/-- Whether an email has an account cannot be told from attempts with wrong passwords: with the
one table of users or the other, whatever steps the attempts take in whatever order, the lockout,
the sessions, the answers and the work for each of them are the same. -/
theorem login_uniform (d : Deps) (cfg : LockoutConfig) (v : String)
    {users₁ users₂ : ℕ → List UserRow}
    (hothers : ∀ era email, email ≠ v → usersOf d users₁ era email = usersOf d users₂ era email)
    {as : List Action} (h₁ : ∀ e ∈ as, Misses d (usersOf d users₁) v e)
    (h₂ : ∀ e ∈ as, Misses d (usersOf d users₂) v e) :
    (exec (step d (usersOf d users₁)) (init cfg) as).map State.observe =
      (exec (step d (usersOf d users₂)) (init cfg) as).map State.observe := by
  have hhide : hide v (usersOf d users₁) = hide v (usersOf d users₂) := by
    funext era email
    by_cases hv : email = v
    · simp [hide, hv]
    · simp [hide, hv, hothers era email hv]
  have hobserve : (State.observe ∘ State.hide d v) = State.observe := by
    funext s
    exact observe_hide s
  calc (exec (step d (usersOf d users₁)) (init cfg) as).map State.observe
      = (exec (step d (hide v (usersOf d users₁))) (init cfg) as).map State.observe := by
        rw [← exec_hide cfg h₁, Option.map_map, hobserve]
    _ = (exec (step d (usersOf d users₂)) (init cfg) as).map State.observe := by
        rw [hhide, ← exec_hide cfg h₂, Option.map_map, hobserve]

def exampleDeps : Deps where
  unicode := sampleUnicode
  verifyPassword hash password := hash = "$2a$12$" ++ password
  hashCost _ := minBcryptCost
  defaultSiteID := 1
  sessionTTL := 1209600

def ann : UserRow where
  user := { userID := 7, siteID := 1, email := "ann@example.org", role := .viewer }
  passwordHash := "$2a$12$correct horse"

/-- Two wrong passwords, the second when the account is there, or there with another password. -/
def guesses : List Action :=
  [.arrive " Ann@example.org" "password", .check 0 0, .load 0 true, .writeUsers,
    .arrive "ann@example.org" "123456", .check 1 1, .load 1 true, .verify 1, .verify 0,
    .record 0 2 none, .record 1 3 none]

theorem misses_guesses {users : ℕ → List UserRow}
    (h : ∀ era, ∀ r ∈ users era, r.user.disabled = false ∧
      r.passwordHash ≠ "$2a$12$password" ∧ r.passwordHash ≠ "$2a$12$123456") :
    ∀ e ∈ guesses, Misses exampleDeps (usersOf exampleDeps users) "ann@example.org" e := by
  have hlike {password : String} (hne : ∀ era, ∀ r ∈ users era,
      r.passwordHash ≠ "$2a$12$" ++ password) (era : ℕ) :
      LikeDummy exampleDeps password (usersOf exampleDeps users era "ann@example.org") := by
    intro r hr
    have hmem := List.mem_of_find?_eq_some hr
    exact ⟨(h era r hmem).1, decide_eq_false (hne era r hmem), rfl⟩
  simp only [guesses, List.forall_mem_cons, Misses, true_and]
  exact ⟨fun _ => hlike fun era r hr => (h era r hr).2.1,
    fun _ => hlike fun era r hr => (h era r hr).2.2, by simp⟩

def laterAnn (era : ℕ) : List UserRow :=
  if era = 0 then [] else [{ ann with passwordHash := "$2a$12$staple" }]

def exampleLockout : LockoutConfig := ⟨10, 900, 300, 10000⟩

theorem login_uniform_guesses :
    (exec (step exampleDeps (usersOf exampleDeps laterAnn)) (init exampleLockout) guesses).isSome ∧
      (exec (step exampleDeps (usersOf exampleDeps fun _ => [ann])) (init exampleLockout)
          guesses).map State.observe =
        (exec (step exampleDeps (usersOf exampleDeps laterAnn)) (init exampleLockout)
          guesses).map State.observe := by
  refine ⟨by decide +kernel, login_uniform exampleDeps exampleLockout "ann@example.org" ?_
    (misses_guesses ?_) (misses_guesses ?_)⟩
  · intro era email hne
    have hann : ann.user.email ≠ email := fun h => hne h.symm
    simp only [usersOf, laterAnn]
    split_ifs <;> simp [Offboarding.getUserByEmail, hann]
  · intro era r hr
    obtain rfl := List.mem_singleton.mp hr
    decide
  · intro era r hr
    rw [laterAnn] at hr
    split_ifs at hr
    · cases hr
    · obtain rfl := List.mem_singleton.mp hr
      decide

end Statnive.LoginAttempts
