import Statnive.AuthTypes
import Statnive.ReplacingTable
import Statnive.SiteRegistry

/-!
# The admin handlers of goals

A goal lives under its site and its id in a replacing table. A handler works on the site of
the query parameter, or on the site of the actor's row where the request names none.
-/

namespace Statnive.GoalsHandlers

open AuthTypes
open IngestHandler (trimSpace)

inductive MatchType where
  | eventNameEquals
  | other
  deriving DecidableEq

def MatchType.valid : MatchType → Bool
  | .eventNameEquals => true
  | .other => false

structure Goal where
  goalID : ℕ
  siteID : ℕ
  name : String
  matchType : MatchType
  pattern : String
  value : ℕ
  enabled : Bool
  createdAt : ℤ := 0
  updatedAt : ℤ := 0
  deriving DecidableEq

def Goal.key (g : Goal) : ℕ × ℕ := (g.siteID, g.goalID)

inductive GoalError where
  | notFound | invalidInput | internal
  deriving DecidableEq

/-- The calls of the store, of which any may fail. -/
inductive GoalQuery where
  | get | write | list
  deriving DecidableEq

structure GoalEnv where
  fails : GoalQuery → Bool
  now : ℤ
  newID : ℕ

def maxPatternLen : ℕ := 128

/-- The goal as `validate` leaves it. -/
def Goal.trimmed (g : Goal) : Goal := { g with name := trimSpace g.name, pattern := trimSpace g.pattern }

def validate (g : Goal) : Except GoalError Goal :=
  if g.siteID = 0 then .error .invalidInput
  else if g.trimmed.name = "" then .error .invalidInput
  else if !g.matchType.valid then .error .invalidInput
  else if g.trimmed.pattern = "" then .error .invalidInput
  else if g.trimmed.pattern.utf8ByteSize > maxPatternLen then .error .invalidInput
  else .ok g.trimmed

def insertGoal (goals : List Goal) (g : Goal) : List Goal :=
  ReplacingTable.insert Goal.key Goal.updatedAt goals g

def create (env : GoalEnv) (goals : List Goal) (g : Goal) : Except GoalError (List Goal) :=
  match validate g with
  | .error err => .error err
  | .ok g =>
    if env.fails .write then .error .internal
    else .ok (insertGoal goals
      { g with goalID := env.newID, createdAt := env.now, updatedAt := env.now })

/-- The nil id is refused. -/
def get (env : GoalEnv) (goals : List Goal) (siteID goalID : ℕ) : Except GoalError Goal :=
  if goalID = 0 then .error .invalidInput
  else if env.fails .get then .error .internal
  else match goals.find? (fun g => g.key = (siteID, goalID)) with
  | none => .error .notFound
  | some g => .ok g

def list (goals : List Goal) (siteID : ℕ) : List Goal :=
  (goals.filter (fun g => g.siteID = siteID)).mergeSort (fun a b => a.name ≤ b.name)

/-- The row that `Update` writes over an existing one. -/
def Goal.over (g existing : Goal) (now : ℤ) : Goal :=
  { g with createdAt := existing.createdAt, updatedAt := now }

def update (env : GoalEnv) (goals : List Goal) (g : Goal) : Except GoalError (List Goal) :=
  match validate g with
  | .error err => .error err
  | .ok g => match get env goals g.siteID g.goalID with
    | .error err => .error err
    | .ok existing =>
      if env.fails .write then .error .internal
      else .ok (insertGoal goals (g.over existing env.now))

def disable (env : GoalEnv) (goals : List Goal) (siteID goalID : ℕ) :
    Except GoalError (List Goal) :=
  match get env goals siteID goalID with
  | .error err => .error err
  | .ok g => update env goals { g with enabled := false }

structure GoalRequest where
  name : String := ""
  matchType : MatchType := .other
  pattern : String := ""
  value : ℕ := 0
  enabled : Bool := false
  deriving DecidableEq

/-- The goal of a body; a new one has no id yet. -/
def GoalRequest.goal (req : GoalRequest) (siteID goalID : ℕ) : Goal where
  goalID := goalID
  siteID := siteID
  name := trimSpace req.name
  matchType := req.matchType
  pattern := trimSpace req.pattern
  value := req.value
  enabled := req.enabled

/-- The site of the query parameter, which `RequireSiteRole` has checked. -/
def activeSiteOr (active : Option ℕ) (fallback : ℕ) : ℕ := active.getD fallback

def errorStatus : GoalError → ℕ
  | .notFound => 404
  | .invalidInput => 400
  | .internal => 500

def written (goals : List Goal) (success : ℕ) : Except GoalError (List Goal) → List Goal × ℕ
  | .error err => (goals, errorStatus err)
  | .ok goals => (goals, success)

def createGoal (env : GoalEnv) (goals : List Goal) (siteID : ℕ) (body : Option GoalRequest) :
    List Goal × ℕ :=
  match body with
  | none => (goals, 400)
  | some req => written goals 201 (create env goals (req.goal siteID 0))

def updateGoal (env : GoalEnv) (goals : List Goal) (siteID : ℕ) (goalID : Option ℕ)
    (body : Option GoalRequest) : List Goal × ℕ :=
  match goalID, body with
  | some goalID, some req => written goals 200 (update env goals (req.goal siteID goalID))
  | _, _ => (goals, 400)

/-- Other errors than a missing goal are internal ones here. -/
def disableGoal (env : GoalEnv) (goals : List Goal) (siteID : ℕ) (goalID : Option ℕ) :
    List Goal × ℕ :=
  match goalID with
  | none => (goals, 400)
  | some goalID => match disable env goals siteID goalID with
    | .error .notFound => (goals, 404)
    | .error _ => (goals, 500)
    | .ok goals => (goals, 204)

def listGoals (env : GoalEnv) (goals : List Goal) (siteID : ℕ) : List Goal × ℕ :=
  if env.fails .list then ([], 500) else (list goals siteID, 200)

variable {env : GoalEnv} {goals : List Goal} {siteID : ℕ}

theorem validate_ok {g g' : Goal} (h : validate g = .ok g') : g.siteID ≠ 0 ∧ g' = g.trimmed := by
  simp only [validate] at h
  split_ifs at h with hsite
  exact ⟨hsite, (Except.ok.inj h).symm⟩

theorem get_ok {goalID : ℕ} {g : Goal} (h : get env goals siteID goalID = .ok g) :
    g ∈ goals ∧ g.key = (siteID, goalID) := by
  simp only [get] at h
  split_ifs at h
  cases hfind : goals.find? (fun g => g.key = (siteID, goalID)) with
  | none => simp [hfind] at h
  | some found =>
    obtain rfl : found = g := by simpa [hfind] using h
    exact ⟨List.mem_of_find?_eq_some hfind, by simpa using List.find?_some hfind⟩

/-- The goals of the sites `out` are as they were. -/
def Kept (out : ℕ → Prop) (goals goals' : List Goal) : Prop :=
  ∀ g : Goal, out g.siteID → (g ∈ goals' ↔ g ∈ goals)

theorem Kept.of_eq {out : ℕ → Prop} {goals' : List Goal} (h : goals' = goals) :
    Kept out goals goals' := by
  subst h
  exact fun _ _ => Iff.rfl

theorem kept_insert_iff {out : ℕ → Prop} {g : Goal} : Kept out goals (insertGoal goals g) ↔
    (out g.siteID → (∃ old ∈ goals, old.key = g.key) ∧
      ∀ old ∈ goals, old.key = g.key → old.updatedAt ≤ g.updatedAt → g = old) := by
  have hnewer (old : Goal) : ReplacingTable.newer Goal.updatedAt old g = old ↔
      (old.updatedAt ≤ g.updatedAt → g = old) := by
    by_cases h : old.updatedAt ≤ g.updatedAt <;> simp [ReplacingTable.newer, h]
  have hkey (r : Goal) : ¬ out r.siteID → out g.siteID → r.key ≠ g.key := by
    intro hr hg hk
    have hsite : r.siteID = g.siteID := congrArg Prod.fst hk
    exact hr (hsite ▸ hg)
  have hsame : out g.siteID → (Kept out goals (insertGoal goals g) ↔
      ∀ r, r ∈ insertGoal goals g ↔ r ∈ goals) := by
    refine fun hout => ⟨fun h r => ?_, fun h r _ => h r⟩
    by_cases hr : out r.siteID
    · exact h r hr
    · exact ReplacingTable.mem_insert_of_ne (hkey r hr hout)
  by_cases hout : out g.siteID
  · rw [hsame hout, insertGoal, ReplacingTable.insert_same_iff]
    simp only [hout, true_imp_iff, hnewer]
  · refine iff_of_true (fun r hr => ReplacingTable.mem_insert_of_ne fun hk => hout ?_) (absurd · hout)
    have hsite : r.siteID = g.siteID := congrArg Prod.fst hk
    exact hsite ▸ hr

/-- A body that makes a goal. -/
structure Creates (env : GoalEnv) (siteID : ℕ) (body : Option GoalRequest) : Prop where
  valid : ∃ req, body = some req ∧ ∃ g, validate (req.goal siteID 0) = .ok g
  answered : env.fails .write = false

/-- The row `g` is written, and is not the one that is stored. -/
structure Overwrites (env : GoalEnv) (goals : List Goal) (g existing : Goal) : Prop where
  valid : ∃ g', validate g = .ok g'
  found : get env goals g.siteID g.goalID = .ok existing
  answered : env.fails .write = false
  changed : ∃ old ∈ goals, old.key = g.key ∧ old.updatedAt ≤ env.now ∧
    g.trimmed.over existing env.now ≠ old

theorem createGoal_kept_iff {out : ℕ → Prop} (hnew : ∀ g ∈ goals, g.goalID ≠ env.newID)
    (body : Option GoalRequest) : Kept out goals (createGoal env goals siteID body).1 ↔
      ¬ (out siteID ∧ Creates env siteID body) := by
  cases body with
  | none =>
    refine iff_of_true (Kept.of_eq rfl) ?_
    rintro ⟨-, ⟨req, hreq, -⟩, -⟩
    simp at hreq
  | some req =>
    cases hval : validate (req.goal siteID 0) with
    | error err =>
      have hsame : (createGoal env goals siteID (some req)).1 = goals := by
        simp [createGoal, create, hval, written]
      refine iff_of_true (Kept.of_eq hsame) ?_
      rintro ⟨-, ⟨req', hreq, g, hg⟩, -⟩
      obtain rfl := Option.some.inj hreq
      simp [hval] at hg
    | ok g =>
      obtain ⟨-, rfl⟩ := validate_ok hval
      by_cases hfails : env.fails .write = true
      · have hsame : (createGoal env goals siteID (some req)).1 = goals := by
          simp [createGoal, create, hval, written, hfails]
        refine iff_of_true (Kept.of_eq hsame) ?_
        rintro ⟨-, -, hans⟩
        simp [hfails] at hans
      · have hans : env.fails .write = false := by simpa using hfails
        have hstate : (createGoal env goals siteID (some req)).1 = insertGoal goals
            { (req.goal siteID 0).trimmed with
              goalID := env.newID, createdAt := env.now, updatedAt := env.now } := by
          simp [createGoal, create, hval, written, hans]
        rw [hstate, kept_insert_iff]
        have hcreates : Creates env siteID (some req) := ⟨⟨req, rfl, _, hval⟩, hans⟩
        simp only [hcreates, and_true]
        refine imp_congr_right fun hout => iff_of_false ?_ (fun h => h)
        rintro ⟨⟨old, hold, hk⟩, -⟩
        exact hnew old hold (congrArg Prod.snd hk)

private theorem key_over (g existing : Goal) (now : ℤ) : (g.trimmed.over existing now).key =
    g.key := by
  simp only [Goal.key, Goal.over, Goal.trimmed]

private theorem updatedAt_over (g existing : Goal) (now : ℤ) : (g.over existing now).updatedAt =
    now := rfl

private theorem siteID_over (g existing : Goal) (now : ℤ) :
    (g.trimmed.over existing now).siteID = g.siteID := by
  simp only [Goal.over, Goal.trimmed]

theorem update_kept_iff {out : ℕ → Prop} {g : Goal} (success : ℕ) :
    Kept out goals (written goals success (update env goals g)).1 ↔
      ¬ (out g.siteID ∧ ∃ existing, Overwrites env goals g existing) := by
  have hrefused (h : (written goals success (update env goals g)).1 = goals)
      (hno : ¬ ∃ existing, Overwrites env goals g existing) :
      Kept out goals (written goals success (update env goals g)).1 ↔
        ¬ (out g.siteID ∧ ∃ existing, Overwrites env goals g existing) :=
    iff_of_true (Kept.of_eq h) fun hand => hno hand.2
  cases hval : validate g with
  | error err =>
    refine hrefused (by simp [update, hval, written]) ?_
    rintro ⟨existing, ⟨g', hg⟩, -⟩
    simp [hval] at hg
  | ok g' =>
    obtain ⟨-, rfl⟩ := validate_ok hval
    cases hget : get env goals g.siteID g.goalID with
    | error err =>
      have hget' : get env goals g.trimmed.siteID g.trimmed.goalID = .error err := hget
      refine hrefused (by simp [update, hval, hget', written]) ?_
      rintro ⟨existing, -, hfound, -⟩
      simp [hget] at hfound
    | ok existing =>
      have hget' : get env goals g.trimmed.siteID g.trimmed.goalID = .ok existing := hget
      by_cases hfails : env.fails .write = true
      · refine hrefused (by simp [update, hval, hget', written, hfails]) ?_
        rintro ⟨existing, -, -, hans, -⟩
        simp [hfails] at hans
      · have hans : env.fails .write = false := by simpa using hfails
        obtain ⟨hmem, hkey⟩ := get_ok hget
        have hstate : (written goals success (update env goals g)).1 =
            insertGoal goals (g.trimmed.over existing env.now) := by
          simp [update, hval, hget', written, hans]
        rw [hstate, kept_insert_iff, not_and]
        simp only [key_over, updatedAt_over, siteID_over]
        refine imp_congr_right fun _ => ?_
        constructor
        · rintro ⟨-, hsame⟩ ⟨existing', -, hfound, -, old, hold, hk, hnow, hne⟩
          obtain rfl : existing = existing' := Except.ok.inj (hget.symm.trans hfound)
          exact hne (hsame old hold hk hnow)
        · intro hno
          refine ⟨⟨existing, hmem, hkey⟩, fun old hold hk hnow => ?_⟩
          by_contra hne
          exact hno ⟨existing, ⟨_, hval⟩, hget, hans, old, hold, hk, hnow, hne⟩

theorem updateGoal_kept_iff {out : ℕ → Prop} (goalID : Option ℕ) (body : Option GoalRequest) :
    Kept out goals (updateGoal env goals siteID goalID body).1 ↔
      ¬ (out siteID ∧ ∃ id req existing, goalID = some id ∧ body = some req ∧
        Overwrites env goals (req.goal siteID id) existing) := by
  cases goalID with
  | none => simp [updateGoal, Kept.of_eq]
  | some id => cases body with
    | none => simp [updateGoal, Kept.of_eq]
    | some req =>
      have h : Kept out goals (written goals 200 (update env goals (req.goal siteID id))).1 ↔ _ :=
        update_kept_iff 200
      have hsite : (req.goal siteID id).siteID = siteID := rfl
      rw [hsite] at h
      simpa [updateGoal] using h

theorem disableGoal_kept_iff {out : ℕ → Prop} (goalID : Option ℕ) :
    Kept out goals (disableGoal env goals siteID goalID).1 ↔
      ¬ (out siteID ∧ ∃ id g existing, goalID = some id ∧ get env goals siteID id = .ok g ∧
        Overwrites env goals { g with enabled := false } existing) := by
  cases goalID with
  | none => simp [disableGoal, Kept.of_eq]
  | some id =>
    cases hget : get env goals siteID id with
    | error err =>
      have hsame : (disableGoal env goals siteID (some id)).1 = goals := by
        cases err <;> simp [disableGoal, disable, hget]
      refine iff_of_true (Kept.of_eq hsame) ?_
      rintro ⟨-, id', g, existing, hid, hg, -⟩
      obtain rfl := Option.some.inj hid
      simp [hget] at hg
    | ok g =>
      have hsite : g.siteID = siteID := congrArg Prod.fst (get_ok hget).2
      have hstate : (disableGoal env goals siteID (some id)).1 =
          (written goals 204 (update env goals { g with enabled := false })).1 := by
        simp only [disableGoal, disable, hget]
        cases update env goals { g with enabled := false } with
        | error err => cases err <;> rfl
        | ok goals' => rfl
      rw [hstate, update_kept_iff]
      simp [hsite, hget]

/-- What is listed belongs to the site. -/
theorem mem_listGoals {g : Goal} : g ∈ (listGoals env goals siteID).1 ↔
    env.fails .list = false ∧ g ∈ goals ∧ g.siteID = siteID := by
  by_cases h : env.fails .list = true <;> simp [listGoals, list, h]

end Statnive.GoalsHandlers
