import Mathlib.Algebra.BigOperators.Group.List.Basic
import Statnive.LabelledRuns
import Statnive.McpBudget

/-!
# What a budget lets through

Tool calls run side by side: each reserves itself, queries, and is charged for its rows when it
returns them. The windows of a bucket are numbered to say which of them admitted a call.
-/

namespace Statnive.BudgetWindows

open McpBudget LabelledRuns

inductive Progress where
  | running
  | returned (rows : ℕ)
  | failed
  deriving DecidableEq

/-- An admitted call, with the window of its actor's bucket that admitted it. -/
structure Call where
  principal : Principal
  window : ℕ
  progress : Progress

def Call.key (call : Call) : String := call.principal.key

def Call.rows (call : Call) : ℕ :=
  match call.progress with
  | .returned rows => rows
  | _ => 0

def Call.running (call : Call) : Bool := call.progress = .running

def Call.within (key : String) (window : ℕ) (call : Call) : Bool :=
  call.key = key && call.window = window

/-- `windows` counts the windows that the bucket of a key has begun. -/
structure State where
  buckets : String → Option ActorBudget := fun _ => none
  windows : String → ℕ := fun _ => 0
  calls : List Call := []

inductive Action where
  | call (p : Principal) (perToolCallCap : ℤ) (c : Clock)
  | noteSite (i : ℕ) (siteID : ℕ) (c : Clock)
  | finish (i : ℕ) (rows : ℕ) (c : Clock)
  | fail (i : ℕ)

/-- The operation finds no bucket or one whose window has rolled over. -/
def begins (b : Option ActorBudget) (c : Clock) : Bool := b.isNone || rolls b c

def State.operate (cfg : BudgetConfig) (s : State) (o : Operation) : State where
  buckets := Function.update s.buckets o.key (some (McpBudget.operate cfg o (s.buckets o.key)).1)
  windows := Function.update s.windows o.key
    (if begins (s.buckets o.key) o.clock then s.windows o.key + 1 else s.windows o.key)
  calls := s.calls

def admits (cfg : BudgetConfig) (s : State) (o : Operation) : Bool :=
  (McpBudget.operate cfg o (s.buckets o.key)).2 = .admitted

def State.setProgress (s : State) (i : ℕ) (call : Call) (progress : Progress) : State :=
  { s with calls := s.calls.set i { call with progress := progress } }

def runningCall (s : State) (i : ℕ) : Option Call :=
  (s.calls[i]?).filter Call.running

/-- A call that is refused later, or whose handler fails, is not charged. -/
def step (cfg : BudgetConfig) (s : State) : Action → Option State
  | .call p perToolCallCap c =>
    let o : Operation := ⟨p, .reserve perToolCallCap, c⟩
    let next := s.operate cfg o
    if admits cfg s o then
      some { next with calls := next.calls ++ [⟨p, next.windows p.key, .running⟩] }
    else some next
  | .noteSite i siteID c => (runningCall s i).map fun call =>
      s.operate cfg ⟨call.principal, .noteSite siteID, c⟩
  | .finish i rows c => (runningCall s i).map fun call =>
      (s.operate cfg ⟨call.principal, .charge rows, c⟩).setProgress i call (.returned rows)
  | .fail i => (runningCall s i).map fun call => s.setProgress i call .failed

def admittedIn (s : State) (key : String) (window : ℕ) : ℕ :=
  s.calls.countP (Call.within key window)

def runningIn (s : State) (key : String) (window : ℕ) : ℕ :=
  s.calls.countP (fun call => call.within key window && call.running)

def rowsIn (s : State) (key : String) (window : ℕ) : ℕ :=
  (s.calls.map (fun call => if call.within key window then call.rows else 0)).sum

/-- The cap on the calls of a window that holds for every tool. -/
def windowCallCap (cfg : BudgetConfig) (p : Principal) : ℤ :=
  scaleCap cfg.callsPerMin (isWildcardActor p.actor) cfg.wildcardFactor

def windowRowCap (cfg : BudgetConfig) (p : Principal) : ℤ :=
  rowCap cfg (isWildcardActor p.actor)

def CallsBounded (cfg : BudgetConfig) (s : State) : Prop :=
  ∀ (p : Principal) (window : ℕ), 0 < windowCallCap cfg p →
    (admittedIn s p.key window : ℤ) ≤ windowCallCap cfg p

/-- The rows of a window stay within the budget but for those of one call. -/
def RowsBounded (cfg : BudgetConfig) (s : State) : Prop :=
  ∀ (p : Principal) (window : ℕ), 0 < windowRowCap cfg p →
    (rowsIn s p.key window : ℤ) ≤ windowRowCap cfg p ∨
      ∃ call ∈ s.calls, call.within p.key window = true ∧
        (rowsIn s p.key window : ℤ) ≤ windowRowCap cfg p + call.rows

/-- Where rows are capped, a call that is admitted finds none running that its window has
admitted before. -/
def Alone (cfg : BudgetConfig) (s : State) : Action → Prop
  | .call p perToolCallCap c => 0 < windowRowCap cfg p →
    admits cfg s ⟨p, .reserve perToolCallCap, c⟩ = true → begins (s.buckets p.key) c = false →
      runningIn s p.key (s.windows p.key) = 0
  | _ => True

instance (cfg : BudgetConfig) (s : State) (a : Action) : Decidable (Alone cfg s a) :=
  match a with
  | .call _ _ _ => inferInstanceAs (Decidable (_ → _ → _ → _))
  | .noteSite _ _ _ | .finish _ _ _ | .fail _ => .isTrue trivial

theorem countP_set_add {α : Type*} {q : α → Bool} {l : List α} {i : ℕ} {a b : α}
    (h : l[i]? = some a) :
    (l.set i b).countP q + (q a).toNat = l.countP q + (q b).toNat := by
  induction l generalizing i with
  | nil => simp at h
  | cons x l ih =>
    cases i with
    | zero =>
      obtain rfl : x = a := by simpa using h
      simp only [List.set_cons_zero, List.countP_cons]
      cases q x <;> cases q b <;> simp
    | succ i =>
      have hrest := ih (by simpa using h)
      simp only [List.set_cons_succ, List.countP_cons]
      omega

private theorem sum_map_set {α : Type*} {f : α → ℕ} {l : List α} {i : ℕ} {a b : α}
    (h : l[i]? = some a) : ((l.set i b).map f).sum + f a = (l.map f).sum + f b := by
  induction l generalizing i with
  | nil => simp at h
  | cons x l ih =>
    cases i with
    | zero =>
      obtain rfl : x = a := by simpa using h
      simp only [List.set_cons_zero, List.map_cons, List.sum_cons]
      omega
    | succ i =>
      have hrest := ih (by simpa using h)
      simp only [List.set_cons_succ, List.map_cons, List.sum_cons]
      omega

variable {cfg : BudgetConfig} {s t : State} {key : String} {window : ℕ}

private theorem admittedIn_snoc (s : State) (call : Call) (key : String) (window : ℕ) :
    admittedIn { s with calls := s.calls ++ [call] } key window =
      admittedIn s key window + (call.within key window).toNat := by
  simp only [admittedIn, List.countP_append, List.countP_singleton]
  cases call.within key window <;> rfl

private theorem runningIn_snoc (s : State) (call : Call) (key : String) (window : ℕ) :
    runningIn { s with calls := s.calls ++ [call] } key window =
      runningIn s key window + (call.within key window && call.running).toNat := by
  simp only [runningIn, List.countP_append, List.countP_singleton]
  cases call.within key window && call.running <;> rfl

theorem rowsIn_snoc (s : State) (call : Call) (key : String) (window : ℕ) :
    rowsIn { s with calls := s.calls ++ [call] } key window =
      rowsIn s key window + (if call.within key window then call.rows else 0) := by
  simp [rowsIn]

theorem runningCall_some {i : ℕ} {call : Call} (h : runningCall s i = some call) :
    s.calls[i]? = some call ∧ call.running = true := by
  simpa [runningCall, Option.filter_eq_some_iff] using h

/-- A running call that ends leaves the count of its window's calls as it was. -/
theorem admittedIn_setProgress {i : ℕ} {call : Call} (h : runningCall s i = some call)
    (progress : Progress) (key : String) (window : ℕ) :
    admittedIn (s.setProgress i call progress) key window = admittedIn s key window := by
  have hcount := countP_set_add (q := Call.within key window)
    (b := { call with progress := progress }) (runningCall_some h).1
  have hsame : Call.within key window { call with progress := progress } =
      call.within key window := rfl
  simp only [hsame] at hcount
  simp only [admittedIn, State.setProgress]
  omega

private theorem runningIn_setProgress {i : ℕ} {call : Call} (h : runningCall s i = some call)
    {progress : Progress} (hended : progress ≠ .running) (key : String) (window : ℕ) :
    runningIn (s.setProgress i call progress) key window + (call.within key window).toNat =
      runningIn s key window := by
  obtain ⟨hcall, hrunning⟩ := runningCall_some h
  have hcount := countP_set_add (q := fun call => call.within key window && call.running)
    (b := { call with progress := progress }) hcall
  have hnow : Call.running { call with progress := progress } = false := by
    simpa [Call.running] using hended
  simpa [hnow, hrunning, runningIn, State.setProgress] using hcount

theorem rowsIn_setProgress {i : ℕ} {call : Call} (h : runningCall s i = some call)
    (progress : Progress) (key : String) (window : ℕ) :
    rowsIn (s.setProgress i call progress) key window = rowsIn s key window +
      (if call.within key window then Call.rows { call with progress := progress } else 0) := by
  obtain ⟨hcall, hrunning⟩ := runningCall_some h
  have hsum := sum_map_set (b := { call with progress := progress })
    (f := fun call => if call.within key window then call.rows else 0) hcall
  have hsame : Call.within key window { call with progress := progress } =
      call.within key window := rfl
  have hrows : call.rows = 0 := by
    have hprogress : call.progress = .running := by simpa [Call.running] using hrunning
    simp [Call.rows, hprogress]
  simpa [hsame, hrows, rowsIn, State.setProgress] using hsum

/-- The window that an operation on the bucket falls into. -/
def nextWindow (s : State) (key : String) (c : Clock) : ℕ :=
  if begins (s.buckets key) c then s.windows key + 1 else s.windows key

structure Inv (cfg : BudgetConfig) (s : State) : Prop where
  begun : ∀ call ∈ s.calls, call.window ≤ s.windows call.key
  unopened : ∀ key, s.buckets key = none → ∀ call ∈ s.calls, call.key ≠ key
  counted : ∀ key ab, s.buckets key = some ab →
    admittedIn s key (s.windows key) = ab.calls ∧ rowsIn s key (s.windows key) ≤ ab.rows
  calls : CallsBounded cfg s

/-- The rows of the window are within the cap and at most one call is to add to them, or they
exceed it by those of one call and none is. -/
def Settled (cap : ℤ) (s : State) (key : String) (window : ℕ) : Prop :=
  ((rowsIn s key window : ℤ) < cap ∧ runningIn s key window ≤ 1) ∨
    (runningIn s key window = 0 ∧ ∃ call ∈ s.calls, call.within key window = true ∧
      (rowsIn s key window : ℤ) ≤ cap + call.rows)

def RowsSettled (cfg : BudgetConfig) (s : State) : Prop :=
  ∀ (p : Principal) (window : ℕ), 0 < windowRowCap cfg p →
    Settled (windowRowCap cfg p) s p.key window

theorem RowsSettled.bounded (h : RowsSettled cfg s) : RowsBounded cfg s := by
  intro p window hcap
  rcases h p window hcap with ⟨hrows, -⟩ | ⟨-, hcall⟩
  · exact .inl hrows.le
  · exact .inr hcall

theorem within_iff {call : Call} :
    call.within key window = true ↔ call.key = key ∧ call.window = window := by
  simp [Call.within]

/-- The wildcard actors are those under the key of site 0. -/
theorem isWildcardActor_of_key {p q : Principal} (h : p.key = q.key) :
    isWildcardActor p.actor = isWildcardActor q.actor := by
  have hwild (u : AuthTypes.User) : isWildcardActor u = decide (account u = .site 0) := by
    by_cases hu : u.userID = AuthTypes.uuidNil <;> simp [isWildcardActor, account, hu]
  rw [hwild, hwild, (actorKey_eq_iff p.actor q.actor).mp h]

theorem admittedIn_eq_zero (h : ∀ call ∈ s.calls, call.within key window = false) :
    admittedIn s key window = 0 ∧ runningIn s key window = 0 ∧ rowsIn s key window = 0 := by
  refine ⟨List.countP_eq_zero.mpr fun call hcall => by simp [h call hcall],
    List.countP_eq_zero.mpr fun call hcall => by simp [h call hcall], ?_⟩
  refine List.sum_eq_zero fun n hn => ?_
  obtain ⟨call, hcall, rfl⟩ := List.mem_map.mp hn
  simp [h call hcall]

/-- A window that begins has no calls yet. -/
theorem Inv.nextWindow_empty (h : Inv cfg s) {c : Clock} (hbegins : begins (s.buckets key) c = true)
    {call : Call} (hcall : call ∈ s.calls) : call.within key (nextWindow s key c) = false := by
  by_contra hwithin
  obtain ⟨rfl, hwindow⟩ := within_iff.mp (by simpa using hwithin)
  have := h.begun call hcall
  simp only [nextWindow, hbegins, if_true] at hwindow
  omega

/-- The bucket that an operation gets has counted the calls and rows of its window. -/
theorem Inv.counted_get (h : Inv cfg s) (key : String) (c : Clock) :
    admittedIn s key (nextWindow s key c) = (McpBudget.get (s.buckets key) c).calls ∧
      rowsIn s key (nextWindow s key c) ≤ (McpBudget.get (s.buckets key) c).rows := by
  by_cases hbegins : begins (s.buckets key) c = true
  · obtain ⟨hadmitted, -, hrows⟩ := admittedIn_eq_zero fun call hcall =>
      h.nextWindow_empty hbegins hcall
    rw [hadmitted, hrows]
    cases hbucket : s.buckets key with
    | none =>
      simp only [McpBudget.get, Option.getD_none]
      split <;> exact ⟨rfl, le_rfl⟩
    | some ab =>
      have hrolls : rolls (some ab) c = true := by simpa [begins, hbucket] using hbegins
      simp [McpBudget.get, hrolls]
  · have hnot : begins (s.buckets key) c = false := by simpa using hbegins
    cases hbucket : s.buckets key with
    | none => simp [begins, hbucket] at hnot
    | some ab =>
      have hrolls : rolls (some ab) c = false := by simpa [begins, hbucket] using hnot
      simpa [McpBudget.get, hrolls, nextWindow, hnot] using h.counted key ab hbucket

@[simp] theorem operate_calls (cfg : BudgetConfig) (s : State) (o : Operation) :
    (s.operate cfg o).calls = s.calls := rfl

theorem operate_windows (cfg : BudgetConfig) (s : State) (o : Operation) (key : String) :
    (s.operate cfg o).windows key =
      if key = o.key then nextWindow s o.key o.clock else s.windows key := by
  by_cases hkey : key = o.key
  · subst hkey
    simp [State.operate, nextWindow]
  · simp [State.operate, hkey]

/-- The counts of a state depend on its calls alone. -/
theorem counts_congr (h : s.calls = t.calls) (key : String) (window : ℕ) :
    admittedIn s key window = admittedIn t key window ∧
    runningIn s key window = runningIn t key window ∧
      rowsIn s key window = rowsIn t key window := by
  simp only [admittedIn, runningIn, rowsIn, h, and_self]

/-- An operation that counts what it lets through keeps the buckets in step with the calls. -/
theorem Inv.operate (h : Inv cfg s) {o : Operation}
    (hbuckets : t.buckets = (s.operate cfg o).buckets)
    (hwindows : t.windows = (s.operate cfg o).windows)
    (hcalls : ∀ call ∈ t.calls,
      (∃ call' ∈ s.calls, call.key = call'.key ∧ call.window = call'.window) ∨
        call.key = o.key ∧ call.window = nextWindow s o.key o.clock)
    (hothers : ∀ key ≠ o.key, ∀ window, admittedIn t key window = admittedIn s key window ∧
      rowsIn t key window = rowsIn s key window)
    (hown : admittedIn t o.key (nextWindow s o.key o.clock) =
        (McpBudget.operate cfg o (s.buckets o.key)).1.calls ∧
      rowsIn t o.key (nextWindow s o.key o.clock) ≤
        (McpBudget.operate cfg o (s.buckets o.key)).1.rows)
    (hbounded : CallsBounded cfg t) : Inv cfg t where
  begun call hcall := by
    rw [hwindows, operate_windows]
    have hle : s.windows o.key ≤ nextWindow s o.key o.clock := by
      unfold nextWindow
      split <;> omega
    rcases hcalls call hcall with ⟨call', hcall', hkey, hwindow⟩ | ⟨hkey, hwindow⟩
    · have hbegun := h.begun call' hcall'
      rw [hkey, hwindow]
      split
      · next ho => exact (ho ▸ hbegun).trans hle
      · exact hbegun
    · rw [if_pos hkey, hwindow]
  unopened key hbucket call hcall := by
    rintro rfl
    rw [hbuckets, State.operate] at hbucket
    by_cases hkey : call.key = o.key
    · simp [hkey] at hbucket
    · simp only [Function.update_of_ne hkey] at hbucket
      rcases hcalls call hcall with ⟨call', hcall', hsame, -⟩ | ⟨hsame, -⟩
      · exact h.unopened _ hbucket call' hcall' hsame.symm
      · exact hkey hsame
  counted key ab hbucket := by
    rw [hwindows, operate_windows]
    rw [hbuckets, State.operate] at hbucket
    by_cases hkey : key = o.key
    · subst hkey
      obtain rfl : _ = ab := by simpa using hbucket
      simpa using hown
    · simp only [Function.update_of_ne hkey] at hbucket
      obtain ⟨hadmitted, hrows⟩ := hothers key hkey (s.windows key)
      simpa [hkey, hadmitted, hrows] using h.counted key ab hbucket
  calls := hbounded

/-- The bucket after an operation other than an admission has as many calls as before it. -/
theorem operate_bucket_calls {cfg : BudgetConfig} {o : Operation} {b : Option ActorBudget}
    (h : (McpBudget.operate cfg o b).2 ≠ .admitted) :
    (McpBudget.operate cfg o b).1.calls = (McpBudget.get b o.clock).calls := by
  obtain ⟨p, query, c⟩ := o
  cases query with
  | reserve perToolCallCap =>
    simp only [McpBudget.operate, reserve] at h ⊢
    split at h <;> [simp [*]; simp at h]
  | noteSite siteID => rfl
  | charge rows => rfl

/-- Only a charge adds to the rows. -/
theorem get_rows_le (cfg : BudgetConfig) (o : Operation) (b : Option ActorBudget) :
    (McpBudget.get b o.clock).rows ≤ (McpBudget.operate cfg o b).1.rows := by
  obtain ⟨p, query, c⟩ := o
  cases query with
  | reserve perToolCallCap =>
    simp only [McpBudget.operate, reserve]
    split <;> exact le_rfl
  | noteSite siteID => exact le_rfl
  | charge rows => exact Nat.le_add_right _ _

theorem CallsBounded.congr (h : CallsBounded cfg s)
    (hsame : ∀ key window, admittedIn t key window = admittedIn s key window) :
    CallsBounded cfg t := by
  intro p window hcap
  rw [hsame]
  exact h p window hcap

/-- An operation that admits no call. -/
theorem Inv.operate_quiet (h : Inv cfg s) {o : Operation}
    (hanswer : (McpBudget.operate cfg o (s.buckets o.key)).2 ≠ .admitted) :
    Inv cfg (s.operate cfg o) := by
  have hcounts := counts_congr (operate_calls cfg s o)
  obtain ⟨hadmitted, hrows⟩ := h.counted_get o.key o.clock
  refine h.operate rfl rfl (fun call hcall => .inl ⟨call, hcall, rfl, rfl⟩)
    (fun key _ window => ⟨(hcounts key window).1, (hcounts key window).2.2⟩) ?_
    (h.calls.congr fun key window => (hcounts key window).1)
  rw [(hcounts _ _).1, (hcounts _ _).2.2, operate_bucket_calls hanswer]
  exact ⟨hadmitted, hrows.trans (get_rows_le cfg o _)⟩

/-- The cap of a window binds every tool. -/
theorem calls_lt_of_admits {p : Principal} {perToolCallCap : ℤ} {c : Clock}
    (hadmits : admits cfg s ⟨p, .reserve perToolCallCap, c⟩ = true)
    (hcap : 0 < windowCallCap cfg p) :
    ((McpBudget.get (s.buckets p.key) c).calls : ℤ) < windowCallCap cfg p := by
  have hnot : ¬ exhausted cfg (isWildcardActor p.actor) perToolCallCap
      (McpBudget.get (s.buckets p.key) c) = true := by
    intro hexhausted
    simp [admits, McpBudget.operate, reserve, Operation.key, hexhausted] at hadmits
  have hcalls : ¬ reached (callCap cfg (isWildcardActor p.actor) perToolCallCap)
      (McpBudget.get (s.buckets p.key) c).calls = true := by
    intro hreached
    simp [exhausted, hreached] at hnot
  have hle : 0 < callCap cfg (isWildcardActor p.actor) perToolCallCap ∧
      callCap cfg (isWildcardActor p.actor) perToolCallCap ≤ windowCallCap cfg p := by
    simp only [windowCallCap] at hcap ⊢
    simp only [callCap, Bool.and_eq_true, Bool.or_eq_true, decide_eq_true_eq]
    split_ifs <;> omega
  simp only [reached, Bool.and_eq_true, decide_eq_true_eq, not_and, not_le] at hcalls
  exact (hcalls hle.1).trans_le hle.2

private theorem rows_lt_of_admits {p : Principal} {perToolCallCap : ℤ} {c : Clock}
    (hadmits : admits cfg s ⟨p, .reserve perToolCallCap, c⟩ = true)
    (hcap : 0 < windowRowCap cfg p) :
    ((McpBudget.get (s.buckets p.key) c).rows : ℤ) < windowRowCap cfg p := by
  have hnot : ¬ exhausted cfg (isWildcardActor p.actor) perToolCallCap
      (McpBudget.get (s.buckets p.key) c) = true := by
    intro hexhausted
    simp [admits, McpBudget.operate, reserve, Operation.key, hexhausted] at hadmits
  by_contra hrows
  exact hnot (by simp [exhausted, reached, windowRowCap] at hcap hrows ⊢; tauto)

private theorem admitted_calls {p : Principal} {perToolCallCap : ℤ} {c : Clock}
    (hadmits : admits cfg s ⟨p, .reserve perToolCallCap, c⟩ = true) :
    (McpBudget.operate cfg ⟨p, .reserve perToolCallCap, c⟩ (s.buckets p.key)).1.calls =
      (McpBudget.get (s.buckets p.key) c).calls + 1 := by
  simp only [admits, McpBudget.operate, reserve, Operation.key] at hadmits ⊢
  split at hadmits <;> simp_all

/-- The state after an admission. -/
def State.reserved (cfg : BudgetConfig) (s : State) (p : Principal) (perToolCallCap : ℤ)
    (c : Clock) : State :=
  let next := s.operate cfg ⟨p, .reserve perToolCallCap, c⟩
  { next with calls := next.calls ++ [⟨p, nextWindow s p.key c, .running⟩] }

theorem step_call (cfg : BudgetConfig) (s : State) (p : Principal) (perToolCallCap : ℤ)
    (c : Clock) : step cfg s (.call p perToolCallCap c) =
      if admits cfg s ⟨p, .reserve perToolCallCap, c⟩ then
        some (s.reserved cfg p perToolCallCap c)
      else some (s.operate cfg ⟨p, .reserve perToolCallCap, c⟩) := by
  have hwindow : (s.operate cfg ⟨p, .reserve perToolCallCap, c⟩).windows p.key =
      nextWindow s p.key c := by
    rw [operate_windows]
    exact if_pos rfl
  simp only [step, State.reserved, hwindow]

theorem windowCaps_of_key (cfg : BudgetConfig) {p q : Principal} (h : p.key = q.key) :
    windowCallCap cfg p = windowCallCap cfg q ∧ windowRowCap cfg p = windowRowCap cfg q := by
  simp only [windowCallCap, windowRowCap, isWildcardActor_of_key h, and_self]

theorem Inv.reserved (h : Inv cfg s) {p : Principal} {perToolCallCap : ℤ} {c : Clock}
    (hadmits : admits cfg s ⟨p, .reserve perToolCallCap, c⟩ = true) :
    Inv cfg (s.reserved cfg p perToolCallCap c) := by
  set o : Operation := ⟨p, .reserve perToolCallCap, c⟩
  set call : Call := ⟨p, nextWindow s p.key c, .running⟩
  have hadmitted (key : String) (window : ℕ) :
      admittedIn (s.reserved cfg p perToolCallCap c) key window =
        admittedIn s key window + (call.within key window).toNat :=
    admittedIn_snoc (s.operate cfg o) call key window
  have hrows (key : String) (window : ℕ) :
      rowsIn (s.reserved cfg p perToolCallCap c) key window = rowsIn s key window := by
    have hsnoc := rowsIn_snoc (s.operate cfg o) call key window
    have hnone : call.rows = 0 := rfl
    rw [hnone, ite_self, Nat.add_zero] at hsnoc
    exact hsnoc
  obtain ⟨hcalls, hcharged⟩ := h.counted_get p.key c
  refine h.operate (o := o) rfl rfl (fun call' hcall' => ?_) (fun key hkey window => ?_)
    ⟨?_, ?_⟩ (fun q window hcap => ?_)
  · rcases List.mem_append.mp hcall' with hcall' | hcall'
    · exact .inl ⟨call', hcall', rfl, rfl⟩
    · exact .inr (List.mem_singleton.mp hcall' ▸ ⟨rfl, rfl⟩)
  · have hnot : call.within key window = false := by
      by_contra hwithin
      exact hkey (within_iff.mp (by simpa using hwithin)).1.symm
    rw [hadmitted, hrows, hnot]
    exact ⟨rfl, rfl⟩
  · have hwithin : call.within o.key (nextWindow s o.key o.clock) = true :=
      within_iff.mpr ⟨rfl, rfl⟩
    rw [hadmitted, hwithin]
    exact (congrArg (· + 1) hcalls).trans (admitted_calls hadmits).symm
  · rw [hrows]
    exact hcharged.trans (get_rows_le cfg o _)
  · rw [hadmitted]
    by_cases hwithin : call.within q.key window = true
    · obtain ⟨hkey, rfl⟩ := within_iff.mp hwithin
      have hkey : p.key = q.key := hkey
      have hcaps := (windowCaps_of_key cfg hkey).1
      have hlt := calls_lt_of_admits hadmits (hcaps ▸ hcap)
      rw [hwithin, ← hkey, ← hcaps]
      have hcount : admittedIn s p.key call.window = _ := hcalls
      rw [hcount]
      push_cast
      simp only [Bool.toNat_true]
      omega
    · have hnot : call.within q.key window = false := by simpa using hwithin
      simpa [hnot] using h.calls q window hcap

/-- A call that ends is charged for what it returns. -/
theorem Inv.ended (h : Inv cfg s) {i : ℕ} {call : Call} (hcall : runningCall s i = some call)
    {progress : Progress} {o : Operation} (ho : o.principal = call.principal)
    (hquery : o.query = .charge (Call.rows { call with progress := progress })) :
    Inv cfg ((s.operate cfg o).setProgress i call progress) := by
  have hrunning : runningCall (s.operate cfg o) i = some call := hcall
  have hkey : o.key = call.key := congrArg Principal.key ho
  have hadmitted (key : String) (window : ℕ) :
      admittedIn ((s.operate cfg o).setProgress i call progress) key window =
        admittedIn s key window := admittedIn_setProgress hrunning progress key window
  have hrows (key : String) (window : ℕ) :
      rowsIn ((s.operate cfg o).setProgress i call progress) key window = rowsIn s key window +
        if call.within key window then Call.rows { call with progress := progress } else 0 :=
    rowsIn_setProgress hrunning progress key window
  obtain ⟨hcalls, hcharged⟩ := h.counted_get o.key o.clock
  refine h.operate rfl rfl (fun call' hcall' => .inl ?_) (fun key hother window => ?_) ⟨?_, ?_⟩
    (h.calls.congr hadmitted)
  · rcases List.mem_or_eq_of_mem_set hcall' with hcall' | rfl
    · exact ⟨call', hcall', rfl, rfl⟩
    · exact ⟨call, List.mem_of_getElem? (runningCall_some hcall).1, rfl, rfl⟩
  · have hnot : call.within key window = false := by
      by_contra hwithin
      exact hother ((within_iff.mp (by simpa using hwithin)).1.symm.trans hkey.symm)
    simp [hadmitted, hrows, hnot]
  · rw [hadmitted, hcalls]
    obtain ⟨p, query, c⟩ := o
    obtain rfl := hquery
    rfl
  · have hbucket : (McpBudget.operate cfg o (s.buckets o.key)).1.rows =
        (McpBudget.get (s.buckets o.key) o.clock).rows +
          Call.rows { call with progress := progress } := by
      obtain ⟨p, query, c⟩ := o
      obtain rfl := hquery
      rfl
    rw [hrows, hbucket]
    split <;> omega

theorem Inv.failed (h : Inv cfg s) {i : ℕ} {call : Call} (hcall : runningCall s i = some call) :
    Inv cfg (s.setProgress i call .failed) where
  begun call' hcall' := by
    rcases List.mem_or_eq_of_mem_set hcall' with hcall' | rfl
    · exact h.begun call' hcall'
    · exact h.begun call (List.mem_of_getElem? (runningCall_some hcall).1)
  unopened key hbucket call' hcall' := by
    rcases List.mem_or_eq_of_mem_set hcall' with hcall' | rfl
    · exact h.unopened key hbucket call' hcall'
    · exact h.unopened key hbucket call (List.mem_of_getElem? (runningCall_some hcall).1)
  counted key ab hbucket := by
    have hrows := rowsIn_setProgress hcall .failed key (s.windows key)
    have hnone : Call.rows { call with progress := .failed } = 0 := rfl
    rw [hnone, ite_self, Nat.add_zero] at hrows
    have hwindows : (s.setProgress i call .failed).windows = s.windows := rfl
    rw [hwindows, admittedIn_setProgress hcall, hrows]
    exact h.counted key ab hbucket
  calls := h.calls.congr fun key window => admittedIn_setProgress hcall .failed key window

theorem inv_step {a : Action} (h : Inv cfg s) (hstep : step cfg s a = some t) : Inv cfg t := by
  cases a with
  | call p perToolCallCap c =>
    rw [step_call] at hstep
    split_ifs at hstep with hadmits
    · obtain rfl := Option.some.inj hstep
      exact h.reserved hadmits
    · obtain rfl := Option.some.inj hstep
      exact h.operate_quiet (by simpa [admits] using hadmits)
  | noteSite i siteID c =>
    obtain ⟨call, -, rfl⟩ := Option.map_eq_some_iff.mp hstep
    exact h.operate_quiet (by simp [McpBudget.operate, McpBudget.noteSite])
  | finish i rows c =>
    obtain ⟨call, hcall, rfl⟩ := Option.map_eq_some_iff.mp hstep
    exact h.ended hcall rfl rfl
  | fail i =>
    obtain ⟨call, hcall, rfl⟩ := Option.map_eq_some_iff.mp hstep
    exact h.failed hcall

theorem Settled.congr {cap : ℤ} (h : Settled cap s key window) (hcalls : t.calls = s.calls) :
    Settled cap t key window := by
  obtain ⟨-, hrunning, hrows⟩ := counts_congr hcalls key window
  rw [Settled, hrunning, hrows, hcalls]
  exact h

/-- A window in which nothing runs, and whose rows leave room, takes one more call. -/
theorem Settled.reserved {p : Principal} {perToolCallCap : ℤ} {c : Clock} {cap : ℤ}
    (h : Settled cap s key window)
    (hroom : (Call.mk p (nextWindow s p.key c) .running).within key window = true →
      (rowsIn s key window : ℤ) < cap ∧ runningIn s key window = 0) :
    Settled cap (s.reserved cfg p perToolCallCap c) key window := by
  set call : Call := ⟨p, nextWindow s p.key c, .running⟩
  have hrunning : runningIn (s.reserved cfg p perToolCallCap c) key window =
      runningIn s key window + (call.within key window && call.running).toNat :=
    runningIn_snoc (s.operate cfg ⟨p, .reserve perToolCallCap, c⟩) call key window
  have hrows : rowsIn (s.reserved cfg p perToolCallCap c) key window = rowsIn s key window := by
    have hsnoc := rowsIn_snoc (s.operate cfg ⟨p, .reserve perToolCallCap, c⟩) call key window
    have hnone : call.rows = 0 := rfl
    rw [hnone, ite_self, Nat.add_zero] at hsnoc
    exact hsnoc
  rw [Settled, hrunning, hrows]
  by_cases hwithin : call.within key window = true
  · obtain ⟨hlt, hnone⟩ := hroom hwithin
    refine .inl ⟨hlt, ?_⟩
    rw [hnone, Nat.zero_add]
    exact Bool.toNat_le _
  · have hnot : call.within key window = false := by simpa using hwithin
    simp only [hnot, Bool.false_and, Bool.toNat_false, Nat.add_zero]
    exact h.imp_right fun ⟨hnone, call', hcall', hbound⟩ =>
      ⟨hnone, call', List.mem_append_left _ hcall', hbound⟩

/-- The call that ends is the only one of its window that was running. -/
theorem Settled.ended {cap : ℤ} {i : ℕ} {call : Call} {progress : Progress}
    (h : Settled cap s key window) (hcall : runningCall s i = some call)
    (hended : progress ≠ .running) : Settled cap (s.setProgress i call progress) key window := by
  have hrunning := runningIn_setProgress hcall hended key window
  have hrows := rowsIn_setProgress hcall progress key window
  obtain ⟨hget, hruns⟩ := runningCall_some hcall
  have hi : i < s.calls.length := (List.getElem?_eq_some_iff.mp hget).1
  by_cases hwithin : call.within key window = true
  · have hwithin' : Call.within key window { call with progress := progress } = true := hwithin
    rw [hwithin, Bool.toNat_true] at hrunning
    rw [hwithin, if_pos rfl] at hrows
    rcases h with ⟨hlt, hone⟩ | ⟨hnone, -⟩
    · refine .inr ⟨by omega, _, List.mem_set hi _, hwithin', ?_⟩
      rw [hrows]
      push_cast
      omega
    · omega
  · have hnot : call.within key window = false := by simpa using hwithin
    rw [hnot, Bool.toNat_false, Nat.add_zero] at hrunning
    rw [hnot, if_neg (by simp), Nat.add_zero] at hrows
    rw [Settled, hrunning, hrows]
    refine h.imp_right fun ⟨hnone, call', hcall', hin, hbound⟩ => ⟨hnone, call', ?_, hin, hbound⟩
    -- The call within the window is another one.
    obtain ⟨j, hj⟩ := List.mem_iff_getElem?.mp hcall'
    have hne : i ≠ j := by
      rintro rfl
      obtain rfl := Option.some.inj (hget.symm.trans hj)
      simp [hnot] at hin
    exact List.mem_of_getElem? ((List.getElem?_set_ne hne).trans hj)

private theorem settled_step {a : Action} (h : Inv cfg s) (hrows : RowsSettled cfg s)
    (halone : Alone cfg s a) (hstep : step cfg s a = some t) : RowsSettled cfg t := by
  intro q window hcap
  have hsettled := hrows q window hcap
  cases a with
  | call p perToolCallCap c =>
    rw [step_call] at hstep
    split_ifs at hstep with hadmits
    · obtain rfl := Option.some.inj hstep
      refine hsettled.reserved fun hwithin => ?_
      obtain ⟨hkey, rfl⟩ := within_iff.mp hwithin
      have hkey : p.key = q.key := hkey
      have hcaps := (windowCaps_of_key cfg hkey).2
      have hlt := rows_lt_of_admits hadmits (hcaps ▸ hcap)
      obtain ⟨-, hcharged⟩ := h.counted_get p.key c
      rw [← hkey, ← hcaps]
      refine ⟨lt_of_le_of_lt (by exact_mod_cast hcharged) hlt, ?_⟩
      by_cases hbegins : begins (s.buckets p.key) c = true
      · exact (admittedIn_eq_zero fun call hcall => h.nextWindow_empty hbegins hcall).2.1
      · have hnot : begins (s.buckets p.key) c = false := by simpa using hbegins
        simpa [nextWindow, hnot] using halone (hcaps ▸ hcap) hadmits hnot
    · obtain rfl := Option.some.inj hstep
      exact hsettled.congr rfl
  | noteSite i siteID c =>
    obtain ⟨call, -, rfl⟩ := Option.map_eq_some_iff.mp hstep
    exact hsettled.congr rfl
  | finish i rows c =>
    obtain ⟨call, hcall, rfl⟩ := Option.map_eq_some_iff.mp hstep
    have hcall' : runningCall (s.operate cfg ⟨call.principal, .charge rows, c⟩) i = some call :=
      hcall
    exact Settled.ended (hsettled.congr rfl) hcall' (by simp)
  | fail i =>
    obtain ⟨call, hcall, rfl⟩ := Option.map_eq_some_iff.mp hstep
    exact hsettled.ended hcall (by simp)

theorem inv_init (cfg : BudgetConfig) : Inv cfg {} where
  begun call hcall := by simp at hcall
  unopened key _ call hcall := by simp at hcall
  counted key ab hbucket := by simp at hbucket
  calls p window hcap := by simpa [admittedIn] using hcap.le

private theorem settled_init (cfg : BudgetConfig) : RowsSettled cfg {} :=
  fun _ _ hcap => .inl ⟨by simpa [rowsIn] using hcap, by simp [runningIn]⟩

/-- No window admits more calls than the cap. Where no call is admitted beside a running one of
its window, the rows of a window exceed the budget by those of one call at most. -/
theorem budget_bounds (cfg : BudgetConfig) (as : List Action) :
    Throughout (step cfg) (CallsBounded cfg) {} as ∧
      (Along (step cfg) (Alone cfg) {} as → Throughout (step cfg) (RowsBounded cfg) {} as) := by
  constructor
  · have hrun {s : State} (hs : Inv cfg s) : Throughout (step cfg) (Inv cfg) s as := by
      induction as generalizing s with
      | nil => exact hs
      | cons a as ih => exact ⟨hs, fun t ht => ih (inv_step hs ht)⟩
    exact (hrun (inv_init cfg)).mono fun s hs => hs.calls
  · intro halone
    have hrun : Throughout (step cfg) (fun s => Inv cfg s ∧ RowsSettled cfg s) {} as :=
      throughout_of_along (fun s a t hs ha hstep =>
        ⟨inv_step hs.1 hstep, settled_step hs.1 hs.2 ha hstep⟩) halone
        ⟨inv_init cfg, settled_init cfg⟩
    exact hrun.mono fun s hs => hs.2.bounded

def oneRow : BudgetConfig where
  rowsPerMin := 1

def laptop : Principal := token 1 "laptop"

/-- The second call comes when the first is charged, and is refused. -/
def oneAfterTheOther : List Action :=
  [.call laptop 0 still, .finish 0 10 still, .call laptop 0 still]

theorem budget_bounds_oneAfterTheOther :
    Throughout (step oneRow) (RowsBounded oneRow) {} oneAfterTheOther :=
  (budget_bounds oneRow oneAfterTheOther).2 (by decide +kernel)

/-- The second call comes while the first is still running. -/
def bothAtOnce : List Action :=
  [.call laptop 0 still, .call laptop 0 still, .finish 0 10 still, .finish 1 10 still]

/-- Twenty rows are returned on a budget of one row, by calls of ten rows each. -/
theorem rows_overshoot : ¬ Throughout (step oneRow) (RowsBounded oneRow) {} bothAtOnce := by
  intro h
  have hrows : (exec (step oneRow) {} bothAtOnce).map (fun s =>
      (rowsIn s laptop.key 1, s.calls.map Call.rows)) = some (20, [10, 10]) := by decide +kernel
  obtain ⟨s, hexec, hs⟩ := Option.map_eq_some_iff.mp hrows
  obtain ⟨htotal, hcalls⟩ := Prod.mk.inj hs
  have hcap : windowRowCap oneRow laptop = 1 := by decide
  rcases h.final hexec laptop 1 (by rw [hcap]; decide) with hbound | ⟨call, hcall, -, hbound⟩
  · rw [htotal, hcap] at hbound
    omega
  · have hten : call.rows = 10 := by
      have hmem : call.rows ∈ s.calls.map Call.rows := List.mem_map_of_mem hcall
      simpa [hcalls] using hmem
    rw [htotal, hcap, hten] at hbound
    omega

end Statnive.BudgetWindows
