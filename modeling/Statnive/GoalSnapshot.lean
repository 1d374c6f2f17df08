import Mathlib.Data.List.Sort
import Statnive.GoalsHandlers
import Statnive.LabelledRuns
import Statnive.ListAccounting

/-!
# The snapshot of goals

Ingest matches events against a map of the enabled goals. A reload reads the goals, builds the
map and swaps it in; it follows each write of a goal, and a SIGHUP. The statements of a write,
the read and the swap are steps of their own, with those of other calls between them. Alone the
writes are those of `GoalsHandlers`: `createGoal_alone`, `updateGoal_alone`, `disableGoal_alone`.
-/

namespace Statnive.GoalSnapshot

open GoalsHandlers LabelledRuns ListAccounting

abbrev GoalMap := ℕ → List Goal

/-- `ORDER BY site_id, goal_id`. -/
def rowBefore (a b : Goal) : Prop := a.siteID < b.siteID ∨ (a.siteID = b.siteID ∧ a.goalID ≤ b.goalID)

instance : DecidableRel rowBefore := fun a b => by unfold rowBefore; infer_instance

def listActive (goals : List Goal) : List Goal :=
  (goals.filter (fun g => decide (0 < g.siteID) && g.enabled)).insertionSort rowBefore

def bySite (active : List Goal) : GoalMap :=
  active.foldl (fun m g => Function.update m g.siteID (m g.siteID ++ [g])) (fun _ => [])

/-- `Snapshot.Match` over the map, which is nil before the first reload. -/
def matchGoal (m : Option GoalMap) (siteID : ℕ) (eventName : String) : Option Goal :=
  match m with
  | none => none
  | some m => (m siteID).find? (fun g => g.matchType = .eventNameEquals && g.pattern = eventName)

/-- The reloads on SIGHUP are calls that write nothing. -/
inductive Write where
  | create (siteID : ℕ) (body : Option GoalRequest)
  | update (siteID : ℕ) (goalID : Option ℕ) (body : Option GoalRequest)
  | disable (siteID : ℕ) (goalID : Option ℕ)
  | reload

/-- A goal is `loaded` by the first read of `Disable`, and `checked` once it can be inserted. -/
inductive Progress where
  | start
  | loaded (g : Goal)
  | checked (g : Goal)
  | written (status : ℕ)
  | listed (status : ℕ) (active : List Goal)
  | returned (status : ℕ)
  deriving DecidableEq

structure Call where
  write : Write
  progress : Progress := .start

structure State where
  goals : List Goal
  snapshot : Option GoalMap
  calls : List Call

inductive Action where
  | query (c : ℕ) (env : GoalEnv)
  | insert (c : ℕ) (env : GoalEnv)
  | list (c : ℕ) (fails : Bool)
  | swap (c : ℕ)

def disableStatus : GoalError → ℕ
  | .notFound => 404
  | _ => 500

def Write.success : Write → ℕ
  | .create _ _ => 201
  | .update _ _ _ | .reload => 200
  | .disable _ _ => 204

/-- `Update` up to its insert. -/
def prepare (env : GoalEnv) (goals : List Goal) (g : Goal) : Except GoalError Goal :=
  match validate g with
  | .error err => .error err
  | .ok g => match get env goals g.siteID g.goalID with
    | .error err => .error err
    | .ok existing => .ok { g with createdAt := existing.createdAt }

def Progress.ofCheck (status : GoalError → ℕ) : Except GoalError Goal → Progress
  | .error err => .returned (status err)
  | .ok g => .checked g

/-- What a call makes of its next read, or of its body alone. -/
def Call.query (env : GoalEnv) (goals : List Goal) (call : Call) : Option Progress :=
  match call.write, call.progress with
  | .create siteID (some req), .start => some (.ofCheck errorStatus (validate (req.goal siteID 0)))
  | .update siteID (some goalID) (some req), .start =>
    some (.ofCheck errorStatus (prepare env goals (req.goal siteID goalID)))
  | .disable siteID (some goalID), .start => match get env goals siteID goalID with
    | .error err => some (.returned (disableStatus err))
    | .ok g => some (.loaded { g with enabled := false })
  | .disable _ _, .loaded g => some (.ofCheck disableStatus (prepare env goals g))
  | .reload, .start => some (.written 200)
  | _, .start => some (.returned 400)
  | _, _ => none

/-- The row to insert, with its stamps. -/
def Write.row (env : GoalEnv) (g : Goal) : Write → Goal
  | .create _ _ => { g with goalID := env.newID, createdAt := env.now, updatedAt := env.now }
  | _ => { g with updatedAt := env.now }

def State.setProgress (s : State) (c : ℕ) (p : Progress) : State :=
  { s with calls := s.calls.modify c (fun call => { call with progress := p }) }

def step (s : State) : Action → Option State
  | .query c env => match s.calls[c]? with
    | some call => (call.query env s.goals).map (s.setProgress c)
    | none => none
  | .insert c env => match s.calls[c]? with
    | some ⟨write, .checked g⟩ =>
      if env.fails .write then some (s.setProgress c (.returned 500))
      else some { s.setProgress c (.written write.success) with
        goals := insertGoal s.goals (write.row env g) }
    | _ => none
  | .list c fails => match s.calls[c]? with
    | some ⟨_, .written status⟩ =>
      -- the map stays as it was, and the request is answered as it would have been
      if fails then some (s.setProgress c (.returned status))
      else some (s.setProgress c (.listed status (listActive s.goals)))
    | _ => none
  | .swap c => match s.calls[c]? with
    | some ⟨_, .listed status active⟩ =>
      some { s.setProgress c (.returned status) with snapshot := some (bySite active) }
    | _ => none

/-- Goals with a site, and a snapshot that holds the enabled ones; no call has begun. -/
structure Starts (s : State) : Prop where
  sites : ∀ g ∈ s.goals, g.siteID ≠ 0
  loaded : s.snapshot = some (bySite (listActive s.goals))
  idle : ∀ call ∈ s.calls, call.progress = .start

def Progress.isReturned : Progress → Bool
  | .returned _ => true
  | _ => false

def Returned (s : State) : Prop := ∀ call ∈ s.calls, call.progress.isReturned = true

instance (s : State) : Decidable (Returned s) := inferInstanceAs (Decidable (∀ _ ∈ _, _))

/-- What ingest matches against are the enabled goals, each under its site. -/
def Converged (s : State) : Prop :=
  ∃ m, s.snapshot = some m ∧
    ∀ siteID g, g ∈ m siteID ↔ g ∈ s.goals ∧ g.enabled = true ∧ g.siteID = siteID

def Action.reloadFails : Action → Bool
  | .list _ fails => fails
  | _ => false

def Action.isSwap : Action → Bool
  | .swap _ => true
  | _ => false

/-- The same goals are enabled. -/
def SameEnabled (s t : State) : Prop :=
  ∀ g, g.enabled = true → (g ∈ s.goals ↔ g ∈ t.goals)

/-- The reload that swaps last reads `pre` actions into the run, and swaps `mid` actions later. -/
def SwapsLast (es pre mid : List Action) (c : ℕ) : Prop :=
  ∃ post, es = pre ++ .list c false :: (mid ++ .swap c :: post) ∧ ∀ a ∈ post, a.isSwap = false

/-- From the read to the swap of the reload that swaps last, if one does, the writes leave the
enabled goals as they were. -/
def LastReloadUndisturbed (s : State) (es : List Action) : Prop :=
  ∀ pre mid c u v, SwapsLast es pre mid c → exec step s pre = some u →
    exec step u (.list c false :: mid) = some v → SameEnabled u v

private theorem bySite_fold (active : List Goal) (m : GoalMap) (siteID : ℕ) :
    active.foldl (fun m g => Function.update m g.siteID (m g.siteID ++ [g])) m siteID =
      m siteID ++ active.filter (fun g => g.siteID = siteID) := by
  induction active generalizing m with
  | nil => simp
  | cons g active ih =>
    rw [List.foldl_cons, ih]
    by_cases h : g.siteID = siteID
    · subst h
      simp
    · simp [Function.update_of_ne (Ne.symm h), h]

/-- The goals of a site, in the order in which they were read. -/
theorem bySite_apply (active : List Goal) (siteID : ℕ) :
    bySite active siteID = active.filter (fun g => g.siteID = siteID) := by
  rw [bySite, bySite_fold, List.nil_append]

theorem mem_listActive {goals : List Goal} {g : Goal} :
    g ∈ listActive goals ↔ g ∈ goals ∧ g.siteID ≠ 0 ∧ g.enabled = true := by
  simp [listActive, List.mem_insertionSort, Nat.pos_iff_ne_zero]

/-- A call that has written, or reads for a reload, still has to swap. -/
def Progress.owes : Progress → Bool
  | .written _ | .listed _ _ => true
  | _ => false

inductive Effect (s : State) : Action → State → Prop
  | move {a : Action} {c : ℕ} {call : Call} {p : Progress} (hcall : s.calls[c]? = some call)
      (howes : call.progress.owes = true → a.reloadFails = false → p.owes = true)
      (hsite : ∀ g, p = .checked g → g.siteID ≠ 0) (ha : a.isSwap = false) :
      Effect s a (s.setProgress c p)
  | insert {c : ℕ} {env : GoalEnv} {write : Write} {g : Goal}
      (hcall : s.calls[c]? = some ⟨write, .checked g⟩) :
      Effect s (.insert c env) { s.setProgress c (.written write.success) with
        goals := insertGoal s.goals (write.row env g) }
  | swap {c : ℕ} {write : Write} {status : ℕ} {active : List Goal}
      (hcall : s.calls[c]? = some ⟨write, .listed status active⟩) :
      Effect s (.swap c)
        { s.setProgress c (.returned status) with snapshot := some (bySite active) }

private theorem row_siteID (env : GoalEnv) (g : Goal) (write : Write) :
    (write.row env g).siteID = g.siteID := by
  cases write <;> rfl

private theorem prepare_ok {env : GoalEnv} {goals : List Goal} {g g' : Goal}
    (h : prepare env goals g = .ok g') : g'.siteID = g.siteID ∧ g.siteID ≠ 0 := by
  simp only [prepare] at h
  cases hval : validate g with
  | error err => simp [hval] at h
  | ok valid =>
    obtain ⟨hsite, rfl⟩ := validate_ok hval
    cases hget : get env goals g.trimmed.siteID g.trimmed.goalID with
    | error err => simp [hval, hget] at h
    | ok existing =>
      simp only [hval, hget, Except.ok.injEq] at h
      subst h
      exact ⟨rfl, hsite⟩

theorem ofCheck_checked {status : GoalError → ℕ} {r : Except GoalError Goal} {g : Goal}
    (h : Progress.ofCheck status r = .checked g) : r = .ok g := by
  cases r with
  | error err => simp [Progress.ofCheck] at h
  | ok g' => exact congrArg _ (Progress.checked.inj h)

/-- A call that asks has nothing to swap yet, and what it may insert has a site. -/
theorem query_some {env : GoalEnv} {goals : List Goal} {call : Call} {p : Progress}
    (h : call.query env goals = some p) :
    call.progress.owes = false ∧ ∀ g, p = .checked g → g.siteID ≠ 0 := by
  have hvalidate {g g' : Goal} (h : validate g = .ok g') : g'.siteID ≠ 0 := by
    obtain ⟨hsite, rfl⟩ := validate_ok h
    exact hsite
  have hprepare {g g' : Goal} (h : prepare env goals g = .ok g') : g'.siteID ≠ 0 := by
    obtain ⟨hsame, hsite⟩ := prepare_ok h
    exact hsame ▸ hsite
  obtain ⟨write, progress⟩ := call
  simp only [Call.query] at h
  split at h
  · obtain rfl := Option.some.inj h
    exact ⟨rfl, fun g hg => hvalidate (ofCheck_checked hg)⟩
  · obtain rfl := Option.some.inj h
    exact ⟨rfl, fun g hg => hprepare (ofCheck_checked hg)⟩
  · split at h <;> obtain rfl := Option.some.inj h <;> exact ⟨rfl, by simp⟩
  · obtain rfl := Option.some.inj h
    exact ⟨rfl, fun g hg => hprepare (ofCheck_checked hg)⟩
  · obtain rfl := Option.some.inj h
    exact ⟨rfl, by simp⟩
  · obtain rfl := Option.some.inj h
    exact ⟨rfl, by simp⟩
  · cases h

theorem step_effect {s t : State} {a : Action} (h : step s a = some t) : Effect s a t := by
  cases a with
  | query c env =>
    simp only [step] at h
    split at h
    · next call hcall =>
      obtain ⟨p, hp, rfl⟩ := Option.map_eq_some_iff.mp h
      obtain ⟨howes, hsite⟩ := query_some hp
      exact .move hcall (by simp [howes]) hsite rfl
    · cases h
  | insert c env =>
    simp only [step] at h
    split at h
    · next write g hcall =>
      split at h
      · obtain rfl := Option.some.inj h
        exact .move hcall (by simp [Progress.owes]) (by simp) rfl
      · obtain rfl := Option.some.inj h
        exact .insert hcall
    · cases h
  | list c fails =>
    simp only [step] at h
    split at h
    · next write status hcall =>
      split at h
      · next hfails =>
        obtain rfl := Option.some.inj h
        exact .move hcall (by simp [Action.reloadFails, hfails]) (by simp) rfl
      · obtain rfl := Option.some.inj h
        exact .move hcall (by simp [Progress.owes]) (by simp) rfl
    · cases h
  | swap c =>
    simp only [step] at h
    split at h
    · obtain rfl := Option.some.inj h
      exact .swap ‹_›
    · cases h

structure Inv (s : State) : Prop where
  sites : ∀ g ∈ s.goals, g.siteID ≠ 0
  checked : ∀ (c : ℕ) (write : Write) (g : Goal),
    s.calls[c]? = some ⟨write, .checked g⟩ → g.siteID ≠ 0

theorem inv_of_starts {s : State} (h : Starts s) : Inv s := by
  refine ⟨h.sites, fun c write g hcall => ?_⟩
  simpa using h.idle _ (List.mem_of_getElem? hcall)

theorem calls_setProgress {s : State} {c d : ℕ} {p : Progress} {call' : Call}
    (h : (s.setProgress c p).calls[d]? = some call') :
    ∃ call, s.calls[d]? = some call ∧ call'.progress = if c = d then p else call.progress := by
  obtain ⟨call, hcall, rfl⟩ := getElem?_modify_eq_some h
  refine ⟨call, hcall, ?_⟩
  split_ifs <;> rfl

theorem checked_setProgress {s : State} {c : ℕ} {p : Progress} (hs : Inv s)
    (hp : ∀ g, p = .checked g → g.siteID ≠ 0) (d : ℕ) (write : Write) (g : Goal)
    (h : (s.setProgress c p).calls[d]? = some ⟨write, .checked g⟩) : g.siteID ≠ 0 := by
  obtain ⟨⟨write', progress⟩, hcall, hprogress⟩ := calls_setProgress h
  split_ifs at hprogress
  · exact hp g hprogress.symm
  · obtain rfl : progress = .checked g := hprogress.symm
    exact hs.checked d write' g hcall

theorem inv_step {s t : State} {a : Action} (hs : Inv s) (h : step s a = some t) : Inv t := by
  cases step_effect h with
  | move _ _ hsite _ => exact ⟨hs.sites, checked_setProgress hs hsite⟩
  | @insert c env write g hcall =>
    refine ⟨fun r hr => ?_, checked_setProgress hs (by simp)⟩
    rcases ReplacingTable.mem_insert hr with rfl | hold
    · rw [row_siteID]
      exact hs.checked c write g hcall
    · exact hs.sites r hold
  | swap _ => exact ⟨hs.sites, checked_setProgress hs (by simp)⟩

/-- Some call has not swapped yet. -/
def Owes (s : State) : Prop := ∃ (c : ℕ) (call : Call), s.calls[c]? = some call ∧
  call.progress.owes = true

private theorem not_owes_of_returned {s : State} (h : Returned s) : ¬ Owes s := by
  rintro ⟨c, ⟨write, progress⟩, hcall, howes⟩
  have hreturned := h _ (List.mem_of_getElem? hcall)
  cases progress with
  | returned status => simp [Progress.owes] at howes
  | _ => simp [Progress.isReturned] at hreturned

theorem owes_setProgress {s : State} {c : ℕ} {call : Call} {p : Progress}
    (hcall : s.calls[c]? = some call) (hp : p.owes = true) : Owes (s.setProgress c p) := by
  refine ⟨c, { call with progress := p }, ?_, hp⟩
  simp [State.setProgress, hcall]

/-- But for a swap, a step leaves the map alone; what is owed stays owed, and a write owes. -/
theorem step_keeps {s t : State} {a : Action} (h : step s a = some t) (ha : a.isSwap = false)
    (hok : a.reloadFails = false) :
    t.snapshot = s.snapshot ∧ (Owes s → Owes t) ∧ (t.goals = s.goals ∨ Owes t) := by
  cases step_effect h with
  | @move _ c call p hcall howes _ _ =>
    refine ⟨rfl, ?_, .inl rfl⟩
    rintro ⟨d, other, hother, hd⟩
    by_cases hcd : c = d
    · subst hcd
      obtain rfl := Option.some.inj (hcall.symm.trans hother)
      exact owes_setProgress hcall (howes hd hok)
    · exact ⟨d, other, by simpa [State.setProgress, hcd] using hother, hd⟩
  | @insert c env write g hcall =>
    have howes : Owes (s.setProgress c (.written write.success)) := owes_setProgress hcall rfl
    exact ⟨rfl, fun _ => howes, .inr howes⟩
  | swap _ => cases ha

/-- Where nothing is owed at the end of a run without a swap, nothing was written in it. -/
theorem exec_keeps {s t : State} {es : List Action} (h : exec step s es = some t)
    (hswap : ∀ a ∈ es, a.isSwap = false) (hok : ∀ a ∈ es, a.reloadFails = false)
    (ht : ¬ Owes t) : ¬ Owes s ∧ t.goals = s.goals ∧ t.snapshot = s.snapshot := by
  induction es generalizing s with
  | nil =>
    obtain rfl := Option.some.inj h
    exact ⟨ht, rfl, rfl⟩
  | cons a es ih =>
    obtain ⟨u, hu, hrun⟩ := exec_cons.mp h
    obtain ⟨ha, hes⟩ := List.forall_mem_cons.mp hswap
    obtain ⟨hoka, hokes⟩ := List.forall_mem_cons.mp hok
    obtain ⟨hquiet, hgoals, hsnapshot⟩ := ih hrun hes hokes
    obtain ⟨hsame, howes, hwrite⟩ := step_keeps hu ha hoka
    exact ⟨fun hs => hquiet (howes hs), hgoals.trans (hwrite.resolve_right hquiet),
      hsnapshot.trans hsame⟩

/-- A snapshot of a list holds what the list holds. -/
theorem converged_bySite {s : State} {active : List Goal}
    (h : s.snapshot = some (bySite active)) :
    Converged s ↔ ∀ g, g ∈ active ↔ g ∈ s.goals ∧ g.enabled = true := by
  simp only [Converged, h, Option.some.injEq, exists_eq_left', bySite_apply, List.mem_filter,
    decide_eq_true_eq]
  constructor
  · intro hall g
    simpa using hall g.siteID g
  · intro hall siteID g
    rw [hall g, and_assoc]

private theorem converged_of_starts {s : State} (h : Starts s) : Converged s := by
  refine (converged_bySite h.loaded).mpr fun g => ?_
  rw [mem_listActive]
  exact ⟨fun ⟨hg, _, hen⟩ => ⟨hg, hen⟩, fun ⟨hg, hen⟩ => ⟨hg, h.sites g hg, hen⟩⟩

theorem converged_congr {s t : State} (hgoals : t.goals = s.goals)
    (hsnapshot : t.snapshot = s.snapshot) : Converged t ↔ Converged s := by
  rw [Converged, Converged, hgoals, hsnapshot]

theorem setProgress_other {s : State} {c d : ℕ} {p : Progress} (h : c ≠ d) :
    (s.setProgress c p).calls[d]? = s.calls[d]? := by
  simp [State.setProgress, h]

/-- A call that has listed or returned goes on to nothing but its return. -/
def Listed (active : List Goal) (s : State) (c : ℕ) : Prop :=
  ∃ write status, s.calls[c]? = some ⟨write, .listed status active⟩ ∨
    s.calls[c]? = some ⟨write, .returned status⟩

private theorem listed_step {active : List Goal} {c : ℕ} {s t : State} {a : Action}
    (hs : Listed active s c) (h : step s a = some t) : Listed active t c := by
  obtain ⟨write, status, hc⟩ := hs
  have hother {d : ℕ} {p : Progress} (hd : d ≠ c) : Listed active (s.setProgress d p) c :=
    ⟨write, status, by rwa [setProgress_other hd]⟩
  cases a with
  | query d env =>
    by_cases hd : d = c
    · subst hd
      rcases hc with hc | hc <;> cases write <;> simp [step, hc, Call.query] at h
    · simp only [step] at h
      split at h
      · obtain ⟨p, -, rfl⟩ := Option.map_eq_some_iff.mp h
        exact hother hd
      · cases h
  | insert d env =>
    by_cases hd : d = c
    · subst hd
      rcases hc with hc | hc <;> simp [step, hc] at h
    · simp only [step] at h
      split at h
      · split at h <;> obtain rfl := Option.some.inj h <;> exact hother hd
      · cases h
  | list d fails =>
    by_cases hd : d = c
    · subst hd
      rcases hc with hc | hc <;> simp [step, hc] at h
    · simp only [step] at h
      split at h
      · split at h <;> obtain rfl := Option.some.inj h <;> exact hother hd
      · cases h
  | swap d =>
    by_cases hd : d = c
    · subst hd
      rcases hc with hc | hc
      · simp only [step, hc, Option.some.injEq] at h
        exact ⟨write, status, .inr (by simp [← h, State.setProgress, hc])⟩
      · simp [step, hc] at h
    · simp only [step] at h
      split at h
      · obtain rfl := Option.some.inj h
        exact hother hd
      · cases h

/-- What a call has listed, it has read in its last step or had listed before. -/
theorem listed_back {c : ℕ} {s t : State} {a : Action} {write : Write} {status : ℕ}
    {active : List Goal} (h : step s a = some t)
    (hc : t.calls[c]? = some ⟨write, .listed status active⟩) :
    s.calls[c]? = some ⟨write, .listed status active⟩ ∨
      a = .list c false ∧ active = listActive s.goals := by
  have hset {d : ℕ} {p : Progress} (ht : (s.setProgress d p).calls[c]? =
      some ⟨write, .listed status active⟩) :
      s.calls[c]? = some ⟨write, .listed status active⟩ ∨
        d = c ∧ p = .listed status active := by
    by_cases hd : d = c
    · obtain ⟨call, -, hp⟩ := calls_setProgress ht
      exact .inr ⟨hd, by simpa [hd] using hp.symm⟩
    · rw [setProgress_other hd] at ht
      exact .inl ht
  cases a with
  | query d env =>
    simp only [step] at h
    split at h
    · next call hcall =>
      obtain ⟨p, hp, rfl⟩ := Option.map_eq_some_iff.mp h
      refine (hset hc).imp_right ?_
      rintro ⟨-, rfl⟩
      obtain ⟨write', progress⟩ := call
      simp only [Call.query] at hp
      split at hp
      all_goals first | split at hp | skip
      all_goals simp [Progress.ofCheck] at hp
      all_goals split at hp <;> simp at hp
    · cases h
  | insert d env =>
    simp only [step] at h
    split at h
    · split at h <;> obtain rfl := Option.some.inj h
      all_goals exact (hset hc).imp_right fun hp => by simp at hp
    · cases h
  | list d fails =>
    simp only [step] at h
    split at h
    · split at h
      · obtain rfl := Option.some.inj h
        exact (hset hc).imp_right fun hp => by simp at hp
      · next hfails =>
        obtain rfl := Option.some.inj h
        refine (hset hc).imp_right fun ⟨hd, hp⟩ => ?_
        simp only [Progress.listed.injEq] at hp
        simp only [Bool.not_eq_true] at hfails
        exact ⟨by rw [hd, hfails], hp.2.symm⟩
    · cases h
  | swap d =>
    simp only [step] at h
    split at h
    · obtain rfl := Option.some.inj h
      exact (hset hc).imp_right fun hp => by simp at hp
    · cases h

/-- The read of a call that has listed lies behind it in the run. -/
theorem exists_list {s v : State} {es : List Action} {c : ℕ} {write : Write} {status : ℕ}
    {active : List Goal} (h : exec step s es = some v)
    (hv : v.calls[c]? = some ⟨write, .listed status active⟩)
    (hs : s.calls[c]? ≠ some ⟨write, .listed status active⟩) :
    ∃ pre mid u, es = pre ++ .list c false :: mid ∧ exec step s pre = some u ∧
      exec step u (.list c false :: mid) = some v ∧ active = listActive u.goals := by
  induction es using List.reverseRecOn generalizing v with
  | nil => exact absurd (Option.some.inj h ▸ hv) hs
  | append_singleton es a ih =>
    obtain ⟨w, hw, hlast⟩ := exec_append.mp h
    obtain ⟨v', hv', hnil⟩ := exec_cons.mp hlast
    obtain rfl := Option.some.inj hnil
    rcases listed_back hv' hv with hbefore | ⟨rfl, hactive⟩
    · obtain ⟨pre, mid, u, rfl, hu, hmid, hactive⟩ := ih hw hbefore
      refine ⟨pre, mid ++ [a], u, by simp, hu, ?_, hactive⟩
      rw [← List.cons_append]
      exact exec_append.mpr ⟨w, hmid, hlast⟩
    · exact ⟨es, [], w, rfl, hw, hlast, hactive⟩

/-- A swap of a list that was read at `u` converges exactly when the enabled goals are still
those. -/
theorem converged_swap_iff {u v t : State} {mid : List Action} {c : ℕ} (hu : Inv u)
    (hmid : exec step u (.list c false :: mid) = some v) (h : step v (.swap c) = some t) :
    Converged t ↔ SameEnabled u v := by
  obtain ⟨w, hw, hrest⟩ := exec_cons.mp hmid
  have hlisted : Listed (listActive u.goals) w c := by
    simp only [step, Bool.false_eq_true, if_false] at hw
    split at hw
    · next write status hcall =>
      obtain rfl := Option.some.inj hw
      exact ⟨write, status, .inl (by simp [State.setProgress, hcall])⟩
    · cases hw
  obtain ⟨write, status, hv⟩ := exec_invariant
    (fun s a t hs h => listed_step (a := a) hs h) hrest hlisted
  cases step_effect h with
  | move _ _ _ ha => cases ha
  | @swap _ write' status' active hcall =>
    have hactive : active = listActive u.goals := by
      rcases hv with hv | hv
      · have heq := hcall.symm.trans hv
        simp only [Option.some.injEq, Call.mk.injEq, Progress.listed.injEq] at heq
        exact heq.2.2
      · exact absurd (hcall.symm.trans hv) (by simp)
    rw [converged_bySite rfl, hactive]
    simp only [mem_listActive]
    constructor
    · intro hall g hg
      have hiff := hall g
      exact ⟨fun hgu => (hiff.mp ⟨hgu, hu.sites g hgu, hg⟩).1, fun hgv => (hiff.mpr ⟨hgv, hg⟩).1⟩
    · intro hsame g
      constructor
      · rintro ⟨hgu, -, hg⟩
        exact ⟨(hsame g hg).mp hgu, hg⟩
      · rintro ⟨hgv, hg⟩
        have hgu := (hsame g hg).mpr hgv
        exact ⟨hgu, hu.sites g hgu, hg⟩

/-- The last swap of a run that swaps. -/
theorem exists_last_swap {es : List Action} (h : es.any Action.isSwap = true) :
    ∃ pre c post, es = pre ++ .swap c :: post ∧ ∀ a ∈ post, a.isSwap = false := by
  induction es with
  | nil => simp at h
  | cons a es ih =>
    by_cases hes : es.any Action.isSwap = true
    · obtain ⟨pre, c, post, rfl, hpost⟩ := ih hes
      exact ⟨a :: pre, c, post, rfl, hpost⟩
    · have hnone : ∀ a ∈ es, a.isSwap = false := by simpa using hes
      cases a with
      | swap c => exact ⟨[], c, es, rfl, hnone⟩
      | _ => simp [Action.isSwap, hes] at h

/-- Two last swaps of a run are one. -/
theorem last_swap_unique {pre pre' post post' : List Action} {c c' : ℕ}
    (h : pre ++ .swap c :: post = pre' ++ .swap c' :: post')
    (hpost : ∀ a ∈ post, a.isSwap = false) (hpost' : ∀ a ∈ post', a.isSwap = false) :
    pre = pre' ∧ c = c' := by
  rcases List.append_eq_append_iff.mp h with ⟨x, rfl, hx⟩ | ⟨x, rfl, hx⟩
  · cases x with
    | nil => exact ⟨(List.append_nil _).symm, Action.swap.inj (List.cons.inj hx).1⟩
    | cons a x =>
      have hmem : .swap c' ∈ post := (List.cons.inj hx).2 ▸ by simp
      exact absurd (hpost _ hmem) (by simp [Action.isSwap])
  · cases x with
    | nil => exact ⟨List.append_nil _, (Action.swap.inj (List.cons.inj hx).1).symm⟩
    | cons a x =>
      have hmem : .swap c ∈ post' := (List.cons.inj hx).2 ▸ by simp
      exact absurd (hpost' _ hmem) (by simp [Action.isSwap])

/-- Once every call has returned, ingest matches against the enabled goals exactly when no write
changes them between the read and the swap of the reload that swaps last. -/
theorem converged_iff {s t : State} {es : List Action} (hs : Starts s)
    (h : exec step s es = some t) (hok : ∀ a ∈ es, a.reloadFails = false) (ht : Returned t) :
    Converged t ↔ LastReloadUndisturbed s es := by
  have hquiet := not_owes_of_returned ht
  by_cases hswap : es.any Action.isSwap = true
  · obtain ⟨pre, c, post, rfl, hpost⟩ := exists_last_swap hswap
    obtain ⟨v, hv, hrest⟩ := exec_append.mp h
    obtain ⟨w, hw, hrun⟩ := exec_cons.mp hrest
    have hokpost : ∀ a ∈ post, a.reloadFails = false := fun a ha => hok a (by simp [ha])
    obtain ⟨-, hgoals, hsnapshot⟩ := exec_keeps hrun hpost hokpost hquiet
    have hinv {u : State} {as : List Action} (hu : exec step s as = some u) : Inv u :=
      exec_invariant (fun _ _ _ hs h => inv_step hs h) hu (inv_of_starts hs)
    rw [converged_congr hgoals hsnapshot]
    constructor
    · rintro hconv pre' mid c' u v' ⟨post', heq, hpost'⟩ hu hmid
      have hsplit : pre ++ .swap c :: post =
          (pre' ++ .list c' false :: mid) ++ .swap c' :: post' := by simpa using heq
      obtain ⟨rfl, rfl⟩ := last_swap_unique hsplit hpost hpost'
      obtain ⟨u', hu', hv'⟩ := exec_append.mp hv
      obtain rfl : u = u' := Option.some.inj (hu.symm.trans hu')
      obtain rfl : v = v' := Option.some.inj (hv'.symm.trans hmid)
      exact (converged_swap_iff (hinv hu) hmid hw).mp hconv
    · intro hall
      have hlisted : ∃ write status active,
          v.calls[c]? = some ⟨write, .listed status active⟩ := by
        cases step_effect hw with
        | move _ _ _ ha => cases ha
        | swap hcall => exact ⟨_, _, _, hcall⟩
      obtain ⟨write, status, active, hcall⟩ := hlisted
      have hnot : s.calls[c]? ≠ some ⟨write, .listed status active⟩ := fun hc => by
        simpa using hs.idle _ (List.mem_of_getElem? hc)
      obtain ⟨pre', mid, u, rfl, hu, hmid, -⟩ := exists_list hv hcall hnot
      refine (converged_swap_iff (hinv hu) hmid hw).mpr ?_
      exact hall pre' mid c u v ⟨post, by simp, hpost⟩ hu hmid
  · have hnone : ∀ a ∈ es, a.isSwap = false := by simpa using hswap
    obtain ⟨-, hgoals, hsnapshot⟩ := exec_keeps h hnone hok hquiet
    refine iff_of_true ((converged_congr hgoals hsnapshot).mpr (converged_of_starts hs)) ?_
    rintro pre mid c u v ⟨post, rfl, -⟩ - -
    exact absurd (hnone (.swap c) (by simp)) (by simp [Action.isSwap])

variable {s : State} {c : ℕ} {env : GoalEnv}

/-- What a write leaves behind when no other call comes between its steps. -/
def State.finished (s : State) (c : ℕ) (goals : List Goal) (status : ℕ) : State where
  goals := goals
  snapshot := some (bySite (listActive goals))
  calls := s.calls.modify c (fun call => { call with progress := .returned status })

theorem getElem?_setProgress {call : Call} {p : Progress} (hcall : s.calls[c]? = some call) :
    (s.setProgress c p).calls[c]? = some { call with progress := p } := by
  simp [State.setProgress, hcall]

private theorem exec_checked
    {write : Write} {g : Goal} (hcall : s.calls[c]? = some ⟨write, .checked g⟩)
    (hans : env.fails .write = false) :
    exec step s [.insert c env, .list c false, .swap c] =
      some (s.finished c (insertGoal s.goals (write.row env g)) write.success) := by
  simp [exec, step, hcall, hans, State.setProgress, State.finished, List.modify_modify_eq,
    Function.comp_def]

theorem update_ok {goals goals' : List Goal} {g : Goal} (h : update env goals g = .ok goals') :
    ∃ g', prepare env goals g = .ok g' ∧ env.fails .write = false ∧
      goals' = insertGoal goals { g' with updatedAt := env.now } := by
  simp only [update] at h
  cases hval : validate g with
  | error err => simp [hval] at h
  | ok valid =>
    cases hget : get env goals valid.siteID valid.goalID with
    | error err => simp [hval, hget] at h
    | ok existing =>
      simp only [hval, hget] at h
      split_ifs at h with hfails
      refine ⟨{ valid with createdAt := existing.createdAt }, by simp [prepare, hval, hget],
        by simpa using hfails, (Except.ok.inj h).symm⟩

/-- A call that checks the goal, inserts it and reloads. -/
theorem exec_query {call : Call} {g : Goal} {status : GoalError → ℕ} {r : Except GoalError Goal}
    (hcall : s.calls[c]? = some call) (hquery : call.query env s.goals = some (.ofCheck status r))
    (hr : r = .ok g) (hans : env.fails .write = false) :
    exec step s [.query c env, .insert c env, .list c false, .swap c] =
      some (s.finished c (insertGoal s.goals (call.write.row env g)) call.write.success) := by
  subst hr
  have hfirst : step s (.query c env) = some (s.setProgress c (.checked g)) := by
    simp [step, hcall, hquery, Progress.ofCheck]
  refine exec_cons.mpr ⟨_, hfirst, ?_⟩
  rw [exec_checked (getElem?_setProgress hcall) hans]
  simp [State.setProgress, State.finished, List.modify_modify_eq, Function.comp_def]

theorem createGoal_alone {siteID : ℕ} {body : Option GoalRequest} {goals : List Goal}
    (hcall : s.calls[c]? = some ⟨.create siteID body, .start⟩)
    (h : createGoal env s.goals siteID body = (goals, 201)) :
    exec step s [.query c env, .insert c env, .list c false, .swap c] =
      some (s.finished c goals 201) := by
  cases body with
  | none => simp [createGoal] at h
  | some req =>
    cases hval : validate (req.goal siteID 0) with
    | error err => cases err <;> simp [createGoal, create, hval, written, errorStatus] at h
    | ok g =>
      simp only [createGoal, create, hval] at h
      split_ifs at h with hfails
      · simp [written, errorStatus] at h
      · obtain rfl : insertGoal s.goals _ = goals := congrArg Prod.fst h
        exact exec_query hcall rfl hval (by simpa using hfails)

theorem updateGoal_alone {siteID : ℕ} {goalID : Option ℕ} {body : Option GoalRequest}
    {goals : List Goal} (hcall : s.calls[c]? = some ⟨.update siteID goalID body, .start⟩)
    (h : updateGoal env s.goals siteID goalID body = (goals, 200)) :
    exec step s [.query c env, .insert c env, .list c false, .swap c] =
      some (s.finished c goals 200) := by
  cases goalID with
  | none => simp [updateGoal] at h
  | some goalID => cases body with
    | none => simp [updateGoal] at h
    | some req =>
      cases hupdate : update env s.goals (req.goal siteID goalID) with
      | error err => cases err <;> simp [updateGoal, hupdate, written, errorStatus] at h
      | ok goals' =>
        obtain rfl : goals' = goals := by simpa [updateGoal, hupdate, written] using h
        obtain ⟨g, hg, hans, rfl⟩ := update_ok hupdate
        exact exec_query hcall rfl hg hans

theorem disableGoal_alone {siteID : ℕ} {goalID : Option ℕ} {goals : List Goal}
    (hcall : s.calls[c]? = some ⟨.disable siteID goalID, .start⟩)
    (h : disableGoal env s.goals siteID goalID = (goals, 204)) :
    exec step s [.query c env, .query c env, .insert c env, .list c false, .swap c] =
      some (s.finished c goals 204) := by
  cases goalID with
  | none => simp [disableGoal] at h
  | some goalID =>
    cases hget : get env s.goals siteID goalID with
    | error err => cases err <;> simp [disableGoal, disable, hget] at h
    | ok g =>
      simp only [disableGoal, disable, hget] at h
      cases hupdate : update env s.goals { g with enabled := false } with
      | error err => cases err <;> simp [hupdate] at h
      | ok goals' =>
        obtain rfl : goals' = goals := by simpa [hupdate] using h
        obtain ⟨g', hg, hans, rfl⟩ := update_ok hupdate
        have hfirst : step s (.query c env) =
            some (s.setProgress c (.loaded { g with enabled := false })) := by
          simp [step, hcall, Call.query, hget]
        refine exec_cons.mpr ⟨_, hfirst, ?_⟩
        rw [exec_query (getElem?_setProgress hcall) rfl hg hans]
        simp [State.setProgress, State.finished, List.modify_modify_eq, Function.comp_def,
          Write.row, Write.success]

def signup : GoalRequest where
  name := "Signup"
  matchType := .eventNameEquals
  pattern := "signup"
  enabled := true

def order : GoalRequest where
  name := "Order"
  matchType := .eventNameEquals
  pattern := "order"
  value := 500
  enabled := true

def envOf (newID : ℕ) : GoalEnv where
  fails := fun _ => false
  now := 10
  newID := newID

def twoCreates : State where
  goals := []
  snapshot := some (bySite [])
  calls := [⟨.create 1 (some signup), .start⟩, ⟨.create 1 (some order), .start⟩]

def oneAfterTheOther : List Action :=
  [.query 0 (envOf 7), .insert 0 (envOf 7), .list 0 false, .swap 0,
    .query 1 (envOf 8), .insert 1 (envOf 8), .list 1 false, .swap 1]

/-- The first call has read the goals before the second one writes, and swaps after it. -/
def overtaken : List Action :=
  [.query 0 (envOf 7), .insert 0 (envOf 7), .list 0 false,
    .query 1 (envOf 8), .insert 1 (envOf 8), .list 1 false, .swap 1, .swap 0]

def orderRow : Goal := { order.goal 1 8 with createdAt := 10, updatedAt := 10 }

theorem starts_twoCreates : Starts twoCreates where
  sites := by simp [twoCreates]
  loaded := rfl
  idle := by simp [twoCreates]

theorem converged_iff_oneAfterTheOther : ∃ t, exec step twoCreates oneAfterTheOther = some t ∧
    (Converged t ↔ LastReloadUndisturbed twoCreates oneAfterTheOther) :=
  ⟨_, rfl, converged_iff starts_twoCreates rfl (by decide +kernel) (by decide +kernel)⟩

/-- The goal of the second call is enabled, and ingest does not match it. -/
theorem overtaken_goal_invisible : ¬ ∀ (s t : State) (es : List Action), Starts s →
    exec step s es = some t → (∀ a ∈ es, a.reloadFails = false) → Returned t → Converged t := by
  intro h
  obtain ⟨m, hm, hall⟩ := h twoCreates _ overtaken starts_twoCreates rfl (by decide +kernel)
    (by decide +kernel)
  have horder := (hall 1 orderRow).mpr (by decide +kernel)
  obtain rfl := Option.some.inj hm
  revert horder
  decide +kernel

end Statnive.GoalSnapshot
