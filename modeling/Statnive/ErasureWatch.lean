import Mathlib.Logic.Function.Basic
import Statnive.LabelledRuns
import Statnive.PrivacyRoutes

/-!
# The erase-completed audit

`Erase` dispatches one `ALTER TABLE ... DELETE` per table and leaves a watcher behind, which
finds the mutations of the request by their create times, polls them by their ids and reports
through `onCompleted` or `onTimeout`. The steps of any number of requests, the mutations of
others and the clocks interleave freely.
-/

namespace Statnive.ErasureWatch

open LabelledRuns
open PrivacyRoutes (EraseResult eraseResult)

/-- A row of `system.mutations`, with the request that dispatched it. Create times are in
seconds, on ClickHouse's clock. -/
structure Mutation where
  table : String
  mutationID : String
  createTime : ℤ
  request : Option ℕ
  isDone : Bool := false
  deriving DecidableEq

/-- What `Exec` gives back; a statement is `lost` when it runs and its answer does not arrive. -/
inductive ExecOutcome where
  | accepted
  | refused (err : String)
  | lost (err : String)
  deriving DecidableEq

def ExecOutcome.err : ExecOutcome → Option String
  | .accepted => none
  | .refused err | .lost err => some err

def ExecOutcome.created : ExecOutcome → Bool
  | .accepted | .lost _ => true
  | .refused _ => false

/-- Where a request is. It is `unwatched` when it ends without a watcher, and `returned` when
`WaitForCompletion` has returned. -/
inductive Phase where
  | idle
  | discovering (dispatchedAt : ℤ)
  | dispatching (dispatchedAt : ℤ) (rest : List String) (results : List EraseResult)
  | unwatched
  | watching (tables : List String) (dispatchedSince deadline : ℤ)
  | polling (mutationIDs : List String) (deadline : ℤ)
  | returned
  deriving DecidableEq

/-- `WaitForCompletion` is running. -/
def Phase.Waits : Phase → Prop
  | .watching .. | .polling .. => True
  | _ => False

inductive Outcome where
  | completed (mutationCount : ℕ)
  | timeout (pendingCount : ℕ)
  deriving DecidableEq

/-- A call of `onCompleted` or `onTimeout`. -/
structure Call where
  request : ℕ
  outcome : Outcome
  deriving DecidableEq

def nanosPerSecond : ℤ := 10 ^ 9

/-- `offset` is how far ClickHouse's clock is ahead of the server's, in nanoseconds, and
`bindTime` what is left of a time that the driver binds to a statement. -/
structure Config where
  offset : ℤ
  bindTime : ℤ → ℤ

/-- The driver's rendering of a time by `toDateTime`. -/
def toDateTime (t : ℤ) : ℤ := t / nanosPerSecond * nanosPerSecond

/-- `completionWatchTimeout`. -/
def completionWatchTimeout : ℤ := 5 * 60 * nanosPerSecond

/-- `math.MaxInt`. -/
def maxInt : ℕ := 2 ^ 63 - 1

/-- `now` is the server's clock, in nanoseconds. -/
structure State where
  now : ℤ := 0
  mutations : List Mutation := []
  phase : ℕ → Phase := fun _ => .idle
  calls : List Call := []

/-- `discover` and `exec` are the statements of `EraseByCookieID`, and `add` is
`Suppression.Add`. The watcher takes `snapshot`, then `poll` on a tick and `expire` behind its
deadline; `ok` says that the query of the step is answered. `alter` is a mutation of somebody
else, and `complete` the end of a mutation. -/
inductive Action where
  | tick (d : ℕ)
  | erase (k : ℕ)
  | discover (k : ℕ) (tables : Option (List String))
  | exec (k : ℕ) (mutationID : String) (outcome : ExecOutcome)
  | add (k : ℕ) (ok : Bool)
  | snapshot (k : ℕ) (ok : Bool)
  | poll (k : ℕ) (ok : Bool)
  | expire (k : ℕ) (ok : Bool)
  | alter (table mutationID : String)
  | complete (table mutationID : String)
  deriving DecidableEq

def State.setPhase (s : State) (k : ℕ) (p : Phase) : State :=
  { s with phase := Function.update s.phase k p }

/-- A callback runs, and `WaitForCompletion` returns. -/
def State.call (s : State) (k : ℕ) (o : Outcome) : State :=
  State.setPhase { s with calls := s.calls ++ [⟨k, o⟩] } k .returned

def State.alter (cfg : Config) (s : State) (table mutationID : String) (request : Option ℕ) :
    State :=
  { s with mutations := s.mutations ++
      [⟨table, mutationID, (s.now + cfg.offset) / nanosPerSecond, request, false⟩] }

def Mutation.finish (table mutationID : String) (m : Mutation) : Mutation :=
  if m.table = table ∧ m.mutationID = mutationID then { m with isDone := true } else m

/-- The condition of the statement in `snapshotMutationIDs`. -/
def Mutation.Matches (cfg : Config) (tables : List String) (since : ℤ) (m : Mutation) : Prop :=
  m.table ∈ tables ∧ cfg.bindTime since ≤ m.createTime * nanosPerSecond

instance (cfg : Config) (tables : List String) (since : ℤ) (m : Mutation) :
    Decidable (m.Matches cfg tables since) := inferInstanceAs (Decidable (_ ∧ _))

def snapshotMutationIDs (cfg : Config) (mutations : List Mutation) (tables : List String)
    (since : ℤ) : List String :=
  (mutations.filter fun m => m.Matches cfg tables since).map Mutation.mutationID

def countPendingMutations (mutations : List Mutation) (mutationIDs : List String) : ℕ :=
  min (mutations.countP fun m => m.mutationID ∈ mutationIDs ∧ m.isDone = false) maxInt

/-- `WaitForCompletion` up to its loop. -/
def waitForCompletion (cfg : Config) (s : State) (k : ℕ) (tables : List String)
    (dispatchedSince deadline : ℤ) (ok : Bool) : State :=
  if tables = [] then s.call k (.completed 0)
  else
    let mutationIDs := if ok then snapshotMutationIDs cfg s.mutations tables dispatchedSince else []
    if mutationIDs = [] then s.call k (.timeout 0)
    else s.setPhase k (.polling mutationIDs deadline)

/-- The tables to which `EraseByCookieID` sent a mutation. -/
def sentTables (results : List EraseResult) : List String :=
  (results.filter EraseResult.mutationSent).map EraseResult.table

def spawnCompletionWatcher (s : State) (k : ℕ) (results : List EraseResult)
    (dispatchedAt : ℤ) : State :=
  let tables := sentTables results
  if tables = [] then s.setPhase k .unwatched
  else s.setPhase k (.watching tables dispatchedAt (s.now + completionWatchTimeout))

def step (cfg : Config) (s : State) : Action → Option State
  | .tick d => some { s with now := s.now + d }
  | .erase k => match s.phase k with
    | .idle => some (s.setPhase k (.discovering s.now))
    | _ => none
  | .discover k tables => match s.phase k with
    | .discovering dispatchedAt => match tables with
      | none => some (s.setPhase k .unwatched)
      | some tables => some (s.setPhase k (.dispatching dispatchedAt tables []))
    | _ => none
  | .exec k mutationID outcome => match s.phase k with
    | .dispatching dispatchedAt (table :: rest) results =>
      let sent := if outcome.created then s.alter cfg table mutationID (some k) else s
      some (sent.setPhase k
        (.dispatching dispatchedAt rest (results ++ [eraseResult (table, outcome.err)])))
    | _ => none
  | .add k ok => match s.phase k with
    | .dispatching dispatchedAt [] results =>
      if ok then some (spawnCompletionWatcher s k results dispatchedAt)
      else some (s.setPhase k .unwatched)
    | _ => none
  | .snapshot k ok => match s.phase k with
    | .watching tables dispatchedSince deadline =>
      some (waitForCompletion cfg s k tables dispatchedSince deadline ok)
    | _ => none
  | .poll k ok => match s.phase k with
    | .polling mutationIDs _ =>
      if ok ∧ countPendingMutations s.mutations mutationIDs = 0 then
        some (s.call k (.completed mutationIDs.length))
      else some s
    | _ => none
  | .expire k ok => match s.phase k with
    | .polling mutationIDs deadline =>
      if deadline ≤ s.now then
        some (s.call k (.timeout (if ok then countPendingMutations s.mutations mutationIDs else 0)))
      else none
    | _ => none
  | .alter table mutationID => some (s.alter cfg table mutationID none)
  | .complete table mutationID =>
    some { s with mutations := s.mutations.map (Mutation.finish table mutationID) }

def State.callsOf (s : State) (k : ℕ) : List Call := s.calls.filter fun c => c.request = k

/-- A mutation that the request dispatched and that is not done. -/
def State.Pending (s : State) (k : ℕ) (m : Mutation) : Prop :=
  m ∈ s.mutations ∧ m.request = some k ∧ m.isDone = false

/-- A request that is reported as completed has no mutation that is not done. -/
def Truthful (s : State) : Prop :=
  ∀ k n, ⟨k, .completed n⟩ ∈ s.calls → ∀ m, ¬ s.Pending k m

/-- A watcher has made one call if it has returned, and none before. -/
def Once (s : State) : Prop :=
  ∀ k, (s.callsOf k).length = if s.phase k = .returned then 1 else 0

/-- Of the mutations that `k` dispatched and that are not done, a snapshot finds the id of each
as soon as it finds one mutation. -/
def Phase.Sees (cfg : Config) (mutations : List Mutation) (k : ℕ) : Phase → Prop
  | .watching tables since _ => (∃ m ∈ mutations, m.Matches cfg tables since) →
      ∀ own ∈ mutations, own.request = some k ∧ own.isDone = false →
        ∃ m ∈ mutations, m.Matches cfg tables since ∧ m.mutationID = own.mutationID
  | _ => True

def SeesOwn (cfg : Config) (s : State) : Action → Prop
  | .snapshot k true => (s.phase k).Sees cfg s.mutations k
  | _ => True

instance decidableSees (cfg : Config) (mutations : List Mutation) (k : ℕ) :
    (p : Phase) → Decidable (p.Sees cfg mutations k)
  | .watching .. => inferInstanceAs (Decidable (_ → _))
  | .idle | .discovering .. | .dispatching .. | .unwatched | .polling .. | .returned =>
    .isTrue trivial

instance decidableSeesOwn (cfg : Config) (s : State) : (a : Action) → Decidable (SeesOwn cfg s a)
  | .snapshot k true => decidableSees cfg s.mutations k (s.phase k)
  | .snapshot _ false | .tick _ | .erase _ | .discover .. | .exec .. | .add .. | .poll ..
  | .expire .. | .alter .. | .complete .. => .isTrue trivial

section Frame

variable (s : State) (k : ℕ)

theorem phase_setPhase_self (p : Phase) : (s.setPhase k p).phase k = p := Function.update_self ..

theorem phase_setPhase_of_ne {j : ℕ} (h : j ≠ k) (p : Phase) :
    (s.setPhase k p).phase j = s.phase j := Function.update_of_ne h ..

private theorem callsOf_call_self (o : Outcome) : (s.call k o).callsOf k =
    s.callsOf k ++ [⟨k, o⟩] := by
  simp [State.callsOf, State.call, State.setPhase]

private theorem callsOf_call_of_ne {j : ℕ} (h : j ≠ k) (o : Outcome) :
    (s.call k o).callsOf j = s.callsOf j := by
  simp [State.callsOf, State.call, State.setPhase, h.symm]

theorem phase_call_self (o : Outcome) : (s.call k o).phase k = .returned :=
  Function.update_self ..

theorem phase_call_of_ne {j : ℕ} (h : j ≠ k) (o : Outcome) :
    (s.call k o).phase j = s.phase j := Function.update_of_ne h ..

end Frame

theorem isDone_finish {table mutationID : String} {m : Mutation}
    (h : (m.finish table mutationID).isDone = false) : m.finish table mutationID = m := by
  by_cases hm : m.table = table ∧ m.mutationID = mutationID
  · simp [Mutation.finish, hm] at h
  · exact if_neg hm

/-- A mutation that is not done was not done before. -/
theorem pending_complete {s : State} {table mutationID : String} {k : ℕ} {m : Mutation}
    (h : State.Pending { s with mutations := s.mutations.map (Mutation.finish table mutationID) }
      k m) : s.Pending k m := by
  obtain ⟨hmem, hk, hdone⟩ := h
  obtain ⟨m', hm', rfl⟩ := List.mem_map.mp hmem
  have heq := isDone_finish hdone
  rw [heq] at hk hdone ⊢
  exact ⟨hm', hk, hdone⟩

theorem pending_alter {cfg : Config} {s : State} {table mutationID : String} {request : Option ℕ}
    {k : ℕ} {m : Mutation} (h : (s.alter cfg table mutationID request).Pending k m)
    (hk : request ≠ some k) : s.Pending k m := by
  obtain ⟨hmem, hreq, hdone⟩ := h
  obtain hmem | hmem := List.mem_append.mp hmem
  · exact ⟨hmem, hreq, hdone⟩
  · obtain rfl := List.mem_singleton.mp hmem
    exact absurd hreq hk

/-- The steps, each where it can be taken. -/
inductive Moves (cfg : Config) (s : State) : Action → State → Prop where
  | tick (d : ℕ) : Moves cfg s (.tick d) { s with now := s.now + d }
  | erase {k} (hs : s.phase k = .idle) :
      Moves cfg s (.erase k) (s.setPhase k (.discovering s.now))
  | undiscovered {k since} (hs : s.phase k = .discovering since) :
      Moves cfg s (.discover k none) (s.setPhase k .unwatched)
  | discovered {k since} (tables) (hs : s.phase k = .discovering since) :
      Moves cfg s (.discover k (some tables)) (s.setPhase k (.dispatching since tables []))
  | exec {k since table rest results} (mutationID outcome)
      (hs : s.phase k = .dispatching since (table :: rest) results) :
      Moves cfg s (.exec k mutationID outcome)
        ((if outcome.created then s.alter cfg table mutationID (some k) else s).setPhase k
          (.dispatching since rest (results ++ [eraseResult (table, outcome.err)])))
  | unspawned {k since results} (hs : s.phase k = .dispatching since [] results) :
      Moves cfg s (.add k false) (s.setPhase k .unwatched)
  | spawned {k since results} (hs : s.phase k = .dispatching since [] results) :
      Moves cfg s (.add k true) (spawnCompletionWatcher s k results since)
  | snapshot {k tables since deadline} (ok) (hs : s.phase k = .watching tables since deadline) :
      Moves cfg s (.snapshot k ok) (waitForCompletion cfg s k tables since deadline ok)
  | done {k ids deadline} (hs : s.phase k = .polling ids deadline)
      (hdone : countPendingMutations s.mutations ids = 0) :
      Moves cfg s (.poll k true) (s.call k (.completed ids.length))
  | polled (k ok) : Moves cfg s (.poll k ok) s
  | expired {k ids deadline} (ok) (hs : s.phase k = .polling ids deadline) :
      Moves cfg s (.expire k ok)
        (s.call k (.timeout (if ok then countPendingMutations s.mutations ids else 0)))
  | alter (table mutationID) :
      Moves cfg s (.alter table mutationID) (s.alter cfg table mutationID none)
  | complete (table mutationID) : Moves cfg s (.complete table mutationID)
      { s with mutations := s.mutations.map (Mutation.finish table mutationID) }

theorem moves_of_step {cfg : Config} {s t : State} {a : Action} (h : step cfg s a = some t) :
    Moves cfg s a t := by
  cases a with
  | tick d =>
    obtain rfl := Option.some.inj h
    exact .tick d
  | erase k =>
    simp only [step] at h
    split at h
    next hs =>
      obtain rfl := Option.some.inj h
      exact .erase hs
    next => exact nomatch h
  | discover k tables =>
    simp only [step] at h
    split at h
    next hs =>
      cases tables with
      | none =>
        obtain rfl := Option.some.inj h
        exact .undiscovered hs
      | some tables =>
        obtain rfl := Option.some.inj h
        exact .discovered tables hs
    next => exact nomatch h
  | exec k mutationID outcome =>
    simp only [step] at h
    split at h
    next hs =>
      obtain rfl := Option.some.inj h
      exact .exec mutationID outcome hs
    next => exact nomatch h
  | add k ok =>
    simp only [step] at h
    split at h
    next hs =>
      cases ok with
      | false =>
        obtain rfl := Option.some.inj h
        exact .unspawned hs
      | true =>
        obtain rfl := Option.some.inj h
        exact .spawned hs
    next => exact nomatch h
  | snapshot k ok =>
    simp only [step] at h
    split at h
    next hs =>
      obtain rfl := Option.some.inj h
      exact .snapshot ok hs
    next => exact nomatch h
  | poll k ok =>
    simp only [step] at h
    split at h
    next hs =>
      split at h
      next hdone =>
        obtain ⟨rfl, hzero⟩ := hdone
        obtain rfl := Option.some.inj h
        exact .done hs hzero
      next =>
        obtain rfl := Option.some.inj h
        exact .polled k ok
    next => exact nomatch h
  | expire k ok =>
    simp only [step] at h
    split at h
    next hs =>
      obtain ⟨-, ht⟩ := Option.ite_none_right_eq_some.mp h
      obtain rfl := Option.some.inj ht
      exact .expired ok hs
    next => exact nomatch h
  | alter table mutationID =>
    obtain rfl := Option.some.inj h
    exact .alter table mutationID
  | complete table mutationID =>
    obtain rfl := Option.some.inj h
    exact .complete table mutationID

/-- What a step can do to the requests. -/
inductive Change (cfg : Config) (s : State) : Action → State → Prop where
  /-- Nothing, though mutations may have ended. -/
  | quiet (a : Action) (t : State) (hnow : s.now ≤ t.now) (hphase : t.phase = s.phase)
      (hcalls : t.calls = s.calls)
      (hpending : ∀ k m, t.Pending k m → s.Pending k m) : Change cfg s a t
  | advance (a : Action) (k : ℕ) (p : Phase) (hs : s.phase k ≠ .returned)
      (hwaits : ¬ (s.phase k).Waits) (hp : p ≠ .returned)
      (hpolling : ∀ ids deadline, p ≠ .polling ids deadline)
      (hwatching : ∀ tables since deadline, p = .watching tables since deadline → tables ≠ []) :
      Change cfg s a (s.setPhase k p)
  | dispatched (a : Action) (k : ℕ) (since : ℤ) (table : String) (rest : List String)
      (results : List EraseResult) (hs : s.phase k = .dispatching since (table :: rest) results)
      (u : State) (hnow : s.now ≤ u.now) (hphase : u.phase = s.phase) (hcalls : u.calls = s.calls)
      (hpending : ∀ j m, j ≠ k → u.Pending j m → s.Pending j m) (results' : List EraseResult) :
      Change cfg s a (u.setPhase k (.dispatching since rest results'))
  | found (k : ℕ) (tables : List String) (since deadline : ℤ)
      (hs : s.phase k = .watching tables since deadline)
      (hids : snapshotMutationIDs cfg s.mutations tables since ≠ []) :
      Change cfg s (.snapshot k true)
        (s.setPhase k (.polling (snapshotMutationIDs cfg s.mutations tables since) deadline))
  | gaveUp (a : Action) (k n : ℕ) (hs : s.phase k ≠ .returned) :
      Change cfg s a (s.call k (.timeout n))
  | completed (a : Action) (k : ℕ) (ids : List String) (deadline : ℤ)
      (hs : s.phase k = .polling ids deadline) (hdone : countPendingMutations s.mutations ids = 0) :
      Change cfg s a (s.call k (.completed ids.length))
  | nothing (a : Action) (k : ℕ) (since deadline : ℤ)
      (hs : s.phase k = .watching [] since deadline) :
      Change cfg s a (s.call k (.completed 0))

private theorem change_spawn
    {cfg : Config} {s : State} {k : ℕ} (a : Action) (results : List EraseResult)
    (dispatchedAt : ℤ) (hs : s.phase k ≠ .returned) (hwaits : ¬ (s.phase k).Waits) :
    Change cfg s a (spawnCompletionWatcher s k results dispatchedAt) := by
  rw [spawnCompletionWatcher]
  split
  next => exact .advance a k _ hs hwaits nofun nofun nofun
  next htables =>
    refine .advance a k _ hs hwaits nofun nofun fun tables since deadline h => ?_
    cases h
    exact htables

private theorem change_waitForCompletion {cfg : Config} {s : State} {k : ℕ} {tables : List String}
    {since deadline : ℤ} (hs : s.phase k = .watching tables since deadline) (ok : Bool) :
    Change cfg s (.snapshot k ok) (waitForCompletion cfg s k tables since deadline ok) := by
  have hk : s.phase k ≠ .returned := by simp [hs]
  rw [waitForCompletion]
  split
  next htables =>
    subst htables
    exact .nothing _ k since deadline hs
  next =>
    cases ok with
    | false => exact .gaveUp _ k 0 hk
    | true =>
      change Change cfg s _
        (if snapshotMutationIDs cfg s.mutations tables since = [] then s.call k (.timeout 0)
        else s.setPhase k (.polling (snapshotMutationIDs cfg s.mutations tables since) deadline))
      split
      next => exact .gaveUp _ k 0 hk
      next hids => exact .found k tables since deadline hs hids

theorem step_change {cfg : Config} {s t : State} {a : Action} (h : step cfg s a = some t) :
    Change cfg s a t := by
  cases moves_of_step h with
  | tick d =>
    exact .quiet _ _ (Int.le_add_of_nonneg_right (Int.natCast_nonneg d)) rfl rfl fun _ _ => id
  | erase hs | undiscovered hs | discovered _ hs | unspawned hs =>
    exact .advance _ _ _ (by simp [hs]) (by simp [hs, Phase.Waits]) nofun nofun nofun
  | @exec k since table rest results mutationID outcome hs =>
    refine .dispatched _ k since table rest results hs _ ?_ ?_ ?_ ?_ _
    · split <;> exact le_refl s.now
    · split <;> rfl
    · split <;> rfl
    · intro j m hj hm
      split at hm
      next => exact pending_alter hm fun hkj => hj (Option.some.inj hkj).symm
      next => exact hm
  | @spawned k since results hs =>
    exact change_spawn _ results since (by simp [hs]) (by simp [hs, Phase.Waits])
  | snapshot ok hs => exact change_waitForCompletion hs ok
  | done hs hdone => exact .completed _ _ _ _ hs hdone
  | polled => exact .quiet _ _ (le_refl _) rfl rfl fun _ _ => id
  | expired ok hs => exact .gaveUp _ _ _ (by simp [hs])
  | alter => exact .quiet _ _ (le_refl _) rfl rfl fun k m hm => pending_alter hm nofun
  | complete => exact .quiet _ _ (le_refl _) rfl rfl fun k m hm => pending_complete hm

theorem once_start : Once {} := fun _ => rfl

theorem once_setPhase {s : State} {k : ℕ} {p : Phase} (hs : Once s) (hk : s.phase k ≠ .returned)
    (hp : p ≠ .returned) : Once (s.setPhase k p) := by
  intro j
  refine (hs j).trans ?_
  by_cases hj : j = k
  · subst hj
    rw [phase_setPhase_self, if_neg hk, if_neg hp]
  · rw [phase_setPhase_of_ne s k hj]

theorem once_call {s : State} {k : ℕ} (hs : Once s) (hk : s.phase k ≠ .returned) (o : Outcome) :
    Once (s.call k o) := by
  intro j
  by_cases hj : j = k
  · subst hj
    have hnone := hs j
    rw [if_neg hk] at hnone
    rw [callsOf_call_self, phase_call_self, if_pos rfl, List.length_append, hnone]
    rfl
  · rw [callsOf_call_of_ne s k hj, phase_call_of_ne s k hj]
    exact hs j

theorem once_congr {s t : State} (hs : Once s) (hphase : t.phase = s.phase)
    (hcalls : t.calls = s.calls) : Once t := by
  intro j
  rw [State.callsOf, hcalls, hphase]
  exact hs j

private theorem once_step (cfg : Config) (s : State) (a : Action) (t : State) (hs : Once s)
    (h : step cfg s a = some t) : Once t := by
  cases step_change h with
  | quiet _ _ _ hphase hcalls _ => exact once_congr hs hphase hcalls
  | advance _ k p hk _ hp _ _ => exact once_setPhase hs hk hp
  | dispatched _ k since table rest results hk u _ hphase hcalls _ results' =>
    have hu : u.phase k ≠ .returned := by simp [hphase, hk]
    exact once_setPhase (once_congr hs hphase hcalls) hu nofun
  | found k tables since deadline hk _ => exact once_setPhase hs (by simp [hk]) nofun
  | gaveUp _ k n hk => exact once_call hs hk _
  | completed _ k ids deadline hk _ => exact once_call hs (by simp [hk]) _
  | nothing _ k since deadline hk => exact once_call hs (by simp [hk]) _

/-- What holds while the snapshots see the mutations of their requests. -/
structure Inv (s : State) : Prop where
  once : Once s
  dispatched : ∀ k tables since deadline, s.phase k = .watching tables since deadline → tables ≠ []
  polled : ∀ k ids deadline, s.phase k = .polling ids deadline →
    ∀ m, s.Pending k m → m.mutationID ∈ ids
  truthful : Truthful s

theorem inv_start : Inv {} := ⟨once_start, nofun, nofun, nofun⟩

/-- A request that is reported has returned. -/
theorem Once.returned {s : State} (hs : Once s) {c : Call} (hc : c ∈ s.calls) :
    s.phase c.request = .returned := by
  by_contra hne
  have hnone := hs c.request
  rw [if_neg hne, List.length_eq_zero_iff, State.callsOf, List.filter_eq_nil_iff] at hnone
  exact hnone c hc (decide_eq_true rfl)

/-- No mutation of the list is counted. -/
theorem countPendingMutations_eq_zero {mutations : List Mutation} {ids : List String} :
    countPendingMutations mutations ids = 0 ↔
      ∀ m ∈ mutations, m.isDone = false → m.mutationID ∉ ids := by
  have hmax : maxInt ≠ 0 := by decide
  rw [countPendingMutations, Nat.min_eq_zero_iff, or_iff_left hmax, List.countP_eq_zero]
  simp only [decide_eq_true_eq, not_and]
  exact forall₂_congr fun m _ => ⟨fun h hd hm => h hm hd, fun h hm hd => h hd hm⟩

theorem mem_snapshotMutationIDs {cfg : Config} {mutations : List Mutation} {tables : List String}
    {since : ℤ} {id : String} : id ∈ snapshotMutationIDs cfg mutations tables since ↔
      ∃ m ∈ mutations, m.Matches cfg tables since ∧ m.mutationID = id := by
  simp [snapshotMutationIDs, and_assoc]

/-- The request moves to a phase in which it has seen all that is pending. -/
theorem inv_setPhase {s : State} {k : ℕ} {p : Phase} (hs : Inv s) (hk : s.phase k ≠ .returned)
    (hp : p ≠ .returned)
    (hwatching : ∀ tables since deadline, p = .watching tables since deadline → tables ≠ [])
    (hpolling : ∀ ids deadline, p = .polling ids deadline →
      ∀ m, s.Pending k m → m.mutationID ∈ ids) : Inv (s.setPhase k p) where
  once := once_setPhase hs.once hk hp
  dispatched j tables since deadline hj := by
    by_cases hjk : j = k
    · subst hjk
      rw [phase_setPhase_self] at hj
      exact hwatching tables since deadline hj
    · rw [phase_setPhase_of_ne s k hjk] at hj
      exact hs.dispatched j tables since deadline hj
  polled j ids deadline hj := by
    by_cases hjk : j = k
    · subst hjk
      rw [phase_setPhase_self] at hj
      exact hpolling ids deadline hj
    · rw [phase_setPhase_of_ne s k hjk] at hj
      exact hs.polled j ids deadline hj
  truthful := hs.truthful

theorem inv_call {s : State} {k : ℕ} {o : Outcome} (hs : Inv s) (hk : s.phase k ≠ .returned)
    (ho : ∀ n, o = .completed n → ∀ m, ¬ s.Pending k m) : Inv (s.call k o) where
  once := once_call hs.once hk o
  dispatched j tables since deadline hj := by
    by_cases hjk : j = k
    · subst hjk
      rw [phase_call_self] at hj
      exact nomatch hj
    · rw [phase_call_of_ne s k hjk] at hj
      exact hs.dispatched j tables since deadline hj
  polled j ids deadline hj := by
    by_cases hjk : j = k
    · subst hjk
      rw [phase_call_self] at hj
      exact nomatch hj
    · rw [phase_call_of_ne s k hjk] at hj
      exact hs.polled j ids deadline hj
  truthful j n hc := by
    obtain hc | hc := List.mem_append.mp hc
    · exact hs.truthful j n hc
    · obtain ⟨rfl, ho'⟩ := Call.mk.inj (List.mem_singleton.mp hc)
      exact ho n ho'.symm

/-- Of a request that is being dispatched more may be pending than before. -/
theorem inv_congr {s t : State} (hs : Inv s) (hphase : t.phase = s.phase)
    (hcalls : t.calls = s.calls)
    (hpending : ∀ k m, t.Pending k m →
      s.Pending k m ∨ ∃ since rest results, s.phase k = .dispatching since rest results) :
    Inv t where
  once := once_congr hs.once hphase hcalls
  dispatched := hphase ▸ hs.dispatched
  polled k ids deadline hk m hm := by
    rw [hphase] at hk
    obtain hm | ⟨since, rest, results, hd⟩ := hpending k m hm
    · exact hs.polled k ids deadline hk m hm
    · exact nomatch hk.symm.trans hd
  truthful k n hc m hm := by
    rw [hcalls] at hc
    obtain hm | ⟨since, rest, results, hd⟩ := hpending k m hm
    · exact hs.truthful k n hc m hm
    · exact nomatch (hs.once.returned hc).symm.trans hd

theorem inv_step (cfg : Config) (s : State) (a : Action) (t : State) (hs : Inv s)
    (hsees : SeesOwn cfg s a) (h : step cfg s a = some t) : Inv t := by
  cases step_change h with
  | quiet _ _ _ hphase hcalls hpending =>
    exact inv_congr hs hphase hcalls fun k m hm => .inl (hpending k m hm)
  | advance _ k p hk _ hp hpolling hwatching =>
    exact inv_setPhase hs hk hp hwatching fun ids deadline h => absurd h (hpolling ids deadline)
  | dispatched _ k since table rest results hk u _ hphase hcalls hpending results' =>
    have hu : Inv u := by
      refine inv_congr hs hphase hcalls fun j m hm => ?_
      by_cases hj : j = k
      · subst hj
        exact .inr ⟨since, table :: rest, results, hk⟩
      · exact .inl (hpending j m hj hm)
    exact inv_setPhase hu (by simp [hphase, hk]) nofun nofun nofun
  | found k tables since deadline hk hids =>
    refine inv_setPhase hs (by simp [hk]) nofun nofun fun ids _ hp own hown => ?_
    cases hp
    obtain ⟨id, hid⟩ := List.exists_mem_of_ne_nil _ hids
    obtain ⟨m, hm, hmatch, -⟩ := mem_snapshotMutationIDs.mp hid
    rw [SeesOwn, hk] at hsees
    exact mem_snapshotMutationIDs.mpr (hsees ⟨m, hm, hmatch⟩ own hown.1 hown.2)
  | gaveUp _ k n hk => exact inv_call hs hk nofun
  | completed _ k ids deadline hk hdone =>
    refine inv_call hs (by simp [hk]) fun _ _ m hm => ?_
    have hin := hs.polled k ids deadline hk m hm
    exact countPendingMutations_eq_zero.mp hdone m hm.1 hm.2.2 hin
  | nothing _ k since deadline hk => exact absurd rfl (hs.dispatched k [] since deadline hk)

private theorem returned_step (cfg : Config) (k : ℕ) (s : State) (a : Action) (t : State)
    (hs : s.phase k = .returned) (h : step cfg s a = some t) : t.phase k = .returned := by
  have hne {j : ℕ} (hj : s.phase j ≠ .returned) : k ≠ j := fun hkj => hj (hkj ▸ hs)
  cases step_change h with
  | quiet _ _ _ hphase _ _ => rw [hphase, hs]
  | advance _ j p hj _ _ _ _ => rw [phase_setPhase_of_ne s j (hne hj), hs]
  | dispatched _ j _ _ _ _ hj u _ hphase _ _ _ =>
    rw [phase_setPhase_of_ne u j (hne (by simp [hj])), hphase, hs]
  | found j _ _ _ hj _ => rw [phase_setPhase_of_ne s j (hne (by simp [hj])), hs]
  | gaveUp _ j _ hj => rw [phase_call_of_ne s j (hne hj), hs]
  | completed _ j _ _ hj _ => rw [phase_call_of_ne s j (hne (by simp [hj])), hs]
  | nothing _ j _ _ hj => rw [phase_call_of_ne s j (hne (by simp [hj])), hs]

/-- A watcher goes from its snapshot to its loop, and from either to its end. -/
theorem waits_step {cfg : Config} {k : ℕ} {s : State} {a : Action} {t : State}
    (hs : (s.phase k).Waits) (h : step cfg s a = some t) :
    t.phase k = s.phase k ∨ t.phase k = .returned ∨
      (∃ tables since deadline, s.phase k = .watching tables since deadline) ∧
        ∃ ids deadline, t.phase k = .polling ids deadline := by
  cases step_change h with
  | quiet _ _ _ hphase _ _ => exact .inl (by rw [hphase])
  | advance _ j p _ hwaits _ _ _ =>
    have hne : k ≠ j := fun hkj => hwaits (hkj ▸ hs)
    exact .inl (phase_setPhase_of_ne s j hne p)
  | dispatched _ j _ _ _ _ hj u _ hphase _ _ _ =>
    have hne : k ≠ j := fun hkj => by simp [hkj, hj, Phase.Waits] at hs
    exact .inl ((phase_setPhase_of_ne u j hne _).trans (by rw [hphase]))
  | found j tables since deadline hj _ =>
    by_cases hkj : k = j
    · subst hkj
      exact .inr (.inr ⟨⟨_, _, _, hj⟩, _, _, phase_setPhase_self s k _⟩)
    · exact .inl (phase_setPhase_of_ne s j hkj _)
  | gaveUp _ j _ _ | completed _ j _ _ _ _ | nothing _ j _ _ _ =>
    by_cases hkj : k = j
    · subst hkj
      exact .inr (.inl (phase_call_self s k _))
    · exact .inl (phase_call_of_ne s j hkj _)

private theorem now_step
    (cfg : Config) (d : ℤ) (s : State) (a : Action) (t : State) (hs : d ≤ s.now)
    (h : step cfg s a = some t) : d ≤ t.now := by
  refine hs.trans ?_
  cases step_change h with
  | quiet _ _ hnow _ _ _ => exact hnow
  | dispatched _ _ _ _ _ _ _ u hnow _ _ _ _ => exact hnow
  | advance | found | gaveUp | completed | nothing => exact le_refl s.now

/-- The clock runs on, the query of the snapshot ends, and a `select` that can always take the
branch of `ctx.Done` takes it. -/
structure FairTo {cfg : Config} (r : Forever (step cfg)) (k : ℕ) : Prop where
  clock : ∀ t, ∃ n, t ≤ (r.state n).now
  snapshot : r.Fair fun a => ∃ ok, a = .snapshot k ok
  expire : r.Fair fun a => ∃ ok, a = .expire k ok

theorem step_snapshot {cfg : Config} {s : State} {k : ℕ} {tables : List String}
    {since deadline : ℤ} (hs : s.phase k = .watching tables since deadline) (ok : Bool) :
    step cfg s (.snapshot k ok) =
      some (waitForCompletion cfg s k tables since deadline ok) := by
  simp only [step, hs]

private theorem step_expire {cfg : Config} {s : State} {k : ℕ} {ids : List String} {deadline : ℤ}
    (hs : s.phase k = .polling ids deadline) (hnow : deadline ≤ s.now) (ok : Bool) :
    step cfg s (.expire k ok) =
      some (s.call k (.timeout (if ok then countPendingMutations s.mutations ids else 0))) := by
  simp only [step, hs, if_pos hnow]

private theorem phase_waitForCompletion (cfg : Config) (s : State) (k : ℕ) (tables : List String)
    (since deadline : ℤ) (ok : Bool) :
    (waitForCompletion cfg s k tables since deadline ok).phase k = .returned ∨
      ∃ ids, (waitForCompletion cfg s k tables since deadline ok).phase k =
        .polling ids deadline := by
  rw [waitForCompletion]
  split
  next => exact .inl (phase_call_self s k _)
  next =>
    generalize (if ok then snapshotMutationIDs cfg s.mutations tables since else []) = ids
    by_cases hids : ids = []
    · exact .inl (by simp [hids, phase_call_self])
    · exact .inr ⟨ids, by simp [hids, phase_setPhase_self]⟩

section Fairness

variable {cfg : Config} {r : Forever (step cfg)} {k : ℕ}

theorem polling_returns (hfair : FairTo r k) {n : ℕ} {ids : List String} {deadline : ℤ}
    (hn : (r.state n).phase k = .polling ids deadline) :
    ∃ m, n ≤ m ∧ (r.state m).phase k = .returned := by
  refine Forever.leaves (fun s => s.phase k = .polling ids deadline)
    (fun s => s.phase k = .returned) hfair.expire (fun s a t hs h => ?_)
    (fun s a t hs ⟨ok, ha⟩ h => ?_) hn fun hstays => ?_
  · obtain hsame | hret | ⟨⟨tables, since, d, hw⟩, -⟩ :=
      waits_step (k := k) (by rw [hs]; trivial) h
    · exact .inl (hsame.trans hs)
    · exact .inr hret
    · exact nomatch hs.symm.trans hw
  · subst ha
    cases moves_of_step h with
    | expired => exact phase_call_self s k _
  · -- once the deadline has passed, `ctx.Done` stays ready
    obtain ⟨l, hl⟩ := hfair.clock deadline
    refine ⟨max n l, le_max_left n l, fun m hm => ?_⟩
    have hnow := r.invariant (now_step cfg deadline) hl ((le_max_right n l).trans hm)
    exact ⟨.expire k true, ⟨true, rfl⟩, _,
      step_expire (hstays m ((le_max_left n l).trans hm)) hnow true⟩

private theorem watching_leaves
    (hfair : FairTo r k) {n : ℕ} {tables : List String} {since deadline : ℤ}
    (hn : (r.state n).phase k = .watching tables since deadline) :
    ∃ m, n ≤ m ∧ ((r.state m).phase k = .returned ∨
      ∃ ids d, (r.state m).phase k = .polling ids d) := by
  refine Forever.leaves (fun s => s.phase k = .watching tables since deadline)
    (fun s => s.phase k = .returned ∨ ∃ ids d, s.phase k = .polling ids d) hfair.snapshot
    (fun s a t hs h => ?_) (fun s a t hs ⟨ok, ha⟩ h => ?_) hn fun hstays => ?_
  · obtain hsame | hret | ⟨-, hpolling⟩ := waits_step (k := k) (by rw [hs]; trivial) h
    · exact .inl (hsame.trans hs)
    · exact .inr (.inl hret)
    · exact .inr (.inr hpolling)
  · subst ha
    obtain rfl := Option.some.inj ((step_snapshot hs ok).symm.trans h)
    exact (phase_waitForCompletion cfg s k tables since deadline ok).imp_right
      fun ⟨ids, hids⟩ => ⟨ids, deadline, hids⟩
  · exact ⟨n, le_refl n, fun m hm =>
      ⟨.snapshot k true, ⟨true, rfl⟩, _, step_snapshot (hstays m hm) true⟩⟩

/-- `WaitForCompletion` returns in every fair run. -/
theorem returns_of_fair (hfair : FairTo r k) {n : ℕ} (hn : ((r.state n).phase k).Waits) :
    ∃ m, n ≤ m ∧ (r.state m).phase k = .returned := by
  cases hp : (r.state n).phase k with
  | watching tables since deadline =>
    obtain ⟨m, hm, hret | ⟨ids, d, hpolling⟩⟩ := watching_leaves hfair hp
    · exact ⟨m, hm, hret⟩
    · obtain ⟨l, hl, hret⟩ := polling_returns hfair hpolling
      exact ⟨l, hm.trans hl, hret⟩
  | polling ids deadline => exact polling_returns hfair hp
  | idle | discovering | dispatching | unwatched | returned =>
    rw [hp] at hn
    exact hn.elim

end Fairness

/-- What is known of a mutation of the request in a phase, if no answer of `Exec` is lost. -/
def Phase.Dates (cfg : Config) : Phase → Mutation → Prop
  | .idle, _ | .discovering _, _ => False
  | .dispatching since _ results, m =>
    m.table ∈ sentTables results ∧ (since + cfg.offset) / nanosPerSecond ≤ m.createTime
  | .watching tables since _, m =>
    m.table ∈ tables ∧ (since + cfg.offset) / nanosPerSecond ≤ m.createTime
  | .unwatched, _ | .polling .., _ | .returned, _ => True

def Phase.dispatchedAt : Phase → Option ℤ
  | .discovering since | .dispatching since _ _ => some since
  | _ => none

structure Timed (cfg : Config) (s : State) : Prop where
  dates : ∀ k, ∀ m ∈ s.mutations, m.request = some k → (s.phase k).Dates cfg m
  past : ∀ k since, (s.phase k).dispatchedAt = some since → since ≤ s.now

private theorem timed_start (cfg : Config) : Timed cfg {} where
  dates _ _ hm := absurd hm List.not_mem_nil
  past _ _ h := nomatch h

theorem timed_setPhase {cfg : Config} {s : State} {k : ℕ} {p : Phase} (hs : Timed cfg s)
    (hdates : ∀ m ∈ s.mutations, m.request = some k → p.Dates cfg m)
    (hpast : ∀ since, p.dispatchedAt = some since → since ≤ s.now) :
    Timed cfg (s.setPhase k p) where
  dates j m hm hj := by
    by_cases hjk : j = k
    · subst hjk
      rw [phase_setPhase_self]
      exact hdates m hm hj
    · rw [phase_setPhase_of_ne s k hjk]
      exact hs.dates j m hm hj
  past j since hj := by
    by_cases hjk : j = k
    · subst hjk
      rw [phase_setPhase_self] at hj
      exact hpast since hj
    · rw [phase_setPhase_of_ne s k hjk] at hj
      exact hs.past j since hj

theorem timed_call {cfg : Config} {s : State} (hs : Timed cfg s) (k : ℕ) (o : Outcome) :
    Timed cfg (s.call k o) := by
  have hcalls : Timed cfg { s with calls := s.calls ++ [⟨k, o⟩] } := ⟨hs.dates, hs.past⟩
  exact timed_setPhase hcalls (fun _ _ _ => trivial) nofun

theorem sentTables_append (results : List EraseResult) (table : String) (outcome : ExecOutcome) :
    sentTables (results ++ [eraseResult (table, outcome.err)]) =
      sentTables results ++ if outcome = .accepted then [table] else [] := by
  cases outcome with
  | accepted | refused | lost =>
    simp [sentTables, eraseResult, ExecOutcome.err, PrivacyRoutes.eraseResult]

theorem timed_alter {cfg : Config} {s : State} {table mutationID : String} {request : Option ℕ}
    (hs : Timed cfg s) (hnew : ∀ k, request = some k → (s.phase k).Dates cfg
      ⟨table, mutationID, (s.now + cfg.offset) / nanosPerSecond, request, false⟩) :
    Timed cfg (s.alter cfg table mutationID request) where
  dates k m hm hk := by
    obtain hm | hm := List.mem_append.mp hm
    · exact hs.dates k m hm hk
    · obtain rfl := List.mem_singleton.mp hm
      exact hnew k hk
  past := hs.past

private theorem timed_exec {cfg : Config} {s : State} {k : ℕ} {since : ℤ} {table : String}
    {rest : List String} {results : List EraseResult} (hs : Timed cfg s)
    (hk : s.phase k = .dispatching since (table :: rest) results) (mutationID : String)
    {outcome : ExecOutcome} (hlost : ∀ err, outcome ≠ .lost err) :
    Timed cfg ((if outcome.created then s.alter cfg table mutationID (some k) else s).setPhase k
      (.dispatching since rest (results ++ [eraseResult (table, outcome.err)]))) := by
  have hsince : since ≤ s.now := hs.past k since (by rw [hk]; rfl)
  have hphase : Timed cfg (s.setPhase k
      (.dispatching since rest (results ++ [eraseResult (table, outcome.err)]))) := by
    refine timed_setPhase hs (fun m hm hreq => ?_) fun d hd => Option.some.inj hd ▸ hsince
    have hdates := hs.dates k m hm hreq
    rw [hk] at hdates
    rw [Phase.Dates, sentTables_append]
    exact ⟨List.mem_append_left _ hdates.1, hdates.2⟩
  cases outcome with
  | refused err => exact hphase
  | lost err => exact absurd rfl (hlost err)
  | accepted =>
    refine timed_alter hphase fun j hj => ?_
    obtain rfl := Option.some.inj hj
    rw [phase_setPhase_self, Phase.Dates, sentTables_append]
    refine ⟨List.mem_append_right _ List.mem_cons_self, ?_⟩
    exact Int.ediv_le_ediv (by decide) (Int.add_le_add_right hsince _)

private theorem request_finish (table mutationID : String) (m : Mutation) :
    (m.finish table mutationID).request = m.request := by
  rw [Mutation.finish]
  split <;> rfl

private theorem dates_finish {cfg : Config} {table mutationID : String} {m : Mutation} {p : Phase} :
    p.Dates cfg (m.finish table mutationID) ↔ p.Dates cfg m := by
  rw [Mutation.finish]
  split
  next => cases p <;> exact Iff.rfl
  next => exact Iff.rfl

private theorem timed_waitForCompletion {cfg : Config} {s : State} (hs : Timed cfg s) (k : ℕ)
    (tables : List String) (since deadline : ℤ) (ok : Bool) :
    Timed cfg (waitForCompletion cfg s k tables since deadline ok) := by
  rw [waitForCompletion]
  split
  next => exact timed_call hs k _
  next =>
    generalize (if ok then snapshotMutationIDs cfg s.mutations tables since else []) = ids
    by_cases hids : ids = []
    · simp only [hids, if_true]
      exact timed_call hs k _
    · simp only [hids, if_false]
      exact timed_setPhase hs (fun _ _ _ => trivial) nofun

private theorem timed_step (cfg : Config) (s : State) (a : Action) (t : State) (hs : Timed cfg s)
    (hlost : ∀ k id err, a ≠ .exec k id (.lost err)) (h : step cfg s a = some t) :
    Timed cfg t := by
  cases moves_of_step h with
  | tick d =>
    exact ⟨hs.dates, fun k since hk =>
      (hs.past k since hk).trans (Int.le_add_of_nonneg_right (Int.natCast_nonneg d))⟩
  | @erase k hk =>
    refine timed_setPhase hs (fun m hm hreq => ?_) fun since hsince => ?_
    · have hdates := hs.dates k m hm hreq
      rw [hk] at hdates
      exact hdates
    · exact (Option.some.inj hsince).ge
  | undiscovered | unspawned => exact timed_setPhase hs (fun _ _ _ => trivial) nofun
  | @discovered k since tables hk =>
    have hpast := hs.past k since (by rw [hk]; rfl)
    refine timed_setPhase hs (fun m hm hreq => ?_) fun d hd => Option.some.inj hd ▸ hpast
    have hdates := hs.dates k m hm hreq
    rw [hk] at hdates
    exact hdates.elim
  | @exec k _ _ _ _ mutationID outcome hk =>
    exact timed_exec hs hk mutationID fun err herr => hlost k mutationID err (herr ▸ rfl)
  | @spawned k since results hk =>
    rw [spawnCompletionWatcher]
    split
    next => exact timed_setPhase hs (fun _ _ _ => trivial) nofun
    next =>
      refine timed_setPhase hs (fun m hm hreq => ?_) nofun
      have hdates := hs.dates k m hm hreq
      rw [hk] at hdates
      exact hdates
  | snapshot ok => exact timed_waitForCompletion hs _ _ _ _ ok
  | done | expired => exact timed_call hs _ _
  | polled => exact hs
  | alter => exact timed_alter hs nofun
  | complete =>
    refine ⟨fun k m hm hreq => ?_, hs.past⟩
    obtain ⟨m', hm', rfl⟩ := List.mem_map.mp hm
    rw [request_finish] at hreq
    exact dates_finish.mpr (hs.dates k m' hm' hreq)

/-- Where ClickHouse's clock is not behind, the bound time does not lie after its second and no
answer of `Exec` is lost, every snapshot sees the mutations of its request. -/
theorem seesOwn_of_clock {cfg : Config} (hoffset : 0 ≤ cfg.offset)
    (hbind : ∀ since, cfg.bindTime since ≤ toDateTime since) {actions : List Action}
    (hlost : ∀ a ∈ actions, ∀ k id err, a ≠ .exec k id (.lost err)) :
    Along (step cfg) (SeesOwn cfg) {} actions := by
  have htimed := Along.strengthen (timed_step cfg) (along_of_labels hlost) (timed_start cfg)
  refine htimed.mono fun s a ⟨hs, _⟩ => ?_
  cases a with
  | snapshot k ok =>
    cases ok with
    | false => trivial
    | true =>
      cases hk : s.phase k with
      | watching tables since deadline =>
        rw [SeesOwn, hk]
        intro _ own hown ⟨hreq, _⟩
        have hdates := hs.dates k own hown hreq
        rw [hk] at hdates
        have hsecond : since / nanosPerSecond ≤ own.createTime :=
          (Int.ediv_le_ediv (by decide) (Int.le_add_of_nonneg_right hoffset)).trans hdates.2
        have hbound : cfg.bindTime since ≤ own.createTime * nanosPerSecond :=
          (hbind since).trans (Int.mul_le_mul_of_nonneg_right hsecond (by decide))
        exact ⟨own, hown, ⟨hdates.1, hbound⟩, rfl⟩
      | idle | discovering | dispatching | unwatched | polling | returned =>
        rw [SeesOwn, hk]
        trivial
  | tick | erase | discover | exec | add | poll | expire | alter | complete => trivial

private theorem mem_map_finish
    {mutations : List Mutation} {table mutationID : String} {m : Mutation}
    (hm : m.isDone = false) : m ∈ mutations.map (Mutation.finish table mutationID) ↔
      m ∈ mutations ∧ ¬ (m.table = table ∧ m.mutationID = mutationID) := by
  constructor
  · intro h
    obtain ⟨m', hm', rfl⟩ := List.mem_map.mp h
    have heq := isDone_finish hm
    rw [heq] at hm ⊢
    refine ⟨hm', fun hkey => ?_⟩
    rw [Mutation.finish, if_pos hkey] at heq
    exact Bool.noConfusion ((congrArg Mutation.isDone heq).trans hm)
  · rintro ⟨h, hkey⟩
    exact List.mem_map.mpr ⟨m, h, if_neg hkey⟩

/-- The mutations `ends` may all end. -/
theorem exec_complete (cfg : Config) (ends : List Mutation) (s : State) :
    ∃ t, exec (step cfg) s (ends.map fun e => .complete e.table e.mutationID) = some t ∧
      t.phase = s.phase ∧ ∀ m, m.isDone = false → (m ∈ t.mutations ↔ m ∈ s.mutations ∧
        ∀ e ∈ ends, ¬ (m.table = e.table ∧ m.mutationID = e.mutationID)) := by
  induction ends generalizing s with
  | nil => exact ⟨s, rfl, rfl, fun m _ => by simp⟩
  | cons e ends ih =>
    obtain ⟨t, ht, hphase, hmem⟩ :=
      ih { s with mutations := s.mutations.map (Mutation.finish e.table e.mutationID) }
    refine ⟨t, exec_cons.mpr ⟨_, rfl, ht⟩, hphase, fun m hm => ?_⟩
    rw [hmem m hm, mem_map_finish hm, List.forall_mem_cons, and_assoc]

/-- Behind a snapshot that misses a mutation of its request, the request may be reported as
completed while that mutation runs. -/
theorem untruthful_of_missed {cfg : Config} {s t : State} {k : ℕ}
    (h : step cfg s (.snapshot k true) = some t) (hmiss : ¬ SeesOwn cfg s (.snapshot k true)) :
    ∃ actions u, exec (step cfg) t actions = some u ∧ ¬ Truthful u := by
  obtain ⟨tables, since, deadline, hs⟩ :
      ∃ tables since deadline, s.phase k = .watching tables since deadline := by
    cases moves_of_step h with
    | snapshot _ hs => exact ⟨_, _, _, hs⟩
  simp only [SeesOwn, hs, Phase.Sees, not_forall, not_exists, not_and] at hmiss
  obtain ⟨⟨m, hm, hmatch⟩, own, hown, ⟨hreq, hpending⟩, hunseen⟩ := hmiss
  set ids := snapshotMutationIDs cfg s.mutations tables since with hids
  have hfound : ids ≠ [] := List.ne_nil_of_mem (mem_snapshotMutationIDs.mpr ⟨m, hm, hmatch, rfl⟩)
  have hmissed : own.mutationID ∉ ids := fun hin => by
    obtain ⟨m, hm, hmatch, heq⟩ := mem_snapshotMutationIDs.mp hin
    exact hunseen m hm hmatch heq
  have htables : tables ≠ [] := List.ne_nil_of_mem hmatch.1
  have ht : t = s.setPhase k (.polling ids deadline) := by
    rw [step_snapshot hs true, waitForCompletion, if_neg htables] at h
    simpa only [if_true, ← hids, if_neg hfound] using (Option.some.inj h).symm
  -- all that the watcher polls ends, and the mutation that it does not poll runs on
  obtain ⟨u, hu, hphase, hmem⟩ :=
    exec_complete cfg (s.mutations.filter fun e => e.mutationID ∈ ids) t
  have hpolling : u.phase k = .polling ids deadline := by
    rw [hphase, ht, phase_setPhase_self]
  have hdone : countPendingMutations u.mutations ids = 0 := by
    refine countPendingMutations_eq_zero.mpr fun e he hrun hin => ?_
    obtain ⟨hes, hnot⟩ := (hmem e hrun).mp he
    rw [ht] at hes
    exact hnot e (List.mem_filter.mpr ⟨hes, decide_eq_true hin⟩) ⟨rfl, rfl⟩
  have hstill : own ∈ u.mutations := by
    refine (hmem own hpending).mpr ⟨ht ▸ hown, fun e he hkey => hmissed ?_⟩
    exact hkey.2 ▸ of_decide_eq_true (List.mem_filter.mp he).2
  refine ⟨_ ++ [.poll k true], u.call k (.completed ids.length), exec_append.mpr ⟨u, hu, ?_⟩,
    fun hall => ?_⟩
  · simp only [exec, step, hpolling, hdone, and_self, if_true, Option.bind_some]
  · exact hall k ids.length (List.mem_append_right _ List.mem_cons_self) own
      ⟨hstill, hreq, hpending⟩

/-- The watchers report once each, and truthfully as long as their snapshots see the mutations
of their requests: as they do where ClickHouse's clock is not behind and no answer of `Exec` is
lost. Behind a snapshot that misses one, a request may be reported as completed too early. -/
theorem reports_truthfully (cfg : Config) :
    (∀ actions t, exec (step cfg) {} actions = some t →
      Along (step cfg) (SeesOwn cfg) {} actions → Truthful t ∧ Once t) ∧
    (0 ≤ cfg.offset → (∀ since, cfg.bindTime since ≤ toDateTime since) →
      ∀ actions, (∀ a ∈ actions, ∀ k id err, a ≠ .exec k id (.lost err)) →
        ∀ t, exec (step cfg) {} actions = some t → Truthful t ∧ Once t) ∧
    (∀ s t k, step cfg s (.snapshot k true) = some t → ¬ SeesOwn cfg s (.snapshot k true) →
      ∃ actions u, exec (step cfg) t actions = some u ∧ ¬ Truthful u) ∧
    ∀ r : Forever (step cfg), r.state 0 = {} → ∀ k, FairTo r k →
      ∀ n, ((r.state n).phase k).Waits →
        ∃ m, n ≤ m ∧ ∀ l, m ≤ l → ((r.state l).callsOf k).length = 1 := by
  have hreports (actions : List Action) (t : State) (h : exec (step cfg) {} actions = some t)
      (hsees : Along (step cfg) (SeesOwn cfg) {} actions) : Truthful t ∧ Once t := by
    have ht := exec_guarded (inv_step cfg) hsees h inv_start
    exact ⟨ht.truthful, ht.once⟩
  refine ⟨hreports, fun hoffset hbind actions hlost t h => ?_, fun s t k => untruthful_of_missed,
    fun r hstart k hfair n hn => ?_⟩
  · exact hreports actions t h (seesOwn_of_clock hoffset hbind hlost)
  · obtain ⟨m, hm, hret⟩ := returns_of_fair hfair hn
    refine ⟨m, hm, fun l hl => ?_⟩
    have honce : Once (r.state l) := r.invariant (once_step cfg) (hstart ▸ once_start) l.zero_le
    rw [honce k, if_pos (r.invariant (returned_step cfg k) hret hl)]

/-- A request at 5.2 s, of whose two statements the second is dispatched at 6.1 s. -/
def lateStatement : List Action :=
  [.tick 5200000000, .erase 0, .discover 0 (some ["events_raw", "events_archive"]),
    .exec 0 "mutation_7.txt" .accepted, .tick 900000000, .exec 0 "mutation_3.txt" .accepted,
    .add 0 true, .snapshot 0 true, .complete "events_archive" "mutation_3.txt", .tick 250000000,
    .poll 0 true]

/-- With the clocks together the snapshot sees both mutations, and the request is reported as
completed when both have ended. -/
theorem reports_truthfully_together :
    ∃ t, exec (step ⟨0, toDateTime⟩) {}
        (lateStatement.dropLast ++ [.complete "events_raw" "mutation_7.txt", .poll 0 true]) =
          some t ∧
      t.calls = [⟨0, .completed 2⟩] ∧ Truthful t ∧ Once t := by
  have hrun : (exec (step ⟨0, toDateTime⟩) {} (lateStatement.dropLast ++
      [.complete "events_raw" "mutation_7.txt", .poll 0 true])).map State.calls =
        some [⟨0, .completed 2⟩] := by
    decide +kernel
  obtain ⟨t, ht, hcalls⟩ := Option.map_eq_some_iff.mp hrun
  exact ⟨t, ht, hcalls, (reports_truthfully ⟨0, toDateTime⟩).2.1 (le_refl 0) (fun _ => le_refl _) _
    (by simp [lateStatement]) t ht⟩

/-- ClickHouse's clock is a second behind. What is dispatched at 5.2 s is created at second 4,
before the second in which the request began. -/
def behind : Config := ⟨-10 ^ 9, toDateTime⟩

private theorem exec_lateStatement :
    (exec (step behind) {} lateStatement).map (fun t => (t.calls, t.mutations)) =
      some ([⟨0, .completed 1⟩],
        [⟨"events_raw", "mutation_7.txt", 4, some 0, false⟩,
          ⟨"events_archive", "mutation_3.txt", 5, some 0, true⟩]) := by
  decide +kernel

/-- The request is reported as completed while one of its mutations runs. -/
theorem completed_while_pending :
    ¬ ∀ cfg actions t, exec (step cfg) {} actions = some t → Truthful t ∧ Once t := by
  intro h
  obtain ⟨t, ht, heq⟩ := Option.map_eq_some_iff.mp exec_lateStatement
  obtain ⟨hcalls, hmutations⟩ := Prod.mk.inj heq
  refine (h behind lateStatement t ht).1 0 1 ?_
    ⟨"events_raw", "mutation_7.txt", 4, some 0, false⟩ ⟨?_, rfl, rfl⟩
  · rw [hcalls]
    exact List.mem_cons_self
  · rw [hmutations]
    exact List.mem_cons_self

end Statnive.ErasureWatch
