import Statnive.LabelledRuns
import Statnive.IngestEvents
import Statnive.WriteAheadLog

/-!
# The group syncer

`GroupSyncer` with its callers as one state machine. The loop goroutine is blocked at a
`Phase`; each call of `AppendAndWait` is blocked in one of its two selects or has
returned; an action is one step of one party, with the branch its select takes or the
outcome of its call of the log. The consumer truncates the log at any time. The trace
records what happened to each request.
-/

namespace Statnive.GroupSyncer

open LabelledRuns IngestEvents SegmentedLog WriteAheadLog

/-- `exitReturns` says that `exitFn` is the one of the tests; that of production ends
the process. `format` is how the files of the log are read. -/
structure Config where
  batchMax : ℕ
  incomingBuffer : ℕ
  outBuffer : ℕ
  exitReturns : Bool
  format : Format EnrichedEvent := .strict

/-- The defaults of `NewGroupSyncer`. -/
def newConfig (batchMax incomingBuffer outBuffer : ℤ) (exitReturns : Bool) : Config where
  batchMax := if batchMax ≤ 0 then 256 else batchMax.toNat
  incomingBuffer := if incomingBuffer ≤ 0 then 4096 else incomingBuffer.toNat
  outBuffer := if outBuffer ≤ 0 then 4096 else outBuffer.toNat
  exitReturns := exitReturns

inductive Err where
  | wal (e : LogError) | ctx | stopped
  deriving DecidableEq

/-- `walAck`, which is also the result of `AppendAndWait`. -/
structure WalAck where
  idx : ℕ
  err : Option Err
  deriving DecidableEq

/-- `id` is the number of the call, which stands for the channel `ack`. -/
structure WalReq where
  id : ℕ
  ev : EnrichedEvent
  deriving DecidableEq

/-- A request of a batch with its entries of `indices` and `appendErrs`. -/
structure Item where
  req : WalReq
  idx : ℕ
  err : Option Err
  deriving DecidableEq

def Item.ack (it : Item) : WalAck := ⟨it.idx, it.err⟩

/-- Where `flush` returns to: the next round of the loop, or the `return` after it. -/
inductive Resume where
  | loop | ret
  deriving DecidableEq

inductive Phase where
  | select
  | appending (done : List Item) (todo : List WalReq) (k : Resume)
  | syncing (batch : List Item) (k : Resume)
  | acking (done todo : List Item) (k : Resume)
  | failing (todo : List WalReq) (e : Err) (k : Resume)
  | fatal (k : Resume)
  | delivering (todo : List WALEnvelope) (k : Resume)
  | returned
  | exited
  deriving DecidableEq

inductive CallStatus where
  | enqueueing | waiting | returned (a : WalAck)
  deriving DecidableEq

/-- One call of `AppendAndWait`; `ack` is the content of its channel. -/
structure Call where
  ev : EnrichedEvent
  ctxDone : Bool
  status : CallStatus
  ack : Option WalAck
  deriving DecidableEq

inductive Event where
  | accepted (r : WalReq)
  | appended (r : WalReq) (idx : ℕ)
  | appendFailed (r : WalReq)
  | syncStarted (batch : List WalReq)
  | syncOk (batch : List WalReq)
  | syncFailed (batch : List WalReq)
  | answered (r : WalReq) (a : WalAck)
  | returned (c : ℕ) (a : WalAck)
  | delivered (env : WALEnvelope)
  | dropped (env : WALEnvelope)
  deriving DecidableEq

structure State where
  wal : WALWriter EnrichedEvent
  incoming : List WalReq
  out : List WALEnvelope
  stopped : Bool
  phase : Phase
  pending : List WalReq
  timerActive : Bool
  calls : List Call
  trace : List Event
  deriving DecidableEq

/-- A syncer over the log that `Open` returned. -/
def init (l : Log EnrichedEvent) : State :=
  ⟨newWALWriter l, [], [], false, .select, [], false, [], []⟩

inductive Action where
  | call (ev : EnrichedEvent)
  | cancel (c : ℕ)
  | enqueue (c : ℕ)
  | enqueueDone (c : ℕ)
  | enqueueStopped (c : ℕ)
  | receive (c : ℕ)
  | waitDone (c : ℕ)
  | close
  | loopStop
  | loopRecv
  | loopTimer
  | append (env : WriteEnv)
  | syncBegin
  | syncEnd (ok : Bool)
  | answer
  | exit
  | deliver
  | dropDelivery
  | consume
  | walAck (throughIndex : ℕ) (fault : TruncateFault)
  deriving DecidableEq

def resume (k : Resume) (s : State) : State :=
  match k with
  | .loop => { s with phase := .select }
  | .ret => { s with phase := .returned }

/-- `flush` empties `pending` at its start here, at its end in the source. -/
def flush (k : Resume) (s : State) : State :=
  if s.pending = [] then resume k s
  else { s with phase := .appending [] s.pending k, pending := [] }

def reqs (batch : List Item) : List WalReq := batch.map Item.req

/-- What `flush` sends on `out` for a batch. -/
def envelopes (batch : List Item) : List WALEnvelope :=
  (batch.filter (fun it => it.err.isNone)).map (fun it => ⟨it.idx, it.req.ev⟩)

def accept (r : WalReq) (s : State) : State :=
  { s with
    incoming := s.incoming ++ [r]
    calls := s.calls.modify r.id (fun k => { k with status := .waiting })
    trace := s.trace ++ [.accepted r] }

/-- The call `c` returns `a`. -/
def ret (c : ℕ) (a : WalAck) (s : State) : State :=
  { s with
    calls := s.calls.modify c (fun k => { k with status := .returned a })
    trace := s.trace ++ [.returned c a] }

/-- `req.ack <- a`. The channel has room for one answer and nobody else sends on it. -/
def send (r : WalReq) (a : WalAck) (s : State) : State :=
  { s with
    calls := s.calls.modify r.id (fun k => { k with ack := some a })
    trace := s.trace ++ [.answered r a] }

/-- The next round of the loop that feeds `out`. -/
def feed (todo : List WALEnvelope) (k : Resume) (s : State) : State :=
  if todo = [] then resume k s else { s with phase := .delivering todo k }

/-- `Append` of the next request of the batch, and then `CurrentIndex`. -/
def appendNext (done : List Item) (r : WalReq) (todo : List WalReq) (k : Resume)
    (env : WriteEnv) (s : State) : State :=
  match s.wal.append r.ev env with
  | (.ok (), w) =>
    { s with
      wal := w
      phase := .appending (done ++ [⟨r, w.currentIndex, none⟩]) todo k
      trace := s.trace ++ [.appended r s.wal.nextIdx] }
  | (.error e, w) =>
    { s with
      wal := w
      phase := .appending (done ++ [⟨r, 0, some (.wal e)⟩]) todo k
      trace := s.trace ++ [.appendFailed r] }

/-- The step of the loop goroutine on each of its actions. -/
def loopStep (cfg : Config) (s : State) : Action → Option State
  | .loopStop => match s.phase with
    | .select => if s.stopped then some (flush .ret s) else none
    | _ => none
  | .loopRecv => match s.phase, s.incoming with
    | .select, r :: rest =>
      let s' := { s with incoming := rest, pending := s.pending ++ [r] }
      some (if cfg.batchMax ≤ s'.pending.length then flush .loop { s' with timerActive := false }
        else { s' with timerActive := true })
    | _, _ => none
  | .loopTimer => match s.phase with
    | .select => if s.timerActive then some (flush .loop { s with timerActive := false }) else none
    | _ => none
  | .append env => match s.phase with
    | .appending done (r :: todo) k => some (appendNext done r todo k env s)
    | _ => none
  | .syncBegin => match s.phase with
    | .appending done [] k =>
      some { s with phase := .syncing done k, trace := s.trace ++ [.syncStarted (reqs done)] }
    | _ => none
  | .syncEnd ok => match s.phase with
    | .syncing batch k => match s.wal.sync ok with
      | .ok () =>
        some { s with phase := .acking [] batch k, trace := s.trace ++ [.syncOk (reqs batch)] }
      | .error e =>
        some { s with
          phase := .failing (reqs batch) (.wal e) k
          trace := s.trace ++ [.syncFailed (reqs batch)] }
    | _ => none
  | .answer => match s.phase with
    | .acking done (it :: todo) k =>
      let s' := send it.req it.ack s
      some (if todo = [] then feed (envelopes (done ++ [it])) k s'
        else { s' with phase := .acking (done ++ [it]) todo k })
    | .failing (r :: todo) e k =>
      let s' := send r ⟨0, some e⟩ s
      some { s' with phase := if todo = [] then .fatal k else .failing todo e k }
    | _ => none
  | .exit => match s.phase with
    | .fatal k => some (if cfg.exitReturns then resume k s else { s with phase := .exited })
    | _ => none
  | .deliver => match s.phase with
    | .delivering (env :: todo) k =>
      if s.out.length < cfg.outBuffer then
        some (feed todo k { s with out := s.out ++ [env], trace := s.trace ++ [.delivered env] })
      else none
    | _ => none
  | .dropDelivery => match s.phase with
    | .delivering (env :: todo) k =>
      if s.stopped then some (feed todo k { s with trace := s.trace ++ [.dropped env] }) else none
    | _ => none
  | _ => none

/-- The step of the other parties. -/
def outerStep (cfg : Config) (s : State) : Action → Option State
  | .call ev => some { s with calls := s.calls ++ [⟨ev, false, .enqueueing, none⟩] }
  | .cancel c => some { s with calls := s.calls.modify c (fun k => { k with ctxDone := true }) }
  | .enqueue c => match s.calls[c]? with
    | some ⟨ev, _, .enqueueing, _⟩ =>
      if s.incoming.length < cfg.incomingBuffer then some (accept ⟨c, ev⟩ s) else none
    | _ => none
  | .enqueueDone c => match s.calls[c]? with
    | some ⟨_, true, .enqueueing, _⟩ => some (ret c ⟨0, some .ctx⟩ s)
    | _ => none
  | .enqueueStopped c => match s.calls[c]? with
    | some ⟨_, _, .enqueueing, _⟩ => if s.stopped then some (ret c ⟨0, some .stopped⟩ s) else none
    | _ => none
  | .receive c => match s.calls[c]? with
    | some ⟨_, _, .waiting, some a⟩ => some (ret c a s)
    | _ => none
  | .waitDone c => match s.calls[c]? with
    | some ⟨_, true, .waiting, _⟩ => some (ret c ⟨0, some .ctx⟩ s)
    | _ => none
  | .close => some { s with stopped := true }
  | .consume => match s.out with
    | _ :: rest => some { s with out := rest }
    | [] => none
  | .walAck throughIndex fault =>
    some { s with wal := (s.wal.ack cfg.format throughIndex fault).2 }
  | _ => none

/-- Nothing happens in a process that has exited. -/
def step (cfg : Config) (s : State) (a : Action) : Option State :=
  if s.phase = .exited then none else (loopStep cfg s a).or (outerStep cfg s a)

/-- What the loop goroutine can do, one constructor for each branch of `loopStep`. -/
inductive LoopMove (cfg : Config) (s : State) : Action → State → Prop
  | stop (hp : s.phase = .select) (hstop : s.stopped = true) :
      LoopMove cfg s .loopStop (flush .ret s)
  | recvFlush (r : WalReq) (rest : List WalReq) (hp : s.phase = .select)
      (hi : s.incoming = r :: rest) (hfull : cfg.batchMax ≤ (s.pending ++ [r]).length) :
      LoopMove cfg s .loopRecv (flush .loop
        { s with incoming := rest, pending := s.pending ++ [r], timerActive := false })
  | recvWait (r : WalReq) (rest : List WalReq) (hp : s.phase = .select)
      (hi : s.incoming = r :: rest) (hroom : (s.pending ++ [r]).length < cfg.batchMax) :
      LoopMove cfg s .loopRecv
        { s with incoming := rest, pending := s.pending ++ [r], timerActive := true }
  | timer (hp : s.phase = .select) (htimer : s.timerActive = true) :
      LoopMove cfg s .loopTimer (flush .loop { s with timerActive := false })
  | append (done : List Item) (r : WalReq) (todo : List WalReq) (k : Resume) (env : WriteEnv)
      (hp : s.phase = .appending done (r :: todo) k) :
      LoopMove cfg s (.append env) (appendNext done r todo k env s)
  | syncBegin (done : List Item) (k : Resume) (hp : s.phase = .appending done [] k) :
      LoopMove cfg s .syncBegin
        { s with phase := .syncing done k, trace := s.trace ++ [.syncStarted (reqs done)] }
  | syncOk (batch : List Item) (k : Resume) (ok : Bool) (hp : s.phase = .syncing batch k)
      (hsync : s.wal.sync ok = .ok ()) :
      LoopMove cfg s (.syncEnd ok)
        { s with phase := .acking [] batch k, trace := s.trace ++ [.syncOk (reqs batch)] }
  | syncFailed (batch : List Item) (k : Resume) (ok : Bool) (e : LogError)
      (hp : s.phase = .syncing batch k) (hsync : s.wal.sync ok = .error e) :
      LoopMove cfg s (.syncEnd ok)
        { s with
          phase := .failing (reqs batch) (.wal e) k
          trace := s.trace ++ [.syncFailed (reqs batch)] }
  | answerItem (done : List Item) (it : Item) (todo : List Item) (k : Resume)
      (hp : s.phase = .acking done (it :: todo) k) :
      LoopMove cfg s .answer
        (if todo = [] then feed (envelopes (done ++ [it])) k (send it.req it.ack s)
          else { send it.req it.ack s with phase := .acking (done ++ [it]) todo k })
  | answerFailed (r : WalReq) (todo : List WalReq) (e : Err) (k : Resume)
      (hp : s.phase = .failing (r :: todo) e k) :
      LoopMove cfg s .answer
        { send r ⟨0, some e⟩ s with phase := if todo = [] then .fatal k else .failing todo e k }
  | exitReturns (k : Resume) (hp : s.phase = .fatal k) (hret : cfg.exitReturns = true) :
      LoopMove cfg s .exit (resume k s)
  | exit (k : Resume) (hp : s.phase = .fatal k) (hret : cfg.exitReturns = false) :
      LoopMove cfg s .exit { s with phase := .exited }
  | deliver (env : WALEnvelope) (todo : List WALEnvelope) (k : Resume)
      (hp : s.phase = .delivering (env :: todo) k) (hroom : s.out.length < cfg.outBuffer) :
      LoopMove cfg s .deliver
        (feed todo k { s with out := s.out ++ [env], trace := s.trace ++ [.delivered env] })
  | drop (env : WALEnvelope) (todo : List WALEnvelope) (k : Resume)
      (hp : s.phase = .delivering (env :: todo) k) (hstop : s.stopped = true) :
      LoopMove cfg s .dropDelivery (feed todo k { s with trace := s.trace ++ [.dropped env] })

private theorem loopStep_move {cfg : Config} {s t : State} {a : Action}
    (h : loopStep cfg s a = some t) : LoopMove cfg s a t := by
  cases a with
  | loopStop =>
    cases hp : s.phase <;> simp only [loopStep, hp, Option.ite_none_right_eq_some,
      Option.some.injEq, reduceCtorEq] at h
    obtain ⟨hstop, rfl⟩ := h
    exact .stop hp hstop
  | loopRecv =>
    cases hp : s.phase <;> cases hi : s.incoming <;> simp only [loopStep, hp, hi,
      Option.some.injEq, reduceCtorEq] at h
    rename_i r rest
    subst h
    split
    · exact .recvFlush r rest hp hi ‹_›
    · have hmove := LoopMove.recvWait r rest hp hi (Nat.lt_of_not_le ‹_›)
      rwa [hp] at hmove
  | loopTimer =>
    cases hp : s.phase <;> simp only [loopStep, hp, Option.ite_none_right_eq_some,
      Option.some.injEq, reduceCtorEq] at h
    obtain ⟨htimer, rfl⟩ := h
    exact .timer hp htimer
  | append env =>
    cases hp : s.phase with
    | appending done todo k =>
      cases todo with
      | nil => simp [loopStep, hp] at h
      | cons r todo =>
        simp only [loopStep, hp, Option.some.injEq] at h
        exact h ▸ .append done r todo k env hp
    | _ => simp [loopStep, hp] at h
  | syncBegin =>
    cases hp : s.phase with
    | appending done todo k =>
      cases todo with
      | nil =>
        simp only [loopStep, hp, Option.some.injEq] at h
        exact h ▸ .syncBegin done k hp
      | cons r todo => simp [loopStep, hp] at h
    | _ => simp [loopStep, hp] at h
  | syncEnd ok =>
    cases hp : s.phase with
    | syncing batch k =>
      simp only [loopStep, hp] at h
      split at h
      · exact Option.some.inj h ▸ .syncOk batch k ok hp ‹_›
      · exact Option.some.inj h ▸ .syncFailed batch k ok _ hp ‹_›
    | _ => simp [loopStep, hp] at h
  | answer =>
    cases hp : s.phase with
    | acking done todo k =>
      cases todo with
      | nil => simp [loopStep, hp] at h
      | cons it todo =>
        simp only [loopStep, hp, Option.some.injEq] at h
        exact h ▸ .answerItem done it todo k hp
    | failing todo e k =>
      cases todo with
      | nil => simp [loopStep, hp] at h
      | cons r todo =>
        simp only [loopStep, hp, Option.some.injEq] at h
        exact h ▸ .answerFailed r todo e k hp
    | _ => simp [loopStep, hp] at h
  | exit =>
    cases hp : s.phase <;> simp only [loopStep, hp, Option.some.injEq, reduceCtorEq] at h
    rename_i k
    subst h
    split
    · exact .exitReturns k hp ‹_›
    · exact .exit k hp (Bool.eq_false_iff.mpr ‹_›)
  | deliver =>
    cases hp : s.phase with
    | delivering todo k =>
      cases todo with
      | nil => simp [loopStep, hp] at h
      | cons env todo =>
        simp only [loopStep, hp, Option.ite_none_right_eq_some, Option.some.injEq] at h
        obtain ⟨hroom, rfl⟩ := h
        exact .deliver env todo k hp hroom
    | _ => simp [loopStep, hp] at h
  | dropDelivery =>
    cases hp : s.phase with
    | delivering todo k =>
      cases todo with
      | nil => simp [loopStep, hp] at h
      | cons env todo =>
        simp only [loopStep, hp, Option.ite_none_right_eq_some, Option.some.injEq] at h
        obtain ⟨hstop, rfl⟩ := h
        exact .drop env todo k hp hstop
    | _ => simp [loopStep, hp] at h
  | _ => simp [loopStep] at h

/-- What the other parties can do, one constructor for each branch of `outerStep`. -/
inductive OuterMove (cfg : Config) (s : State) : Action → State → Prop
  | call (ev : EnrichedEvent) :
      OuterMove cfg s (.call ev) { s with calls := s.calls ++ [⟨ev, false, .enqueueing, none⟩] }
  | cancel (c : ℕ) :
      OuterMove cfg s (.cancel c)
        { s with calls := s.calls.modify c (fun k => { k with ctxDone := true }) }
  | enqueue (c : ℕ) (k : Call) (hc : s.calls[c]? = some k) (hst : k.status = .enqueueing)
      (hroom : s.incoming.length < cfg.incomingBuffer) :
      OuterMove cfg s (.enqueue c) (accept ⟨c, k.ev⟩ s)
  | enqueueDone (c : ℕ) (k : Call) (hc : s.calls[c]? = some k) (hst : k.status = .enqueueing)
      (hdone : k.ctxDone = true) :
      OuterMove cfg s (.enqueueDone c) (ret c ⟨0, some .ctx⟩ s)
  | enqueueStopped (c : ℕ) (k : Call) (hc : s.calls[c]? = some k) (hst : k.status = .enqueueing)
      (hstop : s.stopped = true) :
      OuterMove cfg s (.enqueueStopped c) (ret c ⟨0, some .stopped⟩ s)
  | receive (c : ℕ) (k : Call) (a : WalAck) (hc : s.calls[c]? = some k)
      (hst : k.status = .waiting) (hack : k.ack = some a) :
      OuterMove cfg s (.receive c) (ret c a s)
  | waitDone (c : ℕ) (k : Call) (hc : s.calls[c]? = some k) (hst : k.status = .waiting)
      (hdone : k.ctxDone = true) :
      OuterMove cfg s (.waitDone c) (ret c ⟨0, some .ctx⟩ s)
  | close : OuterMove cfg s .close { s with stopped := true }
  | consume (env : WALEnvelope) (rest : List WALEnvelope) (hout : s.out = env :: rest) :
      OuterMove cfg s .consume { s with out := rest }
  | walAck (throughIndex : ℕ) (fault : TruncateFault) :
      OuterMove cfg s (.walAck throughIndex fault)
        { s with wal := (s.wal.ack cfg.format throughIndex fault).2 }

private theorem outerStep_move {cfg : Config} {s t : State} {a : Action}
    (h : outerStep cfg s a = some t) : OuterMove cfg s a t := by
  cases a with
  | call ev => exact Option.some.inj h ▸ .call ev
  | cancel c => exact Option.some.inj h ▸ .cancel c
  | enqueue c =>
    simp only [outerStep] at h
    split at h
    · rename_i hc
      obtain ⟨hroom, heq⟩ := Option.ite_none_right_eq_some.mp h
      exact Option.some.inj heq ▸ .enqueue c _ hc rfl hroom
    · simp at h
  | enqueueDone c =>
    simp only [outerStep] at h
    split at h
    · rename_i hc
      exact Option.some.inj h ▸ .enqueueDone c _ hc rfl rfl
    · simp at h
  | enqueueStopped c =>
    simp only [outerStep] at h
    split at h
    · rename_i hc
      obtain ⟨hstop, heq⟩ := Option.ite_none_right_eq_some.mp h
      exact Option.some.inj heq ▸ .enqueueStopped c _ hc rfl hstop
    · simp at h
  | receive c =>
    simp only [outerStep] at h
    split at h
    · rename_i hc
      exact Option.some.inj h ▸ .receive c _ _ hc rfl rfl
    · simp at h
  | waitDone c =>
    simp only [outerStep] at h
    split at h
    · rename_i hc
      exact Option.some.inj h ▸ .waitDone c _ hc rfl rfl
    · simp at h
  | close => exact Option.some.inj h ▸ .close
  | consume =>
    simp only [outerStep] at h
    split at h
    · rename_i env rest hout
      exact Option.some.inj h ▸ .consume env rest hout
    · simp at h
  | walAck throughIndex fault => exact Option.some.inj h ▸ .walAck throughIndex fault
  | _ => simp [outerStep] at h

/-- A step is one of the loop goroutine or one of the other parties. -/
theorem step_move {cfg : Config} {s t : State} {a : Action} (h : step cfg s a = some t) :
    LoopMove cfg s a t ∨ OuterMove cfg s a t := by
  unfold step at h
  split at h
  · simp at h
  · rcases Option.or_eq_some_iff.mp h with h | ⟨-, h⟩
    · exact .inl (loopStep_move h)
    · exact .inr (outerStep_move h)

end Statnive.GroupSyncer
