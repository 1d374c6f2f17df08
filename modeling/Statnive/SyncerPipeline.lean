import Statnive.GroupSyncer
import Statnive.ListAccounting

/-!
# The pipeline inside the group syncer

A request waits in the queue, has its append tried, is synced with its batch, is answered,
and what is durable is handed on. `Pipe` holds what lies in each of these stages and
`Effect` is what one step of the syncer does to it. The trace and the pipe together
account for every request.
-/

namespace Statnive.SyncerPipeline

open LabelledRuns IngestEvents SegmentedLog WriteAheadLog GroupSyncer

@[simp] def accepts : Event → List WalReq
  | .accepted r => [r]
  | _ => []

/-- The requests whose `Append` was called. -/
@[simp] def tries : Event → List WalReq
  | .appended r _ => [r]
  | .appendFailed r => [r]
  | _ => []

@[simp] def uses : Event → List ℕ
  | .appended _ i => [i]
  | _ => []

/-- The requests of a batch whose `Sync` returned. -/
@[simp] def syncs : Event → List WalReq
  | .syncOk batch => batch
  | .syncFailed batch => batch
  | _ => []

@[simp] def answers : Event → List WalReq
  | .answered r _ => [r]
  | _ => []

/-- The envelope of a request that was answered `a`. -/
def envelopeOf (r : WalReq) (a : WalAck) : List WALEnvelope :=
  if a.err = none then [⟨a.idx, r.ev⟩] else []

/-- The envelopes acked durable. -/
@[simp] def durables : Event → List WALEnvelope
  | .answered r a => envelopeOf r a
  | _ => []

@[simp] def delivers : Event → List WALEnvelope
  | .delivered env => [env]
  | _ => []

@[simp] def drops : Event → List WALEnvelope
  | .dropped env => [env]
  | _ => []

/-- The envelopes the loop is done with. -/
@[simp] def handles : Event → List WALEnvelope
  | .delivered env => [env]
  | .dropped env => [env]
  | _ => []

def acceptedOf (tr : List Event) : List WalReq := tr.flatMap accepts
def triedOf (tr : List Event) : List WalReq := tr.flatMap tries
def indicesOf (tr : List Event) : List ℕ := tr.flatMap uses
def syncedOf (tr : List Event) : List WalReq := tr.flatMap syncs
def answeredOf (tr : List Event) : List WalReq := tr.flatMap answers
def durableOf (tr : List Event) : List WALEnvelope := tr.flatMap durables
def deliveredOf (tr : List Event) : List WALEnvelope := tr.flatMap delivers
def droppedOf (tr : List Event) : List WALEnvelope := tr.flatMap drops
def handledOf (tr : List Event) : List WALEnvelope := tr.flatMap handles

@[simp] theorem acceptedOf_snoc (tr : List Event) (e : Event) :
    acceptedOf (tr ++ [e]) = acceptedOf tr ++ accepts e := by
  simp [acceptedOf]

@[simp] theorem triedOf_snoc (tr : List Event) (e : Event) :
    triedOf (tr ++ [e]) = triedOf tr ++ tries e := by
  simp [triedOf]

@[simp] theorem indicesOf_snoc (tr : List Event) (e : Event) :
    indicesOf (tr ++ [e]) = indicesOf tr ++ uses e := by
  simp [indicesOf]

@[simp] theorem syncedOf_snoc (tr : List Event) (e : Event) :
    syncedOf (tr ++ [e]) = syncedOf tr ++ syncs e := by
  simp [syncedOf]

@[simp] theorem answeredOf_snoc (tr : List Event) (e : Event) :
    answeredOf (tr ++ [e]) = answeredOf tr ++ answers e := by
  simp [answeredOf]

@[simp] theorem durableOf_snoc (tr : List Event) (e : Event) :
    durableOf (tr ++ [e]) = durableOf tr ++ durables e := by
  simp [durableOf]

@[simp] theorem deliveredOf_snoc (tr : List Event) (e : Event) :
    deliveredOf (tr ++ [e]) = deliveredOf tr ++ delivers e := by
  simp [deliveredOf]

@[simp] theorem droppedOf_snoc (tr : List Event) (e : Event) :
    droppedOf (tr ++ [e]) = droppedOf tr ++ drops e := by
  simp [droppedOf]

@[simp] theorem handledOf_snoc (tr : List Event) (e : Event) :
    handledOf (tr ++ [e]) = handledOf tr ++ handles e := by
  simp [handledOf]

/-- The event of an `Append`. -/
def outcome (it : Item) : Event :=
  if it.err = none then .appended it.req it.idx else .appendFailed it.req

/-- `started` says that the `Sync` of the untouched batch `unsynced` has begun, and
`unanswered` carries the answers as they will be sent. -/
structure Pipe where
  queue : List WalReq
  unsynced : List Item := []
  started : Bool := false
  unanswered : List (WalReq × WalAck) := []
  undelivered : List WALEnvelope := []

def pipe (s : State) : Pipe :=
  match s.phase with
  | .appending done todo _ => { queue := todo ++ s.pending ++ s.incoming, unsynced := done }
  | .syncing batch _ =>
    { queue := s.pending ++ s.incoming, unsynced := batch, started := true }
  | .acking done todo _ =>
    { queue := s.pending ++ s.incoming
      unanswered := todo.map (fun it => (it.req, it.ack))
      undelivered := envelopes done }
  | .failing todo e _ =>
    { queue := s.pending ++ s.incoming, unanswered := todo.map (fun r => (r, ⟨0, some e⟩)) }
  | .delivering todo _ => { queue := s.pending ++ s.incoming, undelivered := todo }
  | _ => { queue := s.pending ++ s.incoming }

theorem pipe_select {s : State} (h : s.phase = .select) :
    pipe s = { queue := s.pending ++ s.incoming } := by
  simp [pipe, h]

theorem pipe_fatal {s : State} {k : Resume} (h : s.phase = .fatal k) :
    pipe s = { queue := s.pending ++ s.incoming } := by
  simp [pipe, h]

theorem pipe_appending {s : State} {done : List Item} {todo : List WalReq} {k : Resume}
    (h : s.phase = .appending done todo k) :
    pipe s = { queue := todo ++ s.pending ++ s.incoming, unsynced := done } := by
  simp [pipe, h]

theorem pipe_syncing {s : State} {batch : List Item} {k : Resume} (h : s.phase = .syncing batch k) :
    pipe s = { queue := s.pending ++ s.incoming, unsynced := batch, started := true } := by
  simp [pipe, h]

theorem pipe_acking {s : State} {done todo : List Item} {k : Resume}
    (h : s.phase = .acking done todo k) :
    pipe s =
      { queue := s.pending ++ s.incoming
        unanswered := todo.map (fun it => (it.req, it.ack))
        undelivered := envelopes done } := by
  simp [pipe, h]

theorem pipe_failing {s : State} {todo : List WalReq} {e : Err} {k : Resume}
    (h : s.phase = .failing todo e k) :
    pipe s =
      { queue := s.pending ++ s.incoming, unanswered := todo.map (fun r => (r, ⟨0, some e⟩)) } := by
  simp [pipe, h]

theorem pipe_delivering {s : State} {todo : List WALEnvelope} {k : Resume}
    (h : s.phase = .delivering todo k) :
    pipe s = { queue := s.pending ++ s.incoming, undelivered := todo } := by
  simp [pipe, h]

/-- `Append` was called on `it`, and `it` carries the index at which it succeeded. -/
structure Tried (act : Action) (w w' : WALWriter EnrichedEvent) (it : Item) : Prop where
  ok : it.err = none → it.idx = w.nextIdx ∧ w'.nextIdx = w.nextIdx + 1
  failed : it.err ≠ none → w'.nextIdx = w.nextIdx
  wrote : ∃ env res, act = .append env ∧ (it.err = none → res = .ok ()) ∧
    WriteEnd w.log w.nextIdx it.req.ev env (res, w'.log)

/-- Nothing was written to the log. -/
structure WalKept (w w' : WALWriter EnrichedEvent) : Prop where
  nextIdx : w'.nextIdx = w.nextIdx
  log : w'.log = w.log ∨ ∃ fmt n fault, w'.log = (w.log.truncateFront fmt n fault).2

/-- A call that was there keeps everything but its context, a new one has done nothing. -/
structure CallsKept (s t : State) : Prop where
  old : ∀ (c : ℕ) (k : Call), s.calls[c]? = some k →
    ∃ k', t.calls[c]? = some k' ∧ k'.ev = k.ev ∧ k'.ack = k.ack
  new : ∀ (c : ℕ) (k' : Call), t.calls[c]? = some k' →
    (∃ k, s.calls[c]? = some k ∧ k'.status = k.status ∧ k'.ack = k.ack) ∨
      s.calls.length ≤ c ∧ k'.status = .enqueueing ∧ k'.ack = none

/-- What one step of the syncer does to its pipe, its log, its callers and its trace. -/
inductive Effect (s : State) (act : Action) (t : State) : Prop
  | idle (hpipe : pipe t = pipe s) (htr : t.trace = s.trace) (hwal : WalKept s.wal t.wal)
      (hcalls : CallsKept s t)
  | accepted (c : ℕ) (k : Call) (hk : s.calls[c]? = some k) (hst : k.status = .enqueueing)
      (hpipe : pipe t = { pipe s with queue := (pipe s).queue ++ [⟨c, k.ev⟩] })
      (htr : t.trace = s.trace ++ [.accepted ⟨c, k.ev⟩]) (hwal : t.wal = s.wal)
      (hcalls : t.calls = s.calls.modify c (fun k => { k with status := .waiting }))
  | tried (it : Item) (q : List WalReq) (hq : (pipe s).queue = it.req :: q)
      (hun : (pipe s).started = false)
      (hpipe : pipe t = { pipe s with queue := q, unsynced := (pipe s).unsynced ++ [it] })
      (htr : t.trace = s.trace ++ [outcome it]) (hwal : Tried act s.wal t.wal it)
      (hcalls : t.calls = s.calls)
  | syncStarted (hpipe : pipe t = { pipe s with started := true })
      (htr : t.trace = s.trace ++ [.syncStarted (reqs (pipe s).unsynced)])
      (hwal : t.wal = s.wal) (hcalls : t.calls = s.calls)
  | syncOk (hst : (pipe s).started = true) (hun : (pipe s).unanswered = [])
      (hpipe : pipe t = { pipe s with
        unsynced := []
        started := false
        unanswered := (pipe s).unsynced.map (fun it => (it.req, it.ack)) })
      (htr : t.trace = s.trace ++ [.syncOk (reqs (pipe s).unsynced)])
      (hwal : t.wal = s.wal) (hcalls : t.calls = s.calls)
  | syncFailed (e : Err) (hun : (pipe s).unanswered = [])
      (hpipe : pipe t = { pipe s with
        unsynced := []
        started := false
        unanswered := (reqs (pipe s).unsynced).map (fun r => (r, ⟨0, some e⟩)) })
      (htr : t.trace = s.trace ++ [.syncFailed (reqs (pipe s).unsynced)])
      (hwal : t.wal = s.wal) (hcalls : t.calls = s.calls)
  | answered (r : WalReq) (a : WalAck) (rest : List (WalReq × WalAck))
      (hun : (pipe s).unanswered = (r, a) :: rest)
      (hpipe : pipe t = { pipe s with
        unanswered := rest
        undelivered := (pipe s).undelivered ++ envelopeOf r a })
      (htr : t.trace = s.trace ++ [.answered r a]) (hwal : t.wal = s.wal)
      (hcalls : t.calls = s.calls.modify r.id (fun k => { k with ack := some a }))
  | handled (env : WALEnvelope) (rest : List WALEnvelope)
      (hun : (pipe s).undelivered = env :: rest)
      (hpipe : pipe t = { pipe s with undelivered := rest })
      (htr : t.trace = s.trace ++ [.delivered env] ∧ act = .deliver ∨
        t.trace = s.trace ++ [.dropped env] ∧ act = .dropDelivery)
      (hwal : t.wal = s.wal) (hcalls : t.calls = s.calls)
  | returned (c : ℕ) (k : Call) (a : WalAck) (hk : s.calls[c]? = some k)
      (ha : k.ack = some a ∨ a.err ≠ none) (hpipe : pipe t = pipe s)
      (htr : t.trace = s.trace ++ [.returned c a]) (hwal : t.wal = s.wal)
      (hcalls : t.calls = s.calls.modify c (fun k => { k with status := .returned a }))

theorem WalKept.refl (w : WALWriter EnrichedEvent) : WalKept w w := ⟨rfl, .inl rfl⟩

theorem CallsKept.of_eq {s t : State} (h : t.calls = s.calls) : CallsKept s t := by
  constructor
  · intro c k hk
    exact ⟨k, by rw [h, hk], rfl, rfl⟩
  · intro c k' hk
    exact .inl ⟨k', by rw [← h, hk], rfl, rfl⟩

private theorem callsKept_call (s : State) (ev : EnrichedEvent) :
    CallsKept s { s with calls := s.calls ++ [⟨ev, false, .enqueueing, none⟩] } := by
  constructor
  · intro c k hk
    have hlt : c < s.calls.length := (List.getElem?_eq_some_iff.mp hk).1
    exact ⟨k, by simp [List.getElem?_append_left hlt, hk], rfl, rfl⟩
  · intro c k' hk
    by_cases hlt : c < s.calls.length
    · rw [List.getElem?_append_left hlt] at hk
      exact .inl ⟨k', hk, rfl, rfl⟩
    · have hle : s.calls.length ≤ c := Nat.le_of_not_lt hlt
      rw [List.getElem?_append_right hle] at hk
      obtain rfl := List.mem_singleton.mp (List.mem_of_getElem? hk)
      exact .inr ⟨hle, rfl, rfl⟩

private theorem callsKept_cancel (s : State) (c : ℕ) :
    CallsKept s { s with calls := s.calls.modify c (fun k => { k with ctxDone := true }) } := by
  constructor
  · intro d k hk
    refine ⟨if c = d then { k with ctxDone := true } else k, ?_, by split <;> rfl, by split <;> rfl⟩
    simp [List.getElem?_modify, hk]
  · intro d k' hk
    simp only [List.getElem?_modify, Option.map_eq_map, Option.map_eq_some_iff] at hk
    obtain ⟨k, hk, rfl⟩ := hk
    exact .inl ⟨k, hk, by split <;> rfl, by split <;> rfl⟩

@[simp] theorem resume_trace (k : Resume) (s : State) : (resume k s).trace = s.trace := by
  cases k <;> rfl

@[simp] theorem resume_wal (k : Resume) (s : State) : (resume k s).wal = s.wal := by
  cases k <;> rfl

@[simp] theorem resume_calls (k : Resume) (s : State) : (resume k s).calls = s.calls := by
  cases k <;> rfl

@[simp] theorem resume_stopped (k : Resume) (s : State) : (resume k s).stopped = s.stopped := by
  cases k <;> rfl

@[simp] theorem pipe_resume (k : Resume) (s : State) :
    pipe (resume k s) = { queue := s.pending ++ s.incoming } := by
  cases k <;> rfl

@[simp] theorem flush_trace (k : Resume) (s : State) : (flush k s).trace = s.trace := by
  unfold flush
  split <;> simp

@[simp] theorem flush_wal (k : Resume) (s : State) : (flush k s).wal = s.wal := by
  unfold flush
  split <;> simp

@[simp] theorem flush_calls (k : Resume) (s : State) : (flush k s).calls = s.calls := by
  unfold flush
  split <;> simp

@[simp] theorem flush_stopped (k : Resume) (s : State) : (flush k s).stopped = s.stopped := by
  unfold flush
  split <;> simp

@[simp] theorem pipe_flush (k : Resume) (s : State) :
    pipe (flush k s) = { queue := s.pending ++ s.incoming } := by
  unfold flush
  split
  · simp
  · simp [pipe]

@[simp] theorem feed_trace (todo : List WALEnvelope) (k : Resume) (s : State) :
    (feed todo k s).trace = s.trace := by
  unfold feed
  split <;> simp

@[simp] theorem feed_wal (todo : List WALEnvelope) (k : Resume) (s : State) :
    (feed todo k s).wal = s.wal := by
  unfold feed
  split <;> simp

@[simp] theorem feed_calls (todo : List WALEnvelope) (k : Resume) (s : State) :
    (feed todo k s).calls = s.calls := by
  unfold feed
  split <;> simp

@[simp] theorem feed_stopped (todo : List WALEnvelope) (k : Resume) (s : State) :
    (feed todo k s).stopped = s.stopped := by
  unfold feed
  split <;> simp

@[simp] theorem pipe_feed (todo : List WALEnvelope) (k : Resume) (s : State) :
    pipe (feed todo k s) = { queue := s.pending ++ s.incoming, undelivered := todo } := by
  unfold feed
  split
  · simp [*]
  · simp [pipe]

theorem effect_of_idle {s t : State} {a : Action} (hpipe : pipe t = pipe s)
    (htr : t.trace = s.trace) (hwal : t.wal = s.wal) (hcalls : t.calls = s.calls) :
    Effect s a t :=
  .idle hpipe htr (hwal ▸ .refl _) (.of_eq hcalls)

private theorem envelopes_snoc (done : List Item) (it : Item) :
    envelopes (done ++ [it]) = envelopes done ++ envelopeOf it.req it.ack := by
  cases h : it.err <;> simp [envelopes, envelopeOf, Item.ack, h]

private theorem effect_appendNext {s : State} {done : List Item} {r : WalReq} {todo : List WalReq}
    {k : Resume} (env : WriteEnv) (hp : s.phase = .appending done (r :: todo) k) :
    Effect s (.append env) (appendNext done r todo k env s) := by
  have hs := pipe_appending hp
  have hq : (pipe s).queue = r :: (todo ++ s.pending ++ s.incoming) := by simp [hs]
  have hun : (pipe s).started = false := by simp [hs]
  unfold appendNext
  split
  · rename_i w happ
    obtain ⟨hwrote, hnext⟩ := WALWriter.append_end happ
    rw [if_pos rfl] at hnext
    have hidx : w.currentIndex = s.wal.nextIdx := by simp [WALWriter.currentIndex, hnext]
    refine .tried ⟨r, w.currentIndex, none⟩ _ hq hun ?_ ?_ ?_ rfl
    · rw [hs, pipe_appending rfl]
    · rw [hidx]
      rfl
    · exact ⟨fun _ => ⟨hidx, hnext⟩, by simp, env, _, rfl, fun _ => rfl, hwrote⟩
  · rename_i e w happ
    obtain ⟨hwrote, hnext⟩ := WALWriter.append_end happ
    rw [if_neg (by simp)] at hnext
    refine .tried ⟨r, 0, some (.wal e)⟩ _ hq hun ?_ rfl ?_ rfl
    · rw [hs, pipe_appending rfl]
    · exact ⟨by simp, fun _ => hnext, env, _, rfl, by simp, hwrote⟩

private theorem effect_answer_acking {s : State} {done : List Item} {it : Item} {todo : List Item}
    {k : Resume} (hp : s.phase = .acking done (it :: todo) k) :
    Effect s .answer (if todo = [] then feed (envelopes (done ++ [it])) k (send it.req it.ack s)
      else { send it.req it.ack s with phase := .acking (done ++ [it]) todo k }) := by
  have hs := pipe_acking hp
  refine .answered it.req it.ack (todo.map (fun it => (it.req, it.ack))) ?_ ?_ ?_ ?_ ?_
  · rw [hs]
    rfl
  · rw [hs, ← envelopes_snoc]
    split
    · rw [pipe_feed, ‹todo = []›]
      rfl
    · rw [pipe_acking rfl]
      rfl
  all_goals split <;> simp [send]

private theorem effect_answer_failing
    {s : State} {r : WalReq} {todo : List WalReq} {e : Err} {k : Resume}
    (hp : s.phase = .failing (r :: todo) e k) :
    Effect s .answer { send r ⟨0, some e⟩ s with
      phase := if todo = [] then .fatal k else .failing todo e k } := by
  have hs := pipe_failing hp
  refine .answered r ⟨0, some e⟩ (todo.map (fun r => (r, ⟨0, some e⟩))) ?_ ?_ rfl rfl rfl
  · rw [hs]
    rfl
  · rw [hs]
    by_cases htodo : todo = []
    · rw [pipe_fatal (k := k) (by simp [htodo])]
      simp [send, envelopeOf, htodo]
    · rw [if_neg htodo, pipe_failing rfl]
      simp [send, envelopeOf]

private theorem loopMove_effect {cfg : Config} {s t : State} {a : Action} (h : LoopMove cfg s a t) :
    Effect s a t := by
  cases h with
  | stop hp => exact effect_of_idle (by simp [pipe_select hp]) (by simp) (by simp) (by simp)
  | recvFlush r rest hp hi =>
    exact effect_of_idle (by simp [pipe_select hp, hi]) (by simp) (by simp) (by simp)
  | recvWait r rest hp hi =>
    exact effect_of_idle (by simp [pipe, hp, hi]) rfl rfl rfl
  | timer hp => exact effect_of_idle (by simp [pipe_select hp]) (by simp) (by simp) (by simp)
  | append done r todo k fault hp => exact effect_appendNext fault hp
  | syncBegin done k hp =>
    have hs := pipe_appending hp
    exact .syncStarted (by rw [hs, pipe_syncing rfl]; rfl) (by rw [hs]) rfl rfl
  | syncOk batch k ok hp =>
    have hs := pipe_syncing hp
    exact .syncOk (by rw [hs]) (by rw [hs]) (by rw [hs, pipe_acking rfl]; rfl) (by rw [hs])
      rfl rfl
  | syncFailed batch k ok e hp =>
    have hs := pipe_syncing hp
    exact .syncFailed (.wal e) (by rw [hs]) (by rw [hs, pipe_failing rfl]) (by rw [hs]) rfl rfl
  | answerItem done it todo k hp => exact effect_answer_acking hp
  | answerFailed r todo e k hp => exact effect_answer_failing hp
  | exitReturns k hp =>
    exact effect_of_idle (by simp [pipe_fatal hp]) (by simp) (by simp) (by simp)
  | exit k hp => exact effect_of_idle (by rw [pipe_fatal hp]; rfl) rfl rfl rfl
  | deliver env todo k hp =>
    have hs := pipe_delivering hp
    exact .handled env todo (by rw [hs]) (by simp [hs]) (.inl ⟨by simp, rfl⟩) (by simp) (by simp)
  | drop env todo k hp =>
    have hs := pipe_delivering hp
    exact .handled env todo (by rw [hs]) (by simp [hs]) (.inr ⟨by simp, rfl⟩) (by simp) (by simp)

private theorem outerMove_effect
    {cfg : Config} {s t : State} {a : Action} (h : OuterMove cfg s a t) :
    Effect s a t := by
  cases h with
  | call ev => exact .idle rfl rfl (.refl _) (callsKept_call s ev)
  | cancel c => exact .idle rfl rfl (.refl _) (callsKept_cancel s c)
  | enqueue c k hc hst =>
    refine .accepted c k hc hst ?_ rfl rfl rfl
    cases hp : s.phase <;> simp [pipe, accept, hp]
  | enqueueDone c k hc => exact .returned c k _ hc (.inr (by simp)) rfl rfl rfl rfl
  | enqueueStopped c k hc => exact .returned c k _ hc (.inr (by simp)) rfl rfl rfl rfl
  | receive c k a hc _ hack => exact .returned c k a hc (.inl hack) rfl rfl rfl rfl
  | waitDone c k hc => exact .returned c k _ hc (.inr (by simp)) rfl rfl rfl rfl
  | close => exact effect_of_idle rfl rfl rfl rfl
  | consume => exact effect_of_idle rfl rfl rfl rfl
  | walAck throughIndex fault =>
    obtain ⟨hnext, hlog⟩ := s.wal.ack_cases cfg.format throughIndex fault
    refine .idle rfl rfl ⟨hnext, ?_⟩ (.of_eq rfl)
    exact hlog.imp_right fun ⟨n, _, heq⟩ => ⟨cfg.format, n, fault, heq⟩

theorem step_effect {cfg : Config} {s t : State} {a : Action} (h : step cfg s a = some t) :
    Effect s a t :=
  (step_move h).elim loopMove_effect outerMove_effect

/-- What the write of an action meets. -/
def writeEnv : Action → Option WriteEnv
  | .append env => some env
  | _ => none

/-- No write of an entry to a file of the log fails. -/
def WritesThrough (a : Action) : Prop := ∀ env ∈ writeEnv a, env.Spared

instance : DecidablePred WritesThrough := fun a =>
  inferInstanceAs (Decidable (∀ env ∈ writeEnv a, env.Spared))

theorem WalKept.inOrder {w w' : WALWriter EnrichedEvent} (h : WalKept w w') (hw : w.log.InOrder) :
    w'.log.InOrder ∧ ∀ i data, w.log.Holds i data → w'.log.Holds i data := by
  rcases h.log with hsame | ⟨fmt, n, fault, hcut⟩
  · rw [hsame]
    exact ⟨hw, fun _ _ => id⟩
  · rw [hcut]
    exact ⟨hw.truncated fmt n fault, fun _ _ hholds => hholds.truncateFront hw fmt n fault⟩

theorem Tried.inOrder {a : Action} {w w' : WALWriter EnrichedEvent} {it : Item}
    (h : Tried a w w' it) (hw : w.log.InOrder) (ha : WritesThrough a) : w'.log.InOrder ∧
      (∀ i data, w.log.Holds i data → w'.log.Holds i data) ∧
      (it.err = none → w'.log.Holds it.idx it.req.ev) := by
  obtain ⟨env, res, rfl, hres, hwrote⟩ := h.wrote
  refine ⟨hwrote.inOrder hw (ha env rfl), fun _ _ hholds => hholds.write hwrote, fun hnone => ?_⟩
  obtain ⟨hindex, -, hentries⟩ := hwrote.ok (hres hnone)
  rw [(h.ok hnone).1, hindex]
  exact hw.holds_last hwrote.first hentries

/-- A step whose writes go through keeps the log in order, and what is at its index. -/
theorem inOrder_step {cfg : Config} {s t : State} {a : Action} (h : step cfg s a = some t)
    (hs : s.wal.log.InOrder) (ha : WritesThrough a) : t.wal.log.InOrder ∧
      ∀ i data, s.wal.log.Holds i data → t.wal.log.Holds i data := by
  have hsame : t.wal = s.wal → t.wal.log.InOrder ∧
      ∀ i data, s.wal.log.Holds i data → t.wal.log.Holds i data := by
    intro heq
    rw [heq]
    exact ⟨hs, fun _ _ => id⟩
  cases step_effect h with
  | idle _ _ hwal => exact hwal.inOrder hs
  | tried it q _ _ _ _ hwal =>
    obtain ⟨horder, hkeeps, -⟩ := hwal.inOrder hs ha
    exact ⟨horder, hkeeps⟩
  | accepted _ _ _ _ _ _ hwal => exact hsame hwal
  | syncStarted _ _ hwal => exact hsame hwal
  | syncOk _ _ _ _ hwal => exact hsame hwal
  | syncFailed _ _ _ _ hwal => exact hsame hwal
  | answered _ _ _ _ _ _ hwal => exact hsame hwal
  | handled _ _ _ _ _ hwal => exact hsame hwal
  | returned _ _ _ _ _ _ _ hwal => exact hsame hwal

/-- What entered a stage has left it or lies in it, in the order in which it entered. -/
structure Accounted (s : State) : Prop where
  accepted : acceptedOf s.trace = triedOf s.trace ++ (pipe s).queue
  tried : triedOf s.trace = syncedOf s.trace ++ reqs (pipe s).unsynced
  synced : syncedOf s.trace = answeredOf s.trace ++ (pipe s).unanswered.map Prod.fst
  durable : durableOf s.trace = handledOf s.trace ++ (pipe s).undelivered

theorem accounted_init (l : Log EnrichedEvent) : Accounted (init l) := ⟨rfl, rfl, rfl, rfl⟩

theorem accounted_step (cfg : Config) (s : State) (a : Action) (t : State) (hs : Accounted s)
    (h : step cfg s a = some t) : Accounted t := by
  obtain ⟨hacc, htried, hsync, hdur⟩ := hs
  cases step_effect h with
  | idle hpipe htr =>
    constructor <;> rw [htr, hpipe] <;> assumption
  | accepted c k _ _ hpipe htr =>
    constructor <;> rw [htr, hpipe]
    · simp [hacc]
    · simpa using htried
    · simpa using hsync
    · simpa using hdur
  | tried it q hq _ hpipe htr =>
    unfold outcome at htr
    split at htr
    all_goals
      constructor <;> rw [htr, hpipe]
      · simp [hacc, hq]
      · simp [htried, reqs]
      · simpa using hsync
      · simpa using hdur
  | syncStarted hpipe htr =>
    constructor <;> rw [htr, hpipe]
    · simpa using hacc
    · simpa using htried
    · simpa using hsync
    · simpa using hdur
  | syncOk _ hun hpipe htr =>
    constructor <;> rw [htr, hpipe]
    · simpa using hacc
    · simpa [reqs] using htried
    · simp [hsync, hun, reqs, Function.comp_def]
    · simpa using hdur
  | syncFailed e hun hpipe htr =>
    constructor <;> rw [htr, hpipe]
    · simpa using hacc
    · simpa [reqs] using htried
    · simp [hsync, hun, reqs, Function.comp_def]
    · simpa using hdur
  | answered r a rest hun hpipe htr =>
    constructor <;> rw [htr, hpipe]
    · simpa using hacc
    · simpa using htried
    · simp [hsync, hun]
    · simp [hdur]
  | handled env rest hun hpipe htr =>
    rcases htr with ⟨htr, -⟩ | ⟨htr, -⟩
    all_goals
      constructor <;> rw [htr, hpipe]
      · simpa using hacc
      · simpa using htried
      · simpa using hsync
      · simp [hdur, hun]
  | returned c k a _ _ hpipe htr =>
    constructor <;> rw [htr, hpipe]
    · simpa using hacc
    · simpa using htried
    · simpa using hsync
    · simpa using hdur

end Statnive.SyncerPipeline
