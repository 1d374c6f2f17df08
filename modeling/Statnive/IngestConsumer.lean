import Statnive.LabelledRuns
import Statnive.IngestEvents
import Statnive.ListAccounting

/-!
# The ingest consumer

`Consumer.Run`, `Consumer.drain` and `Consumer.insertWithRetry` as one state machine.
A state is the point the goroutine is blocked at together with the variables of `Run`;
an action is what unblocks it: an envelope, a closed channel, a timer, a branch of a
select, the outcome of one `InsertBatch` attempt. The context of `Run` may be cancelled
between any two of them. The batch keeps whole envelopes, so that statements can name
the index of a row; the source keeps the events alone.
-/

namespace Statnive.IngestConsumer

open LabelledRuns IngestEvents ListAccounting

structure Config where
  batchRows : ℕ
  batchMaxBytes : ℕ
  deriving DecidableEq

/-- The defaults of `NewConsumer`. -/
def newConfig (batchRows batchMaxBytes : ℤ) : Config where
  batchRows := if batchRows ≤ 0 then 1000 else batchRows.toNat
  batchMaxBytes := if batchMaxBytes ≤ 0 then 10 * 1024 * 1024 else batchMaxBytes.toNat

/-- The backoff schedule in milliseconds. -/
def chInsertRetryDelays : List ℕ := [100, 500, 2000]

def attempts : ℕ := chInsertRetryDelays.length + 1

/-- Where `flush` returns to: the select of `Run`, the select of `drain`, or the
`wal.Sync` that ends either of them. -/
inductive Resume where
  | run | drain | exit
  deriving DecidableEq

/-- Where the goroutine is blocked. `insert` and `backoff` are the two points inside
`insertWithRetry`. -/
inductive Phase where
  | run
  | drain
  | insert (attempt : ℕ) (k : Resume)
  | backoff (attempt : ℕ) (k : Resume)
  | returned
  deriving DecidableEq

/-- What the consumer did, in order: an envelope it took from the channel, a batch for
which `insertWithRetry` returned nil or an error, a call of `WALWriter.Ack`. -/
inductive Output where
  | received (env : WALEnvelope)
  | inserted (batch : List WALEnvelope)
  | failed (batch : List WALEnvelope)
  | ack (throughIndex : ℕ)
  | sync
  deriving DecidableEq

structure State where
  phase : Phase
  ctxDone : Bool
  batch : List WALEnvelope
  lastWALIdx : ℕ
  batchBytes : ℕ
  trace : List Output
  deriving DecidableEq

def init : State := ⟨.run, false, [], 0, 0, []⟩

inductive Action where
  | cancel
  | recv (env : WALEnvelope)
  | recvClosed
  | tick
  | ctxDone
  | settle
  | insertBatch (ok : Bool)
  | retryAfter
  | parentDone
  deriving DecidableEq

def resume (k : Resume) (s : State) : State :=
  match k with
  | .run => { s with phase := .run }
  | .drain => { s with phase := .drain }
  | .exit => { s with phase := .returned, trace := s.trace ++ [.sync] }

/-- An empty batch makes `flush` return at once. -/
def flush (k : Resume) (s : State) : State :=
  if s.batch = [] then resume k s else { s with phase := .insert 0 k }

def add (env : WALEnvelope) (s : State) : State :=
  { s with
    lastWALIdx := env.idx
    batch := s.batch ++ [env]
    batchBytes := s.batchBytes + approxRowBytes env.ev
    trace := s.trace ++ [.received env] }

/-- The result of `add` in the source: whether the size trigger fires. -/
def full (cfg : Config) (s : State) : Bool :=
  decide (cfg.batchRows ≤ s.batch.length) || decide (cfg.batchMaxBytes ≤ s.batchBytes)

/-- The batch has been inserted: `flush` acks the WAL through the last index it took
and empties the batch. -/
def ackBatch (s : State) : State :=
  { s with
    batch := []
    batchBytes := 0
    trace := s.trace ++ .inserted s.batch ::
      (if 0 < s.lastWALIdx then [.ack s.lastWALIdx] else []) }

/-- The batch has been given up: `flush` empties it and acks nothing. -/
def dropBatch (s : State) : State :=
  { s with batch := [], batchBytes := 0, trace := s.trace ++ [.failed s.batch] }

def step (cfg : Config) (s : State) : Action → Option State
  | .cancel => some { s with ctxDone := true }
  | .recv env => match s.phase with
    | .run =>
      let s' := add env s
      some (if full cfg s' then flush .run s' else s')
    | .drain =>
      let s' := add env s
      some (if full cfg s' then flush .drain s' else s')
    | _ => none
  | .recvClosed => match s.phase with
    | .run | .drain => some (flush .exit s)
    | _ => none
  | .tick => match s.phase with
    | .run => some (flush .run s)
    | _ => none
  | .ctxDone => match s.phase with
    | .run => if s.ctxDone then some { s with phase := .drain } else none
    | _ => none
  | .settle => match s.phase with
    | .drain => some (flush .exit s)
    | _ => none
  | .insertBatch ok => match s.phase with
    | .insert attempt k =>
      if ok then some (resume k (ackBatch s))
      else if attempt = attempts - 1 then some (resume k (dropBatch s))
      else some { s with phase := .backoff attempt k }
    | _ => none
  | .retryAfter => match s.phase with
    | .backoff attempt k => some { s with phase := .insert (attempt + 1) k }
    | _ => none
  | .parentDone => match s.phase with
    | .backoff _ k => if s.ctxDone then some (resume k (dropBatch s)) else none
    | _ => none

def receivedOf (tr : List Output) : List WALEnvelope :=
  tr.filterMap (fun o => match o with | .received env => some env | _ => none)

def insertedOf (tr : List Output) : List WALEnvelope :=
  tr.flatMap (fun o => match o with | .inserted batch => batch | _ => [])

def failedOf (tr : List Output) : List WALEnvelope :=
  tr.flatMap (fun o => match o with | .failed batch => batch | _ => [])

/-- The rows of every finished flush, whatever its outcome. -/
def flushedOf (tr : List Output) : List WALEnvelope :=
  tr.flatMap (fun o => match o with | .inserted batch | .failed batch => batch | _ => [])

@[simp] theorem receivedOf_nil : receivedOf [] = [] := rfl
@[simp] theorem insertedOf_nil : insertedOf [] = [] := rfl
@[simp] theorem failedOf_nil : failedOf [] = [] := rfl

@[simp] theorem receivedOf_append (tr tr' : List Output) :
    receivedOf (tr ++ tr') = receivedOf tr ++ receivedOf tr' := by simp [receivedOf]

@[simp] theorem insertedOf_append (tr tr' : List Output) :
    insertedOf (tr ++ tr') = insertedOf tr ++ insertedOf tr' := by simp [insertedOf]

@[simp] theorem failedOf_append (tr tr' : List Output) :
    failedOf (tr ++ tr') = failedOf tr ++ failedOf tr' := by simp [failedOf]

@[simp] theorem flushedOf_append (tr tr' : List Output) :
    flushedOf (tr ++ tr') = flushedOf tr ++ flushedOf tr' := by simp [flushedOf]

private theorem flushedOf_perm (tr : List Output) :
    (flushedOf tr).Perm (insertedOf tr ++ failedOf tr) := by
  induction tr with
  | nil => exact .refl _
  | cons o tr ih =>
    cases o with
    | inserted batch => simpa [flushedOf, insertedOf, failedOf] using ih.append_left batch
    | failed batch =>
      have h := (ih.append_left batch).trans (List.perm_append_comm_assoc _ _ _)
      simpa [flushedOf, insertedOf, failedOf] using h
    | received env => simpa [flushedOf, insertedOf, failedOf] using ih
    | ack k => simpa [flushedOf, insertedOf, failedOf] using ih
    | sync => simpa [flushedOf, insertedOf, failedOf] using ih

/-- A batch is being inserted only while it is not empty, and none is left behind. -/
def WellPhased (s : State) : Prop :=
  match s.phase with
  | .insert _ _ | .backoff _ _ => s.batch ≠ []
  | .returned => s.batch = []
  | _ => True

/-- A step that touches neither the batch nor the index, and at most syncs. -/
structure Quiet (s t : State) : Prop where
  batch : t.batch = s.batch
  lastWALIdx : t.lastWALIdx = s.lastWALIdx
  ctxDone : s.ctxDone = true → t.ctxDone = true
  trace : t.trace = s.trace ∨ t.trace = s.trace ++ [.sync]
  phased : WellPhased s → WellPhased t

/-- The steps at which `insertWithRetry` returns an error: the last attempt fails, or
the select between two attempts takes `parent.Done()`. -/
def GivesUp (s : State) (a : Action) : Prop :=
  (∃ k, s.phase = .insert (attempts - 1) k ∧ a = .insertBatch false) ∨
    ∃ n k, s.phase = .backoff n k ∧ a = .parentDone

theorem wellPhased_resume (k : Resume) {s : State} (h : s.batch = []) :
    WellPhased (resume k s) := by
  cases k with
  | run => trivial
  | drain => trivial
  | exit => exact h

theorem resume_quiet (k : Resume) {s : State} (h : s.batch = []) : Quiet s (resume k s) := by
  cases k with
  | run => exact ⟨rfl, rfl, id, .inl rfl, fun _ => trivial⟩
  | drain => exact ⟨rfl, rfl, id, .inl rfl, fun _ => trivial⟩
  | exit => exact ⟨rfl, rfl, id, .inr rfl, fun _ => h⟩

theorem flush_quiet (k : Resume) (s : State) : Quiet s (flush k s) := by
  unfold flush
  split
  · exact resume_quiet k ‹_›
  · exact ⟨rfl, rfl, id, .inl rfl, fun _ => ‹_›⟩

theorem Quiet.refl (s : State) : Quiet s s := ⟨rfl, rfl, id, .inl rfl, id⟩

private theorem wellPhased_add (env : WALEnvelope) (s : State)
    (h : s.phase = .run ∨ s.phase = .drain) : WellPhased (add env s) := by
  rcases h with h | h <;> simp [WellPhased, add, h]

/-- What a step can do: take an envelope, end a flush one way or the other, or move on
without touching the batch. -/
inductive Effect (s : State) : Action → State → Prop
  | recv (env : WALEnvelope) (t : State) (hp : s.phase = .run ∨ s.phase = .drain)
      (hq : Quiet (add env s) t) : Effect s (.recv env) t
  | inserted (n : ℕ) (k : Resume) (hp : s.phase = .insert n k) :
      Effect s (.insertBatch true) (resume k (ackBatch s))
  | gaveUp (a : Action) (k : Resume) (hg : GivesUp s a) : Effect s a (resume k (dropBatch s))
  | quiet (a : Action) (t : State) (hg : ¬ GivesUp s a) (hins : a ≠ .insertBatch true)
      (hrecv : ∀ env, a ≠ .recv env) (hq : Quiet s t) : Effect s a t

theorem step_effect {cfg : Config} {s t : State} {a : Action} (h : step cfg s a = some t) :
    Effect s a t := by
  cases a with
  | cancel =>
    cases h
    exact .quiet _ _ (by simp [GivesUp]) (by simp) (by simp)
      ⟨rfl, rfl, fun _ => rfl, .inl rfl, id⟩
  | recv env =>
    cases hp : s.phase <;> simp only [step, hp, Option.some.injEq, reduceCtorEq] at h
    · subst h
      refine .recv env _ (.inl hp) ?_
      split
      · exact flush_quiet _ _
      · exact .refl _
    · subst h
      refine .recv env _ (.inr hp) ?_
      split
      · exact flush_quiet _ _
      · exact .refl _
  | recvClosed =>
    cases hp : s.phase <;> simp only [step, hp, Option.some.injEq, reduceCtorEq] at h <;> subst h
    all_goals exact .quiet _ _ (by simp [GivesUp]) (by simp) (by simp) (flush_quiet _ _)
  | tick =>
    cases hp : s.phase <;> simp only [step, hp, Option.some.injEq, reduceCtorEq] at h
    subst h
    exact .quiet _ _ (by simp [GivesUp]) (by simp) (by simp) (flush_quiet _ _)
  | ctxDone =>
    cases hp : s.phase <;> simp only [step, hp, Option.ite_none_right_eq_some, Option.some.injEq,
      reduceCtorEq] at h
    obtain ⟨-, rfl⟩ := h
    exact .quiet _ _ (by simp [GivesUp]) (by simp) (by simp)
      ⟨rfl, rfl, id, .inl rfl, fun _ => trivial⟩
  | settle =>
    cases hp : s.phase <;> simp only [step, hp, Option.some.injEq, reduceCtorEq] at h
    subst h
    exact .quiet _ _ (by simp [GivesUp]) (by simp) (by simp) (flush_quiet _ _)
  | insertBatch ok =>
    cases hp : s.phase with
    | insert n k =>
      simp only [step, hp] at h
      cases ok with
      | true =>
        obtain rfl : resume k (ackBatch s) = t := by simpa using h
        exact .inserted n k hp
      | false =>
        simp only [Bool.false_eq_true, if_false] at h
        split at h
        · rename_i hn
          obtain rfl : resume k (dropBatch s) = t := by simpa using h
          exact .gaveUp _ k (.inl ⟨k, by rw [hp, hn], rfl⟩)
        · rename_i hn
          cases h
          refine .quiet _ _ (by simp [GivesUp, hp, hn]) (by simp) (by simp)
            ⟨rfl, rfl, id, .inl rfl, ?_⟩
          simp [WellPhased, hp]
    | _ => simp [step, hp] at h
  | retryAfter =>
    cases hp : s.phase <;> simp only [step, hp, Option.some.injEq, reduceCtorEq] at h
    subst h
    refine .quiet _ _ (by simp [GivesUp]) (by simp) (by simp) ⟨rfl, rfl, id, .inl rfl, ?_⟩
    simp [WellPhased, hp]
  | parentDone =>
    cases hp : s.phase <;> simp only [step, hp, Option.ite_none_right_eq_some, Option.some.injEq,
      reduceCtorEq] at h
    rename_i n k
    obtain ⟨-, rfl⟩ := h
    exact .gaveUp _ k (.inr ⟨n, k, hp, rfl⟩)

theorem batch_ne_nil_of_givesUp {s : State} {a : Action} (hs : WellPhased s) (hg : GivesUp s a) :
    s.batch ≠ [] := by
  rcases hg with ⟨k, hp, -⟩ | ⟨n, k, hp, -⟩ <;> simpa [WellPhased, hp] using hs

/-- The flushed batches and the batch at hand cut the received sequence into pieces,
and the index to be acked is that of the last envelope received. -/
structure Accounted (s : State) : Prop where
  received : receivedOf s.trace = flushedOf s.trace ++ s.batch
  last : s.lastWALIdx = ((receivedOf s.trace).getLast?.map WALEnvelope.idx).getD 0

theorem Quiet.receivedOf_eq {s t : State} (h : Quiet s t) :
    receivedOf t.trace = receivedOf s.trace := by
  rcases h.trace with h | h <;> simp [h, receivedOf]

theorem Quiet.failedOf_eq {s t : State} (h : Quiet s t) :
    failedOf t.trace = failedOf s.trace := by
  rcases h.trace with h | h <;> simp [h, failedOf]

theorem Quiet.flushedOf_eq {s t : State} (h : Quiet s t) :
    flushedOf t.trace = flushedOf s.trace := by
  rcases h.trace with h | h <;> simp [h, flushedOf]

theorem Quiet.accounted {s t : State} (h : Quiet s t) (hs : Accounted s) : Accounted t := by
  constructor
  · rw [h.receivedOf_eq, h.flushedOf_eq, h.batch]
    exact hs.received
  · rw [h.lastWALIdx, h.receivedOf_eq]
    exact hs.last

private theorem accounted_add (env : WALEnvelope) {s : State} (hs : Accounted s) :
    Accounted (add env s) := by
  constructor
  · have h := hs.received
    simp only [add, receivedOf_append, flushedOf_append, h, List.append_assoc]
    simp [receivedOf, flushedOf]
  · simp [add, receivedOf]

@[simp] theorem receivedOf_ackBatch (s : State) :
    receivedOf (ackBatch s).trace = receivedOf s.trace := by
  simp only [ackBatch, receivedOf_append]
  split <;> simp [receivedOf]

@[simp] theorem insertedOf_ackBatch (s : State) :
    insertedOf (ackBatch s).trace = insertedOf s.trace ++ s.batch := by
  simp only [ackBatch, insertedOf_append]
  split <;> simp [insertedOf]

@[simp] theorem failedOf_ackBatch (s : State) :
    failedOf (ackBatch s).trace = failedOf s.trace := by
  simp only [ackBatch, failedOf_append]
  split <;> simp [failedOf]

@[simp] theorem flushedOf_ackBatch (s : State) :
    flushedOf (ackBatch s).trace = flushedOf s.trace ++ s.batch := by
  simp only [ackBatch, flushedOf_append]
  split <;> simp [flushedOf]

private theorem accounted_ackBatch {s : State} (hs : Accounted s) : Accounted (ackBatch s) := by
  constructor
  · have hb : (ackBatch s).batch = [] := rfl
    rw [receivedOf_ackBatch, flushedOf_ackBatch, hb, List.append_nil]
    exact hs.received
  · rw [receivedOf_ackBatch]
    exact hs.last

private theorem accounted_dropBatch {s : State} (hs : Accounted s) : Accounted (dropBatch s) := by
  constructor
  · simpa [dropBatch, receivedOf, flushedOf] using hs.received
  · simpa [dropBatch, receivedOf] using hs.last

structure Inv (s : State) : Prop where
  accounted : Accounted s
  phased : WellPhased s

theorem inv_init : Inv init := ⟨⟨rfl, rfl⟩, trivial⟩

theorem inv_step (cfg : Config) (s : State) (a : Action) (t : State) (hs : Inv s)
    (h : step cfg s a = some t) : Inv t := by
  cases step_effect h with
  | recv env _ hp hq =>
    exact ⟨hq.accounted (accounted_add env hs.accounted), hq.phased (wellPhased_add env s hp)⟩
  | inserted n k =>
    exact ⟨(resume_quiet k rfl).accounted (accounted_ackBatch hs.accounted),
      wellPhased_resume k rfl⟩
  | gaveUp _ k =>
    exact ⟨(resume_quiet k rfl).accounted (accounted_dropBatch hs.accounted),
      wellPhased_resume k rfl⟩
  | quiet _ _ _ _ _ hq => exact ⟨hq.accounted hs.accounted, hq.phased hs.phased⟩

/-- No envelope is lost track of: it was inserted, given up, or is in the batch. -/
theorem Accounted.perm {s : State} (hs : Accounted s) :
    (receivedOf s.trace).Perm (insertedOf s.trace ++ (failedOf s.trace ++ s.batch)) := by
  rw [hs.received, ← List.append_assoc]
  exact (flushedOf_perm s.trace).append_right s.batch

/-- The batch grows by what is received only. -/
theorem mem_batch_step {cfg : Config} {s t : State} {a : Action} (h : step cfg s a = some t)
    {env : WALEnvelope} (he : env ∈ t.batch) : env ∈ s.batch ∨ a = .recv env := by
  cases step_effect h with
  | recv env' _ _ hq =>
    rw [hq.batch] at he
    rcases List.mem_append.mp he with he | he
    · exact .inl he
    · exact .inr (by rw [List.mem_singleton.mp he])
  | inserted n k =>
    rw [(resume_quiet k (s := ackBatch s) rfl).batch] at he
    simp [ackBatch] at he
  | gaveUp _ k =>
    rw [(resume_quiet k (s := dropBatch s) rfl).batch] at he
    simp [dropBatch] at he
  | quiet _ _ _ _ _ hq => exact .inl (hq.batch ▸ he)

end Statnive.IngestConsumer
