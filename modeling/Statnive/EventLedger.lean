import Statnive.ConsumerAckGate
import Statnive.ErasureSystem
import Statnive.SyncerHandoff

/-!
# The ledger of what was accepted

`ErasureSystem` with the size cap of the log, and beside its state what no state keeps: the
envelopes that earlier processes acked as durable and returned to their callers, and the
erasures whose rows were deleted. No step reads this ledger.
-/

namespace Statnive.EventLedger

open LabelledRuns IngestEvents SegmentedLog WriteAheadLog GroupSyncer SyncerPipeline SyncerHandoff
open ErasureSystem (Erasure)

/-- The `target` of `enforceSizeCap`; the last entry always stays. -/
def capTarget (first : ℕ) (last : Except LogError ℕ) : ℕ :=
  match last with
  | .ok last => if last ≤ first + 1000 ∧ 0 < last then last - 1 else first + 1000
  | .error _ => first + 1000

/-- `enforceSizeCap`, where `size` is what `dirSize` returns. -/
def enforceSizeCap {α : Type} (fmt : Format α) (maxBytes : ℕ) (size : Option ℕ)
    (fault : TruncateFault) (w : WALWriter α) : WALWriter α :=
  match size with
  | none => w
  | some size =>
    if size ≤ maxBytes then w
    else match w.log.firstIndex with
    | .error _ => w
    | .ok first =>
      let target := capTarget first w.log.lastIndex
      if first = 0 ∨ target ≤ first then w
      else { w with log := (w.log.truncateFront fmt target fault).2 }

/-- The envelopes of the calls of `AppendAndWait` that returned nil. -/
def returnedNil (s : GroupSyncer.State) : List WALEnvelope :=
  s.calls.filterMap fun k => match k.status with
    | .returned ⟨i, none⟩ => some ⟨i, k.ev⟩
    | _ => none

structure Ledger where
  state : ErasureSystem.State
  durable : List WALEnvelope
  accepted : List WALEnvelope
  deletions : List Erasure

def Ledger.allDurable (l : Ledger) : List WALEnvelope :=
  l.durable ++ durableOf l.state.syncer.trace

/-- What was accepted up to now, by this process or an earlier one. -/
def Ledger.allAccepted (l : Ledger) : List WALEnvelope :=
  l.accepted ++ returnedNil l.state.syncer

inductive Action where
  | process (a : ErasureSystem.Action)
  | sizeCap (size : Option ℕ) (fault : TruncateFault)

/-- The deletion that a step carries out. -/
def deletionOf (s : ErasureSystem.State) : ErasureSystem.Action → Option Erasure
  | .eraseDelete k .deleted => (s.erasures[k]?).filter (fun er => er.siteID ≠ 0)
  | _ => none

def record (l : Ledger) (a : ErasureSystem.Action) (s : ErasureSystem.State) : Ledger :=
  match a with
  | .crash _ _ _ _ => ⟨s, l.allDurable, l.allAccepted, l.deletions⟩
  | a => { l with state := s, deletions := l.deletions ++ (deletionOf l.state a).toList }

def step (cfg : ErasureSystem.Config) (maxBytes : ℕ) (l : Ledger) : Action → Option Ledger
  | .process a => (ErasureSystem.step cfg l.state a).map (record l a)
  | .sizeCap size fault =>
    if ErasureSystem.running l.state then
      let syncer := { l.state.syncer with
        wal := enforceSizeCap cfg.syncer.format maxBytes size fault l.state.syncer.wal }
      some { l with state := { l.state with syncer := syncer } }
    else none

/-- A ledger that begins before the first boot. -/
def init (files : Files EnrichedEvent) (rows : List EnrichedEvent)
    (suppressionWAL : JournalFile.File UInt8) : Ledger :=
  ⟨ErasureSystem.init files.log rows suppressionWAL, [], [], []⟩

/-- What acceptance relies on: a crash keeps what `Sync` made durable and no part of an entry,
the disk is not so full that the log is cut or that an entry does not get into its file, `out` is
fed in order, and no batch is acked past one that was given up. -/
def Safe (maxBytes : ℕ) (l : Ledger) : Action → Prop
  | .process (.crash kept part _ _) => part = 0 ∧
    ∀ env ∈ l.allDurable, env.idx < l.state.syncer.wal.log.tail.index + kept
  | .process (.syncer a) => DeliversInOrder l.state.syncer a ∧ WritesThrough a
  | .process (.insertBatch ok _) =>
    ConsumerAckGate.AcksBelowFailed l.state.consumer (.insertBatch ok)
  | .sizeCap size _ => ∀ n ∈ size, n ≤ maxBytes
  | _ => True

instance (maxBytes : ℕ) (l : Ledger) : (a : Action) → Decidable (Safe maxBytes l a)
  | .process (.crash kept part _ _) =>
    inferInstanceAs (Decidable (part = 0 ∧ ∀ env ∈ l.allDurable,
      env.idx < l.state.syncer.wal.log.tail.index + kept))
  | .process (.syncer a) =>
    inferInstanceAs (Decidable (DeliversInOrder l.state.syncer a ∧ WritesThrough a))
  | .process (.insertBatch _ _) =>
    inferInstanceAs (Decidable (_ = _ → 0 < l.state.consumer.lastWALIdx →
      ∀ env ∈ IngestConsumer.failedOf l.state.consumer.trace,
        l.state.consumer.lastWALIdx < env.idx))
  | .sizeCap size _ => inferInstanceAs (Decidable (∀ n ∈ size, n ≤ maxBytes))
  | .process (.boot _ _) | .process (.request _) | .process (.gate _ _ _) | .process (.append _)
  | .process (.resume _) | .process .receive | .process (.consumer _) | .process (.ack _)
  | .process (.optOut _ _ _) | .process (.closeList _) | .process (.erase _ _)
  | .process (.eraseDelete _ _) | .process (.eraseAdd _ _ _) => .isTrue trivial

variable {s t : GroupSyncer.State}

/-- A step uses at most one index, and makes durable what was on its way. -/
structure Advance (s t : GroupSyncer.State) : Prop where
  indices : indicesOf t.trace = indicesOf s.trace ∧ t.wal.nextIdx = s.wal.nextIdx ∨
    indicesOf t.trace = indicesOf s.trace ++ [s.wal.nextIdx] ∧
      t.wal.nextIdx = s.wal.nextIdx + 1
  durable : ∃ new, durableOf t.trace = durableOf s.trace ++ new ∧
    ∀ env ∈ new, env ∈ ackEnvelopes (pipe s)
  pending : ∀ env ∈ ackEnvelopes (pipe t),
    env ∈ ackEnvelopes (pipe s) ∨ env.idx = s.wal.nextIdx

/-- A step that records nothing of an index and moves no envelope. -/
theorem advance_of_event (e : Option Event) (htr : t.trace = s.trace ++ e.toList)
    (huse : e.toList.flatMap uses = []) (hdur : e.toList.flatMap durables = [])
    (hpipe : ∀ env ∈ ackEnvelopes (pipe t), env ∈ ackEnvelopes (pipe s))
    (hwal : t.wal.nextIdx = s.wal.nextIdx) : Advance s t := by
  refine ⟨.inl ⟨?_, hwal⟩, ⟨[], ?_, by simp⟩, fun env he => .inl (hpipe env he)⟩
  · simp [indicesOf, htr, huse]
  · simp [durableOf, htr, hdur]

private theorem advance_tried {a : GroupSyncer.Action} {it : Item} {q : List WalReq}
    (hpipe : pipe t = { pipe s with queue := q, unsynced := (pipe s).unsynced ++ [it] })
    (htr : t.trace = s.trace ++ [outcome it]) (hwal : Tried a s.wal t.wal it) :
    Advance s t := by
  have hack : ackEnvelopes (pipe t) =
      ackEnvelopes (pipe s) ++ envelopeOf it.req it.ack := by
    simp [hpipe, ackEnvelopes]
  by_cases herr : it.err = none
  · obtain ⟨hidx, hnext⟩ := hwal.ok herr
    have hout : outcome it = .appended it.req it.idx := by simp [outcome, herr]
    refine ⟨.inr ⟨by simp [htr, hout, hidx], hnext⟩, ⟨[], by simp [htr, hout], by simp⟩, ?_⟩
    intro env he
    rw [hack, List.mem_append] at he
    apply he.imp_right
    intro hm
    have henv : env = ⟨it.idx, it.req.ev⟩ := by simpa [envelopeOf, Item.ack, herr] using hm
    rw [henv, hidx]
  · have hout : outcome it = .appendFailed it.req := by simp [outcome, herr]
    have hnil : envelopeOf it.req it.ack = [] := by simp [envelopeOf, Item.ack, herr]
    refine advance_of_event (some (.appendFailed it.req)) (by simp [htr, hout]) rfl rfl ?_
      (hwal.failed herr)
    intro env he
    rwa [hack, hnil, List.append_nil] at he

theorem advance_step {cfg : GroupSyncer.Config} {a : GroupSyncer.Action}
    (h : GroupSyncer.step cfg s a = some t) : Advance s t := by
  cases SyncerPipeline.step_effect h with
  | idle hpipe htr hwal =>
    exact advance_of_event none (by simp [htr]) rfl rfl (by rw [hpipe]; exact fun _ => id)
      hwal.nextIdx
  | accepted c k _ _ hpipe htr hwal =>
    exact advance_of_event (some _) htr rfl rfl (by rw [hpipe]; exact fun _ => id)
      (by rw [hwal])
  | tried it q _ _ hpipe htr hwal => exact advance_tried hpipe htr hwal
  | syncStarted hpipe htr hwal =>
    exact advance_of_event (some _) htr rfl rfl (by rw [hpipe]; exact fun _ => id)
      (by rw [hwal])
  | syncOk _ hun hpipe htr hwal =>
    refine advance_of_event (some _) htr rfl rfl ?_ (by rw [hwal])
    rw [hpipe]
    simp [ackEnvelopes, hun, List.flatMap_map]
  | syncFailed e hun hpipe htr hwal =>
    refine advance_of_event (some _) htr rfl rfl ?_ (by rw [hwal])
    rw [hpipe]
    simp [ackEnvelopes, List.flatMap_map, envelopeOf]
  | answered r a rest hun hpipe htr hwal =>
    refine ⟨.inl ⟨by simp [htr], by rw [hwal]⟩, ⟨envelopeOf r a, by simp [htr], ?_⟩, ?_⟩
    · intro env he
      exact List.mem_append_left _ (by rw [hun, List.flatMap_cons]; exact List.mem_append_left _ he)
    · intro env he
      rw [hpipe] at he
      left
      simp only [ackEnvelopes, hun, List.flatMap_cons, List.mem_append] at he ⊢
      exact he.imp_left .inr
  | handled env rest _ hpipe htr hwal =>
    rcases htr with ⟨htr, -⟩ | ⟨htr, -⟩
    all_goals
      exact advance_of_event (some _) htr rfl rfl (by rw [hpipe]; exact fun _ => id)
        (by rw [hwal])
  | returned c k a _ _ hpipe htr hwal =>
    exact advance_of_event (some _) htr rfl rfl (by rw [hpipe]; exact fun _ => id)
      (by rw [hwal])

/-- Only `Ack` cuts the log, and only the consumer takes from `out`. -/
structure Channel (s t : GroupSyncer.State) : Prop where
  first : t.wal.log.first = s.wal.log.first
  delivered : ∃ new, deliveredOf t.trace = deliveredOf s.trace ++ new ∧ t.out = s.out ++ new

theorem channel_of_eq (htr : deliveredOf t.trace = deliveredOf s.trace) (hout : t.out = s.out)
    (hfirst : t.wal.log.first = s.wal.log.first) : Channel s t :=
  ⟨hfirst, [], by simp [htr], by simp [hout]⟩

private theorem channel_appendNext (done : List Item) (r : WalReq) (todo : List WalReq) (k : Resume)
    (env : WriteEnv) (s : GroupSyncer.State) :
    Channel s (appendNext done r todo k env s) := by
  unfold appendNext
  split
  all_goals
    rename_i w happ
    exact channel_of_eq (by simp) rfl (WALWriter.append_end happ).1.first

theorem channel_step {cfg : GroupSyncer.Config} {a : GroupSyncer.Action}
    (h : GroupSyncer.step cfg s a = some t) (hconsume : a ≠ .consume)
    (hack : ∀ i fault, a ≠ .walAck i fault) : Channel s t := by
  rcases step_move h with h | h
  · cases h with
    | stop | recvFlush | recvWait | timer | exitReturns | exit =>
      exact channel_of_eq (by simp) (by simp) (by simp)
    | append done r todo k env => exact channel_appendNext done r todo k env s
    | syncBegin | syncOk | syncFailed => exact channel_of_eq (by simp) rfl rfl
    | answerItem done it todo k =>
      refine channel_of_eq ?_ ?_ ?_
      all_goals split <;> simp [send]
    | answerFailed => exact channel_of_eq (by simp [send]) rfl rfl
    | deliver env todo k => exact ⟨by simp, [env], by simp, by simp⟩
    | drop env todo k => exact channel_of_eq (by simp) (by simp) (by simp)
  · cases h with
    | call | cancel | close => exact channel_of_eq rfl rfl rfl
    | enqueue | enqueueDone | enqueueStopped | receive | waitDone =>
      exact channel_of_eq (by simp [accept, ret]) rfl rfl
    | consume => exact absurd rfl hconsume
    | walAck i fault => exact absurd rfl (hack i fault)

theorem consume_step {cfg : GroupSyncer.Config} (h : GroupSyncer.step cfg s .consume = some t)
    {env : WALEnvelope} (hout : s.out.head? = some env) :
    ∃ rest, s.out = env :: rest ∧ t = { s with out := rest } := by
  rcases step_move h with h | h
  · cases h
  · cases h with
    | consume env' rest hcons =>
      obtain rfl : env' = env := by simpa [hcons] using hout
      exact ⟨rest, hcons, rfl⟩

theorem walAck_step {cfg : GroupSyncer.Config} {i : ℕ} {fault : TruncateFault}
    (h : GroupSyncer.step cfg s (.walAck i fault) = some t) :
    t = { s with wal := (s.wal.ack cfg.format i fault).2 } := by
  rcases step_move h with h | h
  · cases h
  · cases h
    rfl

end Statnive.EventLedger
