import Mathlib.Data.List.Count
import Statnive.ErasureCompleteness
import Statnive.EventLedger

/-!
# Accepted events are not lost

What lies below the first index of the log is in the store, and so is everything that was
durable before the last boot. Both are kept by every step, so an event that was accepted is
in the store or in the log, as often as it was accepted, unless an erasure deleted its rows.
-/

namespace Statnive.AcceptedEvents

open LabelledRuns IngestEvents SegmentedLog WriteAheadLog SyncerPipeline SyncerHandoff
open GroupSyncer hiding init step Action
open IngestConsumer (receivedOf insertedOf failedOf)
open ConsumerAckGate (Covers AcksBelowFailed)
open ErasureSystem (Erasure PartyMove)
open EventLedger

theorem count_map_le_of_subperm {α β : Type} [BEq β] {l l' : List α} (h : l.Subperm l')
    (f : α → β) (b : β) : (l.map f).count b ≤ (l'.map f).count b := by
  obtain ⟨mid, hperm, hsub⟩ := h
  have hcount := (hperm.map f).count_eq b
  have hle := (hsub.map f).count_le b
  omega

def copies (e : EnrichedEvent) (envs : List WALEnvelope) : ℕ :=
  (envs.map WALEnvelope.ev).count e

@[simp] theorem copies_append (e : EnrichedEvent) (envs envs' : List WALEnvelope) :
    copies e (envs ++ envs') = copies e envs + copies e envs' := by
  simp [copies]

theorem copies_cons (e : EnrichedEvent) (env : WALEnvelope) (envs : List WALEnvelope) :
    copies e (env :: envs) = copies e envs + if env.ev = e then 1 else 0 := by
  simp [copies, List.count_cons]

/-- Below an index and from it on. -/
theorem copies_split (e : EnrichedEvent) (n : ℕ) (envs : List WALEnvelope) :
    copies e envs =
      copies e (envs.filter (fun env => env.idx < n)) +
        copies e (envs.filter (fun env => n ≤ env.idx)) := by
  induction envs with
  | nil => rfl
  | cons env envs ih =>
    by_cases hlt : env.idx < n
    · have hle : ¬ n ≤ env.idx := by omega
      simp only [List.filter_cons, hlt, hle, decide_true, decide_false, if_true, copies_cons,
        Bool.false_eq_true, if_false]
      omega
    · have hle : n ≤ env.idx := by omega
      simp only [List.filter_cons, hlt, hle, decide_true, decide_false, if_true, copies_cons,
        Bool.false_eq_true, if_false]
      omega

theorem copies_le_of_subperm {e : EnrichedEvent} {envs envs' : List WALEnvelope}
    (h : envs.Subperm envs') : copies e envs ≤ copies e envs' :=
  count_map_le_of_subperm h WALEnvelope.ev e

/-- No deletion of rows is of the event. -/
def Remains (cfg : ErasureSystem.Config) (l : Ledger) (e : EnrichedEvent) : Prop :=
  ∀ er ∈ l.deletions, ¬ er.Concerns cfg e

instance (cfg : ErasureSystem.Config) (l : Ledger) (e : EnrichedEvent) :
    Decidable (Remains cfg l e) :=
  inferInstanceAs (Decidable (∀ er ∈ l.deletions, ¬ er.Concerns cfg e))

/-- The envelopes durable before this process and the indices it hands out increase, and what
is still on its way lies in the log. -/
structure Indices (durable : List WALEnvelope) (s : GroupSyncer.State) : Prop where
  increasing : (durable.map WALEnvelope.idx ++ indicesOf s.trace).Pairwise (· < ·)
  below : ∀ i ∈ durable.map WALEnvelope.idx ++ indicesOf s.trace, i < s.wal.nextIdx
  first : s.wal.log.first ≤ s.wal.nextIdx
  pending : ∀ env ∈ ackEnvelopes (pipe s), s.wal.log.first ≤ env.idx

structure LogInv (durable : List WALEnvelope) (s : GroupSyncer.State) : Prop where
  commit : GroupCommit.Inv s
  holding : GroupCommit.Holding s
  ordered : Ordered s
  indices : Indices durable s
  holds : ∀ env ∈ durable, s.wal.log.Holds env.idx env.ev

variable {durable : List WALEnvelope} {s t : GroupSyncer.State}

theorem LogInv.handoff (hs : LogInv durable s) : SyncerHandoff.Inv s :=
  ⟨hs.commit.accounted, hs.commit.indexed, hs.ordered⟩

private theorem indices_step {cfg : GroupSyncer.Config} {a : GroupSyncer.Action}
    (hs : Indices durable s) (h : GroupSyncer.step cfg s a = some t)
    (hfirst : t.wal.log.first ≤ s.wal.nextIdx)
    (hpending : ∀ env ∈ ackEnvelopes (pipe s), t.wal.log.first ≤ env.idx) : Indices durable t := by
  have hadv := advance_step h
  have hpend : ∀ env ∈ ackEnvelopes (pipe t), t.wal.log.first ≤ env.idx := by
    intro env he
    rcases hadv.pending env he with he | hidx
    · exact hpending env he
    · rwa [hidx]
  rcases hadv.indices with ⟨hidx, hnext⟩ | ⟨hidx, hnext⟩
  · exact ⟨hidx ▸ hs.increasing, by rw [hidx, hnext]; exact hs.below, hnext ▸ hfirst, hpend⟩
  · refine ⟨?_, ?_, by omega, hpend⟩
    · rw [hidx, ← List.append_assoc, List.pairwise_append]
      refine ⟨hs.increasing, List.pairwise_singleton _ _, ?_⟩
      intro i hi j hj
      rw [List.mem_singleton.mp hj]
      exact hs.below i hi
    · intro i hi
      rw [hidx, ← List.append_assoc, List.mem_append, List.mem_singleton] at hi
      rcases hi with hi | hi
      · have hlt := hs.below i hi
        omega
      · omega

theorem LogInv.step {cfg : GroupSyncer.Config} {a : GroupSyncer.Action} (hs : LogInv durable s)
    (h : GroupSyncer.step cfg s a = some t) (ha : WritesThrough a)
    (hfirst : t.wal.log.first ≤ s.wal.nextIdx)
    (hpending : ∀ env ∈ ackEnvelopes (pipe s), t.wal.log.first ≤ env.idx) : LogInv durable t :=
  ⟨GroupCommit.inv_step cfg s a t hs.commit h, GroupCommit.holding_step cfg s a t hs.holding ha h,
    ordered_step cfg s a t hs.ordered h, indices_step hs.indices h hfirst hpending,
    fun env he => (inOrder_step h hs.holding.inOrder ha).2 _ _ (hs.holds env he)⟩

/-- A step that does not cut the log. -/
theorem LogInv.step_of_first {cfg : GroupSyncer.Config} {a : GroupSyncer.Action}
    (hs : LogInv durable s) (h : GroupSyncer.step cfg s a = some t) (ha : WritesThrough a)
    (hfirst : t.wal.log.first = s.wal.log.first) : LogInv durable t :=
  hs.step h ha (hfirst ▸ hs.indices.first) (hfirst ▸ hs.indices.pending)

/-- The durable envelopes and those that may become so, in the order of their indices. -/
theorem LogInv.sorted (hs : LogInv durable s) :
    ((durable ++ (durableOf s.trace ++ ackEnvelopes (pipe s))).map WALEnvelope.idx).Pairwise
      (· < ·) := by
  rw [List.map_append]
  exact hs.indices.increasing.sublist (hs.ordered.append_left _)

theorem LogInv.allDurable_sorted (hs : LogInv durable s) :
    ((durable ++ durableOf s.trace).map WALEnvelope.idx).Pairwise (· < ·) := by
  refine hs.sorted.sublist (List.Sublist.map _ ?_)
  exact (List.sublist_append_left _ _).append_left _

theorem LogInv.durable_below (hs : LogInv durable s) {env : WALEnvelope}
    (h : env ∈ durable ++ durableOf s.trace) : env.idx < s.wal.nextIdx := by
  apply hs.indices.below
  rcases List.mem_append.mp h with h | h
  · exact List.mem_append_left _ (List.mem_map_of_mem h)
  · apply List.mem_append_right
    exact hs.ordered.subset (List.mem_map_of_mem (List.mem_append_left _ h))

/-- The log holds what is durable at its index, unless it was cut off. -/
theorem LogInv.holds_all (hs : LogInv durable s) {env : WALEnvelope}
    (h : env ∈ durable ++ durableOf s.trace) : s.wal.log.Holds env.idx env.ev := by
  rcases List.mem_append.mp h with h | h
  · exact hs.holds env h
  · obtain ⟨ev, hev, henv⟩ := List.mem_flatMap.mp h
    cases ev with
    | answered r a =>
      obtain ⟨i, err⟩ := a
      cases err with
      | some e => simp [envelopeOf] at henv
      | none =>
        obtain rfl : env = ⟨i, r.ev⟩ := by simpa [envelopeOf] using henv
        rcases hs.commit.stages.answered r _ hev with ⟨it, batch, rfl, hack, -, hsub⟩ | ⟨herr, -⟩
        · have happ : outcome it ∈ s.trace := hsub.subset (by simp)
          rw [GroupCommit.appended_of_ack hack] at happ
          exact hs.holding.appended _ _ happ
        · simp at herr
    | _ => simp at henv

/-- A process begins over a log that holds what is durable. -/
theorem logInv_restart {l : Log EnrichedEvent} {w : WALWriter EnrichedEvent}
    (horder : w.log.InOrder) (hsorted : (durable.map WALEnvelope.idx).Pairwise (· < ·))
    (hholds : ∀ env ∈ durable, w.log.Holds env.idx env.ev)
    (hbelow : ∀ env ∈ durable, env.idx < w.nextIdx) (hfirst : w.log.first ≤ w.nextIdx) :
    LogInv durable { GroupSyncer.init l with wal := w } := by
  have hcommit : GroupCommit.Inv { GroupSyncer.init l with wal := w } :=
    ⟨⟨rfl, rfl, rfl, rfl⟩,
      ⟨List.nodup_nil, by simp [GroupSyncer.init, acceptedOf], by simp [GroupSyncer.init]⟩,
      ⟨List.Pairwise.nil, by simp [GroupSyncer.init, indicesOf]⟩,
      GroupCommit.stages_init l, ⟨by simp [GroupSyncer.init], by simp [GroupSyncer.init]⟩⟩
  refine ⟨hcommit, ⟨horder, by simp [GroupSyncer.init]⟩, List.Sublist.refl _,
    ⟨?_, ?_, hfirst, ?_⟩, hholds⟩
  · simpa [GroupSyncer.init, indicesOf] using hsorted
  · simpa [GroupSyncer.init, indicesOf] using hbelow
  · simp [GroupSyncer.init, ackEnvelopes, pipe]

structure Delivery (s : ErasureSystem.State) : Prop where
  consumer : IngestConsumer.Inv s.consumer
  handed : HandedOff s.syncer.trace
  received : deliveredOf s.syncer.trace = receivedOf s.consumer.trace ++ s.syncer.out
  acking : ∀ k, s.pendingAck = some k →
    0 < k ∧ k = s.consumer.lastWALIdx ∧ Covers s.consumer.trace k

/-- What the consumer has received is all that is durable up to its last index, and nothing
that is on its way lies there. -/
theorem received_split {s : ErasureSystem.State} (hlog : LogInv durable s.syncer)
    (hs : Delivery s) (hpos : 0 < s.consumer.lastWALIdx) :
    ∃ rest, durableOf s.syncer.trace = receivedOf s.consumer.trace ++ rest ∧
      (∀ env ∈ rest ++ ackEnvelopes (pipe s.syncer), s.consumer.lastWALIdx < env.idx) ∧
      s.consumer.lastWALIdx < s.syncer.wal.nextIdx := by
  obtain ⟨more, hmore⟩ := hs.handed
  have hdurable : durableOf s.syncer.trace =
      receivedOf s.consumer.trace ++ (s.syncer.out ++ more) := by
    rw [← hmore, hs.received, List.append_assoc]
  have hlast := hs.consumer.accounted.last
  cases hrec : (receivedOf s.consumer.trace).getLast? with
  | none =>
    rw [hrec] at hlast
    simp only [Option.map_none, Option.getD_none] at hlast
    omega
  | some x =>
    rw [hrec] at hlast
    simp only [Option.map_some, Option.getD_some] at hlast
    obtain ⟨before, hsnoc⟩ := List.getLast?_eq_some_iff.mp hrec
    refine ⟨s.syncer.out ++ more, hdurable, ?_, ?_⟩
    · have hsorted := hlog.sorted
      rw [List.map_append, List.pairwise_append, hdurable, hsnoc] at hsorted
      obtain ⟨-, hsorted, -⟩ := hsorted
      rw [List.append_assoc, List.append_assoc, List.map_append, List.pairwise_append] at hsorted
      obtain ⟨-, hsorted, -⟩ := hsorted
      rw [List.singleton_append, List.map_cons, List.pairwise_cons] at hsorted
      intro env he
      rw [hlast]
      exact hsorted.1 _ (List.mem_map_of_mem he)
    · rw [hlast]
      apply hlog.durable_below
      apply List.mem_append_right
      rw [hdurable, hsnoc]
      simp

/-- What a step of the consumer takes in and inserts. -/
theorem consumer_step {cfg : IngestConsumer.Config} {s t : IngestConsumer.State}
    {a : IngestConsumer.Action} (h : IngestConsumer.step cfg s a = some t) :
    (receivedOf t.trace = receivedOf s.trace ++ match a with | .recv env => [env] | _ => []) ∧
    insertedOf t.trace = insertedOf s.trace ++ (if a = .insertBatch true then s.batch else []) ∧
    ((∀ env, a ≠ .recv env) → t.lastWALIdx = s.lastWALIdx) := by
  have hquiet : ∀ {u v : IngestConsumer.State}, IngestConsumer.Quiet u v →
      insertedOf v.trace = insertedOf u.trace := by
    intro u v hq
    rcases hq.trace with hq | hq <;> simp [hq, insertedOf]
  cases IngestConsumer.step_effect h with
  | recv env _ _ hq =>
    refine ⟨?_, ?_, fun hne => absurd rfl (hne env)⟩
    · rw [hq.receivedOf_eq]
      simp [IngestConsumer.add, receivedOf]
    · rw [hquiet hq]
      simp [IngestConsumer.add, insertedOf]
  | inserted n k =>
    have hq := IngestConsumer.resume_quiet k (s := IngestConsumer.ackBatch s) rfl
    refine ⟨?_, ?_, fun _ => hq.lastWALIdx⟩
    · rw [hq.receivedOf_eq]
      simp
    · rw [hquiet hq]
      simp
  | gaveUp _ k hg =>
    have hq := IngestConsumer.resume_quiet k (s := IngestConsumer.dropBatch s) rfl
    have hother : (∀ env, a ≠ .recv env) ∧ a ≠ .insertBatch true := by
      rcases hg with ⟨k, -, rfl⟩ | ⟨n, k, -, rfl⟩ <;> simp
    refine ⟨?_, ?_, fun _ => hq.lastWALIdx⟩
    · rw [hq.receivedOf_eq]
      cases a with
      | recv env => exact absurd rfl (hother.1 env)
      | _ => simp [IngestConsumer.dropBatch, receivedOf]
    · rw [hquiet hq, if_neg hother.2]
      simp [IngestConsumer.dropBatch, insertedOf]
  | quiet _ _ _ hins hrecv hq =>
    refine ⟨?_, ?_, fun _ => hq.lastWALIdx⟩
    · rw [hq.receivedOf_eq]
      cases a with
      | recv env => exact absurd rfl (hrecv env)
      | _ => simp
    · rw [hquiet hq, if_neg hins, List.append_nil]

variable {cfg : ErasureSystem.Config}

/-- What was cut off the log is in the store, and in a running process so is what earlier
processes made durable and what this one inserted. -/
structure Stored (cfg : ErasureSystem.Config) (l : Ledger) : Prop where
  cut : ∀ e, Remains cfg l e →
    copies e (l.allDurable.filter (fun env => env.idx < l.state.syncer.wal.log.first)) ≤
      l.state.rows.count e
  inserted : l.state.up = true → ∀ e, Remains cfg l e →
    copies e (l.durable ++ insertedOf l.state.consumer.trace) ≤ l.state.rows.count e

/-- Between two processes nothing is on its way. -/
structure Down (s : ErasureSystem.State) : Prop where
  trace : s.syncer.trace = []
  calls : s.syncer.calls = []
  out : s.syncer.out = []
  consumer : s.consumer = IngestConsumer.init
  pendingAck : s.pendingAck = none

structure Inv (cfg : ErasureSystem.Config) (l : Ledger) : Prop where
  log : LogInv l.durable l.state.syncer
  delivery : Delivery l.state
  stored : Stored cfg l
  down : l.state.up = false → Down l.state
  accepted : l.accepted.Subperm l.durable

theorem inv_init (cfg : ErasureSystem.Config) (files : Files EnrichedEvent)
    (rows : List EnrichedEvent) (suppressionWAL : JournalFile.File UInt8) :
    Inv cfg (init files rows suppressionWAL) := by
  constructor
  · exact logInv_restart (l := files.log) files.inOrder List.Pairwise.nil (by simp [init])
      (by simp [init]) files.inOrder.first_le
  · exact ⟨IngestConsumer.inv_init, List.prefix_refl _, rfl, by simp [init, ErasureSystem.init]⟩
  · exact ⟨fun e _ => Nat.zero_le _, by simp [init, ErasureSystem.init]⟩
  · exact fun _ => ⟨rfl, rfl, rfl, rfl, rfl⟩
  · exact List.Subperm.refl _

variable {l : Ledger}

/-- A step that leaves ingestion alone. -/
theorem Inv.same (hs : Inv cfg l) {t : ErasureSystem.State} (hup : t.up = l.state.up)
    (hsyncer : t.syncer = l.state.syncer) (hconsumer : t.consumer = l.state.consumer)
    (hack : t.pendingAck = l.state.pendingAck) (hrows : t.rows = l.state.rows) :
    Inv cfg { l with state := t } := by
  obtain ⟨hlog, hdel, hstored, hdown, hacc⟩ := hs
  constructor
  · rw [hsyncer]
    exact hlog
  · obtain ⟨hc, hh, hr, ha⟩ := hdel
    exact ⟨hconsumer ▸ hc, hsyncer ▸ hh, by rw [hsyncer, hconsumer]; exact hr,
      by rw [hack, hconsumer]; exact ha⟩
  · obtain ⟨hcut, hins⟩ := hstored
    refine ⟨?_, ?_⟩
    · simp only [Ledger.allDurable] at hcut ⊢
      rw [hsyncer, hrows]
      exact hcut
    · simp only []
      rw [hup, hconsumer, hrows]
      exact hins
  · intro h
    obtain ⟨h₁, h₂, h₃, h₄, h₅⟩ := hdown (hup ▸ h)
    exact ⟨hsyncer ▸ h₁, hsyncer ▸ h₂, hsyncer ▸ h₃, hconsumer ▸ h₄, hack ▸ h₅⟩
  · exact hacc

/-- The syncer moves without cutting the log: what becomes durable lies in the log. -/
theorem Inv.syncer (hs : Inv cfg l) (handlers : List ErasureSystem.Handler)
    {a : GroupSyncer.Action} {syncer : GroupSyncer.State} (hup : l.state.up = true)
    (h : GroupSyncer.step cfg.syncer l.state.syncer a = some syncer)
    (hconsume : a ≠ .consume) (hack : ∀ i fault, a ≠ .walAck i fault)
    (hsafe : DeliversInOrder l.state.syncer a) (hthrough : WritesThrough a) :
    Inv cfg { l with state := { l.state with handlers := handlers, syncer := syncer } } := by
  have hchan := channel_step h hconsume hack
  obtain ⟨new, hdur, hnew⟩ := (advance_step h).durable
  constructor
  · exact hs.log.step_of_first h hthrough hchan.first
  · obtain ⟨d, hdel, hout⟩ := hchan.delivered
    have hhanded := (handedOff_step cfg.syncer _ a _ hs.log.handoff h).mpr
      ⟨hs.delivery.handed, hsafe⟩
    refine ⟨hs.delivery.consumer, hhanded, ?_, hs.delivery.acking⟩
    simp only [hdel, hout, hs.delivery.received, List.append_assoc]
  · refine ⟨fun e he => ?_, fun _ => hs.stored.inserted hup⟩
    have hcut := hs.stored.cut e he
    have hnil : new.filter (fun env => env.idx < l.state.syncer.wal.log.first) = [] := by
      rw [List.filter_eq_nil_iff]
      intro env hm
      have hle := hs.log.indices.pending env (hnew env hm)
      simpa using hle
    simp only [Ledger.allDurable, hdur, hchan.first, List.filter_append, hnil,
      List.append_nil] at hcut ⊢
    exact hcut
  · intro hdown
    simp [hup] at hdown
  · exact hs.accepted

theorem Inv.receive (hs : Inv cfg l) {env : WALEnvelope} {syncer : GroupSyncer.State}
    {consumer : IngestConsumer.State} (hup : l.state.up = true)
    (hout : l.state.syncer.out.head? = some env) (hack : l.state.pendingAck = none)
    (hconsume : GroupSyncer.step cfg.syncer l.state.syncer .consume = some syncer)
    (hrecv : IngestConsumer.step cfg.consumer l.state.consumer (.recv env) = some consumer) :
    Inv cfg { l with state := { l.state with syncer := syncer, consumer := consumer } } := by
  obtain ⟨rest, hrest, rfl⟩ := consume_step hconsume hout
  obtain ⟨hrec, hins, -⟩ := consumer_step hrecv
  constructor
  · exact hs.log.step_of_first hconsume (by simp [WritesThrough, writeEnv]) rfl
  · refine ⟨IngestConsumer.inv_step _ _ _ _ hs.delivery.consumer hrecv, hs.delivery.handed, ?_, ?_⟩
    · simp only [hs.delivery.received, hrec, hrest]
      simp
    · simp [hack]
  · refine ⟨hs.stored.cut, fun _ e he => ?_⟩
    have hle := hs.stored.inserted hup e he
    simpa [hins] using hle
  · intro hdown
    simp [hup] at hdown
  · exact hs.accepted

theorem Inv.consumer (hs : Inv cfg l) {a : IngestConsumer.Action} {consumer : IngestConsumer.State}
    (hup : l.state.up = true) (hother : ErasureSystem.otherStep a = true)
    (hack : l.state.pendingAck = none)
    (h : IngestConsumer.step cfg.consumer l.state.consumer a = some consumer) :
    Inv cfg { l with state := { l.state with consumer := consumer } } := by
  obtain ⟨hrec, hins, -⟩ := consumer_step h
  have hrec' : receivedOf consumer.trace = receivedOf l.state.consumer.trace := by
    cases a with
    | recv env => simp [ErasureSystem.otherStep] at hother
    | _ => simpa using hrec
  have hins' : insertedOf consumer.trace = insertedOf l.state.consumer.trace := by
    cases a with
    | insertBatch ok => simp [ErasureSystem.otherStep] at hother
    | _ => simpa using hins
  constructor
  · exact hs.log
  · refine ⟨IngestConsumer.inv_step _ _ _ _ hs.delivery.consumer h, hs.delivery.handed, ?_, ?_⟩
    · rw [hrec']
      exact hs.delivery.received
    · simp [hack]
  · refine ⟨hs.stored.cut, fun _ e he => ?_⟩
    simp only [hins']
    exact hs.stored.inserted hup e he
  · intro hdown
    simp [hup] at hdown
  · exact hs.accepted

/-- An inserted batch is in the store, and its ack covers nothing that was given up. -/
theorem Inv.insertBatch (hs : Inv cfg l) {ok wrote : Bool} {consumer : IngestConsumer.State}
    (hup : l.state.up = true)
    (h : IngestConsumer.step cfg.consumer l.state.consumer (.insertBatch ok) = some consumer)
    (hsafe : AcksBelowFailed l.state.consumer (.insertBatch ok)) :
    Inv cfg { l with state := { l.state with
      consumer := consumer
      rows := if ok || wrote then l.state.rows ++ l.state.consumer.batch.map WALEnvelope.ev
        else l.state.rows
      pendingAck := if ok && 0 < l.state.consumer.lastWALIdx
        then some l.state.consumer.lastWALIdx else none } } := by
  obtain ⟨hrec, hins, hlast⟩ := consumer_step h
  have hrec' : receivedOf consumer.trace = receivedOf l.state.consumer.trace := by simpa using hrec
  have hlast' : consumer.lastWALIdx = l.state.consumer.lastWALIdx := hlast (by simp)
  have hgrow : ∀ e, l.state.rows.count e ≤
      (if ok || wrote then l.state.rows ++ l.state.consumer.batch.map WALEnvelope.ev
        else l.state.rows).count e := by
    intro e
    split
    · rw [List.count_append]
      omega
    · exact Nat.le_refl _
  constructor
  · exact hs.log
  · refine ⟨IngestConsumer.inv_step _ _ _ _ hs.delivery.consumer h, hs.delivery.handed, ?_, ?_⟩
    · rw [hrec']
      exact hs.delivery.received
    · intro k hk
      simp only [Option.ite_none_right_eq_some, Bool.and_eq_true, decide_eq_true_eq,
        Option.some.injEq] at hk
      obtain ⟨⟨rfl, hpos⟩, rfl⟩ := hk
      refine ⟨hpos, hlast'.symm, ?_⟩
      have hcovers := (ConsumerAckGate.covers_iff hs.delivery.consumer
        l.state.consumer.lastWALIdx).mpr (hsafe rfl hpos)
      simp only [Covers, IngestConsumer.receivedOf_append, IngestConsumer.insertedOf_append]
        at hcovers
      simp only [Covers, hrec', hins]
      simpa [receivedOf, insertedOf] using hcovers
  · refine ⟨fun e he => ?_, fun _ e he => ?_⟩
    · exact Nat.le_trans (hs.stored.cut e he) (hgrow e)
    · have hle := hs.stored.inserted hup e he
      simp only [hins]
      cases ok with
      | true =>
        simp only [Bool.true_or, if_true, List.count_append, copies_append] at hle ⊢
        simp only [copies] at hle ⊢
        omega
      | false =>
        simp only [reduceCtorEq, if_false, List.append_nil, IngestConsumer.Action.insertBatch.injEq]
        exact Nat.le_trans hle (hgrow e)
  · intro hdown
    simp [hup] at hdown
  · exact hs.accepted

/-- The ack cuts off what the store has. -/
theorem Inv.ack (hs : Inv cfg l) {k : ℕ} {fault : TruncateFault} {syncer : GroupSyncer.State}
    (hup : l.state.up = true) (hack : l.state.pendingAck = some k)
    (h : GroupSyncer.step cfg.syncer l.state.syncer (.walAck k fault) = some syncer) :
    Inv cfg { l with state := { l.state with syncer := syncer, pendingAck := none } } := by
  obtain ⟨hpos, rfl, hcovers⟩ := hs.delivery.acking k hack
  obtain ⟨rest, hdur, habove, hbelow⟩ := received_split hs.log hs.delivery hpos
  have hfirst := l.state.syncer.wal.first_ack cfg.syncer.format l.state.consumer.lastWALIdx fault
    hs.log.holding.inOrder
  have hlog : LogInv l.durable syncer := by
    refine hs.log.step h (by simp [WritesThrough, writeEnv]) ?_ ?_
    · obtain rfl := walAck_step h
      have hle := hs.log.indices.first
      dsimp only
      omega
    · intro env he
      obtain rfl := walAck_step h
      have hlt := habove env (List.mem_append_right _ he)
      have hle := hs.log.indices.pending env he
      dsimp only
      omega
  obtain rfl := walAck_step h
  constructor
  · exact hlog
  · exact ⟨hs.delivery.consumer, hs.delivery.handed, hs.delivery.received, by simp⟩
  · refine ⟨fun e he => ?_, fun _ => hs.stored.inserted hup⟩
    simp only [Ledger.allDurable]
    rcases hfirst with hsame | ⟨hle, -⟩
    · rw [hsame]
      exact hs.stored.cut e he
    · have hrest : rest.filter (fun env => env.idx <
          (l.state.syncer.wal.ack cfg.syncer.format l.state.consumer.lastWALIdx fault).2.log.first) = [] := by
        rw [List.filter_eq_nil_iff]
        intro env hm
        have hlt := habove env (List.mem_append_left _ hm)
        simp only [decide_eq_true_eq]
        omega
      have hrec : ((receivedOf l.state.consumer.trace).filter (fun env => env.idx <
          (l.state.syncer.wal.ack cfg.syncer.format l.state.consumer.lastWALIdx fault).2.log.first)).Subperm
          (insertedOf l.state.consumer.trace) := by
        refine List.Subperm.trans (List.Sublist.subperm ?_) hcovers
        refine List.monotone_filter_right _ ?_
        intro env hm
        simp only [decide_eq_true_eq] at hm ⊢
        omega
      have hins := hs.stored.inserted hup e he
      have hold := copies_le_of_subperm (e := e) (List.filter_sublist (l := l.durable)
        (p := fun env => env.idx <
          (l.state.syncer.wal.ack cfg.syncer.format l.state.consumer.lastWALIdx fault).2.log.first)).subperm
      have hnew := copies_le_of_subperm (e := e) hrec
      rw [hdur, List.filter_append, List.filter_append, hrest, List.append_nil, copies_append]
      rw [copies_append] at hins
      omega
  · intro hdown
    simp [hup] at hdown
  · exact hs.accepted

/-- A deletion takes rows that it concerns, and the ledger remembers it. -/
theorem Inv.deleted (hs : Inv cfg l) {er : Erasure} {erasures : List Erasure} :
    Inv cfg { l with
      state := { l.state with
        rows := l.state.rows.filter (fun e => ¬ er.Concerns cfg e)
        erasures := erasures }
      deletions := l.deletions ++ [er] } := by
  have hrows : ∀ e, Remains cfg { l with deletions := l.deletions ++ [er] } e →
      Remains cfg l e ∧ (l.state.rows.filter (fun e => ¬ er.Concerns cfg e)).count e =
        l.state.rows.count e := by
    intro e he
    refine ⟨fun er' hm => he er' (List.mem_append_left _ hm), ?_⟩
    have hnot : ¬ er.Concerns cfg e := he er (List.mem_append_right _ (List.mem_singleton_self er))
    exact List.count_filter (by simpa using hnot)
  constructor
  · exact hs.log
  · obtain ⟨hconsumer, hhanded, hreceived, hacking⟩ := hs.delivery
    exact ⟨hconsumer, hhanded, hreceived, hacking⟩
  · refine ⟨fun e he => ?_, fun hup e he => ?_⟩
    · obtain ⟨hold, hcount⟩ := hrows e he
      exact hcount ▸ hs.stored.cut e hold
    · obtain ⟨hold, hcount⟩ := hrows e he
      exact hcount ▸ hs.stored.inserted hup e hold
  · intro hdown
    obtain ⟨h₁, h₂, h₃, h₄, h₅⟩ := hs.down hdown
    exact ⟨h₁, h₂, h₃, h₄, h₅⟩
  · exact hs.accepted

private theorem mem_returnedNil
    {s : GroupSyncer.State} {env : WALEnvelope} (h : env ∈ returnedNil s) :
    ∃ (c : ℕ) (k : Call), s.calls[c]? = some k ∧ k.status = .returned ⟨env.idx, none⟩ ∧
      env.ev = k.ev := by
  obtain ⟨k, hk, henv⟩ := List.mem_filterMap.mp h
  obtain ⟨c, hc⟩ := List.getElem?_of_mem hk
  split at henv
  · rename_i i hstatus
    obtain rfl := Option.some.inj henv
    exact ⟨c, k, hc, hstatus, rfl⟩
  · simp at henv

/-- What was returned is durable. -/
theorem returnedNil_durable {s : GroupSyncer.State} (hs : GroupCommit.Inv s) {env : WALEnvelope}
    (h : env ∈ returnedNil s) : env ∈ durableOf s.trace := by
  obtain ⟨c, k, hk, hstatus, hev⟩ := mem_returnedNil h
  obtain ⟨-, batch, -, hsub⟩ := GroupCommit.returned_committed hs hk hstatus
  refine List.mem_flatMap.mpr ⟨.answered ⟨c, k.ev⟩ ⟨env.idx, none⟩, hsub.subset (by simp), ?_⟩
  simp [envelopeOf, ← hev]

private theorem nodup_returnedNil {s : GroupSyncer.State} (hs : GroupCommit.Inv s) :
    (returnedNil s).Nodup := by
  have hpair : s.calls.Pairwise (fun k k' => ∀ i, k.status = .returned ⟨i, none⟩ →
      k'.status ≠ .returned ⟨i, none⟩) := by
    rw [List.pairwise_iff_getElem]
    intro c d hc hd hlt i hk hk'
    have happ := (GroupCommit.returned_committed hs (List.getElem?_eq_getElem hc) hk).1
    have happ' := (GroupCommit.returned_committed hs (List.getElem?_eq_getElem hd) hk').1
    have hcd := congrArg WalReq.id (GroupCommit.appended_index_inj hs.indexed happ happ')
    simp only at hcd
    omega
  refine List.Pairwise.filterMap _ ?_ hpair
  intro k k' hne env henv env' henv' heq
  subst heq
  split at henv
  · rename_i i hstatus
    split at henv'
    · rename_i j hstatus'
      have henvs := (Option.some.inj henv).trans (Option.some.inj henv').symm
      have hij := congrArg WALEnvelope.idx henvs
      obtain rfl : i = j := hij
      exact hne i hstatus hstatus'
    · simp at henv'
  · simp at henv

/-- What was accepted up to now is durable, each acceptance for itself. -/
theorem Inv.accepted_subperm (hs : Inv cfg l) : l.allAccepted.Subperm l.allDurable := by
  refine hs.accepted.append ?_
  exact (nodup_returnedNil hs.log.commit).subperm
    (fun env he => returnedNil_durable hs.log.commit he)

/-- A crash that keeps what is durable. -/
theorem Inv.crash (hs : Inv cfg l) {kept listKept listHardened : ℕ}
    (hkept : ∀ env ∈ l.allDurable, env.idx < l.state.syncer.wal.log.tail.index + kept) :
    Inv cfg ⟨ErasureSystem.crash l.state kept 0 listKept listHardened, l.allDurable, l.allAccepted,
      l.deletions⟩ := by
  have horder := hs.log.holding.inOrder.crash kept
  have hholds : ∀ env ∈ l.allDurable,
      (newWALWriter (l.state.syncer.wal.log.crash kept 0)).log.Holds env.idx env.ev :=
    fun env he => (hs.log.holds_all he).crash hs.log.holding.inOrder (hkept env he)
  constructor
  · refine logInv_restart (l := l.state.syncer.wal.log.crash kept 0) horder
      hs.log.allDurable_sorted hholds (fun env he => ?_) horder.first_le
    exact Nat.lt_succ_of_le ((hholds env he).le_last horder)
  · exact ⟨IngestConsumer.inv_init, List.prefix_refl _, rfl, by simp [ErasureSystem.crash]⟩
  · refine ⟨fun e he => ?_, by simp [ErasureSystem.crash]⟩
    have hcut := hs.stored.cut e he
    have hfirst := first_crash l.state.syncer.wal.log kept 0
    have hnil : (ErasureSystem.crash l.state kept 0 listKept listHardened).syncer.trace = [] := rfl
    simp only [Ledger.allDurable, hnil, durableOf, List.flatMap_nil, List.append_nil] at hcut ⊢
    rw [← hfirst] at hcut
    exact hcut
  · exact fun _ => ⟨rfl, rfl, rfl, rfl, rfl⟩
  · exact hs.accepted_subperm

/-- Entries at increasing indices are entries of the log as often as there are indices. -/
theorem copies_le_entries {log : Log EnrichedEvent} {envs : List WALEnvelope}
    (hsorted : (envs.map WALEnvelope.idx).Pairwise (· < ·))
    (hholds : ∀ env ∈ envs, log.Holds env.idx env.ev) (e : EnrichedEvent) :
    copies e (envs.filter (fun env => log.first ≤ env.idx)) ≤ log.entries.count e := by
  have hget : ∀ env ∈ envs.filter (fun env => log.first ≤ env.idx),
      log.first ≤ env.idx ∧ log.entries[env.idx - log.first]? = some env.ev := by
    intro env he
    obtain ⟨hm, hle⟩ := List.mem_filter.mp he
    exact ⟨of_decide_eq_true hle, hholds env hm (of_decide_eq_true hle)⟩
  have hnodup : ((envs.filter (fun env => log.first ≤ env.idx)).map
      (fun env => env.idx - log.first)).Nodup := by
    rw [List.pairwise_map] at hsorted
    rw [List.Nodup, List.pairwise_map]
    refine List.Pairwise.imp_of_mem ?_ (hsorted.filter _)
    intro a b ha hb hlt
    have hale := (hget a ha).1
    have hble := (hget b hb).1
    omega
  have hsubset : (envs.filter (fun env => log.first ≤ env.idx)).map
      (fun env => env.idx - log.first) ⊆ List.range log.entries.length := by
    intro i hi
    obtain ⟨env, he, rfl⟩ := List.mem_map.mp hi
    exact List.mem_range.mpr (List.getElem?_eq_some_iff.mp (hget env he).2).1
  have hle := count_map_le_of_subperm (hnodup.subperm hsubset) (fun i => log.entries[i]?) (some e)
  have hleft : ((envs.filter (fun env => log.first ≤ env.idx)).map
      (fun env => env.idx - log.first)).map (fun i => log.entries[i]?) =
      ((envs.filter (fun env => log.first ≤ env.idx)).map WALEnvelope.ev).map some := by
    rw [List.map_map, List.map_map]
    exact List.map_congr_left (fun env he => (hget env he).2)
  have hright : (List.range log.entries.length).map (fun i => log.entries[i]?) =
      log.entries.map some := by
    apply List.ext_getElem?
    intro i
    by_cases hi : i < log.entries.length <;> simp [hi]
  have hinj := Option.some_injective EnrichedEvent
  rw [hleft, hright, List.count_map_of_injective _ _ hinj, List.count_map_of_injective _ _ hinj]
    at hle
  exact hle

variable {fmt : Format EnrichedEvent}

private theorem boot_inserted {env : BootReplay.BootEnv EnrichedEvent} {log : Log EnrichedEvent}
    (horder : log.InOrder)
    (h : (BootReplay.boot fmt some env log : BootReplay.BootResult _ EnrichedEvent).err = none) :
    (BootReplay.boot fmt some env log).inserted = log.entries := by
  by_cases hne : log.entries = []
  · obtain ⟨err, opened, -, -, -, -, heq⟩ :=
      BootReplay.boot_of_empty fmt some env horder hne
    rw [heq, hne]
  · rw [(BootReplay.boot_nil horder hne h).1, List.filterMap_some]

/-- The log after a boot still holds what is durable, and its first index is not ahead of
the next one. -/
theorem logInv_boot (fmt : Format EnrichedEvent) {log : Log EnrichedEvent} (horder : log.InOrder)
    (hsorted : (durable.map WALEnvelope.idx).Pairwise (· < ·))
    (hholds : ∀ env ∈ durable, log.Holds env.idx env.ev) (env : BootReplay.BootEnv EnrichedEvent) :
    LogInv durable
      { GroupSyncer.init log with wal := (BootReplay.boot fmt some env log).wal } := by
  obtain ⟨opened, hopened, hfirst, -, hentries, hwal⟩ :=
    BootReplay.boot_wal fmt some env horder
  have hheld : ∀ env ∈ durable, opened.Holds env.idx env.ev := fun env he =>
    (hholds env he).append hfirst (hentries.trans (List.append_nil _).symm)
  have hlast : ∀ env ∈ durable, env.idx < (newWALWriter opened).nextIdx := fun env he =>
    Nat.lt_succ_of_le ((hheld env he).le_last hopened)
  rcases hwal with hwal | ⟨-, k, hwal⟩
  · rw [hwal]
    exact logInv_restart hopened hsorted hheld hlast hopened.first_le
  · obtain ⟨hacked, hkeeps⟩ :=
      (newWALWriter opened).ack_inOrder fmt k env.truncate hopened
    have hnext := ((newWALWriter opened).ack_cases fmt k env.truncate).1
    have hcut := (newWALWriter opened).first_ack fmt k env.truncate hopened
    have hle := hopened.first_le
    rw [hwal]
    refine logInv_restart hacked hsorted (fun env he => hkeeps _ _ (hheld env he)) (hnext ▸ hlast)
      ?_
    rw [hnext]
    simp only [newWALWriter] at hcut ⊢
    omega

theorem Inv.boot (hs : Inv cfg l) (env : BootReplay.BootEnv EnrichedEvent) (listOk : Bool)
    (hdown : l.state.up = false) :
    Inv cfg { l with state := ErasureSystem.boot cfg l.state env listOk } := by
  obtain ⟨htrace, hcalls, hout, hconsumer, hack⟩ := hs.down hdown
  have hall : l.allDurable = l.durable := by simp [Ledger.allDurable, htrace, durableOf]
  have hsorted := hs.log.allDurable_sorted
  have hholds := hs.log.holds
  have horder := hs.log.holding.inOrder
  have hlog := logInv_boot cfg.syncer.format horder
    (by simpa [htrace, durableOf] using hsorted) hholds env
  rw [htrace, durableOf, List.flatMap_nil, List.append_nil] at hsorted
  obtain ⟨opened, -, hfirst, -, -, hwal⟩ :=
    BootReplay.boot_wal cfg.syncer.format some env horder
  generalize hr : BootReplay.boot cfg.syncer.format some env l.state.syncer.wal.log = r
  rw [hr] at hwal hlog
  -- The store after the replay, whether it returned nil or not.
  have hcut : ∀ e, Remains cfg l e →
      (r.err = none → copies e l.durable ≤ (l.state.rows ++ r.inserted).count e) ∧
      copies e (l.durable.filter (fun env => env.idx < r.wal.log.first)) ≤
        (l.state.rows ++ r.inserted).count e := by
    intro e he
    have hold := hs.stored.cut e he
    rw [hall] at hold
    rw [List.count_append]
    have hnil : r.err = none → copies e l.durable ≤
        l.state.rows.count e + r.inserted.count e := by
      intro herr
      have hentries := boot_inserted horder (hr ▸ herr)
      rw [hr] at hentries
      rw [copies_split e l.state.syncer.wal.log.first l.durable, hentries]
      exact Nat.add_le_add hold (copies_le_entries hsorted hholds e)
    refine ⟨hnil, ?_⟩
    rcases hwal with hwal | ⟨herr, -⟩
    · rw [hwal, show (newWALWriter opened).log.first = l.state.syncer.wal.log.first from hfirst]
      exact Nat.le_trans hold (Nat.le_add_right _ _)
    · exact Nat.le_trans (copies_le_of_subperm List.filter_sublist.subperm) (hnil herr)
  have hinv : ∀ (up : Bool) (suppression : Suppression.State), (up = true → r.err = none) →
      Inv cfg { l with state := { l.state with
        up := up
        syncer := { GroupSyncer.init l.state.syncer.wal.log with wal := r.wal }
        rows := l.state.rows ++ r.inserted
        suppression := suppression } } := by
    intro up suppression hup
    have hnil : durableOf (GroupSyncer.init l.state.syncer.wal.log).trace = [] := rfl
    constructor
    · exact hlog
    · refine ⟨hs.delivery.consumer, List.prefix_refl _, ?_, by simp [hack]⟩
      simp only [hconsumer]
      rfl
    · refine ⟨fun e he => ?_, fun h e he => ?_⟩
      · simp only [Ledger.allDurable, hnil, List.append_nil]
        exact (hcut e he).2
      · simp only [hconsumer]
        simpa [IngestConsumer.init] using (hcut e he).1 (hup h)
    · exact fun _ => ⟨rfl, rfl, rfl, hconsumer, hack⟩
    · exact hs.accepted
  unfold ErasureSystem.boot
  rw [hr]
  dsimp only
  split
  · have h := hinv false l.state.suppression (by simp)
    rw [← hdown] at h
    exact h
  · exact hinv _ _ (fun _ => ‹_›)

theorem record_eq {a : ErasureSystem.Action} {t : ErasureSystem.State}
    (hcrash : ∀ i j k m, a ≠ .crash i j k m) (hdel : deletionOf l.state a = none) :
    record l a t = { l with state := t } := by
  cases a with
  | crash i j k m => exact absurd rfl (hcrash i j k m)
  | _ => simp [record, hdel]

theorem Inv.eraseDelete (hs : Inv cfg l) {k : ℕ} {result : ErasureSystem.EraseResult} {er : Erasure}
    (her : l.state.erasures[k]? = some er) :
    Inv cfg (record l (.eraseDelete k result) (ErasureSystem.eraseDelete cfg l.state k er result))
      := by
  by_cases hsite : er.siteID = 0
  · rw [record_eq (by simp) (by cases result <;> simp [deletionOf, her, hsite])]
    simp only [ErasureSystem.eraseDelete, if_pos hsite]
    exact hs.same rfl rfl rfl rfl rfl
  · cases result with
    | deleted =>
      have hdel : deletionOf l.state (.eraseDelete k .deleted) = some er := by
        simp [deletionOf, her, hsite]
      simp only [record, hdel, Option.toList_some, ErasureSystem.eraseDelete, if_neg hsite]
      exact hs.deleted
    | discoverFailed =>
      rw [record_eq (by simp) rfl]
      simp only [ErasureSystem.eraseDelete, if_neg hsite]
      exact hs.same rfl rfl rfl rfl rfl
    | execFailed =>
      rw [record_eq (by simp) rfl]
      simp only [ErasureSystem.eraseDelete, if_neg hsite]
      exact hs.same rfl rfl rfl rfl rfl

theorem Inv.party (hs : Inv cfg l) {maxBytes : ℕ} {a : ErasureSystem.Action}
    {t : ErasureSystem.State} (hup : l.state.up = true) (hsafe : Safe maxBytes l (.process a))
    (h : PartyMove cfg l.state a t) : Inv cfg (record l a t) := by
  cases h with
  | begin | gate | resume | erase | optOut | closeList | eraseAdd =>
    rw [record_eq (by simp) rfl]
    exact hs.same rfl rfl rfl rfl rfl
  | refuse | eraseNobody =>
    rw [record_eq (by simp) rfl]
    exact hs
  | append i hd e syncer _ _ hcall =>
    rw [record_eq (by simp) rfl]
    exact hs.syncer _ hup hcall (by simp) (by simp) (by simp [DeliversInOrder])
      (by simp [WritesThrough, writeEnv])
  | syncer b syncer hown hstep =>
    rw [record_eq (by simp) rfl]
    refine hs.syncer l.state.handlers hup hstep ?_ ?_ hsafe.1 hsafe.2
    · rintro rfl
      simp [ErasureSystem.ownStep] at hown
    · rintro i fault rfl
      simp [ErasureSystem.ownStep] at hown
  | receive env syncer consumer hout hack hconsume hrecv =>
    rw [record_eq (by simp) rfl]
    exact hs.receive hup hout hack hconsume hrecv
  | consumer b consumer hother hack hstep =>
    rw [record_eq (by simp) rfl]
    exact hs.consumer hup hother hack hstep
  | insertBatch ok wrote consumer hack hins =>
    rw [record_eq (by simp) rfl]
    exact hs.insertBatch hup hins hsafe
  | ack fault idx syncer hack hstep =>
    rw [record_eq (by simp) rfl]
    exact hs.ack hup hack hstep
  | eraseDelete k result er her => exact hs.eraseDelete her

private theorem enforceSizeCap_of_le {maxBytes : ℕ} {size : Option ℕ}
    (h : ∀ n ∈ size, n ≤ maxBytes) (fault : TruncateFault) (w : WALWriter EnrichedEvent) :
    enforceSizeCap fmt maxBytes size fault w = w := by
  cases size with
  | none => rfl
  | some n => simp [enforceSizeCap, h n rfl]

theorem inv_step (cfg : ErasureSystem.Config) (maxBytes : ℕ) (l : Ledger) (a : Action)
    (l' : Ledger) (hs : Inv cfg l) (hsafe : Safe maxBytes l a)
    (h : step cfg maxBytes l a = some l') : Inv cfg l' := by
  cases a with
  | process a =>
    obtain ⟨t, ht, rfl⟩ := Option.map_eq_some_iff.mp h
    cases ErasureSystem.step_move ht with
    | boot env listOk hdown =>
      rw [record_eq (by simp) rfl]
      exact hs.boot env listOk hdown
    | crash kept part listKept listHardened =>
      obtain ⟨rfl, hkept⟩ := hsafe
      exact hs.crash hkept
    | party _ _ hup hmove => exact hs.party hup hsafe hmove
  | sizeCap size fault =>
    simp only [step, Option.ite_none_right_eq_some, Option.some.injEq] at h
    obtain ⟨-, rfl⟩ := h
    rw [enforceSizeCap_of_le hsafe]
    exact hs

/-- A process that has replayed the log has stored what earlier ones accepted. -/
theorem Inv.accepted_stored (hs : Inv cfg l) (hup : l.state.up = true) {e : EnrichedEvent}
    (he : Remains cfg l e) : copies e l.accepted ≤ l.state.rows.count e := by
  have hins := hs.stored.inserted hup e he
  have hold := copies_le_of_subperm (e := e) hs.accepted
  rw [copies_append] at hins
  omega

/-- In every run whose steps are safe, an event that no deletion concerns was accepted no
more often than it is in the store and the log together; and once a process has replayed the
log, what earlier processes accepted is in the store, each acceptance for itself. -/
theorem accepted_not_lost (cfg : ErasureSystem.Config) (maxBytes : ℕ)
    (files : Files EnrichedEvent) (rows : List EnrichedEvent)
    (suppressionWAL : JournalFile.File UInt8) (as : List Action)
    (l : Ledger) (h : exec (step cfg maxBytes) (init files rows suppressionWAL) as = some l)
    (hsafe : Along (step cfg maxBytes) (Safe maxBytes) (init files rows suppressionWAL) as)
    (e : EnrichedEvent) (he : Remains cfg l e) :
    copies e l.allAccepted ≤ l.state.rows.count e + l.state.syncer.wal.log.entries.count e ∧
      (l.state.up = true → copies e l.accepted ≤ l.state.rows.count e) := by
  have hinv : Inv cfg l := exec_guarded (inv_step cfg maxBytes) hsafe h
    (inv_init cfg files rows suppressionWAL)
  have haccepted := copies_le_of_subperm (e := e) hinv.accepted_subperm
  constructor
  · have hsplit := copies_split e l.state.syncer.wal.log.first l.allDurable
    have hcut := hinv.stored.cut e he
    have hkept := copies_le_entries hinv.log.allDurable_sorted
      (fun env he => hinv.log.holds_all he) e
    simp only [Ledger.allDurable] at hsplit hcut haccepted
    omega
  · exact fun hup => hinv.accepted_stored hup he

/-- A visit is answered 202, and the process crashes while its batch is not inserted yet. -/
def crashBeforeInsert : List ErasureSystem.Action :=
  ErasureCompleteness.visitToBatch ++ [.crash 1 0 0 0, .boot {} true]

/-- Its next process looks at the size of the log. -/
def crashAndReplay : List Action :=
  crashBeforeInsert.map Action.process ++ [.sizeCap (some 64) .none]

private theorem crashAndReplay_runs :
    (exec (step ErasureCompleteness.liveConfig 100) (init .new [] {}) crashAndReplay).isSome := by
  decide +kernel

def afterReplay : Ledger :=
  (exec (step ErasureCompleteness.liveConfig 100) (init .new [] {}) crashAndReplay).get
    crashAndReplay_runs

/-- The visit was accepted by the process before, and is in the store. -/
theorem accepted_not_lost_afterReplay :
    copies ErasureCompleteness.visitRow afterReplay.accepted = 1 ∧
      copies ErasureCompleteness.visitRow afterReplay.accepted ≤
        afterReplay.state.rows.count ErasureCompleteness.visitRow :=
  ⟨by decide +kernel,
    (accepted_not_lost ErasureCompleteness.liveConfig 100 .new [] {} crashAndReplay afterReplay
      (Option.some_get _).symm (by decide +kernel) ErasureCompleteness.visitRow
      (by decide +kernel)).2 (by decide +kernel)⟩

end Statnive.AcceptedEvents
