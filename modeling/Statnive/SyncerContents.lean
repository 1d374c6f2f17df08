import Statnive.SyncerPipeline

/-!
# The events inside the group syncer

An event lies in a call that waits for the queue, in a stage of the pipe, in the channel
to the consumer or in the log. A step brings in no event but that of a new call.
-/

namespace Statnive.SyncerContents

open IngestEvents SegmentedLog WriteAheadLog GroupSyncer SyncerPipeline

/-- The events of the calls that are not in the queue yet. -/
def waiting (calls : List Call) : List EnrichedEvent :=
  (calls.filter (fun k => k.status = .enqueueing)).map Call.ev

/-- The events on their way through the pipe to the consumer. -/
def staged (p : Pipe) : List EnrichedEvent :=
  p.queue.map WalReq.ev ++ p.unsynced.map (fun it => it.req.ev) ++
    p.unanswered.flatMap (fun ra => (envelopeOf ra.1 ra.2).map WALEnvelope.ev) ++
    p.undelivered.map WALEnvelope.ev

def held (s : State) : List EnrichedEvent :=
  waiting s.calls ++ staged (pipe s) ++ s.out.map WALEnvelope.ev ++ s.wal.log.contents

/-- The channel, the log and the new calls after a step. -/
structure Frame (s : State) (a : Action) (t : State) : Prop where
  out : ∀ env ∈ t.out, env ∈ s.out ∨ env ∈ (pipe s).undelivered
  contents : s.wal.log.Untorn → ∀ e ∈ t.wal.log.contents,
    e ∈ s.wal.log.contents ∨ e ∈ (pipe s).queue.map WalReq.ev
  waiting : ∀ e ∈ waiting t.calls, e ∈ waiting s.calls ∨ a = .call e

theorem frame_of_eq {s t : State} {a : Action} (hout : t.out = s.out) (hwal : t.wal = s.wal)
    (hcalls : t.calls = s.calls) : Frame s a t := by
  constructor
  · exact fun env h => .inl (hout ▸ h)
  · exact fun _ e h => .inl (hwal ▸ h)
  · exact fun e h => .inl (hcalls ▸ h)

theorem mem_waiting {calls : List Call} {e : EnrichedEvent} :
    e ∈ waiting calls ↔ ∃ k ∈ calls, k.status = .enqueueing ∧ k.ev = e := by
  simp [waiting, and_assoc]

/-- Changing a call that keeps its event, and does not start to wait again. -/
theorem mem_waiting_modify {calls : List Call} {c : ℕ} {f : Call → Call} {e : EnrichedEvent}
    (hev : ∀ k, (f k).ev = k.ev) (hst : ∀ k, (f k).status = .enqueueing → k.status = .enqueueing)
    (h : e ∈ waiting (calls.modify c f)) : e ∈ waiting calls := by
  obtain ⟨k, hk, hstatus, rfl⟩ := mem_waiting.mp h
  obtain ⟨d, hd⟩ := List.getElem?_of_mem hk
  simp only [List.getElem?_modify, Option.map_eq_map, Option.map_eq_some_iff] at hd
  obtain ⟨k₀, hk₀, rfl⟩ := hd
  refine mem_waiting.mpr ⟨k₀, List.mem_of_getElem? hk₀, ?_, ?_⟩
  · split at hstatus
    · exact hst k₀ hstatus
    · exact hstatus
  · split
    · exact (hev k₀).symm
    · rfl

theorem frame_of_modify {s t : State} {a : Action} {c : ℕ} {f : Call → Call}
    (hev : ∀ k, (f k).ev = k.ev) (hst : ∀ k, (f k).status = .enqueueing → k.status = .enqueueing)
    (hout : t.out = s.out) (hwal : t.wal = s.wal) (hcalls : t.calls = s.calls.modify c f) :
    Frame s a t := by
  constructor
  · exact fun env h => .inl (hout ▸ h)
  · exact fun _ e h => .inl (hwal ▸ h)
  · intro e h
    rw [hcalls] at h
    exact .inl (mem_waiting_modify hev hst h)

@[simp] theorem resume_out (k : Resume) (s : State) : (resume k s).out = s.out := by
  cases k <;> rfl

@[simp] theorem flush_out (k : Resume) (s : State) : (flush k s).out = s.out := by
  unfold flush
  split <;> simp

@[simp] theorem feed_out (todo : List WALEnvelope) (k : Resume) (s : State) :
    (feed todo k s).out = s.out := by
  unfold feed
  split <;> simp

private theorem frame_appendNext {s : State} {done : List Item} {r : WalReq} {todo : List WalReq}
    {k : Resume} (env : WriteEnv) (hp : s.phase = .appending done (r :: todo) k) :
    Frame s (.append env) (appendNext done r todo k env s) := by
  have hq : r.ev ∈ (pipe s).queue.map WalReq.ev := by simp [pipe_appending hp]
  unfold appendNext
  split
  all_goals
    rename_i w happ
    refine ⟨fun env h => .inl h, fun _ e h => ?_, fun e h => .inl h⟩
    rcases (WALWriter.append_end happ).1.mem h with h | rfl
    · exact .inl h
    · exact .inr hq

private theorem loopMove_frame {cfg : Config} {s t : State} {a : Action} (h : LoopMove cfg s a t) :
    Frame s a t := by
  cases h with
  | stop | recvFlush | timer | exitReturns | drop =>
    exact frame_of_eq (by simp) (by simp) (by simp)
  | recvWait | syncBegin | syncOk | syncFailed | exit => exact frame_of_eq rfl rfl rfl
  | append done r todo k env hp => exact frame_appendNext env hp
  | answerItem done it todo k =>
    refine frame_of_modify (c := it.req.id) (f := fun k => { k with ack := some it.ack })
      (fun _ => rfl) (fun _ => id) ?_ ?_ ?_
    all_goals split <;> simp [send]
  | answerFailed r todo e k =>
    exact frame_of_modify (c := r.id) (f := fun k => { k with ack := some ⟨0, some e⟩ })
      (fun _ => rfl) (fun _ => id) rfl rfl rfl
  | deliver env todo k hp =>
    refine ⟨fun env' h => ?_, fun _ e h => .inl (by simpa using h),
      fun e h => .inl (by simpa using h)⟩
    rw [feed_out] at h
    rcases List.mem_append.mp h with h | h
    · exact .inl h
    · exact .inr (by simpa [pipe_delivering hp] using .inl (List.mem_singleton.mp h))

private theorem frame_ret {s : State} {b : Action} (c : ℕ) (a : WalAck) : Frame s b (ret c a s) :=
  frame_of_modify (c := c) (f := fun k => { k with status := .returned a }) (fun _ => rfl)
    (by simp) rfl rfl rfl

private theorem outerMove_frame
    {cfg : Config} {s t : State} {a : Action} (h : OuterMove cfg s a t) :
    Frame s a t := by
  cases h with
  | call ev =>
    refine ⟨fun env h => .inl h, fun _ e h => .inl h, fun e h => ?_⟩
    simp only [waiting, List.filter_append, List.map_append, List.mem_append] at h
    rcases h with h | h
    · exact .inl h
    · exact .inr (by simpa [eq_comm] using h)
  | cancel c =>
    exact frame_of_modify (c := c) (f := fun k => { k with ctxDone := true }) (fun _ => rfl)
      (fun _ => id) rfl rfl rfl
  | enqueue c =>
    exact frame_of_modify (c := c) (f := fun k => { k with status := .waiting }) (fun _ => rfl)
      (by simp) rfl rfl rfl
  | enqueueDone c | enqueueStopped c | receive c | waitDone c => exact frame_ret c _
  | close => exact frame_of_eq rfl rfl rfl
  | consume env rest hout =>
    exact ⟨fun env' h => .inl (by rw [hout]; exact List.mem_cons_of_mem _ h), fun _ e h => .inl h,
      fun e h => .inl h⟩
  | walAck throughIndex fault =>
    exact ⟨fun env h => .inl h, fun hu e h => .inl ((WALWriter.ack_untorn _ _ _ _ hu).2 e h),
      fun e h => .inl h⟩

private theorem step_frame {cfg : Config} {s t : State} {a : Action} (h : step cfg s a = some t) :
    Frame s a t :=
  (step_move h).elim loopMove_frame outerMove_frame

theorem mem_staged {p : Pipe} {e : EnrichedEvent} :
    e ∈ staged p ↔ (∃ r ∈ p.queue, r.ev = e) ∨ (∃ it ∈ p.unsynced, it.req.ev = e) ∨
      (∃ ra ∈ p.unanswered, e ∈ (envelopeOf ra.1 ra.2).map WALEnvelope.ev) ∨
      ∃ env ∈ p.undelivered, env.ev = e := by
  simp only [staged, List.mem_append, List.mem_map, List.mem_flatMap, or_assoc]

private theorem ev_of_mem_envelopeOf {r : WalReq} {a : WalAck} {e : EnrichedEvent}
    (h : e ∈ (envelopeOf r a).map WALEnvelope.ev) : r.ev = e := by
  unfold envelopeOf at h
  split at h
  · simpa [eq_comm] using h
  · simp at h

/-- What a step leaves in the stages was there, or waited for the queue. -/
theorem staged_of_effect {s t : State} {a : Action} (h : Effect s a t) {e : EnrichedEvent}
    (he : e ∈ staged (pipe t)) : e ∈ staged (pipe s) ∨ e ∈ waiting s.calls := by
  cases h with
  | idle hpipe => exact .inl (hpipe ▸ he)
  | accepted c k hk hst hpipe =>
    rw [hpipe, mem_staged] at he
    rcases he with ⟨r, hr, rfl⟩ | hrest
    · rcases List.mem_append.mp hr with hr | hr
      · exact .inl (mem_staged.mpr (.inl ⟨r, hr, rfl⟩))
      · obtain rfl := List.mem_singleton.mp hr
        exact .inr (mem_waiting.mpr ⟨k, List.mem_of_getElem? hk, hst, rfl⟩)
    · exact .inl (mem_staged.mpr (.inr hrest))
  | tried it q hq _ hpipe =>
    rw [hpipe, mem_staged] at he
    refine .inl (mem_staged.mpr ?_)
    rcases he with ⟨r, hr, rfl⟩ | ⟨it', hit, rfl⟩ | hrest
    · exact .inl ⟨r, by simp [hq, hr], rfl⟩
    · rcases List.mem_append.mp hit with hit | hit
      · exact .inr (.inl ⟨it', hit, rfl⟩)
      · obtain rfl := List.mem_singleton.mp hit
        exact .inl ⟨it'.req, by simp [hq], rfl⟩
    · exact .inr (.inr hrest)
  | syncStarted hpipe => exact .inl (by simpa [hpipe, staged] using he)
  | syncOk _ _ hpipe =>
    rw [hpipe, mem_staged] at he
    refine .inl (mem_staged.mpr ?_)
    rcases he with hq | ⟨it, hit, -⟩ | ⟨ra, hra, hev⟩ | hrest
    · exact .inl hq
    · simp at hit
    · obtain ⟨it, hit, rfl⟩ := List.mem_map.mp hra
      exact .inr (.inl ⟨it, hit, ev_of_mem_envelopeOf hev⟩)
    · exact .inr (.inr (.inr hrest))
  | syncFailed err _ hpipe =>
    rw [hpipe, mem_staged] at he
    refine .inl (mem_staged.mpr ?_)
    rcases he with hq | ⟨it, hit, -⟩ | ⟨ra, hra, hev⟩ | hrest
    · exact .inl hq
    · simp at hit
    · obtain ⟨r, -, rfl⟩ := List.mem_map.mp hra
      simp [envelopeOf] at hev
    · exact .inr (.inr (.inr hrest))
  | answered r a rest hun hpipe =>
    rw [hpipe, mem_staged] at he
    refine .inl (mem_staged.mpr ?_)
    rcases he with hq | hu | ⟨ra, hra, hev⟩ | ⟨env, henv, rfl⟩
    · exact .inl hq
    · exact .inr (.inl hu)
    · exact .inr (.inr (.inl ⟨ra, by simp [hun, hra], hev⟩))
    · rcases List.mem_append.mp henv with henv | henv
      · exact .inr (.inr (.inr ⟨env, henv, rfl⟩))
      · exact .inr (.inr (.inl ⟨(r, a), by simp [hun], List.mem_map_of_mem henv⟩))
  | handled env rest hun hpipe =>
    rw [hpipe, mem_staged] at he
    refine .inl (mem_staged.mpr ?_)
    rcases he with hq | hu | ha | ⟨env', henv, rfl⟩
    · exact .inl hq
    · exact .inr (.inl hu)
    · exact .inr (.inr (.inl ha))
    · exact .inr (.inr (.inr ⟨env', by simp [hun, henv], rfl⟩))
  | returned _ _ _ _ _ hpipe => exact .inl (hpipe ▸ he)

theorem mem_held {s : State} {e : EnrichedEvent} :
    e ∈ held s ↔ e ∈ waiting s.calls ∨ e ∈ staged (pipe s) ∨ (∃ env ∈ s.out, env.ev = e) ∨
      e ∈ s.wal.log.contents := by
  simp only [held, List.mem_append, List.mem_map, or_assoc]

theorem held_step {cfg : Config} {s t : State} {a : Action} (h : step cfg s a = some t)
    (hu : s.wal.log.Untorn) {e : EnrichedEvent} (he : e ∈ held t) : e ∈ held s ∨ a = .call e := by
  have hf := step_frame h
  rcases mem_held.mp he with hw | hs | ⟨env, henv, rfl⟩ | hl
  · exact (hf.waiting e hw).imp_left (fun hw => mem_held.mpr (.inl hw))
  · rcases staged_of_effect (step_effect h) hs with hs | hw
    · exact .inl (mem_held.mpr (.inr (.inl hs)))
    · exact .inl (mem_held.mpr (.inl hw))
  · rcases hf.out env henv with henv | henv
    · exact .inl (mem_held.mpr (.inr (.inr (.inl ⟨env, henv, rfl⟩))))
    · have hst : env.ev ∈ staged (pipe s) := mem_staged.mpr (.inr (.inr (.inr ⟨env, henv, rfl⟩)))
      exact .inl (mem_held.mpr (.inr (.inl hst)))
  · rcases hf.contents hu e hl with hl | hq
    · exact .inl (mem_held.mpr (.inr (.inr (.inr hl))))
    · have hst : e ∈ staged (pipe s) := mem_staged.mpr (.inl (List.mem_map.mp hq))
      exact .inl (mem_held.mpr (.inr (.inl hst)))

/-- No write leaves part of its entry in a file of the log. -/
def LeavesWhole (a : Action) : Prop := ∀ env ∈ writeEnv a, env.Untorn

instance : DecidablePred LeavesWhole := fun a =>
  inferInstanceAs (Decidable (∀ env ∈ writeEnv a, env.Untorn))

theorem untorn_step {cfg : Config} {s t : State} {a : Action} (h : step cfg s a = some t)
    (hs : s.wal.log.Untorn) (ha : LeavesWhole a) : t.wal.log.Untorn := by
  cases step_effect h with
  | idle _ _ hwal =>
    rcases hwal.log with hsame | ⟨fmt, n, fault, hcut⟩
    · exact hsame ▸ hs
    · rw [hcut]
      exact (hs.truncateFront fmt n fault).1
  | tried it q _ _ _ _ hwal =>
    obtain ⟨env, res, rfl, -, hwrote⟩ := hwal.wrote
    exact hwrote.untorn hs (ha env rfl)
  | accepted _ _ _ _ _ _ hwal => exact hwal ▸ hs
  | syncStarted _ _ hwal => exact hwal ▸ hs
  | syncOk _ _ _ _ hwal => exact hwal ▸ hs
  | syncFailed _ _ _ _ hwal => exact hwal ▸ hs
  | answered _ _ _ _ _ _ hwal => exact hwal ▸ hs
  | handled _ _ _ _ _ hwal => exact hwal ▸ hs
  | returned _ _ _ _ _ _ _ hwal => exact hwal ▸ hs

end Statnive.SyncerContents
