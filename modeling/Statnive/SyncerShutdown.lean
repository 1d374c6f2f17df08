import Statnive.GroupCommit

/-!
# The shutdown of the group syncer

Once `stopCh` is closed the loop may take its stop branch, after which it flushes what
is pending and returns. It does not look into `incoming` again.
-/

namespace Statnive.SyncerShutdown

open LabelledRuns IngestEvents SegmentedLog WriteAheadLog GroupSyncer SyncerPipeline

def ending : Phase → Bool
  | .appending _ _ k => decide (k = .ret)
  | .syncing _ k => decide (k = .ret)
  | .acking _ _ k => decide (k = .ret)
  | .failing _ _ k => decide (k = .ret)
  | .fatal k => decide (k = .ret)
  | .delivering _ k => decide (k = .ret)
  | .returned => true
  | _ => false

/-- The loop has taken its stop branch. -/
def Stopping (s : State) : Prop := ending s.phase = true

instance (s : State) : Decidable (Stopping s) := inferInstanceAs (Decidable (_ = _))

theorem resume_turn (k : Resume) (s : State) :
    ending (resume k s).phase = decide (k = .ret) ∧ (resume k s).stopped = s.stopped ∧
      (resume k s).incoming = s.incoming ∧ (resume k s).pending = s.pending := by
  cases k <;> exact ⟨rfl, rfl, rfl, rfl⟩

theorem flush_turn (k : Resume) (s : State) :
    ending (flush k s).phase = decide (k = .ret) ∧ (flush k s).stopped = s.stopped ∧
      (flush k s).incoming = s.incoming ∧ (flush k s).pending = [] := by
  unfold flush
  split
  · rename_i hnil
    obtain ⟨hend, hstop, hinc, hpend⟩ := resume_turn k s
    exact ⟨hend, hstop, hinc, hpend.trans hnil⟩
  · exact ⟨rfl, rfl, rfl, rfl⟩

theorem not_stopping_flush (s : State) : ¬ Stopping (flush .loop s) := by
  rw [Stopping, (flush_turn .loop s).1]
  decide

private theorem feed_turn (todo : List WALEnvelope) (k : Resume) (s : State) :
    ending (feed todo k s).phase = decide (k = .ret) ∧ (feed todo k s).stopped = s.stopped ∧
      (feed todo k s).incoming = s.incoming ∧ (feed todo k s).pending = s.pending := by
  unfold feed
  split
  · exact resume_turn k s
  · exact ⟨rfl, rfl, rfl, rfl⟩

/-- What a step does to the loop's position and to what waits for the loop. -/
structure Turn (s : State) (a : Action) (t : State) : Prop where
  ending : a ≠ .loopStop → t.phase ≠ .exited → (Stopping t ↔ Stopping s)
  stop : a = .loopStop → Stopping t ∧ s.stopped = true
  stopped : s.stopped = true → t.stopped = true
  incoming : ((∀ c, a ≠ .enqueue c) ∧ t.incoming = s.incoming) ∨
    (∃ c r, a = .enqueue c ∧ t.incoming = s.incoming ++ [r]) ∨ a = .loopRecv ∧ ¬ Stopping s
  pending : (s.phase ≠ .select → s.pending = []) → t.phase ≠ .select → t.pending = []

/-- A step within a flush. -/
theorem turn_of_flush {s t : State} {a : Action} (ha : a ≠ .loopStop ∧ ∀ c, a ≠ .enqueue c)
    (hend : ending t.phase = ending s.phase ∨ t.phase = .exited) (hstop : t.stopped = s.stopped)
    (hinc : t.incoming = s.incoming) (hsel : s.phase ≠ .select) (hpend : t.pending = s.pending) :
    Turn s a t := by
  refine ⟨fun _ hne => ?_, fun h => absurd h ha.1, fun h => hstop ▸ h, .inl ⟨ha.2, hinc⟩, ?_⟩
  · rw [Stopping, Stopping, hend.resolve_right hne]
  · intro h _
    rw [hpend]
    exact h hsel

theorem turn_of_feed {s u : State} {a : Action} (ha : a ≠ .loopStop ∧ ∀ c, a ≠ .enqueue c)
    (todo : List WALEnvelope) {k : Resume} (hend : ending s.phase = decide (k = .ret))
    (hstop : u.stopped = s.stopped) (hinc : u.incoming = s.incoming)
    (hsel : s.phase ≠ .select) (hpend : u.pending = s.pending) :
    Turn s a (feed todo k u) := by
  obtain ⟨hend', hstop', hinc', hpend'⟩ := feed_turn todo k u
  exact turn_of_flush ha (.inl (hend'.trans hend.symm)) (hstop'.trans hstop) (hinc'.trans hinc)
    hsel (hpend'.trans hpend)

private theorem turn_appendNext {s : State} {done : List Item} {r : WalReq} {todo : List WalReq}
    {k : Resume} (env : WriteEnv) (hp : s.phase = .appending done (r :: todo) k) :
    Turn s (.append env) (appendNext done r todo k env s) := by
  unfold appendNext
  split
  all_goals exact turn_of_flush (by simp) (.inl (by simp [hp, ending])) rfl rfl (by simp [hp]) rfl

private theorem loopMove_turn {cfg : Config} {s t : State} {a : Action} (h : LoopMove cfg s a t) :
    Turn s a t := by
  cases h with
  | stop hp hs =>
    obtain ⟨hend, hstop, hinc, hpend⟩ := flush_turn .ret s
    exact ⟨fun h => absurd rfl h, fun _ => ⟨hend, hs⟩, fun _ => hstop.trans hs,
      .inl ⟨by simp, hinc⟩, fun _ _ => hpend⟩
  | recvFlush r rest hp =>
    have hns : ¬ Stopping s := by simp [Stopping, hp, ending]
    exact ⟨fun _ _ => iff_of_false (not_stopping_flush _) hns, by simp,
      fun h => (flush_turn .loop _).2.1.trans h, .inr (.inr ⟨rfl, hns⟩),
      fun _ _ => (flush_turn .loop _).2.2.2⟩
  | recvWait r rest hp =>
    have hns : ¬ Stopping s := by simp [Stopping, hp, ending]
    exact ⟨fun _ _ => .rfl, by simp, fun h => h, .inr (.inr ⟨rfl, hns⟩), fun _ h => absurd hp h⟩
  | timer hp =>
    have hns : ¬ Stopping s := by simp [Stopping, hp, ending]
    exact ⟨fun _ _ => iff_of_false (not_stopping_flush _) hns, by simp,
      fun h => (flush_turn .loop _).2.1.trans h, .inl ⟨by simp, (flush_turn .loop _).2.2.1⟩,
      fun _ _ => (flush_turn .loop _).2.2.2⟩
  | append done r todo k env hp => exact turn_appendNext env hp
  | syncBegin done k hp | syncOk batch k ok hp | syncFailed batch k ok e hp =>
    exact turn_of_flush (by simp) (.inl (by simp [hp, ending])) rfl rfl (by simp [hp]) rfl
  | answerItem done it todo k hp =>
    split
    · exact turn_of_feed (by simp) _ (by rw [hp]; rfl) rfl rfl (by simp [hp]) rfl
    · exact turn_of_flush (by simp) (.inl (by simp [hp, ending])) rfl rfl (by simp [hp]) rfl
  | answerFailed r todo e k hp =>
    refine turn_of_flush (by simp) (.inl ?_) rfl rfl (by simp [hp]) rfl
    dsimp only
    split <;> simp [hp, ending]
  | exitReturns k hp =>
    obtain ⟨hend, hstop, hinc, hpend⟩ := resume_turn k s
    exact turn_of_flush (by simp) (.inl (by rw [hend, hp]; rfl)) hstop hinc (by simp [hp]) hpend
  | exit k hp => exact turn_of_flush (by simp) (.inr rfl) rfl rfl (by simp [hp]) rfl
  | deliver env todo k hp | drop env todo k hp =>
    exact turn_of_feed (by simp) todo (by rw [hp]; rfl) rfl rfl (by simp [hp]) rfl

theorem turn_of_outer {s t : State} {a : Action} (ha : a ≠ .loopStop) (hp : t.phase = s.phase)
    (hstop : s.stopped = true → t.stopped = true) (hpend : t.pending = s.pending)
    (hinc : ((∀ c, a ≠ .enqueue c) ∧ t.incoming = s.incoming) ∨
      ∃ c r, a = .enqueue c ∧ t.incoming = s.incoming ++ [r]) : Turn s a t := by
  refine ⟨fun _ _ => by rw [Stopping, Stopping, hp], fun h => absurd h ha, hstop,
    hinc.imp_right .inl, ?_⟩
  rw [hp, hpend]
  exact fun h => h

private theorem outerMove_turn {cfg : Config} {s t : State} {a : Action} (h : OuterMove cfg s a t) :
    Turn s a t := by
  cases h with
  | enqueue c => exact turn_of_outer (by simp) rfl id rfl (.inr ⟨c, _, rfl, rfl⟩)
  | close => exact turn_of_outer (by simp) rfl (fun _ => rfl) rfl (.inl ⟨by simp, rfl⟩)
  | _ => exact turn_of_outer (by simp) rfl id rfl (.inl ⟨by simp, rfl⟩)

theorem step_turn {cfg : Config} {s t : State} {a : Action} (h : step cfg s a = some t) :
    Turn s a t :=
  (step_move h).elim loopMove_turn outerMove_turn

structure Ending (s : State) : Prop where
  stopped : Stopping s → s.stopped = true
  pending : s.phase ≠ .select → s.pending = []

private theorem ending_init (l : Log EnrichedEvent) : Ending (init l) :=
  ⟨by simp [Stopping, init, ending], by simp [init]⟩

theorem not_stopping_exited {s : State} (h : s.phase = .exited) : ¬ Stopping s := by
  simp [Stopping, h, ending]

private theorem ending_step (cfg : Config) (s : State) (a : Action) (t : State) (hs : Ending s)
    (h : step cfg s a = some t) : Ending t := by
  have hturn := step_turn h
  constructor
  · intro ht
    apply hturn.stopped
    by_cases ha : a = .loopStop
    · exact (hturn.stop ha).2
    · by_cases hex : t.phase = .exited
      · exact absurd ht (not_stopping_exited hex)
      · exact hs.stopped ((hturn.ending ha hex).mp ht)
  · exact hturn.pending hs.pending

/-- The loop takes its stop branch with nothing in `incoming`, and nothing is enqueued
after that. -/
def NothingLeft (s : State) (a : Action) : Prop :=
  (a = .loopStop → s.incoming = []) ∧ ∀ c, a = .enqueue c → ¬ Stopping s

/-- Something is left in `incoming` that the loop will not take. -/
def Left (s : State) : Prop := (Stopping s ∨ s.phase = .exited) ∧ s.incoming ≠ []

private theorem stopping_or_exited {s t : State} {a : Action} (h : Turn s a t) (hs : Stopping s) :
    Stopping t ∨ t.phase = .exited := by
  by_cases ha : a = .loopStop
  · exact .inl (h.stop ha).1
  · by_cases hex : t.phase = .exited
    · exact .inr hex
    · exact .inl ((h.ending ha hex).mpr hs)

private theorem left_step (cfg : Config) (s : State) (a : Action) (t : State)
    (hd : Left s ∨ ¬ NothingLeft s a) (h : step cfg s a = some t) : Left t := by
  have hturn := step_turn h
  have hne : s.phase ≠ .exited := by
    intro hex
    simp [step, hex] at h
  have hmiss : Stopping s ∧ (s.incoming ≠ [] ∨ ∃ c, a = .enqueue c) ∨
      a = .loopStop ∧ s.incoming ≠ [] := by
    rcases hd with ⟨hs, hi⟩ | hn
    · exact .inl ⟨hs.resolve_right hne, .inl hi⟩
    · by_cases hst : Stopping s ∧ ∃ c, a = .enqueue c
      · exact .inl ⟨hst.1, .inr hst.2⟩
      · refine .inr (Classical.not_imp.mp (fun hstop => hn ⟨hstop, fun c hc hs => ?_⟩))
        exact hst ⟨hs, c, hc⟩
  rcases hmiss with ⟨hs, hi⟩ | ⟨ha, hi⟩
  · refine ⟨stopping_or_exited hturn hs, ?_⟩
    rcases hturn.incoming with ⟨hq, heq⟩ | ⟨c, r, -, heq⟩ | ⟨-, hns⟩
    · rw [heq]
      exact hi.resolve_right (not_exists.mpr hq)
    · simp [heq]
    · exact absurd hs hns
  · refine ⟨.inl (hturn.stop ha).1, ?_⟩
    rcases hturn.incoming with ⟨-, heq⟩ | ⟨c, r, hc, -⟩ | ⟨hrecv, -⟩
    · rwa [heq]
    · simp [ha] at hc
    · simp [ha] at hrecv

private theorem nothing_waits_step (cfg : Config) (s : State) (a : Action) (t : State)
    (hs : Stopping s → s.incoming = []) (ha : NothingLeft s a) (h : step cfg s a = some t) :
    Stopping t → t.incoming = [] := by
  have hturn := step_turn h
  intro ht
  have hback : a ≠ .loopStop → Stopping s := by
    intro hne
    by_cases hex : t.phase = .exited
    · exact absurd ht (not_stopping_exited hex)
    · exact (hturn.ending hne hex).mp ht
  have hempty : s.incoming = [] := by
    by_cases hstop : a = .loopStop
    · exact ha.1 hstop
    · exact hs (hback hstop)
  rcases hturn.incoming with ⟨-, heq⟩ | ⟨c, r, hc, -⟩ | ⟨hrecv, hns⟩
  · rw [heq, hempty]
  · exact absurd (hback (by simp [hc])) (ha.2 c hc)
  · exact absurd (hback (by simp [hrecv])) hns

private theorem incoming_empty_iff
    {cfg : Config} {l : Log EnrichedEvent} {as : List Action} {t : State}
    (h : exec (step cfg) (init l) as = some t) (hret : t.phase = .returned) :
    t.incoming = [] ↔ Along (step cfg) NothingLeft (init l) as := by
  have hstop : Stopping t := by
    rw [Stopping, hret]
    rfl
  have hne : ¬ Stopping (init l) := by simp [Stopping, init, ending]
  constructor
  · intro hempty
    refine along_of_final (I := fun _ => True) (A := fun _ _ => True) (D := Left)
      (fun _ _ _ _ _ => trivial) (fun s a t _ _ hd hst => left_step cfg s a t hd hst) h ?_ trivial
      ?_
    · exact (along_enabled h).mono (fun _ _ _ => trivial)
    · exact fun hleft => hleft.2 hempty
  · intro hal
    exact exec_guarded (nothing_waits_step cfg) hal h (fun hs => absurd hs hne) hstop

structure Waiters (s : State) : Prop where
  waiting : ∀ (c : ℕ) (k : Call), s.calls[c]? = some k → k.status = .waiting →
    ∃ r ∈ acceptedOf s.trace, r.id = c
  answered : ∀ r ∈ answeredOf s.trace, ∃ k a, s.calls[r.id]? = some k ∧ k.ack = some a

private theorem waiters_init (l : Log EnrichedEvent) : Waiters (init l) :=
  ⟨by simp [init], by simp [init, answeredOf]⟩

/-- A step that keeps what lies in the channels and lets no call start to wait. -/
theorem Waiters.keep {s t : State} (hs : Waiters s)
    (hacc : acceptedOf t.trace = acceptedOf s.trace)
    (hans : answeredOf t.trace = answeredOf s.trace)
    (hold : ∀ (c : ℕ) (k : Call), s.calls[c]? = some k →
      ∃ k', t.calls[c]? = some k' ∧ k'.ack = k.ack)
    (hnew : ∀ (c : ℕ) (k' : Call), t.calls[c]? = some k' → k'.status = .waiting →
      ∃ k, s.calls[c]? = some k ∧ k.status = .waiting) : Waiters t := by
  constructor
  · intro c k' hk' hst
    obtain ⟨k, hk, hst'⟩ := hnew c k' hk' hst
    rw [hacc]
    exact hs.waiting c k hk hst'
  · intro r hr
    obtain ⟨k, a, hk, ha⟩ := hs.answered r (hans ▸ hr)
    obtain ⟨k', hk', hack⟩ := hold r.id k hk
    exact ⟨k', a, hk', hack.trans ha⟩

theorem Waiters.same {s t : State} (hs : Waiters s)
    (hacc : acceptedOf t.trace = acceptedOf s.trace)
    (hans : answeredOf t.trace = answeredOf s.trace) (hcalls : t.calls = s.calls) : Waiters t :=
  hs.keep hacc hans (fun c k hk => ⟨k, by rw [hcalls, hk], rfl⟩)
    (fun c k' hk' hst => ⟨k', by rw [← hcalls, hk'], hst⟩)

theorem Waiters.modify {s t : State} (hs : Waiters s) {c : ℕ} {f : Call → Call}
    (hacc : acceptedOf t.trace = acceptedOf s.trace ∧
      answeredOf t.trace = answeredOf s.trace) (hcalls : t.calls = s.calls.modify c f)
    (hack : ∀ k, (f k).ack = k.ack) (hst : ∀ k, (f k).status ≠ .waiting) : Waiters t := by
  refine hs.keep hacc.1 hacc.2 ?_ ?_
  · intro d k hk
    refine ⟨if c = d then f k else k, by simp [hcalls, List.getElem?_modify, hk], ?_⟩
    split
    · exact hack k
    · rfl
  · intro d k' hk' hw
    rw [hcalls] at hk'
    obtain ⟨k, hk, rfl⟩ := ListAccounting.getElem?_modify_eq_some hk'
    refine ⟨k, hk, ?_⟩
    split at hw
    · exact absurd hw (hst k)
    · exact hw

theorem Waiters.accept {s t : State} (hs : Waiters s) {c : ℕ} {k : Call}
    (htr : t.trace = s.trace ++ [.accepted ⟨c, k.ev⟩])
    (hcalls : t.calls = s.calls.modify c (fun k => { k with status := .waiting })) :
    Waiters t := by
  have hacc : acceptedOf t.trace = acceptedOf s.trace ++ [⟨c, k.ev⟩] := by simp [htr]
  constructor
  · intro d k' hk' hw
    rw [hcalls] at hk'
    obtain ⟨k₀, hk₀, rfl⟩ := ListAccounting.getElem?_modify_eq_some hk'
    by_cases hcd : c = d
    · exact ⟨⟨c, k.ev⟩, by simp [hacc], hcd⟩
    · rw [if_neg hcd] at hw
      obtain ⟨r, hr, hid⟩ := hs.waiting d k₀ hk₀ hw
      exact ⟨r, by simp [hacc, hr], hid⟩
  · intro r hr
    obtain ⟨k', a, hk', ha⟩ := hs.answered r (by simpa [htr] using hr)
    refine ⟨_, a, by rw [hcalls, List.getElem?_modify, hk']; rfl, ?_⟩
    dsimp only
    split <;> exact ha

theorem Waiters.answer {s t : State} (hs : Waiters s) {r : WalReq} {a : WalAck} {k : Call}
    (hk : s.calls[r.id]? = some k) (htr : t.trace = s.trace ++ [.answered r a])
    (hcalls : t.calls = s.calls.modify r.id (fun k => { k with ack := some a })) :
    Waiters t := by
  have hget : t.calls[r.id]? = some { k with ack := some a } := by
    simp [hcalls, hk]
  constructor
  · intro d k' hk' hw
    rw [hcalls] at hk'
    obtain ⟨k₀, hk₀, rfl⟩ := ListAccounting.getElem?_modify_eq_some hk'
    have hst : k₀.status = .waiting := by
      split at hw <;> exact hw
    obtain ⟨r', hr', hid⟩ := hs.waiting d k₀ hk₀ hst
    exact ⟨r', by simpa [htr] using hr', hid⟩
  · intro r' hr'
    by_cases hid : r.id = r'.id
    · exact ⟨_, a, hid ▸ hget, rfl⟩
    · have hne : r' ≠ r := fun heq => hid (heq ▸ rfl)
      obtain ⟨k', a', hk', ha'⟩ := hs.answered r' (by simpa [htr, hne] using hr')
      exact ⟨k', a', by simp [hcalls, hk', hid], ha'⟩

private theorem waiters_step (cfg : Config) (s : State) (a : Action) (t : State)
    (hi : GroupCommit.Inv s) (hs : Waiters s) (h : step cfg s a = some t) : Waiters t := by
  cases step_effect h with
  | idle _ htr _ hcalls =>
    refine hs.keep (by rw [htr]) (by rw [htr]) ?_ ?_
    · intro c k hk
      obtain ⟨k', hk', -, hack⟩ := hcalls.old c k hk
      exact ⟨k', hk', hack⟩
    · intro c k' hk' hst
      rcases hcalls.new c k' hk' with ⟨k, hk, hst', -⟩ | ⟨-, henq, -⟩
      · exact ⟨k, hk, hst' ▸ hst⟩
      · simp [hst] at henq
  | accepted c k _ _ _ htr _ hcalls => exact hs.accept htr hcalls
  | tried it q _ _ _ htr _ hcalls =>
    unfold outcome at htr
    split at htr
    all_goals exact hs.same (by simp [htr]) (by simp [htr]) hcalls
  | syncStarted _ htr _ hcalls => exact hs.same (by simp [htr]) (by simp [htr]) hcalls
  | syncOk _ _ _ htr _ hcalls => exact hs.same (by simp [htr]) (by simp [htr]) hcalls
  | syncFailed e _ _ htr _ hcalls => exact hs.same (by simp [htr]) (by simp [htr]) hcalls
  | answered r ack rest hun _ htr _ hcalls =>
    have hacc : r ∈ acceptedOf s.trace := by
      rw [hi.accounted.accepted, hi.accounted.tried, hi.accounted.synced, hun]
      simp
    obtain ⟨k, hk, -⟩ := hi.callers.known r hacc
    exact hs.answer hk htr hcalls
  | handled env rest _ _ htr _ hcalls =>
    rcases htr with ⟨htr, -⟩ | ⟨htr, -⟩
    all_goals exact hs.same (by simp [htr]) (by simp [htr]) hcalls
  | returned c k ack _ _ _ htr _ hcalls =>
    exact hs.modify (by simp [htr]) hcalls (fun k => rfl) (fun k => by simp)

/-- Every accepted request had its append tried once and was answered once. -/
def AllAnswered (s : State) : Prop :=
  ∀ r ∈ acceptedOf s.trace, (triedOf s.trace).count r = 1 ∧ (answeredOf s.trace).count r = 1

/-- A call that has not returned can do so without its context being cancelled. -/
def NobodyStuck (cfg : Config) (s : State) : Prop :=
  ∀ (c : ℕ) (k : Call), s.calls[c]? = some k → (∀ a, k.status ≠ .returned a) →
    (step cfg s (.enqueueStopped c)).isSome ∨ (step cfg s (.receive c)).isSome

structure Inv (s : State) : Prop where
  commit : GroupCommit.Inv s
  ending : Ending s
  waiters : Waiters s

theorem inv_init (l : Log EnrichedEvent) : Inv (init l) :=
  ⟨GroupCommit.inv_init l, ending_init l, waiters_init l⟩

theorem inv_step (cfg : Config) (s : State) (a : Action) (t : State) (hs : Inv s)
    (h : step cfg s a = some t) : Inv t :=
  ⟨GroupCommit.inv_step cfg s a t hs.commit h, ending_step cfg s a t hs.ending h,
    waiters_step cfg s a t hs.commit hs.waiters h⟩

/-- When the loop has returned, only what is still in `incoming` has not been answered. -/
theorem accepted_of_returned {s : State} (hs : Inv s) (hret : s.phase = .returned) :
    triedOf s.trace = answeredOf s.trace ∧
      acceptedOf s.trace = answeredOf s.trace ++ s.incoming := by
  have hpend : s.pending = [] := hs.ending.pending (by simp [hret])
  have hpipe : pipe s = { queue := s.incoming } := by simp [pipe, hret, hpend]
  obtain ⟨hacc, htried, hsync, -⟩ := hs.commit.accounted
  rw [hpipe] at hacc htried hsync
  have htr : triedOf s.trace = answeredOf s.trace := by simpa [reqs, hsync] using htried
  exact ⟨htr, by rw [hacc, htr]⟩

private theorem allAnswered_iff {s : State} (hs : Inv s) (hret : s.phase = .returned) :
    AllAnswered s ↔ s.incoming = [] := by
  obtain ⟨htried, hacc⟩ := accepted_of_returned hs hret
  have hnodup := GroupCommit.accepted_nodup hs.commit.callers
  constructor
  · intro h
    rw [List.eq_nil_iff_forall_not_mem]
    intro r hr
    have hmem : r ∈ answeredOf s.trace := by
      rw [← List.count_pos_iff, (h r (by simp [hacc, hr])).2]
      exact Nat.one_pos
    rw [hacc, List.nodup_append] at hnodup
    exact hnodup.2.2 r hmem r hr rfl
  · intro hnil r hr
    rw [hnil, List.append_nil] at hacc
    rw [hacc] at hr hnodup
    rw [htried]
    exact ⟨List.count_eq_one_of_mem hnodup hr, List.count_eq_one_of_mem hnodup hr⟩

private theorem nobodyStuck {cfg : Config} {s : State} (hs : Inv s) (hret : s.phase = .returned)
    (hnil : s.incoming = []) : NobodyStuck cfg s := by
  intro c k hk hst
  obtain ⟨ev, d, status, ack⟩ := k
  cases status with
  | enqueueing =>
    have hstop : s.stopped = true := hs.ending.stopped (by simp [Stopping, hret, ending])
    exact .inl (by simp [step, hret, loopStep, outerStep, hk, hstop])
  | waiting =>
    obtain ⟨r, hr, rfl⟩ := hs.waiters.waiting c _ hk rfl
    rw [(accepted_of_returned hs hret).2, hnil, List.append_nil] at hr
    obtain ⟨k', a, hk', ha⟩ := hs.waiters.answered r hr
    obtain rfl : k' = _ := Option.some.inj (hk'.symm.trans hk)
    obtain rfl : ack = some a := ha
    exact .inr (by simp [step, hret, loopStep, outerStep, hk])
  | returned a => exact absurd rfl (hst a)

/-- In every run after which the loop has returned, every accepted request has had its
append tried and been answered, each once, and no call waits for ever, exactly when the
stop branch found `incoming` empty and nothing was enqueued after it. -/
theorem nobody_stranded_iff (cfg : Config) (l : Log EnrichedEvent) (as : List Action) (t : State)
    (h : exec (step cfg) (init l) as = some t) (hret : t.phase = .returned) :
    AllAnswered t ∧ NobodyStuck cfg t ↔ Along (step cfg) NothingLeft (init l) as := by
  have hinv : Inv t := exec_invariant (inv_step cfg) h (inv_init l)
  rw [← incoming_empty_iff h hret, allAnswered_iff hinv hret]
  constructor
  · exact And.left
  · exact fun hnil => ⟨hnil, nobodyStuck hinv hret hnil⟩

/-- The loop takes its stop branch while a request waits in `incoming`. -/
def stopWithRequestWaiting : List Action := [.call {}, .enqueue 0, .close, .loopStop]

def afterStop : State where
  wal := newWALWriter Log.new
  incoming := [⟨0, {}⟩]
  out := []
  stopped := true
  phase := .returned
  pending := []
  timerActive := false
  calls := [⟨{}, false, .waiting, none⟩]
  trace := [.accepted ⟨0, {}⟩]

theorem nobody_stranded_iff_stopWithRequestWaiting :
    AllAnswered afterStop ∧ NobodyStuck (newConfig 0 0 0 false) afterStop ↔
      Along (step (newConfig 0 0 0 false)) NothingLeft (init Log.new) stopWithRequestWaiting :=
  nobody_stranded_iff (newConfig 0 0 0 false) Log.new stopWithRequestWaiting afterStop rfl rfl

/-- The request is never answered, and its caller can only leave through its context. -/
theorem request_stranded :
    ∃ t, exec (step (newConfig 0 0 0 false)) (init Log.new) stopWithRequestWaiting = some t ∧
      t.phase = .returned ∧ ¬ AllAnswered t ∧ ¬ NobodyStuck (newConfig 0 0 0 false) t := by
  refine ⟨afterStop, rfl, rfl, ?_, ?_⟩
  · intro hall
    have hcount := (hall ⟨0, {}⟩ (by decide)).2
    revert hcount
    decide
  · intro hstuck
    have hsteps := hstuck 0 _ rfl (by simp)
    revert hsteps
    decide

end Statnive.SyncerShutdown
