import Statnive.GroupCommit

/-!
# The hand-off to the consumer

After its answers `flush` sends the durable envelopes on `out`, each in a select against
`stopCh`. Once the syncer is stopped the select may take either branch for each of them.
-/

namespace Statnive.SyncerHandoff

open LabelledRuns IngestEvents SegmentedLog WriteAheadLog GroupSyncer SyncerPipeline ListAccounting

def ackEnvelopes (p : Pipe) : List WALEnvelope :=
  p.unanswered.flatMap (fun q => envelopeOf q.1 q.2) ++
    p.unsynced.flatMap (fun it => envelopeOf it.req it.ack)

/-- What is durable, and what may become so, was appended in this order. -/
def Ordered (s : State) : Prop :=
  ((durableOf s.trace ++ ackEnvelopes (pipe s)).map WALEnvelope.idx).Sublist (indicesOf s.trace)

private theorem uses_outcome (it : Item) :
    uses (outcome it) = (envelopeOf it.req it.ack).map WALEnvelope.idx := by
  by_cases h : it.err = none <;> simp [outcome, envelopeOf, Item.ack, h]

theorem Ordered.keep {s t : State} (hs : Ordered s) (e : Event)
    (htr : t.trace = s.trace ++ [e]) (hdur : durables e = []) (huse : uses e = [])
    (hpipe : ackEnvelopes (pipe t) = ackEnvelopes (pipe s)) : Ordered t := by
  rw [Ordered, htr, durableOf_snoc, indicesOf_snoc, hdur, huse, hpipe, List.append_nil,
    List.append_nil]
  exact hs

theorem ordered_step (cfg : Config) (s : State) (a : Action) (t : State) (hs : Ordered s)
    (h : step cfg s a = some t) : Ordered t := by
  cases step_effect h with
  | idle hpipe htr => rwa [Ordered, htr, hpipe]
  | accepted c k _ _ hpipe htr => exact hs.keep _ htr rfl rfl (by rw [hpipe]; rfl)
  | tried it q _ _ hpipe htr =>
    have hdur : durables (outcome it) = [] := by
      unfold outcome
      split <;> rfl
    rw [Ordered, htr, durableOf_snoc, indicesOf_snoc, hdur, uses_outcome, hpipe]
    have happ := List.Sublist.append hs
      (List.Sublist.refl ((envelopeOf it.req it.ack).map WALEnvelope.idx))
    simpa [ackEnvelopes] using happ
  | syncStarted hpipe htr => exact hs.keep _ htr rfl rfl (by rw [hpipe]; rfl)
  | syncOk _ hun hpipe htr =>
    refine hs.keep _ htr rfl rfl ?_
    rw [hpipe]
    simp [ackEnvelopes, hun, List.flatMap_map]
  | syncFailed e hun hpipe htr =>
    have hnil : ackEnvelopes (pipe t) = [] := by
      rw [hpipe]
      simp [ackEnvelopes, List.flatMap_map, envelopeOf]
    rw [Ordered, htr, durableOf_snoc, indicesOf_snoc, hnil]
    simp only [durables, uses, List.append_nil]
    have hsub : (durableOf s.trace).Sublist (durableOf s.trace ++ ackEnvelopes (pipe s)) :=
      List.sublist_append_left _ _
    exact (hsub.map WALEnvelope.idx).trans hs
  | answered r ack rest hun hpipe htr =>
    have hmove : envelopeOf r ack ++ ackEnvelopes (pipe t) = ackEnvelopes (pipe s) := by
      rw [hpipe]
      simp [ackEnvelopes, hun]
    rw [Ordered, htr, durableOf_snoc, indicesOf_snoc]
    simp only [durables, uses, List.append_nil]
    rw [List.append_assoc, hmove]
    exact hs
  | handled env rest _ hpipe htr =>
    rcases htr with ⟨htr, -⟩ | ⟨htr, -⟩
    all_goals exact hs.keep _ htr rfl rfl (by rw [hpipe]; rfl)
  | returned c k ack _ _ hpipe htr => exact hs.keep _ htr rfl rfl (by rw [hpipe])

structure Inv (s : State) : Prop where
  accounted : Accounted s
  indexed : GroupCommit.Indexed s
  ordered : Ordered s

theorem inv_init (l : Log EnrichedEvent) : Inv (init l) :=
  ⟨accounted_init l, GroupCommit.indexed_init l, List.Sublist.refl _⟩

theorem inv_step (cfg : Config) (s : State) (a : Action) (t : State) (hs : Inv s)
    (h : step cfg s a = some t) : Inv t :=
  ⟨accounted_step cfg s a t hs.accounted h, GroupCommit.indexed_step cfg s a t hs.indexed h,
    ordered_step cfg s a t hs.ordered h⟩

def Increasing (envs : List WALEnvelope) : Prop := (envs.map WALEnvelope.idx).Pairwise (· < ·)

theorem increasing_durable {s : State} (hs : Inv s) : Increasing (durableOf s.trace) := by
  have hsub : (durableOf s.trace).Sublist (durableOf s.trace ++ ackEnvelopes (pipe s)) :=
    List.sublist_append_left _ _
  exact hs.indexed.increasing.sublist ((hsub.map WALEnvelope.idx).trans hs.ordered)

theorem Increasing.nodup {envs : List WALEnvelope} (h : Increasing envs) : envs.Nodup :=
  List.Nodup.of_map WALEnvelope.idx (h.imp (fun hlt => Nat.ne_of_lt hlt))

theorem length_handledOf (tr : List Event) :
    (handledOf tr).length = (deliveredOf tr).length + (droppedOf tr).length := by
  induction tr with
  | nil => rfl
  | cons e tr ih =>
    simp only [handledOf, deliveredOf, droppedOf, List.flatMap_cons, List.length_append] at ih ⊢
    cases e <;>
      simp only [handles, delivers, drops, List.length_nil, List.length_singleton] <;> omega

private theorem deliver_cases {cfg : Config} {s t : State} (h : step cfg s .deliver = some t) :
    ∃ env rest, (pipe s).undelivered = env :: rest ∧ t.trace = s.trace ++ [.delivered env] := by
  rcases step_move h with h | h
  · cases h with
    | deliver env todo k hp => exact ⟨env, todo, by rw [pipe_delivering hp], by simp⟩
  · cases h

private theorem other_cases {cfg : Config} {s t : State} {a : Action} (h : step cfg s a = some t)
    (ha : a ≠ .deliver) :
    deliveredOf t.trace = deliveredOf s.trace ∧ durableOf s.trace <+: durableOf t.trace := by
  cases step_effect h with
  | idle _ htr => simp [htr]
  | accepted c k _ _ _ htr => simp [htr]
  | tried it q _ _ _ htr =>
    unfold outcome at htr
    split at htr <;> simp [htr]
  | syncStarted _ htr => simp [htr]
  | syncOk _ _ _ htr => simp [htr]
  | syncFailed e _ _ htr => simp [htr]
  | answered r ack rest _ _ htr => simp [htr]
  | handled env rest _ _ htr =>
    rcases htr with ⟨-, hact⟩ | ⟨htr, -⟩
    · exact absurd hact ha
    · simp [htr]
  | returned c k ack _ _ _ htr => simp [htr]

/-- Nothing is delivered once an envelope has been dropped. -/
def DeliversInOrder (s : State) (a : Action) : Prop := a = .deliver → droppedOf s.trace = []

instance (s : State) (a : Action) : Decidable (DeliversInOrder s a) :=
  inferInstanceAs (Decidable (_ → _))

def HandedOff (tr : List Event) : Prop := deliveredOf tr <+: durableOf tr

private theorem handedOff_deliver {s t : State} (hs : Inv s) (ht : Inv t) {env : WALEnvelope}
    {rest : List WALEnvelope} (hun : (pipe s).undelivered = env :: rest)
    (htr : t.trace = s.trace ++ [.delivered env]) :
    HandedOff t.trace ↔ HandedOff s.trace ∧ droppedOf s.trace = [] := by
  have hdur : durableOf t.trace = durableOf s.trace := by simp [htr]
  have hnodup : (durableOf s.trace).Nodup := hdur ▸ (increasing_durable ht).nodup
  have hlen := length_handledOf s.trace
  have hnext : (durableOf s.trace)[(handledOf s.trace).length]? = some env := by
    rw [hs.accounted.durable, hun]
    simp
  have hlen' : (deliveredOf s.trace).length ≤ (handledOf s.trace).length := by omega
  have hiff := snoc_prefix_iff hnodup hnext hlen'
  have hdel : deliveredOf t.trace = deliveredOf s.trace ++ [env] := by simp [htr]
  rw [HandedOff, hdel, hdur, hiff, HandedOff, ← List.length_eq_zero_iff]
  constructor
  · rintro ⟨hpre, heq⟩
    exact ⟨hpre, by omega⟩
  · rintro ⟨hpre, heq⟩
    exact ⟨hpre, by omega⟩

private theorem handedOff_grow {s t : State} (hs : Inv s)
    (hdel : deliveredOf t.trace = deliveredOf s.trace)
    (hdur : durableOf s.trace <+: durableOf t.trace) :
    HandedOff t.trace ↔ HandedOff s.trace := by
  have hlen := length_handledOf s.trace
  have hsum := congrArg List.length hs.accounted.durable
  rw [List.length_append] at hsum
  rw [HandedOff, HandedOff, hdel]
  constructor
  · intro h
    exact List.prefix_of_prefix_length_le h hdur (by omega)
  · intro h
    exact h.trans hdur

theorem handedOff_step (cfg : Config) (s : State) (a : Action) (t : State) (hs : Inv s)
    (h : step cfg s a = some t) :
    HandedOff t.trace ↔ HandedOff s.trace ∧ DeliversInOrder s a := by
  by_cases ha : a = .deliver
  · subst ha
    obtain ⟨env, rest, hun, htr⟩ := deliver_cases h
    rw [handedOff_deliver hs (inv_step cfg s _ t hs h) hun htr]
    simp [DeliversInOrder]
  · obtain ⟨hdel, hdur⟩ := other_cases h ha
    rw [handedOff_grow hs hdel hdur]
    simp [DeliversInOrder, ha]

private theorem handedOff_along
    {cfg : Config} {l : Log EnrichedEvent} {as : List Action} {t : State}
    (h : exec (step cfg) (init l) as = some t) :
    HandedOff t.trace ↔ Along (step cfg) DeliversInOrder (init l) as := by
  have hiff := exec_iff_along (Q := fun s => HandedOff s.trace) (inv_step cfg)
    (handedOff_step cfg) h (inv_init l)
  have hinit : HandedOff (init l).trace := List.prefix_refl _
  simpa [hinit] using hiff

/-- Only `Close` stops the syncer. -/
theorem stopped_step {cfg : Config} {s t : State} {a : Action} (h : step cfg s a = some t)
    (hst : t.stopped = true) : s.stopped = true ∨ a = .close := by
  rcases step_move h with h | h
  · left
    cases h with
    | append done r todo k fault =>
      unfold appendNext at hst
      split at hst <;> exact hst
    | answerItem done it todo k =>
      split at hst <;> simpa [send] using hst
    | _ => simpa [send] using hst
  · cases h with
    | close => exact .inr rfl
    | _ => exact .inl hst

private theorem stopped_exec {cfg : Config} {s t : State} {as : List Action}
    (h : exec (step cfg) s as = some t) (hst : t.stopped = true) :
    s.stopped = true ∨ .close ∈ as := by
  induction as generalizing s with
  | nil => exact .inl (Option.some.inj h ▸ hst)
  | cons a as ih =>
    obtain ⟨u, hu, ht⟩ := exec_cons.mp h
    rcases ih ht with hust | hmem
    · apply (stopped_step hu hust).imp_right
      rintro rfl
      exact List.mem_cons_self
    · exact .inr (List.mem_cons_of_mem _ hmem)

/-- An envelope is dropped where the select takes the stop branch, and nowhere else. -/
theorem dropped_step {cfg : Config} {s t : State} {a : Action} (h : step cfg s a = some t) :
    droppedOf t.trace = droppedOf s.trace ∧ a ≠ .dropDelivery ∨
      droppedOf t.trace ≠ [] ∧ a = .dropDelivery ∧ s.stopped = true := by
  rcases step_move h with h | h
  · cases h with
    | append done r todo k fault =>
      refine .inl ⟨?_, by simp⟩
      unfold appendNext
      split <;> simp
    | answerItem done it todo k =>
      refine .inl ⟨?_, by simp⟩
      split <;> simp [send]
    | drop env todo k hp hstop => exact .inr ⟨by simp, rfl, hstop⟩
    | _ => exact .inl ⟨by simp [send], by simp⟩
  · cases h with
    | _ => exact .inl ⟨by simp [accept, ret], by simp⟩

theorem dropped_nil_iff {cfg : Config} {s t : State} {as : List Action}
    (h : exec (step cfg) s as = some t) :
    droppedOf t.trace = [] ↔ droppedOf s.trace = [] ∧ .dropDelivery ∉ as := by
  induction as generalizing s with
  | nil => simp [Option.some.inj h]
  | cons a as ih =>
    obtain ⟨u, hu, ht⟩ := exec_cons.mp h
    rw [ih ht]
    rcases dropped_step hu with ⟨heq, hne⟩ | ⟨hne, rfl, -⟩
    · simp [heq, Ne.symm hne]
    · simp [hne]

/-- A run that drops an envelope has closed the syncer before. -/
theorem close_of_drop {cfg : Config} {l : Log EnrichedEvent} {pre post : List Action} {t : State}
    (h : exec (step cfg) (init l) (pre ++ .dropDelivery :: post) = some t) : .close ∈ pre := by
  obtain ⟨u, hu, hrest⟩ := exec_append.mp h
  obtain ⟨v, hv, -⟩ := exec_cons.mp hrest
  rcases dropped_step hv with ⟨-, hne⟩ | ⟨-, -, hstop⟩
  · exact absurd rfl hne
  · exact (stopped_exec hu hstop).resolve_left Bool.false_ne_true

/-- After `Close`, once a select of the feeding loop has taken the stop branch, none sends. -/
def StopsForGood (as : List Action) : Prop :=
  ∀ pre mid post, as = pre ++ .close :: (mid ++ .dropDelivery :: post) → .deliver ∉ post

private theorem handedOff_iff_stopsForGood {cfg : Config} {l : Log EnrichedEvent} {as : List Action}
    {t : State} (h : exec (step cfg) (init l) as = some t) :
    HandedOff t.trace ↔ StopsForGood as := by
  rw [handedOff_along h, along_iff_splits]
  constructor
  · intro hall pre mid post heq hmem
    obtain ⟨mid', rest, rfl⟩ := List.append_of_mem hmem
    have hsplit : as = (pre ++ .close :: (mid ++ .dropDelivery :: mid')) ++ .deliver :: rest := by
      simp [heq]
    obtain ⟨u, hu, -⟩ := exec_append.mp (hsplit ▸ h)
    have hdrop := hall _ _ rest u hsplit hu rfl
    exact ((dropped_nil_iff hu).mp hdrop).2 (by simp)
  · rintro hstops pre a post u heq hu rfl
    refine (dropped_nil_iff hu).mpr ⟨rfl, fun hmem => ?_⟩
    obtain ⟨pre', mid, rfl⟩ := List.append_of_mem hmem
    obtain ⟨first, rest, rfl⟩ := List.append_of_mem (close_of_drop hu)
    exact hstops first rest (mid ++ .deliver :: post) (by simp [heq]) (by simp)

/-- The requests and envelopes between the queue and the channel. -/
def onTheWay (s : State) : ℕ :=
  (pipe s).queue.length + (pipe s).unsynced.length + (pipe s).unanswered.length +
    (pipe s).undelivered.length

private theorem enqueue_of_accepted {cfg : Config} {s t : State} {a : Action} {r : WalReq}
    (h : step cfg s a = some t) (htr : t.trace = s.trace ++ [.accepted r]) :
    ∃ c, a = .enqueue c := by
  have hacc : acceptedOf t.trace ≠ acceptedOf s.trace := by simp [htr]
  rcases step_move h with h | h
  · refine absurd ?_ hacc
    cases h with
    | append done r todo k fault =>
      unfold appendNext
      split <;> simp
    | answerItem done it todo k => split <;> simp [send]
    | _ => simp [send]
  · cases h with
    | enqueue c => exact ⟨c, rfl⟩
    | _ => exact absurd (by simp [ret]) hacc

/-- What is handled was on its way, and only what is put into the queue comes to that. -/
theorem handled_step {cfg : Config} {s t : State} {a : Action} (h : step cfg s a = some t)
    (ha : ∀ c, a ≠ .enqueue c) :
    (handledOf t.trace).length + onTheWay t ≤ (handledOf s.trace).length + onTheWay s := by
  have hone : ∀ (r : WalReq) (ack : WalAck), (envelopeOf r ack).length ≤ 1 := fun r ack => by
    unfold envelopeOf
    split <;> simp
  cases step_effect h with
  | idle hpipe htr => rw [htr, onTheWay, onTheWay, hpipe]
  | accepted c k hk hst hpipe htr =>
    obtain ⟨c', hc'⟩ := enqueue_of_accepted h htr
    exact absurd hc' (ha c')
  | tried it q hq hun hpipe htr =>
    have hno : handles (outcome it) = [] := by
      unfold outcome
      split <;> rfl
    simp only [htr, onTheWay, hpipe, hq, handledOf_snoc, hno, List.append_nil, List.length_append,
      List.length_cons, List.length_nil]
    omega
  | syncStarted hpipe htr => simp [htr, onTheWay, hpipe]
  | syncOk hst hun hpipe htr => simp [htr, onTheWay, hpipe, hun]
  | syncFailed e hun hpipe htr => simp [htr, onTheWay, hpipe, hun, reqs]
  | answered r ack rest hun hpipe htr =>
    have hle := hone r ack
    simp only [htr, onTheWay, hpipe, hun, handledOf_snoc, handles, List.append_nil,
      List.length_append, List.length_cons]
    omega
  | handled env rest hun hpipe htr =>
    rcases htr with ⟨htr, -⟩ | ⟨htr, -⟩
    all_goals
      simp only [htr, onTheWay, hpipe, hun, handledOf_snoc, handles, List.length_append,
        List.length_cons, List.length_nil]
      omega
  | returned c k ack hk hack hpipe htr => simp [htr, onTheWay, hpipe]

private theorem handled_exec {cfg : Config} {s t : State} {as : List Action}
    (h : exec (step cfg) s as = some t) (has : ∀ c, .enqueue c ∉ as) :
    (handledOf t.trace).length + onTheWay t ≤ (handledOf s.trace).length + onTheWay s := by
  induction as generalizing s with
  | nil => exact Option.some.inj h ▸ Nat.le_refl _
  | cons a as ih =>
    obtain ⟨u, hu, ht⟩ := exec_cons.mp h
    have hrest := ih ht fun c hc => has c (List.mem_cons_of_mem _ hc)
    have hone := handled_step hu fun c hc => has c (hc ▸ List.mem_cons_self)
    omega

/-- Each select of the feeding loop handles an envelope. -/
theorem length_handled {cfg : Config} {s t : State} {as : List Action}
    (h : exec (step cfg) s as = some t) : (handledOf s.trace).length +
      as.countP (fun a => a = .deliver ∨ a = .dropDelivery) = (handledOf t.trace).length := by
  induction as generalizing s with
  | nil => simp [Option.some.inj h]
  | cons a as ih =>
    obtain ⟨u, hu, ht⟩ := exec_cons.mp h
    have hone : (handledOf u.trace).length = (handledOf s.trace).length +
        if a = .deliver ∨ a = .dropDelivery then 1 else 0 := by
      rcases step_move hu with hu | hu
      · cases hu with
        | append done r todo k fault =>
          unfold appendNext
          split <;> simp
        | answerItem done it todo k => split <;> simp [send]
        | _ => simp [send]
      · cases hu with
        | _ => simp [accept, ret]
    rw [← ih ht, hone, List.countP_cons]
    simp only [decide_eq_true_eq]
    omega

/-- Where at most one thing is on its way when `Close` is called and nothing comes after it, there
are no two selects to differ. -/
theorem stopsForGood_of_idle {cfg : Config} {l : Log EnrichedEvent} {pre post : List Action}
    {s t : State} (h : exec (step cfg) (init l) (pre ++ .close :: post) = some t)
    (hs : exec (step cfg) (init l) pre = some s) (hfirst : .close ∉ pre) (hway : onTheWay s ≤ 1)
    (hnew : ∀ c, .enqueue c ∉ post) : StopsForGood (pre ++ .close :: post) := by
  intro pre' mid post' heq hmem
  obtain ⟨u, hu, hrest⟩ := exec_append.mp h
  obtain rfl : s = u := Option.some.inj (hs.symm.trans hu)
  have hnew' : ∀ c, .enqueue c ∉ .close :: post := by simpa using hnew
  have hle := handled_exec hrest hnew'
  have hlen := length_handled hrest
  -- The selects that the claim is about come after the first `Close`.
  have htwo : 2 ≤ (.close :: post).countP fun a => a = .deliver ∨ a = .dropDelivery := by
    have hsub : [Action.dropDelivery, .deliver].Sublist (.close :: post) := by
      have hsplit : pre ++ .close :: post = (pre' ++ .close :: mid) ++ .dropDelivery :: post' := by
        simp [heq]
      rcases List.append_eq_append_iff.mp hsplit with ⟨x, -, hx⟩ | ⟨x, hx, -⟩
      · rw [hx]
        exact (List.Sublist.cons_cons _ (List.singleton_sublist.mpr hmem)).trans
          (List.sublist_append_right _ _)
      · exact absurd (hx ▸ by simp) hfirst
    simpa using hsub.countP_le (p := fun a => a = .deliver ∨ a = .dropDelivery)
  omega

/-- The durable envelopes have increasing indices. None is dropped before `Close`, however full the
channel is, and after it they are handed off in order and without omission exactly when no select
sends once one has taken the stop branch; which is so where at most one request or envelope is on
its way when `Close` is first called and none is put into the queue after it. -/
theorem handedOff_iff (cfg : Config) (l : Log EnrichedEvent) (as : List Action) (t : State)
    (h : exec (step cfg) (init l) as = some t) :
    Increasing (durableOf t.trace) ∧
      (.close ∉ as → droppedOf t.trace = [] ∧ HandedOff t.trace) ∧
      (HandedOff t.trace ↔ StopsForGood as) ∧
      ((∃ pre post s, as = pre ++ .close :: post ∧ .close ∉ pre ∧
          exec (step cfg) (init l) pre = some s ∧ onTheWay s ≤ 1 ∧ ∀ c, .enqueue c ∉ post) →
        HandedOff t.trace) := by
  have hinv : Inv t := exec_invariant (inv_step cfg) h (inv_init l)
  have hiff := handedOff_iff_stopsForGood h
  refine ⟨increasing_durable hinv, fun hopen => ⟨?_, ?_⟩, hiff, ?_⟩
  · refine (dropped_nil_iff h).mpr ⟨rfl, fun hmem => ?_⟩
    obtain ⟨pre, post, rfl⟩ := List.append_of_mem hmem
    exact hopen (List.mem_append_left _ (close_of_drop h))
  · exact hiff.mpr fun pre mid post heq _ => hopen (by simp [heq])
  · rintro ⟨pre, post, s, rfl, hfirst, hs, hway, hnew⟩
    exact hiff.mpr (stopsForGood_of_idle h hs hfirst hway hnew)

/-- A batch of two is durable when the syncer is stopped; the select then drops the
first envelope and sends the second. -/
def dropThenDeliver : List Action :=
  [.call {}, .call {}, .enqueue 0, .enqueue 1, .loopRecv, .loopRecv, .append {}, .append {},
    .syncBegin, .syncEnd true, .answer, .answer, .close, .dropDelivery, .deliver]

def dropThenDeliverTrace : List Event :=
  [.accepted ⟨0, {}⟩, .accepted ⟨1, {}⟩, .appended ⟨0, {}⟩ 1, .appended ⟨1, {}⟩ 2,
    .syncStarted [⟨0, {}⟩, ⟨1, {}⟩], .syncOk [⟨0, {}⟩, ⟨1, {}⟩], .answered ⟨0, {}⟩ ⟨1, none⟩,
    .answered ⟨1, {}⟩ ⟨2, none⟩, .dropped ⟨1, {}⟩, .delivered ⟨2, {}⟩]

def afterDropThenDeliver : State where
  wal := ⟨⟨[], ⟨1, [{}, {}], [.entry {}, .entry {}]⟩, 2, false⟩, 3⟩
  incoming := []
  out := [⟨2, {}⟩]
  stopped := true
  phase := .select
  pending := []
  timerActive := false
  calls := [⟨{}, false, .waiting, some ⟨1, none⟩⟩, ⟨{}, false, .waiting, some ⟨2, none⟩⟩]
  trace := dropThenDeliverTrace

theorem handedOff_iff_dropThenDeliver :
    HandedOff dropThenDeliverTrace ↔ StopsForGood dropThenDeliver :=
  (handedOff_iff (newConfig 2 0 0 false) Log.new dropThenDeliver afterDropThenDeliver rfl).2.2.1

/-- The first durable envelope is skipped while the second is delivered. -/
theorem durable_envelope_skipped :
    ∃ t, exec (step (newConfig 2 0 0 false)) (init Log.new) dropThenDeliver = some t ∧
      ¬ HandedOff t.trace := by
  refine ⟨afterDropThenDeliver, rfl, ?_⟩
  rw [HandedOff]
  decide

end Statnive.SyncerHandoff
