import Statnive.IngestConsumer

/-!
# The WAL ack gate of the consumer

An ack removes every entry up to its index from the log. It is sound when each envelope
received with an index at or below it was in a batch that was inserted. A batch that was
given up keeps its place below the index of the next one, so the ack of a later batch
covers it: the gate holds exactly in the runs without such a later success.
-/

namespace Statnive.ConsumerAckGate

open LabelledRuns IngestEvents ListAccounting IngestConsumer

/-- Each envelope received with index at most `k` is in a batch that was inserted;
an envelope received twice counts twice. -/
def Covers (tr : List Output) (k : ℕ) : Prop :=
  ((receivedOf tr).filter (fun env => decide (env.idx ≤ k))).Subperm (insertedOf tr)

def AckSound (tr : List Output) : Prop := ∀ pre k, pre ++ [.ack k] <+: tr → Covers pre k

/-- A flush that succeeds does not ack an index that a batch given up before has reached. -/
def AcksBelowFailed (s : State) (a : Action) : Prop :=
  a = .insertBatch true → 0 < s.lastWALIdx → ∀ env ∈ failedOf s.trace, s.lastWALIdx < env.idx

private theorem ackSound_nil : AckSound [] := by
  intro pre k h
  simpa using h.length_le

theorem ackSound_snoc (tr : List Output) (o : Output) :
    AckSound (tr ++ [o]) ↔ AckSound tr ∧ ∀ k, o = .ack k → Covers tr k := by
  constructor
  · intro h
    refine ⟨fun pre k hp => h pre k (hp.trans (List.prefix_append tr [o])), ?_⟩
    rintro k rfl
    exact h tr k (List.prefix_refl _)
  · rintro ⟨h, hk⟩ pre k hp
    rcases List.prefix_concat_iff.mp hp with heq | hp
    · obtain ⟨rfl, ho⟩ := List.append_inj' heq rfl
      exact hk k (List.cons.inj ho).1.symm
    · exact h pre k hp

private theorem ackSound_sync (tr : List Output) : AckSound (tr ++ [.sync]) ↔ AckSound tr := by
  simp [ackSound_snoc]

theorem Quiet.sameSound {s t : State} (h : Quiet s t) :
    AckSound t.trace ↔ AckSound s.trace := by
  rcases h.trace with h | h <;> simp [h, ackSound_sync]

/-- With the batch inserted, an ack covers what it must exactly when it stays below
every index that was given up. -/
theorem covers_iff {s : State} (hs : Inv s) (k : ℕ) :
    Covers (s.trace ++ [.inserted s.batch]) k ↔ ∀ env ∈ failedOf s.trace, k < env.idx := by
  have hperm : (receivedOf (s.trace ++ [.inserted s.batch])).Perm
      (insertedOf (s.trace ++ [.inserted s.batch]) ++ failedOf s.trace) := by
    have h := hs.accounted.perm.trans (List.perm_append_comm.append_left _)
    simpa [receivedOf, insertedOf] using h
  rw [Covers, filter_subperm_iff _ hperm]
  simp

private theorem ackSound_ackBatch {s : State} (hs : Inv s) :
    AckSound (ackBatch s).trace ↔
      AckSound s.trace ∧ (0 < s.lastWALIdx → ∀ env ∈ failedOf s.trace, s.lastWALIdx < env.idx) := by
  have hins : AckSound (s.trace ++ [.inserted s.batch]) ↔ AckSound s.trace := by
    simp [ackSound_snoc]
  by_cases hpos : 0 < s.lastWALIdx
  · have htr : (ackBatch s).trace = (s.trace ++ [.inserted s.batch]) ++ [.ack s.lastWALIdx] := by
      simp [ackBatch, hpos]
    rw [htr, ackSound_snoc, hins]
    simp [hpos, covers_iff hs]
  · have htr : (ackBatch s).trace = s.trace ++ [.inserted s.batch] := by simp [ackBatch, hpos]
    rw [htr, hins]
    simp [hpos]

private theorem ackSound_step (cfg : Config) (s : State) (a : Action) (t : State) (hs : Inv s)
    (h : step cfg s a = some t) :
    AckSound t.trace ↔ AckSound s.trace ∧ AcksBelowFailed s a := by
  cases step_effect h with
  | recv env _ _ hq =>
    rw [Quiet.sameSound hq]
    simp [add, ackSound_snoc, AcksBelowFailed]
  | inserted n k =>
    rw [Quiet.sameSound (resume_quiet k rfl), ackSound_ackBatch hs]
    simp [AcksBelowFailed]
  | gaveUp _ k hg =>
    have hne : a ≠ .insertBatch true := by
      rcases hg with ⟨k, -, rfl⟩ | ⟨n, k, -, rfl⟩ <;> simp
    rw [Quiet.sameSound (resume_quiet k rfl)]
    simp [dropBatch, ackSound_snoc, AcksBelowFailed, hne]
  | quiet _ _ _ hins _ hq =>
    rw [Quiet.sameSound hq]
    simp [AcksBelowFailed, hins]

theorem ackSound_iff_acksBelowFailed (cfg : Config) (as : List Action) (t : State)
    (h : exec (step cfg) init as = some t) :
    AckSound t.trace ↔ Along (step cfg) AcksBelowFailed init as := by
  have hiff := exec_iff_along (Q := fun s => AckSound s.trace) (inv_step cfg)
    (ackSound_step cfg) h inv_init
  simpa [init, ackSound_nil] using hiff

/-- The group syncer hands out increasing indices, starting above 0. -/
def Increasing (s : State) (a : Action) : Prop := ∀ env, a = .recv env → s.lastWALIdx < env.idx

def NoSuccessAfterFailure (s : State) (a : Action) : Prop :=
  a = .insertBatch true → failedOf s.trace = []

def Bounded (s : State) : Prop :=
  ∀ env ∈ receivedOf s.trace, 0 < env.idx ∧ env.idx ≤ s.lastWALIdx

private theorem bounded_step (cfg : Config) (s : State) (a : Action) (t : State) (hs : Bounded s)
    (ha : Increasing s a) (h : step cfg s a = some t) : Bounded t := by
  intro e he
  cases step_effect h with
  | recv env _ _ hq =>
    have hlt := ha env rfl
    rw [hq.receivedOf_eq] at he
    rw [hq.lastWALIdx]
    simp only [add, receivedOf_append, List.mem_append] at he ⊢
    rcases he with he | he
    · have hb := hs e he
      omega
    · obtain rfl : e = env := by simpa [receivedOf] using he
      omega
  | inserted n k =>
    have hq := resume_quiet k (s := ackBatch s) rfl
    rw [hq.receivedOf_eq, receivedOf_ackBatch] at he
    rw [hq.lastWALIdx]
    exact hs e he
  | gaveUp _ k =>
    have hq := resume_quiet k (s := dropBatch s) rfl
    rw [hq.receivedOf_eq] at he
    rw [hq.lastWALIdx]
    exact hs e (by simpa [dropBatch, receivedOf] using he)
  | quiet _ _ _ _ _ hq =>
    rw [hq.receivedOf_eq] at he
    rw [hq.lastWALIdx]
    exact hs e he

theorem acksBelowFailed_iff {s : State} (hs : Inv s) (hb : Bounded s) (a : Action) :
    AcksBelowFailed s a ↔ NoSuccessAfterFailure s a := by
  constructor
  · intro h ha
    refine List.eq_nil_iff_forall_not_mem.mpr (fun env hm => ?_)
    have hr : env ∈ receivedOf s.trace :=
      hs.accounted.perm.mem_iff.mpr (List.mem_append_right _ (List.mem_append_left _ hm))
    have hle := hb env hr
    have hlt := h ha (by omega) env hm
    omega
  · intro h ha _ env hm
    simp [h ha] at hm

private theorem ackSound_iff_of_increasing (cfg : Config) (as : List Action) (t : State)
    (h : exec (step cfg) init as = some t) (hinc : Along (step cfg) Increasing init as) :
    AckSound t.trace ↔ Along (step cfg) NoSuccessAfterFailure init as := by
  have hinv : Along (step cfg) (fun s a => (Inv s ∧ Bounded s) ∧ Increasing s a) init as :=
    hinc.strengthen
      (fun s e u hi ha hu => ⟨inv_step cfg s e u hi.1 hu, bounded_step cfg s e u hi.2 ha hu⟩)
      ⟨inv_init, by simp [Bounded, init]⟩
  rw [ackSound_iff_acksBelowFailed cfg as t h]
  constructor
  · intro hal
    exact (hinv.and hal).mono (fun s e hse => (acksBelowFailed_iff hse.1.1.1 hse.1.1.2 e).mp hse.2)
  · intro hal
    exact (hinv.and hal).mono (fun s e hse => (acksBelowFailed_iff hse.1.1.1 hse.1.1.2 e).mpr hse.2)

/-- In every run, whatever is received, inserted, retried or cancelled and in whatever
order, the acks are sound exactly when no flush succeeds whose last index reaches an
envelope of a batch that was given up before it. With the indices that the group syncer
hands out, that is when no flush succeeds after one was given up. -/
theorem ackSound_iff (cfg : Config) (as : List Action) (t : State)
    (h : exec (step cfg) init as = some t) :
    (AckSound t.trace ↔ Along (step cfg) AcksBelowFailed init as) ∧
    (Along (step cfg) Increasing init as →
      (AckSound t.trace ↔ Along (step cfg) NoSuccessAfterFailure init as)) :=
  ⟨ackSound_iff_acksBelowFailed cfg as t h, ackSound_iff_of_increasing cfg as t h⟩

/-- One row a batch: the first row exhausts the four attempts, the second is inserted. -/
def failThenSucceed : List Action :=
  [.recv ⟨1, {}⟩, .insertBatch false, .retryAfter, .insertBatch false, .retryAfter,
    .insertBatch false, .retryAfter, .insertBatch false, .recv ⟨2, {}⟩, .insertBatch true]

def failThenSucceedTrace : List Output :=
  [.received ⟨1, {}⟩, .failed [⟨1, {}⟩], .received ⟨2, {}⟩, .inserted [⟨2, {}⟩], .ack 2]

theorem ackSound_iff_failThenSucceed :
    (AckSound failThenSucceedTrace ↔
      Along (step (newConfig 1 0)) AcksBelowFailed init failThenSucceed) ∧
    (Along (step (newConfig 1 0)) Increasing init failThenSucceed →
      (AckSound failThenSucceedTrace ↔
        Along (step (newConfig 1 0)) NoSuccessAfterFailure init failThenSucceed)) :=
  ackSound_iff (newConfig 1 0) failThenSucceed ⟨.run, false, [], 2, 0, failThenSucceedTrace⟩ rfl

/-- The second row's ack covers the first row, which no batch inserted. -/
theorem ack_reaches_failed_batch :
    ∃ t, exec (step (newConfig 1 0)) init failThenSucceed = some t ∧ ¬ AckSound t.trace := by
  refine ⟨⟨.run, false, [], 2, 0, failThenSucceedTrace⟩, rfl, ?_⟩
  intro h
  have hc := (h failThenSucceedTrace.dropLast 2 (List.prefix_refl _)).length_le
  revert hc
  decide

end Statnive.ConsumerAckGate
