import Statnive.IngestConsumer

/-!
# What the consumer's drain loses

`drain` flushes with the context of `Run`, which is the one whose cancellation started
the drain. An insert on it may be refused, and the first refusal ends the retries.
-/

namespace Statnive.ConsumerDrain

open LabelledRuns IngestEvents ListAccounting IngestConsumer

/-- `InsertBatch` succeeds while the context it is given is live. -/
def LiveInsertSucceeds (s : State) (a : Action) : Prop := a = .insertBatch false → s.ctxDone = true

instance (s : State) (a : Action) : Decidable (LiveInsertSucceeds s a) :=
  inferInstanceAs (Decidable (_ → _))

/-- No flush is given up once the context is cancelled. -/
def DrainInserts (s : State) (a : Action) : Prop := s.ctxDone = true → ¬ GivesUp s a

/-- Every envelope received has been inserted; one received twice has been inserted twice. -/
def Drained (tr : List Output) : Prop := (receivedOf tr).Subperm (insertedOf tr)

private theorem ctxDone_of_givesUp {cfg : Config} {s t : State} {a : Action}
    (h : step cfg s a = some t) (ha : LiveInsertSucceeds s a) (hg : GivesUp s a) :
    s.ctxDone = true := by
  rcases hg with ⟨k, -, rfl⟩ | ⟨n, k, hp, rfl⟩
  · exact ha rfl
  · simp only [step, hp, Option.ite_none_right_eq_some] at h
    exact h.1

theorem failedOf_step (cfg : Config) (s : State) (a : Action) (t : State) (hs : Inv s)
    (h : step cfg s a = some t) :
    failedOf t.trace = [] ↔ failedOf s.trace = [] ∧ ¬ GivesUp s a := by
  cases step_effect h with
  | recv env _ _ hq =>
    rw [hq.failedOf_eq]
    simp [add, failedOf, GivesUp]
  | inserted n k =>
    rw [(resume_quiet k (s := ackBatch s) rfl).failedOf_eq, failedOf_ackBatch]
    simp [GivesUp]
  | gaveUp _ k hg =>
    have hne := batch_ne_nil_of_givesUp hs.phased hg
    rw [(resume_quiet k (s := dropBatch s) rfl).failedOf_eq]
    simp only [dropBatch, failedOf_append, hg, not_true_eq_false, and_false, iff_false]
    simp [failedOf, hne]
  | quiet _ _ hg _ _ hq =>
    rw [hq.failedOf_eq]
    simp [hg]

private theorem failedOf_eq_nil_iff (cfg : Config) (as : List Action) (t : State)
    (h : exec (step cfg) init as = some t) :
    failedOf t.trace = [] ↔ Along (step cfg) (fun s a => ¬ GivesUp s a) init as := by
  have hiff := exec_iff_along (Q := fun s => failedOf s.trace = []) (inv_step cfg)
    (failedOf_step cfg) h inv_init
  simpa [init] using hiff

theorem drained_iff_failedOf {t : State} (ht : Inv t) (hret : t.phase = .returned) :
    Drained t.trace ↔ failedOf t.trace = [] := by
  have hb : t.batch = [] := by simpa [WellPhased, hret] using ht.phased
  have hperm := ht.accounted.perm
  rw [hb, List.append_nil] at hperm
  exact subperm_iff_lost_eq_nil hperm

theorem drained_iff_drainInserts (cfg : Config) (as : List Action) (t : State)
    (h : exec (step cfg) init as = some t) (hret : t.phase = .returned)
    (hlive : Along (step cfg) LiveInsertSucceeds init as) :
    Drained t.trace ↔ Along (step cfg) DrainInserts init as := by
  have hinv : Inv t := exec_invariant (inv_step cfg) h inv_init
  have hstep := (along_enabled h).and hlive
  rw [drained_iff_failedOf hinv hret, failedOf_eq_nil_iff cfg as t h]
  constructor
  · intro hal
    exact hal.mono (fun s a hg (_ : s.ctxDone = true) => hg)
  · intro hal
    refine (hstep.and hal).mono ?_
    rintro s a ⟨⟨⟨u, hu⟩, ha⟩, hd⟩ hg
    exact hd (ctxDone_of_givesUp hu ha hg) hg

/-- `InsertBatch` fails on a cancelled context. -/
def DeadInsertFails (s : State) (a : Action) : Prop := a = .insertBatch true → s.ctxDone = false

/-- Once the context is cancelled, no row is at hand and none arrives. -/
def NothingAfterCancel (s : State) (a : Action) : Prop :=
  s.ctxDone = true → s.batch = [] ∧ ∀ env, a ≠ .recv env

/-- A row is at hand under a cancelled context, or has been given up. -/
def Doomed (s : State) : Prop := s.ctxDone = true ∧ s.batch ≠ [] ∨ failedOf s.trace ≠ []

private theorem doomed_step (cfg : Config) (s : State) (a : Action) (t : State) (hs : Inv s)
    (ha : DeadInsertFails s a) (hd : Doomed s ∨ ¬ NothingAfterCancel s a)
    (h : step cfg s a = some t) : Doomed t := by
  have hcases : failedOf s.trace ≠ [] ∨
      s.ctxDone = true ∧ (s.batch ≠ [] ∨ ∃ env, a = .recv env) := by
    rcases hd with (⟨hc, hb⟩ | hf) | hn
    · exact .inr ⟨hc, .inl hb⟩
    · exact .inl hf
    · simp only [NothingAfterCancel, Classical.not_imp, not_and_or, not_forall, not_not] at hn
      exact .inr hn
  rcases hcases with hf | ⟨hc, hrest⟩
  · exact .inr (fun hnil => hf ((failedOf_step cfg s a t hs h).mp hnil).1)
  · have hfail := failedOf_step cfg s a t hs h
    cases step_effect h with
    | recv env _ _ hq => exact .inl ⟨hq.ctxDone hc, by simp [hq.batch, add]⟩
    | inserted => simp [ha rfl] at hc
    | gaveUp _ k hg => exact .inr (fun hnil => (hfail.mp hnil).2 hg)
    | quiet _ _ _ _ hr hq =>
      have hb : s.batch ≠ [] := hrest.resolve_right (not_exists.mpr hr)
      exact .inl ⟨hq.ctxDone hc, by rwa [hq.batch]⟩

private theorem drained_iff_nothingAfterCancel (cfg : Config) (as : List Action) (t : State)
    (h : exec (step cfg) init as = some t) (hret : t.phase = .returned)
    (hlive : Along (step cfg) LiveInsertSucceeds init as)
    (hdead : Along (step cfg) DeadInsertFails init as) :
    Drained t.trace ↔ Along (step cfg) NothingAfterCancel init as := by
  have hinv : Inv t := exec_invariant (inv_step cfg) h inv_init
  have hb : t.batch = [] := by simpa [WellPhased, hret] using hinv.phased
  constructor
  · intro hd
    have hnd : ¬ Doomed t := by simp [Doomed, hb, (drained_iff_failedOf hinv hret).mp hd]
    exact along_of_final (inv_step cfg) (doomed_step cfg) h hdead inv_init hnd
  · intro hn
    rw [drained_iff_drainInserts cfg as t h hret hlive]
    refine (hn.strengthen (fun s e u hi _ hu => inv_step cfg s e u hi hu) inv_init).mono ?_
    rintro s a ⟨hi, hna⟩ hc hg
    exact batch_ne_nil_of_givesUp hi.phased hg (hna hc).1

/-- In every run to the end in which `InsertBatch` succeeds under a live context, all
that was received is inserted exactly when no flush is given up after the cancellation.
With a store that refuses dead contexts, that is when the cancellation finds an empty
batch and nothing arrives during the drain. -/
theorem drained_iff (cfg : Config) (as : List Action) (t : State)
    (h : exec (step cfg) init as = some t) (hret : t.phase = .returned)
    (hlive : Along (step cfg) LiveInsertSucceeds init as) :
    (Drained t.trace ↔ Along (step cfg) DrainInserts init as) ∧
    (Along (step cfg) DeadInsertFails init as →
      (Drained t.trace ↔ Along (step cfg) NothingAfterCancel init as)) :=
  ⟨drained_iff_drainInserts cfg as t h hret hlive,
    drained_iff_nothingAfterCancel cfg as t h hret hlive⟩

/-- A row arrives, the context is cancelled, and the settle timer flushes the row with
the cancelled context. -/
def cancelThenSettle : List Action :=
  [.recv ⟨1, {}⟩, .cancel, .ctxDone, .settle, .insertBatch false, .parentDone]

def cancelThenSettleTrace : List Output := [.received ⟨1, {}⟩, .failed [⟨1, {}⟩], .sync]

theorem liveInsertSucceeds_cancelThenSettle :
    Along (step (newConfig 0 0)) LiveInsertSucceeds init cancelThenSettle := by decide

theorem drained_iff_cancelThenSettle :
    (Drained cancelThenSettleTrace ↔
      Along (step (newConfig 0 0)) DrainInserts init cancelThenSettle) ∧
    (Along (step (newConfig 0 0)) DeadInsertFails init cancelThenSettle →
      (Drained cancelThenSettleTrace ↔
        Along (step (newConfig 0 0)) NothingAfterCancel init cancelThenSettle)) :=
  drained_iff (newConfig 0 0) cancelThenSettle
    ⟨.returned, true, [], 1, 0, cancelThenSettleTrace⟩ rfl rfl liveInsertSucceeds_cancelThenSettle

/-- The run returns without the row in the store, although every insert under a live
context would have succeeded. -/
theorem drain_loses_row :
    ∃ t, exec (step (newConfig 0 0)) init cancelThenSettle = some t ∧ t.phase = .returned ∧
      Along (step (newConfig 0 0)) LiveInsertSucceeds init cancelThenSettle ∧
      ¬ Drained t.trace := by
  refine ⟨⟨.returned, true, [], 1, 0, cancelThenSettleTrace⟩, rfl, rfl,
    liveInsertSucceeds_cancelThenSettle, ?_⟩
  intro h
  have hlen := h.length_le
  revert hlen
  decide

end Statnive.ConsumerDrain
