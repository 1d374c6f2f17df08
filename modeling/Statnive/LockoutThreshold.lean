import Mathlib.Algebra.Order.Group.Abs
import Statnive.LockoutTable

/-!
# When a key is locked

The count of an entry is that of the failures of its key that it has not lost: those that found
no room, or were discarded with an older one, are no longer counted.
-/

namespace Statnive.LockoutThreshold

open LabelledRuns LockoutTable
open SiteRegistry (Unicode sampleUnicode)

variable {u : Unicode} {s t : Tracked} {key : String}

/-- The failures of a key since it was last cleared, the latest first. -/
def failureStep (u : Unicode) (key : String) (times : List ℤ) : Call → List ℤ
  | .record email now _ => if lockoutKey u email = key then now :: times else times
  | .clear email => if lockoutKey u email = key then [] else times
  | .check _ _ => times

def failuresSince (u : Unicode) (key : String) (calls : List Call) : List ℤ :=
  calls.foldl (failureStep u key) []

def inSpan (a span : ℤ) (times : List ℤ) : ℕ := times.countP (fun f => a ≤ f ∧ f ≤ a + span)

def timesOf (h : History) (key : String) : List ℤ := (h.failures key).map Failure.time

theorem timesOf_discard (h : History) (other : String) (now : ℤ) (key : String) :
    timesOf (h.discard other now) key = timesOf h key := by
  by_cases hk : key = other
  · subst hk
    simp [timesOf, History.discard, Function.comp_def]
  · simp [timesOf, History.discard, hk]

theorem timesOf_evict (h : History) (now : ℤ) (victim : Option String) (key : String) :
    timesOf (h.evict now victim) key = timesOf h key := by
  cases victim with
  | none => rfl
  | some victim => exact timesOf_discard h victim now key

theorem timesOf_endWindow (h : History) (l : Lockout) (other : String) (now : ℤ) (key : String) :
    timesOf (h.endWindow l other now) key = timesOf h key := by
  simp only [History.endWindow]
  split_ifs
  · exact timesOf_discard h other now key
  · rfl

private theorem timesOf_count
    (h : History) (l : Lockout) (other : String) (now : ℤ) (key : String) :
    timesOf (h.count l other now) key =
      if other = key then now :: timesOf h key else timesOf h key := by
  have hend := timesOf_endWindow h l other now key
  simp only [History.count]
  by_cases hk : other = key
  · subst hk
    split_ifs <;> simp_all [timesOf, History.add]
  · split_ifs <;> simp_all [timesOf, History.add, Ne.symm hk]

private theorem timesOf_call (h : History) (l : Lockout) (c : Call) (key : String) :
    timesOf (h.call u l c) key = failureStep u key (timesOf h key) c := by
  cases c with
  | check email now =>
    simp only [History.call, failureStep]
    split_ifs
    · rfl
    · exact timesOf_endWindow h l _ now key
  | record email now victim => simp only [History.call, failureStep, timesOf_count, timesOf_evict]
  | clear email =>
    by_cases hk : lockoutKey u email = key
    · simp [History.call, failureStep, timesOf, History.clear, hk]
    · simp [History.call, failureStep, timesOf, History.clear, hk, Ne.symm hk]

/-- The history lists the failures of the run. -/
theorem timesOf_exec {calls : List Call} (h : exec (step u) s calls = some t) (key : String) :
    timesOf t.history key = calls.foldl (failureStep u key) (timesOf s.history key) := by
  induction calls generalizing s with
  | nil => simp [Option.some.inj h]
  | cons c calls ih =>
    obtain ⟨r, hr, ht⟩ := exec_cons.mp h
    rw [ih ht, (step_eq hr).2, timesOf_call, List.foldl_cons]

/-- The failures that are still counted are as many as the entry says. -/
def Counts (l : Lockout) (h : History) (key : String) : Prop :=
  (h.failures key).countP Failure.counted = ((l.get key).map LockoutEntry.failCount).getD 0

theorem Counts.delete {l : Lockout} {h : History} (hc : Counts l h key) (other : String) (now : ℤ) :
    Counts (l.delete other) (h.discard other now) key := by
  by_cases hk : key = other
  · subst hk
    simp [Counts, History.discard]
  · simpa [Counts, History.discard, hk] using hc

theorem Counts.evict {l l' : Lockout} {h : History} (hc : Counts l h key) {now : ℤ}
    {victim : Option String} (hl : l.evict now victim = some l') :
    Counts l' (h.evict now victim) key := by
  obtain ⟨rfl, rfl⟩ | ⟨other, e, rfl, -, -, rfl⟩ := Lockout.evict_cases hl
  · exact hc
  · exact hc.delete other now

/-- What is left of the history of a key is what the window of its entry counts. -/
theorem Counts.window {l : Lockout} {h : History} (hc : Counts l h key) (now : ℤ) :
    ((h.endWindow l key now).failures key).countP Failure.counted =
      (l.window key now).failCount := by
  simp only [History.endWindow, Lockout.window]
  simp only [Counts] at hc
  cases he : l.get key with
  | none => simpa [he] using hc
  | some e =>
    by_cases hover : l.windowOver e now = true
    · simp [hover, History.discard]
    · simpa [he, hover] using hc

theorem Counts.count {l : Lockout} {h : History} (hc : ∀ key, Counts l h key) (other : String)
    (now : ℤ) (hroom : l.full = false) (key : String) :
    Counts (l.count other now) (h.count l other now) key := by
  by_cases hk : key = other
  · subst hk
    have hwindow := (hc key).window now
    simp [Counts, History.count, hroom, History.add, hwindow]
  · have hkeep : (h.endWindow l other now).failures key = h.failures key := by
      simp only [History.endWindow]
      split_ifs <;> simp [History.discard, hk]
    simpa [Counts, History.count, hroom, History.add, hk, hkeep] using hc key

theorem Counts.dropped {l : Lockout} {h : History} (hc : ∀ key, Counts l h key) (other : String)
    (now : ℤ) (hfull : l.full = true) (key : String) : Counts l (h.count l other now) key := by
  by_cases hk : key = other
  · subst hk
    simpa [Counts, History.count, hfull, History.add] using hc key
  · simpa [Counts, History.count, hfull, History.add, hk] using hc key

private theorem counts_step {c : Call} (hs : ∀ key, Counts s.lockout s.history key)
    (h : step u s c = some t) (key : String) : Counts t.lockout t.history key := by
  cases c with
  | check email now =>
    obtain rfl | ⟨rfl, -⟩ := step_check_cases h
    · exact hs key
    · exact (hs key).delete (lockoutKey u email) now
  | record email now victim =>
    obtain ⟨room, hroom, ⟨hfull, rfl⟩ | ⟨hfull, rfl⟩⟩ := step_record_cases h
    · exact Counts.dropped (fun key => (hs key).evict hroom) _ now hfull key
    · exact Counts.count (fun key => (hs key).evict hroom) _ now hfull key
  | clear email =>
    obtain rfl := Option.some.inj h
    by_cases hk : key = lockoutKey u email
    · subst hk
      simp [Counts, History.call, History.clear, Lockout.clear]
    · simpa [Counts, History.call, History.clear, Lockout.clear, hk] using hs key

private theorem counts_init (cfg : LockoutConfig) (key : String) :
    Counts (init cfg).lockout (init cfg).history key := by
  simp [Counts, init, newLockout, Lockout.get]

private theorem counts_exec {cfg : LockoutConfig} {calls : List Call}
    (h : exec (step u) (init cfg) calls = some s) (key : String) :
    Counts s.lockout s.history key :=
  exec_invariant (I := fun s => ∀ key, Counts s.lockout s.history key)
    (fun _ _ _ hs hstep => counts_step hs hstep) h (counts_init cfg) key

private theorem cfg_step {c : Call} (h : step u s c = some t) : t.lockout.cfg = s.lockout.cfg := by
  cases c with
  | check email now =>
    obtain rfl | ⟨rfl, -⟩ := step_check_cases h <;> rfl
  | record email now victim =>
    obtain ⟨room, hroom, hcases⟩ := step_record_cases h
    have hcfg := Lockout.cfg_evict hroom
    obtain ⟨-, rfl⟩ | ⟨-, rfl⟩ := hcases <;> exact hcfg
  | clear email => rw [← Option.some.inj h]; rfl

private theorem cfg_exec {calls : List Call} (h : exec (step u) s calls = some t) :
    t.lockout.cfg = s.lockout.cfg :=
  exec_invariant (I := fun t => t.lockout.cfg = s.lockout.cfg)
    (fun _ _ _ hs hstep => (cfg_step hstep).trans hs) h rfl

/-- A record finds room, and no failure of its key within the decay of it is lost, neither before
nor with the entry that the record finds. -/
def Retains (u : Unicode) (s : Tracked) : Call → Prop
  | .record email now victim =>
    let room := (s.lockout.evict now victim).getD s.lockout
    let key := lockoutKey u email
    room.full = false ∧
      ∀ f ∈ ((s.history.evict now victim).endWindow room key now).failures key,
        |now - f.time| ≤ s.lockout.cfg.decay → f.counted = true
  | _ => True

instance (u : Unicode) (s : Tracked) : DecidablePred (Retains u s)
  | .record _ _ _ => inferInstanceAs (Decidable (_ ∧ ∀ _ ∈ _, _ → _))
  | .check _ _ => .isTrue trivial
  | .clear _ => .isTrue trivial

/-- Where none of them is lost, the entry counts every failure of a span around now. -/
theorem inSpan_le_counted {a span now : ℤ} {h : History} (ha : a ≤ now) (hspan : now ≤ a + span)
    (hkept : ∀ f ∈ h.failures key, |now - f.time| ≤ span → f.counted = true) :
    inSpan a span (timesOf h key) ≤ (h.failures key).countP Failure.counted := by
  rw [inSpan, timesOf, List.countP_map]
  apply List.countP_mono_left
  intro f hf hin
  obtain ⟨hlow, hhigh⟩ : a ≤ f.time ∧ f.time ≤ a + span := by simpa using hin
  exact hkept f hf (abs_le.mpr (by omega))

/-- A record that loses none of the failures of a span locks its key with the last of them. -/
theorem locked_of_retains {email : String} {now a : ℤ} {victim : Option String}
    (hcounts : ∀ key, Counts s.lockout s.history key)
    (hkept : Retains u s (.record email now victim))
    (hstep : step u s (.record email now victim) = some t)
    (ha : a ≤ now) (hspan : now ≤ a + s.lockout.cfg.decay)
    (hfails : s.lockout.cfg.maxFails ≤
      inSpan a s.lockout.cfg.decay (now :: timesOf s.history (lockoutKey u email))) :
    ∃ e, t.lockout.get (lockoutKey u email) = some e ∧
      e.lockedUntil = now + s.lockout.cfg.lockout := by
  obtain ⟨room, hroom, hcases⟩ := step_record_cases hstep
  simp only [Retains, hroom, Option.getD_some] at hkept
  obtain ⟨hfull, hall⟩ := hkept
  obtain ⟨hnot, -⟩ | ⟨-, rfl⟩ := hcases
  · simp [hfull] at hnot
  have hcfg := Lockout.cfg_evict hroom
  refine ⟨_, Lockout.get_count room _ now, ?_⟩
  have hwindow := ((hcounts (lockoutKey u email)).evict hroom).window now
  have hspanned := inSpan_le_counted ha hspan hall
  rw [timesOf_endWindow, timesOf_evict, hwindow] at hspanned
  have hone : inSpan a s.lockout.cfg.decay (now :: timesOf s.history (lockoutKey u email)) =
      inSpan a s.lockout.cfg.decay (timesOf s.history (lockoutKey u email)) + 1 := by
    simp [inSpan, ha, hspan]
  have hreached : s.lockout.cfg.maxFails ≤
      ((room.window (lockoutKey u email) now).failCount + 1 : ℕ) := by omega
  rw [LockoutEntry.lockedUntil_fail, hcfg, if_pos hreached]

/-- In every run of checks, records and clears of any emails: where a record that retains the
failures of its key is the last of `MaxFails` of them within one decay, a check finds the key
locked until the lockout is over. -/
theorem locked_at_threshold (u : Unicode) (cfg : LockoutConfig) {calls : List Call} {email : String}
    {now a : ℤ} {victim : Option String} (hrun : exec (step u) (init cfg) calls = some s)
    (hkept : Retains u s (.record email now victim))
    (hstep : step u s (.record email now victim) = some t)
    (ha : a ≤ now) (hspan : now ≤ a + cfg.withDefaults.decay)
    (hfails : cfg.withDefaults.maxFails ≤ inSpan a cfg.withDefaults.decay
      (failuresSince u (lockoutKey u email) (calls ++ [.record email now victim])))
    (later : ℤ) (hlater : later < now + cfg.withDefaults.lockout) :
    (t.lockout.check (lockoutKey u email) later).1 = true := by
  have hcfg : s.lockout.cfg = cfg.withDefaults := cfg_exec hrun
  have htimes : failuresSince u (lockoutKey u email) (calls ++ [.record email now victim]) =
      now :: timesOf s.history (lockoutKey u email) := by
    rw [timesOf_exec hrun]
    simp [failuresSince, failureStep, init, timesOf]
  rw [htimes, ← hcfg] at hfails
  obtain ⟨e, he, hlocked⟩ :=
    locked_of_retains (counts_exec hrun) hkept hstep ha (hcfg ▸ hspan) hfails
  rw [Lockout.check_of_locked he (by rw [hlocked, hcfg]; exact hlater)]

def threeFails : LockoutConfig where
  maxFails := 3
  decay := 3600 * second
  lockout := 600 * second
  maxTracked := 2

def failAt (email : String) (seconds : ℤ) : Call := .record email (seconds * second) none

def after (calls : List Call) : Tracked :=
  (exec (step sampleUnicode) (init threeFails) calls).getD (init threeFails)

theorem locked_at_threshold_threeFails :
    ((after [failAt "a@b.c" 0, failAt "a@b.c" 10, failAt "a@b.c" 20]).lockout.check
      (lockoutKey sampleUnicode "a@b.c") (20 * second)).1 = true :=
  have hrun : exec (step sampleUnicode) (init threeFails) [failAt "a@b.c" 0, failAt "a@b.c" 10] =
    some (after [failAt "a@b.c" 0, failAt "a@b.c" 10]) := by rfl
  have hstep : step sampleUnicode (after [failAt "a@b.c" 0, failAt "a@b.c" 10])
    (.record "a@b.c" (20 * second) none) =
      some (after [failAt "a@b.c" 0, failAt "a@b.c" 10, failAt "a@b.c" 20]) := by rfl
  locked_at_threshold sampleUnicode threeFails (a := 0) hrun (by decide) hstep (by decide)
    (by decide) (by decide) (20 * second) (by decide)

/-- The window of the entry begins with the failure at 0, so that the record at 3601 begins
another: the last three failures lie within two minutes and lock nothing. -/
theorem unlocked_past_window :
    let calls := [failAt "a@b.c" 0, failAt "a@b.c" 3540, failAt "a@b.c" 3601, failAt "a@b.c" 3660]
    exec (step sampleUnicode) (init threeFails) calls = some (after calls) ∧
    threeFails.withDefaults.maxFails ≤ inSpan (3540 * second) threeFails.withDefaults.decay
      (failuresSince sampleUnicode (lockoutKey sampleUnicode "a@b.c") calls) ∧
    ((after calls).lockout.check (lockoutKey sampleUnicode "a@b.c") (3660 * second)).1 = false :=
  ⟨rfl, by decide, by decide⟩

/-- Two other keys fill the table: none of the failures is counted. -/
example : ((after [failAt "x" 0, failAt "y" 0, failAt "a@b.c" 1, failAt "a@b.c" 2,
    failAt "a@b.c" 3]).lockout.check (lockoutKey sampleUnicode "a@b.c") (3 * second)).1 =
      false := by
  decide

end Statnive.LockoutThreshold
