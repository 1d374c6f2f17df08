import Statnive.LockoutTable

/-!
# How long a key stays locked

A lock runs until its time, unless the key is cleared. It may end before: a record whose reading
of the clock is past the window of the entry begins a new entry, without the lock of the old one,
and a record whose reading is older than that of the record that locked the key sets the lock to
an earlier time.
-/

namespace Statnive.LockoutPersistence

open LabelledRuns LockoutTable
open SiteRegistry (Unicode sampleUnicode)

variable {u : Unicode} {s t : Tracked} {l room : Lockout} {h : History} {key other : String}
  {now T : ℤ}

/-- A check before a time that the lock of its key was set to expire at tells the lock; a record
neither removes a running lock nor sets it to an earlier time. -/
def Persists (u : Unicode) (s : Tracked) : Call → Prop
  | .check email now => ∀ T ∈ s.history.locks (lockoutKey u email), now < T →
      (s.lockout.check (lockoutKey u email) now).1 = true
  | .record email now victim => ∀ t, step u s (.record email now victim) = some t →
      ∀ key e, s.lockout.get key = some e → now < e.lockedUntil →
        ∃ e', t.lockout.get key = some e' ∧ e.lockedUntil ≤ e'.lockedUntil
  | .clear _ => True

/-- A failure on an entry whose lock runs comes within its window, unless one failure is enough
for a lock, and with a reading no older than that of the failure that locked it. -/
def FailsInTime (l : Lockout) (key : String) (now : ℤ) : Prop :=
  ∀ e, l.get key = some e → now < e.lockedUntil →
    (l.windowOver e now = true → l.cfg.maxFails ≤ 1) ∧ e.lockedUntil ≤ now + l.cfg.lockout

/-- A record that is counted fails in time. A check before the expiry of a lock does not come
after a call that discarded the entry with a reading past that expiry. -/
def Timely (u : Unicode) (s : Tracked) : Call → Prop
  | .check email now => ∀ T ∈ s.history.locks (lockoutKey u email), now < T →
      ∀ d ∈ s.history.discards (lockoutKey u email), d < T
  | .record email now victim =>
      let room := (s.lockout.evict now victim).getD s.lockout
      room.full = false → FailsInTime room (lockoutKey u email) now
  | .clear _ => True

instance (l : Lockout) (key : String) (now : ℤ) : Decidable (FailsInTime l key now) :=
  inferInstanceAs (Decidable (∀ e ∈ l.get key, now < e.lockedUntil →
    (l.windowOver e now = true → l.cfg.maxFails ≤ 1) ∧ e.lockedUntil ≤ now + l.cfg.lockout))

instance (u : Unicode) (s : Tracked) : DecidablePred (Timely u s)
  | .check _ _ => inferInstanceAs (Decidable (∀ _ ∈ _, _ → ∀ _ ∈ _, _))
  | .record _ _ _ => inferInstanceAs (Decidable (_ → FailsInTime _ _ _))
  | .clear _ => .isTrue trivial

def Held (l : Lockout) (h : History) (key : String) (T : ℤ) : Prop :=
  (∃ e, l.get key = some e ∧ T ≤ e.lockedUntil) ∨ ∃ d ∈ h.discards key, T ≤ d

theorem Held.delete (hheld : Held l h key T)
    (hover : ∀ e, l.get other = some e → e.lockedUntil ≤ now) :
    Held (l.delete other) (h.discard other now) key T := by
  by_cases hk : key = other
  · subst hk
    right
    obtain ⟨e, he, hT⟩ | ⟨d, hd, hT⟩ := hheld
    · exact ⟨now, by simp [History.discard], hT.trans (hover e he)⟩
    · exact ⟨d, by simp [History.discard, hd], hT⟩
  · simpa [Held, History.discard, hk] using hheld

theorem lockedUntil_of_evictable {e : LockoutEntry} (h : l.evictable e now = true) :
    e.lockedUntil < now := by
  simp only [Lockout.evictable, Bool.and_eq_true, decide_eq_true_eq] at h
  exact h.1

theorem Held.evict (hheld : Held l h key T) {victim : Option String}
    (hroom : l.evict now victim = some room) : Held room (h.evict now victim) key T := by
  obtain ⟨rfl, rfl⟩ | ⟨other, e, rfl, he, hevict, rfl⟩ := Lockout.evict_cases hroom
  · exact hheld
  · apply hheld.delete
    intro e' he'
    obtain rfl := Option.some.inj (he.symm.trans he')
    exact (lockedUntil_of_evictable hevict).le

/-- The failure of a record in time leaves the lock of the entry, or moves it to a later time. -/
theorem lockedUntil_window (hlockout : 0 ≤ l.cfg.lockout) {e : LockoutEntry}
    (he : l.get key = some e) (htimely : FailsInTime l key now) :
    e.lockedUntil ≤ ((l.window key now).fail l.cfg now).lockedUntil ∨
      l.windowOver e now = true ∧ e.lockedUntil ≤ now := by
  rw [LockoutEntry.lockedUntil_fail]
  have hrun := htimely e he
  by_cases hover : l.windowOver e now = true
  · by_cases hlocked : now < e.lockedUntil
    · have hone : l.cfg.maxFails ≤ 1 := (hrun hlocked).1 hover
      left
      simpa [Lockout.window, he, hover, hone] using (hrun hlocked).2
    · exact .inr ⟨hover, not_lt.mp hlocked⟩
  · left
    have hwindow : l.window key now = e := by simp [Lockout.window, he, hover]
    rw [hwindow]
    by_cases hlocked : now < e.lockedUntil
    · have hnext := (hrun hlocked).2
      split_ifs <;> omega
    · split_ifs <;> omega

theorem Held.count (hheld : Held l h key T) (hlockout : 0 ≤ l.cfg.lockout)
    (hroom : l.full = false) (htimely : FailsInTime l other now) :
    Held (l.count other now) (h.count l other now) key T := by
  by_cases hk : key = other
  · subst hk
    obtain ⟨e, he, hT⟩ | ⟨d, hd, hT⟩ := hheld
    · obtain hkeep | ⟨hover, hend⟩ := lockedUntil_window hlockout he htimely
      · exact .inl ⟨_, Lockout.get_count l key now, hT.trans hkeep⟩
      · refine .inr ⟨now, ?_, hT.trans hend⟩
        simp [History.count, hroom, History.add, History.endWindow, he, hover, History.discard]
    · refine .inr ⟨d, ?_, hT⟩
      simp only [History.count, hroom, History.add, History.endWindow]
      split_ifs <;> simp [History.discard, hd]
  · have hkeep : (h.count l other now).discards key = h.discards key := by
      simp only [History.count, hroom, History.add, History.endWindow]
      split_ifs <;> simp [History.discard, hk]
    simpa [Held, hkeep, hk] using hheld

theorem locks_endWindow (h : History) (l : Lockout) (other : String) (now : ℤ) :
    (h.endWindow l other now).locks = h.locks := by
  simp only [History.endWindow]
  split_ifs <;> rfl

private theorem locks_evict (h : History) (now : ℤ) (victim : Option String) :
    (h.evict now victim).locks = h.locks := by
  cases victim <;> rfl

/-- A record sets no lock but the one of the entry that it counts its failure on. -/
theorem mem_locks_count (hT : T ∈ (h.count l other now).locks key) :
    T ∈ h.locks key ∨ l.full = false ∧ key = other ∧
      ((l.window other now).fail l.cfg now).lockedUntil = T := by
  cases hfull : l.full with
  | true => exact .inl (by simpa [History.count, hfull, History.add] using hT)
  | false =>
    have hmem : T ∈ ((h.endWindow l other now).fail l other now).locks key := by
      simpa [History.count, hfull, History.add] using hT
    rw [LockoutEntry.lockedUntil_fail]
    by_cases hlock : l.cfg.maxFails ≤ ((l.window other now).failCount + 1 : ℕ)
    · rw [History.fail, if_pos hlock] at hmem
      by_cases hk : key = other
      · subst hk
        obtain hnew | hold : T = now + l.cfg.lockout ∨ T ∈ h.locks key := by
          simpa [History.lock, locks_endWindow] using hmem
        · exact .inr ⟨rfl, rfl, by rw [if_pos hlock, hnew]⟩
        · exact .inl hold
      · left
        simpa [History.lock, locks_endWindow, hk] using hmem
    · rw [History.fail, if_neg hlock, locks_endWindow] at hmem
      exact .inl hmem

structure LocksHeld (s : Tracked) : Prop where
  lockout_nonneg : 0 ≤ s.lockout.cfg.lockout
  held : ∀ key, ∀ T ∈ s.history.locks key, Held s.lockout s.history key T

private theorem locksHeld_init (cfg : LockoutConfig) : LocksHeld (init cfg) where
  lockout_nonneg := by
    simp only [init, newLockout, LockoutConfig.withDefaults, second]
    split_ifs <;> omega
  held := by simp [init]

theorem LocksHeld.delete (hs : LocksHeld s) (other : String) (now : ℤ)
    (hover : ∀ e, s.lockout.get other = some e → e.lockedUntil ≤ now) :
    LocksHeld ⟨s.lockout.delete other, s.history.discard other now⟩ where
  lockout_nonneg := hs.lockout_nonneg
  held key T hT := (hs.held key T hT).delete hover

theorem LocksHeld.evict (hs : LocksHeld s) {victim : Option String}
    (hroom : s.lockout.evict now victim = some room) :
    LocksHeld ⟨room, s.history.evict now victim⟩ where
  lockout_nonneg := (Lockout.cfg_evict hroom).symm ▸ hs.lockout_nonneg
  held key T hT := (hs.held key T (by rwa [locks_evict] at hT)).evict hroom

/-- A dropped record leaves the locks alone. -/
theorem LocksHeld.dropped (hs : LocksHeld s) (other : String) (now : ℤ)
    (hfull : s.lockout.full = true) :
    LocksHeld ⟨s.lockout, s.history.count s.lockout other now⟩ where
  lockout_nonneg := hs.lockout_nonneg
  held key T hT := by
    simpa [Held, History.count, hfull, History.add] using
      hs.held key T (by simpa [History.count, hfull, History.add] using hT)

theorem LocksHeld.count (hs : LocksHeld s) (other : String) (now : ℤ)
    (hroom : s.lockout.full = false) (htimely : FailsInTime s.lockout other now) :
    LocksHeld ⟨s.lockout.count other now, s.history.count s.lockout other now⟩ where
  lockout_nonneg := hs.lockout_nonneg
  held key T hT := by
    obtain hT | ⟨-, rfl, hlock⟩ := mem_locks_count hT
    · exact (hs.held key T hT).count hs.lockout_nonneg hroom htimely
    · exact .inl ⟨_, Lockout.get_count s.lockout key now, hlock.ge⟩

theorem LocksHeld.clear (hs : LocksHeld s) (other : String) :
    LocksHeld ⟨s.lockout.clear other, s.history.clear other⟩ where
  lockout_nonneg := hs.lockout_nonneg
  held key T hT := by
    by_cases hk : key = other
    · subst hk
      simp [History.clear] at hT
    · have hheld := hs.held key T (by simpa [History.clear, hk] using hT)
      simpa [Held, Lockout.clear, History.clear, hk] using hheld

private theorem locksHeld_step {c : Call} (hs : LocksHeld s) (htimely : Timely u s c)
    (hstep : step u s c = some t) : LocksHeld t := by
  cases c with
  | check email now =>
    obtain rfl | ⟨rfl, hover⟩ := step_check_cases hstep
    · exact hs
    · exact hs.delete _ now hover
  | record email now victim =>
    obtain ⟨room, hroom, hcases⟩ := step_record_cases hstep
    simp only [Timely, hroom, Option.getD_some] at htimely
    obtain ⟨hfull, rfl⟩ | ⟨hfull, rfl⟩ := hcases
    · exact (hs.evict hroom).dropped _ now hfull
    · exact (hs.evict hroom).count _ now hfull (htimely hfull)
  | clear email =>
    obtain rfl := Option.some.inj hstep
    exact hs.clear _

/-- A running lock is not evicted. -/
theorem get_evict_of_locked {victim : Option String} {e : LockoutEntry}
    (hroom : l.evict now victim = some room) (he : l.get key = some e)
    (hlocked : now < e.lockedUntil) : room.get key = some e := by
  obtain ⟨-, rfl⟩ | ⟨other, e', -, he', hevict, rfl⟩ := Lockout.evict_cases hroom
  · exact he
  · have hk : key ≠ other := by
      rintro rfl
      obtain rfl := Option.some.inj (he.symm.trans he')
      exact lt_asymm hlocked (lockedUntil_of_evictable hevict)
    rw [Lockout.get_delete_of_ne l hk, he]

/-- A record in time keeps the lock of every key. -/
theorem record_persists {email : String} {victim : Option String}
    (hlockout : 0 ≤ s.lockout.cfg.lockout) (htimely : Timely u s (.record email now victim)) :
    Persists u s (.record email now victim) := by
  intro t hstep key e he hlocked
  obtain ⟨room, hroom, hcases⟩ := step_record_cases hstep
  simp only [Timely, hroom, Option.getD_some] at htimely
  have hget := get_evict_of_locked hroom he hlocked
  obtain ⟨-, rfl⟩ | ⟨hfull, rfl⟩ := hcases
  · exact ⟨e, hget, le_rfl⟩
  by_cases hk : key = lockoutKey u email
  · subst hk
    have hroom_lockout : 0 ≤ room.cfg.lockout := (Lockout.cfg_evict hroom).symm ▸ hlockout
    obtain hkeep | ⟨-, hend⟩ := lockedUntil_window hroom_lockout hget (htimely hfull)
    · exact ⟨_, Lockout.get_count room _ now, hkeep⟩
    · omega
  · exact ⟨e, by rw [Lockout.get_count_of_ne room now hk, hget], le_rfl⟩

private theorem check_persists (hs : LocksHeld s) {email : String}
    (htimely : Timely u s (.check email now)) : Persists u s (.check email now) := by
  intro T hT hnow
  obtain ⟨e, he, hle⟩ | ⟨d, hd, hle⟩ := hs.held _ T hT
  · rw [Lockout.check_of_locked he (hnow.trans_le hle)]
  · have hbefore := htimely T hT hnow d hd
    omega

private theorem persists_of_timely (hs : LocksHeld s) {c : Call} (htimely : Timely u s c) :
    Persists u s c := by
  cases c with
  | check email now => exact check_persists hs htimely
  | record email now victim => exact record_persists hs.lockout_nonneg htimely
  | clear email => trivial

/-- Along every run of checks, records and clears of any emails, in any order of their readings of
the clock: where all calls are timely, every check before the expiry of a lock that was set since
the last clear of its key tells the lock, and no record shortens or removes a running lock. -/
theorem locks_persist (u : Unicode) (cfg : LockoutConfig) {calls : List Call}
    (h : Along (step u) (Timely u) (init cfg) calls) :
    Along (step u) (Persists u) (init cfg) calls :=
  (h.strengthen (fun _ _ _ hs htimely hstep => locksHeld_step hs htimely hstep)
    (locksHeld_init cfg)).mono fun _ _ hc => persists_of_timely hc.1 hc.2

def twoFails : LockoutConfig where
  maxFails := 2
  decay := 900 * second
  lockout := 300 * second
  maxTracked := 10

theorem locks_persist_twoFails :
    Along (step sampleUnicode) (Persists sampleUnicode) (init twoFails)
      [.record "a@b.c" 0 none, .record "a@b.c" (10 * second) none,
        .check "a@b.c" (300 * second)] :=
  locks_persist sampleUnicode twoFails (by decide)

/-- Two logins pass the check of their key. The failure of the first locks it until 1199; that of
the second comes after the window of the entry, and takes the lock. -/
theorem lock_removed :
    ¬ Along (step sampleUnicode) (Persists sampleUnicode) (init twoFails)
      [.record "a@b.c" 0 none, .check "a@b.c" (898 * second), .check "a@b.c" (898 * second),
        .record "a@b.c" (899 * second) none, .record "a@b.c" (901 * second) none,
        .check "a@b.c" (960 * second)] := by
  intro h
  have hcheck := (((((h.2 _ rfl).2 _ rfl).2 _ rfl).2 _ rfl).2 _ rfl).1
  exact absurd (hcheck (1199 * second) (by decide) (by decide)) (by decide)

end Statnive.LockoutPersistence
