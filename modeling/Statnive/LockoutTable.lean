import Mathlib.Data.List.AList
import Statnive.LabelledRuns
import Statnive.SiteRegistry

/-!
# The lockout of accounts

The table of failed logins by email. Each call reads the clock before it takes the lock of the
table, so that the calls of concurrent logins may come in another order than their readings.
-/

namespace Statnive.LockoutTable

open LabelledRuns
open IngestHandler (trimSpace)
open SiteRegistry (Unicode)

/-- Times and spans are in nanoseconds. -/
def second : ℤ := 1000000000

structure LockoutConfig where
  maxFails : ℤ
  decay : ℤ
  lockout : ℤ
  maxTracked : ℤ

/-- What `NewLockout` makes of a configuration. -/
def LockoutConfig.withDefaults (cfg : LockoutConfig) : LockoutConfig where
  maxFails := if cfg.maxFails ≤ 0 then 10 else cfg.maxFails
  decay := if cfg.decay ≤ 0 then 900 * second else cfg.decay
  lockout := if cfg.lockout ≤ 0 then 300 * second else cfg.lockout
  maxTracked := if cfg.maxTracked ≤ 0 then 10000 else cfg.maxTracked

/-- The zero of `time.Time`, before the epoch. -/
def zeroTime : ℤ := -62135596800 * second

structure LockoutEntry where
  firstFail : ℤ
  failCount : ℕ := 0
  lockedUntil : ℤ := zeroTime
  deriving DecidableEq

/-- One more failure on the entry, with which it may lock its key. -/
def LockoutEntry.fail (e : LockoutEntry) (cfg : LockoutConfig) (now : ℤ) : LockoutEntry :=
  let e := { e with failCount := e.failCount + 1 }
  if cfg.maxFails ≤ e.failCount then { e with lockedUntil := now + cfg.lockout } else e

structure Lockout where
  cfg : LockoutConfig
  entries : AList (fun _ : String => LockoutEntry) := ∅

def newLockout (cfg : LockoutConfig) : Lockout := { cfg := cfg.withDefaults }

def lockoutKey (u : Unicode) (email : String) : String := u.lowerString (trimSpace email)

namespace Lockout

def get (l : Lockout) (key : String) : Option LockoutEntry := l.entries.lookup key

def put (l : Lockout) (key : String) (e : LockoutEntry) : Lockout :=
  { l with entries := l.entries.insert key e }

def delete (l : Lockout) (key : String) : Lockout :=
  { l with entries := l.entries.erase key }

/-- The window of the entry is over. -/
def windowOver (l : Lockout) (e : LockoutEntry) (now : ℤ) : Bool := l.cfg.decay < now - e.firstFail

/-- `true` is `ErrLockedOut`. -/
def check (l : Lockout) (key : String) (now : ℤ) : Bool × Lockout :=
  match l.get key with
  | none => (false, l)
  | some e =>
    if now < e.lockedUntil then (true, l)
    else if l.windowOver e now then (false, l.delete key)
    else (false, l)

def full (l : Lockout) : Bool := l.cfg.maxTracked ≤ l.entries.keys.length

def evictable (l : Lockout) (e : LockoutEntry) (now : ℤ) : Bool :=
  e.lockedUntil < now && l.windowOver e now

/-- Room for a record: a full table loses the first evictable entry that the range over the map
comes to, which may be any. -/
def evict (l : Lockout) (now : ℤ) : Option String → Option Lockout
  | some victim =>
    if l.full && (l.get victim).any (fun e => l.evictable e now) then some (l.delete victim)
    else none
  | none =>
    if l.full && l.entries.entries.any (fun kv => l.evictable kv.2 now) then none else some l

/-- The entry that a failure is counted on: that of the key, or a new one where there is none or
its window is over. -/
def window (l : Lockout) (key : String) (now : ℤ) : LockoutEntry :=
  match l.get key with
  | none => { firstFail := now }
  | some e => if l.windowOver e now then { firstFail := now } else e

def count (l : Lockout) (key : String) (now : ℤ) : Lockout :=
  l.put key ((l.window key now).fail l.cfg now)

/-- `victim` is the entry that makes room, where one does. A record that finds none is dropped. -/
def record (l : Lockout) (key : String) (now : ℤ) (victim : Option String) : Option Lockout :=
  (l.evict now victim).map fun l => if l.full then l else l.count key now

def clear (l : Lockout) (key : String) : Lockout := l.delete key

end Lockout

/-- A call with its reading of the clock. -/
inductive Call where
  | check (email : String) (now : ℤ)
  | record (email : String) (now : ℤ) (victim : Option String)
  | clear (email : String)
  deriving DecidableEq

def Lockout.call (u : Unicode) (l : Lockout) : Call → Option Lockout
  | .check email now => some (l.check (lockoutKey u email) now).2
  | .record email now victim => l.record (lockoutKey u email) now victim
  | .clear email => some (l.clear (lockoutKey u email))

/-- A failed login, and whether the entry of its key still counts it. -/
structure Failure where
  time : ℤ
  counted : Bool
  deriving DecidableEq

/-- Of each key since it was last cleared: its failures, the times its lock was set to expire at,
and when its entry was discarded. -/
structure History where
  failures : String → List Failure := fun _ => []
  locks : String → List ℤ := fun _ => []
  discards : String → List ℤ := fun _ => []

namespace History

def discard (h : History) (key : String) (now : ℤ) : History :=
  { h with
    failures := Function.update h.failures key ((h.failures key).map (fun f => ⟨f.time, false⟩))
    discards := Function.update h.discards key (now :: h.discards key) }

def add (h : History) (key : String) (f : Failure) : History :=
  { h with failures := Function.update h.failures key (f :: h.failures key) }

def lock (h : History) (key : String) (expiry : ℤ) : History :=
  { h with locks := Function.update h.locks key (expiry :: h.locks key) }

def clear (h : History) (key : String) : History where
  failures := Function.update h.failures key []
  locks := Function.update h.locks key []
  discards := Function.update h.discards key []

/-- An entry of a full table makes room. -/
def evict (h : History) (now : ℤ) : Option String → History
  | some victim => h.discard victim now
  | none => h

/-- The entry of the key goes, for its window is over. -/
def endWindow (h : History) (l : Lockout) (key : String) (now : ℤ) : History :=
  if (l.get key).any (fun e => l.windowOver e now) then h.discard key now else h

/-- A failure that the entry of the key counts may lock the key. -/
def fail (h : History) (l : Lockout) (key : String) (now : ℤ) : History :=
  if l.cfg.maxFails ≤ ((l.window key now).failCount + 1 : ℕ) then h.lock key (now + l.cfg.lockout)
  else h

/-- A record on a table that has room or not. -/
def count (h : History) (l : Lockout) (key : String) (now : ℤ) : History :=
  if l.full then h.add key ⟨now, false⟩
  else ((h.endWindow l key now).fail l key now).add key ⟨now, true⟩

def call (u : Unicode) (h : History) (l : Lockout) : Call → History
  | .check email now =>
    if (l.check (lockoutKey u email) now).1 then h else h.endWindow l (lockoutKey u email) now
  | .record email now victim =>
    (h.evict now victim).count ((l.evict now victim).getD l) (lockoutKey u email) now
  | .clear email => h.clear (lockoutKey u email)

end History

/-- A table with what happened to its keys. -/
structure Tracked where
  lockout : Lockout
  history : History := {}

def step (u : Unicode) (s : Tracked) (c : Call) : Option Tracked :=
  (s.lockout.call u c).map fun l => ⟨l, s.history.call u s.lockout c⟩

def init (cfg : LockoutConfig) : Tracked := { lockout := newLockout cfg }

@[simp] theorem LockoutEntry.failCount_fail (e : LockoutEntry) (cfg : LockoutConfig) (now : ℤ) :
    (e.fail cfg now).failCount = e.failCount + 1 := by
  simp only [LockoutEntry.fail]
  split <;> rfl

theorem LockoutEntry.lockedUntil_fail (e : LockoutEntry) (cfg : LockoutConfig) (now : ℤ) :
    (e.fail cfg now).lockedUntil =
      if cfg.maxFails ≤ (e.failCount + 1 : ℕ) then now + cfg.lockout else e.lockedUntil := by
  simp only [LockoutEntry.fail]
  split <;> rfl

namespace Lockout

variable {l : Lockout} {key other : String} {e : LockoutEntry} {now : ℤ}

@[simp] theorem get_put (l : Lockout) (key : String) (e : LockoutEntry) :
    (l.put key e).get key = some e := AList.lookup_insert _

@[simp] theorem get_put_of_ne (l : Lockout) (e : LockoutEntry) (h : other ≠ key) :
    (l.put key e).get other = l.get other := AList.lookup_insert_ne h

@[simp] theorem get_delete (l : Lockout) (key : String) : (l.delete key).get key = none :=
  AList.lookup_erase _ _

@[simp] theorem get_delete_of_ne (l : Lockout) (h : other ≠ key) :
    (l.delete key).get other = l.get other := AList.lookup_erase_ne h

@[simp] theorem get_count (l : Lockout) (key : String) (now : ℤ) :
    (l.count key now).get key = some ((l.window key now).fail l.cfg now) := get_put l key _

@[simp] theorem get_count_of_ne (l : Lockout) (now : ℤ) (h : other ≠ key) :
    (l.count key now).get other = l.get other := get_put_of_ne l _ h

/-- An eviction leaves the table alone, or takes one evictable entry of a full one. -/
theorem evict_cases {l' : Lockout} {victim : Option String} (h : l.evict now victim = some l') :
    (victim = none ∧ l' = l) ∨
      ∃ key e, victim = some key ∧ l.get key = some e ∧ l.evictable e now = true ∧
        l' = l.delete key := by
  cases victim with
  | none =>
    simp only [evict] at h
    split at h
    · simp at h
    · exact .inl ⟨rfl, (Option.some.inj h).symm⟩
  | some key =>
    simp only [evict] at h
    split at h
    · next hroom =>
      obtain ⟨-, hany⟩ := Bool.and_eq_true_iff.mp hroom
      cases he : l.get key with
      | none => simp [he] at hany
      | some e =>
        exact .inr ⟨key, e, rfl, he, by simpa [he] using hany, (Option.some.inj h).symm⟩
    · simp at h

/-- What a call does to the table. -/
theorem record_cases {l' : Lockout} {victim : Option String}
    (h : l.record key now victim = some l') :
    ∃ room, l.evict now victim = some room ∧
      (room.full = true ∧ l' = room ∨ room.full = false ∧ l' = room.count key now) := by
  obtain ⟨room, hroom, rfl⟩ := Option.map_eq_some_iff.mp h
  refine ⟨room, hroom, ?_⟩
  cases hfull : room.full with
  | true => exact .inl ⟨rfl, rfl⟩
  | false => exact .inr ⟨rfl, rfl⟩

theorem cfg_evict {l' : Lockout} {victim : Option String} (h : l.evict now victim = some l') :
    l'.cfg = l.cfg := by
  obtain ⟨-, rfl⟩ | ⟨key, e, -, -, -, rfl⟩ := evict_cases h <;> rfl

/-- A check tells a running lock. -/
theorem check_of_locked (he : l.get key = some e) (hlocked : now < e.lockedUntil) :
    l.check key now = (true, l) := by
  simp [check, he, hlocked]

end Lockout

@[simp] theorem History.failures_fail (h : History) (l : Lockout) (key : String) (now : ℤ) :
    (h.fail l key now).failures = h.failures := by
  simp only [History.fail]
  split_ifs <;> rfl

@[simp] theorem History.discards_fail (h : History) (l : Lockout) (key : String) (now : ℤ) :
    (h.fail l key now).discards = h.discards := by
  simp only [History.fail]
  split_ifs <;> rfl

theorem step_eq {u : Unicode} {s t : Tracked} {c : Call} (h : step u s c = some t) :
    s.lockout.call u c = some t.lockout ∧ t.history = s.history.call u s.lockout c := by
  obtain ⟨l, hl, rfl⟩ := Option.map_eq_some_iff.mp h
  exact ⟨hl, rfl⟩

/-- A check changes nothing, or discards an entry whose lock has ended and whose window is over. -/
theorem step_check_cases {u : Unicode} {s t : Tracked} {email : String} {now : ℤ}
    (h : step u s (.check email now) = some t) :
    t = s ∨
      t = ⟨s.lockout.delete (lockoutKey u email), s.history.discard (lockoutKey u email) now⟩ ∧
        ∀ e, s.lockout.get (lockoutKey u email) = some e → e.lockedUntil ≤ now := by
  obtain rfl := Option.some.inj h
  cases he : s.lockout.get (lockoutKey u email) with
  | none => simp [Lockout.check, History.call, History.endWindow, he]
  | some e =>
    by_cases hlocked : now < e.lockedUntil
    · simp [Lockout.check, History.call, he, hlocked]
    · by_cases hover : s.lockout.windowOver e now = true
      · right
        simp [Lockout.check, History.call, History.endWindow, he, hlocked, hover, not_lt.mp hlocked]
      · simp [Lockout.check, History.call, History.endWindow, he, hlocked, hover]

/-- What a record does to the table and to the history of its keys. -/
theorem step_record_cases {u : Unicode} {s t : Tracked} {email : String} {now : ℤ}
    {victim : Option String} (h : step u s (.record email now victim) = some t) :
    ∃ room, s.lockout.evict now victim = some room ∧
      (room.full = true ∧
          t = ⟨room, (s.history.evict now victim).count room (lockoutKey u email) now⟩ ∨
        room.full = false ∧
          t = ⟨room.count (lockoutKey u email) now,
            (s.history.evict now victim).count room (lockoutKey u email) now⟩) := by
  obtain ⟨l, hl, rfl⟩ := Option.map_eq_some_iff.mp h
  obtain ⟨room, hroom, hcases⟩ := Lockout.record_cases hl
  refine ⟨room, hroom, ?_⟩
  simp only [History.call, hroom, Option.getD_some]
  obtain ⟨hfull, rfl⟩ | ⟨hfull, rfl⟩ := hcases
  · exact .inl ⟨hfull, rfl⟩
  · exact .inr ⟨hfull, rfl⟩

end Statnive.LockoutTable
