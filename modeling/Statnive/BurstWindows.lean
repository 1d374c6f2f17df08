import Statnive.EnrichPipeline
import Statnive.FixedWindow
import Statnive.KeyedRuns

/-!
# The windows of the burst guard

`BurstGuard.Allow` over the 256 shards of its map. The entry of a visitor is read and written
by the calls of that visitor alone, and counts the window that the visitor's calls are in. The
pipeline has one map in place of the shards, which answers the same: `pipelineAnswers_eq`.
-/

namespace Statnive.BurstWindows

open EnrichPipeline FixedWindow

/-- A map from visitors to entries. -/
abbrev Shard := List (VisitorHash × BurstEntry)

def Shard.entry (m : Shard) (hash : VisitorHash) : Option BurstEntry :=
  (m.find? (fun kv => kv.1 = hash)).map Prod.snd

def Shard.put (m : Shard) (hash : VisitorHash) (e : BurstEntry) : Shard :=
  (hash, e) :: m.filter (fun kv => kv.1 ≠ hash)

theorem Shard.entry_put (m : Shard) (hash : VisitorHash) (e : BurstEntry) :
    (m.put hash e).entry = Function.update m.entry hash (some e) := by
  funext other
  by_cases h : other = hash
  · subst h
    simp [Shard.entry, Shard.put]
  · have hkeep (kv : VisitorHash × BurstEntry) :
        (!decide (kv.1 = hash) && decide (kv.1 = other)) = decide (kv.1 = other) := by
      by_cases hkv : kv.1 = other <;> simp [hkv, h]
    simp [Shard.entry, Shard.put, Function.update_of_ne h, List.find?_filter, Ne.symm h, hkeep]

structure ShardedGuard where
  cap : ℤ
  shards : Fin 256 → Shard

def newBurstGuard (maxPerMinute : ℤ) : ShardedGuard := ⟨maxPerMinute, fun _ => []⟩

/-- The first byte. -/
def shardOf (hash : VisitorHash) : Fin 256 := Fin.ofNat 256 (hash.headD 0)

namespace ShardedGuard

def entry (g : ShardedGuard) (hash : VisitorHash) : Option BurstEntry :=
  (g.shards (shardOf hash)).entry hash

def put (g : ShardedGuard) (hash : VisitorHash) (e : BurstEntry) : ShardedGuard :=
  { g with shards :=
      Function.update g.shards (shardOf hash) ((g.shards (shardOf hash)).put hash e) }

def allow (g : ShardedGuard) (hash : VisitorHash) (now : ℤ) : Bool × ShardedGuard :=
  if g.cap ≤ 0 then (true, g)
  else match g.entry hash with
  | none => (true, g.put hash ⟨1, now⟩)
  | some e =>
    if burstWindow ≤ now - e.windowStart then (true, g.put hash ⟨1, now⟩)
    else if g.cap ≤ e.count then (false, g)
    else (true, g.put hash { e with count := e.count + 1 })

/-- Only the entry of the visitor changes, in whichever shard. -/
theorem entry_put (g : ShardedGuard) (hash : VisitorHash) (e : BurstEntry) :
    (g.put hash e).entry = Function.update g.entry hash (some e) := by
  funext other
  by_cases hshard : shardOf other = shardOf hash
  · have hone := congrFun ((g.shards (shardOf hash)).entry_put hash e) other
    by_cases h : other = hash
    · subst h
      simpa [entry, put] using hone
    · simpa [entry, put, hshard, Function.update_of_ne h] using hone
  · have h : other ≠ hash := fun h => hshard (congrArg shardOf h)
    simp [entry, put, Function.update_of_ne hshard, Function.update_of_ne h]

end ShardedGuard

/-- What a call makes of the entry of its visitor, and its answer. -/
def hit (cap now : ℤ) : Option BurstEntry → BurstEntry × Bool
  | none => (⟨1, now⟩, true)
  | some e =>
    if burstWindow ≤ now - e.windowStart then (⟨1, now⟩, true)
    else if cap ≤ e.count then (e, false)
    else ({ e with count := e.count + 1 }, true)

theorem allow_disabled {g : ShardedGuard} (hcap : g.cap ≤ 0) (hash : VisitorHash) (now : ℤ) :
    g.allow hash now = (true, g) := by simp [ShardedGuard.allow, hcap]

theorem allow_enabled {g : ShardedGuard} (hcap : 0 < g.cap) (hash : VisitorHash) (now : ℤ) :
    (g.allow hash now).1 = (hit g.cap now (g.entry hash)).2 ∧
      (g.allow hash now).2.cap = g.cap ∧
      (g.allow hash now).2.entry =
        Function.update g.entry hash (some (hit g.cap now (g.entry hash)).1) := by
  rw [ShardedGuard.allow, if_neg (by omega)]
  cases he : g.entry hash with
  | none => exact ⟨rfl, rfl, g.entry_put hash _⟩
  | some e =>
    by_cases hover : burstWindow ≤ now - e.windowStart
    · simp only [hit, if_pos hover]
      exact ⟨trivial, rfl, g.entry_put hash _⟩
    · by_cases hfull : g.cap ≤ e.count
      · simp only [hit, if_neg hover, if_pos hfull, ← he, Function.update_eq_self, and_self]
      · simp only [hit, if_neg hover, if_neg hfull]
        exact ⟨trivial, rfl, g.entry_put hash _⟩

structure Call where
  visitorHash : VisitorHash
  now : ℤ
  deriving DecidableEq

/-- The calls in order, each with its answer. -/
def answers : ShardedGuard → List Call → List (Call × Bool)
  | _, [] => []
  | g, c :: cs =>
    let next := g.allow c.visitorHash c.now
    (c, next.1) :: answers next.2 cs

/-- The guard after the calls. -/
def after (g : ShardedGuard) (calls : List Call) : ShardedGuard :=
  calls.foldl (fun g c => (g.allow c.visitorHash c.now).2) g

theorem answers_disabled {g : ShardedGuard} (hcap : g.cap ≤ 0) (calls : List Call) :
    answers g calls = calls.map (fun c => (c, true)) := by
  induction calls with
  | nil => rfl
  | cons c cs ih => simp [answers, allow_disabled hcap, ih]

theorem answers_enabled {g : ShardedGuard} (hcap : 0 < g.cap) (calls : List Call) :
    answers g calls =
      KeyedRuns.answers Call.visitorHash (fun c => hit g.cap c.now) g.entry calls := by
  induction calls generalizing g with
  | nil => rfl
  | cons c cs ih =>
    obtain ⟨hanswer, hkeep, hentry⟩ := allow_enabled hcap c.visitorHash c.now
    have hrest := ih (g := (g.allow c.visitorHash c.now).2) (by rwa [hkeep])
    rw [hkeep, hentry] at hrest
    simp only [answers, KeyedRuns.answers, hanswer, hrest]

/-- What a visitor is answered does not depend on the calls of the others. -/
theorem answers_visitor (g : ShardedGuard) (v : VisitorHash) (calls : List Call) :
    (answers g calls).filter (fun x => x.1.visitorHash = v) =
      answers g (calls.filter (fun c => c.visitorHash = v)) := by
  rcases le_or_gt g.cap 0 with hcap | hcap
  · rw [answers_disabled hcap, answers_disabled hcap, List.filter_map]
    rfl
  · rw [answers_enabled hcap, answers_enabled hcap]
    exact KeyedRuns.answers_filter rfl calls

/-- The times of the calls that one visitor's entry lets through. -/
def admitted (cap : ℤ) : Option BurstEntry → List ℤ → List ℤ
  | _, [] => []
  | e, t :: ts =>
    let next := hit cap t e
    if next.2 then t :: admitted cap (some next.1) ts else admitted cap (some next.1) ts

def allowedTimes (v : VisitorHash) (answered : List (Call × Bool)) : List ℤ :=
  (answered.filter (fun x => x.1.visitorHash = v && x.2)).map (fun x => x.1.now)

private theorem admitted_eq
    {g : ShardedGuard} (hcap : 0 < g.cap) {v : VisitorHash} {calls : List Call}
    (hv : ∀ c ∈ calls, c.visitorHash = v) :
    allowedTimes v (answers g calls) = admitted g.cap (g.entry v) (calls.map Call.now) := by
  induction calls generalizing g with
  | nil => rfl
  | cons c cs ih =>
    obtain rfl := hv c List.mem_cons_self
    obtain ⟨hanswer, hkeep, hentry⟩ := allow_enabled hcap c.visitorHash c.now
    have hrest := ih (g := (g.allow c.visitorHash c.now).2) (by rwa [hkeep])
      (fun c' hc' => hv c' (List.mem_cons_of_mem _ hc'))
    rw [hkeep, hentry, Function.update_self] at hrest
    simp only [allowedTimes] at hrest
    simp only [allowedTimes, answers, admitted, List.map_cons, List.filter_cons, hanswer,
      decide_true, Bool.true_and]
    cases (hit g.cap c.now (g.entry c.visitorHash)).2 <;> simp [hrest]

/-- What an entry still lets through: some calls of its own window, and then windows that start
when that one is over. -/
theorem admitted_some {cap : ℤ} {ts : List ℤ} {e : BurstEntry} (hsorted : ts.Pairwise (· ≤ ·))
    (hlow : ∀ t ∈ ts, e.windowStart ≤ t) (hcap : 0 < cap) (hcount : e.count ≤ cap) :
    ∃ (later : List ℤ) (ws : List (Window cap.toNat burstWindow)),
      admitted cap (some e) ts = later ++ times ws ∧
      (∀ t ∈ later, e.windowStart ≤ t ∧ t < e.windowStart + burstWindow) ∧
      (later.length + e.count : ℤ) ≤ cap ∧ Apart ws ∧
      ∀ w ∈ ws, e.windowStart + burstWindow ≤ w.start := by
  induction ts generalizing e with
  | nil => exact ⟨[], [], rfl, by simp, by simpa using hcount, .nil, by simp⟩
  | cons t ts ih =>
    obtain ⟨hhead, hsorted⟩ := List.pairwise_cons.mp hsorted
    have hat := hlow t List.mem_cons_self
    have hrest : ∀ t ∈ ts, e.windowStart ≤ t := fun t ht => hlow t (List.mem_cons_of_mem _ ht)
    by_cases hover : burstWindow ≤ t - e.windowStart
    · -- the call opens the next window
      obtain ⟨later, ws, heq, hin, hfit, hapart, hstart⟩ :=
        ih (e := ⟨1, t⟩) hsorted hhead (by exact_mod_cast hcap)
      have hbounded : later.length < cap.toNat := by
        simp only [Nat.cast_one] at hfit
        omega
      refine ⟨[], ⟨t, later, hin, hbounded⟩ :: ws, ?_, by simp, by simpa using hcount, ?_, ?_⟩
      · simp [admitted, hit, hover, heq, times, Window.times]
      · exact List.pairwise_cons.mpr ⟨hstart, hapart⟩
      · intro w hw
        rcases List.mem_cons.mp hw with rfl | hw
        · simp only
          omega
        · have hw := hstart w hw
          have hpos : 0 < burstWindow := by decide
          simp only at hw
          omega
    · by_cases hfull : cap ≤ e.count
      · obtain ⟨later, ws, heq, hmore⟩ := ih (e := e) hsorted hrest hcount
        refine ⟨later, ws, ?_, hmore⟩
        simp [admitted, hit, hover, hfull, heq]
      · obtain ⟨later, ws, heq, hin, hfit, hmore⟩ :=
          ih (e := ⟨e.count + 1, e.windowStart⟩) hsorted hrest (by push_cast; omega)
        refine ⟨t :: later, ws, ?_, ?_, ?_, hmore⟩
        · simp [admitted, hit, hover, hfull, heq]
        · intro u hu
          rcases List.mem_cons.mp hu with rfl | hu
          · omega
          · exact hin u hu
        · simp only [List.length_cons]
          push_cast at hfit ⊢
          omega

private theorem admitted_none
    {cap : ℤ} {ts : List ℤ} (hsorted : ts.Pairwise (· ≤ ·)) (hcap : 0 < cap) :
    ∃ ws : List (Window cap.toNat burstWindow), admitted cap none ts = times ws ∧ Apart ws := by
  cases ts with
  | nil => exact ⟨[], rfl, .nil⟩
  | cons t ts =>
    obtain ⟨hhead, hsorted⟩ := List.pairwise_cons.mp hsorted
    obtain ⟨later, ws, heq, hin, hfit, hapart, hstart⟩ :=
      admitted_some (e := ⟨1, t⟩) hsorted hhead hcap (by exact_mod_cast hcap)
    have hbounded : later.length < cap.toNat := by
      simp only [Nat.cast_one] at hfit
      omega
    refine ⟨⟨t, later, hin, hbounded⟩ :: ws, ?_, List.pairwise_cons.mpr ⟨hstart, hapart⟩⟩
    simp [admitted, hit, heq, times, Window.times]

def pipelineAnswers : BurstGuard → List Call → List (Call × Bool)
  | _, [] => []
  | g, c :: cs =>
    let next := g.allow c.visitorHash c.now
    (c, next.1) :: pipelineAnswers next.2 cs

/-- The guard of the pipeline keeps the entries of all shards in one map. -/
structure SameEntries (g : ShardedGuard) (p : BurstGuard) : Prop where
  cap : p.cap = g.cap
  entries : Shard.entry p.entries = g.entry

theorem SameEntries.put {g : ShardedGuard} {p : BurstGuard} (h : SameEntries g p)
    (hash : VisitorHash) (e : BurstEntry) : SameEntries (g.put hash e) (p.put hash e) where
  cap := h.cap
  entries := by
    rw [g.entry_put, ← h.entries]
    exact Shard.entry_put p.entries hash e

theorem SameEntries.allow {g : ShardedGuard} {p : BurstGuard} (h : SameEntries g p)
    (hash : VisitorHash) (now : ℤ) :
    (p.allow hash now).1 = (g.allow hash now).1 ∧
      SameEntries (g.allow hash now).2 (p.allow hash now).2 := by
  have hentry : (p.entries.find? (fun kv => kv.1 = hash)).map Prod.snd = g.entry hash :=
    congrFun h.entries hash
  simp only [BurstGuard.allow, ShardedGuard.allow, hentry, h.cap]
  by_cases hcap : g.cap ≤ 0
  · simp only [if_pos hcap]
    exact ⟨trivial, h⟩
  · simp only [if_neg hcap]
    cases g.entry hash with
    | none => exact ⟨rfl, h.put hash _⟩
    | some e =>
      by_cases hover : burstWindow ≤ now - e.windowStart
      · simp only [if_pos hover]
        exact ⟨trivial, h.put hash _⟩
      · by_cases hfull : g.cap ≤ e.count
        · simp only [if_neg hover, if_pos hfull]
          exact ⟨trivial, h⟩
        · simp only [if_neg hover, if_neg hfull]
          exact ⟨trivial, h.put hash _⟩

/-- The shards change no answer. -/
theorem pipelineAnswers_eq {g : ShardedGuard} {p : BurstGuard} (h : SameEntries g p)
    (calls : List Call) : pipelineAnswers p calls = answers g calls := by
  induction calls generalizing g p with
  | nil => rfl
  | cons c cs ih =>
    obtain ⟨hanswer, hnext⟩ := h.allow c.visitorHash c.now
    simp only [pipelineAnswers, answers, hanswer, ih hnext]

def NonDecreasing (calls : List Call) : Prop := calls.Pairwise (fun c d => c.now ≤ d.now)

instance (calls : List Call) : Decidable (NonDecreasing calls) :=
  inferInstanceAs (Decidable (List.Pairwise _ _))

/-- What the guard lets through of one visitor. -/
def allowed (cap : ℤ) (calls : List Call) (v : VisitorHash) : List ℤ :=
  allowedTimes v (answers (newBurstGuard cap) calls)

private theorem allowed_visitor (cap : ℤ) (calls : List Call) (v : VisitorHash) :
    allowed cap calls v = allowed cap (calls.filter (fun c => c.visitorHash = v)) v := by
  have hone (answered : List (Call × Bool)) : allowedTimes v answered =
      allowedTimes v (answered.filter (fun x => x.1.visitorHash = v)) := by
    simp only [allowedTimes, List.filter_filter]
    congr 2
    funext x
    by_cases hx : x.1.visitorHash = v <;> simp [hx]
  rw [allowed, hone, answers_visitor, allowed]

/-- With a positive cap the calls of a visitor that are let through fall into windows. -/
theorem allowed_windows {cap : ℤ} (hcap : 0 < cap) {calls : List Call}
    (hsorted : NonDecreasing calls) (v : VisitorHash) :
    ∃ ws : List (Window cap.toNat burstWindow), allowed cap calls v = times ws ∧ Apart ws := by
  have hv : ∀ c ∈ calls.filter (fun c => c.visitorHash = v), c.visitorHash = v := by
    intro c hc
    simpa using (List.mem_filter.mp hc).2
  have htimes : ((calls.filter (fun c => c.visitorHash = v)).map Call.now).Pairwise (· ≤ ·) :=
    List.pairwise_map.mpr (hsorted.sublist List.filter_sublist)
  have hentry : (newBurstGuard cap).entry v = none := rfl
  have hmain := admitted_eq (g := newBurstGuard cap) hcap hv
  rw [hentry] at hmain
  rw [allowed_visitor, allowed, hmain]
  exact admitted_none htimes hcap

/-- Over any calls in order of time: with a positive cap what a visitor is allowed falls into
windows, of which an interval of a minute meets at most two; without one everything is allowed;
and nothing that is answered to a visitor depends on the others. -/
theorem burst_rate (cap : ℤ) (calls : List Call) (hsorted : NonDecreasing calls)
    (v : VisitorHash) :
    (0 < cap →
      (∃ ws : List (Window cap.toNat burstWindow), allowed cap calls v = times ws ∧ Apart ws) ∧
      ∀ a, (inInterval burstWindow a (allowed cap calls v) : ℤ) ≤ 2 * cap) ∧
    (cap ≤ 0 → ∀ x ∈ answers (newBurstGuard cap) calls, x.2 = true) ∧
    (answers (newBurstGuard cap) calls).filter (fun x => x.1.visitorHash = v) =
      answers (newBurstGuard cap) (calls.filter (fun c => c.visitorHash = v)) := by
  refine ⟨fun hcap => ?_, fun hcap x hx => ?_, answers_visitor _ v calls⟩
  · obtain ⟨ws, heq, hapart⟩ := allowed_windows hcap hsorted v
    refine ⟨⟨ws, heq, hapart⟩, fun a => ?_⟩
    have hle := inInterval_le (by decide) hapart a
    rw [heq]
    omega
  · rw [answers_disabled hcap] at hx
    obtain ⟨c, -, rfl⟩ := List.mem_map.mp hx
    rfl

/-- A visitor calls twice in a second and once again a minute later; another one calls between. -/
def sampleCalls : List Call :=
  [⟨[1], 0⟩, ⟨[1], 1000000000⟩, ⟨[2], 2000000000⟩, ⟨[1], 61000000000⟩]

theorem burst_rate_sample :
    ∃ ws : List (Window 1 burstWindow), allowed 1 sampleCalls [1] = times ws ∧ Apart ws :=
  ((burst_rate 1 sampleCalls (by decide) [1]).1 (by decide)).1

/-- A cap of zero bounds nothing: the guard lets every call through. -/
theorem disabled_guard_allows :
    NonDecreasing sampleCalls ∧ allowed 0 sampleCalls [1] = [0, 1000000000, 61000000000] ∧
      (¬ ∃ ws : List (Window 0 burstWindow), allowed 0 sampleCalls [1] = times ws) ∧
      ¬ (inInterval burstWindow 0 (allowed 0 sampleCalls [1]) : ℤ) ≤ 2 * 0 := by
  have hallowed : allowed 0 sampleCalls [1] = [0, 1000000000, 61000000000] := by decide
  refine ⟨by decide, hallowed, ?_, by rw [hallowed]; decide⟩
  rintro ⟨ws, hws⟩
  cases ws with
  | nil => simp [hallowed, times] at hws
  | cons w ws => exact absurd w.bounded (Nat.not_lt_zero _)

end Statnive.BurstWindows
