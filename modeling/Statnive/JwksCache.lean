import Statnive.KeySets
import Statnive.LabelledRuns

/-!
# The cache of the keys

`jwksCache` of the resource server. Each request that asks for a key is a thread; what the lock
covers is one step. A thread that does not find its key refreshes the cache, unless another has
tried within the last minute, and looks again.
-/

namespace Statnive.JwksCache

open PrivacyPolicy KeySets LabelledRuns
open AccessTokens (PublicKey)

/-- Times are in nanoseconds. -/
def jwksRefetchInterval : ℕ := 60 * 10 ^ 9

/-- The client gives up a fetch, with its body, after this time. -/
def fetchTimeout : ℕ := 5 * 10 ^ 9

/-- What `key` returns. An unknown `kid` comes with whether the last attempt had stored its keys
by then, which is recorded and not read. -/
inductive Result where
  | found (pub : PublicKey)
  | unknown (stored : Bool)
  | fetchError
  deriving DecidableEq

/-- Where a thread stands. `body` is what the server has answered to its fetch. -/
inductive Phase where
  | missed
  | fetching (started : ℕ) (body : Option Bytes)
  | refreshed
  | answered (result : Result)
  deriving DecidableEq

/-- A call of `key` for a `kid`, or the refresh of the start, which asks for none. -/
structure Thread where
  kid : Option String := none
  asked : ℕ := 0
  phase : Phase := .missed

/-- The last two fields record what the cache does and are not read by it. -/
structure State where
  now : ℕ := 0
  keys : List (String × PublicKey) := []
  lastAttempt : Option ℕ := none
  threads : List Thread := [{}]
  attempts : List ℕ := []
  stored : Bool := false

inductive Action where
  | elapse (d : ℕ)
  | ask (kid : String)
  | refresh (i : ℕ)
  | serve (i : ℕ) (body : Bytes)
  | store (i : ℕ)
  | fail (i : ℕ)
  | again (i : ℕ)

def State.throttled (s : State) : Bool :=
  s.lastAttempt.any fun attempt => s.now - attempt < jwksRefetchInterval

def State.put (s : State) (i : ℕ) (t : Thread) : State := { s with threads := s.threads.set i t }

/-- A fetch has ended by its timeout. -/
def Thread.mayWait (t : Thread) (now : ℕ) : Bool :=
  match t.phase with
  | .fetching started _ => now ≤ started + fetchTimeout
  | _ => true

/-- The first look at the keys. -/
def State.ask (s : State) (kid : String) : Thread where
  kid := some kid
  asked := s.now
  phase := match lookup s.keys kid with
    | some pub => .answered (.found pub)
    | none => .missed

/-- The second look. -/
def State.again (s : State) (kid : String) : Result :=
  match lookup s.keys kid with
  | some pub => .found pub
  | none => .unknown s.stored

/-- `lastAttempt` is set before the fetch, under the lock. -/
def State.attempt (s : State) (i : ℕ) (t : Thread) : State :=
  { s.put i { t with phase := .fetching s.now none } with
    lastAttempt := some s.now
    attempts := s.now :: s.attempts
    stored := false }

def State.store (s : State) (i : ℕ) (t : Thread) (keys : List (String × PublicKey)) : State :=
  { s.put i { t with phase := .refreshed } with
    keys := keys
    stored := true }

def step (s : State) : Action → Option State
  | .elapse d =>
    if s.threads.all fun t => t.mayWait (s.now + d) then some { s with now := s.now + d } else none
  | .ask kid => some { s with threads := s.threads ++ [s.ask kid] }
  | .refresh i => s.threads[i]?.bind fun t => match t.phase with
    | .missed =>
      if s.throttled then some (s.put i { t with phase := .refreshed }) else some (s.attempt i t)
    | _ => none
  | .serve i body => s.threads[i]?.bind fun t => match t.phase with
    | .fetching started none => some (s.put i { t with phase := .fetching started (some body) })
    | _ => none
  | .store i => s.threads[i]?.bind fun t => match t.phase with
    | .fetching _ (some body) => (parseKeys body).map (s.store i t)
    | _ => none
  | .fail i => s.threads[i]?.bind fun t => match t.phase with
    | .fetching _ _ => some (s.put i { t with phase := .answered .fetchError })
    | _ => none
  | .again i => s.threads[i]?.bind fun t => match t.phase, t.kid with
    | .refreshed, some kid => some (s.put i { t with phase := .answered (s.again kid) })
    | _, _ => none

variable {s s' : State} {i : ℕ}

private theorem throttled_iff : s.throttled = true ↔
    ∃ attempt, s.lastAttempt = some attempt ∧ s.now - attempt < jwksRefetchInterval := by
  rw [State.throttled]
  cases s.lastAttempt <;> simp

theorem refresh_step (h : step s (.refresh i) = some s') :
    ∃ t, s.threads[i]? = some t ∧ t.phase = .missed ∧
      (s.throttled = true ∧ s' = s.put i { t with phase := .refreshed } ∨
        s.throttled = false ∧ s' = s.attempt i t) := by
  obtain ⟨t, ht, h⟩ := Option.bind_eq_some_iff.mp h
  refine ⟨t, ht, ?_⟩
  split at h
  next hphase =>
    refine ⟨hphase, ?_⟩
    split_ifs at h with hthrottled
    · exact .inl ⟨hthrottled, (Option.some.inj h).symm⟩
    · exact .inr ⟨Bool.eq_false_iff.mpr hthrottled, (Option.some.inj h).symm⟩
  next => cases h

theorem serve_step {body : Bytes} (h : step s (.serve i body) = some s') :
    ∃ t started, s.threads[i]? = some t ∧ t.phase = .fetching started none ∧
      s' = s.put i { t with phase := .fetching started (some body) } := by
  obtain ⟨t, ht, h⟩ := Option.bind_eq_some_iff.mp h
  split at h
  next started hphase => exact ⟨t, started, ht, hphase, (Option.some.inj h).symm⟩
  next => cases h

theorem store_step (h : step s (.store i) = some s') :
    ∃ t started body keys, s.threads[i]? = some t ∧ t.phase = .fetching started (some body) ∧
      parseKeys body = some keys ∧ s' = s.store i t keys := by
  obtain ⟨t, ht, h⟩ := Option.bind_eq_some_iff.mp h
  split at h
  next started body hphase =>
    obtain ⟨keys, hkeys, rfl⟩ := Option.map_eq_some_iff.mp h
    exact ⟨t, started, body, keys, ht, hphase, hkeys, rfl⟩
  next => cases h

theorem fail_step (h : step s (.fail i) = some s') :
    ∃ t started body, s.threads[i]? = some t ∧ t.phase = .fetching started body ∧
      s' = s.put i { t with phase := .answered .fetchError } := by
  obtain ⟨t, ht, h⟩ := Option.bind_eq_some_iff.mp h
  split at h
  next started body hphase => exact ⟨t, started, body, ht, hphase, (Option.some.inj h).symm⟩
  next => cases h

theorem again_step (h : step s (.again i) = some s') :
    ∃ t kid, s.threads[i]? = some t ∧ t.phase = .refreshed ∧ t.kid = some kid ∧
      s' = s.put i { t with phase := .answered (s.again kid) } := by
  obtain ⟨t, ht, h⟩ := Option.bind_eq_some_iff.mp h
  split at h
  next kid hphase hkid => exact ⟨t, kid, ht, hphase, hkid, (Option.some.inj h).symm⟩
  next => cases h

/-- The thread at a place is another one, or has been replaced. -/
theorem thread_put {t u : Thread} {j : ℕ} (h : (s.put i u).threads[j]? = some t) :
    i = j ∧ t = u ∨ i ≠ j ∧ s.threads[j]? = some t := by
  rw [State.put, List.getElem?_set] at h
  by_cases hij : i = j
  · rw [if_pos hij] at h
    exact .inl ⟨hij, (Option.some.inj (Option.ite_none_right_eq_some.mp h).2).symm⟩
  · rw [if_neg hij] at h
    exact .inr ⟨hij, h⟩

theorem thread_append {t u : Thread} {ts : List Thread} {j : ℕ}
    (h : (ts ++ [u])[j]? = some t) : t = u ∨ ts[j]? = some t := by
  by_cases hj : j < ts.length
  · rw [List.getElem?_append_left hj] at h
    exact .inr h
  · rw [List.getElem?_append_right (not_lt.mp hj), List.getElem?_singleton] at h
    exact .inl (Option.some.inj (Option.ite_none_right_eq_some.mp h).2).symm

def State.Fetches (s : State) (i started : ℕ) : Prop :=
  ∃ t body, s.threads[i]? = some t ∧ t.phase = .fetching started body

/-- A thread does not start to fetch, nor ask anew. -/
def Follows (t u : Thread) : Prop :=
  u.asked = t.asked ∧ ∀ started body, u.phase = .fetching started body →
    ∃ body, t.phase = .fetching started body

/-- The attempts are a refetch interval apart, the latest first. A fetch that goes on is of the
latest attempt, and there is one at most. -/
structure Inv (s : State) : Prop where
  last : s.lastAttempt = s.attempts.head?
  past : ∀ attempt ∈ s.attempts, attempt ≤ s.now
  apart : s.attempts.Pairwise fun later earlier => earlier + jwksRefetchInterval ≤ later
  asked : ∀ (i : ℕ) (t : Thread), s.threads[i]? = some t → t.asked ≤ s.now ∧
    ∀ started body, t.phase = .fetching started body → t.asked ≤ started
  current : ∀ i started, s.Fetches i started →
    s.lastAttempt = some started ∧ s.now ≤ started + fetchTimeout ∧ s.stored = false
  alone : ∀ i j started started', s.Fetches i started → s.Fetches j started' → i = j

theorem inv_init : Inv ({} : State) where
  last := rfl
  past _ h := by cases h
  apart := .nil
  asked i t ht := by
    obtain rfl : t = {} := by
      rcases i with _ | i
      · exact (Option.some.inj ht).symm
      · simp at ht
    exact ⟨le_refl 0, fun started body h => by cases h⟩
  current i started h := by
    obtain ⟨t, body, ht, hphase⟩ := h
    obtain rfl : t = {} := by
      rcases i with _ | i
      · exact (Option.some.inj ht).symm
      · simp at ht
    cases hphase
  alone i j _ _ hi hj := by
    obtain ⟨t, _, ht, -⟩ := hi
    obtain ⟨u, _, hu, -⟩ := hj
    rcases i with _ | i
    · rcases j with _ | j
      · rfl
      · simp at hu
    · simp at ht

theorem fetches_put {t u : Thread} (ht : s.threads[i]? = some t) (hu : Follows t u) {j started : ℕ}
    (h : (s.put i u).Fetches j started) : s.Fetches j started := by
  obtain ⟨v, body, hv, hphase⟩ := h
  rcases thread_put hv with ⟨rfl, rfl⟩ | ⟨-, hv⟩
  · obtain ⟨body', hphase'⟩ := hu.2 started body hphase
    exact ⟨t, body', ht, hphase'⟩
  · exact ⟨v, body, hv, hphase⟩

/-- A thread moves on, the rest stays. -/
theorem Inv.put (h : Inv s) {t u : Thread} (ht : s.threads[i]? = some t) (hu : Follows t u) :
    Inv (s.put i u) where
  last := h.last
  past := h.past
  apart := h.apart
  asked j v hv := by
    rcases thread_put hv with ⟨-, rfl⟩ | ⟨-, hv⟩
    · rw [hu.1]
      refine ⟨(h.asked i t ht).1, fun started body hphase => ?_⟩
      obtain ⟨body', hphase'⟩ := hu.2 started body hphase
      exact (h.asked i t ht).2 started body' hphase'
    · exact h.asked j v hv
  current j started hj := h.current j started (fetches_put ht hu hj)
  alone j k _ _ hj hk := h.alone j k _ _ (fetches_put ht hu hj) (fetches_put ht hu hk)

/-- Where an attempt is not refused, no fetch goes on. -/
theorem Inv.quiet (h : Inv s) (hthrottled : s.throttled = false) {j started : ℕ} :
    ¬ s.Fetches j started := by
  intro hj
  obtain ⟨hlast, hnow, -⟩ := h.current j started hj
  simp only [State.throttled, hlast, Option.any_some, decide_eq_false_iff_not, not_lt] at hthrottled
  simp only [jwksRefetchInterval, fetchTimeout] at *
  omega

theorem Inv.attempt (h : Inv s) {t : Thread} (ht : s.threads[i]? = some t)
    (hthrottled : s.throttled = false) : Inv (s.attempt i t) := by
  have hfetches {j started : ℕ} (hj : (s.attempt i t).Fetches j started) :
      i = j ∧ started = s.now := by
    obtain ⟨v, body, hv, hphase⟩ := hj
    rcases thread_put hv with ⟨rfl, rfl⟩ | ⟨-, hv⟩
    · simp only [Phase.fetching.injEq] at hphase
      exact ⟨rfl, hphase.1.symm⟩
    · exact absurd ⟨v, body, hv, hphase⟩ (h.quiet hthrottled)
  refine ⟨rfl, ?_, ?_, ?_, ?_, ?_⟩
  · intro attempt hattempt
    rcases List.mem_cons.mp hattempt with rfl | hattempt
    · exact le_refl _
    · exact h.past attempt hattempt
  · refine List.pairwise_cons.mpr ⟨fun earlier hearlier => ?_, h.apart⟩
    have hpast := h.past earlier hearlier
    obtain ⟨last, attempts, hattempts⟩ := List.exists_cons_of_ne_nil (List.ne_nil_of_mem hearlier)
    have hlast : earlier ≤ last := by
      have hapart := h.apart
      rw [hattempts, List.pairwise_cons] at hapart
      rcases List.mem_cons.mp (hattempts ▸ hearlier) with rfl | hmem
      · exact le_refl _
      · have := hapart.1 earlier hmem
        omega
    have hlastAttempt : s.lastAttempt = some last := by rw [h.last, hattempts]; rfl
    simp only [State.throttled, hlastAttempt, Option.any_some, decide_eq_false_iff_not,
      not_lt] at hthrottled
    simp only [jwksRefetchInterval] at *
    omega
  · intro j v hv
    rcases thread_put hv with ⟨-, rfl⟩ | ⟨-, hv⟩
    · refine ⟨(h.asked i t ht).1, fun started body hphase => ?_⟩
      simp only [Phase.fetching.injEq] at hphase
      exact hphase.1 ▸ (h.asked i t ht).1
    · exact h.asked j v hv
  · intro j started hj
    obtain ⟨-, rfl⟩ := hfetches hj
    exact ⟨rfl, Nat.le_add_right _ _, rfl⟩
  · intro j k _ _ hj hk
    exact (hfetches hj).1.symm.trans (hfetches hk).1

theorem Inv.store (h : Inv s) {t : Thread} {started : ℕ} {body : Option Bytes}
    (ht : s.threads[i]? = some t) (hphase : t.phase = .fetching started body)
    (keys : List (String × PublicKey)) : Inv (s.store i t keys) := by
  have hfollows : Follows t { t with phase := .refreshed } :=
    ⟨rfl, fun started body hrefreshed => by cases hrefreshed⟩
  have hput := h.put ht hfollows
  refine ⟨hput.last, hput.past, hput.apart, hput.asked, fun j started' hj => ?_, hput.alone⟩
  -- the fetch that ends was the only one
  obtain ⟨v, body', hv, hfetching⟩ := hj
  rcases thread_put hv with ⟨-, rfl⟩ | ⟨hij, hv⟩
  · cases hfetching
  · exact absurd (h.alone i j _ _ ⟨t, body, ht, hphase⟩ ⟨v, body', hv, hfetching⟩) hij

theorem inv_step {a : Action} (h : Inv s) (hstep : step s a = some s') : Inv s' := by
  cases a with
  | elapse d =>
    obtain ⟨hwait, hs'⟩ := Option.ite_none_right_eq_some.mp hstep
    obtain rfl := Option.some.inj hs'
    refine ⟨h.last, fun attempt ha => (h.past attempt ha).trans (Nat.le_add_right _ _), h.apart,
      fun j t ht => ⟨(h.asked j t ht).1.trans (Nat.le_add_right _ _), (h.asked j t ht).2⟩, ?_,
      h.alone⟩
    intro j started hj
    obtain ⟨hlast, -, hstored⟩ := h.current j started hj
    obtain ⟨t, body, ht, hphase⟩ := hj
    have hmay := List.all_eq_true.mp hwait t (List.mem_of_getElem? ht)
    simp only [Thread.mayWait, hphase, decide_eq_true_eq] at hmay
    exact ⟨hlast, hmay, hstored⟩
  | ask kid =>
    obtain rfl := Option.some.inj hstep
    have hnew : ∀ started body, (s.ask kid).phase ≠ .fetching started body := by
      intro started body
      rw [State.ask]
      cases lookup s.keys kid <;> simp
    have hfetches {j started : ℕ}
        (hj : State.Fetches { s with threads := s.threads ++ [s.ask kid] } j started) :
        s.Fetches j started := by
      obtain ⟨t, body, ht, hphase⟩ := hj
      rcases thread_append ht with rfl | ht
      · exact absurd hphase (hnew started body)
      · exact ⟨t, body, ht, hphase⟩
    refine ⟨h.last, h.past, h.apart, fun j t ht => ?_,
      fun j started hj => h.current j started (hfetches hj),
      fun j k _ _ hj hk => h.alone j k _ _ (hfetches hj) (hfetches hk)⟩
    rcases thread_append ht with rfl | ht
    · exact ⟨le_refl _, fun started body hphase => absurd hphase (hnew started body)⟩
    · exact h.asked j t ht
  | refresh i =>
    obtain ⟨t, ht, -, ⟨-, rfl⟩ | ⟨hthrottled, rfl⟩⟩ := refresh_step hstep
    · exact h.put ht ⟨rfl, fun started body hphase => by cases hphase⟩
    · exact h.attempt ht hthrottled
  | serve i body =>
    obtain ⟨t, started, ht, hphase, rfl⟩ := serve_step hstep
    refine h.put ht ⟨rfl, fun started' body' hphase' => ⟨none, ?_⟩⟩
    simp only [Phase.fetching.injEq] at hphase'
    rw [hphase, hphase'.1]
  | store i =>
    obtain ⟨t, started, body, keys, ht, hphase, -, rfl⟩ := store_step hstep
    exact h.store ht hphase keys
  | fail i =>
    obtain ⟨t, started, body, ht, -, rfl⟩ := fail_step hstep
    exact h.put ht ⟨rfl, fun started body hphase => by cases hphase⟩
  | again i =>
    obtain ⟨t, kid, ht, -, -, rfl⟩ := again_step hstep
    exact h.put ht ⟨rfl, fun started body hphase => by cases hphase⟩

private theorem length_attempts {attempts : List ℕ} {now : ℕ}
    (hpast : ∀ attempt ∈ attempts, attempt ≤ now)
    (hapart : attempts.Pairwise fun later earlier => earlier + jwksRefetchInterval ≤ later) :
    attempts.length ≤ now / jwksRefetchInterval + 1 := by
  induction attempts generalizing now with
  | nil => exact Nat.zero_le _
  | cons latest attempts ih =>
    obtain ⟨hlatest, -⟩ := List.forall_mem_cons.mp hpast
    obtain ⟨hearlier, hrest⟩ := List.pairwise_cons.mp hapart
    cases attempts with
    | nil => exact Nat.le_add_left 1 _
    | cons earlier attempts =>
      have hbefore : ∀ attempt ∈ earlier :: attempts, attempt ≤ now - jwksRefetchInterval := by
        intro attempt hattempt
        have hinterval := hearlier attempt hattempt
        omega
      have hlen := ih hbefore hrest
      have hinterval := hearlier earlier List.mem_cons_self
      rw [List.length_cons, Nat.div_eq_sub_div (by decide) (by omega)]
      omega

/-- However the threads interleave, attempts are a minute apart and no two fetches overlap. -/
theorem attempts_apart {as : List Action} {s : State} (h : exec step {} as = some s) :
    s.attempts.Pairwise (fun later earlier => earlier + jwksRefetchInterval ≤ later) ∧
      s.attempts.length ≤ s.now / jwksRefetchInterval + 1 ∧
      ∀ i j started started', s.Fetches i started → s.Fetches j started' → i = j := by
  have hinv := exec_invariant (fun _ _ _ => inv_step) h inv_init
  exact ⟨hinv.apart, length_attempts hinv.past hinv.apart, hinv.alone⟩

theorem attempts_apart_afterFailure : ∃ s, exec step {} [.refresh 0, .fail 0,
      .elapse jwksRefetchInterval, .ask "kid", .ask "other", .refresh 2, .refresh 1] = some s ∧
    s.attempts = [jwksRefetchInterval, 0] ∧
    s.attempts.length ≤ s.now / jwksRefetchInterval + 1 ∧
    ∀ i j started started', s.Fetches i started → s.Fetches j started' → i = j := by
  have hexec : exec step {} [.refresh 0, .fail 0, .elapse jwksRefetchInterval, .ask "kid",
      .ask "other", .refresh 2, .refresh 1] = some _ := rfl
  exact ⟨_, hexec, rfl, (attempts_apart hexec).2⟩

/-- A document that is served has keys of this kind. -/
def Serves (Q : List (String × PublicKey) → Prop) : Action → Prop
  | .serve _ body => ∀ keys, parseKeys body = some keys → Q keys
  | _ => True

structure Sourced (Q : List (String × PublicKey) → Prop) (s : State) : Prop where
  bodies : ∀ (i : ℕ) (t : Thread) started body, s.threads[i]? = some t →
    t.phase = .fetching started (some body) → ∀ keys, parseKeys body = some keys → Q keys
  keys : s.keys = [] ∨ Q s.keys
  answers : ∀ (i : ℕ) (t : Thread) pub, s.threads[i]? = some t → t.phase = .answered (.found pub) →
    ∃ kid keys, t.kid = some kid ∧ Q keys ∧ lookup keys kid = some pub

variable {Q : List (String × PublicKey) → Prop}

theorem Sourced.mono {Q' : List (String × PublicKey) → Prop} (hQ : ∀ keys, Q keys → Q' keys)
    (h : Sourced Q s) : Sourced Q' s where
  bodies i t started body ht hphase keys hkeys :=
    hQ keys (h.bodies i t started body ht hphase keys hkeys)
  keys := h.keys.imp_right (hQ s.keys)
  answers i t pub ht hphase := by
    obtain ⟨kid, keys, hkid, hkeys, hlookup⟩ := h.answers i t pub ht hphase
    exact ⟨kid, keys, hkid, hQ keys hkeys, hlookup⟩

theorem sourced_init : Sourced Q ({} : State) where
  bodies i t started body ht hphase := by
    rcases i with _ | i
    · obtain rfl := Option.some.inj ht
      cases hphase
    · simp at ht
  keys := .inl rfl
  answers i t pub ht hphase := by
    rcases i with _ | i
    · obtain rfl := Option.some.inj ht
      cases hphase
    · simp at ht

/-- A key that is found is of keys that were served. -/
theorem Sourced.found (h : Sourced Q s) {kid : String} {pub : PublicKey}
    (hlookup : lookup s.keys kid = some pub) : Q s.keys := by
  rcases h.keys with hnil | hQ
  · rw [hnil] at hlookup
    cases hlookup
  · exact hQ

/-- A thread moves on, and what it has now is of this kind. -/
theorem Sourced.put (h : Sourced Q s) {u : Thread}
    (hbody : ∀ started body, u.phase = .fetching started (some body) →
      ∀ keys, parseKeys body = some keys → Q keys)
    (hanswer : ∀ pub, u.phase = .answered (.found pub) →
      ∃ kid keys, u.kid = some kid ∧ Q keys ∧ lookup keys kid = some pub) :
    Sourced Q (s.put i u) where
  bodies j t started body ht hphase := by
    rcases thread_put ht with ⟨-, rfl⟩ | ⟨-, ht⟩
    · exact hbody started body hphase
    · exact h.bodies j t started body ht hphase
  keys := h.keys
  answers j t pub ht hphase := by
    rcases thread_put ht with ⟨-, rfl⟩ | ⟨-, ht⟩
    · exact hanswer pub hphase
    · exact h.answers j t pub ht hphase

theorem sourced_step {a : Action} (h : Sourced Q s) (ha : Serves Q a)
    (hstep : step s a = some s') : Sourced Q s' := by
  cases a with
  | elapse d =>
    obtain ⟨-, hs'⟩ := Option.ite_none_right_eq_some.mp hstep
    obtain rfl := Option.some.inj hs'
    exact ⟨h.bodies, h.keys, h.answers⟩
  | ask kid =>
    obtain rfl := Option.some.inj hstep
    refine ⟨fun j t started body ht hphase => ?_, h.keys, fun j t pub ht hphase => ?_⟩
    · rcases thread_append ht with rfl | ht
      · rw [State.ask] at hphase
        cases hlookup : lookup s.keys kid <;> simp [hlookup] at hphase
      · exact h.bodies j t started body ht hphase
    · rcases thread_append ht with rfl | ht
      · rw [State.ask] at hphase
        cases hlookup : lookup s.keys kid with
        | none => simp [hlookup] at hphase
        | some found =>
          simp only [hlookup, Phase.answered.injEq, Result.found.injEq] at hphase
          exact ⟨kid, s.keys, rfl, h.found hlookup, hphase ▸ hlookup⟩
      · exact h.answers j t pub ht hphase
  | refresh i =>
    obtain ⟨t, ht, -, ⟨-, rfl⟩ | ⟨-, rfl⟩⟩ := refresh_step hstep
    · exact h.put (fun _ _ hphase => by cases hphase) (fun _ hphase => by cases hphase)
    · have hput := h.put (i := i) (u := { t with phase := .fetching s.now none })
        (fun _ _ hphase => by cases hphase) (fun _ hphase => by cases hphase)
      exact ⟨hput.bodies, hput.keys, hput.answers⟩
  | serve i body =>
    obtain ⟨t, started, ht, hphase, rfl⟩ := serve_step hstep
    refine h.put (fun started' body' hphase' => ?_) (fun _ hphase => by cases hphase)
    simp only [Phase.fetching.injEq, Option.some.injEq] at hphase'
    exact hphase'.2 ▸ ha
  | store i =>
    obtain ⟨t, started, body, keys, ht, hphase, hkeys, rfl⟩ := store_step hstep
    have hput := h.put (i := i) (u := { t with phase := .refreshed })
      (fun _ _ hphase => by cases hphase) (fun _ hphase => by cases hphase)
    exact ⟨hput.bodies, .inr (h.bodies i t started body ht hphase keys hkeys), hput.answers⟩
  | fail i =>
    obtain ⟨t, started, body, ht, -, rfl⟩ := fail_step hstep
    exact h.put (fun _ _ hphase => by cases hphase) (fun _ hphase => by cases hphase)
  | again i =>
    obtain ⟨t, kid, ht, -, hkid, rfl⟩ := again_step hstep
    refine h.put (fun _ _ hphase => by cases hphase) (fun pub hphase => ?_)
    simp only [State.again, Phase.answered.injEq] at hphase
    cases hlookup : lookup s.keys kid with
    | none => simp [hlookup] at hphase
    | some found =>
      simp only [hlookup, Result.found.injEq] at hphase
      exact ⟨kid, s.keys, hkid, h.found hlookup, hphase ▸ hlookup⟩

/-- Since `since`, the documents that are served have the key. -/
structure Fresh (since : ℕ) (kid : String) (pub : PublicKey) (s : State) : Prop where
  bodies : ∀ (i : ℕ) (t : Thread) started body, s.threads[i]? = some t →
    t.phase = .fetching started (some body) → since < started →
    ∀ keys, parseKeys body = some keys → lookup keys kid = some pub
  keys : ∀ attempt, s.lastAttempt = some attempt → since < attempt → s.stored = true →
    lookup s.keys kid = some pub
  refreshed : ∀ (i : ℕ) (t : Thread), s.threads[i]? = some t → t.phase = .refreshed →
    since + jwksRefetchInterval ≤ t.asked →
    ∃ attempt, s.lastAttempt = some attempt ∧ since < attempt
  unknown : ∀ (i : ℕ) (t : Thread) stored, s.threads[i]? = some t → t.kid = some kid →
    since + jwksRefetchInterval ≤ t.asked → t.phase = .answered (.unknown stored) →
    stored = false

variable {since : ℕ} {kid : String} {pub : PublicKey}

/-- What has happened until now does not count. -/
theorem Inv.fresh (h : Inv s) (kid : String) (pub : PublicKey) : Fresh s.now kid pub s where
  bodies i t started body ht hphase hsince := by
    obtain ⟨hlast, -⟩ := h.current i started ⟨t, _, ht, hphase⟩
    have hpast := h.past started (List.mem_of_mem_head? (h.last ▸ hlast))
    omega
  keys attempt hlast hsince := by
    have hpast := h.past attempt (List.mem_of_mem_head? (h.last ▸ hlast))
    omega
  refreshed i t ht _ hasked := by
    have hpast := (h.asked i t ht).1
    simp only [jwksRefetchInterval] at hasked
    omega
  unknown i t _ ht _ hasked := by
    have hpast := (h.asked i t ht).1
    simp only [jwksRefetchInterval] at hasked
    omega

/-- A thread moves on, and where it stands now is accounted for. -/
theorem Fresh.put (h : Fresh since kid pub s) {u : Thread}
    (hbody : ∀ started body, u.phase = .fetching started (some body) → since < started →
      ∀ keys, parseKeys body = some keys → lookup keys kid = some pub)
    (hrefreshed : u.phase = .refreshed → since + jwksRefetchInterval ≤ u.asked →
      ∃ attempt, s.lastAttempt = some attempt ∧ since < attempt)
    (hunknown : ∀ stored, u.kid = some kid → since + jwksRefetchInterval ≤ u.asked →
      u.phase = .answered (.unknown stored) → stored = false) :
    Fresh since kid pub (s.put i u) where
  bodies j t started body ht hphase := by
    rcases thread_put ht with ⟨-, rfl⟩ | ⟨-, ht⟩
    · exact hbody started body hphase
    · exact h.bodies j t started body ht hphase
  keys := h.keys
  refreshed j t ht hphase := by
    rcases thread_put ht with ⟨-, rfl⟩ | ⟨-, ht⟩
    · exact hrefreshed hphase
    · exact h.refreshed j t ht hphase
  unknown j t stored ht := by
    rcases thread_put ht with ⟨-, rfl⟩ | ⟨-, ht⟩
    · exact hunknown stored
    · exact h.unknown j t stored ht

/-- A second look finds the key, unless the last fetch has failed or is under way. -/
theorem Fresh.again (h : Fresh since kid pub s) {t : Thread} (ht : s.threads[i]? = some t)
    (hphase : t.phase = .refreshed) (hasked : since + jwksRefetchInterval ≤ t.asked)
    {stored : Bool} (hagain : s.again kid = .unknown stored) : stored = false := by
  obtain ⟨attempt, hlast, hsince⟩ := h.refreshed i t ht hphase hasked
  cases hs : s.stored with
  | true =>
    rw [State.again, h.keys attempt hlast hsince hs] at hagain
    cases hagain
  | false =>
    rw [State.again] at hagain
    cases hlookup : lookup s.keys kid with
    | some found => simp [hlookup] at hagain
    | none =>
      simp only [hlookup, Result.unknown.injEq] at hagain
      rw [← hagain, hs]

theorem fresh_step {a : Action} (hinv : Inv s) (h : Fresh since kid pub s)
    (ha : Serves (fun keys => lookup keys kid = some pub) a) (hstep : step s a = some s') :
    Fresh since kid pub s' := by
  cases a with
  | elapse d =>
    obtain ⟨-, hs'⟩ := Option.ite_none_right_eq_some.mp hstep
    obtain rfl := Option.some.inj hs'
    exact ⟨h.bodies, h.keys, h.refreshed, h.unknown⟩
  | ask kid' =>
    obtain rfl := Option.some.inj hstep
    have hnew {p : Phase} (hp : (s.ask kid').phase = p) :
        p = .missed ∨ ∃ found, p = .answered (.found found) := by
      rw [← hp, State.ask]
      cases lookup s.keys kid' <;> simp
    refine ⟨fun j t started body ht hphase => ?_, h.keys, fun j t ht hphase => ?_,
      fun j t stored ht hkid hasked hphase => ?_⟩
    · rcases thread_append ht with rfl | ht
      · simpa using hnew hphase
      · exact h.bodies j t started body ht hphase
    · rcases thread_append ht with rfl | ht
      · simpa using hnew hphase
      · exact h.refreshed j t ht hphase
    · rcases thread_append ht with rfl | ht
      · simpa using hnew hphase
      · exact h.unknown j t stored ht hkid hasked hphase
  | refresh i =>
    obtain ⟨t, ht, -, ⟨hthrottled, rfl⟩ | ⟨-, rfl⟩⟩ := refresh_step hstep
    · refine h.put (fun _ _ hphase => by cases hphase) (fun _ hasked => ?_)
        (fun _ _ _ hphase => by cases hphase)
      -- the attempt that this one gives way to is less than a minute old
      obtain ⟨attempt, hlast, hrecent⟩ := throttled_iff.mp hthrottled
      have hpast := (hinv.asked i t ht).1
      exact ⟨attempt, hlast, by dsimp only at hasked; omega⟩
    · have hput := h.put (i := i) (u := { t with phase := .fetching s.now none })
        (fun _ _ hphase => by cases hphase) (fun hphase => by cases hphase)
        (fun _ _ _ hphase => by cases hphase)
      refine ⟨hput.bodies, fun _ _ _ hstored => Bool.noConfusion hstored,
        fun j u hu hphase hasked => ⟨s.now, rfl, ?_⟩, hput.unknown⟩
      obtain ⟨attempt, hlast, hsince⟩ := hput.refreshed j u hu hphase hasked
      have hpast := hinv.past attempt (List.mem_of_mem_head? (hinv.last ▸ hlast))
      omega
  | serve i body =>
    obtain ⟨t, started, ht, hphase, rfl⟩ := serve_step hstep
    refine h.put (fun started' body' hphase' => ?_) (fun hphase => by cases hphase)
      (fun _ _ _ hphase => by cases hphase)
    simp only [Phase.fetching.injEq, Option.some.injEq] at hphase'
    exact fun _ => hphase'.2 ▸ ha
  | store i =>
    obtain ⟨t, started, body, keys, ht, hphase, hkeys, rfl⟩ := store_step hstep
    obtain ⟨hlast, -⟩ := hinv.current i started ⟨t, _, ht, hphase⟩
    have hput := h.put (i := i) (u := { t with phase := .refreshed })
      (fun _ _ hphase => by cases hphase)
      (fun _ hasked => by
        have hstarted := (hinv.asked i t ht).2 started (some body) hphase
        simp only [jwksRefetchInterval] at hasked
        exact ⟨started, hlast, by omega⟩)
      (fun _ _ _ hphase => by cases hphase)
    refine ⟨hput.bodies, fun attempt hlast' hsince _ => ?_, hput.refreshed, hput.unknown⟩
    -- the attempt that stores is the last one
    obtain rfl := Option.some.inj (hlast.symm.trans hlast')
    exact h.bodies i t started body ht hphase hsince keys hkeys
  | fail i =>
    obtain ⟨t, started, body, ht, -, rfl⟩ := fail_step hstep
    exact h.put (fun _ _ hphase => by cases hphase) (fun hphase => by cases hphase)
      (fun _ _ _ hphase => by cases hphase)
  | again i =>
    obtain ⟨t, kid', ht, hphase, hkid', rfl⟩ := again_step hstep
    refine h.put (fun _ _ hphase => by cases hphase) (fun hphase => by cases hphase)
      (fun stored hkid hasked hanswered => ?_)
    obtain rfl : kid' = kid := Option.some.inj (hkid'.symm.trans hkid)
    exact h.again ht hphase hasked (Phase.answered.inj hanswered)

theorem thread_step {a : Action} (hstep : step s a = some s') {t : Thread}
    (ht : s.threads[i]? = some t) :
    ∃ u, s'.threads[i]? = some u ∧ u.kid = t.kid ∧ u.asked = t.asked := by
  have hput {j : ℕ} {v : Thread} (hv : s.threads[j]? = some v) (p : Phase) :
      ∃ u, (s.put j { v with phase := p }).threads[i]? = some u ∧ u.kid = t.kid ∧
        u.asked = t.asked := by
    by_cases hij : j = i
    · subst hij
      obtain rfl := Option.some.inj (ht.symm.trans hv)
      have hlt := (List.getElem?_eq_some_iff.mp hv).1
      exact ⟨{ t with phase := p }, List.getElem?_set_self hlt, rfl, rfl⟩
    · exact ⟨t, by rw [State.put, List.getElem?_set_ne hij, ht], rfl, rfl⟩
  cases a with
  | elapse d =>
    obtain ⟨-, hs'⟩ := Option.ite_none_right_eq_some.mp hstep
    obtain rfl := Option.some.inj hs'
    exact ⟨t, ht, rfl, rfl⟩
  | ask kid =>
    obtain rfl := Option.some.inj hstep
    have hlt := (List.getElem?_eq_some_iff.mp ht).1
    exact ⟨t, by rw [List.getElem?_append_left hlt, ht], rfl, rfl⟩
  | refresh j =>
    obtain ⟨v, hv, -, ⟨-, rfl⟩ | ⟨-, rfl⟩⟩ := refresh_step hstep
    · exact hput hv _
    · exact hput hv (.fetching s.now none)
  | serve j body =>
    obtain ⟨v, started, hv, -, rfl⟩ := serve_step hstep
    exact hput hv _
  | store j =>
    obtain ⟨v, started, body, keys, hv, -, -, rfl⟩ := store_step hstep
    exact hput hv .refreshed
  | fail j =>
    obtain ⟨v, started, body, hv, -, rfl⟩ := fail_step hstep
    exact hput hv _
  | again j =>
    obtain ⟨v, kid, hv, -, -, rfl⟩ := again_step hstep
    exact hput hv _

end Statnive.JwksCache
