import Statnive.IngestHandler

/-!
# The rate limit

`ratelimit.Middleware` puts a handler behind `httprate`: a request is counted under the remote
address and the client IP, and what the client IP is, its headers say.
-/

namespace Statnive.RateLimit

open PrivacyPolicy IngestHandler

/-- Times and lengths are in nanoseconds, counters stand under the hash of their key. -/
structure LocalCounter where
  latestWindow : ℕ := 0
  latestCounters : UInt64 → ℕ := fun _ => 0
  previousCounters : UInt64 → ℕ := fun _ => 0

def truncate (windowLength now : ℕ) : ℕ := now / windowLength * windowLength

namespace LocalCounter

variable (c : LocalCounter) (windowLength : ℕ) (k : UInt64) (currentWindow : ℕ)

/-- The counts of the current and of the previous window. -/
def get : ℕ × ℕ :=
  if c.latestWindow = currentWindow then (c.latestCounters k, c.previousCounters k)
  else if c.latestWindow + windowLength = currentWindow then (0, c.latestCounters k)
  else (0, 0)

def evict : LocalCounter :=
  if c.latestWindow = currentWindow then c
  else if c.latestWindow + windowLength = currentWindow then
    ⟨currentWindow, fun _ => 0, c.latestCounters⟩
  else ⟨currentWindow, fun _ => 0, fun _ => 0⟩

def incrementBy (amount : ℕ) : LocalCounter :=
  let evicted := c.evict windowLength currentWindow
  { evicted with
    latestCounters :=
      Function.update evicted.latestCounters k (evicted.latestCounters k + amount) }

end LocalCounter

/-- `math.Round` of `prev * (windowLength - diff) / windowLength + curr`, the fraction exact. -/
def rate (windowLength curr prev diff : ℕ) : ℕ :=
  (2 * prev * (windowLength - diff) + windowLength) / (2 * windowLength) + curr

/-- What `Middleware` accepts. -/
structure Gate where
  requestLimit : ℕ
  windowLength : ℕ
  allowlistedIPs : List String
  requestLimit_pos : 0 < requestLimit
  windowLength_pos : 0 < windowLength

def Gate.new (requestsPerWindow window : ℤ) (allowlistedIPs : List String) : Except String Gate :=
  if hlimit : requestsPerWindow ≤ 0 then .error "ratelimit: requestsPerWindow must be > 0"
  else if hwindow : window ≤ 0 then .error "ratelimit: window must be > 0"
  else .ok {
    requestLimit := requestsPerWindow.toNat
    windowLength := window.toNat
    allowlistedIPs := allowlistedIPs
    requestLimit_pos := by omega
    windowLength_pos := by omega }

def buildAllowlist (ips : List String) (ip : String) : Bool := ip ≠ "" && ips.contains ip

structure Arrival where
  now : ℕ
  request : Request

/-- The address of the TCP connection. -/
def remoteIP (r : Request) : String :=
  match splitHost r.remoteAddr.toList with
  | some host => String.ofList host
  | none => r.remoteAddr

section Middleware

/- `ipv6Prefix` is the `/64` prefix of what `net.ParseIP` makes of an address with a colon, and
`xxh3` the hash of a counter's key. -/
variable (ipv6Prefix : String → Option String) (xxh3 : String → UInt64) (g : Gate)

def canonicalizeIP (ip : String) : String :=
  match ip.toList.find? (fun c => c = '.' || c = ':') with
  | some ':' => (ipv6Prefix ip).getD ip
  | _ => ip

def keyByIP (r : Request) : String := canonicalizeIP ipv6Prefix (remoteIP r)

def keyByClientIP (r : Request) : String := clientIP r

def composedKey (r : Request) : String :=
  keyByIP ipv6Prefix r ++ ":" ++ keyByClientIP r ++ ":"

def limitCounterKey (a : Arrival) : UInt64 := xxh3 (composedKey ipv6Prefix a.request)

/-- Whether the limit is reached, with the counters afterwards. -/
def onLimit (c : LocalCounter) (a : Arrival) : Bool × LocalCounter :=
  let k := limitCounterKey ipv6Prefix xxh3 a
  let currentWindow := truncate g.windowLength a.now
  let (curr, prev) := c.get g.windowLength k currentWindow
  if g.requestLimit < rate g.windowLength curr prev (a.now - currentWindow) + 1 then (true, c)
  else (false, c.incrementBy g.windowLength k currentWindow 1)

/-- Whether the request reaches the wrapped handler, with the counters afterwards. -/
def middleware (c : LocalCounter) (a : Arrival) : Bool × LocalCounter :=
  if buildAllowlist g.allowlistedIPs (clientIP a.request) then (true, c)
  else
    let (limited, c') := onLimit ipv6Prefix xxh3 g c a
    (!limited, c')

/-- Those of the requests that reach the wrapped handler. -/
def reached (c : LocalCounter) : List Arrival → List Arrival
  | [] => []
  | a :: as =>
    let next := middleware ipv6Prefix xxh3 g c a
    if next.1 then a :: reached next.2 as else reached next.2 as

/-- Counted under `k`, not passed by the allowlist. -/
def countedUnder (k : UInt64) (a : Arrival) : Bool :=
  !buildAllowlist g.allowlistedIPs (clientIP a.request) && limitCounterKey ipv6Prefix xxh3 a = k

/-- The requests count under one key, and none is on the allowlist. -/
def OneClient (as : List Arrival) : Prop :=
  ∀ a ∈ as, buildAllowlist g.allowlistedIPs (clientIP a.request) = false ∧
    ∀ b ∈ as, limitCounterKey ipv6Prefix xxh3 a = limitCounterKey ipv6Prefix xxh3 b

end Middleware

theorem get_incrementBy (c : LocalCounter) (windowLength : ℕ) (k k' : UInt64)
    (currentWindow amount : ℕ) :
    (c.incrementBy windowLength k currentWindow amount).get windowLength k' currentWindow =
      ((c.get windowLength k' currentWindow).1 + (if k' = k then amount else 0),
        (c.get windowLength k' currentWindow).2) := by
  have hlatest : (c.evict windowLength currentWindow).latestWindow = currentWindow := by
    rw [LocalCounter.evict]
    split_ifs with hsame hnext
    · exact hsame
    · rfl
    · rfl
  have hevict : (c.evict windowLength currentWindow).latestCounters k' =
        (c.get windowLength k' currentWindow).1 ∧
      (c.evict windowLength currentWindow).previousCounters k' =
        (c.get windowLength k' currentWindow).2 := by
    rw [LocalCounter.evict, LocalCounter.get]
    split_ifs <;> exact ⟨rfl, rfl⟩
  rw [LocalCounter.get, LocalCounter.incrementBy, if_pos hlatest]
  refine Prod.ext ?_ hevict.2
  by_cases hk : k' = k
  · subst hk
    simp [hevict.1]
  · simp [hk, hevict.1]

private theorem le_rate (windowLength curr prev diff : ℕ) :
    curr ≤ rate windowLength curr prev diff :=
  Nat.le_add_left ..

/-- Where the window before counted nothing, the rate is the count of the current one. -/
theorem rate_fresh {windowLength : ℕ} (h : 0 < windowLength) (curr diff : ℕ) :
    rate windowLength curr 0 diff = curr := by
  have hhalf : windowLength / (2 * windowLength) = 0 := Nat.div_eq_of_lt (by omega)
  simp [rate, hhalf]

section Runs

variable {ipv6Prefix : String → Option String} {xxh3 : String → UInt64} {g : Gate}
  {c : LocalCounter} {a : Arrival} {as : List Arrival} {currentWindow : ℕ}

variable (ipv6Prefix xxh3 c as) in
/-- The head of a run passes by the allowlist, is refused, or is admitted and counted. -/
theorem reached_cons_cases (hwindow : truncate g.windowLength a.now = currentWindow) :
    let k := limitCounterKey ipv6Prefix xxh3 a
    let count := c.get g.windowLength k currentWindow
    let seen := rate g.windowLength count.1 count.2 (a.now - currentWindow)
    (buildAllowlist g.allowlistedIPs (clientIP a.request) = true ∧
      reached ipv6Prefix xxh3 g c (a :: as) = a :: reached ipv6Prefix xxh3 g c as) ∨
    (buildAllowlist g.allowlistedIPs (clientIP a.request) = false ∧ g.requestLimit ≤ seen ∧
      reached ipv6Prefix xxh3 g c (a :: as) = reached ipv6Prefix xxh3 g c as) ∨
    (buildAllowlist g.allowlistedIPs (clientIP a.request) = false ∧ seen < g.requestLimit ∧
      reached ipv6Prefix xxh3 g c (a :: as) =
        a :: reached ipv6Prefix xxh3 g (c.incrementBy g.windowLength k currentWindow 1) as) := by
  intro k count seen
  cases hallow : buildAllowlist g.allowlistedIPs (clientIP a.request) with
  | true =>
    refine .inl ⟨rfl, ?_⟩
    have hpass : middleware ipv6Prefix xxh3 g c a = (true, c) := if_pos hallow
    rw [reached, hpass]
    rfl
  | false =>
    subst hwindow
    have hlimiter : middleware ipv6Prefix xxh3 g c a =
        (!(onLimit ipv6Prefix xxh3 g c a).1, (onLimit ipv6Prefix xxh3 g c a).2) :=
      if_neg (by simp [hallow])
    by_cases hlimit : g.requestLimit < seen + 1
    · refine .inr (.inl ⟨rfl, by omega, ?_⟩)
      have hrefused : onLimit ipv6Prefix xxh3 g c a = (true, c) := if_pos hlimit
      rw [reached, hlimiter, hrefused]
      rfl
    · refine .inr (.inr ⟨rfl, by omega, ?_⟩)
      have hadmitted : onLimit ipv6Prefix xxh3 g c a =
          (false, c.incrementBy g.windowLength k (truncate g.windowLength a.now) 1) :=
        if_neg hlimit
      rw [reached, hlimiter, hadmitted]
      rfl

private theorem reached_sublist : (reached ipv6Prefix xxh3 g c as).Sublist as := by
  induction as generalizing c with
  | nil => exact .slnil
  | cons a as ih =>
    rw [reached]
    split
    next => exact ih.cons_cons a
    next => exact ih.cons a

/-- Those on the allowlist all pass. -/
theorem mem_reached_of_allowlisted (ha : a ∈ as)
    (hallow : buildAllowlist g.allowlistedIPs (clientIP a.request) = true) :
    a ∈ reached ipv6Prefix xxh3 g c as := by
  induction as generalizing c with
  | nil => exact nomatch ha
  | cons b as ih =>
    obtain rfl | ha := List.mem_cons.mp ha
    · have hpass : middleware ipv6Prefix xxh3 g c a = (true, c) := if_pos hallow
      rw [reached, hpass]
      exact List.mem_cons_self
    · rw [reached]
      split
      next => exact List.mem_cons_of_mem b (ih ha)
      next => exact ih ha

/-- A counter that a window has filled lets no more than the rest of the limit through. -/
theorem reached_length_le_of_oneClient {k : UInt64}
    (hwindow : ∀ a ∈ as, truncate g.windowLength a.now = currentWindow)
    (hclient : ∀ a ∈ as, buildAllowlist g.allowlistedIPs (clientIP a.request) = false ∧
      limitCounterKey ipv6Prefix xxh3 a = k) :
    (reached ipv6Prefix xxh3 g c as).length ≤
      g.requestLimit - (c.get g.windowLength k currentWindow).1 := by
  induction as generalizing c with
  | nil => exact Nat.zero_le _
  | cons a as ih =>
    obtain ⟨hnow, hwindow⟩ := List.forall_mem_cons.mp hwindow
    obtain ⟨⟨hgated, hk⟩, hclient⟩ := List.forall_mem_cons.mp hclient
    obtain ⟨hallow, -⟩ | ⟨-, -, heq⟩ | ⟨-, hroom, heq⟩ :=
      reached_cons_cases ipv6Prefix xxh3 c as hnow
    · exact absurd (hgated.symm.trans hallow) Bool.false_ne_true
    · rw [heq]
      exact ih hwindow hclient
    · rw [hk] at hroom heq
      have hcount := Nat.lt_of_le_of_lt (le_rate ..) hroom
      have hrest := ih (c := c.incrementBy g.windowLength k currentWindow 1) hwindow hclient
      rw [get_incrementBy, if_pos rfl] at hrest
      rw [heq, List.length_cons]
      omega

/-- From fresh counters, all requests pass or one counter has let the limit through. -/
theorem reached_eq_or_full (hwindow : ∀ a ∈ as, truncate g.windowLength a.now = currentWindow)
    (hfresh : ∀ a ∈ as,
      (c.get g.windowLength (limitCounterKey ipv6Prefix xxh3 a) currentWindow).2 = 0) :
    reached ipv6Prefix xxh3 g c as = as ∨
      ∃ b ∈ as, g.requestLimit ≤
        (c.get g.windowLength (limitCounterKey ipv6Prefix xxh3 b) currentWindow).1 +
          (reached ipv6Prefix xxh3 g c as).countP
            (countedUnder ipv6Prefix xxh3 g (limitCounterKey ipv6Prefix xxh3 b)) := by
  induction as generalizing c with
  | nil => exact .inl rfl
  | cons a as ih =>
    obtain ⟨hnow, hwindow⟩ := List.forall_mem_cons.mp hwindow
    obtain ⟨hprev, hfresh⟩ := List.forall_mem_cons.mp hfresh
    obtain ⟨-, heq⟩ | ⟨-, hlimit, heq⟩ | ⟨hgated, hroom, heq⟩ :=
      reached_cons_cases ipv6Prefix xxh3 c as hnow
    · rw [heq]
      refine (ih hwindow hfresh).imp (congrArg _) fun ⟨b, hb, hfull⟩ =>
        ⟨b, List.mem_cons_of_mem a hb, hfull.trans ?_⟩
      exact Nat.add_le_add_left (List.Sublist.countP_le (List.sublist_cons_self ..)) _
    · rw [hprev, rate_fresh g.windowLength_pos] at hlimit
      exact .inr ⟨a, List.mem_cons_self, hlimit.trans (Nat.le_add_right ..)⟩
    · rw [heq]
      have hrest := ih (c := c.incrementBy g.windowLength (limitCounterKey ipv6Prefix xxh3 a)
        currentWindow 1) hwindow (by simpa only [get_incrementBy] using hfresh)
      refine hrest.imp (congrArg _) fun ⟨b, hb, hfull⟩ =>
        ⟨b, List.mem_cons_of_mem a hb, hfull.trans ?_⟩
      rw [get_incrementBy, List.countP_cons]
      by_cases hab : limitCounterKey ipv6Prefix xxh3 b = limitCounterKey ipv6Prefix xxh3 a
      · have ha : countedUnder ipv6Prefix xxh3 g (limitCounterKey ipv6Prefix xxh3 b) a = true := by
          simp [countedUnder, hgated, hab]
        rw [if_pos hab, if_pos ha]
        omega
      · rw [if_neg hab]
        omega

/-- A counter with room lets at least one of its requests through. -/
theorem exists_mem_reached (hwindow : ∀ a ∈ as, truncate g.windowLength a.now = currentWindow)
    {k : UInt64} (hprev : (c.get g.windowLength k currentWindow).2 = 0)
    (hroom : (c.get g.windowLength k currentWindow).1 < g.requestLimit) (ha : a ∈ as)
    (hgated : buildAllowlist g.allowlistedIPs (clientIP a.request) = false)
    (hk : limitCounterKey ipv6Prefix xxh3 a = k) :
    ∃ b ∈ reached ipv6Prefix xxh3 g c as, limitCounterKey ipv6Prefix xxh3 b = k := by
  induction as generalizing c with
  | nil => exact nomatch ha
  | cons b as ih =>
    obtain ⟨hnow, hwindow⟩ := List.forall_mem_cons.mp hwindow
    have htail (ha : a ∈ as) {c' : LocalCounter}
        (hcount : c'.get g.windowLength k currentWindow = c.get g.windowLength k currentWindow) :=
      ih (c := c') hwindow (hcount ▸ hprev) (hcount ▸ hroom) ha
    obtain ⟨hallow, heq⟩ | ⟨-, hlimit, heq⟩ | ⟨-, -, heq⟩ :=
      reached_cons_cases ipv6Prefix xxh3 c as hnow
    · rw [heq]
      obtain rfl | ha := List.mem_cons.mp ha
      · exact absurd (hgated.symm.trans hallow) Bool.false_ne_true
      · obtain ⟨z, hz, hzk⟩ := htail ha rfl
        exact ⟨z, List.mem_cons_of_mem b hz, hzk⟩
    · rw [heq]
      obtain rfl | ha := List.mem_cons.mp ha
      · rw [hk, hprev, rate_fresh g.windowLength_pos] at hlimit
        omega
      · exact htail ha rfl
    · rw [heq]
      by_cases hb : limitCounterKey ipv6Prefix xxh3 b = k
      · exact ⟨b, List.mem_cons_self, hb⟩
      · obtain rfl | ha := List.mem_cons.mp ha
        · exact absurd hk hb
        · have hcount : (c.incrementBy g.windowLength (limitCounterKey ipv6Prefix xxh3 b)
              currentWindow 1).get g.windowLength k currentWindow =
                c.get g.windowLength k currentWindow := by
            rw [get_incrementBy, if_neg (fun h => hb h.symm)]
            rfl
          obtain ⟨z, hz, hzk⟩ := htail ha hcount
          exact ⟨z, List.mem_cons_of_mem b hz, hzk⟩

/-- Behind the limit of requests that are not one client, requests pass beside a counter that
has let the limit through. -/
theorem lt_reached_length (hwindow : ∀ a ∈ as, truncate g.windowLength a.now = currentWindow)
    (hfresh : ∀ a ∈ as,
      c.get g.windowLength (limitCounterKey ipv6Prefix xxh3 a) currentWindow = (0, 0))
    (hmany : g.requestLimit < as.length) (hclient : ¬ OneClient ipv6Prefix xxh3 g as) :
    g.requestLimit < (reached ipv6Prefix xxh3 g c as).length := by
  obtain hall | ⟨b, hb, hfull⟩ := reached_eq_or_full (c := c) hwindow
    fun a ha => congrArg Prod.snd (hfresh a ha)
  · rw [hall]
    exact hmany
  · rw [hfresh b hb, Nat.zero_add] at hfull
    refine hfull.trans_lt (List.countP_le_length.lt_of_ne fun hcount => hclient fun a ha => ?_)
    -- every request that passes is counted under the key of `b`
    have hpassed := List.countP_eq_length.mp hcount
    have hunder (a : Arrival) (ha : a ∈ as) :
        buildAllowlist g.allowlistedIPs (clientIP a.request) = false ∧
          limitCounterKey ipv6Prefix xxh3 a = limitCounterKey ipv6Prefix xxh3 b := by
      have hgated : buildAllowlist g.allowlistedIPs (clientIP a.request) = false := by
        by_contra hallow
        have hpass := hpassed a (mem_reached_of_allowlisted ha (by simpa using hallow))
        simp [countedUnder, hallow] at hpass
      have hfree := hfresh a ha
      obtain ⟨z, hz, hzk⟩ := exists_mem_reached hwindow (congrArg Prod.snd hfree)
        (by rw [hfree]; exact g.requestLimit_pos) ha hgated rfl
      have hzb := hpassed z hz
      simp only [countedUnder, Bool.and_eq_true, decide_eq_true_eq] at hzb
      exact ⟨hgated, hzk.symm.trans hzb.2⟩
    exact ⟨(hunder a ha).1, fun d hd => (hunder a ha).2.trans (hunder d hd).2.symm⟩

/-- In one window the limit holds for no more requests than it, and for requests under one key
that are not on the allowlist; from fresh counters it holds for no others. -/
theorem reached_length_le_iff
    (hwindow : ∀ a ∈ as, truncate g.windowLength a.now = currentWindow) :
    (as.length ≤ g.requestLimit ∨ OneClient ipv6Prefix xxh3 g as →
        (reached ipv6Prefix xxh3 g c as).length ≤ g.requestLimit) ∧
      ((∀ a ∈ as, c.get g.windowLength (limitCounterKey ipv6Prefix xxh3 a) currentWindow =
          (0, 0)) →
        ((reached ipv6Prefix xxh3 g c as).length ≤ g.requestLimit ↔
          as.length ≤ g.requestLimit ∨ OneClient ipv6Prefix xxh3 g as)) := by
  have hholds (h : as.length ≤ g.requestLimit ∨ OneClient ipv6Prefix xxh3 g as) :
      (reached ipv6Prefix xxh3 g c as).length ≤ g.requestLimit := by
    obtain hfew | hclient := h
    · exact reached_sublist.length_le.trans hfew
    · cases as with
      | nil => exact Nat.zero_le _
      | cons a as =>
        have hone : ∀ b ∈ a :: as, buildAllowlist g.allowlistedIPs (clientIP b.request) = false ∧
            limitCounterKey ipv6Prefix xxh3 b = limitCounterKey ipv6Prefix xxh3 a :=
          fun b hb => ⟨(hclient b hb).1, (hclient b hb).2 a List.mem_cons_self⟩
        exact (reached_length_le_of_oneClient hwindow hone).trans (Nat.sub_le ..)
  refine ⟨hholds, fun hfresh => ⟨fun hle => ?_, hholds⟩⟩
  by_contra hnot
  obtain ⟨hmany, hclient⟩ := not_or.mp hnot
  exact absurd hle (Nat.not_le.mpr (lt_reached_length hwindow hfresh (Nat.not_le.mp hmany) hclient))

end Runs

/-- A request from one address in the first minute. -/
def Arrival.claiming (ip : String) : Arrival where
  now := 0
  request := {
    header := fun key => if key = "X-Real-IP" then ip else ""
    cookies := []
    remoteAddr := "192.0.2.1:40000"
    body := .ok [] }

def Gate.onePerMinute (allowlistedIPs : List String) : Gate where
  requestLimit := 1
  windowLength := 60000000000
  allowlistedIPs := allowlistedIPs
  requestLimit_pos := by decide
  windowLength_pos := by decide

example (ips : List String) : Gate.new 1 60000000000 ips = .ok (.onePerMinute ips) := rfl

/-- A hash for the examples. -/
def sumHash (key : String) : UInt64 :=
  key.toList.foldl (fun h c => h * 31 + UInt64.ofNat c.toNat) 0

/-- One client is let through once. -/
theorem reached_one_client :
    (reached (fun _ => none) sumHash (.onePerMinute []) {}
      (List.replicate 3 (.claiming "203.0.113.7"))).length ≤ 1 := by
  have hsame : ∀ a ∈ List.replicate 3 (Arrival.claiming "203.0.113.7"),
      a = .claiming "203.0.113.7" := fun a => List.eq_of_mem_replicate
  have hwindow : ∀ a ∈ List.replicate 3 (Arrival.claiming "203.0.113.7"),
      truncate (Gate.onePerMinute []).windowLength a.now = 0 := by
    intro a ha
    rw [hsame a ha]
    rfl
  refine (reached_length_le_iff hwindow).1 (.inr fun a ha => ⟨?_, fun b hb => ?_⟩)
  · simp [buildAllowlist, Gate.onePerMinute]
  · rw [hsame a ha, hsame b hb]

/-- The limit holds for what comes from one address that is not on the allowlist. -/
def LimitHolds (ipv6Prefix : String → Option String) (xxh3 : String → UInt64) : Prop :=
  ∀ (g : Gate) (as : List Arrival) (addr : String) (currentWindow : ℕ),
    (∀ a ∈ as, truncate g.windowLength a.now = currentWindow ∧ a.request.remoteAddr = addr ∧
      buildAllowlist g.allowlistedIPs (remoteIP a.request) = false) →
    (reached ipv6Prefix xxh3 g {} as).length ≤ g.requestLimit

theorem clientIP_claiming :
    clientIP (Arrival.claiming "203.0.113.7").request = "203.0.113.7" ∧
      clientIP (Arrival.claiming "203.0.113.8").request = "203.0.113.8" := by
  decide +kernel

theorem remoteIP_claiming (ip : String) :
    remoteIP (Arrival.claiming ip).request = "192.0.2.1" := by
  have hhost : splitHost "192.0.2.1:40000".toList = some "192.0.2.1".toList := by decide +kernel
  rw [remoteIP, show (Arrival.claiming ip).request.remoteAddr = "192.0.2.1:40000" from rfl, hhost]
  exact String.ofList_toList

/-- An address that claims to be one of the allowlist is not limited, and one that claims to be
another client with each request is limited as so many clients. -/
theorem headers_sidestep_limit :
    (∀ ipv6Prefix xxh3, ¬ LimitHolds ipv6Prefix xxh3) ∧
      ∀ ipv6Prefix xxh3, xxh3 "192.0.2.1:203.0.113.7:" ≠ xxh3 "192.0.2.1:203.0.113.8:" →
        1 < (reached ipv6Prefix xxh3 (.onePerMinute []) {}
          [.claiming "203.0.113.7", .claiming "203.0.113.8"]).length := by
  constructor
  · intro ipv6Prefix xxh3 h
    have hsame : ∀ a ∈ List.replicate 2 (Arrival.claiming "203.0.113.7"),
        a = .claiming "203.0.113.7" := fun a => List.eq_of_mem_replicate
    have hallow : buildAllowlist ["203.0.113.7"]
        (clientIP (Arrival.claiming "203.0.113.7").request) = true := by
      rw [clientIP_claiming.1]
      decide +kernel
    have hle := h (.onePerMinute ["203.0.113.7"]) (List.replicate 2 (.claiming "203.0.113.7"))
      "192.0.2.1:40000" 0 (fun a ha => by
        rw [hsame a ha, remoteIP_claiming]
        exact ⟨rfl, rfl, by decide +kernel⟩)
    have hwindow : ∀ a ∈ List.replicate 2 (Arrival.claiming "203.0.113.7"),
        truncate (Gate.onePerMinute ["203.0.113.7"]).windowLength a.now = 0 := by
      intro a ha
      rw [hsame a ha]
      rfl
    have hclient : ¬ OneClient ipv6Prefix xxh3 (.onePerMinute ["203.0.113.7"])
        (List.replicate 2 (.claiming "203.0.113.7")) := fun hclient =>
      Bool.false_ne_true ((hclient (.claiming "203.0.113.7") (by simp)).1.symm.trans hallow)
    exact absurd hle (Nat.not_le.mpr
      (lt_reached_length hwindow (fun _ _ => rfl) (by decide) hclient))
  · intro ipv6Prefix xxh3 hne
    have hcanonical : canonicalizeIP ipv6Prefix "192.0.2.1" = "192.0.2.1" := by
      have hdot : "192.0.2.1".toList.find? (fun c => c = '.' || c = ':') = some '.' := by
        decide +kernel
      rw [canonicalizeIP, hdot]
      rfl
    have hkey (ip : String) (hip : clientIP (Arrival.claiming ip).request = ip) :
        limitCounterKey ipv6Prefix xxh3 (.claiming ip) =
          xxh3 ("192.0.2.1" ++ ":" ++ ip ++ ":") := by
      rw [limitCounterKey, composedKey, keyByIP, keyByClientIP, remoteIP_claiming, hcanonical, hip]
    have hwindow : ∀ a ∈ [Arrival.claiming "203.0.113.7", .claiming "203.0.113.8"],
        truncate (Gate.onePerMinute []).windowLength a.now = 0 := by
      simp only [List.mem_cons, List.not_mem_nil, or_false]
      rintro a (rfl | rfl)
      · rfl
      · rfl
    have hclient : ¬ OneClient ipv6Prefix xxh3 (.onePerMinute [])
        [.claiming "203.0.113.7", .claiming "203.0.113.8"] := by
      intro hclient
      have hsame := (hclient (.claiming "203.0.113.7") (by simp)).2 (.claiming "203.0.113.8")
        (by simp)
      rw [hkey _ clientIP_claiming.1, hkey _ clientIP_claiming.2] at hsame
      exact hne hsame
    exact lt_reached_length hwindow (fun _ _ => rfl) (by decide) hclient

end Statnive.RateLimit
