import Statnive.EnrichPipeline

/-!
# The funnel counters of the ingest endpoint

`/api/event` runs CORS, fast reject, rate limit and back-pressure before the handler. The
handler counts a request as received; accepted and dropped are counted one event at a time,
and the gates before the handler count what they drop, too.
-/

namespace Statnive.IngestFunnel

open IngestEvents PrivacyPolicy EventSanitize IngestHandler EnrichPipeline

inductive FastReject where
  | prefetchHeader | uaLength | uaNonASCII | uaAsIP | uaAsUUID
  deriving DecidableEq

/-- The labels of the drop counter. -/
inductive DropReason where
  | fastReject (reason : FastReject)
  | rateLimited
  | walBackpressure
  | handler (reason : Reason)
  | pipeline (reason : PipelineDrop)
  deriving DecidableEq

/-- The counters. Those with a label are created when they are first bumped. -/
structure Registry where
  received : ℕ := 0
  accepted : List (ℕ × ℕ) := []
  dropped : List (DropReason × ℕ) := []
  deriving DecidableEq

def bumpMap {κ : Type} [DecidableEq κ] (key : κ) : List (κ × ℕ) → List (κ × ℕ)
  | [] => [(key, 1)]
  | (k, n) :: m => if k = key then (k, n + 1) :: m else (k, n) :: bumpMap key m

/-- The sum over all labels. -/
def total {κ : Type} : List (κ × ℕ) → ℕ
  | [] => 0
  | (_, n) :: m => n + total m

inductive Inc where
  | received
  | accepted (siteID : ℕ)
  | dropped (reason : DropReason)
  deriving DecidableEq

def Registry.inc (reg : Registry) : Inc → Registry
  | .received => { reg with received := reg.received + 1 }
  | .accepted siteID => { reg with accepted := bumpMap siteID reg.accepted }
  | .dropped reason => { reg with dropped := bumpMap reason reg.dropped }

def Registry.incAll (reg : Registry) (incs : List Inc) : Registry := incs.foldl Registry.inc reg

/-- From one registry to the next, received grows by what accepted and dropped grow by. -/
def Conserved (before after : Registry) : Prop :=
  after.received + total before.accepted + total before.dropped =
    before.received + total after.accepted + total after.dropped

def uaMinLen : ℕ := 16
def uaMaxLen : ℕ := 500

/-- What decides on the way to the handler besides the request: `parseIP` and `parseUUID`
accept a trimmed user agent, and the last three are what CORS, the limiter and the fill
ratio say at this moment. -/
structure Front where
  method : String := "POST"
  parseIP : String → Bool := fun _ => false
  parseUUID : String → Bool := fun _ => false
  allowlistedIPs : List String := []
  corsRefuses : Bool := false
  limited : Bool := false
  degraded : Bool := false

def fastReject (front : Front) (header : String → String) (ua : String) : Option FastReject :=
  if header "X-Purpose" = "prefetch" || header "Purpose" = "prefetch" ||
      header "X-Moz" = "prefetch" then some .prefetchHeader
  else if len ua < uaMinLen || uaMaxLen < len ua then some .uaLength
  else if ua.toList.any (fun c => 127 < c.toNat) then some .uaNonASCII
  else if front.parseIP (trimSpace ua) then some .uaAsIP
  else if front.parseUUID (trimSpace ua) then some .uaAsUUID
  else none

def allowlisted (front : Front) (r : Request) : Bool :=
  clientIP r ≠ "" && front.allowlistedIPs.contains (clientIP r)

variable {π : Type}

/-- One request with everything that its outcome depends on. -/
structure Call (π : Type) where
  front : Front := {}
  cfg : Config
  be : Backend π
  dec : Decoder
  p : π
  r : Request
  pipelineDrop : ℕ → PipelineDrop := fun _ => .botDropped

/-- The counter that an output of the handler bumps, if any. An event that the pipeline
does not return was counted there. -/
def Call.incOf (call : Call π) : Output → Option Inc
  | .received => some .received
  | .dropped reason => some (.dropped (.handler reason))
  | .enriched i _ none => some (.dropped (.pipeline (call.pipelineDrop i)))
  | .accepted siteID => some (.accepted siteID)
  | .enriched _ _ (some _) | .auditHostnameUnknown _ | .setCookie _ | .appended _ _ _ _
  | .respond _ _ => none

/-- The counters that the request bumps, in order. -/
def Call.incs (call : Call π) : List Inc :=
  if call.front.corsRefuses then []
  else if call.front.method ≠ "POST" then []
  else match fastReject call.front call.r.header (call.r.header "User-Agent") with
  | some reason => [.dropped (.fastReject reason)]
  | none =>
    if !allowlisted call.front call.r && call.front.limited then [.dropped .rateLimited]
    else if call.front.degraded then [.dropped .walBackpressure]
    else (serve call.cfg call.be call.dec call.p call.r).filterMap call.incOf

instance (before after : Registry) : Decidable (Conserved before after) :=
  inferInstanceAs (Decidable (_ = _))

theorem total_bumpMap {κ : Type} [DecidableEq κ] (key : κ) (m : List (κ × ℕ)) :
    total (bumpMap key m) = total m + 1 := by
  induction m with
  | nil => rfl
  | cons kv m ih =>
    obtain ⟨k, n⟩ := kv
    rw [bumpMap]
    split
    · simp only [total]
      omega
    · simp only [total, ih]
      omega

def Inc.isReceived : Inc → Bool
  | .received => true
  | _ => false

/-- The bumps of accepted and dropped. -/
def Inc.isSettled (inc : Inc) : Bool := !inc.isReceived

private theorem incAll_received (reg : Registry) (incs : List Inc) :
    (reg.incAll incs).received = reg.received + incs.countP Inc.isReceived := by
  induction incs generalizing reg with
  | nil => rfl
  | cons inc incs ih =>
    have hrest : reg.incAll (inc :: incs) = (reg.inc inc).incAll incs := rfl
    rw [hrest, ih, List.countP_cons]
    cases inc with
    | received =>
      simp only [Registry.inc, Inc.isReceived, if_true]
      omega
    | accepted siteID => simp [Registry.inc, Inc.isReceived]
    | dropped reason => simp [Registry.inc, Inc.isReceived]

private theorem incAll_settled (reg : Registry) (incs : List Inc) :
    total (reg.incAll incs).accepted + total (reg.incAll incs).dropped =
      total reg.accepted + total reg.dropped + incs.countP Inc.isSettled := by
  induction incs generalizing reg with
  | nil => rfl
  | cons inc incs ih =>
    have hrest : reg.incAll (inc :: incs) = (reg.inc inc).incAll incs := rfl
    rw [hrest, ih, List.countP_cons]
    cases inc with
    | received => simp [Registry.inc, Inc.isSettled, Inc.isReceived]
    | accepted siteID =>
      simp only [Registry.inc, Inc.isSettled, Inc.isReceived, total_bumpMap, Bool.not_false,
        if_true]
      omega
    | dropped reason =>
      simp only [Registry.inc, Inc.isSettled, Inc.isReceived, total_bumpMap, Bool.not_false,
        if_true]
      omega

theorem conserved_incAll_iff (reg : Registry) (incs : List Inc) :
    Conserved reg (reg.incAll incs) ↔ incs.countP Inc.isReceived = incs.countP Inc.isSettled := by
  have hreceived := incAll_received reg incs
  have hsettled := incAll_settled reg incs
  rw [Conserved]
  omega

theorem Conserved.trans {a b c : Registry} (hab : Conserved a b) (hbc : Conserved b c) :
    Conserved a c := by
  rw [Conserved] at hab hbc ⊢
  omega

/-- The loop leaves at this event. -/
def leaves (cfg : Config) (be : Backend π) (r : Request) (i : ℕ) (c : String) (p : π)
    (ev : Payload) : Bool :=
  match (gate cfg r i c ev).verdict with
  | .unknownHost => true
  | .drop _ => false
  | .pass raw => !goesOn be i (be.enrich i p raw).1

private theorem filterMap_cookie (call : Call π) (m : Option String) :
    (m.map Output.setCookie).toList.filterMap call.incOf = [] := by
  cases m <;> rfl

/-- Each turn of the loop bumps one counter. -/
theorem filterMap_serveEvents_cons (call : Call π) (i : ℕ) (c : String) (p : π) (ev : Payload)
    (rest : List Payload) :
    ∃ inc c' p', inc ≠ Inc.received ∧
      (serveEvents call.cfg call.be call.r i c p (ev :: rest)).filterMap call.incOf =
        inc :: if leaves call.cfg call.be call.r i c p ev then [] else
          (serveEvents call.cfg call.be call.r (i + 1) c' p' rest).filterMap call.incOf := by
  rw [serveEvents, List.filterMap_append, filterMap_cookie, List.nil_append]
  cases hv : (gate call.cfg call.r i c ev).verdict with
  | unknownHost =>
    have hleave : leaves call.cfg call.be call.r i c p ev = true := by simp [leaves, hv]
    exact ⟨.dropped (.handler .hostnameUnknown), c, p, by simp, by simp only [hleave, if_true]; rfl⟩
  | drop reason =>
    have hstay : leaves call.cfg call.be call.r i c p ev = false := by simp [leaves, hv]
    exact ⟨.dropped (.handler reason), _, p, by simp, by simp [hstay, Call.incOf]; rfl⟩
  | pass raw =>
    have hleave : leaves call.cfg call.be call.r i c p ev =
        !goesOn call.be i (call.be.enrich i p raw).1 := by simp [leaves, hv]
    rcases hen : call.be.enrich i p raw with ⟨res, p'⟩
    rw [hleave, hen]
    cases res with
    | none =>
      exact ⟨.dropped (.pipeline (call.pipelineDrop i)), _, p', by simp,
        by simp [hen, goesOn, Call.incOf]; rfl⟩
    | some e =>
      cases hok : call.be.appendAndWait i e with
      | false =>
        exact ⟨.dropped (.handler .walSyncError), c, p', by simp,
          by
            simp only [hen, goesOn, hok, Bool.not_false, Bool.false_eq_true, if_true, if_false]
            rfl⟩
      | true =>
        exact ⟨.accepted raw.siteID, _, p', by simp,
          by simp [hen, Call.incOf, goesOn, hok]; rfl⟩

theorem isSettled_of_ne {inc : Inc} (h : inc ≠ .received) :
    inc.isReceived = false ∧ inc.isSettled = true := by
  cases inc with
  | received => exact absurd rfl h
  | accepted siteID => exact ⟨rfl, rfl⟩
  | dropped reason => exact ⟨rfl, rfl⟩

/-- The loop counts nothing as received. -/
theorem countP_received_serveEvents (call : Call π) (i : ℕ) (c : String) (p : π)
    (evs : List Payload) :
    ((serveEvents call.cfg call.be call.r i c p evs).filterMap call.incOf).countP
      Inc.isReceived = 0 := by
  induction evs generalizing i c p with
  | nil => rfl
  | cons ev rest ih =>
    obtain ⟨inc, c', p', hne, hout⟩ := filterMap_serveEvents_cons call i c p ev rest
    rw [hout, List.countP_cons, (isSettled_of_ne hne).1]
    split
    · rfl
    · simpa using ih (i + 1) c' p'

/-- A nonempty loop settles one event, or more. -/
theorem countP_settled_serveEvents (call : Call π) (i : ℕ) (c : String) (p : π) (ev : Payload)
    (rest : List Payload) :
    ((serveEvents call.cfg call.be call.r i c p (ev :: rest)).filterMap call.incOf).countP
        Inc.isSettled = 1 ↔
      rest = [] ∨ leaves call.cfg call.be call.r i c p ev = true := by
  obtain ⟨inc, c', p', hne, hout⟩ := filterMap_serveEvents_cons call i c p ev rest
  rw [hout, List.countP_cons, (isSettled_of_ne hne).2]
  cases hleave : leaves call.cfg call.be call.r i c p ev with
  | true => simp
  | false =>
    cases rest with
    | nil =>
      have hnil : (serveEvents call.cfg call.be call.r (i + 1) c' p' []).filterMap call.incOf =
          [] := rfl
      simp [hnil]
    | cons ev' rest' =>
      obtain ⟨inc', c'', p'', hne', hout'⟩ :=
        filterMap_serveEvents_cons call (i + 1) c' p' ev' rest'
      simp [hout', (isSettled_of_ne hne').2]

/-- The handler settles exactly what it counted as received: nothing but the body's shape, or
one event. -/
def SettlesOne (call : Call π) : Prop :=
  match parseBody call.dec call.r.body with
  | .error _ | .ok [] => True
  | .ok (ev :: rest) => rest = [] ∨ leaves call.cfg call.be call.r 0 "" call.p ev = true

/-- The gates before the handler drop nothing, or do not count it. -/
def Counted (call : Call π) : Prop :=
  call.front.corsRefuses = true ∨ call.front.method ≠ "POST" ∨
    fastReject call.front call.r.header (call.r.header "User-Agent") = none ∧
      (allowlisted call.front call.r = true ∨ call.front.limited = false) ∧
      call.front.degraded = false ∧ SettlesOne call

private theorem serve_balanced_iff (call : Call π) :
    (((serve call.cfg call.be call.dec call.p call.r).filterMap call.incOf).countP
        Inc.isReceived =
      ((serve call.cfg call.be call.dec call.p call.r).filterMap call.incOf).countP
        Inc.isSettled) ↔ SettlesOne call := by
  rw [serve, SettlesOne]
  cases parseBody call.dec call.r.body with
  | error err => simp only [iff_true]; rfl
  | ok evs =>
    cases evs with
    | nil => simp only [iff_true]; rfl
    | cons ev rest =>
      have hout : (Output.received :: serveEvents call.cfg call.be call.r 0 "" call.p
          (ev :: rest)).filterMap call.incOf = Inc.received ::
            (serveEvents call.cfg call.be call.r 0 "" call.p (ev :: rest)).filterMap call.incOf :=
        rfl
      have hreceived := countP_received_serveEvents call 0 "" call.p (ev :: rest)
      have hsettled := countP_settled_serveEvents call 0 "" call.p ev rest
      simp only [hout, List.countP_cons, Inc.isReceived, Inc.isSettled] at hreceived hsettled ⊢
      rw [← hsettled]
      simp only [if_true, Bool.not_true, Bool.false_eq_true, if_false]
      omega

theorem balanced_iff (call : Call π) :
    call.incs.countP Inc.isReceived = call.incs.countP Inc.isSettled ↔ Counted call := by
  rw [Call.incs, Counted]
  split
  · simp [*]
  · split
    · simp [*]
    · rename_i hcors hpost
      simp only [hcors, hpost, false_or]
      cases hfast : fastReject call.front call.r.header (call.r.header "User-Agent") with
      | some reason => simp [Inc.isReceived, Inc.isSettled]
      | none =>
        simp only [true_and]
        cases allowlisted call.front call.r <;> cases call.front.limited <;>
          cases call.front.degraded <;>
          simp [Inc.isReceived, Inc.isSettled, serve_balanced_iff]

/-- The bumps of the calls, one after the other. -/
def runCalls (reg : Registry) (calls : List (Call π)) : Registry :=
  calls.foldl (fun reg call => reg.incAll call.incs) reg

private theorem conserved_runCalls (reg : Registry) (calls : List (Call π))
    (h : ∀ call ∈ calls, Counted call) : Conserved reg (runCalls reg calls) := by
  induction calls generalizing reg with
  | nil => rfl
  | cons call rest ih =>
    have hone : Conserved reg (reg.incAll call.incs) :=
      (conserved_incAll_iff reg call.incs).mpr ((balanced_iff call).mpr (h call (by simp)))
    exact hone.trans (ih _ (fun c hc => h c (List.mem_cons_of_mem _ hc)))

/-- For every request: received grows by what accepted and dropped grow by exactly when no
gate before the handler counts a drop and the handler settles one event; and then so do the
totals over every run. -/
theorem conserved_iff (call : Call π) (reg : Registry) :
    (Conserved reg (reg.incAll call.incs) ↔ Counted call) ∧
      ∀ calls : List (Call π), (∀ call ∈ calls, Counted call) →
        Conserved reg (runCalls reg calls) :=
  ⟨(conserved_incAll_iff reg call.incs).trans (balanced_iff call), conserved_runCalls reg⟩

def pairDecoder : Decoder :=
  ⟨fun _ => some [{ hostname := "one" }, { hostname := "one" }], fun _ => none⟩

def pairCall : Call (State (List VisitorHash)) where
  cfg := sampleConfig
  be := samplePipeline.backend (fun _ => {}) (fun _ _ => true)
  dec := pairDecoder
  p := { bits := [] }
  r := { sampleVisit with body := .ok [0x5B, 0x5D] }

def singleCall : Call (State (List VisitorHash)) :=
  { pairCall with r := sampleVisit, dec := ⟨fun _ => none, fun _ => some { hostname := "one" }⟩ }

theorem conserved_iff_singleCall :
    (Conserved {} (Registry.incAll {} singleCall.incs) ↔ Counted singleCall) ∧
      Conserved {} (runCalls {} [singleCall]) := by
  have hcounted : Counted singleCall := .inr (.inr ⟨by decide, by decide, by decide, .inl rfl⟩)
  exact ⟨(conserved_iff singleCall {}).1, (conserved_iff singleCall {}).2 [singleCall] (by simpa)⟩

/-- Both events are accepted, and one was received. -/
theorem pair_not_conserved :
    Registry.incAll {} pairCall.incs = { received := 1, accepted := [(1, 2)] } ∧
      ¬ Conserved {} (Registry.incAll {} pairCall.incs) := by
  have hinc : Registry.incAll {} pairCall.incs = { received := 1, accepted := [(1, 2)] } := by
    decide
  refine ⟨hinc, ?_⟩
  rw [hinc]
  decide

end Statnive.IngestFunnel
