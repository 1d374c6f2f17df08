import Statnive.EventSanitize
import Statnive.VisitorIdentity

/-!
# The ingest handler

`serve` for `POST /api/event`: the body is parsed, and each event passes the gates of its
own site before it is enriched and appended to the log. One cookie id is shared by the
events of a request. What other parties may change meanwhile (the site registry, the
suppression list, the consent window, the pipeline, the log) is asked by the position of
the event.
-/

namespace Statnive.IngestHandler

open IngestEvents PrivacyPolicy VisitorIdentity EventSanitize

def maxArrayItems : ℕ := 10

inductive ParseError where
  | tooLarge | read | empty | decode | tooMany | shape
  deriving DecidableEq

/-- The two targets of the JSON decoder. -/
structure Decoder where
  array : Bytes → Option (List Payload)
  object : Bytes → Option Payload

def isJSONSpace (b : UInt8) : Bool := b = 0x20 || b = 0x09 || b = 0x0D || b = 0x0A

def parseBody (dec : Decoder) : Except ReadError Bytes → Except ParseError (List Payload)
  | .error .tooLarge => .error .tooLarge
  | .error .other => .error .read
  | .ok body => match body.dropWhile isJSONSpace with
    | [] => .error .empty
    | b :: _ =>
      if b = 0x5B then match dec.array body with
        | none => .error .decode
        | some arr => if maxArrayItems < arr.length then .error .tooMany else .ok arr
      else if b = 0x7B then match dec.object body with
        | none => .error .decode
        | some ev => .ok [ev]
      else .error .shape

def parseErrorReason : ParseError → Reason
  | .tooLarge => .payloadTooLarge
  | _ => .jsonInvalid

/-- `unicode.IsSpace`. -/
def isSpace (c : Char) : Bool :=
  [0x09, 0x0A, 0x0B, 0x0C, 0x0D, 0x20, 0x85, 0xA0, 0x1680, 0x2028, 0x2029, 0x202F, 0x205F,
    0x3000].contains c.toNat || (0x2000 ≤ c.toNat && c.toNat ≤ 0x200A)

def trimSpace (s : String) : String :=
  String.ofList ((s.toList.dropWhile isSpace).reverse.dropWhile isSpace).reverse

/-- `net.SplitHostPort`, of which only the host is used. -/
def splitHost (hostport : List Char) : Option (List Char) :=
  match hostport with
  | '[' :: rest =>
    let host := rest.takeWhile (· ≠ ']')
    match rest.dropWhile (· ≠ ']') with
    | ']' :: ':' :: port =>
      if port.any (fun c => c = ':' || c = '[' || c = ']') || host.contains '[' then none
      else some host
    | _ => none
  | _ =>
    let host := hostport.takeWhile (· ≠ ':')
    match hostport.dropWhile (· ≠ ':') with
    | _ :: port =>
      if port.contains ':' || hostport.contains '[' || hostport.contains ']' then none
      else some host
    | [] => none

def lastField (s : String) : String :=
  String.ofList (s.toList.reverse.takeWhile (· ≠ ',')).reverse

def clientIP (r : Request) : String :=
  let direct := (["True-Client-IP", "CF-Connecting-IP", "X-Real-IP"].map
    (fun key => trimSpace (r.header key))).find? (· ≠ "")
  match direct with
  | some v => v
  | none =>
    let last := trimSpace (lastField (r.header "X-Forwarded-For"))
    if last ≠ "" then last
    else match splitHost r.remoteAddr.toList with
      | some host => String.ofList host
      | none => r.remoteAddr

/-- `uuid.NewString` never returns an empty string. -/
abbrev UUID := { s : String // s ≠ "" }

/-- `mode = none` is a nil resolver; otherwise it is `PolicyToMode`, and `mode i` says
whether the window for the legacy consent cookie is open at the `i`-th event. -/
structure Config where
  key : Keyed
  now : ℤ := 0
  consentRequired : Bool := true
  lookupSitePolicy : ℕ → String → Option (ℕ × SitePolicy)
  suppression : Option (ℕ → String → Bool) := none
  mode : Option (ℕ → Bool) := none
  newUUID : ℕ → UUID

def Config.hashIdentity (cfg : Config) : Bool := decide (0 < cfg.key.masterSecret.length)

def Config.modeFor (cfg : Config) (r : Request) (i siteID : ℕ) (policy : SitePolicy) :
    Option Mode :=
  cfg.mode.map (fun dualRead => policyToMode (dualRead i) r siteID policy)

def eventNameFor (e : Payload) : String := if e.eventName ≠ "" then e.eventName else e.eventType

def eventNameAllowed (name : String) (allowlist : List String) : Bool :=
  if allowlist.length = 0 then true else allowlist.any (fun a => a = name)

def isOptedOut (r : Request) (siteID : ℕ) (cookieIDHash : String)
    (supp : Option (String → Bool)) : Bool :=
  if hasOptOutCookie r siteID then true
  else match supp with
    | none => false
    | some isSuppressed => cookieIDHash ≠ "" && isSuppressed cookieIDHash

/-- The existing cookie, or a fresh one together with the `Set-Cookie` it causes. -/
def readOrSetCookieID (r : Request) (uuid : UUID) : String × Option String :=
  match r.cookie cookieName with
  | some v => if v ≠ "" then (v, none) else (uuid, some uuid)
  | none => (uuid, some uuid)

def allowIdentity (cfg : Config) (r : Request) (i siteID : ℕ) (policy : SitePolicy) : Bool :=
  !consentDenied r policy && (!cfg.consentRequired || consentGiven r) &&
    match cfg.modeFor r i siteID policy with
    | none => true
    | some mode => mode.allowsIdentifier

/-- The event-allowlist gate refuses the event. -/
def refusedByAllowlist (cfg : Config) (r : Request) (i siteID : ℕ) (policy : SitePolicy)
    (raw : RawEvent) : Bool :=
  match cfg.modeFor r i siteID policy with
  | none => false
  | some mode => mode.enforcesEventAllowlist &&
      !eventNameAllowed (eventNameFor raw.toPayload) policy.eventAllowlist

/-- The event as `serve` fills it in before it is validated. -/
def rawEvent (cfg : Config) (r : Request) (siteID : ℕ) (policy : SitePolicy) (ev : Payload) :
    RawEvent :=
  { ev with
    tsUTC := cfg.now
    userAgent := r.header "User-Agent"
    ip := clientIP r
    siteID := siteID
    tz := policy.tz }

inductive Verdict where
  | unknownHost
  | drop (reason : Reason)
  | pass (raw : RawEvent)
  deriving DecidableEq

/-- What the gates make of an event: the verdict, the cookie id from then on, and the
cookie that was set. -/
structure Gated where
  verdict : Verdict
  cookieID : String
  minted : Option String := none
  deriving DecidableEq

/-- What becomes of `raw.CookieID`. -/
def cookieHash (cfg : Config) (siteID : ℕ) (cookieID : String) : String :=
  if cfg.hashIdentity && cookieID ≠ "" then hexCookieIDHash cfg.key siteID cookieID else ""

/-- The gates that read the cookie id, on an event that has been validated. -/
def identityGates (cfg : Config) (r : Request) (i siteID : ℕ) (policy : SitePolicy)
    (cookieID : String) (raw : RawEvent) : Verdict :=
  if isOptedOut r siteID (cookieHash cfg siteID cookieID) (cfg.suppression.map (fun s => s i)) then
    .drop .optedOut
  else if refusedByAllowlist cfg r i siteID policy raw then .drop .eventNotAllowed
  else
    .pass { raw with
      cookieID := cookieHash cfg siteID cookieID
      userIDHash :=
        if cfg.hashIdentity && allowIdentity cfg r i siteID policy && raw.userID ≠ "" then
          hexUserIDHash cfg.key siteID raw.userID
        else raw.userIDHash
      userID := ""
      trackBots := policy.trackBots }

/-- The body of the events loop up to `Pipeline.Enrich`. -/
def gate (cfg : Config) (r : Request) (i : ℕ) (cookieID : String) (ev : Payload) : Gated :=
  match cfg.lookupSitePolicy i ev.hostname with
  | none => ⟨.unknownHost, cookieID, none⟩
  | some (siteID, policy) =>
    match validateAndSanitize (rawEvent cfg r siteID policy ev) with
    | .error reason => ⟨.drop reason, cookieID, none⟩
    | .ok raw =>
      if allowIdentity cfg r i siteID policy && cookieID = "" then
        let c := readOrSetCookieID r (cfg.newUUID i)
        ⟨identityGates cfg r i siteID policy c.1 raw, c.1, c.2⟩
      else ⟨identityGates cfg r i siteID policy cookieID raw, cookieID, none⟩

theorem cookieHash_eq_empty_iff (cfg : Config) (siteID : ℕ) (c : String) :
    cookieHash cfg siteID c = "" ↔ cfg.hashIdentity = false ∨ c = "" := by
  unfold cookieHash
  cases cfg.hashIdentity with
  | false => simp
  | true => by_cases hc : c = "" <;> simp [hc, hexCookieIDHash_eq_empty_iff]

/-- The pipeline with its state, and whether `AppendAndWait` returns nil. -/
structure Backend (π : Type) where
  enrich : ℕ → π → RawEvent → Option EnrichedEvent × π
  appendAndWait : ℕ → EnrichedEvent → Bool

/-- What `serve` does, in order. -/
inductive Output where
  | received
  | auditHostnameUnknown (hostname : String)
  | dropped (reason : Reason)
  | setCookie (id : String)
  | enriched (i : ℕ) (raw : RawEvent) (result : Option EnrichedEvent)
  | appended (i siteID : ℕ) (e : EnrichedEvent) (ok : Bool)
  | accepted (siteID : ℕ)
  | respond (status : ℕ) (body : String)
  deriving DecidableEq

variable {π : Type}

def serveEvents (cfg : Config) (be : Backend π) (r : Request) :
    ℕ → String → π → List Payload → List Output
  | _, _, _, [] => [.respond 202 ""]
  | i, cookieID, p, ev :: rest =>
    let g := gate cfg r i cookieID ev
    (g.minted.map Output.setCookie).toList ++ match g.verdict with
    | .unknownHost =>
      [.auditHostnameUnknown ev.hostname, .dropped .hostnameUnknown, .respond 204 ""]
    | .drop reason => .dropped reason :: serveEvents cfg be r (i + 1) g.cookieID p rest
    | .pass raw => match be.enrich i p raw with
      | (none, p') => .enriched i raw none :: serveEvents cfg be r (i + 1) g.cookieID p' rest
      | (some e, p') =>
        .enriched i raw (some e) :: .appended i raw.siteID e (be.appendAndWait i e) ::
          if be.appendAndWait i e then
            .accepted raw.siteID :: serveEvents cfg be r (i + 1) g.cookieID p' rest
          else [.dropped .walSyncError, .respond 503 "service unavailable"]

def serve (cfg : Config) (be : Backend π) (dec : Decoder) (p : π) (r : Request) : List Output :=
  .received :: match parseBody dec r.body with
  | .error e => [.dropped (parseErrorReason e), .respond 400 "bad request"]
  | .ok [] => [.dropped .emptyBody, .respond 204 ""]
  | .ok evs => serveEvents cfg be r 0 "" p evs

/-- The event passes the validation of a site that allows the visitor to be identified. -/
def identified (cfg : Config) (r : Request) (i : ℕ) (ev : Payload) : Bool :=
  match cfg.lookupSitePolicy i ev.hostname with
  | none => false
  | some (siteID, policy) =>
    match validateAndSanitize (rawEvent cfg r siteID policy ev) with
    | .error _ => false
    | .ok _ => allowIdentity cfg r i siteID policy

/-- Some event of `evs` before position `k` is identified; the first of them is the
`i`-th event of the request. -/
def IdentifiedBefore (cfg : Config) (r : Request) (i : ℕ) (evs : List Payload) (k : ℕ) : Prop :=
  ∃ m < k, ∃ ev, evs[m]? = some ev ∧ identified cfg r (i + m) ev = true

/-- The cookie id with which the loop reaches position `k` of `evs`. -/
def cookieAt (cfg : Config) (r : Request) : ℕ → String → List Payload → ℕ → String
  | _, c, _, 0 => c
  | _, c, [], _ + 1 => c
  | i, c, ev :: rest, k + 1 => cookieAt cfg r (i + 1) (gate cfg r i c ev).cookieID rest k

private theorem readOrSetCookieID_ne (r : Request) (uuid : UUID) :
    (readOrSetCookieID r uuid).1 ≠ "" := by
  unfold readOrSetCookieID
  split
  · split
    · assumption
    · exact uuid.2
  · exact uuid.2

private theorem readOrSetCookieID_eq {r : Request} {v : String} (h : r.cookie cookieName = some v)
    (hne : v ≠ "") (uuid : UUID) : readOrSetCookieID r uuid = (v, none) := by
  simp [readOrSetCookieID, h, hne]

theorem gate_cookieID (cfg : Config) (r : Request) (i : ℕ) (c : String) (ev : Payload) :
    (gate cfg r i c ev).cookieID =
      if identified cfg r i ev = true ∧ c = "" then (readOrSetCookieID r (cfg.newUUID i)).1
      else c := by
  unfold gate identified
  cases hl : cfg.lookupSitePolicy i ev.hostname with
  | none => simp
  | some sp =>
    obtain ⟨siteID, policy⟩ := sp
    cases hv : validateAndSanitize (rawEvent cfg r siteID policy ev) with
    | error reason => simp [hv]
    | ok raw =>
      by_cases h : allowIdentity cfg r i siteID policy = true ∧ c = ""
      · simp [hv, h]
      · simp [hv, h]

private theorem identifiedBefore_zero (cfg : Config) (r : Request) (i : ℕ) (evs : List Payload) :
    ¬ IdentifiedBefore cfg r i evs 0 := by
  rintro ⟨m, hm, -⟩
  omega

theorem identifiedBefore_cons (cfg : Config) (r : Request) (i : ℕ) (ev : Payload)
    (rest : List Payload) (k : ℕ) :
    IdentifiedBefore cfg r i (ev :: rest) (k + 1) ↔
      identified cfg r i ev = true ∨ IdentifiedBefore cfg r (i + 1) rest k := by
  constructor
  · rintro ⟨m, hm, e, he, hid⟩
    cases m with
    | zero =>
      obtain rfl : ev = e := by simpa using he
      exact .inl hid
    | succ m =>
      refine .inr ⟨m, by omega, e, by simpa using he, ?_⟩
      rwa [Nat.add_assoc, Nat.add_comm 1 m]
  · rintro (hid | ⟨m, hm, e, he, hid⟩)
    · exact ⟨0, by omega, ev, rfl, hid⟩
    · refine ⟨m + 1, by omega, e, by simpa using he, ?_⟩
      rwa [Nat.add_assoc, Nat.add_comm 1 m] at hid

/-- The loop carries a cookie id from the first identified event on. -/
theorem cookieAt_ne_iff (cfg : Config) (r : Request) (i : ℕ) (c : String) (evs : List Payload)
    (k : ℕ) : cookieAt cfg r i c evs k ≠ "" ↔ c ≠ "" ∨ IdentifiedBefore cfg r i evs k := by
  induction evs generalizing i c k with
  | nil =>
    have hnone : ¬ IdentifiedBefore cfg r i [] k := by
      rintro ⟨m, -, e, he, -⟩
      simp at he
    cases k <;> simp [cookieAt, hnone]
  | cons ev rest ih =>
    cases k with
    | zero => simp [cookieAt, identifiedBefore_zero]
    | succ k =>
      rw [cookieAt, ih, gate_cookieID, identifiedBefore_cons, ← or_assoc]
      apply or_congr_left
      have hset := readOrSetCookieID_ne r (cfg.newUUID i)
      by_cases hc : c = "" <;> by_cases hid : identified cfg r i ev = true <;> simp [hc, hid, hset]

/-- With a cookie in the request, that is the cookie id carried. -/
theorem cookieAt_eq {cfg : Config} {r : Request} {v : String} (h : r.cookie cookieName = some v)
    (hne : v ≠ "") (i : ℕ) (c : String) (hc : c = "" ∨ c = v) (evs : List Payload) (k : ℕ) :
    cookieAt cfg r i c evs k = "" ∨ cookieAt cfg r i c evs k = v := by
  induction evs generalizing i c k with
  | nil => cases k <;> exact hc
  | cons ev rest ih =>
    cases k with
    | zero => exact hc
    | succ k =>
      refine ih (i + 1) _ ?_ k
      rw [gate_cookieID, readOrSetCookieID_eq h hne]
      split
      · exact .inr rfl
      · exact hc

/-- The loop goes on after the pipeline returned `res`. -/
def goesOn (be : Backend π) (i : ℕ) : Option EnrichedEvent → Bool
  | none => true
  | some e => be.appendAndWait i e

theorem not_mem_setCookie {o : Output} (ho : ∀ id, o ≠ .setCookie id) (m : Option String) :
    o ∉ (m.map Output.setCookie).toList := by
  cases m with
  | none => simp
  | some id => simpa using ho id

/-- An event reaches the pipeline first, or after the loop went on. -/
theorem enriched_mem_cons {cfg : Config} {be : Backend π} {r : Request} {i j : ℕ} {c : String}
    {p : π} {ev : Payload} {rest : List Payload} {raw : RawEvent} {res : Option EnrichedEvent} :
    .enriched j raw res ∈ serveEvents cfg be r i c p (ev :: rest) ↔
      match (gate cfg r i c ev).verdict with
      | .unknownHost => False
      | .drop _ => .enriched j raw res ∈
          serveEvents cfg be r (i + 1) (gate cfg r i c ev).cookieID p rest
      | .pass raw' => j = i ∧ raw = raw' ∧ res = (be.enrich i p raw').1 ∨
          goesOn be i (be.enrich i p raw').1 = true ∧ .enriched j raw res ∈
            serveEvents cfg be r (i + 1) (gate cfg r i c ev).cookieID (be.enrich i p raw').2
              rest := by
  have hset : .enriched j raw res ∉ ((gate cfg r i c ev).minted.map Output.setCookie).toList :=
    not_mem_setCookie (by simp) _
  simp only [serveEvents, List.mem_append, hset, false_or]
  cases (gate cfg r i c ev).verdict with
  | unknownHost => simp
  | drop reason => simp
  | pass raw' =>
    rcases hen : be.enrich i p raw' with ⟨result, p'⟩
    cases result with
    | none => simp [hen, goesOn]
    | some e => cases hok : be.appendAndWait i e <;> simp [hen, goesOn, hok]

/-- What is appended is what the pipeline returned. -/
theorem appended_mem_iff {cfg : Config} {be : Backend π} {r : Request} {i j siteID : ℕ}
    {c : String} {p : π} {evs : List Payload} {e : EnrichedEvent} {ok : Bool} :
    .appended j siteID e ok ∈ serveEvents cfg be r i c p evs ↔
      ok = be.appendAndWait j e ∧
        ∃ raw, raw.siteID = siteID ∧ .enriched j raw (some e) ∈ serveEvents cfg be r i c p evs := by
  induction evs generalizing i c p with
  | nil => simp [serveEvents]
  | cons ev rest ih =>
    have hset : .appended j siteID e ok ∉
        ((gate cfg r i c ev).minted.map Output.setCookie).toList := not_mem_setCookie (by simp) _
    simp only [enriched_mem_cons]
    simp only [serveEvents, List.mem_append, hset, false_or]
    cases (gate cfg r i c ev).verdict with
    | unknownHost => simp
    | drop reason => simpa using ih
    | pass raw' =>
      rcases hen : be.enrich i p raw' with ⟨result, p'⟩
      cases result with
      | none => simpa [hen, goesOn] using ih
      | some e' =>
        cases hok : be.appendAndWait i e' with
        | false =>
          simp only [hen, hok, goesOn, List.mem_cons, reduceCtorEq, false_or, List.not_mem_nil,
            or_false, Bool.false_eq_true, if_false, false_and, Output.appended.injEq,
            Option.some.injEq]
          grind
        | true =>
          simp only [hen, hok, goesOn, List.mem_cons, reduceCtorEq, false_or, if_true, true_and,
            Output.appended.injEq, Option.some.injEq, ih]
          grind

/-- An event that reached the pipeline passed its gates with the cookie id carried to it. -/
theorem enriched_of_mem {cfg : Config} {be : Backend π} {r : Request} {i j : ℕ} {c : String}
    {p : π} {evs : List Payload} {raw : RawEvent} {res : Option EnrichedEvent}
    (h : .enriched j raw res ∈ serveEvents cfg be r i c p evs) :
    ∃ k ev, j = i + k ∧ evs[k]? = some ev ∧
      (gate cfg r j (cookieAt cfg r i c evs k) ev).verdict = .pass raw := by
  induction evs generalizing i c p with
  | nil => simp [serveEvents] at h
  | cons ev rest ih =>
    have hlater : ∀ {p'}, .enriched j raw res ∈
        serveEvents cfg be r (i + 1) (gate cfg r i c ev).cookieID p' rest →
        ∃ k e, j = i + k ∧ (ev :: rest)[k]? = some e ∧
          (gate cfg r j (cookieAt cfg r i c (ev :: rest) k) e).verdict = .pass raw := by
      intro p' hm
      obtain ⟨k, e, hj, he, hv⟩ := ih hm
      exact ⟨k + 1, e, by omega, by simpa using he, hv⟩
    rw [enriched_mem_cons] at h
    cases hv : (gate cfg r i c ev).verdict with
    | unknownHost => simp [hv] at h
    | drop reason =>
      simp only [hv] at h
      exact hlater h
    | pass raw' =>
      simp only [hv] at h
      rcases h with ⟨rfl, rfl, -⟩ | ⟨-, h⟩
      · exact ⟨0, ev, rfl, rfl, hv⟩
      · exact hlater h

/-- The loop runs over a body that parses. -/
theorem mem_serve_iff {cfg : Config} {be : Backend π} {dec : Decoder} {p : π} {r : Request}
    {j : ℕ} {raw : RawEvent} {res : Option EnrichedEvent} :
    .enriched j raw res ∈ serve cfg be dec p r ↔
      ∃ evs, parseBody dec r.body = .ok evs ∧
        .enriched j raw res ∈ serveEvents cfg be r 0 "" p evs := by
  unfold serve
  cases parseBody dec r.body with
  | error e => simp
  | ok evs =>
    cases evs with
    | nil => simp [serveEvents]
    | cons ev rest => simp

/-- A pipeline that keeps every event, before a log that accepts every row. -/
def copyPipeline : Backend Unit where
  enrich _ p raw := (some { siteID := raw.siteID, cookieID := raw.cookieID }, p)
  appendAndWait _ _ := true

def sampleUUID : UUID := ⟨"00000000-0000-4000-8000-000000000000", by decide⟩

end Statnive.IngestHandler
