import Statnive.IngestHandler

/-!
# The hash opt-out

The suppression list is asked for the hash of the cookie id that the loop carries, which
is empty until some event of the request has been identified.
-/

namespace Statnive.HashOptOut

open IngestEvents PrivacyPolicy VisitorIdentity EventSanitize IngestHandler

/-- The sites of all earlier events are known, so that the loop can come to position `j`. -/
def Reached (cfg : Config) (i : ℕ) (evs : List Payload) (j : ℕ) : Prop :=
  ∀ m < j, ∀ ev, evs[m]? = some ev → cfg.lookupSitePolicy (i + m) ev.hostname ≠ none

/-- The event is of the site, valid, and neither the opt-out cookie nor the allow-list
refuses it. -/
def Unblocked (cfg : Config) (r : Request) (siteID i : ℕ) (ev : Payload) : Prop :=
  ∃ policy raw, cfg.lookupSitePolicy i ev.hostname = some (siteID, policy) ∧
    validateAndSanitize (rawEvent cfg r siteID policy ev) = .ok raw ∧
    hasOptOutCookie r siteID = false ∧ refusedByAllowlist cfg r i siteID policy raw = false

private theorem siteID_of_validate {cfg : Config} {r : Request} {siteID : ℕ} {policy : SitePolicy}
    {ev : Payload} {raw : RawEvent}
    (h : validateAndSanitize (rawEvent cfg r siteID policy ev) = .ok raw) :
    raw.siteID = siteID := by
  unfold validateAndSanitize at h
  split at h
  · simp at h
  · cases h
    rfl

/-- The identity gates see the cookie id with which the loop goes on. -/
theorem gate_verdict {cfg : Config} {r : Request} {i : ℕ} {c : String} {ev : Payload}
    {siteID : ℕ} {policy : SitePolicy} {raw : RawEvent}
    (hl : cfg.lookupSitePolicy i ev.hostname = some (siteID, policy))
    (hv : validateAndSanitize (rawEvent cfg r siteID policy ev) = .ok raw) :
    (gate cfg r i c ev).verdict =
      identityGates cfg r i siteID policy (gate cfg r i c ev).cookieID raw := by
  simp only [gate, hl, hv]
  split <;> rfl

theorem gate_unknown_iff {cfg : Config} {r : Request} {i : ℕ} {c : String} {ev : Payload} :
    (gate cfg r i c ev).verdict = .unknownHost ↔ cfg.lookupSitePolicy i ev.hostname = none := by
  cases hl : cfg.lookupSitePolicy i ev.hostname with
  | none => simp [gate, hl]
  | some sp =>
    obtain ⟨siteID, policy⟩ := sp
    cases hv : validateAndSanitize (rawEvent cfg r siteID policy ev) with
    | error reason => simp [gate, hl, hv]
    | ok raw =>
      rw [gate_verdict hl hv]
      unfold identityGates
      split
      · simp
      · split <;> simp

private theorem cookieAt_succ
    {cfg : Config} {r : Request} {evs : List Payload} {k : ℕ} {ev : Payload}
    (h : evs[k]? = some ev) (i : ℕ) (c : String) :
    cookieAt cfg r i c evs (k + 1) =
      (gate cfg r (i + k) (cookieAt cfg r i c evs k) ev).cookieID := by
  induction evs generalizing i c k with
  | nil => simp at h
  | cons e rest ih =>
    cases k with
    | zero =>
      obtain rfl : e = ev := by simpa using h
      cases rest <;> rfl
    | succ k =>
      have hstep := ih (k := k) (by simpa using h) (i + 1) (gate cfg r i c e).cookieID
      have hidx : i + 1 + k = i + (k + 1) := by omega
      rw [hidx] at hstep
      exact hstep

theorem identityGates_pass_iff {cfg : Config} {r : Request} {i siteID site : ℕ}
    {policy : SitePolicy} {c : String} {raw : RawEvent} :
    (∃ raw', identityGates cfg r i siteID policy c raw = .pass raw' ∧ raw'.siteID = site) ↔
      raw.siteID = site ∧ refusedByAllowlist cfg r i siteID policy raw = false ∧
        isOptedOut r siteID (cookieHash cfg siteID c) (cfg.suppression.map (fun s => s i)) =
          false := by
  unfold identityGates
  split
  · simp [*]
  · split <;> simp [*]

theorem isOptedOut_false_iff {cfg : Config} {r : Request} {siteID i : ℕ} {hash : String} :
    isOptedOut r siteID hash (cfg.suppression.map (fun s => s i)) = false ↔
      hasOptOutCookie r siteID = false ∧
        ∀ supp, cfg.suppression = some supp → hash = "" ∨ supp i hash = false := by
  unfold isOptedOut
  cases hopt : hasOptOutCookie r siteID with
  | true => simp
  | false =>
    cases cfg.suppression with
    | none => simp
    | some supp => by_cases hh : hash = "" <;> simp [hh]

/-- An event of the site passes exactly when nothing blocks it and the hash that the list
is asked for is not suppressed. -/
theorem pass_iff {cfg : Config} {r : Request} {i siteID : ℕ} {c : String} {ev : Payload} :
    (∃ raw, (gate cfg r i c ev).verdict = .pass raw ∧ raw.siteID = siteID) ↔
      Unblocked cfg r siteID i ev ∧ ∀ supp, cfg.suppression = some supp →
        cookieHash cfg siteID (gate cfg r i c ev).cookieID = "" ∨
          supp i (cookieHash cfg siteID (gate cfg r i c ev).cookieID) = false := by
  cases hl : cfg.lookupSitePolicy i ev.hostname with
  | none => simp [gate, Unblocked, hl]
  | some sp =>
    obtain ⟨site, policy⟩ := sp
    cases hv : validateAndSanitize (rawEvent cfg r site policy ev) with
    | error reason =>
      have hnot : ¬ Unblocked cfg r siteID i ev := by
        rintro ⟨policy', raw, hl', hv', -⟩
        cases hl.symm.trans hl'
        simp [hv] at hv'
      simp [gate, hl, hv, hnot]
    | ok raw =>
      have hsite := siteID_of_validate hv
      rw [gate_verdict hl hv, identityGates_pass_iff, isOptedOut_false_iff, hsite]
      constructor
      · rintro ⟨rfl, href, hopt, hsupp⟩
        exact ⟨⟨policy, raw, hl, hv, hopt, href⟩, hsupp⟩
      · rintro ⟨⟨policy', raw', hl', hv', hopt, href⟩, hsupp⟩
        cases hl.symm.trans hl'
        cases hv.symm.trans hv'
        exact ⟨rfl, href, hopt, hsupp⟩

/-- For a request with a suppressed cookie, the list refuses an event exactly when
cookies are hashed and somebody has been identified by then. -/
theorem pass_iff_of_suppressed {cfg : Config} {r : Request} {siteID : ℕ} {v : String}
    {supp : ℕ → String → Bool} (hcookie : r.cookie cookieName = some v) (hne : v ≠ "")
    (hsupp : cfg.suppression = some supp)
    (hlist : ∀ i, supp i (hexCookieIDHash cfg.key siteID v) = true)
    {evs : List Payload} {j : ℕ} {ev : Payload} (hev : evs[j]? = some ev) :
    (∃ raw, (gate cfg r j (cookieAt cfg r 0 "" evs j) ev).verdict = .pass raw ∧
        raw.siteID = siteID) ↔
      Unblocked cfg r siteID j ev ∧
        ¬ (cfg.hashIdentity = true ∧ IdentifiedBefore cfg r 0 evs (j + 1)) := by
  have hnext : cookieAt cfg r 0 "" evs (j + 1) =
      (gate cfg r (0 + j) (cookieAt cfg r 0 "" evs j) ev).cookieID := cookieAt_succ hev 0 ""
  rw [Nat.zero_add] at hnext
  have hiff := cookieAt_ne_iff cfg r 0 "" evs (j + 1)
  simp only [ne_eq, not_true_eq_false, false_or] at hiff
  have hval : cookieAt cfg r 0 "" evs (j + 1) = "" ∨ cookieAt cfg r 0 "" evs (j + 1) = v :=
    cookieAt_eq hcookie hne 0 "" (.inl rfl) evs (j + 1)
  rw [pass_iff, ← hnext]
  refine and_congr_right (fun _ => ?_)
  constructor
  · rintro hs ⟨hhash, hid⟩
    have hv : cookieAt cfg r 0 "" evs (j + 1) = v := hval.resolve_left (hiff.mpr hid)
    have hh : cookieHash cfg siteID v = hexCookieIDHash cfg.key siteID v := by
      simp [cookieHash, hhash, hne]
    rcases hs supp hsupp with hempty | hfalse
    · rw [hv, hh, hexCookieIDHash_eq_empty_iff] at hempty
      exact hne hempty
    · rw [hv, hh, hlist j] at hfalse
      simp at hfalse
  · intro hn supp' _
    refine .inl ((cookieHash_eq_empty_iff _ _ _).mpr ?_)
    cases hhash : cfg.hashIdentity with
    | false => exact .inl rfl
    | true =>
      by_contra hc
      exact hn ⟨hhash, hiff.mp (fun h => hc (.inr h))⟩

private theorem reached_of_mem {π : Type} {cfg : Config} {be : Backend π} {r : Request} {i k : ℕ}
    {c : String} {p : π} {evs : List Payload} {raw : RawEvent} {res : Option EnrichedEvent}
    (h : .enriched (i + k) raw res ∈ serveEvents cfg be r i c p evs) : Reached cfg i evs k := by
  induction evs generalizing i k c p with
  | nil => simp [serveEvents] at h
  | cons ev rest ih =>
    have hknown : (gate cfg r i c ev).verdict ≠ .unknownHost := by
      intro hu
      rw [enriched_mem_cons, hu] at h
      exact h
    have hlater : ∀ {p'}, .enriched (i + k) raw res ∈
        serveEvents cfg be r (i + 1) (gate cfg r i c ev).cookieID p' rest →
        Reached cfg i (ev :: rest) k := by
      intro p' hm
      obtain ⟨k', -, hk, -⟩ := enriched_of_mem hm
      obtain rfl : k = k' + 1 := by omega
      have hshift : i + (k' + 1) = i + 1 + k' := by omega
      rw [hshift] at hm
      have hrest := ih hm
      intro m hm' e he
      cases m with
      | zero =>
        obtain rfl : ev = e := by simpa using he
        exact fun hl => hknown (gate_unknown_iff.mpr hl)
      | succ m =>
        have hidx : i + (m + 1) = i + 1 + m := by omega
        rw [hidx]
        exact hrest m (by omega) e (by simpa using he)
    rw [enriched_mem_cons] at h
    cases hv : (gate cfg r i c ev).verdict with
    | unknownHost => exact absurd hv hknown
    | drop reason =>
      simp only [hv] at h
      exact hlater h
    | pass raw' =>
      simp only [hv] at h
      rcases h with ⟨hk, -, -⟩ | ⟨-, h⟩
      · intro m hm
        omega
      · exact hlater h

private theorem enriched_copyPipeline {cfg : Config} {r : Request} {i k : ℕ} {c : String}
    {evs : List Payload} {ev : Payload} {raw : RawEvent} (hev : evs[k]? = some ev)
    (hr : Reached cfg i evs k)
    (hv : (gate cfg r (i + k) (cookieAt cfg r i c evs k) ev).verdict = .pass raw) :
    .enriched (i + k) raw (some { siteID := raw.siteID, cookieID := raw.cookieID }) ∈
      serveEvents cfg copyPipeline r i c () evs := by
  induction evs generalizing i k c with
  | nil => simp at hev
  | cons e rest ih =>
    rw [enriched_mem_cons]
    cases k with
    | zero =>
      obtain rfl : e = ev := by simpa using hev
      have hv' : (gate cfg r i c e).verdict = .pass raw := hv
      rw [hv']
      exact .inl ⟨rfl, rfl, rfl⟩
    | succ k =>
      have hidx : ∀ m, i + (m + 1) = i + 1 + m := fun m => by omega
      have hrest : Reached cfg (i + 1) rest k := by
        intro m hm e' he'
        have hm' := hr (m + 1) (by omega) e' (by simpa using he')
        rwa [hidx m] at hm'
      rw [hidx k] at hv ⊢
      have htail := ih (by simpa using hev) hrest hv
      cases hg : (gate cfg r i c e).verdict with
      | unknownHost =>
        exact absurd (gate_unknown_iff.mp hg) (hr 0 (by omega) e rfl)
      | drop reason => exact htail
      | pass raw' => exact .inr ⟨rfl, htail⟩

/-- No event of the site is appended, whatever the pipeline and the log do. -/
def NothingAppended (cfg : Config) (dec : Decoder) (r : Request) (siteID : ℕ) : Prop :=
  ∀ (π : Type) (be : Backend π) (p : π) (i : ℕ) (e : EnrichedEvent) (ok : Bool),
    .appended i siteID e ok ∉ serve cfg be dec p r

theorem appended_serve_iff {π : Type} {cfg : Config} {be : Backend π} {dec : Decoder} {p : π}
    {r : Request} {j siteID : ℕ} {e : EnrichedEvent} {ok : Bool} :
    .appended j siteID e ok ∈ serve cfg be dec p r ↔
      ∃ evs, parseBody dec r.body = .ok evs ∧ ok = be.appendAndWait j e ∧
        ∃ raw, raw.siteID = siteID ∧
          .enriched j raw (some e) ∈ serveEvents cfg be r 0 "" p evs := by
  unfold serve
  cases parseBody dec r.body with
  | error err => simp
  | ok evs =>
    cases evs with
    | nil => simp [serveEvents]
    | cons ev rest => simp [appended_mem_iff]

/-- For a request whose cookie is suppressed for the site, in every mode: nothing of the
site is appended exactly when every event of the site that nothing else stops comes at or
after one that is identified, and cookies are hashed. -/
theorem nothingAppended_iff (cfg : Config) (dec : Decoder) (r : Request) (siteID : ℕ) (v : String)
    (supp : ℕ → String → Bool) (hcookie : r.cookie cookieName = some v) (hne : v ≠ "")
    (hsupp : cfg.suppression = some supp)
    (hlist : ∀ i, supp i (hexCookieIDHash cfg.key siteID v) = true) :
    NothingAppended cfg dec r siteID ↔
      ∀ evs, parseBody dec r.body = .ok evs → ∀ (j : ℕ) (ev : Payload), evs[j]? = some ev →
        Reached cfg 0 evs j → Unblocked cfg r siteID j ev →
        cfg.hashIdentity = true ∧ IdentifiedBefore cfg r 0 evs (j + 1) := by
  constructor
  · intro hnone evs hp j ev hev hr hun
    by_contra hnot
    obtain ⟨raw, hv, hsite⟩ :=
      (pass_iff_of_suppressed hcookie hne hsupp hlist hev).mpr ⟨hun, hnot⟩
    have hmem := enriched_copyPipeline (i := 0) (c := "") hev hr (by simpa using hv)
    rw [Nat.zero_add] at hmem
    exact hnone Unit copyPipeline () j _ true
      (appended_serve_iff.mpr ⟨evs, hp, rfl, raw, hsite, hmem⟩)
  · intro hall π be p j e ok hmem
    obtain ⟨evs, hp, -, raw, hsite, hm⟩ := appended_serve_iff.mp hmem
    obtain ⟨k, ev, hk, hev, hv⟩ := enriched_of_mem hm
    obtain rfl : j = k := by omega
    have hr : Reached cfg 0 evs j := reached_of_mem (by simpa using hm)
    obtain ⟨hun, hnot⟩ :=
      (pass_iff_of_suppressed hcookie hne hsupp hlist hev).mp ⟨raw, hv, hsite⟩
    exact hnot (hall evs hp j ev hev hr hun)

/-- The digest at the one input that occurs below. -/
def sha256AtSuppressed (_ : Bytes) : Bytes :=
  [0xDA, 0x9D, 0x92, 0xE6, 0xFB, 0xD5, 0x74, 0xD7, 0xC3, 0x4D, 0xA9, 0x99, 0x22, 0x04, 0xDB, 0xF7,
    0x6C, 0xB2, 0x27, 0x3A, 0x8B, 0xB5, 0x71, 0xCC, 0xF8, 0x62, 0x9B, 0x48, 0x95, 0xEF, 0x69, 0x1A]

def suppressedHash : String :=
  "h:da9d92e6fbd574d7c34da9992204dbf76cb2273a8bb571ccf8629b4895ef691a"

/-- Site 2 is consent-free, and the visitor's hash is on its suppression list. -/
def consentFreeSite : Config where
  key := ⟨sha256AtSuppressed, [0x2A]⟩
  consentRequired := false
  lookupSitePolicy _ hostname :=
    if hostname = "two" then some (2, { consentMode := .consentFree }) else none
  suppression := some (fun _ hash => decide (hash = suppressedHash))
  mode := some (fun _ => false)
  newUUID _ := sampleUUID

def returningVisit : Request :=
  ⟨fun _ => "", [("_statnive", "v")], "192.0.2.1:4711", .ok [0x7B, 0x7D]⟩

def objectDecoder : Decoder := ⟨fun _ => none, fun _ => some { hostname := "two" }⟩

theorem suppressedHash_eq : hexCookieIDHash consentFreeSite.key 2 "v" = suppressedHash := by
  decide

theorem appended_returningVisit : .appended 0 2 { siteID := 2 } true ∈
    serve consentFreeSite copyPipeline objectDecoder () returningVisit := by
  decide

theorem nothingAppended_iff_returningVisit :
    NothingAppended consentFreeSite objectDecoder returningVisit 2 ↔
      ∀ evs, parseBody objectDecoder returningVisit.body = .ok evs →
        ∀ (j : ℕ) (ev : Payload), evs[j]? = some ev → Reached consentFreeSite 0 evs j →
          Unblocked consentFreeSite returningVisit 2 j ev →
          consentFreeSite.hashIdentity = true ∧
            IdentifiedBefore consentFreeSite returningVisit 0 evs (j + 1) :=
  nothingAppended_iff consentFreeSite objectDecoder returningVisit 2 "v" _ rfl (by decide) rfl
    (fun _ => decide_eq_true suppressedHash_eq)

/-- The cookie is never read, so the list is not asked and the event is appended. -/
theorem suppressed_visitor_appended :
    returningVisit.cookie cookieName = some "v" ∧
      consentFreeSite.suppression = some (fun _ hash => decide (hash = suppressedHash)) ∧
      hexCookieIDHash consentFreeSite.key 2 "v" = suppressedHash ∧
      .appended 0 2 { siteID := 2 } true ∈
        serve consentFreeSite copyPipeline objectDecoder () returningVisit ∧
      ¬ NothingAppended consentFreeSite objectDecoder returningVisit 2 :=
  ⟨rfl, rfl, suppressedHash_eq, appended_returningVisit,
    fun h => h Unit copyPipeline () 0 _ true appended_returningVisit⟩

end Statnive.HashOptOut
