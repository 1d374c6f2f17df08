import Statnive.IngestHandler

/-!
# Identity suppression

An event whose site, consent state, Sec-GPC or DNT denies identity goes through the same
loop as the other events of its request, and the loop carries one cookie id.
-/

namespace Statnive.IdentityGate

open IngestEvents PrivacyPolicy VisitorIdentity EventSanitize IngestHandler

/-- The site of the event, the consent state, Sec-GPC or DNT denies identity. -/
def Denied (cfg : Config) (r : Request) (i : ℕ) (ev : Payload) : Prop :=
  ∃ siteID policy, cfg.lookupSitePolicy i ev.hostname = some (siteID, policy) ∧
    allowIdentity cfg r i siteID policy = false

private theorem not_identified_of_denied {cfg : Config} {r : Request} {i : ℕ} {ev : Payload}
    (h : Denied cfg r i ev) : identified cfg r i ev = false := by
  obtain ⟨siteID, policy, hl, hallow⟩ := h
  simp only [identified, hl]
  split
  · rfl
  · exact hallow

private theorem userIDHash_of_validate
    {cfg : Config} {r : Request} {siteID : ℕ} {policy : SitePolicy}
    {ev : Payload} {raw : RawEvent}
    (h : validateAndSanitize (rawEvent cfg r siteID policy ev) = .ok raw) :
    raw.userIDHash = "" := by
  unfold validateAndSanitize at h
  split at h
  · simp at h
  · cases h
    rfl

/-- What passes the identity gates carries the hash of the cookie id, if any. -/
theorem identityGates_pass {cfg : Config} {r : Request} {i siteID : ℕ} {policy : SitePolicy}
    {c : String} {raw raw' : RawEvent}
    (h : identityGates cfg r i siteID policy c raw = .pass raw') :
    raw'.cookieID = cookieHash cfg siteID c ∧
      (allowIdentity cfg r i siteID policy = false → raw'.userIDHash = raw.userIDHash) := by
  unfold identityGates at h
  split at h
  · simp at h
  · split at h
    · simp at h
    · cases h
      refine ⟨rfl, fun hallow => ?_⟩
      simp [hallow]

/-- A denied event that passes has no user id hash, and a cookie id only when the loop
carried one to it. -/
theorem pass_denied {cfg : Config} {r : Request} {i : ℕ} {c : String} {ev : Payload}
    {raw : RawEvent} (h : (gate cfg r i c ev).verdict = .pass raw) (hd : Denied cfg r i ev) :
    raw.userIDHash = "" ∧ (raw.cookieID = "" ↔ cfg.hashIdentity = false ∨ c = "") := by
  obtain ⟨siteID, policy, hl, hallow⟩ := hd
  simp only [gate, hl] at h
  split at h
  · simp at h
  · rename_i raw' hv
    simp only [hallow, Bool.false_and, Bool.false_eq_true, if_false] at h
    obtain ⟨hcookie, huser⟩ := identityGates_pass h
    refine ⟨(huser hallow).trans (userIDHash_of_validate hv), ?_⟩
    rw [hcookie, cookieHash_eq_empty_iff]

def anonymous (ev : Payload) : Payload := { ev with userID := "" }

/-- The requests differ at most in the `_statnive` cookie and the events' user ids. -/
structure SameButIdentity (dec : Decoder) (r r' : Request) : Prop where
  request : SameButCookie r r'
  body : (parseBody dec r'.body).map (List.map anonymous) =
    (parseBody dec r.body).map (List.map anonymous)

theorem eq_of_anonymous {ev ev' : Payload} (h : anonymous ev' = anonymous ev) :
    ev' = { ev with userID := ev'.userID } := by
  calc ev' = { anonymous ev' with userID := ev'.userID } := rfl
    _ = { anonymous ev with userID := ev'.userID } := by rw [h]

theorem hostname_of_anonymous {ev ev' : Payload} (h : anonymous ev' = anonymous ev) :
    ev'.hostname = ev.hostname := by
  rw [eq_of_anonymous h]

private theorem clientIP_congr {r r' : Request} (h : SameButCookie r r') : clientIP r' =
    clientIP r := by
  simp only [clientIP, h.header, h.remoteAddr]

theorem rawEvent_congr {cfg : Config} {r r' : Request} (h : SameButCookie r r') {siteID : ℕ}
    {policy : SitePolicy} {ev ev' : Payload} (hev : anonymous ev' = anonymous ev) :
    rawEvent cfg r' siteID policy ev' =
      { rawEvent cfg r siteID policy ev with userID := ev'.userID } := by
  rw [eq_of_anonymous hev]
  simp only [rawEvent, clientIP_congr h, h.header]

/-- The validation does not look at the user id. -/
theorem validateAndSanitize_userID (raw : RawEvent) (u : String) :
    validateAndSanitize { raw with userID := u } =
      (validateAndSanitize raw).map (fun raw => { raw with userID := u }) := by
  unfold validateAndSanitize
  have hv : validate { raw with userID := u } = validate raw := rfl
  rw [hv]
  cases validate raw <;> rfl

theorem modeFor_congr {cfg : Config} {r r' : Request} (h : SameButCookie r r') (i siteID : ℕ)
    (policy : SitePolicy) : cfg.modeFor r' i siteID policy = cfg.modeFor r i siteID policy := by
  simp only [Config.modeFor, policyToMode_congr h]

theorem allowIdentity_congr {cfg : Config} {r r' : Request} (h : SameButCookie r r') (i siteID : ℕ)
    (policy : SitePolicy) :
    allowIdentity cfg r' i siteID policy = allowIdentity cfg r i siteID policy := by
  simp only [allowIdentity, consentDenied_congr h, consentGiven_congr h, modeFor_congr h]

theorem identified_congr {cfg : Config} {r r' : Request} (h : SameButCookie r r') {i : ℕ}
    {ev ev' : Payload} (hev : anonymous ev' = anonymous ev) :
    identified cfg r' i ev' = identified cfg r i ev := by
  have hhost := hostname_of_anonymous hev
  unfold identified
  rw [hhost]
  cases cfg.lookupSitePolicy i ev.hostname with
  | none => rfl
  | some sp =>
    obtain ⟨siteID, policy⟩ := sp
    simp only [rawEvent_congr h hev, validateAndSanitize_userID, allowIdentity_congr h]
    cases validateAndSanitize (rawEvent cfg r siteID policy ev) <;> rfl

private theorem isOptedOut_congr
    {r r' : Request} (h : SameButCookie r r') (siteID : ℕ) (hash : String)
    (supp : Option (String → Bool)) :
    isOptedOut r' siteID hash supp = isOptedOut r siteID hash supp := by
  simp only [isOptedOut, hasOptOutCookie_congr h]

private theorem refusedByAllowlist_congr {cfg : Config} {r r' : Request} (h : SameButCookie r r')
    (i siteID : ℕ) (policy : SitePolicy) (raw : RawEvent) (u : String) :
    refusedByAllowlist cfg r' i siteID policy { raw with userID := u } =
      refusedByAllowlist cfg r i siteID policy raw := by
  simp only [refusedByAllowlist, modeFor_congr h]
  rfl

/-- Neither the cookie nor the user id shows behind the gates, as long as none of them is
hashed. -/
theorem identityGates_congr {cfg : Config} {r r' : Request} (h : SameButCookie r r')
    {i siteID : ℕ} {policy : SitePolicy} {c c' : String} (raw : RawEvent) (u : String)
    (hclean : cfg.hashIdentity = false ∨
      c = "" ∧ c' = "" ∧ allowIdentity cfg r i siteID policy = false) :
    identityGates cfg r' i siteID policy c' { raw with userID := u } =
      identityGates cfg r i siteID policy c raw := by
  have hcookie : cookieHash cfg siteID c' = cookieHash cfg siteID c := by
    rcases hclean with hhash | ⟨rfl, rfl, -⟩
    · simp [cookieHash, hhash]
    · rfl
  have huser : (cfg.hashIdentity && allowIdentity cfg r i siteID policy) = false := by
    rcases hclean with hhash | ⟨-, -, hdeny⟩
    · simp [hhash]
    · simp [hdeny]
  unfold identityGates
  rw [hcookie, isOptedOut_congr h, refusedByAllowlist_congr h, allowIdentity_congr h, huser]
  simp only [Bool.false_and, Bool.false_eq_true, if_false]

private theorem gate_congr {cfg : Config} {r r' : Request} (h : SameButCookie r r') {i : ℕ}
    {c c' : String} {ev ev' : Payload} (hev : anonymous ev' = anonymous ev)
    (hclean : cfg.hashIdentity = false ∨ c = "" ∧ c' = "" ∧ identified cfg r i ev = false) :
    (gate cfg r' i c' ev').verdict = (gate cfg r i c ev).verdict := by
  have hhost := hostname_of_anonymous hev
  unfold gate
  unfold identified at hclean
  rw [hhost]
  cases hl : cfg.lookupSitePolicy i ev.hostname with
  | none => rfl
  | some sp =>
    obtain ⟨siteID, policy⟩ := sp
    simp only [hl, rawEvent_congr h hev, validateAndSanitize_userID] at hclean ⊢
    cases hv : validateAndSanitize (rawEvent cfg r siteID policy ev) with
    | error reason => rfl
    | ok raw =>
      simp only [hv, Except.map] at hclean ⊢
      rw [allowIdentity_congr h]
      rcases hclean with hhash | ⟨rfl, rfl, hdeny⟩
      · have hgates : ∀ d d' : String,
            identityGates cfg r' i siteID policy d' { raw with userID := ev'.userID } =
              identityGates cfg r i siteID policy d raw :=
          fun _ _ => identityGates_congr h raw ev'.userID (.inl hhash)
        split <;> split <;> exact hgates _ _
      · simp only [hdeny, Bool.false_and, Bool.false_eq_true, if_false]
        exact identityGates_congr h raw ev'.userID (.inr ⟨rfl, rfl, hdeny⟩)

/-- Up to an event before and at which nobody is identified, the two loops agree on what
the pipeline gets and returns. -/
theorem enriched_congr {π : Type} {cfg : Config} {be : Backend π} {r r' : Request}
    (h : SameButCookie r r') {i k : ℕ} {c c' : String} {p : π} {evs evs' : List Payload}
    {raw : RawEvent} {res : Option EnrichedEvent} (hevs : evs'.map anonymous = evs.map anonymous)
    (hclean : cfg.hashIdentity = false ∨ c = "" ∧ c' = "" ∧ ¬ IdentifiedBefore cfg r i evs (k + 1))
    (hm : .enriched (i + k) raw res ∈ serveEvents cfg be r i c p evs) :
    .enriched (i + k) raw res ∈ serveEvents cfg be r' i c' p evs' := by
  induction evs generalizing i k c c' p evs' with
  | nil => simp [serveEvents] at hm
  | cons ev rest ih =>
    cases evs' with
    | nil => simp at hevs
    | cons ev' rest' =>
      obtain ⟨hev, hrest⟩ :
          anonymous ev' = anonymous ev ∧ rest'.map anonymous = rest.map anonymous := by
        simpa using hevs
      have hhead : cfg.hashIdentity = false ∨ c = "" ∧ c' = "" ∧ identified cfg r i ev = false := by
        refine hclean.imp_right ?_
        rintro ⟨hc, hc', hb⟩
        rw [identifiedBefore_cons, not_or] at hb
        exact ⟨hc, hc', by simpa using hb.1⟩
      have htail : ∀ {p'}, .enriched (i + k) raw res ∈
          serveEvents cfg be r (i + 1) (gate cfg r i c ev).cookieID p' rest →
          .enriched (i + k) raw res ∈
            serveEvents cfg be r' (i + 1) (gate cfg r' i c' ev').cookieID p' rest' := by
        intro p' hm'
        obtain ⟨k', -, hk, -⟩ := enriched_of_mem hm'
        obtain rfl : k = k' + 1 := by omega
        have hshift : i + (k' + 1) = i + 1 + k' := by omega
        rw [hshift] at hm' ⊢
        refine ih hrest ?_ hm'
        refine hclean.imp_right ?_
        rintro ⟨hc, hc', hb⟩
        rw [identifiedBefore_cons, not_or] at hb
        have hid' : identified cfg r' i ev' = false := by
          rw [identified_congr h hev]
          simpa using hb.1
        refine ⟨?_, ?_, hb.2⟩
        · simp [gate_cookieID, hb.1, hc]
        · simp [gate_cookieID, hid', hc']
      rw [enriched_mem_cons] at hm ⊢
      rw [gate_congr h hev hhead]
      cases hv : (gate cfg r i c ev).verdict with
      | unknownHost => simp [hv] at hm
      | drop reason =>
        simp only [hv] at hm ⊢
        exact htail hm
      | pass raw' =>
        simp only [hv] at hm ⊢
        exact hm.imp_right (And.imp_right htail)

theorem SameButIdentity.events {dec : Decoder} {r r' : Request} (h : SameButIdentity dec r r')
    {evs : List Payload} (hp : parseBody dec r.body = .ok evs) :
    ∃ evs', parseBody dec r'.body = .ok evs' ∧ evs'.map anonymous = evs.map anonymous := by
  have hbody := h.body
  rw [hp] at hbody
  cases hp' : parseBody dec r'.body with
  | error e => simp [hp', Except.map] at hbody
  | ok evs' =>
    refine ⟨evs', rfl, ?_⟩
    simpa [hp', Except.map] using hbody

/-- An event at position `j` reached the pipeline as `raw` without a trace of identity,
and does so, with the same result, in every request that differs only in identity. -/
def Suppressed {π : Type} (cfg : Config) (be : Backend π) (dec : Decoder) (p : π) (r : Request)
    (j : ℕ) (raw : RawEvent) (res : Option EnrichedEvent) : Prop :=
  raw.cookieID = "" ∧ raw.userIDHash = "" ∧
    ∀ r', SameButIdentity dec r r' → .enriched j raw res ∈ serve cfg be dec p r'

/-- Whatever the policies, the pipeline and the log: a denied event that reaches the
pipeline is suppressed exactly when identifiers are not hashed at all or no earlier event
of the request was identified. -/
theorem suppressed_iff {π : Type} (cfg : Config) (be : Backend π) (dec : Decoder) (p : π)
    (r : Request) (evs : List Payload) (hp : parseBody dec r.body = .ok evs) (j : ℕ) (ev : Payload)
    (hev : evs[j]? = some ev) (hd : Denied cfg r j ev) (raw : RawEvent)
    (res : Option EnrichedEvent) (hm : .enriched j raw res ∈ serve cfg be dec p r) :
    Suppressed cfg be dec p r j raw res ↔
      cfg.hashIdentity = false ∨ ¬ IdentifiedBefore cfg r 0 evs j := by
  obtain ⟨evs₁, hp₁, hm₁⟩ := mem_serve_iff.mp hm
  obtain rfl : evs₁ = evs := Except.ok.inj (hp₁.symm.trans hp)
  obtain ⟨k, ev₁, hk, hev₁, hv⟩ := enriched_of_mem hm₁
  obtain rfl : j = k := by omega
  obtain rfl : ev₁ = ev := Option.some.inj (hev₁.symm.trans hev)
  obtain ⟨huser, hcookie⟩ := pass_denied hv hd
  have hat := cookieAt_ne_iff cfg r 0 "" evs₁ j
  simp only [ne_eq, not_true_eq_false, false_or] at hat
  have hempty : raw.cookieID = "" ↔
      cfg.hashIdentity = false ∨ ¬ IdentifiedBefore cfg r 0 evs₁ j := by
    rw [hcookie, ← hat, not_not]
  constructor
  · exact fun hs => hempty.mp hs.1
  · intro hc
    refine ⟨hempty.mpr hc, huser, fun r' hr' => ?_⟩
    obtain ⟨evs', hp', hmap⟩ := hr'.events hp
    refine mem_serve_iff.mpr ⟨evs', hp', ?_⟩
    have hclean : cfg.hashIdentity = false ∨ "" = "" ∧ "" = "" ∧
        ¬ IdentifiedBefore cfg r 0 evs₁ (j + 1) := by
      refine hc.imp_right (fun hb => ⟨rfl, rfl, ?_⟩)
      rintro ⟨m, hmj, e, he, hid⟩
      by_cases hlt : m < j
      · exact hb ⟨m, hlt, e, he, hid⟩
      · obtain rfl : m = j := by omega
        obtain rfl : e = ev₁ := Option.some.inj (he.symm.trans hev)
        rw [Nat.zero_add, not_identified_of_denied hd] at hid
        simp at hid
    have hgoal := enriched_congr hr'.request (k := j) hmap hclean (by simpa using hm₁)
    simpa using hgoal

/-- The digests that the hash function has at the two inputs that occur below. -/
def sha256At (bs : Bytes) : Bytes :=
  if bs[1]? = some 1 then
    [0x72, 0xF1, 0x09, 0x0E, 0x4E, 0x01, 0xAA, 0x5A,
     0x1B, 0x3D, 0x00, 0xF8, 0x04, 0xDB, 0xCC, 0xB5,
     0x13, 0x29, 0x2E, 0x5B, 0x31, 0x90, 0x60, 0xBF,
     0x7A, 0x73, 0xD0, 0xB1, 0xC8, 0x9C, 0x8D, 0x14]
  else
    [0xD2, 0xB2, 0x7E, 0x95, 0x0F, 0xF4, 0xCC, 0x81,
     0x6D, 0xE6, 0xB7, 0x01, 0xC9, 0x39, 0xD2, 0xA9,
     0x7C, 0xA9, 0x89, 0x1D, 0x76, 0xDF, 0x92, 0x8F,
     0xF2, 0xFA, 0xCF, 0xE2, 0x6E, 0x0B, 0x8C, 0x09]

/-- Site 1 is permissive, site 2 is consent-free. -/
def twoSites : Config where
  key := ⟨sha256At, [0x2A]⟩
  consentRequired := false
  lookupSitePolicy _ hostname :=
    if hostname = "one" then some (1, {})
    else if hostname = "two" then some (2, { consentMode := .consentFree })
    else none
  mode := some (fun _ => false)
  newUUID _ := sampleUUID

def twoEvents : List Payload := [{ hostname := "one" }, { hostname := "two" }]

def arrayDecoder : Decoder := ⟨fun _ => some twoEvents, fun _ => none⟩

/-- A first visit, without any cookie. -/
def firstVisit : Request := ⟨fun _ => "", [], "192.0.2.1:4711", .ok [0x5B, 0x5D]⟩

/-- The second event as the pipeline gets it. -/
def secondRaw : RawEvent where
  hostname := "two"
  ip := "192.0.2.1"
  siteID := 2
  trackBots := true
  cookieID := "h:d2b27e950ff4cc816de6b701c939d2a97ca9891d76df928ff2facfe26e0b8c09"

def secondRow : EnrichedEvent := { siteID := 2, cookieID := secondRaw.cookieID }

theorem denied_secondEvent : Denied twoSites firstVisit 1 { hostname := "two" } :=
  ⟨2, { consentMode := .consentFree }, by decide, by decide⟩

theorem enriched_secondEvent : .enriched 1 secondRaw (some secondRow) ∈
    serve twoSites copyPipeline arrayDecoder () firstVisit := by
  decide

theorem suppressed_iff_secondEvent :
    Suppressed twoSites copyPipeline arrayDecoder () firstVisit 1 secondRaw (some secondRow) ↔
      twoSites.hashIdentity = false ∨ ¬ IdentifiedBefore twoSites firstVisit 0 twoEvents 1 :=
  suppressed_iff twoSites copyPipeline arrayDecoder () firstVisit twoEvents rfl 1 _ rfl
    denied_secondEvent secondRaw (some secondRow) enriched_secondEvent

/-- The cookie minted for the first event reaches the event of the consent-free site. -/
theorem minted_cookie_reaches_denied_event :
    Denied twoSites firstVisit 1 { hostname := "two" } ∧
      .enriched 1 secondRaw (some secondRow) ∈
        serve twoSites copyPipeline arrayDecoder () firstVisit ∧
      ¬ Suppressed twoSites copyPipeline arrayDecoder () firstVisit 1 secondRaw
        (some secondRow) := by
  refine ⟨denied_secondEvent, enriched_secondEvent, ?_⟩
  intro hs
  have hempty := hs.1
  revert hempty
  decide

end Statnive.IdentityGate
