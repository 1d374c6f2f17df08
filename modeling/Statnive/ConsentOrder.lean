import Statnive.ConsentHandlers
import Statnive.HashOptOut
import Statnive.LabelledRuns

/-!
# The visitor's last choice

A browser gives and withdraws consent, opts out and sends events, and keeps the cookies it is
told to keep. Ingest drops its events for the opt-out cookie of the site or for a listed
hash. Giving consent takes back neither.
-/

namespace Statnive.ConsentOrder

open CookieJar ConsentHandlers LabelledRuns IngestEvents PrivacyPolicy VisitorIdentity
open EventSanitize IngestHandler HashOptOut SuppressionRecord

inductive Choice where
  | give | optOut
  deriving DecidableEq

/-- `choices` are the ones that succeeded with their sites, the last one first. -/
structure World where
  jar : Jar := []
  list : Suppression.State
  choices : List (ℕ × Choice) := []

/-- A request of the browser, or another visitor's hash that comes to the list. -/
inductive Action (π : Type) where
  | consent (sites : SitesResolver) (r : PrivacyRequest) (uuid : UUID) (unixAt : Int64)
      (outcome : Suppression.Outcome)
  | optOut (sites : SitesResolver) (r : PrivacyRequest) (unixAt : Int64)
      (outcome : Suppression.Outcome)
  | event (cfg : IngestHandler.Config) (be : Backend π) (p : π) (dec : Decoder) (r : Request)
  | others (hash : Hash) (unixAt : Int64) (outcome : Suppression.Outcome)

def World.choicesAt (w : World) (site : ℕ) : List Choice :=
  (w.choices.filter (fun c => c.1 = site)).map Prod.snd

/-- The list reports the hash. -/
def listed (s : Suppression.State) (hash : Bytes) : Bool := s.list.any (·.isSuppressed hash)

def listedCookie (key : Keyed) (s : Suppression.State) (site : ℕ) (v : String) : Bool :=
  listed s (utf8 (hexCookieIDHash key site v))

def World.send (w : World) (r : Request) : Request := { r with cookies := w.jar }

def World.sendPrivacy (w : World) (r : PrivacyRequest) : PrivacyRequest :=
  { r with cookies := w.jar }

/-- The ingest handler beside the privacy handlers. -/
def World.ingest (w : World) (key : Keyed) (cfg : IngestHandler.Config) : IngestHandler.Config :=
  { cfg with
    key := key
    suppression := cfg.suppression.map (fun _ _ hash => listed w.list (utf8 hash)) }

def ingestCookie (id : String) : Cookie where
  name := cookieName
  value := id
  maxAge := 60 * 60 * 24 * 365
  sameSite := "Lax"

def setCookieOf : Output → Option Cookie
  | .setCookie id => some (ingestCookie id)
  | _ => none

/-- A choice that succeeded is one that the audit log has. -/
def choiceOf (res : Response) : Option (ℕ × Choice) :=
  if res.status = 204 then
    res.audit.map (fun e => (e.siteID, if e.name = .consentGiven then .give else .optOut))
  else none

def World.receive (w : World) (res : Response × Suppression.State) : World where
  jar := w.jar.applyAll res.1.cookies
  list := res.2
  choices := (choiceOf res.1).toList ++ w.choices

variable {π : Type}

def step (cfg : ConsentHandlers.Config) (w : World) : Action π → Option World
  | .consent sites r uuid unixAt outcome =>
    some (w.receive (consent cfg sites w.list (w.sendPrivacy r) uuid unixAt outcome))
  | .optOut sites r unixAt outcome =>
    some (w.receive (optOut cfg sites w.list (w.sendPrivacy r) unixAt outcome))
  | .event icfg be p dec r =>
    let outputs := serve (w.ingest cfg.key icfg) be dec p (w.send r)
    some { w with jar := w.jar.applyAll (outputs.filterMap setCookieOf) }
  | .others hash unixAt outcome => some { w with list := (addHash w.list hash unixAt outcome).2 }

/-- The `_statnive` cookie that the browser sends. -/
def World.statnive (w : World) : Option String := (w.jar.get cookieName).filter (· ≠ "")

/-- The hashes of different cookies differ: a fresh id is not on the list, one cookie has
different hashes at different sites, and other visitors bring other hashes. -/
def HashesApart (cfg : ConsentHandlers.Config) (site : ℕ) (w : World) : Action π → Prop
  | .consent _ _ uuid _ _ => listedCookie cfg.key w.list site uuid = false
  | .optOut sites r _ _ => ∀ other v, resolveSiteID sites (w.sendPrivacy r) = .ok other →
      w.statnive = some v → other ≠ site →
      hexCookieIDHash cfg.key other v ≠ hexCookieIDHash cfg.key site v
  | .event icfg be p dec r => ∀ id,
      .setCookie id ∈ serve (w.ingest cfg.key icfg) be dec p (w.send r) →
      listedCookie cfg.key w.list site id = false
  | .others hash _ _ => ∀ v, w.statnive = some v →
      hash.bytes ≠ utf8 (hexCookieIDHash cfg.key site v)

/-- Nothing has been chosen yet for the site. -/
structure Starts (key : Keyed) (site : ℕ) (w : World) : Prop where
  choices : w.choices = []
  optout : w.jar.get (optoutCookieName site) ≠ some "v1"
  unlisted : ∀ v, w.statnive = some v → listedCookie key w.list site v = false

/-- Ingest treats the browser as opted out exactly when the last choice was to opt out: this is
its verdict on every valid event of the site that the browser could send. An id that is not the
browser's cookie has just been made up. -/
def Honours (key : Keyed) (site : ℕ) (w : World) : Prop :=
  ∀ (icfg : IngestHandler.Config) (r : Request) (evs : List Payload) (k : ℕ) (ev : Payload)
    (policy : SitePolicy) (raw : RawEvent),
    evs[k]? = some ev → icfg.lookupSitePolicy k ev.hostname = some (site, policy) →
    validateAndSanitize (rawEvent (w.ingest key icfg) (w.send r) site policy ev) = .ok raw →
    let g := gate (w.ingest key icfg) (w.send r) k
      (cookieAt (w.ingest key icfg) (w.send r) 0 "" evs k) ev
    (w.statnive ≠ some g.cookieID → listedCookie key w.list site g.cookieID = false) →
    (g.verdict = .drop .optedOut ↔ (w.choicesAt site).head? = some .optOut)

/-- Only an `Add` that returns nil lists a hash, and only its own. -/
theorem listed_addHash (s : Suppression.State) (hash : Hash) (unixAt : Int64)
    (outcome : Suppression.Outcome) {x : Bytes}
    (h : listed (addHash s hash unixAt outcome).2 x = true) :
    listed s x = true ∨ ((addHash s hash unixAt outcome).1 = true ∧ x = hash.bytes) := by
  unfold addHash at h ⊢
  cases hl : s.list with
  | none => simp [hl, listed] at h
  | some l =>
    simp only [hl] at h ⊢
    unfold Suppression.add at h
    split at h
    · exact Or.inl h
    · rename_i hne
      split at h
      · left
        simpa [listed, hl, Suppression.SuppressionList.isSuppressed] using h
      · rename_i hready
        cases outcome with
        | short n =>
          left
          simpa [listed, hl, Suppression.SuppressionList.isSuppressed] using h
        | unsynced => exact Or.inl h
        | done =>
          have hmem : x ≠ [] ∧ (x = hash.bytes ∨ x ∈ l.set) := by
            simpa [listed, Suppression.SuppressionList.isSuppressed] using h
          rcases hmem.2 with hx | hx
          · right
            exact ⟨by simpa [Suppression.addReturnsNil, hl, hne] using hready, hx⟩
          · left
            simp [listed, hl, Suppression.SuppressionList.isSuppressed, hmem.1, hx]

private theorem listedCookie_addHash {key : Keyed} {s : Suppression.State} {other : ℕ} {v : String}
    {unixAt : Int64} {outcome : Suppression.Outcome} {site : ℕ} {x : String}
    (hx : listedCookie key s site x = false)
    (hapart : hexCookieIDHash key other v ≠ hexCookieIDHash key site x) :
    listedCookie key (addHash s (Hash.ofCookie key other v) unixAt outcome).2 site x = false := by
  apply Bool.eq_false_iff.mpr
  intro h
  rcases listed_addHash s _ unixAt outcome h with hold | ⟨-, hnew⟩
  · exact Bool.eq_false_iff.mp hx hold
  · exact hapart (utf8_injective hnew.symm)

theorem choiceOf_statusError (status : ℕ) : choiceOf (statusError status) = none := by
  unfold choiceOf
  split_ifs
  · rfl
  · rfl

private theorem consent_cases (cfg : ConsentHandlers.Config) (sites : SitesResolver)
    (s : Suppression.State) (r : PrivacyRequest) (uuid : UUID) (unixAt : Int64)
    (outcome : Suppression.Outcome) :
    (∃ res, consent cfg sites s r uuid unixAt outcome = (res, s) ∧ res.cookies = [] ∧
      choiceOf res = none) ∨
    (∃ siteID, consent cfg sites s r uuid unixAt outcome =
      (give cfg siteID r.toRequest uuid (isHTTPS r), s)) ∨
    (∃ siteID, consent cfg sites s r uuid unixAt outcome =
      withdraw cfg s siteID r.toRequest (isHTTPS r) unixAt outcome) := by
  unfold consent
  cases resolveSiteID sites r with
  | error status => exact .inl ⟨_, rfl, rfl, choiceOf_statusError status⟩
  | ok siteID =>
    cases r.body.toOption.bind cfg.decodeAction with
    | none => exact .inl ⟨_, rfl, rfl, rfl⟩
    | some action =>
      dsimp only
      split_ifs
      · exact .inr (.inl ⟨siteID, rfl⟩)
      · exact .inr (.inr ⟨siteID, rfl⟩)
      · exact .inl ⟨_, rfl, rfl, rfl⟩

private theorem withdraw_cases (cfg : ConsentHandlers.Config) (s : Suppression.State) (siteID : ℕ)
    (r : Request) (secure : Bool) (unixAt : Int64) (outcome : Suppression.Outcome) :
    (∃ res, withdraw cfg s siteID r secure unixAt outcome = (res, s) ∧ res.cookies = [] ∧
      choiceOf res = none) ∨
    (∃ v res s', withdraw cfg s siteID r secure unixAt outcome = (res, s') ∧
      res.cookies = [expireCookie (consentCookieName siteID) secure,
        expireCookie legacyConsentCookieName secure, expireCookie cookieName secure] ∧
      choiceOf res = none ∧ s' = (addHash s (Hash.ofCookie cfg.key siteID v) unixAt outcome).2) ∨
    (∃ v res s', withdraw cfg s siteID r secure unixAt outcome = (res, s') ∧
      res.cookies = [expireCookie (consentCookieName siteID) secure,
        expireCookie legacyConsentCookieName secure, expireCookie cookieName secure] ++
        [marker (optoutCookieName siteID) "v1" secure] ∧
      choiceOf res = some (siteID, .optOut) ∧
      s' = (addHash s (Hash.ofCookie cfg.key siteID v) unixAt outcome).2) := by
  unfold withdraw
  cases statniveCookie r with
  | none => exact .inl ⟨_, rfl, rfl, rfl⟩
  | some v =>
    dsimp only
    rcases hadd : addHash s (Hash.ofCookie cfg.key siteID v) unixAt outcome with ⟨ok, s'⟩
    cases ok with
    | false => exact .inr (.inl ⟨v, _, _, rfl, rfl, rfl, by rw [hadd]⟩)
    | true => exact .inr (.inr ⟨v, _, _, rfl, rfl, rfl, by rw [hadd]⟩)

private theorem optOut_cases (cfg : ConsentHandlers.Config) (sites : SitesResolver)
    (s : Suppression.State) (r : PrivacyRequest) (unixAt : Int64)
    (outcome : Suppression.Outcome) :
    (∃ res, optOut cfg sites s r unixAt outcome = (res, s) ∧ res.cookies = [] ∧
      choiceOf res = none) ∨
    (∃ siteID v res s', resolveSiteID sites r = .ok siteID ∧
      statniveCookie r.toRequest = some v ∧ optOut cfg sites s r unixAt outcome = (res, s') ∧
      res.cookies = [] ∧ choiceOf res = none ∧
      (addHash s (Hash.ofCookie cfg.key siteID v) unixAt outcome).1 = false ∧
      s' = (addHash s (Hash.ofCookie cfg.key siteID v) unixAt outcome).2) ∨
    (∃ siteID res s', resolveSiteID sites r = .ok siteID ∧
      optOut cfg sites s r unixAt outcome = (res, s') ∧
      res.cookies = [marker (optoutCookieName siteID) "v1" (isHTTPS r)] ∧
      choiceOf res = some (siteID, .optOut) ∧
      (s' = s ∨ ∃ v, statniveCookie r.toRequest = some v ∧
        s' = (addHash s (Hash.ofCookie cfg.key siteID v) unixAt outcome).2)) := by
  unfold optOut
  cases resolveSiteID sites r with
  | error status => exact .inl ⟨_, rfl, rfl, choiceOf_statusError status⟩
  | ok siteID =>
    dsimp only
    cases statniveCookie r.toRequest with
    | none => exact .inr (.inr ⟨siteID, _, _, rfl, rfl, rfl, rfl, .inl rfl⟩)
    | some v =>
      dsimp only
      rcases hadd : addHash s (Hash.ofCookie cfg.key siteID v) unixAt outcome with ⟨ok, s'⟩
      cases ok with
      | false =>
        exact .inr (.inl ⟨siteID, v, _, _, rfl, rfl, rfl, rfl, rfl, by rw [hadd], by rw [hadd]⟩)
      | true => exact .inr (.inr ⟨siteID, _, _, rfl, rfl, rfl, rfl, .inr ⟨v, rfl, by rw [hadd]⟩⟩)

/-- The opt-out cookie remembers that there was an opt-out, whatever came after it; a browser
that has never opted out is not on the list. -/
structure Inv (key : Keyed) (site : ℕ) (w : World) : Prop where
  optout : w.jar.get (optoutCookieName site) = some "v1" ↔ .optOut ∈ w.choicesAt site
  unlisted : .optOut ∉ w.choicesAt site →
    ∀ v, w.statnive = some v → listedCookie key w.list site v = false

theorem inv_of_starts {key : Keyed} {site : ℕ} {w : World} (h : Starts key site w) :
    Inv key site w := by
  have hnone : w.choicesAt site = [] := by simp [World.choicesAt, h.choices]
  exact ⟨by simp [hnone, h.optout], fun _ => h.unlisted⟩

variable {key : Keyed} {site : ℕ} {w w' : World}

/-- A step that leaves the choices for the site and its opt-out cookie alone. -/
theorem Inv.keep (hs : Inv key site w) (hchoices : .optOut ∈ w'.choicesAt site ↔
      .optOut ∈ w.choicesAt site)
    (hget : w'.jar.get (optoutCookieName site) = w.jar.get (optoutCookieName site))
    (hunlisted : .optOut ∉ w.choicesAt site →
      ∀ v, w'.statnive = some v → listedCookie key w'.list site v = false) :
    Inv key site w' := by
  refine ⟨?_, fun hno => hunlisted (hchoices.not.mp hno)⟩
  rw [hget, hs.optout, hchoices]

theorem choicesAt_receive_none {res : Response × Suppression.State} (h : choiceOf res.1 = none) :
    (w.receive res).choicesAt site = w.choicesAt site := by
  simp [World.receive, World.choicesAt, h]

theorem choicesAt_receive_some {res : Response × Suppression.State} {siteID : ℕ} {c : Choice}
    (h : choiceOf res.1 = some (siteID, c)) :
    (w.receive res).choicesAt site =
      if siteID = site then c :: w.choicesAt site else w.choicesAt site := by
  split_ifs with hsite <;> simp [World.receive, World.choicesAt, h, hsite]

theorem receive_refused {res : Response} (hcookies : res.cookies = []) (h : choiceOf res = none) :
    w.receive (res, w.list) = w := by
  simp [World.receive, hcookies, h, Jar.applyAll]

theorem statnive_of_get (h : w'.jar.get cookieName = w.jar.get cookieName) :
    w'.statnive = w.statnive := by
  rw [World.statnive, World.statnive, h]

private theorem get_marker_self (jar : Jar) (name value : String) (secure : Bool) :
    (jar.apply (marker name value secure)).get name = some value :=
  (get_apply jar _ name).trans (if_pos rfl)

theorem get_marker_of_ne (jar : Jar) {name other : String} (h : other ≠ name) (value : String)
    (secure : Bool) : (jar.apply (marker name value secure)).get other = jar.get other :=
  (get_apply jar _ other).trans (if_neg h)

/-- An answer that sets the opt-out cookie of a site, after cookies of other names. -/
theorem Inv.optedOut (hs : Inv key site w) {res : Response} {s' : Suppression.State} {siteID : ℕ}
    {jar : Jar} {secure : Bool} (hchoice : choiceOf res = some (siteID, .optOut))
    (hjar : w.jar.applyAll res.cookies = jar.apply (marker (optoutCookieName siteID) "v1" secure))
    (hget : jar.get (optoutCookieName site) = w.jar.get (optoutCookieName site))
    (hunlisted : siteID ≠ site → .optOut ∉ w.choicesAt site →
      ∀ v, (jar.get cookieName).filter (· ≠ "") = some v → listedCookie key s' site v = false) :
    Inv key site (w.receive (res, s')) := by
  by_cases hsite : siteID = site
  · subst hsite
    have hmem : .optOut ∈ (w.receive (res, s')).choicesAt siteID := by
      rw [choicesAt_receive_some hchoice, if_pos rfl]
      exact List.mem_cons_self
    refine ⟨iff_of_true ?_ hmem, fun hno => absurd hmem hno⟩
    simp only [World.receive, hjar, get_marker_self]
  · have hname : optoutCookieName site ≠ optoutCookieName siteID :=
      fun h => hsite (optoutCookieName_injective h).symm
    apply hs.keep
    · rw [choicesAt_receive_some hchoice, if_neg hsite]
    · simp only [World.receive, hjar, get_marker_of_ne jar hname, hget]
    · intro hno v hv
      simp only [World.statnive, World.receive, hjar,
        get_marker_of_ne jar (optoutCookieName_ne siteID).symm] at hv
      exact hunlisted hsite hno v hv

theorem mem_give_cookies {cfg : ConsentHandlers.Config} {siteID : ℕ} {r : Request} {uuid : UUID}
    {secure : Bool} {c : Cookie} (h : c ∈ (give cfg siteID r uuid secure).cookies) :
    c = marker cookieName uuid secure ∨
      c = marker (consentCookieName siteID) consentCookieValue secure := by
  unfold give readOrMintStatnive at h
  cases hold : statniveCookie r with
  | none => simpa [hold] using h
  | some v => exact Or.inr (by simpa [hold] using h)

/-- Giving consent sets or mints cookies, none of them the opt-out cookie. -/
theorem Inv.give (hs : Inv key site w) {cfg : ConsentHandlers.Config} {siteID : ℕ} {r : Request}
    {uuid : UUID} {secure : Bool} (hfresh : listedCookie key w.list site uuid = false) :
    Inv key site (w.receive (ConsentHandlers.give cfg siteID r uuid secure, w.list)) := by
  have hchoice : choiceOf (ConsentHandlers.give cfg siteID r uuid secure) =
      some (siteID, .give) := rfl
  apply hs.keep
  · rw [choicesAt_receive_some hchoice]
    split_ifs <;> simp
  · apply get_applyAll_of_ne
    intro c hc
    rcases mem_give_cookies hc with rfl | rfl
    · exact (optoutCookieName_ne site).symm
    · exact (optoutCookieName_ne_consent site siteID).symm
  · intro hno v hv
    rcases get_applyAll_cases w.jar (ConsentHandlers.give cfg siteID r uuid secure).cookies
      cookieName with hget | ⟨c, hc, hname, hget⟩
    · exact hs.unlisted hno v ((statnive_of_get hget).symm.trans hv)
    · rcases mem_give_cookies hc with rfl | rfl
      · have hminted : (w.receive (ConsentHandlers.give cfg siteID r uuid secure,
            w.list)).jar.get cookieName = some uuid.1 := hget
        obtain ⟨rfl, -⟩ : uuid.1 = v ∧ ¬ v = "" := by
          simpa [World.statnive, hminted, uuid.2] using hv
        exact hfresh
      · exact absurd hname (consentCookieName_ne siteID)

/-- A withdrawal drops the `_statnive` cookie, even when it fails. -/
theorem Inv.withdraw (hs : Inv key site w) {cfg : ConsentHandlers.Config} {siteID : ℕ}
    {r : PrivacyRequest} {secure : Bool} {unixAt : Int64} {outcome : Suppression.Outcome} :
    Inv key site (w.receive (ConsentHandlers.withdraw cfg w.list siteID
      (w.sendPrivacy r).toRequest secure unixAt outcome)) := by
  have hexpired : ∀ c ∈ [expireCookie (consentCookieName siteID) secure,
      expireCookie legacyConsentCookieName secure, expireCookie cookieName secure],
      c.name ≠ optoutCookieName site := by
    intro c hc
    simp only [List.mem_cons, List.not_mem_nil, or_false] at hc
    rcases hc with rfl | rfl | rfl
    · exact (optoutCookieName_ne_consent site siteID).symm
    · exact (optoutCookieName_ne_legacy site).symm
    · exact (optoutCookieName_ne site).symm
  have hgone : (w.jar.applyAll [expireCookie (consentCookieName siteID) secure,
      expireCookie legacyConsentCookieName secure, expireCookie cookieName secure]).get
      cookieName = none := by
    simp [Jar.applyAll, get_apply, expireCookie, Cookie.kept]
  rcases withdraw_cases cfg w.list siteID (w.sendPrivacy r).toRequest secure unixAt outcome with
    ⟨res, heq, hcookies, hchoice⟩ | ⟨v, res, s', heq, hcookies, hchoice, -⟩ |
      ⟨v, res, s', heq, hcookies, hchoice, -⟩
  · rw [heq, receive_refused hcookies hchoice]
    exact hs
  · rw [heq]
    apply hs.keep
    · rw [choicesAt_receive_none hchoice]
    · simp only [World.receive, hcookies]
      exact get_applyAll_of_ne hexpired w.jar
    · intro _ v' hv'
      simp [World.statnive, World.receive, hcookies, hgone] at hv'
  · rw [heq]
    apply hs.optedOut hchoice
    · rw [hcookies, applyAll_append]
      rfl
    · exact get_applyAll_of_ne hexpired w.jar
    · intro _ _ v' hv'
      simp [hgone] at hv'

/-- An opt-out lists the cookie that the browser keeps. -/
theorem Inv.optOut {cfg : ConsentHandlers.Config} (hs : Inv cfg.key site w)
    {sites : SitesResolver} {r : PrivacyRequest} {unixAt : Int64} {outcome : Suppression.Outcome}
    (hapart : ∀ other v, resolveSiteID sites (w.sendPrivacy r) = .ok other →
      w.statnive = some v → other ≠ site →
      hexCookieIDHash cfg.key other v ≠ hexCookieIDHash cfg.key site v) :
    Inv cfg.key site (w.receive
      (ConsentHandlers.optOut cfg sites w.list (w.sendPrivacy r) unixAt outcome)) := by
  have hstatnive : statniveCookie (w.sendPrivacy r).toRequest = w.statnive := rfl
  rcases optOut_cases cfg sites w.list (w.sendPrivacy r) unixAt outcome with
    ⟨res, heq, hcookies, hchoice⟩ |
      ⟨siteID, v, res, s', hsite, hv, heq, hcookies, hchoice, hflag, rfl⟩ |
      ⟨siteID, res, s', hsite, heq, hcookies, hchoice, hlist⟩
  · rw [heq, receive_refused hcookies hchoice]
    exact hs
  · rw [heq]
    have hjar : (w.receive (res, (addHash w.list (Hash.ofCookie cfg.key siteID v) unixAt
        outcome).2)).jar = w.jar := by
      simp only [World.receive, hcookies]
      rfl
    apply hs.keep
    · rw [choicesAt_receive_none hchoice]
    · rw [hjar]
    · intro hno v' hv'
      rw [statnive_of_get (congrArg (fun j => Jar.get j cookieName) hjar)] at hv'
      apply Bool.eq_false_iff.mpr
      intro h
      rcases listed_addHash w.list _ unixAt outcome h with hold | ⟨htrue, -⟩
      · exact Bool.eq_false_iff.mp (hs.unlisted hno v' hv') hold
      · simp [hflag] at htrue
  · rw [heq]
    apply hs.optedOut hchoice (congrArg _ hcookies) rfl
    intro hother hno v' hv'
    have hv' : w.statnive = some v' := hv'
    have hold := hs.unlisted hno v' hv'
    rcases hlist with rfl | ⟨v, hv, rfl⟩
    · exact hold
    · obtain rfl : v = v' := Option.some.inj (hv.symm.trans (hstatnive.trans hv'))
      exact listedCookie_addHash hold (hapart siteID v hsite hv' hother)

theorem Inv.event (hs : Inv key site w) {outputs : List Output}
    (hfresh : ∀ id, .setCookie id ∈ outputs → listedCookie key w.list site id = false) :
    Inv key site { w with jar := w.jar.applyAll (outputs.filterMap setCookieOf) } := by
  have hcookie : ∀ c ∈ outputs.filterMap setCookieOf,
      ∃ id, c = ingestCookie id ∧ .setCookie id ∈ outputs := by
    intro c hc
    obtain ⟨o, ho, hoc⟩ := List.mem_filterMap.mp hc
    cases o with
    | setCookie id => exact ⟨id, (Option.some.inj hoc).symm, ho⟩
    | _ => simp [setCookieOf] at hoc
  apply hs.keep
  · rfl
  · apply get_applyAll_of_ne
    intro c hc
    obtain ⟨id, rfl, -⟩ := hcookie c hc
    exact (optoutCookieName_ne site).symm
  · intro hno v hv
    rcases get_applyAll_cases w.jar (outputs.filterMap setCookieOf) cookieName with
      hget | ⟨c, hc, -, hget⟩
    · exact hs.unlisted hno v (by simpa [World.statnive, hget] using hv)
    · obtain ⟨id, rfl, hid⟩ := hcookie c hc
      have hkept : (ingestCookie id).kept = some id := rfl
      obtain ⟨rfl, -⟩ : id = v ∧ ¬ v = "" := by
        simpa [World.statnive, hget, hkept, Option.filter_eq_some_iff] using hv
      exact hfresh id hid

theorem Inv.others (hs : Inv key site w) {hash : Hash} {unixAt : Int64}
    {outcome : Suppression.Outcome}
    (hapart : ∀ v, w.statnive = some v → hash.bytes ≠ utf8 (hexCookieIDHash key site v)) :
    Inv key site { w with list := (addHash w.list hash unixAt outcome).2 } := by
  apply hs.keep
  · rfl
  · rfl
  · intro hno v hv
    apply Bool.eq_false_iff.mpr
    intro h
    rcases listed_addHash w.list hash unixAt outcome h with hold | ⟨-, hnew⟩
    · exact Bool.eq_false_iff.mp (hs.unlisted hno v hv) hold
    · exact hapart v hv hnew.symm

theorem inv_step {cfg : ConsentHandlers.Config} {a : Action π} (hs : Inv cfg.key site w)
    (hapart : HashesApart cfg site w a) (h : step cfg w a = some w') : Inv cfg.key site w' := by
  cases a with
  | consent sites r uuid unixAt outcome =>
    obtain rfl := Option.some.inj h
    rcases consent_cases cfg sites w.list (w.sendPrivacy r) uuid unixAt outcome with
      ⟨res, heq, hcookies, hchoice⟩ | ⟨siteID, heq⟩ | ⟨siteID, heq⟩
    · rw [heq, receive_refused hcookies hchoice]
      exact hs
    · rw [heq]
      exact hs.give hapart
    · rw [heq]
      exact hs.withdraw
  | optOut sites r unixAt outcome =>
    obtain rfl := Option.some.inj h
    exact hs.optOut hapart
  | event icfg be p dec r =>
    obtain rfl := Option.some.inj h
    exact hs.event hapart
  | others hash unixAt outcome =>
    obtain rfl := Option.some.inj h
    exact hs.others hapart

theorem inv_run {cfg : ConsentHandlers.Config} {w₀ : World} {as : List (Action π)}
    (hstart : Starts cfg.key site w₀) (hrun : exec (step cfg) w₀ as = some w)
    (hapart : Along (step cfg) (HashesApart cfg site) w₀ as) : Inv cfg.key site w :=
  exec_guarded (fun _ _ _ hs hapart hstep => inv_step hs hapart hstep) hapart hrun
    (inv_of_starts hstart)

private theorem identityGates_optedOut_iff {cfg : IngestHandler.Config} {r : Request} {i siteID : ℕ}
    {policy : SitePolicy} {c : String} {raw : RawEvent} :
    identityGates cfg r i siteID policy c raw = .drop .optedOut ↔
      isOptedOut r siteID (cookieHash cfg siteID c) (cfg.suppression.map (fun s => s i)) =
        true := by
  unfold identityGates
  split_ifs with hopt hrefused
  · exact iff_of_true rfl hopt
  · simp [hopt]
  · simp [hopt]

/-- With the invariant, an event is refused exactly when there has been an opt-out. -/
theorem Inv.optedOut_iff (hs : Inv key site w) {icfg : IngestHandler.Config} {r : Request} {i : ℕ}
    {c : String}
    (hfresh : w.statnive ≠ some c → listedCookie key w.list site c = false) :
    isOptedOut (w.send r) site (cookieHash (w.ingest key icfg) site c)
        ((w.ingest key icfg).suppression.map (fun s => s i)) = true ↔
      .optOut ∈ w.choicesAt site := by
  have hcookie : hasOptOutCookie (w.send r) site = true ↔ .optOut ∈ w.choicesAt site := by
    rw [← hs.optout]
    exact decide_eq_true_iff
  constructor
  · intro h
    by_contra hno
    have hunlisted : listedCookie key w.list site c = false := by
      by_cases hc : w.statnive = some c
      · exact hs.unlisted hno c hc
      · exact hfresh hc
    apply Bool.eq_false_iff.mp (isOptedOut_false_iff.mpr ⟨?_, fun supp hsupp => ?_⟩) h
    · exact Bool.eq_false_iff.mpr (hcookie.not.mpr hno)
    · obtain ⟨-, -, rfl⟩ := Option.map_eq_some_iff.mp hsupp
      unfold cookieHash
      split_ifs
      · exact Or.inr hunlisted
      · exact Or.inl rfl
  · intro hmem
    unfold isOptedOut
    rw [if_pos (hcookie.mpr hmem)]

theorem Inv.verdict_iff (hs : Inv key site w) {icfg : IngestHandler.Config} {r : Request} {k : ℕ}
    {c : String} {ev : Payload} {policy : SitePolicy} {raw : RawEvent}
    (hsite : icfg.lookupSitePolicy k ev.hostname = some (site, policy))
    (hvalid : validateAndSanitize (rawEvent (w.ingest key icfg) (w.send r) site policy ev) =
      .ok raw)
    (hfresh : w.statnive ≠ some (gate (w.ingest key icfg) (w.send r) k c ev).cookieID →
      listedCookie key w.list site (gate (w.ingest key icfg) (w.send r) k c ev).cookieID =
        false) :
    (gate (w.ingest key icfg) (w.send r) k c ev).verdict = .drop .optedOut ↔
      .optOut ∈ w.choicesAt site := by
  have hsite' : (w.ingest key icfg).lookupSitePolicy k ev.hostname = some (site, policy) := hsite
  rw [gate_verdict hsite' hvalid, identityGates_optedOut_iff]
  exact hs.optedOut_iff hfresh

/-- An ingest handler with one site, where nobody is identified. -/
def plainIngest (key : Keyed) (site : ℕ) : IngestHandler.Config where
  key := key
  lookupSitePolicy _ _ := some (site, {})
  newUUID _ := sampleUUID

def plainRequest : Request where
  header _ := ""
  cookies := []
  remoteAddr := ""
  body := .ok []

private theorem plain_valid (key : Keyed) (site : ℕ) (w : World) :
    ∃ raw, validateAndSanitize
      (rawEvent (w.ingest key (plainIngest key site)) (w.send plainRequest) site {} {}) =
        .ok raw :=
  ⟨_, rfl⟩

private theorem plain_cookieID (key : Keyed) (site : ℕ) (w : World) :
    (gate (w.ingest key (plainIngest key site)) (w.send plainRequest) 0 "" {}).cookieID = "" := by
  have hnobody : identified (w.ingest key (plainIngest key site)) (w.send plainRequest) 0 {} =
      false := rfl
  rw [gate_cookieID, hnobody]
  rfl

private theorem listedCookie_empty (key : Keyed) (s : Suppression.State) (site : ℕ) :
    listedCookie key s site "" = false := by
  have hempty : utf8 (hexCookieIDHash key site "") = [] := rfl
  rw [listedCookie, hempty, listed]
  cases s.list <;> rfl

theorem Inv.honours_iff (hs : Inv key site w) :
    Honours key site w ↔
      .optOut ∉ w.choicesAt site ∨ (w.choicesAt site).head? = some .optOut := by
  constructor
  · intro hhonours
    obtain ⟨raw, hvalid⟩ := plain_valid key site w
    have hunlisted := listedCookie_empty key w.list site
    rw [← plain_cookieID key site w] at hunlisted
    have hverdict := hs.verdict_iff rfl hvalid (fun _ => hunlisted)
    have hlast := hhonours (plainIngest key site) plainRequest [{}] 0 {} {} raw rfl rfl hvalid
      (fun _ => hunlisted)
    by_cases hmem : .optOut ∈ w.choicesAt site
    · exact Or.inr (hlast.mp (hverdict.mpr hmem))
    · exact Or.inl hmem
  · intro hcond icfg r evs k ev policy raw _ hsite hvalid _ hfresh
    rw [hs.verdict_iff hsite hvalid hfresh]
    constructor
    · intro hmem
      exact hcond.resolve_left (not_not.mpr hmem)
    · exact List.mem_of_head?

/-- For every run of a browser: ingest honours the last choice for the site exactly when there
has been no opt-out, or the last choice is one. -/
theorem last_choice_iff (cfg : ConsentHandlers.Config) (site : ℕ) (w₀ w : World)
    (as : List (Action π)) (hstart : Starts cfg.key site w₀)
    (hrun : exec (step cfg) w₀ as = some w)
    (hapart : Along (step cfg) (HashesApart cfg site) w₀ as) :
    Honours cfg.key site w ↔
      .optOut ∉ w.choicesAt site ∨ (w.choicesAt site).head? = some .optOut :=
  (inv_run hstart hrun hapart).honours_iff

/-- The digest of the one cookie that occurs below. -/
def sampleDigest : Bytes :=
  [114, 241, 9, 14, 78, 1, 170, 90, 27, 61, 0, 248, 4, 219, 204, 181, 19, 41, 46, 91, 49,
    144, 96, 191, 122, 115, 208, 177, 200, 156, 141, 20]

def sampleKey : Keyed := ⟨fun _ => sampleDigest, [0x2A]⟩

def giveBody : Bytes := utf8 "\x7b\"action\":\"give\"\x7d"

def sampleHandlers : ConsentHandlers.Config where
  key := sampleKey
  secret_ne := by decide
  decodeAction body := if body = giveBody then some "give" else none

def oneSite : SitesResolver := fun hostname => if hostname = "one" then some (1, {}) else none

def choiceRequest (body : Bytes) : PrivacyRequest where
  header key := if key = "X-Statnive-Site" then "one" else ""
  cookies := []
  remoteAddr := "192.0.2.1:4711"
  body := .ok body

def freshBrowser : World where
  list := { list := some { set := [] } }

def giveAction : Action Unit := .consent oneSite (choiceRequest giveBody) sampleUUID 0 .done

def optOutAction : Action Unit := .optOut oneSite (choiceRequest []) 0 .done

theorem freshBrowser_starts : Starts sampleKey 1 freshBrowser :=
  ⟨rfl, by decide, by simp [World.statnive, freshBrowser, Jar.get]⟩

theorem optOut_apart {w : World} : HashesApart sampleHandlers 1 w optOutAction := by
  intro other v hother _ hne
  have hone : resolveSiteID oneSite (w.sendPrivacy (choiceRequest [])) = .ok 1 := rfl
  exact absurd (Except.ok.inj (hother.symm.trans hone)) hne

theorem give_apart {w : World} (h : listedCookie sampleKey w.list 1 sampleUUID = false) :
    HashesApart sampleHandlers 1 w giveAction := h

theorem last_choice_iff_giveThenOptOut :
    ∃ w, exec (step sampleHandlers) freshBrowser [giveAction, optOutAction] = some w ∧
      Honours sampleKey 1 w :=
  ⟨_, rfl, (last_choice_iff sampleHandlers 1 freshBrowser _ [giveAction, optOutAction]
    freshBrowser_starts rfl
    ⟨give_apart rfl, fun _ _ => ⟨optOut_apart, fun _ _ => trivial⟩⟩).mpr (Or.inr (by decide))⟩

/-- Consent given after an opt-out is not honoured. -/
theorem give_after_optOut_ignored :
    Starts sampleKey 1 freshBrowser ∧
      ∃ w, exec (step sampleHandlers) freshBrowser [optOutAction, giveAction] = some w ∧
        w.choicesAt 1 = [.give, .optOut] ∧ ¬ Honours sampleKey 1 w := by
  refine ⟨freshBrowser_starts, _, rfl, by decide, fun hhonours => ?_⟩
  have hgive : ∀ w, step sampleHandlers freshBrowser optOutAction = some w →
      HashesApart sampleHandlers 1 w giveAction := by
    intro w hw
    obtain rfl := Option.some.inj hw
    exact give_apart rfl
  have hapart : Along (step sampleHandlers) (HashesApart sampleHandlers 1) freshBrowser
      [optOutAction, giveAction] :=
    ⟨optOut_apart, fun w hw => ⟨hgive w hw, fun _ _ => trivial⟩⟩
  have hcond := (inv_run freshBrowser_starts rfl hapart).honours_iff.mp hhonours
  revert hcond
  decide

end Statnive.ConsentOrder
