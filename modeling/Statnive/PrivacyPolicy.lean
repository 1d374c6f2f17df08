import Mathlib.Data.List.Basic
import Mathlib.Tactic.Common

/-!
# Requests, site policies and consent modes

What the ingest gate reads of an HTTP request, and how the policy of a site and the
consent signals of the request determine the mode under which an event is ingested.
-/

namespace Statnive.PrivacyPolicy

abbrev Bytes := List UInt8

inductive ReadError where
  | tooLarge | other
  deriving DecidableEq

/-- `header` is `Header.Get`, and `body` what reading the body to its end yields. -/
structure Request where
  header : String → String
  cookies : List (String × String)
  remoteAddr : String
  body : Except ReadError Bytes

/-- The value that `r.Cookie` finds. -/
def Request.cookie (r : Request) (name : String) : Option String :=
  (r.cookies.find? (fun c => c.1 = name)).map Prod.snd

inductive ConsentMode where
  | permissive | consentFree | consentRequired | hybrid
  | other
  deriving DecidableEq

structure SitePolicy where
  respectDNT : Bool := false
  respectGPC : Bool := false
  trackBots : Bool := true
  consentMode : ConsentMode := .permissive
  eventAllowlist : List String := []
  tz : String := ""
  deriving DecidableEq

inductive Mode where
  | current | consentFree | consentRequired | permissive | hybridPreConsent | hybridPostConsent
  deriving DecidableEq

def legacyConsentCookieName : String := "_statnive_consent"

def consentCookieValue : String := "v1"

def consentCookieName (siteID : ℕ) : String :=
  legacyConsentCookieName ++ "_" ++ toString siteID

/-- `dualRead` says that the window for the legacy cookie is still open. -/
def hasValidConsent (dualRead : Bool) (r : Request) (siteID : ℕ) : Bool :=
  if r.cookie (consentCookieName siteID) = some consentCookieValue then true
  else if r.header "X-Statnive-Consent" = "given" then true
  else if dualRead then r.cookie legacyConsentCookieName = some consentCookieValue
  else false

def policyToMode (dualRead : Bool) (r : Request) (siteID : ℕ) (p : SitePolicy) : Mode :=
  match p.consentMode with
  | .consentFree => .consentFree
  | .permissive => .permissive
  | .consentRequired => if hasValidConsent dualRead r siteID then .permissive else .consentRequired
  | .hybrid =>
    if hasValidConsent dualRead r siteID then .hybridPostConsent else .hybridPreConsent
  | .other => .current

def Mode.allowsIdentifier : Mode → Bool
  | .current | .permissive | .hybridPostConsent => true
  | .consentFree | .consentRequired | .hybridPreConsent => false

def Mode.enforcesEventAllowlist : Mode → Bool
  | .consentFree | .hybridPreConsent => true
  | _ => false

def consentDenied (r : Request) (policy : SitePolicy) : Bool :=
  if policy.respectGPC && r.header "Sec-GPC" = "1" then true
  else if policy.respectDNT && r.header "DNT" = "1" then true
  else false

def consentGiven (r : Request) : Bool := r.header "X-Statnive-Consent" = "given"

def cookieName : String := "_statnive"

def legacyOptoutCookieName : String := "_statnive_optout"

def optoutCookieName (siteID : ℕ) : String := legacyOptoutCookieName ++ "_" ++ toString siteID

def hasOptOutCookie (r : Request) (siteID : ℕ) : Bool :=
  r.cookie (optoutCookieName siteID) = some "v1"

theorem consentCookieName_ne (siteID : ℕ) : consentCookieName siteID ≠ cookieName := by
  intro h
  have hlen := congrArg String.length h
  have hlong : "_statnive".length < "_statnive_consent".length := by decide
  simp only [consentCookieName, legacyConsentCookieName, cookieName, String.length_append] at hlen
  omega

private theorem legacyConsentCookieName_ne : legacyConsentCookieName ≠ cookieName := by decide

theorem optoutCookieName_ne (siteID : ℕ) : optoutCookieName siteID ≠ cookieName := by
  intro h
  have hlen := congrArg String.length h
  have hlong : "_statnive".length < "_statnive_optout".length := by decide
  simp only [optoutCookieName, legacyOptoutCookieName, cookieName, String.length_append] at hlen
  omega

theorem optoutCookieName_injective : Function.Injective optoutCookieName := by
  intro a b h
  have hrepr : a.repr = b.repr := String.append_right_inj _ |>.mp h
  have hdigits : Nat.toDigits 10 a = Nat.toDigits 10 b := by
    rw [← Nat.toList_repr, ← Nat.toList_repr, hrepr]
  rw [← @Nat.ofDigitChars_ten_toDigits a, hdigits, Nat.ofDigitChars_ten_toDigits]

/-- The names differ behind `_statnive_`. -/
theorem optoutCookieName_ne_consent (a b : ℕ) : optoutCookieName a ≠ consentCookieName b := by
  intro h
  have hchars := congrArg (fun s => s.toList.take 11) h
  simp [optoutCookieName, consentCookieName, legacyOptoutCookieName, legacyConsentCookieName]
    at hchars

theorem optoutCookieName_ne_legacy (siteID : ℕ) :
    optoutCookieName siteID ≠ legacyConsentCookieName := by
  intro h
  have hchars := congrArg (fun s => s.toList.take 11) h
  simp [optoutCookieName, legacyOptoutCookieName, legacyConsentCookieName] at hchars

/-- The request up to the `_statnive` cookie. -/
structure SameButCookie (r r' : Request) : Prop where
  header : r'.header = r.header
  remoteAddr : r'.remoteAddr = r.remoteAddr
  cookie : ∀ name, name ≠ cookieName → r'.cookie name = r.cookie name

private theorem hasValidConsent_congr {r r' : Request} (h : SameButCookie r r') (dualRead : Bool)
    (siteID : ℕ) : hasValidConsent dualRead r' siteID = hasValidConsent dualRead r siteID := by
  simp only [hasValidConsent, h.header, h.cookie _ (consentCookieName_ne siteID),
    h.cookie _ legacyConsentCookieName_ne]

/-- The `_statnive` cookie has no say in the mode. -/
theorem policyToMode_congr {r r' : Request} (h : SameButCookie r r') (dualRead : Bool)
    (siteID : ℕ) (p : SitePolicy) :
    policyToMode dualRead r' siteID p = policyToMode dualRead r siteID p := by
  simp only [policyToMode, hasValidConsent_congr h]

theorem consentDenied_congr {r r' : Request} (h : SameButCookie r r') (p : SitePolicy) :
    consentDenied r' p = consentDenied r p := by
  simp only [consentDenied, h.header]

theorem consentGiven_congr {r r' : Request} (h : SameButCookie r r') :
    consentGiven r' = consentGiven r := by
  simp only [consentGiven, h.header]

theorem hasOptOutCookie_congr {r r' : Request} (h : SameButCookie r r') (siteID : ℕ) :
    hasOptOutCookie r' siteID = hasOptOutCookie r siteID := by
  simp only [hasOptOutCookie, h.cookie _ (optoutCookieName_ne siteID)]

end Statnive.PrivacyPolicy
