import Statnive.Base64URL
import Statnive.CookieJar
import Statnive.FormEncoding
import Statnive.SiteOrigins

/-!
# The double-submit token

`IssueCSRFToken` and `VerifyCSRF`: a random string with its tag in a cookie, which the request
repeats in a header.
-/

namespace Statnive.CSRFTokens

open CookieJar PrivacyPolicy VisitorIdentity
open SiteOrigins (ofASCII utf8_ofASCII)

def csrfCookieName : String := "__Host-statnive_csrf"

def legacyCSRFCookieName : String := "_statnive_csrf"

def csrfHeader : String := "X-CSRF-Token"

def csrfRandomBytes : ℕ := 32

/-- An hour, in seconds. -/
def csrfCookieMaxAge : ℤ := 3600

/-- The dot, in the bytes of a token. -/
def csrfTokenSeparator : UInt8 := 0x2E

inductive CSRFError where
  | missing | mismatch | malformed | badHMAC
  deriving DecidableEq

structure Signer where
  hmacSHA256 : Bytes → Bytes → Bytes
  secret : Bytes
  devInsecure : Bool := false

def Signer.hmacToken (k : Signer) (raw : Bytes) : Bytes := k.hmacSHA256 k.secret raw

def cookieFor (k : Signer) (token : String) : Cookie :=
  if k.devInsecure then
    { name := legacyCSRFCookieName
      value := token
      maxAge := csrfCookieMaxAge
      sameSite := "Lax" }
  else
    { name := csrfCookieName
      value := token
      maxAge := csrfCookieMaxAge
      secure := true
      sameSite := "None" }

def tokenOf (k : Signer) (raw : Bytes) : String :=
  ofASCII (Base64URL.encode raw ++ csrfTokenSeparator :: Base64URL.encode (k.hmacToken raw))

/-- `random` is none where the source of random bytes fails. -/
def issueCSRFToken (k : Signer) (random : Option Bytes) : Option (String × Cookie) :=
  if k.secret = [] then none
  else random.map fun raw => (tokenOf k raw, cookieFor k (tokenOf k raw))

def cookieFromRequest (k : Signer) (r : Request) : String :=
  match (r.cookie csrfCookieName).filter (· ≠ "") with
  | some v => v
  | none =>
    if k.devInsecure then ((r.cookie legacyCSRFCookieName).filter (· ≠ "")).getD "" else ""

def verifyHMAC (k : Signer) (token : String) : Except CSRFError Unit :=
  if k.secret = [] then .error .badHMAC
  else match (utf8 token).dropWhile (· ≠ csrfTokenSeparator) with
  | [] => .error .malformed
  | _ :: sigPart =>
    match Base64URL.decode ((utf8 token).takeWhile (· ≠ csrfTokenSeparator)) with
    | none => .error .malformed
    | some raw =>
      if raw.length ≠ csrfRandomBytes then .error .malformed
      else match Base64URL.decode sigPart with
      | none => .error .malformed
      | some got => if k.hmacToken raw = got then .ok () else .error .badHMAC

def verifyCSRF (k : Signer) (r : Request) : Except CSRFError Unit :=
  if cookieFromRequest k r = "" then .error .missing
  else if r.header csrfHeader = "" then .error .missing
  else if cookieFromRequest k r ≠ r.header csrfHeader then .error .mismatch
  else verifyHMAC k (cookieFromRequest k r)

theorem header_ne_of_verifyCSRF {k : Signer} {r : Request} (h : verifyCSRF k r = .ok ()) :
    r.header csrfHeader ≠ "" := by
  intro hempty
  simp only [verifyCSRF, hempty] at h
  split_ifs at h

theorem utf8_tokenOf (k : Signer) (raw : Bytes) : utf8 (tokenOf k raw) =
    Base64URL.encode raw ++ csrfTokenSeparator :: Base64URL.encode (k.hmacToken raw) := by
  apply utf8_ofASCII
  intro b hb
  rcases List.mem_append.mp hb with hb | hb
  · exact Base64URL.encode_lt b hb
  · rcases List.mem_cons.mp hb with rfl | hb
    · decide
    · exact Base64URL.encode_lt b hb

private theorem verifyHMAC_tokenOf {k : Signer} (hsecret : k.secret ≠ []) {raw : Bytes}
    (hlen : raw.length = csrfRandomBytes) : verifyHMAC k (tokenOf k raw) = .ok () := by
  obtain ⟨htake, hdrop⟩ := FormEncoding.takeWhile_ne_append (b := csrfTokenSeparator)
    (s := Base64URL.encode raw) (t := Base64URL.encode (k.hmacToken raw)) Base64URL.encode_ne_dot
  rw [verifyHMAC, if_neg hsecret, utf8_tokenOf, hdrop, htake]
  simp [Base64URL.decode_encode, hlen]

theorem tokenOf_ne (k : Signer) (raw : Bytes) : tokenOf k raw ≠ "" := by
  simp [tokenOf, ofASCII]

private theorem cookieFromRequest_cookieFor {k : Signer} {r : Request} {token : String}
    (hne : token ≠ "") (hcookie : r.cookie (cookieFor k token).name = some token)
    (hlegacy : k.devInsecure = true → r.cookie csrfCookieName = none) :
    cookieFromRequest k r = token := by
  have hkept : (some token).filter (· ≠ "") = some token := by
    rw [Option.filter_some, if_pos (by simpa using hne)]
  cases hdev : k.devInsecure with
  | false =>
    have hname : r.cookie csrfCookieName = some token := by simpa [cookieFor, hdev] using hcookie
    rw [cookieFromRequest, hname, hkept]
  | true =>
    have hname : r.cookie legacyCSRFCookieName = some token := by
      simpa [cookieFor, hdev] using hcookie
    rw [cookieFromRequest, hlegacy hdev, hdev, hname, hkept]
    rfl

/-- A request that repeats the token of its cookie is let through. -/
theorem verifyCSRF_issued {k : Signer} {raw : Bytes} {r : Request} {token : String} {c : Cookie}
    (hissued : issueCSRFToken k (some raw) = some (token, c))
    (hlen : raw.length = csrfRandomBytes) (hcookie : r.cookie c.name = some c.value)
    (hlegacy : k.devInsecure = true → r.cookie csrfCookieName = none)
    (hheader : r.header csrfHeader = token) : verifyCSRF k r = .ok () := by
  have hsecret : k.secret ≠ [] := by
    intro hnil
    simp [issueCSRFToken, hnil] at hissued
  simp only [issueCSRFToken, if_neg hsecret, Option.map_some, Option.some.injEq,
    Prod.mk.injEq] at hissued
  obtain ⟨rfl, rfl⟩ := hissued
  have hvalue : (cookieFor k (tokenOf k raw)).value = tokenOf k raw := by
    simp only [cookieFor]
    split_ifs <;> rfl
  rw [hvalue] at hcookie
  have hread : cookieFromRequest k r = tokenOf k raw :=
    cookieFromRequest_cookieFor (tokenOf_ne k raw) hcookie hlegacy
  have hne := tokenOf_ne k raw
  simp only [verifyCSRF, hread, hheader, hne, if_false, ne_eq, not_true_eq_false]
  exact verifyHMAC_tokenOf hsecret hlen

end Statnive.CSRFTokens
