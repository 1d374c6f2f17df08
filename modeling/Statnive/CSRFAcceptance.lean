import Statnive.CSRFTokens

/-!
# What the token check lets through

A request is let through on a cookie whose two parts decode to random bytes and to their tag.
Where nobody else can make a tag, the bytes are those of a token that was issued.
-/

namespace Statnive.CSRFAcceptance

open CSRFTokens PrivacyPolicy VisitorIdentity

/-- The value of the cookie carries these bytes and this tag. -/
def Carries (v : String) (raw tag : Bytes) : Prop :=
  ∃ rawPart sigPart, utf8 v = rawPart ++ csrfTokenSeparator :: sigPart ∧
    csrfTokenSeparator ∉ rawPart ∧ Base64URL.decode rawPart = some raw ∧
    Base64URL.decode sigPart = some tag

/-- The cookie and the header agree on a value that carries some bytes and their tag. -/
def Accepted (k : Signer) (r : Request) : Prop :=
  ∃ v, r.cookie csrfCookieName = some v ∧ v ≠ "" ∧ r.header csrfHeader = v ∧
    ∃ raw, Carries v raw (k.hmacToken raw) ∧ raw.length = csrfRandomBytes

section Check

variable {k : Signer} {r : Request} {v : String}

private theorem eq_append_of_dropWhile {b c : UInt8} {s t : List UInt8}
    (h : s.dropWhile (· ≠ b) = c :: t) :
    s = s.takeWhile (· ≠ b) ++ b :: t ∧ b ∉ s.takeWhile (· ≠ b) := by
  have hc : c = b := by
    have hhead := List.head?_dropWhile_not (fun x => decide (x ≠ b)) s
    rw [h] at hhead
    simpa using hhead
  subst hc
  constructor
  · conv_lhs => rw [← List.takeWhile_append_dropWhile (p := (· ≠ c)) (l := s), h]
  · intro hmem
    simpa using List.mem_takeWhile_imp hmem

theorem verifyHMAC_eq_ok_iff (hsecret : k.secret ≠ []) :
    verifyHMAC k v = .ok () ↔
      ∃ raw, Carries v raw (k.hmacToken raw) ∧ raw.length = csrfRandomBytes := by
  rw [verifyHMAC, if_neg hsecret]
  constructor
  · intro h
    split at h
    next => cases h
    next c sigPart hdrop =>
      obtain ⟨hsplit, hdot⟩ := eq_append_of_dropWhile hdrop
      split at h
      next => cases h
      next raw hraw =>
        split at h
        next => cases h
        next hlen =>
          split at h
          next => cases h
          next got hgot =>
            split at h
            next htag =>
              exact ⟨raw, ⟨_, sigPart, hsplit, hdot, hraw, htag ▸ hgot⟩, not_not.mp hlen⟩
            next => cases h
  · rintro ⟨raw, ⟨rawPart, sigPart, hsplit, hdot, hraw, htag⟩, hlen⟩
    obtain ⟨htake, hdrop⟩ := FormEncoding.takeWhile_ne_append (t := sigPart) hdot
    rw [hsplit, hdrop, htake]
    simp [hraw, hlen, htag]

private theorem cookieFromRequest_eq_iff (hprod : k.devInsecure = false) (hne : v ≠ "") :
    cookieFromRequest k r = v ↔ r.cookie csrfCookieName = some v := by
  rw [cookieFromRequest, hprod]
  cases hcookie : r.cookie csrfCookieName with
  | none => exact iff_of_false hne.symm (by simp)
  | some w =>
    by_cases hw : w = ""
    · subst hw
      rw [Option.filter_some, if_neg (by simp)]
      exact iff_of_false hne.symm fun h => hne (Option.some.inj h).symm
    · rw [Option.filter_some, if_pos (by simpa using hw)]
      exact Option.some_inj.symm

theorem verifyCSRF_eq_ok_iff (hprod : k.devInsecure = false) (hsecret : k.secret ≠ []) :
    verifyCSRF k r = .ok () ↔ Accepted k r := by
  have hcookie {v : String} (hne : v ≠ "") := cookieFromRequest_eq_iff (r := r) hprod hne
  rw [verifyCSRF]
  constructor
  · intro h
    split_ifs at h with hmissing hheader hmatch
    have hsame := not_not.mp hmatch
    exact ⟨_, (hcookie hmissing).mp rfl, hmissing, hsame.symm, (verifyHMAC_eq_ok_iff hsecret).mp h⟩
  · rintro ⟨v, hv, hne, hheader, hcarries⟩
    rw [(hcookie hne).mpr hv, hheader, if_neg hne, if_neg hne, if_neg (not_not.mpr rfl)]
    exact (verifyHMAC_eq_ok_iff hsecret).mpr hcarries

theorem carries_tokenOf (raw : Bytes) : Carries (tokenOf k raw) raw (k.hmacToken raw) :=
  ⟨_, _, utf8_tokenOf k raw, Base64URL.encode_ne_dot, Base64URL.decode_encode raw,
    Base64URL.decode_encode _⟩

/-- A value carries no bytes besides these. -/
theorem Carries.unique {raw raw' tag tag' : Bytes} (h : Carries v raw tag)
    (h' : Carries v raw' tag') : raw = raw' := by
  obtain ⟨rawPart, sigPart, hsplit, hdot, hraw, -⟩ := h
  obtain ⟨rawPart', sigPart', hsplit', hdot', hraw', -⟩ := h'
  obtain ⟨htake, -⟩ := FormEncoding.takeWhile_ne_append (t := sigPart) hdot
  obtain ⟨htake', -⟩ := FormEncoding.takeWhile_ne_append (t := sigPart') hdot'
  have hpart : rawPart = rawPart' := by
    rw [← htake, ← htake', ← hsplit, ← hsplit']
  rw [hpart] at hraw
  exact Option.some.inj (hraw.symm.trans hraw')

end Check

/-- The server issues tokens and is shown requests, in any order. -/
inductive Action where
  | issue (random : Option Bytes)
  | verify (r : Request)

/-- The random bytes whose tag the server has given away. -/
def issued (k : Signer) (as : List Action) : List Bytes :=
  as.filterMap fun a => match a with
    | .issue random => (issueCSRFToken k random).bind fun _ => random
    | .verify _ => none

/-- Nobody but the server makes tags: a request that carries some bytes with their tag repeats
what was given away before. -/
def Unforgeable (k : Signer) (as : List Action) : Prop :=
  ∀ before r after, as = before ++ .verify r :: after →
    ∀ v raw, r.cookie csrfCookieName = some v → Carries v raw (k.hmacToken raw) →
      raw ∈ issued k before

/-- A request is let through exactly on some bytes with their tag, every token that is issued is
let through, and as long as tags cannot be forged nothing else is. -/
theorem verifyCSRF_exact {k : Signer} (hprod : k.devInsecure = false) (hsecret : k.secret ≠ []) :
    (∀ r, verifyCSRF k r = .ok () ↔ Accepted k r) ∧
    (∀ raw token c, raw.length = csrfRandomBytes →
      issueCSRFToken k (some raw) = some (token, c) →
      ∀ r, r.cookie csrfCookieName = some token → r.header csrfHeader = token →
        verifyCSRF k r = .ok ()) ∧
    ∀ as, Unforgeable k as → ∀ before r after, as = before ++ .verify r :: after →
      verifyCSRF k r = .ok () → ∀ v raw tag, r.cookie csrfCookieName = some v →
        Carries v raw tag → raw ∈ issued k before := by
  refine ⟨fun r => verifyCSRF_eq_ok_iff hprod hsecret, ?_, ?_⟩
  · intro raw token c hlen hissued r hcookie hheader
    have hc : c = cookieFor k token := by
      rw [issueCSRFToken, if_neg hsecret, Option.map_some] at hissued
      obtain ⟨rfl, rfl⟩ := Prod.mk.inj (Option.some.inj hissued)
      rfl
    have hnamed : r.cookie c.name = some c.value := by
      rw [hc, cookieFor, hprod]
      exact hcookie
    exact verifyCSRF_issued hissued hlen hnamed (by simp [hprod]) hheader
  · intro as hunforgeable before r after hsplit hok v raw tag hcookie hcarries
    obtain ⟨w, hw, -, -, raw', hraw', -⟩ := (verifyCSRF_eq_ok_iff hprod hsecret).mp hok
    obtain rfl := Option.some.inj (hcookie.symm.trans hw)
    rw [hcarries.unique hraw']
    exact hunforgeable before r after hsplit v raw' hcookie hraw'

/-- The tag of this signer is the message. -/
def copying : Signer := ⟨fun _ raw => raw, [1], false⟩

def zeros : Bytes := List.replicate 32 0

def page : Request where
  header := fun key => if key = csrfHeader then tokenOf copying zeros else ""
  cookies := [(csrfCookieName, tokenOf copying zeros)]
  remoteAddr := "192.0.2.1:40000"
  body := .ok []

theorem cookie_page : page.cookie csrfCookieName = some (tokenOf copying zeros) := by
  simp [page, Request.cookie]

private theorem unforgeable_page : Unforgeable copying [.issue (some zeros), .verify page] := by
  intro before r after hsplit v raw hcookie hcarries
  match before with
  | [] => cases (List.cons.inj hsplit).1
  | [_] =>
    simp only [List.cons_append, List.nil_append, List.cons.injEq, Action.verify.injEq] at hsplit
    obtain ⟨rfl, rfl, rfl⟩ := hsplit
    obtain rfl := Option.some.inj (hcookie.symm.trans cookie_page)
    simp [hcarries.unique (carries_tokenOf zeros), issued, issueCSRFToken, copying]
  | _ :: _ :: _ => simp at hsplit

/-- The page sends back the token it was given. -/
theorem verifyCSRF_page :
    verifyCSRF copying page = .ok () ∧ zeros ∈ issued copying [.issue (some zeros)] := by
  have hexact := verifyCSRF_exact (k := copying) rfl (by decide)
  have hok : verifyCSRF copying page = .ok () :=
    hexact.2.1 zeros (tokenOf copying zeros) _ rfl rfl page cookie_page rfl
  exact ⟨hok, hexact.2.2 _ unforgeable_page [.issue (some zeros)] page [] rfl hok _ zeros _
    cookie_page (carries_tokenOf zeros)⟩

end Statnive.CSRFAcceptance
