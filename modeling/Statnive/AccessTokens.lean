import Statnive.JSONInto
import Statnive.License
import Statnive.OAuthServer

/-!
# Access tokens as text

`SignAccessToken` of the authorization server and `verifyToken` of the resource server: two
programs that share no code. The claims are written as one struct and read into another, and
the key is looked up by the `kid` of the header. `OAuthServer` speaks of the claims alone.
-/

namespace Statnive.AccessTokens

open PrivacyPolicy VisitorIdentity JSONText JSONInto AuthTypes
open SuppressionRecord (formatInt parseInt64 toValidUTF8)
open License (dot)
open OAuthServer (Config Grant)

/-- The exponent is an `int`, in its 64 bits. -/
structure RSAKey where
  n : ℕ
  e : ℕ
  deriving DecidableEq

/-- A point of P-256. -/
structure ECKey where
  x : ℕ
  y : ℕ
  deriving DecidableEq

inductive PublicKey where
  | rsa (k : RSAKey)
  | ec (k : ECKey)
  deriving DecidableEq

/-- PKCS #1 v1.5 signatures and ECDSA, each over the SHA-256 of a message. -/
structure Schemes where
  PrivateKey : Type
  publicOf : PrivateKey → RSAKey
  signRSA : PrivateKey → Bytes → Bytes
  verifyRSA : RSAKey → Bytes → Bytes → Bool
  verifyECDSA : ECKey → Bytes → ℕ → ℕ → Bool

/-- `SetBytes` of a big integer. -/
def setBytes (bs : Bytes) : ℕ := bs.foldl (fun n b => n * 256 + b.toNat) 0

structure AccessClaims where
  iss : String
  sub : String
  aud : String
  scope : String
  siteIDs : List UInt32
  iat : Int64
  nbf : Int64
  exp : Int64
  jti : String

def hexText (width n : ℕ) : List UInt8 :=
  ((List.range width).map fun i => hexDigit (n / 16 ^ i % 16)).reverse

/-- `UUID.String`. -/
def uuidText (id : UserID) : String :=
  let hex := hexText 32 id
  text (hex.take 8 ++ 0x2D :: (hex.drop 8).take 4 ++ 0x2D :: (hex.drop 12).take 4 ++
    0x2D :: (hex.drop 16).take 4 ++ 0x2D :: hex.drop 20)

/-- The sites of a grant are never the `nil` slice, which would be written as `null`. -/
def marshalClaims (c : AccessClaims) : Bytes :=
  writeObject [(utf8 "iss", quote (utf8 c.iss)), (utf8 "sub", quote (utf8 c.sub)),
    (utf8 "aud", quote (utf8 c.aud)), (utf8 "scope", quote (utf8 c.scope)),
    (utf8 "site_ids", writeArray (c.siteIDs.map fun id => formatInt id.toNat)),
    (utf8 "iat", formatInt c.iat.toInt), (utf8 "nbf", formatInt c.nbf.toInt),
    (utf8 "exp", formatInt c.exp.toInt), (utf8 "jti", quote (utf8 c.jti))]

/-- The keys of a map are written in their order. -/
def marshalHeader (kid : String) : Bytes :=
  writeObject [(utf8 "alg", quote (utf8 "RS256")), (utf8 "kid", quote (utf8 kid)),
    (utf8 "typ", quote (utf8 "JWT"))]

structure SigningKey (sch : Schemes) where
  priv : sch.PrivateKey
  kid : String

def signingInput (kid : String) (c : AccessClaims) : Bytes :=
  Base64URL.encode (marshalHeader kid) ++ dot :: Base64URL.encode (marshalClaims c)

variable {sch : Schemes}

def SigningKey.sign (k : SigningKey sch) (c : AccessClaims) : Bytes :=
  signingInput k.kid c ++ dot :: Base64URL.encode (sch.signRSA k.priv (signingInput k.kid c))

def accessClaims (cfg : Config) (g : Grant) (now : ℕ) (jti : String) : AccessClaims where
  iss := cfg.issuer
  sub := uuidText g.userID
  aud := g.audience
  scope := g.scope
  siteIDs := g.siteIDs.map UInt32.ofNat
  iat := Int64.ofNat now
  nbf := Int64.ofNat now
  exp := Int64.ofNat (now + cfg.accessTTL)
  jti := jti

def SigningKey.signAccessToken (k : SigningKey sch) (cfg : Config) (g : Grant) (now : ℕ)
    (jti : String) : Bytes :=
  k.sign (accessClaims cfg g now jti)

structure Header where
  alg : String := ""
  kid : String := ""

def headerFields : List (StructField Header) :=
  [structField "alg" intoString Header.alg (fun h v => { h with alg := v }),
    structField "kid" intoString Header.kid (fun h v => { h with kid := v })]

/-- `aud` is the value as it stands, and `siteIDs` is `none` where the claim is absent. -/
structure JwtClaims where
  iss : String := ""
  aud : Option JSON := none
  exp : Int64 := 0
  nbf : Int64 := 0
  scope : String := ""
  scp : Slice String := {}
  siteIDs : Option (Slice UInt32) := none

def intoUInt32 : Into UInt32 :=
  intoNumber fun ds => (parseUint 32 ds).map UInt32.ofNat

def claimFields : List (StructField JwtClaims) :=
  [structField "iss" intoString JwtClaims.iss (fun c v => { c with iss := v }),
    structField "aud" (fun _ v => some (some v)) JwtClaims.aud (fun c v => { c with aud := v }),
    structField "exp" (intoNumber parseInt64) JwtClaims.exp (fun c v => { c with exp := v }),
    structField "nbf" (intoNumber parseInt64) JwtClaims.nbf (fun c v => { c with nbf := v }),
    structField "scope" intoString JwtClaims.scope (fun c v => { c with scope := v }),
    structField "scp" (intoSlice intoString "") JwtClaims.scp (fun c v => { c with scp := v }),
    structField "site_ids" (intoPointer (intoSlice intoUInt32 0) {}) JwtClaims.siteIDs
      (fun c v => { c with siteIDs := v })]

/-- A string, or what an array has for strings; its other elements are empty. -/
def JwtClaims.audiences (c : JwtClaims) : List String :=
  match c.aud with
  | some (.string bs) => [text bs]
  | some .null => [""]
  | some (.array vs) => vs.map fun v => match v with
    | .string bs => text bs
    | _ => ""
  | _ => []

def JwtClaims.hasScope (c : JwtClaims) (want : String) : Bool :=
  (OAuthServer.fields c.scope).contains want || c.scp.toList.contains want

def jwtLeeway : Int64 := 60

inductive TokenError where
  | malformed | headerSegment | header
  | alg (alg : String)
  | noKey | signatureSegment | keyType | signatureLength | signature
  | claimsSegment | claims
  | iss | aud | expired | notYetValid | scope
  deriving DecidableEq

def validateClaims (cfg : Config) (c : JwtClaims) (now : Int64) : Except TokenError Unit :=
  if c.iss ≠ cfg.issuer then .error .iss
  else if ¬ cfg.audience ∈ c.audiences then .error .aud
  else if c.exp = 0 ∨ c.exp + jwtLeeway < now then .error .expired
  else if 0 < c.nbf ∧ now + jwtLeeway < c.nbf then .error .notYetValid
  else if cfg.requiredScope ≠ "" ∧ c.hasScope cfg.requiredScope = false then .error .scope
  else .ok ()

/-- The type of the key must be that of the algorithm. -/
def verifySignature (sch : Schemes) (alg : String) (pub : PublicKey) (input sig : Bytes) :
    Except TokenError Unit :=
  if alg = "RS256" then match pub with
    | .rsa k => if sch.verifyRSA k input sig then .ok () else .error .signature
    | _ => .error .keyType
  else if alg = "ES256" then match pub with
    | .ec k =>
      if sig.length ≠ 64 then .error .signatureLength
      else if sch.verifyECDSA k input (setBytes (sig.take 32)) (setBytes (sig.drop 32)) then .ok ()
      else .error .signature
    | _ => .error .keyType
  else .error (.alg alg)

/-- `keys` is what `jwks.key` returns for a `kid`. -/
def verifyToken (sch : Schemes) (keys : String → Option PublicKey) (cfg : Config) (raw : Bytes)
    (now : Int64) : Except TokenError JwtClaims :=
  match raw.splitOn dot with
  | [part₀, part₁, part₂] => match Base64URL.decode part₀ with
    | none => .error .headerSegment
    | some hdrBytes => match unmarshal (intoStruct headerFields) {} hdrBytes with
      | none => .error .header
      | some hdr =>
        if hdr.alg ≠ "RS256" ∧ hdr.alg ≠ "ES256" then .error (.alg hdr.alg)
        else match keys hdr.kid with
        | none => .error .noKey
        | some pub => match Base64URL.decode part₂ with
          | none => .error .signatureSegment
          | some sig => do
            verifySignature sch hdr.alg pub (part₀ ++ dot :: part₁) sig
            match Base64URL.decode part₁ with
            | none => .error .claimsSegment
            | some payload => match unmarshal (intoStruct claimFields) {} payload with
              | none => .error .claims
              | some c => do
                validateClaims cfg c now
                .ok c
  | _ => .error .malformed

/-- The grants of a token: its sites within the deployment's, or all of these where it names
none. -/
def grantsForToken (cfg : Config) (c : JwtClaims) : Grants :=
  match c.siteIDs with
  | none => cfg.allowedSiteIDs.map fun siteID => (siteID, .api)
  | some ids =>
    ((ids.toList.map UInt32.toNat).filter (fun siteID => cfg.allowedSiteIDs.contains siteID)).map
      fun siteID => (siteID, .api)

/-- The principal that the middleware puts into the context of a request. -/
def principal (sch : Schemes) (keys : String → Option PublicKey) (cfg : Config) (raw : Bytes)
    (now : Int64) : Option User :=
  match verifyToken sch keys cfg raw now with
  | .error _ => none
  | .ok c => some
    { userID := OAuthServer.oauthActorID, role := .api, sites := some (grantsForToken cfg c) }

theorem toValidUTF8_utf8 (s : String) : toValidUTF8 0 (utf8 s) = utf8 s :=
  toValidUTF8_of_valid ⟨s, rfl⟩

theorem denotes_text (s : String) : Denotes 1 (quote (utf8 s)) (.string (utf8 s)) := by
  have h := (denotes_quote (utf8 s)).mono (by decide : 0 ≤ 1)
  rwa [toValidUTF8_utf8] at h

theorem denotes_number (t : ℤ) : Denotes 1 (formatInt t) (.number (formatInt t)) :=
  (denotes_formatInt t).mono (by decide)

def siteNumbers (siteIDs : List UInt32) : List JSON :=
  siteIDs.map fun id => .number (formatInt id.toNat)

private theorem denotes_siteIDs (siteIDs : List UInt32) :
    Denotes 1 (writeArray (siteIDs.map fun id => formatInt id.toNat))
      (.array (siteNumbers siteIDs)) := by
  apply denotes_writeArray
  rw [siteNumbers, List.forall₂_map_left_iff, List.forall₂_map_right_iff, List.forall₂_same]
  exact fun id _ => denotes_formatInt id.toNat

private theorem read_marshalClaims (c : AccessClaims) : read (marshalClaims c) = some (.object
    [(utf8 "iss", .string (utf8 c.iss)), (utf8 "sub", .string (utf8 c.sub)),
      (utf8 "aud", .string (utf8 c.aud)), (utf8 "scope", .string (utf8 c.scope)),
      (utf8 "site_ids", .array (siteNumbers c.siteIDs)),
      (utf8 "iat", .number (formatInt c.iat.toInt)), (utf8 "nbf", .number (formatInt c.nbf.toInt)),
      (utf8 "exp", .number (formatInt c.exp.toInt)), (utf8 "jti", .string (utf8 c.jti))]) := by
  have hmembers : List.Forall₂ (fun (m : Bytes × Bytes) v => Denotes 1 m.2 v)
      [(utf8 "iss", quote (utf8 c.iss)), (utf8 "sub", quote (utf8 c.sub)),
        (utf8 "aud", quote (utf8 c.aud)), (utf8 "scope", quote (utf8 c.scope)),
        (utf8 "site_ids", writeArray (c.siteIDs.map fun id => formatInt id.toNat)),
        (utf8 "iat", formatInt c.iat.toInt), (utf8 "nbf", formatInt c.nbf.toInt),
        (utf8 "exp", formatInt c.exp.toInt), (utf8 "jti", quote (utf8 c.jti))]
      [.string (utf8 c.iss), .string (utf8 c.sub), .string (utf8 c.aud), .string (utf8 c.scope),
        .array (siteNumbers c.siteIDs), .number (formatInt c.iat.toInt),
        .number (formatInt c.nbf.toInt), .number (formatInt c.exp.toInt),
        .string (utf8 c.jti)] :=
    .cons (denotes_text c.iss) <| .cons (denotes_text c.sub) <| .cons (denotes_text c.aud) <|
      .cons (denotes_text c.scope) <| .cons (denotes_siteIDs c.siteIDs) <|
      .cons (denotes_number c.iat.toInt) <| .cons (denotes_number c.nbf.toInt) <|
      .cons (denotes_number c.exp.toInt) <| .cons (denotes_text c.jti) .nil
  rw [marshalClaims, read_writeObject hmembers (by decide)]
  simp only [List.map_cons, List.map_nil, List.zip_cons_cons, List.zip_nil_left, toValidUTF8_utf8]

private theorem read_marshalHeader (kid : String) : read (marshalHeader kid) = some (.object
    [(utf8 "alg", .string (utf8 "RS256")), (utf8 "kid", .string (utf8 kid)),
      (utf8 "typ", .string (utf8 "JWT"))]) := by
  have hmembers : List.Forall₂ (fun (m : Bytes × Bytes) v => Denotes 1 m.2 v)
      [(utf8 "alg", quote (utf8 "RS256")), (utf8 "kid", quote (utf8 kid)),
        (utf8 "typ", quote (utf8 "JWT"))]
      [.string (utf8 "RS256"), .string (utf8 kid), .string (utf8 "JWT")] :=
    .cons (denotes_text "RS256") <| .cons (denotes_text kid) <| .cons (denotes_text "JWT") .nil
  rw [marshalHeader, read_writeObject hmembers (by decide)]
  simp only [List.map_cons, List.map_nil, List.zip_cons_cons, List.zip_nil_left, toValidUTF8_utf8]

theorem headerNames_nodup : (headerFields.map fun f => foldKey f.name).Nodup := by decide +kernel

private theorem claimNames_nodup :
    (claimFields.map fun f => foldKey f.name).Nodup := by decide +kernel

/-- The header has one member that the verifier does not know, and the claims have three. -/
theorem unknown_members : foldKey (utf8 "typ") ∉ headerFields.map (fun f => foldKey f.name) ∧
    ∀ name ∈ ["sub", "iat", "jti"],
      foldKey (utf8 name) ∉ claimFields.map fun f => foldKey f.name := by
  decide +kernel

theorem unmarshal_marshalHeader (kid : String) :
    unmarshal (intoStruct headerFields) {} (marshalHeader kid) =
      some { alg := "RS256", kid := kid } := by
  have halg (h : Header) (v : JSON) : setMember headerFields h (utf8 "alg", v) =
      (intoString h.alg v).map fun v => { h with alg := v } :=
    setMember_field (f := structField "alg" intoString Header.alg fun h v => { h with alg := v })
      (by simp [headerFields]) headerNames_nodup h v
  have hkid (h : Header) (v : JSON) : setMember headerFields h (utf8 "kid", v) =
      (intoString h.kid v).map fun v => { h with kid := v } :=
    setMember_field (f := structField "kid" intoString Header.kid fun h v => { h with kid := v })
      (by simp [headerFields]) headerNames_nodup h v
  have htyp (h : Header) (v : JSON) : setMember headerFields h (utf8 "typ", v) = some h :=
    setMember_other unknown_members.1 h v
  rw [unmarshal, read_marshalHeader]
  simp [intoStruct, halg, hkid, htyp, intoString, intoText]

/-- The claims as the verifier has them. -/
def AccessClaims.received (c : AccessClaims) : JwtClaims where
  iss := c.iss
  aud := some (.string (utf8 c.aud))
  exp := c.exp
  nbf := c.nbf
  scope := c.scope
  siteIDs := some ⟨c.siteIDs, c.siteIDs.length⟩

private theorem intoSites (siteIDs : List UInt32) :
    intoSlice intoUInt32 0 {} (.array (siteNumbers siteIDs)) =
      some ⟨siteIDs, siteIDs.length⟩ := by
  apply intoSlice_fresh
  rw [siteNumbers, List.forall₂_map_left_iff, List.forall₂_same]
  intro id _
  have hparse := parseUint_formatInt id.toNat_lt
  simp [intoUInt32, intoNumber, hparse]

theorem unmarshal_marshalClaims (c : AccessClaims) :
    unmarshal (intoStruct claimFields) {} (marshalClaims c) = some c.received := by
  have hfield {f : StructField JwtClaims} (hf : f ∈ claimFields) (s : JwtClaims) (v : JSON) :
      setMember claimFields s (f.name, v) = f.into s v :=
    setMember_field hf claimNames_nodup s v
  have hother {name : String} (hname : name ∈ ["sub", "iat", "jti"]) (s : JwtClaims) (v : JSON) :
      setMember claimFields s (utf8 name, v) = some s :=
    setMember_other (unknown_members.2 name hname) s v
  have hiss := hfield (f := structField "iss" intoString JwtClaims.iss
    fun c v => { c with iss := v }) (by simp [claimFields])
  have haud := hfield (f := structField "aud" (fun _ v => some (some v)) JwtClaims.aud
    fun c v => { c with aud := v }) (by simp [claimFields])
  have hexp := hfield (f := structField "exp" (intoNumber parseInt64) JwtClaims.exp
    fun c v => { c with exp := v }) (by simp [claimFields])
  have hnbf := hfield (f := structField "nbf" (intoNumber parseInt64) JwtClaims.nbf
    fun c v => { c with nbf := v }) (by simp [claimFields])
  have hscope := hfield (f := structField "scope" intoString JwtClaims.scope
    fun c v => { c with scope := v }) (by simp [claimFields])
  have hsites := hfield (f := structField "site_ids"
    (intoPointer (intoSlice intoUInt32 0) {}) JwtClaims.siteIDs
    fun c v => { c with siteIDs := v }) (by simp [claimFields])
  simp only [structField] at hiss haud hexp hnbf hscope hsites
  rw [unmarshal, read_marshalClaims]
  simp [intoStruct, hiss, haud, hexp, hnbf, hscope, hsites, hother, intoString, intoText,
    intoNumber, intoPointer, intoSites, SuppressionRecord.parseInt64_formatInt,
    AccessClaims.received]

theorem splitOn_sign (k : SigningKey sch) (c : AccessClaims) :
    (k.sign c).splitOn dot = [Base64URL.encode (marshalHeader k.kid),
      Base64URL.encode (marshalClaims c),
      Base64URL.encode (sch.signRSA k.priv (signingInput k.kid c))] := by
  rw [SigningKey.sign, signingInput, List.append_assoc, List.cons_append,
    List.splitOn_append_cons_self_of_not_mem (License.dot_notMem_encode _),
    List.splitOn_append_cons_self_of_not_mem (License.dot_notMem_encode _),
    List.splitOn_eq_singleton (License.dot_notMem_encode _)]

/-- What the key signs it verifies. -/
def SigningKey.Sound (k : SigningKey sch) : Prop :=
  ∀ message, sch.verifyRSA (sch.publicOf k.priv) message (sch.signRSA k.priv message) = true

/-- The verifier gets the claims that were signed, and judges them. -/
theorem verifyToken_sign {k : SigningKey sch} {keys : String → Option PublicKey}
    (hkey : keys k.kid = some (.rsa (sch.publicOf k.priv))) (hsound : k.Sound) (cfg : Config)
    (c : AccessClaims) (now : Int64) :
    verifyToken sch keys cfg (k.sign c) now =
      (validateClaims cfg c.received now).map fun _ => c.received := by
  have hverify : sch.verifyRSA (sch.publicOf k.priv)
      (Base64URL.encode (marshalHeader k.kid) ++ dot :: Base64URL.encode (marshalClaims c))
      (sch.signRSA k.priv (signingInput k.kid c)) = true := hsound _
  rw [verifyToken, splitOn_sign]
  simp only [Base64URL.decode_encode, unmarshal_marshalHeader, hkey, unmarshal_marshalClaims,
    verifySignature, hverify]
  cases validateClaims cfg c.received now <;> rfl

theorem toNat_siteIDs {siteIDs : List ℕ} (h : ∀ id ∈ siteIDs, id < 2 ^ 32) :
    (siteIDs.map UInt32.ofNat).map UInt32.toNat = siteIDs := by
  rw [List.map_map]
  calc siteIDs.map (UInt32.toNat ∘ UInt32.ofNat) = siteIDs.map id :=
        List.map_congr_left fun id hid => UInt32.toNat_ofNat_of_lt' (h id hid)
    _ = siteIDs := List.map_id siteIDs

private theorem validateClaims_ok {cfg : Config} {c : JwtClaims} {now : Int64} :
    validateClaims cfg c now = .ok () ↔ c.iss = cfg.issuer ∧ cfg.audience ∈ c.audiences ∧
      ¬ (c.exp = 0 ∨ c.exp + jwtLeeway < now) ∧ ¬ (0 < c.nbf ∧ now + jwtLeeway < c.nbf) ∧
      (cfg.requiredScope = "" ∨ c.hasScope cfg.requiredScope = true) := by
  unfold validateClaims
  split_ifs with hiss haud hexp hnbf hscope
  · exact iff_of_false (by simp) (fun h => hiss h.1)
  · exact iff_of_false (by simp) (fun h => h.2.2.1 hexp)
  · exact iff_of_false (by simp) (fun h => h.2.2.2.1 hnbf)
  · refine iff_of_false (by simp) (fun h => ?_)
    rcases h.2.2.2.2 with hnone | hhas
    · exact hscope.1 hnone
    · simp [hscope.2] at hhas
  · rw [not_and_or, not_not, Bool.not_eq_false] at hscope
    rw [not_not] at hiss
    exact iff_of_true rfl ⟨hiss, haud, hexp, hnbf, hscope⟩
  · exact iff_of_false (by simp) (fun h => haud h.2.1)

private theorem validateClaims_iff {cfg : Config} {c : OAuthServer.Claims} {now : ℕ} :
    OAuthServer.validateClaims cfg c now = true ↔ c.iss = cfg.issuer ∧ c.aud = cfg.audience ∧
      ¬ (c.exp = 0 ∨ c.exp + 60 < now) ∧ ¬ (0 < c.nbf ∧ now + 60 < c.nbf) ∧
      (cfg.requiredScope = "" ∨
        (OAuthServer.fields c.scope).contains cfg.requiredScope = true) := by
  have hleeway : OAuthServer.jwtLeeway = 60 := rfl
  simp only [OAuthServer.validateClaims, ← hleeway, Bool.and_eq_true, Bool.or_eq_true,
    Bool.not_eq_true', Bool.or_eq_false_iff, Bool.and_eq_false_iff, decide_eq_true_eq,
    decide_eq_false_iff_not, not_or, not_and_or, and_assoc]

/-- Within the range of unix seconds the verifier's judgement is that of `OAuthServer`. -/
theorem validateClaims_received (cfg : Config) (g : Grant) {issuedAt now : ℕ} (jti : String)
    (hissued : issuedAt + cfg.accessTTL + 60 < 2 ^ 63) (hnow : now + 60 < 2 ^ 63) :
    validateClaims cfg (accessClaims cfg g issuedAt jti).received (Int64.ofNat now) = .ok () ↔
      OAuthServer.validateClaims cfg (OAuthServer.signAccessToken cfg issuedAt g) now = true := by
  have hexp : Int64.ofNat (issuedAt + cfg.accessTTL) + jwtLeeway =
      Int64.ofNat (issuedAt + cfg.accessTTL + 60) := (Int64.ofNat_add _ _).symm
  have hleeway : Int64.ofNat now + jwtLeeway = Int64.ofNat (now + 60) :=
    (Int64.ofNat_add _ _).symm
  have hzero : Int64.ofNat (issuedAt + cfg.accessTTL) = 0 ↔ issuedAt + cfg.accessTTL = 0 := by
    have htoInt := Int64.toInt_ofNat_of_lt (n := issuedAt + cfg.accessTTL) (by omega)
    rw [← Int64.toInt_inj, htoInt]
    exact Int.natCast_eq_zero
  have hlate : Int64.ofNat (issuedAt + cfg.accessTTL + 60) < Int64.ofNat now ↔
      issuedAt + cfg.accessTTL + 60 < now := Int64.ofNat_lt_iff_lt hissued (by omega)
  have hnbf : (0 : Int64) < Int64.ofNat issuedAt ↔ 0 < issuedAt :=
    Int64.ofNat_lt_iff_lt (a := 0) (by omega) (by omega)
  have hearly : Int64.ofNat (now + 60) < Int64.ofNat issuedAt ↔ now + 60 < issuedAt :=
    Int64.ofNat_lt_iff_lt hnow (by omega)
  have haud : cfg.audience ∈ (accessClaims cfg g issuedAt jti).received.audiences ↔
      g.audience = cfg.audience := by
    simp [JwtClaims.audiences, AccessClaims.received, accessClaims, eq_comm]
  have hscope : (accessClaims cfg g issuedAt jti).received.hasScope cfg.requiredScope =
      (OAuthServer.fields g.scope).contains cfg.requiredScope := by
    simp [JwtClaims.hasScope, AccessClaims.received, accessClaims, Slice.toList]
  rw [validateClaims_ok, validateClaims_iff, haud, hscope]
  simp only [AccessClaims.received, accessClaims, OAuthServer.signAccessToken, hexp, hleeway,
    hzero, hlate, hnbf, hearly]

/-- The verifier makes of a signed token the principal that `OAuthServer` makes of its
claims. -/
theorem principal_signAccessToken (k : SigningKey sch) (keys : String → Option PublicKey)
    (hkey : keys k.kid = some (.rsa (sch.publicOf k.priv))) (hsound : k.Sound) (cfg : Config)
    (g : Grant) (hsites : ∀ id ∈ g.siteIDs, id < 2 ^ 32) (issuedAt now : ℕ) (jti : String)
    (hissued : issuedAt + cfg.accessTTL + 60 < 2 ^ 63) (hnow : now + 60 < 2 ^ 63) :
    principal sch keys cfg (k.signAccessToken cfg g issuedAt jti) (Int64.ofNat now) =
      OAuthServer.oauthPrincipal cfg (OAuthServer.signAccessToken cfg issuedAt g) now := by
  have hvalid := validateClaims_received cfg g jti hissued hnow
  have hgrants : grantsForToken cfg (accessClaims cfg g issuedAt jti).received =
      OAuthServer.grantsForToken cfg (OAuthServer.signAccessToken cfg issuedAt g) := by
    simp only [grantsForToken, AccessClaims.received, accessClaims, OAuthServer.grantsForToken,
      OAuthServer.signAccessToken, Slice.toList_whole, toNat_siteIDs hsites]
  rw [principal, SigningKey.signAccessToken, verifyToken_sign hkey hsound,
    OAuthServer.oauthPrincipal]
  cases hv : validateClaims cfg (accessClaims cfg g issuedAt jti).received (Int64.ofNat now) with
  | error e =>
    have hnot : ¬ OAuthServer.validateClaims cfg (OAuthServer.signAccessToken cfg issuedAt g) now =
        true := fun h => by simp [hv] at hvalid; simp [hvalid] at h
    rw [if_neg hnot]
    rfl
  | ok _ =>
    rw [if_pos (hvalid.mp hv)]
    simp only [Except.map, hgrants]
    rfl

/-- The signature is one of the header's algorithm, by a key of its type. -/
def GoodSignature (sch : Schemes) (alg : String) (pub : PublicKey) (input sig : Bytes) : Prop :=
  (∃ k, alg = "RS256" ∧ pub = .rsa k ∧ sch.verifyRSA k input sig = true) ∨
    ∃ k, alg = "ES256" ∧ pub = .ec k ∧ sig.length = 64 ∧
      sch.verifyECDSA k input (setBytes (sig.take 32)) (setBytes (sig.drop 32)) = true

private theorem verifySignature_ok {alg : String} {pub : PublicKey} {input sig : Bytes}
    (h : verifySignature sch alg pub input sig = .ok ()) : GoodSignature sch alg pub input sig := by
  unfold verifySignature at h
  by_cases hrsa : alg = "RS256"
  · rw [if_pos hrsa] at h
    cases pub with
    | rsa k =>
      simp only at h
      split_ifs at h with hverify
      exact .inl ⟨k, hrsa, rfl, hverify⟩
    | ec k => simp at h
  · rw [if_neg hrsa] at h
    by_cases hec : alg = "ES256"
    · rw [if_pos hec] at h
      cases pub with
      | rsa k => simp at h
      | ec k =>
        simp only at h
        split_ifs at h with hlen hverify
        exact .inr ⟨k, hec, rfl, not_not.mp hlen, hverify⟩
    · simp [if_neg hec] at h

/-- Whatever is accepted has three segments, a header that names a known key, a signature by
that key over the first two segments as they stand, and claims that pass. -/
theorem verifyToken_ok {keys : String → Option PublicKey} {cfg : Config} {raw : Bytes}
    {now : Int64} {c : JwtClaims} (h : verifyToken sch keys cfg raw now = .ok c) :
    ∃ part₀ part₁ part₂ hdr pub sig payload, raw.splitOn dot = [part₀, part₁, part₂] ∧
      (Base64URL.decode part₀).bind (unmarshal (intoStruct headerFields) {}) = some hdr ∧
      keys hdr.kid = some pub ∧ Base64URL.decode part₂ = some sig ∧
      GoodSignature sch hdr.alg pub (part₀ ++ dot :: part₁) sig ∧
      Base64URL.decode part₁ = some payload ∧
      unmarshal (intoStruct claimFields) {} payload = some c ∧
      validateClaims cfg c now = .ok () := by
  unfold verifyToken at h
  split at h
  next part₀ part₁ part₂ hsplit =>
    split at h
    next => cases h
    next hdrBytes hdecode =>
      split at h
      next => cases h
      next hdr hhdr =>
        split_ifs at h with halg
        split at h
        next => cases h
        next pub hpub =>
          split at h
          next => cases h
          next sig hsig =>
            cases hverify : verifySignature sch hdr.alg pub (part₀ ++ dot :: part₁) sig with
            | error e => simp [hverify, Bind.bind, Except.bind] at h
            | ok _ =>
              simp only [hverify, Bind.bind, Except.bind] at h
              split at h
              next => cases h
              next payload hpayload =>
                split at h
                next => cases h
                next c' hc' =>
                  cases hvalid : validateClaims cfg c' now with
                  | error e => simp [hvalid] at h
                  | ok _ =>
                    simp only [hvalid, Except.ok.injEq] at h
                    subst h
                    exact ⟨part₀, part₁, part₂, hdr, pub, sig, payload, hsplit,
                      by simp [hdecode, hhdr], hpub, hsig, verifySignature_ok hverify, hpayload,
                      hc', hvalid⟩
  next => cases h

end Statnive.AccessTokens
