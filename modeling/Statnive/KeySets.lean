import Mathlib.Data.Nat.Digits.Defs
import Statnive.AccessTokens
import Statnive.SiteOrigins

/-!
# The published keys

The document of `/.well-known/jwks.json` as the authorization server writes it, and the keys
that the resource server makes of it. A key is known under its thumbprint.
-/

namespace Statnive.KeySets

open PrivacyPolicy VisitorIdentity JSONText JSONInto AccessTokens
open SiteOrigins (ofASCII utf8_ofASCII)
open OAuthServer (Config Grant)

/-- `Bytes` of a big integer. -/
def bigBytes (n : ℕ) : Bytes := (Nat.digits 256 n).reverse.map UInt8.ofNat

/-- `base64.RawURLEncoding.EncodeToString`. -/
def base64 (bs : Bytes) : String := ofASCII (Base64URL.encode bs)

structure PublishedKey where
  pub : RSAKey
  kid : String

/-- The keys of a map are written in their order. -/
def rsaJWK (k : PublishedKey) : Bytes :=
  writeObject [(utf8 "alg", quote (utf8 "RS256")),
    (utf8 "e", quote (utf8 (base64 (bigBytes k.pub.e)))), (utf8 "kid", quote (utf8 k.kid)),
    (utf8 "kty", quote (utf8 "RSA")),
    (utf8 "n", quote (utf8 (base64 (bigBytes k.pub.n)))), (utf8 "use", quote (utf8 "sig"))]

def marshalJWKS (keys : List PublishedKey) : Bytes :=
  writeObject [(utf8 "keys", writeArray (keys.map rsaJWK))]

/-- The text whose digest is the thumbprint; its quotes need no escapes. -/
def canonical (pub : RSAKey) : Bytes :=
  utf8 "\x7b\"e\":" ++ quote (utf8 (base64 (bigBytes pub.e))) ++ utf8 ",\"kty\":\"RSA\",\"n\":" ++
    quote (utf8 (base64 (bigBytes pub.n))) ++ utf8 "\x7d"

def thumbprint (sha256 : Bytes → Bytes) (pub : RSAKey) : String := base64 (sha256 (canonical pub))

/-- The active key, and the retired ones that are still published. -/
structure KeyRing (sch : Schemes) where
  priv : sch.PrivateKey
  retired : List RSAKey

variable {sch : Schemes}

def publish (sha256 : Bytes → Bytes) (pub : RSAKey) : PublishedKey := ⟨pub, thumbprint sha256 pub⟩

def KeyRing.publics (r : KeyRing sch) : List RSAKey := sch.publicOf r.priv :: r.retired

/-- `LoadSigningKey`. -/
def KeyRing.published (sha256 : Bytes → Bytes) (r : KeyRing sch) : List PublishedKey :=
  r.publics.map (publish sha256)

/-- A key is named by its thumbprint. -/
def signingKey (sha256 : Bytes → Bytes) (priv : sch.PrivateKey) : SigningKey sch :=
  ⟨priv, thumbprint sha256 (sch.publicOf priv)⟩

structure Jwk where
  kty : String := ""
  kid : String := ""
  n : String := ""
  e : String := ""
  crv : String := ""
  x : String := ""
  y : String := ""

def jwkFields : List (StructField Jwk) :=
  [structField "kty" intoString Jwk.kty (fun k v => { k with kty := v }),
    structField "kid" intoString Jwk.kid (fun k v => { k with kid := v }),
    structField "n" intoString Jwk.n (fun k v => { k with n := v }),
    structField "e" intoString Jwk.e (fun k v => { k with e := v }),
    structField "crv" intoString Jwk.crv (fun k v => { k with crv := v }),
    structField "x" intoString Jwk.x (fun k v => { k with x := v }),
    structField "y" intoString Jwk.y (fun k v => { k with y := v })]

/-- The document has the one field. -/
def docFields : List (StructField (Slice Jwk)) :=
  [structField "keys" (intoSlice (intoStruct jwkFields) {}) id (fun _ v => v)]

/-- Shifted into an `int`. -/
def exponent (bs : Bytes) : ℕ := bs.foldl (fun e b => (e * 256 + b.toNat) % 2 ^ 64) 0

def parseJWK (k : Jwk) : Option PublicKey :=
  if k.kty = "RSA" then do
    let nb ← Base64URL.decode (utf8 k.n)
    let eb ← Base64URL.decode (utf8 k.e)
    some (.rsa ⟨setBytes nb, exponent eb⟩)
  else if k.kty = "EC" then
    if k.crv ≠ "P-256" then none
    else do
      let xb ← Base64URL.decode (utf8 k.x)
      let yb ← Base64URL.decode (utf8 k.y)
      some (.ec ⟨setBytes xb, setBytes yb⟩)
  else none

def defaultKID : String := "_default"

def keyID (kid : String) : String := if kid = "" then defaultKID else kid

def jwksMaxBody : ℕ := 2 ^ 20

/-- The first value of a body that is read up to its limit. -/
def decodeBody (body : Bytes) : Option (Slice Jwk) := do
  let bs := body.take jwksMaxBody
  let (v, _) ← readValue (2 * bs.length + 2) 0 bs
  intoStruct docFields {} v

/-- Keys that are not usable are skipped, and a later one replaces its namesake. -/
def usableKeys (ks : List Jwk) : List (String × PublicKey) :=
  ks.filterMap fun k => (parseJWK k).map fun pub => (keyID k.kid, pub)

/-- The keys of a fetched document, of which there must be one. -/
def parseKeys (body : Bytes) : Option (List (String × PublicKey)) := do
  let doc ← decodeBody body
  let keys := usableKeys doc.toList
  if keys = [] then none else some keys

def lookup (keys : List (String × PublicKey)) (kid : String) : Option PublicKey :=
  (keys.reverse.find? fun k => k.1 = keyID kid).map Prod.snd

theorem foldl_digits (ds : List ℕ) (h : ∀ d ∈ ds, d < 256) :
    setBytes (ds.reverse.map UInt8.ofNat) = Nat.ofDigits 256 ds := by
  induction ds with
  | nil => rfl
  | cons d ds ih =>
    obtain ⟨hd, hds⟩ := List.forall_mem_cons.mp h
    have hd' : (UInt8.ofNat d).toNat = d := UInt8.toNat_ofNat_of_lt' hd
    have hih := ih hds
    rw [setBytes] at hih
    rw [setBytes, List.reverse_cons, List.map_append, List.foldl_append, hih, Nat.ofDigits_cons]
    simp only [List.map_cons, List.map_nil, List.foldl_cons, List.foldl_nil, hd']
    omega

theorem setBytes_bigBytes (n : ℕ) : setBytes (bigBytes n) = n := by
  rw [bigBytes, foldl_digits _ fun d hd => Nat.digits_lt_base (by decide) hd]
  exact Nat.ofDigits_digits 256 n

private theorem exponent_eq (bs : Bytes) : exponent bs = setBytes bs % 2 ^ 64 := by
  have hfold : ∀ e n : ℕ, e = n % 2 ^ 64 →
      bs.foldl (fun e b => (e * 256 + b.toNat) % 2 ^ 64) e =
        bs.foldl (fun n b => n * 256 + b.toNat) n % 2 ^ 64 := by
    induction bs with
    | nil => exact fun e n h => h
    | cons b bs ih =>
      intro e n h
      apply ih
      dsimp only
      omega
  exact hfold 0 0 rfl

theorem decode_base64 (bs : Bytes) : Base64URL.decode (utf8 (base64 bs)) = some bs := by
  rw [base64, utf8_ofASCII fun b hb => Base64URL.encode_lt b hb, Base64URL.decode_encode]

def jwkJSON (k : PublishedKey) : JSON :=
  .object [(utf8 "alg", .string (utf8 "RS256")),
    (utf8 "e", .string (utf8 (base64 (bigBytes k.pub.e)))), (utf8 "kid", .string (utf8 k.kid)),
    (utf8 "kty", .string (utf8 "RSA")), (utf8 "n", .string (utf8 (base64 (bigBytes k.pub.n)))),
    (utf8 "use", .string (utf8 "sig"))]

private theorem denotes_rsaJWK (k : PublishedKey) : Denotes 2 (rsaJWK k) (jwkJSON k) := by
  have hmembers : List.Forall₂ (fun (m : Bytes × Bytes) v => Denotes 1 m.2 v)
      [(utf8 "alg", quote (utf8 "RS256")),
        (utf8 "e", quote (utf8 (base64 (bigBytes k.pub.e)))), (utf8 "kid", quote (utf8 k.kid)),
        (utf8 "kty", quote (utf8 "RSA")),
        (utf8 "n", quote (utf8 (base64 (bigBytes k.pub.n)))), (utf8 "use", quote (utf8 "sig"))]
      [.string (utf8 "RS256"), .string (utf8 (base64 (bigBytes k.pub.e))), .string (utf8 k.kid),
        .string (utf8 "RSA"), .string (utf8 (base64 (bigBytes k.pub.n))), .string (utf8 "sig")] :=
    .cons (denotes_text _) <| .cons (denotes_text _) <| .cons (denotes_text _) <|
      .cons (denotes_text _) <| .cons (denotes_text _) <| .cons (denotes_text _) .nil
  have h := denotes_writeObject hmembers
  simp only [List.map_cons, List.map_nil, List.zip_cons_cons, List.zip_nil_left,
    toValidUTF8_utf8] at h
  exact h

private theorem read_marshalJWKS (keys : List PublishedKey) : read (marshalJWKS keys) =
    some (.object [(utf8 "keys", .array (keys.map jwkJSON))]) := by
  have hkeys : Denotes 3 (writeArray (keys.map rsaJWK)) (.array (keys.map jwkJSON)) := by
    apply denotes_writeArray
    rw [List.forall₂_map_left_iff, List.forall₂_map_right_iff, List.forall₂_same]
    exact fun k _ => denotes_rsaJWK k
  have hmembers : List.Forall₂ (fun (m : Bytes × Bytes) v => Denotes 3 m.2 v)
      [(utf8 "keys", writeArray (keys.map rsaJWK))] [.array (keys.map jwkJSON)] := .cons hkeys .nil
  rw [marshalJWKS, read_writeObject hmembers (by decide)]
  simp only [List.map_cons, List.map_nil, List.zip_cons_cons, List.zip_nil_left, toValidUTF8_utf8]

private theorem jwkNames_nodup : (jwkFields.map fun f => foldKey f.name).Nodup := by decide +kernel

private theorem docNames_nodup : (docFields.map fun f => foldKey f.name).Nodup := by decide +kernel

theorem unknown_members : ∀ name ∈ ["alg", "use"],
    foldKey (utf8 name) ∉ jwkFields.map fun f => foldKey f.name := by
  decide +kernel

def PublishedKey.received (k : PublishedKey) : Jwk where
  kty := "RSA"
  kid := k.kid
  n := base64 (bigBytes k.pub.n)
  e := base64 (bigBytes k.pub.e)

private theorem intoStruct_jwkJSON (k : PublishedKey) :
    intoStruct jwkFields {} (jwkJSON k) = some k.received := by
  have hfield {f : StructField Jwk} (hf : f ∈ jwkFields) (s : Jwk) (v : JSON) :
      setMember jwkFields s (f.name, v) = f.into s v :=
    setMember_field hf jwkNames_nodup s v
  have hother {name : String} (hname : name ∈ ["alg", "use"]) (s : Jwk) (v : JSON) :
      setMember jwkFields s (utf8 name, v) = some s :=
    setMember_other (unknown_members name hname) s v
  have hkty := hfield (f := structField "kty" intoString Jwk.kty fun k v => { k with kty := v })
    (by simp [jwkFields])
  have hkid := hfield (f := structField "kid" intoString Jwk.kid fun k v => { k with kid := v })
    (by simp [jwkFields])
  have hn := hfield (f := structField "n" intoString Jwk.n fun k v => { k with n := v })
    (by simp [jwkFields])
  have he := hfield (f := structField "e" intoString Jwk.e fun k v => { k with e := v })
    (by simp [jwkFields])
  simp only [structField] at hkty hkid hn he
  rw [jwkJSON]
  simp [intoStruct, hkty, hkid, hn, he, hother, intoString, intoText, PublishedKey.received]

/-- A key that is published is usable as it is. -/
theorem parseJWK_received (k : PublishedKey) (he : k.pub.e < 2 ^ 64) :
    parseJWK k.received = some (.rsa k.pub) := by
  have hexp : exponent (bigBytes k.pub.e) = k.pub.e := by
    rw [exponent_eq, setBytes_bigBytes, Nat.mod_eq_of_lt he]
  simp [parseJWK, PublishedKey.received, decode_base64, setBytes_bigBytes, hexp]

private theorem intoStruct_keys (keys : List PublishedKey) :
    intoStruct docFields {} (.object [(utf8 "keys", .array (keys.map jwkJSON))]) =
      some ⟨keys.map PublishedKey.received, keys.length⟩ := by
  have hslice : intoSlice (intoStruct jwkFields) {} {} (.array (keys.map jwkJSON)) =
      some ⟨keys.map PublishedKey.received, (keys.map PublishedKey.received).length⟩ := by
    apply intoSlice_fresh
    rw [List.forall₂_map_left_iff, List.forall₂_map_right_iff, List.forall₂_same]
    exact fun k _ => intoStruct_jwkJSON k
  have hmember (doc : Slice Jwk) (v : JSON) : setMember docFields doc (utf8 "keys", v) =
      (intoSlice (intoStruct jwkFields) {} doc v).map id :=
    setMember_field
      (f := structField "keys" (intoSlice (intoStruct jwkFields) {}) id fun _ v => v)
      (by simp [docFields]) docNames_nodup doc v
  simp [intoStruct, hmember, hslice]

private theorem decodeBody_marshalJWKS {keys : List PublishedKey}
    (hsize : (marshalJWKS keys).length ≤ jwksMaxBody) :
    decodeBody (marshalJWKS keys) = some ⟨keys.map PublishedKey.received, keys.length⟩ := by
  have hread := read_marshalJWKS keys
  rw [JSONText.read, Option.bind_eq_bind, Option.bind_eq_some_iff] at hread
  obtain ⟨⟨v, rest⟩, hvalue, hv⟩ := hread
  obtain ⟨-, hv⟩ := Option.ite_none_right_eq_some.mp hv
  obtain rfl := Option.some.inj hv
  rw [decodeBody, List.take_of_length_le hsize]
  simp only [hvalue, Option.bind_eq_bind, Option.bind_some, intoStruct_keys]

private theorem usableKeys_received {keys : List PublishedKey} (he : ∀ k ∈ keys, k.pub.e < 2 ^ 64) :
    usableKeys (keys.map PublishedKey.received) =
      keys.map fun k => (keyID k.kid, .rsa k.pub) := by
  rw [usableKeys, List.filterMap_map]
  induction keys with
  | nil => rfl
  | cons k keys ih =>
    obtain ⟨hk, hkeys⟩ := List.forall_mem_cons.mp he
    have hkid : k.received.kid = k.kid := rfl
    rw [List.map_cons, ← ih hkeys, List.filterMap_cons_some]
    rw [Function.comp_apply, parseJWK_received k hk, Option.map_some, hkid]

/-- The document of a set of keys, within the limit on its size, gives these keys. -/
theorem parseKeys_marshalJWKS {keys : List PublishedKey} (hne : keys ≠ [])
    (he : ∀ k ∈ keys, k.pub.e < 2 ^ 64) (hsize : (marshalJWKS keys).length ≤ jwksMaxBody) :
    parseKeys (marshalJWKS keys) = some (keys.map fun k => (keyID k.kid, .rsa k.pub)) := by
  have hlist : (Slice.mk (keys.map PublishedKey.received) keys.length).toList =
      keys.map PublishedKey.received := by
    rw [Slice.toList, ← List.length_map PublishedKey.received, List.take_length]
  rw [parseKeys, decodeBody_marshalJWKS hsize]
  simp only [Option.bind_eq_bind, Option.bind_some, hlist, usableKeys_received he]
  rw [if_neg (by simpa using hne)]

theorem base64_injective : Function.Injective base64 := by
  intro a b h
  have hdecode := decode_base64 a
  rw [h, decode_base64] at hdecode
  exact (Option.some.inj hdecode).symm

private theorem base64_ne_empty {bs : Bytes} (h : bs ≠ []) : base64 bs ≠ "" := by
  intro hempty
  exact h (base64_injective (hempty.trans (by rfl : "" = base64 [])))

/-- The text is the object that its quotes make it look like. -/
theorem canonical_eq (pub : RSAKey) : canonical pub =
    writeObject [(utf8 "e", quote (utf8 (base64 (bigBytes pub.e)))),
      (utf8 "kty", quote (utf8 "RSA")), (utf8 "n", quote (utf8 (base64 (bigBytes pub.n))))] := by
  have hopen : utf8 "\x7b\"e\":" = 0x7B :: (quote (utf8 "e") ++ [0x3A]) := by decide +kernel
  have hmiddle : utf8 ",\"kty\":\"RSA\",\"n\":" = 0x2C :: (quote (utf8 "kty") ++
      0x3A :: (quote (utf8 "RSA") ++ 0x2C :: (quote (utf8 "n") ++ [0x3A]))) := by decide +kernel
  have hclose : utf8 "\x7d" = [0x7D] := by decide +kernel
  rw [canonical, hopen, hmiddle, hclose]
  simp only [writeObject, writeMember, writeElements, List.map_cons, List.map_nil,
    List.append_assoc, List.cons_append, List.nil_append]

theorem read_canonical (pub : RSAKey) : JSONText.read (canonical pub) = some (.object
    [(utf8 "e", .string (utf8 (base64 (bigBytes pub.e)))), (utf8 "kty", .string (utf8 "RSA")),
      (utf8 "n", .string (utf8 (base64 (bigBytes pub.n))))]) := by
  have hmembers : List.Forall₂ (fun (m : Bytes × Bytes) v => Denotes 1 m.2 v)
      [(utf8 "e", quote (utf8 (base64 (bigBytes pub.e)))), (utf8 "kty", quote (utf8 "RSA")),
        (utf8 "n", quote (utf8 (base64 (bigBytes pub.n))))]
      [.string (utf8 (base64 (bigBytes pub.e))), .string (utf8 "RSA"),
        .string (utf8 (base64 (bigBytes pub.n)))] :=
    .cons (denotes_text _) <| .cons (denotes_text _) <| .cons (denotes_text _) .nil
  rw [canonical_eq, read_writeObject hmembers (by decide)]
  simp only [List.map_cons, List.map_nil, List.zip_cons_cons, List.zip_nil_left, toValidUTF8_utf8]

theorem bigBytes_injective : Function.Injective bigBytes := by
  intro a b h
  rw [← setBytes_bigBytes a, h, setBytes_bigBytes]

/-- Keys with one text are one key. -/
theorem canonical_injective : Function.Injective canonical := by
  intro a b h
  have hread := read_canonical a
  rw [h, read_canonical b] at hread
  simp only [Option.some.injEq, JSON.object.injEq, List.cons.injEq, Prod.mk.injEq, true_and,
    JSON.string.injEq, and_true] at hread
  obtain ⟨he, hn⟩ := hread
  have he' := bigBytes_injective (base64_injective (utf8_injective he))
  have hn' := bigBytes_injective (base64_injective (utf8_injective hn))
  cases a
  cases b
  simp only [RSAKey.mk.injEq]
  exact ⟨hn'.symm, he'.symm⟩

/-- The digest is SHA-256's, and makes no collision among the published keys; the document is
within the limit. -/
structure KeyRing.Servable (sha256 : Bytes → Bytes) (r : KeyRing sch) : Prop where
  digest : ∀ message, (sha256 message).length = 32
  distinct : ∀ a ∈ r.publics, ∀ b ∈ r.publics,
    sha256 (canonical a) = sha256 (canonical b) → canonical a = canonical b
  exponents : ∀ pub ∈ r.publics, pub.e < 2 ^ 64
  size : (marshalJWKS (r.published sha256)).length ≤ jwksMaxBody

variable {sha256 : Bytes → Bytes} {r : KeyRing sch}

theorem KeyRing.Servable.keyID (h : r.Servable sha256) (pub : RSAKey) :
    keyID (thumbprint sha256 pub) = thumbprint sha256 pub := by
  apply if_neg
  apply base64_ne_empty
  intro hnil
  have hlen := h.digest (canonical pub)
  rw [hnil] at hlen
  cases hlen

theorem KeyRing.Servable.parseKeys (h : r.Servable sha256) :
    parseKeys (marshalJWKS (r.published sha256)) =
      some (r.publics.map fun pub => (thumbprint sha256 pub, .rsa pub)) := by
  have hne : r.published sha256 ≠ [] := by simp [KeyRing.published, KeyRing.publics]
  have he : ∀ k ∈ r.published sha256, k.pub.e < 2 ^ 64 := by
    intro k hk
    obtain ⟨pub, hpub, rfl⟩ := List.mem_map.mp hk
    exact h.exponents pub hpub
  rw [parseKeys_marshalJWKS hne he h.size, KeyRing.published, List.map_map]
  congr 2
  funext pub
  rw [Function.comp_apply, publish, h.keyID]

/-- A published key is found under its thumbprint. -/
theorem KeyRing.Servable.lookup (h : r.Servable sha256) {pub : RSAKey} (hpub : pub ∈ r.publics) :
    lookup (r.publics.map fun pub => (thumbprint sha256 pub, .rsa pub)) (thumbprint sha256 pub) =
      some (.rsa pub) := by
  rw [KeySets.lookup, h.keyID, ← List.map_reverse]
  cases hfind : (r.publics.reverse.map fun pub => (thumbprint sha256 pub, PublicKey.rsa pub)).find?
      fun k => k.1 = thumbprint sha256 pub with
  | none =>
    rw [List.find?_eq_none] at hfind
    have hmem : (thumbprint sha256 pub, PublicKey.rsa pub) ∈
        r.publics.reverse.map fun pub => (thumbprint sha256 pub, PublicKey.rsa pub) :=
      List.mem_map_of_mem (List.mem_reverse.mpr hpub)
    exact absurd (decide_eq_true rfl) (hfind _ hmem)
  | some k =>
    obtain ⟨other, hother, rfl⟩ := List.mem_map.mp (List.mem_of_find?_eq_some hfind)
    have hkid : thumbprint sha256 other = thumbprint sha256 pub := by
      simpa using List.find?_some hfind
    have hsame := h.distinct other (List.mem_reverse.mp hother) pub hpub (base64_injective hkid)
    rw [canonical_injective hsame]
    rfl

theorem lookup_mem {keys : List (String × PublicKey)} {kid : String} {pub : PublicKey}
    (h : lookup keys kid = some pub) : (keyID kid, pub) ∈ keys := by
  rw [lookup, Option.map_eq_some_iff] at h
  obtain ⟨k, hk, rfl⟩ := h
  have hkid : k.1 = keyID kid := by simpa using List.find?_some hk
  rw [← hkid]
  exact List.mem_reverse.mp (List.mem_of_find?_eq_some hk)

/-- The resource server, from the document of the authorization server, makes of a token that
one of the published keys signed the principal of its grant. -/
theorem principal_published (h : r.Servable sha256) (priv : sch.PrivateKey)
    (hpriv : sch.publicOf priv ∈ r.publics) (hsound : (signingKey sha256 priv).Sound)
    (cfg : Config) (g : Grant) (hsites : ∀ id ∈ g.siteIDs, id < 2 ^ 32) (issuedAt now : ℕ)
    (jti : String) (hissued : issuedAt + cfg.accessTTL + 60 < 2 ^ 63) (hnow : now + 60 < 2 ^ 63) :
    ∃ keys, parseKeys (marshalJWKS (r.published sha256)) = some keys ∧
      principal sch (lookup keys) cfg
          ((signingKey sha256 priv).signAccessToken cfg g issuedAt jti) (Int64.ofNat now) =
        OAuthServer.oauthPrincipal cfg (OAuthServer.signAccessToken cfg issuedAt g) now := by
  refine ⟨_, h.parseKeys, ?_⟩
  exact principal_signAccessToken (signingKey sha256 priv) _ (h.lookup hpriv) hsound cfg g hsites
    issuedAt now jti hissued hnow

/-- A signature is the message, and a private key its public one. -/
def echo : Schemes where
  PrivateKey := RSAKey
  publicOf k := k
  signRSA _ message := message
  verifyRSA _ message sig := sig = message
  verifyECDSA _ _ _ _ := false

/-- A digest of the length of SHA-256's. -/
def firstBytes (message : Bytes) : Bytes := (message ++ List.replicate 32 0).take 32

def exampleRing : KeyRing echo := ⟨⟨3233, 65537⟩, [⟨2773, 17⟩]⟩

theorem servable_exampleRing : exampleRing.Servable firstBytes where
  digest message := by simp [firstBytes]
  distinct := by decide +kernel
  exponents := by decide
  size := by decide +kernel

def retiredKey : SigningKey echo := signingKey firstBytes ⟨2773, 17⟩

def exampleConfig : Config where
  issuer := "https://analytics.example"
  audience := "https://analytics.example/mcp"
  requiredScope := "analytics:read"
  allowedSiteIDs := [1, 2, 3]

def exampleGrant : Grant where
  clientID := "client"
  userID := 7
  scope := "analytics:read"
  audience := "https://analytics.example/mcp"
  siteIDs := [1, 3, 9]

/-- A token of the retired key reads the consented sites within the deployment's. -/
theorem principal_published_retired :
    ∃ keys, parseKeys (marshalJWKS (exampleRing.published firstBytes)) = some keys ∧
      principal echo (lookup keys) exampleConfig
          (retiredKey.signAccessToken exampleConfig exampleGrant 1000 "jti") (Int64.ofNat 1100) =
        some { userID := OAuthServer.oauthActorID, role := .api,
               sites := some [(1, .api), (3, .api)] } := by
  have hprincipal := principal_published servable_exampleRing (⟨2773, 17⟩ : echo.PrivateKey)
    (by decide) (fun message => decide_eq_true rfl) exampleConfig exampleGrant (by decide) 1000
    1100 "jti" (by decide) (by decide)
  obtain ⟨keys, hkeys, h⟩ := hprincipal
  refine ⟨keys, hkeys, h.trans ?_⟩
  decide +kernel

end Statnive.KeySets
