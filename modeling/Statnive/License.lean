import Statnive.Base64URL
import Statnive.JSONInto

/-!
# License tokens

`Sign` and `VerifyToken`: the claims as `json.Marshal` writes them and `json.Unmarshal` reads
them, three segments, and a signature over the first two as they stand. The signature scheme is
a parameter.
-/

namespace Statnive.License

open PrivacyPolicy VisitorIdentity JSONText
open JSONInto hiding unmarshal
open SuppressionRecord (parseInt64 formatInt toValidUTF8)

/-- A `nil` slice of features is not an empty one. -/
structure Claims where
  customer : Bytes := []
  siteID : UInt32 := 0
  maxEventsDay : UInt64 := 0
  features : Option (List Bytes) := none
  issuedAt : Int64 := 0
  expiresAt : Int64 := 0
  deriving DecidableEq

def customerKey : Bytes := utf8 "sub"

def siteIDKey : Bytes := utf8 "sid"

def maxEventsDayKey : Bytes := utf8 "max"

def featuresKey : Bytes := utf8 "feat"

def issuedAtKey : Bytes := utf8 "iat"

def expiresAtKey : Bytes := utf8 "exp"

def marshalFeatures : Option (List Bytes) → Bytes
  | none => wordNull
  | some features => writeArray (features.map quote)

def marshal (c : Claims) : Bytes :=
  writeObject [(customerKey, quote c.customer), (siteIDKey, formatInt c.siteID.toNat),
    (maxEventsDayKey, formatInt c.maxEventsDay.toNat), (featuresKey, marshalFeatures c.features),
    (issuedAtKey, formatInt c.issuedAt.toInt), (expiresAtKey, formatInt c.expiresAt.toInt)]

/-- What a token is read into. -/
structure Decoded where
  customer : Bytes := []
  siteID : UInt32 := 0
  maxEventsDay : UInt64 := 0
  features : Option (Slice Bytes) := none
  issuedAt : Int64 := 0
  expiresAt : Int64 := 0

def Decoded.claims (d : Decoded) : Claims where
  customer := d.customer
  siteID := d.siteID
  maxEventsDay := d.maxEventsDay
  features := d.features.map Slice.toList
  issuedAt := d.issuedAt
  expiresAt := d.expiresAt

def claimsFields : List (StructField Decoded) :=
  [structField "sub" (intoText id) Decoded.customer (fun d v => { d with customer := v }),
    structField "sid" (intoNumber fun ds => (parseUint 32 ds).map UInt32.ofNat) Decoded.siteID
      (fun d v => { d with siteID := v }),
    structField "max" (intoNumber fun ds => (parseUint 64 ds).map UInt64.ofNat)
      Decoded.maxEventsDay (fun d v => { d with maxEventsDay := v }),
    -- the slice is nil only behind `null`
    structField "feat" (intoPointer (intoSlice (intoText id) []) {}) Decoded.features
      (fun d v => { d with features := v }),
    structField "iat" (intoNumber parseInt64) Decoded.issuedAt
      (fun d v => { d with issuedAt := v }),
    structField "exp" (intoNumber parseInt64) Decoded.expiresAt
      (fun d v => { d with expiresAt := v })]

def unmarshal (bs : Bytes) : Option Claims :=
  (JSONInto.unmarshal (intoStruct claimsFields) {} bs).map Decoded.claims

structure Ed25519 where
  sign : Bytes → Bytes → Bytes
  verify : Bytes → Bytes → Bytes → Bool

def privateKeySize : ℕ := 64

def publicKeySize : ℕ := 32

def jwtHeader : Bytes := utf8 "\x7b\"alg\":\"EdDSA\",\"typ\":\"JWT\"\x7d"

def dot : UInt8 := 0x2E

inductive SignError where
  | privKeySize (n : ℕ)
  deriving DecidableEq

/-- `malformed` stands for a token that is not in three segments, and the next two for the
segments that are not base64. -/
inductive VerifyError where
  | malformed
  | pubKeySize (n : ℕ)
  | signatureSegment
  | claimsSegment
  | claimsUnmarshal
  | invalidSignature
  | expired
  deriving DecidableEq

def signingInput (c : Claims) : Bytes :=
  Base64URL.encode jwtHeader ++ dot :: Base64URL.encode (marshal c)

def sign (e : Ed25519) (priv : Bytes) (c : Claims) : Except SignError Bytes :=
  if priv.length ≠ privateKeySize then .error (.privKeySize priv.length)
  else .ok (signingInput c ++ dot :: Base64URL.encode (e.sign priv (signingInput c)))

/-- No expiry where the time is not positive. -/
def Claims.Expired (c : Claims) (now : Int64) : Prop := 0 < c.expiresAt ∧ c.expiresAt ≤ now

instance (c : Claims) (now : Int64) : Decidable (c.Expired now) :=
  inferInstanceAs (Decidable (_ ∧ _))

def verifyToken (e : Ed25519) (token pubKey : Bytes) (now : Int64) : Except VerifyError Claims :=
  match token.splitOn dot with
  | [header, claims, signature] =>
    if pubKey.length ≠ publicKeySize then .error (.pubKeySize pubKey.length)
    else match Base64URL.decode signature with
      | none => .error .signatureSegment
      | some sig =>
        if e.verify pubKey (header ++ dot :: claims) sig = false then .error .invalidSignature
        else match Base64URL.decode claims with
          | none => .error .claimsSegment
          | some claimsBytes => match unmarshal claimsBytes with
            | none => .error .claimsUnmarshal
            | some c => if c.Expired now then .error .expired else .ok c
  | _ => .error .malformed

/-- The claims with U+FFFD in the place of each byte that is not UTF-8. -/
def Claims.clean (c : Claims) : Claims :=
  { c with
    customer := toValidUTF8 0 c.customer
    features := c.features.map (List.map (toValidUTF8 0)) }

/-- The strings of the claims are text. -/
structure Claims.Valid (c : Claims) : Prop where
  customer : ValidUTF8 c.customer
  features : ∀ features ∈ c.features, ∀ f ∈ features, ValidUTF8 f

theorem clean_of_valid {c : Claims} (h : c.Valid) : c.clean = c := by
  have hfeatures : c.features.map (List.map (toValidUTF8 0)) = c.features := by
    cases hf : c.features with
    | none => rfl
    | some features =>
      have hid : features.map (toValidUTF8 0) = features.map id :=
        List.map_congr_left fun f hmem => toValidUTF8_of_valid (h.features features hf f hmem)
      rw [Option.map_some, hid, List.map_id]
  rw [Claims.clean, toValidUTF8_of_valid h.customer, hfeatures]

/-- What `unmarshal` is shown of the features. -/
def featuresJSON : Option (List Bytes) → JSON
  | none => .null
  | some features => .array (features.map fun f => .string (toValidUTF8 0 f))

private theorem denotes_marshalFeatures (features : Option (List Bytes)) :
    Denotes 1 (marshalFeatures features) (featuresJSON features) := by
  cases features with
  | none => exact denotes_null.mono (by decide)
  | some features =>
    refine denotes_writeArray ?_
    rw [List.forall₂_map_left_iff, List.forall₂_map_right_iff, List.forall₂_same]
    exact fun f _ => denotes_quote f

/-- The slice that the features are read into. -/
def slice (features : List Bytes) : Slice Bytes := ⟨features, features.length⟩

private theorem toList_slice (features : List Bytes) : (slice features).toList = features :=
  Slice.toList_whole features

private theorem intoFeatures (features : Option (List Bytes)) :
    intoPointer (intoSlice (intoText id) []) {} none (featuresJSON features) =
      some (features.map fun fs => slice (fs.map (toValidUTF8 0))) := by
  cases features with
  | none => rfl
  | some features =>
    have hfresh : intoSlice (intoText id) [] {}
        (.array (features.map fun f => JSON.string (toValidUTF8 0 f))) =
          some (slice (features.map (toValidUTF8 0))) := by
      apply intoSlice_fresh
      rw [List.forall₂_map_left_iff, List.forall₂_map_right_iff, List.forall₂_same]
      exact fun f _ => rfl
    rw [featuresJSON, intoPointer, Option.getD_none, hfresh]
    · rfl
    · exact nofun

private theorem read_marshal (c : Claims) : read (marshal c) = some (.object
    [(customerKey, .string (toValidUTF8 0 c.customer)),
      (siteIDKey, .number (formatInt c.siteID.toNat)),
      (maxEventsDayKey, .number (formatInt c.maxEventsDay.toNat)),
      (featuresKey, featuresJSON c.features),
      (issuedAtKey, .number (formatInt c.issuedAt.toInt)),
      (expiresAtKey, .number (formatInt c.expiresAt.toInt))]) := by
  have hnum (key : Bytes) (t : ℤ) : Denotes 1 (key, formatInt t).2 (.number (formatInt t)) :=
    (denotes_formatInt t).mono (by decide)
  have hcustomer : Denotes 1 (customerKey, quote c.customer).2
      (.string (toValidUTF8 0 c.customer)) := (denotes_quote c.customer).mono (by decide)
  have hfeatures : Denotes 1 (featuresKey, marshalFeatures c.features).2
      (featuresJSON c.features) := denotes_marshalFeatures c.features
  have hkey (s : String) : toValidUTF8 0 (utf8 s) = utf8 s := toValidUTF8_of_valid ⟨s, rfl⟩
  have hread := read_writeObject (.cons hcustomer (.cons (hnum siteIDKey c.siteID.toNat)
    (.cons (hnum maxEventsDayKey c.maxEventsDay.toNat)
      (.cons hfeatures (.cons (hnum issuedAtKey c.issuedAt.toInt)
        (.cons (hnum expiresAtKey c.expiresAt.toInt) .nil))))))
    (by decide : 1 + 1 ≤ SuppressionRecord.maxNestingDepth)
  rw [marshal, hread]
  simp only [List.map_cons, List.map_nil, List.zip_cons_cons, List.zip_nil_left, customerKey,
    siteIDKey, maxEventsDayKey, featuresKey, issuedAtKey, expiresAtKey, hkey]

/-- The fields have different names, without regard to case. -/
theorem claimsFields_nodup : (claimsFields.map fun f => foldKey f.name).Nodup := by decide +kernel

theorem unmarshal_marshal (c : Claims) : unmarshal (marshal c) = some c.clean := by
  have hfield {f : StructField Decoded} (hf : f ∈ claimsFields) (d : Decoded) (v : JSON) :
      setMember claimsFields d (f.name, v) = f.into d v :=
    setMember_field hf claimsFields_nodup d v
  have hcustomer := hfield (f := structField "sub" (intoText id) Decoded.customer
    fun d v => { d with customer := v }) (by simp [claimsFields])
  have hsite := hfield (f := structField "sid"
    (intoNumber fun ds => (parseUint 32 ds).map UInt32.ofNat) Decoded.siteID
    fun d v => { d with siteID := v }) (by simp [claimsFields])
  have hmax := hfield (f := structField "max"
    (intoNumber fun ds => (parseUint 64 ds).map UInt64.ofNat) Decoded.maxEventsDay
    fun d v => { d with maxEventsDay := v }) (by simp [claimsFields])
  have hfeatures := hfield (f := structField "feat"
    (intoPointer (intoSlice (intoText id) []) {}) Decoded.features
    fun d v => { d with features := v }) (by simp [claimsFields])
  have hissued := hfield (f := structField "iat" (intoNumber parseInt64) Decoded.issuedAt
    fun d v => { d with issuedAt := v }) (by simp [claimsFields])
  have hexpires := hfield (f := structField "exp" (intoNumber parseInt64) Decoded.expiresAt
    fun d v => { d with expiresAt := v }) (by simp [claimsFields])
  simp only [structField] at hcustomer hsite hmax hfeatures hissued hexpires
  rw [unmarshal, JSONInto.unmarshal, read_marshal]
  simp [intoStruct, customerKey, siteIDKey, maxEventsDayKey, featuresKey, issuedAtKey,
    expiresAtKey, hcustomer, hsite, hmax, hfeatures, hissued, hexpires, intoText, intoNumber,
    intoFeatures, parseUint_formatInt c.siteID.toNat_lt,
    parseUint_formatInt c.maxEventsDay.toNat_lt, SuppressionRecord.parseInt64_formatInt,
    Decoded.claims, Claims.clean, toList_slice, Function.comp_def]

/-- The keys belong together, and what one signs the other verifies. -/
structure Matching (e : Ed25519) (priv pubKey : Bytes) : Prop where
  privSize : priv.length = privateKeySize
  pubSize : pubKey.length = publicKeySize
  verifies : ∀ message, e.verify pubKey message (e.sign priv message) = true

theorem eq_of_splitOn {token header claims signature : Bytes}
    (h : token.splitOn dot = [header, claims, signature]) :
    token = header ++ dot :: (claims ++ dot :: signature) := by
  have hjoin : [dot].intercalate (token.splitOn dot) = token := List.intercalate_splitOn dot
  rw [h] at hjoin
  simpa [List.intercalate] using hjoin.symm

theorem dot_notMem_encode (bs : Bytes) : dot ∉ Base64URL.encode bs := Base64URL.encode_ne_dot

theorem splitOn_token (c : Claims) (signature : Bytes) :
    (signingInput c ++ dot :: Base64URL.encode signature).splitOn dot =
      [Base64URL.encode jwtHeader, Base64URL.encode (marshal c), Base64URL.encode signature] := by
  rw [signingInput, List.append_assoc, List.cons_append,
    List.splitOn_append_cons_self_of_not_mem (dot_notMem_encode _),
    List.splitOn_append_cons_self_of_not_mem (dot_notMem_encode _),
    List.splitOn_eq_singleton (dot_notMem_encode _)]

/-- The segments of a signing input are those that were joined. -/
theorem segments_of_eq {header claims : Bytes} {c : Claims}
    (h : header ++ dot :: claims = signingInput c) :
    header = Base64URL.encode jwtHeader ∧ claims = Base64URL.encode (marshal c) := by
  have hsplit := congrArg (List.splitOn dot) h
  rw [signingInput, List.splitOn_append_cons_self,
    List.splitOn_append_cons_self_of_not_mem (dot_notMem_encode _),
    List.splitOn_eq_singleton (dot_notMem_encode _)] at hsplit
  have hheader : [dot].intercalate (header.splitOn dot) = header := List.intercalate_splitOn dot
  have hclaims : [dot].intercalate (claims.splitOn dot) = claims := List.intercalate_splitOn dot
  cases hh : header.splitOn dot with
  | nil => exact absurd hh (List.splitOn_ne_nil dot header)
  | cons x xs =>
    cases hc : claims.splitOn dot with
    | nil => exact absurd hc (List.splitOn_ne_nil dot claims)
    | cons y ys =>
      rw [hh, hc] at hsplit
      obtain ⟨rfl, hrest⟩ := List.cons.inj hsplit
      obtain ⟨rfl, hlast⟩ := List.append_eq_singleton_iff.mp hrest |>.resolve_right (by simp)
      obtain ⟨rfl, rfl⟩ := List.cons.inj hlast
      rw [hh] at hheader
      rw [hc] at hclaims
      exact ⟨by simpa using hheader.symm, by simpa using hclaims.symm⟩

/-- An accepted token has a signature on its first two segments, and the second gives claims
that are not expired. -/
theorem verifyToken_ok {e : Ed25519} {token pubKey : Bytes} {now : Int64} {c : Claims}
    (h : verifyToken e token pubKey now = .ok c) :
    ∃ header claims signature sig bs, token.splitOn dot = [header, claims, signature] ∧
      Base64URL.decode signature = some sig ∧
      e.verify pubKey (header ++ dot :: claims) sig = true ∧
      Base64URL.decode claims = some bs ∧ unmarshal bs = some c ∧ ¬ c.Expired now := by
  rw [verifyToken] at h
  split at h
  next header claims signature hsplit =>
    split_ifs at h
    split at h
    next => exact nomatch h
    next sig hsig =>
      split_ifs at h with hverify
      split at h
      next => exact nomatch h
      next bs hbs =>
        split at h
        next => exact nomatch h
        next c' hc' =>
          split_ifs at h with hexp
          obtain rfl := Except.ok.inj h
          exact ⟨header, claims, signature, sig, bs, hsplit, hsig, by simpa using hverify, hbs, hc',
            hexp⟩
  next => exact nomatch h

theorem verifyToken_sign {e : Ed25519} {priv pubKey : Bytes} (hkeys : Matching e priv pubKey)
    (c : Claims) (now : Int64) (hnow : ¬ c.Expired now) :
    ∃ token, sign e priv c = .ok token ∧ verifyToken e token pubKey now = .ok c.clean := by
  refine ⟨_, if_neg (not_not.mpr hkeys.privSize), ?_⟩
  rw [verifyToken, splitOn_token]
  dsimp only
  rw [if_neg (not_not.mpr hkeys.pubSize), Base64URL.decode_encode]
  dsimp only
  have hverify := hkeys.verifies (signingInput c)
  rw [signingInput] at hverify ⊢
  rw [hverify, if_neg Bool.noConfusion, Base64URL.decode_encode]
  dsimp only
  rw [unmarshal_marshal]
  exact if_neg hnow

/-- The owner of the key signs claims and the server is shown tokens, in any order. -/
inductive Action where
  | sign (c : Claims)
  | verify (token : Bytes) (now : Int64)

def signedInputs (as : List Action) : List Bytes :=
  as.filterMap fun a => match a with
    | .sign c => some (signingInput c)
    | .verify .. => none

theorem mem_signedInputs {as : List Action} {input : Bytes} :
    input ∈ signedInputs as ↔ ∃ c, .sign c ∈ as ∧ signingInput c = input := by
  rw [signedInputs, List.mem_filterMap]
  constructor
  · rintro ⟨a, ha, h⟩
    cases a with
    | sign c => exact ⟨c, ha, Option.some.inj h⟩
    | verify token now => exact nomatch h
  · rintro ⟨c, hc, rfl⟩
    exact ⟨.sign c, hc, rfl⟩

/-- Nobody but the owner of the key makes signatures: a token with a signature on its first two
segments repeats what was signed before. -/
def Unforgeable (e : Ed25519) (pubKey : Bytes) (as : List Action) : Prop :=
  ∀ before token now after, as = before ++ .verify token now :: after →
    ∀ header claims signature sig, token.splitOn dot = [header, claims, signature] →
      Base64URL.decode signature = some sig →
      e.verify pubKey (header ++ dot :: claims) sig = true →
      header ++ dot :: claims ∈ signedInputs before

/-- Claims that are signed are read back until they expire, and what is accepted carries claims
that were signed, in the signed token up to its last segment. -/
theorem verifyToken_exact {e : Ed25519} {priv pubKey : Bytes} (hkeys : Matching e priv pubKey) :
    (∀ c now, c.Valid → ¬ c.Expired now →
      ∃ token, sign e priv c = .ok token ∧ verifyToken e token pubKey now = .ok c) ∧
    ∀ as, Unforgeable e pubKey as → ∀ before token now after,
      as = before ++ .verify token now :: after →
      ∀ c', verifyToken e token pubKey now = .ok c' →
        ¬ c'.Expired now ∧ ∃ c, .sign c ∈ before ∧ c' = c.clean ∧ (c.Valid → c' = c) ∧
          ∃ signature, token = signingInput c ++ dot :: signature ∧
            sign e priv c =
              .ok (signingInput c ++ dot :: Base64URL.encode (e.sign priv (signingInput c))) := by
  constructor
  · intro c now hvalid hnow
    obtain ⟨token, hsign, hverify⟩ := verifyToken_sign hkeys c now hnow
    exact ⟨token, hsign, clean_of_valid hvalid ▸ hverify⟩
  · intro as hunforgeable before token now after has c' hok
    obtain ⟨header, claims, signature, sig, bs, hsplit, hsig, hverify, hbs, hc', hexp⟩ :=
      verifyToken_ok hok
    have hsigned := hunforgeable before token now after has header claims signature sig hsplit hsig
      hverify
    obtain ⟨c, hc, hinput⟩ := mem_signedInputs.mp hsigned
    obtain ⟨-, rfl⟩ := segments_of_eq hinput.symm
    obtain rfl := Option.some.inj ((Base64URL.decode_encode _).symm.trans hbs)
    obtain rfl := Option.some.inj ((unmarshal_marshal c).symm.trans hc')
    refine ⟨hexp, c, hc, rfl, clean_of_valid, signature, ?_, if_neg (not_not.mpr hkeys.privSize)⟩
    rw [eq_of_splitOn hsplit, hinput, List.append_assoc, List.cons_append]

/-- The signature of a message is the message. -/
def echo : Ed25519 := ⟨fun _ message => message, fun _ message sig => sig = message⟩

private theorem matching_echo : Matching echo (List.replicate 64 0) (List.replicate 32 0) where
  privSize := rfl
  pubSize := rfl
  verifies _ := decide_eq_true rfl

def acme : Claims where
  customer := utf8 "acme"
  siteID := 7
  features := some [utf8 "dashboard"]
  expiresAt := 2000

private theorem valid_acme : acme.Valid where
  customer := ⟨"acme", rfl⟩
  features features hf f hmem := by
    obtain rfl := Option.some.inj hf
    obtain rfl := List.mem_singleton.mp hmem
    exact ⟨"dashboard", rfl⟩

def acmeToken : Bytes := signingInput acme ++ dot :: Base64URL.encode (signingInput acme)

private theorem unforgeable_acme :
    Unforgeable echo (List.replicate 32 0) [.sign acme, .verify acmeToken 1000] := by
  intro before token now after has header claims signature sig hsplit _ _
  match before with
  | [] => exact nomatch (List.cons.inj has).1
  | [_] =>
    simp only [List.cons_append, List.nil_append, List.cons.injEq, Action.verify.injEq] at has
    obtain ⟨rfl, ⟨rfl, -⟩, -⟩ := has
    rw [acmeToken, splitOn_token] at hsplit
    simp only [List.cons.injEq] at hsplit
    obtain ⟨rfl, rfl, -⟩ := hsplit
    exact mem_signedInputs.mpr ⟨acme, List.mem_cons_self, rfl⟩
  | _ :: _ :: _ => simp at has

/-- A token that was signed is accepted before it expires, and its claims are the signed ones. -/
theorem verifyToken_acme :
    ∃ token, sign echo (List.replicate 64 0) acme = .ok token ∧
      verifyToken echo token (List.replicate 32 0) 1000 = .ok acme ∧
      ∃ c ∈ [acme], c.clean = acme := by
  have hexact := verifyToken_exact matching_echo
  obtain ⟨token, hsign, hok⟩ := hexact.1 acme 1000 valid_acme (by decide)
  obtain rfl : acmeToken = token := Except.ok.inj hsign
  obtain ⟨-, c, hc, hclean, -⟩ :=
    hexact.2 _ unforgeable_acme [.sign acme] acmeToken 1000 [] rfl acme hok
  refine ⟨acmeToken, hsign, hok, c, ?_, hclean.symm⟩
  simpa using hc

end Statnive.License
