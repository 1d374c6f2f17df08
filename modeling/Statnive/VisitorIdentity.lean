import Statnive.PrivacyPolicy

/-!
# Hashes of visitor identifiers

The two hashes at rest, over SHA-256 as a parameter.
-/

namespace Statnive.VisitorIdentity

open PrivacyPolicy

/-- The master secret with the hash function it is used with. -/
structure Keyed where
  sha256 : Bytes → Bytes
  masterSecret : Bytes

def siteIDBytes (siteID : ℕ) : Bytes :=
  (List.range 4).map (fun k => UInt8.ofNat (siteID >>> (8 * k)))

def utf8 (s : String) : Bytes := s.toList.flatMap String.utf8EncodeChar

def hexEncode (bs : Bytes) : String :=
  String.ofList (bs.flatMap (fun b => [Nat.digitChar (b.toNat / 16), Nat.digitChar (b.toNat % 16)]))

def tenantScopedSHA256 (key : Keyed) (siteID : ℕ) (value : String) : Bytes :=
  key.sha256 (key.masterSecret ++ siteIDBytes siteID ++ utf8 value)

def hexUserIDHash (key : Keyed) (siteID : ℕ) (userID : String) : String :=
  if userID = "" then "" else hexEncode (tenantScopedSHA256 key siteID userID)

def hexCookieIDHash (key : Keyed) (siteID : ℕ) (cookieID : String) : String :=
  if cookieID = "" then "" else "h:" ++ hexEncode (tenantScopedSHA256 key siteID cookieID)

/-- The prefix keeps the hash of a cookie apart from the empty value. -/
theorem hexCookieIDHash_eq_empty_iff (key : Keyed) (siteID : ℕ) (cookieID : String) :
    hexCookieIDHash key siteID cookieID = "" ↔ cookieID = "" := by
  by_cases h : cookieID = ""
  · simp [hexCookieIDHash, h]
  · simp only [hexCookieIDHash, h, iff_false]
    intro heq
    have hlen := congrArg String.length heq
    simp [String.length_append] at hlen

theorem utf8_injective : Function.Injective utf8 := by
  intro s t h
  have hbytes : s.toList.utf8Encode = t.toList.utf8Encode := congrArg List.toByteArray h
  have hs : String.ofList s.toList = String.ofList t.toList := String.toByteArray_inj.mp hbytes
  simpa using hs

theorem hexEncode_injective : Function.Injective hexEncode := by
  have hdigit : ∀ m < 16, ∀ n < 16, Nat.digitChar m = Nat.digitChar n → m = n := by decide
  intro bs cs h
  have hchars := String.ofList_injective h
  clear h
  induction bs generalizing cs with
  | nil =>
    cases cs with
    | nil => rfl
    | cons c cs => simp at hchars
  | cons b bs ih =>
    cases cs with
    | nil => simp at hchars
    | cons c cs =>
      simp only [List.flatMap_cons, List.cons_append, List.nil_append, List.cons.injEq] at hchars
      obtain ⟨hhigh, hlow, hrest⟩ := hchars
      have hb := b.toNat_lt
      have hc := c.toNat_lt
      have hdiv := hdigit _ (by omega) _ (by omega) hhigh
      have hmod := hdigit _ (by omega) _ (by omega) hlow
      have hbyte : b = c := UInt8.toNat_inj.mp (by omega)
      rw [hbyte, ih hrest]

end Statnive.VisitorIdentity
