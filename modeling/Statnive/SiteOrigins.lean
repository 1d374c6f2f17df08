import Statnive.UrlParse
import Statnive.VisitorIdentity
import Statnive.IngestHandler

/-!
# Origins of sites

The canonical form of an origin, and the toggle of its `www.` prefix.
-/

namespace Statnive.SiteOrigins

open UrlParse PrivacyPolicy VisitorIdentity
open IngestHandler (isSpace trimSpace)

/-- `idna.Lookup`, whose tables are not embedded. It answers with labels of letters, digits
and hyphens, and what it answers is its own answer or refused, unless it is empty. -/
structure LookupProfile where
  toASCII : Bytes → Option Bytes
  ldh : ∀ {host ascii}, toASCII host = some ascii → ∀ c ∈ ascii, isLDH c = true
  again : ∀ {host ascii}, toASCII host = some ascii → ascii ≠ [] →
    toASCII ascii = some ascii ∨ toASCII ascii = none

/-- Text of ASCII bytes. -/
def ofASCII (bs : Bytes) : String := String.ofList (bs.map (fun b => Char.ofNat b.toNat))

def https : Bytes := utf8 "https"

/-- An origin under a scheme, from its host and its port. -/
def renderOrigin (scheme host port : Bytes) : String :=
  ofASCII (scheme ++ ':'.toUInt8 :: '/'.toUInt8 :: '/'.toUInt8 :: (host ++ colonPort port))

def normalizeOrigin (lookup : LookupProfile) (raw : String) : Option String :=
  let s := trimSpace raw
  if s = "" || s = "null" then none
  else match parse (utf8 s) with
  | none => none
  | some u =>
    if u.scheme ≠ https || u.user.isSome || (u.path ≠ [] && u.path ≠ ['/'.toUInt8]) ||
        (u.rawQuery ≠ [] || u.fragment ≠ []) || u.hostname = [] then none
    else (lookup.toASCII u.hostname).map fun ascii => renderOrigin https (ascii.map lower) u.port

def www : Bytes := utf8 "www."

/-- The prefix of a host is toggled, be the host of bytes or of characters. -/
def wwwBareToggleHost {α : Type*} [DecidableEq α] (www host : List α) : Option (List α) :=
  if host = [] then none
  else some (if www.isPrefixOf host then host.drop www.length else www ++ host)

/-- It is only called with canonical origins. -/
def wwwBareToggleOrigin (origin : String) : Option String :=
  match parse (utf8 origin) with
  | none => none
  | some u =>
    if u.scheme = [] || u.host = [] then none
    else (wwwBareToggleHost www u.hostname).map fun host => renderOrigin u.scheme host u.port

theorem toNat_ofNat {n : ℕ} (h : n < 0x80) : (Char.ofNat n).toNat = n := by
  rw [Char.ofNat, dif_pos (Or.inl (by omega))]
  rfl

private theorem utf8EncodeChar_ofNat {b : UInt8} (h : b.toNat < 0x80) :
    String.utf8EncodeChar (Char.ofNat b.toNat) = [b] := by
  have hval : (Char.ofNat b.toNat).val.toNat = b.toNat := toNat_ofNat h
  have hsize : (Char.ofNat b.toNat).utf8Size = 1 := by
    rw [Char.utf8Size_eq_one_iff, UInt32.le_iff_toNat_le, hval]
    exact Nat.le_of_lt_succ h
  rw [String.utf8EncodeChar_eq_singleton hsize]
  have hbyte : (Char.ofNat b.toNat).val.toUInt8 = b := by
    apply UInt8.toNat_inj.mp
    rw [UInt32.toNat_toUInt8, hval]
    omega
  rw [hbyte]

theorem utf8_ofASCII {bs : Bytes} (h : ∀ b ∈ bs, b.toNat < 0x80) : utf8 (ofASCII bs) = bs := by
  have hone : ∀ b ∈ bs, String.utf8EncodeChar (Char.ofNat b.toNat) = [b] :=
    fun b hb => utf8EncodeChar_ofNat (h b hb)
  simp only [utf8, ofASCII, String.toList_ofList, List.flatMap_map]
  rw [List.flatMap_congr hone]
  simp

theorem trimSpace_eq_self {s : String} (h : ∀ c ∈ s.toList, isSpace c = false) :
    trimSpace s = s := by
  have hdrop {l : List Char} (hl : ∀ c ∈ l, isSpace c = false) : l.dropWhile isSpace = l := by
    cases l with
    | nil => rfl
    | cons c cs => simp [hl c (by simp)]
  have hrev : ∀ c ∈ s.toList.reverse, isSpace c = false := fun c hc => h c (by simpa using hc)
  simp [trimSpace, hdrop h, hdrop hrev]

/-- The bytes that an origin of plain parts is made of. -/
def isOriginByte (c : UInt8) : Bool := isPlain c || c = '/'.toUInt8

theorem isOriginByte_bounds {c : UInt8} (h : isOriginByte c = true) :
    0x2D ≤ c.toNat ∧ c.toNat < 0x80 := by
  simp only [isOriginByte, Bool.or_eq_true, decide_eq_true_eq] at h
  rcases h with h | rfl
  · have := isPlain_bounds h
    omega
  · decide

theorem isSpace_of_bounds {c : Char} (hlow : 0x2D ≤ c.toNat) (hhigh : c.toNat < 0x80) :
    isSpace c = false := by
  simp only [isSpace, List.contains_eq_mem]
  simp
  omega

theorem https_isLower : ∀ c ∈ https, isLower c = true := by decide +kernel

theorem https_ne_nil : https ≠ [] := by decide

theorem renderOrigin_ne (host port : Bytes) {s : String} (hs : s.length < 8) :
    renderOrigin https host port ≠ s := by
  intro heq
  have hlen := congrArg String.length heq
  simp [renderOrigin, ofASCII, show https.length = 5 from by decide] at hlen
  omega

section Canonical

variable {host port : Bytes} (hhost : ∀ c ∈ host, isLDH c = true)
  (hport : ∀ c ∈ port, isDigit c = true)
include hhost hport

theorem originBytes : ∀ c ∈ https ++ ':'.toUInt8 :: '/'.toUInt8 :: '/'.toUInt8 ::
    (host ++ colonPort port), isOriginByte c = true := by
  intro c hc
  simp only [List.mem_append (s := https), List.mem_cons] at hc
  rcases hc with hc | rfl | rfl | rfl | hc
  · simp [isOriginByte, isPlain, isLDH, https_isLower c hc]
  · decide
  · decide
  · decide
  · simp [isOriginByte, isPlain_authority hhost hport c hc]

private theorem utf8_renderOrigin : utf8 (renderOrigin https host port) =
    https ++ ':'.toUInt8 :: '/'.toUInt8 :: '/'.toUInt8 :: (host ++ colonPort port) :=
  utf8_ofASCII fun c hc => (isOriginByte_bounds (originBytes hhost hport c hc)).2

theorem parse_renderOrigin : parse (utf8 (renderOrigin https host port)) =
    some { scheme := https, host := host ++ colonPort port } := by
  rw [utf8_renderOrigin hhost hport]
  exact parse_plain https_isLower https_ne_nil hhost hport

private theorem trimSpace_renderOrigin :
    trimSpace (renderOrigin https host port) = renderOrigin https host port := by
  apply trimSpace_eq_self
  intro c hc
  simp only [renderOrigin, ofASCII, String.toList_ofList, List.mem_map] at hc
  obtain ⟨b, hb, rfl⟩ := hc
  obtain ⟨hlow, hhigh⟩ := isOriginByte_bounds (originBytes hhost hport b hb)
  have hval := toNat_ofNat hhigh
  exact isSpace_of_bounds (by omega) (by omega)

/-- An origin of plain parts is normalised by looking its host up. -/
theorem normalizeOrigin_renderOrigin (lookup : LookupProfile) :
    normalizeOrigin lookup (renderOrigin https host port) =
      if host = [] then none
      else (lookup.toASCII host).map fun ascii => renderOrigin https ascii port := by
  have hempty : renderOrigin https host port ≠ "" := renderOrigin_ne host port (by decide)
  have hnull : renderOrigin https host port ≠ "null" := renderOrigin_ne host port (by decide)
  have hname : URL.hostname { scheme := https, host := host ++ colonPort port } = host := by
    simp [URL.hostname, splitHostPort_plain hhost hport]
  have hportEq : URL.port { scheme := https, host := host ++ colonPort port } = port := by
    simp [URL.port, splitHostPort_plain hhost hport]
  simp only [normalizeOrigin, trimSpace_renderOrigin hhost hport, hempty, hnull,
    parse_renderOrigin hhost hport, hname, hportEq]
  by_cases hh : host = []
  · simp [hh]
  · cases hlook : lookup.toASCII host with
    | none => simp [hh]
    | some ascii => simp [hh, map_lower (lookup.ldh hlook)]

theorem wwwBareToggleOrigin_renderOrigin :
    wwwBareToggleOrigin (renderOrigin https host port) =
      (wwwBareToggleHost www host).map fun alt => renderOrigin https alt port := by
  have hname : URL.hostname { scheme := https, host := host ++ colonPort port } = host := by
    simp [URL.hostname, splitHostPort_plain hhost hport]
  have hportEq : URL.port { scheme := https, host := host ++ colonPort port } = port := by
    simp [URL.port, splitHostPort_plain hhost hport]
  simp only [wwwBareToggleOrigin, parse_renderOrigin hhost hport, hname, hportEq]
  by_cases hh : host ++ colonPort port = []
  · have hhost' : host = [] := (List.append_eq_nil_iff.mp hh).1
    simp [hhost', wwwBareToggleHost]
  · simp [hh, https_ne_nil]

end Canonical

/-- The form of what normalisation answers: a host that the look-up leaves as it is or refuses,
unless nothing is left of it. -/
def Canonical (lookup : LookupProfile) (origin : String) : Prop :=
  ∃ host port, (∀ c ∈ host, isLDH c = true) ∧ (∀ c ∈ port, isDigit c = true) ∧
    (host = [] ∨ lookup.toASCII host = some host ∨ lookup.toASCII host = none) ∧
      origin = renderOrigin https host port

theorem port_isDigit (u : URL) : ∀ c ∈ u.port, isDigit c = true := by
  intro c hc
  simp only [URL.port, splitHostPort] at hc
  cases hcut : cutLast ':'.toUInt8 u.host with
  | none =>
    simp only [hcut] at hc
    split at hc <;> simp at hc
  | some parts =>
    by_cases hall : parts.2.all isDigit = true
    · simp only [hcut, hall, if_true] at hc
      split at hc <;> exact List.all_eq_true.mp hall c hc
    · simp only [hcut, hall, Bool.false_eq_true, if_false] at hc
      split at hc <;> simp at hc

theorem canonical_of_normalizeOrigin {lookup : LookupProfile} {raw origin : String}
    (h : normalizeOrigin lookup raw = some origin) : Canonical lookup origin := by
  simp only [normalizeOrigin] at h
  split at h
  · simp at h
  · cases hparse : parse (utf8 (trimSpace raw)) with
    | none => simp [hparse] at h
    | some u =>
      simp only [hparse] at h
      split at h
      · simp at h
      · obtain ⟨ascii, hlook, rfl⟩ := Option.map_eq_some_iff.mp h
        have hldh := lookup.ldh hlook
        refine ⟨ascii, u.port, hldh, port_isDigit u, ?_, by rw [map_lower hldh]⟩
        by_cases hne : ascii = []
        · exact .inl hne
        · exact .inr (lookup.again hlook hne)

/-- The origin is not normalised to itself: for a canonical one, nothing is left of the host, or
the look-up refuses it. -/
def unstable (lookup : LookupProfile) (origin : String) : Bool :=
  normalizeOrigin lookup origin ≠ some origin

/-- Normalising a canonical origin again changes nothing, or refuses it. -/
theorem normalizeOrigin_canonical {lookup : LookupProfile} {origin : String}
    (h : Canonical lookup origin) : normalizeOrigin lookup origin =
      if unstable lookup origin = true then none else some origin := by
  obtain ⟨host, port, hhost, hport, hlook, rfl⟩ := h
  rw [unstable, normalizeOrigin_renderOrigin hhost hport]
  by_cases hh : host = []
  · simp [hh]
  · rcases hlook.resolve_left hh with hlook | hlook <;> simp [hh, hlook]

def plainLabel (label : Bytes) : Bool :=
  label ≠ [] && label.head? ≠ some '-'.toUInt8 && label.getLast? ≠ some '-'.toUInt8 &&
    (label.drop 2).take 2 ≠ ['-'.toUInt8, '-'.toUInt8]

def plainHost (host : Bytes) : Bool :=
  host.all isLDH && (host.splitOn '.'.toUInt8).all plainLabel

/-- A look-up of plain hosts only, and of the prefix of encoded labels, which decodes to
nothing. -/
def sampleLookup : LookupProfile where
  toASCII host :=
    let h := host.map lower
    if plainHost h then some h else if h = utf8 "xn--" then some [] else none
  ldh := by
    intro host ascii h c hc
    simp only at h
    split at h
    · next hplain =>
      obtain rfl := Option.some.inj h
      simp only [plainHost, Bool.and_eq_true] at hplain
      exact List.all_eq_true.mp hplain.1 c hc
    · split at h
      · obtain rfl := Option.some.inj h
        simp at hc
      · simp at h
  again := by
    intro host ascii h hne
    left
    simp only at h ⊢
    split at h
    · next hplain =>
      obtain rfl := Option.some.inj h
      have hldh : ∀ c ∈ host.map lower, isLDH c = true := by
        simp only [plainHost, Bool.and_eq_true] at hplain
        exact List.all_eq_true.mp hplain.1
      rw [map_lower hldh, if_pos hplain]
    · split at h
      · exact absurd (Option.some.inj h).symm hne
      · simp at h

end Statnive.SiteOrigins
