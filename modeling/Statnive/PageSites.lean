import Statnive.OriginUniqueness
import Statnive.SiteIdentity
import Statnive.SiteWrites

/-!
# The site of a page

The privacy endpoints take the site of a page from the origins that sites list, ingest takes it
from the hostnames of sites. Both look a second time under the toggled `www.` prefix.
-/

namespace Statnive.PageSites

open SiteOrigins SiteRegistry OriginIndex SitesHandlers RegistryInvariants LabelledRuns UrlParse
open PrivacyPolicy (Bytes)
open VisitorIdentity (utf8)
open IngestHandler (trimSpace isSpace)
open EnrichPipeline (extractHostLower afterFirst trimLeft)
open SiteIdentity (afterFirst_eq_none cutLast_eq_none)
open SiteWrites (canonicalOrigins canonicalOrigins_of_mapM)

section Fallback

variable {κ α : Type*} {alt : κ → Option κ} {f g : κ → Option α}

def withFallback (alt : κ → Option κ) (f : κ → Option α) (k : κ) : Option α :=
  (f k).or ((alt k).bind f)

theorem withFallback_eq_some {k : κ} {a : α} : withFallback alt f k = some a ↔
    f k = some a ∨ f k = none ∧ ∃ k', alt k = some k' ∧ f k' = some a := by
  cases hk : f k <;> simp [withFallback, hk, Option.bind_eq_some_iff]

end Fallback

/-- The host of a page with its port, as a browser writes them. -/
structure IsPage (lookup : LookupProfile) (page : Bytes × Bytes) : Prop where
  host : ∀ c ∈ page.1, isLDH c = true
  port : ∀ c ∈ page.2, isDigit c = true
  canonical : lookup.toASCII page.1 = some page.1
  nonempty : page.1 ≠ []

def pageHost (page : Bytes × Bytes) : String := ofASCII (page.1 ++ colonPort page.2)

def pageOrigin (page : Bytes × Bytes) : String := renderOrigin https page.1 page.2

def togglePage (page : Bytes × Bytes) : Option (Bytes × Bytes) :=
  (wwwBareToggleHost www page.1).map fun host => (host, page.2)

/-- Where both resolvers know the page, they name one site. -/
def Agree (u : SiteTables) (s : State) : Prop :=
  ∀ page, IsPage u.toLookupProfile page → ∀ p q,
    indexLookup u.toLookupProfile s.index ("https://" ++ pageHost page) = some p →
      lookupSiteIDByHostname u s.rows answered (pageHost page) = some q → p = q

/-- The site that the index gives an origin to. -/
structure Lists (lookup : LookupProfile) (rows : List SiteRow) (origin : String) (a : SiteRow) :
    Prop where
  mem : a ∈ rows
  holds : Holds lookup a origin
  least : ∀ row ∈ rows, Holds lookup row origin → a.siteID ≤ row.siteID

/-- The site that a hostname stands for. -/
structure Serves (rows : List SiteRow) (host : Bytes) (b : SiteRow) : Prop where
  first : rows.find? (fun row => row.hostname = ofASCII host && row.enabled) = some b
  siteID_ne : b.siteID ≠ 0

/-- The hostname of an origin in canonical form. -/
def originHost (origin : String) : Option String :=
  (parse (utf8 origin)).map fun url => ofASCII url.hostname

/-- Two hostnames are the same, or one is the other one toggled. -/
def Near (host hostname : String) : Prop :=
  host = hostname ∨ wwwToggle host = hostname ∨ wwwToggle hostname = host

instance (host hostname : String) : Decidable (Near host hostname) :=
  inferInstanceAs (Decidable (_ ∨ _ ∨ _))

/-- The origin is one of a page that stands under the hostname, or under its toggled form. -/
def StandsAt (origin hostname : String) : Prop := ∃ host ∈ originHost origin, Near host hostname

instance (origin hostname : String) : Decidable (StandsAt origin hostname) :=
  inferInstanceAs (Decidable (∃ host ∈ originHost origin, _))

/-- Among the origins is one of a page under the hostname, which is not among `own`, the origins
of the site of that hostname. -/
def Crosses (u : SiteTables) (origins : List String) (hostname : String) (own : List String) :
    Prop :=
  ∃ origin ∈ canonicalOrigins u origins,
    StandsAt origin hostname ∧ origin ∉ canonicalOrigins u own

instance (u : SiteTables) (origins : List String) (hostname : String) (own : List String) :
    Decidable (Crosses u origins hostname own) :=
  inferInstanceAs (Decidable (∃ _ ∈ _, _))

/-- Neither of two sites names the pages of the other one alone. -/
def Separate (u : SiteTables) (hostname : String) (origins : List String) (other : SiteRow) :
    Prop :=
  ¬ Crosses u origins other.hostname other.allowedOrigins ∧
    ¬ Crosses u other.allowedOrigins hostname origins

instance (u : SiteTables) (hostname : String) (origins : List String) (other : SiteRow) :
    Decidable (Separate u hostname origins other) :=
  inferInstanceAs (Decidable (_ ∧ _))

/-- The hostname and the origins that a create asks for, and those that a patch leaves its site
if the site is enabled then, are separate from those of every other enabled site. -/
def NamesOwn (u : SiteTables) (s : State) (r : Served) : Prop :=
  match r.request with
  | .create (some req) => ∀ other ∈ s.rows, other.enabled = true →
      Separate u (u.lowerString (trimSpace req.hostname)) (req.allowedOrigins.getD []) other
  | .update siteIDParam (some req) => ∀ siteID ∈ AuthGuards.parseSiteID siteIDParam,
      ∀ row ∈ s.rows, row.siteID = siteID → row.enabled = true ∨ req.enabled = some true →
        ∀ other ∈ s.rows, other.siteID ≠ siteID → other.enabled = true →
          Separate u row.hostname (req.allowedOrigins.getD row.allowedOrigins) other
  | _ => True

instance (u : SiteTables) (s : State) (r : Served) : Decidable (NamesOwn u s r) :=
  match r with
  | ⟨.create (some req), _⟩ => inferInstanceAs (Decidable (∀ other ∈ s.rows, _ →
      Separate u (u.lowerString (trimSpace req.hostname)) (req.allowedOrigins.getD []) other))
  | ⟨.update siteIDParam (some req), _⟩ => inferInstanceAs (Decidable
      (∀ siteID ∈ AuthGuards.parseSiteID siteIDParam,
        ∀ row ∈ s.rows, row.siteID = siteID → row.enabled = true ∨ req.enabled = some true →
          ∀ other ∈ s.rows, other.siteID ≠ siteID → other.enabled = true →
            Separate u row.hostname (req.allowedOrigins.getD row.allowedOrigins) other))
  | ⟨.create none, _⟩ | ⟨.update _ none, _⟩ | ⟨.reload, _⟩ => .isTrue trivial

variable {u : SiteTables} {rows : List SiteRow} {page : Bytes × Bytes}

def char (b : UInt8) : Char := Char.ofNat b.toNat

theorem toNat_char {b : UInt8} (h : b.toNat < 0x80) : (char b).toNat = b.toNat := toNat_ofNat h

theorem toList_ofASCII (bs : Bytes) : (ofASCII bs).toList = bs.map char := by
  simp [ofASCII, char]

private theorem ofASCII_append (a b : Bytes) : ofASCII (a ++ b) = ofASCII a ++ ofASCII b := by
  simp [ofASCII, String.ofList_append]

theorem lt_of_isLDH {bs : Bytes} (h : ∀ c ∈ bs, isLDH c = true) : ∀ c ∈ bs, c.toNat < 0x80 :=
  fun c hc => by
    have hbounds := isPlain_bounds (isPlain_of_isLDH (h c hc))
    omega

theorem ofASCII_inj {a b : Bytes} (ha : ∀ c ∈ a, isLDH c = true) (hb : ∀ c ∈ b, isLDH c = true)
    (h : ofASCII a = ofASCII b) : a = b := by
  rw [← utf8_ofASCII (lt_of_isLDH ha), h, utf8_ofASCII (lt_of_isLDH hb)]

private theorem origin_eq (page : Bytes × Bytes) : "https://" ++ pageHost page =
    pageOrigin page := by
  have hscheme : ofASCII (https ++ [':'.toUInt8, '/'.toUInt8, '/'.toUInt8]) = "https://" := by
    decide +kernel
  rw [pageHost, pageOrigin, renderOrigin, ← hscheme, ← ofASCII_append]
  simp

private theorem isHostnameChar_char {b : UInt8} (h : isLDH b = true) : isHostnameChar (char b) =
    true := by
  have hb := isLDH_iff.mp h
  have hval : (char b).toNat = b.toNat := toNat_char (by omega)
  simp only [isHostnameChar, Bool.or_eq_true, Bool.and_eq_true, decide_eq_true_eq, Char.le_def,
    UInt32.le_iff_toNat_le, ← Char.toNat_inj]
  have hnat : (char b).val.toNat = b.toNat := hval
  simp only [hnat, hval]
  simp
  omega

private theorem isSpace_char {b : UInt8} (h : isPlain b = true) : isSpace (char b) = false := by
  have hb := isPlain_bounds h
  exact isSpace_of_bounds (by rw [toNat_char] <;> omega) (by rw [toNat_char] <;> omega)

private theorem toLower_char (u : SiteTables) {b : UInt8} (h : isLDH b = true) :
    u.toLower (char b) = char b := by
  have hb := isLDH_iff.mp h
  have hval : (char b).toNat = b.toNat := toNat_char (by omega)
  rw [u.toLower_ascii _ (by omega)]
  rcases toLower_cases (char b) with hsame | ⟨hlow, hhigh, -⟩
  · exact hsame
  · omega

theorem lowerString_ofASCII (u : SiteTables) {bs : Bytes} (h : ∀ c ∈ bs, isLDH c = true) :
    u.lowerString (ofASCII bs) = ofASCII bs := by
  rw [Unicode.lowerString, toList_ofASCII, List.map_map, ofASCII]
  congr 1
  exact List.map_congr_left fun b hb => toLower_char u (h b hb)

/-- A pattern is not found where one of its characters is missing. -/
theorem afterFirst_eq_none_of_mem {c : Char} {pat cs : List Char} (hpat : c ∈ pat) (h : c ∉ cs) :
    afterFirst pat cs = none := by
  induction cs with
  | nil => simp [afterFirst, List.ne_nil_of_mem hpat]
  | cons d cs ih =>
    have hpre : pat.isPrefixOf (d :: cs) = false := by
      rw [Bool.eq_false_iff]
      intro hpre
      obtain ⟨rest, hrest⟩ := List.isPrefixOf_iff_prefix.mp hpre
      exact h (hrest ▸ List.mem_append_left rest hpat)
    rw [afterFirst, hpre, if_neg (by simp)]
    exact ih fun hmem => h (List.mem_cons_of_mem d hmem)

theorem cutLast_append {c : Char} {front back : List Char} (h : c ∉ back) :
    EnrichPipeline.cutLast c (front ++ c :: back) = some (front, back) := by
  have hne : ∀ d ∈ back.reverse, (decide (d ≠ c)) = true := fun d hd => by
    have hmem : d ∈ back := by simpa using hd
    simpa using fun heq : d = c => h (heq ▸ hmem)
  have hrev : (front ++ c :: back).reverse = back.reverse ++ c :: front.reverse := by simp
  have htake : (back.reverse ++ c :: front.reverse).takeWhile (· ≠ c) = back.reverse := by
    rw [List.takeWhile_append_of_pos hne]
    simp
  have hdrop : (back.reverse ++ c :: front.reverse).dropWhile (· ≠ c) = c :: front.reverse := by
    rw [List.dropWhile_append_of_pos hne]
    simp
  rw [EnrichPipeline.cutLast, hrev, htake, hdrop]
  simp

/-- A host is found again in its text, and its port is left out. -/
theorem extractHostLower_port {toLower : String → String} {host port : List Char}
    (hhost : ∀ c ∈ host, isHostnameChar c = true) (hport : ∀ c ∈ port, isHostnameChar c = true) :
    extractHostLower toLower (String.ofList (host ++ ':' :: port)) =
      toLower (String.ofList host) := by
  have hnot {c : Char} (hc : isHostnameChar c = false) : c ∉ host ∧ c ∉ port :=
    ⟨fun hmem => by simp [hhost c hmem] at hc, fun hmem => by simp [hport c hmem] at hc⟩
  have hmiss {c : Char} (hc : isHostnameChar c = false) (hne : c ≠ ':') :
      c ∉ host ++ ':' :: port := by simp [hnot hc, hne]
  have hslash : trimLeft "//".toList (host ++ ':' :: port) = host ++ ':' :: port := by
    rw [trimLeft, if_neg]
    intro hpre
    obtain ⟨rest, hrest⟩ := List.isPrefixOf_iff_prefix.mp hpre
    exact hmiss (c := '/') (by decide) (by decide) (by simp [← hrest])
  have hcut : (host ++ ':' :: port).takeWhile (fun c => c ≠ '/' && c ≠ '?' && c ≠ '#') =
      host ++ ':' :: port := by
    rw [List.takeWhile_eq_self_iff]
    intro c hc
    have hne {d : Char} (hd : isHostnameChar d = false) (hd' : d ≠ ':') : c ≠ d :=
      fun heq => hmiss hd hd' (heq ▸ hc)
    simp [hne (d := '/') (by decide) (by decide), hne (d := '?') (by decide) (by decide),
      hne (d := '#') (by decide) (by decide)]
  have hscheme : afterFirst "://".toList (host ++ ':' :: port) = none :=
    afterFirst_eq_none_of_mem (c := '/') (by decide) (hmiss (by decide) (by decide))
  have huser := cutLast_eq_none (hmiss (c := '@') (by decide) (by decide))
  have hbracket : (host ++ ':' :: port).contains ']' = false := by
    simpa using hmiss (c := ']') (by decide) (by decide)
  have hlast : EnrichPipeline.cutLast ':' (host ++ ':' :: port) = some (host, port) :=
    cutLast_append (hnot (by decide)).2
  simp only [extractHostLower, String.toList_ofList, hscheme, Option.getD_none, hslash, hcut,
    huser, Option.map_none, hbracket, Bool.false_eq_true, if_false, hlast, Option.map_some,
    Option.getD_some]

private theorem normalizeHostname_page (hpage : IsPage u.toLookupProfile page) :
    normalizeHostname u (pageHost page) = ofASCII page.1 := by
  obtain ⟨hhost, hport, -, -⟩ := hpage
  have htrim : trimSpace (pageHost page) = pageHost page := by
    apply trimSpace_eq_self
    intro c hc
    rw [pageHost, toList_ofASCII] at hc
    obtain ⟨b, hb, rfl⟩ := List.mem_map.mp hc
    exact isSpace_char (isPlain_authority hhost hport b hb)
  have hchars {bs : Bytes} (h : ∀ c ∈ bs, isLDH c = true) :
      ∀ c ∈ bs.map char, isHostnameChar c = true := by
    intro c hc
    obtain ⟨b, hb, rfl⟩ := List.mem_map.mp hc
    exact isHostnameChar_char (h b hb)
  rw [normalizeHostname, htrim, pageHost, colonPort]
  by_cases hp : page.2 = []
  · rw [if_pos hp, List.append_nil, SiteIdentity.extractHostLower_host, lowerString_ofASCII u hhost]
    rw [toList_ofASCII]
    exact hchars hhost
  · have htext : ofASCII (page.1 ++ ':'.toUInt8 :: page.2) =
        String.ofList (page.1.map char ++ ':' :: page.2.map char) := by
      simp only [ofASCII, List.map_append, List.map_cons]
      rfl
    rw [if_neg hp, htext, extractHostLower_port (hchars hhost)
      (hchars fun c hc => isLDH_of_isDigit (hport c hc))]
    exact lowerString_ofASCII u hhost

theorem www_chars : www.map char = "www.".toList := by decide

/-- A prefix of bytes is one of characters. -/
theorem isPrefixOf_map_char {host : Bytes} (h : ∀ c ∈ host, isLDH c = true) :
    "www.".toList.isPrefixOf (host.map char) = www.isPrefixOf host := by
  rw [Bool.eq_iff_iff, List.isPrefixOf_iff_prefix, List.isPrefixOf_iff_prefix, ← www_chars]
  constructor
  · intro hpre
    have htake : (host.take 4).map char = www.map char := by
      rw [List.map_take]
      exact (List.prefix_iff_eq_take.mp hpre).symm
    have hbytes : ofASCII (host.take 4) = ofASCII www := congrArg String.ofList htake
    have hhost : host.take 4 = www := by
      refine ofASCII_inj (fun c hc => h c (List.mem_of_mem_take hc)) ?_ hbytes
      decide +kernel
    exact hhost ▸ List.take_prefix 4 host
  · exact fun hpre => hpre.map char

theorem wwwToggle_ofASCII {host alt : Bytes} (h : ∀ c ∈ host, isLDH c = true)
    (htoggle : wwwBareToggleHost www host = some alt) : wwwToggle (ofASCII host) = ofASCII alt := by
  obtain ⟨hne, halt⟩ := Option.ite_none_left_eq_some.mp htoggle
  have hmap : host.map char ≠ [] := by simpa using hne
  rw [wwwToggle, toList_ofASCII, wwwBareToggleHost, if_neg hmap, Option.getD_some,
    isPrefixOf_map_char h, ← Option.some.inj halt]
  split_ifs
  · rw [← www_chars, List.length_map, ← List.map_drop]
    rfl
  · rw [← www_chars, ← List.map_append]
    rfl

private theorem indexLookup_page (hpage : IsPage u.toLookupProfile page) :
    indexLookup u.toLookupProfile (some (rebuildFromSites u.toLookupProfile (listAdmin rows)))
        (pageOrigin page) =
      withFallback togglePage
        (fun page => rebuildFromSites u.toLookupProfile (listAdmin rows) (pageOrigin page)) page := by
  obtain ⟨hhost, hport, hcanon, hne⟩ := hpage
  have hempty : pageOrigin page ≠ "" := renderOrigin_ne page.1 page.2 (by decide)
  have hnull : pageOrigin page ≠ "null" := renderOrigin_ne page.1 page.2 (by decide)
  have hself : normalizeOrigin u.toLookupProfile (pageOrigin page) = some (pageOrigin page) := by
    rw [pageOrigin, normalizeOrigin_renderOrigin hhost hport, if_neg hne, hcanon]
    rfl
  have htoggle : wwwBareToggleOrigin (pageOrigin page) = (togglePage page).map pageOrigin := by
    rw [pageOrigin, wwwBareToggleOrigin_renderOrigin hhost hport, togglePage, Option.map_map]
    rfl
  simp only [indexLookup, hempty, hnull, hself, htoggle, withFallback]
  cases rebuildFromSites u.toLookupProfile (listAdmin rows) (pageOrigin page) with
  | some siteID => simp
  | none => cases togglePage page <;> simp

private theorem lookup_page (hpage : IsPage u.toLookupProfile page) :
    lookupSiteIDByHostname u rows answered (pageHost page) =
      withFallback togglePage (fun page => lookupExact rows (ofASCII page.1) false) page := by
  obtain ⟨alt, halt⟩ : ∃ alt, wwwBareToggleHost www page.1 = some alt := by
    exact ⟨_, by rw [wwwBareToggleHost, if_neg hpage.nonempty]⟩
  have hempty : ofASCII page.1 ≠ "" := fun h =>
    hpage.nonempty (ofASCII_inj hpage.host (b := []) (by simp) h)
  have htoggle : togglePage page = some (alt, page.2) := by rw [togglePage, halt]; rfl
  simp only [lookupSiteIDByHostname, normalizeHostname_page hpage, hempty, if_false, answered,
    wwwToggle_ofASCII hpage.host halt, withFallback, htoggle, Option.bind_some]
  cases lookupExact rows (ofASCII page.1) false <;> rfl

theorem lists_iff {origin : String} {p : ℕ} :
    rebuildFromSites u.toLookupProfile (listAdmin rows) origin = some p ↔
      ∃ a, Lists u.toLookupProfile rows origin a ∧ a.siteID = p := by
  simp only [rebuild_some_iff, mem_listAdmin]
  constructor
  · rintro ⟨⟨a, ha, hold, rfl⟩, hleast⟩
    exact ⟨a, ⟨ha, hold, hleast⟩, rfl⟩
  · rintro ⟨a, ⟨ha, hold, hleast⟩, rfl⟩
    exact ⟨⟨a, ha, hold, rfl⟩, hleast⟩

theorem serves_iff {host : Bytes} {q : ℕ} : lookupExact rows (ofASCII host) false = some q ↔
    ∃ b, Serves rows host b ∧ b.siteID = q := by
  simp only [lookupExact, Bool.false_eq_true, if_false]
  cases hfind : rows.find? (fun row => row.hostname = ofASCII host && row.enabled) with
  | none =>
    refine iff_of_false (by simp) ?_
    rintro ⟨b, ⟨hfirst, -⟩, -⟩
    simp [hfind] at hfirst
  | some row =>
    by_cases hzero : row.siteID = 0
    · refine iff_of_false (by simp [hzero]) ?_
      rintro ⟨b, ⟨hfirst, hne⟩, -⟩
      obtain rfl := Option.some.inj (hfind.symm.trans hfirst)
      exact hne hzero
    · simp only [hzero, if_false, Option.some.injEq]
      constructor
      · rintro rfl
        exact ⟨row, ⟨hfind, hzero⟩, rfl⟩
      · rintro ⟨b, ⟨hfirst, -⟩, rfl⟩
        obtain rfl := Option.some.inj (hfind.symm.trans hfirst)
        rfl

theorem togglePage_eq_some {page' : Bytes × Bytes} : togglePage page = some page' ↔
    ∃ host, wwwBareToggleHost www page.1 = some host ∧ page' = (host, page.2) := by
  simp [togglePage, eq_comm]

private theorem isLDH_toggled {host alt : Bytes} (h : ∀ c ∈ host, isLDH c = true)
    (htoggle : wwwBareToggleHost www host = some alt) : ∀ c ∈ alt, isLDH c = true := by
  have hwww : ∀ c ∈ www, isLDH c = true := by decide +kernel
  obtain ⟨-, halt⟩ := Option.ite_none_left_eq_some.mp htoggle
  rw [← Option.some.inj halt]
  split_ifs
  · exact fun c hc => h c (List.mem_of_mem_drop hc)
  · exact fun c hc => (List.mem_append.mp hc).elim (hwww c) (h c)

private theorem originHost_page {host port : Bytes} (hhost : ∀ c ∈ host, isLDH c = true)
    (hport : ∀ c ∈ port, isDigit c = true) :
    originHost (renderOrigin https host port) = some (ofASCII host) := by
  simp [originHost, parse_renderOrigin hhost hport, URL.hostname, splitHostPort_plain hhost hport]

theorem mem_canonicalOrigins {origins : List String} {origin : String} :
    origin ∈ canonicalOrigins u origins ↔
      ∃ raw ∈ origins, normalizeOrigin u.toLookupProfile raw = some origin := List.mem_filterMap

/-- Of origins in canonical form, those that normalise to themselves. -/
theorem mem_canonicalOrigins_of_canonical {origins : List String}
    (h : ∀ origin ∈ origins, Canonical u.toLookupProfile origin) {origin : String} :
    origin ∈ canonicalOrigins u origins ↔
      origin ∈ origins ∧ unstable u.toLookupProfile origin = false := by
  rw [mem_canonicalOrigins]
  constructor
  · rintro ⟨raw, hraw, hnorm⟩
    rw [normalizeOrigin_canonical (h raw hraw)] at hnorm
    split_ifs at hnorm with hunstable
    obtain rfl := Option.some.inj hnorm
    exact ⟨hraw, by simpa using hunstable⟩
  · rintro ⟨hmem, hstable⟩
    exact ⟨origin, hmem, by simp [normalizeOrigin_canonical (h origin hmem), hstable]⟩

/-- No origin is in the lists of two sites, and no enabled site lists a page under the hostname
of another one. -/
structure Apart (u : SiteTables) (rows : List SiteRow) : Prop where
  wellFormed : WellFormed u.toLookupProfile rows
  once : ∀ a ∈ rows, ∀ b ∈ rows, a.siteID ≠ b.siteID →
    ∀ origin ∈ canonicalOrigins u a.allowedOrigins, origin ∉ canonicalOrigins u b.allowedOrigins
  own : ∀ a ∈ rows, ∀ b ∈ rows, a.siteID ≠ b.siteID → a.enabled = true → b.enabled = true →
    ∀ origin ∈ canonicalOrigins u a.allowedOrigins, ¬ StandsAt origin b.hostname

private theorem holds_iff {row : SiteRow} {origin : String} : Holds u.toLookupProfile row origin ↔
    row.enabled = true ∧ origin ∈ canonicalOrigins u row.allowedOrigins := by
  rw [Holds, mem_canonicalOrigins]

/-- The site that lists a page, itself or toggled, is the one that serves it, itself or toggled. -/
theorem Apart.same (h : Apart u rows) (page : Bytes × Bytes)
    (hport : ∀ c ∈ page.2, isDigit c = true) {listed served : Bytes}
    (hlisted : ∀ c ∈ listed, isLDH c = true) (hnear : Near (ofASCII listed) (ofASCII served))
    {a b : SiteRow} (ha : Lists u.toLookupProfile rows (pageOrigin (listed, page.2)) a)
    (hb : Serves rows served b) : a.siteID = b.siteID := by
  have hfound := List.find?_some hb.first
  simp only [Bool.and_eq_true, decide_eq_true_eq] at hfound
  obtain ⟨henabled, horigin⟩ := holds_iff.mp ha.holds
  by_contra hne
  refine h.own a ha.mem b (List.mem_of_find?_eq_some hb.first) hne henabled hfound.2 _ horigin ?_
  exact ⟨_, originHost_page hlisted hport, hfound.1 ▸ hnear⟩

/-- The index holds what its rebuild makes of the rows. -/
def Fresh (u : SiteTables) (s : State) : Prop :=
  s.index = some (rebuildFromSites u.toLookupProfile (listAdmin s.rows))

private theorem agree_of_apart {s : State} (h : Apart u s.rows) (hfresh : Fresh u s) :
    Agree u s := by
  intro page hpage p q hf hg
  rw [hfresh, origin_eq, indexLookup_page hpage, withFallback_eq_some] at hf
  rw [lookup_page hpage, withFallback_eq_some] at hg
  have htoggled {host : Bytes} (halt : wwwBareToggleHost www page.1 = some host) :
      wwwToggle (ofASCII page.1) = ofASCII host := wwwToggle_ofASCII hpage.host halt
  obtain hf | ⟨-, page', halt, hf⟩ := hf
  · obtain ⟨a, ha, rfl⟩ := lists_iff.mp hf
    obtain hg | ⟨-, page'', halt', hg⟩ := hg
    · obtain ⟨b, hb, rfl⟩ := serves_iff.mp hg
      exact h.same page hpage.port hpage.host (.inl rfl) ha hb
    · obtain ⟨host, htoggle, rfl⟩ := togglePage_eq_some.mp halt'
      obtain ⟨b, hb, rfl⟩ := serves_iff.mp hg
      exact h.same page hpage.port hpage.host (.inr (.inl (htoggled htoggle))) ha hb
  · obtain ⟨host, htoggle, rfl⟩ := togglePage_eq_some.mp halt
    have hhost := isLDH_toggled hpage.host htoggle
    obtain ⟨a, ha, rfl⟩ := lists_iff.mp hf
    obtain hg | ⟨-, page'', halt', hg⟩ := hg
    · obtain ⟨b, hb, rfl⟩ := serves_iff.mp hg
      exact h.same page hpage.port hhost (.inr (.inr (htoggled htoggle))) ha hb
    · obtain rfl := Option.some.inj (halt.symm.trans halt')
      obtain ⟨b, hb, rfl⟩ := serves_iff.mp hg
      exact h.same page hpage.port hhost (.inl rfl) ha hb

variable {fails : StoreCall → Bool} {s : State} {siteID : ℕ}

/-- What a new row of a site owes to a row of another one. -/
structure Fits (u : SiteTables) (row other : SiteRow) : Prop where
  once : ∀ origin ∈ canonicalOrigins u row.allowedOrigins,
    origin ∉ canonicalOrigins u other.allowedOrigins
  own : row.enabled = true → other.enabled = true →
    (∀ origin ∈ canonicalOrigins u row.allowedOrigins, ¬ StandsAt origin other.hostname) ∧
      ∀ origin ∈ canonicalOrigins u other.allowedOrigins, ¬ StandsAt origin row.hostname

theorem Apart.fits (h : Apart u rows) {a b : SiteRow} (ha : a ∈ rows) (hb : b ∈ rows)
    (hne : a.siteID ≠ b.siteID) : Fits u a b where
  once := h.once a ha b hb hne
  own hae hbe := ⟨h.own a ha b hb hne hae hbe, h.own b hb a ha (Ne.symm hne) hbe hae⟩

/-- Rows of which those that are new are of one site, and fit the others. -/
theorem Apart.change (h : Apart u rows) (siteID : ℕ) {rows' : List SiteRow}
    (hwf : WellFormed u.toLookupProfile rows')
    (hrows : ∀ row ∈ rows', row ∈ rows ∨ row.siteID = siteID ∧
      ∀ other ∈ rows, other.siteID ≠ siteID → Fits u row other) : Apart u rows' := by
  have hfits (a : SiteRow) (ha : a ∈ rows') (b : SiteRow) (hb : b ∈ rows')
      (hne : a.siteID ≠ b.siteID) : Fits u a b ∨ Fits u b a := by
    obtain ha | ⟨hasite, ha⟩ := hrows a ha
    · obtain hb | ⟨hbsite, hb⟩ := hrows b hb
      · exact .inl (h.fits ha hb hne)
      · exact .inr (hb a ha fun hasite => hne (hasite.trans hbsite.symm))
    · obtain hb | ⟨hbsite, -⟩ := hrows b hb
      · exact .inl (ha b hb fun hbsite => hne (hasite.trans hbsite.symm))
      · exact absurd (hasite.trans hbsite.symm) hne
  refine ⟨hwf, fun a ha b hb hne origin hao hbo => ?_, fun a ha b hb hne hae hbe => ?_⟩
  · exact (hfits a ha b hb hne).elim (fun hab => hab.once origin hao hbo)
      fun hba => hba.once origin hbo hao
  · exact (hfits a ha b hb hne).elim (fun hab => (hab.own hae hbe).1) fun hba => (hba.own hbe hae).2

/-- Sites that are separate, and of which neither lists what the other one lists, name none of
each other's pages. -/
theorem Separate.own {hostname : String} {origins : List String} {other : SiteRow}
    (h : Separate u hostname origins other)
    (honce : ∀ origin ∈ canonicalOrigins u origins,
      origin ∉ canonicalOrigins u other.allowedOrigins) :
    (∀ origin ∈ canonicalOrigins u origins, ¬ StandsAt origin other.hostname) ∧
      ∀ origin ∈ canonicalOrigins u other.allowedOrigins, ¬ StandsAt origin hostname := by
  constructor
  · exact fun origin ho hstands => h.1 ⟨origin, ho, hstands, honce origin ho⟩
  · exact fun origin ho hstands => h.2 ⟨origin, ho, hstands, fun hmine => honce origin hmine ho⟩

/-- Where the comparison finds no other site, no other site lists what is proposed. -/
theorem not_mem_of_noCollision (hwf : WellFormed u.toLookupProfile s.rows) {origins : List String}
    (h : refuseCollision (checkOriginCollision u fails s.rows siteID origins) = .ok ())
    {other : SiteRow} (hother : other ∈ s.rows) (hne : other.siteID ≠ siteID) :
    ∀ origin ∈ canonicalOrigins u origins, origin ∉ canonicalOrigins u other.allowedOrigins := by
  intro origin ho hheld
  have hzero := OriginUniqueness.refuseCollision_ok h
  have hans := OriginUniqueness.answered_of_checkOriginCollision hzero
  obtain ⟨hmem, hstable⟩ :=
    (mem_canonicalOrigins_of_canonical (hwf.canonical other hother)).mp hheld
  cases hcanon : origins.mapM (normalizeOrigin u.toLookupProfile) with
  | none => simp [checkOriginCollision, hcanon] at hzero
  | some canon =>
    rw [canonicalOrigins_of_mapM hcanon] at ho
    rcases OriginUniqueness.checkOriginCollision_spec hwf hans hcanon siteID with
      ⟨-, hspec⟩ | ⟨collidingID, hcolliding, hsome⟩
    · simp [hspec origin ho ⟨other, hother, hne, hmem⟩] at hstable
    · exact hcolliding (Option.some.inj (hsome.symm.trans hzero))

/-- A list that is written instead of what the request names holds no other origins. -/
theorem mem_of_normalized {policy p : SitePolicy} {raws : List String}
    (h : policy.normalized u.toLookupProfile = some p) (hraws : policy.allowedOrigins = some raws) :
    ∃ canon, p.allowedOrigins = some canon ∧
      ∀ origin ∈ canonicalOrigins u canon, origin ∈ canonicalOrigins u raws := by
  obtain ⟨canon, hcanon, hp⟩ := OriginUniqueness.normalized_allowedOrigins h hraws
  refine ⟨canon, hp, fun origin ho => ?_⟩
  rw [canonicalOrigins_of_mapM hcanon]
  have hall : ∀ o ∈ canon, Canonical u.toLookupProfile o := fun o ho => by
    obtain ⟨raw, -, hraw⟩ := mem_of_mapM hcanon ho
    exact canonical_of_normalizeOrigin hraw
  exact ((mem_canonicalOrigins_of_canonical hall).mp ho).1

section Create

variable {req : CreateSiteRequest} {row : SiteRow}

private theorem createdHostname (h : RowInsert u fails s req row) :
    row.hostname = u.lowerString (trimSpace req.hostname) := by
  obtain ⟨site, hcheck, rfl⟩ := createSite_ok h.created
  let args : SiteIdentity.CreateArgs :=
    ⟨u.lowerString (trimSpace req.hostname), req.slug, req.tz, req.currency⟩
  have heq : checkNewSite u s.rows fails args.hostname args.slug args.tz args.currency = _ :=
    SiteIdentity.checkNewSite_eq
  rw [hcheck] at heq
  split_ifs at heq
  have hname := SiteIdentity.checkAttributes_hostname heq.symm
  have htwice : u.lowerString (trimSpace args.hostname) = u.lowerString (trimSpace req.hostname) := by
    rw [trimSpace_lowerString, lowerString_lowerString, trimSpace_trimSpace]
  exact hname.trans htwice

/-- A row that a create leaves is an old one or the new one, with origins of the request. -/
theorem created_rows (hins : RowInsert u fails s req row) {r : SiteRow}
    (hr : r ∈ (create u fails s req).1.rows) : r ∈ s.rows ∨ r.siteID = row.siteID ∧
      r.hostname = row.hostname ∧ ∀ origin ∈ canonicalOrigins u r.allowedOrigins,
        origin ∈ canonicalOrigins u (req.allowedOrigins.getD []) := by
  have hempty : row.allowedOrigins = [] := by
    obtain ⟨site, -, rfl⟩ := createSite_ok hins.created
    rfl
  have hnew : ∀ x ∈ (s.insert row).rows, x ∈ s.rows ∨ x = row := fun x hx =>
    (List.mem_append.mp hx).imp_right List.mem_singleton.mp
  rcases create_cases u fails s req with ⟨-, hno⟩ | ⟨row', hins', hcase⟩
  · exact absurd hins (hno row)
  obtain rfl : row' = row := Except.ok.inj (hins'.created.symm.trans hins.created)
  rcases hcase with ⟨hstate, -⟩ | ⟨policy, p, hpol, hstate⟩
  · rw [hstate] at hr
    refine (hnew r hr).imp_right ?_
    rintro rfl
    exact ⟨rfl, rfl, by simp [hempty, canonicalOrigins]⟩
  · rw [hstate, withPolicy_rows] at hr
    obtain ⟨old, hold, ⟨hne, rfl⟩ | ⟨hid, rfl⟩⟩ := mem_alterUpdate hr
    · exact .inl ((hnew r hold).resolve_right fun h => hne (congrArg SiteRow.siteID h))
    obtain rfl : old = row' := (hnew old hold).resolve_left fun hmem =>
      createSite_fresh hins.created hpol.siteID_ne old hmem hid
    refine .inr ⟨rfl, rfl, ?_⟩
    rw [withPolicy_origins, hempty]
    cases hraws : req.allowedOrigins with
    | none =>
      have hpolicy := (OriginUniqueness.created_origins hpol).trans hraws
      obtain rfl : policy = p := by simpa [SitePolicy.normalized, hpolicy] using hpol.normalized
      simp [hpolicy, canonicalOrigins]
    | some raws =>
      obtain ⟨canon, hp, hsub⟩ :=
        mem_of_normalized hpol.normalized ((OriginUniqueness.created_origins hpol).trans hraws)
      simpa [hp] using hsub

private theorem apart_create (h : Apart u s.rows) (hnames : ∀ other ∈ s.rows, other.enabled = true →
      Separate u (u.lowerString (trimSpace req.hostname)) (req.allowedOrigins.getD []) other) :
    Apart u (create u fails s req).1.rows := by
  have hwf : WellFormed u.toLookupProfile (create u fails s req).1.rows :=
    wellFormed_step (r := ⟨.create (some req), fails⟩) h.wellFormed rfl
  rcases create_cases u fails s req with ⟨hsame, -⟩ | ⟨row, hins, -⟩
  · rwa [hsame]
  refine h.change row.siteID hwf fun r hr => ?_
  refine (created_rows hins hr).imp_right fun ⟨hid, hname, hsub⟩ => ⟨hid, fun other hother _ => ?_⟩
  have honce : ∀ origin ∈ canonicalOrigins u (req.allowedOrigins.getD []),
      origin ∉ canonicalOrigins u other.allowedOrigins := by
    by_cases hraws : req.allowedOrigins.getD [] = []
    · simp [hraws, canonicalOrigins]
    · have hcheck := hins.noCollision
      rw [checkCreatedOrigins, if_neg hraws] at hcheck
      by_cases hzero : other.siteID = 0
      · simp [h.wellFormed.zero other hother hzero, canonicalOrigins]
      · exact not_mem_of_noCollision h.wellFormed hcheck hother hzero
  refine ⟨fun origin ho => honce origin (hsub origin ho), fun _ henabled => ?_⟩
  obtain ⟨hforward, hback⟩ := (hnames other hother henabled).own honce
  rw [hname, createdHostname hins]
  exact ⟨fun origin ho => hforward origin (hsub origin ho), hback⟩

end Create

/-- A patch leaves the row as it was, or with origins that no other site lists and, if it is
enabled then, that the request names. -/
theorem apart_update {req : UpdateSiteRequest} (h : Apart u s.rows)
    (hnames : ∀ row ∈ s.rows, row.siteID = siteID → row.enabled = true ∨ req.enabled = some true →
      ∀ other ∈ s.rows, other.siteID ≠ siteID → other.enabled = true →
        Separate u row.hostname (req.allowedOrigins.getD row.allowedOrigins) other) :
    Apart u (updateSite u fails s siteID req).1.rows := by
  obtain ⟨s₁, currency, tz, enabled, hs₁, hflag, hstate⟩ := updateSite_cases u fails s siteID req
  have hwf₁ : WellFormed u.toLookupProfile s₁.rows := by
    rcases hs₁ with ⟨rfl, -⟩ | ⟨current, p, hw, rfl⟩
    · exact h.wellFormed
    · exact wellFormed_withPolicy h.wellFormed (lookupSiteByID_some hw.found).1 hw.normalized _
  have hwf : WellFormed u.toLookupProfile (updateSite u fails s siteID req).1.rows := by
    rw [hstate]
    exact wellFormed_alterUpdate hwf₁ (fun _ => rfl)
      (fun row hrow _ origin ho => hwf₁.canonical row hrow origin ho) fun _ _ => rfl
  refine h.change siteID hwf fun r hr => ?_
  rw [hstate] at hr
  obtain ⟨mid, hmid, ⟨hne, rfl⟩ | ⟨hid, rfl⟩⟩ := mem_alterUpdate hr
  · rcases hs₁ with ⟨rfl, -⟩ | ⟨current, p, hw, rfl⟩
    · exact .inl hmid
    · rw [withPolicy_rows] at hmid
      obtain ⟨old, hold, ⟨-, rfl⟩ | ⟨hid, rfl⟩⟩ := mem_alterUpdate hmid
      · exact .inl hold
      · exact absurd hid hne
  refine .inr ⟨hid, fun other hother hne => ?_⟩
  have henabled (row : SiteRow)
      (hrow : ((row.withAttributes currency tz).withEnabled enabled).enabled = true) :
      row.enabled = true ∨ req.enabled = some true := by
    rcases hflag with rfl | ⟨rfl, -⟩
    · exact .inl hrow
    · cases hreq : req.enabled with
      | none => exact .inl (by simpa [SiteRow.withEnabled, SiteRow.withAttributes, hreq] using hrow)
      | some b => exact .inr (by simpa [SiteRow.withEnabled, hreq] using hrow)
  rcases hs₁ with ⟨rfl, hno⟩ | ⟨current, p, hw, rfl⟩
  · have hfits := h.fits hmid hother (fun heq => hne (heq.symm.trans hid))
    refine ⟨hfits.once, fun hon hother' => ?_⟩
    rcases hflag with rfl | ⟨rfl, hwrite⟩
    · exact hfits.own hon hother'
    · have hnone : req.allowedOrigins = none := by
        rcases applyPolicyPatch_ok hwrite.policy with ⟨hpol, -⟩ | ⟨current, p, hw, -⟩
        · simp only [UpdateSiteRequest.hasPolicy, Bool.or_eq_false_iff] at hpol
          simpa using hpol.2
        · exact absurd hw (hno current p)
      have hsep := hnames mid hmid hid (henabled mid hon) other hother hne hother'
      rw [hnone] at hsep
      exact hsep.own hfits.once
  · rw [withPolicy_rows] at hmid
    obtain ⟨old, hold, ⟨hne', rfl⟩ | ⟨-, rfl⟩⟩ := mem_alterUpdate hmid
    · exact absurd hid hne'
    have hfits := h.fits hold hother (fun heq => hne (heq.symm.trans hid))
    cases hraws : req.allowedOrigins with
    | none =>
      have hkept := origins_kept hw h.wellFormed hraws old hold hid
      have hsub : (((old.withPolicy p).withAttributes currency tz).withEnabled
          enabled).allowedOrigins = old.allowedOrigins := hkept
      refine ⟨hsub ▸ hfits.once, fun hon hother' => ?_⟩
      have hsep := hnames old hold hid (henabled (old.withPolicy p) hon) other hother hne hother'
      rw [hraws] at hsep
      exact hsub ▸ hsep.own hfits.once
    | some raws =>
      have hmerged : (mergedPolicy current req).allowedOrigins = some raws := by
        simp [mergedPolicy, hraws]
      obtain ⟨canon, hp, hsub⟩ := mem_of_normalized hw.normalized hmerged
      have horigins : (((old.withPolicy p).withAttributes currency tz).withEnabled
          enabled).allowedOrigins = canon := by
        simp [SiteRow.withEnabled, SiteRow.withAttributes, withPolicy_origins, hp]
      have hcheck := hw.noCollision
      simp only [checkPatchedOrigins, hraws] at hcheck
      have honce := not_mem_of_noCollision h.wellFormed hcheck hother hne
      rw [← horigins] at hsub
      refine ⟨fun origin ho => honce origin (hsub origin ho), fun hon hother' => ?_⟩
      have hsep := hnames old hold hid (henabled (old.withPolicy p) hon) other hother hne hother'
      rw [hraws] at hsep
      obtain ⟨hforward, hback⟩ := hsep.own honce
      exact ⟨fun origin ho => hforward origin (hsub origin ho), hback⟩

private theorem apart_handle {r : Served} (h : Apart u s.rows) (hnames : NamesOwn u s r) :
    Apart u (handle u s r).1.rows := by
  obtain ⟨request, fails⟩ := r
  cases request with
  | create body => cases body with
    | none => simpa only [handle] using h
    | some req =>
      simp only [NamesOwn] at hnames
      simp only [handle]
      exact apart_create h hnames
  | update siteIDParam body => cases body with
    | none =>
      have hsame : handle u s ⟨.update siteIDParam none, fails⟩ = (s, 400) := by
        cases hparse : AuthGuards.parseSiteID siteIDParam <;> simp [handle, hparse]
      rwa [hsame]
    | some req =>
      simp only [NamesOwn] at hnames
      cases hparse : AuthGuards.parseSiteID siteIDParam with
      | none => simpa [handle, hparse] using h
      | some siteID =>
        simp only [handle, hparse]
        exact apart_update h (hnames siteID hparse)
  | reload =>
    simp only [handle, rebuildOriginIndex_rows]
    exact h

/-- A request, and the rebuild of the index that follows it. -/
def rebuilt (u : SiteTables) (s : State) (r : Served) : Option State :=
  some (rebuildOriginIndex u answered (handle u s r).1)

def emptyState (u : SiteTables) : State := ⟨[], some (rebuildFromSites u.toLookupProfile [])⟩

/-- From an empty registry on, privacy and ingest agree on the site of every page, as long as no
request names for one site a page under the hostname of another one that does not list it. -/
theorem agree_of_along (u : SiteTables) (es : List Served)
    (h : Along (rebuilt u) (NamesOwn u) (emptyState u) es) :
    Throughout (rebuilt u) (Agree u) (emptyState u) es := by
  have hinit : Apart u (emptyState u).rows ∧ Fresh u (emptyState u) :=
    ⟨⟨wellFormed_nil _, by simp [emptyState], by simp [emptyState]⟩, rfl⟩
  refine (throughout_of_along (I := fun s => Apart u s.rows ∧ Fresh u s) (fun s r t hs hnames hstep =>
    ?_) h hinit).mono fun s hs => agree_of_apart hs.1 hs.2
  obtain rfl := Option.some.inj hstep
  exact ⟨apart_handle hs.1 hnames, rfl⟩

def siteRequest (hostname : String) (allowedOrigins : Option (List String)) : Served :=
  ⟨.create (some { hostname := hostname, allowedOrigins := allowedOrigins }), answered⟩

/-- Events of `shop.example` are booked to the first site, its opt-outs act on the second. -/
theorem other_site_lists_page : ¬ Throughout (rebuilt sampleTables) (Agree sampleTables)
    (emptyState sampleTables)
    [siteRequest "shop.example" none, siteRequest "blog.example" (some ["https://shop.example"])] := by
  intro h
  have hagree := (h.2 _ rfl).2 _ rfl
  have hpage : IsPage sampleTables.toLookupProfile (utf8 "shop.example", []) :=
    ⟨by decide +kernel, by simp, by decide +kernel, by decide +kernel⟩
  have hsites := hagree _ hpage 2 1 (by decide +kernel) (by decide +kernel)
  omega

/-- The first site lists its own page, so that the second one is refused it. -/
theorem agree_of_along_refused : Throughout (rebuilt sampleTables) (Agree sampleTables)
    (emptyState sampleTables)
    [siteRequest "shop.example" (some ["https://shop.example", "https://www.shop.example"]),
      siteRequest "blog.example" (some ["https://shop.example"])] :=
  agree_of_along sampleTables _ (by decide +kernel)

end Statnive.PageSites
