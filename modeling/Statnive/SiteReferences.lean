import Statnive.HostnameSlugs
import Statnive.McpServer
import Statnive.SiteIdentity

/-!
# References to sites

The `site` argument of a tool is an id, a slug or a hostname, and `resolveSiteID` tries them in
this order. The two look-ups are those of the registry, over rows whose slugs were generated.
-/

namespace Statnive.SiteReferences

open HostnameSlugs McpServer SiteRegistry
open AuthGuards (parseSiteID parseUint32 digitValue)
open EnrichPipeline (afterFirst trimLeft cutLast)
open IngestHandler (trimSpace isSpace)
open SiteIdentity (afterScheme cutTail dropUser hostOf extractHostLower_eq)

/-- The text under which a slug is looked up. -/
def slugKey (u : Unicode) (raw : String) : String := u.lowerString (trimSpace raw)

/-- A site that is not enabled is found, and a reserved slug is not looked up. -/
def lookupSiteIDBySlug (u : Unicode) (rows : List SiteRow) (slug : String) :
    Except LookupError ℕ :=
  let slug := slugKey u slug
  if slug = "" then .error .unknown
  else if reservedSlugs.contains slug then .error .unknown
  else match rows.find? (fun row => row.slug = slug) with
    | none => .error .unknown
    | some row => if row.siteID = 0 then .error .unknown else .ok row.siteID

def lookupExactPolicy (rows : List SiteRow) (host : String) : Except LookupError (ℕ × SitePolicy) :=
  match rows.find? (fun row => row.hostname = host && row.enabled) with
  | none => .error .unknown
  | some row => if row.siteID = 0 then .error .unknown else .ok (row.siteID, row.policy)

/-- Only enabled sites are found, and the literal host before the one with `www.` toggled. -/
def lookupSitePolicy (u : Unicode) (rows : List SiteRow) (hostname : String) :
    Except LookupError (ℕ × SitePolicy) :=
  let host := normalizeHostname u hostname
  if host = "" then .error .unknown
  else match lookupExactPolicy rows host with
    | .error .unknown => lookupExactPolicy rows (wwwToggle host)
    | result => result

/-- The registry that the server asks holds the rows, and answers. -/
structure Serves {α : Type} (u : Unicode) (rows : List SiteRow) (b : Backend α) : Prop where
  slug : b.lookupSiteIDBySlug = lookupSiteIDBySlug u rows
  policy : b.lookupSitePolicy = lookupSitePolicy u rows

/-- The slugs were assigned by the generator, each to one site, and the hostnames are in normal
form. -/
structure Generated (u : Unicode) (rows : List SiteRow) : Prop where
  ids : (rows.map SiteRow.siteID).Nodup
  id_ne : ∀ row ∈ rows, row.siteID ≠ 0
  slugs : (rows.map SiteRow.slug).Nodup
  slug : ∀ row ∈ rows, row.slug = generateSlug u row.hostname
  slug_ne : ∀ row ∈ rows, row.slug ≠ "" ∧ row.slug ∉ reservedSlugs
  hostname : ∀ row ∈ rows, normalizeHostname u row.hostname = row.hostname
  hostname_ne : ∀ row ∈ rows, row.hostname ≠ ""

/-- The reference is the id, the slug or the hostname of the site. -/
def Names (u : Unicode) (row : SiteRow) (raw : String) : Prop :=
  parseSiteID raw = some row.siteID ∨ slugKey u raw = row.slug ∨
    normalizeHostname u raw = row.hostname

/-- It is one of them, or it is the hostname with `www.` toggled. -/
def Calls (u : Unicode) (row : SiteRow) (raw : String) : Prop :=
  Names u row raw ∨ wwwToggle (normalizeHostname u raw) = row.hostname

/-- The id, the slug and the hostname resolve to the site, and no other reference does. -/
structure Denoted {α : Type} (u : Unicode) (b : Backend α) (row : SiteRow) : Prop where
  id : (resolveSiteID b (toString row.siteID)).result = .ok row.siteID
  slug : (resolveSiteID b row.slug).result = .ok row.siteID
  hostname : (resolveSiteID b row.hostname).result = .ok row.siteID
  only : ∀ raw, (resolveSiteID b raw).result = .ok row.siteID → Names u row raw

/-- The slug is not the number of another site. -/
def SlugClear (row : SiteRow) : Prop := ∀ n, parseSiteID row.slug = some n → n = row.siteID

/-- The hostname is neither the number nor the slug of another site, and the site is enabled. -/
structure HostClear (rows : List SiteRow) (row : SiteRow) : Prop where
  number : ∀ n, parseSiteID row.hostname = some n → n = row.siteID
  slug : ∀ r ∈ rows, r.slug = row.hostname → r = row
  enabled : row.enabled = true

/-- The ways in which a reference is resolved, each when the ones before it do not apply. -/
inductive Resolves (u : Unicode) (rows : List SiteRow) (raw : String) : ℕ → Prop where
  | number {n} (h : parseSiteID raw = some n) : Resolves u rows raw n
  | slug {row} (hnum : parseSiteID raw = none) (hrow : row ∈ rows)
      (hslug : row.slug = slugKey u raw) : Resolves u rows raw row.siteID
  | hostname {row} (hnum : parseSiteID raw = none) (hnone : ∀ r ∈ rows, r.slug ≠ slugKey u raw)
      (hrow : row ∈ rows) (hon : row.enabled = true)
      (hhost : row.hostname = normalizeHostname u raw) : Resolves u rows raw row.siteID
  | toggled {row} (hnum : parseSiteID raw = none) (hnone : ∀ r ∈ rows, r.slug ≠ slugKey u raw)
      (hfree : ∀ r ∈ rows, r.enabled = true → r.hostname ≠ normalizeHostname u raw)
      (hne : normalizeHostname u raw ≠ "") (hrow : row ∈ rows) (hon : row.enabled = true)
      (hhost : row.hostname = wwwToggle (normalizeHostname u raw)) :
      Resolves u rows raw row.siteID

theorem length_afterFirst {pat cs t : List Char} (h : afterFirst pat cs = some t) :
    t.length + pat.length ≤ cs.length := by
  induction cs with
  | nil =>
    rw [afterFirst] at h
    obtain ⟨rfl, ht⟩ := Option.ite_none_right_eq_some.mp h
    simp [← Option.some.inj ht]
  | cons c cs ih =>
    rw [afterFirst] at h
    split at h
    next hpre =>
      have hlen := (List.isPrefixOf_iff_prefix.mp hpre).length_le
      rw [← Option.some.inj h, List.length_drop]
      omega
    next => exact (ih h).trans (Nat.le_succ _)

private theorem length_afterScheme_le (s : List Char) : (afterScheme s).length ≤ s.length := by
  rw [afterScheme]
  cases h : afterFirst "://".toList s with
  | some t => exact (Nat.le_add_right _ _).trans (length_afterFirst h)
  | none =>
    rw [Option.getD_none, trimLeft]
    split
    · rw [List.length_drop]
      exact Nat.sub_le _ _
    · exact le_refl _

private theorem afterScheme_eq {s : List Char} (h : s.length ≤ (afterScheme s).length) :
    afterFirst "://".toList s = none ∧ trimLeft "//".toList s = s := by
  rw [afterScheme] at h
  cases hfirst : afterFirst "://".toList s with
  | some t =>
    have hlt := length_afterFirst hfirst
    rw [hfirst, Option.getD_some] at h
    have hpat : "://".toList.length = 3 := rfl
    omega
  | none =>
    refine ⟨rfl, ?_⟩
    rw [hfirst, Option.getD_none, trimLeft] at h
    rw [trimLeft]
    split at h
    next hpre =>
      have hlen := (List.isPrefixOf_iff_prefix.mp hpre).length_le
      have hpat : "//".toList.length = 2 := rfl
      rw [List.length_drop] at h
      omega
    next hpre => rw [if_neg hpre]

private theorem length_cutLast {c : Char} {cs : List Char} {p : List Char × List Char}
    (h : cutLast c cs = some p) : p.1.length ≤ cs.length ∧ p.2.length ≤ cs.length := by
  rw [cutLast] at h
  obtain ⟨-, hp⟩ := Option.ite_none_right_eq_some.mp h
  rw [← Option.some.inj hp]
  have hdrop := (List.dropWhile_sublist (fun d => decide (d ≠ c)) (l := cs.reverse)).length_le
  have htake := (List.takeWhile_sublist (fun d => decide (d ≠ c)) (l := cs.reverse)).length_le
  simp only [List.length_reverse, List.length_drop] at hdrop htake ⊢
  omega

theorem length_getD_cutLast (c : Char) (cs : List Char) :
    (((cutLast c cs).map Prod.fst).getD cs).length ≤ cs.length ∧
      (((cutLast c cs).map Prod.snd).getD cs).length ≤ cs.length := by
  cases h : cutLast c cs with
  | none => exact ⟨le_refl _, le_refl _⟩
  | some p => exact length_cutLast h

private theorem length_hostOf_le (s : List Char) :
    (hostOf (dropUser (cutTail s))).length ≤ s.length := by
  have hcut : (cutTail s).length ≤ s.length := (List.takeWhile_sublist _).length_le
  have huser := (length_getD_cutLast '@' (cutTail s)).2
  refine le_trans ?_ (huser.trans hcut)
  rw [hostOf, ← dropUser]
  generalize dropUser (cutTail s) = rest
  have hin := (List.takeWhile_sublist (fun d => decide (d ≠ ']')) (l := rest)).length_le
  have hout := (List.dropWhile_sublist (fun d => decide (d ≠ '['))
    (l := rest.takeWhile fun d => decide (d ≠ ']'))).length_le
  dsimp only
  split
  · split
    · rw [List.length_drop]
      omega
    · exact le_refl _
  · exact (length_getD_cutLast ':' rest).1

private theorem length_lowerString (u : Unicode) (s : String) :
    (u.lowerString s).toList.length = s.toList.length := by
  simp [Unicode.lowerString]

theorem trimSpace_sublist (s : String) : (trimSpace s).toList.Sublist s.toList := by
  rw [trimSpace, String.toList_ofList]
  have hleft := List.dropWhile_sublist isSpace (l := s.toList)
  have hright := List.dropWhile_sublist isSpace (l := (s.toList.dropWhile isSpace).reverse)
  exact (List.reverse_sublist.mpr hright |>.trans (by rw [List.reverse_reverse])).trans hleft

/-- A hostname in normal form is nothing but a host: the cuts take nothing away from it. -/
structure Bare (u : Unicode) (s : String) : Prop where
  trimmed : trimSpace s = s
  lower : u.lowerString s = s
  scheme : afterFirst "://".toList s.toList = none
  slashes : trimLeft "//".toList s.toList = s.toList

theorem bare_of_normal {u : Unicode} {s : String} (h : normalizeHostname u s = s) : Bare u s := by
  rw [normalizeHostname, extractHostLower_eq] at h
  have htrim := (trimSpace_sublist s).length_le
  have hhost := length_hostOf_le (afterScheme (trimSpace s).toList)
  have hscheme := length_afterScheme_le (trimSpace s).toList
  have hlen := congrArg (fun t => t.toList.length) h
  simp only [length_lowerString, String.toList_ofList] at hlen
  have heq : trimSpace s = s := by
    apply String.toList_injective
    exact (trimSpace_sublist s).eq_of_length (by omega)
  rw [heq] at hhost hscheme hlen
  obtain ⟨hfirst, hslash⟩ := afterScheme_eq (s := s.toList) (by omega)
  refine ⟨heq, ?_, hfirst, hslash⟩
  rw [← h, lowerString_lowerString]

theorem trimSpace_space (s : String) : trimSpace (" " ++ s) = trimSpace s := by
  simp [trimSpace, isSpace]

private theorem wwwToggle_ne {host : String} (hne : host ≠ "") : wwwToggle host ≠ host := by
  intro h
  have hwww : "www.".toList.length = 4 := rfl
  have hnil : host.toList ≠ [] := fun hnil => hne (String.toList_eq_nil_iff.mp hnil)
  have hlen := congrArg (fun s => s.toList.length) h
  rw [wwwToggle, String.toList_ofList, SiteOrigins.wwwBareToggleHost, if_neg hnil,
    Option.getD_some] at hlen
  split at hlen
  next hpre =>
    have hle := (List.isPrefixOf_iff_prefix.mp hpre).length_le
    rw [List.length_drop] at hlen
    omega
  next =>
    rw [List.length_append] at hlen
    omega

theorem trimSpace_slashes {s : String} (h : trimSpace s = s) :
    trimSpace ("//" ++ s) = "//" ++ s := by
  have hlist := congrArg String.toList h
  rw [trimSpace, String.toList_ofList] at hlist
  have hleft := List.dropWhile_sublist isSpace (l := s.toList)
  have hright := List.dropWhile_sublist isSpace (l := (s.toList.dropWhile isSpace).reverse)
  have hlen := congrArg List.length hlist
  have hle := hright.length_le
  rw [List.length_reverse] at hlen hle
  have hdrop := hleft.eq_of_length (by have := hleft.length_le; omega)
  rw [hdrop] at hlist
  have hend := List.reverse_eq_iff.mp hlist
  have htoList : ("//" ++ s).toList = '/' :: '/' :: s.toList := by simp
  have hslash : isSpace '/' = false := by decide
  apply String.toList_injective
  rw [trimSpace, String.toList_ofList, htoList, List.dropWhile_cons_of_neg (by simp [hslash]),
    List.reverse_cons, List.reverse_cons, List.append_assoc, List.dropWhile_append, hend]
  cases hrev : s.toList.reverse with
  | nil => simp [hslash, List.reverse_eq_nil_iff.mp hrev]
  | cons c cs =>
    rw [List.isEmpty_cons, if_neg (by simp), ← hrev]
    simp

/-- Behind two slashes a hostname is still found as one, but is no number and no slug. -/
theorem normalizeHostname_slashes {u : Unicode} {s : String} (hn : normalizeHostname u s = s) :
    normalizeHostname u ("//" ++ s) = s := by
  have hbare := bare_of_normal hn
  have htoList : ("//" ++ s).toList = '/' :: '/' :: s.toList := by simp
  have hskip : afterScheme ("//" ++ s).toList = afterScheme s.toList := by
    have hscheme : afterFirst "://".toList ('/' :: '/' :: s.toList) =
        afterFirst "://".toList s.toList := by simp [afterFirst, List.isPrefixOf]
    have hslashes : trimLeft "//".toList ('/' :: '/' :: s.toList) = s.toList := by
      simp [trimLeft, List.isPrefixOf]
    rw [afterScheme, afterScheme, htoList, hscheme, hslashes, hbare.scheme, hbare.slashes]
  rw [normalizeHostname, hbare.trimmed, extractHostLower_eq] at hn
  rw [normalizeHostname, trimSpace_slashes hbare.trimmed, extractHostLower_eq, hskip, hn]

/-- Slug characters in lower case, and dashes. -/
def Plain (u : Unicode) (s : String) : Prop :=
  ∀ c ∈ s.toList, (isSlugChar c = true ∨ c = '-') ∧ u.toLower c = c

theorem Plain.lower {u : Unicode} {s : String} (h : Plain u s) : u.lowerString s = s := by
  rw [Unicode.lowerString, List.map_congr_left (fun c hc => (h c hc).2), List.map_id',
    String.ofList_toList]

theorem Plain.trimmed {u : Unicode} {s : String} (h : Plain u s) : trimSpace s = s := by
  apply SiteOrigins.trimSpace_eq_self
  intro c hc
  obtain ⟨hslug | rfl, -⟩ := h c hc
  · have hb := isSlugChar_bounds hslug
    exact SiteOrigins.isSpace_of_bounds (by omega) (by omega)
  · decide

theorem Plain.slugKey {u : Unicode} {s : String} (h : Plain u s) : slugKey u s = s := by
  rw [SiteReferences.slugKey, h.trimmed, h.lower]

private theorem plain_generateSlug (u : Unicode) (hostname : String) :
    Plain u (generateSlug u hostname) := by
  intro c hc
  rw [generateSlug_eq, String.toList_ofList] at hc
  have hmem := List.mem_of_mem_take hc
  obtain hempty | hdashed := joined_words (stem u hostname)
  · simp [hempty, joined] at hmem
  · have hclass := hdashed.chars c hmem
    exact ⟨hclass, (joined_lower u hostname c hmem hclass).1⟩

/-- The host of a reference is its slug when that has only slug characters. -/
theorem normalizeHostname_of_plain {u : Unicode} {raw : String} (h : Plain u (slugKey u raw)) :
    normalizeHostname u raw = slugKey u raw := by
  rw [normalizeHostname]
  apply SiteIdentity.extractHostLower_plain
  intro c hc hmem
  have hother : "/?#@:]".toList.all (fun d =>
      d.toNat < 0x80 ∧ d.toLower = d ∧ isSlugChar d = false ∧ d ≠ '-') = true := by decide
  obtain ⟨hascii, hlower, hslug, hdash⟩ := decide_eq_true_eq.mp (List.all_eq_true.mp hother c hc)
  have hkey : c ∈ (slugKey u raw).toList := by
    rw [slugKey, Unicode.lowerString, String.toList_ofList, List.mem_map]
    exact ⟨c, hmem, (u.toLower_ascii c hascii).trans hlower⟩
  obtain ⟨hc | rfl, -⟩ := h c hkey
  · rw [hslug] at hc
    cases hc
  · exact hdash rfl

theorem mapM_digitValue {cs : List Char} {ds : List ℕ} (h : cs.mapM digitValue = some ds) :
    ∀ c ∈ cs, '0' ≤ c ∧ c ≤ '9' := by
  induction cs generalizing ds with
  | nil => simp
  | cons c cs ih =>
    rw [List.mapM_cons] at h
    cases hd : digitValue c with
    | none => simp [hd] at h
    | some d =>
      cases hds : cs.mapM digitValue with
      | none => simp [hd, hds] at h
      | some ds' =>
        have hdigit := (Option.ite_none_right_eq_some.mp hd).1
        intro c' hc'
        obtain rfl | hc' := List.mem_cons.mp hc'
        · exact hdigit
        · exact ih hds c' hc'

theorem digits_of_parse {raw : String} {n : ℕ} (h : parseSiteID raw = some n) :
    ∀ c ∈ raw.toList, '0' ≤ c ∧ c ≤ '9' := by
  rw [parseSiteID, parseUint32] at h
  cases hds : raw.toList.mapM digitValue with
  | none => simp [hds] at h
  | some ds => exact mapM_digitValue hds

theorem Plain.of_parse (u : Unicode) {raw : String} {n : ℕ} (h : parseSiteID raw = some n) :
    Plain u raw := by
  intro c hc
  have hdigit := digits_of_parse h c hc
  have hslug : isSlugChar c = true := by simp [isSlugChar, hdigit.1, hdigit.2]
  refine ⟨.inl hslug, (u.toLower_ascii c (isSlugChar_bounds hslug).1).trans ?_⟩
  unfold Char.toLower
  split
  next hupper =>
    have hle : c.val.toNat ≤ '9'.val.toNat := UInt32.le_iff_toNat_le.mp hdigit.2
    have hge : 'A'.val.toNat ≤ c.val.toNat := UInt32.le_iff_toNat_le.mp hupper.1
    exact absurd (hge.trans hle) (by decide)
  next => rfl

private theorem mapM_digitValue_of_isDigit {cs : List Char} (h : ∀ c ∈ cs, c.isDigit = true) :
    cs.mapM digitValue = some (cs.map fun c => c.toNat - '0'.toNat) := by
  induction cs with
  | nil => rfl
  | cons c cs ih =>
    have hdigit : '0' ≤ c ∧ c ≤ '9' := by
      have hc := h c (by simp)
      simp only [Char.isDigit, Bool.and_eq_true, decide_eq_true_eq] at hc
      exact hc
    rw [List.mapM_cons, digitValue, if_pos hdigit, ih fun c' hc' => h c' (by simp [hc'])]
    rfl

private theorem parseSiteID_toString {n : ℕ} (hne : n ≠ 0) (hlt : n < 2 ^ 32) :
    parseSiteID (toString n) = some n := by
  have hdigits : ∀ c ∈ Nat.toDigits 10 n, c.isDigit = true :=
    fun c hc => Nat.isDigit_of_mem_toDigits (by decide) (by decide) hc
  have hnonempty : String.ofList (Nat.toDigits 10 n) ≠ "" := by
    intro heq
    have hnil := congrArg String.toList heq
    rw [String.toList_ofList] at hnil
    exact Nat.toDigits_ne_nil hnil
  have hfold : ((Nat.toDigits 10 n).map fun c => c.toNat - '0'.toNat).foldl
      (fun n d => 10 * n + d) 0 = n := by
    rw [List.foldl_map]
    exact Nat.ofDigitChars_ten_toDigits
  rw [Nat.toString_eq_ofList_toDigits, parseSiteID, parseUint32, if_neg hnonempty,
    String.toList_ofList, mapM_digitValue_of_isDigit hdigits]
  simp only [hfold]
  have hbound : n < 4294967296 := hlt
  simp only [hbound, hne, if_true, if_false]

/-- A text that starts with a space or a slash is no number. -/
theorem parseSiteID_append_eq_none {pre : String} (s : String)
    (h : ' ' ∈ pre.toList ∨ '/' ∈ pre.toList) : parseSiteID (pre ++ s) = none := by
  cases hn : parseSiteID (pre ++ s) with
  | none => rfl
  | some n =>
    have hdigits := digits_of_parse hn
    rw [String.toList_append] at hdigits
    obtain hspace | hslash := h
    · exact absurd (hdigits _ (List.mem_append_left _ hspace)) (by decide)
    · exact absurd (hdigits _ (List.mem_append_left _ hslash)) (by decide)

section

variable {α : Type} {u : Unicode} {rows : List SiteRow} {b : Backend α} {raw : String}

theorem Generated.plain (hg : Generated u rows) {row : SiteRow} (hrow : row ∈ rows) :
    Plain u row.slug := by
  rw [hg.slug row hrow]
  exact plain_generateSlug u row.hostname

theorem Generated.bare (hg : Generated u rows) {row : SiteRow} (hrow : row ∈ rows) :
    Bare u row.hostname := bare_of_normal (hg.hostname row hrow)

theorem Generated.ext (hg : Generated u rows) {r row : SiteRow} (hr : r ∈ rows) (hrow : row ∈ rows)
    (h : r.siteID = row.siteID ∨ r.slug = row.slug ∨ r.hostname = row.hostname) : r = row := by
  obtain hid | hslug | hhost := h
  · exact List.inj_on_of_nodup_map hg.ids hr hrow hid
  · exact List.inj_on_of_nodup_map hg.slugs hr hrow hslug
  · have hslug : r.slug = row.slug := by rw [hg.slug r hr, hg.slug row hrow, hhost]
    exact List.inj_on_of_nodup_map hg.slugs hr hrow hslug

private theorem lookupSiteIDBySlug_cases (hg : Generated u rows) (raw : String) :
    (∃ row ∈ rows, row.slug = slugKey u raw ∧
      lookupSiteIDBySlug u rows raw = .ok row.siteID) ∨
    (∀ row ∈ rows, row.slug ≠ slugKey u raw) ∧
      lookupSiteIDBySlug u rows raw = .error .unknown := by
  by_cases hown : ∃ row ∈ rows, row.slug = slugKey u raw
  · obtain ⟨row, hrow, hslug⟩ := hown
    obtain ⟨hne, hres⟩ := hg.slug_ne row hrow
    rw [hslug] at hne hres
    refine .inl ⟨row, hrow, hslug, ?_⟩
    cases hfind : rows.find? (fun row => decide (row.slug = slugKey u raw)) with
    | none =>
      exact absurd (decide_eq_true hslug) (List.find?_eq_none.mp hfind row hrow)
    | some r =>
      have hr := List.mem_of_find?_eq_some hfind
      have hkey : r.slug = slugKey u raw := by simpa using List.find?_some hfind
      obtain rfl := hg.ext hr hrow (.inr (.inl (hkey.trans hslug.symm)))
      simp [lookupSiteIDBySlug, hne, hres, hfind, hg.id_ne r hr]
  · have hfree : ∀ row ∈ rows, row.slug ≠ slugKey u raw :=
      fun row hrow hslug => hown ⟨row, hrow, hslug⟩
    have hfind : rows.find? (fun row => decide (row.slug = slugKey u raw)) = none := by
      simpa using hfree
    exact .inr ⟨hfree, by simp [lookupSiteIDBySlug, hfind]⟩

theorem lookupExactPolicy_cases (hg : Generated u rows) (host : String) :
    (∃ row ∈ rows, row.enabled = true ∧ row.hostname = host ∧
      lookupExactPolicy rows host = .ok (row.siteID, row.policy)) ∨
    (∀ row ∈ rows, row.enabled = true → row.hostname ≠ host) ∧
      lookupExactPolicy rows host = .error .unknown := by
  cases hfind : rows.find? (fun row => row.hostname = host && row.enabled) with
  | none =>
    refine .inr ⟨fun row hrow hon hhost => ?_, by simp [lookupExactPolicy, hfind]⟩
    simpa [hhost, hon] using List.find?_eq_none.mp hfind row hrow
  | some row =>
    have hrow := List.mem_of_find?_eq_some hfind
    have hmatch := List.find?_some hfind
    simp only [Bool.and_eq_true, decide_eq_true_eq] at hmatch
    exact .inl ⟨row, hrow, hmatch.2, hmatch.1,
      by simp [lookupExactPolicy, hfind, hg.id_ne row hrow]⟩

theorem result_number {n : ℕ} (h : parseSiteID raw = some n) :
    (resolveSiteID b raw).result = .ok n := by
  rw [resolveSiteID, h]
  rfl

private theorem result_slug {n : ℕ} (hnum : parseSiteID raw = none)
    (h : b.lookupSiteIDBySlug raw = .ok n) : (resolveSiteID b raw).result = .ok n := by
  rw [resolveSiteID, hnum, h]
  rfl

private theorem result_hostname {n : ℕ} (hnum : parseSiteID raw = none)
    (hslug : b.lookupSiteIDBySlug raw = .error .unknown) :
    (resolveSiteID b raw).result = .ok n ↔ ∃ p, b.lookupSitePolicy raw = .ok (n, p) := by
  rw [resolveSiteID, hnum, hslug]
  cases hpolicy : b.lookupSitePolicy raw with
  | ok found =>
    change Except.ok found.1 = Except.ok n ↔ _
    constructor
    · intro h
      obtain rfl := Except.ok.inj h
      exact ⟨found.2, rfl⟩
    · rintro ⟨p, hp⟩
      rw [Except.ok.inj hp]
  | error e =>
    cases e with
    | unknown =>
      change Except.error (Refusal.unknownSite raw) = Except.ok n ↔ _
      simp
    | failed =>
      change Except.error Refusal.resolutionFailed = Except.ok n ↔ _
      simp

private theorem lookupSitePolicy_ok_iff (hg : Generated u rows) {n : ℕ} :
    (∃ p, lookupSitePolicy u rows raw = .ok (n, p)) ↔
      ∃ row ∈ rows, row.enabled = true ∧ row.siteID = n ∧
        (row.hostname = normalizeHostname u raw ∨
          (∀ r ∈ rows, r.enabled = true → r.hostname ≠ normalizeHostname u raw) ∧
            normalizeHostname u raw ≠ "" ∧
            row.hostname = wwwToggle (normalizeHostname u raw)) := by
  by_cases hempty : normalizeHostname u raw = ""
  · simp only [lookupSitePolicy, hempty, if_true, reduceCtorEq, exists_false, false_iff]
    rintro ⟨row, hrow, -, -, hhost | ⟨-, hne, -⟩⟩
    · exact hg.hostname_ne row hrow hhost
    · exact hne rfl
  simp only [lookupSitePolicy, hempty, if_false]
  obtain ⟨row, hrow, hon, hhost, hfound⟩ | ⟨hfree, hfound⟩ :=
    lookupExactPolicy_cases hg (normalizeHostname u raw)
  · simp only [hfound, Except.ok.injEq, Prod.mk.injEq, exists_and_left, exists_eq', and_true]
    constructor
    · rintro rfl
      exact ⟨row, hrow, hon, rfl, .inl hhost⟩
    · rintro ⟨r, hr, -, rfl, hrhost | ⟨hnone, -, -⟩⟩
      · rw [hg.ext hrow hr (.inr (.inr (hhost.trans hrhost.symm)))]
      · exact absurd hhost (hnone row hrow hon)
  · simp only [hfound]
    obtain ⟨row, hrow, hon, hhost, htoggled⟩ | ⟨hnone, htoggled⟩ :=
      lookupExactPolicy_cases hg (wwwToggle (normalizeHostname u raw))
    · simp only [htoggled, Except.ok.injEq, Prod.mk.injEq, exists_and_left, exists_eq', and_true]
      constructor
      · rintro rfl
        exact ⟨row, hrow, hon, rfl, .inr ⟨hfree, hempty, hhost⟩⟩
      · rintro ⟨r, hr, hron, rfl, hrhost | ⟨-, -, hrhost⟩⟩
        · exact absurd hrhost (hfree r hr hron)
        · rw [hg.ext hrow hr (.inr (.inr (hhost.trans hrhost.symm)))]
    · simp only [htoggled, reduceCtorEq, exists_false, false_iff]
      rintro ⟨r, hr, hron, -, hrhost | ⟨-, -, hrhost⟩⟩
      · exact hfree r hr hron hrhost
      · exact hnone r hr hron hrhost

/-- A reference resolves to an id exactly in one of these ways. -/
theorem result_eq_ok_iff (hg : Generated u rows) (hb : Serves u rows b) {n : ℕ} :
    (resolveSiteID b raw).result = .ok n ↔ Resolves u rows raw n := by
  cases hnum : parseSiteID raw with
  | some m =>
    rw [result_number hnum]
    constructor
    · intro h
      rw [← Except.ok.inj h]
      exact .number hnum
    · rintro (h | ⟨h, -, -⟩ | ⟨h, -, -, -, -⟩ | ⟨h, -, -, -, -, -, -⟩)
      · rw [Option.some.inj (hnum.symm.trans h)]
      all_goals simp [hnum] at h
  | none =>
    obtain ⟨row, hrow, hslug, hfound⟩ | ⟨hfree, hfound⟩ := lookupSiteIDBySlug_cases hg raw
    · rw [result_slug hnum ((congrFun hb.slug raw).trans hfound)]
      constructor
      · intro h
        rw [← Except.ok.inj h]
        exact .slug hnum hrow hslug
      · rintro (h | ⟨-, hr, hkey⟩ | ⟨-, hnone, -, -, -⟩ | ⟨-, hnone, -, -, -, -, -⟩)
        · simp [hnum] at h
        · rw [hg.ext hrow hr (.inr (.inl (hslug.trans hkey.symm)))]
        all_goals exact absurd hslug (hnone row hrow)
    · rw [result_hostname hnum ((congrFun hb.slug raw).trans hfound), hb.policy,
        lookupSitePolicy_ok_iff hg]
      constructor
      · rintro ⟨row, hrow, hon, rfl, hhost | ⟨hnone, hne, hhost⟩⟩
        · exact .hostname hnum hfree hrow hon hhost
        · exact .toggled hnum hfree hnone hne hrow hon hhost
      · rintro (h | ⟨-, hr, hkey⟩ | ⟨-, -, hrow, hon, hhost⟩ | ⟨-, -, hnone, hne, hrow, hon, hhost⟩)
        · simp [hnum] at h
        · exact absurd hkey (hfree _ hr)
        · exact ⟨_, hrow, hon, rfl, .inl hhost⟩
        · exact ⟨_, hrow, hon, rfl, .inr ⟨hnone, hne, hhost⟩⟩

/-- A slug resolves to its site, in whatever spelling, unless it is a number of another. -/
theorem slug_resolves_iff (hg : Generated u rows) (hb : Serves u rows b) {row : SiteRow}
    (hrow : row ∈ rows) :
    (∀ raw, slugKey u raw = row.slug → (resolveSiteID b raw).result = .ok row.siteID) ↔
      SlugClear row := by
  constructor
  · intro h n hn
    have hslug := h row.slug (hg.plain hrow).slugKey
    rw [result_number hn] at hslug
    exact Except.ok.inj hslug
  · intro hclear raw hkey
    cases hnum : parseSiteID raw with
    | some n =>
      have hraw : raw = row.slug := (Plain.of_parse u hnum).slugKey.symm.trans hkey
      rw [result_number hnum, hclear n (hraw ▸ hnum)]
    | none => exact (result_eq_ok_iff hg hb).mpr (.slug hnum hrow hkey.symm)

private theorem slugKey_slashes_ne (hg : Generated u rows) {row r : SiteRow} (hrow : row ∈ rows)
    (hr : r ∈ rows) : r.slug ≠ slugKey u ("//" ++ row.hostname) := by
  intro h
  have hslash : u.toLower '/' = '/' := u.toLower_ascii '/' (by decide)
  have hmem : '/' ∈ r.slug.toList := by
    rw [h, slugKey, trimSpace_slashes (hg.bare hrow).trimmed, Unicode.lowerString]
    simp [hslash]
  obtain hc | hc := (hg.plain hr '/' hmem).1
  · exact absurd hc (by decide)
  · exact absurd hc (by decide)

private theorem hostClear_of_result (hg : Generated u rows) (hb : Serves u rows b) {row : SiteRow}
    (hrow : row ∈ rows) (h : ∀ raw, normalizeHostname u raw = row.hostname →
      (resolveSiteID b raw).result = .ok row.siteID) : HostClear rows row := by
  have hnormal := hg.hostname row hrow
  have hbare := hg.bare hrow
  refine ⟨fun n hn => ?_, fun r hr hslug => ?_, ?_⟩
  · have hhost := h row.hostname hnormal
    rw [result_number hn] at hhost
    exact Except.ok.inj hhost
  · have hhost : normalizeHostname u (" " ++ row.hostname) = row.hostname := by
      rw [normalizeHostname, trimSpace_space, ← normalizeHostname, hnormal]
    have hspace := h _ hhost
    have hnum : parseSiteID (" " ++ row.hostname) = none :=
      parseSiteID_append_eq_none _ (.inl (by decide))
    have hkey : slugKey u (" " ++ row.hostname) = row.hostname := by
      rw [slugKey, trimSpace_space, hbare.trimmed, hbare.lower]
    have hown := (result_eq_ok_iff hg hb).mpr (.slug hnum hr (hslug.trans hkey.symm))
    exact hg.ext hr hrow (.inl (Except.ok.inj (hown.symm.trans hspace)))
  · have hhost := normalizeHostname_slashes hnormal
    have hslashes := (result_eq_ok_iff hg hb).mp (h _ hhost)
    have hnum : parseSiteID ("//" ++ row.hostname) = none :=
      parseSiteID_append_eq_none _ (.inr (by decide))
    generalize hid : row.siteID = n at hslashes
    cases hslashes with
    | number hn => simp [hnum] at hn
    | slug _ hr hslug => exact absurd hslug (slugKey_slashes_ne hg hrow hr)
    | hostname _ _ hr hon _ =>
      rwa [hg.ext hrow hr (.inl hid)]
    | toggled _ _ _ hne hr _ htoggled =>
      rw [hhost] at hne
      rw [hhost, ← hg.ext hrow hr (.inl hid)] at htoggled
      exact absurd htoggled.symm (wwwToggle_ne hne)

theorem HostClear.result {row : SiteRow} (hclear : HostClear rows row) (hg : Generated u rows)
    (hb : Serves u rows b) (hrow : row ∈ rows) (hhost : normalizeHostname u raw = row.hostname) :
    (resolveSiteID b raw).result = .ok row.siteID := by
  cases hnum : parseSiteID raw with
  | some n =>
    have hplain := Plain.of_parse u hnum
    have hkey := hplain.slugKey
    have hraw := normalizeHostname_of_plain (hkey.symm ▸ hplain)
    rw [hkey, hhost] at hraw
    rw [result_number hnum, hclear.number n (hraw ▸ hnum)]
  | none =>
    rw [result_eq_ok_iff hg hb]
    by_cases hown : ∃ r ∈ rows, r.slug = slugKey u raw
    · obtain ⟨r, hr, hslug⟩ := hown
      have hplain := hslug ▸ hg.plain hr
      have hkey := (normalizeHostname_of_plain hplain).symm.trans hhost
      obtain rfl := hclear.slug r hr (hslug.trans hkey)
      exact .slug hnum hr hslug
    · exact .hostname hnum (fun r hr hslug => hown ⟨r, hr, hslug⟩) hrow hclear.enabled hhost.symm

/-- A hostname resolves to its site, in whatever spelling, under these conditions alone. -/
theorem hostname_resolves_iff (hg : Generated u rows) (hb : Serves u rows b) {row : SiteRow}
    (hrow : row ∈ rows) :
    (∀ raw, normalizeHostname u raw = row.hostname →
      (resolveSiteID b raw).result = .ok row.siteID) ↔ HostClear rows row :=
  ⟨hostClear_of_result hg hb hrow, fun hclear _ hhost => hclear.result hg hb hrow hhost⟩

/-- What resolves to a site is its id, its slug or its hostname, up to a toggled `www.`. -/
theorem calls_of_result (hg : Generated u rows) (hb : Serves u rows b) {row : SiteRow}
    (hrow : row ∈ rows) (h : (resolveSiteID b raw).result = .ok row.siteID) : Calls u row raw := by
  rw [result_eq_ok_iff hg hb] at h
  generalize hid : row.siteID = n at h
  cases h with
  | number hn => exact .inl (.inl (hid ▸ hn))
  | slug _ hr hslug =>
    rw [hg.ext hrow hr (.inl hid)]
    exact .inl (.inr (.inl hslug.symm))
  | hostname _ _ hr _ hhost =>
    rw [hg.ext hrow hr (.inl hid)]
    exact .inl (.inr (.inr hhost.symm))
  | toggled _ _ _ _ hr _ hhost =>
    rw [hg.ext hrow hr (.inl hid)]
    exact .inr hhost.symm

theorem resolveSiteID_denotes (hg : Generated u rows) (hb : Serves u rows b) {row : SiteRow}
    (hrow : row ∈ rows) :
    (resolveSiteID b (toString row.siteID)).result = .ok row.siteID ∧
    (SlugClear row → (resolveSiteID b row.slug).result = .ok row.siteID) ∧
    (HostClear rows row → (resolveSiteID b row.hostname).result = .ok row.siteID) ∧
    ∀ raw siteID, (resolveSiteID b raw).result = .ok siteID →
      (siteID = row.siteID → Calls u row raw) ∧
      (parseSiteID raw = some row.siteID ∨ SlugClear row ∧ slugKey u raw = row.slug ∨
        HostClear rows row ∧ normalizeHostname u raw = row.hostname → siteID = row.siteID) := by
  refine ⟨result_number (parseSiteID_toString (hg.id_ne row hrow) row.siteID_lt),
    fun h => (slug_resolves_iff hg hb hrow).mpr h _ (hg.plain hrow).slugKey,
    fun h => (hostname_resolves_iff hg hb hrow).mpr h _ (hg.hostname row hrow),
    fun raw siteID h => ⟨?_, ?_⟩⟩
  · rintro rfl
    exact calls_of_result hg hb hrow h
  · rintro (hnum | ⟨hclear, hslug⟩ | ⟨hclear, hhost⟩)
    · exact Except.ok.inj (h.symm.trans (result_number hnum))
    · exact Except.ok.inj (h.symm.trans ((slug_resolves_iff hg hb hrow).mpr hclear raw hslug))
    · exact Except.ok.inj (h.symm.trans ((hostname_resolves_iff hg hb hrow).mpr hclear raw hhost))

end

def siteRow (siteID : ℕ) (hlt : siteID < 2 ^ 32) (hostname slug : String) (enabled : Bool) :
    SiteRow where
  siteID := siteID
  siteID_lt := hlt
  hostname := hostname
  slug := slug
  enabled := enabled
  tz := "UTC"
  currency := "EUR"

private theorem one_lt_ids : 1 < 2 ^ 32 := by decide

private theorem two_lt_ids : 2 < 2 ^ 32 := by decide

/-- The second slug is the first id, the third site is disabled, and the fourth slug, which is
cut behind a dash, is the fifth hostname. -/
def crossedRows : List SiteRow :=
  [siteRow 1 one_lt_ids "example.com" "example" true,
    siteRow 2 two_lt_ids "1.com" "1" true,
    siteRow 3 (by decide) "old.ir" "old" false,
    siteRow 4 (by decide) "aaaaaaaaaaaaaaaaaaaaaaaaaaaaaaa.b"
      "aaaaaaaaaaaaaaaaaaaaaaaaaaaaaaa-" true,
    siteRow 5 (by decide) "aaaaaaaaaaaaaaaaaaaaaaaaaaaaaaa-"
      "aaaaaaaaaaaaaaaaaaaaaaaaaaaaaaa" true]

/-- A server that only looks sites up. -/
def sitesOf (u : Unicode) (rows : List SiteRow) : Backend Unit where
  list := .ok []
  lookupSiteByID := fun _ => .error .unknown
  lookupSiteIDBySlug := lookupSiteIDBySlug u rows
  lookupSitePolicy := lookupSitePolicy u rows
  store := fun _ _ => .ok ()
  rows := fun _ => 1
  budget := fun _ => .admitted
  locationFor := fun _ => ZonedTime.utc
  now := 0

private theorem serves_sitesOf (u : Unicode) (rows : List SiteRow) :
    Serves u rows (sitesOf u rows) where
  slug := by rw [sitesOf]
  policy := by rw [sitesOf]

theorem generated_crossed : Generated sampleUnicode crossedRows where
  ids := by decide +kernel
  id_ne := by decide +kernel
  slugs := by decide +kernel
  slug := by decide +kernel
  slug_ne := by decide +kernel
  hostname := by decide +kernel
  hostname_ne := by decide +kernel

/-- The id that a reference resolves to in the sample. -/
def crossedID (raw : String) : Option ℕ :=
  (resolveSiteID (sitesOf sampleUnicode crossedRows) raw).result.toOption

theorem crossedID_eq_some {raw : String} {n : ℕ} :
    crossedID raw = some n ↔
      (resolveSiteID (sitesOf sampleUnicode crossedRows) raw).result = .ok n := by
  rw [crossedID]
  cases (resolveSiteID (sitesOf sampleUnicode crossedRows) raw).result with
  | ok m => simp [Except.toOption]
  | error e => simp [Except.toOption]

theorem crossed_references :
    Generated sampleUnicode crossedRows ∧
      (∃ row ∈ crossedRows, row.siteID = 2 ∧
        (resolveSiteID (sitesOf sampleUnicode crossedRows) row.slug).result = .ok 1) ∧
      (∃ row ∈ crossedRows, row.siteID = 1 ∧ ¬ Names sampleUnicode row "www.example.com" ∧
        (resolveSiteID (sitesOf sampleUnicode crossedRows) "www.example.com").result = .ok 1) ∧
      (∃ row ∈ crossedRows, row.siteID = 3 ∧
        (resolveSiteID (sitesOf sampleUnicode crossedRows) row.hostname).result ≠ .ok 3) ∧
      (∃ row ∈ crossedRows, row.siteID = 5 ∧
        (resolveSiteID (sitesOf sampleUnicode crossedRows) row.hostname).result = .ok 4) ∧
      ¬ ∀ row ∈ crossedRows, Denoted sampleUnicode (sitesOf sampleUnicode crossedRows) row := by
  refine ⟨generated_crossed, ?_, ?_, ?_, ?_, fun h => ?_⟩
  · simp only [← crossedID_eq_some]
    decide +kernel
  · simp only [← crossedID_eq_some, Names]
    decide +kernel
  · simp only [ne_eq, ← crossedID_eq_some]
    decide +kernel
  · simp only [← crossedID_eq_some]
    decide +kernel
  · have hslug := (h crossedRows[1] (by decide +kernel)).slug
    rw [← crossedID_eq_some] at hslug
    exact absurd hslug (by decide +kernel)

/-- The names of a site that is clear are its own, in a registry where others cross. -/
theorem resolveSiteID_denotes_example :
    (resolveSiteID (sitesOf sampleUnicode crossedRows) "1").result = .ok 1 ∧
    (resolveSiteID (sitesOf sampleUnicode crossedRows) "example").result = .ok 1 ∧
    (resolveSiteID (sitesOf sampleUnicode crossedRows) "example.com").result = .ok 1 ∧
    ∀ raw siteID, (resolveSiteID (sitesOf sampleUnicode crossedRows) raw).result = .ok siteID →
      normalizeHostname sampleUnicode raw = "example.com" → siteID = 1 := by
  have hrow : crossedRows[0] ∈ crossedRows := by decide +kernel
  have hslug : SlugClear crossedRows[0] := by
    intro n hn
    have hnone : parseSiteID crossedRows[0].slug = none := by decide +kernel
    rw [hnone] at hn
    cases hn
  have hhost : HostClear crossedRows crossedRows[0] := by
    refine ⟨fun n hn => ?_, by decide +kernel, rfl⟩
    have hnone : parseSiteID crossedRows[0].hostname = none := by decide +kernel
    rw [hnone] at hn
    cases hn
  have hkey : crossedRows[0].slug = "example" := by decide +kernel
  obtain ⟨hid, hslugs, hhosts, honly⟩ :=
    resolveSiteID_denotes generated_crossed (serves_sitesOf _ _) hrow
  refine ⟨hid, ?_, hhosts hhost, fun raw siteID h hraw => ?_⟩
  · rw [← hkey]
    exact hslugs hslug
  · exact (honly raw siteID h).2 (.inr (.inr ⟨hhost, hraw⟩))

end Statnive.SiteReferences
