import Statnive.OriginIndex

/-!
# The lookup of origins

`OriginIndex.Lookup` probes its map with the text of the origin, then with the normalised
origin, then with the `www.` prefix of that toggled. The map is that of a rebuild.
-/

namespace Statnive.OriginLookup

open UrlParse VisitorIdentity SiteOrigins SiteRegistry OriginIndex
open IngestHandler (trimSpace)

variable {lookup : LookupProfile} {rows : List SiteRow} {o canon : String}

/-- `Lookup` after a rebuild. -/
def answer (lookup : LookupProfile) (rows : List SiteRow) (origin : String) : Option ℕ :=
  indexLookup lookup (some (rebuildFromSites lookup rows)) origin

/-- What the slow path answers for a normalised origin. -/
def slowPath (m : OriginMap) (canon : String) : Option ℕ :=
  match m canon with
  | some siteID => some siteID
  | none => (wwwBareToggleOrigin canon).bind m

theorem canonical_of_rebuild {siteID : ℕ} (h : rebuildFromSites lookup rows o = some siteID) :
    Canonical lookup o := by
  obtain ⟨⟨row, -, ⟨-, raw, -, hraw⟩, -⟩, -⟩ := rebuild_some_iff.mp h
  exact canonical_of_normalizeOrigin hraw

theorem canonical_ne (h : Canonical lookup o) : o ≠ "" ∧ o ≠ "null" := by
  obtain ⟨host, port, -, -, -, rfl⟩ := h
  exact ⟨renderOrigin_ne host port (by decide), renderOrigin_ne host port (by decide)⟩

/-- An origin that is its own normal form is answered by the slow path. -/
theorem lookup_stable (h : normalizeOrigin lookup canon = some canon) (m : OriginMap) :
    indexLookup lookup (some m) canon = slowPath m canon := by
  obtain ⟨hempty, hnull⟩ := canonical_ne (canonical_of_normalizeOrigin h)
  simp only [indexLookup, hempty, hnull, decide_false, Bool.or_self, Bool.false_eq_true, if_false,
    slowPath, h]
  cases hm : m canon <;> rfl

/-- An origin of the map that normalises is its own normal form, so that the fast path answers
what the slow path does. -/
theorem lookup_normalized (h : normalizeOrigin lookup o = some canon) :
    answer lookup rows o = slowPath (rebuildFromSites lookup rows) canon := by
  have hempty : o ≠ "" := by
    rintro rfl
    have hnone : normalizeOrigin lookup "" = none := rfl
    rw [hnone] at h
    simp at h
  have hnull : o ≠ "null" := by
    rintro rfl
    have hnone : normalizeOrigin lookup "null" = none := rfl
    rw [hnone] at h
    simp at h
  simp only [answer, indexLookup, hempty, hnull, decide_false, Bool.or_self, Bool.false_eq_true,
    if_false, h]
  cases hm : rebuildFromSites lookup rows o with
  | none => rfl
  | some siteID =>
    have hnormal := normalizeOrigin_canonical (canonical_of_rebuild hm)
    rw [h] at hnormal
    split at hnormal
    · simp at hnormal
    · obtain rfl := Option.some.inj hnormal
      simp [slowPath, hm]

/-- The host of the origin is one that `ToASCII` maps to nothing, or to a host that it refuses. -/
def HostLost (lookup : LookupProfile) (o : String) : Prop :=
  ∃ u ascii, parse (utf8 (trimSpace o)) = some u ∧ lookup.toASCII u.hostname = some ascii ∧
    (ascii = [] ∨ lookup.toASCII ascii = none)

theorem normalizeOrigin_twice (h : normalizeOrigin lookup o = some canon) :
    normalizeOrigin lookup canon = some canon ↔ ¬ HostLost lookup o := by
  simp only [normalizeOrigin] at h
  split at h
  · simp at h
  · cases hparse : parse (utf8 (trimSpace o)) with
    | none => simp [hparse] at h
    | some u =>
      simp only [hparse] at h
      split at h
      · simp at h
      · obtain ⟨ascii, hlook, rfl⟩ := Option.map_eq_some_iff.mp h
        have hldh := lookup.ldh hlook
        rw [map_lower hldh, normalizeOrigin_renderOrigin hldh (port_isDigit u)]
        by_cases hne : ascii = []
        · simp [HostLost, hparse, hlook, hne]
        · rcases lookup.again hlook hne with hsame | hrefused
          · simp [HostLost, hparse, hlook, hne, hsame]
          · simp [HostLost, hparse, hlook, hne, hrefused]

/-- What is asked of the registry's rows and an origin. -/
structure Resolves (lookup : LookupProfile) (rows : List SiteRow) (o : String) : Prop where
  order : ∀ rows', rows.Perm rows' → answer lookup rows' = answer lookup rows
  smallest : ∀ row ∈ rows, Holds lookup row o →
    (∀ other ∈ rows, Holds lookup other o → row.siteID ≤ other.siteID) →
    answer lookup rows o = some row.siteID
  agree : ∀ canon, normalizeOrigin lookup o = some canon →
    answer lookup rows o = answer lookup rows canon
  idempotent : ∀ canon, normalizeOrigin lookup o = some canon →
    normalizeOrigin lookup canon = some canon
  explicit : ∀ canon siteID, normalizeOrigin lookup o = some canon →
    rebuildFromSites lookup rows canon = some siteID → answer lookup rows o = some siteID

private theorem rebuild_perm {rows' : List SiteRow} (h : rows.Perm rows') :
    rebuildFromSites lookup rows' = rebuildFromSites lookup rows :=
  rebuild_congr fun origin siteID => by simp only [h.mem_iff]

private theorem answer_smallest {row : SiteRow} (hrow : row ∈ rows) (hholds : Holds lookup row o)
    (hleast : ∀ other ∈ rows, Holds lookup other o → row.siteID ≤ other.siteID) :
    answer lookup rows o = some row.siteID := by
  have hmap : rebuildFromSites lookup rows o = some row.siteID :=
    rebuild_some_iff.mpr ⟨⟨row, hrow, hholds, rfl⟩, hleast⟩
  obtain ⟨hempty, hnull⟩ := canonical_ne (canonical_of_rebuild hmap)
  simp [answer, indexLookup, hempty, hnull, hmap]

/-- For every list of sites and every origin: the lookup is the same for every order of the
sites, answers the smallest id, is the same for the origin and its normal form, and prefers an
entry to its alias. Normalising is idempotent exactly when it does not lose the host, and so is
the look-up of the normal form. -/
theorem resolves_iff (lookup : LookupProfile) (rows : List SiteRow) (o : String) :
    Resolves lookup rows o ↔ normalizeOrigin lookup o = none ∨ ¬ HostLost lookup o := by
  constructor
  · intro h
    cases hn : normalizeOrigin lookup o with
    | none => exact .inl rfl
    | some canon => exact .inr ((normalizeOrigin_twice hn).mp (h.idempotent canon hn))
  · intro h
    exact {
      order := fun rows' hperm => by
        funext origin
        rw [answer, answer, rebuild_perm hperm]
      smallest := fun row hrow hholds hleast => answer_smallest hrow hholds hleast
      agree := fun canon hn => by
        have hstable := (normalizeOrigin_twice hn).mpr (h.resolve_left (by simp [hn]))
        rw [lookup_normalized hn, answer, lookup_stable hstable]
      idempotent := fun canon hn =>
        (normalizeOrigin_twice hn).mpr (h.resolve_left (by simp [hn]))
      explicit := fun canon siteID hn hm => by
        rw [lookup_normalized hn, slowPath, hm] }

/-- The look-up of the samples, with the empty host as its own answer. -/
def idempotentLookup : LookupProfile where
  toASCII host := if host = [] then some [] else sampleLookup.toASCII host
  ldh := by
    intro host ascii h
    split at h
    · obtain rfl := Option.some.inj h
      simp
    · exact sampleLookup.ldh h
  again := by
    intro host ascii h hne
    split at h
    · exact absurd (Option.some.inj h).symm hne
    · rw [if_neg hne]
      exact sampleLookup.again h hne

private theorem sampleLookup_ne_none {host ascii : PrivacyPolicy.Bytes}
    (h : sampleLookup.toASCII host = some ascii) (hne : ascii ≠ []) :
    sampleLookup.toASCII ascii ≠ none := by
  simp only [sampleLookup] at h ⊢
  split_ifs at h with hplain hempty
  · obtain rfl := Option.some.inj h
    have hldh : ∀ c ∈ host.map lower, isLDH c = true := by
      simp only [plainHost, Bool.and_eq_true] at hplain
      exact List.all_eq_true.mp hplain.1
    simp [map_lower hldh, hplain]
  · exact absurd (Option.some.inj h).symm hne

/-- `https://xn--` is normalised to an origin without a host, which does not normalise. -/
theorem lost_host :
    (∀ host ascii, idempotentLookup.toASCII host = some ascii →
      idempotentLookup.toASCII ascii = some ascii) ∧
    normalizeOrigin idempotentLookup "https://xn--" = some "https://" ∧
      normalizeOrigin idempotentLookup "https://" = none := by
  refine ⟨fun host ascii h => ?_, by decide +kernel, by decide +kernel⟩
  by_cases hne : ascii = []
  · rw [hne]
    rfl
  · refine (idempotentLookup.again h hne).resolve_right fun hrefused => ?_
    simp only [idempotentLookup, if_neg hne] at h hrefused
    split_ifs at h with hempty
    · exact hne (Option.some.inj h).symm
    · exact sampleLookup_ne_none h hne hrefused

end Statnive.OriginLookup
