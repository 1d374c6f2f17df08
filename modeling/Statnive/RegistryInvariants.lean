import Statnive.SitesHandlers

/-!
# Invariants of the registry

What holds of the rows after any sequence of admin requests: their origins are canonical,
an id other than zero is the id of one row, and the row with the id zero has no origins.
-/

namespace Statnive.RegistryInvariants

open SiteOrigins SiteRegistry OriginIndex SitesHandlers LabelledRuns

structure WellFormed (lookup : LookupProfile) (rows : List SiteRow) : Prop where
  canonical : ∀ row ∈ rows, ∀ origin ∈ row.allowedOrigins, Canonical lookup origin
  unique : rows.Pairwise fun a b => a.siteID = b.siteID → a.siteID = 0
  zero : ∀ row ∈ rows, row.siteID = 0 → row.allowedOrigins = []

variable {u : SiteTables} {fails : StoreCall → Bool} {rows : List SiteRow}

theorem mem_of_mapM {α β : Type} {f : α → Option β} {xs : List α} {ys : List β}
    (h : xs.mapM f = some ys) {y : β} (hy : y ∈ ys) : ∃ x ∈ xs, f x = some y := by
  induction xs generalizing ys with
  | nil => simp_all
  | cons x xs ih =>
    cases hx : f x with
    | none => simp [List.mapM_cons, hx] at h
    | some z => cases hxs : xs.mapM f with
      | none => simp [List.mapM_cons, hx, hxs] at h
      | some zs =>
        obtain rfl : z :: zs = ys := by simpa [List.mapM_cons, hx, hxs] using h
        rcases List.mem_cons.mp hy with rfl | hy
        · exact ⟨x, by simp, hx⟩
        · obtain ⟨x', hx', hfx⟩ := ih hxs hy
          exact ⟨x', by simp [hx'], hfx⟩

private theorem mapM_eq_self
    {α : Type} {f : α → Option α} {xs : List α} (h : ∀ x ∈ xs, f x = some x) :
    xs.mapM f = some xs := by
  induction xs with
  | nil => rfl
  | cons x xs ih =>
    have hrest := ih fun y hy => h y (by simp [hy])
    simp [List.mapM_cons, h x (by simp), hrest]

/-- The origins of a normalised policy are canonical. -/
theorem canonical_of_normalized {lookup : LookupProfile} {policy p : SitePolicy}
    (h : policy.normalized lookup = some p) {origins : List String}
    (ho : p.allowedOrigins = some origins) : ∀ origin ∈ origins, Canonical lookup origin := by
  intro origin hmem
  cases hpol : policy.allowedOrigins with
  | none =>
    simp only [SitePolicy.normalized, hpol, Option.some.injEq] at h
    simp [← h, hpol] at ho
  | some raws =>
    simp only [SitePolicy.normalized, hpol, Option.map_eq_some_iff] at h
    obtain ⟨canon, hcanon, rfl⟩ := h
    obtain rfl := Option.some.inj ho
    obtain ⟨raw, -, hraw⟩ := mem_of_mapM hcanon hmem
    exact canonical_of_normalizeOrigin hraw

private theorem normalizeOrigin_of_validate {lookup : LookupProfile} {p : SitePolicy}
    (h : p.validate lookup = .ok ()) :
    ∀ raw ∈ p.origins, ∃ origin, normalizeOrigin lookup raw = some origin := by
  intro raw hraw
  cases ho : validateAllowedOrigins lookup p.origins with
  | error e => simp [SitePolicy.validate, ho, bind, Except.bind] at h
  | ok _ =>
    unfold validateAllowedOrigins at ho
    split at ho
    · simp at ho
    · cases hfind : p.origins.find? (fun raw => (normalizeOrigin lookup raw).isNone) with
      | some bad => simp [hfind] at ho
      | none =>
        have hnot := List.find?_eq_none.mp hfind raw hraw
        exact Option.ne_none_iff_exists'.mp (by simpa using hnot)

theorem WellFormed.row_eq {lookup : LookupProfile} (h : WellFormed lookup rows) {a b : SiteRow}
    (ha : a ∈ rows) (hb : b ∈ rows) (hid : a.siteID = b.siteID) (hne : a.siteID ≠ 0) : a = b := by
  obtain ⟨-, hunique, -⟩ := h
  induction rows with
  | nil => simp at ha
  | cons r rows ih =>
    obtain ⟨hr, hrest⟩ := List.pairwise_cons.mp hunique
    rcases List.mem_cons.mp ha with har | har <;> rcases List.mem_cons.mp hb with hbr | hbr
    · rw [har, hbr]
    · exact absurd (har ▸ hr b hbr (har ▸ hid)) hne
    · exact absurd (hr a har (hbr ▸ hid.symm)) (hbr ▸ hid ▸ hne)
    · exact ih har hbr hrest

private theorem wellFormed_insert
    {lookup : LookupProfile} (h : WellFormed lookup rows) {row : SiteRow}
    (hfresh : row.siteID ≠ 0 → ∀ old ∈ rows, old.siteID ≠ row.siteID)
    (horigins : row.allowedOrigins = []) : WellFormed lookup (rows ++ [row]) where
  canonical r hr origin ho := by
    rcases List.mem_append.mp hr with hr | hr
    · exact h.canonical r hr origin ho
    · obtain rfl := List.mem_singleton.mp hr
      simp [horigins] at ho
  unique := by
    refine List.pairwise_append.mpr ⟨h.unique, List.pairwise_singleton _ _, ?_⟩
    intro old hold r hr heq
    obtain rfl := List.mem_singleton.mp hr
    by_contra hne
    exact hfresh (heq ▸ hne) old hold heq
  zero r hr hid := by
    rcases List.mem_append.mp hr with hr | hr
    · exact h.zero r hr hid
    · obtain rfl := List.mem_singleton.mp hr
      exact horigins

theorem wellFormed_alterUpdate {lookup : LookupProfile} (h : WellFormed lookup rows) {siteID : ℕ}
    {f : SiteRow → SiteRow} (hid : ∀ row, (f row).siteID = row.siteID)
    (hcanon : ∀ row ∈ rows, row.siteID = siteID → ∀ origin ∈ (f row).allowedOrigins,
      Canonical lookup origin)
    (hzero : siteID = 0 → ∀ row, (f row).allowedOrigins = row.allowedOrigins) :
    WellFormed lookup (alterUpdate rows siteID f) where
  canonical r hr origin ho := by
    obtain ⟨old, hold, ⟨-, rfl⟩ | ⟨hsite, rfl⟩⟩ := mem_alterUpdate hr
    · exact h.canonical r hold origin ho
    · exact hcanon old hold hsite origin ho
  unique := by
    refine List.pairwise_map.mpr (h.unique.imp fun {a b} hab => ?_)
    have hkeep (row : SiteRow) : (if row.siteID = siteID then f row else row).siteID = row.siteID := by
      split <;> simp [hid]
    rw [hkeep, hkeep]
    exact hab
  zero r hr hrid := by
    obtain ⟨old, hold, ⟨-, rfl⟩ | ⟨hsite, rfl⟩⟩ := mem_alterUpdate hr
    · exact h.zero r hold hrid
    · rw [hid] at hrid
      rw [hzero (hsite.symm.trans hrid), h.zero old hold hrid]

theorem withPolicy_origins (row : SiteRow) (p : SitePolicy) :
    (row.withPolicy p).allowedOrigins = p.allowedOrigins.getD row.allowedOrigins := rfl

theorem wellFormed_withPolicy {s : State} (h : WellFormed u.toLookupProfile s.rows) {siteID : ℕ}
    (hid : siteID ≠ 0) {policy p : SitePolicy}
    (hnorm : policy.normalized u.toLookupProfile = some p) (rebuilt : Bool) :
    WellFormed u.toLookupProfile (withPolicy u fails s siteID p rebuilt).rows := by
  rw [withPolicy_rows]
  refine wellFormed_alterUpdate h (fun _ => rfl) (fun row hrow _ origin ho => ?_)
    fun hzero => absurd hzero hid
  cases horigins : p.allowedOrigins with
  | none =>
    rw [withPolicy_origins, horigins, Option.getD_none] at ho
    exact h.canonical row hrow origin ho
  | some origins =>
    rw [withPolicy_origins, horigins, Option.getD_some] at ho
    exact canonical_of_normalized hnorm horigins origin ho

theorem wellFormed_rowInsert {s : State} {req : CreateSiteRequest} {row : SiteRow}
    (h : RowInsert u fails s req row) (hs : WellFormed u.toLookupProfile s.rows) :
    WellFormed u.toLookupProfile (s.insert row).rows := by
  refine wellFormed_insert hs (createSite_fresh h.created) ?_
  obtain ⟨site, -, rfl⟩ := createSite_ok h.created
  rfl

/-- Every request keeps the rows well formed. -/
theorem wellFormed_step {s t : State} {r : Served} (hs : WellFormed u.toLookupProfile s.rows)
    (h : step u s r = some t) : WellFormed u.toLookupProfile t.rows := by
  obtain rfl := Option.some.inj h
  obtain ⟨request, fails⟩ := r
  cases request with
  | create body => cases body with
    | none => exact hs
    | some req =>
      simp only [handle]
      rcases create_cases u fails s req with ⟨hsame, -⟩ | ⟨row, hins, hcase⟩
      · rwa [hsame]
      · have hrow := wellFormed_rowInsert hins hs
        rcases hcase with ⟨hstate, -⟩ | ⟨policy, p, hpol, hstate⟩
        · rwa [hstate]
        · rw [hstate]
          exact wellFormed_withPolicy hrow hpol.siteID_ne hpol.normalized true
  | update siteIDParam body =>
    cases hparse : AuthGuards.parseSiteID siteIDParam with
    | none => simpa [handle, hparse] using hs
    | some siteID => cases body with
      | none => simpa [handle, hparse] using hs
      | some req =>
        simp only [handle, hparse]
        obtain ⟨s₁, currency, tz, enabled, hs₁, -, hstate⟩ := updateSite_cases u fails s siteID req
        have hwf : WellFormed u.toLookupProfile s₁.rows := by
          rcases hs₁ with ⟨rfl, -⟩ | ⟨current, p, hw, rfl⟩
          · exact hs
          · exact wellFormed_withPolicy hs (lookupSiteByID_some hw.found).1 hw.normalized _
        rw [hstate]
        exact wellFormed_alterUpdate hwf (fun _ => rfl)
          (fun row hrow _ origin ho => hwf.canonical row hrow origin ho) fun _ _ => rfl
  | reload =>
    simp only [handle, rebuildOriginIndex_rows]
    exact hs

theorem wellFormed_nil (lookup : LookupProfile) : WellFormed lookup [] :=
  ⟨by simp, List.Pairwise.nil, by simp⟩

/-- No entry of the index has the id zero. -/
def NoZero (index : Option OriginMap) : Prop := ∀ m, index = some m → ∀ origin, m origin ≠ some 0

theorem noZero_rebuildOriginIndex {s : State} (hwf : WellFormed u.toLookupProfile s.rows)
    (hs : NoZero s.index) : NoZero (rebuildOriginIndex u fails s).index := by
  intro m hm origin hzero
  simp only [rebuildOriginIndex] at hm
  split_ifs at hm
  · exact hs m hm origin hzero
  · obtain rfl := Option.some.inj hm
    obtain ⟨⟨row, hrow, ⟨-, raw, hraw, -⟩, hid⟩, -⟩ := rebuild_some_iff.mp hzero
    rw [hwf.zero row (mem_listAdmin.mp hrow) hid] at hraw
    exact List.not_mem_nil hraw

theorem noZero_withPolicy {s : State} {siteID : ℕ} {p : SitePolicy} {rebuilt : Bool}
    (hwf : WellFormed u.toLookupProfile (withPolicy u fails s siteID p rebuilt).rows)
    (hs : NoZero s.index) : NoZero (withPolicy u fails s siteID p rebuilt).index := by
  cases rebuilt with
  | false => exact hs
  | true =>
    rw [withPolicy_rows] at hwf
    exact noZero_rebuildOriginIndex hwf hs

private theorem noZero_step {s t : State} {r : Served} (hwf : WellFormed u.toLookupProfile s.rows)
    (hs : NoZero s.index) (h : step u s r = some t) : NoZero t.index := by
  obtain rfl := Option.some.inj h
  obtain ⟨request, fails⟩ := r
  cases request with
  | create body => cases body with
    | none => exact hs
    | some req =>
      simp only [handle]
      rcases create_cases u fails s req with ⟨hsame, -⟩ | ⟨row, hins, hcase⟩
      · rwa [hsame]
      rcases hcase with ⟨hstate, -⟩ | ⟨policy, p, hpol, hstate⟩
      · rwa [hstate]
      · rw [hstate]
        have hrow := wellFormed_rowInsert hins hwf
        exact noZero_withPolicy
          (wellFormed_withPolicy hrow hpol.siteID_ne hpol.normalized true) hs
  | update siteIDParam body =>
    cases hparse : AuthGuards.parseSiteID siteIDParam with
    | none => simpa [handle, hparse] using hs
    | some siteID => cases body with
      | none => simpa [handle, hparse] using hs
      | some req =>
        simp only [handle, hparse]
        obtain ⟨s₁, currency, tz, enabled, hs₁, -, hstate⟩ := updateSite_cases u fails s siteID req
        rw [hstate]
        rcases hs₁ with ⟨rfl, -⟩ | ⟨current, p, hw, rfl⟩
        · exact hs
        · exact noZero_withPolicy
            (wellFormed_withPolicy hwf (lookupSiteByID_some hw.found).1 hw.normalized _) hs
  | reload => exact noZero_rebuildOriginIndex hwf hs

private theorem indexLookup_ne_zero
    {index : Option OriginMap} (h : NoZero index) (lookup : LookupProfile)
    (origin : String) : indexLookup lookup index origin ≠ some 0 := by
  intro hzero
  simp only [indexLookup] at hzero
  split at hzero
  · simp at hzero
  cases index with
  | none => simp at hzero
  | some m =>
    have hm := h m rfl
    cases hown : m origin with
    | some siteID => exact hm origin (by simpa [hown] using hzero)
    | none =>
      cases hcanon : normalizeOrigin lookup origin with
      | none => simp [hown, hcanon] at hzero
      | some canon =>
        cases hsite : m canon with
        | some siteID => exact hm canon (by simpa [hown, hcanon, hsite] using hzero)
        | none =>
          simp only [hown, hcanon, hsite, Option.bind_eq_some_iff] at hzero
          obtain ⟨toggled, -, htoggled⟩ := hzero
          exact hm toggled htoggled

/-- However the registry has come about, an origin is resolved to a site or to none. -/
theorem exec_indexLookup_ne_zero {rows : List SiteRow} (hwf : WellFormed u.toLookupProfile rows)
    {es : List Served} {s : State} (h : exec (step u) ⟨rows, none⟩ es = some s) (origin : String) :
    indexLookup u.toLookupProfile s.index origin ≠ some 0 := by
  have hinv : WellFormed u.toLookupProfile s.rows ∧ NoZero s.index := by
    refine exec_invariant (I := fun s => WellFormed u.toLookupProfile s.rows ∧ NoZero s.index)
      ?_ h ⟨hwf, fun m hm => by simp at hm⟩
    exact fun s r t hs hstep => ⟨wellFormed_step hs.1 hstep, noZero_step hs.1 hs.2 hstep⟩
  exact indexLookup_ne_zero hinv.2 u.toLookupProfile origin

/-- A patch that names no origins leaves those of its site as they are. -/
theorem origins_kept {s : State} {siteID : ℕ} {req : UpdateSiteRequest}
    {current : SiteRow} {p : SitePolicy} (h : PolicyWrite u fails s siteID req current p)
    (hs : WellFormed u.toLookupProfile s.rows) (hreq : req.allowedOrigins = none) :
    ∀ row ∈ s.rows, row.siteID = siteID →
      (row.withPolicy p).allowedOrigins = row.allowedOrigins := by
  intro row hrow hid
  obtain ⟨hne, hmem, hcur⟩ := lookupSiteByID_some h.found
  obtain rfl : row = current := hs.row_eq hrow hmem (hid.trans hcur.symm) (hid ▸ hne)
  have hmerged : (mergedPolicy row req).allowedOrigins = parseJSONStringSlice row.allowedOrigins := by
    simp [mergedPolicy, hreq, SiteRow.policy]
  by_cases hempty : row.allowedOrigins = []
  · have hnone : (mergedPolicy row req).allowedOrigins = none := by
      simp [hmerged, parseJSONStringSlice, hempty]
    have hp : mergedPolicy row req = p := by
      simpa [SitePolicy.normalized, hnone] using h.normalized
    rw [withPolicy_origins, ← hp, hnone, Option.getD_none]
  · have hsome : (mergedPolicy row req).allowedOrigins = some row.allowedOrigins := by
      simp [hmerged, parseJSONStringSlice, hempty]
    have hfix : ∀ origin ∈ row.allowedOrigins,
        normalizeOrigin u.toLookupProfile origin = some origin := by
      intro origin ho
      obtain ⟨o, hsome'⟩ := normalizeOrigin_of_validate h.valid origin
        (by simpa [SitePolicy.origins, hsome] using ho)
      have hcanon := normalizeOrigin_canonical (hs.canonical row hrow origin ho)
      rw [hcanon] at hsome'
      split at hsome'
      · simp at hsome'
      · next hh => rw [hcanon, if_neg hh]
    have hp : p.allowedOrigins = some row.allowedOrigins := by
      have hnorm := h.normalized
      simp only [SitePolicy.normalized, hsome, mapM_eq_self hfix, Option.map_some,
        Option.some.injEq] at hnorm
      rw [← hnorm]
    rw [withPolicy_origins, hp, Option.getD_some]

end Statnive.RegistryInvariants
