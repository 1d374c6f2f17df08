import Statnive.PatchedRows
import Statnive.RegistryInvariants
import Statnive.StoredPolicy

/-!
# The rows that site writes leave

What a create or a patch asks for, field by field, against the row that is stored once the
request is answered with success.
-/

namespace Statnive.SiteWrites

open SiteOrigins SiteRegistry SitesHandlers PatchedRows

def canonicalOrigins (u : SiteTables) (origins : List String) : List String :=
  origins.filterMap (normalizeOrigin u.toLookupProfile)

/-- The row of a new site, `row` without the policy fields that the request carries. -/
def requestedRow (u : SiteTables) (req : CreateSiteRequest) (row : SiteRow) : SiteRow :=
  { row with
    jurisdiction := if req.jurisdiction = "" then row.jurisdiction else req.jurisdiction
    consentMode :=
      if req.consentMode ≠ "" then req.consentMode
      else if req.jurisdiction ≠ "" then derivedConsentMode req.jurisdiction
      else row.consentMode
    eventAllowlist := req.eventAllowlist.getD row.eventAllowlist
    allowedOrigins := (req.allowedOrigins.map (canonicalOrigins u)).getD row.allowedOrigins }

/-- The row with the fields that the request carries in their place. -/
def patchedRow (u : SiteTables) (req : UpdateSiteRequest) (row : SiteRow) : SiteRow :=
  { row with
    enabled := req.enabled.getD row.enabled
    respectDNT := req.respectDNT.getD row.respectDNT
    respectGPC := req.respectGPC.getD row.respectGPC
    trackBots := req.trackBots.getD row.trackBots
    currency := req.currency.getD row.currency
    tz := req.tz.getD row.tz
    jurisdiction := req.jurisdiction.getD row.jurisdiction
    consentMode := req.consentMode.getD row.consentMode
    eventAllowlist := req.eventAllowlist.getD row.eventAllowlist
    allowedOrigins := (req.allowedOrigins.map (canonicalOrigins u)).getD row.allowedOrigins }

/-- The request says nothing of the policy but the default of the consent mode. -/
structure Silent (req : CreateSiteRequest) : Prop where
  jurisdiction : req.jurisdiction = ""
  consentMode : req.consentMode = "" ∨ req.consentMode = "permissive"
  eventAllowlist : req.eventAllowlist.getD [] = []
  allowedOrigins : req.allowedOrigins.getD [] = []

/-- The patch empties no text that the row has, and the stored origins are in normal form where
it writes a policy without origins of its own. -/
structure Replaceable (u : SiteTables) (req : UpdateSiteRequest) (row : SiteRow) : Prop where
  jurisdiction : req.jurisdiction = some "" → row.jurisdiction = ""
  consentMode : req.consentMode = some "" → row.consentMode = ""
  allowedOrigins : req.hasPolicy = true → req.allowedOrigins = none →
    canonicalOrigins u row.allowedOrigins = row.allowedOrigins

def rowOf (rows : List SiteRow) (siteID : ℕ) : Option SiteRow :=
  rows.find? (fun row => row.siteID = siteID)

/-- The first row of the site is replaced, and the rows of the other sites are as they were. -/
def Replaces (u : SiteTables) (s t : State) (siteID : ℕ) (req : UpdateSiteRequest) (row : SiteRow) :
    Prop :=
  rowOf t.rows siteID = some (patchedRow u req row) ∧
    t.rows.filter (fun row => row.siteID ≠ siteID) = s.rows.filter (fun row => row.siteID ≠ siteID)

variable {u : SiteTables} {fails : StoreCall → Bool} {s t : State} {siteID : ℕ}

theorem canonicalOrigins_of_mapM {origins canon : List String}
    (h : origins.mapM (normalizeOrigin u.toLookupProfile) = some canon) :
    canonicalOrigins u origins = canon := by
  induction origins generalizing canon with
  | nil => simpa [canonicalOrigins] using h
  | cons o origins ih =>
    simp only [List.mapM_cons, Option.bind_eq_bind, Option.bind_eq_some_iff, Option.pure_def,
      Option.some.injEq] at h
    obtain ⟨c, hc, cs, hcs, rfl⟩ := h
    rw [canonicalOrigins, List.filterMap_cons, hc]
    exact congrArg (c :: ·) (ih hcs)

theorem refuseCollision_error {collidingID : Option ℕ} {status : ℕ}
    (h : refuseCollision collidingID = .error status) : 400 ≤ status := by
  cases collidingID with
  | none => exact Except.error.inj h ▸ (by decide : 400 ≤ 500)
  | some id =>
    rw [refuseCollision] at h
    split at h
    next => exact Except.error.inj h ▸ (by decide : 400 ≤ 409)
    next => cases h

private theorem writeCreatedPolicy_error {policy : Option SitePolicy} {status : ℕ}
    (h : writeCreatedPolicy u fails s siteID policy = .error status) : status = 500 := by
  cases policy with
  | none => cases h
  | some p =>
    simp only [writeCreatedPolicy] at h
    split at h
    next => exact (Except.error.inj h).symm
    next => cases h

private theorem create_ok {req : CreateSiteRequest} (h : create u fails s req = (t, 201)) :
    ∃ row, RowInsert u fails s req row ∧
      writeCreatedPolicy u fails (s.insert row) row.siteID (buildPolicyFromCreateRequest req) =
        .ok t := by
  rw [create] at h
  split at h
  next => exact absurd (congrArg Prod.snd h) (by decide : 400 ≠ 201)
  next hvalid =>
    split at h
    next status hcollision =>
      rw [checkCreatedOrigins] at hcollision
      split at hcollision
      next => cases hcollision
      next =>
        have hstatus : status = 201 := congrArg Prod.snd h
        have hle := refuseCollision_error hcollision
        omega
    next hcollision =>
      split at h
      next err _ =>
        have hstatus : createStatus err = 201 := congrArg Prod.snd h
        cases err <;> cases hstatus
      next row hrow =>
        simp only at h
        split at h
        next status hpolicy =>
          have hstatus : status = 201 := congrArg Prod.snd h
          have h500 := writeCreatedPolicy_error hpolicy
          omega
        next t' hpolicy =>
          obtain rfl : t' = t := congrArg Prod.fst h
          exact ⟨row, ⟨⟨hvalid, hrow⟩, hcollision⟩, hpolicy⟩

theorem buildPolicy_eq_none_iff {req : CreateSiteRequest} :
    buildPolicyFromCreateRequest req = none ↔
      req.jurisdiction = "" ∧ req.allowedOrigins.getD [] = [] := by
  simp [buildPolicyFromCreateRequest]

/-- The row of a site that is created without a policy is the one that was asked for exactly when
the request is silent. -/
theorem requestedRow_eq_iff {req : CreateSiteRequest} {row : SiteRow} {site : NewSite} {siteID : ℕ}
    (hrow : row = site.row siteID) (hbuild : buildPolicyFromCreateRequest req = none) :
    row = requestedRow u req row ↔ Silent req := by
  obtain ⟨hjurisdiction, horigins⟩ := buildPolicy_eq_none_iff.mp hbuild
  have hcanonical : (req.allowedOrigins.map (canonicalOrigins u)).getD [] = [] := by
    cases ho : req.allowedOrigins with
    | none => rfl
    | some origins =>
      obtain rfl : origins = [] := by simpa [ho] using horigins
      rfl
  rw [hrow]
  constructor
  · intro heq
    have hmode := congrArg SiteRow.consentMode heq
    have hevents := congrArg SiteRow.eventAllowlist heq
    refine ⟨hjurisdiction, ?_, hevents.symm, horigins⟩
    by_cases hconsent : req.consentMode = ""
    · exact .inl hconsent
    · exact .inr (by simpa [requestedRow, hconsent, NewSite.row] using hmode.symm)
  · intro hsilent
    have hmode : (if req.consentMode = "" then "permissive" else req.consentMode) =
        "permissive" := by
      obtain hempty | hdefault := hsilent.consentMode
      · exact if_pos hempty
      · rw [hdefault]
        rfl
    simp [requestedRow, NewSite.row, hjurisdiction, hmode, hsilent.eventAllowlist, hcanonical]

/-- The policy of a create turns the tracking of bots off. -/
theorem trackBots_of_build {req : CreateSiteRequest} {policy p : SitePolicy}
    {lookup : LookupProfile} (hbuild : buildPolicyFromCreateRequest req = some policy)
    (h : policy.normalized lookup = some p) : p.trackBots = false := by
  obtain ⟨origins, rfl⟩ := StoredPolicy.normalized_eq h
  rw [buildPolicyFromCreateRequest] at hbuild
  split at hbuild
  next => cases hbuild
  next =>
    obtain rfl := Option.some.inj hbuild
    rfl

/-- A create that is answered with success leaves the row that was asked for exactly when its
request was silent on the policy: the write of a policy turns the tracking of bots off, and
without one the consent mode and the events of the request are dropped. -/
theorem create_faithful_iff {req : CreateSiteRequest} (h : create u fails s req = (t, 201)) :
    ∃ row, RowInsert u fails s req row ∧
      (t.rows = s.rows ++ [requestedRow u req row] ↔ Silent req) := by
  obtain ⟨row, hinsert, hpolicy⟩ := create_ok h
  obtain ⟨site, -, hrow⟩ := createSite_ok hinsert.created
  refine ⟨row, hinsert, ?_⟩
  cases hbuild : buildPolicyFromCreateRequest req with
  | none =>
    rw [hbuild] at hpolicy
    obtain rfl : s.insert row = t := Except.ok.inj hpolicy
    rw [State.insert, List.append_cancel_left_eq, List.cons.injEq, and_iff_left rfl]
    exact requestedRow_eq_iff hrow hbuild
  | some policy =>
    have hsilent : ¬ Silent req := fun hsilent => by
      rw [buildPolicy_eq_none_iff.mpr ⟨hsilent.jurisdiction, hsilent.allowedOrigins⟩] at hbuild
      cases hbuild
    rw [hbuild, writeCreatedPolicy] at hpolicy
    split at hpolicy
    next => cases hpolicy
    next rows hwritten =>
      obtain rfl := Except.ok.inj hpolicy
      obtain ⟨hid, -, -, p, hnormalized, rfl⟩ := updateSitePolicy_ok hwritten
      have hbots := trackBots_of_build hbuild hnormalized
      refine iff_of_false (fun heq => ?_) hsilent
      rw [rebuildOriginIndex_rows] at heq
      have hlast := congrArg List.getLast? heq
      simp only [alterUpdate, State.insert, List.map_append, List.map_cons, List.map_nil, if_true,
        List.getLast?_append, List.getLast?_singleton, Option.some_or, Option.some.injEq] at hlast
      have htrack : p.trackBots = row.trackBots := congrArg SiteRow.trackBots hlast
      rw [hbots, hrow] at htrack
      cases htrack

private theorem applyPolicyPatch_error {req : UpdateSiteRequest} {status : ℕ}
    (h : applyPolicyPatch u fails s siteID req = .error status) : 400 ≤ status := by
  rw [applyPolicyPatch] at h
  split at h
  next => cases h
  next =>
    split at h
    next => exact Except.error.inj h ▸ (by decide : 400 ≤ 404)
    next current =>
      simp only at h
      split at h
      next => exact Except.error.inj h ▸ le_rfl
      next =>
        split at h
        next status' hcollision =>
          obtain rfl := Except.error.inj h
          rw [checkPatchedOrigins] at hcollision
          split at hcollision
          next => cases hcollision
          next => exact refuseCollision_error hcollision
        next =>
          split at h
          next => exact Except.error.inj h ▸ (by decide : 400 ≤ 500)
          next => cases h

private theorem applyAttributesPatch_error {req : UpdateSiteRequest} {status : ℕ}
    (h : applyAttributesPatch fails s siteID req = .error status) : 400 ≤ status := by
  rw [applyAttributesPatch] at h
  split at h
  next => cases h
  next =>
    split at h
    next err _ =>
      obtain rfl := Except.error.inj h
      cases err <;> decide
    next => cases h

private theorem applyEnabledPatch_error {req : UpdateSiteRequest} {status : ℕ}
    (h : applyEnabledPatch fails s siteID req = .error status) : 400 ≤ status := by
  rw [applyEnabledPatch] at h
  split at h
  next => cases h
  next =>
    split at h
    next err _ =>
      obtain rfl := Except.error.inj h
      cases err <;> decide
    next => cases h

private theorem updateSite_stages {req : UpdateSiteRequest}
    (h : updateSite u fails s siteID req = (t, 200)) :
    ∃ s₁ s₂, applyPolicyPatch u fails s siteID req = .ok s₁ ∧
      applyAttributesPatch fails s₁ siteID req = .ok s₂ ∧
      applyEnabledPatch fails s₂ siteID req = .ok t ∧ ∃ row ∈ t.rows, row.siteID = siteID := by
  rw [updateSite] at h
  split at h
  next status hpolicy =>
    have hstatus : status = 200 := congrArg Prod.snd h
    have hle := applyPolicyPatch_error hpolicy
    omega
  next s₁ hpolicy =>
    split at h
    next status hattributes =>
      have hstatus : status = 200 := congrArg Prod.snd h
      have hle := applyAttributesPatch_error hattributes
      omega
    next s₂ hattributes =>
      split at h
      next status henabled =>
        have hstatus : status = 200 := congrArg Prod.snd h
        have hle := applyEnabledPatch_error henabled
        omega
      next s₃ henabled =>
        obtain rfl : s₃ = t := congrArg Prod.fst h
        refine ⟨s₁, s₂, hpolicy, hattributes, henabled, ?_⟩
        have hstatus : readAgain fails s₃ siteID 200 404 = 200 := congrArg Prod.snd h
        rw [readAgain] at hstatus
        split at hstatus
        next => cases hstatus
        next =>
          split at hstatus
          next hany => simpa using hany
          next => cases hstatus

/-- What a patch that is answered with success writes: its policy, where it has one, and the
other fields of its request. -/
theorem updateSite_ok {req : UpdateSiteRequest} (h : updateSite u fails s siteID req = (t, 200)) :
    ∃ policy, t.rows = alterUpdate s.rows siteID
        (patched policy req.currency req.tz req.enabled) ∧
      (∃ row ∈ t.rows, row.siteID = siteID) ∧ (policy = none → req.hasPolicy = false) ∧
      ∀ p ∈ policy, ∃ current, PolicyWrite u fails s siteID req current p := by
  obtain ⟨s₁, s₂, hpolicy, hattributes, henabled, hexists⟩ := updateSite_stages h
  obtain ⟨policy, hrows₁, hwritten⟩ := applyPolicyPatch_rows hpolicy
  refine ⟨policy, ?_, hexists, fun hnone => ?_, fun p hp => (hwritten p).mp hp⟩
  · have hsite (row : SiteRow) : (policy.elim row row.withPolicy).siteID = row.siteID := by
      cases policy <;> rfl
    rw [(applyEnabledPatch_ok henabled).2, State.alter, (applyAttributesPatch_ok hattributes).2,
      State.alter]
    simp only [hrows₁, alterUpdate_comp s.rows siteID hsite]
    exact alterUpdate_comp s.rows siteID hsite
  · obtain ⟨hno, -⟩ | ⟨current, p, hw, -⟩ := applyPolicyPatch_ok hpolicy
    · exact hno
    · have hp := (hwritten p).mpr ⟨current, hw⟩
      rw [hnone] at hp
      cases hp

private theorem rowOf_alterUpdate (rows : List SiteRow) (siteID : ℕ) {f : SiteRow → SiteRow}
    (hf : ∀ row, (f row).siteID = row.siteID) :
    rowOf (alterUpdate rows siteID f) siteID = (rowOf rows siteID).map f := by
  induction rows with
  | nil => rfl
  | cons row rows ih =>
    simp only [rowOf, alterUpdate, List.map_cons, List.find?_cons] at ih ⊢
    by_cases hid : row.siteID = siteID
    · simp [hid, hf]
    · simp only [hid, if_false, decide_false]
      exact ih

private theorem filter_alterUpdate (rows : List SiteRow) (siteID : ℕ) {f : SiteRow → SiteRow}
    (hf : ∀ row, (f row).siteID = row.siteID) :
    (alterUpdate rows siteID f).filter (fun row => row.siteID ≠ siteID) =
      rows.filter (fun row => row.siteID ≠ siteID) := by
  induction rows with
  | nil => rfl
  | cons row rows ih =>
    by_cases hid : row.siteID = siteID
    · simpa [alterUpdate, hid, hf] using ih
    · simpa [alterUpdate, hid] using ih

/-- An empty text is no change. -/
theorem kept_iff (o : Option String) (v : String) :
    (if o.getD v = "" then v else o.getD v) = o.getD v ↔ (o = some "" → v = "") := by
  cases o with
  | none => simp
  | some w =>
    by_cases hw : w = ""
    · simp [hw]
    · simp [hw]

private theorem events_withPolicy (req : UpdateSiteRequest) (row : SiteRow) :
    (mergedPolicy row req).eventAllowlist.getD row.eventAllowlist =
      req.eventAllowlist.getD row.eventAllowlist := by
  cases hevents : req.eventAllowlist with
  | some events => simp [mergedPolicy, hevents]
  | none =>
    by_cases hrow : row.eventAllowlist = []
    · simp [mergedPolicy, hevents, SiteRow.policy, parseJSONStringSlice, hrow]
    · simp [mergedPolicy, hevents, SiteRow.policy, parseJSONStringSlice, hrow]

/-- Origins are written in normal form, the stored ones again where the request has none. -/
theorem origins_withPolicy {req : UpdateSiteRequest} {row : SiteRow} {p : SitePolicy}
    (h : (mergedPolicy row req).normalized u.toLookupProfile = some p) :
    p.allowedOrigins.getD row.allowedOrigins =
      canonicalOrigins u (req.allowedOrigins.getD row.allowedOrigins) := by
  cases hmerged : (mergedPolicy row req).allowedOrigins with
  | some origins =>
    simp only [SitePolicy.normalized, hmerged, Option.map_eq_some_iff] at h
    obtain ⟨canon, hcanon, rfl⟩ := h
    have hsame : req.allowedOrigins.getD row.allowedOrigins = origins := by
      rw [mergedPolicy, SiteRow.policy] at hmerged
      cases ho : req.allowedOrigins with
      | some _ => simpa [ho] using hmerged
      | none =>
        by_cases hrow : row.allowedOrigins = []
        · simp [ho, hrow, parseJSONStringSlice] at hmerged
        · simpa [ho, hrow, parseJSONStringSlice] using hmerged
    rw [hsame, canonicalOrigins_of_mapM hcanon]
    rfl
  | none =>
    simp only [SitePolicy.normalized, hmerged, Option.some.injEq] at h
    rw [← h, hmerged]
    rw [mergedPolicy, SiteRow.policy, Option.or_eq_none_iff] at hmerged
    obtain ⟨ho, hrow⟩ := hmerged
    have hempty : row.allowedOrigins = [] := by
      by_contra hne
      simp [parseJSONStringSlice, hne] at hrow
    rw [ho, hempty]
    rfl

private theorem patched_merged_iff {req : UpdateSiteRequest} {row : SiteRow} {p : SitePolicy}
    (hpolicy : req.hasPolicy = true)
    (h : (mergedPolicy row req).normalized u.toLookupProfile = some p) :
    patched (some p) req.currency req.tz req.enabled row = patchedRow u req row ↔
      Replaceable u req row := by
  have hwritten := origins_withPolicy h
  obtain ⟨origins, rfl⟩ := StoredPolicy.normalized_eq h
  have hevents := events_withPolicy req row
  have horigins : canonicalOrigins u (req.allowedOrigins.getD row.allowedOrigins) =
        (req.allowedOrigins.map (canonicalOrigins u)).getD row.allowedOrigins ↔
      (req.hasPolicy = true → req.allowedOrigins = none →
        canonicalOrigins u row.allowedOrigins = row.allowedOrigins) := by
    cases ho : req.allowedOrigins <;> simp [hpolicy]
  have hfields : Replaceable u req row ↔ (req.jurisdiction = some "" → row.jurisdiction = "") ∧
      (req.consentMode = some "" → row.consentMode = "") ∧ (req.hasPolicy = true →
        req.allowedOrigins = none → canonicalOrigins u row.allowedOrigins = row.allowedOrigins) :=
    ⟨fun hr => ⟨hr.jurisdiction, hr.consentMode, hr.allowedOrigins⟩,
      fun h => ⟨h.1, h.2.1, h.2.2⟩⟩
  rw [hfields, ← horigins, ← kept_iff, ← kept_iff]
  simp only [patched, Option.elim_some, SiteRow.withPolicy, SiteRow.withAttributes,
    SiteRow.withEnabled, patchedRow, SiteRow.mk.injEq, hevents, hwritten, true_and]
  constructor
  · rintro ⟨-, -, -, hkept⟩
    exact hkept
  · exact fun hkept => ⟨rfl, rfl, rfl, hkept⟩

/-- The policy that a patch writes is merged with the first row of the site. -/
theorem policyWrite_of_ok {req : UpdateSiteRequest} {p : SitePolicy} {row current : SiteRow}
    (hrow : rowOf s.rows siteID = some row) (hw : PolicyWrite u fails s siteID req current p) :
    current = row := by
  have hfound := hw.found
  rw [lookupSiteByID] at hfound
  split at hfound
  next => cases hfound
  next => exact Option.some.inj (hfound.symm.trans hrow)

/-- A patch that is answered with success replaces what it carries exactly when it empties no
text that is stored. -/
theorem patch_faithful_iff {req : UpdateSiteRequest}
    (h : updateSite u fails s siteID req = (t, 200)) :
    ∃ row, rowOf s.rows siteID = some row ∧
      (Replaces u s t siteID req row ↔ Replaceable u req row) := by
  obtain ⟨policy, hrows, ⟨row', hrow', hid'⟩, hnone, hsome⟩ := updateSite_ok h
  have hkeep := patched_siteID policy req.currency req.tz req.enabled
  have hmapped : rowOf t.rows siteID =
      (rowOf s.rows siteID).map (patched policy req.currency req.tz req.enabled) := by
    rw [hrows, rowOf_alterUpdate s.rows siteID hkeep]
  obtain ⟨row, hrow⟩ : ∃ row, rowOf s.rows siteID = some row := by
    refine Option.ne_none_iff_exists'.mp fun hno => ?_
    rw [hno, Option.map_none, rowOf, List.find?_eq_none] at hmapped
    exact hmapped row' hrow' (by simpa using hid')
  refine ⟨row, hrow, ?_⟩
  rw [Replaces, hmapped, hrow, hrows, and_iff_left (filter_alterUpdate s.rows siteID hkeep),
    Option.map_some, Option.some_inj]
  cases policy with
  | none =>
    have hsilent := hnone rfl
    simp only [UpdateSiteRequest.hasPolicy, Bool.or_eq_false_iff, Option.isSome_eq_false_iff,
      Option.isNone_iff_eq_none] at hsilent
    obtain ⟨⟨⟨⟨⟨⟨hdnt, hgpc⟩, hbots⟩, hjurisdiction⟩, hmode⟩, hevents⟩, horigins⟩ := hsilent
    refine iff_of_true ?_ ⟨?_, ?_, ?_⟩
    · simp [patched, patchedRow, SiteRow.withAttributes, SiteRow.withEnabled, hdnt, hgpc, hbots,
        hjurisdiction, hmode, hevents, horigins]
    · simp [hjurisdiction]
    · simp [hmode]
    · simp [hnone rfl]
  | some p =>
    obtain ⟨current, hw⟩ := hsome p rfl
    obtain rfl := policyWrite_of_ok hrow hw
    exact patched_merged_iff hw.hasPolicy hw.normalized

/-- The two laws of site writes. -/
theorem writes_faithful_iff (u : SiteTables) (fails : StoreCall → Bool) (s : State) :
    (∀ req t, create u fails s req = (t, 201) →
      ∃ row, createSite u s.rows fails (u.lowerString (IngestHandler.trimSpace req.hostname))
          req.slug req.tz req.currency = .ok row ∧
        (t.rows = s.rows ++ [requestedRow u req row] ↔ Silent req)) ∧
    ∀ siteID req t, updateSite u fails s siteID req = (t, 200) →
      ∃ row, rowOf s.rows siteID = some row ∧
        (Replaces u s t siteID req row ↔ Replaceable u req row) := by
  refine ⟨fun req t h => ?_, fun siteID req t h => patch_faithful_iff h⟩
  obtain ⟨row, hinsert, hiff⟩ := create_faithful_iff h
  exact ⟨row, hinsert.created, hiff⟩

/-- A site in Germany. -/
def inGermany : CreateSiteRequest := { hostname := "example.com", jurisdiction := "DE" }

/-- The consent mode is emptied. -/
def emptied : UpdateSiteRequest := { consentMode := some "" }

def created : State := (create sampleTables answered ⟨[], none⟩ inGermany).1

theorem unfaithful_writes :
    (∃ t row, create sampleTables answered ⟨[], none⟩ inGermany = (t, 201) ∧
      createSite sampleTables [] answered "example.com" "" "" "" = .ok row ∧
      t.rows ≠ [requestedRow sampleTables inGermany row]) ∧
    ∃ t row, updateSite sampleTables answered created 1 emptied = (t, 200) ∧
      rowOf created.rows 1 = some row ∧ ¬ Replaces sampleTables created t 1 emptied row := by
  constructor
  · have hstatus : (create sampleTables answered ⟨[], none⟩ inGermany).2 = 201 := by
      decide +kernel
    obtain ⟨row, hinsert, hiff⟩ := create_faithful_iff (Prod.ext rfl hstatus)
    have hlower : sampleTables.lowerString (IngestHandler.trimSpace inGermany.hostname) =
        "example.com" := by decide +kernel
    refine ⟨_, row, Prod.ext rfl hstatus, hlower ▸ hinsert.created, fun heq => ?_⟩
    exact absurd (hiff.mp heq).jurisdiction (by decide)
  · have hstatus : (updateSite sampleTables answered created 1 emptied).2 = 200 := by
      decide +kernel
    obtain ⟨row, hrow, hiff⟩ := patch_faithful_iff (Prod.ext rfl hstatus)
    refine ⟨_, row, Prod.ext rfl hstatus, hrow, fun hreplaces => ?_⟩
    have hempty := (hiff.mp hreplaces).consentMode rfl
    have hmode : (rowOf created.rows 1).map SiteRow.consentMode = some "consent-free" := by
      decide +kernel
    rw [hrow, Option.map_some, hempty] at hmode
    exact absurd hmode (by decide)

end Statnive.SiteWrites
