import Statnive.RegistryInvariants

/-!
# One site for an origin

The collision check compares canonical forms that it computes again from what is stored. An
origin of which the look-up leaves no host, or one that it refuses, is stored in a form that
cannot be computed again.
-/

namespace Statnive.OriginUniqueness

open SiteOrigins SiteRegistry OriginIndex SitesHandlers RegistryInvariants LabelledRuns

/-- No origin is in the lists of two sites. -/
def Unique (rows : List SiteRow) : Prop :=
  ∀ a ∈ rows, ∀ b ∈ rows, a.siteID ≠ b.siteID →
    ∀ origin ∈ a.allowedOrigins, origin ∉ b.allowedOrigins

instance (rows : List SiteRow) : Decidable (Unique rows) :=
  inferInstanceAs (Decidable (∀ a ∈ rows, ∀ b ∈ rows, a.siteID ≠ b.siteID →
    ∀ origin ∈ a.allowedOrigins, origin ∉ b.allowedOrigins))

/-- Another site than `siteID` has the origin. -/
def HeldElsewhere (rows : List SiteRow) (siteID : ℕ) (origin : String) : Prop :=
  ∃ other ∈ rows, other.siteID ≠ siteID ∧ origin ∈ other.allowedOrigins

/-- But for the comparison of its origins, the request would be carried out, and one of its
origins is another site's. -/
def Shares (u : SiteTables) (s : State) (r : Served) : Prop :=
  r.fails .originCheck = false ∧
  match r.request with
  | .create (some req) => ∃ row policy p, RowChecks u r.fails s req row ∧
      CreatedPolicy u r.fails req row policy p ∧
      ∃ origin ∈ p.origins, HeldElsewhere s.rows row.siteID origin
  | .update siteIDParam (some req) => ∃ siteID current p,
      AuthGuards.parseSiteID siteIDParam = some siteID ∧
      PolicyChecks u r.fails s siteID req current p ∧ req.allowedOrigins.isSome = true ∧
      ∃ origin ∈ p.origins, HeldElsewhere s.rows siteID origin
  | _ => False

/-- The request leaves every origin to one site, and if it would not, it is refused with a
conflict and changes nothing. -/
def Guarded (u : SiteTables) (s : State) (r : Served) : Prop :=
  Unique (handle u s r).1.rows ∧ (Shares u s r → handle u s r = (s, 409))

/-- No origin of the request that does not normalise to itself again is another site's. -/
def KeepsOrigins (u : SiteTables) (s : State) (r : Served) : Prop :=
  match r.request with
  | .create (some req) => ∀ row policy p, RowInsert u r.fails s req row →
      CreatedPolicy u r.fails req row policy p → ∀ origin ∈ p.origins,
        unstable u.toLookupProfile origin = true → ¬ HeldElsewhere s.rows row.siteID origin
  | .update siteIDParam (some req) => ∀ siteID,
      AuthGuards.parseSiteID siteIDParam = some siteID → ∀ current p,
        PolicyWrite u r.fails s siteID req current p → req.allowedOrigins.isSome = true →
          ∀ origin ∈ p.origins, unstable u.toLookupProfile origin = true →
            ¬ HeldElsewhere s.rows siteID origin
  | _ => True

variable {u : SiteTables} {fails : StoreCall → Bool} {s : State} {siteID : ℕ}

/-- The comparison sees every stored origin that normalises to itself. -/
theorem checkOriginCollision_spec (hs : WellFormed u.toLookupProfile s.rows)
    (hans : fails .originCheck = false) {proposed canon : List String}
    (hcanon : proposed.mapM (normalizeOrigin u.toLookupProfile) = some canon) (ignoreID : ℕ) :
    (checkOriginCollision u fails s.rows ignoreID proposed = some 0 ∧
      ∀ origin ∈ canon, HeldElsewhere s.rows ignoreID origin →
        unstable u.toLookupProfile origin = true) ∨
    ∃ collidingID ≠ 0,
      checkOriginCollision u fails s.rows ignoreID proposed = some collidingID := by
  have hstored : ∀ row ∈ s.rows, ∀ raw ∈ row.allowedOrigins, ∀ origin,
      normalizeOrigin u.toLookupProfile raw = some origin ↔
        raw = origin ∧ unstable u.toLookupProfile origin = false := by
    intro row hrow raw hraw origin
    rw [normalizeOrigin_canonical (hs.canonical row hrow raw hraw)]
    by_cases hh : unstable u.toLookupProfile raw = true
    · grind
    · grind
  simp only [checkOriginCollision, hcanon, hans]
  cases hfind : (listAdmin s.rows).find? (fun s => s.siteID ≠ ignoreID && s.allowedOrigins.any
      fun raw => (normalizeOrigin u.toLookupProfile raw).any canon.contains) with
  | none =>
    refine .inl ⟨by simp, fun origin horigin ⟨other, hother, hne, hheld⟩ => ?_⟩
    by_contra hh
    have hnone := List.find?_eq_none.mp hfind other (mem_listAdmin.mpr hother)
    have hnorm := (hstored other hother origin hheld origin).mpr ⟨rfl, by simpa using hh⟩
    refine hnone ?_
    simp only [Bool.and_eq_true, decide_eq_true_eq, List.any_eq_true]
    exact ⟨hne, origin, hheld, by simpa [hnorm] using horigin⟩
  | some other =>
    refine .inr ⟨other.siteID, fun hzero => ?_, by simp⟩
    have hmem := mem_listAdmin.mp (List.mem_of_find?_eq_some hfind)
    have hprop := List.find?_some hfind
    simp [hs.zero other hmem hzero] at hprop

theorem normalized_allowedOrigins {lookup : LookupProfile} {policy p : SitePolicy}
    (h : policy.normalized lookup = some p) {raws : List String}
    (hraws : policy.allowedOrigins = some raws) :
    ∃ canon, raws.mapM (normalizeOrigin lookup) = some canon ∧ p.allowedOrigins = some canon := by
  simp only [SitePolicy.normalized, hraws, Option.map_eq_some_iff] at h
  obtain ⟨canon, hcanon, rfl⟩ := h
  exact ⟨canon, hcanon, rfl⟩

/-- Rewriting the rows of a site keeps origins apart exactly when no other site has one of
the new ones. -/
theorem unique_alterUpdate {rows : List SiteRow} (hs : Unique rows) {f : SiteRow → SiteRow}
    (hid : ∀ row, (f row).siteID = row.siteID) : Unique (alterUpdate rows siteID f) ↔
      ∀ row ∈ rows, row.siteID = siteID →
        ∀ origin ∈ (f row).allowedOrigins, ¬ HeldElsewhere rows siteID origin := by
  have hsite {row : SiteRow} (hrow : row ∈ rows) (hrid : row.siteID = siteID) :
      f row ∈ alterUpdate rows siteID f := List.mem_map.mpr ⟨row, hrow, by simp [hrid]⟩
  have hkeep {row : SiteRow} (hrow : row ∈ rows) (hrid : row.siteID ≠ siteID) :
      row ∈ alterUpdate rows siteID f := List.mem_map.mpr ⟨row, hrow, by simp [hrid]⟩
  constructor
  · rintro h row hrow hrid origin ho ⟨other, hother, hne, hheld⟩
    exact h _ (hsite hrow hrid) other (hkeep hother hne) (by rw [hid, hrid]; exact Ne.symm hne)
      origin ho hheld
  · intro h a ha b hb hne origin hao hbo
    obtain ⟨a', ha', ⟨hna, rfl⟩ | ⟨hsa, rfl⟩⟩ := mem_alterUpdate ha <;>
      obtain ⟨b', hb', ⟨hnb, rfl⟩ | ⟨hsb, rfl⟩⟩ := mem_alterUpdate hb
    · exact hs a ha' b hb' hne origin hao hbo
    · exact h b' hb' hsb origin hbo ⟨a, ha', hna, hao⟩
    · exact h a' ha' hsa origin hao ⟨b, hb', hnb, hbo⟩
    · exact hne (by rw [hid, hid, hsa, hsb])

/-- Rewriting what is not the origins does not matter. -/
theorem unique_alterUpdate_same {rows : List SiteRow} {f : SiteRow → SiteRow}
    (hid : ∀ row, (f row).siteID = row.siteID)
    (horigins : ∀ row, (f row).allowedOrigins = row.allowedOrigins) :
    Unique (alterUpdate rows siteID f) ↔ Unique rows := by
  have hrow (row : SiteRow) : (if row.siteID = siteID then f row else row).siteID = row.siteID ∧
      (if row.siteID = siteID then f row else row).allowedOrigins = row.allowedOrigins := by
    split <;> simp [hid, horigins]
  simp only [Unique, alterUpdate, List.forall_mem_map, fun row => (hrow row).1,
    fun row => (hrow row).2]

theorem answered_of_checkOriginCollision {rows : List SiteRow} {ignoreID : ℕ}
    {proposed : List String} {collidingID : ℕ}
    (h : checkOriginCollision u fails rows ignoreID proposed = some collidingID) :
    fails .originCheck = false := by
  cases hans : fails .originCheck with
  | false => rfl
  | true =>
    unfold checkOriginCollision at h
    split at h <;> simp [hans] at h

theorem refuseCollision_ok {found : Option ℕ} (h : refuseCollision found = .ok ()) :
    found = some 0 := by
  cases found with
  | none => simp [refuseCollision] at h
  | some collidingID => simpa [refuseCollision] using h

section Update

variable {req : UpdateSiteRequest} {raws : List String} {current : SiteRow} {p : SitePolicy}

theorem patched_origins (h : PolicyChecks u fails s siteID req current p)
    (hreq : req.allowedOrigins = some raws) : ∃ canon,
      raws.mapM (normalizeOrigin u.toLookupProfile) = some canon ∧ p.allowedOrigins = some canon :=
  normalized_allowedOrigins h.normalized (by simp [mergedPolicy, hreq])

/-- What a patch may write of origins that are another site's does not normalise again. -/
theorem unstable_of_patch (hwf : WellFormed u.toLookupProfile s.rows)
    (h : PolicyWrite u fails s siteID req current p) (hreq : req.allowedOrigins = some raws) :
    ∀ origin ∈ p.origins, HeldElsewhere s.rows siteID origin →
      unstable u.toLookupProfile origin = true := by
  obtain ⟨canon, hcanon, hp⟩ := patched_origins h.toPolicyChecks hreq
  have hzero : checkOriginCollision u fails s.rows siteID raws = some 0 :=
    refuseCollision_ok (by simpa [checkPatchedOrigins, hreq] using h.noCollision)
  rcases checkOriginCollision_spec hwf (answered_of_checkOriginCollision hzero) hcanon siteID with
    ⟨-, hspec⟩ | ⟨collidingID, hne, hsome⟩
  · simpa [SitePolicy.origins, hp] using hspec
  · exact absurd (Option.some.inj (hsome.symm.trans hzero)) hne

private theorem unique_update (hwf : WellFormed u.toLookupProfile s.rows) (hs : Unique s.rows) :
    Unique (updateSite u fails s siteID req).1.rows ↔
      ∀ current p, PolicyWrite u fails s siteID req current p →
        req.allowedOrigins.isSome = true → ∀ origin ∈ p.origins,
          unstable u.toLookupProfile origin = true → ¬ HeldElsewhere s.rows siteID origin := by
  obtain ⟨s₁, currency, tz, enabled, hs₁, -, hstate⟩ := updateSite_cases u fails s siteID req
  have hrest : Unique (updateSite u fails s siteID req).1.rows ↔ Unique s₁.rows := by
    rw [hstate]
    exact unique_alterUpdate_same (fun _ => rfl) fun _ => rfl
  rw [hrest]
  rcases hs₁ with ⟨rfl, hno⟩ | ⟨current, p, hw, rfl⟩
  · exact iff_of_true hs fun current p hw => absurd hw (hno current p)
  rw [withPolicy_rows, unique_alterUpdate (f := (·.withPolicy p)) hs fun _ => rfl]
  obtain ⟨-, hmem, hcur⟩ := lookupSiteByID_some hw.found
  constructor
  · intro h current' p' hw' hsome origin ho _ hheld
    obtain rfl : current = current' := Option.some.inj (hw.found.symm.trans hw'.found)
    obtain rfl : p = p' := Option.some.inj (hw.normalized.symm.trans hw'.normalized)
    obtain ⟨raws, hreq⟩ := Option.isSome_iff_exists.mp hsome
    obtain ⟨canon, -, hp⟩ := patched_origins hw.toPolicyChecks hreq
    refine h current hmem hcur origin ?_ hheld
    simpa [withPolicy_origins, SitePolicy.origins, hp] using ho
  · intro h row hrow hrid origin ho hheld
    cases hreq : req.allowedOrigins with
    | none =>
      rw [origins_kept hw hwf hreq row hrow hrid] at ho
      obtain ⟨other, hother, hne, hheld⟩ := hheld
      exact hs row hrow other hother (by rw [hrid]; exact Ne.symm hne) origin ho hheld
    | some raws =>
      obtain ⟨canon, -, hp⟩ := patched_origins hw.toPolicyChecks hreq
      have hmemp : origin ∈ p.origins := by
        simpa [withPolicy_origins, SitePolicy.origins, hp] using ho
      exact h current p hw (by simp [hreq]) origin hmemp
        (unstable_of_patch hwf hw hreq origin hmemp hheld) hheld

/-- A patch that would share an origin is refused, unless the origin does not normalise again. -/
theorem update_conflict (hwf : WellFormed u.toLookupProfile s.rows)
    (hans : fails .originCheck = false) (h : PolicyChecks u fails s siteID req current p)
    (hsome : req.allowedOrigins.isSome = true)
    (hshare : ∃ origin ∈ p.origins, HeldElsewhere s.rows siteID origin)
    (hkeeps : PolicyWrite u fails s siteID req current p → ∀ origin ∈ p.origins,
      unstable u.toLookupProfile origin = true → ¬ HeldElsewhere s.rows siteID origin) :
    updateSite u fails s siteID req = (s, 409) := by
  obtain ⟨raws, hreq⟩ := Option.isSome_iff_exists.mp hsome
  obtain ⟨canon, hcanon, hp⟩ := patched_origins h hreq
  rcases checkOriginCollision_spec hwf hans hcanon siteID with ⟨hzero, hspec⟩ | ⟨id, hne, hid⟩
  · have hw : PolicyWrite u fails s siteID req current p :=
      ⟨h, by simp [checkPatchedOrigins, hreq, hzero, refuseCollision]⟩
    obtain ⟨origin, ho, hheld⟩ := hshare
    have hh := hspec origin (by simpa [SitePolicy.origins, hp] using ho) hheld
    exact absurd hheld (hkeeps hw origin ho hh)
  · have hrefused : checkPatchedOrigins u fails s siteID req = .error 409 := by
      simp [checkPatchedOrigins, hreq, hid, refuseCollision, hne]
    simp [updateSite, applyPolicyPatch, h.hasPolicy, h.found, h.valid, hrefused]

end Update

section Create

variable {req : CreateSiteRequest} {row : SiteRow} {policy p : SitePolicy}

theorem created_origins (h : CreatedPolicy u fails req row policy p) :
    policy.allowedOrigins = req.allowedOrigins := by
  have hbuilt := h.built
  unfold buildPolicyFromCreateRequest at hbuilt
  split at hbuilt
  · simp at hbuilt
  · rw [← Option.some.inj hbuilt]

theorem heldElsewhere_zero (hwf : WellFormed u.toLookupProfile s.rows) {origin : String}
    (h : HeldElsewhere s.rows siteID origin) : HeldElsewhere s.rows 0 origin := by
  obtain ⟨other, hother, -, hheld⟩ := h
  refine ⟨other, hother, fun hzero => ?_, hheld⟩
  simp [hwf.zero other hother hzero] at hheld

theorem not_heldElsewhere_insert (hid : row.siteID = siteID) {origin : String} :
    HeldElsewhere (s.insert row).rows siteID origin ↔ HeldElsewhere s.rows siteID origin := by
  simp only [HeldElsewhere, State.insert, List.mem_append, List.mem_singleton]
  grind

/-- What a create compares of its policy: nothing where it has no origins. -/
theorem created_canon (h : CreatedPolicy u fails req row policy p) {origin : String}
    (ho : origin ∈ p.origins) : ∃ raws canon, req.allowedOrigins = some raws ∧ raws ≠ [] ∧
      raws.mapM (normalizeOrigin u.toLookupProfile) = some canon ∧ p.origins = canon := by
  cases hraws : req.allowedOrigins with
  | none =>
    have hpol := (created_origins h).trans hraws
    have hp : p = policy := by simpa [SitePolicy.normalized, hpol] using h.normalized.symm
    simp [SitePolicy.origins, hp, hpol] at ho
  | some raws =>
    obtain ⟨canon, hcanon, hp⟩ :=
      normalized_allowedOrigins h.normalized ((created_origins h).trans hraws)
    have hcanon' : p.origins = canon := by simp [SitePolicy.origins, hp]
    refine ⟨raws, canon, rfl, fun hnil => ?_, hcanon, hcanon'⟩
    obtain rfl : canon = [] := by simpa [hnil] using hcanon.symm
    simp [hcanon'] at ho

private theorem unstable_of_create (hwf : WellFormed u.toLookupProfile s.rows)
    (hins : RowInsert u fails s req row) (h : CreatedPolicy u fails req row policy p) :
    ∀ origin ∈ p.origins, HeldElsewhere s.rows row.siteID origin →
      unstable u.toLookupProfile origin = true := by
  intro origin ho hheld
  obtain ⟨raws, canon, hreq, hne, hcanon, hp⟩ := created_canon h ho
  have hzero : checkOriginCollision u fails s.rows 0 raws = some 0 :=
    refuseCollision_ok (by simpa [checkCreatedOrigins, hreq, hne] using hins.noCollision)
  rcases checkOriginCollision_spec hwf (answered_of_checkOriginCollision hzero) hcanon 0 with
    ⟨-, hspec⟩ | ⟨collidingID, hid, hsome⟩
  · exact hspec origin (hp ▸ ho) (heldElsewhere_zero hwf hheld)
  · exact absurd (Option.some.inj (hsome.symm.trans hzero)) hid

private theorem unique_insert (hs : Unique s.rows) (hrow : row.allowedOrigins = []) :
    Unique (s.insert row).rows := by
  intro a ha b hb hne origin hao hbo
  simp only [State.insert, List.mem_append, List.mem_singleton] at ha hb
  rcases ha with ha | rfl <;> rcases hb with hb | rfl
  · exact hs a ha b hb hne origin hao hbo
  · simp [hrow] at hbo
  · simp [hrow] at hao
  · exact hne rfl

private theorem unique_create (hwf : WellFormed u.toLookupProfile s.rows) (hs : Unique s.rows) :
    Unique (create u fails s req).1.rows ↔ ∀ row policy p, RowInsert u fails s req row →
      CreatedPolicy u fails req row policy p → ∀ origin ∈ p.origins,
        unstable u.toLookupProfile origin = true → ¬ HeldElsewhere s.rows row.siteID origin := by
  rcases create_cases u fails s req with ⟨hsame, hno⟩ | ⟨row, hins, hcase⟩
  · rw [hsame]
    exact iff_of_true hs fun row _ _ hrow _ => absurd hrow (hno row)
  have hrow : ∀ r, RowInsert u fails s req r → r = row := fun r hr =>
    Except.ok.inj (hr.created.symm.trans hins.created)
  obtain ⟨site, -, hsite⟩ := createSite_ok hins.created
  have hempty : row.allowedOrigins = [] := by rw [hsite]; rfl
  have hinsert := unique_insert hs hempty
  rcases hcase with ⟨hstate, hno⟩ | ⟨policy, p, hpol, hstate⟩
  · rw [hstate]
    refine iff_of_true hinsert fun r policy p hr hp => ?_
    obtain rfl := hrow r hr
    exact absurd hp (hno policy p)
  rw [hstate, withPolicy_rows, unique_alterUpdate (f := (·.withPolicy p)) hinsert fun _ => rfl]
  have hnew : (row.withPolicy p).allowedOrigins = p.origins := by
    rw [withPolicy_origins, hempty]
    rfl
  constructor
  · intro h r policy' p' hr hp' origin ho _ hheld
    obtain rfl := hrow r hr
    obtain rfl : policy = policy' := Option.some.inj (hpol.built.symm.trans hp'.built)
    obtain rfl : p = p' := Option.some.inj (hpol.normalized.symm.trans hp'.normalized)
    exact h r (by simp [State.insert]) rfl origin (hnew ▸ ho)
      ((not_heldElsewhere_insert rfl).mpr hheld)
  · intro h r hr hrid origin ho hheld
    simp only [State.insert, List.mem_append, List.mem_singleton] at hr
    rcases hr with hr | rfl
    · exact absurd hrid (createSite_fresh hins.created hpol.siteID_ne r hr)
    · have hheld' := (not_heldElsewhere_insert rfl).mp hheld
      exact h r policy p hins hpol origin (hnew ▸ ho)
        (unstable_of_create hwf hins hpol origin (hnew ▸ ho) hheld') hheld'

private theorem create_conflict (hwf : WellFormed u.toLookupProfile s.rows)
    (hans : fails .originCheck = false) (hrow : RowChecks u fails s req row)
    (h : CreatedPolicy u fails req row policy p)
    (hshare : ∃ origin ∈ p.origins, HeldElsewhere s.rows row.siteID origin)
    (hkeeps : RowInsert u fails s req row → ∀ origin ∈ p.origins,
      unstable u.toLookupProfile origin = true → ¬ HeldElsewhere s.rows row.siteID origin) :
    create u fails s req = (s, 409) := by
  obtain ⟨origin, ho, hheld⟩ := hshare
  obtain ⟨raws, canon, hreq, hne, hcanon, hp⟩ := created_canon h ho
  rcases checkOriginCollision_spec hwf hans hcanon 0 with ⟨hzero, hspec⟩ | ⟨id, hid, hsome⟩
  · have hins : RowInsert u fails s req row :=
      ⟨hrow, by simp [checkCreatedOrigins, hreq, hzero, refuseCollision]⟩
    have hh := hspec origin (hp ▸ ho) (heldElsewhere_zero hwf hheld)
    exact absurd hheld (hkeeps hins origin ho hh)
  · have hrefused : checkCreatedOrigins u fails s req = .error 409 := by
      simp [checkCreatedOrigins, hreq, hne, hsome, refuseCollision, hid]
    simp [create, hrow.validated, hrefused]

end Create

private theorem guarded_iff {r : Served} (hwf : WellFormed u.toLookupProfile s.rows)
    (hs : Unique s.rows) : Guarded u s r ↔ KeepsOrigins u s r := by
  obtain ⟨request, fails⟩ := r
  cases request with
  | create body => cases body with
    | none => simp [Guarded, KeepsOrigins, Shares, handle, hs]
    | some req =>
      simp only [Guarded, KeepsOrigins, handle]
      rw [unique_create hwf hs]
      refine and_iff_left_of_imp fun h => ?_
      rintro ⟨hans, row, policy, p, hrow, hpol, hshare⟩
      exact create_conflict hwf hans hrow hpol hshare fun hins => h row policy p hins hpol
  | update siteIDParam body =>
    cases hparse : AuthGuards.parseSiteID siteIDParam with
    | none => cases body <;> simp [Guarded, KeepsOrigins, Shares, handle, hparse, hs]
    | some siteID => cases body with
      | none => simp [Guarded, KeepsOrigins, Shares, handle, hparse, hs]
      | some req =>
        simp only [Guarded, KeepsOrigins, handle, hparse, Option.some.injEq, forall_eq']
        rw [unique_update hwf hs]
        refine and_iff_left_of_imp fun h => ?_
        rintro ⟨hans, id, current, p, hid, hchecks, hsome, hshare⟩
        obtain rfl := Option.some.inj (hparse.symm.trans hid)
        exact update_conflict hwf hans hchecks hsome hshare fun hw => h current p hw hsome
  | reload =>
    simp only [Guarded, KeepsOrigins, Shares, handle, rebuildOriginIndex_rows, and_false,
      false_implies, and_true, iff_true]
    exact hs

/-- From an empty registry every origin stays with one site, and what would share one is
refused with a conflict, exactly when no request writes an origin that does not normalise to
itself and that another site has. -/
theorem origins_unique_iff (u : SiteTables) (index : Option OriginMap) (es : List Served) :
    Along (step u) (Guarded u) ⟨[], index⟩ es ↔
      Along (step u) (KeepsOrigins u) ⟨[], index⟩ es := by
  refine along_congr (I := fun s => WellFormed u.toLookupProfile s.rows ∧ Unique s.rows)
    (fun s r t hs hg h => ⟨wellFormed_step hs.1 h, ?_⟩) (fun s r hs => guarded_iff hs.1 hs.2)
    ⟨wellFormed_nil _, by simp [Unique]⟩
  exact Option.some.inj h ▸ hg.1

/-- A name whose second character is mapped to a letter that is written from the right. -/
def mixedHost : PrivacyPolicy.Bytes := VisitorIdentity.utf8 "aℵ.example"

/-- What `mixedHost` is encoded to. Decoded, its first label begins with a letter that is written
from the left, so that the look-up refuses it. -/
def mixedASCII : PrivacyPolicy.Bytes := VisitorIdentity.utf8 "xn--a-0hc.example"

def mixedTables : SiteTables where
  toUnicode := sampleUnicode
  toASCII host := if host = mixedHost then some mixedASCII else sampleLookup.toASCII host
  ldh := by
    intro host ascii h
    split_ifs at h
    · obtain rfl := Option.some.inj h
      decide +kernel
    · exact sampleLookup.ldh h
  again := by
    intro host ascii h hne
    split_ifs at h
    · obtain rfl := Option.some.inj h
      exact .inr (by decide +kernel)
    · have hldh : ascii ≠ mixedHost := by
        rintro rfl
        have hall := sampleLookup.ldh h
        revert hall
        decide +kernel
      rw [if_neg hldh]
      exact sampleLookup.again h hne

def mixedRequest (hostname : String) : Served :=
  ⟨.create (some { hostname := hostname, allowedOrigins := some ["https://aℵ.example"] }), answered⟩

/-- Two sites are created with one origin, which is refused when it is normalised again. -/
theorem unstable_origin_shared : ¬ Along (step mixedTables) (Guarded mixedTables) ⟨[], none⟩
    [mixedRequest "shop.example", mixedRequest "blog.example"] := by
  intro h
  have hunique := (h.2 _ rfl).1.1
  revert hunique
  decide +kernel

end Statnive.OriginUniqueness
