import Statnive.SitesHandlers

/-!
# The policies that are stored

The validator looks at the policy of a request merged with the stored row, and the update
that follows leaves a column as it is where a field of the merged policy is empty.
-/

namespace Statnive.StoredPolicy

open SiteOrigins SiteRegistry OriginIndex SitesHandlers LabelledRuns

/-- The validator accepts the triple that the row stores. -/
def RowValid (row : SiteRow) : Prop := validateJurisdictionAndConsentMode row.policy = .ok ()

instance (row : SiteRow) : Decidable (RowValid row) :=
  inferInstanceAs (Decidable (validateJurisdictionAndConsentMode row.policy = .ok ()))

def Valid (s : State) : Prop := ∀ row ∈ s.rows, RowValid row

instance (s : State) : Decidable (Valid s) :=
  inferInstanceAs (Decidable (∀ row ∈ s.rows, RowValid row))

/-- The policy with the stored values in the place of what it leaves empty. -/
def filled (p : SitePolicy) (row : SiteRow) : SitePolicy :=
  { p with
    jurisdiction := if p.jurisdiction = "" then row.jurisdiction else p.jurisdiction
    consentMode := if p.consentMode = "" then row.consentMode else p.consentMode
    eventAllowlist := p.eventAllowlist.or (parseJSONStringSlice row.eventAllowlist) }

/-- Something is left empty. -/
def Partial (p : SitePolicy) : Prop :=
  p.jurisdiction = "" ∨ p.consentMode = "" ∨ p.eventAllowlist = none

/-- Where the policy leaves something empty, the validator accepts it with the stored values
filled in. -/
def FillsValidly (p : SitePolicy) (row : SiteRow) : Prop :=
  Partial p → validateJurisdictionAndConsentMode (filled p row) = .ok ()

/-- The condition on the requests whose policy is written. -/
def KeepsPolicy (u : SiteTables) (s : State) (r : Served) : Prop :=
  match r.request with
  | .create (some req) => ∀ row policy p, RowInsert u r.fails s req row →
      CreatedPolicy u r.fails req row policy p → FillsValidly policy row
  | .update siteIDParam (some req) => ∀ siteID current p,
      AuthGuards.parseSiteID siteIDParam = some siteID →
      PolicyWrite u r.fails s siteID req current p →
      ∀ old ∈ s.rows, old.siteID = siteID → FillsValidly (mergedPolicy current req) old
  | _ => True

/-- The validator reads three fields of a policy. -/
theorem validate_congr {p q : SitePolicy} (hj : p.jurisdiction = q.jurisdiction)
    (hm : p.consentMode = q.consentMode) (he : p.events = q.events) :
    validateJurisdictionAndConsentMode p = validateJurisdictionAndConsentMode q := by
  simp only [validateJurisdictionAndConsentMode, hj, hm, he]

private theorem parseJSONStringSlice_getD (l : List String) : (parseJSONStringSlice l).getD [] =
    l := by
  unfold parseJSONStringSlice
  split
  · next h => simp [h]
  · rfl

/-- Normalising the origins leaves the rest of a policy. -/
theorem normalized_eq {lookup : LookupProfile} {p q : SitePolicy}
    (h : p.normalized lookup = some q) : ∃ origins, q = { p with allowedOrigins := origins } := by
  cases horig : p.allowedOrigins with
  | none =>
    simp only [SitePolicy.normalized, horig, Option.some.injEq] at h
    exact ⟨none, by rw [← h, ← horig]⟩
  | some origins =>
    simp only [SitePolicy.normalized, horig, Option.map_eq_some_iff] at h
    obtain ⟨canon, -, rfl⟩ := h
    exact ⟨some canon, rfl⟩

private theorem validate_jurisdiction {lookup : LookupProfile} {p : SitePolicy}
    (h : p.validate lookup = .ok ()) (hj : p.jurisdiction ≠ "") :
    validateJurisdictionAndConsentMode p = .ok () := by
  unfold SitePolicy.validate at h
  cases ho : validateAllowedOrigins lookup p.origins with
  | error e => simp [ho, bind, Except.bind] at h
  | ok _ => simpa [ho, bind, Except.bind, hj] using h

/-- A row is valid after the write of a validated policy exactly when what the policy leaves
empty is filled validly. -/
theorem rowValid_withPolicy {lookup : LookupProfile} {policy p : SitePolicy} (row : SiteRow)
    (hval : policy.validate lookup = .ok ()) (hnorm : policy.normalized lookup = some p) :
    RowValid (row.withPolicy p) ↔ FillsValidly policy row := by
  obtain ⟨origins, rfl⟩ := normalized_eq hnorm
  have hstored : validateJurisdictionAndConsentMode
      (row.withPolicy { policy with allowedOrigins := origins }).policy =
        validateJurisdictionAndConsentMode (filled policy row) := by
    apply validate_congr
    · rfl
    · rfl
    · cases hev : policy.eventAllowlist <;>
        simp [SitePolicy.events, SiteRow.policy, SiteRow.withPolicy, filled, hev,
          parseJSONStringSlice_getD]
  unfold RowValid FillsValidly
  rw [hstored]
  constructor
  · exact fun h _ => h
  · intro h
    by_cases hpart : Partial policy
    · exact h hpart
    · simp only [Partial, not_or] at hpart
      obtain ⟨hj, hm, he⟩ := hpart
      obtain ⟨events, hev⟩ := Option.ne_none_iff_exists'.mp he
      have hfull : filled policy row = policy := by
        cases policy
        simp_all [filled]
      rw [hfull]
      exact validate_jurisdiction hval hj

private theorem valid_alter {s : State} {siteID : ℕ} {f : SiteRow → SiteRow}
    (hf : ∀ row, RowValid (f row) ↔ RowValid row) : Valid (s.alter siteID f) ↔ Valid s := by
  simp only [Valid, State.alter, alterUpdate, List.forall_mem_map]
  refine forall₂_congr fun row _ => ?_
  by_cases hid : row.siteID = siteID
  · simp [hid, hf]
  · simp [hid]

/-- The rows of the site are valid after the write, and the others were before. -/
theorem valid_withPolicy {u : SiteTables} {fails : StoreCall → Bool} {s : State} {siteID : ℕ}
    {p : SitePolicy} {rebuilt : Bool}
    (hother : ∀ row ∈ s.rows, row.siteID ≠ siteID → RowValid row) :
    Valid (withPolicy u fails s siteID p rebuilt) ↔
      ∀ row ∈ s.rows, row.siteID = siteID → RowValid (row.withPolicy p) := by
  simp only [Valid, withPolicy_rows, alterUpdate, List.forall_mem_map]
  refine forall₂_congr fun row hrow => ?_
  by_cases hid : row.siteID = siteID
  · simp [hid]
  · simp [hid, hother row hrow hid]

private theorem rowValid_new (site : NewSite) (maxID : ℕ) : RowValid (site.row maxID) := by
  have h : RowValid (NewSite.row ⟨"", "", "", ""⟩ 0) := by decide
  exact h

theorem valid_insert {s : State} {row : SiteRow} (hs : Valid s) (hrow : RowValid row) :
    Valid (s.insert row) := by
  intro r hr
  simp only [State.insert, List.mem_append, List.mem_singleton] at hr
  rcases hr with hr | rfl
  · exact hs r hr
  · exact hrow

private theorem valid_create {u : SiteTables} {fails : StoreCall → Bool} {s : State}
    {req : CreateSiteRequest} (hs : Valid s) : Valid (create u fails s req).1 ↔
      ∀ row policy p, RowInsert u fails s req row → CreatedPolicy u fails req row policy p →
        FillsValidly policy row := by
  rcases create_cases u fails s req with ⟨hsame, hno⟩ | ⟨row, hins, hcase⟩
  · rw [hsame]
    exact iff_of_true hs fun row _ _ hrow _ => absurd hrow (hno row)
  · have hrow : ∀ r, RowInsert u fails s req r → r = row := fun r hr =>
      Except.ok.inj (hr.created.symm.trans hins.created)
    obtain ⟨site, -, hsite⟩ := createSite_ok hins.created
    have hnew : RowValid row := hsite ▸ rowValid_new site _
    rcases hcase with ⟨hstate, hno⟩ | ⟨policy, p, hpol, hstate⟩
    · rw [hstate]
      refine iff_of_true (valid_insert hs hnew) fun r policy p hr hp => ?_
      obtain rfl := hrow r hr
      exact absurd hp (hno policy p)
    · rw [hstate, valid_withPolicy fun r hr hid => valid_insert hs hnew r hr]
      have hfresh := createSite_fresh hins.created hpol.siteID_ne
      have hwrite := rowValid_withPolicy row hpol.valid hpol.normalized
      constructor
      · intro h r policy' p' hr hp'
        obtain rfl := hrow r hr
        obtain rfl : policy = policy' := Option.some.inj (hpol.built.symm.trans hp'.built)
        exact hwrite.mp (h r (by simp [State.insert]) rfl)
      · intro h r hr hid
        simp only [State.insert, List.mem_append, List.mem_singleton] at hr
        rcases hr with hr | rfl
        · exact absurd hid (hfresh r hr)
        · exact hwrite.mpr (h r policy p hins hpol)

private theorem valid_update {u : SiteTables} {fails : StoreCall → Bool} {s : State} {siteID : ℕ}
    {req : UpdateSiteRequest} (hs : Valid s) : Valid (updateSite u fails s siteID req).1 ↔
      ∀ current p, PolicyWrite u fails s siteID req current p →
        ∀ old ∈ s.rows, old.siteID = siteID → FillsValidly (mergedPolicy current req) old := by
  obtain ⟨s₁, currency, tz, enabled, hs₁, -, hstate⟩ := updateSite_cases u fails s siteID req
  have hrest : Valid (updateSite u fails s siteID req).1 ↔ Valid s₁ := by
    rw [hstate]
    exact valid_alter fun row => Iff.rfl
  rw [hrest]
  rcases hs₁ with ⟨rfl, hno⟩ | ⟨current, p, hw, rfl⟩
  · exact iff_of_true hs fun current p hw => absurd hw (hno current p)
  · rw [valid_withPolicy fun r hr _ => hs r hr]
    constructor
    · intro h current' p' hw' old hold hid
      obtain rfl : current = current' := Option.some.inj (hw.found.symm.trans hw'.found)
      exact (rowValid_withPolicy old hw.valid hw.normalized).mp (h old hold hid)
    · intro h old hold hid
      exact (rowValid_withPolicy old hw.valid hw.normalized).mpr (h current p hw old hold hid)

private theorem valid_step {u : SiteTables} {s t : State} {r : Served} (hs : Valid s)
    (h : step u s r = some t) : Valid t ↔ KeepsPolicy u s r := by
  obtain rfl := Option.some.inj h
  obtain ⟨request, fails⟩ := r
  cases request with
  | create body => cases body with
    | none => simp only [handle, KeepsPolicy, hs]
    | some req =>
      simp only [handle, KeepsPolicy]
      exact valid_create hs
  | update siteIDParam body =>
    cases hparse : AuthGuards.parseSiteID siteIDParam with
    | none => cases body <;> simp [handle, KeepsPolicy, hparse, hs]
    | some siteID => cases body with
      | none => simp [handle, KeepsPolicy, hparse, hs]
      | some req =>
        simp only [handle, KeepsPolicy, hparse, Option.some.injEq]
        rw [valid_update hs]
        grind
  | reload =>
    simp only [handle, KeepsPolicy, iff_true]
    intro row hrow
    rw [rebuildOriginIndex_rows] at hrow
    exact hs row hrow

/-- Every stored policy passes the validator in every state of a run exactly when every
written policy of the run fills validly what it leaves empty. -/
theorem stored_policies_valid_iff (u : SiteTables) {s : State} (hs : Valid s) (es : List Served) :
    Throughout (step u) Valid s es ↔ Along (step u) (KeepsPolicy u) s es := by
  obtain ⟨t, ht⟩ := exec_step u s es
  exact throughout_iff_along (fun _ _ _ hs h => valid_step hs h) ht hs

theorem stored_policies_valid_iff_empty :
    Throughout (step sampleTables) Valid ⟨[], none⟩
        [⟨.create (some { hostname := "shop.example" }), answered⟩] ↔
      Along (step sampleTables) (KeepsPolicy sampleTables) ⟨[], none⟩
        [⟨.create (some { hostname := "shop.example" }), answered⟩] :=
  stored_policies_valid_iff sampleTables (by decide) _

/-- A German site is left with unconditional tracking by a patch whose consent mode is
empty. -/
theorem permissive_de_stored : ¬ Throughout (step sampleTables) Valid ⟨[], none⟩
    [⟨.create (some { hostname := "shop.example" }), answered⟩,
      ⟨.update "1" (some { jurisdiction := some "DE", consentMode := some "" }), answered⟩] := by
  decide +kernel

end Statnive.StoredPolicy
