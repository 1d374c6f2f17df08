import Statnive.SitesHandlers

/-!
# The rows that a patch changes

The parts of a patch are about different columns, so that a patch changes a row exactly when
one of the parts that are carried out does.
-/

namespace Statnive.PatchedRows

open SiteRegistry SitesHandlers

/-- A part of the patch is carried out and changes a row of the site; each part is written
before the next one is checked. -/
inductive PatchAlters (u : SiteTables) (fails : StoreCall → Bool) (s : State)
    (siteID : ℕ) (req : UpdateSiteRequest) : Prop
  | policy {current row : SiteRow} {p : SitePolicy}
      (write : PolicyWrite u fails s siteID req current p) (mem : row ∈ s.rows)
      (id : row.siteID = siteID) (changed : row.withPolicy p ≠ row)
  | attributes {s₁ s₂ : State} {row : SiteRow}
      (policy : applyPolicyPatch u fails s siteID req = .ok s₁)
      (write : applyAttributesPatch fails s₁ siteID req = .ok s₂) (mem : row ∈ s.rows)
      (id : row.siteID = siteID) (changed : row.withAttributes req.currency req.tz ≠ row)
  | flag {s₁ s₂ s₃ : State} {row : SiteRow}
      (policy : applyPolicyPatch u fails s siteID req = .ok s₁)
      (attributes : applyAttributesPatch fails s₁ siteID req = .ok s₂)
      (write : applyEnabledPatch fails s₂ siteID req = .ok s₃) (mem : row ∈ s.rows)
      (id : row.siteID = siteID) (changed : row.withEnabled req.enabled ≠ row)

variable {u : SiteTables} {fails : StoreCall → Bool} {s : State} {siteID : ℕ}
  {req : UpdateSiteRequest}

/-- The parts of a patch on a row, where `none` is a part that writes nothing. -/
def patched (policy : Option SitePolicy) (currency tz : Option String) (enabled : Option Bool)
    (row : SiteRow) : SiteRow :=
  ((policy.elim row row.withPolicy).withAttributes currency tz).withEnabled enabled

@[simp] theorem patched_siteID (policy : Option SitePolicy) (currency tz : Option String)
    (enabled : Option Bool) (row : SiteRow) :
    (patched policy currency tz enabled row).siteID = row.siteID := by
  cases policy <;> rfl

theorem getD_getD {α : Type*} (o : Option α) (a : α) : o.getD (o.getD a) = o.getD a := by
  cases o <;> rfl

theorem patched_patched (policy : Option SitePolicy) (currency tz : Option String)
    (enabled : Option Bool) (row : SiteRow) :
    patched policy currency tz enabled (patched policy currency tz enabled row) =
      patched policy currency tz enabled row := by
  cases policy with
  | none => simp [patched, SiteRow.withAttributes, SiteRow.withEnabled, getD_getD]
  | some p =>
    by_cases hj : p.jurisdiction = "" <;> by_cases hc : p.consentMode = "" <;>
      simp [patched, SiteRow.withPolicy, SiteRow.withAttributes, SiteRow.withEnabled, getD_getD,
        hj, hc]

/-- The parts are about different columns. -/
theorem patched_eq_iff (policy : Option SitePolicy) (currency tz : Option String)
    (enabled : Option Bool) (row : SiteRow) : patched policy currency tz enabled row = row ↔
      (∀ p ∈ policy, row.withPolicy p = row) ∧ row.withAttributes currency tz = row ∧
        row.withEnabled enabled = row := by
  obtain ⟨⟩ := row
  cases policy with
  | none =>
    simp only [patched, SiteRow.withAttributes, SiteRow.withEnabled, SiteRow.mk.injEq,
      Option.elim_none, Option.mem_def, reduceCtorEq, false_imp_iff]
    tauto
  | some p =>
    simp only [patched, SiteRow.withPolicy, SiteRow.withAttributes, SiteRow.withEnabled,
      SiteRow.mk.injEq, Option.elim_some, Option.mem_def, Option.some.injEq, forall_eq']
    tauto

/-- A rewriting that does nothing the second time keeps the rows of a site exactly when it
does nothing the first time. -/
theorem alterUpdate_same_iff (rows : List SiteRow) (siteID : ℕ) {f : SiteRow → SiteRow}
    (hf : ∀ row, f (f row) = f row) :
    (∀ row : SiteRow, row.siteID = siteID →
        (row ∈ alterUpdate rows siteID f ↔ row ∈ rows)) ↔
      ∀ row ∈ rows, row.siteID = siteID → f row = row := by
  constructor
  · intro h row hrow hsite
    obtain ⟨old, -, ⟨hne, rfl⟩ | ⟨-, rfl⟩⟩ := mem_alterUpdate ((h row hsite).mpr hrow)
    · exact absurd hsite hne
    · exact hf old
  · intro h row _
    rw [alterUpdate_id rows siteID h]

theorem mem_alterUpdate_of_ne (rows : List SiteRow) {f : SiteRow → SiteRow} {row : SiteRow}
    (hid : ∀ row, (f row).siteID = row.siteID) (h : row.siteID ≠ siteID) :
    row ∈ alterUpdate rows siteID f ↔ row ∈ rows := by
  constructor
  · intro hmem
    obtain ⟨old, hold, ⟨-, rfl⟩ | ⟨hsite, rfl⟩⟩ := mem_alterUpdate hmem
    · exact hold
    · exact absurd ((hid old).trans hsite) h
  · exact fun hmem => List.mem_map.mpr ⟨row, hmem, if_neg h⟩

/-- The policy that a patch writes, if it writes one. -/
theorem applyPolicyPatch_rows {s₁ : State}
    (h : applyPolicyPatch u fails s siteID req = .ok s₁) : ∃ policy : Option SitePolicy,
      s₁.rows = alterUpdate s.rows siteID (fun row => policy.elim row row.withPolicy) ∧
      ∀ p, p ∈ policy ↔ ∃ current, PolicyWrite u fails s siteID req current p := by
  rcases applyPolicyPatch_ok h with ⟨hpol, rfl⟩ | ⟨current, p, hw, rfl⟩
  · refine ⟨none, (alterUpdate_id _ _ fun _ _ _ => rfl).symm, fun p => ?_⟩
    refine iff_of_false (by simp) ?_
    rintro ⟨current, hw⟩
    simp [hw.hasPolicy] at hpol
  · refine ⟨some p, withPolicy_rows u fails s siteID p _, fun p' => ?_⟩
    simp only [Option.mem_def, Option.some.injEq]
    constructor
    · rintro rfl
      exact ⟨current, hw⟩
    · rintro ⟨current', hw'⟩
      obtain rfl : current = current' := Option.some.inj (hw.found.symm.trans hw'.found)
      exact Option.some.inj (hw.normalized.symm.trans hw'.normalized)

/-- The attributes are accepted where the policy is. -/
def AttributesDone (u : SiteTables) (fails : StoreCall → Bool) (s : State) (siteID : ℕ)
    (req : UpdateSiteRequest) : Prop :=
  ∃ s₁ s₂, applyPolicyPatch u fails s siteID req = .ok s₁ ∧
    applyAttributesPatch fails s₁ siteID req = .ok s₂

/-- All three parts are accepted. -/
def FlagDone (u : SiteTables) (fails : StoreCall → Bool) (s : State) (siteID : ℕ)
    (req : UpdateSiteRequest) : Prop :=
  ∃ s₁ s₂ s₃, applyPolicyPatch u fails s siteID req = .ok s₁ ∧
    applyAttributesPatch fails s₁ siteID req = .ok s₂ ∧
    applyEnabledPatch fails s₂ siteID req = .ok s₃

/-- A patch changes a row exactly when one of its parts does. -/
theorem patchAlters_iff {policy : Option SitePolicy} {currency tz : Option String}
    {enabled : Option Bool}
    (hpolicy : ∀ p, p ∈ policy ↔ ∃ current, PolicyWrite u fails s siteID req current p)
    (hattributes : AttributesDone u fails s siteID req ∧ currency = req.currency ∧ tz = req.tz ∨
      ¬ AttributesDone u fails s siteID req ∧ currency = none ∧ tz = none)
    (hflag : FlagDone u fails s siteID req ∧ enabled = req.enabled ∨
      ¬ FlagDone u fails s siteID req ∧ enabled = none) :
    (∃ row ∈ s.rows, row.siteID = siteID ∧ patched policy currency tz enabled row ≠ row) ↔
      PatchAlters u fails s siteID req := by
  constructor
  · rintro ⟨row, hrow, hid, hne⟩
    by_cases hp : ∀ p ∈ policy, row.withPolicy p = row
    · by_cases ha : row.withAttributes currency tz = row
      · have hf : row.withEnabled enabled ≠ row :=
          fun hf => hne ((patched_eq_iff _ _ _ _ _).mpr ⟨hp, ha, hf⟩)
        rcases hflag with ⟨⟨s₁, s₂, s₃, h₁, h₂, h₃⟩, rfl⟩ | ⟨-, rfl⟩
        · exact .flag h₁ h₂ h₃ hrow hid hf
        · exact absurd (withEnabled_none row) hf
      · rcases hattributes with ⟨⟨s₁, s₂, h₁, h₂⟩, rfl, rfl⟩ | ⟨-, rfl, rfl⟩
        · exact .attributes h₁ h₂ hrow hid ha
        · exact absurd (withAttributes_none row) ha
    · push Not at hp
      obtain ⟨p, hmem, hp⟩ := hp
      obtain ⟨current, hw⟩ := (hpolicy p).mp hmem
      exact .policy hw hrow hid hp
  · intro h
    cases h with
    | policy hw hrow hid hp =>
      refine ⟨_, hrow, hid, fun hsame => hp ?_⟩
      exact ((patched_eq_iff _ _ _ _ _).mp hsame).1 _ ((hpolicy _).mpr ⟨_, hw⟩)
    | attributes h₁ h₂ hrow hid ha =>
      rcases hattributes with ⟨-, rfl, rfl⟩ | ⟨hno, -⟩
      · exact ⟨_, hrow, hid, fun hsame => ha ((patched_eq_iff _ _ _ _ _).mp hsame).2.1⟩
      · exact absurd ⟨_, _, h₁, h₂⟩ hno
    | flag h₁ h₂ h₃ hrow hid hf =>
      rcases hflag with ⟨-, rfl⟩ | ⟨hno, -⟩
      · exact ⟨_, hrow, hid, fun hsame => hf ((patched_eq_iff _ _ _ _ _).mp hsame).2.2⟩
      · exact absurd ⟨_, _, _, h₁, h₂, h₃⟩ hno

/-- What a patch leaves of the rows, with the parts that are carried out. -/
theorem updateSite_rows (u : SiteTables) (fails : StoreCall → Bool) (s : State)
    (siteID : ℕ) (req : UpdateSiteRequest) : ∃ policy currency tz enabled,
      (updateSite u fails s siteID req).1.rows =
        alterUpdate s.rows siteID (patched policy currency tz enabled) ∧
      ((∃ row ∈ s.rows, row.siteID = siteID ∧ patched policy currency tz enabled row ≠ row) ↔
        PatchAlters u fails s siteID req) := by
  cases hpol : applyPolicyPatch u fails s siteID req with
  | error status =>
    refine ⟨none, none, none, none, ?_, patchAlters_iff (fun p => ?_) (.inr ⟨?_, rfl, rfl⟩)
      (.inr ⟨?_, rfl⟩)⟩
    · simp only [updateSite, hpol]
      exact (alterUpdate_id _ _ fun _ _ _ => rfl).symm
    · refine iff_of_false (by simp) ?_
      rintro ⟨current, hw⟩
      simp [hw.apply] at hpol
    · rintro ⟨s₁, s₂, h₁, -⟩
      simp [hpol] at h₁
    · rintro ⟨s₁, s₂, s₃, h₁, -⟩
      simp [hpol] at h₁
  | ok s₁ =>
    obtain ⟨policy, hrows₁, hpolicy⟩ := applyPolicyPatch_rows hpol
    have hsite (row : SiteRow) : (policy.elim row row.withPolicy).siteID = row.siteID := by
      cases policy <;> rfl
    cases hatt : applyAttributesPatch fails s₁ siteID req with
    | error status =>
      refine ⟨policy, none, none, none, ?_, patchAlters_iff hpolicy (.inr ⟨?_, rfl, rfl⟩)
        (.inr ⟨?_, rfl⟩)⟩
      · simp only [updateSite, hpol, hatt, hrows₁]
        rfl
      · rintro ⟨s₁', s₂, h₁, h₂⟩
        obtain rfl := Except.ok.inj (hpol.symm.trans h₁)
        simp [hatt] at h₂
      · rintro ⟨s₁', s₂, s₃, h₁, h₂, -⟩
        obtain rfl := Except.ok.inj (hpol.symm.trans h₁)
        simp [hatt] at h₂
    | ok s₂ =>
      have hdone : AttributesDone u fails s siteID req := ⟨s₁, s₂, hpol, hatt⟩
      have hrows₂ : s₂.rows = alterUpdate s.rows siteID
          (fun row => (policy.elim row row.withPolicy).withAttributes req.currency req.tz) := by
        rw [(applyAttributesPatch_ok hatt).2, State.alter]
        simp only [hrows₁]
        exact alterUpdate_comp _ _ hsite
      cases hen : applyEnabledPatch fails s₂ siteID req with
      | error status =>
        refine ⟨policy, req.currency, req.tz, none, ?_, patchAlters_iff hpolicy
          (.inl ⟨hdone, rfl, rfl⟩) (.inr ⟨?_, rfl⟩)⟩
        · simp only [updateSite, hpol, hatt, hen, hrows₂]
          rfl
        · rintro ⟨s₁', s₂', s₃, h₁, h₂, h₃⟩
          obtain rfl := Except.ok.inj (hpol.symm.trans h₁)
          obtain rfl := Except.ok.inj (hatt.symm.trans h₂)
          simp [hen] at h₃
      | ok s₃ =>
        refine ⟨policy, req.currency, req.tz, req.enabled, ?_, patchAlters_iff hpolicy
          (.inl ⟨hdone, rfl, rfl⟩) (.inl ⟨⟨s₁, s₂, s₃, hpol, hatt, hen⟩, rfl⟩)⟩
        simp only [updateSite, hpol, hatt, hen]
        rw [(applyEnabledPatch_ok hen).2, State.alter]
        simp only [hrows₂]
        exact alterUpdate_comp _ _ hsite

end Statnive.PatchedRows
