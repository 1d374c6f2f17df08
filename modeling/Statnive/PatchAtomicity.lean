import Statnive.SitesHandlers

/-!
# Refused patches

A patch writes its policy before it looks at its currency and its time zone.
-/

namespace Statnive.PatchAtomicity

open SiteOrigins SiteRegistry OriginIndex SitesHandlers
open AuthGuards (parseSiteID parseSiteID_ne_zero)

/-- The rows of the site and the index are already what writing the policy makes of them. -/
def WritesNothing (u : SiteTables) (s : State) (siteID : ℕ) (req : UpdateSiteRequest)
    (p : SitePolicy) : Prop :=
  (∀ row ∈ s.rows, row.siteID = siteID → row.withPolicy p = row) ∧
    (req.allowedOrigins.isSome = true →
      s.index = some (rebuildFromSites u.toLookupProfile (listAdmin s.rows)))

variable {u : SiteTables} {s : State} {siteID : ℕ} {req : UpdateSiteRequest}

private theorem alter_absent (s : State) {siteID : ℕ} (f : SiteRow → SiteRow)
    (h : ¬ ∃ row ∈ s.rows, row.siteID = siteID) : s.alter siteID f = s := by
  rw [State.alter, alterUpdate_id _ _ fun row hrow hid => absurd ⟨row, hrow, hid⟩ h]

theorem exists_alter {s : State} {f : SiteRow → SiteRow} (hf : ∀ row, (f row).siteID = row.siteID)
    (h : ∃ row ∈ s.rows, row.siteID = siteID) :
    ∃ row ∈ (s.alter siteID f).rows, row.siteID = siteID := by
  obtain ⟨row, hrow, hid⟩ := h
  exact ⟨f row, List.mem_map.mpr ⟨row, hrow, by simp [hid]⟩, by rw [hf, hid]⟩

theorem updateRows_answered {rows : List SiteRow} (h : ∃ row ∈ rows, row.siteID = siteID)
    (f : SiteRow → SiteRow) : updateRows rows false siteID f = .ok (alterUpdate rows siteID f) := by
  have hany : rows.any (fun row => row.siteID = siteID) = true := by simpa using h
  simp [updateRows, hany]

private theorem applyAttributesPatch_eq
    (hid : siteID ≠ 0) (h : ∃ row ∈ s.rows, row.siteID = siteID) :
    applyAttributesPatch answered s siteID req =
      if badAttributes req = true then .error 400
      else .ok (s.alter siteID (·.withAttributes req.currency req.tz)) := by
  obtain ⟨-, -, -, -, currency, tz, -, -, -, -⟩ := req
  have hrows := updateRows_answered h (·.withAttributes currency tz)
  simp only [applyAttributesPatch, updateSiteAttributes, badAttributes, hid, answered, hrows]
  cases currency with
  | none => cases tz with
    | none => simp
    | some z => cases hv : isValidTimezone z <;> simp [hv, attributesStatus, State.alter]
  | some c => cases tz with
    | none => cases hv : isValidCurrency c <;> simp [hv, attributesStatus, State.alter]
    | some z =>
      cases hv : isValidCurrency c <;> cases hw : isValidTimezone z <;>
        simp [hv, hw, attributesStatus, State.alter]

private theorem applyEnabledPatch_eq (hid : siteID ≠ 0) (h : ∃ row ∈ s.rows, row.siteID = siteID) :
    applyEnabledPatch answered s siteID req = .ok (s.alter siteID (·.withEnabled req.enabled)) := by
  cases hen : req.enabled with
  | none => simp [applyEnabledPatch, hen]
  | some enabled =>
    have hrows := updateRows_answered h (·.withEnabled (some enabled))
    simp [applyEnabledPatch, hen, updateSiteEnabled, hid, answered, hrows, State.alter]

/-- A patch of a site that exists: the policy part may refuse it before anything is written,
and the attributes after the policy is. -/
theorem updateSite_eq (hid : siteID ≠ 0) (h : ∃ row ∈ s.rows, row.siteID = siteID) :
    updateSite u answered s siteID req = match applyPolicyPatch u answered s siteID req with
      | .error status => (s, status)
      | .ok s₁ => if badAttributes req = true then (s₁, 400)
        else ((s₁.alter siteID (·.withAttributes req.currency req.tz)).alter siteID
          (·.withEnabled req.enabled), 200) := by
  cases hpol : applyPolicyPatch u answered s siteID req with
  | error status => simp [updateSite, hpol]
  | ok s₁ =>
    have hs₁ : ∃ row ∈ s₁.rows, row.siteID = siteID := by
      rcases applyPolicyPatch_ok hpol with ⟨-, rfl⟩ | ⟨current, p, -, rfl⟩
      · exact h
      · obtain ⟨row, hrow, hrid⟩ := exists_alter (f := (·.withPolicy p)) (fun _ => rfl) h
        refine ⟨row, ?_, hrid⟩
        rw [withPolicy_rows]
        exact hrow
    simp only [updateSite, hpol, applyAttributesPatch_eq hid hs₁]
    by_cases hbad : badAttributes req = true
    · simp [hbad]
    · have hs₂ := exists_alter (f := (·.withAttributes req.currency req.tz)) (fun _ => rfl) hs₁
      have hs₃ := exists_alter (f := (·.withEnabled req.enabled)) (fun _ => rfl) hs₂
      simp only [hbad, applyEnabledPatch_eq hid hs₂, if_false, Bool.false_eq_true]
      simpa [readAgain, answered] using hs₃

/-- A patch of no site changes nothing. -/
theorem updateSite_absent (fails : StoreCall → Bool)
    (h : ¬ ∃ row ∈ s.rows, row.siteID = siteID) : (updateSite u fails s siteID req).1 = s := by
  obtain ⟨s₁, currency, tz, enabled, hs₁, -, hstate⟩ := updateSite_cases u fails s siteID req
  rw [hstate]
  rcases hs₁ with ⟨rfl, -⟩ | ⟨current, p, hw, -⟩
  · exact alter_absent _ _ h
  · obtain ⟨-, hmem, heq⟩ := lookupSiteByID_some hw.found
    exact absurd ⟨current, hmem, heq⟩ h

theorem withPolicy_eq_iff {p : SitePolicy} :
    withPolicy u answered s siteID p req.allowedOrigins.isSome = s ↔
      WritesNothing u s siteID req p := by
  have hrows : (s.alter siteID (·.withPolicy p)).rows = s.rows ↔
      ∀ row ∈ s.rows, row.siteID = siteID → row.withPolicy p = row := by
    constructor
    · intro h row hrow hid
      have hmap : s.rows.map (fun row => if row.siteID = siteID then row.withPolicy p else row) =
          s.rows.map id := by simpa [State.alter, alterUpdate] using h
      have hone := List.map_inj_left.mp hmap row hrow
      simpa [hid] using hone
    · exact fun h => alterUpdate_id _ _ h
  unfold WritesNothing
  rw [← hrows]
  cases horig : req.allowedOrigins.isSome with
  | false =>
    simp only [withPolicy, State.alter, Bool.false_eq_true, if_false, false_implies, and_true]
    constructor
    · exact fun h => congrArg State.rows h
    · exact fun h => by rw [h]
  | true =>
    simp only [withPolicy, rebuildOriginIndex, answered, Bool.false_eq_true, if_false, if_true,
      forall_const]
    constructor
    · intro h
      have hr := congrArg State.rows h
      have hindex := congrArg State.index h
      simp only at hr hindex
      exact ⟨hr, by rw [← hindex, hr]⟩
    · rintro ⟨hr, hindex⟩
      rw [hr, ← hindex]

/-- A patch that is refused leaves the rows and the index as they were exactly when its
attributes are good, or its policy part writes nothing new. -/
theorem refused_patch_unchanged_iff (u : SiteTables) (s : State) (siteIDParam : String)
    (body : Option UpdateSiteRequest) :
    (400 ≤ (handle u s ⟨.update siteIDParam body, answered⟩).2 →
        (handle u s ⟨.update siteIDParam body, answered⟩).1 = s) ↔
      ∀ siteID, parseSiteID siteIDParam = some siteID → ∀ req, body = some req →
        badAttributes req = true → ∀ current p, PolicyWrite u answered s siteID req current p →
          WritesNothing u s siteID req p := by
  cases hparse : parseSiteID siteIDParam with
  | none => simp [handle, hparse]
  | some siteID => cases body with
    | none => simp [handle, hparse]
    | some req =>
      simp only [handle, hparse, Option.some.injEq, forall_eq']
      have hid := parseSiteID_ne_zero hparse
      by_cases hex : ∃ row ∈ s.rows, row.siteID = siteID
      · rw [updateSite_eq hid hex]
        cases hpol : applyPolicyPatch u answered s siteID req with
        | error status =>
          refine iff_of_true (fun _ => rfl) fun _ current p hw => ?_
          simp [hw.apply] at hpol
        | ok s₁ =>
          by_cases hbad : badAttributes req = true
          · simp only [hbad, if_true, Nat.le_refl, forall_const]
            constructor
            · rintro rfl current p hw
              rw [hw.apply, Except.ok.injEq] at hpol
              exact withPolicy_eq_iff.mp hpol
            · intro h
              rcases applyPolicyPatch_ok hpol with ⟨-, rfl⟩ | ⟨current, p, hw, rfl⟩
              · rfl
              · exact withPolicy_eq_iff.mpr (h current p hw)
          · simp [hbad]
      · refine iff_of_true (fun _ => updateSite_absent answered hex) fun _ current p hw => ?_
        obtain ⟨-, hmem, heq⟩ := lookupSiteByID_some hw.found
        exact absurd ⟨current, hmem, heq⟩ hex

def sampleSite : SiteRow where
  siteID := 1
  hostname := "shop.example"
  slug := "shop-example"
  tz := "Europe/Berlin"
  currency := "EUR"

/-- The privacy flag is set although the patch is refused for its currency. -/
theorem refused_patch_changes : ¬ (400 ≤ (handle sampleTables ⟨[sampleSite], none⟩
    ⟨.update "1" (some { respectDNT := some true, currency := some "XXX" }), answered⟩).2 →
      (handle sampleTables ⟨[sampleSite], none⟩
        ⟨.update "1" (some { respectDNT := some true, currency := some "XXX" }), answered⟩).1 =
          ⟨[sampleSite], none⟩) := by
  intro h
  have hrows := congrArg State.rows (h (by decide +kernel))
  revert hrows
  decide +kernel

end Statnive.PatchAtomicity
