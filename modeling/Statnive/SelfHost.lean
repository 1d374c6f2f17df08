import Statnive.RegistryInvariants

/-!
# The origin of the dashboard

At boot the index is searched for the origin of the host that serves the dashboard. The
index resolves an origin under more than one key, and it is rebuilt later.
-/

namespace Statnive.SelfHost

open SiteOrigins SiteRegistry OriginIndex SitesHandlers LabelledRuns

/-- The first index, and the check that refuses to start over it. -/
def boot (u : SiteTables) (fails : Bool) (rows : List SiteRow) (selfHost : String) : Option State :=
  let index := if fails then none
    else some (rebuildFromSites u.toLookupProfile (listAdmin rows))
  if hasSelfHostInAnyAllowlist u.toLookupProfile index selfHost ≠ 0 then none
  else some ⟨rows, index⟩

/-- The keys under which a look-up searches for an origin. -/
def probes (lookup : LookupProfile) (origin : String) : List String :=
  if origin = "" || origin = "null" then []
  else origin :: match normalizeOrigin lookup origin with
    | none => []
    | some canon => canon :: (wwwBareToggleOrigin canon).toList

/-- The origins that are sent from the host: as it is configured, in canonical form, and
under its `www.` alias. -/
def selfOrigins (lookup : LookupProfile) (selfHost : String) : List String :=
  ("https://" ++ selfHost) :: match normalizeOrigin lookup ("https://" ++ selfHost) with
    | none => []
    | some canon => canon :: (wwwBareToggleOrigin canon).toList

def selfKeys (lookup : LookupProfile) (selfHost : String) : List String :=
  (selfOrigins lookup selfHost).flatMap (probes lookup)

/-- No origin of the host is resolved to a site. -/
def Hidden (u : SiteTables) (selfHost : String) (s : State) : Prop :=
  ∀ origin ∈ selfOrigins u.toLookupProfile selfHost,
    indexLookup u.toLookupProfile s.index origin = none

/-- No enabled site has an origin that the host is resolved under. -/
def NoSelf (u : SiteTables) (selfHost : String) (rows : List SiteRow) : Prop :=
  ∀ row ∈ rows, ∀ key ∈ selfKeys u.toLookupProfile selfHost, ¬ Holds u.toLookupProfile row key

/-- A rebuild finds no such site among the rows that it reads. -/
def KeepsHidden (u : SiteTables) (selfHost : String) (s : State) (r : Served) : Prop :=
  r.fails .rebuild = false →
  match r.request with
  | .create (some req) => ∀ row policy p, RowInsert u r.fails s req row →
      CreatedPolicy u r.fails req row policy p →
        NoSelf u selfHost (alterUpdate (s.rows ++ [row]) row.siteID (·.withPolicy p))
  | .update siteIDParam (some req) => ∀ siteID,
      AuthGuards.parseSiteID siteIDParam = some siteID → ∀ current p,
        PolicyWrite u r.fails s siteID req current p → req.allowedOrigins.isSome = true →
          NoSelf u selfHost (alterUpdate s.rows siteID (·.withPolicy p))
  | .reload => NoSelf u selfHost s.rows
  | _ => True

variable {u : SiteTables} {fails : StoreCall → Bool} {s : State} {selfHost : String}

private theorem indexLookup_none_iff (lookup : LookupProfile) (m : OriginMap) (origin : String) :
    indexLookup lookup (some m) origin = none ↔ ∀ key ∈ probes lookup origin, m key = none := by
  unfold indexLookup probes
  split
  · simp
  · cases hm : m origin with
    | some siteID => simp [hm]
    | none =>
      cases hn : normalizeOrigin lookup origin with
      | none => simp [hm]
      | some canon =>
        cases hc : m canon with
        | some siteID => simp [hm, hc]
        | none => cases ht : wwwBareToggleOrigin canon <;> simp [hm, hc]

private theorem indexLookup_nil (lookup : LookupProfile) (origin : String) :
    indexLookup lookup none origin = none := by
  simp [indexLookup]

/-- A rebuilt index hides the host exactly when no enabled site has one of its keys. -/
theorem hidden_rebuild {rows : List SiteRow} :
    Hidden u selfHost ⟨rows, some (rebuildFromSites u.toLookupProfile (listAdmin rows))⟩ ↔
      NoSelf u selfHost rows := by
  simp only [Hidden, indexLookup_none_iff, rebuild_none_iff, mem_listAdmin, NoSelf, selfKeys,
    List.mem_flatMap]
  grind

/-- Whether the host is hidden depends on the index alone. -/
theorem hidden_congr {t : State} (h : t.index = s.index) :
    Hidden u selfHost t ↔ Hidden u selfHost s := by
  simp only [Hidden, h]

theorem hidden_rebuildOriginIndex (hs : Hidden u selfHost s) :
    Hidden u selfHost (rebuildOriginIndex u fails s) ↔
      (fails .rebuild = false → NoSelf u selfHost s.rows) := by
  cases hf : fails .rebuild with
  | true => simp [rebuildOriginIndex, hf, hs]
  | false =>
    simp only [rebuildOriginIndex, hf, Bool.false_eq_true, if_false, forall_const]
    exact hidden_rebuild

private theorem hidden_create {req : CreateSiteRequest} (hs : Hidden u selfHost s) :
    Hidden u selfHost (create u fails s req).1 ↔
      KeepsHidden u selfHost s ⟨.create (some req), fails⟩ := by
  simp only [KeepsHidden]
  rcases create_cases u fails s req with ⟨hsame, hno⟩ | ⟨row, hins, hcase⟩
  · rw [hsame]
    exact iff_of_true hs fun _ row _ _ hrow _ => absurd hrow (hno row)
  have hrow : ∀ r, RowInsert u fails s req r → r = row := fun r hr =>
    Except.ok.inj (hr.created.symm.trans hins.created)
  have hinsert : Hidden u selfHost (s.insert row) := (hidden_congr rfl).mpr hs
  rcases hcase with ⟨hstate, hno⟩ | ⟨policy, p, hpol, hstate⟩
  · rw [hstate]
    refine iff_of_true hinsert fun _ r policy p hr hp => ?_
    obtain rfl := hrow r hr
    exact absurd hp (hno policy p)
  · have halter : Hidden u selfHost ((s.insert row).alter row.siteID (·.withPolicy p)) :=
      (hidden_congr rfl).mpr hinsert
    rw [hstate, withPolicy, if_pos rfl, hidden_rebuildOriginIndex halter]
    constructor
    · intro h hf r policy' p' hr hp'
      obtain rfl := hrow r hr
      obtain rfl : policy = policy' := Option.some.inj (hpol.built.symm.trans hp'.built)
      obtain rfl : p = p' := Option.some.inj (hpol.normalized.symm.trans hp'.normalized)
      exact h hf
    · exact fun h hf => h hf row policy p hins hpol

private theorem hidden_update {siteID : ℕ} {req : UpdateSiteRequest} (hs : Hidden u selfHost s) :
    Hidden u selfHost (updateSite u fails s siteID req).1 ↔
      (fails .rebuild = false → ∀ current p, PolicyWrite u fails s siteID req current p →
        req.allowedOrigins.isSome = true →
          NoSelf u selfHost (alterUpdate s.rows siteID (·.withPolicy p))) := by
  obtain ⟨s₁, currency, tz, enabled, hs₁, -, hstate⟩ := updateSite_cases u fails s siteID req
  have hrest : Hidden u selfHost (updateSite u fails s siteID req).1 ↔ Hidden u selfHost s₁ := by
    rw [hstate]
    exact hidden_congr rfl
  rw [hrest]
  rcases hs₁ with ⟨rfl, hno⟩ | ⟨current, p, hw, rfl⟩
  · exact iff_of_true hs fun _ current p hw => absurd hw (hno current p)
  have halter : Hidden u selfHost (s.alter siteID (·.withPolicy p)) := (hidden_congr rfl).mpr hs
  cases hsome : req.allowedOrigins.isSome with
  | false =>
    rw [withPolicy, if_neg (by simp)]
    simp [halter]
  | true =>
    rw [withPolicy, if_pos rfl, hidden_rebuildOriginIndex halter]
    constructor
    · intro h hf current' p' hw' _
      obtain rfl : current = current' := Option.some.inj (hw.found.symm.trans hw'.found)
      obtain rfl : p = p' := Option.some.inj (hw.normalized.symm.trans hw'.normalized)
      exact h hf
    · exact fun h hf => h hf current p hw rfl

theorem hidden_step {t : State} {r : Served} (hs : Hidden u selfHost s)
    (h : step u s r = some t) : Hidden u selfHost t ↔ KeepsHidden u selfHost s r := by
  obtain rfl := Option.some.inj h
  obtain ⟨request, fails⟩ := r
  cases request with
  | create body => cases body with
    | none => simp [handle, KeepsHidden, hs]
    | some req =>
      simp only [handle]
      exact hidden_create hs
  | update siteIDParam body =>
    cases hparse : AuthGuards.parseSiteID siteIDParam with
    | none => cases body <;> simp [handle, KeepsHidden, hparse, hs]
    | some siteID => cases body with
      | none => simp [handle, KeepsHidden, hparse, hs]
      | some req =>
        simp only [handle, KeepsHidden, hparse, Option.some.injEq, forall_eq']
        exact hidden_update hs
  | reload =>
    simp only [handle, KeepsHidden]
    exact hidden_rebuildOriginIndex hs

/-- Once the process has started, no origin of its host is resolved in any state of a run
exactly when no rebuild finds an enabled site that has one of its keys. -/
theorem self_host_hidden_iff (u : SiteTables) {bootFails : Bool} {rows : List SiteRow}
    {selfHost : String} {s : State} (hboot : boot u bootFails rows selfHost = some s)
    (es : List Served) : Throughout (step u) (Hidden u selfHost) s es ↔
      (bootFails = false → NoSelf u selfHost rows) ∧
        Along (step u) (KeepsHidden u selfHost) s es := by
  have hindex : s = ⟨rows, if bootFails then none
      else some (rebuildFromSites u.toLookupProfile (listAdmin rows))⟩ := by
    simp only [boot, ite_eq_iff, reduceCtorEq, and_false, false_or] at hboot
    exact (Option.some.inj hboot.2).symm
  have hstart : Hidden u selfHost s ↔ (bootFails = false → NoSelf u selfHost rows) := by
    cases bootFails with
    | true => simp [hindex, Hidden, indexLookup_nil]
    | false =>
      rw [hindex]
      simpa using hidden_rebuild
  obtain ⟨t, ht⟩ := exec_step u s es
  rw [← hstart]
  constructor
  · intro h
    have hs : Hidden u selfHost s := by cases es <;> [exact h; exact h.1]
    exact ⟨hs, (throughout_iff_along (fun _ _ _ hs h => hidden_step hs h) ht hs).mp h⟩
  · rintro ⟨hs, h⟩
    exact (throughout_iff_along (fun _ _ _ hs h => hidden_step hs h) ht hs).mpr h

def bootedState : State := ⟨[], some (rebuildFromSites sampleTables.toLookupProfile [])⟩

theorem boot_nil : boot sampleTables false [] "app.example" = some bootedState := by
  have hpreflight : hasSelfHostInAnyAllowlist sampleTables.toLookupProfile bootedState.index
      "app.example" = 0 := by decide +kernel
  have hrows : listAdmin [] = [] := rfl
  simpa [boot, hrows, bootedState] using hpreflight

theorem self_host_hidden_iff_reload :
    Throughout (step sampleTables) (Hidden sampleTables "app.example") bootedState
      [⟨.reload, answered⟩] :=
  (self_host_hidden_iff sampleTables boot_nil [⟨.reload, answered⟩]).mpr
    ⟨fun _ => by simp [NoSelf], fun _ => by simp [NoSelf, bootedState], fun _ _ => trivial⟩

/-- An admin adds the origin of the dashboard after the check at boot. -/
theorem self_host_resolved : boot sampleTables false [] "app.example" = some bootedState ∧
    ¬ Throughout (step sampleTables) (Hidden sampleTables "app.example") bootedState
      [⟨.create (some { hostname := "app.example", allowedOrigins := some ["https://app.example"] }),
        answered⟩] := by
  refine ⟨boot_nil, fun h => ?_⟩
  have hhidden := h.2 _ rfl "https://app.example" (by decide +kernel)
  revert hhidden
  decide +kernel

end Statnive.SelfHost
