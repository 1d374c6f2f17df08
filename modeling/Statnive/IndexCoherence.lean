import Statnive.RegistryInvariants

/-!
# The index against the rows

The index is rebuilt when a request names origins. The flag of a site decides whether its
origins belong to the index, and writing the flag rebuilds nothing.
-/

namespace Statnive.IndexCoherence

open SiteOrigins SiteRegistry OriginIndex SitesHandlers RegistryInvariants LabelledRuns

/-- Every origin is resolved as a rebuild from the rows would resolve it. -/
def Coherent (u : SiteTables) (s : State) : Prop :=
  ∀ origin, indexLookup u.toLookupProfile s.index origin =
    indexLookup u.toLookupProfile (some (rebuildFromSites u.toLookupProfile (listAdmin s.rows)))
      origin

/-- Both rows hold the same origins, as far as a rebuild looks. -/
def SameHoldings (lookup : LookupProfile) (old new : SiteRow) : Prop :=
  ∀ origin, Holds lookup old origin ↔ Holds lookup new origin

/-- A write that no rebuild follows leaves what the site holds as it was: the flag of a patch,
and the policy of a request whose rebuild fails. -/
def KeepsIndex (u : SiteTables) (s : State) (r : Served) : Prop :=
  match r.request with
  | .create (some req) => ∀ row policy p, RowInsert u r.fails s req row →
      CreatedPolicy u r.fails req row policy p → r.fails .rebuild = true →
        SameHoldings u.toLookupProfile row (row.withPolicy p)
  | .update siteIDParam (some req) => ∀ siteID,
      AuthGuards.parseSiteID siteIDParam = some siteID →
      (∀ current p, PolicyWrite u r.fails s siteID req current p →
        req.allowedOrigins.isSome = true → r.fails .rebuild = true →
          ∀ row ∈ s.rows, row.siteID = siteID →
            SameHoldings u.toLookupProfile row (row.withPolicy p)) ∧
      ∀ s₁, FlagWrite u r.fails s siteID req s₁ → ∀ row ∈ s₁.rows, row.siteID = siteID →
        SameHoldings u.toLookupProfile row (row.withEnabled req.enabled)
  | _ => True

/-- The index is what a rebuild makes of the rows. -/
def Fresh (u : SiteTables) (s : State) : Prop :=
  s.index = some (rebuildFromSites u.toLookupProfile s.rows)

variable {u : SiteTables} {fails : StoreCall → Bool} {s : State} {siteID : ℕ}

theorem rebuild_listAdmin (lookup : LookupProfile) (rows : List SiteRow) :
    rebuildFromSites lookup (listAdmin rows) = rebuildFromSites lookup rows :=
  rebuild_congr fun _ _ => by simp only [mem_listAdmin]

private theorem coherent_of_fresh (h : Fresh u s) : Coherent u s := by
  intro origin
  rw [h, rebuild_listAdmin]

/-- A rebuild sees the flag and the origins of a row. -/
theorem sameHoldings_of_eq {lookup : LookupProfile} {old new : SiteRow}
    (hen : new.enabled = old.enabled) (horigins : new.allowedOrigins = old.allowedOrigins) :
    SameHoldings lookup old new := by
  intro origin
  rw [Holds, Holds, hen, horigins]

private theorem rebuild_alterUpdate
    {lookup : LookupProfile} {rows : List SiteRow} {f : SiteRow → SiteRow}
    (hid : ∀ row, (f row).siteID = row.siteID)
    (h : ∀ row ∈ rows, row.siteID = siteID → SameHoldings lookup row (f row)) :
    rebuildFromSites lookup (alterUpdate rows siteID f) = rebuildFromSites lookup rows := by
  refine rebuild_congr fun origin id => ?_
  constructor
  · rintro ⟨row, hrow, hold, rfl⟩
    obtain ⟨old, hmem, ⟨-, rfl⟩ | ⟨hsite, rfl⟩⟩ := mem_alterUpdate hrow
    · exact ⟨row, hmem, hold, rfl⟩
    · exact ⟨old, hmem, (h old hmem hsite origin).mpr hold, (hid old).symm⟩
  · rintro ⟨row, hrow, hold, rfl⟩
    by_cases hsite : row.siteID = siteID
    · exact ⟨f row, List.mem_map.mpr ⟨row, hrow, by simp [hsite]⟩,
        (h row hrow hsite origin).mp hold, hid row⟩
    · exact ⟨row, List.mem_map.mpr ⟨row, hrow, by simp [hsite]⟩, hold, rfl⟩

private theorem rebuild_insert {lookup : LookupProfile} {rows : List SiteRow} {row : SiteRow}
    (h : row.allowedOrigins = []) :
    rebuildFromSites lookup (rows ++ [row]) = rebuildFromSites lookup rows := by
  refine rebuild_congr fun origin id => ?_
  have hno : ¬ Holds lookup row origin := by simp [Holds, h]
  simp only [List.mem_append, List.mem_singleton]
  grind

theorem fresh_rebuildOriginIndex (h : fails .rebuild = true → Fresh u s) :
    Fresh u (rebuildOriginIndex u fails s) := by
  unfold rebuildOriginIndex
  split
  · next hf => exact h hf
  · exact congrArg some (rebuild_listAdmin _ _)

theorem fresh_alter (hs : Fresh u s) {f : SiteRow → SiteRow}
    (hid : ∀ row, (f row).siteID = row.siteID)
    (h : ∀ row ∈ s.rows, row.siteID = siteID → SameHoldings u.toLookupProfile row (f row)) :
    Fresh u (s.alter siteID f) := by
  unfold Fresh at hs ⊢
  rw [State.alter, rebuild_alterUpdate hid h]
  exact hs

/-- A policy that is written is followed by a rebuild, or leaves what the site holds. -/
theorem fresh_withPolicy (hs : Fresh u s) {p : SitePolicy} {rebuilt : Bool}
    (h : rebuilt = false ∨ fails .rebuild = true → ∀ row ∈ s.rows, row.siteID = siteID →
      SameHoldings u.toLookupProfile row (row.withPolicy p)) :
    Fresh u (withPolicy u fails s siteID p rebuilt) := by
  cases rebuilt with
  | false => exact fresh_alter hs (fun _ => rfl) (h (.inl rfl))
  | true => exact fresh_rebuildOriginIndex fun hf => fresh_alter hs (fun _ => rfl) (h (.inr hf))

private theorem fresh_insert (hs : Fresh u s) {row : SiteRow} (h : row.allowedOrigins = []) :
    Fresh u (s.insert row) := by
  unfold Fresh at hs ⊢
  rw [State.insert, rebuild_insert h]
  exact hs

private theorem fresh_create {req : CreateSiteRequest} (hs : Fresh u s)
    (h : KeepsIndex u s ⟨.create (some req), fails⟩) : Fresh u (create u fails s req).1 := by
  rcases create_cases u fails s req with ⟨hsame, -⟩ | ⟨row, hins, hcase⟩
  · rwa [hsame]
  obtain ⟨site, -, hsite⟩ := createSite_ok hins.created
  have hempty : row.allowedOrigins = [] := by rw [hsite]; rfl
  have hinsert := fresh_insert hs hempty
  rcases hcase with ⟨hstate, -⟩ | ⟨policy, p, hpol, hstate⟩
  · rwa [hstate]
  rw [hstate]
  refine fresh_withPolicy hinsert fun hreb r hr hrid => ?_
  simp only [State.insert, List.mem_append, List.mem_singleton] at hr
  rcases hr with hr | rfl
  · exact absurd hrid (createSite_fresh hins.created hpol.siteID_ne r hr)
  · exact h r policy p hins hpol (by simpa using hreb)

private theorem fresh_update {req : UpdateSiteRequest} (hwf : WellFormed u.toLookupProfile s.rows)
    (hs : Fresh u s)
    (hpolicy : ∀ current p, PolicyWrite u fails s siteID req current p →
      req.allowedOrigins.isSome = true → fails .rebuild = true →
        ∀ row ∈ s.rows, row.siteID = siteID →
          SameHoldings u.toLookupProfile row (row.withPolicy p))
    (hflag : ∀ s₁, FlagWrite u fails s siteID req s₁ → ∀ row ∈ s₁.rows, row.siteID = siteID →
      SameHoldings u.toLookupProfile row (row.withEnabled req.enabled)) :
    Fresh u (updateSite u fails s siteID req).1 := by
  obtain ⟨s₁, currency, tz, enabled, hs₁, hen, hstate⟩ := updateSite_cases u fails s siteID req
  have hfresh : Fresh u s₁ := by
    rcases hs₁ with ⟨rfl, -⟩ | ⟨current, p, hw, rfl⟩
    · exact hs
    refine fresh_withPolicy hs fun hreb row hrow hrid => ?_
    cases hreq : req.allowedOrigins with
    | none => exact sameHoldings_of_eq rfl (origins_kept hw hwf hreq row hrow hrid)
    | some raws =>
      refine hpolicy current p hw (by simp [hreq]) ?_ row hrow hrid
      simpa [hreq] using hreb
  rw [hstate]
  refine fresh_alter hfresh (fun _ => rfl) fun row hrow hrid => ?_
  rcases hen with rfl | ⟨rfl, hw⟩
  · exact sameHoldings_of_eq rfl rfl
  · exact hflag s₁ hw row hrow hrid

theorem fresh_step {t : State} {r : Served} (hwf : WellFormed u.toLookupProfile s.rows)
    (hs : Fresh u s) (hP : KeepsIndex u s r) (h : step u s r = some t) : Fresh u t := by
  obtain rfl := Option.some.inj h
  obtain ⟨request, fails⟩ := r
  cases request with
  | create body => cases body with
    | none => exact hs
    | some req =>
      simp only [handle]
      exact fresh_create hs hP
  | update siteIDParam body =>
    cases hparse : AuthGuards.parseSiteID siteIDParam with
    | none => simpa [handle, hparse] using hs
    | some siteID => cases body with
      | none => simpa [handle, hparse] using hs
      | some req =>
        simp only [handle, hparse]
        obtain ⟨hpolicy, hflag⟩ := hP siteID hparse
        exact fresh_update hwf hs hpolicy hflag
  | reload =>
    simp only [handle]
    exact fresh_rebuildOriginIndex fun _ => hs

/-- A run whose unrebuilt writes leave what the sites hold keeps the index coherent. -/
theorem index_coherent (u : SiteTables) {s : State} (hwf : WellFormed u.toLookupProfile s.rows)
    (hs : Fresh u s) {es : List Served} (h : Along (step u) (KeepsIndex u) s es) :
    Throughout (step u) (Coherent u) s es := by
  have hrun := throughout_of_along (I := fun s => WellFormed u.toLookupProfile s.rows ∧ Fresh u s)
    (fun s r t hI hP h => ⟨wellFormed_step hI.1 h, fresh_step hI.1 hI.2 hP h⟩) h ⟨hwf, hs⟩
  exact hrun.mono fun s hI => coherent_of_fresh hI.2

def shopRequest : Served :=
  ⟨.create (some { hostname := "shop.example", allowedOrigins := some ["https://shop.example"] }),
    answered⟩

def emptyState : State := ⟨[], some (rebuildFromSites sampleTables.toLookupProfile [])⟩

theorem index_coherent_create :
    Throughout (step sampleTables) (Coherent sampleTables) emptyState [shopRequest] :=
  index_coherent sampleTables (s := emptyState) (wellFormed_nil _) rfl
    ⟨fun _ _ _ _ _ hf => absurd hf (by decide), fun _ _ => trivial⟩

/-- The origin of a site that has been disabled is still resolved. -/
theorem disabled_origin_resolves : ¬ Throughout (step sampleTables) (Coherent sampleTables)
    emptyState [shopRequest, ⟨.update "1" (some { enabled := some false }), answered⟩] := by
  intro h
  have hcoherent := (h.2 _ rfl).2 _ rfl "https://shop.example"
  revert hcoherent
  decide +kernel

end Statnive.IndexCoherence
