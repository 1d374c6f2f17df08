import Statnive.SiteRegistry

/-!
# The origin index

The map from origins to sites that cross-origin requests are resolved against, and its
rebuild from the rows of the registry.
-/

namespace Statnive.OriginIndex

open SiteOrigins SiteRegistry

abbrev OriginMap := String → Option ℕ

/-- The entries that the two loops of the rebuild visit. -/
def entries (rows : List SiteRow) : List (ℕ × String) :=
  (rows.filter SiteRow.enabled).flatMap fun s => s.allowedOrigins.map fun raw => (s.siteID, raw)

/-- One entry: the lower site id keeps an origin. -/
def addOrigin (lookup : LookupProfile) (fresh : OriginMap) (e : ℕ × String) : OriginMap :=
  match normalizeOrigin lookup e.2 with
  | none => fresh
  | some canon => match fresh canon with
    | some existing => if existing ≤ e.1 then fresh else Function.update fresh canon (some e.1)
    | none => Function.update fresh canon (some e.1)

def rebuildFromSites (lookup : LookupProfile) (rows : List SiteRow) : OriginMap :=
  (entries rows).foldl (addOrigin lookup) (fun _ => none)

/-- The index is nil before its first rebuild. -/
def indexLookup (lookup : LookupProfile) (index : Option OriginMap) (origin : String) : Option ℕ :=
  if origin = "" || origin = "null" then none
  else match index with
  | none => none
  | some m => match m origin with
    | some siteID => some siteID
    | none => match normalizeOrigin lookup origin with
      | none => none
      | some canon => match m canon with
        | some siteID => some siteID
        | none => (wwwBareToggleOrigin canon).bind m

def hasSelfHostInAnyAllowlist (lookup : LookupProfile) (index : Option OriginMap)
    (selfHost : String) : ℕ :=
  if selfHost = "" then 0
  else match normalizeOrigin lookup ("https://" ++ selfHost), index with
  | some canon, some m => (m canon).getD 0
  | _, _ => 0

/-- An enabled site that has an origin of this canonical form. -/
def Holds (lookup : LookupProfile) (row : SiteRow) (origin : String) : Prop :=
  row.enabled = true ∧ ∃ raw ∈ row.allowedOrigins, normalizeOrigin lookup raw = some origin

variable {lookup : LookupProfile}

theorem mem_entries {rows : List SiteRow} {siteID : ℕ} {raw : String} :
    (siteID, raw) ∈ entries rows ↔
      ∃ row ∈ rows, row.enabled = true ∧ row.siteID = siteID ∧ raw ∈ row.allowedOrigins := by
  simp only [entries, List.mem_flatMap, List.mem_filter, List.mem_map, Prod.mk.injEq]
  constructor
  · rintro ⟨row, ⟨hrow, hen⟩, raw', hraw, rfl, rfl⟩
    exact ⟨row, hrow, hen, rfl, hraw⟩
  · rintro ⟨row, hrow, hen, rfl, hraw⟩
    exact ⟨row, ⟨hrow, hen⟩, raw, hraw, rfl, rfl⟩

/-- What one entry does to an origin: nothing, unless it is that origin. -/
theorem addOrigin_apply (fresh : OriginMap) (e : ℕ × String) (origin : String) :
    addOrigin lookup fresh e origin =
      if normalizeOrigin lookup e.2 = some origin then
        some (match fresh origin with | some existing => min existing e.1 | none => e.1)
      else fresh origin := by
  cases hn : normalizeOrigin lookup e.2 with
  | none => simp [addOrigin, hn]
  | some canon =>
    simp only [addOrigin, hn, Option.some.injEq]
    by_cases hc : canon = origin
    · subst hc
      cases hf : fresh canon with
      | none => simp
      | some existing =>
        by_cases hle : existing ≤ e.1
        · simp [hle, hf]
        · simp [hle, Nat.min_eq_right (Nat.le_of_not_le hle)]
    · have hne : ∀ v, Function.update fresh canon v origin = fresh origin :=
        fun v => Function.update_of_ne (Ne.symm hc) v fresh
      cases hf : fresh canon with
      | none => simp [hc, hne]
      | some existing =>
        by_cases hle : existing ≤ e.1
        · simp [hle, hc]
        · simp [hle, hc, hne]

/-- The fold keeps the lowest id among the one it starts with and those of the entries. -/
theorem foldl_addOrigin (es : List (ℕ × String)) (fresh : OriginMap) (origin : String) (siteID : ℕ) :
    es.foldl (addOrigin lookup) fresh origin = some siteID ↔
      (fresh origin = some siteID ∨
        ∃ e ∈ es, normalizeOrigin lookup e.2 = some origin ∧ e.1 = siteID) ∧
      (∀ existing, fresh origin = some existing → siteID ≤ existing) ∧
      ∀ e ∈ es, normalizeOrigin lookup e.2 = some origin → siteID ≤ e.1 := by
  induction es generalizing fresh with
  | nil =>
    simp only [List.foldl_nil, List.not_mem_nil, false_and, exists_false, or_false]
    constructor
    · intro h
      exact ⟨h, fun existing he => by simp [h] at he; omega, by simp⟩
    · exact fun h => h.1
  | cons e es ih =>
    rw [List.foldl_cons, ih]
    rw [addOrigin_apply]
    by_cases hn : normalizeOrigin lookup e.2 = some origin
    · cases hf : fresh origin with
      | none =>
        simp only [hn, if_true, Option.some.injEq, List.mem_cons]
        grind
      | some existing =>
        simp only [hn, if_true, Option.some.injEq, List.mem_cons]
        grind
    · simp only [hn, if_false, List.mem_cons]
      grind

private theorem foldl_addOrigin_none
    (es : List (ℕ × String)) (fresh : OriginMap) (origin : String) :
    es.foldl (addOrigin lookup) fresh origin = none ↔
      fresh origin = none ∧ ∀ e ∈ es, normalizeOrigin lookup e.2 ≠ some origin := by
  induction es generalizing fresh with
  | nil => simp
  | cons e es ih =>
    rw [List.foldl_cons, ih, addOrigin_apply]
    by_cases hn : normalizeOrigin lookup e.2 = some origin
    · simp [hn]
    · simp [hn]

/-- An entry for an origin is an enabled site that holds it. -/
theorem exists_entry {rows : List SiteRow} {origin : String} {p : ℕ → Prop} :
    (∃ e ∈ entries rows, normalizeOrigin lookup e.2 = some origin ∧ p e.1) ↔
      ∃ row ∈ rows, Holds lookup row origin ∧ p row.siteID := by
  constructor
  · rintro ⟨⟨siteID, raw⟩, hmem, hn, hp⟩
    obtain ⟨row, hrow, hen, rfl, hraw⟩ := mem_entries.mp hmem
    exact ⟨row, hrow, ⟨hen, raw, hraw, hn⟩, hp⟩
  · rintro ⟨row, hrow, ⟨hen, raw, hraw, hn⟩, hp⟩
    exact ⟨(row.siteID, raw), mem_entries.mpr ⟨row, hrow, hen, rfl, hraw⟩, hn, hp⟩

theorem forall_entry {rows : List SiteRow} {origin : String} {p : ℕ → Prop} :
    (∀ e ∈ entries rows, normalizeOrigin lookup e.2 = some origin → p e.1) ↔
      ∀ row ∈ rows, Holds lookup row origin → p row.siteID := by
  have h : (¬ ∃ e ∈ entries rows, normalizeOrigin lookup e.2 = some origin ∧ ¬ p e.1) ↔
      ¬ ∃ row ∈ rows, Holds lookup row origin ∧ ¬ p row.siteID :=
    not_congr (exists_entry (p := fun siteID => ¬ p siteID))
  push Not at h
  exact h

theorem rebuild_some_iff {rows : List SiteRow} {origin : String} {siteID : ℕ} :
    rebuildFromSites lookup rows origin = some siteID ↔
      (∃ row ∈ rows, Holds lookup row origin ∧ row.siteID = siteID) ∧
        ∀ row ∈ rows, Holds lookup row origin → siteID ≤ row.siteID := by
  rw [rebuildFromSites, foldl_addOrigin, forall_entry (p := fun id => siteID ≤ id),
    exists_entry (p := fun id => id = siteID)]
  simp

theorem rebuild_none_iff {rows : List SiteRow} {origin : String} :
    rebuildFromSites lookup rows origin = none ↔ ∀ row ∈ rows, ¬ Holds lookup row origin := by
  rw [rebuildFromSites, foldl_addOrigin_none, ← forall_entry (p := fun _ => False)]
  simp

/-- A rebuild depends on the rows only through who holds what. -/
theorem rebuild_congr {rows rows' : List SiteRow}
    (h : ∀ origin siteID, (∃ row ∈ rows, Holds lookup row origin ∧ row.siteID = siteID) ↔
      ∃ row ∈ rows', Holds lookup row origin ∧ row.siteID = siteID) :
    rebuildFromSites lookup rows = rebuildFromSites lookup rows' := by
  funext origin
  have hbound (siteID : ℕ) (rows : List SiteRow) :
      (∀ row ∈ rows, Holds lookup row origin → siteID ≤ row.siteID) ↔
        ∀ id, (∃ row ∈ rows, Holds lookup row origin ∧ row.siteID = id) → siteID ≤ id := by
    constructor
    · rintro hle id ⟨row, hrow, hold, rfl⟩
      exact hle row hrow hold
    · exact fun hle row hrow hold => hle row.siteID ⟨row, hrow, hold, rfl⟩
  apply Option.ext
  intro siteID
  simp only [rebuild_some_iff, hbound, h]

end Statnive.OriginIndex
