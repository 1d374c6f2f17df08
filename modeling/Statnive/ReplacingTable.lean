import Mathlib.Data.Int.Notation
import Mathlib.Data.List.Basic
import Mathlib.Data.List.Find
import Mathlib.Tactic.Common

/-!
# Tables that replace rows by version

A table keeps one row for each key. A row that is inserted under the key of another one
replaces it unless the other has a later version. Rows are also looked up by an attribute
that determines the key.
-/

namespace Statnive.ReplacingTable

variable {α κ : Type*} [DecidableEq κ] (key : α → κ) (version : α → ℤ)

/-- The row that stays of two rows with one key, `row` the later one to be inserted. -/
def newer (old row : α) : α := if version old ≤ version row then row else old

/-- The visible rows after `row` is inserted. -/
def insert (rows : List α) (row : α) : List α :=
  if rows.any (fun r => key r = key row) then
    rows.map (fun r => if key r = key row then newer version r row else r)
  else rows ++ [row]

variable {key version}

theorem newer_eq_or (version : α → ℤ) (old row : α) :
    newer version old row = row ∨ newer version old row = old := by
  by_cases h : version old ≤ version row
  · exact Or.inl (if_pos h)
  · exact Or.inr (if_neg h)

/-- A visible row is one under another key, or the one that stays, or the first of its key. -/
theorem mem_insert_cases {rows : List α} {row r : α} (h : r ∈ insert key version rows row) :
    (r ∈ rows ∧ key r ≠ key row) ∨
      (∃ old ∈ rows, key old = key row ∧ r = newer version old row) ∨
      ((∀ old ∈ rows, key old ≠ key row) ∧ r = row) := by
  by_cases hany : rows.any (fun r => key r = key row) = true
  · simp only [insert, hany, if_true, List.mem_map] at h
    obtain ⟨old, hold, rfl⟩ := h
    by_cases hk : key old = key row
    · rw [if_pos hk]
      exact Or.inr (Or.inl ⟨old, hold, hk, rfl⟩)
    · rw [if_neg hk]
      exact Or.inl ⟨hold, hk⟩
  · have hnone : ∀ old ∈ rows, key old ≠ key row := by simpa using hany
    simp only [insert, hany, Bool.false_eq_true, if_false, List.mem_append,
      List.mem_singleton] at h
    rcases h with h | rfl
    · exact Or.inl ⟨h, hnone r h⟩
    · exact Or.inr (Or.inr ⟨hnone, rfl⟩)

theorem mem_insert {rows : List α} {row r : α} (h : r ∈ insert key version rows row) :
    r = row ∨ r ∈ rows := by
  rcases mem_insert_cases h with ⟨hmem, -⟩ | ⟨old, hold, -, rfl⟩ | ⟨-, rfl⟩
  · exact Or.inr hmem
  · rcases newer_eq_or version old row with he | he
    · exact Or.inl he
    · exact Or.inr (he.symm ▸ hold)
  · exact Or.inl rfl

/-- A row under another key stays as it is. -/
theorem mem_insert_of_ne {rows : List α} {row r : α} (h : key r ≠ key row) :
    r ∈ insert key version rows row ↔ r ∈ rows := by
  constructor
  · intro hr
    rcases mem_insert_cases hr with ⟨hmem, -⟩ | ⟨old, hold, hk, rfl⟩ | ⟨-, rfl⟩
    · exact hmem
    · rcases newer_eq_or version old row with he | he
      · exact absurd (congrArg key he) h
      · exact he.symm ▸ hold
    · exact absurd rfl h
  · intro hr
    by_cases hany : rows.any (fun r => key r = key row) = true
    · rw [insert, if_pos hany]
      exact List.mem_map.mpr ⟨r, hr, if_neg h⟩
    · rw [insert, if_neg hany]
      exact List.mem_append_left _ hr

theorem newer_mem_insert {rows : List α} {row old : α} (hold : old ∈ rows)
    (hk : key old = key row) : newer version old row ∈ insert key version rows row := by
  have hany : rows.any (fun r => key r = key row) = true :=
    List.any_eq_true.mpr ⟨old, hold, by simpa using hk⟩
  rw [insert, if_pos hany]
  exact List.mem_map.mpr ⟨old, hold, if_pos hk⟩

/-- A row that is at least as late as those of its key replaces them. -/
theorem mem_insert_latest {rows : List α} {row : α}
    (hlatest : ∀ old ∈ rows, key old = key row → version old ≤ version row) (r : α) :
    r ∈ insert key version rows row ↔ r = row ∨ r ∈ rows ∧ key r ≠ key row := by
  constructor
  · intro hr
    rcases mem_insert_cases hr with ⟨hmem, hne⟩ | ⟨old, hold, hk, rfl⟩ | ⟨-, rfl⟩
    · exact Or.inr ⟨hmem, hne⟩
    · exact Or.inl (if_pos (hlatest old hold hk))
    · exact Or.inl rfl
  · rintro (rfl | ⟨hmem, hne⟩)
    · by_cases hany : ∃ old ∈ rows, key old = key r
      · obtain ⟨old, hold, hk⟩ := hany
        have hin : newer version old r ∈ insert key version rows r := newer_mem_insert hold hk
        rwa [newer, if_pos (hlatest old hold hk)] at hin
      · push Not at hany
        have hnone : ¬ rows.any (fun old => key old = key r) = true := by simpa using hany
        simp [insert, hnone]
    · exact (mem_insert_of_ne hne).mpr hmem

/-- An insert keeps one row for each key. -/
theorem nodup_insert {rows : List α} {row : α} (h : (rows.map key).Nodup) :
    ((insert key version rows row).map key).Nodup := by
  by_cases hany : rows.any (fun r => key r = key row) = true
  · have hsame : (insert key version rows row).map key = rows.map key := by
      rw [insert, if_pos hany, List.map_map]
      refine List.map_congr_left fun r _ => ?_
      by_cases hk : key r = key row
      · rcases newer_eq_or version r row with he | he <;> simp [hk, he]
      · simp [hk]
    exact hsame ▸ h
  · have hnone : ∀ r ∈ rows, key r ≠ key row := by simpa using hany
    rw [insert, if_neg hany, List.map_append, List.map_singleton]
    exact List.nodup_append.mpr ⟨h, by simp, by simpa using hnone⟩

/-- An insert changes nothing exactly when each row of the key, of which there is one, is the
one that stays. -/
theorem insert_same_iff {rows : List α} {row : α} :
    (∀ r, r ∈ insert key version rows row ↔ r ∈ rows) ↔
      (∃ old ∈ rows, key old = key row) ∧
        ∀ old ∈ rows, key old = key row → newer version old row = old := by
  constructor
  · intro h
    constructor
    · by_contra hnone
      push Not at hnone
      have hany : ¬ rows.any (fun r => key r = key row) = true := by simpa using hnone
      have hrow : row ∈ insert key version rows row := by simp [insert, hany]
      exact hnone row ((h row).mp hrow) rfl
    · intro old hold hk
      rcases mem_insert_cases ((h old).mpr hold) with ⟨-, hne⟩ | ⟨other, -, -, he⟩ | ⟨hnone, -⟩
      · exact absurd hk hne
      · rcases newer_eq_or version other row with hrow | hother
        · rw [he.trans hrow]
          exact if_pos le_rfl
        · obtain rfl : old = other := he.trans hother
          exact hother
      · exact absurd hk (hnone old hold)
  · rintro ⟨⟨old, hold, hk⟩, hsame⟩ r
    by_cases hr : key r = key row
    · constructor
      · intro hmem
        rcases mem_insert_cases hmem with ⟨hin, -⟩ | ⟨other, hother, hko, rfl⟩ | ⟨hnone, -⟩
        · exact hin
        · exact (hsame other hother hko).symm ▸ hother
        · exact absurd hk (hnone old hold)
      · intro hmem
        have hin : newer version r row ∈ insert key version rows row := newer_mem_insert hmem hr
        rwa [hsame r hmem hr] at hin
    · exact mem_insert_of_ne hr

/-- Looked up by an attribute of the rows with its key, the row that stays is found. -/
theorem find?_insert {rows : List α} {row old : α} {p : α → Bool} (hfind : rows.find? p = some old)
    (hkey : ∀ r ∈ rows, p r = true ↔ key r = key row) (hrow : p row = true) :
    (insert key version rows row).find? p = some (newer version old row) := by
  have hold : key old = key row :=
    (hkey old (List.mem_of_find?_eq_some hfind)).mp (List.find?_some hfind)
  have hany : rows.any (fun r => key r = key row) = true :=
    List.any_eq_true.mpr ⟨old, List.mem_of_find?_eq_some hfind, by simpa using hold⟩
  have hsame : ∀ r ∈ rows,
      (p ∘ fun r => if key r = key row then newer version r row else r) r = p r := by
    intro r hr
    by_cases hk : key r = key row
    · have hpr : p r = true := (hkey r hr).mpr hk
      rcases newer_eq_or version r row with he | he <;> simp [hk, he, hrow, hpr]
    · simp [hk]
  rw [insert, if_pos hany, List.find?_map, List.find?_congr hsame, hfind]
  simp [hold]

/-- A row without the attribute leaves the look-up as it was. -/
theorem find?_insert_of_not {rows : List α} {row : α} {p : α → Bool}
    (hkey : ∀ r ∈ rows, p r = true → key r ≠ key row) (hrow : p row = false) :
    (insert key version rows row).find? p = rows.find? p := by
  by_cases hany : rows.any (fun r => key r = key row) = true
  · have hsame : ∀ r ∈ rows,
        (p ∘ fun r => if key r = key row then newer version r row else r) r = p r := by
      intro r hr
      by_cases hk : key r = key row
      · have hpr : p r = false := by simpa using fun h => hkey r hr h hk
        rcases newer_eq_or version r row with he | he <;> simp [hk, he, hrow, hpr]
      · simp [hk]
    rw [insert, if_pos hany, List.find?_map, List.find?_congr hsame]
    cases hfind : rows.find? p with
    | none => rfl
    | some r =>
      have hk : key r ≠ key row := hkey r (List.mem_of_find?_eq_some hfind) (List.find?_some hfind)
      simp [hk]
  · rw [insert, if_neg hany, List.find?_append]
    simp [hrow]

/-- A row under a new key is found by the attributes that no other row has. -/
theorem find?_insert_new {rows : List α} {row : α} {p : α → Bool}
    (hnew : ∀ r ∈ rows, key r ≠ key row) (hnone : rows.find? p = none) (hrow : p row = true) :
    (insert key version rows row).find? p = some row := by
  have hany : ¬ rows.any (fun r => key r = key row) = true := by simpa using hnew
  rw [insert, if_neg hany, List.find?_append, hnone]
  simp [hrow]

end Statnive.ReplacingTable
