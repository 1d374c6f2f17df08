import Mathlib.Algebra.Ring.Nat
import Mathlib.Data.List.Sort
import Mathlib.Data.List.Nodup
import Statnive.UnicodeText

/-!
# Plain objects

A script object that holds values under string names. Its own keys are listed with the array
indices first, in ascending order, and the other names in the order of their creation.
-/

namespace Statnive.PlainObject

open UnicodeText

variable {V : Type*}

structure Record (V : Type*) where
  entries : List (CodeUnits × V)
  nodup : (entries.map Prod.fst).Nodup
deriving DecidableEq

def isDigit (u : UInt16) : Bool := 0x30 ≤ u.toNat && u.toNat ≤ 0x39

def numeral (name : CodeUnits) : ℕ := name.foldl (fun n u => 10 * n + (u.toNat - 0x30)) 0

/-- A canonical decimal below 2^32 - 1. -/
def isArrayIndex (name : CodeUnits) : Bool :=
  name ≠ [] && name.all isDigit && (name.head? ≠ some 0x30 || name.length = 1) &&
    numeral name < 2 ^ 32 - 1

namespace Record

def empty : Record V := ⟨[], List.nodup_nil⟩

/-- The value of an own property. -/
def get (r : Record V) (name : CodeUnits) : Option V :=
  (r.entries.find? fun e => e.1 = name).map Prod.snd

/-- `Object.keys` -/
def keys (r : Record V) : List CodeUnits :=
  ((r.entries.map Prod.fst).filter isArrayIndex).mergeSort (fun a b => numeral a ≤ numeral b) ++
    (r.entries.map Prod.fst).filter (fun name => !isArrayIndex name)

def defineEntries : List (CodeUnits × V) → CodeUnits → V → List (CodeUnits × V)
  | [], name, value => [(name, value)]
  | e :: entries, name, value =>
    if e.1 = name then (name, value) :: entries else e :: defineEntries entries name value

private theorem mem_defineEntries_fst
    {entries : List (CodeUnits × V)} {name : CodeUnits} {value : V}
    {other : CodeUnits} (h : other ∈ (defineEntries entries name value).map Prod.fst) :
    other = name ∨ other ∈ entries.map Prod.fst := by
  induction entries with
  | nil => exact .inl (by simpa [defineEntries] using h)
  | cons e entries ih =>
    rw [defineEntries] at h
    split_ifs at h with he
    · rw [List.map_cons, List.mem_cons] at h ⊢
      exact h.imp id .inr
    · rw [List.map_cons, List.mem_cons] at h ⊢
      rcases h with h | h
      · exact .inr (.inl h)
      · exact (ih h).imp id .inr

private theorem nodup_defineEntries {entries : List (CodeUnits × V)} (name : CodeUnits) (value : V)
    (h : (entries.map Prod.fst).Nodup) :
    ((defineEntries entries name value).map Prod.fst).Nodup := by
  induction entries with
  | nil => simp [defineEntries]
  | cons e entries ih =>
    rw [List.map_cons, List.nodup_cons] at h
    rw [defineEntries]
    split_ifs with he
    · rw [List.map_cons, List.nodup_cons]
      exact ⟨he ▸ h.1, h.2⟩
    · rw [List.map_cons, List.nodup_cons]
      refine ⟨fun hmem => ?_, ih h.2⟩
      rcases mem_defineEntries_fst hmem with hname | hold
      · exact he hname
      · exact h.1 hold

/-- An own property is created or overwritten. -/
def define (r : Record V) (name : CodeUnits) (value : V) : Record V :=
  ⟨defineEntries r.entries name value, nodup_defineEntries name value r.nodup⟩

def proto : CodeUnits := toCodeUnits "__proto__"

/-- `r[name] = value`: the inherited setter of `__proto__` passes over a value that is no
object. -/
def assign (r : Record V) (name : CodeUnits) (value : V) : Record V :=
  if name = proto ∧ r.get name = none then r else r.define name value

def delete (r : Record V) (name : CodeUnits) : Record V :=
  ⟨r.entries.filter (fun e => e.1 ≠ name),
    r.nodup.sublist (List.filter_sublist.map Prod.fst)⟩

/-- Two records have the same properties. -/
def Same (r s : Record V) : Prop := ∀ name, r.get name = s.get name

theorem Same.refl (r : Record V) : Same r r := fun _ => rfl

theorem Same.symm {r s : Record V} (h : Same r s) : Same s r := fun name => (h name).symm

theorem Same.trans {r s t : Record V} (h : Same r s) (h' : Same s t) : Same r t :=
  fun name => (h name).trans (h' name)

@[simp] theorem get_empty (name : CodeUnits) : (empty : Record V).get name = none := rfl

theorem get_define (r : Record V) (name : CodeUnits) (value : V) (other : CodeUnits) :
    (r.define name value).get other = if other = name then some value else r.get other := by
  obtain ⟨entries, hnodup⟩ := r
  simp only [get, define]
  clear hnodup
  induction entries with
  | nil =>
    by_cases h : other = name
    · simp [defineEntries, h]
    · simp [defineEntries, h, Ne.symm h]
  | cons e entries ih =>
    rw [defineEntries]
    split_ifs with he ho ho
    · simp [ho]
    · have hne : ¬ name = other := fun heq => ho heq.symm
      have hne' : ¬ e.1 = other := he ▸ hne
      simp [hne, hne']
    · have hne : ¬ e.1 = other := ho ▸ he
      rw [List.find?_cons_of_neg (by simpa using hne), ih, if_pos ho]
    · by_cases hother : e.1 = other
      · simp [hother]
      · rw [List.find?_cons_of_neg (by simpa using hother),
          List.find?_cons_of_neg (by simpa using hother), ih, if_neg ho]

theorem get_delete (r : Record V) (name other : CodeUnits) :
    (r.delete name).get other = if other = name then none else r.get other := by
  simp only [get, delete, List.find?_filter]
  split_ifs with h
  · rw [Option.map_eq_none_iff, List.find?_eq_none]
    intro e _ he
    simp [h] at he
  · congr 2
    funext e
    by_cases he : e.1 = other
    · simp [he, h]
    · simp [he]

theorem get_assign {r : Record V} {name : CodeUnits} (h : name ≠ proto) (value : V) :
    r.assign name value = r.define name value := by
  rw [assign, if_neg fun hproto => h hproto.1]

theorem mem_keys_iff {r : Record V} {name : CodeUnits} :
    name ∈ r.keys ↔ ∃ value, r.get name = some value := by
  have hkeys : name ∈ r.keys ↔ name ∈ r.entries.map Prod.fst := by
    rw [keys, List.mem_append, List.mem_mergeSort, List.mem_filter, List.mem_filter]
    cases isArrayIndex name <;> simp
  rw [hkeys, ← Option.isSome_iff_exists, get, Option.isSome_map, List.find?_isSome]
  simp

theorem keys_perm (r : Record V) : r.keys.Perm (r.entries.map Prod.fst) := by
  rw [keys]
  exact ((List.mergeSort_perm _ _).append_right _).trans
    (List.filter_append_perm isArrayIndex _)

theorem nodup_keys (r : Record V) : r.keys.Nodup := r.keys_perm.nodup_iff.mpr r.nodup

/-- As many keys, and the same value for each key of the first. -/
theorem same_iff {r s : Record V} :
    Same r s ↔ r.keys.length = s.keys.length ∧ ∀ name ∈ r.keys, r.get name = s.get name := by
  constructor
  · intro h
    have hperm : r.keys.Perm s.keys := by
      apply (List.perm_ext_iff_of_nodup r.nodup_keys s.nodup_keys).mpr
      intro name
      rw [mem_keys_iff, mem_keys_iff, h name]
    exact ⟨hperm.length_eq, fun name _ => h name⟩
  · rintro ⟨hlength, hget⟩ name
    have hsubset : r.keys ⊆ s.keys := by
      intro other hother
      obtain ⟨value, hvalue⟩ := mem_keys_iff.mp hother
      exact mem_keys_iff.mpr ⟨value, (hget other hother) ▸ hvalue⟩
    have hperm : r.keys.Perm s.keys :=
      (List.subperm_of_subset r.nodup_keys hsubset).perm_of_length_le hlength.ge
    by_cases hname : name ∈ r.keys
    · exact hget name hname
    · have hr : r.get name = none := by
        by_contra hsome
        exact hname (mem_keys_iff.mpr (Option.ne_none_iff_exists'.mp hsome))
      have hs : s.get name = none := by
        by_contra hsome
        exact hname (hperm.mem_iff.mpr (mem_keys_iff.mpr (Option.ne_none_iff_exists'.mp hsome)))
      rw [hr, hs]

end Record

end Statnive.PlainObject
