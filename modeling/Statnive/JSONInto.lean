import Mathlib.Data.List.Forall2
import Statnive.JSONText

/-!
# JSON values into typed targets

What `json.Unmarshal` does with a value and a target that is not zero any more: `null` leaves
a string or a number as it is, a member overwrites what an earlier one with the same name has
set, and a slice keeps the cells that it grew to.
-/

namespace Statnive.JSONInto

open PrivacyPolicy VisitorIdentity JSONText
open SuppressionRecord (toUpper formatInt isDigit digitsValue digits)

/-- A target of the type takes a value, or refuses it. -/
abbrev Into (α : Type) := α → JSON → Option α

/-- Bytes that are the UTF-8 of a text, as that text. -/
def text (bs : Bytes) : String := (String.fromUTF8? bs.toByteArray).getD ""

theorem toByteArray_utf8 (s : String) : (utf8 s).toByteArray = s.toByteArray :=
  String.utf8Encode_toList

@[simp] theorem text_utf8 (s : String) : text (utf8 s) = s := by
  have hvalid : (utf8 s).toByteArray.IsValidUTF8 := by
    rw [toByteArray_utf8]
    exact s.isValidUTF8
  have hsome : String.fromUTF8? (utf8 s).toByteArray = some s := by
    rw [String.fromUTF8?, dif_pos hvalid]
    exact congrArg some (String.toByteArray_inj.mp (toByteArray_utf8 s))
  rw [text, hsome, Option.getD_some]

def intoText {α : Type} (text : Bytes → α) : Into α
  | _, .string bs => some (text bs)
  | old, .null => some old
  | _, _ => none

def intoString : Into String := intoText text

/-- `strconv.ParseUint` on a number literal, and the check that the field holds it. -/
def parseUint (bits : ℕ) (ds : Bytes) : Option ℕ :=
  if ds ≠ [] ∧ ds.all isDigit ∧ digitsValue ds < 2 ^ bits then some (digitsValue ds) else none

def intoNumber {α : Type} (parse : Bytes → Option α) : Into α
  | _, .number literal => parse literal
  | old, .null => some old
  | _, _ => none

def intoBool : Into Bool
  | _, .bool b => some b
  | old, .null => some old
  | _, _ => none

/-- A slice with the cells that it has grown to; `null` gives the elements in them back. -/
structure Slice (α : Type) where
  cells : List α := []
  len : ℕ := 0

def Slice.toList {α : Type} (s : Slice α) : List α := s.cells.take s.len

def intoCells {α : Type} (into : Into α) (zero : α) : List α → List JSON → Option (List α)
  | cells, [] => some cells
  | [], v :: vs => do
    let a ← into zero v
    let cells ← intoCells into zero [] vs
    some (a :: cells)
  | c :: cells, v :: vs => do
    let a ← into c v
    let cells ← intoCells into zero cells vs
    some (a :: cells)

def intoSlice {α : Type} (into : Into α) (zero : α) : Into (Slice α)
  | _, .array [] => some {}
  | old, .array vs => (intoCells into zero old.cells vs).map fun cells => ⟨cells, vs.length⟩
  | _, .null => some {}
  | _, _ => none

def intoPointer {α : Type} (into : Into α) (zero : α) : Into (Option α)
  | _, .null => some none
  | old, v => (into (old.getD zero) v).map some

/-- A map is the list of its entries. -/
def setEntry {α : Type} (key : String) (v : α) : List (String × α) → List (String × α)
  | [] => [(key, v)]
  | e :: es => if e.1 = key then (key, v) :: es else e :: setEntry key v es

def setEntries {α : Type} (into : Into α) (zero : α) (m : List (String × α))
    (member : Bytes × JSON) : Option (List (String × α)) :=
  (into zero member.2).map fun v => setEntry (text member.1) v m

def intoMap {α : Type} (into : Into α) (zero : α) : Into (List (String × α))
  | m, .object members => members.foldlM (setEntries into zero) m
  | _, .null => some []
  | _, _ => none

/-- Names are compared without regard to case; `ſ` is an `s` and the Kelvin sign a `k`. -/
def foldKey : Bytes → Bytes
  | 0xC5 :: 0xBF :: bs => 0x53 :: foldKey bs
  | 0xE2 :: 0x84 :: 0xAA :: bs => 0x4B :: foldKey bs
  | b :: bs => toUpper b :: foldKey bs
  | [] => []

structure StructField (σ : Type) where
  name : Bytes
  into : Into σ

/-- A field of a struct by its place in it. -/
def structField {σ α : Type} (name : String) (into : Into α) (get : σ → α) (set : σ → α → σ) :
    StructField σ :=
  ⟨utf8 name, fun s v => (into (get s) v).map (set s)⟩

variable {σ : Type}

/-- A member whose name is no field is passed over. -/
def setMember (fields : List (StructField σ)) (s : σ) (member : Bytes × JSON) : Option σ :=
  match fields.find? (fun f => foldKey f.name = foldKey member.1) with
  | some f => f.into s member.2
  | none => some s

def intoStruct (fields : List (StructField σ)) : Into σ
  | s, .object members => members.foldlM (setMember fields) s
  | s, .null => some s
  | _, _ => none

/-- With `DisallowUnknownFields`. -/
def setMemberStrict (fields : List (StructField σ)) (s : σ) (member : Bytes × JSON) : Option σ :=
  match fields.find? (fun f => foldKey f.name = foldKey member.1) with
  | some f => f.into s member.2
  | none => none

def intoStrict (fields : List (StructField σ)) : Into σ
  | s, .object members => members.foldlM (setMemberStrict fields) s
  | s, .null => some s
  | _, _ => none

/-- `json.Unmarshal` into a zero value. -/
def unmarshal {α : Type} (into : Into α) (zero : α) (bs : Bytes) : Option α :=
  (read bs).bind (into zero)

/-- `Decode` reads the first value and leaves what follows it. -/
def decodeFirst {α : Type} (into : Into α) (zero : α) (bs : Bytes) : Option α := do
  let (v, _) ← readValue (2 * bs.length + 2) 0 bs
  into zero v

theorem find_field {fields : List (StructField σ)} {f : StructField σ} (hf : f ∈ fields)
    (hnames : (fields.map fun f => foldKey f.name).Nodup) :
    fields.find? (fun g => foldKey g.name = foldKey f.name) = some f := by
  induction fields with
  | nil => cases hf
  | cons g fields ih =>
    rw [List.map_cons, List.nodup_cons] at hnames
    rcases List.mem_cons.mp hf with rfl | hf
    · simp
    · have hne : foldKey g.name ≠ foldKey f.name := by
        intro heq
        exact hnames.1 (heq ▸ List.mem_map_of_mem hf)
      rw [List.find?_cons_of_neg (by simpa using hne)]
      exact ih hf hnames.2

theorem setMember_field {fields : List (StructField σ)} {f : StructField σ} (hf : f ∈ fields)
    (hnames : (fields.map fun f => foldKey f.name).Nodup) (s : σ) (v : JSON) :
    setMember fields s (f.name, v) = f.into s v := by
  rw [setMember, find_field hf hnames]

theorem setMemberStrict_field {fields : List (StructField σ)} {f : StructField σ} (hf : f ∈ fields)
    (hnames : (fields.map fun f => foldKey f.name).Nodup) (s : σ) (v : JSON) :
    setMemberStrict fields s (f.name, v) = f.into s v := by
  rw [setMemberStrict, find_field hf hnames]

theorem setMember_other {fields : List (StructField σ)} {name : Bytes}
    (h : foldKey name ∉ fields.map fun f => foldKey f.name) (s : σ) (v : JSON) :
    setMember fields s (name, v) = some s := by
  have hfind : fields.find? (fun g => foldKey g.name = foldKey name) = none := by
    rw [List.find?_eq_none]
    intro f hf heq
    exact h (of_decide_eq_true heq ▸ List.mem_map_of_mem hf)
  rw [setMember, hfind]

theorem parseUint_formatInt {bits n : ℕ} (h : n < 2 ^ bits) :
    parseUint bits (formatInt n) = some n := by
  have hdigits : formatInt n = digits n := by
    rw [formatInt, if_neg (by omega), Int.natAbs_natCast]
  have hall : (digits n).all isDigit = true :=
    List.all_eq_true.mpr fun b hb => SuppressionRecord.isDigit_of_mem_digits hb
  rw [hdigits, parseUint, SuppressionRecord.digitsValue_digits,
    if_pos ⟨SuppressionRecord.digits_ne_nil n, hall, h⟩]

/-- The cells of a fresh slice are the values of its elements. -/
theorem intoSlice_fresh {α : Type} {into : Into α} {zero : α} {vs : List JSON} {as : List α}
    (h : List.Forall₂ (fun v a => into zero v = some a) vs as) :
    intoSlice into zero {} (.array vs) = some ⟨as, as.length⟩ := by
  have hcells : intoCells into zero [] vs = some as := by
    induction h with
    | nil => rfl
    | cons hv _ ih => simp [intoCells, hv, ih]
  cases h with
  | nil => rfl
  | cons hv hvs =>
    simp only [intoSlice, hcells, Option.map_some, List.length_cons, hvs.length_eq]

@[simp] theorem Slice.toList_whole {α : Type} (as : List α) :
    (Slice.mk as as.length).toList = as := List.take_length

end Statnive.JSONInto
