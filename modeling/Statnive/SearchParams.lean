import Statnive.FormEncoding
import Statnive.UnicodeText

/-!
# Search parameters

The name-value list behind a query string, with the names and values in scalar values.
-/

namespace Statnive.SearchParams

open UnicodeText

structure URLSearchParams where
  list : List (String × String)
deriving DecidableEq

namespace URLSearchParams

def empty : URLSearchParams := ⟨[]⟩

def get (p : URLSearchParams) (name : String) : Option CodeUnits :=
  (p.list.find? fun e => e.1 = name).map fun e => toCodeUnits e.2

def getAll (p : URLSearchParams) (name : String) : List CodeUnits :=
  (p.list.filter fun e => e.1 = name).map fun e => toCodeUnits e.2

def append (p : URLSearchParams) (name : String) (value : CodeUnits) : URLSearchParams :=
  ⟨p.list ++ [(name, fromUnits value)]⟩

def setFirst : List (String × String) → String → String → List (String × String)
  | [], name, value => [(name, value)]
  | e :: list, name, value =>
    if e.1 = name then (name, value) :: list.filter (fun e => e.1 ≠ name)
    else e :: setFirst list name value

/-- The first value of the name is set and the others are removed. -/
def set (p : URLSearchParams) (name : String) (value : CodeUnits) : URLSearchParams :=
  ⟨setFirst p.list name (fromUnits value)⟩

def toString (p : URLSearchParams) : Bytes :=
  FormEncoding.serialize (p.list.map fun e => (toUtf8 e.1, toUtf8 e.2))

/-- The constructor passes over a leading `?`. -/
def ofString (query : Bytes) : URLSearchParams :=
  let query := if query.head? = some 0x3F then query.tail else query
  ⟨(FormEncoding.parse query).map fun e => (fromUtf8 e.1, fromUtf8 e.2)⟩

private theorem setFirst_of_not_mem {list : List (String × String)} {name : String} (value : String)
    (h : name ∉ list.map Prod.fst) : setFirst list name value = list ++ [(name, value)] := by
  induction list with
  | nil => rfl
  | cons e list ih =>
    rw [List.map_cons, List.mem_cons, not_or] at h
    rw [setFirst, if_neg (Ne.symm h.1), ih h.2]
    rfl

theorem set_of_not_mem {p : URLSearchParams} {name : String} (value : CodeUnits)
    (h : name ∉ p.list.map Prod.fst) : p.set name value = p.append name value :=
  congrArg URLSearchParams.mk (setFirst_of_not_mem _ h)

theorem mem_toString {p : URLSearchParams} {b : UInt8} (h : b ∈ p.toString) :
    FormEncoding.isFormByte b = true ∨ b = 0x3D ∨ b = 0x26 :=
  FormEncoding.mem_serialize h

private theorem head?_toString_ne (p : URLSearchParams) : p.toString.head? ≠ some 0x3F := by
  intro h
  obtain ⟨rest, hrest⟩ := List.head?_eq_some_iff.mp h
  have hmem : (0x3F : UInt8) ∈ p.toString := hrest ▸ List.mem_cons_self
  exact absurd (mem_toString hmem) (by decide)

/-- The list is read back from its query string. -/
theorem ofString_toString (p : URLSearchParams) : ofString p.toString = p := by
  rw [ofString, if_neg (head?_toString_ne p), toString, FormEncoding.parse_serialize,
    List.map_map]
  have hread : (fun e : Bytes × Bytes => (fromUtf8 e.1, fromUtf8 e.2)) ∘
      (fun e : String × String => (toUtf8 e.1, toUtf8 e.2)) = id := by
    funext e
    simp [fromUtf8_toUtf8]
  rw [hread, List.map_id]

end URLSearchParams

end Statnive.SearchParams
