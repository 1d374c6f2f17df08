import Mathlib.Data.List.Basic

/-!
# Form encoding

`application/x-www-form-urlencoded` over bytes: pairs are written with `=` and `&` between
components, and are read back from them.
-/

namespace Statnive.FormEncoding

/-- Alphanumerics and `*-._`. -/
def isUnreserved (b : UInt8) : Bool :=
  (0x30 ≤ b && b ≤ 0x39) || (0x41 ≤ b && b ≤ 0x5A) || (0x61 ≤ b && b ≤ 0x7A) ||
    b = 0x2A || b = 0x2D || b = 0x2E || b = 0x5F

def hexDigit (n : ℕ) : UInt8 := if n < 10 then UInt8.ofNat (0x30 + n) else UInt8.ofNat (0x37 + n)

def hexValue (b : UInt8) : Option ℕ :=
  if 0x30 ≤ b ∧ b ≤ 0x39 then some (b.toNat - 0x30)
  else if 0x41 ≤ b ∧ b ≤ 0x46 then some (b.toNat - 0x37)
  else if 0x61 ≤ b ∧ b ≤ 0x66 then some (b.toNat - 0x57)
  else none

def encodeByte (b : UInt8) : List UInt8 :=
  if b = 0x20 then [0x2B]
  else if isUnreserved b then [b]
  else [0x25, hexDigit (b.toNat / 16), hexDigit (b.toNat % 16)]

def encode (s : List UInt8) : List UInt8 := s.flatMap encodeByte

/-- A `%` that no two digits follow stands for itself. -/
def percentDecode : List UInt8 → List UInt8
  | [] => []
  | [b] => [b]
  | [b, c] => [b, c]
  | b :: c :: d :: rest =>
    if b = 0x25 then
      match hexValue c, hexValue d with
      | some hi, some lo => UInt8.ofNat (16 * hi + lo) :: percentDecode rest
      | _, _ => b :: percentDecode (c :: d :: rest)
    else b :: percentDecode (c :: d :: rest)

def plusToSpace (b : UInt8) : UInt8 := if b = 0x2B then 0x20 else b

def decode (s : List UInt8) : List UInt8 := percentDecode (s.map plusToSpace)

abbrev Pairs := List (List UInt8 × List UInt8)

def writePair (kv : List UInt8 × List UInt8) : List UInt8 := encode kv.1 ++ 0x3D :: encode kv.2

def serialize (ps : Pairs) : List UInt8 := [0x26].intercalate (ps.map writePair)

def readPair (s : List UInt8) : List UInt8 × List UInt8 :=
  (decode (s.takeWhile (· ≠ 0x3D)), decode ((s.dropWhile (· ≠ 0x3D)).drop 1))

/-- Empty sequences between two `&` are passed over. -/
def parse (s : List UInt8) : Pairs := ((s.splitOn 0x26).filter (· ≠ [])).map readPair

theorem percentDecode_cons {b : UInt8} (h : b ≠ 0x25) (rest : List UInt8) :
    percentDecode (b :: rest) = b :: percentDecode rest := by
  match rest with
  | [] => rfl
  | [c] => rfl
  | c :: d :: rest => rw [percentDecode, if_neg h]

theorem hexValue_hexDigit : ∀ n < 16, hexValue (hexDigit n) = some n := by decide

theorem plusToSpace_hexDigit : ∀ n < 16, plusToSpace (hexDigit n) = hexDigit n := by decide

theorem isUnreserved_hexDigit : ∀ n < 16, isUnreserved (hexDigit n) = true := by decide

theorem ne_of_isUnreserved {b c : UInt8} (h : isUnreserved b = true)
    (hc : isUnreserved c = false) : b ≠ c := by
  intro heq
  rw [heq, hc] at h
  cases h

/-- A byte is read back from its encoding. -/
theorem decode_encodeByte (b : UInt8) (rest : List UInt8) :
    decode (encodeByte b ++ rest) = b :: decode rest := by
  rw [encodeByte]
  split_ifs with hspace hplain
  · subst hspace
    exact percentDecode_cons (by decide) _
  · have hplus : plusToSpace b = b := if_neg (ne_of_isUnreserved hplain (by decide))
    rw [decode, List.singleton_append, List.map_cons, hplus,
      percentDecode_cons (ne_of_isUnreserved hplain (by decide))]
    rfl
  · have hb : b.toNat < 256 := UInt8.toNat_lt_size b
    have hhi : b.toNat / 16 < 16 := by omega
    have hlo : b.toNat % 16 < 16 := by omega
    have hpercent : plusToSpace 0x25 = 0x25 := rfl
    have hdigits : 16 * (b.toNat / 16) + b.toNat % 16 = b.toNat := Nat.div_add_mod _ _
    simp only [decode, List.cons_append, List.nil_append, List.map_cons, hpercent,
      plusToSpace_hexDigit _ hhi, plusToSpace_hexDigit _ hlo, percentDecode, if_true,
      hexValue_hexDigit _ hhi, hexValue_hexDigit _ hlo, hdigits, UInt8.ofNat_toNat]

private theorem decode_encode_append (s rest : List UInt8) :
    decode (encode s ++ rest) = s ++ decode rest := by
  induction s with
  | nil => rfl
  | cons b s ih =>
    rw [encode, List.flatMap_cons, List.append_assoc, decode_encodeByte]
    exact congrArg (b :: ·) ih

theorem decode_encode (s : List UInt8) : decode (encode s) = s := by
  have h := decode_encode_append s []
  rwa [List.append_nil, show decode [] = [] from rfl, List.append_nil] at h

/-- The bytes of an encoded component. -/
def isFormByte (b : UInt8) : Bool := isUnreserved b || b = 0x2B || b = 0x25

theorem isFormByte_encode {s : List UInt8} : ∀ b ∈ encode s, isFormByte b = true := by
  intro b hb
  obtain ⟨c, -, hbc⟩ := List.mem_flatMap.mp hb
  have hc : c.toNat < 256 := UInt8.toNat_lt_size c
  have hhi : c.toNat / 16 < 16 := by omega
  have hlo : c.toNat % 16 < 16 := by omega
  rw [encodeByte] at hbc
  split_ifs at hbc with hspace hplain
  · rw [List.mem_singleton.mp hbc]
    decide
  · rw [List.mem_singleton.mp hbc, isFormByte, hplain]
    rfl
  · simp only [List.mem_cons, List.not_mem_nil, or_false] at hbc
    rcases hbc with rfl | rfl | rfl
    · decide
    · rw [isFormByte, isUnreserved_hexDigit _ hhi]
      rfl
    · rw [isFormByte, isUnreserved_hexDigit _ hlo]
      rfl

theorem not_mem_encode {s : List UInt8} {b : UInt8} (h : isFormByte b = false) : b ∉ encode s := by
  intro hb
  rw [isFormByte_encode b hb] at h
  cases h

theorem takeWhile_ne_append {b : UInt8} {s t : List UInt8} (h : b ∉ s) :
    (s ++ b :: t).takeWhile (· ≠ b) = s ∧ (s ++ b :: t).dropWhile (· ≠ b) = b :: t := by
  have hall : ∀ c ∈ s, decide (c ≠ b) = true := by
    intro c hc
    have hne : c ≠ b := fun heq => h (heq ▸ hc)
    simpa using hne
  constructor
  · rw [List.takeWhile_append_of_pos hall]
    simp
  · rw [List.dropWhile_append_of_pos hall]
    simp

private theorem readPair_writePair (kv : List UInt8 × List UInt8) : readPair (writePair kv) =
    kv := by
  have hkey : (0x3D : UInt8) ∉ encode kv.1 := not_mem_encode (by decide)
  obtain ⟨htake, hdrop⟩ := takeWhile_ne_append (t := encode kv.2) hkey
  simp only [readPair, writePair, htake, hdrop, List.drop_succ_cons, List.drop_zero, decode_encode]

private theorem writePair_ne_nil (kv : List UInt8 × List UInt8) : writePair kv ≠ [] := by
  simp [writePair]

private theorem not_mem_writePair (kv : List UInt8 × List UInt8) :
    (0x26 : UInt8) ∉ writePair kv := by
  have hkey : (0x26 : UInt8) ∉ encode kv.1 := not_mem_encode (by decide)
  have hvalue : (0x26 : UInt8) ∉ encode kv.2 := not_mem_encode (by decide)
  simp [writePair, hkey, hvalue]

/-- What was written is read back. -/
theorem parse_serialize (ps : Pairs) : parse (serialize ps) = ps := by
  cases ps with
  | nil => rfl
  | cons kv ps =>
    have hsplit : (serialize (kv :: ps)).splitOn 0x26 = (kv :: ps).map writePair := by
      apply List.splitOn_intercalate
      · intro s hs
        obtain ⟨pair, -, rfl⟩ := List.mem_map.mp hs
        exact not_mem_writePair pair
      · simp
    have hfilter : ((kv :: ps).map writePair).filter (· ≠ []) = (kv :: ps).map writePair := by
      apply List.filter_eq_self.mpr
      intro s hs
      obtain ⟨pair, -, rfl⟩ := List.mem_map.mp hs
      simpa using writePair_ne_nil pair
    rw [parse, hsplit, hfilter, List.map_map]
    have hread : readPair ∘ writePair = id := funext readPair_writePair
    rw [hread, List.map_id]

/-- The bytes of a written list. -/
theorem mem_serialize {ps : Pairs} {b : UInt8} (h : b ∈ serialize ps) :
    isFormByte b = true ∨ b = 0x3D ∨ b = 0x26 := by
  induction ps with
  | nil => simp [serialize] at h
  | cons kv ps ih =>
    have hpair : b ∈ writePair kv → isFormByte b = true ∨ b = 0x3D ∨ b = 0x26 := by
      intro hb
      rcases List.mem_append.mp hb with hkey | hvalue
      · exact .inl (isFormByte_encode b hkey)
      · rcases List.mem_cons.mp hvalue with rfl | hvalue
        · exact .inr (.inl rfl)
        · exact .inl (isFormByte_encode b hvalue)
    cases ps with
    | nil => exact hpair (by simpa [serialize] using h)
    | cons next ps =>
      have happend : serialize (kv :: next :: ps) =
          writePair kv ++ 0x26 :: serialize (next :: ps) := by
        simp [serialize, List.intercalate]
      rw [happend] at h
      rcases List.mem_append.mp h with hkv | hrest
      · exact hpair hkv
      · rcases List.mem_cons.mp hrest with rfl | hrest
        · exact .inr (.inr rfl)
        · exact ih hrest

end Statnive.FormEncoding
