import Mathlib.Data.List.Basic

/-!
# Unicode text

Strings of scalar values in UTF-16 code units, which may hold lone surrogates, and in UTF-8
bytes, which may be ill formed. Both are read with U+FFFD in place of what spells no scalar value.
-/

namespace Statnive.UnicodeText

def replacement : Char := Char.ofNat 0xFFFD

abbrev CodeUnits := List UInt16

def unitsOf (c : Char) : CodeUnits :=
  if c.toNat < 0x10000 then [UInt16.ofNat c.toNat]
  else [UInt16.ofNat (0xD800 + (c.toNat - 0x10000) / 0x400),
    UInt16.ofNat (0xDC00 + (c.toNat - 0x10000) % 0x400)]

def toCodeUnits (s : String) : CodeUnits := s.toList.flatMap unitsOf

def isHigh (u : UInt16) : Bool := 0xD800 ≤ u.toNat && u.toNat < 0xDC00

def isLow (u : UInt16) : Bool := 0xDC00 ≤ u.toNat && u.toNat < 0xE000

def ofUnit (u : UInt16) : Char := if isHigh u || isLow u then replacement else Char.ofNat u.toNat

def ofPair (u v : UInt16) : Char :=
  Char.ofNat (0x10000 + (u.toNat - 0xD800) * 0x400 + (v.toNat - 0xDC00))

def scalars : CodeUnits → List Char
  | [] => []
  | [u] => [ofUnit u]
  | u :: v :: rest =>
    if isHigh u && isLow v then ofPair u v :: scalars rest else ofUnit u :: scalars (v :: rest)

/-- The string with U+FFFD for each lone surrogate. -/
def fromUnits (us : CodeUnits) : String := String.ofList (scalars us)

/-- There are no lone surrogates. -/
def IsWellFormed (us : CodeUnits) : Prop := toCodeUnits (fromUnits us) = us

instance (us : CodeUnits) : Decidable (IsWellFormed us) :=
  inferInstanceAs (Decidable (toCodeUnits (fromUnits us) = us))

theorem toNat_bounds (c : Char) :
    c.toNat < 0xD800 ∨ 0xDFFF < c.toNat ∧ c.toNat < 0x110000 := c.valid

theorem toNat_ofNat_valid {n : ℕ} (h : n.isValidChar) : (Char.ofNat n).toNat = n := by
  rw [Char.ofNat, dif_pos h]
  rfl

theorem toNat_unit {n : ℕ} (h : n < 0x10000) : (UInt16.ofNat n).toNat = n :=
  UInt16.toNat_ofNat_of_lt' h

private theorem scalars_unitsOf_append (c : Char) (rest : CodeUnits) :
    scalars (unitsOf c ++ rest) = c :: scalars rest := by
  have hc := toNat_bounds c
  rw [unitsOf]
  split_ifs with hbasic
  · have hval : (UInt16.ofNat c.toNat).toNat = c.toNat := toNat_unit hbasic
    have hhigh : isHigh (UInt16.ofNat c.toNat) = false := by
      simp only [isHigh, hval, Bool.and_eq_false_iff, decide_eq_false_iff_not]
      omega
    have hlow : isLow (UInt16.ofNat c.toNat) = false := by
      simp only [isLow, hval, Bool.and_eq_false_iff, decide_eq_false_iff_not]
      omega
    have hunit : ofUnit (UInt16.ofNat c.toNat) = c := by
      rw [ofUnit, hhigh, hlow, hval]
      exact Char.ofNat_toNat c
    cases rest with
    | nil => simp [scalars, hunit]
    | cons v rest => simp [scalars, hunit, hhigh]
  · have hhigh : (UInt16.ofNat (0xD800 + (c.toNat - 0x10000) / 0x400)).toNat =
        0xD800 + (c.toNat - 0x10000) / 0x400 := toNat_unit (by omega)
    have hlow : (UInt16.ofNat (0xDC00 + (c.toNat - 0x10000) % 0x400)).toNat =
        0xDC00 + (c.toNat - 0x10000) % 0x400 := toNat_unit (by omega)
    have hpair : (isHigh (UInt16.ofNat (0xD800 + (c.toNat - 0x10000) / 0x400)) &&
        isLow (UInt16.ofNat (0xDC00 + (c.toNat - 0x10000) % 0x400))) = true := by
      simp only [isHigh, isLow, hhigh, hlow, Bool.and_eq_true, decide_eq_true_eq]
      omega
    have hscalar : 0x10000 + (0xD800 + (c.toNat - 0x10000) / 0x400 - 0xD800) * 0x400 +
        (0xDC00 + (c.toNat - 0x10000) % 0x400 - 0xDC00) = c.toNat := by omega
    simp only [List.cons_append, List.nil_append, scalars, hpair, if_true, ofPair, hhigh, hlow,
      hscalar, Char.ofNat_toNat]

theorem scalars_toCodeUnits_append (s : String) (rest : CodeUnits) :
    scalars (toCodeUnits s ++ rest) = s.toList ++ scalars rest := by
  rw [toCodeUnits]
  induction s.toList with
  | nil => rfl
  | cons c cs ih =>
    rw [List.flatMap_cons, List.append_assoc, scalars_unitsOf_append, ih]
    rfl

theorem fromUnits_toCodeUnits (s : String) : fromUnits (toCodeUnits s) = s := by
  have h := scalars_toCodeUnits_append s []
  rw [List.append_nil] at h
  rw [fromUnits, h, show scalars [] = [] from rfl, List.append_nil, String.ofList_toList]

theorem scalars_eq_nil_iff (us : CodeUnits) : scalars us = [] ↔ us = [] := by
  fun_cases scalars us <;> simp_all

theorem isWellFormed_toCodeUnits (s : String) : IsWellFormed (toCodeUnits s) :=
  congrArg toCodeUnits (fromUnits_toCodeUnits s)

theorem isWellFormed_of_ascii {us : CodeUnits} (h : ∀ u ∈ us, u.toNat < 0x80) :
    IsWellFormed us := by
  have hunits : toCodeUnits (String.ofList (us.map fun u => Char.ofNat u.toNat)) = us := by
    rw [toCodeUnits, String.toList_ofList, List.flatMap_map]
    have hone : ∀ u ∈ us, unitsOf (Char.ofNat u.toNat) = [u] := by
      intro u hu
      have hu' := h u hu
      have hval : (Char.ofNat u.toNat).toNat = u.toNat := toNat_ofNat_valid (.inl (by omega))
      rw [unitsOf, hval, if_pos (by omega), UInt16.ofNat_toNat]
    rw [List.flatMap_congr hone]
    simp
  rw [← hunits]
  exact isWellFormed_toCodeUnits _

theorem unitsOf_ofUnit {u : UInt16} (h : ∀ w ∈ unitsOf (ofUnit u), w.toNat < 0x80) :
    unitsOf (ofUnit u) = [u] := by
  rw [ofUnit] at h ⊢
  split_ifs at h ⊢ with hsurrogate
  · exact absurd (h 0xFFFD (by decide)) (by decide)
  · have hu := u.toNat_lt
    have hvalid : u.toNat.isValidChar := by
      simp only [isHigh, isLow, Bool.or_eq_true, Bool.and_eq_true, decide_eq_true_eq] at hsurrogate
      simp only [Nat.isValidChar]
      omega
    have hval : (Char.ofNat u.toNat).toNat = u.toNat := toNat_ofNat_valid hvalid
    rw [unitsOf, hval, if_pos (by omega), UInt16.ofNat_toNat]

/-- Lone surrogates leave a trace outside ASCII. -/
theorem isWellFormed_of_ascii_read {us : CodeUnits}
    (h : ∀ u ∈ toCodeUnits (fromUnits us), u.toNat < 0x80) : IsWellFormed us := by
  have hread (vs : CodeUnits) : toCodeUnits (fromUnits vs) = (scalars vs).flatMap unitsOf := by
    rw [toCodeUnits, fromUnits, String.toList_ofList]
  rw [IsWellFormed, hread]
  rw [hread] at h
  fun_induction scalars us with
  | case1 => rfl
  | case2 u =>
    rw [List.flatMap_singleton] at h ⊢
    exact unitsOf_ofUnit h
  | case3 u v rest hpair ih =>
    exfalso
    simp only [isHigh, isLow, Bool.and_eq_true, decide_eq_true_eq] at hpair
    have hvalid : (0x10000 + (u.toNat - 0xD800) * 0x400 + (v.toNat - 0xDC00)).isValidChar := by
      simp only [Nat.isValidChar]
      omega
    have hval : (ofPair u v).toNat =
        0x10000 + (u.toNat - 0xD800) * 0x400 + (v.toNat - 0xDC00) := toNat_ofNat_valid hvalid
    have hhigh := h (UInt16.ofNat (0xD800 + ((ofPair u v).toNat - 0x10000) / 0x400)) (by
      rw [List.flatMap_cons, unitsOf, if_neg (by omega)]
      simp)
    rw [toNat_unit (by omega)] at hhigh
    omega
  | case4 u v rest hpair ih =>
    rw [List.flatMap_cons] at h ⊢
    have hhead := unitsOf_ofUnit fun w hw => h w (List.mem_append_left _ hw)
    rw [hhead, ih fun w hw => h w (List.mem_append_right _ hw)]
    rfl

theorem toCodeUnits_append (s t : String) :
    toCodeUnits (s ++ t) = toCodeUnits s ++ toCodeUnits t := by
  simp [toCodeUnits]

theorem toCodeUnits_injective : Function.Injective toCodeUnits :=
  Function.LeftInverse.injective fromUnits_toCodeUnits

/-- A scalar value below the surrogates is found in the code units where it is in the string. -/
theorem mem_toCodeUnits_iff {c : Char} (hc : c.toNat < 0xD800) (s : String) :
    UInt16.ofNat c.toNat ∈ toCodeUnits s ↔ c ∈ s.toList := by
  have hval : (UInt16.ofNat c.toNat).toNat = c.toNat := toNat_unit (by omega)
  have hone (d : Char) : UInt16.ofNat c.toNat ∈ unitsOf d ↔ c = d := by
    have hd := toNat_bounds d
    constructor
    · intro h
      apply Char.toNat_inj.mp
      rw [unitsOf] at h
      split_ifs at h with hbasic
      · have heq := congrArg UInt16.toNat (List.mem_singleton.mp h)
        rwa [hval, toNat_unit hbasic] at heq
      · rcases List.mem_cons.mp h with h | h
        · have heq := congrArg UInt16.toNat h
          rw [hval, toNat_unit (by omega)] at heq
          omega
        · have heq := congrArg UInt16.toNat (List.mem_singleton.mp h)
          rw [hval, toNat_unit (by omega)] at heq
          omega
    · rintro rfl
      rw [unitsOf, if_pos (by omega)]
      exact List.mem_singleton_self _
  rw [toCodeUnits, List.mem_flatMap]
  constructor
  · rintro ⟨d, hd, h⟩
    exact (hone d).mp h ▸ hd
  · exact fun h => ⟨c, h, (hone c).mpr rfl⟩

abbrev Bytes := List UInt8

def toUtf8 (s : String) : Bytes := s.toList.flatMap String.utf8EncodeChar

/-- The continuation bytes that a first byte calls for, and the bounds of the one next to it. -/
def continuation (b : ℕ) : ℕ × ℕ × ℕ :=
  if 0xC2 ≤ b ∧ b ≤ 0xDF then (1, 0x80, 0xBF)
  else if b = 0xE0 then (2, 0xA0, 0xBF)
  else if b = 0xED then (2, 0x80, 0x9F)
  else if 0xE1 ≤ b ∧ b ≤ 0xEF then (2, 0x80, 0xBF)
  else if b = 0xF0 then (3, 0x90, 0xBF)
  else if b = 0xF4 then (3, 0x80, 0x8F)
  else if 0xF1 ≤ b ∧ b ≤ 0xF3 then (3, 0x80, 0xBF)
  else (0, 0x80, 0xBF)

/-- The bytes after an ill-formed start that belong to it. -/
def subpart : ℕ → ℕ → ℕ → Bytes → ℕ
  | 0, _, _, _ => 0
  | _, _, _, [] => 0
  | n + 1, lower, upper, b :: rest =>
    if lower ≤ b.toNat ∧ b.toNat ≤ upper then subpart n 0x80 0xBF rest + 1 else 0

/-- The first scalar value and the number of bytes after its first one. -/
def decodeHead (b : UInt8) (rest : Bytes) : Char × ℕ :=
  match (b :: rest).toByteArray.utf8DecodeChar? 0 with
  | some c => (c, c.utf8Size - 1)
  | none =>
    let (needed, lower, upper) := continuation b.toNat
    (replacement, subpart needed lower upper rest)

/-- The count is that of the bytes to pass over. -/
def decodeFrom : ℕ → Bytes → List Char
  | _, [] => []
  | skip + 1, _ :: rest => decodeFrom skip rest
  | 0, b :: rest => (decodeHead b rest).1 :: decodeFrom (decodeHead b rest).2 rest

def fromUtf8 (bs : Bytes) : String := String.ofList (decodeFrom 0 bs)

private theorem decodeFrom_length_append (bs rest : Bytes) :
    decodeFrom bs.length (bs ++ rest) = decodeFrom 0 rest := by
  induction bs with
  | nil => rfl
  | cons b bs ih =>
    rw [List.length_cons, List.cons_append, decodeFrom]
    exact ih

private theorem decodeFrom_utf8EncodeChar_append (c : Char) (rest : Bytes) :
    decodeFrom 0 (String.utf8EncodeChar c ++ rest) = c :: decodeFrom 0 rest := by
  have hlength : (String.utf8EncodeChar c).length = c.utf8Size := String.length_utf8EncodeChar c
  have hdecode : (String.utf8EncodeChar c ++ rest).toByteArray.utf8DecodeChar? 0 = some c := by
    rw [List.toByteArray_append]
    exact ByteArray.utf8DecodeChar?_utf8EncodeChar_append
  cases henc : String.utf8EncodeChar c with
  | nil =>
    have hpos := c.utf8Size_pos
    rw [henc, List.length_nil] at hlength
    omega
  | cons b bs =>
    rw [henc, List.cons_append] at hdecode
    have htail : bs.length = c.utf8Size - 1 := by
      rw [henc, List.length_cons] at hlength
      omega
    rw [List.cons_append, decodeFrom, decodeHead, hdecode]
    dsimp only
    rw [← htail, decodeFrom_length_append]

theorem fromUtf8_toUtf8 (s : String) : fromUtf8 (toUtf8 s) = s := by
  have h : decodeFrom 0 (toUtf8 s) = s.toList := by
    rw [toUtf8]
    induction s.toList with
    | nil => rfl
    | cons c cs ih => rw [List.flatMap_cons, decodeFrom_utf8EncodeChar_append, ih]
  rw [fromUtf8, h, String.ofList_toList]

theorem toUtf8_injective : Function.Injective toUtf8 :=
  Function.LeftInverse.injective fromUtf8_toUtf8

theorem toUtf8_append (s t : String) : toUtf8 (s ++ t) = toUtf8 s ++ toUtf8 t := by
  simp [toUtf8]

/-- The bytes of several stand apart from those of one. -/
theorem mem_utf8EncodeChar_iff {c : Char} (hc : c.toNat < 0x80) (d : Char) :
    UInt8.ofNat c.toNat ∈ String.utf8EncodeChar d ↔ c = d := by
  have hbyte {n : ℕ} (hn : n < 0x100) : UInt8.ofNat c.toNat = UInt8.ofNat n ↔ c.toNat = n := by
    have hsmall : c.toNat < UInt8.size := Nat.lt_trans hc (by decide)
    rw [← UInt8.toNat_inj, UInt8.toNat_ofNat_of_lt' hsmall, UInt8.toNat_ofNat_of_lt' hn]
  have hchar : c = d ↔ c.toNat = d.toNat := Char.toNat_inj.symm
  rw [hchar]
  change _ ↔ c.toNat = d.val.toNat
  rw [String.utf8EncodeChar]
  split_ifs with hone htwo hthree
  · rw [List.mem_singleton, hbyte (by omega)]
  · simp only [List.mem_cons, List.not_mem_nil, or_false]
    rw [hbyte (by omega), hbyte (by omega)]
    omega
  · simp only [List.mem_cons, List.not_mem_nil, or_false]
    rw [hbyte (by omega), hbyte (by omega), hbyte (by omega)]
    omega
  · simp only [List.mem_cons, List.not_mem_nil, or_false]
    rw [hbyte (by omega), hbyte (by omega), hbyte (by omega), hbyte (by omega)]
    omega

theorem mem_toUtf8_iff {c : Char} (hc : c.toNat < 0x80) (s : String) :
    UInt8.ofNat c.toNat ∈ toUtf8 s ↔ c ∈ s.toList := by
  rw [toUtf8, List.mem_flatMap]
  constructor
  · rintro ⟨d, hd, h⟩
    exact (mem_utf8EncodeChar_iff hc d).mp h ▸ hd
  · exact fun h => ⟨c, h, (mem_utf8EncodeChar_iff hc c).mpr rfl⟩

end Statnive.UnicodeText
