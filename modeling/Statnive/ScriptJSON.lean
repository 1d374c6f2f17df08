import Mathlib.Data.List.Forall2
import Statnive.JSONText
import Statnive.UnicodeText

/-!
# Values of a script as JSON

What `JSON.stringify` writes of a value, and what the reader of `JSONText` makes of it. Strings are
code units, of which lone surrogates are written as escapes and read as U+FFFD.
-/

namespace Statnive.ScriptJSON

open UnicodeText hiding replacement isHigh isLow
open SuppressionRecord hiding replacement
open VisitorIdentity (utf8)
open JSONText

def isSurrogate (u : UInt16) : Bool := UnicodeText.isHigh u || UnicodeText.isLow u

/-- `UnicodeEscape`. -/
def unicodeEscape (u : UInt16) : Bytes :=
  [0x5C, 0x75, hexDigit (u.toNat / 4096), hexDigit (u.toNat / 256 % 16),
    hexDigit (u.toNat / 16 % 16), hexDigit (u.toNat % 16)]

/-- The letter of the escape that a code unit has of its own. -/
def shortEscape (u : UInt16) : Option UInt8 :=
  if u = 0x08 then some 0x62
  else if u = 0x09 then some 0x74
  else if u = 0x0A then some 0x6E
  else if u = 0x0C then some 0x66
  else if u = 0x0D then some 0x72
  else if u = 0x22 then some 0x22
  else if u = 0x5C then some 0x5C
  else none

def unitText (u : UInt16) : Bytes :=
  match shortEscape u with
  | some e => [0x5C, e]
  | none =>
    if u < 0x20 || isSurrogate u then unicodeEscape u
    else String.utf8EncodeChar (Char.ofNat u.toNat)

def escapeUnits : CodeUnits → Bytes
  | [] => []
  | [u] => unitText u
  | u :: v :: us =>
    if UnicodeText.isHigh u && UnicodeText.isLow v then
      String.utf8EncodeChar (ofPair u v) ++ escapeUnits us
    else unitText u ++ escapeUnits (v :: us)

/-- `QuoteJSONString`. -/
def quoteUnits (us : CodeUnits) : Bytes := 0x22 :: escapeUnits us ++ [0x22]

/-- The finite numbers are those of `F`. -/
inductive Number (F : Type) where
  | finite (x : F)
  | infinity (negative : Bool)
  | nan

inductive Value (F : Type) where
  | null
  | bool (b : Bool)
  | number (x : Number F)
  | string (us : CodeUnits)
  | array (elements : List (Value F))
  | object (members : List (CodeUnits × Value F))

variable {F : Type}

section Stringify

-- `Number::toString` of a finite number
variable (format : F → Bytes)

mutual

def stringify : Value F → Bytes
  | .null => wordNull
  | .bool b => if b then wordTrue else wordFalse
  | .number (.finite x) => format x
  | .number _ => wordNull
  | .string us => quoteUnits us
  | .array elements => writeArray (stringifyElements elements)
  | .object members => objectText (stringifyMembers members)

def stringifyElements : List (Value F) → List Bytes
  | [] => []
  | v :: vs => stringify v :: stringifyElements vs

def stringifyMembers : List (CodeUnits × Value F) → List (Bytes × Bytes)
  | [] => []
  | (name, v) :: members => (quoteUnits name, stringify v) :: stringifyMembers members

end

def textOf (us : CodeUnits) : Bytes := utf8 (fromUnits us)

mutual

def toJSON : Value F → JSON
  | .null => .null
  | .bool b => .bool b
  | .number (.finite x) => .number (format x)
  | .number _ => .null
  | .string us => .string (textOf us)
  | .array elements => .array (toJSONElements elements)
  | .object members => .object (toJSONMembers members)

def toJSONElements : List (Value F) → List JSON
  | [] => []
  | v :: vs => toJSON v :: toJSONElements vs

def toJSONMembers : List (CodeUnits × Value F) → List (Bytes × JSON)
  | [] => []
  | (name, v) :: members => (textOf name, toJSON v) :: toJSONMembers members

end

end Stringify

mutual

/-- The brackets that are open at once. -/
def Value.nesting : Value F → ℕ
  | .array elements => nestingElements elements + 1
  | .object members => nestingMembers members + 1
  | _ => 0

def nestingElements : List (Value F) → ℕ
  | [] => 0
  | v :: vs => max v.nesting (nestingElements vs)

def nestingMembers : List (CodeUnits × Value F) → ℕ
  | [] => 0
  | (_, v) :: members => max v.nesting (nestingMembers members)

end

def unitPieces (u : UInt16) : List Piece :=
  match shortEscape u with
  | some _ => [.raw u.toUInt8]
  | none =>
    if u < 0x20 || isSurrogate u then [.unit u.toNat]
    else (String.utf8EncodeChar (Char.ofNat u.toNat)).map .raw

def pieces : CodeUnits → List Piece
  | [] => []
  | [u] => unitPieces u
  | u :: v :: us =>
    if UnicodeText.isHigh u && UnicodeText.isLow v then
      (String.utf8EncodeChar (ofPair u v)).map .raw ++ pieces us
    else unitPieces u ++ pieces (v :: us)

private theorem readsAs_bytes {bs : Bytes} (h : ∀ b ∈ bs, b ≠ 0x22 ∧ b ≠ 0x5C ∧ ¬ b < 0x20) :
    ReadsAs bs (bs.map .raw) := by
  induction bs with
  | nil => exact readsAs_nil
  | cons b bs ih =>
    obtain ⟨hb, hbs⟩ := List.forall_mem_cons.mp h
    exact (readsAs_raw hb.1 hb.2.1 hb.2.2).append (ih hbs)

/-- The bytes of a character outside ASCII are outside ASCII. -/
theorem le_of_mem_char {c : Char} (hc : 0x80 ≤ c.toNat) {b : UInt8}
    (hb : b ∈ String.utf8EncodeChar c) : 0x80 ≤ b := by
  obtain ⟨d, conts, henc, hrune⟩ := runeTail_utf8EncodeChar c []
  rw [List.append_nil] at hrune
  have hsize : c.utf8Size = conts.length + 1 := by
    rw [← String.length_utf8EncodeChar, henc, List.length_cons]
  have hfirst : 0x80 ≤ d := by
    rw [← UInt8.not_lt]
    intro hd
    have hnil := Option.some.inj ((runeTail_ascii hd conts).symm.trans hrune)
    have hone : c.utf8Size = 1 := by omega
    have hval : c.val.toNat = c.toNat := rfl
    have hle := UInt32.le_iff_toNat_le.mp (Char.utf8Size_eq_one_iff.mp hone)
    have h127 : (127 : UInt32).toNat = 127 := rfl
    omega
  rw [henc] at hb
  rcases List.mem_cons.mp hb with rfl | hb
  · exact hfirst
  · apply (continuations hrune).2
    rwa [List.take_length]

/-- A character that needs no escape is written as its bytes. -/
theorem readsAs_char {c : Char} (hlow : 0x20 ≤ c.toNat) (hquote : c.toNat ≠ 0x22)
    (hback : c.toNat ≠ 0x5C) :
    ReadsAs (String.utf8EncodeChar c) ((String.utf8EncodeChar c).map .raw) := by
  refine readsAs_bytes fun b hb => ?_
  rcases Nat.lt_or_ge c.toNat 0x80 with hc | hc
  · have hval : c.val.toNat = c.toNat := rfl
    have henc : String.utf8EncodeChar c = [UInt8.ofNat c.toNat] := by
      simp only [String.utf8EncodeChar, hval]
      exact if_pos (by omega)
    have hbyte : (UInt8.ofNat c.toNat).toNat = c.toNat :=
      UInt8.toNat_ofNat_of_lt' (Nat.lt_trans hc (by decide))
    rw [henc, List.mem_singleton] at hb
    rw [UInt8.lt_iff_toNat_lt, ne_eq, ne_eq, ← UInt8.toNat_inj, ← UInt8.toNat_inj, hb, hbyte]
    exact ⟨hquote, hback, Nat.not_lt.mpr hlow⟩
  · have hb := le_of_mem_char hc hb
    refine ⟨?_, ?_, ?_⟩
    · exact fun h => absurd (h ▸ hb) (by decide)
    · exact fun h => absurd (h ▸ hb) (by decide)
    · exact UInt8.not_lt.mpr (UInt8.le_trans (by decide) hb)

theorem hexValue_hexDigit : ∀ n < 16, hexValue (hexDigit n) = some n := by decide

private theorem hexUnit_unicodeEscape (u : UInt16) :
    hexUnit (hexDigit (u.toNat / 4096)) (hexDigit (u.toNat / 256 % 16))
      (hexDigit (u.toNat / 16 % 16)) (hexDigit (u.toNat % 16)) = some u.toNat := by
  have hu := u.toNat_lt
  have hsum : 4096 * (u.toNat / 4096) + 256 * (u.toNat / 256 % 16) + 16 * (u.toNat / 16 % 16) +
      u.toNat % 16 = u.toNat := by omega
  simp only [hexUnit, hexValue_hexDigit (u.toNat / 4096) (by omega),
    hexValue_hexDigit (u.toNat / 256 % 16) (by omega),
    hexValue_hexDigit (u.toNat / 16 % 16) (by omega), hexValue_hexDigit (u.toNat % 16) (by omega),
    Option.bind_eq_bind, Option.bind_some, hsum]

/-- The code units that have an escape of their own. -/
theorem shortEscape_some {u : UInt16} {e : UInt8} (h : shortEscape u = some e) :
    e ≠ 0x75 ∧ escaped e = some u.toUInt8 ∧ isSurrogate u = false ∧
      String.utf8EncodeChar (Char.ofNat u.toNat) = [u.toUInt8] := by
  unfold shortEscape at h
  split_ifs at h with h₁ h₂ h₃ h₄ h₅ h₆ h₇
  all_goals
    subst_vars
    cases h
    exact ⟨by decide, by decide, by decide, by decide⟩

private theorem shortEscape_none {u : UInt16} (h : shortEscape u = none) :
    u.toNat ≠ 0x22 ∧ u.toNat ≠ 0x5C := by
  constructor
  · intro hu
    have hquote : u = 0x22 := UInt16.toNat_inj.mp hu
    subst hquote
    exact absurd h (by decide)
  · intro hu
    have hback : u = 0x5C := UInt16.toNat_inj.mp hu
    subst hback
    exact absurd h (by decide)

private theorem isSurrogate_false {u : UInt16} (h : isSurrogate u = false) :
    u.toNat.isValidChar := by
  have hu := u.toNat_lt
  simp only [isSurrogate, UnicodeText.isHigh, UnicodeText.isLow, Bool.or_eq_false_iff,
    Bool.and_eq_false_iff, decide_eq_false_iff_not] at h
  simp only [Nat.isValidChar]
  omega

theorem readsAs_unitText (u : UInt16) : ReadsAs (unitText u) (unitPieces u) := by
  unfold unitText unitPieces
  cases hshort : shortEscape u with
  | some e =>
    obtain ⟨he, hc, -, -⟩ := shortEscape_some hshort
    exact readsAs_escaped he hc
  | none =>
    dsimp only
    split
    · exact readsAs_unit (hexUnit_unicodeEscape u)
    · rename_i hplain
      rw [Bool.not_eq_true, Bool.or_eq_false_iff, decide_eq_false_iff_not] at hplain
      obtain ⟨hlow, hsurr⟩ := hplain
      have hval : (Char.ofNat u.toNat).toNat = u.toNat :=
        toNat_ofNat_valid (isSurrogate_false hsurr)
      have hlow' : 0x20 ≤ u.toNat := UInt16.le_iff_toNat_le.mp (UInt16.not_lt.mp hlow)
      obtain ⟨hquote, hback⟩ := shortEscape_none hshort
      exact readsAs_char (by rwa [hval]) (by rwa [hval]) (by rwa [hval])

private theorem ofPair_toNat {u v : UInt16} (hu : UnicodeText.isHigh u = true)
    (hv : UnicodeText.isLow v = true) : 0x10000 ≤ (ofPair u v).toNat := by
  simp only [UnicodeText.isHigh, UnicodeText.isLow, Bool.and_eq_true, decide_eq_true_eq] at hu hv
  have hvalid : (0x10000 + (u.toNat - 0xD800) * 0x400 + (v.toNat - 0xDC00)).isValidChar := by
    simp only [Nat.isValidChar]
    omega
  rw [ofPair, toNat_ofNat_valid hvalid]
  omega

private theorem readsAs_escapeUnits (us : CodeUnits) : ReadsAs (escapeUnits us) (pieces us) := by
  fun_induction escapeUnits us with
  | case1 => exact readsAs_nil
  | case2 u => exact readsAs_unitText u
  | case3 u v us hpair ih =>
    obtain ⟨hu, hv⟩ := Bool.and_eq_true_iff.mp hpair
    have hchar := ofPair_toNat hu hv
    rw [pieces, if_pos hpair]
    exact (readsAs_char (by omega) (by omega) (by omega)).append ih
  | case4 u v us hpair ih =>
    rw [pieces, if_neg hpair]
    exact (readsAs_unitText u).append ih

theorem joinPieces_raws (bs : Bytes) (ps : List Piece) :
    joinPieces (bs.map .raw ++ ps) = bs ++ joinPieces ps := by
  induction bs with
  | nil => rfl
  | cons b bs ih =>
    rw [List.map_cons, List.cons_append, joinPieces, ih]
    rfl

/-- An escape that begins no surrogate pair stands for itself. -/
theorem joinPieces_unit {u : ℕ} {ps : List Piece} (h : SuppressionRecord.isHigh u = true →
    ∀ lo rest, ps = .unit lo :: rest → SuppressionRecord.isLow lo = false) :
    joinPieces (.unit u :: ps) = encodeUnit u ++ joinPieces ps := by
  cases ps with
  | nil => rfl
  | cons p ps =>
    cases p with
    | raw b => rfl
    | unit lo =>
      have hpair : (SuppressionRecord.isHigh u && SuppressionRecord.isLow lo) = false := by
        cases hu : SuppressionRecord.isHigh u with
        | false => rfl
        | true => exact h hu lo ps rfl
      rw [joinPieces, hpair, if_neg Bool.false_ne_true]

private theorem isHigh_toNat (u : UInt16) :
    SuppressionRecord.isHigh u.toNat = UnicodeText.isHigh u := rfl

theorem isLow_toNat (u : UInt16) : SuppressionRecord.isLow u.toNat = UnicodeText.isLow u := rfl

/-- The pieces of a code unit join to the bytes of its character. -/
theorem joinPieces_unitPieces (u : UInt16) (ps : List Piece)
    (h : UnicodeText.isHigh u = true →
      ∀ lo rest, ps = .unit lo :: rest → SuppressionRecord.isLow lo = false) :
    joinPieces (unitPieces u ++ ps) = String.utf8EncodeChar (ofUnit u) ++ joinPieces ps := by
  unfold unitPieces
  cases hshort : shortEscape u with
  | some e =>
    obtain ⟨-, -, hsurr, hchar⟩ := shortEscape_some hshort
    have hunit : ofUnit u = Char.ofNat u.toNat := if_neg (by rw [← isSurrogate, hsurr]; decide)
    rw [hunit, hchar]
    rfl
  | none =>
    dsimp only
    split
    · have henc : encodeUnit u.toNat = String.utf8EncodeChar (ofUnit u) := by
        rw [encodeUnit, isHigh_toNat, isLow_toNat, ofUnit]
        split
        · rfl
        · rfl
      rw [List.singleton_append, joinPieces_unit h, henc]
    · rename_i hplain
      rw [Bool.not_eq_true, Bool.or_eq_false_iff] at hplain
      have hunit : ofUnit u = Char.ofNat u.toNat :=
        if_neg (by rw [← isSurrogate, hplain.2]; decide)
      rw [joinPieces_raws, hunit]

/-- An escape at the front of the pieces is that of the first code unit. -/
theorem unit_of_unitPieces {u : UInt16} {lo : ℕ} (ps : List Piece) {rest : List Piece}
    (h : unitPieces u ++ ps = .unit lo :: rest) : lo = u.toNat := by
  unfold unitPieces at h
  split at h
  · simp at h
  · split at h
    · simpa [eq_comm] using (List.cons.inj h).1
    · obtain ⟨b, conts, henc, -⟩ := runeTail_utf8EncodeChar (Char.ofNat u.toNat) []
      simp [henc] at h

private theorem unit_of_pieces {v : UInt16} {us : CodeUnits} {lo : ℕ} {rest : List Piece}
    (h : pieces (v :: us) = .unit lo :: rest) : lo = v.toNat := by
  cases us with
  | nil => exact unit_of_unitPieces [] (by rwa [List.append_nil])
  | cons w us =>
    rw [pieces] at h
    split at h
    · obtain ⟨b, conts, henc, -⟩ := runeTail_utf8EncodeChar (ofPair v w) []
      simp [henc] at h
    · exact unit_of_unitPieces _ h

private theorem joinPieces_pieces (us : CodeUnits) :
    joinPieces (pieces us) = (scalars us).flatMap String.utf8EncodeChar := by
  fun_induction scalars us with
  | case1 => rfl
  | case2 u =>
    have hlast := joinPieces_unitPieces u [] (by simp)
    rwa [List.append_nil] at hlast
  | case3 u v us hpair ih => rw [pieces, if_pos hpair, joinPieces_raws, ih, List.flatMap_cons]
  | case4 u v us hpair ih =>
    have hnext : UnicodeText.isHigh u = true →
        ∀ lo rest, pieces (v :: us) = .unit lo :: rest → SuppressionRecord.isLow lo = false := by
      intro hu lo rest hps
      rw [unit_of_pieces hps, isLow_toNat]
      simpa [hu] using hpair
    rw [pieces, if_neg hpair, joinPieces_unitPieces u _ hnext, ih, List.flatMap_cons]

/-- A string is read back with U+FFFD in the place of each lone surrogate. -/
theorem quotes_quoteUnits (us : CodeUnits) : Quotes (quoteUnits us) (textOf us) := by
  refine ⟨escapeUnits us ++ [0x22], rfl, fun rest => ?_⟩
  have hquote : scanString (0x22 :: rest) = some ([], rest) := by
    rw [scanString.eq_def]
    rfl
  have htext : textOf us = (scalars us).flatMap String.utf8EncodeChar := by
    rw [textOf, utf8, fromUnits, String.toList_ofList]
  have hvalid : toValidUTF8 0 (textOf us) = textOf us := toValidUTF8_of_valid ⟨_, rfl⟩
  rw [List.append_assoc, List.singleton_append, parseString, readsAs_escapeUnits, hquote]
  simp [joinPieces_pieces, ← htext, hvalid]

theorem denotes_word {word : Bytes} {v : JSON} {b : UInt8} {bs : Bytes} (hword : word = b :: bs)
    (hb : b ≠ 0x5D) (hspace : isJSONSpace b = false)
    (hread : ∀ fuel depth rest, readValue (fuel + 1) depth (word ++ rest) = some (v, rest)) :
    Denotes 0 word v :=
  ⟨⟨b, bs, hword, hb, hspace⟩, fun fuel depth rest _ _ _ => hread fuel depth rest⟩

private theorem denotes_true : Denotes 0 wordTrue (.bool true) := by
  refine denotes_word rfl (by decide) rfl fun fuel depth rest => ?_
  rw [wordTrue, List.cons_append, readValue, skipSpace_cons (by decide)]
  simp [expectWord, wordTrue]

private theorem denotes_false : Denotes 0 wordFalse (.bool false) := by
  refine denotes_word rfl (by decide) rfl fun fuel depth rest => ?_
  rw [wordFalse, List.cons_append, readValue, skipSpace_cons (by decide)]
  simp [expectWord, wordFalse]

section Values

/-- The texts of numbers are number literals. -/
def Formats (format : F → Bytes) : Prop := ∀ x, Denotes 0 (format x) (.number (format x))

variable {format : F → Bytes}

mutual

theorem denotes_stringify (hformat : Formats format) :
    ∀ v : Value F, Denotes v.nesting (stringify format v) (toJSON format v)
  | .null => denotes_null
  | .bool true => denotes_true
  | .bool false => denotes_false
  | .number (.finite x) => hformat x
  | .number (.infinity _) => denotes_null
  | .number .nan => denotes_null
  | .string us => denotes_of_quotes (quotes_quoteUnits us)
  | .array elements => denotes_writeArray (denotes_elements hformat elements)
  | .object members => denotes_objectText (memberReads_members hformat members)

theorem denotes_elements (hformat : Formats format) :
    ∀ vs : List (Value F), List.Forall₂ (Denotes (nestingElements vs)) (stringifyElements format vs)
      (toJSONElements format vs)
  | [] => .nil
  | v :: vs => .cons ((denotes_stringify hformat v).mono (Nat.le_max_left _ _))
      ((denotes_elements hformat vs).imp fun _ _ h => h.mono (Nat.le_max_right _ _))

theorem memberReads_members (hformat : Formats format) : ∀ members : List (CodeUnits × Value F),
    List.Forall₂ (MemberReads (nestingMembers members)) (stringifyMembers format members)
      (toJSONMembers format members)
  | [] => .nil
  | (name, v) :: members =>
    .cons ⟨quotes_quoteUnits name, (denotes_stringify hformat v).mono (Nat.le_max_left _ _)⟩
      ((memberReads_members hformat members).imp fun _ _ h =>
        ⟨h.1, h.2.mono (Nat.le_max_right _ _)⟩)

end

end Values

theorem length_le_writeElements_cons (t : Bytes) (ts : List Bytes) :
    t.length ≤ (writeElements (t :: ts)).length ∧
      (writeElements ts).length ≤ (writeElements (t :: ts)).length := by
  cases ts with
  | nil => simp [writeElements]
  | cons u ts =>
    simp only [writeElements, List.length_append, List.length_cons]
    omega

section Lengths

variable (format : F → Bytes)

mutual

/-- A text has room for its brackets. -/
theorem nesting_le : ∀ v : Value F, v.nesting ≤ (stringify format v).length
  | .null | .bool _ | .number _ | .string _ => Nat.zero_le _
  | .array elements => by
    have hle := nestingElements_le elements
    simp only [Value.nesting, stringify, writeArray, List.length_append, List.length_cons,
      List.length_nil]
    omega
  | .object members => by
    have hle := nestingMembers_le members
    simp only [Value.nesting, stringify, length_objectText]
    omega

theorem nestingElements_le : ∀ vs : List (Value F),
    nestingElements vs ≤ (writeElements (stringifyElements format vs)).length
  | [] => Nat.zero_le _
  | v :: vs => by
    have hv := nesting_le v
    have hvs := nestingElements_le vs
    have hle := length_le_writeElements_cons (stringify format v) (stringifyElements format vs)
    simp only [nestingElements, stringifyElements]
    omega

theorem nestingMembers_le : ∀ members : List (CodeUnits × Value F),
    nestingMembers members ≤
      (writeElements ((stringifyMembers format members).map memberText)).length
  | [] => Nat.zero_le _
  | (name, v) :: members => by
    have hv := nesting_le v
    have hvs := nestingMembers_le members
    have hle := length_le_writeElements_cons (memberText (quoteUnits name, stringify format v))
      ((stringifyMembers format members).map memberText)
    have hmember : (stringify format v).length ≤
        (memberText (quoteUnits name, stringify format v)).length := by
      simp only [memberText, List.length_append, List.length_cons]
      omega
    simp only [nestingMembers, stringifyMembers, List.map_cons]
    omega

end

end Lengths

end Statnive.ScriptJSON
