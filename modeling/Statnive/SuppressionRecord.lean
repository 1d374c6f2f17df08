import Mathlib.Data.Int.Notation
import Mathlib.Tactic.IntervalCases
import Statnive.VisitorIdentity

/-!
# Opt-out records

`suppressionRecord` as `json.Marshal` writes it, and `json.Unmarshal` into it, which
accepts any JSON object whose `hash` and `at` members fit.
-/

namespace Statnive.SuppressionRecord

open PrivacyPolicy VisitorIdentity

structure Record where
  hash : Bytes := []
  unixAt : Int64 := 0
  deriving DecidableEq

/-- `json.Marshal` copies the byte into a string as it is. -/
def isPlain (b : UInt8) : Bool :=
  0x20 ≤ b && b < 0x7F && b ≠ 0x22 && b ≠ 0x26 && b ≠ 0x3C && b ≠ 0x3E && b ≠ 0x5C

/-- The hashes that are added: their form is `h:` with hexadecimal digits behind. -/
structure Hash where
  bytes : Bytes
  plain : ∀ b ∈ bytes, isPlain b = true
  deriving DecidableEq

def digits (n : ℕ) : Bytes := (Nat.toDigits 10 n).map (fun c => UInt8.ofNat c.toNat)

def formatInt (t : ℤ) : Bytes :=
  if t < 0 then 0x2D :: digits t.natAbs else digits t.natAbs

def hashKey : Bytes := [0x68, 0x61, 0x73, 0x68]

def atKey : Bytes := [0x61, 0x74]

def marshal (hash : Hash) (unixAt : Int64) : Bytes :=
  0x7B :: 0x22 :: hashKey ++ 0x22 :: 0x3A :: 0x22 :: hash.bytes ++
    0x22 :: 0x2C :: 0x22 :: atKey ++ 0x22 :: 0x3A :: formatInt unixAt.toInt ++ [0x7D]

def isJSONSpace (b : UInt8) : Bool := b = 0x20 || b = 0x09 || b = 0x0D || b = 0x0A

def skipSpace (bs : Bytes) : Bytes := bs.dropWhile isJSONSpace

/-- A byte as it stands, or a `\u` escape. -/
inductive Piece where
  | raw (b : UInt8)
  | unit (u : ℕ)

def hexValue (b : UInt8) : Option ℕ :=
  if 0x30 ≤ b && b ≤ 0x39 then some (b.toNat - 0x30)
  else if 0x61 ≤ b && b ≤ 0x66 then some (b.toNat - 0x57)
  else if 0x41 ≤ b && b ≤ 0x46 then some (b.toNat - 0x37)
  else none

def hexUnit (a b c d : UInt8) : Option ℕ := do
  let a ← hexValue a
  let b ← hexValue b
  let c ← hexValue c
  let d ← hexValue d
  some (4096 * a + 256 * b + 16 * c + d)

def escaped (b : UInt8) : Option UInt8 :=
  if b = 0x22 || b = 0x5C || b = 0x2F then some b
  else if b = 0x62 then some 0x08
  else if b = 0x66 then some 0x0C
  else if b = 0x6E then some 0x0A
  else if b = 0x72 then some 0x0D
  else if b = 0x74 then some 0x09
  else none

/-- The pieces of a string whose opening quote has been read, and what follows it. -/
def scanString : Bytes → Option (List Piece × Bytes)
  | [] => none
  | b :: bs =>
    if b = 0x22 then some ([], bs)
    else if b = 0x5C then match bs with
      | [] => none
      | e :: rest =>
        if e = 0x75 then match rest with
          | h₁ :: h₂ :: h₃ :: h₄ :: rest => do
            let u ← hexUnit h₁ h₂ h₃ h₄
            let (ps, tail) ← scanString rest
            some (.unit u :: ps, tail)
          | _ => none
        else do
          let e ← escaped e
          let (ps, tail) ← scanString rest
          some (.raw e :: ps, tail)
    else if b < 0x20 then none
    else do
      let (ps, tail) ← scanString bs
      some (.raw b :: ps, tail)

def replacement : Bytes := [0xEF, 0xBF, 0xBD]

def isHigh (u : ℕ) : Bool := 0xD800 ≤ u && u < 0xDC00

def isLow (u : ℕ) : Bool := 0xDC00 ≤ u && u < 0xE000

def encodeUnit (u : ℕ) : Bytes :=
  if isHigh u || isLow u then replacement else String.utf8EncodeChar (Char.ofNat u)

def encodePair (hi lo : ℕ) : Bytes :=
  String.utf8EncodeChar (Char.ofNat (0x10000 + 0x400 * (hi - 0xD800) + (lo - 0xDC00)))

def joinPieces : List Piece → Bytes
  | [] => []
  | .raw b :: ps => b :: joinPieces ps
  | .unit hi :: .unit lo :: ps =>
    if isHigh hi && isLow lo then encodePair hi lo ++ joinPieces ps
    else encodeUnit hi ++ joinPieces (.unit lo :: ps)
  | .unit u :: ps => encodeUnit u ++ joinPieces ps

/-- The bounds of the second byte of a rune, and the number of bytes after it. -/
def runeShape (b : UInt8) : Option (UInt8 × UInt8 × ℕ) :=
  if 0xC2 ≤ b && b ≤ 0xDF then some (0x80, 0xBF, 0)
  else if b = 0xE0 then some (0xA0, 0xBF, 1)
  else if b = 0xED then some (0x80, 0x9F, 1)
  else if 0xE1 ≤ b && b ≤ 0xEF then some (0x80, 0xBF, 1)
  else if b = 0xF0 then some (0x90, 0xBF, 2)
  else if 0xF1 ≤ b && b ≤ 0xF3 then some (0x80, 0xBF, 2)
  else if b = 0xF4 then some (0x80, 0x8F, 2)
  else none

/-- How many bytes belong to the rune that begins with `b`, after `b`. -/
def runeTail (b : UInt8) (bs : Bytes) : Option ℕ :=
  if b < 0x80 then some 0
  else match runeShape b, bs with
    | some (lo, hi, k), c :: rest =>
      let conts := rest.take k
      if lo ≤ c && c ≤ hi && conts.length = k && conts.all (fun d => 0x80 ≤ d && d ≤ 0xBF) then
        some (k + 1)
      else none
    | _, _ => none

/-- The first argument counts the bytes of the current rune that are still to come. -/
def toValidUTF8 : ℕ → Bytes → Bytes
  | _, [] => []
  | k + 1, b :: bs => b :: toValidUTF8 k bs
  | 0, b :: bs => match runeTail b bs with
    | some k => b :: toValidUTF8 k bs
    | none => replacement ++ toValidUTF8 0 bs

def parseString (bs : Bytes) : Option (Bytes × Bytes) := do
  let (ps, rest) ← scanString bs
  some (toValidUTF8 0 (joinPieces ps), rest)

def isDigit (b : UInt8) : Bool := 0x30 ≤ b && b ≤ 0x39

def parseDigits (bs : Bytes) : Option (Bytes × Bytes) :=
  match bs.takeWhile isDigit with
  | [] => none
  | d :: ds => some (d :: ds, bs.dropWhile isDigit)

def parseInteger : Bytes → Option (Bytes × Bytes)
  | [] => none
  | b :: bs => if b = 0x30 then some ([b], bs) else parseDigits (b :: bs)

def parseFraction : Bytes → Option (Bytes × Bytes)
  | [] => some ([], [])
  | b :: bs =>
    if b = 0x2E then do
      let (ds, rest) ← parseDigits bs
      some (b :: ds, rest)
    else some ([], b :: bs)

def parseExponent : Bytes → Option (Bytes × Bytes)
  | [] => some ([], [])
  | b :: bs =>
    if b = 0x65 || b = 0x45 then
      let sign := bs.takeWhile (fun s => s = 0x2B || s = 0x2D)
      if 1 < sign.length then none
      else do
        let (ds, rest) ← parseDigits (bs.drop sign.length)
        some (b :: sign ++ ds, rest)
    else some ([], b :: bs)

def parseNumber (bs : Bytes) : Option (Bytes × Bytes) := do
  let sign := bs.takeWhile (fun b => b = 0x2D)
  if 1 < sign.length then none
  else
    let (int, bs) ← parseInteger (bs.drop sign.length)
    let (frac, bs) ← parseFraction bs
    let (exp, bs) ← parseExponent bs
    some (sign ++ int ++ frac ++ exp, bs)

def digitsValue (ds : Bytes) : ℕ := ds.foldl (fun n b => 10 * n + (b.toNat - 0x30)) 0

def toInt64 (v : ℤ) : Option Int64 :=
  if -2 ^ 63 ≤ v ∧ v < 2 ^ 63 then some (Int64.ofInt v) else none

/-- `strconv.ParseInt` on a number literal. -/
def parseInt64 : Bytes → Option Int64
  | [] => none
  | b :: bs =>
    if b = 0x2D then if bs ≠ [] && bs.all isDigit then toInt64 (-digitsValue bs) else none
    else if (b :: bs).all isDigit then toInt64 (digitsValue (b :: bs)) else none

inductive Value where
  | null | bool | number (literal : Bytes) | string (text : Bytes) | array
  | object (members : List (Bytes × Value))

def maxNestingDepth : ℕ := 10000

def expect (b : UInt8) : Bytes → Option Bytes
  | [] => none
  | c :: bs => if c = b then some bs else none

def expectWord (word bs : Bytes) : Option Bytes :=
  if word.isPrefixOf bs then some (bs.drop word.length) else none

mutual

def parseValue : ℕ → ℕ → Bytes → Option (Value × Bytes)
  | 0, _, _ => none
  | fuel + 1, depth, bs => match skipSpace bs with
    | [] => none
    | b :: bs =>
      if b = 0x22 then do
        let (s, rest) ← parseString bs
        some (.string s, rest)
      else if b = 0x7B then
        if maxNestingDepth ≤ depth then none
        else match expect 0x7D (skipSpace bs) with
          | some rest => some (.object [], rest)
          | none => do
            let (members, rest) ← parseMembers fuel (depth + 1) bs
            some (.object members, rest)
      else if b = 0x5B then
        if maxNestingDepth ≤ depth then none
        else match expect 0x5D (skipSpace bs) with
          | some rest => some (.array, rest)
          | none => do
            let rest ← parseElements fuel (depth + 1) bs
            some (.array, rest)
      else if b = 0x6E then do
        let rest ← expectWord [0x75, 0x6C, 0x6C] bs
        some (.null, rest)
      else if b = 0x74 then do
        let rest ← expectWord [0x72, 0x75, 0x65] bs
        some (.bool, rest)
      else if b = 0x66 then do
        let rest ← expectWord [0x61, 0x6C, 0x73, 0x65] bs
        some (.bool, rest)
      else do
        let (literal, rest) ← parseNumber (b :: bs)
        some (.number literal, rest)

def parseMembers : ℕ → ℕ → Bytes → Option (List (Bytes × Value) × Bytes)
  | 0, _, _ => none
  | fuel + 1, depth, bs => do
    let bs ← expect 0x22 (skipSpace bs)
    let (key, bs) ← parseString bs
    let bs ← expect 0x3A (skipSpace bs)
    let (v, bs) ← parseValue fuel depth bs
    match expect 0x2C (skipSpace bs) with
    | some bs => do
      let (members, rest) ← parseMembers fuel depth bs
      some ((key, v) :: members, rest)
    | none => do
      let rest ← expect 0x7D (skipSpace bs)
      some ([(key, v)], rest)

def parseElements : ℕ → ℕ → Bytes → Option Bytes
  | 0, _, _ => none
  | fuel + 1, depth, bs => do
    let (_, bs) ← parseValue fuel depth bs
    match expect 0x2C (skipSpace bs) with
    | some bs => parseElements fuel depth bs
    | none => expect 0x5D (skipSpace bs)

end

/-- Each opening bracket takes two calls. -/
def parse (bs : Bytes) : Option Value := do
  let (v, rest) ← parseValue (2 * bs.length + 2) 0 bs
  if skipSpace rest = [] then some v else none

def toUpper (b : UInt8) : UInt8 := if 0x61 ≤ b && b ≤ 0x7A then b - 0x20 else b

/-- Keys are compared without regard to case, and `ſ` is an `s`. -/
def foldName : Bytes → Bytes
  | [] => []
  | [b] => [toUpper b]
  | b :: c :: bs =>
    if b = 0xC5 && c = 0xBF then 0x53 :: foldName bs else toUpper b :: foldName (c :: bs)

def setField (r : Record) (member : Bytes × Value) : Option Record :=
  if foldName member.1 = foldName hashKey then match member.2 with
    | .string text => some { r with hash := text }
    | .null => some r
    | _ => none
  else if foldName member.1 = foldName atKey then match member.2 with
    | .number literal => do
      let v ← parseInt64 literal
      some { r with unixAt := v }
    | .null => some r
    | _ => none
  else some r

def unmarshal (bs : Bytes) : Option Record := do
  match ← parse bs with
  | .null => some {}
  | .object members => members.foldlM setField {}
  | _ => none

theorem plain_not_quote {b : UInt8} (h : isPlain b = true) :
    b ≠ 0x22 ∧ b ≠ 0x5C ∧ 0x20 ≤ b ∧ b < 0x80 := by
  simp only [isPlain, Bool.and_eq_true, decide_eq_true_eq] at h
  obtain ⟨⟨⟨⟨⟨⟨hlo, hhi⟩, hquote⟩, -⟩, -⟩, -⟩, hback⟩ := h
  refine ⟨hquote, hback, hlo, ?_⟩
  exact UInt8.lt_trans hhi (by decide)

private theorem scanString_plain {s : Bytes} (h : ∀ b ∈ s, isPlain b = true) (rest : Bytes) :
    scanString (s ++ 0x22 :: rest) = some (s.map .raw, rest) := by
  induction s with
  | nil =>
    rw [List.nil_append, scanString.eq_def]
    simp
  | cons b s ih =>
    obtain ⟨hb, hs⟩ := List.forall_mem_cons.mp h
    obtain ⟨hquote, hback, hlo, -⟩ := plain_not_quote hb
    have hlow : ¬ b < 0x20 := UInt8.not_lt.mpr hlo
    rw [List.cons_append, scanString.eq_def]
    simp [hquote, hback, hlow, ih hs]

private theorem joinPieces_raw (s : Bytes) : joinPieces (s.map .raw) = s := by
  induction s with
  | nil => rfl
  | cons b s ih => rw [List.map_cons, joinPieces, ih]

private theorem toValidUTF8_plain {s : Bytes} (h : ∀ b ∈ s, isPlain b = true) : toValidUTF8 0 s =
    s := by
  induction s with
  | nil => rfl
  | cons b s ih =>
    obtain ⟨hb, hs⟩ := List.forall_mem_cons.mp h
    have hrune : runeTail b s = some 0 := by simp [runeTail, (plain_not_quote hb).2.2.2]
    rw [toValidUTF8, hrune]
    simp [ih hs]

theorem parseString_plain {s : Bytes} (h : ∀ b ∈ s, isPlain b = true) (rest : Bytes) :
    parseString (s ++ 0x22 :: rest) = some (s, rest) := by
  simp [parseString, scanString_plain h, joinPieces_raw, toValidUTF8_plain h]

private theorem digit_toNat {c : Char} (h : c.isDigit = true) : 0x30 ≤ c.toNat ∧
    c.toNat ≤ 0x39 := by
  simp only [Char.isDigit, Bool.and_eq_true, decide_eq_true_eq, ge_iff_le,
    UInt32.le_iff_toNat_le] at h
  exact h

theorem isDigit_ofNat {c : Char} (h : c.isDigit = true) :
    isDigit (UInt8.ofNat c.toNat) = true ∧ (UInt8.ofNat c.toNat).toNat = c.toNat := by
  obtain ⟨hlo, hhi⟩ := digit_toNat h
  have hnat : (UInt8.ofNat c.toNat).toNat = c.toNat := by
    rw [UInt8.toNat_ofNat']
    omega
  refine ⟨?_, hnat⟩
  simp only [isDigit, Bool.and_eq_true, decide_eq_true_eq, UInt8.le_iff_toNat_le, hnat]
  exact ⟨hlo, hhi⟩

theorem isDigit_of_mem_digits {n : ℕ} {b : UInt8} (h : b ∈ digits n) : isDigit b = true := by
  obtain ⟨c, hc, rfl⟩ := List.mem_map.mp h
  exact (isDigit_ofNat (Nat.isDigit_of_mem_toDigits (by decide) (by decide) hc)).1

theorem digitsValue_digits (n : ℕ) : digitsValue (digits n) = n := by
  have hfold : ∀ (cs : List Char), (∀ c ∈ cs, c.isDigit = true) → ∀ acc : ℕ,
      (cs.map (fun c => UInt8.ofNat c.toNat)).foldl (fun n b => 10 * n + (b.toNat - 0x30)) acc =
        Nat.ofDigitChars 10 cs acc := by
    intro cs
    induction cs with
    | nil => simp
    | cons c cs ih =>
      intro h acc
      obtain ⟨hc, hcs⟩ := List.forall_mem_cons.mp h
      rw [List.map_cons, List.foldl_cons, ih hcs, Nat.ofDigitChars_cons, (isDigit_ofNat hc).2]
      rfl
  have hdig : ∀ c ∈ Nat.toDigits 10 n, c.isDigit = true :=
    fun c hc => Nat.isDigit_of_mem_toDigits (by decide) (by decide) hc
  calc digitsValue (digits n) = Nat.ofDigitChars 10 (Nat.toDigits 10 n) 0 := hfold _ hdig 0
    _ = n := Nat.ofDigitChars_ten_toDigits

/-- A number other than zero has no leading zero. -/
theorem digits_pos {n : ℕ} (h : 0 < n) : ∃ b bs, digits n = b :: bs ∧ b ≠ 0x30 := by
  induction n using Nat.strong_induction_on with
  | _ n ih =>
    by_cases hlt : n < 10
    · refine ⟨UInt8.ofNat (Nat.digitChar n).toNat, [], ?_, ?_⟩
      · simp [digits, Nat.toDigits_of_lt_base hlt]
      · interval_cases n <;> decide
    · obtain ⟨b, bs, hd, hb⟩ := ih (n / 10) (by omega) (by omega)
      refine ⟨b, bs ++ [UInt8.ofNat (Nat.digitChar (n % 10)).toNat], ?_, hb⟩
      rw [digits, Nat.toDigits_of_base_le (by decide) (by omega), List.map_append]
      have hd' : (Nat.toDigits 10 (n / 10)).map (fun c => UInt8.ofNat c.toNat) = b :: bs := hd
      rw [hd']
      rfl

theorem digits_ne_nil (n : ℕ) : digits n ≠ [] := by
  simp [digits]

private theorem parseDigits_digits (n : ℕ) {c : UInt8} (hc : isDigit c = false) (rest : Bytes) :
    parseDigits (digits n ++ c :: rest) = some (digits n, c :: rest) := by
  have hall : ∀ b ∈ digits n, isDigit b = true := fun b hb => isDigit_of_mem_digits hb
  have htake : (digits n ++ c :: rest).takeWhile isDigit = digits n := by
    rw [List.takeWhile_append_of_pos hall]
    simp [hc]
  have hdrop : (digits n ++ c :: rest).dropWhile isDigit = c :: rest := by
    rw [List.dropWhile_append_of_pos hall]
    simp [hc]
  unfold parseDigits
  rw [htake, hdrop]
  cases hd : digits n with
  | nil => exact absurd hd (digits_ne_nil n)
  | cons d ds => rfl

theorem parseInteger_digits (n : ℕ) {c : UInt8} (hc : isDigit c = false) (rest : Bytes) :
    parseInteger (digits n ++ c :: rest) = some (digits n, c :: rest) := by
  rcases Nat.eq_zero_or_pos n with rfl | hpos
  · rfl
  · obtain ⟨b, bs, hd, hb⟩ := digits_pos hpos
    have hparse := parseDigits_digits n hc rest
    rw [hd, List.cons_append] at hparse ⊢
    rw [parseInteger, if_neg hb, hparse]

theorem takeWhile_sign_digits (n : ℕ) (bs : Bytes) :
    (digits n ++ bs).takeWhile (fun b => b = 0x2D) = [] := by
  cases hd : digits n with
  | nil => exact absurd hd (digits_ne_nil n)
  | cons d ds =>
    have hdig : isDigit d = true := isDigit_of_mem_digits (n := n) (by simp [hd])
    have hne : d ≠ 0x2D := by
      rintro rfl
      exact absurd hdig (by decide)
    simp [hne]

private theorem parseNumber_formatInt (t : ℤ) (rest : Bytes) :
    parseNumber (formatInt t ++ 0x7D :: rest) = some (formatInt t, 0x7D :: rest) := by
  have hint := parseInteger_digits t.natAbs (c := 0x7D) (by decide) rest
  have hsign := takeWhile_sign_digits t.natAbs (0x7D :: rest)
  unfold parseNumber formatInt
  split <;> simp [hint, hsign, parseFraction, parseExponent]

theorem parseInt64_formatInt (v : Int64) : parseInt64 (formatInt v.toInt) = some v := by
  have hall : (digits v.toInt.natAbs).all isDigit = true :=
    List.all_eq_true.mpr (fun b hb => isDigit_of_mem_digits hb)
  have hrange : toInt64 v.toInt = some v := by
    rw [toInt64, if_pos ⟨v.le_toInt, v.toInt_lt⟩, Int64.ofInt_toInt]
  unfold formatInt
  split
  · rename_i hneg
    have habs : -((v.toInt.natAbs : ℕ) : ℤ) = v.toInt := by omega
    rw [parseInt64, if_pos rfl, digitsValue_digits, habs, hrange]
    simp [digits_ne_nil, hall]
  · rename_i hpos
    have habs : ((v.toInt.natAbs : ℕ) : ℤ) = v.toInt := by omega
    have hsign := takeWhile_sign_digits v.toInt.natAbs []
    cases hd : digits v.toInt.natAbs with
    | nil => exact absurd hd (digits_ne_nil _)
    | cons d ds =>
      have hne : d ≠ 0x2D := by
        intro h
        simp [hd, h] at hsign
      have hval : digitsValue (d :: ds) = v.toInt.natAbs := by rw [← hd, digitsValue_digits]
      rw [hd] at hall
      rw [parseInt64, if_neg hne, if_pos hall, hval, habs, hrange]

@[simp] theorem skipSpace_nil : skipSpace [] = [] := rfl

theorem skipSpace_cons {b : UInt8} (h : isJSONSpace b = false) (bs : Bytes) :
    skipSpace (b :: bs) = b :: bs := by
  simp [skipSpace, h]

private theorem parseValue_string {s : Bytes} (h : ∀ b ∈ s, isPlain b = true) (fuel depth : ℕ)
    (rest : Bytes) :
    parseValue (fuel + 1) depth (0x22 :: s ++ 0x22 :: rest) = some (.string s, rest) := by
  rw [List.cons_append, parseValue, skipSpace_cons (by decide)]
  simp [parseString_plain h]

theorem formatInt_cons (t : ℤ) : ∃ b bs, formatInt t = b :: bs ∧ (b = 0x2D ∨ isDigit b = true) := by
  unfold formatInt
  split
  · exact ⟨_, _, rfl, .inl rfl⟩
  · cases hd : digits t.natAbs with
    | nil => exact absurd hd (digits_ne_nil _)
    | cons d ds => exact ⟨d, ds, rfl, .inr (isDigit_of_mem_digits (n := t.natAbs) (by simp [hd]))⟩

private theorem parseValue_number (t : ℤ) (fuel depth : ℕ) (rest : Bytes) :
    parseValue (fuel + 1) depth (formatInt t ++ 0x7D :: rest) =
      some (.number (formatInt t), 0x7D :: rest) := by
  have hnum := parseNumber_formatInt t rest
  obtain ⟨b, bs, hb, hfirst⟩ := formatInt_cons t
  have hne : ∀ c, c ≠ 0x2D → isDigit c = false → b ≠ c := by
    rintro c hc hdig rfl
    rcases hfirst with rfl | h
    · exact hc rfl
    · simp [h] at hdig
  have hspace : isJSONSpace b = false := by
    simp [isJSONSpace, hne 0x20, hne 0x09, hne 0x0D, hne 0x0A, isDigit]
  rw [hb, List.cons_append] at hnum ⊢
  rw [parseValue, skipSpace_cons hspace]
  simp [hne 0x22, hne 0x7B, hne 0x5B, hne 0x6E, hne 0x74, hne 0x66, isDigit, hnum]

/-- The key of a member, up to its colon. -/
theorem parseMembers_key {key : Bytes} (h : ∀ b ∈ key, isPlain b = true) (fuel depth : ℕ)
    (bs : Bytes) :
    parseMembers (fuel + 1) depth (0x22 :: key ++ 0x22 :: 0x3A :: bs) = (do
      let (v, bs) ← parseValue fuel depth bs
      match expect 0x2C (skipSpace bs) with
      | some bs => do
        let (members, rest) ← parseMembers fuel depth bs
        some ((key, v) :: members, rest)
      | none => do
        let rest ← expect 0x7D (skipSpace bs)
        some ([(key, v)], rest)) := by
  rw [List.cons_append, parseMembers, skipSpace_cons (by decide)]
  simp [expect, parseString_plain h, skipSpace_cons (b := 0x3A) (by decide)]

private theorem hashKey_plain : ∀ b ∈ hashKey, isPlain b = true := List.all_eq_true.mp rfl

private theorem atKey_plain : ∀ b ∈ atKey, isPlain b = true := List.all_eq_true.mp rfl

private theorem parse_marshal (hash : Hash) (unixAt : Int64) : parse (marshal hash unixAt) =
    some (.object [(hashKey, .string hash.bytes), (atKey, .number (formatInt unixAt.toInt))]) := by
  obtain ⟨fuel, hfuel⟩ : ∃ fuel, 2 * (marshal hash unixAt).length + 2 = fuel + 4 :=
    ⟨2 * (marshal hash unixAt).length - 2, by simp [marshal]⟩
  have hat : parseMembers (fuel + 2) 1 (0x22 :: atKey ++ 0x22 :: 0x3A ::
      (formatInt unixAt.toInt ++ [0x7D])) =
        some ([(atKey, .number (formatInt unixAt.toInt))], []) := by
    rw [parseMembers_key atKey_plain, parseValue_number]
    simp [expect, skipSpace_cons (b := 0x7D) (by decide)]
  have hhash : parseMembers (fuel + 3) 1 (0x22 :: hashKey ++ 0x22 :: 0x3A ::
      (0x22 :: hash.bytes ++ 0x22 :: 0x2C :: (0x22 :: atKey ++ 0x22 :: 0x3A ::
        (formatInt unixAt.toInt ++ [0x7D])))) =
          some ([(hashKey, .string hash.bytes), (atKey, .number (formatInt unixAt.toInt))],
            []) := by
    rw [parseMembers_key hashKey_plain, parseValue_string hash.plain]
    simp only [expect, skipSpace_cons (b := 0x2C) (by decide), if_true, hat, Option.bind_eq_bind,
      Option.bind_some]
  have hopen : marshal hash unixAt = 0x7B :: (0x22 :: hashKey ++ 0x22 :: 0x3A ::
      (0x22 :: hash.bytes ++ 0x22 :: 0x2C :: (0x22 :: atKey ++ 0x22 :: 0x3A ::
        (formatInt unixAt.toInt ++ [0x7D])))) := by
    simp [marshal]
  unfold parse
  rw [hfuel, hopen, parseValue, skipSpace_cons (by decide)]
  simp only [List.cons_append] at hhash ⊢
  simp [hhash, expect, skipSpace_cons (b := 0x22) (by decide), maxNestingDepth]

theorem unmarshal_marshal (hash : Hash) (unixAt : Int64) :
    unmarshal (marshal hash unixAt) = some { hash := hash.bytes, unixAt := unixAt } := by
  have hkey : foldName atKey ≠ foldName hashKey := by decide
  rw [unmarshal, parse_marshal]
  simp [setField, hkey, parseInt64_formatInt]

/-- A record is one line. -/
theorem newline_notMem_marshal (hash : Hash) (unixAt : Int64) :
    0x0A ∉ marshal hash unixAt := by
  have hhash : 0x0A ∉ hash.bytes := fun h => absurd (hash.plain _ h) (by decide)
  have hdigits : 0x0A ∉ formatInt unixAt.toInt := by
    have hd : 0x0A ∉ digits unixAt.toInt.natAbs := fun h =>
      absurd (isDigit_of_mem_digits h) (by decide)
    unfold formatInt
    split <;> simp [hd]
  simp [marshal, hhash, hdigits, hashKey, atKey]

private theorem plain_hexEncode (bs : Bytes) : ∀ b ∈ utf8 (hexEncode bs), isPlain b = true := by
  have hdigit : ∀ n < 16, (String.utf8EncodeChar (Nat.digitChar n)).all isPlain = true := by
    decide
  intro b hb
  simp only [utf8, hexEncode, String.toList_ofList, List.mem_flatMap] at hb
  obtain ⟨c, ⟨d, -, hc⟩, hb⟩ := hb
  have hlt := d.toNat_lt
  simp only [List.mem_cons, List.not_mem_nil, or_false] at hc
  rcases hc with rfl | rfl
  · exact List.all_eq_true.mp (hdigit _ (by omega)) b hb
  · exact List.all_eq_true.mp (hdigit _ (by omega)) b hb

private theorem utf8_append (s t : String) : utf8 (s ++ t) = utf8 s ++ utf8 t := by
  simp [utf8]

private theorem plain_hexCookieIDHash (key : Keyed) (siteID : ℕ) (cookieID : String) :
    ∀ b ∈ utf8 (hexCookieIDHash key siteID cookieID), isPlain b = true := by
  have hprefix : (utf8 "h:").all isPlain = true := by decide
  unfold hexCookieIDHash
  split
  · simp [utf8]
  · intro b hb
    rw [utf8_append] at hb
    rcases List.mem_append.mp hb with hb | hb
    · exact List.all_eq_true.mp hprefix b hb
    · exact plain_hexEncode _ b hb

/-- What `Add` is called with. -/
def Hash.ofCookie (key : Keyed) (siteID : ℕ) (cookieID : String) : Hash :=
  ⟨utf8 (hexCookieIDHash key siteID cookieID), plain_hexCookieIDHash key siteID cookieID⟩

end Statnive.SuppressionRecord
