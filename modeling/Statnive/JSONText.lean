import Statnive.SuppressionRecord

/-!
# JSON texts

Strings, numbers, arrays and objects as `json.Marshal` writes them, and values that keep the
elements of an array. What is written is read back, with U+FFFD for each byte that is not UTF-8.
-/

namespace Statnive.JSONText

open PrivacyPolicy VisitorIdentity SuppressionRecord

/-- The bytes of some text. -/
def ValidUTF8 (bs : Bytes) : Prop := ∃ s : String, utf8 s = bs

section Runes

variable {b : UInt8} {bs : Bytes} {k : ℕ}

theorem runeTail_ascii (h : b < 0x80) (bs : Bytes) : runeTail b bs = some 0 := if_pos h

theorem runeTail_some (h : runeTail b bs = some k) (hb : ¬ b < 0x80) :
    ∃ lo hi c rest, runeShape b = some (lo, hi, k - 1) ∧ 0 < k ∧ bs = c :: rest ∧
      (lo ≤ c ∧ c ≤ hi) ∧ (rest.take (k - 1)).length = k - 1 ∧
      ∀ d ∈ rest.take (k - 1), 0x80 ≤ d ∧ d ≤ 0xBF := by
  rw [runeTail.eq_def, if_neg hb] at h
  split at h
  next lo hi n c rest hshape =>
    obtain ⟨hcond, hk⟩ := Option.ite_none_right_eq_some.mp h
    obtain rfl := Option.some.inj hk
    simp only [Bool.and_eq_true, decide_eq_true_eq, List.all_eq_true] at hcond
    exact ⟨lo, hi, c, rest, hshape, Nat.succ_pos n, rfl, hcond.1.1, hcond.1.2, hcond.2⟩
  next => exact nomatch h

private theorem le_of_runeShape {lo hi : UInt8} (h : runeShape b = some (lo, hi, k)) :
    0x80 ≤ lo ∧ hi ≤ 0xBF := by
  rw [runeShape] at h
  split_ifs at h <;> simp only [Option.some.injEq, Prod.mk.injEq] at h <;>
    obtain ⟨rfl, rfl, -⟩ := h <;> decide

/-- The bytes behind the first one of a rune are continuation bytes. -/
theorem continuations (h : runeTail b bs = some k) :
    (bs.take k).length = k ∧ ∀ d ∈ bs.take k, 0x80 ≤ d := by
  by_cases hb : b < 0x80
  · obtain rfl := Option.some.inj ((runeTail_ascii hb bs).symm.trans h)
    simp
  · obtain ⟨lo, hi, c, rest, hshape, hk, rfl, hc, hlen, hconts⟩ := runeTail_some h hb
    obtain ⟨k, rfl⟩ : ∃ n, k = n + 1 := ⟨k - 1, (Nat.succ_pred_eq_of_pos hk).symm⟩
    rw [Nat.add_sub_cancel] at hlen hconts
    refine ⟨by rw [List.take_succ_cons, List.length_cons, hlen], fun d hd => ?_⟩
    obtain rfl | hd := List.mem_cons.mp hd
    · exact UInt8.le_trans (le_of_runeShape hshape).1 hc.1
    · exact (hconts d hd).1

/-- Whether a rune is there depends on its own bytes alone. -/
theorem runeTail_take (h : runeTail b bs = some k) (rest : Bytes) :
    runeTail b (bs.take k ++ rest) = some k := by
  by_cases hb : b < 0x80
  · obtain rfl := Option.some.inj ((runeTail_ascii hb bs).symm.trans h)
    exact runeTail_ascii hb _
  · obtain ⟨lo, hi, c, conts, hshape, hk, rfl, hc, hlen, hconts⟩ := runeTail_some h hb
    obtain ⟨k, rfl⟩ : ∃ n, k = n + 1 := ⟨k - 1, (Nat.succ_pred_eq_of_pos hk).symm⟩
    rw [Nat.add_sub_cancel] at hlen hconts hshape
    have htake : (conts.take k ++ rest).take k = conts.take k := by
      rw [List.take_append_of_le_length hlen.ge, List.take_of_length_le hlen.le]
    rw [runeTail.eq_def, if_neg hb, hshape, List.take_succ_cons, List.cons_append]
    dsimp only
    rw [htake, hlen, if_pos]
    simpa [hc.1, hc.2] using hconts

end Runes

private theorem toValidUTF8_copy (k : ℕ) (bs : Bytes) :
    toValidUTF8 k bs = bs.take k ++ toValidUTF8 0 (bs.drop k) := by
  induction k generalizing bs with
  | zero => rfl
  | succ k ih =>
    cases bs with
    | nil => rfl
    | cons b bs => rw [toValidUTF8, ih]; rfl

theorem toValidUTF8_rune {b : UInt8} {bs : Bytes} {k : ℕ} (h : runeTail b bs = some k) :
    toValidUTF8 0 (b :: bs) = b :: bs.take k ++ toValidUTF8 0 (bs.drop k) := by
  rw [toValidUTF8, h]
  exact congrArg (b :: ·) (toValidUTF8_copy k bs)

theorem toValidUTF8_stray {b : UInt8} {bs : Bytes} (h : runeTail b bs = none) :
    toValidUTF8 0 (b :: bs) = replacement ++ toValidUTF8 0 bs := by
  rw [toValidUTF8, h]

/-- A text whose runes are all there is left as it is. -/
theorem toValidUTF8_rune_append (b : UInt8) (conts : Bytes) {bs : Bytes}
    (h : runeTail b (conts ++ bs) = some conts.length) :
    toValidUTF8 0 (b :: (conts ++ bs)) = b :: conts ++ toValidUTF8 0 bs := by
  rw [toValidUTF8_rune h, List.take_left, List.drop_left]

private theorem toValidUTF8_idem (bs : Bytes) : toValidUTF8 0 (toValidUTF8 0 bs) =
    toValidUTF8 0 bs := by
  induction hn : bs.length using Nat.strong_induction_on generalizing bs with
  | _ n ih =>
    cases bs with
    | nil => rfl
    | cons b bs =>
      cases h : runeTail b bs with
      | none =>
        have hrec := ih bs.length (by simp [← hn]) bs rfl
        rw [toValidUTF8_stray h]
        exact (toValidUTF8_rune_append 0xEF [0xBF, 0xBD] rfl).trans
          (congrArg (replacement ++ ·) hrec)
      | some k =>
        have hrec := ih (bs.drop k).length
          (by rw [← hn, List.length_drop, List.length_cons]; omega) (bs.drop k) rfl
        have hlen := (continuations h).1
        have hrune := runeTail_take h (toValidUTF8 0 (bs.drop k))
        rw [toValidUTF8_rune h, List.cons_append,
          toValidUTF8_rune_append b _ (by rw [hrune, hlen]), hrec, List.cons_append]

private theorem runeShape_two : ∀ m < 30, runeShape (UInt8.ofNat (m + 194)) =
    some (0x80, 0xBF, 0) := by
  decide

private theorem runeShape_three : ∀ m < 16, runeShape (UInt8.ofNat (m + 224)) =
    some (if m = 0 then 0xA0 else 0x80, if m = 13 then 0x9F else 0xBF, 1) := by decide

private theorem runeShape_four : ∀ m < 5, runeShape (UInt8.ofNat (m + 240)) =
    some (if m = 0 then 0x90 else 0x80, if m = 4 then 0x8F else 0xBF, 2) := by decide

theorem ofNat_le {n m : ℕ} (hn : n < 256) (hm : m < 256) :
    UInt8.ofNat n ≤ UInt8.ofNat m ↔ n ≤ m := by
  rw [UInt8.le_iff_toNat_le, UInt8.toNat_ofNat_of_lt' hn, UInt8.toNat_ofNat_of_lt' hm]

theorem runeTail_of {b c lo hi : UInt8} {conts : Bytes} (hb : 0x80 ≤ b)
    (hshape : runeShape b = some (lo, hi, conts.length)) (hc : lo ≤ c ∧ c ≤ hi)
    (hconts : ∀ d ∈ conts, 0x80 ≤ d ∧ d ≤ 0xBF) (bs : Bytes) :
    runeTail b (c :: conts ++ bs) = some (c :: conts).length := by
  rw [runeTail.eq_def, if_neg (UInt8.not_lt.mpr hb), hshape, List.cons_append]
  dsimp only
  rw [List.take_left, if_pos]
  · rfl
  · simpa [hc.1, hc.2] using hconts

/-- A byte that continues a scalar value. -/
theorem continuation_ofNat (n : ℕ) :
    0x80 ≤ UInt8.ofNat (n % 64 + 128) ∧ UInt8.ofNat (n % 64 + 128) ≤ 0xBF :=
  ⟨(ofNat_le (n := 128) (by decide) (by omega)).mpr (by omega),
    (ofNat_le (m := 191) (by omega) (by decide)).mpr (by omega)⟩

/-- The bytes of a scalar value are a rune. -/
theorem runeTail_utf8EncodeChar (c : Char) (bs : Bytes) :
    ∃ b conts, String.utf8EncodeChar c = b :: conts ∧
      runeTail b (conts ++ bs) = some conts.length := by
  have hc : c.val.toNat < 0xD800 ∨ 0xDFFF < c.val.toNat ∧ c.val.toNat < 0x110000 := c.valid
  have hlead {n : ℕ} (hlo : 128 ≤ n) (hhi : n < 256) : 0x80 ≤ UInt8.ofNat n :=
    (ofNat_le (n := 128) (by decide) hhi).mpr hlo
  rw [String.utf8EncodeChar]
  generalize c.val.toNat = v at hc
  split_ifs with hone htwo hthree
  · refine ⟨_, _, rfl, runeTail_ascii ?_ _⟩
    rw [← UInt8.not_le, show (0x80 : UInt8) = UInt8.ofNat 128 from rfl,
      ofNat_le (by decide) (by omega)]
    omega
  · have hshape := runeShape_two (v / 64 % 32 - 2) (by omega)
    rw [show v / 64 % 32 - 2 + 194 = v / 64 % 32 + 192 by omega] at hshape
    exact ⟨_, _, rfl, runeTail_of (hlead (by omega) (by omega)) hshape (continuation_ofNat v)
      (by simp) bs⟩
  · have hshape := runeShape_three (v / 4096 % 16) (by omega)
    refine ⟨_, _, rfl, runeTail_of (hlead (by omega) (by omega)) hshape ⟨?_, ?_⟩
      (List.forall_mem_singleton.mpr (continuation_ofNat v)) bs⟩
    · split
      · exact (ofNat_le (n := 160) (by decide) (by omega)).mpr (by omega)
      · exact (continuation_ofNat _).1
    · split
      · exact (ofNat_le (m := 159) (by omega) (by decide)).mpr (by omega)
      · exact (continuation_ofNat _).2
  · have hshape := runeShape_four (v / 262144 % 8) (by omega)
    refine ⟨_, _, rfl, runeTail_of (hlead (by omega) (by omega)) hshape ⟨?_, ?_⟩
      (List.forall_mem_cons.mpr ⟨continuation_ofNat (v / 64),
        List.forall_mem_singleton.mpr (continuation_ofNat v)⟩) bs⟩
    · split
      · exact (ofNat_le (n := 144) (by decide) (by omega)).mpr (by omega)
      · exact (continuation_ofNat _).1
    · split
      · exact (ofNat_le (m := 143) (by omega) (by decide)).mpr (by omega)
      · exact (continuation_ofNat _).2

theorem toValidUTF8_of_valid {bs : Bytes} (h : ValidUTF8 bs) : toValidUTF8 0 bs = bs := by
  obtain ⟨s, rfl⟩ := h
  rw [utf8]
  induction s.toList with
  | nil => rfl
  | cons c cs ih =>
    obtain ⟨b, conts, hchar, hrune⟩ := runeTail_utf8EncodeChar c (cs.flatMap String.utf8EncodeChar)
    rw [List.flatMap_cons, hchar, List.cons_append, toValidUTF8_rune_append b conts hrune, ih]
    rfl

def hexDigit (n : ℕ) : UInt8 := if n < 10 then UInt8.ofNat (n + 0x30) else UInt8.ofNat (n + 0x57)

/-- `<`, `>` and `&` are escaped, as what cannot stand in a string. -/
def escapeASCII (b : UInt8) : Bytes :=
  if b = 0x22 || b = 0x5C then [0x5C, b]
  else if b = 0x08 then [0x5C, 0x62]
  else if b = 0x0C then [0x5C, 0x66]
  else if b = 0x0A then [0x5C, 0x6E]
  else if b = 0x0D then [0x5C, 0x72]
  else if b = 0x09 then [0x5C, 0x74]
  else if b < 0x20 || b = 0x26 || b = 0x3C || b = 0x3E then
    [0x5C, 0x75, 0x30, 0x30, hexDigit (b.toNat / 16), hexDigit (b.toNat % 16)]
  else [b]

/-- `\ufffd`. -/
def escapedReplacement : Bytes := [0x5C, 0x75, 0x66, 0x66, 0x66, 0x64]

/-- The last digit of `\u2028` or `\u2029`. -/
def lineSeparator (b : UInt8) (bs : Bytes) : Option UInt8 :=
  if b = 0xE2 && bs.take 2 = [0x80, 0xA8] then some 0x38
  else if b = 0xE2 && bs.take 2 = [0x80, 0xA9] then some 0x39
  else none

/-- The text of a string behind the bytes of the current rune, which are `copied` unless an
escape stands for them. -/
def escapeFrom : Bool → ℕ → Bytes → Bytes
  | _, _, [] => []
  | copied, k + 1, b :: bs =>
    if copied then b :: escapeFrom copied k bs else escapeFrom copied k bs
  | _, 0, b :: bs =>
    if b < 0x80 then escapeASCII b ++ escapeFrom true 0 bs
    else match runeTail b bs with
      | none => escapedReplacement ++ escapeFrom true 0 bs
      | some k => match lineSeparator b bs with
        | some d => [0x5C, 0x75, 0x32, 0x30, 0x32, d] ++ escapeFrom false k bs
        | none => b :: escapeFrom true k bs

def escape (bs : Bytes) : Bytes := escapeFrom true 0 bs

def quote (bs : Bytes) : Bytes := 0x22 :: escape bs ++ [0x22]

section Strings

def pieceBytes : Piece → Bytes
  | .raw b => [b]
  | .unit u => encodeUnit u

/-- The scanner reads a text as the pieces, whatever follows it. -/
def ReadsAs (text : Bytes) (ps : List Piece) : Prop :=
  ∀ rest, scanString (text ++ rest) = (scanString rest).map fun r => (ps ++ r.1, r.2)

theorem readsAs_nil : ReadsAs [] [] := fun rest => by
  cases h : scanString rest <;> simp [h]

theorem ReadsAs.append {s t : Bytes} {ps qs : List Piece} (hs : ReadsAs s ps)
    (ht : ReadsAs t qs) : ReadsAs (s ++ t) (ps ++ qs) := fun rest => by
  rw [List.append_assoc, hs, ht, Option.map_map]
  exact congrArg (Option.map · _) (funext fun r => by simp)

theorem readsAs_raw {b : UInt8} (hquote : b ≠ 0x22) (hback : b ≠ 0x5C) (hlow : ¬ b < 0x20) :
    ReadsAs [b] [.raw b] := fun rest => by
  rw [List.singleton_append, scanString.eq_def]
  cases h : scanString rest <;> simp [hquote, hback, hlow, h]

theorem readsAs_escaped {e c : UInt8} (he : e ≠ 0x75) (hc : escaped e = some c) :
    ReadsAs [0x5C, e] [.raw c] := fun rest => by
  rw [List.cons_append, List.singleton_append, scanString.eq_def]
  cases h : scanString rest <;> simp [he, hc, h]

theorem readsAs_unit {a b c d : UInt8} {u : ℕ} (hu : hexUnit a b c d = some u) :
    ReadsAs [0x5C, 0x75, a, b, c, d] [.unit u] := fun rest => by
  simp only [List.cons_append, List.nil_append]
  rw [scanString.eq_def]
  cases h : scanString rest <;> simp [hu, h]

/-- The text is read as pieces of which none begins a surrogate pair, and which give the bytes. -/
def Spells (text out : Bytes) : Prop :=
  ∃ ps, ReadsAs text ps ∧ (∀ p ∈ ps, ∀ u, p = .unit u → isHigh u = false) ∧
    ps.flatMap pieceBytes = out

theorem spells_nil : Spells [] [] := ⟨[], readsAs_nil, by simp, rfl⟩

theorem Spells.append {s t a b : Bytes} (hs : Spells s a) (ht : Spells t b) :
    Spells (s ++ t) (a ++ b) := by
  obtain ⟨ps, hps, hpsurr, rfl⟩ := hs
  obtain ⟨qs, hqs, hqsurr, rfl⟩ := ht
  refine ⟨ps ++ qs, hps.append hqs, fun p hp => ?_, List.flatMap_append⟩
  exact (List.mem_append.mp hp).elim (hpsurr p) (hqsurr p)

theorem spells_raw {b : UInt8} (hquote : b ≠ 0x22) (hback : b ≠ 0x5C) (hlow : ¬ b < 0x20) :
    Spells [b] [b] := ⟨[.raw b], readsAs_raw hquote hback hlow, by simp, rfl⟩

theorem spells_escaped {e c : UInt8} (he : e ≠ 0x75) (hc : escaped e = some c) :
    Spells [0x5C, e] [c] := ⟨[.raw c], readsAs_escaped he hc, by simp, rfl⟩

theorem spells_unit {a b c d : UInt8} {u : ℕ} (hu : hexUnit a b c d = some u)
    (hhigh : isHigh u = false) : Spells [0x5C, 0x75, a, b, c, d] (encodeUnit u) :=
  ⟨[.unit u], readsAs_unit hu, by simpa using hhigh, List.append_nil _⟩

/-- Bytes behind the first one of a rune stand for themselves. -/
theorem spells_continuations {bs : Bytes} (h : ∀ b ∈ bs, 0x80 ≤ b) : Spells bs bs := by
  induction bs with
  | nil => exact spells_nil
  | cons b bs ih =>
    obtain ⟨hb, hbs⟩ := List.forall_mem_cons.mp h
    have hne {c : UInt8} (hc : c < 0x80) : b ≠ c := fun heq => UInt8.not_lt.mpr hb (heq ▸ hc)
    have hlow : ¬ b < 0x20 := UInt8.not_lt.mpr (UInt8.le_trans (by decide) hb)
    exact (spells_raw (hne (by decide)) (hne (by decide)) hlow).append (ih hbs)

private theorem hexUnit_ascii :
    ∀ n < 128, hexUnit 0x30 0x30 (hexDigit (n / 16)) (hexDigit (n % 16)) =
    some n := by decide

private theorem encodeUnit_ascii : ∀ n < 128, encodeUnit n = [UInt8.ofNat n] := by decide

private theorem isHigh_ascii : ∀ n < 128, isHigh n = false := by decide

private theorem spells_escapeASCII {b : UInt8} (hb : b < 0x80) : Spells (escapeASCII b) [b] := by
  have hnat : b.toNat < 128 := UInt8.lt_iff_toNat_lt.mp hb
  rw [escapeASCII]
  split_ifs with hquote h8 hC hA hD h9 hlow
  · simp only [Bool.or_eq_true, decide_eq_true_eq] at hquote
    obtain rfl | rfl := hquote <;> exact spells_escaped (by decide) rfl
  · exact h8 ▸ spells_escaped (by decide) rfl
  · exact hC ▸ spells_escaped (by decide) rfl
  · exact hA ▸ spells_escaped (by decide) rfl
  · exact hD ▸ spells_escaped (by decide) rfl
  · exact h9 ▸ spells_escaped (by decide) rfl
  · have hspells := spells_unit (hexUnit_ascii b.toNat hnat) (isHigh_ascii b.toNat hnat)
    rwa [encodeUnit_ascii b.toNat hnat, UInt8.ofNat_toNat] at hspells
  · simp only [Bool.or_eq_true, decide_eq_true_eq, not_or] at hquote hlow
    exact spells_raw hquote.1 hquote.2 hlow.1.1.1

private theorem escapeFrom_copied (k : ℕ) (bs : Bytes) :
    escapeFrom true k bs = bs.take k ++ escape (bs.drop k) := by
  induction k generalizing bs with
  | zero => rfl
  | succ k ih =>
    cases bs with
    | nil => rfl
    | cons b bs => rw [escapeFrom, if_pos rfl, ih]; rfl

private theorem escapeFrom_dropped (k : ℕ) (bs : Bytes) :
    escapeFrom false k bs = escape (bs.drop k) := by
  induction k generalizing bs with
  | zero => cases bs <;> rfl
  | succ k ih =>
    cases bs with
    | nil => rfl
    | cons b bs =>
      rw [escapeFrom, if_neg Bool.false_ne_true, ih]
      rfl

/-- A line separator is the rune `E2 80 A8` or `E2 80 A9`. -/
theorem lineSeparator_some {b d : UInt8} {bs : Bytes} (h : lineSeparator b bs = some d) :
    runeTail b bs = some 2 ∧ Spells [0x5C, 0x75, 0x32, 0x30, 0x32, d] (b :: bs.take 2) := by
  rw [lineSeparator] at h
  split_ifs at h with h8 h9
  · simp only [Bool.and_eq_true, decide_eq_true_eq] at h8
    obtain ⟨rfl, htake⟩ := h8
    obtain rfl := Option.some.inj h
    rw [htake]
    have hrune : runeTail 0xE2 ([0x80, 0xA8] ++ bs.drop 2) = some 2 := rfl
    rw [← htake, List.take_append_drop] at hrune
    exact ⟨hrune, spells_unit (u := 0x2028) rfl rfl⟩
  · simp only [Bool.and_eq_true, decide_eq_true_eq] at h9
    obtain ⟨rfl, htake⟩ := h9
    obtain rfl := Option.some.inj h
    rw [htake]
    have hrune : runeTail 0xE2 ([0x80, 0xA9] ++ bs.drop 2) = some 2 := rfl
    rw [← htake, List.take_append_drop] at hrune
    exact ⟨hrune, spells_unit (u := 0x2029) rfl rfl⟩

private theorem spells_escape (bs : Bytes) : Spells (escape bs) (toValidUTF8 0 bs) := by
  induction hn : bs.length using Nat.strong_induction_on generalizing bs with
  | _ n ih =>
    cases bs with
    | nil => exact spells_nil
    | cons b bs =>
      have hrest (k : ℕ) : Spells (escape (bs.drop k)) (toValidUTF8 0 (bs.drop k)) :=
        ih (bs.drop k).length (by rw [← hn, List.length_drop, List.length_cons]; omega) _ rfl
      rw [escape, escapeFrom]
      split
      next hb =>
        rw [toValidUTF8_rune (runeTail_ascii hb bs)]
        exact (spells_escapeASCII hb).append (hrest 0)
      next hb =>
        cases hrune : runeTail b bs with
        | none =>
          rw [toValidUTF8_stray hrune]
          exact (spells_unit (u := 0xFFFD) rfl rfl).append (hrest 0)
        | some k =>
          rw [toValidUTF8_rune hrune]
          cases hline : lineSeparator b bs with
          | some d =>
            obtain ⟨htwo, hspells⟩ := lineSeparator_some hline
            obtain rfl := Option.some.inj (htwo.symm.trans hrune)
            dsimp only
            rw [escapeFrom_dropped]
            exact hspells.append (hrest 2)
          | none =>
            dsimp only
            rw [escapeFrom_copied]
            have hconts : ∀ d ∈ b :: bs.take k, 0x80 ≤ d :=
              List.forall_mem_cons.mpr ⟨UInt8.not_lt.mp hb, (continuations hrune).2⟩
            exact (spells_continuations hconts).append (hrest k)

private theorem joinPieces_flatMap {ps : List Piece}
    (h : ∀ p ∈ ps, ∀ u, p = .unit u → isHigh u = false) :
    joinPieces ps = ps.flatMap pieceBytes := by
  induction ps with
  | nil => rfl
  | cons p ps ih =>
    obtain ⟨hp, hps⟩ := List.forall_mem_cons.mp h
    have hrest := ih hps
    rw [List.flatMap_cons, ← hrest]
    cases p with
    | raw b => rfl
    | unit u =>
      have hhigh := hp u rfl
      cases ps with
      | nil => rfl
      | cons q qs =>
        cases q with
        | raw b => rfl
        | unit lo => rw [joinPieces, hhigh, Bool.false_and, if_neg Bool.false_ne_true]; rfl

/-- A string is read back with U+FFFD in the place of what is not UTF-8. -/
theorem parseString_escape (bs rest : Bytes) :
    parseString (escape bs ++ 0x22 :: rest) = some (toValidUTF8 0 bs, rest) := by
  obtain ⟨ps, hreads, hsurr, hout⟩ := spells_escape bs
  have hquote : scanString (0x22 :: rest) = some ([], rest) := by
    rw [scanString.eq_def]
    rfl
  rw [parseString, hreads, hquote]
  simp [joinPieces_flatMap hsurr, hout, toValidUTF8_idem]

end Strings

inductive JSON where
  | null
  | bool (b : Bool)
  | number (literal : Bytes)
  | string (text : Bytes)
  | array (elements : List JSON)
  | object (members : List (Bytes × JSON))

def wordNull : Bytes := [0x6E, 0x75, 0x6C, 0x6C]

def wordTrue : Bytes := [0x74, 0x72, 0x75, 0x65]

def wordFalse : Bytes := [0x66, 0x61, 0x6C, 0x73, 0x65]

mutual

def readValue : ℕ → ℕ → Bytes → Option (JSON × Bytes)
  | 0, _, _ => none
  | fuel + 1, depth, bs => match skipSpace bs with
    | [] => none
    | b :: bs =>
      if b = 0x22 then do
        let (s, rest) ← parseString bs
        some (.string s, rest)
      else if b = 0x7B then
        if maxNestingDepth ≤ depth then none
        else match expect 0x7D (skipSpace bs) with
          | some rest => some (.object [], rest)
          | none => do
            let (members, rest) ← readMembers fuel (depth + 1) bs
            some (.object members, rest)
      else if b = 0x5B then
        if maxNestingDepth ≤ depth then none
        else match expect 0x5D (skipSpace bs) with
          | some rest => some (.array [], rest)
          | none => do
            let (elements, rest) ← readElements fuel (depth + 1) bs
            some (.array elements, rest)
      else if b = 0x6E then do
        let rest ← expectWord wordNull (b :: bs)
        some (.null, rest)
      else if b = 0x74 then do
        let rest ← expectWord wordTrue (b :: bs)
        some (.bool true, rest)
      else if b = 0x66 then do
        let rest ← expectWord wordFalse (b :: bs)
        some (.bool false, rest)
      else do
        let (literal, rest) ← parseNumber (b :: bs)
        some (.number literal, rest)

def readMembers : ℕ → ℕ → Bytes → Option (List (Bytes × JSON) × Bytes)
  | 0, _, _ => none
  | fuel + 1, depth, bs => do
    let bs ← expect 0x22 (skipSpace bs)
    let (key, bs) ← parseString bs
    let bs ← expect 0x3A (skipSpace bs)
    let (v, bs) ← readValue fuel depth bs
    match expect 0x2C (skipSpace bs) with
    | some bs => do
      let (members, rest) ← readMembers fuel depth bs
      some ((key, v) :: members, rest)
    | none => do
      let rest ← expect 0x7D (skipSpace bs)
      some ([(key, v)], rest)

def readElements : ℕ → ℕ → Bytes → Option (List JSON × Bytes)
  | 0, _, _ => none
  | fuel + 1, depth, bs => do
    let (v, bs) ← readValue fuel depth bs
    match expect 0x2C (skipSpace bs) with
    | some bs => do
      let (elements, rest) ← readElements fuel depth bs
      some (v :: elements, rest)
    | none => do
      let rest ← expect 0x5D (skipSpace bs)
      some ([v], rest)

end

/-- Each opening bracket takes two calls. -/
def read (bs : Bytes) : Option JSON := do
  let (v, rest) ← readValue (2 * bs.length + 2) 0 bs
  if skipSpace rest = [] then some v else none

def writeElements : List Bytes → Bytes
  | [] => []
  | [t] => t
  | t :: u :: ts => t ++ 0x2C :: writeElements (u :: ts)

def writeArray (ts : List Bytes) : Bytes := 0x5B :: writeElements ts ++ [0x5D]

def writeMember (m : Bytes × Bytes) : Bytes := quote m.1 ++ 0x3A :: m.2

def writeObject (ms : List (Bytes × Bytes)) : Bytes :=
  0x7B :: writeElements (ms.map writeMember) ++ [0x7D]

/-- What may stand behind a value in an array or an object. -/
def Closes (rest : Bytes) : Prop :=
  ∃ c tail, rest = c :: tail ∧ (c = 0x2C ∨ c = 0x5D ∨ c = 0x7D)

/-- The text is read as the value, if so many brackets may still be opened. -/
structure Denotes (nesting : ℕ) (text : Bytes) (v : JSON) : Prop where
  opens : ∃ b bs, text = b :: bs ∧ b ≠ 0x5D ∧ isJSONSpace b = false
  reads : ∀ fuel depth rest, text.length ≤ fuel → depth + nesting ≤ maxNestingDepth →
    Closes rest → readValue (fuel + 1) depth (text ++ rest) = some (v, rest)

theorem Denotes.mono {n m : ℕ} {text : Bytes} {v : JSON} (h : Denotes n text v) (hm : n ≤ m) :
    Denotes m text v where
  opens := h.opens
  reads fuel depth rest hfuel hdepth hrest := h.reads fuel depth rest hfuel (by omega) hrest

/-- The text is a string in quotes, and is read as `out`. -/
def Quotes (text out : Bytes) : Prop :=
  ∃ body, text = 0x22 :: body ∧ ∀ rest, parseString (body ++ rest) = some (out, rest)

theorem quotes_quote (bs : Bytes) : Quotes (quote bs) (toValidUTF8 0 bs) :=
  ⟨escape bs ++ [0x22], rfl, fun rest => by
    rw [List.append_assoc, List.singleton_append, parseString_escape]⟩

theorem denotes_of_quotes {text out : Bytes} (h : Quotes text out) :
    Denotes 0 text (.string out) := by
  obtain ⟨body, rfl, hread⟩ := h
  refine ⟨⟨0x22, body, rfl, by decide, rfl⟩, fun fuel depth rest _ _ _ => ?_⟩
  rw [List.cons_append, readValue, skipSpace_cons (by decide)]
  simp [hread]

theorem denotes_quote (bs : Bytes) : Denotes 0 (quote bs) (.string (toValidUTF8 0 bs)) :=
  denotes_of_quotes (quotes_quote bs)

theorem denotes_null : Denotes 0 wordNull .null where
  opens := ⟨0x6E, _, rfl, by decide, rfl⟩
  reads fuel depth rest _ _ _ := by
    rw [wordNull, List.cons_append, readValue, skipSpace_cons (by decide)]
    simp [expectWord, wordNull]

private theorem parseNumber_formatInt_append {rest : Bytes} (t : ℤ) (hrest : Closes rest) :
    parseNumber (formatInt t ++ rest) = some (formatInt t, rest) := by
  obtain ⟨c, tail, rfl, hc⟩ := hrest
  have hdigit : isDigit c = false := by obtain rfl | rfl | rfl := hc <;> rfl
  have hpoint : c ≠ 0x2E := by obtain rfl | rfl | rfl := hc <;> decide
  have hexp : (c = 0x65 || c = 0x45) = false := by obtain rfl | rfl | rfl := hc <;> rfl
  have hint := parseInteger_digits t.natAbs hdigit tail
  have hsign := takeWhile_sign_digits t.natAbs (c :: tail)
  have hfraction : parseFraction (c :: tail) = some ([], c :: tail) := if_neg hpoint
  have hexponent : parseExponent (c :: tail) = some ([], c :: tail) := by
    rw [parseExponent, hexp, if_neg Bool.false_ne_true]
  rw [parseNumber, formatInt]
  split <;> simp [hint, hsign, hfraction, hexponent]

theorem denotes_formatInt (t : ℤ) : Denotes 0 (formatInt t) (.number (formatInt t)) := by
  obtain ⟨b, bs, hb, hfirst⟩ := formatInt_cons t
  have hne (c : UInt8) (hc : c ≠ 0x2D) (hdigit : isDigit c = false) : b ≠ c := by
    rintro rfl
    obtain rfl | h := hfirst
    · exact hc rfl
    · exact absurd h (by simp [hdigit])
  have hspace : isJSONSpace b = false := by
    simp [isJSONSpace, hne 0x20, hne 0x09, hne 0x0D, hne 0x0A, isDigit]
  refine ⟨⟨b, bs, hb, hne 0x5D (by decide) rfl, hspace⟩, fun fuel depth rest _ _ hrest => ?_⟩
  have hnum := parseNumber_formatInt_append t hrest
  rw [hb, List.cons_append] at hnum ⊢
  rw [readValue, skipSpace_cons hspace]
  simp [hne 0x22, hne 0x7B, hne 0x5B, hne 0x6E, hne 0x74, hne 0x66, isDigit, hnum]

private theorem readElements_write {n : ℕ} {ts : List Bytes} {vs : List JSON}
    (h : List.Forall₂ (Denotes n) ts vs) (hne : ts ≠ []) (fuel depth : ℕ)
    (hfuel : (writeElements ts).length + 2 ≤ fuel) (hdepth : depth + n ≤ maxNestingDepth)
    (rest : Bytes) :
    readElements fuel depth (writeElements ts ++ 0x5D :: rest) = some (vs, rest) := by
  induction h generalizing fuel with
  | nil => exact absurd rfl hne
  | @cons t v ts vs ht hts ih =>
    obtain ⟨fuel, rfl⟩ : ∃ f, fuel = f + 2 := ⟨fuel - 2, by omega⟩
    cases hts with
    | nil =>
      rw [writeElements] at hfuel ⊢
      rw [readElements, ht.reads fuel depth _ (by omega) hdepth ⟨0x5D, rest, rfl, by simp⟩]
      simp [expect, skipSpace_cons (b := 0x5D) (by decide)]
    | @cons u w ts vs hu hts =>
      have hlen : (writeElements (t :: u :: ts)).length =
          t.length + ((writeElements (u :: ts)).length + 1) := by simp [writeElements]
      rw [hlen] at hfuel
      have hrest := ih (by simp) (fuel + 1) (by omega)
      rw [writeElements, List.append_assoc, List.cons_append, readElements,
        ht.reads fuel depth _ (by omega) hdepth ⟨0x2C, _, rfl, by simp⟩]
      simp [expect, skipSpace_cons (b := 0x2C) (by decide), hrest]

theorem Denotes.opens_elements {n : ℕ} {t : Bytes} {v : JSON} (h : Denotes n t v)
    (ts : List Bytes) :
    ∃ b bs, writeElements (t :: ts) = b :: bs ∧ b ≠ 0x5D ∧ isJSONSpace b = false := by
  obtain ⟨b, bs, rfl, hb, hspace⟩ := h.opens
  cases ts with
  | nil => exact ⟨b, bs, rfl, hb, hspace⟩
  | cons u ts => exact ⟨b, _, rfl, hb, hspace⟩

theorem denotes_writeArray {n : ℕ} {ts : List Bytes} {vs : List JSON}
    (h : List.Forall₂ (Denotes n) ts vs) : Denotes (n + 1) (writeArray ts) (.array vs) where
  opens := ⟨0x5B, _, rfl, by decide, rfl⟩
  reads fuel depth rest hfuel hdepth _ := by
    have hnest : ¬ maxNestingDepth ≤ depth := by omega
    have hlen : (writeArray ts).length = (writeElements ts).length + 2 := by simp [writeArray]
    rw [writeArray, List.append_assoc, List.singleton_append, List.cons_append, readValue,
      skipSpace_cons (by decide)]
    cases h with
    | nil => simp [hnest, writeElements, expect, skipSpace_cons (b := 0x5D) (by decide)]
    | @cons t v ts vs ht hts =>
      have hread := readElements_write (.cons ht hts) (List.cons_ne_nil t ts) fuel (depth + 1)
        (hlen ▸ hfuel) (by omega) rest
      obtain ⟨b, bs, hb, hclose, hspace⟩ := ht.opens_elements ts
      rw [hb, List.cons_append] at hread ⊢
      simp [hnest, expect, skipSpace_cons hspace, hclose, hread]

/-- The texts of a member of an object, and what they are read as. -/
def MemberReads (n : ℕ) (m : Bytes × Bytes) (member : Bytes × JSON) : Prop :=
  Quotes m.1 member.1 ∧ Denotes n m.2 member.2

def memberText (m : Bytes × Bytes) : Bytes := m.1 ++ 0x3A :: m.2

def objectText (ms : List (Bytes × Bytes)) : Bytes :=
  0x7B :: writeElements (ms.map memberText) ++ [0x7D]

theorem length_objectText (ms : List (Bytes × Bytes)) :
    (objectText ms).length = (writeElements (ms.map memberText)).length + 2 := by
  simp [objectText]

private theorem readMembers_texts
    {n : ℕ} {ms : List (Bytes × Bytes)} {members : List (Bytes × JSON)}
    (h : List.Forall₂ (MemberReads n) ms members) (hne : ms ≠ []) (fuel depth : ℕ)
    (hfuel : (writeElements (ms.map memberText)).length + 2 ≤ fuel)
    (hdepth : depth + n ≤ maxNestingDepth) (rest : Bytes) :
    readMembers fuel depth (writeElements (ms.map memberText) ++ 0x7D :: rest) =
      some (members, rest) := by
  induction h generalizing fuel with
  | nil => exact absurd rfl hne
  | @cons m member ms members hm hms ih =>
    obtain ⟨fuel, rfl⟩ : ∃ f, fuel = f + 2 := ⟨fuel - 2, by omega⟩
    obtain ⟨⟨body, hkey, hquoted⟩, hvalue⟩ := hm
    have hcons (tail : Bytes) :
        memberText m ++ tail = 0x22 :: (body ++ (0x3A :: (m.2 ++ tail))) := by
      simp [memberText, hkey]
    have hlen : (memberText m).length = body.length + m.2.length + 2 := by
      simp [memberText, hkey]
      omega
    cases hms with
    | nil =>
      rw [List.map_singleton, writeElements] at hfuel ⊢
      have hval := hvalue.reads fuel depth (0x7D :: rest) (by omega) hdepth
        ⟨0x7D, rest, rfl, by simp⟩
      rw [hcons, readMembers]
      simp [expect, skipSpace_cons (b := 0x22) (by decide), skipSpace_cons (b := 0x3A) (by decide),
        skipSpace_cons (b := 0x7D) (by decide), hquoted, hval]
    | @cons m' member' ms members hm' hms =>
      have hwrite : writeElements ((m :: m' :: ms).map memberText) =
          memberText m ++ 0x2C :: writeElements ((m' :: ms).map memberText) := rfl
      rw [hwrite, List.length_append, List.length_cons] at hfuel
      have hrest := ih (by simp) (fuel + 1) (by omega)
      have hval := hvalue.reads fuel depth
        (0x2C :: (writeElements ((m' :: ms).map memberText) ++ 0x7D :: rest)) (by omega) hdepth
        ⟨0x2C, _, rfl, by simp⟩
      rw [hwrite, List.append_assoc, List.cons_append, hcons, readMembers]
      simp only [List.map_cons] at hval hrest ⊢
      simp [expect, skipSpace_cons (b := 0x22) (by decide), skipSpace_cons (b := 0x3A) (by decide),
        skipSpace_cons (b := 0x2C) (by decide), hquoted, hval, hrest]

/-- An object is read as its members, whatever follows it. -/
theorem readValue_objectText {n : ℕ} {ms : List (Bytes × Bytes)} {members : List (Bytes × JSON)}
    (h : List.Forall₂ (MemberReads n) ms members) (fuel depth : ℕ)
    (hfuel : (objectText ms).length ≤ fuel) (hdepth : depth + (n + 1) ≤ maxNestingDepth)
    (rest : Bytes) :
    readValue (fuel + 1) depth (objectText ms ++ rest) = some (.object members, rest) := by
  have hnest : ¬ maxNestingDepth ≤ depth := by omega
  rw [length_objectText] at hfuel
  rw [objectText, List.append_assoc, List.singleton_append, List.cons_append, readValue,
    skipSpace_cons (by decide)]
  cases h with
  | nil => simp [hnest, writeElements, expect, skipSpace_cons (b := 0x7D) (by decide)]
  | @cons m member ms members hm hms =>
    have hread := readMembers_texts (.cons hm hms) (List.cons_ne_nil m ms) fuel (depth + 1) hfuel
      (by omega) rest
    obtain ⟨bs, hopen⟩ :
        ∃ bs, writeElements ((m :: ms).map memberText) = 0x22 :: bs := by
      obtain ⟨body, hkey, -⟩ := hm.1
      cases ms <;> exact ⟨_, by simp [writeElements, memberText, hkey]; rfl⟩
    rw [hopen, List.cons_append] at hread ⊢
    simp [hnest, expect, skipSpace_cons (b := 0x22) (by decide), hread]

theorem denotes_objectText {n : ℕ} {ms : List (Bytes × Bytes)} {members : List (Bytes × JSON)}
    (h : List.Forall₂ (MemberReads n) ms members) :
    Denotes (n + 1) (objectText ms) (.object members) where
  opens := ⟨0x7B, _, rfl, by decide, rfl⟩
  reads fuel depth rest hfuel hdepth _ := readValue_objectText h fuel depth hfuel hdepth rest

/-- The members that `writeObject` writes. -/
theorem memberReads_write {n : ℕ} {ms : List (Bytes × Bytes)} {vs : List JSON}
    (h : List.Forall₂ (fun m v => Denotes n m.2 v) ms vs) :
    List.Forall₂ (MemberReads n) (ms.map fun m => (quote m.1, m.2))
      ((ms.map fun m => toValidUTF8 0 m.1).zip vs) := by
  induction h with
  | nil => exact .nil
  | cons hm _ ih => exact .cons ⟨quotes_quote _, hm⟩ ih

theorem writeObject_eq (ms : List (Bytes × Bytes)) :
    writeObject ms = objectText (ms.map fun m => (quote m.1, m.2)) := by
  rw [writeObject, objectText, List.map_map]
  rfl

theorem denotes_writeObject {n : ℕ} {ms : List (Bytes × Bytes)} {vs : List JSON}
    (h : List.Forall₂ (fun m v => Denotes n m.2 v) ms vs) :
    Denotes (n + 1) (writeObject ms)
      (.object ((ms.map fun m => toValidUTF8 0 m.1).zip vs)) := by
  rw [writeObject_eq]
  exact denotes_objectText (memberReads_write h)

/-- An object is read back whole. -/
theorem read_writeObject {n : ℕ} {ms : List (Bytes × Bytes)} {vs : List JSON}
    (h : List.Forall₂ (fun m v => Denotes n m.2 v) ms vs) (hn : n + 1 ≤ maxNestingDepth) :
    read (writeObject ms) = some (.object ((ms.map fun m => toValidUTF8 0 m.1).zip vs)) := by
  obtain ⟨fuel, hfuel⟩ : ∃ fuel, 2 * (writeObject ms).length + 2 = fuel + 1 := ⟨_, rfl⟩
  have hread := readValue_objectText (memberReads_write h) fuel 0
    (by rw [← writeObject_eq]; omega) (by omega) []
  rw [List.append_nil, ← writeObject_eq] at hread
  rw [read, hfuel, hread]
  rfl

end Statnive.JSONText
