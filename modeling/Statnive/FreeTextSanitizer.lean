import Mathlib.Data.List.Infix
import Statnive.EventSanitize
import Statnive.VisitorIdentity

/-!
# What the sanitizer of free text returns

`sanitizeFree` returns clean short text at once, after a scan of its bytes; other text goes
through a loop over its runes. Both answer the longest prefix of whole runes that fits.
-/

namespace Statnive.FreeTextSanitizer

open IngestEvents EventSanitize
open PrivacyPolicy (Bytes)
open VisitorIdentity (utf8)

/-- `p` is the longest of the prefixes of `l` whose size is at most `limit`. -/
structure LongestPrefix {α : Type*} (size : List α → ℕ) (limit : ℕ) (l p : List α) : Prop where
  within : p <+: l
  fits : size p ≤ limit
  longest : ∀ q, q <+: l → size q ≤ limit → q <+: p

section
variable {α : Type*} {size : List α → ℕ} {limit : ℕ} {l p q : List α}

theorem LongestPrefix.unique (hp : LongestPrefix size limit l p)
    (hq : LongestPrefix size limit l q) : p = q :=
  (hq.longest p hp.within hp.fits).eq_of_length_le
    (hp.longest q hq.within hq.fits).length_le

private theorem longestPrefix_self (h : size l ≤ limit) : LongestPrefix size limit l l :=
  ⟨List.prefix_rfl, h, fun _ hq _ => hq⟩

end

def isControlByte (c : UInt8) : Bool :=
  (decide (c.toNat < 0x20) && decide (c.toNat ≠ '\t'.toNat)) || decide (c.toNat = 0x7F)

def hasControlChar (s : String) : Bool := (utf8 s).any isControlByte

/-- The loop over the runes, with the bytes written so far. Every rune of a text has a length. -/
def appendRunes (maxBytes : ℕ) : Bytes → List Char → Bytes
  | b, [] => b
  | b, r :: rs =>
    if isControl r then appendRunes maxBytes b rs
    else if maxBytes < b.length + r.utf8Size then b
    else appendRunes maxBytes (b ++ String.utf8EncodeChar r) rs

def fastPath (s : String) (maxBytes : ℕ) : Bool :=
  decide ((utf8 s).length ≤ maxBytes) && !hasControlChar s

/-- The bytes that `sanitizeFree` returns. -/
def sanitizeBytes (s : String) (maxBytes : ℕ) : Bytes :=
  if s = "" then utf8 s
  else if fastPath s maxBytes then utf8 s
  else appendRunes maxBytes [] s.toList

/-- The bytes of a rune outside ASCII are outside ASCII. -/
theorem le_of_mem_utf8EncodeChar {c : Char} (hc : 0x80 ≤ c.toNat) {b : UInt8}
    (hb : b ∈ String.utf8EncodeChar c) : 0x80 ≤ b.toNat := by
  have hval : c.val.toNat = c.toNat := rfl
  have hbyte : ∀ n, 0x80 ≤ n → n < 0x100 → b = UInt8.ofNat n → 0x80 ≤ b.toNat := by
    intro n hlow hhigh hn
    rw [hn, UInt8.toNat_ofNat_of_lt' hhigh]
    exact hlow
  simp only [String.utf8EncodeChar, hval] at hb
  split at hb
  · omega
  · split at hb
    · simp only [List.mem_cons, List.not_mem_nil, or_false] at hb
      obtain h | h := hb <;> exact hbyte _ (by omega) (by omega) h
    · split at hb
      · simp only [List.mem_cons, List.not_mem_nil, or_false] at hb
        obtain h | h | h := hb <;> exact hbyte _ (by omega) (by omega) h
      · simp only [List.mem_cons, List.not_mem_nil, or_false] at hb
        obtain h | h | h | h := hb <;> exact hbyte _ (by omega) (by omega) h

private theorem isControlByte_any (c : Char) :
    (String.utf8EncodeChar c).any isControlByte = isControl c := by
  rcases Nat.lt_or_ge c.toNat 0x80 with hc | hc
  · have hval : c.val.toNat = c.toNat := rfl
    have hbyte : (UInt8.ofNat c.toNat).toNat = c.toNat := UInt8.toNat_ofNat_of_lt' (by
      change c.toNat < 256
      omega)
    have htab : c = '\t' ↔ c.toNat = '\t'.toNat := ⟨congrArg Char.toNat, Char.toNat_inj.mp⟩
    have henc : String.utf8EncodeChar c = [UInt8.ofNat c.toNat] := by
      simp only [String.utf8EncodeChar, hval]
      exact if_pos (by omega)
    rw [henc, List.any_cons, List.any_nil, Bool.or_false, isControlByte, isControl, hbyte]
    by_cases ht : c.toNat = '\t'.toNat
    · rw [if_pos (htab.mpr ht), ht]
      decide
    · rw [if_neg (mt htab.mp ht), decide_eq_true ht, Bool.and_true]
  · have hne : c ≠ '\t' := by
      rintro rfl
      exact absurd hc (by decide)
    have hlow : ¬ c.toNat < 0x20 := by omega
    have hdel : c.toNat ≠ 0x7F := by omega
    have hnone : (String.utf8EncodeChar c).any isControlByte = false := by
      rw [List.any_eq_false]
      intro b hb
      have hb := le_of_mem_utf8EncodeChar hc hb
      have hlow : ¬ b.toNat < 0x20 := by omega
      have hdel : b.toNat ≠ 0x7F := by omega
      simp [isControlByte, hlow, hdel]
    rw [hnone, isControl, if_neg hne]
    simp [hlow, hdel]

private theorem hasControlChar_eq (s : String) : hasControlChar s = s.toList.any isControl := by
  rw [hasControlChar, utf8, List.any_flatMap]
  exact congrArg s.toList.any (funext isControlByte_any)

private theorem length_utf8 (s : String) : (utf8 s).length = len s := by
  rw [← String.ofList_toList (s := s), len, String.utf8ByteSize_ofList, utf8, String.toList_ofList]
  induction s.toList with
  | nil => rfl
  | cons c cs ih =>
    rw [List.flatMap_cons, List.length_append, ih, String.length_utf8EncodeChar, String.utf8Len]
    omega

/-- Loops after the same number of bytes go on alike. -/
theorem appendRunes_eq (maxBytes : ℕ) (b : Bytes) (rs : List Char) :
    appendRunes maxBytes b rs =
      b ++ (keepRunes maxBytes b.length rs).flatMap String.utf8EncodeChar := by
  induction rs generalizing b with
  | nil => simp [appendRunes, keepRunes]
  | cons r rs ih =>
    unfold appendRunes keepRunes
    split
    · exact ih b
    · split
      · simp
      · rw [ih, List.length_append, String.length_utf8EncodeChar, List.flatMap_cons,
          List.append_assoc]

/-- The runes of a text that are kept if they fit. -/
def cleanRunes (rs : List Char) : List Char := rs.filter fun r => !isControl r

theorem cleanRunes_control {r : Char} (hr : isControl r = true) (rs : List Char) :
    cleanRunes (r :: rs) = cleanRunes rs := List.filter_cons_of_neg (by simp [hr])

theorem cleanRunes_keep {r : Char} (hr : ¬ isControl r = true) (rs : List Char) :
    cleanRunes (r :: rs) = r :: cleanRunes rs := List.filter_cons_of_pos (by simp [hr])

private theorem keepRunes_within (maxBytes used : ℕ) (rs : List Char) :
    keepRunes maxBytes used rs <+: cleanRunes rs := by
  induction rs generalizing used with
  | nil => exact List.prefix_rfl
  | cons r rs ih =>
    unfold keepRunes
    split
    · next hr =>
      rw [cleanRunes_control hr]
      exact ih used
    · next hr =>
      rw [cleanRunes_keep hr]
      split
      · exact List.nil_prefix
      · exact (List.prefix_cons_inj r).mpr (ih _)

private theorem keepRunes_longest (maxBytes used : ℕ) (rs : List Char) {q : List Char}
    (hq : q <+: cleanRunes rs) (hfits : used + String.utf8Len q ≤ maxBytes) :
    q <+: keepRunes maxBytes used rs := by
  induction rs generalizing used q with
  | nil => exact hq
  | cons r rs ih =>
    unfold keepRunes
    split
    · next hr => exact ih used (cleanRunes_control hr rs ▸ hq) hfits
    · next hr =>
      rw [cleanRunes_keep hr] at hq
      cases q with
      | nil => exact List.nil_prefix
      | cons r' q =>
        obtain ⟨rfl, hrest⟩ := List.cons_prefix_cons.mp hq
        rw [String.utf8Len] at hfits
        split
        · omega
        · exact (List.prefix_cons_inj _).mpr (ih _ hrest (by omega))

theorem keepRunes_longestPrefix (maxBytes : ℕ) (rs : List Char) :
    LongestPrefix String.utf8Len maxBytes (cleanRunes rs) (keepRunes maxBytes 0 rs) where
  within := keepRunes_within maxBytes 0 rs
  fits := by simpa using keepRunes_size maxBytes 0 rs (Nat.zero_le _)
  longest _ hq hfits := keepRunes_longest maxBytes 0 rs hq (by omega)

theorem fastPath_iff (s : String) (maxBytes : ℕ) :
    fastPath s maxBytes = true ↔ len s ≤ maxBytes ∧ s.toList.any isControl = false := by
  simp [fastPath, length_utf8, hasControlChar_eq]

/-- A text on the fast path is all of it the prefix. -/
theorem fastPath_longestPrefix {s : String} {maxBytes : ℕ} (h : fastPath s maxBytes = true) :
    LongestPrefix String.utf8Len maxBytes (cleanRunes s.toList) s.toList := by
  obtain ⟨hlen, hclean⟩ := (fastPath_iff s maxBytes).mp h
  have hall : cleanRunes s.toList = s.toList := by
    rw [cleanRunes, List.filter_eq_self]
    intro r hr
    simpa using List.any_eq_false.mp hclean r hr
  rw [hall]
  apply longestPrefix_self
  rwa [← String.utf8ByteSize_ofList, String.ofList_toList]

theorem keepRunes_fastPath {s : String} {maxBytes : ℕ} (h : fastPath s maxBytes = true) :
    keepRunes maxBytes 0 s.toList = s.toList :=
  (keepRunes_longestPrefix maxBytes s.toList).unique (fastPath_longestPrefix h)

theorem sanitizeFree_eq (s : String) (maxBytes : ℕ) :
    sanitizeFree s maxBytes = String.ofList (keepRunes maxBytes 0 s.toList) := by
  unfold sanitizeFree
  split
  · next h =>
    have hfast : fastPath s maxBytes = true := by
      rw [fastPath_iff]
      simpa using h
    rw [keepRunes_fastPath hfast, String.ofList_toList]
  · rfl

theorem appendRunes_nil (s : String) (maxBytes : ℕ) :
    appendRunes maxBytes [] s.toList = utf8 (sanitizeFree s maxBytes) := by
  rw [appendRunes_eq, List.nil_append, List.length_nil, sanitizeFree_eq, utf8, String.toList_ofList]

theorem appendRunes_fastPath {s : String} {maxBytes : ℕ} (h : fastPath s maxBytes = true) :
    appendRunes maxBytes [] s.toList = utf8 s := by
  rw [appendRunes_nil, sanitizeFree_eq, keepRunes_fastPath h, String.ofList_toList]

/-- The bytes of the source are those of `sanitizeFree`. -/
theorem sanitizeBytes_eq (s : String) (maxBytes : ℕ) :
    sanitizeBytes s maxBytes = utf8 (sanitizeFree s maxBytes) := by
  unfold sanitizeBytes
  split
  · next h =>
    subst h
    rw [sanitizeFree_eq]
    rfl
  · split
    · next h => rw [← appendRunes_nil, appendRunes_fastPath h]
    · exact appendRunes_nil s maxBytes

private theorem sanitizeFree_sanitizeFree (s : String) (maxBytes : ℕ) :
    sanitizeFree (sanitizeFree s maxBytes) maxBytes = sanitizeFree s maxBytes := by
  have hfast : fastPath (sanitizeFree s maxBytes) maxBytes = true := by
    rw [fastPath_iff, List.any_eq_false]
    exact ⟨sanitizeFree_len s maxBytes, fun r hr => by simp [sanitizeFree_clean s maxBytes r hr]⟩
  rw [sanitizeFree_eq (sanitizeFree s maxBytes), keepRunes_fastPath hfast, String.ofList_toList]

/-- The bytes returned are those of the longest prefix of whole runes, without the control
characters, that fits; it is returned as it is from then on; and the text that the fast path
returns is the one that the loop would write. -/
theorem sanitizeFree_law (s : String) (maxBytes : ℕ) :
    sanitizeBytes s maxBytes = utf8 (sanitizeFree s maxBytes) ∧
      LongestPrefix String.utf8Len maxBytes (cleanRunes s.toList)
        (sanitizeFree s maxBytes).toList ∧
      sanitizeFree (sanitizeFree s maxBytes) maxBytes = sanitizeFree s maxBytes ∧
      (fastPath s maxBytes = true → appendRunes maxBytes [] s.toList = utf8 s) := by
  refine ⟨sanitizeBytes_eq s maxBytes, ?_, sanitizeFree_sanitizeFree s maxBytes,
    appendRunes_fastPath⟩
  rw [sanitizeFree_eq, String.toList_ofList]
  exact keepRunes_longestPrefix maxBytes s.toList

example : sanitizeFree "a\x00é" 2 = "a" := by decide

end Statnive.FreeTextSanitizer
