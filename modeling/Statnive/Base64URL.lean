import Mathlib.Data.List.Basic
import Mathlib.Tactic.Common

/-!
# Base64 in the URL alphabet

Three bytes are four digits, and there is no padding. The decoder skips the ends of lines and
ignores the bits behind the last byte.
-/

namespace Statnive.Base64URL

def digit (n : ℕ) : UInt8 :=
  if n < 26 then UInt8.ofNat (0x41 + n)
  else if n < 52 then UInt8.ofNat (0x61 + (n - 26))
  else if n < 62 then UInt8.ofNat (0x30 + (n - 52))
  else if n = 62 then 0x2D
  else 0x5F

def digitValue (c : UInt8) : Option ℕ :=
  if 0x41 ≤ c && c ≤ 0x5A then some (c.toNat - 0x41)
  else if 0x61 ≤ c && c ≤ 0x7A then some (c.toNat - 0x61 + 26)
  else if 0x30 ≤ c && c ≤ 0x39 then some (c.toNat - 0x30 + 52)
  else if c = 0x2D then some 62
  else if c = 0x5F then some 63
  else none

/-- The six-bit groups of some bytes, with zeros behind the last bit. -/
def sextets : List UInt8 → List ℕ
  | [] => []
  | [a] => [a.toNat / 4, a.toNat % 4 * 16]
  | [a, b] => [a.toNat / 4, a.toNat % 4 * 16 + b.toNat / 16, b.toNat % 16 * 4]
  | a :: b :: c :: rest =>
    a.toNat / 4 :: (a.toNat % 4 * 16 + b.toNat / 16) :: (b.toNat % 16 * 4 + c.toNat / 64) ::
      c.toNat % 64 :: sextets rest

/-- A single group is less than a byte. -/
def octets : List ℕ → Option (List UInt8)
  | [] => some []
  | [_] => none
  | [w, x] => some [UInt8.ofNat (w * 4 + x / 16)]
  | [w, x, y] => some [UInt8.ofNat (w * 4 + x / 16), UInt8.ofNat (x % 16 * 16 + y / 4)]
  | w :: x :: y :: z :: rest => (octets rest).map fun bs =>
    UInt8.ofNat (w * 4 + x / 16) :: UInt8.ofNat (x % 16 * 16 + y / 4) ::
      UInt8.ofNat (y % 4 * 64 + z) :: bs

def encode (bs : List UInt8) : List UInt8 := (sextets bs).map digit

def isLineEnd (c : UInt8) : Bool := c = 0x0A || c = 0x0D

def decode (s : List UInt8) : Option (List UInt8) :=
  ((s.filter fun c => !isLineEnd c).mapM digitValue).bind octets

private theorem digitValue_digit : ∀ n < 64, digitValue (digit n) = some n := by decide

private theorem isLineEnd_digit : ∀ n < 64, isLineEnd (digit n) = false := by decide

private theorem digit_ne_dot : ∀ n < 64, digit n ≠ 0x2E := by decide

private theorem digit_lt : ∀ n < 64, (digit n).toNat < 0x80 := by decide

theorem sextets_lt (bs : List UInt8) : ∀ n ∈ sextets bs, n < 64 := by
  induction bs using sextets.induct with
  | case1 => simp [sextets]
  | case2 a =>
    have ha := a.toNat_lt
    intro n hn
    simp only [sextets, List.mem_cons, List.not_mem_nil, or_false] at hn
    omega
  | case3 a b =>
    have ha := a.toNat_lt
    have hb := b.toNat_lt
    intro n hn
    simp only [sextets, List.mem_cons, List.not_mem_nil, or_false] at hn
    omega
  | case4 a b c rest ih =>
    have ha := a.toNat_lt
    have hb := b.toNat_lt
    have hc := c.toNat_lt
    intro n hn
    simp only [sextets, List.mem_cons] at hn
    rcases hn with rfl | rfl | rfl | rfl | hn
    · omega
    · omega
    · omega
    · omega
    · exact ih n hn

theorem ofNat_eq {n : ℕ} {b : UInt8} (h : n = b.toNat) : UInt8.ofNat n = b := by
  rw [h, UInt8.ofNat_toNat]

private theorem octets_sextets (bs : List UInt8) : octets (sextets bs) = some bs := by
  induction bs using sextets.induct with
  | case1 => rfl
  | case2 a =>
    have hfirst : UInt8.ofNat (a.toNat / 4 * 4 + a.toNat % 4 * 16 / 16) = a :=
      ofNat_eq (by omega)
    simp only [sextets, octets, hfirst]
  | case3 a b =>
    have hb := b.toNat_lt
    have hfirst :
        UInt8.ofNat (a.toNat / 4 * 4 + (a.toNat % 4 * 16 + b.toNat / 16) / 16) = a :=
      ofNat_eq (by omega)
    have hsecond : UInt8.ofNat
        ((a.toNat % 4 * 16 + b.toNat / 16) % 16 * 16 + b.toNat % 16 * 4 / 4) = b :=
      ofNat_eq (by omega)
    simp only [sextets, octets, hfirst, hsecond]
  | case4 a b c rest ih =>
    have hb := b.toNat_lt
    have hc := c.toNat_lt
    have hfirst :
        UInt8.ofNat (a.toNat / 4 * 4 + (a.toNat % 4 * 16 + b.toNat / 16) / 16) = a :=
      ofNat_eq (by omega)
    have hsecond : UInt8.ofNat ((a.toNat % 4 * 16 + b.toNat / 16) % 16 * 16 +
        (b.toNat % 16 * 4 + c.toNat / 64) / 4) = b :=
      ofNat_eq (by omega)
    have hthird :
        UInt8.ofNat ((b.toNat % 16 * 4 + c.toNat / 64) % 4 * 64 + c.toNat % 64) = c :=
      ofNat_eq (by omega)
    simp only [sextets, octets, hfirst, hsecond, hthird, ih, Option.map_some]

theorem mapM_digitValue {ns : List ℕ} (h : ∀ n ∈ ns, n < 64) :
    (ns.map digit).mapM digitValue = some ns := by
  induction ns with
  | nil => rfl
  | cons n ns ih =>
    have hrest := ih fun m hm => h m (List.mem_cons_of_mem n hm)
    simp [List.mapM_cons, digitValue_digit n (h n List.mem_cons_self), hrest]

theorem decode_encode (bs : List UInt8) : decode (encode bs) = some bs := by
  have hlt := sextets_lt bs
  have hkeep : (encode bs).filter (fun c => !isLineEnd c) = encode bs := by
    rw [List.filter_eq_self]
    intro c hc
    obtain ⟨n, hn, rfl⟩ := List.mem_map.mp hc
    simp [isLineEnd_digit n (hlt n hn)]
  rw [decode, hkeep, encode, mapM_digitValue hlt, Option.bind_some, octets_sextets]

theorem encode_ne_dot {bs : List UInt8} : (0x2E : UInt8) ∉ encode bs := by
  intro hmem
  obtain ⟨n, hn, heq⟩ := List.mem_map.mp hmem
  exact digit_ne_dot n (sextets_lt bs n hn) heq

theorem encode_lt {bs : List UInt8} : ∀ c ∈ encode bs, c.toNat < 0x80 := by
  intro c hc
  obtain ⟨n, hn, rfl⟩ := List.mem_map.mp hc
  exact digit_lt n (sextets_lt bs n hn)

end Statnive.Base64URL
