import Mathlib.Data.List.DropRight
import Mathlib.Data.List.Sort
import Statnive.CivilCalendar
import Statnive.VisitorIdentity

/-!
# Dashboard filters

What every dashboard query is scoped by, and the bytes of it that its cache key is a digest
of. An instant is counted in nanoseconds since the Unix epoch.
-/

namespace Statnive.DashboardFilter

open CivilCalendar
open PrivacyPolicy (Bytes)
open VisitorIdentity (utf8 hexEncode)

def second : ℤ := 1000000000
def minute : ℤ := 60 * second
def hour : ℤ := 60 * minute
def day : ℤ := 24 * hour

/-- `Time.Truncate` rounds down. -/
def truncate (t d : ℤ) : ℤ := t - t % d

/-- A map is the list of its entries. -/
structure Filter where
  siteID : ℕ
  fromTime : ℤ
  toTime : ℤ
  path : String := ""
  referrer : String := ""
  channel : String := ""
  utmSource : String := ""
  utmMedium : String := ""
  utmCampaign : String := ""
  utmContent : String := ""
  utmTerm : String := ""
  country : String := ""
  browser : String := ""
  os : String := ""
  device : String := ""
  hitProps : List (String × String) := []
  sessionProps : List (String × String) := []
  userProps : List (String × String) := []
  sort : String := ""
  dir : String := ""
  search : String := ""
  limit : ℤ := 0
  offset : ℤ := 0
  deriving DecidableEq

def defaultLimit : ℤ := 50

def Filter.effectiveLimit (f : Filter) : ℤ := if f.limit ≤ 0 then defaultLimit else f.limit

def Filter.hasPropFilter (f : Filter) : Bool :=
  0 < f.hitProps.length + f.sessionProps.length + f.userProps.length

/-- The only instant of which `Time.IsZero` holds, 0001-01-01 in UTC. -/
def zeroTime : ℤ := -unixEpoch * day

def maxRange : ℤ := 365 * day

def maxPropFilterRange : ℤ := 90 * day

def maxPropFiltersTotal : ℕ := 30

/-- A refusal of `Validate`, with what its text names. -/
inductive FilterError where
  | siteIDRequired
  | fromToRequired
  | fromNotBeforeTo
  | rangeExceeds (span : ℤ)
  | propRangeExceeds (span : ℤ)
  | propFiltersExceed (n : ℕ)
  | limitOffset
  | dir
  deriving DecidableEq

def Filter.validate (f : Filter) : Except FilterError Unit :=
  let span := f.toTime - f.fromTime
  let props := f.hitProps.length + f.sessionProps.length + f.userProps.length
  if f.siteID = 0 then .error .siteIDRequired
  else if f.fromTime = zeroTime || f.toTime = zeroTime then .error .fromToRequired
  else if f.toTime ≤ f.fromTime then .error .fromNotBeforeTo
  else if maxRange < span then .error (.rangeExceeds span)
  else if f.hasPropFilter && maxPropFilterRange < span then .error (.propRangeExceeds span)
  else if f.hasPropFilter && maxPropFiltersTotal < props then .error (.propFiltersExceed props)
  else if f.limit < 0 || f.offset < 0 then .error .limitOffset
  else if f.dir ≠ "" && f.dir ≠ "asc" && f.dir ≠ "desc" then .error .dir
  else .ok ()

/-- Nine digits without the zeros at their end, behind a point unless none is left. -/
def appendNano (nanos : ℕ) : List Char :=
  let digits := (appendInt nanos 9).rdropWhile (· = '0')
  if digits = [] then [] else '.' :: digits

def appendClock (seconds : ℕ) : List Char :=
  appendInt (seconds / 3600 : ℕ) 2 ++ ':' :: appendInt (seconds / 60 % 60 : ℕ) 2 ++
    ':' :: appendInt (seconds % 60 : ℕ) 2

/-- The layout `RFC3339Nano`, at UTC. -/
def formatRFC3339Nano (t : ℤ) : String :=
  let nanos := (t % day).toNat
  String.ofList ((civil (t / day)).format.toList ++ 'T' :: appendClock (nanos / 1000000000) ++
    appendNano (nanos % 1000000000) ++ ['Z'])

def writeStr (key val : String) : Bytes := utf8 key ++ '='.toUInt8 :: utf8 val ++ [0]

def writeInt (key : String) (val : ℤ) : Bytes := writeStr key (String.ofList (appendInt val 1))

def writeUint32 (key : String) (val : ℕ) : Bytes := writeInt key val

def writeTime (key : String) (val : ℤ) : Bytes := writeStr key (formatRFC3339Nano val)

/-- The entries in the order of their keys. -/
def writePropMap (scope : String) (m : List (String × String)) : Bytes :=
  if m = [] then writeStr ("prop:" ++ scope) ""
  else (m.insertionSort fun a b => a.1 ≤ b.1).flatMap fun e =>
    writeStr ("prop:" ++ scope ++ ":" ++ e.1) e.2

def Filter.bytes (f : Filter) : Bytes :=
  writeUint32 "site_id" f.siteID ++ writeTime "from" f.fromTime ++ writeTime "to" f.toTime ++
    writeStr "path" f.path ++ writeStr "referrer" f.referrer ++ writeStr "channel" f.channel ++
    writeStr "utm_source" f.utmSource ++ writeStr "utm_medium" f.utmMedium ++
    writeStr "utm_campaign" f.utmCampaign ++ writeStr "utm_content" f.utmContent ++
    writeStr "utm_term" f.utmTerm ++ writeStr "country" f.country ++
    writeStr "browser" f.browser ++ writeStr "os" f.os ++ writeStr "device" f.device ++
    writeStr "sort" f.sort ++ writeStr "dir" f.dir ++ writeStr "search" f.search ++
    writeInt "limit" f.effectiveLimit ++ writeInt "offset" f.offset ++
    writePropMap "h" f.hitProps ++ writePropMap "s" f.sessionProps ++ writePropMap "u" f.userProps

/-- `digest` is the 128-bit hash function. -/
def Filter.hash (digest : Bytes → Bytes) (f : Filter) : String := hexEncode (digest f.bytes)

/-- What stands before the first separator is determined by the whole. -/
theorem append_cons_inj {α : Type*} {c : α} {a b r s : List α} (ha : c ∉ a) (hb : c ∉ b)
    (h : a ++ c :: r = b ++ c :: s) : a = b ∧ r = s := by
  induction a generalizing b with
  | nil =>
    cases b with
    | nil => exact ⟨rfl, (List.cons.inj h).2⟩
    | cons d b => exact absurd (List.cons.inj h).1 fun heq => hb (heq ▸ List.mem_cons_self)
  | cons d a ih =>
    cases b with
    | nil => exact absurd (List.cons.inj h).1 fun heq => ha (heq ▸ List.mem_cons_self)
    | cons e b =>
      obtain ⟨rfl, htail⟩ := List.cons.inj h
      obtain ⟨rfl, rfl⟩ := ih (fun hc => ha (List.mem_cons_of_mem _ hc))
        (fun hc => hb (List.mem_cons_of_mem _ hc)) htail
      exact ⟨rfl, rfl⟩

theorem appendInt_chars {x : ℤ} {width : ℕ} {c : Char} (h : c ∈ appendInt x width) :
    c = '-' ∨ c.isDigit = true := by
  rcases List.mem_append.mp h with h | h
  · split at h
    · exact .inl (by simpa using h)
    · simp at h
  · rcases List.mem_append.mp h with h | h
    · exact .inr (by simp [List.eq_of_mem_replicate h])
    · exact .inr (Nat.isDigit_of_mem_toDigits (by decide) (by decide) h)

theorem format_chars {date : Date} {c : Char} (h : c ∈ date.format.toList) :
    c = '-' ∨ c.isDigit = true := by
  simp only [Date.format, String.toList_ofList, List.mem_append, List.mem_cons] at h
  rcases h with (h | h | h) | h | h
  · exact appendInt_chars h
  · exact .inl h
  · exact appendInt_chars h
  · exact .inl h
  · exact appendInt_chars h

theorem length_appendClock {seconds : ℕ} (h : seconds < 86400) :
    (appendClock seconds).length = 8 := by
  simp only [appendClock, List.length_append, List.length_cons]
  rw [length_appendInt (by decide) (by omega), length_appendInt (by decide) (by omega),
    length_appendInt (by decide) (by omega)]

private theorem appendClock_injective {m n : ℕ} (hm : m < 86400) (hn : n < 86400)
    (h : appendClock m = appendClock n) : m = n := by
  have hlen (a b : ℕ) (ha : a < 100) (hb : b < 100) :
      (appendInt a 2).length = (appendInt b 2).length := by
    rw [length_appendInt (by decide) ha, length_appendInt (by decide) hb]
  have hseconds := hlen (m % 60) (n % 60) (by omega) (by omega)
  have hhours := hlen (m / 3600) (n / 3600) (by omega) (by omega)
  obtain ⟨hfront, hback⟩ := List.append_inj' h (by rw [List.length_cons, List.length_cons, hseconds])
  obtain ⟨hfirst, hmid⟩ := List.append_inj hfront hhours
  have h1 := Int.ofNat.inj (appendInt_injective 2 hfirst)
  have h2 := Int.ofNat.inj (appendInt_injective 2 (List.cons.inj hmid).2)
  have h3 := Int.ofNat.inj (appendInt_injective 2 (List.cons.inj hback).2)
  omega

/-- What was dropped from a list of known length are zeros. -/
theorem rdropWhile_zero_append (l : List Char) : l.rdropWhile (· = '0') ++
    List.replicate (l.length - (l.rdropWhile (· = '0')).length) '0' = l := by
  have hsplit : l.rdropWhile (· = '0') ++ l.rtakeWhile (· = '0') = l := by
    have h := congrArg List.reverse (List.takeWhile_append_dropWhile (p := (· = '0'))
      (l := l.reverse))
    rwa [List.reverse_append, List.reverse_reverse] at h
  have hzeros : l.rtakeWhile (· = '0') =
      List.replicate (l.rtakeWhile (· = '0')).length '0' :=
    List.eq_replicate_of_mem fun c hc => by simpa using List.mem_rtakeWhile_imp hc
  have hlen := congrArg List.length hsplit
  rw [List.length_append] at hlen
  rw [show l.length - (l.rdropWhile (· = '0')).length = (l.rtakeWhile (· = '0')).length by omega,
    ← hzeros, hsplit]

private theorem appendNano_injective {m n : ℕ} (hm : m < 1000000000) (hn : n < 1000000000)
    (h : appendNano m = appendNano n) : m = n := by
  have hdigits : (appendInt m 9).rdropWhile (· = '0') = (appendInt n 9).rdropWhile (· = '0') := by
    simp only [appendNano] at h
    split_ifs at h with h1 h2 h2
    · rw [h1, h2]
    · exact (List.cons.inj h).2
  have hlen : (appendInt m 9).length = (appendInt n 9).length := by
    rw [length_appendInt (by decide) hm, length_appendInt (by decide) hn]
  have hall : appendInt m 9 = appendInt n 9 := by
    rw [← rdropWhile_zero_append (appendInt m 9), hdigits, hlen, rdropWhile_zero_append]
  exact Int.ofNat.inj (appendInt_injective 9 hall)

theorem day_eq : day = 86400 * 1000000000 := by decide

/-- The nanoseconds of the day. -/
theorem toNat_emod_day (t : ℤ) :
    (t % day).toNat < 86400 * 1000000000 ∧ ((t % day).toNat : ℤ) = t % day := by
  rw [day_eq]
  omega

private theorem formatRFC3339Nano_injective : Function.Injective formatRFC3339Nano := by
  intro t t' h
  simp only [formatRFC3339Nano, List.append_assoc, List.cons_append] at h
  have hchars := String.ofList_injective h
  have hT {d : ℤ} : 'T' ∉ (civil d).format.toList := fun hmem => by
    rcases format_chars hmem with h | h <;> simp at h
  obtain ⟨hn, hnanos⟩ := toNat_emod_day t
  obtain ⟨hn', hnanos'⟩ := toNat_emod_day t'
  generalize (t % day).toNat = n at *
  generalize (t' % day).toNat = n' at *
  obtain ⟨hdate, hrest⟩ := append_cons_inj hT hT hchars
  have hdays : t / day = t' / day := format_civil_injective (String.toList_injective hdate)
  obtain ⟨hclock, hback⟩ := List.append_inj hrest (by
    rw [length_appendClock (by omega), length_appendClock (by omega)])
  have hseconds := appendClock_injective (by omega) (by omega) hclock
  have hfraction := appendNano_injective (by omega) (by omega) (List.append_cancel_right hback)
  have hmod : t % day = t' % day := by omega
  rw [← Int.mul_ediv_add_emod t day, ← Int.mul_ediv_add_emod t' day, hdays, hmod]

example : formatRFC3339Nano 1785585600123000000 = "2026-08-01T12:00:00.123Z" := by decide +kernel
example : formatRFC3339Nano (-1) = "1969-12-31T23:59:59.999999999Z" := by decide +kernel
example : formatRFC3339Nano 0 = "1970-01-01T00:00:00Z" := by decide +kernel

/-- Printable ASCII. -/
def IsPlain (s : String) : Prop := ∀ c ∈ s.toList, 0 < c.toNat ∧ c.toNat < 0x80

theorem zero_notMem_utf8 {s : String} (h : IsPlain s) : (0 : UInt8) ∉ utf8 s := by
  intro hmem
  obtain ⟨c, hc, hzero⟩ := List.mem_flatMap.mp hmem
  obtain ⟨hpos, hlt⟩ := h c hc
  have hval : c.val.toNat = c.toNat := rfl
  have hsize : c.utf8Size = 1 := by
    rw [Char.utf8Size_eq_one_iff, UInt32.le_iff_toNat_le, hval]
    exact Nat.le_of_lt_succ hlt
  rw [String.utf8EncodeChar_eq_singleton hsize, List.mem_singleton] at hzero
  have hnat := congrArg UInt8.toNat hzero
  rw [UInt32.toNat_toUInt8, hval, UInt8.toNat_zero] at hnat
  omega

theorem writeStr_append_inj {key s t : String} {r r' : Bytes} (hs : IsPlain s) (ht : IsPlain t)
    (h : writeStr key s ++ r = writeStr key t ++ r') : s = t ∧ r = r' := by
  simp only [writeStr, List.append_assoc, List.cons_append, List.append_cancel_left_eq,
    List.cons.injEq, true_and, List.nil_append] at h
  obtain ⟨hutf8, hrest⟩ := append_cons_inj (zero_notMem_utf8 hs) (zero_notMem_utf8 ht) h
  exact ⟨VisitorIdentity.utf8_injective hutf8, hrest⟩

theorem plain_of_digit {c : Char} (h : c = '-' ∨ c.isDigit = true) :
    0 < c.toNat ∧ c.toNat < 0x80 := by
  rcases h with rfl | h
  · decide
  · obtain ⟨hlow, hhigh⟩ := Char.isDigit_iff_toNat.mp h
    have h0 : '0'.toNat = 48 := rfl
    have h9 : '9'.toNat = 57 := rfl
    omega

theorem isPlain_appendInt (x : ℤ) (width : ℕ) : IsPlain (String.ofList (appendInt x width)) := by
  intro c hc
  rw [String.toList_ofList] at hc
  exact plain_of_digit (appendInt_chars hc)

theorem isPlain_formatRFC3339Nano (t : ℤ) : IsPlain (formatRFC3339Nano t) := by
  intro c hc
  have hint {x : ℤ} {width : ℕ} (h : c ∈ appendInt x width) : 0 < c.toNat ∧ c.toNat < 0x80 :=
    plain_of_digit (appendInt_chars h)
  simp only [formatRFC3339Nano, appendClock, appendNano, String.toList_ofList, List.mem_append,
    List.mem_cons, List.not_mem_nil, or_false] at hc
  rcases hc with ((hc | rfl | (hc | rfl | hc) | rfl | hc) | hc) | rfl
  · exact plain_of_digit (format_chars hc)
  · decide
  · exact hint hc
  · decide
  · exact hint hc
  · decide
  · exact hint hc
  · split at hc
    · simp at hc
    · rcases List.mem_cons.mp hc with rfl | hc
      · decide
      · exact hint ((List.rdropWhile_prefix _ _).subset hc)
  · decide

private theorem writeUint32_append_inj {key : String} {m n : ℕ} {r r' : Bytes}
    (h : writeUint32 key m ++ r = writeUint32 key n ++ r') : m = n ∧ r = r' := by
  obtain ⟨htext, hrest⟩ := writeStr_append_inj (isPlain_appendInt _ _) (isPlain_appendInt _ _) h
  have hint : (m : ℤ) = n := appendInt_injective 1 (String.ofList_injective htext)
  exact ⟨Int.ofNat.inj hint, hrest⟩

theorem writeTime_append_inj {key : String} {t t' : ℤ} {r r' : Bytes}
    (h : writeTime key t ++ r = writeTime key t' ++ r') : t = t' ∧ r = r' := by
  obtain ⟨htext, hrest⟩ := writeStr_append_inj (isPlain_formatRFC3339Nano _)
    (isPlain_formatRFC3339Nano _) h
  exact ⟨formatRFC3339Nano_injective htext, hrest⟩

/-- Filters of equal bytes are for one site and one range. -/
theorem Filter.range_eq_of_bytes {f g : Filter} (h : f.bytes = g.bytes) :
    f.siteID = g.siteID ∧ f.fromTime = g.fromTime ∧ f.toTime = g.toTime := by
  unfold Filter.bytes at h
  simp only [List.append_assoc] at h
  obtain ⟨hsite, h⟩ := writeUint32_append_inj h
  obtain ⟨hfrom, h⟩ := writeTime_append_inj h
  obtain ⟨hto, -⟩ := writeTime_append_inj h
  exact ⟨hsite, hfrom, hto⟩

end Statnive.DashboardFilter
