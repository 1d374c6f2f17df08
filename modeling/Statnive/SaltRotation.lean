import Statnive.EnrichPipeline
import Statnive.VisitorIdentity
import Statnive.ZonedTime

/-!
# Salt rotation

The salt of the visitor hashes changes at midnight in the zone of the site. The salt of the
day before is that of the clock's time one calendar day earlier; the calendar day is stepped
in the zone of the clock and the date is rendered in the zone of the site.
-/

namespace Statnive.SaltRotation

open CivilCalendar ZonedTime PrivacyPolicy VisitorIdentity IngestEvents EnrichPipeline

def timezones : List String :=
  ["Europe/Berlin", "Europe/London", "Europe/Paris", "Europe/Madrid", "Europe/Amsterdam",
    "Europe/Rome", "Europe/Warsaw", "Europe/Stockholm", "Europe/Athens", "Europe/Istanbul",
    "Europe/Moscow", "America/New_York", "America/Chicago", "America/Denver",
    "America/Los_Angeles", "America/Toronto", "America/Vancouver", "America/Mexico_City",
    "America/Sao_Paulo", "America/Buenos_Aires", "Asia/Dubai", "Asia/Tehran", "Asia/Riyadh",
    "Asia/Karachi", "Asia/Kolkata", "Asia/Bangkok", "Asia/Singapore", "Asia/Hong_Kong",
    "Asia/Shanghai", "Asia/Tokyo", "Asia/Seoul", "Asia/Jakarta", "Australia/Sydney",
    "Australia/Perth", "Pacific/Auckland", "Africa/Johannesburg", "Africa/Cairo",
    "Africa/Lagos", "UTC"]

/-- `loadLocation` is the zone database. -/
def locationFor (loadLocation : String → Option Zone) (iana : String) : Zone :=
  if timezones.contains iana then (loadLocation iana).getD utc else utc

/-- The clock shows the time in `clockZone`. -/
structure SaltManager where
  masterSecret : Bytes
  hmacSHA256 : Bytes → Bytes → Bytes
  loadLocation : String → Option Zone
  clockZone : Zone
  legacyTZ : Bool := false
  secret_ne : masterSecret ≠ []

structure SaltKey where
  siteID : ℕ
  date : String
  deriving DecidableEq

def saltMessage (siteID : ℕ) (date : String) : Bytes :=
  siteIDBytes siteID ++ utf8 "||" ++ utf8 date

def SaltManager.derive (m : SaltManager) (siteID : ℕ) (date : String) : String :=
  hexEncode (m.hmacSHA256 m.masterSecret (saltMessage siteID date))

/-- The cache never holds anything but derived salts. -/
structure SaltCache (m : SaltManager) where
  entries : List (SaltKey × String) := []
  derived : ∀ kv ∈ entries, kv.2 = m.derive kv.1.siteID kv.1.date := by simp

def SaltCache.put {m : SaltManager} (cache : SaltCache m) (key : SaltKey) : SaltCache m where
  entries := (key, m.derive key.siteID key.date) :: cache.entries
  derived := List.forall_mem_cons.mpr ⟨rfl, cache.derived⟩

def SaltManager.saltFor (m : SaltManager) (cache : SaltCache m) (siteID : ℕ) (date : String) :
    String × SaltCache m :=
  match cache.entries.find? (fun kv => kv.1 = ⟨siteID, date⟩) with
  | some kv => (kv.2, cache)
  | none => (m.derive siteID date, cache.put ⟨siteID, date⟩)

def defaultSaltTimezone : String := "UTC"

def legacyTimezone : String := "Asia/Tehran"

def SaltManager.resolveLocation (m : SaltManager) (tz : String) : Zone :=
  locationFor m.loadLocation
    (if m.legacyTZ then legacyTimezone else if tz = "" then defaultSaltTimezone else tz)

/-- Instants are in nanoseconds. -/
def unixSeconds (t : ℤ) : ℤ := t / 1000000000

def dateIn (t : ℤ) (loc : Zone) : String := (civil (loc.day (unixSeconds t))).format

/-- `AddDate(0, 0, days)` on a time in the zone. -/
def addDate (z : Zone) (t : ℤ) (days : ℤ) : ℤ :=
  1000000000 * z.addDays (unixSeconds t) days + t % 1000000000

def SaltManager.currentSalt (m : SaltManager) (cache : SaltCache m) (now : ℤ) (siteID : ℕ)
    (tz : String) : String × SaltCache m :=
  m.saltFor cache siteID (dateIn now (m.resolveLocation tz))

def SaltManager.previousSalt (m : SaltManager) (cache : SaltCache m) (now : ℤ) (siteID : ℕ)
    (tz : String) : String × SaltCache m :=
  m.saltFor cache siteID (dateIn (addDate m.clockZone now (-1)) (m.resolveLocation tz))

/-- The pipeline with the salts of the manager. -/
def withSalts {φ : Type} (d : Deps φ) (m : SaltManager) : Deps φ :=
  { d with
    currentSalt := fun now siteID tz => (m.currentSalt {} now siteID tz).1
    previousSalt := fun now siteID tz => (m.previousSalt {} now siteID tz).1 }

theorem saltFor_fst (m : SaltManager) (cache : SaltCache m) (siteID : ℕ) (date : String) :
    (m.saltFor cache siteID date).1 = m.derive siteID date := by
  simp only [SaltManager.saltFor]
  cases hfind : cache.entries.find? (fun kv => kv.1 = (⟨siteID, date⟩ : SaltKey)) with
  | none => rfl
  | some kv =>
    have hkey : kv.1 = ⟨siteID, date⟩ := by simpa using List.find?_some hfind
    calc kv.2 = m.derive kv.1.siteID kv.1.date :=
          cache.derived kv (List.mem_of_find?_eq_some hfind)
      _ = m.derive siteID date := by rw [hkey]

theorem currentSalt_fst (m : SaltManager) (cache : SaltCache m) (now : ℤ) (siteID : ℕ)
    (tz : String) :
    (m.currentSalt cache now siteID tz).1 = m.derive siteID (dateIn now (m.resolveLocation tz)) :=
  saltFor_fst m cache siteID _

private theorem unixSeconds_addDate (z : Zone) (t days : ℤ) :
    unixSeconds (addDate z t days) = z.addDays (unixSeconds t) days := by
  simp only [unixSeconds, addDate]
  omega

def SaltManager.dayOf (m : SaltManager) (tz : String) (t : ℤ) : ℤ :=
  (m.resolveLocation tz).day (unixSeconds t)

/-- At `t` the previous salt is the current salt of every instant of the day before. -/
def SaltManager.SaltContinues (m : SaltManager) (siteID : ℕ) (tz : String) (t : ℤ) : Prop :=
  ∀ cache cache' u, m.dayOf tz u + 1 = m.dayOf tz t →
    (m.previousSalt cache t siteID tz).1 = (m.currentSalt cache' u siteID tz).1

/-- A filter without false negatives. -/
structure Remembers {φ : Type} (bf : BloomFilter φ) : Prop where
  added : ∀ bits h, bf.test (bf.add bits h) h = true
  kept : ∀ bits h x, bf.test bits h = true → bf.test (bf.add bits x) h = true

def enrichAll {φ : Type} (d : Deps φ) (p : State φ) (events : List (Clock × RawEvent)) : State φ :=
  events.foldl (fun p ev => (d.enrich ev.1 p ev.2).2) p

structure SameVisitor (raw raw' : RawEvent) : Prop where
  siteID : raw'.siteID = raw.siteID
  tz : raw'.tz = raw.tz
  ip : raw'.ip = raw.ip
  userAgent : raw'.userAgent = raw.userAgent

/-- A visitor whose hash was recorded on the day before is not new at `t`, whatever events came
in between. -/
def SaltManager.GraceRecognises (m : SaltManager) (siteID : ℕ) (tz : String) (t : ℤ) : Prop :=
  ∀ (φ : Type) (d : Deps φ), Remembers d.bloom → ∀ (p : State φ) (clock clock' : Clock)
    (raw raw' : RawEvent) (events : List (Clock × RawEvent)),
    raw.siteID = siteID → raw.tz = tz → SameVisitor raw raw' → clock'.previous = t →
    m.dayOf tz clock.current + 1 = m.dayOf tz t →
    ((withSalts d m).enrich clock p raw).1 ≠ .error .burstDropped →
    ((withSalts d m).mark clock' (enrichAll (withSalts d m)
      ((withSalts d m).enrich clock p raw).2 events).bits raw').1 = false

/-- The change of a clock's offset as it is stepped back by one calendar day. -/
def clockChange (clock : Zone) (s : ℤ) : ℤ :=
  clock.offsetAt (clock.reading s - 86400) - clock.offset s

/-- The time of the day at the site, moved by the change of the site's offset over the step
less that of the clock's, stays within one day. -/
def StaysInDay (clock site : Zone) (s : ℤ) : Prop :=
  let siteChange := site.offset (s - 86400 - clockChange clock s) - site.offset s
  0 ≤ site.timeOfDay s + (siteChange - clockChange clock s) ∧
    site.timeOfDay s + (siteChange - clockChange clock s) < 86400

instance (clock site : Zone) (s : ℤ) : Decidable (StaysInDay clock site s) :=
  inferInstanceAs (Decidable (_ ∧ _))

/-- The dates of days less than a week apart do not collide. -/
def SaltManager.NoCollision (m : SaltManager) (siteID : ℕ) : Prop :=
  ∀ a b : ℤ, -7 < a - b → a - b < 7 →
    m.hmacSHA256 m.masterSecret (saltMessage siteID (civil a).format) =
      m.hmacSHA256 m.masterSecret (saltMessage siteID (civil b).format) →
    saltMessage siteID (civil a).format = saltMessage siteID (civil b).format

theorem addDays_eq_clockChange (clock : Zone) (s : ℤ) :
    clock.addDays s (-1) = s - 86400 - clockChange clock s := by
  have hreading : clock.reading s + 86400 * (-1) = clock.reading s - 86400 := by omega
  rw [Zone.addDays_eq, hreading]
  simp only [clockChange, Zone.reading]
  omega

/-- The day that the step back reaches at the site. -/
def previousDay (clock site : Zone) (s : ℤ) : ℤ := site.day (clock.addDays s (-1))

private theorem previousDay_eq_iff (clock site : Zone) (s : ℤ) :
    previousDay clock site s + 1 = site.day s ↔ StaysInDay clock site s := by
  have hday := Zone.day_eq_iff s (clock.addDays s (-1)) (-1) (z := site)
  have hshift : site.reading (clock.addDays s (-1)) - site.reading s - 86400 * (-1) =
      site.offset (s - 86400 - clockChange clock s) - site.offset s - clockChange clock s := by
    rw [addDays_eq_clockChange]
    simp only [Zone.reading]
    omega
  rw [hshift] at hday
  simp only [previousDay, StaysInDay]
  rw [← hday]
  omega

/-- Offsets are under a day, so the step back does not lead far. -/
theorem previousDay_near (clock site : Zone) (s : ℤ) :
    site.day s - 6 < previousDay clock site s ∧ previousDay clock site s < site.day s + 4 := by
  have hsite := site.lt_day s
  have hsite' := site.lt_day (clock.addDays s (-1))
  have hclock := clock.lt_day s
  have hclock' := Zone.offsetAt_lt_day (clock.reading s - 86400) (z := clock)
  have hstep := addDays_eq_clockChange clock s
  simp only [clockChange] at hstep
  simp only [previousDay, Zone.day]
  simp only [Zone.reading] at hstep hclock' ⊢
  omega

theorem previousSalt_fst (m : SaltManager) (cache : SaltCache m) (now : ℤ) (siteID : ℕ)
    (tz : String) :
    (m.previousSalt cache now siteID tz).1 = m.derive siteID
      (civil (previousDay m.clockZone (m.resolveLocation tz) (unixSeconds now))).format := by
  rw [SaltManager.previousSalt, saltFor_fst, dateIn, unixSeconds_addDate, previousDay]

private theorem eq_of_derive_eq
    {m : SaltManager} {siteID : ℕ} (hmac : m.NoCollision siteID) {a b : ℤ}
    (hlo : -7 < a - b) (hhi : a - b < 7)
    (h : m.derive siteID (civil a).format = m.derive siteID (civil b).format) : a = b := by
  have hmessage := hmac a b hlo hhi (hexEncode_injective h)
  exact format_civil_injective (utf8_injective (List.append_cancel_left hmessage))

private theorem saltContinues_iff {m : SaltManager} {siteID : ℕ} (hmac : m.NoCollision siteID)
    (tz : String) (t : ℤ) :
    m.SaltContinues siteID tz t ↔ (∀ u, m.dayOf tz u + 1 ≠ m.dayOf tz t) ∨
      StaysInDay m.clockZone (m.resolveLocation tz) (unixSeconds t) := by
  rw [← previousDay_eq_iff]
  constructor
  · intro hcontinues
    by_cases hday : ∃ u, m.dayOf tz u + 1 = m.dayOf tz t
    · obtain ⟨u, hu⟩ := hday
      right
      have hsalt := hcontinues {} {} u hu
      rw [previousSalt_fst, currentSalt_fst] at hsalt
      have hnear := previousDay_near m.clockZone (m.resolveLocation tz) (unixSeconds t)
      simp only [SaltManager.dayOf] at hu
      have heq := eq_of_derive_eq hmac (by omega) (by omega) hsalt
      omega
    · exact Or.inl (not_exists.mp hday)
  · rintro (hnone | hprevious) cache cache' u hu
    · exact absurd hu (hnone u)
    · have hday : previousDay m.clockZone (m.resolveLocation tz) (unixSeconds t) =
          (m.resolveLocation tz).day (unixSeconds u) := by
        simp only [SaltManager.dayOf] at hu
        omega
      rw [previousSalt_fst, currentSalt_fst, hday, dateIn]

section Grace

variable {φ : Type} {d : Deps φ}

theorem test_mark (hbloom : Remembers d.bloom) {bits : φ} {h : VisitorHash} (clock : Clock)
    (raw : RawEvent) (ht : d.bloom.test bits h = true) :
    d.bloom.test (d.mark clock bits raw).2 h = true := by
  simp only [Deps.mark, checkAndMark]
  split_ifs
  · exact ht
  · exact hbloom.kept _ _ _ ht
  · exact hbloom.kept _ _ _ ht

theorem test_mark_self (hbloom : Remembers d.bloom) (clock : Clock) (bits : φ) (raw : RawEvent) :
    d.bloom.test (d.mark clock bits raw).2 (d.hashToday clock raw) = true := by
  simp only [Deps.mark, checkAndMark]
  split_ifs with htoday
  · exact htoday
  · exact hbloom.added _ _
  · exact hbloom.added _ _

private theorem test_enrich
    (hbloom : Remembers d.bloom) {p : State φ} {h : VisitorHash} (clock : Clock)
    (raw : RawEvent) (ht : d.bloom.test p.bits h = true) :
    d.bloom.test (d.enrich clock p raw).2.bits h = true := by
  rcases enrich_cases d clock p raw with ⟨-, hbits⟩ | ⟨-, -, hbits⟩ | ⟨-, hbits⟩
  · rw [hbits]
    exact ht
  · rw [hbits]
    exact test_mark hbloom clock raw ht
  · rw [hbits]
    exact test_mark hbloom clock raw ht

private theorem test_enrichAll (hbloom : Remembers d.bloom) {p : State φ} {h : VisitorHash}
    (events : List (Clock × RawEvent)) (ht : d.bloom.test p.bits h = true) :
    d.bloom.test (enrichAll d p events).bits h = true := by
  induction events generalizing p with
  | nil => exact ht
  | cons ev events ih => exact ih (test_enrich hbloom ev.1 ev.2 ht)

/-- An event that the burst guard lets through leaves its hash in the filter. -/
theorem test_recorded (hbloom : Remembers d.bloom) {clock : Clock} {p : State φ} {raw : RawEvent}
    (h : (d.enrich clock p raw).1 ≠ .error .burstDropped) :
    d.bloom.test (d.enrich clock p raw).2.bits (d.hashToday clock raw) = true := by
  rcases enrich_cases d clock p raw with ⟨hres, -⟩ | ⟨-, -, hbits⟩ | ⟨-, hbits⟩
  · exact absurd hres h
  · rw [hbits]
    exact test_mark_self hbloom clock p.bits raw
  · rw [hbits]
    exact test_mark_self hbloom clock p.bits raw

private theorem mark_of_prev {clock : Clock} {bits : φ} {raw : RawEvent}
    (h : d.bloom.test bits (d.hashPrev clock raw) = true) : (d.mark clock bits raw).1 = false := by
  simp only [Deps.mark, checkAndMark]
  by_cases heq : d.hashToday clock raw = d.hashPrev clock raw
  · simp [heq, h]
  · split_ifs with htoday hgrace
    · rfl
    · rfl
    · simp [heq, h] at hgrace

end Grace

private theorem graceRecognises_of_saltContinues
    {m : SaltManager} {siteID : ℕ} {tz : String} {t : ℤ}
    (h : m.SaltContinues siteID tz t) : m.GraceRecognises siteID tz t := by
  intro φ d hbloom p clock clock' raw raw' events hsite htz hsame hclock hday hrecorded
  have hhash : (withSalts d m).hashPrev clock' raw' = (withSalts d m).hashToday clock raw := by
    have hsalt := h {} {} clock.current hday
    simp only [Deps.hashPrev, Deps.hashToday, withSalts, hsame.siteID, hsame.tz, hsame.ip,
      hsame.userAgent, hsite, htz, hclock, hsalt]
  have hbloom' : Remembers (withSalts d m).bloom := hbloom
  apply mark_of_prev
  rw [hhash]
  exact test_enrichAll hbloom' events (test_recorded hbloom' hrecorded)

/-- For every site, zone and instant: the previous salt is that of the day before, and visitors
of the day before are recognised, exactly when that day has no instant in the zone or the time
of the day stays within one day under the changes of the offsets. -/
theorem salt_continuity_iff (m : SaltManager) (siteID : ℕ) (tz : String) (t : ℤ)
    (hmac : m.NoCollision siteID) :
    m.SaltContinues siteID tz t ∧ m.GraceRecognises siteID tz t ↔
      (∀ u, m.dayOf tz u + 1 ≠ m.dayOf tz t) ∨
        StaysInDay m.clockZone (m.resolveLocation tz) (unixSeconds t) := by
  rw [← saltContinues_iff hmac]
  exact ⟨And.left, fun h => ⟨h, graceRecognises_of_saltContinues h⟩⟩

/-- Europe/Berlin in 2026: summer time from 03-29 01:00 to 10-25 01:00 in UTC. -/
def berlin2026 : Zone where
  offset s := if 1774746000 ≤ s ∧ s < 1792890000 then 7200 else 3600
  lt_day s := by split_ifs <;> decide

def mac1024 : Bytes :=
  [239, 121, 143, 18, 208, 184, 169, 32, 20, 161, 153, 77, 209, 162, 145, 0, 244, 223, 96,
    124, 247, 242, 106, 32, 152, 208, 84, 237, 13, 238, 17, 253]

def mac1025 : Bytes :=
  [2, 91, 217, 59, 100, 106, 33, 117, 166, 35, 224, 91, 149, 160, 159, 203, 0, 178, 17, 163,
    84, 120, 1, 20, 22, 200, 131, 132, 10, 126, 98, 172]

/-- The digests at the inputs that occur below. -/
def sampleHMAC (_key msg : Bytes) : Bytes :=
  if msg = saltMessage 1 "2026-10-24" then mac1024
  else if msg = saltMessage 1 "2026-10-25" then mac1025
  else msg

/-- A server in UTC. -/
def sampleManager : SaltManager where
  masterSecret := [0x2A]
  hmacSHA256 := sampleHMAC
  loadLocation name := if name = "Europe/Berlin" then some berlin2026 else none
  clockZone := utc
  secret_ne := by decide

theorem sampleHMAC_cases (key : Bytes) (date : String) :
    (sampleHMAC key (saltMessage 1 date) = mac1024 ∧
      saltMessage 1 date = saltMessage 1 "2026-10-24") ∨
    (sampleHMAC key (saltMessage 1 date) = mac1025 ∧
      saltMessage 1 date = saltMessage 1 "2026-10-25") ∨
    sampleHMAC key (saltMessage 1 date) = saltMessage 1 date := by
  by_cases h24 : saltMessage 1 date = saltMessage 1 "2026-10-24"
  · exact .inl ⟨if_pos h24, h24⟩
  · by_cases h25 : saltMessage 1 date = saltMessage 1 "2026-10-25"
    · exact .inr (.inl ⟨(if_neg h24).trans (if_pos h25), h25⟩)
    · exact .inr (.inr ((if_neg h24).trans (if_neg h25)))

private theorem sampleManager_noCollision : sampleManager.NoCollision 1 := by
  have hhead (date : String) : (saltMessage 1 date).head? = some 1 := rfl
  have h24 (date : String) : mac1024 ≠ saltMessage 1 date := by
    intro h
    exact absurd ((congrArg List.head? h).trans (hhead date)) (by decide)
  have h25 (date : String) : mac1025 ≠ saltMessage 1 date := by
    intro h
    exact absurd ((congrArg List.head? h).trans (hhead date)) (by decide)
  have hmacs : mac1024 ≠ mac1025 := by decide
  intro a b _ _ h
  simp only [sampleManager] at h
  rcases sampleHMAC_cases [0x2A] (civil a).format with ⟨ha, ha'⟩ | ⟨ha, ha'⟩ | ha <;>
    rcases sampleHMAC_cases [0x2A] (civil b).format with ⟨hb, hb'⟩ | ⟨hb, hb'⟩ | hb <;>
    rw [ha, hb] at h
  · exact ha'.trans hb'.symm
  · exact absurd h hmacs
  · exact absurd h (h24 _)
  · exact absurd h.symm hmacs
  · exact ha'.trans hb'.symm
  · exact absurd h (h25 _)
  · exact absurd h.symm (h24 _)
  · exact absurd h.symm (h25 _)
  · exact h

/-- Noon on 2026-10-25 in Berlin. -/
theorem salt_continuity_iff_noon :
    sampleManager.SaltContinues 1 "Europe/Berlin" 1792926000000000000 ∧
      sampleManager.GraceRecognises 1 "Europe/Berlin" 1792926000000000000 :=
  (salt_continuity_iff sampleManager 1 "Europe/Berlin" 1792926000000000000
    sampleManager_noCollision).mpr (Or.inr (by decide))

def sampleHash1024 : VisitorHash :=
  [90, 109, 17, 139, 178, 183, 146, 172, 1, 47, 4, 216, 103, 205, 49, 249]

def sampleHash1025 : VisitorHash :=
  [145, 26, 223, 40, 227, 67, 48, 83, 183, 44, 1, 12, 53, 253, 114, 2]

def berlinPipeline : Deps (List VisitorHash) where
  currentSalt _ _ _ := ""
  previousSalt _ _ _ := ""
  visitorHash _ _ salt := if salt = hexEncode mac1024 then sampleHash1024 else sampleHash1025
  bloom := exactFilter

private theorem exactFilter_remembers : Remembers exactFilter :=
  ⟨by simp [exactFilter], by simp +contextual [exactFilter]⟩

/-- 14:00 on 2026-10-24 in Berlin. -/
def saturday : ℤ := 1792843200000000000

/-- 23:30 on 2026-10-25 in Berlin. -/
def lateSunday : ℤ := 1792967400000000000

def berlinVisit : RawEvent :=
  { siteID := 1, tz := "Europe/Berlin", ip := "192.0.2.1", userAgent := "Mozilla/5.0 (X11)" }

/-- Late on the day of 25 hours the previous salt is still that of the same day, and a visitor of
the day before counts as new. -/
theorem previous_salt_of_same_day :
    ¬ sampleManager.SaltContinues 1 "Europe/Berlin" lateSunday ∧
      ¬ sampleManager.GraceRecognises 1 "Europe/Berlin" lateSunday := by
  constructor
  · intro h
    have hsalt := h {} {} saturday (by decide)
    rw [previousSalt_fst, currentSalt_fst] at hsalt
    revert hsalt
    decide
  · intro h
    have hmark := h (List VisitorHash) berlinPipeline exactFilter_remembers { bits := [] }
      { current := saturday } { current := lateSunday, previous := lateSunday }
      berlinVisit berlinVisit [] rfl rfl ⟨rfl, rfl, rfl, rfl⟩ rfl (by decide) (by decide)
    revert hmark
    decide

end Statnive.SaltRotation
