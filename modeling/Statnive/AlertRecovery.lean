import Statnive.AlertBands
import Statnive.LevelReports
import Statnive.LockoutTable

/-!
# Alerts and their recoveries

The watcher of the certificate and the probes of ClickHouse and of the disk follow a level each,
and hand an alert to the sink when it changes. An alert is unresolved, or it tells that an earlier
one is over.
-/

namespace Statnive.AlertRecovery

open AlertBands LevelReports
open LockoutTable (second zeroTime)

inductive AlertName where
  | clickHouseDown | clickHouseUp
  | diskHighFillRatio
  | tlsExpiryWarn | tlsExpiryCritical
  deriving DecidableEq

/-- The attributes that a source adds. -/
inductive Detail (R : Type*) where
  | none
  | failure (err : String)
  | fill (value : R) (band : UInt32) (path : String)
  | expiry (notAfter remaining : ℤ) (subject : String)
  deriving DecidableEq

/-- The arguments of an `Emit`. -/
structure Alert (R : Type*) where
  name : AlertName
  severity : Severity
  resolved : Bool
  detail : Detail R
  deriving DecidableEq

variable {R : Type*}

def Alert.raises (a : Alert R) : Option AlertName := if a.resolved then none else some a.name

/-- The recovery of a name is a resolved alert of that name, and `clickhouse_up` is the one of
`clickhouse_down`. -/
def Alert.Recovers (a : Alert R) (n : AlertName) : Prop :=
  a.resolved = true ∧ (a.name = n ∨ a.name = .clickHouseUp ∧ n = .clickHouseDown)

/-- Times are in nanoseconds since the epoch. -/
def hour : ℤ := 3600 * second

def maxDuration : ℤ := 2 ^ 63 - 1

def minDuration : ℤ := -2 ^ 63

/-- `Time.Sub` stops at the bounds of a duration. -/
def sub (t u : ℤ) : ℤ := max minDuration (min maxDuration (t - u))

/-- `Duration.Round` to hours, half an hour away from zero. -/
def roundHour (d : ℤ) : ℤ :=
  let r := d.natAbs % hour
  if d < 0 then if 2 * r < hour then d + r else max minDuration (d - hour + r)
  else if 2 * r < hour then d - r else min maxDuration (d + hour - r)

def expiryWarnThreshold : ℤ := 30 * 24 * hour

def expiryCriticalThreshold : ℤ := 7 * 24 * hour

inductive ExpiryLevel where
  | fresh | warn | critical
  deriving DecidableEq

def classify (remaining : ℤ) : ExpiryLevel :=
  if remaining ≤ expiryCriticalThreshold then .critical
  else if remaining ≤ expiryWarnThreshold then .warn
  else .fresh

/-- What a check reads: the expiry and the subject of the certificate that is loaded, or the zero
time, and the clock. -/
structure Check where
  notAfter : ℤ
  subject : String
  now : ℤ
  deriving DecidableEq

def Check.remaining (c : Check) : ℤ := sub c.notAfter c.now

/-- The level of a check that finds a certificate. -/
def Check.level (c : Check) : Option ExpiryLevel :=
  if c.notAfter = zeroTime then none else some (classify c.remaining)

def expiryAlert (name : AlertName) (severity : Severity) (resolved : Bool) (c : Check) : Alert R :=
  ⟨name, severity, resolved, .expiry c.notAfter (roundHour c.remaining) c.subject⟩

/-- The events that the audit log gets as well are left out. -/
def check (lastLevel : ExpiryLevel) (c : Check) : ExpiryLevel × Option (Alert R) :=
  if c.notAfter = zeroTime then (lastLevel, none)
  else
    let level := classify c.remaining
    if level = lastLevel then (lastLevel, none)
    else match level with
    | .critical => (level, some (expiryAlert .tlsExpiryCritical .critical false c))
    | .warn => (level, some (expiryAlert .tlsExpiryWarn .warn false c))
    | .fresh =>
      if lastLevel = .warn ∨ lastLevel = .critical then
        (level, some (expiryAlert .tlsExpiryWarn .info true c))
      else (level, none)

/-- A ping is its error where it fails. -/
def pingBand (ping : Option String) : UInt32 := if ping.isSome then 1 else 0

def probeClickHouse (current : UInt32) (ping : Option String) : UInt32 × Option (Alert R) :=
  let (tr, next) := observe current (pingBand ping)
  if !tr.entered && !tr.exited then (next, none)
  else if tr.entered then
    (next, some ⟨.clickHouseDown, .critical, false, .failure (ping.getD "")⟩)
  else if tr.exited then (next, some ⟨.clickHouseUp, .info, true, .none⟩)
  else (next, none)

section Disk

variable [LE R] [DecidableLE R] [OfScientific R]

def diskFillThresholds : R × R × R := (0.85, 0.90, 0.95)

/-- A sample of the fill ratio at the path, which is `none` where the sampler fails. -/
def probeDiskFill (path : String) (current : UInt32) (sample : Option R) :
    UInt32 × Option (Alert R) :=
  match sample with
  | none => (current, none)
  | some ratio =>
    let (low, middle, high) := diskFillThresholds
    let (band, severity) := classifyRatio ratio low middle high
    let (tr, next) := observe current band
    if !tr.entered && !tr.exited then (next, none)
    else (next, some ⟨.diskHighFillRatio, severity, tr.exited && band = 0, .fill ratio band path⟩)

end Disk

/-- The samples of a source. -/
inductive Feed (R : Type*) where
  | certificate (checks : List Check)
  | clickHouse (pings : List (Option String))
  | disk (path : String) (samples : List (Option R))

/-- Each alert of a source is over once its level is clear. -/
def AlertsBalanced [LE R] [DecidableLE R] [OfScientific R] : Feed R → Prop
  | .certificate checks =>
    Balanced Alert.raises Alert.Recovers (check (R := R)) .fresh checks
  | .clickHouse pings =>
    Balanced Alert.raises Alert.Recovers (probeClickHouse (R := R)) 0 pings
  | .disk path samples =>
    Balanced Alert.raises Alert.Recovers (probeDiskFill (R := R) path) 0 samples

/-- No check finds a fresh certificate after an earlier one found a critical one. -/
def NeverRenewedLate : Feed R → Prop
  | .certificate checks =>
    checks.Pairwise fun c d => ¬ (c.level = some .critical ∧ d.level = some .fresh)
  | _ => True

/-- A probe reports each change of its band. -/
theorem observe_cases (current band : UInt32) :
    band = current ∧ observe current band = (⟨false, false, band, band⟩, current) ∨
      current < band ∧ observe current band = (⟨true, false, band, current⟩, band) ∨
      band < current ∧ observe current band = (⟨false, true, band, current⟩, band) := by
  by_cases h : band = current
  · exact .inl ⟨h, by simp [observe, h, steady]⟩
  · obtain hlt | hlt := UInt32.lt_or_lt_of_ne h
    · have hnot : ¬ current < band := UInt32.lt_asymm hlt
      exact .inr (.inr ⟨hlt, by simp [observe, h, changed, hlt, hnot]⟩)
    · have hnot : ¬ band < current := UInt32.lt_asymm hlt
      exact .inr (.inl ⟨hlt, by simp [observe, h, changed, hlt, hnot]⟩)

theorem probeClickHouse_cases (current : UInt32) (ping : Option String) :
    pingBand ping = current ∧ probeClickHouse (R := R) current ping = (current, none) ∨
      current < pingBand ping ∧ probeClickHouse (R := R) current ping =
        (pingBand ping, some ⟨.clickHouseDown, .critical, false, .failure (ping.getD "")⟩) ∨
      pingBand ping < current ∧ probeClickHouse (R := R) current ping =
        (pingBand ping, some ⟨.clickHouseUp, .info, true, .none⟩) := by
  obtain ⟨h, hobserve⟩ | ⟨h, hobserve⟩ | ⟨h, hobserve⟩ := observe_cases current (pingBand ping)
  · exact .inl ⟨h, by simp [probeClickHouse, hobserve]⟩
  · exact .inr (.inl ⟨h, by simp [probeClickHouse, hobserve]⟩)
  · exact .inr (.inr ⟨h, by simp [probeClickHouse, hobserve]⟩)

theorem pingBand_cases (ping : Option String) : pingBand ping = 0 ∨ pingBand ping = 1 := by
  cases ping with
  | none => exact .inl rfl
  | some err => exact .inr rfl

/-- The band of the probe is 0 or 1. -/
theorem final_probeClickHouse (pings : List (Option String)) :
    final (probeClickHouse (R := R)) 0 pings = 0 ∨
      final (probeClickHouse (R := R)) 0 pings = 1 := by
  induction pings using List.reverseRecOn with
  | nil => exact .inl rfl
  | append_singleton pings ping ih =>
    rw [final_snoc]
    obtain ⟨-, h⟩ | ⟨-, h⟩ | ⟨-, h⟩ :=
      probeClickHouse_cases (R := R) (final probeClickHouse 0 pings) ping
    · rwa [h]
    · rw [h]
      exact pingBand_cases ping
    · rw [h]
      exact pingBand_cases ping

private theorem balanced_clickHouse (pings : List (Option String)) :
    Balanced Alert.raises Alert.Recovers (probeClickHouse (R := R)) 0 pings := by
  refine balanced_of_step (P := fun band n => n = .clickHouseDown ∧ band ≠ 0) (by simp) ?_ ?_ pings
  · intro current ping
    obtain ⟨-, h⟩ | ⟨hne, h⟩ | ⟨hne, h⟩ := probeClickHouse_cases (R := R) current ping
    · simp [h]
    · simp [h, (UInt32.ne_of_lt hne).symm]
    · simp [h, UInt32.ne_of_lt hne]
  · intro js ping r hr n
    have hcurrent := final_probeClickHouse (R := R) js
    generalize final (probeClickHouse (R := R)) 0 js = current at hr hcurrent ⊢
    obtain ⟨-, h⟩ | ⟨hlt, h⟩ | ⟨hlt, h⟩ := probeClickHouse_cases (R := R) current ping
    · simp [h] at hr
    · rw [h] at hr ⊢
      obtain rfl := Option.some.inj hr
      have hband : pingBand ping ≠ 0 :=
        (UInt32.ne_of_lt (UInt32.lt_of_le_of_lt UInt32.zero_le hlt)).symm
      simp +contextual [Alert.raises, Alert.Recovers, hband, eq_comm]
    · rw [h] at hr ⊢
      obtain rfl := Option.some.inj hr
      obtain rfl | rfl := hcurrent
      · exact absurd hlt UInt32.not_lt_zero
      have hband : pingBand ping = 0 := (pingBand_cases ping).resolve_right (UInt32.ne_of_lt hlt)
      simp +contextual [Alert.raises, Alert.Recovers, hband]

section Disk

variable [LE R] [DecidableLE R] [OfScientific R]

/-- A sample that is read reports each change of the band, and is the recovery when it is 0. -/
theorem probeDiskFill_cases (path : String) (current : UInt32) (sample : Option R) :
    probeDiskFill path current sample = (current, none) ∨
      ∃ band alert, band ≠ current ∧ probeDiskFill path current sample = (band, some alert) ∧
        alert.name = .diskHighFillRatio ∧ (alert.resolved = true ↔ band = 0) := by
  cases sample with
  | none => exact .inl rfl
  | some ratio =>
    generalize hclass : classifyRatio ratio diskFillThresholds.1 diskFillThresholds.2.1
      diskFillThresholds.2.2 = class'
    obtain ⟨band, severity⟩ := class'
    obtain ⟨h, hobserve⟩ | ⟨h, hobserve⟩ | ⟨h, hobserve⟩ := observe_cases current band
    · exact .inl (by simp [probeDiskFill, hclass, hobserve])
    · refine .inr ⟨band, ⟨.diskHighFillRatio, severity, false, .fill ratio band path⟩,
        (UInt32.ne_of_lt h).symm, by simp [probeDiskFill, hclass, hobserve], rfl, ?_⟩
      have hband : band ≠ 0 := (UInt32.ne_of_lt (UInt32.lt_of_le_of_lt UInt32.zero_le h)).symm
      simp [hband]
    · refine .inr ⟨band, ⟨.diskHighFillRatio, severity, band = 0, .fill ratio band path⟩,
        UInt32.ne_of_lt h, by simp [probeDiskFill, hclass, hobserve], rfl, ?_⟩
      simp

private theorem balanced_disk (path : String) (samples : List (Option R)) :
    Balanced Alert.raises Alert.Recovers (probeDiskFill path) 0 samples := by
  refine balanced_of_step (P := fun band n => n = .diskHighFillRatio ∧ band ≠ 0) (by simp) ?_ ?_
    samples
  · intro current sample
    obtain h | ⟨band, alert, hne, h, -, -⟩ := probeDiskFill_cases path current sample
    · simp [h]
    · simp [h, hne]
  · intro js sample r hr n
    generalize final (probeDiskFill path) 0 js = current at hr ⊢
    obtain h | ⟨band, alert, hne, h, hname, hresolved⟩ := probeDiskFill_cases path current sample
    · simp [h] at hr
    · rw [h] at hr ⊢
      obtain rfl := Option.some.inj hr
      by_cases hband : band = 0
      · have htrue := hresolved.mpr hband
        simp +contextual [Alert.raises, Alert.Recovers, hband, htrue, hname]
      · have hfalse : alert.resolved = false := by simpa [hband] using hresolved
        simp +contextual [Alert.raises, Alert.Recovers, hband, hfalse, hname, eq_comm]

end Disk

theorem check_of_level_none {lastLevel : ExpiryLevel} {c : Check} (h : c.level = none) :
    check (R := R) lastLevel c = (lastLevel, none) := by
  have hzero : c.notAfter = zeroTime := by
    by_contra hne
    simp [Check.level, hne] at h
  simp [check, hzero]

/-- The alert of a check that finds another level. The fresh level is told under the name of the
warning, whichever level it was before. -/
def levelAlert : ExpiryLevel → Check → Alert R
  | .critical => expiryAlert .tlsExpiryCritical .critical false
  | .warn => expiryAlert .tlsExpiryWarn .warn false
  | .fresh => expiryAlert .tlsExpiryWarn .info true

theorem check_of_level {lastLevel level : ExpiryLevel} {c : Check} (h : c.level = some level)
    (hne : level ≠ lastLevel) :
    check (R := R) lastLevel c = (level, some (levelAlert level c)) := by
  have hloaded : c.notAfter ≠ zeroTime := fun hzero => by simp [Check.level, hzero] at h
  have hlevel : classify c.remaining = level := by simpa [Check.level, hloaded] using h
  cases level with
  | critical | warn => simp [check, hloaded, hlevel, hne, levelAlert]
  | fresh =>
    have hlast : lastLevel = .warn ∨ lastLevel = .critical := by
      cases lastLevel with
      | fresh => exact absurd rfl hne
      | warn => exact .inl rfl
      | critical => exact .inr rfl
    simp [check, hloaded, hlevel, hne, hlast, levelAlert]

theorem check_of_level_same {lastLevel : ExpiryLevel} {c : Check} (h : c.level = some lastLevel) :
    check (R := R) lastLevel c = (lastLevel, none) := by
  have hloaded : c.notAfter ≠ zeroTime := fun hzero => by simp [Check.level, hzero] at h
  have hlevel : classify c.remaining = lastLevel := by simpa [Check.level, hloaded] using h
  simp [check, hloaded, hlevel]

private theorem check_level (lastLevel : ExpiryLevel) (c : Check) :
    (check (R := R) lastLevel c).1 = c.level.getD lastLevel := by
  cases h : c.level with
  | none => rw [check_of_level_none h, Option.getD_none]
  | some level =>
    rw [Option.getD_some]
    by_cases hsame : level = lastLevel
    · subst hsame
      rw [check_of_level_same h]
    · rw [check_of_level h hsame]

theorem check_none_iff (lastLevel : ExpiryLevel) (c : Check) :
    (check (R := R) lastLevel c).2 = none ↔ (check (R := R) lastLevel c).1 = lastLevel := by
  cases h : c.level with
  | none => simp [check_of_level_none h]
  | some level =>
    by_cases hsame : level = lastLevel
    · subst hsame
      simp [check_of_level_same h]
    · simp [check_of_level h hsame, hsame]

section Certificate

variable (R) (checks : List Check)

theorem final_check_snoc (c : Check) : final (check (R := R)) .fresh (checks ++ [c]) =
    c.level.getD (final (check (R := R)) .fresh checks) := by
  rw [final_snoc, check_level]

/-- A level that is not the fresh one was found by a check. -/
theorem exists_of_final {level : ExpiryLevel}
    (hfinal : final (check (R := R)) .fresh checks = level) (hne : level ≠ .fresh) :
    ∃ c ∈ checks, c.level = some level := by
  induction checks using List.reverseRecOn with
  | nil => exact absurd hfinal.symm hne
  | append_singleton checks c ih =>
    rw [final_check_snoc] at hfinal
    cases hlevel : c.level with
    | none =>
      obtain ⟨d, hd, hdlevel⟩ := ih (by rwa [hlevel, Option.getD_none] at hfinal)
      exact ⟨d, List.mem_append_left _ hd, hdlevel⟩
    | some found =>
      rw [hlevel, Option.getD_some] at hfinal
      exact ⟨c, by simp, hfinal ▸ hlevel⟩

/-- What is open of the names of the certificate. -/
structure OpenAsSeen : Prop where
  critical : Open Alert.raises Alert.Recovers (reports (check (R := R)) .fresh checks)
    .tlsExpiryCritical ↔ ∃ c ∈ checks, c.level = some .critical
  warn : final (check (R := R)) .fresh checks = .fresh →
    ¬ Open Alert.raises Alert.Recovers (reports (check (R := R)) .fresh checks) .tlsExpiryWarn
  others : ∀ n, Open Alert.raises Alert.Recovers (reports (check (R := R)) .fresh checks) n →
    n = .tlsExpiryCritical ∨ n = .tlsExpiryWarn

variable {R checks} {c : Check}

theorem OpenAsSeen.quiet (h : OpenAsSeen R checks)
    (hsame : (check (R := R) (final (check (R := R)) .fresh checks) c).2 = none)
    (hcritical : c.level = some .critical → ∃ c ∈ checks, c.level = some .critical) :
    OpenAsSeen R (checks ++ [c]) := by
  have hreports : reports (check (R := R)) .fresh (checks ++ [c]) =
      reports check .fresh checks := by
    rw [reports_snoc, hsame, Option.toList_none, List.append_nil]
  have hfinal : final (check (R := R)) .fresh (checks ++ [c]) =
      final (check (R := R)) .fresh checks := by
    rw [final_snoc, (check_none_iff _ c).mp hsame]
  refine ⟨?_, ?_, ?_⟩
  · rw [hreports, h.critical]
    simp only [List.mem_append, List.mem_singleton, or_and_right, exists_or, exists_eq_left]
    exact ⟨.inl, fun h => h.elim id hcritical⟩
  · rw [hreports, hfinal]
    exact h.warn
  · rw [hreports]
    exact h.others

private theorem raises_levelAlert {level : ExpiryLevel} {n : AlertName}
    (h : (levelAlert (R := R) level c).raises = some n) :
    n = .tlsExpiryCritical ∨ n = .tlsExpiryWarn := by
  cases level with
  | critical => exact .inl (Option.some.inj h).symm
  | warn => exact .inr (Option.some.inj h).symm
  | fresh => cases h

theorem OpenAsSeen.report (h : OpenAsSeen R checks) {level : ExpiryLevel}
    (hlevel : c.level = some level) (hne : level ≠ final (check (R := R)) .fresh checks) :
    OpenAsSeen R (checks ++ [c]) := by
  have hreports : reports (check (R := R)) .fresh (checks ++ [c]) =
      reports check .fresh checks ++ [levelAlert level c] := by
    rw [reports_snoc, check_of_level hlevel hne, Option.toList_some]
  refine ⟨?_, ?_, fun n hn => ?_⟩
  · rw [hreports, open_snoc, h.critical]
    cases level with
    | critical | warn | fresh =>
      simp [levelAlert, expiryAlert, Alert.raises, Alert.Recovers, hlevel, or_and_right, exists_or]
  · rw [hreports, final_check_snoc, hlevel, Option.getD_some, open_snoc]
    rintro rfl
    simp [levelAlert, expiryAlert, Alert.raises, Alert.Recovers]
  · rw [hreports, open_snoc] at hn
    exact hn.elim raises_levelAlert fun hn => h.others n hn.1

/-- A critical alert stays open: no alert of the watcher recovers its name. -/
theorem openAsSeen (checks : List Check) : OpenAsSeen R checks := by
  induction checks using List.reverseRecOn with
  | nil => exact ⟨iff_of_false not_open_nil (by simp), fun _ => not_open_nil,
      fun _ hopen => absurd hopen not_open_nil⟩
  | append_singleton checks c ih =>
    cases hlevel : c.level with
    | none =>
      exact ih.quiet (by rw [check_of_level_none hlevel]) fun h => by rw [hlevel] at h; cases h
    | some level =>
      by_cases hsame : level = final (check (R := R)) .fresh checks
      · refine ih.quiet (by rw [check_of_level_same (hsame ▸ hlevel)]) fun h => ?_
        obtain rfl := Option.some.inj (hlevel.symm.trans h)
        exact exists_of_final R checks hsame.symm (by decide)
      · exact ih.report hlevel hsame

/-- While the certificate is fresh, what is open is the critical alert of an earlier check. -/
theorem recovered_check_iff (hfinal : final (check (R := R)) .fresh checks = .fresh) :
    Recovered Alert.raises Alert.Recovers (reports (check (R := R)) .fresh checks) ↔
      ¬ ∃ c ∈ checks, c.level = some .critical := by
  have hopen := openAsSeen (R := R) checks
  rw [recovered_iff, ← hopen.critical]
  refine ⟨fun h => h _, fun h n hn => ?_⟩
  obtain rfl | rfl := hopen.others n hn
  · exact h hn
  · exact hopen.warn hfinal hn

/-- The level after a critical check is the fresh one only if a later check found it. -/
theorem not_pairwise_of_final (hfinal : final (check (R := R)) .fresh checks = .fresh)
    (hcritical : ∃ c ∈ checks, c.level = some .critical) :
    ¬ checks.Pairwise fun c d => ¬ (c.level = some .critical ∧ d.level = some .fresh) := by
  induction checks using List.reverseRecOn with
  | nil => simp at hcritical
  | append_singleton checks d ih =>
    obtain ⟨c, hc, hclevel⟩ := hcritical
    intro hpairs
    rw [List.pairwise_append] at hpairs
    rw [final_check_snoc] at hfinal
    cases hlevel : d.level with
    | none =>
      rw [hlevel, Option.getD_none] at hfinal
      obtain hc | hc := List.mem_append.mp hc
      · exact ih hfinal ⟨c, hc, hclevel⟩ hpairs.1
      · obtain rfl := List.mem_singleton.mp hc
        rw [hlevel] at hclevel
        cases hclevel
    | some level =>
      obtain rfl : level = .fresh := by rwa [hlevel, Option.getD_some] at hfinal
      obtain hc | hc := List.mem_append.mp hc
      · exact hpairs.2.2 c hc d (List.mem_singleton_self d) ⟨hclevel, hlevel⟩
      · obtain rfl := List.mem_singleton.mp hc
        rw [hlevel] at hclevel
        cases hclevel

theorem balanced_check_iff (checks : List Check) :
    Balanced Alert.raises Alert.Recovers (check (R := R)) .fresh checks ↔
      checks.Pairwise fun c d => ¬ (c.level = some .critical ∧ d.level = some .fresh) := by
  constructor
  · intro h
    induction checks using List.reverseRecOn with
    | nil => exact List.Pairwise.nil
    | append_singleton checks d ih =>
      have hprefix : checks <+: checks ++ [d] := List.prefix_append checks [d]
      refine List.pairwise_append.mpr ⟨ih ⟨debounced_of_step check_none_iff _ _,
        fun js hjs => h.recovered js (hjs.trans hprefix)⟩, List.pairwise_singleton _ d, ?_⟩
      rintro c hc e he ⟨hcritical, hfresh⟩
      have hfinal : final (check (R := R)) .fresh (checks ++ [d]) = .fresh := by
        rw [final_check_snoc, ← List.mem_singleton.mp he, hfresh, Option.getD_some]
      exact (recovered_check_iff hfinal).mp (h.recovered _ (List.prefix_refl _) hfinal)
        ⟨c, List.mem_append_left _ hc, hcritical⟩
  · intro h
    refine ⟨debounced_of_step check_none_iff _ _, fun js hjs hfinal => ?_⟩
    rw [recovered_check_iff hfinal]
    exact fun hcritical => not_pairwise_of_final hfinal hcritical (h.sublist hjs.sublist)

end Certificate

/-- The alerts of a source are balanced by recoveries, unless it is the certificate, and that is
renewed after it was critical: the recovery is then the one of a warning. -/
theorem alertsBalanced_iff [LE R] [DecidableLE R] [OfScientific R] (feed : Feed R) :
    AlertsBalanced feed ↔ NeverRenewedLate feed := by
  cases feed with
  | certificate checks => exact balanced_check_iff checks
  | clickHouse pings => exact iff_of_true (balanced_clickHouse pings) trivial
  | disk path samples => exact iff_of_true (balanced_disk path samples) trivial

def renewedLate : List Check :=
  [⟨6 * 24 * hour, "example.com", 0⟩, ⟨90 * 24 * hour, "example.com", 0⟩]

/-- A certificate that is six days from its end, and then renewed. -/
theorem critical_never_recovered :
    reports (check (R := ℚ)) .fresh renewedLate =
      [⟨.tlsExpiryCritical, .critical, false,
          .expiry (6 * 24 * hour) (6 * 24 * hour) "example.com"⟩,
        ⟨.tlsExpiryWarn, .info, true,
          .expiry (90 * 24 * hour) (90 * 24 * hour) "example.com"⟩] ∧
      ¬ AlertsBalanced (R := ℚ) (.certificate renewedLate) := by
  refine ⟨by decide, fun h => ?_⟩
  rw [AlertsBalanced, balanced_check_iff] at h
  exact absurd h (by decide)

end Statnive.AlertRecovery
