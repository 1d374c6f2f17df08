import Statnive.IngestHandler

/-!
# The enrichment pipeline

`Pipeline.Enrich` runs identity, burst guard, new-visitor filter, geo, user agent, bot,
channel and goal matching on one event. The lookups are parameters; the burst guard and
the filter carry state from event to event.
-/

namespace Statnive.EnrichPipeline

open IngestEvents PrivacyPolicy IngestHandler

/-- 16 bytes. -/
abbrev VisitorHash := List ℕ

structure BurstEntry where
  count : ℕ
  windowStart : ℤ
  deriving DecidableEq

structure BurstGuard where
  cap : ℤ
  entries : List (VisitorHash × BurstEntry) := []
  deriving DecidableEq

/-- A minute, in nanoseconds. -/
def burstWindow : ℤ := 60000000000

def BurstGuard.put (g : BurstGuard) (hash : VisitorHash) (e : BurstEntry) : BurstGuard :=
  { g with entries := (hash, e) :: g.entries.filter (fun kv => kv.1 ≠ hash) }

def BurstGuard.allow (g : BurstGuard) (hash : VisitorHash) (now : ℤ) : Bool × BurstGuard :=
  if g.cap ≤ 0 then (true, g)
  else match (g.entries.find? (fun kv => kv.1 = hash)).map Prod.snd with
  | none => (true, g.put hash ⟨1, now⟩)
  | some e =>
    if burstWindow ≤ now - e.windowStart then (true, g.put hash ⟨1, now⟩)
    else if g.cap ≤ e.count then (false, g)
    else (true, g.put hash { e with count := e.count + 1 })

/-- The operations of the Bloom filter on its bits. -/
structure BloomFilter (φ : Type) where
  test : φ → VisitorHash → Bool
  add : φ → VisitorHash → φ

variable {φ : Type}

def checkAndMark (bf : BloomFilter φ) (bits : φ) (currentHash prevHash : VisitorHash) : Bool × φ :=
  if bf.test bits currentHash then (false, bits)
  else if currentHash ≠ prevHash && bf.test bits prevHash then (false, bf.add bits currentHash)
  else (true, bf.add bits currentHash)

structure GeoInfo where
  province : String := ""
  city : String := ""
  countryCode : String := ""
  isp : String := ""
  carrier : String := ""

structure UAInfo where
  os : String := ""
  browser : String := ""
  device : String := ""
  isBot : Bool := false

structure ChannelResult where
  referrerName : String := ""
  channel : String := ""

/-- The collaborators of the pipeline. `uint64` is the float conversion, `toLower` is
`strings.ToLower`, and the value of a matched goal is `goals siteID eventName`. -/
structure Deps (φ : Type) where
  currentSalt : ℤ → ℕ → String → String
  previousSalt : ℤ → ℕ → String → String
  visitorHash : String → String → String → VisitorHash
  bloom : BloomFilter φ
  geoIP : String → GeoInfo := fun _ => {}
  parseUA : String → UAInfo := fun _ => {}
  isBot : String → String → Bool := fun _ _ => false
  classify : String → String → String → String → ChannelResult := fun _ _ _ _ => {}
  goals : Option (ℕ → String → Option ℕ) := none
  uint64 : ℚ → ℕ := fun _ => 0
  toLower : String → String := id

/-- The clock as `CurrentSalt`, `PreviousSalt` and `Burst.Allow` read it in turn. -/
structure Clock where
  current : ℤ := 0
  previous : ℤ := 0
  burst : ℤ := 0

structure State (φ : Type) where
  bits : φ
  burst : Option BurstGuard := none
  deriving DecidableEq

/-- The drop counters that the pipeline bumps itself. -/
inductive PipelineDrop where
  | burstDropped | botDropped
  deriving DecidableEq

/-- What stands behind the first occurrence of `pat`. -/
def afterFirst (pat : List Char) : List Char → Option (List Char)
  | [] => if pat = [] then some [] else none
  | c :: cs => if pat.isPrefixOf (c :: cs) then some ((c :: cs).drop pat.length)
    else afterFirst pat cs

def trimLeft (pat cs : List Char) : List Char :=
  if pat.isPrefixOf cs then cs.drop pat.length else cs

/-- What stands before and behind the last `c`. -/
def cutLast (c : Char) (cs : List Char) : Option (List Char × List Char) :=
  if cs.contains c then
    some (((cs.reverse.dropWhile (· ≠ c)).drop 1).reverse, (cs.reverse.takeWhile (· ≠ c)).reverse)
  else none

def extractHostLower (toLower : String → String) (s : String) : String :=
  let s := (afterFirst "://".toList s.toList).getD (trimLeft "//".toList s.toList)
  let s := s.takeWhile (fun c => c ≠ '/' && c ≠ '?' && c ≠ '#')
  let s := ((cutLast '@' s).map Prod.snd).getD s
  if s.contains ']' then
    let inner := s.takeWhile (· ≠ ']')
    if inner.contains '[' then toLower (String.ofList ((inner.dropWhile (· ≠ '[')).drop 1))
    else toLower (String.ofList s)
  else toLower (String.ofList (((cutLast ':' s).map Prod.fst).getD s))

def mergeHitProps (raw : RawEvent) : Props :=
  if raw.hitProps.length > 0 then raw.hitProps else raw.props

def flattenProps (props : Props) : List String × List String :=
  (props.map Prod.fst, props.map Prod.snd)

def boolU8 (b : Bool) : ℕ := if b then 1 else 0

def applyGoalMatch (goals : ℕ → String → Option ℕ) (ev : EnrichedEvent) : EnrichedEvent :=
  match goals ev.siteID ev.eventName with
  | none => ev
  | some val => { ev with isGoal := 1, eventValue := if val > 0 then val else ev.eventValue }

def Deps.hashToday (d : Deps φ) (clock : Clock) (raw : RawEvent) : VisitorHash :=
  d.visitorHash raw.ip raw.userAgent (d.currentSalt clock.current raw.siteID raw.tz)

def Deps.hashPrev (d : Deps φ) (clock : Clock) (raw : RawEvent) : VisitorHash :=
  d.visitorHash raw.ip raw.userAgent (d.previousSalt clock.previous raw.siteID raw.tz)

def Deps.isBotEvent (d : Deps φ) (raw : RawEvent) : Bool :=
  d.isBot raw.userAgent raw.ip || (d.parseUA raw.userAgent).isBot

/-- The row as the first six stages build it. -/
def Deps.newRow (d : Deps φ) (visitorHash : VisitorHash) (isNew : Bool) (raw : RawEvent) :
    EnrichedEvent :=
  let geo := d.geoIP raw.ip
  let ua := d.parseUA raw.userAgent
  let channel := d.classify raw.referrer raw.utmSource raw.utmMedium raw.utmCampaign
  let eventType := if raw.eventType = "" then "pageview" else raw.eventType
  let hitProps := mergeHitProps raw
  { siteID := raw.siteID
    tsUTC := raw.tsUTC
    userIDHash := raw.userIDHash
    cookieID := raw.cookieID
    visitorHash := visitorHash
    hostname := raw.hostname
    pathname := raw.pathname
    title := raw.title
    referrer := extractHostLower d.toLower raw.referrer
    referrerName := channel.referrerName
    channel := channel.channel
    utmSource := raw.utmSource
    utmMedium := raw.utmMedium
    utmCampaign := raw.utmCampaign
    utmContent := raw.utmContent
    utmTerm := raw.utmTerm
    province := geo.province
    city := geo.city
    countryCode := geo.countryCode
    isp := geo.isp
    carrier := geo.carrier
    os := ua.os
    browser := ua.browser
    deviceType := ua.device
    viewportWidth := raw.viewportWidth
    eventType := eventType
    eventName := if raw.eventName = "" then eventType else raw.eventName
    eventValue := d.uint64 raw.eventValue
    isGoal := boolU8 raw.isGoal
    isNew := boolU8 isNew
    propKeys := (flattenProps hitProps).1
    propVals := (flattenProps hitProps).2
    userSegment := raw.userSegment
    isBot := boolU8 (d.isBotEvent raw)
    testRunID := raw.testRunID
    testGeneratorSeq := raw.testGeneratorSeq
    generatorNodeID := raw.generatorNodeID
    sendTSMilli := raw.sendTSMilli
    hitProps := hitProps
    sessionProps := raw.sessionProps
    userProps := raw.userProps }

/-- The row of an event that no stage drops. -/
def Deps.row (d : Deps φ) (visitorHash : VisitorHash) (isNew : Bool) (raw : RawEvent) :
    EnrichedEvent :=
  let ev := d.newRow visitorHash isNew raw
  match d.goals with
  | none => ev
  | some goals => if ev.isBot = 0 then applyGoalMatch goals ev else ev

/-- The first stage that can drop an event, with the guard afterwards. -/
def burstAllow (burst : Option BurstGuard) (hash : VisitorHash) (now : ℤ) :
    Bool × Option BurstGuard :=
  match burst with
  | none => (true, none)
  | some g => ((g.allow hash now).1, some (g.allow hash now).2)

def Deps.enrich (d : Deps φ) (clock : Clock) (p : State φ) (raw : RawEvent) :
    Except PipelineDrop EnrichedEvent × State φ :=
  let visitorHash := d.hashToday clock raw
  let allowed := burstAllow p.burst visitorHash clock.burst
  if !allowed.1 then (.error .burstDropped, { p with burst := allowed.2 })
  else
    -- the filter is marked here, before the bot stage can still drop the event
    let marked := checkAndMark d.bloom p.bits visitorHash (d.hashPrev clock raw)
    let p' : State φ := { bits := marked.2, burst := allowed.2 }
    if d.isBotEvent raw && !raw.trackBots then (.error .botDropped, p')
    else (.ok (d.row visitorHash marked.1 raw), p')

/-- The pipeline before a log: `clock i` is what the clock shows for the `i`-th event. -/
def Deps.backend (d : Deps φ) (clock : ℕ → Clock) (appendAndWait : ℕ → EnrichedEvent → Bool) :
    Backend (State φ) where
  enrich i p raw := ((d.enrich (clock i) p raw).1.toOption, (d.enrich (clock i) p raw).2)
  appendAndWait := appendAndWait

/-- The filter as the identity stage asks it. -/
def Deps.mark (d : Deps φ) (clock : Clock) (bits : φ) (raw : RawEvent) : Bool × φ :=
  checkAndMark d.bloom bits (d.hashToday clock raw) (d.hashPrev clock raw)

/-- All ways through the pipeline: only an event that the burst guard drops leaves the
filter alone. -/
theorem enrich_cases (d : Deps φ) (clock : Clock) (p : State φ) (raw : RawEvent) :
    ((d.enrich clock p raw).1 = .error .burstDropped ∧ (d.enrich clock p raw).2.bits = p.bits) ∨
    ((d.enrich clock p raw).1 = .error .botDropped ∧
      (d.isBotEvent raw = true ∧ raw.trackBots = false) ∧
      (d.enrich clock p raw).2.bits = (d.mark clock p.bits raw).2) ∨
    ((d.enrich clock p raw).1 =
        .ok (d.row (d.hashToday clock raw) (d.mark clock p.bits raw).1 raw) ∧
      (d.enrich clock p raw).2.bits = (d.mark clock p.bits raw).2) := by
  simp only [Deps.enrich]
  split
  · exact .inl ⟨rfl, rfl⟩
  · split
    · rename_i hbot
      exact .inr (.inl ⟨rfl, by simpa using hbot, rfl⟩)
    · exact .inr (.inr ⟨rfl, rfl⟩)

theorem enrich_ok {d : Deps φ} {clock : Clock} {p : State φ} {raw : RawEvent} {e : EnrichedEvent}
    (h : (d.enrich clock p raw).1 = .ok e) :
    e = d.row (d.hashToday clock raw) (d.mark clock p.bits raw).1 raw := by
  rcases enrich_cases d clock p raw with ⟨hres, -⟩ | ⟨hres, -⟩ | ⟨hres, -⟩
  · simp [hres] at h
  · simp [hres] at h
  · exact (Except.ok.inj (hres.symm.trans h)).symm

/-- Matching a goal touches the goal flag and the value only. -/
theorem row_eq (d : Deps φ) (hash : VisitorHash) (isNew : Bool) (raw : RawEvent) :
    ∃ goal value, d.row hash isNew raw =
      { d.newRow hash isNew raw with isGoal := goal, eventValue := value } := by
  unfold Deps.row
  dsimp only
  split
  · exact ⟨_, _, rfl⟩
  · split
    · unfold applyGoalMatch
      split
      · exact ⟨_, _, rfl⟩
      · exact ⟨_, _, rfl⟩
    · exact ⟨_, _, rfl⟩

/-- A filter that remembers exactly what was added. -/
def exactFilter : BloomFilter (List VisitorHash) :=
  ⟨fun bits hash => decide (hash ∈ bits), fun bits hash => hash :: bits⟩

def sampleSalt : String := "e3a822620660374951b698de19f5aa5aa488691a774815e00e33e2370698df2c"

def samplePreviousSalt : String :=
  "a2af2abbcd713706ee6ab4906b64c976deb5e071e9132880ecf46f303f39ac78"

def sampleHash : VisitorHash :=
  [213, 163, 27, 44, 135, 32, 59, 138, 7, 169, 213, 70, 129, 209, 205, 168]

def samplePreviousHash : VisitorHash :=
  [9, 27, 36, 196, 109, 1, 3, 105, 138, 12, 217, 42, 34, 106, 238, 174]

/-- The digests at the inputs that occur below. -/
def samplePipeline : Deps (List VisitorHash) where
  currentSalt _ _ _ := sampleSalt
  previousSalt _ _ _ := samplePreviousSalt
  visitorHash _ _ salt := if salt = sampleSalt then sampleHash else samplePreviousHash
  bloom := exactFilter

def sampleVisit : Request where
  header key := if key = "User-Agent" then "Mozilla/5.0 (X11)" else ""
  cookies := []
  remoteAddr := "192.0.2.1:4711"
  body := .ok [0x7B, 0x7D]

/-- One permissive site, without a suppression list. -/
def sampleConfig : Config where
  key := ⟨fun _ => [], [0x2A]⟩
  lookupSitePolicy _ hostname := if hostname = "one" then some (1, {}) else none
  newUUID _ := sampleUUID

end Statnive.EnrichPipeline
