import Mathlib.Data.Rat.Defs
import Mathlib.Data.List.Basic

/-!
# The event types of the ingest path

`RawEvent` is what a tracker posts together with the fields the server fills in,
`EnrichedEvent` is the row written to the store, and `WALEnvelope` pairs a row with
the index the write-ahead log gave it. A Go map is a list of its entries.
-/

namespace Statnive.IngestEvents

abbrev Props := List (String × String)

/-- The fields of a `RawEvent` that the JSON body can set. -/
structure Payload where
  hostname : String := ""
  pathname : String := ""
  title : String := ""
  referrer : String := ""
  utmSource : String := ""
  utmMedium : String := ""
  utmCampaign : String := ""
  utmContent : String := ""
  utmTerm : String := ""
  viewportWidth : ℕ := 0
  eventType : String := ""
  eventName : String := ""
  eventValue : ℚ := 0
  isGoal : Bool := false
  userSegment : String := ""
  props : Props := []
  hitProps : Props := []
  sessionProps : Props := []
  userProps : Props := []
  userID : String := ""
  testRunID : String := ""
  testGeneratorSeq : ℕ := 0
  generatorNodeID : ℕ := 0
  sendTSMilli : ℤ := 0
  deriving DecidableEq

/-- The server-side fields are never decoded from JSON, so they start at the zero value. -/
structure RawEvent extends Payload where
  tsUTC : ℤ := 0
  userIDHash : String := ""
  cookieID : String := ""
  ip : String := ""
  userAgent : String := ""
  siteID : ℕ := 0
  trackBots : Bool := false
  tz : String := ""
  deriving DecidableEq

structure EnrichedEvent where
  siteID : ℕ := 0
  tsUTC : ℤ := 0
  userIDHash : String := ""
  cookieID : String := ""
  visitorHash : List ℕ := []
  hostname : String := ""
  pathname : String := ""
  title : String := ""
  referrer : String := ""
  referrerName : String := ""
  channel : String := ""
  utmSource : String := ""
  utmMedium : String := ""
  utmCampaign : String := ""
  utmContent : String := ""
  utmTerm : String := ""
  province : String := ""
  city : String := ""
  countryCode : String := ""
  isp : String := ""
  carrier : String := ""
  os : String := ""
  browser : String := ""
  deviceType : String := ""
  viewportWidth : ℕ := 0
  eventType : String := ""
  eventName : String := ""
  eventValue : ℕ := 0
  isGoal : ℕ := 0
  isNew : ℕ := 0
  propKeys : List String := []
  propVals : List String := []
  userSegment : String := ""
  isBot : ℕ := 0
  testRunID : String := ""
  testGeneratorSeq : ℕ := 0
  generatorNodeID : ℕ := 0
  sendTSMilli : ℤ := 0
  hitProps : Props := []
  sessionProps : Props := []
  userProps : Props := []
  deriving DecidableEq

structure WALEnvelope where
  idx : ℕ
  ev : EnrichedEvent
  deriving DecidableEq

/-- `len` of a Go string. -/
abbrev len (s : String) : ℕ := s.utf8ByteSize

def approxRowBytes (e : EnrichedEvent) : ℕ :=
  256 + len e.userIDHash + len e.cookieID + len e.hostname + len e.pathname + len e.title +
    len e.referrer + len e.utmCampaign + len e.utmContent + len e.utmTerm + len e.userSegment +
    e.propKeys.foldl (fun n k => n + len k) 0 + e.propVals.foldl (fun n v => n + len v) 0

end Statnive.IngestEvents
