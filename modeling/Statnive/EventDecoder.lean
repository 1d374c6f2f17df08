import Statnive.IngestHandler
import Statnive.JSONInto

/-!
# The JSON of an event

The decoder behind `parseBody`: the fields of a `RawEvent` under their names, and a refusal of
every other.
-/

namespace Statnive.EventDecoder

open PrivacyPolicy IngestEvents IngestHandler JSONText JSONInto
open SuppressionRecord (parseInt64)

section Decoder

-- `strconv.ParseFloat`
variable (parseFloat : Bytes → Option ℚ)

def intoProps : Into Props := intoMap intoString ""

def eventFields : List (StructField Payload) :=
  [structField "hostname" intoString Payload.hostname (fun e v => { e with hostname := v }),
    structField "pathname" intoString Payload.pathname (fun e v => { e with pathname := v }),
    structField "title" intoString Payload.title (fun e v => { e with title := v }),
    structField "referrer" intoString Payload.referrer (fun e v => { e with referrer := v }),
    structField "utm_source" intoString Payload.utmSource (fun e v => { e with utmSource := v }),
    structField "utm_medium" intoString Payload.utmMedium (fun e v => { e with utmMedium := v }),
    structField "utm_campaign" intoString Payload.utmCampaign
      (fun e v => { e with utmCampaign := v }),
    structField "utm_content" intoString Payload.utmContent
      (fun e v => { e with utmContent := v }),
    structField "utm_term" intoString Payload.utmTerm (fun e v => { e with utmTerm := v }),
    structField "viewport_width" (intoNumber (parseUint 16)) Payload.viewportWidth
      (fun e v => { e with viewportWidth := v }),
    structField "event_type" intoString Payload.eventType (fun e v => { e with eventType := v }),
    structField "event_name" intoString Payload.eventName (fun e v => { e with eventName := v }),
    structField "event_value" (intoNumber parseFloat) Payload.eventValue
      (fun e v => { e with eventValue := v }),
    structField "is_goal" intoBool Payload.isGoal (fun e v => { e with isGoal := v }),
    structField "user_segment" intoString Payload.userSegment
      (fun e v => { e with userSegment := v }),
    structField "props" intoProps Payload.props (fun e v => { e with props := v }),
    structField "hit_props" intoProps Payload.hitProps (fun e v => { e with hitProps := v }),
    structField "session_props" intoProps Payload.sessionProps
      (fun e v => { e with sessionProps := v }),
    structField "user_props" intoProps Payload.userProps (fun e v => { e with userProps := v }),
    structField "user_id" intoString Payload.userID (fun e v => { e with userID := v }),
    structField "test_run_id" intoString Payload.testRunID (fun e v => { e with testRunID := v }),
    structField "test_generator_seq" (intoNumber (parseUint 64)) Payload.testGeneratorSeq
      (fun e v => { e with testGeneratorSeq := v }),
    structField "generator_node_id" (intoNumber (parseUint 16)) Payload.generatorNodeID
      (fun e v => { e with generatorNodeID := v }),
    structField "send_ts_ms" (intoNumber fun ds => (parseInt64 ds).map Int64.toInt)
      Payload.sendTSMilli (fun e v => { e with sendTSMilli := v })]

def intoEvent : Into Payload := intoStrict (eventFields parseFloat)

def decoder : Decoder where
  array body := (decodeFirst (intoSlice (intoEvent parseFloat) {}) {} body).map Slice.toList
  object body := decodeFirst (intoEvent parseFloat) {} body

end Decoder

def maxBodyBytes : ℕ := 8 * 1024

/-- What `io.ReadAll` reads of a body behind `http.MaxBytesReader`. -/
def readAll (body : Bytes) : Except ReadError Bytes :=
  if maxBodyBytes < body.length then .error .tooLarge else .ok body

theorem eventNames_nodup (parseFloat : Bytes → Option ℚ) :
    ((eventFields parseFloat).map fun f => foldKey f.name).Nodup := by
  have hnames : ((eventFields parseFloat).map fun f => foldKey f.name) =
      (eventFields fun _ => none).map fun f => foldKey f.name := rfl
  rw [hnames]
  decide +kernel

end Statnive.EventDecoder
