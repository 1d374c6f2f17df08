import Statnive.EventDecoder
import Statnive.ScriptJSON
import Statnive.SearchParams

/-!
# The tracker's events on the wire

What `fire` writes of a page and of the arguments of a call, and what the handler reads of it. A
body that fits is accepted exactly if the name is a text, the value a number and all properties
are texts; it then says what the page said, with U+FFFD for lone surrogates.
-/

namespace Statnive.TrackerWire

open PrivacyPolicy IngestEvents IngestHandler JSONText JSONInto EventDecoder ScriptJSON
open UnicodeText hiding Bytes
open SearchParams
open VisitorIdentity (utf8)

/-- The finite numbers of the script. -/
structure Doubles (F : Type) where
  zero : F
  value : F → ℚ
  format : F → Bytes
  value_zero : value zero = 0
  literal : Formats format

/-- An argument of a call; `noJSON` is a function or a symbol. -/
inductive Arg (F : Type) where
  | undefined
  | noJSON
  | json (v : Value F)

/-- What `fire` reads of the page: `q` is of its search string. -/
structure Page where
  hostname : CodeUnits
  pathname : CodeUnits
  title : CodeUnits
  referrer : CodeUnits
  q : URLSearchParams

variable {F : Type}

section Script

variable (d : Doubles F)

def truthy : Value F → Bool
  | .null => false
  | .bool b => b
  | .number (.finite x) => d.value x ≠ 0
  | .number (.infinity _) => true
  | .number .nan => false
  | .string us => us ≠ []
  | .array _ => true
  | .object _ => true

/-- `a || v`. -/
def Arg.or (a : Arg F) (v : Value F) : Arg F :=
  match a with
  | .undefined => .json v
  | .noJSON => .noJSON
  | .json w => if truthy d w then .json w else .json v

/-- JSON has no member for what has no JSON. -/
def Arg.value? : Arg F → Option (Value F)
  | .json v => some v
  | _ => none

def units (us : CodeUnits) : Arg F := .json (.string us)

def pv : CodeUnits := toCodeUnits "pageview"

def Arg.isPageview : Arg F → Bool
  | .json (.string us) => us = pv
  | _ => false

def utm (page : Page) (name : String) : Arg F := units ((page.q.get name).getD [])

/-- The properties of the session and of the user are sent while `stored` has them. -/
def fireMembers (page : Page) (userId : CodeUnits) (stored : Option (Value F × Value F))
    (name hitProps value : Arg F) : List (String × Arg F) :=
  [("hostname", units page.hostname),
    ("pathname", units page.pathname),
    ("title", units page.title),
    ("referrer", units page.referrer),
    ("utm_source", utm page "utm_source"),
    ("utm_medium", utm page "utm_medium"),
    ("utm_campaign", utm page "utm_campaign"),
    ("utm_content", utm page "utm_content"),
    ("utm_term", utm page "utm_term"),
    ("event_type", units (if name.isPageview then pv else toCodeUnits "custom")),
    ("event_name", name),
    ("event_value", value.or d (.number (.finite d.zero))),
    ("user_id", units userId),
    ("hit_props", hitProps.or d (.object [])),
    ("session_props", .json ((stored.map Prod.fst).getD (.object []))),
    ("user_props", .json ((stored.map Prod.snd).getD (.object [])))]

def members (ms : List (String × Arg F)) : List (CodeUnits × Value F) :=
  ms.filterMap fun m => m.2.value?.map fun v => (toCodeUnits m.1, v)

/-- The body that `fire` sends. -/
def fireBody (page : Page) (userId : CodeUnits) (stored : Option (Value F × Value F))
    (name hitProps value : Arg F) : Bytes :=
  stringify d.format (.object (members (fireMembers d page userId stored name hitProps value)))

end Script

/-- JSON has `null` for a number that is not finite, and `null` leaves a field as it is. -/
def textOfArg : Arg F → Option String
  | .json (.string us) => some (fromUnits us)
  | .json (.bool _) | .json (.number (.finite _)) | .json (.array _) | .json (.object _) => none
  | _ => some ""

def numberOfArg (d : Doubles F) : Arg F → Option ℚ
  | .json (.number (.finite x)) => some (d.value x)
  | .json (.bool _) | .json (.string _) | .json (.array _) | .json (.object _) => none
  | _ => some 0

/-- Names that read alike are one name, with the last of their values. -/
def entries (ms : List (CodeUnits × Value F)) : Option Props :=
  ms.foldlM (fun ps m => (textOfArg (.json m.2)).map fun v => setEntry (fromUnits m.1) v ps) []

def propsOfArg : Arg F → Option Props
  | .json (.object ms) => entries ms
  | .json (.bool _) | .json (.number (.finite _)) | .json (.string _) | .json (.array _) => none
  | _ => some []

/-- The event that a call means, if the server can take it. -/
def meant (d : Doubles F) (page : Page) (userId : CodeUnits) (stored : Option (Value F × Value F))
    (name hitProps value : Arg F) : Option Payload := do
  let eventName ← textOfArg name
  let eventValue ← numberOfArg d (value.or d (.number (.finite d.zero)))
  let hit ← propsOfArg (hitProps.or d (.object []))
  let session ← propsOfArg (.json ((stored.map Prod.fst).getD (.object [])))
  let user ← propsOfArg (.json ((stored.map Prod.snd).getD (.object [])))
  let param := fun key => fromUnits ((page.q.get key).getD [])
  some {
    hostname := fromUnits page.hostname
    pathname := fromUnits page.pathname
    title := fromUnits page.title
    referrer := fromUnits page.referrer
    utmSource := param "utm_source"
    utmMedium := param "utm_medium"
    utmCampaign := param "utm_campaign"
    utmContent := param "utm_content"
    utmTerm := param "utm_term"
    eventType := if name.isPageview then "pageview" else "custom"
    eventName := eventName
    eventValue := eventValue
    userID := fromUnits userId
    hitProps := hit
    sessionProps := session
    userProps := user }

section Fields

variable {d : Doubles F} {parseFloat : Bytes → Option ℚ}

/-- A member as the decoder takes it, or no member. -/
def setArg (d : Doubles F) (parseFloat : Bytes → Option ℚ) (e : Payload) (m : String × Arg F) :
    Option Payload :=
  match m.2.value? with
  | some v => setMemberStrict (eventFields parseFloat) e (utf8 m.1, toJSON d.format v)
  | none => some e

private theorem textOf_toCodeUnits (s : String) : textOf (toCodeUnits s) = utf8 s := by
  rw [textOf, fromUnits_toCodeUnits]

private theorem foldlM_members (ms : List (String × Arg F)) (e : Payload) :
    (toJSONMembers d.format (members ms)).foldlM (setMemberStrict (eventFields parseFloat)) e =
      ms.foldlM (setArg d parseFloat) e := by
  induction ms generalizing e with
  | nil => rfl
  | cons m ms ih =>
    obtain ⟨name, a⟩ := m
    cases a with
    | undefined | noJSON =>
      rw [List.foldlM_cons]
      exact ih e
    | json v =>
      have hcons : members ((name, Arg.json v) :: ms) = (toCodeUnits name, v) :: members ms := rfl
      rw [hcons, toJSONMembers, textOf_toCodeUnits, List.foldlM_cons, List.foldlM_cons]
      exact congrArg _ (funext ih)

/-- A field that reads each value of an argument as `read` does, and is at its zero. -/
theorem setArg_field {α : Type} {name : String} {into : Into α} {get : Payload → α}
    {set : Payload → α → Payload}
    (hf : structField name into get set ∈ eventFields parseFloat) {e : Payload} {a : Arg F}
    {read : Arg F → Option α} (hread : ∀ v, into (get e) (toJSON d.format v) = read (.json v))
    (hnone : read .undefined = some (get e) ∧ read .noJSON = some (get e))
    (hset : set e (get e) = e) : setArg d parseFloat e (name, a) = (read a).map (set e) := by
  cases a with
  | undefined => rw [hnone.1, Option.map_some, hset]; rfl
  | noJSON => rw [hnone.2, Option.map_some, hset]; rfl
  | json v =>
    rw [← hread]
    exact setMemberStrict_field hf (eventNames_nodup parseFloat) e _

theorem intoString_toJSON (v : Value F) :
    intoString "" (toJSON d.format v) = textOfArg (.json v) := by
  cases v with
  | string us => rw [toJSON, intoString, intoText, textOf, text_utf8]; rfl
  | number x => cases x <;> rfl
  | _ => rfl

private theorem intoNumber_toJSON (hparse : ∀ x, parseFloat (d.format x) = some (d.value x))
    (v : Value F) : intoNumber parseFloat 0 (toJSON d.format v) = numberOfArg d (.json v) := by
  cases v with
  | number x =>
    cases x with
    | finite x => exact hparse x
    | _ => rfl
  | _ => rfl

private theorem setEntries_toJSON (ms : List (CodeUnits × Value F)) (ps : Props) :
    (toJSONMembers d.format ms).foldlM (setEntries intoString "") ps =
      ms.foldlM (fun ps m => (textOfArg (.json m.2)).map fun v => setEntry (fromUnits m.1) v ps)
        ps := by
  induction ms generalizing ps with
  | nil => rfl
  | cons m ms ih =>
    obtain ⟨name, v⟩ := m
    have hone : setEntries intoString "" ps (textOf name, toJSON d.format v) =
        (textOfArg (.json v)).map fun v => setEntry (fromUnits name) v ps := by
      rw [setEntries, intoString_toJSON, textOf, text_utf8]
    rw [toJSONMembers, List.foldlM_cons, List.foldlM_cons, hone]
    exact congrArg _ (funext ih)

theorem intoProps_toJSON (v : Value F) :
    intoProps [] (toJSON d.format v) = propsOfArg (.json v) := by
  cases v with
  | object ms => exact setEntries_toJSON ms []
  | number x => cases x <;> rfl
  | _ => rfl

theorem foldlM_units (i : ℕ) {name : String} {get : Payload → String}
    {set : Payload → String → Payload}
    (hf : (eventFields parseFloat)[i]? = some (structField name intoString get set))
    (e : Payload) (us : CodeUnits) (ms : List (String × Arg F)) :
    ((name, units us) :: ms).foldlM (setArg d parseFloat) e =
      ms.foldlM (setArg d parseFloat) (set e (fromUnits us)) := by
  have hmember : setArg d parseFloat e (name, units us) = some (set e (fromUnits us)) := by
    have hfield := setMemberStrict_field (List.mem_of_getElem? hf) (eventNames_nodup parseFloat) e
      (.string (textOf us))
    have htext : text (textOf us) = fromUnits us := text_utf8 _
    refine hfield.trans ?_
    rw [← htext]
    rfl
  rw [List.foldlM_cons, hmember]
  rfl

theorem foldlM_field (i : ℕ) {α : Type} {name : String} {into : Into α} {get : Payload → α}
    {set : Payload → α → Payload}
    (hf : (eventFields parseFloat)[i]? = some (structField name into get set)) {e : Payload}
    {a : Arg F} {read : Arg F → Option α}
    (hread : ∀ v, into (get e) (toJSON d.format v) = read (.json v))
    (hnone : read .undefined = some (get e) ∧ read .noJSON = some (get e))
    (hset : set e (get e) = e) (ms : List (String × Arg F)) :
    ((name, a) :: ms).foldlM (setArg d parseFloat) e =
      (read a).bind fun v => ms.foldlM (setArg d parseFloat) (set e v) := by
  rw [List.foldlM_cons, setArg_field (List.mem_of_getElem? hf) hread hnone hset]
  exact Option.bind_map

/-- The members that are sent make the event that is meant. -/
theorem foldlM_fireMembers (hparse : ∀ x, parseFloat (d.format x) = some (d.value x))
    (page : Page) (userId : CodeUnits) (stored : Option (Value F × Value F))
    (name hitProps value : Arg F) :
    (fireMembers d page userId stored name hitProps value).foldlM (setArg d parseFloat) {} =
      meant d page userId stored name hitProps value := by
  have htype : fromUnits (if name.isPageview then pv else toCodeUnits "custom") =
      if name.isPageview then "pageview" else "custom" := by
    split <;> exact fromUnits_toCodeUnits _
  rw [fireMembers, utm, utm, utm, utm, utm, foldlM_units 0 rfl, foldlM_units 1 rfl,
    foldlM_units 2 rfl, foldlM_units 3 rfl, foldlM_units 4 rfl, foldlM_units 5 rfl,
    foldlM_units 6 rfl, foldlM_units 7 rfl, foldlM_units 8 rfl, foldlM_units 10 rfl,
    foldlM_field 11 rfl intoString_toJSON ⟨rfl, rfl⟩ rfl]
  simp only [htype]
  refine congrArg (textOfArg name).bind (funext fun eventName => ?_)
  rw [foldlM_field 12 rfl (intoNumber_toJSON hparse) ⟨rfl, rfl⟩ rfl]
  refine congrArg (numberOfArg d _).bind (funext fun eventValue => ?_)
  rw [foldlM_units 19 rfl, foldlM_field 16 rfl intoProps_toJSON ⟨rfl, rfl⟩ rfl]
  refine congrArg (propsOfArg _).bind (funext fun hit => ?_)
  rw [foldlM_field 17 rfl intoProps_toJSON ⟨rfl, rfl⟩ rfl]
  refine congrArg (propsOfArg _).bind (funext fun session => ?_)
  rw [foldlM_field 18 rfl intoProps_toJSON ⟨rfl, rfl⟩ rfl]
  refine congrArg (propsOfArg _).bind (funext fun user => ?_)
  rfl

/-- A body that is read at all is decoded as its members are. -/
theorem object_fireBody (hparse : ∀ x, parseFloat (d.format x) = some (d.value x))
    (page : Page) (userId : CodeUnits) (stored : Option (Value F × Value F))
    (name hitProps value : Arg F)
    (hlen : (fireBody d page userId stored name hitProps value).length ≤ maxBodyBytes) :
    (decoder parseFloat).object (fireBody d page userId stored name hitProps value) =
      meant d page userId stored name hitProps value := by
  obtain ⟨ms, hms⟩ :
      ∃ ms, ms = members (fireMembers d page userId stored name hitProps value) := ⟨_, rfl⟩
  have hbody : fireBody d page userId stored name hitProps value =
      objectText (stringifyMembers d.format ms) := by rw [hms]; rfl
  have hnest := nestingMembers_le d.format ms
  rw [hbody, length_objectText, maxBodyBytes] at hlen
  have hread := readValue_objectText (memberReads_members d.literal ms)
    (2 * (objectText (stringifyMembers d.format ms)).length + 1) 0 (by omega)
    (by rw [SuppressionRecord.maxNestingDepth]; omega) []
  rw [List.append_nil] at hread
  have hdecoded : (decoder parseFloat).object (objectText (stringifyMembers d.format ms)) =
      (toJSONMembers d.format ms).foldlM (setMemberStrict (eventFields parseFloat)) {} := by
    simp only [decoder, decodeFirst, hread]
    rfl
  rw [hbody, hdecoded, hms, foldlM_members, foldlM_fireMembers hparse]

/-- For every page, every stored properties and every call of `track`: a body that is not too
large is accepted exactly if the call means an event, and then that event is read of it. -/
theorem fire_parsed (hparse : ∀ x, parseFloat (d.format x) = some (d.value x)) (page : Page)
    (userId : CodeUnits) (stored : Option (Value F × Value F)) (name hitProps value : Arg F) :
    parseBody (decoder parseFloat) (readAll (fireBody d page userId stored name hitProps value)) =
      if maxBodyBytes < (fireBody d page userId stored name hitProps value).length then
        .error .tooLarge
      else match meant d page userId stored name hitProps value with
        | some ev => .ok [ev]
        | none => .error .decode := by
  rw [readAll]
  split
  · rfl
  · rename_i hlen
    have hobject := object_fireBody hparse page userId stored name hitProps value
      (Nat.not_lt.mp hlen)
    have hopen : (fireBody d page userId stored name hitProps value).dropWhile isJSONSpace =
        fireBody d page userId stored name hitProps value := rfl
    obtain ⟨bs, hbs⟩ : ∃ bs, fireBody d page userId stored name hitProps value = 0x7B :: bs :=
      ⟨_, rfl⟩
    rw [parseBody, hopen]
    rw [hbs] at hobject ⊢
    simp only [hobject]
    cases meant d page userId stored name hitProps value <;> rfl

end Fields

/-- Whole numbers only. -/
def wholeDoubles : Doubles Int64 where
  zero := 0
  value t := t.toInt
  format t := SuppressionRecord.formatInt t.toInt
  value_zero := by decide
  literal t := denotes_formatInt t.toInt

def parseWhole (ds : Bytes) : Option ℚ := (SuppressionRecord.parseInt64 ds).map fun t => t.toInt

theorem parseWhole_format (t : Int64) :
    parseWhole (wholeDoubles.format t) = some (wholeDoubles.value t) := by
  rw [parseWhole, wholeDoubles, SuppressionRecord.parseInt64_formatInt]
  rfl

def pricing : Page where
  hostname := toCodeUnits "shop.test"
  pathname := toCodeUnits "/pricing"
  title := toCodeUnits "Plans"
  referrer := []
  q := URLSearchParams.empty

/-- `track('buy', { plan: v }, 12)`. -/
def fireBuy (v : Value Int64) : Bytes :=
  fireBody wholeDoubles pricing [] none (units (toCodeUnits "buy"))
    (.json (.object [(toCodeUnits "plan", v)])) (.json (.number (.finite 12)))

def bought : Payload where
  hostname := "shop.test"
  pathname := "/pricing"
  title := "Plans"
  eventType := "custom"
  eventName := "buy"
  eventValue := 12
  hitProps := [("plan", "pro")]

/-- A plan by its name is accepted, and one by its number is not. -/
theorem fire_parsed_buy :
    parseBody (decoder parseWhole) (readAll (fireBuy (.string (toCodeUnits "pro")))) =
        .ok [bought] ∧
      parseBody (decoder parseWhole) (readAll (fireBuy (.number (.finite 3)))) =
        .error .decode := by
  constructor
  · rw [fireBuy, fire_parsed parseWhole_format]
    decide +kernel
  · rw [fireBuy, fire_parsed parseWhole_format]
    decide +kernel

end Statnive.TrackerWire
