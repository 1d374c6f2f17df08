import Mathlib.Data.String.Basic
import Statnive.IngestEvents

/-!
# The validation of one event

`ValidateAndSanitize` rejects names with characters outside their class and cuts the
free-form fields to their caps.
-/

namespace Statnive.EventSanitize

open IngestEvents

/-- The labels of the drop counter that the ingest handler uses. -/
inductive Reason where
  | payloadTooLarge | jsonInvalid | emptyBody | hostnameUnknown
  | badEventName | badEventType | tooManyProps | badPropKey
  | optedOut | eventNotAllowed | walSyncError
  deriving DecidableEq

def maxTitleLen : ℕ := 512
def maxReferrerLen : ℕ := 1024
def maxPathnameLen : ℕ := 1024
def maxHostnameLen : ℕ := 253
def maxUTMFieldLen : ℕ := 256
def maxUserSegmentLen : ℕ := 64
def maxPropsEntries : ℕ := 50
def maxPropValLen : ℕ := 256

/-- `^[class]{1,max}$` for a class of ASCII characters. -/
def matchesClass (inClass : Char → Bool) (max : ℕ) (s : String) : Bool :=
  decide (1 ≤ s.toList.length) && decide (s.toList.length ≤ max) && s.toList.all inClass

def propKeyRe (s : String) : Bool :=
  matchesClass (fun c => c.isAlphanum || c = '_' || c = '.' || c = '-') 40 s

def eventNameRe (s : String) : Bool :=
  matchesClass (fun c => c.isAlphanum || c = '_' || c = '.' || c = '-' || c = ':' || c = '/') 64 s

def isControl (c : Char) : Bool :=
  if c = '\t' then false else decide (c.toNat < 0x20) || decide (c.toNat = 0x7F)

/-- The loop of `sanitizeFree` with `used` bytes written so far. -/
def keepRunes (maxBytes : ℕ) : ℕ → List Char → List Char
  | _, [] => []
  | used, c :: cs =>
    if isControl c then keepRunes maxBytes used cs
    else if maxBytes < used + c.utf8Size then []
    else c :: keepRunes maxBytes (used + c.utf8Size) cs

def sanitizeFree (s : String) (maxBytes : ℕ) : String :=
  if len s ≤ maxBytes && !s.toList.any isControl then s
  else String.ofList (keepRunes maxBytes 0 s.toList)

def sanitize (ev : RawEvent) : RawEvent :=
  { ev with
    hostname := sanitizeFree ev.hostname maxHostnameLen
    pathname := sanitizeFree ev.pathname maxPathnameLen
    title := sanitizeFree ev.title maxTitleLen
    referrer := sanitizeFree ev.referrer maxReferrerLen
    utmSource := sanitizeFree ev.utmSource maxUTMFieldLen
    utmMedium := sanitizeFree ev.utmMedium maxUTMFieldLen
    utmCampaign := sanitizeFree ev.utmCampaign maxUTMFieldLen
    utmContent := sanitizeFree ev.utmContent maxUTMFieldLen
    utmTerm := sanitizeFree ev.utmTerm maxUTMFieldLen
    userSegment := sanitizeFree ev.userSegment maxUserSegmentLen
    props := ev.props.map (fun kv => (kv.1, sanitizeFree kv.2 maxPropValLen)) }

def validate (ev : RawEvent) : Option Reason :=
  if ev.eventName ≠ "" && !eventNameRe ev.eventName then some .badEventName
  else if ev.eventType ≠ "" && !eventNameRe ev.eventType then some .badEventType
  else if maxPropsEntries < ev.props.length then some .tooManyProps
  else if ev.props.any (fun kv => !propKeyRe kv.1) then some .badPropKey
  else none

def validateAndSanitize (ev : RawEvent) : Except Reason RawEvent :=
  match validate ev with
  | some reason => .error reason
  | none => .ok (sanitize ev)

theorem keepRunes_size (maxBytes used : ℕ) (cs : List Char) (h : used ≤ maxBytes) :
    used + String.utf8Len (keepRunes maxBytes used cs) ≤ maxBytes := by
  induction cs generalizing used with
  | nil => simpa [keepRunes] using h
  | cons c cs ih =>
    unfold keepRunes
    split
    · exact ih used h
    · split
      · simpa using h
      · have hrest := ih (used + c.utf8Size) (by omega)
        rw [String.utf8Len]
        omega

private theorem keepRunes_clean (maxBytes used : ℕ) (cs : List Char) :
    ∀ c ∈ keepRunes maxBytes used cs, isControl c = false := by
  induction cs generalizing used with
  | nil => simp [keepRunes]
  | cons c cs ih =>
    unfold keepRunes
    split
    · exact ih used
    · split
      · simp
      · intro d hd
        rcases List.mem_cons.mp hd with rfl | hd
        · simpa using ‹¬ isControl d = true›
        · exact ih _ d hd

theorem sanitizeFree_len (s : String) (maxBytes : ℕ) :
    len (sanitizeFree s maxBytes) ≤ maxBytes := by
  unfold sanitizeFree
  split
  · rename_i h
    simpa using (Bool.and_eq_true_iff.mp h).1
  · have hsize := keepRunes_size maxBytes 0 s.toList (Nat.zero_le _)
    rw [len, String.utf8ByteSize_ofList]
    omega

theorem sanitizeFree_clean (s : String) (maxBytes : ℕ) :
    ∀ c ∈ (sanitizeFree s maxBytes).toList, isControl c = false := by
  unfold sanitizeFree
  split
  · rename_i h
    simpa using (Bool.and_eq_true_iff.mp h).2
  · rw [String.toList_ofList]
    exact keepRunes_clean maxBytes 0 s.toList

end Statnive.EventSanitize
