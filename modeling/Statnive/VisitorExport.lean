import Mathlib.Data.List.Perm.Basic
import Statnive.EnrichPipeline

/-!
# The export of a visitor

`ExportVisitorRows` answers an access request from `events_raw`, `EraseByCookieID` deletes from
it. Rows are inserted and scanned by the positions of their columns; those of the pipeline carry
their properties as `carried_row` says.
-/

namespace Statnive.VisitorExport

open IngestEvents EnrichPipeline

inductive Column where
  | siteID | time | userIDHash | cookieID | visitorHash | hostname | pathname | title
  | referrer | referrerName | channel | utmSource | utmMedium | utmCampaign | utmContent | utmTerm
  | province | city | countryCode | isp | carrier | os | browser | deviceType | viewportWidth
  | eventType | eventName | eventValue | isGoal | isNew | propKeys | propVals
  | userSegment | isBot | testRunID | testGeneratorSeq | generatorNodeID | sendTS
  | hitProps | sessionProps | userProps
  deriving DecidableEq

inductive Value where
  | nat (n : ℕ)
  | int (n : ℤ)
  | text (s : String)
  | bytes (bs : List ℕ)
  | texts (l : List String)
  | props (ps : Props)
  deriving DecidableEq

/-- The columns of the insert statement. -/
def insertColumns : List Column :=
  [.siteID, .time, .userIDHash, .cookieID, .visitorHash, .hostname, .pathname,
    .title, .referrer, .referrerName, .channel, .utmSource, .utmMedium,
    .utmCampaign, .utmContent, .utmTerm, .province, .city, .countryCode,
    .isp, .carrier, .os, .browser, .deviceType, .viewportWidth, .eventType,
    .eventName, .eventValue, .isGoal, .isNew, .propKeys, .propVals,
    .userSegment, .isBot,
    .testRunID, .testGeneratorSeq, .generatorNodeID, .sendTS,
    .hitProps, .sessionProps, .userProps]

/-- The column holds whole seconds. -/
def dateTime (t : ℤ) : ℤ := t / 1000000000

/-- What `uuid.Parse` does not read becomes the zero id. -/
def oracleUUID (parseUUID : String → Option (List ℕ)) (s : String) : List ℕ :=
  if s = "" then List.replicate 16 0 else (parseUUID s).getD (List.replicate 16 0)

section Table

variable (parseUUID : String → Option (List ℕ))

/-- The values of an insert, in the order of its columns. -/
def appendArgs (e : EnrichedEvent) : List Value :=
  [.nat e.siteID, .int (dateTime e.tsUTC), .text e.userIDHash, .text e.cookieID,
    .bytes e.visitorHash, .text e.hostname, .text e.pathname, .text e.title, .text e.referrer,
    .text e.referrerName, .text e.channel, .text e.utmSource, .text e.utmMedium,
    .text e.utmCampaign, .text e.utmContent, .text e.utmTerm, .text e.province, .text e.city,
    .text e.countryCode, .text e.isp, .text e.carrier, .text e.os, .text e.browser,
    .text e.deviceType, .nat e.viewportWidth, .text e.eventType, .text e.eventName,
    .nat e.eventValue, .nat e.isGoal, .nat e.isNew, .texts e.propKeys, .texts e.propVals,
    .text e.userSegment, .nat e.isBot, .bytes (oracleUUID parseUUID e.testRunID),
    .nat e.testGeneratorSeq, .nat e.generatorNodeID, .int e.sendTSMilli,
    .props e.hitProps, .props e.sessionProps, .props e.userProps]

/-- What the table holds of an event. -/
def stored (e : EnrichedEvent) (c : Column) : Option Value :=
  (insertColumns.zip (appendArgs parseUUID e)).lookup c

/-- An event with its hit properties as arrays too, as the pipeline writes it. -/
structure EventRow extends EnrichedEvent where
  carried : ∀ kv ∈ hitProps, kv ∈ propKeys.zip propVals

/-- `WHERE cookie_id = ? AND site_id = ?` of the export. -/
def exportWhere (cookieIDHash : String) (siteID : ℕ) (e : EnrichedEvent) : Bool :=
  stored parseUUID e .cookieID = some (.text cookieIDHash) &&
    stored parseUUID e .siteID = some (.nat siteID)

/-- The same clause of the erasure. -/
def eraseWhere (cookieIDHash : String) (siteID : ℕ) (e : EnrichedEvent) : Bool :=
  stored parseUUID e .cookieID = some (.text cookieIDHash) &&
    stored parseUUID e .siteID = some (.nat siteID)

def time (e : EnrichedEvent) : ℤ := dateTime e.tsUTC

/-- `ORDER BY time DESC LIMIT ?`: rows of one time come in any order. -/
def Answers (table : List EventRow) (cookieIDHash : String) (siteID limit : ℕ)
    (answer : List EventRow) : Prop :=
  ∃ sorted : List EventRow,
    sorted.Perm (table.filter fun e => exportWhere parseUUID cookieIDHash siteID e.toEnrichedEvent) ∧
      sorted.Pairwise (fun a b => time b.toEnrichedEvent ≤ time a.toEnrichedEvent) ∧
      answer = sorted.take limit

/-- What `EraseByCookieID` deletes, of which nothing is deleted where it refuses. -/
def erased (table : List EventRow) (cookieIDHash : String) (siteID : ℕ) : List EventRow :=
  if cookieIDHash = "" ∨ siteID = 0 then []
  else table.filter fun e => eraseWhere parseUUID cookieIDHash siteID e.toEnrichedEvent

def exportColumns : List Column :=
  [.time, .hostname, .pathname, .title,
    .referrer, .referrerName, .channel,
    .utmSource, .utmMedium, .utmCampaign, .utmContent, .utmTerm,
    .province, .city, .countryCode,
    .isp, .carrier,
    .os, .browser, .deviceType, .viewportWidth,
    .eventType, .eventName, .eventValue, .isGoal, .isNew,
    .propKeys, .propVals]

structure ExportRow where
  time : ℤ
  hostname : String
  pathname : String
  title : String
  referrer : String
  referrerName : String
  channel : String
  utmSource : String
  utmMedium : String
  utmCampaign : String
  utmContent : String
  utmTerm : String
  province : String
  city : String
  countryCode : String
  isp : String
  carrier : String
  os : String
  browser : String
  deviceType : String
  viewportWidth : ℕ
  eventType : String
  eventName : String
  eventValue : ℕ
  isGoal : ℕ
  isNew : ℕ
  propKeys : List String
  propVals : List String
  deriving DecidableEq

/-- The properties that a visitor finds in a row. -/
def ExportRow.props (r : ExportRow) : Props := r.propKeys.zip r.propVals

/-- `rows.Scan`, which fails where a value is of another type. -/
def scan : List (Option Value) → Option ExportRow
  | [some (.int time), some (.text hostname), some (.text pathname), some (.text title),
      some (.text referrer), some (.text referrerName), some (.text channel),
      some (.text utmSource), some (.text utmMedium), some (.text utmCampaign),
      some (.text utmContent), some (.text utmTerm),
      some (.text province), some (.text city), some (.text countryCode),
      some (.text isp), some (.text carrier),
      some (.text os), some (.text browser), some (.text deviceType), some (.nat viewportWidth),
      some (.text eventType), some (.text eventName), some (.nat eventValue), some (.nat isGoal),
      some (.nat isNew), some (.texts propKeys), some (.texts propVals)] =>
    some ⟨time, hostname, pathname, title, referrer, referrerName, channel, utmSource, utmMedium,
      utmCampaign, utmContent, utmTerm, province, city, countryCode, isp, carrier, os, browser,
      deviceType, viewportWidth, eventType, eventName, eventValue, isGoal, isNew, propKeys,
      propVals⟩
  | _ => none

def select (e : EnrichedEvent) : List (Option Value) := exportColumns.map (stored parseUUID e)

inductive ExportError where
  | emptyHash | emptySiteID | query | scan | rows
  deriving DecidableEq

structure ExportResult where
  siteID : ℕ
  cookieIDHash : String
  rowCount : ℕ
  truncated : Bool
  generatedAt : ℤ
  rows : List ExportRow
  deriving DecidableEq

/-- The loop over the answer: the row behind the last one is not scanned. -/
def scanRows (maxRows : ℕ) : List ExportRow → List (List (Option Value)) →
    Except ExportError (List ExportRow × Bool)
  | out, [] => .ok (out, false)
  | out, row :: rest =>
    if out.length = maxRows then .ok (out, true)
    else match scan row with
    | none => .error .scan
    | some r => scanRows maxRows (out ++ [r]) rest

/-- `answer` is none where the query fails, and `rowsErr` says that reading it did. -/
def exportVisitorRows (maxRows : ℕ) (now : ℤ) (siteID : ℕ) (cookieIDHash : String)
    (answer : Option (List EventRow)) (rowsErr : Bool) : Except ExportError ExportResult :=
  if cookieIDHash = "" then .error .emptyHash
  else if siteID = 0 then .error .emptySiteID
  else match answer with
  | none => .error .query
  | some answer =>
    match scanRows maxRows [] (answer.map fun e => select parseUUID e.toEnrichedEvent) with
    | .error err => .error err
    | .ok (rows, truncated) =>
      if rowsErr then .error .rows
      else .ok ⟨siteID, cookieIDHash, rows.length, truncated, now, rows⟩

/-- The row of an event in the answer. -/
def exported (e : EnrichedEvent) : ExportRow where
  time := time e
  hostname := e.hostname
  pathname := e.pathname
  title := e.title
  referrer := e.referrer
  referrerName := e.referrerName
  channel := e.channel
  utmSource := e.utmSource
  utmMedium := e.utmMedium
  utmCampaign := e.utmCampaign
  utmContent := e.utmContent
  utmTerm := e.utmTerm
  province := e.province
  city := e.city
  countryCode := e.countryCode
  isp := e.isp
  carrier := e.carrier
  os := e.os
  browser := e.browser
  deviceType := e.deviceType
  viewportWidth := e.viewportWidth
  eventType := e.eventType
  eventName := e.eventName
  eventValue := e.eventValue
  isGoal := e.isGoal
  isNew := e.isNew
  propKeys := e.propKeys
  propVals := e.propVals

/-- The properties of an event that its visitor sent, of all scopes. -/
def supplied (e : EnrichedEvent) : Props := e.hitProps ++ e.sessionProps ++ e.userProps

/-- The export is about the rows `returned`: those that would be erased, or the latest of them,
each with all that the visitor sent. -/
structure Complete (table returned : List EventRow) (maxRows : ℕ) (out : ExportResult) : Prop where
  rows : out.rows = returned.map fun e => exported e.toEnrichedEvent
  erased : ∃ rest, (returned ++ rest).Perm (erased parseUUID table out.cookieIDHash out.siteID) ∧
    (∀ a ∈ returned, ∀ b ∈ rest, time b.toEnrichedEvent ≤ time a.toEnrichedEvent) ∧
    (out.truncated = true ↔ rest ≠ []) ∧ (rest ≠ [] → returned.length = maxRows)
  props : ∀ e ∈ returned, ∀ kv ∈ supplied e.toEnrichedEvent,
    kv ∈ (exported e.toEnrichedEvent).props

end Table

variable {parseUUID : String → Option (List ℕ)}

/-- The values of the export stand where its row expects them. -/
theorem scan_select (e : EnrichedEvent) : scan (select parseUUID e) = some (exported e) := rfl

theorem exportWhere_iff {cookieIDHash : String} {siteID : ℕ} {e : EnrichedEvent} :
    exportWhere parseUUID cookieIDHash siteID e = true ↔
      e.cookieID = cookieIDHash ∧ e.siteID = siteID := by
  have hcookie : stored parseUUID e .cookieID = some (.text e.cookieID) := rfl
  have hsite : stored parseUUID e .siteID = some (.nat e.siteID) := rfl
  simp [exportWhere, hcookie, hsite]

theorem eraseWhere_eq (cookieIDHash : String) (siteID : ℕ) (e : EnrichedEvent) :
    eraseWhere parseUUID cookieIDHash siteID e = exportWhere parseUUID cookieIDHash siteID e := rfl

private theorem zip_flattenProps (ps : Props) : (flattenProps ps).1.zip (flattenProps ps).2 =
    ps := by
  induction ps with
  | nil => rfl
  | cons kv ps ih => exact congrArg (kv :: ·) ih

/-- The rows of the pipeline carry their hit properties as arrays. -/
theorem carried_row {φ : Type} (d : Deps φ) (hash : VisitorHash) (isNew : Bool) (raw : RawEvent) :
    ∀ kv ∈ (d.row hash isNew raw).hitProps,
      kv ∈ (d.row hash isNew raw).propKeys.zip (d.row hash isNew raw).propVals := by
  obtain ⟨goal, value, hrow⟩ := row_eq d hash isNew raw
  intro kv hkv
  rw [hrow] at hkv ⊢
  have hzip := zip_flattenProps (mergeHitProps raw)
  simp only [Deps.newRow] at hkv ⊢
  rwa [hzip]

private theorem scanRows_select {maxRows : ℕ} {out : List ExportRow} (answer : List EventRow)
    (hout : out.length ≤ maxRows) :
    scanRows maxRows out (answer.map fun e => select parseUUID e.toEnrichedEvent) =
      .ok (out ++ (answer.take (maxRows - out.length)).map fun e => exported e.toEnrichedEvent,
        decide (maxRows - out.length < answer.length)) := by
  induction answer generalizing out with
  | nil => simp [scanRows]
  | cons e answer ih =>
    rw [List.map_cons, scanRows]
    by_cases hfull : out.length = maxRows
    · simp [hfull]
    · have hlen : (out ++ [exported e.toEnrichedEvent]).length ≤ maxRows := by
        rw [List.length_append, List.length_singleton]
        omega
      obtain ⟨k, hk⟩ : ∃ k, maxRows - out.length = k + 1 := ⟨maxRows - out.length - 1, by omega⟩
      have hk' : maxRows - (out ++ [exported e.toEnrichedEvent]).length = k := by
        rw [List.length_append, List.length_singleton]
        omega
      rw [if_neg hfull, scan_select]
      simp only
      rw [ih hlen, hk', hk, List.take_succ_cons, List.map_cons, List.append_assoc,
        List.singleton_append, List.length_cons]
      simp

/-- What an export that is answered has been given, and what it makes of it. -/
theorem exportVisitorRows_ok {maxRows siteID : ℕ} {now : ℤ} {cookieIDHash : String}
    {answer : List EventRow} {rowsErr : Bool} {out : ExportResult}
    (h : exportVisitorRows parseUUID maxRows now siteID cookieIDHash (some answer) rowsErr =
      .ok out) :
    cookieIDHash ≠ "" ∧ siteID ≠ 0 ∧ out.cookieIDHash = cookieIDHash ∧ out.siteID = siteID ∧
      out.rows = ((answer.take maxRows).map fun e => exported e.toEnrichedEvent) ∧
      out.truncated = decide (maxRows < answer.length) := by
  have hloop : scanRows maxRows [] (answer.map fun e => select parseUUID e.toEnrichedEvent) =
      .ok ((answer.take maxRows).map fun e => exported e.toEnrichedEvent,
        decide (maxRows < answer.length)) := by
    have hempty : ([] : List ExportRow).length ≤ maxRows := Nat.zero_le maxRows
    simpa using scanRows_select answer hempty
  simp only [exportVisitorRows, hloop] at h
  split_ifs at h with hhash hsite hrows
  obtain rfl := Except.ok.inj h
  exact ⟨hhash, hsite, rfl, rfl, rfl, rfl⟩

/-- The answer is the erased rows, or the latest of them. -/
theorem answers_erased {table answer : List EventRow} {cookieIDHash : String}
    {siteID maxRows : ℕ} (hhash : cookieIDHash ≠ "") (hsite : siteID ≠ 0)
    (h : Answers parseUUID table cookieIDHash siteID (maxRows + 1) answer) :
    ∃ rest, ((answer.take maxRows) ++ rest).Perm (erased parseUUID table cookieIDHash siteID) ∧
      (∀ a ∈ answer.take maxRows, ∀ b ∈ rest,
        time b.toEnrichedEvent ≤ time a.toEnrichedEvent) ∧
      (maxRows < answer.length ↔ rest ≠ []) ∧ (rest ≠ [] → (answer.take maxRows).length = maxRows) := by
  obtain ⟨sorted, hperm, hsorted, rfl⟩ := h
  have htake : (sorted.take (maxRows + 1)).take maxRows = sorted.take maxRows := by
    rw [List.take_take, Nat.min_eq_left (Nat.le_succ maxRows)]
  have hrest : sorted.drop maxRows ≠ [] ↔ maxRows < sorted.length := by
    rw [Ne, List.drop_eq_nil_iff, Nat.not_le]
  rw [htake]
  refine ⟨sorted.drop maxRows, ?_, ?_, ?_, ?_⟩
  · rw [List.take_append_drop, erased, if_neg (by simp [hhash, hsite])]
    exact hperm
  · rw [← List.take_append_drop maxRows sorted] at hsorted
    exact (List.pairwise_append.mp hsorted).2.2
  · rw [hrest, List.length_take]
    omega
  · intro hne
    rw [List.length_take]
    have hlt := hrest.mp hne
    omega

/-- An export is complete exactly when the session and user properties of the rows that it
returns are properties of their hits too. -/
theorem complete_iff {table answer : List EventRow} {cookieIDHash : String} {siteID maxRows : ℕ}
    {now : ℤ} {rowsErr : Bool} {out : ExportResult}
    (hanswer : Answers parseUUID table cookieIDHash siteID (maxRows + 1) answer)
    (h : exportVisitorRows parseUUID maxRows now siteID cookieIDHash (some answer) rowsErr =
      .ok out) :
    Complete parseUUID table (answer.take maxRows) maxRows out ↔
      ∀ e ∈ answer.take maxRows, ∀ kv ∈ e.sessionProps ++ e.userProps,
        kv ∈ e.propKeys.zip e.propVals := by
  obtain ⟨hhash, hsite, rfl, rfl, hrows, htruncated⟩ := exportVisitorRows_ok h
  constructor
  · intro hcomplete e he kv hkv
    refine hcomplete.props e he kv ?_
    rw [supplied, List.append_assoc]
    exact List.mem_append_right _ hkv
  · intro hprops
    refine ⟨hrows, ?_, fun e he kv hkv => ?_⟩
    · obtain ⟨rest, hperm, hlatest, hmore, hfull⟩ := answers_erased hhash hsite hanswer
      exact ⟨rest, hperm, hlatest, by rw [htruncated, decide_eq_true_eq, hmore], hfull⟩
    · rw [supplied, List.append_assoc] at hkv
      rcases List.mem_append.mp hkv with hhit | hother
      · exact e.carried kv hhit
      · exact hprops e he kv hother

def pageview (session : Props) : EventRow where
  siteID := 1
  tsUTC := 1700000000000000000
  cookieID := "h:1"
  pathname := "/"
  propKeys := ["plan"]
  propVals := ["pro"]
  hitProps := [("plan", "pro")]
  sessionProps := session
  carried := by decide

def pageviewExport : ExportResult := ⟨1, "h:1", 1, false, 0, [exported (pageview []).toEnrichedEvent]⟩

theorem answers_pageview (session : Props) :
    Answers (fun _ => none) [pageview session] "h:1" 1 2 [pageview session] :=
  ⟨[pageview session], by simp [exportWhere_iff, pageview], List.pairwise_singleton _ _, rfl⟩

theorem complete_iff_pageview :
    Complete (fun _ => none) [pageview []] ([pageview []].take 1) 1 pageviewExport ↔
      ∀ e ∈ [pageview []].take 1, ∀ kv ∈ e.sessionProps ++ e.userProps,
        kv ∈ e.propKeys.zip e.propVals :=
  have hexport : exportVisitorRows (fun _ => none) 1 0 1 "h:1" (some [pageview []]) false =
      .ok pageviewExport := rfl
  complete_iff (answers_pageview []) hexport

/-- The session property of this row is not in its export. -/
theorem session_property_left_out :
    ¬ ∀ (table answer : List EventRow) (out : ExportResult),
      Answers (fun _ => none) table "h:1" 1 2 answer →
      exportVisitorRows (fun _ => none) 1 0 1 "h:1" (some answer) false = .ok out →
      Complete (fun _ => none) table (answer.take 1) 1 out := by
  intro hall
  have hcomplete := hall _ _ _ (answers_pageview [("tier", "gold")]) rfl
  have htier := hcomplete.props (pageview [("tier", "gold")]) List.mem_cons_self ("tier", "gold")
    (by decide)
  revert htier
  decide

end Statnive.VisitorExport
