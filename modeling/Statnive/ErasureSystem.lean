import Statnive.BootReplay
import Statnive.IngestConsumer
import Statnive.IngestHandler
import Statnive.Suppression
import Statnive.SyncerContents

/-!
# Erasure next to ingestion

The process as one system: ingest requests in their events loop, the group syncer, the
consumer with the store, the suppression list, opt-outs and erasures, crashes and the
boots that replay the log. An action is one step of one party. The store has the one
table with visitor rows, from which `ALTER TABLE ... DELETE` takes what was inserted
before it was issued.
-/

namespace Statnive.ErasureSystem

open LabelledRuns IngestEvents SegmentedLog WriteAheadLog PrivacyPolicy VisitorIdentity EventSanitize
open IngestHandler SuppressionRecord SyncerContents

structure Config where
  key : Keyed
  decoder : Decoder
  syncer : GroupSyncer.Config
  consumer : IngestConsumer.Config

/-- Where the events loop of a request is: before the gates of an event, between `Enrich`
and `AppendAndWait`, in the call `c` of it, or behind its last response. -/
inductive HandlerPhase where
  | gates | enriched (e : EnrichedEvent) | appending (c : ℕ) | returned
  deriving DecidableEq

/-- A request in its events loop: the position and the cookie id that the loop carries. -/
structure Handler where
  request : Request
  i : ℕ
  cookieID : String
  rest : List Payload
  phase : HandlerPhase

inductive ErasePhase where
  | deleting | adding | accepted | failed
  deriving DecidableEq

/-- A request to erase; `accepted` is the answer 202, `failed` any other. -/
structure Erasure where
  siteID : ℕ
  cookie : String
  phase : ErasePhase
  deriving DecidableEq

/-- How `EraseByCookieID` ends: the tables are not found, or the `Exec` of the table fails
(which is reported in the body of the 202) or is accepted. -/
inductive EraseResult where
  | discoverFailed | execFailed | deleted
  deriving DecidableEq

/-- `pendingAck` is the index of an inserted batch whose `Ack` is still to be called. -/
structure State where
  up : Bool
  handlers : List Handler
  syncer : GroupSyncer.State
  consumer : IngestConsumer.State
  pendingAck : Option ℕ
  rows : List EnrichedEvent
  suppression : Suppression.State
  erasures : List Erasure

/-- Before the first boot, with the files of `log`. -/
def init (log : Log EnrichedEvent) (rows : List EnrichedEvent)
    (suppressionWAL : JournalFile.File UInt8) : State where
  up := false
  handlers := []
  syncer := GroupSyncer.init log
  consumer := IngestConsumer.init
  pendingAck := none
  rows := rows
  suppression := { wal := suppressionWAL }
  erasures := []

inductive Action where
  | boot (env : BootReplay.BootEnv EnrichedEvent) (listOk : Bool)
  | crash (kept part listKept listHardened : ℕ)
  | request (r : Request)
  | gate (h : ℕ) (ingest : IngestHandler.Config) (result : Option EnrichedEvent)
  | append (h : ℕ)
  | resume (h : ℕ)
  | syncer (a : GroupSyncer.Action)
  | receive
  | consumer (a : IngestConsumer.Action)
  | insertBatch (ok wrote : Bool)
  | ack (fault : TruncateFault)
  | optOut (hash : Hash) (unixAt : Int64) (outcome : Suppression.Outcome)
  | closeList (synced : Bool)
  | erase (siteID : ℕ) (cookie : String)
  | eraseDelete (k : ℕ) (result : EraseResult)
  | eraseAdd (k : ℕ) (unixAt : Int64) (outcome : Suppression.Outcome)

def Erasure.hash (cfg : Config) (er : Erasure) : Hash :=
  .ofCookie cfg.key er.siteID er.cookie

/-- The row is of the site and the visitor. -/
def Erasure.Concerns (cfg : Config) (er : Erasure) (e : EnrichedEvent) : Prop :=
  e.siteID = er.siteID ∧ e.cookieID = hexCookieIDHash cfg.key er.siteID er.cookie

instance (cfg : Config) (er : Erasure) (e : EnrichedEvent) : Decidable (er.Concerns cfg e) :=
  inferInstanceAs (Decidable (_ ∧ _))

/-- Only what is on disk outlives the process, and the erasures that were accepted. -/
def crash (s : State) (kept part listKept listHardened : ℕ) : State where
  up := false
  handlers := []
  syncer := GroupSyncer.init (s.syncer.wal.log.crash kept part)
  consumer := IngestConsumer.init
  pendingAck := none
  rows := s.rows
  suppression :=
    { s.suppression with wal := s.suppression.wal.crash listKept listHardened, list := none }
  erasures := s.erasures.filter (fun er => er.phase = .accepted)

/-- The log is opened and replayed into the store, and then the suppression list is opened. -/
def boot (cfg : Config) (s : State) (env : BootReplay.BootEnv EnrichedEvent) (listOk : Bool) :
    State :=
  let r := BootReplay.boot cfg.syncer.format some env s.syncer.wal.log
  let s' := { s with
    syncer := { GroupSyncer.init s.syncer.wal.log with wal := r.wal }
    rows := s.rows ++ r.inserted }
  match r.err with
  | some _ => s'
  | none =>
    let suppression := Suppression.newSuppressionList s.suppression listOk
    { s' with up := suppression.list.isSome, suppression := suppression }

/-- The gates with the sites, policies and consent window as they are when an event
comes to them, and with the suppression list. -/
def ingestNow (cfg : Config) (ingest : IngestHandler.Config) (s : State) : IngestHandler.Config :=
  { ingest with
    key := cfg.key
    suppression := s.suppression.list.map (fun l _ hash => l.isSuppressed (utf8 hash)) }

/-- The next event of a request passes its gates and `Enrich`, which copies the site and
the cookie id of the raw event. -/
def gateNext (cfg : IngestHandler.Config) (hd : Handler) (result : Option EnrichedEvent) :
    Option Handler :=
  match hd.phase, hd.rest with
  | .gates, [] => if result = none then some { hd with phase := .returned } else none
  | .gates, ev :: rest =>
    let g := gate cfg hd.request hd.i hd.cookieID ev
    let next := { hd with i := hd.i + 1, cookieID := g.cookieID, rest := rest }
    match g.verdict, result with
    | .unknownHost, none => some { next with phase := .returned }
    | .drop _, none | .pass _, none => some next
    | .pass raw, some e =>
      if e.siteID = raw.siteID ∧ e.cookieID = raw.cookieID then
        some { next with phase := .enriched e }
      else none
    | _, _ => none
  | _, _ => none

def eraseDelete (cfg : Config) (s : State) (k : ℕ) (er : Erasure) (result : EraseResult) : State :=
  let set := fun phase => s.erasures.set k { er with phase := phase }
  if er.siteID = 0 then { s with erasures := set .failed }
  else match result with
  | .discoverFailed => { s with erasures := set .failed }
  | .execFailed => { s with erasures := set .adding }
  | .deleted =>
    { s with
      rows := s.rows.filter (fun e => ¬ er.Concerns cfg e)
      erasures := set .adding }

/-- The group syncer's own steps, and those of the calls and of `Close`. -/
def ownStep : GroupSyncer.Action → Bool
  | .call _ | .consume | .walAck _ _ => false
  | _ => true

/-- The consumer's steps other than taking an envelope and inserting. -/
def otherStep : IngestConsumer.Action → Bool
  | .recv _ | .insertBatch _ => false
  | _ => true

/-- What the parties of a running process do. -/
def partyStep (cfg : Config) (s : State) : Action → Option State
  | .boot _ _ | .crash _ _ _ _ => none
  | .request r => match parseBody cfg.decoder r.body with
    | .ok (ev :: evs) => some { s with handlers := s.handlers ++ [⟨r, 0, "", ev :: evs, .gates⟩] }
    | _ => some s
  | .gate h ingest result => do
    let hd ← s.handlers[h]?
    let hd' ← gateNext (ingestNow cfg ingest s) hd result
    some { s with handlers := s.handlers.set h hd' }
  | .append h => do
    let hd ← s.handlers[h]?
    match hd.phase with
    | .enriched e => do
      let syncer ← GroupSyncer.step cfg.syncer s.syncer (.call e)
      some { s with
        handlers := s.handlers.set h { hd with phase := .appending s.syncer.calls.length }
        syncer := syncer }
    | _ => none
  | .resume h => do
    let hd ← s.handlers[h]?
    match hd.phase with
    | .appending c => do
      let k ← s.syncer.calls[c]?
      match k.status with
      | .returned a =>
        let phase := if a.err = none then .gates else .returned
        some { s with handlers := s.handlers.set h { hd with phase := phase } }
      | _ => none
    | _ => none
  | .syncer a => do
    if ownStep a then
      let syncer ← GroupSyncer.step cfg.syncer s.syncer a
      some { s with syncer := syncer }
    else none
  | .receive => do
    let env ← s.syncer.out.head?
    if s.pendingAck = none then
      let syncer ← GroupSyncer.step cfg.syncer s.syncer .consume
      let consumer ← IngestConsumer.step cfg.consumer s.consumer (.recv env)
      some { s with syncer := syncer, consumer := consumer }
    else none
  | .consumer a => do
    if otherStep a ∧ s.pendingAck = none then
      let consumer ← IngestConsumer.step cfg.consumer s.consumer a
      some { s with consumer := consumer }
    else none
  | .insertBatch ok wrote => do
    if s.pendingAck = none then
      let consumer ← IngestConsumer.step cfg.consumer s.consumer (.insertBatch ok)
      let idx := s.consumer.lastWALIdx
      some { s with
        consumer := consumer
        rows := if ok || wrote then s.rows ++ s.consumer.batch.map WALEnvelope.ev else s.rows
        pendingAck := if ok && 0 < idx then some idx else none }
    else none
  | .ack fault => do
    let idx ← s.pendingAck
    let syncer ← GroupSyncer.step cfg.syncer s.syncer (.walAck idx fault)
    some { s with syncer := syncer, pendingAck := none }
  | .optOut hash unixAt outcome => do
    let suppression ← Suppression.step s.suppression (.add hash unixAt outcome)
    some { s with suppression := suppression }
  | .closeList synced => do
    let suppression ← Suppression.step s.suppression (.close synced)
    some { s with suppression := suppression }
  | .erase siteID cookie =>
    if cookie = "" then some s
    else some { s with erasures := s.erasures ++ [⟨siteID, cookie, .deleting⟩] }
  | .eraseDelete k result => do
    let er ← s.erasures[k]?
    if er.phase = .deleting then some (eraseDelete cfg s k er result) else none
  | .eraseAdd k unixAt outcome => do
    let er ← s.erasures[k]?
    if er.phase = .adding then
      let hash := er.hash cfg
      let suppression ← Suppression.step s.suppression (.add hash unixAt outcome)
      let phase :=
        if Suppression.addReturnsNil s.suppression hash outcome then .accepted else .failed
      some { s with
        suppression := suppression
        erasures := s.erasures.set k { er with phase := phase } }
    else none

/-- The group syncer ends the whole process. -/
def running (s : State) : Bool := s.up && s.syncer.phase ≠ .exited

def step (cfg : Config) (s : State) (a : Action) : Option State :=
  match a with
  | .boot env listOk => if s.up then none else some (boot cfg s env listOk)
  | .crash kept part listKept listHardened => some (crash s kept part listKept listHardened)
  | a => if running s then partyStep cfg s a else none

/-- What the parties of a running process can do, one constructor for each branch of
`partyStep`. -/
inductive PartyMove (cfg : Config) (s : State) : Action → State → Prop
  | begin (r : Request) (ev : Payload) (evs : List Payload)
      (hbody : parseBody cfg.decoder r.body = .ok (ev :: evs)) :
      PartyMove cfg s (.request r)
        { s with handlers := s.handlers ++ [⟨r, 0, "", ev :: evs, .gates⟩] }
  | refuse (r : Request)
      (hbody : ∀ ev evs, parseBody cfg.decoder r.body ≠ .ok (ev :: evs)) :
      PartyMove cfg s (.request r) s
  | gate (h : ℕ) (ingest : IngestHandler.Config) (result : Option EnrichedEvent)
      (hd hd' : Handler) (hhd : s.handlers[h]? = some hd)
      (hnext : gateNext (ingestNow cfg ingest s) hd result = some hd') :
      PartyMove cfg s (.gate h ingest result) { s with handlers := s.handlers.set h hd' }
  | append (h : ℕ) (hd : Handler) (e : EnrichedEvent) (syncer : GroupSyncer.State)
      (hhd : s.handlers[h]? = some hd) (hphase : hd.phase = .enriched e)
      (hcall : GroupSyncer.step cfg.syncer s.syncer (.call e) = some syncer) :
      PartyMove cfg s (.append h)
        { s with
          handlers := s.handlers.set h { hd with phase := .appending s.syncer.calls.length }
          syncer := syncer }
  | resume (h : ℕ) (hd : Handler) (c : ℕ) (k : GroupSyncer.Call) (a : GroupSyncer.WalAck)
      (hhd : s.handlers[h]? = some hd) (hphase : hd.phase = .appending c)
      (hk : s.syncer.calls[c]? = some k) (hret : k.status = .returned a) :
      PartyMove cfg s (.resume h)
        { s with
          handlers := s.handlers.set h
            { hd with phase := if a.err = none then .gates else .returned } }
  | syncer (a : GroupSyncer.Action) (syncer : GroupSyncer.State) (hown : ownStep a = true)
      (hstep : GroupSyncer.step cfg.syncer s.syncer a = some syncer) :
      PartyMove cfg s (.syncer a) { s with syncer := syncer }
  | receive (env : WALEnvelope) (syncer : GroupSyncer.State) (consumer : IngestConsumer.State)
      (hout : s.syncer.out.head? = some env) (hack : s.pendingAck = none)
      (hconsume : GroupSyncer.step cfg.syncer s.syncer .consume = some syncer)
      (hrecv : IngestConsumer.step cfg.consumer s.consumer (.recv env) = some consumer) :
      PartyMove cfg s .receive { s with syncer := syncer, consumer := consumer }
  | consumer (a : IngestConsumer.Action) (consumer : IngestConsumer.State)
      (hother : otherStep a = true) (hack : s.pendingAck = none)
      (hstep : IngestConsumer.step cfg.consumer s.consumer a = some consumer) :
      PartyMove cfg s (.consumer a) { s with consumer := consumer }
  | insertBatch (ok wrote : Bool) (consumer : IngestConsumer.State) (hack : s.pendingAck = none)
      (hins : IngestConsumer.step cfg.consumer s.consumer (.insertBatch ok) = some consumer) :
      PartyMove cfg s (.insertBatch ok wrote)
        { s with
          consumer := consumer
          rows := if ok || wrote then s.rows ++ s.consumer.batch.map WALEnvelope.ev else s.rows
          pendingAck := if ok && 0 < s.consumer.lastWALIdx then some s.consumer.lastWALIdx
            else none }
  | ack (fault : TruncateFault) (idx : ℕ) (syncer : GroupSyncer.State)
      (hack : s.pendingAck = some idx)
      (hstep : GroupSyncer.step cfg.syncer s.syncer (.walAck idx fault) = some syncer) :
      PartyMove cfg s (.ack fault) { s with syncer := syncer, pendingAck := none }
  | optOut (hash : SuppressionRecord.Hash) (unixAt : Int64) (outcome : Suppression.Outcome)
      (suppression : Suppression.State)
      (hadd : Suppression.step s.suppression (.add hash unixAt outcome) = some suppression) :
      PartyMove cfg s (.optOut hash unixAt outcome) { s with suppression := suppression }
  | closeList (synced : Bool) (suppression : Suppression.State)
      (hclose : Suppression.step s.suppression (.close synced) = some suppression) :
      PartyMove cfg s (.closeList synced) { s with suppression := suppression }
  | eraseNobody (siteID : ℕ) : PartyMove cfg s (.erase siteID "") s
  | erase (siteID : ℕ) (cookie : String) (hne : cookie ≠ "") :
      PartyMove cfg s (.erase siteID cookie)
        { s with erasures := s.erasures ++ [⟨siteID, cookie, .deleting⟩] }
  | eraseDelete (k : ℕ) (result : EraseResult) (er : Erasure) (her : s.erasures[k]? = some er)
      (hphase : er.phase = .deleting) :
      PartyMove cfg s (.eraseDelete k result) (eraseDelete cfg s k er result)
  | eraseAdd (k : ℕ) (unixAt : Int64) (outcome : Suppression.Outcome) (er : Erasure)
      (suppression : Suppression.State) (her : s.erasures[k]? = some er)
      (hphase : er.phase = .adding)
      (hadd : Suppression.step s.suppression (.add (er.hash cfg) unixAt outcome) =
        some suppression) :
      PartyMove cfg s (.eraseAdd k unixAt outcome)
        { s with
          suppression := suppression
          erasures := s.erasures.set k { er with
            phase := if Suppression.addReturnsNil s.suppression (er.hash cfg) outcome then .accepted
              else .failed } }

private theorem partyStep_move {cfg : Config} {s t : State} {a : Action}
    (h : partyStep cfg s a = some t) : PartyMove cfg s a t := by
  cases a with
  | boot env listOk => simp [partyStep] at h
  | crash kept part listKept listHardened => simp [partyStep] at h
  | request r =>
    simp only [partyStep] at h
    split at h
    · exact Option.some.inj h ▸ .begin r _ _ ‹_›
    · rename_i hbody
      exact Option.some.inj h ▸ .refuse r (fun ev evs => hbody ev evs)
  | gate i ingest result =>
    simp only [partyStep, Option.bind_eq_bind, Option.bind_eq_some_iff, Option.some.injEq] at h
    obtain ⟨hd, hhd, hd', hnext, rfl⟩ := h
    exact .gate i ingest result hd hd' hhd hnext
  | append i =>
    simp only [partyStep, Option.bind_eq_bind, Option.bind_eq_some_iff] at h
    obtain ⟨hd, hhd, h⟩ := h
    split at h
    · obtain ⟨syncer, hcall, ht⟩ := Option.bind_eq_some_iff.mp h
      exact Option.some.inj ht ▸ .append i hd _ syncer hhd ‹_› hcall
    · simp at h
  | resume i =>
    simp only [partyStep, Option.bind_eq_bind, Option.bind_eq_some_iff] at h
    obtain ⟨hd, hhd, h⟩ := h
    split at h
    · obtain ⟨k, hk, h⟩ := Option.bind_eq_some_iff.mp h
      split at h
      · exact Option.some.inj h ▸ .resume i hd _ k _ hhd ‹_› hk ‹_›
      · simp at h
    · simp at h
  | syncer b =>
    simp only [partyStep, Option.ite_none_right_eq_some, Option.bind_eq_bind,
      Option.bind_eq_some_iff, Option.some.injEq] at h
    obtain ⟨hown, syncer, hstep, rfl⟩ := h
    exact .syncer b syncer hown hstep
  | receive =>
    simp only [partyStep, Option.bind_eq_bind, Option.bind_eq_some_iff,
      Option.ite_none_right_eq_some, Option.some.injEq] at h
    obtain ⟨env, hout, hack, syncer, hconsume, consumer, hrecv, rfl⟩ := h
    exact .receive env syncer consumer hout hack hconsume hrecv
  | consumer b =>
    simp only [partyStep, Option.ite_none_right_eq_some, Option.bind_eq_bind,
      Option.bind_eq_some_iff, Option.some.injEq] at h
    obtain ⟨⟨hother, hack⟩, consumer, hstep, rfl⟩ := h
    exact .consumer b consumer hother hack hstep
  | insertBatch ok wrote =>
    simp only [partyStep, Option.bind_eq_bind, Option.bind_eq_some_iff,
      Option.ite_none_right_eq_some, Option.some.injEq] at h
    obtain ⟨hack, consumer, hins, rfl⟩ := h
    exact .insertBatch ok wrote consumer hack hins
  | ack fault =>
    simp only [partyStep, Option.bind_eq_bind, Option.bind_eq_some_iff, Option.some.injEq] at h
    obtain ⟨idx, hack, syncer, hstep, rfl⟩ := h
    exact .ack fault idx syncer hack hstep
  | optOut hash unixAt outcome =>
    obtain ⟨suppression, hadd, ht⟩ := Option.bind_eq_some_iff.mp h
    exact Option.some.inj ht ▸ .optOut hash unixAt outcome suppression hadd
  | closeList synced =>
    obtain ⟨suppression, hclose, ht⟩ := Option.bind_eq_some_iff.mp h
    exact Option.some.inj ht ▸ .closeList synced suppression hclose
  | erase siteID cookie =>
    simp only [partyStep] at h
    split at h
    · rename_i hempty
      subst hempty
      exact Option.some.inj h ▸ .eraseNobody siteID
    · exact Option.some.inj h ▸ .erase siteID cookie ‹_›
  | eraseDelete k result =>
    simp only [partyStep, Option.bind_eq_bind, Option.bind_eq_some_iff,
      Option.ite_none_right_eq_some, Option.some.injEq] at h
    obtain ⟨er, her, hphase, rfl⟩ := h
    exact .eraseDelete k result er her hphase
  | eraseAdd k unixAt outcome =>
    simp only [partyStep, Option.bind_eq_bind, Option.bind_eq_some_iff,
      Option.ite_none_right_eq_some, Option.some.injEq] at h
    obtain ⟨er, her, hphase, suppression, hadd, rfl⟩ := h
    exact .eraseAdd k unixAt outcome er suppression her hphase hadd

/-- A process boots, crashes, or is running and one of its parties moves. -/
inductive Move (cfg : Config) (s : State) : Action → State → Prop
  | boot (env : BootReplay.BootEnv EnrichedEvent) (listOk : Bool) (hdown : s.up = false) :
      Move cfg s (.boot env listOk) (boot cfg s env listOk)
  | crash (kept part listKept listHardened : ℕ) :
      Move cfg s (.crash kept part listKept listHardened)
        (crash s kept part listKept listHardened)
  | party (a : Action) (t : State) (hup : s.up = true) (hmove : PartyMove cfg s a t) :
      Move cfg s a t

theorem step_move {cfg : Config} {s t : State} {a : Action} (h : step cfg s a = some t) :
    Move cfg s a t := by
  unfold step at h
  split at h
  · rename_i env listOk
    split at h
    · simp at h
    · exact Option.some.inj h ▸ .boot env listOk (Bool.eq_false_iff.mpr ‹_›)
  · exact Option.some.inj h ▸ .crash _ _ _ _
  · obtain ⟨hrun, h⟩ := Option.ite_none_right_eq_some.mp h
    have hup : s.up = true := by
      simp only [running, Bool.and_eq_true] at hrun
      exact hrun.1
    exact .party _ t hup (partyStep_move h)

def Handler.inFlight (hd : Handler) : List EnrichedEvent :=
  match hd.phase with
  | .enriched e => [e]
  | _ => []

/-- The events that may still reach the store: past the gates in a handler, in the group
syncer, in the channel, in the batch, or in the log. -/
def upstream (s : State) : List EnrichedEvent :=
  s.handlers.flatMap Handler.inFlight ++ held s.syncer ++ s.consumer.batch.map WALEnvelope.ev

/-- No row of an erasure that was answered 202 is in the store. -/
def Erased (cfg : Config) (s : State) : Prop :=
  ∀ er ∈ s.erasures, er.phase = .accepted → ∀ e ∈ s.rows, ¬ er.Concerns cfg e

end Statnive.ErasureSystem
