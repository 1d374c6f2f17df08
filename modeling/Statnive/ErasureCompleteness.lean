import Statnive.ErasureSystem
import Statnive.HashOptOut
import Statnive.IdentityGate

/-!
# What an erasure leaves behind

An erasure takes the rows that are in the store, and the suppression list stops the events
that come to the gates after it. What is on the way from the gates to the store while the
rows are deleted, or passes the gates before the hash is listed, is inserted later.
-/

namespace Statnive.ErasureCompleteness

open LabelledRuns IngestEvents SegmentedLog WriteAheadLog PrivacyPolicy VisitorIdentity EventSanitize
open IngestHandler hiding Config
open SuppressionRecord SyncerContents ErasureSystem

/-- What passes the gates has no cookie id or one whose hash is not listed. -/
theorem not_suppressed_of_pass {cfg : IngestHandler.Config} {r : Request} {i : ℕ} {c : String}
    {ev : Payload} {raw : RawEvent} (h : (gate cfg r i c ev).verdict = .pass raw)
    {supp : ℕ → String → Bool} (hsupp : cfg.suppression = some supp) :
    raw.cookieID = "" ∨ supp i raw.cookieID = false := by
  cases hl : cfg.lookupSitePolicy i ev.hostname with
  | none => simp [gate, hl] at h
  | some sp =>
    obtain ⟨siteID, policy⟩ := sp
    cases hv : validateAndSanitize (rawEvent cfg r siteID policy ev) with
    | error reason => simp [gate, hl, hv] at h
    | ok raw₀ =>
      rw [HashOptOut.gate_verdict hl hv] at h
      have hpass := HashOptOut.identityGates_pass_iff.mp ⟨raw, h, rfl⟩
      have hlisted := (HashOptOut.isOptedOut_false_iff.mp hpass.2.2).2 supp hsupp
      rwa [← (IdentityGate.identityGates_pass h).1] at hlisted

/-- The event comes from the gates of a running process. -/
def Admitted (cfg : Config) (s : State) (a : Action) (e : EnrichedEvent) : Prop :=
  s.up = true ∧ ∃ h ingest, a = .gate h ingest (some e) ∧ ∃ r i c ev raw,
    (gate (ingestNow cfg ingest s) r i c ev).verdict = .pass raw ∧ e.cookieID = raw.cookieID

private theorem gateNext_inFlight {cfg : IngestHandler.Config} {hd hd' : Handler}
    {result : Option EnrichedEvent} (h : gateNext cfg hd result = some hd') {e : EnrichedEvent}
    (he : e ∈ hd'.inFlight) : result = some e ∧ ∃ r i c ev raw,
      (gate cfg r i c ev).verdict = .pass raw ∧ e.cookieID = raw.cookieID := by
  unfold gateNext at h
  split at h
  · split at h
    · cases h
      simp [Handler.inFlight] at he
    · simp at h
  · rename_i ev rest hphase hrest
    dsimp only at h
    split at h
    · cases h
      simp [Handler.inFlight] at he
    · cases h
      simp [Handler.inFlight, hphase] at he
    · cases h
      simp [Handler.inFlight, hphase] at he
    · rename_i raw e' hv
      split at h
      · rename_i hids
        cases h
        obtain rfl : e = e' := by simpa [Handler.inFlight] using he
        exact ⟨rfl, _, _, _, _, raw, hv, hids.2⟩
      · simp at h
    · simp at h
  · simp at h

theorem mem_upstream {s : State} {e : EnrichedEvent} :
    e ∈ upstream s ↔ (∃ hd ∈ s.handlers, e ∈ hd.inFlight) ∨ e ∈ held s.syncer ∨
      ∃ env ∈ s.consumer.batch, env.ev = e := by
  simp only [upstream, List.mem_append, List.mem_flatMap, List.mem_map, or_assoc]

/-- The events of the run that are or may become rows. -/
def Present (s : State) (e : EnrichedEvent) : Prop := e ∈ s.rows ∨ e ∈ upstream s

theorem present_handler {s : State} {hd : Handler} {e : EnrichedEvent} (h : hd ∈ s.handlers)
    (he : e ∈ hd.inFlight) : Present s e :=
  .inr (mem_upstream.mpr (.inl ⟨hd, h, he⟩))

theorem present_held {s : State} {e : EnrichedEvent} (h : e ∈ held s.syncer) : Present s e :=
  .inr (mem_upstream.mpr (.inr (.inl h)))

theorem present_batch {s : State} {env : WALEnvelope} (h : env ∈ s.consumer.batch) :
    Present s env.ev :=
  .inr (mem_upstream.mpr (.inr (.inr ⟨env, h, rfl⟩)))

/-- A step brings nothing into the system. -/
def NothingNew (s t : State) : Prop := ∀ e, Present t e → Present s e

theorem nothingNew_of {s t : State} (hrows : ∀ e ∈ t.rows, Present s e)
    (hhandlers : ∀ hd ∈ t.handlers, ∀ e ∈ hd.inFlight, Present s e)
    (hsyncer : ∀ e ∈ held t.syncer, Present s e)
    (hbatch : ∀ env ∈ t.consumer.batch, Present s env.ev) : NothingNew s t := by
  rintro e (he | he)
  · exact hrows e he
  · rcases mem_upstream.mp he with ⟨hd, hm, he⟩ | he | ⟨env, hm, rfl⟩
    · exact hhandlers hd hm e he
    · exact hsyncer e he
    · exact hbatch env hm

theorem nothingNew_same {s t : State} (hrows : ∀ e ∈ t.rows, Present s e)
    (hhandlers : t.handlers = s.handlers) (hsyncer : t.syncer = s.syncer)
    (hconsumer : t.consumer = s.consumer) : NothingNew s t := by
  refine nothingNew_of hrows (fun hd hm e he => ?_) (fun e he => ?_) (fun env hm => ?_)
  · exact present_handler (hhandlers ▸ hm) he
  · exact present_held (hsyncer ▸ he)
  · exact present_batch (hconsumer ▸ hm)

/-- A handler moves on without an event in flight. -/
theorem nothingNew_set {s : State} {h : ℕ} {hd : Handler} (hnone : hd.inFlight = []) :
    NothingNew s { s with handlers := s.handlers.set h hd } := by
  refine nothingNew_of (fun e he => .inl he) (fun hd' hm e he => ?_) (fun e he => present_held he)
    (fun env hm => present_batch hm)
  rcases List.mem_or_eq_of_mem_set hm with hm | rfl
  · exact present_handler hm he
  · simp [hnone] at he

theorem held_init (l : Log EnrichedEvent) (w : WALWriter EnrichedEvent) :
    held { GroupSyncer.init l with wal := w } = w.log.contents := by
  simp [held, waiting, staged, GroupSyncer.init, SyncerPipeline.pipe]

theorem present_log {s : State} {e : EnrichedEvent} (h : e ∈ s.syncer.wal.log.contents) :
    Present s e :=
  present_held (mem_held.mpr (.inr (.inr (.inr h))))

private theorem nothingNew_crash {s : State} (hs : s.syncer.wal.log.Untorn)
    (kept part listKept listHardened : ℕ) :
    NothingNew s (crash s kept part listKept listHardened) := by
  refine nothingNew_of (fun e he => .inl he) (by simp [crash]) (fun e he => ?_)
    (by simp [crash, IngestConsumer.init])
  have hinit := held_init (s.syncer.wal.log.crash kept part)
    (newWALWriter (s.syncer.wal.log.crash kept part))
  have hlog : e ∈ (s.syncer.wal.log.crash kept part).contents := hinit ▸ he
  exact present_log ((hs.crash kept part).2 e hlog)

private theorem nothingNew_boot (cfg : Config) {s : State} (hs : s.syncer.wal.log.Untorn)
    (env : BootReplay.BootEnv EnrichedEvent) (listOk : Bool) :
    NothingNew s (boot cfg s env listOk) := by
  obtain ⟨hinserted, -, hcontents⟩ :=
    BootReplay.boot_within cfg.syncer.format some env hs
  have hins : ∀ e ∈ (BootReplay.boot cfg.syncer.format some env s.syncer.wal.log).inserted,
      Present s e := by
    intro e he
    exact present_log (by simpa using hinserted e he)
  have hrows : ∀ e ∈ s.rows ++
      (BootReplay.boot cfg.syncer.format some env s.syncer.wal.log).inserted, Present s e := by
    intro e he
    rcases List.mem_append.mp he with he | he
    · exact .inl he
    · exact hins e he
  have hheld : ∀ e ∈ held { GroupSyncer.init s.syncer.wal.log with
      wal := (BootReplay.boot cfg.syncer.format some env s.syncer.wal.log).wal }, Present s e := by
    intro e he
    rw [held_init] at he
    exact present_log (hcontents e he)
  unfold boot
  dsimp only
  split
  all_goals
    exact nothingNew_of (s := s) hrows (fun hd hm e he => present_handler hm he) hheld
      (fun env hm => present_batch hm)

theorem nothingNew_syncer {cfg : GroupSyncer.Config} {s : State} {a : GroupSyncer.Action}
    {syncer : GroupSyncer.State} (hs : s.syncer.wal.log.Untorn)
    (h : GroupSyncer.step cfg s.syncer a = some syncer)
    (ha : ∀ e, a = .call e → Present s e) : ∀ e ∈ held syncer, Present s e := by
  intro e he
  rcases held_step h hs he with he | hcall
  · exact present_held he
  · exact ha e hcall

private theorem nothingNew_begin {s : State} {hd : Handler} (hnone : hd.inFlight = []) :
    NothingNew s { s with handlers := s.handlers ++ [hd] } := by
  refine nothingNew_of (fun e he => .inl he) (fun hd' hm e he => ?_) (fun e he => present_held he)
    (fun env hm => present_batch hm)
  rcases List.mem_append.mp hm with hm | hm
  · exact present_handler hm he
  · obtain rfl := List.mem_singleton.mp hm
    simp [hnone] at he

private theorem nothingNew_append {cfg : GroupSyncer.Config} {s : State} {h : ℕ} {hd hd' : Handler}
    {e : EnrichedEvent} {syncer : GroupSyncer.State} (hs : s.syncer.wal.log.Untorn)
    (hhd : s.handlers[h]? = some hd) (hphase : hd.phase = .enriched e) (hnone : hd'.inFlight = [])
    (hcall : GroupSyncer.step cfg s.syncer (.call e) = some syncer) :
    NothingNew s { s with handlers := s.handlers.set h hd', syncer := syncer } := by
  have hin : e ∈ hd.inFlight := by simp [Handler.inFlight, hphase]
  refine nothingNew_of (fun e he => .inl he) (fun hd' hm e' he => ?_)
    (nothingNew_syncer hs hcall ?_) (fun env hm => present_batch hm)
  · rcases List.mem_or_eq_of_mem_set hm with hm | rfl
    · exact present_handler hm he
    · simp [hnone] at he
  · rintro _ ⟨rfl⟩
    exact present_handler (List.mem_of_getElem? hhd) hin

/-- The batch takes in nothing but what the consumer received. -/
theorem nothingNew_consumer {cfg : IngestConsumer.Config} {s : State} {a : IngestConsumer.Action}
    {consumer : IngestConsumer.State} (h : IngestConsumer.step cfg s.consumer a = some consumer)
    (ha : ∀ env, a = .recv env → env ∈ s.syncer.out) :
    ∀ env ∈ consumer.batch, Present s env.ev := by
  intro env hm
  rcases IngestConsumer.mem_batch_step h hm with hm | hrecv
  · exact present_batch hm
  · exact present_held (mem_held.mpr (.inr (.inr (.inl ⟨env, ha env hrecv, rfl⟩))))

private theorem present_inserted {s : State} {ok wrote : Bool} {e : EnrichedEvent}
    (he : e ∈ if ok || wrote then s.rows ++ s.consumer.batch.map WALEnvelope.ev else s.rows) :
    Present s e := by
  split at he
  · rcases List.mem_append.mp he with he | he
    · exact .inl he
    · obtain ⟨env, henv, rfl⟩ := List.mem_map.mp he
      exact present_batch henv
  · exact .inl he

private theorem nothingNew_eraseDelete (cfg : Config) (s : State) (k : ℕ) (er : Erasure)
    (result : EraseResult) : NothingNew s (eraseDelete cfg s k er result) := by
  unfold eraseDelete
  dsimp only
  split
  · exact nothingNew_same (fun e he => .inl he) rfl rfl rfl
  · cases result with
    | discoverFailed => exact nothingNew_same (fun e he => .inl he) rfl rfl rfl
    | execFailed => exact nothingNew_same (fun e he => .inl he) rfl rfl rfl
    | deleted => exact nothingNew_same (fun e he => .inl (List.mem_of_mem_filter he)) rfl rfl rfl

/-- Past the gates there is only what was there before, or just came through them. -/
theorem present_gate {cfg : Config} {s : State} {h : ℕ} {ingest : IngestHandler.Config}
    {result : Option EnrichedEvent} {hd hd' : Handler} (hup : s.up = true)
    (hnext : gateNext (ingestNow cfg ingest s) hd result = some hd') {e : EnrichedEvent}
    (he : Present { s with handlers := s.handlers.set h hd' } e) :
    Present s e ∨ Admitted cfg s (.gate h ingest result) e := by
  rcases he with he | he
  · exact .inl (.inl he)
  · rcases mem_upstream.mp he with ⟨hd'', hm, hin⟩ | he | ⟨env, hm, rfl⟩
    · rcases List.mem_or_eq_of_mem_set hm with hm | rfl
      · exact .inl (present_handler hm hin)
      · obtain ⟨rfl, hpass⟩ := gateNext_inFlight hnext hin
        exact .inr ⟨hup, h, ingest, rfl, hpass⟩
    · exact .inl (present_held he)
    · exact .inl (present_batch hm)

private theorem nothingNew_partyMove {cfg : Config} {s t : State} {a : Action}
    (hs : s.syncer.wal.log.Untorn) (hgate : ∀ i ingest result, a ≠ .gate i ingest result)
    (h : PartyMove cfg s a t) :
    NothingNew s t := by
  cases h with
  | begin r ev evs => exact nothingNew_begin rfl
  | refuse | eraseNobody => exact fun e he => he
  | gate i ingest result => exact absurd rfl (hgate i ingest result)
  | append i hd e syncer hhd hphase hcall => exact nothingNew_append hs hhd hphase rfl hcall
  | resume i hd c k ack =>
    refine nothingNew_set ?_
    split <;> rfl
  | syncer b syncer hown hstep =>
    refine nothingNew_of (fun e he => .inl he) (fun hd hm e he => present_handler hm he)
      (nothingNew_syncer hs hstep ?_) (fun env hm => present_batch hm)
    rintro e rfl
    simp [ownStep] at hown
  | receive env syncer consumer hout _ hconsume hrecv =>
    refine nothingNew_of (fun e he => .inl he) (fun hd hm e he => present_handler hm he)
      (nothingNew_syncer hs hconsume (by simp)) (nothingNew_consumer hrecv ?_)
    rintro _ ⟨rfl⟩
    exact List.mem_of_head? hout
  | consumer b consumer hother _ hstep =>
    refine nothingNew_of (fun e he => .inl he) (fun hd hm e he => present_handler hm he)
      (fun e he => present_held he) (nothingNew_consumer hstep ?_)
    rintro env rfl
    simp [otherStep] at hother
  | insertBatch ok wrote consumer _ hins =>
    exact nothingNew_of (fun e he => present_inserted he)
      (fun hd hm e he => present_handler hm he) (fun e he => present_held he)
      (nothingNew_consumer hins (by simp))
  | ack fault idx syncer _ hstep =>
    exact nothingNew_of (fun e he => .inl he) (fun hd hm e he => present_handler hm he)
      (nothingNew_syncer hs hstep (by simp)) (fun env hm => present_batch hm)
  | optOut | closeList | erase | eraseAdd => exact nothingNew_same (fun e he => .inl he) rfl rfl rfl
  | eraseDelete k result er => exact nothingNew_eraseDelete cfg s k er result

private theorem present_partyMove {cfg : Config} {s t : State} {a : Action} (hup : s.up = true)
    (hs : s.syncer.wal.log.Untorn) (h : PartyMove cfg s a t) {e : EnrichedEvent}
    (he : Present t e) : Present s e ∨ Admitted cfg s a e := by
  by_cases hgate : ∃ i ingest result, a = .gate i ingest result
  · obtain ⟨i, ingest, result, rfl⟩ := hgate
    cases h with
    | gate _ _ _ hd hd' _ hnext => exact present_gate hup hnext he
  · have hother : ∀ i ingest result, a ≠ .gate i ingest result :=
      fun i ingest result ha => hgate ⟨i, ingest, result, ha⟩
    exact .inl (nothingNew_partyMove hs hother h e he)

/-- A step brings in the events that it lets through the gates, and no other, while no file of
the log holds part of an entry. -/
theorem present_step {cfg : Config} {s t : State} {a : Action} (h : step cfg s a = some t)
    (hs : s.syncer.wal.log.Untorn) {e : EnrichedEvent} (he : Present t e) :
    Present s e ∨ Admitted cfg s a e := by
  cases step_move h with
  | boot env listOk => exact .inl (nothingNew_boot cfg hs env listOk e he)
  | crash kept part listKept listHardened =>
    exact .inl (nothingNew_crash hs kept part listKept listHardened e he)
  | party _ _ hup hmove => exact present_partyMove hup hs hmove he

/-- No write and no crash leaves part of an entry in a file of the log. -/
def KeepsWhole : Action → Prop
  | .crash _ part _ _ => part = 0
  | .syncer a => LeavesWhole a
  | _ => True

private theorem untorn_partyMove {cfg : Config} {s t : State} {a : Action} (h : PartyMove cfg s a t)
    (hs : s.syncer.wal.log.Untorn) (ha : KeepsWhole a) : t.syncer.wal.log.Untorn := by
  have hother : ∀ {b : GroupSyncer.Action} {syncer : GroupSyncer.State},
      GroupSyncer.step cfg.syncer s.syncer b = some syncer →
      SyncerPipeline.writeEnv b = none → syncer.wal.log.Untorn := fun hstep hnone =>
    SyncerContents.untorn_step hstep hs (by simp [LeavesWhole, hnone])
  cases h with
  | append _ _ _ _ _ _ hcall => exact hother hcall rfl
  | syncer b syncer _ hstep => exact SyncerContents.untorn_step hstep hs ha
  | receive _ _ _ _ _ hconsume => exact hother hconsume rfl
  | ack _ _ _ _ hstep => exact hother hstep rfl
  | eraseDelete k result er =>
    unfold eraseDelete
    dsimp only
    split
    · exact hs
    · cases result <;> exact hs
  | _ => exact hs

theorem untorn_step {cfg : Config} {s t : State} {a : Action} (h : step cfg s a = some t)
    (hs : s.syncer.wal.log.Untorn) (ha : KeepsWhole a) : t.syncer.wal.log.Untorn := by
  cases step_move h with
  | boot env listOk =>
    obtain ⟨-, huntorn, -⟩ :=
      BootReplay.boot_within cfg.syncer.format some env hs
    unfold boot
    dsimp only
    split <;> exact huntorn
  | crash kept part listKept listHardened => exact (hs.crash kept part).1 ha
  | party _ _ _ hmove => exact untorn_partyMove hmove hs ha

/-- The rows were just deleted, or the deletion was refused. -/
def JustDeleted (cfg : Config) (s : State) (a : Action) (t : State) (er : Erasure) : Prop :=
  ∃ k er₀ result, a = .eraseDelete k result ∧ s.erasures[k]? = some er₀ ∧ er₀.siteID ≠ 0 ∧
    result ≠ .discoverFailed ∧ er = { er₀ with phase := .adding } ∧
    t = eraseDelete cfg s k er₀ result

/-- The hash was just added, and the answer is 202. -/
def JustAdded (cfg : Config) (s : State) (a : Action) (t : State) (er : Erasure) : Prop :=
  ∃ k er₀ unixAt outcome l, a = .eraseAdd k unixAt outcome ∧ s.erasures[k]? = some er₀ ∧
    er₀.phase = .adding ∧ er = { er₀ with phase := .accepted } ∧
    s.suppression.list = some l ∧
    Suppression.addReturnsNil s.suppression (er₀.hash cfg) outcome = true ∧
    t.suppression = Suppression.add s.suppression l (er₀.hash cfg) unixAt outcome

/-- What one step does to the list of the process and to the erasures. -/
structure PrivacyStep (cfg : Config) (s : State) (a : Action) (t : State) : Prop where
  opened : (s.up = true → s.suppression.list ≠ none) → t.up = true → t.suppression.list ≠ none
  kept : ∀ hash, Suppression.Kept s.suppression hash → Suppression.Kept t.suppression hash
  erasures : ∀ er ∈ t.erasures, er ∈ s.erasures ∨ er.phase = .deleting ∨ er.phase = .failed ∨
    JustDeleted cfg s a t er ∨ JustAdded cfg s a t er

/-- A step of ingestion changes nothing that privacy requests work on. -/
theorem privacyStep_of_eq {cfg : Config} {s t : State} {a : Action} (hup : t.up = s.up)
    (hsupp : t.suppression = s.suppression) (her : t.erasures = s.erasures) :
    PrivacyStep cfg s a t := by
  constructor
  · rw [hup, hsupp]
    exact id
  · rw [hsupp]
    exact fun _ => id
  · rw [her]
    exact fun er hm => .inl hm

theorem list_ne_none_of_step {s t : Suppression.State} {a : Suppression.Action}
    (ha : (∃ hash unixAt outcome, a = .add hash unixAt outcome) ∨ ∃ synced, a = .close synced)
    (h : Suppression.step s a = some t) : t.list ≠ none := by
  rcases ha with ⟨hash, unixAt, outcome, rfl⟩ | ⟨synced, rfl⟩
  · obtain ⟨l, hl, rfl⟩ := Option.map_eq_some_iff.mp h
    unfold Suppression.add
    split
    · simp [hl]
    · split
      · simp
      · cases outcome <;> simp [hl]
  · obtain ⟨l, hl, rfl⟩ := Option.map_eq_some_iff.mp h
    unfold Suppression.close
    split <;> simp [hl]

private theorem privacyStep_crash (cfg : Config) (s : State) (kept part listKept listHardened : ℕ) :
    PrivacyStep cfg s (.crash kept part listKept listHardened)
      (crash s kept part listKept listHardened) := by
  constructor
  · simp [crash]
  · exact fun hash h => Suppression.kept_crash h _ _
  · exact fun er hm => .inl (List.mem_of_mem_filter hm)

private theorem privacyStep_boot (cfg : Config) (s : State) (env : BootReplay.BootEnv EnrichedEvent)
    (listOk : Bool) (hdown : s.up = false) :
    PrivacyStep cfg s (.boot env listOk) (boot cfg s env listOk) := by
  unfold boot
  dsimp only
  split
  · constructor
    · simp [hdown]
    · exact fun _ => id
    · exact fun er hm => .inl hm
  · constructor
    · exact fun _ hup => Option.isSome_iff_ne_none.mp hup
    · exact fun hash h => Suppression.kept_new h listOk
    · exact fun er hm => .inl hm

theorem privacyStep_list {cfg : Config} {s : State} {a : Action} {b : Suppression.Action}
    {suppression : Suppression.State}
    (hb : (∃ hash unixAt outcome, b = .add hash unixAt outcome) ∨ ∃ synced, b = .close synced)
    (h : Suppression.step s.suppression b = some suppression) :
    PrivacyStep cfg s a { s with suppression := suppression } :=
  ⟨fun _ _ => list_ne_none_of_step hb h, fun _ hk => Suppression.kept_step hk h,
    fun _ hm => .inl hm⟩

private theorem privacyStep_eraseDelete {cfg : Config} {s : State} {k : ℕ} {result : EraseResult}
    {er₀ : Erasure} (her₀ : s.erasures[k]? = some er₀) :
    PrivacyStep cfg s (.eraseDelete k result) (eraseDelete cfg s k er₀ result) := by
  have hsupp : (eraseDelete cfg s k er₀ result).suppression = s.suppression := by
    unfold eraseDelete
    dsimp only
    split
    · rfl
    · cases result <;> rfl
  have hup : (eraseDelete cfg s k er₀ result).up = s.up := by
    unfold eraseDelete
    dsimp only
    split
    · rfl
    · cases result <;> rfl
  refine ⟨by rw [hsupp, hup]; exact id, by rw [hsupp]; exact fun _ => id, fun er hm => ?_⟩
  by_cases hsite : er₀.siteID = 0
  · simp only [eraseDelete, hsite, if_true] at hm
    rcases List.mem_or_eq_of_mem_set hm with hm | rfl
    · exact .inl hm
    · exact .inr (.inr (.inl rfl))
  · have hcase : (eraseDelete cfg s k er₀ result).erasures = s.erasures.set k
        { er₀ with phase := if result = .discoverFailed then .failed else .adding } := by
      simp only [eraseDelete, if_neg hsite]
      cases result <;> rfl
    rw [hcase] at hm
    rcases List.mem_or_eq_of_mem_set hm with hm | rfl
    · exact .inl hm
    · by_cases hres : result = .discoverFailed
      · exact .inr (.inr (.inl (by simp [hres])))
      · exact .inr (.inr (.inr (.inl
          ⟨k, er₀, result, rfl, her₀, hsite, hres, by simp [hres], rfl⟩)))

private theorem privacyStep_eraseAdd {cfg : Config} {s : State} {k : ℕ} {unixAt : Int64}
    {outcome : Suppression.Outcome} {er₀ : Erasure} {suppression : Suppression.State}
    (her₀ : s.erasures[k]? = some er₀) (hphase : er₀.phase = .adding)
    (hst : Suppression.step s.suppression (.add (er₀.hash cfg) unixAt outcome) =
      some suppression) :
    PrivacyStep cfg s (.eraseAdd k unixAt outcome)
      { s with
        suppression := suppression
        erasures := s.erasures.set k { er₀ with
          phase := if Suppression.addReturnsNil s.suppression (er₀.hash cfg) outcome then .accepted
            else .failed } } := by
  refine ⟨fun _ _ => list_ne_none_of_step (.inl ⟨_, _, _, rfl⟩) hst,
    fun hash hk => Suppression.kept_step hk hst, fun er hm => ?_⟩
  obtain ⟨l, hl, rfl⟩ := Option.map_eq_some_iff.mp hst
  rcases List.mem_or_eq_of_mem_set hm with hm | rfl
  · exact .inl hm
  · cases hnil : Suppression.addReturnsNil s.suppression (er₀.hash cfg) outcome with
    | false => exact .inr (.inr (.inl (by simp)))
    | true =>
      exact .inr (.inr (.inr (.inr
        ⟨k, er₀, unixAt, outcome, l, rfl, her₀, hphase, by simp, hl, hnil, rfl⟩)))

private theorem privacyStep_partyMove {cfg : Config} {s t : State} {a : Action}
    (h : PartyMove cfg s a t) : PrivacyStep cfg s a t := by
  cases h with
  | begin | refuse | gate | append | resume | syncer | receive | consumer | insertBatch | ack
  | eraseNobody => exact privacyStep_of_eq rfl rfl rfl
  | optOut hash unixAt outcome suppression hadd => exact privacyStep_list (.inl ⟨_, _, _, rfl⟩) hadd
  | closeList synced suppression hclose => exact privacyStep_list (.inr ⟨_, rfl⟩) hclose
  | erase siteID cookie =>
    refine ⟨id, fun _ => id, fun er hm => ?_⟩
    rcases List.mem_append.mp hm with hm | hm
    · exact .inl hm
    · exact .inr (.inl (by rw [List.mem_singleton.mp hm]))
  | eraseDelete k result er her => exact privacyStep_eraseDelete her
  | eraseAdd k unixAt outcome er suppression her hphase hadd =>
    exact privacyStep_eraseAdd her hphase hadd

theorem privacyStep_of_step {cfg : Config} {s t : State} {a : Action}
    (h : step cfg s a = some t) : PrivacyStep cfg s a t := by
  cases step_move h with
  | boot env listOk hdown => exact privacyStep_boot cfg s env listOk hdown
  | crash kept part listKept listHardened => exact privacyStep_crash cfg s _ _ _ _
  | party _ _ _ hmove => exact privacyStep_partyMove hmove

/-- Rows were deleted, and the hash is being added or has been. -/
def Pursued (s : State) : Prop := ∃ er ∈ s.erasures, er.phase = .adding ∨ er.phase = .accepted

instance (s : State) : Decidable (Pursued s) :=
  inferInstanceAs (Decidable (∃ er ∈ s.erasures, er.phase = .adding ∨ er.phase = .accepted))

/-- The deletion is accepted while no event of the visitor for the site is on its way and no file
of the log holds part of an entry, which no write and no crash leaves there from then on; no such
event passes the gates until the hash is added, and the hash is added at the start of a line. -/
def Undisturbed (cfg : Config) (s : State) : Action → Prop
  | .eraseDelete k result => ∀ er, s.erasures[k]? = some er → er.siteID ≠ 0 →
      result ≠ .discoverFailed → result = .deleted ∧ s.syncer.wal.log.Untorn ∧
        ∀ e ∈ upstream s, ¬ er.Concerns cfg e
  | .gate _ _ (some e) => ∀ er ∈ s.erasures, er.phase = .adding → ¬ er.Concerns cfg e
  | .eraseAdd k unixAt outcome => ∀ er, s.erasures[k]? = some er → er.phase = .adding →
      Suppression.StartsLine s.suppression (.add (er.hash cfg) unixAt outcome)
  | .crash kept part listKept listHardened =>
      Pursued s → KeepsWhole (.crash kept part listKept listHardened)
  | .syncer a => Pursued s → KeepsWhole (.syncer a)
  | _ => True

instance (cfg : Config) (s : State) : (a : Action) → Decidable (Undisturbed cfg s a)
  | .eraseDelete k result => inferInstanceAs (Decidable (∀ er ∈ s.erasures[k]?, er.siteID ≠ 0 →
      result ≠ .discoverFailed → result = .deleted ∧ s.syncer.wal.log.Untorn ∧
        ∀ e ∈ upstream s, ¬ er.Concerns cfg e))
  | .gate _ _ (some e) => inferInstanceAs
      (Decidable (∀ er ∈ s.erasures, er.phase = .adding → ¬ er.Concerns cfg e))
  | .eraseAdd k unixAt outcome => inferInstanceAs (Decidable (∀ er ∈ s.erasures[k]?,
      er.phase = .adding →
        Suppression.StartsLine s.suppression (.add (er.hash cfg) unixAt outcome)))
  | .crash _ part _ _ => inferInstanceAs (Decidable (Pursued s → part = 0))
  | .syncer a => inferInstanceAs (Decidable (Pursued s → LeavesWhole a))
  | .gate _ _ none | .boot _ _ | .request _ | .append _ | .resume _ | .receive | .consumer _
  | .insertBatch _ _ | .ack _ | .optOut _ _ _ | .closeList _ | .erase _ _ => .isTrue trivial

private theorem keepsWhole_of_undisturbed {cfg : Config} {s : State} {a : Action}
    (h : Undisturbed cfg s a) (hs : Pursued s) : KeepsWhole a := by
  cases a with
  | crash | syncer => exact h hs
  | _ => trivial

structure Inv (cfg : Config) (s : State) : Prop where
  opened : s.up = true → s.suppression.list ≠ none
  untorn : Pursued s → s.syncer.wal.log.Untorn
  gone : ∀ er ∈ s.erasures, er.phase = .adding ∨ er.phase = .accepted →
    ∀ e, Present s e → ¬ er.Concerns cfg e
  listed : ∀ er ∈ s.erasures, er.phase = .accepted →
    Suppression.Kept s.suppression (er.hash cfg).bytes

theorem inv_init (cfg : Config) (log : Log EnrichedEvent) (rows : List EnrichedEvent)
    (file : JournalFile.File UInt8) : Inv cfg (init log rows file) :=
  ⟨by simp [init], by simp [init, Pursued], by simp [init], by simp [init]⟩

/-- A listed visitor does not come through the gates. -/
theorem not_admitted {cfg : Config} {s : State} {a : Action} {e : EnrichedEvent} {er : Erasure}
    (hs : Inv cfg s) (hk : Suppression.Kept s.suppression (er.hash cfg).bytes)
    (h : Admitted cfg s a e) : ¬ er.Concerns cfg e := by
  rintro ⟨-, hcookie⟩
  obtain ⟨hup, -, ingest, -, r, i, c, ev, raw, hpass, hraw⟩ := h
  obtain ⟨l, hl⟩ := Option.ne_none_iff_exists'.mp (hs.opened hup)
  have hsupp : (ingestNow cfg ingest s).suppression =
      some (fun _ hash => l.isSuppressed (utf8 hash)) := by
    simp [ingestNow, hl]
  have hbytes : utf8 raw.cookieID = (er.hash cfg).bytes := by
    rw [← hraw, hcookie]
    rfl
  rcases not_suppressed_of_pass hpass hsupp with hempty | hfalse
  · obtain ⟨-, -, -, hne, -⟩ := hk.recorded
    apply hne
    rw [← hbytes, hempty]
    rfl
  · rw [hbytes, hk.isSuppressed hl] at hfalse
    simp at hfalse

theorem gone_of_mem {cfg : Config} {s t : State} {a : Action} (hs : Inv cfg s)
    (ha : Undisturbed cfg s a) (h : step cfg s a = some t) {er : Erasure} (hm : er ∈ s.erasures)
    (hphase : er.phase = .adding ∨ er.phase = .accepted) {e : EnrichedEvent}
    (he : Present t e) : ¬ er.Concerns cfg e := by
  rcases present_step h (hs.untorn ⟨er, hm, hphase⟩) he with he | hadm
  · exact hs.gone er hm hphase e he
  · rcases hphase with hadding | hacc
    · obtain ⟨-, hIdx, ingest, rfl, -⟩ := hadm
      exact ha er hm hadding
    · exact not_admitted hs (hs.listed er hm hacc) hadm

private theorem gone_of_justDeleted {cfg : Config} {s t : State} {a : Action}
    (ha : Undisturbed cfg s a) {er : Erasure} (hdel : JustDeleted cfg s a t er)
    {e : EnrichedEvent} (he : Present t e) : ¬ er.Concerns cfg e := by
  obtain ⟨k, er₀, result, rfl, her₀, hsite, hres, rfl, rfl⟩ := hdel
  obtain ⟨rfl, -, hclean⟩ := ha er₀ her₀ hsite hres
  rcases he with he | he
  · have hkept : e ∈ s.rows.filter (fun e => ¬ er₀.Concerns cfg e) := by
      simpa [eraseDelete, hsite] using he
    have hnot : ¬ er₀.Concerns cfg e := of_decide_eq_true (List.mem_filter.mp hkept).2
    exact hnot
  · refine hclean e ?_
    simpa [eraseDelete, hsite, upstream] using he

private theorem untorn_of_undisturbed {cfg : Config} {s t : State} {a : Action} (hs : Inv cfg s)
    (ha : Undisturbed cfg s a) (h : step cfg s a = some t) (ht : Pursued t) :
    t.syncer.wal.log.Untorn := by
  obtain ⟨er, hm, hphase⟩ := ht
  have hkeep : Pursued s → t.syncer.wal.log.Untorn := fun hp =>
    untorn_step h (hs.untorn hp) (keepsWhole_of_undisturbed ha hp)
  rcases (privacyStep_of_step h).erasures er hm with hold | hdel | hfail | hjust | hadd
  · exact hkeep ⟨er, hold, hphase⟩
  · simp [hdel] at hphase
  · simp [hfail] at hphase
  · obtain ⟨k, er₀, result, rfl, her₀, hsite, hres, -, -⟩ := hjust
    exact untorn_step h (ha er₀ her₀ hsite hres).2.1 trivial
  · obtain ⟨k, er₀, unixAt, outcome, l, -, her₀, hadding, -⟩ := hadd
    exact hkeep ⟨er₀, List.mem_of_getElem? her₀, .inl hadding⟩

theorem inv_step (cfg : Config) (s : State) (a : Action) (t : State) (hs : Inv cfg s)
    (ha : Undisturbed cfg s a) (h : step cfg s a = some t) : Inv cfg t := by
  have hp := privacyStep_of_step h
  refine ⟨hp.opened hs.opened, untorn_of_undisturbed hs ha h, fun er hm hphase e he => ?_,
    fun er hm hphase => ?_⟩
  · rcases hp.erasures er hm with hm | hdel | hfail | hjust | hadd
    · exact gone_of_mem hs ha h hm hphase he
    · simp [hdel] at hphase
    · simp [hfail] at hphase
    · exact gone_of_justDeleted ha hjust he
    · obtain ⟨k, er₀, unixAt, outcome, l, rfl, her₀, hadding, rfl, -⟩ := hadd
      exact gone_of_mem hs ha h (List.mem_of_getElem? her₀) (.inl hadding) he
  · rcases hp.erasures er hm with hm | hdel | hfail | hjust | hadd
    · exact hp.kept _ (hs.listed er hm hphase)
    · simp [hdel] at hphase
    · simp [hfail] at hphase
    · obtain ⟨k, er₀, result, -, -, -, -, rfl, -⟩ := hjust
      simp at hphase
    · obtain ⟨k, er₀, unixAt, outcome, l, rfl, her₀, hadding, rfl, hl, hnil, hsupp⟩ := hadd
      rw [hsupp]
      exact Suppression.kept_of_returnsNil hl hnil (ha er₀ her₀ hadding hnil)

/-- From any log, rows and suppression file: in a run whose erasures are undisturbed, no row
of an erasure that was answered 202 is ever in the store again. -/
theorem erased_of_undisturbed (cfg : Config) (log : Log EnrichedEvent)
    (rows : List EnrichedEvent) (file : JournalFile.File UInt8) (as : List Action) (t : State)
    (h : exec (step cfg) (init log rows file) as = some t)
    (ha : Along (step cfg) (Undisturbed cfg) (init log rows file) as) : Erased cfg t := by
  have hinv : Inv cfg t := exec_guarded (inv_step cfg) ha h (inv_init cfg log rows file)
  exact fun er hm hphase e he => hinv.gone er hm (.inr hphase) e (.inl he)

/-- The digest at the one input that occurs below. -/
def sha256AtVisitor (_ : Bytes) : Bytes :=
  [0x1D, 0xA5, 0x67, 0x18, 0x86, 0xD7, 0x18, 0x49, 0x73, 0xC8, 0xBC, 0xC3, 0x25, 0x5A, 0x5B, 0xE1,
    0x8E, 0x46, 0x1D, 0x8D, 0xC2, 0xF3, 0x7F, 0x27, 0x17, 0x7C, 0x16, 0xB9, 0x8D, 0x0A, 0xC1, 0xBC]

def liveConfig : Config where
  key := ⟨sha256AtVisitor, [0x2A]⟩
  decoder := ⟨fun _ => none, fun _ => some { hostname := "one" }⟩
  syncer := GroupSyncer.newConfig 0 0 0 false
  consumer := IngestConsumer.newConfig 0 0

/-- Site 1 is permissive. -/
def onePermissive : IngestHandler.Config where
  key := liveConfig.key
  consentRequired := false
  lookupSitePolicy _ hostname := if hostname = "one" then some (1, {}) else none
  mode := some (fun _ => false)
  newUUID _ := sampleUUID

def visit : Request := ⟨fun _ => "", [("_statnive", "v")], "192.0.2.1:4711", .ok [0x7B, 0x7D]⟩

def visitRow : EnrichedEvent where
  siteID := 1
  cookieID := "h:1da5671886d7184973c8bcc3255a5be18e461d8dc2f37f27177c16b98d0ac1bc"

/-- A visit comes as far as the consumer's batch. -/
def visitToBatch : List Action :=
  [.boot {} true, .request visit, .gate 0 onePermissive (some visitRow), .append 0,
    .syncer (.enqueue 0), .syncer .loopRecv, .syncer .loopTimer, .syncer (.append {}),
    .syncer .syncBegin, .syncer (.syncEnd true), .syncer .answer, .syncer .deliver,
    .syncer (.receive 0), .resume 0, .receive]

def eraseVisitor : List Action := [.erase 1 "v", .eraseDelete 0 .deleted, .eraseAdd 0 1 .done]

/-- The batch is inserted after the answer. -/
def eraseThenInsert : List Action :=
  visitToBatch ++ eraseVisitor ++ [.consumer .tick, .insertBatch true true, .ack .none]

/-- The row is there already, and nothing of the visitor is on its way. -/
def eraseStoredRow : List Action := .boot {} true :: eraseVisitor

def storedRow : State := init .new [visitRow] {}

def erasedState : State :=
  (exec (step liveConfig) storedRow eraseStoredRow).get (by decide +kernel)

theorem erased_of_undisturbed_storedRow : Erased liveConfig erasedState :=
  erased_of_undisturbed liveConfig .new [visitRow] {} eraseStoredRow erasedState
    (Option.some_get _).symm (by decide +kernel)

/-- The erasure was answered 202, and the row is in the store. -/
theorem erased_row_inserted :
    (exec (step liveConfig) (init .new [] {}) eraseThenInsert).map
        (fun t => (t.erasures, t.rows)) = some ([⟨1, "v", .accepted⟩], [visitRow]) ∧
      ¬ ∀ t, exec (step liveConfig) (init .new [] {}) eraseThenInsert = some t →
        Erased liveConfig t := by
  have hrun : (exec (step liveConfig) (init .new [] {}) eraseThenInsert).map
      (fun t => (t.erasures, t.rows)) = some ([⟨1, "v", .accepted⟩], [visitRow]) := by
    decide +kernel
  refine ⟨hrun, fun hall => ?_⟩
  obtain ⟨t, ht, heq⟩ := Option.map_eq_some_iff.mp hrun
  obtain ⟨herasures, hrows⟩ := Prod.mk.inj heq
  have hconcerns : (⟨1, "v", .accepted⟩ : Erasure).Concerns liveConfig visitRow := by decide +kernel
  exact hall t ht ⟨1, "v", .accepted⟩ (by simp [herasures]) rfl visitRow (by simp [hrows]) hconcerns

end Statnive.ErasureCompleteness
