import Statnive.EnrichPipeline
import Statnive.HashOptOut

/-!
# Requests that are answered "not accepted"

The events loop appends one event before it looks at the next, and leaves at the first event
whose site is unknown or whose append fails. A client that gets anything but 202 sends the
same body again.
-/

namespace Statnive.RetrySafety

open IngestEvents PrivacyPolicy IngestHandler HashOptOut EnrichPipeline

variable {π : Type}

/-- How a call of `AppendAndWait` ends. It returns nil for a durable event only, but its
error says nothing about the log: the request may never have been taken, or the context is
done while the event is on its way to the disk. -/
inductive Append where
  | synced | refused | unacked
  deriving DecidableEq

def Append.landed : Append → Bool
  | .refused => false
  | _ => true

abbrev Enrich (π : Type) := ℕ → π → RawEvent → Option EnrichedEvent × π

/-- The pipeline before a log whose calls end as `outcome` says. -/
def withLog (enrich : Enrich π) (outcome : ℕ → EnrichedEvent → Append) : Backend π where
  enrich := enrich
  appendAndWait i e := decide (outcome i e = .synced)

/-- The `k`-th event of the request is in the log. -/
def Stored (outcome : ℕ → EnrichedEvent → Append) (out : List Output) (k : ℕ) : Prop :=
  ∃ siteID e ok, .appended k siteID e ok ∈ out ∧ (outcome k e).landed = true

def NotAccepted (out : List Output) : Prop :=
  ∃ status body, .respond status body ∈ out ∧ status ≠ 202

/-- A request that is answered "not accepted" left nothing in the log, and no event is in
the log twice after the same body was sent again. -/
structure RetrySafe (cfg : Config) (enrich : Enrich π) (outcome : ℕ → EnrichedEvent → Append)
    (dec : Decoder) (p : π) (r : Request) : Prop where
  nothing_stored : NotAccepted (serve cfg (withLog enrich outcome) dec p r) →
    ∀ k, ¬ Stored outcome (serve cfg (withLog enrich outcome) dec p r) k
  nothing_twice : NotAccepted (serve cfg (withLog enrich outcome) dec p r) →
    ∀ (cfg' : Config) (enrich' : Enrich π) (outcome' : ℕ → EnrichedEvent → Append) (p' : π)
      (r' : Request), r'.body = r.body → ∀ k,
        ¬ (Stored outcome (serve cfg (withLog enrich outcome) dec p r) k ∧
          Stored outcome' (serve cfg' (withLog enrich' outcome') dec p' r') k)

/-- What the gates and the pipeline make of an event. -/
inductive Fate where
  | unresolved
  | skipped
  | offered (e : EnrichedEvent)
  deriving DecidableEq

/-- The fates along the loop, as if it never left early. -/
def fates (cfg : Config) (enrich : Enrich π) (r : Request) :
    ℕ → String → π → List Payload → List Fate
  | _, _, _, [] => []
  | i, c, p, ev :: rest =>
    match (gate cfg r i c ev).verdict with
    | .unknownHost => .unresolved :: fates cfg enrich r (i + 1) (gate cfg r i c ev).cookieID p rest
    | .drop _ => .skipped :: fates cfg enrich r (i + 1) (gate cfg r i c ev).cookieID p rest
    | .pass raw =>
      ((enrich i p raw).1.elim .skipped .offered) ::
        fates cfg enrich r (i + 1) (gate cfg r i c ev).cookieID (enrich i p raw).2 rest

/-- The loop leaves at this event. -/
def stops (outcome : ℕ → EnrichedEvent → Append) (i : ℕ) : Fate → Bool
  | .unresolved => true
  | .skipped => false
  | .offered e => decide (outcome i e ≠ .synced)

/-- The loop comes to position `k`. -/
def Comes (outcome : ℕ → EnrichedEvent → Append) (i : ℕ) (fs : List Fate) (k : ℕ) : Prop :=
  ∀ m < k, ∀ f, fs[m]? = some f → stops outcome (i + m) f = false

/-- The event at which the loop leaves comes after no offered one, and is itself unresolved
or refused by the log without a trace. -/
def LeavesClean (outcome : ℕ → EnrichedEvent → Append) (i : ℕ) (fs : List Fate) : Prop :=
  ∀ k f, fs[k]? = some f → stops outcome (i + k) f = true → Comes outcome i fs k →
    (∀ m < k, ∀ e, fs[m]? ≠ some (.offered e)) ∧ ∀ e, f = .offered e → outcome (i + k) e = .refused

theorem comes_zero (outcome : ℕ → EnrichedEvent → Append) (i : ℕ) (fs : List Fate) :
    Comes outcome i fs 0 := by
  intro m hm
  omega

theorem comes_cons {outcome : ℕ → EnrichedEvent → Append} {i k : ℕ} {f : Fate} {fs : List Fate} :
    Comes outcome i (f :: fs) (k + 1) ↔ stops outcome i f = false ∧ Comes outcome (i + 1) fs k := by
  have hidx : ∀ m, i + (m + 1) = i + 1 + m := fun m => by omega
  constructor
  · intro h
    refine ⟨h 0 (by omega) f rfl, fun m hm g hg => ?_⟩
    rw [← hidx]
    exact h (m + 1) (by omega) g (by simpa using hg)
  · rintro ⟨hf, h⟩ m hm g hg
    cases m with
    | zero =>
      obtain rfl : f = g := by simpa using hg
      exact hf
    | succ m =>
      rw [hidx]
      exact h m (by omega) g (by simpa using hg)

variable {cfg : Config} {enrich : Enrich π} {outcome : ℕ → EnrichedEvent → Append} {r : Request}

/-- What one turn of the loop, with fate `f`, adds to the outputs. -/
structure Turn (outcome : ℕ → EnrichedEvent → Append) (i : ℕ) (f : Fate) (head : List Output) :
    Prop where
  appended : ∀ k siteID e ok, .appended k siteID e ok ∈ head → k = i ∧ f = .offered e
  offered : ∀ e, f = .offered e → ∃ siteID ok, .appended i siteID e ok ∈ head
  answer : NotAccepted head ↔ stops outcome i f = true

private theorem turn_of_cookie {i : ℕ} {f : Fate} {head : List Output} (h : Turn outcome i f head)
    (m : Option String) : Turn outcome i f ((m.map Output.setCookie).toList ++ head) := by
  refine ⟨fun k siteID e ok hmem => ?_, fun e he => ?_, ?_⟩
  · rcases List.mem_append.mp hmem with hm | hm
    · exact absurd hm (not_mem_setCookie (by simp) m)
    · exact h.appended k siteID e ok hm
  · obtain ⟨siteID, ok, hm⟩ := h.offered e he
    exact ⟨siteID, ok, List.mem_append_right _ hm⟩
  · rw [← h.answer]
    constructor
    · rintro ⟨status, body, hmem, hne⟩
      rcases List.mem_append.mp hmem with hm | hm
      · exact absurd hm (not_mem_setCookie (by simp) m)
      · exact ⟨status, body, hm, hne⟩
    · rintro ⟨status, body, hmem, hne⟩
      exact ⟨status, body, List.mem_append_right _ hmem, hne⟩

private theorem turn_unresolved (i : ℕ) (hostname : String) : Turn outcome i .unresolved
    [.auditHostnameUnknown hostname, .dropped .hostnameUnknown, .respond 204 ""] :=
  ⟨by simp, by simp, by simp [NotAccepted, stops]⟩

private theorem turn_dropped (i : ℕ) (reason : EventSanitize.Reason) :
    Turn outcome i .skipped [.dropped reason] :=
  ⟨by simp, by simp, by simp [NotAccepted, stops]⟩

private theorem turn_skipped (i : ℕ) (raw : RawEvent) :
    Turn outcome i .skipped [.enriched i raw none] :=
  ⟨by simp, by simp, by simp [NotAccepted, stops]⟩

private theorem turn_synced
    {i : ℕ} {e : EnrichedEvent} (h : outcome i e = .synced) (raw : RawEvent) :
    Turn outcome i (.offered e)
      [.enriched i raw (some e), .appended i raw.siteID e true, .accepted raw.siteID] :=
  ⟨by simp; grind, by simp, by simp [NotAccepted, stops, h]⟩

private theorem turn_failed
    {i : ℕ} {e : EnrichedEvent} (h : outcome i e ≠ .synced) (raw : RawEvent) :
    Turn outcome i (.offered e)
      [.enriched i raw (some e), .appended i raw.siteID e false, .dropped .walSyncError,
        .respond 503 "service unavailable"] :=
  ⟨by simp; grind, by simp, by simp [NotAccepted, stops, h]⟩

/-- One turn of the loop. -/
theorem serveEvents_cons (cfg : Config) (enrich : Enrich π)
    (outcome : ℕ → EnrichedEvent → Append) (r : Request) (i : ℕ) (c : String) (p : π)
    (ev : Payload) (rest : List Payload) :
    ∃ f c' p' head, fates cfg enrich r i c p (ev :: rest) =
        f :: fates cfg enrich r (i + 1) c' p' rest ∧ Turn outcome i f head ∧
      serveEvents cfg (withLog enrich outcome) r i c p (ev :: rest) =
        head ++ if stops outcome i f then [] else
          serveEvents cfg (withLog enrich outcome) r (i + 1) c' p' rest := by
  have hcookie := fun f head (h : Turn outcome i f head) =>
    turn_of_cookie h (gate cfg r i c ev).minted
  simp only [serveEvents, fates]
  cases (gate cfg r i c ev).verdict with
  | unknownHost =>
    exact ⟨_, _, _, _, rfl, hcookie _ _ (turn_unresolved i ev.hostname), by simp [stops]⟩
  | drop reason => exact ⟨_, _, _, _, rfl, hcookie _ _ (turn_dropped i reason), by simp [stops]⟩
  | pass raw =>
    rcases hen : enrich i p raw with ⟨res, p'⟩
    have hbe : (withLog enrich outcome).enrich i p raw = (res, p') := hen
    simp only [hen, hbe]
    cases res with
    | none => exact ⟨_, _, _, _, rfl, hcookie _ _ (turn_skipped i raw), by simp [stops]⟩
    | some e =>
      by_cases hs : outcome i e = .synced
      · exact ⟨_, _, _, _, rfl, hcookie _ _ (turn_synced hs raw), by simp [stops, withLog, hs]⟩
      · exact ⟨_, _, _, _, rfl, hcookie _ _ (turn_failed hs raw), by simp [stops, withLog, hs]⟩

theorem notAccepted_append {out out' : List Output} :
    NotAccepted (out ++ out') ↔ NotAccepted out ∨ NotAccepted out' := by
  constructor
  · rintro ⟨status, body, hmem, hne⟩
    rcases List.mem_append.mp hmem with h | h
    · exact .inl ⟨status, body, h, hne⟩
    · exact .inr ⟨status, body, h, hne⟩
  · rintro (⟨status, body, hmem, hne⟩ | ⟨status, body, hmem, hne⟩)
    · exact ⟨status, body, List.mem_append_left _ hmem, hne⟩
    · exact ⟨status, body, List.mem_append_right _ hmem, hne⟩

/-- The loop answers anything but 202 exactly when it leaves somewhere. -/
theorem notAccepted_serveEvents (i : ℕ) (c : String) (p : π) (evs : List Payload) :
    NotAccepted (serveEvents cfg (withLog enrich outcome) r i c p evs) ↔
      ∃ k f, (fates cfg enrich r i c p evs)[k]? = some f ∧ stops outcome (i + k) f = true ∧
        Comes outcome i (fates cfg enrich r i c p evs) k := by
  induction evs generalizing i c p with
  | nil => simp [serveEvents, fates, NotAccepted]
  | cons ev rest ih =>
    obtain ⟨f, c', p', head, hf, hturn, hserve⟩ :=
      serveEvents_cons cfg enrich outcome r i c p ev rest
    rw [hf, hserve, notAccepted_append, hturn.answer]
    have hidx : ∀ k, i + (k + 1) = i + 1 + k := fun k => by omega
    cases hs : stops outcome i f with
    | true =>
      simp only [true_or, true_iff]
      exact ⟨0, f, rfl, hs, comes_zero _ _ _⟩
    | false =>
      simp only [Bool.false_eq_true, false_or, if_false, ih]
      constructor
      · rintro ⟨k, g, hg, hstop, hcomes⟩
        refine ⟨k + 1, g, by simpa using hg, ?_, comes_cons.mpr ⟨hs, hcomes⟩⟩
        rwa [hidx]
      · rintro ⟨k, g, hg, hstop, hcomes⟩
        cases k with
        | zero =>
          obtain rfl : f = g := by simpa using hg
          simp [hs] at hstop
        | succ k =>
          rw [hidx] at hstop
          exact ⟨k, g, by simpa using hg, hstop, (comes_cons.mp hcomes).2⟩

/-- The indices of the outputs grow along the loop. -/
theorem le_of_appended {i k siteID : ℕ} {c : String} {p : π} {evs : List Payload}
    {e : EnrichedEvent} {ok : Bool} (h : .appended k siteID e ok ∈
      serveEvents cfg (withLog enrich outcome) r i c p evs) : i ≤ k := by
  obtain ⟨-, raw, -, hmem⟩ := appended_mem_iff.mp h
  obtain ⟨m, -, rfl, -⟩ := enriched_of_mem hmem
  omega

/-- The loop appends what is offered where it comes to. -/
theorem appended_serveEvents (i : ℕ) (c : String) (p : π) (evs : List Payload) (k : ℕ)
    (e : EnrichedEvent) :
    (∃ siteID ok, .appended (i + k) siteID e ok ∈
        serveEvents cfg (withLog enrich outcome) r i c p evs) ↔
      (fates cfg enrich r i c p evs)[k]? = some (.offered e) ∧
        Comes outcome i (fates cfg enrich r i c p evs) k := by
  induction evs generalizing i c p k with
  | nil => simp [serveEvents, fates]
  | cons ev rest ih =>
    obtain ⟨f, c', p', head, hf, hturn, hserve⟩ :=
      serveEvents_cons cfg enrich outcome r i c p ev rest
    rw [hf, hserve]
    cases k with
    | zero =>
      constructor
      · rintro ⟨siteID, ok, hmem⟩
        rcases List.mem_append.mp hmem with h | h
        · exact ⟨congrArg some (hturn.appended i siteID e ok h).2, comes_zero _ _ _⟩
        · split at h
          · simp at h
          · have hle := le_of_appended h
            omega
      · rintro ⟨he, -⟩
        obtain ⟨siteID, ok, hmem⟩ := hturn.offered e (by simpa using he)
        exact ⟨siteID, ok, List.mem_append_left _ hmem⟩
    | succ k =>
      have hidx : i + (k + 1) = i + 1 + k := by omega
      have hhead : ∀ siteID ok, .appended (i + (k + 1)) siteID e ok ∉ head := by
        intro siteID ok hmem
        have heq := (hturn.appended _ siteID e ok hmem).1
        omega
      rw [comes_cons]
      simp only [List.mem_append, hhead, false_or, List.getElem?_cons_succ]
      cases hs : stops outcome i f with
      | true => simp
      | false =>
        simp only [Bool.false_eq_true, if_false, true_and, hidx]
        exact ih (i + 1) c' p' k

/-- The fates of the events of a request. -/
def requestFates (cfg : Config) (enrich : Enrich π) (dec : Decoder) (p : π) (r : Request) :
    List Fate :=
  match parseBody dec r.body with
  | .error _ => []
  | .ok evs => fates cfg enrich r 0 "" p evs

/-- The loop runs over a body with events, behind the received counter. -/
theorem serve_of_requestFates {dec : Decoder} {p : π} (be : Backend π)
    (h : requestFates cfg enrich dec p r ≠ []) : ∃ evs,
      requestFates cfg enrich dec p r = fates cfg enrich r 0 "" p evs ∧
      serve cfg be dec p r = [.received] ++ serveEvents cfg be r 0 "" p evs := by
  rw [requestFates] at h ⊢
  rw [serve]
  cases hp : parseBody dec r.body with
  | error err => simp [hp] at h
  | ok evs =>
    cases evs with
    | nil => simp [hp, fates] at h
    | cons ev rest => exact ⟨ev :: rest, rfl, rfl⟩

theorem notAccepted_serve {dec : Decoder} {p : π} (h : requestFates cfg enrich dec p r ≠ []) :
    NotAccepted (serve cfg (withLog enrich outcome) dec p r) ↔
      ∃ k f, (requestFates cfg enrich dec p r)[k]? = some f ∧ stops outcome k f = true ∧
        Comes outcome 0 (requestFates cfg enrich dec p r) k := by
  obtain ⟨evs, hf, hserve⟩ := serve_of_requestFates (withLog enrich outcome) h
  have hfirst : ¬ NotAccepted [.received] := by simp [NotAccepted]
  have hloop : NotAccepted (serveEvents cfg (withLog enrich outcome) r 0 "" p evs) ↔ _ :=
    notAccepted_serveEvents 0 "" p evs
  simp only [Nat.zero_add] at hloop
  rw [hf, hserve, notAccepted_append, ← hloop]
  exact or_iff_right hfirst

theorem stored_serve_iff {dec : Decoder} {p : π} {k : ℕ} :
    Stored outcome (serve cfg (withLog enrich outcome) dec p r) k ↔
      ∃ e, (requestFates cfg enrich dec p r)[k]? = some (.offered e) ∧
        Comes outcome 0 (requestFates cfg enrich dec p r) k ∧ (outcome k e).landed = true := by
  constructor
  · rintro ⟨siteID, e, ok, hmem, hland⟩
    obtain ⟨evs, hp, hok, raw, hsite, hen⟩ := appended_serve_iff.mp hmem
    have happ := (appended_serveEvents 0 "" p evs k e).mp ⟨siteID, ok, by
      rw [Nat.zero_add]
      exact appended_mem_iff.mpr ⟨hok, raw, hsite, hen⟩⟩
    rw [requestFates, hp]
    exact ⟨e, happ.1, happ.2, hland⟩
  · rintro ⟨e, he, hcomes, hland⟩
    have hne : requestFates cfg enrich dec p r ≠ [] := by
      intro hnil
      simp [hnil] at he
    obtain ⟨evs, hf, hserve⟩ := serve_of_requestFates (withLog enrich outcome) hne
    rw [hf] at he hcomes
    obtain ⟨siteID, ok, hmem⟩ := (appended_serveEvents 0 "" p evs k e).mpr ⟨he, hcomes⟩
    rw [Nat.zero_add] at hmem
    refine ⟨siteID, e, ok, ?_, hland⟩
    rw [hserve]
    exact List.mem_append_right _ hmem

private theorem landed_of_synced
    {e : EnrichedEvent} {k : ℕ} (h : stops outcome k (.offered e) = false) :
    (outcome k e).landed = true := by
  have hs : outcome k e = .synced := by simpa [stops] using h
  rw [hs]
  rfl

/-- For every request and every pattern of lookups and appends: what is answered "not
accepted" left nothing in the log, and nothing gets there twice, exactly when the event at
which the loop leaves comes after no offered one and left no trace itself. -/
theorem retrySafe_iff (cfg : Config) (enrich : Enrich π) (outcome : ℕ → EnrichedEvent → Append)
    (dec : Decoder) (p : π) (r : Request) :
    RetrySafe cfg enrich outcome dec p r ↔
      LeavesClean outcome 0 (requestFates cfg enrich dec p r) := by
  constructor
  · intro hsafe k f hf hstop hcomes
    rw [Nat.zero_add] at hstop ⊢
    have hne : requestFates cfg enrich dec p r ≠ [] := by
      intro hnil
      simp [hnil] at hf
    have hnothing := hsafe.nothing_stored
      ((notAccepted_serve hne).mpr ⟨k, f, hf, hstop, hcomes⟩)
    constructor
    · intro m hm e he
      have hgo : stops outcome m (.offered e) = false := by simpa using hcomes m hm _ he
      have hcomes' : Comes outcome 0 (requestFates cfg enrich dec p r) m :=
        fun j hj => hcomes j (by omega)
      exact hnothing m (stored_serve_iff.mpr ⟨e, he, hcomes', landed_of_synced hgo⟩)
    · rintro e rfl
      cases ho : outcome k e with
      | synced => simp [stops, ho] at hstop
      | refused => rfl
      | unacked => exact absurd (stored_serve_iff.mpr ⟨e, hf, hcomes, by rw [ho]; rfl⟩) (hnothing k)
  · intro hclean
    have hnothing : NotAccepted (serve cfg (withLog enrich outcome) dec p r) →
        ∀ k, ¬ Stored outcome (serve cfg (withLog enrich outcome) dec p r) k := by
      intro hnot k hstored
      obtain ⟨e, he, hcomes, hland⟩ := stored_serve_iff.mp hstored
      have hne : requestFates cfg enrich dec p r ≠ [] := by
        intro hnil
        simp [hnil] at he
      obtain ⟨m, f, hf, hstop, hm⟩ := (notAccepted_serve hne).mp hnot
      obtain ⟨hearlier, hhere⟩ := hclean m f hf (by simpa using hstop) hm
      rcases lt_trichotomy k m with hlt | rfl | hlt
      · exact hearlier k hlt e he
      · obtain rfl : f = .offered e := Option.some.inj (hf.symm.trans he)
        have href := hhere e rfl
        rw [Nat.zero_add] at href
        simp [href, Append.landed] at hland
      · have hgo := hcomes m hlt f hf
        rw [Nat.zero_add] at hgo
        simp [hgo] at hstop
    exact ⟨hnothing, fun hnot _ _ _ _ _ _ k h => hnothing hnot k h.1⟩

def batchVisit : Request := { sampleVisit with body := .ok [0x5B, 0x5D] }

def batchDecoder : Decoder :=
  ⟨fun _ => some [{ hostname := "one" }, { hostname := "one" }], fun _ => none⟩

def sampleEnrich : Enrich (State (List VisitorHash)) :=
  (samplePipeline.backend (fun _ => {}) (fun _ _ => true)).enrich

def secondFails (k : ℕ) (_ : EnrichedEvent) : Append := if k = 1 then .refused else .synced

def allSynced (_ : ℕ) (_ : EnrichedEvent) : Append := .synced

def batchRow (isNew : Bool) : EnrichedEvent :=
  samplePipeline.row sampleHash isNew
    { rawEvent sampleConfig sampleVisit 1 {} { hostname := "one" } with trackBots := true }

/-- The batch is answered with 503, and its first event is in the log; when the client sends
the same body again, it is there twice. -/
theorem first_event_stored_twice :
    .respond 503 "service unavailable" ∈
        serve sampleConfig (withLog sampleEnrich secondFails) batchDecoder { bits := [] }
          batchVisit ∧
      Stored secondFails (serve sampleConfig (withLog sampleEnrich secondFails) batchDecoder
        { bits := [] } batchVisit) 0 ∧
      Stored allSynced (serve sampleConfig (withLog sampleEnrich allSynced) batchDecoder
        { bits := [sampleHash] } batchVisit) 0 ∧
      ¬ RetrySafe sampleConfig sampleEnrich secondFails batchDecoder { bits := [] } batchVisit := by
  have hanswer : .respond 503 "service unavailable" ∈ serve sampleConfig
      (withLog sampleEnrich secondFails) batchDecoder { bits := [] } batchVisit := by decide
  have hfirst : .appended 0 1 (batchRow true) true ∈ serve sampleConfig
      (withLog sampleEnrich secondFails) batchDecoder { bits := [] } batchVisit := by decide
  have hagain : .appended 0 1 (batchRow false) true ∈ serve sampleConfig
      (withLog sampleEnrich allSynced) batchDecoder { bits := [sampleHash] } batchVisit := by decide
  refine ⟨hanswer, ⟨1, _, true, hfirst, rfl⟩, ⟨1, _, true, hagain, rfl⟩, fun h => ?_⟩
  exact h.nothing_stored ⟨503, _, hanswer, by decide⟩ 0 ⟨1, _, true, hfirst, rfl⟩

end Statnive.RetrySafety
