import Statnive.EnrichPipeline
import Statnive.LabelledRuns

/-!
# The first stored event of a visitor

Every handler runs the pipeline on an event and then appends what it returns. The filter is
marked in the pipeline; whether the event is stored is settled later, and the events of
other requests come in between. The loop of a handler by itself is a run (`exec_serveEvents`).
-/

namespace Statnive.NewVisitor

open LabelledRuns IngestEvents IngestHandler EnrichPipeline

/-- A filter without false positives, and without false negatives. -/
structure ExactFilter {φ : Type} (bf : BloomFilter φ) (empty : φ) : Prop where
  test_empty : ∀ h, bf.test empty h = false
  test_add : ∀ bits x h, bf.test (bf.add bits x) h = true ↔ h = x ∨ bf.test bits h = true

variable {φ : Type}

/-- An event that the pipeline returned, with the visitor's hash of the day before and the
hashes of all events that came to the filter earlier. -/
structure Pending where
  e : EnrichedEvent
  prev : VisitorHash
  earlier : List VisitorHash
  deriving DecidableEq

/-- `seen` are the hashes of the events that came to the filter, the last one first. -/
structure State (φ : Type) where
  pipe : EnrichPipeline.State φ
  seen : List VisitorHash := []
  inFlight : List Pending := []
  stored : List Pending := []
  deriving DecidableEq

/-- The pipeline runs on an event, or the append of the `k`-th event in flight is settled. -/
inductive Action where
  | enrich (clock : Clock) (raw : RawEvent)
  | append (k : ℕ) (landed : Bool)

def enrich (d : Deps φ) (s : State φ) (clock : Clock) (raw : RawEvent) : State φ :=
  let hash := d.hashToday clock raw
  match d.enrich clock s.pipe raw with
  | (.error .burstDropped, p) => { s with pipe := p }
  | (.error .botDropped, p) => { s with pipe := p, seen := hash :: s.seen }
  | (.ok e, p) =>
    { s with
      pipe := p
      seen := hash :: s.seen
      inFlight := s.inFlight ++ [⟨e, d.hashPrev clock raw, s.seen⟩] }

def append (s : State φ) (k : ℕ) (pd : Pending) (landed : Bool) : State φ :=
  { s with
    inFlight := s.inFlight.eraseIdx k
    stored := if landed then s.stored ++ [pd] else s.stored }

def step (d : Deps φ) (s : State φ) : Action → Option (State φ)
  | .enrich clock raw => some (enrich d s clock raw)
  | .append k landed => (s.inFlight[k]?).map (fun pd => append s k pd landed)

/-- No event had come to the filter under the visitor's hash, or that of the day before. -/
def Pending.First (pd : Pending) : Prop := pd.e.visitorHash ∉ pd.earlier ∧ pd.prev ∉ pd.earlier

/-- The event at position `k` of the log is the earliest one of its hash. -/
def FirstOfHash (stored : List Pending) (k : ℕ) (pd : Pending) : Prop :=
  stored[k]? = some pd ∧
    ∀ j < k, ∀ pd', stored[j]? = some pd' → pd'.e.visitorHash ≠ pd.e.visitorHash

/-- The filter holds the hashes seen, and the flag of an event says that it was first. -/
structure Inv (d : Deps φ) (s : State φ) : Prop where
  filter : ∀ h, d.bloom.test s.pipe.bits h = true ↔ h ∈ s.seen
  inFlight : ∀ pd ∈ s.inFlight, pd.e.isNew = 1 ↔ pd.First
  stored : ∀ pd ∈ s.stored, pd.e.isNew = 1 ↔ pd.First

private theorem mark_fst {d : Deps φ} {bits : φ} {seen : List VisitorHash}
    (hfilter : ∀ h, d.bloom.test bits h = true ↔ h ∈ seen) (clock : Clock) (raw : RawEvent) :
    (d.mark clock bits raw).1 = true ↔
      d.hashToday clock raw ∉ seen ∧ d.hashPrev clock raw ∉ seen := by
  have hcur := hfilter (d.hashToday clock raw)
  have hprev := hfilter (d.hashPrev clock raw)
  simp only [Deps.mark, checkAndMark]
  split
  · simp_all
  · split
    · simp_all
    · rename_i hno hgrace
      simp only [Bool.not_eq_true] at hno
      simp only [true_iff]
      refine ⟨fun hmem => by simp [hcur.mpr hmem] at hno, fun hmem => ?_⟩
      by_cases heq : d.hashToday clock raw = d.hashPrev clock raw
      · rw [heq, hprev.mpr hmem] at hno
        simp at hno
      · apply hgrace
        simp [heq, hprev.mpr hmem]

private theorem mark_snd {d : Deps φ} {empty bits : φ} {seen : List VisitorHash}
    (hexact : ExactFilter d.bloom empty) (hfilter : ∀ h, d.bloom.test bits h = true ↔ h ∈ seen)
    (clock : Clock) (raw : RawEvent) (h : VisitorHash) :
    d.bloom.test (d.mark clock bits raw).2 h = true ↔ h ∈ d.hashToday clock raw :: seen := by
  simp only [Deps.mark, checkAndMark, List.mem_cons]
  split
  · rename_i hyes
    rw [hfilter]
    constructor
    · exact .inr
    · rintro (rfl | hmem)
      · exact (hfilter _).mp hyes
      · exact hmem
  · split
    · rw [hexact.test_add, hfilter]
    · rw [hexact.test_add, hfilter]

private theorem row_isNew (d : Deps φ) (hash : VisitorHash) (isNew : Bool) (raw : RawEvent) :
    (d.row hash isNew raw).isNew = 1 ↔ isNew = true := by
  obtain ⟨goal, value, hrow⟩ := row_eq d hash isNew raw
  rw [hrow]
  cases isNew <;> simp [Deps.newRow, boolU8]

theorem row_visitorHash (d : Deps φ) (hash : VisitorHash) (isNew : Bool) (raw : RawEvent) :
    (d.row hash isNew raw).visitorHash = hash := by
  obtain ⟨goal, value, hrow⟩ := row_eq d hash isNew raw
  rw [hrow]
  rfl

private theorem inv_enrich
    {d : Deps φ} {empty : φ} (hexact : ExactFilter d.bloom empty) {s : State φ}
    (hs : Inv d s) (clock : Clock) (raw : RawEvent) : Inv d (enrich d s clock raw) := by
  have hmark := mark_snd hexact hs.filter clock raw
  rcases hen : d.enrich clock s.pipe raw with ⟨res, p⟩
  have hcases := enrich_cases d clock s.pipe raw
  simp only [hen] at hcases
  rcases hcases with ⟨rfl, hbits⟩ | ⟨rfl, -, hbits⟩ | ⟨rfl, hbits⟩
  · simp only [enrich, hen]
    exact ⟨fun h => by simpa only [hbits] using hs.filter h, hs.inFlight, hs.stored⟩
  · simp only [enrich, hen]
    exact ⟨fun h => by simpa only [hbits] using hmark h, hs.inFlight, hs.stored⟩
  · simp only [enrich, hen]
    refine ⟨fun h => by simpa only [hbits] using hmark h, fun pd hpd => ?_, hs.stored⟩
    rcases List.mem_append.mp hpd with h | h
    · exact hs.inFlight pd h
    · obtain rfl := List.mem_singleton.mp h
      rw [row_isNew, Pending.First, row_visitorHash]
      exact mark_fst hs.filter clock raw

theorem inv_step {d : Deps φ} {empty : φ} (hexact : ExactFilter d.bloom empty) {s t : State φ}
    {a : Action} (hs : Inv d s) (hst : step d s a = some t) : Inv d t := by
  cases a with
  | enrich clock raw =>
    obtain rfl : enrich d s clock raw = t := by simpa [step] using hst
    exact inv_enrich hexact hs clock raw
  | append k landed =>
    obtain ⟨pd, hpd, rfl⟩ := Option.map_eq_some_iff.mp hst
    refine ⟨hs.filter, fun pd' h => hs.inFlight pd' (List.mem_of_mem_eraseIdx h), fun pd' h => ?_⟩
    simp only [append] at h
    split at h
    · rcases List.mem_append.mp h with hold | hnew
      · exact hs.stored pd' hold
      · obtain rfl := List.mem_singleton.mp hnew
        exact hs.inFlight pd' (List.mem_of_getElem? hpd)
    · exact hs.stored pd' h

def HasStored (s : State φ) (h : VisitorHash) : Prop := ∃ pd ∈ s.stored, pd.e.visitorHash = h

/-- The event in flight that the pipeline returned first for the hash. -/
def FirstInFlight (s : State φ) (k : ℕ) (pd : Pending) : Prop :=
  s.inFlight[k]? = some pd ∧
    ∀ j < k, ∀ pd', s.inFlight[j]? = some pd' → pd'.e.visitorHash ≠ pd.e.visitorHash

/-- An event of a hash that the filter does not know is not dropped as a bot's and is no
returning visit of the day before; and as long as nothing of a hash is stored, the first
event returned for it is the first to be settled, and it is stored. -/
def Orderly (d : Deps φ) (s : State φ) : Action → Prop
  | .enrich clock raw => d.hashToday clock raw ∈ s.seen ∨
      (d.hashPrev clock raw ∉ s.seen ∧ (d.isBotEvent raw = true → raw.trackBots = true))
  | .append k landed => ∀ pd, s.inFlight[k]? = some pd →
      HasStored s pd.e.visitorHash ∨ (landed = true ∧ FirstInFlight s k pd)

/-- Every hash that the filter knows has an event in the log, or its first event is still in
flight; and the earliest events in the log were the first to come to the filter. -/
structure OrderlyInv (s : State φ) : Prop where
  inFlight_seen : ∀ pd ∈ s.inFlight, pd.e.visitorHash ∈ s.seen
  settled : ∀ h ∈ s.seen, HasStored s h ∨
    ∃ k pd, FirstInFlight s k pd ∧ pd.e.visitorHash = h ∧ pd.First
  first : ∀ k pd, FirstOfHash s.stored k pd → pd.First

/-- A hash that the filter knows may come to it again. -/
theorem OrderlyInv.seen_again {s : State φ} (hs : OrderlyInv s) {h : VisitorHash}
    (hmem : h ∈ s.seen) (p : EnrichPipeline.State φ) :
    OrderlyInv { s with pipe := p, seen := h :: s.seen } := by
  refine ⟨fun pd hpd => List.mem_cons_of_mem _ (hs.inFlight_seen pd hpd), fun h' hh' => ?_,
    hs.first⟩
  rcases List.mem_cons.mp hh' with rfl | hold
  · exact hs.settled _ hmem
  · exact hs.settled h' hold

/-- What comes behind the events in flight leaves the first of them first. -/
theorem FirstInFlight.append {s : State φ} {k : ℕ} {pd : Pending} (h : FirstInFlight s k pd)
    (new : Pending) (p : EnrichPipeline.State φ) (seen : List VisitorHash) :
    FirstInFlight { s with pipe := p, seen := seen, inFlight := s.inFlight ++ [new] } k pd := by
  obtain ⟨hk, hfirst⟩ := h
  obtain ⟨hlt, -⟩ := List.getElem?_eq_some_iff.mp hk
  refine ⟨by rw [List.getElem?_append_left hlt]; exact hk, fun j hj pd' hpd' => ?_⟩
  rw [List.getElem?_append_left (by omega)] at hpd'
  exact hfirst j hj pd' hpd'

private theorem orderlyInv_enrich {d : Deps φ} {s : State φ} (hs : OrderlyInv s) {clock : Clock}
    {raw : RawEvent} (ho : Orderly d s (.enrich clock raw)) :
    OrderlyInv (enrich d s clock raw) := by
  rcases hen : d.enrich clock s.pipe raw with ⟨res, p⟩
  have hcases := enrich_cases d clock s.pipe raw
  simp only [hen] at hcases
  rcases hcases with ⟨rfl, -⟩ | ⟨rfl, ⟨hbot, htrack⟩, -⟩ | ⟨rfl, -⟩
  · simp only [enrich, hen]
    exact ⟨hs.inFlight_seen, hs.settled, hs.first⟩
  · simp only [enrich, hen]
    rcases ho with hmem | ⟨-, hkeep⟩
    · exact hs.seen_again hmem p
    · simp [hkeep hbot] at htrack
  · simp only [enrich, hen]
    have hhash := row_visitorHash d (d.hashToday clock raw) (d.mark clock s.pipe.bits raw).1 raw
    refine ⟨fun pd hpd => ?_, fun h hh => ?_, hs.first⟩
    · rcases List.mem_append.mp hpd with hold | hnew
      · exact List.mem_cons_of_mem _ (hs.inFlight_seen pd hold)
      · obtain rfl := List.mem_singleton.mp hnew
        simp [hhash]
    · by_cases hknown : h ∈ s.seen
      · rcases hs.settled h hknown with hst | ⟨k, pd, hk, heq, hf⟩
        · exact .inl hst
        · exact .inr ⟨k, pd, hk.append _ _ _, heq, hf⟩
      · obtain rfl : h = d.hashToday clock raw := (List.mem_cons.mp hh).resolve_right hknown
        obtain ⟨hprev, -⟩ := ho.resolve_left hknown
        refine .inr ⟨s.inFlight.length, _, ⟨List.getElem?_concat_length, ?_⟩, hhash, ?_⟩
        · intro j hj pd' hpd' heq
          rw [List.getElem?_append_left hj] at hpd'
          apply hknown
          rw [← hhash, ← heq]
          exact hs.inFlight_seen pd' (List.mem_of_getElem? hpd')
        · rw [Pending.First, hhash]
          exact ⟨hknown, hprev⟩

/-- The first event in flight for a hash stays first when another event is settled. -/
theorem FirstInFlight.erase {s : State φ} {k m : ℕ} {pd : Pending} (h : FirstInFlight s m pd)
    (hne : m ≠ k) (stored : List Pending) :
    ∃ m', FirstInFlight { s with inFlight := s.inFlight.eraseIdx k, stored := stored } m' pd := by
  obtain ⟨hm, hfirst⟩ := h
  by_cases hlt : m < k
  · refine ⟨m, by rw [List.getElem?_eraseIdx_of_lt hlt]; exact hm, fun j hj pd' hpd' => ?_⟩
    rw [List.getElem?_eraseIdx_of_lt (by omega)] at hpd'
    exact hfirst j hj pd' hpd'
  · have hm' : m - 1 + 1 = m := by omega
    refine ⟨m - 1, ?_, fun j hj pd' hpd' => ?_⟩
    · rw [List.getElem?_eraseIdx_of_ge (by omega), hm']
      exact hm
    · rw [List.getElem?_eraseIdx] at hpd'
      split at hpd'
      · exact hfirst j (by omega) pd' hpd'
      · exact hfirst (j + 1) (by omega) pd' hpd'

theorem FirstInFlight.unique {s : State φ} {k m : ℕ} {pd pd' : Pending} (h : FirstInFlight s k pd)
    (h' : FirstInFlight s m pd') (heq : pd.e.visitorHash = pd'.e.visitorHash) : k = m := by
  rcases lt_trichotomy k m with hlt | hkm | hlt
  · exact absurd heq (h'.2 k hlt pd h.1)
  · exact hkm
  · exact absurd heq.symm (h.2 m hlt pd' h'.1)

private theorem orderlyInv_append {s : State φ} (hs : OrderlyInv s) {k : ℕ} {pd : Pending}
    (hpd : s.inFlight[k]? = some pd) {landed : Bool}
    (ho : HasStored s pd.e.visitorHash ∨ (landed = true ∧ FirstInFlight s k pd)) :
    OrderlyInv (append s k pd landed) := by
  have hkeep : ∀ h, HasStored s h → HasStored (append s k pd landed) h := by
    rintro h ⟨q, hq, heq⟩
    refine ⟨q, ?_, heq⟩
    simp only [append]
    split
    · exact List.mem_append_left _ hq
    · exact hq
  refine ⟨fun q hq => hs.inFlight_seen q (List.mem_of_mem_eraseIdx hq), fun h hh => ?_, ?_⟩
  · rcases hs.settled h hh with hst | ⟨m, q, hq, heq, hf⟩
    · exact .inl (hkeep h hst)
    · by_cases hmk : m = k
      · subst hmk
        obtain rfl : pd = q := Option.some.inj (hpd.symm.trans hq.1)
        rcases ho with hst | ⟨rfl, -⟩
        · exact .inl (hkeep h (heq ▸ hst))
        · exact .inl ⟨pd, by simp [append], heq⟩
      · obtain ⟨m', hm'⟩ := hq.erase hmk (if landed then s.stored ++ [pd] else s.stored)
        exact .inr ⟨m', q, hm', heq, hf⟩
  · intro j q hq
    simp only [append] at hq
    split at hq
    · obtain ⟨hj, hearlier⟩ := hq
      by_cases hlt : j < s.stored.length
      · rw [List.getElem?_append_left hlt] at hj
        refine hs.first j q ⟨hj, fun i hi q' hq' => hearlier i hi q' ?_⟩
        rw [List.getElem?_append_left (by omega)]
        exact hq'
      · have hj' : j = s.stored.length ∧ q = pd := by
          rw [List.getElem?_append_right (by omega)] at hj
          obtain ⟨hone, heq⟩ := List.getElem?_eq_some_iff.mp hj
          simp only [List.length_cons, List.length_nil] at hone
          exact ⟨by omega, by simpa using heq.symm⟩
        obtain ⟨rfl, rfl⟩ := hj'
        have hnone : ¬ HasStored s q.e.visitorHash := by
          rintro ⟨q', hq', heq⟩
          obtain ⟨i, hi⟩ := List.getElem?_of_mem hq'
          obtain ⟨hlen, -⟩ := List.getElem?_eq_some_iff.mp hi
          refine hearlier i hlen q' ?_ heq
          rw [List.getElem?_append_left hlen]
          exact hi
        obtain ⟨-, hfirst⟩ := ho.resolve_left hnone
        have hseen := hs.inFlight_seen q (List.mem_of_getElem? hpd)
        obtain ⟨m, q', hq', heq, hf⟩ := (hs.settled _ hseen).resolve_left hnone
        obtain rfl := hfirst.unique hq' heq.symm
        obtain rfl : q = q' := Option.some.inj (hpd.symm.trans hq'.1)
        exact hf
    · exact hs.first j q hq

private theorem orderlyInv_step {d : Deps φ} {s t : State φ} {a : Action} (hs : OrderlyInv s)
    (ho : Orderly d s a) (hst : step d s a = some t) : OrderlyInv t := by
  cases a with
  | enrich clock raw =>
    obtain rfl : enrich d s clock raw = t := by simpa [step] using hst
    exact orderlyInv_enrich hs ho
  | append k landed =>
    obtain ⟨pd, hpd, rfl⟩ := Option.map_eq_some_iff.mp hst
    exact orderlyInv_append hs hpd (ho pd hpd)

/-- For every run from an empty filter and log, whatever is dropped or fails on the way, and
every hash: its earliest stored event is flagged as new exactly when no event had come to the
filter before, under the same hash or that of the visitor's day before. In an orderly run
that is so for all of them. -/
theorem isNew_iff (d : Deps φ) (empty : φ) (burst : Option BurstGuard)
    (hexact : ExactFilter d.bloom empty) (es : List Action) (s : State φ)
    (hrun : exec (step d) { pipe := { bits := empty, burst := burst } } es = some s) :
    (∀ k pd, FirstOfHash s.stored k pd → (pd.e.isNew = 1 ↔ pd.First)) ∧
      (Along (step d) (Orderly d) { pipe := { bits := empty, burst := burst } } es →
        ∀ k pd, FirstOfHash s.stored k pd → pd.e.isNew = 1) := by
  have hinit : Inv d { pipe := { bits := empty, burst := burst } } :=
    ⟨fun h => by simp [hexact.test_empty], by simp, by simp⟩
  have hinv : Inv d s := exec_invariant (fun _ _ _ => inv_step hexact) hrun hinit
  have hflag : ∀ k pd, FirstOfHash s.stored k pd → (pd.e.isNew = 1 ↔ pd.First) :=
    fun k pd h => hinv.stored pd (List.mem_of_getElem? h.1)
  refine ⟨hflag, fun halong k pd h => (hflag k pd h).mpr ?_⟩
  have horder : OrderlyInv s := exec_guarded (fun _ _ _ => orderlyInv_step) halong hrun
    ⟨by simp, by simp, by simp [FirstOfHash]⟩
  exact horder.first k pd h

/-- What an output of the handler does to the filter and the log, while no other request is
under way. -/
def actionOf (clock : ℕ → Clock) : Output → Option Action
  | .enriched i raw _ => some (.enrich (clock i) raw)
  | .appended _ _ _ ok => some (.append 0 ok)
  | _ => none

private theorem filterMap_actionOf_cookie (clock : ℕ → Clock) (m : Option String) :
    (m.map Output.setCookie).toList.filterMap (actionOf clock) = [] := by
  cases m <;> rfl

private theorem enrich_none {d : Deps φ} {s : State φ} {clock : Clock} {raw : RawEvent}
    (h : (d.enrich clock s.pipe raw).1.toOption = none) (hs : s.inFlight = []) :
    (enrich d s clock raw).pipe = (d.enrich clock s.pipe raw).2 ∧
      (enrich d s clock raw).inFlight = [] := by
  rcases hen : d.enrich clock s.pipe raw with ⟨res, p⟩
  rw [hen] at h
  cases res with
  | error reason => cases reason <;> simp [enrich, hen, hs]
  | ok e => simp [Except.toOption] at h

private theorem enrich_some
    {d : Deps φ} {s : State φ} {clock : Clock} {raw : RawEvent} {e : EnrichedEvent}
    (h : (d.enrich clock s.pipe raw).1.toOption = some e) (hs : s.inFlight = []) :
    (enrich d s clock raw).pipe = (d.enrich clock s.pipe raw).2 ∧
      (enrich d s clock raw).inFlight = [⟨e, d.hashPrev clock raw, s.seen⟩] := by
  rcases hen : d.enrich clock s.pipe raw with ⟨res, p⟩
  rw [hen] at h
  cases res with
  | error reason => simp [Except.toOption] at h
  | ok e' =>
    obtain rfl : e' = e := by simpa [Except.toOption] using h
    simp [enrich, hen, hs]

/-- The events loop of a request is a run. -/
theorem exec_serveEvents (cfg : Config) (d : Deps φ) (clock : ℕ → Clock)
    (appendAndWait : ℕ → EnrichedEvent → Bool) (r : PrivacyPolicy.Request) (i : ℕ) (c : String)
    (evs : List Payload) (s : State φ) (hs : s.inFlight = []) :
    ∃ t, exec (step d) s ((serveEvents cfg (d.backend clock appendAndWait) r i c s.pipe
      evs).filterMap (actionOf clock)) = some t ∧ t.inFlight = [] := by
  induction evs generalizing i c s with
  | nil => exact ⟨s, rfl, hs⟩
  | cons ev rest ih =>
    rw [serveEvents, List.filterMap_append, filterMap_actionOf_cookie, List.nil_append]
    cases (gate cfg r i c ev).verdict with
    | unknownHost => exact ⟨s, rfl, hs⟩
    | drop reason => exact ih (i + 1) _ s hs
    | pass raw =>
      rcases hen : (d.backend clock appendAndWait).enrich i s.pipe raw with ⟨res, p⟩
      have hres : (d.enrich (clock i) s.pipe raw).1.toOption = res := congrArg Prod.fst hen
      have hpipe : (d.enrich (clock i) s.pipe raw).2 = p := congrArg Prod.snd hen
      simp only [hen]
      cases res with
      | none =>
        obtain ⟨hp, hin⟩ := enrich_none hres hs
        obtain ⟨t, ht, htin⟩ := ih (i + 1) (gate cfg r i c ev).cookieID _ hin
        rw [hp, hpipe] at ht
        exact ⟨t, exec_cons.mpr ⟨_, rfl, ht⟩, htin⟩
      | some e =>
        obtain ⟨hp, hin⟩ := enrich_some hres hs
        have hsettle : ∀ ok, step d (enrich d s (clock i) raw) (.append 0 ok) =
            some (append (enrich d s (clock i) raw) 0
              ⟨e, d.hashPrev (clock i) raw, s.seen⟩ ok) := by
          intro ok
          simp [step, hin]
        cases hok : (d.backend clock appendAndWait).appendAndWait i e with
        | false =>
          simp only [hok, Bool.false_eq_true, if_false]
          refine ⟨_, exec_cons.mpr ⟨_, rfl, exec_cons.mpr ⟨_, hsettle _, rfl⟩⟩, ?_⟩
          simp [append, hin]
        | true =>
          simp only [hok, if_true]
          obtain ⟨t, ht, htin⟩ := ih (i + 1) (gate cfg r i c ev).cookieID
            (append (enrich d s (clock i) raw) 0 ⟨e, d.hashPrev (clock i) raw, s.seen⟩ true)
            (by simp [append, hin])
          have hp' : (append (enrich d s (clock i) raw) 0
              ⟨e, d.hashPrev (clock i) raw, s.seen⟩ true).pipe = p := hp.trans hpipe
          rw [hp'] at ht
          exact ⟨t, exec_cons.mpr ⟨_, rfl, exec_cons.mpr ⟨_, hsettle _, ht⟩⟩, htin⟩

private theorem exactFilter_exact : ExactFilter exactFilter [] :=
  ⟨by simp [exactFilter], by simp [exactFilter]⟩

def sampleRaw : RawEvent :=
  { rawEvent sampleConfig sampleVisit 1 {} { hostname := "one" } with trackBots := true }

def firstAppendFails : List Action :=
  [.enrich {} sampleRaw, .append 0 false, .enrich {} sampleRaw, .append 0 true]

/-- The retried event, of a hash that the filter knows by then. -/
def retried : Pending :=
  ⟨samplePipeline.row sampleHash false sampleRaw, samplePreviousHash, [sampleHash]⟩

def afterRetry : State (List VisitorHash) where
  pipe := { bits := [sampleHash] }
  seen := [sampleHash, sampleHash]
  stored := [retried]

theorem exec_firstAppendFails :
    exec (step samplePipeline) { pipe := { bits := [] } } firstAppendFails = some afterRetry := by
  decide

theorem firstOfHash_retried : FirstOfHash afterRetry.stored 0 retried := by
  refine ⟨rfl, fun j hj => ?_⟩
  omega

theorem isNew_iff_firstAppendFails : retried.e.isNew = 1 ↔ retried.First :=
  (isNew_iff samplePipeline [] none exactFilter_exact firstAppendFails afterRetry
    exec_firstAppendFails).1 0 retried firstOfHash_retried

/-- The only stored event of the visitor is flagged as returning. -/
theorem first_stored_not_new :
    exec (step samplePipeline) { pipe := { bits := [] } } firstAppendFails = some afterRetry ∧
      FirstOfHash afterRetry.stored 0 retried ∧ retried.e.isNew = 0 :=
  ⟨exec_firstAppendFails, firstOfHash_retried, by decide⟩

end Statnive.NewVisitor
