import Statnive.EnrichPipeline
import Statnive.HashOptOut

/-!
# The free-form properties of a stored event

The validation looks at `props`; `hit_props`, `session_props` and `user_props` go from the
body into the row as they are.
-/

namespace Statnive.StoredProps

open IngestEvents PrivacyPolicy EventSanitize IngestHandler HashOptOut EnrichPipeline

/-- A value as `sanitizeFree` leaves it. -/
def Clean (v : String) : Prop :=
  (∀ c ∈ v.toList, isControl c = false) ∧ len v ≤ maxPropValLen

instance (v : String) : Decidable (Clean v) := inferInstanceAs (Decidable (_ ∧ _))

/-- What the ingest gate demands of a property map. -/
def WithinLimits (ps : Props) : Prop :=
  ps.length ≤ maxPropsEntries ∧ ∀ kv ∈ ps, propKeyRe kv.1 = true ∧ Clean kv.2

instance (ps : Props) : Decidable (WithinLimits ps) := inferInstanceAs (Decidable (_ ∧ _))

private theorem withinLimits_nil : WithinLimits [] := by decide

/-- Every free-form property that the row carries is within the limits. -/
structure Bounded (e : EnrichedEvent) : Prop where
  hitProps : WithinLimits e.hitProps
  sessionProps : WithinLimits e.sessionProps
  userProps : WithinLimits e.userProps
  entries : e.propKeys.length ≤ maxPropsEntries ∧ e.propVals.length ≤ maxPropsEntries
  keys : ∀ k ∈ e.propKeys, propKeyRe k = true
  vals : ∀ v ∈ e.propVals, Clean v

private theorem validate_none {ev : RawEvent} (h : validate ev = none) :
    ev.props.length ≤ maxPropsEntries ∧ ∀ kv ∈ ev.props, propKeyRe kv.1 = true := by
  unfold validate at h
  split at h
  · simp at h
  · split at h
    · simp at h
    · split at h
      · simp at h
      · rename_i hlen
        split at h
        · simp at h
        · rename_i hkeys
          refine ⟨by omega, fun kv hkv => ?_⟩
          by_contra hbad
          exact hkeys (List.any_eq_true.mpr ⟨kv, hkv, by simpa using hbad⟩)

/-- The only map that is validated is `props`. -/
theorem validateAndSanitize_ok {ev raw : RawEvent} (h : validateAndSanitize ev = .ok raw) :
    WithinLimits raw.props ∧ raw.hitProps = ev.hitProps ∧ raw.sessionProps = ev.sessionProps ∧
      raw.userProps = ev.userProps := by
  unfold validateAndSanitize at h
  split at h
  · simp at h
  · rename_i hv
    cases h
    obtain ⟨hlen, hkeys⟩ := validate_none hv
    refine ⟨⟨by simpa [sanitize] using hlen, fun kv hkv => ?_⟩, rfl, rfl, rfl⟩
    obtain ⟨kv', hmem, rfl⟩ := List.mem_map.mp hkv
    exact ⟨hkeys kv' hmem, sanitizeFree_clean _ _, sanitizeFree_len _ _⟩

theorem identityGates_pass_toPayload {cfg : Config} {r : Request} {i siteID : ℕ}
    {policy : SitePolicy} {c : String} {raw raw' : RawEvent}
    (h : identityGates cfg r i siteID policy c raw = .pass raw') :
    raw'.toPayload = { raw.toPayload with userID := "" } := by
  unfold identityGates at h
  split at h
  · simp at h
  · split at h
    · simp at h
    · cases h
      rfl

/-- The gates let the other three maps through untouched. -/
theorem gate_pass_props {cfg : Config} {r : Request} {i : ℕ} {c : String} {ev : Payload}
    {raw : RawEvent} (h : (gate cfg r i c ev).verdict = .pass raw) :
    WithinLimits raw.props ∧ raw.hitProps = ev.hitProps ∧ raw.sessionProps = ev.sessionProps ∧
      raw.userProps = ev.userProps := by
  unfold gate at h
  split at h
  · simp at h
  · rename_i siteID policy _
    split at h
    · simp at h
    · rename_i raw' hv
      have hpass : ∃ c', identityGates cfg r i siteID policy c' raw' = .pass raw := by
        split at h
        · exact ⟨_, h⟩
        · exact ⟨_, h⟩
      obtain ⟨c', hg⟩ := hpass
      have hp := identityGates_pass_toPayload hg
      rw [hp]
      exact validateAndSanitize_ok hv

private theorem flattenProps_bounded {ps : Props} (h : WithinLimits ps) :
    ((flattenProps ps).1.length ≤ maxPropsEntries ∧
        (flattenProps ps).2.length ≤ maxPropsEntries) ∧
      (∀ k ∈ (flattenProps ps).1, propKeyRe k = true) ∧ ∀ v ∈ (flattenProps ps).2, Clean v := by
  refine ⟨by simpa [flattenProps] using h.1, fun k hk => ?_, fun v hv => ?_⟩
  · obtain ⟨kv, hmem, rfl⟩ := List.mem_map.mp hk
    exact (h.2 kv hmem).1
  · obtain ⟨kv, hmem, rfl⟩ := List.mem_map.mp hv
    exact (h.2 kv hmem).2

private theorem row_bounded_iff {φ : Type} (d : Deps φ) (hash : VisitorHash) (isNew : Bool)
    (raw : RawEvent) : Bounded (d.row hash isNew raw) ↔ WithinLimits (mergeHitProps raw) ∧
      WithinLimits raw.sessionProps ∧ WithinLimits raw.userProps := by
  obtain ⟨goal, value, hrow⟩ := row_eq d hash isNew raw
  rw [hrow]
  constructor
  · intro h
    exact ⟨h.hitProps, h.sessionProps, h.userProps⟩
  · rintro ⟨hhit, hsession, huser⟩
    obtain ⟨hentries, hkeys, hvals⟩ := flattenProps_bounded hhit
    exact ⟨hhit, hsession, huser, hentries, hkeys, hvals⟩

/-- The deprecated alias is used only for an empty `hit_props`. -/
theorem mergeHitProps_within_iff {raw : RawEvent} (h : WithinLimits raw.props) :
    WithinLimits (mergeHitProps raw) ↔ WithinLimits raw.hitProps := by
  unfold mergeHitProps
  split
  · rfl
  · rename_i hlen
    have hnil : raw.hitProps = [] := List.length_eq_zero_iff.mp (by omega)
    simp [h, hnil, withinLimits_nil]

/-- A result of the pipeline comes from some state of it. -/
theorem exists_state_of_enriched {π : Type} {cfg : Config} {be : Backend π} {r : Request}
    {i j : ℕ} {c : String} {p : π} {evs : List Payload} {raw : RawEvent}
    {res : Option EnrichedEvent} (h : .enriched j raw res ∈ serveEvents cfg be r i c p evs) :
    ∃ p', (be.enrich j p' raw).1 = res := by
  induction evs generalizing i c p with
  | nil => simp [serveEvents] at h
  | cons ev rest ih =>
    rw [enriched_mem_cons] at h
    cases hv : (gate cfg r i c ev).verdict with
    | unknownHost => simp [hv] at h
    | drop reason =>
      simp only [hv] at h
      exact ih h
    | pass raw' =>
      simp only [hv] at h
      rcases h with ⟨rfl, rfl, rfl⟩ | ⟨-, h⟩
      · exact ⟨p, rfl⟩
      · exact ih h

/-- For every request and every event of it that is appended: all properties of the row are
within the limits exactly when the body's `hit_props`, `session_props` and `user_props`
already were. -/
theorem appended_bounded_iff {φ : Type} (cfg : Config) (d : Deps φ) (clock : ℕ → Clock)
    (appendAndWait : ℕ → EnrichedEvent → Bool) (dec : Decoder) (p : State φ) (r : Request)
    (evs : List Payload) (i siteID : ℕ) (ev : Payload) (e : EnrichedEvent) (ok : Bool)
    (hbody : parseBody dec r.body = .ok evs) (hev : evs[i]? = some ev)
    (happ : .appended i siteID e ok ∈ serve cfg (d.backend clock appendAndWait) dec p r) :
    Bounded e ↔ WithinLimits ev.hitProps ∧ WithinLimits ev.sessionProps ∧
      WithinLimits ev.userProps := by
  obtain ⟨evs', hbody', -, raw, -, hmem⟩ := appended_serve_iff.mp happ
  obtain rfl : evs = evs' := Except.ok.inj (hbody.symm.trans hbody')
  obtain ⟨k, ev', hk, hev', hpass⟩ := enriched_of_mem hmem
  obtain rfl : i = k := by omega
  obtain rfl : ev = ev' := Option.some.inj (hev.symm.trans hev')
  obtain ⟨hprops, hhit, hsession, huser⟩ := gate_pass_props hpass
  obtain ⟨p', hres⟩ := exists_state_of_enriched hmem
  have hok : (d.enrich (clock i) p' raw).1 = .ok e := by
    have hopt : (d.enrich (clock i) p' raw).1.toOption = some e := hres
    cases hr : (d.enrich (clock i) p' raw).1 with
    | error reason => simp [hr, Except.toOption] at hopt
    | ok e' => simpa [hr, Except.toOption] using hopt
  rw [enrich_ok hok, row_bounded_iff, mergeHitProps_within_iff hprops, hhit, hsession, huser]

def scriptInHitProps : Payload := { hostname := "one", hitProps := [("<script>", "x")] }

def scriptDecoder : Decoder := ⟨fun _ => none, fun _ => some scriptInHitProps⟩

/-- The row that the visit leads to. -/
def scriptRow : EnrichedEvent :=
  samplePipeline.row sampleHash true
    { rawEvent sampleConfig sampleVisit 1 {} scriptInHitProps with trackBots := true }

theorem appended_scriptRow : .appended 0 1 scriptRow true ∈
    serve sampleConfig (samplePipeline.backend (fun _ => {}) (fun _ _ => true)) scriptDecoder
      { bits := [] } sampleVisit := by
  decide

theorem appended_bounded_iff_script :
    Bounded scriptRow ↔ WithinLimits scriptInHitProps.hitProps ∧
      WithinLimits scriptInHitProps.sessionProps ∧ WithinLimits scriptInHitProps.userProps :=
  appended_bounded_iff sampleConfig samplePipeline (fun _ => {}) (fun _ _ => true) scriptDecoder
    { bits := [] } sampleVisit [scriptInHitProps] 0 1 scriptInHitProps scriptRow true rfl rfl
    appended_scriptRow

/-- The key `<script>` is stored, in `props` it would have been refused. -/
theorem script_key_stored :
    .appended 0 1 scriptRow true ∈
        serve sampleConfig (samplePipeline.backend (fun _ => {}) (fun _ _ => true)) scriptDecoder
          { bits := [] } sampleVisit ∧
      scriptRow.hitProps = [("<script>", "x")] ∧ ¬ Bounded scriptRow := by
  refine ⟨appended_scriptRow, rfl, fun h => ?_⟩
  have hkey := h.keys "<script>" (by decide)
  revert hkey
  decide

end Statnive.StoredProps
