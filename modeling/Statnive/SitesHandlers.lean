import Statnive.OriginIndex
import Statnive.AuthGuards
import Statnive.LabelledRuns

/-!
# The admin handlers of sites

Creating a site and patching it, with the rebuilds of the origin index that they trigger.
A request comes with the store calls that fail while it is served.
-/

namespace Statnive.SitesHandlers

open SiteOrigins SiteRegistry OriginIndex LabelledRuns
open AuthGuards (parseSiteID)

structure State where
  rows : List SiteRow
  index : Option OriginMap

/-- Lists are `none` where the body has none. -/
structure CreateSiteRequest where
  hostname : String := ""
  slug : String := ""
  tz : String := ""
  currency : String := ""
  jurisdiction : String := ""
  consentMode : String := ""
  eventAllowlist : Option (List String) := none
  allowedOrigins : Option (List String) := none
  deriving DecidableEq

/-- A field is `none` where the body omits it. -/
structure UpdateSiteRequest where
  enabled : Option Bool := none
  respectDNT : Option Bool := none
  respectGPC : Option Bool := none
  trackBots : Option Bool := none
  currency : Option String := none
  tz : Option String := none
  jurisdiction : Option String := none
  consentMode : Option String := none
  eventAllowlist : Option (List String) := none
  allowedOrigins : Option (List String) := none
  deriving DecidableEq

def rebuildOriginIndex (u : SiteTables) (fails : StoreCall → Bool) (s : State) : State :=
  if fails .rebuild then s
  else { s with index := some (rebuildFromSites u.toLookupProfile (listAdmin s.rows)) }

/-- The first other site that holds one of the proposed origins, or zero. -/
def checkOriginCollision (u : SiteTables) (fails : StoreCall → Bool) (rows : List SiteRow)
    (ignoreID : ℕ) (proposed : List String) : Option ℕ :=
  match proposed.mapM (normalizeOrigin u.toLookupProfile) with
  | none => none
  | some canon =>
    if fails .originCheck then none
    else match (listAdmin rows).find? (fun s => s.siteID ≠ ignoreID && s.allowedOrigins.any
        fun raw => (normalizeOrigin u.toLookupProfile raw).any canon.contains) with
    | some s => some s.siteID
    | none => some 0

/-- The status of the answer, once the site has been read again. -/
def readAgain (fails : StoreCall → Bool) (s : State) (siteID success missing : ℕ) : ℕ :=
  if fails .list then 500
  else if s.rows.any (fun row => row.siteID = siteID) then success else missing

def buildPolicyFromCreateRequest (req : CreateSiteRequest) : Option SitePolicy :=
  if req.jurisdiction = "" && req.allowedOrigins.getD [] = [] then none
  else
    let mode := if req.consentMode = "" && req.jurisdiction ≠ "" then
      derivedConsentMode req.jurisdiction else req.consentMode
    some {
      jurisdiction := req.jurisdiction
      consentMode := mode
      eventAllowlist := req.eventAllowlist
      allowedOrigins := req.allowedOrigins }

def validatePolicy (lookup : LookupProfile) : Option SitePolicy → Except PolicyError Unit
  | none => .ok ()
  | some p => p.validate lookup

/-- The refusal of origins that are another site's. -/
def refuseCollision : Option ℕ → Except ℕ Unit
  | none => .error 500
  | some collidingID => if collidingID ≠ 0 then .error 409 else .ok ()

def checkCreatedOrigins (u : SiteTables) (fails : StoreCall → Bool) (s : State)
    (req : CreateSiteRequest) : Except ℕ Unit :=
  if req.allowedOrigins.getD [] = [] then .ok ()
  else refuseCollision (checkOriginCollision u fails s.rows 0 (req.allowedOrigins.getD []))

def createStatus : RegistryError → ℕ
  | .invalidHostname | .invalidCurrency | .invalidTimezone => 400
  | .hostnameTaken | .slugTaken => 409
  | .unknownHostname | .internal => 500

/-- The policy of the request, written once the row is there. -/
def writeCreatedPolicy (u : SiteTables) (fails : StoreCall → Bool) (s : State) (siteID : ℕ)
    (policy : Option SitePolicy) : Except ℕ State :=
  match policy with
  | none => .ok s
  | some p => match updateSitePolicy u s.rows fails siteID p with
    | .error _ => .error 500
    | .ok rows => .ok (rebuildOriginIndex u fails { s with rows := rows })

def create (u : SiteTables) (fails : StoreCall → Bool) (s : State) (req : CreateSiteRequest) :
    State × ℕ :=
  match validatePolicy u.toLookupProfile (buildPolicyFromCreateRequest req) with
  | .error _ => (s, 400)
  | .ok () => match checkCreatedOrigins u fails s req with
    | .error status => (s, status)
    | .ok () =>
      match createSite u s.rows fails (u.lowerString (IngestHandler.trimSpace req.hostname))
          req.slug req.tz req.currency with
      | .error err => (s, createStatus err)
      | .ok row =>
        let inserted : State := { s with rows := s.rows ++ [row] }
        match writeCreatedPolicy u fails inserted row.siteID (buildPolicyFromCreateRequest req) with
        | .error status => (inserted, status)
        | .ok t => (t, readAgain fails t row.siteID 201 500)

def UpdateSiteRequest.hasPolicy (req : UpdateSiteRequest) : Bool :=
  req.respectDNT.isSome || req.respectGPC.isSome || req.trackBots.isSome ||
    req.jurisdiction.isSome || req.consentMode.isSome || req.eventAllowlist.isSome ||
    req.allowedOrigins.isSome

/-- The stored policy with the fields of the request in its place. -/
def mergedPolicy (row : SiteRow) (req : UpdateSiteRequest) : SitePolicy where
  respectDNT := req.respectDNT.getD row.policy.respectDNT
  respectGPC := req.respectGPC.getD row.policy.respectGPC
  trackBots := req.trackBots.getD row.policy.trackBots
  jurisdiction := req.jurisdiction.getD row.policy.jurisdiction
  consentMode := req.consentMode.getD row.policy.consentMode
  eventAllowlist := req.eventAllowlist.or row.policy.eventAllowlist
  allowedOrigins := req.allowedOrigins.or row.policy.allowedOrigins

/-- The collision check of a patch, which it makes only for origins of its own. -/
def checkPatchedOrigins (u : SiteTables) (fails : StoreCall → Bool) (s : State) (siteID : ℕ)
    (req : UpdateSiteRequest) : Except ℕ Unit :=
  match req.allowedOrigins with
  | none => .ok ()
  | some origins => refuseCollision (checkOriginCollision u fails s.rows siteID origins)

def applyPolicyPatch (u : SiteTables) (fails : StoreCall → Bool) (s : State) (siteID : ℕ)
    (req : UpdateSiteRequest) : Except ℕ State :=
  if !req.hasPolicy then .ok s
  else match lookupSiteByID s.rows fails siteID with
  | none => .error 404
  | some current =>
    let policy := mergedPolicy current req
    match policy.validate u.toLookupProfile with
    | .error _ => .error 400
    | .ok () => match checkPatchedOrigins u fails s siteID req with
      | .error status => .error status
      | .ok () => match updateSitePolicy u s.rows fails siteID policy with
        | .error _ => .error 500
        | .ok rows =>
          let t : State := { s with rows := rows }
          .ok (if req.allowedOrigins.isSome then rebuildOriginIndex u fails t else t)

def attributesStatus : RegistryError → ℕ
  | .unknownHostname => 404
  | .invalidCurrency | .invalidTimezone => 400
  | _ => 500

def applyAttributesPatch (fails : StoreCall → Bool) (s : State) (siteID : ℕ)
    (req : UpdateSiteRequest) : Except ℕ State :=
  if req.currency = none && req.tz = none then .ok s
  else match updateSiteAttributes s.rows fails siteID req.currency req.tz with
  | .error err => .error (attributesStatus err)
  | .ok rows => .ok { s with rows := rows }

def enabledStatus : RegistryError → ℕ
  | .unknownHostname => 404
  | _ => 500

def applyEnabledPatch (fails : StoreCall → Bool) (s : State) (siteID : ℕ)
    (req : UpdateSiteRequest) : Except ℕ State :=
  match req.enabled with
  | none => .ok s
  | some enabled => match updateSiteEnabled s.rows fails siteID enabled with
    | .error err => .error (enabledStatus err)
    | .ok rows => .ok { s with rows := rows }

/-- Each part is written before the next one is checked. -/
def updateSite (u : SiteTables) (fails : StoreCall → Bool) (s : State) (siteID : ℕ)
    (req : UpdateSiteRequest) : State × ℕ :=
  match applyPolicyPatch u fails s siteID req with
  | .error status => (s, status)
  | .ok s₁ => match applyAttributesPatch fails s₁ siteID req with
    | .error status => (s₁, status)
    | .ok s₂ => match applyEnabledPatch fails s₂ siteID req with
      | .error status => (s₂, status)
      | .ok s₃ => (s₃, readAgain fails s₃ siteID 200 404)

/-- A body is `none` where it does not decode; `reload` is the rebuild on SIGHUP. -/
inductive Request where
  | create (body : Option CreateSiteRequest)
  | update (siteIDParam : String) (body : Option UpdateSiteRequest)
  | reload

structure Served where
  request : Request
  fails : StoreCall → Bool

/-- Every call of the store is answered. -/
def answered : StoreCall → Bool := fun _ => false

def handle (u : SiteTables) (s : State) (r : Served) : State × ℕ :=
  match r.request with
  | .create none => (s, 400)
  | .create (some req) => create u r.fails s req
  | .update siteIDParam body => match parseSiteID siteIDParam, body with
    | some siteID, some req => updateSite u r.fails s siteID req
    | _, _ => (s, 400)
  | .reload => (rebuildOriginIndex u r.fails s, 200)

def step (u : SiteTables) (s : State) (r : Served) : Option State := some (handle u s r).1

/-- Every request is answered. -/
theorem exec_step (u : SiteTables) (s : State) (es : List Served) :
    ∃ t, exec (step u) s es = some t := by
  induction es generalizing s with
  | nil => exact ⟨s, rfl⟩
  | cons e es ih => exact ih (handle u s e).1

variable {u : SiteTables} {fails : StoreCall → Bool} {s t : State} {siteID : ℕ}

def State.alter (s : State) (siteID : ℕ) (f : SiteRow → SiteRow) : State :=
  { s with rows := alterUpdate s.rows siteID f }

theorem alter_id (s : State) (siteID : ℕ) {f : SiteRow → SiteRow} (h : ∀ row, f row = row) :
    s.alter siteID f = s := by
  rw [State.alter, alterUpdate_id _ _ fun row _ _ => h row]

@[simp] theorem alter_self (s : State) (siteID : ℕ) : s.alter siteID (fun row => row) = s :=
  alter_id s siteID fun _ => rfl

private theorem alter_alter (s : State) (siteID : ℕ) {f g : SiteRow → SiteRow}
    (hf : ∀ row, (f row).siteID = row.siteID) :
    (s.alter siteID f).alter siteID g = s.alter siteID (g ∘ f) := by
  rw [State.alter, State.alter, State.alter, alterUpdate_comp _ _ hf]

/-- The state after the write of a normalised policy. -/
def withPolicy (u : SiteTables) (fails : StoreCall → Bool) (s : State) (siteID : ℕ) (p : SitePolicy)
    (rebuilt : Bool) : State :=
  let t := s.alter siteID (·.withPolicy p)
  if rebuilt then rebuildOriginIndex u fails t else t

theorem rebuildOriginIndex_rows (u : SiteTables) (fails : StoreCall → Bool) (s : State) :
    (rebuildOriginIndex u fails s).rows = s.rows := by
  unfold rebuildOriginIndex
  split <;> rfl

theorem withPolicy_rows (u : SiteTables) (fails : StoreCall → Bool) (s : State) (siteID : ℕ)
    (p : SitePolicy) (rebuilt : Bool) : (withPolicy u fails s siteID p rebuilt).rows =
      alterUpdate s.rows siteID (·.withPolicy p) := by
  cases rebuilt with
  | false => rfl
  | true => exact rebuildOriginIndex_rows u fails _

/-- The checks that a patch passes before its policy `p` is written over `current`, but for
the one that compares its origins with those of other sites. -/
structure PolicyChecks (u : SiteTables) (fails : StoreCall → Bool) (s : State) (siteID : ℕ)
    (req : UpdateSiteRequest) (current : SiteRow) (p : SitePolicy) : Prop where
  hasPolicy : req.hasPolicy = true
  found : lookupSiteByID s.rows fails siteID = some current
  valid : (mergedPolicy current req).validate u.toLookupProfile = .ok ()
  normalized : (mergedPolicy current req).normalized u.toLookupProfile = some p
  answered : fails .policy = false

structure PolicyWrite (u : SiteTables) (fails : StoreCall → Bool) (s : State) (siteID : ℕ)
    (req : UpdateSiteRequest) (current : SiteRow) (p : SitePolicy) : Prop
    extends PolicyChecks u fails s siteID req current p where
  noCollision : checkPatchedOrigins u fails s siteID req = .ok ()

theorem PolicyWrite.apply {req : UpdateSiteRequest} {current : SiteRow} {p : SitePolicy}
    (h : PolicyWrite u fails s siteID req current p) : applyPolicyPatch u fails s siteID req =
      .ok (withPolicy u fails s siteID p req.allowedOrigins.isSome) := by
  obtain ⟨hid, hmem, heq⟩ := lookupSiteByID_some h.found
  have hup : updateSitePolicy u s.rows fails siteID (mergedPolicy current req) =
      .ok (alterUpdate s.rows siteID (·.withPolicy p)) :=
    updateSitePolicy_eq hid ⟨current, hmem, heq⟩ h.normalized h.answered
  simp [applyPolicyPatch, h.hasPolicy, h.found, h.valid, h.noCollision, hup, withPolicy, State.alter]

theorem applyPolicyPatch_ok {req : UpdateSiteRequest}
    (h : applyPolicyPatch u fails s siteID req = .ok t) :
    (req.hasPolicy = false ∧ t = s) ∨ ∃ current p, PolicyWrite u fails s siteID req current p ∧
      t = withPolicy u fails s siteID p req.allowedOrigins.isSome := by
  cases hpol : req.hasPolicy with
  | false => exact .inl ⟨rfl, by simpa [applyPolicyPatch, hpol] using h.symm⟩
  | true =>
    right
    cases hlook : lookupSiteByID s.rows fails siteID with
    | none => simp [applyPolicyPatch, hpol, hlook] at h
    | some current =>
      cases hval : (mergedPolicy current req).validate u.toLookupProfile with
      | error e => simp [applyPolicyPatch, hpol, hlook, hval] at h
      | ok _ =>
        cases hcol : checkPatchedOrigins u fails s siteID req with
        | error e => simp [applyPolicyPatch, hpol, hlook, hval, hcol] at h
        | ok _ =>
          cases hup : updateSitePolicy u s.rows fails siteID (mergedPolicy current req) with
          | error e => simp [applyPolicyPatch, hpol, hlook, hval, hcol, hup] at h
          | ok rows =>
            obtain ⟨-, -, hans, p, hnorm, rfl⟩ := updateSitePolicy_ok hup
            refine ⟨current, p, ⟨⟨hpol, hlook, hval, hnorm, hans⟩, hcol⟩, ?_⟩
            simp only [applyPolicyPatch, hpol, hlook, hval, hcol, hup] at h
            exact (Except.ok.inj h).symm

/-- A currency or a time zone that the allow-lists do not have. -/
def badAttributes (req : UpdateSiteRequest) : Bool :=
  req.currency.any (fun c => !isValidCurrency c) || req.tz.any (fun z => !isValidTimezone z)

theorem applyAttributesPatch_ok {req : UpdateSiteRequest}
    (h : applyAttributesPatch fails s siteID req = .ok t) : badAttributes req = false ∧
      t = s.alter siteID (·.withAttributes req.currency req.tz) := by
  unfold applyAttributesPatch at h
  split at h
  · next hnone =>
    simp only [Bool.and_eq_true, decide_eq_true_eq] at hnone
    refine ⟨by simp [badAttributes, hnone], ?_⟩
    rw [hnone.1, hnone.2, alter_id s siteID withAttributes_none]
    exact (Except.ok.inj h).symm
  · next hsome =>
    cases hup : updateSiteAttributes s.rows fails siteID req.currency req.tz with
    | error e => simp [hup] at h
    | ok rows =>
      simp only [hup, Except.ok.injEq] at h
      unfold updateSiteAttributes at hup
      rw [if_neg hsome] at hup
      split at hup
      · simp at hup
      split at hup
      · simp at hup
      split at hup
      · simp at hup
      next hc hz =>
        obtain ⟨-, -, rfl⟩ := updateRows_ok hup
        exact ⟨by simpa [badAttributes] using And.intro hc hz, h.symm⟩

theorem applyEnabledPatch_ok {req : UpdateSiteRequest}
    (h : applyEnabledPatch fails s siteID req = .ok t) :
    (req.enabled = none ∨ fails .enabled = false) ∧
      t = s.alter siteID (·.withEnabled req.enabled) := by
  cases hen : req.enabled with
  | none =>
    rw [alter_id s siteID withEnabled_none]
    exact ⟨.inl rfl, by simpa [applyEnabledPatch, hen] using h.symm⟩
  | some enabled =>
    cases hup : updateSiteEnabled s.rows fails siteID enabled with
    | error e => simp [applyEnabledPatch, hen, hup] at h
    | ok rows =>
      simp only [applyEnabledPatch, hen, hup, Except.ok.injEq] at h
      unfold updateSiteEnabled at hup
      split at hup
      · simp at hup
      · obtain ⟨hans, -, rfl⟩ := updateRows_ok hup
        exact ⟨.inr hans, h.symm⟩

/-- The parts of a patch before its flag are carried out and lead to `s₁`, but for the
attributes, and the flag is written. -/
structure FlagWrite (u : SiteTables) (fails : StoreCall → Bool) (s : State) (siteID : ℕ)
    (req : UpdateSiteRequest) (s₁ : State) : Prop where
  policy : applyPolicyPatch u fails s siteID req = .ok s₁
  attributes : badAttributes req = false
  answered : fails .enabled = false

/-- What a patch leaves once its policy part is done: `s₁` with the parts that follow, of
which `none` stands for one that is absent or was not reached. -/
theorem updateSite_cases (u : SiteTables) (fails : StoreCall → Bool) (s : State) (siteID : ℕ)
    (req : UpdateSiteRequest) : ∃ s₁ currency tz enabled,
      ((s₁ = s ∧ ∀ current p, ¬ PolicyWrite u fails s siteID req current p) ∨
        ∃ current p, PolicyWrite u fails s siteID req current p ∧
          s₁ = withPolicy u fails s siteID p req.allowedOrigins.isSome) ∧
      (enabled = none ∨ enabled = req.enabled ∧ FlagWrite u fails s siteID req s₁) ∧
      (updateSite u fails s siteID req).1 =
        s₁.alter siteID fun row => (row.withAttributes currency tz).withEnabled enabled := by
  have hnone (s₁ : State) :
      s₁ = s₁.alter siteID fun row => (row.withAttributes none none).withEnabled none :=
    (alter_id s₁ siteID fun row => rfl).symm
  cases hpol : applyPolicyPatch u fails s siteID req with
  | error status =>
    have hno (current : SiteRow) (p : SitePolicy) :
        ¬ PolicyWrite u fails s siteID req current p := fun hw => by simp [hw.apply] at hpol
    refine ⟨s, none, none, none, .inl ⟨rfl, hno⟩, .inl rfl, ?_⟩
    simp only [updateSite, hpol]
    exact hnone s
  | ok s₁ =>
    have hs₁ : (s₁ = s ∧ ∀ current p, ¬ PolicyWrite u fails s siteID req current p) ∨
        ∃ current p, PolicyWrite u fails s siteID req current p ∧
          s₁ = withPolicy u fails s siteID p req.allowedOrigins.isSome :=
      (applyPolicyPatch_ok hpol).imp (fun h => ⟨h.2, fun _ _ hw => by simp [hw.hasPolicy] at h⟩) id
    cases hatt : applyAttributesPatch fails s₁ siteID req with
    | error status =>
      refine ⟨s₁, none, none, none, hs₁, .inl rfl, ?_⟩
      simp only [updateSite, hpol, hatt]
      exact hnone s₁
    | ok s₂ =>
      obtain ⟨hgood, rfl⟩ := applyAttributesPatch_ok hatt
      cases hen : applyEnabledPatch fails
          (s₁.alter siteID (·.withAttributes req.currency req.tz)) siteID req with
      | error status =>
        refine ⟨s₁, req.currency, req.tz, none, hs₁, .inl rfl, ?_⟩
        simp only [updateSite, hpol, hatt, hen, withEnabled_none]
      | ok s₃ =>
        obtain ⟨hans, rfl⟩ := applyEnabledPatch_ok hen
        have hflag : req.enabled = none ∨
            req.enabled = req.enabled ∧ FlagWrite u fails s siteID req s₁ :=
          hans.imp id fun hans => ⟨rfl, hpol, hgood, hans⟩
        refine ⟨s₁, req.currency, req.tz, req.enabled, hs₁, hflag, ?_⟩
        simp only [updateSite, hpol, hatt, hen]
        exact alter_alter s₁ siteID fun row => rfl

def State.insert (s : State) (row : SiteRow) : State := { s with rows := s.rows ++ [row] }

/-- The checks that a create passes before its row is inserted, but for the one that
compares its origins with those of other sites. -/
structure RowChecks (u : SiteTables) (fails : StoreCall → Bool) (s : State) (req : CreateSiteRequest)
    (row : SiteRow) : Prop where
  validated : validatePolicy u.toLookupProfile (buildPolicyFromCreateRequest req) = .ok ()
  created : createSite u s.rows fails (u.lowerString (IngestHandler.trimSpace req.hostname))
    req.slug req.tz req.currency = .ok row

structure RowInsert (u : SiteTables) (fails : StoreCall → Bool) (s : State) (req : CreateSiteRequest)
    (row : SiteRow) : Prop extends RowChecks u fails s req row where
  noCollision : checkCreatedOrigins u fails s req = .ok ()

/-- The policy `p` of a create is written over its row. -/
structure CreatedPolicy (u : SiteTables) (fails : StoreCall → Bool) (req : CreateSiteRequest)
    (row : SiteRow) (policy p : SitePolicy) : Prop where
  built : buildPolicyFromCreateRequest req = some policy
  valid : policy.validate u.toLookupProfile = .ok ()
  siteID_ne : row.siteID ≠ 0
  normalized : policy.normalized u.toLookupProfile = some p
  answered : fails .policy = false

/-- What a create leaves: nothing new, the inserted row, or the row with its policy. -/
theorem create_cases (u : SiteTables) (fails : StoreCall → Bool) (s : State)
    (req : CreateSiteRequest) :
    ((create u fails s req).1 = s ∧ ∀ row, ¬ RowInsert u fails s req row) ∨
      ∃ row, RowInsert u fails s req row ∧
        (((create u fails s req).1 = s.insert row ∧
            ∀ policy p, ¬ CreatedPolicy u fails req row policy p) ∨
          ∃ policy p, CreatedPolicy u fails req row policy p ∧
            (create u fails s req).1 = withPolicy u fails (s.insert row) row.siteID p true) := by
  cases hval : validatePolicy u.toLookupProfile (buildPolicyFromCreateRequest req) with
  | error err =>
    exact .inl ⟨by simp [create, hval], fun row h => by simp [h.validated] at hval⟩
  | ok _ =>
    cases hcol : checkCreatedOrigins u fails s req with
    | error status =>
      exact .inl ⟨by simp [create, hval, hcol], fun row h => by simp [h.noCollision] at hcol⟩
    | ok _ =>
      cases hrow : createSite u s.rows fails (u.lowerString (IngestHandler.trimSpace req.hostname))
          req.slug req.tz req.currency with
      | error err =>
        exact .inl ⟨by simp [create, hval, hcol, hrow], fun row h => by simp [h.created] at hrow⟩
      | ok row =>
        refine .inr ⟨row, ⟨⟨hval, hrow⟩, hcol⟩, ?_⟩
        cases hbuild : buildPolicyFromCreateRequest req with
        | none =>
          refine .inl ⟨?_, fun policy p h => by simp [h.built] at hbuild⟩
          simp [create, hcol, hrow, hbuild, validatePolicy, writeCreatedPolicy, State.insert]
        | some policy =>
          have hpol : policy.validate u.toLookupProfile = .ok () := by
            simpa [hbuild, validatePolicy] using hval
          cases hup : updateSitePolicy u (s.insert row).rows fails row.siteID policy with
          | error err =>
            refine .inl ⟨?_, fun policy' p h => ?_⟩
            · simp only [State.insert] at hup
              simp [create, hcol, hrow, hbuild, validatePolicy, hpol, writeCreatedPolicy,
                State.insert, hup]
            · obtain rfl : policy = policy' := Option.some.inj (hbuild.symm.trans h.built)
              have hex : ∃ r ∈ (s.insert row).rows, r.siteID = row.siteID :=
                ⟨row, by simp [State.insert], rfl⟩
              have heq := updateSitePolicy_eq h.siteID_ne hex h.normalized h.answered
              simp [heq] at hup
          | ok rows =>
            obtain ⟨hid, -, hans, p, hnorm, rfl⟩ := updateSitePolicy_ok hup
            refine .inr ⟨policy, p, ⟨hbuild, hpol, hid, hnorm, hans⟩, ?_⟩
            simp only [State.insert] at hup
            simp [create, hcol, hrow, hbuild, validatePolicy, hpol, writeCreatedPolicy,
              State.insert, hup, withPolicy, State.alter]

end Statnive.SitesHandlers
