import Statnive.ConsentOrder

/-!
# Consent actions that fail

What an answer of the consent and opt-out handlers leaves in the browser when its status is an
error, and what becomes of the visitor's next try.
-/

namespace Statnive.FailedConsents

open CookieJar ConsentHandlers PrivacyPolicy VisitorIdentity SuppressionRecord

inductive Endpoint where
  | consent | optOut
  deriving DecidableEq

/-- What the server brings to a request: its sites, the suppression list, a fresh id, the time
and the outcome of the write to the list. -/
structure Attempt where
  sites : SitesResolver
  list : Suppression.State
  uuid : IngestHandler.UUID
  unixAt : Int64
  outcome : Suppression.Outcome

def handle (cfg : Config) (a : Attempt) (r : PrivacyRequest) :
    Endpoint → Response × Suppression.State
  | .consent => consent cfg a.sites a.list r a.uuid a.unixAt a.outcome
  | .optOut => optOut cfg a.sites a.list r a.unixAt a.outcome

/-- The cookies that say who a visitor is and what the visitor has chosen. -/
def Watched (name : String) : Prop :=
  name = cookieName ∨ name = legacyConsentCookieName ∨ name = legacyOptoutCookieName ∨
    ∃ siteID, name = consentCookieName siteID ∨ name = optoutCookieName siteID

/-- The request of a browser that has received the answer. -/
def retry (r : PrivacyRequest) (res : Response) : PrivacyRequest :=
  { r with cookies := Jar.applyAll r.cookies res.cookies }

/-- An error leaves the cookies of the browser, and whatever the server brings to the next try,
it handles it as it would have handled the first one. -/
def UnchangedOnError (cfg : Config) (a : Attempt) (r : PrivacyRequest) (e : Endpoint) : Prop :=
  400 ≤ (handle cfg a r e).1.status →
    (∀ name, Watched name →
      Jar.get (retry r (handle cfg a r e).1).cookies name = Jar.get r.cookies name) ∧
    ∀ a', handle cfg a' (retry r (handle cfg a r e).1) e = handle cfg a' r e

/-- A visitor with an id withdraws consent, and the id does not get on the suppression list. -/
def WithdrawalNotListed (cfg : Config) (a : Attempt) (r : PrivacyRequest) (e : Endpoint) : Prop :=
  e = .consent ∧ r.body.toOption.bind cfg.decodeAction = some "withdraw" ∧
    ∃ siteID v, resolveSiteID a.sites r = .ok siteID ∧ statniveCookie r.toRequest = some v ∧
      (addHash a.list (Hash.ofCookie cfg.key siteID v) a.unixAt a.outcome).1 = false

variable {cfg : Config} {a : Attempt} {r : PrivacyRequest} {e : Endpoint}

theorem not_error : ¬ 400 ≤ 204 := by omega

private theorem withdraw_cookies {siteID : ℕ} {secure : Bool}
    (hstatus : 400 ≤ (withdraw cfg a.list siteID r.toRequest secure a.unixAt a.outcome).1.status)
    (hlisted : ∀ v, statniveCookie r.toRequest = some v →
      (addHash a.list (Hash.ofCookie cfg.key siteID v) a.unixAt a.outcome).1 = true) :
    (withdraw cfg a.list siteID r.toRequest secure a.unixAt a.outcome).1.cookies = [] := by
  rw [withdraw] at hstatus ⊢
  cases hv : statniveCookie r.toRequest with
  | none => rfl
  | some v =>
    have hadd := hlisted v hv
    rw [hv] at hstatus
    dsimp only at hstatus
    generalize addHash a.list (Hash.ofCookie cfg.key siteID v) a.unixAt a.outcome = added
      at hadd hstatus
    obtain ⟨listed, list⟩ := added
    obtain rfl : listed = true := hadd
    exact absurd hstatus not_error

private theorem consent_cookies (hstatus : 400 ≤ (handle cfg a r .consent).1.status)
    (hlisted : ¬ WithdrawalNotListed cfg a r .consent) :
    (handle cfg a r .consent).1.cookies = [] := by
  rw [handle, consent] at hstatus ⊢
  cases hsite : resolveSiteID a.sites r with
  | error status => rfl
  | ok siteID =>
    rw [hsite] at hstatus
    dsimp only at hstatus ⊢
    cases haction : r.body.toOption.bind cfg.decodeAction with
    | none => rfl
    | some action =>
      rw [haction] at hstatus
      dsimp only at hstatus ⊢
      by_cases hgive : action = "give"
      · rw [if_pos hgive] at hstatus
        exact absurd hstatus not_error
      · rw [if_neg hgive] at hstatus ⊢
        by_cases hwithdraw : action = "withdraw"
        · rw [if_pos hwithdraw] at hstatus ⊢
          refine withdraw_cookies hstatus fun v hv => ?_
          by_contra hadd
          exact hlisted ⟨rfl, hwithdraw ▸ haction, siteID, v, hsite, hv,
            Bool.not_eq_true _ ▸ hadd⟩
        · rw [if_neg hwithdraw]

private theorem optOut_cookies (hstatus : 400 ≤ (handle cfg a r .optOut).1.status) :
    (handle cfg a r .optOut).1.cookies = [] := by
  rw [handle, optOut] at hstatus ⊢
  cases hsite : resolveSiteID a.sites r with
  | error status => rfl
  | ok siteID =>
    rw [hsite] at hstatus
    dsimp only at hstatus ⊢
    cases hv : statniveCookie r.toRequest with
    | none =>
      rw [hv] at hstatus
      exact absurd hstatus not_error
    | some v =>
      rw [hv] at hstatus
      dsimp only at hstatus ⊢
      generalize addHash a.list (Hash.ofCookie cfg.key siteID v) a.unixAt a.outcome = added
        at hstatus ⊢
      obtain ⟨listed, list⟩ := added
      cases listed with
      | false => rfl
      | true => exact absurd hstatus not_error

private theorem cookies_of_error (hstatus : 400 ≤ (handle cfg a r e).1.status)
    (hlisted : ¬ WithdrawalNotListed cfg a r e) : (handle cfg a r e).1.cookies = [] := by
  cases e with
  | consent => exact consent_cookies hstatus hlisted
  | optOut => exact optOut_cookies hstatus

/-- A withdrawal that is not listed is answered 500, with the cookies expired. -/
theorem handle_of_notListed (h : WithdrawalNotListed cfg a r e) :
    (handle cfg a r e).1.status = 500 ∧
      Jar.get (retry r (handle cfg a r e).1).cookies cookieName = none := by
  obtain ⟨rfl, haction, siteID, v, hsite, hv, hadd⟩ := h
  have hdistinct : "withdraw" ≠ "give" := by decide
  simp only [handle, consent, hsite, haction, if_neg hdistinct, if_true, withdraw, hv]
  generalize addHash a.list (Hash.ofCookie cfg.key siteID v) a.unixAt a.outcome = added at hadd ⊢
  obtain ⟨listed, list⟩ := added
  obtain rfl : listed = false := hadd
  refine ⟨rfl, ?_⟩
  dsimp only [retry, internalError]
  -- the id is the last of the cookies that are expired
  rw [Jar.applyAll, List.foldl_cons, List.foldl_cons, List.foldl_cons, List.foldl_nil]
  exact (get_apply _ _ _).trans (if_pos rfl)

theorem changed_of_notListed (h : WithdrawalNotListed cfg a r e) :
    ¬ UnchangedOnError cfg a r e := by
  intro hunchanged
  obtain ⟨hstatus, hexpired⟩ := handle_of_notListed h
  have hkept := (hunchanged (by rw [hstatus]; decide)).1 cookieName (.inl rfl)
  obtain ⟨-, -, siteID, v, -, hv, -⟩ := h
  have hheld : r.cookie cookieName = some v := (Option.filter_eq_some_iff.mp hv).1
  exact absurd (hexpired.symm.trans (hkept.trans hheld)) (by simp)

theorem unchangedOnError_iff (cfg : Config) (a : Attempt) (r : PrivacyRequest) (e : Endpoint) :
    UnchangedOnError cfg a r e ↔ ¬ WithdrawalNotListed cfg a r e := by
  constructor
  · exact fun hunchanged h => changed_of_notListed h hunchanged
  · intro hlisted hstatus
    have hretry : retry r (handle cfg a r e).1 = r := by
      rw [retry, cookies_of_error hstatus hlisted]
      rfl
    rw [hretry]
    exact ⟨fun _ _ => rfl, fun _ => rfl⟩

open ConsentOrder (sampleKey oneSite choiceRequest)

def withdrawBody : Bytes := utf8 "\x7b\"action\":\"withdraw\"\x7d"

private theorem sampleSecret_ne : sampleKey.masterSecret ≠ [] := by decide

def sampleHandlers : Config where
  key := sampleKey
  secret_ne := sampleSecret_ne
  decodeAction body := if body = withdrawBody then some "withdraw" else none

def withdrawal : PrivacyRequest :=
  { choiceRequest withdrawBody with cookies := [(cookieName, IngestHandler.sampleUUID)] }

def diskAttempt (outcome : Suppression.Outcome) : Attempt where
  sites := oneSite
  list := { list := some { set := [] } }
  uuid := IngestHandler.sampleUUID
  unixAt := 0
  outcome := outcome

/-- The withdrawal fails for the disk, and the next one for the id that it has taken away. -/
theorem withdrawal_lost :
    (handle sampleHandlers (diskAttempt .unsynced) withdrawal .consent).1.status = 500 ∧
    (handle sampleHandlers (diskAttempt .done)
      (retry withdrawal (handle sampleHandlers (diskAttempt .unsynced) withdrawal .consent).1)
      .consent).1.status = 401 ∧
    ¬ UnchangedOnError sampleHandlers (diskAttempt .unsynced) withdrawal .consent := by
  refine ⟨by decide +kernel, by decide +kernel, changed_of_notListed ?_⟩
  exact ⟨rfl, by decide +kernel, 1, IngestHandler.sampleUUID, rfl, by decide +kernel,
    by decide +kernel⟩

end Statnive.FailedConsents
