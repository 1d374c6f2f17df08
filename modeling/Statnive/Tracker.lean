import Mathlib.Data.Int.Notation
import Mathlib.Logic.Function.Basic
import Statnive.LabelledRuns

/-!
# The tracker in the tabs of a browser

All tabs share the cookies, and each has a session storage. A call of the consent API writes them
once its response arrives, unless the page of the call has gone. Values in storage and events are
stamped with the step at which they were made.
-/

namespace Statnive.Tracker

open LabelledRuns

variable {V : Type*}

inductive ConsentAction where
  | give | withdraw
  deriving DecidableEq

structure Stored (V : Type*) where
  value : V
  since : ℕ
  deriving DecidableEq

/-- `sessProps` is under `sn_sess_props`, the other fields are of the page. -/
structure Tab (V : Type*) where
  userId : String := ""
  pageviewed : Bool := false
  sessProps : Option (Stored V) := none

structure Call where
  tab : ℕ
  action : ConsentAction
  madeAt : ℕ
  deriving DecidableEq

structure Answer where
  call : Call
  arrivedAt : ℕ
  deriving DecidableEq

/-- What an event says of its page is left out. -/
structure Event (V : Type*) where
  tab : ℕ
  name : String
  value : ℤ
  userId : String
  hitProps : Option V
  sessionProps : Option (Stored V)
  userProps : Option (Stored V)
  consent : String
  firedAt : ℕ
  deriving DecidableEq

/-- The cookies are `sn_consent`, empty where there is none, and `sn_user_props`. `answers` are
successful responses, and `missed` is set by one that is not or that finds its page gone. -/
structure State (V : Type*) where
  consentCookie : String
  userPropsCookie : Option (Stored V)
  tabs : ℕ → Tab V
  pending : List Call := []
  answers : List Answer := []
  missed : Bool := false
  lastCall : Option ConsentAction := none
  events : List (Event V) := []
  clock : ℕ := 0

/-- Properties are none where they are falsy or have no JSON. -/
inductive Action (V : Type*) where
  | load (tab : ℕ)
  | navigate (tab : ℕ)
  | pagehide (tab : ℕ)
  | track (tab : ℕ) (name : String) (hitProps : Option V) (value : ℤ)
  | identify (tab : ℕ) (uid : String) (userProps : Option V)
  | setSession (tab : ℕ) (sessProps : Option V)
  | acceptConsent (tab : ℕ)
  | withdrawConsent (tab : ℕ)
  | respond (i : ℕ) (ok : Bool)

def resolved : String := "resolved"

def withdrawn : String := "withdrawn"

def State.getConsent (s : State V) : String := if s.consentCookie = "" then "idle" else s.consentCookie

def State.setTab (s : State V) (tab : ℕ) (f : Tab V → Tab V) : State V :=
  { s with tabs := Function.update s.tabs tab (f (s.tabs tab)) }

def fire (s : State V) (tab : ℕ) (name : String) (hitProps : Option V) (value : ℤ) : State V :=
  { s with
    events := s.events ++ [{
      tab := tab
      name := name
      value := value
      userId := (s.tabs tab).userId
      hitProps := hitProps
      sessionProps := if s.getConsent = resolved then (s.tabs tab).sessProps else none
      userProps := if s.getConsent = resolved then s.userPropsCookie else none
      consent := s.getConsent
      firedAt := s.clock }] }

def pageview (s : State V) (tab : ℕ) : State V :=
  if (s.tabs tab).pageviewed then s
  else fire (s.setTab tab fun p => { p with pageviewed := true }) tab "pageview" none 0

def refresh (s : State V) (tab : ℕ) : State V :=
  pageview (s.setTab tab fun p => { p with pageviewed := false }) tab

def consent (s : State V) (tab : ℕ) (action : ConsentAction) : State V :=
  { s with
    pending := s.pending ++ [⟨tab, action, s.clock⟩]
    lastCall := some action }

/-- The calls of a page that goes are not heard of again. -/
def unload (s : State V) (tab : ℕ) : State V :=
  { s.setTab tab fun p => { p with userId := "" } with
    pending := s.pending.filter fun call => call.tab ≠ tab
    missed := s.missed || s.pending.any fun call => call.tab = tab }

def load (s : State V) (tab : ℕ) : State V := refresh (unload s tab) tab

/-- The continuation of a call on its response. -/
def respond (s : State V) (call : Call) (ok : Bool) : State V :=
  if ok then
    match call.action with
    | .give => { s with
        consentCookie := resolved
        answers := s.answers ++ [⟨call, s.clock⟩] }
    | .withdraw => { s.setTab call.tab fun p => { p with sessProps := none } with
        consentCookie := withdrawn
        userPropsCookie := none
        answers := s.answers ++ [⟨call, s.clock⟩] }
  else { s with missed := true }

def act (s : State V) : Action V → Option (State V)
  | .load tab => some (load s tab)
  | .navigate tab => some (refresh s tab)
  | .pagehide tab => some (pageview s tab)
  | .track tab name hitProps value => some (fire s tab name hitProps value)
  | .identify tab uid userProps =>
    let s' := s.setTab tab fun p => { p with userId := uid }
    match userProps with
    | some props => some (if s.getConsent = resolved then
        { s' with userPropsCookie := some ⟨props, s.clock⟩ } else s')
    | none => some s'
  | .setSession tab sessProps => match sessProps with
    | some props => some (if s.getConsent = resolved then
        s.setTab tab fun p => { p with sessProps := some ⟨props, s.clock⟩ } else s)
    | none => some s
  | .acceptConsent tab => some (consent s tab .give)
  | .withdrawConsent tab => some (consent s tab .withdraw)
  | .respond i ok => (s.pending[i]?).map fun call =>
    respond { s with pending := s.pending.eraseIdx i } call ok

def step (s : State V) (a : Action V) : Option (State V) :=
  (act s a).map fun t => { t with clock := s.clock + 1 }

/-- A browser with what it has stored before. -/
def start (consentCookie : String) (userProps : Option V) (sessProps : ℕ → Option V) : State V where
  consentCookie := consentCookie
  userPropsCookie := userProps.map fun props => ⟨props, 0⟩
  tabs := fun tab => { sessProps := (sessProps tab).map fun props => ⟨props, 0⟩ }
  clock := 1

/-- The tab in which an action fires an event. -/
def Action.firesIn (s : State V) : Action V → Option ℕ
  | .load tab | .navigate tab | .track tab _ _ _ => some tab
  | .pagehide tab => if (s.tabs tab).pageviewed then none else some tab
  | _ => none

private theorem setTab_sessProps (s : State V) (tab other : ℕ) {f : Tab V → Tab V}
    (hf : ∀ p, (f p).sessProps = p.sessProps) :
    ((s.setTab tab f).tabs other).sessProps = (s.tabs other).sessProps := by
  by_cases h : other = tab
  · subst h
    simp [State.setTab, hf]
  · simp [State.setTab, h]

/-- What is stored, and what has been answered, stays as it is. -/
structure SameStorage (s t : State V) : Prop where
  consentCookie : t.consentCookie = s.consentCookie
  userProps : t.userPropsCookie = s.userPropsCookie
  sessProps : ∀ tab, (t.tabs tab).sessProps = (s.tabs tab).sessProps
  answers : t.answers = s.answers
  clock : t.clock = s.clock

theorem SameStorage.trans {s t u : State V} (h : SameStorage s t) (h' : SameStorage t u) :
    SameStorage s u :=
  ⟨h'.consentCookie.trans h.consentCookie, h'.userProps.trans h.userProps,
    fun tab => (h'.sessProps tab).trans (h.sessProps tab), h'.answers.trans h.answers,
    h'.clock.trans h.clock⟩

theorem sameStorage_setTab (s : State V) (tab : ℕ) {f : Tab V → Tab V}
    (hf : ∀ p, (f p).sessProps = p.sessProps) : SameStorage s (s.setTab tab f) :=
  ⟨rfl, rfl, fun other => setTab_sessProps s tab other hf, rfl, rfl⟩

/-- The event that is sent from a tab, with what is stored. -/
structure Sent (s : State V) (tab : ℕ) (e : Event V) : Prop where
  consent : e.consent = s.getConsent
  firedAt : e.firedAt = s.clock
  sessionProps : e.sessionProps =
    if s.getConsent = resolved then (s.tabs tab).sessProps else none
  userProps : e.userProps = if s.getConsent = resolved then s.userPropsCookie else none

structure Fires (s t : State V) (tab : ℕ) : Prop extends SameStorage s t where
  event : ∃ e, t.events = s.events ++ [e] ∧ Sent s tab e

theorem SameStorage.getConsent {s t : State V} (h : SameStorage s t) :
    t.getConsent = s.getConsent := by
  rw [State.getConsent, h.consentCookie, State.getConsent]

theorem fires_fire (s : State V) (tab : ℕ) (name : String) (hitProps : Option V) (value : ℤ) :
    Fires s (fire s tab name hitProps value) tab :=
  ⟨⟨rfl, rfl, fun _ => rfl, rfl, rfl⟩, _, rfl, rfl, rfl, rfl, rfl⟩

/-- What comes before an event on the same storage does not show in it. -/
theorem Fires.after {s t u : State V} {tab : ℕ} (hsame : SameStorage s t)
    (hevents : t.events = s.events) (h : Fires t u tab) : Fires s u tab := by
  obtain ⟨e, he, hsent⟩ := h.event
  refine ⟨hsame.trans h.toSameStorage, e, by rw [he, hevents], ?_⟩
  have hconsent := hsame.getConsent
  refine ⟨hsent.consent.trans hconsent, hsent.firedAt.trans hsame.clock, ?_, ?_⟩
  · rw [hsent.sessionProps, hconsent, hsame.sessProps]
  · rw [hsent.userProps, hconsent, hsame.userProps]

theorem fires_pageview {s : State V} {tab : ℕ} (h : (s.tabs tab).pageviewed = false) :
    Fires s (pageview s tab) tab := by
  have hsame : SameStorage s (s.setTab tab fun p => { p with pageviewed := true }) :=
    sameStorage_setTab s tab fun _ => rfl
  rw [pageview, if_neg (by simp [h])]
  exact (fires_fire _ tab _ _ _).after hsame rfl

theorem fires_refresh (s : State V) (tab : ℕ) : Fires s (refresh s tab) tab := by
  have hsame : SameStorage s (s.setTab tab fun p => { p with pageviewed := false }) :=
    sameStorage_setTab s tab fun _ => rfl
  apply Fires.after hsame rfl
  apply fires_pageview
  simp [State.setTab]

private theorem fires_load (s : State V) (tab : ℕ) : Fires s (load s tab) tab := by
  have htab : SameStorage s (s.setTab tab fun p => { p with userId := "" }) :=
    sameStorage_setTab s tab fun _ => rfl
  have hsame : SameStorage s (unload s tab) := ⟨rfl, rfl, htab.sessProps, rfl, rfl⟩
  exact (fires_refresh (unload s tab) tab).after hsame rfl

/-- An action that fires does nothing else to the storage. -/
theorem act_fires {s t : State V} {a : Action V} {tab : ℕ} (h : act s a = some t)
    (hfires : a.firesIn s = some tab) : Fires s t tab := by
  cases a with
  | load other =>
    obtain rfl := Option.some.inj hfires
    exact Option.some.inj h ▸ fires_load s other
  | navigate other =>
    obtain rfl := Option.some.inj hfires
    exact Option.some.inj h ▸ fires_refresh s other
  | track other name hitProps value =>
    obtain rfl := Option.some.inj hfires
    exact Option.some.inj h ▸ fires_fire s other name hitProps value
  | pagehide other =>
    simp only [Action.firesIn] at hfires
    split_ifs at hfires with hviewed
    obtain rfl := Option.some.inj hfires
    exact Option.some.inj h ▸ fires_pageview (by simpa using hviewed)
  | identify | setSession | acceptConsent | withdrawConsent | respond => simp [Action.firesIn] at hfires

/-- What the other actions do to the storage. -/
inductive Quiet (s : State V) : State V → Prop where
  | same {t : State V} (storage : SameStorage s t) (events : t.events = s.events) : Quiet s t
  | user {t : State V} (props : V) (storage : SameStorage s { t with
      userPropsCookie := s.userPropsCookie })
      (userProps : t.userPropsCookie = some ⟨props, s.clock⟩) (events : t.events = s.events) :
      Quiet s t
  | session (tab : ℕ) (props : V) :
      Quiet s (s.setTab tab fun p => { p with sessProps := some ⟨props, s.clock⟩ })
  | answer (call : Call) (mem : call ∈ s.pending) (i : ℕ) :
      Quiet s (respond { s with pending := s.pending.eraseIdx i } call true)

theorem act_quiet {s t : State V} {a : Action V} (h : act s a = some t)
    (hfires : a.firesIn s = none) : Quiet s t := by
  cases a with
  | load | navigate | track => simp [Action.firesIn] at hfires
  | pagehide tab =>
    simp only [Action.firesIn] at hfires
    split_ifs at hfires with hviewed
    obtain rfl : s = t := by simpa [act, pageview, hviewed] using h
    exact .same ⟨rfl, rfl, fun _ => rfl, rfl, rfl⟩ rfl
  | identify tab uid userProps =>
    have hsame := sameStorage_setTab s tab (f := fun p => { p with userId := uid }) fun _ => rfl
    cases userProps with
    | none => exact Option.some.inj h ▸ .same hsame rfl
    | some props =>
      by_cases hresolved : s.getConsent = resolved
      · obtain rfl : { s.setTab tab fun p => { p with userId := uid } with
            userPropsCookie := some ⟨props, s.clock⟩ } = t := by simpa [act, hresolved] using h
        exact .user props hsame rfl rfl
      · obtain rfl : s.setTab tab (fun p => { p with userId := uid }) = t := by
          simpa [act, hresolved] using h
        exact .same hsame rfl
  | setSession tab sessProps => cases sessProps with
    | none => exact Option.some.inj h ▸ .same ⟨rfl, rfl, fun _ => rfl, rfl, rfl⟩ rfl
    | some props =>
      by_cases hresolved : s.getConsent = resolved
      · obtain rfl : s.setTab tab (fun p => { p with sessProps := some ⟨props, s.clock⟩ }) = t := by
          simpa [act, hresolved] using h
        exact .session tab props
      · obtain rfl : s = t := by simpa [act, hresolved] using h
        exact .same ⟨rfl, rfl, fun _ => rfl, rfl, rfl⟩ rfl
  | acceptConsent tab | withdrawConsent tab =>
    exact Option.some.inj h ▸ .same ⟨rfl, rfl, fun _ => rfl, rfl, rfl⟩ rfl
  | respond i ok =>
    obtain ⟨call, hcall, rfl⟩ : ∃ call, s.pending[i]? = some call ∧
        respond { s with pending := s.pending.eraseIdx i } call ok = t := by
      simpa [act, Option.map_eq_some_iff] using h
    cases ok with
    | false => exact .same ⟨rfl, rfl, fun _ => rfl, rfl, rfl⟩ rfl
    | true => exact .answer call (List.mem_of_getElem? hcall) i

structure SameCalls (s t : State V) : Prop where
  consentCookie : t.consentCookie = s.consentCookie
  pending : t.pending = s.pending
  missed : t.missed = s.missed
  lastCall : t.lastCall = s.lastCall

theorem sameCalls_pageview (s : State V) (tab : ℕ) : SameCalls s (pageview s tab) := by
  rw [pageview]
  split_ifs
  · exact ⟨rfl, rfl, rfl, rfl⟩
  · exact ⟨rfl, rfl, rfl, rfl⟩

theorem sameCalls_refresh (s : State V) (tab : ℕ) : SameCalls s (refresh s tab) := by
  obtain ⟨hcookie, hpending, hmissed, hlast⟩ :=
    sameCalls_pageview (s.setTab tab fun p => { p with pageviewed := false }) tab
  exact ⟨hcookie, hpending, hmissed, hlast⟩

/-- What a step does to the calls. -/
inductive CallStep (s : State V) : Action V → State V → Prop where
  | same {a : Action V} {t : State V} (other : ∀ i ok, a ≠ .respond i ok) (calls : SameCalls s t) :
      CallStep s a t
  | unload {a : Action V} {t : State V} (tab : ℕ) (other : ∀ i ok, a ≠ .respond i ok)
      (calls : SameCalls (unload s tab) t) : CallStep s a t
  | call {a : Action V} (tab : ℕ) (action : ConsentAction) (other : ∀ i ok, a ≠ .respond i ok) :
      CallStep s a (consent s tab action)
  | response {i : ℕ} {call : Call} (ok : Bool) (found : s.pending[i]? = some call) :
      CallStep s (.respond i ok) (respond { s with pending := s.pending.eraseIdx i } call ok)

theorem act_callStep {s t : State V} {a : Action V} (h : act s a = some t) : CallStep s a t := by
  cases a with
  | load tab =>
    exact Option.some.inj h ▸ .unload tab (fun _ _ => by simp) (sameCalls_refresh _ tab)
  | navigate tab => exact Option.some.inj h ▸ .same (fun _ _ => by simp) (sameCalls_refresh s tab)
  | pagehide tab => exact Option.some.inj h ▸ .same (fun _ _ => by simp) (sameCalls_pageview s tab)
  | track => exact Option.some.inj h ▸ .same (fun _ _ => by simp) ⟨rfl, rfl, rfl, rfl⟩
  | identify tab uid userProps => cases userProps with
    | none => exact Option.some.inj h ▸ .same (fun _ _ => by simp) ⟨rfl, rfl, rfl, rfl⟩
    | some props =>
      rw [← Option.some.inj h]
      split_ifs
      · exact .same (fun _ _ => by simp) ⟨rfl, rfl, rfl, rfl⟩
      · exact .same (fun _ _ => by simp) ⟨rfl, rfl, rfl, rfl⟩
  | setSession tab sessProps => cases sessProps with
    | none => exact Option.some.inj h ▸ .same (fun _ _ => by simp) ⟨rfl, rfl, rfl, rfl⟩
    | some props =>
      rw [← Option.some.inj h]
      split_ifs
      · exact .same (fun _ _ => by simp) ⟨rfl, rfl, rfl, rfl⟩
      · exact .same (fun _ _ => by simp) ⟨rfl, rfl, rfl, rfl⟩
  | acceptConsent tab => exact Option.some.inj h ▸ .call tab .give fun _ _ => by simp
  | withdrawConsent tab => exact Option.some.inj h ▸ .call tab .withdraw fun _ _ => by simp
  | respond i ok =>
    obtain ⟨call, hcall, rfl⟩ := Option.map_eq_some_iff.mp h
    exact .response ok hcall

end Statnive.Tracker
