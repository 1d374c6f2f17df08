import Statnive.Tracker

/-!
# The consent that is kept

Each successful response writes the cookie of its own call, whichever call was made last.
-/

namespace Statnive.LastConsent

open LabelledRuns Tracker

variable {V : Type*}

def wanted : ConsentAction → String
  | .give => resolved
  | .withdraw => withdrawn

/-- Once all calls are answered with success, the consent is that of the last one. -/
def FollowsLast (s : State V) : Prop :=
  s.pending = [] → s.missed = false → ∀ action, s.lastCall = some action →
    s.getConsent = wanted action

/-- The response that leaves no call open answers a call like the last one. -/
def InOrder (s : State V) (a : Action V) : Prop :=
  ∀ i call, a = .respond i true → s.pending[i]? = some call → s.pending.eraseIdx i = [] →
    s.missed = false → s.lastCall = some call.action

instance (s : State V) : Decidable (FollowsLast s) :=
  decidable_of_iff (s.pending = [] → s.missed = false → ∀ action ∈ s.lastCall,
    s.getConsent = wanted action) Iff.rfl

private theorem wanted_injective : Function.Injective wanted := by
  intro a b h
  cases a <;> cases b <;> first | rfl | exact absurd h (by decide)

theorem followsLast_same {s t : State V} (h : SameCalls s t) :
    FollowsLast t ↔ FollowsLast s := by
  simp only [FollowsLast, State.getConsent, h.consentCookie, h.pending, h.missed, h.lastCall]

/-- A call is open only after one was made. -/
def Called (s : State V) : Prop := s.pending ≠ [] → s.lastCall ≠ none

theorem called_same {s t : State V} (h : SameCalls s t) (hs : Called s) : Called t := by
  rw [Called, h.pending, h.lastCall]
  exact hs

private theorem followsLast_unload {s : State V} (tab : ℕ) (hs : FollowsLast s) :
    FollowsLast (unload s tab) := by
  intro hpending hmissed
  obtain ⟨hmissed, hkept⟩ : s.missed = false ∧ ∀ call ∈ s.pending, ¬ call.tab = tab := by
    simpa [unload] using hmissed
  have hempty : s.pending = [] := by
    have hall : s.pending.filter (fun call => call.tab ≠ tab) = s.pending :=
      List.filter_eq_self.mpr fun call hcall => by simpa using hkept call hcall
    rw [← hall]
    exact hpending
  exact hs hempty hmissed

private theorem called_unload {s : State V} (tab : ℕ) (hs : Called s) : Called (unload s tab) := by
  intro hne
  apply hs
  intro hempty
  exact hne (by simp [unload, hempty])

/-- The last response decides. -/
theorem followsLast_answer {s : State V} {i : ℕ} {call : Call} (hcalled : Called s)
    (hcall : s.pending[i]? = some call) :
    FollowsLast (respond { s with pending := s.pending.eraseIdx i } call true) ↔
      (s.pending.eraseIdx i = [] → s.missed = false → s.lastCall = some call.action) := by
  have hconsent : (respond { s with pending := s.pending.eraseIdx i } call true).getConsent =
      wanted call.action := by
    cases haction : call.action <;> simp [respond, haction, State.getConsent, wanted, resolved,
      withdrawn]
  have hrest : (respond { s with pending := s.pending.eraseIdx i } call true).pending =
        s.pending.eraseIdx i ∧
      (respond { s with pending := s.pending.eraseIdx i } call true).missed = s.missed ∧
      (respond { s with pending := s.pending.eraseIdx i } call true).lastCall = s.lastCall := by
    cases haction : call.action <;> simp [respond, haction, State.setTab]
  obtain ⟨last, hlast⟩ : ∃ last, s.lastCall = some last := by
    apply Option.ne_none_iff_exists'.mp
    apply hcalled
    intro hempty
    simp [hempty] at hcall
  simp only [FollowsLast]
  rw [hconsent, hrest.1, hrest.2.1, hrest.2.2, hlast]
  constructor
  · intro h hempty hmissed
    rw [wanted_injective (h hempty hmissed last rfl)]
  · intro h hempty hmissed action haction
    rw [← Option.some.inj (h hempty hmissed), Option.some.inj haction]

private theorem act_called {s t : State V} {a : Action V} (h : act s a = some t) (hs : Called s) :
    Called t := by
  cases act_callStep h with
  | same _ hcalls => exact called_same hcalls hs
  | unload tab _ hcalls => exact called_same hcalls (called_unload tab hs)
  | call tab action => exact fun _ => by simp [consent]
  | @response i call ok hcall =>
    have hne : s.lastCall ≠ none := by
      apply hs
      intro hempty
      simp [hempty] at hcall
    intro _
    cases ok <;> cases haction : call.action <;> simpa [respond, haction, State.setTab] using hne

/-- A step that is not the last response of its calls keeps the consent in place. -/
theorem act_followsLast {s t : State V} {a : Action V} (h : act s a = some t) (hcalled : Called s)
    (hs : FollowsLast s) : FollowsLast t ↔ InOrder s a := by
  have hvacuous (hother : ∀ i ok, a ≠ .respond i ok) : InOrder s a :=
    fun i call ha => absurd ha (hother i true)
  cases act_callStep h with
  | same hother hcalls => exact iff_of_true ((followsLast_same hcalls).mpr hs) (hvacuous hother)
  | unload tab hother hcalls =>
    exact iff_of_true ((followsLast_same hcalls).mpr (followsLast_unload tab hs)) (hvacuous hother)
  | call tab action hother =>
    have hopen : FollowsLast (consent s tab action) := fun hempty => by simp [consent] at hempty
    exact iff_of_true hopen (hvacuous hother)
  | @response i call ok hcall => cases ok with
    | false =>
      have hmissed : FollowsLast (respond { s with pending := s.pending.eraseIdx i } call false) :=
        fun _ h => by simp [respond] at h
      exact iff_of_true hmissed fun j other ha => by simp at ha
    | true =>
      rw [followsLast_answer hcalled hcall]
      constructor
      · intro hlast j other ha hfound hempty
        obtain rfl : i = j := by simpa using ha
        obtain rfl : call = other := Option.some.inj (hcall.symm.trans hfound)
        exact hlast hempty
      · intro horder
        exact horder i call rfl hcall

/-- The consent is that of the last call, in every state of a run without open calls, exactly when
each last response answers a call like the last one. -/
theorem followsLast_iff_along {consentCookie : String} {userProps : Option V}
    {sessProps : ℕ → Option V} {run : List (Action V)} {t : State V}
    (h : exec step (start consentCookie userProps sessProps) run = some t) :
    Throughout step FollowsLast (start consentCookie userProps sessProps) run ↔
      Along step InOrder (start consentCookie userProps sessProps) run := by
  have hcalled : Called (start consentCookie userProps sessProps) := fun hne => absurd rfl hne
  have hfollows : FollowsLast (start consentCookie userProps sessProps) :=
    fun _ _ action haction => by simp [start] at haction
  have hanyone : ∀ a ∈ run, (fun _ : Action V => True) a := fun _ _ => trivial
  refine throughout_iff_along_of (J := Called) ?_ ?_ h hanyone hcalled hfollows
  · intro s a t _ hcalled _ hstep _
    obtain ⟨u, hu, rfl⟩ := Option.map_eq_some_iff.mp hstep
    have hnext : Called u := act_called hu hcalled
    exact hnext
  · intro s a t _ hcalled hs hstep
    obtain ⟨u, hu, rfl⟩ := Option.map_eq_some_iff.mp hstep
    have hnext : FollowsLast u ↔ InOrder s a := act_followsLast hu hcalled hs
    exact hnext

/-- A visitor accepts and then withdraws, with the responses in the order given. -/
def acceptThenWithdraw (first second : ℕ) : List (Action String) :=
  [.load 0, .acceptConsent 0, .withdrawConsent 0, .respond first true, .respond second true]

theorem followsLast_iff_along_inOrder :
    Throughout step FollowsLast (start "" none fun _ => (none : Option String))
        (acceptThenWithdraw 0 0) ↔
      Along step InOrder (start "" none fun _ => (none : Option String))
        (acceptThenWithdraw 0 0) := by
  have hrun : ∃ t, exec step (start "" none fun _ => (none : Option String))
      (acceptThenWithdraw 0 0) = some t := ⟨_, rfl⟩
  obtain ⟨t, ht⟩ := hrun
  exact followsLast_iff_along ht

/-- The response to the withdrawal overtakes the one before, and the visitor who has withdrawn
is tracked as one who has accepted. -/
theorem overtaken_withdrawal_resolved :
    ∃ t, exec step (start "" none fun _ => (none : Option String)) (acceptThenWithdraw 1 0) =
        some t ∧
      t.pending = [] ∧ t.missed = false ∧ t.lastCall = some .withdraw ∧
      t.getConsent = resolved := by
  refine ⟨_, rfl, ?_⟩
  decide

end Statnive.LastConsent
