import Statnive.Tracker

/-!
# Properties after a withdrawal

The response to a withdrawal clears the cookies of all tabs, and the session storage of its own
tab. What the other tabs have stored is sent again once consent is given anew.
-/

namespace Statnive.WithdrawnProps

open LabelledRuns Tracker

variable {V : Type*}

/-- No event behind the response to a withdrawal holds what was stored before the withdrawal. -/
def NeverAgain (s : State V) : Prop :=
  ∀ e ∈ s.events, ∀ answer ∈ s.answers, answer.call.action = .withdraw →
    answer.arrivedAt < e.firedAt → ∀ p, e.sessionProps = some p ∨ e.userProps = some p →
      answer.call.madeAt ≤ p.since

/-- Without consent, an event holds no properties of a session or a user. -/
def Gated (s : State V) : Prop :=
  ∀ e ∈ s.events, e.consent ≠ resolved → e.sessionProps = none ∧ e.userProps = none

def Honoured (s : State V) : Prop := NeverAgain s ∧ Gated s

/-- The session storage that an event is sent from is not older than a withdrawal which was
answered in another tab. -/
def FreshSession (s : State V) (a : Action V) : Prop :=
  ∀ tab, a.firesIn s = some tab → s.getConsent = resolved →
    ∀ p, (s.tabs tab).sessProps = some p → ∀ answer ∈ s.answers, answer.call.tab ≠ tab →
      answer.call.action = .withdraw → answer.call.madeAt ≤ p.since

/-- Steps of the past, and storage that is cleared by the withdrawals that reach it. -/
structure Cleared (s : State V) : Prop where
  fired : ∀ e ∈ s.events, e.firedAt < s.clock
  made : ∀ call ∈ s.pending, call.madeAt < s.clock
  arrived : ∀ answer ∈ s.answers, answer.arrivedAt < s.clock ∧ answer.call.madeAt < s.clock
  user : ∀ p, s.userPropsCookie = some p → ∀ answer ∈ s.answers,
    answer.call.action = .withdraw → answer.call.madeAt ≤ p.since
  session : ∀ tab p, (s.tabs tab).sessProps = some p → ∀ answer ∈ s.answers,
    answer.call.tab = tab → answer.call.action = .withdraw → answer.call.madeAt ≤ p.since

private theorem act_pending {s t : State V} {a : Action V} (h : act s a = some t) :
    ∀ call ∈ t.pending, call ∈ s.pending ∨ call.madeAt = s.clock := by
  intro call hcall
  cases act_callStep h with
  | same _ hcalls => exact .inl (hcalls.pending ▸ hcall)
  | unload tab _ hcalls =>
    rw [hcalls.pending] at hcall
    exact .inl (List.mem_of_mem_filter hcall)
  | call tab action =>
    rcases List.mem_append.mp hcall with hold | hnew
    · exact .inl hold
    · exact .inr (List.mem_singleton.mp hnew ▸ rfl)
  | @response i answered ok =>
    have hpending : (respond { s with pending := s.pending.eraseIdx i } answered ok).pending =
        s.pending.eraseIdx i := by
      cases ok <;> cases haction : answered.action <;> simp [respond, haction, State.setTab]
    rw [hpending] at hcall
    exact .inl (List.mem_of_mem_eraseIdx hcall)

/-- The storage of before, with the answers of before. -/
theorem Cleared.same {s t : State V} (hs : Cleared s) (hsame : SameStorage s t)
    (hfired : ∀ e ∈ t.events, e.firedAt ≤ s.clock)
    (hmade : ∀ call ∈ t.pending, call ∈ s.pending ∨ call.madeAt = s.clock) :
    Cleared { t with clock := s.clock + 1 } where
  fired e he := Nat.lt_succ_of_le (hfired e he)
  made call hcall := by
    show call.madeAt < s.clock + 1
    rcases hmade call hcall with hold | hnew
    · exact Nat.lt_succ_of_lt (hs.made call hold)
    · omega
  arrived answer hanswer := by
    have hlt := hs.arrived answer (hsame.answers ▸ hanswer)
    exact ⟨Nat.lt_succ_of_lt hlt.1, Nat.lt_succ_of_lt hlt.2⟩
  user p hp answer hanswer := hs.user p (hsame.userProps ▸ hp) answer (hsame.answers ▸ hanswer)
  session tab p hp answer hanswer :=
    hs.session tab p (hsame.sessProps tab ▸ hp) answer (hsame.answers ▸ hanswer)

/-- A response that arrives. A withdrawal leaves no value in the storage that it reaches. -/
theorem Cleared.respond {s : State V} (hs : Cleared s) {call : Call} (hmem : call ∈ s.pending)
    (i : ℕ) :
    Cleared { Tracker.respond { s with pending := s.pending.eraseIdx i } call true with
      clock := s.clock + 1 } := by
  have hmade := hs.made call hmem
  have hpending : ∀ other ∈ s.pending.eraseIdx i, other.madeAt < s.clock + 1 :=
    fun other hother => Nat.lt_succ_of_lt (hs.made other (List.mem_of_mem_eraseIdx hother))
  have hfired : ∀ e ∈ s.events, e.firedAt < s.clock + 1 :=
    fun e he => Nat.lt_succ_of_lt (hs.fired e he)
  have harrived : ∀ answer ∈ s.answers ++ [⟨call, s.clock⟩],
      answer.arrivedAt < s.clock + 1 ∧ answer.call.madeAt < s.clock + 1 := by
    intro answer hanswer
    rcases List.mem_append.mp hanswer with hold | hnew
    · have hlt := hs.arrived answer hold
      omega
    · obtain rfl := List.mem_singleton.mp hnew
      exact ⟨Nat.lt_succ_self _, Nat.lt_succ_of_lt hmade⟩
  cases haction : call.action with
  | give =>
    have hold : ∀ answer ∈ s.answers ++ [⟨call, s.clock⟩], answer.call.action = .withdraw →
        answer ∈ s.answers := by
      intro answer hanswer hwithdraw
      rcases List.mem_append.mp hanswer with hold | hnew
      · exact hold
      · obtain rfl := List.mem_singleton.mp hnew
        rw [haction] at hwithdraw
        cases hwithdraw
    simp only [Tracker.respond, haction, if_true]
    exact ⟨hfired, hpending, harrived,
      fun p hp answer hanswer hwithdraw =>
        hs.user p hp answer (hold answer hanswer hwithdraw) hwithdraw,
      fun tab p hp answer hanswer htab hwithdraw =>
        hs.session tab p hp answer (hold answer hanswer hwithdraw) htab hwithdraw⟩
  | withdraw =>
    simp only [Tracker.respond, haction, if_true]
    refine ⟨hfired, hpending, harrived, (fun p hp => by cases hp), ?_⟩
    intro tab p hp answer hanswer htab hwithdraw
    by_cases hother : tab = call.tab
    · subst hother
      simp [State.setTab] at hp
    · have hp' : (s.tabs tab).sessProps = some p := by
        simpa [State.setTab, hother] using hp
      rcases List.mem_append.mp hanswer with hold | hnew
      · exact hs.session tab p hp' answer hold htab hwithdraw
      · obtain rfl := List.mem_singleton.mp hnew
        exact absurd htab.symm hother

private theorem act_cleared {s t : State V} {a : Action V} (hs : Cleared s) (h : act s a = some t) :
    Cleared { t with clock := s.clock + 1 } := by
  have hmade := act_pending h
  cases hfires : a.firesIn s with
  | some tab =>
    have hfire := act_fires h hfires
    obtain ⟨e, hevents, hsent⟩ := hfire.event
    apply hs.same hfire.toSameStorage _ hmade
    intro e' he'
    rw [hevents] at he'
    rcases List.mem_append.mp he' with hold | hnew
    · exact Nat.le_of_lt (hs.fired e' hold)
    · obtain rfl := List.mem_singleton.mp hnew
      exact Nat.le_of_eq hsent.firedAt
  | none => cases act_quiet h hfires with
    | same hsame hevents =>
      exact hs.same hsame (fun e he => Nat.le_of_lt (hs.fired e (hevents ▸ he))) hmade
    | user props hsame huser hevents =>
      have hold := hs.same hsame (fun e he => Nat.le_of_lt (hs.fired e (hevents ▸ he))) hmade
      refine ⟨hold.fired, hold.made, hold.arrived, fun p hp answer hanswer _ => ?_, hold.session⟩
      obtain rfl : ⟨props, s.clock⟩ = p := Option.some.inj (huser.symm.trans hp)
      exact Nat.le_of_lt (hs.arrived answer (hsame.answers ▸ hanswer)).2
    | session tab props =>
      have hold : Cleared { s with clock := s.clock + 1 } :=
        hs.same ⟨rfl, rfl, fun _ => rfl, rfl, rfl⟩ (fun e he => Nat.le_of_lt (hs.fired e he)) hmade
      refine ⟨hold.fired, hold.made, hold.arrived, hold.user, ?_⟩
      intro other p hp answer hanswer htab haction
      by_cases hother : other = tab
      · subst hother
        obtain rfl : (⟨props, s.clock⟩ : Stored V) = p := by simpa [State.setTab] using hp
        exact Nat.le_of_lt (hs.arrived answer hanswer).2
      · have hp' : (s.tabs other).sessProps = some p := by
          simpa [State.setTab, hother] using hp
        exact hs.session other p hp' answer hanswer htab haction
    | answer call hmem i => exact hs.respond hmem i

/-- An event that is sent behind all the answers there are. -/
theorem honoured_append {s t : State V} {tab : ℕ} {e : Event V} (hc : Cleared s)
    (hs : Honoured s) (hevents : t.events = s.events ++ [e]) (hanswers : t.answers = s.answers)
    (hsent : Sent s tab e) :
    Honoured t ↔ (s.getConsent = resolved → ∀ p, (s.tabs tab).sessProps = some p →
      ∀ answer ∈ s.answers, answer.call.tab ≠ tab → answer.call.action = .withdraw →
        answer.call.madeAt ≤ p.since) := by
  constructor
  · intro h hconsent p hp answer hanswer _ hwithdraw
    have hlast : e ∈ t.events := hevents ▸ List.mem_append_right _ (List.mem_singleton_self e)
    have hprops : e.sessionProps = some p := by rw [hsent.sessionProps, if_pos hconsent, hp]
    have harrived : answer.arrivedAt < e.firedAt := by
      rw [hsent.firedAt]
      exact (hc.arrived answer hanswer).1
    exact h.1 e hlast answer (hanswers ▸ hanswer) hwithdraw harrived p (.inl hprops)
  · intro hfresh
    constructor
    · intro e' he' answer hanswer hwithdraw harrived p hp
      rw [hanswers] at hanswer
      rw [hevents] at he'
      rcases List.mem_append.mp he' with hold | hnew
      · exact hs.1 e' hold answer hanswer hwithdraw harrived p hp
      · obtain rfl := List.mem_singleton.mp hnew
        by_cases hconsent : s.getConsent = resolved
        · rw [hsent.sessionProps, hsent.userProps, if_pos hconsent, if_pos hconsent] at hp
          rcases hp with hsession | huser
          · by_cases htab : answer.call.tab = tab
            · exact hc.session tab p hsession answer hanswer htab hwithdraw
            · exact hfresh hconsent p hsession answer hanswer htab hwithdraw
          · exact hc.user p huser answer hanswer hwithdraw
        · rw [hsent.sessionProps, hsent.userProps, if_neg hconsent, if_neg hconsent] at hp
          simp at hp
    · intro e' he' hconsent
      rw [hevents] at he'
      rcases List.mem_append.mp he' with hold | hnew
      · exact hs.2 e' hold hconsent
      · obtain rfl := List.mem_singleton.mp hnew
        rw [hsent.consent] at hconsent
        rw [hsent.sessionProps, hsent.userProps, if_neg hconsent, if_neg hconsent]
        exact ⟨rfl, rfl⟩

/-- Without a new event, the events are older than any new answer. -/
theorem honoured_quiet {s t : State V} (hc : Cleared s) (hs : Honoured s)
    (hevents : t.events = s.events)
    (hanswers : ∀ answer ∈ t.answers, answer ∈ s.answers ∨ answer.arrivedAt = s.clock) :
    Honoured t := by
  constructor
  · intro e he answer hanswer hwithdraw harrived p hp
    rw [hevents] at he
    rcases hanswers answer hanswer with hold | hnew
    · exact hs.1 e he answer hold hwithdraw harrived p hp
    · have hfired := hc.fired e he
      omega
  · intro e he
    exact hs.2 e (hevents ▸ he)

private theorem act_honoured {s t : State V} {a : Action V} (hc : Cleared s) (hs : Honoured s)
    (h : act s a = some t) : Honoured t ↔ FreshSession s a := by
  cases hfires : a.firesIn s with
  | some tab =>
    have hfire := act_fires h hfires
    obtain ⟨e, hevents, hsent⟩ := hfire.event
    rw [honoured_append hc hs hevents hfire.answers hsent]
    constructor
    · intro hfresh other hother
      obtain rfl : tab = other := Option.some.inj (hfires.symm.trans hother)
      exact hfresh
    · intro hfresh
      exact hfresh tab hfires
  | none =>
    have hvacuous : FreshSession s a := fun tab htab => by simp [hfires] at htab
    apply iff_of_true _ hvacuous
    cases act_quiet h hfires with
    | same hsame hevents =>
      exact honoured_quiet hc hs hevents fun answer hanswer => .inl (hsame.answers ▸ hanswer)
    | user props hsame _ hevents =>
      exact honoured_quiet hc hs hevents fun answer hanswer => .inl (hsame.answers ▸ hanswer)
    | session tab props => exact honoured_quiet hc hs rfl fun answer hanswer => .inl hanswer
    | answer call hmem i =>
      apply honoured_quiet hc hs
      · cases haction : call.action <;> simp [respond, haction, State.setTab]
      · intro answer hanswer
        have hmem : answer ∈ s.answers ++ [⟨call, s.clock⟩] := by
          cases haction : call.action <;> simpa [respond, haction, State.setTab] using hanswer
        rcases List.mem_append.mp hmem with hold | hnew
        · exact .inl hold
        · exact .inr (List.mem_singleton.mp hnew ▸ rfl)

/-- Withdrawn properties are not sent again, exactly when no event is sent from a session storage
that holds values from before a withdrawal which was answered in another tab. -/
theorem honoured_iff_along {consentCookie : String} {userProps : Option V}
    {sessProps : ℕ → Option V} {run : List (Action V)} {t : State V}
    (h : exec step (start consentCookie userProps sessProps) run = some t) :
    Throughout step Honoured (start consentCookie userProps sessProps) run ↔
      Along step FreshSession (start consentCookie userProps sessProps) run := by
  have hcleared : Cleared (start consentCookie userProps sessProps) :=
    ⟨by simp [start], by simp [start], by simp [start], by simp [start], by simp [start]⟩
  have hhonoured : Honoured (start consentCookie userProps sessProps) :=
    ⟨by simp [NeverAgain, start], by simp [Gated, start]⟩
  have hall : ∀ a ∈ run, (fun _ : Action V => True) a := fun _ _ => trivial
  refine throughout_iff_along_of (J := Cleared) ?_ ?_ h hall hcleared hhonoured
  · intro s a t _ hc _ hstep _
    obtain ⟨u, hu, rfl⟩ := Option.map_eq_some_iff.mp hstep
    exact act_cleared hc hu
  · intro s a t _ hc hs hstep
    obtain ⟨u, hu, rfl⟩ := Option.map_eq_some_iff.mp hstep
    have hnext : Honoured u ↔ FreshSession s a := act_honoured hc hs hu
    exact hnext

/-- Properties are set in one tab, and consent is withdrawn and given again in the other. -/
def twoTabs (again : List (Action String)) : List (Action String) :=
  [.load 0, .load 1, .setSession 1 (some "gold"), .withdrawConsent 0, .respond 0 true] ++ again

theorem honoured_iff_along_withdrawn :
    Throughout step Honoured (start resolved none fun _ => (none : Option String)) (twoTabs []) ↔
      Along step FreshSession (start resolved none fun _ => (none : Option String))
        (twoTabs []) := by
  have hrun : ∃ t, exec step (start resolved none fun _ => (none : Option String)) (twoTabs []) =
      some t := ⟨_, rfl⟩
  obtain ⟨t, ht⟩ := hrun
  exact honoured_iff_along ht

/-- The other tab sends what it stored before the withdrawal. -/
theorem gold_sent_again :
    ∃ t, exec step (start resolved none fun _ => (none : Option String))
        (twoTabs [.acceptConsent 0, .respond 0 true, .track 1 "signup" none 0]) = some t ∧
      ¬ NeverAgain t := by
  refine ⟨_, rfl, fun h => ?_⟩
  have hsince := h ⟨1, "signup", 0, "", none, some ⟨"gold", 3⟩, none, resolved, 8⟩ (by decide)
    ⟨⟨0, .withdraw, 4⟩, 5⟩ (by decide) rfl (by decide) ⟨"gold", 3⟩ (.inl rfl)
  revert hsince
  decide

end Statnive.WithdrawnProps
