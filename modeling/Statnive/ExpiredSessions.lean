import Statnive.SessionRevocation

/-!
# Sessions past their expiry

The store refuses a session whose `ExpiresAt` has come. An entry of the cache is served for as
long as it is fresh, whatever the `ExpiresAt` of its session; a session without one does not
expire.
-/

namespace Statnive.ExpiredSessions

open AuthTypes AuthSessions LabelledRuns
open SessionRevocation (State Action step)

variable {c : CachedStore} {hash : Hash} {now : ℕ}

/-- The session that the cache answers with, as long as its entry is fresh. -/
def cached (c : CachedStore) (hash : Hash) (now : ℕ) : Option SessionInfo :=
  ((c.items hash).filter (fun e => now < e.expiresAt)).map CachedSession.info

private theorem lookup_of_cached {info : SessionInfo} (h : cached c hash now = some info) :
    (c.lookup hash now).2 = .ok info := by
  obtain ⟨e, he, rfl⟩ := Option.map_eq_some_iff.mp h
  obtain ⟨hitem, hfresh⟩ := Option.filter_eq_some_iff.mp he
  simp [CachedStore.lookup, hitem, of_decide_eq_true hfresh]

private theorem lookup_of_not_cached (h : cached c hash now = none) :
    (c.lookup hash now).2 = lookupSession c.db hash now := by
  have hload : (c.load hash now).2 = lookupSession c.db hash now := by
    cases hlook : lookupSession c.db hash now <;> simp [CachedStore.load, hlook]
  cases hitem : c.items hash with
  | none => simp [CachedStore.lookup, hitem, hload]
  | some e =>
    have hstale : ¬ now < e.expiresAt := by simpa [cached, hitem, Option.filter] using h
    simp [CachedStore.lookup, hitem, hstale, hload]

/-- What the store answers with has not expired, if it expires at all. -/
theorem lookupSession_unexpired {db : Tables} {info : SessionInfo}
    (h : lookupSession db hash now = .ok info) :
    info.session.expiresAt = 0 ∨ now < info.session.expiresAt := by
  cases hsel : selectSession db.sessions hash with
  | none => simp [lookupSession, hsel] at h
  | some r =>
    simp only [lookupSession, hsel] at h
    split_ifs at h with hrevoked hexpired
    cases hu : AuthStore.getUserByID db.users r.session.userID with
    | error e => simp [hu] at h
    | ok u =>
      simp only [hu] at h
      split_ifs at h
      obtain rfl := Except.ok.inj h
      simp only
      omega

/-- A look-up answers with no session whose `ExpiresAt` is at or before its time. -/
def Unexpired (s : State) : Action → Prop
  | .lookup hash now => ∀ info, (s.store.lookup hash now).2 = .ok info →
      now < info.session.expiresAt
  | _ => True

/-- A look-up that finds a fresh entry comes before the `ExpiresAt` of the session; one that
does not finds no session without an `ExpiresAt` in the store. -/
def Timely (s : State) : Action → Prop
  | .lookup hash now => match cached s.store hash now with
    | some info => now < info.session.expiresAt
    | none => ∀ info, lookupSession s.store.db hash now = .ok info → info.session.expiresAt ≠ 0
  | _ => True

theorem unexpired_iff (s : State) (a : Action) : Unexpired s a ↔ Timely s a := by
  cases a with
  | lookup hash now =>
    cases hcached : cached s.store hash now with
    | some info => simp [Unexpired, Timely, hcached, lookup_of_cached hcached]
    | none =>
      simp only [Unexpired, Timely, hcached, lookup_of_not_cached hcached]
      refine forall₂_congr fun info hlook => ?_
      have hlive := lookupSession_unexpired hlook
      omega
  | operate | enable | login | logout => exact Iff.rfl

/-- The action puts a session into the cache: a look-up that loads it, or its login. -/
inductive Puts (s : State) : Action → Hash → SessionInfo → Prop
  | loaded (hash : Hash) (now : ℕ) (info : SessionInfo) (hmiss : cached s.store hash now = none)
      (hlook : lookupSession s.store.db hash now = .ok info) : Puts s (.lookup hash now) hash info
  | primed (sess : Session) (now : ℕ) (db : Tables) (stamped : Session) (u : User)
      (hcreate : createSession s.store.db sess now = .ok (db, stamped))
      (hu : AuthStore.getUserByID db.users stamped.userID = .ok u) :
      Puts s (.login sess now) stamped.idHash ⟨u, stamped⟩

/-- A session that is put into the cache is not looked up there after its expiry: a look-up within
the TTL of the action that put it there comes before its `ExpiresAt`. No session without an
`ExpiresAt` is loaded, and no entry that was there before outlasts its session. -/
structure InTime (s : State) (as : List Action) : Prop where
  served : ∀ pre a mid hash now post u info, as = pre ++ a :: (mid ++ .lookup hash now :: post) →
    exec step s pre = some u → Puts u a hash info → now < a.now + s.store.ttl →
    now < info.session.expiresAt
  loaded : ∀ pre hash now post u info, as = pre ++ .lookup hash now :: post →
    exec step s pre = some u → lookupSession u.store.db hash now = .ok info →
    info.session.expiresAt ≠ 0
  before : ∀ hash e, s.store.items hash = some e → e.expiresAt ≤ e.info.session.expiresAt

variable {s t : State} {other : Hash} {e : CachedSession}

theorem items_drop (h : (c.drop hash).items other = some e) : c.items other = some e := by
  by_cases hne : other = hash
  · simp [CachedStore.drop, hne] at h
  · simpa [CachedStore.drop, hne] using h

theorem items_fill {info : SessionInfo} (h : (c.fill hash info now).items other = some e) :
    c.items other = some e ∨ other = hash ∧ e = ⟨info, now + c.ttl⟩ := by
  by_cases hne : other = hash
  · exact .inr ⟨hne, by simpa [CachedStore.fill, hne, eq_comm] using h⟩
  · exact .inl (by simpa [CachedStore.fill, hne] using h)

theorem items_load (h : (c.load hash now).1.items other = some e) :
    c.items other = some e ∨ other = hash ∧ lookupSession c.db hash now = .ok e.info ∧
      e.expiresAt = now + c.ttl := by
  unfold CachedStore.load at h
  split at h
  · exact .inl (items_drop h)
  · rename_i info hlook
    refine (items_fill h).imp_right ?_
    rintro ⟨rfl, rfl⟩
    exact ⟨rfl, hlook, rfl⟩

private theorem items_lookup (h : (c.lookup hash now).1.items other = some e) :
    c.items other = some e ∨ other = hash ∧ cached c hash now = none ∧
      lookupSession c.db hash now = .ok e.info ∧ e.expiresAt = now + c.ttl := by
  unfold CachedStore.lookup at h
  split at h
  · rename_i hitem
    refine (items_load h).imp_right fun ⟨hother, hspec⟩ => ⟨hother, ?_, hspec⟩
    simp [cached, hitem]
  · rename_i entry hitem
    split at h
    · exact .inl h
    · rename_i hstale
      refine (items_load h).imp_right fun ⟨hother, hspec⟩ => ⟨hother, ?_, hspec⟩
      simp [cached, hitem, Option.filter, hstale]

private theorem items_revoke (h : (c.revoke hash now).1.items other = some e) :
    c.items other = some e := by
  have hforget : (c.forget hash).items = (c.drop hash).items := by
    unfold CachedStore.forget
    split <;> rfl
  have hitems : (c.revoke hash now).1.items = (c.forget hash).items := by
    unfold CachedStore.revoke
    split <;> rfl
  rw [hitems, hforget] at h
  exact items_drop h

private theorem items_run {op : AccountChanges.Operation} {userID : UserID}
    (h : (op.run c userID now).1.items other = some e) : c.items other = some e := by
  rw [AccountChanges.run_eq] at h
  unfold CachedStore.cascadeRevoke at h
  split at h
  · exact h
  · simp only [CachedStore.revokeAll, CachedStore.forgetUser] at h
    split at h
    · simp at h
    · exact h

/-- An entry of the cache was there, or was just put there for a TTL. -/
theorem entry_step {a : Action} (h : step s a = some t) (he : t.store.items other = some e) :
    s.store.items other = some e ∨
      Puts s a other e.info ∧ e.expiresAt = a.now + s.store.ttl := by
  obtain ⟨-, rfl⟩ := (Option.ite_none_right_eq_some.mp h).imp_right Option.some.inj
  cases a with
  | operate userID op now => exact .inl (items_run he)
  | enable userID now => exact .inl he
  | login sess now =>
    change (s.store.create sess now).1.items other = some e at he
    unfold CachedStore.create at he
    split at he
    · exact .inl he
    · rename_i db stamped hcreate
      split at he
      · exact .inl he
      · rename_i u hu
        refine (items_fill he).imp_right ?_
        rintro ⟨rfl, rfl⟩
        exact ⟨.primed sess now db stamped u hcreate hu, rfl⟩
  | lookup hash now =>
    refine (items_lookup he).imp_right ?_
    rintro ⟨rfl, hmiss, hlook, hexp⟩
    exact ⟨.loaded other now e.info hmiss hlook, hexp⟩
  | logout hash now => exact .inl (items_revoke he)

theorem ttl_load : (c.load hash now).1.ttl = c.ttl := by
  unfold CachedStore.load
  split <;> rfl

private theorem ttl_step {a : Action} (h : step s a = some t) : t.store.ttl = s.store.ttl := by
  obtain ⟨-, rfl⟩ := (Option.ite_none_right_eq_some.mp h).imp_right Option.some.inj
  cases a with
  | operate userID op now =>
    simp only [SessionRevocation.after, AccountChanges.run_eq, CachedStore.cascadeRevoke]
    split <;> rfl
  | enable userID now => rfl
  | login sess now =>
    simp only [SessionRevocation.after, CachedStore.create]
    split
    · rfl
    · split <;> rfl
  | lookup hash now =>
    simp only [SessionRevocation.after, CachedStore.lookup]
    split
    · exact ttl_load
    · split
      · rfl
      · exact ttl_load
  | logout hash now =>
    have hforget : (s.store.forget hash).ttl = s.store.ttl := by
      unfold CachedStore.forget
      split <;> rfl
    simp only [SessionRevocation.after, CachedStore.revoke]
    split <;> exact hforget

/-- Look-ups in time are timely. -/
theorem timely_of_inTime {as : List Action} (h : InTime s as) : Along step Timely s as := by
  rw [along_iff_splits]
  intro pre a post u heq hu
  cases a with
  | lookup hash now =>
    have httl : ∀ {bs : List Action} {v : State}, exec step s bs = some v →
        v.store.ttl = s.store.ttl := fun hv =>
      exec_invariant (I := fun v => v.store.ttl = s.store.ttl)
        (fun _ _ _ hI hstep => (ttl_step hstep).trans hI) hv rfl
    cases hcached : cached u.store hash now with
    | none =>
      simp only [Timely, hcached]
      exact fun info hlook => h.loaded pre hash now post u info heq hu hlook
    | some info =>
      simp only [Timely, hcached]
      obtain ⟨e, he, rfl⟩ := Option.map_eq_some_iff.mp hcached
      obtain ⟨hitem, hfresh⟩ := Option.filter_eq_some_iff.mp he
      have hfresh : now < e.expiresAt := of_decide_eq_true hfresh
      have horigin := exec_origin (I := fun v => v.store.items hash = some e)
        (fun _ _ _ hstep => entry_step hstep) hu hitem
      rcases horigin with hold | ⟨first, b, mid, v, rfl, hv, hputs⟩
      · exact Nat.lt_of_lt_of_le hfresh (h.before hash e hold)
      · rw [hputs.2, httl hv] at hfresh
        refine h.served first b mid hash now post v e.info ?_ hv hputs.1 hfresh
        simp [heq]
  | operate | enable | login | logout => trivial

/-- Along every run of look-ups, logins, logouts and changes of users, from any tables and any
cache, no look-up answers with an expired session exactly when each comes before the expiry of
the session that it finds in the cache, or finds one with an expiry in the store; which is so
where the look-ups come in time after the loads and the logins. -/
theorem unexpired_iff_along (s : State) (as : List Action) :
    (Along step Unexpired s as ↔ Along step Timely s as) ∧
      (InTime s as → Along step Unexpired s as) := by
  have hiff : Along step Unexpired s as ↔ Along step Timely s as :=
    ⟨fun h => h.mono fun s a => (unexpired_iff s a).mp,
      fun h => h.mono fun s a => (unexpired_iff s a).mpr⟩
  exact ⟨hiff, fun h => hiff.mpr (timely_of_inTime h)⟩

def longSession : Session :=
  { idHash := [2], userID := 7, siteID := 1, role := .viewer, expiresAt := 100 }

def loginAndLookup : List Action := [.login longSession 10, .lookup [2] 30]

/-- The look-up comes within the TTL of the login, and before the expiry of its session. -/
theorem inTime_loginAndLookup : InTime SessionRevocation.viewer loginAndLookup := by
  constructor
  · intro pre a mid hash now post u info heq hu hputs _
    have hlen := congrArg List.length heq
    simp only [loginAndLookup, List.length_append, List.length_cons, List.length_nil] at hlen
    obtain rfl : pre = [] := List.eq_nil_of_length_eq_zero (by omega)
    obtain rfl : mid = [] := List.eq_nil_of_length_eq_zero (by omega)
    obtain ⟨rfl, hrest⟩ := List.cons.inj heq
    obtain ⟨-, rfl⟩ := Action.lookup.inj (List.cons.inj hrest).1
    obtain rfl : SessionRevocation.viewer = u := Option.some.inj hu
    cases hputs with
    | primed _ _ db stamped user hcreate hu =>
      obtain ⟨-, rfl⟩ := Prod.mk.inj (Except.ok.inj hcreate)
      exact (by decide : 30 < longSession.expiresAt)
  · intro pre hash now post u info heq hu hlook
    have hlen := congrArg List.length heq
    cases pre with
    | nil => simp [loginAndLookup] at heq
    | cons a pre =>
      obtain rfl : pre = [] := by
        simp only [loginAndLookup, List.length_append, List.length_cons, List.length_nil] at hlen
        exact List.eq_nil_of_length_eq_zero (by omega)
      obtain ⟨rfl, hrest⟩ := List.cons.inj heq
      obtain ⟨rfl, rfl⟩ := Action.lookup.inj (List.cons.inj hrest).1
      obtain rfl := Option.some.inj hu
      obtain rfl := Except.ok.inj hlook
      decide
  · intro hash e he
    simp [SessionRevocation.viewer] at he

theorem unexpired_iff_along_loginAndLookup :
    Along step Unexpired SessionRevocation.viewer loginAndLookup :=
  (unexpired_iff_along SessionRevocation.viewer loginAndLookup).2 inTime_loginAndLookup

def shortSession : Session :=
  { idHash := [2], userID := 7, siteID := 1, role := .viewer, expiresAt := 20 }

/-- The login puts the session into the cache, which answers with it ten seconds after its
expiry. -/
theorem expired_session_served :
    exec step SessionRevocation.viewer [.login shortSession 10, .lookup [2] 30] =
      some (SessionRevocation.after (SessionRevocation.after SessionRevocation.viewer
        (.login shortSession 10)) (.lookup [2] 30)) ∧
    ¬ Along step Unexpired SessionRevocation.viewer [.login shortSession 10, .lookup [2] 30] := by
  refine ⟨rfl, fun h => ?_⟩
  have hlookup := (h.2 (SessionRevocation.after SessionRevocation.viewer
    (.login shortSession 10)) rfl).1
  exact absurd (hlookup _ rfl) (by decide)

end Statnive.ExpiredSessions
