import Statnive.SyncerPipeline

/-!
# Group commit

What a call of `AppendAndWait` that returns nil may rely on.
-/

namespace Statnive.GroupCommit

open LabelledRuns IngestEvents SegmentedLog WriteAheadLog GroupSyncer SyncerPipeline ListAccounting

structure Callers (s : State) : Prop where
  ids : ((acceptedOf s.trace).map WalReq.id).Nodup
  known : ∀ r ∈ acceptedOf s.trace, ∃ k, s.calls[r.id]? = some k ∧ k.ev = r.ev
  fresh : ∀ (c : ℕ) (k : Call), s.calls[c]? = some k → k.status = .enqueueing →
    ∀ r ∈ acceptedOf s.trace, r.id ≠ c

private theorem callers_init (l : Log EnrichedEvent) : Callers (init l) :=
  ⟨List.nodup_nil, by simp [init, acceptedOf], by simp [init]⟩

/-- A step that accepts nothing and changes no call's event or stays out of a call's
first select keeps the requests apart. -/
theorem Callers.keep {s t : State} (hs : Callers s)
    (hacc : acceptedOf t.trace = acceptedOf s.trace)
    (hold : ∀ (c : ℕ) (k : Call), s.calls[c]? = some k →
      ∃ k', t.calls[c]? = some k' ∧ k'.ev = k.ev)
    (hnew : ∀ (c : ℕ) (k' : Call), t.calls[c]? = some k' → k'.status = .enqueueing →
      (∃ k, s.calls[c]? = some k ∧ k.status = .enqueueing) ∨ s.calls.length ≤ c) :
    Callers t := by
  constructor
  · rw [hacc]
    exact hs.ids
  · intro r hr
    obtain ⟨k, hk, hev⟩ := hs.known r (hacc ▸ hr)
    obtain ⟨k', hk', hev'⟩ := hold r.id k hk
    exact ⟨k', hk', hev'.trans hev⟩
  · intro c k' hk' hst r hr hid
    rw [hacc] at hr
    rcases hnew c k' hk' hst with ⟨k, hk, hst'⟩ | hle
    · exact hs.fresh c k hk hst' r hr hid
    · obtain ⟨k, hk, -⟩ := hs.known r hr
      have hlt : r.id < s.calls.length := (List.getElem?_eq_some_iff.mp hk).1
      omega

theorem Callers.same {s t : State} (hs : Callers s)
    (hacc : acceptedOf t.trace = acceptedOf s.trace) (hcalls : t.calls = s.calls) : Callers t :=
  hs.keep hacc (fun c k hk => ⟨k, by rw [hcalls, hk], rfl⟩)
    (fun c k' hk' hst => .inl ⟨k', by rw [← hcalls, hk'], hst⟩)

theorem Callers.modify {s t : State} (hs : Callers s) {c : ℕ} {f : Call → Call}
    (hacc : acceptedOf t.trace = acceptedOf s.trace) (hcalls : t.calls = s.calls.modify c f)
    (hev : ∀ k, (f k).ev = k.ev) (hst : ∀ k, (f k).status = .enqueueing → k.status = .enqueueing) :
    Callers t := by
  refine hs.keep hacc ?_ ?_
  · intro d k hk
    refine ⟨if c = d then f k else k, by simp [hcalls, List.getElem?_modify, hk], ?_⟩
    split
    · exact hev k
    · rfl
  · intro d k' hk' henq
    rw [hcalls] at hk'
    obtain ⟨k, hk, rfl⟩ := getElem?_modify_eq_some hk'
    refine .inl ⟨k, hk, ?_⟩
    split at henq
    · exact hst k henq
    · exact henq

theorem Callers.accept {s t : State} (hs : Callers s) {c : ℕ} {k : Call}
    (hk : s.calls[c]? = some k) (hst : k.status = .enqueueing)
    (htr : t.trace = s.trace ++ [.accepted ⟨c, k.ev⟩])
    (hcalls : t.calls = s.calls.modify c (fun k => { k with status := .waiting })) :
    Callers t := by
  have hacc : acceptedOf t.trace = acceptedOf s.trace ++ [⟨c, k.ev⟩] := by simp [htr]
  have hget : ∀ (d : ℕ) (k' : Call), s.calls[d]? = some k' →
      t.calls[d]? = some (if c = d then { k' with status := .waiting } else k') := by
    intro d k' hd
    simp [hcalls, List.getElem?_modify, hd]
  constructor
  · rw [hacc, List.map_append, List.nodup_append]
    refine ⟨hs.ids, List.nodup_singleton _, ?_⟩
    intro x hx y hy
    obtain ⟨r, hr, rfl⟩ := List.mem_map.mp hx
    obtain rfl : y = c := by simpa using hy
    exact hs.fresh _ k hk hst r hr
  · intro r hr
    rw [hacc, List.mem_append, List.mem_singleton] at hr
    rcases hr with hr | rfl
    · obtain ⟨k', hk', hev⟩ := hs.known r hr
      refine ⟨_, hget r.id k' hk', ?_⟩
      split <;> exact hev
    · refine ⟨_, hget c k hk, ?_⟩
      split <;> rfl
  · intro d k' hk' henq r hr
    rw [hcalls] at hk'
    obtain ⟨k₀, hk₀, rfl⟩ := getElem?_modify_eq_some hk'
    by_cases hcd : c = d
    · simp [hcd] at henq
    · rw [if_neg hcd] at henq
      rw [hacc, List.mem_append, List.mem_singleton] at hr
      rcases hr with hr | rfl
      · exact hs.fresh d k₀ hk₀ henq r hr
      · exact hcd

private theorem callers_step (cfg : Config) (s : State) (a : Action) (t : State) (hs : Callers s)
    (h : step cfg s a = some t) : Callers t := by
  cases step_effect h with
  | idle _ htr _ hcalls =>
    refine hs.keep (by rw [htr]) (fun c k hk => ?_) ?_
    · obtain ⟨k', hk', hev, -⟩ := hcalls.old c k hk
      exact ⟨k', hk', hev⟩
    · intro c k' hk' hst
      rcases hcalls.new c k' hk' with ⟨k, hk, hst', -⟩ | ⟨hle, -⟩
      · exact .inl ⟨k, hk, hst' ▸ hst⟩
      · exact .inr hle
  | accepted c k hk hst _ htr _ hcalls => exact hs.accept hk hst htr hcalls
  | tried it q _ _ _ htr _ hcalls =>
    refine hs.same ?_ hcalls
    unfold outcome at htr
    split at htr <;> simp [htr]
  | syncStarted _ htr _ hcalls => exact hs.same (by simp [htr]) hcalls
  | syncOk _ _ _ htr _ hcalls => exact hs.same (by simp [htr]) hcalls
  | syncFailed e _ _ htr _ hcalls => exact hs.same (by simp [htr]) hcalls
  | answered r a rest _ _ htr _ hcalls =>
    exact hs.modify (by simp [htr]) hcalls (fun k => rfl) (fun k hst => hst)
  | handled env rest _ _ htr _ hcalls =>
    refine hs.same ?_ hcalls
    rcases htr with ⟨htr, -⟩ | ⟨htr, -⟩ <;> simp [htr]
  | returned c k a _ _ _ htr _ hcalls =>
    exact hs.modify (by simp [htr]) hcalls (fun k => rfl) (fun k hst => by simp at hst)

/-- Indices are handed out in increasing order. -/
structure Indexed (s : State) : Prop where
  increasing : (indicesOf s.trace).Pairwise (· < ·)
  below : ∀ i ∈ indicesOf s.trace, i < s.wal.nextIdx

theorem indexed_init (l : Log EnrichedEvent) : Indexed (init l) :=
  ⟨List.Pairwise.nil, by simp [init, indicesOf]⟩

theorem Indexed.keep {s t : State} (hs : Indexed s) (e : Option Event)
    (htr : t.trace = s.trace ++ e.toList) (he : ∀ r i, e ≠ some (.appended r i))
    (hnext : t.wal.nextIdx = s.wal.nextIdx) : Indexed t := by
  have hidx : indicesOf t.trace = indicesOf s.trace := by
    rw [htr]
    cases e with
    | none => simp
    | some e =>
      cases e with
      | appended r i => exact absurd rfl (he r i)
      | _ => simp
  constructor
  · rw [hidx]
    exact hs.increasing
  · rw [hidx, hnext]
    exact hs.below

theorem Indexed.tried {s t : State} {a : Action} (hs : Indexed s) {it : Item}
    (htr : t.trace = s.trace ++ [outcome it]) (hwal : Tried a s.wal t.wal it) : Indexed t := by
  by_cases herr : it.err = none
  · obtain ⟨hidx, hnext⟩ := hwal.ok herr
    have hout : outcome it = .appended it.req it.idx := by simp [outcome, herr]
    rw [hout] at htr
    constructor
    · rw [htr, indicesOf_snoc, List.pairwise_append]
      refine ⟨hs.increasing, List.pairwise_singleton _ _, ?_⟩
      intro i hi j hj
      obtain rfl : j = it.idx := by simpa using hj
      rw [hidx]
      exact hs.below i hi
    · intro i hi
      rw [htr, indicesOf_snoc, List.mem_append] at hi
      rw [hnext]
      rcases hi with hi | hi
      · exact Nat.lt_succ_of_lt (hs.below i hi)
      · obtain rfl : i = it.idx := by simpa using hi
        omega
  · have hout : outcome it = .appendFailed it.req := by simp [outcome, herr]
    exact hs.keep (some (.appendFailed it.req)) (by simp [htr, hout]) (by simp) (hwal.failed herr)

theorem indexed_step (cfg : Config) (s : State) (a : Action) (t : State) (hs : Indexed s)
    (h : step cfg s a = some t) : Indexed t := by
  cases step_effect h with
  | idle _ htr hwal => exact hs.keep none (by simp [htr]) (by simp) hwal.nextIdx
  | accepted c k _ _ _ htr hwal => exact hs.keep (some _) htr (by simp) (by rw [hwal])
  | tried it q _ _ _ htr hwal => exact hs.tried htr hwal
  | syncStarted _ htr hwal => exact hs.keep (some _) htr (by simp) (by rw [hwal])
  | syncOk _ _ _ htr hwal => exact hs.keep (some _) htr (by simp) (by rw [hwal])
  | syncFailed e _ _ htr hwal => exact hs.keep (some _) htr (by simp) (by rw [hwal])
  | answered r a rest _ _ htr hwal => exact hs.keep (some _) htr (by simp) (by rw [hwal])
  | handled env rest _ _ htr hwal =>
    rcases htr with ⟨htr, -⟩ | ⟨htr, -⟩
    all_goals exact hs.keep (some _) htr (by simp) (by rw [hwal])
  | returned c k a _ _ _ htr hwal => exact hs.keep (some _) htr (by simp) (by rw [hwal])

/-- The log is in order, and holds at each index what was appended there. -/
structure Holding (s : State) : Prop where
  inOrder : s.wal.log.InOrder
  appended : ∀ r i, .appended r i ∈ s.trace → s.wal.log.Holds i r.ev

private theorem holding_init {l : Log EnrichedEvent} (h : l.InOrder) : Holding (init l) :=
  ⟨h, by simp [init]⟩

/-- What a step records as appended is what it appended. -/
theorem appended_step {cfg : Config} {s t : State} {a : Action} (h : step cfg s a = some t)
    {r : WalReq} {i : ℕ} (hm : .appended r i ∈ t.trace) : .appended r i ∈ s.trace ∨
      ∃ it, Tried a s.wal t.wal it ∧ it.err = none ∧ it.req = r ∧ it.idx = i := by
  have hother : ∀ {e : Event}, t.trace = s.trace ++ [e] → (∀ r i, e ≠ .appended r i) →
      .appended r i ∈ s.trace := by
    intro e htr he
    rw [htr, List.mem_append, List.mem_singleton] at hm
    exact hm.resolve_right fun heq => he r i heq.symm
  cases step_effect h with
  | idle _ htr => exact .inl (htr ▸ hm)
  | accepted _ _ _ _ _ htr => exact .inl (hother htr (by simp))
  | tried it q _ _ _ htr hwal =>
    rw [htr, List.mem_append, List.mem_singleton] at hm
    refine hm.imp_right fun heq => ?_
    by_cases herr : it.err = none
    · have hout : outcome it = .appended it.req it.idx := by simp [outcome, herr]
      rw [hout] at heq
      obtain ⟨rfl, rfl⟩ := Event.appended.inj heq
      exact ⟨it, hwal, herr, rfl, rfl⟩
    · simp [outcome, herr] at heq
  | syncStarted _ htr => exact .inl (hother htr (by simp))
  | syncOk _ _ _ htr => exact .inl (hother htr (by simp))
  | syncFailed _ _ _ htr => exact .inl (hother htr (by simp))
  | answered _ _ _ _ _ htr => exact .inl (hother htr (by simp))
  | handled _ _ _ _ htr =>
    rcases htr with ⟨htr, -⟩ | ⟨htr, -⟩
    all_goals exact .inl (hother htr (by simp))
  | returned _ _ _ _ _ _ htr => exact .inl (hother htr (by simp))

theorem holding_step (cfg : Config) (s : State) (a : Action) (t : State) (hs : Holding s)
    (ha : WritesThrough a) (h : step cfg s a = some t) : Holding t := by
  obtain ⟨horder, hkeeps⟩ := inOrder_step h hs.inOrder ha
  refine ⟨horder, fun r i hm => ?_⟩
  rcases appended_step h hm with hm | ⟨it, hwal, herr, rfl, rfl⟩
  · exact hkeeps i r.ev (hs.appended r i hm)
  · exact (hwal.inOrder hs.inOrder ha).2.2 herr

/-- A step of the run wrote `ev` to the files of the log, at the index `i` behind its last one. -/
def Written (cfg : Config) (s : State) (as : List Action) (i : ℕ) (ev : EnrichedEvent) : Prop :=
  ∃ pre a post u, as = pre ++ a :: post ∧ exec (step cfg) s pre = some u ∧
    ∃ v, step cfg u a = some v ∧ i = u.wal.log.last + 1 ∧ v.wal.log.last = i ∧
      v.wal.log.entries = u.wal.log.entries ++ [ev]

private theorem written_exec {cfg : Config} {s t : State} {as : List Action}
    (h : exec (step cfg) s as = some t) {r : WalReq} {i : ℕ} (hm : .appended r i ∈ t.trace) :
    .appended r i ∈ s.trace ∨ Written cfg s as i r.ev := by
  refine exec_origin (I := fun s => Event.appended r i ∈ s.trace) (fun u a v hstep hmem => ?_) h hm
  refine (appended_step hstep hmem).imp_right ?_
  rintro ⟨it, hwal, herr, rfl, rfl⟩
  obtain ⟨env, res, -, hres, hwrote⟩ := hwal.wrote
  obtain ⟨hindex, hlast, hentries⟩ := hwrote.ok (hres herr)
  rw [← (hwal.ok herr).1] at hindex hlast
  exact ⟨v, hstep, hindex, hlast, hentries⟩

/-- The outcome of the append of `r`, the start and the success of a `Sync` of its batch,
and the events `after` took place in this order, and the outcome is what `a` says. -/
def Committed (tr : List Event) (r : WalReq) (a : WalAck) (after : List Event) : Prop :=
  ∃ (it : Item) (batch : List WalReq), it.req = r ∧ it.ack = a ∧ r ∈ batch ∧
    ([outcome it, .syncStarted batch, .syncOk batch] ++ after).Sublist tr

/-- `a` may be the answer to `r`. -/
def Settled (tr : List Event) (r : WalReq) (a : WalAck) (after : List Event) : Prop :=
  Committed tr r a after ∨ a.err ≠ none ∧ ∃ batch, r ∈ batch ∧ .syncFailed batch ∈ tr

theorem sublist_append_of_sublist {l tr : List Event} (h : l.Sublist tr) (tr' : List Event) :
    l.Sublist (tr ++ tr') := h.trans (List.sublist_append_left tr tr')

theorem Settled.mono {tr : List Event} {r : WalReq} {a : WalAck} {after : List Event}
    (h : Settled tr r a after) (tr' : List Event) : Settled (tr ++ tr') r a after := by
  rcases h with ⟨it, batch, hr, ha, hm, hsub⟩ | ⟨herr, batch, hm, hf⟩
  · exact .inl ⟨it, batch, hr, ha, hm, sublist_append_of_sublist hsub tr'⟩
  · exact .inr ⟨herr, batch, hm, List.mem_append_left _ hf⟩

theorem Committed.snoc {tr : List Event} {r : WalReq} {a : WalAck} {after : List Event}
    (h : Committed tr r a after) (e : Event) : Committed (tr ++ [e]) r a (after ++ [e]) := by
  obtain ⟨it, batch, hr, ha, hm, hsub⟩ := h
  refine ⟨it, batch, hr, ha, hm, ?_⟩
  rw [← List.append_assoc]
  exact hsub.append (List.Sublist.refl [e])

theorem Settled.snoc {tr : List Event} {r : WalReq} {a : WalAck} {after : List Event}
    (h : Settled tr r a after) (e : Event) : Settled (tr ++ [e]) r a (after ++ [e]) := by
  rcases h with h | ⟨herr, batch, hm, hf⟩
  · exact .inl (h.snoc e)
  · exact .inr ⟨herr, batch, hm, List.mem_append_left _ hf⟩

/-- Each request in the pipe has behind it what its stage requires, and each answer
that was sent was settled before. -/
structure Stages (p : Pipe) (tr : List Event) : Prop where
  unsynced : ∀ it ∈ p.unsynced,
    (outcome it :: if p.started then [.syncStarted (reqs p.unsynced)] else []).Sublist tr
  unanswered : ∀ q ∈ p.unanswered, Settled tr q.1 q.2 []
  answered : ∀ r a, .answered r a ∈ tr → Settled tr r a [.answered r a]

theorem stages_init (l : Log EnrichedEvent) : Stages (pipe (init l)) (init l).trace :=
  ⟨by simp [init, pipe], by simp [init, pipe], by simp [init]⟩

/-- What happens elsewhere undoes nothing. -/
theorem Stages.keep {p p' : Pipe} {tr : List Event} (h : Stages p tr) (e : Event)
    (hun : p'.unsynced = p.unsynced) (hst : p'.started = p.started)
    (hans : p'.unanswered = p.unanswered) (he : answers e = []) : Stages p' (tr ++ [e]) := by
  constructor
  · intro it hit
    rw [hun] at hit
    rw [hun, hst]
    exact sublist_append_of_sublist (h.unsynced it hit) [e]
  · intro q hq
    exact (h.unanswered q (hans ▸ hq)).mono [e]
  · intro r a hm
    rw [List.mem_append, List.mem_singleton] at hm
    rcases hm with hm | rfl
    · exact (h.answered r a hm).mono [e]
    · simp at he

theorem Stages.tried {p : Pipe} {tr : List Event} (h : Stages p tr) (it : Item) (q : List WalReq)
    (hst : p.started = false) :
    Stages { p with queue := q, unsynced := p.unsynced ++ [it] } (tr ++ [outcome it]) := by
  constructor
  · intro it' hit
    simp only [hst, Bool.false_eq_true, if_false]
    rcases List.mem_append.mp hit with hit | hit
    · have hsub := h.unsynced it' hit
      simp only [hst, Bool.false_eq_true, if_false] at hsub
      exact sublist_append_of_sublist hsub [outcome it]
    · obtain rfl := List.mem_singleton.mp hit
      exact List.sublist_append_right tr [outcome it']
  · intro q hq
    exact (h.unanswered q hq).mono [outcome it]
  · intro r a hm
    rw [List.mem_append, List.mem_singleton] at hm
    rcases hm with hm | hm
    · exact (h.answered r a hm).mono [outcome it]
    · unfold outcome at hm
      split at hm <;> simp at hm

theorem Stages.syncStarted {p : Pipe} {tr : List Event} (h : Stages p tr) :
    Stages { p with started := true } (tr ++ [.syncStarted (reqs p.unsynced)]) := by
  constructor
  · intro it hit
    have hone : [outcome it].Sublist tr :=
      (List.singleton_sublist.mpr List.mem_cons_self).trans (h.unsynced it hit)
    simpa using hone.append (List.Sublist.refl [.syncStarted (reqs p.unsynced)])
  · intro q hq
    exact (h.unanswered q hq).mono _
  · intro r a hm
    rw [List.mem_append, List.mem_singleton] at hm
    exact (h.answered r a (hm.resolve_right (by simp))).mono _

theorem Stages.syncOk {p : Pipe} {tr : List Event} (h : Stages p tr) (hst : p.started = true) :
    Stages { p with
      unsynced := []
      started := false
      unanswered := p.unsynced.map (fun it => (it.req, it.ack)) }
      (tr ++ [.syncOk (reqs p.unsynced)]) := by
  constructor
  · intro it hit
    simp at hit
  · intro q hq
    obtain ⟨it, hit, rfl⟩ := List.mem_map.mp hq
    have hsub := h.unsynced it hit
    rw [if_pos hst] at hsub
    refine .inl ⟨it, reqs p.unsynced, rfl, rfl, List.mem_map_of_mem hit, ?_⟩
    exact hsub.append (List.Sublist.refl [Event.syncOk (reqs p.unsynced)])
  · intro r a hm
    rw [List.mem_append, List.mem_singleton] at hm
    exact (h.answered r a (hm.resolve_right (by simp))).mono _

theorem Stages.syncFailed {p : Pipe} {tr : List Event} (h : Stages p tr) (e : Err) :
    Stages { p with
      unsynced := []
      started := false
      unanswered := (reqs p.unsynced).map (fun r => (r, ⟨0, some e⟩)) }
      (tr ++ [.syncFailed (reqs p.unsynced)]) := by
  constructor
  · intro it hit
    simp at hit
  · intro q hq
    obtain ⟨r, hr, rfl⟩ := List.mem_map.mp hq
    exact .inr ⟨by simp, reqs p.unsynced, hr, by simp⟩
  · intro r a hm
    rw [List.mem_append, List.mem_singleton] at hm
    exact (h.answered r a (hm.resolve_right (by simp))).mono _

theorem Stages.answer {p : Pipe} {tr : List Event} (h : Stages p tr) {r : WalReq} {a : WalAck}
    {rest : List (WalReq × WalAck)} (hun : p.unanswered = (r, a) :: rest)
    (l : List WALEnvelope) :
    Stages { p with unanswered := rest, undelivered := l } (tr ++ [.answered r a]) := by
  constructor
  · intro it hit
    exact sublist_append_of_sublist (h.unsynced it hit) _
  · intro q hq
    exact (h.unanswered q (hun ▸ List.mem_cons_of_mem _ hq)).mono _
  · intro r' a' hm
    rw [List.mem_append, List.mem_singleton] at hm
    rcases hm with hm | hm
    · exact (h.answered r' a' hm).mono _
    · cases hm
      exact (h.unanswered (r, a) (hun ▸ List.mem_cons_self)).snoc (.answered r a)

private theorem stages_step (cfg : Config) (s : State) (a : Action) (t : State)
    (hs : Stages (pipe s) s.trace) (h : step cfg s a = some t) : Stages (pipe t) t.trace := by
  cases step_effect h with
  | idle hpipe htr => rwa [hpipe, htr]
  | accepted c k _ _ hpipe htr =>
    rw [hpipe, htr]
    exact hs.keep _ rfl rfl rfl rfl
  | tried it q _ hst hpipe htr =>
    rw [hpipe, htr]
    exact hs.tried it q hst
  | syncStarted hpipe htr =>
    rw [hpipe, htr]
    exact hs.syncStarted
  | syncOk hst _ hpipe htr =>
    rw [hpipe, htr]
    exact hs.syncOk hst
  | syncFailed e _ hpipe htr =>
    rw [hpipe, htr]
    exact hs.syncFailed e
  | answered r a rest hun hpipe htr =>
    rw [hpipe, htr]
    exact hs.answer hun _
  | handled env rest _ hpipe htr =>
    rw [hpipe]
    rcases htr with ⟨htr, -⟩ | ⟨htr, -⟩
    all_goals
      rw [htr]
      exact hs.keep _ rfl rfl rfl rfl
  | returned c k a _ _ hpipe htr =>
    rw [hpipe, htr]
    exact hs.keep _ rfl rfl rfl rfl

/-- What lies in a call's channel was sent to it, and a call that returned nil got there
through all the stages. -/
structure Returns (s : State) : Prop where
  acks : ∀ (c : ℕ) (k : Call) (a : WalAck), s.calls[c]? = some k → k.ack = some a →
    ∃ r, r.id = c ∧ .answered r a ∈ s.trace
  nil : ∀ (c : ℕ) (k : Call) (i : ℕ), s.calls[c]? = some k → k.status = .returned ⟨i, none⟩ →
    ∃ r, r.id = c ∧
      Committed s.trace r ⟨i, none⟩ [.answered r ⟨i, none⟩, .returned c ⟨i, none⟩]

private theorem returns_init (l : Log EnrichedEvent) : Returns (init l) :=
  ⟨by simp [init], by simp [init]⟩

theorem Committed.mono {tr : List Event} {r : WalReq} {a : WalAck} {after : List Event}
    (h : Committed tr r a after) (tr' : List Event) : Committed (tr ++ tr') r a after := by
  obtain ⟨it, batch, hr, ha, hm, hsub⟩ := h
  exact ⟨it, batch, hr, ha, hm, sublist_append_of_sublist hsub tr'⟩

/-- Calls that a step leaves alone, or that are new, carry nothing new. -/
theorem Returns.keep {s t : State} (hs : Returns s) (tr' : List Event)
    (htr : t.trace = s.trace ++ tr') (c : ℕ) (k' : Call) (hold : (∃ k, s.calls[c]? = some k ∧
      k'.status = k.status ∧ k'.ack = k.ack) ∨ k'.status = .enqueueing ∧ k'.ack = none) :
    (∀ a, k'.ack = some a → ∃ r, r.id = c ∧ .answered r a ∈ t.trace) ∧
    ∀ i, k'.status = .returned ⟨i, none⟩ → ∃ r, r.id = c ∧
      Committed t.trace r ⟨i, none⟩ [.answered r ⟨i, none⟩, .returned c ⟨i, none⟩] := by
  rcases hold with ⟨k, hk, hst, hack⟩ | ⟨hst, hack⟩
  · constructor
    · intro a ha
      obtain ⟨r, hr, hm⟩ := hs.acks c k a hk (hack ▸ ha)
      exact ⟨r, hr, htr ▸ List.mem_append_left tr' hm⟩
    · intro i hi
      obtain ⟨r, hr, hc⟩ := hs.nil c k i hk (hst ▸ hi)
      exact ⟨r, hr, htr ▸ hc.mono tr'⟩
  · exact ⟨by simp [hack], by simp [hst]⟩

theorem Returns.same {s t : State} (hs : Returns s) (tr' : List Event)
    (htr : t.trace = s.trace ++ tr') (hcalls : t.calls = s.calls) : Returns t := by
  have hkeep := fun (c : ℕ) (k : Call) (hk : t.calls[c]? = some k) =>
    hs.keep tr' htr c k (.inl ⟨k, hcalls ▸ hk, rfl, rfl⟩)
  exact ⟨fun c k a hk => (hkeep c k hk).1 a, fun c k i hk => (hkeep c k hk).2 i⟩

private theorem returns_step (cfg : Config) (s : State) (a : Action) (t : State)
    (hst : Stages (pipe s) s.trace) (hs : Returns s) (h : step cfg s a = some t) :
    Returns t := by
  cases step_effect h with
  | idle _ htr _ hcalls =>
    have hkeep := fun (c : ℕ) (k : Call) (hk : t.calls[c]? = some k) =>
      hs.keep (t := t) [] (by simp [htr]) c k ((hcalls.new c k hk).imp_right And.right)
    exact ⟨fun c k a hk => (hkeep c k hk).1 a, fun c k i hk => (hkeep c k hk).2 i⟩
  | accepted c k hk _ _ htr _ hcalls =>
    constructor
    · intro d k' a hd ha
      rw [hcalls] at hd
      obtain ⟨k₀, hk₀, rfl⟩ := getElem?_modify_eq_some hd
      have hack : k₀.ack = some a := by
        split at ha <;> exact ha
      exact (hs.keep _ htr d k₀ (.inl ⟨k₀, hk₀, rfl, rfl⟩)).1 a hack
    · intro d k' i hd hret
      rw [hcalls] at hd
      obtain ⟨k₀, hk₀, rfl⟩ := getElem?_modify_eq_some hd
      by_cases hcd : c = d
      · simp [hcd] at hret
      · rw [if_neg hcd] at hret
        exact (hs.keep _ htr d k₀ (.inl ⟨k₀, hk₀, rfl, rfl⟩)).2 i hret
  | tried it q _ _ _ htr _ hcalls => exact hs.same _ htr hcalls
  | syncStarted _ htr _ hcalls => exact hs.same _ htr hcalls
  | syncOk _ _ _ htr _ hcalls => exact hs.same _ htr hcalls
  | syncFailed e _ _ htr _ hcalls => exact hs.same _ htr hcalls
  | answered r a rest _ _ htr _ hcalls =>
    constructor
    · intro d k' a' hd ha
      rw [hcalls] at hd
      obtain ⟨k₀, hk₀, rfl⟩ := getElem?_modify_eq_some hd
      by_cases hrd : r.id = d
      · simp only [if_pos hrd, Option.some.injEq] at ha
        exact ⟨r, hrd, by simp [htr, ha]⟩
      · rw [if_neg hrd] at ha
        exact (hs.keep _ htr d k₀ (.inl ⟨k₀, hk₀, rfl, rfl⟩)).1 a' ha
    · intro d k' i hd hret
      rw [hcalls] at hd
      obtain ⟨k₀, hk₀, rfl⟩ := getElem?_modify_eq_some hd
      have hst₀ : k₀.status = .returned ⟨i, none⟩ := by
        split at hret <;> exact hret
      exact (hs.keep _ htr d k₀ (.inl ⟨k₀, hk₀, rfl, rfl⟩)).2 i hst₀
  | handled env rest _ _ htr _ hcalls =>
    rcases htr with ⟨htr, -⟩ | ⟨htr, -⟩
    all_goals exact hs.same _ htr hcalls
  | returned c k a hk ha _ htr _ hcalls =>
    constructor
    · intro d k' a' hd ha'
      rw [hcalls] at hd
      obtain ⟨k₀, hk₀, rfl⟩ := getElem?_modify_eq_some hd
      have hack : k₀.ack = some a' := by
        split at ha' <;> exact ha'
      exact (hs.keep _ htr d k₀ (.inl ⟨k₀, hk₀, rfl, rfl⟩)).1 a' hack
    · intro d k' i hd hret
      rw [hcalls] at hd
      obtain ⟨k₀, hk₀, rfl⟩ := getElem?_modify_eq_some hd
      by_cases hcd : c = d
      · obtain rfl := hcd
        simp only [if_true, CallStatus.returned.injEq] at hret
        subst hret
        obtain ⟨r, hr, hm⟩ := hs.acks c k _ hk (ha.resolve_right (by simp))
        rcases hst.answered r _ hm with hcom | ⟨herr, -⟩
        · exact ⟨r, hr, htr ▸ hcom.snoc (.returned c ⟨i, none⟩)⟩
        · simp at herr
      · rw [if_neg hcd] at hret
        exact (hs.keep _ htr d k₀ (.inl ⟨k₀, hk₀, rfl, rfl⟩)).2 i hret

structure Inv (s : State) : Prop where
  accounted : Accounted s
  callers : Callers s
  indexed : Indexed s
  stages : Stages (pipe s) s.trace
  returns : Returns s

theorem inv_init (l : Log EnrichedEvent) : Inv (init l) :=
  ⟨accounted_init l, callers_init l, indexed_init l, stages_init l, returns_init l⟩

theorem inv_step (cfg : Config) (s : State) (a : Action) (t : State) (hs : Inv s)
    (h : step cfg s a = some t) : Inv t :=
  ⟨accounted_step cfg s a t hs.accounted h, callers_step cfg s a t hs.callers h,
    indexed_step cfg s a t hs.indexed h, stages_step cfg s a t hs.stages h,
    returns_step cfg s a t hs.stages hs.returns h⟩

theorem inv_exec {cfg : Config} {l : Log EnrichedEvent} {as : List Action} {t : State}
    (h : exec (step cfg) (init l) as = some t) : Inv t :=
  exec_invariant (inv_step cfg) h (inv_init l)

theorem accepted_nodup {s : State} (hs : Callers s) : (acceptedOf s.trace).Nodup :=
  hs.ids.of_map

theorem tried_nodup {s : State} (hs : Inv s) : (triedOf s.trace).Nodup := by
  have h := accepted_nodup hs.callers
  rw [hs.accounted.accepted, List.nodup_append] at h
  exact h.1

private theorem synced_nodup {s : State} (hs : Inv s) : (syncedOf s.trace).Nodup := by
  have h := tried_nodup hs
  rw [hs.accounted.tried, List.nodup_append] at h
  exact h.1

/-- Each stage has seen a part of what the stage before it has seen. -/
theorem answeredOf_isPrefix {s : State} (hs : Accounted s) :
    answeredOf s.trace <+: acceptedOf s.trace := by
  rw [hs.accepted, hs.tried, hs.synced, List.append_assoc, List.append_assoc]
  exact List.prefix_append _ _

/-- No request is answered twice. -/
theorem answered_once {s : State} (hs : Inv s) :
    ((answeredOf s.trace).map WalReq.id).Nodup :=
  ((answeredOf_isPrefix hs.accounted).map WalReq.id).sublist.nodup hs.callers.ids

theorem appended_of_ack {it : Item} {i : ℕ} (h : it.ack = ⟨i, none⟩) :
    outcome it = .appended it.req i := by
  obtain ⟨r, j, e⟩ := it
  cases h
  rfl

/-- A request whose append or whose batch's sync failed is not answered nil. -/
theorem failed_not_nil {s : State} (hs : Inv s) {r : WalReq} {a : WalAck}
    (ha : .answered r a ∈ s.trace)
    (hf : .appendFailed r ∈ s.trace ∨ ∃ batch, r ∈ batch ∧ .syncFailed batch ∈ s.trace) :
    a.err ≠ none := by
  intro hnil
  obtain ⟨i, err⟩ := a
  obtain rfl : err = none := hnil
  rcases hs.stages.answered r _ ha with ⟨it, batch, rfl, hack, hm, hsub⟩ | ⟨herr, -⟩
  · rw [appended_of_ack hack] at hsub
    rcases hf with hf | ⟨batch', hm', hf⟩
    · have happ : Event.appended it.req i ∈ s.trace := hsub.subset (by simp)
      have heq := eq_of_nodup_flatMap (tried_nodup hs) happ hf (x := it.req) (by simp) (by simp)
      cases heq
    · have hok : Event.syncOk batch ∈ s.trace := hsub.subset (by simp)
      have heq := eq_of_nodup_flatMap (synced_nodup hs) hok hf (x := it.req) hm hm'
      cases heq
  · exact herr rfl

/-- A call that returned nil went through all the stages with its own event. -/
theorem returned_committed {s : State} (hs : Inv s) {c i : ℕ} {k : Call}
    (hk : s.calls[c]? = some k) (hret : k.status = .returned ⟨i, none⟩) :
    .appended ⟨c, k.ev⟩ i ∈ s.trace ∧ ∃ batch, ⟨c, k.ev⟩ ∈ batch ∧
      List.Sublist [.appended ⟨c, k.ev⟩ i, .syncStarted batch, .syncOk batch,
        .answered ⟨c, k.ev⟩ ⟨i, none⟩, .returned c ⟨i, none⟩] s.trace := by
  obtain ⟨r, hid, it, batch, hr, hack, hm, hsub⟩ := hs.returns.nil c k i hk hret
  rw [appended_of_ack hack, hr] at hsub
  have happ : Event.appended r i ∈ s.trace := hsub.subset (by simp)
  have hacc : r ∈ acceptedOf s.trace := by
    rw [hs.accounted.accepted]
    exact List.mem_append_left _ (List.mem_flatMap.mpr ⟨_, happ, by simp⟩)
  obtain ⟨k', hk', hev⟩ := hs.callers.known r hacc
  obtain rfl : k = k' := Option.some.inj (hk.symm.trans (hid ▸ hk'))
  obtain rfl : r = ⟨c, k.ev⟩ := by
    obtain ⟨rid, rev⟩ := r
    simp only at hid hev
    rw [hid, hev]
  exact ⟨happ, batch, hm, hsub⟩

theorem appended_index_inj {s : State} (hs : Indexed s) {r r' : WalReq} {i : ℕ}
    (h : .appended r i ∈ s.trace) (h' : .appended r' i ∈ s.trace) : r = r' := by
  have hnodup : (indicesOf s.trace).Nodup := hs.increasing.imp (fun hlt => Nat.ne_of_lt hlt)
  have heq := eq_of_nodup_flatMap hnodup h h' (x := i) (by simp) (by simp)
  exact (Event.appended.inj heq).1

/-- One call is appended, synced and answered. -/
def oneCall : List Action :=
  [.call {}, .enqueue 0, .loopRecv, .append {}, .syncBegin, .syncEnd true, .answer, .receive 0]

def oneCallTrace : List Event :=
  [.accepted ⟨0, {}⟩, .appended ⟨0, {}⟩ 1, .syncStarted [⟨0, {}⟩], .syncOk [⟨0, {}⟩],
    .answered ⟨0, {}⟩ ⟨1, none⟩, .returned 0 ⟨1, none⟩]

def afterOneCall : State where
  wal := ⟨⟨[], ⟨1, [{}], [.entry {}]⟩, 1, false⟩, 2⟩
  incoming := []
  out := []
  stopped := false
  phase := .delivering [⟨1, {}⟩] .loop
  pending := []
  timerActive := false
  calls := [⟨{}, false, .returned ⟨1, none⟩, some ⟨1, none⟩⟩]
  trace := oneCallTrace

end Statnive.GroupCommit
