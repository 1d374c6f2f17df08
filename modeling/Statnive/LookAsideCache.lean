import Mathlib.Data.List.Basic
import Mathlib.Logic.Function.Basic
import Mathlib.Tactic.Common
import Statnive.LabelledRuns
import Statnive.ListAccounting

/-!
# Look-aside caches

A look-up that misses the cache loads the value from the store and then puts it into the
cache, in two steps. A revocation changes the store and drops entries, also in two steps,
in one order or the other. Everything may run in between. An entry that is filled in after
the revocation has dropped it keeps serving what was revoked.
-/

namespace Statnive.LookAsideCache

open LabelledRuns ListAccounting

variable {σ κ ν ρ : Type*}

/-- A cache of the values `ν` of keys `κ` over a store `σ`, with the targets `ρ` of a
revocation. `load` and `revoke` are the store's, with `none` for an error, and `serves` says
whether an entry that is fresh is served at a time. -/
structure Design (σ κ ν ρ : Type*) where
  load : σ → κ → ℕ → Option ν
  revoke : σ → ρ → ℕ → Option σ
  serves : ν → ℕ → Bool
  covers : ρ → κ → Bool
  dropsFirst : Bool
  dropsOnError : Bool
  ttl : ℕ

inductive Phase (ν : Type*) where
  | missed
  | loaded (v : Option ν)
  | done (v : Option ν)

/-- `after` lists the targets whose revocation had returned before the look-up began. -/
structure Lookup (κ ν ρ : Type*) where
  key : κ
  startedAt : ℕ
  after : List ρ
  phase : Phase ν

inductive Stage where
  | started | committed | failed | returned

structure Revocation (ρ : Type*) where
  target : ρ
  stage : Stage

structure State (σ κ ν ρ : Type*) where
  store : σ
  clock : ℕ
  items : κ → Option (ν × ℕ) := fun _ => none
  lookups : List (Lookup κ ν ρ) := []
  revocations : List (Revocation ρ) := []
  /-- The targets whose revocation has returned success. -/
  revoked : List ρ := []

/-- A query of the store fails when it is not `up`. -/
inductive Action (κ ρ : Type*) where
  | lookup (key : κ) (now : ℕ)
  | load (i : ℕ) (now : ℕ) (up : Bool)
  | fill (i : ℕ)
  | revoke (target : ρ)
  | commit (j : ℕ) (now : ℕ) (up : Bool)
  | drop (j : ℕ)

def State.setPhase (s : State σ κ ν ρ) (i : ℕ) (p : Phase ν) : State σ κ ν ρ :=
  { s with lookups := s.lookups.modify i (fun l => { l with phase := p }) }

def State.setStage (s : State σ κ ν ρ) (j : ℕ) (stage : Stage) : State σ κ ν ρ :=
  { s with revocations := s.revocations.modify j (fun rv => { rv with stage := stage }) }

def State.dropEntries (d : Design σ κ ν ρ) (s : State σ κ ν ρ) (r : ρ) : State σ κ ν ρ :=
  { s with items := fun k => if d.covers r k then none else s.items k }

def State.begin (s : State σ κ ν ρ) (k : κ) (now : ℕ) (p : Phase ν) : State σ κ ν ρ :=
  { s with clock := now, lookups := s.lookups ++ [⟨k, now, s.revoked, p⟩] }

def State.setItem [DecidableEq κ] (s : State σ κ ν ρ) (k : κ) (e : Option (ν × ℕ)) :
    State σ κ ν ρ :=
  { s with items := Function.update s.items k e }

/-- The first part of a look-up: a fresh entry that is not served is dropped. -/
def beginLookup [DecidableEq κ] (d : Design σ κ ν ρ) (s : State σ κ ν ρ) (k : κ) (now : ℕ) :
    State σ κ ν ρ :=
  match s.items k with
  | none => s.begin k now .missed
  | some (v, expiresAt) =>
    if now < expiresAt then
      if d.serves v now then s.begin k now (.done (some v))
      else (s.setItem k none).begin k now .missed
    else s.begin k now .missed

/-- The last part: a value is put into the cache, for the time from the look-up's start. -/
def finishLookup [DecidableEq κ] (d : Design σ κ ν ρ) (s : State σ κ ν ρ) (i : ℕ)
    (l : Lookup κ ν ρ) (loaded : Option ν) : State σ κ ν ρ :=
  match loaded with
  | some v => (s.setPhase i (.done (some v))).setItem l.key (some (v, l.startedAt + d.ttl))
  | none =>
    if d.dropsOnError then (s.setPhase i (.done none)).setItem l.key none
    else s.setPhase i (.done none)

/-- The revocation in the store. When the entries were dropped before, the call returns. -/
def commitRevocation (d : Design σ κ ν ρ) (s : State σ κ ν ρ) (j : ℕ) (r : ρ) (now : ℕ)
    (up : Bool) : State σ κ ν ρ :=
  match if up then d.revoke s.store r now else none with
  | none => { s.setStage j .failed with clock := now }
  | some store =>
    if d.dropsFirst then
      { s.setStage j .returned with store := store, clock := now, revoked := r :: s.revoked }
    else { s.setStage j .committed with store := store, clock := now }

def step [DecidableEq κ] (d : Design σ κ ν ρ) (s : State σ κ ν ρ) :
    Action κ ρ → Option (State σ κ ν ρ)
  | .lookup k now => if s.clock ≤ now then some (beginLookup d s k now) else none
  | .load i now up => match s.lookups[i]? with
    | some ⟨k, _, _, .missed⟩ =>
      if s.clock ≤ now then
        some { s.setPhase i (.loaded (if up then d.load s.store k now else none)) with
          clock := now }
      else none
    | _ => none
  | .fill i => match s.lookups[i]? with
    | some ⟨k, t, after, .loaded v⟩ => some (finishLookup d s i ⟨k, t, after, .loaded v⟩ v)
    | _ => none
  | .revoke r =>
    let begun := { s with revocations := s.revocations ++ [⟨r, .started⟩] }
    some (if d.dropsFirst then begun.dropEntries d r else begun)
  | .commit j now up => match s.revocations[j]? with
    | some ⟨r, .started⟩ => if s.clock ≤ now then some (commitRevocation d s j r now up) else none
    | _ => none
  | .drop j => match s.revocations[j]? with
    | some ⟨r, .committed⟩ =>
      let dropped := (s.dropEntries d r).setStage j .returned
      some { dropped with revoked := r :: s.revoked }
    | _ => none

/-- The values that reveal a revoked target, and the stores that no longer yield one. `clean`
is kept by every later revocation, and the entries that a revocation drops are all that could
reveal its target. -/
structure Revocable (d : Design σ κ ν ρ) where
  reveals : ρ → κ → ν → Prop
  good : σ → ℕ → Prop
  clean : ρ → σ → ℕ → Prop
  covers : ∀ r k v, reveals r k v → d.covers r k = true
  good_mono : ∀ st c now, good st c → c ≤ now → good st now
  clean_mono : ∀ r st c now, clean r st c → c ≤ now → clean r st now
  good_revoke : ∀ st c now r st', good st c → c ≤ now → d.revoke st r now = some st' →
    good st' now
  clean_of_revoke : ∀ st c now r st', good st c → c ≤ now → d.revoke st r now = some st' →
    clean r st' now
  clean_revoke : ∀ st c now r r' st', good st c → clean r st c → c ≤ now →
    d.revoke st r' now = some st' → clean r st' now
  load_clean : ∀ r st c now k v, clean r st c → c ≤ now → d.load st k now = some v →
    ¬ reveals r k v

variable {d : Design σ κ ν ρ} (R : Revocable d)

/-- No look-up that began after a revocation had returned yields what it revoked. -/
def Immediate (s : State σ κ ν ρ) : Prop :=
  ∀ l ∈ s.lookups, ∀ r ∈ l.after, ∀ v, l.phase = .done (some v) → ¬ R.reveals r l.key v

/-- What was revoked stays out of the cache: no look-up fills it in after the revocation has
returned, unless the entry is past its time already, and a revocation that drops its entries
first finds none of them filled in again when the store has made it. -/
def KeepsOut (s : State σ κ ν ρ) : Action κ ρ → Prop
  | .fill i => ∀ l v, s.lookups[i]? = some l → l.phase = .loaded (some v) →
      l.startedAt + d.ttl ≤ s.clock ∨ ∀ r ∈ s.revoked, ¬ R.reveals r l.key v
  | .commit j now up => d.dropsFirst = true → ∀ r st, s.revocations[j]? = some ⟨r, .started⟩ →
      up = true → d.revoke s.store r now = some st →
      ∀ k v expiresAt, s.items k = some (v, expiresAt) →
        expiresAt ≤ now ∨ ¬ R.reveals r k v
  | _ => True

variable {R} in
/-- A cache that is written through has nothing to keep out when the store is. -/
theorem keepsOut_commit (h : d.dropsFirst = false) {s : State σ κ ν ρ} {j now : ℕ} {up : Bool} :
    KeepsOut R s (.commit j now up) := by
  intro hfirst
  simp [h] at hfirst

/-- Nothing has happened yet. -/
structure Starts (s : State σ κ ν ρ) : Prop where
  good : R.good s.store s.clock
  items : ∀ k, s.items k = none
  lookups : s.lookups = []
  revocations : s.revocations = []
  revoked : s.revoked = []

structure Inv (s : State σ κ ν ρ) : Prop where
  good : R.good s.store s.clock
  clean : ∀ r ∈ s.revoked, R.clean r s.store s.clock
  committed : ∀ (j : ℕ) (r : ρ), s.revocations[j]? = some ⟨r, .committed⟩ →
    R.clean r s.store s.clock
  items : ∀ k v expiresAt, s.items k = some (v, expiresAt) → s.clock < expiresAt →
    ∀ r ∈ s.revoked, ¬ R.reveals r k v
  after : ∀ l ∈ s.lookups, ∀ r ∈ l.after, r ∈ s.revoked
  loaded : ∀ l ∈ s.lookups, ∀ v, l.phase = .loaded (some v) ∨ l.phase = .done (some v) →
    ∀ r ∈ l.after, ¬ R.reveals r l.key v

variable {R}

theorem inv_of_starts {s : State σ κ ν ρ} (h : Starts R s) : Inv R s where
  good := h.good
  clean := by simp [h.revoked]
  committed := by simp [h.revocations]
  items := by simp [h.items]
  after := by simp [h.lookups]
  loaded := by simp [h.lookups]

theorem Inv.later {s : State σ κ ν ρ} (hs : Inv R s) {now : ℕ} (hnow : s.clock ≤ now) :
    Inv R { s with clock := now } where
  good := R.good_mono _ _ _ hs.good hnow
  clean := fun r hr => R.clean_mono _ _ _ _ (hs.clean r hr) hnow
  committed := fun j r hj => R.clean_mono _ _ _ _ (hs.committed j r hj) hnow
  items := fun k v e he hlt => hs.items k v e he (Nat.lt_of_le_of_lt hnow hlt)
  after := hs.after
  loaded := hs.loaded

theorem Inv.setItem [DecidableEq κ] {s : State σ κ ν ρ} (hs : Inv R s) {k : κ} {e : Option (ν × ℕ)}
    (he : ∀ v expiresAt, e = some (v, expiresAt) → s.clock < expiresAt →
      ∀ r ∈ s.revoked, ¬ R.reveals r k v) : Inv R (s.setItem k e) where
  good := hs.good
  clean := hs.clean
  committed := hs.committed
  items := by
    intro k' v expiresAt hitem hlt
    by_cases hk : k' = k
    · subst hk
      exact he v expiresAt (by simpa [State.setItem] using hitem) hlt
    · exact hs.items k' v expiresAt (by simpa [State.setItem, hk] using hitem) hlt
  after := hs.after
  loaded := hs.loaded

theorem Inv.dropEntries {s : State σ κ ν ρ} (hs : Inv R s) (r : ρ) :
    Inv R (s.dropEntries d r) where
  good := hs.good
  clean := hs.clean
  committed := hs.committed
  items := by
    intro k v expiresAt hitem hlt
    cases hcovers : d.covers r k with
    | true => simp [State.dropEntries, hcovers] at hitem
    | false => exact hs.items k v expiresAt (by simpa [State.dropEntries, hcovers] using hitem) hlt
  after := hs.after
  loaded := hs.loaded

theorem Inv.begin {s : State σ κ ν ρ} (hs : Inv R s) {k : κ} {now : ℕ} {p : Phase ν}
    (hnow : s.clock ≤ now)
    (hp : ∀ v, p = .loaded (some v) ∨ p = .done (some v) → ∀ r ∈ s.revoked, ¬ R.reveals r k v) :
    Inv R (s.begin k now p) where
  good := (hs.later hnow).good
  clean := (hs.later hnow).clean
  committed := (hs.later hnow).committed
  items := (hs.later hnow).items
  after := by
    intro l hl r hr
    rcases List.mem_append.mp hl with hl | hl
    · exact hs.after l hl r hr
    · rw [List.mem_singleton.mp hl] at hr
      exact hr
  loaded := by
    intro l hl v hv r hr
    rcases List.mem_append.mp hl with hl | hl
    · exact hs.loaded l hl v hv r hr
    · rw [List.mem_singleton.mp hl] at hv hr ⊢
      exact hp v hv r hr

theorem Inv.setPhase {s : State σ κ ν ρ} (hs : Inv R s) {i : ℕ} {l : Lookup κ ν ρ} {p : Phase ν}
    (hi : s.lookups[i]? = some l)
    (hp : ∀ v, p = .loaded (some v) ∨ p = .done (some v) →
      ∀ r ∈ l.after, ¬ R.reveals r l.key v) : Inv R (s.setPhase i p) where
  good := hs.good
  clean := hs.clean
  committed := hs.committed
  items := hs.items
  after := by
    intro l' hl' r hr
    rcases mem_modify hl' with hold | ⟨b, hb, rfl⟩
    · exact hs.after l' hold r hr
    · exact hs.after b (List.mem_of_getElem? hb) r hr
  loaded := by
    intro l' hl' v hv r hr
    rcases mem_modify hl' with hold | ⟨b, hb, rfl⟩
    · exact hs.loaded l' hold v hv r hr
    · obtain rfl : l = b := Option.some.inj (hi.symm.trans hb)
      exact hp v hv r hr

/-- A revocation moves on; what it has made of the store is clean of its target. -/
theorem Inv.setStage {s : State σ κ ν ρ} (hs : Inv R s) {j : ℕ} {rv : Revocation ρ} {stage : Stage}
    (hj : s.revocations[j]? = some rv)
    (hstage : stage = .committed → R.clean rv.target s.store s.clock) :
    Inv R (s.setStage j stage) where
  good := hs.good
  clean := hs.clean
  committed := by
    intro j' r hj'
    obtain ⟨b, hb, heq⟩ := getElem?_modify_eq_some hj'
    by_cases hjj : j = j'
    · subst hjj
      obtain rfl : rv = b := Option.some.inj (hj.symm.trans hb)
      rw [if_pos rfl] at heq
      obtain ⟨rfl, rfl⟩ : r = rv.target ∧ Stage.committed = stage := by simpa using heq
      exact hstage rfl
    · rw [if_neg hjj] at heq
      exact hs.committed j' r (heq ▸ hb)
  items := hs.items
  after := hs.after
  loaded := hs.loaded

/-- A further target counts as revoked. -/
theorem Inv.revoked {s : State σ κ ν ρ} (hs : Inv R s) {r : ρ}
    (hclean : R.clean r s.store s.clock)
    (hitems : ∀ k v expiresAt, s.items k = some (v, expiresAt) → s.clock < expiresAt →
      ¬ R.reveals r k v) : Inv R { s with revoked := r :: s.revoked } where
  good := hs.good
  clean := by
    intro r' hr'
    rcases List.mem_cons.mp hr' with rfl | hr'
    · exact hclean
    · exact hs.clean r' hr'
  committed := hs.committed
  items := by
    intro k v expiresAt hitem hlt r' hr'
    rcases List.mem_cons.mp hr' with rfl | hr'
    · exact hitems k v expiresAt hitem hlt
    · exact hs.items k v expiresAt hitem hlt r' hr'
  after := fun l hl r' hr' => List.mem_cons_of_mem _ (hs.after l hl r' hr')
  loaded := hs.loaded

/-- The store after a revocation. -/
theorem Inv.withStore {s : State σ κ ν ρ} (hs : Inv R s) {r : ρ} {now : ℕ} {st : σ}
    (hnow : s.clock ≤ now) (hrevoke : d.revoke s.store r now = some st) :
    Inv R { s with store := st, clock := now } where
  good := R.good_revoke _ _ _ _ _ hs.good hnow hrevoke
  clean := fun r' hr' => R.clean_revoke _ _ _ _ _ _ hs.good (hs.clean r' hr') hnow hrevoke
  committed := fun j r' hj =>
    R.clean_revoke _ _ _ _ _ _ hs.good (hs.committed j r' hj) hnow hrevoke
  items := (hs.later hnow).items
  after := hs.after
  loaded := hs.loaded

theorem setPhase_self {s : State σ κ ν ρ} {i : ℕ} {l : Lookup κ ν ρ} (h : s.lookups[i]? = some l)
    (p : Phase ν) : (s.setPhase i p).lookups[i]? = some { l with phase := p } := by
  simp [State.setPhase, h]

theorem begin_last (s : State σ κ ν ρ) (k : κ) (now : ℕ) (p : Phase ν) :
    (s.begin k now p).lookups[s.lookups.length]? = some ⟨k, now, s.revoked, p⟩ := by
  simp [State.begin]

theorem step_fill [DecidableEq κ] {s : State σ κ ν ρ} {i : ℕ} {l : Lookup κ ν ρ} {v : Option ν}
    (hi : s.lookups[i]? = some { l with phase := .loaded v }) :
    step d s (.fill i) = some (finishLookup d s i { l with phase := .loaded v } v) := by
  simp only [step, hi]

theorem Inv.beginLookup [DecidableEq κ] {s : State σ κ ν ρ} (hs : Inv R s) {now : ℕ}
    (hnow : s.clock ≤ now) (k : κ) : Inv R (beginLookup d s k now) := by
  have hmissed : ∀ v : ν, Phase.missed = .loaded (some v) ∨ Phase.missed = .done (some v) →
      ∀ r ∈ s.revoked, ¬ R.reveals r k v := by
    intro v hv
    simp at hv
  simp only [LookAsideCache.beginLookup]
  cases hitem : s.items k with
  | none => exact hs.begin hnow hmissed
  | some e =>
    obtain ⟨v, expiresAt⟩ := e
    by_cases hfresh : now < expiresAt
    · cases hserves : d.serves v now with
      | true =>
        simp only [hfresh, hserves, if_true]
        apply hs.begin hnow
        intro v' hv'
        obtain rfl : v = v' := by simpa using hv'
        exact hs.items k v expiresAt hitem (Nat.lt_of_le_of_lt hnow hfresh)
      | false =>
        simp only [hfresh, hserves, if_true, Bool.false_eq_true, if_false]
        exact (hs.setItem (fun _ _ he => by cases he)).begin hnow hmissed
    · simp only [hfresh, if_false]
      exact hs.begin hnow hmissed

theorem Inv.load {s : State σ κ ν ρ} (hs : Inv R s) {i : ℕ} {l : Lookup κ ν ρ} {now : ℕ}
    (hi : s.lookups[i]? = some l) (hnow : s.clock ≤ now) (up : Bool) :
    Inv R { s.setPhase i (.loaded (if up then d.load s.store l.key now else none)) with
      clock := now } := by
  apply (hs.setPhase hi _).later hnow
  intro v hv r hr
  have hload : d.load s.store l.key now = some v := by
    cases up <;> simp at hv
    exact hv
  exact R.load_clean r _ _ _ _ v (hs.clean r (hs.after l (List.mem_of_getElem? hi) r hr)) hnow hload

theorem Inv.fill [DecidableEq κ] {s : State σ κ ν ρ} (hs : Inv R s) {i : ℕ} {l : Lookup κ ν ρ}
    {v : Option ν} (hi : s.lookups[i]? = some l) (hl : l.phase = .loaded v)
    (hkeeps : KeepsOut R s (.fill i)) : Inv R (finishLookup d s i l v) := by
  cases v with
  | none =>
    have hdone : Inv R (s.setPhase i (.done none)) := hs.setPhase hi (by simp)
    simp only [finishLookup]
    split_ifs
    · exact hdone.setItem (by simp)
    · exact hdone
  | some v =>
    have hharmless := hs.loaded l (List.mem_of_getElem? hi) v (Or.inl hl)
    have hdone : Inv R (s.setPhase i (.done (some v))) := by
      apply hs.setPhase hi
      intro v' hv'
      obtain rfl : v = v' := by simpa using hv'
      exact hharmless
    apply hdone.setItem
    intro v' expiresAt he hlt
    obtain ⟨rfl, rfl⟩ : v = v' ∧ l.startedAt + d.ttl = expiresAt := by simpa using he
    rcases hkeeps l v hi hl with hpast | hkeeps
    · exact absurd hlt (Nat.not_lt.mpr hpast)
    · exact hkeeps

theorem Inv.revoke {s : State σ κ ν ρ} (hs : Inv R s) (r : ρ) :
    Inv R { s with revocations := s.revocations ++ [⟨r, .started⟩] } where
  good := hs.good
  clean := hs.clean
  committed := by
    intro j r' hj
    by_cases hlt : j < s.revocations.length
    · exact hs.committed j r' (List.getElem?_append_left hlt ▸ hj)
    · rw [List.getElem?_append_right (Nat.not_lt.mp hlt)] at hj
      simpa using List.mem_of_getElem? hj
  items := hs.items
  after := hs.after
  loaded := hs.loaded

theorem Inv.commit {s : State σ κ ν ρ} (hs : Inv R s) {j : ℕ} {r : ρ} {now : ℕ} {up : Bool}
    (hj : s.revocations[j]? = some ⟨r, .started⟩) (hnow : s.clock ≤ now)
    (hkeeps : KeepsOut R s (.commit j now up)) : Inv R (commitRevocation d s j r now up) := by
  have hfailed : Inv R { s.setStage j .failed with clock := now } :=
    (hs.setStage hj (by simp)).later hnow
  simp only [commitRevocation]
  cases up with
  | false => simpa using hfailed
  | true =>
    cases hrevoke : d.revoke s.store r now with
    | none => simpa using hfailed
    | some st =>
      have hstore := hs.withStore hnow hrevoke
      have hclean : R.clean r st now := R.clean_of_revoke _ _ _ _ _ hs.good hnow hrevoke
      cases hfirst : d.dropsFirst with
      | true =>
        have hreturned : Inv R (({ s with store := st, clock := now } : State σ κ ν ρ).setStage j
            .returned) := hstore.setStage hj (by simp)
        simp only [if_true]
        apply hreturned.revoked hclean
        intro k v expiresAt hitem hlt
        rcases hkeeps hfirst r st hj rfl hrevoke k v expiresAt hitem with hpast | hkeeps
        · exact absurd hlt (Nat.not_lt.mpr hpast)
        · exact hkeeps
      | false =>
        simp only [if_true]
        exact hstore.setStage hj (fun _ => hclean)

theorem Inv.drop {s : State σ κ ν ρ} (hs : Inv R s) {j : ℕ} {r : ρ}
    (hj : s.revocations[j]? = some ⟨r, .committed⟩) :
    Inv R { (s.dropEntries d r).setStage j .returned with revoked := r :: s.revoked } := by
  have hdropped : Inv R ((s.dropEntries d r).setStage j .returned) :=
    (hs.dropEntries r).setStage hj (by simp)
  apply hdropped.revoked (hs.committed j r hj)
  intro k v expiresAt hitem _ hreveals
  have hcovers := R.covers r k v hreveals
  simp [State.setStage, State.dropEntries, hcovers] at hitem

theorem inv_step [DecidableEq κ] {s t : State σ κ ν ρ} {a : Action κ ρ} (hs : Inv R s)
    (hkeeps : KeepsOut R s a) (h : step d s a = some t) : Inv R t := by
  cases a with
  | lookup k now =>
    simp only [step] at h
    split_ifs at h with hnow
    exact Option.some.inj h ▸ hs.beginLookup hnow k
  | load i now up =>
    simp only [step] at h
    split at h
    · by_cases hnow : s.clock ≤ now
      · rw [if_pos hnow] at h
        exact Option.some.inj h ▸ hs.load ‹_› hnow up
      · simp [hnow] at h
    · cases h
  | fill i =>
    simp only [step] at h
    split at h
    · exact Option.some.inj h ▸ hs.fill ‹_› rfl hkeeps
    · cases h
  | revoke r =>
    simp only [step] at h
    obtain rfl := Option.some.inj h
    split_ifs
    · exact (hs.revoke r).dropEntries r
    · exact hs.revoke r
  | commit j now up =>
    simp only [step] at h
    split at h
    · split_ifs at h with hnow
      exact Option.some.inj h ▸ hs.commit ‹_› hnow hkeeps
    · cases h
  | drop j =>
    simp only [step] at h
    split at h
    · exact Option.some.inj h ▸ hs.drop ‹_›
    · cases h

/-- In every run that keeps what was revoked out of the cache, no look-up that begins after a
revocation has returned yields what it revoked. -/
theorem immediate_of_keepsOut [DecidableEq κ] {s t : State σ κ ν ρ} {as : List (Action κ ρ)}
    (hstart : Starts R s) (hrun : exec (step d) s as = some t)
    (hkeeps : Along (step d) (KeepsOut R) s as) :
    Immediate R t := by
  have hinv := exec_guarded (fun _ _ _ hs hkeeps hstep => inv_step hs hkeeps hstep) hkeeps hrun
    (inv_of_starts hstart)
  exact fun l hl r hr v hv => hinv.loaded l hl v (Or.inr hv) r hr

/-- The entries after a load and a fill with nothing in between, and the answer. -/
def Design.fetch [DecidableEq κ] (d : Design σ κ ν ρ) (store : σ) (items : κ → Option (ν × ℕ))
    (k : κ) (now : ℕ) (up : Bool) : (κ → Option (ν × ℕ)) × Option ν :=
  match if up then d.load store k now else none with
  | some v => (Function.update items k (some (v, now + d.ttl)), some v)
  | none => (if d.dropsOnError then Function.update items k none else items, none)

def Design.read [DecidableEq κ] (d : Design σ κ ν ρ) (store : σ) (items : κ → Option (ν × ℕ))
    (k : κ) (now : ℕ) (up : Bool) : (κ → Option (ν × ℕ)) × Option ν :=
  match items k with
  | none => d.fetch store items k now up
  | some (v, expiresAt) =>
    if now < expiresAt then
      if d.serves v now then (items, some v)
      else d.fetch store (Function.update items k none) k now up
    else d.fetch store items k now up

end Statnive.LookAsideCache
