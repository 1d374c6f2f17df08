import Mathlib.Data.List.TakeDrop
import Statnive.WriteAheadLog

/-!
# The replay at boot

`replayWAL` inserts every entry of the log that decodes, in batches, and then acks the
index that was current when it started. The log never becomes empty, so its last entry
stays and the next boot reads it again.
-/

namespace Statnive.BootReplay

open SegmentedLog WriteAheadLog

def replayBatchSize : ℕ := 1000

/-- What one boot meets: segments that do not load, the outcome of its `n`-th call of
`InsertBatch`, and how the truncation of the final ack ends. -/
structure BootEnv (Ev : Type) where
  segmentCorrupt : ℕ → Bool := fun _ => false
  insertOk : ℕ → List Ev → Bool := fun _ _ => true
  truncate : TruncateFault := .none

/-- The variables of `replayWAL`, and the rows of its successful `InsertBatch` calls. -/
structure ReplayState (Ev : Type) where
  batch : List Ev := []
  total : ℕ := 0
  calls : ℕ := 0
  inserted : List Ev := []
  deriving DecidableEq

variable {α Ev : Type}

def flush (env : BootEnv Ev) (st : ReplayState Ev) : Except Unit Unit × ReplayState Ev :=
  if st.batch = [] then (.ok (), st)
  else if env.insertOk st.calls st.batch then
    (.ok (), ⟨[], st.total + st.batch.length, st.calls + 1, st.inserted ++ st.batch⟩)
  else (.error (), { st with calls := st.calls + 1 })

/-- The callback that `replayWAL` hands to `Replay`. -/
def onEvent (env : BootEnv Ev) (st : ReplayState Ev) (ev : Ev) :
    Except Unit Unit × ReplayState Ev :=
  let st' := { st with batch := st.batch ++ [ev] }
  if replayBatchSize ≤ st'.batch.length then flush env st' else (.ok (), st')

/-- `acked` is the index passed to `Ack`, whose own error is only logged. -/
structure BootResult (α Ev : Type) where
  err : Option (LogError ⊕ Unit)
  wal : WALWriter α
  inserted : List Ev
  acked : Option ℕ

def replayWAL (fmt : Format α) (decode : α → Option Ev) (env : BootEnv Ev) (w : WALWriter α) :
    BootResult α Ev :=
  if w.currentIndex = 0 then ⟨none, w, [], none⟩
  else match w.replay fmt decode env.segmentCorrupt (onEvent env) {} with
    | (.error e, st) => ⟨some e, w, st.inserted, none⟩
    | (.ok (), st) =>
      match flush env st with
      | (.error e, st') => ⟨some (.inr e), w, st'.inserted, none⟩
      | (.ok (), st') =>
        if 0 < st'.total then
          ⟨none, (w.ack fmt w.currentIndex env.truncate).2, st'.inserted, some w.currentIndex⟩
        else ⟨none, w, st'.inserted, none⟩

/-- A boot opens the log and replays it. -/
def boot (fmt : Format α) (decode : α → Option Ev) (env : BootEnv Ev) (l : Log α) :
    BootResult α Ev :=
  match l.reopen fmt with
  | .error e => ⟨some (.inl e), newWALWriter l, [], none⟩
  | .ok opened => replayWAL fmt decode env (newWALWriter opened)

/-- The log after a sequence of boots between which nothing is appended. -/
def bootAll (fmt : Format α) (decode : α → Option Ev) (l : Log α) (envs : List (BootEnv Ev)) :
    Log α :=
  envs.foldl (fun l env => (boot fmt decode env l).wal.log) l

/-- The loop of `Replay` over the entries themselves. -/
def replayEntries (decode : α → Option Ev) (segmentCorrupt : ℕ → Bool) (env : BootEnv Ev) :
    ℕ → List α → ReplayState Ev → Except (LogError ⊕ Unit) Unit × ReplayState Ev
  | _, [], st => (.ok (), st)
  | i, data :: rest, st =>
    if segmentCorrupt i then (.error (.inl .corrupt), st)
    else match decode data with
      | none => replayEntries decode segmentCorrupt env (i + 1) rest st
      | some ev => match onEvent env st ev with
        | (.ok (), st') => replayEntries decode segmentCorrupt env (i + 1) rest st'
        | (.error e, st') => (.error (.inr e), st')

variable {fmt : Format α}

private theorem replayFrom_eq {l : Log α} (horder : l.InOrder) (hc : l.corrupt = false)
    (decode : α → Option Ev) (env : BootEnv Ev) (n k : ℕ) (hn : n = l.entries.length - k)
    (st : ReplayState Ev) :
    replayFrom fmt l decode env.segmentCorrupt (onEvent env) n (l.first + k) st =
      replayEntries decode env.segmentCorrupt env (l.first + k) (l.entries.drop k) st := by
  induction n generalizing k st with
  | zero =>
    have hnil : l.entries.drop k = [] := List.drop_eq_nil_of_le (by omega)
    rw [hnil]
    rfl
  | succ n ih =>
    have hk : k < l.entries.length := by omega
    have hget : l.entries[k]? = some l.entries[k] := List.getElem?_eq_getElem hk
    rw [List.drop_eq_getElem_cons hk]
    simp only [replayFrom, replayEntries, horder.read fmt hc hget]
    cases hbad : env.segmentCorrupt (l.first + k) with
    | true => rfl
    | false =>
      simp only [Bool.false_eq_true, if_false, Nat.add_assoc]
      cases hd : decode l.entries[k] with
      | none => exact ih (k + 1) (by omega) st
      | some ev =>
        simp only []
        rcases hev : onEvent env st ev with ⟨r, st'⟩
        cases r with
        | ok _ => exact ih (k + 1) (by omega) st'
        | error e => rfl

theorem replay_eq {l : Log α} (horder : l.InOrder) (hc : l.corrupt = false)
    (decode : α → Option Ev) (env : BootEnv Ev) (hne : l.entries ≠ []) (st : ReplayState Ev) :
    (newWALWriter l).replay fmt decode env.segmentCorrupt (onEvent env) st =
      replayEntries decode env.segmentCorrupt env l.first l.entries st := by
  rw [WALWriter.replay_eq (w := newWALWriter l) horder fmt hc hne]
  exact replayFrom_eq horder hc decode env l.entries.length 0 rfl st

/-- The counter follows the rows inserted. -/
def Counted (st : ReplayState Ev) : Prop := st.total = st.inserted.length

theorem flush_counted {env : BootEnv Ev} {st : ReplayState Ev} (h : Counted st) :
    Counted (flush env st).2 := by
  unfold flush
  split
  · exact h
  · split
    · simp only [Counted] at h ⊢
      simp [h]
    · exact h

private theorem onEvent_counted
    {env : BootEnv Ev} {st : ReplayState Ev} (h : Counted st) (ev : Ev) :
    Counted (onEvent env st ev).2 := by
  dsimp only [onEvent]
  split
  · exact flush_counted h
  · exact h

/-- A flush that returns nil moves the batch to the store. -/
theorem flush_ok {env : BootEnv Ev} {st st' : ReplayState Ev} (h : flush env st = (.ok (), st')) :
    st'.batch = [] ∧ st'.inserted = st.inserted ++ st.batch := by
  unfold flush at h
  split at h
  · rename_i hb
    obtain rfl := (Prod.mk.inj h).2
    simp [hb]
  · split at h
    · obtain rfl := (Prod.mk.inj h).2
      exact ⟨rfl, rfl⟩
    · simp at h

private theorem onEvent_ok {env : BootEnv Ev} {st st' : ReplayState Ev} {ev : Ev}
    (h : onEvent env st ev = (.ok (), st')) :
    st'.inserted ++ st'.batch = st.inserted ++ st.batch ++ [ev] := by
  dsimp only [onEvent] at h
  split at h
  · obtain ⟨hb, hi⟩ := flush_ok h
    simp [hb, hi]
  · obtain rfl := (Prod.mk.inj h).2
    simp

private theorem replayEntries_ok {decode : α → Option Ev} {bad : ℕ → Bool} {env : BootEnv Ev}
    {i : ℕ} {xs : List α} {st st' : ReplayState Ev} (hc : Counted st)
    (h : replayEntries decode bad env i xs st = (.ok (), st')) :
    Counted st' ∧ st'.inserted ++ st'.batch = st.inserted ++ st.batch ++ xs.filterMap decode := by
  induction xs generalizing i st with
  | nil =>
    obtain rfl := (Prod.mk.inj h).2
    exact ⟨hc, by simp⟩
  | cons data rest ih =>
    simp only [replayEntries] at h
    split at h
    · simp at h
    · cases hd : decode data with
      | none =>
        simp only [hd] at h
        simpa [hd] using ih hc h
      | some ev =>
        simp only [hd] at h
        split at h
        · rename_i st₁ hev
          have hcount : Counted (onEvent env st ev).2 := onEvent_counted hc ev
          have hc₁ : Counted st₁ := by simpa [hev] using hcount
          obtain ⟨hct, heq⟩ := ih hc₁ h
          refine ⟨hct, ?_⟩
          rw [heq, onEvent_ok hev]
          simp [hd]
        · simp at h

/-- Entries that do not decode leave the state of the replay alone. -/
theorem replayEntries_undecodable {decode : α → Option Ev} {bad : ℕ → Bool} {env : BootEnv Ev}
    {i : ℕ} {xs : List α} {st : ReplayState Ev} (h : xs.filterMap decode = []) :
    (replayEntries decode bad env i xs st).2 = st := by
  induction xs generalizing i with
  | nil => rfl
  | cons data rest ih =>
    cases hd : decode data with
    | some ev => simp [hd] at h
    | none =>
      simp only [List.filterMap_cons, hd] at h
      simp only [replayEntries, hd]
      split
      · rfl
      · exact ih h

/-- Without a failure the replay runs to its end. -/
theorem replayEntries_default (decode : α → Option Ev) (i : ℕ) (xs : List α)
    (st : ReplayState Ev) :
    ∃ st', replayEntries decode (fun _ => false) {} i xs st = (.ok (), st') := by
  induction xs generalizing i st with
  | nil => exact ⟨st, rfl⟩
  | cons data rest ih =>
    simp only [replayEntries, Bool.false_eq_true, if_false]
    cases hd : decode data with
    | none => exact ih (i + 1) st
    | some ev =>
      have hok : (onEvent {} st ev).1 = .ok () := by
        simp only [onEvent, flush]
        split <;> simp
      rcases hev : onEvent {} st ev with ⟨r, st₁⟩
      obtain rfl : r = .ok () := by simpa [hev] using hok
      simp only [hev]
      exact ih (i + 1) st₁

private theorem flush_default (st : ReplayState Ev) : (flush {} st).1 = .ok () := by
  unfold flush
  split <;> simp

/-- The ack of the last index drops every entry but the last, and drops nothing when
the truncation fails early or one entry is all there is. -/
theorem entries_ack_last {l : Log α} (horder : l.InOrder) (hc : l.corrupt = false)
    (hne : l.entries ≠ []) (fault : TruncateFault) :
    (WALWriter.ack fmt ⟨l, l.last + 1⟩ l.last fault).2.log.entries =
      if fault = .start then l.entries else l.entries.drop (l.entries.length - 1) := by
  have hpos := horder.first_pos
  have hle := horder.first_le_last hne
  have hadd := horder.last_add_one
  have hlast : l.last ≠ 0 := by omega
  have hpred : l.last - 1 + 1 = l.last := by omega
  have hrange : ¬ (l.last < l.first ∨ l.last + 1 ≤ l.last) := by omega
  simp only [WALWriter.ack, if_neg hlast, lastIndex_eq hc, Nat.le_refl, if_true, hpred]
  by_cases hsingle : l.last = l.first
  · have hlen : l.entries.length - 1 = 0 := by omega
    have htf : l.truncateFront fmt l.last fault = (.ok (), l) := by
      simp only [Log.truncateFront, hc, if_neg hrange, if_pos hsingle]
      rfl
    rw [htf, hlen]
    split <;> simp
  · have hone : ¬ (l.last = 0 ∨ l.last - 1 = 0) := by omega
    have hdrop : l.last - l.first = l.entries.length - 1 := by omega
    obtain ⟨cut, hcut, -, -, -, hentries⟩ := horder.cutTo fmt hle (Nat.le_refl _)
    rw [hdrop] at hentries
    simp only [if_neg hone, Log.truncateFront, hc, if_neg hrange, if_neg hsingle, hcut]
    cases fault with
    | none => exact hentries
    | start => rfl
    | cleanup => exact hentries

@[simp] theorem currentIndex_newWALWriter (l : Log α) :
    (newWALWriter l).currentIndex = l.last := by
  simp [newWALWriter, WALWriter.currentIndex]

theorem last_ne_zero {l : Log α} (horder : l.InOrder) (hne : l.entries ≠ []) : l.last ≠ 0 := by
  have hpos := horder.first_pos
  have hle := horder.first_le_last hne
  omega

/-- A boot replays the log as `Open` finds it. -/
theorem boot_eq (fmt : Format α) {l : Log α} (horder : l.InOrder) (hne : l.entries ≠ [])
    (decode : α → Option Ev) (env : BootEnv Ev) : ∃ opened : Log α, opened.InOrder ∧ opened.corrupt = false ∧
      opened.first = l.first ∧ opened.last = l.last ∧ opened.entries = l.entries ∧
      boot fmt decode env l = replayWAL fmt decode env (newWALWriter opened) := by
  obtain ⟨opened, hopen, hspec⟩ := horder.reopen fmt (.inl hne)
  refine ⟨opened, hspec.1, hspec.2.1, hspec.2.2.1, hspec.2.2.2.1, hspec.2.2.2.2, ?_⟩
  rw [boot, hopen]

/-- A boot over a log without entries does nothing, or refuses the log. -/
theorem boot_of_empty (fmt : Format α) (decode : α → Option Ev) (env : BootEnv Ev) {l : Log α}
    (horder : l.InOrder) (h : l.entries = []) : ∃ err opened, opened.InOrder ∧
      opened.first = l.first ∧ opened.last = l.last ∧ opened.entries = [] ∧
      boot fmt decode env l = ⟨err, newWALWriter opened, [], none⟩ := by
  have hadd := horder.last_add_one
  rw [h, List.length_nil] at hadd
  cases hopen : l.reopen fmt with
  | error e => exact ⟨some (.inl e), l, horder, rfl, rfl, h, by rw [boot, hopen]⟩
  | ok opened =>
    by_cases hone : l.first = 1
    · obtain ⟨opened', hopen', hinOrder, -, hfirst, hlast, hentries⟩ :=
        horder.reopen fmt (.inr hone)
      obtain rfl : opened = opened' := Except.ok.inj (hopen.symm.trans hopen')
      refine ⟨none, opened, hinOrder, hfirst, hlast, hentries.trans h, ?_⟩
      have hzero : opened.last = 0 := by omega
      rw [boot, hopen]
      simp [replayWAL, hzero]
    · have hrange : 0 < l.last ∧ l.last < l.first := by
        have hpos := horder.first_pos
        omega
      have htail := horder.last
      have hload : fmt.load l.tail.file = some l.tail.ebuf := horder.tail ▸ fmt.load_entries _
      have hindex : l.tail.index + l.tail.ebuf.length - 1 = l.last := by omega
      simp [Log.reopen, hload, hindex, hrange] at hopen

/-- A boot leaves the log as it finds it, or acks once it has inserted what decodes. -/
theorem boot_wal (fmt : Format α) (decode : α → Option Ev) (env : BootEnv Ev) {l : Log α}
    (horder : l.InOrder) : ∃ opened, opened.InOrder ∧ opened.first = l.first ∧ opened.last = l.last ∧
      opened.entries = l.entries ∧ ((boot fmt decode env l).wal = newWALWriter opened ∨
        (boot fmt decode env l).err = none ∧
          ∃ k, (boot fmt decode env l).wal = ((newWALWriter opened).ack fmt k env.truncate).2) := by
  by_cases hne : l.entries = []
  · obtain ⟨err, opened, hinOrder, hfirst, hlast, hentries, heq⟩ :=
      boot_of_empty fmt decode env horder hne
    exact ⟨opened, hinOrder, hfirst, hlast, hentries.trans hne.symm, .inl (by rw [heq])⟩
  · obtain ⟨opened, hinOrder, -, hfirst, hlast, hentries, heq⟩ :=
      boot_eq fmt horder hne decode env
    refine ⟨opened, hinOrder, hfirst, hlast, hentries, ?_⟩
    rw [heq]
    unfold replayWAL
    split
    · exact .inl rfl
    · split
      · exact .inl rfl
      · split
        · exact .inl rfl
        · split
          · exact .inr ⟨rfl, _, rfl⟩
          · exact .inl rfl

theorem boot_inOrder {decode : α → Option Ev} {env : BootEnv Ev} {l : Log α} (horder : l.InOrder) :
    (boot fmt decode env l).wal.log.InOrder := by
  obtain ⟨opened, hinOrder, -, -, -, hwal | ⟨-, k, hwal⟩⟩ :=
    boot_wal fmt decode env horder
  · exact hwal ▸ hinOrder
  · rw [hwal]
    exact ((newWALWriter opened).ack_inOrder fmt k env.truncate hinOrder).1

private theorem bootAll_inOrder {decode : α → Option Ev} {l : Log α} (horder : l.InOrder)
    (envs : List (BootEnv Ev)) : (bootAll fmt decode l envs).InOrder := by
  induction envs generalizing l with
  | nil => exact horder
  | cons env envs ih => exact ih (boot_inOrder horder)

/-- A replay that returns an error passes nothing to `Ack`. -/
theorem replayWAL_error {decode : α → Option Ev} {env : BootEnv Ev} {w : WALWriter α}
    (h : (replayWAL fmt decode env w).err ≠ none) :
    (replayWAL fmt decode env w).acked = none ∧ (replayWAL fmt decode env w).wal = w := by
  unfold replayWAL at h ⊢
  split
  · exact ⟨rfl, rfl⟩
  · rename_i hidx
    rw [if_neg hidx] at h
    split
    · exact ⟨rfl, rfl⟩
    · rename_i st hrep
      simp only [hrep] at h
      split
      · exact ⟨rfl, rfl⟩
      · rename_i st' hfl
        simp only [hfl] at h
        split at h <;> exact absurd rfl h

private theorem boot_error
    {decode : α → Option Ev} {env : BootEnv Ev} {l : Log α} (horder : l.InOrder)
    (h : (boot fmt decode env l).err ≠ none) :
    (boot fmt decode env l).acked = none ∧
      (boot fmt decode env l).wal.log.entries = l.entries := by
  by_cases hne : l.entries = []
  · obtain ⟨err, opened, -, -, -, hentries, heq⟩ := boot_of_empty fmt decode env horder hne
    rw [heq]
    exact ⟨rfl, hentries.trans hne.symm⟩
  · obtain ⟨opened, -, -, -, -, hentries, heq⟩ := boot_eq fmt horder hne decode env
    rw [heq] at h ⊢
    obtain ⟨hack, hwal⟩ := replayWAL_error h
    exact ⟨hack, by rw [hwal]; exact hentries⟩

/-- A replay that returns nil inserted every entry that decodes, and acks when there was one. -/
theorem replayWAL_nil {decode : α → Option Ev} {env : BootEnv Ev} {l : Log α}
    (horder : l.InOrder) (hc : l.corrupt = false) (hne : l.entries ≠ [])
    (h : (replayWAL fmt decode env (newWALWriter l)).err = none) :
    (replayWAL fmt decode env (newWALWriter l)).inserted = l.entries.filterMap decode ∧
      (replayWAL fmt decode env (newWALWriter l)).wal.log =
        if l.entries.filterMap decode = [] then l
        else (WALWriter.ack fmt ⟨l, l.last + 1⟩ l.last env.truncate).2.log := by
  simp only [replayWAL, currentIndex_newWALWriter, if_neg (last_ne_zero horder hne),
    replay_eq horder hc decode env hne] at h ⊢
  rcases hrep : replayEntries decode env.segmentCorrupt env l.first l.entries {} with ⟨r, st⟩
  cases r with
  | error e => simp [hrep] at h
  | ok _ =>
    have hinit : Counted ({} : ReplayState Ev) := rfl
    obtain ⟨hc, hins⟩ := replayEntries_ok hinit hrep
    rcases hfl : flush env st with ⟨r', st'⟩
    cases r' with
    | error e => simp [hrep, hfl] at h
    | ok _ =>
      have hcount : Counted (flush env st).2 := flush_counted hc
      have hc' : Counted st' := by simpa [hfl] using hcount
      obtain ⟨-, hins'⟩ := flush_ok hfl
      have hall : st'.inserted = l.entries.filterMap decode := by simp [hins', hins]
      have htotal : 0 < st'.total ↔ l.entries.filterMap decode ≠ [] := by
        rw [hc', hall, List.length_pos_iff]
      simp only [hfl, htotal]
      by_cases hnil : l.entries.filterMap decode = []
      · simp [hnil, hall, newWALWriter]
      · simp [hnil, hall, newWALWriter]

/-- What a boot that returns nil inserts, and what its ack leaves. -/
theorem boot_nil {decode : α → Option Ev} {env : BootEnv Ev} {l : Log α} (horder : l.InOrder)
    (hne : l.entries ≠ []) (h : (boot fmt decode env l).err = none) :
    (boot fmt decode env l).inserted = l.entries.filterMap decode ∧
      (boot fmt decode env l).wal.log.entries =
        if l.entries.filterMap decode = [] ∨ env.truncate = .start then l.entries
        else l.entries.drop (l.entries.length - 1) := by
  obtain ⟨opened, hopened, hc, -, -, hentries, heq⟩ := boot_eq fmt horder hne decode env
  rw [heq] at h ⊢
  rw [← hentries] at hne ⊢
  obtain ⟨hins, hlog⟩ := replayWAL_nil hopened hc hne h
  refine ⟨hins, ?_⟩
  rw [hlog]
  by_cases hnil : opened.entries.filterMap decode = []
  · rw [if_pos hnil, if_pos (.inl hnil)]
  · rw [if_neg hnil, entries_ack_last hopened hc hne]
    simp only [hnil, false_or]

/-- A boot that meets no failure returns nil. -/
theorem boot_default (fmt : Format α) (decode : α → Option Ev) {l : Log α} (horder : l.InOrder)
    (hne : l.entries ≠ []) : (boot fmt decode {} l).err = none := by
  obtain ⟨opened, hopened, hc, -, -, hentries, heq⟩ := boot_eq fmt horder hne decode {}
  rw [← hentries] at hne
  rw [heq]
  simp only [replayWAL, currentIndex_newWALWriter, if_neg (last_ne_zero hopened hne),
    replay_eq hopened hc decode {} hne]
  obtain ⟨st, hrep⟩ := replayEntries_default decode opened.first opened.entries {}
  rcases hfl : flush {} st with ⟨r, st'⟩
  obtain rfl : r = .ok () := by simpa [hfl] using flush_default st
  simp only [hrep, hfl]
  split <;> rfl

/-- Some boot inserts something as long as one entry decodes. -/
theorem boot_inserts_nothing_iff (decode : α → Option Ev) {l : Log α} (horder : l.InOrder) :
    (∀ env, (boot fmt decode env l).inserted = []) ↔ l.entries.filterMap decode = [] := by
  by_cases hne : l.entries = []
  · refine ⟨fun _ => by rw [hne]; rfl, fun _ env => ?_⟩
    obtain ⟨err, opened, -, -, -, -, heq⟩ := boot_of_empty fmt decode env horder hne
    rw [heq]
  constructor
  · intro h
    rw [← (boot_nil horder hne (boot_default fmt decode horder hne)).1]
    exact h {}
  · intro h env
    cases herr : (boot fmt decode env l).err with
    | none => rw [(boot_nil horder hne herr).1, h]
    | some e =>
      obtain ⟨opened, hopened, hc, -, -, hentries, heq⟩ :=
        boot_eq fmt horder hne decode env
      rw [← hentries] at hne h
      have hst : (replayEntries decode env.segmentCorrupt env opened.first opened.entries {}).2 =
          {} := replayEntries_undecodable h
      rw [heq]
      simp only [replayWAL, currentIndex_newWALWriter, if_neg (last_ne_zero hopened hne),
        replay_eq hopened hc decode env hne]
      rcases hrep : replayEntries decode env.segmentCorrupt env opened.first opened.entries {}
        with ⟨r, st⟩
      obtain rfl : st = {} := by simpa [hrep] using hst
      cases r with
      | error e => rfl
      | ok _ => simp [flush]

/-- Every row, inserted or at hand, is one of `rows`. -/
def Within (rows : List Ev) (st : ReplayState Ev) : Prop :=
  ∀ ev ∈ st.inserted ++ st.batch, ev ∈ rows

theorem flush_within {env : BootEnv Ev} {rows : List Ev} {st : ReplayState Ev}
    (h : Within rows st) : Within rows (flush env st).2 := by
  unfold flush
  split
  · exact h
  · split
    · simpa [Within] using h
    · exact h

private theorem onEvent_within {env : BootEnv Ev} {rows : List Ev} {st : ReplayState Ev} {ev : Ev}
    (h : Within rows st) (hev : ev ∈ rows) : Within rows (onEvent env st ev).2 := by
  have hbatch : Within rows { st with batch := st.batch ++ [ev] } := by
    intro e he
    rw [← List.append_assoc] at he
    rcases List.mem_append.mp he with he | he
    · exact h e he
    · exact List.mem_singleton.mp he ▸ hev
  dsimp only [onEvent]
  split
  · exact flush_within hbatch
  · exact hbatch

private theorem replayFrom_within {l : Log α} {decode : α → Option Ev} {bad : ℕ → Bool}
    {env : BootEnv Ev} {n i : ℕ} {rows : List Ev} {st : ReplayState Ev} (h : Within rows st)
    (hread : ∀ i b data ev, l.read fmt i b = .ok data → decode data = some ev → ev ∈ rows) :
    Within rows (replayFrom fmt l decode bad (onEvent env) n i st).2 := by
  induction n generalizing i st with
  | zero => exact h
  | succ n ih =>
    unfold replayFrom
    split
    · exact ih h
    · exact h
    · rename_i data hdata
      cases hd : decode data with
      | none => exact ih h
      | some ev =>
        have hstep : Within rows (onEvent env st ev).2 := onEvent_within h (hread _ _ _ _ hdata hd)
        rcases hev : onEvent env st ev with ⟨r, st'⟩
        rw [hev] at hstep
        cases r with
        | ok _ => simpa only [hev] using ih hstep
        | error e => simpa only [hev] using hstep

/-- What a boot inserts lies in the log, which it leaves without parts of entries. -/
theorem boot_within (fmt : Format α) (decode : α → Option Ev) (env : BootEnv Ev) {l : Log α}
    (h : l.Untorn) :
    (∀ ev ∈ (boot fmt decode env l).inserted, ev ∈ l.contents.filterMap decode) ∧
      (boot fmt decode env l).wal.log.Untorn ∧
      ∀ x ∈ (boot fmt decode env l).wal.log.contents, x ∈ l.contents := by
  unfold boot
  cases hopen : l.reopen fmt with
  | error e => exact ⟨by simp, h, fun _ => id⟩
  | ok opened =>
    obtain ⟨huntorn, hmem⟩ := h.reopen fmt hopen
    have hread : ∀ i b data ev, opened.read fmt i b = .ok data → decode data = some ev →
        ev ∈ l.contents.filterMap decode := fun i b data ev hdata hev =>
      List.mem_filterMap.mpr ⟨data, hmem _ (huntorn.mem_read hdata), hev⟩
    have hsame : (newWALWriter opened).log.Untorn ∧
        ∀ x ∈ (newWALWriter opened).log.contents, x ∈ l.contents := ⟨huntorn, hmem⟩
    have hack := (newWALWriter opened).ack_untorn fmt (newWALWriter opened).currentIndex
      env.truncate huntorn
    have hinit : Within (l.contents.filterMap decode) {} := by simp [Within]
    have hall : Within (l.contents.filterMap decode) ((newWALWriter opened).replay fmt decode
        env.segmentCorrupt (onEvent env) ({} : ReplayState Ev)).2 := by
      unfold WALWriter.replay
      split
      · exact hinit
      · exact hinit
      · split
        · exact hinit
        · exact replayFrom_within hinit hread
    unfold replayWAL
    dsimp only
    split
    · exact ⟨by simp, hsame⟩
    · rcases hrep : (newWALWriter opened).replay fmt decode env.segmentCorrupt (onEvent env)
        ({} : ReplayState Ev) with ⟨r, st⟩
      rw [hrep] at hall
      have hins : ∀ {st' : ReplayState Ev}, Within (l.contents.filterMap decode) st' →
          ∀ ev ∈ st'.inserted, ev ∈ l.contents.filterMap decode :=
        fun hst ev hev => hst ev (List.mem_append_left _ hev)
      cases r with
      | error e => exact ⟨hins hall, hsame⟩
      | ok _ =>
        have hflush : Within (l.contents.filterMap decode) (flush env st).2 := flush_within hall
        rcases hfl : flush env st with ⟨r', st'⟩
        rw [hfl] at hflush
        cases r' with
        | error e => exact ⟨by simpa only [hfl] using hins hflush, by simpa only [hfl] using hsame⟩
        | ok _ =>
          simp only [hfl]
          split
          · exact ⟨hins hflush, hack.1, fun x hx => hmem x (hack.2 x hx)⟩
          · exact ⟨hins hflush, hsame⟩

/-- The log holds no entry that decodes, or its last entry does not and the truncation
of the ack takes place. -/
def NothingKept (decode : α → Option Ev) (env : BootEnv Ev) (l : Log α) : Prop :=
  l.entries.filterMap decode = [] ∨
    env.truncate ≠ .start ∧ l.entries.getLast?.bind decode = none

private theorem filterMap_drop_pred {l : List α} (h : l ≠ []) (decode : α → Option Ev) :
    (l.drop (l.length - 1)).filterMap decode = [] ↔ l.getLast?.bind decode = none := by
  rw [List.drop_length_sub_one h, List.getLast?_eq_some_getLast h]
  cases hd : decode (l.getLast h) <;> simp [hd]

private theorem decodable_after_boot {decode : α → Option Ev} {env : BootEnv Ev} {l : Log α}
    (horder : l.InOrder) (h : (boot fmt decode env l).err = none) :
    (boot fmt decode env l).wal.log.entries.filterMap decode = [] ↔ NothingKept decode env l := by
  by_cases hne : l.entries = []
  · obtain ⟨err, opened, -, -, -, hentries, heq⟩ := boot_of_empty fmt decode env horder hne
    rw [heq]
    simp [NothingKept, newWALWriter, hentries, hne]
  rw [(boot_nil horder hne h).2]
  by_cases hnil : l.entries.filterMap decode = []
  · rw [if_pos (.inl hnil)]
    simp only [NothingKept, hnil, true_or]
  · by_cases hf : env.truncate = .start
    · rw [if_pos (.inr hf)]
      simp only [NothingKept, hnil, hf, false_or, ne_eq, not_true, false_and]
    · rw [if_neg (by simp [hnil, hf])]
      simp only [NothingKept, hnil, hf, false_or, ne_eq, not_false_eq_true, true_and]
      exact filterMap_drop_pred hne decode

/-- From any directory, after a boot that returned nil, whatever the next boot meets, it inserts
nothing exactly when nothing that decodes was kept. A boot that returned an error acked
nothing. -/
theorem next_boot_inserts_nothing_iff (fmt : Format α) (decode : α → Option Ev)
    (files : Files α) (history : List (BootEnv Ev)) (env : BootEnv Ev) :
    let l := bootAll fmt decode files.log history
    let r := boot fmt decode env l
    (r.err = none →
      ((∀ env', (boot fmt decode env' r.wal.log).inserted = []) ↔ NothingKept decode env l)) ∧
    (r.err ≠ none → r.acked = none ∧ r.wal.log.entries = l.entries) := by
  intro l r
  have horder : l.InOrder := bootAll_inOrder files.inOrder history
  constructor
  · intro h
    rw [boot_inserts_nothing_iff decode (boot_inOrder horder)]
    exact decodable_after_boot horder h
  · exact boot_error horder

/-- The row of the last entry is inserted again by every boot. -/
theorem last_entry_inserted_again :
    let files : Files ℕ := ⟨1, Nat.one_pos, [], [10, 20]⟩
    let r : BootResult ℕ ℕ := boot .strict some {} files.log
    r.err = none ∧ r.inserted = [10, 20] ∧ r.acked = some 2 ∧
      (boot .strict some {} r.wal.log : BootResult ℕ ℕ).inserted = [20] := by
  decide

end Statnive.BootReplay
