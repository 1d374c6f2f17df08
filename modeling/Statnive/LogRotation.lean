import Mathlib.Logic.Function.Basic
import Statnive.LabelledRuns

/-!
# Log rotation

The audit log and the alerts sink write records to a file that the operator may have reopened.
A caller reads the handler under the mutex and writes with it once the mutex is free again.
-/

namespace Statnive.LogRotation

open LabelledRuns

structure Attr where
  key : String
  value : String
  deriving DecidableEq

structure Record where
  msg : String
  attrs : List Attr
  deriving DecidableEq

/-- The record of `Logger.Event`. -/
def eventRecord (name : String) (attrs : List Attr) : Record := ⟨name, ⟨"event", name⟩ :: attrs⟩

def eventReopenOK : String := "audit.reopen_succeeded"

def reopenRecord (path : String) : Record :=
  ⟨eventReopenOK, [⟨"event", eventReopenOK⟩, ⟨"path", path⟩]⟩

/-- The record of `Sink.Emit`. -/
def emitRecord (hostTag name severity : String) (resolved : Bool) (attrs : List Attr) : Record :=
  ⟨name, [⟨"alert", name⟩, ⟨"severity", severity⟩, ⟨"resolved", toString resolved⟩] ++
    (if hostTag = "" then [] else [⟨"host", hostTag⟩]) ++ attrs⟩

/-- Files are numbered as they are opened. -/
structure Written where
  file : ℕ
  caller : Option ℕ
  record : Record
  deriving DecidableEq

/-- Where a call is: before the mutex, between the mutex and the write, or behind it. -/
inductive CallPhase where
  | idle
  | called (record : Record)
  | copied (record : Record) (handler : Option ℕ)
  | returned (record : Record)
  deriving DecidableEq

/-- What is left to do of a `Reopen` that holds the mutex. -/
inductive ReopenPhase where
  | closing | opening | announcing
  deriving DecidableEq

structure State where
  f : Option ℕ := some 0
  handler : Option ℕ := some 0
  opened : ℕ := 1
  isOpen : ℕ → Bool := fun n => n = 0
  holder : Option ReopenPhase := none
  calls : ℕ → CallPhase := fun _ => .idle
  written : List Written := []

/-- `closeFile`, `openFile` and `announce` are the steps of a `Reopen`. -/
inductive Action where
  | event (caller : ℕ) (record : Record)
  | copy (caller : ℕ)
  | write (caller : ℕ)
  | reopen
  | closeFile
  | openFile (ok : Bool)
  | announce
  | close
  deriving DecidableEq

def State.setCall (s : State) (i : ℕ) (phase : CallPhase) : State :=
  { s with calls := Function.update s.calls i phase }

/-- A write to a file that is closed fails. -/
def State.log (s : State) (handler : Option ℕ) (caller : Option ℕ) (record : Record) : State :=
  match handler with
  | some n => if s.isOpen n then { s with written := s.written ++ [⟨n, caller, record⟩] } else s
  | none => s

def State.dropFile (s : State) : State :=
  match s.f with
  | some n => { s with isOpen := Function.update s.isOpen n false, f := none, handler := none }
  | none => s

/-- `announcement` is what a `Reopen` writes into the new file; the sink writes nothing. -/
def step (announcement : Option Record) (s : State) : Action → Option State
  | .event i record => match s.calls i with
    | .idle => some (s.setCall i (.called record))
    | _ => none
  | .copy i => match s.calls i with
    | .called record =>
      if s.holder = none then some (s.setCall i (.copied record s.handler)) else none
    | _ => none
  | .write i => match s.calls i with
    | .copied record handler => some ((s.log handler (some i) record).setCall i (.returned record))
    | _ => none
  | .reopen => if s.holder = none then some { s with holder := some .closing } else none
  | .closeFile =>
    if s.holder = some .closing then some { s.dropFile with holder := some .opening } else none
  | .openFile ok =>
    if s.holder = some .opening then
      if ok then
        some { s with
          f := some s.opened
          handler := some s.opened
          opened := s.opened + 1
          isOpen := Function.update s.isOpen s.opened true
          holder := some .announcing }
      else some { s with holder := none }
    else none
  | .announce =>
    if s.holder = some .announcing then
      match announcement with
      | some record => some { s.log s.handler none record with holder := none }
      | none => some { s with holder := none }
    else none
  | .close => if s.holder = none then some s.dropFile else none

/-- The audit log and the alerts sink. -/
def auditStep (path : String) : State → Action → Option State := step (some (reopenRecord path))

def alertsStep : State → Action → Option State := step none

def State.recordsOf (s : State) (i : ℕ) : List Written :=
  s.written.filter fun w => w.caller = some i

/-- Each call that has returned wrote its record once, to a file of the logger. -/
def AllWritten (s : State) : Prop :=
  ∀ i record, s.calls i = .returned record →
    ∃ n < s.opened, s.recordsOf i = [⟨n, some i, record⟩]

/-- The logger is not closed, and a `Reopen` opens its file. -/
def InService : Action → Prop
  | .close => False
  | .openFile ok => ok = true
  | _ => True

/-- No call is between the mutex and the write. -/
def Settled (s : State) : Prop := ∀ i record handler, s.calls i ≠ .copied record handler

/-- A file is closed only while no call has a handler in hand. -/
def Undisturbed (s : State) (a : Action) : Prop := a = .closeFile → Settled s

section Log

variable (s : State) (handler caller : Option ℕ) (record : Record)

theorem log_some {n : ℕ} (h : s.isOpen n = true) : s.log (some n) caller record =
    { s with written := s.written ++ [⟨n, caller, record⟩] } := if_pos h

theorem log_closed {n : ℕ} (h : s.isOpen n = false) : s.log (some n) caller record = s := by
  simp [State.log, h]

/-- A record only adds to what is written. -/
theorem log_eq : ∃ ws, s.log handler caller record = { s with written := s.written ++ ws } ∧
    ∀ w ∈ ws, w.caller = caller := by
  cases handler with
  | none => exact ⟨[], by rw [State.log, List.append_nil], by simp⟩
  | some n =>
    cases hopen : s.isOpen n with
    | false => exact ⟨[], by rw [log_closed s caller record hopen, List.append_nil], by simp⟩
    | true => exact ⟨_, log_some s caller record hopen, by simp⟩

theorem calls_log : (s.log handler caller record).calls = s.calls := by
  obtain ⟨ws, hlog, -⟩ := log_eq s handler caller record
  rw [hlog]

theorem isOpen_log (n : ℕ) : (s.log handler caller record).isOpen n = s.isOpen n := by
  obtain ⟨ws, hlog, -⟩ := log_eq s handler caller record
  rw [hlog]

theorem recordsOf_append_of_ne {ws : List Written} (hws : ∀ w ∈ ws, w.caller = caller) {i : ℕ}
    (h : caller ≠ some i) :
    State.recordsOf { s with written := s.written ++ ws } i = s.recordsOf i := by
  have hnone : ws.filter (fun w => w.caller = some i) = [] := by
    rw [List.filter_eq_nil_iff]
    intro w hw
    simpa [hws w hw] using h
  rw [State.recordsOf, State.recordsOf, List.filter_append, hnone, List.append_nil]

theorem recordsOf_append_self {i : ℕ} {ws : List Written} (hws : ∀ w ∈ ws, w.caller = some i) :
    State.recordsOf { s with written := s.written ++ ws } i = s.recordsOf i ++ ws := by
  have hall : ws.filter (fun w => w.caller = some i) = ws := by
    rw [List.filter_eq_self]
    intro w hw
    exact decide_eq_true (hws w hw)
  rw [State.recordsOf, State.recordsOf, List.filter_append, hall]

theorem calls_setCall_self (i : ℕ) (phase : CallPhase) :
    (s.setCall i phase).calls i = phase := Function.update_self ..

theorem calls_setCall_of_ne {i j : ℕ} (h : j ≠ i) (phase : CallPhase) :
    (s.setCall i phase).calls j = s.calls j := Function.update_of_ne h ..

end Log

/-- What holds in every run of a logger in service. -/
structure Inv (s : State) : Prop where
  /-- The file is the one that is open, and the handler writes to it. -/
  file : s.holder ≠ some .opening → ∃ n, s.f = some n ∧ s.handler = some n ∧ s.isOpen n = true
  fileless : s.holder = some .opening → s.f = none
  only : ∀ n, s.isOpen n = true → s.f = some n
  fresh : ∀ n, s.isOpen n = true → n < s.opened
  held : ∀ i record handler, s.calls i = .copied record handler →
    ∃ n < s.opened, handler = some n
  unwritten : ∀ i, (∀ record, s.calls i ≠ .returned record) → s.recordsOf i = []
  once : ∀ i record, s.calls i = .returned record →
    s.recordsOf i = [] ∨ ∃ n < s.opened, s.recordsOf i = [⟨n, some i, record⟩]

/-- No record is lost, and none is about to be. -/
structure Intact (s : State) : Prop where
  kept : ∀ i record, s.calls i = .returned record → s.recordsOf i ≠ []
  live : ∀ i record handler, s.calls i = .copied record handler →
    ∃ n, handler = some n ∧ s.isOpen n = true

theorem inv_start : Inv {} where
  file _ := ⟨0, rfl, rfl, rfl⟩
  fileless h := nomatch h
  only n h := congrArg some (of_decide_eq_true h).symm
  fresh n h := by
    obtain rfl := of_decide_eq_true h
    decide
  held i record handler h := nomatch h
  unwritten i h := rfl
  once i record h := nomatch h

private theorem intact_start : Intact {} := ⟨nofun, nofun⟩

variable {announcement : Option Record} {s t : State}

/-- The invariant of the calls depends on the calls, the records and the number of files. -/
theorem Inv.setCall {i : ℕ} {phase : CallPhase} (hs : Inv s)
    (hheld : ∀ record handler, phase = .copied record handler → ∃ n < s.opened, handler = some n)
    (hphase : ∀ record, phase ≠ .returned record) (hi : ∀ record, s.calls i ≠ .returned record) :
    Inv (s.setCall i phase) where
  file := hs.file
  fileless := hs.fileless
  only := hs.only
  fresh := hs.fresh
  held j record handler hj := by
    by_cases hji : j = i
    · subst hji
      rw [calls_setCall_self] at hj
      exact hheld record handler hj
    · rw [calls_setCall_of_ne s hji] at hj
      exact hs.held j record handler hj
  unwritten j hj := by
    by_cases hji : j = i
    · subst hji
      exact hs.unwritten j hi
    · rw [calls_setCall_of_ne s hji] at hj
      exact hs.unwritten j hj
  once j record hj := by
    by_cases hji : j = i
    · subst hji
      rw [calls_setCall_self] at hj
      exact absurd hj (hphase record)
    · rw [calls_setCall_of_ne s hji] at hj
      exact hs.once j record hj

/-- The announcement is no call's record. -/
theorem Inv.log_none (hs : Inv s) (handler : Option ℕ) (record : Record) :
    Inv (s.log handler none record) := by
  obtain ⟨ws, hlog, hws⟩ := log_eq s handler none record
  have hrecords (i : ℕ) := recordsOf_append_of_ne s none hws (i := i) nofun
  rw [hlog]
  exact {
    file := hs.file
    fileless := hs.fileless
    only := hs.only
    fresh := hs.fresh
    held := hs.held
    unwritten := fun i hi => (hrecords i).trans (hs.unwritten i hi)
    once := fun i record hi => by
      rw [hrecords i]
      exact hs.once i record hi }

/-- A call that has a handler writes its record at most once. -/
theorem Inv.returned (hs : Inv s) {i : ℕ} {record : Record} {handler : Option ℕ}
    (hcall : s.calls i = .copied record handler) {ws : List Written}
    (hws : ws = [] ∨ ∃ n < s.opened, ws = [⟨n, some i, record⟩]) :
    Inv (State.setCall { s with written := s.written ++ ws } i (.returned record)) := by
  have hcaller : ∀ w ∈ ws, w.caller = some i := by
    obtain rfl | ⟨n, -, rfl⟩ := hws
    · simp
    · simp
  have hself := recordsOf_append_self s hcaller
  rw [hs.unwritten i (by simp [hcall]), List.nil_append] at hself
  have hother {j : ℕ} (hj : j ≠ i) := recordsOf_append_of_ne s (some i) hcaller (i := j)
    (fun h => hj (Option.some.inj h).symm)
  have hcalls {j : ℕ} (hj : j ≠ i) := calls_setCall_of_ne
    { s with written := s.written ++ ws } hj (.returned record)
  exact {
    file := hs.file
    fileless := hs.fileless
    only := hs.only
    fresh := hs.fresh
    held := fun j record' handler' hj => by
      by_cases hji : j = i
      · subst hji
        rw [calls_setCall_self] at hj
        exact nomatch hj
      · rw [hcalls hji] at hj
        exact hs.held j record' handler' hj
    unwritten := fun j hj => by
      by_cases hji : j = i
      · subst hji
        exact absurd (calls_setCall_self _ j _) (hj record)
      · rw [hcalls hji] at hj
        exact (hother hji).trans (hs.unwritten j hj)
    once := fun j record' hj => by
      by_cases hji : j = i
      · subst hji
        rw [calls_setCall_self] at hj
        cases hj
        exact hws.imp hself.trans fun ⟨n, hn, h⟩ => ⟨n, hn, hself.trans h⟩
      · rw [hcalls hji] at hj
        exact (hs.once j record' hj).imp (hother hji).trans
          fun ⟨n, hn, h⟩ => ⟨n, hn, (hother hji).trans h⟩ }

theorem step_event {i : ℕ} {record : Record}
    (h : step announcement s (.event i record) = some t) :
    s.calls i = .idle ∧ t = s.setCall i (.called record) := by
  simp only [step] at h
  split at h
  next hcall => exact ⟨hcall, (Option.some.inj h).symm⟩
  next => exact nomatch h

theorem step_copy {i : ℕ} (h : step announcement s (.copy i) = some t) :
    ∃ record, s.calls i = .called record ∧ s.holder = none ∧
      t = s.setCall i (.copied record s.handler) := by
  simp only [step] at h
  split at h
  next record hcall =>
    obtain ⟨hholder, ht⟩ := Option.ite_none_right_eq_some.mp h
    exact ⟨record, hcall, hholder, (Option.some.inj ht).symm⟩
  next => exact nomatch h

theorem step_write {i : ℕ} (h : step announcement s (.write i) = some t) :
    ∃ record handler, s.calls i = .copied record handler ∧
      t = (s.log handler (some i) record).setCall i (.returned record) := by
  simp only [step] at h
  split at h
  next record handler hcall => exact ⟨record, handler, hcall, (Option.some.inj h).symm⟩
  next => exact nomatch h

theorem step_closeFile (h : step announcement s .closeFile = some t) :
    s.holder = some .closing ∧ t = { s.dropFile with holder := some .opening } := by
  obtain ⟨hholder, ht⟩ := Option.ite_none_right_eq_some.mp h
  exact ⟨hholder, (Option.some.inj ht).symm⟩

theorem step_announce (h : step announcement s .announce = some t) :
    s.holder = some .announcing ∧
      (t = { s with holder := none } ∨
        ∃ record, t = { s.log s.handler none record with holder := none }) := by
  obtain ⟨hholder, ht⟩ := Option.ite_none_right_eq_some.mp h
  cases announcement with
  | none => exact ⟨hholder, .inl (Option.some.inj ht).symm⟩
  | some record => exact ⟨hholder, .inr ⟨record, (Option.some.inj ht).symm⟩⟩

/-- The mutex changes hands while the file stays. -/
theorem Inv.setHolder (hs : Inv s) (hholder : s.holder ≠ some .opening)
    {holder : Option ReopenPhase} (hnew : holder ≠ some .opening) :
    Inv { s with holder := holder } where
  file _ := hs.file hholder
  fileless h := absurd h hnew
  only := hs.only
  fresh := hs.fresh
  held := hs.held
  unwritten := hs.unwritten
  once := hs.once

/-- Behind `closeFile` no file is open. -/
theorem isOpen_dropFile (hs : Inv s) (hholder : s.holder ≠ some .opening) (n : ℕ) :
    s.dropFile.isOpen n = false := by
  obtain ⟨m, hf, -, -⟩ := hs.file hholder
  rw [State.dropFile, hf]
  by_cases hnm : n = m
  · subst hnm
    exact Function.update_self ..
  · refine (Function.update_of_ne hnm _ _).trans ?_
    cases hopen : s.isOpen n with
    | false => rfl
    | true => exact absurd (Option.some.inj ((hs.only n hopen).symm.trans hf)) hnm

theorem Inv.closeFile (hs : Inv s) (hholder : s.holder = some .closing) :
    Inv { s.dropFile with holder := some .opening } := by
  have hclosing : s.holder ≠ some .opening := by simp [hholder]
  have hopen (n : ℕ) := isOpen_dropFile hs hclosing n
  obtain ⟨m, hf, -, -⟩ := hs.file hclosing
  simp only [State.dropFile, hf] at hopen ⊢
  exact {
    file := fun h => absurd rfl h
    fileless := fun _ => rfl
    only := fun n h => absurd h (by simp [hopen n])
    fresh := fun n h => absurd h (by simp [hopen n])
    held := hs.held
    unwritten := hs.unwritten
    once := hs.once }

theorem Inv.openFile (hs : Inv s) (hholder : s.holder = some .opening) :
    Inv { s with
      f := some s.opened
      handler := some s.opened
      opened := s.opened + 1
      isOpen := Function.update s.isOpen s.opened true
      holder := some .announcing } where
  file _ := ⟨s.opened, rfl, rfl, Function.update_self ..⟩
  fileless h := nomatch h
  only n h := by
    by_cases hn : n = s.opened
    · exact congrArg some hn.symm
    · have hopen : s.isOpen n = true := (Function.update_of_ne hn ..).symm.trans h
      exact absurd ((hs.fileless hholder).symm.trans (hs.only n hopen)) nofun
  fresh n h := by
    by_cases hn : n = s.opened
    · exact hn ▸ Nat.lt_succ_self n
    · have hopen : s.isOpen n = true := (Function.update_of_ne hn ..).symm.trans h
      exact Nat.lt_succ_of_lt (hs.fresh n hopen)
  held i record handler h := by
    obtain ⟨n, hn, hhandler⟩ := hs.held i record handler h
    exact ⟨n, Nat.lt_succ_of_lt hn, hhandler⟩
  unwritten := hs.unwritten
  once i record h := (hs.once i record h).imp_right fun ⟨n, hn, hrecords⟩ =>
    ⟨n, Nat.lt_succ_of_lt hn, hrecords⟩

theorem inv_step {a : Action} (ha : InService a) (hs : Inv s)
    (h : step announcement s a = some t) : Inv t := by
  cases a with
  | event i record =>
    obtain ⟨hcall, rfl⟩ := step_event h
    exact hs.setCall (fun _ _ h => nomatch h) (fun _ => nofun) (by simp [hcall])
  | copy i =>
    obtain ⟨record, hcall, hholder, rfl⟩ := step_copy h
    obtain ⟨n, -, hhandler, hopen⟩ := hs.file (by simp [hholder])
    refine hs.setCall (fun _ handler h => ?_) (fun _ => nofun) (by simp [hcall])
    obtain ⟨-, rfl⟩ := CallPhase.copied.inj h
    exact ⟨n, hs.fresh n hopen, hhandler⟩
  | write i =>
    obtain ⟨record, handler, hcall, rfl⟩ := step_write h
    obtain ⟨n, hn, rfl⟩ := hs.held i record handler hcall
    cases hopen : s.isOpen n with
    | false =>
      rw [log_closed s (some i) record hopen]
      simpa using hs.returned hcall (.inl rfl)
    | true =>
      rw [log_some s (some i) record hopen]
      exact hs.returned hcall (.inr ⟨n, hn, rfl⟩)
  | reopen =>
    obtain ⟨hholder, ht⟩ := Option.ite_none_right_eq_some.mp h
    obtain rfl := Option.some.inj ht
    exact hs.setHolder (by simp [hholder]) nofun
  | closeFile =>
    obtain ⟨hholder, rfl⟩ := step_closeFile h
    exact hs.closeFile hholder
  | openFile ok =>
    obtain rfl : ok = true := ha
    obtain ⟨hholder, ht⟩ := Option.ite_none_right_eq_some.mp h
    obtain rfl := Option.some.inj ht
    exact hs.openFile hholder
  | announce =>
    obtain ⟨hholder, rfl | ⟨record, rfl⟩⟩ := step_announce h
    · exact hs.setHolder (by simp [hholder]) nofun
    · have hlog := hs.log_none s.handler record
      obtain ⟨ws, heq, -⟩ := log_eq s s.handler none record
      rw [heq] at hlog ⊢
      exact hlog.setHolder (by simp [hholder]) nofun
  | close => exact ha.elim

theorem Intact.setCall_iff {i : ℕ} {phase : CallPhase}
    (hphase : ∀ record, phase ≠ .returned record) (hi : ∀ record, s.calls i ≠ .returned record)
    (hold : ∀ record handler, s.calls i ≠ .copied record handler)
    (hlive : ∀ record handler, phase = .copied record handler →
      ∃ n, handler = some n ∧ s.isOpen n = true) :
    Intact (s.setCall i phase) ↔ Intact s := by
  constructor
  · intro ht
    refine ⟨fun j record hj => ?_, fun j record handler hj => ?_⟩
    · have hji : j ≠ i := fun h => hi record (h ▸ hj)
      exact ht.kept j record ((calls_setCall_of_ne s hji phase).trans hj)
    · have hji : j ≠ i := fun h => hold record handler (h ▸ hj)
      exact ht.live j record handler ((calls_setCall_of_ne s hji phase).trans hj)
  · intro hs
    refine ⟨fun j record hj => ?_, fun j record handler hj => ?_⟩
    · have hji : j ≠ i := by
        rintro rfl
        exact hphase record ((calls_setCall_self s j phase).symm.trans hj)
      exact hs.kept j record ((calls_setCall_of_ne s hji phase).symm.trans hj)
    · by_cases hji : j = i
      · subst hji
        exact hlive record handler ((calls_setCall_self s j phase).symm.trans hj)
      · exact hs.live j record handler ((calls_setCall_of_ne s hji phase).symm.trans hj)

/-- A write keeps its record when it finds the file open. -/
theorem Intact.write_iff (hs : Inv s) {i : ℕ} {record : Record} {handler : Option ℕ}
    (hcall : s.calls i = .copied record handler) :
    Intact ((s.log handler (some i) record).setCall i (.returned record)) ↔ Intact s := by
  have hnone : s.recordsOf i = [] := hs.unwritten i (by simp [hcall])
  obtain ⟨n, -, rfl⟩ := hs.held i record handler hcall
  have hcalls {j : ℕ} (hj : j ≠ i) : ((s.log (some n) (some i) record).setCall i
      (.returned record)).calls j = s.calls j := by
    rw [calls_setCall_of_ne _ hj, calls_log]
  have hrecords {j : ℕ} (hj : j ≠ i) : ((s.log (some n) (some i) record).setCall i
      (.returned record)).recordsOf j = s.recordsOf j := by
    obtain ⟨ws, hlog, hws⟩ := log_eq s (some n) (some i) record
    rw [hlog]
    exact recordsOf_append_of_ne s (some i) hws fun h => hj (Option.some.inj h).symm
  have hself : ((s.log (some n) (some i) record).setCall i (.returned record)).recordsOf i ≠ [] ↔
      s.isOpen n = true := by
    cases hopen : s.isOpen n with
    | false =>
      rw [log_closed s (some i) record hopen]
      exact iff_of_false (fun h => h hnone) Bool.false_ne_true
    | true =>
      rw [log_some s (some i) record hopen]
      have hmine : ∀ w ∈ [(⟨n, some i, record⟩ : Written)], w.caller = some i := by simp
      have happend := recordsOf_append_self s hmine
      rw [hnone, List.nil_append] at happend
      exact iff_of_true (fun h => nomatch happend.symm.trans h) rfl
  constructor
  · intro ht
    refine ⟨fun j record' hj => ?_, fun j record' handler' hj => ?_⟩
    · have hji : j ≠ i := by
        rintro rfl
        exact nomatch hcall.symm.trans hj
      rw [← hrecords hji]
      exact ht.kept j record' ((hcalls hji).trans hj)
    · by_cases hji : j = i
      · subst hji
        obtain ⟨-, rfl⟩ := CallPhase.copied.inj (hcall.symm.trans hj)
        exact ⟨n, rfl, hself.mp (ht.kept j record (calls_setCall_self ..))⟩
      · obtain ⟨m, hm, hopen⟩ := ht.live j record' handler' ((hcalls hji).trans hj)
        exact ⟨m, hm, (isOpen_log s _ _ _ m).symm.trans hopen⟩
  · intro hi
    refine ⟨fun j record' hj => ?_, fun j record' handler' hj => ?_⟩
    · by_cases hji : j = i
      · subst hji
        obtain ⟨m, hm, hopen⟩ := hi.live j record _ hcall
        exact hself.mpr (Option.some.inj hm ▸ hopen)
      · rw [hrecords hji]
        exact hi.kept j record' ((hcalls hji).symm.trans hj)
    · have hji : j ≠ i := by
        rintro rfl
        exact nomatch (calls_setCall_self _ j _).symm.trans hj
      obtain ⟨m, hm, hopen⟩ := hi.live j record' handler' ((hcalls hji).symm.trans hj)
      exact ⟨m, hm, (isOpen_log s _ _ _ m).trans hopen⟩

/-- Behind `closeFile` every handler in hand is dead. -/
theorem Intact.closeFile_iff (hs : Inv s) (hholder : s.holder = some .closing) :
    Intact { s.dropFile with holder := some .opening } ↔ Intact s ∧ Settled s := by
  have hclosing : s.holder ≠ some .opening := by simp [hholder]
  have hopen (n : ℕ) := isOpen_dropFile hs hclosing n
  obtain ⟨m, hf, -, -⟩ := hs.file hclosing
  simp only [State.dropFile, hf] at hopen ⊢
  constructor
  · intro ht
    have hsettled : Settled s := by
      intro i record handler hi
      obtain ⟨n, -, hn⟩ := ht.live i record handler hi
      exact Bool.false_ne_true ((hopen n).symm.trans hn)
    exact ⟨⟨ht.kept, fun i record handler hi => absurd hi (hsettled i record handler)⟩, hsettled⟩
  · rintro ⟨hi, hsettled⟩
    exact ⟨hi.kept, fun i record handler h => absurd h (hsettled i record handler)⟩

/-- The new file is in no call's hand. -/
theorem Intact.openFile_iff (hs : Inv s) :
    Intact { s with
      f := some s.opened
      handler := some s.opened
      opened := s.opened + 1
      isOpen := Function.update s.isOpen s.opened true
      holder := some .announcing } ↔ Intact s := by
  have hsame {i : ℕ} {record : Record} {n : ℕ} (h : s.calls i = .copied record (some n)) :
      Function.update s.isOpen s.opened true n = s.isOpen n := by
    obtain ⟨m, hm, hn⟩ := hs.held i record (some n) h
    obtain rfl := Option.some.inj hn
    exact Function.update_of_ne (Nat.ne_of_lt hm) ..
  constructor
  · intro ht
    refine ⟨ht.kept, fun i record handler hi => ?_⟩
    obtain ⟨n, rfl, hopen⟩ := ht.live i record handler hi
    exact ⟨n, rfl, (hsame hi).symm.trans hopen⟩
  · intro h
    refine ⟨h.kept, fun i record handler hi => ?_⟩
    obtain ⟨n, rfl, hopen⟩ := h.live i record handler hi
    exact ⟨n, rfl, (hsame hi).trans hopen⟩

private theorem intact_step {a : Action} (ha : InService a) (hs : Inv s)
    (h : step announcement s a = some t) : Intact t ↔ Intact s ∧ Undisturbed s a := by
  have hcalm (h : a ≠ .closeFile) : Undisturbed s a := fun ha => absurd ha h
  cases a with
  | event i record =>
    obtain ⟨hcall, rfl⟩ := step_event h
    rw [and_iff_left (hcalm nofun)]
    exact Intact.setCall_iff (fun _ => nofun) (by simp [hcall]) (by simp [hcall]) nofun
  | copy i =>
    obtain ⟨record, hcall, hholder, rfl⟩ := step_copy h
    obtain ⟨n, -, hhandler, hopen⟩ := hs.file (by simp [hholder])
    rw [and_iff_left (hcalm nofun)]
    refine Intact.setCall_iff (fun _ => nofun) (by simp [hcall]) (by simp [hcall]) ?_
    rintro record' handler h
    obtain ⟨-, rfl⟩ := CallPhase.copied.inj h
    exact ⟨n, hhandler, hopen⟩
  | write i =>
    obtain ⟨record, handler, hcall, rfl⟩ := step_write h
    rw [and_iff_left (hcalm nofun)]
    exact Intact.write_iff hs hcall
  | reopen =>
    obtain ⟨hholder, ht⟩ := Option.ite_none_right_eq_some.mp h
    obtain rfl := Option.some.inj ht
    rw [and_iff_left (hcalm nofun)]
    exact ⟨fun h => ⟨h.kept, h.live⟩, fun h => ⟨h.kept, h.live⟩⟩
  | closeFile =>
    obtain ⟨hholder, rfl⟩ := step_closeFile h
    rw [Intact.closeFile_iff hs hholder]
    exact and_congr_right fun _ => ⟨fun h _ => h, fun h => h rfl⟩
  | openFile ok =>
    obtain rfl : ok = true := ha
    obtain ⟨hholder, ht⟩ := Option.ite_none_right_eq_some.mp h
    obtain rfl := Option.some.inj ht
    rw [and_iff_left (hcalm nofun)]
    exact Intact.openFile_iff hs
  | announce =>
    rw [and_iff_left (hcalm nofun)]
    obtain ⟨hholder, rfl | ⟨record, rfl⟩⟩ := step_announce h
    · exact ⟨fun h => ⟨h.kept, h.live⟩, fun h => ⟨h.kept, h.live⟩⟩
    · obtain ⟨ws, heq, hws⟩ := log_eq s s.handler none record
      have hrecords (i : ℕ) := recordsOf_append_of_ne s none hws (i := i) nofun
      rw [heq]
      exact ⟨fun h => ⟨fun i r hi => hrecords i ▸ h.kept i r hi, h.live⟩,
        fun h => ⟨fun i r hi hnil => h.kept i r hi ((hrecords i).symm.trans hnil), h.live⟩⟩
  | close => exact ha.elim

theorem Intact.allWritten (hi : Intact s) (hs : Inv s) : AllWritten s :=
  fun i record hcall => (hs.once i record hcall).resolve_left (hi.kept i record hcall)

private theorem allWritten_iff (hs : Inv s) (hsettled : Settled s) : AllWritten s ↔ Intact s := by
  refine ⟨fun hall => ⟨fun i record hi hnil => ?_, fun i record handler hi => ?_⟩,
    fun hi => hi.allWritten hs⟩
  · obtain ⟨n, -, hrecords⟩ := hall i record hi
    exact nomatch hnil.symm.trans hrecords
  · exact absurd hi (hsettled i record handler)

/-- Every record is written, once and whichever way the calls and the `Reopen`s interleave, as
long as no file is closed under a call that has its handler in hand; where one is, that call
returns without its record. -/
theorem allWritten_of_undisturbed {as : List Action} (hservice : ∀ a ∈ as, InService a)
    (h : exec (step announcement) {} as = some t) :
    (Along (step announcement) Undisturbed {} as → AllWritten t) ∧
      (Settled t → (AllWritten t ↔ Along (step announcement) Undisturbed {} as)) := by
  have hinv : Inv t := exec_invariant_of (fun _ _ _ hs ha h => inv_step ha hs h) hservice h
    inv_start
  have hintact : Intact t ↔ Along (step announcement) Undisturbed {} as := by
    rw [exec_iff_along_of (fun _ _ _ ha hs h => inv_step ha hs h)
      (fun _ _ _ ha hs h => intact_step ha hs h) h hservice inv_start]
    exact and_iff_right intact_start
  exact ⟨fun halong => (hintact.mpr halong).allWritten hinv,
    fun hsettled => (allWritten_iff hinv hsettled).trans hintact⟩

/-- A call writes before the `Reopen`, another one asks for the mutex and writes behind it. -/
theorem allWritten_rotation :
    let as : List Action := [.event 0 (eventRecord "ratelimit.exceeded" []), .copy 0, .write 0,
      .event 1 (eventRecord "tls.reload_succeeded" []), .reopen, .closeFile, .openFile true,
      .announce, .copy 1, .write 1]
    ∃ t, exec (auditStep "./audit.jsonl") {} as = some t ∧ AllWritten t := by
  intro as
  have hservice : ∀ a ∈ as, InService a := by simp [as, InService]
  obtain ⟨t, hrun⟩ : ∃ t, exec (auditStep "./audit.jsonl") {} as = some t := ⟨_, rfl⟩
  have hundisturbed : Along (auditStep "./audit.jsonl") Undisturbed {} as := by
    refine .cons rfl nofun (.cons rfl nofun (.cons rfl nofun (.cons rfl nofun
      (.cons rfl nofun ?_))))
    refine .cons rfl (fun _ i record handler => ?_) (.cons rfl nofun (.cons rfl nofun
      (.cons rfl nofun (.cons rfl nofun trivial))))
    simp only [State.setCall, calls_log, Function.update_apply]
    split_ifs <;> simp
  exact ⟨t, hrun, (allWritten_of_undisturbed hservice hrun).1 hundisturbed⟩

/-- The handler is read, the file rotated, and the record written to the closed file. -/
def overtaken (record : Record) : List Action :=
  [.event 0 record, .copy 0, .reopen, .closeFile, .openFile true, .announce, .write 0]

theorem record_lost_in_rotation :
    ¬ (∀ path as t, (∀ a ∈ as, InService a) → exec (auditStep path) {} as = some t →
        AllWritten t) ∧
      ¬ ∀ as t, (∀ a ∈ as, InService a) → exec alertsStep {} as = some t → AllWritten t := by
  have hservice (record : Record) : ∀ a ∈ overtaken record, InService a := by
    simp [overtaken, InService]
  constructor
  · intro h
    obtain ⟨n, -, hn⟩ := h "./audit.jsonl" (overtaken (eventRecord "ratelimit.exceeded" [])) _
      (hservice _) rfl 0 _ rfl
    exact nomatch hn
  · intro h
    obtain ⟨n, -, hn⟩ := h (overtaken (emitRecord "" "clickhouse_down" "critical" false [])) _
      (hservice _) rfl 0 _ rfl
    exact nomatch hn

end Statnive.LogRotation
