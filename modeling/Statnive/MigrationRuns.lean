import Mathlib.Data.List.Infix
import Mathlib.Data.List.Sort
import Statnive.AuthGuards
import Statnive.LabelledRuns
import Statnive.MigrationStatements

/-!
# Runs of the migration runner

A run reads which versions are recorded, and executes and records the others in their order. The
server answers each statement and may fail at any of them, and what it has done is a log.
-/

namespace Statnive.MigrationRuns

open AuthGuards (parseUint32)
open IngestHandler (trimSpace)
open LabelledRuns
open MigrationStatements (splitStatements)

/-- An embedded file with its rendered body, if the template of it renders. -/
structure File where
  name : String
  rendered : Option String
  deriving DecidableEq

structure Planned where
  version : ℕ
  name : String
  body : String
  deriving DecidableEq

def parseVersion (name : String) : Option ℕ :=
  let digits := name.toList.takeWhile (· ≠ '_')
  if digits.length = name.length || digits = [] then none else parseUint32 (String.ofList digits)

def File.planned (f : File) : Option Planned :=
  match parseVersion f.name, f.rendered with
  | some version, some body => some ⟨version, f.name, body⟩
  | _, _ => none

/-- No run begins when one of the files has no version or no body. -/
def plans (files : List File) : Option (List Planned) :=
  ((files.filter fun f => ".sql".toList.isSuffixOf f.name.toList).mapM File.planned).map
    (List.insertionSort fun p q => p.version ≤ q.version)

/-- The statements that `applyOne` executes. -/
def Planned.statements (p : Planned) : List String :=
  ((splitStatements p.body).map trimSpace).filter (· ≠ "")

/-- What the server has done. -/
inductive Event where
  | exec (stmt : String)
  | failed (stmt : String)
  | insert (version : ℕ)
  deriving DecidableEq

/-- The answer to a statement. A record whose answer is lost is written. -/
inductive Outcome where
  | ok | failed | lost
  deriving DecidableEq

/-- An error with its text, and whether it is the report of a missing table or database. -/
structure ServerError where
  text : String
  missing : Bool
  deriving DecidableEq

/-- The answer to the question which versions are recorded. -/
inductive Answer where
  | rows
  | error (e : ServerError)
  | broken
  deriving DecidableEq

def recorded (log : List Event) : List ℕ :=
  log.filterMap fun
    | .insert version => some version
    | _ => none

def missingTexts : List String :=
  ["UNKNOWN_TABLE", "UNKNOWN_DATABASE", "Unknown table", "Unknown database", "doesn't exist",
    "code: 60", "code: 81"]

/-- `strings.Contains`. -/
def contains (msg sub : String) : Bool := msg.toList.tails.any fun t => sub.toList.isPrefixOf t

def isMissingTable (msg : String) : Bool := missingTexts.any fun sub => contains msg sub

def appliedVersions (log : List Event) : Answer → Option (List ℕ)
  | .rows => some (recorded log)
  | .error e => if isMissingTable e.text then some [] else none
  | .broken => none

/-- What a part of a run has done, the answers it has left, and whether it returned no error. A run
that gets no answer any more has been stopped. -/
structure Attempt where
  events : List Event
  rest : List Outcome
  ok : Bool
  deriving DecidableEq

def applyOne : List String → List Outcome → Attempt
  | [], os => ⟨[], os, true⟩
  | _ :: _, [] => ⟨[], [], false⟩
  | stmt :: stmts, .ok :: os =>
    let a := applyOne stmts os
    ⟨.exec stmt :: a.events, a.rest, a.ok⟩
  | stmt :: _, _ :: os => ⟨[.failed stmt], os, false⟩

def recordApplied (version : ℕ) : List Outcome → Attempt
  | .ok :: os => ⟨[.insert version], os, true⟩
  | .lost :: os => ⟨[.insert version], os, false⟩
  | .failed :: os => ⟨[], os, false⟩
  | [] => ⟨[], [], false⟩

/-- The loop over the plans. -/
def applyPlans (applied : List ℕ) : List Planned → List Outcome → Attempt
  | [], os => ⟨[], os, true⟩
  | p :: ps, os =>
    if applied.contains p.version then applyPlans applied ps os
    else
      let a := applyOne p.statements os
      if !a.ok then a
      else
        let r := recordApplied p.version a.rest
        if !r.ok then ⟨a.events ++ r.events, r.rest, false⟩
        else
          let m := applyPlans applied ps r.rest
          ⟨a.events ++ r.events ++ m.events, m.rest, m.ok⟩

/-- A call of `Run`. -/
structure Call where
  answer : Answer
  outcomes : List Outcome
  deriving DecidableEq

def run (files : List File) (log : List Event) (c : Call) : Attempt :=
  match plans files with
  | none => ⟨[], c.outcomes, false⟩
  | some ps => match appliedVersions log c.answer with
    | none => ⟨[], c.outcomes, false⟩
    | some applied => applyPlans applied ps c.outcomes

/-- What has been done, and whether some run has returned no error. -/
structure History where
  log : List Event := []
  succeeded : Bool := false
  deriving DecidableEq

/-- The table is not reported to be missing once it has a row. -/
def honest (log : List Event) : Answer → Bool
  | .error e => !e.missing || recorded log = []
  | _ => true

def step (files : List File) (h : History) (c : Call) : Option History :=
  if honest h.log c.answer then
    let a := run files h.log c
    some ⟨h.log ++ a.events, h.succeeded || a.ok⟩
  else none

/-- A version is recorded after all of its statements were executed, and after every smaller
version. -/
def InOrder (ps : List Planned) (log : List Event) : Prop :=
  ∀ before version after, log = before ++ .insert version :: after →
    (∃ p ∈ ps, p.version = version) ∧
    (∀ p ∈ ps, p.version = version → ∃ front, before = front ++ p.statements.map .exec) ∧
    ∀ p ∈ ps, p.version < version → .insert p.version ∈ before

/-- A call after a successful one does nothing, and only a report of a missing table or database
stands for an empty table. -/
def Careful (files : List File) (h : History) (c : Call) : Prop :=
  (h.succeeded = true → (run files h.log c).events = []) ∧
    ∀ e, c.answer = .error e → (appliedVersions h.log c.answer).isSome = true → e.missing = true

/-- The property over a whole history. -/
def RunsOnce (files : List File) (ps : List Planned) (calls : List Call) : Prop :=
  Throughout (step files) (fun h => InOrder ps h.log) {} calls ∧
    Along (step files) (Careful files) {} calls

/-- None of the texts is part of another error than such a report. -/
def Classified (c : Call) : Prop :=
  ∀ e, c.answer = .error e → e.missing = false →
    ∀ sub ∈ missingTexts, ¬ sub.toList <:+: e.text.toList

private theorem applyOne_ok {stmts : List String} {os : List Outcome}
    (h : (applyOne stmts os).ok = true) : (applyOne stmts os).events = stmts.map .exec := by
  induction stmts generalizing os with
  | nil => rfl
  | cons stmt stmts ih =>
    cases os with
    | nil => simp [applyOne] at h
    | cons o os =>
      cases o with
      | ok =>
        rw [applyOne] at h ⊢
        rw [List.map_cons]
        exact congrArg _ (ih h)
      | failed => simp [applyOne] at h
      | lost => simp [applyOne] at h

private theorem insert_notMem_applyOne (stmts : List String) (os : List Outcome) (version : ℕ) :
    .insert version ∉ (applyOne stmts os).events := by
  induction stmts generalizing os with
  | nil => simp [applyOne]
  | cons stmt stmts ih =>
    cases os with
    | nil => simp [applyOne]
    | cons o os => cases o <;> simp [applyOne, ih]

theorem mem_recorded {log : List Event} {version : ℕ} :
    version ∈ recorded log ↔ .insert version ∈ log := by
  rw [recorded, List.mem_filterMap]
  constructor
  · rintro ⟨e, he, hversion⟩
    cases e with
    | exec => simp at hversion
    | failed => simp at hversion
    | insert v =>
      obtain rfl := Option.some.inj hversion
      exact he
  · exact fun h => ⟨_, h, rfl⟩

theorem InOrder.append {ps : List Planned} {log events : List Event} (h : InOrder ps log)
    (hfree : ∀ version, .insert version ∉ events) : InOrder ps (log ++ events) := by
  intro before version after heq
  rcases List.append_eq_append_iff.mp heq with ⟨mid, hbefore, hevents⟩ | ⟨mid, hlog, hafter⟩
  · exact absurd (by rw [hevents]; simp) (hfree version)
  · cases mid with
    | nil =>
      rw [List.nil_append] at hafter
      exact absurd (by rw [← hafter]; simp) (hfree version)
    | cons e mid =>
      obtain ⟨rfl, -⟩ := List.cons.inj hafter
      exact h before version mid hlog

theorem InOrder.snoc {ps : List Planned} {log : List Event} {p : Planned} (h : InOrder ps log)
    (hp : p ∈ ps) (hunique : ∀ q ∈ ps, q.version = p.version → q = p)
    (hstmts : ∃ front, log = front ++ p.statements.map .exec)
    (hsmaller : ∀ q ∈ ps, q.version < p.version → .insert q.version ∈ log) :
    InOrder ps (log ++ [.insert p.version]) := by
  intro before version after heq
  rcases List.eq_nil_or_concat' after with rfl | ⟨tail, e, rfl⟩
  · obtain ⟨rfl, hlast⟩ := List.append_inj' heq rfl
    obtain rfl : p.version = version := by simpa using hlast
    refine ⟨⟨p, hp, rfl⟩, fun q hq hversion => ?_, hsmaller⟩
    rw [hunique q hq hversion]
    exact hstmts
  · rw [← List.cons_append, ← List.append_assoc] at heq
    exact h before version tail (List.append_inj' heq rfl).1

private theorem recordApplied_events (version : ℕ) (os : List Outcome) :
    (recordApplied version os).events = [.insert version] ∨
      ((recordApplied version os).events = [] ∧ (recordApplied version os).ok = false) := by
  cases os with
  | nil => exact .inr ⟨rfl, rfl⟩
  | cons o os =>
    cases o with
    | ok => exact .inl rfl
    | failed => exact .inr ⟨rfl, rfl⟩
    | lost => exact .inl rfl

section Sorted

variable {ps done todo : List Planned} {p q : Planned}

private theorem eq_of_version
    (hps : (ps.map Planned.version).Pairwise (· < ·)) (hp : p ∈ ps) (hq : q ∈ ps)
    (h : q.version = p.version) : q = p :=
  List.inj_on_of_nodup_map (hps.imp ne_of_lt) hq hp h

/-- The smaller versions have been passed. -/
theorem mem_done (hps : (ps.map Planned.version).Pairwise (· < ·)) (hsplit : ps = done ++ p :: todo)
    (hq : q ∈ ps) (hlt : q.version < p.version) : q ∈ done := by
  rw [hsplit, List.map_append, List.map_cons, List.pairwise_append, List.pairwise_cons] at hps
  rw [hsplit] at hq
  rcases List.mem_append.mp hq with hq | hq
  · exact hq
  · rcases List.mem_cons.mp hq with rfl | hq
    · exact absurd hlt (lt_irrefl _)
    · exact absurd hlt (hps.2.1.1 _ (List.mem_map_of_mem hq)).asymm

end Sorted

section Steps

variable {applied : List ℕ} {p : Planned} (todo : List Planned) {os : List Outcome}

theorem applyPlans_skip (hmem : p.version ∈ applied) :
    applyPlans applied (p :: todo) os = applyPlans applied todo os := by
  rw [applyPlans, if_pos (by simpa using hmem)]

private theorem applyPlans_stop (hmem : p.version ∉ applied)
    (hok : (applyOne p.statements os).ok = false) :
    applyPlans applied (p :: todo) os = applyOne p.statements os := by
  simp [applyPlans, hmem, hok]

private theorem applyPlans_unrecorded (hmem : p.version ∉ applied)
    (hok : (applyOne p.statements os).ok = true)
    (hrecord : (recordApplied p.version (applyOne p.statements os).rest).ok = false) :
    (applyPlans applied (p :: todo) os).events = (applyOne p.statements os).events ++
        (recordApplied p.version (applyOne p.statements os).rest).events ∧
      (applyPlans applied (p :: todo) os).ok = false := by
  simp [applyPlans, hmem, hok, hrecord]

private theorem applyPlans_next (hmem : p.version ∉ applied)
    (hok : (applyOne p.statements os).ok = true)
    (hrecord : (recordApplied p.version (applyOne p.statements os).rest).ok = true) :
    let r := recordApplied p.version (applyOne p.statements os).rest
    let m := applyPlans applied todo r.rest
    (applyPlans applied (p :: todo) os).events =
        (applyOne p.statements os).events ++ r.events ++ m.events ∧
      (applyPlans applied (p :: todo) os).ok = m.ok := by
  simp [applyPlans, hmem, hok, hrecord]

end Steps

/-- What the loop does to a log in order, where `done` are the plans that it has passed. -/
theorem applyPlans_inOrder {ps : List Planned} (hps : (ps.map Planned.version).Pairwise (· < ·))
    {applied : List ℕ} {done todo : List Planned} (hsplit : ps = done ++ todo) {log : List Event}
    (os : List Outcome) (hlog : InOrder ps log)
    (happlied : ∀ version ∈ applied, .insert version ∈ log)
    (hdone : ∀ p ∈ done, .insert p.version ∈ log) :
    InOrder ps (log ++ (applyPlans applied todo os).events) ∧
      ((applyPlans applied todo os).ok = true →
        ∀ p ∈ ps, .insert p.version ∈ log ++ (applyPlans applied todo os).events) := by
  induction todo generalizing done log os with
  | nil =>
    rw [List.append_nil] at hsplit
    subst hsplit
    simp only [applyPlans, List.append_nil]
    exact ⟨hlog, fun _ => hdone⟩
  | cons p todo ih =>
    have hsplit' : ps = (done ++ [p]) ++ todo := by simp [hsplit]
    by_cases hmem : p.version ∈ applied
    · rw [applyPlans_skip todo hmem]
      refine ih hsplit' os hlog happlied fun q hq => ?_
      rcases List.mem_append.mp hq with hq | hq
      · exact hdone q hq
      · obtain rfl := List.mem_singleton.mp hq
        exact happlied _ hmem
    · have hexec := hlog.append (insert_notMem_applyOne p.statements os)
      cases hok : (applyOne p.statements os).ok with
      | false =>
        rw [applyPlans_stop todo hmem hok, hok]
        exact ⟨hexec, fun h => nomatch h⟩
      | true =>
        have hp : p ∈ ps := by simp [hsplit]
        have hinsert : InOrder ps (log ++ ((applyOne p.statements os).events ++
            [.insert p.version])) := by
          rw [← List.append_assoc]
          refine hexec.snoc hp (fun q hq => eq_of_version hps hp hq) ?_ fun q hq hlt => ?_
          · exact ⟨log, by rw [applyOne_ok hok]⟩
          · exact List.mem_append_left _ (hdone q (mem_done hps hsplit hq hlt))
        have hrecord := recordApplied_events p.version (applyOne p.statements os).rest
        cases hrok : (recordApplied p.version (applyOne p.statements os).rest).ok with
        | false =>
          obtain ⟨hevents, hfail⟩ := applyPlans_unrecorded todo hmem hok hrok
          rw [hevents, hfail]
          refine ⟨?_, fun h => nomatch h⟩
          rcases hrecord with hr | ⟨hr, -⟩
          · rw [hr]
            exact hinsert
          · rw [hr, List.append_nil]
            exact hexec
        | true =>
          have hr : (recordApplied p.version (applyOne p.statements os).rest).events =
              [.insert p.version] :=
            hrecord.resolve_right fun hfail => by simp [hrok] at hfail
          obtain ⟨hevents, hnext⟩ := applyPlans_next todo hmem hok hrok
          rw [hevents, hnext, hr, ← List.append_assoc]
          refine ih hsplit' _ hinsert (fun version hversion => ?_) fun q hq => ?_
          · exact List.mem_append_left _ (happlied version hversion)
          · rcases List.mem_append.mp hq with hq | hq
            · exact List.mem_append_left _ (hdone q hq)
            · obtain rfl := List.mem_singleton.mp hq
              simp

/-- With all versions applied the loop does nothing. -/
theorem applyPlans_applied {applied : List ℕ} {ps : List Planned}
    (h : ∀ p ∈ ps, p.version ∈ applied) (os : List Outcome) :
    applyPlans applied ps os = ⟨[], os, true⟩ := by
  induction ps with
  | nil => rfl
  | cons p ps ih =>
    rw [List.forall_mem_cons] at h
    rw [applyPlans_skip ps h.1, ih h.2]

/-- What holds of a history so far. -/
structure Sound (ps : List Planned) (h : History) : Prop where
  inOrder : InOrder ps h.log
  complete : h.succeeded = true → ∀ p ∈ ps, .insert p.version ∈ h.log

private theorem mem_log_of_applied {log : List Event} {answer : Answer} {applied : List ℕ}
    (h : appliedVersions log answer = some applied) :
    ∀ version ∈ applied, .insert version ∈ log := by
  intro version hversion
  cases answer with
  | rows =>
    obtain rfl := Option.some.inj h
    exact mem_recorded.mp hversion
  | error e =>
    rw [appliedVersions] at h
    split at h
    next =>
      obtain rfl := Option.some.inj h
      simp at hversion
    next => cases h
  | broken => cases h

theorem missing_of_classified {c : Call} (hc : Classified c) {e : ServerError}
    (he : c.answer = .error e) (h : isMissingTable e.text = true) : e.missing = true := by
  by_contra hmissing
  rw [Bool.not_eq_true] at hmissing
  obtain ⟨sub, hsub, hcontains⟩ := List.any_eq_true.mp h
  obtain ⟨t, ht, hprefix⟩ := List.any_eq_true.mp hcontains
  apply hc e he hmissing sub hsub
  exact (List.isPrefixOf_iff_prefix.mp hprefix).isInfix.trans ((List.mem_tails _ _).mp ht).isInfix

/-- A run over a complete log does nothing. -/
theorem run_complete {files : List File} {ps : List Planned} (hplans : plans files = some ps)
    {log : List Event} (hlog : ∀ p ∈ ps, .insert p.version ∈ log) {c : Call}
    (hhonest : honest log c.answer = true) (hc : Classified c) : (run files log c).events = [] := by
  simp only [run, hplans]
  cases happlied : appliedVersions log c.answer with
  | none => rfl
  | some applied =>
    have hall : ∀ p ∈ ps, p.version ∈ applied := by
      intro p hp
      cases hanswer : c.answer with
      | rows =>
        rw [hanswer] at happlied
        obtain rfl := Option.some.inj happlied
        exact mem_recorded.mpr (hlog p hp)
      | error e =>
        have hmatch : isMissingTable e.text = true := by
          by_contra hno
          rw [hanswer, appliedVersions, if_neg hno] at happlied
          cases happlied
        have hmissing := missing_of_classified hc hanswer hmatch
        rw [hanswer, honest, hmissing] at hhonest
        have hnone : recorded log = [] := by simpa using hhonest
        have hmem := mem_recorded.mpr (hlog p hp)
        rw [hnone] at hmem
        exact absurd hmem List.not_mem_nil
      | broken =>
        rw [hanswer] at happlied
        cases happlied
    simp only [applyPlans_applied hall]

theorem Sound.step {files : List File} {ps : List Planned} (hplans : plans files = some ps)
    (hps : (ps.map Planned.version).Pairwise (· < ·)) {h h' : History} {c : Call}
    (hs : Sound ps h) (hstep : MigrationRuns.step files h c = some h') : Sound ps h' := by
  rw [MigrationRuns.step] at hstep
  split at hstep
  next =>
    obtain rfl := Option.some.inj hstep
    simp only [run, hplans]
    cases happlied : appliedVersions h.log c.answer with
    | none => exact ⟨by simpa using hs.inOrder, by simpa using hs.complete⟩
    | some applied =>
      have hsplit : ps = [] ++ ps := rfl
      have hloop := applyPlans_inOrder hps hsplit c.outcomes hs.inOrder
        (mem_log_of_applied happlied) (by simp)
      refine ⟨hloop.1, fun hok => ?_⟩
      rcases Bool.or_eq_true_iff.mp hok with hok | hok
      · exact fun p hp => List.mem_append_left _ (hs.complete hok p hp)
      · exact hloop.2 hok
  next => cases hstep

private theorem pairwise_versions
    {files : List File} {ps : List Planned} (hplans : plans files = some ps)
    (hnodup : (ps.map Planned.version).Nodup) : (ps.map Planned.version).Pairwise (· < ·) := by
  obtain ⟨qs, -, rfl⟩ := Option.map_eq_some_iff.mp hplans
  have hle : ((qs.insertionSort fun p q => p.version ≤ q.version).map Planned.version).Pairwise
      (· ≤ ·) := List.pairwise_map.mpr (List.pairwise_insertionSort _ _)
  exact hle.imp₂ (fun _ _ hle hne => lt_of_le_of_ne hle hne) hnodup

theorem runsOnce {files : List File} {ps : List Planned} (hplans : plans files = some ps)
    (hnodup : (ps.map Planned.version).Nodup) {calls : List Call} {h : History}
    (hexec : exec (step files) {} calls = some h)
    (hc : Along (step files) (fun _ c => Classified c) {} calls) : RunsOnce files ps calls := by
  have hps := pairwise_versions hplans hnodup
  have hstart : Sound ps {} := by
    refine ⟨fun before version after heq => ?_, fun hok => nomatch hok⟩
    exact absurd heq.symm (by simp)
  have hstep : ∀ s c t, Sound ps s → Classified c → step files s c = some t → Sound ps t :=
    fun s c t hs _ hst => hs.step hplans hps hst
  constructor
  · exact (throughout_of_along hstep hc hstart).mono fun s hs => hs.inOrder
  · have hboth := ((along_enabled hexec).and hc).strengthen
      (fun s c t hs hP hst => hstep s c t hs hP.2 hst) hstart
    refine hboth.mono ?_
    rintro s c ⟨hs, ⟨t, hst⟩, hclass⟩
    have hhonest : honest s.log c.answer = true := by
      by_contra hno
      rw [step, if_neg hno] at hst
      cases hst
    refine ⟨fun hok => run_complete hplans (hs.complete hok) hhonest hclass, ?_⟩
    intro e he happlied
    apply missing_of_classified hclass he
    by_contra hno
    rw [he, appliedVersions, if_neg hno] at happlied
    cases happlied

def oneFile : List File := [⟨"001_initial.sql", some "CREATE TABLE a;"⟩]

def onePlan : List Planned := [⟨1, "001_initial.sql", "CREATE TABLE a;"⟩]

/-- A first run, and one for which a file of the table cannot be read. -/
def twoCalls : List Call :=
  [⟨.error ⟨"code: 60, message: Table statnive.schema_migrations doesn't exist", true⟩, [.ok, .ok]⟩,
    ⟨.error ⟨"code: 107, message: File version.bin doesn't exist", false⟩, [.ok, .ok]⟩]

theorem runsOnce_first : RunsOnce oneFile onePlan (twoCalls.take 1) := by
  refine runsOnce (by decide +kernel) (by decide) (h := ⟨[.exec "CREATE TABLE a", .insert 1], true⟩)
    (by decide +kernel) ⟨?_, fun _ _ => trivial⟩
  rintro e he hmissing
  obtain rfl := Answer.error.inj he
  cases hmissing

/-- Two files with one version. -/
def twoFiles : List File :=
  [⟨"001_a.sql", some "CREATE TABLE a;"⟩, ⟨"001_b.sql", some "CREATE TABLE b;"⟩]

def twoPlans : List Planned :=
  [⟨1, "001_a.sql", "CREATE TABLE a;"⟩, ⟨1, "001_b.sql", "CREATE TABLE b;"⟩]

def oneCall : List Call :=
  [⟨.error ⟨"code: 60, message: Unknown table", true⟩, [.ok, .ok, .failed]⟩]

/-- The second run executes the migration again. Of the two files the second one fails after its
version has been recorded. -/
theorem executed_again :
    (plans oneFile = some onePlan ∧ (exec (step oneFile) {} twoCalls).isSome = true ∧
      ¬ RunsOnce oneFile onePlan twoCalls) ∧
    (plans twoFiles = some twoPlans ∧ (exec (step twoFiles) {} oneCall).isSome = true ∧
      ¬ RunsOnce twoFiles twoPlans oneCall) := by
  refine ⟨⟨by decide +kernel, by decide +kernel, ?_⟩, by decide +kernel, by decide +kernel, ?_⟩
  · rintro ⟨-, hcareful⟩
    have hfirst : step oneFile {} twoCalls[0] =
        some ⟨[.exec "CREATE TABLE a", .insert 1], true⟩ := by decide +kernel
    have hsecond := ((hcareful.2 _ hfirst).1).1 rfl
    exact absurd hsecond (by decide +kernel)
  · rintro ⟨horder, -⟩
    have hfirst : step twoFiles {} oneCall[0] =
        some ⟨[.exec "CREATE TABLE a", .insert 1, .failed "CREATE TABLE b"], false⟩ := by
      decide +kernel
    have hafter : InOrder twoPlans [.exec "CREATE TABLE a", .insert 1, .failed "CREATE TABLE b"] :=
      horder.2 _ hfirst
    obtain ⟨-, hstmts, -⟩ := hafter [.exec "CREATE TABLE a"] 1 _ rfl
    obtain ⟨front, hfront⟩ := hstmts ⟨1, "001_b.sql", "CREATE TABLE b;"⟩ (by decide) rfl
    have hb : Planned.statements ⟨1, "001_b.sql", "CREATE TABLE b;"⟩ = ["CREATE TABLE b"] := by
      decide +kernel
    rw [hb] at hfront
    have hmem : Event.exec "CREATE TABLE b" ∈ [Event.exec "CREATE TABLE a"] :=
      hfront ▸ List.mem_append_right front List.mem_cons_self
    exact absurd hmem (by decide)

end Statnive.MigrationRuns
