import Statnive.JournalFile
import Statnive.LabelledRuns
import Statnive.SuppressionRecord

/-!
# The suppression list

`NewSuppressionList` replays the file and skips the lines that do not decode. `Add` writes
one line behind whatever the file ends with, and syncs it before it returns nil. A crash
leaves a prefix of what was not synced.
-/

namespace Statnive.Suppression

open LabelledRuns JournalFile PrivacyPolicy VisitorIdentity SuppressionRecord

def newline : UInt8 := 0x0A

/-- `bufio.MaxScanTokenSize`, which a line together with its end must fit into. -/
def maxScanTokenSize : ℕ := 64 * 1024

def dropCR (line : Bytes) : Bytes := if line.getLast? = some 0x0D then line.dropLast else line

def scan (file : Bytes) : Option (List Bytes) :=
  if (lines newline file).any (fun line => maxScanTokenSize ≤ line.length) then none
  else some ((lines newline file).map dropCR)

def replayLine (line : Bytes) : Option Bytes :=
  match unmarshal line with
  | none => none
  | some rec => if rec.hash = [] then none else some rec.hash

/-- The set after a replay, or `none` when the scanner fails. -/
def replay (file : Bytes) : Option (List Bytes) := (scan file).map (List.filterMap replayLine)

/-- `broken` is the error that the buffered writer keeps. -/
structure SuppressionList where
  set : List Bytes
  walOpen : Bool := true
  broken : Bool := false
  deriving DecidableEq

/-- The buffered writer still reaches the file. -/
def SuppressionList.ready (l : SuppressionList) : Bool := l.walOpen && !l.broken

def SuppressionList.isSuppressed (l : SuppressionList) (hash : Bytes) : Bool :=
  hash ≠ [] && hash ∈ l.set

/-- The file, the list of the running process if it opened one, and the hashes for which
`Add` has returned nil. -/
structure State where
  wal : File UInt8 := {}
  list : Option SuppressionList := none
  acked : List Bytes := []
  deriving DecidableEq

def init : State := {}

/-- How far `Add` comes: the write fails after `n` bytes, the sync fails, or it returns nil. -/
inductive Outcome where
  | short (n : ℕ) | unsynced | done
  deriving DecidableEq

inductive Action where
  | new (ok : Bool)
  | add (hash : Hash) (unixAt : Int64) (outcome : Outcome)
  | close (synced : Bool)
  | crash (kept hardened : ℕ)
  deriving DecidableEq

def newSuppressionList (s : State) (ok : Bool) : State :=
  { s with list := if ok then (replay s.wal.bytes).map (fun set => { set := set }) else none }

def record (hash : Hash) (unixAt : Int64) : Bytes := marshal hash unixAt ++ [newline]

def add (s : State) (l : SuppressionList) (hash : Hash) (unixAt : Int64) (outcome : Outcome) :
    State :=
  if hash.bytes = [] then s
  else if !l.ready then { s with list := some { l with broken := true } }
  else match outcome with
  | .short n =>
    { s with
      wal := s.wal.write ((record hash unixAt).take n)
      list := some { l with broken := true } }
  | .unsynced => { s with wal := s.wal.write (record hash unixAt) }
  | .done =>
    { wal := (s.wal.write (record hash unixAt)).sync
      list := some { l with set := hash.bytes :: l.set }
      acked := hash.bytes :: s.acked }

/-- Closing again finds the file closed. -/
def close (s : State) (l : SuppressionList) (synced : Bool) : State :=
  if l.walOpen then
    { s with
      wal := if synced then s.wal.sync else s.wal
      list := some { l with walOpen := false } }
  else s

def opened (s : State) : Bool := s.list.any SuppressionList.walOpen

def step (s : State) : Action → Option State
  | .new ok => if opened s then none else some (newSuppressionList s ok)
  | .add hash unixAt outcome => s.list.map (fun l => add s l hash unixAt outcome)
  | .close synced => s.list.map (fun l => close s l synced)
  | .crash kept hardened => some { s with wal := s.wal.crash kept hardened, list := none }

/-- The list reports every hash for which `Add` has ever returned nil. -/
def Reported (s : State) : Prop :=
  ∀ l, s.list = some l → ∀ hash ∈ s.acked, l.isSuppressed hash = true

def addReturnsNil (s : State) (hash : Hash) (outcome : Outcome) : Bool :=
  outcome = .done && hash.bytes ≠ [] && s.list.any SuppressionList.ready

/-- An `Add` that returns nil finds the file empty or its last line ended. -/
def StartsLine (s : State) : Action → Prop
  | .add hash _ outcome => addReturnsNil s hash outcome = true → AtLineStart newline s.wal.bytes
  | _ => True

instance (s : State) : (a : Action) → Decidable (StartsLine s a)
  | .add _ _ _ => inferInstanceAs (Decidable (_ → _))
  | .new _ | .close _ | .crash _ _ => .isTrue trivial

private theorem dropCR_marshal (hash : Hash) (unixAt : Int64) :
    dropCR (marshal hash unixAt) = marshal hash unixAt := by
  have hlast : (marshal hash unixAt).getLast? = some 0x7D := List.getLast?_concat
  rw [dropCR, hlast, if_neg (by decide)]

private theorem replayLine_marshal {hash : Hash} (hne : hash.bytes ≠ []) (unixAt : Int64) :
    replayLine (marshal hash unixAt) = some hash.bytes := by
  simp [replayLine, unmarshal_marshal, hne]

/-- The hash has a line of its own. -/
def HasRecord (hash file : Bytes) : Prop :=
  ∃ (h : Hash) (unixAt : Int64), h.bytes = hash ∧ hash ≠ [] ∧
    HasLine newline (marshal h unixAt) file

theorem HasRecord.mono {hash file file' : Bytes} (h : HasRecord hash file)
    (hle : file <+: file') : HasRecord hash file' := by
  obtain ⟨h, unixAt, heq, hne, hline⟩ := h
  exact ⟨h, unixAt, heq, hne, hline.mono hle⟩

theorem HasRecord.mem_replay {hash file : Bytes} {set : List Bytes} (h : HasRecord hash file)
    (hr : replay file = some set) : hash ∈ set := by
  obtain ⟨h, unixAt, rfl, hne, hline⟩ := h
  have hmem : marshal h unixAt ∈ lines newline file :=
    hline.mem_lines (newline_notMem_marshal h unixAt)
  obtain ⟨tokens, hs, rfl⟩ := Option.map_eq_some_iff.mp hr
  unfold scan at hs
  split at hs
  · simp at hs
  · cases hs
    refine List.mem_filterMap.mpr ⟨marshal h unixAt, ?_, replayLine_marshal hne unixAt⟩
    exact List.mem_map.mpr ⟨_, hmem, dropCR_marshal h unixAt⟩

/-- The hash is on disk, and in the set of the list. -/
structure Kept (s : State) (hash : Bytes) : Prop where
  recorded : HasRecord hash s.wal.durable
  listed : ∀ l, s.list = some l → hash ∈ l.set

/-- The file only grows, and a list keeps its set or is a replay. -/
theorem Kept.mono {s t : State} {hash : Bytes} (h : Kept s hash)
    (hdurable : s.wal.durable <+: t.wal.durable)
    (hlist : ∀ l, t.list = some l → (∃ l', s.list = some l' ∧ ∀ x ∈ l'.set, x ∈ l.set) ∨
      replay t.wal.bytes = some l.set) : Kept t hash := by
  have hrec := h.recorded.mono hdurable
  refine ⟨hrec, fun l hl => ?_⟩
  rcases hlist l hl with ⟨l', hl', hset⟩ | hreplay
  · exact hset hash (h.listed l' hl')
  · exact (hrec.mono t.wal.durable_prefix_bytes).mem_replay hreplay

theorem kept_new {s : State} {hash : Bytes} (h : Kept s hash) (ok : Bool) :
    Kept (newSuppressionList s ok) hash := by
  refine h.mono (List.prefix_refl _) (fun l hl => .inr ?_)
  simp only [newSuppressionList] at hl ⊢
  split at hl
  · obtain ⟨set, hset, rfl⟩ := Option.map_eq_some_iff.mp hl
    exact hset
  · simp at hl

private theorem kept_add {s : State} {l : SuppressionList} {x : Bytes} (h : Kept s x)
    (hl : s.list = some l) (hash : Hash) (unixAt : Int64) (outcome : Outcome) :
    Kept (add s l hash unixAt outcome) x := by
  unfold add
  split
  · exact h
  · split
    · exact h.mono (List.prefix_refl _)
        (fun l' hl' => .inl ⟨l, hl, by cases hl'; exact fun _ => id⟩)
    · cases outcome with
      | short n =>
        exact h.mono (List.prefix_refl _)
          (fun l' hl' => .inl ⟨l, hl, by cases hl'; exact fun _ => id⟩)
      | unsynced => exact h.mono (List.prefix_refl _) (fun l' hl' => .inl ⟨l', hl', fun _ => id⟩)
      | done =>
        refine h.mono (s.wal.write (record hash unixAt)).durable_prefix_bytes
          (fun l' hl' => .inl ⟨l, hl, ?_⟩)
        cases hl'
        exact fun _ hx => List.mem_cons_of_mem _ hx

private theorem kept_close {s : State} {l : SuppressionList} {hash : Bytes} (h : Kept s hash)
    (hl : s.list = some l) (synced : Bool) : Kept (close s l synced) hash := by
  unfold close
  split
  · refine h.mono ?_ (fun l' hl' => .inl ⟨l, hl, by cases hl'; exact fun _ => id⟩)
    cases synced with
    | false => exact List.prefix_refl _
    | true => exact s.wal.durable_prefix_sync
  · exact h

theorem kept_crash {s : State} {hash : Bytes} (h : Kept s hash) (kept hardened : ℕ) :
    Kept { s with wal := s.wal.crash kept hardened, list := none } hash :=
  h.mono (s.wal.durable_prefix_crash kept hardened) (by simp)

theorem kept_step {s t : State} {a : Action} {hash : Bytes} (h : Kept s hash)
    (hst : step s a = some t) : Kept t hash := by
  cases a with
  | new ok =>
    obtain ⟨-, rfl⟩ : opened s = false ∧ newSuppressionList s ok = t := by simpa [step] using hst
    exact kept_new h ok
  | add hash' unixAt outcome =>
    obtain ⟨l, hl, rfl⟩ := Option.map_eq_some_iff.mp hst
    exact kept_add h hl hash' unixAt outcome
  | close synced =>
    obtain ⟨l, hl, rfl⟩ := Option.map_eq_some_iff.mp hst
    exact kept_close h hl synced
  | crash kept hardened =>
    cases hst
    exact kept_crash h kept hardened

/-- An `Add` that returns nil from the start of a line records its hash. -/
theorem kept_of_returnsNil {s : State} {l : SuppressionList} {hash : Hash} {unixAt : Int64}
    {outcome : Outcome} (hl : s.list = some l) (hnil : addReturnsNil s hash outcome = true)
    (hstart : AtLineStart newline s.wal.bytes) : Kept (add s l hash unixAt outcome) hash.bytes := by
  obtain ⟨⟨rfl, hne⟩, hready⟩ : (outcome = .done ∧ hash.bytes ≠ []) ∧ l.ready = true := by
    simpa [addReturnsNil, hl] using hnil
  have hadd : add s l hash unixAt .done =
      { wal := (s.wal.write (record hash unixAt)).sync
        list := some { l with set := hash.bytes :: l.set }
        acked := hash.bytes :: s.acked } := by
    simp [add, hne, hready]
  rw [hadd]
  refine ⟨⟨hash, unixAt, rfl, hne, File.hasLine_sync hstart _⟩, fun l' hl' => ?_⟩
  cases hl'
  exact List.mem_cons_self

/-- Only an `Add` that returns nil acknowledges a hash. -/
theorem acked_add {s : State} {l : SuppressionList} {hash : Hash} {unixAt : Int64}
    {outcome : Outcome} (hl : s.list = some l) {x : Bytes}
    (hx : x ∈ (add s l hash unixAt outcome).acked) :
    x ∈ s.acked ∨ x = hash.bytes ∧ addReturnsNil s hash outcome = true := by
  unfold add at hx
  split at hx
  · exact .inl hx
  · rename_i hne
    split at hx
    · exact .inl hx
    · rename_i hready
      cases outcome with
      | short n => exact .inl hx
      | unsynced => exact .inl hx
      | done =>
        rcases List.mem_cons.mp hx with rfl | hx
        · exact .inr ⟨rfl, by simpa [addReturnsNil, hl, hne] using hready⟩
        · exact .inl hx

/-- Every acknowledged hash is kept. -/
def Inv (s : State) : Prop := ∀ hash ∈ s.acked, Kept s hash

theorem inv_init (wal : File UInt8) : Inv { wal := wal } := by
  simp [Inv]

theorem inv_step (s : State) (a : Action) (t : State) (hs : Inv s) (ha : StartsLine s a)
    (h : step s a = some t) : Inv t := by
  intro x hx
  cases a with
  | add hash unixAt outcome =>
    have hst := h
    obtain ⟨l, hl, rfl⟩ := Option.map_eq_some_iff.mp h
    rcases acked_add hl hx with hx | ⟨rfl, hnil⟩
    · exact kept_step (hs x hx) hst
    · exact kept_of_returnsNil hl hnil (ha hnil)
  | new ok =>
    obtain ⟨-, rfl⟩ : opened s = false ∧ newSuppressionList s ok = t := by simpa [step] using h
    exact kept_new (hs x hx) ok
  | close synced =>
    have hst := h
    obtain ⟨l, hl, rfl⟩ := Option.map_eq_some_iff.mp h
    have hacked : (close s l synced).acked = s.acked := by
      unfold close
      split <;> rfl
    exact kept_step (hs x (hacked ▸ hx)) hst
  | crash kept hardened =>
    have hst := h
    cases h
    exact kept_step (hs x hx) hst

theorem Kept.isSuppressed {s : State} {hash : Bytes} (h : Kept s hash) {l : SuppressionList}
    (hl : s.list = some l) : l.isSuppressed hash = true := by
  have hne : hash ≠ [] := by
    obtain ⟨-, -, -, hne, -⟩ := h.recorded
    exact hne
  simp [SuppressionList.isSuppressed, hne, h.listed l hl]

theorem Inv.reported {s : State} (hs : Inv s) : Reported s :=
  fun _ hl hash hm => (hs hash hm).isSuppressed hl

/-- From any file, as long as no acknowledged `Add` wrote behind an unfinished line: every
hash acknowledged so far is reported whenever a list is open. -/
theorem reported_of_startsLine (wal : File UInt8) (as : List Action) (t : State)
    (h : exec step { wal := wal } as = some t) (ha : Along step StartsLine { wal := wal } as) :
    Reported t :=
  (exec_guarded inv_step ha h (inv_init wal)).reported

/-- The hashes of two visitors. -/
def firstHash : Hash := ⟨0x68 :: 0x3A :: List.replicate 64 0x61, List.all_eq_true.mp rfl⟩

def secondHash : Hash := ⟨0x68 :: 0x3A :: List.replicate 64 0x62, List.all_eq_true.mp rfl⟩

/-- The first record is torn by a crash, and the second is acknowledged behind it. -/
def tornThenAdd : List Action :=
  [.new true, .add firstHash 1 .unsynced, .crash 20 20, .new true, .add secondHash 2 .done,
    .crash 0 0, .new true]

/-- A failed `Add` ends the torn line before the second record is acknowledged. -/
def tornThenEnded : List Action :=
  [.new true, .add firstHash 1 .unsynced, .crash 20 20, .new true, .add firstHash 2 .unsynced,
    .add secondHash 3 .done, .crash 0 0, .new true]

def walThenEnded : File UInt8 where
  durable := (record firstHash 1).take 20 ++ record firstHash 2 ++ record secondHash 3

theorem reported_tornThenEnded :
    Reported ⟨walThenEnded, some ⟨[secondHash.bytes], true, false⟩, [secondHash.bytes]⟩ :=
  reported_of_startsLine {} tornThenEnded _ (by decide +kernel) (by decide +kernel)

/-- After the re-open the acknowledged hash is not reported. -/
theorem acked_hash_lost :
    (exec step init tornThenAdd).map (fun t => (t.list, t.acked)) =
        some (some ⟨[], true, false⟩, [secondHash.bytes]) ∧
      ¬ ∀ t, exec step init tornThenAdd = some t → Reported t := by
  have hrun : (exec step init tornThenAdd).map (fun t => (t.list, t.acked)) =
      some (some ⟨[], true, false⟩, [secondHash.bytes]) := by
    decide +kernel
  refine ⟨hrun, fun hall => ?_⟩
  obtain ⟨t, ht, heq⟩ := Option.map_eq_some_iff.mp hrun
  obtain ⟨hlist, hacked⟩ := Prod.mk.inj heq
  have hlost := hall t ht ⟨[], true, false⟩ hlist secondHash.bytes (by simp [hacked])
  simp [SuppressionList.isSuppressed] at hlost

end Statnive.Suppression
