import Mathlib.Data.List.Basic
import Mathlib.Tactic.Common

/-!
# The segmented log

The vendored log keeps its entries in segments, each a file and a buffer of entries. A write
appends to the buffer of the last segment, then to its file, and takes nothing back when the
file does not take all of it. A truncation writes the segment it cuts anew from its buffer, and
`Open` reads the files. Which file operation fails, and when a segment is full, is an argument
of each operation.
-/

namespace Statnive.SegmentedLog

inductive LogError where
  | corrupt | outOfOrder | outOfRange | notFound | emptyLog | io
  deriving DecidableEq

/-- What a file holds: whole entries, and of an entry that was cut short its first bytes. -/
inductive Piece (α : Type) where
  | entry (data : α)
  | torn (data : α) (bytes : ℕ)
  deriving DecidableEq

/-- The buffer of an older segment is empty while its entries are not in the cache. -/
structure Segment (α : Type) where
  index : ℕ
  ebuf : List α
  file : List (Piece α)
  deriving DecidableEq

/-- The segments but the last, and the last one, which is written to. `corrupt` is the flag a
truncation sets when it fails halfway; every operation then refuses, and the next `Open`
finishes the truncation. -/
structure Log (α : Type) where
  older : List (Segment α)
  tail : Segment α
  last : ℕ
  corrupt : Bool
  deriving DecidableEq

/-- How `loadSegmentEntries` reads a file. Behind part of an entry the bytes of others are
taken for what they are not, so of such a file it may make anything. -/
structure Format (α : Type) where
  load : List (Piece α) → Option (List α)
  load_entries : ∀ es : List α, load (es.map .entry) = some es

variable {α : Type}

def Piece.whole : Piece α → Option α
  | .entry data => some data
  | .torn _ _ => none

/-- A format that loads no file with part of an entry. -/
def Format.strict : Format α where
  load := List.mapM Piece.whole
  load_entries es := by
    induction es with
    | nil => rfl
    | cons e es ih => rw [List.map_cons, List.mapM_cons, ih]; rfl

def Log.new : Log α := ⟨[], ⟨1, [], []⟩, 0, false⟩

/-- The field `firstIndex` of the source. -/
def Log.first (l : Log α) : ℕ :=
  match l.older with
  | [] => l.tail.index
  | s :: _ => s.index

def Log.firstIndex (l : Log α) : Except LogError ℕ :=
  if l.corrupt then .error .corrupt else if l.last = 0 then .ok 0 else .ok l.first

def Log.lastIndex (l : Log α) : Except LogError ℕ :=
  if l.corrupt then .error .corrupt else .ok l.last

def Segment.evict (s : Segment α) : Segment α := { s with ebuf := [] }

def segmentCacheSize : ℕ := 4

/-- The segments that were sealed last are in the cache. -/
def pushCache : List (Segment α) → List (Segment α)
  | [] => []
  | s :: rest => (if rest.length < segmentCacheSize then s else s.evict) :: pushCache rest

def Log.cycle (l : Log α) : Log α :=
  { l with older := pushCache (l.older ++ [l.tail]), tail := ⟨l.last + 1, [], []⟩ }

/-- `appendEntry` into the buffer of the last segment. -/
def Log.buffer (l : Log α) (data : α) : Log α :=
  { l with tail := { l.tail with ebuf := l.tail.ebuf ++ [data] } }

/-- `Write` on the file of the last segment. -/
def Log.fill (l : Log α) (piece : Piece α) : Log α :=
  { l with tail := { l.tail with file := l.tail.file ++ [piece] } }

/-- How a write can fail: a last segment over its size is not cycled, its file takes no more
than the first `bytes` bytes of the entry, or the segment that the entry filled is not cycled. -/
inductive WriteFault where
  | none
  | roll
  | write (bytes : ℕ)
  | cycle
  deriving DecidableEq

/-- What a write meets. `oversized` says that the last segment is over its size before the entry,
`full` that it has reached its size with it. -/
structure WriteEnv where
  oversized : Bool := false
  full : Bool := false
  fault : WriteFault := .none
  deriving DecidableEq

/-- Of a write that fails no part is undone: the entry stays in the buffer, and what the file
has taken of it in the file. -/
def Log.write (l : Log α) (index : ℕ) (data : α) (env : WriteEnv) :
    Except LogError Unit × Log α :=
  if l.corrupt then (.error .corrupt, l)
  else if index ≠ l.last + 1 then (.error .outOfOrder, l)
  else if env.oversized ∧ env.fault = .roll then (.error .io, l)
  else
    let buffered := (if env.oversized then l.cycle else l).buffer data
    match env.fault with
    | .write bytes => (.error .io, if bytes = 0 then buffered else buffered.fill (.torn data bytes))
    | fault =>
      let written := { buffered.fill (.entry data) with last := index }
      if ¬ env.full then (.ok (), written)
      else if fault = .cycle then (.error .io, written)
      else (.ok (), written.cycle)

/-- The last segment that begins at `index` or before it, and the segments behind it. -/
def findSegment (index : ℕ) : List (Segment α) → Option (Segment α × List (Segment α))
  | [] => none
  | s :: rest => match findSegment index rest with
    | some found => some found
    | none => if s.index ≤ index then some (s, rest) else none

/-- The entries of an older segment, from the cache or from its file. -/
def Segment.load (fmt : Format α) (s : Segment α) : Option (List α) :=
  if s.ebuf = [] then fmt.load s.file else some s.ebuf

/-- The segment of an index as it is in memory: its first index and its entries. -/
def Log.loadSegment (fmt : Format α) (l : Log α) (index : ℕ) : Option (ℕ × List α) :=
  if l.tail.index ≤ index then some (l.tail.index, l.tail.ebuf)
  else match findSegment index l.older with
    | none => none
    | some (s, _) => (s.load fmt).map (fun es => (s.index, es))

/-- `segmentCorrupt` says that the segment of this index does not load. -/
def Log.read (fmt : Format α) (l : Log α) (index : ℕ) (segmentCorrupt : Bool) :
    Except LogError α :=
  if l.corrupt then .error .corrupt
  else if index < l.first ∨ l.last < index then .error .notFound
  else if segmentCorrupt then .error .corrupt
  else match l.loadSegment fmt index with
    | none => .error .corrupt
    | some (start, es) => match es[index - start]? with
      | some data => .ok data
      | none => .error .corrupt

/-- How a truncation can fail: before the START file is in place, or after it. -/
inductive TruncateFault where
  | none | start | cleanup
  deriving DecidableEq

/-- The log from `index` on. The segment of `index` gets a new file with what it has in memory
from there on; then the cache is cleared. -/
def Log.cutTo (fmt : Format α) (l : Log α) (index : ℕ) : Option (Log α) :=
  if l.tail.index ≤ index then
    let es := l.tail.ebuf.drop (index - l.tail.index)
    some { l with older := [], tail := ⟨index, es, es.map .entry⟩ }
  else match findSegment index l.older with
    | none => none
    | some (s, rest) => (s.load fmt).map fun es =>
      { l with older :=
          ⟨index, [], (es.drop (index - s.index)).map .entry⟩ :: rest.map Segment.evict }

/-- After a `cleanup` failure the directory holds the truncated log. -/
def Log.truncateFront (fmt : Format α) (l : Log α) (index : ℕ) (fault : TruncateFault) :
    Except LogError Unit × Log α :=
  if l.corrupt then (.error .corrupt, l)
  else if index < l.first ∨ l.last + 1 ≤ index then (.error .outOfRange, l)
  else if index = l.first then (.ok (), l)
  else match l.cutTo fmt index with
    | none => (.error .corrupt, l)
    | some cut => match fault with
      | .none => (.ok (), cut)
      | .start => (.error .io, l)
      | .cleanup => (.error .io, { cut with corrupt := true })

def Log.sync (l : Log α) (ok : Bool) : Except LogError Unit :=
  if l.corrupt then .error .corrupt else if ok then .ok () else .error .io

/-- What `Open` finds in the directory of `l`; of the files it reads the last one. -/
def Log.reopen (fmt : Format α) (l : Log α) : Except LogError (Log α) :=
  match fmt.load l.tail.file with
  | none => .error .corrupt
  | some es =>
    let last := l.tail.index + es.length - 1
    if 0 < last ∧ last < l.first then .error .emptyLog
    else .ok ⟨l.older.map Segment.evict, { l.tail with ebuf := es }, last, false⟩
def Segment.entries (s : Segment α) : List α := s.file.filterMap Piece.whole

def Log.segments (l : Log α) : List (Segment α) := l.older ++ [l.tail]

/-- The whole entries in the files. -/
def Log.entries (l : Log α) : List α := l.segments.flatMap Segment.entries

@[simp] theorem entries_evict (s : Segment α) : s.evict.entries = s.entries := rfl
@[simp] theorem index_evict (s : Segment α) : s.evict.index = s.index := rfl

theorem filterMap_entries (es : List α) : (es.map Piece.entry).filterMap Piece.whole = es := by
  induction es with
  | nil => rfl
  | cons e es ih => exact congrArg (e :: ·) ih

@[simp] theorem flatMap_evict (ss : List (Segment α)) :
    (ss.map Segment.evict).flatMap Segment.entries = ss.flatMap Segment.entries := by
  induction ss with
  | nil => rfl
  | cons s rest ih => rw [List.map_cons, List.flatMap_cons, List.flatMap_cons, ih, entries_evict]

@[simp] theorem flatMap_pushCache (ss : List (Segment α)) :
    (pushCache ss).flatMap Segment.entries = ss.flatMap Segment.entries := by
  induction ss with
  | nil => rfl
  | cons s rest ih =>
    rw [pushCache, List.flatMap_cons, List.flatMap_cons, ih]
    split <;> rfl

theorem entries_eq (l : Log α) :
    l.entries = l.older.flatMap Segment.entries ++ l.tail.entries := by
  simp [Log.entries, Log.segments]

@[simp] theorem entries_cycle (l : Log α) : l.cycle.entries = l.entries := by
  simp [Log.cycle, entries_eq, Segment.entries]

@[simp] theorem entries_buffer (l : Log α) (data : α) : (l.buffer data).entries = l.entries := by
  rw [entries_eq, entries_eq]
  rfl

theorem entries_fill (l : Log α) (piece : Piece α) :
    (l.fill piece).entries = l.entries ++ piece.whole.toList := by
  simp only [Log.fill, entries_eq, Segment.entries, List.filterMap_append, List.append_assoc]
  cases piece <;> rfl

@[simp] theorem first_cycle (l : Log α) : l.cycle.first = l.first := by
  unfold Log.first Log.cycle
  cases l.older with
  | nil => rfl
  | cons s rest =>
    simp only [List.cons_append, pushCache]
    split <;> rfl

@[simp] theorem first_buffer (l : Log α) (data : α) : (l.buffer data).first = l.first := rfl
@[simp] theorem first_fill (l : Log α) (piece : Piece α) : (l.fill piece).first = l.first := rfl

end Statnive.SegmentedLog
