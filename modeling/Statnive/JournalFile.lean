import Mathlib.Data.List.Basic
import Mathlib.Tactic.Common

/-!
# Append-only files of lines

A file that is written at its end, synced and cut off by crashes, and the lines that a
reader finds in it. A line that was complete, and began as a line, stays a line.
-/

namespace Statnive.JournalFile

variable {α : Type}

structure File (α : Type) where
  durable : List α := []
  unsynced : List α := []
  deriving DecidableEq

def File.bytes (f : File α) : List α := f.durable ++ f.unsynced

def File.write (f : File α) (bs : List α) : File α := { f with unsynced := f.unsynced ++ bs }

def File.sync (f : File α) : File α := { durable := f.bytes }

/-- Of what was not synced, the first `kept` are left, and `hardened` of these are durable. -/
def File.crash (f : File α) (kept hardened : ℕ) : File α where
  durable := f.durable ++ (f.unsynced.take kept).take hardened
  unsynced := (f.unsynced.take kept).drop hardened

@[simp] theorem File.bytes_write (f : File α) (bs : List α) :
    (f.write bs).bytes = f.bytes ++ bs := by
  simp [File.write, File.bytes]

@[simp] theorem File.durable_write (f : File α) (bs : List α) :
    (f.write bs).durable = f.durable := rfl

@[simp] theorem File.durable_sync (f : File α) : f.sync.durable = f.bytes := rfl

@[simp] theorem File.bytes_sync (f : File α) : f.sync.bytes = f.bytes := by
  simp [File.sync, File.bytes]

theorem File.durable_prefix_bytes (f : File α) : f.durable <+: f.bytes := ⟨f.unsynced, rfl⟩

theorem File.durable_prefix_crash (f : File α) (kept hardened : ℕ) :
    f.durable <+: (f.crash kept hardened).durable := ⟨_, rfl⟩

theorem File.durable_prefix_sync (f : File α) : f.durable <+: f.sync.durable :=
  f.durable_prefix_bytes

variable {nl : α}

/-- What is appended now begins a line. -/
def AtLineStart (nl : α) (bs : List α) : Prop := bs = [] ∨ bs.getLast? = some nl

private theorem atLineStart_cons {b : α} {bs : List α} (h : AtLineStart nl (b :: bs)) :
    bs = [] ∧ b = nl ∨ bs ≠ [] ∧ AtLineStart nl bs := by
  cases bs with
  | nil =>
    rcases h with h | h
    · simp at h
    · exact .inl ⟨rfl, by simpa using h⟩
  | cons c cs =>
    rcases h with h | h
    · simp at h
    · refine .inr ⟨by simp, .inr ?_⟩
      rwa [List.getLast?_cons_cons] at h

/-- A line `l` that has both its ends. -/
def HasLine (nl : α) (l bs : List α) : Prop :=
  ∃ before after, bs = before ++ l ++ nl :: after ∧ AtLineStart nl before

theorem HasLine.mono {l bs cs : List α} (h : HasLine nl l bs) (hle : bs <+: cs) :
    HasLine nl l cs := by
  obtain ⟨before, after, rfl, hstart⟩ := h
  obtain ⟨more, rfl⟩ := hle
  exact ⟨before, after ++ more, by simp, hstart⟩

/-- What is written and synced at the start of a line is a durable line. -/
theorem File.hasLine_sync {f : File α} (h : AtLineStart nl f.bytes) (l : List α) :
    HasLine nl l (f.write (l ++ [nl])).sync.durable := by
  rw [File.durable_sync, File.bytes_write]
  exact ⟨f.bytes, [], by simp, h⟩

variable [DecidableEq α]

instance (nl : α) (bs : List α) : Decidable (AtLineStart nl bs) :=
  inferInstanceAs (Decidable (_ ∨ _))

/-- The lines without their ends; the last one need not be ended. -/
def lines (nl : α) : List α → List (List α)
  | [] => []
  | b :: bs =>
    if b = nl then [] :: lines nl bs
    else match lines nl bs with
      | [] => [[b]]
      | l :: ls => (b :: l) :: ls

private theorem lines_ne_nil {bs : List α} (h : bs ≠ []) : lines nl bs ≠ [] := by
  cases bs with
  | nil => exact absurd rfl h
  | cons b bs =>
    rw [lines]
    split
    · simp
    · split <;> simp

private theorem lines_append {as : List α} (h : AtLineStart nl as) (bs : List α) :
    lines nl (as ++ bs) = lines nl as ++ lines nl bs := by
  induction as with
  | nil => rfl
  | cons a as ih =>
    rcases atLineStart_cons h with ⟨rfl, rfl⟩ | ⟨hne, htail⟩
    · simp [lines]
    · rw [List.cons_append, lines, lines, ih htail]
      by_cases ha : a = nl
      · simp [ha]
      · cases hl : lines nl as with
        | nil => exact absurd hl (lines_ne_nil hne)
        | cons l ls => simp [ha]

private theorem lines_line {l : List α} (hl : nl ∉ l) (bs : List α) :
    lines nl (l ++ nl :: bs) = l :: lines nl bs := by
  induction l with
  | nil => simp [lines]
  | cons a l ih =>
    obtain ⟨ha, hrest⟩ : a ≠ nl ∧ nl ∉ l := by simpa [eq_comm] using hl
    rw [List.cons_append, lines, ih hrest]
    simp [ha]

theorem HasLine.mem_lines {l bs : List α} (hl : nl ∉ l) (h : HasLine nl l bs) :
    l ∈ lines nl bs := by
  obtain ⟨before, after, rfl, hstart⟩ := h
  rw [List.append_assoc, lines_append hstart, lines_line hl]
  simp

end Statnive.JournalFile
