import Statnive.SegmentContents

/-!
# The write-ahead log

`WALWriter` over the segmented log as `Open` returned it. It assigns the indices, cuts off what
is acked, and replays the entries in their order.
-/

namespace Statnive.WriteAheadLog

open SegmentedLog

structure WALWriter (α : Type) where
  log : Log α
  nextIdx : ℕ
  deriving DecidableEq

variable {α : Type}

/-- `NewWALWriter` over the log that `Open` returned. -/
def newWALWriter (l : Log α) : WALWriter α := ⟨l, l.last + 1⟩

/-- `Append` of an event whose encoding is `data`. -/
def WALWriter.append (w : WALWriter α) (data : α) (env : WriteEnv) :
    Except LogError Unit × WALWriter α :=
  match w.log.write w.nextIdx data env with
  | (.ok (), l) => (.ok (), ⟨l, w.nextIdx + 1⟩)
  | (.error e, l) => (.error e, ⟨l, w.nextIdx⟩)

def WALWriter.currentIndex (w : WALWriter α) : ℕ := if w.nextIdx = 0 then 0 else w.nextIdx - 1

def WALWriter.sync (w : WALWriter α) (ok : Bool) : Except LogError Unit := w.log.sync ok

def WALWriter.ack (fmt : Format α) (w : WALWriter α) (throughIndex : ℕ) (fault : TruncateFault) :
    Except LogError Unit × WALWriter α :=
  if throughIndex = 0 then (.ok (), w)
  else match w.log.lastIndex with
    | .error e => (.error e, w)
    | .ok last =>
      if last ≤ throughIndex then
        if last = 0 ∨ last - 1 = 0 then (.ok (), w)
        else
          let r := w.log.truncateFront fmt (last - 1 + 1) fault
          (r.1, { w with log := r.2 })
      else
        let r := w.log.truncateFront fmt (throughIndex + 1) fault
        (r.1, { w with log := r.2 })

variable {Ev σ ε : Type}

/-- The loop of `Replay` over `n` indices from `i` on. An entry that does not decode is
skipped, a segment that does not load ends the loop with an error, and so does `cb`. -/
def replayFrom (fmt : Format α) (l : Log α) (decode : α → Option Ev) (segmentCorrupt : ℕ → Bool)
    (cb : σ → Ev → Except ε Unit × σ) : ℕ → ℕ → σ → Except (LogError ⊕ ε) Unit × σ
  | 0, _, st => (.ok (), st)
  | n + 1, i, st =>
    match l.read fmt i (segmentCorrupt i) with
    | .error .notFound => replayFrom fmt l decode segmentCorrupt cb n (i + 1) st
    | .error e => (.error (.inl e), st)
    | .ok data =>
      match decode data with
      | none => replayFrom fmt l decode segmentCorrupt cb n (i + 1) st
      | some ev =>
        match cb st ev with
        | (.ok (), st') => replayFrom fmt l decode segmentCorrupt cb n (i + 1) st'
        | (.error e, st') => (.error (.inr e), st')

def WALWriter.replay (fmt : Format α) (w : WALWriter α) (decode : α → Option Ev)
    (segmentCorrupt : ℕ → Bool) (cb : σ → Ev → Except ε Unit × σ) (st : σ) :
    Except (LogError ⊕ ε) Unit × σ :=
  match w.log.firstIndex, w.log.lastIndex with
  | .error e, _ => (.error (.inl e), st)
  | _, .error e => (.error (.inl e), st)
  | .ok first, .ok last =>
    if first = 0 ∨ last = 0 ∨ last < first then (.ok (), st)
    else replayFrom fmt w.log decode segmentCorrupt cb (last + 1 - first) first st

/-- The loop of `Replay` covers all entries of a log in order. -/
theorem WALWriter.replay_eq {w : WALWriter α} (horder : w.log.InOrder) (fmt : Format α)
    (hc : w.log.corrupt = false) (hne : w.log.entries ≠ []) (decode : α → Option Ev)
    (segmentCorrupt : ℕ → Bool) (cb : σ → Ev → Except ε Unit × σ) (st : σ) :
    w.replay fmt decode segmentCorrupt cb st =
      replayFrom fmt w.log decode segmentCorrupt cb w.log.entries.length w.log.first st := by
  have hpos := horder.first_pos
  have hle := horder.first_le_last hne
  have hadd := horder.last_add_one
  have hn : w.log.last + 1 - w.log.first = w.log.entries.length := by omega
  have hrange : ¬ (w.log.first = 0 ∨ w.log.last = 0 ∨ w.log.last < w.log.first) := by
    omega
  simp only [WALWriter.replay, horder.firstIndex hc hne, lastIndex_eq hc, if_neg hrange, hn]

/-- An append is a write at the next index, which it uses up when it returns nil. -/
theorem WALWriter.append_end {w w' : WALWriter α} {data : α} {env : WriteEnv}
    {res : Except LogError Unit} (h : w.append data env = (res, w')) :
    WriteEnd w.log w.nextIdx data env (res, w'.log) ∧
      w'.nextIdx = if res = .ok () then w.nextIdx + 1 else w.nextIdx := by
  have hend := write_end w.log w.nextIdx data env
  unfold WALWriter.append at h
  split at h
  · rename_i l hwrite
    obtain ⟨rfl, rfl⟩ := Prod.mk.inj h
    exact ⟨hwrite ▸ hend, rfl⟩
  · rename_i e l hwrite
    obtain ⟨rfl, rfl⟩ := Prod.mk.inj h
    exact ⟨hwrite ▸ hend, rfl⟩

/-- An ack leaves the log as it is, or cuts off no more than it was asked to. -/
theorem WALWriter.ack_cases (fmt : Format α) (w : WALWriter α) (throughIndex : ℕ)
    (fault : TruncateFault) : (w.ack fmt throughIndex fault).2.nextIdx = w.nextIdx ∧
      ((w.ack fmt throughIndex fault).2.log = w.log ∨ ∃ n, n ≤ throughIndex + 1 ∧
        (w.ack fmt throughIndex fault).2.log = (w.log.truncateFront fmt n fault).2) := by
  unfold WALWriter.ack
  split
  · exact ⟨rfl, .inl rfl⟩
  · split
    · exact ⟨rfl, .inl rfl⟩
    · split
      · split
        · exact ⟨rfl, .inl rfl⟩
        · exact ⟨rfl, .inr ⟨_, by omega, rfl⟩⟩
      · exact ⟨rfl, .inr ⟨_, Nat.le_refl _, rfl⟩⟩

section

variable (w : WALWriter α) (fmt : Format α) (throughIndex : ℕ) (fault : TruncateFault)

/-- An ack keeps a log in order, and what it leaves at its index. -/
theorem WALWriter.ack_inOrder (h : w.log.InOrder) :
    (w.ack fmt throughIndex fault).2.log.InOrder ∧
      ∀ index data, w.log.Holds index data →
        (w.ack fmt throughIndex fault).2.log.Holds index data := by
  rcases (w.ack_cases fmt throughIndex fault).2 with hsame | ⟨n, -, hcut⟩
  · rw [hsame]
    exact ⟨h, fun _ _ => id⟩
  · rw [hcut]
    exact ⟨h.truncated fmt n fault, fun _ _ hholds => hholds.truncateFront h fmt n fault⟩

/-- An ack cuts the log no further than behind its index, and leaves an entry. -/
theorem WALWriter.first_ack (h : w.log.InOrder) :
    (w.ack fmt throughIndex fault).2.log.first = w.log.first ∨
      (w.ack fmt throughIndex fault).2.log.first ≤ throughIndex + 1 ∧
        (w.ack fmt throughIndex fault).2.log.first ≤ w.log.last := by
  rcases (w.ack_cases fmt throughIndex fault).2 with hsame | ⟨n, hn, hcut⟩
  · exact .inl (congrArg Log.first hsame)
  · rw [hcut]
    rcases h.truncateFront fmt n fault with hsame | ⟨-, hlast, -, hfirst, -⟩
    · exact .inl (congrArg Log.first hsame)
    · right
      rw [hfirst]
      exact ⟨hn, hlast⟩

theorem WALWriter.ack_untorn (h : w.log.Untorn) :
    (w.ack fmt throughIndex fault).2.log.Untorn ∧
      ∀ x ∈ (w.ack fmt throughIndex fault).2.log.contents, x ∈ w.log.contents := by
  rcases (w.ack_cases fmt throughIndex fault).2 with hsame | ⟨n, -, hcut⟩
  · rw [hsame]
    exact ⟨h, fun _ => id⟩
  · rw [hcut]
    exact h.truncateFront fmt n fault

end

end Statnive.WriteAheadLog
