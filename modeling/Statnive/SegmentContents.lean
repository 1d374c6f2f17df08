import Statnive.SegmentsInOrder

/-!
# What lies in a log

The entries in the buffers and the files of a log, in order or not. As long as no file holds
part of an entry, an operation brings in the entry that it writes, and no other.
-/

namespace Statnive.SegmentedLog

variable {α : Type} {l : Log α}

def Segment.contents (s : Segment α) : List α := s.ebuf ++ s.entries

/-- What lies in the buffers and the files. -/
def Log.contents (l : Log α) : List α := l.segments.flatMap Segment.contents

/-- No file holds part of an entry. -/
def Log.Untorn (l : Log α) : Prop := ∀ s ∈ l.segments, s.file = s.entries.map .entry

/-- The write leaves no part of its entry in the file. -/
def WriteEnv.Untorn (env : WriteEnv) : Prop := ∀ bytes, env.fault = .write bytes → bytes = 0

instance [DecidableEq α] (l : Log α) : Decidable l.Untorn :=
  inferInstanceAs (Decidable (∀ s ∈ l.segments, s.file = s.entries.map .entry))

instance (env : WriteEnv) : Decidable env.Untorn :=
  match hfault : env.fault with
  | .write 0 => .isTrue (by simp [WriteEnv.Untorn, hfault])
  | .write (n + 1) => .isFalse (by simp [WriteEnv.Untorn, hfault])
  | .none | .roll | .cycle => .isTrue (by simp [WriteEnv.Untorn, hfault])

theorem mem_contents {x : α} :
    x ∈ l.contents ↔ (∃ s ∈ l.older, x ∈ s.contents) ∨ x ∈ l.tail.contents := by
  simp [Log.contents, Log.segments]

theorem mem_segment {s : Segment α} {x : α} : x ∈ s.contents ↔ x ∈ s.ebuf ∨ x ∈ s.entries :=
  List.mem_append

private theorem mem_evict {s : Segment α} {x : α} (h : x ∈ s.evict.contents) : x ∈ s.contents :=
  mem_segment.mpr (.inr h)

theorem untorn_iff : l.Untorn ↔
    (∀ s ∈ l.older, s.file = s.entries.map .entry) ∧ l.tail.file = l.tail.entries.map .entry := by
  simp only [Log.Untorn, Log.segments, List.forall_mem_append, List.forall_mem_singleton]

/-- The segments are those of `ss`, some of them without their buffers. -/
def Evicted (ss' ss : List (Segment α)) : Prop := ∀ s ∈ ss', ∃ s₀ ∈ ss, s = s₀ ∨ s = s₀.evict

theorem evicted_pushCache (ss : List (Segment α)) : Evicted (pushCache ss) ss := by
  induction ss with
  | nil => simp [Evicted, pushCache]
  | cons a rest ih =>
    intro s hs
    rw [pushCache] at hs
    rcases List.mem_cons.mp hs with rfl | hs
    · refine ⟨a, List.mem_cons_self, ?_⟩
      split
      · exact .inl rfl
      · exact .inr rfl
    · obtain ⟨s₀, hs₀, hor⟩ := ih s hs
      exact ⟨s₀, List.mem_cons_of_mem _ hs₀, hor⟩

theorem evicted_map (ss : List (Segment α)) : Evicted (ss.map Segment.evict) ss := by
  intro s hs
  obtain ⟨s₀, hs₀, rfl⟩ := List.mem_map.mp hs
  exact ⟨s₀, hs₀, .inr rfl⟩

theorem Evicted.mem {ss' ss : List (Segment α)} (h : Evicted ss' ss) {s : Segment α} (hs : s ∈ ss')
    {x : α} (hx : x ∈ s.contents) : ∃ s₀ ∈ ss, x ∈ s₀.contents := by
  obtain ⟨s₀, hs₀, rfl | rfl⟩ := h s hs
  · exact ⟨s, hs₀, hx⟩
  · exact ⟨s₀, hs₀, mem_evict hx⟩

theorem Evicted.untorn {ss' ss : List (Segment α)} (h : Evicted ss' ss)
    (hss : ∀ s ∈ ss, s.file = s.entries.map .entry) : ∀ s ∈ ss', s.file = s.entries.map .entry := by
  intro s hs
  obtain ⟨s₀, hs₀, rfl | rfl⟩ := h s hs
  · exact hss s hs₀
  · exact hss s₀ hs₀

theorem mem_cycle {x : α} (h : x ∈ l.cycle.contents) : x ∈ l.contents := by
  rcases mem_contents.mp h with ⟨s, hs, hx⟩ | hx
  · obtain ⟨s₀, hs₀, hx₀⟩ := (evicted_pushCache _).mem hs hx
    exact List.mem_flatMap.mpr ⟨s₀, hs₀, hx₀⟩
  · simp [Log.cycle, Segment.contents, Segment.entries] at hx

theorem mem_buffer {data x : α} (h : x ∈ (l.buffer data).contents) : x ∈ l.contents ∨ x = data := by
  rw [mem_contents, mem_segment] at h
  rw [mem_contents, mem_segment]
  simp only [Log.buffer, List.mem_append, List.mem_singleton] at h
  rcases h with h | (h | h) | h
  · exact .inl (.inl h)
  · exact .inl (.inr (.inl h))
  · exact .inr h
  · exact .inl (.inr (.inr h))

theorem mem_fill {piece : Piece α} {x : α} (h : x ∈ (l.fill piece).contents) :
    x ∈ l.contents ∨ piece.whole = some x := by
  rw [mem_contents, mem_segment] at h
  rw [mem_contents, mem_segment]
  simp only [Log.fill, Segment.entries, List.filterMap_append, List.mem_append] at h
  rcases h with h | h | h | h
  · exact .inl (.inl h)
  · exact .inl (.inr (.inl h))
  · exact .inl (.inr (.inr h))
  · obtain ⟨p, hp, hx⟩ := List.mem_filterMap.mp h
    rw [List.mem_singleton.mp hp] at hx
    exact .inr hx

theorem Log.Untorn.cycle (h : l.Untorn) : l.cycle.Untorn :=
  untorn_iff.mpr ⟨(evicted_pushCache _).untorn h, rfl⟩

theorem Log.Untorn.buffer (h : l.Untorn) (data : α) : (l.buffer data).Untorn := by
  obtain ⟨holder, htail⟩ := untorn_iff.mp h
  exact untorn_iff.mpr ⟨holder, htail⟩

theorem Log.Untorn.fill (h : l.Untorn) (data : α) : (l.fill (.entry data)).Untorn := by
  obtain ⟨holder, htail⟩ := untorn_iff.mp h
  refine untorn_iff.mpr ⟨holder, ?_⟩
  simp only [Log.fill, Segment.entries, List.filterMap_append, List.map_append]
  exact congrArg (· ++ [Piece.entry data]) htail

theorem mem_push {data x : α} (h : x ∈ (l.push data).contents) : x ∈ l.contents ∨ x = data := by
  rcases mem_fill (l := l.buffer data) h with h | h
  · exact mem_buffer h
  · exact .inr (Option.some.inj h).symm

section

variable {index : ℕ} {data : α} {env : WriteEnv} {r : Except LogError Unit × Log α}

/-- A write brings in its own entry at most. -/
theorem WriteEnd.mem (h : WriteEnd l index data env r) {x : α} (hx : x ∈ r.2.contents) :
    x ∈ l.contents ∨ x = data := by
  have hbase : ∀ {base : Log α}, base = l ∨ base = l.cycle → x ∈ base.contents ∨ x = data →
      x ∈ l.contents ∨ x = data := by
    rintro base (rfl | rfl) (hm | hm)
    · exact .inl hm
    · exact .inr hm
    · exact .inl (mem_cycle hm)
    · exact .inr hm
  cases h with
  | refused => exact .inl hx
  | short base hor bytes =>
    refine hbase hor ?_
    split at hx
    · exact mem_buffer hx
    · rcases mem_fill hx with hx | hx
      · exact mem_buffer hx
      · simp [Piece.whole] at hx
  | through base hor _ res wrote hwrote =>
    refine hbase hor ?_
    rcases hwrote with rfl | rfl
    · exact mem_push hx
    · exact mem_push (mem_cycle hx)

theorem WriteEnd.untorn (h : WriteEnd l index data env r) (hl : l.Untorn) (henv : env.Untorn) :
    r.2.Untorn := by
  have hbase : ∀ {base : Log α}, base = l ∨ base = l.cycle → (base.buffer data).Untorn := by
    rintro base (rfl | rfl)
    · exact hl.buffer data
    · exact hl.cycle.buffer data
  cases h with
  | refused => exact hl
  | short base hor bytes hfault =>
    rw [if_pos (henv bytes hfault)]
    exact hbase hor
  | through base hor _ res wrote hwrote =>
    have hpush : (base.push data).Untorn := (hbase hor).fill data
    rcases hwrote with rfl | rfl
    · exact hpush
    · exact hpush.cycle

end

theorem Segment.mem_load {s : Segment α} (h : s.file = s.entries.map .entry) (fmt : Format α)
    {es : List α} (hes : s.load fmt = some es) {x : α} (hx : x ∈ es) : x ∈ s.contents := by
  unfold Segment.load at hes
  split at hes
  · rw [h, fmt.load_entries] at hes
    exact mem_segment.mpr (.inr (Option.some.inj hes ▸ hx))
  · exact mem_segment.mpr (.inl (Option.some.inj hes ▸ hx))

theorem mem_findSegment {i : ℕ} {ss rest : List (Segment α)} {s : Segment α}
    (h : findSegment i ss = some (s, rest)) : s ∈ ss ∧ ∀ a ∈ rest, a ∈ ss := by
  induction ss with
  | nil => simp [findSegment] at h
  | cons a behind ih =>
    rw [findSegment] at h
    split at h
    · rename_i found hfound
      obtain rfl := Option.some.inj h
      obtain ⟨hs, hrest⟩ := ih hfound
      exact ⟨List.mem_cons_of_mem _ hs, fun b hb => List.mem_cons_of_mem _ (hrest b hb)⟩
    · obtain ⟨-, heq⟩ := Option.ite_none_right_eq_some.mp h
      obtain ⟨rfl, rfl⟩ := Prod.mk.inj (Option.some.inj heq)
      exact ⟨List.mem_cons_self, fun b hb => List.mem_cons_of_mem _ hb⟩

/-- A segment that was written anew from some entries. -/
theorem mem_rewritten {n : ℕ} {buf es : List α} (hbuf : ∀ x ∈ buf, x ∈ es) {x : α}
    (h : x ∈ (⟨n, buf, es.map .entry⟩ : Segment α).contents) : x ∈ es := by
  rcases mem_segment.mp h with h | h
  · exact hbuf x h
  · rwa [Segment.entries, filterMap_entries] at h

theorem untorn_rewritten (n : ℕ) (buf es : List α) :
    (⟨n, buf, es.map .entry⟩ : Segment α).file =
      (⟨n, buf, es.map .entry⟩ : Segment α).entries.map .entry := by
  rw [Segment.entries, filterMap_entries]

/-- A truncation of a log without parts of entries brings in nothing. -/
theorem Log.Untorn.cutTo (h : l.Untorn) (fmt : Format α) {n : ℕ} {cut : Log α}
    (hcut : l.cutTo fmt n = some cut) : cut.Untorn ∧ ∀ x ∈ cut.contents, x ∈ l.contents := by
  obtain ⟨holder, htail⟩ := untorn_iff.mp h
  unfold Log.cutTo at hcut
  split at hcut
  · obtain rfl := Option.some.inj hcut
    refine ⟨untorn_iff.mpr ⟨by simp, untorn_rewritten _ _ _⟩, fun x hx => ?_⟩
    rcases mem_contents.mp hx with ⟨s, hs, -⟩ | hx
    · simp at hs
    · have hdrop := mem_rewritten (fun _ => id) hx
      exact mem_contents.mpr (.inr (mem_segment.mpr (.inl (List.mem_of_mem_drop hdrop))))
  · split at hcut
    · simp at hcut
    · rename_i s rest hfind
      obtain ⟨hs, hrest⟩ := mem_findSegment hfind
      obtain ⟨es, hes, rfl⟩ := Option.map_eq_some_iff.mp hcut
      have hevict : Evicted (rest.map Segment.evict) l.older := by
        intro a ha
        obtain ⟨a₀, ha₀, rfl⟩ := List.mem_map.mp ha
        exact ⟨a₀, hrest a₀ ha₀, .inr rfl⟩
      refine ⟨untorn_iff.mpr ⟨?_, htail⟩, fun x hx => mem_contents.mpr ?_⟩
      · intro a ha
        rcases List.mem_cons.mp ha with rfl | ha
        · exact untorn_rewritten _ _ _
        · exact hevict.untorn holder a ha
      · rcases mem_contents.mp hx with ⟨a, ha, hx⟩ | hx
        · rcases List.mem_cons.mp ha with rfl | ha
          · have hdrop := mem_rewritten (by simp) hx
            exact .inl ⟨s, hs, Segment.mem_load (holder s hs) fmt hes (List.mem_of_mem_drop hdrop)⟩
          · exact .inl (hevict.mem ha hx)
        · exact .inr hx

theorem Log.Untorn.truncateFront (h : l.Untorn) (fmt : Format α) (n : ℕ)
    (fault : TruncateFault) : (l.truncateFront fmt n fault).2.Untorn ∧
      ∀ x ∈ (l.truncateFront fmt n fault).2.contents, x ∈ l.contents := by
  have hsame : l.Untorn ∧ ∀ x ∈ l.contents, x ∈ l.contents := ⟨h, fun _ => id⟩
  unfold Log.truncateFront
  split
  · exact hsame
  · split
    · exact hsame
    · split
      · exact hsame
      · split
        · exact hsame
        · rename_i cut hcut
          cases fault with
          | none => exact h.cutTo fmt hcut
          | start => exact hsame
          | cleanup =>
            obtain ⟨huntorn, hmem⟩ := h.cutTo fmt hcut
            exact ⟨huntorn, hmem⟩

theorem Log.Untorn.mem_read (h : l.Untorn) {fmt : Format α} {i : ℕ} {bad : Bool} {data : α}
    (hread : l.read fmt i bad = .ok data) : data ∈ l.contents := by
  have hload : ∀ {start : ℕ} {es : List α}, l.loadSegment fmt i = some (start, es) →
      ∀ x ∈ es, x ∈ l.contents := by
    intro start es hes x hx
    unfold Log.loadSegment at hes
    split at hes
    · obtain ⟨-, rfl⟩ := Prod.mk.inj (Option.some.inj hes)
      exact mem_contents.mpr (.inr (mem_segment.mpr (.inl hx)))
    · split at hes
      · simp at hes
      · rename_i s rest hfind
        obtain ⟨es', hes', heq⟩ := Option.map_eq_some_iff.mp hes
        obtain ⟨-, rfl⟩ := Prod.mk.inj heq
        have hs := (mem_findSegment hfind).1
        exact mem_contents.mpr
          (.inl ⟨s, hs, Segment.mem_load ((untorn_iff.mp h).1 s hs) fmt hes' hx⟩)
  unfold Log.read at hread
  split at hread
  · simp at hread
  · split at hread
    · simp at hread
    · split at hread
      · simp at hread
      · split at hread
        · simp at hread
        · rename_i start es hes
          split at hread
          · rename_i hget
            obtain rfl := Except.ok.inj hread
            exact hload hes _ (List.mem_of_getElem? hget)
          · simp at hread

theorem Log.Untorn.reopen (h : l.Untorn) (fmt : Format α) {opened : Log α}
    (hopen : l.reopen fmt = .ok opened) :
    opened.Untorn ∧ ∀ x ∈ opened.contents, x ∈ l.contents := by
  obtain ⟨holder, htail⟩ := untorn_iff.mp h
  have hload : fmt.load l.tail.file = some l.tail.entries := by
    have hload := fmt.load_entries l.tail.entries
    rwa [← htail] at hload
  simp only [Log.reopen, hload] at hopen
  split at hopen
  · simp at hopen
  · obtain rfl := Except.ok.inj hopen
    refine ⟨untorn_iff.mpr ⟨(evicted_map _).untorn holder, htail⟩, fun x hx => mem_contents.mpr ?_⟩
    rcases mem_contents.mp hx with ⟨a, ha, hx⟩ | hx
    · exact .inl ((evicted_map _).mem ha hx)
    · exact .inr (mem_segment.mpr (.inr ((mem_segment.mp hx).elim id id)))

/-- A crash brings in nothing, and leaves part of an entry only where it cuts into one. -/
theorem Log.Untorn.crash (h : l.Untorn) (kept part : ℕ) :
    (part = 0 → (l.crash kept part).Untorn) ∧
      ∀ x ∈ (l.crash kept part).contents, x ∈ l.contents := by
  obtain ⟨holder, htail⟩ := untorn_iff.mp h
  have hentries := entries_tail_crash l kept part
  refine ⟨?_, fun x hx => mem_contents.mpr ?_⟩
  · rintro rfl
    refine untorn_iff.mpr ⟨(evicted_map _).untorn holder, ?_⟩
    rw [hentries, htail, ← List.map_take, filterMap_entries]
    simp only [Log.crash, if_true, Option.map_none, Option.toList_none, List.append_nil]
    rw [htail, List.map_take]
  · rcases mem_contents.mp hx with ⟨a, ha, hx⟩ | hx
    · exact .inl ((evicted_map _).mem ha hx)
    · have hmem : x ∈ (l.crash kept part).tail.entries := (mem_segment.mp hx).elim id id
      rw [hentries] at hmem
      obtain ⟨p, hp, hpx⟩ := List.mem_filterMap.mp hmem
      exact .inr (mem_segment.mpr (.inr (List.mem_filterMap.mpr ⟨p, List.mem_of_mem_take hp, hpx⟩)))

theorem Log.InOrder.untorn (h : l.InOrder) : l.Untorn := by
  have hnum : ∀ {n m : ℕ} {ss : List (Segment α)}, Numbered n ss m →
      ∀ s ∈ ss, s.file = s.entries.map .entry := by
    intro n m ss hss
    induction ss generalizing n with
    | nil => simp
    | cons a rest ih =>
      intro s hs
      rcases List.mem_cons.mp hs with rfl | hs
      · exact hss.2.1.file
      · exact ih hss.2.2 s hs
  exact untorn_iff.mpr ⟨hnum h.older, (whole_of_entries h.tail).1.file⟩

/-- In a log in order the buffers hold nothing that the files do not. -/
theorem Log.InOrder.mem_entries (h : l.InOrder) {x : α} (hx : x ∈ l.contents) : x ∈ l.entries := by
  have hnum : ∀ {n m : ℕ} {ss : List (Segment α)}, Numbered n ss m →
      ∀ s ∈ ss, x ∈ s.contents → x ∈ s.entries := by
    intro n m ss hss
    induction ss generalizing n with
    | nil => simp
    | cons a rest ih =>
      intro s hs hm
      rcases List.mem_cons.mp hs with rfl | hs
      · rcases mem_segment.mp hm with hm | hm
        · rcases hss.2.1.ebuf with hnil | heq
          · simp [hnil] at hm
          · exact heq ▸ hm
        · exact hm
      · exact ih hss.2.2 s hs hm
  rw [entries_eq, List.mem_append]
  rcases mem_contents.mp hx with ⟨s, hs, hm⟩ | hm
  · exact .inl (List.mem_flatMap.mpr ⟨s, hs, hnum h.older s hs hm⟩)
  · right
    rcases mem_segment.mp hm with hm | hm
    · exact h.tail_entries ▸ hm
    · exact hm

end Statnive.SegmentedLog
