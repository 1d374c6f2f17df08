import Statnive.SegmentedLog

/-!
# A log in order

As long as no write of an entry fails, the segments hold whole entries that are numbered without
a gap, in their buffers as in their files. Every operation keeps this order, and on a log in
order it is the operation on the list of its entries.
-/

namespace Statnive.SegmentedLog

variable {α : Type}

/-- The file holds whole entries, and the buffer the same ones if any. -/
structure Segment.Whole (s : Segment α) : Prop where
  file : s.file = s.entries.map .entry
  ebuf : s.ebuf = [] ∨ s.ebuf = s.entries

/-- Whole segments numbered without a gap, from index `n` up to index `m`. -/
def Numbered : ℕ → List (Segment α) → ℕ → Prop
  | n, [], m => n = m
  | n, s :: rest, m => s.index = n ∧ s.Whole ∧ Numbered (n + s.entries.length) rest m

/-- Every entry is where its index says, in the buffers and in the files. -/
structure Log.InOrder (l : Log α) : Prop where
  first_pos : 0 < l.first
  older : Numbered l.first l.older l.tail.index
  tail : l.tail.file = l.tail.ebuf.map .entry
  last : l.last + 1 = l.tail.index + l.tail.ebuf.length

theorem Segment.Whole.evict {s : Segment α} (h : s.Whole) : s.evict.Whole := ⟨h.file, .inl rfl⟩

theorem Segment.Whole.load {s : Segment α} (h : s.Whole) (fmt : Format α) :
    s.load fmt = some s.entries := by
  unfold Segment.load
  split
  · rw [h.file]
    exact fmt.load_entries _
  · rw [h.ebuf.resolve_left ‹_›]

theorem whole_of_entries {s : Segment α} (h : s.file = s.ebuf.map .entry) :
    s.Whole ∧ s.entries = s.ebuf := by
  have hentries : s.entries = s.ebuf := by rw [Segment.entries, h, filterMap_entries]
  exact ⟨⟨hentries.symm ▸ h, .inr hentries.symm⟩, hentries⟩

theorem Numbered.evict {n m : ℕ} {ss : List (Segment α)} (h : Numbered n ss m) :
    Numbered n (ss.map Segment.evict) m := by
  induction ss generalizing n with
  | nil => exact h
  | cons s rest ih =>
    obtain ⟨hindex, hwhole, hrest⟩ := h
    exact ⟨hindex, hwhole.evict, ih hrest⟩

theorem Numbered.pushCache {n m : ℕ} {ss : List (Segment α)} (h : Numbered n ss m) :
    Numbered n (pushCache ss) m := by
  induction ss generalizing n with
  | nil => exact h
  | cons s rest ih =>
    obtain ⟨hindex, hwhole, hrest⟩ := h
    rw [SegmentedLog.pushCache]
    split
    · exact ⟨hindex, hwhole, ih hrest⟩
    · exact ⟨hindex, hwhole.evict, ih hrest⟩

theorem Numbered.snoc {n m : ℕ} {ss : List (Segment α)} {s : Segment α} (h : Numbered n ss m)
    (hindex : s.index = m) (hwhole : s.Whole) :
    Numbered n (ss ++ [s]) (m + s.entries.length) := by
  induction ss generalizing n with
  | nil =>
    obtain rfl : n = m := h
    exact ⟨hindex, hwhole, rfl⟩
  | cons a rest ih => exact ⟨h.1, h.2.1, ih h.2.2⟩

theorem Numbered.length {n m : ℕ} {ss : List (Segment α)} (h : Numbered n ss m) :
    n + (ss.flatMap Segment.entries).length = m := by
  induction ss generalizing n with
  | nil => exact h
  | cons s rest ih =>
    have hrest := ih h.2.2
    rw [List.flatMap_cons, List.length_append]
    omega

theorem Numbered.le_index {n m : ℕ} {ss : List (Segment α)} (h : Numbered n ss m)
    {s : Segment α} (hs : s ∈ ss) : n ≤ s.index := by
  induction ss generalizing n with
  | nil => simp at hs
  | cons a rest ih =>
    rcases List.mem_cons.mp hs with rfl | hs
    · exact Nat.le_of_eq h.1.symm
    · have hle := ih h.2.2 hs
      omega

private theorem findSegment_none {i : ℕ} {ss : List (Segment α)} (h : ∀ s ∈ ss, i < s.index) :
    findSegment i ss = none := by
  induction ss with
  | nil => rfl
  | cons s rest ih =>
    have hlt := h s List.mem_cons_self
    rw [findSegment, ih fun s hs => h s (List.mem_cons_of_mem _ hs)]
    exact if_neg (by omega)

/-- The segment of an index that the numbers reach has the entry, and what follows it is in
its order. -/
theorem Numbered.findSegment {n m i : ℕ} {ss : List (Segment α)} (h : Numbered n ss m)
    (hn : n ≤ i) (hm : i < m) : ∃ s rest, findSegment i ss = some (s, rest) ∧ s.Whole ∧
      s.index ≤ i ∧ i < s.index + s.entries.length ∧
      Numbered (s.index + s.entries.length) rest m ∧
      (ss.flatMap Segment.entries).drop (i - n) =
        s.entries.drop (i - s.index) ++ rest.flatMap Segment.entries := by
  induction ss generalizing n with
  | nil =>
    obtain rfl : n = m := h
    omega
  | cons s rest ih =>
    obtain ⟨rfl, hwhole, hrest⟩ := h
    by_cases hi : i < s.index + s.entries.length
    · have hnone : SegmentedLog.findSegment i rest = none :=
        findSegment_none fun a ha => Nat.lt_of_lt_of_le hi (hrest.le_index ha)
      refine ⟨s, rest, ?_, hwhole, hn, hi, hrest, ?_⟩
      · rw [SegmentedLog.findSegment, hnone]
        exact if_pos hn
      · rw [List.flatMap_cons, List.drop_append_of_le_length (by omega)]
    · obtain ⟨a, behind, hfind, ha, hle, hlt, hbehind, hdrop⟩ := ih hrest (by omega)
      refine ⟨a, behind, ?_, ha, hle, hlt, hbehind, ?_⟩
      · rw [SegmentedLog.findSegment, hfind]
      · have hskip : i - s.index = s.entries.length + (i - (s.index + s.entries.length)) := by
          omega
        rw [List.flatMap_cons, hskip, List.drop_length_add_append, hdrop]

variable {l : Log α}

theorem Log.InOrder.tail_entries (h : l.InOrder) : l.tail.entries = l.tail.ebuf :=
  (whole_of_entries h.tail).2

theorem Log.InOrder.last_add_one (h : l.InOrder) : l.last + 1 = l.first + l.entries.length := by
  have holder := h.older.length
  have hlast := h.last
  rw [entries_eq, List.length_append, h.tail_entries]
  omega

theorem Log.InOrder.first_le (h : l.InOrder) : l.first ≤ l.last + 1 := by
  have hlast := h.last_add_one
  omega

theorem Log.InOrder.cycle (h : l.InOrder) : l.cycle.InOrder := by
  obtain ⟨hwhole, hentries⟩ := whole_of_entries h.tail
  have hlast := h.last
  refine ⟨by rw [first_cycle]; exact h.first_pos, ?_, rfl, rfl⟩
  have hnum := (h.older.snoc rfl hwhole).pushCache
  rw [hentries, ← hlast] at hnum
  rw [first_cycle]
  exact hnum

/-- An entry that went through, before the cycle. -/
def Log.push (l : Log α) (data : α) : Log α :=
  { (l.buffer data).fill (.entry data) with last := l.last + 1 }

@[simp] theorem entries_push (l : Log α) (data : α) : (l.push data).entries = l.entries ++ [data] := by
  have hfill := entries_fill (l.buffer data) (.entry data)
  rw [entries_buffer] at hfill
  exact hfill

theorem Log.InOrder.push (h : l.InOrder) (data : α) : (l.push data).InOrder := by
  have hlast := h.last
  refine ⟨h.first_pos, h.older, ?_, ?_⟩
  · simp only [Log.push, Log.fill, Log.buffer, List.map_append, h.tail]
    rfl
  · simp only [Log.push, Log.fill, Log.buffer, List.length_append, List.length_singleton]
    omega

/-- The entry of the write gets into its file as a whole, or not at all. -/
def WriteEnv.Spared (env : WriteEnv) : Prop := ∀ bytes, env.fault ≠ .write bytes

instance (env : WriteEnv) : Decidable env.Spared :=
  match hfault : env.fault with
  | .write bytes => .isFalse fun h => h bytes hfault
  | .none | .roll | .cycle => .isTrue (by simp [WriteEnv.Spared, hfault])

/-- How a write ends. It is refused; or, after a cycle if need be, it falls short; or its entry
goes through, and the segment is cycled if need be. -/
inductive WriteEnd (l : Log α) (index : ℕ) (data : α) (env : WriteEnv) :
    Except LogError Unit × Log α → Prop
  | refused (e : LogError) : WriteEnd l index data env (.error e, l)
  | short (base : Log α) (hbase : base = l ∨ base = l.cycle) (bytes : ℕ)
      (hfault : env.fault = .write bytes) : WriteEnd l index data env (.error .io,
        if bytes = 0 then base.buffer data else (base.buffer data).fill (.torn data bytes))
  | through (base : Log α) (hbase : base = l ∨ base = l.cycle) (hindex : index = l.last + 1)
      (res : Except LogError Unit) (wrote : Log α)
      (hwrote : wrote = base.push data ∨ wrote = (base.push data).cycle) :
      WriteEnd l index data env (res, wrote)

theorem write_end (l : Log α) (index : ℕ) (data : α) (env : WriteEnv) :
    WriteEnd l index data env (l.write index data env) := by
  unfold Log.write
  split
  · exact .refused _
  · split
    · exact .refused _
    · rename_i hindex
      have hindex : index = l.last + 1 := Decidable.not_not.mp hindex
      split
      · exact .refused _
      · obtain ⟨base, hbase, hlast, heq⟩ : ∃ base : Log α, (base = l ∨ base = l.cycle) ∧
            base.last = l.last ∧ (if env.oversized then l.cycle else l) = base := by
          cases env.oversized with
          | false => exact ⟨l, .inl rfl, rfl, rfl⟩
          | true => exact ⟨l.cycle, .inr rfl, rfl, rfl⟩
        have hpush : { (base.buffer data).fill (.entry data) with last := index } =
            base.push data := by rw [hindex, ← hlast]; rfl
        dsimp only
        rw [heq]
        split
        · exact .short base hbase _ ‹_›
        · rw [hpush]
          split
          · exact .through base hbase hindex _ _ (.inl rfl)
          · split
            · exact .through base hbase hindex _ _ (.inl rfl)
            · exact .through base hbase hindex _ _ (.inr rfl)

section

variable {index : ℕ} {data : α} {env : WriteEnv} {r : Except LogError Unit × Log α}

theorem first_base {base : Log α} (h : base = l ∨ base = l.cycle) : base.first = l.first := by
  rcases h with rfl | rfl
  · rfl
  · exact first_cycle l

theorem entries_base {base : Log α} (h : base = l ∨ base = l.cycle) :
    base.entries = l.entries := by
  rcases h with rfl | rfl
  · rfl
  · exact entries_cycle l

theorem last_base {base : Log α} (h : base = l ∨ base = l.cycle) :
    base.last = l.last := by
  rcases h with rfl | rfl
  · rfl
  · rfl

theorem WriteEnd.first (h : WriteEnd l index data env r) : r.2.first = l.first := by
  cases h with
  | refused => rfl
  | short base hbase bytes =>
    rw [← first_base hbase]
    split <;> rfl
  | through base hbase _ res wrote hwrote =>
    rw [← first_base hbase, first_base hwrote]
    rfl

/-- A write adds its entry to the files, or none. -/
theorem WriteEnd.entries (h : WriteEnd l index data env r) :
    r.2.entries = l.entries ∨ r.2.entries = l.entries ++ [data] := by
  cases h with
  | refused => exact .inl rfl
  | short base hbase bytes =>
    left
    split
    · rw [entries_buffer, entries_base hbase]
    · rw [entries_fill, entries_buffer, entries_base hbase]
      exact List.append_nil _
  | through base hbase _ res wrote hwrote =>
    right
    rw [entries_base hwrote, entries_push, entries_base hbase]

theorem WriteEnd.inOrder (h : WriteEnd l index data env r) (hl : l.InOrder) (henv : env.Spared) :
    r.2.InOrder := by
  cases h with
  | refused => exact hl
  | short base hbase bytes hfault => exact absurd hfault (henv bytes)
  | through base hbase _ res wrote hwrote =>
    have horder : base.InOrder := by
      rcases hbase with rfl | rfl
      · exact hl
      · exact hl.cycle
    rcases hwrote with rfl | rfl
    · exact horder.push data
    · exact (horder.push data).cycle

/-- A write that returns nil was at the next index, and its entry went through. -/
theorem WriteEnd.ok (h : WriteEnd l index data env r) (hr : r.1 = .ok ()) :
    index = l.last + 1 ∧ r.2.last = index ∧ r.2.entries = l.entries ++ [data] := by
  cases h with
  | refused e => simp at hr
  | short base hbase bytes => simp at hr
  | through base hbase hindex res wrote hwrote =>
    refine ⟨hindex, ?_, ?_⟩
    · rw [last_base hwrote, hindex, ← last_base hbase]
      rfl
    · rw [entries_base hwrote, entries_push, entries_base hbase]

end

/-- What is from an index on. -/
theorem Log.InOrder.cutTo (h : l.InOrder) (fmt : Format α) {n : ℕ} (hfirst : l.first ≤ n)
    (hlast : n ≤ l.last) : ∃ cut, l.cutTo fmt n = some cut ∧ cut.InOrder ∧ cut.first = n ∧
      cut.last = l.last ∧ cut.entries = l.entries.drop (n - l.first) := by
  have hlength := h.older.length
  have htail := h.last
  have hpos : 0 < n := Nat.lt_of_lt_of_le h.first_pos hfirst
  unfold Log.cutTo
  split
  · refine ⟨_, rfl, ⟨hpos, rfl, rfl, ?_⟩, rfl, rfl, ?_⟩
    · simp only [List.length_drop]
      omega
    · have hskip : n - l.first =
          (l.older.flatMap Segment.entries).length + (n - l.tail.index) := by omega
      rw [entries_eq l, h.tail_entries, hskip, List.drop_length_add_append]
      exact (entries_eq _).trans (filterMap_entries _)
  · obtain ⟨s, rest, hfind, hwhole, hle, hlt, hrest, hdrop⟩ :=
      h.older.findSegment hfirst (by omega)
    simp only [hfind, hwhole.load, Option.map_some]
    have hcount : n + (s.entries.drop (n - s.index)).length = s.index + s.entries.length := by
      rw [List.length_drop]
      omega
    have hcut : (⟨n, [], (s.entries.drop (n - s.index)).map .entry⟩ : Segment α).entries =
        s.entries.drop (n - s.index) := filterMap_entries _
    refine ⟨_, rfl, ⟨hpos, ⟨rfl, ⟨?_, .inl rfl⟩, ?_⟩, h.tail, h.last⟩, rfl, rfl, ?_⟩
    · rw [hcut]
    · rw [hcut]
      exact hcount ▸ hrest.evict
    · rw [entries_eq, entries_eq l, List.flatMap_cons, hcut, flatMap_evict,
        List.drop_append_of_le_length (by omega), hdrop]

/-- A truncation leaves the log as it is, or cuts off what is below the index. -/
theorem Log.InOrder.truncateFront (h : l.InOrder) (fmt : Format α) (n : ℕ)
    (fault : TruncateFault) : (l.truncateFront fmt n fault).2 = l ∨
      l.first ≤ n ∧ n ≤ l.last ∧ (l.truncateFront fmt n fault).2.InOrder ∧
        (l.truncateFront fmt n fault).2.first = n ∧
        (l.truncateFront fmt n fault).2.last = l.last ∧
        (l.truncateFront fmt n fault).2.entries = l.entries.drop (n - l.first) := by
  unfold Log.truncateFront
  split
  · exact .inl rfl
  · split
    · exact .inl rfl
    · split
      · exact .inl rfl
      · rename_i hrange _
        obtain ⟨cut, hcut, horder, hspec⟩ := h.cutTo fmt (n := n) (by omega) (by omega)
        rw [hcut]
        cases fault with
        | none => exact .inr ⟨by omega, by omega, horder, hspec⟩
        | start => exact .inl rfl
        | cleanup =>
          obtain ⟨hpos, holder, htail, hlast⟩ := horder
          exact .inr ⟨by omega, by omega, ⟨hpos, holder, htail, hlast⟩, hspec⟩

theorem Log.InOrder.truncated (h : l.InOrder) (fmt : Format α) (n : ℕ) (fault : TruncateFault) :
    (l.truncateFront fmt n fault).2.InOrder := by
  rcases h.truncateFront fmt n fault with hsame | ⟨-, -, horder, -⟩
  · exact hsame.symm ▸ h
  · exact horder

theorem Log.InOrder.firstIndex (h : l.InOrder) (hc : l.corrupt = false) (hne : l.entries ≠ []) :
    l.firstIndex = .ok l.first := by
  have hlast := h.last_add_one
  have hpos := h.first_pos
  have hlen := List.length_pos_iff.mpr hne
  have hzero : l.last ≠ 0 := by omega
  simp [Log.firstIndex, hc, hzero]

theorem lastIndex_eq (hc : l.corrupt = false) : l.lastIndex = .ok l.last := by
  simp [Log.lastIndex, hc]

theorem Log.InOrder.first_le_last (h : l.InOrder) (hne : l.entries ≠ []) :
    l.first ≤ l.last := by
  have hlast := h.last_add_one
  have hlen := List.length_pos_iff.mpr hne
  omega

/-- An entry in range reads as itself while its segment loads. -/
theorem Log.InOrder.read (h : l.InOrder) (fmt : Format α) (hc : l.corrupt = false) {k : ℕ}
    {data : α} (hk : l.entries[k]? = some data) (bad : Bool) :
    l.read fmt (l.first + k) bad = if bad then .error .corrupt else .ok data := by
  have hlt : k < l.entries.length := (List.getElem?_eq_some_iff.mp hk).1
  have hlast := h.last_add_one
  have hrange : ¬ (l.first + k < l.first ∨ l.last < l.first + k) := by omega
  have hload : ∃ start es, l.loadSegment fmt (l.first + k) = some (start, es) ∧
      es[l.first + k - start]? = some data := by
    have holder := h.older.length
    unfold Log.loadSegment
    split
    · refine ⟨_, _, rfl, ?_⟩
      rw [entries_eq, h.tail_entries, List.getElem?_append_right (by omega)] at hk
      rwa [show l.first + k - l.tail.index =
        k - (l.older.flatMap Segment.entries).length by omega]
    · obtain ⟨s, rest, hfind, hwhole, hle, hltS, -, hdrop⟩ :=
        h.older.findSegment (i := l.first + k) (by omega) (by omega)
      simp only [hfind, hwhole.load, Option.map_some]
      refine ⟨_, _, rfl, ?_⟩
      rw [entries_eq, List.getElem?_append_left (by omega)] at hk
      have hhead := congrArg (fun es => es[0]?) hdrop
      simp only [Nat.add_sub_cancel_left, List.getElem?_drop, Nat.add_zero] at hhead
      rw [List.getElem?_append_left (by rw [List.length_drop]; omega), List.getElem?_drop] at hhead
      rw [← hk, hhead, Nat.add_zero]
  obtain ⟨start, es, hseg, hget⟩ := hload
  simp only [Log.read, hc, Bool.false_eq_true, if_false, hrange, hseg, hget]

/-- `Open` finds a log in order as it was, unless all entries of a truncated log are lost. -/
theorem Log.InOrder.reopen (h : l.InOrder) (fmt : Format α) (hne : l.entries ≠ [] ∨ l.first = 1) :
    ∃ opened, l.reopen fmt = .ok opened ∧ opened.InOrder ∧ opened.corrupt = false ∧
      opened.first = l.first ∧ opened.last = l.last ∧ opened.entries = l.entries := by
  have hlast := h.last
  have hfirst := h.last_add_one
  have hload : fmt.load l.tail.file = some l.tail.ebuf := h.tail ▸ fmt.load_entries _
  have hindex : l.tail.index + l.tail.ebuf.length - 1 = l.last := by omega
  have hrange : ¬ (0 < l.last ∧ l.last < l.first) := by
    rcases hne with hne | hone
    · have hlen := List.length_pos_iff.mpr hne
      omega
    · omega
  simp only [Log.reopen, hload, hindex, if_neg hrange]
  have hhead : ∀ ss : List (Segment α), (⟨ss.map Segment.evict, l.tail, l.last, false⟩ :
      Log α).first = (⟨ss, l.tail, l.last, false⟩ : Log α).first := by
    intro ss
    cases ss <;> rfl
  refine ⟨_, rfl, ⟨?_, ?_, h.tail, hlast⟩, rfl, hhead l.older, rfl, ?_⟩
  · exact (hhead l.older).symm ▸ h.first_pos
  · exact (hhead l.older).symm ▸ h.older.evict
  · rw [entries_eq, entries_eq l, flatMap_evict]

/-- Unless it has been truncated, the entry at `index` is `data`. -/
def Log.Holds (l : Log α) (index : ℕ) (data : α) : Prop :=
  l.first ≤ index → l.entries[index - l.first]? = some data

theorem Log.Holds.append {l' : Log α} {index : ℕ} {data : α} (h : l.Holds index data)
    (hfirst : l'.first = l.first) {es : List α} (hentries : l'.entries = l.entries ++ es) :
    l'.Holds index data := by
  intro hle
  rw [hfirst] at hle ⊢
  have hget := h hle
  have hlt : index - l.first < l.entries.length := (List.getElem?_eq_some_iff.mp hget).1
  rw [hentries, List.getElem?_append_left hlt]
  exact hget

theorem Log.Holds.write {index : ℕ} {data : α} (h : l.Holds index data) {i : ℕ} {x : α}
    {env : WriteEnv} {r : Except LogError Unit × Log α} (hend : WriteEnd l i x env r) :
    r.2.Holds index data := by
  rcases hend.entries with hsame | hnew
  · exact h.append hend.first (hsame.trans (List.append_nil _).symm)
  · exact h.append hend.first hnew

/-- What a write at the next index brings in. -/
theorem Log.InOrder.holds_last (h : l.InOrder) {l' : Log α} {data : α}
    (hfirst : l'.first = l.first) (hentries : l'.entries = l.entries ++ [data]) :
    l'.Holds (l.last + 1) data := by
  have hlast := h.last_add_one
  have hindex : l.last + 1 - l.first = l.entries.length := by omega
  intro _
  rw [hfirst, hentries, hindex, List.getElem?_append_right (Nat.le_refl _), Nat.sub_self]
  rfl

theorem Log.Holds.truncateFront {index : ℕ} {data : α} (h : l.Holds index data) (hl : l.InOrder)
    (fmt : Format α) (n : ℕ) (fault : TruncateFault) :
    (l.truncateFront fmt n fault).2.Holds index data := by
  rcases hl.truncateFront fmt n fault with hsame | ⟨hle, -, -, hfirst, -, hentries⟩
  · rw [hsame]
    exact h
  · intro hindex
    rw [hfirst] at hindex ⊢
    rw [hentries, List.getElem?_drop, show n - l.first + (index - n) = index - l.first by omega]
    exact h (Nat.le_trans hle hindex)

theorem Log.Holds.le_last {index : ℕ} {data : α} (h : l.Holds index data) (hl : l.InOrder) :
    index ≤ l.last := by
  have hlast := hl.last_add_one
  have hpos := hl.first_pos
  by_cases hi : l.first ≤ index
  · have hlt := (List.getElem?_eq_some_iff.mp (h hi)).1
    omega
  · omega

/-- What is left of a piece when its end is lost. -/
def Piece.cut (part : ℕ) : Piece α → Piece α
  | .entry data => .torn data part
  | .torn data bytes => .torn data (min bytes part)

/-- The files, of the last one the first `kept` pieces and of the next one the first `part`
bytes; a segment is synced before the next one is begun. The memory of the process is lost. -/
def Log.crash (l : Log α) (kept part : ℕ) : Log α :=
  let next := if part = 0 then none else l.tail.file[kept]?
  let file := l.tail.file.take kept ++ (next.map (Piece.cut part)).toList
  let es := file.filterMap Piece.whole
  ⟨l.older.map Segment.evict, ⟨l.tail.index, es, file⟩, l.tail.index + es.length - 1, false⟩

theorem first_crash (l : Log α) (kept part : ℕ) : (l.crash kept part).first = l.first := by
  unfold Log.crash Log.first
  cases l.older <;> rfl

theorem entries_tail_crash (l : Log α) (kept part : ℕ) :
    (l.crash kept part).tail.entries = (l.tail.file.take kept).filterMap Piece.whole := by
  have hnone : ∀ p : Piece α, (p.cut part).whole = none := by
    intro p
    cases p <;> rfl
  simp only [Log.crash, Segment.entries, List.filterMap_append]
  cases (if part = 0 then none else l.tail.file[kept]?) with
  | none => simp
  | some p => simp [hnone p]

theorem Log.InOrder.first_le_tail (h : l.InOrder) : l.first ≤ l.tail.index := by
  have holder := h.older.length
  omega

theorem Log.InOrder.crash (h : l.InOrder) (kept : ℕ) : (l.crash kept 0).InOrder := by
  have hpos := h.first_pos
  have hle := h.first_le_tail
  have htake : l.tail.file.take kept = (l.tail.ebuf.take kept).map .entry := by
    rw [h.tail, List.map_take]
  refine ⟨?_, ?_, ?_, ?_⟩
  · rw [first_crash]
    exact hpos
  · rw [first_crash]
    exact h.older.evict
  · simp only [Log.crash, if_true, Option.map_none, Option.toList_none, List.append_nil, htake,
      filterMap_entries]
  · simp only [Log.crash]
    omega

private theorem entries_crash (h : l.InOrder) (kept : ℕ) : (l.crash kept 0).entries =
    l.older.flatMap Segment.entries ++ l.tail.ebuf.take kept := by
  have hentries := entries_tail_crash l kept 0
  rw [h.tail, ← List.map_take, filterMap_entries] at hentries
  rw [entries_eq, hentries]
  simp only [Log.crash, flatMap_evict]

/-- Of the last segment the crash left what is below `index`. -/
theorem Log.Holds.crash {index kept : ℕ} {data : α} (h : l.Holds index data) (hl : l.InOrder)
    (hkept : index < l.tail.index + kept) : (l.crash kept 0).Holds index data := by
  have holder := hl.older.length
  intro hle
  rw [first_crash] at hle ⊢
  have hget := h hle
  rw [entries_eq, hl.tail_entries] at hget
  rw [entries_crash hl]
  by_cases hi : index < l.tail.index
  · rw [List.getElem?_append_left (by omega)] at hget ⊢
    exact hget
  · rw [List.getElem?_append_right (by omega)] at hget ⊢
    rwa [List.getElem?_take_of_lt (by omega)]

/-- A directory in which no write fell short: the number of the first entry and the entries of
each file. -/
structure Files (α : Type) where
  first : ℕ
  first_pos : 0 < first
  older : List (List α)
  tail : List α

def Files.new : Files α := ⟨1, Nat.one_pos, [], []⟩

def Files.entries (f : Files α) : List α := f.older.flatten ++ f.tail

def numberFrom : ℕ → List (List α) → List (Segment α)
  | _, [] => []
  | n, es :: rest => ⟨n, [], es.map .entry⟩ :: numberFrom (n + es.length) rest

def Files.log (f : Files α) : Log α :=
  let index := f.first + f.older.flatten.length
  ⟨numberFrom f.first f.older, ⟨index, f.tail, f.tail.map .entry⟩, index + f.tail.length - 1, false⟩

theorem numberFrom_spec (n : ℕ) (older : List (List α)) :
    Numbered n (numberFrom n older) (n + older.flatten.length) ∧
      (numberFrom n older).flatMap Segment.entries = older.flatten := by
  induction older generalizing n with
  | nil => exact ⟨rfl, rfl⟩
  | cons es rest ih =>
    obtain ⟨hnum, hentries⟩ := ih (n + es.length)
    have hes : (⟨n, [], es.map .entry⟩ : Segment α).entries = es := filterMap_entries es
    rw [List.flatten_cons, List.length_append, ← Nat.add_assoc]
    refine ⟨⟨rfl, ⟨by rw [hes], .inl rfl⟩, ?_⟩, ?_⟩
    · rw [hes]
      exact hnum
    · rw [numberFrom, List.flatMap_cons, hes, hentries]

theorem Files.first_log (f : Files α) : f.log.first = f.first := by
  unfold Files.log Log.first
  cases h : f.older with
  | nil => rfl
  | cons es rest => rfl

theorem Files.inOrder (f : Files α) : f.log.InOrder := by
  have hpos := f.first_pos
  refine ⟨?_, ?_, rfl, ?_⟩
  · rw [f.first_log]
    exact hpos
  · rw [f.first_log]
    exact (numberFrom_spec f.first f.older).1
  · simp only [Files.log]
    omega

theorem Files.entries_log (f : Files α) : f.log.entries = f.entries := by
  rw [entries_eq, f.inOrder.tail_entries]
  exact congrArg (· ++ f.tail) (numberFrom_spec f.first f.older).2

theorem Log.inOrder_new : (Log.new : Log α).InOrder := Files.new.inOrder

end Statnive.SegmentedLog
