import Mathlib.Algebra.Order.Ring.Int
import Mathlib.Data.List.Basic
import Mathlib.Data.List.Infix

/-!
# Nested text

Each symbol of a text opens or closes some levels of nesting, and a separator cuts the text where
the levels before it cancel out. The parts join to the text again, and they are the only ones that
do.
-/

namespace Statnive.NestedText

variable {α : Type*} (w : α → ℤ)

/-- The levels that a text opens and does not close. -/
def depth : List α → ℤ
  | [] => 0
  | a :: s => w a + depth s

/-- A text closes what it opens, and nothing else. -/
structure Balanced (s : List α) : Prop where
  settled : depth w s = 0
  nonneg : ∀ p, p <+: s → 0 ≤ depth w p

instance (s : List α) : Decidable (Balanced w s) :=
  decidable_of_iff (depth w s = 0 ∧ ∀ p ∈ s.inits, 0 ≤ depth w p)
    ⟨fun h => ⟨h.1, fun p hp => h.2 p ((List.mem_inits p s).mpr hp)⟩,
      fun h => ⟨h.settled, fun p hp => h.nonneg p ((List.mem_inits p s).mp hp)⟩⟩

variable (sep : α)

/-- No separator stands at the lowest level. -/
def Uncut (s : List α) : Prop := ∀ before after, s = before ++ sep :: after → depth w before ≠ 0

/-- The parts of a text of which `part` and then `s` are left, at the depth `d`. -/
def cutFrom [DecidableEq α] : ℤ → List α → List α → List (List α)
  | _, part, [] => [part]
  | d, part, a :: s =>
    if a = sep ∧ d = 0 then part :: cutFrom d [] s else cutFrom (d + w a) (part ++ [a]) s

def cut [DecidableEq α] (s : List α) : List (List α) := cutFrom w sep 0 [] s

variable {w sep}

@[simp] theorem depth_nil : depth w [] = 0 := rfl

theorem depth_append (s t : List α) : depth w (s ++ t) = depth w s + depth w t := by
  induction s with
  | nil => simp [depth]
  | cons a s ih => rw [List.cons_append, depth, depth, ih, add_assoc]

theorem depth_snoc (s : List α) (a : α) : depth w (s ++ [a]) = depth w s + w a := by
  rw [depth_append, depth, depth, add_zero]

theorem depth_eq_zero {s : List α} (h : ∀ a ∈ s, w a = 0) : depth w s = 0 := by
  induction s with
  | nil => rfl
  | cons a s ih =>
    obtain ⟨ha, hs⟩ := List.forall_mem_cons.mp h
    rw [depth, ha, ih hs, add_zero]

theorem uncut_nil : Uncut w sep [] := by
  intro before after h
  simp at h

theorem Uncut.snoc {s : List α} {a : α} (h : Uncut w sep s) (ha : ¬ (a = sep ∧ depth w s = 0)) :
    Uncut w sep (s ++ [a]) := by
  intro before after hsplit
  obtain rfl | ⟨after, last, rfl⟩ := after.eq_nil_or_concat
  · obtain ⟨rfl, hlast⟩ := List.append_inj' hsplit rfl
    exact fun hzero => ha ⟨List.singleton_inj.mp hlast, hzero⟩
  · have hsplit' : s ++ [a] = (before ++ sep :: after) ++ [last] := by simpa using hsplit
    exact h before after (List.append_inj' hsplit' rfl).1

/-- A piece of a text without cuts is without cuts, if what is before it opens nothing. -/
theorem Uncut.piece {before s after : List α} (h : Uncut w sep (before ++ s ++ after))
    (hbefore : depth w before = 0) : Uncut w sep s := by
  rintro pre post rfl
  have hpiece := h (before ++ pre) (post ++ after) (by simp)
  rwa [depth_append, hbefore, zero_add] at hpiece

theorem Uncut.append {s t : List α} (h : Uncut w sep s) (ht : sep ∉ t) : Uncut w sep (s ++ t) := by
  intro before after hsplit
  obtain ⟨u, rfl, hu⟩ | ⟨u, rfl, hu⟩ := List.append_eq_append_iff.mp hsplit
  · exact absurd (hu ▸ by simp) ht
  · cases u with
    | nil =>
      rw [List.nil_append] at hu
      exact absurd (hu ▸ List.mem_cons_self) ht
    | cons a u =>
      obtain ⟨rfl, -⟩ := List.cons.inj hu
      exact h before u rfl

/-- A piece of a balanced text is balanced, if what is around it is. -/
theorem Balanced.piece {before s after : List α} (h : Balanced w (before ++ s ++ after))
    (hbefore : depth w before = 0) (hafter : depth w after = 0) : Balanced w s where
  settled := by
    have hall := h.settled
    rwa [depth_append, depth_append, hbefore, hafter, zero_add, add_zero] at hall
  nonneg p hp := by
    have hprefix : before ++ p <+: before ++ s ++ after :=
      ((List.prefix_append_right_inj before).mpr hp).trans (List.prefix_append _ after)
    have hnonneg := h.nonneg _ hprefix
    rwa [depth_append, hbefore, zero_add] at hnonneg

/-- What is around a part closes what it opens. -/
theorem exists_around {ps : List (List α)} (hsep : w sep = 0)
    (hdepth : ∀ p ∈ ps.dropLast, depth w p = 0) (hall : depth w ([sep].intercalate ps) = 0) :
    ∀ p ∈ ps, ∃ before after, [sep].intercalate ps = before ++ p ++ after ∧
      depth w before = 0 ∧ depth w after = 0 := by
  induction ps with
  | nil => simp
  | cons q ps ih =>
    cases ps with
    | nil =>
      intro p hp
      obtain rfl := List.mem_singleton.mp hp
      exact ⟨[], [], by simp [List.intercalate], depth_nil, depth_nil⟩
    | cons q' ps =>
      rw [List.dropLast_cons_cons] at hdepth
      obtain ⟨hzero, hrest⟩ := List.forall_mem_cons.mp hdepth
      rw [List.intercalate_cons_cons, depth_append, depth_append, hzero, depth, hsep, depth_nil,
        zero_add, zero_add, zero_add] at hall
      intro p hp
      rw [List.intercalate_cons_cons]
      obtain rfl | hp := List.mem_cons.mp hp
      · refine ⟨[], [sep] ++ [sep].intercalate (q' :: ps), by simp, depth_nil, ?_⟩
        rw [depth_append, hall, depth, hsep, depth_nil, add_zero, add_zero]
      · obtain ⟨before, after, hjoin, hbefore, hafter⟩ := ih hrest hall p hp
        refine ⟨q ++ [sep] ++ before, after, by simp [hjoin], ?_, hafter⟩
        rw [depth_append, depth_append, hzero, depth, hsep, hbefore, depth_nil]
        rfl

section Cut

variable [DecidableEq α]

theorem cutFrom_ne_nil (d : ℤ) (part s : List α) : cutFrom w sep d part s ≠ [] := by
  induction s generalizing d part with
  | nil => simp [cutFrom]
  | cons a s ih =>
    rw [cutFrom]
    split_ifs
    · simp
    · exact ih _ _

private theorem join_cutFrom (d : ℤ) (part s : List α) :
    [sep].intercalate (cutFrom w sep d part s) = part ++ s := by
  induction s generalizing d part with
  | nil => simp [cutFrom, List.intercalate]
  | cons a s ih =>
    rw [cutFrom]
    split_ifs with ha
    · obtain ⟨rfl, -⟩ := ha
      obtain ⟨q, qs, hq⟩ :=
        List.exists_cons_of_ne_nil (cutFrom_ne_nil d [] s : cutFrom w a d [] s ≠ [])
      have hrest := ih d []
      rw [hq] at hrest ⊢
      rw [List.intercalate_cons_cons, hrest]
      simp
    · rw [ih, List.append_assoc, List.singleton_append]

private theorem uncut_cutFrom
    {d : ℤ} {part : List α} (hd : depth w part = d) (hpart : Uncut w sep part)
    (s : List α) : ∀ p ∈ cutFrom w sep d part s, Uncut w sep p := by
  induction s generalizing d part with
  | nil => simpa [cutFrom] using hpart
  | cons a s ih =>
    rw [cutFrom]
    split_ifs with ha
    · exact List.forall_mem_cons.mpr ⟨hpart, ih ha.2.symm uncut_nil⟩
    · exact ih (by rw [depth_snoc, hd]) (hpart.snoc (hd ▸ ha))

/-- What is cut off closes what it opens. -/
theorem depth_cutFrom {d : ℤ} {part : List α} (hd : depth w part = d) (s : List α) :
    ∀ p ∈ (cutFrom w sep d part s).dropLast, depth w p = 0 := by
  induction s generalizing d part with
  | nil => simp [cutFrom]
  | cons a s ih =>
    rw [cutFrom]
    split_ifs with ha
    · rw [List.dropLast_cons_of_ne_nil (cutFrom_ne_nil d [] s)]
      exact List.forall_mem_cons.mpr ⟨hd.trans ha.2, ih ha.2.symm⟩
    · exact ih (by rw [depth_snoc, hd])

theorem cut_ne_nil (s : List α) : cut w sep s ≠ [] := cutFrom_ne_nil 0 [] s

theorem join_cut (s : List α) : [sep].intercalate (cut w sep s) = s := join_cutFrom 0 [] s

theorem uncut_cut (s : List α) : ∀ p ∈ cut w sep s, Uncut w sep p :=
  uncut_cutFrom depth_nil uncut_nil s

theorem depth_cut (s : List α) : ∀ p ∈ (cut w sep s).dropLast, depth w p = 0 :=
  depth_cutFrom depth_nil s

/-- A symbol that is no cut goes to the part. -/
theorem cutFrom_append {d : ℤ} {part q : List α} (hd : depth w part = d)
    (huncut : Uncut w sep (part ++ q)) (s : List α) :
    cutFrom w sep d part (q ++ s) = cutFrom w sep (d + depth w q) (part ++ q) s := by
  induction q generalizing d part with
  | nil => simp [depth]
  | cons a q ih =>
    have ha : ¬ (a = sep ∧ d = 0) := by
      rintro ⟨rfl, hzero⟩
      exact huncut part q rfl (hd.trans hzero)
    rw [List.cons_append, cutFrom, if_neg ha, ih (by rw [depth_snoc, hd]) (by simpa using huncut),
      List.append_assoc, List.singleton_append, depth, add_assoc]

/-- The parts of a text are the only ones that join to it. -/
theorem cut_join {ps : List (List α)} (hne : ps ≠ []) (huncut : ∀ p ∈ ps, Uncut w sep p)
    (hdepth : ∀ p ∈ ps.dropLast, depth w p = 0) : cut w sep ([sep].intercalate ps) = ps := by
  induction ps with
  | nil => exact absurd rfl hne
  | cons p ps ih =>
    obtain ⟨hp, hps⟩ := List.forall_mem_cons.mp huncut
    cases ps with
    | nil =>
      have hcut := cutFrom_append (depth_nil : depth w [] = 0) hp []
      simpa [cut, cutFrom, List.intercalate] using hcut
    | cons q ps =>
      rw [List.dropLast_cons_cons] at hdepth
      obtain ⟨hzero, hrest⟩ := List.forall_mem_cons.mp hdepth
      rw [List.intercalate_cons_cons, cut, List.append_assoc,
        cutFrom_append (depth_nil : depth w [] = 0) hp, List.singleton_append, hzero, add_zero,
        cutFrom, if_pos ⟨rfl, rfl⟩, List.nil_append]
      exact congrArg (p :: ·) (ih (by simp) hps hrest)

theorem balanced_cut (hsep : w sep = 0) {s : List α} (h : Balanced w s) :
    ∀ p ∈ cut w sep s, Balanced w p := by
  intro p hp
  have hall : depth w ([sep].intercalate (cut w sep s)) = 0 := by rw [join_cut, h.settled]
  obtain ⟨before, after, hjoin, hbefore, hafter⟩ := exists_around hsep (depth_cut s) hall p hp
  rw [join_cut] at hjoin
  exact Balanced.piece (hjoin ▸ h) hbefore hafter

end Cut

end Statnive.NestedText
