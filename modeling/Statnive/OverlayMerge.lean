import Statnive.YamlTrees
import Mathlib.Data.List.Forall2
import Mathlib.Logic.Function.Basic

/-!
# Merging the overlay of the API description

The nodes of a document refer to one another, and two documents may share nodes. A merge makes new
nodes for the mappings that it goes through and refers to the old ones for everything else.
-/

namespace Statnive.OverlayMerge

open YamlTrees

abbrev Ptr := ℕ

structure Cell extends Attrs where
  content : List Ptr := []
  deriving DecidableEq

/-- The node at each address. A new node is put at the end. -/
abbrev Heap := List Cell

/-- The loop that indexes the keys of the base, from position `i` of its content on. -/
def indexKeys (h : Heap) (idx : String → Option ℕ) : ℕ → List Ptr → Option (String → Option ℕ)
  | _, [] => some idx
  | i, [k] => do
    let key ← h[k]?
    return Function.update idx key.value (some i)
  | i, k :: _ :: ps => do
    let key ← h[k]?
    indexKeys h (Function.update idx key.value (some i)) (i + 2) ps

/-- The loop over the pairs of the overlay, where `out` is the node that is made. An index out of
range is a panic, which is `none`. -/
def overlayPairs (merge : Heap → Ptr → Ptr → Option (Heap × Ptr)) (idx : String → Option ℕ)
    (out : Ptr) : Heap → List Ptr → Option Heap
  | h, [] => some h
  | _, [_] => none
  | h, k :: v :: ps => do
    let key ← h[k]?
    match idx key.value with
    | some bi =>
      let o ← h[out]?
      let p ← o.content[bi + 1]?
      let (h, m) ← merge h p v
      overlayPairs merge idx out
        (h.modify out fun o => { o with content := o.content.set (bi + 1) m }) ps
    | none =>
      overlayPairs merge idx out
        (h.modify out fun o => { o with content := o.content ++ [k, v] }) ps

/-- `none` also where the nodes are nested deeper than `fuel`. -/
def mergeNode : ℕ → Heap → Ptr → Ptr → Option (Heap × Ptr)
  | 0, _, _, _ => none
  | fuel + 1, h, base, overlay => do
    let b ← h[base]?
    let o ← h[overlay]?
    if b.kind ≠ .mapping ∨ o.kind ≠ .mapping then
      return (h, overlay)
    let idx ← indexKeys h (fun _ => none) 0 b.content
    let out := h.length
    let made : Cell := { kind := .mapping, tag := b.tag, style := b.style, content := b.content }
    let h ← overlayPairs (mergeNode fuel) idx out (h ++ [made]) o.content
    return (h, out)

/-- What can be read at each address. -/
abbrev Memory := Ptr → Option Cell

def readable (h : Heap) : Memory := fun p => h[p]?

mutual

/-- The node at `p` and what it refers to make up a tree. -/
def Denotes (m : Memory) : Ptr → YamlTree → Prop
  | p, .node attrs content =>
    attrs.kind ≠ .mapping ∧
      ∃ c, m p = some c ∧ c.toAttrs = attrs ∧ Denotes.items m c.content content
  | p, .mapping style tag notes entries =>
    ∃ c, m p = some c ∧ c.toAttrs = { kind := .mapping, style, tag, notes } ∧
      Denotes.entries m c.content entries

def Denotes.items (m : Memory) : List Ptr → List YamlTree → Prop
  | [], [] => True
  | p :: ps, t :: ts => Denotes m p t ∧ Denotes.items m ps ts
  | _, _ => False

def Denotes.entries (m : Memory) : List Ptr → Entries → Prop
  | [], [] => True
  | k :: v :: ps, (key, value) :: es =>
    Denotes m k key ∧ Denotes m v value ∧ Denotes.entries m ps es
  | _, _ => False

end

/-- What is read in `m` is read in `m'` too. -/
def Memory.Below (m m' : Memory) : Prop := ∀ p c, m p = some c → m' p = some c

/-- The memory `m` of what there was in `h`, with what is new in `h'`. -/
def grown (m : Memory) (h h' : Heap) : Memory := fun p => if p < h.length then m p else h'[p]?

/-- The memory `m` of what there was before the node `out`, with what is new in `g` besides it. -/
def inner (m : Memory) (out : Ptr) (g : Heap) : Memory := fun p =>
  if p < out then m p else if p = out then none else g[p]?

variable {m m' : Memory} {h h' g g' : Heap} {p out : Ptr}

theorem lt_of_below (hm : m.Below (readable h)) {c : Cell} (hp : m p = some c) : p < h.length :=
  (List.getElem?_eq_some_iff.mp (hm p c hp)).choose

theorem getElem?_of_prefix (hpre : h <+: h') {c : Cell} (hp : h[p]? = some c) :
    h'[p]? = some c := by
  obtain ⟨t, rfl⟩ := hpre
  rw [List.getElem?_append_left (List.getElem?_eq_some_iff.mp hp).choose, hp]

private theorem below_grown (hm : m.Below (readable h)) : m.Below (grown m h h') := fun p c hp => by
  rw [grown, if_pos (lt_of_below hm hp), hp]

theorem grown_below (hm : m.Below (readable h)) (hpre : h <+: h') :
    (grown m h h').Below (readable h') := fun p c hp => by
  rw [grown] at hp
  split at hp
  · exact getElem?_of_prefix hpre (hm p c hp)
  · exact hp

theorem inner_below (hm : ∀ p < out, ∀ c, m p = some c → g[p]? = some c) :
    (inner m out g).Below (readable g) := fun p c hp => by
  rw [inner] at hp
  split at hp
  · exact hm p ‹_› c hp
  · split at hp
    · cases hp
    · exact hp

private theorem grown_inner_below (hout : out < g.length) (hpre : g <+: g') :
    (grown (inner m out g) g g').Below (inner m out g') := fun p c hp => by
  simp only [grown, inner] at hp ⊢
  by_cases hlt : p < out
  · rw [if_pos (hlt.trans hout), if_pos hlt] at hp
    rw [if_pos hlt, hp]
  by_cases heq : p = out
  · subst heq
    rw [if_pos hout, if_neg hlt, if_pos rfl] at hp
    cases hp
  rw [if_neg hlt, if_neg heq] at hp ⊢
  split at hp
  · exact getElem?_of_prefix hpre hp
  · exact hp

private theorem inner_below_grown : (inner m h.length g).Below (grown m h g) := fun p c hp => by
  rw [inner] at hp
  rw [grown]
  split at hp
  · rwa [if_pos ‹_›]
  · rw [if_neg ‹_›]
    split at hp
    · cases hp
    · exact hp

private theorem inner_mono (hpre : g <+: g') :
    (inner m out g).Below (inner m out g') := fun p c hp => by
  simp only [inner] at hp ⊢
  split
  · rwa [if_pos ‹_›] at hp
  · rw [if_neg ‹_›] at hp
    split
    · rwa [if_pos ‹_›] at hp
    · rw [if_neg ‹_›] at hp
      exact getElem?_of_prefix hpre hp

/-- The node that is being made is not part of what is kept. -/
theorem inner_modify (f : Cell → Cell) : inner m out (g.modify out f) = inner m out g := by
  funext p
  simp only [inner]
  split
  · rfl
  · split
    · rfl
    · rw [List.getElem?_modify_ne _ _ (Ne.symm ‹_›)]

/-- The content of a mapping, where each value is behind its key. -/
def laid (qs : List (Ptr × Ptr)) : List Ptr := qs.flatMap fun q => [q.1, q.2]

/-- A key and a value. -/
def Pair (m : Memory) (q : Ptr × Ptr) (e : YamlTree × YamlTree) : Prop :=
  Denotes m q.1 e.1 ∧ Denotes m q.2 e.2

theorem length_laid (qs : List (Ptr × Ptr)) : (laid qs).length = 2 * qs.length := by
  induction qs with
  | nil => rfl
  | cons q qs ih =>
    rw [laid, List.flatMap_cons, List.length_append, ← laid, ih, List.length_cons]
    simp +arith

theorem laid_append (qs qs' : List (Ptr × Ptr)) : laid (qs ++ qs') = laid qs ++ laid qs' :=
  List.flatMap_append

theorem laid_cons (q : Ptr × Ptr) (qs : List (Ptr × Ptr)) :
    laid (q :: qs) = q.1 :: q.2 :: laid qs := rfl

private theorem getElem?_laid (qs qs' : List (Ptr × Ptr)) (q : Ptr × Ptr) :
    (laid (qs ++ q :: qs'))[2 * qs.length + 1]? = some q.2 := by
  rw [laid_append, laid_cons, List.getElem?_append_right (by rw [length_laid]; omega), length_laid,
    Nat.add_sub_cancel_left]
  rfl

private theorem set_laid (qs qs' : List (Ptr × Ptr)) (q : Ptr × Ptr) (p : Ptr) :
    (laid (qs ++ q :: qs')).set (2 * qs.length + 1) p = laid (qs ++ (q.1, p) :: qs') := by
  rw [laid_append, laid_cons, List.set_append_right _ _ (by rw [length_laid]; omega), length_laid,
    Nat.add_sub_cancel_left, laid_append, laid_cons]
  rfl

theorem denotes_entries_iff {ps : List Ptr} {es : Entries} : Denotes.entries m ps es ↔
    ∃ qs, ps = laid qs ∧ List.Forall₂ (Pair m) qs es := by
  induction es generalizing ps with
  | nil =>
    constructor
    · intro hes
      cases ps with
      | nil => exact ⟨[], rfl, .nil⟩
      | cons => simp [Denotes.entries] at hes
    · rintro ⟨qs, rfl, hqs⟩
      cases hqs
      simp [Denotes.entries, laid]
  | cons e es ih =>
    constructor
    · intro hes
      match ps with
      | [] => simp [Denotes.entries] at hes
      | [_] => simp [Denotes.entries] at hes
      | k :: v :: ps =>
        rw [Denotes.entries] at hes
        obtain ⟨hkey, hvalue, hes⟩ := hes
        obtain ⟨qs, rfl, hqs⟩ := ih.mp hes
        exact ⟨(k, v) :: qs, rfl, .cons ⟨hkey, hvalue⟩ hqs⟩
    · rintro ⟨qs, rfl, hqs⟩
      obtain ⟨q, qs', hq, hqs', rfl⟩ := List.forall₂_cons_right_iff.mp hqs
      rw [laid_cons, Denotes.entries]
      exact ⟨hq.1, hq.2, ih.mpr ⟨qs', rfl, hqs'⟩⟩

theorem Denotes.mono (hm : m.Below m') {t : YamlTree} (ht : Denotes m p t) : Denotes m' p t := by
  induction t using YamlTree.parts generalizing p with
  | node attrs content ih =>
    have hitems : ∀ ts : List YamlTree, ts ⊆ content → ∀ ps, Denotes.items m ps ts →
        Denotes.items m' ps ts := by
      intro ts
      induction ts with
      | nil =>
        intro _ ps hps
        cases ps with
        | nil => exact hps
        | cons => simp [Denotes.items] at hps
      | cons t ts ihts =>
        intro hts ps hps
        cases ps with
        | nil => simp [Denotes.items] at hps
        | cons p ps =>
          rw [Denotes.items] at hps ⊢
          exact ⟨ih t (hts List.mem_cons_self) hps.1,
            ihts (fun t ht => hts (List.mem_cons_of_mem _ ht)) ps hps.2⟩
    rw [Denotes] at ht ⊢
    obtain ⟨hkind, c, hc, hattrs, hcontent⟩ := ht
    exact ⟨hkind, c, hm p c hc, hattrs, hitems content (List.Subset.refl _) _ hcontent⟩
  | mapping style tag notes entries ih =>
    rw [Denotes] at ht ⊢
    obtain ⟨c, hc, hattrs, hcontent⟩ := ht
    obtain ⟨qs, hqs, hpairs⟩ := denotes_entries_iff.mp hcontent
    refine ⟨c, hm p c hc, hattrs, denotes_entries_iff.mpr ⟨qs, hqs, ?_⟩⟩
    rw [List.forall₂_iff_get] at hpairs ⊢
    refine ⟨hpairs.1, fun i hi hi' => ?_⟩
    have hpair := ih _ (List.get_mem entries ⟨i, hi'⟩)
    exact ⟨hpair.1 (hpairs.2 i hi hi').1, hpair.2 (hpairs.2 i hi hi').2⟩

/-- What a merge reads of a node. -/
theorem read_of_denotes {t : YamlTree} (ht : Denotes m p t) :
    ∃ c, m p = some c ∧ c.value = t.text ∧ (c.kind = .mapping ↔ t.IsMapping) := by
  cases t with
  | node attrs content =>
    rw [Denotes] at ht
    obtain ⟨hkind, c, hc, rfl, -⟩ := ht
    exact ⟨c, hc, rfl, iff_of_false hkind id⟩
  | mapping style tag notes entries =>
    rw [Denotes] at ht
    obtain ⟨c, hc, hattrs, -⟩ := ht
    refine ⟨c, hc, congrArg Attrs.value hattrs, iff_of_true (congrArg Attrs.kind hattrs) trivial⟩

theorem Pair.mono (hm : m.Below m') {qs : List (Ptr × Ptr)} {es : Entries}
    (hqs : List.Forall₂ (Pair m) qs es) : List.Forall₂ (Pair m') qs es :=
  hqs.imp fun _ _ hq => ⟨hq.1.mono hm, hq.2.mono hm⟩

/-- The keys, each of which is two places behind the one before it. -/
structure Indexed (idx : String → Option ℕ) (ks : List String) : Prop where
  found : ∀ l₁ key l₂, ks = l₁ ++ key :: l₂ → idx key = some (2 * l₁.length)
  missing : ∀ key, key ∉ ks → idx key = none

private theorem indexKeys_spec (hm : m.Below (readable h)) {qs : List (Ptr × Ptr)} {es : Entries}
    (hqs : List.Forall₂ (Pair m) qs es) (hkeys : (keys es).Nodup) (idx : String → Option ℕ)
    (i : ℕ) :
    ∃ idx', indexKeys h idx i (laid qs) = some idx' ∧
      (∀ l₁ key l₂, keys es = l₁ ++ key :: l₂ → idx' key = some (i + 2 * l₁.length)) ∧
      ∀ key, key ∉ keys es → idx' key = idx key := by
  induction hqs generalizing idx i with
  | nil => exact ⟨idx, rfl, fun l₁ key l₂ heq => by simp [keys] at heq, fun _ _ => rfl⟩
  | @cons q e qs es hq hqs ih =>
    obtain ⟨hkey, hkeys⟩ := List.nodup_cons.mp (show (e.1.text :: keys es).Nodup from hkeys)
    obtain ⟨c, hc, hvalue, -⟩ := read_of_denotes hq.1
    obtain ⟨idx', hidx, hfound, hmissing⟩ :=
      ih hkeys (Function.update idx e.1.text (some i)) (i + 2)
    have hread : h[q.1]? = some c := hm _ _ hc
    refine ⟨idx', ?_, fun l₁ key l₂ heq => ?_, fun key hne => ?_⟩
    · rw [laid_cons, indexKeys, hread, Option.bind_eq_bind, Option.bind_some, hvalue, hidx]
    · obtain ⟨rfl, hhead⟩ | ⟨l, rfl, htail⟩ := List.cons_eq_append_iff.mp
        (show e.1.text :: keys es = l₁ ++ key :: l₂ from heq)
      · obtain ⟨rfl, -⟩ := List.cons.inj hhead
        rw [hmissing _ hkey, Function.update_self]
        rfl
      · rw [hfound l key l₂ htail, List.length_cons]
        exact congrArg some (by omega)
    · replace hne : key ∉ e.1.text :: keys es := hne
      rw [hmissing key (List.not_mem_of_not_mem_cons hne),
        Function.update_of_ne (List.ne_of_not_mem_cons hne)]

/-- The merge makes the tree of `a` with the overlay `b` from nodes for them, and leaves alone what
there is. -/
def Merges (merge : Heap → Ptr → Ptr → Option (Heap × Ptr)) (a b : YamlTree) : Prop :=
  ∀ (h : Heap) (m : Memory) (pa pb : Ptr), m.Below (readable h) → Denotes m pa a → Denotes m pb b →
    ∃ h' r, merge h pa pb = some (h', r) ∧ h <+: h' ∧ Denotes (grown m h h') r (a.merged b)

private theorem forall₂_split {R : Ptr × Ptr → YamlTree × YamlTree → Prop} {qs : List (Ptr × Ptr)}
    {l₁ l₂ : Entries} {d : YamlTree × YamlTree} (hqs : List.Forall₂ R qs (l₁ ++ d :: l₂)) :
    ∃ s₁ q s₂, qs = s₁ ++ q :: s₂ ∧ s₁.length = l₁.length ∧ List.Forall₂ R s₁ l₁ ∧ R q d ∧
      List.Forall₂ R s₂ l₂ := by
  have htake := List.forall₂_take_append qs l₁ (d :: l₂) hqs
  have hdrop := List.forall₂_drop_append qs l₁ (d :: l₂) hqs
  obtain ⟨q, s₂, hq, hs₂, heq⟩ := List.forall₂_cons_right_iff.mp hdrop
  refine ⟨qs.take l₁.length, q, s₂, ?_, htake.length_eq, htake, hq, hs₂⟩
  rw [← heq, List.take_append_drop]

/-- The node `out`, which is being made, has the entries `es` so far. -/
structure Making (m : Memory) (made : Attrs) (out : Ptr) (g : Heap) (es : Entries) : Prop where
  below : ∀ p < out, ∀ c, m p = some c → g[p]? = some c
  node : ∃ qs, g[out]? = some ⟨made, laid qs⟩ ∧ List.Forall₂ (Pair (inner m out g)) qs es

/-- What has happened between the heaps `g` and `g'` leaves alone what there is. -/
structure Leaves (m : Memory) (out : Ptr) (g g' : Heap) : Prop where
  before : ∀ p < out, g'[p]? = g[p]?
  inner : (inner m out g).Below (inner m out g')

theorem Leaves.refl : Leaves m out g g := ⟨fun _ _ => rfl, fun _ _ hp => hp⟩

theorem Leaves.trans {g₁ g₂ g₃ : Heap} (h : Leaves m out g₁ g₂) (h' : Leaves m out g₂ g₃) :
    Leaves m out g₁ g₃ :=
  ⟨fun p hp => (h'.before p hp).trans (h.before p hp), fun p c hp => h'.inner p c (h.inner p c hp)⟩

theorem leaves_modify (hpre : g <+: g') (hout : out < g.length) (f : Cell → Cell) :
    Leaves m out g (g'.modify out f) where
  before p hp := by
    rw [List.getElem?_modify_ne _ _ hp.ne', List.getElem?_eq_getElem (hp.trans hout)]
    exact getElem?_of_prefix hpre (List.getElem?_eq_getElem (hp.trans hout))
  inner := inner_modify (g := g') f ▸ inner_mono hpre

variable {merge : Heap → Ptr → Ptr → Option (Heap × Ptr)} {idx : String → Option ℕ} {made : Attrs}
  {e : YamlTree × YamlTree} {es front back rest : Entries} {r : Ptr × Ptr}

/-- A pair whose key is in the base: the value under the key is merged, in its place. -/
theorem overlayPairs_found (rs : List (Ptr × Ptr)) {l₁ l₂ : Entries} {d : YamlTree × YamlTree}
    (hmaking : Making m made out g (l₁ ++ d :: l₂)) (hr : Pair (inner m out g) r e)
    (hidx : idx e.1.text = some (2 * l₁.length)) (hmerge : Merges merge d.2 e.2) :
    ∃ g', overlayPairs merge idx out g (laid (r :: rs)) = overlayPairs merge idx out g' (laid rs) ∧
      Leaves m out g g' ∧ Making m made out g' (l₁ ++ (d.1, d.2.merged e.2) :: l₂) := by
  obtain ⟨hm, qs, hout, hqs⟩ := hmaking
  obtain ⟨c, hc, hvalue, -⟩ := read_of_denotes hr.1
  have hread : g[r.1]? = some c := inner_below hm _ _ hc
  have hlt : out < g.length := (List.getElem?_eq_some_iff.mp hout).choose
  obtain ⟨s₁, q, s₂, rfl, hlength, hs₁, hq, hs₂⟩ := forall₂_split hqs
  obtain ⟨g₁, p, hrun, hpre, hp⟩ := hmerge g _ q.2 r.2 (inner_below hm) hq.2 hr.2
  have hleaves := leaves_modify (m := m) hpre hlt fun o =>
    { o with content := o.content.set (2 * l₁.length + 1) p }
  refine ⟨_, ?_, hleaves, fun p hp c hc => ?_, s₁ ++ (q.1, p) :: s₂, ?_, ?_⟩
  · rw [laid_cons, overlayPairs, hread, Option.bind_eq_bind, Option.bind_some, hvalue, hidx]
    simp only [hout, Option.bind_eq_bind, Option.bind_some]
    rw [← hlength, getElem?_laid, Option.bind_some, hrun, Option.bind_some, hlength]
  · rw [hleaves.before p hp, hm p hp c hc]
  · rw [List.getElem?_modify_eq, getElem?_of_prefix hpre hout, ← hlength, Option.map_eq_map,
      Option.map_some, set_laid]
  · have hvalue : Denotes (inner m out g₁) p (d.2.merged e.2) :=
      hp.mono (grown_inner_below hlt hpre)
    refine List.rel_append (Pair.mono hleaves.inner hs₁)
      (.cons ⟨?_, ?_⟩ (Pair.mono hleaves.inner hs₂))
    · exact hq.1.mono hleaves.inner
    · rwa [inner_modify]

/-- A pair whose key is not in the base is put behind what there is. -/
theorem overlayPairs_missing (rs : List (Ptr × Ptr)) (hmaking : Making m made out g es)
    (hr : Pair (inner m out g) r e) (hidx : idx e.1.text = none) :
    ∃ g', overlayPairs merge idx out g (laid (r :: rs)) = overlayPairs merge idx out g' (laid rs) ∧
      Leaves m out g g' ∧ Making m made out g' (es ++ [e]) := by
  obtain ⟨hm, qs, hout, hqs⟩ := hmaking
  obtain ⟨c, hc, hvalue, -⟩ := read_of_denotes hr.1
  have hread : g[r.1]? = some c := inner_below hm _ _ hc
  have hlt : out < g.length := (List.getElem?_eq_some_iff.mp hout).choose
  have hleaves := leaves_modify (m := m) (List.prefix_refl g) hlt fun o =>
    { o with content := o.content ++ [r.1, r.2] }
  refine ⟨_, ?_, hleaves, fun p hp c hc => ?_, qs ++ [r], ?_, ?_⟩
  · rw [laid_cons, overlayPairs, hread, Option.bind_eq_bind, Option.bind_some, hvalue, hidx]
  · rw [hleaves.before p hp, hm p hp c hc]
  · rw [List.getElem?_modify_eq, hout, Option.map_eq_map, Option.map_some, laid_append]
    rfl
  · exact List.rel_append (Pair.mono hleaves.inner hqs)
      (.cons ⟨hr.1.mono hleaves.inner, hr.2.mono hleaves.inner⟩ .nil)

/-- The whole loop, over the pairs `rs` of the entries `rest`. -/
theorem overlayPairs_spec {rs : List (Ptr × Ptr)} (hidx : Indexed idx (keys front))
    (hfront : (keys front).Nodup) (hrest : (keys rest).Nodup)
    (hmerge : ∀ d ∈ front, ∀ e ∈ rest, d.1.text = e.1.text → Merges merge d.2 e.2)
    (hmaking : Making m made out g (front ++ back))
    (hrs : List.Forall₂ (Pair (inner m out g)) rs rest) :
    ∃ g', overlayPairs merge idx out g (laid rs) = some g' ∧ Leaves m out g g' ∧
      Making m made out g' (front.map (overlaid rest) ++ back ++ added front rest) := by
  induction rest generalizing front back g rs with
  | nil =>
    obtain rfl := List.forall₂_nil_right_iff.mp hrs
    have hmap : front.map (overlaid []) = front :=
      (List.map_congr_left fun e _ => overlaid_of_not_mem (by simp [keys])).trans (List.map_id _)
    refine ⟨g, rfl, .refl, ?_⟩
    rwa [hmap, show added front [] = [] from rfl, List.append_nil]
  | cons e rest ih =>
    obtain ⟨r, rs', hr, hrs', rfl⟩ := List.forall₂_cons_right_iff.mp hrs
    obtain ⟨hkey, hrest⟩ := List.nodup_cons.mp (show (e.1.text :: keys rest).Nodup from hrest)
    by_cases hmem : e.1.text ∈ keys front
    · -- The value under the key is merged in its place. No later pair has the key.
      obtain ⟨d, hd, heq⟩ := List.mem_map.mp hmem
      have hmerged := hmerge d hd e List.mem_cons_self heq
      obtain ⟨l₁, l₂, rfl⟩ := List.append_of_mem hd
      have hbi : idx e.1.text = some (2 * l₁.length) := by
        simpa [keys] using hidx.found (keys l₁) e.1.text (keys l₂) (by simp [keys, heq])
      rw [List.append_assoc, List.cons_append] at hmaking
      obtain ⟨g₁, hstep, hleaves, hmaking⟩ := overlayPairs_found rs' hmaking hr hbi hmerged
      rw [← List.cons_append, ← List.append_assoc] at hmaking
      have hmerge' : ∀ d' ∈ l₁ ++ (d.1, d.2.merged e.2) :: l₂, ∀ e' ∈ rest,
          d'.1.text = e'.1.text → Merges merge d'.2 e'.2 := by
        intro d' hd' e' he' heq'
        refine hmerge d' ?_ e' (List.mem_cons_of_mem _ he') heq'
        simp only [List.mem_append, List.mem_cons] at hd' ⊢
        obtain hd' | rfl | hd' := hd'
        · exact .inl hd'
        · refine absurd ?_ hkey
          rw [← heq, heq']
          exact text_mem_keys he'
        · exact .inr (.inr hd')
      obtain ⟨g', hloop, hleaves', hmaking'⟩ := ih (keys_set (d := d) ▸ hidx)
        (keys_set (d := d) ▸ hfront) hrest hmerge' hmaking (Pair.mono hleaves.inner hrs')
      obtain ⟨hmap, hadded⟩ := mergedEntries_cons_of_mem hfront heq hkey
      exact ⟨g', hstep.trans hloop, hleaves.trans hleaves', by rwa [hmap, hadded]⟩
    · -- The pair is put behind, where the index does not reach.
      obtain ⟨g₁, hstep, hleaves, hmaking⟩ :=
        overlayPairs_missing rs' hmaking hr (hidx.missing _ hmem)
      rw [List.append_assoc] at hmaking
      obtain ⟨g', hloop, hleaves', hmaking'⟩ := ih hidx hfront hrest
        (fun d hd e' he' => hmerge d hd e' (List.mem_cons_of_mem _ he')) hmaking
        (Pair.mono hleaves.inner hrs')
      refine ⟨g', hstep.trans hloop, hleaves.trans hleaves', ?_⟩
      rw [map_overlaid_cons hmem, added_cons_of_not_mem hmem]
      simpa using hmaking'

private theorem mergeNode_mapping {fuel : ℕ} {pa pb : Ptr} {style style' : ℕ} {tag tag' : String}
    {notes notes' : Notes} {entries overlay : Entries} (hm : m.Below (readable h))
    (ha : Denotes m pa (.mapping style tag notes entries))
    (hb : Denotes m pb (.mapping style' tag' notes' overlay))
    (hkeys : (keys entries).Nodup) (hkeys' : (keys overlay).Nodup)
    (hmerge : ∀ d ∈ entries, ∀ e ∈ overlay, d.1.text = e.1.text → Merges (mergeNode fuel) d.2 e.2) :
    ∃ h' r, mergeNode (fuel + 1) h pa pb = some (h', r) ∧ h <+: h' ∧
      Denotes (grown m h h') r (.mapping style tag {} (mergedEntries entries overlay)) := by
  rw [Denotes] at ha hb
  obtain ⟨⟨attrs, content⟩, hc, rfl, hcontent⟩ := ha
  obtain ⟨⟨attrs', content'⟩, hc', rfl, hcontent'⟩ := hb
  obtain ⟨qs, rfl, hqs⟩ := denotes_entries_iff.mp hcontent
  obtain ⟨rs, rfl, hrs⟩ := denotes_entries_iff.mp hcontent'
  obtain ⟨idx, hindex, hfound, hmissing⟩ := indexKeys_spec hm hqs hkeys (fun _ => none) 0
  have hidx : Indexed idx (keys entries) :=
    ⟨fun l₁ key l₂ heq => by rw [hfound l₁ key l₂ heq, Nat.zero_add], hmissing⟩
  let made : Attrs := { kind := .mapping, style, tag }
  have hpre : h <+: h ++ [⟨made, laid qs⟩] := List.prefix_append _ _
  have hinner : m.Below (inner m h.length (h ++ [⟨made, laid qs⟩])) := fun p c hp => by
    rw [inner, if_pos (lt_of_below hm hp), hp]
  have hmaking : Making m made h.length (h ++ [⟨made, laid qs⟩]) (entries ++ []) :=
    ⟨fun p _ c hp => getElem?_of_prefix hpre (hm p c hp), qs, List.getElem?_concat_length,
      (List.append_nil entries).symm ▸ Pair.mono hinner hqs⟩
  obtain ⟨g, hloop, hleaves, -, qs', hout, hqs'⟩ :=
    overlayPairs_spec hidx hkeys hkeys' hmerge hmaking (Pair.mono hinner hrs)
  have hread : h[pa]? = some _ := hm _ _ hc
  have hread' : h[pb]? = some _ := hm _ _ hc'
  have hbefore : h <+: g := by
    rw [List.prefix_iff_getElem?]
    intro i hi
    rw [hleaves.before i hi, List.getElem?_append_left hi, List.getElem?_eq_getElem hi]
  refine ⟨g, h.length, ?_, hbefore, ?_⟩
  · simp only [mergeNode, hread, hread', Option.bind_eq_bind, Option.bind_some, hindex]
    rw [if_neg (by simp), hloop]
    rfl
  · rw [Denotes]
    refine ⟨⟨made, laid qs'⟩, ?_, rfl, denotes_entries_iff.mpr ⟨qs', rfl, ?_⟩⟩
    · rw [grown, if_neg (Nat.lt_irrefl _), hout]
    · rw [List.append_nil] at hqs'
      exact Pair.mono inner_below_grown hqs'

theorem mergeNode_merges {fuel : ℕ} {a b : YamlTree} (ha : NoDuplicateKeys a)
    (hb : NoDuplicateKeys b) (hfuel : a.height < fuel) : Merges (mergeNode fuel) a b := by
  induction fuel generalizing a b with
  | zero => omega
  | succ fuel ih =>
    intro h m pa pb hm hpa hpb
    by_cases hboth : a.IsMapping ∧ b.IsMapping
    · cases a with
      | node => exact hboth.1.elim
      | mapping style tag notes entries =>
      cases b with
      | node => exact hboth.2.elim
      | mapping style' tag' notes' overlay =>
      obtain ⟨hkeys, -, hvalue⟩ := ha.of_mapping
      obtain ⟨hkeys', -, hvalue'⟩ := hb.of_mapping
      rw [merged_mapping]
      refine mergeNode_mapping hm hpa hpb hkeys hkeys' fun d hd e he _ => ?_
      have hheight := height_le hd
      rw [YamlTree.height] at hfuel
      exact ih (hvalue d hd) (hvalue' e he) (by omega)
    · obtain ⟨c, hc, -, hkind⟩ := read_of_denotes hpa
      obtain ⟨c', hc', -, hkind'⟩ := read_of_denotes hpb
      have hread : h[pa]? = some c := hm _ _ hc
      have hread' : h[pb]? = some c' := hm _ _ hc'
      refine ⟨h, pb, ?_, List.prefix_refl h, ?_⟩
      · rw [mergeNode, hread, hread', Option.bind_eq_bind, Option.bind_some, Option.bind_eq_bind,
          Option.bind_some, if_pos]
        · rfl
        · rw [ne_eq, ne_eq, hkind, hkind']
          exact not_and_or.mp hboth
      · rw [merged_of_not_mapping hboth]
        exact hpb.mono (below_grown hm)

/-- A merge with an overlay follows the laws, changes no node that there is, and says the same when
it is done again. -/
theorem mergeNode_overlay {pa pb : Ptr} {a b : YamlTree} (hpa : Denotes (readable h) pa a)
    (hpb : Denotes (readable h) pb b) (ha : NoDuplicateKeys a) (hb : NoDuplicateKeys b) {fuel : ℕ}
    (hfuel : a.height < fuel) :
    (∃ h' r, mergeNode fuel h pa pb = some (h', r) ∧ h <+: h' ∧ Denotes (readable h') pa a ∧
      Denotes (readable h') pb b ∧ Denotes (readable h') r (a.merged b) ∧
      OverlayLaws a b (a.merged b) ∧
      ∀ fuel', (a.merged b).height < fuel' →
        ∃ h'' r' m, mergeNode fuel' h' r pb = some (h'', r') ∧ h' <+: h'' ∧
          Denotes (readable h'') r' m ∧ m.bare = (a.merged b).bare) ∧
    ∃ h' r m, mergeNode fuel h pa pa = some (h', r) ∧ h <+: h' ∧ Denotes (readable h') r m ∧
      m.bare = a.bare := by
  have hrefl : ∀ h : Heap, (readable h).Below (readable h) := fun _ _ _ hp => hp
  refine ⟨?_, ?_⟩
  · obtain ⟨h', r, hrun, hpre, hr⟩ := mergeNode_merges ha hb hfuel h _ pa pb (hrefl h) hpa hpb
    have hgrown : (readable h).Below (readable h') := fun p c hp => getElem?_of_prefix hpre hp
    have hpb' : Denotes (readable h') pb b := hpb.mono hgrown
    have hr' : Denotes (readable h') r (a.merged b) := hr.mono (grown_below (hrefl h) hpre)
    refine ⟨h', r, hrun, hpre, hpa.mono hgrown, hpb', hr', overlayLaws ha hb, ?_⟩
    intro fuel' hfuel'
    obtain ⟨h'', r', hrun', hpre', hm⟩ :=
      mergeNode_merges (ha.merged hb) hb hfuel' h' _ r pb (hrefl h') hr' hpb'
    exact ⟨h'', r', _, hrun', hpre', hm.mono (grown_below (hrefl h') hpre'),
      bare_merged_merged hb⟩
  · obtain ⟨h', r, hrun, hpre, hr⟩ := mergeNode_merges ha ha hfuel h _ pa pa (hrefl h) hpa hpa
    exact ⟨h', r, _, hrun, hpre, hr.mono (grown_below (hrefl h) hpre), bare_merged_self ha⟩

section Sample

def scalar (value : String) : YamlTree := .node { kind := .scalar, value } []

/-- `x: {y: 2}` -/
def sampleBase : YamlTree :=
  .mapping 0 "" {} [(scalar "x", .mapping 0 "" {} [(scalar "y", scalar "2")])]

/-- `x: {z: 1}` -/
def sampleOver : YamlTree :=
  .mapping 0 "" {} [(scalar "x", .mapping 0 "" {} [(scalar "z", scalar "1")])]

/-- `x: 1` under a comment -/
def sampleScalar : YamlTree := .mapping 0 "" { headComment := "# one" } [(scalar "x", scalar "1")]

/-- The three of them share nodes. -/
def sampleHeap : Heap :=
  [{ kind := .scalar, value := "x" }, { kind := .scalar, value := "y" },
    { kind := .scalar, value := "z" }, { kind := .scalar, value := "1" },
    { kind := .scalar, value := "2" },
    { kind := .mapping, content := [1, 4] }, { kind := .mapping, content := [0, 5] },
    { kind := .mapping, content := [2, 3] }, { kind := .mapping, content := [0, 7] },
    { kind := .mapping, notes := { headComment := "# one" }, content := [0, 3] }]

theorem sample_denoted : Denotes (readable sampleHeap) 6 sampleBase ∧
    Denotes (readable sampleHeap) 8 sampleOver ∧ Denotes (readable sampleHeap) 9 sampleScalar := by
  simp [sampleBase, sampleOver, sampleScalar, scalar, sampleHeap, readable, Denotes,
    Denotes.entries, Denotes.items]

theorem noDuplicateKeys_single {k v : YamlTree} {style : ℕ} {tag : String} {notes : Notes}
    (hk : NoDuplicateKeys k) (hv : NoDuplicateKeys v) :
    NoDuplicateKeys (.mapping style tag notes [(k, v)]) :=
  .mapping (by simp [keys]) (by simpa using hk) (by simpa using hv)

theorem noDuplicateKeys_scalar (value : String) : NoDuplicateKeys (scalar value) :=
  .node (by simp)

theorem noDuplicateKeys_sampleBase : NoDuplicateKeys sampleBase :=
  noDuplicateKeys_single (noDuplicateKeys_scalar _)
    (noDuplicateKeys_single (noDuplicateKeys_scalar _) (noDuplicateKeys_scalar _))

theorem mergeNode_overlay_sample : ∃ h' r, mergeNode 3 sampleHeap 6 8 = some (h', r) ∧
    Denotes (readable h') r (sampleBase.merged sampleOver) ∧
    OverlayLaws sampleBase sampleOver (sampleBase.merged sampleOver) := by
  have hover : NoDuplicateKeys sampleOver := noDuplicateKeys_single (noDuplicateKeys_scalar _)
    (noDuplicateKeys_single (noDuplicateKeys_scalar _) (noDuplicateKeys_scalar _))
  obtain ⟨⟨h', r, hrun, -, -, -, hr, hlaws, -⟩, -⟩ := mergeNode_overlay sample_denoted.1
    sample_denoted.2.1 noDuplicateKeys_sampleBase hover
    (show sampleBase.height < 3 by
      simp [sampleBase, scalar, YamlTree.height, YamlTree.height.entries])
  exact ⟨h', r, hrun, hr, hlaws⟩

/-- What is under a mapping is gone where the overlay has no mapping, and a merge with itself takes
the comment off a mapping. -/
theorem overlay_drops : NoDuplicateKeys sampleBase ∧ NoDuplicateKeys sampleScalar ∧
    Denotes (readable sampleHeap) 6 sampleBase ∧ Denotes (readable sampleHeap) 9 sampleScalar ∧
    sampleScalar.at ["x", "y"] = none ∧ sampleBase.at ["x", "y"] = some (scalar "2") ∧
    (∃ h' r m, mergeNode 3 sampleHeap 6 9 = some (h', r) ∧ Denotes (readable h') r m ∧
      m.at ["x", "y"] = none) ∧
    ∃ h' r m, mergeNode 3 sampleHeap 9 9 = some (h', r) ∧ Denotes (readable h') r m ∧
      m ≠ sampleScalar := by
  have hscalar : NoDuplicateKeys sampleScalar :=
    noDuplicateKeys_single (noDuplicateKeys_scalar _) (noDuplicateKeys_scalar _)
  have hheight : sampleBase.height < 3 ∧ sampleScalar.height < 3 := by
    simp [sampleBase, sampleScalar, scalar, YamlTree.height, YamlTree.height.entries]
  have hrefl : (readable sampleHeap).Below (readable sampleHeap) := fun _ _ hp => hp
  obtain ⟨hbase, -, hover⟩ := sample_denoted
  refine ⟨noDuplicateKeys_sampleBase, hscalar, hbase, hover, ?_, ?_, ?_, ?_⟩
  · simp [sampleScalar, scalar, YamlTree.at, lookup, YamlTree.text]
  · simp [sampleBase, scalar, YamlTree.at, lookup, YamlTree.text]
  · obtain ⟨h', r, hrun, hpre, hr⟩ := mergeNode_merges noDuplicateKeys_sampleBase hscalar
      hheight.1 sampleHeap _ 6 9 hrefl hbase hover
    refine ⟨h', r, _, hrun, hr.mono (grown_below hrefl hpre), ?_⟩
    simp [sampleBase, sampleScalar, scalar, merged_mapping, mergedEntries, overlaid, added, keys,
      YamlTree.at, YamlTree.merged, lookup, YamlTree.text]
  · obtain ⟨h', r, hrun, hpre, hr⟩ := mergeNode_merges hscalar hscalar
      hheight.2 sampleHeap _ 9 9 hrefl hover hover
    refine ⟨h', r, _, hrun, hr.mono (grown_below hrefl hpre), ?_⟩
    simp [sampleScalar, merged_mapping]

end Sample

end Statnive.OverlayMerge
