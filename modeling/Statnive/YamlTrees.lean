import Mathlib.Data.List.Infix
import Mathlib.Data.List.Nodup

/-!
# Trees of YAML

A mapping holds its values under keys, which are nodes themselves and are told apart by their text.
An overlay is merged into a tree where both have mappings, and replaces what it meets elsewhere.
-/

namespace Statnive.YamlTrees

inductive Kind where
  | document | sequence | mapping | scalar | alias
  deriving DecidableEq

/-- What a node has besides its data: its anchor, its comments and its place in the text. -/
structure Notes where
  anchor : String := ""
  headComment : String := ""
  lineComment : String := ""
  footComment : String := ""
  line : ℕ := 0
  column : ℕ := 0
  deriving DecidableEq

structure Attrs where
  kind : Kind
  style : ℕ := 0
  tag : String := ""
  value : String := ""
  notes : Notes := {}
  deriving DecidableEq

/-- A `node` is of any kind but a mapping. -/
inductive YamlTree where
  | node (attrs : Attrs) (content : List YamlTree)
  | mapping (style : ℕ) (tag : String) (notes : Notes) (entries : List (YamlTree × YamlTree))

abbrev Entries := List (YamlTree × YamlTree)

def YamlTree.IsMapping : YamlTree → Prop
  | .node .. => False
  | .mapping .. => True

/-- What a key is told apart by. A mapping has no value of its own. -/
def YamlTree.text : YamlTree → String
  | .node attrs _ => attrs.value
  | .mapping .. => ""

def keys (entries : Entries) : List String := entries.map fun e => e.1.text

def lookup (entries : Entries) (key : String) : Option YamlTree :=
  (entries.find? fun e => e.1.text = key).map Prod.snd

/-- The value at a path of keys. -/
def YamlTree.at : YamlTree → List String → Option YamlTree
  | t, [] => some t
  | .node .., _ :: _ => none
  | .mapping _ _ _ entries, key :: path => (lookup entries key).bind fun v => v.at path

/-- No mapping of the tree has two keys of one text. -/
inductive NoDuplicateKeys : YamlTree → Prop
  | node {attrs : Attrs} {content : List YamlTree} (h : ∀ t ∈ content, NoDuplicateKeys t) :
    NoDuplicateKeys (.node attrs content)
  | mapping {style : ℕ} {tag : String} {notes : Notes} {entries : Entries}
    (hkeys : (keys entries).Nodup) (hkey : ∀ e ∈ entries, NoDuplicateKeys e.1)
    (hvalue : ∀ e ∈ entries, NoDuplicateKeys e.2) :
    NoDuplicateKeys (.mapping style tag notes entries)

mutual

/-- The mappings that are nested in one another. -/
def YamlTree.height : YamlTree → ℕ
  | .node .. => 0
  | .mapping _ _ _ entries => height.entries entries + 1

def YamlTree.height.entries : Entries → ℕ
  | [] => 0
  | (_, v) :: entries => max v.height (height.entries entries)

end

mutual

/-- A tree with an overlay merged into it. -/
def YamlTree.merged : YamlTree → YamlTree → YamlTree
  | .mapping style tag _ entries, .mapping _ _ _ overlay =>
    .mapping style tag {} (merged.entries entries overlay ++
      overlay.filter fun e => e.1.text ∉ keys entries)
  | _, overlay => overlay

def YamlTree.merged.entries : Entries → Entries → Entries
  | [], _ => []
  | (k, v) :: entries, overlay =>
    (k, match lookup overlay k.text with
      | some w => v.merged w
      | none => v) :: merged.entries entries overlay

end

mutual

/-- A tree without the notes of the mappings on its paths. -/
def YamlTree.bare : YamlTree → YamlTree
  | .node attrs content => .node attrs content
  | .mapping style tag _ entries => .mapping style tag {} (bare.entries entries)

def YamlTree.bare.entries : Entries → Entries
  | [] => []
  | (k, v) :: entries => (k, v.bare) :: bare.entries entries

end

/-- Induction over a tree, with the keys and the values of a mapping as its parts. -/
theorem YamlTree.parts {P : YamlTree → Prop}
    (node : ∀ attrs content, (∀ t ∈ content, P t) → P (.node attrs content))
    (mapping : ∀ style tag notes entries, (∀ e ∈ entries, P e.1 ∧ P e.2) →
      P (.mapping style tag notes entries)) (t : YamlTree) : P t :=
  @YamlTree.rec P (fun ts => ∀ t ∈ ts, P t) (fun es => ∀ e ∈ es, P e.1 ∧ P e.2)
    (fun e => P e.1 ∧ P e.2) node mapping (by simp)
    (fun _ _ h hs => List.forall_mem_cons.mpr ⟨h, hs⟩) (by simp)
    (fun _ _ h hs => List.forall_mem_cons.mpr ⟨h, hs⟩) (fun _ _ h h' => ⟨h, h'⟩) t

variable {entries overlay : Entries} {e : YamlTree × YamlTree} {key : String} {v w : YamlTree}

theorem height_le (h : e ∈ entries) : e.2.height ≤ YamlTree.height.entries entries := by
  induction entries with
  | nil => simp at h
  | cons e' entries ih =>
    rw [YamlTree.height.entries]
    obtain rfl | h := List.mem_cons.mp h
    · exact Nat.le_max_left _ _
    · exact (ih h).trans (Nat.le_max_right _ _)

theorem mem_of_lookup (h : lookup entries key = some v) :
    ∃ e ∈ entries, e.1.text = key ∧ e.2 = v := by
  obtain ⟨e, he, rfl⟩ := Option.map_eq_some_iff.mp h
  exact ⟨e, List.mem_of_find?_eq_some he, by simpa using List.find?_some he, rfl⟩

theorem text_mem_keys (h : e ∈ entries) : e.1.text ∈ keys entries := List.mem_map.mpr ⟨e, h, rfl⟩

theorem lookup_eq_none_iff : lookup entries key = none ↔ key ∉ keys entries := by
  simp [lookup, keys]

/-- Where the keys are distinct, an entry is found under its key. -/
theorem lookup_of_mem (hkeys : (keys entries).Nodup) (h : e ∈ entries) :
    lookup entries e.1.text = some e.2 := by
  induction entries with
  | nil => simp at h
  | cons e' entries ih =>
    rw [keys, List.map_cons, List.nodup_cons] at hkeys
    obtain rfl | h := List.mem_cons.mp h
    · simp [lookup]
    · have hne : e'.1.text ≠ e.1.text := fun heq => hkeys.1 (heq ▸ text_mem_keys h)
      simpa [lookup, hne] using ih hkeys.2 h

private theorem keys_append : keys (entries ++ overlay) =
    keys entries ++ keys overlay := List.map_append

/-- What an entry becomes under an overlay. -/
def overlaid (overlay : Entries) (e : YamlTree × YamlTree) : YamlTree × YamlTree :=
  (e.1, match lookup overlay e.1.text with
    | some w => e.2.merged w
    | none => e.2)

private theorem merged_entries (entries overlay : Entries) :
    YamlTree.merged.entries entries overlay = entries.map (overlaid overlay) := by
  induction entries with
  | nil => rfl
  | cons e entries ih =>
    rw [List.map_cons, ← ih]
    rfl

private theorem bare_entries (entries : Entries) :
    YamlTree.bare.entries entries = entries.map fun e => (e.1, e.2.bare) := by
  induction entries with
  | nil => rfl
  | cons e entries ih =>
    rw [List.map_cons, ← ih]
    rfl

/-- The entries of an overlay that a mapping has no key for. -/
def added (entries overlay : Entries) : Entries := overlay.filter fun e => e.1.text ∉ keys entries

/-- The entries of a merged mapping. -/
def mergedEntries (entries overlay : Entries) : Entries :=
  entries.map (overlaid overlay) ++ added entries overlay

theorem merged_mapping (style style' : ℕ) (tag tag' : String) (notes notes' : Notes)
    (entries overlay : Entries) :
    (YamlTree.mapping style tag notes entries).merged (.mapping style' tag' notes' overlay) =
      .mapping style tag {} (mergedEntries entries overlay) := by
  rw [YamlTree.merged, merged_entries]
  rfl

theorem merged_of_not_mapping {a b : YamlTree} (h : ¬ (a.IsMapping ∧ b.IsMapping)) :
    a.merged b = b := by
  cases a with
  | node => rfl
  | mapping =>
    cases b with
    | node => rfl
    | mapping => exact absurd ⟨trivial, trivial⟩ h

private theorem keys_overlaid : keys (entries.map (overlaid overlay)) = keys entries := by
  simp [keys, overlaid, Function.comp_def]

private theorem keys_added : keys (added entries overlay) =
    (keys overlay).filter (· ∉ keys entries) := by
  simp [keys, added, List.filter_map, Function.comp_def]

private theorem lookup_overlaid : lookup (entries.map (overlaid overlay)) key =
    (lookup entries key).map fun v => match lookup overlay key with
      | some w => v.merged w
      | none => v := by
  induction entries with
  | nil => rfl
  | cons e entries ih =>
    by_cases hkey : e.1.text = key
    · simp [lookup, overlaid, hkey]
    · simpa [lookup, overlaid, hkey] using ih

private theorem lookup_added (h : key ∉ keys entries) :
    lookup (added entries overlay) key = lookup overlay key := by
  rw [lookup, lookup, added, List.find?_filter]
  congr 2
  funext e
  by_cases hkey : e.1.text = key
  · simp [hkey, h]
  · simp [hkey]

theorem lookup_merged : lookup (mergedEntries entries overlay) key =
    match lookup entries key, lookup overlay key with
    | some v, some w => some (v.merged w)
    | some v, none => some v
    | none, o => o := by
  have happend : lookup (mergedEntries entries overlay) key =
      (lookup (entries.map (overlaid overlay)) key).or (lookup (added entries overlay) key) := by
    simp only [lookup, mergedEntries, List.find?_append, Option.map_or]
  rw [happend, lookup_overlaid]
  cases hentry : lookup entries key with
  | none => simp [lookup_added (lookup_eq_none_iff.mp hentry)]
  | some v => cases lookup overlay key <;> simp

theorem keys_merged : keys (mergedEntries entries overlay) =
    keys entries ++ (keys overlay).filter (· ∉ keys entries) := by
  rw [mergedEntries, keys_append, keys_overlaid, keys_added]

private theorem overlaid_cons_of_ne {d : YamlTree × YamlTree} (h : d.1.text ≠ e.1.text) :
    overlaid (e :: overlay) d = overlaid overlay d := by
  rw [overlaid, lookup, List.find?_cons_of_neg (by simpa using h.symm)]
  rfl

private theorem overlaid_cons_of_eq {d : YamlTree × YamlTree} (h : d.1.text = e.1.text) :
    overlaid (e :: overlay) d = (d.1, d.2.merged e.2) := by
  simp [overlaid, lookup, h]

theorem overlaid_of_not_mem (h : e.1.text ∉ keys overlay) : overlaid overlay e = e := by
  rw [overlaid, lookup_eq_none_iff.mpr h]

theorem map_overlaid_cons (h : e.1.text ∉ keys entries) :
    entries.map (overlaid (e :: overlay)) = entries.map (overlaid overlay) := by
  refine List.map_congr_left fun d hd => overlaid_cons_of_ne fun heq => h ?_
  exact heq ▸ text_mem_keys hd

theorem keys_set {l₁ l₂ : Entries} {d : YamlTree × YamlTree} :
    keys (l₁ ++ (d.1, v) :: l₂) = keys (l₁ ++ d :: l₂) := by
  simp [keys]

/-- An entry whose key is there is merged into the value under it. -/
theorem mergedEntries_cons_of_mem {l₁ l₂ : Entries} {d : YamlTree × YamlTree}
    (hkeys : (keys (l₁ ++ d :: l₂)).Nodup) (hd : d.1.text = e.1.text)
    (he : e.1.text ∉ keys overlay) :
    (l₁ ++ d :: l₂).map (overlaid (e :: overlay)) =
        (l₁ ++ (d.1, d.2.merged e.2) :: l₂).map (overlaid overlay) ∧
      added (l₁ ++ d :: l₂) (e :: overlay) = added (l₁ ++ (d.1, d.2.merged e.2) :: l₂) overlay := by
  have hkeys' : (keys l₁ ++ d.1.text :: keys l₂).Nodup := by simpa [keys] using hkeys
  obtain ⟨-, hnodup, hdisjoint⟩ := List.nodup_append.mp hkeys'
  have h₁ : e.1.text ∉ keys l₁ := fun h => hdisjoint _ h _ List.mem_cons_self hd.symm
  have h₂ : e.1.text ∉ keys l₂ := hd ▸ (List.nodup_cons.mp hnodup).1
  refine ⟨?_, ?_⟩
  · rw [List.map_append, List.map_append, List.map_cons, List.map_cons, map_overlaid_cons h₁,
      map_overlaid_cons h₂, overlaid_cons_of_eq hd,
      overlaid_of_not_mem (e := (d.1, d.2.merged e.2)) (hd ▸ he)]
  · rw [added, added, keys_set (v := d.2.merged e.2), List.filter_cons_of_neg]
    simp [keys, hd]

/-- An entry whose key is not there is put behind. -/
theorem added_cons_of_not_mem (h : e.1.text ∉ keys entries) :
    added entries (e :: overlay) = e :: added entries overlay := by
  rw [added, List.filter_cons_of_pos (by simpa using h)]
  rfl

/-- What is promised of the tree `m` that an overlay `b` over `a` makes. -/
structure OverlayLaws (a b m : YamlTree) : Prop where
  noDuplicateKeys : NoDuplicateKeys m
  replaced : ∀ path w, b.at path = some w →
    (∀ v, a.at path = some v → ¬ (v.IsMapping ∧ w.IsMapping)) → m.at path = some w
  merged : ∀ path v w, a.at path = some v → b.at path = some w → v.IsMapping → w.IsMapping →
    m.at path = some (v.merged w)
  /-- What the overlay has nothing for stays, unless it replaces what it is in. -/
  kept : ∀ path, b.at path = none →
    (∀ above, above <+: path → ∀ v, b.at above = some v → v.IsMapping) → m.at path = a.at path
  order : ∀ path style style' tag tag' notes notes' entries overlay,
    a.at path = some (.mapping style tag notes entries) →
    b.at path = some (.mapping style' tag' notes' overlay) →
    ∃ es, m.at path = some (.mapping style tag {} es) ∧
      es.map Prod.fst =
        entries.map Prod.fst ++ (overlay.map Prod.fst).filter fun k => k.text ∉ keys entries

variable {a b : YamlTree}

theorem NoDuplicateKeys.of_mapping {style : ℕ} {tag : String} {notes : Notes}
    (h : NoDuplicateKeys (.mapping style tag notes entries)) : (keys entries).Nodup ∧
      (∀ e ∈ entries, NoDuplicateKeys e.1) ∧ ∀ e ∈ entries, NoDuplicateKeys e.2 := by
  cases h with
  | mapping hkeys hkey hvalue => exact ⟨hkeys, hkey, hvalue⟩

theorem NoDuplicateKeys.merged (ha : NoDuplicateKeys a) (hb : NoDuplicateKeys b) :
    NoDuplicateKeys (a.merged b) := by
  induction a using YamlTree.parts generalizing b with
  | node attrs content => exact hb
  | mapping style tag notes entries ih =>
    cases b with
    | node => exact hb
    | mapping style' tag' notes' overlay =>
      obtain ⟨hkeys, hkey, hvalue⟩ := ha.of_mapping
      obtain ⟨hkeys', hkey', hvalue'⟩ := hb.of_mapping
      rw [merged_mapping]
      refine .mapping ?_ (fun e he => ?_) (fun e he => ?_)
      · rw [keys_merged, List.nodup_append]
        refine ⟨hkeys, hkeys'.filter _, fun k hk k' hk' heq => ?_⟩
        exact absurd (heq ▸ hk) (by simpa using (List.mem_filter.mp hk').2)
      · obtain he | he := List.mem_append.mp he
        · obtain ⟨e', he', rfl⟩ := List.mem_map.mp he
          exact hkey e' he'
        · exact hkey' e (List.mem_of_mem_filter he)
      · obtain he | he := List.mem_append.mp he
        · obtain ⟨d, hd, rfl⟩ := List.mem_map.mp he
          rw [overlaid]
          cases hlookup : lookup overlay d.1.text with
          | none => exact hvalue d hd
          | some w =>
            obtain ⟨d', hd', -, rfl⟩ := mem_of_lookup hlookup
            exact (ih d hd).2 (hvalue d hd) (hvalue' d' hd')
        · exact hvalue' e (List.mem_of_mem_filter he)

theorem at_cons {path : List String} : a.at (key :: path) = some v ↔
    ∃ style tag notes entries w, a = .mapping style tag notes entries ∧
      lookup entries key = some w ∧ w.at path = some v := by
  cases a with
  | node => simp [YamlTree.at]
  | mapping style tag notes entries =>
    simp only [YamlTree.at, Option.bind_eq_some_iff, YamlTree.mapping.injEq]
    constructor
    · rintro ⟨w, hw, hv⟩
      exact ⟨style, tag, notes, entries, w, ⟨rfl, rfl, rfl, rfl⟩, hw, hv⟩
    · rintro ⟨_, _, _, _, w, ⟨rfl, rfl, rfl, rfl⟩, hw, hv⟩
      exact ⟨w, hw, hv⟩

private theorem at_merged_of_not_mappings {path : List String} (hb : b.at path = some w)
    (ha : ∀ v, a.at path = some v → ¬ (v.IsMapping ∧ w.IsMapping)) :
    (a.merged b).at path = some w := by
  induction path generalizing a b with
  | nil =>
    obtain rfl := Option.some.inj hb
    rw [merged_of_not_mapping (ha a rfl), YamlTree.at]
  | cons key path ih =>
    obtain ⟨style', tag', notes', overlay, w', rfl, hlookup, hw⟩ := at_cons.mp hb
    cases a with
    | node => exact hb
    | mapping style tag notes entries =>
      rw [merged_mapping, at_cons]
      cases hentry : lookup entries key with
      | none => exact ⟨_, _, _, _, w', rfl, by rw [lookup_merged, hentry, hlookup], hw⟩
      | some u =>
        refine ⟨_, _, _, _, u.merged w', rfl, by rw [lookup_merged, hentry, hlookup], ih hw ?_⟩
        intro v hv
        exact ha v (at_cons.mpr ⟨style, tag, notes, entries, u, rfl, hentry, hv⟩)

theorem at_merged_of_mappings {path : List String} (ha : a.at path = some v)
    (hb : b.at path = some w) : (a.merged b).at path = some (v.merged w) := by
  induction path generalizing a b with
  | nil =>
    obtain rfl := Option.some.inj ha
    obtain rfl := Option.some.inj hb
    rfl
  | cons key path ih =>
    obtain ⟨style, tag, notes, entries, u, rfl, hentry, hu⟩ := at_cons.mp ha
    obtain ⟨style', tag', notes', overlay, u', rfl, hlookup, hu'⟩ := at_cons.mp hb
    rw [merged_mapping, at_cons]
    exact ⟨_, _, _, _, u.merged u', rfl, by rw [lookup_merged, hentry, hlookup], ih hu hu'⟩

private theorem at_merged_of_none {path : List String} (hb : b.at path = none)
    (habove : ∀ above, above <+: path → ∀ v, b.at above = some v → v.IsMapping) :
    (a.merged b).at path = a.at path := by
  induction path generalizing a b with
  | nil => simp [YamlTree.at] at hb
  | cons key path ih =>
    have hmapping := habove [] (List.nil_prefix) b rfl
    cases b with
    | node => exact absurd hmapping id
    | mapping style' tag' notes' overlay =>
      cases a with
      | node => exact hb
      | mapping style tag notes entries =>
        rw [merged_mapping]
        simp only [YamlTree.at, lookup_merged] at hb ⊢
        cases hlookup : lookup overlay key with
        | none => cases lookup entries key <;> rfl
        | some w =>
          rw [hlookup, Option.bind_some] at hb
          cases lookup entries key with
          | none => exact hb
          | some u =>
            refine ih hb fun above hpre v hv => habove (key :: above) ?_ v ?_
            · exact List.cons_prefix_cons.mpr ⟨rfl, hpre⟩
            · simpa [YamlTree.at, hlookup] using hv

theorem overlayLaws (ha : NoDuplicateKeys a) (hb : NoDuplicateKeys b) :
    OverlayLaws a b (a.merged b) where
  noDuplicateKeys := ha.merged hb
  replaced _ _ := at_merged_of_not_mappings
  merged _ _ _ hv hw _ _ := at_merged_of_mappings hv hw
  kept _ := at_merged_of_none
  order path style style' tag tag' notes notes' entries overlay hv hw := by
    refine ⟨mergedEntries entries overlay, ?_, ?_⟩
    · rw [at_merged_of_mappings hv hw, merged_mapping]
    · simp [mergedEntries, overlaid, added, List.filter_map, Function.comp_def]

/-- An overlay adds nothing where all its keys are there. -/
theorem added_eq_nil (h : keys overlay ⊆ keys entries) : added entries overlay = [] := by
  rw [added, List.filter_eq_nil_iff]
  intro e he
  simpa using h (text_mem_keys he)

theorem bare_mapping (style : ℕ) (tag : String) (notes : Notes) (entries : Entries) :
    (YamlTree.mapping style tag notes entries).bare =
      .mapping style tag {} (entries.map fun e => (e.1, e.2.bare)) := by
  rw [YamlTree.bare, bare_entries]

/-- A tree merged into itself loses no more than the notes of its mappings. -/
theorem bare_merged_self (ha : NoDuplicateKeys a) : (a.merged a).bare = a.bare := by
  induction a using YamlTree.parts with
  | node => rfl
  | mapping style tag notes entries ih =>
    obtain ⟨hkeys, -, hvalue⟩ := ha.of_mapping
    rw [merged_mapping, bare_mapping, bare_mapping, mergedEntries,
      added_eq_nil (List.Subset.refl _), List.append_nil, List.map_map]
    congr 1
    refine List.map_congr_left fun e he => ?_
    rw [Function.comp_apply, overlaid, lookup_of_mem hkeys he]
    exact Prod.ext rfl ((ih e he).2 (hvalue e he))

/-- Merging an overlay once more loses no more than the notes of its mappings. -/
theorem bare_merged_merged (hb : NoDuplicateKeys b) :
    ((a.merged b).merged b).bare = (a.merged b).bare := by
  induction a using YamlTree.parts generalizing b with
  | node => exact bare_merged_self hb
  | mapping style tag notes entries ih =>
    cases b with
    | node => rfl
    | mapping style' tag' notes' overlay =>
      obtain ⟨hkeys', -, hvalue'⟩ := hb.of_mapping
      have hsubset : keys overlay ⊆ keys (mergedEntries entries overlay) := by
        intro key hkey
        rw [keys_merged, List.mem_append, List.mem_filter, decide_eq_true_iff]
        by_cases h : key ∈ keys entries
        · exact .inl h
        · exact .inr ⟨hkey, h⟩
      rw [merged_mapping, merged_mapping, bare_mapping, bare_mapping, mergedEntries,
        added_eq_nil hsubset, List.append_nil, List.map_map]
      congr 1
      refine List.map_congr_left fun e he => Prod.ext rfl ?_
      rw [Function.comp_apply, overlaid]
      obtain he | he := List.mem_append.mp he
      · obtain ⟨d, hd, rfl⟩ := List.mem_map.mp he
        rw [overlaid]
        cases hlookup : lookup overlay d.1.text with
        | none => rfl
        | some w =>
          obtain ⟨d', hd', -, rfl⟩ := mem_of_lookup hlookup
          exact (ih d hd).2 (hvalue' d' hd')
      · have hover := List.mem_of_mem_filter he
        rw [lookup_of_mem hkeys' hover]
        exact bare_merged_self (hvalue' e hover)

end Statnive.YamlTrees
