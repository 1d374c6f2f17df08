import Statnive.NestedText
import Statnive.StoreQueries

/-!
# The text of an ORDER BY clause

A whitelist maps the names that a request may sort by to expressions, and the direction is put
behind each term of an expression. Strings are their bytes here; the terms of `StoreQueries` have
the text that `orderClause_text` gives.
-/

namespace Statnive.OrderClause

open DashboardFilter NestedText
open PrivacyPolicy (Bytes)
open VisitorIdentity (utf8)

/-- The encodings of the runes of `unicode.IsSpace`. -/
def spaces : List Bytes :=
  ([0x09, 0x0A, 0x0B, 0x0C, 0x0D, 0x20, 0x85, 0xA0, 0x1680, 0x2000, 0x2001, 0x2002, 0x2003, 0x2004,
    0x2005, 0x2006, 0x2007, 0x2008, 0x2009, 0x200A, 0x2028, 0x2029, 0x202F, 0x205F, 0x3000].map
    Char.ofNat).map String.utf8EncodeChar

/-- A text without the white space that it starts with, of which there are at most `n`. -/
def trimStart (spaces : List Bytes) : ℕ → Bytes → Bytes
  | 0, s => s
  | n + 1, s => match spaces.find? (·.isPrefixOf s) with
    | none => s
    | some space => trimStart spaces n (s.drop space.length)

def trimSpace (s : Bytes) : Bytes :=
  let t := trimStart spaces s.length s
  (trimStart (spaces.map List.reverse) t.length t.reverse).reverse

/-- `strings.Join` with a comma and a space. -/
def joinTerms (terms : List Bytes) : Bytes := [0x2C, 0x20].intercalate terms

structure Cut where
  out : List Bytes
  depth : ℤ
  start : ℕ

/-- The byte at `i` is `(`, `)` or `,`. -/
def cutAt (s : Bytes) (c : Cut) (i : ℕ) : Cut :=
  match s[i]? with
  | some 0x28 => { c with depth := c.depth + 1 }
  | some 0x29 => { c with depth := c.depth - 1 }
  | some 0x2C =>
    if c.depth = 0 then { c with out := c.out ++ [(s.take i).drop c.start], start := i + 1 } else c
  | _ => c

def splitTopLevelCommas (s : Bytes) : List Bytes :=
  let c := (List.range s.length).foldl (cutAt s) ⟨[], 0, 0⟩
  c.out ++ [s.drop c.start]

def direction (f : Filter) : Bytes := if f.dir = "asc" then utf8 "ASC" else utf8 "DESC"

/-- A term with the direction behind it. -/
def directed (dir part : Bytes) : Bytes := trimSpace part ++ [0x20] ++ dir

def orderClause (f : Filter) (allowed : String → Option Bytes) (fallback : Bytes) : Bytes :=
  match allowed f.sort with
  | none => utf8 "ORDER BY " ++ fallback
  | some expr =>
    utf8 "ORDER BY " ++ joinTerms ((splitTopLevelCommas expr).map (directed (direction f)))

def parenWeight (b : UInt8) : ℤ := if b = 0x28 then 1 else if b = 0x29 then -1 else 0

abbrev BalancedParens (s : Bytes) : Prop := Balanced parenWeight s

/-- No comma stands outside all parentheses. -/
abbrev NoTopLevelComma (s : Bytes) : Prop := Uncut parenWeight 0x2C s

def isWordByte (b : UInt8) : Bool :=
  (0x30 ≤ b && b ≤ 0x39) || (0x41 ≤ b && b ≤ 0x5A) || b = 0x5F || (0x61 ≤ b && b ≤ 0x7A)

def lower (b : UInt8) : UInt8 := if 0x41 ≤ b && b ≤ 0x5A then b + 0x20 else b

/-- A word is a direction in whichever case it is written. -/
def isDirection (word : Bytes) : Bool :=
  ["asc", "desc", "ascending", "descending"].any fun d => word.map lower = utf8 d

/-- The directions in a text, in their order. -/
def directions (s : Bytes) : List Bytes := (s.splitOnP fun b => !isWordByte b).filter isDirection

example : directions (utf8 "views DESC, description asc") = [utf8 "DESC", utf8 "asc"] := by
  decide +kernel

private theorem cutAt_eq {s : Bytes} {i : ℕ} {b : UInt8} (h : s[i]? = some b) (c : Cut) :
    cutAt s c i = if b = 0x2C ∧ c.depth = 0 then
      { c with out := c.out ++ [(s.take i).drop c.start], start := i + 1 }
    else { c with depth := c.depth + parenWeight b } := by
  simp only [cutAt, h]
  split
  next heq =>
    obtain rfl := Option.some.inj heq
    rfl
  next heq =>
    obtain rfl := Option.some.inj heq
    rfl
  next heq =>
    obtain rfl := Option.some.inj heq
    by_cases hdepth : c.depth = 0
    · simp [hdepth]
    · simp [hdepth, parenWeight]
  next hopen hclose hcomma =>
    have hopen : b ≠ 0x28 := fun heq => hopen (heq ▸ rfl)
    have hclose : b ≠ 0x29 := fun heq => hclose (heq ▸ rfl)
    have hcomma : b ≠ 0x2C := fun heq => hcomma (heq ▸ rfl)
    simp [parenWeight, hopen, hclose, hcomma]

/-- After `n` bytes the parts that are cut off, with the cuts of what is left, are the cuts. -/
theorem cuts_after (s : Bytes) {n : ℕ} (hn : n ≤ s.length) :
    ∃ c, (List.range n).foldl (cutAt s) ⟨[], 0, 0⟩ = c ∧ c.start ≤ n ∧
      c.out ++ cutFrom parenWeight 0x2C c.depth ((s.take n).drop c.start) (s.drop n) =
        cut parenWeight 0x2C s := by
  induction n with
  | zero => exact ⟨_, rfl, le_rfl, rfl⟩
  | succ n ih =>
    obtain ⟨c, hc, hstart, hcuts⟩ := ih (by omega)
    have hget : s[n]? = some s[n] := List.getElem?_eq_getElem hn
    have hpart : (s.take (n + 1)).drop c.start = (s.take n).drop c.start ++ [s[n]] := by
      have hle : c.start ≤ (s.take n).length := by
        rw [List.length_take]
        omega
      rw [List.take_add_one, hget, List.drop_append_of_le_length hle]
      rfl
    rw [List.drop_eq_getElem_cons hn, cutFrom] at hcuts
    refine ⟨_, by rw [List.range_succ, List.foldl_append, hc], ?_⟩
    rw [List.foldl_cons, List.foldl_nil, cutAt_eq hget]
    split_ifs at hcuts ⊢ with hcomma
    · refine ⟨le_rfl, ?_⟩
      rw [hcomma.2] at hcuts ⊢
      simpa using hcuts
    · exact ⟨by simp only; omega, by simpa only [hpart] using hcuts⟩

theorem splitTopLevelCommas_eq (s : Bytes) : splitTopLevelCommas s = cut parenWeight 0x2C s := by
  obtain ⟨c, hc, -, hcuts⟩ := cuts_after s le_rfl
  rw [splitTopLevelCommas, hc, ← hcuts]
  simp [cutFrom]

/-- The bytes of white space. -/
def IsBlank (b : UInt8) : Prop := ∃ space ∈ spaces, b ∈ space

theorem IsBlank.plain {b : UInt8} (h : IsBlank b) :
    parenWeight b = 0 ∧ b ≠ 0x2C ∧ isWordByte b = false := by
  obtain ⟨space, hspace, hb⟩ := h
  have hall : spaces.all (fun space => space.all fun b =>
      parenWeight b = 0 ∧ b ≠ 0x2C ∧ isWordByte b = false) = true := by decide +kernel
  simp only [List.all_eq_true, decide_eq_true_eq] at hall
  exact hall space hspace b hb

theorem trimStart_spec (spaces : List Bytes) (n : ℕ) (s : Bytes) :
    ∃ a, s = a ++ trimStart spaces n s ∧ ∀ b ∈ a, ∃ space ∈ spaces, b ∈ space := by
  induction n generalizing s with
  | zero => exact ⟨[], rfl, by simp⟩
  | succ n ih =>
    rw [trimStart]
    cases hfind : spaces.find? (·.isPrefixOf s) with
    | none => exact ⟨[], rfl, by simp⟩
    | some space =>
      have hprefix : space.isPrefixOf s = true :=
        List.find?_some (p := fun t : Bytes => t.isPrefixOf s) hfind
      obtain ⟨rest, rfl⟩ := List.isPrefixOf_iff_prefix.mp hprefix
      obtain ⟨a, ha, hblank⟩ := ih rest
      refine ⟨space ++ a, by simpa using ha, fun b hb => ?_⟩
      obtain hb | hb := List.mem_append.mp hb
      · exact ⟨space, List.mem_of_find?_eq_some hfind, hb⟩
      · exact hblank b hb

theorem trimSpace_spec (s : Bytes) :
    ∃ a c, s = a ++ trimSpace s ++ c ∧ (∀ b ∈ a, IsBlank b) ∧ ∀ b ∈ c, IsBlank b := by
  obtain ⟨a, ha, hblank⟩ := trimStart_spec spaces s.length s
  obtain ⟨c, hc, hblank'⟩ := trimStart_spec (spaces.map List.reverse)
    (trimStart spaces s.length s).length (trimStart spaces s.length s).reverse
  refine ⟨a, c.reverse, ?_, hblank, fun b hb => ?_⟩
  · have hrev := congrArg List.reverse hc
    rw [List.reverse_reverse, List.reverse_append] at hrev
    rw [List.append_assoc, trimSpace, ← hrev]
    exact ha
  · obtain ⟨_, hreversed, hmem⟩ := hblank' b (List.mem_reverse.mp hb)
    obtain ⟨space, hspace, rfl⟩ := List.mem_map.mp hreversed
    exact ⟨space, hspace, List.mem_reverse.mp hmem⟩

theorem depth_blank {a : Bytes} (h : ∀ b ∈ a, IsBlank b) : depth parenWeight a = 0 :=
  depth_eq_zero fun b hb => (h b hb).plain.1

private theorem depth_trimSpace (s : Bytes) : depth parenWeight (trimSpace s) =
    depth parenWeight s := by
  obtain ⟨a, c, hs, ha, hc⟩ := trimSpace_spec s
  conv_rhs => rw [hs]
  rw [depth_append, depth_append, depth_blank ha, depth_blank hc, zero_add, add_zero]

private theorem uncut_trimSpace {s : Bytes} (h : NoTopLevelComma s) :
    NoTopLevelComma (trimSpace s) := by
  obtain ⟨a, c, hs, ha, -⟩ := trimSpace_spec s
  exact Uncut.piece (hs ▸ h) (depth_blank ha)

theorem directions_append_cons (s t : Bytes) {b : UInt8} (hb : isWordByte b = false) :
    directions (s ++ b :: t) = directions s ++ directions t := by
  rw [directions, List.splitOnP_append_cons _ _ (by simp [hb]), List.filter_append]
  rfl

theorem directions_blank_append {a : Bytes} (h : ∀ b ∈ a, isWordByte b = false) (s : Bytes) :
    directions (a ++ s) = directions s := by
  induction a with
  | nil => rfl
  | cons b a ih =>
    obtain ⟨hb, ha⟩ := List.forall_mem_cons.mp h
    have hcons := directions_append_cons [] (a ++ s) hb
    rw [List.nil_append] at hcons
    rw [List.cons_append, hcons, ih ha]
    rfl

private theorem directions_append_blank
    {c : Bytes} (h : ∀ b ∈ c, isWordByte b = false) (s : Bytes) :
    directions (s ++ c) = directions s := by
  cases c with
  | nil => rw [List.append_nil]
  | cons b c =>
    obtain ⟨hb, hc⟩ := List.forall_mem_cons.mp h
    have hnone := directions_blank_append hc []
    rw [List.append_nil] at hnone
    rw [directions_append_cons s c hb, hnone]
    exact List.append_nil _

private theorem directions_trimSpace (s : Bytes) : directions (trimSpace s) = directions s := by
  obtain ⟨a, c, hs, ha, hc⟩ := trimSpace_spec s
  conv_rhs => rw [hs]
  rw [directions_append_blank fun b hb => (hc b hb).plain.2.2,
    directions_blank_append fun b hb => (ha b hb).plain.2.2]

/-- The directions of a text are those of its parts. -/
theorem directions_join (ps : List Bytes) :
    directions ([0x2C].intercalate ps) = ps.flatMap directions := by
  induction ps with
  | nil => rfl
  | cons p ps ih =>
    cases ps with
    | nil => simp
    | cons q ps =>
      rw [List.intercalate_cons_cons, List.append_assoc, List.singleton_append,
        directions_append_cons _ _ (by decide), ih]
      rfl

private theorem directions_direction (f : Filter) : directions (direction f) = [direction f] := by
  rw [direction]
  split_ifs <;> decide +kernel

/-- A term without a direction has the one that is put behind it, and no other. -/
theorem directions_directed (f : Filter) {p : Bytes} (h : directions p = []) :
    directions (directed (direction f) p) = [direction f] := by
  rw [directed, List.append_assoc, List.singleton_append, directions_append_cons _ _ (by decide),
    directions_trimSpace, h, directions_direction, List.nil_append]

theorem join_spaced {terms : List Bytes} (h : terms ≠ []) :
    [0x2C].intercalate (terms.map (0x20 :: ·)) = 0x20 :: joinTerms terms := by
  induction terms with
  | nil => exact absurd rfl h
  | cons t terms ih =>
    cases terms with
    | nil => simp [joinTerms]
    | cons t' terms =>
      rw [joinTerms, List.intercalate_cons_cons, List.map_cons, List.map_cons,
        List.intercalate_cons_cons, ← List.map_cons, ih (by simp), joinTerms]
      simp

theorem plain_direction (f : Filter) :
    ∀ b ∈ 0x20 :: direction f, parenWeight b = 0 ∧ b ≠ 0x2C := by
  have hall : ([utf8 "ASC", utf8 "DESC"].all fun dir => (0x20 :: dir).all fun b =>
      parenWeight b = 0 ∧ b ≠ 0x2C) = true := by decide +kernel
  simp only [List.all_eq_true, decide_eq_true_eq] at hall
  refine hall (direction f) ?_
  rw [direction]
  split_ifs <;> simp

private theorem depth_directed (f : Filter) (p : Bytes) :
    depth parenWeight (0x20 :: directed (direction f) p) = depth parenWeight p := by
  have hdirection : depth parenWeight (0x20 :: direction f) = 0 :=
    depth_eq_zero fun b hb => (plain_direction f b hb).1
  rw [directed, List.append_assoc, List.singleton_append, depth, depth_append, depth_trimSpace,
    hdirection, add_zero]
  exact zero_add _

theorem uncut_space {s : Bytes} (h : NoTopLevelComma s) : NoTopLevelComma (0x20 :: s) := by
  intro before after hsplit
  cases before with
  | nil => cases (List.cons.inj hsplit).1
  | cons b before =>
    obtain ⟨rfl, hrest⟩ := List.cons.inj hsplit
    have hdepth := h before after hrest
    rwa [depth, show parenWeight 0x20 = 0 from rfl, zero_add]

private theorem uncut_directed (f : Filter) {p : Bytes} (h : NoTopLevelComma p) :
    NoTopLevelComma (0x20 :: directed (direction f) p) := by
  have htrim : NoTopLevelComma (trimSpace p ++ 0x20 :: direction f) :=
    (uncut_trimSpace h).append fun hmem => (plain_direction f _ hmem).2 rfl
  rw [directed, List.append_assoc, List.singleton_append]
  exact uncut_space htrim

/-- The terms of a clause are those of the expression, each with the direction behind it. -/
theorem splitTopLevelCommas_clause (f : Filter) (expr : Bytes) :
    splitTopLevelCommas
        (0x20 :: joinTerms ((splitTopLevelCommas expr).map (directed (direction f)))) =
      (splitTopLevelCommas expr).map fun p => 0x20 :: directed (direction f) p := by
  have hne : (splitTopLevelCommas expr).map (directed (direction f)) ≠ [] := by
    simpa [splitTopLevelCommas_eq] using cut_ne_nil expr
  rw [← join_spaced hne, List.map_map, splitTopLevelCommas_eq, splitTopLevelCommas_eq]
  refine cut_join (by simpa using cut_ne_nil expr) ?_ ?_
  · intro t ht
    obtain ⟨p, hp, rfl⟩ := List.mem_map.mp ht
    exact uncut_directed f (uncut_cut expr p hp)
  · intro t ht
    rw [← List.map_dropLast] at ht
    obtain ⟨p, hp, rfl⟩ := List.mem_map.mp ht
    exact (depth_directed f p).trans (depth_cut expr p hp)

def revenuePerVisitor : Bytes := utf8 "if(visitors > 0, revenue / visitors, 0)"

def byRate : Filter := { siteID := 1, fromTime := 0, toTime := 0, sort := "rpv", dir := "asc" }

open StoreQueries (SortKey OrderTerm Sortable)

def keyText : SortKey → Bytes
  | .views => utf8 "views"
  | .visitors => utf8 "visitors"
  | .goals => utf8 "goals"
  | .revenue => utf8 "revenue"
  | .rpv => revenuePerVisitor
  | .pathname => utf8 "pathname"
  | .referrerName => utf8 "referrer_name"
  | .channel => utf8 "channel"
  | .utmCampaign => utf8 "utm_campaign"
  | .countryCode => utf8 "country_code"
  | .province => utf8 "province"
  | .city => utf8 "city"

def termText (t : OrderTerm) : Bytes :=
  keyText t.key ++ [0x20] ++ if t.descending then utf8 "DESC" else utf8 "ASC"

/-- The expression of a whitelist. -/
def exprText (keys : List SortKey) : Bytes := joinTerms (keys.map keyText)

example : (StoreQueries.metricsSortable "revenue").map exprText =
    some (utf8 "revenue, visitors") := by
  decide +kernel

theorem keyText_spec (key : SortKey) : trimSpace (keyText key) = keyText key ∧
    trimSpace (0x20 :: keyText key) = keyText key ∧ BalancedParens (keyText key) := by
  cases key <;> decide +kernel

theorem noTopLevelComma_keyText (key : SortKey) : NoTopLevelComma (keyText key) := by
  have hcut : splitTopLevelCommas (keyText key) = [keyText key] := by
    cases key <;> decide +kernel
  rw [splitTopLevelCommas_eq] at hcut
  exact uncut_cut (keyText key) _ (hcut ▸ List.mem_singleton_self _)

private theorem split_exprText (key : SortKey) (keys : List SortKey) :
    splitTopLevelCommas (exprText (key :: keys)) =
      keyText key :: keys.map fun k => 0x20 :: keyText k := by
  have hjoin : exprText (key :: keys) =
      [0x2C].intercalate (keyText key :: keys.map fun k => 0x20 :: keyText k) := by
    cases keys with
    | nil => simp [exprText, joinTerms]
    | cons k keys =>
      have hspaced : [0x2C].intercalate (((k :: keys).map keyText).map (0x20 :: ·)) =
          0x20 :: joinTerms ((k :: keys).map keyText) := join_spaced (by simp)
      rw [List.map_map] at hspaced
      rw [exprText, List.map_cons, joinTerms, List.map_cons, List.intercalate_cons_cons,
        List.map_cons, List.intercalate_cons_cons]
      simp only [List.append_assoc]
      congr 1
      exact congrArg ([0x2C] ++ ·) hspaced.symm
  rw [splitTopLevelCommas_eq, hjoin]
  refine cut_join (by simp) ?_ fun p hp => ?_
  · refine List.forall_mem_cons.mpr ⟨noTopLevelComma_keyText key, fun p hp => ?_⟩
    obtain ⟨k, -, rfl⟩ := List.mem_map.mp hp
    exact uncut_space (noTopLevelComma_keyText k)
  · obtain rfl | hp := List.mem_cons.mp (List.mem_of_mem_dropLast hp)
    · exact (keyText_spec key).2.2.settled
    · obtain ⟨k, -, rfl⟩ := List.mem_map.mp hp
      exact (zero_add _).trans (keyText_spec k).2.2.settled

/-- The clause is the text of the terms that a query is ordered by. -/
theorem orderClause_text (f : Filter) {allowed : Sortable}
    (hne : ∀ name keys, allowed name = some keys → keys ≠ []) (fallback : List SortKey) :
    orderClause f (fun name => (allowed name).map exprText)
        (joinTerms (fallback.map fun key => termText ⟨key, true⟩)) =
      utf8 "ORDER BY " ++
        joinTerms ((StoreQueries.orderClause f allowed fallback).map termText) := by
  have hterm (key : SortKey) (s : Bytes) (hs : trimSpace s = keyText key) :
      directed (direction f) s = termText ⟨key, f.dir ≠ "asc"⟩ := by
    rw [directed, hs, direction, termText]
    by_cases hdir : f.dir = "asc" <;> simp [hdir]
  cases hkeys : allowed f.sort with
  | none =>
    simp only [orderClause, StoreQueries.orderClause, hkeys, Option.map_none, List.map_map]
    rfl
  | some keys =>
    obtain ⟨key, keys, rfl⟩ := List.exists_cons_of_ne_nil (hne f.sort keys hkeys)
    simp only [orderClause, StoreQueries.orderClause, hkeys, Option.map_some, split_exprText,
      List.map_cons, List.map_map, hterm key _ (keyText_spec key).1]
    congr 4
    funext k
    exact hterm k _ (keyText_spec k).2.1

end Statnive.OrderClause
