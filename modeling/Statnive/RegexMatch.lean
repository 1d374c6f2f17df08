import Mathlib.Algebra.Order.BigOperators.Group.List
import Mathlib.Algebra.Ring.Nat
import Mathlib.Data.List.Infix
import Mathlib.Data.List.Nodup
import Mathlib.Data.List.Perm.Subperm
import Mathlib.Tactic.Common

/-!
# Patterns and what they replace

The matches of a pattern at a place are listed in the order in which a leftmost-first engine
prefers them, and `replaceAll` replaces the first one at each place, from the left. The elements
of the text may carry more than their characters.
-/

namespace Statnive.RegexMatch

/-- A place in a text: the character before it, and what is behind it. -/
@[ext]
structure Place where
  prev : Option Char
  rest : List Char
  deriving DecidableEq

/-- Only a class of characters is repeated, as often as possible when it is greedy. -/
inductive Regex where
  | empty
  | one (p : Char → Bool)
  | boundary
  | many (greedy : Bool) (p : Char → Bool)
  | alt (r s : Regex)
  | seq (r s : Regex)

namespace Regex

def isWord (c : Char) : Bool := c.isAlphanum || c = '_'

/-- One side of the place is a word character and the other is not. -/
def atBoundary (x : Place) : Bool := x.prev.any isWord != x.rest.head?.any isWord

/-- The places behind some characters of the class, the nearest first. -/
def run (p : Char → Bool) : Option Char → List Char → List Place
  | prev, [] => [⟨prev, []⟩]
  | prev, c :: cs => ⟨prev, c :: cs⟩ :: if p c then run p (some c) cs else []

/-- The places where a match that starts here ends, in the order of preference. -/
def ends : Regex → Place → List Place
  | empty, x => [x]
  | one p, x => match x.rest with
    | [] => []
    | c :: cs => if p c then [⟨some c, cs⟩] else []
  | boundary, x => if atBoundary x then [x] else []
  | many greedy p, x =>
    if greedy then (run p x.prev x.rest).reverse else run p x.prev x.rest
  | alt r s, x => ends r x ++ ends s x
  | seq r s, x => (ends r x).flatMap (ends s)

/-- The classes of the characters, one after another, and then `r`. -/
def word (p : Char → Char → Bool) (s : String) (r : Regex) : Regex :=
  s.toList.foldr (fun c r => seq (one (p c)) r) r

def text (s : String) (r : Regex) : Regex := word (fun c d => d = c) s r

def opt (r : Regex) : Regex := alt r empty

def times (p : Char → Bool) : ℕ → Regex → Regex
  | 0, r => r
  | n + 1, r => seq (one p) (times p n r)

def atLeast (p : Char → Bool) (n : ℕ) (r : Regex) : Regex := times p n (seq (many true p) r)

/-- The pattern matches the whole text. -/
def Reads (r : Regex) (u : List Char) : Prop := ∃ prev, ⟨prev, []⟩ ∈ r.ends ⟨none, u⟩

/-- The pattern matches somewhere at or behind the place. -/
def search (r : Regex) : Option Char → List Char → Bool
  | prev, [] => !(r.ends ⟨prev, []⟩).isEmpty
  | prev, c :: cs => !(r.ends ⟨prev, c :: cs⟩).isEmpty || search r (some c) cs

def matchString (r : Regex) (t : List Char) : Bool := search r none t

/-- `n` bounds the replacements from here; a match is not empty. -/
def replaceFrom {α : Type*} (r : Regex) (f : α → Char) (rep : List α) :
    ℕ → Option Char → List α → List α
  | 0, _, as => as
  | _ + 1, _, [] => []
  | n + 1, prev, a :: as => match (r.ends ⟨prev, (a :: as).map f⟩).head? with
    | none => a :: replaceFrom r f rep n (some (f a)) as
    | some x =>
      rep ++ replaceFrom r f rep n x.prev ((a :: as).drop ((a :: as).length - x.rest.length))

def replaceAll {α : Type*} (r : Regex) (f : α → Char) (rep as : List α) : List α :=
  replaceFrom r f rep as.length none as

/-- A bound from below for the length of a match. -/
def minLength : Regex → ℕ
  | empty | boundary | many _ _ => 0
  | one _ => 1
  | alt r s => min r.minLength s.minLength
  | seq r s => r.minLength + s.minLength

/-- Some class of the pattern has the character. -/
def allows : Regex → Char → Bool
  | empty, _ | boundary, _ => false
  | one p, c | many _ p, c => p c
  | alt r s, c | seq r s, c => r.allows c || s.allows c

/-- The pattern has no boundaries. -/
def plain : Regex → Bool
  | boundary => false
  | empty | one _ | many _ _ => true
  | alt r s | seq r s => r.plain && s.plain

variable {r s : Regex} {p q : Char → Bool} {greedy : Bool} {x y : Place} {prev : Option Char}
  {t u v : List Char}

theorem mem_run : y ∈ run p prev t ↔
    ∃ u, t = u ++ y.rest ∧ (∀ c ∈ u, p c = true) ∧ y.prev = u.getLast?.or prev := by
  induction t generalizing prev with
  | nil =>
    rw [run, List.mem_singleton]
    constructor
    · rintro rfl
      exact ⟨[], rfl, by simp, rfl⟩
    · rintro ⟨u, hu, -, hprev⟩
      obtain ⟨rfl, hrest⟩ := List.append_eq_nil_iff.mp hu.symm
      exact Place.ext hprev hrest
  | cons c cs ih =>
    rw [run, List.mem_cons]
    constructor
    · rintro (rfl | hy)
      · exact ⟨[], rfl, by simp, rfl⟩
      · split at hy
        next hc =>
          obtain ⟨u, rfl, hu, hprev⟩ := ih.mp hy
          refine ⟨c :: u, rfl, by simpa [hc] using hu, ?_⟩
          rw [hprev]
          cases u with
          | nil => rfl
          | cons d u => simp [List.getLast?_cons]
        next => simp at hy
    · rintro ⟨u, hu, hall, hprev⟩
      cases u with
      | nil => exact .inl (Place.ext hprev hu.symm)
      | cons d u =>
        obtain ⟨rfl, rfl⟩ := List.cons.inj hu
        right
        rw [if_pos (hall c (by simp))]
        refine ih.mpr ⟨u, rfl, fun d hd => hall d (by simp [hd]), ?_⟩
        rw [hprev]
        cases u with
        | nil => rfl
        | cons d u => simp [List.getLast?_cons]

theorem mem_ends_many : y ∈ (many greedy p).ends x ↔ y ∈ run p x.prev x.rest := by
  cases greedy with
  | true => simp [ends]
  | false => simp [ends]

theorem mem_ends_one : y ∈ (one p).ends x ↔
    ∃ c, x.rest = c :: y.rest ∧ p c = true ∧ y.prev = some c := by
  obtain ⟨prev, rest⟩ := x
  obtain ⟨prev', rest'⟩ := y
  cases rest with
  | nil => simp [ends]
  | cons c cs =>
    by_cases hc : p c = true
    · simp only [ends, hc, if_true, List.mem_singleton, Place.mk.injEq, List.cons.injEq]
      constructor
      · rintro ⟨rfl, rfl⟩
        exact ⟨c, ⟨rfl, rfl⟩, hc, rfl⟩
      · rintro ⟨d, ⟨rfl, rfl⟩, -, rfl⟩
        exact ⟨rfl, rfl⟩
    · simp only [ends, hc, Bool.false_eq_true, if_false, List.not_mem_nil, false_iff]
      rintro ⟨d, hd, hd', -⟩
      obtain ⟨rfl, -⟩ := List.cons.inj hd
      exact hc hd'

theorem mem_ends_boundary : y ∈ boundary.ends x ↔ atBoundary x = true ∧ y = x := by
  rw [ends]
  split
  next h => simp [h]
  next h => simp [h]

theorem mem_ends_seq : y ∈ (r.seq s).ends x ↔ ∃ m ∈ r.ends x, y ∈ s.ends m := List.mem_flatMap

/-- What a match takes from the text. -/
theorem consumes (h : y ∈ r.ends x) : ∃ u, x.rest = u ++ y.rest ∧
    (∀ c ∈ u, r.allows c = true) ∧ r.minLength ≤ u.length := by
  induction r generalizing x y with
  | empty =>
    obtain rfl := List.mem_singleton.mp h
    exact ⟨[], rfl, by simp, le_refl _⟩
  | one p =>
    obtain ⟨c, hrest, hc, -⟩ := mem_ends_one.mp h
    exact ⟨[c], hrest, by simpa [allows] using hc, le_refl _⟩
  | boundary =>
    obtain ⟨-, rfl⟩ := mem_ends_boundary.mp h
    exact ⟨[], rfl, by simp, le_refl _⟩
  | many greedy p =>
    obtain ⟨u, hrest, hall, -⟩ := mem_run.mp (mem_ends_many.mp h)
    exact ⟨u, hrest, hall, Nat.zero_le _⟩
  | alt r s ihr ihs =>
    obtain h | h := List.mem_append.mp h
    · obtain ⟨u, hrest, hall, hlen⟩ := ihr h
      exact ⟨u, hrest, fun c hc => by simp [allows, hall c hc], (min_le_left _ _).trans hlen⟩
    · obtain ⟨u, hrest, hall, hlen⟩ := ihs h
      exact ⟨u, hrest, fun c hc => by simp [allows, hall c hc], (min_le_right _ _).trans hlen⟩
  | seq r s ihr ihs =>
    obtain ⟨m, hm, hy⟩ := List.mem_flatMap.mp h
    obtain ⟨u, hu, hallu, hlenu⟩ := ihr hm
    obtain ⟨v, hv, hallv, hlenv⟩ := ihs hy
    refine ⟨u ++ v, by rw [hu, hv, List.append_assoc], fun c hc => ?_, ?_⟩
    · obtain hc | hc := List.mem_append.mp hc
      · simp [allows, hallu c hc]
      · simp [allows, hallv c hc]
    · rw [minLength, List.length_append]
      exact Nat.add_le_add hlenu hlenv

/-- The character before the end of a match is the last that it takes. -/
theorem prev_of_mem (h : y ∈ r.ends x) (hu : x.rest = u ++ y.rest) :
    y.prev = u.getLast?.or x.prev := by
  induction r generalizing x y u with
  | empty =>
    obtain rfl := List.mem_singleton.mp h
    rw [List.self_eq_append_left.mp hu]
    rfl
  | one p =>
    obtain ⟨c, hrest, -, hprev⟩ := mem_ends_one.mp h
    rw [hu, ← List.singleton_append, List.append_cancel_right_eq] at hrest
    rw [hprev, hrest]
    rfl
  | boundary =>
    obtain ⟨-, rfl⟩ := mem_ends_boundary.mp h
    rw [List.self_eq_append_left.mp hu]
    rfl
  | many greedy p =>
    obtain ⟨v, hv, -, hprev⟩ := mem_run.mp (mem_ends_many.mp h)
    rw [hu, List.append_cancel_right_eq] at hv
    rw [hprev, hv]
  | alt r s ihr ihs =>
    obtain h | h := List.mem_append.mp h
    · exact ihr h hu
    · exact ihs h hu
  | seq r s ihr ihs =>
    obtain ⟨m, hm, hy⟩ := mem_ends_seq.mp h
    obtain ⟨v, hv, -, -⟩ := consumes hm
    obtain ⟨v', hv', -, -⟩ := consumes hy
    rw [hu, hv', ← List.append_assoc, List.append_cancel_right_eq] at hv
    rw [ihs hy hv', ihr hm (by rw [hu, hv', hv, List.append_assoc]), hv, List.getLast?_append]
    cases v'.getLast? <;> rfl

theorem mem_ends_text {w : String} : y ∈ (text w r).ends x ↔
    ∃ m, x.rest = w.toList ++ m.rest ∧ m.prev = w.toList.getLast?.or x.prev ∧ y ∈ r.ends m := by
  rw [text, word]
  generalize w.toList = cs
  induction cs generalizing x with
  | nil =>
    rw [List.foldr_nil]
    constructor
    · exact fun h => ⟨x, rfl, rfl, h⟩
    · rintro ⟨m, hrest, hprev, hm⟩
      rwa [Place.ext hprev.symm hrest]
  | cons c cs ih =>
    rw [List.foldr_cons, mem_ends_seq]
    simp only [mem_ends_one, decide_eq_true_eq, ih]
    constructor
    · rintro ⟨m, ⟨_, hrest, rfl, hprev⟩, m', hrest', hprev', hy⟩
      refine ⟨m', by rw [hrest, hrest', List.cons_append], ?_, hy⟩
      rw [hprev', hprev, List.getLast?_cons]
      cases cs.getLast? <;> rfl
    · rintro ⟨m, hrest, hprev, hy⟩
      refine ⟨⟨some c, cs ++ m.rest⟩, ⟨c, hrest, rfl, rfl⟩, m, rfl, ?_, hy⟩
      rw [hprev, List.getLast?_cons]
      cases cs.getLast? <;> rfl

/-- What stands behind the end of a match does not matter, unless a boundary may be there. -/
theorem mem_ends_append {prev' : Option Char} (post : List Char) (h : u ≠ [] ∨ r.plain = true) :
    ⟨prev', u ++ post⟩ ∈ r.ends ⟨prev, t ++ post⟩ ↔ ⟨prev', u⟩ ∈ r.ends ⟨prev, t⟩ := by
  induction r generalizing prev prev' t u with
  | empty => simp [ends]
  | one p =>
    rw [mem_ends_one, mem_ends_one]
    simp only [← List.cons_append, List.append_cancel_right_eq]
  | boundary =>
    have hu : u ≠ [] := h.resolve_right (by simp [plain])
    rw [mem_ends_boundary, mem_ends_boundary]
    simp only [Place.mk.injEq, List.append_cancel_right_eq]
    refine and_congr_left fun h => ?_
    obtain rfl : u = t := h.2
    have hhead : (u ++ post).head? = u.head? := by
      cases u with
      | nil => exact absurd rfl hu
      | cons c cs => rfl
    rw [atBoundary, atBoundary, hhead]
  | many greedy p =>
    rw [mem_ends_many, mem_ends_many, mem_run, mem_run]
    simp only [← List.append_assoc, List.append_cancel_right_eq]
  | alt r s ihr ihs =>
    have hr : u ≠ [] ∨ r.plain = true := h.imp_right fun h => by simp_all [plain]
    have hs : u ≠ [] ∨ s.plain = true := h.imp_right fun h => by simp_all [plain]
    simp only [ends, List.mem_append, ihr hr, ihs hs]
  | seq r s ihr ihs =>
    have hs : u ≠ [] ∨ s.plain = true := h.imp_right fun h => by simp_all [plain]
    have hr (v : List Char) : v ++ u ≠ [] ∨ r.plain = true := by
      obtain h | h := h
      · exact .inl (by simp [h])
      · exact .inr (by simp_all [plain])
    rw [mem_ends_seq, mem_ends_seq]
    constructor
    · rintro ⟨m, hm, hend⟩
      obtain ⟨v, hv, -, -⟩ := consumes hend
      obtain ⟨mprev, mrest⟩ := m
      obtain rfl : mrest = (v ++ u) ++ post := by simpa using hv
      exact ⟨_, (ihr (hr v)).mp hm, (ihs hs).mp hend⟩
    · rintro ⟨m, hm, hend⟩
      obtain ⟨v, hv, -, -⟩ := consumes hend
      obtain ⟨mprev, mrest⟩ := m
      obtain rfl : mrest = v ++ u := hv
      exact ⟨⟨mprev, (v ++ u) ++ post⟩, (ihr (hr v)).mpr hm, (ihs hs).mpr hend⟩

/-- A stretch of a text is matched exactly when it is matched alone. -/
def Local (r : Regex) : Prop :=
  ∀ prev u post, (∃ prev', ⟨prev', post⟩ ∈ r.ends ⟨prev, u ++ post⟩) ↔ r.Reads u

/-- The first character of a match makes the one before it irrelevant. -/
theorem ends_one_seq (prev prev' : Option Char) (t : List Char) :
    ((one p).seq r).ends ⟨prev, t⟩ = ((one p).seq r).ends ⟨prev', t⟩ := by
  cases t with
  | nil => rfl
  | cons c cs => rfl

private theorem local_of_plain (h : r.plain = true) : Local ((one p).seq r) := by
  intro prev u post
  have hplain : ((one p).seq r).plain = true := h
  have hend (prev' : Option Char) :
      ⟨prev', post⟩ ∈ ((one p).seq r).ends ⟨prev, u ++ post⟩ ↔
        ⟨prev', []⟩ ∈ ((one p).seq r).ends ⟨none, u⟩ := by
    rw [ends_one_seq prev none]
    exact mem_ends_append (u := []) post (.inr hplain)
  simp only [Reads, hend]

private theorem plain_foldr {p : Char → Char → Bool} (h : r.plain = true) (cs : List Char) :
    (cs.foldr (fun c r => (one (p c)).seq r) r).plain = true := by
  induction cs with
  | nil => exact h
  | cons c cs ih => simpa [plain] using ih

theorem local_text {w : String} {c : Char} {cs : List Char} (hw : w.toList = c :: cs)
    (h : r.plain = true) : Local (text w r) := by
  rw [text, word, hw, List.foldr_cons]
  exact local_of_plain (plain_foldr h cs)

/-- A pattern of which the first and the last part are characters. -/
theorem local_of_closed : Local ((one p).seq (r.seq (one q))) := by
  intro prev u post
  have hend (prev' : Option Char) :
      ⟨prev', post⟩ ∈ ((one p).seq (r.seq (one q))).ends ⟨prev, u ++ post⟩ ↔
        ⟨prev', []⟩ ∈ ((one p).seq (r.seq (one q))).ends ⟨none, u⟩ := by
    rw [ends_one_seq prev none]
    have hassoc (x : Place) :
        ((one p).seq (r.seq (one q))).ends x = (((one p).seq r).seq (one q)).ends x := by
      simp only [ends, List.flatMap_assoc]
    rw [hassoc, hassoc]
    have hlast (mprev : Option Char) (c : Char) :
        ⟨mprev, [c] ++ post⟩ ∈ ((one p).seq r).ends ⟨none, u ++ post⟩ ↔
          ⟨mprev, [c]⟩ ∈ ((one p).seq r).ends ⟨none, u⟩ :=
      mem_ends_append post (.inl (by simp))
    rw [mem_ends_seq, mem_ends_seq]
    constructor
    · rintro ⟨⟨mprev, mrest⟩, hm, hq⟩
      obtain ⟨c, rfl, hc, hprev⟩ := mem_ends_one.mp hq
      exact ⟨_, (hlast mprev c).mp hm, mem_ends_one.mpr ⟨c, rfl, hc, hprev⟩⟩
    · rintro ⟨⟨mprev, mrest⟩, hm, hq⟩
      obtain ⟨c, rfl, hc, hprev⟩ := mem_ends_one.mp hq
      exact ⟨_, (hlast mprev c).mpr hm, mem_ends_one.mpr ⟨c, rfl, hc, hprev⟩⟩
  simp only [Reads, hend]

theorem Local.ends_ne_nil (hr : Local r) (h : r.Reads u) (prev : Option Char)
    (post : List Char) : r.ends ⟨prev, u ++ post⟩ ≠ [] := by
  obtain ⟨prev', hmem⟩ := (hr prev u post).mpr h
  exact List.ne_nil_of_mem hmem

theorem Local.reads_of_mem (hr : Local r) (h : y ∈ r.ends ⟨prev, t⟩) :
    ∃ u, t = u ++ y.rest ∧ r.Reads u := by
  obtain ⟨u, hu, -, -⟩ := consumes h
  obtain rfl : t = u ++ y.rest := hu
  exact ⟨u, rfl, (hr prev u y.rest).mp ⟨y.prev, h⟩⟩

theorem Reads.length (h : r.Reads u) : r.minLength ≤ u.length := by
  obtain ⟨prev, hmem⟩ := h
  obtain ⟨v, hv, -, hlen⟩ := consumes hmem
  obtain rfl : u = v := by simpa using hv
  exact hlen

theorem Reads.allowed (h : r.Reads u) : ∀ c ∈ u, r.allows c = true := by
  obtain ⟨prev, hmem⟩ := h
  obtain ⟨v, hv, hall, -⟩ := consumes hmem
  obtain rfl : u = v := by simpa using hv
  exact hall

/-- A stretch of a class between two texts. -/
theorem reads_between {w w' : String} :
    (text w ((many greedy p).seq (text w' empty))).Reads u ↔
      ∃ body, u = w.toList ++ (body ++ w'.toList) ∧ ∀ c ∈ body, p c = true := by
  constructor
  · rintro ⟨prev, hmem⟩
    obtain ⟨m, hm, -, hmem⟩ := mem_ends_text.mp hmem
    obtain ⟨z, hz, hmem⟩ := mem_ends_seq.mp hmem
    obtain ⟨body, hbody, hall, -⟩ := mem_run.mp (mem_ends_many.mp hz)
    obtain ⟨y, hy, -, hmem⟩ := mem_ends_text.mp hmem
    rw [← List.mem_singleton.mp hmem, List.append_nil] at hy
    refine ⟨body, ?_, hall⟩
    rw [← hy, ← hbody]
    exact hm
  · rintro ⟨body, rfl, hall⟩
    let inner : Option Char := w.toList.getLast?.or none
    let behind : Option Char := body.getLast?.or inner
    have hclose : ⟨w'.toList.getLast?.or behind, []⟩ ∈ (text w' empty).ends ⟨behind, w'.toList⟩ :=
      mem_ends_text.mpr ⟨⟨_, []⟩, (List.append_nil _).symm, rfl, List.mem_singleton.mpr rfl⟩
    have hbody : ⟨behind, w'.toList⟩ ∈ (many greedy p).ends ⟨inner, body ++ w'.toList⟩ :=
      mem_ends_many.mpr (mem_run.mpr ⟨body, rfl, hall, rfl⟩)
    exact ⟨_, mem_ends_text.mpr ⟨⟨inner, body ++ w'.toList⟩, rfl, rfl,
      mem_ends_seq.mpr ⟨_, hbody, hclose⟩⟩⟩

theorem Reads.head (h : ((one p).seq r).Reads u) : ∃ c ∈ u, p c = true := by
  obtain ⟨prev, hmem⟩ := h
  obtain ⟨m, hm, -⟩ := mem_ends_seq.mp hmem
  obtain ⟨c, hc, hp, -⟩ := mem_ends_one.mp hm
  obtain rfl : u = c :: m.rest := hc
  exact ⟨c, List.mem_cons_self, hp⟩

private theorem search_iff (hr : Local r) (prev : Option Char) (t : List Char) :
    r.search prev t = true ↔ ∃ u, u <:+: t ∧ r.Reads u := by
  have hhere {prev : Option Char} {t : List Char} :
      (r.ends ⟨prev, t⟩).isEmpty = false ↔ ∃ u, u <+: t ∧ r.Reads u := by
    rw [List.isEmpty_eq_false_iff]
    constructor
    · intro hne
      obtain ⟨y, hy⟩ := List.exists_mem_of_ne_nil _ hne
      obtain ⟨u, hu, hreads⟩ := hr.reads_of_mem hy
      exact ⟨u, ⟨y.rest, hu.symm⟩, hreads⟩
    · rintro ⟨u, ⟨post, rfl⟩, hreads⟩
      exact hr.ends_ne_nil hreads prev post
  induction t generalizing prev with
  | nil =>
    rw [search, Bool.not_eq_true', hhere]
    simp
  | cons c cs ih =>
    have htail : r.search (some c) cs = true ↔ ∃ u, u <:+: cs ∧ r.Reads u := ih (some c)
    rw [search, Bool.or_eq_true, Bool.not_eq_true', hhere, htail]
    simp only [List.infix_cons_iff, or_and_right, exists_or]

theorem matchString_iff (hr : Local r) :
    r.matchString t = true ↔ ∃ u, u <:+: t ∧ r.Reads u := search_iff hr none t

variable {α β : Type*} {f : α → Char} {rep as : List α} {n : ℕ}

/-- At each place an element is kept, or a match is replaced. -/
theorem replaceFrom_cases (r : Regex) (f : α → Char) (rep : List α) (n : ℕ) (prev : Option Char)
    (a : α) (as : List α) :
    r.ends ⟨prev, (a :: as).map f⟩ = [] ∧
        replaceFrom r f rep (n + 1) prev (a :: as) = a :: replaceFrom r f rep n (some (f a)) as ∨
      ∃ old post prev', a :: as = old ++ post ∧ r.minLength ≤ old.length ∧
        ⟨prev', post.map f⟩ ∈ r.ends ⟨prev, old.map f ++ post.map f⟩ ∧
        replaceFrom r f rep (n + 1) prev (a :: as) = rep ++ replaceFrom r f rep n prev' post := by
  cases hends : r.ends ⟨prev, (a :: as).map f⟩ with
  | nil => exact .inl ⟨rfl, by rw [replaceFrom, hends]; rfl⟩
  | cons x xs =>
    right
    obtain ⟨u, hu, -, hlen⟩ := consumes (hends ▸ List.mem_cons_self : x ∈ r.ends _)
    have hu : (a :: as).map f = u ++ x.rest := hu
    have hmem : x ∈ r.ends ⟨prev, (a :: as).map f⟩ := hends ▸ List.mem_cons_self
    have htotal : (a :: as).length = u.length + x.rest.length := by
      rw [← List.length_map f, hu, List.length_append]
    refine ⟨(a :: as).take u.length, (a :: as).drop u.length, x.prev,
      (List.take_append_drop _ _).symm, ?_, ?_, ?_⟩
    · rw [List.length_take, htotal]
      omega
    · rw [← List.map_append, List.take_append_drop, List.map_drop, hu, List.drop_left, ← hu]
      exact hmem
    · rw [replaceFrom, hends, List.head?_cons]
      simp only
      rw [htotal, Nat.add_sub_cancel]

/-- The replacement looks at nothing but the characters. -/
theorem map_replaceFrom {f' : β → Char} {g : α → β} (hg : ∀ a, f' (g a) = f a) :
    (replaceFrom r f rep n prev as).map g = replaceFrom r f' (rep.map g) n prev (as.map g) := by
  induction n generalizing prev as with
  | zero => rfl
  | succ n ih =>
    cases as with
    | nil => rfl
    | cons a as =>
      have hmap : (g a :: as.map g).map f' = (a :: as).map f := by simp [hg, Function.comp_def]
      rw [List.map_cons, replaceFrom, replaceFrom, hmap]
      cases (r.ends ⟨prev, (a :: as).map f⟩).head? with
      | none => simp only [List.map_cons, ih, hg]
      | some x =>
        simp only [List.map_append, ih, List.map_drop, List.map_cons, List.length_cons,
          List.length_map]

theorem map_replaceAll {f' : β → Char} {g : α → β} (hg : ∀ a, f' (g a) = f a) :
    (replaceAll r f rep as).map g = replaceAll r f' (rep.map g) (as.map g) := by
  rw [replaceAll, replaceAll, map_replaceFrom hg, List.length_map]

theorem mem_replaceFrom {a : α} (h : a ∈ replaceFrom r f rep n prev as) : a ∈ as ∨ a ∈ rep := by
  induction n generalizing prev as with
  | zero => exact .inl h
  | succ n ih =>
    cases as with
    | nil => exact .inl h
    | cons b as =>
      obtain ⟨-, heq⟩ | ⟨old, post, prev', hcut, -, -, heq⟩ := replaceFrom_cases r f rep n prev b as
      · rw [heq, List.mem_cons] at h
        obtain rfl | h := h
        · exact .inl List.mem_cons_self
        · exact (ih h).imp_left (List.mem_cons_of_mem _)
      · rw [heq, List.mem_append] at h
        obtain h | h := h
        · exact .inr h
        · exact (ih h).imp_left fun hpost => hcut ▸ List.mem_append_right _ hpost

theorem mem_replaceAll {a : α} (h : a ∈ replaceAll r f rep as) : a ∈ as ∨ a ∈ rep :=
  mem_replaceFrom h

/-- A removal takes elements away. -/
theorem replaceFrom_sublist : (replaceFrom r f [] n prev as).Sublist as := by
  induction n generalizing prev as with
  | zero => exact List.Sublist.refl _
  | succ n ih =>
    cases as with
    | nil => exact List.Sublist.refl _
    | cons a as =>
      obtain ⟨-, heq⟩ | ⟨old, post, prev', hcut, -, -, heq⟩ := replaceFrom_cases r f [] n prev a as
      · rw [heq]
        exact ih.cons_cons a
      · rw [heq, hcut, List.nil_append]
        exact ih.trans (List.sublist_append_right _ _)

/-- Of the elements that a replacement does not have, it keeps some, in order. -/
theorem filter_replaceFrom_sublist {keep : α → Bool} (hrep : ∀ a ∈ rep, keep a = false) :
    ((replaceFrom r f rep n prev as).filter keep).Sublist as := by
  induction n generalizing prev as with
  | zero => exact List.filter_sublist
  | succ n ih =>
    cases as with
    | nil => exact List.nil_sublist _
    | cons a as =>
      obtain ⟨-, heq⟩ | ⟨old, post, prev', hcut, -, -, heq⟩ := replaceFrom_cases r f rep n prev a as
      · rw [heq, List.filter_cons]
        split
        · exact ih.cons_cons a
        · exact ih.cons a
      · have hnone : rep.filter keep = [] := by simpa using hrep
        rw [heq, hcut, List.filter_append, hnone, List.nil_append]
        exact ih.trans (List.sublist_append_right _ _)

theorem replaceAll_sublist : (replaceAll r f [] as).Sublist as := replaceFrom_sublist

/-- No match starts where an element is kept. -/
theorem not_reads_of_mem_replaceFrom (hr : Local r) (hmin : 0 < r.minLength) (hn : as.length ≤ n)
    (hnodup : as.Nodup) {pre block post : List α} {a : α} (has : as = pre ++ (a :: block ++ post))
    (hrep : a ∉ rep) (h : a ∈ replaceFrom r f rep n prev as) :
    ¬ r.Reads ((a :: block).map f) := by
  induction n generalizing prev as pre with
  | zero =>
    rw [List.eq_nil_of_length_eq_zero (Nat.le_zero.mp hn)] at has
    simp at has
  | succ n ih =>
    cases as with
    | nil => simp at has
    | cons b as =>
      obtain ⟨hnone, heq⟩ | ⟨old, rest, prev', hcut, hlen, -, heq⟩ :=
        replaceFrom_cases r f rep n prev b as
      · cases pre with
        | nil =>
          intro hreads
          rw [has, List.nil_append, List.map_append] at hnone
          exact hr.ends_ne_nil hreads prev _ hnone
        | cons c pre =>
          obtain ⟨rfl, htail⟩ := List.cons.inj has
          rw [heq, List.mem_cons] at h
          obtain ⟨hnot, hnodup⟩ := List.nodup_cons.mp hnodup
          have hne : a ≠ b := fun hab => hnot (hab ▸ htail ▸ by simp)
          exact ih (Nat.le_of_succ_le_succ hn) hnodup htail (h.resolve_left hne)
      · rw [heq, List.mem_append] at h
        have htail := h.resolve_left hrep
        have hrest : a ∈ rest := (mem_replaceFrom htail).resolve_right hrep
        rw [hcut] at has hn hnodup
        rw [List.length_append] at hn
        obtain ⟨mid, rfl, hmid⟩ | ⟨mid, rfl, hmid⟩ := List.append_eq_append_iff.mp has
        · exact ih (by omega) (List.nodup_append.mp hnodup).2.1 hmid htail
        · cases mid with
          | nil =>
            have hhead : rest = [] ++ (a :: block ++ post) := hmid.symm
            exact ih (by omega) (List.nodup_append.mp hnodup).2.1 hhead htail
          | cons d mid =>
            obtain ⟨rfl, -⟩ := List.cons.inj hmid
            exact absurd rfl ((List.nodup_append.mp hnodup).2.2 a (by simp) a hrest)

theorem not_reads_of_mem_replaceAll (hr : Local r) (hmin : 0 < r.minLength) (hnodup : as.Nodup)
    {pre block post : List α} {a : α} (has : as = pre ++ (a :: block ++ post)) (hrep : a ∉ rep)
    (h : a ∈ replaceAll r f rep as) : ¬ r.Reads ((a :: block).map f) :=
  not_reads_of_mem_replaceFrom hr hmin (le_refl _) hnodup has hrep h

/-- A text without a match stays as it is. -/
theorem replaceFrom_eq_self (hn : as.length ≤ n) (h : r.search prev (as.map f) = false) :
    replaceFrom r f rep n prev as = as := by
  induction n generalizing prev as with
  | zero => rfl
  | succ n ih =>
    cases as with
    | nil => rfl
    | cons a as =>
      rw [List.map_cons, search, Bool.or_eq_false_iff, Bool.not_eq_false', List.isEmpty_iff] at h
      rw [replaceFrom, List.map_cons, h.1]
      exact congrArg _ (ih (Nat.le_of_succ_le_succ hn) h.2)

theorem replaceAll_eq_self (h : r.matchString (as.map f) = false) : replaceAll r f rep as = as :=
  replaceFrom_eq_self (le_refl _) h

theorem prefix_of_append_cons {l b : List α} {c : α} (l' : List α)
    (h : l <+: l' ++ c :: b) (hc : c ∉ l) : l <+: l' := by
  obtain hle | hlt := le_or_gt l.length l'.length
  · exact List.prefix_of_prefix_length_le h (List.prefix_append _ _) hle
  · have hlong : l' ++ [c] <+: l := by
      refine List.prefix_of_prefix_length_le ⟨b, by simp⟩ h ?_
      rw [List.length_append, List.length_singleton]
      exact hlt
    exact absurd (hlong.subset (by simp)) hc

theorem infix_of_append_cons {l l' b : List α} {c : α} (h : l <:+: l' ++ c :: b) (hc : c ∉ l) :
    l <:+: l' ∨ l <:+: b := by
  induction l' with
  | nil =>
    obtain hpre | hin := List.infix_cons_iff.mp h
    · exact .inl (prefix_of_append_cons [] hpre hc).isInfix
    · exact .inr hin
  | cons d l' ih =>
    obtain hpre | hin := List.infix_cons_iff.mp h
    · exact .inl (prefix_of_append_cons (d :: l') hpre hc).isInfix
    · exact (ih hin).imp_left fun h => h.trans (List.infix_cons (List.infix_refl _))

variable {first last : Char} {inner : List Char}

/-- What starts where a replaced text does, and keeps clear of the replacement, is of the text. -/
theorem prefix_of_replaceFrom (hfirst : first ∉ u)
    (h : u <+: replaceFrom r id (first :: inner) n prev t) : u <+: t := by
  induction n generalizing prev t u with
  | zero => exact h
  | succ n ih =>
    cases t with
    | nil => exact h
    | cons c cs =>
      obtain ⟨-, heq⟩ | ⟨old, post, prev', hcut, -, -, heq⟩ :=
        replaceFrom_cases r id (first :: inner) n prev c cs
      · rw [heq] at h
        cases u with
        | nil => exact List.nil_prefix
        | cons d u =>
          obtain ⟨rfl, htail⟩ := List.cons_prefix_cons.mp h
          have hnot : first ∉ u := fun hmem => hfirst (List.mem_cons_of_mem _ hmem)
          exact List.cons_prefix_cons.mpr ⟨rfl, ih hnot htail⟩
      · rw [heq] at h
        exact (prefix_of_append_cons [] h hfirst).trans List.nil_prefix

/-- Such a stretch is not in the replacement, if it is longer. -/
theorem infix_behind {post : List Char} (hfirst : first ∉ u) (hlast : last ∉ u)
    (hlen : inner.length < u.length) (h : u <:+: first :: (inner ++ [last]) ++ post) :
    u <:+: post := by
  have hne : ¬ u <:+: [] := fun hnil => by
    rw [List.infix_nil.mp hnil] at hlen
    simp at hlen
  have hbehind : u <:+: inner ++ last :: post := by
    have hcut : u <:+: [] ++ first :: (inner ++ last :: post) := by simpa using h
    exact (infix_of_append_cons hcut hfirst).resolve_left hne
  refine (infix_of_append_cons hbehind hlast).resolve_left fun hin => ?_
  exact absurd hin.length_le (Nat.not_le.mpr hlen)

/-- A stretch that is longer than the replacement and has neither of its ends is of the text. -/
theorem infix_of_replaceFrom (hfirst : first ∉ u) (hlast : last ∉ u)
    (hlen : inner.length < u.length)
    (h : u <:+: replaceFrom r id (first :: (inner ++ [last])) n prev t) : u <:+: t := by
  induction n generalizing prev t with
  | zero => exact h
  | succ n ih =>
    cases t with
    | nil => exact h
    | cons c cs =>
      obtain ⟨-, heq⟩ | ⟨old, post, prev', hcut, -, -, heq⟩ :=
        replaceFrom_cases r id (first :: (inner ++ [last])) n prev c cs
      · obtain hpre | hin := List.infix_cons_iff.mp (heq ▸ h)
        · exact (prefix_of_replaceFrom hfirst (heq ▸ hpre)).isInfix
        · exact (ih hin).trans (List.infix_cons (List.infix_refl _))
      · rw [heq] at h
        rw [hcut]
        exact (ih (infix_behind hfirst hlast hlen h)).trans (List.suffix_append _ _).isInfix

/-- No match is left, nor does one arise. -/
theorem not_reads_of_infix_replaceFrom (hr : Local r) (hmin : 0 < r.minLength)
    (hn : t.length ≤ n) (hfirst : first ∉ u) (hlast : last ∉ u) (hlen : inner.length < u.length)
    (h : u <:+: replaceFrom r id (first :: (inner ++ [last])) n prev t) : ¬ r.Reads u := by
  induction n generalizing prev t with
  | zero =>
    rw [List.eq_nil_of_length_eq_zero (Nat.le_zero.mp hn)] at h
    rw [List.infix_nil.mp h] at hlen
    simp at hlen
  | succ n ih =>
    cases t with
    | nil =>
      rw [List.infix_nil.mp h] at hlen
      simp at hlen
    | cons c cs =>
      obtain ⟨hnone, heq⟩ | ⟨old, post, prev', hcut, hold, -, heq⟩ :=
        replaceFrom_cases r id (first :: (inner ++ [last])) n prev c cs
      · obtain hpre | hin := List.infix_cons_iff.mp (heq ▸ h)
        · intro hreads
          obtain ⟨post, hpost⟩ := prefix_of_replaceFrom hfirst (heq ▸ hpre)
          rw [List.map_id, ← hpost] at hnone
          exact hr.ends_ne_nil hreads prev post hnone
        · exact ih (Nat.le_of_succ_le_succ hn) hin
      · rw [heq] at h
        have hpost := congrArg List.length hcut
        rw [List.length_append] at hpost
        exact ih (by omega) (infix_behind hfirst hlast hlen h)

/-- Of a text without repetitions, a stretch that is left whole is a stretch of what is left. -/
theorem infix_of_sublist {l l' b : List α} (hl : l.Sublist l') (hnodup : l'.Nodup)
    (hb : b <:+: l') (hsub : b ⊆ l) : b <:+: l := by
  obtain ⟨pre, post, rfl⟩ := hb
  obtain ⟨l₁, l₃, rfl, hl₁, hl₃⟩ := List.sublist_append_iff.mp hl
  obtain ⟨l₁, l₂, rfl, hl₁, hl₂⟩ := List.sublist_append_iff.mp hl₁
  obtain ⟨hnodup', -, hpost⟩ := List.nodup_append.mp hnodup
  obtain ⟨-, hbnodup, hpre⟩ := List.nodup_append.mp hnodup'
  have hkept : b ⊆ l₂ := by
    intro a ha
    obtain hmem | hmem := List.mem_append.mp (hsub ha)
    · obtain hmem | hmem := List.mem_append.mp hmem
      · exact absurd rfl (hpre a (hl₁.subset hmem) a ha)
      · exact hmem
    · exact absurd rfl (hpost a (List.mem_append_right _ ha) a (hl₃.subset hmem))
  have hlen := (List.subperm_of_subset hbnodup hkept).length_le
  obtain rfl : l₂ = b := hl₂.eq_of_length (le_antisymm hl₂.length_le hlen)
  exact ⟨l₁, l₃, rfl⟩

/-- What is behind a stretch in a part of a text is behind it in the text. -/
theorem behind_of_sublist {l b c : List α} (hnodup : l.Nodup) (hne : b ≠ []) (hb : b <:+: l)
    (hbc : (b ++ c).Sublist l) : ∃ pre post, l = pre ++ (b ++ post) ∧ c.Sublist post := by
  obtain ⟨pre, post, rfl⟩ := hb
  refine ⟨pre, post, List.append_assoc _ _ _, ?_⟩
  rw [List.append_assoc] at hbc hnodup
  obtain ⟨l₁, l₂, heq, hl₁, hl₂⟩ := List.sublist_append_iff.mp hbc
  obtain ⟨l₂, l₃, rfl, hl₂, hl₃⟩ := List.sublist_append_iff.mp hl₂
  have hempty : l₁ = [] := by
    cases l₁ with
    | nil => rfl
    | cons a l₁ =>
      cases b with
      | nil => exact absurd rfl hne
      | cons d b =>
        obtain ⟨rfl, -⟩ := List.cons.inj heq
        have hdisj := (List.nodup_append.mp hnodup).2.2
        exact absurd rfl (hdisj d (hl₁.subset List.mem_cons_self) d (by simp))
  rw [hempty, List.nil_append] at heq
  have hlen := congrArg List.length heq
  rw [List.length_append, List.length_append] at hlen
  have hsuffix : c <:+ l₃ := by
    refine List.suffix_of_suffix_length_le ⟨b, rfl⟩ (heq ▸ List.suffix_append _ _) ?_
    have hle := hl₂.length_le
    omega
  exact hsuffix.sublist.trans hl₃

/-- Between two runes of a stretch all are of it. -/
theorem mem_of_between {l b : List α} {x c y : α} (hnodup : l.Nodup) (hb : b <:+: l)
    (hx : x ∈ b) (hy : y ∈ b) (h : [x, c, y].Sublist l) : c ∈ b := by
  obtain ⟨pre, post, rfl⟩ := hb
  rw [List.append_assoc] at h hnodup
  obtain ⟨-, hrest, hpre⟩ := List.nodup_append.mp hnodup
  obtain ⟨-, -, hpost⟩ := List.nodup_append.mp hrest
  obtain ⟨l₁, l₂, heq, hl₁, hl₂⟩ := List.sublist_append_iff.mp h
  obtain ⟨l₂, l₃, rfl, hl₂, hl₃⟩ := List.sublist_append_iff.mp hl₂
  cases l₁ with
  | cons d l₁ =>
    obtain ⟨rfl, -⟩ := List.cons.inj heq
    exact absurd rfl (hpre x (hl₁.subset List.mem_cons_self) x (List.mem_append_left _ hx))
  | nil =>
    rw [List.nil_append] at heq
    have hmem : c ∈ l₂ ++ l₃ := by simp [← heq]
    obtain hmem | hmem := List.mem_append.mp hmem
    · exact hl₂.subset hmem
    · have hlast : y ∈ l₃ := by
        obtain hnil | ⟨front, d, rfl⟩ := l₃.eq_nil_or_concat
        · simp [hnil] at hmem
        · have hends : [x, c] ++ [y] = l₂ ++ front ++ [d] := by simp [heq]
          obtain ⟨-, hd⟩ := List.append_inj' hends rfl
          simp [List.singleton_inj.mp hd]
      exact absurd rfl (hpost y hy y (hl₃.subset hlast))

/-- A part of a text that is no stretch of it misses what is between two of its runes. -/
theorem exists_gap {l b : List α} (hsub : b.Sublist l) (hnot : ¬ b <:+: l) :
    ∃ x gap y, x :: (gap ++ [y]) <:+: l ∧ gap ≠ [] ∧ [x, y] <:+: b := by
  induction b generalizing l with
  | nil => exact absurd List.nil_infix hnot
  | cons x b ih =>
    obtain ⟨front, behind, rfl, hx, hb⟩ := List.cons_sublist_iff.mp hsub
    obtain ⟨pre, mid, rfl⟩ := List.append_of_mem hx
    cases b with
    | nil => exact absurd ⟨pre, mid ++ behind, by simp⟩ hnot
    | cons y b =>
      by_cases hin : y :: b <:+: mid ++ behind
      · obtain ⟨gap, post, heq⟩ := hin
        have hwhole : pre ++ x :: mid ++ behind = pre ++ (x :: (gap ++ [y]) ++ (b ++ post)) := by
          simp [← heq]
        refine ⟨x, gap, y, ⟨pre, b ++ post, by rw [hwhole, List.append_assoc]⟩, ?_, [], b, rfl⟩
        rintro rfl
        exact hnot ⟨pre, post, by simp [← heq]⟩
      · obtain ⟨x', gap, y', hstretch, hgap, hpair⟩ :=
          ih (hb.trans (List.sublist_append_right mid behind)) hin
        have hbehind : mid ++ behind <:+: pre ++ x :: mid ++ behind :=
          ⟨pre ++ [x], [], by simp⟩
        exact ⟨x', gap, y', hstretch.trans hbehind, hgap,
          hpair.trans (List.suffix_cons x _).isInfix⟩

/-- Parts of a text without repetitions are in the same order. -/
theorem sublist_of_subset {l l' b : List α} (hnodup : l'.Nodup) (hl : l.Sublist l')
    (hb : b.Sublist l') (hsub : b ⊆ l) : b.Sublist l := by
  classical
  have hall : l'.filter (· ∈ l) ⊆ l := fun a ha => by simpa using (List.mem_filter.mp ha).2
  have hkept : l.Sublist (l'.filter (· ∈ l)) := by
    have hfilter := hl.filter (· ∈ l)
    rwa [List.filter_eq_self.mpr (by simp)] at hfilter
  have hlen := (List.subperm_of_subset (hnodup.sublist List.filter_sublist) hall).length_le
  rw [hkept.eq_of_length (le_antisymm hkept.length_le hlen)]
  have hfilter := hb.filter (· ∈ l)
  rwa [List.filter_eq_self.mpr fun a ha => by simpa using hsub ha] at hfilter

/-- Where something is replaced the text becomes lighter, when a match is heavier than the
replacement. -/
theorem weight_replaceFrom {w : α → ℕ} (hr : Local r)
    (hw : ∀ old : List α, r.Reads (old.map f) → (rep.map w).sum < (old.map w).sum) :
    replaceFrom r f rep n prev as = as ∨
      ((replaceFrom r f rep n prev as).map w).sum < (as.map w).sum := by
  induction n generalizing prev as with
  | zero => exact .inl rfl
  | succ n ih =>
    cases as with
    | nil => exact .inl rfl
    | cons a as =>
      obtain ⟨-, heq⟩ | ⟨old, post, prev', hcut, -, hmem, heq⟩ :=
        replaceFrom_cases r f rep n prev a as
      · rw [heq, List.map_cons, List.map_cons, List.sum_cons, List.sum_cons]
        exact (@ih (some (f a)) as).imp (congrArg _) fun h => Nat.add_lt_add_left h _
      · right
        have hold := hw old ((hr prev _ _).mp ⟨prev', hmem⟩)
        have hpost : ((replaceFrom r f rep n prev' post).map w).sum ≤ (post.map w).sum := by
          obtain h | h := @ih prev' post
          · rw [h]
          · exact h.le
        rw [heq, hcut, List.map_append, List.map_append, List.sum_append, List.sum_append]
        omega

/-- What the pass changes becomes lighter. -/
def Lightens (w : α → ℕ) (pass : List α → List α) : Prop :=
  ∀ s, pass s = s ∨ ((pass s).map w).sum < (s.map w).sum

variable {w : α → ℕ} {pass pass' : List α → List α}

theorem Lightens.le (h : Lightens w pass) (s : List α) :
    ((pass s).map w).sum ≤ (s.map w).sum := by
  obtain heq | hlt := h s
  · rw [heq]
  · exact hlt.le

theorem Lightens.comp (h' : Lightens w pass') (h : Lightens w pass) :
    Lightens w fun s => pass' (pass s) := by
  intro s
  obtain heq | hlt := h s
  · change pass' (pass s) = s ∨ ((pass' (pass s)).map w).sum < _
    rw [heq]
    exact h' s
  · exact .inr ((h'.le (pass s)).trans_lt hlt)

theorem lightens_replaceAll (hr : Local r)
    (hw : ∀ old : List α, r.Reads (old.map f) → (rep.map w).sum < (old.map w).sum) :
    Lightens w (replaceAll r f rep) := fun _ => weight_replaceFrom hr hw

theorem lightens_filter {keep : α → Bool} (hw : ∀ a, keep a = false → 1 ≤ w a) :
    Lightens w fun s => s.filter keep := by
  intro s
  induction s with
  | nil => exact .inl rfl
  | cons a s ih =>
    simp only at ih ⊢
    have hle : ((s.filter keep).map w).sum ≤ (s.map w).sum := by
      obtain heq | hlt := ih
      · rw [heq]
      · exact hlt.le
    cases hkeep : keep a with
    | true =>
      simp only [List.filter_cons, hkeep, if_true, List.map_cons, List.sum_cons]
      exact ih.imp (congrArg _) fun h => Nat.add_lt_add_left h _
    | false =>
      right
      simp only [List.filter_cons, hkeep, Bool.false_eq_true, if_false, List.map_cons,
        List.sum_cons]
      have hone := hw a hkeep
      omega

theorem lightens_foldl {ι : Type*} {g : List α → ι → List α} {is : List ι}
    (h : ∀ i ∈ is, Lightens w fun s => g s i) : Lightens w fun s => is.foldl g s := by
  induction is with
  | nil => exact fun s => .inl rfl
  | cons i is ih =>
    have htail := ih fun j hj => h j (List.mem_cons_of_mem _ hj)
    exact htail.comp (h i List.mem_cons_self)

/-- A text that a pass gives back, behind a step that keeps the weight, was kept by the step. -/
theorem Lightens.fixed (h : Lightens w pass) {s t : List α}
    (hkeep : (t.map w).sum = (s.map w).sum) (hback : pass t = s) : t = s := by
  obtain heq | hlt := h t
  · exact heq.symm.trans hback
  · rw [hback] at hlt
    omega

end Regex

end Statnive.RegexMatch
