import Mathlib.Algebra.GroupWithZero.Nat
import Mathlib.Algebra.Order.BigOperators.Group.List
import Mathlib.Data.List.TakeWhile
import Statnive.IngestHandler

/-!
# The statements of a migration

A migration is cut into statements by its lines and its semicolons alone. What the statements
are is read off the text of the migration by a lexer that knows comments and string literals.
-/

namespace Statnive.MigrationStatements

open IngestHandler (isSpace trimSpace)

/-- The characters of `trimSpace`. -/
def trim (l : List Char) : List Char :=
  ((l.dropWhile isSpace).reverse.dropWhile isSpace).reverse

section Pieces

variable {α : Type*}

theorem dropWhile_append_cons {p : α → Bool} {a : α} (ha : p a = false) (xs ys : List α) :
    (xs ++ a :: ys).dropWhile p = xs.dropWhile p ++ a :: ys := by
  induction xs with
  | nil => simp [ha]
  | cons x xs ih =>
    rw [List.cons_append, List.dropWhile_cons, List.dropWhile_cons]
    split
    · exact ih
    · rfl

/-- What stands between two characters that are not blank is left alone. -/
theorem trim_around {a b : Char} (ha : isSpace a = false) (hb : isSpace b = false)
    (xs m ys : List Char) : trim (xs ++ a :: (m ++ b :: ys)) =
      xs.dropWhile isSpace ++ a :: (m ++ b :: (ys.reverse.dropWhile isSpace).reverse) := by
  have hfront : (xs ++ a :: (m ++ b :: ys)).dropWhile isSpace =
      xs.dropWhile isSpace ++ a :: (m ++ b :: ys) := dropWhile_append_cons ha _ _
  have hback : (xs.dropWhile isSpace ++ a :: (m ++ b :: ys)).reverse =
      ys.reverse ++ b :: (xs.dropWhile isSpace ++ a :: m).reverse := by simp
  rw [trim, hfront, hback, dropWhile_append_cons hb]
  simp

theorem trim_isPrefix (l : List Char) : trim l <+: l.dropWhile isSpace := by
  have hsuffix := List.dropWhile_suffix isSpace (l := (l.dropWhile isSpace).reverse)
  have hprefix := List.reverse_prefix.mpr hsuffix
  rwa [List.reverse_reverse] at hprefix

private theorem trim_isInfix (l : List Char) : trim l <:+: l :=
  (trim_isPrefix l).isInfix.trans (List.dropWhile_suffix isSpace).isInfix

theorem count_dropWhile {c : Char} (hc : isSpace c = false) (l : List Char) :
    (l.dropWhile isSpace).count c = l.count c := by
  induction l with
  | nil => rfl
  | cons d l ih =>
    rw [List.dropWhile_cons]
    split
    next hd =>
      have hne : d ≠ c := fun heq => by simp [heq, hc] at hd
      rw [ih, List.count_cons_of_ne hne]
    next => rfl

private theorem count_trim {c : Char} (hc : isSpace c = false) (l : List Char) :
    (trim l).count c = l.count c := by
  rw [trim, List.count_reverse, count_dropWhile hc, List.count_reverse, count_dropWhile hc]

/-- The trimmed texts between separators that are not blank. -/
def pieces (sep : α → Bool) (ch : α → Char) (l : List α) : List (List Char) :=
  ((l.splitOnP sep).map fun seg => trim (seg.map ch)).filter (· ≠ [])

private theorem sum_count_splitOnP (sep : α → Bool) (ch : α → Char) (c : Char) (l : List α) :
    ((l.splitOnP sep).map fun seg => (seg.map ch).count c).sum =
      ((l.filter fun a => !sep a).map ch).count c := by
  induction l with
  | nil => simp [List.splitOnP_nil]
  | cons a l ih =>
    rw [List.splitOnP_cons_eq_if_modifyHead]
    cases ha : sep a with
    | true => simpa [ha] using ih
    | false =>
      obtain ⟨seg, segs, hsegs⟩ := List.exists_cons_of_ne_nil (List.splitOnP_ne_nil sep l)
      rw [hsegs, List.map_cons, List.sum_cons] at ih
      simp only [Bool.false_eq_true, if_false, hsegs, List.modifyHead_cons, List.map_cons,
        List.sum_cons, ha, List.filter_cons, Bool.not_false, if_true, List.count_cons, ← ih]
      omega

theorem count_filter_map {sep : α → Bool} {ch : α → Char} {c : Char} {l : List α}
    (h : ∀ a ∈ l, ch a = c → sep a = false) :
    ((l.filter fun a => !sep a).map ch).count c = (l.map ch).count c := by
  induction l with
  | nil => rfl
  | cons a l ih =>
    rw [List.forall_mem_cons] at h
    rw [List.map_cons, List.filter_cons]
    split
    next => rw [List.map_cons, List.count_cons, List.count_cons, ih h.2]
    next hsep =>
      have hne : ch a ≠ c := by
        intro heq
        rw [h.1 heq] at hsep
        exact hsep rfl
      rw [List.count_cons_of_ne hne, ih h.2]

theorem sum_count_pieces {c : Char} (hc : isSpace c = false) (sep : α → Bool) (ch : α → Char)
    (l : List α) : ((pieces sep ch l).map (List.count c)).sum =
      ((l.filter fun a => !sep a).map ch).count c := by
  have hblank (segs : List (List Char)) : ((segs.filter (· ≠ [])).map (List.count c)).sum =
      (segs.map (List.count c)).sum := by
    induction segs with
    | nil => rfl
    | cons seg segs ih =>
      rw [List.filter_cons, List.map_cons, List.sum_cons, ← ih]
      cases seg with
      | nil => rw [if_neg (by simp), List.count_nil, Nat.zero_add]
      | cons d seg => rw [if_pos (by simp), List.map_cons, List.sum_cons]
  rw [pieces, hblank, List.map_map, ← sum_count_splitOnP]
  refine congrArg List.sum (List.map_congr_left fun seg _ => ?_)
  exact count_trim hc (seg.map ch)

private theorem pieces_map {sep : α → Bool} {sep' : Char → Bool} {ch : α → Char} {l : List α}
    (h : ∀ a ∈ l, sep a = sep' (ch a)) : pieces sep ch l = pieces sep' id (l.map ch) := by
  have hsplit : (l.map ch).splitOnP sep' = (l.splitOnP sep).map (List.map ch) := by
    induction l with
    | nil => rfl
    | cons a l ih =>
      rw [List.forall_mem_cons] at h
      rw [List.map_cons, List.splitOnP_cons_eq_if_modifyHead, List.splitOnP_cons_eq_if_modifyHead,
        ih h.2, ← h.1]
      obtain ⟨seg, segs, hsegs⟩ := List.exists_cons_of_ne_nil (List.splitOnP_ne_nil sep l)
      cases sep a <;> simp [hsegs]
  rw [pieces, pieces, hsplit, List.map_map]
  simp only [Function.comp_def, List.map_id]

private theorem infix_of_mem_pieces {sep : α → Bool} {ch : α → Char} {l : List α} {p : List Char}
    (hp : p ∈ pieces sep ch l) : p <:+: l.map ch := by
  have hseg (l : List α) : ∃ seg segs, l.splitOnP sep = seg :: segs ∧ seg <+: l ∧
      ∀ s ∈ segs, s <:+: l := by
    induction l with
    | nil => exact ⟨[], [], by simp [List.splitOnP_nil], List.prefix_refl _, by simp⟩
    | cons a l ih =>
      obtain ⟨seg, segs, hsplit, hhead, htail⟩ := ih
      have hcons {s : List α} (hs : s <:+: l) : s <:+: a :: l :=
        hs.trans (List.suffix_cons a l).isInfix
      rw [List.splitOnP_cons_eq_if_modifyHead, hsplit]
      cases sep a with
      | true =>
        refine ⟨[], seg :: segs, rfl, List.nil_prefix, ?_⟩
        rw [List.forall_mem_cons]
        exact ⟨hcons hhead.isInfix, fun s hs => hcons (htail s hs)⟩
      | false =>
        exact ⟨a :: seg, segs, rfl, (List.prefix_cons_inj a).mpr hhead,
          fun s hs => hcons (htail s hs)⟩
  obtain ⟨s, hmem, rfl⟩ := List.mem_map.mp (List.mem_of_mem_filter hp)
  obtain ⟨seg, segs, hsplit, hhead, htail⟩ := hseg l
  rw [hsplit] at hmem
  refine (trim_isInfix _).trans (List.IsInfix.map ch ?_)
  rcases List.mem_cons.mp hmem with rfl | hs
  · exact hhead.isInfix
  · exact htail s hs

private theorem free_of_mem_splitOnP {sep : α → Bool} {l seg : List α} (h : seg ∈ l.splitOnP sep) :
    ∀ a ∈ seg, sep a = false := by
  induction l generalizing seg with
  | nil =>
    rw [List.splitOnP_nil, List.mem_singleton] at h
    simp [h]
  | cons b l ih =>
    obtain ⟨s, segs, hsplit⟩ := List.exists_cons_of_ne_nil (List.splitOnP_ne_nil sep l)
    rw [List.splitOnP_cons_eq_if_modifyHead, hsplit] at h
    rw [hsplit] at ih
    cases hb : sep b with
    | true =>
      rw [if_pos hb] at h
      rcases List.mem_cons.mp h with rfl | h
      · simp
      · exact ih h
    | false =>
      rw [if_neg (by simp [hb])] at h
      rcases List.mem_cons.mp h with rfl | h
      · rw [List.forall_mem_cons]
        exact ⟨hb, ih List.mem_cons_self⟩
      · exact ih (List.mem_cons_of_mem _ h)

/-- What has no separators goes to the first segment. -/
theorem splitOnP_append_free {sep : α → Bool} {m : List α} (hm : ∀ a ∈ m, sep a = false)
    (ys : List α) : ∃ seg segs, (m ++ ys).splitOnP sep = (m ++ seg) :: segs := by
  induction m with
  | nil => exact List.exists_cons_of_ne_nil (List.splitOnP_ne_nil sep ys)
  | cons a m ih =>
    rw [List.forall_mem_cons] at hm
    obtain ⟨seg, segs, hsplit⟩ := ih hm.2
    refine ⟨seg, segs, ?_⟩
    rw [List.cons_append, List.splitOnP_cons_eq_if_modifyHead, hm.1, hsplit]
    rfl

/-- A stretch without separators lies in one segment. -/
theorem exists_splitOnP_infix {sep : α → Bool} (xs : List α) {m : List α} (ys : List α)
    (hm : ∀ a ∈ m, sep a = false) : ∃ seg ∈ (xs ++ (m ++ ys)).splitOnP sep, m <:+: seg := by
  induction xs with
  | nil =>
    obtain ⟨seg, segs, hsplit⟩ := splitOnP_append_free hm ys
    exact ⟨m ++ seg, by simp [hsplit], (List.prefix_append m seg).isInfix⟩
  | cons x xs ih =>
    obtain ⟨s, hs, hinfix⟩ := ih
    obtain ⟨seg, segs, hsplit⟩ := List.exists_cons_of_ne_nil
      (List.splitOnP_ne_nil sep (xs ++ (m ++ ys)))
    rw [hsplit] at hs
    rw [List.cons_append, List.splitOnP_cons_eq_if_modifyHead, hsplit]
    cases sep x with
    | true => exact ⟨s, List.mem_cons_of_mem _ hs, hinfix⟩
    | false =>
      rcases List.mem_cons.mp hs with rfl | hs
      · exact ⟨x :: s, List.mem_cons_self, hinfix.trans (List.suffix_cons x s).isInfix⟩
      · exact ⟨s, List.mem_cons_of_mem _ hs, hinfix⟩

/-- Such a stretch is found in a piece when its ends are not blank. -/
theorem exists_pieces_infix {sep : α → Bool} {ch : α → Char} (xs : List α) {m : List α}
    (ys : List α) {c d : Char} {w : List Char} (hm : ∀ a ∈ m, sep a = false)
    (hw : m.map ch = c :: (w ++ [d])) (hc : isSpace c = false) (hd : isSpace d = false) :
    ∃ p ∈ pieces sep ch (xs ++ (m ++ ys)), m.map ch <:+: p := by
  obtain ⟨seg, hseg, hinfix⟩ := exists_splitOnP_infix xs ys hm
  obtain ⟨u, v, huv⟩ := hinfix.map ch
  have htrim : m.map ch <:+: trim (seg.map ch) := by
    have haround := trim_around hc hd u w v
    have hsame : u ++ c :: (w ++ d :: v) = seg.map ch := by rw [← huv, hw]; simp
    rw [hsame] at haround
    rw [haround, hw]
    exact ⟨u.dropWhile isSpace, (v.reverse.dropWhile isSpace).reverse, by simp⟩
  refine ⟨trim (seg.map ch), List.mem_filter.mpr ⟨List.mem_map.mpr ⟨seg, hseg, rfl⟩, ?_⟩, htrim⟩
  have hne : trim (seg.map ch) ≠ [] := by
    intro hnil
    rw [hnil, hw] at htrim
    exact absurd (List.infix_nil.mp htrim) (List.cons_ne_nil _ _)
  simpa using hne

private theorem mem_intercalate {s : α} {ls : List (List α)} {l : List α} {a : α} (hl : l ∈ ls)
    (ha : a ∈ l) : a ∈ [s].intercalate ls := by
  induction ls with
  | nil => simp at hl
  | cons k ls ih =>
    by_cases hls : ls = []
    · subst hls
      obtain rfl := List.mem_singleton.mp hl
      simpa using ha
    · rw [List.intercalate_cons_of_ne_nil hls]
      rcases List.mem_cons.mp hl with rfl | hl
      · simp [ha]
      · simp [ih hl]

private theorem of_mem_intercalate
    {s : α} {ls : List (List α)} {a : α} (ha : a ∈ [s].intercalate ls) :
    a = s ∨ ∃ l ∈ ls, a ∈ l := by
  induction ls with
  | nil => simp at ha
  | cons k ls ih =>
    by_cases hls : ls = []
    · subst hls
      exact .inr ⟨k, List.mem_cons_self, by simpa using ha⟩
    · rw [List.intercalate_cons_of_ne_nil hls, List.append_assoc, List.mem_append,
        List.mem_append, List.mem_singleton] at ha
      rcases ha with ha | rfl | ha
      · exact .inr ⟨k, List.mem_cons_self, ha⟩
      · exact .inl rfl
      · exact (ih ha).imp_right fun ⟨l, hl, hmem⟩ => ⟨l, List.mem_cons_of_mem _ hl, hmem⟩

private theorem map_intercalate {β : Type*} (f : α → β) (s : α) (ls : List (List α)) :
    ([s].intercalate ls).map f = [f s].intercalate (ls.map (List.map f)) := by
  induction ls with
  | nil => rfl
  | cons k ls ih =>
    by_cases hls : ls = []
    · simp [hls]
    · have hmap : ls.map (List.map f) ≠ [] := by simpa using hls
      rw [List.map_cons, List.intercalate_cons_of_ne_nil hls,
        List.intercalate_cons_of_ne_nil hmap, ← ih]
      simp

theorem count_intercalate [DecidableEq α] {s a : α} (ha : s ≠ a) (ls : List (List α)) :
    ([s].intercalate ls).count a = (ls.map (List.count a)).sum := by
  induction ls with
  | nil => rfl
  | cons k ls ih =>
    by_cases hls : ls = []
    · simp [hls]
    · rw [List.intercalate_cons_of_ne_nil hls, List.count_append, List.count_append, ih,
        List.count_cons_of_ne ha, List.count_nil, List.map_cons, List.sum_cons]
      omega

end Pieces

/-- The test of the loop over the lines. -/
def isComment (line : List Char) : Bool :=
  "--".toList.isPrefixOf (trimSpace (String.ofList line)).toList

def stripLineComments (s : String) : String :=
  String.ofList (['\n'].intercalate ((s.toList.splitOn '\n').filter fun line => !isComment line))

def splitStatements (body : String) : List String :=
  (((stripLineComments body).toList.splitOn ';').map String.ofList).filter fun p => trimSpace p ≠ ""

inductive Kind where
  | code | literal | comment
  deriving DecidableEq

abbrev Token := Char × Kind

/-- Where a line is read: in code, in a string literal, or after a backslash in one. -/
inductive Mode where
  | code | literal | escaped
  deriving DecidableEq

def advance : Mode → Char → Mode
  | .code, c => if c = '\'' then .literal else .code
  | .literal, c => if c = '\'' then .code else if c = '\\' then .escaped else .literal
  | .escaped, _ => .literal

def kind : Mode → Char → Kind
  | .code, c => if c = '\'' then .literal else .code
  | _, _ => .literal

/-- In code two dashes begin a comment, which ends with the line. -/
def beginsComment (m : Mode) (l : List Char) : Bool := m = .code && "--".toList.isPrefixOf l

def lexLine : Mode → List Char → List Token
  | _, [] => []
  | m, c :: cs =>
    if beginsComment m (c :: cs) then (c :: cs).map (·, .comment)
    else (c, kind m c) :: lexLine (advance m c) cs

/-- The mode at the end of a line. -/
def lastMode : Mode → List Char → Mode
  | m, [] => m
  | m, c :: cs => if beginsComment m (c :: cs) then .code else lastMode (advance m c) cs

/-- A line and the mode that it begins in. -/
structure Line where
  mode : Mode
  text : List Char
  deriving DecidableEq

def readLines : Mode → List (List Char) → List Line
  | _, [] => []
  | m, l :: ls => ⟨m, l⟩ :: readLines (advance (lastMode m l) '\n') ls

def Line.tokens (l : Line) : List Token := lexLine l.mode l.text

/-- A line of which a comment takes all but the blanks. -/
def Line.isWhole (l : Line) : Bool := l.mode = .code && isComment l.text

def lines (body : String) : List Line := readLines .code (body.toList.splitOn '\n')

/-- The lines that do not go with their comment. -/
def kept (ls : List Line) : List Line := ls.filter fun l => !l.isWhole

def Line.withoutComment (l : Line) : List Token := l.tokens.filter fun t => t.2 ≠ .comment

def newline : Token := ('\n', .code)

def stream (ls : List Line) : List Token :=
  [newline].intercalate ((kept ls).map Line.withoutComment)

/-- Statements end at the semicolons of the code. -/
def isSeparator (t : Token) : Bool := t = (';', .code)

def statements (body : String) : List String :=
  (pieces isSeparator Prod.fst (stream (lines body))).map String.ofList

/-- What is executed of a migration are its statements. -/
def StatementLaw (body : String) : Prop :=
  (splitStatements body).map trimSpace = statements body

/-- No literal has a line that looks like a comment, comments have lines of their own, and no
literal has a semicolon. -/
structure Splittable (body : String) : Prop where
  literalLine : ∀ l ∈ lines body, l.mode ≠ .code → isComment l.text = false
  ownLine : ∀ l ∈ kept (lines body), ∀ t ∈ l.tokens, t.2 ≠ .comment
  literal : ∀ l ∈ kept (lines body), (';', .literal) ∉ l.tokens

theorem kind_ne_comment (m : Mode) (c : Char) : kind m c ≠ .comment := by
  cases m with
  | code =>
    rw [kind]
    split <;> simp
  | literal => simp [kind]
  | escaped => simp [kind]

theorem lexLine_chars (m : Mode) (l : List Char) : (lexLine m l).map Prod.fst = l := by
  induction l generalizing m with
  | nil => rfl
  | cons c cs ih =>
    rw [lexLine]
    split
    · rw [List.map_map]
      exact List.map_id _
    · rw [List.map_cons, ih]

theorem isComment_iff {l : List Char} : isComment l = true ↔
    ∃ bl r, l = bl ++ '-' :: '-' :: r ∧ ∀ c ∈ bl, isSpace c = true := by
  have hchars : isComment l = "--".toList.isPrefixOf (trim l) := by
    simp only [isComment, trimSpace, String.toList_ofList, trim]
  rw [hchars, List.isPrefixOf_iff_prefix]
  constructor
  · rintro ⟨r, hr⟩
    obtain ⟨s, hs⟩ := trim_isPrefix l
    refine ⟨l.takeWhile isSpace, r ++ s, ?_, fun c hc => List.mem_takeWhile_imp hc⟩
    have hsplit := List.takeWhile_append_dropWhile (p := isSpace) (l := l)
    rw [← hs, ← hr] at hsplit
    exact hsplit.symm.trans (by simp)
  · rintro ⟨bl, r, rfl, hbl⟩
    have haround := trim_around (a := '-') (b := '-') (by decide) (by decide) bl [] r
    have hdrop : bl.dropWhile isSpace = [] := List.dropWhile_eq_nil_iff.mpr hbl
    rw [List.nil_append, hdrop, List.nil_append, List.nil_append] at haround
    rw [haround]
    exact ⟨_, rfl⟩

/-- Two dashes that begin a line in a literal belong to the literal. -/
theorem lexLine_literal {m : Mode} (hm : m ≠ .code) {bl : List Char} (r : List Char)
    (hbl : ∀ c ∈ bl, isSpace c = true) : ∃ ts, lexLine m (bl ++ '-' :: '-' :: r) =
      bl.map (·, .literal) ++ ('-', .literal) :: ('-', .literal) :: ts := by
  have hstep (m : Mode) (hm : m ≠ .code) (c : Char) (cs : List Char) :
      lexLine m (c :: cs) = (c, .literal) :: lexLine (advance m c) cs := by
    have hbegins : beginsComment m (c :: cs) = false := by simp [beginsComment, hm]
    rw [lexLine, hbegins]
    cases m with
    | code => exact absurd rfl hm
    | literal => rfl
    | escaped => rfl
  have hstay (m : Mode) (hm : m ≠ .code) (c : Char) (hc : c ≠ '\'') : advance m c ≠ .code := by
    cases m with
    | code => exact absurd rfl hm
    | literal =>
      rw [advance, if_neg hc]
      split <;> simp
    | escaped => simp [advance]
  induction bl generalizing m with
  | nil =>
    refine ⟨lexLine (advance (advance m '-') '-') r, ?_⟩
    rw [List.nil_append, hstep m hm, hstep _ (hstay m hm '-' (by decide))]
    rfl
  | cons b bl ih =>
    rw [List.forall_mem_cons] at hbl
    have hb : b ≠ '\'' := fun heq => absurd (heq ▸ hbl.1) (by decide)
    obtain ⟨ts, hts⟩ := ih (hstay m hm b hb) hbl.2
    exact ⟨ts, by rw [List.cons_append, hstep m hm, hts]; rfl⟩

/-- A literal has been opened since the last separator. -/
def Opened (ts : List Token) : Prop :=
  ∃ xs ys, ts = xs ++ ('\'', .literal) :: ys ∧ ∀ t ∈ ys, isSeparator t = false

theorem Opened.append {ts us : List Token} (h : Opened ts)
    (hus : ∀ t ∈ us, isSeparator t = false) : Opened (ts ++ us) := by
  obtain ⟨xs, ys, rfl, hys⟩ := h
  refine ⟨xs, ys ++ us, by simp, fun t ht => ?_⟩
  rcases List.mem_append.mp ht with ht | ht
  · exact hys t ht
  · exact hus t ht

theorem Opened.prepend {ts : List Token} (h : Opened ts) (us : List Token) :
    Opened (us ++ ts) := by
  obtain ⟨xs, ys, rfl, hys⟩ := h
  exact ⟨us ++ xs, ys, by simp, hys⟩

theorem Opened.of_newline {ts : List Token} (h : Opened (ts ++ [newline])) : Opened ts := by
  obtain ⟨xs, ys, heq, hys⟩ := h
  rcases List.eq_nil_or_concat' ys with rfl | ⟨zs, z, rfl⟩
  · exact absurd (List.append_inj' heq rfl).2 (by decide)
  · rw [← List.cons_append, ← List.append_assoc] at heq
    refine ⟨xs, zs, (List.append_inj' heq rfl).1, fun t ht => ?_⟩
    exact hys t (List.mem_append_left _ ht)

/-- A literal that goes on at the end of a line was opened in it or has gone on all along. -/
theorem opened_of_lastMode {m : Mode} {l : List Char} (h : lastMode m l ≠ .code) :
    Opened (Line.withoutComment ⟨m, l⟩) ∨
      (m ≠ .code ∧ ∀ t ∈ Line.withoutComment ⟨m, l⟩, isSeparator t = false) := by
  induction l generalizing m with
  | nil => exact .inr ⟨h, by simp [Line.withoutComment, Line.tokens, lexLine]⟩
  | cons c cs ih =>
    rw [lastMode] at h
    split at h
    next => exact absurd rfl h
    next hbegins =>
      have hkind : kind m c ≠ .comment := kind_ne_comment m c
      have htokens : Line.withoutComment ⟨m, c :: cs⟩ =
          (c, kind m c) :: Line.withoutComment ⟨advance m c, cs⟩ := by
        simp [Line.withoutComment, Line.tokens, lexLine, hbegins, hkind]
      rw [htokens]
      rcases ih h with hopened | ⟨hmode, hrest⟩
      · exact .inl (hopened.prepend [(c, kind m c)])
      · cases m with
        | code =>
          have hc : c = '\'' := by
            by_contra hc
            simp [advance, hc] at hmode
          subst hc
          exact .inl ⟨[], _, rfl, hrest⟩
        | literal =>
          refine .inr ⟨by simp, ?_⟩
          rw [List.forall_mem_cons]
          exact ⟨by simp [isSeparator, kind], hrest⟩
        | escaped =>
          refine .inr ⟨by simp, ?_⟩
          rw [List.forall_mem_cons]
          exact ⟨by simp [isSeparator, kind], hrest⟩

private theorem lastMode_whole {l : List Char} (h : isComment l = true) : lastMode .code l =
    .code := by
  obtain ⟨bl, r, rfl, hbl⟩ := isComment_iff.mp h
  clear h
  induction bl with
  | nil => simp [lastMode, beginsComment]
  | cons b bl ih =>
    rw [List.forall_mem_cons] at hbl
    have hb : b ≠ '\'' := fun heq => absurd (heq ▸ hbl.1) (by decide)
    have hrest := ih hbl.2
    rw [List.cons_append, lastMode]
    split
    · rfl
    · simpa [advance, hb] using hrest

private theorem stream_whole {l : Line} (h : l.isWhole = true) (ls : List Line) :
    stream (l :: ls) = stream ls := by
  simp [stream, kept, h]

theorem stream_cons {l : Line} (h : l.isWhole = false) {ls : List Line} (hne : kept ls ≠ []) :
    stream (l :: ls) = l.withoutComment ++ newline :: stream ls := by
  have hkept : kept (l :: ls) = l :: kept ls := by simp [kept, h]
  have hmap : (kept ls).map Line.withoutComment ≠ [] := by simpa using hne
  rw [stream, hkept, List.map_cons, List.intercalate_cons_of_ne_nil hmap, List.append_assoc,
    List.singleton_append, stream]

private theorem withoutComment_prefix {l : Line} (h : l.isWhole = false) (ls : List Line) :
    l.withoutComment <+: stream (l :: ls) := by
  by_cases hne : kept ls = []
  · have hkept : kept (l :: ls) = [l] := by
      rw [kept] at hne
      simp [kept, h, hne]
    simp [stream, hkept]
  · rw [stream_cons h hne]
    exact List.prefix_append _ _

/-- Such a line is kept in the stream, behind the quote that opened the literal. -/
theorem stream_of_literalLine {m : Mode} {ls : List (List Char)} (hnl : ∀ l ∈ ls, '\n' ∉ l)
    (hl : ∃ l ∈ readLines m ls, l.mode ≠ .code ∧ isComment l.text = true) :
    ∃ (front : List Token) (bl : List Char) (back : List Token),
      stream (readLines m ls) = front ++ (bl.map (·, .literal) ++
        ('-', .literal) :: ('-', .literal) :: back) ∧
      ('\n' ∉ bl ∧ ∀ c ∈ bl, isSpace c = true) ∧
      (front = [] ∨ ∃ ts, front = ts ++ [newline]) ∧
      (Opened front ∨ (m ≠ .code ∧ ∀ t ∈ front, isSeparator t = false)) := by
  induction ls generalizing m with
  | nil => simp [readLines] at hl
  | cons l ls ih =>
    rw [List.forall_mem_cons] at hnl
    rw [readLines] at hl ⊢
    obtain ⟨k, hk, hmode, hcomment⟩ := hl
    rcases List.mem_cons.mp hk with rfl | hk
    · -- the line is the first one
      have hwhole : Line.isWhole ⟨m, l⟩ = false := by simp [Line.isWhole, hmode]
      obtain ⟨bl, r, rfl, hbl⟩ := isComment_iff.mp hcomment
      obtain ⟨ts, hts⟩ := lexLine_literal hmode r hbl
      obtain ⟨back, hback⟩ := withoutComment_prefix hwhole
        (readLines (advance (lastMode m (bl ++ '-' :: '-' :: r)) '\n') ls)
      refine ⟨[], bl, ts.filter (fun t => t.2 ≠ .comment) ++ back, ?_, ⟨?_, hbl⟩, .inl rfl,
        .inr ⟨hmode, by simp⟩⟩
      · rw [← hback, Line.withoutComment, Line.tokens, hts, List.filter_append,
          List.filter_eq_self.mpr (by simp)]
        simp
      · exact fun hmem => hnl.1 (List.mem_append_left _ hmem)
    · obtain ⟨front, bl, back, hstream, hbl, hfront, hopen⟩ := ih hnl.2 ⟨k, hk, hmode, hcomment⟩
      cases hwhole : Line.isWhole ⟨m, l⟩ with
      | true =>
        -- a comment leaves the code as it was
        have hm : m = .code ∧ isComment l = true := by simpa [Line.isWhole] using hwhole
        refine ⟨front, bl, back, by rw [stream_whole hwhole, hstream], hbl, hfront, .inl ?_⟩
        rcases hopen with hopen | ⟨hcode, -⟩
        · exact hopen
        · rw [hm.1, lastMode_whole hm.2] at hcode
          exact absurd rfl hcode
      | false =>
        have hkept : kept (readLines (advance (lastMode m l) '\n') ls) ≠ [] := by
          apply List.ne_nil_of_mem (a := k)
          exact List.mem_filter.mpr ⟨hk, by simp [Line.isWhole, hmode]⟩
        refine ⟨Line.withoutComment ⟨m, l⟩ ++ newline :: front, bl, back, ?_, hbl, .inr ?_, ?_⟩
        · rw [stream_cons hwhole hkept, hstream, List.append_assoc, List.cons_append]
        · rcases hfront with rfl | ⟨ts, rfl⟩
          · exact ⟨Line.withoutComment ⟨m, l⟩, rfl⟩
          · exact ⟨Line.withoutComment ⟨m, l⟩ ++ newline :: ts, by simp⟩
        · rcases hopen with hopen | ⟨hcode, hfree⟩
          · exact .inl ((hopen.prepend [newline]).prepend _)
          · have hlast : lastMode m l ≠ .code := by
              intro heq
              rw [heq] at hcode
              exact absurd rfl hcode
            have hfree' : ∀ t ∈ newline :: front, isSeparator t = false := by
              rw [List.forall_mem_cons]
              exact ⟨by decide, hfree⟩
            rcases opened_of_lastMode hlast with hopened | ⟨hm, hline⟩
            · exact .inl (hopened.append hfree')
            · refine .inr ⟨hm, fun t ht => ?_⟩
              rcases List.mem_append.mp ht with ht | ht
              · exact hline t ht
              · exact hfree' t ht

/-- The text that is cut at its semicolons. -/
def codeText (body : String) : List Char :=
  ['\n'].intercalate ((body.toList.splitOn '\n').filter fun line => !isComment line)

private theorem splitStatements_trimmed (body : String) : (splitStatements body).map trimSpace =
    (pieces (· = ';') id (codeText body)).map String.ofList := by
  have htrim (seg : List Char) : trimSpace (String.ofList seg) = String.ofList (trim seg) := by
    simp only [trimSpace, String.toList_ofList, trim]
  have hrun (segs : List (List Char)) :
      ((segs.map String.ofList).filter fun p => trimSpace p ≠ "").map trimSpace =
        ((segs.map fun seg => trim (seg.map id)).filter (· ≠ [])).map String.ofList := by
    induction segs with
    | nil => rfl
    | cons seg segs ih =>
      rw [List.map_cons, List.map_cons, List.filter_cons, List.filter_cons, List.map_id, htrim]
      by_cases hnil : trim seg = []
      · simpa [hnil] using ih
      · have hne : String.ofList (trim seg) ≠ "" := fun h => hnil (String.ofList_injective h)
        rw [if_pos (by simpa using hne), if_pos (by simpa using hnil), List.map_cons,
          List.map_cons, ih, htrim]
  rw [splitStatements, hrun]
  have hsep : (fun c : Char => c == ';') = fun c => decide (c = ';') := funext fun c => rfl
  rw [pieces, List.splitOn_eq_splitOnP, stripLineComments, String.toList_ofList, hsep, codeText]

theorem statementLaw_iff_pieces (body : String) : StatementLaw body ↔
    pieces (· = ';') id (codeText body) = pieces isSeparator Prod.fst (stream (lines body)) := by
  rw [StatementLaw, splitStatements_trimmed, statements]
  constructor
  · intro h
    exact List.map_injective_iff.mpr (fun _ _ heq => String.ofList_injective heq) h
  · intro h
    rw [h]

private theorem map_text_readLines (m : Mode) (ls : List (List Char)) :
    (readLines m ls).map Line.text = ls := by
  induction ls generalizing m with
  | nil => rfl
  | cons l ls ih => rw [readLines, List.map_cons, ih]

theorem newline_free {body : String} {l : List Char} (hl : l ∈ body.toList.splitOn '\n') :
    '\n' ∉ l := by
  rw [List.splitOn_eq_splitOnP] at hl
  intro hmem
  exact absurd (free_of_mem_splitOnP hl _ hmem) (by decide)

/-- No line after the first one of the text that is cut looks like a comment. -/
theorem codeText_free {body : String} {bl : List Char} (hnl : '\n' ∉ bl)
    (hbl : ∀ c ∈ bl, isSpace c = true) : ¬ ('\n' :: (bl ++ ['-', '-']) <:+: codeText body) := by
  rintro ⟨u, v, huv⟩
  have hne : ((body.toList.splitOn '\n').filter fun line => !isComment line) ≠ [] := by
    intro hnil
    rw [codeText, hnil] at huv
    simp at huv
  have hlines := List.splitOn_intercalate '\n'
    (fun l hl => newline_free (List.mem_of_mem_filter hl)) hne
  have htext : codeText body = u ++ '\n' :: ((bl ++ ['-', '-']) ++ v) := by
    rw [← huv]
    simp
  have hfree : ∀ c ∈ bl ++ ['-', '-'], (c == '\n') = false := by
    intro c hc
    rw [beq_eq_false_iff_ne]
    rintro rfl
    simp [hnl] at hc
  obtain ⟨seg, segs, hsplit⟩ := splitOnP_append_free hfree v
  rw [← List.splitOn_eq_splitOnP] at hsplit
  rw [← codeText, htext, List.splitOn_append_cons_self, hsplit] at hlines
  have hmem : bl ++ ['-', '-'] ++ seg ∈
      (body.toList.splitOn '\n').filter fun line => !isComment line := by
    rw [← hlines]
    simp
  have hcomment : isComment (bl ++ ['-', '-'] ++ seg) = true :=
    isComment_iff.mpr ⟨bl, seg, by simp, hbl⟩
  have hkeep := List.of_mem_filter hmem
  rw [hcomment] at hkeep
  exact absurd hkeep (by decide)

theorem literalLine_of_law {body : String} (h : StatementLaw body) {l : Line}
    (hl : l ∈ lines body) (hmode : l.mode ≠ .code) : isComment l.text = false := by
  rw [statementLaw_iff_pieces] at h
  by_contra hcomment
  rw [Bool.not_eq_false] at hcomment
  obtain ⟨front, bl, back, hstream, hbl, hfront, hopen⟩ :=
    stream_of_literalLine (fun l hl => newline_free hl) ⟨l, hl, hmode, hcomment⟩
  have hopened : Opened front := hopen.resolve_right fun hright => hright.1 rfl
  obtain ⟨ts, rfl⟩ : ∃ ts, front = ts ++ [newline] := by
    rcases hfront with rfl | hfront
    · obtain ⟨xs, ys, heq, -⟩ := hopened
      simp at heq
    · exact hfront
  obtain ⟨xs, ys, rfl, hys⟩ := hopened.of_newline
  -- the quote and the dashes stand on both sides of the line break
  obtain ⟨mid, hmid⟩ : ∃ mid : List Token, mid = ('\'', .literal) :: (ys ++ newline ::
      (bl.map (·, .literal) ++ [('-', .literal), ('-', .literal)])) := ⟨_, rfl⟩
  have hfree : ∀ t ∈ mid, isSeparator t = false := by
    have hliteral (c : Char) : isSeparator (c, .literal) = false := by simp [isSeparator]
    rw [hmid]
    simp only [List.forall_mem_cons, List.forall_mem_append, List.forall_mem_map,
      List.not_mem_nil, false_implies, implies_true, and_true]
    exact ⟨hliteral _, hys, by decide, fun c _ => hliteral c, hliteral _, hliteral _⟩
  have hchars : mid.map Prod.fst =
      '\'' :: ((ys.map Prod.fst ++ '\n' :: (bl ++ ['-'])) ++ ['-']) := by
    simp [hmid, newline, Function.comp_def]
  have hstream' : stream (lines body) = xs ++ (mid ++ back) := by
    rw [lines, hstream, hmid]
    simp
  obtain ⟨p, hp, hinfix⟩ := exists_pieces_infix xs back hfree hchars (by decide) (by decide)
  rw [← hstream', ← h] at hp
  have hcode := hinfix.trans (infix_of_mem_pieces hp)
  rw [List.map_id, hchars] at hcode
  refine codeText_free hbl.1 hbl.2 (List.IsInfix.trans ?_ hcode)
  exact ⟨'\'' :: ys.map Prod.fst, [], by simp⟩

private theorem isWhole_eq {l : Line} (h : l.mode ≠ .code → isComment l.text = false) :
    (!isComment l.text) = !l.isWhole := by
  rw [Line.isWhole]
  cases hmode : decide (l.mode = .code) with
  | true => rw [Bool.true_and]
  | false => rw [h (of_decide_eq_false hmode), Bool.and_false]

theorem kept_text {body : String}
    (h : ∀ l ∈ lines body, l.mode ≠ .code → isComment l.text = false) :
    (body.toList.splitOn '\n').filter (fun line => !isComment line) =
      (kept (lines body)).map Line.text := by
  have hlines : (lines body).map Line.text = body.toList.splitOn '\n' :=
    map_text_readLines .code _
  have hwhole : ∀ l ∈ lines body, (!isComment l.text) = !l.isWhole :=
    fun l hl => isWhole_eq (h l hl)
  rw [← hlines, List.filter_map, Function.comp_def, List.filter_congr hwhole, kept]

private theorem count_withoutComment_le (c : Char) (l : Line) :
    (l.withoutComment.map Prod.fst).count c ≤ l.text.count c := by
  have hsub : List.Sublist (l.withoutComment.map Prod.fst) (l.tokens.map Prod.fst) :=
    List.filter_sublist.map Prod.fst
  rw [Line.tokens, lexLine_chars] at hsub
  exact hsub.count_le c

/-- A comment has dashes. -/
theorem count_withoutComment_lt {l : Line} (h : ∃ t ∈ l.tokens, t.2 = .comment) :
    (l.withoutComment.map Prod.fst).count '-' < l.text.count '-' := by
  obtain ⟨m, l⟩ := l
  change (((lexLine m l).filter fun t => t.2 ≠ .comment).map Prod.fst).count '-' < l.count '-'
  change ∃ t ∈ lexLine m l, t.2 = .comment at h
  induction l generalizing m with
  | nil => simp [lexLine] at h
  | cons c cs ih =>
    rw [lexLine] at h ⊢
    split at h
    next hbegins =>
      have hc : c = '-' := by
        rw [beginsComment, Bool.and_eq_true] at hbegins
        obtain ⟨r, hr⟩ := List.isPrefixOf_iff_prefix.mp hbegins.2
        exact (List.cons.inj hr).1.symm
      have hnil : ((c :: cs).map (·, Kind.comment)).filter (fun t => t.2 ≠ .comment) = [] := by
        rw [List.filter_eq_nil_iff, List.forall_mem_map]
        simp
      rw [if_pos hbegins, hnil, hc]
      simp
    next hbegins =>
      have hkind : kind m c ≠ .comment := kind_ne_comment m c
      rw [if_neg hbegins, List.filter_cons_of_pos (by simpa using hkind), List.map_cons,
        List.count_cons, List.count_cons]
      obtain ⟨t, ht, hcomment⟩ := h
      rcases List.mem_cons.mp ht with rfl | ht
      · exact absurd hcomment hkind
      · exact Nat.add_lt_add_right (ih (advance m c) ⟨t, ht, hcomment⟩) _

private theorem count_codeText {body : String}
    (h : ∀ l ∈ lines body, l.mode ≠ .code → isComment l.text = false) :
    (codeText body).count '-' = ((kept (lines body)).map fun l => l.text.count '-').sum := by
  rw [codeText, kept_text h, count_intercalate (by decide), List.map_map]
  rfl

theorem stream_chars (ls : List Line) : (stream ls).map Prod.fst =
    ['\n'].intercalate ((kept ls).map fun l => l.withoutComment.map Prod.fst) := by
  rw [stream, map_intercalate, List.map_map]
  rfl

private theorem ownLine_of_law {body : String} (h : StatementLaw body) {l : Line}
    (hl : l ∈ kept (lines body)) {t : Token} (ht : t ∈ l.tokens) : t.2 ≠ .comment := by
  intro hcomment
  have hliteral := fun l => literalLine_of_law (l := l) h
  rw [statementLaw_iff_pieces] at h
  have hsum := congrArg (fun ps => (ps.map (List.count '-')).sum) h
  have hdash : isSpace '-' = false := by decide
  rw [sum_count_pieces hdash, sum_count_pieces hdash, count_filter_map, count_filter_map,
    List.map_id, count_codeText hliteral, stream_chars, count_intercalate (by decide),
    List.map_map] at hsum
  · have hlt : ((kept (lines body)).map fun l => (l.withoutComment.map Prod.fst).count '-').sum <
        ((kept (lines body)).map fun l => l.text.count '-').sum :=
      List.sum_lt_sum _ _ (fun l _ => count_withoutComment_le '-' l)
        ⟨l, hl, count_withoutComment_lt ⟨t, ht, hcomment⟩⟩
    exact absurd hsum hlt.ne'
  · intro a _ ha
    simp [isSeparator, Prod.ext_iff, ha]
  · intro a _ ha
    simp [show a = '-' from ha]

private theorem mem_stream {ls : List Line} {l : Line} (hl : l ∈ kept ls) {t : Token}
    (ht : t ∈ l.tokens) (hkind : t.2 ≠ .comment) : t ∈ stream ls :=
  mem_intercalate (List.mem_map_of_mem hl) (List.mem_filter.mpr ⟨ht, by simpa using hkind⟩)

private theorem literal_of_law {body : String} (h : StatementLaw body) {l : Line}
    (hl : l ∈ kept (lines body)) : (';', .literal) ∉ l.tokens := by
  intro ht
  rw [statementLaw_iff_pieces] at h
  have hmem := mem_stream hl ht (by simp)
  have hsum := congrArg (fun ps => (ps.map (List.count ';')).sum) h
  have hspace : isSpace ';' = false := by decide
  rw [sum_count_pieces hspace, sum_count_pieces hspace] at hsum
  have hcode : (((codeText body).filter fun c => !(c = ';')).map id).count ';' = 0 := by
    rw [List.map_id, List.count_eq_zero]
    simp
  rw [hcode, eq_comm, List.count_eq_zero] at hsum
  apply hsum
  exact List.mem_map.mpr ⟨_, List.mem_filter.mpr ⟨hmem, by decide⟩, rfl⟩

private theorem law_of_splittable {body : String} (h : Splittable body) : StatementLaw body := by
  rw [statementLaw_iff_pieces]
  have hline : ∀ l ∈ kept (lines body), l.withoutComment = l.tokens := by
    intro l hl
    exact List.filter_eq_self.mpr fun t ht => by simpa using h.ownLine l hl t ht
  have hchars : (stream (lines body)).map Prod.fst = codeText body := by
    rw [stream_chars, codeText, kept_text h.literalLine]
    refine congrArg _ (List.map_congr_left fun l hl => ?_)
    rw [hline l hl, Line.tokens, lexLine_chars]
  have hsep : ∀ t ∈ stream (lines body), isSeparator t = decide (t.1 = ';') := by
    intro t ht
    rcases of_mem_intercalate ht with rfl | ⟨ts, hts, ht⟩
    · decide
    · obtain ⟨l, hl, rfl⟩ := List.mem_map.mp hts
      rw [hline l hl] at ht
      have hcomment := h.ownLine l hl t ht
      have hliteral := h.literal l hl
      obtain ⟨c, k⟩ := t
      cases k with
      | code => simp [isSeparator]
      | literal =>
        have hc : c ≠ ';' := by
          rintro rfl
          exact hliteral ht
        simp [isSeparator, hc]
      | comment => exact absurd rfl hcomment
  rw [← hchars]
  exact (pieces_map hsep).symm

theorem splitStatements_iff (body : String) : StatementLaw body ↔ Splittable body := by
  constructor
  · intro h
    exact ⟨fun l => literalLine_of_law h, fun l hl t => ownLine_of_law h hl,
      fun l => literal_of_law h⟩
  · exact law_of_splittable

/-- A column with a comment behind it, and a string with a semicolon. -/
theorem statement_cut :
    ¬ StatementLaw "CREATE TABLE t (\n  a String, -- one; two\n  b String\n);\n" ∧
    ¬ StatementLaw "INSERT INTO t VALUES ('a;b');\n" := by
  rw [StatementLaw, StatementLaw]
  decide +kernel

/-- A comment with a line of its own may have semicolons and quotes. -/
example : splitStatements "-- it's one; not two\nSELECT 1;\nSELECT ' -- ';\n" =
    ["SELECT 1", "\nSELECT ' -- '"] := by decide +kernel

end Statnive.MigrationStatements
