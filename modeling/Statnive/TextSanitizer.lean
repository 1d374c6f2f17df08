import Mathlib.Tactic.Set
import Statnive.RegexMatch

/-!
# Untrusted text in the results of the tools

A string is put into its normal form, and then the passes take out invisible runes, comments and
instruction tags and mask secrets, each once. A pass may put together what the ones before it
would have taken. The strings are those of decoded JSON, lists of runes.
-/

namespace Statnive.TextSanitizer

open RegexMatch RegexMatch.Regex

def isSpace (c : Char) : Bool := c ∈ ['\t', '\n', '\x0C', '\r', ' ']

/-- Some letters are the same as others that are not ASCII, when case is ignored. -/
def foldsTo (c d : Char) : Bool :=
  d.toLower = c || (c = 's' && d = 'ſ') || (c = 'k' && d = '\u212A')

def htmlCommentRe : Regex := text "<!--" ((many false fun _ => true).seq (text "-->" empty))

/-- The names, in the order in which they are tried. -/
def instructionNames : Regex :=
  alt (word foldsTo "important" empty) (alt (word foldsTo "system" empty)
    (alt (word foldsTo "instruction" (opt (one (foldsTo 's'))))
      (alt (word foldsTo "assistant" empty) (word foldsTo "tool_call" empty))))

def instructionTagRe : Regex :=
  (one (· = '<')).seq
    (((opt (one (· = '/'))).seq ((many true isSpace).seq (instructionNames.seq
      (boundary.seq (many true (· ≠ '>')))))).seq
    (one (· = '>')))

def isTokenChar (c : Char) : Bool := c.isAlphanum || c = '_' || c = '-'

def secretRes : List Regex :=
  [text "AKIA" (times (fun c => c.isDigit || c.isUpper) 16 empty),
    text "sk-" (atLeast isTokenChar 16 empty),
    text "gh" ((one (· ∈ ['p', 'o', 'u', 's', 'r'])).seq
      (text "_" (atLeast Char.isAlphanum 20 empty))),
    text "eyJ" (atLeast isTokenChar 8 (text "." (atLeast isTokenChar 8
      (text "." (atLeast isTokenChar 8 empty)))))]

def secretMask : List Char := "[redacted]".toList

def isInvisible (c : Char) : Bool :=
  let r := c.toNat
  r = 0x200B || r = 0x200C || r = 0x200D || r = 0x2060 || r = 0xFEFF ||
    r = 0x200E || r = 0x200F ||
    (0x202A ≤ r && r ≤ 0x202E) || (0x2066 ≤ r && r ≤ 0x2069) || (0xE0000 ≤ r && r ≤ 0xE007F)

section

variable {α : Type*}

/-- The runes may carry something that the passes do not look at. -/
def stripInvisible (rune : α → Char) (s : List α) : List α :=
  s.filter fun a => !isInvisible (rune a)

def redactSecrets (rune : α → Char) (mask s : List α) : List α :=
  secretRes.foldl (fun s re => re.replaceAll rune mask s) s

def passes (rune : α → Char) (mask s : List α) : List α :=
  let s := stripInvisible rune s
  let s := htmlCommentRe.replaceAll rune [] s
  let s := instructionTagRe.replaceAll rune [] s
  redactSecrets rune mask s

end

/-- It is put between the marks on a letter when there are too many of them. -/
def graphemeJoiner : Char := '\u034F'

/-- The normal form of a text, and what is known of it. It has the decomposed runes of the text,
up to their order and to joiners; the normal form of a normal text and of each stretch of it is
itself. -/
structure Normalizer where
  nfc : List Char → List Char
  decomposed : Char → List Char
  decomposed_ne : ∀ c, c ≠ graphemeJoiner → ∃ d ∈ decomposed c, d ≠ graphemeJoiner
  decomposed_ascii : ∀ c, c.toNat < 0x80 → decomposed c = [c]
  nfc_perm : ∀ s, (((nfc s).flatMap decomposed).filter (· ≠ graphemeJoiner)).Perm
    ((s.flatMap decomposed).filter (· ≠ graphemeJoiner))
  nfc_nfc : ∀ s, nfc (nfc s) = nfc s
  nfc_infix : ∀ s t, nfc s = s → t <:+: s → nfc t = t

def string (n : Normalizer) (s : List Char) : List Char :=
  if s = [] then s else passes id secretMask (n.nfc s)

/-- A decoded JSON value; what is neither a string nor a container is left as it is. -/
inductive Value (α : Type*) where
  | string (s : List Char)
  | array (vs : List (Value α))
  | object (fields : List (String × Value α))
  | other (a : α)

section

variable {α : Type*}

mutual

/-- The keys of an object are left as they are. -/
def value (n : Normalizer) : Value α → Value α
  | .string s => .string (string n s)
  | .array vs => .array (values n vs)
  | .object fields => .object (valueFields n fields)
  | .other a => .other a

def values (n : Normalizer) : List (Value α) → List (Value α)
  | [] => []
  | v :: vs => value n v :: values n vs

def valueFields (n : Normalizer) : List (String × Value α) → List (String × Value α)
  | [] => []
  | (key, v) :: fields => (key, value n v) :: valueFields n fields

end

mutual

/-- The strings of a value, without the keys. -/
def Value.strings : Value α → List (List Char)
  | .string s => [s]
  | .array vs => stringsOf vs
  | .object fields => fieldStrings fields
  | .other _ => []

def stringsOf : List (Value α) → List (List Char)
  | [] => []
  | v :: vs => v.strings ++ stringsOf vs

def fieldStrings : List (String × Value α) → List (List Char)
  | [] => []
  | (_, v) :: fields => v.strings ++ fieldStrings fields

end

end

structure Sanitised (n : Normalizer) (s : List Char) : Prop where
  visible : ∀ c ∈ string n s, isInvisible c = false
  uncommented : htmlCommentRe.matchString (string n s) = false
  untagged : instructionTagRe.matchString (string n s) = false
  unleaked : ∀ re ∈ secretRes, re.matchString (string n s) = false
  stable : string n (string n s) = string n s

/-- The runes of a text, each with its place. -/
def numbered (s : List Char) : List (Char × Option ℕ) := s.zipIdx.map fun a => (a.1, some a.2)

/-- The runes of a text that the passes leave, and those of the masks, which have no place. -/
def left (n : Normalizer) (s : List Char) : List (Char × Option ℕ) :=
  passes Prod.fst (secretMask.map (·, none)) (numbered (n.nfc s))

/-- The first part of a tag, up to its name. -/
def instructionTagHead : Regex :=
  (one (· = '<')).seq ((opt (one (· = '/'))).seq ((many true isSpace).seq instructionNames))

/-- A block of what is left is not one of the text: a secret is masked in it, or the passes take
out a stretch of the text that stood between two of its runes. -/
inductive Parted (n : Normalizer) (s : List Char) (block : List (Char × Option ℕ)) : Prop where
  | masked {rune} (hmem : rune ∈ block) (hmask : rune.2 = none)
  | taken {before gone behind} (hstretch : before :: (gone ++ [behind]) <:+: numbered (n.nfc s))
      (hne : gone ≠ []) (hgone : ∀ rune ∈ gone, rune ∉ left n s)
      (hbefore : before ∈ block) (hbehind : behind ∈ block)

/-- In what is left, runes stand together that were parted in the text: those of the opening or
the closing of a comment, those of the head of a tag and the rune behind it, or those of a block
that is not in normal form. -/
inductive Joined (n : Normalizer) (s : List Char) : Prop where
  | comment {opening body closing} (hleft : opening ++ (body ++ closing) <:+: left n s)
      (hopening : opening.map Prod.fst = "<!--".toList)
      (hclosing : closing.map Prod.fst = "-->".toList)
      (hparted : Parted n s opening ∨ Parted n s closing)
  | tag {head next tail} (hleft : head ++ next :: tail <:+: left n s)
      (hhead : instructionTagHead.Reads (head.map Prod.fst))
      (hnext : atBoundary ⟨(head.map Prod.fst).getLast?, [next.1]⟩ = true)
      (hclosed : '>' ∈ (next :: tail).map Prod.fst)
      (hparted : Parted n s (head ++ [next]))
  | unnormal {block} (hleft : block <:+: left n s)
      (hnfc : n.nfc (block.map Prod.fst) ≠ block.map Prod.fst)
      (hparted : Parted n s block)

theorem local_comment : Local htmlCommentRe := local_text rfl rfl

theorem local_tag : Local instructionTagRe := local_of_closed

theorem reads_comment_iff {u : List Char} :
    htmlCommentRe.Reads u ↔ ∃ body, u = "<!--".toList ++ (body ++ "-->".toList) :=
  reads_between.trans (exists_congr fun _ => and_iff_left fun _ _ => rfl)

/-- A tag is its head, at the end of a word, and what follows up to the next `>`. -/
theorem reads_tag_iff {u : List Char} :
    instructionTagRe.Reads u ↔ ∃ head body, u = head ++ (body ++ ['>']) ∧
      instructionTagHead.Reads head ∧ '>' ∉ body ∧
      atBoundary ⟨head.getLast?, body ++ ['>']⟩ = true := by
  have hplain : instructionTagHead.plain = true := by decide
  constructor
  · rintro ⟨prev, hmem⟩
    obtain ⟨m, hm, hmem⟩ := mem_ends_seq.mp hmem
    obtain ⟨z, hinner, hlast⟩ := mem_ends_seq.mp hmem
    obtain ⟨a, ha, hblanks⟩ := mem_ends_seq.mp hinner
    obtain ⟨b, hb, hnames⟩ := mem_ends_seq.mp hblanks
    obtain ⟨e, hd, hend⟩ := mem_ends_seq.mp hnames
    obtain ⟨d, he, hmany⟩ := mem_ends_seq.mp hend
    obtain ⟨hbound, rfl⟩ := mem_ends_boundary.mp he
    obtain ⟨body, hbody, hnot, -⟩ := mem_run.mp (mem_ends_many.mp hmany)
    obtain ⟨c, hc, hgt, -⟩ := mem_ends_one.mp hlast
    have hhead : d ∈ instructionTagHead.ends ⟨none, u⟩ :=
      mem_ends_seq.mpr ⟨m, hm, mem_ends_seq.mpr ⟨a, ha, mem_ends_seq.mpr ⟨b, hb, hd⟩⟩⟩
    obtain ⟨head, hcut, -, -⟩ := consumes hhead
    obtain rfl : u = head ++ d.rest := hcut
    have hprev : d.prev = head.getLast? := by
      rw [prev_of_mem hhead rfl]
      exact Option.or_none
    have hrest : d.rest = body ++ ['>'] := by
      rw [hbody, hc, of_decide_eq_true hgt]
    refine ⟨head, body, by rw [hrest], ⟨d.prev, ?_⟩, ?_, ?_⟩
    · exact (mem_ends_append (u := []) d.rest (.inr hplain)).mp hhead
    · intro hin
      simpa using hnot _ hin
    · rwa [← hprev, ← hrest]
  · rintro ⟨head, body, rfl, ⟨prev, hmem⟩, hnot, hbound⟩
    have hprev : prev = head.getLast? := by
      have heq := prev_of_mem hmem (List.append_nil head).symm
      rwa [Option.or_none] at heq
    have hhead := (mem_ends_append (u := []) (body ++ ['>']) (.inr hplain)).mpr hmem
    obtain ⟨m, hm, hmem⟩ := mem_ends_seq.mp hhead
    obtain ⟨a, ha, hmem⟩ := mem_ends_seq.mp hmem
    obtain ⟨b, hb, hmem⟩ := mem_ends_seq.mp hmem
    refine ⟨some '>', mem_ends_seq.mpr ⟨m, hm, mem_ends_seq.mpr
      ⟨⟨body.getLast?.or prev, ['>']⟩, ?_, mem_ends_one.mpr ⟨'>', rfl, by simp, rfl⟩⟩⟩⟩
    refine mem_ends_seq.mpr ⟨a, ha, mem_ends_seq.mpr ⟨b, hb, mem_ends_seq.mpr ⟨_, hmem,
      mem_ends_seq.mpr ⟨_, mem_ends_boundary.mpr ⟨hprev ▸ hbound, rfl⟩, ?_⟩⟩⟩⟩
    refine mem_ends_many.mpr (mem_run.mpr ⟨body, rfl, fun c hc => ?_, rfl⟩)
    have hne : c ≠ '>' := fun heq => hnot (heq ▸ hc)
    simpa using hne

/-- A head that ends a word, with a `>` behind it, starts a tag. -/
theorem reads_of_head {head t : List Char} {c : Char} (hhead : instructionTagHead.Reads head)
    (hbound : atBoundary ⟨head.getLast?, [c]⟩ = true) (hgt : '>' ∈ c :: t) :
    ∃ u, u <+: c :: t ∧ instructionTagRe.Reads (head ++ u) := by
  obtain ⟨body, post, heq, hnot⟩ := List.eq_append_cons_of_mem hgt
  rw [heq]
  refine ⟨body ++ ['>'], ⟨post, by simp⟩, reads_tag_iff.mpr ⟨head, body, rfl, hhead, hnot, ?_⟩⟩
  cases body with
  | nil =>
    obtain ⟨rfl, -⟩ := List.cons.inj heq
    exact hbound
  | cons d body =>
    obtain ⟨rfl, -⟩ := List.cons.inj heq
    exact hbound

theorem local_secret : ∀ re ∈ secretRes, Local re := by
  simp only [secretRes, List.mem_cons, List.not_mem_nil, or_false]
  rintro _ (rfl | rfl | rfl | rfl)
  · exact local_text rfl rfl
  · exact local_text rfl rfl
  · exact local_text rfl rfl
  · exact local_text rfl rfl

/-- A secret is longer than the mask, and has neither of its ends, nor a joiner. -/
theorem secret_shape : ∀ re ∈ secretRes, 10 < re.minLength ∧
    re.allows '[' = false ∧ re.allows ']' = false ∧ re.allows graphemeJoiner = false := by
  simp only [secretRes, List.mem_cons, List.not_mem_nil, or_false]
  rintro _ (rfl | rfl | rfl | rfl)
  all_goals decide +kernel

private theorem secretMask_eq : secretMask = '[' :: ("redacted".toList ++ [']']) := by decide

/-- A match of a secret does not meet a mask. -/
theorem secret_clear {re : Regex} (hre : re ∈ secretRes) {u : List Char} (h : re.Reads u) :
    '[' ∉ u ∧ ']' ∉ u ∧ "redacted".toList.length < u.length := by
  obtain ⟨hlen, hopen, hclose, -⟩ := secret_shape re hre
  refine ⟨fun hmem => ?_, fun hmem => ?_, ?_⟩
  · simp [h.allowed _ hmem] at hopen
  · simp [h.allowed _ hmem] at hclose
  · have hmask : "redacted".toList.length = 8 := rfl
    have hmin := h.length
    omega

theorem matchString_false_iff {re : Regex} (hre : Local re) {s : List Char} :
    re.matchString s = false ↔ ∀ u, u <:+: s → ¬ re.Reads u := by
  rw [← Bool.not_eq_true, matchString_iff hre]
  simp

/-- What is masked once is gone, and a mask for another secret brings nothing back. -/
theorem redact_one {re re' : Regex} (hre : re ∈ secretRes) (hre' : re' ∈ secretRes)
    {s : List Char} (h : re = re' ∨ re.matchString s = false) :
    re.matchString (re'.replaceAll id secretMask s) = false := by
  rw [matchString_false_iff (local_secret re hre)]
  intro u hu hreads
  obtain ⟨hopen, hclose, hlen⟩ := secret_clear hre hreads
  rw [secretMask_eq] at hu
  obtain rfl | h := h
  · have hmin := (secret_shape re hre).1
    exact not_reads_of_infix_replaceFrom (local_secret re hre) (by omega) (le_refl _) hopen hclose
      hlen hu hreads
  · rw [matchString_false_iff (local_secret re hre)] at h
    exact h u (infix_of_replaceFrom hopen hclose hlen hu) hreads

private theorem redact_all {res : List Regex} (hres : res ⊆ secretRes) {re : Regex}
    (hre : re ∈ secretRes) {s : List Char} (h : re ∈ res ∨ re.matchString s = false) :
    re.matchString (res.foldl (fun s re => re.replaceAll id secretMask s) s) = false := by
  induction res generalizing s with
  | nil => exact h.resolve_left (by simp)
  | cons re' res ih =>
    refine ih (fun r hr => hres (List.mem_cons_of_mem _ hr)) ?_
    rw [List.mem_cons, or_assoc, or_left_comm] at h
    exact h.imp_right fun h => redact_one hre (hres List.mem_cons_self) h

private theorem redactSecrets_unleaked (s : List Char) :
    ∀ re ∈ secretRes, re.matchString (redactSecrets id secretMask s) = false :=
  fun _ hre => redact_all (List.Subset.refl _) hre (.inl hre)

section

variable {α β : Type*} {rune : α → Char} {rune' : β → Char} {mask s : List α} {g : α → β}

private theorem map_redactSecrets (hg : ∀ a, rune' (g a) = rune a) :
    (redactSecrets rune mask s).map g = redactSecrets rune' (mask.map g) (s.map g) := by
  rw [redactSecrets, redactSecrets]
  induction secretRes generalizing s with
  | nil => rfl
  | cons _ res ih => rw [List.foldl_cons, List.foldl_cons, ih, map_replaceAll hg]

private theorem map_passes (hg : ∀ a, rune' (g a) = rune a) :
    (passes rune mask s).map g = passes rune' (mask.map g) (s.map g) := by
  have hstrip : (stripInvisible rune s).map g = stripInvisible rune' (s.map g) := by
    rw [stripInvisible, stripInvisible, List.filter_map]
    simp only [Function.comp_def, hg]
  simp only [passes]
  rw [map_redactSecrets hg, map_replaceAll hg, map_replaceAll hg, hstrip, List.map_nil]

theorem mem_redactSecrets {a : α} (h : a ∈ redactSecrets rune mask s) : a ∈ s ∨ a ∈ mask := by
  rw [redactSecrets] at h
  generalize secretRes = res at h
  induction res generalizing s with
  | nil => exact .inl h
  | cons re res ih =>
    obtain h | h := ih h
    · exact mem_replaceAll h
    · exact .inr h

end

theorem map_fst_numbered (s : List Char) : (numbered s).map Prod.fst = s := by
  rw [numbered, List.map_map]
  exact List.zipIdx_map_fst 0 s

theorem nodup_numbered (s : List Char) : (numbered s).Nodup := by
  have hplaces : ((numbered s).map Prod.snd).Nodup := by
    rw [numbered, List.map_map]
    have hsnd : (Prod.snd ∘ fun a : Char × ℕ => (a.1, some a.2)) = some ∘ Prod.snd := rfl
    rw [hsnd, ← List.map_map, List.zipIdx_map_snd]
    exact (List.nodup_range').map fun _ _ h => Option.some.inj h
  exact hplaces.of_map _

variable {n : Normalizer} {s : List Char}

theorem Normalizer.nfc_nil (n : Normalizer) : n.nfc [] = [] :=
  n.nfc_infix (n.nfc []) [] (n.nfc_nfc []) List.nil_infix

theorem map_fst_left (n : Normalizer) (s : List Char) :
    (left n s).map Prod.fst = string n s := by
  have hmap : (left n s).map Prod.fst = passes id
      ((secretMask.map (·, (none : Option ℕ))).map Prod.fst)
      ((numbered (n.nfc s)).map Prod.fst) := map_passes fun _ => rfl
  have hmask : secretMask.map (Prod.fst ∘ fun c : Char => (c, (none : Option ℕ))) = secretMask :=
    List.map_id _
  rw [hmap, map_fst_numbered, List.map_map, hmask, string]
  split
  next h =>
    rw [h, n.nfc_nil]
    rfl
  next => rfl

section

variable {block opening body closing head tail : List (Char × Option ℕ)} {next : Char × Option ℕ}

/-- The runes that the passes have before the comments go, before the tags and before the
secrets. -/
def visibleRunes (n : Normalizer) (s : List Char) : List (Char × Option ℕ) :=
  stripInvisible Prod.fst (numbered (n.nfc s))

def uncommented (n : Normalizer) (s : List Char) : List (Char × Option ℕ) :=
  htmlCommentRe.replaceAll Prod.fst [] (visibleRunes n s)

def untagged (n : Normalizer) (s : List Char) : List (Char × Option ℕ) :=
  instructionTagRe.replaceAll Prod.fst [] (uncommented n s)

theorem visibleRunes_sublist : (visibleRunes n s).Sublist (numbered (n.nfc s)) :=
  List.filter_sublist

theorem uncommented_sublist : (uncommented n s).Sublist (visibleRunes n s) := replaceAll_sublist

theorem untagged_sublist : (untagged n s).Sublist (uncommented n s) := replaceAll_sublist

theorem placed_of_mem {a : Char × Option ℕ} (h : a ∈ numbered (n.nfc s)) : a.2.isSome = true := by
  rw [numbered] at h
  obtain ⟨b, -, rfl⟩ := List.mem_map.mp h
  rfl

/-- Runes with a place that are left were there before the secrets were masked. -/
theorem sublist_untagged {l : List (Char × Option ℕ)} (hl : l.Sublist (left n s))
    (hplaced : ∀ a ∈ l, a.2.isSome = true) : l.Sublist (untagged n s) := by
  have hself : l.filter (fun a => a.2.isSome) = l := List.filter_eq_self.mpr hplaced
  have hmask : ∀ a ∈ secretMask.map (·, (none : Option ℕ)), a.2.isSome = false := by simp
  have hredact (res : List Regex) (t : List (Char × Option ℕ)) :
      ((res.foldl (fun s re => re.replaceAll Prod.fst (secretMask.map (·, none)) s) t).filter
        fun a => a.2.isSome).Sublist t := by
    induction res generalizing t with
    | nil => exact List.filter_sublist
    | cons re res ih =>
      have hone := ih (re.replaceAll Prod.fst (secretMask.map (·, none)) t)
      have htwice := hone.filter fun a => a.2.isSome
      rw [List.filter_filter] at htwice
      simp only [Bool.and_self] at htwice
      exact htwice.trans (filter_replaceFrom_sublist hmask)
  rw [← hself]
  exact (hl.filter _).trans (hredact secretRes (untagged n s))

/-- Between runes that are left beside each other, the text has none that is left. -/
private theorem not_mem_left_of_between {before rune behind : Char × Option ℕ}
    (hpair : [before, behind] <:+: left n s)
    (hthree : [before, rune, behind].Sublist (numbered (n.nfc s))) : rune ∉ left n s := by
  intro hmem
  have hnodup := nodup_numbered (n.nfc s)
  have hplaced : ∀ a ∈ [before, rune, behind], a.2.isSome = true :=
    fun _ ha => placed_of_mem (hthree.subset ha)
  have hstanding : ((left n s).filter fun a => a.2.isSome).Sublist (numbered (n.nfc s)) :=
    (sublist_untagged List.filter_sublist (by simp)).trans
      (untagged_sublist.trans (uncommented_sublist.trans visibleRunes_sublist))
  have hbeside : [before, behind] <:+: (left n s).filter fun a => a.2.isSome := by
    have hfilter := hpair.filter fun a => a.2.isSome
    rwa [List.filter_eq_self.mpr fun a ha => hplaced a (by grind)] at hfilter
  have hall : [before, rune, behind] ⊆ (left n s).filter fun a => a.2.isSome := by
    have hends := hbeside.subset
    simp only [List.cons_subset] at hends ⊢
    exact ⟨hends.1, List.mem_filter.mpr ⟨hmem, hplaced rune (by simp)⟩, hends.2⟩
  have hbetween := mem_of_between (hnodup.sublist hstanding) hbeside (by simp) (by simp)
    (sublist_of_subset hnodup hstanding hthree hall)
  have hapart := hnodup.sublist hthree
  simp only [List.mem_cons, List.not_mem_nil, or_false] at hbetween
  simp only [List.nodup_cons, List.mem_cons, List.not_mem_nil, or_false, not_or] at hapart
  obtain rfl | rfl := hbetween
  · exact hapart.1.1 rfl
  · exact hapart.2.1 rfl

theorem parted_iff (hleft : block <:+: left n s) :
    Parted n s block ↔ ¬ block <:+: numbered (n.nfc s) := by
  have hthree {before rune behind : Char × Option ℕ} {gone : List (Char × Option ℕ)}
      (h : rune ∈ gone) : [before, rune, behind].Sublist (before :: (gone ++ [behind])) :=
    ((List.singleton_sublist.mpr h).append (List.Sublist.refl [behind])).cons_cons before
  constructor
  · intro hparted htext
    cases hparted with
    | masked hmem hmask =>
      have hplaced := placed_of_mem (htext.subset hmem)
      simp [hmask] at hplaced
    | @taken before gone behind hstretch hne hgone hbefore hbehind =>
      obtain ⟨rune, hrune⟩ := List.exists_mem_of_ne_nil gone hne
      have hmem := mem_of_between (nodup_numbered _) htext hbefore hbehind
        ((hthree hrune).trans hstretch.sublist)
      exact hgone rune hrune (hleft.subset hmem)
  · intro hnot
    by_cases hplaced : ∀ rune ∈ block, rune.2.isSome = true
    · have htext : block.Sublist (numbered (n.nfc s)) :=
        (sublist_untagged hleft.sublist hplaced).trans
          (untagged_sublist.trans (uncommented_sublist.trans visibleRunes_sublist))
      obtain ⟨before, gone, behind, hstretch, hne, hpair⟩ := exists_gap htext hnot
      exact .taken hstretch hne (fun rune hrune => not_mem_left_of_between (hpair.trans hleft)
        ((hthree hrune).trans hstretch.sublist)) (hpair.subset (by simp)) (hpair.subset (by simp))
    · obtain ⟨rune, hrune⟩ := not_forall.mp hplaced
      obtain ⟨hmem, hnone⟩ := Classical.not_imp.mp hrune
      exact .masked hmem (by simpa using hnone)

/-- Such runes follow each other in each stage as they do in the text. -/
theorem infix_visibleRunes (htog : block <:+: numbered (n.nfc s)) (hsub : block ⊆ untagged n s) :
    block <:+: visibleRunes n s :=
  infix_of_sublist visibleRunes_sublist (nodup_numbered _) htog
    fun _ ha => uncommented_sublist.subset (untagged_sublist.subset (hsub ha))

private theorem infix_uncommented
    (htog : block <:+: numbered (n.nfc s)) (hsub : block ⊆ untagged n s) :
    block <:+: uncommented n s :=
  infix_of_sublist (uncommented_sublist.trans visibleRunes_sublist) (nodup_numbered _) htog
    fun _ ha => untagged_sublist.subset (hsub ha)

/-- A comment that is left has not got both its ends from the text. -/
theorem comment_parted (hleft : opening ++ (body ++ closing) <:+: left n s)
    (hopening : opening.map Prod.fst = "<!--".toList)
    (hclosing : closing.map Prod.fst = "-->".toList) :
    ¬ (opening <:+: numbered (n.nfc s) ∧ closing <:+: numbered (n.nfc s)) := by
  rintro ⟨hopen, hclose⟩
  have hplaced : ∀ a ∈ opening ++ closing, a.2.isSome = true := by
    intro a ha
    obtain ha | ha := List.mem_append.mp ha
    · exact placed_of_mem (hopen.subset ha)
    · exact placed_of_mem (hclose.subset ha)
  have hends : (opening ++ closing).Sublist (opening ++ (body ++ closing)) :=
    (List.Sublist.refl _).append (List.sublist_append_right _ _)
  have hkept := sublist_untagged (hends.trans hleft.sublist) hplaced
  have hnodup : (visibleRunes n s).Nodup := (nodup_numbered _).sublist visibleRunes_sublist
  have hopen' := infix_visibleRunes hopen fun _ ha => hkept.subset (List.mem_append_left _ ha)
  have hclose' := infix_visibleRunes hclose fun _ ha => hkept.subset (List.mem_append_right _ ha)
  cases opening with
  | nil => simp at hopening
  | cons a opening =>
    obtain ⟨pre, post, heq, hpost⟩ := behind_of_sublist hnodup (List.cons_ne_nil _ _) hopen'
      (hkept.trans (untagged_sublist.trans uncommented_sublist))
    have hposts : post.Sublist (visibleRunes n s) := by
      rw [heq]
      exact (List.sublist_append_right _ _).trans (List.sublist_append_right _ _)
    obtain ⟨mid, post, rfl⟩ := infix_of_sublist hposts hnodup hclose' hpost.subset
    have hkeep : a ∈ uncommented n s := untagged_sublist.subset (hkept.subset (by simp))
    have hcut : visibleRunes n s = pre ++ (a :: (opening ++ (mid ++ closing)) ++ post) := by
      rw [heq]
      simp
    refine not_reads_of_mem_replaceAll local_comment (by decide) hnodup hcut (by simp) hkeep ?_
    rw [reads_comment_iff]
    refine ⟨mid.map Prod.fst, ?_⟩
    rw [← List.cons_append, List.map_append, List.map_append, hopening, hclosing]

/-- A `>` that follows a stretch is of the text, and follows it before the secrets are masked. -/
theorem exists_closing_behind (hleft : head ++ next :: tail <:+: left n s)
    (htog : head ++ [next] <:+: numbered (n.nfc s)) (hclosed : '>' ∈ tail.map Prod.fst) :
    ∃ g, g.1 = '>' ∧ (head ++ [next] ++ [g]).Sublist (untagged n s) := by
  obtain ⟨g, hg, hchar⟩ := List.mem_map.mp hclosed
  have hgleft : g ∈ left n s := hleft.subset (by simp [hg])
  have hnomask : ∀ c ∈ secretMask, c ≠ '>' := by
    have hall : secretMask.all (· ≠ '>') = true := by decide
    simpa only [List.all_eq_true, decide_eq_true_eq] using hall
  have hgkept : g ∈ untagged n s := by
    refine (mem_redactSecrets hgleft).resolve_right fun hmask => ?_
    obtain ⟨c, hc, rfl⟩ := List.mem_map.mp hmask
    exact hnomask c hc hchar
  have hgplaced : g.2.isSome = true := placed_of_mem (visibleRunes_sublist.subset
    (uncommented_sublist.subset (untagged_sublist.subset hgkept)))
  have hboth : (head ++ [next] ++ [g]).Sublist (head ++ next :: tail) := by
    rw [List.append_assoc]
    exact (List.Sublist.refl _).append ((List.singleton_sublist.mpr hg).cons_cons _)
  refine ⟨g, hchar, sublist_untagged (hboth.trans hleft.sublist) fun a ha => ?_⟩
  obtain ha | ha := List.mem_append.mp ha
  · exact placed_of_mem (htog.subset ha)
  · rwa [List.mem_singleton.mp ha]

/-- A tag that is left has not got its head, with the rune behind it, from the text. -/
theorem tag_parted (hleft : head ++ next :: tail <:+: left n s)
    (hhead : instructionTagHead.Reads (head.map Prod.fst))
    (hnext : atBoundary ⟨(head.map Prod.fst).getLast?, [next.1]⟩ = true)
    (hclosed : '>' ∈ (next :: tail).map Prod.fst) :
    ¬ head ++ [next] <:+: numbered (n.nfc s) := by
  intro htog
  have hnodup : (uncommented n s).Nodup :=
    (nodup_numbered _).sublist (uncommented_sublist.trans visibleRunes_sublist)
  have hstart : head ++ [next] <+: head ++ next :: tail := ⟨tail, by simp⟩
  have hkept := sublist_untagged (hstart.sublist.trans hleft.sublist)
    fun _ ha => placed_of_mem (htog.subset ha)
  have hhere := infix_uncommented htog hkept.subset
  -- the `>` is the rune behind the head or one that follows
  have hgt : ∃ pre post, uncommented n s = pre ++ (head ++ [next] ++ post) ∧
      '>' ∈ (next :: post).map Prod.fst := by
    rw [List.map_cons, List.mem_cons] at hclosed
    obtain hclosed | hclosed := hclosed
    · obtain ⟨pre, post, heq⟩ := hhere
      exact ⟨pre, post, by rw [← heq, List.append_assoc], by simp [← hclosed]⟩
    · obtain ⟨g, hchar, hboth⟩ := exists_closing_behind hleft htog hclosed
      obtain ⟨pre, post, heq, hpost⟩ := behind_of_sublist hnodup (by simp) hhere
        (hboth.trans untagged_sublist)
      exact ⟨pre, post, heq, List.mem_map.mpr ⟨g, by simp [hpost.subset List.mem_cons_self], hchar⟩⟩
  obtain ⟨pre, post, heq, hgt⟩ := hgt
  obtain ⟨u, ⟨rest, hu⟩, hreads⟩ := reads_of_head hhead hnext hgt
  rw [← List.map_cons] at hu
  obtain ⟨taken, behind, hcut, rfl, -⟩ := List.map_eq_append_iff.mp hu.symm
  rw [List.append_assoc, List.singleton_append, hcut] at heq
  cases head with
  | nil => exact absurd hhead.length (by decide)
  | cons a head =>
    have hwhole : uncommented n s = pre ++ (a :: (head ++ taken) ++ behind) := by
      rw [heq]
      simp
    rw [← List.map_append] at hreads
    exact not_reads_of_mem_replaceAll local_tag (by decide) hnodup hwhole (by simp)
      (hkept.subset (by simp)) hreads

end

/-- Joiners do not count. -/
def Normalizer.weight (n : Normalizer) (c : Char) : ℕ :=
  ((n.decomposed c).filter (· ≠ graphemeJoiner)).length

theorem Normalizer.weight_pos (n : Normalizer) {c : Char} (h : c ≠ graphemeJoiner) :
    1 ≤ n.weight c := by
  obtain ⟨d, hd, hne⟩ := n.decomposed_ne c h
  exact List.length_pos_of_mem (List.mem_filter.mpr ⟨hd, by simpa using hne⟩)

theorem Normalizer.weight_nfc (n : Normalizer) (s : List Char) :
    ((n.nfc s).map n.weight).sum = (s.map n.weight).sum := by
  have hperm := (n.nfc_perm s).length_eq
  rwa [List.filter_flatMap, List.filter_flatMap, List.length_flatMap, List.length_flatMap]
    at hperm

private theorem weight_mask (n : Normalizer) : (secretMask.map n.weight).sum = 10 := by
  have hone : secretMask.map n.weight = secretMask.map fun _ => 1 := by
    apply List.map_congr_left
    intro c hc
    have hascii : ∀ d ∈ secretMask, d.toNat < 0x80 ∧ d ≠ graphemeJoiner := by
      have hall : secretMask.all (fun d => d.toNat < 0x80 ∧ d ≠ graphemeJoiner) = true := by decide
      simpa only [List.all_eq_true, decide_eq_true_eq] using hall
    rw [Normalizer.weight, n.decomposed_ascii c (hascii c hc).1]
    simp [(hascii c hc).2]
  rw [hone]
  rfl

/-- What the passes change has a shorter decomposition then. -/
theorem lightens_passes (n : Normalizer) : Lightens n.weight (passes id secretMask) := by
  have hstrip : Lightens n.weight (stripInvisible id) := by
    refine lightens_filter fun c hc => n.weight_pos ?_
    rintro rfl
    exact absurd hc (by decide)
  have hremove {re : Regex} (hre : Local re) (hopen : ∀ u, re.Reads u → '<' ∈ u) :
      Lightens n.weight (re.replaceAll id []) := by
    refine lightens_replaceAll hre fun old hold => ?_
    rw [List.map_id] at hold
    have hmem : n.weight '<' ∈ old.map n.weight := List.mem_map_of_mem (hopen old hold)
    exact List.sum_pos_iff_exists_pos_nat.mpr ⟨_, hmem, n.weight_pos (by decide)⟩
  have hsecret : Lightens n.weight (redactSecrets id secretMask) := by
    apply lightens_foldl
    intro re hre
    obtain ⟨hmin, -, -, hjoin⟩ := secret_shape re hre
    refine lightens_replaceAll (local_secret re hre) fun old hold => ?_
    rw [List.map_id] at hold
    have hone : ∀ m ∈ old.map n.weight, 1 ≤ m := by
      intro m hm
      obtain ⟨c, hc, rfl⟩ := List.mem_map.mp hm
      refine n.weight_pos ?_
      rintro rfl
      simp [hold.allowed _ hc] at hjoin
    have hle := List.length_le_sum_of_one_le _ hone
    rw [List.length_map] at hle
    rw [weight_mask]
    exact hmin.trans_le (hold.length.trans hle)
  have hcomment : ∀ u, htmlCommentRe.Reads u → '<' ∈ u := by
    intro u hu
    obtain ⟨c, hc, hp⟩ := Reads.head hu
    rwa [of_decide_eq_true hp] at hc
  have htag : ∀ u, instructionTagRe.Reads u → '<' ∈ u := by
    intro u hu
    obtain ⟨c, hc, hp⟩ := Reads.head hu
    rwa [of_decide_eq_true hp] at hc
  exact hsecret.comp ((hremove local_tag htag).comp ((hremove local_comment hcomment).comp hstrip))

private theorem passes_eq_self {s : List Char} (hvis : ∀ c ∈ s, isInvisible c = false)
    (hcomment : htmlCommentRe.matchString s = false)
    (htag : instructionTagRe.matchString s = false)
    (hsecret : ∀ re ∈ secretRes, re.matchString s = false) : passes id secretMask s = s := by
  have hself {re : Regex} {mask : List Char} (h : re.matchString s = false) :
      re.replaceAll id mask s = s := replaceAll_eq_self (by rwa [List.map_id])
  have hstrip : stripInvisible id s = s := by
    rw [stripInvisible, List.filter_eq_self]
    intro c hc
    simp [hvis c hc]
  have hredact (res : List Regex) (hres : res ⊆ secretRes) :
      res.foldl (fun s re => re.replaceAll id secretMask s) s = s := by
    induction res with
    | nil => rfl
    | cons re res ih =>
      rw [List.foldl_cons, hself (hsecret re (hres List.mem_cons_self))]
      exact ih fun r hr => hres (List.mem_cons_of_mem _ hr)
  simp only [passes]
  rw [hstrip, hself hcomment, hself htag]
  exact hredact secretRes (List.Subset.refl _)

private theorem visible_passes (s : List Char) : ∀ c ∈ passes id secretMask s, isInvisible c =
    false := by
  intro c hc
  obtain hc | hc := mem_redactSecrets hc
  · have hstrip := replaceAll_sublist.subset (replaceAll_sublist.subset hc)
    have hkeep := (List.mem_filter.mp hstrip).2
    simpa using hkeep
  · have hmask : secretMask.all (fun d => isInvisible d = false) = true := by decide
    simpa only [decide_eq_true_eq] using List.all_eq_true.mp hmask c hc

theorem visible_string (n : Normalizer) (s : List Char) :
    ∀ c ∈ string n s, isInvisible c = false := by
  rw [string]
  split
  next h => simp [h]
  next => exact visible_passes (n.nfc s)

theorem unleaked_string (n : Normalizer) (s : List Char) :
    ∀ re ∈ secretRes, re.matchString (string n s) = false := by
  rw [string]
  split
  next h =>
    rw [h]
    intro re hre
    rw [matchString_false_iff (local_secret re hre)]
    intro u hu hreads
    have hlen := (secret_clear hre hreads).2.2
    rw [List.infix_nil.mp hu] at hlen
    simp at hlen
  next => exact redactSecrets_unleaked _

/-- A match in the result is a stretch of what is left. -/
theorem exists_block {u : List Char} (h : u <:+: string n s) :
    ∃ block, block <:+: left n s ∧ block.map Prod.fst = u := by
  obtain ⟨pre, post, heq⟩ := h
  rw [← map_fst_left] at heq
  obtain ⟨lpu, lpost, hl, hpu, -⟩ := List.map_eq_append_iff.mp heq.symm
  obtain ⟨lpre, lu, rfl, -, hu⟩ := List.map_eq_append_iff.mp hpu
  exact ⟨lu, ⟨lpre, lpost, hl.symm⟩, hu⟩

theorem infix_string {block : List (Char × Option ℕ)} (h : block <:+: left n s) :
    block.map Prod.fst <:+: string n s := by
  rw [← map_fst_left]
  exact h.map Prod.fst

private theorem nfc_string (h : string n (string n s) = string n s) :
    n.nfc (string n s) = string n s := by
  by_cases hempty : string n s = []
  · rw [hempty, n.nfc_nil]
  · rw [string, if_neg hempty] at h
    exact (lightens_passes n).fixed (n.weight_nfc _) h

/-- An ended head of a tag or both ends of a comment are a match, wherever they come from. -/
theorem Joined.not_sanitised (h : Joined n s) : ¬ Sanitised n s := by
  intro hs
  cases h with
  | @comment _ body _ hleft hopening hclosing _ =>
    have hnone := (matchString_false_iff local_comment).mp hs.uncommented
    refine hnone _ (infix_string hleft) (reads_comment_iff.mpr ⟨body.map Prod.fst, ?_⟩)
    rw [List.map_append, List.map_append, hopening, hclosing]
  | @tag head _ _ hleft hhead hnext hclosed _ =>
    have hnone := (matchString_false_iff local_tag).mp hs.untagged
    have hin := infix_string hleft
    rw [List.map_append] at hin
    obtain ⟨u, hu, hreads⟩ := reads_of_head hhead hnext hclosed
    have hshort := (List.prefix_append_right_inj (head.map Prod.fst)).mpr hu
    exact hnone _ (hshort.isInfix.trans hin) hreads
  | unnormal hleft hnfc _ =>
    exact hnfc (n.nfc_infix _ _ (nfc_string hs.stable) (infix_string hleft))

private theorem uncommented_of_not_joined (h : ¬ Joined n s) :
    htmlCommentRe.matchString (string n s) = false := by
  rw [matchString_false_iff local_comment]
  intro u hu hreads
  obtain ⟨block, hleft, rfl⟩ := exists_block hu
  obtain ⟨body, hbody⟩ := reads_comment_iff.mp hreads
  obtain ⟨opening, rest, rfl, hopening, hrest⟩ := List.map_eq_append_iff.mp hbody
  obtain ⟨mid, closing, rfl, -, hclosing⟩ := List.map_eq_append_iff.mp hrest
  have hends := not_and_or.mp (comment_parted hleft hopening hclosing)
  have hfirst : opening <:+: left n s := (List.prefix_append _ _).isInfix.trans hleft
  have hlast : closing <:+: left n s :=
    ((List.suffix_append mid closing).trans (List.suffix_append opening _)).isInfix.trans hleft
  exact h (.comment hleft hopening hclosing
    (hends.imp (parted_iff hfirst).mpr (parted_iff hlast).mpr))

private theorem untagged_of_not_joined (h : ¬ Joined n s) :
    instructionTagRe.matchString (string n s) = false := by
  rw [matchString_false_iff local_tag]
  intro u hu hreads
  obtain ⟨block, hleft, rfl⟩ := exists_block hu
  obtain ⟨headText, body, hcut, hhead, -, hbound⟩ := reads_tag_iff.mp hreads
  obtain ⟨head, rest, rfl, rfl, hrest⟩ := List.map_eq_append_iff.mp hcut
  cases rest with
  | nil => simp at hrest
  | cons next tail =>
    have hclosed : '>' ∈ (next :: tail).map Prod.fst := by
      rw [hrest]
      simp
    have hnext : atBoundary ⟨(head.map Prod.fst).getLast?, [next.1]⟩ = true := by
      rw [← hrest] at hbound
      exact hbound
    have hstart : head ++ [next] <+: head ++ next :: tail := ⟨tail, by simp⟩
    exact h (.tag hleft hhead hnext hclosed ((parted_iff (hstart.isInfix.trans hleft)).mpr
      (tag_parted hleft hhead hnext hclosed)))

private theorem normal_of_not_joined (h : ¬ Joined n s) : n.nfc (string n s) = string n s := by
  by_contra hne
  rw [← map_fst_left] at hne
  refine h (.unnormal List.infix_rfl hne ((parted_iff List.infix_rfl).mpr fun htog => hne ?_))
  have htext := htog.map Prod.fst
  rw [map_fst_numbered] at htext
  exact n.nfc_infix _ _ (n.nfc_nfc s) htext

theorem sanitised_iff (n : Normalizer) (s : List Char) : Sanitised n s ↔ ¬ Joined n s := by
  constructor
  · exact fun hs hjoin => hjoin.not_sanitised hs
  · intro hjoin
    have hcomment := uncommented_of_not_joined hjoin
    have htag := untagged_of_not_joined hjoin
    refine ⟨visible_string n s, hcomment, htag, unleaked_string n s, ?_⟩
    rw [string]
    split
    next => rfl
    next =>
      rw [normal_of_not_joined hjoin]
      exact passes_eq_self (visible_string n s) hcomment htag (unleaked_string n s)

/-- ASCII text is in normal form. -/
def asciiNormalizer : Normalizer where
  nfc := id
  decomposed := fun c => [c]
  decomposed_ne := fun c h => ⟨c, List.mem_singleton_self c, h⟩
  decomposed_ascii := fun _ _ => rfl
  nfc_perm := fun _ => .refl _
  nfc_nfc := fun _ => rfl
  nfc_infix := fun _ _ _ _ => rfl

/-- A removed comment stood in the opening of another one, a removed tag in another tag, and a
masked secret directly behind the name of a tag. -/
theorem joined_matches :
    ¬ Sanitised asciiNormalizer "<!-<!-- x -->- y -->".toList ∧
      ¬ Sanitised asciiNormalizer "<sys<system>tem>".toList ∧
      ¬ Sanitised asciiNormalizer "<systemsk-aaaaaaaaaaaaaaaa>".toList := by
  refine ⟨fun h => ?_, fun h => ?_, fun h => ?_⟩
  · exact absurd h.uncommented (by decide +kernel)
  · exact absurd h.untagged (by decide +kernel)
  · exact absurd h.untagged (by decide +kernel)

section

variable {α : Type*}

mutual

theorem strings_value (n : Normalizer) : ∀ v : Value α,
    (value n v).strings = v.strings.map (string n)
  | .string s => by rw [value, Value.strings, Value.strings, List.map_singleton]
  | .array vs => by rw [value, Value.strings, Value.strings, strings_values n vs]
  | .object fields => by rw [value, Value.strings, Value.strings, strings_valueFields n fields]
  | .other a => by rw [value, Value.strings, List.map_nil]

theorem strings_values (n : Normalizer) : ∀ vs : List (Value α),
    stringsOf (values n vs) = (stringsOf vs).map (string n)
  | [] => by rw [values, stringsOf, List.map_nil]
  | v :: vs => by
    rw [values, stringsOf, stringsOf, List.map_append, strings_value n v, strings_values n vs]

theorem strings_valueFields (n : Normalizer) : ∀ fields : List (String × Value α),
    fieldStrings (valueFields n fields) = (fieldStrings fields).map (string n)
  | [] => by rw [valueFields, fieldStrings, List.map_nil]
  | (key, v) :: fields => by
    rw [valueFields, fieldStrings, fieldStrings, List.map_append, strings_value n v,
      strings_valueFields n fields]

end

/-- Whatever the input, no string of a result has an invisible rune or a secret. -/
theorem value_neutral (n : Normalizer) (v : Value α) : ∀ s ∈ (value n v).strings,
    (∀ c ∈ s, isInvisible c = false) ∧ ∀ re ∈ secretRes, re.matchString s = false := by
  rw [strings_value]
  intro s hs
  obtain ⟨t, -, rfl⟩ := List.mem_map.mp hs
  exact ⟨visible_string n t, unleaked_string n t⟩

end

end Statnive.TextSanitizer
