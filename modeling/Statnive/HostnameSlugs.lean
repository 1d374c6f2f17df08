import Statnive.SiteRegistry

/-!
# The form of a generated slug

The slug of a hostname is its words joined by dashes, cut to 32 characters. The dashes at
the ends are trimmed before the cut, so a cut right after a dash leaves it at the end.
-/

namespace Statnive.HostnameSlugs

open SiteRegistry
open IngestHandler (trimSpace isSpace)

/-- The stretches of slug characters of a text. -/
def words (cs : List Char) : List (List Char) :=
  (cs.splitOnP fun c => !isSlugChar c).filter (· ≠ [])

/-- Words with a dash between two of them. -/
def joined (ws : List (List Char)) : List Char := List.intercalate ['-'] ws

@[simp] theorem words_nil : words [] = [] := rfl

theorem words_cons_sep {c : Char} (hc : isSlugChar c = false) (cs : List Char) :
    words (c :: cs) = words cs := by
  simp [words, List.splitOnP_cons_eq_if_modifyHead, hc]

theorem words_last {c : Char} (hc : isSlugChar c = true) : words [c] = [[c]] := by
  simp [words, List.splitOnP_cons_eq_if_modifyHead, hc]

theorem words_cons_end {c d : Char} (hc : isSlugChar c = true) (hd : isSlugChar d = false)
    (cs : List Char) : words (c :: d :: cs) = [c] :: words cs := by
  simp [words, List.splitOnP_cons_eq_if_modifyHead, hc, hd]

theorem words_cons_more {c d : Char} (hc : isSlugChar c = true) (hd : isSlugChar d = true)
    (cs : List Char) : words (c :: d :: cs) = (words (d :: cs)).modifyHead (c :: ·) := by
  cases hparts : cs.splitOnP fun c => !isSlugChar c with
  | nil => exact absurd hparts (List.splitOnP_ne_nil _ cs)
  | cons p ps => simp [words, List.splitOnP_cons_eq_if_modifyHead, hc, hd, hparts]

theorem words_ne_nil {d : Char} (hd : isSlugChar d = true) (cs : List Char) :
    words (d :: cs) ≠ [] := by
  cases hparts : cs.splitOnP fun c => !isSlugChar c with
  | nil => exact absurd hparts (List.splitOnP_ne_nil _ cs)
  | cons p ps => simp [words, List.splitOnP_cons_eq_if_modifyHead, hd, hparts]

private theorem joined_modifyHead {c : Char} {ws : List (List Char)} (hws : ws ≠ []) :
    joined (ws.modifyHead (c :: ·)) = c :: joined ws := by
  cases ws with
  | nil => exact absurd rfl hws
  | cons w ws =>
    cases ws with
    | nil => simp [joined]
    | cons w' ws => simp [joined]

private theorem joined_cons_cons (w w' : List Char) (ws : List (List Char)) :
    joined (w :: w' :: ws) = w ++ '-' :: joined (w' :: ws) := by
  simp [joined]

/-- A slug: slug characters at both ends, and single dashes between them. -/
inductive Dashed : List Char → Prop where
  | single {c} : isSlugChar c = true → Dashed [c]
  | more {c cs} : isSlugChar c = true → Dashed cs → Dashed (c :: cs)
  | dash {c cs} : isSlugChar c = true → Dashed cs → Dashed (c :: '-' :: cs)

private theorem not_slugChar_dash : isSlugChar '-' = false := by decide

theorem Dashed.head {l : List Char} (h : Dashed l) : ∃ c cs, l = c :: cs ∧ isSlugChar c = true := by
  cases h with
  | single hc => exact ⟨_, _, rfl, hc⟩
  | more hc _ => exact ⟨_, _, rfl, hc⟩
  | dash hc _ => exact ⟨_, _, rfl, hc⟩

theorem Dashed.last {l : List Char} (h : Dashed l) :
    ∃ init c, l = init ++ [c] ∧ isSlugChar c = true := by
  induction h with
  | single hc => exact ⟨[], _, rfl, hc⟩
  | @more d _ _ _ ih =>
    obtain ⟨init, c, rfl, hc⟩ := ih
    exact ⟨d :: init, c, rfl, hc⟩
  | @dash d _ _ _ ih =>
    obtain ⟨init, c, rfl, hc⟩ := ih
    exact ⟨d :: '-' :: init, c, rfl, hc⟩

theorem Dashed.chars {l : List Char} (h : Dashed l) : ∀ c ∈ l, isSlugChar c = true ∨ c = '-' := by
  induction h with
  | single hc => simp [hc]
  | more hc _ ih => simpa [hc] using ih
  | dash hc _ ih => simpa [hc] using ih

theorem dropWhile_dash {c : Char} (hc : isSlugChar c = true) (cs : List Char) :
    (c :: cs).dropWhile (· = '-') = c :: cs := by
  have hne : c ≠ '-' := by
    rintro rfl
    exact absurd hc (by decide)
  simp [hne]

/-- Dashes around a slug are trimmed, and nothing else. -/
theorem Dashed.trimmed {l : List Char} (h : Dashed l) (m n : ℕ) :
    trimDashes (List.replicate m '-' ++ l ++ List.replicate n '-') = l := by
  obtain ⟨c, cs, hl, hc⟩ := h.head
  obtain ⟨init, d, hl', hd⟩ := h.last
  have hleft : (List.replicate m '-' ++ l ++ List.replicate n '-').dropWhile (· = '-') =
      l ++ List.replicate n '-' := by
    rw [List.append_assoc, List.dropWhile_append_of_pos (by simp), hl, List.cons_append,
      dropWhile_dash hc]
  rw [trimDashes, hleft, List.reverse_append, List.reverse_replicate,
    List.dropWhile_append_of_pos (by simp), hl', List.reverse_append, List.reverse_singleton,
    List.singleton_append, dropWhile_dash hd]
  simp

theorem Dashed.runs {l : List Char} (h : Dashed l) (prev : Bool) : dashRuns prev l = l := by
  induction h generalizing prev with
  | single hc => simp [dashRuns, hc]
  | more hc _ ih => simp [dashRuns, hc, ih]
  | dash hc _ ih => simp [dashRuns, hc, not_slugChar_dash, ih]

/-- A slug that is cut, but not after a dash, is a slug. -/
theorem Dashed.take {l : List Char} (h : Dashed l) {n : ℕ} (hn : l[n]? ≠ some '-') :
    Dashed (l.take (n + 1)) := by
  induction h generalizing n with
  | single hc => simpa using Dashed.single hc
  | more hc _ ih =>
    cases n with
    | zero => exact .single hc
    | succ n => exact .more hc (ih (by simpa using hn))
  | dash hc _ ih =>
    match n with
    | 0 => exact .single hc
    | 1 => simp at hn
    | n + 2 => exact .dash hc (ih (by simpa using hn))

theorem joined_cons {w : List Char} {ws : List (List Char)} (hws : ws ≠ []) :
    joined (w :: ws) = w ++ '-' :: joined ws := by
  cases ws with
  | nil => exact absurd rfl hws
  | cons w' ws => exact joined_cons_cons w w' ws

/-- What is written after a separator: the words, and a dash when separators end the text. -/
theorem dashRuns_true (cs : List Char) :
    (words cs = [] ∧ dashRuns true cs = []) ∨
      Dashed (joined (words cs)) ∧
        ∃ n, dashRuns true cs = joined (words cs) ++ List.replicate n '-' := by
  induction cs with
  | nil => exact .inl ⟨rfl, rfl⟩
  | cons c cs ih =>
    cases hc : isSlugChar c with
    | false => simpa [words_cons_sep hc, dashRuns, hc] using ih
    | true =>
      refine .inr ?_
      cases cs with
      | nil => exact ⟨by simpa [words_last hc, joined] using Dashed.single hc,
          0, by simp [words_last hc, joined, dashRuns, hc]⟩
      | cons d cs =>
        cases hd : isSlugChar d with
        | true =>
          have hne := words_ne_nil hd cs
          obtain ⟨hempty, -⟩ | ⟨hdashed, n, hn⟩ := ih
          · exact absurd hempty hne
          · rw [words_cons_more hc hd, joined_modifyHead hne]
            simp only [dashRuns, hd, if_true] at hn
            exact ⟨.more hc hdashed, n, by simp [dashRuns, hc, hd, hn]⟩
        | false =>
          rw [words_cons_sep hd] at ih
          rw [words_cons_end hc hd]
          simp only [dashRuns, hd, Bool.false_eq_true, if_false, if_true] at ih
          obtain ⟨hempty, hnil⟩ | ⟨hdashed, n, hn⟩ := ih
          · exact ⟨by simpa [hempty, joined] using Dashed.single hc,
              1, by simp [hempty, joined, dashRuns, hc, hd, hnil]⟩
          · have hne : words cs ≠ [] := by
              intro hnil
              obtain ⟨c', cs', heq, -⟩ := hdashed.head
              simp [hnil, joined] at heq
            rw [joined_cons hne]
            exact ⟨.dash hc hdashed, n, by simp [dashRuns, hc, hd, hn]⟩

private theorem dashRuns_false (cs : List Char) :
    ∃ m, dashRuns false cs = List.replicate m '-' ++ dashRuns true cs := by
  cases cs with
  | nil => exact ⟨0, rfl⟩
  | cons c cs =>
    cases hc : isSlugChar c with
    | true => exact ⟨0, by simp [dashRuns, hc]⟩
    | false => exact ⟨1, by simp [dashRuns, hc]⟩

/-- Before the cut a slug is the words of its text, joined by dashes. -/
theorem trimDashes_dashRuns (cs : List Char) :
    trimDashes (dashRuns false cs) = joined (words cs) := by
  obtain ⟨m, hm⟩ := dashRuns_false cs
  obtain ⟨hempty, hnil⟩ | ⟨hdashed, n, hn⟩ := dashRuns_true cs
  · have hdrop : (List.replicate m '-').dropWhile (· = '-') = [] := by simp
    rw [hm, hnil, hempty, List.append_nil, trimDashes, hdrop]
    rfl
  · rw [hm, hn, ← List.append_assoc, hdashed.trimmed]

theorem joined_words (cs : List Char) : words cs = [] ∨ Dashed (joined (words cs)) := by
  obtain ⟨hempty, -⟩ | ⟨hdashed, -⟩ := dashRuns_true cs
  · exact .inl hempty
  · exact .inr hdashed

private theorem mem_words {cs w : List Char} (hw : w ∈ words cs) : '-' ∉ w := by
  induction cs generalizing w with
  | nil => simp at hw
  | cons c cs ih =>
    cases hc : isSlugChar c with
    | false => exact ih (by rwa [words_cons_sep hc] at hw)
    | true =>
      have hne : '-' ≠ c := by
        rintro rfl
        exact absurd hc (by decide)
      cases cs with
      | nil =>
        rw [words_last hc, List.mem_singleton] at hw
        simp [hw, hne]
      | cons d cs =>
        cases hd : isSlugChar d with
        | true =>
          rw [words_cons_more hc hd] at hw
          cases hws : words (d :: cs) with
          | nil => exact absurd hws (words_ne_nil hd cs)
          | cons v vs =>
            rw [hws] at hw ih
            rcases List.mem_cons.mp hw with rfl | hw
            · simp [hne, ih]
            · exact ih (List.mem_cons_of_mem v hw)
        | false =>
          rw [words_cons_end hc hd] at hw
          rw [words_cons_sep hd] at ih
          rcases List.mem_cons.mp hw with rfl | hw
          · simp [hne]
          · exact ih hw

/-- The dashes of joined words stand where some of the words, but not all, end. -/
theorem joined_getElem_dash {ws : List (List Char)} (h : ∀ w ∈ ws, '-' ∉ w) (i : ℕ) :
    (joined ws)[i]? = some '-' ↔
      ∃ j, 0 < j ∧ j < ws.length ∧ (joined (ws.take j)).length = i := by
  induction ws generalizing i with
  | nil => simp [joined]
  | cons w ws ih =>
    have hw : ∀ k, w[k]? ≠ some '-' := fun k hk => h w (by simp) (List.mem_of_getElem? hk)
    by_cases hne : ws = []
    · subst hne
      simp only [joined, List.intercalate_singleton, hw i, List.length_singleton, false_iff]
      rintro ⟨j, hpos, hlt, -⟩
      omega
    · have htake : ∀ j, 0 < j → ws.take j ≠ [] := by
        intro j hj hnil
        rcases List.take_eq_nil_iff.mp hnil with rfl | hnil
        · omega
        · exact hne hnil
      have hlen : ∀ j, 0 < j → (joined (w :: ws.take j)).length =
          w.length + 1 + (joined (ws.take j)).length := by
        intro j hj
        rw [joined_cons (htake j hj), List.length_append, List.length_cons]
        omega
      have hone : (joined (w :: ws.take 0)).length = w.length := by simp [joined]
      have hcount : 0 < ws.length := List.length_pos_of_ne_nil hne
      rw [joined_cons hne]
      rcases lt_trichotomy i w.length with hi | rfl | hi
      · rw [List.getElem?_append_left hi]
        refine iff_of_false (hw i) ?_
        rintro ⟨j, hpos, hlt, hj⟩
        obtain ⟨j, rfl⟩ := Nat.exists_eq_add_of_lt hpos
        rw [Nat.zero_add, List.take_succ_cons] at hj
        rcases Nat.eq_zero_or_pos j with rfl | hj'
        · omega
        · rw [hlen j hj'] at hj
          omega
      · refine iff_of_true (by simp) ⟨1, by omega, by simpa using hcount, ?_⟩
        rw [List.take_succ_cons, hone]
      · obtain ⟨k, rfl⟩ := Nat.exists_eq_add_of_lt hi
        have hrest : (w ++ '-' :: joined ws)[w.length + k + 1]? = (joined ws)[k]? := by
          rw [List.getElem?_append_right (by omega)]
          simp [show w.length + k + 1 - w.length = k + 1 by omega]
        rw [hrest, ih (fun v hv => h v (List.mem_cons_of_mem w hv))]
        constructor
        · rintro ⟨j, hpos, hlt, hj⟩
          refine ⟨j + 1, by omega, by simpa using hlt, ?_⟩
          rw [List.take_succ_cons, hlen j hpos]
          omega
        · rintro ⟨j, hpos, hlt, hj⟩
          obtain ⟨j, rfl⟩ := Nat.exists_eq_add_of_lt hpos
          rw [Nat.zero_add, List.take_succ_cons] at hj
          rcases Nat.eq_zero_or_pos j with rfl | hj'
          · omega
          · rw [hlen j hj'] at hj
            exact ⟨j, hj', by simpa using hlt, by omega⟩

def isSlugAlnum (c : Char) : Bool := ('a' ≤ c && c ≤ 'z') || ('0' ≤ c && c ≤ '9')

/-- `^[a-z0-9]([a-z0-9-]*[a-z0-9])?$` -/
def slugRe (s : String) : Bool :=
  match s.toList with
  | [] => false
  | c :: cs => isSlugAlnum c && cs.all (fun d => isSlugAlnum d || d = '-') &&
      isSlugAlnum (cs.getLastD c)

/-- A hostname in lower case, without its suffix. -/
def stem (u : Unicode) (hostname : String) : List Char :=
  let h := (u.lowerString (trimSpace hostname)).toList
  match tlds.find? (fun tld => tld.toList.isSuffixOf h) with
  | some tld => h.take (h.length - tld.toList.length)
  | none => h

/-- The slug is cut where a word has ended: some words, joined, are 31 characters long, and
another one follows them. -/
def CutAfterDash (u : Unicode) (hostname : String) : Prop :=
  ∃ j, 0 < j ∧ j < (words (stem u hostname)).length ∧
    (joined ((words (stem u hostname)).take j)).length = 31

theorem generateSlug_eq (u : Unicode) (hostname : String) :
    generateSlug u hostname = String.ofList ((joined (words (stem u hostname))).take 32) := by
  rw [← trimDashes_dashRuns]
  cases hfound : tlds.find? fun tld =>
      tld.toList.isSuffixOf (u.lowerString (trimSpace hostname)).toList with
  | none => simp only [generateSlug, stem, hfound]
  | some tld => simp only [generateSlug, stem, hfound]

private theorem cutAfterDash_iff (u : Unicode) (hostname : String) :
    CutAfterDash u hostname ↔ (joined (words (stem u hostname)))[31]? = some '-' :=
  (joined_getElem_dash (fun _ hw => mem_words hw) 31).symm

private theorem toLower_of_upper {c : Char} (hlow : 65 ≤ c.toNat) (hhigh : c.toNat ≤ 90) :
    c.toLower ≠ c := by
  intro h
  unfold Char.toLower at h
  split at h
  · have hval := congrArg Char.toNat h
    change (c.val + ('a'.val - 'A'.val)).toNat = c.val.toNat at hval
    change 65 ≤ c.val.toNat at hlow
    change c.val.toNat ≤ 90 at hhigh
    rw [UInt32.toNat_add, show ('a'.val - 'A'.val).toNat = 32 from rfl] at hval
    omega
  · next hupper => exact hupper ⟨hlow, hhigh⟩

theorem isSlugChar_bounds {c : Char} (hc : isSlugChar c = true) :
    c.toNat < 0x80 ∧ 0x30 ≤ c.toNat := by
  simp only [isSlugChar, Bool.or_eq_true, Bool.and_eq_true, decide_eq_true_eq, Char.le_def,
    UInt32.le_iff_toNat_le] at hc
  change (97 ≤ c.toNat ∧ c.toNat ≤ 122 ∨ 65 ≤ c.toNat ∧ c.toNat ≤ 90) ∨
    48 ≤ c.toNat ∧ c.toNat ≤ 57 at hc
  omega

private theorem isSlugAlnum_of_lower {c : Char} (hc : isSlugChar c = true) (hlow : c.toLower = c) :
    isSlugAlnum c = true := by
  simp only [isSlugChar, Bool.or_eq_true] at hc
  simp only [isSlugAlnum, Bool.or_eq_true]
  obtain (hc | hc) | hc := hc
  · exact .inl hc
  · simp only [Bool.and_eq_true, decide_eq_true_eq, Char.le_def, UInt32.le_iff_toNat_le] at hc
    exact absurd hlow (toLower_of_upper hc.1 hc.2)
  · exact .inr hc

theorem Dashed.matches_slugRe {l : List Char} (h : Dashed l) (hlow : ∀ c ∈ l, c.toLower = c) :
    slugRe (String.ofList l) = true := by
  have halnum : ∀ c ∈ l, isSlugChar c = true → isSlugAlnum c = true :=
    fun c hc hslug => isSlugAlnum_of_lower hslug (hlow c hc)
  obtain ⟨c, cs, rfl, hc⟩ := h.head
  obtain ⟨init, d, hl, hd⟩ := h.last
  have hlast : cs.getLastD c = d := by
    have hget := congrArg List.getLast? hl
    rw [List.getLast?_cons, List.getLast?_concat] at hget
    rw [List.getLastD_eq_getLast?]
    exact Option.some.inj hget
  have hmem : d ∈ c :: cs := by simp [hl]
  rw [slugRe, String.toList_ofList]
  simp only [Bool.and_eq_true, List.all_eq_true, Bool.or_eq_true, decide_eq_true_eq]
  refine ⟨⟨halnum c (by simp) hc, fun e he => ?_⟩, ?_⟩
  · exact (h.chars e (by simp [he])).imp_left (halnum e (by simp [he]))
  · rw [hlast]
    exact halnum d hmem hd

private theorem mem_dashRuns {c : Char} {prev : Bool} {cs : List Char} (h : c ∈ dashRuns prev cs) :
    c = '-' ∨ c ∈ cs := by
  induction cs generalizing prev with
  | nil => simp [dashRuns] at h
  | cons d cs ih =>
    simp only [dashRuns] at h
    split at h
    · rcases List.mem_cons.mp h with rfl | h
      · simp
      · exact (ih h).imp_right (List.mem_cons_of_mem d)
    · split at h
      · exact (ih h).imp_right (List.mem_cons_of_mem d)
      · rcases List.mem_cons.mp h with rfl | h
        · simp
        · exact (ih h).imp_right (List.mem_cons_of_mem d)

private theorem mem_trimDashes {c : Char} {cs : List Char} (h : c ∈ trimDashes cs) : c ∈ cs := by
  rw [trimDashes, List.mem_reverse] at h
  have h := (List.dropWhile_sublist _).subset h
  exact (List.dropWhile_sublist _).subset (List.mem_reverse.mp h)

private theorem mem_stem {u : Unicode} {hostname : String} {c : Char} (h : c ∈ stem u hostname) :
    u.toLower c = c := by
  have hmem : c ∈ (u.lowerString (trimSpace hostname)).toList := by
    simp only [stem] at h
    split at h
    · exact List.mem_of_mem_take h
    · exact h
  rw [Unicode.lowerString, String.toList_ofList, List.mem_map] at hmem
  obtain ⟨d, -, rfl⟩ := hmem
  exact u.toLower_idem d

/-- A slug is written in lower case. -/
theorem joined_lower (u : Unicode) (hostname : String) :
    ∀ c ∈ joined (words (stem u hostname)),
      isSlugChar c = true ∨ c = '-' → u.toLower c = c ∧ c.toLower = c := by
  intro c hc hclass
  rw [← trimDashes_dashRuns] at hc
  have hascii : c.toNat < 0x80 := by
    rcases hclass with hslug | rfl
    · exact (isSlugChar_bounds hslug).1
    · decide
  have hlow : u.toLower c = c := by
    rcases mem_dashRuns (mem_trimDashes hc) with rfl | hstem
    · exact (u.toLower_ascii _ hascii).trans (by decide)
    · exact mem_stem hstem
  exact ⟨hlow, (u.toLower_ascii c hascii).symm.trans hlow⟩

/-- A slug of at most 32 characters is generated from itself. -/
theorem Dashed.stable {u : Unicode} {l : List Char} (h : Dashed l)
    (hlow : ∀ c ∈ l, u.toLower c = c) (hlen : l.length ≤ 32) :
    generateSlug u (String.ofList l) = String.ofList l := by
  have hspace : trimSpace (String.ofList l) = String.ofList l := by
    apply SiteOrigins.trimSpace_eq_self
    intro c hc
    rw [String.toList_ofList] at hc
    rcases h.chars c hc with hslug | rfl
    · have hb := isSlugChar_bounds hslug
      exact SiteOrigins.isSpace_of_bounds (by omega) (by omega)
    · decide
  have hlower : u.lowerString (String.ofList l) = String.ofList l := by
    rw [Unicode.lowerString, String.toList_ofList, List.map_congr_left hlow, List.map_id']
  have hdot : '.' ∉ l := by
    intro hmem
    rcases h.chars _ hmem with hslug | hdash
    · exact absurd hslug (by decide)
    · exact absurd hdash (by decide)
  have hnone : tlds.find? (fun tld => tld.toList.isSuffixOf l) = none := by
    rw [List.find?_eq_none]
    intro tld htld hsuffix
    have hin : ∀ tld ∈ tlds, '.' ∈ tld.toList := by decide
    exact hdot ((List.isSuffixOf_iff_suffix.mp hsuffix).subset (hin tld htld))
  have hstem : stem u (String.ofList l) = l := by
    simp only [stem, hspace, hlower, String.toList_ofList, hnone]
  have htrim : trimDashes l = l := by simpa using h.trimmed 0 0
  rw [generateSlug_eq, hstem, ← trimDashes_dashRuns, h.runs, htrim, List.take_of_length_le hlen]

/-- A slug is empty, or of the form `slugRe` and at most 32 characters; and it is its own slug. -/
def SlugLaw (u : Unicode) (hostname : String) : Prop :=
  (generateSlug u hostname = "" ∨
    slugRe (generateSlug u hostname) = true ∧ (generateSlug u hostname).length ≤ 32) ∧
  generateSlug u (generateSlug u hostname) = generateSlug u hostname

private theorem generateSlug_empty (u : Unicode) : generateSlug u "" = "" := by
  have hstem : stem u "" = [] := rfl
  rw [generateSlug_eq, hstem]
  rfl

/-- The law holds unless the cut leaves a dash at the end of the slug. -/
theorem slugLaw_iff (u : Unicode) (hostname : String) :
    SlugLaw u hostname ↔ ¬ CutAfterDash u hostname := by
  rw [cutAfterDash_iff, SlugLaw, generateSlug_eq u hostname]
  have hlower := joined_lower u hostname
  revert hlower
  generalize hl : joined (words (stem u hostname)) = l
  intro hlower
  obtain hnil | hdashed := joined_words (stem u hostname)
  · rw [hnil] at hl
    subst hl
    exact iff_of_true ⟨.inl rfl, generateSlug_empty u⟩ (by simp [joined])
  rw [hl] at hdashed
  have htaken : ∀ c ∈ l.take 32, u.toLower c = c ∧ c.toLower = c := fun c hc =>
    hlower c (List.mem_of_mem_take hc) (hdashed.chars c (List.mem_of_mem_take hc))
  have hlen : (l.take 32).length ≤ 32 := List.length_take_le 32 l
  constructor
  · rintro ⟨hform, -⟩ hcut
    -- the last of the 32 characters is the dash
    have hlast : (l.take 32).getLast? = some '-' := by
      have hlt : 31 < l.length := (List.getElem?_eq_some_iff.mp hcut).1
      rw [List.getLast?_eq_getElem?, List.length_take, Nat.min_eq_left hlt,
        List.getElem?_take_of_lt (by omega), hcut]
    cases htake : l.take 32 with
    | nil => simp [htake] at hlast
    | cons c cs =>
      rw [htake] at hform hlast
      rw [List.getLast?_cons, ← List.getLastD_eq_getLast?] at hlast
      obtain hempty | ⟨hre, -⟩ := hform
      · simpa using congrArg String.toList hempty
      · simp only [slugRe, String.toList_ofList, Option.some.inj hlast, Bool.and_eq_true] at hre
        exact absurd hre.2 (by decide)
  · intro hcut
    have hshort := hdashed.take hcut
    exact ⟨.inr ⟨hshort.matches_slugRe fun c hc => (htaken c hc).2, by simp⟩,
      hshort.stable (fun c hc => (htaken c hc).1) hlen⟩

def longHostname : String := "abcdefghijklmnopqrstuvwxyz01234.example.com"

/-- A word of 31 characters before another one leaves a dash at the end of the slug. -/
theorem slug_of_longHostname :
    generateSlug sampleUnicode longHostname = "abcdefghijklmnopqrstuvwxyz01234-" ∧
      ¬ SlugLaw sampleUnicode longHostname := by
  have hslug : generateSlug sampleUnicode longHostname = "abcdefghijklmnopqrstuvwxyz01234-" := by
    decide
  refine ⟨hslug, fun hlaw => ?_⟩
  rw [SlugLaw, hslug] at hlaw
  exact absurd hlaw.1 (by decide)

end Statnive.HostnameSlugs
