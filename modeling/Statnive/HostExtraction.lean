import Statnive.PageSites

/-!
# Hosts out of referrers

`extractHostLower` and `NormalizeHostname` on texts of the form of a URL. Both look for the
end of a scheme in the whole text, and read the host from what stands behind it.
-/

namespace Statnive.HostExtraction

open EnrichPipeline (afterFirst trimLeft cutLast extractHostLower)
open IngestHandler (trimSpace)
open PageSites (cutLast_append)
open SiteIdentity (isCut afterScheme cutTail dropUser hostOf extractHostLower_eq afterFirst_eq_none
  cutLast_eq_none)
open SiteRegistry (Unicode normalizeHostname sampleUnicode)

/-- What stands in an authority behind the user info names a host. -/
inductive HostIn : List Char → List Char → Prop
  | bracketed {front address back : List Char} (hfront : '[' ∉ front) (hopen : ']' ∉ front)
      (haddress : ']' ∉ address) : HostIn (front ++ '[' :: address ++ ']' :: back) address
  | unopened {front back : List Char} (hfront : '[' ∉ front) (hopen : ']' ∉ front) :
      HostIn (front ++ ']' :: back) (front ++ ']' :: back)
  | withPort {host port : List Char} (hhost : ']' ∉ host) (hport : ']' ∉ port)
      (hlast : ':' ∉ port) : HostIn (host ++ ':' :: port) host
  | bare {host : List Char} (hhost : ']' ∉ host) (hcolon : ':' ∉ host) : HostIn host host

/-- The text begins with an authority of the host: perhaps user info, the host, perhaps a
port, and then its end or a path, query or fragment. -/
structure BeginsWithHost (s host : List Char) (user authority tail : List Char) : Prop where
  text : s = user ++ authority ++ tail
  userinfo : user = [] ∨ ∃ info, user = info ++ ['@']
  lastAt : '@' ∉ authority
  uncut : ∀ c ∈ user ++ authority, isCut c = false
  cut : ∀ c ∈ tail.head?, isCut c = true
  named : HostIn authority host

def NamesHost (s host : List Char) : Prop :=
  ∃ user authority tail, BeginsWithHost s host user authority tail

theorem takeWhile_ne_append {c : Char} {front back : List Char} (h : c ∉ front) :
    (front ++ c :: back).takeWhile (· ≠ c) = front := by
  have hne : ∀ d ∈ front, decide (d ≠ c) = true := fun d hd => by
    simpa using fun heq : d = c => h (heq ▸ hd)
  rw [List.takeWhile_append_of_pos hne]
  simp

private theorem dropWhile_ne_append {c : Char} {front back : List Char} (h : c ∉ front) :
    (front ++ c :: back).dropWhile (· ≠ c) = c :: back := by
  have hne : ∀ d ∈ front, decide (d ≠ c) = true := fun d hd => by
    simpa using fun heq : d = c => h (heq ▸ hd)
  rw [List.dropWhile_append_of_pos hne]
  simp

theorem HostIn.hostOf {s host : List Char} (h : HostIn s host) : hostOf s = host := by
  cases h with
  | @bracketed front address back hfront hopen haddress =>
    have hno : ']' ∉ front ++ '[' :: host := by simp [hopen, haddress]
    have hclose : (front ++ '[' :: host ++ ']' :: back).contains ']' = true := by simp
    have hin : (front ++ '[' :: host).contains '[' = true := by simp
    simp only [SiteIdentity.hostOf, hclose, if_true, takeWhile_ne_append hno, hin,
      dropWhile_ne_append hfront, List.drop_succ_cons, List.drop_zero]
  | @unopened front back hfront hopen =>
    have hclose : (front ++ ']' :: back).contains ']' = true := by simp
    have hin : front.contains '[' = false := by simpa using hfront
    simp only [SiteIdentity.hostOf, hclose, if_true, takeWhile_ne_append hopen, hin,
      Bool.false_eq_true, if_false]
  | @withPort host port hhost hport hlast =>
    have hclose : (host ++ ':' :: port).contains ']' = false := by simp [hhost, hport]
    simp only [SiteIdentity.hostOf, hclose, Bool.false_eq_true, if_false, cutLast_append hlast,
      Option.map_some, Option.getD_some]
  | bare hhost hcolon =>
    simp [SiteIdentity.hostOf, hhost, cutLast_eq_none hcolon]

/-- A character that occurs has a first occurrence. -/
theorem split_first {c : Char} {s : List Char} (h : c ∈ s) :
    ∃ front back, s = front ++ c :: back ∧ c ∉ front := by
  obtain ⟨front, back, rfl, hfront⟩ := List.eq_append_cons_of_mem h
  exact ⟨front, back, rfl, hfront⟩

/-- A character that occurs has a last occurrence. -/
theorem split_last {c : Char} {s : List Char} (h : c ∈ s) :
    ∃ front back, s = front ++ c :: back ∧ c ∉ back := by
  obtain ⟨front, back, hrev, hfront⟩ := split_first (List.mem_reverse.mpr h)
  refine ⟨back.reverse, front.reverse, ?_, by simpa using hfront⟩
  have hs := congrArg List.reverse hrev
  simpa using hs

private theorem exists_hostIn (s : List Char) : ∃ host, HostIn s host := by
  by_cases hclose : ']' ∈ s
  · obtain ⟨front, back, rfl, hfront⟩ := split_first hclose
    by_cases hopen : '[' ∈ front
    · obtain ⟨before, address, rfl, hbefore⟩ := split_first hopen
      obtain ⟨hleft, hright⟩ : ']' ∉ before ∧ ']' ∉ address := by simpa using hfront
      exact ⟨address, .bracketed hbefore hleft hright⟩
    · exact ⟨_, .unopened hopen hfront⟩
  · by_cases hcolon : ':' ∈ s
    · obtain ⟨host, port, rfl, hport⟩ := split_last hcolon
      obtain ⟨hleft, hright⟩ : ']' ∉ host ∧ ']' ∉ port := by simpa using hclose
      exact ⟨host, .withPort hleft hright hport⟩
    · exact ⟨s, .bare hclose hcolon⟩

private theorem cutTail_append {s tail : List Char} (hs : ∀ c ∈ s, isCut c = false)
    (htail : ∀ c ∈ tail.head?, isCut c = true) : cutTail (s ++ tail) = s := by
  have hkeep : ∀ c ∈ s, (!isCut c) = true := fun c hc => by simp [hs c hc]
  rw [cutTail, List.takeWhile_append_of_pos hkeep]
  cases tail with
  | nil => simp
  | cons c tail => simp [htail c (by simp)]

theorem BeginsWithHost.extracted {s host user authority tail : List Char}
    (h : BeginsWithHost s host user authority tail) : hostOf (dropUser (cutTail s)) = host := by
  have huser : dropUser (user ++ authority) = authority := by
    rcases h.userinfo with rfl | ⟨info, rfl⟩
    · simp [dropUser, cutLast_eq_none h.lastAt]
    · simp [dropUser, cutLast_append h.lastAt]
  rw [h.text, cutTail_append h.uncut h.cut, huser, h.named.hostOf]

private theorem exists_namesHost (s : List Char) : ∃ host, NamesHost s host := by
  obtain ⟨host, hhost⟩ := exists_hostIn (dropUser (cutTail s))
  have htext : cutTail s ++ s.dropWhile (fun c => !isCut c) = s := List.takeWhile_append_dropWhile
  have huncut : ∀ c ∈ cutTail s, isCut c = false := fun c hc => by
    simpa using List.mem_takeWhile_imp hc
  have htail : ∀ c ∈ (s.dropWhile (fun c => !isCut c)).head?, isCut c = true := fun c hc => by
    have hfirst := List.head?_dropWhile_not (fun c => !isCut c) s
    rw [Option.mem_def.mp hc] at hfirst
    simpa using hfirst
  by_cases hat : '@' ∈ cutTail s
  · obtain ⟨info, authority, hsplit, hno⟩ := split_last hat
    have hdrop : dropUser (cutTail s) = authority := by
      simp [hsplit, dropUser, cutLast_append hno]
    rw [hdrop] at hhost
    have hjoin : info ++ ['@'] ++ authority = cutTail s := by simp [hsplit]
    refine ⟨host, info ++ ['@'], authority, _, ?_, .inr ⟨info, rfl⟩, hno, ?_, htail, hhost⟩
    · rw [hjoin, htext]
    · rwa [hjoin]
  · have hdrop : dropUser (cutTail s) = cutTail s := by simp [dropUser, cutLast_eq_none hat]
    rw [hdrop] at hhost
    exact ⟨host, [], cutTail s, _, htext.symm, .inl rfl, hat, huncut, htail, hhost⟩

/-- The extraction finds the host that a text begins with. -/
theorem hostOf_eq_iff (s host : List Char) :
    hostOf (dropUser (cutTail s)) = host ↔ NamesHost s host := by
  constructor
  · intro heq
    obtain ⟨other, user, authority, tail, h⟩ := exists_namesHost s
    obtain rfl : other = host := h.extracted.symm.trans heq
    exact ⟨user, authority, tail, h⟩
  · rintro ⟨user, authority, tail, h⟩
    exact h.extracted

inductive Lead where
  | scheme (name : List Char)
  | slashes
  | bare

/-- The parts of `[scheme://|//][userinfo@]host[:port][/path][?query][#fragment]`. The host is
an address in brackets where `literal` says so. -/
structure Parts where
  lead : Lead := .bare
  userinfo : Option (List Char) := none
  literal : Bool := false
  host : List Char
  port : Option (List Char) := none
  path : List Char := []
  query : Option (List Char) := none
  fragment : Option (List Char) := none

namespace Parts

def leadText (p : Parts) : List Char :=
  match p.lead with
  | .scheme name => name ++ "://".toList
  | .slashes => "//".toList
  | .bare => []

def userText (p : Parts) : List Char := p.userinfo.elim [] (· ++ ['@'])

def hostText (p : Parts) : List Char := if p.literal then '[' :: p.host ++ [']'] else p.host

def portText (p : Parts) : List Char := p.port.elim [] (':' :: ·)

/-- What stands behind the authority. -/
def tail (p : Parts) : List Char :=
  p.path ++ p.query.elim [] ('?' :: ·) ++ p.fragment.elim [] ('#' :: ·)

def authority (p : Parts) : List Char := p.userText ++ (p.hostText ++ p.portText)

def text (p : Parts) : String := String.ofList (p.leadText ++ (p.authority ++ p.tail))

end Parts

def isSchemeChar (c : Char) : Bool := c.isAlphanum || c = '+' || c = '-' || c = '.'

/-- The delimiters of an authority. -/
def isDelimiter (c : Char) : Bool := isCut c || c = '@' || c = '[' || c = ']'

/-- What the parts may consist of. There is no white space around the text. -/
structure WellFormed (p : Parts) : Prop where
  scheme : ∀ name, p.lead = .scheme name → ∀ c ∈ name, isSchemeChar c = true
  userinfo : ∀ u ∈ p.userinfo, ∀ c ∈ u, isCut c = false
  host_ne : p.host ≠ []
  host : ∀ c ∈ p.host, isDelimiter c = false
  name : p.literal = false → ':' ∉ p.host
  port : ∀ port ∈ p.port, port ≠ [] ∧ ∀ c ∈ port, c.isDigit = true
  path : ∀ c ∈ p.path.head?, c = '/'
  trimmed : trimSpace p.text = p.text

variable {p : Parts}

theorem isDelimiter_iff {c : Char} :
    isDelimiter c = false ↔ isCut c = false ∧ c ≠ '@' ∧ c ≠ '[' ∧ c ≠ ']' := by
  simp [isDelimiter, and_assoc]

theorem not_mem_port (h : WellFormed p) {c : Char} (hc : c.isDigit = false) :
    ∀ port ∈ p.port, c ∉ port := by
  intro port hport hmem
  simp [(h.port port hport).2 c hmem] at hc

/-- The host and the port name the host. -/
theorem hostIn_parts (h : WellFormed p) : HostIn (p.hostText ++ p.portText) p.host := by
  have hno : ']' ∉ p.host := fun hmem => (isDelimiter_iff.mp (h.host _ hmem)).2.2.2 rfl
  cases hliteral : p.literal with
  | true =>
    have hbracket : p.hostText ++ p.portText = [] ++ '[' :: p.host ++ ']' :: p.portText := by
      simp [Parts.hostText, hliteral]
    rw [hbracket]
    exact .bracketed List.not_mem_nil List.not_mem_nil hno
  | false =>
    have hname : p.hostText = p.host := by simp [Parts.hostText, hliteral]
    rw [hname]
    cases hport : p.port with
    | none =>
      simp only [Parts.portText, hport, Option.elim_none, List.append_nil]
      exact .bare hno (h.name hliteral)
    | some port =>
      simp only [Parts.portText, hport, Option.elim_some]
      exact .withPort hno (not_mem_port h (by decide) port hport)
        (not_mem_port h (by decide) port hport)

private theorem uncut_hostPort (h : WellFormed p) : ∀ c ∈ p.hostText ++ p.portText, isCut c =
    false := by
  intro c hc
  rcases List.mem_append.mp hc with hc | hc
  · have hhost : ∀ c ∈ p.host, isCut c = false := fun c hc => (isDelimiter_iff.mp (h.host c hc)).1
    cases hliteral : p.literal with
    | true =>
      simp only [Parts.hostText, hliteral, if_true, List.cons_append, List.mem_cons,
        List.mem_append, List.not_mem_nil, or_false] at hc
      rcases hc with rfl | hc | rfl
      · rfl
      · exact hhost c hc
      · rfl
    | false =>
      simp only [Parts.hostText, hliteral, Bool.false_eq_true, if_false] at hc
      exact hhost c hc
  · cases hport : p.port with
    | none => simp [Parts.portText, hport] at hc
    | some port =>
      simp only [Parts.portText, hport, Option.elim_some, List.mem_cons] at hc
      rcases hc with rfl | hc
      · rfl
      · have hdigit := (h.port port hport).2 c hc
        have hne {d : Char} (hd : d.isDigit = false) : c ≠ d := fun heq => by
          simp [← heq, hdigit] at hd
        simp [isCut, hne (d := '/') (by decide), hne (d := '?') (by decide),
          hne (d := '#') (by decide)]

private theorem at_not_mem (h : WellFormed p) : '@' ∉ p.hostText ++ p.portText := by
  intro hmem
  rcases List.mem_append.mp hmem with hmem | hmem
  · have hno : '@' ∉ p.host := fun hmem => (isDelimiter_iff.mp (h.host _ hmem)).2.1 rfl
    cases hliteral : p.literal <;> simp [Parts.hostText, hliteral, hno] at hmem
  · cases hport : p.port with
    | none => simp [Parts.portText, hport] at hmem
    | some port =>
      simp [Parts.portText, hport, not_mem_port h (c := '@') (by decide) port hport] at hmem

private theorem tail_cut (h : WellFormed p) : ∀ c ∈ p.tail.head?, isCut c = true := by
  intro c hc
  cases hpath : p.path with
  | cons d path =>
    have hslash := h.path d (by simp [hpath])
    obtain rfl : d = c := by simpa [Parts.tail, hpath] using hc
    simp [isCut, hslash]
  | nil =>
    cases hquery : p.query with
    | some query =>
      obtain rfl : '?' = c := by simpa [Parts.tail, hpath, hquery] using hc
      rfl
    | none =>
      cases hfragment : p.fragment with
      | some fragment =>
        obtain rfl : '#' = c := by simpa [Parts.tail, hpath, hquery, hfragment] using hc
        rfl
      | none => simp [Parts.tail, hpath, hquery, hfragment] at hc

/-- Once the lead is gone, what is left begins with the host. -/
theorem beginsWithHost (h : WellFormed p) :
    BeginsWithHost (p.authority ++ p.tail) p.host p.userText (p.hostText ++ p.portText) p.tail where
  text := by simp [Parts.authority]
  userinfo := by
    cases hu : p.userinfo with
    | none => exact .inl (by simp [Parts.userText, hu])
    | some u => exact .inr ⟨u, by simp [Parts.userText, hu]⟩
  lastAt := at_not_mem h
  uncut c hc := by
    rcases List.mem_append.mp hc with hc | hc
    · cases hu : p.userinfo with
      | none => simp [Parts.userText, hu] at hc
      | some u =>
        simp only [Parts.userText, hu, Option.elim_some, List.mem_append, List.mem_singleton] at hc
        rcases hc with hc | rfl
        · exact h.userinfo u hu c hc
        · rfl
    · exact uncut_hostPort h c hc
  cut := tail_cut h
  named := hostIn_parts h

private theorem afterFirst_scheme {name : List Char} (h : ':' ∉ name) (rest : List Char) :
    afterFirst "://".toList (name ++ "://".toList ++ rest) = some rest := by
  have hpat : "://".toList = [':', '/', '/'] := rfl
  induction name with
  | nil => simp [hpat, afterFirst]
  | cons c name ih =>
    obtain ⟨hc, hname⟩ : ':' ≠ c ∧ ':' ∉ name := by simpa using h
    have hrest := ih hname
    simp only [hpat, List.cons_append, List.append_assoc, List.nil_append] at hrest ⊢
    simp [afterFirst, List.isPrefixOf, hc, hrest]

/-- No scheme ends in an authority, which has no slash and does not end in a colon. -/
theorem afterFirst_authority {a : List Char} (hslash : '/' ∉ a) (hlast : a.getLast? ≠ some ':')
    (rest : List Char) : afterFirst "://".toList (a ++ rest) = afterFirst "://".toList rest := by
  have hpat : "://".toList = [':', '/', '/'] := rfl
  induction a with
  | nil => rfl
  | cons c a ih =>
    obtain ⟨hc, ha⟩ : '/' ≠ c ∧ '/' ∉ a := by simpa using hslash
    have hpre : "://".toList.isPrefixOf (c :: (a ++ rest)) = false := by
      cases a with
      | nil =>
        have hcolon : ':' ≠ c := fun heq => hlast (by simp [heq.symm])
        simp [hpat, List.isPrefixOf, hcolon]
      | cons d a =>
        have hd : '/' ≠ d := fun heq => ha (by simp [heq.symm])
        simp [hpat, List.isPrefixOf, hd]
    rw [List.cons_append, afterFirst, hpre, if_neg (by simp)]
    cases a with
    | nil => rfl
    | cons d a => exact ih ha (by simpa [List.getLast?_cons] using hlast)

theorem hostPort_ne (h : WellFormed p) : p.hostText ++ p.portText ≠ [] := by
  cases hliteral : p.literal <;> simp [Parts.hostText, hliteral, h.host_ne]

private theorem authority_last (h : WellFormed p) : p.authority.getLast? ≠ some ':' := by
  rw [Parts.authority, List.getLast?_append_of_ne_nil _ (hostPort_ne h)]
  cases hport : p.port with
  | some port =>
    obtain ⟨hne, -⟩ := h.port port hport
    have hno := not_mem_port h (c := ':') (by decide) port hport
    intro hlast
    simp only [Parts.portText, hport, Option.elim_some] at hlast
    rw [List.getLast?_append_of_ne_nil _ (by simp), List.getLast?_cons_of_ne_nil hne] at hlast
    exact hno (List.mem_of_getLast? hlast)
  | none =>
    simp only [Parts.portText, hport, Option.elim_none, List.append_nil]
    cases hliteral : p.literal with
    | true => simp [Parts.hostText, hliteral, List.getLast?_cons]
    | false =>
      intro hlast
      simp only [Parts.hostText, hliteral, Bool.false_eq_true, if_false] at hlast
      exact h.name hliteral (List.mem_of_getLast? hlast)

theorem authority_slash (h : WellFormed p) : '/' ∉ p.authority := by
  intro hmem
  have huncut := (beginsWithHost h).uncut '/' hmem
  simp [isCut] at huncut

/-- The scheme ends behind its name, or, where none is given, wherever the tail has the first
`://`. -/
theorem afterScheme_text (h : WellFormed p) :
    afterScheme p.text.toList =
      match p.lead with
      | .scheme _ => p.authority ++ p.tail
      | _ => (afterFirst "://".toList p.tail).getD (p.authority ++ p.tail) := by
  have hfind := afterFirst_authority (authority_slash h) (authority_last h) p.tail
  have hpat : "://".toList = [':', '/', '/'] := rfl
  rw [Parts.text, String.toList_ofList, afterScheme]
  cases hlead : p.lead with
  | scheme name =>
    have hcolon : ':' ∉ name := fun hmem => by
      have hchar := h.scheme name hlead ':' hmem
      simp [isSchemeChar] at hchar
    simp only [Parts.leadText, hlead, afterFirst_scheme hcolon, Option.getD_some]
  | slashes =>
    have hskip : afterFirst "://".toList ("//".toList ++ (p.authority ++ p.tail)) =
        afterFirst "://".toList p.tail := by
      rw [← hfind, hpat]
      simp [afterFirst, List.isPrefixOf]
    simp only [Parts.leadText, hlead, hskip]
    congr 1
  | bare =>
    have hno : trimLeft "//".toList (p.authority ++ p.tail) = p.authority ++ p.tail := by
      cases ha : p.authority with
      | nil => simp [Parts.authority, List.append_eq_nil_iff, hostPort_ne h] at ha
      | cons c a =>
        have hc : '/' ≠ c := fun heq => authority_slash h (by simp [ha, heq.symm])
        simp [trimLeft, List.isPrefixOf, hc]
    simp only [Parts.leadText, hlead, List.nil_append, hfind, hno]

/-- A scheme is given; or else, what stands behind the first `://` of the tail begins with the
same host, up to its case. -/
def Clear (u : Unicode) (p : Parts) : Prop :=
  (∃ name, p.lead = .scheme name) ∨
    ∀ rest, afterFirst "://".toList p.tail = some rest →
      ∃ host, NamesHost rest host ∧
        u.lowerString (String.ofList host) = u.lowerString (String.ofList p.host)

private theorem extractHostLower_iff (u : Unicode) (h : WellFormed p) :
    extractHostLower u.lowerString p.text = u.lowerString (String.ofList p.host) ↔ Clear u p := by
  have hhost := (beginsWithHost h).extracted
  rw [extractHostLower_eq, afterScheme_text h]
  cases hlead : p.lead with
  | scheme name => simp [Clear, hlead, hhost]
  | slashes | bare =>
    cases hfound : afterFirst "://".toList p.tail with
    | none => simp only [Option.getD_none, hhost, Clear, hlead, hfound, reduceCtorEq, exists_false,
        false_or, false_imp_iff, implies_true]
    | some rest =>
      simp only [Option.getD_some, Clear, hlead, hfound, reduceCtorEq, exists_false, false_or,
        Option.some.injEq, forall_eq']
      constructor
      · intro heq
        exact ⟨_, (hostOf_eq_iff rest _).mp rfl, heq⟩
      · rintro ⟨host, hnames, heq⟩
        rw [(hostOf_eq_iff rest host).mpr hnames, heq]

/-- On every text of the form of a URL both functions return the host in lower case, and agree,
exactly when a scheme is given or no `://` of the tail names another host. -/
theorem host_returned_iff (u : Unicode) (p : Parts) (h : WellFormed p) :
    (extractHostLower u.lowerString p.text = u.lowerString (String.ofList p.host) ∧
      normalizeHostname u p.text = u.lowerString (String.ofList p.host) ∧
      extractHostLower u.lowerString p.text = normalizeHostname u p.text) ↔ Clear u p := by
  have hsame : normalizeHostname u p.text = extractHostLower u.lowerString p.text := by
    rw [normalizeHostname, h.trimmed]
  rw [hsame, ← extractHostLower_iff u h]
  simp

/-- `https://user@Example.com:8080/?next=https://evil.example/` -/
def withScheme : Parts where
  lead := .scheme "https".toList
  userinfo := some "user".toList
  host := "Example.com".toList
  port := some "8080".toList
  path := "/".toList
  query := some "next=https://evil.example/".toList

/-- `example.com/?next=https://evil.example/` -/
def withoutScheme : Parts where
  host := "example.com".toList
  path := "/".toList
  query := some "next=https://evil.example/".toList

theorem forall_of_all {f : Char → Bool} {b : Bool} {cs : List Char}
    (h : cs.all (f · == b) = true) : ∀ c ∈ cs, f c = b := by
  simpa using h

theorem host_returned_withScheme :
    normalizeHostname sampleUnicode withScheme.text = "example.com" := by
  have hform : WellFormed withScheme := {
    scheme := by
      rintro name hname
      obtain rfl := Lead.scheme.inj hname
      exact forall_of_all (by decide)
    userinfo := by
      rintro u hu
      obtain rfl := Option.some.inj hu
      exact forall_of_all (by decide)
    host_ne := by decide
    host := forall_of_all (by decide)
    name := by decide
    port := by
      rintro port hport
      obtain rfl := Option.some.inj hport
      exact ⟨by decide, forall_of_all (by decide)⟩
    path := fun c hc => (Option.some.inj hc).symm
    trimmed := by decide +kernel }
  have hboth := (host_returned_iff sampleUnicode withScheme hform).mpr (.inl ⟨_, rfl⟩)
  exact hboth.2.1.trans (by decide +kernel)

/-- The host that the query names is returned. -/
theorem other_host_returned :
    WellFormed withoutScheme ∧
      extractHostLower sampleUnicode.lowerString withoutScheme.text = "evil.example" ∧
      extractHostLower sampleUnicode.lowerString withoutScheme.text ≠
        sampleUnicode.lowerString (String.ofList withoutScheme.host) := by
  refine ⟨?_, by decide +kernel, by decide +kernel⟩
  exact {
    scheme := fun name hname => by simp [withoutScheme] at hname
    userinfo := fun u hu => by simp [withoutScheme] at hu
    host_ne := by decide
    host := forall_of_all (by decide)
    name := by decide
    port := fun port hport => by simp [withoutScheme] at hport
    path := fun c hc => (Option.some.inj hc).symm
    trimmed := by decide +kernel }

end Statnive.HostExtraction
