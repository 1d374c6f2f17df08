import Mathlib.Data.List.TakeWhile
import Mathlib.Tactic.Common

/-!
# URLs as `net/url` parses them

A string is its list of bytes. A parsed URL has the parts that tell an origin from another
URL: the opaque part and the marks for an empty query are left out.
-/

namespace Statnive.UrlParse

def isLetter (c : UInt8) : Bool := (0x61 ≤ c && c ≤ 0x7A) || (0x41 ≤ c && c ≤ 0x5A)

def isDigit (c : UInt8) : Bool := 0x30 ≤ c && c ≤ 0x39

def isLower (c : UInt8) : Bool := 0x61 ≤ c && c ≤ 0x7A

def isHex (c : UInt8) : Bool := isDigit c || (0x61 ≤ c && c ≤ 0x66) || (0x41 ≤ c && c ≤ 0x46)

def unhex (c : UInt8) : ℕ :=
  if isDigit c then c.toNat - 0x30
  else if 0x61 ≤ c then c.toNat - 0x61 + 10 else c.toNat - 0x41 + 10

/-- A control character of ASCII. -/
def isCTL (c : UInt8) : Bool := c < 0x20 || c = 0x7F

def lower (c : UInt8) : UInt8 := if 0x41 ≤ c && c ≤ 0x5A then c + 0x20 else c

def isSchemeByte (c : UInt8) : Bool :=
  isLetter c || isDigit c || c = '+'.toUInt8 || c = '-'.toUInt8 || c = '.'.toUInt8

def inString (s : String) (c : UInt8) : Bool := (s.toList.map Char.toUInt8).contains c

/-- A byte that a host may hold as it is. -/
def isHostByte (c : UInt8) : Bool :=
  isLetter c || isDigit c || inString "!$&'()*+,;=:[]<>\"" c || inString "-_.~" c

def isUserinfoByte (c : UInt8) : Bool :=
  isLetter c || isDigit c || inString "-._:~!$&'()*+,;=%@" c

/-- A byte of a host in the form that a look-up of it needs. -/
def isLDH (c : UInt8) : Bool :=
  isLower c || isDigit c || c = '-'.toUInt8 || c = '.'.toUInt8

/-- What stands before and behind the first `c`. -/
def cut (c : UInt8) (s : List UInt8) : List UInt8 × List UInt8 :=
  (s.takeWhile (· ≠ c), (s.dropWhile (· ≠ c)).drop 1)

/-- What stands before and behind the last `c`. -/
def cutLast (c : UInt8) (s : List UInt8) : Option (List UInt8 × List UInt8) :=
  if s.contains c then
    some (((s.reverse.dropWhile (· ≠ c)).drop 1).reverse, (s.reverse.takeWhile (· ≠ c)).reverse)
  else none

inductive Encoding where
  | path | userPassword | fragment
  | host | zone
  deriving DecidableEq

def Encoding.ofHost : Encoding → Bool
  | .host | .zone => true
  | _ => false

/-- The escape of the two digits may stand in a string of this encoding. -/
def Encoding.allows (mode : Encoding) (hi lo : UInt8) : Bool :=
  let v := UInt8.ofNat (16 * unhex hi + unhex lo)
  match mode with
  | .host => 8 ≤ unhex hi || v = '%'.toUInt8
  | .zone => v = '%'.toUInt8 || v = ' '.toUInt8 || isHostByte v
  | _ => true

def unescape (mode : Encoding) : List UInt8 → Option (List UInt8)
  | [] => some []
  | c :: cs =>
    if c = '%'.toUInt8 then
      match cs with
      | hi :: lo :: rest =>
        if isHex hi && isHex lo && mode.allows hi lo then
          (unescape mode rest).map (UInt8.ofNat (16 * unhex hi + unhex lo) :: ·)
        else none
      | _ => none
    else if mode.ofHost && c < 0x80 && !isHostByte c then none
    else (unescape mode cs).map (c :: ·)

/-- One field of a dotted quad. -/
def isOctet (s : List UInt8) : Bool :=
  s ≠ [] && s.all isDigit && (s.length = 1 || s.head? ≠ some '0'.toUInt8) && s.length ≤ 3 &&
    s.foldl (fun n c => 10 * n + unhex c) 0 ≤ 255

def isIPv4 (s : List UInt8) : Bool :=
  let fields := s.splitOn '.'.toUInt8
  fields.length = 4 && fields.all isOctet

/-- Groups are left to be read of the eight that an address has; `ellipsis` says that `::`
has been read. -/
def filled (left : ℕ) (ellipsis : Bool) : Bool := decide (left = 0) != ellipsis

/-- The fields of an IPv6 address, of which `k` are still to come. -/
def isIPv6Fields : ℕ → Bool → List UInt8 → Bool
  | 0, ellipsis, s => s = [] && !ellipsis
  | k + 1, ellipsis, s =>
    let digits := s.takeWhile isHex
    if digits = [] || 4 < digits.length then false
    else match s.dropWhile isHex with
    | [] => filled k ellipsis
    | c :: rest =>
      if c = '.'.toUInt8 then
        (ellipsis || k = 1) && 1 ≤ k && isIPv4 s && filled (k - 1) ellipsis
      else if c = ':'.toUInt8 then
        match rest with
        | [] => false
        | d :: rest' =>
          if d = ':'.toUInt8 then
            !ellipsis && (if rest' = [] then filled k true else isIPv6Fields k true rest')
          else isIPv6Fields k ellipsis rest
      else false

/-- `netip.ParseAddr` succeeds with an address that is not IPv4. -/
def isIPv6 (s : List UInt8) : Bool :=
  let (addr, zone) := cut '%'.toUInt8 s
  s.find? (inString ".:%") = some ':'.toUInt8 && (!s.contains '%'.toUInt8 || zone ≠ []) &&
    match addr with
    | c :: d :: rest =>
      if c = ':'.toUInt8 && d = ':'.toUInt8 then rest = [] || isIPv6Fields 8 true rest
      else isIPv6Fields 8 false addr
    | _ => isIPv6Fields 8 false addr

structure URL where
  scheme : List UInt8 := []
  user : Option (List UInt8) := none
  host : List UInt8 := []
  path : List UInt8 := []
  rawQuery : List UInt8 := []
  fragment : List UInt8 := []
  deriving DecidableEq

def getScheme (rawURL : List UInt8) : Option (List UInt8 × List UInt8) :=
  let scheme := rawURL.takeWhile isSchemeByte
  match rawURL.dropWhile isSchemeByte with
  | [] => some ([], rawURL)
  | c :: rest =>
    if c ≠ ':'.toUInt8 then some ([], rawURL)
    else match scheme with
    | [] => none
    | d :: _ => if isLetter d then some (scheme, rest) else some ([], rawURL)

def validOptionalPort (port : List UInt8) : Bool :=
  match port with
  | [] => true
  | c :: digits => c = ':'.toUInt8 && digits.all isDigit

/-- A host between brackets, with the bracket that opens it already read. -/
def parseIPLiteral (s : List UInt8) : Option (List UInt8) := do
  let (hostname, colonPort) ← cutLast ']'.toUInt8 s
  if !validOptionalPort colonPort then none
  let port ← unescape .host colonPort
  -- the zone begins at the first escaped percent sign
  let zoneIdx := (List.range hostname.length).find? fun i =>
    (['%'.toUInt8, '2'.toUInt8, '5'.toUInt8]).isPrefixOf (hostname.drop i)
  let addr ← match zoneIdx with
    | some i => do
      let host ← unescape .host (hostname.take i)
      let zone ← unescape .zone (hostname.drop i)
      some (host ++ zone)
    | none => unescape .host hostname
  if isIPv6 addr then some ('['.toUInt8 :: addr ++ ']'.toUInt8 :: port) else none

def parseHost (host : List UInt8) : Option (List UInt8) :=
  if host.contains '['.toUInt8 then
    match host with
    | c :: rest =>
      if c = '['.toUInt8 && !rest.contains '['.toUInt8 then parseIPLiteral rest else none
    | [] => none
  else match cutLast ':'.toUInt8 host with
  | some (_, port) => if port.all isDigit then unescape .host host else none
  | none => unescape .host host

def parseAuthority (authority : List UInt8) : Option (Option (List UInt8) × List UInt8) :=
  match cutLast '@'.toUInt8 authority with
  | none => (parseHost authority).map (none, ·)
  | some (userinfo, host) => do
    let host ← parseHost host
    if !userinfo.all isUserinfoByte then none
    let user ← unescape .userPassword userinfo
    some (some user, host)

/-- `rest` is what the scheme and the query leave. -/
def parseRest (url : URL) (rest : List UInt8) : Option URL :=
  match rest with
  | a :: b :: rest' =>
    if a = '/'.toUInt8 && b = '/'.toUInt8 &&
        (url.scheme ≠ [] || rest'.head? ≠ some '/'.toUInt8) then do
      let (user, host) ← parseAuthority (rest'.takeWhile (· ≠ '/'.toUInt8))
      let path ← unescape .path (rest'.dropWhile (· ≠ '/'.toUInt8))
      some { url with user := user, host := host, path := path }
    else (unescape .path rest).map fun path => { url with path := path }
  | _ => (unescape .path rest).map fun path => { url with path := path }

/-- A URL without its fragment. -/
def parseURI (rawURL : List UInt8) : Option URL :=
  if rawURL.any isCTL then none
  else if rawURL = ['*'.toUInt8] then some { path := rawURL }
  else do
    let (scheme, rest) ← getScheme rawURL
    let (rest, rawQuery) := cut '?'.toUInt8 rest
    let url : URL := { scheme := scheme.map lower, rawQuery := rawQuery }
    if rest.head? = some '/'.toUInt8 then parseRest url rest
    else if url.scheme ≠ [] then some url
    else if (rest.takeWhile (· ≠ '/'.toUInt8)).contains ':'.toUInt8 then none
    else parseRest url rest

def parse (rawURL : List UInt8) : Option URL := do
  let (u, frag) := cut '#'.toUInt8 rawURL
  let url ← parseURI u
  let fragment ← unescape .fragment frag
  some { url with fragment := fragment }

/-- The host without brackets, and the port. -/
def splitHostPort (hostPort : List UInt8) : List UInt8 × List UInt8 :=
  let (host, port) := match cutLast ':'.toUInt8 hostPort with
    | some (host, port) => if port.all isDigit then (host, port) else (hostPort, [])
    | none => (hostPort, [])
  if host.head? = some '['.toUInt8 && host.getLast? = some ']'.toUInt8 then
    ((host.drop 1).dropLast, port)
  else (host, port)

def URL.hostname (u : URL) : List UInt8 := (splitHostPort u.host).1

def URL.port (u : URL) : List UInt8 := (splitHostPort u.host).2

theorem isLDH_iff {c : UInt8} : isLDH c = true ↔ c.toNat = 0x2D ∨ c.toNat = 0x2E ∨
    (0x30 ≤ c.toNat ∧ c.toNat ≤ 0x39) ∨ (0x61 ≤ c.toNat ∧ c.toNat ≤ 0x7A) := by
  simp [isLDH, isLower, isDigit, Char.toUInt8, UInt8.le_iff_toNat_le, ← UInt8.toNat_inj]
  omega

private theorem lower_isLDH {c : UInt8} (h : isLDH c = true) : lower c = c := by
  have hbounds := isLDH_iff.mp h
  have hnot : ¬ (0x41 ≤ c ∧ c ≤ 0x5A) := by
    simp [UInt8.le_iff_toNat_le]
    omega
  simp only [lower, Bool.and_eq_true, decide_eq_true_eq, hnot, if_false]

theorem map_lower {s : List UInt8} (h : ∀ c ∈ s, isLDH c = true) : s.map lower = s :=
  calc s.map lower = s.map id := List.map_congr_left fun c hc => lower_isLDH (h c hc)
    _ = s := List.map_id s

/-- A byte that neither ends a part of a URL nor escapes: a host byte of a plain authority,
or the colon before its port. -/
def isPlain (c : UInt8) : Bool := isLDH c || c = ':'.toUInt8

theorem isPlain_of_isLDH {c : UInt8} (h : isLDH c = true) : isPlain c = true := by
  simp [isPlain, h]

theorem isLDH_of_isDigit {c : UInt8} (h : isDigit c = true) : isLDH c = true := by
  simp [isLDH, h]

theorem isPlain_bounds {c : UInt8} (h : isPlain c = true) :
    c.toNat = 0x2D ∨ c.toNat = 0x2E ∨ (0x30 ≤ c.toNat ∧ c.toNat ≤ 0x3A) ∨
      (0x61 ≤ c.toNat ∧ c.toNat ≤ 0x7A) := by
  simp only [isPlain, Bool.or_eq_true, decide_eq_true_eq] at h
  rcases h with h | rfl
  · have := isLDH_iff.mp h
    omega
  · decide

private theorem isHostByte_of_isPlain {c : UInt8} (h : isPlain c = true) : isHostByte c = true := by
  simp only [isPlain, isLDH, isLower, isDigit, Bool.or_eq_true, Bool.and_eq_true,
    decide_eq_true_eq] at h
  rcases h with (((h | h) | rfl) | rfl) | rfl
  · simp [isHostByte, isLetter, h]
  · simp [isHostByte, isDigit, h]
  all_goals decide

theorem isPlain_ne {c d : UInt8} (h : isPlain c = true) (hd : isPlain d = false) : c ≠ d :=
  fun heq => by simp [heq, hd] at h

private theorem not_isCTL_of_isPlain {c : UInt8} (h : isPlain c = true) : isCTL c = false := by
  have := isPlain_bounds h
  simp [isCTL, UInt8.le_iff_toNat_le, ← UInt8.toNat_inj]
  omega

theorem cut_of_forall_ne {c : UInt8} {s : List UInt8} (h : ∀ d ∈ s, d ≠ c) : cut c s = (s, []) := by
  have htake : s.takeWhile (· ≠ c) = s := List.takeWhile_eq_self_iff.mpr (by simpa using h)
  have hdrop : s.dropWhile (· ≠ c) = [] := List.dropWhile_eq_nil_iff.mpr (by simpa using h)
  rw [cut, htake, hdrop, List.drop_nil]

theorem cutLast_of_forall_ne {c : UInt8} {s : List UInt8} (h : ∀ d ∈ s, d ≠ c) :
    cutLast c s = none := by
  have hnot : c ∉ s := fun hmem => h c hmem rfl
  simp [cutLast, hnot]

theorem cutLast_append {c : UInt8} {s t : List UInt8} (h : ∀ d ∈ t, d ≠ c) :
    cutLast c (s ++ c :: t) = some (s, t) := by
  have hrev : (s ++ c :: t).reverse = t.reverse ++ c :: s.reverse := by simp
  have htake : (t.reverse ++ c :: s.reverse).takeWhile (· ≠ c) = t.reverse := by
    rw [List.takeWhile_append_of_pos (by simpa using h)]
    simp
  have hdrop : (t.reverse ++ c :: s.reverse).dropWhile (· ≠ c) = c :: s.reverse := by
    rw [List.dropWhile_append_of_pos (by simpa using h)]
    simp
  rw [cutLast, hrev, htake, hdrop]
  simp

/-- Plain bytes stand for themselves in every part of a URL. -/
theorem unescape_plain (mode : Encoding) {s : List UInt8} (h : ∀ c ∈ s, isPlain c = true) :
    unescape mode s = some s := by
  induction s with
  | nil => rfl
  | cons c cs ih =>
    have hc := h c (by simp)
    have hne : c ≠ '%'.toUInt8 := isPlain_ne hc (by decide)
    have hcs := ih (fun d hd => h d (by simp [hd]))
    unfold unescape
    simp [hne, isHostByte_of_isPlain hc, hcs]

/-- A port with the colon before it, and nothing where there is no port. -/
def colonPort (port : List UInt8) : List UInt8 :=
  if port = [] then [] else ':'.toUInt8 :: port

section Plain

variable {scheme host port : List UInt8} (hhost : ∀ c ∈ host, isLDH c = true)
  (hport : ∀ c ∈ port, isDigit c = true)
include hhost hport

theorem isPlain_authority : ∀ c ∈ host ++ colonPort port, isPlain c = true := by
  intro c hc
  rcases List.mem_append.mp hc with hc | hc
  · exact isPlain_of_isLDH (hhost c hc)
  · unfold colonPort at hc
    split at hc
    · simp at hc
    · rcases List.mem_cons.mp hc with rfl | hc
      · decide
      · exact isPlain_of_isLDH (isLDH_of_isDigit (hport c hc))

theorem cutLast_colon :
    cutLast ':'.toUInt8 (host ++ colonPort port) = if port = [] then none else some (host, port) := by
  have hhost' : ∀ d ∈ host, d ≠ ':'.toUInt8 := fun d hd heq => by
    have hd := hhost d hd
    simp [heq] at hd
    exact absurd hd (by decide)
  unfold colonPort
  split
  · simpa using cutLast_of_forall_ne hhost'
  · refine cutLast_append fun d hd heq => ?_
    have hd := hport d hd
    simp [heq] at hd
    exact absurd hd (by decide)

theorem splitHostPort_plain : splitHostPort (host ++ colonPort port) = (host, port) := by
  have hall : port.all isDigit = true := List.all_eq_true.mpr hport
  have hhead : host.head? ≠ some '['.toUInt8 := fun hh => by
    have hmem := hhost _ (List.mem_of_head? hh)
    exact absurd hmem (by decide)
  unfold splitHostPort
  rw [cutLast_colon hhost hport]
  by_cases hp : port = []
  · simp [hp, colonPort, hhead]
  · simp only [hp, hall, if_false, if_true, hhead, decide_false, Bool.false_and, Bool.false_eq_true]

private theorem parseAuthority_plain :
    parseAuthority (host ++ colonPort port) = some (none, host ++ colonPort port) := by
  have hplain := isPlain_authority hhost hport
  have hne {d : UInt8} (hd : isPlain d = false) : ∀ c ∈ host ++ colonPort port, c ≠ d :=
    fun c hc => isPlain_ne (hplain c hc) hd
  have hbracket : '['.toUInt8 ∉ host ++ colonPort port := fun h => hne (by decide) _ h rfl
  have hall : port.all isDigit = true := List.all_eq_true.mpr hport
  have hparse : parseHost (host ++ colonPort port) = some (host ++ colonPort port) := by
    unfold parseHost
    rw [if_neg (by simpa using hbracket), cutLast_colon hhost hport, unescape_plain _ hplain]
    by_cases hp : port = []
    · simp [hp]
    · simp only [hp, hall, if_false, if_true]
  simp [parseAuthority, cutLast_of_forall_ne (hne (d := '@'.toUInt8) (by decide)), hparse]

end Plain

private theorem isLDH_of_isLower {c : UInt8} (h : isLower c = true) : isLDH c = true := by
  simp [isLDH, h]

section Scheme

variable {scheme : List UInt8} (hscheme : ∀ c ∈ scheme, isLower c = true) (hne : scheme ≠ [])
include hscheme

include hne in
private theorem getScheme_plain (rest : List UInt8) :
    getScheme (scheme ++ ':'.toUInt8 :: rest) = some (scheme, rest) := by
  have hall : ∀ c ∈ scheme, isSchemeByte c = true := fun c hc => by
    have hlow : isLower c = true := hscheme c hc
    simp only [isLower, Bool.and_eq_true, decide_eq_true_eq] at hlow
    simp [isSchemeByte, isLetter, hlow]
  have hcolon : isSchemeByte ':'.toUInt8 = false := by decide
  have htake : (scheme ++ ':'.toUInt8 :: rest).takeWhile isSchemeByte = scheme := by
    rw [List.takeWhile_append_of_pos hall]
    simp [hcolon]
  have hdrop : (scheme ++ ':'.toUInt8 :: rest).dropWhile isSchemeByte = ':'.toUInt8 :: rest := by
    rw [List.dropWhile_append_of_pos hall]
    simp [hcolon]
  unfold getScheme
  rw [htake, hdrop]
  obtain ⟨d, ds, rfl⟩ := List.exists_cons_of_ne_nil hne
  have hd := hscheme d (by simp)
  simp only [isLower, Bool.and_eq_true, decide_eq_true_eq] at hd
  simp [isLetter, hd]

end Scheme

private theorem parseRest_plain (url : URL) {authority : List UInt8} {user : Option (List UInt8)}
    {host : List UInt8} (hscheme : url.scheme ≠ []) (hslash : ∀ c ∈ authority, c ≠ '/'.toUInt8)
    (h : parseAuthority authority = some (user, host)) :
    parseRest url ('/'.toUInt8 :: '/'.toUInt8 :: authority) =
      some { url with user := user, host := host, path := [] } := by
  have htake : authority.takeWhile (· ≠ '/'.toUInt8) = authority :=
    List.takeWhile_eq_self_iff.mpr (by simpa using hslash)
  have hdrop : authority.dropWhile (· ≠ '/'.toUInt8) = [] :=
    List.dropWhile_eq_nil_iff.mpr (by simpa using hslash)
  simp only [parseRest, htake, hdrop, h]
  simp [hscheme, unescape]

/-- A scheme, an authority and nothing else. -/
theorem parse_plain {scheme host port : List UInt8} (hscheme : ∀ c ∈ scheme, isLower c = true)
    (hne : scheme ≠ []) (hhost : ∀ c ∈ host, isLDH c = true)
    (hport : ∀ c ∈ port, isDigit c = true) :
    parse (scheme ++ ':'.toUInt8 :: '/'.toUInt8 :: '/'.toUInt8 :: (host ++ colonPort port)) =
      some { scheme := scheme, host := host ++ colonPort port } := by
  have hplain := isPlain_authority hhost hport
  have hauth := parseAuthority_plain hhost hport
  generalize host ++ colonPort port = authority at hplain hauth
  have hldh : ∀ c ∈ scheme, isLDH c = true := fun c hc => isLDH_of_isLower (hscheme c hc)
  have hslash : ∀ c ∈ authority, c ≠ '/'.toUInt8 := fun c hc =>
    isPlain_ne (hplain c hc) (by decide)
  have hin : ∀ c ∈ scheme ++ ':'.toUInt8 :: '/'.toUInt8 :: '/'.toUInt8 :: authority,
      isPlain c = true ∨ c = '/'.toUInt8 := by
    intro c hc
    simp only [List.mem_append, List.mem_cons] at hc
    rcases hc with hc | rfl | rfl | rfl | hc
    · exact .inl (isPlain_of_isLDH (hldh c hc))
    · exact .inl (by decide)
    · exact .inr rfl
    · exact .inr rfl
    · exact .inl (hplain c hc)
  have hctl : (scheme ++ ':'.toUInt8 :: '/'.toUInt8 :: '/'.toUInt8 :: authority).any isCTL =
      false := by
    refine List.any_eq_false.mpr fun c hc => ?_
    rcases hin c hc with hp | rfl
    · simp [not_isCTL_of_isPlain hp]
    · decide
  have hstar : scheme ++ ':'.toUInt8 :: '/'.toUInt8 :: '/'.toUInt8 :: authority ≠
      ['*'.toUInt8] := by
    intro heq
    have hlen := congrArg List.length heq
    simp at hlen
    omega
  have hquery : ∀ c ∈ '/'.toUInt8 :: '/'.toUInt8 :: authority, c ≠ '?'.toUInt8 := by
    intro c hc heq
    rcases hin c (by simp only [List.mem_append, List.mem_cons] at hc ⊢; tauto) with hp | rfl
    · exact isPlain_ne hp (by decide) heq
    · exact absurd heq (by decide)
  have hfrag : ∀ c ∈ scheme ++ ':'.toUInt8 :: '/'.toUInt8 :: '/'.toUInt8 :: authority,
      c ≠ '#'.toUInt8 := by
    intro c hc heq
    rcases hin c hc with hp | rfl
    · exact isPlain_ne hp (by decide) heq
    · exact absurd heq (by decide)
  have huri : parseURI (scheme ++ ':'.toUInt8 :: '/'.toUInt8 :: '/'.toUInt8 :: authority) =
      some { scheme := scheme, host := authority } := by
    simp only [parseURI, hctl, hstar, getScheme_plain hscheme hne, map_lower hldh,
      cut_of_forall_ne hquery, Option.bind_eq_bind, Option.bind_some, List.head?_cons, if_true,
      if_false, Bool.false_eq_true]
    exact parseRest_plain _ hne hslash hauth
  simp only [parse, cut_of_forall_ne hfrag, huri, Option.bind_eq_bind, Option.bind_some, unescape]

end Statnive.UrlParse
