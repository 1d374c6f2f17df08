import Mathlib.Data.Finset.Insert
import Statnive.SiteRegistry

/-!
# Channels of referrers

The name of a referrer is looked up by its host, and by the hosts above it. Its channel is the
answer of the first step of a ladder, whose steps look up the host alone. The table of names is that
of one file, the last that could be read: `serves_new`, `serves_reloads`.
-/

namespace Statnive.ReferrerChannels

open EnrichPipeline (extractHostLower trimLeft)
open IngestHandler (trimSpace)
open SiteRegistry (Unicode sampleUnicode)

structure SourceEntry where
  name : String
  channel : String
  domains : List String
  deriving DecidableEq

/-- The sets of hosts. -/
inductive Bucket where
  | search | social | video | shop | email | ai | referral
  deriving DecidableEq

structure SuffixEntry where
  suffix : String
  entry : SourceEntry

structure CompiledDB where
  exact : String → Option SourceEntry := fun _ => none
  suffixIdx : List SuffixEntry := []
  sets : Bucket → Finset String := fun _ => ∅

def channelEmail : String := "Email"

def bucketSetFor (channel : String) : Option Bucket :=
  if channel = "Organic Search" then some .search
  else if channel = "Social" then some .social
  else if channel = "Video" then some .video
  else if channel = "Shopping" then some .shop
  else if channel = channelEmail then some .email
  else if channel = "AI" then some .ai
  else if channel = "Referral" then some .referral
  else none

def CompiledDB.addDomain (cd : CompiledDB) (entry : SourceEntry) (bucketSet : Option Bucket)
    (d : String) : CompiledDB where
  exact := Function.update cd.exact d (some entry)
  suffixIdx := cd.suffixIdx ++ [⟨"." ++ d, entry⟩]
  sets := match bucketSet with
    | some b => Function.update cd.sets b (insert d (cd.sets b))
    | none => cd.sets

def CompiledDB.addSource (u : Unicode) (cd : CompiledDB) (s : SourceEntry) : CompiledDB :=
  let entry := { s with name := u.lowerString s.name }
  s.domains.foldl (fun cd d =>
    let d := u.lowerString (trimSpace d)
    if d = "" then cd else cd.addDomain entry (bucketSetFor s.channel) d) cd

def compile (u : Unicode) (sources : List SourceEntry) : CompiledDB :=
  sources.foldl (CompiledDB.addSource u) {}

inductive SourcesError where
  | read | parse
  deriving DecidableEq

structure ChannelMapper where
  db : Option CompiledDB

/-- A file that cannot be read or parsed leaves the table as it is. -/
def ChannelMapper.reload (u : Unicode) (m : ChannelMapper) :
    Except SourcesError (List SourceEntry) → ChannelMapper × Except SourcesError Unit
  | .error e => (m, .error e)
  | .ok sources => (⟨some (compile u sources)⟩, .ok ())

def newChannelMapper (u : Unicode) (file : Except SourcesError (List SourceEntry)) :
    Except SourcesError ChannelMapper :=
  let (m, result) := ChannelMapper.reload u ⟨none⟩ file
  result.map fun _ => m

structure Decision where
  referrerName : String := ""
  channel : String
  deriving DecidableEq

structure ClassCtx where
  db : CompiledDB
  referrer : String := ""
  referrerName : String := ""
  utmSource : String
  utmMedium : String
  utmCampaign : String
  clickID : String
  isPaidMedium : Bool := false
  isShopping : Bool := false

/-- `strings.Contains`. -/
def contains (s sub : String) : Bool := decide (sub.toList <:+: s.toList)

def hasSuffix (s suffix : String) : Bool := suffix.toList.isSuffixOf s.toList

/-- `(^|[^a-df-z])shop|shopping`. -/
def shoppingCampaignRegex (s : String) : Bool :=
  "shop".toList.isPrefixOf s.toList ||
    s.toList.tails.any (fun cs => cs.head?.any (fun c => c = 'e' || c < 'a' || 'z' < c) &&
      "shop".toList.isPrefixOf cs.tail) ||
    contains s "shopping"

/-- `cp.*|ppc|retargeting|paid.*`. -/
def paidMediumRegex (s : String) : Bool :=
  contains s "cp" || contains s "ppc" || contains s "retargeting" || contains s "paid"

def displayMediums : List String := ["display", "banner", "expandable", "interstitial", "cpm"]

def socialMediums : List String :=
  ["social", "social-network", "social-media", "sm", "social network", "social media"]

def emailTokens : List String := ["email", "e-mail", "e_mail", "e mail", "gmail"]

def referralMediums : List String := ["referral", "app", "link"]

def pushSources : List String := ["firebase"]

def inSet (set : Finset String) (key : String) : Bool := if key = "" then false else key ∈ set

/-- The entry that a host is resolved to. -/
def CompiledDB.resolve (cd : CompiledDB) (referrer : String) : Option SourceEntry :=
  if referrer = "" then none
  else match cd.exact referrer with
    | some entry => some entry
    | none => (cd.suffixIdx.find? fun se => hasSuffix referrer se.suffix).map (·.entry)

def referrerHost (u : Unicode) (referrer : String) : String :=
  if referrer = "" then ""
  else String.ofList
    (trimLeft "www.".toList (extractHostLower u.lowerString referrer).toList)

def step0Normalize (u : Unicode) (cd : CompiledDB)
    (referrer utmSource utmMedium utmCampaign clickID : String) : ClassCtx where
  db := cd
  utmSource := u.lowerString (trimSpace utmSource)
  utmMedium := u.lowerString (trimSpace utmMedium)
  utmCampaign := u.lowerString (trimSpace utmCampaign)
  clickID := trimSpace clickID
  referrer := referrerHost u referrer
  referrerName := ((cd.resolve (referrerHost u referrer)).map (·.name)).getD ""

/-- A step may write to the context, and may answer. -/
abbrev Step := ClassCtx → ClassCtx × Option String

def step1CrossNetwork : Step := fun c =>
  (c, if contains c.utmCampaign "cross-network" then some "Cross-network" else none)

def step2ComputePredicates : Step := fun c =>
  ({ c with
      isPaidMedium := paidMediumRegex c.utmMedium
      isShopping := inSet (c.db.sets .shop) c.referrer || shoppingCampaignRegex c.utmCampaign },
    none)

def step3PaidShopping : Step := fun c =>
  (c, if c.isShopping && c.isPaidMedium then some "Paid Shopping" else none)

def step4PaidSearch : Step := fun c =>
  (c, if inSet (c.db.sets .search) c.referrer && c.isPaidMedium then some "Paid Search"
    else if c.referrerName = "google" && c.clickID = "(gclid)" then some "Paid Search"
    else if c.referrerName = "bing" && c.clickID = "(msclkid)" then some "Paid Search"
    else none)

def step5PaidSocial : Step := fun c =>
  (c, if inSet (c.db.sets .social) c.referrer && c.isPaidMedium then some "Paid Social" else none)

def step6PaidVideo : Step := fun c =>
  (c, if inSet (c.db.sets .video) c.referrer && c.isPaidMedium then some "Paid Video" else none)

def step7Display : Step := fun c =>
  (c, if c.utmMedium ∈ displayMediums then some "Display" else none)

def step8PaidOther : Step := fun c => (c, if c.isPaidMedium then some "Paid Other" else none)

def step9OrganicShopping : Step := fun c =>
  (c, if c.isShopping then some "Organic Shopping" else none)

def step10OrganicSocial : Step := fun c =>
  (c, if inSet (c.db.sets .social) c.referrer then some "Organic Social"
    else if c.utmMedium ∈ socialMediums then some "Organic Social"
    else none)

def step11OrganicVideo : Step := fun c =>
  (c, if inSet (c.db.sets .video) c.referrer then some "Organic Video"
    else if contains c.utmMedium "video" then some "Organic Video"
    else none)

def step12OrganicSearch : Step := fun c =>
  (c, if inSet (c.db.sets .search) c.referrer then some "Organic Search"
    else if c.utmMedium = "organic" then some "Organic Search"
    else none)

def step13Referral : Step := fun c =>
  (c, if c.utmMedium ∈ referralMediums then some "Referral"
    else if c.referrer ≠ "" && inSet (c.db.sets .referral) c.referrer then some "Referral"
    else none)

def step14Email : Step := fun c =>
  (c, if c.referrer ∈ emailTokens then some channelEmail
    else if c.utmSource ∈ emailTokens then some channelEmail
    else if c.utmMedium ∈ emailTokens then some channelEmail
    else if inSet (c.db.sets .email) c.referrer then some channelEmail
    else none)

def step15Misc : Step := fun c =>
  (c, if c.utmMedium = "affiliate" then some "Affiliates"
    else if c.utmMedium = "audio" then some "Audio"
    else if c.referrer = "sms" || c.utmSource = "sms" || c.utmMedium = "sms" then some "SMS"
    else if hasSuffix c.utmMedium "push" || contains c.utmMedium "mobile" ||
        contains c.utmMedium "notification" then some "Mobile Push Notifications"
    else if c.referrer ∈ pushSources then some "Mobile Push Notifications"
    else if c.utmSource ∈ pushSources then some "Mobile Push Notifications"
    else if inSet (c.db.sets .ai) c.referrer then some "AI"
    else if c.utmSource ∈ c.db.sets .ai then some "AI"
    else none)

def steps : List Step :=
  [step1CrossNetwork, step2ComputePredicates, step3PaidShopping, step4PaidSearch,
    step5PaidSocial, step6PaidVideo, step7Display, step8PaidOther, step9OrganicShopping,
    step10OrganicSocial, step11OrganicVideo, step12OrganicSearch, step13Referral, step14Email,
    step15Misc]

/-- The first step that answers ends the ladder. -/
def climb : List Step → ClassCtx → ClassCtx × Option String
  | [], c => (c, none)
  | step :: rest, c =>
    match step c with
    | (c', some label) => (c', some label)
    | (c', none) => climb rest c'

def ChannelMapper.classify (u : Unicode) (m : ChannelMapper)
    (referrer utmSource utmMedium utmCampaign clickID : String) : Decision :=
  match m.db with
  | none => { channel := "Direct" }
  | some cd =>
    let (c, label) := climb steps
      (step0Normalize u cd referrer utmSource utmMedium utmCampaign clickID)
    { referrerName := c.referrerName, channel := label.getD "Direct" }

/-- The hosts under which an entry is listed. -/
def SourceEntry.hosts (u : Unicode) (s : SourceEntry) : List String :=
  (s.domains.map fun d => u.lowerString (trimSpace d)).filter (· ≠ "")

/-- The entry as it is stored. -/
def SourceEntry.stored (u : Unicode) (s : SourceEntry) : SourceEntry :=
  { s with name := u.lowerString s.name }

theorem SourceEntry.ne_empty_of_mem_hosts {u : Unicode} {s : SourceEntry} {h : String}
    (hh : h ∈ s.hosts u) : h ≠ "" := by
  rw [SourceEntry.hosts, List.mem_filter] at hh
  exact of_decide_eq_true hh.2

namespace CompiledDB

variable (u : Unicode) (cd : CompiledDB) (entry : SourceEntry) (bucketSet : Option Bucket)

theorem addSource_eq (s : SourceEntry) : cd.addSource u s =
    (s.hosts u).foldl (fun cd d => cd.addDomain (s.stored u) (bucketSetFor s.channel) d) cd := by
  rw [SourceEntry.hosts, List.foldl_filter, List.foldl_map]
  refine congrArg (fun f => s.domains.foldl f cd) ?_
  funext cd d
  by_cases hd : u.lowerString (trimSpace d) = ""
  · rw [if_pos hd, if_neg (by simpa using hd)]
  · rw [if_neg hd, if_pos (by simpa using hd), SourceEntry.stored]

private theorem exact_addDomains (hosts : List String) (h : String) :
    (hosts.foldl (fun cd d => cd.addDomain entry bucketSet d) cd).exact h =
      if h ∈ hosts then some entry else cd.exact h := by
  induction hosts generalizing cd with
  | nil => rfl
  | cons d hosts ih =>
    rw [List.foldl_cons, ih]
    simp only [addDomain, Function.update_apply, List.mem_cons]
    by_cases hd : h = d <;> by_cases hrest : h ∈ hosts <;> simp [hd, hrest]

private theorem suffixIdx_addDomains (hosts : List String) :
    (hosts.foldl (fun cd d => cd.addDomain entry bucketSet d) cd).suffixIdx =
      cd.suffixIdx ++ hosts.map fun d => ⟨"." ++ d, entry⟩ := by
  induction hosts generalizing cd with
  | nil => exact (List.append_nil _).symm
  | cons d hosts ih =>
    rw [List.foldl_cons, ih, List.map_cons]
    exact List.append_assoc _ _ _

private theorem mem_sets_addDomain {b : Bucket} {d h : String} :
    h ∈ (cd.addDomain entry bucketSet d).sets b ↔ h ∈ cd.sets b ∨ bucketSet = some b ∧ h = d := by
  cases bucketSet with
  | none => simp [addDomain]
  | some b' =>
    rw [addDomain]
    dsimp only
    rw [Function.update_apply, Option.some_inj]
    by_cases hb : b = b'
    · subst hb
      rw [if_pos rfl, Finset.mem_insert]
      tauto
    · rw [if_neg hb]
      simp [Ne.symm hb]

private theorem mem_sets_addDomains {b : Bucket} {h : String} (hosts : List String) :
    h ∈ (hosts.foldl (fun cd d => cd.addDomain entry bucketSet d) cd).sets b ↔
      h ∈ cd.sets b ∨ bucketSet = some b ∧ h ∈ hosts := by
  induction hosts generalizing cd with
  | nil => simp
  | cons d hosts ih =>
    rw [List.foldl_cons, ih, mem_sets_addDomain, List.mem_cons]
    tauto

end CompiledDB

section Compiled

variable (u : Unicode) (sources : List SourceEntry)

/-- The last entry under a host wins. -/
theorem exact_compile (h : String) : (compile u sources).exact h =
    (sources.reverse.find? fun s => h ∈ s.hosts u).map (·.stored u) := by
  induction sources using List.reverseRecOn with
  | nil => rfl
  | append_singleton sources s ih =>
    rw [compile, List.foldl_append, List.foldl_cons, List.foldl_nil, CompiledDB.addSource_eq,
      CompiledDB.exact_addDomains, List.reverse_append]
    change (if _ then _ else (compile u sources).exact h) = _
    by_cases hs : h ∈ s.hosts u <;> simp [hs, ih]

private theorem suffixIdx_compile : (compile u sources).suffixIdx =
    sources.flatMap fun s => (s.hosts u).map fun d => ⟨"." ++ d, s.stored u⟩ := by
  induction sources using List.reverseRecOn with
  | nil => rfl
  | append_singleton sources s ih =>
    rw [compile, List.foldl_append, List.foldl_cons, List.foldl_nil, CompiledDB.addSource_eq,
      CompiledDB.suffixIdx_addDomains, List.flatMap_append, List.flatMap_singleton, ← ih, compile]

/-- A set has the hosts of all entries of its channel. -/
theorem mem_sets_compile {b : Bucket} {h : String} : h ∈ (compile u sources).sets b ↔
    ∃ s ∈ sources, bucketSetFor s.channel = some b ∧ h ∈ s.hosts u := by
  induction sources using List.reverseRecOn with
  | nil => simp [compile]
  | append_singleton sources s ih =>
    rw [compile, List.foldl_append, List.foldl_cons, List.foldl_nil, CompiledDB.addSource_eq,
      CompiledDB.mem_sets_addDomains, ← compile, ih]
    simp only [List.mem_append, List.mem_singleton, or_and_right, exists_or, exists_eq_left]

end Compiled

private theorem climb_referrerName {rungs : List Step}
    (hkeep : ∀ step ∈ rungs, ∀ c, (step c).1.referrerName = c.referrerName) (c : ClassCtx) :
    (climb rungs c).1.referrerName = c.referrerName := by
  induction rungs generalizing c with
  | nil => rfl
  | cons step rest ih =>
    rw [List.forall_mem_cons] at hkeep
    have hstep := hkeep.1 c
    rw [climb]
    split
    next h => rw [← hstep, h]
    next h =>
      rw [ih hkeep.2, ← hstep, h]

private theorem steps_keep : ∀ step ∈ steps, ∀ c, (step c).1.referrerName = c.referrerName := by
  intro step hstep c
  simp only [steps, List.mem_cons, List.not_mem_nil, or_false] at hstep
  rcases hstep with rfl | rfl | rfl | rfl | rfl | rfl | rfl | rfl | rfl | rfl | rfl | rfl | rfl |
    rfl | rfl <;> rfl

theorem climb_cons {step : Step} {rest : List Step} {c c' : ClassCtx} {answer : Option String}
    (h : step c = (c', answer)) :
    (climb (step :: rest) c).2 = answer.or (climb rest c').2 := by
  rw [climb, h]
  cases answer <;> rfl

/-- The context of an event with nothing but a referrer. -/
structure Untagged (c : ClassCtx) : Prop where
  utmSource : c.utmSource = ""
  utmMedium : c.utmMedium = ""
  utmCampaign : c.utmCampaign = ""
  clickID : c.clickID = ""
  sets : ∀ b, "" ∉ c.db.sets b

/-- What the ladder answers to a host. -/
def hostLabel (sets : Bucket → Finset String) (h : String) : Option String :=
  if h ∈ sets .shop then some "Organic Shopping"
  else if h ∈ sets .social then some "Organic Social"
  else if h ∈ sets .video then some "Organic Video"
  else if h ∈ sets .search then some "Organic Search"
  else if h ∈ sets .referral then some "Referral"
  else if h ∈ emailTokens then some channelEmail
  else if h ∈ sets .email then some channelEmail
  else if h = "sms" then some "SMS"
  else if h ∈ pushSources then some "Mobile Push Notifications"
  else if h ∈ sets .ai then some "AI"
  else none

theorem contains_empty {sub : String} (hsub : sub.toList ≠ []) : contains "" sub = false := by
  apply decide_eq_false
  rw [String.toList_empty, List.infix_nil]
  exact hsub

private theorem paidMediumRegex_empty : paidMediumRegex "" = false := by decide +kernel

private theorem shoppingCampaignRegex_empty : shoppingCampaignRegex "" = false := by decide +kernel

private theorem inSet_eq {set : Finset String} (hset : "" ∉ set) (key : String) :
    inSet set key = decide (key ∈ set) := by
  rw [inSet]
  split
  next h => exact (decide_eq_false (h ▸ hset)).symm
  next => rfl

private theorem ite_some_or {p : Prop} [Decidable p] (label : String) (x rest : Option String) :
    (if p then some label else x).or rest = if p then some label else x.or rest := by
  split <;> rfl

/-- The steps about paid media. -/
def paidSteps : List Step :=
  [step3PaidShopping, step4PaidSearch, step5PaidSocial, step6PaidVideo, step7Display,
    step8PaidOther]

private theorem climb_silent {rungs : List Step} {c : ClassCtx}
    (hsilent : ∀ step ∈ rungs, step c = (c, none)) (rest : List Step) :
    climb (rungs ++ rest) c = climb rest c := by
  induction rungs with
  | nil => rfl
  | cons step rungs ih =>
    rw [List.forall_mem_cons] at hsilent
    rw [List.cons_append, climb, hsilent.1]
    exact ih hsilent.2

private theorem paidSteps_silent {c : ClassCtx} (hpaid : c.isPaidMedium = false)
    (hmedium : c.utmMedium = "") (hclick : c.clickID = "") :
    ∀ step ∈ paidSteps, step c = (c, none) := by
  intro step hstep
  simp only [paidSteps, List.mem_cons, List.not_mem_nil, or_false] at hstep
  have hgclid : ("" : String) ≠ "(gclid)" := by decide
  have hmsclkid : ("" : String) ≠ "(msclkid)" := by decide
  have hdisplay : "" ∉ displayMediums := by decide
  rcases hstep with rfl | rfl | rfl | rfl | rfl | rfl
  · simp [step3PaidShopping, hpaid]
  · simp [step4PaidSearch, hpaid, hclick, hgclid, hmsclkid]
  · simp [step5PaidSocial, hpaid]
  · simp [step6PaidVideo, hpaid]
  · simp [step7Display, hmedium, hdisplay]
  · simp [step8PaidOther, hpaid]

private theorem climb_untagged {c : ClassCtx} (hc : Untagged c) :
    (climb steps c).2 = hostLabel c.db.sets c.referrer := by
  obtain ⟨hsource, hmedium, hcampaign, hclick, hsets⟩ := hc
  obtain ⟨db, h, name, source, medium, campaign, click, paid, shopping⟩ := c
  simp only at hsource hmedium hcampaign hclick hsets
  subst hsource hmedium hcampaign hclick
  have hin (b : Bucket) := inSet_eq (hsets b) h
  have hcross : contains "" "cross-network" = false := contains_empty (by decide)
  have hvideo : contains "" "video" = false := contains_empty (by decide)
  have hmobile : contains "" "mobile" = false := contains_empty (by decide)
  have hnotification : contains "" "notification" = false := contains_empty (by decide)
  have hpush : hasSuffix "" "push" = false := by decide
  -- the second step leaves a context without a paid medium
  have h₁ (c : ClassCtx) (hcampaign : c.utmCampaign = "") : step1CrossNetwork c = (c, none) := by
    rw [step1CrossNetwork, hcampaign, hcross]
    rfl
  have h₂ : step2ComputePredicates ⟨db, h, name, "", "", "", "", paid, shopping⟩ =
      (⟨db, h, name, "", "", "", "", false, decide (h ∈ db.sets .shop)⟩, none) := by
    simp only [step2ComputePredicates, paidMediumRegex_empty, shoppingCampaignRegex_empty, hin,
      Bool.or_false]
  change (climb (step1CrossNetwork :: step2ComputePredicates :: (paidSteps ++
    [step9OrganicShopping, step10OrganicSocial, step11OrganicVideo, step12OrganicSearch,
      step13Referral, step14Email, step15Misc])) _).2 = _
  rw [climb_cons (h₁ _ rfl), climb_cons h₂, Option.none_or, Option.none_or,
    climb_silent (paidSteps_silent rfl rfl rfl), climb_cons rfl, climb_cons rfl, climb_cons rfl,
    climb_cons rfl, climb_cons rfl, climb_cons rfl, climb_cons rfl]
  have hreferral : (decide (h ≠ "") && decide (h ∈ db.sets .referral)) =
      decide (h ∈ db.sets .referral) := by
    by_cases hne : h = ""
    · rw [hne, decide_eq_false (hsets .referral), Bool.and_false]
    · rw [decide_eq_true hne, Bool.true_and]
  have hsocial : "" ∉ socialMediums := by decide
  have hmediums : "" ∉ referralMediums := by decide
  have htokens : "" ∉ emailTokens := by decide
  have hsources : "" ∉ pushSources := by decide
  have hword : "" ≠ "organic" ∧ "" ≠ "affiliate" ∧ "" ≠ "audio" ∧ "" ≠ "sms" := by decide
  simp only [hin, hvideo, hmobile, hnotification, hpush, hreferral, hsocial, hmediums, htokens,
    hsources, hword, hsets, decide_false, Bool.or_false, Bool.false_eq_true, decide_eq_true_eq,
    if_false, ite_some_or, Option.none_or]
  rfl

/-- The place of the step that looks a set up. -/
def Bucket.rung : Bucket → ℕ
  | .shop => 9
  | .social => 10
  | .video => 11
  | .search => 12
  | .referral => 13
  | .email => 14
  | .ai => 15

/-- The channel of a visit from a host of the bucket. -/
def Bucket.label : Bucket → String
  | .shop => "Organic Shopping"
  | .social => "Organic Social"
  | .video => "Organic Video"
  | .search => "Organic Search"
  | .referral => "Referral"
  | .email => channelEmail
  | .ai => "AI"

theorem Bucket.label_injective : Function.Injective Bucket.label := by
  intro a b h
  cases a <;> cases b <;> first | rfl | exact absurd h (by decide)

theorem Bucket.rung_injective : Function.Injective Bucket.rung := by
  intro a b h
  cases a <;> cases b <;> first | rfl | exact absurd h (by decide)

/-- The words that steps take for a channel where they stand for a host. -/
def hostWords : List String := emailTokens ++ "sms" :: pushSources

variable {sets : Bucket → Finset String} {h : String}

theorem notMem_before_succ {a : Bucket} (hbefore : ∀ b', b'.rung < a.rung → h ∉ sets b')
    (ha : h ∉ sets a) : ∀ b', b'.rung < a.rung + 1 → h ∉ sets b' := by
  intro b' hb'
  rcases Nat.lt_succ_iff_lt_or_eq.mp hb' with hlt | heq
  · exact hbefore b' hlt
  · rwa [Bucket.rung_injective heq]

/-- The bucket whose step comes first is the one that answers. -/
theorem label_eq_iff_of_first {a b : Bucket} {p : Prop} (ha : h ∈ sets a) (hb : h ∈ sets b)
    (hbefore : ∀ b', b'.rung < a.rung → h ∉ sets b') (hai : a = .ai → p) :
    some a.label = some b.label ↔ (∀ b', h ∈ sets b' → b.rung ≤ b'.rung) ∧ (b = .ai → p) := by
  have hfirst (b' : Bucket) (hb' : h ∈ sets b') : a.rung ≤ b'.rung :=
    not_lt.mp fun hlt => hbefore b' hlt hb'
  rw [Option.some_inj, Bucket.label_injective.eq_iff]
  constructor
  · rintro rfl
    exact ⟨hfirst, hai⟩
  · rintro ⟨hmin, -⟩
    exact Bucket.rung_injective (le_antisymm (hfirst b hb) (hmin a ha))

/-- Behind the step for mail only the last bucket is left, and a word that is taken for another
channel keeps it from answering. -/
theorem label_eq_iff_of_word {b : Bucket} {word : String} (hb : h ∈ sets b)
    (hbefore : ∀ b', b'.rung < 15 → h ∉ sets b') (hword : word ≠ Bucket.ai.label)
    (hmem : h ∈ hostWords) : some word = some b.label ↔
      (∀ b', h ∈ sets b' → b.rung ≤ b'.rung) ∧ (b = .ai → h ∉ hostWords) := by
  have hai : b = .ai := by
    have hrung : 15 ≤ b.rung := not_lt.mp fun hlt => hbefore b hlt hb
    cases b <;> first | rfl | exact absurd hrung (by decide)
  subst hai
  rw [Option.some_inj, iff_false_left hword]
  rintro ⟨-, hnot⟩
  exact hnot rfl hmem

theorem hostLabel_eq_iff {b : Bucket} (hb : h ∈ sets b) :
    hostLabel sets h = some b.label ↔
      (∀ b', h ∈ sets b' → b.rung ≤ b'.rung) ∧ (b = .ai → h ∉ hostWords) := by
  have hwords : h ∈ hostWords ↔ h ∈ emailTokens ∨ h = "sms" ∨ h ∈ pushSources := by
    rw [hostWords, List.mem_append, List.mem_cons]
  have h₉ : ∀ b' : Bucket, b'.rung < Bucket.shop.rung → h ∉ sets b' := by
    intro b' hlt
    cases b' <;> exact absurd hlt (by decide)
  rw [hostLabel]
  by_cases hshop : h ∈ sets .shop
  · rw [if_pos hshop]
    exact label_eq_iff_of_first hshop hb h₉ nofun
  have h₁₀ := notMem_before_succ h₉ hshop
  rw [if_neg hshop]
  by_cases hsocial : h ∈ sets .social
  · rw [if_pos hsocial]
    exact label_eq_iff_of_first hsocial hb h₁₀ nofun
  have h₁₁ := notMem_before_succ (a := .social) h₁₀ hsocial
  rw [if_neg hsocial]
  by_cases hvideo : h ∈ sets .video
  · rw [if_pos hvideo]
    exact label_eq_iff_of_first hvideo hb h₁₁ nofun
  have h₁₂ := notMem_before_succ (a := .video) h₁₁ hvideo
  rw [if_neg hvideo]
  by_cases hsearch : h ∈ sets .search
  · rw [if_pos hsearch]
    exact label_eq_iff_of_first hsearch hb h₁₂ nofun
  have h₁₃ := notMem_before_succ (a := .search) h₁₂ hsearch
  rw [if_neg hsearch]
  by_cases hreferral : h ∈ sets .referral
  · rw [if_pos hreferral]
    exact label_eq_iff_of_first hreferral hb h₁₃ nofun
  have h₁₄ := notMem_before_succ (a := .referral) h₁₃ hreferral
  rw [if_neg hreferral]
  by_cases hemail : h ∈ sets .email
  · -- the set and the words give the same answer
    have hmail := label_eq_iff_of_first (p := h ∉ hostWords) hemail hb h₁₄ nofun
    rw [if_pos hemail]
    split
    next => exact hmail
    next => exact hmail
  have h₁₅ := notMem_before_succ (a := .email) h₁₄ hemail
  rw [if_neg hemail]
  by_cases htoken : h ∈ emailTokens
  · rw [if_pos htoken]
    exact label_eq_iff_of_word hb h₁₅ (by decide) (hwords.mpr (.inl htoken))
  rw [if_neg htoken]
  by_cases hsms : h = "sms"
  · rw [if_pos hsms]
    exact label_eq_iff_of_word hb h₁₅ (by decide) (hwords.mpr (.inr (.inl hsms)))
  rw [if_neg hsms]
  by_cases hpush : h ∈ pushSources
  · rw [if_pos hpush]
    exact label_eq_iff_of_word hb h₁₅ (by decide) (hwords.mpr (.inr (.inr hpush)))
  rw [if_neg hpush]
  by_cases hai : h ∈ sets .ai
  · rw [if_pos hai]
    exact label_eq_iff_of_first hai hb h₁₅ fun _ => by simp [hwords, htoken, hsms, hpush]
  · have hnone := notMem_before_succ (a := .ai) h₁₅ hai
    exact absurd hb (hnone b (by cases b <;> decide))

/-- The mapper has the table of the sources. -/
def Serves (u : Unicode) (m : ChannelMapper) (sources : List SourceEntry) : Prop :=
  m.db = some (compile u sources)

/-- The sources of the last file that could be read and parsed. -/
def inForce (sources : List SourceEntry) (files : List (Except SourcesError (List SourceEntry))) :
    List SourceEntry :=
  files.foldl (fun sources file => file.toOption.getD sources) sources

theorem serves_new {u : Unicode} {file : Except SourcesError (List SourceEntry)}
    {m : ChannelMapper} (h : newChannelMapper u file = .ok m) :
    ∃ sources, file = .ok sources ∧ Serves u m sources := by
  cases file with
  | error e => exact nomatch h
  | ok sources => exact ⟨sources, rfl, by rw [Serves, ← Except.ok.inj h]⟩

private theorem serves_reload {u : Unicode} {m : ChannelMapper} {sources : List SourceEntry}
    (h : Serves u m sources) (file : Except SourcesError (List SourceEntry)) :
    Serves u (m.reload u file).1 (file.toOption.getD sources) := by
  cases file with
  | error e => exact h
  | ok sources => rfl

theorem serves_reloads {u : Unicode} {m : ChannelMapper} {sources : List SourceEntry}
    (h : Serves u m sources) (files : List (Except SourcesError (List SourceEntry))) :
    Serves u (files.foldl (fun m file => (m.reload u file).1) m) (inForce sources files) := by
  induction files generalizing m sources with
  | nil => exact h
  | cons file files ih => exact ih (serves_reload h file)

section Sources

variable (u : Unicode) (sources : List SourceEntry)

/-- The host is listed, or it is below one that is. -/
def Recognised (h : String) : Prop :=
  ∃ s ∈ sources, ∃ d ∈ s.hosts u, h = d ∨ ("." ++ d).toList <:+ h.toList

/-- The last entry under a host. -/
def lastUnder (h : String) : Option SourceEntry :=
  sources.reverse.find? fun s => h ∈ s.hosts u

/-- The host itself is listed, and the step that looks up the bucket of the last entry under it
is the first one that answers. -/
def Settled (h : String) : Prop :=
  ∃ s b, lastUnder u sources h = some s ∧ bucketSetFor s.channel = some b ∧
    (∀ s' ∈ sources, h ∈ s'.hosts u → ∀ b', bucketSetFor s'.channel = some b' →
      b.rung ≤ b'.rung) ∧
    (b = .ai → h ∉ hostWords)

/-- The name is that of the entry to which the host is resolved, and so is the channel. -/
def Agrees (h : String) (d : Decision) : Prop :=
  ∀ e, (compile u sources).resolve h = some e → d.referrerName = e.name ∧
    (∃ b, bucketSetFor e.channel = some b ∧ d.channel = b.label) ∧ d.channel ≠ "Direct"

variable {u sources} {h : String}

theorem mem_of_lastUnder {s : SourceEntry} (hs : lastUnder u sources h = some s) :
    s ∈ sources ∧ h ∈ s.hosts u := by
  rw [lastUnder, List.find?_eq_some_iff_append] at hs
  obtain ⟨hmem, front, back, hsplit, -⟩ := hs
  refine ⟨?_, of_decide_eq_true hmem⟩
  rw [← List.mem_reverse, hsplit]
  exact List.mem_append_right _ List.mem_cons_self

theorem lastUnder_eq_none :
    lastUnder u sources h = none ↔ ∀ s ∈ sources, h ∉ s.hosts u := by
  simp only [lastUnder, List.find?_eq_none, List.mem_reverse, decide_eq_true_eq]

theorem resolve_of_lastUnder {s : SourceEntry} (hs : lastUnder u sources h = some s) :
    (compile u sources).resolve h = some (s.stored u) := by
  have hne := SourceEntry.ne_empty_of_mem_hosts (mem_of_lastUnder hs).2
  rw [CompiledDB.resolve, if_neg hne, exact_compile, ← lastUnder, hs]
  rfl

private theorem mem_suffixIdx_compile {se : SuffixEntry} : se ∈ (compile u sources).suffixIdx ↔
    ∃ s ∈ sources, ∃ d ∈ s.hosts u, se = ⟨"." ++ d, s.stored u⟩ := by
  simp only [suffixIdx_compile, List.mem_flatMap, List.mem_map, eq_comm]

/-- A host that is not listed is resolved where it is below one that is. -/
theorem resolve_of_not_listed (hs : lastUnder u sources h = none) :
    (∃ e, (compile u sources).resolve h = some e) ↔
      ∃ s ∈ sources, ∃ d ∈ s.hosts u, ("." ++ d).toList <:+ h.toList := by
  by_cases hne : h = ""
  · subst hne
    rw [CompiledDB.resolve, if_pos rfl]
    simp
  · rw [CompiledDB.resolve, if_neg hne, exact_compile, ← lastUnder, hs]
    simp only [Option.map_none, ← Option.isSome_iff_exists, Option.isSome_map,
      List.find?_isSome, mem_suffixIdx_compile, hasSuffix, List.isSuffixOf_iff_suffix]
    constructor
    · rintro ⟨_, ⟨s, hmem, d, hd, rfl⟩, hsuffix⟩
      exact ⟨s, hmem, d, hd, hsuffix⟩
    · rintro ⟨s, hmem, d, hd, hsuffix⟩
      exact ⟨_, ⟨s, hmem, d, hd, rfl⟩, hsuffix⟩

theorem resolve_iff_recognised :
    (∃ e, (compile u sources).resolve h = some e) ↔ Recognised u sources h := by
  cases hs : lastUnder u sources h with
  | some s =>
    obtain ⟨hmem, hh⟩ := mem_of_lastUnder hs
    exact iff_of_true ⟨_, resolve_of_lastUnder hs⟩ ⟨s, hmem, h, hh, .inl rfl⟩
  | none =>
    rw [resolve_of_not_listed hs]
    rw [lastUnder_eq_none] at hs
    constructor
    · rintro ⟨s, hmem, d, hd, hsuffix⟩
      exact ⟨s, hmem, d, hd, .inr hsuffix⟩
    · rintro ⟨s, hmem, d, hd, rfl | hsuffix⟩
      · exact absurd hd (hs s hmem)
      · exact ⟨s, hmem, d, hd, hsuffix⟩

/-- A host that is below a listed one and not listed itself is in no set. -/
theorem hostLabel_of_not_listed (hs : lastUnder u sources h = none)
    (hrec : Recognised u sources h) : hostLabel (compile u sources).sets h = none := by
  have hsets (b : Bucket) : h ∉ (compile u sources).sets b := by
    rw [mem_sets_compile]
    rintro ⟨s, hmem, -, hh⟩
    exact lastUnder_eq_none.mp hs s hmem hh
  -- the words that steps take for a host have no dot
  have hwords : h ∉ hostWords := by
    intro hword
    rw [← resolve_iff_recognised, resolve_of_not_listed hs] at hrec
    obtain ⟨-, -, d, -, hsuffix⟩ := hrec
    have hdot : '.' ∈ h.toList := hsuffix.subset (by simp)
    have hnone : ∀ word ∈ hostWords, '.' ∉ word.toList := by decide
    exact hnone h hword hdot
  simp only [hostWords, List.mem_append, List.mem_cons, not_or] at hwords
  simp only [hostLabel, hsets, hwords, if_false]

private theorem empty_notMem_sets (b : Bucket) : "" ∉ (compile u sources).sets b := by
  rw [mem_sets_compile]
  rintro ⟨s, -, -, hh⟩
  exact SourceEntry.ne_empty_of_mem_hosts hh rfl

variable {m : ChannelMapper} {utmSource utmMedium utmCampaign clickID : String}

private theorem classify_untagged (hm : Serves u m sources) (hsource : trimSpace utmSource = "")
    (hmedium : trimSpace utmMedium = "") (hcampaign : trimSpace utmCampaign = "")
    (hclick : trimSpace clickID = "") (referrer : String) :
    m.classify u referrer utmSource utmMedium utmCampaign clickID =
      { referrerName :=
          (((compile u sources).resolve (referrerHost u referrer)).map (·.name)).getD ""
        channel :=
          (hostLabel (compile u sources).sets (referrerHost u referrer)).getD "Direct" } := by
  have hlower : u.lowerString "" = "" := rfl
  have huntagged : Untagged (step0Normalize u (compile u sources) referrer utmSource utmMedium
      utmCampaign clickID) := by
    constructor
    · rw [step0Normalize, hsource, hlower]
    · rw [step0Normalize, hmedium, hlower]
    · rw [step0Normalize, hcampaign, hlower]
    · rw [step0Normalize, hclick]
    · exact empty_notMem_sets
  rw [ChannelMapper.classify, hm]
  dsimp only
  rw [climb_untagged huntagged, climb_referrerName steps_keep]
  rfl

theorem Bucket.label_ne_direct (b : Bucket) : b.label ≠ "Direct" := by
  cases b <;> decide

/-- Without tags the name and the channel agree exactly where the host is settled. -/
theorem classify_agrees_iff (hm : Serves u m sources) (hsource : trimSpace utmSource = "")
    (hmedium : trimSpace utmMedium = "") (hcampaign : trimSpace utmCampaign = "")
    (hclick : trimSpace clickID = "") (referrer : String) :
    Agrees u sources (referrerHost u referrer)
        (m.classify u referrer utmSource utmMedium utmCampaign clickID) ↔
      (Recognised u sources (referrerHost u referrer) →
        Settled u sources (referrerHost u referrer)) := by
  rw [classify_untagged hm hsource hmedium hcampaign hclick]
  generalize referrerHost u referrer = h
  have hsets {s : SourceEntry} {b : Bucket} (hs : lastUnder u sources h = some s)
      (hb : bucketSetFor s.channel = some b) : h ∈ (compile u sources).sets b :=
    (mem_sets_compile u sources).mpr ⟨s, (mem_of_lastUnder hs).1, hb, (mem_of_lastUnder hs).2⟩
  have hfirst (b : Bucket) :
      (∀ b', h ∈ (compile u sources).sets b' → b.rung ≤ b'.rung) ↔
        ∀ s' ∈ sources, h ∈ s'.hosts u → ∀ b', bucketSetFor s'.channel = some b' →
          b.rung ≤ b'.rung := by
    simp only [mem_sets_compile]
    constructor
    · intro hmin s' hs' hh b' hb'
      exact hmin b' ⟨s', hs', hb', hh⟩
    · rintro hmin b' ⟨s', hs', hb', hh⟩
      exact hmin s' hs' hh b' hb'
  constructor
  · intro hagree hrec
    obtain ⟨e, he⟩ := resolve_iff_recognised.mpr hrec
    obtain ⟨-, ⟨b, hb, hlabel⟩, hdirect⟩ := hagree e he
    dsimp only at hlabel hdirect
    cases hs : lastUnder u sources h with
    | none =>
      rw [hostLabel_of_not_listed hs hrec] at hdirect
      exact absurd rfl hdirect
    | some s =>
      obtain rfl : s.stored u = e := Option.some.inj ((resolve_of_lastUnder hs).symm.trans he)
      have hanswer : hostLabel (compile u sources).sets h = some b.label := by
        cases hl : hostLabel (compile u sources).sets h with
        | none => exact absurd (by rw [hl]; rfl) hdirect
        | some l => rw [← hlabel, hl, Option.getD_some]
      obtain ⟨hmin, hai⟩ := (hostLabel_eq_iff (hsets hs hb)).mp hanswer
      exact ⟨s, b, hs, hb, (hfirst b).mp hmin, hai⟩
  · intro hsettled e he
    obtain ⟨s, b, hs, hb, hmin, hai⟩ := hsettled (resolve_iff_recognised.mp ⟨e, he⟩)
    obtain rfl : s.stored u = e := Option.some.inj ((resolve_of_lastUnder hs).symm.trans he)
    have hanswer := (hostLabel_eq_iff (hsets hs hb)).mpr ⟨(hfirst b).mpr hmin, hai⟩
    dsimp only
    rw [hanswer, he, Option.getD_some]
    exact ⟨rfl, ⟨b, hb, rfl⟩, b.label_ne_direct⟩

end Sources

def google : SourceEntry :=
  ⟨"Google", "Organic Search", ["google.com", "google.ir", "google.de"]⟩

def googleMapper : ChannelMapper := ⟨some (compile sampleUnicode [google])⟩

/-- The news of a search engine have its name, and are of no channel. -/
theorem news_direct :
    googleMapper.classify sampleUnicode "https://news.google.com/" "" "" "" "" =
        { referrerName := "google", channel := "Direct" } ∧
      ¬ Agrees sampleUnicode [google] (referrerHost sampleUnicode "https://news.google.com/")
        (googleMapper.classify sampleUnicode "https://news.google.com/" "" "" "" "") := by
  have hdirect : googleMapper.classify sampleUnicode "https://news.google.com/" "" "" "" "" =
      { referrerName := "google", channel := "Direct" } := by decide +kernel
  have hresolve : (compile sampleUnicode [google]).resolve
      (referrerHost sampleUnicode "https://news.google.com/") =
        some (google.stored sampleUnicode) := by decide +kernel
  refine ⟨hdirect, fun hagree => ?_⟩
  rw [hdirect] at hagree
  exact (hagree _ hresolve).2.2 rfl

theorem search_agrees :
    Agrees sampleUnicode [google] (referrerHost sampleUnicode "https://www.google.ir/search?q=foo")
      (googleMapper.classify sampleUnicode "https://www.google.ir/search?q=foo" "" "" "" "") := by
  have hblank : trimSpace "" = "" := rfl
  refine (classify_agrees_iff (m := googleMapper) rfl hblank hblank hblank hblank _).mpr
    fun _ => ⟨google, .search, by decide +kernel, rfl, ?_, nofun⟩
  intro s hs _ b hb
  obtain rfl := List.mem_singleton.mp hs
  obtain rfl : Bucket.search = b := Option.some.inj hb
  exact le_rfl

end Statnive.ReferrerChannels
