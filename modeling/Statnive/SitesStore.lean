import Statnive.CacheRevocation
import Statnive.Linearizability
import Statnive.OAuthServer

/-!
# The table of grants as a map

A grant is one insert, and a revocation looks the grant up and then inserts a row that revokes
it. Grants, revocations and both look-ups may overlap in any way: they behave like operations on
a map from users and sites to roles that happen one after the other.
-/

namespace Statnive.SitesStore

open AuthTypes CacheRevocation Linearizability LabelledRuns
open OAuthServer (Fate)

inductive Op where
  | grant (userID : UserID) (siteID : ℕ) (role : Role)
  | revoke (userID : UserID) (siteID : ℕ)
  | loadUserSites (userID : UserID)
  | listUsersBySite (siteID : ℕ)
  deriving DecidableEq

inductive Result where
  | ok
  | invalidInput
  | failed
  | sites (grants : Grants)
  | users (grants : List (UserID × Role))
  deriving DecidableEq

/-- `found` is a revocation that has looked up the role. -/
inductive Local where
  | start (op : Op)
  | found (userID : UserID) (siteID : ℕ) (role : Role)

structure Table where
  rows : List GrantRow
  clock : ℕ := 0

/-- The server's clock and the fate of the next query. -/
structure Env where
  now : ℕ
  fate : Fate := .ok

def Table.put (t : Table) (fate : Fate) (row : GrantRow) : Table :=
  if fate = .failed then t
  else { t with rows := ReplacingTable.insert GrantRow.key GrantRow.version t.rows row }

/-- `before` is the order that the server has on UUIDs. -/
def listUsersBySite (before : UserID → UserID → Bool) (rows : List GrantRow) (siteID : ℕ) :
    Option (List (UserID × Role)) :=
  if siteID = 0 then none
  else some ((((rows.filter (fun r => r.siteID = siteID && !r.revoked)).mergeSort
    (fun r s => before r.userID s.userID)).filter (fun r => r.role.valid)).map
      (fun r => (r.userID, r.role)))

def answer (fate : Fate) : Result := if fate = .ok then .ok else .failed

/-- A look-up, where `none` stands for an argument that is refused. -/
def lookup {α : Type} (fate : Fate) (found : Option α) (result : α → Result) : Result :=
  match found with
  | none => .invalidInput
  | some v => if fate = .ok then result v else .failed

def stepStart (before : UserID → UserID → Bool) (env : Env) (t : Table) :
    Op → Table × (Local ⊕ Result)
  | .grant userID siteID role =>
    if userID = uuidNil || siteID = 0 || !role.valid then (t, .inr .invalidInput)
    else (t.put env.fate ⟨userID, siteID, role, false, env.now⟩, .inr (answer env.fate))
  | .revoke userID siteID =>
    if userID = uuidNil || siteID = 0 then (t, .inr .invalidInput)
    else if env.fate ≠ .ok then (t, .inr .failed)
    else match loadOneGrant t.rows userID siteID with
    | none => (t, .inr .ok)
    | some role => (t, .inl (.found userID siteID role))
  | .loadUserSites userID =>
    (t, .inr (lookup env.fate (CacheRevocation.loadUserSites t.rows userID) .sites))
  | .listUsersBySite siteID =>
    (t, .inr (lookup env.fate (SitesStore.listUsersBySite before t.rows siteID) .users))

def object (before : UserID → UserID → Bool) : Object Table Op Local Result Env where
  begin := .start
  enabled env t := t.clock ≤ env.now
  step env t x :=
    let t := { t with clock := env.now }
    match x with
    | .start op => stepStart before env t op
    | .found userID siteID role =>
      (t.put env.fate ⟨userID, siteID, role, true, env.now⟩, .inr (answer env.fate))

abbrev GrantMap := UserID → ℕ → Option Role

def assign (M : GrantMap) (userID : UserID) (siteID : ℕ) (role : Option Role) : GrantMap :=
  fun u s => if u = userID ∧ s = siteID then role else M u s

/-- Each key with its role, once. -/
def Shows {κ : Type} (m : κ → Option Role) (entries : List (κ × Role)) : Prop :=
  (entries.map Prod.fst).Nodup ∧ ∀ k role, (k, role) ∈ entries ↔ m k = some role

/-- What an operation does to the map when it happens at once. One that fails may have been
done. -/
def spec (M : GrantMap) (op : Op) (r : Result) (M' : GrantMap) : Prop :=
  match op, r with
  | .grant userID siteID role, .invalidInput =>
    (userID = uuidNil ∨ siteID = 0 ∨ role.valid = false) ∧ M' = M
  | .grant userID siteID role, .ok => role.valid = true ∧ M' = assign M userID siteID (some role)
  | .grant userID siteID role, .failed =>
    role.valid = true ∧ (M' = M ∨ M' = assign M userID siteID (some role))
  | .revoke userID siteID, .invalidInput => (userID = uuidNil ∨ siteID = 0) ∧ M' = M
  | .revoke userID siteID, .ok => M' = assign M userID siteID none
  | .revoke userID siteID, .failed => M' = M ∨ M' = assign M userID siteID none
  | .loadUserSites userID, .invalidInput => userID = uuidNil ∧ M' = M
  | .loadUserSites userID, .sites grants => Shows (M userID) grants ∧ M' = M
  | .loadUserSites _, .failed => M' = M
  | .listUsersBySite siteID, .invalidInput => siteID = 0 ∧ M' = M
  | .listUsersBySite siteID, .users grants => Shows (fun u => M u siteID) grants ∧ M' = M
  | .listUsersBySite _, .failed => M' = M
  | _, _ => False

/-- The row is in force. -/
def active (r : GrantRow) : Bool := !r.revoked && r.role.valid

def Table.map (t : Table) : GrantMap := fun userID siteID =>
  (t.rows.find? (fun r => r.userID = userID && r.siteID = siteID && active r)).map GrantRow.role

/-- Each user has one row for each site, with a role of the column's type and from no later than
now. -/
structure Good (t : Table) : Prop where
  keys : (t.rows.map GrantRow.key).Nodup
  roles : ∀ r ∈ t.rows, r.role.valid = true
  versions : ∀ r ∈ t.rows, r.updatedAt ≤ t.clock

variable {before : UserID → UserID → Bool} {env : Env} {t : Table} {userID : UserID} {siteID : ℕ}
  {role : Role}

theorem eq_of_key {rows : List GrantRow} (hkeys : (rows.map GrantRow.key).Nodup) {r s : GrantRow}
    (hr : r ∈ rows) (hs : s ∈ rows) (hkey : r.key = s.key) : r = s :=
  List.inj_on_of_nodup_map hkeys hr hs hkey

theorem map_eq_some (hgood : Good t) : t.map userID siteID = some role ↔
    ∃ r ∈ t.rows, r.key = (userID, siteID) ∧ active r = true ∧ r.role = role := by
  simp only [Table.map, Option.map_eq_some_iff]
  constructor
  · rintro ⟨r, hfind, rfl⟩
    have hfound := List.find?_some hfind
    simp only [Bool.and_eq_true, decide_eq_true_eq] at hfound
    exact ⟨r, List.mem_of_find?_eq_some hfind, Prod.ext hfound.1.1 hfound.1.2, hfound.2, rfl⟩
  · rintro ⟨r, hr, hkey, hactive, rfl⟩
    obtain ⟨rfl, rfl⟩ := Prod.mk.inj hkey
    cases hfind : t.rows.find?
      (fun s => s.userID = r.userID && s.siteID = r.siteID && active s) with
    | none => simpa [hactive] using List.find?_eq_none.mp hfind r hr
    | some s =>
      have hfound := List.find?_some hfind
      simp only [Bool.and_eq_true, decide_eq_true_eq] at hfound
      have hsame := eq_of_key hgood.keys (List.mem_of_find?_eq_some hfind) hr
        (Prod.ext hfound.1.1 hfound.1.2)
      exact ⟨s, rfl, congrArg GrantRow.role hsame⟩

/-- What the map has for the key of a row. -/
def entry (row : GrantRow) : Option Role := if row.revoked then none else some row.role

theorem Good.mem_insert (hgood : Good t) {row : GrantRow} (hnow : t.clock = row.updatedAt)
    (r : GrantRow) : r ∈ ReplacingTable.insert GrantRow.key GrantRow.version t.rows row ↔
      r = row ∨ r ∈ t.rows ∧ r.key ≠ row.key := by
  refine ReplacingTable.mem_insert_latest (fun old hold _ => ?_) r
  have hle : old.updatedAt ≤ row.updatedAt := hnow ▸ hgood.versions old hold
  exact Int.ofNat_le.mpr hle

theorem Good.put (hgood : Good t) (fate : Fate) {row : GrantRow} (hnow : t.clock = row.updatedAt)
    (hrole : row.role.valid = true) : Good (t.put fate row) := by
  unfold Table.put
  split
  · exact hgood
  · refine ⟨ReplacingTable.nodup_insert hgood.keys, fun r hr => ?_, fun r hr => ?_⟩
    · rcases (hgood.mem_insert hnow r).mp hr with rfl | ⟨hr, -⟩
      · exact hrole
      · exact hgood.roles r hr
    · rcases (hgood.mem_insert hnow r).mp hr with rfl | ⟨hr, -⟩
      · exact hnow.ge
      · exact hgood.versions r hr

/-- A write that is not lost sets the entry of its key. -/
theorem map_put (hgood : Good t) {fate : Fate} (hfate : fate ≠ .failed) {row : GrantRow}
    (hnow : t.clock = row.updatedAt) (hrole : row.role.valid = true) :
    (t.put fate row).map = assign t.map row.userID row.siteID (entry row) := by
  funext userID siteID
  apply Option.ext
  intro role
  have hput := hgood.put fate hnow hrole
  have hrows : (t.put fate row).rows =
      ReplacingTable.insert GrantRow.key GrantRow.version t.rows row := by
    simp only [Table.put, hfate, if_false]
  rw [map_eq_some hput, hrows]
  simp only [hgood.mem_insert hnow, assign]
  split
  · next hkey =>
    obtain ⟨rfl, rfl⟩ := hkey
    constructor
    · rintro ⟨r, rfl | ⟨-, hne⟩, hkey, hactive, rfl⟩
      · simp only [active, Bool.and_eq_true, Bool.not_eq_true'] at hactive
        simp [entry, hactive.1]
      · exact absurd hkey hne
    · intro hentry
      simp only [entry] at hentry
      split_ifs at hentry with hrevoked
      exact ⟨row, .inl rfl, rfl, by simp [active, hrevoked, hrole], Option.some.inj hentry⟩
  · next hkey =>
    rw [map_eq_some hgood]
    constructor
    · rintro ⟨r, rfl | ⟨hr, -⟩, hsame, hrest⟩
      · exact absurd (Prod.mk.inj hsame) (by simpa [eq_comm] using hkey)
      · exact ⟨r, hr, hsame, hrest⟩
    · rintro ⟨r, hr, hsame, hrest⟩
      refine ⟨r, .inr ⟨hr, fun heq => hkey ?_⟩, hsame, hrest⟩
      exact (Prod.mk.inj (hsame.symm.trans heq))

private theorem loadOneGrant_none (hgood : Good t) (h : loadOneGrant t.rows userID siteID = none) :
    t.map userID siteID = none := by
  rw [Option.eq_none_iff_forall_ne_some]
  intro role hrole
  obtain ⟨r, hr, hkey, hactive, -⟩ := (map_eq_some hgood).mp hrole
  have hfind : t.rows.find? (fun r => r.userID = userID && r.siteID = siteID && !r.revoked) =
      none := by simpa [loadOneGrant] using h
  obtain ⟨rfl, rfl⟩ := Prod.mk.inj hkey
  simp only [active, Bool.and_eq_true] at hactive
  simpa [hactive.1] using List.find?_eq_none.mp hfind r hr

private theorem loadOneGrant_valid
    (hgood : Good t) (h : loadOneGrant t.rows userID siteID = some role) :
    role.valid = true := by
  simp only [loadOneGrant, Option.map_eq_some_iff] at h
  obtain ⟨r, hfind, rfl⟩ := h
  exact hgood.roles r (List.mem_of_find?_eq_some hfind)

private theorem shows_loadUserSites (hgood : Good t) {grants : Grants}
    (h : CacheRevocation.loadUserSites t.rows userID = some grants) :
    Shows (t.map userID) grants := by
  simp only [CacheRevocation.loadUserSites, Option.ite_none_left_eq_some, Option.some.injEq] at h
  obtain ⟨-, rfl⟩ := h
  constructor
  · rw [List.map_map]
    refine List.Nodup.map_on (fun r hr s hs hsame => ?_) (List.Nodup.filter _ hgood.keys.of_map)
    simp only [List.mem_filter, Bool.and_eq_true, decide_eq_true_eq] at hr hs
    exact eq_of_key hgood.keys hr.1 hs.1 (Prod.ext (hr.2.1.1.trans hs.2.1.1.symm) hsame)
  · intro siteID role
    rw [map_eq_some hgood]
    simp only [List.mem_map, List.mem_filter, Bool.and_eq_true, decide_eq_true_eq, Prod.mk.injEq,
      active, GrantRow.key]
    constructor
    · rintro ⟨r, ⟨hr, ⟨huser, hrevoked⟩, hvalid⟩, hsite, hrole⟩
      exact ⟨r, hr, ⟨huser, hsite⟩, ⟨hrevoked, hvalid⟩, hrole⟩
    · rintro ⟨r, hr, ⟨huser, hsite⟩, ⟨hrevoked, hvalid⟩, hrole⟩
      exact ⟨r, ⟨hr, ⟨huser, hrevoked⟩, hvalid⟩, hsite, hrole⟩

private theorem shows_listUsersBySite (hgood : Good t) {grants : List (UserID × Role)}
    (h : SitesStore.listUsersBySite before t.rows siteID = some grants) :
    Shows (fun u => t.map u siteID) grants := by
  simp only [SitesStore.listUsersBySite, Option.ite_none_left_eq_some, Option.some.injEq] at h
  obtain ⟨-, rfl⟩ := h
  have hperm := List.mergeSort_perm (t.rows.filter (fun r => r.siteID = siteID && !r.revoked))
    (fun r s => before r.userID s.userID)
  have hmem {r : GrantRow} :
      r ∈ (t.rows.filter (fun r => r.siteID = siteID && !r.revoked)).mergeSort
        (fun r s => before r.userID s.userID) ↔
      r ∈ t.rows ∧ r.siteID = siteID ∧ r.revoked = false := by
    rw [hperm.mem_iff]
    simp
  constructor
  · rw [List.map_map]
    have hnodup := hperm.nodup_iff.mpr (List.Nodup.filter _ hgood.keys.of_map)
    refine List.Nodup.map_on (fun r hr s hs hsame => ?_) (hnodup.filter _)
    obtain ⟨hr, hrsite, -⟩ := hmem.mp (List.mem_of_mem_filter hr)
    obtain ⟨hs, hssite, -⟩ := hmem.mp (List.mem_of_mem_filter hs)
    exact eq_of_key hgood.keys hr hs (Prod.ext hsame (hrsite.trans hssite.symm))
  · intro userID role
    rw [map_eq_some hgood]
    simp only [List.mem_map, List.mem_filter, hmem, Prod.mk.injEq, active, GrantRow.key,
      Bool.and_eq_true, Bool.not_eq_true']
    constructor
    · rintro ⟨r, ⟨⟨hr, hsite, hrevoked⟩, hvalid⟩, huser, hrole⟩
      exact ⟨r, hr, ⟨huser, hsite⟩, ⟨hrevoked, hvalid⟩, hrole⟩
    · rintro ⟨r, hr, ⟨huser, hsite⟩, ⟨hrevoked, hvalid⟩, hrole⟩
      exact ⟨r, ⟨⟨hr, hsite, hrevoked⟩, hvalid⟩, huser, hrole⟩

theorem Good.later (hgood : Good t) {now : ℕ} (hnow : t.clock ≤ now) :
    Good { t with clock := now } :=
  ⟨hgood.keys, hgood.roles, fun r hr => (hgood.versions r hr).trans hnow⟩

private theorem assign_same {M : GrantMap} (h : M userID siteID = none) :
    assign M userID siteID none = M := by
  funext u s
  simp only [assign]
  split
  · next hkey => rw [hkey.1, hkey.2, h]
  · rfl

/-- A write is answered with success when it is there, and may be there when it failed. -/
theorem put_answered (hgood : Good t) (fate : Fate) (row : GrantRow)
    (hnow : t.clock = row.updatedAt) (hrole : row.role.valid = true) :
    (fate = .ok ∧ answer fate = .ok ∧
        (t.put fate row).map = assign t.map row.userID row.siteID (entry row)) ∨
      answer fate = .failed ∧ ((t.put fate row).map = t.map ∨
        (t.put fate row).map = assign t.map row.userID row.siteID (entry row)) := by
  cases fate with
  | ok => exact .inl ⟨rfl, rfl, map_put hgood (by decide) hnow hrole⟩
  | failed => exact .inr ⟨rfl, .inl rfl⟩
  | failedAfter => exact .inr ⟨rfl, .inr (map_put hgood (by decide) hnow hrole)⟩

/-- What an operation knows between its queries. -/
def Holds (op : Op) : Local → Prop
  | .start op' => op' = op
  | .found userID siteID role => op = .revoke userID siteID ∧ role.valid = true

/-- A query leaves the map as it is, or is the last one and does all of the operation. -/
def Leads (M : GrantMap) (op : Op) (M' : GrantMap) : Local ⊕ Result → Prop
  | .inl x => Holds op x ∧ M' = M
  | .inr r => spec M op r M'

theorem stepStart_leads (hgood : Good t) (hnow : t.clock = env.now) (op : Op) {t' : Table}
    {next : Local ⊕ Result} (h : stepStart before env t op = (t', next)) :
    Good t' ∧ Leads t.map op t'.map next := by
  cases op with
  | grant userID siteID role =>
    simp only [stepStart] at h
    split_ifs at h with hbad
    · obtain ⟨rfl, rfl⟩ := Prod.mk.inj h
      exact ⟨hgood, by simpa [or_assoc] using hbad, rfl⟩
    · obtain ⟨rfl, rfl⟩ := Prod.mk.inj h
      have hrole : role.valid = true := by simp at hbad; exact hbad.2
      refine ⟨hgood.put env.fate hnow hrole, ?_⟩
      rcases put_answered hgood env.fate ⟨userID, siteID, role, false, env.now⟩ hnow hrole
        with ⟨-, hanswer, hmap⟩ | ⟨hanswer, hmap⟩
      · rw [Leads, hanswer]
        exact ⟨hrole, hmap⟩
      · rw [Leads, hanswer]
        exact ⟨hrole, hmap⟩
  | revoke userID siteID =>
    simp only [stepStart] at h
    split_ifs at h with hbad hfailed
    · obtain ⟨rfl, rfl⟩ := Prod.mk.inj h
      exact ⟨hgood, by simpa using hbad, rfl⟩
    · obtain ⟨rfl, rfl⟩ := Prod.mk.inj h
      exact ⟨hgood, .inl rfl⟩
    · split at h
      · next hnone =>
        obtain ⟨rfl, rfl⟩ := Prod.mk.inj h
        exact ⟨hgood, (assign_same (loadOneGrant_none hgood hnone)).symm⟩
      · next role hsome =>
        obtain ⟨rfl, rfl⟩ := Prod.mk.inj h
        exact ⟨hgood, ⟨rfl, loadOneGrant_valid hgood hsome⟩, rfl⟩
  | loadUserSites userID =>
    obtain ⟨rfl, rfl⟩ := Prod.mk.inj h
    refine ⟨hgood, ?_⟩
    simp only [Leads]
    cases hload : CacheRevocation.loadUserSites t.rows userID with
    | none => exact ⟨by simpa [CacheRevocation.loadUserSites] using hload, rfl⟩
    | some grants =>
      simp only [lookup]
      split
      · exact ⟨shows_loadUserSites hgood hload, rfl⟩
      · exact rfl
  | listUsersBySite siteID =>
    obtain ⟨rfl, rfl⟩ := Prod.mk.inj h
    refine ⟨hgood, ?_⟩
    simp only [Leads]
    cases hlist : SitesStore.listUsersBySite before t.rows siteID with
    | none => exact ⟨by simpa [SitesStore.listUsersBySite] using hlist, rfl⟩
    | some grants =>
      simp only [lookup]
      split
      · exact ⟨shows_listUsersBySite hgood hlist, rfl⟩
      · exact rfl

def atLastStep (before : UserID → UserID → Bool) : AtLastStep (object before) spec where
  abs := Table.map
  inv := Good
  holds := Holds
  begins _ := rfl
  goesOn env t op x t' y hgood hholds henabled hstep := by
    have hlater := hgood.later (of_decide_eq_true henabled)
    cases x with
    | start op' =>
      obtain rfl : op' = op := hholds
      exact stepStart_leads hlater rfl op' hstep
    | found userID siteID role => cases hstep
  answers env t op x t' r hgood hholds henabled hstep := by
    have hlater := hgood.later (of_decide_eq_true henabled)
    cases x with
    | start op' =>
      obtain rfl : op' = op := hholds
      exact stepStart_leads hlater rfl op' hstep
    | found userID siteID role =>
      obtain ⟨rfl, hrole⟩ := hholds
      obtain ⟨rfl, hr⟩ := Prod.mk.inj hstep
      obtain rfl := Sum.inr.inj hr
      refine ⟨hlater.put env.fate rfl hrole, ?_⟩
      rcases put_answered hlater env.fate ⟨userID, siteID, role, true, env.now⟩ rfl hrole
        with ⟨-, hanswer, hmap⟩ | ⟨hanswer, hmap⟩
      · rw [hanswer]
        exact hmap
      · rw [hanswer]
        exact hmap

/-- However grants, revocations and look-ups overlap, what their callers see is what they would
see if each happened at once. -/
theorem grants_linearizable {rows : List GrantRow} {clock : ℕ} (hgood : Good ⟨rows, clock⟩)
    {acts : List (Action Op Env)} {t : State Table Op Local Result}
    (hrun : exec (step (object before)) { shared := ⟨rows, clock⟩ } acts = some t) :
    Linearizable spec (Table.map ⟨rows, clock⟩) t.seen :=
  (atLastStep before).linearizable hgood hrun

/-- A revocation has looked the grant up when a new grant is made and loaded. -/
def overlapping : List (Action Op Env) :=
  [.invoke (.revoke 7 5), .proceed 0 ⟨2, .ok⟩, .invoke (.grant 7 5 .viewer), .proceed 1 ⟨3, .ok⟩,
    .ret 1, .invoke (.loadUserSites 7), .proceed 2 ⟨3, .ok⟩, .ret 2, .proceed 0 ⟨4, .ok⟩, .ret 0,
    .invoke (.listUsersBySite 5), .proceed 3 ⟨4, .ok⟩, .ret 3]

/-- The revocation counts as later than the grant. -/
theorem grants_linearizable_overlapping :
    ∃ t, exec (step (object (fun u v => u ≤ v))) { shared := ⟨[⟨7, 5, .admin, false, 1⟩], 1⟩ }
        overlapping = some t ∧
      t.seen = [.call 0 (.revoke 7 5), .call 1 (.grant 7 5 .viewer), .ret 1 .ok,
        .call 2 (.loadUserSites 7), .ret 2 (.sites [(5, .viewer)]), .ret 0 .ok,
        .call 3 (.listUsersBySite 5), .ret 3 (.users [])] ∧
      Linearizable spec (Table.map ⟨[⟨7, 5, .admin, false, 1⟩], 1⟩) t.seen := by
  have hruns : (exec (step (object (fun u v => u ≤ v)))
      { shared := ⟨[⟨7, 5, .admin, false, 1⟩], 1⟩ } overlapping).any (fun t =>
        t.seen = [.call 0 (.revoke 7 5), .call 1 (.grant 7 5 .viewer), .ret 1 .ok,
          .call 2 (.loadUserSites 7), .ret 2 (.sites [(5, .viewer)]), .ret 0 .ok,
          .call 3 (.listUsersBySite 5), .ret 3 (.users [])]) = true := by decide +kernel
  obtain ⟨t, ht, hseen⟩ := (Option.any_eq_true _ _).mp hruns
  have hgood : Good ⟨[⟨7, 5, .admin, false, 1⟩], 1⟩ :=
    ⟨by decide, by simp [Role.valid], by simp⟩
  exact ⟨t, ht, of_decide_eq_true hseen, grants_linearizable hgood ht⟩

end Statnive.SitesStore
