import Mathlib.Data.Int.Notation
import Mathlib.Data.List.Basic
import Mathlib.Tactic.Common

/-!
# Roles, principals and sessions

The types of the auth package, and the predicates on a principal that the guards of the
dashboard share.
-/

namespace Statnive.AuthTypes

inductive Role where
  | admin | viewer | api
  | other
  deriving DecidableEq

def Role.valid : Role → Bool
  | .other => false
  | _ => true

/-- The lower the rank, the higher the privilege. -/
def roleRank : Role → ℕ
  | .admin => 1
  | .viewer => 2
  | .api => 3
  | .other => 99

/-- A UUID as a number, of which `uuid.Nil` is zero. -/
abbrev UserID := ℕ

def uuidNil : UserID := 0

/-- A map from site ids to roles. -/
abbrev Grants := List (ℕ × Role)

def Grants.get (grants : Grants) (siteID : ℕ) : Option Role :=
  (grants.find? (fun kv => kv.1 = siteID)).map Prod.snd

/-- `sites = none` is the nil map. -/
structure User where
  userID : UserID := uuidNil
  siteID : ℕ := 0
  email : String := ""
  username : String := ""
  role : Role
  disabled : Bool := false
  createdAt : ℤ := 0
  updatedAt : ℤ := 0
  sites : Option Grants := none
  deriving DecidableEq

def User.canAccessSite (u : User) (siteID : ℕ) (required : Role) : Bool :=
  match u.sites with
  | none => false
  | some grants => match grants.get siteID with
    | none => false
    | some got => roleRank got ≤ roleRank required

def User.actorCanReadSite (u : User) (siteID : ℕ) : Bool :=
  if u.userID = uuidNil then u.siteID = 0 || u.siteID = siteID
  else match u.sites with
  | some _ => u.canAccessSite siteID .api
  | none => u.siteID = siteID

/-- The SHA-256 of a session token. -/
abbrev Hash := List UInt8

/-- Times are unix seconds; `expiresAt = 0` never expires, `revokedAt = 0` is not revoked. -/
structure Session where
  idHash : Hash
  userID : UserID
  siteID : ℕ
  role : Role
  createdAt : ℕ := 0
  lastUsedAt : ℕ := 0
  expiresAt : ℕ := 0
  revokedAt : ℕ := 0
  deriving DecidableEq

theorem canAccessSite_iff {u : User} {grants : Grants} (h : u.sites = some grants) (siteID : ℕ)
    (required : Role) : u.canAccessSite siteID required = true ↔
      ∃ got, grants.get siteID = some got ∧ roleRank got ≤ roleRank required := by
  simp only [User.canAccessSite, h]
  cases grants.get siteID <;> simp

/-- Reading is the weakest access, for a principal with a grant map. -/
theorem actorCanReadSite_iff {u : User} {grants : Grants} (hid : u.userID ≠ uuidNil)
    (h : u.sites = some grants) (siteID : ℕ) :
    u.actorCanReadSite siteID = u.canAccessSite siteID .api := by
  simp only [User.actorCanReadSite, hid, if_false, h]

end Statnive.AuthTypes
