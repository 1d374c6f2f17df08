import Mathlib.Data.Nat.Digits.Defs
import Statnive.AuthGuards
import Statnive.KeyedRuns
import Statnive.OAuthServer

/-!
# The query budgets of the MCP server

Every actor has a bucket that counts the calls and rows of a window of a minute and of the
session. A call reserves itself before its query and is charged for the rows after it.
-/

namespace Statnive.McpBudget

open AuthTypes AuthGuards

/-- The sentinel for a scoped operator, `uuid.UUID{0xff}`. -/
def stdioScopedActorID : UserID := 0xff * 256 ^ 15

/-- Without `allowAll` the grants are those of the flag, of which there may be none. -/
def syntheticOperator (allowSites : List ℕ) (allowAll : Bool) : User :=
  if allowAll then { userID := uuidNil, siteID := 0, role := .admin }
  else { userID := stdioScopedActorID, siteID := 0, role := .admin
         sites := some (allowSites.map (fun id => (id, .admin))) }

/-- Who the transports authenticate: the operator of a stdio session, a static or a minted
token, or the bearer of an access token. -/
inductive Principal where
  | stdio (allowSites : List ℕ) (allowAll : Bool)
  | static (t : StaticToken)
  | minted (t : MintedToken)
  | oauth (cfg : OAuthServer.Config) (claims : OAuthServer.Claims)

def Principal.actor : Principal → User
  | .stdio allowSites allowAll => syntheticOperator allowSites allowAll
  | .static t => { siteID := t.siteID, role := t.role, username := "api:" ++ t.label }
  | .minted t => t.principal
  | .oauth cfg claims => OAuthServer.oauthUser cfg claims

def isWildcardActor (u : User) : Bool := u.userID = uuidNil && u.siteID = 0

/-- The digits of a UUID, the last one first. -/
def uuidDigits (id : UserID) : List ℕ :=
  Nat.digits 16 id ++ List.replicate (32 - (Nat.digits 16 id).length) 0

/-- `uuid.UUID.String`. -/
def uuidString (id : UserID) : String :=
  let hex := (uuidDigits id).reverse.map Nat.digitChar
  String.ofList (hex.take 8 ++ '-' :: (hex.drop 8).take 4 ++ '-' :: (hex.drop 12).take 4 ++
    '-' :: (hex.drop 16).take 4 ++ '-' :: hex.drop 20)

def actorKey (u : User) : String :=
  if u.userID ≠ uuidNil then "u:" ++ uuidString u.userID
  else "t:" ++ String.ofList (Nat.toDigits 10 u.siteID)

/-- A cap that is not positive is off. `wildcardFactor` multiplies in floating point, and is
`none` for a factor that is not positive. -/
structure BudgetConfig where
  callsPerMin : ℤ := 0
  rowsPerMin : ℤ := 0
  callsPerSession : ℤ := 0
  rowsPerSession : ℤ := 0
  distinctSitesPerMin : ℤ := 0
  wildcardFactor : Option (ℤ → ℤ) := none

structure ActorBudget where
  winStart : ℤ
  calls : ℕ := 0
  rows : ℕ := 0
  siteSet : List ℕ := []
  sessCalls : ℕ := 0
  sessRows : ℕ := 0
  deriving DecidableEq

/-- In nanoseconds. -/
def second : ℤ := 10 ^ 9

def minute : ℤ := 60 * second

/-- The readings of the clock in one operation: for a new bucket, for the check of its
window, for the start of the next one, and for the time to wait. -/
structure Clock where
  opened : ℤ
  checked : ℤ
  reset : ℤ
  retry : ℤ
  deriving DecidableEq

def scaleCap (base : ℤ) (wildcard : Bool) (factor : Option (ℤ → ℤ)) : ℤ :=
  if base ≤ 0 then 0
  else match wildcard, factor with
  | true, some scale => if scale base < 1 then 1 else scale base
  | _, _ => base

/-- The window of the bucket has rolled over. -/
def rolls (b : Option ActorBudget) (c : Clock) : Bool :=
  minute ≤ c.checked - (b.elim c.opened ActorBudget.winStart)

def get (b : Option ActorBudget) (c : Clock) : ActorBudget :=
  let ab := b.getD { winStart := c.opened }
  if rolls b c then { ab with winStart := c.reset, calls := 0, rows := 0, siteSet := [] } else ab

/-- The cap on the calls of a window, or the tighter one of the tool. -/
def callCap (cfg : BudgetConfig) (wildcard : Bool) (perToolCallCap : ℤ) : ℤ :=
  let cap := scaleCap cfg.callsPerMin wildcard cfg.wildcardFactor
  if 0 < perToolCallCap && (cap = 0 || perToolCallCap < cap) then perToolCallCap else cap

def rowCap (cfg : BudgetConfig) (wildcard : Bool) : ℤ :=
  scaleCap cfg.rowsPerMin wildcard cfg.wildcardFactor

/-- The cap is on and used up. -/
def reached (cap : ℤ) (used : ℕ) : Bool := 0 < cap && cap ≤ used

def exhausted (cfg : BudgetConfig) (wildcard : Bool) (perToolCallCap : ℤ) (ab : ActorBudget) :
    Bool :=
  reached (callCap cfg wildcard perToolCallCap) ab.calls ||
  reached (rowCap cfg wildcard) ab.rows ||
  reached (scaleCap cfg.callsPerSession wildcard cfg.wildcardFactor) ab.sessCalls ||
  reached (scaleCap cfg.rowsPerSession wildcard cfg.wildcardFactor) ab.sessRows

inductive Answer where
  | admitted
  | refused (retryAfter : ℤ)
  | charged (windowRows : ℕ) (rowCap : ℤ)
  | noted (distinct : ℕ) (threshold : ℤ)
  deriving DecidableEq

def retryAfter (ab : ActorBudget) (c : Clock) : ℤ :=
  let retry := (minute - (c.retry - ab.winStart)).tdiv second
  if retry < 1 then 1 else retry

def reserve (cfg : BudgetConfig) (wildcard : Bool) (perToolCallCap : ℤ) (c : Clock)
    (b : Option ActorBudget) : ActorBudget × Answer :=
  let ab := get b c
  if exhausted cfg wildcard perToolCallCap ab then (ab, .refused (retryAfter ab c))
  else ({ ab with calls := ab.calls + 1, sessCalls := ab.sessCalls + 1 }, .admitted)

def charge (cfg : BudgetConfig) (wildcard : Bool) (rows : ℕ) (c : Clock)
    (b : Option ActorBudget) : ActorBudget × Answer :=
  let ab := get b c
  ({ ab with rows := ab.rows + rows, sessRows := ab.sessRows + rows },
    .charged (ab.rows + rows) (rowCap cfg wildcard))

def noteSite (cfg : BudgetConfig) (wildcard : Bool) (siteID : ℕ) (c : Clock)
    (b : Option ActorBudget) : ActorBudget × Answer :=
  let ab := get b c
  let siteSet := ab.siteSet.insert siteID
  ({ ab with siteSet := siteSet },
    .noted siteSet.length (scaleCap cfg.distinctSitesPerMin wildcard cfg.wildcardFactor))

inductive Query where
  | reserve (perToolCallCap : ℤ)
  | noteSite (siteID : ℕ)
  | charge (rows : ℕ)

/-- Each operation runs under the mutex of the buckets. -/
structure Operation where
  principal : Principal
  query : Query
  clock : Clock

def Principal.key (p : Principal) : String := actorKey p.actor

def Operation.key (o : Operation) : String := o.principal.key

def operate (cfg : BudgetConfig) (o : Operation) : Option ActorBudget → ActorBudget × Answer :=
  let wildcard := isWildcardActor o.principal.actor
  match o.query with
  | .reserve perToolCallCap => reserve cfg wildcard perToolCallCap o.clock
  | .noteSite siteID => noteSite cfg wildcard siteID o.clock
  | .charge rows => charge cfg wildcard rows o.clock

def answers (cfg : BudgetConfig) (ops : List Operation) : List (Operation × Answer) :=
  KeyedRuns.answers Operation.key (operate cfg) (fun _ => none) ops

theorem uuidDigits_lt {id d : ℕ} (h : d ∈ uuidDigits id) : d < 16 := by
  rcases List.mem_append.mp h with h | h
  · exact Nat.digits_lt_base (by decide) h
  · rw [List.eq_of_mem_replicate h]
    decide

private theorem digitChar_inj {m n : ℕ} (hm : m < 16) (hn : n < 16)
    (h : Nat.digitChar m = Nat.digitChar n) : m = n := by
  have hall : ∀ m < 16, ∀ n < 16, Nat.digitChar m = Nat.digitChar n → m = n := by decide
  exact hall m hm n hn h

private theorem digitChar_ne_dash {n : ℕ} (h : n < 16) : Nat.digitChar n ≠ '-' := by
  have hall : ∀ n < 16, Nat.digitChar n ≠ '-' := by decide
  exact hall n h

private theorem uuidDigits_injective : Function.Injective uuidDigits := by
  intro a b h
  have hof (id : ℕ) : Nat.ofDigits 16 (uuidDigits id) = id := by
    rw [uuidDigits, Nat.ofDigits_append_replicate_zero, Nat.ofDigits_digits]
  rw [← hof a, h, hof b]

private theorem map_digitChar_inj {xs ys : List ℕ} (hxs : ∀ d ∈ xs, d < 16) (hys : ∀ d ∈ ys, d < 16)
    (h : xs.map Nat.digitChar = ys.map Nat.digitChar) : xs = ys := by
  induction xs generalizing ys with
  | nil =>
    cases ys with
    | nil => rfl
    | cons y ys => simp at h
  | cons x xs ih =>
    cases ys with
    | nil => simp at h
    | cons y ys =>
      simp only [List.map_cons, List.cons.injEq] at h
      have hhead := digitChar_inj (hxs x List.mem_cons_self) (hys y List.mem_cons_self) h.1
      rw [hhead, ih (fun d hd => hxs d (List.mem_cons_of_mem _ hd))
        (fun d hd => hys d (List.mem_cons_of_mem _ hd)) h.2]

/-- Without its dashes a UUID is its digits. -/
theorem uuidString_filter (id : UserID) :
    (uuidString id).toList.filter (· ≠ '-') = (uuidDigits id).reverse.map Nat.digitChar := by
  generalize hhex : (uuidDigits id).reverse.map Nat.digitChar = hex
  have hplain : ∀ c ∈ hex, c ≠ '-' := by
    rw [← hhex]
    simp only [List.mem_map, List.mem_reverse]
    rintro _ ⟨d, hd, rfl⟩
    exact digitChar_ne_dash (uuidDigits_lt hd)
  have hsame (piece : List Char) (hpiece : piece ⊆ hex) : piece.filter (· ≠ '-') = piece :=
    List.filter_eq_self.mpr fun c hc => by simpa using hplain c (hpiece hc)
  have htake (i k : ℕ) : ((hex.drop i).take k).filter (· ≠ '-') = (hex.drop i).take k :=
    hsame _ fun c hc => List.drop_subset _ _ (List.take_subset _ _ hc)
  have hfirst := hsame (hex.take 8) (List.take_subset _ _)
  have hlast := hsame (hex.drop 20) (List.drop_subset _ _)
  simp only [uuidString, hhex, String.toList_ofList, List.filter_append, List.filter_cons, htake,
    hfirst, hlast, ne_eq, not_true, decide_false, Bool.false_eq_true, if_false]
  have hglue (i k : ℕ) : (hex.drop i).take k ++ hex.drop (i + k) = hex.drop i := by
    rw [← List.drop_drop, List.take_append_drop]
  rw [List.append_assoc, List.append_assoc, List.append_assoc, hglue 16 4, hglue 12 4, hglue 8 4,
    List.take_append_drop]

private theorem uuidString_injective : Function.Injective uuidString := by
  intro a b h
  have hdigits : (uuidDigits a).reverse.map Nat.digitChar =
      (uuidDigits b).reverse.map Nat.digitChar := by
    rw [← uuidString_filter, h, uuidString_filter]
  have hlt {id d : ℕ} (hd : d ∈ (uuidDigits id).reverse) : d < 16 :=
    uuidDigits_lt (List.mem_reverse.mp hd)
  exact uuidDigits_injective
    (List.reverse_injective (map_digitChar_inj (fun _ => hlt) (fun _ => hlt) hdigits))

/-- What a budget is kept for. -/
inductive Account where
  | user (userID : UserID)
  | site (siteID : ℕ)
  deriving DecidableEq

def account (u : User) : Account :=
  if u.userID ≠ uuidNil then .user u.userID else .site u.siteID

theorem actorKey_eq_iff (u v : User) : actorKey u = actorKey v ↔ account u = account v := by
  have hkind (id siteID : ℕ) :
      "u:" ++ uuidString id ≠ "t:" ++ String.ofList (Nat.toDigits 10 siteID) := by
    intro h
    have hchars := congrArg (fun s => s.toList.take 1) h
    simp at hchars
  have hsite (a b : ℕ) : "t:" ++ String.ofList (Nat.toDigits 10 a) =
      "t:" ++ String.ofList (Nat.toDigits 10 b) ↔ a = b := by
    refine ⟨fun h => ?_, fun h => h ▸ rfl⟩
    have hdigits := String.ofList_injective ((String.append_right_inj _).mp h)
    rw [← @Nat.ofDigitChars_ten_toDigits a, hdigits, Nat.ofDigitChars_ten_toDigits]
  have huser (a b : ℕ) : "u:" ++ uuidString a = "u:" ++ uuidString b ↔ a = b := by
    refine ⟨fun h => uuidString_injective ((String.append_right_inj _).mp h), fun h => h ▸ rfl⟩
  by_cases hu : u.userID = uuidNil <;> by_cases hv : v.userID = uuidNil
  · simp [actorKey, account, hu, hv, hsite]
  · simp [actorKey, account, hu, hv, (hkind _ _).symm]
  · simp [actorKey, account, hu, hv, hkind]
  · simp [actorKey, account, hu, hv, huser]

/-- The scoped operator and the user of a minted token have a budget of their own, the
wildcard operator and a static token that of the site they are bound to. An OAuth principal does
not carry its user. -/
def Principal.account : Principal → Option Account
  | .stdio _ true => some (.site 0)
  | .stdio _ false => some (.user stdioScopedActorID)
  | .static t => some (.site t.siteID)
  | .minted t => some (.user t.userID)
  | .oauth _ _ => none

theorem account_actor (p : Principal) :
    McpBudget.account p.actor = p.account.getD (.user OAuthServer.oauthActorID) := by
  cases p with
  | stdio allowSites allowAll => cases allowAll <;> rfl
  | static t => rfl
  | minted t => exact if_pos t.user_ne
  | oauth cfg claims => exact if_pos OAuthServer.oauthActorID_ne

/-- What is answered under a budget depends on the operations under it alone, and a principal
with an account shares its budget exactly with those of the same account, where an OAuth
principal counts as the user whose id it carries. -/
theorem isolated_by_account (cfg : BudgetConfig) (ops : List Operation) (p : Principal) :
    (answers cfg ops).filter (fun x => x.1.key = p.key) =
        answers cfg (ops.filter (fun o => o.key = p.key)) ∧
      ∀ a ∈ p.account, ∀ q : Principal,
        q.key = p.key ↔ q.account.getD (.user OAuthServer.oauthActorID) = a := by
  refine ⟨KeyedRuns.answers_filter rfl ops, fun a ha q => ?_⟩
  rw [Principal.key, Principal.key, actorKey_eq_iff, account_actor, account_actor,
    Option.mem_def.mp ha, Option.getD_some]

def token (tokenID : ℕ) (name : String) : Principal :=
  .minted ⟨tokenID, 7, name, [1], .api, 0, Nat.succ_ne_zero 6⟩

def oneCall : BudgetConfig where
  callsPerMin := 1

def still : Clock := ⟨0, 0, 0, 0⟩

/-- The token on the laptop calls, then the one on the phone. -/
def bothCall : List Operation :=
  [⟨token 1 "laptop", .reserve 0, still⟩, ⟨token 2 "phone", .reserve 0, still⟩]

theorem isolated_by_account_bothCall :
    (answers oneCall bothCall).filter (fun x => x.1.key = (token 1 "laptop").key) =
        answers oneCall (bothCall.filter (fun o => o.key = (token 1 "laptop").key)) ∧
      (token 2 "phone").key = (token 1 "laptop").key := by
  obtain ⟨hanswers, hshared⟩ := isolated_by_account oneCall bothCall (token 1 "laptop")
  exact ⟨hanswers, (hshared (.user 7) rfl (token 2 "phone")).mpr rfl⟩

/-- The second token is refused though it has made no call before. -/
theorem tokens_share_budget :
    let phone := (token 2 "phone").actor
    phone ≠ (token 1 "laptop").actor ∧
      ((answers oneCall bothCall).filter (fun x => x.1.principal.actor = phone)).map Prod.snd ≠
        (answers oneCall (bothCall.filter (fun o => o.principal.actor = phone))).map Prod.snd := by
  decide +kernel

end Statnive.McpBudget
