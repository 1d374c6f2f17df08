import Statnive.LabelledRuns
import Statnive.TokenMint

/-!
# Requests to mint that overlap

A request loads the grants of its actor, counts the tokens of the actor, and inserts a new one,
each with a query of its own. Other requests, writes of grants and revocations come in between;
alone a request mints as the handler does (`request_alone`).
-/

namespace Statnive.MintRaces

open AuthTypes AuthGuards CacheRevocation TokenMint LabelledRuns

/-- Who sends a request. The user of a session comes without a map of grants. -/
inductive Caller where
  | session (u : User)
  | static (t : StaticToken)
  | minted (t : MintedToken)

def Caller.user : Caller → User
  | .session u => { u with sites := none }
  | .static t => { siteID := t.siteID, role := t.role, username := "api:" ++ t.label }
  | .minted t => t.principal

structure Config where
  mint : MintDeps
  perSiteAdmin : Bool := true

/-- What a request goes on with after the count, which is `none` when its query failed.
`created` is how many tokens had been created by then. -/
structure Counted where
  actor : User
  requested : List ℕ
  scope : Scope
  count : Option ℕ
  created : ℕ

inductive Stage where
  | received
  | hydrated (u : User)
  | counted (c : Counted)
  | rejected (o : Outcome)
  | replied (reply : MintReply)

structure Call where
  caller : Caller
  body : Option CreateRequest
  stage : Stage := .received

/-- A token, with what the actor held when it was created. -/
structure Creation where
  token : MintedToken
  held : Grants

structure State where
  grants : List GrantRow := []
  tokens : List TokenRow := []
  calls : List Call := []
  clock : ℕ := 0
  log : List Creation := []

/-- `up` says whether the look-up of grants succeeds, and `lands` whether an insert that fails
has written its row. -/
inductive Action where
  | request (caller : Caller) (body : Option CreateRequest)
  | proceed (i : ℕ) (env : MintEnv) (up lands : Bool)
  | writeGrants (rows : List GrantRow)
  | revoke (tokenID : ℕ) (userID : UserID) (now : ℕ)
  | restart

def sitesStore (cfg : Config) (rows : List GrantRow) (up : Bool) : Option SitesStore :=
  if cfg.perSiteAdmin then some (fun userID => if up then loadUserSites rows userID else none)
  else none

/-- The grants of the table or, where these are not used, the site of the users row. -/
def held (cfg : Config) (rows : List GrantRow) (u : User) : Grants :=
  if cfg.perSiteAdmin then (loadUserSites rows u.userID).getD []
  else if u.siteID ≠ 0 then [(u.siteID, u.role)] else []

def hydrate (cfg : Config) (rows : List GrantRow) (up : Bool) (caller : Caller) : Stage :=
  match (mintRoute (sitesStore cfg rows up)).serve {} (some caller.user) with
  | .next u _ => .hydrated u
  | o => .rejected o

/-- The handler up to the count. -/
def checkAndCount (cfg : Config) (s : State) (env : MintEnv) (u : User)
    (body : Option CreateRequest) : Stage :=
  match checkMint cfg.mint env s.tokens u body with
  | .error refusal => .replied (.refused refusal)
  | .ok scope => .counted {
      actor := u
      requested := (body.map CreateRequest.siteIDs).getD []
      scope := scope
      count :=
        if env.countFails then none else some (countActiveForUser s.tokens scope.userID env.now)
      created := s.log.length }

def mintFailed : MintReply := .refused ⟨500, "mint failed"⟩

def State.setStage (s : State) (i : ℕ) (call : Call) (stage : Stage) : State :=
  { s with calls := s.calls.set i { call with stage := stage } }

def insertToken (cfg : Config) (s : State) (i : ℕ) (env : MintEnv) (lands : Bool) (call : Call)
    (c : Counted) : State :=
  let p := c.scope
  match createToken cfg.mint.sha256 { env with insertFails := env.insertFails && !lands } s.tokens
    p.userID p.name p.siteIDs p.role p.ttl with
  | none => s.setStage i call (.replied mintFailed)
  | some (rows, token) =>
    let creation : Creation := ⟨token, held cfg s.grants c.actor⟩
    let created := { s with tokens := rows, log := s.log ++ [creation] }
    created.setStage i call
      (.replied (if env.insertFails then mintFailed else .created token env.raw))

def proceed (cfg : Config) (s : State) (i : ℕ) (env : MintEnv) (up lands : Bool) (call : Call) :
    Option State :=
  match call.stage with
  | .received => some (s.setStage i call (hydrate cfg s.grants up call.caller))
  | .hydrated u => some (s.setStage i call (checkAndCount cfg s env u call.body))
  | .counted c => some (insertToken cfg s i env lands call c)
  | .rejected _ | .replied _ => none

/-- Secrets are drawn at random. -/
def fresh (cfg : Config) (s : State) (env : MintEnv) : Bool :=
  s.tokens.all (fun r => r.hash ≠ cfg.mint.sha256 env.raw)

def step (cfg : Config) (s : State) : Action → Option State
  | .request caller body => some { s with calls := s.calls ++ [{ caller := caller, body := body }] }
  | .proceed i env up lands => match s.calls[i]? with
    | none => none
    | some call =>
      if s.clock ≤ env.now && fresh cfg s env then
        proceed cfg { s with clock := env.now } i env up lands call
      else none
  | .writeGrants rows => some { s with grants := rows }
  | .revoke tokenID userID now =>
    if s.clock ≤ now then
      (revokeToken s.tokens tokenID userID now).map fun rows =>
        { s with tokens := rows, clock := now }
    else none
  | .restart => some { s with calls := [] }

theorem setStage_self {s : State} {i : ℕ} {call : Call} (h : s.calls[i]? = some call)
    (stage : Stage) : (s.setStage i call stage).calls[i]? = some { call with stage := stage } := by
  have hi := (List.getElem?_eq_some_iff.mp h).1
  simp [State.setStage, hi]

theorem step_proceed {cfg : Config} {s : State} {i : ℕ} {env : MintEnv} {up lands : Bool}
    {call : Call} (h : s.calls[i]? = some call) (hclock : s.clock ≤ env.now)
    (hfresh : fresh cfg s env = true) : step cfg s (.proceed i env up lands) =
      proceed cfg { s with clock := env.now } i env up lands call := by
  simp [step, h, hclock, hfresh]

/-- A request that nothing comes between does what `mintToken` does. -/
theorem request_alone {cfg : Config} {s : State} {env : MintEnv} {up : Bool} {caller : Caller}
    {body : Option CreateRequest} {u : User} {active : Option ℕ} (hclock : s.clock ≤ env.now)
    (hfresh : fresh cfg s env = true)
    (hserve : (mintRoute (sitesStore cfg s.grants up)).serve {} (some caller.user) =
      .next u active) :
    ∃ as t call, exec (step cfg) s as = some t ∧
      t.tokens = (mintToken cfg.mint env s.tokens u body).1 ∧
      t.calls[s.calls.length]? = some call ∧
      call.stage = .replied (mintToken cfg.mint env s.tokens u body).2 := by
  let i := s.calls.length
  let received : Call := { caller := caller, body := body }
  let hydrated : Call := { received with stage := .hydrated u }
  let s₁ : State := { s with calls := s.calls ++ [received] }
  let s₂ : State := { s₁ with clock := env.now }.setStage i received (.hydrated u)
  have hcall₁ : s₁.calls[i]? = some received := by simp [s₁, i]
  have hcall₂ : s₂.calls[i]? = some hydrated := setStage_self hcall₁ _
  have hstep₁ : step cfg s₁ (.proceed i env up false) = some s₂ := by
    rw [step_proceed hcall₁ hclock hfresh]
    simp only [proceed, received, hydrate, s₁, hserve]
    rfl
  have hstep₂ : step cfg s₂ (.proceed i env up false) =
      some (s₂.setStage i hydrated (checkAndCount cfg s₂ env u body)) :=
    step_proceed hcall₂ le_rfl hfresh
  have hreplied (reply : MintReply) (hreply : checkAndCount cfg s₂ env u body = .replied reply) :
      exec (step cfg) s [.request caller body, .proceed i env up false, .proceed i env up false] =
        some (s₂.setStage i hydrated (.replied reply)) :=
    exec_cons.mpr ⟨s₁, rfl, exec_cons.mpr ⟨s₂, hstep₁, exec_cons.mpr ⟨_, hreply ▸ hstep₂, rfl⟩⟩⟩
  cases hcheck : checkMint cfg.mint env s.tokens u body with
  | error refusal =>
    have hmint : mintToken cfg.mint env s.tokens u body = (s.tokens, .refused refusal) := by
      simp [mintToken, hcheck]
    have hreply : checkAndCount cfg s₂ env u body = .replied (.refused refusal) := by
      have hcheck₂ : checkMint cfg.mint env s₂.tokens u body = .error refusal := hcheck
      simp [checkAndCount, hcheck₂]
    exact ⟨_, _, _, hreplied _ hreply, by rw [hmint]; rfl, setStage_self hcall₂ _, by rw [hmint]⟩
  | ok p =>
    let c : Counted := {
      actor := u
      requested := (body.map CreateRequest.siteIDs).getD []
      scope := p
      count :=
        if env.countFails then none else some (countActiveForUser s.tokens p.userID env.now)
      created := s.log.length }
    let counted : Call := { hydrated with stage := .counted c }
    let s₃ : State := s₂.setStage i hydrated (.counted c)
    have hcall₃ : s₃.calls[i]? = some counted := setStage_self hcall₂ _
    have hcount : checkAndCount cfg s₂ env u body = .counted c := by
      have hcheck₂ : checkMint cfg.mint env s₂.tokens u body = .ok p := hcheck
      simp only [checkAndCount, hcheck₂]
      rfl
    have hcounted : step cfg s₂ (.proceed i env up false) = some s₃ := by rw [hstep₂, hcount]
    have hstep₃ : step cfg s₃ (.proceed i env up false) =
        some (insertToken cfg s₃ i env false counted c) := step_proceed hcall₃ le_rfl hfresh
    have hexec : exec (step cfg) s [.request caller body, .proceed i env up false,
        .proceed i env up false, .proceed i env up false] =
        some (insertToken cfg s₃ i env false counted c) :=
      exec_cons.mpr ⟨s₁, rfl, exec_cons.mpr ⟨s₂, hstep₁, exec_cons.mpr ⟨s₃, hcounted,
        exec_cons.mpr ⟨_, hstep₃, rfl⟩⟩⟩⟩
    have henv : { env with insertFails := env.insertFails && !false } = env := by simp
    cases hcreate :
        createToken cfg.mint.sha256 env s.tokens p.userID p.name p.siteIDs p.role p.ttl with
    | none =>
      have hmint : mintToken cfg.mint env s.tokens u body = (s.tokens, mintFailed) := by
        simp [mintToken, hcheck, hcreate, mintFailed]
      have hinsert : insertToken cfg s₃ i env false counted c =
          s₃.setStage i counted (.replied mintFailed) := by
        have hcreate₃ : createToken cfg.mint.sha256 env s₃.tokens c.scope.userID c.scope.name
            c.scope.siteIDs c.scope.role c.scope.ttl = none := hcreate
        simp only [insertToken, henv, hcreate₃]
      exact ⟨_, _, _, hinsert ▸ hexec, by rw [hmint]; rfl, setStage_self hcall₃ _, by rw [hmint]⟩
    | some made =>
      obtain ⟨rows, token⟩ := made
      have hok : env.insertFails = false := (createToken_some hcreate).1
      have hmint : mintToken cfg.mint env s.tokens u body = (rows, .created token env.raw) := by
        simp [mintToken, hcheck, hcreate]
      let s₄ : State := { s₃ with tokens := rows, log := s.log ++ [⟨token, held cfg s.grants u⟩] }
      have hinsert : insertToken cfg s₃ i env false counted c =
          s₄.setStage i counted (.replied (.created token env.raw)) := by
        have hcreate₃ : createToken cfg.mint.sha256 env s₃.tokens c.scope.userID c.scope.name
            c.scope.siteIDs c.scope.role c.scope.ttl = some (rows, token) := hcreate
        simp only [insertToken, henv, hcreate₃]
        rw [hok]
        rfl
      have hcall₄ : s₄.calls[i]? = some counted := hcall₃
      exact ⟨_, _, _, hinsert ▸ hexec, by rw [hmint]; rfl, setStage_self hcall₄ _, by rw [hmint]⟩

/-- The actor held a grant on each site of the token that dominates its role. -/
def Creation.Confined (e : Creation) : Prop :=
  ∀ siteID ∈ e.token.siteIDs, ∃ role ∈ e.held.get siteID, roleRank role ≤ roleRank e.token.role

instance (e : Creation) : Decidable e.Confined :=
  inferInstanceAs (Decidable (∀ siteID ∈ e.token.siteIDs, ∃ role ∈ e.held.get siteID, _))

structure Bounded (cfg : Config) (s : State) : Prop where
  confined : ∀ e ∈ s.log, e.Confined
  underCap : ∀ userID, (countActiveForUser s.tokens userID s.clock : ℤ) ≤ cfg.mint.cap

/-- The tokens of a user that were created after the first `n`. -/
def createdSince (s : State) (userID : UserID) (n : ℕ) : ℕ :=
  (s.log.drop n).countP (fun e => e.token.userID = userID)

/-- The grants that stand for a list of sites left out dominate the role, and those that the
scope was clamped by are the ones that the actor holds. -/
def Backed (cfg : Config) (s : State) (c : Counted) : Prop :=
  (c.requested = [] → ∀ kv ∈ availableSites c.actor, roleRank kv.2 ≤ roleRank c.scope.role) ∧
  ∀ siteID ∈ c.scope.siteIDs,
    (held cfg s.grants c.actor).get siteID = (availableSites c.actor).get siteID

/-- The query of the count succeeded, and since then no token of the user was created. -/
def Alone (s : State) (c : Counted) : Prop :=
  c.count.isSome ∧ createdSince s c.scope.userID c.created = 0

def countedAt (s : State) (i : ℕ) : Option Counted :=
  (s.calls[i]?).bind fun call => match call.stage with
    | .counted c => some c
    | _ => none

/-- An insert is of a scope that is backed, and no other creation for its user came after its
count. -/
def Guarded (cfg : Config) (s : State) : Action → Prop
  | .proceed i env _ lands => ∀ c ∈ countedAt s i, (env.insertFails && !lands) = false →
      Backed cfg s c ∧ Alone s c
  | _ => True

instance (cfg : Config) (s : State) (c : Counted) : Decidable (Backed cfg s c) :=
  inferInstanceAs (Decidable (_ ∧ _))

instance (s : State) (c : Counted) : Decidable (Alone s c) :=
  inferInstanceAs (Decidable (_ ∧ _))

instance (cfg : Config) (s : State) (a : Action) : Decidable (Guarded cfg s a) :=
  match a with
  | .proceed i env _ lands => inferInstanceAs (Decidable (∀ c ∈ countedAt s i,
      (env.insertFails && !lands) = false → Backed cfg s c ∧ Alone s c))
  | .request _ _ | .writeGrants _ | .revoke _ _ _ | .restart => .isTrue trivial

variable {cfg : Config} {s t : State} {userID : UserID}

theorem countActive_later {rows : List TokenRow} {now later : ℕ} (h : now ≤ later) :
    countActiveForUser rows userID later ≤ countActiveForUser rows userID now := by
  simp only [countActiveForUser, ← List.countP_eq_length_filter]
  refine List.countP_mono_left fun r _ hr => ?_
  simp only [Bool.and_eq_true] at hr ⊢
  exact ⟨hr.1, unexpired_earlier h hr.2⟩

/-- A row under a new hash adds one token at most, to those of its user. -/
theorem countActive_insert {rows : List TokenRow} {row : TokenRow}
    (hnew : ∀ r ∈ rows, r.hash ≠ row.hash) (userID : UserID) (now : ℕ) :
    countActiveForUser (ReplacingTable.insert TokenRow.key TokenRow.stamp rows row) userID now ≤
      countActiveForUser rows userID now + (decide (row.token.userID = userID)).toNat := by
  have hkey : ¬ rows.any (fun r => r.key = row.key) = true := by
    simp only [List.any_eq_true, decide_eq_true_eq, not_exists, not_and]
    exact fun r hr hk => hnew r hr (congrArg Prod.fst hk)
  simp only [ReplacingTable.insert, hkey, if_false, countActiveForUser, Bool.false_eq_true,
    ← List.countP_eq_length_filter, List.countP_append, List.countP_singleton]
  by_cases huser : row.token.userID = userID
  · split <;> simp [huser]
  · simp [huser]

private theorem countActive_revoke {rows rows' : List TokenRow} {tokenID now : ℕ} {owner : UserID}
    (h : revokeToken rows tokenID owner now = some rows') (later : ℕ) :
    countActiveForUser rows' userID later ≤ countActiveForUser rows userID later := by
  obtain ⟨r, hr, -, ⟨-, rfl⟩ | rfl⟩ := revokeToken_cases h
  · exact le_rfl
  · have hany : rows.any (fun old => old.key = r.key) = true :=
      List.any_eq_true.mpr ⟨r, hr, by simp⟩
    have hkey : TokenRow.key { r with revoked := true, version := now } = r.key := rfl
    simp only [ReplacingTable.insert, hkey, hany, if_true, countActiveForUser,
      ← List.countP_eq_length_filter, List.countP_map]
    refine List.countP_mono_left fun old _ hold => ?_
    simp only [Function.comp_apply] at hold
    split at hold
    · rcases ReplacingTable.newer_eq_or TokenRow.stamp old
        { r with revoked := true, version := now } with he | he
      · simp [he] at hold
      · simpa [he] using hold
    · exact hold

/-- The scope comes from the request and what the actor was hydrated with, and there was room
for it at the count. -/
structure Checked (cfg : Config) (c : Counted) : Prop where
  user : c.scope.userID = c.actor.userID
  clamped : clampSites (availableSites c.actor) c.requested c.scope.role = .ok c.scope.siteIDs
  room : ∀ n, c.count = some n → (n : ℤ) < cfg.mint.cap

/-- The active tokens are among those counted and those created since. -/
structure Tracked (cfg : Config) (s : State) (c : Counted) : Prop where
  checked : Checked cfg c
  created : c.created ≤ s.log.length
  count : ∀ n, c.count = some n →
    countActiveForUser s.tokens c.scope.userID s.clock ≤ n + createdSince s c.scope.userID c.created

structure Inv (cfg : Config) (s : State) : Prop extends Bounded cfg s where
  tracked : ∀ call ∈ s.calls, ∀ c, call.stage = .counted c → Tracked cfg s c

/-- A requested site that is let through is available with a role that dominates. -/
theorem clampEach_access {avail : Grants} {role : Role} {requested out sites : List ℕ}
    (h : clampEach avail role out requested = .ok sites)
    (hout : ∀ id ∈ out, ({ role := role, sites := some avail } : User).canAccessSite id role) :
    ∀ id ∈ sites, ({ role := role, sites := some avail } : User).canAccessSite id role := by
  induction requested generalizing out with
  | nil =>
    obtain rfl := Except.ok.inj h
    exact hout
  | cons siteID siteIDs ih =>
    rw [clampEach] at h
    split_ifs at h with hseen hacc
    · exact ih h hout
    · refine ih h fun id hid => ?_
      rcases List.mem_append.mp hid with hid | hid
      · exact hout id hid
      · exact List.mem_singleton.mp hid ▸ hacc

/-- The roles on the sites of a scope dominate its own when those of a list left out do. -/
theorem clampSites_access {avail : Grants} {role : Role} {requested sites : List ℕ}
    (h : clampSites avail requested role = .ok sites)
    (hall : requested = [] → ∀ kv ∈ avail, roleRank kv.2 ≤ roleRank role) {siteID : ℕ}
    (hsite : siteID ∈ sites) :
    ∃ got, avail.get siteID = some got ∧ roleRank got ≤ roleRank role := by
  by_cases hreq : requested = []
  · obtain rfl : sortedKeys avail = sites := by simpa [clampSites, hreq] using h
    obtain ⟨kv, hkv, hkey⟩ := List.mem_map.mp (mem_sortedKeys.mp hsite)
    have hfound : (avail.find? (fun kv => kv.1 = siteID)).isSome :=
      List.find?_isSome.mpr ⟨kv, hkv, by simpa using hkey⟩
    obtain ⟨found, hfind⟩ := Option.isSome_iff_exists.mp hfound
    exact ⟨found.2, by simp [Grants.get, hfind], hall hreq found (List.mem_of_find?_eq_some hfind)⟩
  · rw [clampSites, if_neg hreq] at h
    cases hclamp : clampEach avail role [] requested with
    | error id => simp [hclamp, Except.map] at h
    | ok out =>
      obtain rfl : sortedSites out = sites := by simpa [hclamp, Except.map] using h
      exact (canAccessSite_iff rfl siteID role).mp
        (clampEach_access hclamp (by simp) siteID (mem_sortedSites.mp hsite))

/-- A step that creates no token. -/
theorem Inv.of_quiet (h : Inv cfg s) (hlog : t.log = s.log)
    (hcount : ∀ userID, countActiveForUser t.tokens userID t.clock ≤
      countActiveForUser s.tokens userID s.clock)
    (hcalls : ∀ call ∈ t.calls, call ∈ s.calls ∨ ∀ c, call.stage = .counted c → Tracked cfg t c) :
    Inv cfg t where
  confined := hlog ▸ h.confined
  underCap userID := (Int.ofNat_le.mpr (hcount userID)).trans (h.underCap userID)
  tracked call hcall c hc := by
    refine (hcalls call hcall).elim (fun hmem => ?_) fun hnew => hnew c hc
    obtain ⟨hchecked, hcreated, htracked⟩ := h.tracked call hmem c hc
    have hsince (userID : UserID) : createdSince t userID c.created =
        createdSince s userID c.created := by simp only [createdSince, hlog]
    refine ⟨hchecked, hlog ▸ hcreated, fun n hn => ?_⟩
    rw [hsince]
    exact (hcount _).trans (htracked n hn)

theorem mem_setStage {i : ℕ} {call call' : Call} {stage : Stage}
    (h : call' ∈ (s.setStage i call stage).calls) :
    call' ∈ s.calls ∨ call' = { call with stage := stage } := by
  exact List.mem_or_eq_of_mem_set h

private theorem hydrate_ne_counted
    (cfg : Config) (rows : List GrantRow) (up : Bool) (caller : Caller)
    (c : Counted) : hydrate cfg rows up caller ≠ .counted c := by
  unfold hydrate
  split <;> simp

/-- What the count has read is tracked from then on. -/
theorem tracked_checkAndCount {env : MintEnv} {u : User} {body : Option CreateRequest}
    {c : Counted} (hclock : s.clock = env.now) (h : checkAndCount cfg s env u body = .counted c) :
    Tracked cfg s c := by
  unfold checkAndCount at h
  split at h
  · simp at h
  · next scope hscope =>
    obtain rfl := Stage.counted.inj h
    have huser := (checkMint_ok hscope).2.1
    refine ⟨⟨huser, checkMint_scope hscope, fun n hn => ?_⟩, le_rfl, fun n hn => ?_⟩
    · split_ifs at hn with hfails
      obtain rfl := Option.some.inj hn
      rw [huser]
      exact checkMint_room hscope (by simpa using hfails)
    · split_ifs at hn
      obtain rfl := Option.some.inj hn
      rw [hclock]
      exact Nat.le_add_right _ _

private theorem cap_pos (deps : MintDeps) : 0 < deps.cap := by
  simp only [MintDeps.cap, defaultMaxTokensPerUser]
  split_ifs <;> omega

private theorem createdSince_snoc
    {e : Creation} {log : List Creation} {n : ℕ} (hlog : t.log = log ++ [e])
    (hsame : s.log = log) (hn : n ≤ log.length) (userID : UserID) :
    createdSince t userID n = createdSince s userID n + (decide (e.token.userID = userID)).toNat := by
  rw [createdSince, createdSince, hlog, hsame, List.drop_append_of_le_length hn, List.countP_append,
    List.countP_singleton]
  by_cases h : e.token.userID = userID <;> simp [h]

/-- An insert of a scope that is backed, with no other for its user since the count. -/
theorem Inv.insertToken (h : Inv cfg s) {i : ℕ} {env : MintEnv} {lands : Bool} {call : Call}
    {c : Counted} (hcall : s.calls[i]? = some call) (hstage : call.stage = .counted c)
    (hfresh : fresh cfg s env = true)
    (hguard : (env.insertFails && !lands) = false → Backed cfg s c ∧ Alone s c) :
    Inv cfg (insertToken cfg s i env lands call c) := by
  have htrackedCall := h.tracked call (List.mem_of_getElem? hcall) c hstage
  obtain ⟨hchecked, hcreated, htracked⟩ := htrackedCall
  unfold MintRaces.insertToken
  dsimp only
  split
  · exact h.of_quiet rfl (fun _ => le_rfl) fun call' hmem =>
      (mem_setStage hmem).imp_right fun he c' hc' => by simp [he] at hc'
  · next rows token hcreate =>
    obtain ⟨hlands, huser, hsites, hrole, rfl⟩ := createToken_some hcreate
    obtain ⟨⟨hdefault, hheld⟩, hcounted, hsince⟩ := hguard hlands
    obtain ⟨n, hn⟩ := Option.isSome_iff_exists.mp hcounted
    have hnew : ∀ r ∈ s.tokens, r.hash ≠ cfg.mint.sha256 env.raw := by simpa [fresh] using hfresh
    have hinsert (userID : UserID) : countActiveForUser (ReplacingTable.insert TokenRow.key
        TokenRow.stamp s.tokens ⟨token, cfg.mint.sha256 env.raw, false, env.now⟩) userID s.clock ≤
        countActiveForUser s.tokens userID s.clock + (decide (token.userID = userID)).toNat :=
      countActive_insert hnew userID s.clock
    refine ⟨⟨fun e he => ?_, fun userID => ?_⟩, fun call' hmem c' hc' => ?_⟩
    · rcases List.mem_append.mp he with he | he
      · exact h.confined e he
      · obtain rfl := List.mem_singleton.mp he
        intro siteID hsite
        obtain ⟨got, hget, hrank⟩ := clampSites_access hchecked.clamped hdefault (hsites ▸ hsite)
        exact ⟨got, (hheld siteID (hsites ▸ hsite)).trans hget, hrole ▸ hrank⟩
    · have hcount := hinsert userID
      by_cases hsame : token.userID = userID
      · -- The active tokens of the user are among those counted, and this one.
        have hold := htracked n hn
        have hroom := hchecked.room n hn
        rw [hsince, ← huser, hsame] at hold
        simp only [hsame, decide_true, Bool.toNat_true] at hcount
        simp only [State.setStage]
        omega
      · have hold := h.underCap userID
        simp only [hsame, decide_false, Bool.toNat_false] at hcount
        simp only [State.setStage]
        omega
    · rcases mem_setStage hmem with hmem | rfl
      · obtain ⟨hchecked', hcreated', htracked'⟩ := h.tracked call' hmem c' hc'
        refine ⟨hchecked', ?_, fun m hm => ?_⟩
        · simp only [State.setStage, List.length_append, List.length_singleton]
          omega
        · have hold := htracked' m hm
          have hcount := hinsert c'.scope.userID
          rw [createdSince_snoc rfl rfl hcreated']
          simp only [State.setStage]
          omega
      · simp at hc'

theorem Inv.proceed (h : Inv cfg s) {i : ℕ} {env : MintEnv} {up lands : Bool} {call : Call}
    (hcall : s.calls[i]? = some call) (hclock : s.clock = env.now)
    (hfresh : fresh cfg s env = true)
    (hguard : ∀ c, call.stage = .counted c → (env.insertFails && !lands) = false →
      Backed cfg s c ∧ Alone s c)
    (ht : MintRaces.proceed cfg s i env up lands call = some t) : Inv cfg t := by
  unfold MintRaces.proceed at ht
  split at ht
  · obtain rfl := Option.some.inj ht
    exact h.of_quiet rfl (fun _ => le_rfl) fun call' hmem =>
      (mem_setStage hmem).imp_right fun he c hc =>
        absurd (he ▸ hc) (hydrate_ne_counted cfg _ _ _ c)
  · next u _ =>
    obtain rfl := Option.some.inj ht
    refine h.of_quiet rfl (fun _ => le_rfl) fun call' hmem => (mem_setStage hmem).imp_right ?_
    rintro rfl c hc
    have htracked : Tracked cfg s c := tracked_checkAndCount hclock hc
    exact ⟨htracked.checked, htracked.created, htracked.count⟩
  · next c hstage =>
    obtain rfl := Option.some.inj ht
    exact h.insertToken hcall hstage hfresh (hguard c hstage)
  · simp at ht
  · simp at ht

theorem inv_step {a : Action} (h : Inv cfg s) (hguard : Guarded cfg s a)
    (hstep : step cfg s a = some t) : Inv cfg t := by
  cases a with
  | request caller body =>
    obtain rfl := Option.some.inj hstep
    refine h.of_quiet rfl (fun _ => le_rfl) fun call hmem => ?_
    rcases List.mem_append.mp hmem with hmem | hmem
    · exact .inl hmem
    · obtain rfl := List.mem_singleton.mp hmem
      exact .inr fun c hc => by simp at hc
  | proceed i env up lands =>
    simp only [step] at hstep
    split at hstep
    · simp at hstep
    · next call hcall =>
      split_ifs at hstep with hnow
      simp only [Bool.and_eq_true, decide_eq_true_eq] at hnow
      have hlater : Inv cfg { s with clock := env.now } :=
        h.of_quiet rfl (fun _ => countActive_later hnow.1) fun call' hmem => .inl hmem
      refine hlater.proceed hcall rfl hnow.2 (fun c hstage => hguard c ?_) hstep
      simp [countedAt, hcall, hstage]
  | writeGrants rows =>
    obtain rfl := Option.some.inj hstep
    exact h.of_quiet rfl (fun _ => le_rfl) fun _ hmem => .inl hmem
  | revoke tokenID userID now =>
    simp only [step, Option.ite_none_right_eq_some, Option.map_eq_some_iff] at hstep
    obtain ⟨hnow, rows, hrevoke, rfl⟩ := hstep
    exact h.of_quiet rfl (fun _ => (countActive_revoke hrevoke now).trans (countActive_later hnow))
      fun _ hmem => .inl hmem
  | restart =>
    obtain rfl := Option.some.inj hstep
    exact h.of_quiet rfl (fun _ => le_rfl) fun _ hmem => by simp at hmem

theorem inv_init (cfg : Config) : Inv cfg {} where
  confined e he := by simp at he
  underCap userID := (cap_pos cfg.mint).le
  tracked call hcall := by simp at hcall

/-- Where every insert is of a scope that is backed, and no other token of its user is created
between its count and it, each token is confined to what its creator held, and no user has more
active tokens than the cap. -/
theorem mints_bounded (cfg : Config) (as : List Action)
    (h : Along (step cfg) (Guarded cfg) {} as) : Throughout (step cfg) (Bounded cfg) {} as :=
  (throughout_of_along (fun _ _ _ => inv_step) h (inv_init cfg)).mono fun _ hs => hs.toBounded

def oneEach : Config where
  mint := { unicode := SiteRegistry.sampleUnicode, sha256 := VisitorIdentity.utf8, maxPerUser := 1 }

/-- A viewer of site 1. -/
def ann : User := { userID := 7, siteID := 1, role := .viewer }

def annsGrant (revoked : Bool) : GrantRow := ⟨7, 1, .viewer, revoked, 0⟩

def envAt (n : ℕ) : MintEnv := { now := n, tokenID := n, raw := String.ofList [Char.ofNat n] }

def annMints (revoked : Bool) : List Action :=
  [.writeGrants [annsGrant revoked], .request (.session ann) (some { name := "laptop" }),
    .proceed 0 (envAt 65) true false, .proceed 0 (envAt 65) true false,
    .proceed 0 (envAt 65) true false]

theorem mints_bounded_ann :
    Throughout (step oneEach) (Bounded oneEach) {} (annMints false) :=
  mints_bounded oneEach (annMints false) (by decide +kernel)

/-- Two requests are counted before either inserts. -/
def annMintsTwice : List Action :=
  [.writeGrants [annsGrant false], .request (.session ann) (some { name := "laptop" }),
    .request (.session ann) (some { name := "phone" }),
    .proceed 0 (envAt 65) true false, .proceed 1 (envAt 66) true false,
    .proceed 0 (envAt 67) true false, .proceed 1 (envAt 68) true false,
    .proceed 0 (envAt 69) true false, .proceed 1 (envAt 70) true false]

/-- With the only grant revoked a token is minted for the site of the users row, and two
requests at once leave two tokens where one is allowed. -/
theorem mints_unbounded :
    (∃ t, exec (step oneEach) {} (annMints true) = some t ∧ ∃ e ∈ t.log, ¬ e.Confined) ∧
      ∃ t, exec (step oneEach) {} annMintsTwice = some t ∧
        oneEach.mint.cap < countActiveForUser t.tokens 7 t.clock := by
  have hrevoked : (exec (step oneEach) {} (annMints true)).any
      (fun t => t.log.any fun e => !decide e.Confined) = true := by decide +kernel
  have htwice : (exec (step oneEach) {} annMintsTwice).any
      (fun t => decide (oneEach.mint.cap < countActiveForUser t.tokens 7 t.clock)) = true := by
    decide +kernel
  obtain ⟨t, ht, hlog⟩ := (Option.any_eq_true _ _).mp hrevoked
  obtain ⟨t', ht', hover⟩ := (Option.any_eq_true _ _).mp htwice
  exact ⟨⟨t, ht, by simpa using hlog⟩, t', ht', of_decide_eq_true hover⟩

end Statnive.MintRaces
