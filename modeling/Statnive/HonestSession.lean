import Statnive.DelegatedAccess
import Statnive.SingleUse

/-!
# A session that is left alone

A code is good once, and a refresh token that is presented twice or by another client takes its
family with it. An application that presents what it was given last, one request at a time, is
never refused while that is in force, whatever else the endpoint is asked: only someone who
presents a secret of the application can disturb it.
-/

namespace Statnive.HonestSession

open OAuthServer TokenExchange SingleUse LabelledRuns

/-- What a request presents. -/
inductive Credential where
  | code
  | refresh (raw : String)
  deriving DecidableEq

/-- An application that has started a consent, and the row of the code it gets for it. -/
structure App (d : Digests) where
  clientID : String
  clientSecret : String := ""
  basicAuth : Option (String × String) := none
  code : String
  redirectURI : String
  verifier : String
  row : CodeRow
  codeGiven : code ≠ ""
  hash : row.hash = d.hashToken code
  unused : row.consumed = false
  bound : ∀ client : Client,
    client.id = (TokenRequest.credentials ⟨clientID, clientSecret, basicAuth, .other⟩).1 →
      bindsCode d row client redirectURI verifier = true

variable {d : Digests}

def App.grant (a : App d) : Credential → TokenGrant
  | .code => .authorizationCode a.code a.redirectURI a.verifier
  | .refresh raw => .refreshToken raw

def App.request (a : App d) (c : Credential) : TokenRequest :=
  ⟨a.clientID, a.clientSecret, a.basicAuth, a.grant c⟩

/-- The application waits for the consent, may present a credential, has sent it with the
request `i`, or has been refused. -/
inductive Turn where
  | absent
  | ready (c : Credential)
  | sent (i : ℕ) (c : Credential)
  | refused

/-- `hashes` are of the secrets that are drawn for the application, the last one first;
`family` is that of its refresh tokens and `deadline` is when the credential goes out of
force. -/
structure Session where
  turn : Turn := .absent
  hashes : List String := []
  family : Option ℕ := none
  deadline : ℕ := 0
  received : List Claims := []

/-- The request that is not answered yet. -/
def Session.sent (s : Session) : Option ℕ :=
  match s.turn with
  | .sent i _ => some i
  | _ => none

def Session.awaits (s : Session) (i : ℕ) : Bool := s.sent = some i

private theorem sent_of_awaits {s : Session} {i : ℕ} (h : s.awaits i = true) :
    ∃ c, s.turn = .sent i c := by
  cases hturn : s.turn with
  | sent j c =>
    obtain rfl : j = i := by simpa [Session.awaits, Session.sent, hturn] using h
    exact ⟨c, rfl⟩
  | _ => simp [Session.awaits, Session.sent, hturn] at h

/-- The endpoint with the application. -/
structure State extends TokenExchange.State where
  session : Session := {}

/-- The application acts, or anything happens at the endpoint, a query of its own request
included. -/
inductive Action where
  | consent
  | present
  | receive
  | server (act : TokenExchange.Action)

/-- A query of the application's request that saves a refresh token. -/
def Session.after (d : Digests) (cfg : Config) (env : Env) (s : Session) : Stage → Session
  | .saveRefresh _ _ => { s with
      hashes := d.hashToken env.raw :: s.hashes
      family := some env.familyID
      deadline := env.now + cfg.refreshTTL }
  | .saveSuccessor x _ => { s with hashes := d.hashToken x.raw :: s.hashes }
  | _ => s

def State.follow (d : Digests) (cfg : Config) (s : State) : TokenExchange.Action → Session
  | .proceed i env => match s.calls[i]? with
    | some stage => if s.session.awaits i then s.session.after d cfg env stage else s.session
    | none => s.session
  | _ => s.session

def State.answer (s : State) : Reply → State
  | .tokens access refresh => { s with
      session.turn := .ready (.refresh refresh)
      session.received := access :: s.session.received }
  | _ => { s with session.turn := .refused }

def step (cfg : Config) (a : App d) (s : State) : Action → Option State
  | .consent => match s.session.turn with
    | .absent => (TokenExchange.step d cfg s.toState (.saveCode a.row .ok)).map fun t =>
        { toState := t, session := { s.session with
            turn := .ready .code, hashes := [a.row.hash], deadline := a.row.expiresAt } }
    | _ => none
  | .present => match s.session.turn with
    | .ready c => (TokenExchange.step d cfg s.toState (.request (a.request c))).map fun t =>
        { toState := t, session := { s.session with turn := .sent s.calls.length c } }
    | _ => none
  | .receive => match s.session.turn with
    | .sent i _ => match s.calls[i]? with
      | some (.returned reply) => some (s.answer reply)
      | _ => none
    | _ => none
  | .server act => (TokenExchange.step d cfg s.toState act).map fun t =>
      { toState := t, session := s.follow d cfg act }

/-- The queries of an exchange. -/
def queries : List Query :=
  [.selectCode, .burnCode, .saveRefresh, .selectRefresh, .markRotated, .saveSuccessor]

/-- A query of the application's request: it is registered and comes in time, the store and the
key work, and a secret is a text. -/
def Served (d : Digests) (store : Store) (s : Session) (env : Env) : Stage → Prop
  | .authenticate req => (authenticateClient d env store req).isOk = true ∧ env.raw ≠ "" ∧
      env.now < s.deadline
  | _ => (∀ q ∈ queries, env.fate q = .ok) ∧ env.raw ≠ "" ∧ env.signs = true

/-- A query of anybody else's request does not look up a secret of the application. -/
def LeavesAlone (d : Digests) (s : Session) : Stage → Prop
  | .selectCode x => d.hashToken x.code ∉ s.hashes
  | .selectRefresh x => d.hashToken x.old ∉ s.hashes
  | _ => True

/-- The row of the credential stays, and no restart cuts off a request. -/
def Undisturbed (d : Digests) (s : State) : Action → Prop
  | .server (.proceed i env) => ∀ stage ∈ s.calls[i]?,
      if s.session.awaits i then Served d s.store s.session env stage
      else LeavesAlone d s.session stage
  | .server (.remove hashes) => ∀ h ∈ s.session.hashes.head?, h ∉ hashes
  | .server (.restart _) => s.session.sent = none
  | _ => True

instance (store : Store) (s : Session) (env : Env) (stage : Stage) :
    Decidable (Served d store s env stage) :=
  match stage with
  | .authenticate req => inferInstanceAs (Decidable
      ((authenticateClient d env store req).isOk = true ∧ env.raw ≠ "" ∧ env.now < s.deadline))
  | .lockCode _ | .selectCode _ | .burnCode _ _ | .saveRefresh _ _ | .lockRefresh _
  | .selectRefresh _ | .selectFamily _ _ | .revokeMembers _ _ _ | .markRotated _ _
  | .saveSuccessor _ _ | .sign _ _ _ | .returned _ => inferInstanceAs (Decidable
      ((∀ q ∈ queries, env.fate q = .ok) ∧ env.raw ≠ "" ∧ env.signs = true))

instance (s : Session) (stage : Stage) : Decidable (LeavesAlone d s stage) :=
  match stage with
  | .selectCode x => inferInstanceAs (Decidable (d.hashToken x.code ∉ s.hashes))
  | .selectRefresh x => inferInstanceAs (Decidable (d.hashToken x.old ∉ s.hashes))
  | .authenticate _ | .lockCode _ | .burnCode _ _ | .saveRefresh _ _ | .lockRefresh _
  | .selectFamily _ _ | .revokeMembers _ _ _ | .markRotated _ _ | .saveSuccessor _ _
  | .sign _ _ _ | .returned _ => .isTrue trivial

instance (s : State) (act : Action) : Decidable (Undisturbed d s act) :=
  match act with
  | .server (.proceed i env) => inferInstanceAs (Decidable (∀ stage ∈ s.calls[i]?,
      if s.session.awaits i then Served d s.store s.session env stage
      else LeavesAlone d s.session stage))
  | .server (.remove hashes) =>
    inferInstanceAs (Decidable (∀ h ∈ s.session.hashes.head?, h ∉ hashes))
  | .server (.restart _) => inferInstanceAs (Decidable (s.session.sent = none))
  | .consent | .present | .receive | .server (.saveCode _ _) | .server (.register _)
  | .server (.request _) => .isTrue trivial

/-- The row of the code, unburnt. -/
def Unburnt (a : App d) (row : CodeRow) : Prop :=
  row = { a.row with version := row.version }

/-- A row of the token in force. -/
structure Current (a : App d) (s : Session) (t : RefreshRow) : Prop where
  grant : t.grant = a.row.grant
  family : s.family = some t.familyID
  deadline : t.expiresAt = s.deadline

/-- The credential is the last secret that was drawn, and its row is in force. -/
def Holds (a : App d) (l : Ledger) (s : Session) : Credential → Prop
  | .code => s.hashes.head? = some a.row.hash ∧ s.family = none ∧ s.deadline = a.row.expiresAt ∧
      (∃ r ∈ l.store.codes, r.hash = a.row.hash) ∧
      ∀ r ∈ l.store.codes, r.hash = a.row.hash → Unburnt a r
  | .refresh raw => raw ≠ "" ∧ s.hashes.head? = some (d.hashToken raw) ∧
      (∃ r ∈ l.store.refresh, r.hash = d.hashToken raw) ∧
      ∀ r ∈ l.store.refresh, r.hash = d.hashToken raw → live r = true ∧ Current a s r

/-- What the application's request has got to. -/
def OnCourse (cfg : Config) (a : App d) (l : Ledger) (s : Session) (c : Credential) : Stage → Prop
  | .authenticate req => req = a.request c ∧ Holds a l s c
  | .lockCode x | .selectCode x => c = .code ∧ Holds a l s c ∧ x.code = a.code ∧
      bindsCode d a.row x.client x.redirectURI x.verifier = true ∧ x.now < s.deadline
  | .burnCode x row => c = .code ∧ s.family = none ∧ Unburnt a row ∧
      bindsCode d a.row x.client x.redirectURI x.verifier = true
  | .saveRefresh _ g => c = .code ∧ s.family = none ∧ g = a.row.grant
  | .lockRefresh x | .selectRefresh x => c = .refresh x.old ∧ Holds a l s c ∧ x.raw ≠ "" ∧
      x.client.id = a.row.grant.clientID ∧ x.now < s.deadline
  | .markRotated x t => c = .refresh x.old ∧ x.raw ≠ "" ∧ Current a s t ∧
      s.hashes.head? = some (d.hashToken x.old)
  | .saveSuccessor x t => c = .refresh x.old ∧ x.raw ≠ "" ∧ Current a s t
  | .sign _ g raw => g = a.row.grant ∧ Holds a l s (.refresh raw)
  | .returned reply => ∃ issuedAt raw,
      reply = .tokens (signAccessToken cfg issuedAt a.row.grant) raw ∧ Holds a l s (.refresh raw)
  | _ => False

/-- Anybody else's request has read nothing of the application's. -/
def Apart (d : Digests) (s : Session) : Stage → Prop
  | .burnCode _ row => row.hash ∉ s.hashes
  | .selectFamily _ familyID => s.family ≠ some familyID
  | .revokeMembers _ familyID members => s.family ≠ some familyID ∧
      ∀ m ∈ members, m.hash ∉ s.hashes
  | .markRotated x t => d.hashToken x.old ∉ s.hashes ∧ s.family ≠ some t.familyID
  | .saveSuccessor _ t => s.family ≠ some t.familyID
  | _ => True

/-- The refresh tokens of the application's family are those that are drawn for it. -/
structure Own (l : Ledger) (s : Session) : Prop where
  hashes : ∀ h ∈ s.hashes, h ∈ l.hashes
  family : ∀ f ∈ s.family, f ∈ l.families
  rows : ∀ r ∈ l.store.refresh, r.hash ∈ s.hashes ↔ s.family = some r.familyID

def InTurn (cfg : Config) (a : App d) (s : State) : Turn → Prop
  | .absent => s.session.hashes = [] ∧ s.session.family = none
  | .ready c => Holds a s.toLedger s.session c
  | .sent i c => ∃ stage, s.calls[i]? = some stage ∧ OnCourse cfg a s.toLedger s.session c stage
  | .refused => False

structure Inv (cfg : Config) (a : App d) (s : State) : Prop where
  inner : SingleUse.Inv d s.toState
  own : Own s.toLedger s.session
  turn : InTurn cfg a s s.session.turn
  apart : ∀ (i : ℕ) (stage : Stage), s.calls[i]? = some stage → s.session.awaits i = false →
    Apart d s.session stage
  received : ∀ access ∈ s.session.received, ∃ issuedAt,
    access = signAccessToken cfg issuedAt a.row.grant

variable {cfg : Config} {env : Env} {a : App d} {l l' : Ledger} {s : Session} {c : Credential}

/-- No row of the secret comes or goes. -/
structure Untouched (h : String) (store store' : Store) : Prop where
  codes : ∀ r, r.hash = h → (r ∈ store'.codes ↔ r ∈ store.codes)
  refresh : ∀ r, r.hash = h → (r ∈ store'.refresh ↔ r ∈ store.refresh)

theorem Untouched.refl (h : String) (store : Store) : Untouched h store store :=
  ⟨fun _ _ => Iff.rfl, fun _ _ => Iff.rfl⟩

theorem untouched_putCode {h : String} {row : CodeRow} (hne : row.hash ≠ h) (store : Store)
    (fate : Fate) : Untouched h store (store.putCode fate row) where
  codes r hr := by
    unfold Store.putCode
    split
    · exact Iff.rfl
    · exact ReplacingTable.mem_insert_of_ne fun hsame => hne (hsame.symm.trans hr)
  refresh r _ := by rw [putCode_refresh]

private theorem untouched_putRefresh
    {h : String} {row : RefreshRow} (hne : row.hash ≠ h) (store : Store)
    (fate : Fate) : Untouched h store (store.putRefresh fate row) where
  codes r _ := by rw [putRefresh_codes]
  refresh r hr := by
    unfold Store.putRefresh
    split
    · exact Iff.rfl
    · exact ReplacingTable.mem_insert_of_ne fun hsame => hne (hsame.symm.trans hr)

theorem Holds.frame (h : Holds a l s c)
    (huntouched : ∀ hash ∈ s.hashes.head?, Untouched hash l.store l'.store) : Holds a l' s c := by
  cases c with
  | code =>
    obtain ⟨hhead, hfamily, hdeadline, ⟨r, hr, hhash⟩, hrows⟩ := h
    have hsame := huntouched _ hhead
    exact ⟨hhead, hfamily, hdeadline, ⟨r, (hsame.codes r hhash).mpr hr, hhash⟩,
      fun r' hr' hhash' => hrows r' ((hsame.codes r' hhash').mp hr') hhash'⟩
  | refresh raw =>
    obtain ⟨hraw, hhead, ⟨r, hr, hhash⟩, hrows⟩ := h
    have hsame := huntouched _ hhead
    exact ⟨hraw, hhead, ⟨r, (hsame.refresh r hhash).mpr hr, hhash⟩,
      fun r' hr' hhash' => hrows r' ((hsame.refresh r' hhash').mp hr') hhash'⟩

/-- Whose turn it is and what was received make no difference. -/
theorem Holds.turn {s' : Session} (h : Holds a l s c) (hhashes : s'.hashes = s.hashes)
    (hfamily : s'.family = s.family) (hdeadline : s'.deadline = s.deadline) :
    Holds a l s' c := by
  cases c with
  | code => simpa only [Holds, hhashes, hfamily, hdeadline] using h
  | refresh raw =>
    obtain ⟨hraw, hhead, hrow, hrows⟩ := h
    refine ⟨hraw, hhashes ▸ hhead, hrow, fun r hr hhash => ?_⟩
    obtain ⟨hlive, hcurrent⟩ := hrows r hr hhash
    exact ⟨hlive, hcurrent.grant, hfamily ▸ hcurrent.family, hdeadline ▸ hcurrent.deadline⟩

theorem OnCourse.frame {stage : Stage} (h : OnCourse cfg a l s c stage)
    (huntouched : ∀ hash ∈ s.hashes.head?, Untouched hash l.store l'.store) :
    OnCourse cfg a l' s c stage := by
  cases stage with
  | authenticate req => exact ⟨h.1, h.2.frame huntouched⟩
  | lockCode x | selectCode x | lockRefresh x | selectRefresh x =>
    exact ⟨h.1, h.2.1.frame huntouched, h.2.2⟩
  | sign source g raw => exact ⟨h.1, h.2.frame huntouched⟩
  | returned reply =>
    obtain ⟨issuedAt, raw, hreply, hholds⟩ := h
    exact ⟨issuedAt, raw, hreply, hholds.frame huntouched⟩
  | burnCode x row | saveRefresh source g | markRotated x t | saveSuccessor x t => exact h
  | selectFamily hash familyID => exact h
  | revokeMembers hash familyID members => exact h

/-- What is left of the application's after a query of another request. -/
structure Spared (d : Digests) (l l' : Ledger) (s : Session) (next : Stage) : Prop where
  own : Own l' s
  untouched : ∀ h ∈ s.hashes, Untouched h l.store l'.store
  apart : Apart d s next

theorem Own.spared (h : Own l s) {next : Stage} (hapart : Apart d s next) : Spared d l l s next :=
  ⟨h, fun hash _ => .refl hash l.store, hapart⟩

/-- Secrets and families are drawn, and rows of the application's neither come nor go. -/
theorem Own.mono (h : Own l s) (hhashes : l.hashes ⊆ l'.hashes)
    (hfamilies : l.families ⊆ l'.families)
    (hrows : ∀ r ∈ l'.store.refresh, r ∈ l.store.refresh ∨
      r.hash ∉ s.hashes ∧ s.family ≠ some r.familyID) : Own l' s where
  hashes hash hmem := hhashes (h.hashes hash hmem)
  family f hf := hfamilies (h.family f hf)
  rows r hr := by
    rcases hrows r hr with hr | ⟨hhash, hfamily⟩
    · exact h.rows r hr
    · exact iff_of_false hhash hfamily

theorem Own.putCode (h : Own l s) (row : CodeRow) (fate : Fate) (hne : row.hash ∉ s.hashes)
    {hashes : List String} (hhashes : l.hashes ⊆ hashes) {next : Stage} (hapart : Apart d s next) :
    Spared d l { l with store := l.store.putCode fate row, hashes := hashes } s next where
  own := h.mono hhashes (List.Subset.refl _) fun r hr => .inl (by simpa using hr)
  untouched hash hmem := untouched_putCode (fun heq => hne (heq ▸ hmem)) l.store fate
  apart := hapart

theorem mem_putRefresh_cases {store : Store} {fate : Fate} {row r : RefreshRow}
    (h : r ∈ (store.putRefresh fate row).refresh) :
    r = { row with version := store.version + 1 } ∨ r ∈ store.refresh := by
  unfold Store.putRefresh at h
  split at h
  · exact .inr h
  · exact ReplacingTable.mem_insert h

theorem Own.putRefresh (h : Own l s) (row : RefreshRow) (fate : Fate)
    (hne : row.hash ∉ s.hashes) (hfamily : s.family ≠ some row.familyID) {hashes : List String}
    {families : List ℕ} (hhashes : l.hashes ⊆ hashes) (hfamilies : l.families ⊆ families)
    {next : Stage} (hapart : Apart d s next) :
    Spared d l { l with
      store := l.store.putRefresh fate row, hashes := hashes, families := families } s next where
  own := h.mono hhashes hfamilies fun r hr => by
    rcases mem_putRefresh_cases hr with rfl | hr
    · exact .inr ⟨hne, hfamily⟩
    · exact .inl hr
  untouched hash hmem := untouched_putRefresh (fun heq => hne (heq ▸ hmem)) l.store fate
  apart := hapart

private theorem apart_dispatch (env : Env) (client : Client) (grant : TokenGrant) :
    Apart d s (dispatch env client grant) := by
  cases grant with
  | authorizationCode code redirectURI verifier =>
    simp only [dispatch]
    split <;> trivial
  | refreshToken old =>
    simp only [dispatch]
    split <;> trivial
  | other => trivial

/-- A token that is not the application's is of another family. -/
theorem Own.family_ne (h : Own l s) {t : RefreshRow} (ht : t ∈ l.store.refresh)
    (hne : t.hash ∉ s.hashes) : s.family ≠ some t.familyID :=
  fun hfamily => hne ((h.rows t ht).mpr hfamily)

private theorem advance_spared (h : Own l s) {stage : Stage} (hready : Ready d l stage)
    (hapart : Apart d s stage) (halone : LeavesAlone d s stage)
    (hfresh : fresh d env l stage = true) :
    Spared d l (advance d cfg env l stage).1 s (advance d cfg env l stage).2 := by
  have hnew {hash : String} (hhash : hash ∉ l.hashes) : hash ∉ s.hashes :=
    fun hmem => hhash (h.hashes hash hmem)
  cases stage with
  | authenticate req =>
    simp only [advance]
    split
    · exact h.spared trivial
    · exact h.spared (apart_dispatch _ _ _)
  | lockCode x | lockRefresh x | returned reply => exact h.spared trivial
  | selectCode x =>
    simp only [advance]
    split
    · exact h.spared trivial
    · next row hcheck =>
      obtain ⟨-, hhash, -⟩ := checkCode_ok hcheck
      have hother : row.hash ∉ s.hashes := hhash ▸ halone
      exact h.spared hother
  | burnCode x row =>
    have hburnt {next : Stage} (hnext : Apart d s next) :=
      h.putCode { row with consumed := true } (env.fate .burnCode) hapart
        (List.Subset.refl _) hnext
    simp only [advance]
    split
    · have hbound : Apart d s (bound d x row) := by
        unfold bound
        split <;> trivial
      have hspared := hburnt hbound
      exact ⟨⟨hspared.own.hashes, hspared.own.family, hspared.own.rows⟩, hspared.untouched, hbound⟩
    · exact hburnt trivial
  | saveRefresh source g =>
    simp only [fresh, Bool.and_eq_true, decide_eq_true_eq] at hfresh
    have hfamily : s.family ≠ some env.familyID := fun hf => hfresh.2 (h.family _ hf)
    refine h.putRefresh _ (env.fate .saveRefresh) (hnew hfresh.1) hfamily
      (List.subset_cons_self _ _) (List.subset_cons_self _ _) ?_
    simp only [advance]
    split <;> trivial
  | selectRefresh x =>
    simp only [advance]
    split
    · exact h.spared trivial
    · next t hselect =>
      obtain ⟨hmem, hhash⟩ := selectRefresh_ok hselect
      have hfamily := h.family_ne hmem (hhash ▸ halone)
      simp only [checkRefresh]
      split_ifs
      · exact h.spared hfamily
      · exact h.spared trivial
      · exact h.spared ⟨halone, hfamily⟩
  | selectFamily hash familyID =>
    simp only [advance]
    split
    · exact h.spared trivial
    · refine h.spared ⟨hapart, fun m hm hmem => ?_⟩
      simp only [List.mem_filter, Bool.and_eq_true, decide_eq_true_eq] at hm
      obtain ⟨hm, hfamily, -⟩ := hm
      exact hapart (hfamily ▸ (h.rows m hm).mp hmem)
  | revokeMembers hash familyID members =>
    obtain ⟨hfamily, hmembers⟩ := hapart
    cases members with
    | nil => exact ⟨⟨h.hashes, h.family, h.rows⟩, fun hash _ => .refl hash l.store, trivial⟩
    | cons m members =>
      obtain ⟨hsame, -⟩ := hready.2.1 m List.mem_cons_self
      refine h.putRefresh { m with familyRevoked := true } (env.fate (.revokeMember m.hash))
        (hmembers m List.mem_cons_self) (hsame.symm ▸ hfamily) (List.Subset.refl _)
        (List.Subset.refl _) ?_
      simp only [advance]
      split
      · exact ⟨hfamily, fun m' hm' => hmembers m' (List.mem_cons_of_mem _ hm')⟩
      · trivial
  | markRotated x t =>
    refine h.putRefresh { t with hash := d.hashToken x.old, rotated := true }
      (env.fate .markRotated) hapart.1 hapart.2 (List.Subset.refl _) (List.Subset.refl _) ?_
    simp only [advance]
    split
    · exact hapart.2
    · trivial
  | saveSuccessor x t =>
    simp only [fresh, decide_eq_true_eq] at hfresh
    have hsaved {next : Stage} (hnext : Apart d s next) := h.putRefresh
      { t with hash := d.hashToken x.raw, rotated := false, familyRevoked := false }
      (env.fate .saveSuccessor) (hnew hfresh) hapart
      (List.subset_cons_self (d.hashToken x.raw) l.hashes) (List.Subset.refl _) hnext
    simp only [advance]
    split
    · have hsign : Apart d s (.sign (.refresh (d.hashToken x.old)) t.grant x.raw) := trivial
      have hspared := hsaved hsign
      exact ⟨⟨hspared.own.hashes, hspared.own.family, hspared.own.rows⟩, hspared.untouched, hsign⟩
    · exact hsaved trivial
  | sign source g raw =>
    simp only [advance]
    split
    · exact ⟨⟨h.hashes, h.family, h.rows⟩, fun hash _ => .refl hash l.store, trivial⟩
    · exact h.spared trivial

/-- What is left of the application's after a query of its own request. -/
structure Carried (cfg : Config) (a : App d) (l' : Ledger) (s' : Session) (c : Credential)
    (next : Stage) : Prop where
  own : Own l' s'
  onCourse : OnCourse cfg a l' s' c next

theorem Own.carried (h : Own l s) {next : Stage} (hnext : OnCourse cfg a l s c next) :
    Carried cfg a l s c next :=
  ⟨h, hnext⟩

/-- A refresh token that is saved for the application is in force. -/
theorem Own.saved (h : Own l s) (hversion : ∀ r ∈ l.store.refresh, r.version ≤ l.store.version)
    {row : RefreshRow} {raw : String} (hraw : raw ≠ "") (hhash : row.hash = d.hashToken raw)
    (hnew : row.hash ∉ l.hashes) (hlive : live row = true) (hgrant : row.grant = a.row.grant)
    (hrefresh : ∀ r ∈ l.store.refresh, r.hash ∈ l.hashes)
    (hfamily : ∀ r ∈ l.store.refresh, r.hash ∈ s.hashes ↔ row.familyID = r.familyID)
    {families : List ℕ} (hfamilies : row.familyID ∈ families) :
    let l' : Ledger := { l with
      store := l.store.putRefresh .ok row, hashes := row.hash :: l.hashes, families := families }
    let s' : Session := { s with
      hashes := d.hashToken raw :: s.hashes, family := some row.familyID
      deadline := row.expiresAt }
    Own l' s' ∧ Holds a l' s' (.refresh raw) := by
  have hcases {r : RefreshRow} (hr : r ∈ (l.store.putRefresh .ok row).refresh) :
      r = { row with version := l.store.version + 1 } ∨
        r ∈ l.store.refresh ∧ r.hash ≠ row.hash :=
    (mem_putRefresh hversion hr).imp_right fun h => ⟨h.1, h.2 (by simp)⟩
  refine ⟨⟨fun hash hmem => ?_, fun f hf => ?_, fun r hr => ?_⟩, hraw, rfl, ?_,
    fun r hr hsame => ?_⟩
  · rcases List.mem_cons.mp hmem with rfl | hmem
    · exact hhash ▸ List.mem_cons_self
    · exact List.mem_cons_of_mem _ (h.hashes hash hmem)
  · exact Option.some.inj hf ▸ hfamilies
  · rcases hcases hr with rfl | ⟨hr, hne⟩
    · simp [hhash]
    · have hhead : r.hash ≠ d.hashToken raw := hhash ▸ hne
      simp only [List.mem_cons, hhead, false_or, Option.some.injEq]
      exact hfamily r hr
  · refine ⟨{ row with version := l.store.version + 1 }, ?_, hhash⟩
    simp only [Store.putRefresh, reduceCtorEq, if_false]
    have hlatest : ∀ old ∈ l.store.refresh, old.hash = row.hash →
        old.stamp ≤ RefreshRow.stamp { row with version := l.store.version + 1 } := by
      intro old hold hsame
      exact absurd (hsame ▸ hrefresh old hold) hnew
    exact (ReplacingTable.mem_insert_latest hlatest _).mpr (.inl rfl)
  · rcases hcases hr with rfl | ⟨hr, hne⟩
    · exact ⟨hlive, hgrant, rfl, rfl⟩
    · exact absurd (hsame.trans hhash.symm) hne

private theorem authenticateClient_id {store : Store} {req : TokenRequest} {client : Client}
    (h : authenticateClient d env store req = .ok client) : client.id = req.credentials.1 := by
  unfold authenticateClient at h
  split at h
  · cases h
  · next found hfound =>
    split_ifs at h with hsecret
    obtain rfl := Except.ok.inj h
    simp only [getClient] at hfound
    split_ifs at hfound with hfate
    have hid := List.find?_some hfound
    simp only [Bool.and_eq_true, decide_eq_true_eq] at hid
    exact hid.1

theorem App.bindsCode (a : App d) {client : Client}
    (h : client.id = (a.request c).credentials.1) :
    OAuthServer.bindsCode d a.row client a.redirectURI a.verifier = true :=
  a.bound client h

theorem App.clientID_eq (a : App d) {client : Client}
    (h : client.id = (a.request c).credentials.1) : client.id = a.row.grant.clientID := by
  have hbinds := a.bindsCode h
  simp only [OAuthServer.bindsCode, Bool.and_eq_true, decide_eq_true_eq] at hbinds
  exact hbinds.1.1.symm

private theorem advance_authenticate (h : Own l s) {req : TokenRequest}
    (hcourse : OnCourse cfg a l s c (.authenticate req))
    (hserved : Served d l.store s env (.authenticate req)) :
    Carried cfg a (advance d cfg env l (.authenticate req)).1 s c
      (advance d cfg env l (.authenticate req)).2 := by
  obtain ⟨rfl, hholds⟩ := hcourse
  obtain ⟨hok, hraw, hnow⟩ := hserved
  simp only [advance]
  split
  · next reply herror => simp [herror, Except.isOk, Except.toBool] at hok
  · next client hclient =>
    have hid := authenticateClient_id hclient
    cases c with
    | code =>
      have hdispatch : dispatch env client (a.request .code).grant =
          .lockCode ⟨client, a.code, a.redirectURI, a.verifier, env.now⟩ := if_neg a.codeGiven
      rw [hdispatch]
      exact h.carried ⟨rfl, hholds, rfl, a.bindsCode hid, hnow⟩
    | refresh raw =>
      have hdispatch : dispatch env client (a.request (.refresh raw)).grant =
          .lockRefresh ⟨client, raw, env.raw, env.now⟩ := if_neg hholds.1
      rw [hdispatch]
      exact h.carried ⟨rfl, hholds, hraw, a.clientID_eq hid, hnow⟩

private theorem advance_selectCode (h : Own l s) {x : CodeExchange}
    (hcourse : OnCourse cfg a l s c (.selectCode x)) (hok : ∀ q ∈ queries, env.fate q = .ok) :
    Carried cfg a (advance d cfg env l (.selectCode x)).1 s c
      (advance d cfg env l (.selectCode x)).2 := by
  obtain ⟨rfl, ⟨-, hfamily, hdeadline, ⟨r, hr, hhash⟩, hrows⟩, hcode, hbinds, hnow⟩ := hcourse
  have hpresented : d.hashToken x.code = a.row.hash := by rw [hcode, a.hash]
  cases hfind : l.store.codes.find? (fun r => r.hash = a.row.hash) with
  | none => exact absurd hhash (by simpa using List.find?_eq_none.mp hfind r hr)
  | some row =>
    have hunburnt := hrows row (List.mem_of_find?_eq_some hfind)
      (by simpa using List.find?_some hfind)
    have hconsumed : row.consumed = false := by rw [hunburnt]; exact a.unused
    have hexpires : row.expiresAt = s.deadline := by rw [hunburnt]; exact hdeadline.symm
    have hcheck : checkCode { env with now := x.now } l.store (d.hashToken x.code) = .ok row := by
      simp [checkCode, hok .selectCode (by decide), hpresented, hfind, hconsumed, hexpires, hnow]
    simp only [advance, hcheck]
    exact h.carried ⟨rfl, hfamily, hunburnt, hbinds⟩

theorem advance_burnCode (h : Own l s) {x : CodeExchange} {row : CodeRow}
    (hcourse : OnCourse cfg a l s c (.burnCode x row)) (hok : ∀ q ∈ queries, env.fate q = .ok) :
    Carried cfg a (advance d cfg env l (.burnCode x row)).1 s c
      (advance d cfg env l (.burnCode x row)).2 := by
  obtain ⟨rfl, hfamily, hunburnt, hbinds⟩ := hcourse
  have hgrant : row.grant = a.row.grant := by rw [hunburnt]
  have hbound : bound d x row = .saveRefresh (.code row.hash) row.grant := by
    have hrow : OAuthServer.bindsCode d row x.client x.redirectURI x.verifier = true := by
      rw [hunburnt]
      exact hbinds
    simp only [bound, hrow, if_true]
  simp only [advance, hok .burnCode (by decide), if_true, hbound]
  refine ⟨⟨h.hashes, h.family, fun r hr => h.rows r ?_⟩, rfl, hfamily, hgrant⟩
  simpa [Ledger.record] using hr

private theorem advance_saveRefresh (hsound : Sound l) (h : Own l s) {source : Source} {g : Grant}
    (hcourse : OnCourse cfg a l s c (.saveRefresh source g)) (hok : ∀ q ∈ queries, env.fate q = .ok)
    (hraw : env.raw ≠ "") (hfresh : fresh d env l (.saveRefresh source g) = true) :
    Carried cfg a (advance d cfg env l (.saveRefresh source g)).1
      (s.after d cfg env (.saveRefresh source g)) c
      (advance d cfg env l (.saveRefresh source g)).2 := by
  obtain ⟨rfl, hfamily, rfl⟩ := hcourse
  simp only [fresh, Bool.and_eq_true, decide_eq_true_eq] at hfresh
  let row : RefreshRow :=
    { hash := d.hashToken env.raw, familyID := env.familyID, grant := a.row.grant
      expiresAt := env.now + cfg.refreshTTL }
  have hothers : ∀ r ∈ l.store.refresh, r.hash ∈ s.hashes ↔ row.familyID = r.familyID := by
    intro r hr
    rw [h.rows r hr, hfamily]
    refine iff_of_false (by simp) fun hsame => hfresh.2 ?_
    have hsame : env.familyID = r.familyID := hsame
    exact hsame ▸ (hsound.refreshKnown r hr).2
  obtain ⟨hown, hholds⟩ := h.saved hsound.refreshVersion hraw rfl hfresh.1 rfl rfl
    (fun r hr => (hsound.refreshKnown r hr).1) hothers
    (List.mem_cons_self : row.familyID ∈ row.familyID :: l.families)
  simp only [advance, hok .saveRefresh (by decide), if_true, Session.after]
  exact ⟨hown, rfl, hholds⟩

private theorem advance_selectRefresh (h : Own l s) {x : RefreshExchange}
    (hcourse : OnCourse cfg a l s c (.selectRefresh x)) (hok : ∀ q ∈ queries, env.fate q = .ok) :
    Carried cfg a (advance d cfg env l (.selectRefresh x)).1 s c
      (advance d cfg env l (.selectRefresh x)).2 := by
  obtain ⟨rfl, ⟨-, hhead, ⟨r, hr, hhash⟩, hrows⟩, hraw, hclient, hnow⟩ := hcourse
  cases hfind : l.store.refresh.find? (fun r => r.hash = d.hashToken x.old) with
  | none => exact absurd hhash (by simpa using List.find?_eq_none.mp hfind r hr)
  | some t =>
    obtain ⟨hlive, hcurrent⟩ := hrows t (List.mem_of_find?_eq_some hfind)
      (by simpa using List.find?_some hfind)
    have hselect : selectRefresh env l.store (d.hashToken x.old) = .ok t := by
      simp [selectRefresh, hok .selectRefresh (by decide), hfind]
    have hgood : t.reused x.client.id = false := by
      simp only [live, Bool.and_eq_true, Bool.not_eq_true'] at hlive
      simp [RefreshRow.reused, hlive, hcurrent.grant, hclient]
    have hchecked : checkRefresh d x t = .markRotated x t := by
      simp [checkRefresh, hgood, hcurrent.deadline, hnow]
    simp only [advance, hselect, hchecked]
    exact h.carried ⟨rfl, hraw, hcurrent, hhead⟩

private theorem advance_markRotated (h : Own l s) {x : RefreshExchange} {t : RefreshRow}
    (hcourse : OnCourse cfg a l s c (.markRotated x t)) (hok : ∀ q ∈ queries, env.fate q = .ok) :
    Carried cfg a (advance d cfg env l (.markRotated x t)).1 s c
      (advance d cfg env l (.markRotated x t)).2 := by
  obtain ⟨rfl, hraw, hcurrent, hhead⟩ := hcourse
  simp only [advance, hok .markRotated (by decide), if_true]
  refine ⟨⟨h.hashes, h.family, fun r hr => ?_⟩, rfl, hraw, hcurrent⟩
  rcases mem_putRefresh_cases hr with rfl | hr
  · exact iff_of_true (List.mem_of_mem_head? hhead) hcurrent.family
  · exact h.rows r hr

private theorem advance_saveSuccessor (hsound : Sound l) (h : Own l s) {x : RefreshExchange}
    {t : RefreshRow} (hcourse : OnCourse cfg a l s c (.saveSuccessor x t))
    (hok : ∀ q ∈ queries, env.fate q = .ok) (hfresh : fresh d env l (.saveSuccessor x t) = true) :
    Carried cfg a (advance d cfg env l (.saveSuccessor x t)).1
      (s.after d cfg env (.saveSuccessor x t)) c
      (advance d cfg env l (.saveSuccessor x t)).2 := by
  obtain ⟨rfl, hraw, hcurrent⟩ := hcourse
  simp only [fresh, decide_eq_true_eq] at hfresh
  let row : RefreshRow :=
    { t with hash := d.hashToken x.raw, rotated := false, familyRevoked := false }
  have hothers : ∀ r ∈ l.store.refresh, r.hash ∈ s.hashes ↔ row.familyID = r.familyID := by
    intro r hr
    rw [h.rows r hr, hcurrent.family, Option.some.injEq]
  have hhash : row.hash = d.hashToken x.raw := rfl
  have hgrant : row.grant = a.row.grant := hcurrent.grant
  obtain ⟨hown, hholds⟩ := h.saved hsound.refreshVersion hraw hhash hfresh rfl hgrant
    (fun r hr => (hsound.refreshKnown r hr).1) hothers (h.family _ hcurrent.family)
  have hafter : s.after d cfg env (.saveSuccessor x t) = { s with
      hashes := d.hashToken x.raw :: s.hashes, family := some row.familyID
      deadline := row.expiresAt } := by
    have hfamily : some row.familyID = s.family := hcurrent.family.symm
    have hdeadline : row.expiresAt = s.deadline := hcurrent.deadline
    rw [hfamily, hdeadline]
    rfl
  rw [hafter]
  simp only [advance, hok .saveSuccessor (by decide), if_true]
  exact ⟨⟨hown.hashes, hown.family, hown.rows⟩, hcurrent.grant, hholds.frame fun _ _ => .refl _ _⟩

/-- Each query of the application's request leads to the next one. -/
theorem advance_carried (hsound : Sound l) (h : Own l s) {stage : Stage}
    (hcourse : OnCourse cfg a l s c stage) (hserved : Served d l.store s env stage)
    (hfresh : fresh d env l stage = true) :
    Carried cfg a (advance d cfg env l stage).1 (s.after d cfg env stage) c
      (advance d cfg env l stage).2 := by
  cases stage with
  | authenticate req => exact advance_authenticate h hcourse hserved
  | lockCode x | lockRefresh x => exact h.carried hcourse
  | selectCode x => exact advance_selectCode h hcourse hserved.1
  | burnCode x row => exact advance_burnCode h hcourse hserved.1
  | saveRefresh source g =>
    exact advance_saveRefresh hsound h hcourse hserved.1 hserved.2.1 hfresh
  | selectRefresh x => exact advance_selectRefresh h hcourse hserved.1
  | markRotated x t => exact advance_markRotated h hcourse hserved.1
  | saveSuccessor x t => exact advance_saveSuccessor hsound h hcourse hserved.1 hfresh
  | sign source g raw =>
    obtain ⟨rfl, hholds⟩ := hcourse
    simp only [advance, hserved.2.2, if_true, Session.after]
    refine ⟨⟨h.hashes, h.family, h.rows⟩, env.now, raw, ?_, hholds.frame fun _ _ => .refl _ _⟩
    simp [writeTokens, hserved.2.2]
  | returned reply => exact h.carried hcourse
  | selectFamily hash familyID | revokeMembers hash familyID members => exact hcourse.elim

/-- Whoever has read nothing of the application's has read nothing of what is new. -/
theorem Apart.grow {s' : Session} {stage : Stage} (h : Apart d s stage) (hready : Ready d l stage)
    (hhashes : ∀ hash ∈ s'.hashes, hash ∈ s.hashes ∨ hash ∉ l.hashes)
    (hfamily : ∀ f ∈ s'.family, s.family = some f ∨ f ∉ l.families) : Apart d s' stage := by
  have hhash {hash : String} (hold : hash ∉ s.hashes) (hknown : hash ∈ l.hashes) :
      hash ∉ s'.hashes :=
    fun hmem => (hhashes hash hmem).elim hold fun hnew => hnew hknown
  have hother {f : ℕ} (hold : s.family ≠ some f) (hknown : f ∈ l.families) : s'.family ≠ some f :=
    fun hf => (hfamily f hf).elim hold fun hnew => hnew hknown
  cases stage with
  | burnCode x row => exact hhash h hready.1
  | selectFamily hash familyID => exact hother h hready
  | revokeMembers hash familyID members =>
    exact ⟨hother h.1 hready.1, fun m hm => hhash (h.2 m hm) (hready.2.1 m hm).2.1⟩
  | markRotated x t => exact ⟨hhash h.1 hready.1, hother h.2 hready.2.1⟩
  | saveSuccessor x t => exact hother h hready.2.1
  | _ => trivial

theorem Apart.after {stage stage' : Stage} (h : Apart d s stage') (hready : Ready d l stage')
    (hfresh : fresh d env l stage = true) : Apart d (s.after d cfg env stage) stage' := by
  cases stage with
  | saveRefresh source g =>
    simp only [fresh, Bool.and_eq_true, decide_eq_true_eq] at hfresh
    refine h.grow hready (fun hash hmem => ?_) fun f hf => ?_
    · rcases List.mem_cons.mp hmem with rfl | hmem
      · exact .inr hfresh.1
      · exact .inl hmem
    · exact .inr (Option.some.inj hf ▸ hfresh.2)
  | saveSuccessor x t =>
    simp only [fresh, decide_eq_true_eq] at hfresh
    refine h.grow hready (fun hash hmem => ?_) fun f hf => .inl hf
    rcases List.mem_cons.mp hmem with rfl | hmem
    · exact .inr hfresh
    · exact .inl hmem
  | _ => exact h

variable {s t : State}

private theorem inv_consent (h : Inv cfg a s) (hstep : step cfg a s .consent = some t) :
    Inv cfg a t := by
  simp only [step] at hstep
  split at hstep
  · next habsent =>
    obtain ⟨saved, hsaved, rfl⟩ := Option.map_eq_some_iff.mp hstep
    have hinner := SingleUse.inv_step h.inner hsaved
    have hturn := h.turn
    simp only [InTurn, habsent] at hturn
    obtain ⟨hhashes, hfamily⟩ := hturn
    simp only [TokenExchange.step, Bool.or_eq_true, decide_eq_true_eq,
      Option.ite_none_left_eq_some, Option.some.injEq, not_or] at hsaved
    obtain ⟨⟨hnew, -⟩, rfl⟩ := hsaved
    refine ⟨hinner, ⟨fun hash hmem => ?_, fun f hf => ?_, fun r hr => ?_⟩, ?_, ?_, h.received⟩
    · exact List.mem_singleton.mp hmem ▸ List.mem_cons_self
    · exact h.own.family f hf
    · rw [putCode_refresh] at hr
      refine iff_of_false (fun hmem => hnew ?_) (by simp [hfamily])
      exact List.mem_singleton.mp hmem ▸ (h.inner.sound.refreshKnown r hr).1
    · refine ⟨rfl, hfamily, rfl, ⟨{ a.row with version := s.store.version + 1 }, ?_, rfl⟩,
        fun r hr hsame => ?_⟩
      · simp only [Store.putCode, reduceCtorEq, if_false]
        have hlatest : ∀ old ∈ s.store.codes, old.hash = a.row.hash →
            old.stamp ≤ CodeRow.stamp { a.row with version := s.store.version + 1 } :=
          fun old hold hsame => absurd (hsame ▸ h.inner.sound.codeKnown old hold) hnew
        exact (ReplacingTable.mem_insert_latest hlatest _).mpr (.inl rfl)
      · rcases mem_putCode h.inner.sound.codeVersion hr with rfl | ⟨-, hne⟩
        · rfl
        · exact absurd hsame (hne (by simp))
    · intro i stage hcall _
      have hbefore : s.session.awaits i = false := by simp [Session.awaits, Session.sent, habsent]
      refine (h.apart i stage hcall hbefore).grow (h.inner.ready i stage hcall)
        (fun hash hmem => .inr ?_) fun f hf => .inl hf
      exact List.mem_singleton.mp hmem ▸ hnew
  · cases hstep

/-- A request that is added to the others is one more to be heard. -/
theorem getElem?_append_one {α : Type*} {xs : List α} {x y : α} {i : ℕ}
    (h : (xs ++ [x])[i]? = some y) : xs[i]? = some y ∨ i = xs.length ∧ y = x := by
  rcases Nat.lt_or_ge i xs.length with hi | hi
  · exact .inl (List.getElem?_append_left hi ▸ h)
  · rw [List.getElem?_append_right hi] at h
    have hzero : i - xs.length = 0 := by
      have := (List.getElem?_eq_some_iff.mp h).1
      simpa using this
    rw [hzero] at h
    exact .inr ⟨by omega, (Option.some.inj h).symm⟩

private theorem inv_present (h : Inv cfg a s) (hstep : step cfg a s .present = some t) :
    Inv cfg a t := by
  simp only [step] at hstep
  split at hstep
  · next c hready =>
    obtain ⟨asked, hasked, rfl⟩ := Option.map_eq_some_iff.mp hstep
    have hinner := SingleUse.inv_step h.inner hasked
    have hholds := h.turn
    simp only [InTurn, hready] at hholds
    obtain rfl := Option.some.inj hasked
    refine ⟨hinner, ⟨h.own.hashes, h.own.family, h.own.rows⟩, ⟨.authenticate (a.request c),
      by simp, rfl, hholds.turn rfl rfl rfl⟩, ?_, h.received⟩
    intro i stage hcall hawaits
    rcases getElem?_append_one hcall with hcall | ⟨rfl, -⟩
    · exact h.apart i stage hcall (by simp [Session.awaits, Session.sent, hready])
    · simp [Session.awaits, Session.sent] at hawaits
  · cases hstep

private theorem inv_receive (h : Inv cfg a s) (hstep : step cfg a s .receive = some t) :
    Inv cfg a t := by
  simp only [step] at hstep
  split at hstep
  · next i c hsent =>
    split at hstep
    · next reply hcall =>
      obtain rfl := Option.some.inj hstep
      have hturn := h.turn
      simp only [InTurn, hsent] at hturn
      obtain ⟨stage, hstage, hcourse⟩ := hturn
      obtain rfl : .returned reply = stage := Option.some.inj (hcall.symm.trans hstage)
      obtain ⟨issuedAt, raw, rfl, hholds⟩ := hcourse
      refine ⟨h.inner, ⟨h.own.hashes, h.own.family, h.own.rows⟩, hholds.turn rfl rfl rfl, ?_, ?_⟩
      · intro j stage hcall' _
        by_cases hij : i = j
        · subst hij
          obtain rfl := Option.some.inj (hcall.symm.trans hcall')
          trivial
        · have hbefore : s.session.awaits j = false := by
            simpa [Session.awaits, Session.sent, hsent] using hij
          exact h.apart j stage hcall' hbefore
      · intro access hmem
        rcases List.mem_cons.mp hmem with rfl | hmem
        · exact ⟨issuedAt, rfl⟩
        · exact h.received access hmem
    · cases hstep
  · cases hstep

/-- The requests stay and are joined by others. -/
theorem Inv.beside (h : Inv cfg a s) {t : TokenExchange.State} (hinner : SingleUse.Inv d t)
    (hown : Own t.toLedger s.session)
    (huntouched : ∀ hash ∈ s.session.hashes.head?, Untouched hash s.store t.store)
    (hcalls : ∀ (i : ℕ) (stage : Stage), s.calls[i]? = some stage → t.calls[i]? = some stage)
    (hnew : ∀ (i : ℕ) (stage : Stage), t.calls[i]? = some stage →
      s.calls[i]? = some stage ∨ Apart d s.session stage) :
    Inv cfg a { toState := t, session := s.session } where
  inner := hinner
  own := hown
  turn := by
    have hturn := h.turn
    simp only [InTurn] at hturn ⊢
    split at hturn
    · exact hturn
    · exact hturn.frame huntouched
    · obtain ⟨stage, hcall, hcourse⟩ := hturn
      exact ⟨stage, hcalls _ _ hcall, hcourse.frame huntouched⟩
    · exact hturn.elim
  apart i stage hcall hawaits :=
    (hnew i stage hcall).elim (fun hold => h.apart i stage hold hawaits) id
  received := h.received

theorem head?_mem {h : String} {s : Session} (hhead : h ∈ s.hashes.head?) : h ∈ s.hashes :=
  List.mem_of_mem_head? hhead

theorem inv_proceed (h : Inv cfg a s) {i : ℕ} {stage : Stage} (hcall : s.calls[i]? = some stage)
    (hinner : SingleUse.Inv d (TokenExchange.proceed d cfg s.toState i env stage))
    (hfresh : fresh d env s.toLedger stage = true)
    (hund : Undisturbed d s (.server (.proceed i env))) :
    Inv cfg a { toState := TokenExchange.proceed d cfg s.toState i env stage
                session := s.follow d cfg (.proceed i env) } := by
  have hi : i < s.calls.length := (List.getElem?_eq_some_iff.mp hcall).1
  have hready := h.inner.ready i stage hcall
  have hstage := hund stage hcall
  have hnext {j : ℕ} {stage' : Stage}
      (hcall' : (s.calls.set i (advance d cfg env s.toLedger stage).2)[j]? = some stage') :
      (i = j ∧ stage' = (advance d cfg env s.toLedger stage).2) ∨
        i ≠ j ∧ s.calls[j]? = some stage' := by
    by_cases hij : i = j
    · subst hij
      exact .inl ⟨rfl, by simpa [hi, eq_comm] using hcall'⟩
    · exact .inr ⟨hij, by simpa [List.getElem?_set_ne hij] using hcall'⟩
  cases hown : s.session.awaits i with
  | true =>
    simp only [hown, if_true] at hstage
    have hturn := h.turn
    simp only [State.follow, hcall, hown, if_true]
    obtain ⟨c, hsent⟩ := sent_of_awaits hown
    simp only [InTurn, hsent] at hturn
    obtain ⟨stage', hcall', hcourse⟩ := hturn
    obtain rfl : stage = stage' := Option.some.inj (hcall.symm.trans hcall')
    obtain ⟨hown', hcourse'⟩ := advance_carried h.inner.sound h.own hcourse hstage hfresh
    have hturn' : (s.session.after d cfg env stage).turn = .sent i c := by
      rw [← hsent]
      cases stage <;> rfl
    have hreceived : (s.session.after d cfg env stage).received = s.session.received := by
      cases stage <;> rfl
    refine ⟨hinner, ⟨hown'.hashes, hown'.family, hown'.rows⟩, ?_, fun k stage' hcall' hawaits => ?_,
      fun access hmem => h.received access (hreceived ▸ hmem)⟩
    · simp only [InTurn, hturn']
      refine ⟨(advance d cfg env s.toLedger stage).2, by simp [TokenExchange.proceed, hi], ?_⟩
      exact hcourse'.frame fun _ _ => .refl _ _
    · rcases hnext hcall' with ⟨rfl, -⟩ | ⟨hne, hcall'⟩
      · simp [Session.awaits, Session.sent, hturn'] at hawaits
      · have hbefore : s.session.awaits k = false := by
          simpa [Session.awaits, Session.sent, hsent] using hne
        exact (h.apart k stage' hcall' hbefore).after (h.inner.ready k stage' hcall') hfresh
  | false =>
    simp only [hown, if_false, Bool.false_eq_true] at hstage
    simp only [State.follow, hcall, hown, if_false, Bool.false_eq_true]
    obtain ⟨hown', huntouched, hapart⟩ :=
      advance_spared h.own hready (h.apart i stage hcall hown) hstage hfresh
    have hturn := h.turn
    refine ⟨hinner, ⟨hown'.hashes, hown'.family, hown'.rows⟩, ?_, fun k stage' hcall' hawaits => ?_,
      h.received⟩
    · simp only [InTurn] at hturn ⊢
      split at hturn
      · exact hturn
      · exact hturn.frame fun hash hhead => huntouched hash (head?_mem hhead)
      · next j c hsent =>
        obtain ⟨stage', hcall', hcourse⟩ := hturn
        have hne : i ≠ j := by
          rintro rfl
          simp [Session.awaits, Session.sent, hsent] at hown
        refine ⟨stage', by simpa [TokenExchange.proceed, List.getElem?_set_ne hne] using hcall', ?_⟩
        exact hcourse.frame fun hash hhead => huntouched hash (head?_mem hhead)
      · exact hturn.elim
    · rcases hnext hcall' with ⟨rfl, rfl⟩ | ⟨-, hcall'⟩
      · exact hapart
      · exact h.apart k stage' hcall' hawaits

private theorem inv_server (h : Inv cfg a s) {act : TokenExchange.Action}
    (hund : Undisturbed d s (.server act)) (hstep : step cfg a s (.server act) = some t) :
    Inv cfg a t := by
  obtain ⟨t', ht', rfl⟩ := Option.map_eq_some_iff.mp hstep
  have hinner := SingleUse.inv_step h.inner ht'
  cases act with
  | saveCode row fate =>
    simp only [TokenExchange.step, Bool.or_eq_true, decide_eq_true_eq,
      Option.ite_none_left_eq_some, Option.some.injEq, not_or] at ht'
    obtain ⟨⟨hnew, -⟩, rfl⟩ := ht'
    have hne : row.hash ∉ s.session.hashes := fun hmem => hnew (h.own.hashes _ hmem)
    refine h.beside hinner ⟨fun hash hmem => ?_, h.own.family, fun r hr => ?_⟩
      (fun hash hhead => ?_) (fun _ _ hcall => hcall) (fun _ _ hcall => .inl hcall)
    · exact List.mem_cons_of_mem _ (h.own.hashes hash hmem)
    · exact h.own.rows r (by simpa using hr)
    · exact untouched_putCode (fun heq => hne (heq ▸ head?_mem hhead)) _ _
  | register clients =>
    obtain rfl := Option.some.inj ht'
    exact h.beside hinner ⟨h.own.hashes, h.own.family, h.own.rows⟩
      (fun _ _ => ⟨fun _ _ => Iff.rfl, fun _ _ => Iff.rfl⟩) (fun _ _ hcall => hcall)
      (fun _ _ hcall => .inl hcall)
  | request req =>
    obtain rfl := Option.some.inj ht'
    refine h.beside hinner ⟨h.own.hashes, h.own.family, h.own.rows⟩ (fun _ _ => .refl _ _)
      (fun i stage hcall => ?_) fun i stage hcall => ?_
    · have hi := (List.getElem?_eq_some_iff.mp hcall).1
      exact (List.getElem?_append_left hi).trans hcall
    · rcases getElem?_append_one hcall with hcall | ⟨-, rfl⟩
      · exact .inl hcall
      · exact .inr trivial
  | proceed i env =>
    simp only [TokenExchange.step] at ht'
    split at ht'
    · cases ht'
    · next stage hcall =>
      split_ifs at ht' with hwaits hfresh
      obtain rfl := Option.some.inj ht'
      exact inv_proceed h hcall hinner hfresh hund
  | remove hashes =>
    obtain rfl := Option.some.inj ht'
    refine h.beside hinner ⟨h.own.hashes, h.own.family, fun r hr => ?_⟩ (fun hash hhead => ?_)
      (fun _ _ hcall => hcall) (fun _ _ hcall => .inl hcall)
    · exact h.own.rows r (List.mem_of_mem_filter hr)
    · have hkept := hund hash hhead
      constructor <;> rintro r rfl <;> simp [Store.remove, hkept]
  | restart version =>
    simp only [TokenExchange.step, Option.ite_none_right_eq_some, Option.some.injEq] at ht'
    obtain ⟨-, rfl⟩ := ht'
    have hturn := h.turn
    refine ⟨hinner, ⟨h.own.hashes, h.own.family, h.own.rows⟩, ?_, fun i stage hcall => by
      simp at hcall, h.received⟩
    simp only [InTurn, State.follow] at hturn ⊢
    split at hturn
    · exact hturn
    · exact hturn.frame fun _ _ => ⟨fun _ _ => Iff.rfl, fun _ _ => Iff.rfl⟩
    · next i c hsent =>
      have hsent' : s.session.sent = some i := by simp only [Session.sent, hsent]
      exact absurd (hsent'.symm.trans hund) (by simp)
    · exact hturn.elim

theorem inv_step (h : Inv cfg a s) {act : Action} (hund : Undisturbed d s act)
    (hstep : step cfg a s act = some t) : Inv cfg a t := by
  cases act with
  | consent => exact inv_consent h hstep
  | present => exact inv_present h hstep
  | receive => exact inv_receive h hstep
  | server act => exact inv_server h hund hstep

theorem inv_start : Inv cfg a {} where
  inner := SingleUse.inv_init
  own := ⟨by simp, by simp, by simp⟩
  turn := ⟨rfl, rfl⟩
  apart i stage hcall := by simp at hcall
  received := by simp

/-- In a run in which nobody else presents a secret of the application, what the endpoint answers
it are tokens with its grant. -/
theorem session_served {as : List Action} (hund : Along (step cfg a) (Undisturbed d) {} as)
    (hrun : exec (step cfg a) {} as = some t) :
    t.session.turn ≠ .refused ∧ ∀ access ∈ t.session.received, ∃ issuedAt,
      access = signAccessToken cfg issuedAt a.row.grant := by
  have hinv : Inv cfg a t :=
    exec_guarded (fun s act t h hund hstep => inv_step h hund hstep) hund hrun inv_start
  refine ⟨fun hrefused => ?_, hinv.received⟩
  have hturn := hinv.turn
  simp only [InTurn, hrefused] at hturn

def sampleDigests : Digests := DelegatedAccess.sampleConfig.digests

/-- The assistant, with the code that the user's consent gives it. -/
def assistant : App sampleDigests where
  clientID := "assistant"
  clientSecret := "BQUFBQUFBQUFBQUFBQUFBQUFBQUFBQUFBQUFBQUFBQU"
  code := "AQEBAQEBAQEBAQEBAQEBAQEBAQEBAQEBAQEBAQEBAQE"
  redirectURI := "https://chat.example/callback"
  verifier := "BAQEBAQEBAQEBAQEBAQEBAQEBAQEBAQEBAQEBAQEBAQ"
  row :=
    { hash := "56d5fa7333f6d747db42c239407e5da4c32f4c79f35d092b134fd35a402d9c5c"
      grant := ⟨"assistant", 7, "analytics:read", "https://stats.example/mcp", [1]⟩
      redirectURI := "https://chat.example/callback"
      codeChallenge := "T2o7tabHLReFa-FfYudH74jfgTnww4QRyFARZMHBvdg"
      expiresAt := 163 }
  codeGiven := by decide
  hash := by decide +kernel
  unused := rfl
  bound client hid := by
    have hclient : client.id = "assistant" := hid
    have hpkce : verifyPKCE sampleDigests "T2o7tabHLReFa-FfYudH74jfgTnww4QRyFARZMHBvdg"
        "BAQEBAQEBAQEBAQEBAQEBAQEBAQEBAQEBAQEBAQEBAQ" = true := by decide +kernel
    simp [bindsCode, hclient, exactRedirectMatch, hpkce]

/-- Somebody tries a refresh token that is none, and holds the mutex while the assistant waits
for it with its code; then the assistant refreshes. -/
def assistantIsServed : List Action :=
  [.server (.register DelegatedAccess.annsSite.oauth.clients), .consent,
    .server (.request (DelegatedAccess.assistantRequest (.refreshToken assistant.clientSecret))),
    .present,
    .server (.proceed 0 { now := 104, raw := "guess" }),
    .server (.proceed 1 { now := 104, raw := "unused" }),
    .server (.proceed 0 { now := 104 }),
    .server (.proceed 0 { now := 104 })] ++
    List.replicate 5 (.server (.proceed 1
      { now := 104, raw := "AgICAgICAgICAgICAgICAgICAgICAgICAgICAgICAgI", familyID := 3 })) ++
    [.receive, .present] ++
    List.replicate 6 (.server (.proceed 2
      { now := 105, raw := "AwMDAwMDAwMDAwMDAwMDAwMDAwMDAwMDAwMDAwMDAwM" })) ++
    [.receive]

theorem session_served_assistant :
    ∃ t, exec (step DelegatedAccess.sampleConfig.oauth assistant) {} assistantIsServed = some t ∧
      t.session.received.length = 2 ∧ t.session.turn ≠ .refused ∧
      ∀ access ∈ t.session.received, ∃ issuedAt,
        access = signAccessToken DelegatedAccess.sampleConfig.oauth issuedAt
          ⟨"assistant", 7, "analytics:read", "https://stats.example/mcp", [1]⟩ := by
  have hruns : (exec (step DelegatedAccess.sampleConfig.oauth assistant) {} assistantIsServed).any
      (fun t => t.session.received.length = 2) = true := by decide +kernel
  obtain ⟨t, ht, hreceived⟩ := (Option.any_eq_true _ _).mp hruns
  exact ⟨t, ht, of_decide_eq_true hreceived, session_served (by decide +kernel) ht⟩

end Statnive.HonestSession
