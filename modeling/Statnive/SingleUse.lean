import Statnive.TokenExchange

/-!
# Codes and refresh tokens are spent once

The rows of the tables know what has been spent and which families are dead. A request that
holds the mutex may rely on what it has read, since whoever runs beside it only adds rows of
new secrets and families or removes rows.
-/

namespace Statnive.SingleUse

open OAuthServer TokenExchange LabelledRuns

def Spent (l : Ledger) (source : Source) : Prop := ∃ e ∈ l.log, e.spends source = true

def Killed (l : Ledger) (familyID : ℕ) : Prop := ∃ hash, .reused hash familyID ∈ l.log

def live (r : RefreshRow) : Bool := !r.rotated && !r.familyRevoked

/-- The tables know what has been spent and killed. -/
structure Sound (l : Ledger) : Prop where
  codeVersion : ∀ r ∈ l.store.codes, r.version ≤ l.store.version
  refreshVersion : ∀ r ∈ l.store.refresh, r.version ≤ l.store.version
  codeKnown : ∀ r ∈ l.store.codes, r.hash ∈ l.hashes
  refreshKnown : ∀ r ∈ l.store.refresh, r.hash ∈ l.hashes ∧ r.familyID ∈ l.families
  refreshKeys : (l.store.refresh.map RefreshRow.hash).Nodup
  consumed : ∀ hash, Spent l (.code hash) →
    hash ∈ l.hashes ∧ ∀ r ∈ l.store.codes, r.hash = hash → r.consumed = true
  rotated : ∀ hash, Spent l (.refresh hash) →
    hash ∈ l.hashes ∧ ∀ r ∈ l.store.refresh, r.hash = hash → r.rotated = true
  killed : ∀ familyID, Killed l familyID →
    familyID ∈ l.families ∧ ∀ r ∈ l.store.refresh, r.familyID = familyID → r.familyRevoked = true
  oneLive : ∀ r ∈ l.store.refresh, ∀ r' ∈ l.store.refresh, r.familyID = r'.familyID →
    live r = true → live r' = true → r.hash = r'.hash

/-- No token of a family is rotated after a reuse of one is reported. -/
def DeadAfterReuse (log : List Event) : Prop :=
  log.Pairwise (fun e e' => ∀ hash hash' familyID,
    e = .reused hash familyID → e' ≠ .rotated hash' familyID)

/-- What a request that holds the mutex relies on. -/
def Ready (d : Digests) (l : Ledger) : Stage → Prop
  | .burnCode _ c => c.hash ∈ l.hashes ∧ ¬ Spent l (.code c.hash)
  | .selectFamily _ familyID => familyID ∈ l.families
  | .revokeMembers _ familyID members => familyID ∈ l.families ∧
      (∀ m ∈ members, m.familyID = familyID ∧ m.hash ∈ l.hashes ∧
        (Spent l (.refresh m.hash) → m.rotated = true)) ∧
      ∀ r ∈ l.store.refresh, r.familyID = familyID →
        r.familyRevoked = true ∨ ∃ m ∈ members, m.hash = r.hash
  | .markRotated x t => d.hashToken x.old ∈ l.hashes ∧ t.familyID ∈ l.families ∧
      ¬ Spent l (.refresh (d.hashToken x.old)) ∧ ¬ Killed l t.familyID ∧
      ∀ r ∈ l.store.refresh, r.familyID = t.familyID → live r = true → r.hash = d.hashToken x.old
  | .saveSuccessor x t => d.hashToken x.old ∈ l.hashes ∧ t.familyID ∈ l.families ∧
      ¬ Spent l (.refresh (d.hashToken x.old)) ∧ ¬ Killed l t.familyID ∧
      (∀ r ∈ l.store.refresh, r.familyID = t.familyID → live r = false) ∧
      ∀ r ∈ l.store.refresh, r.hash = d.hashToken x.old → r.rotated = true
  | _ => True

structure Inv (d : Digests) (s : State) : Prop where
  sound : Sound s.toLedger
  holder : ∀ (i : ℕ) (stage : Stage), s.calls[i]? = some stage → stage.holds = true →
    s.lock = some i
  ready : ∀ (i : ℕ) (stage : Stage), s.calls[i]? = some stage → Ready d s.toLedger stage
  once : ∀ source, s.log.countP (Event.spends source) ≤ 1
  issued : ∀ source, s.log.count (.issued source) + s.calls.countP (Stage.owes source) ≤
    s.log.countP (Event.spends source)
  dead : DeadAfterReuse s.log

variable {d : Digests} {cfg : Config} {env : Env} {l l' : Ledger} {s t : State}

theorem mem_putRefresh {s : Store} {fate : Fate} {row r : RefreshRow}
    (hversion : ∀ r ∈ s.refresh, r.version ≤ s.version) (h : r ∈ (s.putRefresh fate row).refresh) :
    r = { row with version := s.version + 1 } ∨
      r ∈ s.refresh ∧ (fate ≠ .failed → r.hash ≠ row.hash) := by
  by_cases hfailed : fate = .failed
  · simp only [Store.putRefresh, hfailed, if_true] at h
    exact .inr ⟨h, fun hne => absurd hfailed hne⟩
  · simp only [Store.putRefresh, hfailed, if_false] at h
    have hlatest : ∀ old ∈ s.refresh, old.hash = row.hash →
        old.stamp ≤ RefreshRow.stamp { row with version := s.version + 1 } := by
      intro old hold _
      have := hversion old hold
      simp only [RefreshRow.stamp]
      omega
    rcases (ReplacingTable.mem_insert_latest hlatest r).mp h with hr | ⟨hr, hne⟩
    · exact .inl hr
    · exact .inr ⟨hr, fun _ => hne⟩

theorem mem_putCode {s : Store} {fate : Fate} {row r : CodeRow}
    (hversion : ∀ r ∈ s.codes, r.version ≤ s.version) (h : r ∈ (s.putCode fate row).codes) :
    r = { row with version := s.version + 1 } ∨
      r ∈ s.codes ∧ (fate ≠ .failed → r.hash ≠ row.hash) := by
  by_cases hfailed : fate = .failed
  · simp only [Store.putCode, hfailed, if_true] at h
    exact .inr ⟨h, fun hne => absurd hfailed hne⟩
  · simp only [Store.putCode, hfailed, if_false] at h
    have hlatest : ∀ old ∈ s.codes, old.hash = row.hash →
        old.stamp ≤ CodeRow.stamp { row with version := s.version + 1 } := by
      intro old hold _
      have := hversion old hold
      simp only [CodeRow.stamp]
      omega
    rcases (ReplacingTable.mem_insert_latest hlatest r).mp h with hr | ⟨hr, hne⟩
    · exact .inl hr
    · exact .inr ⟨hr, fun _ => hne⟩

@[simp] theorem putRefresh_codes (s : Store) (fate : Fate) (row : RefreshRow) :
    (s.putRefresh fate row).codes = s.codes := by
  unfold Store.putRefresh
  split <;> rfl

@[simp] theorem putCode_refresh (s : Store) (fate : Fate) (row : CodeRow) :
    (s.putCode fate row).refresh = s.refresh := by
  unfold Store.putCode
  split <;> rfl

@[simp] theorem putRefresh_version (s : Store) (fate : Fate) (row : RefreshRow) :
    (s.putRefresh fate row).version = s.version + 1 := by
  unfold Store.putRefresh
  split <;> rfl

@[simp] theorem putCode_version (s : Store) (fate : Fate) (row : CodeRow) :
    (s.putCode fate row).version = s.version + 1 := by
  unfold Store.putCode
  split <;> rfl

/-- The insert of a row keeps the books sound when the row knows what is spent and killed and,
where it is live, is the only live one of its family. -/
theorem Sound.putRefresh (h : Sound l) (fate : Fate) {row : RefreshRow} {hashes : List String}
    {families : List ℕ} (hhashes : l.hashes ⊆ hashes) (hfamilies : l.families ⊆ families)
    (hknown : row.hash ∈ hashes ∧ row.familyID ∈ families)
    (hrotated : Spent l (.refresh row.hash) → row.rotated = true)
    (hkilled : Killed l row.familyID → row.familyRevoked = true)
    (hlive : live row = true → ∀ r ∈ l.store.refresh, r.familyID = row.familyID →
      live r = true → r.hash = row.hash) :
    Sound { l with
      store := l.store.putRefresh fate row, hashes := hashes, families := families } where
  codeVersion r hr := by
    have := h.codeVersion r (by simpa using hr)
    simp only [putRefresh_version]
    omega
  refreshVersion r hr := by
    rcases mem_putRefresh h.refreshVersion hr with rfl | ⟨hr, -⟩
    · simp
    · have := h.refreshVersion r hr
      simp only [putRefresh_version]
      omega
  codeKnown r hr := hhashes (h.codeKnown r (by simpa using hr))
  refreshKnown r hr := by
    rcases mem_putRefresh h.refreshVersion hr with rfl | ⟨hr, -⟩
    · exact hknown
    · exact ⟨hhashes (h.refreshKnown r hr).1, hfamilies (h.refreshKnown r hr).2⟩
  refreshKeys := by
    by_cases hfailed : fate = .failed
    · simpa [Store.putRefresh, hfailed] using h.refreshKeys
    · simpa [Store.putRefresh, hfailed] using ReplacingTable.nodup_insert h.refreshKeys
  consumed hash hspent := by
    obtain ⟨hmem, hrows⟩ := h.consumed hash hspent
    exact ⟨hhashes hmem, fun r hr => hrows r (by simpa using hr)⟩
  rotated hash hspent := by
    obtain ⟨hmem, hrows⟩ := h.rotated hash hspent
    refine ⟨hhashes hmem, fun r hr hhash => ?_⟩
    rcases mem_putRefresh h.refreshVersion hr with rfl | ⟨hr, -⟩
    · exact hrotated (hhash ▸ hspent)
    · exact hrows r hr hhash
  killed familyID hkill := by
    obtain ⟨hmem, hrows⟩ := h.killed familyID hkill
    refine ⟨hfamilies hmem, fun r hr hfamily => ?_⟩
    rcases mem_putRefresh h.refreshVersion hr with rfl | ⟨hr, -⟩
    · exact hkilled (hfamily ▸ hkill)
    · exact hrows r hr hfamily
  oneLive r hr r' hr' hfamily hliver hliver' := by
    rcases mem_putRefresh h.refreshVersion hr with rfl | ⟨hr, -⟩ <;>
      rcases mem_putRefresh h.refreshVersion hr' with rfl | ⟨hr', -⟩
    · rfl
    · exact (hlive hliver r' hr' hfamily.symm hliver').symm
    · exact hlive hliver' r hr hfamily hliver
    · exact h.oneLive r hr r' hr' hfamily hliver hliver'

theorem Sound.putCode (h : Sound l) (fate : Fate) {row : CodeRow} {hashes : List String}
    (hhashes : l.hashes ⊆ hashes) (hknown : row.hash ∈ hashes)
    (hconsumed : Spent l (.code row.hash) → row.consumed = true) :
    Sound { l with store := l.store.putCode fate row, hashes := hashes } where
  codeVersion r hr := by
    rcases mem_putCode h.codeVersion hr with rfl | ⟨hr, -⟩
    · simp
    · have := h.codeVersion r hr
      simp only [putCode_version]
      omega
  refreshVersion r hr := by
    have := h.refreshVersion r (by simpa using hr)
    simp only [putCode_version]
    omega
  codeKnown r hr := by
    rcases mem_putCode h.codeVersion hr with rfl | ⟨hr, -⟩
    · exact hknown
    · exact hhashes (h.codeKnown r hr)
  refreshKnown r hr := by
    have hr := h.refreshKnown r (by simpa using hr)
    exact ⟨hhashes hr.1, hr.2⟩
  refreshKeys := by simpa using h.refreshKeys
  consumed hash hspent := by
    obtain ⟨hmem, hrows⟩ := h.consumed hash hspent
    refine ⟨hhashes hmem, fun r hr hhash => ?_⟩
    rcases mem_putCode h.codeVersion hr with rfl | ⟨hr, -⟩
    · exact hconsumed (hhash ▸ hspent)
    · exact hrows r hr hhash
  rotated hash hspent := by
    obtain ⟨hmem, hrows⟩ := h.rotated hash hspent
    exact ⟨hhashes hmem, fun r hr => hrows r (by simpa using hr)⟩
  killed familyID hkill := by
    obtain ⟨hmem, hrows⟩ := h.killed familyID hkill
    exact ⟨hmem, fun r hr => hrows r (by simpa using hr)⟩
  oneLive r hr r' hr' := h.oneLive r (by simpa using hr) r' (by simpa using hr')

theorem spent_record {e : Event} {source : Source} :
    Spent (l.record e) source ↔ Spent l source ∨ e.spends source = true := by
  simp [Spent, Ledger.record, or_and_right, exists_or]

private theorem killed_record {e : Event} {familyID : ℕ} :
    Killed (l.record e) familyID ↔ Killed l familyID ∨ ∃ hash, e = .reused hash familyID := by
  simp [Killed, Ledger.record, exists_or, eq_comm]

theorem Sound.record (h : Sound l) {e : Event}
    (hconsumed : ∀ hash, e.spends (.code hash) = true →
      hash ∈ l.hashes ∧ ∀ r ∈ l.store.codes, r.hash = hash → r.consumed = true)
    (hrotated : ∀ hash, e.spends (.refresh hash) = true →
      hash ∈ l.hashes ∧ ∀ r ∈ l.store.refresh, r.hash = hash → r.rotated = true)
    (hkilled : ∀ hash familyID, e = .reused hash familyID → familyID ∈ l.families ∧
      ∀ r ∈ l.store.refresh, r.familyID = familyID → r.familyRevoked = true) :
    Sound (l.record e) where
  codeVersion := h.codeVersion
  refreshVersion := h.refreshVersion
  codeKnown := h.codeKnown
  refreshKnown := h.refreshKnown
  refreshKeys := h.refreshKeys
  consumed hash hspent := (spent_record.mp hspent).elim (h.consumed hash) (hconsumed hash)
  rotated hash hspent := (spent_record.mp hspent).elim (h.rotated hash) (hrotated hash)
  killed familyID hkill := by
    rcases killed_record.mp hkill with hkill | ⟨hash, he⟩
    · exact h.killed familyID hkill
    · exact hkilled hash familyID he
  oneLive := h.oneLive

theorem checkCode_ok {s : Store} {hash : String} {c : CodeRow}
    (h : checkCode env s hash = .ok c) :
    c ∈ s.codes ∧ c.hash = hash ∧ c.consumed = false := by
  unfold checkCode at h
  split at h
  · simp at h
  · split at h
    · simp at h
    · next found hfind =>
      split_ifs at h with hconsumed hexpired
      obtain rfl := Except.ok.inj h
      exact ⟨List.mem_of_find?_eq_some hfind, by simpa using List.find?_some hfind,
        by simpa using hconsumed⟩

theorem selectRefresh_ok {s : Store} {hash : String} {r : RefreshRow}
    (h : selectRefresh env s hash = .ok r) : r ∈ s.refresh ∧ r.hash = hash := by
  unfold selectRefresh at h
  split at h
  · simp at h
  · split at h
    · simp at h
    · next found hfind =>
      obtain rfl := Except.ok.inj h
      exact ⟨List.mem_of_find?_eq_some hfind, by simpa using List.find?_some hfind⟩

/-- Where every row of the family is revoked, or none is live, another one may be written. -/
theorem advance_sound (h : Sound l) {stage : Stage} (hready : Ready d l stage)
    (hfresh : fresh d env l stage = true) : Sound (advance d cfg env l stage).1 := by
  cases stage with
  | authenticate req =>
    simp only [advance]
    split <;> exact h
  | lockCode x | lockRefresh x | returned reply => exact h
  | selectCode x =>
    simp only [advance]
    split <;> exact h
  | burnCode x c =>
    obtain ⟨hknown, -⟩ := hready
    have hburnt : Sound { l with
        store := l.store.putCode (env.fate .burnCode) { c with consumed := true } } :=
      h.putCode _ (List.Subset.refl _) hknown fun _ => rfl
    simp only [advance]
    split
    · next hok =>
      refine hburnt.record (fun hash he => ?_) (fun hash he => by simp [Event.spends] at he)
        (fun hash familyID he => by simp at he)
      obtain rfl : c.hash = hash := by simpa [Event.spends] using he
      refine ⟨hknown, fun r hr hhash => ?_⟩
      rcases mem_putCode h.codeVersion hr with rfl | ⟨-, hne⟩
      · rfl
      · exact absurd hhash (hne (by simp [hok]))
    · exact hburnt
  | saveRefresh source g =>
    simp only [fresh, Bool.and_eq_true, decide_eq_true_eq] at hfresh
    refine h.putRefresh _ (List.subset_cons_self _ _) (List.subset_cons_self _ _)
      ⟨List.mem_cons_self, List.mem_cons_self⟩ (fun hspent => ?_) (fun hkill => ?_) ?_
    · exact absurd (h.rotated _ hspent).1 hfresh.1
    · exact absurd (h.killed _ hkill).1 hfresh.2
    · intro _ r hr hfamily
      have hfamily : r.familyID = env.familyID := hfamily
      exact absurd (hfamily ▸ (h.refreshKnown r hr).2) hfresh.2
  | selectRefresh x =>
    simp only [advance]
    split <;> exact h
  | selectFamily hash familyID =>
    simp only [advance]
    split <;> exact h
  | revokeMembers hash familyID members =>
    obtain ⟨hknown, hmembers, hall⟩ := hready
    cases members with
    | nil =>
      refine h.record (fun hash he => by simp [Event.spends] at he)
        (fun hash he => by simp [Event.spends] at he) (fun hash' familyID' he => ?_)
      obtain ⟨-, rfl⟩ := Event.reused.inj he
      exact ⟨hknown, fun r hr hfamily => by simpa using hall r hr hfamily⟩
    | cons m members =>
      obtain ⟨rfl, hhash, hrotated⟩ := hmembers m List.mem_cons_self
      exact h.putRefresh _ (List.Subset.refl _) (List.Subset.refl _) ⟨hhash, hknown⟩ hrotated
        (fun _ => rfl) fun hlive => by simp [live] at hlive
  | markRotated x t =>
    obtain ⟨hhash, hfamily, -, hkill, -⟩ := hready
    exact h.putRefresh _ (List.Subset.refl _) (List.Subset.refl _) ⟨hhash, hfamily⟩ (fun _ => rfl)
      (fun hk => absurd hk hkill) fun hlive => by simp [live] at hlive
  | saveSuccessor x t =>
    obtain ⟨hhash, hfamily, -, hkill, hdead, hrows⟩ := hready
    simp only [fresh, decide_eq_true_eq] at hfresh
    have hsaved : Sound { l with
        store := l.store.putRefresh (env.fate .saveSuccessor)
          { t with hash := d.hashToken x.raw, rotated := false, familyRevoked := false }
        hashes := d.hashToken x.raw :: l.hashes } := by
      refine h.putRefresh _ (List.subset_cons_self _ _) (List.Subset.refl _)
        ⟨List.mem_cons_self, hfamily⟩ (fun hspent => ?_) (fun hk => absurd hk hkill) ?_
      · exact absurd (h.rotated _ hspent).1 hfresh
      · intro _ r hr hsame hlive
        simp [hdead r hr hsame] at hlive
    simp only [advance]
    split
    · refine hsaved.record (fun hash he => by simp [Event.spends] at he) (fun hash he => ?_)
        (fun hash familyID he => by simp at he)
      obtain rfl : d.hashToken x.old = hash := by simpa [Event.spends] using he
      refine ⟨List.mem_cons_of_mem _ hhash, fun r hr hsame => ?_⟩
      rcases mem_putRefresh h.refreshVersion hr with rfl | ⟨hr, -⟩
      · have hsame : d.hashToken x.raw = d.hashToken x.old := hsame
        exact absurd (hsame ▸ hhash) hfresh
      · exact hrows r hr hsame
    · exact hsaved
  | sign source g raw =>
    simp only [advance]
    split
    · exact h.record (fun hash he => by simp [Event.spends] at he)
        (fun hash he => by simp [Event.spends] at he) (fun hash familyID he => by simp at he)
    · exact h

theorem dispatch_holds (env : Env) (client : Client) (grant : TokenGrant) :
    (dispatch env client grant).holds = false := by
  cases grant with
  | authorizationCode code redirectURI verifier =>
    simp only [dispatch]
    split <;> rfl
  | refreshToken old =>
    simp only [dispatch]
    split <;> rfl
  | other => rfl

private theorem dispatch_owes (env : Env) (client : Client) (grant : TokenGrant) (source : Source) :
    (dispatch env client grant).owes source = false := by
  cases grant with
  | authorizationCode code redirectURI verifier =>
    simp only [dispatch]
    split <;> rfl
  | refreshToken old =>
    simp only [dispatch]
    split <;> rfl
  | other => rfl

theorem ready_of_not_holds {stage : Stage} (h : stage.holds = false) : Ready d l stage := by
  cases stage with
  | burnCode | selectFamily | revokeMembers | markRotated | saveSuccessor =>
    simp [Stage.holds] at h
  | _ => trivial

private theorem mem_refresh_of_live {s : Store} {fate : Fate} {row r : RefreshRow}
    (hversion : ∀ r ∈ s.refresh, r.version ≤ s.version) (hrow : live row = false)
    (h : r ∈ (s.putRefresh fate row).refresh) (hlive : live r = true) :
    r ∈ s.refresh ∧ (fate ≠ .failed → r.hash ≠ row.hash) := by
  rcases mem_putRefresh hversion h with rfl | hr
  · exact absurd (hlive.symm.trans hrow) (by simp)
  · exact hr

/-- The query that follows may rely on what this one has read and written. -/
theorem advance_ready (h : Sound l) {stage : Stage} (hready : Ready d l stage) :
    Ready d (advance d cfg env l stage).1 (advance d cfg env l stage).2 := by
  cases stage with
  | authenticate req =>
    simp only [advance]
    split
    · trivial
    · exact ready_of_not_holds (dispatch_holds env _ _)
  | lockCode x | lockRefresh x | returned reply => trivial
  | selectCode x =>
    simp only [advance]
    split
    · trivial
    · next c hcheck =>
      obtain ⟨hmem, -, hunused⟩ := checkCode_ok hcheck
      refine ⟨h.codeKnown c hmem, fun hspent => ?_⟩
      rw [(h.consumed _ hspent).2 c hmem rfl] at hunused
      simp at hunused
  | burnCode x c =>
    simp only [advance]
    split
    · simp only [bound]
      split <;> trivial
    · trivial
  | saveRefresh source g =>
    simp only [advance]
    split <;> trivial
  | selectRefresh x =>
    simp only [advance]
    split
    · trivial
    · next t hselect =>
      obtain ⟨hmem, hhash⟩ := selectRefresh_ok hselect
      simp only [checkRefresh]
      split_ifs with hreused hexpired
      · exact (h.refreshKnown t hmem).2
      · trivial
      · have hlive : live t = true := by
          simp only [RefreshRow.reused, Bool.or_eq_true, not_or, Bool.not_eq_true] at hreused
          simp [live, hreused.1]
        refine ⟨hhash ▸ (h.refreshKnown t hmem).1, (h.refreshKnown t hmem).2, fun hspent => ?_,
          fun hkill => ?_, fun r hr hfamily hlive' => ?_⟩
        · simp [live, (h.rotated _ hspent).2 t hmem hhash] at hlive
        · simp [live, (h.killed _ hkill).2 t hmem rfl] at hlive
        · exact (h.oneLive r hr t hmem hfamily hlive' hlive).trans hhash
  | selectFamily hash familyID =>
    simp only [advance]
    split
    · trivial
    · refine ⟨hready, fun m hm => ?_, fun r hr hfamily => ?_⟩
      · obtain ⟨hmem, hm⟩ := List.mem_filter.mp hm
        simp only [Bool.and_eq_true, decide_eq_true_eq] at hm
        exact ⟨hm.1, (h.refreshKnown m hmem).1, fun hspent => (h.rotated _ hspent).2 m hmem rfl⟩
      · by_cases hrevoked : r.familyRevoked = true
        · exact .inl hrevoked
        · exact .inr ⟨r, List.mem_filter.mpr ⟨hr, by simp [hfamily, hrevoked]⟩, rfl⟩
  | revokeMembers hash familyID members =>
    obtain ⟨hknown, hmembers, hall⟩ := hready
    cases members with
    | nil => trivial
    | cons m members =>
      simp only [advance]
      split
      · next hok =>
        refine ⟨hknown, fun m' hm' => hmembers m' (List.mem_cons_of_mem _ hm'),
          fun r hr hfamily => ?_⟩
        rcases mem_putRefresh h.refreshVersion hr with rfl | ⟨hr, hne⟩
        · exact .inl rfl
        · refine (hall r hr hfamily).imp_right ?_
          rintro ⟨m', hm', hsame⟩
          refine ⟨m', (List.mem_cons.mp hm').resolve_left fun hm => ?_, hsame⟩
          exact hne (by simp [hok]) (hm ▸ hsame.symm)
      · trivial
  | markRotated x t =>
    obtain ⟨hhash, hfamily, hspent, hkill, hlive⟩ := hready
    simp only [advance]
    split
    · next hok =>
      refine ⟨hhash, hfamily, hspent, hkill, fun r hr hsame => ?_, fun r hr hsame => ?_⟩
      · by_contra halive
        have halive : live r = true := by simpa using halive
        obtain ⟨hr, hne⟩ := mem_refresh_of_live h.refreshVersion (by simp [live]) hr halive
        exact hne (by simp [hok]) (hlive r hr hsame halive)
      · rcases mem_putRefresh h.refreshVersion hr with rfl | ⟨-, hne⟩
        · rfl
        · exact absurd hsame (hne (by simp [hok]))
    · trivial
  | saveSuccessor x t =>
    simp only [advance]
    split <;> trivial
  | sign source g raw => trivial

/-- The rows that come are of new secrets and families, and nothing is spent or killed. -/
structure Quiet (l l' : Ledger) : Prop where
  hashes : l.hashes ⊆ l'.hashes
  families : l.families ⊆ l'.families
  log : ∀ e ∈ l'.log, e ∈ l.log ∨ ∃ source, e = .issued source
  refresh : ∀ r ∈ l'.store.refresh, r ∈ l.store.refresh ∨
    r.hash ∉ l.hashes ∧ r.familyID ∉ l.families

theorem Quiet.of_rows {s : Store} {hashes : List String} (hhashes : l.hashes ⊆ hashes)
    (hrows : s.refresh ⊆ l.store.refresh) : Quiet l { l with store := s, hashes := hashes } where
  hashes := hhashes
  families := List.Subset.refl _
  log _ he := .inl he
  refresh _ hr := .inl (hrows hr)

theorem Quiet.spent (h : Quiet l l') {source : Source} (hspent : Spent l' source) :
    Spent l source := by
  obtain ⟨e, he, hspends⟩ := hspent
  rcases h.log e he with he | ⟨source', rfl⟩
  · exact ⟨e, he, hspends⟩
  · simp [Event.spends] at hspends

theorem Quiet.killed (h : Quiet l l') {familyID : ℕ} (hkill : Killed l' familyID) :
    Killed l familyID := by
  obtain ⟨hash, he⟩ := hkill
  rcases h.log _ he with he | ⟨source, he⟩
  · exact ⟨hash, he⟩
  · simp at he

/-- A request that holds the mutex may go on relying on what it has read. -/
theorem Quiet.ready (h : Quiet l l') {stage : Stage} (hready : Ready d l stage) :
    Ready d l' stage := by
  have hsame {r : RefreshRow} {familyID : ℕ} (hknown : familyID ∈ l.families)
      (hr : r ∈ l'.store.refresh) (hfamily : r.familyID = familyID) : r ∈ l.store.refresh :=
    (h.refresh r hr).resolve_right fun hnew => hnew.2 (hfamily ▸ hknown)
  cases stage with
  | burnCode x c => exact ⟨h.hashes hready.1, fun hspent => hready.2 (h.spent hspent)⟩
  | selectFamily hash familyID => exact h.families hready
  | revokeMembers hash familyID members =>
    obtain ⟨hknown, hmembers, hall⟩ := hready
    refine ⟨h.families hknown, fun m hm => ?_, fun r hr hfamily => ?_⟩
    · obtain ⟨hfamily, hhash, hrotated⟩ := hmembers m hm
      exact ⟨hfamily, h.hashes hhash, fun hspent => hrotated (h.spent hspent)⟩
    · exact hall r (hsame hknown hr hfamily) hfamily
  | markRotated x t =>
    obtain ⟨hhash, hfamily, hspent, hkill, hlive⟩ := hready
    exact ⟨h.hashes hhash, h.families hfamily, fun hs => hspent (h.spent hs),
      fun hk => hkill (h.killed hk), fun r hr hf => hlive r (hsame hfamily hr hf) hf⟩
  | saveSuccessor x t =>
    obtain ⟨hhash, hfamily, hspent, hkill, hdead, hrows⟩ := hready
    refine ⟨h.hashes hhash, h.families hfamily, fun hs => hspent (h.spent hs),
      fun hk => hkill (h.killed hk), fun r hr hf => hdead r (hsame hfamily hr hf) hf,
      fun r hr hr' => ?_⟩
    have hmem := (h.refresh r hr).resolve_right fun hnew => hnew.1 (hr' ▸ hhash)
    exact hrows r hmem hr'
  | _ => trivial

private theorem advance_quiet (h : Sound l) {stage : Stage} (hfresh : fresh d env l stage = true)
    (hholds : stage.holds = false) : Quiet l (advance d cfg env l stage).1 := by
  have hrefl : Quiet l l := .of_rows (List.Subset.refl _) (List.Subset.refl _)
  cases stage with
  | authenticate req =>
    simp only [advance]
    split <;> exact hrefl
  | lockCode x | lockRefresh x | returned reply => exact hrefl
  | saveRefresh source g =>
    simp only [fresh, Bool.and_eq_true, decide_eq_true_eq] at hfresh
    refine ⟨List.subset_cons_self _ _, List.subset_cons_self _ _, fun e he => .inl he,
      fun r hr => ?_⟩
    rcases mem_putRefresh h.refreshVersion hr with rfl | ⟨hr, -⟩
    · exact .inr hfresh
    · exact .inl hr
  | sign source g raw =>
    simp only [advance]
    split
    · refine ⟨List.Subset.refl _, List.Subset.refl _, fun e he => ?_, fun r hr => .inl hr⟩
      rcases List.mem_append.mp he with he | he
      · exact .inl he
      · exact .inr ⟨source, List.mem_singleton.mp he⟩
    · exact hrefl
  | _ => simp [Stage.holds] at hholds

private theorem countP_eq_zero_of_not_spent {source : Source} (h : ¬ Spent l source) :
    l.log.countP (Event.spends source) = 0 :=
  List.countP_eq_zero.mpr fun e he hspends => h ⟨e, he, hspends⟩

/-- A pair that is still to be issued stands against what is spent until it is. -/
theorem advance_issued (d : Digests) (cfg : Config) (env : Env) (l : Ledger) (stage : Stage)
    (source : Source) :
    (advance d cfg env l stage).1.log.count (.issued source) +
        ((advance d cfg env l stage).2.owes source).toNat +
        l.log.countP (Event.spends source) ≤
      l.log.count (.issued source) + (stage.owes source).toNat +
        (advance d cfg env l stage).1.log.countP (Event.spends source) := by
  cases stage with
  | authenticate req =>
    simp only [advance]
    split
    · simp [Stage.owes]
    · simp only [dispatch_owes]
      simp [Stage.owes]
  | lockCode x | lockRefresh x | returned reply => simp [advance, Stage.owes]
  | selectCode x =>
    simp only [advance]
    split <;> simp [Stage.owes, invalidCode]
  | burnCode x c =>
    simp only [advance]
    split
    · simp only [bound]
      by_cases hsource : .code c.hash = source
      · split <;> simp [Stage.owes, Ledger.record, Event.spends, hsource]
        omega
      · split <;> simp [Stage.owes, Ledger.record, Event.spends, hsource]
    · simp [Stage.owes, invalidCode]
  | saveRefresh source' g =>
    simp only [advance]
    split <;> simp [Stage.owes]
  | selectRefresh x =>
    simp only [advance]
    split
    · simp [Stage.owes, invalidRefresh]
    · simp only [checkRefresh]
      split_ifs <;> simp [Stage.owes, invalidRefresh]
  | selectFamily hash familyID =>
    simp only [advance]
    split <;> simp [Stage.owes, invalidRefresh]
  | revokeMembers hash familyID members =>
    cases members with
    | nil => simp [advance, Stage.owes, invalidRefresh, Ledger.record, Event.spends]
    | cons m members =>
      simp only [advance]
      split <;> simp [Stage.owes, invalidRefresh]
  | markRotated x t =>
    simp only [advance]
    split <;> simp [Stage.owes, invalidRefresh]
  | saveSuccessor x t =>
    simp only [advance]
    split
    · by_cases hsource : .refresh (d.hashToken x.old) = source
      · simp [Stage.owes, Ledger.record, Event.spends, hsource]
        omega
      · simp [Stage.owes, Ledger.record, Event.spends, hsource]
    · simp [Stage.owes, invalidRefresh]
  | sign source' g raw =>
    simp only [advance]
    split
    · by_cases hsource : source' = source <;>
        simp [Stage.owes, Ledger.record, Event.spends, hsource, List.count_append]
    · simp [Stage.owes]

/-- A query reports nothing, or one event: it spends what is not spent yet and rotates no token
of a dead family. -/
theorem advance_log (cfg : Config) (env : Env) {stage : Stage} (hready : Ready d l stage) :
    (advance d cfg env l stage).1.log = l.log ∨
      ∃ e, (advance d cfg env l stage).1.log = l.log ++ [e] ∧
        (∀ source, e.spends source = true → ¬ Spent l source) ∧
        ∀ hash familyID, e = .rotated hash familyID → ¬ Killed l familyID := by
  cases stage with
  | authenticate req =>
    simp only [advance]
    split <;> exact .inl rfl
  | lockCode x | lockRefresh x | returned reply => exact .inl rfl
  | selectCode x =>
    simp only [advance]
    split <;> exact .inl rfl
  | burnCode x c =>
    simp only [advance]
    split
    · refine .inr ⟨.consumed c.hash, rfl, fun source hspends => ?_, fun _ _ he => by simp at he⟩
      obtain rfl : .code c.hash = source := by simpa [Event.spends] using hspends
      exact hready.2
    · exact .inl rfl
  | saveRefresh source g => exact .inl rfl
  | selectRefresh x =>
    simp only [advance]
    split <;> exact .inl rfl
  | selectFamily hash familyID =>
    simp only [advance]
    split <;> exact .inl rfl
  | revokeMembers hash familyID members =>
    cases members with
    | nil =>
      exact .inr ⟨.reused hash familyID, rfl, fun _ hspends => by simp [Event.spends] at hspends,
        fun _ _ he => by simp at he⟩
    | cons m members => exact .inl rfl
  | markRotated x t => exact .inl rfl
  | saveSuccessor x t =>
    obtain ⟨-, -, hspent, hkill, -⟩ := hready
    simp only [advance]
    split
    · refine .inr ⟨.rotated (d.hashToken x.old) t.familyID, rfl, fun source hspends => ?_,
        fun hash familyID he => ?_⟩
      · obtain rfl : .refresh (d.hashToken x.old) = source := by simpa [Event.spends] using hspends
        exact hspent
      · exact (Event.rotated.inj he).2 ▸ hkill
    · exact .inl rfl
  | sign source g raw =>
    simp only [advance]
    split
    · exact .inr ⟨.issued source, rfl, fun _ hspends => by simp [Event.spends] at hspends,
        fun _ _ he => by simp at he⟩
    · exact .inl rfl

private theorem advance_once {stage : Stage} (hready : Ready d l stage)
    (h : ∀ source, l.log.countP (Event.spends source) ≤ 1) (source : Source) :
    (advance d cfg env l stage).1.log.countP (Event.spends source) ≤ 1 := by
  rcases advance_log cfg env hready with he | ⟨e, he, hnew, -⟩
  · exact he ▸ h source
  · rw [he, List.countP_append, List.countP_singleton]
    split
    · next hspends => rw [countP_eq_zero_of_not_spent (hnew source hspends)]
    · exact h source

private theorem advance_dead {stage : Stage} (hready : Ready d l stage) (h : DeadAfterReuse l.log) :
    DeadAfterReuse (advance d cfg env l stage).1.log := by
  rcases advance_log cfg env hready with he | ⟨e, he, -, hdead⟩
  · exact he ▸ h
  · rw [he]
    refine List.pairwise_append.mpr ⟨h, List.pairwise_singleton _ _, ?_⟩
    rintro _ hmem _ he hash hash' familyID rfl rfl
    exact hdead hash' familyID (List.mem_singleton.mp he).symm ⟨hash, hmem⟩

/-- The mutex is taken by those that wait for it. -/
theorem advance_holds (cfg : Config) (env : Env) (l : Ledger) {stage : Stage}
    (h : (advance d cfg env l stage).2.holds = true) :
    stage.holds = true ∨ stage.waits = true := by
  cases stage with
  | authenticate req =>
    simp only [advance] at h
    split at h
    · simp [Stage.holds] at h
    · simp [dispatch_holds] at h
  | saveRefresh source g =>
    simp only [advance] at h
    split at h <;> simp [Stage.holds] at h
  | sign source g raw | returned reply => simp [advance, Stage.holds] at h
  | lockCode x | lockRefresh x => exact .inr rfl
  | _ => exact .inl rfl

theorem Inv.proceed (h : Inv d s) {i : ℕ} {stage : Stage} (hcall : s.calls[i]? = some stage)
    (hwaits : (stage.waits && s.lock.isSome) = false)
    (hfresh : fresh d env s.toLedger stage = true) : Inv d (proceed d cfg s i env stage) := by
  have hready := h.ready i stage hcall
  have hi : i < s.calls.length := (List.getElem?_eq_some_iff.mp hcall).1
  have hgetElem : s.calls[i] = stage := (List.getElem?_eq_some_iff.mp hcall).2
  -- Another request holds the mutex only where this one neither holds nor takes it.
  have hother {j : ℕ} {stage' : Stage} (hne : i ≠ j) (hcall' : s.calls[j]? = some stage')
      (hholds' : stage'.holds = true) : stage.holds = false ∧
        (advance d cfg env s.toLedger stage).2.holds = false := by
    have hlock := h.holder j stage' hcall' hholds'
    have hnot : stage.holds = false := by
      by_contra hholds
      have hlock' := h.holder i stage hcall (by simpa using hholds)
      exact hne (Option.some.inj (hlock'.symm.trans hlock))
    refine ⟨hnot, ?_⟩
    by_contra hnext
    rcases advance_holds cfg env s.toLedger (by simpa using hnext) with hholds | hwait
    · simp [hnot] at hholds
    · simp [hlock, hwait] at hwaits
  constructor
  · exact advance_sound h.sound hready hfresh
  · intro j stage' hj hholds'
    by_cases hne : i = j
    · subst hne
      obtain rfl : (advance d cfg env s.toLedger stage).2 = stage' := by
        simpa [TokenExchange.proceed, hi] using hj
      simp [TokenExchange.proceed, hholds']
    · have hj : s.calls[j]? = some stage' := by
        simpa [TokenExchange.proceed, List.getElem?_set_ne hne] using hj
      obtain ⟨hnot, hnext⟩ := hother hne hj hholds'
      simpa [TokenExchange.proceed, hnot, hnext] using h.holder j stage' hj hholds'
  · intro j stage' hj
    by_cases hne : i = j
    · subst hne
      obtain rfl : (advance d cfg env s.toLedger stage).2 = stage' := by
        simpa [TokenExchange.proceed, hi] using hj
      exact advance_ready h.sound hready
    · have hj : s.calls[j]? = some stage' := by
        simpa [TokenExchange.proceed, List.getElem?_set_ne hne] using hj
      by_cases hholds' : stage'.holds = true
      · exact (advance_quiet h.sound hfresh (hother hne hj hholds').1).ready (h.ready j stage' hj)
      · exact ready_of_not_holds (by simpa using hholds')
  · exact advance_once hready h.once
  · intro source
    have hstep := advance_issued d cfg env s.toLedger stage source
    have hcount := List.countP_set (p := Stage.owes source)
      (a := (advance d cfg env s.toLedger stage).2) hi
    have hbefore := h.issued source
    have howed : (stage.owes source).toNat ≤ s.calls.countP (Stage.owes source) := by
      by_cases howes : stage.owes source = true
      · simpa [howes] using List.countP_pos_iff.mpr ⟨stage, List.mem_of_getElem? hcall, howes⟩
      · simp [howes]
    have hite (b : Bool) : (if b = true then 1 else 0) = b.toNat := by cases b <;> rfl
    simp only [hgetElem, hite] at hcount
    simp only [TokenExchange.proceed, hcount]
    omega
  · exact advance_dead hready h.dead

/-- Rows are removed, and the counter of versions goes up. -/
theorem Sound.rows (h : Sound l) {s : Store} (hcodes : s.codes ⊆ l.store.codes)
    (hrefresh : s.refresh.Sublist l.store.refresh) (hversion : l.store.version ≤ s.version) :
    Sound { l with store := s } where
  codeVersion r hr := (h.codeVersion r (hcodes hr)).trans hversion
  refreshVersion r hr := (h.refreshVersion r (hrefresh.subset hr)).trans hversion
  codeKnown r hr := h.codeKnown r (hcodes hr)
  refreshKnown r hr := h.refreshKnown r (hrefresh.subset hr)
  refreshKeys := h.refreshKeys.sublist (hrefresh.map _)
  consumed hash hspent :=
    ⟨(h.consumed hash hspent).1, fun r hr => (h.consumed hash hspent).2 r (hcodes hr)⟩
  rotated hash hspent :=
    ⟨(h.rotated hash hspent).1, fun r hr => (h.rotated hash hspent).2 r (hrefresh.subset hr)⟩
  killed familyID hkill :=
    ⟨(h.killed familyID hkill).1, fun r hr => (h.killed familyID hkill).2 r (hrefresh.subset hr)⟩
  oneLive r hr r' hr' := h.oneLive r (hrefresh.subset hr) r' (hrefresh.subset hr')

/-- The requests and the mutex stay as they are, and the log with them. -/
theorem Inv.withRows (h : Inv d s) {store : Store}
    (hsound : Sound { s.toLedger with store := store })
    (hrefresh : store.refresh ⊆ s.store.refresh) : Inv d { s with store := store } where
  sound := hsound
  holder := h.holder
  ready i stage hcall :=
    (Quiet.of_rows (List.Subset.refl _) hrefresh).ready (h.ready i stage hcall)
  once := h.once
  issued := h.issued
  dead := h.dead

theorem inv_step {a : Action} (h : Inv d s) (hstep : step d cfg s a = some t) : Inv d t := by
  cases a with
  | saveCode row fate =>
    simp only [step, Bool.or_eq_true, decide_eq_true_eq, Option.ite_none_left_eq_some,
      Option.some.injEq, not_or] at hstep
    obtain ⟨⟨hnew, -⟩, rfl⟩ := hstep
    have hsound := h.sound.putCode fate (List.subset_cons_self row.hash s.hashes)
      List.mem_cons_self fun hspent => absurd (h.sound.consumed _ hspent).1 hnew
    have hquiet : Quiet s.toLedger { s.toLedger with
        store := s.store.putCode fate row, hashes := row.hash :: s.hashes } :=
      .of_rows (List.subset_cons_self _ _) (by simp)
    exact ⟨hsound, h.holder, fun i stage hcall => hquiet.ready (h.ready i stage hcall), h.once,
      h.issued, h.dead⟩
  | register clients =>
    obtain rfl := Option.some.inj hstep
    exact h.withRows (h.sound.rows (List.Subset.refl _) (List.Sublist.refl _) le_rfl)
      (List.Subset.refl _)
  | request req =>
    obtain rfl := Option.some.inj hstep
    have hcalls {i : ℕ} {stage : Stage}
        (hcall : (s.calls ++ [.authenticate req])[i]? = some stage) :
        s.calls[i]? = some stage ∨ stage = .authenticate req := by
      rcases Nat.lt_or_ge i s.calls.length with hi | hi
      · exact .inl (List.getElem?_append_left hi ▸ hcall)
      · rw [List.getElem?_append_right hi] at hcall
        exact .inr (List.mem_singleton.mp (List.mem_of_getElem? hcall))
    refine ⟨h.sound, fun i stage hcall hholds => ?_, fun i stage hcall => ?_, h.once,
      fun source => by simpa [Stage.owes] using h.issued source, h.dead⟩
    · rcases hcalls hcall with hcall | rfl
      · exact h.holder i stage hcall hholds
      · simp [Stage.holds] at hholds
    · rcases hcalls hcall with hcall | rfl
      · exact h.ready i stage hcall
      · trivial
  | proceed i env =>
    simp only [step] at hstep
    split at hstep
    · simp at hstep
    · next stage hcall =>
      split_ifs at hstep with hwaits hfresh
      obtain rfl := Option.some.inj hstep
      exact h.proceed hcall (by simpa using hwaits) hfresh
  | remove hashes =>
    obtain rfl := Option.some.inj hstep
    exact h.withRows (h.sound.rows List.filter_sublist.subset List.filter_sublist le_rfl)
      List.filter_sublist.subset
  | restart version =>
    simp only [step, Option.ite_none_right_eq_some, Option.some.injEq] at hstep
    obtain ⟨hversion, rfl⟩ := hstep
    refine ⟨h.sound.rows (List.Subset.refl _) (List.Sublist.refl _) hversion,
      fun i stage hcall => by simp at hcall, fun i stage hcall => by simp at hcall, h.once,
      fun source => ?_, h.dead⟩
    have := h.issued source
    simp only [List.countP_nil]
    omega

theorem inv_init : Inv d {} where
  sound := by constructor <;> simp [Spent, Killed]
  holder i stage hcall := by simp at hcall
  ready i stage hcall := by simp at hcall
  once source := by simp
  issued source := by simp
  dead := List.Pairwise.nil

theorem inv_throughout (d : Digests) (cfg : Config) (as : List Action) :
    Throughout (step d cfg) (Inv d) {} as := by
  have hrun {s : State} (h : Inv d s) : Throughout (step d cfg) (Inv d) s as := by
    induction as generalizing s with
    | nil => exact h
    | cons a as ih => exact ⟨h, fun t ht => ih (inv_step h ht)⟩
  exact hrun inv_init

/-- A code leads to one pair of tokens at most, a refresh token is exchanged once at most, and
at most one token of a family can still be exchanged. -/
structure SpentOnce (s : State) : Prop where
  code : ∀ hash, s.log.count (.issued (.code hash)) ≤ 1
  exchanged : ∀ hash, s.log.countP (Event.spends (.refresh hash)) ≤ 1
  refresh : ∀ hash, s.log.count (.issued (.refresh hash)) ≤ 1
  family : ∀ familyID,
    (s.store.refresh.filter (fun r => r.familyID = familyID && live r)).length ≤ 1

private theorem length_le_one_of_nodup {α κ : Type*} {f : α → κ} {rows : List α}
    (hkeys : (rows.map f).Nodup) (hsame : ∀ r ∈ rows, ∀ r' ∈ rows, f r = f r') :
    rows.length ≤ 1 := by
  match rows with
  | [] => simp
  | [_] => simp
  | r :: r' :: rest =>
    have hne : f r ≠ f r' := fun heq => by simp [heq] at hkeys
    exact absurd (hsame r (by simp) r' (by simp)) hne

theorem Inv.spentOnce (h : Inv d s) : SpentOnce s := by
  have hissued (source : Source) : s.log.count (.issued source) ≤ 1 := by
    have := h.issued source
    have := h.once source
    omega
  refine ⟨fun hash => hissued _, fun hash => h.once _, fun hash => hissued _, fun familyID => ?_⟩
  have hkeys := h.sound.refreshKeys.sublist
    (List.filter_sublist (p := fun r => r.familyID = familyID && live r).map RefreshRow.hash)
  refine length_le_one_of_nodup hkeys fun r hr r' hr' => ?_
  simp only [List.mem_filter, Bool.and_eq_true, decide_eq_true_eq] at hr hr'
  exact h.sound.oneLive r hr.1 r' hr'.1 (hr.2.1.trans hr'.2.1.symm) hr.2.2 hr'.2.2

theorem single_use (d : Digests) (cfg : Config) (as : List Action) :
    Throughout (step d cfg) SpentOnce {} as :=
  (inv_throughout d cfg as).mono fun _ h => h.spentOnce

/-- After a reuse is reported no token of the family is exchanged any more. -/
theorem reuse_kills_family (d : Digests) (cfg : Config) (as : List Action) :
    Throughout (step d cfg) (fun s => DeadAfterReuse s.log) {} as :=
  (inv_throughout d cfg as).mono fun _ h => h.dead

end Statnive.SingleUse
