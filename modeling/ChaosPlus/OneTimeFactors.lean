import ChaosPlus.MfaService

/-!
# One-time factors are used once

A factor is consumed by a conditional update of its row, which stays locked until the
transaction ends. Two things are not checked: that the factor is still required when a step
is accepted, and that the update of a step-up challenge has found it open. Where they hold,
every step, code and challenge has at most one success.
-/
namespace OneTimeFactors

open InterleavedTransactions KeyedTable LockedTransactions MfaService MfaStore RowLocks StepRuns
  StatementKinds

variable {setup : Setup} {db after : Db} {wrote : List Write}

/-- Accepted steps increase, a code is redeemed at most once, and a challenge has one session. -/
structure UsedOnce (db : Db) : Prop where
  steps : ∀ principalID row, db.credentials principalID = some row → row.accepted.Pairwise (· < ·)
  codes : ∀ row ∈ db.recoveryCodes, row.uses ≤ 1
  sessions : ∀ row ∈ db.sessions, ∀ other ∈ db.sessions, ∀ challenge,
    row.source = some challenge → other.source = some challenge → row = other

/-- Nothing has been accepted, redeemed or issued yet. -/
structure Fresh (db : Db) : Prop where
  steps : ∀ principalID row, db.credentials principalID = some row → row.accepted = []
  codes : ∀ row ∈ db.recoveryCodes, row.uses = 0
  sessions : ∀ row ∈ db.sessions, row.source = none

/-- What the calls do not check: the factor is required, the step-up challenge is open. -/
def guard : Statement → Db → Bool
  | .acceptStep principalID _, db => (db.credentials principalID).all fun row => row.mfaRequired
  | .consumeStepUpChallenge idHash _, db =>
    (db.stepUpChallenges.find? idHash).any fun row => row.consumedAt = 0
  | _, _ => true

/-! ## What a statement does to a row -/

section Rows

/-- A credential is reset or otherwise rewritten, or accepts a later step. -/
inductive CredentialChange (row : CredentialRow) : CredentialRow → Prop where
  | keeps (row' : CredentialRow) (haccepted : row'.accepted = row.accepted)
      (hrequired : row'.mfaRequired = true →
        row.mfaRequired = true ∧ row.totpLastUsedStep ≤ row'.totpLastUsedStep) :
      CredentialChange row row'
  | accepts (step : Int) (hrequired : row.mfaRequired = true) (hlater : row.totpLastUsedStep < step) :
      CredentialChange row (row.accept step)

/-- A code stays, is new or is redeemed. -/
inductive CodeChange : Option RecoveryCodeRow → Option RecoveryCodeRow → Prop where
  | same (found : Option RecoveryCodeRow) : CodeChange found found
  | deleted (found : Option RecoveryCodeRow) : CodeChange found none
  | created (found : Option RecoveryCodeRow) (row : RecoveryCodeRow) (hunused : row.uses = 0) :
      CodeChange found (some row)
  | redeemed (row : RecoveryCodeRow) (now : PolicyStore.Millis) (hnow : 0 < now)
      (hunused : row.usedAt = 0) : CodeChange (some row) (some (row.redeem now))

/-- A row that is there was there before, in the relation. -/
def Stays {ρ : Type} (R : ρ → ρ → Prop) (found left : Option ρ) : Prop :=
  ∀ row', left = some row' → ∃ row, found = some row ∧ R row row'

/-- What a statement may do to a row, unless it issues a session. -/
def Allowed : (k : Key) → Cell k → Cell k → Prop
  | .credential _, found, left => Stays CredentialChange found left
  | .recoveryCode _, found, left => CodeChange found left
  | .mfaChallenge _, found, left =>
    Stays (fun row row' => row.consumedAt ≠ 0 → row'.consumedAt ≠ 0) found left
  | .stepUpChallenge _, found, left =>
    Stays (fun row row' => row.consumedAt ≠ 0 → row'.consumedAt ≠ 0) found left
  | .session _, found, left => Stays (fun row row' => row.source = row'.source) found left

theorem Stays.refl {ρ : Type} {R : ρ → ρ → Prop} (hrefl : ∀ row, R row row) (found : Option ρ) :
    Stays R found found := fun row' hrow => ⟨row', hrow, hrefl row'⟩

theorem Stays.some {ρ : Type} {R : ρ → ρ → Prop} {row row' : ρ} (h : R row row') :
    Stays R (some row) (some row') := by
  intro left hleft
  obtain rfl := Option.some.inj hleft
  exact ⟨row, rfl, h⟩

theorem Stays.deleted {ρ : Type} {R : ρ → ρ → Prop} (found : Option ρ) : Stays R found none := nofun

theorem Allowed.refl : (k : Key) → (found : Cell k) → Allowed k found found
  | .credential _, found => Stays.refl (fun row => .keeps row rfl fun h => ⟨h, le_rfl⟩) found
  | .recoveryCode _, found => .same found
  | .mfaChallenge _, found => Stays.refl (fun _ h => h) found
  | .stepUpChallenge _, found => Stays.refl (fun _ h => h) found
  | .session _, _ => fun row' hrow => ⟨row', hrow, rfl⟩

theorem changeRow_cases {ρ : Type} {found : Option ρ} {condition : ρ → Bool} {write : ρ → Write}
    {affected : Nat} (h : changeRow found condition write = (affected, wrote)) :
    affected = 0 ∧ wrote = [] ∨ ∃ row, found = some row ∧ condition row = true ∧ affected = 1 ∧
      wrote = [write row] := by
  unfold changeRow at h
  split at h
  · obtain ⟨rfl, rfl⟩ := Prod.mk.inj h
    exact .inl ⟨rfl, rfl⟩
  next row =>
    split_ifs at h with hcondition
    · obtain ⟨rfl, rfl⟩ := Prod.mk.inj h
      exact .inr ⟨row, rfl, hcondition, rfl, rfl⟩
    · obtain ⟨rfl, rfl⟩ := Prod.mk.inj h
      exact .inl ⟨rfl, rfl⟩

/-- The statement issues no session, and its clock is past the epoch. -/
def Plain : Statement → Prop
  | .insertSession _ => False
  | .redeemCode _ _ now | .consumeMfaChallenge _ now | .consumeStepUpChallenge _ now => 0 < now
  | .insertRecoveryCodes rows => ∀ row ∈ rows, row.uses = 0
  | _ => True

section Relation

variable {R : (k : Key) → Cell k → Cell k → Prop}

theorem related_nil : ∀ w ∈ ([] : List Write), R w.key (cell w.key db) w.leaves :=
  fun _ hw => absurd hw List.not_mem_nil

/-- The writes of a changed row are in the relation where the change is. -/
theorem related_of_changeRow {ρ : Type} {found : Option ρ} {condition : ρ → Bool} {write : ρ → Write}
    {affected : Nat} (h : changeRow found condition write = (affected, wrote))
    (hwrite : ∀ row, found = some row → condition row = true →
      R (write row).key (cell (write row).key db) (write row).leaves) :
    ∀ w ∈ wrote, R w.key (cell w.key db) w.leaves := by
  rcases changeRow_cases h with ⟨-, rfl⟩ | ⟨row, hfound, hcondition, -, rfl⟩
  · exact related_nil
  · intro w hw
    obtain rfl := List.mem_singleton.mp hw
    exact hwrite row hfound hcondition

/-- The last write of a row decides what it holds. -/
theorem cell_view_of_key {k : Key} (h : ∃ w ∈ wrote, w.key = k) :
    ∃ w ∈ wrote, w.key = k ∧ cell w.key (view store db wrote) = w.leaves := by
  induction wrote generalizing db with
  | nil => simp at h
  | cons first wrote ih =>
    by_cases hlater : ∃ w ∈ wrote, w.key = k
    · obtain ⟨w, hw, hkey, hleaves⟩ := ih hlater
      exact ⟨w, List.mem_cons_of_mem _ hw, hkey, hleaves⟩
    · obtain ⟨w, hw, hkey⟩ := h
      rcases List.mem_cons.mp hw with rfl | hrest
      · refine ⟨w, List.mem_cons_self .., hkey, ?_⟩
        have hothers : ∀ v ∈ wrote, v.key ≠ w.key := fun v hv hsame => hlater ⟨v, hv, hsame.trans hkey⟩
        exact (rows.row_view_other hothers).trans (cell_apply db w)
      · exact absurd ⟨w, hrest, hkey⟩ hlater

/-- What a list of related writes leaves in a row is related. -/
theorem related_view (wrote : List Write) (hrefl : ∀ k found, R k found found)
    (h : ∀ w ∈ wrote, R w.key (cell w.key db) w.leaves) (k : Key) :
    R k (cell k db) (cell k (view store db wrote)) := by
  by_cases hwritten : ∃ w ∈ wrote, w.key = k
  · obtain ⟨w, hw, rfl, hleaves⟩ := cell_view_of_key hwritten
    rw [hleaves]
    exact h w hw
  · have hnone : ∀ w ∈ wrote, w.key ≠ k := fun w hw hkey => hwritten ⟨w, hw, hkey⟩
    have hsame : cell k (view store db wrote) = cell k db := rows.row_view_other hnone
    rw [hsame]
    exact hrefl k _

end Relation

theorem allowed_of_effect {q : Statement} {answer : Answer q} (hplain : Plain q)
    (hguard : guard q db = true) (h : effect q db = .ok (answer, wrote)) :
    ∀ w ∈ wrote, Allowed w.key (cell w.key db) w.leaves := by
  cases q with
  | selectActivePrincipal | selectCredential | selectRequiredCredential | selectMfaChallenge
  | selectStepUpChallenge | selectSession =>
    obtain ⟨-, rfl⟩ := Prod.mk.inj (Except.ok.inj h)
    exact related_nil
  | acceptStep principalID step =>
    refine related_of_changeRow (Except.ok.inj h) fun row hfound hlater => ?_
    have hrequired : row.mfaRequired = true := by simpa [guard, hfound] using hguard
    change Stays CredentialChange (db.credentials principalID) (some (row.accept step))
    rw [hfound]
    exact .some (.accepts step hrequired (by simpa using hlater))
  | redeemCode principalID codeHash now =>
    refine related_of_changeRow (Except.ok.inj h) fun row hfound hunused => ?_
    have hkey : row.key = (principalID, codeHash) := (Table.find?_eq_some.mp hfound).2
    change CodeChange (db.recoveryCodes.find? row.key) _
    rw [hkey, hfound]
    exact .redeemed row now hplain (by simpa using hunused)
  | countMfaAttempt idHash attempts consumedAt =>
    refine related_of_changeRow (Except.ok.inj h) fun row hfound hopen => ?_
    have hkey : row.idHash = idHash := (Table.find?_eq_some.mp hfound).2
    change Stays _ (db.mfaChallenges.find? row.idHash) _
    rw [hkey, hfound]
    simp only [Bool.and_eq_true, decide_eq_true_eq] at hopen
    exact .some fun hconsumed => absurd hopen.1 hconsumed
  | countStepUpAttempt idHash attempts consumedAt =>
    refine related_of_changeRow (Except.ok.inj h) fun row hfound hopen => ?_
    have hkey : row.idHash = idHash := (Table.find?_eq_some.mp hfound).2
    change Stays _ (db.stepUpChallenges.find? row.idHash) _
    rw [hkey, hfound]
    simp only [Bool.and_eq_true, decide_eq_true_eq] at hopen
    exact .some fun hconsumed => absurd hopen.1 hconsumed
  | consumeMfaChallenge idHash now =>
    refine related_of_changeRow (Except.ok.inj h) fun row hfound hopen => ?_
    have hkey : row.idHash = idHash := (Table.find?_eq_some.mp hfound).2
    change Stays _ (db.mfaChallenges.find? row.idHash) _
    rw [hkey, hfound]
    exact .some fun hconsumed => absurd (of_decide_eq_true hopen) hconsumed
  | consumeStepUpChallenge idHash now =>
    refine related_of_changeRow (Except.ok.inj h) fun row hfound hopen => ?_
    have hkey : row.idHash = idHash := (Table.find?_eq_some.mp hfound).2
    change Stays _ (db.stepUpChallenges.find? row.idHash) _
    rw [hkey, hfound]
    exact .some fun hconsumed => absurd (of_decide_eq_true hopen) hconsumed
  | insertSession row => exact absurd hplain id
  | revokeSession idHash now =>
    refine related_of_changeRow (Except.ok.inj h) fun row hfound _ => ?_
    have hkey : row.idHash = idHash := (Table.find?_eq_some.mp hfound).2
    change Stays _ (db.sessions.find? row.idHash) _
    rw [hkey, hfound]
    exact .some rfl
  | revokeOtherSessions principalID currentSession now =>
    obtain ⟨-, rfl⟩ := Prod.mk.inj (Except.ok.inj h)
    intro w hw
    obtain ⟨row, hrow, rfl⟩ := List.mem_map.mp hw
    have hfound : db.sessions.find? row.idHash = some row :=
      Table.find?_eq_some.mpr ⟨(List.mem_filter.mp hrow).1, rfl⟩
    change Stays _ (db.sessions.find? row.idHash) _
    rw [hfound]
    exact .some rfl
  | deleteRecoveryCodes principalID =>
    obtain ⟨-, rfl⟩ := Prod.mk.inj (Except.ok.inj h)
    intro w hw
    obtain ⟨row, -, rfl⟩ := List.mem_map.mp hw
    exact .deleted _
  | insertRecoveryCodes rows =>
    have hinserted : insertRecoveryCodeRows db rows = .ok ((), wrote) := h
    unfold insertRecoveryCodeRows at hinserted
    split_ifs at hinserted
    obtain ⟨-, rfl⟩ := Prod.mk.inj (Except.ok.inj hinserted)
    intro w hw
    obtain ⟨row, hrow, rfl⟩ := List.mem_map.mp hw
    exact .created _ row (hplain row hrow)
  | resetCredential principalID now =>
    have hreset := Except.ok.inj h
    obtain ⟨-, rfl⟩ := Prod.mk.inj hreset
    refine related_of_changeRow rfl fun row hfound _ => ?_
    change Stays CredentialChange (db.credentials principalID) (some (row.reset now))
    rw [hfound]
    exact .some (.keeps _ rfl nofun)
  | deleteMfaChallenges principalID =>
    obtain ⟨-, rfl⟩ := Prod.mk.inj (Except.ok.inj h)
    intro w hw
    obtain ⟨row, -, rfl⟩ := List.mem_map.mp hw
    exact Stays.deleted _

/-- What is admitted of a plain statement changes rows as allowed. -/
theorem allowed_of_admits {q : Statement} {answer : Answer q} (hplain : Plain q)
    (h : (Facts.none rows).admits guard q db answer wrote) (k : Key) :
    Allowed k (cell k db) (cell k (view store db wrote)) := by
  obtain ⟨⟨seen, hsame, hguard, heffect⟩, -⟩ := h
  refine related_view _ Allowed.refl (fun w hw => ?_) k
  have hfound : cell w.key seen = cell w.key db := hsame w hw
  rw [← hfound]
  exact allowed_of_effect hplain hguard heffect w hw

end Rows

/-! ## The invariant -/

section Invariant

/-- The challenge is consumed or gone. -/
def Spent (db : Db) : Challenge → Prop
  | .login idHash => ∀ row, db.mfaChallenges.find? idHash = some row → row.consumedAt ≠ 0
  | .stepUp idHash => ∀ row, db.stepUpChallenges.find? idHash = some row → row.consumedAt ≠ 0

/-- No session has been issued for the challenge. -/
def Unissued (db : Db) (challenge : Challenge) : Prop :=
  ∀ idHash row, db.sessions.find? idHash = some row → row.source ≠ some challenge

structure Inv (db : Db) : Prop where
  steps : ∀ principalID row, db.credentials principalID = some row →
    row.accepted.Pairwise (· < ·) ∧
      (row.mfaRequired = true → ∀ step ∈ row.accepted, step ≤ row.totpLastUsedStep)
  codes : ∀ key row, db.recoveryCodes.find? key = some row →
    row.uses ≤ 1 ∧ (row.usedAt = 0 → row.uses = 0)
  sessions : ∀ id other row row', db.sessions.find? id = some row → db.sessions.find? other = some row' →
    ∀ challenge, row.source = some challenge → row'.source = some challenge → id = other
  spent : ∀ id row, db.sessions.find? id = some row → ∀ challenge, row.source = some challenge →
    Spent db challenge

theorem inv_of_fresh (h : Fresh db) : Inv db where
  steps principalID row hrow := by simp [h.steps principalID row hrow]
  codes key row hrow := by simp [h.codes row (Table.find?_eq_some.mp hrow).1]
  sessions id other row row' hrow _ challenge hsource := by
    rw [h.sessions row (Table.find?_eq_some.mp hrow).1] at hsource
    cases hsource
  spent id row hrow challenge hsource := by
    rw [h.sessions row (Table.find?_eq_some.mp hrow).1] at hsource
    cases hsource

theorem Inv.usedOnce (h : Inv db) : UsedOnce db where
  steps principalID row hrow := (h.steps principalID row hrow).1
  codes row hrow := (h.codes row.key row (Table.find?_eq_some.mpr ⟨hrow, rfl⟩)).1
  sessions row hrow other hother challenge hsource hsource' := by
    have hfound := Table.find?_eq_some.mpr ⟨hrow, rfl⟩
    have hfound' := Table.find?_eq_some.mpr ⟨hother, rfl⟩
    have hid := h.sessions _ _ row other hfound hfound' challenge hsource hsource'
    exact Table.eq_of_key hrow hother hid

theorem Spent.allowed {challenge : Challenge} (h : Spent db challenge)
    (hallowed : ∀ k, Allowed k (cell k db) (cell k after)) : Spent after challenge := by
  cases challenge with
  | login idHash =>
    intro row' hrow'
    obtain ⟨row, hrow, hspent⟩ := hallowed (.mfaChallenge idHash) row' hrow'
    exact hspent (h row hrow)
  | stepUp idHash =>
    intro row' hrow'
    obtain ⟨row, hrow, hspent⟩ := hallowed (.stepUpChallenge idHash) row' hrow'
    exact hspent (h row hrow)

theorem Unissued.allowed {challenge : Challenge} (h : Unissued db challenge)
    (hallowed : ∀ k, Allowed k (cell k db) (cell k after)) : Unissued after challenge := by
  intro id row' hrow' hsource
  obtain ⟨row, hrow, hsame⟩ := hallowed (.session id) row' hrow'
  exact h id row hrow (hsame.trans hsource)

theorem CredentialChange.steps {row row' : CredentialRow} (h : CredentialChange row row')
    (hsteps : row.accepted.Pairwise (· < ·) ∧
      (row.mfaRequired = true → ∀ step ∈ row.accepted, step ≤ row.totpLastUsedStep)) :
    row'.accepted.Pairwise (· < ·) ∧
      (row'.mfaRequired = true → ∀ step ∈ row'.accepted, step ≤ row'.totpLastUsedStep) := by
  obtain ⟨hincreasing, hbound⟩ := hsteps
  cases h with
  | keeps _ haccepted hrequired =>
    rw [haccepted]
    refine ⟨hincreasing, fun hstill step hstep => ?_⟩
    obtain ⟨hwas, hle⟩ := hrequired hstill
    have hbefore := hbound hwas step hstep
    omega
  | accepts step hrequired hlater =>
    have hbelow : ∀ other ∈ row.accepted, other < step := by
      intro other hother
      have hbefore := hbound hrequired other hother
      omega
    refine ⟨?_, fun _ other hother => ?_⟩
    · refine List.pairwise_append.mpr ⟨hincreasing, List.pairwise_singleton .., ?_⟩
      intro other hother last hlast
      obtain rfl := List.mem_singleton.mp hlast
      exact hbelow other hother
    · rcases List.mem_append.mp hother with hold | hnew
      · have hbefore := hbelow other hold
        simp only [CredentialRow.accept]
        omega
      · obtain rfl := List.mem_singleton.mp hnew
        exact le_rfl

theorem Inv.allowed (h : Inv db) (hallowed : ∀ k, Allowed k (cell k db) (cell k after)) : Inv after where
  steps principalID row' hrow' := by
    obtain ⟨row, hrow, hchange⟩ := hallowed (.credential principalID) row' hrow'
    exact hchange.steps (h.steps principalID row hrow)
  codes key row' hrow' := by
    have hchange : CodeChange (db.recoveryCodes.find? key) (after.recoveryCodes.find? key) :=
      hallowed (.recoveryCode key)
    rw [hrow'] at hchange
    generalize hfound : db.recoveryCodes.find? key = found at hchange
    cases hchange with
    | same => exact h.codes key row' hfound
    | created _ _ hunused => exact ⟨by omega, fun _ => hunused⟩
    | redeemed row now hnow hunused =>
      have huses := (h.codes key row hfound).2 hunused
      refine ⟨by simp [RecoveryCodeRow.redeem, huses], fun hzero => ?_⟩
      exact absurd hzero (ne_of_gt hnow)
  sessions id other row row' hrow hrow' challenge hsource hsource' := by
    obtain ⟨old, hold, hsame⟩ := hallowed (.session id) row hrow
    obtain ⟨old', hold', hsame'⟩ := hallowed (.session other) row' hrow'
    exact h.sessions id other old old' hold hold' challenge (hsame.trans hsource)
      (hsame'.trans hsource')
  spent id row hrow challenge hsource := by
    obtain ⟨old, hold, hsame⟩ := hallowed (.session id) row hrow
    exact (h.spent id old hold challenge (hsame.trans hsource)).allowed hallowed

/-- A session may be issued for a challenge that is spent and has none. -/
theorem Inv.issue (h : Inv db) {row : SessionRow} {challenge : Challenge}
    (hsource : row.source = some challenge) (hspent : Spent db challenge)
    (hunissued : Unissued db challenge) : Inv (view store db [.putSession row]) := by
  have hfind (id : String) : (view store db [.putSession row]).sessions.find? id =
      if row.idHash = id then some row else db.sessions.find? id := Table.find?_put
  have hsessions {id : String} {other : SessionRow}
      (hother : (view store db [.putSession row]).sessions.find? id = some other) :
      row.idHash = id ∧ other = row ∨ db.sessions.find? id = some other := by
    rw [hfind] at hother
    split_ifs at hother with hid
    · exact .inl ⟨hid, (Option.some.inj hother).symm⟩
    · exact .inr hother
  refine ⟨h.steps, h.codes, ?_, ?_⟩
  · intro id other first second hfirst hsecond c hc hc'
    rcases hsessions hfirst with ⟨rfl, rfl⟩ | hold <;> rcases hsessions hsecond with ⟨rfl, rfl⟩ | hold'
    · rfl
    · obtain rfl := Option.some.inj (hsource.symm.trans hc)
      exact absurd hc' (hunissued other second hold')
    · obtain rfl := Option.some.inj (hsource.symm.trans hc')
      exact absurd hc (hunissued id first hold)
    · exact h.sessions id other first second hold hold' c hc hc'
  · intro id other hother c hc
    rcases hsessions hother with ⟨-, rfl⟩ | hold
    · obtain rfl := Option.some.inj (hsource.symm.trans hc)
      cases challenge <;> exact hspent
    · have hbefore := h.spent id other hold c hc
      cases c <;> exact hbefore

end Invariant

/-! ## What a call does -/

section Calls

variable {now : Instant}

abbrev Does {α : Type} (p : Tx α) (db : Db) (value : α) (after : Db) : Prop :=
  RowLocks.Does (Facts.none rows) guard p db value after

theorem inv_of_plain {α : Type} {p : Tx α} {value : α} (hp : Only Plain p) (hinv : Inv db)
    (h : Does p db value after) : Inv after := by
  induction h with
  | done => exact hinv
  | call answer wrote hadmits _ ih =>
    exact ih (hp.2 answer) (hinv.allowed (allowed_of_admits hp.1 hadmits))

section Kinds

variable {kind : Statement → Prop}

theorem only_send {q : Statement} (hq : kind q) : Only kind (send q) := .query hq

theorem only_pure {α : Type} (value : α) : Only kind (pure value : Tx α) := trivial

theorem only_fail {α : Type} (error : MfaError) : Only kind (.fail error : Tx α) := trivial

theorem only_ite {α : Type} {c : Prop} [Decidable c] {p q : Tx α} (hp : Only kind p) (hq : Only kind q) :
    Only kind (if c then p else q) := by
  by_cases h : c
  · rw [if_pos h]
    exact hp
  · rw [if_neg h]
    exact hq

end Kinds

/-- The statements that check and consume a factor. -/
def Checks : Statement → Prop
  | .selectActivePrincipal _ | .selectCredential _ | .selectRequiredCredential _ | .acceptStep .. => True
  | .redeemCode _ _ now => 0 < now
  | _ => False

theorem Checks.plain (q : Statement) (h : Checks q) : Plain q := by
  cases q with
  | selectActivePrincipal | selectCredential | selectRequiredCredential | acceptStep => trivial
  | redeemCode => exact h
  | _ => exact False.elim h

theorem checks_consumeFactor (principalID : String) (credential : CredentialRow) (code : String) :
    Only Checks (consumeFactor setup principalID credential code now) := by
  unfold consumeFactor
  generalize isTOTPCode code = digits
  generalize normalizeRecoveryCode setup code = normalized
  generalize validateTOTP setup code = validate
  refine only_ite ?_ (only_ite (only_pure _) (.bind (only_send ?_) fun _ => only_pure _))
  · cases setup.decryptMFASecret principalID credential.totpSecret with
    | none => exact only_fail _
    | some secret =>
      dsimp only
      cases validate secret now with
      | none => exact only_pure _
      | some step => exact only_ite (only_pure _) (.bind (only_send trivial) fun _ => only_pure _)
  · exact now.positive

theorem checks_verifyCurrentPassword (principalID password : String) :
    Only Checks (verifyCurrentPassword setup principalID password) := by
  refine .bind (only_send trivial) fun active => only_ite (only_fail _) ?_
  refine .bind (only_send trivial) fun found => ?_
  cases found with
  | none => exact only_fail _
  | some credential =>
    dsimp only
    cases setup.verifyPassword credential.passwordHash password with
    | none => exact only_fail _
    | some valid => exact only_ite (only_pure _) (only_fail _)

theorem checks_confirmFactor (subject password code : String) :
    Only Checks (confirmFactor setup subject password code now) := by
  refine .bind (checks_verifyCurrentPassword _ _) fun credential => only_ite (only_fail _) ?_
  refine .bind (only_send trivial) fun required => ?_
  cases required with
  | none => exact only_fail _
  | some current =>
    have hconsume : Only Checks (consumeFactor setup subject current code now) :=
      checks_consumeFactor subject current code
    dsimp only
    generalize consumeFactor setup subject current code now = consume at hconsume
    refine only_ite (hconsume.bind fun valid => ?_) (only_fail _)
    exact only_ite (only_pure _) (only_fail _)

theorem plain_consumeFactor (principalID : String) (credential : CredentialRow) (code : String) :
    Only Plain (consumeFactor setup principalID credential code now) :=
  (checks_consumeFactor principalID credential code).mono Checks.plain

theorem plain_confirmFactor (subject password code : String) :
    Only Plain (confirmFactor setup subject password code now) :=
  (checks_confirmFactor subject password code).mono Checks.plain

theorem plain_requireAffected (affected : Nat) : Only Plain (requireAffected affected) :=
  only_ite (only_pure _) (only_fail _)

theorem plain_failLogin (challenge : MfaChallengeRow) : Only Plain (failLogin setup challenge now) :=
  .bind (only_send trivial) fun _ => .bind (plain_requireAffected _) fun _ => only_pure _

theorem plain_failStepUp (challenge : StepUpChallengeRow) : Only Plain (failStepUp setup challenge now) :=
  .bind (only_send trivial) fun _ => .bind (plain_requireAffected _) fun _ => only_pure _

theorem plain_regenerate (subject sessionHash password code : String) (codes : List String) :
    Only Plain (regenerateRecoveryCodes setup subject sessionHash password code codes now) := by
  refine .bind (plain_confirmFactor _ _ _) fun _ => .bind (only_send trivial) fun _ => ?_
  refine .bind (only_send fun row hrow => ?_) fun _ => .bind (only_send trivial) fun _ => only_pure _
  obtain ⟨code, -, rfl⟩ := List.mem_map.mp hrow
  rfl

theorem plain_disable (subject sessionHash password code : String) :
    Only Plain (disableTOTP setup subject sessionHash password code now) :=
  .bind (plain_confirmFactor _ _ _) fun _ => .bind (only_send trivial) fun _ =>
    .bind (only_send trivial) fun _ => .bind (only_send trivial) fun _ =>
    .bind (only_send trivial) fun _ => only_pure _

/-- The session that a call inserts, where the challenge is spent and has none. -/
theorem inv_of_insertSession {row : SessionRow} {challenge : Challenge} (hinv : Inv db)
    (hsource : row.source = some challenge) (hspent : Spent db challenge)
    (hunissued : Unissued db challenge) (h : Does (send (.insertSession row)) db () after) :
    Inv after := by
  obtain ⟨wrote, ⟨⟨seen, -, -, heffect⟩, -⟩, rfl⟩ := Outcome.query h
  have hinserted : insertSessionRow seen row = .ok ((), wrote) := heffect
  unfold insertSessionRow at hinserted
  split_ifs at hinserted
  obtain ⟨-, rfl⟩ := Prod.mk.inj (Except.ok.inj hinserted)
  exact hinv.issue hsource hspent hunissued

/-- Whoever consumes a login challenge has found it open, so it has no session yet. -/
theorem does_consumeMfaChallenge {idHash : String} {affected : Nat} (hinv : Inv db)
    (h : Does (send (.consumeMfaChallenge idHash now.millis)) db affected after) (haffected : affected = 1) :
    Inv after ∧ Spent after (.login idHash) ∧ Unissued after (.login idHash) := by
  obtain ⟨wrote, hadmits, rfl⟩ := Outcome.query h
  have hallowed := allowed_of_admits (q := .consumeMfaChallenge idHash now.millis) now.positive hadmits
  obtain ⟨⟨seen, hsame, -, heffect⟩, -⟩ := hadmits
  rcases changeRow_cases (Except.ok.inj heffect) with ⟨hnone, -⟩ | ⟨row, hfound, hopen, -, rfl⟩
  · omega
  have hkey : row.idHash = idHash := (Table.find?_eq_some.mp hfound).2
  have hstored : db.mfaChallenges.find? idHash = some row := by
    have hcell : seen.mfaChallenges.find? row.idHash = db.mfaChallenges.find? row.idHash :=
      hsame _ (List.mem_singleton_self _)
    rw [hkey, hfound] at hcell
    exact hcell.symm
  refine ⟨hinv.allowed hallowed, fun left hleft => ?_, ?_⟩
  · have hput : (view store db [.putMfaChallenge { row with consumedAt := now.millis }]).mfaChallenges.find?
        idHash = some { row with consumedAt := now.millis } := Table.find?_put.trans (if_pos hkey)
    obtain rfl := Option.some.inj (hput.symm.trans hleft)
    exact ne_of_gt now.positive
  · refine Unissued.allowed (fun id other hother hsource => ?_) hallowed
    exact hinv.spent id other hother _ hsource row hstored (of_decide_eq_true hopen)

theorem does_consumeStepUpChallenge {idHash : String} {affected : Nat} (hinv : Inv db)
    (h : Does (send (.consumeStepUpChallenge idHash now.millis)) db affected after) :
    Inv after ∧ Spent after (.stepUp idHash) ∧ Unissued after (.stepUp idHash) := by
  obtain ⟨wrote, hadmits, rfl⟩ := Outcome.query h
  have hallowed := allowed_of_admits (q := .consumeStepUpChallenge idHash now.millis) now.positive hadmits
  obtain ⟨⟨seen, hsame, hguard, heffect⟩, -⟩ := hadmits
  obtain ⟨row, hfound, hopen⟩ := (Option.any_eq_true ..).mp hguard
  have hwrote : changeRow (seen.stepUpChallenges.find? idHash) (fun row => row.consumedAt = 0)
      (fun row => .putStepUpChallenge { row with consumedAt := now.millis }) =
        (1, [.putStepUpChallenge { row with consumedAt := now.millis }]) := by
    simp only [changeRow, hfound, hopen, if_true]
  obtain ⟨-, rfl⟩ := Prod.mk.inj (hwrote.symm.trans (Except.ok.inj heffect))
  have hkey : row.idHash = idHash := (Table.find?_eq_some.mp hfound).2
  have hstored : db.stepUpChallenges.find? idHash = some row := by
    have hcell : seen.stepUpChallenges.find? row.idHash = db.stepUpChallenges.find? row.idHash :=
      hsame _ (List.mem_singleton_self _)
    rw [hkey, hfound] at hcell
    exact hcell.symm
  refine ⟨hinv.allowed hallowed, fun left hleft => ?_, ?_⟩
  · have hput : (view store db [.putStepUpChallenge { row with consumedAt := now.millis }]).stepUpChallenges.find?
        idHash = some { row with consumedAt := now.millis } := Table.find?_put.trans (if_pos hkey)
    obtain rfl := Option.some.inj (hput.symm.trans hleft)
    exact ne_of_gt now.positive
  · refine Unissued.allowed (fun id other hother hsource => ?_) hallowed
    exact hinv.spent id other hother _ hsource row hstored (of_decide_eq_true hopen)

theorem does_requireAffected {affected : Nat} (h : Does (requireAffected affected) db () after) :
    affected = 1 ∧ after = db := by
  unfold requireAffected at h
  split_ifs at h with haffected
  · exact ⟨haffected, (Outcome.pure h).2⟩
  · exact absurd h not_outcome_fail

theorem completeLogin_inv {challenge : MfaChallengeRow} {token : String} {reply : Reply} (hinv : Inv db)
    (h : Does (completeLogin setup challenge token now) db reply after) : Inv after := by
  obtain ⟨updated, consumed, hconsume, hrest⟩ := Outcome.bind h
  obtain ⟨_, checked, hrequire, hrest⟩ := Outcome.bind hrest
  obtain ⟨_, inserted, hinsert, hdone⟩ := Outcome.bind hrest
  obtain ⟨-, rfl⟩ := Outcome.pure hdone
  obtain ⟨haffected, rfl⟩ := does_requireAffected hrequire
  obtain ⟨hbefore, hspent, hunissued⟩ := does_consumeMfaChallenge hinv hconsume haffected
  exact inv_of_insertSession hbefore rfl hspent hunissued hinsert

theorem elevateSession_inv {challenge : StepUpChallengeRow} {subject sessionHash token : String}
    {reply : Reply} (hinv : Inv db) (hspent : Spent db (.stepUp challenge.idHash))
    (hunissued : Unissued db (.stepUp challenge.idHash))
    (h : Does (elevateSession setup challenge subject sessionHash token now) db reply after) :
    Inv after := by
  obtain ⟨found, selected, hselect, hrest⟩ := Outcome.bind h
  obtain ⟨wrote, ⟨⟨seen, -, -, heffect⟩, -⟩, rfl⟩ := Outcome.query hselect
  obtain ⟨-, rfl⟩ := Prod.mk.inj (Except.ok.inj heffect)
  cases found with
  | none => exact absurd hrest not_outcome_fail
  | some current =>
    obtain ⟨_, inserted, hinsert, hrest⟩ := Outcome.bind hrest
    have hissued : Inv inserted := inv_of_insertSession hinv rfl hspent hunissued hinsert
    refine inv_of_plain (.bind (only_send ?_) fun _ => only_pure _) hissued hrest
    trivial

theorem completeStepUp_inv {challenge : StepUpChallengeRow} {subject sessionHash token : String}
    {reply : Reply} (hinv : Inv db)
    (h : Does (completeStepUp setup challenge subject sessionHash token now) db reply after) :
    Inv after := by
  obtain ⟨updated, consumed, hconsume, helevate⟩ := Outcome.bind h
  obtain ⟨hbefore, hspent, hunissued⟩ := does_consumeStepUpChallenge hinv hconsume
  exact elevateSession_inv hbefore hspent hunissued helevate

/-- What follows once a challenge has been found open. -/
theorem inv_of_factor {principalID code : String} {complete failed : Tx Reply} {reply : Reply} (hinv : Inv db)
    (hcomplete : ∀ {mid : Db}, Inv mid → Does complete mid reply after → Inv after)
    (hfailed : Only Plain failed)
    (h : Does (do
      let required : Option CredentialRow ← send (.selectRequiredCredential principalID)
      match required with
      | none => .fail .challenge
      | some credential =>
        let valid : Bool ← consumeFactor setup principalID credential code now
        if valid then complete else failed) db reply after) : Inv after := by
  obtain ⟨required, read, hrequired, hrest⟩ := Outcome.bind h
  have hread : Inv read := inv_of_plain (only_send (q := .selectRequiredCredential _) trivial) hinv hrequired
  split at hrest
  · exact absurd hrest not_outcome_fail
  obtain ⟨valid, consumed, hconsume, hrest⟩ := Outcome.bind hrest
  have hconsumed : Inv consumed := inv_of_plain (plain_consumeFactor _ _ _) hread hconsume
  split_ifs at hrest
  · exact hcomplete hconsumed hrest
  · exact inv_of_plain hfailed hconsumed hrest

theorem verifyLoginMFA_inv {challengeID code token : String} {reply : Reply} (hinv : Inv db)
    (h : Does (verifyLoginMFA setup challengeID code token now) db reply after) : Inv after := by
  unfold verifyLoginMFA at h
  split_ifs at h
  · exact absurd h not_outcome_fail
  obtain ⟨found, selected, hselect, hrest⟩ := Outcome.bind h
  have hselected : Inv selected := inv_of_plain (only_send (q := .selectMfaChallenge _) trivial) hinv hselect
  split at hrest
  · exact absurd hrest not_outcome_fail
  exact inv_of_factor hselected completeLogin_inv (plain_failLogin _) hrest

theorem verifyStepUp_inv {subject sessionHash challengeID code token : String} {reply : Reply}
    (hinv : Inv db)
    (h : Does (verifyStepUp setup subject sessionHash challengeID code token now) db reply after) :
    Inv after := by
  unfold verifyStepUp at h
  split_ifs at h
  · exact absurd h not_outcome_fail
  obtain ⟨found, selected, hselect, hrest⟩ := Outcome.bind h
  have hselected : Inv selected := inv_of_plain (only_send (q := .selectStepUpChallenge _) trivial) hinv hselect
  split at hrest
  · exact absurd hrest not_outcome_fail
  exact inv_of_factor hselected completeStepUp_inv (plain_failStepUp _) hrest

theorem program_inv {operation : Operation} {reply : Reply} (hinv : Inv db)
    (h : Does (program setup operation) db reply after) : Inv after := by
  unfold program at h
  split at h
  · exact verifyLoginMFA_inv hinv h
  · exact verifyStepUp_inv hinv h
  · exact inv_of_plain (plain_regenerate _ _ _ _ _) hinv h
  · exact inv_of_plain (plain_disable _ _ _ _) hinv h

end Calls

/-- In a run in which every step is accepted while the factor is required, and every step-up
challenge is open when it is consumed, every factor and challenge is used once. -/
theorem factors_used_once (setup : Setup) {db : Db} (hfresh : Fresh db)
    (events : List (InterleavedTransactions.Event Operation))
    (hguarded : ∀ t e u, Takes (step store (program setup)) ⟨db, []⟩ events t e u →
      meets store guard t e = true) :
    ∀ t, Passes (step store (program setup)) ⟨db, []⟩ events t → UsedOnce t.committed := by
  intro t hpasses
  have hinv : Inv t.committed :=
    RowLocks.keeps (Facts.none rows) Constraint.unique (fun _ _ _ _ hinv h => program_inv hinv h) (inv_of_fresh hfresh)
      hguarded t hpasses
  exact hinv.usedOnce

/-! ## Runs that use a factor twice -/

section Races

/-- One wrong code uses a challenge up, and `123456` is the code of step 100. -/
def smallSetup : Setup where
  maxAttempts := 1
  sessionTTL := 1000
  idleTTL := 100
  upper := Char.toUpper
  tokenHash := id
  recoveryCodeHash := id
  verifyPassword := fun _ _ => some true
  decryptMFASecret := fun _ secret => some secret
  validateHOTP := fun code counter _ => counter = 100 && code = "123456"

def instant : Instant := ⟨3000000, by decide⟩

def smallDb : Db where
  credentials := fun principalID => if principalID = "ada" then some ⟨"hash", "secret", true, 0, 0, []⟩ else none
  recoveryCodes := Table.empty.put { principalID := "ada", codeHash := "CODE", createdAt := 0 }
  mfaChallenges := Table.empty.put
    { idHash := "login", principalID := "ada", returnURL := "/", expiresAt := 4000000 }
  stepUpChallenges := Table.empty.put
    { idHash := "step-up", principalID := "ada", sessionHash := "web", expiresAt := 4000000 }
  sessions := Table.empty.put
    { idHash := "web", principalID := "ada", createdAt := 0, authTime := 0, acr := 1, amr := ["pwd"]
      lastSeenAt := 0, expiresAt := 4000000, absoluteExpiresAt := 4000000 }

def arrive (request : Request) : InterleavedTransactions.Event Operation := .start ⟨request, instant⟩

def statements (index count : Nat) : List (InterleavedTransactions.Event Operation) :=
  List.replicate count (.statement index)

/-- The same code removes the factor twice: the second removal has read the credential before
the first one resets the last used step. -/
def disableRace : List (InterleavedTransactions.Event Operation) :=
  [arrive (.disable "ada" "web" "password" "123456"), arrive (.disable "ada" "web" "password" "123456")] ++
  statements 0 3 ++ statements 1 3 ++ statements 0 5 ++ [.commit 0] ++ statements 0 5 ++ [.commit 0]

/-- Two calls have read the challenge when a wrong code uses it up, and both elevate the session. -/
def stepUpRace : List (InterleavedTransactions.Event Operation) :=
  [arrive (.verifyStepUp "ada" "web" "step-up" "123456" "first"),
    arrive (.verifyStepUp "ada" "web" "step-up" "CODE" "second"),
    arrive (.verifyStepUp "ada" "web" "step-up" "000000" "third")] ++
  statements 0 2 ++ statements 1 2 ++ statements 2 3 ++ [.commit 2] ++
  statements 0 4 ++ statements 1 4 ++ statements 0 1 ++ [.commit 0] ++ statements 0 1 ++ [.commit 0]

theorem fresh_smallDb : Fresh smallDb where
  steps principalID row hrow := by
    simp only [smallDb] at hrow
    split_ifs at hrow
    obtain rfl := Option.some.inj hrow
    rfl
  codes row hrow := by
    rcases Table.mem_put.mp hrow with rfl | ⟨hnone, -⟩
    · rfl
    · cases hnone
  sessions row hrow := by
    rcases Table.mem_put.mp hrow with rfl | ⟨hnone, -⟩
    · rfl
    · cases hnone

theorem races_use_twice :
    Fresh smallDb ∧
      (∃ t, run (step store (program smallSetup)) ⟨smallDb, []⟩ disableRace = some t ∧
        ¬ UsedOnce t.committed) ∧
      ∃ t, run (step store (program smallSetup)) ⟨smallDb, []⟩ stepUpRace = some t ∧
        ¬ UsedOnce t.committed := by
  refine ⟨fresh_smallDb, ?_, ?_⟩
  · have hsteps : (run (step store (program smallSetup)) ⟨smallDb, []⟩ disableRace).map
        (fun t => (t.committed.credentials "ada").map CredentialRow.accepted) = some (some [100, 100]) := by
      decide +kernel
    obtain ⟨t, hrun, hrow⟩ := Option.map_eq_some_iff.mp hsteps
    obtain ⟨row, hfound, haccepted⟩ := Option.map_eq_some_iff.mp hrow
    refine ⟨t, hrun, fun hused => ?_⟩
    have hincreasing := hused.steps "ada" row hfound
    rw [haccepted] at hincreasing
    exact absurd hincreasing (by decide)
  · have hsessions : (run (step store (program smallSetup)) ⟨smallDb, []⟩ stepUpRace).map
        (fun t => (t.committed.sessions.find? "first", t.committed.sessions.find? "second").map
          (Option.bind · SessionRow.source) (Option.bind · SessionRow.source)) =
        some (some (.stepUp "step-up"), some (.stepUp "step-up")) := by decide +kernel
    obtain ⟨t, hrun, hpair⟩ := Option.map_eq_some_iff.mp hsessions
    obtain ⟨hfirst, hsecond⟩ := Prod.mk.inj hpair
    obtain ⟨first, hfirst, hsource⟩ := Option.bind_eq_some_iff.mp hfirst
    obtain ⟨second, hsecond, hsource'⟩ := Option.bind_eq_some_iff.mp hsecond
    obtain ⟨hmem, hid⟩ := Table.find?_eq_some.mp hfirst
    obtain ⟨hmem', hid'⟩ := Table.find?_eq_some.mp hsecond
    refine ⟨t, hrun, fun hused => ?_⟩
    have hsame := hused.sessions first hmem second hmem' _ hsource hsource'
    rw [hsame, hid'] at hid
    exact absurd hid (by decide)

/-- A login with a recovery code while another call renews the codes with a step. -/
def quietCalls : List (InterleavedTransactions.Event Operation) :=
  [arrive (.verifyLogin "login" "co-de" "first"),
    arrive (.regenerate "ada" "web" "password" "123456" ["NEW"])] ++
  statements 0 4 ++ statements 1 4 ++ statements 0 1 ++ [.commit 0] ++ statements 0 3 ++ [.commit 0]

theorem quietCalls_use_once :
    ∃ t, run (step store (program smallSetup)) ⟨smallDb, []⟩ quietCalls = some t ∧
      (t.committed.credentials "ada").map CredentialRow.accepted = some [100] ∧ UsedOnce t.committed := by
  have hsteps : (run (step store (program smallSetup)) ⟨smallDb, []⟩ quietCalls).map
      (fun t => (t.committed.credentials "ada").map CredentialRow.accepted) = some (some [100]) := by
    decide +kernel
  have hguarded : allSafe (step store (program smallSetup)) (meets store guard) ⟨smallDb, []⟩ quietCalls =
      true := by decide +kernel
  obtain ⟨t, hrun, hrow⟩ := Option.map_eq_some_iff.mp hsteps
  refine ⟨t, hrun, hrow, ?_⟩
  exact factors_used_once smallSetup fresh_smallDb quietCalls (safe_of_allSafe hguarded) t
    ⟨quietCalls, [], (List.append_nil _).symm, hrun⟩

end Races

end OneTimeFactors
