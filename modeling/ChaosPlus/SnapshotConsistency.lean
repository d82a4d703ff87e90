import ChaosPlus.EntityInvite
import ChaosPlus.PolicySnapshot
import ChaosPlus.PrincipalService

/-!
# Snapshots and committed writes

Writers commit one after another while the authorizer reads a snapshot. A commit either
advances the revision of the tenants it concerns or it does not; the snapshot notices only
the former. The isolation of the database is that each query sees one committed state.
-/
namespace SnapshotConsistency

open AuthorizationDecision AuthorizationGrants OptimisticRead PolicySnapshot PolicyStore

/-- A committed transaction: what it writes, and whose revision it advances. -/
structure PolicyCommit where
  write : Db → Db
  advanced : List String

namespace PolicyCommit

/-- Revisions change by the advances alone. -/
def apply (commit : PolicyCommit) (db : Db) : Db :=
  commit.advanced.foldl Db.advance { commit.write db with policyRevisions := db.policyRevisions }

/-- A transaction of the coordinator, which advances after a mutation that changed policy. -/
def coordinated (tenantID : String) (policyChanged : Bool) (mutate : Db → Db) : PolicyCommit :=
  ⟨mutate, if policyChanged then [tenantID] else []⟩

/-- The profile update of a principal; a failed one leaves the tables alone. -/
def principalUpdate (lower : Char → Char) (tenantID id : String)
    (displayName email : Option String) : PolicyCommit where
  write db := match PrincipalService.update lower db tenantID id displayName email with
    | .ok (_, db') => db'
    | .error _ => db
  advanced := []

def inviteAcceptance (dialect : EntityInvite.SqlDialect) (choice : EntityInvite.RowChoice)
    (code principalID : String) : PolicyCommit where
  write db := match EntityInvite.acceptEntityInvite dialect choice db code principalID with
    | .ok (_, db') => db'
    | .error _ => db
  advanced := []

end PolicyCommit

/-- The state after the first `n` commits. -/
def stateAt (db : Db) (commits : List PolicyCommit) (n : Nat) : Db :=
  (commits.take n).foldl (fun db commit => commit.apply db) db

/-- The commit advances the tenant's revision, or no query of the request can tell. -/
def Accounted (env : Environment) (request : Request) (db : Db) (commit : PolicyCommit) : Prop :=
  request.tenantID ∈ commit.advanced ∨
    policyReads env request (commit.apply db) = policyReads env request db

/-- The commit after state `n` falls between two of the call's queries. -/
def DuringCall (position : Nat → Nat) (asked n : Nat) : Prop :=
  ∃ i j, j < asked ∧ position i ≤ n ∧ n < position j

/-- The snapshot is that of one state, no older than the call and of the revision it names. -/
def ReadAtOnePoint (env : Environment) (request : Request) (db : Db) (commits : List PolicyCommit)
    (position : Nat → Nat) (snapshot : Snapshot) : Prop :=
  ∃ n, position 0 ≤ n ∧
    (stateAt db commits n).policyRevisions request.tenantID = snapshot.revision ∧
    policySnapshot env (stateAt db commits n) request.tenantID request.focusEntityID
      request.permission request.subject request.includeDataScope request.trusted = .ok snapshot

section Commits

variable {env : Environment} {request : Request} {db : Db} {commits : List PolicyCommit}

theorem policyRevisions_foldl_advance (tenants : List String) (db : Db) (tenantID : String) :
    (tenants.foldl Db.advance db).policyRevisions tenantID =
      db.policyRevisions tenantID + tenants.count tenantID := by
  induction tenants generalizing db with
  | nil => rfl
  | cons tenant rest ih =>
    rw [List.foldl_cons, ih, List.count_cons]
    by_cases hsame : tenant = tenantID
    · simp only [Db.advance, hsame, if_true, beq_self_eq_true]
      omega
    · simp [Db.advance, Ne.symm hsame, hsame]

theorem policyRevisions_apply (commit : PolicyCommit) (db : Db) (tenantID : String) :
    (commit.apply db).policyRevisions tenantID =
      db.policyRevisions tenantID + commit.advanced.count tenantID :=
  policyRevisions_foldl_advance _ _ _

theorem stateAt_succ (n : Nat) :
    stateAt db commits (n + 1) = match commits[n]? with
      | some commit => commit.apply (stateAt db commits n)
      | none => stateAt db commits n := by
  unfold stateAt
  rw [List.take_add_one]
  cases commits[n]? with
  | none => simp
  | some commit => simp

theorem policyRevisions_stateAt_le (tenantID : String) (n : Nat) :
    (stateAt db commits n).policyRevisions tenantID ≤
      (stateAt db commits (n + 1)).policyRevisions tenantID := by
  rw [stateAt_succ]
  cases commits[n]? with
  | none => exact Nat.le_refl _
  | some commit =>
    rw [policyRevisions_apply]
    exact Nat.le_add_right _ _

/-- An accounted commit moves the revision or keeps what the request reads. -/
theorem Accounted.advances_or_keeps {n : Nat}
    (h : ∀ commit, commits[n]? = some commit →
      Accounted env request (stateAt db commits n) commit) :
    (stateAt db commits n).policyRevisions request.tenantID <
        (stateAt db commits (n + 1)).policyRevisions request.tenantID ∨
      policyReads env request (stateAt db commits (n + 1)) =
        policyReads env request (stateAt db commits n) := by
  rw [stateAt_succ]
  cases hcommit : commits[n]? with
  | none => exact .inr rfl
  | some commit =>
    rcases h commit hcommit with hadvanced | hkept
    · refine .inl ?_
      rw [policyRevisions_apply]
      have hcount := List.count_pos_iff.mpr hadvanced
      omega
    · exact .inr hkept

/-- Where every commit during the call is accounted for, the call returns the snapshot of
one point of the commit order. -/
theorem snapshot_consistent {position : Nat → Nat} {asked : Nat} {snapshot : Snapshot}
    (hposition : Monotone position)
    (hcommits : ∀ n commit, commits[n]? = some commit → DuringCall position asked n →
      Accounted env request (stateAt db commits n) commit)
    (h : PolicySnapshot.snapshot env request (fun i => stateAt db commits (position i)) =
      (asked, .ok snapshot)) :
    ReadAtOnePoint env request db commits position snapshot := by
  simp only [PolicySnapshot.snapshot, Prod.mk.injEq] at h
  obtain ⟨hasked, hresult⟩ := h
  cases haccepted : ((snapshotAttempts env request).run
      (fun i => stateAt db commits (position i)) 0).2 with
  | error e => simp [haccepted, Except.map] at hresult
  | ok accepted =>
    obtain ⟨revision, read⟩ := accepted
    rw [haccepted] at hresult
    obtain rfl := Except.ok.inj hresult
    have hadvance : ∀ n i j, j < ((snapshotAttempts env request).run
        (fun k => stateAt db commits (position k)) 0).1 → position i ≤ n → n < position j →
        (stateAt db commits n).policyRevisions request.tenantID <
            (stateAt db commits (n + 1)).policyRevisions request.tenantID ∨
          policyReads env request (stateAt db commits (n + 1)) =
            policyReads env request (stateAt db commits n) := by
      intro n i j hj hi hnj
      rw [hasked] at hj
      exact Accounted.advances_or_keeps fun commit hcommit =>
        hcommits n commit hcommit ⟨i, j, hj, hi, hnj⟩
    obtain ⟨n, hn, hrevision, hread⟩ := optimistic_consistent hposition
      (policyRevisions_stateAt_le request.tenantID) hadvance haccepted
    refine ⟨n, hn, hrevision, ?_⟩
    rw [← evaluate_readSnapshot]
    simp only [evaluate, hread, hrevision]
    rfl

end Commits

def memberEmailRule (email : String) : String :=
  "\x7b\"version\":1,\"match\":\"any\",\"conditions\":[\x7b\"field\":\"member.email\"," ++
    "\"operator\":\"in\",\"values\":[\"" ++ email ++ "\"]\x7d]\x7d"

/-- One e-mail opens the entity through a relationship, the other through a role. -/
def twoRuleTenant : Db where
  tenants := .single ⟨"acme", .active⟩
  principals := .single ⟨"ada", "ada", "ada@old.test", .active⟩
  credentials := .single ⟨"ada", 1⟩
  tenantMembers := .single ⟨"acme", "ada", "ada@old.test", .active⟩
  groups := ⟨[⟨"acme", "old", .active, .dynamic, memberEmailRule "ada@old.test", "Old", "", 0, 1⟩,
    ⟨"acme", "new", .active, .dynamic, memberEmailRule "ada@new.test", "New", "", 0, 1⟩], by decide⟩
  roles := .single ⟨"acme", "readers", "Readers"⟩
  rolePermissions := .single ⟨"acme", "readers", "entity_view", ""⟩
  groupRoleBindings := .single ⟨"acme", "readers", "new"⟩
  entities := .single ⟨"acme", "site", none, "team", "Site", .active, "\x7b\x7d"⟩
  relationships := ⟨[⟨"acme", "group", "old", "member", "viewer", "team", "site", 0, 0, ""⟩],
    by simp⟩

def plainEnvironment : Environment := ⟨PolicyCondition.utcOnly, Char.toLower⟩

def viewSite : Request := ⟨"acme", "site", "entity_view", "ada", false, {}⟩

/-- The commit lands after the tenant grants are read. -/
def afterTenantGrants (i : Nat) : Nat := if i ≤ 4 then 0 else 1

theorem monotone_afterTenantGrants : Monotone afterTenantGrants := by
  intro i j hij
  unfold afterTenantGrants
  split_ifs <;> omega

def newEmail : PolicyCommit :=
  .principalUpdate Char.toLower "acme" "ada" none (some "ada@new.test")

def heldGrants (result : Except AuthorizationError Snapshot) :
    Option (List TenantGrant × List RelationshipGrant) :=
  match result with
  | .ok snapshot => some (snapshot.tenantGrants, snapshot.relationshipGrants)
  | .error _ => none

theorem exists_of_heldGrants {result : Except AuthorizationError Snapshot}
    {grants : List TenantGrant × List RelationshipGrant} (h : heldGrants result = some grants) :
    ∃ snapshot, result = .ok snapshot ∧
      (snapshot.tenantGrants, snapshot.relationshipGrants) = grants := by
  cases result with
  | error e => simp [heldGrants] at h
  | ok snapshot => exact ⟨snapshot, rfl, Option.some.inj h⟩

/-- The profile update does not advance the revision, so the call accepts tenant grants of
before it and relationship grants of after it, although each state alone has one of them. -/
theorem profile_update_mixes_states :
    ∃ snapshot, (PolicySnapshot.snapshot plainEnvironment viewSite fun i =>
        stateAt twoRuleTenant [newEmail] (afterTenantGrants i)).2 = .ok snapshot ∧
      ¬ ReadAtOnePoint plainEnvironment viewSite twoRuleTenant [newEmail] afterTenantGrants
        snapshot := by
  have hmixed : heldGrants (PolicySnapshot.snapshot plainEnvironment viewSite fun i =>
      stateAt twoRuleTenant [newEmail] (afterTenantGrants i)).2 = some ([], []) := by
    decide +kernel
  obtain ⟨snapshot, hresult, hgrants⟩ := exists_of_heldGrants hmixed
  refine ⟨snapshot, hresult, ?_⟩
  rintro ⟨n, -, -, hpoint⟩
  have hheld : heldGrants (policySnapshot plainEnvironment (stateAt twoRuleTenant [newEmail] n)
      "acme" "site" "entity_view" "ada" false {}) = some ([], []) := by
    have hsome : heldGrants (.ok snapshot) = some ([], []) := congrArg some hgrants
    rw [← hpoint] at hsome
    exact hsome
  have hstate : stateAt twoRuleTenant [newEmail] n = twoRuleTenant ∨
      stateAt twoRuleTenant [newEmail] n = newEmail.apply twoRuleTenant := by
    cases n with
    | zero => exact .inl rfl
    | succ n => exact .inr (by simp [stateAt])
  rcases hstate with hbefore | hafter
  · rw [hbefore] at hheld
    exact absurd hheld (by decide +kernel)
  · rw [hafter] at hheld
    exact absurd hheld (by decide +kernel)

/-- The same write through the coordinator is noticed: the call reads again. -/
theorem snapshot_consistent_coordinated :
    ∃ snapshot, heldGrants (.ok snapshot) = some
        ([⟨"entity_view", "readers", "group", "new", .all, ""⟩], []) ∧
      ReadAtOnePoint plainEnvironment viewSite twoRuleTenant
        [.coordinated "acme" true newEmail.write] afterTenantGrants snapshot := by
  have hheld : heldGrants (PolicySnapshot.snapshot plainEnvironment viewSite fun i =>
      stateAt twoRuleTenant [.coordinated "acme" true newEmail.write] (afterTenantGrants i)).2 =
      some ([⟨"entity_view", "readers", "group", "new", .all, ""⟩], []) := by
    decide +kernel
  cases hcall : PolicySnapshot.snapshot plainEnvironment viewSite fun i =>
    stateAt twoRuleTenant [.coordinated "acme" true newEmail.write] (afterTenantGrants i)
  rename_i asked result
  rw [hcall] at hheld
  obtain ⟨snapshot, rfl, hgrants⟩ := exists_of_heldGrants hheld
  refine ⟨snapshot, congrArg some hgrants, ?_⟩
  refine snapshot_consistent monotone_afterTenantGrants ?_ hcall
  intro n commit hcommit _
  have hfirst : commit = .coordinated "acme" true newEmail.write := by
    have hmem := List.mem_of_getElem? hcommit
    exact List.mem_singleton.mp hmem
  rw [hfirst]
  exact .inl (List.mem_singleton_self _)

end SnapshotConsistency
