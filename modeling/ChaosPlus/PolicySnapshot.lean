import ChaosPlus.AuthorizationDecision
import ChaosPlus.OptimisticRead

/-!
# Reading the policy snapshot

The snapshot as the program of queries the authorizer sends, each of which sees the state
of its own moment, between two reads of the tenant's revision. On a state that does not
change it is the snapshot of that state.
-/
namespace PolicySnapshot

open AuthorizationCatalog AuthorizationDecision AuthorizationGrants OptimisticRead PolicyCondition
  PolicyStore

structure Request where
  tenantID : String
  focusEntityID : String
  permission : String
  subject : String
  includeDataScope : Bool
  trusted : TrustedContext

namespace Request

def requested (request : Request) : List String := requestedPermissions [request.permission]

def now (request : Request) : Millis := request.trusted.time

end Request

/-- The answers to the queries of one request; one field for each query. -/
structure PolicyReads where
  membershipState : Bool × Bool
  entityIDs : List String
  effectiveGrants : List TenantGrant
  dynamicGroupIDs : Except AuthorizationError (List String)
  dynamicGroupGrants : List String → List TenantGrant
  memberDepartment : Option String
  departmentDescendants : String → List String
  selectedDepartments : List String → List String
  expandedGrants : List ScopedGrant
  memberGroups : List String
  memberPositions : List String
  resourceRelationships : List RelationshipNode → List ResourceRelationshipRow
  relationships : List RelationshipNode → List RelationshipRow

@[simps] def policyReads (env : Environment) (request : Request) (db : Db) : PolicyReads where
  membershipState := db.tenantMembershipState request.tenantID request.subject
  entityIDs := activeEntityIDs db request.tenantID request.focusEntityID
  effectiveGrants := effectiveGrants db request.tenantID request.subject request.requested request.now
  dynamicGroupIDs := matchingDynamicGroupIDs db request.tenantID request.subject env
  dynamicGroupGrants := dynamicGroupGrants db request.tenantID request.requested
  memberDepartment := memberDepartment db request.tenantID request.subject
  departmentDescendants := departmentDescendants db request.tenantID
  selectedDepartments := selectedDepartments db request.tenantID
  expandedGrants := expandedGrants db request.tenantID request.subject request.requested request.now
  memberGroups := memberGroups db request.tenantID request.subject request.now
  memberPositions := memberPositions db request.tenantID request.subject request.now
  resourceRelationships := resourceRelationshipsOfBatch db request.tenantID request.now
  relationships := relationshipsOfBatch db request.tenantID request.now

abbrev PolicyReading (α : Type) := Reading PolicyReads AuthorizationError α

/-- A query that is sent only when its answer is needed. -/
def readWhen {α : Type} (needed : Bool) (answer : PolicyReads → α) (absent : α) :
    PolicyReading α :=
  if needed then read answer else pure absent

section Loaders

variable (env : Environment) (request : Request)

def readTenantGrants : PolicyReading (List TenantGrant) :=
  if request.tenantID = "" || request.subject = "" then
    throw (.invalidArgument "tenant and subject are required")
  else if request.requested = [] then pure []
  else do
    let grants ← read PolicyReads.effectiveGrants
    let groupIDs ← checked PolicyReads.dynamicGroupIDs
    let dynamicGrants ← readWhen (groupIDs ≠ []) (fun reads => reads.dynamicGroupGrants groupIDs) []
    given (matchingConditions env request.trusted TenantGrant.conditionJSON
      (grants ++ dynamicGrants))

def readOwnDepartments (needDepartment needDescendants : Bool) :
    Option String → PolicyReading (List String)
  | some departmentID => do
    let descendants ← readWhen needDescendants
      (fun reads => reads.departmentDescendants departmentID) []
    return (if needDepartment then [departmentID] else []) ++ descendants
  | none => pure []

/-- The departments are read only as far as some data scope needs them. -/
def readDataScopeFacts (grants : List TenantGrant) : PolicyReading (List String × List String) := do
  let granted := grants.filter fun g => g.permissionCode = request.permission
  let owners := if granted.any fun g => g.dataScope = .self then [request.subject] else []
  let needDepartment := granted.any fun g => g.dataScope = .department
  let needDescendants := granted.any fun g => g.dataScope = .departmentAndDescendants
  let selectedRoles := (granted.filter fun g => g.dataScope = .selectedDepartments).map
    TenantGrant.roleID
  let department ← readWhen (needDepartment || needDescendants) PolicyReads.memberDepartment none
  let own ← readOwnDepartments needDepartment needDescendants department
  let selected ← readWhen (selectedRoles ≠ [])
    (fun reads => reads.selectedDepartments selectedRoles) []
  return (mapKeys owners, mapKeys (own ++ selected))

def readIncludedDataScope (grants : List TenantGrant) :
    PolicyReading (List String × List String) :=
  if request.includeDataScope then readDataScopeFacts request grants else pure ([], [])

def readScopedGrants : PolicyReading (List ScopedGrant) := do
  let grants ← read PolicyReads.expandedGrants
  given (matchingConditions env request.trusted ScopedGrant.conditionJSON grants)

def readRelationshipRoots : PolicyReading (List RelationshipNode) := do
  let groups ← read PolicyReads.memberGroups
  let dynamicGroups ← checked PolicyReads.dynamicGroupIDs
  let positions ← read PolicyReads.memberPositions
  return rootNodes request.subject groups dynamicGroups positions

/-- One query for each batch, their rows in the order of the batches. -/
def readBatches {ρ : Type} (answer : PolicyReads → List RelationshipNode → List ρ) :
    List (List RelationshipNode) → PolicyReading (List ρ)
  | [] => pure []
  | batch :: rest => do
    let rows ← read fun reads => answer reads batch
    let others ← readBatches answer rest
    return rows ++ others

def readTraversal : Nat → Traversal → PolicyReading Traversal
  | 0, traversal => pure traversal
  | depth + 1, traversal =>
    if traversal.frontier = [] then pure traversal
    else do
      let resourceRows ← readBatches PolicyReads.resourceRelationships
        (subjectBatches traversal.frontier)
      let rows ← readBatches PolicyReads.relationships (subjectBatches traversal.frontier)
      readTraversal depth (followRelationships env request.trusted traversal resourceRows rows)

def readRelationshipGrants : PolicyReading (List RelationshipGrant) :=
  if (findOrZero request.permission).allowedRelations = [] then pure []
  else do
    let roots ← readRelationshipRoots request
    let traversal ← readTraversal env request defaultRelationshipDepth
      ⟨roots, roots, fun _ => [], []⟩
    return traversal.grants

/-- One attempt; its revision is filled in when the attempt is accepted. -/
def readSnapshot : PolicyReading Snapshot := do
  let (tenantActive, memberActive) ← read PolicyReads.membershipState
  let entityIDs ← read PolicyReads.entityIDs
  if memberActive then
    let tenantGrants ← readTenantGrants env request
    let (ownerIDs, departmentIDs) ← readIncludedDataScope request tenantGrants
    let scopedGrants ← readScopedGrants env request
    let relationshipGrants ← readRelationshipGrants env request
    return { revision := 0, tenantActive, memberActive, entityIDs, tenantGrants, scopedGrants,
             relationshipGrants, ownerIDs, departmentIDs }
  else return { revision := 0, tenantActive, memberActive, entityIDs }

def policySnapshotAttempts : Nat := 3

def acceptSnapshot (accepted : Nat × Snapshot) : Snapshot :=
  { accepted.2 with revision := accepted.1 }

/-- The attempts, until one reads the same revision before and after. -/
def snapshotAttempts : Query Db (Except AuthorizationError (Nat × Snapshot)) :=
  optimistic (fun db => db.policyRevisions request.tenantID) (policyReads env request)
    (readSnapshot env request).run .authorizationChanged policySnapshotAttempts

/-- The snapshot the call returns, and how many queries it asked. -/
def snapshot (seen : Nat → Db) : Nat × Except AuthorizationError Snapshot :=
  let (asked, result) := (snapshotAttempts env request).run seen 0
  (asked, result.map acceptSnapshot)

end Loaders

section OneState

variable {env : Environment} {request : Request} {db : Db}

theorem evaluate_readWhen {α : Type} (reads : PolicyReads) (needed : Bool)
    (answer : PolicyReads → α) (absent : α) :
    evaluate reads (readWhen needed answer absent) =
      .ok (if needed then answer reads else absent) := by
  cases needed <;> rfl

theorem evaluate_readTenantGrants :
    evaluate (policyReads env request db) (readTenantGrants env request) =
      loadTenantGrants db request.tenantID request.subject env request.requested
        request.trusted := by
  unfold readTenantGrants loadTenantGrants
  split_ifs
  · rfl
  · rfl
  · simp only [evaluate_bind, evaluate_read, evaluate_checked, ok_bind, evaluate_readWhen,
      policyReads_effectiveGrants, policyReads_dynamicGroupIDs, policyReads_dynamicGroupGrants,
      Request.now]
    cases matchingDynamicGroupIDs db request.tenantID request.subject env with
    | error e => rfl
    | ok groupIDs =>
      by_cases hnone : groupIDs = []
      · simp [hnone, dynamicGroupGrants, dynamicGroupRoles]
      · simp [hnone]

theorem evaluate_readOwnDepartments (reads : PolicyReads) (needDepartment needDescendants : Bool)
    (department : Option String) :
    evaluate reads (readOwnDepartments needDepartment needDescendants department) =
      .ok (match department with
        | some departmentID => (if needDepartment then [departmentID] else []) ++
          (if needDescendants then reads.departmentDescendants departmentID else [])
        | none => []) := by
  cases department with
  | none => rfl
  | some departmentID =>
    simp only [readOwnDepartments, evaluate_bind, evaluate_readWhen, ok_bind, evaluate_pure]

theorem evaluate_readDataScopeFacts (grants : List TenantGrant) :
    evaluate (policyReads env request db) (readDataScopeFacts request grants) =
      .ok (loadDataScopeFacts db request.tenantID request.permission request.subject grants) := by
  simp only [readDataScopeFacts, loadDataScopeFacts, evaluate_bind, evaluate_readWhen,
    evaluate_readOwnDepartments, ok_bind, evaluate_pure, policyReads_memberDepartment,
    policyReads_departmentDescendants, policyReads_selectedDepartments]
  generalize grants.filter (fun g => g.permissionCode = request.permission) = granted
  generalize (granted.filter fun g => decide (g.dataScope = .selectedDepartments)).map
    TenantGrant.roleID = selectedRoles
  have hselected : (if decide (selectedRoles ≠ []) = true then
      selectedDepartments db request.tenantID selectedRoles else []) =
      selectedDepartments db request.tenantID selectedRoles := by
    by_cases hnone : selectedRoles = []
    · simp [hnone, selectedDepartments]
    · simp [hnone]
  rw [hselected]
  cases memberDepartment db request.tenantID request.subject with
  | none => simp
  | some departmentID =>
    cases granted.any fun g => decide (g.dataScope = .department) <;>
      cases granted.any fun g => decide (g.dataScope = .departmentAndDescendants) <;> rfl

theorem evaluate_readIncludedDataScope (grants : List TenantGrant) :
    evaluate (policyReads env request db) (readIncludedDataScope request grants) =
      .ok (if request.includeDataScope then loadDataScopeFacts db request.tenantID
        request.permission request.subject grants else ([], [])) := by
  unfold readIncludedDataScope
  split_ifs
  · exact evaluate_readDataScopeFacts grants
  · rfl

theorem evaluate_readScopedGrants :
    evaluate (policyReads env request db) (readScopedGrants env request) =
      loadScopedGrants db request.tenantID env request.subject request.requested
        request.trusted := rfl

theorem evaluate_readBatches {ρ : Type} (reads : PolicyReads)
    (answer : PolicyReads → List RelationshipNode → List ρ)
    (batches : List (List RelationshipNode)) :
    evaluate reads (readBatches answer batches) = .ok (batches.flatMap (answer reads)) := by
  induction batches with
  | nil => rfl
  | cons batch rest ih => simp [readBatches, ih]

theorem evaluate_readTraversal (depth : Nat) (traversal : Traversal) :
    evaluate (policyReads env request db) (readTraversal env request depth traversal) =
      .ok (AuthorizationGrants.traverse db request.tenantID env request.trusted depth traversal) := by
  induction depth generalizing traversal with
  | zero => rfl
  | succ depth ih =>
    unfold readTraversal AuthorizationGrants.traverse
    split_ifs
    · rfl
    · simp only [evaluate_bind, evaluate_readBatches, ok_bind, ih]
      rfl

theorem evaluate_readRelationshipGrants :
    evaluate (policyReads env request db) (readRelationshipGrants env request) =
      relationshipGrantsFor env db request.tenantID request.permission request.subject
        request.trusted := by
  unfold readRelationshipGrants relationshipGrantsFor loadRelationshipGrants
  split_ifs
  · rfl
  · simp only [evaluate_bind, readRelationshipRoots, relationshipRoots, evaluate_read,
      evaluate_checked, evaluate_pure, evaluate_readTraversal, ok_bind,
      policyReads_memberGroups, policyReads_dynamicGroupIDs, policyReads_memberPositions,
      Request.now]
    cases matchingDynamicGroupIDs db request.tenantID request.subject env with
    | error e => rfl
    | ok groupIDs => rfl

/-- On one state the program reads the snapshot of that state. -/
theorem evaluate_readSnapshot :
    (evaluate (policyReads env request db) (readSnapshot env request)).map
        (fun s => acceptSnapshot (db.policyRevisions request.tenantID, s)) =
      policySnapshot env db request.tenantID request.focusEntityID request.permission
        request.subject request.includeDataScope request.trusted := by
  simp only [readSnapshot, policySnapshot, evaluate_bind, evaluate_read, ok_bind,
    policyReads_membershipState, policyReads_entityIDs]
  by_cases hmember : (db.tenantMembershipState request.tenantID request.subject).2 = true
  · simp only [hmember, if_true, evaluate_bind, evaluate_readTenantGrants,
      evaluate_readScopedGrants, evaluate_readRelationshipGrants, Request.requested]
    cases loadTenantGrants db request.tenantID request.subject env
        (requestedPermissions [request.permission]) request.trusted with
    | error e => rfl
    | ok tenantGrants =>
      simp only [ok_bind, evaluate_readIncludedDataScope]
      cases loadScopedGrants db request.tenantID env request.subject
          (requestedPermissions [request.permission]) request.trusted with
      | error e => rfl
      | ok scopedGrants =>
        simp only [ok_bind]
        cases relationshipGrantsFor env db request.tenantID request.permission request.subject
            request.trusted with
        | error e => rfl
        | ok relationshipGrants => rfl
  · simp only [hmember]
    rfl

end OneState

end PolicySnapshot
