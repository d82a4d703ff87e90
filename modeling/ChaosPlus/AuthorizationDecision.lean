import ChaosPlus.AuthorizationGrants

/-!
# Decisions of the authorizer

The policy snapshot of one state, the entity decision with its explanation, the compiled
row constraint, and the tenant-wide and platform checks.
-/
namespace AuthorizationDecision

open AuthorizationCatalog AuthorizationGrants PolicyCondition PolicyStore

structure Snapshot where
  revision : Nat
  tenantActive : Bool
  memberActive : Bool
  entityIDs : List String
  tenantGrants : List TenantGrant := []
  scopedGrants : List ScopedGrant := []
  relationshipGrants : List RelationshipGrant := []
  ownerIDs : List String := []
  departmentIDs : List String := []

/-- Active entities of the tenant, narrowed to the focus unless it is empty. -/
def activeEntityIDs (db : Db) (tenantID focusEntityID : String) : List String :=
  ((db.entities.rows.filter fun e =>
    e.tenantID = tenantID && e.status = .active &&
      (focusEntityID = "" || e.id = focusEntityID)).map EntityRow.id).insertionSort (· ≤ ·)

/-- Relationships are read only for permissions that some relation satisfies. -/
def relationshipGrantsFor (env : Environment) (db : Db) (tenantID permission subject : String)
    (trusted : TrustedContext) : Except AuthorizationError (List RelationshipGrant) :=
  if (findOrZero permission).allowedRelations = [] then .ok []
  else loadRelationshipGrants db tenantID env subject trusted

/-- The snapshot of one database state. -/
def policySnapshot (env : Environment) (db : Db) (tenantID focusEntityID permission subject : String)
    (includeDataScope : Bool) (trusted : TrustedContext) : Except AuthorizationError Snapshot := do
  let requested := requestedPermissions [permission]
  let (tenantActive, memberActive) := db.tenantMembershipState tenantID subject
  let entityIDs := activeEntityIDs db tenantID focusEntityID
  let revision := db.policyRevisions tenantID
  if memberActive then
    let tenantGrants ← loadTenantGrants db tenantID subject env requested trusted
    let (ownerIDs, departmentIDs) :=
      if includeDataScope then loadDataScopeFacts db tenantID permission subject tenantGrants
      else ([], [])
    let scopedGrants ← loadScopedGrants db tenantID env subject requested trusted
    let relationshipGrants ← relationshipGrantsFor env db tenantID permission subject trusted
    return { revision, tenantActive, memberActive, entityIDs, tenantGrants, scopedGrants,
             relationshipGrants, ownerIDs, departmentIDs }
  else return { revision, tenantActive, memberActive, entityIDs }

def validateAuthorizationRequest (tenantID entityID permission subject : String) :
    Except AuthorizationError Unit :=
  if tenantID = "" || permission = "" || subject = "" || tenantID.utf8ByteSize > 128 ||
      permission.utf8ByteSize > 128 || subject.utf8ByteSize > 255 then
    .error (.invalidArgument "tenant, permission, and subject are required")
  else if entityID.utf8ByteSize > 64 then .error (.invalidArgument "invalid entity id")
  else .ok ()

/-- Whether the tenant grants carry the permission for all data, and the administrator's code. -/
def tenantCapabilities (grants : List TenantGrant) (permission : String) : Bool × Bool :=
  (grants.any fun g => g.permissionCode = permission && g.dataScope = .all,
    grants.any fun g => isAdministratorPermission g.permissionCode)

structure Decision where
  allowed : Bool
  explicitlyDenied : Bool
  reason : String
  deriving DecidableEq, Repr

structure Marks where
  requestedAllow : Bool
  administratorAllow : Bool
  requestedDeny : Bool
  administratorDeny : Bool
  deriving DecidableEq, Repr

def markGrant (permission : String) (marks : Marks) (grant : ScopedGrant) : Marks :=
  let requested := grant.permissionCode = permission
  let administrator := isAdministratorPermission grant.permissionCode
  match grant.effect with
  | .deny =>
    { marks with
      requestedDeny := marks.requestedDeny || requested
      administratorDeny := marks.administratorDeny || administrator }
  | .allow =>
    { marks with
      requestedAllow := marks.requestedAllow || requested
      administratorAllow := marks.administratorAllow || administrator }

def decideMarks (marks : Marks) (relationshipAllow : Bool) : Decision :=
  if marks.requestedDeny then ⟨false, true, "explicit_deny"⟩
  else if marks.requestedAllow then ⟨true, false, "permission_grant"⟩
  else if relationshipAllow then ⟨true, false, "relationship_grant"⟩
  else if marks.administratorDeny && marks.administratorAllow then
    ⟨false, true, "administrator_scope_denied"⟩
  else if marks.administratorAllow then ⟨true, false, "administrator_grant"⟩
  else ⟨false, false, "no_matching_grant"⟩

def decideEntity (permission : String) (tenantRequested tenantAdmin : Bool)
    (grants : List ScopedGrant) (relationshipAllow : Bool) : Decision :=
  decideMarks (grants.foldl (markGrant permission) ⟨tenantRequested, tenantAdmin, false, false⟩)
    relationshipAllow

def carries (permission : String) (effect : BindingEffect) (grant : ScopedGrant) : Bool :=
  grant.effect = effect && grant.permissionCode = permission

/-- The loop over the grants computes four disjunctions. -/
theorem foldl_markGrant (permission : String) (grants : List ScopedGrant) (marks : Marks) :
    grants.foldl (markGrant permission) marks =
      { requestedAllow := marks.requestedAllow || grants.any (carries permission .allow)
        administratorAllow :=
          marks.administratorAllow || grants.any (carries "tenant_administer" .allow)
        requestedDeny := marks.requestedDeny || grants.any (carries permission .deny)
        administratorDeny :=
          marks.administratorDeny || grants.any (carries "tenant_administer" .deny) } := by
  induction grants generalizing marks with
  | nil => simp
  | cons grant rest ih =>
    rw [List.foldl_cons, ih]
    cases heffect : grant.effect <;>
      simp [markGrant, heffect, carries, isAdministratorPermission, Bool.or_assoc]

structure DecisionMatch where
  permissionCode : String
  roleID : String
  sourceType : String
  sourceID : String
  scopeType : String
  scopeID : String
  effect : BindingEffect
  inherited : Bool
  relation : String
  path : List RelationshipStep
  deriving DecidableEq, Repr

structure Explanation where
  allowed : Bool
  reason : String
  revision : Nat
  /-- The matches before they are sorted for display. -/
  matched : List DecisionMatch
  deriving DecidableEq, Repr

def grantsAt (grants : List ScopedGrant) (entityID : String) : List ScopedGrant :=
  grants.filter fun g => g.entityID = entityID

/-- The relationship grants that count for the entity, or for the business resource. -/
def targets (entityID resourceType resourceID : String) (grant : RelationshipGrant) : Bool :=
  (resourceType = "" && grant.entityID = "" && grant.resourceID = entityID) ||
    (resourceType ≠ "" && grant.entityID = entityID && grant.resourceType = resourceType &&
      grant.resourceID = resourceID)

def explainAuthorization (snapshot : Snapshot)
    (tenantID entityID resourceType resourceID permission : String) : Explanation :=
  if !snapshot.memberActive then
    ⟨false, if snapshot.tenantActive then "inactive_membership" else "inactive_tenant",
      snapshot.revision, []⟩
  else
    let (tenantRequested, tenantAdmin) := tenantCapabilities snapshot.tenantGrants permission
    let bound := grantsAt snapshot.scopedGrants entityID
    let related := snapshot.relationshipGrants.filter fun g =>
      targets entityID resourceType resourceID g && relationshipAllowed (findOrZero permission) g
    let decision := decideEntity permission tenantRequested tenantAdmin bound !related.isEmpty
    ⟨decision.allowed, decision.reason, snapshot.revision,
      snapshot.tenantGrants.map (fun g => ⟨g.permissionCode, g.roleID, g.sourceType, g.sourceID,
        "tenant", tenantID, .allow, false, "", []⟩) ++
      bound.map (fun g => ⟨g.permissionCode, g.roleID, "entity_binding", g.scopeID, "entity",
        g.scopeID, g.effect, g.depth > 0, "", []⟩) ++
      related.map (fun g => ⟨permission, "", "relationship",
        (g.path.head?.map RelationshipStep.subjectID).getD "", g.resourceType, g.resourceID, .allow,
        false, g.relation, g.path⟩)⟩

/-- The answer for an entity that is not in the active list. -/
def inactiveOrMissingEntity (db : Db) (tenantID entityID : String) (revision : Nat) :
    Except AuthorizationError Explanation :=
  if (db.entities.rows.filter fun e => e.tenantID = tenantID && e.id = entityID).isEmpty then
    .error .entityNotFound
  else .ok ⟨false, "inactive_resource", revision, []⟩

def explainEntity (env : Environment) (db : Db) (tenantID entityID permission subject : String)
    (trusted : TrustedContext) : Except AuthorizationError Explanation := do
  validateAuthorizationRequest tenantID entityID permission subject
  let snapshot ← policySnapshot env db tenantID entityID permission subject false trusted
  if snapshot.entityIDs.contains entityID then
    return explainAuthorization snapshot tenantID entityID "" "" permission
  else inactiveOrMissingEntity db tenantID entityID snapshot.revision

def checkEntity (env : Environment) (db : Db) (tenantID entityID permission subject : String)
    (trusted : TrustedContext) : Except AuthorizationError Bool := do
  let explanation ← explainEntity env db tenantID entityID permission subject trusted
  return explanation.allowed

structure DataConstraint where
  allowAll : Bool
  ownerIDs : List String
  resourceIDs : List String
  departmentIDs : List String
  ancestors : List String
  deniedIDs : List String
  revision : Nat
  deriving DecidableEq, Repr

/-- Entities by the resource id of an allowed relationship grant. -/
def allowedRelationshipsByEntity (action : Action) (grants : List RelationshipGrant)
    (entityID : String) : Bool :=
  grants.any fun g => relationshipAllowed action g && g.resourceID = entityID

def constraintDecision (snapshot : Snapshot) (permission entityID : String) : Decision :=
  let (tenantRequested, tenantAdmin) := tenantCapabilities snapshot.tenantGrants permission
  decideEntity permission tenantRequested tenantAdmin (grantsAt snapshot.scopedGrants entityID)
    (allowedRelationshipsByEntity (findOrZero permission) snapshot.relationshipGrants entityID)

def compileConstraint (snapshot : Snapshot) (permission : String) : DataConstraint :=
  if !snapshot.memberActive then ⟨false, [], [], [], [], [], snapshot.revision⟩
  else
    let (tenantRequested, tenantAdmin) := tenantCapabilities snapshot.tenantGrants permission
    let allowAll := tenantRequested || tenantAdmin
    let ancestors := (snapshot.scopedGrants.filter fun g => g.effect = .allow &&
      (g.permissionCode = permission || isAdministratorPermission g.permissionCode)).map
        ScopedGrant.scopeID
    { allowAll
      ownerIDs := snapshot.ownerIDs
      departmentIDs := snapshot.departmentIDs
      ancestors := mapKeys ancestors
      resourceIDs := if allowAll then [] else snapshot.entityIDs.filter fun id =>
        (constraintDecision snapshot permission id).allowed
      deniedIDs := snapshot.entityIDs.filter fun id =>
        !(constraintDecision snapshot permission id).allowed &&
          (constraintDecision snapshot permission id).explicitlyDenied
      revision := snapshot.revision }

def constraint (env : Environment) (db : Db) (tenantID permission subject : String)
    (trusted : TrustedContext) : Except AuthorizationError DataConstraint := do
  validateAuthorizationRequest tenantID "" permission subject
  let snapshot ← policySnapshot env db tenantID "" permission subject true trusted
  return compileConstraint snapshot permission

/-- The ownership columns of a business row. -/
structure BusinessRow where
  tenantID : String
  entityID : String
  deriving DecidableEq, Repr

/-- The conditions the constraint adds to a query, on one row. -/
def applyEntityConstraint (tenantID : String) (c : DataConstraint) (row : BusinessRow) : Bool :=
  row.tenantID = tenantID &&
    (c.allowAll || (!c.resourceIDs.isEmpty && c.resourceIDs.contains row.entityID)) &&
    (c.deniedIDs.isEmpty || !c.deniedIDs.contains row.entityID)

/-- Platform permissions are checked against platform grants only. -/
def checkPlatform (db : Db) (permission subject : String) : Except AuthorizationError Bool :=
  if permission = "" || subject = "" || permission.utf8ByteSize > 128 ||
      subject.utf8ByteSize > 255 then
    .error (.invalidArgument "platform permission and subject are required")
  else if !isPlatformPermission permission then .ok false
  else
    let count := db.principals.rows.countP fun p =>
      p.id = subject && p.status = .active &&
        ((db.platformAdministrators.rows.any fun pa => pa.principalID = p.id) ||
          db.platformGrants.rows.any fun pg =>
            pg.principalID = p.id && pg.permissionCode = permission)
    .ok (count = 1)

/-- Tenant-wide answers for a list of permissions; other codes are not in the answer. -/
def checkBulk (env : Environment) (db : Db) (tenantID : String) (permissions : List String)
    (subject : String) (trusted : TrustedContext) :
    Except AuthorizationError (String → Bool) :=
  if permissions = [] then .ok fun _ => false
  else
    let tenantPermissions := permissions.filter fun p => !isPlatformPermission p
    if tenantPermissions.contains "" then .error (.invalidArgument "permission is empty")
    else if !(db.tenantMembershipState tenantID subject).2 then .ok fun _ => false
    else do
      let grants ← loadTenantGrants db tenantID subject env
        (requestedPermissions tenantPermissions) trusted
      let granted := fun code => grants.any fun g => g.permissionCode = code
      let platformAdministrator ← checkPlatform db "platform_administer" subject
      return fun permission => permissions.contains permission &&
        (if isPlatformPermission permission then platformAdministrator
          else granted permission || granted "tenant_administer" || platformAdministrator)

def check (env : Environment) (db : Db) (tenantID permission subject : String)
    (trusted : TrustedContext) : Except AuthorizationError Bool := do
  let result ← checkBulk env db tenantID [permission] subject trusted
  return result permission

end AuthorizationDecision
