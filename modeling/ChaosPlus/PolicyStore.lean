import ChaosPlus.KeyedTable

/-!
# The authorization tables

One row type for each table the authorizer reads, with the columns some modelled query
uses, and the database as the collection of these tables. Instants are milliseconds and
an instant of zero in a window column means no bound.
-/
namespace PolicyStore

open KeyedTable

abbrev Millis := Int

inductive TenantStatus where
  | active
  | suspended
  | deleted
  deriving DecidableEq, Repr

inductive PrincipalStatus where
  | active
  | disabled
  | locked
  deriving DecidableEq, Repr

/-- Members, entities, departments, groups and positions. -/
inductive RecordStatus where
  | active
  | disabled
  deriving DecidableEq, Repr

inductive BindingEffect where
  | allow
  | deny
  deriving DecidableEq, Repr

inductive GroupType where
  | static
  | dynamic
  deriving DecidableEq, Repr

inductive ServiceAccountStatus where
  | active
  | disabled
  | deleted
  deriving DecidableEq, Repr

inductive DataScope where
  | all
  | self
  | department
  | departmentAndDescendants
  | selectedDepartments
  deriving DecidableEq, Repr

structure TenantRow where
  id : String
  status : TenantStatus
  deriving DecidableEq, Repr

structure PrincipalRow where
  id : String
  loginName : String
  email : String
  status : PrincipalStatus
  deriving DecidableEq, Repr

structure CredentialRow where
  principalID : String
  credentialVersion : Nat
  deriving DecidableEq, Repr

structure ServiceAccountRow where
  principalID : String
  ownerTenantID : String
  status : ServiceAccountStatus
  version : Int
  deriving DecidableEq, Repr

structure TenantMemberRow where
  tenantID : String
  userSubject : String
  email : String
  status : RecordStatus
  deriving DecidableEq, Repr

structure MemberDepartmentRow where
  tenantID : String
  principalID : String
  departmentID : String
  deriving DecidableEq, Repr

structure DepartmentRow where
  tenantID : String
  id : String
  status : RecordStatus
  deriving DecidableEq, Repr

structure DepartmentClosureRow where
  tenantID : String
  ancestorID : String
  descendantID : String
  depth : Nat
  deriving DecidableEq, Repr

structure RoleRow where
  tenantID : String
  id : String
  name : String
  deriving DecidableEq, Repr

structure RolePermissionRow where
  tenantID : String
  roleID : String
  permissionCode : String
  conditionJSON : String
  deriving DecidableEq, Repr

structure RoleMemberRow where
  tenantID : String
  roleID : String
  userSubject : String
  createdAt : Millis
  deriving DecidableEq, Repr

structure TemporaryRoleGrantRow where
  tenantID : String
  id : String
  roleID : String
  principalID : String
  startsAt : Millis
  endsAt : Millis
  deriving DecidableEq, Repr

structure GroupRow where
  tenantID : String
  id : String
  status : RecordStatus
  groupType : GroupType
  ruleJSON : String
  name : String := ""
  description : String := ""
  sortOrder : Int := 0
  version : Int := 1
  deriving DecidableEq, Repr

structure GroupMemberRow where
  tenantID : String
  groupID : String
  principalID : String
  startsAt : Millis
  endsAt : Millis
  deriving DecidableEq, Repr

structure GroupRoleBindingRow where
  tenantID : String
  roleID : String
  groupID : String
  deriving DecidableEq, Repr

structure PositionRow where
  tenantID : String
  id : String
  status : RecordStatus
  code : String := ""
  name : String := ""
  sortOrder : Int := 0
  version : Int := 1
  deriving DecidableEq, Repr

structure PositionMemberRow where
  tenantID : String
  positionID : String
  principalID : String
  startsAt : Millis
  endsAt : Millis
  deriving DecidableEq, Repr

structure PositionRoleBindingRow where
  tenantID : String
  roleID : String
  positionID : String
  deriving DecidableEq, Repr

structure RoleDataScopeRow where
  tenantID : String
  roleID : String
  scopeType : DataScope
  deriving DecidableEq, Repr

structure RoleScopeDepartmentRow where
  tenantID : String
  roleID : String
  departmentID : String
  deriving DecidableEq, Repr

structure EntityRow where
  tenantID : String
  id : String
  parentID : Option String
  type : String
  name : String
  status : RecordStatus
  metadata : String
  deriving DecidableEq, Repr

structure RoleBindingRow where
  tenantID : String
  roleID : String
  principalID : String
  scopeType : String
  scopeID : String
  effect : BindingEffect
  expiresAt : Millis
  deriving DecidableEq, Repr

structure RelationshipRow where
  tenantID : String
  subjectType : String
  subjectID : String
  subjectRelation : String
  relation : String
  resourceType : String
  resourceID : String
  startsAt : Millis
  endsAt : Millis
  conditionJSON : String
  deriving DecidableEq, Repr

structure ResourceRelationshipRow where
  tenantID : String
  entityID : String
  subjectType : String
  subjectID : String
  subjectRelation : String
  relation : String
  resourceType : String
  resourceID : String
  startsAt : Millis
  endsAt : Millis
  conditionJSON : String
  deriving DecidableEq, Repr

structure PlatformAdministratorRow where
  principalID : String
  deriving DecidableEq, Repr

structure PlatformGrantRow where
  principalID : String
  permissionCode : String
  deriving DecidableEq, Repr

/-- The database; `policyRevisions` reads zero where the table has no row. -/
structure Db where
  tenants : Table TenantRow.id := .empty
  principals : Table PrincipalRow.id := .empty
  credentials : Table CredentialRow.principalID := .empty
  serviceAccounts : Table ServiceAccountRow.principalID := .empty
  tenantMembers : Table (fun row : TenantMemberRow => (row.tenantID, row.userSubject)) := .empty
  memberDepartments :
    Table (fun row : MemberDepartmentRow => (row.tenantID, row.principalID)) := .empty
  departments : Table (fun row : DepartmentRow => (row.tenantID, row.id)) := .empty
  departmentClosure : Table
    (fun row : DepartmentClosureRow => (row.tenantID, row.ancestorID, row.descendantID)) := .empty
  roles : Table (fun row : RoleRow => (row.tenantID, row.id)) := .empty
  rolePermissions : Table
    (fun row : RolePermissionRow => (row.tenantID, row.roleID, row.permissionCode)) := .empty
  roleMembers : Table
    (fun row : RoleMemberRow => (row.tenantID, row.roleID, row.userSubject)) := .empty
  temporaryRoleGrants : Table
    (fun row : TemporaryRoleGrantRow => (row.tenantID, row.id)) := .empty
  groups : Table (fun row : GroupRow => (row.tenantID, row.id)) := .empty
  groupMembers : Table
    (fun row : GroupMemberRow => (row.tenantID, row.groupID, row.principalID)) := .empty
  groupRoleBindings : Table
    (fun row : GroupRoleBindingRow => (row.tenantID, row.roleID, row.groupID)) := .empty
  positions : Table (fun row : PositionRow => (row.tenantID, row.id)) := .empty
  positionMembers : Table
    (fun row : PositionMemberRow => (row.tenantID, row.positionID, row.principalID)) := .empty
  positionRoleBindings : Table
    (fun row : PositionRoleBindingRow => (row.tenantID, row.roleID, row.positionID)) := .empty
  roleDataScopes : Table (fun row : RoleDataScopeRow => (row.tenantID, row.roleID)) := .empty
  roleScopeDepartments : Table
    (fun row : RoleScopeDepartmentRow => (row.tenantID, row.roleID, row.departmentID)) := .empty
  entities : Table (fun row : EntityRow => (row.tenantID, row.id)) := .empty
  roleBindings : Table (fun row : RoleBindingRow =>
    (row.tenantID, row.roleID, row.principalID, row.scopeType, row.scopeID)) := .empty
  relationships : Table (fun row : RelationshipRow =>
    (row.tenantID, row.subjectType, row.subjectID, row.subjectRelation, row.relation,
      row.resourceType, row.resourceID)) := .empty
  resourceRelationships : Table (fun row : ResourceRelationshipRow =>
    (row.tenantID, row.entityID, row.subjectType, row.subjectID, row.subjectRelation,
      row.relation, row.resourceType, row.resourceID)) := .empty
  platformAdministrators : Table PlatformAdministratorRow.principalID := .empty
  platformGrants : Table
    (fun row : PlatformGrantRow => (row.principalID, row.permissionCode)) := .empty
  policyRevisions : String → Nat := fun _ => 0

namespace Db

/-- The revision row is inserted with one or incremented. -/
def advance (db : Db) (tenantID : String) : Db :=
  { db with policyRevisions := fun tenant =>
      if tenant = tenantID then db.policyRevisions tenant + 1 else db.policyRevisions tenant }

def tenantActive (db : Db) (tenantID : String) : Bool :=
  db.tenants.rows.any fun t => t.id = tenantID && t.status = .active

/-- The joined count of active membership rows. -/
def memberCount (db : Db) (tenantID subject : String) : Nat :=
  db.tenantMembers.rows.countP fun tm =>
    tm.tenantID = tenantID && tm.userSubject = subject && tm.status = .active

/-- Whether the tenant and the membership in it are active. -/
def tenantMembershipState (db : Db) (tenantID subject : String) : Bool × Bool :=
  let tenantActive := db.tenantActive tenantID
  (tenantActive, tenantActive && db.memberCount tenantID subject = 1)

/-- The membership row is present and active, whatever the tenant's status. -/
def activeMemberRow (db : Db) (tenantID subject : String) : Bool :=
  db.tenantMembers.rows.any fun tm =>
    tm.tenantID = tenantID && tm.userSubject = subject && tm.status = .active

theorem memberCount_eq_one {db : Db} {tenantID subject : String} :
    db.memberCount tenantID subject = 1 ↔ db.activeMemberRow tenantID subject = true := by
  unfold memberCount activeMemberRow
  rw [Table.countP_eq_one_iff (k := (tenantID, subject)), List.any_eq_true]
  · exact Iff.rfl
  · intro row hrow
    simp only [Bool.and_eq_true, decide_eq_true_eq] at hrow
    rw [hrow.1.1, hrow.1.2]

/-- The entity row of a tenant. -/
def entity? (db : Db) (tenantID entityID : String) : Option EntityRow :=
  db.entities.find? (tenantID, entityID)

/-- An entity row exists and is active. -/
def entityActive (db : Db) (tenantID entityID : String) : Bool :=
  db.entities.rows.any fun e => e.tenantID = tenantID && e.id = entityID && e.status = .active

end Db

end PolicyStore
