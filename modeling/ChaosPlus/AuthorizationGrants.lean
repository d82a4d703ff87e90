import ChaosPlus.AuthorizationCatalog
import ChaosPlus.MemberRule
import ChaosPlus.PolicyCondition
import ChaosPlus.PolicyStore
import ChaosPlus.RecursiveQuery
import Mathlib.Data.List.Sort

/-!
# Grants a subject holds

The queries of the authorizer over the policy tables: tenant grants from roles, scoped
grants from entity bindings and their descendants, and grants along relationship paths.
Row order, which only decides the reported path among several, is the table's own.
-/
namespace AuthorizationGrants

open AuthorizationCatalog PolicyCondition PolicyStore

/-- Facts outside the program: the time zones and the lower-case mapping. -/
structure Environment where
  zones : ZoneDatabase
  lower : Char → Char

inductive AuthorizationError where
  | condition (failure : Failure)
  | memberRule (message : String)
  | invalidArgument (message : String)
  | entityNotFound
  | authorizationChanged
  deriving DecidableEq, Repr

structure TenantGrant where
  permissionCode : String
  roleID : String
  sourceType : String
  sourceID : String
  dataScope : DataScope
  conditionJSON : String
  deriving DecidableEq, Repr

structure ScopedGrant where
  permissionCode : String
  roleID : String
  effect : BindingEffect
  scopeID : String
  entityID : String
  depth : Nat
  conditionJSON : String
  deriving DecidableEq, Repr

structure RelationshipNode where
  type : String
  id : String
  relation : String
  deriving DecidableEq, Repr

structure RelationshipStep where
  entityID : String
  subjectType : String
  subjectID : String
  subjectRelation : String
  relation : String
  resourceType : String
  resourceID : String
  condition : String
  deriving DecidableEq, Repr

structure RelationshipGrant where
  entityID : String
  resourceType : String
  resourceID : String
  relation : String
  path : List RelationshipStep
  deriving DecidableEq, Repr

/-- A stored condition; its bytes are the text's. -/
def conditionHolds (env : Environment) (conditionJSON : String) (trusted : TrustedContext) :
    Except Failure Bool :=
  evaluateCondition env.zones (JsonDocument.encodeUtf8 conditionJSON) trusted

/-- The permission and the tenant administrator's code, without repetition. -/
def requestedPermissions (permissions : List String) : List String :=
  (permissions ++ ["tenant_administer"]).dedup

def isAdministratorPermission (permission : String) : Bool := permission = "tenant_administer"

def windowOpen (startsAt endsAt now : Millis) : Bool :=
  (startsAt = 0 || startsAt ≤ now) && (endsAt = 0 || endsAt > now)

/-- Keeps the rows whose condition holds; a condition that cannot be evaluated fails all. -/
def matchingConditions {α : Type} (env : Environment) (trusted : TrustedContext)
    (condition : α → String) : List α → Except AuthorizationError (List α)
  | [] => .ok []
  | row :: rest =>
    match conditionHolds env (condition row) trusted with
    | .error failure => .error (.condition failure)
    | .ok holds => do
      let matched ← matchingConditions env trusted condition rest
      return if holds then row :: matched else matched

section TenantGrants

variable (db : Db) (tenantID subject : String)

structure EffectiveRole where
  roleID : String
  sourceType : String
  sourceID : String
  deriving DecidableEq, Repr

def memberRoles : List EffectiveRole :=
  (db.roleMembers.rows.filter fun m => m.tenantID = tenantID && m.userSubject = subject).map
    fun m => ⟨m.roleID, "role_member", m.userSubject⟩

def temporaryRoles (now : Millis) : List EffectiveRole :=
  (db.temporaryRoleGrants.rows.filter fun g =>
    g.tenantID = tenantID && g.principalID = subject && g.startsAt ≤ now && g.endsAt > now).map
    fun g => ⟨g.roleID, "temporary_role", g.id⟩

def staticGroupActive (groupID : String) : Bool :=
  db.groups.rows.any fun g =>
    g.tenantID = tenantID && g.id = groupID && g.status = .active && g.groupType = .static

def groupMembershipOpen (groupID : String) (now : Millis) : Bool :=
  db.groupMembers.rows.any fun gm =>
    gm.tenantID = tenantID && gm.groupID = groupID && gm.principalID = subject &&
      windowOpen gm.startsAt gm.endsAt now

def groupRoles (now : Millis) : List EffectiveRole :=
  (db.groupRoleBindings.rows.filter fun b =>
    b.tenantID = tenantID && staticGroupActive db tenantID b.groupID &&
      groupMembershipOpen db tenantID subject b.groupID now).map
    fun b => ⟨b.roleID, "group", b.groupID⟩

def positionActive (positionID : String) : Bool :=
  db.positions.rows.any fun p => p.tenantID = tenantID && p.id = positionID && p.status = .active

def positionMembershipOpen (positionID : String) (now : Millis) : Bool :=
  db.positionMembers.rows.any fun pm =>
    pm.tenantID = tenantID && pm.positionID = positionID && pm.principalID = subject &&
      windowOpen pm.startsAt pm.endsAt now

def positionRoles (now : Millis) : List EffectiveRole :=
  (db.positionRoleBindings.rows.filter fun b =>
    b.tenantID = tenantID && positionActive db tenantID b.positionID &&
      positionMembershipOpen db tenantID subject b.positionID now).map
    fun b => ⟨b.roleID, "position", b.positionID⟩

/-- The union of the role sources, each joined with the active membership row. -/
def effectiveRoles (now : Millis) : List EffectiveRole :=
  if db.activeMemberRow tenantID subject then
    (memberRoles db tenantID subject ++ temporaryRoles db tenantID subject now ++
      groupRoles db tenantID subject now ++ positionRoles db tenantID subject now).dedup
  else []

/-- A role without a data scope row has the whole tenant. -/
def roleDataScope (roleID : String) : DataScope :=
  match db.roleDataScopes.find? (tenantID, roleID) with
  | some row => row.scopeType
  | none => .all

/-- The requested permissions of one role, carried by one of its sources. -/
def grantsOfRole (requested : List String) (role : EffectiveRole) : List TenantGrant :=
  (db.rolePermissions.rows.filter fun rp =>
    rp.tenantID = tenantID && rp.roleID = role.roleID && requested.contains rp.permissionCode).map
    fun rp => ⟨rp.permissionCode, role.roleID, role.sourceType, role.sourceID,
      roleDataScope db tenantID role.roleID, rp.conditionJSON⟩

/-- The facts of an active member, joined with the department when there is one. -/
def memberFacts : Option MemberRule.MemberFacts :=
  match db.tenantMembers.find? (tenantID, subject) with
  | some tm =>
    if tm.status = .active then
      some ⟨tm.userSubject, tm.email,
        ((db.memberDepartments.find? (tenantID, subject)).map
          MemberDepartmentRow.departmentID).getD "", "active"⟩
    else none
  | none => none

def dynamicGroups : List GroupRow :=
  db.groups.rows.filter fun g =>
    g.tenantID = tenantID && g.groupType = .dynamic && g.status = .active

def matchingGroups (env : Environment) (facts : MemberRule.MemberFacts) :
    List GroupRow → Except AuthorizationError (List String)
  | [] => .ok []
  | group :: rest =>
    match MemberRule.evaluateMemberRule env.lower
        (JsonDocument.encodeUtf8 group.ruleJSON) facts with
    | .error message => .error (.memberRule message)
    | .ok matched => do
      let ids ← matchingGroups env facts rest
      return if matched then group.id :: ids else ids

def matchingDynamicGroupIDs (env : Environment) : Except AuthorizationError (List String) :=
  match memberFacts db tenantID subject with
  | some facts => matchingGroups env facts (dynamicGroups db tenantID)
  | none => .ok []

/-- The roles bound to the dynamic groups that selected the subject. -/
def dynamicGroupRoles (groupIDs : List String) : List EffectiveRole :=
  (db.groupRoleBindings.rows.filter fun b =>
    b.tenantID = tenantID && groupIDs.contains b.groupID).map
    fun b => ⟨b.roleID, "group", b.groupID⟩

/-- The query over the role sources. -/
def effectiveGrants (requested : List String) (now : Millis) : List TenantGrant :=
  ((effectiveRoles db tenantID subject now).flatMap (grantsOfRole db tenantID requested)).dedup

/-- The query over the dynamic groups that selected the subject. -/
def dynamicGroupGrants (requested groupIDs : List String) : List TenantGrant :=
  (dynamicGroupRoles db tenantID groupIDs).flatMap (grantsOfRole db tenantID requested)

def loadTenantGrants (env : Environment) (requested : List String) (trusted : TrustedContext) :
    Except AuthorizationError (List TenantGrant) :=
  if tenantID = "" || subject = "" then
    .error (.invalidArgument "tenant and subject are required")
  else if requested = [] then .ok []
  else do
    let grants := effectiveGrants db tenantID subject requested trusted.time
    let groupIDs ← matchingDynamicGroupIDs db tenantID subject env
    let dynamicGrants := dynamicGroupGrants db tenantID requested groupIDs
    matchingConditions env trusted TenantGrant.conditionJSON (grants ++ dynamicGrants)

end TenantGrants

section DataScopes

variable (db : Db) (tenantID : String)

def departmentActive (departmentID : String) : Bool :=
  db.departments.rows.any fun d =>
    d.tenantID = tenantID && d.id = departmentID && d.status = .active

/-- The subject's department, when it is active. -/
def memberDepartment (subject : String) : Option String :=
  match db.memberDepartments.find? (tenantID, subject) with
  | some md =>
    if departmentActive db tenantID md.departmentID && md.departmentID ≠ "" then
      some md.departmentID
    else none
  | none => none

def departmentDescendants (departmentID : String) : List String :=
  (db.departmentClosure.rows.filter fun c =>
    c.tenantID = tenantID && c.ancestorID = departmentID &&
      departmentActive db tenantID c.descendantID).map DepartmentClosureRow.descendantID

def selectedDepartments (roleIDs : List String) : List String :=
  (db.roleScopeDepartments.rows.filter fun rsd =>
    rsd.tenantID = tenantID && roleIDs.contains rsd.roleID &&
      departmentActive db tenantID rsd.departmentID).map RoleScopeDepartmentRow.departmentID

def mapKeys (values : List String) : List String := values.dedup.insertionSort (· ≤ ·)

/-- The owners and departments the requested permission is restricted to. -/
def loadDataScopeFacts (permission subject : String) (grants : List TenantGrant) :
    List String × List String :=
  let granted := grants.filter fun g => g.permissionCode = permission
  let owners := if granted.any fun g => g.dataScope = .self then [subject] else []
  let needDepartment := granted.any fun g => g.dataScope = .department
  let needDescendants := granted.any fun g => g.dataScope = .departmentAndDescendants
  let selectedRoles := (granted.filter fun g => g.dataScope = .selectedDepartments).map
    TenantGrant.roleID
  let own := match memberDepartment db tenantID subject with
    | some departmentID =>
      (if needDepartment then [departmentID] else []) ++
        (if needDescendants then departmentDescendants db tenantID departmentID else [])
    | none => []
  (mapKeys owners, mapKeys (own ++ selectedDepartments db tenantID selectedRoles))

end DataScopes

section ScopedGrants

variable (db : Db) (tenantID : String)

def maxInheritedDepth : Nat := 15

def bindingOpen (expiresAt now : Millis) : Bool := expiresAt = 0 || expiresAt > now

/-- The bindings of the subject at their own entity. -/
def boundGrants (subject : String) (requested : List String) (now : Millis) : List ScopedGrant :=
  if db.activeMemberRow tenantID subject then
    (db.roleBindings.rows.filter fun b =>
      b.tenantID = tenantID && b.principalID = subject && b.scopeType = "entity" &&
        bindingOpen b.expiresAt now && db.entityActive tenantID b.scopeID).flatMap fun b =>
      (db.rolePermissions.rows.filter fun p =>
        p.tenantID = tenantID && p.roleID = b.roleID && requested.contains p.permissionCode).map
        fun p => ⟨p.permissionCode, b.roleID, b.effect, b.scopeID, b.scopeID, 0, p.conditionJSON⟩
  else []

/-- One round of the recursion: the grant at the active children of its entity. -/
def inheritedGrants (grant : ScopedGrant) : List ScopedGrant :=
  if grant.depth < maxInheritedDepth then
    (db.entities.rows.filter fun e =>
      e.tenantID = tenantID && e.parentID = some grant.entityID && e.status = .active).map
      fun e => { grant with entityID := e.id, depth := grant.depth + 1 }
  else []

def expandedGrants (subject : String) (requested : List String) (now : Millis) :
    List ScopedGrant :=
  (RecursiveQuery.rounds (inheritedGrants db tenantID) (maxInheritedDepth + 1)
    (boundGrants db tenantID subject requested now)).dedup

def loadScopedGrants (env : Environment) (subject : String) (requested : List String)
    (trusted : TrustedContext) : Except AuthorizationError (List ScopedGrant) :=
  matchingConditions env trusted ScopedGrant.conditionJSON
    (expandedGrants db tenantID subject requested trusted.time)

end ScopedGrants

section Relationships

variable (db : Db) (tenantID : String)

def defaultRelationshipDepth : Nat := 8

def relationshipConditionMatches (env : Environment) (conditionJSON : String)
    (trusted : TrustedContext) : Bool :=
  match conditionHolds env conditionJSON trusted with
  | .ok matched => matched
  | .error _ => false

def memberGroups (subject : String) (now : Millis) : List String :=
  (db.groupMembers.rows.filter fun gm =>
    gm.tenantID = tenantID && gm.principalID = subject &&
      windowOpen gm.startsAt gm.endsAt now && staticGroupActive db tenantID gm.groupID).map
    GroupMemberRow.groupID

def memberPositions (subject : String) (now : Millis) : List String :=
  (db.positionMembers.rows.filter fun pm =>
    pm.tenantID = tenantID && pm.principalID = subject &&
      windowOpen pm.startsAt pm.endsAt now && positionActive db tenantID pm.positionID).map
    PositionMemberRow.positionID

def rootNodes (subject : String) (groups dynamicGroups positions : List String) :
    List RelationshipNode :=
  [⟨"principal", subject, ""⟩] ++
    (groups ++ dynamicGroups).map (fun id => ⟨"group", id, "member"⟩) ++
    positions.map (fun id => ⟨"position", id, "member"⟩)

/-- The subject itself, then its groups and positions. -/
def relationshipRoots (env : Environment) (subject : String) (now : Millis) :
    Except AuthorizationError (List RelationshipNode) := do
  let groups := memberGroups db tenantID subject now
  let dynamicGroups ← matchingDynamicGroupIDs db tenantID subject env
  let positions := memberPositions db tenantID subject now
  return rootNodes subject groups dynamicGroups positions

def entityOfTypeActive (entityID type : String) : Bool :=
  db.entities.rows.any fun e =>
    e.tenantID = tenantID && e.id = entityID && e.type = type && e.status = .active

def relationshipSubject (row : RelationshipRow) : RelationshipNode :=
  ⟨row.subjectType, row.subjectID, row.subjectRelation⟩

def resourceRelationshipSubject (row : ResourceRelationshipRow) : RelationshipNode :=
  ⟨row.subjectType, row.subjectID, row.subjectRelation⟩

def relationshipQueryBatch : Nat := 200

/-- The loop over the start positions; the fuel is the number of subjects. -/
def batchesFrom : Nat → List RelationshipNode → List (List RelationshipNode)
  | 0, _ => []
  | fuel + 1, subjects =>
    if subjects = [] then []
    else subjects.take relationshipQueryBatch ::
      batchesFrom fuel (subjects.drop relationshipQueryBatch)

def subjectBatches (subjects : List RelationshipNode) : List (List RelationshipNode) :=
  batchesFrom subjects.length subjects

/-- The query of one batch of subjects. -/
def relationshipsOfBatch (now : Millis) (batch : List RelationshipNode) : List RelationshipRow :=
  db.relationships.rows.filter fun rel =>
    rel.tenantID = tenantID && windowOpen rel.startsAt rel.endsAt now &&
      entityOfTypeActive db tenantID rel.resourceID rel.resourceType &&
      batch.contains (relationshipSubject rel)

def resourceRelationshipsOfBatch (now : Millis) (batch : List RelationshipNode) :
    List ResourceRelationshipRow :=
  db.resourceRelationships.rows.filter fun rel =>
    rel.tenantID = tenantID && windowOpen rel.startsAt rel.endsAt now &&
      db.entityActive tenantID rel.entityID &&
      batch.contains (resourceRelationshipSubject rel)

def listActiveRelationshipsBySubjects (subjects : List RelationshipNode) (now : Millis) :
    List RelationshipRow :=
  (subjectBatches subjects).flatMap (relationshipsOfBatch db tenantID now)

def listActiveResourceRelationshipsBySubjects (subjects : List RelationshipNode) (now : Millis) :
    List ResourceRelationshipRow :=
  (subjectBatches subjects).flatMap (resourceRelationshipsOfBatch db tenantID now)

theorem mem_batchesFrom {fuel : Nat} {subjects : List RelationshipNode}
    (hfuel : subjects.length ≤ fuel) {node : RelationshipNode} :
    (∃ batch ∈ batchesFrom fuel subjects, node ∈ batch) ↔ node ∈ subjects := by
  induction fuel generalizing subjects with
  | zero =>
    have hempty : subjects = [] := List.length_eq_zero_iff.mp (by omega)
    simp [batchesFrom, hempty]
  | succ fuel ih =>
    by_cases hempty : subjects = []
    · simp [batchesFrom, hempty]
    · have hdropped : (subjects.drop relationshipQueryBatch).length ≤ fuel := by
        have hpos := List.length_pos_iff.mpr hempty
        rw [List.length_drop]
        simp only [relationshipQueryBatch]
        omega
      simp only [batchesFrom, if_neg hempty, List.mem_cons, exists_eq_or_imp, ih hdropped]
      rw [← List.mem_append, List.take_append_drop]

/-- The batches split the subjects without losing one. -/
theorem mem_subjectBatches {subjects : List RelationshipNode} {node : RelationshipNode} :
    (∃ batch ∈ subjectBatches subjects, node ∈ batch) ↔ node ∈ subjects :=
  mem_batchesFrom (Nat.le_refl _)

variable {db tenantID}

theorem mem_listActiveRelationshipsBySubjects {subjects : List RelationshipNode} {now : Millis}
    {row : RelationshipRow} :
    row ∈ listActiveRelationshipsBySubjects db tenantID subjects now ↔
      row ∈ db.relationships ∧ row.tenantID = tenantID ∧
        windowOpen row.startsAt row.endsAt now = true ∧
        entityOfTypeActive db tenantID row.resourceID row.resourceType = true ∧
        relationshipSubject row ∈ subjects := by
  rw [← @mem_subjectBatches subjects]
  simp only [listActiveRelationshipsBySubjects, relationshipsOfBatch, List.mem_flatMap,
    List.mem_filter, Bool.and_eq_true, decide_eq_true_eq, List.contains_iff_mem,
    KeyedTable.Table.mem_def]
  constructor
  · rintro ⟨batch, hbatch, hrow, ⟨⟨htenant, hopen⟩, hactive⟩, hsubject⟩
    exact ⟨hrow, htenant, hopen, hactive, batch, hbatch, hsubject⟩
  · rintro ⟨hrow, htenant, hopen, hactive, batch, hbatch, hsubject⟩
    exact ⟨batch, hbatch, hrow, ⟨⟨htenant, hopen⟩, hactive⟩, hsubject⟩

theorem mem_listActiveResourceRelationshipsBySubjects {subjects : List RelationshipNode}
    {now : Millis} {row : ResourceRelationshipRow} :
    row ∈ listActiveResourceRelationshipsBySubjects db tenantID subjects now ↔
      row ∈ db.resourceRelationships ∧ row.tenantID = tenantID ∧
        windowOpen row.startsAt row.endsAt now = true ∧
        db.entityActive tenantID row.entityID = true ∧
        resourceRelationshipSubject row ∈ subjects := by
  rw [← @mem_subjectBatches subjects]
  simp only [listActiveResourceRelationshipsBySubjects, resourceRelationshipsOfBatch,
    List.mem_flatMap, List.mem_filter, Bool.and_eq_true, decide_eq_true_eq, List.contains_iff_mem,
    KeyedTable.Table.mem_def]
  constructor
  · rintro ⟨batch, hbatch, hrow, ⟨⟨htenant, hopen⟩, hactive⟩, hsubject⟩
    exact ⟨hrow, htenant, hopen, hactive, batch, hbatch, hsubject⟩
  · rintro ⟨hrow, htenant, hopen, hactive, batch, hbatch, hsubject⟩
    exact ⟨batch, hbatch, hrow, ⟨⟨htenant, hopen⟩, hactive⟩, hsubject⟩

variable (db tenantID)

structure Traversal where
  frontier : List RelationshipNode
  visited : List RelationshipNode
  paths : RelationshipNode → List RelationshipStep
  grants : List RelationshipGrant

/-- A business resource is a terminal node of the traversal. -/
def resourceGrant (paths : RelationshipNode → List RelationshipStep)
    (row : ResourceRelationshipRow) : RelationshipGrant :=
  ⟨row.entityID, row.resourceType, row.resourceID, row.relation,
    paths (resourceRelationshipSubject row) ++ [⟨row.entityID, row.subjectType, row.subjectID,
      row.subjectRelation, row.relation, row.resourceType, row.resourceID, row.conditionJSON⟩]⟩

/-- Follows one edge to a node that was not visited; `frontier` collects the next round. -/
def visitRelationship (traversal : Traversal) (row : RelationshipRow) : Traversal :=
  let target : RelationshipNode := ⟨"entity", row.resourceID, row.relation⟩
  if traversal.visited.contains target then traversal
  else
    let path := traversal.paths (relationshipSubject row) ++ [⟨"", row.subjectType, row.subjectID,
      row.subjectRelation, row.relation, row.resourceType, row.resourceID, row.conditionJSON⟩]
    { frontier := traversal.frontier ++ [target]
      visited := target :: traversal.visited
      paths := fun node => if node = target then path else traversal.paths node
      grants := traversal.grants ++ [⟨"", row.resourceType, row.resourceID, row.relation, path⟩] }

/-- What one round does with the rows it has read. -/
def followRelationships (env : Environment) (trusted : TrustedContext) (traversal : Traversal)
    (resourceRows : List ResourceRelationshipRow) (rows : List RelationshipRow) : Traversal :=
  (rows.filter fun row => relationshipConditionMatches env row.conditionJSON trusted).foldl
    visitRelationship
    { traversal with
      frontier := []
      grants := traversal.grants ++ (resourceRows.filter fun row =>
        relationshipConditionMatches env row.conditionJSON trusted).map
          (resourceGrant traversal.paths) }

def traversalRound (env : Environment) (trusted : TrustedContext) (traversal : Traversal) :
    Traversal :=
  followRelationships env trusted traversal
    (listActiveResourceRelationshipsBySubjects db tenantID traversal.frontier trusted.time)
    (listActiveRelationshipsBySubjects db tenantID traversal.frontier trusted.time)

def traverse (env : Environment) (trusted : TrustedContext) : Nat → Traversal → Traversal
  | 0, traversal => traversal
  | depth + 1, traversal =>
    if traversal.frontier = [] then traversal
    else traverse env trusted depth (traversalRound db tenantID env trusted traversal)

def loadRelationshipGrants (env : Environment) (subject : String) (trusted : TrustedContext) :
    Except AuthorizationError (List RelationshipGrant) := do
  let roots ← relationshipRoots db tenantID env subject trusted.time
  return (traverse db tenantID env trusted defaultRelationshipDepth
    ⟨roots, roots, fun _ => [], []⟩).grants

def relationshipAllowed (action : Action) (grant : RelationshipGrant) : Bool :=
  (action.resource = "entity" || action.resource = grant.resourceType) &&
    action.allowedRelations.contains grant.relation

end Relationships

end AuthorizationGrants
