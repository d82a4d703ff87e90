import ChaosPlus.AdministratorGuard
import ChaosPlus.RowLocks

/-!
# The tables of access governance

Access requests with their approval step, access reviews with their items, and the policy
tables whose grants they give and take away; the statements that are sent to them and the
row each writes. The step number, which is always one, and the snapshot of a request, which
nothing reads, are left out.
-/
namespace GovernanceStore

open AdministratorGuard InterleavedTransactions KeyedTable RowLocks
open PolicyStore (Millis RoleMemberRow TemporaryRoleGrantRow GroupMemberRow PositionMemberRow
  RoleBindingRow RelationshipRow ResourceRelationshipRow RoleRow)

inductive RequestStatus where
  | pending
  | approved
  | rejected
  | cancelled
  | revoked
  deriving DecidableEq, Repr

structure RequestRow where
  tenantID : String
  id : String
  requesterID : String
  roleID : String
  roleName : String
  reason : String
  status : RequestStatus
  accessExpiresAt : Millis
  requestExpiresAt : Millis
  decidedBy : String := ""
  decisionNote : String := ""
  decidedAt : Millis := 0
  revokedBy : String := ""
  revokeReason : String := ""
  revokedAt : Millis := 0
  createdAt : Millis
  updatedAt : Millis
  deriving DecidableEq, Repr

structure ApprovalStepRow where
  tenantID : String
  requestID : String
  decision : RequestStatus := .pending
  decidedBy : String := ""
  decidedAt : Millis := 0
  note : String := ""
  deriving DecidableEq, Repr

inductive ReviewStatus where
  | opened
  | completed
  | cancelled
  deriving DecidableEq, Repr

inductive ReviewDecision where
  | pending
  | keep
  | revoke
  deriving DecidableEq, Repr

inductive GrantType where
  | permanent
  | temporary
  | group
  | position
  | entity
  | dynamicGroup
  | relationship
  deriving DecidableEq, Repr

structure ReviewRow where
  tenantID : String
  id : String
  name : String
  ownerID : String
  status : ReviewStatus
  dueAt : Millis
  completedAt : Millis := 0
  createdAt : Millis
  updatedAt : Millis
  deriving DecidableEq, Repr

structure ReviewItemRow where
  tenantID : String
  reviewID : String
  id : String
  principalID : String
  principalName : String
  roleID : String
  roleName : String
  grantType : GrantType
  grantID : String
  grantCreatedAt : Millis
  grantExpiresAt : Millis
  decision : ReviewDecision := .pending
  decidedBy : String := ""
  decisionNote : String := ""
  decidedAt : Millis := 0
  deriving DecidableEq, Repr

def RequestRow.key (row : RequestRow) : String × String := (row.tenantID, row.id)

def ApprovalStepRow.key (row : ApprovalStepRow) : String × String := (row.tenantID, row.requestID)

def ReviewRow.key (row : ReviewRow) : String × String := (row.tenantID, row.id)

def ReviewItemRow.key (row : ReviewItemRow) : String × String × String :=
  (row.tenantID, row.reviewID, row.id)

structure Db where
  policy : PolicyStore.Db := {}
  requests : Table RequestRow.key := .empty
  approvalSteps : Table ApprovalStepRow.key := .empty
  reviews : Table ReviewRow.key := .empty
  items : Table ReviewItemRow.key := .empty

/-! ## Writes -/

abbrev EntityKey := String × String × String × String × String

abbrev EdgeKey := String × String × String × String × String × String × String

abbrev ResourceEdgeKey := String × String × String × String × String × String × String × String

instance : DecidableEq EdgeKey := instDecidableEqProd

instance : DecidableEq ResourceEdgeKey := instDecidableEqProd

def relationshipKey (row : RelationshipRow) : EdgeKey :=
  (row.tenantID, row.subjectType, row.subjectID, row.subjectRelation, row.relation, row.resourceType,
    row.resourceID)

def resourceRelationshipKey (row : ResourceRelationshipRow) : ResourceEdgeKey :=
  (row.tenantID, row.entityID, row.subjectType, row.subjectID, row.subjectRelation, row.relation,
    row.resourceType, row.resourceID)

inductive Write where
  | putRequest (row : RequestRow)
  | putStep (row : ApprovalStepRow)
  | putReview (row : ReviewRow)
  | putItem (row : ReviewItemRow)
  | lockRevision (tenantID : String)
  | advanceRevision (tenantID : String)
  | putGrant (row : TemporaryRoleGrantRow)
  | deleteGrant (key : String × String)
  | deleteRoleMember (key : String × String × String)
  | deleteGroupMember (key : String × String × String)
  | deletePositionMember (key : String × String × String)
  | deleteRoleBinding (key : EntityKey)
  | deleteRelationship (key : EdgeKey)
  | deleteResourceRelationship (key : ResourceEdgeKey)
  deriving DecidableEq, Repr

/-- What a write does to the policy tables. -/
def Write.applyPolicy (policy : PolicyStore.Db) : Write → PolicyStore.Db
  | .putRequest _ | .putStep _ | .putReview _ | .putItem _ | .lockRevision _ => policy
  | .advanceRevision tenantID => policy.advance tenantID
  | .putGrant row => { policy with temporaryRoleGrants := policy.temporaryRoleGrants.put row }
  | .deleteGrant key =>
    { policy with
      temporaryRoleGrants := policy.temporaryRoleGrants.deleteWhere fun row =>
        (row.tenantID, row.id) = key }
  | .deleteRoleMember key =>
    { policy with
      roleMembers := policy.roleMembers.deleteWhere fun row =>
        (row.tenantID, row.roleID, row.userSubject) = key }
  | .deleteGroupMember key =>
    { policy with
      groupMembers := policy.groupMembers.deleteWhere fun row =>
        (row.tenantID, row.groupID, row.principalID) = key }
  | .deletePositionMember key =>
    { policy with
      positionMembers := policy.positionMembers.deleteWhere fun row =>
        (row.tenantID, row.positionID, row.principalID) = key }
  | .deleteRoleBinding key =>
    { policy with
      roleBindings := policy.roleBindings.deleteWhere fun row =>
        (row.tenantID, row.roleID, row.principalID, row.scopeType, row.scopeID) = key }
  | .deleteRelationship key =>
    { policy with relationships := policy.relationships.deleteWhere fun row => relationshipKey row = key }
  | .deleteResourceRelationship key =>
    { policy with
      resourceRelationships := policy.resourceRelationships.deleteWhere fun row =>
        resourceRelationshipKey row = key }

def Write.apply (db : Db) (w : Write) : Db :=
  match w with
  | .putRequest row => { db with requests := db.requests.put row }
  | .putStep row => { db with approvalSteps := db.approvalSteps.put row }
  | .putReview row => { db with reviews := db.reviews.put row }
  | .putItem row => { db with items := db.items.put row }
  | w => { db with policy := w.applyPolicy db.policy }

inductive Key where
  | request (key : String × String)
  | step (key : String × String)
  | review (key : String × String)
  | item (key : String × String × String)
  | revision (tenantID : String)
  | grant (key : String × String)
  | roleMember (key : String × String × String)
  | groupMember (key : String × String × String)
  | positionMember (key : String × String × String)
  | roleBinding (key : EntityKey)
  | relationship (key : EdgeKey)
  | resourceRelationship (key : ResourceEdgeKey)
  deriving DecidableEq, Repr

def Write.key : Write → Key
  | .putRequest row => .request row.key
  | .putStep row => .step row.key
  | .putReview row => .review row.key
  | .putItem row => .item row.key
  | .lockRevision tenantID | .advanceRevision tenantID => .revision tenantID
  | .putGrant row => .grant (row.tenantID, row.id)
  | .deleteGrant key => .grant key
  | .deleteRoleMember key => .roleMember key
  | .deleteGroupMember key => .groupMember key
  | .deletePositionMember key => .positionMember key
  | .deleteRoleBinding key => .roleBinding key
  | .deleteRelationship key => .relationship key
  | .deleteResourceRelationship key => .resourceRelationship key

/-- A written row is locked until the transaction ends. -/
def Write.conflicts (v w : Write) : Bool := v.key = w.key

/-! ## Statements -/

/-- Who ends a temporary grant: its request, or a review. -/
inductive Remover where
  | request
  | review
  deriving DecidableEq, Repr

inductive Statement where
  | selectMembership (tenantID principalID : String)
  | selectRole (tenantID roleID : String)
  | countGrants (tenantID roleID principalID : String) (now : Millis)
  | selectRequest (tenantID id : String)
  | insertRequest (row : RequestRow)
  | insertStep (row : ApprovalStepRow)
  | decideRequest (tenantID id : String) (decision : RequestStatus) (decidedBy note : String) (now : Millis)
  | decideStep (tenantID requestID : String) (decision : RequestStatus) (decidedBy note : String)
    (now : Millis)
  | endRequest (tenantID id : String) (current next : RequestStatus) (revokedBy reason : String)
    (now : Millis)
  | lockRevision (tenantID : String)
  | advanceRevision (tenantID : String)
  | insertGrant (row : TemporaryRoleGrantRow)
  | deleteGrant (remover : Remover) (tenantID id : String)
  | countAdministrators (tenantID : String) (now : Millis)
  | deleteRoleMember (tenantID roleID principalID : String) (createdAt : Millis)
  | deleteGroupMember (tenantID groupID principalID : String)
  | deletePositionMember (tenantID positionID principalID : String)
  | deleteEntityBinding (tenantID entityID roleID principalID : String)
  | deleteRelationships (tenantID principalID resourceID : String)
  | deleteResourceRelationships (tenantID principalID entityID : String)
  | selectReview (tenantID id : String)
  | selectItem (tenantID reviewID id : String)
  | selectItems (tenantID reviewID : String)
  | countPendingItems (tenantID reviewID : String)
  | decideItem (tenantID reviewID id : String) (decision : ReviewDecision) (decidedBy note : String)
    (now : Millis)
  | touchReview (tenantID id : String) (now : Millis)
  | finishReview (tenantID id : String) (status : ReviewStatus) (completedAt now : Millis)
  deriving DecidableEq, Repr

/-- Reads answer with rows or numbers, updates and deletes with the affected rows. -/
abbrev Answer : Statement → Type
  | .selectMembership .. => Bool
  | .selectRole .. => Option RoleRow
  | .selectRequest .. => Option RequestRow
  | .selectReview .. => Option ReviewRow
  | .selectItem .. => Option ReviewItemRow
  | .selectItems .. => List ReviewItemRow
  | .insertRequest _ | .insertStep _ | .insertGrant _ | .lockRevision _ | .advanceRevision _ => Unit
  | .countGrants .. | .decideRequest .. | .decideStep .. | .endRequest .. | .deleteGrant ..
  | .countAdministrators .. | .deleteRoleMember .. | .deleteGroupMember .. | .deletePositionMember ..
  | .deleteEntityBinding .. | .deleteRelationships .. | .deleteResourceRelationships ..
  | .countPendingItems .. | .decideItem .. | .touchReview .. | .finishReview .. => Nat

/-- A unique index has the row already. -/
inductive Constraint where
  | unique
  deriving DecidableEq, Repr

def RequestRow.decide (decision : RequestStatus) (decidedBy note : String) (now : Millis)
    (row : RequestRow) : RequestRow :=
  { row with status := decision, decidedBy, decisionNote := note, decidedAt := now, updatedAt := now }

def RequestRow.close (status : RequestStatus) (revokedBy reason : String) (now : Millis)
    (row : RequestRow) : RequestRow :=
  { row with status, revokedBy, revokeReason := reason, revokedAt := now, updatedAt := now }

def ApprovalStepRow.decide (decision : RequestStatus) (decidedBy note : String) (now : Millis)
    (row : ApprovalStepRow) : ApprovalStepRow :=
  { row with decision, decidedBy, decidedAt := now, note }

def ReviewItemRow.decide (decision : ReviewDecision) (decidedBy note : String) (now : Millis)
    (row : ReviewItemRow) : ReviewItemRow :=
  { row with decision, decidedBy, decisionNote := note, decidedAt := now }

def ReviewRow.finish (status : ReviewStatus) (completedAt now : Millis) (row : ReviewRow) : ReviewRow :=
  { row with status, completedAt, updatedAt := now }

section Effects

variable (db : Db)

def insertRow {ρ κ : Type} [DecidableEq κ] {key : ρ → κ} (table : Table key) (row : ρ)
    (write : ρ → Write) : Except Constraint (Unit × List Write) :=
  if table.hasKey (key row) then .error .unique else .ok ((), [write row])

/-- The permanent and the current temporary grants of the role. -/
def countRoleGrants (tenantID roleID principalID : String) (now : Millis) : Nat :=
  (db.policy.roleMembers.rows.countP fun row =>
    row.tenantID = tenantID && row.roleID = roleID && row.userSubject = principalID) +
  db.policy.temporaryRoleGrants.rows.countP fun row =>
    row.tenantID = tenantID && row.roleID = roleID && row.principalID = principalID &&
      row.startsAt ≤ now && now < row.endsAt

def isPendingItem (tenantID reviewID : String) (row : ReviewItemRow) : Bool :=
  row.tenantID = tenantID && row.reviewID = reviewID && row.decision = .pending

/-- Whether a relationship is the principal's own, with the resource as its target. -/
def relates (tenantID principalID resourceID : String) (row : RelationshipRow) : Bool :=
  row.tenantID = tenantID && row.subjectType = "principal" && row.subjectID = principalID &&
    row.resourceID = resourceID

def relatesResource (tenantID principalID entityID : String) (row : ResourceRelationshipRow) : Bool :=
  row.tenantID = tenantID && row.subjectType = "principal" && row.subjectID = principalID &&
    row.entityID = entityID

/-- Deletes the rows one by one. -/
def deleteRows {ρ : Type} (rows : List ρ) (write : ρ → Write) : Nat × List Write :=
  (rows.length, rows.map write)

def touched (now : Millis) (row : ReviewRow) : ReviewRow := { row with updatedAt := now }

end Effects

def effect : (q : Statement) → Db → Except Constraint (Answer q × List Write)
  | .selectMembership tenantID principalID, db =>
    .ok ((db.policy.tenantMembershipState tenantID principalID).2, [])
  | .selectRole tenantID roleID, db => .ok (db.policy.roles.find? (tenantID, roleID), [])
  | .countGrants tenantID roleID principalID now, db =>
    .ok (countRoleGrants db tenantID roleID principalID now, [])
  | .selectRequest tenantID id, db => .ok (db.requests.find? (tenantID, id), [])
  | .insertRequest row, db => insertRow db.requests row .putRequest
  | .insertStep row, db => insertRow db.approvalSteps row .putStep
  | .decideRequest tenantID id decision decidedBy note now, db =>
    .ok (changeFound (db.requests.find? (tenantID, id))
      (fun row => row.status = .pending && now < row.requestExpiresAt)
      fun row => .putRequest (row.decide decision decidedBy note now))
  | .decideStep tenantID requestID decision decidedBy note now, db =>
    .ok (changeFound (db.approvalSteps.find? (tenantID, requestID)) (fun row => row.decision = .pending)
      fun row => .putStep (row.decide decision decidedBy note now))
  | .endRequest tenantID id current next revokedBy reason now, db =>
    .ok (changeFound (db.requests.find? (tenantID, id)) (fun row => row.status = current)
      fun row => .putRequest (row.close next revokedBy reason now))
  | .lockRevision tenantID, _ => .ok ((), [.lockRevision tenantID])
  | .advanceRevision tenantID, _ => .ok ((), [.advanceRevision tenantID])
  | .insertGrant row, db => insertRow db.policy.temporaryRoleGrants row .putGrant
  | .deleteGrant _ tenantID id, db =>
    .ok (changeFound (db.policy.temporaryRoleGrants.find? (tenantID, id)) (fun _ => true)
      fun _ => .deleteGrant (tenantID, id))
  | .countAdministrators tenantID now, db =>
    .ok ((durableAdministrators db.policy tenantID now).length, [])
  | .deleteRoleMember tenantID roleID principalID createdAt, db =>
    .ok (changeFound (db.policy.roleMembers.find? (tenantID, roleID, principalID))
      (fun row => row.createdAt = createdAt) fun _ => .deleteRoleMember (tenantID, roleID, principalID))
  | .deleteGroupMember tenantID groupID principalID, db =>
    .ok (changeFound (db.policy.groupMembers.find? (tenantID, groupID, principalID)) (fun _ => true)
      fun _ => .deleteGroupMember (tenantID, groupID, principalID))
  | .deletePositionMember tenantID positionID principalID, db =>
    .ok (changeFound (db.policy.positionMembers.find? (tenantID, positionID, principalID)) (fun _ => true)
      fun _ => .deletePositionMember (tenantID, positionID, principalID))
  | .deleteEntityBinding tenantID entityID roleID principalID, db =>
    .ok (changeFound (db.policy.roleBindings.find? (tenantID, roleID, principalID, "entity", entityID))
      (fun _ => true) fun _ => .deleteRoleBinding (tenantID, roleID, principalID, "entity", entityID))
  | .deleteRelationships tenantID principalID resourceID, db =>
    .ok (deleteRows (db.policy.relationships.rows.filter (relates tenantID principalID resourceID))
      fun row => .deleteRelationship (relationshipKey row))
  | .deleteResourceRelationships tenantID principalID entityID, db =>
    .ok (deleteRows
      (db.policy.resourceRelationships.rows.filter (relatesResource tenantID principalID entityID))
      fun row => .deleteResourceRelationship (resourceRelationshipKey row))
  | .selectReview tenantID id, db => .ok (db.reviews.find? (tenantID, id), [])
  | .selectItem tenantID reviewID id, db => .ok (db.items.find? (tenantID, reviewID, id), [])
  | .selectItems tenantID reviewID, db =>
    .ok (db.items.rows.filter fun row => row.tenantID = tenantID && row.reviewID = reviewID, [])
  | .countPendingItems tenantID reviewID, db =>
    .ok (db.items.rows.countP (isPendingItem tenantID reviewID), [])
  | .decideItem tenantID reviewID id decision decidedBy note now, db =>
    .ok (changeFound (db.items.find? (tenantID, reviewID, id)) (fun row => row.decision = .pending)
      fun row => .putItem (row.decide decision decidedBy note now))
  | .touchReview tenantID id now, db =>
    .ok (changeFound (db.reviews.find? (tenantID, id)) (fun row => row.status = .opened)
      fun row => .putReview (touched now row))
  | .finishReview tenantID id status completedAt now, db =>
    .ok (changeFound (db.reviews.find? (tenantID, id)) (fun row => row.status = .opened)
      fun row => .putReview (row.finish status completedAt now))

def store : Store Statement Answer Constraint Db Write := ⟨effect, Write.apply, Write.conflicts⟩

/-! ## Rows -/

/-- What a row holds. -/
abbrev Cell : Key → Type
  | .request _ => Option RequestRow
  | .step _ => Option ApprovalStepRow
  | .review _ => Option ReviewRow
  | .item _ => Option ReviewItemRow
  | .revision _ => Nat
  | .grant _ => Option TemporaryRoleGrantRow
  | .roleMember _ => Option RoleMemberRow
  | .groupMember _ => Option GroupMemberRow
  | .positionMember _ => Option PositionMemberRow
  | .roleBinding _ => Option RoleBindingRow
  | .relationship _ => Option RelationshipRow
  | .resourceRelationship _ => Option ResourceRelationshipRow

def cell : (k : Key) → Db → Cell k
  | .request key, db => db.requests.find? key
  | .step key, db => db.approvalSteps.find? key
  | .review key, db => db.reviews.find? key
  | .item key, db => db.items.find? key
  | .revision tenantID, db => db.policy.policyRevisions tenantID
  | .grant key, db => db.policy.temporaryRoleGrants.find? key
  | .roleMember key, db => db.policy.roleMembers.find? key
  | .groupMember key, db => db.policy.groupMembers.find? key
  | .positionMember key, db => db.policy.positionMembers.find? key
  | .roleBinding key, db => db.policy.roleBindings.find? key
  | .relationship key, db => db.policy.relationships.find? key
  | .resourceRelationship key, db => db.policy.resourceRelationships.find? key

/-- What a write leaves in its row. -/
def Write.leaves : (w : Write) → Cell w.key → Cell w.key
  | .putRequest row, _ => some row
  | .putStep row, _ => some row
  | .putReview row, _ => some row
  | .putItem row, _ => some row
  | .lockRevision _, revision => revision
  | .advanceRevision _, revision => Nat.succ revision
  | .putGrant row, _ => some row
  | .deleteGrant _, _ | .deleteRoleMember _, _ | .deleteGroupMember _, _ | .deletePositionMember _, _
  | .deleteRoleBinding _, _ | .deleteRelationship _, _ | .deleteResourceRelationship _, _ => none

theorem cell_apply (db : Db) (w : Write) : cell w.key (w.apply db) = w.leaves (cell w.key db) := by
  cases w with
  | putRequest | putStep | putReview | putItem | putGrant =>
    exact Table.find?_put.trans (if_pos rfl)
  | lockRevision => rfl
  | advanceRevision => exact if_pos rfl
  | deleteGrant | deleteRoleMember | deleteGroupMember | deletePositionMember | deleteRoleBinding
  | deleteRelationship | deleteResourceRelationship =>
    exact Table.find?_deleteWhere_key.trans (if_pos rfl)

theorem cell_apply_other (db : Db) (w : Write) (k : Key) (hkey : w.key ≠ k) :
    cell k (w.apply db) = cell k db := by
  cases w <;> cases k <;> first
    | rfl
    | exact Table.find?_put.trans (if_neg fun heq => hkey (congrArg _ heq))
    | exact Table.find?_deleteWhere_key.trans (if_neg fun heq => hkey (congrArg _ heq.symm))
    | exact if_neg fun heq => hkey (congrArg _ heq.symm)

def rows : RowLocks.Rows store Cell where
  row := cell
  key := Write.key
  apply_congr {k db db'} w h := by
    by_cases hkey : w.key = k
    · subst hkey
      exact (cell_apply db w).trans ((congrArg w.leaves h).trans (cell_apply db' w).symm)
    · exact (cell_apply_other db w k hkey).trans (h.trans (cell_apply_other db' w k hkey).symm)
  apply_other {k w} db hkey := cell_apply_other db w k hkey
  symm v w := by simp only [store, Write.conflicts, eq_comm]
  exclusive v w hkey := decide_eq_true hkey

end GovernanceStore
