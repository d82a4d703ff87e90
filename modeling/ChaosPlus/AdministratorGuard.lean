import ChaosPlus.AuthorizationDecision
import ChaosPlus.PrincipalService

/-!
# Durable administrators

Whom the administrator guard counts: the active members who hold an administrator's code
without a condition, themselves or through a group or position they are in without an end.
-/
namespace AdministratorGuard

open AuthorizationGrants PolicyStore

def administratorCodes : List String := ["tenant_administer", "platform_administer"]

section Counting

variable (db : Db) (tenantID : String)

/-- The role carries one of the administrators' codes without a condition. -/
def administratorRole (roleID : String) : Bool :=
  db.rolePermissions.rows.any fun rp =>
    rp.tenantID = tenantID && rp.roleID = roleID &&
      administratorCodes.contains rp.permissionCode && rp.conditionJSON = ""

/-- A window that is open and has no end. -/
def durableWindow (startsAt endsAt now : Millis) : Bool :=
  (startsAt = 0 || startsAt ≤ now) && endsAt = 0

def directAdministrators : List String :=
  (db.roleMembers.rows.filter fun m =>
    m.tenantID = tenantID && administratorRole db tenantID m.roleID).map RoleMemberRow.userSubject

def groupAdministrators (now : Millis) : List String :=
  (db.groupMembers.rows.filter fun gm =>
    gm.tenantID = tenantID && durableWindow gm.startsAt gm.endsAt now &&
      staticGroupActive db tenantID gm.groupID &&
      db.groupRoleBindings.rows.any fun b =>
        b.tenantID = tenantID && b.groupID = gm.groupID &&
          administratorRole db tenantID b.roleID).map GroupMemberRow.principalID

def positionAdministrators (now : Millis) : List String :=
  (db.positionMembers.rows.filter fun pm =>
    pm.tenantID = tenantID && durableWindow pm.startsAt pm.endsAt now &&
      positionActive db tenantID pm.positionID &&
      db.positionRoleBindings.rows.any fun b =>
        b.tenantID = tenantID && b.positionID = pm.positionID &&
          administratorRole db tenantID b.roleID).map PositionMemberRow.principalID

def principalActive (principalID : String) : Bool :=
  db.principals.rows.any fun p => p.id = principalID && p.status = .active

/-- The principals the guard counts. -/
def durableAdministrators (now : Millis) : List String :=
  ((directAdministrators db tenantID ++ groupAdministrators db tenantID now ++
    positionAdministrators db tenantID now).filter fun id =>
      principalActive db id && db.activeMemberRow tenantID id).dedup

end Counting

end AdministratorGuard
