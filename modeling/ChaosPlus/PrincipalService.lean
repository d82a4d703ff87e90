import ChaosPlus.MemberRule
import ChaosPlus.PolicyStore

/-!
# Principals of a tenant

The profile update of a principal. It writes the e-mail of the principal and of the
membership in the calling tenant, in a transaction of its own.
-/
namespace PrincipalService

open PolicyStore

inductive PrincipalError where
  | invalid
  | notFound
  | credentialNotFound
  | loginConflict
  deriving DecidableEq, Repr

/-- The row of a member of the tenant that is no service account. -/
def getPrincipal (db : Db) (tenantID id : String) : Except PrincipalError PrincipalRow :=
  if db.tenantMembers.hasKey (tenantID, id) && !db.serviceAccounts.hasKey id then
    match db.principals.find? id with
    | some row => .ok row
    | none => .error .notFound
  else .error .notFound

def normalizeEmail (lower : Char → Char) (email : String) : String :=
  MemberRule.toLower lower (GoText.trimmed email)

/-- The rows of one principal and of one membership get the e-mail. -/
def setEmail (db : Db) (tenantID id email : String) : Db :=
  { db with
    principals := db.principals.updateWhere (fun p => p.id = id) (fun p => { p with email })
      fun _ => rfl
    tenantMembers := db.tenantMembers.updateWhere
      (fun tm => tm.tenantID = tenantID && tm.userSubject = id) (fun tm => { tm with email })
      fun _ => rfl }

def setPrincipalStatus (db : Db) (principalID : String) (status : PrincipalStatus) : Db :=
  { db with
    principals := db.principals.updateWhere (fun p => p.id = principalID)
      (fun p => { p with status := status }) (fun _ => rfl) }

def bumpCredential (db : Db) (id : String) : Db :=
  { db with
    credentials := db.credentials.updateWhere (fun c => c.principalID = id)
      (fun c => { c with credentialVersion := c.credentialVersion + 1 }) fun _ => rfl }

/-- The update; the display name has no reader among the tables here. -/
def update (lower : Char → Char) (db : Db) (tenantID id : String)
    (displayName email : Option String) : Except PrincipalError (PrincipalRow × Db) :=
  let tenantID := GoText.trimmed tenantID
  let id := GoText.trimmed id
  if tenantID = "" || tenantID.utf8ByteSize > 128 || id = "" then .error .invalid
  else if displayName.isNone && email.isNone then .error .invalid
  else if displayName.any fun name =>
      GoText.trimmed name = "" || (GoText.trimmed name).utf8ByteSize > 128 then .error .invalid
  else if email.any fun address => (normalizeEmail lower address).utf8ByteSize > 320 then
    .error .invalid
  else do
    let current ← getPrincipal db tenantID id
    let queryEmail := match email with
      | some address => normalizeEmail lower address
      | none => current.email
    if queryEmail = current.email then
      return (current, setEmail db tenantID id queryEmail)
    else if db.credentials.hasKey id then
      return ({ current with email := queryEmail },
        setEmail (bumpCredential db id) tenantID id queryEmail)
    else throw .credentialNotFound

end PrincipalService
