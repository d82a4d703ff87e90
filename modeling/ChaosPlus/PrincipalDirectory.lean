import ChaosPlus.PrincipalService
import Mathlib.Data.List.Sort

/-!
# The directory of principals

Principals are global; what a tenant knows of one is its membership row, which repeats the
e-mail. Here are the calls that write principals or their membership rows, each as one
transaction. Generated ids and the time come with the call.
-/
namespace PrincipalDirectory

open GoText (trimmed)
open KeyedTable PolicyStore
open PrincipalService (normalizeEmail)

/-- The columns of a principal that the authorizer does not read. -/
structure Marks where
  emailVerified : Bool := false
  activationRequired : Bool := false
  createdAt : Millis := 0
  deriving DecidableEq, Repr

structure IdentityLinkRow where
  providerID : String
  tenantID : String
  externalSubject : String
  principalID : String
  deriving DecidableEq, Repr

/-- The tables, where `marks` are the other columns of the principals. -/
structure Directory where
  db : Db := {}
  marks : String → Marks := fun _ => {}
  links : Table fun row : IdentityLinkRow => (row.providerID, row.tenantID, row.externalSubject) := .empty

/-- What other packages answer; lowering a letter changes no letter twice and makes no space. -/
structure Setup where
  lower : Char → Char
  lower_lower : ∀ c, lower (lower c) = lower c
  lower_space : ∀ c, GoText.isSpace (lower c) = GoText.isSpace c
  /-- The text parses as a mail address that is the text itself but for case. -/
  validAddress : String → Bool

/-- Addresses without letters that a lowering would change. -/
def asWritten : Setup where
  lower := id
  lower_lower _ := rfl
  lower_space _ := rfl
  validAddress address := address.toList.contains '@'

inductive IdentityError where
  | invalid
  | loginConflict
  | notFound
  | inactive
  | provisioningDisabled
  | provisioningUnverified
  | database (context : String)
  deriving DecidableEq, Repr

/-! ## Rows -/

namespace Directory

variable (d : Directory)

def insertPrincipal (row : PrincipalRow) (marks : Marks) : Except IdentityError Directory :=
  if d.db.principals.rows.any fun p => p.loginName = row.loginName then .error .loginConflict
  else match d.db.principals.insert? row with
    | none => .error .loginConflict
    | some principals => .ok { d with
        db := { d.db with principals }, marks := Function.update d.marks row.id marks }

def insertCredential (principalID : String) : Except IdentityError Directory :=
  match d.db.credentials.insert? ⟨principalID, 1⟩ with
  | none => .error (.database "insert credential")
  | some credentials => .ok { d with db := { d.db with credentials } }

def insertServiceAccount (row : ServiceAccountRow) : Except IdentityError Directory :=
  match d.db.serviceAccounts.insert? row with
  | none => .error (.database "insert service account")
  | some serviceAccounts => .ok { d with db := { d.db with serviceAccounts } }

/-- The membership, and the next revision of the policy of its tenant. -/
def insertMember (row : TenantMemberRow) : Except IdentityError Directory :=
  match d.db.tenantMembers.insert? row with
  | none => .error (.database "insert membership")
  | some tenantMembers => .ok { d with db := { d.db with tenantMembers }.advance row.tenantID }

/-- The principal keeps its other columns. -/
def markPrincipal (principalID : String) (change : Marks → Marks) : Directory :=
  { d with marks := Function.update d.marks principalID (change (d.marks principalID)) }

/-- The e-mail of the principal is another than the given one. -/
def emailChanges (principalID email : String) : Bool :=
  (d.db.principals.find? principalID).any fun p => p.email ≠ email

/-- A new address is not verified. -/
def forgetVerification (principalID email : String) : Directory :=
  if d.emailChanges principalID email then
    d.markPrincipal principalID fun marks => { marks with emailVerified := false }
  else d

end Directory

/-- A new principal with the credential and the membership it starts with. -/
def enroll (d : Directory) (principal : PrincipalRow) (marks : Marks) (credential : Bool)
    (member : Option TenantMemberRow) : Except IdentityError Directory := do
  let d ← d.insertPrincipal principal marks
  let d ← if credential then d.insertCredential principal.id else pure d
  match member with
  | some row => d.insertMember row
  | none => pure d

/-! ## Principals of a tenant -/

section Calls

variable (setup : Setup) (d : Directory)

def normalizeLogin (value : String) : String := normalizeEmail setup.lower value

def validTenant (tenantID : String) : Bool := tenantID ≠ "" && tenantID.utf8ByteSize ≤ 128

def validProfile (loginName displayName email : String) : Bool :=
  loginName ≠ "" && loginName.utf8ByteSize ≤ 200 && displayName.utf8ByteSize ≤ 128 && email.utf8ByteSize ≤ 320

def validPassword (password : String) : Bool :=
  12 ≤ password.utf8ByteSize && password.utf8ByteSize ≤ 1024

/-- An active principal as its creations write it, with its active membership. -/
def memberOf (tenantID : String) (principal : PrincipalRow) : TenantMemberRow :=
  ⟨tenantID, principal.id, principal.email, .active⟩

def create (tenantID id loginName password displayName email : String) (now : Millis) :
    Except IdentityError Directory :=
  let tenantID := trimmed tenantID
  let principal : PrincipalRow := ⟨id, normalizeLogin setup loginName, normalizeEmail setup.lower email, .active⟩
  if validTenant tenantID && validProfile principal.loginName (trimmed displayName) principal.email &&
      validPassword password then
    enroll d principal { createdAt := now } true (some (memberOf tenantID principal))
  else .error .invalid

/-- The caller has accepted an invitation that was sent to the address. -/
def createInvitedPrincipal (tenantID id loginName password displayName email : String) (now : Millis) :
    Except IdentityError Directory :=
  let tenantID := trimmed tenantID
  let principal : PrincipalRow := ⟨id, normalizeLogin setup loginName, normalizeEmail setup.lower email, .active⟩
  if validTenant tenantID && validProfile principal.loginName (trimmed displayName) principal.email &&
      validPassword password && setup.validAddress principal.email then
    enroll d principal { emailVerified := true, createdAt := now } true (some (memberOf tenantID principal))
  else .error .invalid

/-- The principal of a registration, which has no membership; the login name is the address. -/
def createPendingPrincipal (id email passwordHash displayName : String) (now : Millis) :
    Except IdentityError Directory :=
  let email := normalizeEmail setup.lower email
  if email.utf8ByteSize ≤ 320 && passwordHash ≠ "" && (trimmed displayName).utf8ByteSize ≤ 128 &&
      setup.validAddress email then
    enroll d ⟨id, email, email, .active⟩ { activationRequired := true, createdAt := now } true none
  else .error .invalid

/-- A service account has no address. -/
def createServiceAccount (tenantID id loginName displayName description : String) (now : Millis)
    (expiresAt : Option Millis) : Except IdentityError Directory :=
  let tenantID := trimmed tenantID
  let loginName := normalizeLogin setup loginName
  let displayName := if trimmed displayName = "" then loginName else trimmed displayName
  if !(validTenant tenantID && validProfile loginName displayName "" && displayName ≠ "" &&
      (trimmed description).utf8ByteSize ≤ 1000 && expiresAt.all fun expiry => now < expiry) then
    .error .invalid
  else if !d.db.tenantActive tenantID then .error .invalid
  else do
    let d ← d.insertPrincipal ⟨id, loginName, "", .active⟩ { createdAt := now }
    let d ← d.insertServiceAccount ⟨id, tenantID, .active, 1⟩
    d.insertMember ⟨tenantID, id, "", .active⟩

def ofPrincipalError : PrincipalService.PrincipalError → IdentityError
  | .invalid => .invalid
  | .notFound => .notFound
  | .credentialNotFound => .database "principal credential not found"
  | .loginConflict => .loginConflict

/-- The profile update, which also takes the verification from a new address. -/
def update (tenantID id : String) (displayName email : Option String) : Except IdentityError Directory :=
  match PrincipalService.update setup.lower d.db tenantID id displayName email with
  | .error error => .error (ofPrincipalError error)
  | .ok (principal, db) => .ok { d.forgetVerification (trimmed id) principal.email with db }

def setStatus (tenantID id : String) (status : PrincipalStatus) (administered : Bool) :
    Except IdentityError Directory :=
  let tenantID := trimmed tenantID
  let id := trimmed id
  if !validTenant tenantID || id = "" || status = .locked then .error .invalid
  else match PrincipalService.getPrincipal d.db tenantID id with
    | .error error => .error (ofPrincipalError error)
    | .ok current =>
      if status = .disabled && current.status ≠ .disabled && !administered then .error .invalid
      else .ok { d with db := PrincipalService.setPrincipalStatus d.db id status }

/-! ## Provisioned principals -/

structure ProvisionedPrincipalInput where
  loginName : String
  displayName : String
  email : String
  passwordHash : String := ""
  active : Bool
  deriving DecidableEq, Repr

/-- The tenant and the input in the form they are stored in. -/
def normalizeProvisionedInput (tenantID : String) (input : ProvisionedPrincipalInput) (creating : Bool) :
    Option (String × ProvisionedPrincipalInput) :=
  let tenantID := trimmed tenantID
  let loginName := normalizeLogin setup input.loginName
  let email := normalizeEmail setup.lower input.email
  let displayName := if trimmed input.displayName = "" then loginName else trimmed input.displayName
  if validTenant tenantID && validProfile loginName displayName email && displayName ≠ "" &&
      (email = "" || setup.validAddress email) && !(creating && input.passwordHash = "") then
    some (tenantID, { input with loginName, displayName, email })
  else none

/-- The principal is active also where its membership is created disabled. -/
def createProvisionedTo (tenantID id : String) (input : ProvisionedPrincipalInput) (now : Millis) :
    Except IdentityError Directory :=
  match normalizeProvisionedInput setup tenantID input true with
  | none => .error .invalid
  | some (tenantID, input) =>
    enroll d ⟨id, input.loginName, input.email, .active⟩ { activationRequired := true, createdAt := now } true
      (some ⟨tenantID, id, input.email, if input.active then .active else .disabled⟩)

/-- What a replacement writes to the rows of the principal and of its membership of one tenant. -/
def replaceRows (db : Db) (tenantID id : String) (input : ProvisionedPrincipalInput) : Db :=
  { db with
    principals := db.principals.updateWhere (fun p => p.id = id)
      (fun p => { p with loginName := input.loginName, email := input.email }) fun _ => rfl
    tenantMembers := db.tenantMembers.updateWhere
      (fun tm => tm.tenantID = tenantID && tm.userSubject = id)
      (fun tm => { tm with email := input.email, status := if input.active then .active else .disabled })
      fun _ => rfl }

/-- `administered` tells that the tenant keeps an administrator. -/
def replaceProvisionedTo (tenantID id : String) (input : ProvisionedPrincipalInput) (administered : Bool) :
    Except IdentityError Directory :=
  let id := trimmed id
  match normalizeProvisionedInput setup tenantID input false with
  | none => .error .invalid
  | some (tenantID, input) =>
    if id = "" then .error .invalid
    else match PrincipalService.getPrincipal d.db tenantID id, d.db.tenantMembers.find? (tenantID, id) with
      | .error error, _ => .error (ofPrincipalError error)
      | _, none => .error .notFound
      | .ok current, some member =>
        if input.active && current.status ≠ .active then .error .invalid
        else if d.db.principals.rows.any fun p => p.loginName = input.loginName && p.id ≠ id then
          .error .loginConflict
        else if member.status = .active && !input.active && !administered then .error .invalid
        else
          let db := replaceRows d.db tenantID id input
          let db := if current.loginName ≠ input.loginName || current.email ≠ input.email then
            PrincipalService.bumpCredential db id else db
          let joined := decide (member.status = .active)
          let db := if current.email ≠ input.email || joined ≠ input.active then db.advance tenantID else db
          .ok { d.forgetVerification id input.email with db }

/-! ## Verified addresses -/

/-- The tenant of a registered user, who owns it; what exists already stays. -/
def bootstrapTenantForVerifiedUser (db : Db) (tenantID principalID email : String) (now : Millis) : Db :=
  let email := normalizeEmail setup.lower email
  { db with
    tenants := db.tenants.insertIgnore ⟨tenantID, .active⟩
    tenantMembers := db.tenantMembers.insertIgnore ⟨tenantID, principalID, email, .active⟩
    roles := db.roles.insertIgnore ⟨tenantID, "owner", "Owner"⟩
    rolePermissions := db.rolePermissions.insertIgnore ⟨tenantID, "owner", "tenant_administer", ""⟩
    roleMembers := db.roleMembers.insertIgnore ⟨tenantID, "owner", principalID, now⟩ }

/-- The redeemed row names a principal and the address it was sent to. The hook, where there is
one, comes with the id of the tenant that it makes. -/
def completeEmailVerification (principalID email : String) (hook : Option String) (now : Millis) :
    Except IdentityError Directory :=
  if d.db.principals.rows.any (fun p => p.id = principalID && p.status = .active && p.email = email) &&
      !(d.marks principalID).emailVerified then
    let verified := d.markPrincipal principalID fun marks =>
      { marks with emailVerified := true, activationRequired := false }
    .ok (match hook with
      | none => verified
      | some tenantID =>
        { verified with db := bootstrapTenantForVerifiedUser setup d.db tenantID principalID email now })
  else .error .notFound

/-- The administrator of a deployment; an existing principal with the login name becomes it. -/
def ensureBootstrapPrincipal (id loginName password email : String) (passwordMatches : Bool) (now : Millis) :
    Except IdentityError Directory :=
  let loginName := normalizeLogin setup loginName
  let email := normalizeEmail setup.lower email
  if loginName = "" || 200 < loginName.utf8ByteSize || !validPassword password then .error .invalid
  else match d.db.principals.rows.find? fun p => p.loginName = loginName with
    | none =>
      let marks : Marks := { emailVerified := email ≠ "", createdAt := now }
      enroll d ⟨id, loginName, email, .active⟩ marks true none
    | some existing =>
      let marks := d.marks existing.id
      let changed := !passwordMatches || existing.email ≠ email ||
        marks.emailVerified ≠ decide (email ≠ "") || marks.activationRequired || existing.status ≠ .active
      if !d.db.credentials.hasKey existing.id then .error (.database "bootstrap principal credential not found")
      else
        let db := { d.db with
          principals := d.db.principals.updateWhere (fun p => p.id = existing.id)
            (fun p => { p with email, status := .active }) fun _ => rfl }
        let db := if changed then PrincipalService.bumpCredential db existing.id else db
        let marked := d.markPrincipal existing.id fun marks =>
          { marks with emailVerified := email ≠ "", activationRequired := false }
        .ok { marked with db }

/-! ## Federated logins -/

structure Provider where
  id : String
  tenantID : String
  autoProvision : Bool
  defaultRoleID : String := ""
  deriving DecidableEq, Repr

structure IDTokenClaims where
  subject : String
  email : String
  emailVerified : Option Bool := some true
  name : String := ""
  preferredUsername : String := ""
  deriving DecidableEq, Repr

/-- The order of `created_at ASC, id ASC`. -/
def createdBefore (a b : PrincipalRow) : Bool :=
  (d.marks a.id).createdAt < (d.marks b.id).createdAt ||
    (d.marks a.id).createdAt = (d.marks b.id).createdAt && a.id ≤ b.id

def principalByLogin (name : String) : Option PrincipalRow :=
  d.db.principals.rows.find? fun p => p.loginName = name

def principalByEmail (email : String) : Option PrincipalRow :=
  ((d.db.principals.rows.filter fun p => p.email = email).insertionSort
    fun a b => createdBefore d a b).head?

def principalByLoginOrEmail (email : String) : Option PrincipalRow :=
  match principalByLogin d email with
  | some row => some row
  | none => principalByEmail d email

/-- The membership that an active principal still needs in the tenant. -/
def missingMember (tenantID : String) (principal : PrincipalRow) :
    Except IdentityError (Option TenantMemberRow) :=
  if principal.status ≠ .active then .error .inactive
  else match d.db.tenantMembers.find? (tenantID, principal.id) with
    | none => .ok (some (memberOf tenantID principal))
    | some member => if member.status = .active then .ok none else .error .inactive

def ensureTenantMember (tenantID : String) (principal : PrincipalRow) : Except IdentityError Directory := do
  match ← missingMember d tenantID principal with
  | none => pure d
  | some member => d.insertMember member

/-- The address in its stored form, where the claims may create a principal. -/
def externalEmail (provider : Provider) (token : IDTokenClaims) : Except IdentityError String :=
  if !provider.autoProvision then .error .provisioningDisabled
  else if token.email = "" || token.emailVerified ≠ some true then .error .provisioningUnverified
  else
    let displayName := if trimmed token.name = "" then trimmed token.preferredUsername else trimmed token.name
    let email := normalizeEmail setup.lower token.email
    if validTenant (trimmed provider.tenantID) && setup.validAddress email && email.utf8ByteSize ≤ 320 &&
        displayName.utf8ByteSize ≤ 128 then .ok email
    else .error .invalid

def externalPrincipal (id email : String) : PrincipalRow := ⟨id, email, email, .active⟩

/-- The new principal of an external identity, with its membership. -/
def enrollExternal (tenantID id email : String) (now : Millis) : Except IdentityError Directory :=
  enroll d (externalPrincipal id email) { emailVerified := true, createdAt := now } false
    (some (memberOf (trimmed tenantID) (externalPrincipal id email)))

/-- The principal of the identity, and whether it is new. -/
def ensureExternalPrincipal (tenantID id email : String) (now : Millis) :
    Except IdentityError (Directory × String × Bool) :=
  match principalByLoginOrEmail d email with
  | some row => do
    let d ← ensureTenantMember d (trimmed tenantID) row
    pure (d, row.id, false)
  | none =>
    match enrollExternal d tenantID id email now with
    | .ok d => .ok (d, id, true)
    | .error .loginConflict =>
      -- the id is taken, as no login name is
      .error .inactive
    | .error error => .error error

def grantDefaultRole (tenantID roleID principalID : String) (now : Millis) : Except IdentityError Directory :=
  if !d.db.roles.hasKey (tenantID, roleID) then .ok d
  else match d.db.roleMembers.insert? ⟨tenantID, roleID, principalID, now⟩ with
    | none => .error (.database "grant federation default role")
    | some roleMembers => .ok { d with db := { d.db with roleMembers }.advance tenantID }

/-- A principal has at most one link to a provider. -/
def insertLink (row : IdentityLinkRow) : Except IdentityError Directory :=
  if d.links.rows.any fun l => l.providerID = row.providerID && l.principalID = row.principalID then
    .error (.database "insert identity link")
  else match d.links.insert? row with
    | none => .error (.database "insert identity link")
    | some links => .ok { d with links }

def verifyPrincipalAndMember (tenantID principalID : String) : Except IdentityError Unit :=
  if (d.db.principals.find? principalID).any (fun p => p.status = .active) &&
      (d.db.tenantMembers.find? (tenantID, principalID)).any (fun tm => tm.status = .active) then .ok ()
  else .error .inactive

def linkOf (provider : Provider) (subject principalID : String) : IdentityLinkRow :=
  ⟨provider.id, provider.tenantID, subject, principalID⟩

/-- The transaction of a login, with the principal that it enters. -/
def authenticate (provider : Provider) (token : IDTokenClaims) (id : String) (now : Millis) :
    Except IdentityError (Directory × String) :=
  match d.links.find? (provider.id, provider.tenantID, token.subject) with
  | some link => do
    verifyPrincipalAndMember d provider.tenantID link.principalID
    pure (d, link.principalID)
  | none => do
    let email ← externalEmail setup provider token
    let (d, principalID, created) ← ensureExternalPrincipal d provider.tenantID id email now
    let d ← if created && provider.defaultRoleID ≠ "" then
      grantDefaultRole d provider.tenantID provider.defaultRoleID principalID now else pure d
    let d ← insertLink d (linkOf provider token.subject principalID)
    verifyPrincipalAndMember d provider.tenantID principalID
    pure (d, principalID)

end Calls

/-! ## The calls of the identity service -/

inductive Operation where
  | create (tenantID id loginName password displayName email : String) (now : Millis)
  | createInvited (tenantID id loginName password displayName email : String) (now : Millis)
  | createPending (id email passwordHash displayName : String) (now : Millis)
  | createServiceAccount (tenantID id loginName displayName description : String) (now : Millis)
      (expiresAt : Option Millis)
  | createProvisioned (tenantID id : String) (input : ProvisionedPrincipalInput) (now : Millis)
  | replaceProvisioned (tenantID id : String) (input : ProvisionedPrincipalInput) (administered : Bool)
  | update (tenantID id : String) (displayName email : Option String)
  | setStatus (tenantID id : String) (status : PrincipalStatus) (administered : Bool)
  | completeEmailVerification (principalID email : String) (hook : Option String) (now : Millis)
  | ensureBootstrap (id loginName password email : String) (passwordMatches : Bool) (now : Millis)
  deriving Repr

def perform (setup : Setup) (d : Directory) : Operation → Except IdentityError Directory
  | .create tenantID id loginName password displayName email now =>
    create setup d tenantID id loginName password displayName email now
  | .createInvited tenantID id loginName password displayName email now =>
    createInvitedPrincipal setup d tenantID id loginName password displayName email now
  | .createPending id email passwordHash displayName now =>
    createPendingPrincipal setup d id email passwordHash displayName now
  | .createServiceAccount tenantID id loginName displayName description now expiresAt =>
    createServiceAccount setup d tenantID id loginName displayName description now expiresAt
  | .createProvisioned tenantID id input now => createProvisionedTo setup d tenantID id input now
  | .replaceProvisioned tenantID id input administered =>
    replaceProvisionedTo setup d tenantID id input administered
  | .update tenantID id displayName email => update setup d tenantID id displayName email
  | .setStatus tenantID id status administered => setStatus d tenantID id status administered
  | .completeEmailVerification principalID email hook now =>
    completeEmailVerification setup d principalID email hook now
  | .ensureBootstrap id loginName password email passwordMatches now =>
    ensureBootstrapPrincipal setup d id loginName password email passwordMatches now

/-- A write of other calls: who the principals are, and where they can be reached, stays. -/
structure OtherWrite where
  write : Db → Db
  principals : ∀ db, (write db).principals.rows.map (fun p => (p.id, p.email)) =
    db.principals.rows.map fun p => (p.id, p.email)

/-- The write edits no membership: members may be disabled, but none is added or readdressed. -/
def OtherWrite.KeepsMembers (w : OtherWrite) : Prop :=
  ∀ db, (w.write db).tenantMembers.rows.map (fun tm => (tm.tenantID, tm.userSubject, tm.email)) =
    db.tenantMembers.rows.map fun tm => (tm.tenantID, tm.userSubject, tm.email)

end PrincipalDirectory
