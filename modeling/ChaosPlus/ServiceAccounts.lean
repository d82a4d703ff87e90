import ChaosPlus.ScopeWords
import ChaosPlus.SessionLifetime

/-!
# Service accounts and their credentials

A credential of a service account is exchanged for access tokens. A token carries the token
version of its account and holds only while the account has that version. The transactions
are atomic; a token request reads, checks, signs and records its use in separate steps, and
the calls of others come between any two of them. What has been signed and exchanged, and
the scopes that each credential was given, is history.
-/
namespace ServiceAccounts

open GoText (trimmed)
open KeyedTable MfaService StepRuns ScopeWords
open PolicyStore (Millis PrincipalStatus RecordStatus ServiceAccountStatus TenantRow)

/-! ## Tables -/

structure AccountRow where
  principalID : String
  ownerTenantID : String
  description : String
  status : ServiceAccountStatus
  /-- Zero where it does not expire. -/
  expiresAt : Millis
  tokenVersion : Nat
  version : Nat
  createdAt : Millis
  updatedAt : Millis
  deletedAt : Millis := 0
  deriving DecidableEq, Repr

structure PrincipalRow where
  id : String
  loginName : String
  displayName : String
  status : PrincipalStatus
  disabledAt : Millis := 0
  createdAt : Millis
  updatedAt : Millis
  deriving DecidableEq, Repr

structure MemberRow where
  tenantID : String
  userSubject : String
  displayName : String
  status : RecordStatus
  disabledAt : Millis := 0
  createdAt : Millis
  updatedAt : Millis
  deriving DecidableEq, Repr

structure CredentialRow where
  id : String
  principalID : String
  name : String
  secretHash : String
  scopes : String
  expiresAt : Millis
  lastUsedAt : Millis := 0
  revokedAt : Millis := 0
  createdAt : Millis
  deriving DecidableEq, Repr

structure Db where
  tenants : Table TenantRow.id := .empty
  principals : Table PrincipalRow.id := .empty
  members : Table (fun row : MemberRow => (row.tenantID, row.userSubject)) := .empty
  accounts : Table AccountRow.principalID := .empty
  credentials : Table CredentialRow.id := .empty

inductive Failure where
  | invalid
  | notFound
  | conflict
  | loginConflict
  | credentialNotFound
  | credentialLimit
  | lastAdministrator
  /-- A constraint of the database. -/
  | database
  deriving DecidableEq, Repr

/-! ## The calls on accounts -/

def maxServiceAccountCredentials : Nat := 20

def notDeleted (tenantID id : String) (row : AccountRow) : Bool :=
  row.ownerTenantID = tenantID && row.principalID = id && row.status ≠ .deleted

def getServiceAccountRow (db : Db) (tenantID id : String) : Except Failure (AccountRow × PrincipalRow) :=
  if tenantID = "" || tenantID.utf8ByteSize > 128 || id = "" then .error .invalid
  else
    match (db.accounts.find? id).filter (notDeleted tenantID id), db.principals.find? id with
    | some account, some principal => .ok (account, principal)
    | _, _ => .error .notFound

def parseStatus (status : String) : Option ServiceAccountStatus :=
  if status = "active" then some .active else if status = "disabled" then some .disabled else none

def validServiceAccount (tenantID loginName displayName description : String)
    (status : Option ServiceAccountStatus) (expiresAt : Option Millis) (now : Instant) : Bool :=
  tenantID ≠ "" && tenantID.utf8ByteSize ≤ 128 && loginName ≠ "" && loginName.utf8ByteSize ≤ 200 &&
    displayName ≠ "" && displayName.utf8ByteSize ≤ 128 && description.utf8ByteSize ≤ 1000 &&
    status.isSome && expiresAt.all (now.millis < ·)

def shownName (loginName displayName : String) : String := if displayName = "" then loginName else displayName

def timeMillis (expiresAt : Option Millis) : Millis := expiresAt.getD 0

def normalizeServiceAccountScopes (values : List String) : Option (List String) :=
  let scopes := values.map trimmed
  let valid (scope : String) : Bool :=
    scope ≠ "" && scope.utf8ByteSize ≤ 128 && scope.toList.all fun c => !(" \t\r\n".toList.contains c)
  if values.isEmpty || values.length > 128 || !scopes.all valid then none
  else some (scopes.dedup.insertionSort (· ≤ ·))

structure Setup where
  accessTokenTTL : Millis
  clockSkew : Millis
  normalizeLogin : String → String
  /-- The secret matches the hash. -/
  verifySecret : String → String → Bool

section Calls

variable (setup : Setup) (db : Db) (now : Instant)

/-- `id` is drawn at random. -/
def createServiceAccount (tenantID loginName displayName description : String) (expiresAt : Option Millis)
    (id : String) : Except Failure Db :=
  let tenantID := trimmed tenantID
  let loginName := setup.normalizeLogin loginName
  let displayName := shownName loginName (trimmed displayName)
  let description := trimmed description
  if !validServiceAccount tenantID loginName displayName description (some .active) expiresAt now then
    .error .invalid
  else if !(db.tenants.find? tenantID).any (·.status = .active) then .error .invalid
  else if db.principals.rows.any (·.loginName = loginName) then .error .loginConflict
  else
    let account : AccountRow :=
      { principalID := id, ownerTenantID := tenantID, description, status := .active
        expiresAt := timeMillis expiresAt, tokenVersion := 1, version := 1
        createdAt := now.millis, updatedAt := now.millis }
    let principal : PrincipalRow :=
      { id, loginName, displayName, status := .active, createdAt := now.millis, updatedAt := now.millis }
    let member : MemberRow :=
      { tenantID, userSubject := id, displayName, status := .active
        createdAt := now.millis, updatedAt := now.millis }
    match db.principals.insert? principal, db.accounts.insert? account, db.members.insert? member with
    | none, _, _ => .error .loginConflict
    | some principals, some accounts, some members => .ok { db with principals, accounts, members }
    | some _, _, _ => .error .database

/-- The columns a replacement sets; the token version grows where the status or the expiry
changes. -/
def replaced (description : String) (status : ServiceAccountStatus) (expiresAt : Millis)
    (current row : AccountRow) : AccountRow :=
  { row with
    description
    status
    expiresAt
    version := row.version + 1
    updatedAt := now.millis
    tokenVersion :=
      if current.status ≠ status || current.expiresAt ≠ expiresAt then row.tokenVersion + 1
      else row.tokenVersion }

def deleted (row : AccountRow) : AccountRow :=
  { row with
    status := .deleted
    deletedAt := now.millis
    updatedAt := now.millis
    version := row.version + 1
    tokenVersion := row.tokenVersion + 1 }

def advanced (row : AccountRow) : AccountRow :=
  { row with tokenVersion := row.tokenVersion + 1, updatedAt := now.millis }

def CredentialRow.revoke (row : CredentialRow) : CredentialRow := { row with revokedAt := now.millis }

def isOpenOf (id : String) (row : CredentialRow) : Bool := row.principalID = id && row.revokedAt = 0

def isOwnedBy (tenantID id : String) (row : AccountRow) : Bool :=
  row.principalID = id && row.ownerTenantID = tenantID

def hasVersion (tenantID id : String) (version : Nat) (row : AccountRow) : Bool :=
  notDeleted tenantID id row && row.version = version

/-- The guard of the last administrator is asked where an active account is disabled;
`administered` is its answer. -/
def replaceServiceAccount (tenantID id displayName description status : String)
    (expiresAt : Option Millis) (version : Nat) (administered : Bool) : Except Failure Db :=
  let tenantID := trimmed tenantID
  let id := trimmed id
  let displayName := trimmed displayName
  let description := trimmed description
  let parsed := parseStatus (trimmed status)
  if version < 1 || !validServiceAccount tenantID "placeholder" displayName description parsed expiresAt now then
    .error .invalid
  else
    match parsed, getServiceAccountRow db tenantID id with
    | none, _ => .error .invalid
    | _, .error failure => .error failure
    | some status, .ok (current, _) =>
      if current.version ≠ version then .error .conflict
      else if db.accounts.rows.countP (hasVersion tenantID id version) ≠ 1 then .error .conflict
      else if current.status = .active && status = .disabled && !administered then
        .error .lastAdministrator
      else
        .ok { db with
          accounts := db.accounts.updateWhere (hasVersion tenantID id version)
            (replaced now description status (timeMillis expiresAt) current) fun _ => rfl
          principals := db.principals.updateWhere (fun row => row.id = id)
            (fun row => { row with
              displayName
              status := if status = .disabled then .disabled else .active
              disabledAt := if status = .disabled then now.millis else 0
              updatedAt := now.millis }) fun _ => rfl
          members := db.members.updateWhere (fun row => row.tenantID = tenantID && row.userSubject = id)
            (fun row => { row with displayName, updatedAt := now.millis }) fun _ => rfl }

def deleteServiceAccount (tenantID id : String) (version : Nat) (administered : Bool) : Except Failure Db :=
  let tenantID := trimmed tenantID
  let id := trimmed id
  if tenantID = "" || id = "" || version < 1 then .error .invalid
  else
    match getServiceAccountRow db tenantID id with
    | .error failure => .error failure
    | .ok (current, _) =>
      if current.version ≠ version then .error .conflict
      else if db.accounts.rows.countP (hasVersion tenantID id version) ≠ 1 then .error .conflict
      else if !administered then .error .lastAdministrator
      else
        .ok { db with
          accounts := db.accounts.updateWhere (hasVersion tenantID id version) (deleted now) fun _ => rfl
          principals := db.principals.updateWhere (fun row => row.id = id)
            (fun row => { row with
              status := .disabled
              disabledAt := now.millis
              updatedAt := now.millis }) fun _ => rfl
          members := db.members.updateWhere (fun row => row.tenantID = tenantID && row.userSubject = id)
            (fun row => { row with
              status := .disabled
              disabledAt := now.millis
              updatedAt := now.millis }) fun _ => rfl
          credentials := db.credentials.updateWhere (isOpenOf id) (CredentialRow.revoke now) fun _ => rfl }

/-- `credentialID` and the secret are drawn at random, `secretHash` is the hash of the secret. -/
def createCredential (tenantID id name : String) (scopes : List String) (expiresAt : Option Millis)
    (credentialID secretHash : String) : Except Failure Db :=
  let tenantID := trimmed tenantID
  let id := trimmed id
  let name := trimmed name
  match normalizeServiceAccountScopes scopes with
  | none => .error .invalid
  | some scopes =>
    if tenantID = "" || id = "" || name = "" || name.utf8ByteSize > 128 ||
        !expiresAt.all (now.millis < ·) then .error .invalid
    else
      match getServiceAccountRow db tenantID id with
      | .error failure => .error failure
      | .ok (account, _) =>
        if account.status ≠ .active || 0 < account.expiresAt && account.expiresAt ≤ now.millis ||
            0 < account.expiresAt && account.expiresAt < timeMillis expiresAt then .error .invalid
        else if maxServiceAccountCredentials ≤ db.credentials.rows.countP (fun row =>
            isOpenOf id row && (row.expiresAt = 0 || now.millis < row.expiresAt)) then
          .error .credentialLimit
        else
          match db.credentials.insert?
              { id := credentialID, principalID := id, name, secretHash, scopes := join scopes
                expiresAt := timeMillis expiresAt, createdAt := now.millis } with
          | none => .error .database
          | some credentials => .ok { db with credentials }

/-- Nothing is written where the credential is revoked already. -/
def revokeCredential (tenantID id credentialID : String) : Except Failure Db :=
  let tenantID := trimmed tenantID
  let id := trimmed id
  let credentialID := trimmed credentialID
  if tenantID = "" || id = "" || credentialID = "" then .error .invalid
  else
    match getServiceAccountRow db tenantID id,
        (db.credentials.find? credentialID).filter fun row => row.principalID = id with
    | .error failure, _ => .error failure
    | .ok _, none => .error .credentialNotFound
    | .ok _, some row =>
      if row.revokedAt ≠ 0 then .ok db
      else
        .ok { db with
          credentials := db.credentials.updateWhere (fun row => row.id = credentialID && isOpenOf id row)
            (CredentialRow.revoke now) fun _ => rfl
          accounts := db.accounts.updateWhere (isOwnedBy tenantID id) (advanced now) fun _ => rfl }

end Calls

/-! ## Token requests -/

/-- What the request selects: the credential joined with its account. -/
structure ServiceAccountClient where
  credentialID : String
  principalID : String
  tenantID : String
  loginName : String
  secretHash : String
  scopes : String
  credentialExpiresAt : Millis
  credentialRevokedAt : Millis
  accountExpiresAt : Millis
  tokenVersion : Nat
  accountStatus : ServiceAccountStatus
  principalStatus : PrincipalStatus
  memberStatus : RecordStatus
  tenantStatus : PolicyStore.TenantStatus
  deriving DecidableEq, Repr

/-- Times are milliseconds, but the expiry is in seconds. -/
structure Token where
  subject : String
  organizationID : String
  scope : String
  username : String
  credentialVersion : Nat
  expiresAt : Int
  deriving DecidableEq, Repr

section Requests

variable (setup : Setup) (db : Db) (now : Instant)

def selectClient (id : String) : Option ServiceAccountClient := do
  let credential ← db.credentials.find? id
  let account ← db.accounts.find? credential.principalID
  let principal ← db.principals.find? account.principalID
  let member ← db.members.find? (account.ownerTenantID, account.principalID)
  let tenant ← db.tenants.find? account.ownerTenantID
  return {
    credentialID := credential.id
    principalID := credential.principalID
    tenantID := account.ownerTenantID
    loginName := principal.loginName
    secretHash := credential.secretHash
    scopes := credential.scopes
    credentialExpiresAt := credential.expiresAt
    credentialRevokedAt := credential.revokedAt
    accountExpiresAt := account.expiresAt
    tokenVersion := account.tokenVersion
    accountStatus := account.status
    principalStatus := principal.status
    memberStatus := member.status
    tenantStatus := tenant.status }

def isUsable (client : ServiceAccountClient) (secret : String) : Bool :=
  setup.verifySecret client.secretHash secret && client.credentialRevokedAt = 0 &&
    !(0 < client.credentialExpiresAt && client.credentialExpiresAt ≤ now.millis) &&
    !(0 < client.accountExpiresAt && client.accountExpiresAt ≤ now.millis) &&
    client.accountStatus = .active && client.principalStatus = .active &&
    client.memberStatus = .active && client.tenantStatus = .active

/-- All scopes of the credential where none is requested. -/
def askedScope (client : ServiceAccountClient) (requestedScope : String) : String :=
  if normalizeWords requestedScope = "" then normalizeWords client.scopes
  else normalizeWords requestedScope

def grantedScope (client : ServiceAccountClient) (requestedScope : String) : Option String :=
  if allowedScopes client.scopes (askedScope client requestedScope) then
    some (askedScope client requestedScope)
  else none

def issueSubjectToken (client : ServiceAccountClient) (scope : String) : Token where
  subject := client.principalID
  organizationID := client.tenantID
  scope
  username := client.loginName
  credentialVersion := client.tokenVersion
  expiresAt := (now.millis + setup.accessTokenTTL) / 1000

def updateUse (id : String) (now : Millis) : Option Db :=
  let selected (row : CredentialRow) : Bool := row.id = id && row.revokedAt = 0
  if db.credentials.rows.countP selected ≠ 1 then none
  else some { db with
    credentials := db.credentials.updateWhere selected (fun row => { row with lastUsedAt := now })
      fun _ => rfl }

def verifySubjectState (token : Token) : Bool :=
  match db.accounts.find? token.subject with
  | none => false
  | some account =>
    token.organizationID ≠ "" && account.ownerTenantID = token.organizationID && account.status = .active &&
      (db.principals.find? account.principalID).any (·.status = .active) &&
      (db.members.find? (account.ownerTenantID, account.principalID)).any (·.status = .active) &&
      (db.tenants.find? account.ownerTenantID).any (·.status = .active) &&
      !(0 < account.expiresAt && account.expiresAt ≤ now.millis) &&
      account.tokenVersion = token.credentialVersion

/-- `Authenticate` accepts the signed token. -/
def authenticate (token : Token) : Bool :=
  !(token.expiresAt * 1000 + setup.clockSkew < now.millis) && verifySubjectState db now token

end Requests

/-- A token request between two of its steps; `readAt` counts the steps before its select. -/
inductive Request where
  | selected (readAt : Nat) (client : ServiceAccountClient) (secret requestedScope : String)
  | checked (readAt : Nat) (client : ServiceAccountClient) (now : Millis) (scope : String)
  | signed (credentialID : String) (now : Millis) (token : Token)
  deriving DecidableEq, Repr

/-- A token that was signed, with the credential it was signed for. -/
structure Signed where
  readAt : Nat
  credentialID : String
  token : Token
  deriving DecidableEq, Repr

structure Server where
  clock : Instant
  steps : Nat
  db : Db
  requests : List Request
  signed : List Signed
  exchanged : List String
  granted : String → List String

/-- No credential has been created yet. -/
def start (clock : Instant) (db : Db) : Server :=
  ⟨clock, 0, { db with credentials := .empty }, [], [], [], fun _ => []⟩

/-- A request that fails or whose process ends is dropped. Tenants, principals and members
are also written by others. -/
inductive Event where
  | passes (elapsed : Nat)
  | others (tenants : Table TenantRow.id) (principals : Table PrincipalRow.id)
      (members : Table fun row : MemberRow => (row.tenantID, row.userSubject))
  | createServiceAccount (tenantID loginName displayName description : String)
      (expiresAt : Option Millis) (id : String)
  | replaceServiceAccount (tenantID id displayName description status : String)
      (expiresAt : Option Millis) (version : Nat) (administered : Bool)
  | deleteServiceAccount (tenantID id : String) (version : Nat) (administered : Bool)
  | createCredential (tenantID id name : String) (scopes : List String) (expiresAt : Option Millis)
      (credentialID secretHash : String)
  | revokeCredential (tenantID id credentialID : String)
  | selectClient (id secret requestedScope : String)
  | check (readAt : Nat) (client : ServiceAccountClient) (secret requestedScope : String)
  | sign (readAt : Nat) (client : ServiceAccountClient) (now : Millis) (scope : String)
  | updateUse (credentialID : String) (now : Millis) (token : Token)
  | drop (request : Request)

section Steps

variable (setup : Setup) (s : Server)

def commit (outcome : Except Failure Db) : Option Server :=
  match outcome with
  | .error _ => some { s with steps := s.steps + 1 }
  | .ok db => some { s with steps := s.steps + 1, db }

def proceed (done : Request) (ahead : List Request) : Option Server :=
  if done ∈ s.requests then
    some { s with steps := s.steps + 1, requests := ahead ++ s.requests.erase done }
  else none

def step : Event → Option Server
  | .passes elapsed =>
    some { s with steps := s.steps + 1, clock := SessionLifetime.Instant.later s.clock elapsed }
  | .others tenants principals members =>
    some { s with steps := s.steps + 1, db := { s.db with tenants, principals, members } }
  | .createServiceAccount tenantID loginName displayName description expiresAt id =>
    commit s (createServiceAccount setup s.db s.clock tenantID loginName displayName description expiresAt id)
  | .replaceServiceAccount tenantID id displayName description status expiresAt version administered =>
    commit s (replaceServiceAccount s.db s.clock tenantID id displayName description status expiresAt
      version administered)
  | .deleteServiceAccount tenantID id version administered =>
    commit s (deleteServiceAccount s.db s.clock tenantID id version administered)
  | .createCredential tenantID id name scopes expiresAt credentialID secretHash =>
    match createCredential s.db s.clock tenantID id name scopes expiresAt credentialID secretHash with
    | .error _ => some { s with steps := s.steps + 1 }
    | .ok db =>
      some { s with
        steps := s.steps + 1
        db
        granted := Function.update s.granted credentialID
          ((normalizeServiceAccountScopes scopes).getD []) }
  | .revokeCredential tenantID id credentialID =>
    commit s (revokeCredential s.db s.clock tenantID id credentialID)
  | .selectClient id secret requestedScope =>
    match selectClient s.db id with
    | none => some { s with steps := s.steps + 1 }
    | some client =>
      some { s with
        steps := s.steps + 1
        requests := .selected s.steps client secret requestedScope :: s.requests }
  | .check readAt client secret requestedScope =>
    match isUsable setup s.clock client secret, grantedScope client requestedScope with
    | true, some scope =>
      proceed s (.selected readAt client secret requestedScope)
        [.checked readAt client s.clock.millis scope]
    | _, _ => proceed s (.selected readAt client secret requestedScope) []
  | .sign readAt client now scope =>
    let token := issueSubjectToken setup s.clock client scope
    (proceed s (.checked readAt client now scope) [.signed client.credentialID now token]).map fun t =>
      { t with signed := ⟨readAt, client.credentialID, token⟩ :: t.signed }
  | .updateUse credentialID now token =>
    match updateUse s.db credentialID now with
    | none => proceed s (.signed credentialID now token) []
    | some db =>
      (proceed s (.signed credentialID now token) []).map fun t =>
        { t with db, exchanged := credentialID :: t.exchanged }
  | .drop request => proceed s request []

end Steps

/-! ## What the calls do to the rows -/

/-- The account is changed with its token version, or kept with it. -/
structure Follows (account after : AccountRow) : Prop where
  tokenVersion : account.tokenVersion ≤ after.tokenVersion
  changed : account.status ≠ after.status ∨ account.expiresAt ≠ after.expiresAt →
    account.tokenVersion < after.tokenVersion

/-- A credential keeps its account and scopes, stays revoked, and is revoked with a new token
version of its account. -/
structure Stays (db after : Db) (row row' : CredentialRow) : Prop where
  principalID : row'.principalID = row.principalID
  scopes : row'.scopes = row.scopes
  revoked : row.revokedAt ≠ 0 → row'.revokedAt ≠ 0
  bumped : row.revokedAt = 0 → row'.revokedAt ≠ 0 → ∀ account account',
    db.accounts.find? row.principalID = some account →
    after.accounts.find? row.principalID = some account' →
    account.tokenVersion < account'.tokenVersion

structure Grows (db after : Db) : Prop where
  accounts : ∀ p account, db.accounts.find? p = some account →
    ∃ account', after.accounts.find? p = some account' ∧ Follows account account'
  credentials : ∀ k row, db.credentials.find? k = some row →
    ∃ row', after.credentials.find? k = some row' ∧ Stays db after row row'

def NoNewCredential (db after : Db) : Prop :=
  ∀ k, db.credentials.find? k = none → after.credentials.find? k = none

section Effects

variable {db after : Db} {now : Instant}

theorem noNewCredential_update {p : CredentialRow → Bool} {f : CredentialRow → CredentialRow}
    (hf : ∀ row, (f row).id = row.id) (hafter : after.credentials = db.credentials.updateWhere p f hf) :
    NoNewCredential db after := by
  intro k hnone
  rw [hafter, Table.find?_updateWhere, hnone]
  rfl

theorem Follows.refl (account : AccountRow) : Follows account account :=
  ⟨Nat.le_refl _, fun h => absurd h (by simp)⟩

theorem Follows.next {account after : AccountRow} (h : after.tokenVersion = account.tokenVersion + 1) :
    Follows account after :=
  ⟨by omega, fun _ => by omega⟩

theorem Stays.same {row row' : CredentialRow} (hprincipal : row'.principalID = row.principalID)
    (hscopes : row'.scopes = row.scopes) (hrevoked : row'.revokedAt = row.revokedAt) :
    Stays db after row row' :=
  ⟨hprincipal, hscopes, fun h => hrevoked ▸ h, fun hopen h => absurd (hrevoked.trans hopen) h⟩

theorem Grows.refl (db : Db) : Grows db db :=
  ⟨fun _ account hfound => ⟨account, hfound, Follows.refl account⟩,
    fun _ row hfound => ⟨row, hfound, Stays.same rfl rfl rfl⟩⟩

theorem find?_update_follows {accounts : Table AccountRow.principalID} {p : AccountRow → Bool}
    {f : AccountRow → AccountRow} (hf : ∀ row, (f row).principalID = row.principalID)
    {k : String} {account : AccountRow} (hfollows : p account = true → Follows account (f account))
    (hfound : accounts.find? k = some account) :
    ∃ account', (accounts.updateWhere p f hf).find? k = some account' ∧ Follows account account' := by
  refine ⟨if p account then f account else account, ?_, ?_⟩
  · rw [Table.find?_updateWhere, hfound]
    rfl
  · by_cases hp : p account = true
    · rw [if_pos hp]
      exact hfollows hp
    · rw [if_neg hp]
      exact Follows.refl account

theorem find?_update_stays {p : CredentialRow → Bool} {f : CredentialRow → CredentialRow}
    (hf : ∀ row, (f row).id = row.id) {k : String} {row : CredentialRow}
    (hstays : p row = true → Stays db after row (f row)) (hfound : db.credentials.find? k = some row) :
    ∃ row', (db.credentials.updateWhere p f hf).find? k = some row' ∧ Stays db after row row' := by
  refine ⟨if p row then f row else row, ?_, ?_⟩
  · rw [Table.find?_updateWhere, hfound]
    rfl
  · by_cases hp : p row = true
    · rw [if_pos hp]
      exact hstays hp
    · rw [if_neg hp]
      exact Stays.same rfl rfl rfl

/-- A credential is revoked together with an update that gives its account the next version. -/
theorem Stays.revokes {p : AccountRow → Bool}
    {f : AccountRow → AccountRow} (hkeeps : ∀ row, (f row).principalID = row.principalID)
    {row : CredentialRow} {account : AccountRow} (hafter : after.accounts = db.accounts.updateWhere p f hkeeps)
    (hopen : row.revokedAt = 0) (hfound : db.accounts.find? row.principalID = some account)
    (hp : p account = true) (hf : (f account).tokenVersion = account.tokenVersion + 1) :
    Stays db after row (row.revoke now) := by
  refine ⟨rfl, rfl, fun hrevoked => absurd hopen hrevoked, fun _ _ before later hbefore hlater => ?_⟩
  rw [hafter, Table.find?_updateWhere, hbefore] at hlater
  obtain rfl := Option.some.inj (hbefore.symm.trans hfound)
  have heq := Option.some.inj hlater
  simp only [hp, if_true] at heq
  rw [← heq, hf]
  exact Nat.lt_succ_self _

theorem notDeleted_iff {tenantID k : String} {row : AccountRow} :
    notDeleted tenantID k row = true ↔
      row.ownerTenantID = tenantID ∧ row.principalID = k ∧ row.status ≠ .deleted := by
  simp [notDeleted, and_assoc]

theorem isOpenOf_iff {k : String} {row : CredentialRow} :
    isOpenOf k row = true ↔ row.principalID = k ∧ row.revokedAt = 0 := by
  simp [isOpenOf]

theorem getServiceAccountRow_ok {tenantID k : String} {account : AccountRow} {principal : PrincipalRow}
    (h : getServiceAccountRow db tenantID k = .ok (account, principal)) :
    db.accounts.find? k = some account ∧ account.ownerTenantID = tenantID ∧ account.status ≠ .deleted := by
  unfold getServiceAccountRow at h
  split_ifs at h
  split at h
  next hselected _ =>
    obtain ⟨rfl, -⟩ := Prod.mk.inj (Except.ok.inj h)
    obtain ⟨hfound, hrow⟩ := Option.filter_eq_some_iff.mp hselected
    obtain ⟨howner, -, hlive⟩ := notDeleted_iff.mp hrow
    exact ⟨hfound, howner, hlive⟩
  · cases h

theorem grows_createServiceAccount {setup : Setup} {tenantID loginName displayName description k : String}
    {expiresAt : Option Millis}
    (h : createServiceAccount setup db now tenantID loginName displayName description expiresAt k =
      .ok after) : Grows db after ∧ NoNewCredential db after := by
  unfold createServiceAccount at h
  dsimp only at h
  split_ifs at h
  split at h
  · cases h
  next hinsert _ =>
    obtain rfl := Except.ok.inj h
    exact ⟨⟨fun p account hfound => ⟨account, Table.find?_of_insert? hinsert hfound, Follows.refl account⟩,
      fun k row hfound => ⟨row, hfound, Stays.same rfl rfl rfl⟩⟩, fun _ hnone => hnone⟩
  · cases h

theorem grows_replaceServiceAccount {tenantID k displayName description status : String}
    {expiresAt : Option Millis} {version : Nat} {administered : Bool}
    (h : replaceServiceAccount db now tenantID k displayName description status expiresAt version
      administered = .ok after) : Grows db after ∧ NoNewCredential db after := by
  unfold replaceServiceAccount at h
  dsimp only at h
  split at h
  · cases h
  split at h
  · cases h
  · cases h
  next status current principal _ hget =>
    obtain ⟨hcurrent, -, -⟩ := getServiceAccountRow_ok hget
    split at h
    · cases h
    split at h
    · cases h
    split at h
    · cases h
    obtain rfl := Except.ok.inj h
    refine ⟨⟨fun p account hfound => ?_, fun k row hfound => ⟨row, hfound, Stays.same rfl rfl rfl⟩⟩,
      fun _ hnone => hnone⟩
    refine @find?_update_follows db.accounts (hasVersion (trimmed tenantID) (trimmed k) version)
      (replaced now (trimmed description) status (timeMillis expiresAt) current) (fun _ => rfl) p account
      (fun hp => ?_) hfound
    have hsame : account = current := by
      have hkey := (notDeleted_iff.mp (Bool.and_eq_true_iff.mp hp).1).2.1
      have hp := (Table.find?_eq_some.mp hfound).2
      rw [← hp, hkey] at hfound
      exact Option.some.inj (hfound.symm.trans hcurrent)
    subst hsame
    unfold replaced
    constructor
    · dsimp only
      split_ifs <;> omega
    · intro hchanged
      dsimp only at hchanged ⊢
      rw [if_pos (by simpa using hchanged)]
      exact Nat.lt_succ_self _

theorem grows_deleteServiceAccount {tenantID k : String} {version : Nat} {administered : Bool}
    (h : deleteServiceAccount db now tenantID k version administered = .ok after) :
    Grows db after ∧ NoNewCredential db after := by
  unfold deleteServiceAccount at h
  dsimp only at h
  split at h
  · cases h
  split at h
  · cases h
  next current principal hget =>
    obtain ⟨hcurrent, howner, hlive⟩ := getServiceAccountRow_ok hget
    split at h
    · cases h
    next hversion =>
    split at h
    · cases h
    split at h
    · cases h
    obtain rfl := Except.ok.inj h
    refine ⟨⟨fun p account hfound => ?_, fun k' row hfound => ?_⟩,
      @noNewCredential_update db _ (isOpenOf (trimmed k)) (CredentialRow.revoke now) (fun _ => rfl) rfl⟩
    · exact @find?_update_follows db.accounts (hasVersion (trimmed tenantID) (trimmed k) version)
        (deleted now) (fun _ => rfl) p account (fun _ => Follows.next rfl) hfound
    refine @find?_update_stays db _ (isOpenOf (trimmed k)) (CredentialRow.revoke now) (fun _ => rfl) k' row
      (fun hp => ?_) hfound
    obtain ⟨hkey, hopen⟩ := isOpenOf_iff.mp hp
    have hselected : hasVersion (trimmed tenantID) (trimmed k) version current = true := by
      have hkey := (Table.find?_eq_some.mp hcurrent).2
      have hrow : notDeleted (trimmed tenantID) (trimmed k) current = true :=
        notDeleted_iff.mpr ⟨howner, hkey, hlive⟩
      rw [hasVersion, hrow, not_not.mp hversion]
      simp
    exact @Stays.revokes db _ now (hasVersion (trimmed tenantID) (trimmed k) version) (deleted now)
      (fun _ => rfl) row current rfl hopen (hkey ▸ hcurrent) hselected rfl

theorem grows_createCredential {tenantID k name credentialID secretHash : String} {scopes : List String}
    {expiresAt : Option Millis}
    (h : createCredential db now tenantID k name scopes expiresAt credentialID secretHash = .ok after) :
    Grows db after ∧ ∃ granted row, normalizeServiceAccountScopes scopes = some granted ∧
      row.id = credentialID ∧ row.scopes = join granted ∧
      db.credentials.insert? row = some after.credentials := by
  unfold createCredential at h
  dsimp only at h
  split at h
  · cases h
  next granted hgranted =>
    split at h
    · cases h
    split at h
    · cases h
    split at h
    · cases h
    split at h
    · cases h
    split at h
    · cases h
    next credentials hinsert =>
      obtain rfl := Except.ok.inj h
      exact ⟨⟨fun _ account hfound => ⟨account, hfound, Follows.refl account⟩,
        fun _ row hfound => ⟨row, Table.find?_of_insert? hinsert hfound, Stays.same rfl rfl rfl⟩⟩,
        granted, _, hgranted, rfl, rfl, hinsert⟩

theorem grows_revokeCredential {tenantID k credentialID : String}
    (h : revokeCredential db now tenantID k credentialID = .ok after) :
    Grows db after ∧ NoNewCredential db after := by
  unfold revokeCredential at h
  dsimp only at h
  split at h
  · cases h
  split at h
  · cases h
  · cases h
  next found row hget hselected =>
    obtain ⟨account, principal⟩ := found
    obtain ⟨haccount, howner, -⟩ := getServiceAccountRow_ok hget
    split at h
    · obtain rfl := Except.ok.inj h
      exact ⟨Grows.refl db, fun _ hnone => hnone⟩
    obtain rfl := Except.ok.inj h
    refine ⟨⟨fun p account hfound => ?_, fun k' row hfound => ?_⟩,
      @noNewCredential_update db _ (fun row => row.id = trimmed credentialID && isOpenOf (trimmed k) row)
        (CredentialRow.revoke now) (fun _ => rfl) rfl⟩
    · exact @find?_update_follows db.accounts (isOwnedBy (trimmed tenantID) (trimmed k)) (advanced now)
        (fun _ => rfl) p account (fun _ => Follows.next rfl) hfound
    refine @find?_update_stays db _ (fun row => row.id = trimmed credentialID && isOpenOf (trimmed k) row)
      (CredentialRow.revoke now) (fun _ => rfl) k' row (fun hp => ?_) hfound
    obtain ⟨hkey, hopen⟩ := isOpenOf_iff.mp (Bool.and_eq_true_iff.mp hp).2
    have hprincipal := (Table.find?_eq_some.mp haccount).2
    have howned : isOwnedBy (trimmed tenantID) (trimmed k) account = true := by
      simp [isOwnedBy, hprincipal, howner]
    exact @Stays.revokes db _ now (isOwnedBy (trimmed tenantID) (trimmed k)) (advanced now) (fun _ => rfl)
      row account rfl hopen (hkey ▸ haccount) howned rfl

end Effects

/-! ## What a step does -/

/-- What a request, or a signed token, has read of its account. -/
structure Reading where
  readAt : Nat
  principalID : String
  tokenVersion : Nat

def Request.reading : Request → Option Reading
  | .selected readAt client _ _ => some ⟨readAt, client.principalID, client.tokenVersion⟩
  | .checked readAt client _ _ => some ⟨readAt, client.principalID, client.tokenVersion⟩
  | .signed .. => none

def Signed.reading (x : Signed) : Reading := ⟨x.readAt, x.token.subject, x.token.credentialVersion⟩

def Server.readings (s : Server) : List Reading :=
  s.requests.filterMap Request.reading ++ s.signed.map Signed.reading

section Steps

variable {setup : Setup} {s t u : Server} {e : Event}

theorem commit_eq_some {outcome : Except Failure Db} (h : commit s outcome = some t) :
    t = { s with steps := s.steps + 1 } ∨ ∃ db, outcome = .ok db ∧ t = { s with steps := s.steps + 1, db } := by
  unfold commit at h
  split at h
  · exact .inl (Option.some.inj h).symm
  next db => exact .inr ⟨db, rfl, (Option.some.inj h).symm⟩

theorem proceed_eq_some {done : Request} {ahead : List Request} (h : proceed s done ahead = some t) :
    done ∈ s.requests ∧ t = { s with steps := s.steps + 1, requests := ahead ++ s.requests.erase done } := by
  unfold proceed at h
  split_ifs at h with hmem
  exact ⟨hmem, (Option.some.inj h).symm⟩

theorem updateUse_eq_some {db after : Db} {k : String} {now : Millis} (h : updateUse db k now = some after) :
    Grows db after ∧ NoNewCredential db after ∧
      ∃ row, db.credentials.find? k = some row ∧ row.revokedAt = 0 := by
  unfold updateUse at h
  dsimp only at h
  split_ifs at h with hone
  obtain rfl := Option.some.inj h
  refine ⟨⟨fun p account hfound => ⟨account, hfound, Follows.refl account⟩, fun k' row hfound => ?_⟩,
    @noNewCredential_update db _ (fun row => row.id = k && row.revokedAt = 0)
      (fun row => { row with lastUsedAt := now }) (fun _ => rfl) rfl, ?_⟩
  · exact @find?_update_stays db _ (fun row => row.id = k && row.revokedAt = 0)
      (fun row => { row with lastUsedAt := now }) (fun _ => rfl) k' row (fun _ => Stays.same rfl rfl rfl) hfound
  · have hpos : 0 < db.credentials.rows.countP fun row => row.id = k && row.revokedAt = 0 := by omega
    obtain ⟨row, hmem, hrow⟩ := List.countP_pos_iff.mp hpos
    obtain ⟨hkey, hopen⟩ : row.id = k ∧ row.revokedAt = 0 := by simpa using hrow
    exact ⟨row, Table.find?_eq_some.mpr ⟨hmem, hkey⟩, hopen⟩

/-- What a step does to the requests and to the history. -/
inductive Does (setup : Setup) (s : Server) (e : Event) (t : Server) : Prop where
  | calls (clock : Instant) (db : Db) (hgrows : Grows s.db db) (hnew : NoNewCredential s.db db)
      (ht : t = { s with clock, steps := s.steps + 1, db })
  | creates {tenantID k name credentialID secretHash : String} {scopes granted : List String}
      {expiresAt : Option Millis} {db : Db} {row : CredentialRow} (hgrows : Grows s.db db)
      (he : e = .createCredential tenantID k name scopes expiresAt credentialID secretHash)
      (hgranted : normalizeServiceAccountScopes scopes = some granted) (hid : row.id = credentialID)
      (hscopes : row.scopes = join granted) (hinsert : s.db.credentials.insert? row = some db.credentials)
      (ht : t = { s with
        steps := s.steps + 1
        db
        granted := Function.update s.granted credentialID granted })
  | selects {k : String} {client : ServiceAccountClient} (secret requestedScope : String)
      (hclient : selectClient s.db k = some client)
      (ht : t = { s with
        steps := s.steps + 1
        requests := .selected s.steps client secret requestedScope :: s.requests })
  | checks {readAt : Nat} {client : ServiceAccountClient} {secret requestedScope scope : String}
      (hmem : Request.selected readAt client secret requestedScope ∈ s.requests)
      (hallowed : allowedScopes client.scopes scope = true)
      (ht : t = { s with
        steps := s.steps + 1
        requests := .checked readAt client s.clock.millis scope ::
          s.requests.erase (.selected readAt client secret requestedScope) })
  | signs {readAt : Nat} {client : ServiceAccountClient} {now : Millis} {scope : String}
      (hmem : Request.checked readAt client now scope ∈ s.requests)
      (ht : t = { s with
        steps := s.steps + 1
        requests := .signed client.credentialID now (issueSubjectToken setup s.clock client scope) ::
          s.requests.erase (.checked readAt client now scope)
        signed := ⟨readAt, client.credentialID, issueSubjectToken setup s.clock client scope⟩ :: s.signed })
  | uses {k : String} {now : Millis} {token : Token} {db : Db} (hused : updateUse s.db k now = some db)
      (ht : t = { s with
        steps := s.steps + 1
        db
        requests := s.requests.erase (.signed k now token)
        exchanged := k :: s.exchanged })
  | drops (request : Request)
      (ht : t = { s with steps := s.steps + 1, requests := s.requests.erase request })

theorem grantedScope_eq_some {client : ServiceAccountClient} {requestedScope scope : String}
    (h : grantedScope client requestedScope = some scope) : allowedScopes client.scopes scope = true := by
  unfold grantedScope at h
  generalize askedScope client requestedScope = asked at h
  obtain ⟨hallowed, heq⟩ := Option.ite_none_right_eq_some.mp h
  obtain rfl := Option.some.inj heq
  exact hallowed

theorem does_of_step (h : step setup s e = some t) : Does setup s e t := by
  have hcommit : ∀ {outcome : Except Failure Db},
      (∀ db, outcome = .ok db → Grows s.db db ∧ NoNewCredential s.db db) →
      commit s outcome = some t → Does setup s e t := by
    intro outcome hok hcommit
    rcases commit_eq_some hcommit with rfl | ⟨db, houtcome, rfl⟩
    · exact .calls s.clock s.db (Grows.refl _) (fun _ hnone => hnone) rfl
    · exact .calls s.clock db (hok db houtcome).1 (hok db houtcome).2 rfl
  have hdrop : ∀ {request : Request}, proceed s request [] = some t → Does setup s e t := by
    intro request hproceed
    exact .drops request (proceed_eq_some hproceed).2
  cases e with
  | passes =>
    obtain rfl := Option.some.inj h
    exact .calls _ s.db (Grows.refl _) (fun _ hnone => hnone) rfl
  | others tenants principals members =>
    obtain rfl := Option.some.inj h
    exact .calls s.clock { s.db with tenants, principals, members }
      ⟨fun _ account hfound => ⟨account, hfound, Follows.refl account⟩,
        fun _ row hfound => ⟨row, hfound, Stays.same rfl rfl rfl⟩⟩ (fun _ hnone => hnone) rfl
  | createServiceAccount => exact hcommit (fun _ hok => grows_createServiceAccount hok) h
  | replaceServiceAccount => exact hcommit (fun _ hok => grows_replaceServiceAccount hok) h
  | deleteServiceAccount => exact hcommit (fun _ hok => grows_deleteServiceAccount hok) h
  | revokeCredential => exact hcommit (fun _ hok => grows_revokeCredential hok) h
  | createCredential =>
    simp only [step] at h
    split at h
    · obtain rfl := Option.some.inj h
      exact .calls s.clock s.db (Grows.refl _) (fun _ hnone => hnone) rfl
    next hok =>
      obtain ⟨hgrows, granted, row, hgranted, hid, hscopes, hinsert⟩ := grows_createCredential hok
      rw [hgranted] at h
      exact .creates hgrows rfl hgranted hid hscopes hinsert (Option.some.inj h).symm
  | selectClient k secret requestedScope =>
    simp only [step] at h
    split at h
    · obtain rfl := Option.some.inj h
      exact .calls s.clock s.db (Grows.refl _) (fun _ hnone => hnone) rfl
    next hclient => exact .selects secret requestedScope hclient (Option.some.inj h).symm
  | check =>
    simp only [step] at h
    split at h
    next hscope =>
      obtain ⟨hmem, ht⟩ := proceed_eq_some h
      exact .checks hmem (grantedScope_eq_some hscope) ht
    · exact hdrop h
  | sign =>
    obtain ⟨next, hnext, ht⟩ := Option.map_eq_some_iff.mp h
    obtain ⟨hmem, rfl⟩ := proceed_eq_some hnext
    exact .signs hmem ht.symm
  | updateUse =>
    simp only [step] at h
    split at h
    · exact hdrop h
    next hused =>
      obtain ⟨next, hnext, ht⟩ := Option.map_eq_some_iff.mp h
      obtain ⟨-, rfl⟩ := proceed_eq_some hnext
      exact .uses hused ht.symm
  | drop => exact hdrop h

theorem grows_of_step (h : step setup s e = some t) : Grows s.db t.db ∧ t.steps = s.steps + 1 := by
  cases does_of_step h with
  | calls _ _ hgrows _ ht => exact ht ▸ ⟨hgrows, rfl⟩
  | creates hgrows _ _ _ _ _ ht => exact ht ▸ ⟨hgrows, rfl⟩
  | selects _ _ _ ht | checks _ _ ht | signs _ ht | drops _ ht => exact ht ▸ ⟨Grows.refl _, rfl⟩
  | uses hused ht => exact ht ▸ ⟨(updateUse_eq_some hused).1, rfl⟩

theorem selectClient_eq_some {db : Db} {k : String} {client : ServiceAccountClient}
    (h : selectClient db k = some client) :
    ∃ credential account, db.credentials.find? client.credentialID = some credential ∧
      credential.scopes = client.scopes ∧ db.accounts.find? client.principalID = some account ∧
      account.tokenVersion = client.tokenVersion := by
  obtain ⟨credential, hcredential, h⟩ := Option.bind_eq_some_iff.mp h
  obtain ⟨account, haccount, h⟩ := Option.bind_eq_some_iff.mp h
  obtain ⟨principal, -, h⟩ := Option.bind_eq_some_iff.mp h
  obtain ⟨member, -, h⟩ := Option.bind_eq_some_iff.mp h
  obtain ⟨tenant, -, h⟩ := Option.bind_eq_some_iff.mp h
  obtain rfl := Option.some.inj h
  have hkey : credential.id = k := (Table.find?_eq_some.mp hcredential).2
  exact ⟨credential, account, hkey.symm ▸ hcredential, rfl, haccount, rfl⟩

theorem mem_readings {x : Reading} :
    x ∈ s.readings ↔ (∃ request ∈ s.requests, request.reading = some x) ∨
      ∃ signed ∈ s.signed, signed.reading = x := by
  simp [Server.readings]

/-- A reading is an earlier one, or it is of the version that the account has. -/
theorem readings_of_step (h : step setup s e = some t) {x : Reading} (hx : x ∈ t.readings) :
    x ∈ s.readings ∨ (x.readAt = s.steps ∧ t.db = s.db ∧
      ∃ account, s.db.accounts.find? x.principalID = some account ∧
        account.tokenVersion = x.tokenVersion) := by
  have hold : ∀ {request : Request}, (∃ other ∈ s.requests.erase request, other.reading = some x) →
      ∃ other ∈ s.requests, other.reading = some x := by
    rintro request ⟨other, hother, hreading⟩
    exact ⟨other, List.mem_of_mem_erase hother, hreading⟩
  rw [mem_readings] at hx
  cases does_of_step h with
  | calls _ _ _ _ ht | creates _ _ _ _ _ _ ht =>
    subst ht
    exact .inl (mem_readings.mpr hx)
  | selects _ _ hclient ht =>
    subst ht
    obtain ⟨-, account, -, -, haccount, hversion⟩ := selectClient_eq_some hclient
    rcases hx with ⟨request, hrequest, hreading⟩ | hsigned
    · rcases List.mem_cons.mp hrequest with rfl | hearlier
      · obtain rfl := Option.some.inj hreading
        exact .inr ⟨rfl, rfl, account, haccount, hversion⟩
      · exact .inl (mem_readings.mpr (.inl ⟨request, hearlier, hreading⟩))
    · exact .inl (mem_readings.mpr (.inr hsigned))
  | checks hmem _ ht =>
    subst ht
    rcases hx with ⟨request, hrequest, hreading⟩ | hsigned
    · rcases List.mem_cons.mp hrequest with rfl | hearlier
      · exact .inl (mem_readings.mpr (.inl ⟨_, hmem, hreading⟩))
      · exact .inl (mem_readings.mpr (.inl (hold ⟨request, hearlier, hreading⟩)))
    · exact .inl (mem_readings.mpr (.inr hsigned))
  | signs hmem ht =>
    subst ht
    rcases hx with ⟨request, hrequest, hreading⟩ | ⟨signed, hsigned, hreading⟩
    · rcases List.mem_cons.mp hrequest with rfl | hearlier
      · cases hreading
      · exact .inl (mem_readings.mpr (.inl (hold ⟨request, hearlier, hreading⟩)))
    · rcases List.mem_cons.mp hsigned with rfl | hearlier
      · exact .inl (mem_readings.mpr (.inl ⟨_, hmem, congrArg some hreading⟩))
      · exact .inl (mem_readings.mpr (.inr ⟨signed, hearlier, hreading⟩))
  | uses _ ht | drops _ ht =>
    subst ht
    rcases hx with hrequest | hsigned
    · exact .inl (mem_readings.mpr (.inl (hold hrequest)))
    · exact .inl (mem_readings.mpr (.inr hsigned))

end Steps

/-! ## Old tokens stay refused -/

/-- The status or the expiry of the account changes, or a credential of it is revoked; a
deletion changes the status. -/
def Severs (db after : Db) (p : String) : Prop :=
  ∃ account account', db.accounts.find? p = some account ∧ after.accounts.find? p = some account' ∧
    (account.status ≠ account'.status ∨ account.expiresAt ≠ account'.expiresAt ∨
      ∃ k row row', db.credentials.find? k = some row ∧ row.principalID = p ∧ row.revokedAt = 0 ∧
        after.credentials.find? k = some row' ∧ row'.revokedAt ≠ 0)

/-- What has been read is of a version that its account has had. -/
def Known (s : Server) : Prop :=
  ∀ x ∈ s.readings, x.readAt < s.steps ∧
    ∃ account, s.db.accounts.find? x.principalID = some account ∧ x.tokenVersion ≤ account.tokenVersion

/-- The account has outgrown what was read of it before the step `k`. -/
structure Outgrown (p : String) (k : Nat) (s : Server) : Prop where
  steps : k ≤ s.steps
  account : ∃ account, s.db.accounts.find? p = some account ∧
    ∀ x ∈ s.readings, x.principalID = p → x.readAt < k → x.tokenVersion < account.tokenVersion

section Runs

variable {setup : Setup} {clock : Instant} {db : Db} {events : List Event} {s t u : Server} {e : Event}
  {p : String} {k : Nat}

theorem known_step (hknown : Known s) (h : step setup s e = some t) : Known t := by
  obtain ⟨hgrows, hsteps⟩ := grows_of_step h
  intro x hx
  rcases readings_of_step h hx with hearlier | ⟨hat, hdb, account, haccount, hversion⟩
  · obtain ⟨hbefore, account, haccount, hle⟩ := hknown x hearlier
    obtain ⟨account', haccount', hfollows⟩ := hgrows.accounts _ _ haccount
    exact ⟨by omega, account', haccount', hle.trans hfollows.tokenVersion⟩
  · rw [hdb]
    exact ⟨by omega, account, haccount, hversion.ge⟩

theorem outgrown_step (hout : Outgrown p k s) (h : step setup s e = some t) : Outgrown p k t := by
  obtain ⟨hgrows, hsteps⟩ := grows_of_step h
  obtain ⟨account, haccount, hless⟩ := hout.account
  obtain ⟨account', haccount', hfollows⟩ := hgrows.accounts _ _ haccount
  refine ⟨by have := hout.steps; omega, account', haccount', fun x hx hp hbefore => ?_⟩
  rcases readings_of_step h hx with hearlier | ⟨hat, -, -⟩
  · exact lt_of_lt_of_le (hless x hearlier hp hbefore) hfollows.tokenVersion
  · have := hout.steps
    omega

theorem Grows.severed {after : Db} (hgrows : Grows db after) (hsevers : Severs db after p) :
    ∃ account account', db.accounts.find? p = some account ∧ after.accounts.find? p = some account' ∧
      account.tokenVersion < account'.tokenVersion := by
  obtain ⟨account, account', haccount, haccount', hchange⟩ := hsevers
  refine ⟨account, account', haccount, haccount', ?_⟩
  obtain ⟨found, hfound, hfollows⟩ := hgrows.accounts p account haccount
  obtain rfl := Option.some.inj (hfound.symm.trans haccount')
  rcases hchange with hstatus | hexpiry | ⟨k, row, row', hrow, rfl, hopen, hrow', hrevoked⟩
  · exact hfollows.changed (.inl hstatus)
  · exact hfollows.changed (.inr hexpiry)
  · obtain ⟨other, hother, hstays⟩ := hgrows.credentials k row hrow
    obtain rfl := Option.some.inj (hother.symm.trans hrow')
    exact hstays.bumped hopen hrevoked account found haccount haccount'

theorem outgrown_of_severs (hknown : Known s) (h : step setup s e = some t) (hsevers : Severs s.db t.db p) :
    Outgrown p t.steps t := by
  obtain ⟨account, account', haccount, haccount', hless⟩ := (grows_of_step h).1.severed hsevers
  refine ⟨le_rfl, account', haccount', fun x hx hp _ => ?_⟩
  rcases readings_of_step h hx with hearlier | ⟨-, hdb, -⟩
  · obtain ⟨-, found, hfound, hle⟩ := hknown x hearlier
    rw [hp] at hfound
    obtain rfl := Option.some.inj (hfound.symm.trans haccount)
    exact lt_of_le_of_lt hle hless
  · rw [hdb] at haccount'
    obtain rfl := Option.some.inj (haccount.symm.trans haccount')
    exact absurd hless (Nat.lt_irrefl _)

theorem refused_of_outgrown (hout : Outgrown p k s) {x : Signed} (hx : x ∈ s.signed)
    (hp : x.token.subject = p) (hbefore : x.readAt < k) : authenticate setup s.db s.clock x.token = false := by
  obtain ⟨account, haccount, hless⟩ := hout.account
  have hversion : x.token.credentialVersion < account.tokenVersion :=
    hless x.reading (mem_readings.mpr (.inr ⟨x, hx, rfl⟩)) hp hbefore
  have hstate : verifySubjectState s.db s.clock x.token = false := by
    rw [verifySubjectState, hp, haccount]
    simp only [Bool.and_eq_false_iff, decide_eq_false_iff_not]
    exact .inr (ne_of_gt hversion)
  rw [authenticate, hstate, Bool.and_false]

/-! ## Revoked credentials stay revoked -/

def Revoked (k : String) (s : Server) : Prop :=
  ∃ row, s.db.credentials.find? k = some row ∧ row.revokedAt ≠ 0

theorem revoked_step {k : String} (hrevoked : Revoked k s) (h : step setup s e = some t) :
    Revoked k t ∧ t.exchanged.count k = s.exchanged.count k := by
  obtain ⟨row, hfound, hset⟩ := hrevoked
  obtain ⟨row', hfound', hstays⟩ := (grows_of_step h).1.credentials k row hfound
  refine ⟨⟨row', hfound', hstays.revoked hset⟩, ?_⟩
  cases does_of_step h with
  | calls _ _ _ _ ht | creates _ _ _ _ _ _ ht | selects _ _ _ ht | checks _ _ ht | signs _ ht | drops _ ht =>
    rw [ht]
  | uses hused ht =>
    obtain ⟨-, -, used, huse, hopen⟩ := updateUse_eq_some hused
    rw [ht]
    refine List.count_cons_of_ne fun heq => hset ?_
    rw [heq] at huse
    obtain rfl := Option.some.inj (huse.symm.trans hfound)
    exact hopen

/-! ## Scopes -/

/-- The stored scopes of the credential allow this scope. -/
def Allows (s : Server) (k scope : String) : Prop :=
  ∃ row, s.db.credentials.find? k = some row ∧ allowedScopes row.scopes scope = true

/-- A credential stores what it was given, and what has been selected, checked or signed goes
back to what it stores. -/
structure Scoped (s : Server) : Prop where
  stored : ∀ k row, s.db.credentials.find? k = some row → row.scopes = join (s.granted k)
  selected : ∀ readAt client secret requestedScope,
    .selected readAt client secret requestedScope ∈ s.requests →
      ∃ row, s.db.credentials.find? client.credentialID = some row ∧ row.scopes = client.scopes
  checked : ∀ readAt client now scope,
    .checked readAt client now scope ∈ s.requests → Allows s client.credentialID scope
  signed : ∀ x ∈ s.signed, Allows s x.credentialID x.token.scope

theorem Grows.keepsScopes {after : Db} (hgrows : Grows db after) {k : String} {row : CredentialRow}
    (hfound : db.credentials.find? k = some row) :
    ∃ row', after.credentials.find? k = some row' ∧ row'.scopes = row.scopes := by
  obtain ⟨row', hfound', hstays⟩ := hgrows.credentials k row hfound
  exact ⟨row', hfound', hstays.scopes⟩

theorem allows_step (h : step setup s e = some t) {k scope : String} (hallows : Allows s k scope) :
    Allows t k scope := by
  obtain ⟨row, hfound, hallowed⟩ := hallows
  obtain ⟨row', hfound', hscopes⟩ := (grows_of_step h).1.keepsScopes hfound
  exact ⟨row', hfound', hscopes ▸ hallowed⟩

theorem stored_step (hscoped : Scoped s) (h : step setup s e = some t) :
    ∀ k row, t.db.credentials.find? k = some row → row.scopes = join (t.granted k) := by
  have hkept : ∀ {after : Db}, Grows s.db after → NoNewCredential s.db after → ∀ k row,
      after.credentials.find? k = some row → row.scopes = join (s.granted k) := by
    intro after hgrows hnew k row hfound
    cases hbefore : s.db.credentials.find? k with
    | none => exact absurd (hnew k hbefore) (by simp [hfound])
    | some old =>
      obtain ⟨row', hfound', hscopes⟩ := hgrows.keepsScopes hbefore
      obtain rfl := Option.some.inj (hfound'.symm.trans hfound)
      exact hscopes.trans (hscoped.stored k old hbefore)
  cases does_of_step h with
  | calls _ _ hgrows hnew ht =>
    rw [ht]
    exact hkept hgrows hnew
  | creates _ _ _ hid hscopes hinsert ht =>
    subst ht
    intro k row hfound
    obtain ⟨hfree, heq⟩ := Table.insert?_eq_some.mp hinsert
    have hfound : (s.db.credentials.insertIgnore _).find? k = some row := heq ▸ hfound
    rw [Table.find?_insertIgnore hfree] at hfound
    split_ifs at hfound with hkey
    · obtain rfl := Option.some.inj hfound
      dsimp only
      rw [← hkey, hid, Function.update_self]
      exact hscopes
    · rw [hid] at hkey
      dsimp only
      rw [Function.update_of_ne (Ne.symm hkey)]
      exact hscoped.stored k row hfound
  | selects _ _ _ ht | checks _ _ ht | signs _ ht | drops _ ht =>
    rw [ht]
    exact hscoped.stored
  | uses hused ht =>
    rw [ht]
    exact hkept (updateUse_eq_some hused).1 (updateUse_eq_some hused).2.1

theorem scoped_step (hscoped : Scoped s) (h : step setup s e = some t) : Scoped t := by
  have hselected : ∀ readAt client secret requestedScope,
      .selected readAt client secret requestedScope ∈ s.requests →
      ∃ row, t.db.credentials.find? client.credentialID = some row ∧ row.scopes = client.scopes := by
    intro readAt client secret requestedScope hmem
    obtain ⟨row, hfound, hscopes⟩ := hscoped.selected _ _ _ _ hmem
    obtain ⟨row', hfound', hsame⟩ := (grows_of_step h).1.keepsScopes hfound
    exact ⟨row', hfound', hsame.trans hscopes⟩
  have hchecked : ∀ readAt client now scope, .checked readAt client now scope ∈ s.requests →
      Allows t client.credentialID scope :=
    fun _ _ _ _ hmem => allows_step h (hscoped.checked _ _ _ _ hmem)
  have hsigned : ∀ x ∈ s.signed, Allows t x.credentialID x.token.scope :=
    fun x hx => allows_step h (hscoped.signed x hx)
  refine ⟨stored_step hscoped h, ?_, ?_, ?_⟩
  · intro readAt client secret requestedScope hmem
    cases does_of_step h with
    | calls _ _ _ _ ht | creates _ _ _ _ _ _ ht => exact hselected _ _ _ _ (ht ▸ hmem)
    | selects _ _ hclient ht =>
      subst ht
      rcases List.mem_cons.mp hmem with heq | hearlier
      · obtain ⟨-, rfl, -, -⟩ := Request.selected.inj heq
        obtain ⟨row, -, hfound, hscopes, -⟩ := selectClient_eq_some hclient
        exact ⟨row, hfound, hscopes⟩
      · exact hselected _ _ _ _ hearlier
    | checks _ _ ht | signs _ ht =>
      subst ht
      rcases List.mem_cons.mp hmem with heq | hearlier
      · cases heq
      · exact hselected _ _ _ _ (List.mem_of_mem_erase hearlier)
    | uses _ ht | drops _ ht =>
      subst ht
      exact hselected _ _ _ _ (List.mem_of_mem_erase hmem)
  · intro readAt client now scope hmem
    cases does_of_step h with
    | calls _ _ _ _ ht | creates _ _ _ _ _ _ ht => exact hchecked _ _ _ _ (ht ▸ hmem)
    | selects _ _ _ ht =>
      subst ht
      rcases List.mem_cons.mp hmem with heq | hearlier
      · cases heq
      · exact hchecked _ _ _ _ hearlier
    | checks hread hallowed ht =>
      subst ht
      rcases List.mem_cons.mp hmem with heq | hearlier
      · obtain ⟨-, rfl, -, rfl⟩ := Request.checked.inj heq
        obtain ⟨row, hfound, hscopes⟩ := hscoped.selected _ _ _ _ hread
        exact ⟨row, hfound, hscopes ▸ hallowed⟩
      · exact hchecked _ _ _ _ (List.mem_of_mem_erase hearlier)
    | signs _ ht =>
      subst ht
      rcases List.mem_cons.mp hmem with heq | hearlier
      · cases heq
      · exact hchecked _ _ _ _ (List.mem_of_mem_erase hearlier)
    | uses _ ht | drops _ ht =>
      subst ht
      exact hchecked _ _ _ _ (List.mem_of_mem_erase hmem)
  · intro x hx
    cases does_of_step h with
    | calls _ _ _ _ ht | creates _ _ _ _ _ _ ht | selects _ _ _ ht | checks _ _ ht | uses _ ht
    | drops _ ht =>
      subst ht
      exact hsigned x hx
    | signs hread ht =>
      subst ht
      rcases List.mem_cons.mp hx with rfl | hearlier
      · exact hscoped.checked _ _ _ _ hread
      · exact hsigned x hearlier

/-- The credential that is created is given plain scopes. -/
def Plain : Event → Prop
  | .createCredential _ _ _ scopes _ _ _ => plain ((normalizeServiceAccountScopes scopes).getD []) = true
  | _ => True

instance (e : Event) : Decidable (Plain e) := by
  cases e <;> unfold Plain <;> infer_instance

theorem plain_update {granted : String → List String} {scopes : List String} {k : String}
    (hplain : ∀ k, plain (granted k) = true) (hnew : plain scopes = true) (other : String) :
    plain (Function.update granted k scopes other) = true := by
  by_cases hother : other = k
  · rw [hother, Function.update_self]
    exact hnew
  · rw [Function.update_of_ne hother]
    exact hplain other

theorem plain_step (hplain : ∀ k, plain (s.granted k) = true) (he : Plain e) (h : step setup s e = some t) :
    ∀ k, plain (t.granted k) = true := by
  cases does_of_step h with
  | calls _ _ _ _ ht | selects _ _ _ ht | checks _ _ ht | signs _ ht | uses _ ht | drops _ ht =>
    rw [ht]
    exact hplain
  | creates _ hevent hgranted _ _ _ ht =>
    subst hevent ht
    simp only [Plain, hgranted, Option.getD_some] at he
    exact plain_update hplain he

/-! ## Runs -/

/-- What holds in a run: an account that was severed has outgrown its earlier tokens, a revoked
credential is not exchanged, and tokens have scopes of their credentials only. -/
structure Final (setup : Setup) (clock : Instant) (db : Db) (events : List Event) : Prop where
  severed : ∀ done e rest t u v, events = done ++ e :: rest →
    run (step setup) (start clock db) done = some t → step setup t e = some u →
    Passes (step setup) u rest v → ∀ x ∈ v.signed, Severs t.db u.db x.token.subject →
    x.readAt < u.steps → authenticate setup v.db v.clock x.token = false
  exchanged : ∀ done rest t v, events = done ++ rest →
    run (step setup) (start clock db) done = some t → Passes (step setup) t rest v →
    ∀ k, Revoked k t → v.exchanged.count k = t.exchanged.count k
  within : ∀ t, Passes (step setup) (start clock db) events t →
    ∀ x ∈ t.signed, ∀ word ∈ fields x.token.scope, word ∈ t.granted x.credentialID

theorem known_start : Known (start clock db) := fun _ hx => absurd hx List.not_mem_nil

theorem scoped_start : Scoped (start clock db) := by
  constructor
  · intro k row hfound
    cases hfound
  · exact fun _ _ _ _ hmem => absurd hmem List.not_mem_nil
  · exact fun _ _ _ _ hmem => absurd hmem List.not_mem_nil
  · exact fun _ hx => absurd hx List.not_mem_nil

end Runs

theorem revocation_final (setup : Setup) (clock : Instant) (db : Db) (events : List Event)
    (hplain : ∀ t e u, Takes (step setup) (start clock db) events t e u → Plain e) :
    Final setup clock db events := by
  have hpasses : ∀ {done rest t}, events = done ++ rest → run (step setup) (start clock db) done = some t →
      Passes (step setup) (start clock db) events t := fun hsplit hrun => ⟨_, _, hsplit, hrun⟩
  have hknown : ∀ t, Passes (step setup) (start clock db) events t → Known t :=
    keeps (P := Known) (fun _ _ _ hknown hstep => known_step hknown hstep) known_start
  constructor
  · intro done e rest t u v hsplit hrun hstep hlater x hx hsevers hbefore
    have hout := outgrown_of_severs (hknown t (hpasses hsplit hrun)) hstep hsevers
    have hout := keeps (P := Outgrown x.token.subject u.steps)
      (fun _ _ _ hout hstep => outgrown_step hout hstep) hout v hlater
    exact refused_of_outgrown hout hx rfl hbefore
  · intro done rest t v _ _ hlater k hrevoked
    have hkept := keeps (P := fun v => Revoked k v ∧ v.exchanged.count k = t.exchanged.count k)
      (fun _ _ _ hkept hstep => ⟨(revoked_step hkept.1 hstep).1, (revoked_step hkept.1 hstep).2.trans hkept.2⟩)
      ⟨hrevoked, rfl⟩ v hlater
    exact hkept.2
  · intro t hpassed x hx word hword
    have hscoped := keeps (P := Scoped) (fun _ _ _ hscoped hstep => scoped_step hscoped hstep) scoped_start
      t hpassed
    have hempty : plain [] = true := by decide +kernel
    have hall : ∀ k, plain (t.granted k) = true :=
      keeps_of_safe (P := fun t => ∀ k, plain (t.granted k) = true) (fun _ _ _ hall he hstep => plain_step hall he hstep)
        (fun _ => hempty) hplain t hpassed
    obtain ⟨row, hfound, hallowed⟩ := hscoped.signed x hx
    rw [hscoped.stored _ row hfound] at hallowed
    exact allowed_within_iff.mpr (hall x.credentialID) _ hallowed word hword

section Example

def smallSetup : Setup := ⟨600000, 30000, trimmed, fun hash secret => hash = secret⟩

def smallClock : Instant := .second

def smallDb : Db := { tenants := .single ⟨"acme", .active⟩ }

/-- What a request selects that presents the credential. -/
def smallClient (scopes : String) : ServiceAccountClient :=
  { credentialID := "sac_1", principalID := "robot", tenantID := "acme", loginName := "builds"
    secretHash := "secret", scopes, credentialExpiresAt := 0, credentialRevokedAt := 0
    accountExpiresAt := 0, tokenVersion := 1, accountStatus := .active, principalStatus := .active
    memberStatus := .active, tenantStatus := .active }

/-- A credential is created and exchanged for a token with one scope, and is then revoked. -/
def smallRun (scopes : List String) : List Event :=
  [.createServiceAccount "acme" "builds" "" "" none "robot",
    .createCredential "acme" "robot" "builds" scopes none "sac_1" "secret",
    .selectClient "sac_1" "secret" "read",
    .check 2 (smallClient (join scopes)) "secret" "read",
    .sign 2 (smallClient (join scopes)) 1000 "read",
    .updateUse "sac_1" 1000 (issueSubjectToken smallSetup smallClock (smallClient (join scopes)) "read"),
    .revokeCredential "acme" "robot" "sac_1"]

theorem revocation_final_small : Final smallSetup smallClock smallDb (smallRun ["read", "write"]) := by
  refine revocation_final _ _ _ _ fun t e u htakes => ?_
  have hall : allSafe (step smallSetup) (fun _ e => decide (Plain e)) (start smallClock smallDb)
      (smallRun ["read", "write"]) = true := by decide +kernel
  exact of_decide_eq_true (safe_of_allSafe hall t e u htakes)

/-- The only scope of the credential has a comma in it. -/
theorem scope_with_comma_exceeded : ¬ Final smallSetup smallClock smallDb (smallRun ["read,write"]) := by
  intro hfinal
  have hrun : (run (step smallSetup) (start smallClock smallDb) (smallRun ["read,write"])).map (fun t =>
      t.signed.any fun x => (fields x.token.scope).any fun word =>
        !(t.granted x.credentialID).contains word) = some true := by
    decide
  obtain ⟨t, ht, hexceeds⟩ := Option.map_eq_some_iff.mp hrun
  obtain ⟨x, hx, hwords⟩ := List.any_eq_true.mp hexceeds
  obtain ⟨word, hword, habsent⟩ := List.any_eq_true.mp hwords
  have hgranted := hfinal.within t ⟨_, [], (List.append_nil _).symm, ht⟩ x hx word hword
  rw [List.contains_iff_mem.mpr hgranted] at habsent
  cases habsent

end Example

end ServiceAccounts
