import ChaosPlus.ScopeWords
import ChaosPlus.SessionLifetime

/-!
# The OAuth service

Authorization codes, refresh tokens and the clients they belong to. A request reads, checks,
signs and writes in separate steps, and the steps of others come between any two of them;
`Request` is a request between two of its steps. Transactions are atomic. The outcome of the
random draws, and who the caller of `Authorize` is, come with the events.
-/
namespace OAuthService

open GoText (trimmed)
open KeyedTable MfaService ScopeWords
open PolicyStore (Millis PrincipalStatus RecordStatus)

/-! ## Tables -/

/-- The redirect URIs are stored as an encoded list. -/
structure ClientRow where
  id : String
  tenantID : String
  secretHash : String
  name : String
  redirectURIs : List String
  grantTypes : String
  scopes : String
  publicClient : Bool
  status : RecordStatus
  createdAt : Millis
  updatedAt : Millis
  deriving DecidableEq, Repr

structure CodeRow where
  codeHash : String
  clientID : String
  principalID : String
  redirectURI : String
  scope : String
  codeChallenge : String
  nonce : String
  authTime : Millis
  acr : Nat
  amr : String
  createdAt : Millis
  expiresAt : Millis
  consumedAt : Millis := 0
  deriving DecidableEq, Repr

structure RefreshRow where
  idHash : String
  familyID : String
  principalID : String
  clientID : String
  scope : String
  authTime : Millis
  acr : Nat
  amr : String
  createdAt : Millis
  expiresAt : Millis
  usedAt : Millis := 0
  revokedAt : Millis := 0
  deriving DecidableEq, Repr

structure ConsentRow where
  principalID : String
  clientID : String
  tenantID : String
  scope : String
  createdAt : Millis
  lastUsedAt : Millis
  deriving DecidableEq, Repr

structure MemberRow where
  tenantID : String
  userSubject : String
  status : RecordStatus
  deriving DecidableEq, Repr

/-- The credential version is zero where the principal has no credential. -/
structure PrincipalRow where
  id : String
  loginName : String
  email : String
  emailVerified : Bool
  status : PrincipalStatus
  activationRequired : Bool
  credentialVersion : Nat
  deriving DecidableEq, Repr

abbrev MemberTable := Table fun row : MemberRow => (row.tenantID, row.userSubject)

structure Db where
  principals : Table PrincipalRow.id := .empty
  members : MemberTable := .empty
  clients : Table ClientRow.id := .empty
  codes : Table CodeRow.codeHash := .empty
  refreshTokens : Table RefreshRow.idHash := .empty
  consents : Table (fun row : ConsentRow => (row.principalID, row.clientID)) := .empty

structure Setup where
  hashToken : String → String
  /-- The encoded SHA-256 sum of a verifier. -/
  s256 : String → String
  /-- The secret matches the hash. -/
  verifySecret : String → String → Bool
  /-- An absolute web address without a fragment. -/
  validRedirect : String → Bool

/-! ## Clients -/

section Clients

variable (setup : Setup) (db : Db) (now : Instant)

def allowedGrants : List String := ["authorization_code", "refresh_token", "client_credentials"]

def validScope (scope : String) : Bool :=
  trimmed scope ≠ "" && scope.toList.all fun c => !(" \t\r\n".toList.contains c)

def validateClient (tenantID name : String) (redirects grants scopes : List String) (isPublic : Bool) :
    Bool :=
  trimmed tenantID ≠ "" && trimmed name ≠ "" && name.utf8ByteSize ≤ 128 && !grants.isEmpty &&
    !scopes.isEmpty &&
    grants.all (fun grant => allowedGrants.contains grant && !(isPublic && grant = "client_credentials")) &&
    !(grants.contains "authorization_code" && redirects.isEmpty) &&
    redirects.all setup.validRedirect && scopes.all validScope

def joinGrants (grants : List String) : String := String.intercalate "," grants

/-- `id` is drawn at random; `secretHash` is the hash of a random secret, or empty where the
client is public. -/
def createClient (tenantID name : String) (redirects grants scopes : List String) (isPublic : Bool)
    (id secretHash : String) : Option Db :=
  if !validateClient setup tenantID name redirects grants scopes isPublic then none
  else
    (db.clients.insert?
      { id, tenantID, secretHash, name := trimmed name, redirectURIs := redirects
        grantTypes := joinGrants grants, scopes := join scopes, publicClient := isPublic
        status := .active, createdAt := now.millis, updatedAt := now.millis }).map fun clients =>
      { db with clients }

def isClientOf (tenantID id : String) (row : ClientRow) : Bool := row.tenantID = tenantID && row.id = id

def updatedClient (name : String) (redirects grants scopes : List String) (isPublic : Bool)
    (status : RecordStatus) (row : ClientRow) : ClientRow :=
  { row with
    name := trimmed name
    redirectURIs := redirects
    grantTypes := joinGrants grants
    scopes := join scopes
    publicClient := isPublic
    status
    updatedAt := now.millis }

def updateClient (tenantID id name : String) (redirects grants scopes : List String) (isPublic : Bool)
    (status : RecordStatus) : Option Db :=
  if !validateClient setup tenantID name redirects grants scopes isPublic ||
      !db.clients.rows.any (isClientOf tenantID id) then none
  else
    some { db with
      clients := db.clients.updateWhere (isClientOf tenantID id)
        (updatedClient now name redirects grants scopes isPublic status) fun _ => rfl }

def rotatedClient (secretHash : String) (row : ClientRow) : ClientRow :=
  { row with secretHash, publicClient := false, updatedAt := now.millis }

def rotateClientSecret (tenantID id secretHash : String) : Option Db :=
  if !db.clients.rows.any (isClientOf tenantID id) then none
  else
    some { db with
      clients := db.clients.updateWhere (isClientOf tenantID id) (rotatedClient now secretHash) fun _ => rfl }

/-- Revokes the selected tokens that are not revoked. -/
def revokeTokens (p : RefreshRow → Bool) (now : Millis) : Db :=
  { db with
    refreshTokens := db.refreshTokens.updateWhere (fun row => p row && row.revokedAt = 0)
      (fun row => { row with revokedAt := now }) fun _ => rfl }

/-- The tokens of the client are revoked before the client is looked for in its tenant. -/
def deleteClient (tenantID id : String) : Option Db :=
  if !db.clients.rows.any (isClientOf tenantID id) then none
  else
    let revoked := revokeTokens db (fun row => row.clientID = id) now.millis
    some { revoked with clients := db.clients.deleteWhere (isClientOf tenantID id) }

def activeClient (id : String) : Option ClientRow :=
  if id = "" then none else (db.clients.find? id).filter fun row => row.status = .active

/-- The client's identifier and secret are those of the form or of the header. -/
def authenticateClient (id secret : String) : Option ClientRow :=
  (activeClient db id).filter fun client =>
    if client.publicClient then secret = "" else setup.verifySecret client.secretHash secret

end Clients

/-! ## Requests -/

/-- Whom `Authenticate` found to call. -/
structure Subject where
  principalID : String
  authTime : Millis
  acr : Nat
  amr : List String
  deriving DecidableEq, Repr

structure AuthorizeParams where
  clientID : String
  redirectURI : String
  responseType : String
  scope : String
  challenge : String
  challengeMethod : String
  nonce : String
  prompt : String
  deriving DecidableEq, Repr

/-- How far an `Authorize` has come: its client is found, the caller is a member, the consent is
there or not needed, and it is recorded. -/
inductive AuthorizeStage where
  | admitted
  | member
  | consented
  | recorded
  deriving DecidableEq, Repr

structure CodeForm where
  code : String
  codeVerifier : String
  redirectURI : String
  deriving DecidableEq, Repr

structure Token where
  subject : String
  organizationID : String
  scope : String
  clientID : String
  credentialVersion : Nat
  authTime : Millis
  acr : Nat
  amr : String
  deriving DecidableEq, Repr

inductive Request where
  | authorize (stage : AuthorizeStage) (client : ClientRow) (subject : Subject) (params : AuthorizeParams)
  | code (client : ClientRow) (form : CodeForm)
  | codeSelected (client : ClientRow) (form : CodeForm) (row : CodeRow)
  | codeChecked (client : ClientRow) (form : CodeForm) (row : CodeRow) (now : Instant)
  | codeMember (client : ClientRow) (form : CodeForm) (row : CodeRow) (now : Instant)
  | codeMinted (client : ClientRow) (form : CodeForm) (row : CodeRow) (now : Instant) (token : Token)
      (refresh : Option RefreshRow)
  | refresh (client : ClientRow) (token : String)
  | refreshSelected (client : ClientRow) (row : RefreshRow)
  | reused (row : RefreshRow) (now : Instant)
  | refreshChecked (client : ClientRow) (row : RefreshRow) (now : Instant)
  | refreshMember (client : ClientRow) (row : RefreshRow) (now : Instant)
  | refreshMinted (client : ClientRow) (row : RefreshRow) (now : Instant) (token : Token)
      (next : RefreshRow)
  | revoke (client : ClientRow) (token : String) (now : Instant)
  | revokeFamily (familyID : String) (now : Instant)
  deriving DecidableEq

/-- What a token response was given for, with the parameters of the request. -/
inductive Source where
  | code (codeHash : String) (form : CodeForm)
  | refresh (idHash : String)
  deriving DecidableEq, Repr

structure Response where
  source : Source
  clientID : String
  token : Token
  refreshHash : Option String
  deriving DecidableEq, Repr

/-- The codes that were issued, the families that were started, the families of which a used or
revoked token was presented by its client, up to the return of that call, and the successful
token responses are history. -/
structure Server where
  clock : Instant
  db : Db
  requests : List Request
  issued : List CodeRow
  families : List String
  refused : List String
  responses : List Response

def start (clock : Instant) (db : Db) : Server :=
  ⟨clock, { db with codes := .empty, refreshTokens := .empty }, [], [], [], [], []⟩

/-- What a step draws at random. -/
structure Draw where
  code : String := ""
  token : String := ""
  familyID : String := ""
  deriving DecidableEq, Repr

def codeTTL : Millis := 5 * 60 * 1000

def refreshTTL : Millis := 30 * 24 * 60 * 60 * 1000

section Requests

variable (setup : Setup) (s : Server)

def admits (client : ClientRow) (params : AuthorizeParams) : Bool :=
  containsWord client.grantTypes "authorization_code" && client.redirectURIs.contains params.redirectURI &&
    allowedScopes client.scopes params.scope

def validParams (params : AuthorizeParams) : Bool :=
  params.responseType = "code" && params.challengeMethod = "S256" &&
    43 ≤ params.challenge.utf8ByteSize && params.challenge.utf8ByteSize ≤ 128

def activeMember (db : Db) (tenantID principalID : String) : Bool :=
  db.members.rows.countP (fun row =>
    row.tenantID = tenantID && row.userSubject = principalID && row.status = .active) = 1

def containsAllWords (granted required : String) : Bool := allowedScopes granted required

def hasConsent (client : ClientRow) (principalID scope : String) : Bool :=
  (s.db.consents.find? (principalID, client.id)).any fun row => containsAllWords row.scope scope

def recordConsent (client : ClientRow) (principalID scope : String) : Db :=
  let row : ConsentRow :=
    { principalID, clientID := client.id, tenantID := client.tenantID, scope := normalizeWords scope
      createdAt := s.clock.millis, lastUsedAt := s.clock.millis }
  let row := match s.db.consents.find? (principalID, client.id) with
    | none => row
    | some old => { old with scope := row.scope, lastUsedAt := row.lastUsedAt }
  { s.db with consents := s.db.consents.put row }

def joinMethods (amr : List String) : String := join amr

def newCode (client : ClientRow) (subject : Subject) (params : AuthorizeParams) (code : String) : CodeRow where
  codeHash := setup.hashToken code
  clientID := client.id
  principalID := subject.principalID
  redirectURI := params.redirectURI
  scope := normalizeWords params.scope
  codeChallenge := params.challenge
  nonce := params.nonce
  authTime := subject.authTime
  acr := subject.acr
  amr := joinMethods subject.amr
  createdAt := s.clock.millis
  expiresAt := s.clock.millis + codeTTL

def verifyPKCE (challenge verifier : String) : Bool := setup.s256 verifier = challenge

def redeems (form : CodeForm) (row : CodeRow) : Bool :=
  row.consumedAt = 0 && s.clock.millis < row.expiresAt && row.redirectURI = form.redirectURI &&
    verifyPKCE setup row.codeChallenge form.codeVerifier

/-- `claims`: the principal is active and needs no activation. -/
def claims (principalID : String) : Option PrincipalRow :=
  (s.db.principals.find? principalID).filter fun row => row.status = .active && !row.activationRequired

def issueAccessToken (principal : PrincipalRow) (client : ClientRow) (scope : String) (authTime : Millis)
    (acr : Nat) (amr : String) : Token where
  subject := principal.id
  organizationID := client.tenantID
  scope
  clientID := client.id
  credentialVersion := principal.credentialVersion
  authTime
  acr
  amr

def makeRefresh (principalID clientID scope familyID : String) (authTime : Millis) (acr : Nat) (amr : String)
    (token : String) : RefreshRow where
  idHash := setup.hashToken token
  familyID
  principalID
  clientID
  scope
  authTime
  acr
  amr
  createdAt := s.clock.millis
  expiresAt := s.clock.millis + refreshTTL

def isOpenCode (codeHash : String) (row : CodeRow) : Bool := row.codeHash = codeHash && row.consumedAt = 0

def consumeCode (row : CodeRow) (now : Instant) (refresh : Option RefreshRow) : Option Db :=
  if s.db.codes.rows.countP (isOpenCode row.codeHash) ≠ 1 then none
  else
    let codes := s.db.codes.updateWhere (isOpenCode row.codeHash)
      (fun other => { other with consumedAt := now.millis }) fun _ => rfl
    match refresh with
    | none => some { s.db with codes }
    | some refresh =>
      (s.db.refreshTokens.insert? refresh).map fun refreshTokens => { s.db with codes, refreshTokens }

def isOpenToken (idHash : String) (row : RefreshRow) : Bool :=
  row.idHash = idHash && row.usedAt = 0 && row.revokedAt = 0

def rotate (row : RefreshRow) (now : Instant) (next : RefreshRow) : Option Db :=
  if s.db.refreshTokens.rows.countP (isOpenToken row.idHash) ≠ 1 then none
  else
    ((s.db.refreshTokens.updateWhere (isOpenToken row.idHash) (fun other => { other with usedAt := now.millis })
      fun _ => rfl).insert? next).map fun refreshTokens => { s.db with refreshTokens }

/-- The next step of the request, which has left the requests in flight; a request that fails
does not come back. A random family is one that was not drawn before. -/
def advance (draw : Draw) : Request → Option Server
  | .authorize .admitted client subject params =>
    if activeMember s.db client.tenantID subject.principalID then
      some { s with requests := .authorize .member client subject params :: s.requests }
    else some s
  | .authorize .member client subject params =>
    if hasConsent s client subject.principalID params.scope ||
        params.prompt ≠ "none" && params.prompt ≠ "consent" then
      some { s with requests := .authorize .consented client subject params :: s.requests }
    else some s
  | .authorize .consented client subject params =>
    some { s with
      db := recordConsent s client subject.principalID params.scope
      requests := .authorize .recorded client subject params :: s.requests }
  | .authorize .recorded client subject params =>
    let row := newCode setup s client subject params draw.code
    match s.db.codes.insert? row with
    | none => some s
    | some codes => some { s with db := { s.db with codes }, issued := row :: s.issued }
  | .code client form =>
    match (s.db.codes.find? (setup.hashToken form.code)).filter fun row => row.clientID = client.id with
    | none => some s
    | some row => some { s with requests := .codeSelected client form row :: s.requests }
  | .codeSelected client form row =>
    if redeems setup s form row then
      some { s with requests := .codeChecked client form row s.clock :: s.requests }
    else some s
  | .codeChecked client form row now =>
    if activeMember s.db client.tenantID row.principalID then
      some { s with requests := .codeMember client form row now :: s.requests }
    else some s
  | .codeMember client form row now =>
    match claims s row.principalID with
    | none => some s
    | some principal =>
      let token := issueAccessToken principal client row.scope row.authTime row.acr row.amr
      if !containsWord client.grantTypes "refresh_token" then
        some { s with requests := .codeMinted client form row now token none :: s.requests }
      else if draw.familyID ∈ s.families then none
      else
        let refresh := makeRefresh setup s row.principalID client.id row.scope draw.familyID row.authTime row.acr
          row.amr draw.token
        some { s with
          families := draw.familyID :: s.families
          requests := .codeMinted client form row now token (some refresh) :: s.requests }
  | .codeMinted client form row now token refresh =>
    match consumeCode s row now refresh with
    | none => some s
    | some db =>
      some { s with
        db
        responses := ⟨.code row.codeHash form, client.id, token, refresh.map RefreshRow.idHash⟩ :: s.responses }
  | .refresh client token =>
    match (s.db.refreshTokens.find? (setup.hashToken token)).filter fun row => row.clientID = client.id with
    | none => some s
    | some row => some { s with requests := .refreshSelected client row :: s.requests }
  | .refreshSelected client row =>
    if row.usedAt ≠ 0 || row.revokedAt ≠ 0 then
      some { s with requests := .reused row s.clock :: s.requests }
    else if row.expiresAt ≤ s.clock.millis then some s
    else some { s with requests := .refreshChecked client row s.clock :: s.requests }
  | .reused row now =>
    some { s with
      db := revokeTokens s.db (fun other => other.familyID = row.familyID) now.millis
      refused := row.familyID :: s.refused }
  | .refreshChecked client row now =>
    if activeMember s.db client.tenantID row.principalID then
      some { s with requests := .refreshMember client row now :: s.requests }
    else some s
  | .refreshMember client row now =>
    match claims s row.principalID with
    | none => some s
    | some principal =>
      let next := makeRefresh setup s row.principalID client.id row.scope row.familyID row.authTime row.acr
        row.amr draw.token
      let token := issueAccessToken principal client row.scope row.authTime row.acr row.amr
      some { s with requests := .refreshMinted client row now token next :: s.requests }
  | .refreshMinted client row now token next =>
    match rotate s row now next with
    | none => some s
    | some db =>
      some { s with
        db
        responses := ⟨.refresh row.idHash, client.id, token, some next.idHash⟩ :: s.responses }
  | .revoke client token now =>
    match (s.db.refreshTokens.find? (setup.hashToken token)).filter fun row => row.clientID = client.id with
    | none => some s
    | some row => some { s with requests := .revokeFamily row.familyID now :: s.requests }
  | .revokeFamily familyID now =>
    some { s with db := revokeTokens s.db (fun other => other.familyID = familyID) now.millis }

end Requests

/-- Members and principals are written by others; `revokePrincipal` is what `LogoutAll` and the
other ends of a principal's logins do to its tokens. The three calls of a client authenticate
it. -/
inductive Event where
  | passes (elapsed : Nat)
  | others (principals : Table PrincipalRow.id) (members : MemberTable)
  | createClient (tenantID name : String) (redirects grants scopes : List String) (isPublic : Bool)
      (id secretHash : String)
  | updateClient (tenantID id name : String) (redirects grants scopes : List String) (isPublic : Bool)
      (status : RecordStatus)
  | rotateClientSecret (tenantID id secretHash : String)
  | deleteClient (tenantID id : String)
  | revokePrincipal (principalID : String)
  | authorize (subject : Subject) (params : AuthorizeParams)
  | authorizationCode (clientID secret : String) (form : CodeForm)
  | refresh (clientID secret token : String)
  | revoke (clientID secret token : String)
  | next (request : Request) (draw : Draw)
  | drop (request : Request)

section Step

variable (setup : Setup) (s : Server)

def accept (request : Option Request) : Option Server :=
  match request with
  | none => some s
  | some request => some { s with requests := request :: s.requests }

def write (outcome : Option Db) : Option Server :=
  match outcome with
  | none => some s
  | some db => some { s with db }

def step : Event → Option Server
  | .passes elapsed => some { s with clock := SessionLifetime.Instant.later s.clock elapsed }
  | .others principals members => some { s with db := { s.db with principals, members } }
  | .createClient tenantID name redirects grants scopes isPublic id secretHash =>
    write s (createClient setup s.db s.clock tenantID name redirects grants scopes isPublic id secretHash)
  | .updateClient tenantID id name redirects grants scopes isPublic status =>
    write s (updateClient setup s.db s.clock tenantID id name redirects grants scopes isPublic status)
  | .rotateClientSecret tenantID id secretHash =>
    write s (rotateClientSecret s.db s.clock tenantID id secretHash)
  | .deleteClient tenantID id => write s (deleteClient s.db s.clock tenantID id)
  | .revokePrincipal principalID =>
    some { s with db := revokeTokens s.db (fun row => row.principalID = principalID) s.clock.millis }
  | .authorize subject params =>
    if !validParams params then some s
    else
      accept s (((activeClient s.db params.clientID).filter fun client => admits client params).map fun client =>
        .authorize .admitted client subject params)
  | .authorizationCode clientID secret form =>
    if form.code = "" || form.codeVerifier = "" then some s
    else accept s ((authenticateClient setup s.db clientID secret).map fun client => .code client form)
  | .refresh clientID secret token =>
    if token = "" then some s
    else
      accept s (((authenticateClient setup s.db clientID secret).filter fun client =>
        containsWord client.grantTypes "refresh_token").map fun client => .refresh client token)
  | .revoke clientID secret token =>
    if token = "" then some s
    else
      accept s ((authenticateClient setup s.db clientID secret).map fun client => .revoke client token s.clock)
  | .next request draw =>
    if request ∈ s.requests then
      advance setup { s with requests := s.requests.erase request } draw request
    else none
  | .drop request =>
    if request ∈ s.requests then some { s with requests := s.requests.erase request } else none

end Step

/-! ## What a step does -/

/-- The steps of a request that only read. -/
inductive Goes (setup : Setup) (s : Server) : Request → Request → Prop where
  | member {client : ClientRow} {subject : Subject} {params : AuthorizeParams}
      (hactive : activeMember s.db client.tenantID subject.principalID = true) :
      Goes setup s (.authorize .admitted client subject params) (.authorize .member client subject params)
  | consented {client : ClientRow} {subject : Subject} {params : AuthorizeParams} :
      Goes setup s (.authorize .member client subject params) (.authorize .consented client subject params)
  | codeSelected {client : ClientRow} {form : CodeForm} {row : CodeRow}
      (hfound : s.db.codes.find? (setup.hashToken form.code) = some row) (hclient : row.clientID = client.id) :
      Goes setup s (.code client form) (.codeSelected client form row)
  | codeChecked {client : ClientRow} {form : CodeForm} {row : CodeRow}
      (hredeems : redeems setup s form row = true) :
      Goes setup s (.codeSelected client form row) (.codeChecked client form row s.clock)
  | codeMember {client : ClientRow} {form : CodeForm} {row : CodeRow} {now : Instant}
      (hactive : activeMember s.db client.tenantID row.principalID = true) :
      Goes setup s (.codeChecked client form row now) (.codeMember client form row now)
  | codeMinted {client : ClientRow} {form : CodeForm} {row : CodeRow} {now : Instant}
      (principal : PrincipalRow) :
      Goes setup s (.codeMember client form row now) (.codeMinted client form row now
        (issueAccessToken principal client row.scope row.authTime row.acr row.amr) none)
  | refreshSelected {client : ClientRow} {token : String} {row : RefreshRow}
      (hfound : s.db.refreshTokens.find? (setup.hashToken token) = some row)
      (hclient : row.clientID = client.id) :
      Goes setup s (.refresh client token) (.refreshSelected client row)
  | reused {client : ClientRow} {row : RefreshRow} (hspent : row.usedAt ≠ 0 ∨ row.revokedAt ≠ 0) :
      Goes setup s (.refreshSelected client row) (.reused row s.clock)
  | refreshChecked {client : ClientRow} {row : RefreshRow} (hopen : row.usedAt = 0 ∧ row.revokedAt = 0)
      (hunexpired : s.clock.millis < row.expiresAt) :
      Goes setup s (.refreshSelected client row) (.refreshChecked client row s.clock)
  | refreshMember {client : ClientRow} {row : RefreshRow} {now : Instant}
      (hactive : activeMember s.db client.tenantID row.principalID = true) :
      Goes setup s (.refreshChecked client row now) (.refreshMember client row now)
  | refreshMinted {client : ClientRow} {row : RefreshRow} {now : Instant} (principal : PrincipalRow)
      (token : String) :
      Goes setup s (.refreshMember client row now) (.refreshMinted client row now
        (issueAccessToken principal client row.scope row.authTime row.acr row.amr)
        (makeRefresh setup s row.principalID client.id row.scope row.familyID row.authTime row.acr row.amr token))
  | revokeFamily {client : ClientRow} {token : String} {now : Instant} {row : RefreshRow}
      (hfound : s.db.refreshTokens.find? (setup.hashToken token) = some row) :
      Goes setup s (.revoke client token now) (.revokeFamily row.familyID now)

/-- The requests that a call of a client starts with. -/
inductive Enters (db : Db) : Request → Prop where
  | authorize {client : ClientRow} {subject : Subject} {params : AuthorizeParams}
      (hclient : db.clients.find? client.id = some client) (hadmits : admits client params = true) :
      Enters db (.authorize .admitted client subject params)
  | code {client : ClientRow} (form : CodeForm) (hclient : db.clients.find? client.id = some client) :
      Enters db (.code client form)
  | refresh {client : ClientRow} (token : String) (hclient : db.clients.find? client.id = some client) :
      Enters db (.refresh client token)
  | revoke {client : ClientRow} (token : String) (now : Instant) : Enters db (.revoke client token now)

inductive Does (setup : Setup) (s : Server) : Event → Server → Prop where
  | stays (e : Event) : Does setup s e s
  | passes (elapsed : Nat) :
      Does setup s (.passes elapsed) { s with clock := SessionLifetime.Instant.later s.clock elapsed }
  | others (principals : Table PrincipalRow.id) (members : MemberTable) :
      Does setup s (.others principals members) { s with db := { s.db with principals, members } }
  | creates {tenantID name : String} {redirects grants scopes : List String} {isPublic : Bool}
      {id secretHash : String} {row : ClientRow} {clients : Table ClientRow.id}
      (hvalid : validateClient setup tenantID name redirects grants scopes isPublic = true)
      (hid : row.id = id) (hscopes : row.scopes = join scopes)
      (hinsert : s.db.clients.insert? row = some clients) :
      Does setup s (.createClient tenantID name redirects grants scopes isPublic id secretHash)
        { s with db := { s.db with clients } }
  | updates {tenantID id name : String} {redirects grants scopes : List String} {isPublic : Bool}
      {status : RecordStatus} (hvalid : validateClient setup tenantID name redirects grants scopes isPublic = true) :
      Does setup s (.updateClient tenantID id name redirects grants scopes isPublic status)
        { s with db := { s.db with
          clients := s.db.clients.updateWhere (isClientOf tenantID id)
            (updatedClient s.clock name redirects grants scopes isPublic status) fun _ => rfl } }
  | rotatesSecret {tenantID id secretHash : String} :
      Does setup s (.rotateClientSecret tenantID id secretHash)
        { s with db := { s.db with
          clients := s.db.clients.updateWhere (isClientOf tenantID id) (rotatedClient s.clock secretHash)
            fun _ => rfl } }
  | deletes {tenantID id : String} :
      Does setup s (.deleteClient tenantID id)
        { s with db := { revokeTokens s.db (fun row => row.clientID = id) s.clock.millis with
          clients := s.db.clients.deleteWhere (isClientOf tenantID id) } }
  | revokesPrincipal {principalID : String} :
      Does setup s (.revokePrincipal principalID)
        { s with db := revokeTokens s.db (fun row => row.principalID = principalID) s.clock.millis }
  | enters {e : Event} {request : Request} (henters : Enters s.db request) :
      Does setup s e { s with requests := request :: s.requests }
  | ends {e : Event} {request : Request} (hmem : request ∈ s.requests) :
      Does setup s e { s with requests := s.requests.erase request }
  | goes {draw : Draw} {request ahead : Request} (hmem : request ∈ s.requests)
      (hgoes : Goes setup s request ahead) :
      Does setup s (.next request draw) { s with requests := ahead :: s.requests.erase request }
  | consents {draw : Draw} {client : ClientRow} {subject : Subject} {params : AuthorizeParams}
      (hmem : .authorize .consented client subject params ∈ s.requests) :
      Does setup s (.next (.authorize .consented client subject params) draw)
        { s with
          db := recordConsent s client subject.principalID params.scope
          requests := .authorize .recorded client subject params ::
            s.requests.erase (.authorize .consented client subject params) }
  | issues {draw : Draw} {client : ClientRow} {subject : Subject} {params : AuthorizeParams}
      {codes : Table CodeRow.codeHash} (hmem : .authorize .recorded client subject params ∈ s.requests)
      (hinsert : s.db.codes.insert? (newCode setup s client subject params draw.code) = some codes) :
      Does setup s (.next (.authorize .recorded client subject params) draw)
        { s with
          db := { s.db with codes }
          issued := newCode setup s client subject params draw.code :: s.issued
          requests := s.requests.erase (.authorize .recorded client subject params) }
  | startsFamily {draw : Draw} {client : ClientRow} {form : CodeForm} {row : CodeRow} {now : Instant}
      (principal : PrincipalRow) (hmem : .codeMember client form row now ∈ s.requests)
      (hfresh : draw.familyID ∉ s.families) :
      Does setup s (.next (.codeMember client form row now) draw)
        { s with
          families := draw.familyID :: s.families
          requests := .codeMinted client form row now
            (issueAccessToken principal client row.scope row.authTime row.acr row.amr)
            (some (makeRefresh setup s row.principalID client.id row.scope draw.familyID row.authTime row.acr
              row.amr draw.token)) :: s.requests.erase (.codeMember client form row now) }
  | consumes {draw : Draw} {client : ClientRow} {form : CodeForm} {row : CodeRow} {now : Instant}
      {token : Token} {refresh : Option RefreshRow} {db : Db}
      (hmem : .codeMinted client form row now token refresh ∈ s.requests)
      (hconsume : consumeCode s row now refresh = some db) :
      Does setup s (.next (.codeMinted client form row now token refresh) draw)
        { s with
          db
          requests := s.requests.erase (.codeMinted client form row now token refresh)
          responses :=
            ⟨.code row.codeHash form, client.id, token, refresh.map RefreshRow.idHash⟩ :: s.responses }
  | refuses {draw : Draw} {row : RefreshRow} {now : Instant} (hmem : .reused row now ∈ s.requests) :
      Does setup s (.next (.reused row now) draw)
        { s with
          db := revokeTokens s.db (fun other => other.familyID = row.familyID) now.millis
          requests := s.requests.erase (.reused row now)
          refused := row.familyID :: s.refused }
  | rotates {draw : Draw} {client : ClientRow} {row next : RefreshRow} {now : Instant} {token : Token} {db : Db}
      (hmem : .refreshMinted client row now token next ∈ s.requests)
      (hrotate : rotate s row now next = some db) :
      Does setup s (.next (.refreshMinted client row now token next) draw)
        { s with
          db
          requests := s.requests.erase (.refreshMinted client row now token next)
          responses := ⟨.refresh row.idHash, client.id, token, some next.idHash⟩ :: s.responses }
  | revokesFamily {draw : Draw} {familyID : String} {now : Instant}
      (hmem : .revokeFamily familyID now ∈ s.requests) :
      Does setup s (.next (.revokeFamily familyID now) draw)
        { s with
          db := revokeTokens s.db (fun other => other.familyID = familyID) now.millis
          requests := s.requests.erase (.revokeFamily familyID now) }

section Inversion

variable {setup : Setup} {s t : Server} {e : Event}

theorem activeClient_eq_some {db : Db} {id : String} {client : ClientRow}
    (h : activeClient db id = some client) :
    db.clients.find? client.id = some client := by
  unfold activeClient at h
  split_ifs at h
  have hfound := (Option.filter_eq_some_iff.mp h).1
  rw [(Table.find?_eq_some.mp hfound).2]
  exact hfound

theorem authenticateClient_eq_some {db : Db} {id secret : String} {client : ClientRow}
    (h : authenticateClient setup db id secret = some client) : db.clients.find? client.id = some client :=
  activeClient_eq_some (Option.filter_eq_some_iff.mp h).1

theorem does_of_accept {request : Option Request} (hrequest : ∀ r, request = some r → Enters s.db r)
    (h : accept s request = some t) : Does setup s e t := by
  cases request with
  | none =>
    obtain rfl := Option.some.inj h
    exact .stays e
  | some r =>
    obtain rfl := Option.some.inj h
    exact .enters (hrequest r rfl)

theorem does_of_advance {request : Request} {draw : Draw} (hmem : request ∈ s.requests)
    (h : advance setup { s with requests := s.requests.erase request } draw request = some t) :
    Does setup s (.next request draw) t := by
  cases request with
  | authorize stage client subject params =>
    cases stage with
    | admitted =>
      simp only [advance] at h
      split at h
      next hactive =>
        obtain rfl := Option.some.inj h
        exact .goes hmem (.member hactive)
      · obtain rfl := Option.some.inj h
        exact .ends hmem
    | member =>
      simp only [advance] at h
      split at h
      · obtain rfl := Option.some.inj h
        exact .goes hmem .consented
      · obtain rfl := Option.some.inj h
        exact .ends hmem
    | consented =>
      obtain rfl := Option.some.inj h
      exact .consents hmem
    | recorded =>
      simp only [advance] at h
      split at h
      · obtain rfl := Option.some.inj h
        exact .ends hmem
      next hinsert =>
        obtain rfl := Option.some.inj h
        exact .issues hmem hinsert
  | code client form =>
    simp only [advance] at h
    split at h
    · obtain rfl := Option.some.inj h
      exact .ends hmem
    next row hrow =>
      obtain rfl := Option.some.inj h
      obtain ⟨hfound, hclient⟩ := Option.filter_eq_some_iff.mp hrow
      exact .goes hmem (.codeSelected hfound (of_decide_eq_true hclient))
  | codeSelected client form row =>
    simp only [advance] at h
    split at h
    next hredeems =>
      obtain rfl := Option.some.inj h
      exact .goes hmem (.codeChecked hredeems)
    · obtain rfl := Option.some.inj h
      exact .ends hmem
  | codeChecked client form row now =>
    simp only [advance] at h
    split at h
    next hactive =>
      obtain rfl := Option.some.inj h
      exact .goes hmem (.codeMember hactive)
    · obtain rfl := Option.some.inj h
      exact .ends hmem
  | codeMember client form row now =>
    simp only [advance] at h
    split at h
    · obtain rfl := Option.some.inj h
      exact .ends hmem
    next principal _ =>
      split at h
      · obtain rfl := Option.some.inj h
        exact .goes hmem (.codeMinted principal)
      split at h
      · cases h
      next hfresh =>
        obtain rfl := Option.some.inj h
        exact .startsFamily principal hmem hfresh
  | codeMinted client form row now token refresh =>
    simp only [advance] at h
    split at h
    · obtain rfl := Option.some.inj h
      exact .ends hmem
    next hconsume =>
      obtain rfl := Option.some.inj h
      exact .consumes hmem hconsume
  | refresh client token =>
    simp only [advance] at h
    split at h
    · obtain rfl := Option.some.inj h
      exact .ends hmem
    next row hrow =>
      obtain rfl := Option.some.inj h
      obtain ⟨hfound, hclient⟩ := Option.filter_eq_some_iff.mp hrow
      exact .goes hmem (.refreshSelected hfound (of_decide_eq_true hclient))
  | refreshSelected client row =>
    simp only [advance] at h
    split at h
    next hspent =>
      obtain rfl := Option.some.inj h
      exact .goes hmem (.reused (by simpa using hspent))
    next hopen =>
      split at h
      · obtain rfl := Option.some.inj h
        exact .ends hmem
      next hunexpired =>
        obtain rfl := Option.some.inj h
        exact .goes hmem (.refreshChecked (by simpa using hopen) (not_le.mp hunexpired))
  | reused row now =>
    obtain rfl := Option.some.inj h
    exact .refuses hmem
  | refreshChecked client row now =>
    simp only [advance] at h
    split at h
    next hactive =>
      obtain rfl := Option.some.inj h
      exact .goes hmem (.refreshMember hactive)
    · obtain rfl := Option.some.inj h
      exact .ends hmem
  | refreshMember client row now =>
    simp only [advance] at h
    split at h
    · obtain rfl := Option.some.inj h
      exact .ends hmem
    next principal _ =>
      obtain rfl := Option.some.inj h
      exact .goes hmem (.refreshMinted principal draw.token)
  | refreshMinted client row now token next =>
    simp only [advance] at h
    split at h
    · obtain rfl := Option.some.inj h
      exact .ends hmem
    next hrotate =>
      obtain rfl := Option.some.inj h
      exact .rotates hmem hrotate
  | revoke client token now =>
    simp only [advance] at h
    split at h
    · obtain rfl := Option.some.inj h
      exact .ends hmem
    next row hrow =>
      obtain rfl := Option.some.inj h
      exact .goes hmem (.revokeFamily (Option.filter_eq_some_iff.mp hrow).1)
  | revokeFamily familyID now =>
    obtain rfl := Option.some.inj h
    exact .revokesFamily hmem

theorem does_of_step (h : step setup s e = some t) : Does setup s e t := by
  cases e with
  | passes elapsed =>
    obtain rfl := Option.some.inj h
    exact .passes elapsed
  | others principals members =>
    obtain rfl := Option.some.inj h
    exact .others principals members
  | createClient =>
    simp only [step, createClient, write] at h
    split_ifs at h with hvalid
    · obtain rfl := Option.some.inj h
      exact .stays _
    split at h
    · obtain rfl := Option.some.inj h
      exact .stays _
    next hcreate =>
      obtain rfl := Option.some.inj h
      obtain ⟨clients, hinsert, rfl⟩ := Option.map_eq_some_iff.mp hcreate
      exact .creates (by simpa using hvalid) rfl rfl hinsert
  | updateClient =>
    simp only [step, updateClient, write] at h
    split_ifs at h with hvalid <;> obtain rfl := Option.some.inj h
    · exact .stays _
    · exact .updates (by simp_all)
  | rotateClientSecret =>
    simp only [step, rotateClientSecret, write] at h
    split_ifs at h <;> obtain rfl := Option.some.inj h
    · exact .stays _
    · exact .rotatesSecret
  | deleteClient =>
    simp only [step, deleteClient, write] at h
    split_ifs at h <;> obtain rfl := Option.some.inj h
    · exact .stays _
    · exact .deletes
  | revokePrincipal principalID =>
    obtain rfl := Option.some.inj h
    exact .revokesPrincipal
  | authorize subject params =>
    simp only [step] at h
    split at h
    · obtain rfl := Option.some.inj h
      exact .stays _
    refine does_of_accept (fun r hr => ?_) h
    obtain ⟨client, hclient, rfl⟩ := Option.map_eq_some_iff.mp hr
    obtain ⟨hactive, hadmits⟩ := Option.filter_eq_some_iff.mp hclient
    exact .authorize (activeClient_eq_some hactive) hadmits
  | authorizationCode clientID secret form =>
    simp only [step] at h
    split at h
    · obtain rfl := Option.some.inj h
      exact .stays _
    refine does_of_accept (fun r hr => ?_) h
    obtain ⟨client, hclient, rfl⟩ := Option.map_eq_some_iff.mp hr
    exact .code form (authenticateClient_eq_some hclient)
  | refresh clientID secret token =>
    simp only [step] at h
    split at h
    · obtain rfl := Option.some.inj h
      exact .stays _
    refine does_of_accept (fun r hr => ?_) h
    obtain ⟨client, hclient, rfl⟩ := Option.map_eq_some_iff.mp hr
    exact .refresh token (authenticateClient_eq_some (Option.filter_eq_some_iff.mp hclient).1)
  | revoke clientID secret token =>
    simp only [step] at h
    split at h
    · obtain rfl := Option.some.inj h
      exact .stays _
    refine does_of_accept (fun r hr => ?_) h
    obtain ⟨client, -, rfl⟩ := Option.map_eq_some_iff.mp hr
    exact .revoke token s.clock
  | next request draw =>
    simp only [step] at h
    split at h
    next hmem => exact does_of_advance hmem h
    · cases h
  | drop request =>
    simp only [step] at h
    split at h
    next hmem =>
      obtain rfl := Option.some.inj h
      exact .ends hmem
    · cases h

end Inversion

/-! ## A small installation -/

/-- The events of a run that is given by calls and by draws; a draw is the next step of the
request that came into flight last. -/
def schedule (setup : Setup) : Server → List (Event ⊕ Draw) → List Event
  | _, [] => []
  | s, .inl e :: rest =>
    e :: (match step setup s e with
      | none => []
      | some t => schedule setup t rest)
  | s, .inr draw :: rest =>
    match s.requests with
    | [] => schedule setup s rest
    | request :: _ =>
      .next request draw :: (match step setup s (.next request draw) with
        | none => []
        | some t => schedule setup t rest)

def smallSetup : Setup := ⟨id, id, fun hash secret => hash = secret, fun _ => true⟩

def smallClock : Instant := .second

def smallClient (id : String) (scopes : String) : ClientRow :=
  { id, tenantID := "acme", secretHash := "", name := id, redirectURIs := ["https://app"]
    grantTypes := "authorization_code,refresh_token", scopes, publicClient := true, status := .active
    createdAt := 0, updatedAt := 0 }

def smallDb : Db where
  principals := .single ⟨"ada", "ada", "ada@acme", true, .active, false, 1⟩
  members := .single ⟨"acme", "ada", .active⟩
  clients := ⟨[smallClient "app" "openid read", smallClient "other" "openid"], by decide⟩

def smallChallenge : String := "0123456789012345678901234567890123456789012"

def smallParams (scope : String) : AuthorizeParams :=
  ⟨"app", "https://app", "code", scope, smallChallenge, "S256", "", ""⟩

def smallForm : CodeForm := ⟨"code", smallChallenge, "https://app"⟩

/-- A code is issued for the scope and exchanged, which starts the family of the token `first`. -/
def smallLogin (scope : String) : List (Event ⊕ Draw) :=
  [.inl (.authorize ⟨"ada", 1000, 1, ["pwd"]⟩ (smallParams scope)), .inr {}, .inr {}, .inr {},
    .inr { code := "code" }, .inl (.authorizationCode "app" "" smallForm), .inr {}, .inr {}, .inr {},
    .inr { token := "first", familyID := "family" }, .inr {}]

/-- The token is presented by the client and exchanged for the next one. -/
def smallRefresh (clientID token next : String) : List (Event ⊕ Draw) :=
  [.inl (.refresh clientID "" token), .inr {}, .inr {}, .inr {}, .inr { token := next }, .inr {}]

def smallEvents (calls : List (Event ⊕ Draw)) : List Event :=
  schedule smallSetup (start smallClock smallDb) calls

end OAuthService
