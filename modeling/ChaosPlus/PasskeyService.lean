import ChaosPlus.SessionLifetime

/-!
# Passkeys

The ceremonies of the passkey service over their tables, one statement of a request at a time.
Requests of any kind are in flight together; what a login read of a passkey may be out of date when
it writes the passkey. The WebAuthn library is a parameter, and an encrypted credential is one that
only its principal and its id open.
-/
namespace PasskeyService

open KeyedTable
open MfaService (Instant)
open MfaStore (SessionRow)
open PolicyStore (Millis PrincipalStatus)

/-! ### The WebAuthn library -/

/-- The record of a credential that the library keeps; the identifier of the model is in lower-case
hexadecimal digits. -/
structure Credential where
  id : String
  publicKey : String
  signCount : Nat
  cloneWarning : Bool
  attestationFormat : String
  aaguid : String
  deriving DecidableEq, Repr

/-- A counter that does not rise is a sign of a copy, except where both counters are zero. -/
def Credential.updateCounter (stored : Credential) (counter : Nat) : Credential :=
  if counter ≤ stored.signCount && (counter ≠ 0 || stored.signCount ≠ 0) then
    { stored with cloneWarning := true }
  else { stored with signCount := counter }

structure Assertion where
  credentialID : String
  userHandle : String
  counter : Nat
  deriving DecidableEq, Repr

structure Library where
  /-- By the handle of the user, the data of the session and the response. -/
  createCredential : String → String → String → Option Credential
  parseAssertion : String → Option Assertion
  verifies : Credential → String → String → Assertion → Bool

/-- The stored credential that the assertion is for, if the assertion verifies against it. -/
def Library.asserted (lib : Library) (handle sessionData : String) (stored : List Credential)
    (assertion : Assertion) : Option Credential :=
  (stored.find? fun credential => credential.id = assertion.credentialID).filter fun credential =>
    lib.verifies credential handle sessionData assertion

/-! ### Tables -/

structure PrincipalRow where
  id : String
  status : PrincipalStatus
  deriving DecidableEq, Repr

structure PasskeyUserRow where
  principalID : String
  userHandle : String
  deriving DecidableEq, Repr

/-- A credential, encrypted for a principal and an id. -/
structure Ciphertext where
  principalID : String
  idHash : String
  credential : Credential
  deriving DecidableEq, Repr

/-- `number` counts the registrations. -/
structure PasskeyRow where
  number : Nat
  idHash : String
  principalID : String
  name : String
  ciphertext : Ciphertext
  signCount : Nat
  createdAt : Millis
  updatedAt : Millis
  lastUsedAt : Millis := 0
  deriving DecidableEq, Repr

inductive Kind where
  | registration
  | login
  deriving DecidableEq, Repr

/-- `number` counts the challenges. -/
structure PasskeyChallengeRow where
  number : Nat
  idHash : String
  kind : Kind
  principalID : String
  returnURL : String
  sessionData : String
  createdAt : Millis
  expiresAt : Millis
  consumedAt : Millis := 0
  deriving DecidableEq, Repr

structure Db where
  principals : Table PrincipalRow.id := .empty
  users : Table PasskeyUserRow.principalID := .empty
  passkeys : Table PasskeyRow.idHash := .empty
  challenges : Table PasskeyChallengeRow.idHash := .empty
  sessions : Table SessionRow.idHash := .empty

structure Settings where
  lib : Library
  /-- Of a credential's id. -/
  idHash : String → String
  tokenHash : String → String
  maxCredentials : Nat
  challengeTTL : Millis
  sessionTTL : Millis
  idleTTL : Millis
  origins : List String
  postLoginURL : String
  allowedReturnURLs : List String
  allowedAttestationFormats : List String
  allowedAAGUIDs : List String

/-! ### Statements -/

section Statements

variable (cfg : Settings) (db : Db)

def active (principalID : String) : Bool :=
  (db.principals.find? principalID).any (·.status = .active)

def passkeysOf (principalID : String) : List PasskeyRow :=
  db.passkeys.rows.filter fun row => row.principalID = principalID

def passkeyCount (principalID : String) : Nat := (passkeysOf db principalID).length

def decrypt (principalID idHash : String) (ciphertext : Ciphertext) : Option Credential :=
  if ciphertext.principalID = principalID && ciphertext.idHash = idHash then some ciphertext.credential
  else none

/-- The handle of an active principal and its credentials, if all of them can be read. -/
def loadPasskeyUser (principalID : String) : Option (String × List Credential) :=
  if !active db principalID then none
  else
    match db.users.find? principalID with
    | none => none
    | some user =>
      ((passkeysOf db principalID).mapM fun row => decrypt principalID row.idHash row.ciphertext).map
        fun stored => (user.userHandle, stored)

/-- Handles are unique, and a row that is in the way is kept. -/
def ensurePasskeyUser (principalID handle : String) : Table PasskeyUserRow.principalID :=
  if db.users.rows.any fun row => row.userHandle = handle then db.users
  else db.users.insertIgnore ⟨principalID, handle⟩

def normalizePasskeyName (name : String) : Option String :=
  let name := GoText.trimmed name
  if name = "" || 200 < name.utf8ByteSize then none else some name

def checkPasskeyAttestation (credential : Credential) : Bool :=
  (cfg.allowedAttestationFormats = [] ||
    cfg.allowedAttestationFormats.contains credential.attestationFormat) &&
  (cfg.allowedAAGUIDs = [] || cfg.allowedAAGUIDs.any fun allowed => allowed.toLower = credential.aaguid)

def isOver (now : Instant) (row : PasskeyChallengeRow) : Bool :=
  row.consumedAt ≠ 0 || row.expiresAt ≤ now.millis

/-- Fails where the identifier is taken. -/
def storePasskeyChallenge (row : PasskeyChallengeRow) (now : Instant) :
    Option (Table PasskeyChallengeRow.idHash) :=
  (db.challenges.deleteWhere (isOver now)).insert? row

/-- The challenge of the request, by its kind and, if there is one, by its principal. -/
def selectChallenge (id : String) (kind : Kind) (principalID : String) : Option PasskeyChallengeRow :=
  if GoText.isBlank id then none
  else
    (db.challenges.find? (cfg.tokenHash id)).filter fun row =>
      row.kind = kind && (principalID = "" || row.principalID = principalID)

/-- The challenge that the update of the request still finds. -/
def openChallenge (idHash : String) (kind : Kind) (principalID : String) (now : Instant) :
    Option PasskeyChallengeRow :=
  (db.challenges.find? idHash).filter fun row =>
    row.kind = kind && row.consumedAt = 0 && now.millis < row.expiresAt &&
      (principalID = "" || row.principalID = principalID)

def newSession (token principalID : String) (now : Instant) : SessionRow where
  idHash := cfg.tokenHash token
  principalID := principalID
  createdAt := now.millis
  authTime := now.millis
  acr := 2
  amr := ["passkey"]
  lastSeenAt := now.millis
  expiresAt := now.millis + cfg.idleTTL
  absoluteExpiresAt := now.millis + cfg.sessionTTL

/-- What deleting a passkey leaves of the other sessions of its principal. -/
def revokeOtherAuthentication (principalID current : String) (now : Instant) : Table SessionRow.idHash :=
  db.sessions.updateWhere
    (fun row => row.principalID = principalID && row.revokedAt = 0 && row.idHash ≠ current)
    (fun row => { row with revokedAt := now.millis }) fun _ => rfl

end Statements

/-! ### Requests -/

/-- What a finishing request asks for. -/
inductive Finish where
  | registration (principalID name response : String)
  | login (response : String)
  deriving DecidableEq, Repr

def Finish.kind : Finish → Kind
  | .registration _ _ _ => .registration
  | .login _ => .login

/-- Empty where the challenge is of no principal. -/
def Finish.principalID : Finish → String
  | .registration principalID _ _ => principalID
  | .login _ => ""

/-- A login between the read of its passkey and its end. -/
structure Presented where
  challenge : PasskeyChallengeRow
  assertion : Assertion
  current : PasskeyRow
  now : Instant
  deriving DecidableEq

/-- A request between two of its statements. -/
inductive Request where
  | counted (principalID : String)
  | ensured (principalID : String) (now : Instant)
  | selected (finish : Finish) (challenge : PasskeyChallengeRow) (now : Instant)
  | consumed (finish : Finish) (challenge : PasskeyChallengeRow) (now : Instant)
  | created (principalID name : String) (credential : Credential) (now : Instant)
  | limited (principalID name : String) (credential : Credential) (now : Instant)
  | resolved (login : Presented)
  | owned (login : Presented)
  | verified (login : Presented) (stored : Credential)
  deriving DecidableEq

/-- The challenge that a login in flight has consumed. -/
def Request.held : Request → Option Nat
  | .consumed (.login _) challenge _ => some challenge.number
  | .resolved login | .owned login | .verified login _ => some login.challenge.number
  | _ => none

/-! ### History -/

/-- A challenge that a request has consumed, and what the request was. -/
structure Consumption where
  challenge : PasskeyChallengeRow
  finish : Finish
  now : Instant

/-- A login that was committed. -/
structure Login where
  challenge : Nat
  /-- The identifier that was presented, and the row it was presented for. -/
  credentialID : String
  idHash : String
  owner : String
  cloneWarning : Bool
  /-- The session that the login has created. -/
  sessionHash : String
  principalID : String
  deriving DecidableEq, Repr

inductive Cause where
  | registered
  | warned
  | login (x : Login)
  deriving DecidableEq, Repr

/-- A credential was written to the row of the passkey, with this counter. -/
structure Write where
  passkey : Nat
  signCount : Nat
  cause : Cause
  deriving DecidableEq, Repr

/-- The login that was committed with the write. -/
def Write.login (x : Write) : Option Login :=
  match x.cause with
  | .login login => some login
  | _ => none

/-- The last two lists are history, the latest first. -/
structure Server where
  clock : Instant
  db : Db
  requests : List Request
  challenges : Nat
  passkeys : Nat
  consumptions : List Consumption
  writes : List Write

def Server.logins (s : Server) : List Login := s.writes.filterMap Write.login

/-- There are no passkeys, and nothing has begun. -/
def start (clock : Instant) (db : Db) : Server where
  clock
  db := { db with passkeys := .empty, challenges := .empty }
  requests := []
  challenges := 0
  passkeys := 0
  consumptions := []
  writes := []

/-! ### Steps -/

/-- What a step draws at random. -/
structure Draw where
  handle : String := ""
  challenge : String := ""
  sessionData : String := ""
  session : String := ""
  deriving DecidableEq, Repr

/-- The subject that `Authenticate` gives is not empty. -/
structure Subject where
  id : String
  nonempty : id ≠ ""
  deriving DecidableEq, Repr

section Advance

variable (cfg : Settings) (s : Server)

def accept (request : Option Request) : Server :=
  match request with
  | none => s
  | some request => { s with requests := request :: s.requests }

def newChallenge (kind : Kind) (principalID returnURL : String) (now : Instant) (draw : Draw) :
    PasskeyChallengeRow where
  number := s.challenges
  idHash := cfg.tokenHash draw.challenge
  kind := kind
  principalID := principalID
  returnURL := returnURL
  sessionData := draw.sessionData
  createdAt := now.millis
  expiresAt := now.millis + cfg.challengeTTL

def begin (kind : Kind) (principalID returnURL : String) (now : Instant) (draw : Draw) : Server :=
  match storePasskeyChallenge s.db (newChallenge cfg s kind principalID returnURL now draw) now with
  | none => s
  | some challenges => { s with db := { s.db with challenges }, challenges := s.challenges + 1 }

def consume (finish : Finish) (challenge : PasskeyChallengeRow) (now : Instant) : Server :=
  match openChallenge s.db challenge.idHash finish.kind finish.principalID now with
  | none => s
  | some row =>
    { s with
      db := { s.db with
        challenges := s.db.challenges.updateWhere (fun other => other.idHash = row.idHash)
          (fun other => { other with consumedAt := now.millis }) fun _ => rfl }
      requests := .consumed finish row now :: s.requests
      consumptions := ⟨row, finish, now⟩ :: s.consumptions }

def newPasskey (principalID name : String) (credential : Credential) (now : Instant) : PasskeyRow where
  number := s.passkeys
  idHash := cfg.idHash credential.id
  principalID := principalID
  name := name
  ciphertext := ⟨principalID, cfg.idHash credential.id, credential⟩
  signCount := credential.signCount
  createdAt := now.millis
  updatedAt := now.millis

def create (principalID name response : String) (challenge : PasskeyChallengeRow) (now : Instant) :
    Option Request := do
  let (handle, _) ← loadPasskeyUser s.db principalID
  let credential ← cfg.lib.createCredential handle challenge.sessionData response
  if checkPasskeyAttestation cfg credential then some (.created principalID name credential now) else none

/-- The insert of a registration, after its count. -/
def store (principalID name : String) (credential : Credential) (now : Instant) : Server :=
  match s.db.passkeys.insert? (newPasskey cfg s principalID name credential now) with
  | none => s
  | some passkeys =>
    { s with
      db := { s.db with passkeys }
      passkeys := s.passkeys + 1
      writes := ⟨s.passkeys, credential.signCount, .registered⟩ :: s.writes }

/-- The first read of a login: the row of the credential that was presented. -/
def resolve (challenge : PasskeyChallengeRow) (response : String) (now : Instant) : Option Request := do
  let assertion ← cfg.lib.parseAssertion response
  let current ← s.db.passkeys.find? (cfg.idHash assertion.credentialID)
  return .resolved ⟨challenge, assertion, current, now⟩

def isOwner (login : Presented) : Bool :=
  (s.db.users.find? login.current.principalID).any (·.userHandle = login.assertion.userHandle) &&
    active s.db login.current.principalID

def verify (login : Presented) : Option Request := do
  let (handle, stored) ← loadPasskeyUser s.db login.current.principalID
  let credential ← cfg.lib.asserted handle login.challenge.sessionData stored login.assertion
  return .verified login credential

def encrypt (login : Presented) (credential : Credential) : Ciphertext :=
  ⟨login.current.principalID, login.current.idHash, credential⟩

def warnedPasskey (login : Presented) (credential : Credential) (row : PasskeyRow) : PasskeyRow :=
  { row with ciphertext := encrypt login credential, updatedAt := login.now.millis }

def usedPasskey (login : Presented) (credential : Credential) (row : PasskeyRow) : PasskeyRow :=
  { row with
    ciphertext := encrypt login credential
    signCount := credential.signCount
    updatedAt := login.now.millis
    lastUsedAt := login.now.millis }

def isCurrentID (login : Presented) (row : PasskeyRow) : Bool := row.idHash = login.current.idHash

/-- After a warning the credential is written whatever the row holds by now. -/
def warn (login : Presented) (credential : Credential) : Server :=
  match s.db.passkeys.find? login.current.idHash with
  | none => s
  | some row =>
    { s with
      db := { s.db with passkeys :=
        s.db.passkeys.updateWhere (isCurrentID login) (warnedPasskey login credential) fun _ => rfl }
      writes := ⟨row.number, credential.signCount, .warned⟩ :: s.writes }

def loginOf (login : Presented) (credential : Credential) (draw : Draw) (row : PasskeyRow) : Login where
  challenge := login.challenge.number
  credentialID := login.assertion.credentialID
  idHash := row.idHash
  owner := row.principalID
  cloneWarning := credential.cloneWarning
  sessionHash := cfg.tokenHash draw.session
  principalID := login.current.principalID

/-- Without a warning the row must still have the counter that was read, and a session begins. -/
def commit (login : Presented) (credential : Credential) (draw : Draw) : Server :=
  match (s.db.passkeys.find? login.current.idHash).filter fun row =>
      row.signCount = login.current.signCount with
  | none => s
  | some row =>
    match s.db.sessions.insert? (newSession cfg draw.session login.current.principalID login.now) with
    | none => s
    | some sessions =>
      { s with
        db := { s.db with
          passkeys :=
            s.db.passkeys.updateWhere (isCurrentID login) (usedPasskey login credential) fun _ => rfl
          sessions }
        writes := ⟨row.number, credential.signCount, .login (loginOf cfg login credential draw row)⟩ :: s.writes }

def completePasskeyLogin (login : Presented) (stored : Credential) (draw : Draw) : Server :=
  let credential := stored.updateCounter login.assertion.counter
  if credential.cloneWarning then warn s login credential else commit cfg s login credential draw

/-- The next statement of the request, which has left the requests in flight. A request that fails
does not come back. -/
def advance (draw : Draw) : Request → Server
  | .counted principalID =>
    { s with
      db := { s.db with users := ensurePasskeyUser s.db principalID draw.handle }
      requests := .ensured principalID s.clock :: s.requests }
  | .ensured principalID now =>
    if (loadPasskeyUser s.db principalID).isSome then begin cfg s .registration principalID "" now draw
    else s
  | .selected finish challenge now => consume s finish challenge now
  | .consumed (.registration principalID name response) challenge now =>
    accept s (create cfg s principalID name response challenge now)
  | .consumed (.login response) challenge now => accept s (resolve cfg s challenge response now)
  | .created principalID name credential now =>
    if cfg.maxCredentials ≤ passkeyCount s.db principalID then s
    else accept s (some (.limited principalID name credential now))
  | .limited principalID name credential now => store cfg s principalID name credential now
  | .resolved login => if isOwner s login then accept s (some (.owned login)) else s
  | .owned login => accept s (verify cfg s login)
  | .verified login stored => completePasskeyLogin cfg s login stored draw

end Advance

/-- The calls of a principal are authenticated, and beginning a registration or deleting a passkey
comes with the current password. -/
inductive Event where
  | passes (elapsed : Nat)
  | beginRegistration (subject : Subject)
  | finishRegistration (subject : Subject) (challengeID name response : String)
  | beginLogin (origin returnURL : String) (draw : Draw)
  | finishLogin (origin challengeID response : String)
  | deletePasskey (subject : Subject) (id currentSession : String)
  | next (request : Request) (draw : Draw)
  | drop (request : Request)

section Step

variable (cfg : Settings) (s : Server)

def select (finish : Finish) (challengeID : String) : Server :=
  accept s ((selectChallenge cfg s.db challengeID finish.kind finish.principalID).map fun row =>
    .selected finish row s.clock)

def returnURLOf (returnURL : String) : String :=
  if GoText.trimmed returnURL = "" then cfg.postLoginURL else GoText.trimmed returnURL

def isPasskeyOf (principalID id : String) (row : PasskeyRow) : Bool :=
  row.idHash = id && row.principalID = principalID

def step : Event → Option Server
  | .passes elapsed => some { s with clock := SessionLifetime.Instant.later s.clock elapsed }
  | .beginRegistration subject =>
    if cfg.maxCredentials ≤ passkeyCount s.db subject.id then some s
    else some (accept s (some (.counted subject.id)))
  | .finishRegistration subject challengeID name response =>
    match normalizePasskeyName name with
    | none => some s
    | some name =>
      if response = "" then some s
      else some (select cfg s (.registration subject.id name response) challengeID)
  | .beginLogin origin returnURL draw =>
    if cfg.origins.contains origin && cfg.allowedReturnURLs.contains (returnURLOf cfg returnURL) then
      some (begin cfg s .login "" (returnURLOf cfg returnURL) s.clock draw)
    else some s
  | .finishLogin origin challengeID response =>
    if cfg.origins.contains origin && response ≠ "" then some (select cfg s (.login response) challengeID)
    else some s
  | .deletePasskey subject id currentSession =>
    if s.db.passkeys.rows.any (isPasskeyOf subject.id id) then
      some { s with db := { s.db with
        passkeys := s.db.passkeys.deleteWhere (isPasskeyOf subject.id id)
        sessions := revokeOtherAuthentication s.db subject.id currentSession s.clock } }
    else some s
  | .next request draw =>
    if request ∈ s.requests then
      some (advance cfg { s with requests := s.requests.erase request } draw request)
    else none
  | .drop request =>
    if request ∈ s.requests then some { s with requests := s.requests.erase request } else none

end Step

end PasskeyService
