import ChaosPlus.AccountStore
import ChaosPlus.SessionLifetime

/-!
# E-mail verification

A registration stores an account together with a verification of its address, whose link and
code are sent there; a completion presents the token of the link or the code. A transaction is
one step, and so is each statement outside of one; `Request` is a call between two of its
steps. What a call draws at random comes with the event.
-/
namespace EmailVerification

open AccountStore KeyedTable
open MfaService (Instant)
open PolicyStore (Millis)

structure EmailVerificationRow where
  tokenHMAC : String
  principalID : String
  email : String
  createdAt : Millis
  expiresAt : Millis
  consumedAt : Millis := 0
  code : String := ""
  deriving DecidableEq, Repr

structure Db where
  principals : Table PrincipalRow.id := .empty
  credentials : Table CredentialRow.principalID := .empty
  verifications : Table EmailVerificationRow.tokenHMAC := .empty
  outbox : Table NotificationPayload.id := .empty

structure Setup where
  tokenTTL : Nat
  lower : String → String
  /-- The address in a text; nothing where it is malformed. -/
  parseAddress : String → Option String
  equalFold : String → String → Bool
  emailVerificationHMAC : String → String
  /-- The URL with the token; nothing where the configured URL is malformed. -/
  credentialURL : String → Option String
  /-- The hash of the password under a salt. -/
  hashPassword : String → String → String

/-- What a step draws at random. -/
structure Draw where
  secret : String := ""
  code : UInt32 := 0
  salt : String := ""
  principalID : String := ""
  notificationID : String := ""
  /-- The one of the rows with the code that the store returns. -/
  tokenHMAC : String := ""
  deriving DecidableEq

def emailVerificationTokenPrefix : String := "cpe1_"

def emailVerificationNotification : String := "email_verification"

def randomVerificationCode (bytes : UInt32) : String :=
  String.ofList ((Nat.toDigits 10 (bytes.toNat % 1000000)).leftpad 6 '0')

/-! ## Calls -/

/-- What a registration has made before its transaction. -/
structure Registration where
  email : String
  displayName : String
  passwordHash : String
  tokenHMAC : String
  verificationURL : String
  code : String
  deriving DecidableEq

inductive Credential where
  | token (tokenHMAC : String)
  | code (code : String)
  deriving DecidableEq

/-- A registration or a renewed verification before its transaction; a completion that has
accepted its credential, or has found its row. -/
inductive Request where
  | registering (registration : Registration) (now : Instant)
  | renewing (subject : String) (now : Instant)
  | presented (credential : Credential) (now : Instant)
  | found (credential : Credential) (row : EmailVerificationRow) (now : Instant)
  deriving DecidableEq

/-- The completions are history, the latest first: what was presented, and the key of the row. -/
structure Server where
  clock : Instant
  db : Db
  requests : List Request
  completions : List (Credential × String)

def start (clock : Instant) (db : Db) : Server := ⟨clock, { db with verifications := .empty }, [], []⟩

section Calls

variable (setup : Setup) (s : Server) (db : Db)

def isUnconsumed (principalID : String) (row : EmailVerificationRow) : Bool :=
  row.principalID = principalID && row.consumedAt = 0

def isOpen (tokenHMAC : String) (now : Instant) (row : EmailVerificationRow) : Bool :=
  row.tokenHMAC = tokenHMAC && row.consumedAt = 0 && now.millis < row.expiresAt

def consume (now : Instant) : Table.Change EmailVerificationRow.tokenHMAC where
  val row := { row with consumedAt := now.millis }
  property _ := rfl

/-! ### Registration -/

def normalized (email : String) : String := setup.lower (GoText.trimmed email)

def validIdentity (email displayName : String) : Bool :=
  email.utf8ByteSize ≤ 320 && displayName.utf8ByteSize ≤ 128 &&
    (setup.parseAddress email).any fun address => setup.equalFold address email

def validPassword (password : String) : Bool := 8 ≤ password.utf8ByteSize && password.utf8ByteSize ≤ 1024

def prepareRegistration (email password displayName : String) (draw : Draw) : Option Registration :=
  let token := emailVerificationTokenPrefix ++ draw.secret
  if validIdentity setup (normalized setup email) (GoText.trimmed displayName) && validPassword password then
    (setup.credentialURL token).map fun verificationURL =>
      { email := normalized setup email
        displayName := GoText.trimmed displayName
        passwordHash := setup.hashPassword draw.salt password
        tokenHMAC := setup.emailVerificationHMAC token
        verificationURL
        code := randomVerificationCode draw.code }
  else none

/-- The login name has an index that is unique. -/
def insertPrincipal (row : PrincipalRow) : Option (Table PrincipalRow.id) :=
  if db.principals.rows.any (·.loginName = row.loginName) then none else db.principals.insert? row

def pendingPrincipal (id email : String) (now : Instant) : PrincipalRow where
  id := id
  loginName := email
  email := email
  emailVerified := false
  activationRequired := true
  status := .active
  updatedAt := now.millis

def pendingCredential (principalID passwordHash : String) (now : Instant) : CredentialRow where
  principalID := principalID
  passwordHash := passwordHash
  totpSecret := ""
  mfaRequired := false
  failedAttempts := 0
  lockedUntil := 0
  passwordChangedAt := now.millis
  credentialVersion := 1
  recoveryCooldownUntil := 0
  updatedAt := now.millis

def createPendingPrincipal (email passwordHash displayName id : String) (now : Instant) : Option Db :=
  let email := normalized setup email
  if validIdentity setup email (GoText.trimmed displayName) && passwordHash ≠ "" then
    match insertPrincipal db (pendingPrincipal id email now),
      db.credentials.insert? (pendingCredential id passwordHash now) with
    | some principals, some credentials => some { db with principals, credentials }
    | _, _ => none
  else none

def storeVerification (row : EmailVerificationRow) (notification : NotificationPayload) : Option Db :=
  match db.verifications.insert? row, db.outbox.insert? notification with
  | some verifications, some outbox => some { db with verifications, outbox }
  | _, _ => none

def verificationOf (registration : Registration) (principalID : String) (now : Instant) : EmailVerificationRow where
  tokenHMAC := registration.tokenHMAC
  principalID := principalID
  email := registration.email
  createdAt := now.millis
  expiresAt := now.millis + setup.tokenTTL
  code := registration.code

/-- The transaction of a registration; it fails where the login name is taken. -/
def register (registration : Registration) (now : Instant) (draw : Draw) : Option Db :=
  (createPendingPrincipal setup db registration.email registration.passwordHash registration.displayName
    draw.principalID now).bind fun db =>
      storeVerification db (verificationOf setup registration draw.principalID now)
        { id := draw.notificationID, type := emailVerificationNotification, recipient := registration.email
          verificationURL := registration.verificationURL, code := registration.code
          occurredAt := now.millis, expiresAt := now.millis + setup.tokenTTL }

/-! ### Renewal -/

/-- The transaction that sends another link; nothing is sent where the address is verified. -/
def beginEmailVerification (subject : String) (now : Instant) (draw : Draw) : Option Db :=
  match (db.principals.find? subject).filter (·.status = .active) with
  | none => none
  | some principal =>
    if principal.emailVerified then some db
    else if principal.email = "" then none
    else
      let token := emailVerificationTokenPrefix ++ draw.secret
      (setup.credentialURL token).bind fun verificationURL =>
        storeVerification
          { db with verifications := db.verifications.update (isUnconsumed principal.id) (consume now) }
          { tokenHMAC := setup.emailVerificationHMAC token, principalID := principal.id
            email := principal.email, createdAt := now.millis, expiresAt := now.millis + setup.tokenTTL }
          { id := draw.notificationID, type := emailVerificationNotification, recipient := principal.email
            verificationURL, occurredAt := now.millis, expiresAt := now.millis + setup.tokenTTL }

/-! ### Completion -/

def credentialOf (token code : String) : Option Credential :=
  if token ≠ "" then
    if token.startsWith emailVerificationTokenPrefix && token.utf8ByteSize ≤ 128 then
      some (.token (setup.emailVerificationHMAC token))
    else none
  else if code ≠ "" then if code.utf8ByteSize = 6 then some (.code code) else none
  else none

def Credential.names : Credential → EmailVerificationRow → Bool
  | .token tokenHMAC, row => row.tokenHMAC = tokenHMAC
  | .code c, row => row.code = c

def selects (credential : Credential) (now : Instant) (row : EmailVerificationRow) : Bool :=
  credential.names row && row.consumedAt = 0 && now.millis < row.expiresAt

def isPending (row : EmailVerificationRow) (principal : PrincipalRow) : Bool :=
  principal.id = row.principalID && principal.status = .active && principal.email = row.email &&
    !principal.emailVerified

def verify (now : Instant) : Table.Change PrincipalRow.id where
  val row := { row with emailVerified := true, activationRequired := false, updatedAt := now.millis }
  property _ := rfl

/-- The transaction of a completion; it fails where the row has been consumed, or the address is
not the principal's any more. -/
def completeEmailVerification (row : EmailVerificationRow) (now : Instant) : Option Db :=
  if db.verifications.rows.countP (isOpen row.tokenHMAC now) ≠ 1 then none
  else if db.principals.rows.countP (isPending row) ≠ 1 then none
  else
    some { db with
      verifications := db.verifications.update (isOpen row.tokenHMAC now) (consume now)
      principals := db.principals.update (isPending row) (verify now) }

/-! ### Steps -/

def withRequest (request : Request) : Server := { s with requests := request :: s.requests }

def write (outcome : Option Db) : Server :=
  match outcome with
  | none => s
  | some db => { s with db }

/-- The next step of the request, which has left the requests in flight; one that fails does not
come back. -/
def advance (draw : Draw) : Request → Option Server
  | .registering registration now => some (write s (register setup s.db registration now draw))
  | .renewing subject now => some (write s (beginEmailVerification setup s.db subject now draw))
  | .presented credential now =>
    match (s.db.verifications.find? draw.tokenHMAC).filter (selects credential now) with
    | none => if s.db.verifications.rows.any (selects credential now) then none else some s
    | some row => some (withRequest s (.found credential row now))
  | .found credential row now =>
    match completeEmailVerification s.db row now with
    | none => some s
    | some db => some { s with db, completions := (credential, row.tokenHMAC) :: s.completions }

/-- Others may change principals and credentials, queue notifications, and consume
verifications, as a change of an address does. -/
inductive Event where
  | passes (elapsed : Nat)
  | others (principals : Table PrincipalRow.id) (credentials : Table CredentialRow.principalID)
  | queues (notification : NotificationPayload)
  | consumes (tokens : List String) (now : Instant)
  | register (email password displayName : String) (draw : Draw)
  | renew (subject : String)
  | complete (token code : String)
  | next (request : Request) (draw : Draw)
  | drop (request : Request)

def step : Event → Option Server
  | .passes elapsed => some { s with clock := SessionLifetime.Instant.later s.clock elapsed }
  | .others principals credentials => some { s with db := { s.db with principals, credentials } }
  | .queues notification => (s.db.outbox.insert? notification).map fun outbox => { s with db := { s.db with outbox } }
  | .consumes tokens now =>
    some { s with db := { s.db with
      verifications := s.db.verifications.update (fun row => tokens.contains row.tokenHMAC && row.consumedAt = 0)
        (consume now) } }
  | .register email password displayName draw =>
    match prepareRegistration setup email password displayName draw with
    | none => some s
    | some registration => some (withRequest s (.registering registration s.clock))
  | .renew subject => some (withRequest s (.renewing subject s.clock))
  | .complete token code =>
    match credentialOf setup token code with
    | none => some s
    | some credential => some (withRequest s (.presented credential s.clock))
  | .next request draw =>
    if request ∈ s.requests then advance setup { s with requests := s.requests.erase request } draw request
    else none
  | .drop request => if request ∈ s.requests then some { s with requests := s.requests.erase request } else none

end Calls

end EmailVerification
