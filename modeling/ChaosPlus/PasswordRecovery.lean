import ChaosPlus.AccountStore
import ChaosPlus.SessionLifetime

/-!
# Password recovery

A recovery invalidates the earlier tokens of the principal and stores a new one, and its
completion consumes the token and replaces the password. Each statement that does not write
under a lock of its own is a step; `Request` is a call between two of its steps. What a call
draws at random comes with the event.
-/
namespace PasswordRecovery

open AccountStore KeyedTable
open MfaService (Instant)
open PolicyStore (Millis)

structure PasswordRecoveryRow where
  tokenHMAC : String
  principalID : String
  createdAt : Millis
  expiresAt : Millis
  consumedAt : Millis := 0
  deriving DecidableEq, Repr

structure Db where
  principals : Table PrincipalRow.id := .empty
  credentials : Table CredentialRow.principalID := .empty
  history : Table PasswordHistoryRow.id := .empty
  sessions : Table GrantRow.idHash := .empty
  refreshTokens : Table GrantRow.idHash := .empty
  tokens : Table PasswordRecoveryRow.tokenHMAC := .empty
  outbox : Table NotificationPayload.id := .empty

structure Setup where
  tokenTTL : Nat
  cooldown : Nat
  lower : String → String
  /-- What the store makes of a text in lower case. -/
  storedLower : String → String
  passwordRecoveryHMAC : String → String
  /-- The reset URL with the token; nothing where the configured URL is malformed. -/
  credentialURL : String → Option String
  /-- The password matches the hash; nothing where the hash is malformed. -/
  verifyPassword : String → String → Option Bool
  /-- The hash of the password under a salt. -/
  hashPassword : String → String → String

/-- What a step draws at random. -/
structure Draw where
  secret : String := ""
  notificationID : String := ""
  historyID : String := ""
  salt : String := ""
  deriving DecidableEq, Repr

def recoveryTokenPrefix : String := "cpr1_"

def passwordRecoveryNotification : String := "password_recovery"

def passwordChangedNotification : String := "password_changed"

/-! ## Calls -/

/-- A recovery that has found its principal, has found the tokens to invalidate, or has
invalidated them and holds their rows until it commits; a completion that was presented, has
read its token, its principal, its credential, or has checked the new password against the
history. -/
inductive Request where
  | begun (principal : PrincipalRow)
  | invalidating (row : PasswordRecoveryRow) (notification : NotificationPayload) (candidates : List String)
      (now : Instant)
  | invalidated (row : PasswordRecoveryRow) (notification : NotificationPayload) (consumed : List String)
      (now : Instant)
  | presented (tokenHMAC newPassword : String) (now : Instant)
  | tokenFound (row : PasswordRecoveryRow) (newPassword : String) (now : Instant)
  | principalFound (row : PasswordRecoveryRow) (principal : PrincipalRow) (newPassword : String) (now : Instant)
  | credentialFound (row : PasswordRecoveryRow) (principal : PrincipalRow) (credential : CredentialRow)
      (newPassword : String) (now : Instant)
  | checked (row : PasswordRecoveryRow) (principal : PrincipalRow) (credential : CredentialRow)
      (newPassword : String) (now : Instant)
  deriving DecidableEq

/-- The tokens that completed a reset are history, the latest first. -/
structure Server where
  clock : Instant
  db : Db
  requests : List Request
  resets : List String

def start (clock : Instant) (db : Db) : Server := ⟨clock, { db with tokens := .empty }, [], []⟩

section Calls

variable (setup : Setup) (s : Server)

def identifies (identifier : String) (row : PrincipalRow) : Bool :=
  row.status = .active && row.emailVerified &&
    (setup.storedLower row.loginName = identifier || setup.storedLower row.email = identifier)

def normalized (identifier : String) : String := setup.lower (GoText.trimmed identifier)

def validIdentifier (identifier : String) : Bool := identifier ≠ "" && identifier.utf8ByteSize ≤ 320

def isUnconsumed (principalID : String) (row : PasswordRecoveryRow) : Bool :=
  row.principalID = principalID && row.consumedAt = 0

def isOpenToken (tokenHMAC : String) (now : Instant) (row : PasswordRecoveryRow) : Bool :=
  row.tokenHMAC = tokenHMAC && row.consumedAt = 0 && now.millis < row.expiresAt

def consume (now : Instant) : Table.Change PasswordRecoveryRow.tokenHMAC where
  val row := { row with consumedAt := now.millis }
  property _ := rfl

/-- A transaction in progress holds the row of the token. -/
def isLocked (tokenHMAC : String) : Bool :=
  s.requests.any fun
    | .invalidated _ _ consumed _ => consumed.contains tokenHMAC
    | _ => false

def withRequest (request : Request) : Server := { s with requests := request :: s.requests }

def beginTransaction (principal : PrincipalRow) (draw : Draw) : Server :=
  let token := recoveryTokenPrefix ++ draw.secret
  let expiresAt := s.clock.millis + setup.tokenTTL
  match setup.credentialURL token with
  | none => s
  | some recoveryURL =>
    withRequest s (.invalidating
      { tokenHMAC := setup.passwordRecoveryHMAC token, principalID := principal.id
        createdAt := s.clock.millis, expiresAt }
      { id := draw.notificationID, type := passwordRecoveryNotification, recipient := principal.email
        recoveryURL, occurredAt := s.clock.millis, expiresAt }
      ((s.db.tokens.rows.filter (isUnconsumed principal.id)).map (·.tokenHMAC)) s.clock)

/-- The update waits while a row is held that it has found, and leaves what has been consumed
meanwhile. -/
def invalidate (row : PasswordRecoveryRow) (notification : NotificationPayload) (candidates : List String)
    (now : Instant) : Option Server :=
  if candidates.any (isLocked s) then none
  else
    some (withRequest s (.invalidated row notification
      (candidates.filter fun k => (s.db.tokens.find? k).any (isUnconsumed row.principalID)) now))

/-- The row and the notification are inserted, and the invalidation takes effect. -/
def storeToken (row : PasswordRecoveryRow) (notification : NotificationPayload) (consumed : List String)
    (now : Instant) : Option Db :=
  match (s.db.tokens.update (fun other => consumed.contains other.tokenHMAC) (consume now)).insert? row,
      s.db.outbox.insert? notification with
  | some tokens, some outbox => some { s.db with tokens, outbox }
  | _, _ => none

def validReset (token newPassword : String) : Bool :=
  token.startsWith recoveryTokenPrefix && token.utf8ByteSize ≤ 128 && 12 ≤ newPassword.utf8ByteSize &&
    newPassword.utf8ByteSize ≤ 1024

/-- The new password is none of the last ones, and none of their hashes is malformed. -/
def isFresh (credential : CredentialRow) (newPassword : String) : Bool :=
  (credential.passwordHash :: recentPasswords s.db.history credential.principalID).all fun encoded =>
    setup.verifyPassword encoded newPassword = some false

def hasPassword (principalID passwordHash : String) (row : CredentialRow) : Bool :=
  row.principalID = principalID && row.passwordHash = passwordHash

def replacePassword (passwordHash : String) (now : Instant) : Table.Change CredentialRow.principalID where
  val row := { row with
    passwordHash
    passwordChangedAt := now.millis
    updatedAt := now.millis
    failedAttempts := 0
    lockedUntil := 0
    credentialVersion := row.credentialVersion + 1
    recoveryCooldownUntil := now.millis + setup.cooldown }
  property _ := rfl

/-- The notification of the change goes to those who have an address. -/
def notifyChanged (principal : PrincipalRow) (now : Instant) (notificationID : String) :
    Option (Table NotificationPayload.id) :=
  if principal.email = "" then some s.db.outbox
  else
    s.db.outbox.insert?
      { id := notificationID, type := passwordChangedNotification, recipient := principal.email
        occurredAt := now.millis }

/-- The transaction of a completion; it fails where the token or the password has changed. -/
def reset (row : PasswordRecoveryRow) (principal : PrincipalRow) (credential : CredentialRow)
    (newPassword : String) (now : Instant) (draw : Draw) : Option Db :=
  let principalID := row.principalID
  if s.db.tokens.rows.countP (isOpenToken row.tokenHMAC now) ≠ 1 then none
  else
    match s.db.history.insert? ⟨draw.historyID, principalID, credential.passwordHash, now.millis⟩,
        notifyChanged s principal now draw.notificationID with
    | some history, some outbox =>
      if s.db.credentials.rows.countP (hasPassword principalID credential.passwordHash) ≠ 1 then none
      else
        some { s.db with
          tokens := s.db.tokens.update (isOpenToken row.tokenHMAC now) (consume now)
          history := trimPasswordHistory history principalID
          credentials := s.db.credentials.update (hasPassword principalID credential.passwordHash)
            (replacePassword setup (setup.hashPassword draw.salt newPassword) now)
          sessions := revokeAll s.db.sessions principalID now.millis
          refreshTokens := revokeAll s.db.refreshTokens principalID now.millis
          outbox }
    | _, _ => none

/-- The next step of the request, which has left the requests in flight; one that fails does not
come back. -/
def advance (draw : Draw) : Request → Option Server
  | .begun principal => some (beginTransaction setup s principal draw)
  | .invalidating row notification candidates now => invalidate s row notification candidates now
  | .invalidated row notification consumed now =>
    match storeToken s row notification consumed now with
    | none => some s
    | some db => some { s with db }
  | .presented tokenHMAC newPassword now =>
    match s.db.tokens.rows.find? (isOpenToken tokenHMAC now) with
    | none => some s
    | some row => some (withRequest s (.tokenFound row newPassword now))
  | .tokenFound row newPassword now =>
    match s.db.principals.find? row.principalID with
    | none => some s
    | some principal =>
      if principal.status = .active && principal.emailVerified then
        some (withRequest s (.principalFound row principal newPassword now))
      else some s
  | .principalFound row principal newPassword now =>
    match s.db.credentials.find? row.principalID with
    | none => some s
    | some credential => some (withRequest s (.credentialFound row principal credential newPassword now))
  | .credentialFound row principal credential newPassword now =>
    if isFresh setup s credential newPassword then
      some (withRequest s (.checked row principal credential newPassword now))
    else some s
  | .checked row principal credential newPassword now =>
    if isLocked s row.tokenHMAC then none
    else
      match reset setup s row principal credential newPassword now draw with
      | none => some s
      | some db => some { s with db, resets := row.tokenHMAC :: s.resets }

/-- Others may change principals, credentials and what they hold, and consume tokens, as a change
of an address does. -/
inductive Event where
  | passes (elapsed : Nat)
  | others (db : Db)
  | consumes (tokens : List String)
  | beginRecovery (identifier principalID : String)
  | complete (token newPassword : String)
  | next (request : Request) (draw : Draw)
  | drop (request : Request)

/-- `beginRecovery` names the one of the rows with the identifier that the store returns. -/
def step : Event → Option Server
  | .passes elapsed => some { s with clock := SessionLifetime.Instant.later s.clock elapsed }
  | .others db => some { s with db := { db with tokens := s.db.tokens } }
  | .consumes tokens =>
    if tokens.any (isLocked s) then none
    else some { s with db := { s.db with
      tokens := s.db.tokens.update (fun row => tokens.contains row.tokenHMAC && row.consumedAt = 0)
        (consume s.clock) } }
  | .beginRecovery identifier principalID =>
    if !validIdentifier (normalized setup identifier) then some s
    else
      match (s.db.principals.find? principalID).filter (identifies setup (normalized setup identifier)) with
      | none => if s.db.principals.rows.any (identifies setup (normalized setup identifier)) then none else some s
      | some principal => if principal.email = "" then some s else some (withRequest s (.begun principal))
  | .complete token newPassword =>
    if !validReset token newPassword then some s
    else some (withRequest s (.presented (setup.passwordRecoveryHMAC token) newPassword s.clock))
  | .next request draw =>
    if request ∈ s.requests then advance setup { s with requests := s.requests.erase request } draw request
    else none
  | .drop request => if request ∈ s.requests then some { s with requests := s.requests.erase request } else none

end Calls

end PasswordRecovery
