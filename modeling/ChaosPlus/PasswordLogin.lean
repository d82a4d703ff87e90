import ChaosPlus.AccountStore
import ChaosPlus.SessionLifetime

/-!
# Logins with a password

A login reads the principal, then its credential, checks the password against what it has read
and writes the outcome back: a failed attempt is counted or locks the account, a good one resets
both, and goes on to a challenge or a session. Each statement is a step; `Request` is a login
between two of them.
-/
namespace PasswordLogin

open AccountStore KeyedTable
open MfaService (Instant)
open MfaStore (MfaChallengeRow SessionRow)
open PolicyStore (Millis)

structure Db where
  principals : Table PrincipalRow.id := .empty
  /-- The principals that are service accounts. -/
  serviceAccounts : List String := []
  credentials : Table CredentialRow.principalID := .empty
  challenges : Table MfaChallengeRow.idHash := .empty
  sessions : Table SessionRow.idHash := .empty

/-- A configuration without limits gets the default ones, so that both are positive. -/
structure Setup where
  factors : MfaService.Setup
  challengeTTL : Nat
  maxFailedAttempts : Nat
  lockDuration : Nat
  attemptsPositive : 0 < maxFailedAttempts
  durationPositive : 0 < lockDuration
  requireMFA : Bool
  postLoginURL : String
  allowedReturnURLs : List String
  lower : String → String

/-- What a step draws at random, and whether the statement of the MFA policy fails. -/
structure Draw where
  token : String := ""
  policyFails : Bool := false
  deriving DecidableEq

/-! ## Logins -/

/-- A login that has found its principal, has read its credential, has failed or passed the check
of the password, has to enforce the MFA policy, or has passed and is to be answered. -/
inductive Request where
  | found (principal : PrincipalRow) (password returnURL : String)
  | read (principal : PrincipalRow) (credential : CredentialRow) (password returnURL : String)
  | failed (credential : CredentialRow) (now : Instant)
  | verified (credential : CredentialRow) (returnURL : String) (now : Instant)
  | enforcing (credential : CredentialRow) (returnURL : String) (now : Instant)
  | passed (credential : CredentialRow) (returnURL : String) (now : Instant)
  deriving DecidableEq

/-- A wrong password that was evaluated, and a login whose password was accepted. -/
inductive Act where
  | wrong (principalID : String) (time : Millis)
  | accepted (principalID : String)
  deriving DecidableEq, Repr

/-- The acts are history, the latest first. -/
structure Server where
  clock : Instant
  db : Db
  requests : List Request
  history : List Act

def start (clock : Instant) (db : Db) : Server := ⟨clock, db, [], []⟩

section Logins

variable (setup : Setup) (s : Server)

def normalizeLogin (value : String) : String := setup.lower (GoText.trimmed value)

def returnURLOf (returnURL : String) : String :=
  if GoText.trimmed returnURL = "" then setup.postLoginURL else GoText.trimmed returnURL

def isLogin (db : Db) (loginName : String) (row : PrincipalRow) : Bool :=
  row.loginName = loginName && !db.serviceAccounts.contains row.id

def isDenied (principal : PrincipalRow) (credential : CredentialRow) (now : Instant) : Bool :=
  principal.status ≠ .active || principal.activationRequired || now.millis < credential.lockedUntil

/-- Counts the attempt, or locks where it was the last one. -/
def countFailure (credential : CredentialRow) (now : Instant) : Table.Change CredentialRow.principalID where
  val row :=
    if setup.maxFailedAttempts ≤ credential.failedAttempts + 1 then
      { row with failedAttempts := 0, lockedUntil := now.millis + setup.lockDuration, updatedAt := now.millis }
    else
      { row with failedAttempts := credential.failedAttempts + 1, lockedUntil := 0, updatedAt := now.millis }
  property row := by split <;> rfl

def resetFailures (now : Instant) : Table.Change CredentialRow.principalID where
  val row := { row with failedAttempts := 0, lockedUntil := 0, updatedAt := now.millis }
  property _ := rfl

def requireFactor (now : Instant) : Table.Change CredentialRow.principalID where
  val row := { row with mfaRequired := true, updatedAt := now.millis }
  property _ := rfl

def updateCredential (principalID : String) (change : Table.Change CredentialRow.principalID) : Db :=
  { s.db with credentials := s.db.credentials.update (fun row => row.principalID = principalID) change }

def isStale (principalID : String) (now : Instant) (row : MfaChallengeRow) : Bool :=
  row.principalID = principalID && (row.consumedAt ≠ 0 || row.expiresAt ≤ now.millis)

def createLoginChallenge (principalID returnURL token : String) (now : Instant) : Option Db :=
  ((s.db.challenges.deleteWhere (isStale principalID now)).insert?
    { idHash := setup.factors.tokenHash token, principalID, returnURL
      expiresAt := now.millis + setup.challengeTTL }).map fun challenges => { s.db with challenges }

def insertSession (principalID token : String) (now : Instant) : Option Db :=
  (s.db.sessions.insert?
    (SessionLifetime.newSession setup.factors token principalID now ⟨now.millis, 1, ["pwd"]⟩)).map fun sessions =>
      { s.db with sessions }

def withRequest (request : Request) : Server := { s with requests := request :: s.requests }

def write (outcome : Option Db) : Server :=
  match outcome with
  | none => s
  | some db => { s with db }

/-- What follows the check of the password. -/
def check (principal : PrincipalRow) (credential : CredentialRow) (password returnURL : String) : Server :=
  if isDenied principal credential s.clock then s
  else
    match setup.factors.verifyPassword credential.passwordHash password with
    | none => s
    | some false =>
      { s with
        requests := .failed credential s.clock :: s.requests
        history := .wrong credential.principalID s.clock.millis :: s.history }
    | some true => withRequest s (.verified credential returnURL s.clock)

/-- The credential has no second factor though the policy demands one. -/
def lacksFactor (credential : CredentialRow) : Bool :=
  setup.requireMFA && credential.totpSecret = "" && !credential.mfaRequired

def answer (credential : CredentialRow) (returnURL : String) (now : Instant) (token : String) : Server :=
  if credential.mfaRequired then
    if credential.totpSecret = "" then s
    else write s (createLoginChallenge setup s credential.principalID returnURL token now)
  else write s (insertSession setup s credential.principalID token now)

/-- The next step of the request, which has left the requests in flight; one that fails does not
come back. -/
def advance (draw : Draw) : Request → Server
  | .found principal password returnURL =>
    match s.db.credentials.find? principal.id with
    | none => s
    | some credential => withRequest s (.read principal credential password returnURL)
  | .read principal credential password returnURL => check setup s principal credential password returnURL
  | .failed credential now =>
    { s with db := updateCredential s credential.principalID (countFailure setup credential now) }
  | .verified credential returnURL now =>
    { s with
      db := updateCredential s credential.principalID (resetFailures now)
      requests :=
        (if lacksFactor setup credential then .enforcing credential returnURL now
          else .passed credential returnURL now) :: s.requests
      history := .accepted credential.principalID :: s.history }
  | .enforcing credential returnURL now =>
    -- A failure of this statement is logged, and the login goes on without the factor.
    if draw.policyFails then withRequest s (.passed credential returnURL now)
    else
      { s with
        db := updateCredential s credential.principalID (requireFactor now)
        requests := .passed { credential with mfaRequired := true } returnURL now :: s.requests }
  | .passed credential returnURL now => answer setup s credential returnURL now draw.token

/-- Others may change principals. -/
inductive Event where
  | passes (elapsed : Nat)
  | others (principals : Table PrincipalRow.id)
  | beginLogin (loginName password returnURL : String)
  | next (request : Request) (draw : Draw)
  | drop (request : Request)

def beginLogin (loginName password returnURL : String) : Server :=
  if returnURLOf setup returnURL ∉ setup.allowedReturnURLs then s
  else
    match s.db.principals.rows.find? (isLogin s.db (normalizeLogin setup loginName)) with
    | none => s
    | some principal => withRequest s (.found principal password (returnURLOf setup returnURL))

def step : Event → Option Server
  | .passes elapsed => some { s with clock := SessionLifetime.Instant.later s.clock elapsed }
  | .others principals => some { s with db := { s.db with principals } }
  | .beginLogin loginName password returnURL => some (beginLogin setup s loginName password returnURL)
  | .next request draw =>
    if request ∈ s.requests then some (advance setup { s with requests := s.requests.erase request } draw request)
    else none
  | .drop request => if request ∈ s.requests then some { s with requests := s.requests.erase request } else none

end Logins

end PasswordLogin
