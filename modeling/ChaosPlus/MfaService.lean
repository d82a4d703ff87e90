import ChaosPlus.GoText
import ChaosPlus.MfaStore

/-!
# Second factors

The calls that consume a factor: the second step of a login, the elevation of a session, the
renewal of the recovery codes and the removal of the factor. The subject is the one the
caller authenticated as. Generated tokens and codes are given with the call, the clock is
read once before the transaction, and audit records and refresh tokens are left out.
-/
namespace MfaService

open InterleavedTransactions MfaStore
open PolicyStore (Millis)

/-- A deployment: its limits, its keys, and what other packages answer. -/
structure Setup where
  maxAttempts : Nat
  sessionTTL : Millis
  idleTTL : Millis
  upper : Char → Char
  tokenHash : String → String
  recoveryCodeHash : String → String
  /-- The password matches the hash; nothing where the hash is malformed. -/
  verifyPassword : String → String → Option Bool
  decryptMFASecret : String → String → Option String
  /-- The code is the one of the counter under the secret. -/
  validateHOTP : String → Nat → String → Bool

/-- A reading of the clock, which is past the epoch. -/
structure Instant where
  millis : Millis
  positive : 0 < millis

def Instant.second : Instant := ⟨1000, by decide⟩

inductive MfaError where
  | challenge
  | invalid
  | notEnabled
  | invalidCredentials
  | ciphertext
  | loadCredential
  | verifyPassword
  | database
  deriving DecidableEq, Repr

inductive Reply where
  | authenticated (returnURL sessionID : String)
  | elevated (sessionID : String) (expiresAt : Millis)
  | invalidCode
  | recoveryCodes (codes : List String)
  | disabled
  deriving DecidableEq, Repr

inductive Request where
  | verifyLogin (challengeID code token : String)
  | verifyStepUp (subject sessionHash challengeID code token : String)
  | regenerate (subject sessionHash currentPassword code : String) (codes : List String)
  | disable (subject sessionHash currentPassword code : String)
  deriving DecidableEq, Repr

structure Operation where
  request : Request
  now : Instant

abbrev Tx (α : Type) := Program Statement Answer Constraint MfaError α

def send (q : Statement) : Tx (Answer q) := .query q fun _ => .database

def totpPeriod : Int := 30

/-- The step of the first counter around the time that has the code. -/
def validateTOTP (setup : Setup) (code secret : String) (now : Instant) : Option Int :=
  let counter := now.millis / 1000 / totpPeriod
  [counter, counter - 1, counter + 1].find? fun candidate =>
    0 ≤ candidate && setup.validateHOTP (GoText.trimmed code) candidate.toNat secret

def normalizeRecoveryCode (setup : Setup) (code : String) : String :=
  String.ofList (((GoText.trimSpace code.toList).filter fun c => c ≠ '-' && c ≠ ' ').map setup.upper)

@[irreducible] def isTOTPCode (code : String) : Bool :=
  (GoText.trimmed code).utf8ByteSize = 6 && (GoText.trimmed code).toList.all Char.isDigit

/-- Whether the code was good, and with it the factor is used. -/
def consumeFactor (setup : Setup) (principalID : String) (credential : CredentialRow) (code : String)
    (now : Instant) : Tx Bool :=
  if isTOTPCode code then
    match setup.decryptMFASecret principalID credential.totpSecret with
    | none => .fail .ciphertext
    | some secret =>
      match validateTOTP setup code secret now with
      | none => pure false
      | some step =>
        if step ≤ credential.totpLastUsedStep then pure false
        else do
          let affected : Nat ← send (.acceptStep principalID step)
          pure (affected = 1)
  else if normalizeRecoveryCode setup code = "" then pure false
  else do
    let affected : Nat ← send (.redeemCode principalID
      (setup.recoveryCodeHash (normalizeRecoveryCode setup code)) now.millis)
    pure (affected = 1)

def requireAffected (affected : Nat) : Tx Unit :=
  if affected = 1 then pure () else .fail .challenge

/-- The time at which the failed attempt uses the challenge up. -/
def exhausted (setup : Setup) (attempts : Nat) (now : Instant) : Option Millis :=
  if setup.maxAttempts ≤ attempts + 1 then some now.millis else none

def loginSession (setup : Setup) (challenge : MfaChallengeRow) (token : String) (now : Instant) :
    SessionRow :=
  { idHash := setup.tokenHash token
    principalID := challenge.principalID
    createdAt := now.millis
    authTime := now.millis
    acr := 2
    amr := ["pwd", "mfa"]
    lastSeenAt := now.millis
    expiresAt := now.millis + setup.idleTTL
    absoluteExpiresAt := now.millis + setup.sessionTTL
    source := some (.login challenge.idHash) }

def isOpenChallenge (setup : Setup) (now : Instant) (challenge : MfaChallengeRow) : Bool :=
  challenge.consumedAt = 0 && now.millis < challenge.expiresAt && challenge.attempts < setup.maxAttempts

def failLogin (setup : Setup) (challenge : MfaChallengeRow) (now : Instant) : Tx Reply := do
  let affected : Nat ← send (.countMfaAttempt challenge.idHash challenge.attempts
    (exhausted setup challenge.attempts now))
  requireAffected affected
  pure .invalidCode

def completeLogin (setup : Setup) (challenge : MfaChallengeRow) (token : String) (now : Instant) :
    Tx Reply := do
  let updated : Nat ← send (.consumeMfaChallenge challenge.idHash now.millis)
  requireAffected updated
  send (.insertSession (loginSession setup challenge token now))
  pure (.authenticated challenge.returnURL token)

def verifyLoginMFA (setup : Setup) (challengeID code token : String) (now : Instant) : Tx Reply :=
  if GoText.isBlank challengeID || GoText.isBlank code then .fail .challenge
  else do
    let found : Option MfaChallengeRow ← send (.selectMfaChallenge (setup.tokenHash challengeID))
    match found.filter (isOpenChallenge setup now) with
    | none => .fail .challenge
    | some challenge =>
      let required : Option CredentialRow ← send (.selectRequiredCredential challenge.principalID)
      match required with
      | none => .fail .challenge
      | some credential =>
        let valid : Bool ← consumeFactor setup challenge.principalID credential code now
        if valid then completeLogin setup challenge token now else failLogin setup challenge now

/-- The session that replaces the current one. -/
def elevated (setup : Setup) (challenge : StepUpChallengeRow) (current : SessionRow) (token : String)
    (now : Instant) : SessionRow :=
  { idHash := setup.tokenHash token
    principalID := current.principalID
    createdAt := now.millis
    authTime := now.millis
    acr := max current.acr 2
    amr := if "mfa" ∈ current.amr then current.amr else current.amr ++ ["mfa"]
    lastSeenAt := now.millis
    expiresAt := now.millis + setup.idleTTL
    absoluteExpiresAt := current.absoluteExpiresAt
    ipAddress := current.ipAddress
    userAgent := current.userAgent
    source := some (.stepUp challenge.idHash) }

def elevateSession (setup : Setup) (challenge : StepUpChallengeRow) (principalID sessionHash token : String)
    (now : Instant) : Tx Reply := do
  let found : Option SessionRow ← send (.selectSession sessionHash principalID)
  match found with
  | none => .fail .challenge
  | some current =>
    send (.insertSession (elevated setup challenge current token now))
    let _ : Nat ← send (.revokeSession sessionHash now.millis)
    pure (.elevated token current.absoluteExpiresAt)

def isOpenStepUp (setup : Setup) (subject sessionHash : String) (now : Instant)
    (challenge : StepUpChallengeRow) : Bool :=
  challenge.consumedAt = 0 && now.millis < challenge.expiresAt &&
    challenge.attempts < setup.maxAttempts && challenge.principalID = subject &&
    challenge.sessionHash = sessionHash

def failStepUp (setup : Setup) (challenge : StepUpChallengeRow) (now : Instant) : Tx Reply := do
  let affected : Nat ← send (.countStepUpAttempt challenge.idHash challenge.attempts
    (exhausted setup challenge.attempts now))
  requireAffected affected
  pure .invalidCode

/-- The affected rows of the update of the challenge are not looked at. -/
def completeStepUp (setup : Setup) (challenge : StepUpChallengeRow) (subject sessionHash token : String)
    (now : Instant) : Tx Reply := do
  let _ : Nat ← send (.consumeStepUpChallenge challenge.idHash now.millis)
  elevateSession setup challenge subject sessionHash token now

def verifyStepUp (setup : Setup) (subject sessionHash challengeID code token : String) (now : Instant) :
    Tx Reply :=
  if GoText.isBlank challengeID || GoText.isBlank code then .fail .challenge
  else do
    let found : Option StepUpChallengeRow ← send (.selectStepUpChallenge (setup.tokenHash challengeID))
    match found.filter (isOpenStepUp setup subject sessionHash now) with
    | none => .fail .challenge
    | some challenge =>
      let required : Option CredentialRow ← send (.selectRequiredCredential subject)
      match required with
      | none => .fail .challenge
      | some credential =>
        let valid : Bool ← consumeFactor setup subject credential code now
        if valid then completeStepUp setup challenge subject sessionHash token now
        else failStepUp setup challenge now

def verifyCurrentPassword (setup : Setup) (principalID password : String) : Tx CredentialRow := do
  let active : Bool ← send (.selectActivePrincipal principalID)
  if !active then .fail .invalidCredentials
  else
    let found : Option CredentialRow ← send (.selectCredential principalID)
    match found with
    | none => .fail .loadCredential
    | some credential =>
      match setup.verifyPassword credential.passwordHash password with
      | none => .fail .verifyPassword
      | some valid => if valid then pure credential else .fail .invalidCredentials

/-- The checks and the consumption that the renewal and the removal share. -/
def confirmFactor (setup : Setup) (subject password code : String) (now : Instant) : Tx Unit := do
  let credential : CredentialRow ← verifyCurrentPassword setup subject password
  if !credential.mfaRequired then .fail .notEnabled
  else
    let required : Option CredentialRow ← send (.selectRequiredCredential subject)
    match required with
    | none => .fail .notEnabled
    | some current =>
      if setup.verifyPassword current.passwordHash password = some true then
        let valid : Bool ← consumeFactor setup subject current code now
        if valid then pure () else .fail .invalid
      else .fail .invalidCredentials

def recoveryCodeRows (setup : Setup) (subject : String) (codes : List String) (now : Instant) :
    List RecoveryCodeRow :=
  codes.map fun code =>
    { principalID := subject
      codeHash := setup.recoveryCodeHash (normalizeRecoveryCode setup code)
      createdAt := now.millis }

def regenerateRecoveryCodes (setup : Setup) (subject sessionHash password code : String)
    (codes : List String) (now : Instant) : Tx Reply := do
  confirmFactor setup subject password code now
  send (.deleteRecoveryCodes subject)
  send (.insertRecoveryCodes (recoveryCodeRows setup subject codes now))
  send (.revokeOtherSessions subject sessionHash now.millis)
  pure (.recoveryCodes codes)

def disableTOTP (setup : Setup) (subject sessionHash password code : String) (now : Instant) :
    Tx Reply := do
  confirmFactor setup subject password code now
  send (.resetCredential subject now.millis)
  send (.deleteRecoveryCodes subject)
  send (.deleteMfaChallenges subject)
  send (.revokeOtherSessions subject sessionHash now.millis)
  pure .disabled

def program (setup : Setup) (operation : Operation) : Tx Reply :=
  match operation.request with
  | .verifyLogin challengeID code token => verifyLoginMFA setup challengeID code token operation.now
  | .verifyStepUp subject sessionHash challengeID code token =>
    verifyStepUp setup subject sessionHash challengeID code token operation.now
  | .regenerate subject sessionHash password code codes =>
    regenerateRecoveryCodes setup subject sessionHash password code codes operation.now
  | .disable subject sessionHash password code =>
    disableTOTP setup subject sessionHash password code operation.now

end MfaService
