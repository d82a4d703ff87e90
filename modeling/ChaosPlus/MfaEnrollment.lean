import ChaosPlus.PasswordLogin
import ChaosPlus.PolicyConditionMeaning

/-!
# Enrollment of a second factor

A factor is enrolled in two calls and confirmed with a first code, renewed and removed with a
password and a code, and a login may demand one that is not there yet. Whole calls come one
after another here. The subject of a call is the one that its caller authenticated as; what a
call draws at random is given with it.
-/
namespace MfaEnrollment

open InterleavedTransactions KeyedTable MfaStore OneTimeFactors StepRuns StatementKinds
open AccountStore (PrincipalRow)
open MfaService (Instant MfaError Tx)
open PolicyConditionMeaning (bind_eq_ok)
open PolicyStore (Millis)

/-- The columns of a credential that only logins and the recovery write. -/
structure LoginColumns where
  failedAttempts : Nat := 0
  lockedUntil : Millis := 0
  recoveryCooldownUntil : Millis := 0
  deriving DecidableEq, Repr

structure MfaEnrollmentRow where
  principalID : String
  secretCiphertext : String
  createdAt : Millis
  expiresAt : Millis
  deriving DecidableEq, Repr

/-- A deployment. What is encrypted for a principal is decrypted for it, and the empty text is
no ciphertext. `generateSecret` fails without the name of an account. -/
structure Setup extends PasswordLogin.Setup where
  enrollmentTTL : Nat
  recoveryCodes : Nat
  generateSecret : String → String → Option String
  /-- With the principal, the nonce and the secret. -/
  encryptMFASecret : String → String → String → String
  decrypts : ∀ principalID nonce secret,
    factors.decryptMFASecret principalID (encryptMFASecret principalID nonce secret) = some secret
  noCiphertext : ∀ principalID, factors.decryptMFASecret principalID "" = none

/-- `requireMFA` is the policy that holds now. -/
structure Service where
  clock : Instant
  requireMFA : Bool
  principals : Table PrincipalRow.id := .empty
  serviceAccounts : List String := []
  store : Db := {}
  logins : String → LoginColumns := fun _ => {}
  enrollments : Table MfaEnrollmentRow.principalID := .empty

/-! ## Logins -/

/-- What a login brings and draws, and whether the statement of the policy fails. -/
structure Login where
  loginName : String
  password : String
  returnURL : String := ""
  token : String := ""
  policyFails : Bool := false
  deriving DecidableEq, Repr

inductive LoginError where
  | returnURL
  | invalidCredentials
  | readCredential
  | verifyCredential
  | additionalVerification
  | createChallenge
  | createSession
  deriving DecidableEq, Repr

inductive LoginResult where
  | authenticated (returnURL sessionID : String)
  | mfaRequired (returnURL challengeID : String) (expiresAt : Millis)
  deriving DecidableEq, Repr

/-- What the check of the password comes to. -/
inductive Checked where
  | refused (error : LoginError)
  | wrong (principalID : String)
  | passed (principalID : String) (credential : CredentialRow) (returnURL : String)
  deriving DecidableEq, Repr

section Calls

variable (setup : Setup) (s : Service)

def isLogin (loginName : String) (row : PrincipalRow) : Bool :=
  row.loginName = loginName && !s.serviceAccounts.contains row.id

def isDenied (principal : PrincipalRow) : Bool :=
  principal.status ≠ .active || principal.activationRequired ||
    s.clock.millis < (s.logins principal.id).lockedUntil

def checkLogin (login : Login) : Checked :=
  let returnURL := PasswordLogin.returnURLOf setup.toSetup login.returnURL
  if returnURL ∉ setup.allowedReturnURLs then .refused .returnURL
  else
    match s.principals.rows.find? (isLogin s (PasswordLogin.normalizeLogin setup.toSetup login.loginName)) with
    | none => .refused .invalidCredentials
    | some principal =>
      match s.store.credentials principal.id with
      | none => .refused .readCredential
      | some credential =>
        if isDenied s principal then .refused .invalidCredentials
        else
          match setup.factors.verifyPassword credential.passwordHash login.password with
          | none => .refused .verifyCredential
          | some false => .wrong principal.id
          | some true => .passed principal.id credential returnURL

def putCredential (principalID : String) (row : CredentialRow) : Service :=
  { s with store := { s.store with
      credentials := Function.update s.store.credentials principalID (some row) } }

/-- An update of the credential that is there. -/
def updateCredential (principalID : String) (change : CredentialRow → CredentialRow) : Service :=
  match s.store.credentials principalID with
  | none => s
  | some row => putCredential s principalID (change row)

def touch (row : CredentialRow) : CredentialRow := { row with updatedAt := s.clock.millis }

def requireFactor (row : CredentialRow) : CredentialRow :=
  { row with mfaRequired := true, updatedAt := s.clock.millis }

def setLogins (principalID : String) (change : LoginColumns → LoginColumns) : Service :=
  { s with logins := Function.update s.logins principalID (change (s.logins principalID)) }

/-- Counts the attempt, or locks where it was the last one. -/
def countFailure (columns : LoginColumns) : LoginColumns :=
  if setup.maxFailedAttempts ≤ columns.failedAttempts + 1 then
    { columns with failedAttempts := 0, lockedUntil := s.clock.millis + setup.lockDuration }
  else { columns with failedAttempts := columns.failedAttempts + 1, lockedUntil := 0 }

def failLogin (principalID : String) : Service :=
  setLogins (updateCredential s principalID (touch s)) principalID (countFailure setup s)

def resetFailures (principalID : String) : Service :=
  setLogins (updateCredential s principalID (touch s)) principalID fun columns =>
    { columns with failedAttempts := 0, lockedUntil := 0 }

/-- The policy demands a factor of a credential that has none. -/
def lacksFactor (credential : CredentialRow) : Bool :=
  s.requireMFA && credential.totpSecret = "" && !credential.mfaRequired

def createLoginChallenge (principalID returnURL token : String) : Except LoginError LoginResult × Service :=
  let expiresAt := s.clock.millis + setup.challengeTTL
  match (s.store.mfaChallenges.deleteWhere (PasswordLogin.isStale principalID s.clock)).insert?
      { idHash := setup.factors.tokenHash token, principalID, returnURL, expiresAt } with
  | none => (.error .createChallenge, s)
  | some mfaChallenges =>
    (.ok (.mfaRequired returnURL token expiresAt), { s with store := { s.store with mfaChallenges } })

def createSession (principalID returnURL token : String) : Except LoginError LoginResult × Service :=
  match SessionLifetime.insertSession setup.factors s.store token principalID s.clock
      ⟨s.clock.millis, 1, ["pwd"]⟩ with
  | none => (.error .createSession, s)
  | some store => (.ok (.authenticated returnURL token), { s with store })

/-- The answer to a login with the credential as it has been read and marked. -/
def answer (principalID : String) (credential : CredentialRow) (returnURL token : String) :
    Except LoginError LoginResult × Service :=
  if credential.mfaRequired then
    if credential.totpSecret = "" then (.error .additionalVerification, s)
    else createLoginChallenge setup s principalID returnURL token
  else createSession setup s principalID returnURL token

/-- A failure of the statement that marks the credential is logged, and the login goes on. -/
def enforcePolicy (principalID : String) (credential : CredentialRow) (policyFails : Bool) :
    CredentialRow × Service :=
  if lacksFactor s credential && !policyFails then
    ({ credential with mfaRequired := true }, updateCredential s principalID (requireFactor s))
  else (credential, s)

def beginLogin (login : Login) : Except LoginError LoginResult × Service :=
  match checkLogin setup s login with
  | .refused error => (.error error, s)
  | .wrong principalID => (.error .invalidCredentials, failLogin setup s principalID)
  | .passed principalID credential returnURL =>
    let (credential, s) := enforcePolicy (resetFailures s principalID) principalID credential login.policyFails
    answer setup s principalID credential returnURL login.token

/-! ## Enrollment -/

inductive EnrollmentError where
  | loadCooldown
  | recoveryCooldown
  | refused (error : MfaError)
  | alreadyOn
  | generateSecret
  | enrollment
  deriving DecidableEq, Repr

structure MFAEnrollment where
  secret : String
  expiresAt : Millis
  deriving DecidableEq, Repr

/-- The codes that a call generates. -/
def RecoveryCodes : Type := { codes : List String // codes.length = setup.recoveryCodes }

def accountName (principalID : String) : String :=
  ((s.principals.find? principalID).map PrincipalRow.loginName).getD ""

/-- A refusal is the one that the call itself names. -/
def refusal {α : Type} (result : Except MfaError α) : Except EnrollmentError α :=
  result.mapError EnrollmentError.refused

def ensureRecoveryCooldownExpired (subject : String) : Except EnrollmentError Unit :=
  if s.store.credentials subject = none then .error .loadCooldown
  else if s.clock.millis < (s.logins subject).recoveryCooldownUntil then .error .recoveryCooldown
  else .ok ()

def beginTOTPEnrollment (subject currentPassword seed nonce : String) :
    Except EnrollmentError (MFAEnrollment × Service) := do
  ensureRecoveryCooldownExpired s subject
  let (credential, _) ← refusal
    (alone store (MfaService.verifyCurrentPassword setup.factors subject currentPassword) s.store)
  if credential.mfaRequired then .error .alreadyOn
  else
    match setup.generateSecret (accountName s subject) seed with
    | none => .error .generateSecret
    | some secret =>
      let row : MfaEnrollmentRow :=
        { principalID := subject
          secretCiphertext := setup.encryptMFASecret subject nonce secret
          createdAt := s.clock.millis
          expiresAt := s.clock.millis + setup.enrollmentTTL }
      .ok (⟨secret, row.expiresAt⟩, { s with enrollments := s.enrollments.put row })

def replaceRecoveryCodes (subject : String) (codes : RecoveryCodes setup) (now : Instant) : Tx Unit := do
  MfaService.send (.deleteRecoveryCodes subject)
  MfaService.send (.insertRecoveryCodes (MfaService.recoveryCodeRows setup.factors subject codes.val now))

/-- What the confirmation makes of the credential. -/
def enable (secretCiphertext : String) (step : Int) (now : Instant) (row : CredentialRow) : CredentialRow :=
  { row with
    totpSecret := secretCiphertext, mfaRequired := true, totpLastUsedStep := step
    updatedAt := now.millis }

def isPending (now : Instant) (row : MfaEnrollmentRow) : Bool := now.millis < row.expiresAt

/-- What follows once the code has been checked; the factor must not be on. -/
def enableTOTP (subject sessionHash : String) (enrollment : MfaEnrollmentRow) (step : Int)
    (codes : RecoveryCodes setup) : Except EnrollmentError (List String × Service) := do
  let (_, replaced) ← refusal (alone store (replaceRecoveryCodes setup subject codes s.clock) s.store)
  match (replaced.credentials subject).filter fun row => !row.mfaRequired with
  | none => .error .alreadyOn
  | some row =>
    let enabled : Db := { replaced with
      credentials := Function.update replaced.credentials subject
        (some (enable enrollment.secretCiphertext step s.clock row)) }
    let (_, revoked) ← refusal
      (alone store (MfaService.send (.revokeOtherSessions subject sessionHash s.clock.millis)) enabled)
    .ok (codes.val, { s with
      store := revoked
      enrollments := s.enrollments.deleteWhere fun row => row.principalID = subject })

def confirmTOTPEnrollment (subject sessionHash code : String) (codes : RecoveryCodes setup) :
    Except EnrollmentError (List String × Service) :=
  match (s.enrollments.find? subject).filter (isPending s.clock) with
  | none => .error .enrollment
  | some enrollment =>
    match setup.factors.decryptMFASecret subject enrollment.secretCiphertext with
    | none => .error (.refused .ciphertext)
    | some secret =>
      match MfaService.validateTOTP setup.factors code secret s.clock with
      | none => .error (.refused .invalid)
      | some step => enableTOTP setup s subject sessionHash enrollment step codes

/-- A refused call has left nothing behind. -/
def outcome {ε α : Type} (result : Except ε (α × Service)) : Service :=
  match result with
  | .error _ => s
  | .ok (_, t) => t

/-- A call that works on the tables of the factors alone. -/
def serve (request : MfaService.Request) : Service :=
  match alone store (MfaService.program setup.factors ⟨request, s.clock⟩) s.store with
  | .error _ => s
  | .ok (_, after) => { s with store := after }

def disableTOTP (subject sessionHash currentPassword code : String) : Service :=
  match alone store (MfaService.disableTOTP setup.factors subject sessionHash currentPassword code s.clock)
      s.store with
  | .error _ => s
  | .ok (_, after) =>
    { s with
      store := after
      enrollments := s.enrollments.deleteWhere fun row => row.principalID = subject }

def newCredential (passwordHash : String) : CredentialRow := ⟨passwordHash, "", false, 0, s.clock.millis, []⟩

/-- Other calls create accounts and change passwords. -/
def setPassword (principalID passwordHash : String) : Service :=
  match s.store.credentials principalID with
  | none => putCredential s principalID (newCredential s passwordHash)
  | some row => putCredential s principalID { row with passwordHash, updatedAt := s.clock.millis }

def isActive (principals : Table PrincipalRow.id) (principalID : String) : Bool :=
  (principals.find? principalID).any fun row => row.status = .active

end Calls

/-- The policy, the principals and the passwords change apart from these calls. -/
inductive Event (setup : Setup) where
  | passes (elapsed : Nat)
  | configure (requireMFA : Bool)
  | others (principals : Table PrincipalRow.id)
  | setPassword (principalID passwordHash : String)
  | startCooldown (principalID : String) (time : Millis)
  | beginLogin (login : Login)
  | verifyLogin (challengeID code token : String)
  | beginEnrollment (subject currentPassword seed nonce : String)
  | confirmEnrollment (subject sessionHash code : String) (codes : RecoveryCodes setup)
  | regenerate (subject sessionHash currentPassword code : String) (codes : RecoveryCodes setup)
  | disable (subject sessionHash currentPassword code : String)

section Run

variable (setup : Setup)

/-- No account is there at first. -/
def start (clock : Instant) (requireMFA : Bool) : Service := { clock, requireMFA }

def perform (s : Service) : Event setup → Service
  | .passes elapsed => { s with clock := SessionLifetime.Instant.later s.clock elapsed }
  | .configure requireMFA => { s with requireMFA }
  | .others principals => { s with principals, store := { s.store with active := isActive principals } }
  | .setPassword principalID passwordHash => setPassword s principalID passwordHash
  | .startCooldown principalID time =>
    setLogins s principalID fun columns => { columns with recoveryCooldownUntil := time }
  | .beginLogin login => (beginLogin setup s login).2
  | .verifyLogin challengeID code token => serve setup s (.verifyLogin challengeID code token)
  | .beginEnrollment subject currentPassword seed nonce =>
    outcome s (beginTOTPEnrollment setup s subject currentPassword seed nonce)
  | .confirmEnrollment subject sessionHash code codes =>
    outcome s (confirmTOTPEnrollment setup s subject sessionHash code codes)
  | .regenerate subject sessionHash currentPassword code codes =>
    serve setup s (.regenerate subject sessionHash currentPassword code codes.val)
  | .disable subject sessionHash currentPassword code =>
    disableTOTP setup s subject sessionHash currentPassword code

def step (s : Service) (e : Event setup) : Option Service := some (perform setup s e)

/-- The login marks a credential that has no factor. -/
def marks (s : Service) (login : Login) : Bool :=
  match checkLogin setup s login with
  | .passed _ credential _ => lacksFactor s credential && !login.policyFails
  | _ => false

def Marks (s : Service) (e : Event setup) : Prop := ∃ login, e = .beginLogin login ∧ marks setup s login = true

/-! ## States in which a credential can be used -/

/-- The principal has the rows of as many codes as are generated together. -/
def HasCodes (db : Db) (principalID : String) : Prop :=
  ∃ hashes : List String, hashes.Nodup ∧ hashes.length = setup.recoveryCodes ∧
    ∀ codeHash, db.recoveryCodes.hasKey (principalID, codeHash) = true ↔ codeHash ∈ hashes

/-- The secret can be decrypted, and the codes are there. -/
structure HasFactor (db : Db) (principalID : String) (credential : CredentialRow) : Prop where
  secret : ∃ secret, setup.factors.decryptMFASecret principalID credential.totpSecret = some secret
  codes : HasCodes setup db principalID

/-- From here the owner can begin an enrollment, and from there confirm it. -/
def CanEnroll (s : Service) (principalID : String) : Prop :=
  ∃ elapsed currentPassword seed nonce enrollment begun,
    beginTOTPEnrollment setup { s with clock := SessionLifetime.Instant.later s.clock elapsed } principalID
      currentPassword seed nonce = .ok (enrollment, begun) ∧
    ∃ elapsed sessionHash code codes result,
      confirmTOTPEnrollment setup { begun with clock := SessionLifetime.Instant.later begun.clock elapsed }
        principalID sessionHash code codes = .ok result

/-- No secret, no code that is left and no challenge that is open. -/
structure Bare (s : Service) (principalID : String) (credential : CredentialRow) : Prop where
  secret : credential.totpSecret = ""
  codes : ∀ row ∈ s.store.recoveryCodes, row.principalID = principalID → row.usedAt ≠ 0
  challenges : ∀ row ∈ s.store.mfaChallenges, row.principalID = principalID →
    MfaService.isOpenChallenge setup.factors s.clock row = false

def Usable (s : Service) : Prop :=
  ∀ principalID credential, s.store.credentials principalID = some credential →
    if credential.mfaRequired then
      HasFactor setup s.store principalID credential ∨ CanEnroll setup s principalID
    else Bare setup s principalID credential

end Run

/-! ## What most calls keep -/

section Kept

variable {db mid after : Db}

def factor (row : CredentialRow) : Bool × String := (row.mfaRequired, row.totpSecret)

/-- The factor of a credential, the presence of a code and the owner of a challenge stay. -/
def Kept : (k : Key) → Cell k → Cell k → Prop
  | .credential _, found, left => Option.map factor left = Option.map factor found
  | .recoveryCode _, found, left => Option.isSome left = Option.isSome found
  | .mfaChallenge _, found, left => Stays (fun row row' => row.principalID = row'.principalID) found left
  | .stepUpChallenge _, _, _ | .session _, _, _ => True

def Keeps (db after : Db) : Prop := ∀ k, Kept k (cell k db) (cell k after)

theorem Kept.refl : (k : Key) → (found : Cell k) → Kept k found found
  | .credential _, _ => rfl
  | .recoveryCode _, _ => rfl
  | .mfaChallenge _, found =>
    Stays.refl (R := fun row row' : MfaChallengeRow => row.principalID = row'.principalID) (fun _ => rfl) found
  | .stepUpChallenge _, _ => trivial
  | .session _, _ => trivial

theorem Keeps.refl (db : Db) : Keeps db db := fun k => Kept.refl k _

theorem Keeps.trans (h : Keeps db mid) (h' : Keeps mid after) : Keeps db after := by
  intro k
  have hfirst := h k
  have hsecond := h' k
  cases k with
  | credential => exact Eq.trans hsecond hfirst
  | recoveryCode => exact Eq.trans hsecond hfirst
  | mfaChallenge =>
    intro row hrow
    obtain ⟨between, hbetween, hsame⟩ := hsecond row hrow
    obtain ⟨old, hold, hsame'⟩ := hfirst between hbetween
    exact ⟨old, hold, hsame'.trans hsame⟩
  | stepUpChallenge | session => trivial

/-- The statements that leave factors, codes and challenges where they are. -/
def Keeping : Statement → Prop
  | .deleteRecoveryCodes _ | .insertRecoveryCodes _ | .resetCredential .. | .deleteMfaChallenges _ => False
  | _ => True

theorem Checks.keeping (q : Statement) (h : Checks q) : Keeping q := by
  cases q with
  | deleteRecoveryCodes | insertRecoveryCodes | resetCredential | deleteMfaChallenges => exact h
  | _ => trivial

theorem kept_of_effect {q : Statement} {ans : Answer q} {wrote : List Write} (hq : Keeping q)
    (h : effect q db = .ok (ans, wrote)) : ∀ w ∈ wrote, Kept w.key (cell w.key db) w.leaves := by
  cases q with
  | selectActivePrincipal | selectCredential | selectRequiredCredential | selectMfaChallenge
  | selectStepUpChallenge | selectSession =>
    obtain ⟨-, rfl⟩ := Prod.mk.inj (Except.ok.inj h)
    exact related_nil
  | acceptStep principalID step =>
    refine related_of_changeRow (Except.ok.inj h) fun row hfound _ => ?_
    change _ = Option.map factor (db.credentials principalID)
    rw [hfound]
    rfl
  | redeemCode principalID codeHash now =>
    refine related_of_changeRow (Except.ok.inj h) fun row hfound _ => ?_
    have hkey : row.key = (principalID, codeHash) := (Table.find?_eq_some.mp hfound).2
    change _ = Option.isSome (db.recoveryCodes.find? row.key)
    rw [hkey, hfound]
    rfl
  | countMfaAttempt idHash | consumeMfaChallenge idHash =>
    refine related_of_changeRow (Except.ok.inj h) fun row hfound _ => ?_
    have hkey : row.idHash = idHash := (Table.find?_eq_some.mp hfound).2
    change Stays _ (db.mfaChallenges.find? row.idHash) _
    rw [hkey, hfound]
    exact .some rfl
  | countStepUpAttempt | consumeStepUpChallenge | revokeSession =>
    exact related_of_changeRow (Except.ok.inj h) fun row _ _ => trivial
  | insertSession row =>
    have hinserted : insertSessionRow db row = .ok ((), wrote) := h
    unfold insertSessionRow at hinserted
    split_ifs at hinserted
    obtain ⟨-, rfl⟩ := Prod.mk.inj (Except.ok.inj hinserted)
    intro w hw
    obtain rfl := List.mem_singleton.mp hw
    trivial
  | revokeOtherSessions principalID currentSession now =>
    obtain ⟨-, rfl⟩ := Prod.mk.inj (Except.ok.inj h)
    intro w hw
    obtain ⟨row, -, rfl⟩ := List.mem_map.mp hw
    trivial
  | deleteRecoveryCodes | insertRecoveryCodes | resetCredential | deleteMfaChallenges => exact False.elim hq

theorem keeps_of_only {α : Type} {p : Tx α} {value : α} (hp : Only Keeping p)
    (h : alone store p db = .ok (value, after)) : Keeps db after :=
  Only.alone Keeps.refl Keeps.trans (fun hq heffect => related_view _ Kept.refl (kept_of_effect hq heffect)) hp h

theorem keeps_putCredential {principalID : String} {row : CredentialRow}
    (hsame : (db.credentials principalID).map factor = some (factor row)) :
    Keeps db { db with credentials := Function.update db.credentials principalID (some row) } := by
  refine related_view [.putCredential principalID row] Kept.refl fun w hw => ?_
  obtain rfl := List.mem_singleton.mp hw
  exact hsame.symm

theorem keeps_sessions (sessions : Table SessionRow.idHash) : Keeps db { db with sessions } := by
  intro k
  cases k with
  | session => trivial
  | _ => exact Kept.refl _ _

theorem keeps_active (active : String → Bool) : Keeps db { db with active } := by
  intro k
  cases k <;> exact Kept.refl _ _

variable {setup : MfaService.Setup} {now : Instant}

theorem keeping_completeLogin (challenge : MfaChallengeRow) (token : String) :
    Only Keeping (MfaService.completeLogin setup challenge token now) :=
  .bind (only_send trivial) fun _ => .bind (only_ite (only_pure _) (only_fail _)) fun _ =>
    .bind (only_send trivial) fun _ => only_pure _

theorem keeping_failLogin (challenge : MfaChallengeRow) :
    Only Keeping (MfaService.failLogin setup challenge now) :=
  .bind (only_send trivial) fun _ => .bind (only_ite (only_pure _) (only_fail _)) fun _ => only_pure _

theorem keeping_verifyLoginMFA (challengeID code token : String) :
    Only Keeping (MfaService.verifyLoginMFA setup challengeID code token now) := by
  refine only_ite (only_fail _) (.bind (only_send trivial) fun found => ?_)
  cases Option.filter (MfaService.isOpenChallenge setup now) found with
  | none => exact only_fail _
  | some challenge =>
    refine .bind (only_send trivial) fun required => ?_
    cases required with
    | none => exact only_fail _
    | some credential =>
      refine .bind ((checks_consumeFactor _ _ _).mono Checks.keeping) fun valid => ?_
      exact only_ite (keeping_completeLogin _ _) (keeping_failLogin _)

end Kept

/-! ## The invariant -/

section Invariant

variable {setup : Setup} {db mid after : Db} {principalID : String}

def Flagged (db : Db) (principalID : String) : Prop :=
  ∃ row, db.credentials principalID = some row ∧ row.mfaRequired = true

/-- Whoever has codes or challenges has the flag, and a factor with a secret is whole. -/
structure Sound (setup : Setup) (db : Db) : Prop where
  factor : ∀ principalID row, db.credentials principalID = some row → row.mfaRequired = true →
    row.totpSecret ≠ "" → HasFactor setup db principalID row
  secret : ∀ principalID row, db.credentials principalID = some row → row.mfaRequired = false →
    row.totpSecret = ""
  codes : ∀ key, db.recoveryCodes.hasKey key = true → Flagged db key.1
  challenges : ∀ idHash row, db.mfaChallenges.find? idHash = some row → Flagged db row.principalID

/-- Whoever has the flag has a secret. -/
def Complete (db : Db) : Prop :=
  ∀ principalID row, db.credentials principalID = some row → row.mfaRequired = true → row.totpSecret ≠ ""

theorem Keeps.credential {row : CredentialRow} (h : Keeps db after)
    (hrow : after.credentials principalID = some row) :
    ∃ old, db.credentials principalID = some old ∧ old.mfaRequired = row.mfaRequired ∧
      old.totpSecret = row.totpSecret := by
  have hsame : (after.credentials principalID).map MfaEnrollment.factor =
      (db.credentials principalID).map MfaEnrollment.factor := h (.credential principalID)
  rw [hrow] at hsame
  obtain ⟨old, hold, hfactor⟩ := Option.map_eq_some_iff.mp hsame.symm
  obtain ⟨hrequired, hsecret⟩ := Prod.mk.inj hfactor
  exact ⟨old, hold, hrequired, hsecret⟩

theorem Keeps.credential' {old : CredentialRow} (h : Keeps db after)
    (hold : db.credentials principalID = some old) :
    ∃ row, after.credentials principalID = some row ∧ row.mfaRequired = old.mfaRequired ∧
      row.totpSecret = old.totpSecret := by
  have hsame : (after.credentials principalID).map MfaEnrollment.factor =
      (db.credentials principalID).map MfaEnrollment.factor := h (.credential principalID)
  rw [hold] at hsame
  obtain ⟨row, hrow, hfactor⟩ := Option.map_eq_some_iff.mp hsame
  obtain ⟨hrequired, hsecret⟩ := Prod.mk.inj hfactor
  exact ⟨row, hrow, hrequired, hsecret⟩

theorem Keeps.flagged (h : Keeps db after) : Flagged after principalID ↔ Flagged db principalID := by
  constructor
  · rintro ⟨row, hrow, hrequired⟩
    obtain ⟨old, hold, hold', -⟩ := h.credential hrow
    exact ⟨old, hold, hold'.trans hrequired⟩
  · rintro ⟨old, hold, hrequired⟩
    obtain ⟨row, hrow, hrow', -⟩ := h.credential' hold
    exact ⟨row, hrow, hrow'.trans hrequired⟩

theorem Keeps.hasKey (h : Keeps db after) (key : String × String) :
    after.recoveryCodes.hasKey key = db.recoveryCodes.hasKey key := by
  have hsame : (after.recoveryCodes.find? key).isSome = (db.recoveryCodes.find? key).isSome :=
    h (.recoveryCode key)
  rwa [Table.find?_isSome, Table.find?_isSome] at hsame

theorem HasCodes.congr (h : HasCodes setup db principalID)
    (hsame : ∀ codeHash, after.recoveryCodes.hasKey (principalID, codeHash) =
      db.recoveryCodes.hasKey (principalID, codeHash)) : HasCodes setup after principalID := by
  obtain ⟨hashes, hnodup, hlength, hrows⟩ := h
  refine ⟨hashes, hnodup, hlength, fun codeHash => ?_⟩
  rw [hsame codeHash]
  exact hrows codeHash

theorem Sound.keeps (h : Sound setup db) (hkeeps : Keeps db after) : Sound setup after where
  factor p row hrow hrequired hsecret := by
    obtain ⟨old, hold, hrequired', hsecret'⟩ := hkeeps.credential hrow
    have hfactor := h.factor p old hold (hrequired'.trans hrequired) (by rwa [hsecret'])
    refine ⟨?_, hfactor.codes.congr fun codeHash => hkeeps.hasKey _⟩
    rw [← hsecret']
    exact hfactor.secret
  secret p row hrow hrequired := by
    obtain ⟨old, hold, hrequired', hsecret'⟩ := hkeeps.credential hrow
    exact hsecret'.symm.trans (h.secret p old hold (hrequired'.trans hrequired))
  codes key hkey := hkeeps.flagged.mpr (h.codes key (by rwa [← hkeeps.hasKey key]))
  challenges idHash row hrow := by
    obtain ⟨old, hold, hsame⟩ := hkeeps (.mfaChallenge idHash) row hrow
    rw [← hsame]
    exact hkeeps.flagged.mpr (h.challenges idHash old hold)

theorem Complete.keeps (h : Complete db) (hkeeps : Keeps db after) : Complete after := by
  intro p row hrow hrequired
  obtain ⟨old, hold, hrequired', hsecret⟩ := hkeeps.credential hrow
  rw [← hsecret]
  exact h p old hold (hrequired'.trans hrequired)

/-- The flag is set for a credential, or a credential is new. -/
theorem Sound.put {row : CredentialRow} (h : Sound setup db)
    (hfactor : row.mfaRequired = true → row.totpSecret ≠ "" → HasFactor setup db principalID row)
    (hbare : row.mfaRequired = false → row.totpSecret = "" ∧ ¬ Flagged db principalID) :
    Sound setup { db with credentials := Function.update db.credentials principalID (some row) } := by
  have hown : Function.update db.credentials principalID (some row) principalID = some row :=
    Function.update_self ..
  have hother : ∀ p, p ≠ principalID →
      Function.update db.credentials principalID (some row) p = db.credentials p :=
    fun p hp => Function.update_of_ne hp ..
  have hflagged : ∀ p, Flagged db p →
      Flagged { db with credentials := Function.update db.credentials principalID (some row) } p := by
    intro p hp
    by_cases hsame : p = principalID
    · subst hsame
      cases hrequired : row.mfaRequired with
      | true => exact ⟨row, hown, hrequired⟩
      | false => exact absurd hp (hbare hrequired).2
    · obtain ⟨old, hold, hrequired⟩ := hp
      exact ⟨old, (hother p hsame).trans hold, hrequired⟩
  refine ⟨fun p row' hrow hrequired hsecret => ?_, fun p row' hrow hrequired => ?_, fun key hkey => ?_,
    fun idHash challenge hchallenge => ?_⟩
  · by_cases hsame : p = principalID
    · subst hsame
      obtain rfl := Option.some.inj (hown.symm.trans hrow)
      obtain ⟨hdecrypts, hcodes⟩ := hfactor hrequired hsecret
      exact ⟨hdecrypts, hcodes⟩
    · obtain ⟨hdecrypts, hcodes⟩ := h.factor p row' ((hother p hsame).symm.trans hrow) hrequired hsecret
      exact ⟨hdecrypts, hcodes⟩
  · by_cases hsame : p = principalID
    · subst hsame
      obtain rfl := Option.some.inj (hown.symm.trans hrow)
      exact (hbare hrequired).1
    · exact h.secret p row' ((hother p hsame).symm.trans hrow) hrequired
  · exact hflagged _ (h.codes key hkey)
  · exact hflagged _ (h.challenges idHash challenge hchallenge)

theorem Complete.put {row : CredentialRow} (h : Complete db)
    (hrow : row.mfaRequired = true → row.totpSecret ≠ "") :
    Complete { db with credentials := Function.update db.credentials principalID (some row) } := by
  intro p row' hrow' hrequired
  by_cases hsame : p = principalID
  · subst hsame
    have hown : Function.update db.credentials p (some row) p = some row := Function.update_self ..
    obtain rfl := Option.some.inj (hown.symm.trans hrow')
    exact hrow hrequired
  · have hother : Function.update db.credentials principalID (some row) p = db.credentials p :=
      Function.update_of_ne hsame ..
    exact h p row' (hother.symm.trans hrow') hrequired

/-- A challenge is created for a principal that has the flag. -/
theorem Sound.challenge {mfaChallenges : Table MfaChallengeRow.idHash} (h : Sound setup db)
    (hflagged : Flagged db principalID)
    (hrows : ∀ row ∈ mfaChallenges, row ∈ db.mfaChallenges ∨ row.principalID = principalID) :
    Sound setup { db with mfaChallenges } where
  factor p row hrow hrequired hsecret := by
    obtain ⟨hdecrypts, hcodes⟩ := h.factor p row hrow hrequired hsecret
    exact ⟨hdecrypts, hcodes⟩
  secret := h.secret
  codes := h.codes
  challenges idHash row hrow := by
    obtain ⟨hmem, rfl⟩ := Table.find?_eq_some.mp hrow
    rcases hrows row hmem with hold | rfl
    · exact h.challenges row.idHash row (Table.find?_eq_some.mpr ⟨hold, rfl⟩)
    · exact hflagged

/-! ## The codes are replaced, the factor is removed -/

/-- The codes of one principal are generated anew. -/
structure Replaces (setup : Setup) (principalID : String) (db after : Db) : Prop where
  credentials : after.credentials = db.credentials
  challenges : ∀ idHash, after.mfaChallenges.find? idHash = db.mfaChallenges.find? idHash
  own : HasCodes setup after principalID
  others : ∀ key, key.1 ≠ principalID → after.recoveryCodes.hasKey key = db.recoveryCodes.hasKey key

/-- The factor, the codes and the challenges of one principal are gone. -/
structure Removes (principalID : String) (db after : Db) : Prop where
  own : ∀ row, after.credentials principalID = some row → row.mfaRequired = false ∧ row.totpSecret = ""
  others : ∀ p, p ≠ principalID → after.credentials p = db.credentials p
  codes : ∀ key, after.recoveryCodes.hasKey key = (db.recoveryCodes.hasKey key && key.1 ≠ principalID)
  challenges : ∀ idHash row, after.mfaChallenges.find? idHash = some row →
    db.mfaChallenges.find? idHash = some row ∧ row.principalID ≠ principalID

/-- Where new codes are there, the factor may be set; the others keep theirs. -/
theorem Sound.renew {credentials : String → Option CredentialRow} {row : CredentialRow}
    (h : Sound setup db) (hreplaces : Replaces setup principalID db after)
    (hothers : ∀ p, p ≠ principalID → credentials p = db.credentials p)
    (hrow : credentials principalID = some row) (hrequired : row.mfaRequired = true)
    (hdecrypts : row.totpSecret ≠ "" →
      ∃ secret, setup.factors.decryptMFASecret principalID row.totpSecret = some secret) :
    Sound setup { after with credentials } := by
  have hflagged : ∀ p, Flagged db p → Flagged { after with credentials } p := by
    intro p hp
    by_cases hsame : p = principalID
    · subst hsame
      exact ⟨row, hrow, hrequired⟩
    · obtain ⟨old, hold, hold'⟩ := hp
      exact ⟨old, (hothers p hsame).trans hold, hold'⟩
  refine ⟨fun p row' hrow' hrequired' hsecret => ?_, fun p row' hrow' hfree => ?_, fun key hkey => ?_,
    fun idHash challenge hchallenge => ?_⟩
  · by_cases hsame : p = principalID
    · subst hsame
      obtain rfl := Option.some.inj (hrow.symm.trans hrow')
      exact ⟨hdecrypts hsecret, hreplaces.own⟩
    · have hfactor := h.factor p row' ((hothers p hsame).symm.trans hrow') hrequired' hsecret
      exact ⟨hfactor.secret, hfactor.codes.congr fun codeHash => hreplaces.others (p, codeHash) hsame⟩
  · by_cases hsame : p = principalID
    · subst hsame
      obtain rfl := Option.some.inj (hrow.symm.trans hrow')
      rw [hrequired] at hfree
      cases hfree
    · exact h.secret p row' ((hothers p hsame).symm.trans hrow') hfree
  · by_cases hsame : key.1 = principalID
    · rw [hsame]
      exact ⟨row, hrow, hrequired⟩
    · exact hflagged _ (h.codes key ((hreplaces.others key hsame).symm.trans hkey))
  · have hold : db.mfaChallenges.find? idHash = some challenge :=
      (hreplaces.challenges idHash).symm.trans hchallenge
    exact hflagged _ (h.challenges idHash challenge hold)

theorem Complete.renew {credentials : String → Option CredentialRow} {row : CredentialRow}
    (h : Complete db) (hothers : ∀ p, p ≠ principalID → credentials p = db.credentials p)
    (hrow : credentials principalID = some row) (hsecret : row.totpSecret ≠ "") :
    Complete { after with credentials } := by
  intro p row' hrow' hrequired
  by_cases hsame : p = principalID
  · subst hsame
    obtain rfl := Option.some.inj (hrow.symm.trans hrow')
    exact hsecret
  · exact h p row' ((hothers p hsame).symm.trans hrow') hrequired

theorem Sound.removes (h : Sound setup db) (hremoves : Removes principalID db after) : Sound setup after := by
  have hflagged : ∀ p, p ≠ principalID → Flagged db p → Flagged after p := by
    rintro p hp ⟨row, hrow, hrequired⟩
    exact ⟨row, (hremoves.others p hp).trans hrow, hrequired⟩
  refine ⟨fun p row hrow hrequired hsecret => ?_, fun p row hrow hfree => ?_, fun key hkey => ?_,
    fun idHash challenge hchallenge => ?_⟩
  · by_cases hsame : p = principalID
    · subst hsame
      exact absurd (hremoves.own row hrow).2 hsecret
    · have hfactor := h.factor p row ((hremoves.others p hsame).symm.trans hrow) hrequired hsecret
      refine ⟨hfactor.secret, hfactor.codes.congr fun codeHash => ?_⟩
      rw [hremoves.codes (p, codeHash), decide_eq_true hsame, Bool.and_true]
  · by_cases hsame : p = principalID
    · subst hsame
      exact (hremoves.own row hrow).2
    · exact h.secret p row ((hremoves.others p hsame).symm.trans hrow) hfree
  · rw [hremoves.codes key] at hkey
    obtain ⟨hthere, hother⟩ := Bool.and_eq_true_iff.mp hkey
    exact hflagged _ (of_decide_eq_true hother) (h.codes key hthere)
  · obtain ⟨hold, hother⟩ := hremoves.challenges idHash challenge hchallenge
    exact hflagged _ hother (h.challenges idHash challenge hold)

theorem Complete.removes (h : Complete db) (hremoves : Removes principalID db after) : Complete after := by
  intro p row hrow hrequired
  by_cases hsame : p = principalID
  · subst hsame
    rw [(hremoves.own row hrow).1] at hrequired
    cases hrequired
  · exact h p row ((hremoves.others p hsame).symm.trans hrow) hrequired

end Invariant

/-! ## The statements that delete and insert -/

section Statements

variable {setup : Setup} {db mid after : Db} {principalID : String}

/-- What a statement that is alone leaves in a row is what its last write of the row says. -/
theorem cell_of_send {q : Statement} {ans : Answer q}
    (h : alone store (MfaService.send q) db = .ok (ans, after)) :
    ∃ wrote, effect q db = .ok (ans, wrote) ∧
      (∀ k, (∀ w ∈ wrote, w.key ≠ k) → cell k after = cell k db) ∧
      ∀ k, (∃ w ∈ wrote, w.key = k) → ∃ w ∈ wrote, w.key = k ∧ cell w.key after = w.leaves := by
  obtain ⟨wrote, heffect, rfl⟩ := alone_query_ok h
  refine ⟨wrote, heffect, fun k hk => rows.row_view_other hk, fun k hk => ?_⟩
  obtain ⟨w, hw, rfl, hleaves⟩ := cell_view_of_key hk
  exact ⟨w, hw, rfl, hleaves⟩

theorem deleted_recoveryCodes {u : Unit}
    (h : alone store (MfaService.send (.deleteRecoveryCodes principalID)) db = .ok (u, after)) :
    (∀ k, (∀ codeHash, Key.recoveryCode (principalID, codeHash) ≠ k) → cell k after = cell k db) ∧
      ∀ codeHash, after.recoveryCodes.find? (principalID, codeHash) = none := by
  obtain ⟨wrote, heffect, hkeeps, hwrites⟩ := cell_of_send h
  obtain ⟨-, rfl⟩ := Prod.mk.inj (Except.ok.inj heffect)
  refine ⟨fun k hk => hkeeps k fun w hw => ?_, fun codeHash => ?_⟩
  · obtain ⟨row, hrow, rfl⟩ := List.mem_map.mp hw
    have howner : row.principalID = principalID := of_decide_eq_true (List.mem_filter.mp hrow).2
    have hkey := hk row.codeHash
    rw [← howner] at hkey
    exact hkey
  · cases hfound : db.recoveryCodes.find? (principalID, codeHash) with
    | none =>
      have hsame : cell (.recoveryCode (principalID, codeHash)) after =
          cell (.recoveryCode (principalID, codeHash)) db := by
        refine hkeeps _ fun w hw hkey => ?_
        obtain ⟨row, hrow, rfl⟩ := List.mem_map.mp hw
        exact Table.find?_eq_none.mp hfound row (List.mem_filter.mp hrow).1 (Key.recoveryCode.inj hkey)
      exact Eq.trans hsame hfound
    | some row =>
      obtain ⟨hmem, hkey⟩ := Table.find?_eq_some.mp hfound
      have howner : row.principalID = principalID := congrArg Prod.fst hkey
      obtain ⟨w, hw, hkey', hleaves⟩ := hwrites (.recoveryCode (principalID, codeHash))
        ⟨.deleteRecoveryCode row.key, List.mem_map.mpr ⟨row, List.mem_filter.mpr
          ⟨hmem, decide_eq_true howner⟩, rfl⟩, congrArg Key.recoveryCode hkey⟩
      obtain ⟨other, -, rfl⟩ := List.mem_map.mp hw
      obtain hsame : other.key = (principalID, codeHash) := Key.recoveryCode.inj hkey'
      have hgone : after.recoveryCodes.find? other.key = none := hleaves
      rwa [hsame] at hgone

theorem inserted_recoveryCodes {codes : RecoveryCodes setup} {now : Instant} {u : Unit}
    (hnone : ∀ codeHash, db.recoveryCodes.find? (principalID, codeHash) = none)
    (h : alone store (MfaService.send (.insertRecoveryCodes
      (MfaService.recoveryCodeRows setup.factors principalID codes.val now))) db = .ok (u, after)) :
    (∀ k, (∀ codeHash, Key.recoveryCode (principalID, codeHash) ≠ k) → cell k after = cell k db) ∧
      HasCodes setup after principalID := by
  obtain ⟨wrote, heffect, hkeeps, hwrites⟩ := cell_of_send h
  have hinserted : insertRecoveryCodeRows db
      (MfaService.recoveryCodeRows setup.factors principalID codes.val now) = .ok ((), wrote) := heffect
  unfold insertRecoveryCodeRows at hinserted
  split_ifs at hinserted with hfree
  obtain ⟨-, rfl⟩ := Prod.mk.inj (Except.ok.inj hinserted)
  let hash : String → String := fun code =>
    setup.factors.recoveryCodeHash (MfaService.normalizeRecoveryCode setup.factors code)
  have hkeys : (MfaService.recoveryCodeRows setup.factors principalID codes.val now).map RecoveryCodeRow.key =
      (codes.val.map hash).map fun codeHash => (principalID, codeHash) := by
    simp only [MfaService.recoveryCodeRows, List.map_map]
    rfl
  have hnodup : (codes.val.map hash).Nodup := by
    have hpairs := hfree.1
    rw [hkeys] at hpairs
    exact hpairs.of_map _
  have howner : ∀ row ∈ MfaService.recoveryCodeRows setup.factors principalID codes.val now,
      row.key = (principalID, row.codeHash) := by
    intro row hrow
    obtain ⟨code, -, rfl⟩ := List.mem_map.mp hrow
    rfl
  refine ⟨fun k hk => hkeeps k fun w hw => ?_, codes.val.map hash, hnodup, ?_, fun codeHash => ?_⟩
  · obtain ⟨row, hrow, rfl⟩ := List.mem_map.mp hw
    have hkey := hk row.codeHash
    rw [← howner row hrow] at hkey
    exact hkey
  · rw [List.length_map]
    exact codes.property
  · rw [← Table.find?_isSome]
    have hmem : codeHash ∈ codes.val.map hash ↔
        ∃ row ∈ MfaService.recoveryCodeRows setup.factors principalID codes.val now,
          row.key = (principalID, codeHash) := by
      rw [← List.mem_map, hkeys]
      constructor
      · intro hcode
        exact List.mem_map.mpr ⟨codeHash, hcode, rfl⟩
      · intro hpairs
        obtain ⟨other, hother, hpair⟩ := List.mem_map.mp hpairs
        obtain rfl : other = codeHash := congrArg Prod.snd hpair
        exact hother
    rw [hmem]
    constructor
    · intro hsome
      by_contra hmissing
      have hsame : cell (.recoveryCode (principalID, codeHash)) after =
          cell (.recoveryCode (principalID, codeHash)) db := by
        refine hkeeps _ fun w hw hkey => hmissing ?_
        obtain ⟨row, hrow, rfl⟩ := List.mem_map.mp hw
        exact ⟨row, hrow, Key.recoveryCode.inj hkey⟩
      have hfound : after.recoveryCodes.find? (principalID, codeHash) = none := Eq.trans hsame (hnone codeHash)
      rw [hfound] at hsome
      cases hsome
    · rintro ⟨row, hrow, hkey⟩
      obtain ⟨w, hw, hkey', hleaves⟩ := hwrites (.recoveryCode (principalID, codeHash))
        ⟨.putRecoveryCode row, List.mem_map.mpr ⟨row, hrow, rfl⟩, congrArg Key.recoveryCode hkey⟩
      obtain ⟨other, -, rfl⟩ := List.mem_map.mp hw
      have hsame : other.key = (principalID, codeHash) := Key.recoveryCode.inj hkey'
      have hput : after.recoveryCodes.find? other.key = some other := hleaves
      rw [hsame] at hput
      rw [hput]
      rfl

theorem replaces_of_alone {codes : RecoveryCodes setup} {now : Instant} {u v : Unit}
    (hdelete : alone store (MfaService.send (.deleteRecoveryCodes principalID)) db = .ok (u, mid))
    (hinsert : alone store (MfaService.send (.insertRecoveryCodes
      (MfaService.recoveryCodeRows setup.factors principalID codes.val now))) mid = .ok (v, after)) :
    Replaces setup principalID db after := by
  obtain ⟨hkept, hnone⟩ := deleted_recoveryCodes hdelete
  obtain ⟨hkept', hcodes⟩ := inserted_recoveryCodes hnone hinsert
  have hsame : ∀ k, (∀ codeHash, Key.recoveryCode (principalID, codeHash) ≠ k) → cell k after = cell k db :=
    fun k hk => (hkept' k hk).trans (hkept k hk)
  refine ⟨funext fun p => hsame (.credential p) nofun, fun idHash => hsame (.mfaChallenge idHash) nofun,
    hcodes, fun key hother => ?_⟩
  have hfound : after.recoveryCodes.find? key = db.recoveryCodes.find? key := by
    refine hsame (.recoveryCode key) fun codeHash hkey => hother ?_
    rw [← Key.recoveryCode.inj hkey]
  rw [← Table.find?_isSome, ← Table.find?_isSome, hfound]

theorem reset_credential {now : PolicyStore.Millis} {u : Unit}
    (h : alone store (MfaService.send (.resetCredential principalID now)) db = .ok (u, after)) :
    (∀ k, k ≠ .credential principalID → cell k after = cell k db) ∧
      ∀ row, after.credentials principalID = some row → row.mfaRequired = false ∧ row.totpSecret = "" := by
  obtain ⟨wrote, heffect, hkeeps, hwrites⟩ := cell_of_send h
  obtain ⟨-, rfl⟩ := Prod.mk.inj (Except.ok.inj heffect)
  cases hfound : db.credentials principalID with
  | none =>
    refine ⟨fun k _ => hkeeps k (by simp [changeRow, hfound]), fun row hrow => ?_⟩
    have hsame : after.credentials principalID = db.credentials principalID :=
      hkeeps (.credential principalID) (by simp [changeRow, hfound])
    rw [hsame, hfound] at hrow
    cases hrow
  | some old =>
    refine ⟨fun k hk => hkeeps k fun w hw => ?_, fun row hrow => ?_⟩
    · simp only [changeRow, hfound, if_true, List.mem_singleton] at hw
      rw [hw]
      exact fun hkey => hk hkey.symm
    · obtain ⟨w, hw, -, hleaves⟩ := hwrites (.credential principalID)
        ⟨.putCredential principalID (old.reset now), by simp [changeRow, hfound], rfl⟩
      simp only [changeRow, hfound, if_true, List.mem_singleton] at hw
      rw [hw] at hleaves
      have hput : after.credentials principalID = some (old.reset now) := hleaves
      obtain rfl := Option.some.inj (hput.symm.trans hrow)
      exact ⟨rfl, rfl⟩

theorem deleted_challenges {u : Unit}
    (h : alone store (MfaService.send (.deleteMfaChallenges principalID)) db = .ok (u, after)) :
    (∀ k, (∀ idHash, k ≠ .mfaChallenge idHash) → cell k after = cell k db) ∧
      ∀ idHash row, after.mfaChallenges.find? idHash = some row →
        db.mfaChallenges.find? idHash = some row ∧ row.principalID ≠ principalID := by
  obtain ⟨wrote, heffect, hkeeps, hwrites⟩ := cell_of_send h
  obtain ⟨-, rfl⟩ := Prod.mk.inj (Except.ok.inj heffect)
  refine ⟨fun k hk => hkeeps k fun w hw hkey => ?_, fun idHash row hrow => ?_⟩
  · obtain ⟨row, -, rfl⟩ := List.mem_map.mp hw
    exact hk row.idHash hkey.symm
  · by_cases hdeleted : ∃ old ∈ db.mfaChallenges, old.idHash = idHash ∧ old.principalID = principalID
    · obtain ⟨old, hold, hid, howner⟩ := hdeleted
      obtain ⟨w, hw, hkey, hleaves⟩ := hwrites (.mfaChallenge idHash)
        ⟨.deleteMfaChallenge old.idHash, List.mem_map.mpr ⟨old, List.mem_filter.mpr
          ⟨hold, decide_eq_true howner⟩, rfl⟩, congrArg Key.mfaChallenge hid⟩
      obtain ⟨other, -, rfl⟩ := List.mem_map.mp hw
      have hgone : after.mfaChallenges.find? other.idHash = none := hleaves
      rw [Key.mfaChallenge.inj hkey, hrow] at hgone
      cases hgone
    · have hsame : after.mfaChallenges.find? idHash = db.mfaChallenges.find? idHash := by
        refine hkeeps (.mfaChallenge idHash) fun w hw hkey => hdeleted ?_
        obtain ⟨old, hold, rfl⟩ := List.mem_map.mp hw
        obtain ⟨hmem, howner⟩ := List.mem_filter.mp hold
        exact ⟨old, hmem, Key.mfaChallenge.inj hkey, of_decide_eq_true howner⟩
      rw [hsame] at hrow
      obtain ⟨hmem, hid⟩ := Table.find?_eq_some.mp hrow
      exact ⟨hrow, fun howner => hdeleted ⟨row, hmem, hid, howner⟩⟩

theorem removes_of_alone {now : PolicyStore.Millis} {u v w : Unit} {codeless : Db}
    (hreset : alone store (MfaService.send (.resetCredential principalID now)) db = .ok (u, mid))
    (hcodes : alone store (MfaService.send (.deleteRecoveryCodes principalID)) mid = .ok (v, codeless))
    (hchallenges : alone store (MfaService.send (.deleteMfaChallenges principalID)) codeless = .ok (w, after)) :
    Removes principalID db after := by
  obtain ⟨hkept, hown⟩ := reset_credential hreset
  obtain ⟨hkept', hnone⟩ := deleted_recoveryCodes hcodes
  obtain ⟨hkept'', hgone⟩ := deleted_challenges hchallenges
  have hcredentials : ∀ p, after.credentials p = mid.credentials p := fun p =>
    (hkept'' (.credential p) (by simp)).trans (hkept' (.credential p) (by simp))
  refine ⟨fun row hrow => hown row ((hcredentials principalID).symm.trans hrow), fun p hp => ?_,
    fun key => ?_, fun idHash row hrow => ?_⟩
  · exact (hcredentials p).trans (hkept (.credential p) fun hkey => hp (Key.credential.inj hkey))
  · have hlast : after.recoveryCodes.find? key = codeless.recoveryCodes.find? key :=
      hkept'' (.recoveryCode key) (by simp)
    rw [← Table.find?_isSome, ← Table.find?_isSome, hlast]
    by_cases hsame : key.1 = principalID
    · have hmissing : codeless.recoveryCodes.find? key = none := by
        rw [← hnone key.2, ← hsame]
      simp [hmissing, hsame]
    · have hmiddle : codeless.recoveryCodes.find? key = mid.recoveryCodes.find? key := by
        refine hkept' (.recoveryCode key) fun codeHash hkey => hsame ?_
        rw [← Key.recoveryCode.inj hkey]
      have hfirst : mid.recoveryCodes.find? key = db.recoveryCodes.find? key := hkept (.recoveryCode key) (by simp)
      rw [hmiddle, hfirst, decide_eq_true hsame, Bool.and_true]
  · obtain ⟨hold, hother⟩ := hgone idHash row hrow
    have hmiddle : codeless.mfaChallenges.find? idHash = mid.mfaChallenges.find? idHash :=
      hkept' (.mfaChallenge idHash) (by simp)
    have hfirst : mid.mfaChallenges.find? idHash = db.mfaChallenges.find? idHash :=
      hkept (.mfaChallenge idHash) (by simp)
    exact ⟨(hmiddle.trans hfirst).symm.trans hold, hother⟩

end Statements

/-! ## The calls -/

section Calls

variable {setup : Setup} {s t : Service} {db after : Db} {subject sessionHash currentPassword code : String}
  {now : Instant}

/-- What is left is sound, and no flag has lost its secret. -/
structure Fine (setup : Setup) (db after : Db) : Prop where
  sound : Sound setup after
  complete : Complete db → Complete after

theorem Fine.of_keeps (h : Sound setup db) (hkeeps : Keeps db after) : Fine setup db after :=
  ⟨h.keeps hkeeps, fun hcomplete => hcomplete.keeps hkeeps⟩

theorem Fine.refl (h : Sound setup db) : Fine setup db db := .of_keeps h (.refl db)

theorem Fine.trans {mid : Db} (h : Fine setup db mid) (h' : Fine setup mid after) : Fine setup db after :=
  ⟨h'.sound, fun hcomplete => h'.complete (h.complete hcomplete)⟩

theorem confirmFactor_alone
    (h : alone store (MfaService.confirmFactor setup.factors subject currentPassword code now) db =
      .ok ((), after)) : Keeps db after ∧ Flagged db subject := by
  refine ⟨keeps_of_only ((checks_confirmFactor _ _ _).mono Checks.keeping) h, ?_⟩
  obtain ⟨credential, read, hverify, hrest⟩ := alone_bind_ok h
  have hread : Keeps db read := keeps_of_only ((checks_verifyCurrentPassword _ _).mono Checks.keeping) hverify
  split_ifs at hrest
  · cases hrest
  obtain ⟨required, selected, hselect, hrest⟩ := alone_bind_ok hrest
  obtain ⟨wrote, heffect, rfl⟩ := alone_query_ok hselect
  cases required with
  | none => cases hrest
  | some current =>
    have hfound : (read.credentials subject).filter (fun row => row.mfaRequired) = some current :=
      (Prod.mk.inj (Except.ok.inj heffect)).1
    obtain ⟨hcurrent, hrequired⟩ := Option.filter_eq_some_iff.mp hfound
    exact hread.flagged.mp ⟨current, hcurrent, hrequired⟩

theorem keeps_revoke {u : Unit} {time : PolicyStore.Millis}
    (h : alone store (MfaService.send (.revokeOtherSessions subject sessionHash time)) db = .ok (u, after)) :
    Keeps db after :=
  keeps_of_only (only_send (q := .revokeOtherSessions subject sessionHash time) trivial) h

theorem regenerate_alone {codes : RecoveryCodes setup} {reply : MfaService.Reply} (hsound : Sound setup db)
    (h : alone store (MfaService.regenerateRecoveryCodes setup.factors subject sessionHash currentPassword code
      codes.val now) db = .ok (reply, after)) : Fine setup db after := by
  obtain ⟨_, checked, hconfirm, hrest⟩ := alone_bind_ok h
  obtain ⟨_, deleted, hdelete, hrest⟩ := alone_bind_ok hrest
  obtain ⟨_, inserted, hinsert, hrest⟩ := alone_bind_ok hrest
  obtain ⟨_, revoked, hrevoke, hdone⟩ := alone_bind_ok hrest
  obtain ⟨-, rfl⟩ := alone_pure_ok hdone
  obtain ⟨hchecked, hflagged⟩ := confirmFactor_alone hconfirm
  have hfirst : Fine setup db checked := .of_keeps hsound hchecked
  obtain ⟨row, hrow, hrequired⟩ := hchecked.flagged.mpr hflagged
  have hreplaces : Replaces setup subject checked inserted := replaces_of_alone hdelete hinsert
  have hsecond : Fine setup checked inserted := by
    have hsame : inserted = { inserted with credentials := checked.credentials } := by
      rw [← hreplaces.credentials]
    rw [hsame]
    refine ⟨hfirst.sound.renew hreplaces (fun _ _ => rfl) hrow hrequired fun hsecret => ?_,
      fun hcomplete => ?_⟩
    · exact (hfirst.sound.factor subject row hrow hrequired hsecret).secret
    · exact hcomplete.renew (fun _ _ => rfl) hrow (hcomplete subject row hrow hrequired)
  exact (hfirst.trans hsecond).trans (.of_keeps hsecond.sound (keeps_revoke hrevoke))

theorem disable_alone {reply : MfaService.Reply} (hsound : Sound setup db)
    (h : alone store (MfaService.disableTOTP setup.factors subject sessionHash currentPassword code now) db =
      .ok (reply, after)) : Fine setup db after := by
  obtain ⟨_, checked, hconfirm, hrest⟩ := alone_bind_ok h
  obtain ⟨_, reset, hreset, hrest⟩ := alone_bind_ok hrest
  obtain ⟨_, codeless, hcodes, hrest⟩ := alone_bind_ok hrest
  obtain ⟨_, removed, hchallenges, hrest⟩ := alone_bind_ok hrest
  obtain ⟨_, revoked, hrevoke, hdone⟩ := alone_bind_ok hrest
  obtain ⟨-, rfl⟩ := alone_pure_ok hdone
  have hfirst : Fine setup db checked := .of_keeps hsound (confirmFactor_alone hconfirm).1
  have hremoves : Removes subject checked removed := removes_of_alone hreset hcodes hchallenges
  have hsecond : Fine setup checked removed :=
    ⟨hfirst.sound.removes hremoves, fun hcomplete => hcomplete.removes hremoves⟩
  exact (hfirst.trans hsecond).trans (.of_keeps hsecond.sound (keeps_revoke hrevoke))

/-- What is pending can be decrypted. -/
def Pending (setup : Setup) (s : Service) : Prop :=
  ∀ row ∈ s.enrollments, ∃ secret,
    setup.factors.decryptMFASecret row.principalID row.secretCiphertext = some secret

theorem refusal_ok {α : Type} {result : Except MfaError α} {value : α} (h : refusal result = .ok value) :
    result = .ok value := by
  cases result with
  | error error => cases h
  | ok found => exact congrArg Except.ok (Except.ok.inj h)

theorem verifyCurrentPassword_alone {credential : CredentialRow}
    (h : alone store (MfaService.verifyCurrentPassword setup.factors subject currentPassword) db =
      .ok (credential, after)) : db.credentials subject = some credential := by
  obtain ⟨active, checked, hactive, hrest⟩ := alone_bind_ok h
  obtain ⟨wrote, heffect, rfl⟩ := alone_query_ok hactive
  obtain ⟨-, rfl⟩ := Prod.mk.inj (Except.ok.inj heffect)
  split_ifs at hrest
  · cases hrest
  obtain ⟨found, read, hread, hrest⟩ := alone_bind_ok hrest
  obtain ⟨wrote, heffect, rfl⟩ := alone_query_ok hread
  obtain ⟨hfound, rfl⟩ := Prod.mk.inj (Except.ok.inj heffect)
  cases found with
  | none => cases hrest
  | some row =>
    cases hvalid : setup.factors.verifyPassword row.passwordHash currentPassword with
    | none =>
      simp only [hvalid] at hrest
      cases hrest
    | some valid =>
      simp only [hvalid] at hrest
      split_ifs at hrest
      · obtain ⟨rfl, -⟩ := alone_pure_ok hrest
        exact hfound
      · cases hrest

theorem begin_spec {seed nonce : String} {enrollment : MFAEnrollment}
    (h : beginTOTPEnrollment setup s subject currentPassword seed nonce = .ok (enrollment, t)) :
    ¬ Flagged s.store subject ∧ t.store = s.store ∧ (Pending setup s → Pending setup t) := by
  unfold beginTOTPEnrollment at h
  obtain ⟨_, -, h⟩ := bind_eq_ok h
  obtain ⟨⟨credential, read⟩, hverify, h⟩ := bind_eq_ok h
  have hcredential : s.store.credentials subject = some credential :=
    verifyCurrentPassword_alone (refusal_ok hverify)
  dsimp only at h
  split_ifs at h with hrequired
  have hfree : ¬ Flagged s.store subject := by
    rintro ⟨row, hrow, hflag⟩
    obtain rfl := Option.some.inj (hcredential.symm.trans hrow)
    exact hrequired hflag
  cases hsecret : setup.generateSecret (accountName s subject) seed with
  | none =>
    rw [hsecret] at h
    cases h
  | some secret =>
    rw [hsecret] at h
    obtain ⟨-, rfl⟩ := Prod.mk.inj (Except.ok.inj h)
    refine ⟨hfree, rfl, fun hpending row hrow => ?_⟩
    rcases Table.mem_put.mp hrow with rfl | ⟨hold, -⟩
    · exact ⟨secret, setup.decrypts subject nonce secret⟩
    · exact hpending row hold

theorem enable_spec {enrollment : MfaEnrollmentRow} {step : Int} {codes : RecoveryCodes setup}
    {shown : List String} {secret : String}
    (hsecret : setup.factors.decryptMFASecret subject enrollment.secretCiphertext = some secret)
    (h : enableTOTP setup s subject sessionHash enrollment step codes = .ok (shown, t)) :
    ¬ Flagged s.store subject ∧ (Pending setup s → Pending setup t) ∧
      (Sound setup s.store → Fine setup s.store t.store) := by
  unfold enableTOTP at h
  obtain ⟨⟨_, replaced⟩, hreplace, h⟩ := bind_eq_ok h
  obtain ⟨_, deleted, hdelete, hinsert⟩ := alone_bind_ok (refusal_ok hreplace)
  have hreplaces : Replaces setup subject s.store replaced := replaces_of_alone hdelete hinsert
  dsimp only at h
  cases hfound : (replaced.credentials subject).filter fun row => !row.mfaRequired with
  | none =>
    rw [hfound] at h
    cases h
  | some row =>
    simp only [hfound] at h
    obtain ⟨⟨_, revoked⟩, hrevoke, h⟩ := bind_eq_ok h
    obtain ⟨-, rfl⟩ := Prod.mk.inj (Except.ok.inj h)
    obtain ⟨hrow, hfree⟩ := Option.filter_eq_some_iff.mp hfound
    rw [hreplaces.credentials] at hrow
    refine ⟨?_, fun hall other hother => hall other (Table.mem_deleteWhere.mp hother).1, fun hsound => ?_⟩
    · rintro ⟨old, hold, hflag⟩
      obtain rfl := Option.some.inj (hrow.symm.trans hold)
      simp [hflag] at hfree
    · have hown : Function.update replaced.credentials subject
          (some (enable enrollment.secretCiphertext step s.clock row)) subject = some _ :=
        Function.update_self ..
      have hothers : ∀ p, p ≠ subject → Function.update replaced.credentials subject
          (some (enable enrollment.secretCiphertext step s.clock row)) p = s.store.credentials p := by
        intro p hp
        rw [Function.update_of_ne hp, hreplaces.credentials]
      have hnonempty : enrollment.secretCiphertext ≠ "" := by
        intro hempty
        rw [hempty, setup.noCiphertext subject] at hsecret
        cases hsecret
      have henabled : Fine setup s.store { replaced with
          credentials := Function.update replaced.credentials subject
            (some (enable enrollment.secretCiphertext step s.clock row)) } :=
        ⟨hsound.renew hreplaces hothers hown rfl fun _ => ⟨secret, hsecret⟩,
          fun hcomplete => hcomplete.renew hothers hown hnonempty⟩
      exact henabled.trans (.of_keeps henabled.sound (keeps_revoke (refusal_ok hrevoke)))

theorem confirm_spec {codes : RecoveryCodes setup} {shown : List String}
    (h : confirmTOTPEnrollment setup s subject sessionHash code codes = .ok (shown, t)) :
    ¬ Flagged s.store subject ∧ (Pending setup s → Pending setup t) ∧
      (Sound setup s.store → Fine setup s.store t.store) := by
  unfold confirmTOTPEnrollment at h
  cases hpending : (s.enrollments.find? subject).filter (isPending s.clock) with
  | none =>
    rw [hpending] at h
    cases h
  | some enrollment =>
    simp only [hpending] at h
    cases hsecret : setup.factors.decryptMFASecret subject enrollment.secretCiphertext with
    | none =>
      rw [hsecret] at h
      cases h
    | some secret =>
      simp only [hsecret] at h
      cases hstep : MfaService.validateTOTP setup.factors code secret s.clock with
      | none =>
        rw [hstep] at h
        cases h
      | some step =>
        simp only [hstep] at h
        exact enable_spec hsecret h

theorem checkLogin_passed {login : Login} {principalID returnURL : String} {credential : CredentialRow}
    (h : checkLogin setup s login = .passed principalID credential returnURL) :
    s.store.credentials principalID = some credential := by
  unfold checkLogin at h
  dsimp only at h
  split_ifs at h
  cases hprincipal : s.principals.rows.find?
      (isLogin s (PasswordLogin.normalizeLogin setup.toSetup login.loginName)) with
  | none =>
    rw [hprincipal] at h
    cases h
  | some principal =>
    simp only [hprincipal] at h
    cases hfound : s.store.credentials principal.id with
    | none =>
      rw [hfound] at h
      cases h
    | some row =>
      simp only [hfound] at h
      split_ifs at h
      cases hvalid : setup.factors.verifyPassword row.passwordHash login.password with
      | none =>
        rw [hvalid] at h
        cases h
      | some valid =>
        cases valid with
        | false =>
          rw [hvalid] at h
          cases h
        | true =>
          rw [hvalid] at h
          injection h with hid hcredential
          rw [← hid, ← hcredential]
          exact hfound

theorem keeps_touch (principalID : String) :
    Keeps s.store (updateCredential s principalID (touch s)).store := by
  unfold updateCredential
  cases hfound : s.store.credentials principalID with
  | none => exact .refl _
  | some row => exact keeps_putCredential (by rw [hfound]; rfl)

theorem answer_fine {principalID returnURL token : String} {credential : CredentialRow}
    (hsound : Sound setup s.store) (hflagged : credential.mfaRequired = true → Flagged s.store principalID) :
    Fine setup s.store (answer setup s principalID credential returnURL token).2.store := by
  unfold answer
  split_ifs with hrequired
  · exact .refl hsound
  · unfold createLoginChallenge
    dsimp only
    split
    · exact .refl hsound
    next mfaChallenges hinsert =>
      obtain ⟨-, rfl⟩ := Table.insert?_eq_some.mp hinsert
      refine ⟨hsound.challenge (hflagged hrequired) fun row hrow => ?_, fun hcomplete => hcomplete⟩
      rcases Table.mem_insertIgnore.mp hrow with hold | ⟨-, rfl⟩
      · exact .inl (Table.mem_deleteWhere.mp hold).1
      · exact .inr rfl
  · unfold createSession
    cases hinsert : SessionLifetime.insertSession setup.factors s.store token principalID s.clock
        ⟨s.clock.millis, 1, ["pwd"]⟩ with
    | none => exact .refl hsound
    | some db =>
      obtain ⟨sessions, -, rfl⟩ := Option.map_eq_some_iff.mp hinsert
      exact .of_keeps hsound (keeps_sessions sessions)

theorem answer_enrollments (principalID returnURL token : String) (credential : CredentialRow) :
    (answer setup s principalID credential returnURL token).2.enrollments = s.enrollments := by
  unfold answer createLoginChallenge createSession
  split_ifs
  · rfl
  · dsimp only
    split <;> rfl
  · split <;> rfl

theorem updateCredential_requireMFA (principalID : String) (change : CredentialRow → CredentialRow) :
    (updateCredential s principalID change).requireMFA = s.requireMFA := by
  unfold updateCredential
  cases s.store.credentials principalID <;> rfl

theorem updateCredential_enrollments (principalID : String) (change : CredentialRow → CredentialRow) :
    (updateCredential s principalID change).enrollments = s.enrollments := by
  unfold updateCredential
  cases s.store.credentials principalID <;> rfl

/-- A marked credential has the flag and no secret, and the login ends there. -/
theorem requireFactor_spec {principalID : String} {row : CredentialRow} (hsound : Sound setup s.store)
    (hrow : s.store.credentials principalID = some row) (hsecret : row.totpSecret = "") :
    Sound setup (updateCredential s principalID (requireFactor s)).store ∧
      ¬ Complete (updateCredential s principalID (requireFactor s)).store := by
  unfold updateCredential
  rw [hrow]
  refine ⟨hsound.put (fun _ hsome => absurd hsecret hsome) nofun, fun hcomplete => ?_⟩
  have hown : Function.update s.store.credentials principalID (some (requireFactor s row)) principalID =
      some (requireFactor s row) := Function.update_self ..
  exact hcomplete principalID (requireFactor s row) hown rfl hsecret

theorem beginLogin_spec (login : Login) (hsound : Sound setup s.store) :
    Sound setup (beginLogin setup s login).2.store ∧
      (Complete s.store →
        (Complete (beginLogin setup s login).2.store ↔ marks setup s login = false)) := by
  unfold beginLogin marks
  cases hchecked : checkLogin setup s login with
  | refused error => exact ⟨hsound, fun hcomplete => by simp [hcomplete]⟩
  | wrong principalID =>
    have hkeeps : Keeps s.store (failLogin setup s principalID).store := keeps_touch principalID
    exact ⟨hsound.keeps hkeeps, fun hcomplete => by simp [hcomplete.keeps hkeeps]⟩
  | passed principalID credential returnURL =>
    have hstored := checkLogin_passed hchecked
    have hkeeps : Keeps s.store (resetFailures s principalID).store := keeps_touch principalID
    have hpolicy : lacksFactor (resetFailures s principalID) credential = lacksFactor s credential := by
      have hsame : (resetFailures s principalID).requireMFA = s.requireMFA :=
        updateCredential_requireMFA principalID _
      unfold lacksFactor
      rw [hsame]
    have hreset := hsound.keeps hkeeps
    dsimp only [enforcePolicy]
    rw [hpolicy]
    by_cases hmarks : (lacksFactor s credential && !login.policyFails) = true
    · rw [if_pos hmarks]
      have hsecret : credential.totpSecret = "" := by
        simp only [lacksFactor, Bool.and_eq_true, decide_eq_true_eq] at hmarks
        exact hmarks.1.1.2
      obtain ⟨row, hrow, -, hsame⟩ := hkeeps.credential' hstored
      obtain ⟨hmarked, hlocked⟩ := requireFactor_spec hreset hrow (hsame.trans hsecret)
      simp only [answer, hsecret, if_true]
      exact ⟨hmarked, fun _ => by simp [hlocked, hmarks]⟩
    · rw [if_neg hmarks]
      have hfine : Fine setup (resetFailures s principalID).store
          (answer setup (resetFailures s principalID) principalID credential returnURL login.token).2.store :=
        answer_fine hreset fun hrequired => hkeeps.flagged.mpr ⟨credential, hstored, hrequired⟩
      refine ⟨hfine.sound, fun hcomplete => ?_⟩
      rw [Bool.not_eq_true] at hmarks
      simp only [hmarks, iff_true]
      exact hfine.complete (hcomplete.keeps hkeeps)

theorem beginLogin_enrollments (login : Login) :
    (beginLogin setup s login).2.enrollments = s.enrollments := by
  unfold beginLogin
  cases checkLogin setup s login with
  | refused error => rfl
  | wrong principalID => exact updateCredential_enrollments principalID _
  | passed principalID credential returnURL =>
    have hreset : (resetFailures s principalID).enrollments = s.enrollments :=
      updateCredential_enrollments principalID _
    dsimp only [enforcePolicy]
    by_cases hmarks : (lacksFactor (resetFailures s principalID) credential && !login.policyFails) = true
    · rw [if_pos hmarks]
      exact (answer_enrollments ..).trans ((updateCredential_enrollments principalID _).trans hreset)
    · rw [if_neg hmarks]
      exact (answer_enrollments ..).trans hreset

theorem setPassword_fine (principalID passwordHash : String) (hsound : Sound setup s.store) :
    Fine setup s.store (setPassword s principalID passwordHash).store := by
  unfold setPassword
  cases hfound : s.store.credentials principalID with
  | none =>
    have hfree : ¬ Flagged s.store principalID := by
      rintro ⟨row, hrow, -⟩
      rw [hfound] at hrow
      cases hrow
    exact ⟨hsound.put nofun fun _ => ⟨rfl, hfree⟩, fun hcomplete => hcomplete.put nofun⟩
  | some row => exact .of_keeps hsound (keeps_putCredential (by rw [hfound]; rfl))

theorem serve_fine {request : MfaService.Request} (hsound : Sound setup s.store)
    (hprogram : ∀ reply after, alone store (MfaService.program setup.factors ⟨request, s.clock⟩) s.store =
      .ok (reply, after) → Fine setup s.store after) :
    Fine setup s.store (serve setup s request).store := by
  unfold serve
  cases hdone : alone store (MfaService.program setup.factors ⟨request, s.clock⟩) s.store with
  | error error => exact .refl hsound
  | ok result => exact hprogram result.1 result.2 hdone

theorem serve_enrollments (request : MfaService.Request) :
    (serve setup s request).enrollments = s.enrollments := by
  unfold serve
  cases alone store (MfaService.program setup.factors ⟨request, s.clock⟩) s.store <;> rfl

theorem pending_of_enrollments (hsame : t.enrollments = s.enrollments) (h : Pending setup s) :
    Pending setup t := by
  intro row hrow
  exact h row (hsame ▸ hrow)

end Calls

/-! ## Runs -/

section Runs

variable {setup : Setup} {s t : Service} {e : Event setup}

structure Inv (setup : Setup) (s : Service) : Prop where
  sound : Sound setup s.store
  pending : Pending setup s

theorem inv_start (clock : Instant) (requireMFA : Bool) : Inv setup (start clock requireMFA) where
  sound := ⟨nofun, nofun, nofun, nofun⟩
  pending := nofun

theorem complete_start (clock : Instant) (requireMFA : Bool) : Complete (start clock requireMFA).store := nofun

/-- What every event keeps, and which ones leave a flag without a secret. -/
theorem inv_perform (h : Inv setup s) (e : Event setup) :
    Inv setup (perform setup s e) ∧
      (Complete s.store → (Complete (perform setup s e).store ↔ ¬ Marks setup s e)) := by
  have hquiet : ∀ {t : Service} {e : Event setup}, (∀ login, e ≠ .beginLogin login) →
      Fine setup s.store t.store → (Pending setup s → Pending setup t) →
      Inv setup t ∧ (Complete s.store → (Complete t.store ↔ ¬ Marks setup s e)) := by
    intro t e hother hfine hpending
    refine ⟨⟨hfine.sound, hpending h.pending⟩, fun hcomplete => ?_⟩
    have hnone : ¬ Marks setup s e := fun ⟨login, heq, _⟩ => hother login heq
    exact iff_of_true (hfine.complete hcomplete) hnone
  cases e with
  | passes elapsed => exact hquiet nofun (.refl h.sound) id
  | configure requireMFA => exact hquiet nofun (.refl h.sound) id
  | others principals => exact hquiet nofun (.of_keeps h.sound (keeps_active _)) id
  | setPassword principalID passwordHash =>
    refine hquiet nofun (setPassword_fine principalID passwordHash h.sound) fun hpending => ?_
    change Pending setup (setPassword s principalID passwordHash)
    unfold setPassword
    cases s.store.credentials principalID <;> exact hpending
  | startCooldown principalID time => exact hquiet nofun (.refl h.sound) id
  | beginLogin login =>
    obtain ⟨hsound, hcomplete⟩ := beginLogin_spec login h.sound
    refine ⟨⟨hsound, ?_⟩, fun hbefore => (hcomplete hbefore).trans ?_⟩
    · intro row hrow
      exact h.pending row (beginLogin_enrollments login ▸ hrow)
    · constructor
      · rintro hfalse ⟨other, heq, htrue⟩
        obtain rfl := Event.beginLogin.inj heq
        rw [hfalse] at htrue
        cases htrue
      · intro hnot
        exact Bool.eq_false_iff.mpr fun htrue => hnot ⟨login, rfl, htrue⟩
  | verifyLogin challengeID code token =>
    refine hquiet nofun (serve_fine h.sound fun reply after hdone => ?_) ?_
    · exact .of_keeps h.sound (keeps_of_only (keeping_verifyLoginMFA _ _ _) hdone)
    · exact pending_of_enrollments (serve_enrollments _)
  | beginEnrollment subject currentPassword seed nonce =>
    simp only [perform]
    cases hbegin : beginTOTPEnrollment setup s subject currentPassword seed nonce with
    | error error => exact hquiet nofun (.refl h.sound) id
    | ok result =>
      obtain ⟨-, hstore, hpending⟩ := begin_spec hbegin
      have hkeeps : Keeps s.store result.2.store := hstore ▸ Keeps.refl s.store
      exact hquiet nofun (.of_keeps h.sound hkeeps) hpending
  | confirmEnrollment subject sessionHash code codes =>
    simp only [perform]
    cases hconfirm : confirmTOTPEnrollment setup s subject sessionHash code codes with
    | error error => exact hquiet nofun (.refl h.sound) id
    | ok result =>
      obtain ⟨-, hpending, hfine⟩ := confirm_spec hconfirm
      exact hquiet nofun (hfine h.sound) hpending
  | regenerate subject sessionHash currentPassword code codes =>
    refine hquiet nofun (serve_fine h.sound fun reply after hdone => regenerate_alone h.sound hdone) ?_
    exact pending_of_enrollments (serve_enrollments _)
  | disable subject sessionHash currentPassword code =>
    simp only [perform, disableTOTP]
    cases hdone : alone store
        (MfaService.disableTOTP setup.factors subject sessionHash currentPassword code s.clock) s.store with
    | error error => exact hquiet nofun (.refl h.sound) id
    | ok result =>
      refine hquiet nofun (disable_alone h.sound hdone) fun hpending row hrow => ?_
      exact hpending row (Table.mem_deleteWhere.mp hrow).1

/-- A credential with the flag can not be enrolled. -/
theorem not_canEnroll {principalID : String} (h : Flagged s.store principalID) :
    ¬ CanEnroll setup s principalID := by
  rintro ⟨elapsed, currentPassword, seed, nonce, enrollment, begun, hbegin, -⟩
  exact (begin_spec hbegin).1 h

theorem usable_iff_complete (h : Inv setup s) : Usable setup s ↔ Complete s.store := by
  constructor
  · intro husable principalID row hrow hrequired hsecret
    have hown := husable principalID row hrow
    rw [if_pos hrequired] at hown
    rcases hown with hfactor | henroll
    · obtain ⟨secret, hdecrypts⟩ := hfactor.secret
      rw [hsecret, setup.noCiphertext principalID] at hdecrypts
      cases hdecrypts
    · exact not_canEnroll ⟨row, hrow, hrequired⟩ henroll
  · intro hcomplete principalID row hrow
    cases hrequired : row.mfaRequired with
    | true =>
      rw [if_pos rfl]
      exact .inl (h.sound.factor principalID row hrow hrequired (hcomplete principalID row hrow hrequired))
    | false =>
      rw [if_neg Bool.false_ne_true]
      have hfree : ¬ Flagged s.store principalID := by
        rintro ⟨other, hother, hflag⟩
        obtain rfl := Option.some.inj (hrow.symm.trans hother)
        rw [hrequired] at hflag
        cases hflag
      refine ⟨h.sound.secret principalID row hrow hrequired, fun code hcode howner => ?_,
        fun challenge hchallenge howner => ?_⟩
      · have hkey : s.store.recoveryCodes.hasKey code.key = true := Table.hasKey_iff.mpr ⟨code, hcode, rfl⟩
        exact absurd (howner ▸ h.sound.codes code.key hkey) hfree
      · have hfound := Table.find?_eq_some.mpr ⟨hchallenge, rfl⟩
        exact absurd (howner ▸ h.sound.challenges challenge.idHash challenge hfound) hfree

/-- Every credential stays usable exactly where no login marks one that has no factor. -/
theorem usable_iff (setup : Setup) (clock : Instant) (requireMFA : Bool) (events : List (Event setup)) :
    (∀ t, Passes (step setup) (start clock requireMFA) events t → Usable setup t) ↔
      ∀ t e u, Takes (step setup) (start clock requireMFA) events t e u → ¬ Marks setup t e := by
  have hinv : ∀ t, Passes (step setup) (start clock requireMFA) events t → Inv setup t := by
    refine StepRuns.keeps (fun s e next hs hstep => ?_) (inv_start clock requireMFA)
    obtain rfl := Option.some.inj hstep
    exact (inv_perform hs e).1
  have hsafe : (∀ t, Passes (step setup) (start clock requireMFA) events t → Inv setup t ∧ Complete t.store) ↔
      ∀ t e u, Takes (step setup) (start clock requireMFA) events t e u → ¬ Marks setup t e := by
    refine keeps_iff_safe (fun s e next hs hstep => ?_)
      ⟨inv_start clock requireMFA, complete_start clock requireMFA⟩
    obtain rfl := Option.some.inj hstep
    obtain ⟨hnext, hcomplete⟩ := inv_perform hs.1 e
    exact (and_iff_right hnext).trans (hcomplete hs.2)
  rw [← hsafe]
  constructor
  · intro husable t hpasses
    exact ⟨hinv t hpasses, (usable_iff_complete (hinv t hpasses)).mp (husable t hpasses)⟩
  · intro hall t hpasses
    exact (usable_iff_complete (hall t hpasses).1).mpr (hall t hpasses).2

end Runs

/-! ## The policy locks an account out -/

section Lockout

/-- The ciphertext is the plaintext behind its version. -/
def sealSecret (secret : String) : String := String.ofList ('v' :: secret.toList)

def openSecret (encoded : String) : Option String :=
  match encoded.toList with
  | 'v' :: rest => some (String.ofList rest)
  | _ => none

def lockoutSetup : Setup where
  factors := { OneTimeFactors.smallSetup with decryptMFASecret := fun _ => openSecret }
  challengeTTL := 300000
  maxFailedAttempts := 5
  lockDuration := 900000
  attemptsPositive := by decide
  durationPositive := by decide
  requireMFA := true
  postLoginURL := "/"
  allowedReturnURLs := ["/"]
  lower := id
  enrollmentTTL := 600000
  recoveryCodes := 10
  generateSecret := fun name seed => if name = "" then none else some seed
  encryptMFASecret := fun _ _ => sealSecret
  decrypts _ _ secret := by
    simp only [sealSecret, openSecret, String.toList_ofList, String.ofList_toList]
  noCiphertext _ := rfl

def ada : PrincipalRow := ⟨"ada", "ada", "ada@example.com", true, false, .active, 0⟩

/-- Ada has a password and no factor, and logs in while the policy demands one. -/
def firstLogin : List (Event lockoutSetup) :=
  [.others (Table.empty.put ada), .setPassword "ada" "hash",
    .beginLogin { loginName := "ada", password := "password" }]

theorem first_login_locks_out :
    ¬ ∀ t, Passes (step lockoutSetup) (start instant true) firstLogin t → Usable lockoutSetup t := by
  intro husable
  have hrow : (run (step lockoutSetup) (start instant true) firstLogin).map (fun t =>
      (t.store.credentials "ada").map factor) = some (some (true, "")) := by decide
  obtain ⟨t, hrun, hrow⟩ := Option.map_eq_some_iff.mp hrow
  obtain ⟨row, hfound, hfactor⟩ := Option.map_eq_some_iff.mp hrow
  obtain ⟨hrequired, hsecret⟩ := Prod.mk.inj hfactor
  have hown := husable t ⟨firstLogin, [], (List.append_nil _).symm, hrun⟩ "ada" row hfound
  rw [if_pos hrequired] at hown
  rcases hown with hfact | henroll
  · obtain ⟨secret, hdecrypts⟩ := hfact.secret
    rw [hsecret, lockoutSetup.noCiphertext "ada"] at hdecrypts
    cases hdecrypts
  · exact not_canEnroll ⟨row, hfound, hrequired⟩ henroll

end Lockout

end MfaEnrollment
