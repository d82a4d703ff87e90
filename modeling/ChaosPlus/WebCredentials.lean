import ChaosPlus.JwksVerifier
import ChaosPlus.MfaStore
import ChaosPlus.ScopeWords

/-!
# The credential of a request

A request carries a bearer token or a session cookie. `Authenticate` takes the token where the
`Authorization` header is not blank and the cookie elsewhere; `ValidateCSRF` makes the same choice
on its own. The host language's JSON and cryptography are parameters.
-/
namespace WebCredentials

open JwksVerifier (Bytes Library TokenHeader splitParts utf8)
open KeyedTable
open MfaStore (SessionRow)
open PolicyStore (Millis)

/-! ### Cookies -/

def isHeaderSpace (c : Char) : Bool := c = ' ' || c = '\t' || c = '\n' || c = '\r'

def trimString (text : List Char) : List Char :=
  ((text.dropWhile isHeaderSpace).reverse.dropWhile isHeaderSpace).reverse

def isTokenChar (c : Char) : Bool := c.isAlphanum || "!#$%&'*+-.^_`|~".toList.contains c

def isToken (text : List Char) : Bool := !text.isEmpty && text.all isTokenChar

def validCookieValueByte (c : Char) : Bool :=
  0x20 ≤ c.toNat && c.toNat < 0x7f && c ≠ '"' && c ≠ ';' && c ≠ '\\'

/-- The value without the quotes around it. -/
def parseCookieValue (raw : List Char) : Option String :=
  let quoted := 1 < raw.length && raw.head? = some '"' && raw.getLast? = some '"'
  let value := if quoted then raw.tail.dropLast else raw
  if value.all validCookieValueByte then some (String.ofList value) else none

def readCookie (part : List Char) : Option (String × String) :=
  let name := trimString (part.takeWhile (· ≠ '='))
  if isToken name then
    (parseCookieValue ((part.dropWhile (· ≠ '=')).drop 1)).map fun value => (String.ofList name, value)
  else none

def maxCookies : Nat := 3000

def readCookies (header : String) : List (String × String) :=
  let parts := (trimString header.toList).splitOn ';'
  if maxCookies < parts.length then [] else parts.filterMap fun part => readCookie (trimString part)

/-- The first cookie of the name, if it is not empty. -/
def cookieValue (header name : String) : Option String :=
  (((readCookies header).find? fun cookie => cookie.1 = name).map (·.2)).filter (· ≠ "")

example : cookieValue "theme=dark; cp_session=\"abc\"" "cp_session" = some "abc" := by decide

/-! ### Claims -/

inductive SubjectType where
  | principal
  | oauthClient
  | service
  | serviceAccount
  deriving DecidableEq, Repr

def validSubjectType (subjectType : String) : Option SubjectType :=
  if subjectType = "principal" then some .principal
  else if subjectType = "oauth_client" then some .oauthClient
  else if subjectType = "service" then some .service
  else if subjectType = "service_account" then some .serviceAccount
  else none

/-- A member that is absent has its zero value; times are in seconds. -/
structure TokenPayload where
  issuer : String := ""
  subject : String := ""
  subjectType : String := ""
  audience : List String := []
  expiresAt : Int := 0
  authTime : Int := 0
  preferredUsername : String := ""
  email : String := ""
  emailVerified : Bool := false
  organizationID : String := ""
  credentialVersion : Nat := 0
  acr : Nat := 0
  amr : List String := []
  clientID : String := ""
  networkZone : String := ""
  deriving DecidableEq, Repr

structure Claims where
  issuer : String
  subject : String
  subjectType : SubjectType
  audience : List String := []
  authTime : Option Millis := none
  preferredUsername : String := ""
  email : String := ""
  emailVerified : Bool := false
  organizationID : String := ""
  credentialVersion : Nat := 0
  acr : Nat := 0
  amr : List String := []
  clientID : String := ""
  networkZone : String := ""
  deriving DecidableEq, Repr

inductive AuthnError where
  | missingBearer
  | invalidBearer
  | invalidToken
  | invalidAudience
  | invalidSession
  | unavailable
  deriving DecidableEq, Repr

/-! ### The store -/

structure OAuthClientRow where
  id : String
  tenantID : String
  status : PolicyStore.RecordStatus
  deriving DecidableEq, Repr

/-- The functions are columns that the policy does not read, by the principal of their row. -/
structure Db where
  policy : PolicyStore.Db
  sessions : Table SessionRow.idHash := .empty
  oauthClients : Table OAuthClientRow.id := .empty
  emailVerified : String → Bool := fun _ => false
  activationRequired : String → Bool := fun _ => false
  accountExpiresAt : String → Millis := fun _ => 0
  accountTokenVersion : String → Nat := fun _ => 0

/-- What a request asks the database for; each of these reads can fail. -/
inductive Query where
  | session
  | principal
  | credential
  | subjectState
  | membership
  | permission
  deriving DecidableEq, Repr

/-- How the first two parts of a token are decoded. -/
structure Codec where
  header : String → Option TokenHeader
  payload : String → Option TokenPayload

structure Settings where
  lib : Library
  codec : Codec
  tokenHash : String → String
  /-- Local authentication and its web part are both on. -/
  enabled : Bool
  issuer : String
  audience : List String
  /-- In nanoseconds. -/
  clockSkew : Int
  kid : String
  publicKey : Bytes
  cookieName : String
  allowedOrigins : List String
  idleTTL : Millis

/-! ### Bearer tokens -/

section Authentication

-- `now` is the time of the request, in nanoseconds.
variable (cfg : Settings) (db : Db) (down : Query → Bool) (now : Int)

def millis : Millis := now / 1000000

def hasAudience (got accepted : List String) : Bool := got.any accepted.contains

def foldsToBearer (scheme : String) : Bool := scheme.toList.map Char.toLower = "bearer".toList

def signedByIssuer (header payload signature : String) : Bool :=
  (cfg.lib.base64 signature).any fun sig =>
    cfg.lib.ed25519Verify cfg.publicKey (utf8 (header ++ "." ++ payload)) sig

def payloadAccepted (raw : TokenPayload) : Bool :=
  raw.issuer = cfg.issuer && raw.subject ≠ "" &&
    !(raw.expiresAt * 1000000000 + cfg.clockSkew < now)

def claimsOf (raw : TokenPayload) (subjectType : SubjectType) : Claims where
  issuer := raw.issuer
  subject := raw.subject
  subjectType := subjectType
  audience := raw.audience
  authTime := some (raw.authTime * 1000)
  preferredUsername := raw.preferredUsername
  email := raw.email
  emailVerified := raw.emailVerified
  organizationID := raw.organizationID
  credentialVersion := raw.credentialVersion
  acr := raw.acr
  amr := raw.amr
  clientID := raw.clientID
  networkZone := raw.networkZone

/-- The claims of the three parts of a token. -/
def verifyParts (header payload signature : String) : Except AuthnError Claims :=
  if !(cfg.codec.header header).any (fun head => head.alg = "EdDSA" && head.kid = cfg.kid) then
    .error .invalidToken
  else if !signedByIssuer cfg header payload signature then .error .invalidToken
  else
    match cfg.codec.payload payload with
    | none => .error .invalidToken
    | some raw =>
      match validSubjectType raw.subjectType with
      | none => .error .invalidToken
      | some subjectType =>
        if !payloadAccepted cfg now raw then .error .invalidToken
        else if cfg.audience ≠ [] && !hasAudience raw.audience cfg.audience then .error .invalidAudience
        else .ok (claimsOf raw subjectType)

def verifyAccessToken (authorization : String) : Except AuthnError Claims :=
  match ScopeWords.fields authorization with
  | [scheme, token] =>
    if !foldsToBearer scheme then .error .invalidBearer
    else
      match splitParts token with
      | none => .error .invalidToken
      | some (header, payload, signature) => verifyParts cfg now header payload signature
  | _ => .error .invalidBearer

def credentialVersion (principalID : String) : Nat :=
  ((db.policy.credentials.find? principalID).map (·.credentialVersion)).getD 0

def principalStateAccepted (claims : Claims) : Bool :=
  (db.policy.principals.find? claims.subject).any fun principal =>
    principal.status = .active && credentialVersion db claims.subject = claims.credentialVersion

def clientStateAccepted (clientID tenantID : String) : Bool :=
  (db.oauthClients.find? clientID).any fun client => client.status = .active && client.tenantID = tenantID

def accountStateAccepted (claims : Claims) : Bool :=
  (db.policy.serviceAccounts.find? claims.subject).any fun account =>
    claims.organizationID ≠ "" && account.ownerTenantID = claims.organizationID &&
      account.status = .active &&
      (db.policy.principals.find? account.principalID).any (·.status = .active) &&
      (db.policy.tenantMembers.find? (account.ownerTenantID, account.principalID)).any
        (·.status = .active) &&
      (db.policy.tenants.find? account.ownerTenantID).any (·.status = .active) &&
      !(0 < db.accountExpiresAt account.principalID &&
        db.accountExpiresAt account.principalID ≤ millis now) &&
      db.accountTokenVersion account.principalID = claims.credentialVersion

/-- Whether the subject of a token still stands as it did when the token was issued. -/
def subjectAccepted (claims : Claims) : Bool :=
  match claims.subjectType with
  | .principal => principalStateAccepted db claims
  | .oauthClient =>
    match GoText.cutPrefix "client:" claims.subject with
    | none => false
    | some clientID => clientID ≠ [] && clientStateAccepted db (String.ofList clientID) claims.organizationID
  | .serviceAccount => accountStateAccepted db now claims
  | .service => true

def verifySubjectState (claims : Claims) : Except AuthnError Unit :=
  if down .subjectState && claims.subjectType ≠ .service then .error .unavailable
  else if subjectAccepted db now claims then .ok ()
  else .error .invalidToken

/-! ### Sessions -/

def isCurrent (row : SessionRow) : Bool :=
  row.revokedAt = 0 && millis now < row.expiresAt && millis now < row.absoluteExpiresAt

def use (row : SessionRow) : SessionRow :=
  { row with
    lastSeenAt := millis now
    expiresAt := min (millis now + cfg.idleTTL) row.absoluteExpiresAt }

/-- The claims of an active principal; one without a credential has version zero. -/
def claims (principalID : String) : Except AuthnError Claims :=
  if down .principal then .error .unavailable
  else
    match db.policy.principals.find? principalID with
    | none => .error .invalidSession
    | some principal =>
      if principal.status ≠ .active || db.activationRequired principalID then .error .invalidSession
      else if down .credential then .error .unavailable
      else .ok {
        issuer := cfg.issuer
        subject := principal.id
        subjectType := .principal
        preferredUsername := principal.loginName
        email := principal.email
        emailVerified := db.emailVerified principalID
        credentialVersion := credentialVersion db principalID }

def withSession (row : SessionRow) (claims : Claims) : Claims :=
  { claims with
    authTime := if 0 < row.authTime then some row.authTime else none
    acr := row.acr
    amr := row.amr }

/-- A session that is found is used, whatever its principal is. -/
def authenticateSession (cookie : String) : Except AuthnError Claims × Db :=
  match cookieValue cookie cfg.cookieName with
  | none => (.error .invalidSession, db)
  | some token =>
    if down .session then (.error .unavailable, db)
    else
      match (db.sessions.find? (cfg.tokenHash token)).filter (isCurrent now) with
      | none => (.error .invalidSession, db)
      | some row =>
        ((claims cfg db down row.principalID).map (withSession row),
          { db with sessions := db.sessions.put (use cfg now row) })

def authenticateBearer (authorization : String) : Except AuthnError Claims :=
  match verifyAccessToken cfg now authorization with
  | .error e => .error e
  | .ok claims => (verifySubjectState db down now claims).map fun _ => claims

def authenticate (authorization cookie : String) : Except AuthnError Claims × Db :=
  if !GoText.isBlank authorization then (authenticateBearer cfg db down now authorization, db)
  else if !cfg.enabled then (.error .missingBearer, db)
  else authenticateSession cfg db down now cookie

/-! ### The origin of a request -/

/-- The methods that change nothing. -/
def safeMethods : List String := ["GET", "HEAD", "OPTIONS", "TRACE"]

def validateLoginOrigin (origin : String) : Bool := origin ≠ "" && cfg.allowedOrigins.contains origin

def validateCSRF (method origin cookie authorization : String) : Bool :=
  safeMethods.contains method || !GoText.isBlank authorization ||
    (cookieValue cookie cfg.cookieName).isNone || validateLoginOrigin cfg origin

/-! ### What is accepted -/

/-- A signed token of the issuer whose subject still stands. -/
structure BearerAccepted (authorization : String) (claims : Claims) : Prop where
  present : GoText.isBlank authorization = false
  verified : verifyAccessToken cfg now authorization = .ok claims
  stands : subjectAccepted db now claims = true

/-- A current session of an active principal, found by the cookie. -/
structure SessionAccepted (authorization cookie : String) (accepted : Claims) : Prop where
  absent : GoText.isBlank authorization = true
  enabled : cfg.enabled = true
  found : ∃ token row, cookieValue cookie cfg.cookieName = some token ∧
    db.sessions.find? (cfg.tokenHash token) = some row ∧ isCurrent now row = true ∧
    ∃ own, claims cfg db down row.principalID = .ok own ∧ accepted = withSession row own

theorem authenticateBearer_ok {authorization : String} {accepted : Claims}
    (h : authenticateBearer cfg db down now authorization = .ok accepted) :
    verifyAccessToken cfg now authorization = .ok accepted ∧ subjectAccepted db now accepted = true := by
  unfold authenticateBearer at h
  cases hverify : verifyAccessToken cfg now authorization with
  | error e => rw [hverify] at h; nomatch h
  | ok claims =>
    simp only [hverify, verifySubjectState] at h
    split at h
    · nomatch h
    · split at h
      · rename_i hstands
        obtain rfl : claims = accepted := Except.ok.inj h
        exact ⟨rfl, hstands⟩
      · nomatch h

theorem authenticateSession_ok {cookie : String} {accepted : Claims}
    (h : (authenticateSession cfg db down now cookie).1 = .ok accepted) :
    ∃ token row, cookieValue cookie cfg.cookieName = some token ∧
      db.sessions.find? (cfg.tokenHash token) = some row ∧ isCurrent now row = true ∧
      ∃ own, claims cfg db down row.principalID = .ok own ∧ accepted = withSession row own := by
  unfold authenticateSession at h
  cases hcookie : cookieValue cookie cfg.cookieName with
  | none => simp only [hcookie] at h; cases h
  | some token =>
    simp only [hcookie] at h
    split at h
    · cases h
    · cases hrow : (db.sessions.find? (cfg.tokenHash token)).filter (isCurrent now) with
      | none => simp only [hrow] at h; cases h
      | some row =>
        simp only [hrow] at h
        obtain ⟨hfound, hcurrent⟩ := Option.filter_eq_some_iff.mp hrow
        cases hown : claims cfg db down row.principalID with
        | error e => rw [hown] at h; cases h
        | ok own =>
          rw [hown] at h
          exact ⟨token, row, rfl, hfound, hcurrent, own, hown, (Except.ok.inj h).symm⟩

/-- Whatever is accepted comes from one of the two credentials. -/
theorem authenticate_ok {authorization cookie : String} {accepted : Claims}
    (h : (authenticate cfg db down now authorization cookie).1 = .ok accepted) :
    BearerAccepted cfg db now authorization accepted ∨
      SessionAccepted cfg db down now authorization cookie accepted := by
  unfold authenticate at h
  cases hblank : GoText.isBlank authorization with
  | false =>
    simp only [hblank, Bool.not_false, if_true] at h
    obtain ⟨hverified, hstands⟩ := authenticateBearer_ok cfg db down now h
    exact .inl ⟨hblank, hverified, hstands⟩
  | true =>
    simp only [hblank, Bool.not_true, Bool.false_eq_true, if_false] at h
    split at h
    · nomatch h
    · rename_i henabled
      exact .inr ⟨hblank, by simpa using henabled, authenticateSession_ok cfg db down now h⟩

/-- `Authenticate` leaves everything but the sessions as it was. -/
theorem authenticate_policy (authorization cookie : String) :
    (authenticate cfg db down now authorization cookie).2.policy = db.policy := by
  unfold authenticate
  split
  · rfl
  · split
    · rfl
    · unfold authenticateSession
      split
      · rfl
      · split
        · rfl
        · split <;> rfl

/-- The two readings of the headers agree: where the session of the cookie is what is accepted, a
method that changes something came from an allowed origin. -/
theorem origin_of_session {method origin authorization cookie : String} {accepted : Claims}
    (hcsrf : validateCSRF cfg method origin cookie authorization = true)
    (hmethod : method ∉ safeMethods)
    (h : SessionAccepted cfg db down now authorization cookie accepted) :
    origin ≠ "" ∧ origin ∈ cfg.allowedOrigins := by
  obtain ⟨token, row, hcookie, -⟩ := h.found
  simp only [validateCSRF, hcookie, h.absent, Bool.not_true, Bool.or_false, Option.isNone_some,
    Bool.or_eq_true, List.contains_iff_mem, hmethod, false_or] at hcsrf
  simpa [validateLoginOrigin] using hcsrf

end Authentication

end WebCredentials
