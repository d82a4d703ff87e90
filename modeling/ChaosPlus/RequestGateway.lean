import ChaosPlus.PlatformChecks
import ChaosPlus.WebCredentials

/-!
# The request gateway

An operation is registered with what it needs of a request: a permission in the tenant that the
request names, a membership of that tenant, a login, or a permission on the platform. A middleware
in front of the handler checks it. The web service is the verifier of tokens.
-/
namespace RequestGateway

open AuthorizationCatalog AuthorizationDecision AuthorizationGrants PlatformAdministration PlatformChecks
open PolicyCondition (TrustedContext)
open WebCredentials

/-! ### Operations -/

inductive Registration where
  | register (permission : String)
  | registerTenantMember
  | registerAuthenticated
  | registerPlatform (permission : String)
  deriving DecidableEq, Repr

/-- The permission is one of the catalog, for a platform operation one of the platform. -/
def Registration.known : Registration → Bool
  | .register permission => (find permission).isSome
  | .registerPlatform permission => isPlatformPermission permission
  | _ => true

/-- Another registration stops the program when it starts. -/
structure Operation where
  registration : Registration
  known : registration.known = true

/-- The operation runs within the tenant of the request. -/
def Registration.tenantScoped : Registration → Bool
  | .register _ | .registerTenantMember => true
  | _ => false

/-- A header that is absent is empty. -/
structure Request where
  method : String
  origin : String := ""
  cookie : String := ""
  authorization : String := ""
  tenantID : String := ""
  deriving DecidableEq, Repr

/-- What the handler is called with. -/
structure Call where
  claims : Claims
  trusted : TrustedContext

inductive Response where
  | refused (status : Nat) (message : String)
  | handled (call : Call)

section Gateway

variable (env : Environment) (cfg : Settings) (down : Query → Bool) (now : Int)

def trustedContext (claims : Claims) : TrustedContext where
  time := millis now
  acr := claims.acr
  amr := claims.amr
  clientID := claims.clientID
  networkZone := claims.networkZone

def handler (claims : Claims) : Response := .handled ⟨claims, trustedContext now claims⟩

def authenticatedOnly (db : Db) (request : Request) : Response × Db :=
  match authenticate cfg db down now request.authorization request.cookie with
  | (.error _, db) => (.refused 401 "unauthorized", db)
  | (.ok claims, db) => (handler now claims, db)

def refusal : AuthnError → Response
  | .unavailable => .refused 503 "authentication_unavailable"
  | _ => .refused 401 "unauthorized"

/-- The answer of a permission check, which counts only where the database gives one. -/
def guarded (answer : Except AuthorizationError Bool) (claims : Claims) : Response :=
  if down .permission then .refused 503 "authorization_unavailable"
  else
    match answer with
    | .error _ => .refused 503 "authorization_unavailable"
    | .ok false => .refused 403 "forbidden"
    | .ok true => handler now claims

/-- The checks of a tenant operation after its credential is accepted. -/
def admitMember (permission : Option String) (db : Db) (tenantID : String) (claims : Claims) : Response :=
  if tenantID = "" then .refused 403 "forbidden"
  else if down .membership then .refused 503 "authorization_unavailable"
  else if !(db.policy.tenantMembershipState tenantID claims.subject).2 then
    .refused 403 "inactive_tenant_membership"
  else
    match permission with
    | none => handler now claims
    | some permission =>
      guarded down now
        (check env db.policy tenantID permission claims.subject (trustedContext now claims)) claims

def middleware (permission : Option String) (db : Db) (request : Request) : Response × Db :=
  if !validateCSRF cfg request.method request.origin request.cookie request.authorization then
    (.refused 403 "csrf_rejected", db)
  else
    match authenticate cfg db down now request.authorization request.cookie with
    | (.error e, db) => (refusal e, db)
    | (.ok claims, db) => (admitMember env down now permission db request.tenantID claims, db)

def platformMiddleware (permission : String) (db : Db) (request : Request) : Response × Db :=
  if !validateCSRF cfg request.method request.origin request.cookie request.authorization then
    (.refused 403 "csrf_rejected", db)
  else
    match authenticate cfg db down now request.authorization request.cookie with
    | (.error e, db) => (refusal e, db)
    | (.ok claims, db) =>
      (guarded down now (checkPlatform db.policy permission claims.subject) claims, db)

def serve (operation : Operation) : Db → Request → Response × Db :=
  match operation.registration with
  | .register permission => middleware env cfg down now (some permission)
  | .registerTenantMember => middleware env cfg down now none
  | .registerAuthenticated => authenticatedOnly cfg down now
  | .registerPlatform permission => platformMiddleware cfg down now permission

/-! ### What the handler is reached with -/

/-- The permission, on the platform. -/
def HoldsPlatform (db : PolicyStore.Db) (permission subject : String) : Prop :=
  PrincipalActive db subject ∧ HoldsPermission db permission subject

/-- By a role of the subject in the tenant, or by the administration of the platform; a platform
permission by the latter alone. -/
def HoldsIn (db : PolicyStore.Db) (tenantID permission : String) (call : Call) : Prop :=
  (isPlatformPermission permission = false ∧
      GrantedByRole env db tenantID [permission] call.claims.subject call.trusted permission) ∨
    HoldsPlatform db "platform_administer" call.claims.subject

/-- What the gateway promises of a handler that it calls. -/
structure Admitted (registration : Registration) (db : Db) (request : Request) (call : Call) : Prop where
  credential : BearerAccepted cfg db now request.authorization call.claims ∨
    SessionAccepted cfg db down now request.authorization request.cookie call.claims
  origin : registration ≠ .registerAuthenticated → request.method ∉ safeMethods →
    SessionAccepted cfg db down now request.authorization request.cookie call.claims →
    request.origin ≠ "" ∧ request.origin ∈ cfg.allowedOrigins
  member : registration.tenantScoped = true →
    request.tenantID ≠ "" ∧ ActiveMember db.policy request.tenantID call.claims.subject
  permission : ∀ permission, registration = .register permission →
    HoldsIn env db.policy request.tenantID permission call
  platform : ∀ permission, registration = .registerPlatform permission →
    HoldsPlatform db.policy permission call.claims.subject

/-- The same for every registration alike, and a token stays within its own tenant. -/
structure Confined (registration : Registration) (db : Db) (request : Request) (call : Call) : Prop
    extends Admitted env cfg down now registration db request call where
  everyOrigin : request.method ∉ safeMethods →
    SessionAccepted cfg db down now request.authorization request.cookie call.claims →
    request.origin ≠ "" ∧ request.origin ∈ cfg.allowedOrigins
  organization : registration.tenantScoped = true → call.claims.organizationID ≠ "" →
    call.claims.organizationID = request.tenantID

theorem checkPlatform_holds {db : PolicyStore.Db} {permission subject : String}
    (h : checkPlatform db permission subject = .ok true) : HoldsPlatform db permission subject := by
  obtain ⟨hempty, hshort⟩ := checkPlatform_subject h
  by_cases hplatform : isPlatformPermission permission = true
  · obtain ⟨allowed, hallowed, hiff⟩ := checkPlatform_answers db hplatform hempty hshort
    obtain rfl := Except.ok.inj (hallowed.symm.trans h)
    exact hiff.mp rfl
  · simp only [checkPlatform, hplatform, Bool.not_false, if_true] at h
    split at h <;> simp at h

theorem check_holds {db : PolicyStore.Db} {tenantID permission : String} {call : Call}
    (h : check env db tenantID permission call.claims.subject call.trusted = .ok true) :
    HoldsIn env db tenantID permission call := by
  unfold check at h
  cases hbulk : checkBulk env db tenantID [permission] call.claims.subject call.trusted with
  | error e => rw [hbulk] at h; nomatch h
  | ok allowed =>
    rw [hbulk] at h
    have hallow : allowed permission = true := Except.ok.inj h
    obtain ⟨-, rfl⟩ | ⟨-, grants, administrator, hgrants, hadministrator, hallowed⟩ :=
      checkBulk_answers (List.cons_ne_nil _ _) hbulk
    · nomatch hallow
    rw [hallowed permission (List.mem_singleton.mpr rfl)] at hallow
    cases administrator with
    | true => exact .inr (checkPlatform_holds hadministrator)
    | false =>
      cases hplatform : isPlatformPermission permission with
      | true => simp [hplatform] at hallow
      | false =>
        simp only [hplatform, Bool.false_eq_true, if_false, Bool.or_false, Bool.or_eq_true,
          List.any_eq_true, decide_eq_true_eq] at hallow
        refine .inl ⟨hplatform, grants, hgrants, ?_⟩
        obtain ⟨g, hg, hcode⟩ | ⟨g, hg, hcode⟩ := hallow
        · exact ⟨g, hg, .inl hcode⟩
        · exact ⟨g, hg, .inr hcode⟩

theorem handler_call {claims : Claims} {call : Call} (h : handler now claims = .handled call) :
    call.claims = claims ∧ call.trusted = trustedContext now claims := by
  obtain rfl : (⟨claims, trustedContext now claims⟩ : Call) = call := Response.handled.inj h
  exact ⟨rfl, rfl⟩

theorem guarded_handled {answer : Except AuthorizationError Bool} {claims : Claims} {call : Call}
    (h : guarded down now answer claims = .handled call) :
    answer = .ok true ∧ handler now claims = .handled call := by
  unfold guarded at h
  split at h
  · nomatch h
  · split at h
    · nomatch h
    · nomatch h
    · exact ⟨rfl, h⟩

/-- The two middlewares check the origin and then the credential. -/
theorem checked_handled {db : Db} {request : Request} {call : Call} {csrf : Bool}
    (next : Db → Claims → Response)
    (h : (if !csrf then ((.refused 403 "csrf_rejected" : Response), db)
      else
        match authenticate cfg db down now request.authorization request.cookie with
        | (.error e, db) => (refusal e, db)
        | (.ok claims, db) => (next db claims, db)).1 = .handled call) :
    csrf = true ∧ ∃ claims after,
      authenticate cfg db down now request.authorization request.cookie = (.ok claims, after) ∧
      next after claims = .handled call := by
  cases csrf with
  | false => nomatch h
  | true =>
    simp only [Bool.not_true, Bool.false_eq_true, if_false] at h
    cases hauthenticate : authenticate cfg db down now request.authorization request.cookie with
    | mk result after =>
      rw [hauthenticate] at h
      cases result with
      | error e => cases e <;> nomatch h
      | ok claims => exact ⟨rfl, claims, after, rfl, h⟩

theorem admitMember_handled {permission : Option String} {db : Db} {tenantID : String} {claims : Claims}
    {call : Call} (h : admitMember env down now permission db tenantID claims = .handled call) :
    tenantID ≠ "" ∧ ActiveMember db.policy tenantID claims.subject ∧ handler now claims = .handled call ∧
      ∀ code, permission = some code →
        check env db.policy tenantID code claims.subject (trustedContext now claims) = .ok true := by
  unfold admitMember at h
  split at h
  · nomatch h
  · rename_i htenant
    split at h
    · nomatch h
    · split at h
      · nomatch h
      · rename_i hmember
        have hactive : ActiveMember db.policy tenantID claims.subject := by
          simpa [ActiveMember] using hmember
        cases permission with
        | none => exact ⟨htenant, hactive, h, fun code hcode => nomatch hcode⟩
        | some permission =>
          obtain ⟨hanswer, hhandled⟩ := guarded_handled down now h
          exact ⟨htenant, hactive, hhandled, fun code hcode => by rw [← Option.some.inj hcode, hanswer]⟩

theorem authenticated_credential {db after : Db} {request : Request} {claims : Claims}
    (h : authenticate cfg db down now request.authorization request.cookie = (.ok claims, after)) :
    (BearerAccepted cfg db now request.authorization claims ∨
      SessionAccepted cfg db down now request.authorization request.cookie claims) ∧
      after.policy = db.policy := by
  have haccepted := authenticate_ok cfg db down now (congrArg Prod.fst h)
  have hpolicy := authenticate_policy cfg db down now request.authorization request.cookie
  rw [h] at hpolicy
  exact ⟨haccepted, hpolicy⟩

theorem middleware_admits {permission : Option String} {registration : Registration} {db : Db}
    {request : Request} {call : Call}
    (hregistration : ∀ code, registration = .register code → permission = some code)
    (hplatform : ∀ code, registration ≠ .registerPlatform code)
    (h : (middleware env cfg down now permission db request).1 = .handled call) :
    Admitted env cfg down now registration db request call := by
  obtain ⟨hcsrf, claims, after, hauthenticate, hadmit⟩ := checked_handled cfg down now
    (fun db claims => admitMember env down now permission db request.tenantID claims) h
  obtain ⟨hcredential, hpolicy⟩ := authenticated_credential cfg down now hauthenticate
  obtain ⟨htenant, hactive, hhandled, hcheck⟩ := admitMember_handled env down now hadmit
  obtain ⟨rfl, htrusted⟩ := handler_call now hhandled
  rw [hpolicy] at hactive
  exact {
    credential := hcredential
    origin := fun _ hmethod hsession => origin_of_session cfg db down now hcsrf hmethod hsession
    member := fun _ => ⟨htenant, hactive⟩
    permission := fun code hcode => check_holds env (by
      rw [htrusted, ← hpolicy]
      exact hcheck code (hregistration code hcode))
    platform := fun code hcode => absurd hcode (hplatform code) }

theorem platformMiddleware_admits {permission : String} {db : Db} {request : Request} {call : Call}
    (h : (platformMiddleware cfg down now permission db request).1 = .handled call) :
    Admitted env cfg down now (.registerPlatform permission) db request call := by
  obtain ⟨hcsrf, claims, after, hauthenticate, hadmit⟩ := checked_handled cfg down now
    (fun db claims => guarded down now (checkPlatform db.policy permission claims.subject) claims) h
  obtain ⟨hcredential, hpolicy⟩ := authenticated_credential cfg down now hauthenticate
  obtain ⟨hanswer, hhandled⟩ := guarded_handled down now hadmit
  obtain ⟨rfl, -⟩ := handler_call now hhandled
  rw [hpolicy] at hanswer
  exact {
    credential := hcredential
    origin := fun _ hmethod hsession => origin_of_session cfg db down now hcsrf hmethod hsession
    member := fun htenant => nomatch htenant
    permission := fun code hcode => nomatch hcode
    platform := fun code hcode => by
      rw [← Registration.registerPlatform.inj hcode]
      exact checkPlatform_holds hanswer }

theorem authenticatedOnly_admits {db : Db} {request : Request} {call : Call}
    (h : (authenticatedOnly cfg down now db request).1 = .handled call) :
    Admitted env cfg down now .registerAuthenticated db request call := by
  unfold authenticatedOnly at h
  cases hauthenticate : authenticate cfg db down now request.authorization request.cookie with
  | mk result after =>
    rw [hauthenticate] at h
    cases result with
    | error e => nomatch h
    | ok claims =>
      obtain ⟨rfl, -⟩ := handler_call now h
      exact {
        credential := (authenticated_credential cfg down now hauthenticate).1
        origin := fun hother => absurd rfl hother
        member := fun htenant => nomatch htenant
        permission := fun code hcode => nomatch hcode
        platform := fun code hcode => nomatch hcode }

/-- Whatever the request and the state: a handler is called only with what the registration of its
operation asks for. -/
theorem serve_admits {operation : Operation} {db : Db} {request : Request} {call : Call}
    (h : (serve env cfg down now operation db request).1 = .handled call) :
    Admitted env cfg down now operation.registration db request call := by
  unfold serve at h
  cases hregistration : operation.registration with
  | register permission =>
    rw [hregistration] at h
    exact middleware_admits env cfg down now (fun code hcode => by rw [Registration.register.inj hcode])
      (fun code hcode => nomatch hcode) h
  | registerTenantMember =>
    rw [hregistration] at h
    exact middleware_admits env cfg down now (fun code hcode => nomatch hcode)
      (fun code hcode => nomatch hcode) h
  | registerAuthenticated =>
    rw [hregistration] at h
    exact authenticatedOnly_admits env cfg down now h
  | registerPlatform permission =>
    rw [hregistration] at h
    exact platformMiddleware_admits env cfg down now h

end Gateway

/-! ### A token of another tenant -/

/-- Two tenants, and a principal who administers one and is a member of both. -/
def smallPolicy : PolicyStore.Db where
  tenants := ⟨[⟨"acme", .active⟩, ⟨"globex", .active⟩], by decide⟩
  principals := .single ⟨"ada", "ada", "ada@acme.test", .active⟩
  tenantMembers := ⟨[⟨"acme", "ada", "", .active⟩, ⟨"globex", "ada", "", .active⟩], by decide⟩
  roles := .single ⟨"globex", "owner", "owner"⟩
  rolePermissions := .single ⟨"globex", "owner", "tenant_administer", ""⟩
  roleMembers := .single ⟨"globex", "owner", "ada", 0⟩

def smallDb : Db where
  policy := smallPolicy
  sessions := ⟨[{ idHash := "s1", principalID := "ada", createdAt := 1, authTime := 1, acr := 1
                  amr := ["pwd"], lastSeenAt := 1, expiresAt := 1000, absoluteExpiresAt := 2000 }], by decide⟩

/-- Every signature verifies, and every token says what the one of the tenant does. -/
def smallSettings : Settings where
  lib := {
    base64 := fun text => some (JwksVerifier.utf8 text)
    rsaVerify := fun _ _ _ _ _ => false
    ecdsaVerify := fun _ _ _ _ _ _ _ => false
    ed25519Verify := fun _ _ _ => true }
  codec := {
    header := fun _ => some ⟨"EdDSA", "k1"⟩
    payload := fun _ => some {
      issuer := "https://id.test", subject := "ada", subjectType := "principal", audience := ["api"]
      expiresAt := 10, organizationID := "acme", clientID := "portal" } }
  tokenHash := id
  enabled := true
  issuer := "https://id.test"
  audience := ["api"]
  clockSkew := 0
  kid := "k1"
  publicKey := []
  cookieName := "cp_session"
  allowedOrigins := ["https://app.test"]
  idleTTL := 500

def createEntity : Operation := ⟨.register "entity_create", by decide⟩

def byCookie : Request where
  method := "POST"
  origin := "https://app.test"
  cookie := "cp_session=s1"
  tenantID := "globex"

def byToken : Request where
  method := "POST"
  authorization := "Bearer h.p.s"
  tenantID := "globex"

/-- The handler that a response has called, by the subject and the tenant of its claims. -/
def Response.caller : Response → Option (String × String)
  | .refused _ _ => none
  | .handled call => some (call.claims.subject, call.claims.organizationID)

theorem Response.caller_eq_some {response : Response} {subject organizationID : String}
    (h : response.caller = some (subject, organizationID)) :
    ∃ call, response = .handled call ∧ call.claims.subject = subject ∧
      call.claims.organizationID = organizationID := by
  cases response with
  | refused status message => nomatch h
  | handled call => exact ⟨call, rfl, Prod.mk.inj (Option.some.inj h)⟩

theorem cookie_served :
    (serve utcEnvironment smallSettings (fun _ => false) 5000000 createEntity smallDb byCookie).1.caller =
      some ("ada", "") := by
  decide

theorem token_served :
    (serve utcEnvironment smallSettings (fun _ => false) 5000000 createEntity smallDb byToken).1.caller =
      some ("ada", "acme") := by
  decide

theorem cookie_admitted : ∃ call,
    (serve utcEnvironment smallSettings (fun _ => false) 5000000 createEntity smallDb byCookie).1 =
      .handled call ∧
    Admitted utcEnvironment smallSettings (fun _ => false) 5000000 createEntity.registration smallDb byCookie
      call := by
  obtain ⟨call, hserved, -⟩ := Response.caller_eq_some cookie_served
  exact ⟨call, hserved, serve_admits _ _ _ _ hserved⟩

/-- The token was issued for one tenant, and the operation runs in another. -/
theorem token_crosses_tenants : ∃ call,
    (serve utcEnvironment smallSettings (fun _ => false) 5000000 createEntity smallDb byToken).1 =
      .handled call ∧
    ¬Confined utcEnvironment smallSettings (fun _ => false) 5000000 createEntity.registration smallDb byToken
      call := by
  obtain ⟨call, hserved, -, horganization⟩ := Response.caller_eq_some token_served
  refine ⟨call, hserved, fun hconfined => ?_⟩
  have hown := hconfined.organization rfl (by rw [horganization]; decide)
  rw [horganization] at hown
  exact absurd hown (by decide)

end RequestGateway
