import ChaosPlus.Base64Text
import ChaosPlus.IntegerText
import ChaosPlus.JsonCanonicalForm
import ChaosPlus.MemberRule
import ChaosPlus.WebCredentials

/-!
# Access tokens

What an issued token says and what its bearer is taken for. A payload is written as the members
that are present; the verifier reads a fixed record, in which a member that is absent has its zero
value. Identity tokens have the same form and the same key. The signature, the claims of the
enricher and the random id of a token are parameters.
-/
namespace AccessTokens

open JsonDocument JsonEncoding JsonCanonicalForm
open JwksVerifier (Bytes splitParts utf8)
open MemberRule (decodeArray decodeBool decodeInt decodeRecord decodeString namesField)
open ScopeWords (fields)
open WebCredentials (AuthnError SubjectType foldsToBearer hasAudience validSubjectType)

/-! ### Times -/

structure Time where
  unix : Int64
  nanos : Fin 1000000000
  deriving DecidableEq

namespace Time

/-- The zero value of the host language, in the year one. -/
def zero : Time := ⟨-62135596800, 0⟩

def ofUnix (seconds : Int64) : Time := ⟨seconds, 0⟩

def toNanos (t : Time) : Int := t.unix.toInt * 1000000000 + t.nanos

def add (t : Time) (duration : Int) : Time :=
  let total := t.nanos + duration
  ⟨t.unix + .ofInt (total / 1000000000), Fin.ofNat _ (total % 1000000000).toNat⟩

end Time

/-! ### Claims -/

structure Assurance where
  authTime : Time := .zero
  level : Int64 := 0
  methods : List String := []
  clientID : String := ""
  networkZone : String := ""

structure Claims where
  issuer : String := ""
  subject : String := ""
  subjectType : String := ""
  audience : List String := []
  expiresAt : Time := .zero
  issuedAt : Time := .zero
  authTime : Time := .zero
  preferredUsername : String := ""
  email : String := ""
  emailVerified : Bool := false
  organizationID : String := ""
  credentialVersion : Int64 := 0
  acr : Int64 := 0
  amr : List String := []
  clientID : String := ""
  networkZone : String := ""
  deriving DecidableEq

structure ClaimContext where
  tokenType : String
  subject : String
  tenantID : String
  audience : String
  scope : String := ""

/-- The claims of an enricher, in the form that they are written in. -/
structure Extension where
  claims : List (String × Json)
  written : Written (sortKeys (.object claims))

/-- Starting the service sets an audience and a positive skew where none is configured. -/
structure Settings where
  issuer : String
  audience : List String
  configured : audience ≠ []
  accessTokenTTL : Int
  clockSkew : Int
  lenient : 0 < clockSkew
  kid : String
  sign : Bytes → Bytes
  verify : Bytes → Bytes → Bool
  verify_sign : ∀ message, verify message (sign message) = true
  enrich : ClaimContext → Except AuthnError Extension

/-! ### Tokens -/

section Tokens

variable (cfg : Settings)

def segment (value : Json) : List Char := Base64Text.encode (marshal value)

def header : Json := .object [("alg", .string "EdDSA"), ("kid", .string cfg.kid), ("typ", .string "JWT")]

def signed (payload : Json) : List Char := segment (header cfg) ++ '.' :: segment payload

def sign (payload : Json) : String :=
  String.ofList (signed cfg payload ++ '.' ::
    Base64Text.encode (cfg.sign (utf8 (String.ofList (signed cfg payload)))))

/-- The members that are present. -/
def members (payload : List (String × Option Json)) : List (String × Json) :=
  payload.filterMap fun member => member.2.map fun value => (member.1, value)

def number (n : Int64) : Json := .number (toString n.toInt)

def texts (items : List String) : Json := .array (items.map .string)

def present (text : String) : Option Json := if text = "" then none else some (.string text)

def extension (ext : Extension) : Option Json :=
  if ext.claims = [] then none else some (.object ext.claims)

def levelMember (level : Int64) : Option Json := if 0 < level then some (number level) else none

def methodsMember (methods : List String) : Option Json :=
  if methods = [] then none else some (texts methods)

/-- The arguments of `issueSubjectToken`. -/
structure Issue where
  subjectType : SubjectType
  subject : String
  tenantID : String
  audience : String
  scope : String
  credentialVersion : Int64
  username : String
  email : String
  emailVerified : Bool
  assurance : Assurance

def subjectTypeText : SubjectType → String
  | .principal => "principal"
  | .oauthClient => "oauth_client"
  | .service => "service"
  | .serviceAccount => "service_account"

/-- Whether the token of a subject has a credential version. -/
def versioned (subjectType : SubjectType) : Bool :=
  subjectType = .principal || subjectType = .serviceAccount

def audienceOf (i : Issue) : String := if i.audience = "" then cfg.audience.headD "" else i.audience

/-- The members by key; a map is written in this order. -/
def accessPayload (now : Time) (jti : String) (i : Issue) (ext : Extension) :
    List (String × Option Json) := [
  ("acr", levelMember i.assurance.level),
  ("amr", methodsMember i.assurance.methods),
  ("aud", some (texts [audienceOf cfg i])),
  ("auth_time", if i.assurance.authTime = .zero then none else some (number i.assurance.authTime.unix)),
  ("client_id", present i.assurance.clientID),
  ("credential_version", if versioned i.subjectType then some (number i.credentialVersion) else none),
  ("email", some (.string i.email)),
  ("email_verified", if i.subjectType = .principal then some (.bool i.emailVerified) else none),
  ("exp", some (number (now.add cfg.accessTokenTTL).unix)),
  ("ext", extension ext),
  ("iat", some (number now.unix)),
  ("iss", some (.string cfg.issuer)),
  ("jti", some (.string jti)),
  ("network_zone", present i.assurance.networkZone),
  ("organization_id", present i.tenantID),
  ("preferred_username", some (.string i.username)),
  ("scope", some (.string i.scope)),
  ("sub", some (.string i.subject)),
  ("subject_type", some (.string (subjectTypeText i.subjectType)))]

def issueSubjectToken (now : Time) (jti : String) (i : Issue) : Except AuthnError String :=
  if i.subject = "" then .error .invalidToken
  else do
    let ext ← cfg.enrich ⟨"access_token", i.subject, i.tenantID, audienceOf cfg i, i.scope⟩
    return sign cfg (.object (members (accessPayload cfg now jti i ext)))

/-- The principal that an identity token is for. -/
structure Principal where
  subject : String
  preferredUsername : String
  email : String
  emailVerified : Bool
  credentialVersion : Int64

def idPayload (now : Time) (jti : String) (p : Principal) (tenantID clientID nonce : String)
    (assurance : Assurance) (ext : Extension) : List (String × Option Json) := [
  ("acr", levelMember assurance.level),
  ("amr", methodsMember assurance.methods),
  ("aud", some (texts [clientID])),
  ("auth_time", some (number (if assurance.authTime = .zero then 0 else assurance.authTime.unix))),
  ("credential_version", some (number p.credentialVersion)),
  ("email", some (.string p.email)),
  ("email_verified", some (.bool p.emailVerified)),
  ("exp", some (number (now.add cfg.accessTokenTTL).unix)),
  ("ext", extension ext),
  ("iat", some (number now.unix)),
  ("iss", some (.string cfg.issuer)),
  ("jti", some (.string jti)),
  ("nonce", present nonce),
  ("organization_id", present tenantID),
  ("preferred_username", some (.string p.preferredUsername)),
  ("sub", some (.string p.subject)),
  ("subject_type", some (.string "principal"))]

def issueIDToken (now : Time) (jti : String) (p : Principal) (tenantID clientID nonce : String)
    (assurance : Assurance) : Except AuthnError String := do
  let ext ← cfg.enrich { tokenType := "id_token", subject := p.subject, tenantID, audience := clientID }
  return sign cfg (.object (members (idPayload cfg now jti p tenantID clientID nonce assurance ext)))

/-! ### Verification -/

structure TokenHeader where
  alg : String := ""
  kid : String := ""

def decodeHeaderField (head : TokenHeader) (entry : String × Json) : Option TokenHeader :=
  if namesField entry.1 "alg" then (decodeString head.alg entry.2).map fun alg => { head with alg }
  else if namesField entry.1 "kid" then (decodeString head.kid entry.2).map fun kid => { head with kid }
  else some head

structure RawClaims where
  issuer : String := ""
  subject : String := ""
  subjectType : String := ""
  audience : List String := []
  expiresAt : Int64 := 0
  issuedAt : Int64 := 0
  preferredUsername : String := ""
  email : String := ""
  emailVerified : Bool := false
  organizationID : String := ""
  credentialVersion : Int64 := 0
  authTime : Int64 := 0
  acr : Int64 := 0
  amr : List String := []
  clientID : String := ""
  networkZone : String := ""

def decodeInt64 (current : Int64) (value : Json) : Option Int64 :=
  (decodeInt current.toInt value).map .ofInt

def decodeTexts (current : List String) (value : Json) : Option (List String) :=
  decodeArray "" decodeString current value

def decodeClaim (raw : RawClaims) (entry : String × Json) : Option RawClaims :=
  let (key, value) := entry
  if namesField key "iss" then
    (decodeString raw.issuer value).map fun issuer => { raw with issuer }
  else if namesField key "sub" then
    (decodeString raw.subject value).map fun subject => { raw with subject }
  else if namesField key "subject_type" then
    (decodeString raw.subjectType value).map fun subjectType => { raw with subjectType }
  else if namesField key "aud" then
    (decodeTexts raw.audience value).map fun audience => { raw with audience }
  else if namesField key "exp" then
    (decodeInt64 raw.expiresAt value).map fun expiresAt => { raw with expiresAt }
  else if namesField key "iat" then
    (decodeInt64 raw.issuedAt value).map fun issuedAt => { raw with issuedAt }
  else if namesField key "preferred_username" then
    (decodeString raw.preferredUsername value).map fun preferredUsername => { raw with preferredUsername }
  else if namesField key "email" then
    (decodeString raw.email value).map fun email => { raw with email }
  else if namesField key "email_verified" then
    (decodeBool raw.emailVerified value).map fun emailVerified => { raw with emailVerified }
  else if namesField key "organization_id" then
    (decodeString raw.organizationID value).map fun organizationID => { raw with organizationID }
  else if namesField key "credential_version" then
    (decodeInt64 raw.credentialVersion value).map fun credentialVersion => { raw with credentialVersion }
  else if namesField key "auth_time" then
    (decodeInt64 raw.authTime value).map fun authTime => { raw with authTime }
  else if namesField key "acr" then
    (decodeInt64 raw.acr value).map fun acr => { raw with acr }
  else if namesField key "amr" then
    (decodeTexts raw.amr value).map fun amr => { raw with amr }
  else if namesField key "client_id" then
    (decodeString raw.clientID value).map fun clientID => { raw with clientID }
  else if namesField key "network_zone" then
    (decodeString raw.networkZone value).map fun networkZone => { raw with networkZone }
  else some raw

/-- A record that is decoded from a part of a token. -/
def decodeSegment {α : Type} (decodeField : α → String × Json → Option α) (fresh : α) (text : String) :
    Option α :=
  (Base64Text.decode text.toList).bind fun bytes =>
    (parseText (decodeUtf8 bytes)).bind (decodeRecord decodeField fresh)

def claimsOf (raw : RawClaims) : Claims where
  issuer := raw.issuer
  subject := raw.subject
  subjectType := raw.subjectType
  audience := raw.audience
  expiresAt := .ofUnix raw.expiresAt
  issuedAt := .ofUnix raw.issuedAt
  authTime := .ofUnix raw.authTime
  preferredUsername := raw.preferredUsername
  email := raw.email
  emailVerified := raw.emailVerified
  organizationID := raw.organizationID
  credentialVersion := raw.credentialVersion
  acr := raw.acr
  amr := raw.amr
  clientID := raw.clientID
  networkZone := raw.networkZone

def expired (now : Time) (raw : RawClaims) : Bool :=
  (Time.ofUnix raw.expiresAt).toNanos + cfg.clockSkew < now.toNanos

def checkClaims (now : Time) (raw : RawClaims) : Except AuthnError Claims :=
  if raw.issuer ≠ cfg.issuer || raw.subject = "" || (validSubjectType raw.subjectType).isNone ||
      expired cfg now raw then .error .invalidToken
  else if cfg.audience ≠ [] && !hasAudience raw.audience cfg.audience then .error .invalidAudience
  else .ok (claimsOf raw)

def signatureAccepted (header payload signature : String) : Bool :=
  (Base64Text.decode signature.toList).any fun sig => cfg.verify (utf8 (header ++ "." ++ payload)) sig

def verifyParts (now : Time) (header payload signature : String) : Except AuthnError Claims :=
  if !(decodeSegment decodeHeaderField {} header).any (fun head => head.alg = "EdDSA" && head.kid = cfg.kid)
  then .error .invalidToken
  else if !signatureAccepted cfg header payload signature then .error .invalidToken
  else
    match decodeSegment decodeClaim {} payload with
    | none => .error .invalidToken
    | some raw => checkClaims cfg now raw

def verifyAccessToken (now : Time) (authorization : String) : Except AuthnError Claims :=
  match fields authorization with
  | [scheme, token] =>
    if !foldsToBearer scheme then .error .invalidBearer
    else
      match splitParts token with
      | none => .error .invalidToken
      | some (header, payload, signature) => verifyParts cfg now header payload signature
  | _ => .error .invalidBearer

end Tokens

/-! ## What a record reads from a written token -/

theorem decodeString_sortKeys (current : String) (value : Json) :
    decodeString current (sortKeys value) = decodeString current value := by
  cases value <;> rfl

theorem decodeInt64_sortKeys (current : Int64) (value : Json) :
    decodeInt64 current (sortKeys value) = decodeInt64 current value := by
  cases value <;> rfl

theorem decodeBool_sortKeys (current : Bool) (value : Json) :
    decodeBool current (sortKeys value) = decodeBool current value := by
  cases value <;> rfl

theorem decodeTexts_sortKeys (current : List String) (value : Json) :
    decodeTexts current (sortKeys value) = decodeTexts current value := by
  cases value with
  | array items =>
    simp only [decodeTexts, sortKeys, decodeArray]
    induction items generalizing current with
    | nil => rfl
    | cons item rest ih => simp only [sortItems, MemberRule.decodeElements, decodeString_sortKeys, ih]
  | _ => rfl

/-- The order of the keys inside a member does not matter to the record. -/
theorem decodeClaim_sortKeys (raw : RawClaims) (key : String) (value : Json) :
    decodeClaim raw (key, sortKeys value) = decodeClaim raw (key, value) := by
  simp only [decodeClaim, decodeString_sortKeys, decodeInt64_sortKeys, decodeBool_sortKeys,
    decodeTexts_sortKeys]

theorem foldlM_sortEntries {α : Type} {step : α → String × Json → Option α}
    (h : ∀ a key value, step a (key, sortKeys value) = step a (key, value))
    (entries : List (String × Json)) (a : α) :
    (sortEntries entries).foldlM step a = entries.foldlM step a := by
  induction entries generalizing a with
  | nil => rfl
  | cons entry rest ih =>
    simp only [sortEntries, List.foldlM_cons, h, ih]

/-- Members that stand in the order of their keys are written in that order. -/
theorem sortKeys_object {entries : List (String × Json)}
    (h : (entries.map Prod.fst).Pairwise fun a b => a ≤ b) :
    sortKeys (.object entries) = .object (sortEntries entries) := by
  rw [sortKeys, List.mergeSort_of_pairwise]
  rw [← sortEntries_keys entries, List.pairwise_map] at h
  exact h.imp fun hkeys => by simpa [keyOrder] using hkeys

theorem members_sorted {payload : List (String × Option Json)}
    (h : (payload.map Prod.fst).Pairwise fun a b => a ≤ b) :
    ((members payload).map Prod.fst).Pairwise fun a b => a ≤ b := by
  rw [members, List.pairwise_map, List.pairwise_filterMap]
  refine (List.pairwise_map.mp h).imp fun hkeys entry hentry other hother => ?_
  obtain ⟨_, -, rfl⟩ := Option.map_eq_some_iff.mp hentry
  obtain ⟨_, -, rfl⟩ := Option.map_eq_some_iff.mp hother
  exact hkeys

/-- A part of a token is read back if it nests within the limit of the decoder. -/
theorem decodeSegment_segment {α : Type} {step : α → String × Json → Option α} (fresh : α)
    (h : ∀ a key value, step a (key, sortKeys value) = step a (key, value))
    {entries : List (String × Json)} (hsorted : (entries.map Prod.fst).Pairwise fun a b => a ≤ b)
    (hwritten : Written (sortKeys (.object entries))) (result : α) :
    decodeSegment step fresh (String.ofList (segment (.object entries))) = some result ↔
      WellFormed 0 (sortKeys (.object entries)) ∧ entries.foldlM step fresh = some result := by
  have hread : decodeSegment step fresh (String.ofList (segment (.object entries))) =
      (parseText (encodeValue (sortKeys (.object entries)))).bind (decodeRecord step fresh) := by
    rw [decodeSegment, String.toList_ofList, segment, Base64Text.decode_encode, Option.bind_some,
      marshal, decodeUtf8_encode, encodeText]
  rw [hread, Option.bind_eq_some_iff]
  constructor
  · rintro ⟨read, hparse, hdecode⟩
    obtain ⟨rfl, hformed⟩ := (parseText_encode_iff hwritten).mp hparse
    rw [sortKeys_object hsorted, decodeRecord, foldlM_sortEntries h] at hdecode
    exact ⟨hformed, hdecode⟩
  · rintro ⟨hformed, hdecode⟩
    refine ⟨_, parseText_encode hformed, ?_⟩
    rw [sortKeys_object hsorted, decodeRecord, foldlM_sortEntries h]
    exact hdecode

/-! ## The form of a token -/

section Form

variable {cfg : Settings}

theorem splitParts_sign (payload : Json) :
    splitParts (sign cfg payload) = some (String.ofList (segment (header cfg)),
      String.ofList (segment payload),
      String.ofList (Base64Text.encode (cfg.sign (utf8 (String.ofList (signed cfg payload)))))) := by
  have hdot (cs : List Char) (h : ∀ c ∈ cs, Base64Text.isDigitChar c = true) : '.' ∉ cs := fun hmem =>
    absurd (h '.' hmem) (by decide)
  have hsplit : (sign cfg payload).toList.splitOn '.' = [segment (header cfg), segment payload,
      Base64Text.encode (cfg.sign (utf8 (String.ofList (signed cfg payload))))] := by
    have hjoin : (sign cfg payload).toList = ['.'].intercalate [segment (header cfg), segment payload,
        Base64Text.encode (cfg.sign (utf8 (String.ofList (signed cfg payload))))] := by
      simp [sign, signed, List.intercalate]
    rw [hjoin]
    apply List.splitOn_intercalate _ _ (by simp)
    intro part hpart
    simp only [List.mem_cons, List.not_mem_nil, or_false] at hpart
    rcases hpart with rfl | rfl | rfl
    · exact hdot _ fun _ => Base64Text.isDigitChar_of_mem
    · exact hdot _ fun _ => Base64Text.isDigitChar_of_mem
    · exact hdot _ fun _ => Base64Text.isDigitChar_of_mem
  rw [splitParts, hsplit]

theorem isSpace_of_isDigitChar {c : Char} (h : Base64Text.isDigitChar c = true) : GoText.isSpace c = false := by
  have hrange : 45 ≤ c.toNat ∧ c.toNat ≤ 122 := by
    simp only [Base64Text.isDigitChar, Char.isAlphanum, Char.isDigit, Bool.or_eq_true,
      Bool.and_eq_true, decide_eq_true_eq, UInt32.le_iff_toNat_le, ge_iff_le] at h
    rcases h with ((hletter | ⟨hlow, hhigh⟩) | rfl) | rfl
    · obtain ⟨hlow, hhigh⟩ := GoText.toNat_of_isAlpha hletter
      exact ⟨Nat.le_trans (by decide) hlow, hhigh⟩
    · exact ⟨Nat.le_trans (by decide) hlow, Nat.le_trans hhigh (by decide)⟩
    · decide
    · decide
  simp only [GoText.isSpace, Bool.or_eq_false_iff, Bool.and_eq_false_iff, decide_eq_false_iff_not]
  omega

theorem isSpace_sign (payload : Json) : ∀ c ∈ (sign cfg payload).toList, GoText.isSpace c = false := by
  have hdigit (cs : List Char) (h : ∀ c ∈ cs, Base64Text.isDigitChar c = true) :
      ∀ c ∈ cs, GoText.isSpace c = false := fun c hc => isSpace_of_isDigitChar (h c hc)
  intro c hc
  simp only [sign, signed, String.toList_ofList, List.mem_append, List.mem_cons] at hc
  rcases hc with (hc | rfl | hc) | rfl | hc
  · exact hdigit _ (fun _ => Base64Text.isDigitChar_of_mem) c hc
  · decide
  · exact hdigit _ (fun _ => Base64Text.isDigitChar_of_mem) c hc
  · decide
  · exact hdigit _ (fun _ => Base64Text.isDigitChar_of_mem) c hc

/-- A bearer's header is the scheme and the token. -/
theorem fields_bearer (payload : Json) :
    fields ("Bearer " ++ sign cfg payload) = ["Bearer", sign cfg payload] := by
  have hscheme : ("Bearer " ++ sign cfg payload).toList =
      "Bearer".toList ++ (' ' :: ((sign cfg payload).toList ++ [])) := by
    simp
  have hopen : "Bearer".toList.all (fun c => !GoText.isSpace c) = true := rfl
  have hne : (sign cfg payload).toList ≠ [] := by
    simp [sign]
  rw [fields, hscheme, ScopeWords.fieldsFrom_append fun c hc => by
    simpa using List.all_eq_true.mp hopen c hc]
  have hblank : GoText.isSpace ' ' = true := by decide
  rw [ScopeWords.fieldsFrom, if_pos hblank, if_neg (by decide),
    ScopeWords.fieldsFrom_append (isSpace_sign payload), ScopeWords.fieldsFrom]
  simp [hne]

theorem decodeHeader_sortKeys (head : TokenHeader) (key : String) (value : Json) :
    decodeHeaderField head (key, sortKeys value) = decodeHeaderField head (key, value) := by
  simp only [decodeHeaderField, decodeString_sortKeys]

theorem decodeHeader_header : decodeSegment decodeHeaderField {} (String.ofList (segment (header cfg))) =
    some ⟨"EdDSA", cfg.kid⟩ := by
  have hformed : WellFormed 0 (header cfg) := by
    simp [header, WellFormed, EntriesWellFormed, maxNestingDepth]
  have hkeys : ["alg", "kid", "typ"].Pairwise (fun a b => a ≤ b) := by decide
  have hsorted : ([("alg", .string "EdDSA"), ("kid", .string cfg.kid), ("typ", .string "JWT")].map
      (@Prod.fst String Json)).Pairwise (fun a b => a ≤ b) := hkeys
  refine (decodeSegment_segment _ decodeHeader_sortKeys hsorted
    (WellFormed.written _ (sortKeys_wellFormed _ hformed)) _).mpr ⟨sortKeys_wellFormed _ hformed, ?_⟩
  simp +decide [decodeHeaderField, decodeString]

/-- Of a token that was issued only the payload counts. -/
theorem verifyParts_sign (now : Time) (payload : Json) :
    verifyParts cfg now (String.ofList (segment (header cfg))) (String.ofList (segment payload))
      (String.ofList (Base64Text.encode (cfg.sign (utf8 (String.ofList (signed cfg payload)))))) =
    match decodeSegment decodeClaim {} (String.ofList (segment payload)) with
    | none => .error .invalidToken
    | some raw => checkClaims cfg now raw := by
  have hsigned : String.ofList (segment (header cfg)) ++ "." ++ String.ofList (segment payload) =
      String.ofList (signed cfg payload) := by
    rw [← String.toList_inj]
    simp [signed]
  have haccepted : signatureAccepted cfg (String.ofList (segment (header cfg)))
      (String.ofList (segment payload))
      (String.ofList (Base64Text.encode (cfg.sign (utf8 (String.ofList (signed cfg payload)))))) = true := by
    rw [signatureAccepted, String.toList_ofList, Base64Text.decode_encode, hsigned]
    simp [cfg.verify_sign]
  rw [verifyParts, decodeHeader_header, haccepted]
  simp

/-- An issued token is taken for what its payload decodes to. -/
theorem verifyAccessToken_sign (now : Time) (payload : Json) :
    verifyAccessToken cfg now ("Bearer " ++ sign cfg payload) =
    match decodeSegment decodeClaim {} (String.ofList (segment payload)) with
    | none => .error .invalidToken
    | some raw => checkClaims cfg now raw := by
  have hscheme : foldsToBearer "Bearer" = true := by decide
  rw [verifyAccessToken, fields_bearer]
  simp [hscheme, splitParts_sign, verifyParts_sign]

end Form

/-! ## Members -/

/-- A value without objects. -/
inductive Simple : Json → Prop where
  | string (text : String) : Simple (.string text)
  | bool (flag : Bool) : Simple (.bool flag)
  | number (n : Int64) : Simple (number n)
  | texts (items : List String) : Simple (texts items)

theorem Simple.wellFormed {value : Json} (h : Simple value) : WellFormed 1 (sortKeys value) := by
  cases h with
  | string text => trivial
  | bool flag => trivial
  | number n => exact IntegerText.isNumber_int n.toInt
  | texts items =>
    refine sortKeys_wellFormed _ ⟨by decide, itemsWellFormed_iff.mpr fun item hitem => ?_⟩
    obtain ⟨text, -, rfl⟩ := List.mem_map.mp hitem
    trivial

/-- The members that can be present: the claims of the enricher and values without objects. -/
def Known (ext : Extension) (payload : List (String × Option Json)) : Prop :=
  ∀ member ∈ payload, ∀ value, member.2 = some value → Simple value ∨ extension ext = some value

theorem known_cons {ext : Extension} {key : String} {value : Option Json} {rest : List (String × Option Json)} :
    Known ext ((key, value) :: rest) ↔
      (∀ v, value = some v → Simple v ∨ extension ext = some v) ∧ Known ext rest := by
  simp [Known]

theorem known_level {level : Int64} {value : Json} (h : levelMember level = some value) : Simple value := by
  unfold levelMember at h
  split_ifs at h
  cases h
  exact .number level

theorem known_methods {methods : List String} {value : Json} (h : methodsMember methods = some value) :
    Simple value := by
  unfold methodsMember at h
  split_ifs at h
  cases h
  exact .texts methods

theorem known_present {text : String} {value : Json} (h : present text = some value) : Simple value := by
  unfold present at h
  split_ifs at h
  cases h
  exact .string text

theorem known_accessPayload (cfg : Settings) (now : Time) (jti : String) (i : Issue) (ext : Extension) :
    Known ext (accessPayload cfg now jti i ext) := by
  have hsome (v : Json) (h : Simple v) (w : Json) (hw : some v = some w) :
      Simple w ∨ extension ext = some w := .inl (Option.some.inj hw ▸ h)
  simp only [accessPayload, known_cons]
  refine ⟨fun v h => .inl (known_level h), fun v h => .inl (known_methods h), hsome _ (.texts _), ?_,
    fun v h => .inl (known_present h), ?_, hsome _ (.string _), ?_, hsome _ (.number _),
    fun v h => .inr h, hsome _ (.number _), hsome _ (.string _), hsome _ (.string _),
    fun v h => .inl (known_present h), fun v h => .inl (known_present h), hsome _ (.string _),
    hsome _ (.string _), hsome _ (.string _), hsome _ (.string _), nofun⟩
  · intro v h
    split_ifs at h
    exact hsome _ (.number _) v h
  · intro v h
    split_ifs at h
    exact hsome _ (.number _) v h
  · intro v h
    split_ifs at h
    exact hsome _ (.bool _) v h

theorem known_idPayload (cfg : Settings) (now : Time) (jti : String) (p : Principal)
    (tenantID clientID nonce : String) (assurance : Assurance) (ext : Extension) :
    Known ext (idPayload cfg now jti p tenantID clientID nonce assurance ext) := by
  have hsome (v : Json) (h : Simple v) (w : Json) (hw : some v = some w) :
      Simple w ∨ extension ext = some w := .inl (Option.some.inj hw ▸ h)
  simp only [idPayload, known_cons]
  exact ⟨fun v h => .inl (known_level h), fun v h => .inl (known_methods h), hsome _ (.texts _),
    hsome _ (.number _), hsome _ (.number _), hsome _ (.string _), hsome _ (.bool _), hsome _ (.number _),
    fun v h => .inr h, hsome _ (.number _), hsome _ (.string _), hsome _ (.string _),
    fun v h => .inl (known_present h), fun v h => .inl (known_present h), hsome _ (.string _),
    hsome _ (.string _), hsome _ (.string _), nofun⟩

theorem mem_members {payload : List (String × Option Json)} {key : String} {value : Json} :
    (key, value) ∈ members payload ↔ (key, some value) ∈ payload := by
  simp only [members, List.mem_filterMap, Option.map_eq_some_iff, Prod.mk.injEq]
  constructor
  · rintro ⟨⟨_, _⟩, hmember, _, rfl, rfl, rfl⟩
    exact hmember
  · intro hmember
    exact ⟨_, hmember, value, rfl, rfl, rfl⟩

theorem sortEntries_eq_map (entries : List (String × Json)) :
    sortEntries entries = entries.map fun entry => (entry.1, sortKeys entry.2) := by
  induction entries with
  | nil => rfl
  | cons entry rest ih => rw [sortEntries, ih, List.map_cons]

theorem entriesWritten_iff {entries : List (String × Json)} :
    EntriesWritten entries ↔ ∀ entry ∈ entries, Written entry.2 := by
  induction entries with
  | nil => simp [EntriesWritten]
  | cons entry rest ih => simp [EntriesWritten, ih]

/-- The claims of an enricher, inside a payload, nest within the limit of the decoder. -/
def Readable (ext : Extension) : Prop :=
  ext.claims = [] ∨ WellFormed 1 (sortKeys (.object ext.claims))

section Payload

variable {ext : Extension} {payload : List (String × Option Json)}
  (hknown : Known ext payload) (hsorted : (payload.map Prod.fst).Pairwise fun a b => a ≤ b)

include hknown hsorted

theorem written_payload : Written (sortKeys (.object (members payload))) := by
  rw [sortKeys_object (members_sorted hsorted), Written, entriesWritten_iff, sortEntries_eq_map]
  rintro _ hentry
  obtain ⟨⟨key, value⟩, hmember, rfl⟩ := List.mem_map.mp hentry
  rcases hknown _ (mem_members.mp hmember) value rfl with hsimple | hext
  · exact WellFormed.written _ hsimple.wellFormed
  · unfold extension at hext
    split_ifs at hext
    cases hext
    exact ext.written

theorem wellFormed_payload (hext : ("ext", extension ext) ∈ payload) :
    WellFormed 0 (sortKeys (.object (members payload))) ↔ Readable ext := by
  rw [sortKeys_object (members_sorted hsorted), WellFormed, entriesWellFormed_iff, sortEntries_eq_map]
  constructor
  · rintro ⟨-, hall⟩
    by_cases hnone : ext.claims = []
    · exact .inl hnone
    · rw [extension, if_neg hnone] at hext
      exact .inr (hall _ (List.mem_map_of_mem (mem_members.mpr hext)))
  · intro hreadable
    refine ⟨by decide, fun entry hentry => ?_⟩
    obtain ⟨⟨key, value⟩, hmember, rfl⟩ := List.mem_map.mp hentry
    rcases hknown _ (mem_members.mp hmember) value rfl with hsimple | hvalue
    · exact hsimple.wellFormed
    · unfold extension at hvalue
      split_ifs at hvalue with hnone
      cases hvalue
      exact hreadable.resolve_left hnone

end Payload

/-! ## What the record holds -/

theorem foldlM_members {α : Type} (step : α → String × Json → Option α) (a : α) (key : String)
    (value : Option Json) (rest : List (String × Option Json)) :
    (members ((key, value) :: rest)).foldlM step a =
      (value.elim (some a) fun v => step a (key, v)).bind fun b => (members rest).foldlM step b := by
  cases value <;> rfl

theorem decodeInt64_number (current n : Int64) : decodeInt64 current (number n) = some n := by
  simp only [decodeInt64, number, decodeInt]
  rw [IntegerText.parseInt64_toString (by simpa using n.le_toInt) (by simpa using n.toInt_lt)]
  simp

theorem decodeTexts_texts (current items : List String) : decodeTexts current (texts items) = some items := by
  simp only [decodeTexts, texts, decodeArray]
  induction items generalizing current with
  | nil => rfl
  | cons item rest ih => simp [MemberRule.decodeElements, decodeString, ih]

/-! Each of the sixteen names of the record decodes its own member. -/

section Members

variable (raw : RawClaims)

theorem read_level (level : Int64) :
    ((levelMember level).elim (some raw) fun v => decodeClaim raw ("acr", v)) =
      some { raw with acr := if 0 < level then level else raw.acr } := by
  unfold levelMember
  split_ifs
  · simp +decide [decodeClaim, decodeInt64_number]
  · rfl

theorem read_methods (methods : List String) :
    ((methodsMember methods).elim (some raw) fun v => decodeClaim raw ("amr", v)) =
      some { raw with amr := if methods = [] then raw.amr else methods } := by
  unfold methodsMember
  split_ifs
  · rfl
  · simp +decide [decodeClaim, decodeTexts_texts]

theorem read_aud (audience : List String) :
    decodeClaim raw ("aud", texts audience) = some { raw with audience } := by
  simp +decide [decodeClaim, decodeTexts_texts]

theorem read_authTime (seconds : Int64) :
    decodeClaim raw ("auth_time", number seconds) = some { raw with authTime := seconds } := by
  simp +decide [decodeClaim, decodeInt64_number]

theorem read_authTime_unless (absent : Prop) [Decidable absent] (seconds : Int64) :
    ((if absent then none else some (number seconds)).elim (some raw) fun v => decodeClaim raw ("auth_time", v)) =
      some { raw with authTime := if absent then raw.authTime else seconds } := by
  split_ifs
  · rfl
  · exact read_authTime raw seconds

theorem read_clientID (text : String) :
    ((present text).elim (some raw) fun v => decodeClaim raw ("client_id", v)) =
      some { raw with clientID := if text = "" then raw.clientID else text } := by
  unfold present
  split_ifs
  · rfl
  · simp +decide [decodeClaim, decodeString]

theorem read_credentialVersion (version : Int64) :
    decodeClaim raw ("credential_version", number version) =
      some { raw with credentialVersion := version } := by
  simp +decide [decodeClaim, decodeInt64_number]

theorem read_credentialVersion_if (given : Prop) [Decidable given] (version : Int64) :
    ((if given then some (number version) else none).elim (some raw) fun v =>
      decodeClaim raw ("credential_version", v)) =
      some { raw with credentialVersion := if given then version else raw.credentialVersion } := by
  split_ifs
  · exact read_credentialVersion raw version
  · rfl

theorem read_email (email : String) :
    decodeClaim raw ("email", .string email) = some { raw with email } := by
  simp +decide [decodeClaim, decodeString]

theorem read_emailVerified (emailVerified : Bool) :
    decodeClaim raw ("email_verified", .bool emailVerified) = some { raw with emailVerified } := by
  simp +decide [decodeClaim, decodeBool]

theorem read_emailVerified_if (given : Prop) [Decidable given] (flag : Bool) :
    ((if given then some (.bool flag) else none).elim (some raw) fun v =>
      decodeClaim raw ("email_verified", v)) =
      some { raw with emailVerified := if given then flag else raw.emailVerified } := by
  split_ifs
  · exact read_emailVerified raw flag
  · rfl

theorem read_exp (seconds : Int64) :
    decodeClaim raw ("exp", number seconds) = some { raw with expiresAt := seconds } := by
  simp +decide [decodeClaim, decodeInt64_number]

theorem read_iat (seconds : Int64) :
    decodeClaim raw ("iat", number seconds) = some { raw with issuedAt := seconds } := by
  simp +decide [decodeClaim, decodeInt64_number]

theorem read_iss (issuer : String) :
    decodeClaim raw ("iss", .string issuer) = some { raw with issuer } := by
  simp +decide [decodeClaim, decodeString]

theorem read_networkZone (text : String) :
    ((present text).elim (some raw) fun v => decodeClaim raw ("network_zone", v)) =
      some { raw with networkZone := if text = "" then raw.networkZone else text } := by
  unfold present
  split_ifs
  · rfl
  · simp +decide [decodeClaim, decodeString]

theorem read_organizationID (text : String) :
    ((present text).elim (some raw) fun v => decodeClaim raw ("organization_id", v)) =
      some { raw with organizationID := if text = "" then raw.organizationID else text } := by
  unfold present
  split_ifs
  · rfl
  · simp +decide [decodeClaim, decodeString]

theorem read_preferredUsername (preferredUsername : String) :
    decodeClaim raw ("preferred_username", .string preferredUsername) =
      some { raw with preferredUsername } := by
  simp +decide [decodeClaim, decodeString]

theorem read_sub (subject : String) :
    decodeClaim raw ("sub", .string subject) = some { raw with subject } := by
  simp +decide [decodeClaim, decodeString]

theorem read_subjectType (subjectType : String) :
    decodeClaim raw ("subject_type", .string subjectType) = some { raw with subjectType } := by
  simp +decide [decodeClaim, decodeString]

theorem read_other {key : String} (hkey : key ∈ ["ext", "jti", "nonce", "scope"]) (value : Json) :
    decodeClaim raw (key, value) = some raw := by
  simp only [List.mem_cons, List.not_mem_nil, or_false] at hkey
  rcases hkey with rfl | rfl | rfl | rfl <;> simp +decide [decodeClaim]

theorem read_jti (value : Json) : decodeClaim raw ("jti", value) = some raw := read_other raw (by simp) value

theorem read_scope (value : Json) : decodeClaim raw ("scope", value) = some raw :=
  read_other raw (by simp) value

theorem read_ext (value : Option Json) :
    (value.elim (some raw) fun v => decodeClaim raw ("ext", v)) = some raw := by
  cases value with
  | none => rfl
  | some value => exact @read_other raw "ext" (by simp) value

theorem read_nonce (value : Option Json) :
    (value.elim (some raw) fun v => decodeClaim raw ("nonce", v)) = some raw := by
  cases value with
  | none => rfl
  | some value => exact @read_other raw "nonce" (by simp) value

end Members

/-- The record that an access token is read into. -/
def accessClaims (cfg : Settings) (now : Time) (i : Issue) : RawClaims where
  issuer := cfg.issuer
  subject := i.subject
  subjectType := subjectTypeText i.subjectType
  audience := [audienceOf cfg i]
  expiresAt := (now.add cfg.accessTokenTTL).unix
  issuedAt := now.unix
  preferredUsername := i.username
  email := i.email
  emailVerified := if i.subjectType = .principal then i.emailVerified else false
  organizationID := i.tenantID
  credentialVersion := if versioned i.subjectType then i.credentialVersion else 0
  authTime := if i.assurance.authTime = .zero then 0 else i.assurance.authTime.unix
  acr := if 0 < i.assurance.level then i.assurance.level else 0
  amr := i.assurance.methods
  clientID := i.assurance.clientID
  networkZone := i.assurance.networkZone

theorem foldlM_accessPayload (cfg : Settings) (now : Time) (jti : String) (i : Issue) (ext : Extension) :
    (members (accessPayload cfg now jti i ext)).foldlM decodeClaim {} = some (accessClaims cfg now i) := by
  have hblank (text : String) : (if text = "" then "" else text) = text := by
    split_ifs with h
    · exact h.symm
    · rfl
  have hnone (items : List String) : (if items = [] then [] else items) = items := by
    split_ifs with h
    · exact h.symm
    · rfl
  simp only [accessPayload, foldlM_members, read_level, read_methods, Option.elim_some, read_aud,
    read_authTime_unless, read_clientID, read_credentialVersion_if, read_email, read_emailVerified_if,
    read_exp, read_ext, read_iat, read_iss, read_jti, read_networkZone, read_organizationID,
    read_preferredUsername, read_scope, read_sub, read_subjectType, Option.bind_some, hblank, hnone]
  rfl

/-- An identity token is read with its client as its audience. -/
theorem audience_idPayload {cfg : Settings} {now : Time} {jti : String} {p : Principal}
    {tenantID clientID nonce : String} {assurance : Assurance} {ext : Extension} {raw : RawClaims}
    (h : (members (idPayload cfg now jti p tenantID clientID nonce assurance ext)).foldlM decodeClaim {} =
      some raw) : raw.audience = [clientID] := by
  simp only [idPayload, foldlM_members, read_level, read_methods, Option.elim_some, read_aud,
    read_authTime, read_credentialVersion, read_email, read_emailVerified, read_exp, read_ext, read_iat,
    read_iss, read_jti, read_nonce, read_organizationID, read_preferredUsername, read_sub,
    read_subjectType, Option.bind_some] at h
  obtain rfl := Option.some.inj h
  rfl

/-! ## Issued and verified -/

/-- What an access token is issued to say: times to the second, and the zero value for what the
kind of subject does not have. -/
def issuedClaims (cfg : Settings) (now : Time) (i : Issue) : Claims where
  issuer := cfg.issuer
  subject := i.subject
  subjectType := subjectTypeText i.subjectType
  audience := [audienceOf cfg i]
  expiresAt := .ofUnix (now.add cfg.accessTokenTTL).unix
  issuedAt := .ofUnix now.unix
  authTime := .ofUnix i.assurance.authTime.unix
  preferredUsername := i.username
  email := i.email
  emailVerified := if i.subjectType = .principal then i.emailVerified else false
  organizationID := i.tenantID
  credentialVersion := if versioned i.subjectType then i.credentialVersion else 0
  acr := if 0 < i.assurance.level then i.assurance.level else 0
  amr := i.assurance.methods
  clientID := i.assurance.clientID
  networkZone := i.assurance.networkZone

section Verified

variable {cfg : Settings} {now : Time} {jti : String} {i : Issue} {ext : Extension}

theorem accessKeys_sorted : ((accessPayload cfg now jti i ext).map Prod.fst).Pairwise fun a b => a ≤ b := by
  have hkeys : ["acr", "amr", "aud", "auth_time", "client_id", "credential_version", "email",
      "email_verified", "exp", "ext", "iat", "iss", "jti", "network_zone", "organization_id",
      "preferred_username", "scope", "sub", "subject_type"].Pairwise fun a b => a ≤ b := by
    decide
  exact hkeys

theorem idKeys_sorted {p : Principal} {tenantID clientID nonce : String} {assurance : Assurance} :
    ((idPayload cfg now jti p tenantID clientID nonce assurance ext).map Prod.fst).Pairwise
      fun a b => a ≤ b := by
  have hkeys : ["acr", "amr", "aud", "auth_time", "credential_version", "email", "email_verified", "exp",
      "ext", "iat", "iss", "jti", "nonce", "organization_id", "preferred_username", "sub",
      "subject_type"].Pairwise fun a b => a ≤ b := by
    decide
  exact hkeys

/-- Where the claims of the enricher can be read, an access token is taken for its own claims. -/
theorem verify_accessPayload (at' : Time) :
    (Readable ext → verifyAccessToken cfg at'
        ("Bearer " ++ sign cfg (.object (members (accessPayload cfg now jti i ext)))) =
      checkClaims cfg at' (accessClaims cfg now i)) ∧
    (¬ Readable ext → verifyAccessToken cfg at'
        ("Bearer " ++ sign cfg (.object (members (accessPayload cfg now jti i ext)))) =
      .error .invalidToken) := by
  have hknown := known_accessPayload cfg now jti i ext
  have hwritten := written_payload hknown accessKeys_sorted
  have hformed := wellFormed_payload hknown accessKeys_sorted (by simp [accessPayload])
  have hread := decodeSegment_segment {} decodeClaim_sortKeys (members_sorted accessKeys_sorted) hwritten
  rw [verifyAccessToken_sign]
  constructor
  · intro hreadable
    rw [(hread _).mpr ⟨hformed.mpr hreadable, foldlM_accessPayload cfg now jti i ext⟩]
  · intro hdeep
    cases hdecode : decodeSegment decodeClaim {}
        (String.ofList (segment (.object (members (accessPayload cfg now jti i ext))))) with
    | none => rfl
    | some raw => exact absurd (hformed.mp ((hread raw).mp hdecode).1) hdeep

theorem audienceOf_mem (h : i.audience = "" ∨ i.audience ∈ cfg.audience) :
    audienceOf cfg i ∈ cfg.audience := by
  unfold audienceOf
  split_ifs with hempty
  · obtain ⟨first, rest, hlist⟩ := List.exists_cons_of_ne_nil cfg.configured
    simp [hlist]
  · exact h.resolve_left hempty

/-- A token that names a configured audience is accepted until it expires. -/
theorem checkClaims_accessClaims (hsubject : i.subject ≠ "")
    (haudience : i.audience = "" ∨ i.audience ∈ cfg.audience) {at' : Time}
    (hearly : at'.toNanos ≤ (Time.ofUnix (now.add cfg.accessTokenTTL).unix).toNanos) :
    checkClaims cfg at' (accessClaims cfg now i) = .ok (claimsOf (accessClaims cfg now i)) := by
  have htype : (validSubjectType (subjectTypeText i.subjectType)).isNone = false := by
    cases i.subjectType <;> decide
  have hcurrent : expired cfg at' (accessClaims cfg now i) = false := by
    refine decide_eq_false fun hlate => ?_
    have hlenient := cfg.lenient
    have hover : (Time.ofUnix (now.add cfg.accessTokenTTL).unix).toNanos + cfg.clockSkew < at'.toNanos := hlate
    omega
  have hlisted : hasAudience (accessClaims cfg now i).audience cfg.audience = true := by
    simpa [hasAudience, accessClaims] using audienceOf_mem haudience
  rw [checkClaims, hcurrent, hlisted]
  simp [accessClaims, hsubject, htype]

/-- The claims that are decoded are those that were issued exactly if there is an
authentication time: an absent one is decoded as the first second of 1970. -/
theorem claimsOf_accessClaims :
    claimsOf (accessClaims cfg now i) = issuedClaims cfg now i ↔ i.assurance.authTime ≠ .zero := by
  constructor
  · intro hsame hzero
    have htime := congrArg Claims.authTime hsame
    simp only [claimsOf, accessClaims, issuedClaims, hzero, if_true] at htime
    exact absurd htime (by decide)
  · intro hgiven
    simp [claimsOf, accessClaims, issuedClaims, hgiven]

/-- Before it expires an issued token is taken for exactly what it was issued to say. -/
def TokenFaithful (cfg : Settings) (now : Time) (jti : String) (i : Issue) : Prop :=
  ∀ token, issueSubjectToken cfg now jti i = .ok token → ∀ at' : Time,
    at'.toNanos ≤ (Time.ofUnix (now.add cfg.accessTokenTTL).unix).toNanos →
      verifyAccessToken cfg at' ("Bearer " ++ token) = .ok (issuedClaims cfg now i)

/-- The identity token of a client that is not an audience is no access token. -/
def IDTokensRefused (cfg : Settings) : Prop :=
  ∀ now jti p tenantID clientID nonce assurance token, clientID ∉ cfg.audience →
    issueIDToken cfg now jti p tenantID clientID nonce assurance = .ok token →
      ∀ at' claims, verifyAccessToken cfg at' ("Bearer " ++ token) ≠ .ok claims

theorem checkClaims_refused {at' : Time} {raw : RawClaims}
    (h : hasAudience raw.audience cfg.audience = false) (claims : Claims) :
    checkClaims cfg at' raw ≠ .ok claims := by
  intro haccepted
  unfold checkClaims at haccepted
  split_ifs at haccepted with _ hother
  exact hother (by simp [h, cfg.configured])

theorem idTokensRefused (cfg : Settings) : IDTokensRefused cfg := by
  intro now jti p tenantID clientID nonce assurance token hother hissue at' claims hverify
  unfold issueIDToken at hissue
  cases henrich : cfg.enrich { tokenType := "id_token", subject := p.subject, tenantID, audience := clientID } with
  | error failure => simp [henrich, bind, Except.bind] at hissue
  | ok ext =>
    simp only [henrich, bind, Except.bind, pure, Except.pure, Except.ok.injEq] at hissue
    subst hissue
    rw [verifyAccessToken_sign] at hverify
    split at hverify
    · cases hverify
    · next raw hdecode =>
      have hread := (decodeSegment_segment {} decodeClaim_sortKeys (members_sorted idKeys_sorted)
        (written_payload (known_idPayload cfg now jti p tenantID clientID nonce assurance ext) idKeys_sorted)
        raw).mp hdecode
      have haudience := audience_idPayload hread.2
      refine checkClaims_refused ?_ claims hverify
      simpa [hasAudience, haudience] using hother

theorem issueSubjectToken_ok {token : String} :
    issueSubjectToken cfg now jti i = .ok token ↔ i.subject ≠ "" ∧ ∃ ext,
      cfg.enrich ⟨"access_token", i.subject, i.tenantID, audienceOf cfg i, i.scope⟩ = .ok ext ∧
        sign cfg (.object (members (accessPayload cfg now jti i ext))) = token := by
  unfold issueSubjectToken
  by_cases hsubject : i.subject = ""
  · simp [hsubject]
  · cases henrich : cfg.enrich ⟨"access_token", i.subject, i.tenantID, audienceOf cfg i, i.scope⟩ with
    | error failure => simp [hsubject, bind, Except.bind]
    | ok ext => simp [hsubject, bind, Except.bind, pure, Except.pure]

/-- For every kind of subject and every argument a token decodes to what was issued exactly if
the authentication time is given and the decoder can read what the enricher adds. -/
theorem tokens_exact (cfg : Settings) (now : Time) (jti : String) (i : Issue)
    (haudience : i.audience = "" ∨ i.audience ∈ cfg.audience) :
    (TokenFaithful cfg now jti i ∧ IDTokensRefused cfg) ↔
      ∀ ext, i.subject ≠ "" →
        cfg.enrich ⟨"access_token", i.subject, i.tenantID, audienceOf cfg i, i.scope⟩ = .ok ext →
          i.assurance.authTime ≠ .zero ∧ Readable ext := by
  constructor
  · rintro ⟨hfaithful, -⟩ ext hsubject henrich
    have hverify := hfaithful _ (issueSubjectToken_ok.mpr ⟨hsubject, ext, henrich, rfl⟩)
      (.ofUnix (now.add cfg.accessTokenTTL).unix) (Int.le_refl _)
    by_cases hreadable : Readable ext
    · rw [(verify_accessPayload _).1 hreadable,
        checkClaims_accessClaims hsubject haudience (Int.le_refl _)] at hverify
      exact ⟨claimsOf_accessClaims.mp (Except.ok.inj hverify), hreadable⟩
    · rw [(verify_accessPayload _).2 hreadable] at hverify
      cases hverify
  · intro hgiven
    refine ⟨fun token hissue at' hearly => ?_, idTokensRefused cfg⟩
    obtain ⟨hsubject, ext, henrich, rfl⟩ := issueSubjectToken_ok.mp hissue
    obtain ⟨htime, hreadable⟩ := hgiven ext hsubject henrich
    rw [(verify_accessPayload at').1 hreadable, checkClaims_accessClaims hsubject haudience hearly,
      claimsOf_accessClaims.mpr htime]

end Verified

def noClaims : Extension := ⟨[], by simp [sortKeys, sortEntries, Written, EntriesWritten]⟩

/-- One audience, a signature that every key accepts and no enricher. -/
def plainSettings : Settings where
  issuer := "https://id.example"
  audience := ["chaosplus-api"]
  configured := List.cons_ne_nil _ _
  accessTokenTTL := 900000000000
  clockSkew := 30000000000
  lenient := by decide
  kid := "k1"
  sign := fun _ => []
  verify := fun _ _ => true
  verify_sign := fun _ => rfl
  enrich := fun _ => .ok noClaims

def passwordIssue : Issue where
  subjectType := .principal
  subject := "ada"
  tenantID := "acme"
  audience := ""
  scope := "openid"
  credentialVersion := 3
  username := "ada"
  email := "ada@example.com"
  emailVerified := true
  assurance := { authTime := .ofUnix 1700000000, level := 1, methods := ["pwd"] }

theorem tokens_exact_password :
    TokenFaithful plainSettings (.ofUnix 1700000060) "jti" passwordIssue ∧ IDTokensRefused plainSettings :=
  (tokens_exact plainSettings (.ofUnix 1700000060) "jti" passwordIssue (.inl rfl)).mpr
    fun _ _ henrich => ⟨by decide, .inl (by cases henrich; rfl)⟩

/-- A service's token, which has no assurance. -/
def serviceIssue : Issue where
  subjectType := .service
  subject := "svc"
  tenantID := ""
  audience := ""
  scope := "read"
  credentialVersion := 0
  username := "svc"
  email := ""
  emailVerified := false
  assurance := {}

/-- Its absent authentication time is decoded as an instant of 1970. -/
theorem service_token_not_faithful :
    ¬ TokenFaithful plainSettings (.ofUnix 1700000060) "jti" serviceIssue := by
  intro hfaithful
  have hissue : issueSubjectToken plainSettings (.ofUnix 1700000060) "jti" serviceIssue = .ok _ :=
    issueSubjectToken_ok.mpr ⟨by decide, noClaims, rfl, rfl⟩
  have hverify := hfaithful _ hissue (.ofUnix 1700000060) (by decide)
  rw [(verify_accessPayload _).1 (.inl rfl),
    checkClaims_accessClaims (by decide) (.inl rfl) (by decide)] at hverify
  exact claimsOf_accessClaims.mp (Except.ok.inj hverify) rfl

end AccessTokens
