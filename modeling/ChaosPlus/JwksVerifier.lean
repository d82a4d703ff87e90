import ChaosPlus.GoText

/-!
# Verification of tokens with published keys

An upstream issuer publishes a list of keys. The federation client and the bearer verifier read
that list over HTTP and hold what they have read; a token is verified with the key that is held
under its key id. HTTP works here, and a verification takes no time.
-/
namespace JwksVerifier

abbrev Bytes := List UInt8

/-! ### Keys -/

inductive Curve where
  | p256
  | p384
  | p521
  deriving DecidableEq, Repr

def Curve.bitSize : Curve → Nat
  | .p256 => 256
  | .p384 => 384
  | .p521 => 521

inductive PublicKey where
  | rsa (n : Nat) (e : Int)
  | ecdsa (curve : Curve) (x y : Nat)
  | ed25519 (key : Bytes)
  deriving DecidableEq, Repr

/-- A member that is absent is empty. -/
structure Jwk where
  kty : String
  kid : String
  crv : String := ""
  n : String := ""
  e : String := ""
  x : String := ""
  y : String := ""
  deriving DecidableEq, Repr

inductive Hash where
  | sha256
  | sha512
  deriving DecidableEq, Repr

/-- The host language's base64 and cryptography. -/
structure Library where
  base64 : String → Option Bytes
  rsaVerify : Nat → Int → Hash → Bytes → Bytes → Bool
  ecdsaVerify : Curve → Nat → Nat → Hash → Bytes → Nat → Nat → Bool
  ed25519Verify : Bytes → Bytes → Bytes → Bool

def setBytes (bytes : Bytes) : Nat := bytes.foldl (fun value byte => value * 256 + byte.toNat) 0

/-- The low 64 bits, as a signed integer. -/
def toInt64 (value : Nat) : Int :=
  let low : Int := ((value % 2 ^ 64 : Nat) : Int)
  if low < 2 ^ 63 then low else low - 2 ^ 64

inductive KeyError where
  | missingKid
  | decode (member : String)
  | unsupportedCurve (crv : String)
  | invalidEd25519
  | unsupportedKty (kty : String)
  deriving DecidableEq, Repr

section Keys

variable (lib : Library)

def decodeMember (member encoded : String) : Except KeyError Bytes :=
  match lib.base64 encoded with
  | some bytes => .ok bytes
  | none => .error (.decode member)

def curveFor (crv : String) : Except KeyError Curve :=
  if crv = "P-256" then .ok .p256
  else if crv = "P-384" then .ok .p384
  else if crv = "P-521" then .ok .p521
  else .error (.unsupportedCurve crv)

def rsaKey (k : Jwk) : Except KeyError PublicKey := do
  let n ← decodeMember lib "rsa modulus" k.n
  let e ← decodeMember lib "rsa exponent" k.e
  .ok (.rsa (setBytes n) (toInt64 (setBytes e)))

/-- Of the federation client. -/
def publicKey (k : Jwk) : Except KeyError PublicKey :=
  if k.kid = "" then .error .missingKid
  else if k.kty = "RSA" then rsaKey lib k
  else if k.kty = "EC" then do
    let curve ← curveFor k.crv
    let x ← decodeMember lib "ec x" k.x
    let y ← decodeMember lib "ec y" k.y
    .ok (.ecdsa curve (setBytes x) (setBytes y))
  else if k.kty = "OKP" then
    if k.crv ≠ "Ed25519" then .error (.unsupportedCurve k.crv)
    else do
      let x ← decodeMember lib "ed25519 key" k.x
      if x.length ≠ 32 then .error .invalidEd25519 else .ok (.ed25519 x)
  else .error (.unsupportedKty k.kty)

/-- Of the bearer verifier, which knows one kind of key. -/
def bearerPublicKey (k : Jwk) : Except KeyError PublicKey :=
  if k.kid = "" then .error .missingKid
  else if k.kty = "RSA" then rsaKey lib k
  else .error (.unsupportedKty k.kty)

def verifySignature (alg : String) (key : PublicKey) (signed sig : Bytes) : Bool :=
  if alg = "RS256" || alg = "RS512" then
    match key with
    | .rsa n e => lib.rsaVerify n e (if alg = "RS512" then .sha512 else .sha256) signed sig
    | _ => false
  else if alg = "ES256" || alg = "ES512" then
    match key with
    | .ecdsa curve x y =>
      let size := (curve.bitSize + 7) / 8
      sig.length = 2 * size && lib.ecdsaVerify curve x y (if alg = "ES512" then .sha512 else .sha256) signed
        (setBytes (sig.take size)) (setBytes (sig.drop size))
    | _ => false
  else if alg = "EdDSA" then
    match key with
    | .ed25519 key => lib.ed25519Verify key signed sig
    | _ => false
  else false

def bearerVerifySignature (alg : String) (key : PublicKey) (signed sig : Bytes) : Bool :=
  if alg = "RS256" then
    match key with
    | .rsa n e => lib.rsaVerify n e .sha256 signed sig
    | _ => false
  else false

end Keys

/-- Keys under their ids, in the order of the list; of two with one id the later one counts. -/
abbrev Keys := List (String × PublicKey)

/-- The keys of a list, if every one can be read. -/
def keysOf (publicKey : Jwk → Except KeyError PublicKey) (set : List Jwk) : Except KeyError Keys :=
  set.mapM fun k => (publicKey k).map fun key => (k.kid, key)

def Keys.get (keys : Keys) (kid : String) : Option PublicKey :=
  (keys.reverse.find? fun held => held.1 = kid).map (·.2)

/-! ### Tokens -/

structure TokenHeader where
  alg : String
  kid : String
  deriving DecidableEq, Repr

/-- Times in seconds. -/
structure TokenClaims where
  issuer : String
  subject : String
  audience : List String
  expiresAt : Option Int
  notBefore : Option Int
  deriving DecidableEq, Repr

/-- How the first two parts of a token are decoded. -/
structure Codec where
  header : String → Option TokenHeader
  claims : String → Option TokenClaims

def utf8 (text : String) : Bytes := text.toUTF8.toList

def splitParts (raw : String) : Option (String × String × String) :=
  match raw.toList.splitOn '.' with
  | [header, payload, signature] => some (String.ofList header, String.ofList payload, String.ofList signature)
  | _ => none

inductive VerifyError where
  | malformedToken
  | malformedSignature
  | decodeHeader
  | decodeClaims
  | issuerOrSubject
  | audience
  | outsideWindow
  | unknownKey (kid : String)
  | signature
  | jwks (e : KeyError)
  deriving DecidableEq, Repr

/-! ### The verifiers -/

/-- What the federation client holds of an issuer; the issuer's metadata comes with it. -/
structure CacheEntry where
  keys : Keys
  fetchedAt : Nat

structure Settings where
  lib : Library
  codec : Codec
  /-- Of the provider: the issuer, and for how long a read of it counts, in nanoseconds. -/
  issuer : String
  cacheTTL : Nat
  clockSkew : Int
  /-- Of the bearer verifier. -/
  bearerIssuer : String
  bearerAudience : List String
  bearerClockSkew : Int

/-- `past` has the lists that were replaced, with the time when they were. -/
structure World where
  now : Nat
  published : List Jwk
  past : List (List Jwk × Nat) := []
  cache : String → Option CacheEntry := fun _ => none
  bearerKeys : Keys := []

def nanos (seconds : Int) : Int := seconds * 1000000000

section Federation

variable (cfg : Settings) (w : World)

def unixNow : Int := (w.now / 1000000000 : Nat)

def trimIssuer (issuer : String) : String :=
  String.ofList ((GoText.trimmed issuer).toList.reverse.dropWhile (· = '/')).reverse

def fresh (entry : CacheEntry) : Bool := w.now < entry.fetchedAt + cfg.cacheTTL

/-- Reading the metadata of the issuer begins a new entry. -/
def discovery : World :=
  if (w.cache (trimIssuer cfg.issuer)).any (fresh cfg w) then w
  else
    let begun : CacheEntry := { keys := [], fetchedAt := w.now }
    { w with cache := Function.update w.cache (trimIssuer cfg.issuer) (some begun) }

/-- The keys that are held and still count. -/
def heldKeys : Option Keys :=
  ((w.cache cfg.issuer).filter fun entry => fresh cfg w entry && !entry.keys.isEmpty).map (·.keys)

def fetchKeys : Except VerifyError Keys × World :=
  match keysOf (publicKey cfg.lib) w.published with
  | .error e => (.error (.jwks e), w)
  | .ok keys =>
    let read : CacheEntry := { keys, fetchedAt := w.now }
    (.ok keys, { w with cache := Function.update w.cache cfg.issuer (some read) })

def keys (refresh : Bool) : Except VerifyError Keys × World :=
  let w := discovery cfg w
  match heldKeys cfg w with
  | some held => if refresh then fetchKeys cfg w else (.ok held, w)
  | none => fetchKeys cfg w

/-- The claims of a token, its signature left aside. -/
def checkIDToken (clientID raw : String) : Except VerifyError (TokenHeader × TokenClaims × Bytes × Bytes) :=
  match splitParts raw with
  | none => .error .malformedToken
  | some (header, payload, signature) =>
    match cfg.lib.base64 signature with
    | none => .error .malformedSignature
    | some sig =>
      match cfg.codec.header header with
      | none => .error .decodeHeader
      | some head =>
        match cfg.codec.claims payload with
        | none => .error .decodeClaims
        | some claims =>
          if claims.issuer ≠ cfg.issuer || claims.subject = "" || claims.subject.utf8ByteSize > 128 then
            .error .issuerOrSubject
          else if !claims.audience.contains clientID then .error .audience
          else if claims.expiresAt.getD 0 ≤ unixNow w - cfg.clockSkew ||
              (claims.notBefore.getD 0 > 0 && claims.notBefore.getD 0 > unixNow w + cfg.clockSkew) then
            .error .outsideWindow
          else .ok (head, claims, utf8 (header ++ "." ++ payload), sig)

def verifyWithKeys (clientID raw : String) (held : Keys) : Except VerifyError TokenClaims :=
  match checkIDToken cfg w clientID raw with
  | .error e => .error e
  | .ok (head, claims, signed, sig) =>
    match held.get head.kid with
    | none => .error (.unknownKey head.kid)
    | some key => if verifySignature cfg.lib head.alg key signed sig then .ok claims else .error .signature

def verifyIDToken (clientID raw : String) : Except VerifyError TokenClaims × World :=
  match keys cfg w false with
  | (.error e, w) => (.error e, w)
  | (.ok held, w) =>
    match verifyWithKeys cfg w clientID raw held with
    | .error (.unknownKey _) =>
      match keys cfg w true with
      | (.error e, w) => (.error e, w)
      | (.ok held, w) => (verifyWithKeys cfg w clientID raw held, w)
    | result => (result, w)

end Federation

section Bearer

variable (cfg : Settings) (w : World)

def refreshKeys : Except VerifyError Unit × World :=
  match keysOf (bearerPublicKey cfg.lib) w.published with
  | .error e => (.error (.jwks e), w)
  | .ok keys => (.ok (), { w with bearerKeys := keys })

def key (kid : String) : Except VerifyError PublicKey × World :=
  match w.bearerKeys.get kid with
  | some key => (.ok key, w)
  | none =>
    match refreshKeys cfg w with
    | (.error e, w) => (.error e, w)
    | (.ok (), w) =>
      match w.bearerKeys.get kid with
      | some key => (.ok key, w)
      | none => (.error (.unknownKey kid), w)

/-- The claims that a bearer token must have, and when it counts. -/
def validate (claims : TokenClaims) : Except VerifyError TokenClaims :=
  match claims.expiresAt with
  | none => .error .malformedToken
  | some expiresAt =>
    if claims.issuer = "" || claims.subject = "" then .error .malformedToken
    else if claims.issuer ≠ cfg.bearerIssuer then .error .issuerOrSubject
    else if nanos expiresAt + cfg.bearerClockSkew < w.now then .error .outsideWindow
    else if claims.notBefore.any fun notBefore => w.now + cfg.bearerClockSkew < nanos notBefore then
      .error .malformedToken
    else if cfg.bearerAudience ≠ [] && !cfg.bearerAudience.any claims.audience.contains then .error .audience
    else .ok claims

/-- What is checked once the key is known. -/
def verifyWithKey (head : TokenHeader) (header payload signature : String) (key : PublicKey) :
    Except VerifyError TokenClaims :=
  match cfg.lib.base64 signature with
  | none => .error .malformedSignature
  | some sig =>
    if !bearerVerifySignature cfg.lib head.alg key (utf8 (header ++ "." ++ payload)) sig then .error .signature
    else
      match cfg.codec.claims payload with
      | none => .error .decodeClaims
      | some claims => validate cfg w claims

/-- The header of a bearer token, and its parts. -/
def bearerHeader (raw : String) : Except VerifyError (TokenHeader × String × String × String) :=
  match splitParts raw with
  | none => .error .malformedToken
  | some (header, payload, signature) =>
    match cfg.codec.header header with
    | none => .error .decodeHeader
    | some head =>
      if head.kid = "" || head.alg = "" then .error .malformedToken else .ok (head, header, payload, signature)

def verify (raw : String) : Except VerifyError TokenClaims × World :=
  match bearerHeader cfg raw with
  | .error e => (.error e, w)
  | .ok (head, header, payload, signature) =>
    match key cfg w head.kid with
    | (.error e, w) => (.error e, w)
    | (.ok key, w) => (verifyWithKey cfg w head header payload signature key, w)

end Bearer

/-- The issuer publishes another list, or a token is verified. -/
inductive Event where
  | pass (time : Nat)
  | publish (set : List Jwk)
  | verifyIDToken (clientID raw : String)
  | verify (raw : String)

def step (cfg : Settings) (w : World) : Event → Option World
  | .pass time => some { w with now := w.now + time }
  | .publish set => some { w with published := set, past := (w.published, w.now) :: w.past }
  | .verifyIDToken clientID raw => some (verifyIDToken cfg w clientID raw).2
  | .verify raw => some (verify cfg w raw).2

end JwksVerifier
