import ChaosPlus.GoText
import ChaosPlus.JsonDocument

/-!
# Authorization conditions

Parsing, validation and evaluation of the JSON condition stored beside a role
permission, as the policy extension performs them. Time zones come from an abstract
zone database; a location turns an instant into minutes of its local day.
-/
namespace PolicyCondition

open JsonDocument

/-- `time.LoadLocation`: each accepted name with its local minute of the day. -/
structure ZoneDatabase where
  loadLocation : String → Option (Int → Fin 1440)

/-- A database that knows only Coordinated Universal Time, counted in milliseconds. -/
def utcOnly : ZoneDatabase where
  loadLocation name :=
    if name = "UTC" then
      some fun time => ⟨((time / 60000) % 1440).toNat, by omega⟩
    else none

structure ResourceContext where
  type : String := ""
  id : String := ""
  owner : String := ""
  attrs : String → Option String := fun _ => none

structure TrustedContext where
  time : Int := 0
  acr : Int := 0
  amr : List String := []
  clientID : String := ""
  networkZone : String := ""
  resource : ResourceContext := {}

inductive Failure where
  | invalid (message : String)
  | typeAssertion
  deriving DecidableEq, Repr

def maxConditionBytes : Nat := 4096
def maxConditionDepth : Nat := 8
def maxConditionNodes : Nat := 32

def invalid {α : Type} (message : String) : Except Failure α := .error (.invalid message)

@[simp] theorem invalid_eq_ok {α : Type} {message : String} {value : α} :
    (invalid message = .ok value) = False := by
  simp [invalid]

def unknownOperator (operator : String) : String :=
  "unknown authorization condition operator \"" ++ operator ++ "\""

/-- The field of a `{"context": field}` operand. -/
def contextField : Json → Except Failure String
  | .object [(key, field)] =>
    match field with
    | .string text =>
      if key = "context" ∧ text ≠ "" then .ok text
      else invalid "authorization comparison context field is required"
    | _ => invalid "authorization comparison context field is required"
  | _ => invalid "authorization comparison context operand is invalid"

/-- The literal of a `{"value": literal}` operand. -/
def valueLiteral : Json → Except Failure Json
  | .object [(key, literal)] =>
    match literal with
    | .null => invalid "authorization comparison value is required"
    | literal =>
      if key = "value" then .ok literal
      else invalid "authorization comparison value is required"
  | _ => invalid "authorization comparison value operand is invalid"

def comparisonOperands (argument : Json) : Except Failure (String × Json) :=
  match argument with
  | .array [contextOperand, valueOperand] => do
    let field ← contextField contextOperand
    let literal ← valueLiteral valueOperand
    return (field, literal)
  | _ => invalid "authorization comparison requires context and value operands"

def isAttrChar (c : Char) : Bool :=
  ('a' ≤ c && c ≤ 'z') || ('0' ≤ c && c ≤ '9') || c = '_' || c = '.' || c = '-'

def resourceAttrName (field : String) : Option String :=
  match GoText.cutPrefix "resource.attr." field with
  | some (c :: rest) =>
    if rest.length < 64 && 'a' ≤ c && c ≤ 'z' && (c :: rest).all isAttrChar then
      some (String.ofList (c :: rest))
    else none
  | _ => none

def isResourceContextField (field : String) : Bool :=
  field = "resource.type" || field = "resource.id" || field = "resource.owner" ||
    (resourceAttrName field).isSome

def isContextListField (field : String) : Bool :=
  field = "client.id" || field = "network.zone" || isResourceContextField field

def integerValue : Json → Int
  | .number text =>
    match GoText.parseInt64 text with
    | some parsed => if parsed < 0 || parsed > 10 then -1 else parsed
    | none => -1
  | _ => -1

/-- The literal is a string with a visible character and at most 128 bytes. -/
def boundedText : Json → Bool
  | .string text => !GoText.isBlank text && text.utf8ByteSize ≤ 128
  | _ => false

def validateScalar (field : String) (value : Json) : Except Failure Unit :=
  if field = "auth.acr" then
    if integerValue value < 0 then
      invalid "authorization condition auth.acr value must be a non-negative integer"
    else .ok ()
  else if field = "client.id" || field = "network.zone" || isResourceContextField field then
    if boundedText value then .ok ()
    else invalid ("authorization condition " ++ field ++
      " value must be a non-empty string of at most 128 characters")
  else invalid ("unknown authorization condition context field \"" ++ field ++ "\"")

def validateStringList : Json → Except Failure Unit
  | .array items =>
    if items.length = 0 || items.length > 16 then
      invalid "authorization condition value must contain 1 to 16 strings"
    else if items.all boundedText then .ok ()
    else invalid
      "authorization condition list values must be non-empty strings of at most 128 characters"
  | _ => invalid "authorization condition value must contain 1 to 16 strings"

/-- The instant's minute of the local day beside the two bounds. -/
structure TimeWindow where
  start : Fin 1440
  stop : Fin 1440
  location : Int → Fin 1440

def timeArguments (zones : ZoneDatabase) (argument : Json) : Except Failure TimeWindow :=
  match argument with
  | .array [.string startText, .string endText, .string zone] =>
    match GoText.parseClock startText, GoText.parseClock endText, zones.loadLocation zone with
    | some start, some stop, some location =>
      if startText = endText then invalid
        "authorization condition between_time requires distinct HH:MM values and a valid IANA timezone"
      else .ok ⟨start, stop, location⟩
    | _, _, _ => invalid
        "authorization condition between_time requires distinct HH:MM values and a valid IANA timezone"
  | .array [_, _, _] => invalid
      "authorization condition between_time requires distinct HH:MM values and a valid IANA timezone"
  | _ => invalid "authorization condition between_time requires start, end, and timezone"

/-- The checks of the operators that hold no further expression. -/
def validateTest (zones : ZoneDatabase) (operator : String) (argument : Json) :
    Except Failure Unit :=
  if operator = "eq" || operator = "neq" then do
    let (field, literal) ← comparisonOperands argument
    validateScalar field literal
  else if operator = "gt" || operator = "gte" || operator = "lt" || operator = "lte" then do
    let (field, literal) ← comparisonOperands argument
    if field ≠ "auth.acr" || integerValue literal < 0 then
      invalid ("authorization condition " ++ operator ++
        " requires auth.acr and a non-negative integer")
    else .ok ()
  else if operator = "in" then do
    let (field, literal) ← comparisonOperands argument
    if isContextListField field then validateStringList literal
    else
      invalid
        "authorization condition in only supports client.id, network.zone, or resource.* fields"
  else if operator = "contains" then do
    let (field, literal) ← comparisonOperands argument
    if field ≠ "auth.amr" then invalid "authorization condition contains only supports auth.amr"
    else match literal with
      | .string _ => .ok ()
      | _ => invalid "authorization condition auth.amr value must be a string"
  else if operator = "between_time" then do
    let _ ← timeArguments zones argument
    .ok ()
  else invalid (unknownOperator operator)

def checkVersion (entries : List (String × Json)) (root : Bool) : Except Failure Unit :=
  if root then
    match lookup entries "version" with
    | some (.number "1") => .ok ()
    | _ => invalid "authorization condition version must be 1"
  else if (lookup entries "version").isSome then
    invalid "authorization condition version is only allowed at the root"
  else .ok ()

def operatorCount (root : Bool) : Nat := if root then 2 else 1

mutual
/-- The node counter is threaded through and returned. -/
def validateExpression (zones : ZoneDatabase) :
    Json → Nat → Nat → Bool → Except Failure Nat
  | value, depth, nodes, root =>
    if depth > maxConditionDepth then invalid "authorization condition exceeds depth 8"
    else if nodes + 1 > maxConditionNodes then
      invalid "authorization condition exceeds 32 nodes"
    else match value with
      | .object entries => do
        checkVersion entries root
        if entries.length ≠ operatorCount root then
          invalid "authorization condition must contain exactly one operator"
        else validateOperator zones entries depth (nodes + 1)
      | _ => invalid "authorization condition expression must be an object"

/-- The first key that is not the version names the operator. -/
def validateOperator (zones : ZoneDatabase) :
    List (String × Json) → Nat → Nat → Except Failure Nat
  | [], _, _ => invalid "authorization condition operator is required"
  | (key, argument) :: rest, depth, nodes =>
    if key = "version" then validateOperator zones rest depth nodes
    else if key = "all" || key = "any" then
      match argument with
      | .array items =>
        if items.length = 0 || items.length > maxConditionNodes then
          invalid ("authorization condition " ++ key ++ " requires 1 to 32 expressions")
        else validateItems zones items (depth + 1) nodes
      | _ => invalid ("authorization condition " ++ key ++ " requires 1 to 32 expressions")
    else if key = "not" then validateExpression zones argument (depth + 1) nodes false
    else do
      validateTest zones key argument
      return nodes

def validateItems (zones : ZoneDatabase) :
    List Json → Nat → Nat → Except Failure Nat
  | [], _, nodes => .ok nodes
  | item :: rest, depth, nodes => do
    let nodes ← validateExpression zones item depth nodes false
    validateItems zones rest depth nodes
end

/-- An absent condition is `none`; an accepted one is its decoded document. -/
def parseCondition (zones : ZoneDatabase) (raw : List UInt8) : Except Failure (Option Json) :=
  if raw.length > maxConditionBytes then
    invalid "authorization condition exceeds 4096 bytes"
  else
    let text := GoText.trimSpace (decodeUtf8 raw)
    if text = [] || text = "null".toList then .ok none
    else match decodeText text with
      | none => invalid "decode authorization condition"
      | some value => do
        let _ ← validateExpression zones value 1 0 true
        .ok (some value)

def resourceFieldValue (field : String) (trusted : TrustedContext) : String × Bool :=
  let resource := trusted.resource
  if field = "resource.type" then (resource.type, resource.type ≠ "")
  else if field = "resource.id" then (resource.id, resource.id ≠ "")
  else if field = "resource.owner" then (resource.owner, resource.owner ≠ "")
  else match resourceAttrName field with
    | some attr =>
      match resource.attrs attr with
      | some value => (value, true)
      | none => ("", false)
    | none => ("", false)

def asText : Json → Except Failure String
  | .string text => .ok text
  | _ => .error .typeAssertion

/-- The comparison result and whether the compared fact is present. -/
def scalarEqualPresence (field : String) (expected : Json) (trusted : TrustedContext) :
    Except Failure (Bool × Bool) :=
  if field = "auth.acr" then .ok (trusted.acr = integerValue expected, true)
  else if field = "client.id" then do
    let expected ← asText expected
    return (trusted.clientID = expected, true)
  else if field = "network.zone" then do
    let expected ← asText expected
    return (trusted.networkZone = expected, true)
  else if isResourceContextField field then
    let (actual, ok) := resourceFieldValue field trusted
    if ok then do
      let expected ← asText expected
      return (actual = expected, true)
    else .ok (false, false)
  else .ok (false, true)

def anyTextEquals (actual : String) : List Json → Except Failure Bool
  | [] => .ok false
  | item :: rest => do
    let text ← asText item
    if actual = text then .ok true else anyTextEquals actual rest

/-- The value an `in` test looks up, and whether it is present. -/
def contextListValue (field : String) (trusted : TrustedContext) : String × Bool :=
  if field = "network.zone" then (trusted.networkZone, true)
  else if isResourceContextField field then resourceFieldValue field trusted
  else (trusted.clientID, true)

def operandsOrEmpty (argument : Json) : String × Json :=
  match comparisonOperands argument with
  | .ok operands => operands
  | .error _ => ("", .null)

/-- `(matched, factGated)` of an operator that holds no further expression. -/
def evaluateTest (zones : ZoneDatabase) (operator : String) (argument : Json)
    (trusted : TrustedContext) : Except Failure (Bool × Bool) :=
  if operator = "eq" || operator = "neq" then do
    let (field, literal) := operandsOrEmpty argument
    let (matched, factPresent) ← scalarEqualPresence field literal trusted
    if !factPresent then .ok (false, true)
    else if operator = "neq" then .ok (!matched, false)
    else .ok (matched, false)
  else if operator = "gt" || operator = "gte" || operator = "lt" || operator = "lte" then
    let expected := integerValue (operandsOrEmpty argument).2
    if operator = "gt" then .ok (trusted.acr > expected, false)
    else if operator = "gte" then .ok (trusted.acr ≥ expected, false)
    else if operator = "lt" then .ok (trusted.acr < expected, false)
    else .ok (trusted.acr ≤ expected, false)
  else if operator = "in" then
    let (field, literal) := operandsOrEmpty argument
    let (actual, factPresent) := contextListValue field trusted
    if !factPresent then .ok (false, true)
    else match literal with
      | .array items => do
        let found ← anyTextEquals actual items
        return (found, false)
      | _ => .error .typeAssertion
  else if operator = "contains" then do
    let text ← asText (operandsOrEmpty argument).2
    return (trusted.amr.contains text, false)
  else if operator = "between_time" then do
    let window ← timeArguments zones argument
    let current := window.location trusted.time
    if window.start < window.stop then
      return (window.start ≤ current && current < window.stop, false)
    else return (window.start ≤ current || current < window.stop, false)
  else invalid (unknownOperator operator)

mutual
/-- `(matched, factGated)`: the gate is up when the result is false because a resource
fact is absent. -/
def evaluateWithPresence (zones : ZoneDatabase) (trusted : TrustedContext) :
    Json → Bool → Except Failure (Bool × Bool)
  | .object entries, root =>
    if entries.length ≠ operatorCount root then
      invalid (unknownOperator "")
    else evaluateOperator zones trusted entries
  | _, _ => .error .typeAssertion

def evaluateOperator (zones : ZoneDatabase) (trusted : TrustedContext) :
    List (String × Json) → Except Failure (Bool × Bool)
  | [] => invalid (unknownOperator "")
  | (key, argument) :: rest =>
    if key = "version" then evaluateOperator zones trusted rest
    else if key = "all" then
      match argument with
      | .array items => evaluateAll zones trusted items
      | _ => .error .typeAssertion
    else if key = "any" then
      match argument with
      | .array items => evaluateAny zones trusted items false
      | _ => .error .typeAssertion
    else if key = "not" then do
      let (matched, factGated) ← evaluateWithPresence zones trusted argument false
      if factGated then .ok (false, false) else .ok (!matched, false)
    else evaluateTest zones key argument trusted

def evaluateAll (zones : ZoneDatabase) (trusted : TrustedContext) :
    List Json → Except Failure (Bool × Bool)
  | [] => .ok (true, false)
  | item :: rest => do
    let (matched, factGated) ← evaluateWithPresence zones trusted item false
    if !matched then .ok (false, factGated) else evaluateAll zones trusted rest

def evaluateAny (zones : ZoneDatabase) (trusted : TrustedContext) :
    List Json → Bool → Except Failure (Bool × Bool)
  | [], anyFactGated => .ok (false, anyFactGated)
  | item :: rest, anyFactGated => do
    let (matched, factGated) ← evaluateWithPresence zones trusted item false
    if matched then .ok (true, false)
    else evaluateAny zones trusted rest (anyFactGated || factGated)
end

section Operators

variable {zones : ZoneDatabase} {trusted : TrustedContext}

theorem evaluateOperator_version (argument : Json) (rest : List (String × Json)) :
    evaluateOperator zones trusted (("version", argument) :: rest) =
      evaluateOperator zones trusted rest := by
  cases argument <;> simp [evaluateOperator]

theorem evaluateOperator_not (argument : Json) (rest : List (String × Json)) :
    evaluateOperator zones trusted (("not", argument) :: rest) = (do
      let (matched, factGated) ← evaluateWithPresence zones trusted argument false
      if factGated then .ok (false, false) else .ok (!matched, false)) := by
  cases argument <;> simp [evaluateOperator]

/-- Keys that are neither the version nor a connective. -/
structure IsTestKey (key : String) : Prop where
  version : key ≠ "version"
  all : key ≠ "all"
  any : key ≠ "any"
  not : key ≠ "not"

theorem evaluateOperator_test {key : String} (h : IsTestKey key) (argument : Json)
    (rest : List (String × Json)) :
    evaluateOperator zones trusted ((key, argument) :: rest) =
      evaluateTest zones key argument trusted := by
  cases argument <;> simp [evaluateOperator, h.version, h.all, h.any, h.not]

end Operators

def evaluateExpression (zones : ZoneDatabase) (value : Json) (trusted : TrustedContext)
    (root : Bool) : Except Failure Bool := do
  let (matched, _) ← evaluateWithPresence zones trusted value root
  return matched

/-- An absent condition holds in every context. -/
def evaluateCondition (zones : ZoneDatabase) (raw : List UInt8) (trusted : TrustedContext) :
    Except Failure Bool := do
  match ← parseCondition zones raw with
  | none => return true
  | some value => evaluateExpression zones value trusted true

end PolicyCondition
