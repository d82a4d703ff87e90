import ChaosPlus.GoText
import ChaosPlus.JsonDocument
import Mathlib.Data.List.Dedup

/-!
# Dynamic group rules

A rule selects tenant members by their subject, e-mail, department or status. Rules are
decoded into a fixed record, so unknown fields are refused and field names are compared
without regard to case. The lower-case mapping of code points is a parameter.
-/
namespace MemberRule

open JsonDocument

structure Condition where
  field : String := ""
  operator : String := ""
  values : List String := []
  deriving DecidableEq, Repr

structure Rule where
  version : Int := 0
  matching : String := ""
  conditions : List Condition := []
  deriving DecidableEq, Repr

structure MemberFacts where
  subject : String
  email : String
  departmentID : String
  status : String

def maxMemberRuleBytes : Nat := 4096
def maxMemberRuleConditions : Nat := 16
def maxMemberRuleValues : Nat := 16

/-- The representative of a letter's case-folding class, where it is an ASCII letter. -/
def foldRune (c : Char) : Char :=
  if c.toNat = 0x17F then 'S' else if c.toNat = 0x212A then 'K' else c.toUpper

def namesField (key field : String) : Bool := key.toList.map foldRune = field.toList.map foldRune

def decodeString (current : String) : Json → Option String
  | .string text => some text
  | .null => some current
  | _ => none

def decodeInt (current : Int) : Json → Option Int
  | .number text => GoText.parseInt64 text
  | .null => some current
  | _ => none

def decodeBool (current : Bool) : Json → Option Bool
  | .bool flag => some flag
  | .null => some current
  | _ => none

/-- Decodes the entries of an object into a record, one after the other. -/
def decodeRecord {α : Type} (decodeField : α → String × Json → Option α) (current : α) : Json → Option α
  | .object entries => entries.foldlM decodeField current
  | .null => some current
  | _ => none

/-- An array overwrites the elements in place, starting from the existing ones. -/
def decodeElements {α : Type} (fresh : α) (decodeOne : α → Json → Option α) :
    List α → List Json → Option (List α)
  | _, [] => some []
  | current, item :: rest => do
    let first ← decodeOne (current.headD fresh) item
    let others ← decodeElements fresh decodeOne current.tail rest
    return first :: others

def decodeArray {α : Type} (fresh : α) (decodeOne : α → Json → Option α) (current : List α) :
    Json → Option (List α)
  | .array items => decodeElements fresh decodeOne current items
  | .null => some []
  | _ => none

def decodeConditionField (condition : Condition) (entry : String × Json) : Option Condition :=
  if namesField entry.1 "field" then
    (decodeString condition.field entry.2).map fun field => { condition with field }
  else if namesField entry.1 "operator" then
    (decodeString condition.operator entry.2).map fun operator => { condition with operator }
  else if namesField entry.1 "values" then
    (decodeArray "" decodeString condition.values entry.2).map fun values =>
      { condition with values }
  else none

def decodeCondition (current : Condition) : Json → Option Condition
  | .object entries => entries.foldlM decodeConditionField current
  | .null => some current
  | _ => none

def decodeRuleField (rule : Rule) (entry : String × Json) : Option Rule :=
  if namesField entry.1 "version" then
    (decodeInt rule.version entry.2).map fun version => { rule with version }
  else if namesField entry.1 "match" then
    (decodeString rule.matching entry.2).map fun matching => { rule with matching }
  else if namesField entry.1 "conditions" then
    (decodeArray {} decodeCondition rule.conditions entry.2).map fun conditions =>
      { rule with conditions }
  else none

def decodeRule : Json → Option Rule
  | .object entries => entries.foldlM decodeRuleField {}
  | .null => some {}
  | _ => none

def validMemberRuleField (field : String) : Bool :=
  field = "member.subject" || field = "member.email" || field = "member.email_domain" ||
    field = "member.department_id" || field = "member.status"

section Text

variable (lower : Char → Char)

def toLower (text : String) : String := String.ofList (text.toList.map lower)

/-- Values of the fields that are compared in lower case are lowered when stored. -/
def normalizeValue (field value : String) : String :=
  let value := GoText.trimmed value
  if field = "member.email" || field = "member.email_domain" || field = "member.status" then
    toLower lower value
  else value

/-- Keeps the first of equal values. -/
def firstOccurrences : List String → List String → List String
  | _, [] => []
  | seen, value :: rest =>
    if seen.contains value then firstOccurrences seen rest
    else value :: firstOccurrences (value :: seen) rest

def normalizeCondition (condition : Condition) : Except String Condition :=
  if !validMemberRuleField condition.field then
    .error ("unknown member rule field \"" ++ condition.field ++ "\"")
  else if condition.operator ≠ "in" && condition.operator ≠ "not_in" then
    .error ("unknown member rule operator \"" ++ condition.operator ++ "\"")
  else if condition.values.length = 0 || condition.values.length > maxMemberRuleValues then
    .error "member rule condition requires 1 to 16 values"
  else
    let values := condition.values.map (normalizeValue lower condition.field)
    if values.any fun value => value = "" || value.utf8ByteSize > 320 then
      .error "member rule values must be non-empty and at most 320 characters"
    else .ok { condition with values := firstOccurrences [] values }

def parseMemberRule (raw : List UInt8) : Except String Rule :=
  if raw.length > maxMemberRuleBytes then .error "member rule exceeds 4096 bytes"
  else
    let text := GoText.trimSpace (decodeUtf8 raw)
    if text = [] || text = "null".toList then .error "member rule is required"
    else match (parseText text).bind decodeRule with
      | none => .error "decode member rule"
      | some rule =>
        if rule.version ≠ 1 then .error "member rule version must be 1"
        else if rule.matching ≠ "all" && rule.matching ≠ "any" then
          .error "member rule match must be all or any"
        else if rule.conditions.length = 0 || rule.conditions.length > maxMemberRuleConditions then
          .error "member rule requires 1 to 16 conditions"
        else do
          let conditions ← rule.conditions.mapM (normalizeCondition lower)
          return { rule with conditions }

def emailDomain (email : String) : String :=
  let chars := (toLower lower (GoText.trimmed email)).toList
  if chars.contains '@' then
    String.ofList (chars.reverse.takeWhile fun c => c ≠ '@').reverse
  else ""

def memberConditionMatches (condition : Condition) (facts : MemberFacts) : Bool :=
  let actual :=
    if condition.field = "member.email" then toLower lower facts.email
    else if condition.field = "member.email_domain" then emailDomain lower facts.email
    else if condition.field = "member.department_id" then facts.departmentID
    else if condition.field = "member.status" then toLower lower facts.status
    else facts.subject
  let found := condition.values.contains actual
  if condition.operator = "not_in" then !found else found

/-- The loop over the conditions: `all` stops at a miss, `any` at a hit. -/
def conditionsMatch (matching : String) (facts : MemberFacts) : List Condition → Bool
  | [] => matching = "all"
  | condition :: rest =>
    let conditionMatched := memberConditionMatches lower condition facts
    if matching = "all" && !conditionMatched then false
    else if matching = "any" && conditionMatched then true
    else conditionsMatch matching facts rest

def evaluateMemberRule (raw : List UInt8) (facts : MemberFacts) : Except String Bool := do
  let rule ← parseMemberRule lower raw
  return conditionsMatch lower rule.matching facts rule.conditions

end Text

end MemberRule
