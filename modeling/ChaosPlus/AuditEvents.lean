import ChaosPlus.GoText
import ChaosPlus.JsonEncoding
import ChaosPlus.LockedTransactions

/-!
# The audit tables

Events and the head row of each tenant, what is hashed of an event, and the statements sent
to the two tables. A text is the bytes it is stored as; the digest of the hash is a
parameter. Events are only ever added, which triggers of the table enforce.
-/
namespace AuditEvents

open InterleavedTransactions JsonDocument JsonEncoding

abbrev Bytes := List UInt8

structure EventRow where
  id : Bytes
  tenantID : Bytes
  principalID : Bytes := []
  eventType : Bytes
  targetType : Bytes := []
  targetID : Bytes := []
  outcome : Bytes
  ipAddress : Bytes := []
  userAgent : Bytes := []
  detail : Bytes
  createdAt : Int
  sequence : Int
  previousHash : Bytes
  eventHash : Bytes
  deriving DecidableEq, Repr

structure HeadRow where
  tenantID : Bytes
  sequence : Int := 0
  eventHash : Bytes := []
  updatedAt : Int
  deriving DecidableEq, Repr

/-! ## What is hashed -/

/-- The runes of a text as the encoder of strings meets them; `none` is an invalid byte. -/
def runes : Nat → Bytes → List (Option Char)
  | 0, _ => []
  | _ + 1, [] => []
  | fuel + 1, bytes =>
    let (rune, width) := decodeRune bytes
    (if rune = replacement ∧ width = 1 then none else some rune) :: runes fuel (bytes.drop width)

def runesOf (text : Bytes) : List (Option Char) := runes text.length text

def encodeRune : Option Char → List Char
  | none => ['\\', 'u', 'f', 'f', 'f', 'd']
  | some c => encodeChar c

def encodeText (text : Bytes) : List Char := '"' :: ((runesOf text).flatMap encodeRune ++ ['"'])

def textField (name : String) (text : Bytes) : List Char :=
  '"' :: (name.toList ++ ('"' :: ':' :: encodeText text))

def numberField (name : String) (n : Int) : List Char :=
  '"' :: (name.toList ++ ('"' :: ':' :: (toString n).toList))

/-- The texts and then the numbers of the record that is hashed; the hash of the event
itself is not among its fields. -/
def payloadText (row : EventRow) : List Char :=
  '{' :: (textField "ID" row.id ++ ',' :: (textField "TenantID" row.tenantID ++
    ',' :: (textField "PrincipalID" row.principalID ++ ',' :: (textField "EventType" row.eventType ++
    ',' :: (textField "TargetType" row.targetType ++ ',' :: (textField "TargetID" row.targetID ++
    ',' :: (textField "Outcome" row.outcome ++ ',' :: (textField "IPAddress" row.ipAddress ++
    ',' :: (textField "UserAgent" row.userAgent ++ ',' :: (textField "Detail" row.detail ++
    ',' :: (numberField "CreatedAt" row.createdAt ++ ',' :: (numberField "Sequence" row.sequence ++
    ',' :: (textField "PreviousHash" row.previousHash ++ ['}'])))))))))))))

def payload (row : EventRow) : Bytes := (payloadText row).flatMap String.utf8EncodeChar

/-- The hexadecimal digest of the payload. -/
def hash (sha256 : Bytes → Bytes) (row : EventRow) : Bytes := sha256 (payload row)

/-! ## The tables and their statements -/

structure Db where
  events : List EventRow := []
  heads : Bytes → Option HeadRow := fun _ => none

/-- The unique indexes of the events. -/
def clashes (a b : EventRow) : Bool :=
  a.id = b.id || (a.tenantID = b.tenantID &&
    ((a.sequence = b.sequence && 0 < a.sequence) || (a.eventHash = b.eventHash && a.eventHash ≠ [])))

/-- `reserve` is the write lock that a statement of one dialect takes on the whole database. -/
inductive Write where
  | insertHead (head : HeadRow)
  | lockHead (tenantID : Bytes)
  | insertEvent (row : EventRow)
  | setHead (tenantID : Bytes) (sequence : Int) (eventHash : Bytes) (updatedAt : Int)
  | reserve
  deriving DecidableEq, Repr

def Write.apply (db : Db) : Write → Db
  | .insertHead head =>
    { db with
      heads := Function.update db.heads head.tenantID (some ((db.heads head.tenantID).getD head)) }
  | .insertEvent row => { db with events := db.events ++ [row] }
  | .setHead tenantID sequence eventHash updatedAt =>
    { db with
      heads := Function.update db.heads tenantID
        ((db.heads tenantID).map fun head => { head with sequence, eventHash, updatedAt }) }
  | .lockHead _ | .reserve => db

/-- The head row that a write holds. -/
def Write.headOf : Write → Option Bytes
  | .insertHead head => some head.tenantID
  | .lockHead tenantID | .setHead tenantID .. => some tenantID
  | .insertEvent _ | .reserve => none

inductive Dialect where
  | sqlite
  | mysql
  | postgres
  deriving DecidableEq, Repr

/-- One dialect has one writer at a time; the others lock rows and index entries. -/
def Write.conflicts (dialect : Dialect) (v w : Write) : Bool :=
  if dialect = .sqlite then true
  else match v, w with
    | .insertEvent a, .insertEvent b => clashes a b || clashes b a
    | v, w => v.headOf.any fun tenantID => w.headOf = some tenantID

inductive Statement where
  | ensureHead (head : HeadRow)
  | lockHead (tenantID : Bytes)
  | insertEvent (row : EventRow)
  | advanceHead (tenantID : Bytes) (expected sequence : Int) (eventHash : Bytes) (updatedAt : Int)
  deriving DecidableEq, Repr

/-- The update of the head answers with the number of rows it changed. -/
abbrev Answer : Statement → Type
  | .ensureHead _ | .insertEvent _ => Unit
  | .lockHead _ => HeadRow
  | .advanceHead .. => Nat

inductive Failure where
  | noRows
  | unique
  deriving DecidableEq, Repr

def ensureHead (dialect : Dialect) (db : Db) (head : HeadRow) : List Write :=
  match db.heads head.tenantID with
  | some _ => if dialect = .sqlite then [.reserve] else []
  | none => [.insertHead head]

/-- The head row, locked where the dialect has row locks. -/
def lockHead (dialect : Dialect) (db : Db) (tenantID : Bytes) :
    Except Failure (HeadRow × List Write) :=
  match db.heads tenantID with
  | some head => .ok (head, if dialect = .sqlite then [] else [.lockHead tenantID])
  | none => .error .noRows

def advanceHead (db : Db) (tenantID : Bytes) (expected sequence : Int) (eventHash : Bytes)
    (updatedAt : Int) : Nat × List Write :=
  if (db.heads tenantID).any fun head => head.sequence = expected then
    (1, [.setHead tenantID sequence eventHash updatedAt])
  else (0, [])

def effect (dialect : Dialect) : (q : Statement) → Db → Except Failure (Answer q × List Write)
  | .ensureHead head, db => .ok ((), ensureHead dialect db head)
  | .lockHead tenantID, db => lockHead dialect db tenantID
  | .insertEvent row, db =>
    if db.events.any (clashes row) then .error .unique else .ok ((), [.insertEvent row])
  | .advanceHead tenantID expected sequence eventHash updatedAt, db =>
    .ok (advanceHead db tenantID expected sequence eventHash updatedAt)

def store (dialect : Dialect) : Store Statement Answer Failure Db Write :=
  ⟨effect dialect, Write.apply, Write.conflicts dialect⟩

end AuditEvents
