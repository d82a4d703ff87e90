import ChaosPlus.InterleavedTransactions
import ChaosPlus.PolicyStore

/-!
# The department tables

Departments and their closure rows, the statements sent to them with the constraints of the
tables, and the row writes of each statement. A deleted department takes the closure rows
that name it along. Row order and timestamps are left out.
-/
namespace DepartmentStore

open InterleavedTransactions KeyedTable
open PolicyStore (DepartmentClosureRow RecordStatus)

structure DepartmentRow where
  tenantID : String
  id : String
  parentID : String
  name : String
  nameKey : String
  status : RecordStatus
  sortOrder : Int
  version : Int
  deriving DecidableEq, Repr

structure Db where
  departments : Table (fun row : DepartmentRow => (row.tenantID, row.id)) := .empty
  closure : Table (fun row : DepartmentClosureRow =>
    (row.tenantID, row.ancestorID, row.descendantID)) := .empty
  policyRevisions : String → Nat := fun _ => 0

/-- Whether another department of the parent has the name; the unique index. -/
def siblingNameTaken (db : Db) (row : DepartmentRow) : Bool :=
  db.departments.rows.any fun other => other.tenantID = row.tenantID &&
    other.parentID = row.parentID && other.nameKey = row.nameKey && other.id ≠ row.id

def ancestorLinks (db : Db) (tenantID descendantID : String) : List DepartmentClosureRow :=
  db.closure.rows.filter fun link => link.tenantID = tenantID && link.descendantID = descendantID

def descendantLinks (db : Db) (tenantID ancestorID : String) : List DepartmentClosureRow :=
  db.closure.rows.filter fun link => link.tenantID = tenantID && link.ancestorID = ancestorID

/-- A written row; several writes of a statement are one after the other. -/
inductive Write where
  | putDepartment (row : DepartmentRow)
  | removeDepartment (tenantID id : String)
  | putLink (link : DepartmentClosureRow)
  | removeLink (tenantID ancestorID descendantID : String)
  | advanceRevision (tenantID : String)
  deriving DecidableEq, Repr

def Write.apply (db : Db) : Write → Db
  | .putDepartment row => { db with departments := db.departments.put row }
  | .removeDepartment tenantID id =>
    { db with
      departments := db.departments.deleteWhere fun row => row.tenantID = tenantID && row.id = id }
  | .putLink link => { db with closure := db.closure.put link }
  | .removeLink tenantID ancestorID descendantID =>
    { db with
      closure := db.closure.deleteWhere fun link => link.tenantID = tenantID &&
        link.ancestorID = ancestorID && link.descendantID = descendantID }
  | .advanceRevision tenantID =>
    { db with policyRevisions := fun tenant =>
        if tenant = tenantID then db.policyRevisions tenant + 1 else db.policyRevisions tenant }

/-- A written row is locked until the transaction ends, with the entry of the unique index
and, against removal, the departments a closure row names. -/
def Write.conflicts : Write → Write → Bool
  | .putDepartment row, .putDepartment other => row.tenantID = other.tenantID &&
      (row.id = other.id || (row.parentID = other.parentID && row.nameKey = other.nameKey))
  | .putDepartment row, .removeDepartment tenantID id
  | .removeDepartment tenantID id, .putDepartment row => row.tenantID = tenantID && row.id = id
  | .removeDepartment tenantID id, .removeDepartment tenantID' id' =>
      tenantID = tenantID' && id = id'
  | .putLink link, .removeDepartment tenantID id
  | .removeDepartment tenantID id, .putLink link =>
      link.tenantID = tenantID && (link.ancestorID = id || link.descendantID = id)
  | .putLink link, .putLink other => link.tenantID = other.tenantID &&
      link.ancestorID = other.ancestorID && link.descendantID = other.descendantID
  | .putLink link, .removeLink tenantID ancestorID descendantID
  | .removeLink tenantID ancestorID descendantID, .putLink link =>
      link.tenantID = tenantID && link.ancestorID = ancestorID && link.descendantID = descendantID
  | .removeLink tenantID ancestorID descendantID, .removeLink tenantID' ancestorID' descendantID' =>
      tenantID = tenantID' && ancestorID = ancestorID' && descendantID = descendantID'
  | .advanceRevision tenantID, .advanceRevision tenantID' => tenantID = tenantID'
  | _, _ => false

inductive Statement where
  | selectDepartment (tenantID id : String)
  | countLinks (tenantID ancestorID descendantID : String)
  | selectAncestors (tenantID descendantID : String)
  | selectDescendants (tenantID ancestorID : String)
  | countChildren (tenantID id : String)
  | insertDepartment (row : DepartmentRow)
  | updateDepartment (row : DepartmentRow) (expectedVersion : Int)
  | deleteDepartment (tenantID id : String) (version : Int)
  | insertLinks (links : List DepartmentClosureRow)
  | deleteLinks (tenantID : String) (ancestorIDs descendantIDs : List String)
  | advance (tenantID : String)
  deriving DecidableEq, Repr

/-- Reads answer with rows or a count, the writes on departments with the affected rows. -/
abbrev Answer : Statement → Type
  | .selectDepartment .. => Option DepartmentRow
  | .countLinks .. | .countChildren .. | .updateDepartment .. | .deleteDepartment .. => Nat
  | .selectAncestors .. | .selectDescendants .. => List DepartmentClosureRow
  | .insertDepartment .. | .insertLinks .. | .deleteLinks .. | .advance .. => Unit

instance (q : Statement) : DecidableEq (Answer q) := by
  cases q <;> simp only [Answer] <;> infer_instance

/-- The constraint a statement runs into. -/
inductive Constraint where
  | siblingName
  | primaryKey
  | foreignKey
  deriving DecidableEq, Repr

def isUniqueViolation : Constraint → Bool
  | .siblingName | .primaryKey => true
  | .foreignKey => false

def linkKey (link : DepartmentClosureRow) : String × String × String :=
  (link.tenantID, link.ancestorID, link.descendantID)

/-- Both departments of the row exist. -/
def linkRefers (db : Db) (link : DepartmentClosureRow) : Bool :=
  db.departments.hasKey (link.tenantID, link.ancestorID) &&
    db.departments.hasKey (link.tenantID, link.descendantID)

def insertDepartmentRow (db : Db) (row : DepartmentRow) : Except Constraint (Unit × List Write) :=
  if db.departments.hasKey (row.tenantID, row.id) then .error .primaryKey
  else if siblingNameTaken db row then .error .siblingName
  else .ok ((), [.putDepartment row])

/-- The update changes the row of the expected version. -/
def updateDepartmentRow (db : Db) (row : DepartmentRow) (expectedVersion : Int) :
    Except Constraint (Nat × List Write) :=
  match db.departments.find? (row.tenantID, row.id) with
  | none => .ok (0, [])
  | some stored =>
    if stored.version ≠ expectedVersion then .ok (0, [])
    else if siblingNameTaken db row then .error .siblingName
    else .ok (1, [.putDepartment row])

/-- The closure rows that name the department go with it. -/
def deleteDepartmentRow (db : Db) (tenantID id : String) (version : Int) : Nat × List Write :=
  match db.departments.find? (tenantID, id) with
  | none => (0, [])
  | some stored =>
    if stored.version ≠ version then (0, [])
    else (1, .removeDepartment tenantID id ::
      (db.closure.rows.filter fun link => link.tenantID = tenantID &&
        (link.ancestorID = id || link.descendantID = id)).map
          fun link => .removeLink tenantID link.ancestorID link.descendantID)

def insertLinkRows (db : Db) (links : List DepartmentClosureRow) :
    Except Constraint (Unit × List Write) :=
  if !(links.map linkKey).Nodup || links.any fun link => db.closure.hasKey (linkKey link) then
    .error .primaryKey
  else if !links.all (linkRefers db) then .error .foreignKey
  else .ok ((), links.map Write.putLink)

def deleteLinkRows (db : Db) (tenantID : String) (ancestorIDs descendantIDs : List String) :
    List Write :=
  (db.closure.rows.filter fun link => link.tenantID = tenantID &&
    ancestorIDs.contains link.ancestorID && descendantIDs.contains link.descendantID).map
      fun link => .removeLink tenantID link.ancestorID link.descendantID

def effect : (q : Statement) → Db → Except Constraint (Answer q × List Write)
  | .selectDepartment tenantID id, db => .ok (db.departments.find? (tenantID, id), [])
  | .countLinks tenantID ancestorID descendantID, db =>
    .ok (db.closure.rows.countP fun link => link.tenantID = tenantID &&
      link.ancestorID = ancestorID && link.descendantID = descendantID, [])
  | .selectAncestors tenantID descendantID, db => .ok (ancestorLinks db tenantID descendantID, [])
  | .selectDescendants tenantID ancestorID, db => .ok (descendantLinks db tenantID ancestorID, [])
  | .countChildren tenantID id, db =>
    .ok (db.departments.rows.countP fun row => row.tenantID = tenantID && row.parentID = id, [])
  | .insertDepartment row, db => insertDepartmentRow db row
  | .updateDepartment row expectedVersion, db => updateDepartmentRow db row expectedVersion
  | .deleteDepartment tenantID id version, db => .ok (deleteDepartmentRow db tenantID id version)
  | .insertLinks links, db => insertLinkRows db links
  | .deleteLinks tenantID ancestorIDs descendantIDs, db =>
    .ok ((), deleteLinkRows db tenantID ancestorIDs descendantIDs)
  | .advance tenantID, _ => .ok ((), [.advanceRevision tenantID])

def store : Store Statement Answer Constraint Db Write := ⟨effect, Write.apply, Write.conflicts⟩

end DepartmentStore
