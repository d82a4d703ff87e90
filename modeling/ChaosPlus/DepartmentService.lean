import ChaosPlus.DepartmentStore
import ChaosPlus.DirectoryService

/-!
# Departments

The calls that create, change, move and delete departments: their checks and the statements
of their transactions. What other tables refer to a department is given with the call that
deletes it. Instants and audit records are left out.
-/
namespace DepartmentService

open DepartmentStore InterleavedTransactions
open DirectoryService (nameKey validID validName validSortOrder validTenant)
open PolicyStore (DepartmentClosureRow RecordStatus)

inductive DepartmentError where
  | invalid
  | notFound
  | nameConflict
  | hierarchyCycle
  | hasChildren
  | inUse
  | versionConflict
  | database (context : String)
  deriving DecidableEq, Repr

structure Department where
  id : String
  tenantID : String
  parentID : String
  name : String
  status : RecordStatus
  sortOrder : Int
  depth : Int
  version : Int
  deriving DecidableEq, Repr

structure CreateDepartment where
  parentID : String := ""
  name : String
  status : String := ""
  sortOrder : Int := 0
  deriving DecidableEq, Repr

structure UpdateDepartment where
  parentID : Option String := none
  name : Option String := none
  status : Option String := none
  sortOrder : Option Int := none
  version : Int
  deriving DecidableEq, Repr

section Checks

def departmentStatus (status : String) : Option RecordStatus :=
  if status = "active" then some .active
  else if status = "disabled" then some .disabled
  else none

def validStatus (status : String) : Bool := (departmentStatus status).isSome

def validOptionalID (value : String) : Bool := value = "" || validID value

/-- An empty status means active. -/
def normalizeCreate (tenantID : String) (input : CreateDepartment) :
    Except DepartmentError (String × CreateDepartment) :=
  let tenantID := GoText.trimmed tenantID
  let input := { input with
    parentID := GoText.trimmed input.parentID
    name := GoText.trimmed input.name
    status := if input.status = "" then "active" else input.status }
  if validTenant tenantID && validOptionalID input.parentID && validName input.name &&
      validStatus input.status && validSortOrder input.sortOrder then .ok (tenantID, input)
  else .error .invalid

/-- At least one field is given, and each given field is valid. -/
def normalizeUpdate (tenantID id : String) (input : UpdateDepartment) :
    Except DepartmentError (String × String × UpdateDepartment) :=
  let tenantID := GoText.trimmed tenantID
  let id := GoText.trimmed id
  let given := input.parentID.isSome || input.name.isSome || input.status.isSome ||
    input.sortOrder.isSome
  let input := { input with
    parentID := input.parentID.map GoText.trimmed
    name := input.name.map GoText.trimmed }
  if validTenant tenantID && validID id && decide (1 ≤ input.version) && given &&
      input.parentID.all validOptionalID && input.name.all validName &&
      input.status.all validStatus && input.sortOrder.all validSortOrder then
    .ok (tenantID, id, input)
  else .error .invalid

end Checks

/-- A transaction on the department tables. -/
abbrev Tx := Program Statement Answer Constraint DepartmentError

def send (q : Statement) (onFailure : Constraint → DepartmentError) : Tx (Answer q) :=
  Program.query q onFailure

section Repository

def get (tenantID id : String) : Tx DepartmentRow := do
  let row : Option DepartmentRow ←
    send (.selectDepartment tenantID id) fun _ => .database "get department"
  match row with
  | some row => return row
  | none => Program.fail .notFound

def ancestors (tenantID descendantID : String) : Tx (List DepartmentClosureRow) :=
  send (.selectAncestors tenantID descendantID) fun _ =>
    .database "list department ancestors"

def descendants (tenantID ancestorID : String) : Tx (List DepartmentClosureRow) :=
  send (.selectDescendants tenantID ancestorID) fun _ =>
    .database "list department descendants"

def isDescendant (tenantID ancestorID descendantID : String) : Tx Bool := do
  let count : Nat ← send (.countLinks tenantID ancestorID descendantID) fun _ =>
    .database "check department hierarchy"
  return decide (0 < count)

/-- The closure rows in one statement, which is left out when there are none. -/
def insertLinks (links : List DepartmentClosureRow) (context : String) : Tx Unit :=
  if links = [] then return ()
  else send (.insertLinks links) fun _ => .database context

/-- The parent, when there is one, exists. -/
def requireParent (tenantID parentID : String) : Tx Unit :=
  if parentID = "" then return ()
  else do
    let _ ← get tenantID parentID
    return ()

def linksToParent (row : DepartmentRow) : Tx Unit :=
  if row.parentID = "" then return ()
  else do
    let found ← ancestors row.tenantID row.parentID
    insertLinks (found.map fun link => ⟨row.tenantID, link.ancestorID, row.id, link.depth + 1⟩)
      "insert department ancestor closures"

def insert (row : DepartmentRow) : Tx Unit := do
  requireParent row.tenantID row.parentID
  let _ ← send (.insertDepartment row) fun failure =>
    if failure = .siblingName then .nameConflict else .database "insert department"
  insertLinks [⟨row.tenantID, row.id, row.id, 0⟩] "insert department self closure"
  linksToParent row

def update (row : DepartmentRow) (expectedVersion : Int) : Tx Unit := do
  let affected : Nat ← send (.updateDepartment row expectedVersion) fun failure =>
    if isUniqueViolation failure then .nameConflict else .database "update department"
  if affected = 1 then return () else Program.fail .versionConflict

/-- The rows between the old ancestors and the nodes of the subtree are removed. -/
def removeOldLinks (tenantID : String) (oldAncestorIDs subtreeIDs : List String) : Tx Unit :=
  if oldAncestorIDs = [] then return ()
  else send (.deleteLinks tenantID oldAncestorIDs subtreeIDs) fun _ =>
    .database "remove old department closures"

/-- One row for each ancestor of the new parent and each node of the subtree. -/
def movedLinks (tenantID : String) (newAncestors subtree : List DepartmentClosureRow) :
    List DepartmentClosureRow :=
  newAncestors.flatMap fun ancestor => subtree.map fun descendant =>
    ⟨tenantID, ancestor.ancestorID, descendant.descendantID, ancestor.depth + descendant.depth + 1⟩

def linkToNewParent (tenantID parentID : String) (subtree : List DepartmentClosureRow) : Tx Unit :=
  if parentID = "" then return ()
  else do
    let newAncestors ← ancestors tenantID parentID
    insertLinks (movedLinks tenantID newAncestors subtree) "insert moved department closures"

def move (tenantID id parentID : String) : Tx Unit := do
  let subtree ← descendants tenantID id
  let oldAncestors ← ancestors tenantID id
  removeOldLinks tenantID
    ((oldAncestors.map DepartmentClosureRow.ancestorID).filter fun ancestorID => ancestorID ≠ id)
    (subtree.map DepartmentClosureRow.descendantID)
  linkToNewParent tenantID parentID subtree

/-- The counts of the rows that other tables hold for a department. -/
structure References where
  members : Nat
  roleScopes : Nat
  deriving DecidableEq, Repr

/-- A department goes when no department is below it and nothing refers to it. -/
def delete (tenantID id : String) (version : Int) (references : References) : Tx Unit := do
  let children : Nat ← send (.countChildren tenantID id) fun _ =>
    .database "count department children"
  if children > 0 then Program.fail .hasChildren
  else if references.members > 0 || references.roleScopes > 0 then Program.fail .inUse
  else do
    let affected : Nat ← send (.deleteDepartment tenantID id version) fun _ =>
      .database "delete department"
    if affected = 1 then return () else Program.fail .versionConflict

def advance (tenantID : String) : Tx Unit :=
  send (.advance tenantID) fun _ => .database "advance IAM policy revision"

def departmentFromRow (row : DepartmentRow) (depth : Int) : Department :=
  ⟨row.id, row.tenantID, row.parentID, row.name, row.status, row.sortOrder, depth, row.version⟩

/-- The department with its depth, read from its closure rows. -/
def withDepth (row : DepartmentRow) : Tx Department := do
  let found ← ancestors row.tenantID row.id
  return departmentFromRow row (found.length - 1)

end Repository

section Service

variable (lower : Char → Char)

def createRow (tenantID id : String) (input : CreateDepartment) : DepartmentRow :=
  { tenantID, id, parentID := input.parentID, name := input.name, nameKey := nameKey lower input.name
    status := (departmentStatus input.status).getD .active, sortOrder := input.sortOrder
    version := 1 }

/-- The call with the id that was generated for it. -/
def createDepartment (tenantID id : String) (input : CreateDepartment) : Tx Department :=
  match normalizeCreate tenantID input with
  | .error failure => Program.fail failure
  | .ok (tenantID, input) =>
    if !validID id then Program.fail .invalid
    else do
      let row := createRow lower tenantID id input
      insert row
      let created ← withDepth row
      advance tenantID
      return created

def applyUpdate (input : UpdateDepartment) (current : DepartmentRow) : DepartmentRow :=
  { current with
    parentID := input.parentID.getD current.parentID
    name := input.name.getD current.name
    nameKey := (input.name.map (nameKey lower)).getD current.nameKey
    status := ((input.status.map departmentStatus).getD (some current.status)).getD current.status
    sortOrder := input.sortOrder.getD current.sortOrder }

/-- A new parent exists and is not the department or below it. -/
def requireNewParent (tenantID id parentID : String) : Tx Unit :=
  if parentID = "" then return ()
  else do
    let _ ← get tenantID parentID
    let cycle ← isDescendant tenantID id parentID
    if cycle then Program.fail .hierarchyCycle else return ()

def requireMove (current updated : DepartmentRow) : Tx Unit :=
  if updated.parentID = current.parentID then return ()
  else requireNewParent current.tenantID current.id updated.parentID

def moveIfChanged (current updated : DepartmentRow) : Tx Unit :=
  if updated.parentID = current.parentID then return ()
  else move current.tenantID current.id updated.parentID

/-- The writes of an update that changes something. -/
def changeDepartment (current updated : DepartmentRow) : Tx Department := do
  let updated := { updated with version := current.version + 1 }
  update updated current.version
  moveIfChanged current updated
  let changed ← withDepth updated
  advance current.tenantID
  return changed

def sameFields (updated current : DepartmentRow) : Bool :=
  updated.parentID = current.parentID && updated.name = current.name &&
    updated.status = current.status && updated.sortOrder = current.sortOrder

def updateDepartment (tenantID id : String) (input : UpdateDepartment) : Tx Department :=
  match normalizeUpdate tenantID id input with
  | .error failure => Program.fail failure
  | .ok (tenantID, id, input) => do
    let current ← get tenantID id
    if current.version ≠ input.version then Program.fail .versionConflict
    else do
      let updated := applyUpdate lower input current
      requireMove current updated
      if sameFields updated current then withDepth updated
      else changeDepartment current updated

def deleteDepartment (tenantID id : String) (version : Int) (references : References) :
    Tx Unit :=
  let tenantID := GoText.trimmed tenantID
  let id := GoText.trimmed id
  if !(validTenant tenantID && validID id && decide (1 ≤ version)) then Program.fail .invalid
  else do
    let current ← get tenantID id
    if current.version ≠ version then Program.fail .versionConflict
    else do
      delete tenantID id version references
      advance tenantID

inductive Operation where
  | create (tenantID id : String) (input : CreateDepartment)
  | update (tenantID id : String) (input : UpdateDepartment)
  | delete (tenantID id : String) (version : Int) (references : References)
  deriving DecidableEq, Repr

def program : Operation → Tx (Option Department)
  | .create tenantID id input => do
    let created ← createDepartment lower tenantID id input
    return some created
  | .update tenantID id input => do
    let updated ← updateDepartment lower tenantID id input
    return some updated
  | .delete tenantID id version references => do
    deleteDepartment tenantID id version references
    return none

end Service

end DepartmentService
