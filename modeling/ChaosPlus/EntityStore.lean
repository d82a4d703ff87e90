import ChaosPlus.GoText
import ChaosPlus.JsonDocument
import ChaosPlus.PolicyStore

/-!
# Entities

The entity record, its validation, the check of a new parent against the ancestors, and
the row writes with the constraints of the table. Encoding metadata back to text is a
parameter.
-/
namespace EntityStore

open JsonDocument PolicyStore

def maxEntityDepth : Nat := 16

def maxEntityMetadataBytes : Nat := 16384

inductive EntityError where
  | invalidArgument (message : String)
  | notFound
  | conflict
  | hasChildren
  | hasBindings
  | hasRelationships
  | hierarchy
  | metadata
  | database
  deriving DecidableEq, Repr

structure Entity where
  id : String
  tenantID : String
  parentID : String
  type : String
  name : String
  status : String
  metadata : List (String × Json)

structure EntityPatch where
  parentID : Option String := none
  type : Option String := none
  name : Option String := none
  status : Option String := none
  metadata : Option (List (String × Json)) := none

def statusText : RecordStatus → String
  | .active => "active"
  | .disabled => "disabled"

/-- An empty status means active. -/
def recordStatus (status : String) : Option RecordStatus :=
  if status = "" || status = "active" then some .active
  else if status = "disabled" then some .disabled
  else none

def nullableString (value : String) : Option String := if value = "" then none else some value

def entityFromRow (row : EntityRow) : Except EntityError Entity :=
  match decodeMap (encodeUtf8 row.metadata) with
  | some metadata => .ok ⟨row.id, row.tenantID, row.parentID.getD "", row.type, row.name,
      statusText row.status, metadata⟩
  | none => .error .metadata

def getEntity (db : Db) (tenantID entityID : String) : Except EntityError Entity :=
  match db.entity? tenantID entityID with
  | some row => entityFromRow row
  | none => .error .notFound

def validateTenant (tenantID : String) : Except EntityError Unit :=
  if GoText.isBlank tenantID || tenantID.utf8ByteSize > 128 then
    .error (.invalidArgument "invalid tenant id")
  else .ok ()

def validateEntityRef (tenantID entityID : String) : Except EntityError Unit := do
  validateTenant tenantID
  let entityID := GoText.trimmed entityID
  if entityID = "" || entityID.utf8ByteSize > 64 then
    throw (.invalidArgument "invalid entity id")

def validEntityType (value : String) : Bool :=
  match value.toList with
  | [] => false
  | first :: rest =>
    value.utf8ByteSize ≤ 64 && 'a' ≤ first && first ≤ 'z' &&
      rest.all fun c => ('a' ≤ c && c ≤ 'z') || ('0' ≤ c && c ≤ '9') || c = '_' || c = '-'

def applyEntityPatch (entity : Entity) (patch : EntityPatch) : Entity :=
  { entity with
    parentID := patch.parentID.getD entity.parentID
    type := patch.type.getD entity.type
    name := patch.name.getD entity.name
    status := patch.status.getD entity.status
    metadata := patch.metadata.getD entity.metadata }

section Encoding

variable (marshal : List (String × Json) → String)

def normalizeEntity (entity : Entity) : Except EntityError Entity := do
  if validateTenant entity.tenantID ≠ .ok () then throw (.invalidArgument "invalid entity tenant")
  let type := GoText.trimmed entity.type
  let name := GoText.trimmed entity.name
  if !validEntityType type || name = "" || name.utf8ByteSize > 200 then
    throw (.invalidArgument "invalid entity type or name")
  match recordStatus entity.status with
  | none => throw (.invalidArgument "invalid entity status")
  | some status =>
    if (marshal entity.metadata).utf8ByteSize > maxEntityMetadataBytes then
      throw (.invalidArgument "invalid entity metadata")
    return { entity with
      parentID := GoText.trimmed entity.parentID, type, name, status := statusText status }

def entityRow (entity : Entity) : EntityRow :=
  ⟨entity.tenantID, entity.id, nullableString entity.parentID, entity.type, entity.name,
    (recordStatus entity.status).getD .active, marshal entity.metadata⟩

end Encoding

/-- One turn of the ancestor loop: the next ancestor to read, none at a root. -/
def ancestorStep (db : Db) (tenantID entityID current : String) (ancestors : Nat) :
    Except EntityError (Option String) :=
  if current = entityID then .error .hierarchy
  else do
    let parent ← getEntity db tenantID current
    if parent.parentID = "" then return none
    if ancestors ≥ maxEntityDepth - 1 then throw .hierarchy
    return some parent.parentID

def walkAncestors (db : Db) (tenantID entityID : String) :
    Nat → Nat → String → Except EntityError Unit
  | 0, _, _ => .error .hierarchy
  | fuel + 1, ancestors, current =>
    match ancestorStep db tenantID entityID current ancestors with
    | .error failure => .error failure
    | .ok none => .ok ()
    | .ok (some next) => walkAncestors db tenantID entityID fuel (ancestors + 1) next

/-- The loop stops at the depth limit, before its fuel does. -/
def validateEntityParent (db : Db) (tenantID entityID parentID : String) :
    Except EntityError Unit :=
  if parentID = "" then .ok () else walkAncestors db tenantID entityID maxEntityDepth 1 parentID

/-- The uniqueness of siblings of one type and name. -/
def siblingTaken (db : Db) (entity : Entity) : Bool :=
  db.entities.rows.any fun e => e.tenantID = entity.tenantID && e.id ≠ entity.id &&
    e.parentID.getD "" = entity.parentID && e.type = entity.type && e.name = entity.name

def parentMissing (db : Db) (entity : Entity) : Bool :=
  entity.parentID ≠ "" && (db.entity? entity.tenantID entity.parentID).isNone

section Writes

variable (marshal : List (String × Json) → String)

def createEntityRow (db : Db) (entity : Entity) : Except EntityError Db :=
  if db.entities.hasKey (entity.tenantID, entity.id) || siblingTaken db entity then .error .conflict
  else if parentMissing db entity then .error .database
  else .ok { db with entities := db.entities.insertIgnore (entityRow marshal entity) }

def updateEntityRow (db : Db) (entity : Entity) : Except EntityError Db :=
  if !db.entities.hasKey (entity.tenantID, entity.id) then .error .notFound
  else if siblingTaken db entity then .error .conflict
  else if parentMissing db entity then .error .database
  else .ok { db with
    entities := db.entities.updateWhere
      (fun e => e.tenantID = entity.tenantID && e.id = entity.id)
      (fun e => { entityRow marshal entity with tenantID := e.tenantID, id := e.id }) (fun _ => rfl) }

end Writes

/-- Relationships that name the entity as their resource or their subject. -/
def entityRelationshipCount (db : Db) (tenantID entityID : String) : Nat :=
  (db.relationships.rows.countP fun r => r.tenantID = tenantID &&
    (r.resourceID = entityID || (r.subjectType = "entity" && r.subjectID = entityID))) +
  db.resourceRelationships.rows.countP fun r => r.tenantID = tenantID &&
    (r.entityID = entityID || (r.subjectType = "entity" && r.subjectID = entityID))

def deleteEntityRow (db : Db) (tenantID entityID : String) : Except EntityError Db :=
  if !db.entities.hasKey (tenantID, entityID) then .error .notFound
  else if db.entities.rows.any fun e => e.tenantID = tenantID && e.parentID = some entityID then
    .error .hasChildren
  else if db.roleBindings.rows.any fun b => b.tenantID = tenantID && b.scopeType = "entity" &&
      b.scopeID = entityID then .error .hasBindings
  else if entityRelationshipCount db tenantID entityID > 0 then .error .hasRelationships
  else .ok { db with
    entities := db.entities.deleteWhere fun e => e.tenantID = tenantID && e.id = entityID }

end EntityStore
