import ChaosPlus.EntityStore
import ChaosPlus.LikePattern

/-!
# Entity invitations

An invite code lives in the metadata of an entity. Accepting a code binds the subject to
the entity whose row the lookup returns first, and the lookup searches the metadata text
for the code as part of a pattern. The database decides which of several rows is first.
-/
namespace EntityInvite

open EntityStore JsonDocument KeyedTable PolicyStore

def inviteCodeKey : String := "invite_code"

/-- How the database reads a string argument and compares patterns. -/
structure SqlDialect where
  like : LikePattern.Dialect
  literal : String → String := id
  maxPatternBytes : Option Nat := none

/-- The row a query with a limit of one returns. -/
structure RowChoice where
  first : List EntityRow → Option EntityRow
  mem_of_first : ∀ {rows row}, first rows = some row → row ∈ rows
  exists_first : ∀ {rows}, rows ≠ [] → ∃ row, first rows = some row

inductive InviteError where
  | codeRequired
  | lookupFailed
  | notFound
  | entity (failure : EntityError)
  deriving DecidableEq, Repr

def invitedEntity (row : EntityRow) : Except InviteError Entity :=
  match entityFromRow row with
  | .ok entity => .ok entity
  | .error failure => .error (.entity failure)

def patternAccepted (dialect : SqlDialect) (pattern : String) : Bool :=
  match dialect.maxPatternBytes with
  | some limit => pattern.utf8ByteSize ≤ limit
  | none => true

def invitePattern (dialect : SqlDialect) (code : String) : String :=
  dialect.literal ("%" ++ GoText.trimmed code ++ "%")

/-- The rows of all tenants whose metadata text is like the pattern. -/
def inviteRows (dialect : SqlDialect) (db : Db) (code : String) : List EntityRow :=
  db.entities.rows.filter fun e => dialect.like.matches e.metadata (invitePattern dialect code)

def lookupEntityByInvite (dialect : SqlDialect) (choice : RowChoice) (db : Db) (code : String) :
    Except InviteError Entity :=
  if GoText.trimmed code = "" then .error .codeRequired
  else if !patternAccepted dialect (invitePattern dialect code) then .error .lookupFailed
  else match choice.first (inviteRows dialect db code) with
    | none => .error .notFound
    | some row => invitedEntity row

def inviteBinding (tenantID entityID principalID : String) : RoleBindingRow :=
  ⟨tenantID, "owner", principalID, "entity", entityID, .allow, 0⟩

/-- The insert of the binding; a missing role or a taken key leaves the table alone. -/
def bindInvited (db : Db) (tenantID entityID principalID : String) : Db :=
  if db.roles.hasKey (tenantID, "owner") then
    { db with
      roleBindings := db.roleBindings.insertIgnore (inviteBinding tenantID entityID principalID) }
  else db

def acceptEntityInvite (dialect : SqlDialect) (choice : RowChoice) (db : Db)
    (code principalID : String) : Except InviteError (Entity × Db) := do
  let entity ← lookupEntityByInvite dialect choice db code
  return (entity, bindInvited db entity.tenantID entity.id principalID)

/-- The top-level string under the invite key. -/
def inviteCode (metadata : String) : Option String :=
  match decodeMap (encodeUtf8 metadata) with
  | some entries =>
    match lookup entries inviteCodeKey with
    | some (.string code) => some code
    | _ => none
  | none => none

/-- Every binding the call adds is on an entity whose invite code is the code given. -/
def BindsExactly (dialect : SqlDialect) (db : Db) (code principalID : String) : Prop :=
  ∀ choice entity db', acceptEntityInvite dialect choice db code principalID = .ok (entity, db') →
    ∀ b ∈ db'.roleBindings, b ∈ db.roleBindings ∨
      ∃ e ∈ db.entities, e.tenantID = b.tenantID ∧ b.scopeType = "entity" ∧ e.id = b.scopeID ∧
        inviteCode e.metadata = some code

/-- The row is like the pattern, and its binding can still be inserted. -/
def joinable (dialect : SqlDialect) (db : Db) (code principalID : String) (e : EntityRow) : Bool :=
  GoText.trimmed code ≠ "" && patternAccepted dialect (invitePattern dialect code) &&
    dialect.like.matches e.metadata (invitePattern dialect code) &&
    (decodeMap (encodeUtf8 e.metadata)).isSome && db.roles.hasKey (e.tenantID, "owner") &&
    !db.roleBindings.hasKey (e.tenantID, "owner", principalID, "entity", e.id)

section Lookup

variable {dialect : SqlDialect} {choice : RowChoice} {db : Db} {code principalID : String}

theorem invitedEntity_eq_ok {row : EntityRow} {entity : Entity}
    (h : invitedEntity row = .ok entity) :
    entity.tenantID = row.tenantID ∧ entity.id = row.id ∧
      (decodeMap (encodeUtf8 row.metadata)).isSome = true := by
  unfold invitedEntity entityFromRow at h
  cases hdecoded : decodeMap (encodeUtf8 row.metadata) with
  | none => simp [hdecoded] at h
  | some metadata =>
    simp only [hdecoded] at h
    obtain rfl := Except.ok.inj h
    exact ⟨rfl, rfl, rfl⟩

theorem invitedEntity_of_decoded {row : EntityRow}
    (h : (decodeMap (encodeUtf8 row.metadata)).isSome = true) :
    ∃ entity, invitedEntity row = .ok entity := by
  obtain ⟨metadata, hdecoded⟩ := Option.isSome_iff_exists.mp h
  refine ⟨⟨row.id, row.tenantID, row.parentID.getD "", row.type, row.name, statusText row.status,
    metadata⟩, ?_⟩
  simp only [invitedEntity, entityFromRow, hdecoded]

/-- A successful lookup returns one of the rows like the pattern. -/
theorem lookupEntityByInvite_eq_ok {entity : Entity}
    (h : lookupEntityByInvite dialect choice db code = .ok entity) :
    GoText.trimmed code ≠ "" ∧ patternAccepted dialect (invitePattern dialect code) = true ∧
      ∃ row ∈ db.entities, dialect.like.matches row.metadata (invitePattern dialect code) = true ∧
        invitedEntity row = .ok entity := by
  unfold lookupEntityByInvite at h
  split_ifs at h with hblank hpattern
  cases hfirst : choice.first (inviteRows dialect db code) with
  | none => simp [hfirst] at h
  | some row =>
    simp only [hfirst] at h
    obtain ⟨hrow, hmatches⟩ := List.mem_filter.mp (choice.mem_of_first hfirst)
    exact ⟨hblank, by simpa using hpattern, row, hrow, hmatches, h⟩

/-- The database may return any row like the pattern. -/
theorem lookupEntityByInvite_may_return {row : EntityRow} (hrow : row ∈ db.entities)
    (hblank : GoText.trimmed code ≠ "")
    (hpattern : patternAccepted dialect (invitePattern dialect code) = true)
    (hmatches : dialect.like.matches row.metadata (invitePattern dialect code) = true) :
    ∃ choice : RowChoice, lookupEntityByInvite dialect choice db code = invitedEntity row := by
  have hmem : row ∈ inviteRows dialect db code := List.mem_filter.mpr ⟨hrow, hmatches⟩
  refine ⟨⟨fun rows => if row ∈ rows then some row else rows.head?, ?_, ?_⟩, ?_⟩
  · intro rows other hfirst
    split_ifs at hfirst with hin
    · obtain rfl := Option.some.inj hfirst
      exact hin
    · exact List.mem_of_head? hfirst
  · intro rows hrows
    split_ifs with hin
    · exact ⟨row, rfl⟩
    · exact ⟨rows.head hrows, List.head?_eq_some_head hrows⟩
  · simp [lookupEntityByInvite, hblank, hpattern, hmem]

theorem mem_bindInvited {tenantID entityID : String} {b : RoleBindingRow} :
    b ∈ (bindInvited db tenantID entityID principalID).roleBindings ↔
      b ∈ db.roleBindings ∨ (db.roles.hasKey (tenantID, "owner") = true ∧
        db.roleBindings.hasKey (tenantID, "owner", principalID, "entity", entityID) = false ∧
        b = inviteBinding tenantID entityID principalID) := by
  unfold bindInvited
  split_ifs with hrole
  · rw [Table.mem_insertIgnore]
    simp [hrole, inviteBinding]
  · simp [hrole]

end Lookup

/-- An entity with an invite code, in a tenant that has the owner role. -/
def invitedTenant : Db where
  tenants := .single ⟨"acme", .active⟩
  roles := .single ⟨"acme", "owner", "Owner"⟩
  entities := .single ⟨"acme", "site", none, "team", "Site", .active,
    "\x7b\"invite_code\":\"inv-0a1b2c3d4e5f\"\x7d"⟩

/-- A database that returns rows in the order of the table. -/
def firstRow : RowChoice where
  first := List.head?
  mem_of_first := List.mem_of_head?
  exists_first h := ⟨_, List.head?_eq_some_head h⟩

def acceptedBindings (dialect : SqlDialect) (db : Db) (code principalID : String) :
    List RoleBindingRow :=
  match acceptEntityInvite dialect firstRow db code principalID with
  | .ok (_, db') => db'.roleBindings.rows
  | .error _ => []

theorem not_bindsExactly_of_accepted {dialect : SqlDialect} {code principalID : String}
    {b : RoleBindingRow} (h : acceptedBindings dialect invitedTenant code principalID = [b])
    (hcode : ∀ e ∈ invitedTenant.entities, inviteCode e.metadata ≠ some code) :
    ¬ BindsExactly dialect invitedTenant code principalID := by
  intro hexact
  unfold acceptedBindings at h
  split at h
  · rename_i entity db' haccept
    have hb : b ∈ db'.roleBindings := by simp [Table.mem_def, h]
    rcases hexact firstRow entity db' haccept b hb with hold | ⟨e, he, _, _, _, hown⟩
    · simp [Table.mem_def, invitedTenant, Table.empty] at hold
    · exact hcode e he hown
  · simp at h

end EntityInvite
