import ChaosPlus.CanonicalCondition
import ChaosPlus.EntityStore
import ChaosPlus.LongestPath
import ChaosPlus.RelationshipPaths

/-!
# Writing relationships

A relationship is validated, its condition canonicalized and its row inserted or rewritten
in one transaction under the policy lock of its tenant. A relationship between entities is
refused when the tenant's graph then has a cycle or a path beyond the limit of the writer.
The limit of the evaluator is a different one.
-/
namespace RelationshipService

open AuthorizationCatalog AuthorizationGrants CanonicalCondition EntityStore KeyedTable LongestPath
  PolicyCondition PolicyStore RecursiveQuery RelationshipPaths

def maxRelationshipDepth : Nat := 16

inductive RelationshipError where
  | invalidCondition (failure : Failure)
  | invalid (message : String)
  | invalidWindow
  | entity (failure : EntityError)
  | resourceInactive
  | subjectMissing
  | subjectInactive
  | hierarchy
  deriving DecidableEq, Repr

/-- Instants are truncated to milliseconds; an absent one is `none`. -/
structure Relationship where
  tenantID : String
  entityID : String := ""
  subjectType : String
  subjectID : String
  subjectRelation : String := ""
  relation : String
  resourceType : String
  resourceID : String
  startsAt : Option Millis := none
  endsAt : Option Millis := none
  condition : List UInt8 := []

local instance fourTexts : DecidableEq (String × String × String × String) := inferInstance

instance sevenTexts :
    DecidableEq (String × String × String × String × String × String × String) := inferInstance

instance eightTexts :
    DecidableEq (String × String × String × String × String × String × String × String) :=
  inferInstance

def normalizeRelationship (relationship : Relationship) : Relationship :=
  { relationship with
    tenantID := GoText.trimmed relationship.tenantID
    entityID := GoText.trimmed relationship.entityID
    subjectType := GoText.trimmed relationship.subjectType
    subjectID := GoText.trimmed relationship.subjectID
    subjectRelation := GoText.trimmed relationship.subjectRelation
    relation := GoText.trimmed relationship.relation
    resourceType := GoText.trimmed relationship.resourceType
    resourceID := GoText.trimmed relationship.resourceID }

/-- The zero instant, the first of January of the year 1. -/
def zeroTime : Millis := -62135596800000

def validateRelationshipWindow (relationship : Relationship) (now : Millis) :
    Except RelationshipError Unit :=
  let disordered := match relationship.startsAt, relationship.endsAt with
    | some start, some stop => decide (stop ≤ start)
    | _, _ => false
  if relationship.startsAt = some zeroTime || relationship.endsAt = some zeroTime || disordered ||
      relationship.endsAt.any (fun stop => decide (stop ≤ now)) then
    .error .invalidWindow
  else .ok ()

def validRelation (value : String) : Bool :=
  value = "owner" || value = "editor" || value = "viewer"

def validateRelationshipShape (relationship : Relationship) : Except RelationshipError Unit :=
  let maxResourceID := if relationship.entityID ≠ "" then 255 else 64
  if validateTenant relationship.tenantID ≠ .ok () || relationship.subjectID = "" ||
      relationship.subjectID.utf8ByteSize > 255 || relationship.entityID.utf8ByteSize > 64 ||
      !validEntityType relationship.resourceType || relationship.resourceID = "" ||
      relationship.resourceID.utf8ByteSize > maxResourceID || !validRelation relationship.relation then
    .error (.invalid "invalid subject, relation, or resource")
  else if relationship.subjectType = "principal" then
    if relationship.subjectRelation ≠ "" then
      .error (.invalid "principal subjects cannot specify a subject relation")
    else .ok ()
  else if relationship.subjectType = "group" || relationship.subjectType = "position" then
    if relationship.subjectRelation ≠ "member" then
      .error (.invalid "group and position subjects require the member relation")
    else .ok ()
  else if relationship.subjectType = "entity" then
    if !validRelation relationship.subjectRelation then
      .error (.invalid "entity subjects require owner, editor, or viewer")
    else .ok ()
  else .error (.invalid "unknown subject type")

def resourceRelationDeclared (actions : List Action) (resourceType relation : String) : Bool :=
  actions.any fun action =>
    action.allowedRelations.contains relation && action.resource = resourceType

/-- Whether the status of a subject's row lets it be named. -/
def subjectStatus : Option RecordStatus → Except RelationshipError Unit
  | none => .error .subjectMissing
  | some .active => .ok ()
  | some .disabled => .error .subjectInactive

def validateSubject (db : Db) (relationship : Relationship) : Except RelationshipError Unit :=
  if relationship.subjectType = "principal" then
    subjectStatus ((db.tenantMembers.find? (relationship.tenantID, relationship.subjectID)).map
      TenantMemberRow.status)
  else if relationship.subjectType = "entity" then
    match getEntity db relationship.tenantID relationship.subjectID with
    | .error .notFound => .error .subjectMissing
    | .error failure => .error (.entity failure)
    | .ok entity => if entity.status ≠ "active" then .error .subjectInactive else .ok ()
  else if relationship.subjectType = "position" then
    subjectStatus ((db.positions.find? (relationship.tenantID, relationship.subjectID)).map
      PositionRow.status)
  else
    subjectStatus ((db.groups.find? (relationship.tenantID, relationship.subjectID)).map
      GroupRow.status)

/-- The resource is looked up first, then the subject. -/
def validateRelationshipFacts (db : Db) (relationship : Relationship) :
    Except RelationshipError Unit :=
  let resourceID :=
    if relationship.entityID ≠ "" then relationship.entityID else relationship.resourceID
  match getEntity db relationship.tenantID resourceID with
  | .error failure => .error (.entity failure)
  | .ok resource =>
    if relationship.entityID = "" && resource.type ≠ relationship.resourceType then
      .error (.invalid "resource type does not match the entity")
    else if resource.status ≠ "active" then .error .resourceInactive
    else validateSubject db relationship

/-- Stored text of a canonical condition. -/
def conditionText (canonical : List UInt8) : String :=
  String.ofList (JsonDocument.decodeUtf8 canonical)

def relationshipToRow (relationship : Relationship) (conditionJSON : String) : RelationshipRow :=
  ⟨relationship.tenantID, relationship.subjectType, relationship.subjectID,
    relationship.subjectRelation, relationship.relation, relationship.resourceType,
    relationship.resourceID, relationship.startsAt.getD 0, relationship.endsAt.getD 0, conditionJSON⟩

def resourceRelationshipToRow (relationship : Relationship) (conditionJSON : String) :
    ResourceRelationshipRow :=
  ⟨relationship.tenantID, relationship.entityID, relationship.subjectType, relationship.subjectID,
    relationship.subjectRelation, relationship.relation, relationship.resourceType,
    relationship.resourceID, relationship.startsAt.getD 0, relationship.endsAt.getD 0, conditionJSON⟩

/-- The row is inserted, or its window and condition are rewritten where they differ. -/
def putRelationshipRow (db : Db) (relationship : Relationship) (conditionJSON : String) : Db × Bool :=
  if relationship.entityID ≠ "" then
    let row := resourceRelationshipToRow relationship conditionJSON
    if db.resourceRelationships.rows.contains row then (db, false)
    else ({ db with resourceRelationships := db.resourceRelationships.put row }, true)
  else
    let row := relationshipToRow relationship conditionJSON
    if db.relationships.rows.contains row then (db, false)
    else ({ db with relationships := db.relationships.put row }, true)

/-- The stored relationships between a subject and an entity, whatever their window. -/
def tenantRelationships (db : Db) (tenantID : String) : List RelationshipRow :=
  db.relationships.rows.filter fun row => row.tenantID = tenantID

def relationshipEdges (rows : List RelationshipRow) (node : RelationshipNode) :
    List RelationshipNode :=
  (rows.filter fun row => relationshipSubject row = node).map targetNode

/-- The longest path from every source; the fuel exceeds any path the search can be on. -/
def validRelationshipGraph (rows : List RelationshipRow) (maxDepth : Nat) : Bool :=
  visitAll (relationshipEdges rows) maxDepth (rows.length + maxDepth + 1)
    (rows.map relationshipSubject).dedup {}

def validateDeclaration (actions : List Action) (relationship : Relationship) :
    Except RelationshipError Unit :=
  if relationship.entityID ≠ "" &&
      !resourceRelationDeclared actions relationship.resourceType relationship.relation then
    .error (.invalid "resource type does not declare this relation")
  else .ok ()

/-- The row is written first, and taken back when the graph it leaves is refused. -/
def writeRelationship (db : Db) (relationship : Relationship) (conditionJSON : String) :
    Except RelationshipError (Db × Bool) :=
  let (next, changed) := putRelationshipRow db relationship conditionJSON
  if !changed then .ok (db, false)
  else if relationship.entityID = "" &&
      !validRelationshipGraph (tenantRelationships next relationship.tenantID)
        maxRelationshipDepth then
    .error .hierarchy
  else .ok (next.advance relationship.tenantID, true)

section Writes

variable (actions : List Action) (zones : ZoneDatabase)

def putRelationship (db : Db) (now : Millis) (relationship : Relationship) :
    Except RelationshipError (Db × Bool) :=
  let relationship := normalizeRelationship relationship
  match canonicalCondition zones relationship.condition with
  | .error failure => .error (.invalidCondition failure)
  | .ok canonical => do
    validateRelationshipShape relationship
    validateRelationshipWindow relationship now
    validateDeclaration actions relationship
    validateRelationshipFacts db relationship
    writeRelationship db relationship (conditionText canonical)

/-- Successful writes one after another, each at its own time. -/
def putAll : Db → List (Millis × Relationship) → Except RelationshipError Db
  | db, [] => .ok db
  | db, (now, relationship) :: rest =>
    match putRelationship actions zones db now relationship with
    | .error failure => .error failure
    | .ok (next, _) => putAll next rest

end Writes

theorem mem_relationshipEdges {rows : List RelationshipRow} {node target : RelationshipNode} :
    target ∈ relationshipEdges rows node ↔
      ∃ row ∈ rows, relationshipSubject row = node ∧ targetNode row = target := by
  simp [relationshipEdges, and_assoc]

/-- The check with the sources walked in some order, as a map yields them. -/
def validRelationshipGraphIn (order : List RelationshipNode) (rows : List RelationshipRow)
    (maxDepth : Nat) : Bool :=
  visitAll (relationshipEdges rows) maxDepth (rows.length + maxDepth + 1) order {}

theorem validRelationshipGraphIn_iff {rows : List RelationshipRow} {maxDepth : Nat}
    {order : List RelationshipNode} (horder : order.Perm (rows.map relationshipSubject).dedup) :
    validRelationshipGraphIn order rows maxDepth = true ↔ Bounded (relationshipEdges rows) maxDepth := by
  apply visitAll_iff (by omega)
  intro node hedges
  obtain ⟨target, htarget⟩ := List.exists_mem_of_ne_nil _ hedges
  obtain ⟨row, hrow, rfl, _⟩ := mem_relationshipEdges.mp htarget
  exact horder.mem_iff.mpr (List.mem_dedup.mpr (List.mem_map_of_mem hrow))

/-- The writer's check accepts exactly the graphs within its bound. -/
theorem validRelationshipGraph_iff {rows : List RelationshipRow} {maxDepth : Nat} :
    validRelationshipGraph rows maxDepth = true ↔ Bounded (relationshipEdges rows) maxDepth :=
  validRelationshipGraphIn_iff (.refl _)

/-- In whatever order the sources are walked, the check accepts exactly the graphs without a
cycle whose paths have at most `maxDepth` edges. -/
theorem relationship_graph_iff (rows : List RelationshipRow) (maxDepth : Nat) :
    (∀ order : List RelationshipNode, order.Perm (rows.map relationshipSubject).dedup →
      validRelationshipGraphIn order rows maxDepth = validRelationshipGraph rows maxDepth) ∧
    (validRelationshipGraph rows maxDepth = true ↔
      (∀ n x, Reaches (relationshipEdges rows) n x x → n = 0) ∧
      ∀ n x y, Reaches (relationshipEdges rows) n x y → n ≤ maxDepth) := by
  constructor
  · intro order horder
    rw [Bool.eq_iff_iff, validRelationshipGraphIn_iff horder, validRelationshipGraph_iff]
  · rw [validRelationshipGraph_iff]
    constructor
    · intro hbounded
      exact ⟨fun _ _ hloop => hbounded.acyclic hloop, hbounded⟩
    · exact And.right

theorem bounded_of_subset {rows rows' : List RelationshipRow} {maxDepth : Nat}
    (h : Bounded (relationshipEdges rows) maxDepth) (hsubset : ∀ row ∈ rows', row ∈ rows) :
    Bounded (relationshipEdges rows') maxDepth := by
  intro n x y hreach
  refine h n x y (hreach.mono fun node target htarget => ?_)
  obtain ⟨row, hrow, hedge⟩ := mem_relationshipEdges.mp htarget
  exact mem_relationshipEdges.mpr ⟨row, hsubset row hrow, hedge⟩

/-- Every tenant's graph is within the bound of the writer. -/
def GraphsBounded (db : Db) : Prop :=
  ∀ tenantID, Bounded (relationshipEdges (tenantRelationships db tenantID)) maxRelationshipDepth

/-- A write leaves a tenant's graph alone, or the graph it leaves was checked. -/
theorem writeRelationship_cases {db next : Db} {relationship : Relationship}
    {conditionJSON : String} {changed : Bool}
    (h : writeRelationship db relationship conditionJSON = .ok (next, changed)) (tenantID : String) :
    (∀ row ∈ tenantRelationships next tenantID, row ∈ tenantRelationships db tenantID) ∨
      validRelationshipGraph (tenantRelationships next tenantID) maxRelationshipDepth = true := by
  simp only [writeRelationship] at h
  split_ifs at h with hchanged hrefused
  · cases h
    exact .inl fun row hrow => hrow
  · cases h
    by_cases hresource : relationship.entityID = ""
    · by_cases htenant : relationship.tenantID = tenantID
      · subst htenant
        refine .inr ?_
        change validRelationshipGraph (tenantRelationships (putRelationshipRow db relationship
          conditionJSON).1 relationship.tenantID) maxRelationshipDepth = true
        simpa [hresource] using hrefused
      · refine .inl fun row hrow => ?_
        simp only [putRelationshipRow, hresource, ne_eq, not_true_eq_false, if_false] at hrow
        split_ifs at hrow
        · exact hrow
        · obtain ⟨hmem, hrowTenant⟩ := List.mem_filter.mp hrow
          rcases Table.mem_put.mp hmem with rfl | ⟨hold, _⟩
          · exact absurd (of_decide_eq_true hrowTenant) htenant
          · exact List.mem_filter.mpr ⟨hold, hrowTenant⟩
    · refine .inl fun row hrow => ?_
      simp only [putRelationshipRow, hresource, ne_eq, not_false_eq_true, if_true] at hrow
      split_ifs at hrow <;> exact hrow

section Writes

variable {actions : List Action} {zones : ZoneDatabase}

theorem putRelationship_writes {db : Db} {now : Millis} {relationship : Relationship}
    {result : Db × Bool} (h : putRelationship actions zones db now relationship = .ok result) :
    ∃ conditionJSON, writeRelationship db (normalizeRelationship relationship) conditionJSON =
      .ok result := by
  simp only [putRelationship] at h
  cases hcanonical : canonicalCondition zones (normalizeRelationship relationship).condition with
  | error failure => simp [hcanonical] at h
  | ok canonical =>
    simp only [hcanonical] at h
    obtain ⟨_, _, h⟩ := PolicyConditionMeaning.bind_eq_ok h
    obtain ⟨_, _, h⟩ := PolicyConditionMeaning.bind_eq_ok h
    obtain ⟨_, _, h⟩ := PolicyConditionMeaning.bind_eq_ok h
    obtain ⟨_, _, h⟩ := PolicyConditionMeaning.bind_eq_ok h
    exact ⟨_, h⟩

/-- One successful write keeps every graph within the bound. -/
theorem GraphsBounded.put {db next : Db} {now : Millis} {relationship : Relationship}
    {changed : Bool} (hbounded : GraphsBounded db)
    (h : putRelationship actions zones db now relationship = .ok (next, changed)) :
    GraphsBounded next := by
  intro tenantID
  obtain ⟨_, hwrite⟩ := putRelationship_writes h
  rcases writeRelationship_cases hwrite tenantID with hsubset | hvalid
  · exact bounded_of_subset (hbounded tenantID) hsubset
  · exact validRelationshipGraph_iff.mp hvalid

/-- So does a run of them. -/
theorem GraphsBounded.putAll {db after : Db} {calls : List (Millis × Relationship)}
    (hbounded : GraphsBounded db)
    (h : RelationshipService.putAll actions zones db calls = .ok after) : GraphsBounded after := by
  induction calls generalizing db with
  | nil =>
    cases h
    exact hbounded
  | cons call rest ih =>
    obtain ⟨now, relationship⟩ := call
    rw [RelationshipService.putAll] at h
    cases hput : putRelationship actions zones db now relationship with
    | error failure => simp [hput] at h
    | ok result =>
      obtain ⟨next, changed⟩ := result
      simp only [hput] at h
      exact ih (hbounded.put hput) h

end Writes

/-! ## What the evaluator honours -/

section Evaluation

variable (db : Db) (tenantID : String) (env : Environment) (trusted : TrustedContext)

/-- A chain of `n` active relationships whose conditions hold leads from a root to a target,
the last of them being the one that names the target. -/
def ConnectedBy (roots : List RelationshipNode) (n : Nat) (key : GrantKey) : Prop :=
  ∃ root ∈ roots, ∃ k, n = k + 1 ∧
    ((∃ row ∈ openRelationships db tenantID env trusted,
      Reaches (relationshipTargets db tenantID env trusted) k root (relationshipSubject row) ∧
        key = relationshipKey row) ∨
    ∃ row ∈ openResourceRelationships db tenantID env trusted,
      Reaches (relationshipTargets db tenantID env trusted) k root
        (resourceRelationshipSubject row) ∧ key = resourceRelationshipKey row)

variable {db tenantID env trusted}

theorem supported_iff {roots : List RelationshipNode} {depth : Nat} {key : GrantKey} :
    Supported db tenantID env trusted roots depth key ↔
      ∃ n ≤ depth, ConnectedBy db tenantID env trusted roots n key := by
  constructor
  · rintro (⟨row, hrow, ⟨root, hroot, k, hk, hreach⟩, hkey⟩ |
      ⟨row, hrow, ⟨root, hroot, k, hk, hreach⟩, hkey⟩)
    · exact ⟨k + 1, hk, root, hroot, k, rfl, .inl ⟨row, hrow, hreach, hkey⟩⟩
    · exact ⟨k + 1, hk, root, hroot, k, rfl, .inr ⟨row, hrow, hreach, hkey⟩⟩
  · rintro ⟨n, hn, root, hroot, k, rfl, ⟨row, hrow, hreach, hkey⟩ | ⟨row, hrow, hreach, hkey⟩⟩
    · exact .inl ⟨row, hrow, ⟨root, hroot, k, hn, hreach⟩, hkey⟩
    · exact .inr ⟨row, hrow, ⟨root, hroot, k, hn, hreach⟩, hkey⟩

theorem loadRelationshipGrants_of_roots {subject : String} {roots : List RelationshipNode}
    (h : relationshipRoots db tenantID env subject trusted.time = .ok roots) :
    loadRelationshipGrants db tenantID env subject trusted =
      .ok (traverse db tenantID env trusted defaultRelationshipDepth
        ⟨roots, roots, fun _ => [], []⟩).grants := by
  simp only [loadRelationshipGrants, h, bind, Except.bind, pure, Except.pure]

/-- After any successful writes no stored path exceeds the writer's limit, and the evaluator
grants exactly the targets connected to the subject within its own. -/
theorem relationships_honoured_to_depth {actions : List Action} {zones : ZoneDatabase}
    {before after : Db} {calls : List (Millis × Relationship)} (hstart : GraphsBounded before)
    (hrun : putAll actions zones before calls = .ok after) (tenantID : String) (env : Environment)
    (subject : String) (trusted : TrustedContext) {roots : List RelationshipNode}
    (hroots : relationshipRoots after tenantID env subject trusted.time = .ok roots) :
    Bounded (relationshipEdges (tenantRelationships after tenantID)) maxRelationshipDepth ∧
      ∃ grants, loadRelationshipGrants after tenantID env subject trusted = .ok grants ∧
        ∀ key, (∃ g ∈ grants, grantKey g = key) ↔
          ∃ n ≤ defaultRelationshipDepth, ConnectedBy after tenantID env trusted roots n key := by
  have hload := loadRelationshipGrants_of_roots hroots
  refine ⟨hstart.putAll hrun tenantID, _, hload, fun key => ?_⟩
  rw [← supported_iff]
  exact mem_relationshipGrants hroots hload key

end Evaluation

/-! ## A chain of nine relationships -/

def chainIDs : List String := ["e1", "e2", "e3", "e4", "e5", "e6", "e7", "e8", "e9"]

/-- One member and nine active entities, without relationships. -/
def chainTenant : Db where
  tenantMembers := .single ⟨"acme", "ada", "ada@acme.test", .active⟩
  entities := ⟨chainIDs.map fun id => ⟨"acme", id, none, "team", id, .active, "\x7b\x7d"⟩,
    by decide⟩

/-- The member views the first entity, and whoever views an entity views the next one. -/
def chainCalls : List (Millis × Relationship) :=
  (0, ⟨"acme", "", "principal", "ada", "", "viewer", "team", "e1", none, none, []⟩) ::
    (chainIDs.zip chainIDs.tail).map fun (id, next) =>
      (0, ⟨"acme", "", "entity", id, "viewer", "viewer", "team", next, none, none, []⟩)

def asciiEnvironment : Environment := ⟨utcOnly, Char.toLower⟩

def lastGrant : GrantKey := ⟨"", "team", "e9", "viewer"⟩

/-- Whether the member's traversal to a depth grants the last entity. -/
def grantsLast (db : Db) (depth : Nat) : Bool :=
  match relationshipRoots db "acme" asciiEnvironment "ada" 0 with
  | .ok roots => (traverse db "acme" asciiEnvironment {} depth
      ⟨roots, roots, fun _ => [], []⟩).grants.any fun g => grantKey g = lastGrant
  | .error _ => false

theorem graphsBounded_of_empty {db : Db} (h : db.relationships.rows = []) : GraphsBounded db := by
  intro tenantID n x y hreach
  cases hreach with
  | refl => exact Nat.zero_le _
  | next hstep _ => simp [relationshipEdges, tenantRelationships, h] at hstep

/-- The ninth entity is granted to a deeper traversal than the evaluator's. -/
theorem chain_cases : ∃ after roots,
    putAll defaultActions utcOnly chainTenant chainCalls = .ok after ∧
      relationshipRoots after "acme" asciiEnvironment "ada" 0 = .ok roots ∧
        grantsLast after 9 = true ∧ grantsLast after defaultRelationshipDepth = false := by
  have hrun : (putAll defaultActions utcOnly chainTenant chainCalls).toOption.map
      (fun after => (grantsLast after 9, grantsLast after defaultRelationshipDepth)) =
        some (true, false) := by decide
  cases hafter : putAll defaultActions utcOnly chainTenant chainCalls with
  | error failure => simp [hafter, Except.toOption] at hrun
  | ok after =>
    simp only [hafter, Except.toOption, Option.map_some, Option.some.injEq, Prod.mk.injEq] at hrun
    cases hroots : relationshipRoots after "acme" asciiEnvironment "ada" 0 with
    | error failure => simp [grantsLast, hroots] at hrun
    | ok roots => exact ⟨after, roots, rfl, hroots, hrun⟩

/-- The member of the chain is granted what is within eight relationships. -/
theorem chain_honoured_to_depth : ∃ after roots grants,
    relationshipRoots after "acme" asciiEnvironment "ada" 0 = .ok roots ∧
      loadRelationshipGrants after "acme" asciiEnvironment "ada" {} = .ok grants ∧
        ∀ key, (∃ g ∈ grants, grantKey g = key) ↔ ∃ n ≤ defaultRelationshipDepth,
          ConnectedBy after "acme" asciiEnvironment {} roots n key := by
  obtain ⟨after, roots, hrun, hroots, -⟩ := chain_cases
  obtain ⟨-, grants, hgrants, hkeys⟩ := relationships_honoured_to_depth
    (graphsBounded_of_empty rfl) hrun "acme" asciiEnvironment "ada" {} hroots
  exact ⟨after, roots, grants, hroots, hgrants, hkeys⟩

/-- Nine relationships are accepted one by one, and the target of the last is not granted. -/
theorem ninth_relationship_not_honoured : ∃ after roots grants,
    putAll defaultActions utcOnly chainTenant chainCalls = .ok after ∧
      relationshipRoots after "acme" asciiEnvironment "ada" 0 = .ok roots ∧
      loadRelationshipGrants after "acme" asciiEnvironment "ada" {} = .ok grants ∧
      (∃ n, ConnectedBy after "acme" asciiEnvironment {} roots n lastGrant) ∧
      ¬∃ g ∈ grants, grantKey g = lastGrant := by
  obtain ⟨after, roots, hrun, hroots, hdeep, hshallow⟩ := chain_cases
  simp only [grantsLast, hroots, List.any_eq_true, decide_eq_true_eq] at hdeep
  simp only [grantsLast, hroots, List.any_eq_false, decide_eq_true_eq] at hshallow
  refine ⟨after, roots, _, hrun, hroots, loadRelationshipGrants_of_roots hroots, ?_, ?_⟩
  · obtain ⟨g, hg, hkey⟩ := hdeep
    have hexplored := (@Explored.start after "acme" asciiEnvironment {} roots).traverse 9
    have hsupported := hexplored.sound g hg
    rw [hkey] at hsupported
    obtain ⟨n, _, hconnected⟩ := supported_iff.mp hsupported
    exact ⟨n, hconnected⟩
  · rintro ⟨g, hg, hkey⟩
    exact hshallow g hg hkey

end RelationshipService
