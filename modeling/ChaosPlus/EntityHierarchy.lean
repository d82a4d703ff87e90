import ChaosPlus.DenyInheritance
import ChaosPlus.EntityStore
import ChaosPlus.ParentForest
import ChaosPlus.StepRuns

/-!
# The entity tree under concurrent moves

Creating and moving an entity read the ancestors of the new parent one by one, each from
the state committed at that moment, and write the row when they commit. The tree stays
acyclic and within sixteen levels exactly when every committed parent still lies outside
the written entity's subtree and the levels above and below fit.
-/
namespace EntityHierarchy

open AuthorizationGrants DenyInheritance EntityStore JsonDocument KeyedTable ParentForest
open PolicyStore RecursiveQuery StepRuns

/-- A write of one entity that still has to see the ancestors from `cursor` on. -/
structure Transaction where
  created : Bool
  entity : Entity
  cursor : Option String
  ancestors : Nat

structure State where
  db : Db
  pending : List Transaction := []

inductive Event where
  | create (entity : Entity) (entityID inviteCode : String)
  | update (tenantID entityID : String) (patch : EntityPatch)
  | readAncestor (index : Nat)
  | commit (index : Nat)
  | delete (tenantID entityID : String)

def inviteCodeKey : String := "invite_code"

/-- An entity to be created gets an invite code unless it brings one. -/
def withInviteCode (entity : Entity) (inviteCode : String) : Entity :=
  match lookup entity.metadata inviteCodeKey with
  | some _ => entity
  | none => { entity with metadata := assign inviteCodeKey (.string inviteCode) entity.metadata }

def begun (created : Bool) (entity : Entity) : Transaction :=
  ⟨created, entity, nullableString entity.parentID, 1⟩

section Steps

variable (marshal : List (String × Json) → String)

def beginCreate (entity : Entity) (entityID inviteCode : String) :
    Except EntityError Transaction := do
  let entity ← normalizeEntity marshal entity
  return begun true { withInviteCode entity inviteCode with id := entityID }

/-- The type of an entity with relationships is fixed. -/
def typeChangeAllowed (db : Db) (current : Entity) (patch : EntityPatch) : Bool :=
  match patch.type with
  | some type =>
    GoText.trimmed type = current.type || entityRelationshipCount db current.tenantID current.id = 0
  | none => true

def patchEmpty (patch : EntityPatch) : Bool :=
  patch.parentID.isNone && patch.type.isNone && patch.name.isNone && patch.status.isNone &&
    patch.metadata.isNone

def beginUpdate (db : Db) (tenantID entityID : String) (patch : EntityPatch) :
    Except EntityError Transaction := do
  validateEntityRef tenantID entityID
  if patchEmpty patch then throw (.invalidArgument "no entity fields supplied")
  let current ← getEntity db tenantID entityID
  if !typeChangeAllowed db current patch then throw .hasRelationships
  let entity ← normalizeEntity marshal (applyEntityPatch current patch)
  return begun false entity

/-- A created entity has no id yet while its parent is checked. -/
def Transaction.checkedID (transaction : Transaction) : String :=
  if transaction.created then "" else transaction.entity.id

def Transaction.readAncestor (db : Db) (transaction : Transaction) : Option Transaction :=
  match transaction.cursor with
  | none => some transaction
  | some current =>
    match ancestorStep db transaction.entity.tenantID transaction.checkedID current
        transaction.ancestors with
    | .error _ => none
    | .ok next => some { transaction with cursor := next, ancestors := transaction.ancestors + 1 }

def Transaction.write (db : Db) (transaction : Transaction) : Except EntityError Db :=
  if transaction.created then createEntityRow marshal db transaction.entity
  else updateEntityRow marshal db transaction.entity

def enqueue (s : State) : Except EntityError Transaction → Option State
  | .ok transaction => some { s with pending := s.pending ++ [transaction] }
  | .error _ => none

/-- A failed read or write rolls its transaction back. -/
def step (s : State) : Event → Option State
  | .create entity entityID inviteCode => enqueue s (beginCreate marshal entity entityID inviteCode)
  | .update tenantID entityID patch => enqueue s (beginUpdate marshal s.db tenantID entityID patch)
  | .readAncestor index =>
    s.pending[index]?.map fun transaction =>
      match transaction.readAncestor s.db with
      | some next => { s with pending := s.pending.set index next }
      | none => { s with pending := s.pending.eraseIdx index }
  | .commit index =>
    match s.pending[index]? with
    | none => none
    | some transaction =>
      if transaction.cursor.isSome then none
      else match transaction.write marshal s.db with
        | .ok db => some ⟨db, s.pending.eraseIdx index⟩
        | .error _ => some { s with pending := s.pending.eraseIdx index }
  | .delete tenantID entityID =>
    match deleteEntityRow s.db tenantID entityID with
    | .ok db => some { s with db }
    | .error _ => none

end Steps

def parentOf (db : Db) (tenantID entityID : String) : Option String :=
  (db.entity? tenantID entityID).bind EntityRow.parentID

/-- No entity is its own ancestor, no chain has more than sixteen levels, and the scope
recursion is deep enough for every descendant. -/
structure Hierarchy (db : Db) : Prop where
  acyclic : ∀ tenantID levels entityID,
    climb (parentOf db tenantID) (levels + 1) entityID ≠ some entityID
  levels : ∀ tenantID entityID, climb (parentOf db tenantID) maxEntityDepth entityID = none
  visited : ∀ tenantID scopeID entityID n,
    Reaches (activeChildren db tenantID) n scopeID entityID → n ≤ maxInheritedDepth

section Hierarchy

variable {db : Db} {tenantID : String}

theorem parentOf_of_activeChild {parent child : String}
    (h : child ∈ activeChildren db tenantID parent) : parentOf db tenantID child = some parent := by
  simp only [activeChildren, List.mem_map, List.mem_filter, Bool.and_eq_true,
    decide_eq_true_eq] at h
  obtain ⟨e, ⟨he, ⟨htenant, hparent⟩, _⟩, rfl⟩ := h
  have hfind : db.entity? tenantID e.id = some e :=
    Table.find?_eq_some.mpr ⟨he, by rw [htenant]⟩
  simp [parentOf, hfind, hparent]

/-- A chain of children down is a climb up. -/
theorem climb_of_reaches {n : Nat} {scopeID entityID : String}
    (h : Reaches (activeChildren db tenantID) n scopeID entityID) :
    climb (parentOf db tenantID) n entityID = some scopeID := by
  induction h with
  | refl x => rfl
  | next hstep _ ih =>
    rw [climb_add, ih]
    simp [climb, parentOf_of_activeChild hstep]

theorem hierarchy_iff :
    Hierarchy db ↔ ∀ tenantID, Shallow (parentOf db tenantID) maxEntityDepth := by
  constructor
  · intro h tenantID entityID
    exact h.levels tenantID entityID
  · intro h
    refine ⟨fun tenantID levels entityID => (h tenantID).acyclic levels entityID,
      fun tenantID entityID => h tenantID entityID, ?_⟩
    intro tenantID scopeID entityID n hreach
    have hbound := (h tenantID).lt_of_climb (climb_of_reaches hreach)
    simp only [maxEntityDepth, maxInheritedDepth] at hbound ⊢
    omega

theorem parentOf_eq_some {entityID parentID : String} :
    parentOf db tenantID entityID = some parentID ↔
      ∃ e ∈ db.entities, e.tenantID = tenantID ∧ e.id = entityID ∧ e.parentID = some parentID := by
  simp only [parentOf, Db.entity?, Option.bind_eq_some_iff, Table.find?_eq_some, Prod.mk.injEq]
  constructor
  · rintro ⟨e, ⟨he, htenant, hid⟩, hparent⟩
    exact ⟨e, he, htenant, hid, hparent⟩
  · rintro ⟨e, he, htenant, hid, hparent⟩
    exact ⟨e, ⟨he, htenant, hid⟩, hparent⟩

end Hierarchy

section Writes

variable {marshal : List (String × Json) → String} {db db' : Db} {entity : Entity}

theorem updateEntityRow_eq_ok (h : updateEntityRow marshal db entity = .ok db') :
    db.entities.hasKey (entity.tenantID, entity.id) = true ∧
      db'.entities = db.entities.updateWhere
        (fun e => e.tenantID = entity.tenantID && e.id = entity.id)
        (fun e => { entityRow marshal entity with tenantID := e.tenantID, id := e.id })
        (fun _ => rfl) := by
  unfold updateEntityRow at h
  split_ifs at h with hkey hsibling hparent
  obtain rfl := Except.ok.inj h
  exact ⟨by simpa using hkey, rfl⟩

theorem createEntityRow_eq_ok (h : createEntityRow marshal db entity = .ok db') :
    db.entities.hasKey (entity.tenantID, entity.id) = false ∧
      db'.entities = db.entities.insertIgnore (entityRow marshal entity) := by
  unfold createEntityRow at h
  split_ifs at h with htaken hparent
  obtain rfl := Except.ok.inj h
  simp only [Bool.or_eq_true, not_or, Bool.not_eq_true] at htaken
  exact ⟨htaken.1, rfl⟩

theorem deleteEntityRow_eq_ok {tenantID entityID : String}
    (h : deleteEntityRow db tenantID entityID = .ok db') :
    db'.entities = db.entities.deleteWhere fun e => e.tenantID = tenantID && e.id = entityID := by
  unfold deleteEntityRow at h
  split_ifs at h
  obtain rfl := Except.ok.inj h
  rfl

theorem parentOf_updated (h : updateEntityRow marshal db entity = .ok db') :
    parentOf db' entity.tenantID = Function.update (parentOf db entity.tenantID) entity.id
      (nullableString entity.parentID) := by
  obtain ⟨hkey, hentities⟩ := updateEntityRow_eq_ok h
  obtain ⟨row, hrow, hrowKey⟩ := Table.hasKey_iff.mp hkey
  obtain ⟨hrowTenant, hrowID⟩ := Prod.mk.inj hrowKey
  funext entityID
  refine Option.ext fun parentID => ?_
  rw [parentOf_eq_some, hentities]
  simp only [Table.mem_updateWhere, Bool.and_eq_true, decide_eq_true_eq, Bool.and_eq_false_iff,
    decide_eq_false_iff_not]
  by_cases hself : entityID = entity.id
  · subst hself
    rw [Function.update_self]
    constructor
    · rintro ⟨e, ⟨_, hother⟩ | ⟨old, _, _, rfl⟩, htenant, hid, hparent⟩
      · rcases hother with hother | hother
        · exact absurd htenant hother
        · exact absurd hid hother
      · exact hparent
    · intro hparent
      exact ⟨_, .inr ⟨row, hrow, ⟨hrowTenant, hrowID⟩, rfl⟩, hrowTenant, hrowID, hparent⟩
  · rw [Function.update_of_ne hself, parentOf_eq_some]
    constructor
    · rintro ⟨e, ⟨he, _⟩ | ⟨old, _, ⟨_, hold⟩, rfl⟩, htenant, hid, hparent⟩
      · exact ⟨e, he, htenant, hid, hparent⟩
      · exact absurd (hid.symm.trans hold) hself
    · rintro ⟨e, he, htenant, rfl, hparent⟩
      exact ⟨e, .inl ⟨he, .inr hself⟩, htenant, rfl, hparent⟩

theorem parentOf_updated_other (h : updateEntityRow marshal db entity = .ok db') {tenantID : String}
    (hother : tenantID ≠ entity.tenantID) : parentOf db' tenantID = parentOf db tenantID := by
  obtain ⟨_, hentities⟩ := updateEntityRow_eq_ok h
  funext entityID
  refine Option.ext fun parentID => ?_
  rw [parentOf_eq_some, parentOf_eq_some, hentities]
  simp only [Table.mem_updateWhere, Bool.and_eq_true, decide_eq_true_eq, Bool.and_eq_false_iff,
    decide_eq_false_iff_not]
  constructor
  · rintro ⟨e, ⟨he, _⟩ | ⟨old, _, ⟨hold, _⟩, rfl⟩, htenant, hid, hparent⟩
    · exact ⟨e, he, htenant, hid, hparent⟩
    · exact absurd (htenant.symm.trans hold) hother
  · rintro ⟨e, he, rfl, hid, hparent⟩
    exact ⟨e, .inl ⟨he, .inl hother⟩, rfl, hid, hparent⟩

theorem parentOf_created (h : createEntityRow marshal db entity = .ok db') :
    parentOf db' entity.tenantID = Function.update (parentOf db entity.tenantID) entity.id
      (nullableString entity.parentID) := by
  obtain ⟨hkey, hentities⟩ := createEntityRow_eq_ok h
  funext entityID
  refine Option.ext fun parentID => ?_
  rw [parentOf_eq_some, hentities]
  simp only [Table.mem_insertIgnore]
  by_cases hself : entityID = entity.id
  · subst hself
    rw [Function.update_self]
    constructor
    · rintro ⟨e, he | ⟨_, rfl⟩, htenant, hid, hparent⟩
      · have htaken := Table.hasKey_iff.mpr ⟨e, he, by rw [htenant, hid]⟩
        exact absurd (htaken.symm.trans hkey) (by decide)
      · exact hparent
    · intro hparent
      exact ⟨_, .inr ⟨hkey, rfl⟩, rfl, rfl, hparent⟩
  · rw [Function.update_of_ne hself, parentOf_eq_some]
    constructor
    · rintro ⟨e, he | ⟨_, rfl⟩, htenant, hid, hparent⟩
      · exact ⟨e, he, htenant, hid, hparent⟩
      · exact absurd hid.symm hself
    · rintro ⟨e, he, htenant, hid, hparent⟩
      exact ⟨e, .inl he, htenant, hid, hparent⟩

theorem parentOf_created_other (h : createEntityRow marshal db entity = .ok db') {tenantID : String}
    (hother : tenantID ≠ entity.tenantID) : parentOf db' tenantID = parentOf db tenantID := by
  obtain ⟨_, hentities⟩ := createEntityRow_eq_ok h
  funext entityID
  refine Option.ext fun parentID => ?_
  rw [parentOf_eq_some, parentOf_eq_some, hentities]
  simp only [Table.mem_insertIgnore]
  constructor
  · rintro ⟨e, he | ⟨_, rfl⟩, htenant, hid, hparent⟩
    · exact ⟨e, he, htenant, hid, hparent⟩
    · exact absurd htenant.symm hother
  · rintro ⟨e, he, htenant, hid, hparent⟩
    exact ⟨e, .inl he, htenant, hid, hparent⟩

theorem parentOf_deleted {tenantID entityID : String}
    (h : deleteEntityRow db tenantID entityID = .ok db') (other : String) :
    parentOf db' other = if other = tenantID then
      Function.update (parentOf db other) entityID none else parentOf db other := by
  have hentities := deleteEntityRow_eq_ok h
  funext child
  refine Option.ext fun parentID => ?_
  rw [parentOf_eq_some, hentities]
  simp only [Table.mem_deleteWhere, Bool.and_eq_false_iff, decide_eq_false_iff_not]
  split_ifs with htenant
  · subst htenant
    by_cases hself : child = entityID
    · subst hself
      rw [Function.update_self]
      constructor
      · rintro ⟨e, ⟨_, hkept⟩, htenant, hid, _⟩
        rcases hkept with hkept | hkept
        · exact absurd htenant hkept
        · exact absurd hid hkept
      · simp
    · rw [Function.update_of_ne hself, parentOf_eq_some]
      constructor
      · rintro ⟨e, ⟨he, _⟩, htenant, hid, hparent⟩
        exact ⟨e, he, htenant, hid, hparent⟩
      · rintro ⟨e, he, htenant, rfl, hparent⟩
        exact ⟨e, ⟨he, .inr hself⟩, htenant, rfl, hparent⟩
  · rw [parentOf_eq_some]
    constructor
    · rintro ⟨e, ⟨he, _⟩, htenant, hid, hparent⟩
      exact ⟨e, he, htenant, hid, hparent⟩
    · rintro ⟨e, he, rfl, hid, hparent⟩
      exact ⟨e, ⟨he, .inl htenant⟩, rfl, hid, hparent⟩

/-- The commit of a write relinks its own entity and nothing else. -/
theorem parentOf_written {transaction : Transaction}
    (h : transaction.write marshal db = .ok db') (tenantID : String) :
    parentOf db' tenantID = if tenantID = transaction.entity.tenantID then
      Function.update (parentOf db tenantID) transaction.entity.id
        (nullableString transaction.entity.parentID)
      else parentOf db tenantID := by
  unfold Transaction.write at h
  split_ifs at h with hcreated <;> split_ifs with htenant
  · rw [htenant]
    exact parentOf_created h
  · exact parentOf_created_other h htenant
  · rw [htenant]
    exact parentOf_updated h
  · exact parentOf_updated_other h htenant

end Writes

section Validation

variable {db : Db} {tenantID entityID : String}

end Validation

/-- What a commit must find in the state it writes to. -/
def StepSafe (marshal : List (String × Json) → String) (s : State) : Event → Prop
  | .commit index => ∀ transaction db', s.pending[index]? = some transaction →
      transaction.write marshal s.db = .ok db' → transaction.entity.parentID ≠ "" →
        MoveFits (parentOf s.db transaction.entity.tenantID) maxEntityDepth transaction.entity.id
          transaction.entity.parentID
  | _ => True

section Runs

variable {marshal : List (String × Json) → String}

theorem write_keeps_iff {db db' : Db} {transaction : Transaction} (h : Hierarchy db)
    (hwrite : transaction.write marshal db = .ok db') :
    Hierarchy db' ↔ (transaction.entity.parentID ≠ "" →
      MoveFits (parentOf db transaction.entity.tenantID) maxEntityDepth transaction.entity.id
        transaction.entity.parentID) := by
  have hshallow := hierarchy_iff.mp h
  have hothers : Hierarchy db' ↔
      Shallow (parentOf db' transaction.entity.tenantID) maxEntityDepth := by
    rw [hierarchy_iff]
    refine ⟨fun hall => hall _, fun hown tenantID => ?_⟩
    by_cases htenant : tenantID = transaction.entity.tenantID
    · rw [htenant]
      exact hown
    · rw [parentOf_written hwrite, if_neg htenant]
      exact hshallow tenantID
  rw [hothers, parentOf_written hwrite, if_pos rfl]
  by_cases hroot : transaction.entity.parentID = ""
  · simp only [nullableString, hroot, if_true, ne_eq, not_true_eq_false, false_implies, iff_true]
    exact (hshallow _).cut _
  · simp only [nullableString, hroot, if_false, ne_eq, not_false_eq_true, true_implies]
    exact shallow_update_iff (hshallow _)

theorem enqueue_db {s next : State} {result : Except EntityError Transaction}
    (h : enqueue s result = some next) : next.db = s.db := by
  cases result with
  | error failure => simp [enqueue] at h
  | ok transaction =>
    obtain rfl := Option.some.inj h
    rfl

/-- One step keeps the tree in shape exactly if it is safe. -/
theorem step_keeps_iff {s next : State} {e : Event} (h : Hierarchy s.db)
    (hstep : step marshal s e = some next) : Hierarchy next.db ↔ StepSafe marshal s e := by
  cases e with
  | create entity entityID inviteCode =>
    rw [enqueue_db hstep]
    exact iff_of_true h trivial
  | update tenantID entityID patch =>
    rw [enqueue_db hstep]
    exact iff_of_true h trivial
  | readAncestor index =>
    obtain ⟨transaction, _, rfl⟩ := Option.map_eq_some_iff.mp hstep
    refine iff_of_true ?_ trivial
    cases transaction.readAncestor s.db <;> exact h
  | commit index =>
    simp only [step] at hstep
    cases htransaction : s.pending[index]? with
    | none => simp [htransaction] at hstep
    | some transaction =>
      simp only [htransaction] at hstep
      split_ifs at hstep with hcursor
      cases hwrite : transaction.write marshal s.db with
      | error failure =>
        simp only [hwrite] at hstep
        obtain rfl := Option.some.inj hstep
        refine iff_of_true h ?_
        intro other db' hother hok
        obtain rfl := Option.some.inj (htransaction.symm.trans hother)
        exact absurd (hwrite.symm.trans hok) (by simp)
      | ok db' =>
        simp only [hwrite] at hstep
        obtain rfl := Option.some.inj hstep
        rw [write_keeps_iff h hwrite]
        constructor
        · intro hfits other db'' hother _
          obtain rfl := Option.some.inj (htransaction.symm.trans hother)
          exact hfits
        · intro hsafe
          exact hsafe transaction db' htransaction hwrite
  | delete tenantID entityID =>
    simp only [step] at hstep
    cases hdelete : deleteEntityRow s.db tenantID entityID with
    | error failure => simp [hdelete] at hstep
    | ok db' =>
      simp only [hdelete] at hstep
      obtain rfl := Option.some.inj hstep
      refine iff_of_true (hierarchy_iff.mpr fun other => ?_) trivial
      rw [parentOf_deleted hdelete]
      split_ifs
      · exact (hierarchy_iff.mp h other).cut entityID
      · exact hierarchy_iff.mp h other

end Runs

theorem hierarchy_empty : Hierarchy {} := by
  refine hierarchy_iff.mpr fun tenantID entityID => ?_
  have hroot : parentOf {} tenantID entityID = none := rfl
  simp [maxEntityDepth, climb, hroot]

def emptyObject (_ : List (String × Json)) : String := "\x7b\x7d"

/-- One creation to its end, below a parent with so many levels. -/
def createUnder (name parent : String) (levels : Nat) : List Event :=
  .create ⟨"", "acme", parent, "team", name, "", []⟩ name "inv" ::
    List.replicate levels (.readAncestor 0) ++ [.commit 0]

/-- Each of two roots is moved below the other; both checks read the roots. -/
def crossedMoves : List Event :=
  createUnder "north" "" 0 ++ createUnder "south" "" 0 ++
    [.update "acme" "north" { parentID := some "south" },
      .update "acme" "south" { parentID := some "north" },
      .readAncestor 0, .readAncestor 1, .commit 0, .commit 0]

def level (n : Nat) : String := "l" ++ toString n

/-- A root with a child is moved below a chain of fifteen levels. -/
def subtreeMove : List Event :=
  createUnder (level 0) "" 0 ++
    (List.range 14).flatMap (fun n => createUnder (level (n + 1)) (level n) (n + 1)) ++
    createUnder "unit" "" 0 ++ createUnder "desk" "unit" 1 ++
    .update "acme" "unit" { parentID := some (level 14) } ::
      List.replicate 15 (.readAncestor 0) ++ [.commit 0]

def climbsAfter (events : List Event) (levels : Nat) (entityID : String) : Option String :=
  (run (step emptyObject) ⟨{}, []⟩ events).bind fun t => climb (parentOf t.db "acme") levels entityID

theorem broken_of_climbsAfter {events : List Event} {entityID ancestorID : String} {levels : Nat}
    (h : climbsAfter events levels entityID = some ancestorID)
    (hlong : ancestorID = entityID ∧ 0 < levels ∨ levels = maxEntityDepth) :
    ∃ t, Passes (step emptyObject) ⟨{}, []⟩ events t ∧ ¬ Hierarchy t.db := by
  obtain ⟨t, hrun, hclimb⟩ := Option.bind_eq_some_iff.mp h
  refine ⟨t, ⟨events, [], by simp, hrun⟩, fun hshape => ?_⟩
  rcases hlong with ⟨rfl, hpos⟩ | rfl
  · obtain ⟨k, rfl⟩ : ∃ k, levels = k + 1 := ⟨levels - 1, by omega⟩
    exact hshape.acyclic "acme" k ancestorID hclimb
  · have hnone := hshape.levels "acme" entityID
    rw [hclimb] at hnone
    exact absurd hnone (by simp)

end EntityHierarchy
