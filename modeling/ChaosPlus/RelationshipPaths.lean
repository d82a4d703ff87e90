import ChaosPlus.AuthorizationGrants

/-!
# What the relationship traversal finds

The traversal returns one grant for every entity node within its depth and one for every
business resource next to such a node, whichever of several paths it reports.
-/
namespace RelationshipPaths

open AuthorizationGrants KeyedTable PolicyCondition PolicyStore RecursiveQuery

/-- What a grant says apart from the path that led to it. -/
structure GrantKey where
  entityID : String
  resourceType : String
  resourceID : String
  relation : String
  deriving DecidableEq, Repr

def grantKey (grant : RelationshipGrant) : GrantKey :=
  ⟨grant.entityID, grant.resourceType, grant.resourceID, grant.relation⟩

def relationshipKey (row : RelationshipRow) : GrantKey :=
  ⟨"", row.resourceType, row.resourceID, row.relation⟩

def resourceRelationshipKey (row : ResourceRelationshipRow) : GrantKey :=
  ⟨row.entityID, row.resourceType, row.resourceID, row.relation⟩

def targetNode (row : RelationshipRow) : RelationshipNode := ⟨"entity", row.resourceID, row.relation⟩

section Traversal

variable (db : Db) (tenantID : String) (env : Environment) (trusted : TrustedContext)

/-- The relationship rows the traversal may follow from somewhere. -/
def openRelationships : List RelationshipRow :=
  db.relationships.rows.filter fun rel =>
    rel.tenantID = tenantID && windowOpen rel.startsAt rel.endsAt trusted.time &&
      entityOfTypeActive db tenantID rel.resourceID rel.resourceType &&
      relationshipConditionMatches env rel.conditionJSON trusted

def openResourceRelationships : List ResourceRelationshipRow :=
  db.resourceRelationships.rows.filter fun rel =>
    rel.tenantID = tenantID && windowOpen rel.startsAt rel.endsAt trusted.time &&
      db.entityActive tenantID rel.entityID &&
      relationshipConditionMatches env rel.conditionJSON trusted

/-- The nodes one relationship away. -/
def relationshipTargets (node : RelationshipNode) : List RelationshipNode :=
  ((openRelationships db tenantID env trusted).filter fun rel =>
    relationshipSubject rel = node).map targetNode

end Traversal

variable {db : Db} {tenantID : String} {env : Environment} {trusted : TrustedContext}

theorem mem_followed {frontier : List RelationshipNode} {row : RelationshipRow} :
    row ∈ (listActiveRelationshipsBySubjects db tenantID frontier trusted.time).filter
        (fun row => relationshipConditionMatches env row.conditionJSON trusted) ↔
      row ∈ openRelationships db tenantID env trusted ∧ relationshipSubject row ∈ frontier := by
  simp only [openRelationships, List.mem_filter, mem_listActiveRelationshipsBySubjects,
    Table.mem_def, Bool.and_eq_true, decide_eq_true_eq]
  constructor
  · rintro ⟨⟨hrow, htenant, hopen, hactive, hsubject⟩, hmatches⟩
    exact ⟨⟨hrow, ⟨⟨htenant, hopen⟩, hactive⟩, hmatches⟩, hsubject⟩
  · rintro ⟨⟨hrow, ⟨⟨htenant, hopen⟩, hactive⟩, hmatches⟩, hsubject⟩
    exact ⟨⟨hrow, htenant, hopen, hactive, hsubject⟩, hmatches⟩

theorem mem_followed_resources {frontier : List RelationshipNode} {row : ResourceRelationshipRow} :
    row ∈ (listActiveResourceRelationshipsBySubjects db tenantID frontier trusted.time).filter
        (fun row => relationshipConditionMatches env row.conditionJSON trusted) ↔
      row ∈ openResourceRelationships db tenantID env trusted ∧
        resourceRelationshipSubject row ∈ frontier := by
  simp only [openResourceRelationships, List.mem_filter,
    mem_listActiveResourceRelationshipsBySubjects, Table.mem_def, Bool.and_eq_true,
    decide_eq_true_eq]
  constructor
  · rintro ⟨⟨hrow, htenant, hopen, hactive, hsubject⟩, hmatches⟩
    exact ⟨⟨hrow, ⟨⟨htenant, hopen⟩, hactive⟩, hmatches⟩, hsubject⟩
  · rintro ⟨⟨hrow, ⟨⟨htenant, hopen⟩, hactive⟩, hmatches⟩, hsubject⟩
    exact ⟨⟨hrow, htenant, hopen, hactive, hsubject⟩, hmatches⟩

theorem mem_relationshipTargets {node target : RelationshipNode} :
    target ∈ relationshipTargets db tenantID env trusted node ↔
      ∃ row ∈ openRelationships db tenantID env trusted,
        relationshipSubject row = node ∧ targetNode row = target := by
  simp [relationshipTargets, and_assoc]

/-- The type of an active entity is the entity's own. -/
theorem entityOfTypeActive_unique {entityID type other : String}
    (h : entityOfTypeActive db tenantID entityID type = true)
    (k : entityOfTypeActive db tenantID entityID other = true) : type = other := by
  simp only [entityOfTypeActive, List.any_eq_true, Bool.and_eq_true, decide_eq_true_eq] at h k
  obtain ⟨e, he, ⟨⟨htenant, hid⟩, rfl⟩, _⟩ := h
  obtain ⟨e', he', ⟨⟨htenant', hid'⟩, rfl⟩, _⟩ := k
  have hsame : e = e' := Table.eq_of_key he he' (by simp [htenant, htenant', hid, hid'])
  rw [hsame]

/-- What visiting some rows adds to a traversal. -/
structure Visited (rows : List RelationshipRow) (before after : Traversal) : Prop where
  visited_iff : ∀ y, y ∈ after.visited ↔ y ∈ before.visited ∨ ∃ row ∈ rows, targetNode row = y
  waiting : ∀ y ∈ after.visited, y ∈ before.visited ∨ y ∈ after.frontier
  frontier_visited : (∀ y ∈ before.frontier, y ∈ before.visited) →
    ∀ y ∈ after.frontier, y ∈ after.visited
  frontier_kept : ∀ y ∈ before.frontier, y ∈ after.frontier
  grants_kept : ∀ g ∈ before.grants, g ∈ after.grants
  grants_sound : ∀ g ∈ after.grants, g ∈ before.grants ∨ ∃ row ∈ rows, grantKey g = relationshipKey row
  granted : ∀ y ∈ after.visited, y ∈ before.visited ∨
    ∃ g ∈ after.grants, ∃ row ∈ rows, targetNode row = y ∧ grantKey g = relationshipKey row

theorem visitRelationship_visited (traversal : Traversal) (row : RelationshipRow) :
    Visited [row] traversal (visitRelationship traversal row) := by
  by_cases hseen : traversal.visited.contains (targetNode row) = true
  · have heq : visitRelationship traversal row = traversal := by
      simp only [visitRelationship]
      exact if_pos hseen
    rw [heq]
    refine ⟨fun y => ⟨.inl, ?_⟩, fun y hy => .inl hy, fun h => h, fun y hy => hy,
      fun g hg => hg, fun g hg => .inl hg, fun y hy => .inl hy⟩
    rintro (hy | ⟨other, hother, rfl⟩)
    · exact hy
    · obtain rfl := List.mem_singleton.mp hother
      exact List.contains_iff_mem.mp hseen
  · have hnew : visitRelationship traversal row =
        { frontier := traversal.frontier ++ [targetNode row]
          visited := targetNode row :: traversal.visited
          paths := (visitRelationship traversal row).paths
          grants := traversal.grants ++ [⟨"", row.resourceType, row.resourceID, row.relation,
            traversal.paths (relationshipSubject row) ++ [⟨"", row.subjectType, row.subjectID,
              row.subjectRelation, row.relation, row.resourceType, row.resourceID,
              row.conditionJSON⟩]⟩] } := by
      have hcontains : ¬ traversal.visited.contains
          (⟨"entity", row.resourceID, row.relation⟩ : RelationshipNode) = true := hseen
      simp only [visitRelationship, if_neg hcontains, targetNode]
    rw [hnew]
    constructor
    · intro y
      simp only [List.mem_cons, List.not_mem_nil, or_false, exists_eq_left]
      rw [or_comm, eq_comm]
    · intro y hy
      rcases List.mem_cons.mp hy with rfl | hold
      · exact .inr (by simp)
      · exact .inl hold
    · intro hfrontier y hy
      rcases List.mem_append.mp hy with hold | hlast
      · exact List.mem_cons_of_mem _ (hfrontier y hold)
      · rw [List.mem_singleton.mp hlast]
        exact List.mem_cons_self
    · intro y hy
      exact List.mem_append_left _ hy
    · intro g hg
      exact List.mem_append_left _ hg
    · intro g hg
      rcases List.mem_append.mp hg with hold | hlast
      · exact .inl hold
      · rw [List.mem_singleton.mp hlast]
        exact .inr ⟨row, List.mem_singleton_self row, rfl⟩
    · intro y hy
      rcases List.mem_cons.mp hy with rfl | hold
      · exact .inr ⟨_, List.mem_append_right _ (List.mem_singleton_self _), row,
          List.mem_singleton_self row, rfl, rfl⟩
      · exact .inl hold

theorem Visited.trans {rows rows' : List RelationshipRow} {first second third : Traversal}
    (h : Visited rows first second) (k : Visited rows' second third) :
    Visited (rows ++ rows') first third := by
  constructor
  · intro y
    rw [k.visited_iff, h.visited_iff, or_assoc]
    simp only [List.mem_append, or_and_right, exists_or]
  · intro y hy
    rcases k.waiting y hy with hold | hnew
    · rcases h.waiting y hold with hfirst | hsecond
      · exact .inl hfirst
      · exact .inr (k.frontier_kept y hsecond)
    · exact .inr hnew
  · intro hfrontier
    exact k.frontier_visited (h.frontier_visited hfrontier)
  · intro y hy
    exact k.frontier_kept y (h.frontier_kept y hy)
  · intro g hg
    exact k.grants_kept g (h.grants_kept g hg)
  · intro g hg
    rcases k.grants_sound g hg with hold | ⟨row, hrow, hkey⟩
    · rcases h.grants_sound g hold with hfirst | ⟨row, hrow, hkey⟩
      · exact .inl hfirst
      · exact .inr ⟨row, List.mem_append_left _ hrow, hkey⟩
    · exact .inr ⟨row, List.mem_append_right _ hrow, hkey⟩
  · intro y hy
    rcases k.granted y hy with hold | ⟨g, hg, row, hrow, htarget, hkey⟩
    · rcases h.granted y hold with hfirst | ⟨g, hg, row, hrow, htarget, hkey⟩
      · exact .inl hfirst
      · exact .inr ⟨g, k.grants_kept g hg, row, List.mem_append_left _ hrow, htarget, hkey⟩
    · exact .inr ⟨g, hg, row, List.mem_append_right _ hrow, htarget, hkey⟩

/-- The loop over the rows of one round. -/
theorem foldl_visitRelationship (rows : List RelationshipRow) (traversal : Traversal) :
    Visited rows traversal (rows.foldl visitRelationship traversal) := by
  induction rows generalizing traversal with
  | nil =>
    refine ⟨fun y => by simp, fun y hy => .inl hy, fun h => h, fun y hy => hy, fun g hg => hg,
      fun g hg => .inl hg, fun y hy => .inl hy⟩
  | cons row rest ih =>
    have hfirst := visitRelationship_visited traversal row
    have hrest := ih (visitRelationship traversal row)
    exact hfirst.trans hrest

section Rounds

variable (db tenantID env trusted)

/-- The grants hold a key when the row behind it starts within the expanded levels. -/
def Supported (roots : List RelationshipNode) (n : Nat) (key : GrantKey) : Prop :=
  (∃ row ∈ openRelationships db tenantID env trusted,
    Below (relationshipTargets db tenantID env trusted) roots n (relationshipSubject row) ∧
      key = relationshipKey row) ∨
  ∃ row ∈ openResourceRelationships db tenantID env trusted,
    Below (relationshipTargets db tenantID env trusted) roots n (resourceRelationshipSubject row) ∧
      key = resourceRelationshipKey row

/-- The traversal after `n` rounds: the levels are searched, every visited node that is no
root has its grant, and so has every resource next to an expanded node. -/
structure Explored (roots : List RelationshipNode) (n : Nat) (traversal : Traversal) : Prop where
  searched : Searched (relationshipTargets db tenantID env trusted) roots n traversal.frontier
    traversal.visited
  granted : ∀ y ∈ traversal.visited, y ∈ roots ∨ ∃ g ∈ traversal.grants,
    ∃ row ∈ openRelationships db tenantID env trusted,
      targetNode row = y ∧ grantKey g = relationshipKey row
  resources : ∀ row ∈ openResourceRelationships db tenantID env trusted,
    Below (relationshipTargets db tenantID env trusted) roots n (resourceRelationshipSubject row) →
      ∃ g ∈ traversal.grants, grantKey g = resourceRelationshipKey row
  sound : ∀ g ∈ traversal.grants, Supported db tenantID env trusted roots n (grantKey g)

end Rounds

theorem Supported.succ {roots : List RelationshipNode} {n : Nat} {key : GrantKey}
    (h : Supported db tenantID env trusted roots n key) :
    Supported db tenantID env trusted roots (n + 1) key := by
  rcases h with ⟨row, hrow, hsubject, hkey⟩ | ⟨row, hrow, hsubject, hkey⟩
  · exact .inl ⟨row, hrow, hsubject.of_le (Nat.le_succ n), hkey⟩
  · exact .inr ⟨row, hrow, hsubject.of_le (Nat.le_succ n), hkey⟩

theorem Explored.start (roots : List RelationshipNode) :
    Explored db tenantID env trusted roots 0 ⟨roots, roots, fun _ => [], []⟩ where
  searched := .start
  granted _ hy := .inl hy
  resources row _ h := by
    obtain ⟨_, _, k, hk, _⟩ := h
    omega
  sound g hg := by simp at hg

/-- One round keeps the invariant for one more level. -/
theorem Explored.round {roots : List RelationshipNode} {n : Nat} {traversal : Traversal}
    (h : Explored db tenantID env trusted roots n traversal) :
    Explored db tenantID env trusted roots (n + 1)
      (traversalRound db tenantID env trusted traversal) := by
  have hrows := foldl_visitRelationship
    ((listActiveRelationshipsBySubjects db tenantID traversal.frontier trusted.time).filter
      fun row => relationshipConditionMatches env row.conditionJSON trusted)
    { traversal with
      frontier := []
      grants := traversal.grants ++ ((listActiveResourceRelationshipsBySubjects db tenantID
        traversal.frontier trusted.time).filter fun row =>
          relationshipConditionMatches env row.conditionJSON trusted).map
            (resourceGrant traversal.paths) }
  have hexpanded : ∀ y ∈ traversal.frontier,
      Below (relationshipTargets db tenantID env trusted) roots (n + 1) y := fun y hy =>
    (h.searched.visited_iff y).mp (h.searched.frontier_visited y hy)
  constructor
  · refine h.searched.round (fun y => ?_) hrows.waiting (hrows.frontier_visited (by simp))
    refine (hrows.visited_iff y).trans (or_congr_right ?_)
    constructor
    · rintro ⟨row, hrow, htarget⟩
      obtain ⟨hopen, hsubject⟩ := mem_followed.mp hrow
      exact ⟨_, hsubject, mem_relationshipTargets.mpr ⟨row, hopen, rfl, htarget⟩⟩
    · rintro ⟨x, hx, hy⟩
      obtain ⟨row, hopen, rfl, htarget⟩ := mem_relationshipTargets.mp hy
      exact ⟨row, mem_followed.mpr ⟨hopen, hx⟩, htarget⟩
  · intro y hy
    rcases hrows.granted y hy with hold | ⟨g, hg, row, hrow, htarget, hkey⟩
    · rcases h.granted y hold with hroot | ⟨g, hg, row, hrow, htarget, hkey⟩
      · exact .inl hroot
      · exact .inr ⟨g, hrows.grants_kept g (List.mem_append_left _ hg), row, hrow, htarget, hkey⟩
    · exact .inr ⟨g, hg, row, (mem_followed.mp hrow).1, htarget, hkey⟩
  · intro row hrow hsubject
    have hvisited := (h.searched.visited_iff _).mpr hsubject
    rcases h.searched.waiting _ hvisited with hbelow | hwaiting
    · obtain ⟨g, hg, hkey⟩ := h.resources row hrow hbelow
      exact ⟨g, hrows.grants_kept g (List.mem_append_left _ hg), hkey⟩
    · refine ⟨resourceGrant traversal.paths row, hrows.grants_kept _ (List.mem_append_right _ ?_), rfl⟩
      exact List.mem_map_of_mem (mem_followed_resources.mpr ⟨hrow, hwaiting⟩)
  · intro g hg
    rcases hrows.grants_sound g hg with hold | ⟨row, hrow, hkey⟩
    · rcases List.mem_append.mp hold with hbefore | hresource
      · exact (h.sound g hbefore).succ
      · obtain ⟨row, hrow, rfl⟩ := List.mem_map.mp hresource
        obtain ⟨hopen, hsubject⟩ := mem_followed_resources.mp hrow
        exact .inr ⟨row, hopen, hexpanded _ hsubject, rfl⟩
    · obtain ⟨hopen, hsubject⟩ := mem_followed.mp hrow
      exact .inl ⟨row, hopen, hexpanded _ hsubject, hkey⟩

/-- An empty frontier stays searched at every further level. -/
theorem Explored.idle {roots : List RelationshipNode} {n : Nat} {traversal : Traversal}
    (h : Explored db tenantID env trusted roots n traversal) (hempty : traversal.frontier = []) :
    Explored db tenantID env trusted roots (n + 1) traversal where
  searched := by
    have hsearched := h.searched
    rw [hempty] at hsearched ⊢
    exact hsearched.idle
  granted := h.granted
  resources row hrow hsubject := by
    have hvisited := (h.searched.visited_iff _).mpr hsubject
    rcases h.searched.waiting _ hvisited with hbelow | hwaiting
    · exact h.resources row hrow hbelow
    · simp [hempty] at hwaiting
  sound g hg := (h.sound g hg).succ

/-- The whole run. -/
theorem Explored.traverse {roots : List RelationshipNode} (depth : Nat) {n : Nat}
    {traversal : Traversal} (h : Explored db tenantID env trusted roots n traversal) :
    Explored db tenantID env trusted roots (n + depth)
      (AuthorizationGrants.traverse db tenantID env trusted depth traversal) := by
  induction depth generalizing n traversal with
  | zero => exact h
  | succ depth ih =>
    have hcount : n + (depth + 1) = n + 1 + depth := by omega
    rw [hcount, AuthorizationGrants.traverse]
    split
    · rename_i hempty
      have hidle : ∀ k, Explored db tenantID env trusted roots (n + k) traversal := by
        intro k
        induction k with
        | zero => exact h
        | succ k ihk => exact ihk.idle hempty
      rw [Nat.add_assoc]
      exact hidle (1 + depth)
    · exact ih h.round

/-- The traversal starts at the subject, its groups and its positions, never at an entity. -/
theorem relationshipRoots_type {subject : String} {now : Millis} {roots : List RelationshipNode}
    (h : relationshipRoots db tenantID env subject now = .ok roots) :
    ∀ root ∈ roots, root.type ≠ "entity" := by
  simp only [relationshipRoots, bind, Except.bind, pure, Except.pure] at h
  split at h
  · simp at h
  · obtain rfl := Except.ok.inj h
    intro root hroot
    simp only [rootNodes, List.mem_append, List.mem_cons, List.not_mem_nil, or_false,
      List.mem_map] at hroot
    rcases hroot with (rfl | ⟨_, _, rfl⟩) | ⟨_, _, rfl⟩ <;> simp

/-- Rows that lead to one node say the same. -/
theorem relationshipKey_eq {row other : RelationshipRow}
    (h : row ∈ openRelationships db tenantID env trusted)
    (k : other ∈ openRelationships db tenantID env trusted)
    (htarget : targetNode row = targetNode other) : relationshipKey row = relationshipKey other := by
  simp only [targetNode, RelationshipNode.mk.injEq, true_and] at htarget
  simp only [openRelationships, List.mem_filter, Bool.and_eq_true] at h k
  have htype := h.2.1.2
  rw [htarget.1] at htype
  have heq := entityOfTypeActive_unique htype k.2.1.2
  simp [relationshipKey, htarget.1, htarget.2, heq]

/-- The traversal's grants are, up to their paths, the rows that start within the depth. -/
theorem mem_relationshipGrants {subject : String} {grants : List RelationshipGrant}
    {roots : List RelationshipNode}
    (hroots : relationshipRoots db tenantID env subject trusted.time = .ok roots)
    (h : loadRelationshipGrants db tenantID env subject trusted = .ok grants) (key : GrantKey) :
    (∃ g ∈ grants, grantKey g = key) ↔
      Supported db tenantID env trusted roots defaultRelationshipDepth key := by
  simp only [loadRelationshipGrants, hroots, bind, Except.bind, pure, Except.pure] at h
  obtain rfl := Except.ok.inj h
  have hexplored :=
    (@Explored.start db tenantID env trusted roots).traverse defaultRelationshipDepth
  rw [Nat.zero_add] at hexplored
  constructor
  · rintro ⟨g, hg, rfl⟩
    exact hexplored.sound g hg
  · rintro (⟨row, hrow, hsubject, rfl⟩ | ⟨row, hrow, hsubject, rfl⟩)
    · have hvisited := (hexplored.searched.visited_iff (targetNode row)).mpr
        (below_succ.mpr (.inr ⟨_, hsubject, mem_relationshipTargets.mpr ⟨row, hrow, rfl, rfl⟩⟩))
      rcases hexplored.granted _ hvisited with hroot | ⟨g, hg, other, hother, htarget, hkey⟩
      · exact absurd rfl (relationshipRoots_type hroots _ hroot)
      · refine ⟨g, hg, hkey.trans (relationshipKey_eq hother hrow htarget)⟩
    · exact hexplored.resources row hrow hsubject

/-! ## The reported paths -/

/-- The step that a grant reports for an edge. -/
def relationshipStep (row : RelationshipRow) : RelationshipStep :=
  ⟨"", row.subjectType, row.subjectID, row.subjectRelation, row.relation, row.resourceType,
    row.resourceID, row.conditionJSON⟩

def resourceRelationshipStep (row : ResourceRelationshipRow) : RelationshipStep :=
  ⟨row.entityID, row.subjectType, row.subjectID, row.subjectRelation, row.relation, row.resourceType,
    row.resourceID, row.conditionJSON⟩

section Chains

variable (db tenantID env trusted)

/-- Open edges from a root to the node, each starting where the one before it ends. -/
inductive Chain (roots : List RelationshipNode) : List RelationshipStep → RelationshipNode → Prop where
  | root {node : RelationshipNode} (h : node ∈ roots) : Chain roots [] node
  | step {path : List RelationshipStep} {row : RelationshipRow} (h : Chain roots path (relationshipSubject row))
      (hrow : row ∈ openRelationships db tenantID env trusted) :
      Chain roots (path ++ [relationshipStep row]) (targetNode row)

/-- A chain whose last edge is the one that the grant speaks of. -/
inductive Leads (roots : List RelationshipNode) : List RelationshipStep → GrantKey → Prop where
  | entity {path : List RelationshipStep} {row : RelationshipRow}
      (h : Chain db tenantID env trusted roots path (relationshipSubject row))
      (hrow : row ∈ openRelationships db tenantID env trusted) :
      Leads roots (path ++ [relationshipStep row]) (relationshipKey row)
  | resource {path : List RelationshipStep} {row : ResourceRelationshipRow}
      (h : Chain db tenantID env trusted roots path (resourceRelationshipSubject row))
      (hrow : row ∈ openResourceRelationships db tenantID env trusted) :
      Leads roots (path ++ [resourceRelationshipStep row]) (resourceRelationshipKey row)

/-- Every visited node has a chain as its path, and so has the target of every grant. -/
structure Traced (roots : List RelationshipNode) (n : Nat) (traversal : Traversal) : Prop where
  paths : ∀ y ∈ traversal.visited, Chain db tenantID env trusted roots (traversal.paths y) y ∧
    (traversal.paths y).length ≤ n
  grants : ∀ g ∈ traversal.grants, Leads db tenantID env trusted roots g.path (grantKey g) ∧
    g.path.length ≤ n

end Chains

theorem below_of_chain {roots : List RelationshipNode} {path : List RelationshipStep} {node : RelationshipNode}
    (h : Chain db tenantID env trusted roots path node) :
    Below (relationshipTargets db tenantID env trusted) roots (path.length + 1) node := by
  induction h with
  | root h => exact ⟨_, h, 0, by simp, .refl _⟩
  | step _ hrow ih =>
    rw [List.length_append, List.length_singleton]
    exact below_succ.mpr (.inr ⟨_, ih, mem_relationshipTargets.mpr ⟨_, hrow, rfl, rfl⟩⟩)

theorem Traced.mono {roots : List RelationshipNode} {n m : Nat} {traversal : Traversal}
    (h : Traced db tenantID env trusted roots n traversal) (hle : n ≤ m) :
    Traced db tenantID env trusted roots m traversal where
  paths y hy := ⟨(h.paths y hy).1, Nat.le_trans (h.paths y hy).2 hle⟩
  grants g hg := ⟨(h.grants g hg).1, Nat.le_trans (h.grants g hg).2 hle⟩

/-- An edge from a node of an earlier level keeps the paths of that level. -/
theorem visitRelationship_traced {roots sources : List RelationshipNode} {n : Nat} {traversal : Traversal}
    {row : RelationshipRow} (h : Traced db tenantID env trusted roots (n + 1) traversal)
    (hsources : ∀ y ∈ sources, y ∈ traversal.visited ∧ (traversal.paths y).length ≤ n)
    (hrow : row ∈ openRelationships db tenantID env trusted) (hsubject : relationshipSubject row ∈ sources) :
    Traced db tenantID env trusted roots (n + 1) (visitRelationship traversal row) ∧
      ∀ y ∈ sources, y ∈ (visitRelationship traversal row).visited ∧
        ((visitRelationship traversal row).paths y).length ≤ n := by
  by_cases hseen : traversal.visited.contains (targetNode row) = true
  · have heq : visitRelationship traversal row = traversal := if_pos hseen
    rw [heq]
    exact ⟨h, hsources⟩
  · have hnew : visitRelationship traversal row =
        { frontier := traversal.frontier ++ [targetNode row]
          visited := targetNode row :: traversal.visited
          paths := fun node => if node = targetNode row then
            traversal.paths (relationshipSubject row) ++ [relationshipStep row] else traversal.paths node
          grants := traversal.grants ++ [⟨"", row.resourceType, row.resourceID, row.relation,
            traversal.paths (relationshipSubject row) ++ [relationshipStep row]⟩] } := if_neg hseen
    have hother : ∀ y ∈ traversal.visited, y ≠ targetNode row := by
      rintro y hy rfl
      exact hseen (List.contains_iff_mem.mpr hy)
    obtain ⟨hvisited, hlength⟩ := hsources _ hsubject
    have hchain := (h.paths _ hvisited).1
    rw [hnew]
    refine ⟨⟨fun y hy => ?_, fun g hg => ?_⟩, fun y hy => ?_⟩
    · rcases List.mem_cons.mp hy with rfl | hold
      · simp only [if_pos, List.length_append, List.length_singleton]
        exact ⟨.step hchain hrow, by omega⟩
      · simp only [if_neg (hother y hold)]
        exact h.paths y hold
    · rcases List.mem_append.mp hg with hold | hlast
      · exact h.grants g hold
      · rw [List.mem_singleton.mp hlast]
        refine ⟨.entity hchain hrow, ?_⟩
        simp only [List.length_append, List.length_singleton]
        omega
    · obtain ⟨hy, hlength⟩ := hsources y hy
      simp only [if_neg (hother y hy)]
      exact ⟨List.mem_cons_of_mem _ hy, hlength⟩

theorem foldl_visitRelationship_traced {roots sources : List RelationshipNode} {n : Nat}
    (rows : List RelationshipRow) (hrows : ∀ row ∈ rows,
      row ∈ openRelationships db tenantID env trusted ∧ relationshipSubject row ∈ sources)
    {traversal : Traversal} (h : Traced db tenantID env trusted roots (n + 1) traversal)
    (hsources : ∀ y ∈ sources, y ∈ traversal.visited ∧ (traversal.paths y).length ≤ n) :
    Traced db tenantID env trusted roots (n + 1) (rows.foldl visitRelationship traversal) := by
  induction rows generalizing traversal with
  | nil => exact h
  | cons row rest ih =>
    obtain ⟨hrow, hsubject⟩ := hrows row List.mem_cons_self
    obtain ⟨hnext, hnextSources⟩ := visitRelationship_traced h hsources hrow hsubject
    exact ih (fun other hother => hrows other (List.mem_cons_of_mem _ hother)) hnext hnextSources

theorem Traced.round {roots : List RelationshipNode} {n : Nat} {traversal : Traversal}
    (h : Traced db tenantID env trusted roots n traversal)
    (hfrontier : ∀ y ∈ traversal.frontier, y ∈ traversal.visited) :
    Traced db tenantID env trusted roots (n + 1) (traversalRound db tenantID env trusted traversal) := by
  refine foldl_visitRelationship_traced _ (fun row hrow => mem_followed.mp hrow) ?_
    fun y hy => ⟨hfrontier y hy, (h.paths y (hfrontier y hy)).2⟩
  refine ⟨(h.mono (Nat.le_succ n)).paths, fun g hg => ?_⟩
  rcases List.mem_append.mp hg with hold | hresource
  · exact (h.mono (Nat.le_succ n)).grants g hold
  · obtain ⟨row, hrow, rfl⟩ := List.mem_map.mp hresource
    obtain ⟨hopen, hsubject⟩ := mem_followed_resources.mp hrow
    obtain ⟨hchain, hlength⟩ := h.paths _ (hfrontier _ hsubject)
    refine ⟨.resource hchain hopen, ?_⟩
    simp only [resourceGrant, List.length_append, List.length_singleton]
    omega

theorem Traced.traverse {roots : List RelationshipNode} (depth : Nat) {n : Nat} {traversal : Traversal}
    (h : Traced db tenantID env trusted roots n traversal)
    (hexplored : Explored db tenantID env trusted roots n traversal) :
    Traced db tenantID env trusted roots (n + depth)
      (AuthorizationGrants.traverse db tenantID env trusted depth traversal) := by
  induction depth generalizing n traversal with
  | zero => exact h
  | succ depth ih =>
    rw [AuthorizationGrants.traverse]
    split
    · exact h.mono (Nat.le_add_right n _)
    · have hround := ih (h.round hexplored.searched.frontier_visited) hexplored.round
      rwa [Nat.add_assoc, Nat.add_comm 1 depth] at hround

/-- The search returns what some chain within the depth leads to, each with such a chain. -/
theorem relationship_search (db : Db) (tenantID : String) (env : Environment) (trusted : TrustedContext)
    (subject : String) :
    (∀ failure, relationshipRoots db tenantID env subject trusted.time = .error failure →
      loadRelationshipGrants db tenantID env subject trusted = .error failure) ∧
    ∀ roots, relationshipRoots db tenantID env subject trusted.time = .ok roots →
      ∃ grants, loadRelationshipGrants db tenantID env subject trusted = .ok grants ∧
        (∀ key, (∃ g ∈ grants, grantKey g = key) ↔ ∃ path, Leads db tenantID env trusted roots path key ∧
          path.length ≤ defaultRelationshipDepth) ∧
        ∀ g ∈ grants, Leads db tenantID env trusted roots g.path (grantKey g) ∧
          g.path.length ≤ defaultRelationshipDepth := by
  constructor
  · intro failure hroots
    simp only [loadRelationshipGrants, hroots, bind, Except.bind]
  · intro roots hroots
    have hload : loadRelationshipGrants db tenantID env subject trusted =
        .ok (AuthorizationGrants.traverse db tenantID env trusted defaultRelationshipDepth
          ⟨roots, roots, fun _ => [], []⟩).grants := by
      simp only [loadRelationshipGrants, hroots, bind, Except.bind, pure, Except.pure]
    have hstart : Traced db tenantID env trusted roots 0 ⟨roots, roots, fun _ => [], []⟩ :=
      ⟨fun y hy => ⟨.root hy, Nat.le_refl 0⟩, fun g hg => by simp at hg⟩
    have htraced := (hstart.traverse defaultRelationshipDepth (.start roots)).grants
    rw [Nat.zero_add] at htraced
    refine ⟨_, hload, fun key => ⟨?_, ?_⟩, htraced⟩
    · rintro ⟨g, hg, rfl⟩
      exact ⟨g.path, htraced g hg⟩
    · rintro ⟨path, hleads, hlength⟩
      refine (mem_relationshipGrants hroots hload key).mpr ?_
      cases hleads with
      | entity hchain hrow =>
        rw [List.length_append, List.length_singleton] at hlength
        exact .inl ⟨_, hrow, (below_of_chain hchain).of_le hlength, rfl⟩
      | resource hchain hrow =>
        rw [List.length_append, List.length_singleton] at hlength
        exact .inr ⟨_, hrow, (below_of_chain hchain).of_le hlength, rfl⟩

end RelationshipPaths
