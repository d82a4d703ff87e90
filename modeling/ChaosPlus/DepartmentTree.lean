import ChaosPlus.ClosureTable
import ChaosPlus.DepartmentService

/-!
# The department tree

The closure table of a tenant is the closure of the parent links of its departments. Each
call keeps it so, whatever the tree and wherever a subtree is moved.
-/
namespace DepartmentTree

open ClosureTable DepartmentService DepartmentStore InterleavedTransactions KeyedTable
open ParentForest StepRuns
open PolicyStore (DepartmentClosureRow)

def IsDepartment (db : Db) (tenantID id : String) : Prop :=
  db.departments.hasKey (tenantID, id) = true

/-- An empty parent is none. -/
def parentLink (parentID : String) : Option String :=
  if parentID = "" then none else some parentID

def parentOf (db : Db) (tenantID id : String) : Option String :=
  (db.departments.find? (tenantID, id)).bind fun row => parentLink row.parentID

def HasLink (db : Db) (tenantID ancestorID descendantID : String) (depth : Nat) : Prop :=
  (⟨tenantID, ancestorID, descendantID, depth⟩ : DepartmentClosureRow) ∈ db.closure

/-- The closure table of the tenant is exact. -/
def Tree (db : Db) (tenantID : String) : Prop :=
  Exact (IsDepartment db tenantID) (parentOf db tenantID) (HasLink db tenantID)

section Statements

variable {db after : Db} {tenantID id parentID context : String}

/-- A row that is inserted leaves the others. -/
theorem view_putLinks {links : List DepartmentClosureRow} (hnodup : (links.map linkKey).Nodup)
    (hfree : ∀ link ∈ links, db.closure.hasKey (linkKey link) = false) :
    (view store db (links.map Write.putLink)).departments = db.departments ∧
      ∀ row, row ∈ (view store db (links.map Write.putLink)).closure ↔
        row ∈ db.closure ∨ row ∈ links := by
  induction links generalizing db with
  | nil => simp
  | cons link rest ih =>
    rw [List.map_cons, List.nodup_cons] at hnodup
    have hput : ∀ row, row ∈ db.closure.put link ↔ row ∈ db.closure ∨ row = link := by
      intro row
      rw [Table.mem_put, or_comm]
      refine or_congr_left (and_iff_left_of_imp fun hrow hkey => ?_)
      have hlink := hfree link (by simp)
      rw [Bool.eq_false_iff] at hlink
      exact hlink (Table.hasKey_iff.mpr ⟨row, hrow, hkey⟩)
    obtain ⟨hdepartments, hclosure⟩ := @ih { db with closure := db.closure.put link } hnodup.2
      (by
        intro other hother
        rw [Bool.eq_false_iff]
        intro htaken
        obtain ⟨row, hrow, hkey⟩ := Table.hasKey_iff.mp htaken
        rcases (hput row).mp hrow with hold | rfl
        · have hfreeOther := hfree other (by simp [hother])
          rw [Bool.eq_false_iff] at hfreeOther
          exact hfreeOther (Table.hasKey_iff.mpr ⟨row, hold, hkey⟩)
        · exact hnodup.1 (List.mem_map.mpr ⟨other, hother, hkey.symm⟩))
    refine ⟨hdepartments, fun row => ?_⟩
    rw [List.mem_cons, ← or_assoc, ← hput]
    exact hclosure row

theorem view_removeLinks {links : List DepartmentClosureRow} :
    (view store db (links.map fun link =>
        Write.removeLink tenantID link.ancestorID link.descendantID)).departments = db.departments ∧
      ∀ row, row ∈ (view store db (links.map fun link =>
          Write.removeLink tenantID link.ancestorID link.descendantID)).closure ↔
        row ∈ db.closure ∧ ¬∃ link ∈ links, row.tenantID = tenantID ∧
          row.ancestorID = link.ancestorID ∧ row.descendantID = link.descendantID := by
  induction links generalizing db with
  | nil => simp
  | cons link rest ih =>
    obtain ⟨hdepartments, hclosure⟩ := @ih (Write.apply db
      (.removeLink tenantID link.ancestorID link.descendantID))
    refine ⟨hdepartments, fun row => (hclosure row).trans ?_⟩
    simp only [Write.apply, Table.mem_deleteWhere, Bool.and_eq_false_iff, decide_eq_false_iff_not,
      List.exists_mem_cons_iff, not_or, and_assoc]
    refine and_congr_right fun _ => and_congr_left fun _ => ?_
    tauto

theorem get_ok {row : DepartmentRow}
    (h : alone store (get tenantID id) db = .ok (row, after)) :
    db.departments.find? (tenantID, id) = some row ∧ after = db := by
  obtain ⟨found, between, hquery, hrest⟩ := alone_bind_ok h
  obtain ⟨writes, heffect, rfl⟩ := alone_query_ok hquery
  simp only [store, effect, Except.ok.injEq, Prod.mk.injEq] at heffect
  obtain ⟨rfl, rfl⟩ := heffect
  cases hfound : db.departments.find? (tenantID, id) with
  | none => simp [hfound] at hrest
  | some stored =>
    rw [hfound] at hrest
    obtain ⟨rfl, rfl⟩ := alone_pure_ok hrest
    exact ⟨rfl, rfl⟩

theorem ancestors_ok {found : List DepartmentClosureRow}
    (h : alone store (ancestors tenantID id) db = .ok (found, after)) :
    found = ancestorLinks db tenantID id ∧ after = db := by
  obtain ⟨writes, heffect, rfl⟩ := alone_query_ok h
  simp only [store, effect, Except.ok.injEq, Prod.mk.injEq] at heffect
  obtain ⟨rfl, rfl⟩ := heffect
  exact ⟨rfl, rfl⟩

theorem descendants_ok {found : List DepartmentClosureRow}
    (h : alone store (descendants tenantID id) db = .ok (found, after)) :
    found = descendantLinks db tenantID id ∧ after = db := by
  obtain ⟨writes, heffect, rfl⟩ := alone_query_ok h
  simp only [store, effect, Except.ok.injEq, Prod.mk.injEq] at heffect
  obtain ⟨rfl, rfl⟩ := heffect
  exact ⟨rfl, rfl⟩

theorem insertLinks_ok {links : List DepartmentClosureRow}
    (h : alone store (insertLinks links context) db = .ok ((), after)) :
    after.departments = db.departments ∧
      ∀ row, row ∈ after.closure ↔ row ∈ db.closure ∨ row ∈ links := by
  unfold insertLinks at h
  split at h
  · rename_i hnone
    obtain ⟨-, rfl⟩ := alone_pure_ok h
    subst hnone
    simp
  · obtain ⟨writes, heffect, rfl⟩ := alone_query_ok h
    simp only [store, effect, insertLinkRows] at heffect
    split at heffect
    · cases heffect
    · rename_i hfree
      split at heffect
      · cases heffect
      · simp only [Except.ok.injEq, Prod.mk.injEq, true_and] at heffect
        subst heffect
        simp only [Bool.or_eq_true, Bool.not_eq_true', decide_eq_false_iff_not, not_or, not_not,
          List.any_eq_true, not_exists, not_and, Bool.not_eq_true] at hfree
        exact view_putLinks hfree.1 hfree.2

theorem removeOldLinks_ok {oldAncestorIDs subtreeIDs : List String}
    (h : alone store (removeOldLinks tenantID oldAncestorIDs subtreeIDs) db = .ok ((), after)) :
    after.departments = db.departments ∧
      ∀ row, row ∈ after.closure ↔ row ∈ db.closure ∧ ¬(row.tenantID = tenantID ∧
        row.ancestorID ∈ oldAncestorIDs ∧ row.descendantID ∈ subtreeIDs) := by
  unfold removeOldLinks at h
  split at h
  · rename_i hnone
    obtain ⟨-, rfl⟩ := alone_pure_ok h
    subst hnone
    simp
  · obtain ⟨writes, heffect, rfl⟩ := alone_query_ok h
    simp only [store, effect, deleteLinkRows, Except.ok.injEq, Prod.mk.injEq, true_and] at heffect
    subst heffect
    refine ⟨view_removeLinks.1, fun row => view_removeLinks.2 row |>.trans ?_⟩
    refine and_congr_right fun hrow => not_congr ?_
    simp only [List.mem_filter, Bool.and_eq_true, decide_eq_true_eq, List.contains_iff_mem]
    constructor
    · rintro ⟨link, ⟨_, ⟨_, hancestor⟩, hdescendant⟩, htenant, ha, hd⟩
      exact ⟨htenant, ha ▸ hancestor, hd ▸ hdescendant⟩
    · rintro ⟨htenant, hancestor, hdescendant⟩
      exact ⟨row, ⟨hrow, ⟨htenant, hancestor⟩, hdescendant⟩, htenant, rfl, rfl⟩

theorem advance_ok (h : alone store (DepartmentService.advance tenantID) db = .ok ((), after)) :
    after.departments = db.departments ∧ after.closure = db.closure := by
  obtain ⟨writes, heffect, rfl⟩ := alone_query_ok h
  simp only [store, effect, Except.ok.injEq, Prod.mk.injEq, true_and] at heffect
  subst heffect
  exact ⟨rfl, rfl⟩

theorem withDepth_ok {row : DepartmentRow} {department : Department}
    (h : alone store (withDepth row) db = .ok (department, after)) : after = db := by
  obtain ⟨found, between, hfound, hrest⟩ := alone_bind_ok h
  obtain ⟨-, rfl⟩ := ancestors_ok hfound
  exact (alone_pure_ok hrest).2

end Statements

section Rows

variable {db after : Db} {tenantID id : String}

theorem isDepartment_iff :
    IsDepartment db tenantID id ↔ ∃ row, db.departments.find? (tenantID, id) = some row := by
  rw [IsDepartment, ← Table.find?_isSome, Option.isSome_iff_exists]

theorem parentLink_eq_some {parentID p : String} :
    parentLink parentID = some p ↔ parentID ≠ "" ∧ parentID = p := by
  unfold parentLink
  by_cases hroot : parentID = "" <;> simp [hroot]

theorem mem_ancestorLinks {link : DepartmentClosureRow} :
    link ∈ ancestorLinks db tenantID id ↔
      link ∈ db.closure ∧ link.tenantID = tenantID ∧ link.descendantID = id := by
  simp [ancestorLinks, Table.mem_def]

theorem mem_descendantLinks {link : DepartmentClosureRow} :
    link ∈ descendantLinks db tenantID id ↔
      link ∈ db.closure ∧ link.tenantID = tenantID ∧ link.ancestorID = id := by
  simp [descendantLinks, Table.mem_def]

theorem exists_ancestor_iff {a : String} :
    (∃ link ∈ ancestorLinks db tenantID id, link.ancestorID = a) ↔
      ∃ n, HasLink db tenantID a id n := by
  constructor
  · rintro ⟨link, hlink, rfl⟩
    obtain ⟨hrow, rfl, rfl⟩ := mem_ancestorLinks.mp hlink
    exact ⟨link.depth, hrow⟩
  · rintro ⟨n, hrow⟩
    exact ⟨_, mem_ancestorLinks.mpr ⟨hrow, rfl, rfl⟩, rfl⟩

theorem exists_descendant_iff {d : String} :
    (∃ link ∈ descendantLinks db tenantID id, link.descendantID = d) ↔
      ∃ n, HasLink db tenantID id d n := by
  constructor
  · rintro ⟨link, hlink, rfl⟩
    obtain ⟨hrow, rfl, rfl⟩ := mem_descendantLinks.mp hlink
    exact ⟨link.depth, hrow⟩
  · rintro ⟨n, hrow⟩
    exact ⟨_, mem_descendantLinks.mpr ⟨hrow, rfl, rfl⟩, rfl⟩

/-- What a tree says depends on the departments and the closure rows of its tenant. -/
theorem Tree.congr (h : Tree db tenantID)
    (hfind : ∀ id, after.departments.find? (tenantID, id) = db.departments.find? (tenantID, id))
    (hlinks : ∀ a d n, HasLink after tenantID a d n ↔ HasLink db tenantID a d n) :
    Tree after tenantID := by
  refine Exact.congr h (fun d => ?_) (fun d => ?_) hlinks
  · rw [isDepartment_iff, isDepartment_iff, hfind]
  · rw [parentOf, parentOf, hfind]

section Put

variable {row : DepartmentRow} (hput : after.departments = db.departments.put row)
include hput

theorem find?_of_put (hother : tenantID ≠ row.tenantID) :
    after.departments.find? (tenantID, id) = db.departments.find? (tenantID, id) := by
  rw [hput, Table.find?_put, if_neg]
  intro hkey
  exact hother (Prod.mk.inj hkey).1.symm

theorem isDepartment_of_put :
    IsDepartment after row.tenantID id ↔ IsDepartment db row.tenantID id ∨ id = row.id := by
  rw [isDepartment_iff, isDepartment_iff, hput, Table.find?_put]
  by_cases hid : id = row.id
  · simp [hid]
  · simp [hid, Ne.symm hid]

theorem parentOf_of_put :
    parentOf after row.tenantID =
      Function.update (parentOf db row.tenantID) row.id (parentLink row.parentID) := by
  funext d
  rw [parentOf, hput, Table.find?_put]
  by_cases hid : d = row.id
  · subst hid
    simp
  · have hkey : (row.tenantID, row.id) ≠ (row.tenantID, d) := by simp [eq_comm, hid]
    rw [if_neg hkey, Function.update_of_ne hid]
    rfl

end Put

end Rows

section Create

variable {db after : Db} {row : DepartmentRow}

theorem requireParent_ok {tenantID parentID : String}
    (h : alone store (requireParent tenantID parentID) db = .ok ((), after)) :
    after = db ∧ (parentID ≠ "" → IsDepartment db tenantID parentID) := by
  unfold requireParent at h
  split at h
  · rename_i hroot
    exact ⟨(alone_pure_ok h).2, fun hparent => absurd hroot hparent⟩
  · obtain ⟨parent, between, hget, hrest⟩ := alone_bind_ok h
    obtain ⟨hfound, rfl⟩ := get_ok hget
    exact ⟨(alone_pure_ok hrest).2, fun _ => isDepartment_iff.mpr ⟨parent, hfound⟩⟩

theorem insertDepartment_ok {onFailure : Constraint → DepartmentError}
    (h : alone store (send (.insertDepartment row) onFailure) db = .ok ((), after)) :
    ¬IsDepartment db row.tenantID row.id ∧ after.departments = db.departments.put row ∧
      after.closure = db.closure := by
  obtain ⟨writes, heffect, rfl⟩ := alone_query_ok h
  simp only [store, effect, insertDepartmentRow] at heffect
  split at heffect
  · cases heffect
  · rename_i hfree
    split at heffect
    · cases heffect
    · simp only [Except.ok.injEq, Prod.mk.injEq, true_and] at heffect
      subst heffect
      exact ⟨hfree, rfl, rfl⟩

/-- The links are made from those of the ancestors of the parent, when there is one. -/
theorem linkAncestors_ok {links : List DepartmentClosureRow → List DepartmentClosureRow}
    (h : alone store (if parentID = "" then pure () else do
      let found ← ancestors tenantID parentID
      insertLinks (links found) context) db = .ok ((), after)) :
    after.departments = db.departments ∧ ∀ link, link ∈ after.closure ↔ link ∈ db.closure ∨
      ∃ p, parentLink parentID = some p ∧ link ∈ links (ancestorLinks db tenantID p) := by
  split at h
  · rename_i hroot
    obtain ⟨-, rfl⟩ := alone_pure_ok h
    simp [parentLink, hroot]
  · rename_i hparent
    obtain ⟨found, between, hfound, hrest⟩ := alone_bind_ok h
    obtain ⟨rfl, rfl⟩ := ancestors_ok hfound
    simpa only [parentLink, hparent, if_false, Option.some.injEq, exists_eq_left'] using
      insertLinks_ok hrest

theorem linksToParent_ok (h : alone store (linksToParent row) db = .ok ((), after)) :
    after.departments = db.departments ∧ ∀ link, link ∈ after.closure ↔ link ∈ db.closure ∨
      ∃ p, parentLink row.parentID = some p ∧ ∃ above ∈ ancestorLinks db row.tenantID p,
        link = ⟨row.tenantID, above.ancestorID, row.id, above.depth + 1⟩ := by
  simpa only [List.mem_map, eq_comm] using linkAncestors_ok h

theorem insert_ok (h : alone store (insert row) db = .ok ((), after)) :
    ¬IsDepartment db row.tenantID row.id ∧
      (∀ p, parentLink row.parentID = some p → IsDepartment db row.tenantID p) ∧
      after.departments = db.departments.put row ∧
      ∀ t a d n, HasLink after t a d n ↔ HasLink db t a d n ∨ (t = row.tenantID ∧ d = row.id ∧
        ((a = row.id ∧ n = 0) ∨
          ∃ p m, parentLink row.parentID = some p ∧ HasLink db t a p m ∧ n = m + 1)) := by
  obtain ⟨_, db₁, hparent, hwrites⟩ := alone_bind_ok h
  obtain ⟨_, db₂, hinsert, hclosure⟩ := alone_bind_ok hwrites
  obtain ⟨_, db₃, hself, hlinks⟩ := alone_bind_ok hclosure
  obtain ⟨rfl, hexists⟩ := requireParent_ok hparent
  obtain ⟨hnew, hput, hsame⟩ := insertDepartment_ok hinsert
  obtain ⟨hput₃, hclosure₃⟩ := insertLinks_ok hself
  obtain ⟨hput₄, hclosure₄⟩ := linksToParent_ok hlinks
  have hparents : ∀ p, parentLink row.parentID = some p → IsDepartment db₁ row.tenantID p := by
    intro p hp
    obtain ⟨hroot, rfl⟩ := parentLink_eq_some.mp hp
    exact hexists hroot
  refine ⟨hnew, hparents, hput₄.trans (hput₃.trans hput), fun t a d n => ?_⟩
  unfold HasLink
  rw [hclosure₄, hclosure₃, hsame, List.mem_singleton, or_assoc]
  refine or_congr_right ?_
  constructor
  · rintro (hself | ⟨p, hp, above, habove, heq⟩)
    · obtain ⟨rfl, rfl, rfl, rfl⟩ := DepartmentClosureRow.mk.inj hself
      exact ⟨rfl, rfl, .inl ⟨rfl, rfl⟩⟩
    · obtain ⟨rfl, rfl, rfl, rfl⟩ := DepartmentClosureRow.mk.inj heq
      obtain ⟨hrow, htenant, hdescendant⟩ := mem_ancestorLinks.mp habove
      refine ⟨rfl, rfl, .inr ⟨p, above.depth, hp, ?_, rfl⟩⟩
      rw [hclosure₃, hsame, List.mem_singleton] at hrow
      rcases hrow with hold | rfl
      · rw [← htenant, ← hdescendant]
        exact hold
      · -- the new row is not one of the parent's, which existed before
        exact absurd (hparents p hp) (hdescendant ▸ hnew)
  · rintro ⟨rfl, rfl, ⟨rfl, rfl⟩ | ⟨p, m, hp, hrow, rfl⟩⟩
    · exact .inl rfl
    · refine .inr ⟨p, hp, ⟨row.tenantID, a, p, m⟩, mem_ancestorLinks.mpr ⟨?_, rfl, rfl⟩, rfl⟩
      rw [hclosure₃, hsame]
      exact .inl hrow

theorem insert_tree (htree : ∀ t, Tree db t) (h : alone store (insert row) db = .ok ((), after)) :
    ∀ t, Tree after t := by
  obtain ⟨hnew, hparents, hput, hlinks⟩ := insert_ok h
  intro t
  by_cases ht : t = row.tenantID
  · subst ht
    refine Exact.congr ((htree row.tenantID).insert_leaf hnew hparents) (fun d => ?_) (fun d => ?_)
      fun a d n => ?_
    · exact isDepartment_of_put hput
    · rw [parentOf_of_put hput]
    · simpa using hlinks row.tenantID a d n
  · refine (htree t).congr (fun id => find?_of_put hput ht) fun a d n => ?_
    simpa [ht] using hlinks t a d n

theorem createDepartment_tree {lower : Char → Char} {tenantID id : String}
    {input : CreateDepartment} {created : Department} (htree : ∀ t, Tree db t)
    (h : alone store (createDepartment lower tenantID id input) db = .ok (created, after)) :
    ∀ t, Tree after t := by
  unfold createDepartment at h
  split at h
  · cases h
  · split at h
    · cases h
    · obtain ⟨_, db₁, hinsert, hread⟩ := alone_bind_ok h
      obtain ⟨_, db₂, hdepth, hlast⟩ := alone_bind_ok hread
      obtain ⟨_, db₃, hadvance, hdone⟩ := alone_bind_ok hlast
      obtain rfl := withDepth_ok hdepth
      obtain ⟨hdepartments, hclosure⟩ := advance_ok hadvance
      obtain ⟨-, rfl⟩ := alone_pure_ok hdone
      intro t
      refine (insert_tree htree hinsert t).congr (fun id => ?_) fun a d n => ?_
      · rw [hdepartments]
      · rw [HasLink, HasLink, hclosure]

end Create

section Update

variable {db after : Db} {tenantID id parentID : String}

theorem isDescendant_ok {descendantID : String} {below : Bool}
    (h : alone store (isDescendant tenantID id descendantID) db = .ok (below, after)) :
    after = db ∧ (below = true ↔ ∃ n, HasLink db tenantID id descendantID n) := by
  obtain ⟨count, between, hcount, hrest⟩ := alone_bind_ok h
  obtain ⟨writes, heffect, rfl⟩ := alone_query_ok hcount
  obtain ⟨rfl, rfl⟩ := alone_pure_ok hrest
  simp only [store, effect, Except.ok.injEq, Prod.mk.injEq] at heffect
  obtain ⟨rfl, rfl⟩ := heffect
  refine ⟨rfl, ?_⟩
  rw [decide_eq_true_eq, List.countP_pos_iff]
  simp only [Bool.and_eq_true, decide_eq_true_eq, HasLink]
  constructor
  · rintro ⟨link, hlink, ⟨rfl, rfl⟩, rfl⟩
    exact ⟨link.depth, hlink⟩
  · rintro ⟨n, hlink⟩
    exact ⟨_, hlink, ⟨rfl, rfl⟩, rfl⟩

/-- The new parent is a department outside the subtree. -/
def MayMove (db : Db) (tenantID id parentID : String) : Prop :=
  ∀ p, parentLink parentID = some p →
    IsDepartment db tenantID p ∧ ¬∃ n, HasLink db tenantID id p n

theorem requireNewParent_ok
    (h : alone store (requireNewParent tenantID id parentID) db = .ok ((), after)) :
    after = db ∧ MayMove db tenantID id parentID := by
  unfold requireNewParent at h
  split at h
  · rename_i hroot
    refine ⟨(alone_pure_ok h).2, fun p hp => ?_⟩
    exact absurd hroot (parentLink_eq_some.mp hp).1
  · obtain ⟨parent, db₁, hget, hchecked⟩ := alone_bind_ok h
    obtain ⟨below, db₂, hbelow, hlast⟩ := alone_bind_ok hchecked
    obtain ⟨hfound, rfl⟩ := get_ok hget
    obtain ⟨rfl, hiff⟩ := isDescendant_ok hbelow
    split at hlast
    · cases hlast
    · rename_i hnot
      refine ⟨(alone_pure_ok hlast).2, fun p hp => ?_⟩
      obtain ⟨-, rfl⟩ := parentLink_eq_some.mp hp
      exact ⟨isDepartment_iff.mpr ⟨parent, hfound⟩, fun hlink => hnot (hiff.mpr hlink)⟩

theorem update_ok {row : DepartmentRow} {expectedVersion : Int}
    (h : alone store (update row expectedVersion) db = .ok ((), after)) :
    after.departments = db.departments.put row ∧ after.closure = db.closure := by
  obtain ⟨affected, between, hupdate, hrest⟩ := alone_bind_ok h
  obtain ⟨writes, heffect, rfl⟩ := alone_query_ok hupdate
  split at hrest
  · rename_i haffected
    obtain ⟨-, rfl⟩ := alone_pure_ok hrest
    subst haffected
    simp only [store, effect, updateDepartmentRow] at heffect
    split at heffect
    · simp at heffect
    · split at heffect
      · simp at heffect
      · split at heffect
        · cases heffect
        · simp only [Except.ok.injEq, Prod.mk.injEq, true_and] at heffect
          subst heffect
          exact ⟨rfl, rfl⟩
  · cases hrest

theorem mem_movedLinks {newAncestors subtree : List DepartmentClosureRow}
    {link : DepartmentClosureRow} :
    link ∈ movedLinks tenantID newAncestors subtree ↔
      ∃ above ∈ newAncestors, ∃ below ∈ subtree,
        link = ⟨tenantID, above.ancestorID, below.descendantID, above.depth + below.depth + 1⟩ := by
  simp only [movedLinks, List.mem_flatMap, List.mem_map]
  exact exists_congr fun above => and_congr_right fun _ =>
    exists_congr fun below => and_congr_right fun _ => eq_comm

theorem linkToNewParent_ok {subtree : List DepartmentClosureRow}
    (h : alone store (linkToNewParent tenantID parentID subtree) db = .ok ((), after)) :
    after.departments = db.departments ∧ ∀ link, link ∈ after.closure ↔ link ∈ db.closure ∨
      ∃ p, parentLink parentID = some p ∧ ∃ above ∈ ancestorLinks db tenantID p,
        ∃ below ∈ subtree, link =
          ⟨tenantID, above.ancestorID, below.descendantID, above.depth + below.depth + 1⟩ := by
  simpa only [mem_movedLinks] using linkAncestors_ok h

/-- The closure rows of the tenant after a subtree has moved. -/
def MovedLink (db : Db) (tenantID id parentID a d : String) (n : Nat) : Prop :=
  (HasLink db tenantID a d n ∧
    ¬((a ≠ id ∧ ∃ i, HasLink db tenantID a id i) ∧ ∃ j, HasLink db tenantID id d j)) ∨
  ∃ p i j, parentLink parentID = some p ∧ HasLink db tenantID a p i ∧ HasLink db tenantID id d j ∧
    n = i + j + 1

theorem move_ok (hmay : MayMove db tenantID id parentID)
    (h : alone store (move tenantID id parentID) db = .ok ((), after)) :
    after.departments = db.departments ∧
      (∀ a d n, HasLink after tenantID a d n ↔ MovedLink db tenantID id parentID a d n) ∧
      ∀ t ≠ tenantID, ∀ a d n, HasLink after t a d n ↔ HasLink db t a d n := by
  obtain ⟨subtree, db₁, hsubtree, hold⟩ := alone_bind_ok h
  obtain ⟨oldAncestors, db₂, holdAncestors, hwrites⟩ := alone_bind_ok hold
  obtain ⟨_, db₃, hremove, hinsert⟩ := alone_bind_ok hwrites
  obtain ⟨rfl, rfl⟩ := descendants_ok hsubtree
  obtain ⟨rfl, rfl⟩ := ancestors_ok holdAncestors
  obtain ⟨hdepartments₃, hclosure₃⟩ := removeOldLinks_ok hremove
  obtain ⟨hdepartments, hclosure⟩ := linkToNewParent_ok hinsert
  -- what the removal selects, by the rows read before it
  have holds : ∀ a, a ∈ ((ancestorLinks db₂ tenantID id).map
      DepartmentClosureRow.ancestorID).filter (fun ancestorID => ancestorID ≠ id) ↔
        a ≠ id ∧ ∃ i, HasLink db₂ tenantID a id i := by
    intro a
    rw [List.mem_filter, List.mem_map, exists_ancestor_iff, decide_eq_true_eq, and_comm]
  have hsubs : ∀ d, d ∈ (descendantLinks db₂ tenantID id).map
      DepartmentClosureRow.descendantID ↔ ∃ j, HasLink db₂ tenantID id d j := by
    intro d
    rw [List.mem_map, exists_descendant_iff]
  simp only [holds, hsubs] at hclosure₃
  refine ⟨hdepartments.trans hdepartments₃, fun a d n => ?_, fun t ht a d n => ?_⟩
  · rw [HasLink, hclosure, hclosure₃, MovedLink]
    simp only [true_and]
    refine or_congr Iff.rfl ?_
    constructor
    · rintro ⟨p, hp, above, habove, below, hbelow, heq⟩
      obtain ⟨-, rfl, rfl, rfl⟩ := DepartmentClosureRow.mk.inj heq
      obtain ⟨hrow, rfl, rfl⟩ := mem_ancestorLinks.mp habove
      obtain ⟨hrow', htenant, rfl⟩ := mem_descendantLinks.mp hbelow
      refine ⟨above.descendantID, above.depth, below.depth, hp, ((hclosure₃ above).mp hrow).1, ?_,
        rfl⟩
      rw [← htenant]
      exact hrow'
    · rintro ⟨p, i, j, hp, hap, hxd, rfl⟩
      refine ⟨p, hp, ⟨tenantID, a, p, i⟩, mem_ancestorLinks.mpr ⟨?_, rfl, rfl⟩,
        ⟨tenantID, id, d, j⟩, mem_descendantLinks.mpr ⟨hxd, rfl, rfl⟩, rfl⟩
      -- the rows of the new parent stay, because it is outside the subtree
      exact (hclosure₃ _).mpr ⟨hap, fun hremoved => (hmay p hp).2 hremoved.2.2⟩
  · rw [HasLink, hclosure, hclosure₃]
    constructor
    · rintro (⟨hrow, -⟩ | ⟨p, -, above, -, below, -, heq⟩)
      · exact hrow
      · exact absurd (DepartmentClosureRow.mk.inj heq).1 ht
    · exact fun hrow => .inl ⟨hrow, fun hremoved => ht hremoved.1⟩

end Update

section Change

variable {db after : Db} {current updated : DepartmentRow}

theorem requireMove_ok (h : alone store (requireMove current updated) db = .ok ((), after)) :
    after = db ∧ (updated.parentID ≠ current.parentID →
      MayMove db current.tenantID current.id updated.parentID) := by
  unfold requireMove at h
  split at h
  · rename_i hsame
    exact ⟨(alone_pure_ok h).2, fun hmoved => absurd hsame hmoved⟩
  · obtain ⟨rfl, hmay⟩ := requireNewParent_ok h
    exact ⟨rfl, fun _ => hmay⟩

theorem department_eq {tenantID id : String}
    (hfound : db.departments.find? (tenantID, id) = some current) :
    current.tenantID = tenantID ∧ current.id = id :=
  Prod.mk.inj (Table.find?_eq_some.mp hfound).2

/-- Writing a department row, and moving the subtree if the parent changed, keeps the tree. -/
theorem moveIfChanged_tree {between : Db} (htree : ∀ t, Tree db t)
    (hfound : db.departments.find? (current.tenantID, current.id) = some current)
    (hkey : updated.tenantID = current.tenantID ∧ updated.id = current.id)
    (hmay : updated.parentID ≠ current.parentID →
      MayMove db current.tenantID current.id updated.parentID)
    (hput : between.departments = db.departments.put updated)
    (hsame : between.closure = db.closure)
    (h : alone store (moveIfChanged current updated) between = .ok ((), after)) :
    ∀ t, Tree after t := by
  obtain ⟨htenant, hid⟩ := hkey
  have hlinks : ∀ t a d n, HasLink between t a d n ↔ HasLink db t a d n := by
    intro t a d n
    rw [HasLink, HasLink, hsame]
  have hexists : IsDepartment db current.tenantID current.id :=
    isDepartment_iff.mpr ⟨current, hfound⟩
  have hnodes : ∀ d, IsDepartment between current.tenantID d ↔
      IsDepartment db current.tenantID d := by
    intro d
    rw [← htenant, isDepartment_of_put hput, htenant, hid]
    exact or_iff_left_of_imp fun heq => heq ▸ hexists
  have hparents : parentOf between current.tenantID = Function.update
      (parentOf db current.tenantID) current.id (parentLink updated.parentID) := by
    have hupdate := parentOf_of_put hput
    rwa [htenant, hid] at hupdate
  unfold moveIfChanged at h
  split at h
  · rename_i hparent
    obtain ⟨-, rfl⟩ := alone_pure_ok h
    intro t
    by_cases ht : t = current.tenantID
    · subst ht
      refine Exact.congr (htree current.tenantID) hnodes (fun d => ?_) (hlinks _)
      rw [hparents, hparent]
      by_cases hd : d = current.id
      · subst hd
        rw [Function.update_self, parentOf, hfound, Option.bind_some]
      · rw [Function.update_of_ne hd]
    · refine (htree t).congr (fun id => find?_of_put hput ?_) (hlinks t)
      rwa [htenant]
  · rename_i hmoved
    have hmay' : MayMove between current.tenantID current.id updated.parentID := by
      intro p hp
      obtain ⟨hdepartment, hbelow⟩ := hmay hmoved p hp
      refine ⟨(hnodes p).mpr hdepartment, fun hlink => hbelow ?_⟩
      obtain ⟨n, hn⟩ := hlink
      exact ⟨n, (hlinks _ _ _ _).mp hn⟩
    obtain ⟨hdepartments, hclosure, hothers⟩ := move_ok hmay' h
    intro t
    by_cases ht : t = current.tenantID
    · subst ht
      refine Exact.congr ((htree current.tenantID).move hexists (hmay hmoved)) (fun d => ?_)
        (fun d => ?_) fun a d n => ?_
      · rw [IsDepartment, hdepartments]
        exact hnodes d
      · rw [parentOf, hdepartments, ← hparents]
        rfl
      · rw [hclosure]
        simp only [MovedLink, hlinks]
    · refine (htree t).congr (fun id => ?_) fun a d n => ?_
      · rw [hdepartments]
        exact find?_of_put hput (by rwa [htenant])
      · rw [hothers t ht, hlinks]

theorem changeDepartment_tree {department : Department} (htree : ∀ t, Tree db t)
    (hfound : db.departments.find? (current.tenantID, current.id) = some current)
    (hkey : updated.tenantID = current.tenantID ∧ updated.id = current.id)
    (hmay : updated.parentID ≠ current.parentID →
      MayMove db current.tenantID current.id updated.parentID)
    (h : alone store (changeDepartment current updated) db = .ok (department, after)) :
    ∀ t, Tree after t := by
  obtain ⟨_, db₁, hupdate, hmove⟩ := alone_bind_ok h
  obtain ⟨_, db₂, hmoved, hread⟩ := alone_bind_ok hmove
  obtain ⟨_, db₃, hdepth, hlast⟩ := alone_bind_ok hread
  obtain ⟨_, db₄, hadvance, hdone⟩ := alone_bind_ok hlast
  obtain ⟨hput, hsame⟩ := update_ok hupdate
  obtain rfl := withDepth_ok hdepth
  obtain ⟨hdepartments, hclosure⟩ := advance_ok hadvance
  obtain ⟨-, rfl⟩ := alone_pure_ok hdone
  have htree₂ : ∀ t, Tree db₃ t := by
    refine moveIfChanged_tree htree hfound ?_ ?_ hput hsame hmoved
    · exact hkey
    · exact hmay
  intro t
  refine (htree₂ t).congr (fun id => ?_) fun a d n => ?_
  · rw [hdepartments]
  · rw [HasLink, HasLink, hclosure]

theorem updateDepartment_tree {lower : Char → Char} {tenantID id : String}
    {input : UpdateDepartment} {department : Department} (htree : ∀ t, Tree db t)
    (h : alone store (updateDepartment lower tenantID id input) db = .ok (department, after)) :
    ∀ t, Tree after t := by
  unfold updateDepartment at h
  split at h
  · cases h
  · obtain ⟨current, db₁, hget, hchecked⟩ := alone_bind_ok h
    obtain ⟨hfound, rfl⟩ := get_ok hget
    split at hchecked
    · cases hchecked
    · obtain ⟨_, db₂, hmove, hwrites⟩ := alone_bind_ok hchecked
      obtain ⟨rfl, hmay⟩ := requireMove_ok hmove
      split at hwrites
      · obtain rfl := withDepth_ok hwrites
        exact htree
      · obtain ⟨htenant, hid⟩ := department_eq hfound
        rw [← htenant, ← hid] at hfound
        refine changeDepartment_tree htree hfound ?_ hmay hwrites
        exact ⟨rfl, rfl⟩

end Change

section Delete

variable {db after : Db} {tenantID id : String}

theorem removed_department {version : Int} {writes : List Write}
    (h : deleteDepartmentRow db tenantID id version = (1, writes)) :
    IsDepartment db tenantID id ∧
      (view store db writes).departments = db.departments.deleteWhere (fun row =>
        row.tenantID = tenantID && row.id = id) ∧
      ∀ t a d n, HasLink (view store db writes) t a d n ↔
        HasLink db t a d n ∧ ¬(t = tenantID ∧ (a = id ∨ d = id)) := by
  unfold deleteDepartmentRow at h
  split at h
  · simp at h
  · rename_i stored hfound
    split at h
    · simp at h
    · obtain ⟨-, rfl⟩ := Prod.mk.inj h
      obtain ⟨hdepartments, hclosure⟩ := @view_removeLinks (Write.apply db
        (.removeDepartment tenantID id)) tenantID (db.closure.rows.filter fun link =>
          link.tenantID = tenantID && (link.ancestorID = id || link.descendantID = id))
      refine ⟨isDepartment_iff.mpr ⟨stored, hfound⟩, hdepartments, fun t a d n => ?_⟩
      refine (hclosure ⟨t, a, d, n⟩).trans ?_
      refine and_congr_right fun hrow => not_congr ?_
      simp only [List.mem_filter, Bool.and_eq_true, Bool.or_eq_true, decide_eq_true_eq]
      constructor
      · rintro ⟨link, ⟨_, _, hnamed⟩, htenant, hancestor, hdescendant⟩
        exact ⟨htenant, hnamed.imp hancestor.trans hdescendant.trans⟩
      · rintro ⟨htenant, hnamed⟩
        exact ⟨_, ⟨hrow, htenant, hnamed⟩, htenant, rfl, rfl⟩

theorem delete_ok {version : Int} {references : References}
    (h : alone store (delete tenantID id version references) db = .ok ((), after)) :
    (∀ d, parentOf db tenantID d ≠ some id) ∧
      after.departments = db.departments.deleteWhere (fun row =>
        row.tenantID = tenantID && row.id = id) ∧
      ∀ t a d n, HasLink after t a d n ↔
        HasLink db t a d n ∧ ¬(t = tenantID ∧ (a = id ∨ d = id)) := by
  obtain ⟨children, db₁, hcount, hchecked⟩ := alone_bind_ok h
  obtain ⟨_, heffect, rfl⟩ := alone_query_ok hcount
  simp only [store, effect, Except.ok.injEq, Prod.mk.injEq] at heffect
  obtain ⟨rfl, rfl⟩ := heffect
  split at hchecked
  · cases hchecked
  · rename_i hchildren
    split at hchecked
    · cases hchecked
    · obtain ⟨affected, db₂, hdelete, hlast⟩ := alone_bind_ok hchecked
      obtain ⟨writes, heffect, rfl⟩ := alone_query_ok hdelete
      split at hlast
      · rename_i haffected
        obtain ⟨-, rfl⟩ := alone_pure_ok hlast
        subst haffected
        obtain ⟨-, hdepartments, hlinks⟩ := removed_department (Except.ok.inj heffect)
        refine ⟨fun d hparent => hchildren ?_, hdepartments, hlinks⟩
        obtain ⟨row, hrow, hlink⟩ := Option.bind_eq_some_iff.mp hparent
        obtain ⟨-, hid⟩ := parentLink_eq_some.mp hlink
        obtain ⟨hmem, hkey⟩ := Table.find?_eq_some.mp hrow
        refine List.countP_pos_iff.mpr ⟨row, hmem, ?_⟩
        simp [(Prod.mk.inj hkey).1, hid]
      · cases hlast

theorem delete_tree {version : Int} {references : References} (htree : ∀ t, Tree db t)
    (h : alone store (delete tenantID id version references) db = .ok ((), after)) :
    ∀ t, Tree after t := by
  obtain ⟨hleaf, hdepartments, hlinks⟩ := delete_ok h
  have hfind : ∀ t d, after.departments.find? (t, d) =
      if t = tenantID ∧ d = id then none else db.departments.find? (t, d) := by
    intro t d
    rw [hdepartments, Table.find?_deleteWhere]
    cases hrow : db.departments.find? (t, d) with
    | none => simp
    | some row =>
      obtain ⟨rfl, rfl⟩ := Prod.mk.inj (Table.find?_eq_some.mp hrow).2
      by_cases hkey : row.tenantID = tenantID ∧ row.id = id
      · simp [hkey]
      · rw [if_neg hkey, Option.filter_some, if_pos]
        simpa [imp_iff_not_or] using hkey
  intro t
  by_cases ht : t = tenantID
  · subst ht
    refine Exact.congr ((htree t).erase_leaf hleaf) (fun d => ?_) (fun d => ?_) fun a d n => ?_
    · rw [isDepartment_iff, isDepartment_iff, hfind]
      by_cases hd : d = id <;> simp [hd]
    · rw [parentOf, hfind]
      by_cases hd : d = id
      · simp [hd]
      · rw [Function.update_of_ne hd, if_neg fun hkey => hd hkey.2]
        rfl
    · rw [hlinks]
      simp
  · refine (htree t).congr (fun d => ?_) fun a d n => ?_
    · rw [hfind, if_neg fun hkey => ht hkey.1]
    · simp [hlinks, ht]

theorem deleteDepartment_tree {version : Int} {references : References} (htree : ∀ t, Tree db t)
    (h : alone store (deleteDepartment tenantID id version references) db = .ok ((), after)) :
    ∀ t, Tree after t := by
  dsimp only [deleteDepartment] at h
  split at h
  · cases h
  · obtain ⟨current, db₁, hget, hchecked⟩ := alone_bind_ok h
    obtain ⟨-, rfl⟩ := get_ok hget
    split at hchecked
    · cases hchecked
    · obtain ⟨_, db₂, hdelete, hadvance⟩ := alone_bind_ok hchecked
      obtain ⟨hdepartments, hclosure⟩ := advance_ok hadvance
      intro t
      refine (delete_tree htree hdelete t).congr (fun id => ?_) fun a d n => ?_
      · rw [hdepartments]
      · rw [HasLink, HasLink, hclosure]

end Delete

section Runs

variable (lower : Char → Char)

/-- Alone, every call keeps the trees of all tenants. -/
theorem program_tree {operation : Operation} {db after : Db} {department : Option Department}
    (htree : ∀ t, Tree db t)
    (h : alone store (program lower operation) db = .ok (department, after)) :
    ∀ t, Tree after t := by
  cases operation with
  | create tenantID id input =>
    obtain ⟨_, between, hcreate, hdone⟩ := alone_bind_ok h
    obtain ⟨-, rfl⟩ := alone_pure_ok hdone
    exact createDepartment_tree htree hcreate
  | update tenantID id input =>
    obtain ⟨_, between, hupdate, hdone⟩ := alone_bind_ok h
    obtain ⟨-, rfl⟩ := alone_pure_ok hdone
    exact updateDepartment_tree htree hupdate
  | delete tenantID id version references =>
    obtain ⟨_, between, hdelete, hdone⟩ := alone_bind_ok h
    obtain ⟨-, rfl⟩ := alone_pure_ok hdone
    exact deleteDepartment_tree htree hdelete

/-- The calls one after another; one that fails is rolled back. -/
def step (db : Db) (operation : Operation) : Option Db :=
  match alone store (program lower operation) db with
  | .ok (_, after) => some after
  | .error _ => some db

/-- The tables before the first department. -/
def noDepartments (revisions : String → Nat) : Db where
  policyRevisions := revisions

theorem noDepartments_tree (revisions : String → Nat) (tenantID : String) :
    Tree (noDepartments revisions) tenantID := by
  have hnone : parentOf (noDepartments revisions) tenantID = fun _ => none := by
    funext d
    rfl
  refine ⟨fun a d n => ?_, fun n x hcycle => ?_, fun d p hparent => ?_⟩
  · constructor
    · intro hrow
      exact absurd hrow List.not_mem_nil
    · rintro ⟨hdepartment, -⟩
      cases hdepartment
  · rw [hnone] at hcycle
    cases hcycle
  · rw [hnone] at hparent
    cases hparent

/-- The closure table of the tenant is the closure of the parent links, with one row for a
pair, and the links have no cycle. -/
structure ClosureExact (db : Db) (tenantID : String) : Prop where
  rows : ∀ a d n, HasLink db tenantID a d n ↔
    IsDepartment db tenantID d ∧ climb (parentOf db tenantID) n d = some a
  one_row : ∀ a d m n, HasLink db tenantID a d m → HasLink db tenantID a d n → m = n
  acyclic : Acyclic (parentOf db tenantID)

theorem Tree.closureExact {db : Db} {tenantID : String} (h : Tree db tenantID) :
    ClosureExact db tenantID :=
  ⟨h.rows, fun _ _ _ _ => h.row_unique, h.acyclic⟩

/-- Whatever departments are created, changed, moved and deleted, the closure table stays
exact. -/
theorem closure_exact (revisions : String → Nat) (operations : List Operation) (db : Db)
    (h : Passes (step lower) (noDepartments revisions) operations db) (tenantID : String) :
    ClosureExact db tenantID := by
  have hstep : ∀ (s : Db) (operation : Operation) (next : Db), (∀ t, Tree s t) →
      step lower s operation = some next → ∀ t, Tree next t := by
    intro s operation next hs hnext
    unfold step at hnext
    cases hrun : alone store (program lower operation) s with
    | error failure =>
      rw [hrun] at hnext
      exact Option.some.inj hnext ▸ hs
    | ok result =>
      rw [hrun] at hnext
      exact Option.some.inj hnext ▸ program_tree lower hs hrun
  exact (keeps hstep (noDepartments_tree revisions) db h tenantID).closureExact

end Runs

/-- Two trees; a subtree of one moves below the root of the other. -/
def reorganisation : List Operation := [
  .create "acme" "head" { name := "Head" },
  .create "acme" "sales" { parentID := "head", name := "Sales" },
  .create "acme" "north" { parentID := "sales", name := "North" },
  .create "acme" "works" { name := "Works" },
  .update "acme" "sales" { parentID := some "works", version := 1 }]

theorem reorganisation_exact : ∃ db,
    Passes (step Char.toLower) (noDepartments fun _ => 0) reorganisation db ∧
      HasLink db "acme" "works" "north" 2 ∧ ClosureExact db "acme" := by
  have hrun : (run (step Char.toLower) (noDepartments fun _ => 0) reorganisation).map (fun db =>
      db.closure.rows.contains ⟨"acme", "works", "north", 2⟩) = some true := by decide
  obtain ⟨db, hdb, hrow⟩ := Option.map_eq_some_iff.mp hrun
  have hpasses : Passes (step Char.toLower) (noDepartments fun _ => 0) reorganisation db :=
    ⟨reorganisation, [], by simp, hdb⟩
  exact ⟨db, hpasses, List.contains_iff_mem.mp hrow,
    closure_exact Char.toLower _ _ db hpasses "acme"⟩

/-! ## The depth that is shown -/

section Depth

variable {lower : Char → Char} {db after : Db} {tenantID id : String}

theorem step_tree {operation : Operation} (htree : ∀ t, Tree db t)
    (h : step lower db operation = some after) : ∀ t, Tree after t := by
  unfold step at h
  split at h
  · rename_i hrun
    exact Option.some.inj h ▸ program_tree lower htree hrun
  · exact Option.some.inj h ▸ htree

theorem Tree.climb_isSome_iff (h : Tree db tenantID) (hid : IsDepartment db tenantID id) (n : Nat) :
    (climb (parentOf db tenantID) n id).isSome ↔ n < (ancestorLinks db tenantID id).length := by
  rw [← List.length_map DepartmentClosureRow.depth]
  refine Exact.climb_isSome_iff h hid ?_ (fun m => ?_) n
  · refine List.Nodup.map_on (fun link hlink other hother hdepth => ?_)
      (List.Nodup.filter _ (List.Nodup.of_map _ db.closure.nodup))
    obtain ⟨hrow, htenant, hdescendant⟩ := mem_ancestorLinks.mp hlink
    obtain ⟨hrow', rfl, rfl⟩ := mem_ancestorLinks.mp hother
    refine Table.eq_of_key hrow hrow' ?_
    have hancestor := ((h.rows other.ancestorID _ other.depth).mp hrow').2
    rw [← hdepth, ((h.rows link.ancestorID _ link.depth).mp (htenant ▸ hdescendant ▸ hrow)).2] at hancestor
    rw [htenant, hdescendant, Option.some.inj hancestor]
  · simp only [List.mem_map, mem_ancestorLinks]
    constructor
    · rintro ⟨link, ⟨hrow, rfl, rfl⟩, rfl⟩
      exact ⟨link.ancestorID, hrow⟩
    · rintro ⟨a, hrow⟩
      exact ⟨_, ⟨hrow, rfl, rfl⟩, rfl⟩

/-- The department lies so many links below the root, and a call that reads its closure rows
shows it at that depth. -/
structure ShownBelow (db : Db) (row root : DepartmentRow) (n : Nat) : Prop where
  isRoot : root ∈ db.departments ∧ root.tenantID = row.tenantID ∧ root.parentID = ""
  climbs : climb (parentOf db row.tenantID) n row.id = some root.id
  shown : alone store (withDepth row) db = .ok (departmentFromRow row n, db)

/-- Whatever calls were made, every department lies below a root of its tenant and is shown at
the number of links up to it. -/
theorem depth_counts_links (lower : Char → Char) (revisions : String → Nat)
    (operations : List Operation) (db : Db)
    (h : Passes (step lower) (noDepartments revisions) operations db) (row : DepartmentRow)
    (hrow : row ∈ db.departments) : ∃ root n, ShownBelow db row root n := by
  have htree : Tree db row.tenantID :=
    keeps (P := fun s => ∀ t, Tree s t) (fun _ _ _ hs hstep => step_tree hs hstep)
      (noDepartments_tree revisions) db h row.tenantID
  have hid : IsDepartment db row.tenantID row.id := Table.hasKey_iff.mpr ⟨row, hrow, rfl⟩
  have hlevels := htree.climb_isSome_iff hid
  obtain ⟨n, hn⟩ : ∃ n, (ancestorLinks db row.tenantID row.id).length = n + 1 :=
    Nat.exists_eq_add_one.mpr ((hlevels 0).mp rfl)
  obtain ⟨top, htop⟩ := Option.isSome_iff_exists.mp ((hlevels n).mpr (by omega))
  obtain ⟨root, hfound⟩ := isDepartment_iff.mp (Exact.climb_node htree hid htop)
  obtain ⟨hmem, hkey⟩ := Table.find?_eq_some.mp hfound
  obtain ⟨htenant, rfl⟩ := Prod.mk.inj hkey
  refine ⟨root, n, ⟨hmem, htenant, ?_⟩, htop, ?_⟩
  · -- a parent of the root would be one more level
    by_contra hparent
    have habove : (climb (parentOf db row.tenantID) (n + 1) row.id).isSome := by
      rw [climb_add, htop, Option.bind_some, climb, parentOf, hfound, Option.bind_some, parentLink,
        if_neg hparent]
      rfl
    have hlt := (hlevels (n + 1)).mp habove
    omega
  · have hdepth : ((ancestorLinks db row.tenantID row.id).length : Int) - 1 = n := by omega
    exact congrArg (fun depth => Except.ok (departmentFromRow row depth, db)) hdepth

theorem depth_counts_reorganised : ∃ db row root n,
    Passes (step Char.toLower) (noDepartments fun _ => 0) reorganisation db ∧
      row ∈ db.departments ∧ row.id = "north" ∧ ShownBelow db row root n := by
  have hrun : (run (step Char.toLower) (noDepartments fun _ => 0) reorganisation).map (fun db =>
      db.departments.hasKey ("acme", "north")) = some true := by decide
  obtain ⟨db, hdb, hkey⟩ := Option.map_eq_some_iff.mp hrun
  obtain ⟨row, hrow, hid⟩ := Table.hasKey_iff.mp hkey
  have hpasses : Passes (step Char.toLower) (noDepartments fun _ => 0) reorganisation db :=
    ⟨reorganisation, [], by simp, hdb⟩
  obtain ⟨root, n, hshown⟩ := depth_counts_links Char.toLower _ _ db hpasses row hrow
  exact ⟨db, row, root, n, hpasses, hrow, (Prod.mk.inj hid).2, hshown⟩

end Depth

end DepartmentTree
