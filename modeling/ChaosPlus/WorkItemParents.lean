import ChaosPlus.ParentForest
import ChaosPlus.WorkItems

/-!
# The tree of work items

An update may hang an item below any other: only the item itself is refused. The parent
links stay acyclic exactly when no whole-row write hangs an item below itself.
-/
namespace WorkItemParents

open KeyedTable ParentForest WorkItems

/-- The parent link of a row; the empty text is no parent. -/
def link (parentID : String) : Option String := if parentID = "" then none else some parentID

def parentOf (items : Items) (id : String) : Option String :=
  (items.find? id).bind fun it => link it.parentID

/-- The parent to be written is neither the item nor below it. -/
def Fits (items : Items) (id parentID : String) : Prop :=
  parentID ≠ "" → ∀ n, climb (parentOf items) n parentID ≠ some id

/-- Every whole-row write that takes effect hangs its item where it fits. -/
def Safe (s : State) : Event → Prop
  | .write i written => ∀ existing patch, s.operations[i]? = some (.updating existing patch) →
      written = true → s.items.hasKey existing.id = true →
      Fits s.items existing.id (patched existing patch).parentID
  | .bind i written => ∀ it r, s.operations[i]? = some (.launched it r) →
      written = true → s.items.hasKey it.id = true → Fits s.items it.id it.parentID
  | _ => True

/-! The parent links after each kind of write. -/

theorem parentOf_rewrite (items : Items) (id : String) {f : WorkItem → WorkItem}
    (hf : ∀ it, (f it).parentID = it.parentID) : parentOf (rewrite items id f) = parentOf items := by
  funext k
  unfold parentOf
  rw [find?_rewrite, Option.bind_map]
  refine Option.bind_congr fun it _ => ?_
  rw [Function.comp_apply]
  split_ifs
  · rw [hf]
  · rfl

theorem parentOf_updateWorkItem (items : Items) (w : WorkItem) (hkey : items.hasKey w.id = true) :
    parentOf (updateWorkItem items w) = Function.update (parentOf items) w.id (link w.parentID) := by
  funext k
  unfold parentOf updateWorkItem
  by_cases hk : k = w.id
  · subst hk
    rw [find?_rewrite_self, Function.update_self]
    obtain ⟨it, hit⟩ := Option.isSome_iff_exists.mp (Table.find?_isSome.trans hkey)
    rw [hit]
    rfl
  · rw [find?_rewrite_other items hk, Function.update_of_ne hk]

theorem parentOf_updateWorkItem_absent (items : Items) (w : WorkItem)
    (hkey : items.hasKey w.id = false) : parentOf (updateWorkItem items w) = parentOf items := by
  funext k
  rw [parentOf, parentOf, updateWorkItem, find?_rewrite_absent hkey]

theorem parentOf_reconcileStaleRunning (items : Items) :
    parentOf (reconcileStaleRunning items) = parentOf items := by
  funext k
  unfold parentOf reconcileStaleRunning
  rw [Table.find?_updateWhere, Option.bind_map]
  refine Option.bind_congr fun it _ => ?_
  rw [Function.comp_apply]
  split_ifs <;> rfl

theorem parentOf_deleteWorkItem (items : Items) (id : String) :
    parentOf (deleteWorkItem items id) = Function.update (parentOf items) id none := by
  funext k
  unfold parentOf
  rw [find?_deleteWorkItem]
  by_cases hk : k = id
  · simp [hk]
  · simp [hk]

theorem parentOf_created {s : State} {body : WorkItem} {id : String} (hfresh : s.fresh id = true) :
    parentOf (s.items.insertIgnore (created body id)) =
      Function.update (parentOf s.items) id (link body.parentID) := by
  funext k
  unfold parentOf
  rw [find?_created hfresh]
  by_cases hk : id = k
  · subst hk
    rw [if_pos rfl, Function.update_self]
    rfl
  · rw [if_neg hk, Function.update_of_ne (Ne.symm hk)]

theorem parentOf_eq_some {items : Items} {id p : String} (h : parentOf items id = some p) :
    ∃ it ∈ items, it.id = id ∧ it.parentID = p := by
  obtain ⟨it, hit, hlink⟩ := Option.bind_eq_some_iff.mp h
  obtain ⟨hmem, hid⟩ := Table.find?_eq_some.mp hit
  refine ⟨it, hmem, hid, ?_⟩
  unfold link at hlink
  split_ifs at hlink
  exact Option.some.inj hlink

/-- No climb reaches an id that nothing names as its parent. -/
theorem outside_of_fresh {s : State} {id p : String} (hfresh : s.fresh id = true) (hp : p ≠ id)
    (n : Nat) : climb (parentOf s.items) n p ≠ some id := by
  intro hclimb
  obtain ⟨n, rfl⟩ : ∃ m, n = m + 1 := by
    cases n with
    | zero => exact absurd (Option.some.inj hclimb) hp
    | succ n => exact ⟨n, rfl⟩
  rw [climb_add] at hclimb
  obtain ⟨y, -, hlast⟩ := Option.bind_eq_some_iff.mp hclimb
  have hlink : parentOf s.items y = some id := by simpa [climb] using hlast
  obtain ⟨it, hmem, -, hparent⟩ := parentOf_eq_some hlink
  have hother := List.all_eq_true.mp (Bool.and_eq_true_iff.mp hfresh).1 it hmem
  simp [hparent] at hother

/-- A write of one parent link keeps the links acyclic exactly if it fits. -/
theorem acyclic_link_iff {items : Items} (h : Acyclic (parentOf items)) (id parentID : String) :
    Acyclic (Function.update (parentOf items) id (link parentID)) ↔ Fits items id parentID := by
  by_cases hempty : parentID = ""
  · subst hempty
    exact iff_of_true (h.cut id) fun hne => absurd rfl hne
  · have hlink : link parentID = some parentID := if_neg hempty
    rw [hlink, acyclic_update_iff h]
    exact ⟨fun houtside _ => houtside, fun hfits => hfits hempty⟩

theorem acyclic_updateWorkItem_iff {items : Items} (h : Acyclic (parentOf items)) (w : WorkItem)
    (written : Bool) :
    Acyclic (parentOf (if written then updateWorkItem items w else items)) ↔
      (written = true → items.hasKey w.id = true → Fits items w.id w.parentID) := by
  cases written with
  | false => exact iff_of_true h fun hwritten => absurd hwritten (by simp)
  | true =>
    rw [if_pos rfl]
    cases hkey : items.hasKey w.id with
    | false =>
      rw [parentOf_updateWorkItem_absent items w hkey]
      exact iff_of_true h fun _ hpresent => absurd hpresent (by simp)
    | true =>
      rw [parentOf_updateWorkItem items w hkey, acyclic_link_iff h]
      exact ⟨fun hfits _ _ => hfits, fun hfits => hfits rfl rfl⟩

theorem parentOf_written {items items' : Items} (written : Bool)
    (h : parentOf items' = parentOf items) :
    parentOf (if written then items' else items) = parentOf items := by
  cases written with
  | false => rfl
  | true => exact h

/-- One step keeps the links acyclic exactly if it is safe. -/
theorem step_acyclic_iff {s next : State} {e : Event} (h : Acyclic (parentOf s.items))
    (hstep : step s e = some next) : Acyclic (parentOf next.items) ↔ Safe s e := by
  have hsame : ∀ items : Items, parentOf items = parentOf s.items →
      Acyclic (parentOf items) := by
    intro items heq
    rw [heq]
    exact h
  have hcommits := step_commits hstep
  generalize next.items = items at hcommits
  cases hcommits with
  | quiet hquiet =>
    refine iff_of_true h ?_
    cases e <;> first | exact trivial | cases hquiet
  | created htitle hfresh hparent =>
    refine iff_of_true ?_ trivial
    rw [parentOf_created hfresh]
    exact (acyclic_link_iff h _ _).mpr fun _ => outside_of_fresh hfresh hparent
  | @wrote i existing patch written hop =>
    rw [acyclic_updateWorkItem_iff h]
    constructor
    · rintro hfits existing' patch' hop'
      obtain ⟨rfl, rfl⟩ : existing = existing' ∧ patch = patch' := by simpa [hop] using hop'
      exact hfits
    · intro hsafe
      exact hsafe existing patch hop
  | @bound i it r written hop =>
    rw [acyclic_updateWorkItem_iff h]
    constructor
    · rintro hfits it' r' hop'
      obtain ⟨rfl, rfl⟩ : it = it' ∧ r = r' := by simpa [hop] using hop'
      exact hfits
    · intro hsafe
      exact hsafe it r hop
  | projected spent written _ =>
    exact iff_of_true (hsame _ (parentOf_written written (parentOf_rewrite _ _ fun _ => rfl))) trivial
  | stalled spent written _ =>
    exact iff_of_true (hsame _ (parentOf_written written (parentOf_rewrite _ _ fun _ => rfl))) trivial
  | finished spent written _ =>
    exact iff_of_true (hsame _ (parentOf_written written (parentOf_rewrite _ _ fun _ => rfl))) trivial
  | calibrated written _ =>
    refine iff_of_true (hsame _ (parentOf_written written (parentOf_rewrite _ _ fun it => ?_))) trivial
    split_ifs <;> rfl
  | rolledUp written _ =>
    exact iff_of_true (hsame _ (parentOf_written written (parentOf_rewrite _ _ fun _ => rfl))) trivial
  | deleted id =>
    refine iff_of_true ?_ trivial
    rw [parentOf_deleteWorkItem]
    exact h.cut id
  | restarted => exact iff_of_true (hsame _ (parentOf_reconcileStaleRunning s.items)) trivial

theorem acyclic_initial : Acyclic (parentOf initial.items) := by
  intro n x hclimb
  have hnone : parentOf initial.items x = none := rfl
  rw [climb, hnone] at hclimb
  cases hclimb

/-- The parent links stay acyclic through a run exactly if every whole-row write of it hangs
its item neither on the item itself nor below it. -/
theorem parents_stay_forest_iff (events : List Event) :
    (∀ t, StepRuns.Passes step initial events t → Acyclic (parentOf t.items)) ↔
      ∀ t e u, StepRuns.Takes step initial events t e u → Safe t e :=
  StepRuns.keeps_iff_safe (fun _ _ _ h hstep => step_acyclic_iff h hstep) acyclic_initial

/-- Two items are hung below each other, one request after the other. -/
theorem mutual_parents :
    ¬ ∀ events t, StepRuns.Passes step initial events t → Acyclic (parentOf t.items) := by
  intro hall
  have hrun : (StepRuns.run step initial [.create { id := "", title := "a" } "wi-a",
      .create { id := "", title := "b" } "wi-b", .update "wi-a" { parentID := some "wi-b" },
      .write 0 true, .update "wi-b" { parentID := some "wi-a" }, .write 1 true]).map
        (fun t => climb (parentOf t.items) 2 "wi-a") = some (some "wi-a") := by
    decide
  obtain ⟨t, ht, hcycle⟩ := Option.map_eq_some_iff.mp hrun
  exact hall _ t ⟨_, [], (List.append_nil _).symm, ht⟩ 1 "wi-a" hcycle

end WorkItemParents
