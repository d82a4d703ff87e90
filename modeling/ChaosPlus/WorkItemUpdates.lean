import ChaosPlus.WorkItems

/-!
# Lost updates of a work item

What an item should hold after a run of operations is recorded beside it: every committed
operation sets its own fields and no others. The item holds it exactly when no whole-row
write falls on a row that has moved, in a field the write does not set, since it was read.
-/
namespace WorkItemUpdates

open KeyedTable WorkItems

/-- Sets the fields that the patch mentions. -/
def overwrite (it : WorkItem) (patch : WorkItemPatch) : WorkItem :=
  { it with
    type := patch.type.getD it.type
    title := patch.title.getD it.title
    description := patch.description.getD it.description
    status := patch.status.getD it.status
    parentID := patch.parentID.getD it.parentID
    estimateHours := patch.estimateHours.getD it.estimateHours
    spentHours := patch.spentHours.getD it.spentHours
    progress := patch.progress.getD it.progress
    workflowRunID := patch.workflowRunID.getD it.workflowRunID
    assigneeAgent := patch.assigneeAgent.getD it.assigneeAgent
    channelID := patch.channelID.getD it.channelID }

/-- The fields a patch sets: an empty title or status sets nothing. -/
def effective (patch : WorkItemPatch) : WorkItemPatch :=
  { patch with title := nonEmpty patch.title, status := nonEmpty patch.status }

theorem patched_eq_overwrite (existing : WorkItem) (patch : WorkItemPatch) :
    patched existing patch = overwrite existing (effective patch) := rfl

/-- The fields an execute sets. -/
def bindPatch (it : WorkItem) : WorkItemPatch :=
  { status := some it.status, workflowRunID := some it.workflowRunID }

def setFields (record : Items) (written : Bool) (id : String) (patch : WorkItemPatch) : Items :=
  if written then rewrite record id fun it => overwrite it patch else record

/-- What the items should hold after the step: the committed operation's own fields change. -/
def recorded (s : State) (record : Items) : Event → Items
  | .create body id => record.insertIgnore (created body id)
  | .write i written =>
    match s.operations[i]? with
    | some (.updating existing patch) => setFields record written existing.id (effective patch)
    | _ => record
  | .bind i written =>
    match s.operations[i]? with
    | some (.launched it _) => setFields record written it.id (bindPatch it)
    | _ => record
  | .project i spent written =>
    match s.operations[i]? with
    | some (.projecting it _ _ progress) =>
      setFields record written it.id
        { progress := some progress, status := some "in_progress", spentHours := some spent }
    | _ => record
  | .stall i spent written =>
    match s.operations[i]? with
    | some (.stalling it _ lastProgress) =>
      setFields record written it.id
        { progress := some lastProgress, status := some "review", spentHours := some spent }
    | _ => record
  | .finish i spent written =>
    match s.operations[i]? with
    | some (.finishing it _ final finalProgress) =>
      setFields record written it.id
        { progress := some finalProgress, status := some final, spentHours := some spent }
    | _ => record
  -- the estimate is set only where there is none
  | .calibrate i written =>
    match s.operations[i]? with
    | some (.calibrating it spent) => if written then calibrateEstimate record it.id spent else record
    | _ => record
  | .rollup i written =>
    match s.operations[i]? with
    | some (.rollingUp parentID rollup) =>
      setFields record written parentID
        { estimateHours := some rollup.estimateHours, spentHours := some rollup.spentHours,
          progress := some rollup.progress }
    | _ => record
  | .delete id => deleteWorkItem record id
  | .restart => reconcileStaleRunning record
  | _ => record

/-- The program's state and the record beside it. -/
structure Recorded where
  state : State
  record : Items

def stepRecorded (s : Recorded) (e : Event) : Option Recorded :=
  (step s.state e).map fun next => ⟨next, recorded s.state s.record e⟩

def start : Recorded := ⟨initial, initial.items⟩

/-- Every field holds what the last committed operation that set it gave it. -/
def NothingLost (s : Recorded) : Prop := s.state.items = s.record

/-- The row still holds what was read, in every field that the patch does not set. -/
structure Unmoved (patch : WorkItemPatch) (read row : WorkItem) : Prop where
  type : patch.type = none → row.type = read.type
  title : patch.title = none → row.title = read.title
  description : patch.description = none → row.description = read.description
  status : patch.status = none → row.status = read.status
  parentID : patch.parentID = none → row.parentID = read.parentID
  estimateHours : patch.estimateHours = none → row.estimateHours = read.estimateHours
  spentHours : patch.spentHours = none → row.spentHours = read.spentHours
  progress : patch.progress = none → row.progress = read.progress
  workflowRunID : patch.workflowRunID = none → row.workflowRunID = read.workflowRunID
  assigneeAgent : patch.assigneeAgent = none → row.assigneeAgent = read.assigneeAgent
  channelID : patch.channelID = none → row.channelID = read.channelID
  entityID : row.entityID = read.entityID

/-- A whole-row write that takes effect falls on an unmoved row. -/
def Safe (s : State) : Event → Prop
  | .write i written => ∀ existing patch, s.operations[i]? = some (.updating existing patch) →
      written = true → ∀ row, s.items.find? existing.id = some row →
      Unmoved (effective patch) existing row
  | .bind i written => ∀ it r, s.operations[i]? = some (.launched it r) →
      written = true → ∀ row, s.items.find? it.id = some row → Unmoved (bindPatch it) it row
  | _ => True

theorem getD_eq_iff {α : Type} {new : Option α} {read row : α} :
    new.getD read = new.getD row ↔ (new = none → row = read) := by
  cases new <;> simp [eq_comm]

theorem overwrite_eq_iff {patch : WorkItemPatch} {read row : WorkItem} (hid : row.id = read.id) :
    overwrite read patch = overwrite row patch ↔ Unmoved patch read row := by
  simp only [overwrite, WorkItem.mk.injEq, getD_eq_iff, hid, true_and]
  constructor
  · rintro ⟨h1, h2, h3, h4, h5, h6, h7, h8, h9, h10, h11, h12⟩
    exact ⟨h1, h2, h3, h4, h5, h6, h7, h8, h9, h10, h11, h12.symm⟩
  · rintro ⟨h1, h2, h3, h4, h5, h6, h7, h8, h9, h10, h11, h12⟩
    exact ⟨h1, h2, h3, h4, h5, h6, h7, h8, h9, h10, h11, h12.symm⟩

theorem rewrite_eq_iff {items : Items} {id : String} {f g : WorkItem → WorkItem} :
    rewrite items id f = rewrite items id g ↔
      ∀ row, items.find? id = some row → { f row with id } = { g row with id } := by
  constructor
  · intro heq row hrow
    have hf := find?_rewrite_self items id f
    rw [heq, find?_rewrite_self, hrow] at hf
    exact (Option.some.inj hf).symm
  · intro hsame
    refine Table.ext (List.map_congr_left fun row hrow => ?_)
    by_cases hid : row.id = id
    · have hfound := hsame row (Table.find?_eq_some.mpr ⟨hrow, hid⟩)
      subst hid
      simpa using hfound
    · simp [hid]

/-- The whole-row write sets its own fields alone exactly if the row has not moved. -/
theorem updateWorkItem_eq_iff {items : Items} {read : WorkItem} {patch : WorkItemPatch}
    (written : Bool) : (if written then updateWorkItem items (overwrite read patch) else items) =
      setFields items written read.id patch ↔
      (written = true → ∀ row, items.find? read.id = some row → Unmoved patch read row) := by
  cases written with
  | false => exact iff_of_true rfl fun hwritten => absurd hwritten (by simp)
  | true =>
    rw [setFields, if_pos rfl, if_pos rfl, updateWorkItem]
    rw [show (overwrite read patch).id = read.id from rfl, rewrite_eq_iff]
    constructor
    · intro hsame _ row hrow
      have hid := find?_id hrow
      refine (overwrite_eq_iff hid).mp ?_
      have heq := hsame row hrow
      have hread : ({ overwrite read patch with id := read.id } : WorkItem) = overwrite read patch :=
        rfl
      have hback : ({ overwrite row patch with id := read.id } : WorkItem) = overwrite row patch := by
        rw [← hid]
        rfl
      rwa [hread, hback] at heq
    · intro hunmoved row hrow
      rw [(overwrite_eq_iff (find?_id hrow)).mpr (hunmoved rfl row hrow)]

theorem recorded_quiet {s : State} {record : Items} {e : Event} (h : e.quiet = true) :
    recorded s record e = record := by
  cases e <;> first | rfl | cases h

/-- From a state that has lost nothing, a step loses nothing exactly if it is safe. -/
theorem step_items_eq_iff {s next : State} {e : Event} (hstep : step s e = some next) :
    next.items = recorded s s.items e ↔ Safe s e := by
  have hcommits := step_commits hstep
  generalize next.items = items at hcommits
  cases hcommits with
  | quiet hquiet =>
    refine iff_of_true (recorded_quiet hquiet).symm ?_
    cases e <;> first | exact trivial | cases hquiet
  | @wrote i existing patch written hop =>
    rw [patched_eq_overwrite]
    simp only [recorded, hop, Safe]
    rw [updateWorkItem_eq_iff]
    constructor
    · rintro hunmoved existing' patch' heq
      obtain ⟨rfl, rfl⟩ : existing = existing' ∧ patch = patch' := by simpa using heq
      exact hunmoved
    · intro hsafe
      exact hsafe existing patch rfl
  | @bound i it r written hop =>
    simp only [recorded, hop, Safe]
    have hiff := @updateWorkItem_eq_iff s.items it (bindPatch it) written
    refine hiff.trans ?_
    constructor
    · rintro hunmoved it' r' heq
      obtain ⟨rfl, rfl⟩ : it = it' ∧ r = r' := by simpa using heq
      exact hunmoved
    · intro hsafe
      exact hsafe it r rfl
  | projected spent written hop =>
    refine iff_of_true ?_ trivial
    simp only [recorded, hop]
    rfl
  | stalled spent written hop =>
    refine iff_of_true ?_ trivial
    simp only [recorded, hop]
    rfl
  | finished spent written hop =>
    refine iff_of_true ?_ trivial
    simp only [recorded, hop]
    rfl
  | calibrated written hop =>
    refine iff_of_true ?_ trivial
    simp only [recorded, hop]
  | rolledUp written hop =>
    refine iff_of_true ?_ trivial
    simp only [recorded, hop]
    rfl
  | created _ _ _ => exact iff_of_true rfl trivial
  | deleted _ => exact iff_of_true rfl trivial
  | restarted => exact iff_of_true rfl trivial

/-- Every field of every item holds, in every state of a run, what the last committed
operation that set it gave it, exactly if every whole-row write of the run falls on a row
that has not moved since it was read. -/
theorem updates_not_lost_iff (events : List Event) :
    (∀ s, StepRuns.Passes stepRecorded start events s → NothingLost s) ↔
      ∀ s e u, StepRuns.Takes stepRecorded start events s e u → Safe s.state e := by
  refine StepRuns.keeps_iff_safe (fun s e u hkept hstep => ?_) rfl
  obtain ⟨next, hnext, rfl⟩ := Option.map_eq_some_iff.mp hstep
  have hkept : s.state.items = s.record := hkept
  show next.items = recorded s.state s.record e ↔ Safe s.state e
  rw [← hkept]
  exact step_items_eq_iff hnext

/-- A new title is written over the progress that the run projected after the row was read. -/
theorem title_reverts_progress :
    ¬ ∀ events s, StepRuns.Passes stepRecorded start events s → NothingLost s := by
  intro hall
  have hrun : (StepRuns.run stepRecorded start [.create { id := "", title := "ship it" } "wi-1",
      .execute "wi-1", .launch 0 "0a", .bind 0 true, .update "wi-1" { title := some "ship it now" },
      .observe 0 40, .project 0 1 true, .write 1 true]).map (fun s =>
        ((s.state.items.find? "wi-1").map WorkItem.progress,
          (s.record.find? "wi-1").map WorkItem.progress)) = some (some 0, some 40) := by
    decide
  obtain ⟨s, hs, hprogress⟩ := Option.map_eq_some_iff.mp hrun
  have hlost := hall _ s ⟨_, [], (List.append_nil _).symm, hs⟩
  have hlost : s.state.items = s.record := hlost
  rw [hlost] at hprogress
  obtain ⟨hheld, hrecorded⟩ := Prod.mk.inj hprogress
  simp [hheld] at hrecorded

end WorkItemUpdates
