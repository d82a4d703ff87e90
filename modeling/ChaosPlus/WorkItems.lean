import ChaosPlus.KeyedTable
import ChaosPlus.StepRuns
import Mathlib.Algebra.Ring.Rat

/-!
# Work items and their runs

A work item is read, patched and written back whole by a request, launched as a workflow run,
and written column by column while the run is tracked. Each read and each write is a step of
its own, and the steps of other requests and trackers may come in between.
-/
namespace WorkItems

open KeyedTable

/-- Hours are kept as exact numbers. -/
structure WorkItem where
  id : String
  type : String := "task"
  title : String
  description : String := ""
  status : String := "open"
  parentID : String := ""
  estimateHours : Rat := 0
  spentHours : Rat := 0
  progress : Int := 0
  workflowRunID : String := ""
  assigneeAgent : String := ""
  channelID : String := ""
  entityID : String := ""
  deriving DecidableEq, Repr

structure WorkItemPatch where
  type : Option String := none
  title : Option String := none
  description : Option String := none
  status : Option String := none
  parentID : Option String := none
  estimateHours : Option Rat := none
  spentHours : Option Rat := none
  progress : Option Int := none
  workflowRunID : Option String := none
  assigneeAgent : Option String := none
  channelID : Option String := none
  deriving DecidableEq, Repr

abbrev Items := Table WorkItem.id

/-- An empty text in the patch leaves the old one. -/
def nonEmpty (text : Option String) : Option String := text.filter fun value => value ≠ ""

/-- The patched copy of the row that was read. -/
def patched (existing : WorkItem) (patch : WorkItemPatch) : WorkItem :=
  { existing with
    type := patch.type.getD existing.type
    title := (nonEmpty patch.title).getD existing.title
    description := patch.description.getD existing.description
    status := (nonEmpty patch.status).getD existing.status
    parentID := patch.parentID.getD existing.parentID
    estimateHours := patch.estimateHours.getD existing.estimateHours
    spentHours := patch.spentHours.getD existing.spentHours
    progress := patch.progress.getD existing.progress
    workflowRunID := patch.workflowRunID.getD existing.workflowRunID
    assigneeAgent := patch.assigneeAgent.getD existing.assigneeAgent
    channelID := patch.channelID.getD existing.channelID }

def applyPatch (existing : WorkItem) (patch : WorkItemPatch) : Except String WorkItem :=
  if patch.parentID = some existing.id then .error "工作项不能以自己为父级"
  else .ok (patched existing patch)

/-! The writes of the store. -/

/-- One row is changed in place. -/
def rewrite (items : Items) (id : String) (f : WorkItem → WorkItem) : Items :=
  items.updateWhere (fun it => it.id = id) (fun it => { f it with id := it.id }) fun _ => rfl

/-- Every column is written. -/
def updateWorkItem (items : Items) (w : WorkItem) : Items := rewrite items w.id fun _ => w

def updateWorkItemRun (items : Items) (id : String) (progress : Int) (status : String)
    (spentHours : Rat) : Items :=
  rewrite items id fun it => { it with progress, status, spentHours }

/-- The time spent becomes the estimate of an item that has none. -/
def calibrateEstimate (items : Items) (id : String) (spentHours : Rat) : Items :=
  rewrite items id fun it => if it.estimateHours ≤ 0 then { it with estimateHours := spentHours } else it

structure Rollup where
  estimateHours : Rat
  spentHours : Rat
  progress : Int
  deriving DecidableEq, Repr

/-- The sums and the mean over the children, if there are any. -/
def sumChildren (items : Items) (parentID : String) : Option Rollup :=
  let kids := items.rows.filter fun it => it.parentID = parentID
  if parentID = "" ∨ kids = [] then none
  else some {
    estimateHours := (kids.map WorkItem.estimateHours).sum
    spentHours := (kids.map WorkItem.spentHours).sum
    progress := (kids.map WorkItem.progress).sum.tdiv kids.length }

def rollupParent (items : Items) (parentID : String) (rollup : Rollup) : Items :=
  rewrite items parentID fun it => { it with
    estimateHours := rollup.estimateHours
    spentHours := rollup.spentHours
    progress := rollup.progress }

def reconcileStaleRunning (items : Items) : Items :=
  items.updateWhere (fun it => it.status = "in_progress") (fun it => { it with status := "review" })
    fun _ => rfl

def deleteWorkItem (items : Items) (id : String) : Items := items.deleteWhere fun it => it.id = id

inductive RunStatus where
  | running
  | waitingApproval
  | completed
  | failed
  | paused
  deriving DecidableEq, Repr

def RunStatus.terminal : RunStatus → Bool
  | .completed | .failed | .paused => true
  | .running | .waitingApproval => false

/-- A launched run and the work item it was launched for. -/
structure Run where
  id : String
  item : String
  status : RunStatus
  deriving DecidableEq, Repr

def Run.live (run : Run) : Bool := !run.status.terminal

/-- A request or tracker between two of its steps. What an execute holds in `bound` is
history: the item's runs that were in the row when it was read. -/
inductive Operation where
  | updating (existing : WorkItem) (patch : WorkItemPatch)
  | executing (it : WorkItem) (bound : List Nat)
  | launched (it : WorkItem) (run : Nat)
  | tracking (it : WorkItem) (run deadline : Nat) (lastProgress : Int)
  | projecting (it : WorkItem) (run deadline : Nat) (progress : Int)
  | stalling (it : WorkItem) (run : Nat) (lastProgress : Int)
  | finishing (it : WorkItem) (run : Nat) (final : String) (finalProgress : Int)
  | calibrating (it : WorkItem) (spent : Rat)
  | summing (parentID : String)
  | rollingUp (parentID : String) (rollup : Rollup)
  | done
  deriving DecidableEq, Repr

structure State where
  now : Nat
  seq : Nat
  items : Items
  runs : List Run
  operations : List Operation

def initial : State := ⟨0, 0, .empty, [], []⟩

/-- Six hours, in seconds. -/
def trackRunMaxDuration : Nat := 6 * 60 * 60

/-- `written` tells whether the database took the write. -/
inductive Event where
  | tick
  | create (body : WorkItem) (id : String)
  | update (id : String) (patch : WorkItemPatch)
  | write (i : Nat) (written : Bool)
  | execute (id : String)
  | launch (i : Nat) (suffix : String)
  | launchFails (i : Nat)
  | bind (i : Nat) (written : Bool)
  | runStatus (r : Nat) (status : RunStatus)
  | observe (i : Nat) (progress : Int)
  | project (i : Nat) (spent : Rat) (written : Bool)
  | stall (i : Nat) (spent : Rat) (written : Bool)
  | finish (i : Nat) (spent : Rat) (written : Bool)
  | calibrate (i : Nat) (written : Bool)
  | sumKids (i : Nat)
  | rollup (i : Nat) (written : Bool)
  | delete (id : String)
  | restart
  deriving DecidableEq, Repr

namespace State

def begin (s : State) (operation : Operation) : State :=
  { s with operations := s.operations ++ [operation] }

def proceed (s : State) (i : Nat) (operation : Operation) : State :=
  { s with operations := s.operations.set i operation }

def commit (s : State) (written : Bool) (items : Items) : State :=
  if written then { s with items } else s

/-- A random id is one that no item, parent link or run names. -/
def fresh (s : State) (id : String) : Bool :=
  s.items.rows.all (fun it => it.id ≠ id && it.parentID ≠ id) && s.runs.all fun run => run.item ≠ id

/-- The run was launched and its item's row does not hold it yet. -/
def unbound (s : State) (r : Nat) : Bool :=
  s.operations.any fun operation => match operation with
    | .launched _ run => run = r
    | _ => false

def boundRuns (s : State) (id : String) : List Nat :=
  (List.range s.runs.length).filter fun r =>
    (s.runs[r]?.any fun run => run.item = id) && !s.unbound r

end State

/-- The new row of a create request. -/
def created (body : WorkItem) (id : String) : WorkItem :=
  { body with
    id
    type := if body.type = "" then "task" else body.type
    status := if body.status = "" then "open" else body.status }

/-- An item that may not be executed again. -/
def WorkItem.executing (it : WorkItem) : Bool :=
  it.status = "in_progress" && it.workflowRunID ≠ ""

def runID (seq : Nat) (suffix : String) : String := "run-" ++ (toString seq ++ ("-" ++ suffix))

/-- The state and progress a finished run leaves. -/
def finalProjection (status : RunStatus) (lastProgress : Int) : String × Int :=
  if status = .failed ∨ status = .paused then ("review", lastProgress) else ("done", 100)

/-- What the tracker of a run does next. -/
def observed (s : State) (it : WorkItem) (r deadline : Nat) (lastProgress progress : Int)
    (status : RunStatus) : Operation :=
  if status.terminal then
    .finishing it r (finalProjection status lastProgress).1 (finalProjection status lastProgress).2
  else if deadline < s.now then .stalling it r lastProgress
  else .projecting it r deadline progress

/-- A refused request is no step. -/
def step (s : State) : Event → Option State
  | .tick => some { s with now := s.now + 1 }
  | .create body id =>
    if body.title ≠ "" ∧ s.fresh id ∧ body.parentID ≠ id then
      some { s with items := s.items.insertIgnore (created body id) }
    else none
  | .update id patch =>
    match s.items.find? id with
    | none => none
    | some existing =>
      match applyPatch existing patch with
      | .error _ => none
      | .ok _ => some (s.begin (.updating existing patch))
  | .write i written =>
    match s.operations[i]? with
    | some (.updating existing patch) =>
      some ((s.proceed i .done).commit written (updateWorkItem s.items (patched existing patch)))
    | _ => none
  | .execute id =>
    match s.items.find? id with
    | none => none
    | some it => if it.executing then none else some (s.begin (.executing it (s.boundRuns id)))
  | .launch i suffix =>
    match s.operations[i]? with
    | some (.executing it _) =>
      let run : Run := ⟨runID (s.seq + 1) suffix, it.id, .running⟩
      let bound := { it with status := "in_progress", workflowRunID := run.id }
      some { s.proceed i (.launched bound s.runs.length) with
        seq := s.seq + 1
        runs := s.runs ++ [run] }
    | _ => none
  | .launchFails i =>
    match s.operations[i]? with
    | some (.executing _ _) => some (s.proceed i .done)
    | _ => none
  | .bind i written =>
    match s.operations[i]? with
    | some (.launched it r) =>
      some ((s.proceed i (.tracking it r (s.now + trackRunMaxDuration) 0)).commit written
        (updateWorkItem s.items it))
    | _ => none
  | .runStatus r status =>
    match s.runs[r]? with
    | some run =>
      if run.live ∧ status ≠ .running then some { s with runs := s.runs.set r { run with status } }
      else none
    | none => none
  -- The tracker polls the run, projects it on the item and gives up after six hours.
  | .observe i progress =>
    match s.operations[i]? with
    | some (.tracking it r deadline lastProgress) =>
      s.runs[r]?.map fun run =>
        s.proceed i (observed s it r deadline lastProgress progress run.status)
    | _ => none
  | .project i spent written =>
    match s.operations[i]? with
    | some (.projecting it r deadline progress) =>
      some ((s.proceed i (.tracking it r deadline progress)).commit written
        (updateWorkItemRun s.items it.id progress "in_progress" spent))
    | _ => none
  | .stall i spent written =>
    match s.operations[i]? with
    | some (.stalling it _ lastProgress) =>
      some ((s.proceed i .done).commit written
        (updateWorkItemRun s.items it.id lastProgress "review" spent))
    | _ => none
  | .finish i spent written =>
    match s.operations[i]? with
    | some (.finishing it _ final finalProgress) =>
      let after := if final = "done" then .calibrating it spent else .summing it.parentID
      some ((s.proceed i after).commit written
        (updateWorkItemRun s.items it.id finalProgress final spent))
    | _ => none
  | .calibrate i written =>
    match s.operations[i]? with
    | some (.calibrating it spent) =>
      some ((s.proceed i (.summing it.parentID)).commit written
        (calibrateEstimate s.items it.id spent))
    | _ => none
  | .sumKids i =>
    match s.operations[i]? with
    | some (.summing parentID) =>
      match sumChildren s.items parentID with
      | some rollup => some (s.proceed i (.rollingUp parentID rollup))
      | none => some (s.proceed i .done)
    | _ => none
  | .rollup i written =>
    match s.operations[i]? with
    | some (.rollingUp parentID rollup) =>
      some ((s.proceed i .done).commit written (rollupParent s.items parentID rollup))
    | _ => none
  | .delete id => some { s with items := deleteWorkItem s.items id }
  | .restart =>
    some { s with seq := 0, items := reconcileStaleRunning s.items, runs := [], operations := [] }

/-! What a step does to the items. -/

@[simp] theorem commit_items (s : State) (written : Bool) (items : Items) :
    (s.commit written items).items = if written then items else s.items := by
  cases written <;> rfl

/-- An event that writes no item. -/
def Event.quiet : Event → Bool
  | .tick | .update _ _ | .execute _ | .launch _ _ | .launchFails _ | .runStatus _ _ | .observe _ _
  | .sumKids _ => true
  | _ => false

inductive Commits (s : State) : Event → Items → Prop where
  | quiet {e} (h : e.quiet = true) : Commits s e s.items
  | created {body id} (htitle : body.title ≠ "") (hfresh : s.fresh id = true)
      (hparent : body.parentID ≠ id) :
      Commits s (.create body id) (s.items.insertIgnore (created body id))
  | wrote {i existing patch} (written) (h : s.operations[i]? = some (.updating existing patch)) :
      Commits s (.write i written)
        (if written then updateWorkItem s.items (patched existing patch) else s.items)
  | bound {i it r} (written) (h : s.operations[i]? = some (.launched it r)) :
      Commits s (.bind i written) (if written then updateWorkItem s.items it else s.items)
  | projected {i it r deadline progress} (spent written)
      (h : s.operations[i]? = some (.projecting it r deadline progress)) :
      Commits s (.project i spent written)
        (if written then updateWorkItemRun s.items it.id progress "in_progress" spent else s.items)
  | stalled {i it r lastProgress} (spent written)
      (h : s.operations[i]? = some (.stalling it r lastProgress)) :
      Commits s (.stall i spent written)
        (if written then updateWorkItemRun s.items it.id lastProgress "review" spent else s.items)
  | finished {i it r final finalProgress} (spent written)
      (h : s.operations[i]? = some (.finishing it r final finalProgress)) :
      Commits s (.finish i spent written)
        (if written then updateWorkItemRun s.items it.id finalProgress final spent else s.items)
  | calibrated {i it spent} (written) (h : s.operations[i]? = some (.calibrating it spent)) :
      Commits s (.calibrate i written)
        (if written then calibrateEstimate s.items it.id spent else s.items)
  | rolledUp {i parentID rollup} (written)
      (h : s.operations[i]? = some (.rollingUp parentID rollup)) :
      Commits s (.rollup i written)
        (if written then rollupParent s.items parentID rollup else s.items)
  | deleted (id) : Commits s (.delete id) (deleteWorkItem s.items id)
  | restarted : Commits s .restart (reconcileStaleRunning s.items)

/-- The operation that an event takes a step of. -/
theorem step_commits {s next : State} {e : Event} (h : step s e = some next) :
    Commits s e next.items := by
  cases e with
  | tick | sumKids | observe | runStatus | update | execute | launch | launchFails =>
    have hsame : next.items = s.items := by
      simp only [step] at h
      grind [State.proceed, State.begin]
    rw [hsame]
    exact .quiet rfl
  | create body id =>
    obtain ⟨⟨htitle, hfresh, hparent⟩, rfl⟩ : (body.title ≠ "" ∧ s.fresh id = true ∧
        body.parentID ≠ id) ∧ _ = next := by simpa [step] using h
    exact .created htitle hfresh hparent
  | write i written =>
    simp only [step] at h
    split at h
    case h_2 => cases h
    obtain rfl := Option.some.inj h
    rw [commit_items]
    exact .wrote written ‹_›
  | bind i written =>
    simp only [step] at h
    split at h
    case h_2 => cases h
    obtain rfl := Option.some.inj h
    rw [commit_items]
    exact .bound written ‹_›
  | project i spent written =>
    simp only [step] at h
    split at h
    case h_2 => cases h
    obtain rfl := Option.some.inj h
    rw [commit_items]
    exact .projected spent written ‹_›
  | stall i spent written =>
    simp only [step] at h
    split at h
    case h_2 => cases h
    obtain rfl := Option.some.inj h
    rw [commit_items]
    exact .stalled spent written ‹_›
  | finish i spent written =>
    simp only [step] at h
    split at h
    case h_2 => cases h
    obtain rfl := Option.some.inj h
    rw [commit_items]
    exact .finished spent written ‹_›
  | calibrate i written =>
    simp only [step] at h
    split at h
    case h_2 => cases h
    obtain rfl := Option.some.inj h
    rw [commit_items]
    exact .calibrated written ‹_›
  | rollup i written =>
    simp only [step] at h
    split at h
    case h_2 => cases h
    obtain rfl := Option.some.inj h
    rw [commit_items]
    exact .rolledUp written ‹_›
  | delete id =>
    obtain rfl := Option.some.inj h
    exact .deleted id
  | restart =>
    obtain rfl := Option.some.inj h
    exact .restarted

/-! One row after a write. -/

theorem find?_rewrite (items : Items) (id k : String) (f : WorkItem → WorkItem) :
    (rewrite items id f).find? k =
      (items.find? k).map fun it => if it.id = id then { f it with id := it.id } else it := by
  simp [rewrite, Table.find?_updateWhere]

theorem find?_id {items : Items} {id : String} {it : WorkItem} (h : items.find? id = some it) :
    it.id = id :=
  (Table.find?_eq_some.mp h).2

theorem find?_rewrite_self (items : Items) (id : String) (f : WorkItem → WorkItem) :
    (rewrite items id f).find? id = (items.find? id).map fun it => { f it with id } := by
  rw [find?_rewrite]
  refine Option.map_congr fun it hit => ?_
  rw [if_pos (find?_id hit), find?_id hit]

theorem find?_rewrite_other (items : Items) {id k : String} (hne : k ≠ id) (f : WorkItem → WorkItem) :
    (rewrite items id f).find? k = items.find? k := by
  rw [find?_rewrite]
  cases hit : items.find? k with
  | none => rfl
  | some it => rw [Option.map_some, if_neg fun hid => hne ((find?_id hit).symm.trans hid)]

theorem find?_rewrite_absent {items : Items} {id : String} (hkey : items.hasKey id = false)
    (k : String) (f : WorkItem → WorkItem) : (rewrite items id f).find? k = items.find? k := by
  by_cases hk : k = id
  · subst hk
    have hnone : items.find? k = none := by
      simpa [hkey] using @Table.find?_isSome _ _ _ _ items k
    rw [find?_rewrite_self, hnone]
    rfl
  · exact find?_rewrite_other items hk f

theorem find?_deleteWorkItem (items : Items) (id k : String) :
    (deleteWorkItem items id).find? k = if k = id then none else items.find? k := by
  rw [deleteWorkItem, Table.find?_deleteWhere]
  cases hit : items.find? k with
  | none => simp
  | some it =>
    have hid := find?_id hit
    by_cases hk : k = id <;> simp [Option.filter, hid, hk]

theorem find?_created {s : State} {body : WorkItem} {id : String} (hfresh : s.fresh id = true)
    (k : String) : (s.items.insertIgnore (created body id)).find? k =
      if id = k then some (created body id) else s.items.find? k := by
  refine Table.find?_insertIgnore ?_
  rw [Bool.eq_false_iff]
  intro htaken
  obtain ⟨it, hit, hid⟩ := Table.hasKey_iff.mp htaken
  have hother := List.all_eq_true.mp (Bool.and_eq_true_iff.mp hfresh).1 it hit
  have hid : it.id = id := hid
  simp [hid] at hother

end WorkItems
