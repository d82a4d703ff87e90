import ChaosPlus.NumberedRecords
import ChaosPlus.WorkItems

/-!
# The live runs of a work item

Executing an item is refused while its row shows a run in progress. That keeps a second run
away as long as executes do not overlap and every live run stays in its item's row.
-/
namespace WorkItemRuns

open KeyedTable WorkItems

/-- The number of live runs launched for the item. -/
def liveRuns (s : State) (id : String) : Nat :=
  s.runs.countP fun run => run.item = id && run.live

def OneLiveRun (s : State) : Prop := ∀ id, liveRuns s id ≤ 1

/-- A live run of the item whose execute is done writing the row. -/
def BoundLive (s : State) (id : String) : Prop :=
  ∃ (r : Nat) (run : Run), s.runs[r]? = some run ∧ run.item = id ∧ run.live = true ∧
    s.unbound r = false

/-- An execute launches only where it read the row after every live run of the item was
written to it; no write takes a live run out of its item's row, and the write that puts it
there does not fail. -/
def Safe (s : State) : Event → Prop
  | .launch i _ => ∀ it bound, s.operations[i]? = some (.executing it bound) →
      ∀ (r : Nat) (run : Run), s.runs[r]? = some run → run.item = it.id → run.live = true → r ∈ bound
  | .write i written => ∀ existing patch, s.operations[i]? = some (.updating existing patch) →
      written = true → s.items.hasKey existing.id = true → BoundLive s existing.id →
      (patched existing patch).executing = true
  | .bind i written => ∀ it r, s.operations[i]? = some (.launched it r) → written = false →
      (∃ run, s.runs[r]? = some run ∧ run.live = true) →
      ∀ row, s.items.find? it.id = some row → row.executing = true
  | .stall i _ written => ∀ it r lastProgress,
      s.operations[i]? = some (.stalling it r lastProgress) → written = true →
      s.items.hasKey it.id = true → ¬ BoundLive s it.id
  | .finish i _ written => ∀ it r final finalProgress,
      s.operations[i]? = some (.finishing it r final finalProgress) → written = true →
      s.items.hasKey it.id = true → ¬ BoundLive s it.id
  | _ => True

structure Invariant (s : State) : Prop where
  one : OneLiveRun s
  marked : ∀ id row, BoundLive s id → s.items.find? id = some row → row.executing = true
  launched : ∀ it r, .launched it r ∈ s.operations → it.executing = true ∧
    ∃ run, s.runs[r]? = some run ∧ run.item = it.id
  ended : ∀ it bound, .executing it bound ∈ s.operations → ∀ r ∈ bound,
    ∃ run, s.runs[r]? = some run ∧ run.live = false
  final : ∀ it r final finalProgress, .finishing it r final finalProgress ∈ s.operations →
    final = "done" ∨ final = "review"

theorem unbound_iff {s : State} {r : Nat} :
    s.unbound r = true ↔ ∃ it, .launched it r ∈ s.operations := by
  unfold State.unbound
  rw [List.any_eq_true]
  constructor
  · rintro ⟨operation, hmem, hr⟩
    cases operation with
    | launched it run =>
      obtain rfl : run = r := by simpa using hr
      exact ⟨it, hmem⟩
    | _ => cases hr
  · rintro ⟨it, hmem⟩
    exact ⟨_, hmem, by simp⟩

theorem bound_before {s next : State} {r : Nat}
    (hkept : ∀ it, .launched it r ∈ s.operations → .launched it r ∈ next.operations)
    (h : next.unbound r = false) : s.unbound r = false := by
  rw [Bool.eq_false_iff] at h ⊢
  intro hun
  obtain ⟨it, hmem⟩ := unbound_iff.mp hun
  exact h (unbound_iff.mpr ⟨it, hkept it hmem⟩)

theorem boundLive_of {s next : State} (hruns : next.runs = s.runs)
    (hunbound : ∀ it r, .launched it r ∈ s.operations → .launched it r ∈ next.operations)
    {id : String} (h : BoundLive next id) : BoundLive s id := by
  obtain ⟨r, run, hrun, hitem, hlive, hbound⟩ := h
  exact ⟨r, run, hruns ▸ hrun, hitem, hlive, bound_before (fun it => hunbound it r) hbound⟩

section Steps

variable {s : State}

theorem commit_eq (s : State) (written : Bool) (items : Items) :
    s.commit written items = { s with items := if written then items else s.items } := by
  cases written <;> rfl

/-- A request that is no launched run goes on and may write items. -/
theorem Invariant.advance (h : Invariant s) {i : Nat} {old operation : Operation} {items : Items}
    (hold : s.operations[i]? = some old) (hlaunched : ∀ it r, old ≠ .launched it r)
    (hnew : ∀ it r, operation ≠ .launched it r) (hexecuting : ∀ it bound, operation ≠ .executing it bound)
    (hfinal : ∀ it r final finalProgress, operation = .finishing it r final finalProgress →
      final = "done" ∨ final = "review")
    (hitems : ∀ id row, BoundLive s id → items.find? id = some row → row.executing = true) :
    Invariant { s.proceed i operation with items } where
  one := h.one
  marked id row hlive hrow := by
    have hbefore : BoundLive s id := by
      refine boundLive_of ?_ ?_ hlive
      · rfl
      · exact fun it r hmem => NumberedRecords.mem_set_of_ne hold hmem (hlaunched it r).symm
    exact hitems id row hbefore hrow
  launched it r hmem := by
    rcases List.mem_or_eq_of_mem_set hmem with hin | heq
    · exact h.launched it r hin
    · exact absurd heq.symm (hnew it r)
  ended it bound hmem := by
    rcases List.mem_or_eq_of_mem_set hmem with hin | heq
    · exact h.ended it bound hin
    · exact absurd heq.symm (hexecuting it bound)
  final it r final finalProgress hmem := by
    rcases List.mem_or_eq_of_mem_set hmem with hin | heq
    · exact h.final it r final finalProgress hin
    · exact hfinal it r final finalProgress heq.symm

/-- The rows that hold a live run still do after the write of one row. -/
theorem Invariant.marked_rewrite (h : Invariant s) (written : Bool) (id₀ : String)
    (f : WorkItem → WorkItem)
    (hf : written = true → BoundLive s id₀ → ∀ row, s.items.find? id₀ = some row →
      row.executing = true → (f row).executing = true) :
    ∀ id row, BoundLive s id →
      (if written then rewrite s.items id₀ f else s.items).find? id = some row →
      row.executing = true := by
  intro id row hlive hrow
  cases written with
  | false => exact h.marked id row hlive hrow
  | true =>
    rw [if_pos rfl] at hrow
    by_cases hid : id = id₀
    · subst hid
      rw [find?_rewrite_self] at hrow
      obtain ⟨old, hold, rfl⟩ := Option.map_eq_some_iff.mp hrow
      exact hf rfl hlive old hold (h.marked id old hlive hold)
    · rw [find?_rewrite_other s.items hid] at hrow
      exact h.marked id row hlive hrow

theorem executing_bind (it : WorkItem) (seq : Nat) (suffix : String) :
    ({ it with status := "in_progress", workflowRunID := runID seq suffix } : WorkItem).executing =
      true := by
  have hid : runID seq suffix ≠ "" := by
    intro hempty
    have hlength := congrArg String.length hempty
    simp [runID] at hlength
  simp [WorkItem.executing, hid]

theorem Invariant.begin (h : Invariant s) {operation : Operation}
    (hnew : ∀ it r, operation ≠ .launched it r)
    (hended : ∀ it bound, operation = .executing it bound → ∀ r ∈ bound,
      ∃ run, s.runs[r]? = some run ∧ run.live = false)
    (hfinal : ∀ it r final finalProgress, operation ≠ .finishing it r final finalProgress) :
    Invariant (s.begin operation) where
  one := h.one
  marked id row hlive hrow := by
    have hbefore : BoundLive s id := by
      refine boundLive_of ?_ ?_ hlive
      · rfl
      · exact fun it r hmem => List.mem_append_left _ hmem
    exact h.marked id row hbefore hrow
  launched it r hmem := by
    rcases List.mem_append.mp hmem with hin | heq
    · exact h.launched it r hin
    · exact absurd (List.mem_singleton.mp heq).symm (hnew it r)
  ended it bound hmem := by
    rcases List.mem_append.mp hmem with hin | heq
    · exact h.ended it bound hin
    · exact hended it bound (List.mem_singleton.mp heq).symm
  final it r final finalProgress hmem := by
    rcases List.mem_append.mp hmem with hin | heq
    · exact h.final it r final finalProgress hin
    · exact absurd (List.mem_singleton.mp heq).symm (hfinal it r final finalProgress)

/-- An execute is let through only where every run in the row has ended. -/
theorem Invariant.bound_ended (h : Invariant s) {id : String} {it : WorkItem}
    (hit : s.items.find? id = some it) (hguard : it.executing = false) {r : Nat}
    (hr : r ∈ s.boundRuns id) : ∃ run, s.runs[r]? = some run ∧ run.live = false := by
  obtain ⟨-, hmine⟩ := List.mem_filter.mp hr
  obtain ⟨hitem, hbound⟩ := Bool.and_eq_true_iff.mp hmine
  obtain ⟨run, hrun, hitem⟩ : ∃ run, s.runs[r]? = some run ∧ run.item = id := by
    cases hrun : s.runs[r]? with
    | none => simp [hrun] at hitem
    | some run => exact ⟨run, rfl, by simpa [hrun] using hitem⟩
  refine ⟨run, hrun, ?_⟩
  rw [Bool.eq_false_iff]
  intro hlive
  have hexecuting := h.marked id it ⟨r, run, hrun, hitem, hlive, by simpa using hbound⟩ hit
  simp [hguard] at hexecuting

theorem liveRuns_eq_zero {id : String} (h : ∀ (r : Nat) (run : Run), s.runs[r]? = some run →
    run.item = id → run.live = false) : liveRuns s id = 0 := by
  refine List.countP_eq_zero.mpr fun run hmem => ?_
  obtain ⟨r, hr⟩ := List.mem_iff_getElem?.mp hmem
  by_cases hitem : run.item = id
  · simp [hitem, h r run hr hitem]
  · simp [hitem]

theorem Invariant.launch (h : Invariant s) {next : State} {i : Nat} {suffix : String}
    (hsafe : Safe s (.launch i suffix)) (hstep : step s (.launch i suffix) = some next) :
    Invariant next := by
  simp only [step] at hstep
  split at hstep
  case h_2 => cases hstep
  rename_i it bound hop
  obtain rfl := Option.some.inj hstep
  have hnone : liveRuns s it.id = 0 := by
    refine liveRuns_eq_zero fun r run hrun hitem => ?_
    rw [Bool.eq_false_iff]
    intro hlive
    obtain ⟨run', hrun', hended⟩ := h.ended it bound (List.mem_of_getElem? hop) r
      (hsafe it bound hop r run hrun hitem hlive)
    obtain rfl := Option.some.inj (hrun.symm.trans hrun')
    rw [hended] at hlive
    cases hlive
  refine ⟨?_, ?_, ?_, ?_, ?_⟩
  · intro id
    have hone := h.one id
    unfold liveRuns at hnone hone ⊢
    rw [List.countP_append, List.countP_singleton]
    by_cases hid : it.id = id
    · subst hid
      rw [hnone]
      split_ifs <;> omega
    · simp [hid]
      exact hone
  · rintro id row ⟨r, run, hrun, hitem, hlive, hunbound⟩ hrow
    rcases NumberedRecords.of_append hrun with hold | ⟨rfl, -⟩
    · refine h.marked id row ⟨r, run, hold, hitem, hlive, bound_before (fun it' hmem => ?_) hunbound⟩
        hrow
      exact NumberedRecords.mem_set_of_ne hop hmem (by simp)
    · -- the new run waits for its row write
      rw [Bool.eq_false_iff] at hunbound
      refine absurd (unbound_iff.mpr ⟨{ it with
        status := "in_progress", workflowRunID := runID (s.seq + 1) suffix }, ?_⟩) hunbound
      exact List.mem_set (List.getElem?_eq_some_iff.mp hop).1 _
  · intro it' r hmem
    rcases List.mem_or_eq_of_mem_set hmem with hin | heq
    · obtain ⟨hexecuting, run, hrun, hitem⟩ := h.launched it' r hin
      exact ⟨hexecuting, run, NumberedRecords.append_old hrun, hitem⟩
    · obtain ⟨rfl, rfl⟩ := Operation.launched.inj heq
      exact ⟨executing_bind it _ suffix, _, List.getElem?_concat_length, rfl⟩
  · intro it' bound' hmem r hr
    rcases List.mem_or_eq_of_mem_set hmem with hin | heq
    · obtain ⟨run, hrun, hended⟩ := h.ended it' bound' hin r hr
      exact ⟨run, NumberedRecords.append_old hrun, hended⟩
    · cases heq
  · intro it' r final finalProgress hmem
    rcases List.mem_or_eq_of_mem_set hmem with hin | heq
    · exact h.final it' r final finalProgress hin
    · cases heq

theorem Invariant.bind (h : Invariant s) {next : State} {i : Nat} {written : Bool}
    (hsafe : Safe s (.bind i written)) (hstep : step s (.bind i written) = some next) :
    Invariant next := by
  simp only [step] at hstep
  split at hstep
  case h_2 => cases hstep
  rename_i it r hop
  obtain rfl := Option.some.inj hstep
  rw [commit_eq]
  obtain ⟨hexecuting, mine, hmine, hitem⟩ := h.launched it r (List.mem_of_getElem? hop)
  refine ⟨h.one, ?_, ?_, ?_, ?_⟩
  · rintro id row ⟨r', run, hrun, rfl, hlive, hunbound⟩ hrow
    by_cases hid : run.item = it.id
    · cases written with
      | true =>
        rw [if_pos rfl, updateWorkItem, hid, find?_rewrite_self] at hrow
        obtain ⟨old, -, rfl⟩ := Option.map_eq_some_iff.mp hrow
        exact hexecuting
      | false =>
        by_cases hr : r' = r
        · subst hr
          exact hsafe it r' hop rfl ⟨run, hrun, hlive⟩ row (hid ▸ hrow)
        · refine h.marked _ row ⟨r', run, hrun, rfl, hlive,
            bound_before (fun it' hmem => ?_) hunbound⟩ hrow
          exact NumberedRecords.mem_set_of_ne hop hmem (by simp [hr])
    · have hother : s.items.find? run.item = some row := by
        cases written with
        | false => exact hrow
        | true => rwa [if_pos rfl, updateWorkItem, find?_rewrite_other s.items hid] at hrow
      refine h.marked _ row ⟨r', run, hrun, rfl, hlive,
        bound_before (fun it' hmem => ?_) hunbound⟩ hother
      refine NumberedRecords.mem_set_of_ne hop hmem fun heq => hid ?_
      obtain ⟨rfl, rfl⟩ := Operation.launched.inj heq
      obtain rfl := Option.some.inj (hrun.symm.trans hmine)
      exact hitem
  · intro it' r' hmem
    rcases List.mem_or_eq_of_mem_set hmem with hin | heq
    · exact h.launched it' r' hin
    · cases heq
  · intro it' bound' hmem
    rcases List.mem_or_eq_of_mem_set hmem with hin | heq
    · exact h.ended it' bound' hin
    · cases heq
  · intro it' r' final finalProgress hmem
    rcases List.mem_or_eq_of_mem_set hmem with hin | heq
    · exact h.final it' r' final finalProgress hin
    · cases heq

theorem observed_cases (s : State) (it : WorkItem) (r deadline : Nat) (lastProgress progress : Int)
    (status : RunStatus) :
    (∃ final finalProgress, (final = "done" ∨ final = "review") ∧
      observed s it r deadline lastProgress progress status = .finishing it r final finalProgress) ∨
    observed s it r deadline lastProgress progress status = .stalling it r lastProgress ∨
    observed s it r deadline lastProgress progress status = .projecting it r deadline progress := by
  unfold observed
  split_ifs with hterminal hdeadline
  · refine .inl ⟨_, _, ?_, rfl⟩
    unfold finalProjection
    split_ifs <;> simp
  · exact .inr (.inl rfl)
  · exact .inr (.inr rfl)

theorem Invariant.observe (h : Invariant s) {next : State} {i : Nat} {progress : Int}
    (hstep : step s (.observe i progress) = some next) : Invariant next := by
  simp only [step] at hstep
  split at hstep
  case h_2 => cases hstep
  rename_i it r deadline lastProgress hop
  obtain ⟨run, -, rfl⟩ := Option.map_eq_some_iff.mp hstep
  rcases observed_cases s it r deadline lastProgress progress run.status with
    ⟨final, finalProgress, hfinal, heq⟩ | heq | heq
  · rw [heq]
    refine h.advance hop (by simp) (by simp) (by simp) ?_ h.marked
    rintro it' r' final' finalProgress' heq
    obtain ⟨-, -, rfl, -⟩ := Operation.finishing.inj heq
    exact hfinal
  · rw [heq]
    exact h.advance hop (by simp) (by simp) (by simp) (by simp) h.marked
  · rw [heq]
    exact h.advance hop (by simp) (by simp) (by simp) (by simp) h.marked

theorem Invariant.runStatus (h : Invariant s) {next : State} {r : Nat} {status : RunStatus}
    (hstep : step s (.runStatus r status) = some next) : Invariant next := by
  simp only [step] at hstep
  split at hstep
  case h_2 => cases hstep
  rename_i run hrun
  split_ifs at hstep with hlive
  obtain rfl := Option.some.inj hstep
  have hchanged : ∀ (r' : Nat) (run' : Run), (s.runs.set r { run with status })[r']? = some run' →
      ∃ old, s.runs[r']? = some old ∧ run'.item = old.item ∧ (run'.live = true → old.live = true) := by
    intro r' run' hrun'
    by_cases hr : r = r'
    · subst hr
      rw [List.getElem?_set_self (List.getElem?_eq_some_iff.mp hrun).1] at hrun'
      obtain rfl := Option.some.inj hrun'
      exact ⟨run, hrun, rfl, fun _ => hlive.1⟩
    · rw [List.getElem?_set_ne hr] at hrun'
      exact ⟨run', hrun', rfl, id⟩
  refine ⟨?_, ?_, ?_, ?_, h.final⟩
  · intro id
    have hmodify : s.runs.set r { run with status } = s.runs.modify r fun run => { run with status } := by
      rw [List.modify_eq_set_getElem?, hrun]
      rfl
    have hcount := NumberedRecords.countP_modify (p := fun run : Run => run.item = id && run.live)
      (f := fun run => { run with status }) hrun
    have hone := h.one id
    unfold liveRuns at hone ⊢
    simp only [hmodify]
    by_cases hitem : run.item = id
    · simp only [hitem, hlive.1, decide_true, Bool.and_self, if_pos] at hcount
      split_ifs at hcount <;> omega
    · simp only [hitem, decide_false, Bool.false_and, Bool.false_eq_true, if_false] at hcount
      omega
  · rintro id row ⟨r', run', hrun', rfl, hlive', hunbound⟩ hrow
    obtain ⟨old, hold, hitem, holdlive⟩ := hchanged r' run' hrun'
    exact h.marked _ row ⟨r', old, hold, hitem.symm, holdlive hlive', hunbound⟩ hrow
  · intro it r' hmem
    obtain ⟨hexecuting, old, hold, hitem⟩ := h.launched it r' hmem
    refine ⟨hexecuting, ?_⟩
    by_cases hr : r = r'
    · subst hr
      obtain rfl := Option.some.inj (hrun.symm.trans hold)
      exact ⟨_, List.getElem?_set_self (List.getElem?_eq_some_iff.mp hrun).1, hitem⟩
    · exact ⟨old, (List.getElem?_set_ne hr).trans hold, hitem⟩
  · intro it bound hmem r' hr'
    obtain ⟨old, hold, hended⟩ := h.ended it bound hmem r' hr'
    by_cases hr : r = r'
    · subst hr
      obtain rfl := Option.some.inj (hrun.symm.trans hold)
      exact absurd hlive.1 (by simp [hended])
    · exact ⟨old, (List.getElem?_set_ne hr).trans hold, hended⟩

theorem Invariant.with_items (h : Invariant s) {items : Items}
    (hitems : ∀ id row, BoundLive s id → items.find? id = some row → row.executing = true) :
    Invariant { s with items } :=
  ⟨h.one, hitems, h.launched, h.ended, h.final⟩

theorem executing_of_run {it : WorkItem} (h : it.executing = true) (progress : Int) (spent : Rat) :
    ({ it with progress, status := "in_progress", spentHours := spent } : WorkItem).executing =
      true := by
  have hrun : it.workflowRunID ≠ "" := by
    simp only [WorkItem.executing, Bool.and_eq_true, decide_eq_true_eq] at h
    simpa using h.2
  simp [WorkItem.executing, hrun]

theorem step_keeps (h : Invariant s) {next : State} {e : Event} (hsafe : Safe s e)
    (hstep : step s e = some next) : Invariant next := by
  cases e with
  | tick =>
    obtain rfl := Option.some.inj hstep
    exact ⟨h.one, h.marked, h.launched, h.ended, h.final⟩
  | create body id =>
    obtain ⟨⟨-, hfresh, -⟩, rfl⟩ : (body.title ≠ "" ∧ s.fresh id = true ∧ body.parentID ≠ id) ∧
        _ = next := by simpa [step] using hstep
    refine h.with_items fun id' row hlive hrow => ?_
    have hother : id ≠ id' := by
      rintro rfl
      obtain ⟨r, run, hrun, hitem, -⟩ := hlive
      have hnone := List.all_eq_true.mp (Bool.and_eq_true_iff.mp hfresh).2 run
        (List.mem_of_getElem? hrun)
      simp [hitem] at hnone
    rw [find?_created hfresh, if_neg hother] at hrow
    exact h.marked id' row hlive hrow
  | update id patch =>
    simp only [step] at hstep
    split at hstep
    · cases hstep
    · split at hstep
      · cases hstep
      · obtain rfl := Option.some.inj hstep
        exact h.begin (by simp) (by simp) (by simp)
  | write i written =>
    simp only [step] at hstep
    split at hstep
    case h_2 => cases hstep
    rename_i existing patch hop
    obtain rfl := Option.some.inj hstep
    rw [commit_eq]
    refine h.advance hop (by simp) (by simp) (by simp) (by simp) ?_
    refine h.marked_rewrite written existing.id (fun _ => patched existing patch) ?_
    intro hwritten hlive row hrow _
    have hkey : s.items.hasKey existing.id = true := by
      rw [← Table.find?_isSome, hrow]
      rfl
    exact hsafe existing patch hop hwritten hkey hlive
  | execute id =>
    simp only [step] at hstep
    split at hstep
    · cases hstep
    · rename_i it hit
      split_ifs at hstep with hguard
      obtain rfl := Option.some.inj hstep
      refine h.begin (by simp) ?_ (by simp)
      rintro it' bound heq r hr
      obtain ⟨-, rfl⟩ := Operation.executing.inj heq
      exact h.bound_ended hit (by simpa using hguard) hr
  | launch i suffix => exact h.launch hsafe hstep
  | launchFails i =>
    simp only [step] at hstep
    split at hstep
    case h_2 => cases hstep
    rename_i it bound hop
    obtain rfl := Option.some.inj hstep
    exact h.advance hop (by simp) (by simp) (by simp) (by simp) h.marked
  | bind i written => exact h.bind hsafe hstep
  | runStatus r status => exact h.runStatus hstep
  | observe i progress => exact h.observe hstep
  | project i spent written =>
    simp only [step] at hstep
    split at hstep
    case h_2 => cases hstep
    rename_i it r deadline progress hop
    obtain rfl := Option.some.inj hstep
    rw [commit_eq]
    refine h.advance hop (by simp) (by simp) (by simp) (by simp) ?_
    refine h.marked_rewrite written it.id _ fun _ _ row _ hexecuting => ?_
    exact executing_of_run hexecuting progress spent
  | stall i spent written =>
    simp only [step] at hstep
    split at hstep
    case h_2 => cases hstep
    rename_i it r lastProgress hop
    obtain rfl := Option.some.inj hstep
    rw [commit_eq]
    refine h.advance hop (by simp) (by simp) (by simp) (by simp) ?_
    refine h.marked_rewrite written it.id _ fun hwritten hlive row hrow _ => ?_
    have hkey : s.items.hasKey it.id = true := by
      rw [← Table.find?_isSome, hrow]
      rfl
    exact absurd hlive (hsafe it r lastProgress hop hwritten hkey)
  | finish i spent written =>
    simp only [step] at hstep
    split at hstep
    case h_2 => cases hstep
    rename_i it r final finalProgress hop
    obtain rfl := Option.some.inj hstep
    rw [commit_eq]
    refine h.advance hop (by simp) (by split_ifs <;> simp) (by split_ifs <;> simp)
      (by split_ifs <;> simp) ?_
    refine h.marked_rewrite written it.id _ fun hwritten hlive row hrow _ => ?_
    have hkey : s.items.hasKey it.id = true := by
      rw [← Table.find?_isSome, hrow]
      rfl
    exact absurd hlive (hsafe it r final finalProgress hop hwritten hkey)
  | calibrate i written =>
    simp only [step] at hstep
    split at hstep
    case h_2 => cases hstep
    rename_i it spent hop
    obtain rfl := Option.some.inj hstep
    rw [commit_eq]
    refine h.advance hop (by simp) (by simp) (by simp) (by simp) ?_
    refine h.marked_rewrite written it.id _ fun _ _ row _ hexecuting => ?_
    split_ifs <;> exact hexecuting
  | sumKids i =>
    simp only [step] at hstep
    split at hstep
    case h_2 => cases hstep
    rename_i parentID hop
    split at hstep
    · obtain rfl := Option.some.inj hstep
      exact h.advance hop (by simp) (by simp) (by simp) (by simp) h.marked
    · obtain rfl := Option.some.inj hstep
      exact h.advance hop (by simp) (by simp) (by simp) (by simp) h.marked
  | rollup i written =>
    simp only [step] at hstep
    split at hstep
    case h_2 => cases hstep
    rename_i parentID rollup hop
    obtain rfl := Option.some.inj hstep
    rw [commit_eq]
    refine h.advance hop (by simp) (by simp) (by simp) (by simp) ?_
    exact h.marked_rewrite written parentID _ fun _ _ row _ hexecuting => hexecuting
  | delete id =>
    obtain rfl := Option.some.inj hstep
    refine h.with_items fun id' row hlive hrow => ?_
    rw [find?_deleteWorkItem] at hrow
    split_ifs at hrow
    exact h.marked id' row hlive hrow
  | restart =>
    obtain rfl := Option.some.inj hstep
    refine ⟨fun id => by simp [liveRuns], ?_, by simp, by simp, by simp⟩
    rintro id row ⟨r, run, hrun, -⟩
    simp at hrun

/-! An unsafe step lets a second run start. -/

/-- A second run starts in some continuation. -/
def SecondRun (s : State) : Prop :=
  ∃ events t, StepRuns.run step s events = some t ∧ ¬ OneLiveRun t

theorem two_live {runs : List Run} {id : String} {r : Nat} {run added : Run}
    (hrun : runs[r]? = some run) (hitem : run.item = id) (hlive : run.live = true)
    (hadded : added.item = id) (haddedLive : added.live = true) :
    1 < (runs ++ [added]).countP fun run => run.item = id && run.live := by
  have hone : 0 < runs.countP fun run => run.item = id && run.live :=
    List.countP_pos_iff.mpr ⟨run, List.mem_of_getElem? hrun, by simp [hitem, hlive]⟩
  rw [List.countP_append, List.countP_singleton]
  simp only [hadded, haddedLive, decide_true, Bool.and_self, if_pos]
  omega

/-- An item whose row shows no run in progress while one is live can be executed again. -/
theorem secondRun_of_unmarked {r : Nat} {run : Run} {row : WorkItem} (hrun : s.runs[r]? = some run)
    (hlive : run.live = true) (hrow : s.items.find? run.item = some row)
    (hguard : row.executing = false) : SecondRun s := by
  have hread : step s (.execute run.item) =
      some (s.begin (.executing row (s.boundRuns run.item))) := by
    simp [step, hrow, hguard]
  have hlast : (s.begin (.executing row (s.boundRuns run.item))).operations[s.operations.length]? =
      some (.executing row (s.boundRuns run.item)) := List.getElem?_concat_length
  refine ⟨[.execute run.item, .launch s.operations.length ""], ?_⟩
  simp only [StepRuns.run, hread, Option.bind_some]
  simp only [step, hlast, Option.bind_some]
  refine ⟨_, rfl, fun hone => ?_⟩
  have hcount := hone run.item
  have hrowID : row.id = run.item := find?_id hrow
  have htwo : 1 < (s.runs ++ [(⟨runID (s.seq + 1) "", row.id, .running⟩ : Run)]).countP
      fun other => other.item = run.item && other.live := two_live hrun rfl hlive hrowID rfl
  exact absurd htwo (Nat.not_lt.mpr hcount)

theorem Invariant.unsafe_doubles (h : Invariant s) {next : State} {e : Event}
    (hrisky : ¬ Safe s e) (hstep : step s e = some next) : SecondRun next := by
  cases e with
  | launch i suffix =>
    obtain ⟨it, bound, hop, r, run, hrun, hitem, hlive, -⟩ : ∃ it bound,
        s.operations[i]? = some (.executing it bound) ∧ ∃ (r : Nat) (run : Run),
          s.runs[r]? = some run ∧ run.item = it.id ∧ run.live = true ∧ r ∉ bound := by
      simpa [Safe] using hrisky
    simp only [step, hop] at hstep
    obtain rfl := Option.some.inj hstep
    refine ⟨[], _, rfl, fun hone => ?_⟩
    have htwo : 1 < (s.runs ++ [(⟨runID (s.seq + 1) suffix, it.id, .running⟩ : Run)]).countP
        fun other => other.item = it.id && other.live := two_live hrun hitem hlive rfl rfl
    have hcount := hone it.id
    exact absurd htwo (Nat.not_lt.mpr hcount)
  | write i written =>
    obtain ⟨existing, patch, hop, rfl, hkey, ⟨r, run, hrun, hitem, hlive, -⟩, hguard⟩ :
        ∃ existing patch, s.operations[i]? = some (.updating existing patch) ∧ written = true ∧
          s.items.hasKey existing.id = true ∧ BoundLive s existing.id ∧
          (patched existing patch).executing = false := by
      simpa [Safe] using hrisky
    simp only [step, hop] at hstep
    obtain rfl := Option.some.inj hstep
    obtain ⟨old, hold⟩ := Option.isSome_iff_exists.mp (Table.find?_isSome.trans hkey)
    have hrow : (updateWorkItem s.items (patched existing patch)).find? existing.id =
        some { patched existing patch with id := existing.id } := by
      rw [updateWorkItem, show (patched existing patch).id = existing.id from rfl,
        find?_rewrite_self, hold]
      rfl
    exact secondRun_of_unmarked (r := r) hrun hlive (hitem ▸ hrow) hguard
  | bind i written =>
    obtain ⟨it, r, hop, rfl, run, hrun, hlive, row, hrow, hguard⟩ : ∃ it r,
        s.operations[i]? = some (.launched it r) ∧ written = false ∧ ∃ run,
          s.runs[r]? = some run ∧ run.live = true ∧ ∃ row, s.items.find? it.id = some row ∧
            row.executing = false := by
      unfold Safe at hrisky
      push Not at hrisky
      obtain ⟨it, r, hop, hwritten, ⟨run, hrun, hlive⟩, row, hrow, hguard⟩ := hrisky
      exact ⟨it, r, hop, hwritten, run, hrun, hlive, row, hrow, by simpa using hguard⟩
    simp only [step, hop] at hstep
    obtain rfl := Option.some.inj hstep
    obtain ⟨-, mine, hmine, hitem⟩ := h.launched it r (List.mem_of_getElem? hop)
    obtain rfl := Option.some.inj (hrun.symm.trans hmine)
    exact secondRun_of_unmarked (r := r) hrun hlive (hitem ▸ hrow) hguard
  | stall i spent written =>
    obtain ⟨it, r', lastProgress, hop, rfl, hkey, r, run, hrun, hitem, hlive, -⟩ :
        ∃ it r lastProgress, s.operations[i]? = some (.stalling it r lastProgress) ∧
          written = true ∧ s.items.hasKey it.id = true ∧ BoundLive s it.id := by
      simpa [Safe] using hrisky
    simp only [step, hop] at hstep
    obtain rfl := Option.some.inj hstep
    obtain ⟨old, hold⟩ := Option.isSome_iff_exists.mp (Table.find?_isSome.trans hkey)
    have hrow : (updateWorkItemRun s.items it.id lastProgress "review" spent).find? run.item =
        some { old with
          progress := lastProgress, status := "review", spentHours := spent, id := it.id } := by
      rw [hitem, updateWorkItemRun, find?_rewrite_self, hold]
      rfl
    exact secondRun_of_unmarked (r := r) hrun hlive hrow (by simp [WorkItem.executing])
  | finish i spent written =>
    obtain ⟨it, r', final, finalProgress, hop, rfl, hkey, r, run, hrun, hitem, hlive, -⟩ :
        ∃ it r final finalProgress,
          s.operations[i]? = some (.finishing it r final finalProgress) ∧
          written = true ∧ s.items.hasKey it.id = true ∧ BoundLive s it.id := by
      simpa [Safe] using hrisky
    simp only [step, hop] at hstep
    obtain rfl := Option.some.inj hstep
    obtain ⟨old, hold⟩ := Option.isSome_iff_exists.mp (Table.find?_isSome.trans hkey)
    have hfinal := h.final it r' final finalProgress (List.mem_of_getElem? hop)
    have hrow : (updateWorkItemRun s.items it.id finalProgress final spent).find? run.item =
        some { old with
          progress := finalProgress, status := final, spentHours := spent, id := it.id } := by
      rw [hitem, updateWorkItemRun, find?_rewrite_self, hold]
      rfl
    refine secondRun_of_unmarked (r := r) hrun hlive hrow ?_
    rcases hfinal with rfl | rfl <;> simp [WorkItem.executing]
  | _ => exact absurd trivial hrisky

theorem invariant_initial : Invariant initial where
  one id := by simp [liveRuns, initial]
  marked id row hlive := by
    obtain ⟨r, run, hrun, -⟩ := hlive
    simp [initial] at hrun
  launched it r hmem := by simp [initial] at hmem
  ended it bound hmem := by simp [initial] at hmem
  final it r final finalProgress hmem := by simp [initial] at hmem

/-- In a run whose steps are safe no item ever has two live runs; the first unsafe step of a
run lets a second one start beside the first. -/
theorem one_live_run (events : List Event) :
    ((∀ t e u, StepRuns.Takes step initial events t e u → Safe t e) →
      ∀ t, StepRuns.Passes step initial events t → OneLiveRun t) ∧
    ∀ t e u, (∀ t e u, StepRuns.Takes step initial events t e u → Safe t e) →
      StepRuns.run step initial events = some t → step t e = some u → ¬ Safe t e → SecondRun u := by
  have hkept : (∀ t e u, StepRuns.Takes step initial events t e u → Safe t e) →
      ∀ t, StepRuns.Passes step initial events t → Invariant t :=
    StepRuns.keeps_of_safe (fun _ _ _ ht hsafe hnext => step_keeps ht hsafe hnext) invariant_initial
  constructor
  · intro hsafe t ht
    exact (hkept hsafe t ht).one
  · intro t e u hsafe hrun hstep hrisky
    exact (hkept hsafe t ⟨events, [], (List.append_nil _).symm, hrun⟩).unsafe_doubles hrisky hstep

/-- Two executes read the row before either writes it. -/
theorem executes_overlap :
    ¬ ∀ events t, StepRuns.Passes step initial events t → OneLiveRun t := by
  intro hall
  have hrun : (StepRuns.run step initial [.create { id := "", title := "ship it" } "wi-1",
      .execute "wi-1", .execute "wi-1", .launch 0 "0a", .launch 1 "0b"]).map
        (fun t => liveRuns t "wi-1") = some 2 := by
    decide
  obtain ⟨t, ht, hcount⟩ := Option.map_eq_some_iff.mp hrun
  have hone := hall _ t ⟨_, [], (List.append_nil _).symm, ht⟩ "wi-1"
  omega

end Steps

end WorkItemRuns
