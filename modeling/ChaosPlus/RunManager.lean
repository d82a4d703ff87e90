import ChaosPlus.RunEventLog

/-!
# The status of a run

Beside the log of its events a run keeps one status: it is set when a gate opens and when the
engine returns. The last one is read off the log, in which the engine's events of the nodes
stand among the review events of decisions.
-/
namespace RunManager

open ApprovalBroker (Decision Feedback Sending Waits)
open RunEventLog (ReviewInfo RunEvent RunStatus)
open WorkflowDefinition

/-- What is emitted for a run: an event of the engine, the review event of a decision, or a
change of the run's status. -/
inductive Emission where
  | lifecycle (nodeID : String) (status : Status) (output error : String)
  | review (nodeID : String) (decision : Decision)
  | runStatus (status : RunStatus)
  deriving DecidableEq, Repr

def Emission.event : Emission → RunEvent
  | .lifecycle nodeID status output error => { nodeID, status, output, error }
  | .review nodeID d =>
    { nodeID, status := .completed, review := some ⟨d.ok, d.reason, d.feedback⟩ }
  | .runStatus status => { runStatus := status }

abbrev Log := List Emission

def events (log : Log) : List RunEvent := log.map Emission.event

/-! ## The final status -/

def nodeByID (d : WorkflowDef) (id : String) : Option Node := d.nodes.find? (·.id = id)

def pausesOnReject (d : WorkflowDef) (id : String) : Bool :=
  ((nodeByID d id).bind Node.humanApproval).any fun spec => spec.onReject = "pause"

/-- The review of a gate that was rejected and pauses the run. -/
def pauses (d : WorkflowDef) (ev : RunEvent) : Bool :=
  ev.nodeID ≠ "" && ev.review.any fun review => !review.approved && pausesOnReject d ev.nodeID

def noteStatus (last : String → Option Status) (ev : RunEvent) : String → Option Status :=
  if ev.nodeID ≠ "" then Function.update last ev.nodeID (some ev.status) else last

def lastStatuses (evs : List RunEvent) : String → Option Status := evs.foldl noteStatus fun _ => none

def finalStatus (d : WorkflowDef) (err : Option String) (evs : List RunEvent) : RunStatus :=
  if err.isSome then .failed
  else if evs.any (pauses d) then .paused
  else if evs.any fun ev => lastStatuses evs ev.nodeID = some .failed then .failed
  else .completed

/-! ## What the log says of a node -/

def Emission.nodeID : Emission → String
  | .lifecycle nodeID .. => nodeID
  | .review nodeID _ => nodeID
  | .runStatus _ => ""

/-- The status that an event of the engine gives the node. -/
def Emission.lifecycleOf (n : String) : Emission → Option Status
  | .lifecycle nodeID status .. => if nodeID = n then some status else none
  | _ => none

def lastLifecycle (log : Log) (n : String) : Option Status := (log.filterMap (·.lifecycleOf n)).getLast?

def lastEmission (log : Log) (n : String) : Option Emission := (log.filter (·.nodeID = n)).getLast?

/-- The engine left the node failed. -/
def Failed (log : Log) (n : String) : Prop := n ≠ "" ∧ lastLifecycle log n = some .failed

/-- The last that was emitted for the node is a review. -/
def ReviewedLast (log : Log) (n : String) : Prop := ∃ decision, lastEmission log n = some (.review n decision)

/-- The run is reported completed only if no node is left failed. -/
def ReportsFailures (d : WorkflowDef) (err : Option String) (log : Log) : Prop :=
  finalStatus d err (events log) = .completed → ∀ n, ¬ Failed log n

theorem lastEmission_snoc (log : Log) (e : Emission) (n : String) :
    lastEmission (log ++ [e]) n = if e.nodeID = n then some e else lastEmission log n := by
  unfold lastEmission
  by_cases hnode : e.nodeID = n
  · simp [List.filter_append, hnode]
  · simp [List.filter_append, hnode]

theorem lastLifecycle_snoc (log : Log) (e : Emission) (n : String) :
    lastLifecycle (log ++ [e]) n = (e.lifecycleOf n).or (lastLifecycle log n) := by
  unfold lastLifecycle
  cases hown : e.lifecycleOf n with
  | none => simp [List.filterMap_append, hown]
  | some status => simp [List.filterMap_append, hown]

/-- The fold keeps the status of the last event that names the node. -/
theorem lastStatuses_eq {n : String} (hn : n ≠ "") (log : Log) :
    lastStatuses (events log) n = (lastEmission log n).map fun e => e.event.status := by
  induction log using List.reverseRecOn with
  | nil => rfl
  | append_singleton log e ih =>
    have hfold : lastStatuses (events (log ++ [e])) = noteStatus (lastStatuses (events log)) e.event := by
      simp [lastStatuses, events]
    have hid : e.event.nodeID = e.nodeID := by cases e <;> rfl
    rw [hfold, lastEmission_snoc]
    unfold noteStatus
    by_cases hnode : e.nodeID = n
    · simp [hid, hnode, hn]
    · by_cases hrun : e.nodeID = ""
      · simp [hid, hrun, Ne.symm hn, ih]
      · simp [hid, hrun, hnode, Function.update_of_ne (Ne.symm hnode), ih]

/-- Unless a review came last, the last event of a node is the engine's last one. -/
theorem lastLifecycle_eq {n : String} (hn : n ≠ "") {log : Log} (hlast : ¬ ReviewedLast log n) :
    lastLifecycle log n = (lastEmission log n).map fun e => e.event.status := by
  induction log using List.reverseRecOn with
  | nil => rfl
  | append_singleton log e ih =>
    unfold ReviewedLast at hlast
    rw [lastLifecycle_snoc, lastEmission_snoc]
    rw [lastEmission_snoc] at hlast
    by_cases hnode : e.nodeID = n
    · rw [if_pos hnode] at hlast ⊢
      cases e with
      | lifecycle nodeID status output error => simp [Emission.lifecycleOf, show nodeID = n from hnode, Emission.event]
      | review nodeID decision => exact absurd ⟨decision, by rw [show nodeID = n from hnode]⟩ hlast
      | runStatus status => exact absurd hnode.symm hn
    · have hother : e.lifecycleOf n = none := by
        cases e with
        | lifecycle nodeID => exact if_neg hnode
        | review | runStatus => rfl
      rw [if_neg hnode] at hlast ⊢
      rw [hother, Option.none_or]
      exact ih hlast

theorem lastStatuses_failed_iff {n : String} (hn : n ≠ "") (log : Log) :
    lastStatuses (events log) n = some .failed ↔ Failed log n ∧ ¬ ReviewedLast log n := by
  rw [lastStatuses_eq hn]
  by_cases hlast : ReviewedLast log n
  · obtain ⟨decision, hreview⟩ := id hlast
    simp [hlast, hreview, Emission.event]
  · simp [hlast, Failed, hn, lastLifecycle_eq hn hlast]

theorem lastStatuses_run (evs : List RunEvent) : lastStatuses evs "" = none := by
  induction evs using List.reverseRecOn with
  | nil => rfl
  | append_singleton evs ev ih =>
    have hfold : lastStatuses (evs ++ [ev]) = noteStatus (lastStatuses evs) ev := by simp [lastStatuses]
    rw [hfold]
    unfold noteStatus
    split_ifs with hnode
    · rw [Function.update_of_ne (Ne.symm hnode), ih]
    · exact ih

theorem any_failed_iff (log : Log) :
    ((events log).any fun ev => lastStatuses (events log) ev.nodeID = some .failed) = true ↔
      ∃ n, Failed log n ∧ ¬ ReviewedLast log n := by
  rw [List.any_eq_true]
  constructor
  · rintro ⟨ev, -, hfailed⟩
    have hfailed : lastStatuses (events log) ev.nodeID = some .failed := by simpa using hfailed
    have hn : ev.nodeID ≠ "" := by
      intro hempty
      rw [hempty, lastStatuses_run] at hfailed
      cases hfailed
    exact ⟨ev.nodeID, (lastStatuses_failed_iff hn log).mp hfailed⟩
  · rintro ⟨n, hfailed, hlast⟩
    have hstatus := (lastStatuses_failed_iff hfailed.1 log).mpr ⟨hfailed, hlast⟩
    obtain ⟨e, he, -⟩ := Option.map_eq_some_iff.mp ((lastStatuses_eq hfailed.1 log).symm.trans hstatus)
    obtain ⟨hlog, hown⟩ := List.mem_filter.mp (List.mem_of_getLast? he)
    have hid : e.event.nodeID = n := by
      rw [← of_decide_eq_true hown]
      cases e <;> rfl
    exact ⟨e.event, List.mem_map_of_mem hlog, by simpa [hid] using hstatus⟩

/-- The engine returned an error, or a rejected gate pauses the run, or one of the failed nodes
was not reviewed after its failure. -/
def FailureSeen (d : WorkflowDef) (err : Option String) (log : Log) : Prop :=
  err.isSome ∨ (∃ e ∈ log, pauses d e.event = true) ∨
    ((∃ n, Failed log n) → ∃ n, Failed log n ∧ ¬ ReviewedLast log n)

theorem failures_reported_iff (d : WorkflowDef) (err : Option String) (log : Log) :
    ReportsFailures d err log ↔ FailureSeen d err log := by
  unfold ReportsFailures FailureSeen finalStatus
  by_cases herr : err.isSome
  · simp [herr]
  by_cases hpause : (events log).any (pauses d) = true
  · obtain ⟨ev, hev, hpauses⟩ := List.any_eq_true.mp hpause
    obtain ⟨e, he, rfl⟩ := List.mem_map.mp hev
    simp only [herr, hpause, if_true]
    exact iff_of_true (by simp) (.inr (.inl ⟨e, he, hpauses⟩))
  have hnone : ¬ ∃ e ∈ log, pauses d e.event = true := fun ⟨e, he, hpauses⟩ =>
    hpause (List.any_eq_true.mpr ⟨e.event, List.mem_map_of_mem he, hpauses⟩)
  rw [if_neg herr, if_neg hpause]
  by_cases hfailed : ∃ n, Failed log n ∧ ¬ ReviewedLast log n
  · rw [if_pos ((any_failed_iff log).mpr hfailed)]
    exact iff_of_true (by simp) (.inr (.inr fun _ => hfailed))
  · rw [if_neg (mt (any_failed_iff log).mp hfailed)]
    constructor
    · intro hall
      refine .inr (.inr ?_)
      rintro ⟨n, hn⟩
      exact absurd hn (hall rfl n)
    · rintro (h | h | h) _ n hn
      · exact herr h
      · exact hnone h
      · exact hfailed (h ⟨n, hn⟩)

def agentNode (id : String) : Node := { id, type := .agent, agent := some { id, role := "dev", executor := "claude" } }

/-- An approval that is posted for an agent after its failure, while another one works, hides the
failure. -/
theorem reviewed_failure_hidden :
    ¬ ReportsFailures ⟨"flow", "1", [agentNode "build", agentNode "test"], []⟩ none
      [.runStatus .running, .lifecycle "build" .running "" "", .lifecycle "build" .failed "" "exit 1",
        .lifecycle "test" .running "" "", .review "build" ⟨true, "", none⟩,
        .lifecycle "test" .completed "true" ""] :=
  fun hreports => hreports (by decide) "build" ⟨by decide, by decide⟩

/-! ## The status while the run goes on -/

structure Run where
  definition : WorkflowDef
  status : RunStatus
  log : Log
  broker : ApprovalBroker.State
  finished : Bool

/-- What `Launch` leaves behind. -/
def launch (d : WorkflowDef) : Run := ⟨d, .running, [.runStatus .running], ApprovalBroker.initial, false⟩

/-- `openGate` is a gate's event together with its call of `Wait`; `receive` and `cancel` are
returns of that call. -/
inductive Event where
  | engine (nodeID : String) (status : Status) (output error : String)
  | openGate (nodeID : String)
  | resolve (nodeID : String) (ok : Bool) (reason : String) (feedback : Option Feedback)
  | deliver (snd : Sending)
  | receive (x : Nat)
  | cancel (x : Nat)
  | finish (err : Option String)
  deriving DecidableEq, Repr

def emit (r : Run) (e : Emission) : Run := { r with log := r.log ++ [e] }

def withBroker (r : Run) (broker : Option ApprovalBroker.State) : Option Run :=
  broker.map fun broker => { r with broker }

/-- The live hook of the engine. -/
def onEvent (r : Run) (nodeID : String) (status : Status) (output error : String) : Run :=
  emit (if status = .waitingApproval then { r with status := .waitingApproval } else r)
    (.lifecycle nodeID status output error)

def finish (r : Run) (err : Option String) : Run :=
  let status := finalStatus r.definition err (events r.log)
  emit { r with status, finished := true } (.runStatus status)

/-- Decisions may still be posted for a run that has ended. -/
def step (r : Run) : Event → Option Run
  | .engine nodeID status output error =>
    if r.finished ∨ status = .waitingApproval then none else some (onEvent r nodeID status output error)
  | .openGate nodeID =>
    if r.finished then none
    else withBroker (onEvent r nodeID .waitingApproval "" "") (ApprovalBroker.step r.broker (.wait nodeID))
  | .resolve nodeID ok reason feedback =>
    withBroker r (ApprovalBroker.step r.broker (.resolve nodeID ok reason feedback))
  | .deliver snd =>
    withBroker (emit r (.review snd.nodeID snd.decision)) (ApprovalBroker.step r.broker (.deliver snd))
  | .receive x => if r.finished then none else withBroker r (ApprovalBroker.step r.broker (.receive x))
  | .cancel x => if r.finished then none else withBroker r (ApprovalBroker.step r.broker (.cancel x))
  | .finish err => if r.finished then none else some (finish r err)

/-- The run waits for approval exactly while a gate of it is blocked. -/
def ShowsWaiting (r : Run) : Prop :=
  r.status = .waitingApproval ↔ (∃ x, Waits r.broker x) ∧ r.finished = false

/-- A gate that opens blocks, for nothing is decided for it and nobody waits for it, and one that
is released leaves another one blocked. -/
def Safe (r : Run) : Event → Prop
  | .openGate nodeID =>
    r.broker.broker.decided nodeID = none ∧ r.broker.broker.pending nodeID = none ∨ ∃ x, Waits r.broker x
  | .receive x | .cancel x => ∃ y, y ≠ x ∧ Waits r.broker y
  | _ => True

section Waiting

variable {b : ApprovalBroker.State} {x y : Nat}

theorem waits_start {nodeID : String} {status : ApprovalBroker.ExecutionStatus} :
    Waits (ApprovalBroker.start b nodeID status) x ↔
      Waits b x ∨ x = b.executions.length ∧ status = .waiting := by
  have hlog : (ApprovalBroker.start b nodeID status).executions = b.executions ++ [⟨nodeID, status⟩] := rfl
  unfold Waits
  rw [hlog]
  rcases Nat.lt_trichotomy x b.executions.length with hlt | rfl | hgt
  · rw [List.getElem?_append_left hlt]
    have hne : x ≠ b.executions.length := by omega
    simp [hne]
  · simp
  · have hold : b.executions[x]? = none := List.getElem?_eq_none (by omega)
    have hnew : (b.executions ++ [⟨nodeID, status⟩])[x]? = none :=
      List.getElem?_eq_none (by rw [List.length_append, List.length_singleton]; omega)
    have hne : x ≠ b.executions.length := by omega
    simp [hold, hnew, hne]

theorem waits_wait {nodeID : String} :
    (∃ x, Waits (ApprovalBroker.wait b nodeID) x) ↔
      b.broker.decided nodeID = none ∧ b.broker.pending nodeID = none ∨ ∃ x, Waits b x := by
  unfold ApprovalBroker.wait
  cases hdecided : b.broker.decided nodeID with
  | some d => simp [waits_start]
  | none =>
    cases hpending : b.broker.pending nodeID with
    | some y => simp [waits_start]
    | none =>
      refine iff_of_true ⟨b.executions.length, ?_⟩ (.inl ⟨rfl, rfl⟩)
      exact waits_start.mpr (.inr ⟨rfl, rfl⟩)

/-- The call of an execution that has returned waits no longer; the others are as they were. -/
theorem waits_finish {status : ApprovalBroker.ExecutionStatus} (hstatus : status ≠ .waiting) :
    Waits (ApprovalBroker.finish b x status) y ↔ y ≠ x ∧ Waits b y := by
  unfold Waits ApprovalBroker.finish
  simp only [List.getElem?_modify]
  by_cases hxy : x = y
  · subst hxy
    simp [hstatus]
  · simp [hxy, Ne.symm hxy]

end Waiting

section Steps

variable {r next : Run}

/-- Where the status stays, the same executions have to wait. -/
theorem showsWaiting_congr (h : ShowsWaiting r) (hstatus : next.status = r.status)
    (hfinished : next.finished = r.finished)
    (hwaits : ∀ x, Waits next.broker x ↔ Waits r.broker x) : ShowsWaiting next := by
  unfold ShowsWaiting
  simp only [hstatus, hfinished, hwaits]
  exact h

/-- A gate is released: the status stays, so another one has to wait. -/
theorem showsWaiting_release (h : ShowsWaiting r) {x : Nat} {broker : ApprovalBroker.State}
    (hwaits : Waits r.broker x) (hopen : r.finished = false)
    (hreleased : ∀ y, Waits broker y ↔ y ≠ x ∧ Waits r.broker y) :
    ShowsWaiting { r with broker } ↔ ∃ y, y ≠ x ∧ Waits r.broker y := by
  have hstatus : r.status = .waitingApproval := h.mpr ⟨⟨x, hwaits⟩, hopen⟩
  unfold ShowsWaiting
  simp [hstatus, hopen, hreleased]

theorem finalStatus_ne_waiting (d : WorkflowDef) (err : Option String) (evs : List RunEvent) :
    finalStatus d err evs ≠ .waitingApproval := by
  unfold finalStatus
  split_ifs <;> simp

theorem step_shows_iff {e : Event} (h : ShowsWaiting r) (hstep : step r e = some next) :
    ShowsWaiting next ↔ Safe r e := by
  cases e with
  | engine nodeID status output error =>
    simp only [step] at hstep
    split_ifs at hstep with hguard
    obtain rfl := Option.some.inj hstep
    obtain ⟨-, hstatus⟩ := not_or.mp hguard
    refine iff_of_true (showsWaiting_congr h ?_ ?_ fun x => ?_) trivial
    all_goals simp [onEvent, emit, hstatus]
  | openGate nodeID =>
    simp only [step] at hstep
    split_ifs at hstep with hfinished
    obtain rfl := Option.some.inj hstep
    have hopen : r.finished = false := by simpa using hfinished
    unfold ShowsWaiting Safe
    simp [onEvent, emit, hopen, waits_wait]
  | resolve nodeID ok reason feedback =>
    obtain ⟨broker, hbroker, rfl⟩ := Option.map_eq_some_iff.mp hstep
    refine iff_of_true (showsWaiting_congr h rfl rfl fun x => ?_) trivial
    simp only [ApprovalBroker.step] at hbroker
    cases hresolve : ApprovalBroker.resolve r.broker nodeID ok reason feedback with
    | error e =>
      rw [hresolve] at hbroker
      obtain rfl := Option.some.inj hbroker
      rfl
    | ok recorded =>
      rw [hresolve] at hbroker
      obtain rfl := Option.some.inj hbroker
      obtain ⟨-, rfl⟩ := ApprovalBroker.resolve_ok hresolve
      rfl
  | deliver snd =>
    obtain ⟨broker, hbroker, rfl⟩ := Option.map_eq_some_iff.mp hstep
    refine iff_of_true (showsWaiting_congr h rfl rfl fun x => ?_) trivial
    simp only [ApprovalBroker.step] at hbroker
    split_ifs at hbroker
    obtain rfl := Option.some.inj hbroker
    rfl
  | receive x =>
    simp only [step] at hstep
    split_ifs at hstep with hfinished
    have hopen : r.finished = false := by simpa using hfinished
    obtain ⟨broker, hbroker, rfl⟩ := Option.map_eq_some_iff.mp hstep
    simp only [ApprovalBroker.step] at hbroker
    cases hchannel : r.broker.channels x with
    | none => simp [hchannel] at hbroker
    | some d =>
      simp only [hchannel] at hbroker
      split_ifs at hbroker with hwaits
      obtain rfl := Option.some.inj hbroker
      have hcompleted : ApprovalBroker.ExecutionStatus.completed d ≠ .waiting := by simp
      exact showsWaiting_release h hwaits hopen fun y => waits_finish hcompleted
  | cancel x =>
    simp only [step] at hstep
    split_ifs at hstep with hfinished
    have hopen : r.finished = false := by simpa using hfinished
    obtain ⟨broker, hbroker, rfl⟩ := Option.map_eq_some_iff.mp hstep
    simp only [ApprovalBroker.step] at hbroker
    split_ifs at hbroker with hwaits
    obtain rfl := Option.some.inj hbroker
    have hfailed : ApprovalBroker.ExecutionStatus.failed ≠ .waiting := by simp
    exact showsWaiting_release h hwaits hopen fun y => waits_finish hfailed
  | finish err =>
    simp only [step] at hstep
    split_ifs at hstep
    obtain rfl := Option.some.inj hstep
    refine iff_of_true ?_ trivial
    simp [ShowsWaiting, finish, emit, finalStatus_ne_waiting]

end Steps

/-- A run shows that it waits for approval in exactly the states in which a gate of it does, if and
only if every gate that opens blocks and none that is released was the last one blocked. -/
theorem waiting_shown_iff (d : WorkflowDef) (evs : List Event) :
    (∀ r, StepRuns.Passes step (launch d) evs r → ShowsWaiting r) ↔
      ∀ r e next, StepRuns.Takes step (launch d) evs r e next → Safe r e := by
  refine StepRuns.keeps_iff_safe (fun r e next h hstep => step_shows_iff h hstep) ?_
  simp [ShowsWaiting, launch, Waits, ApprovalBroker.initial]

def gateNode (id : String) : Node := { id, type := .humanApproval, humanApproval := some ⟨0, "fail", "fail"⟩ }

/-- The gate is approved, and its run goes on as one that waits. -/
theorem waiting_shown_after_decision :
    ¬ ∀ r, StepRuns.Passes step
      (launch ⟨"flow", "1", [gateNode "gate", agentNode "deploy"],
        [⟨"gate", "deploy", .approved, ""⟩]⟩)
      [.openGate "gate", .resolve "gate" true "" none, .deliver ⟨"gate", ⟨true, "", none⟩, some 0⟩, .receive 0,
        .engine "gate" .completed "true" "", .engine "deploy" .running "" ""] r → ShowsWaiting r := by
  intro hall
  have hrun : (StepRuns.run step
      (launch ⟨"flow", "1", [gateNode "gate", agentNode "deploy"],
        [⟨"gate", "deploy", .approved, ""⟩]⟩)
      [.openGate "gate", .resolve "gate" true "" none, .deliver ⟨"gate", ⟨true, "", none⟩, some 0⟩, .receive 0,
        .engine "gate" .completed "true" "", .engine "deploy" .running "" ""]).map
        (fun r => (r.status, r.broker.executions)) =
      some (.waitingApproval, [⟨"gate", .completed ⟨true, "", none⟩⟩]) := by
    decide
  obtain ⟨r, hr, hfacts⟩ := Option.map_eq_some_iff.mp hrun
  obtain ⟨hstatus, hexecutions⟩ := Prod.mk.inj hfacts
  obtain ⟨⟨x, nodeID, hwaits⟩, -⟩ := (hall r ⟨_, [], (List.append_nil _).symm, hr⟩).mp hstatus
  rw [hexecutions] at hwaits
  cases x with
  | zero => simp at hwaits
  | succ x => simp at hwaits

end RunManager
