import ChaosPlus.DefinitionNodes

/-!
# Approval gates in a run

A gate of the definition keeps its state until it is executed again or a loop resets it, so a
completed gate carries the answer of its last execution. A node behind it reads that state,
unless it is a join, which waits for its upstreams and no more.
-/
namespace ApprovalGates

open WorkflowDefinition WorkflowEngine WorkflowRun EngineUpdates EngineSafety
open NodeOutcomes DefinitionNodes
open StepRuns (run Takes)
open WorkflowValidation (Accepted)

/-- The answer that an execution of the gate gets here. -/
def Decides (w : World) (c : Config) (gate : String) (ok : Bool) : Prop :=
  ∃ st running waiting d, c.engine.states gate = some st ∧
    mark c.engine gate .running .empty "" = some running ∧
    mark running gate .waitingApproval .empty "" = some waiting ∧
    w.approve waiting st.node = .ok d ∧ d.ok = ok

/-- The gate's last execution in the run got this answer. -/
def LastDecision (w : World) (s : Config) (choices : List Choice) (gate : String) (ok : Bool) : Prop :=
  ∃ before choice after c c', choices = before ++ choice :: after ∧ run (step w) s before = some c ∧
    step w c choice = some c' ∧ Starts c choice gate ∧ Decides w c gate ok ∧
    ∀ t a u, Takes (step w) c' after t a u → ¬ Starts t a gate

section Step

variable {d : WorkflowDef} {w : World} {c c' : Config} {choice : Choice} {gate : Node}

/-- A gate that an execution completes has the answer as its state. -/
theorem gate_executed (hc : Grounded d c) (hgate : gate ∈ d.nodes) (htype : gate.type = .humanApproval)
    (hapart : Apart d gate.id) (hstarts : Starts c choice gate.id) (h : step w c choice = some c') :
    ∀ st', c'.engine.states gate.id = some st' → st'.status = .completed →
      Decides w c gate.id st'.approved := by
  obtain ⟨st, hst, rfl⟩ := hc.holds.kept gate hgate hapart
  have hid := hc.wellFormed.node_ids _ st hst
  rcases starts_step hstarts h with ⟨hnone, -⟩ | ⟨frame, _, hexecute, -⟩
  · have hloop := ((execute_none_iff hc.wellFormed hst).mp hnone).1
    simp [htype] at hloop
  obtain ⟨running, hmark, hrunning, -, hsettle⟩ := execute_cases hst hexecute
  cases hresult : executeNode w running st.node.id st with
  | none =>
    rw [hresult] at hsettle
    cases hsettle
  | some pair =>
    obtain ⟨mid, outcome⟩ := pair
    have happroval : execApproval w running st = some (mid, outcome) := by
      simpa [executeNode, htype] using hresult
    obtain ⟨hends, hdecides⟩ := execApproval_ends rfl hrunning.state happroval
    rw [hresult] at hsettle
    cases hends with
    | ok hbecomes hnode hstatus =>
      obtain ⟨waiting, decision, done, hwaiting, hanswer, hdone, happroved⟩ := hdecides rfl
      obtain ⟨rfl, -⟩ := Prod.mk.inj (Option.some.inj hsettle)
      intro st' hst' _
      obtain rfl := Option.some.inj (hdone.symm.trans hst')
      exact ⟨st, running, waiting, decision, hst, hmark, hwaiting, hanswer, happroved.symm⟩
    | error msg hbecomes hnode hattempts =>
      obtain ⟨handled, hhandled, heq⟩ := Option.map_eq_some_iff.mp hsettle
      obtain ⟨rfl, -⟩ := Prod.mk.inj heq
      intro st' hst' hcompleted
      cases (handleError_handled hbecomes.state rfl hhandled).1 with
      | failed hdone _ hstatus =>
        obtain rfl := Option.some.inj (hdone.state.symm.trans hst')
        simp [hstatus] at hcompleted
      | retried hdone _ hstatus =>
        obtain rfl := Option.some.inj (hdone.state.symm.trans hst')
        simp [hstatus] at hcompleted

/-- A reset leaves no node completed. -/
theorem reset_completed {body : List String} {e e' : Engine} {x : String} {st' : NodeState}
    (hreset : Reset body e e') (hst' : e'.states x = some st') (hcompleted : st'.status = .completed) :
    e.states x = some st' := by
  rw [hreset.states] at hst'
  split_ifs at hst' with hx
  · obtain ⟨st, -, rfl⟩ := Option.map_eq_some_iff.mp hst'
    simp [resetState] at hcompleted
  · exact hst'

/-- No other step completes the gate. -/
theorem gate_untouched (hc : Grounded d c) (hgate : gate ∈ d.nodes)
    (htype : gate.type = .humanApproval) (hapart : Apart d gate.id)
    (hstarts : ¬ Starts c choice gate.id) (h : step w c choice = some c') :
    ∀ st', c'.engine.states gate.id = some st' → st'.status = .completed →
      c.engine.states gate.id = some st' := by
  intro st' hst' hcompleted
  cases step_effect h with
  | idle hsame => rwa [hsame] at hst'
  | @ran id frame hran hexecute =>
    have hother : gate.id ≠ id := by
      rintro rfl
      exact hstarts hran
    obtain ⟨st, hst, -⟩ := hran.1.1
    have hid := hc.wellFormed.node_ids id st hst
    by_cases hfork : st.node.type = .parallelFork
    · cases (execute_fork hfork hid hst hexecute).2 with
      | failed hdone => rwa [hdone.only.states _ hother] at hst'
      | @expanded running spec items template joinID grown output hmark hspec heval htemplate hjoin
          hexpanded hcomplete =>
        have hfresh : ∀ k < items.length, gate.id ≠ cloneID spec.templateNodeID (0 + k) := fun k _ =>
          (fork_apart (hc.holds.origin id st hst) hfork hspec hapart _).symm
        have hrunning := mark_becomes hst hmark
        obtain ⟨cur, hcur⟩ := hexpanded.fork_state hrunning.state
        rw [(complete_becomes hcur hcomplete).only.states _ hother, (hexpanded.others _ hfresh).1,
          hrunning.only.states _ hother] at hst'
        exact hst'
    by_cases hloop : st.node.type = .loop
    · cases execute_loop hloop hid hst hexecute with
      | failed hdone => rwa [hdone.only.states _ hother] at hst'
      | entered hrunning _ _ _ hreset =>
        have hrun := reset_completed hreset hst' hcompleted
        rwa [hrunning.only.states _ hother] at hrun
    · obtain ⟨_, _, hdone, -⟩ := (execute_ran ⟨hfork, hloop⟩ hid hst hexecute).2.becomes
      rwa [hdone.only.states _ hother] at hst'
  | @ended frame next hframe hsettle =>
    obtain ⟨hloop, hknown, -, hkept⟩ := hc.frames frame hframe
    obtain ⟨st, hst⟩ := exists_state hknown
    have hother : gate.id ≠ frame.node.id := by
      intro heq
      rw [hkept gate hgate hapart heq.symm, htype] at hloop
      cases hloop
    have hagent : frame.node.type ≠ .agent := by simp [hloop]
    cases endBody_ended hagent hst hsettle with
    | completed hdone => rwa [hdone.only.states _ hother] at hst'
    | failed hdone => rwa [hdone.only.states _ hother] at hst'
    | again _ _ _ hreset => exact reset_completed hreset hst' hcompleted
  | @skipped id hmark =>
    obtain ⟨st, hst, hstates, -⟩ := mark_state hmark
    rw [hstates] at hst'
    by_cases hx : gate.id = id
    · rw [hx, Function.update_self] at hst'
      obtain rfl := Option.some.inj hst'
      simp at hcompleted
    · rwa [Function.update_of_ne hx] at hst'
  | crashed hcrash =>
    rw [hcrash] at hst'
    exact hst'

end Step

section Run

variable {d : WorkflowDef} {w : World} {s : Config} {gate : Node}

theorem LastDecision.extend {choices : List Choice} {ok : Bool} {c : Config} {choice : Choice}
    (h : LastDecision w s choices gate.id ok) (hrun : run (step w) s choices = some c)
    (hstarts : ¬ Starts c choice gate.id) : LastDecision w s (choices ++ [choice]) gate.id ok := by
  obtain ⟨before, first, after, t, u, rfl, hbefore, hstep, hfirst, hdecides, hlast⟩ := h
  refine ⟨before, first, after ++ [choice], t, u, by simp, hbefore, hstep, hfirst, hdecides, ?_⟩
  intro v a v' htakes
  rcases StepRuns.takes_snoc.mp htakes with htakes | ⟨hv, rfl, -⟩
  · exact hlast v a v' htakes
  · have hsame : run (step w) s (before ++ first :: after) = some v := by
      simp [StepRuns.run_append, hbefore, run, hstep, hv]
    obtain rfl := Option.some.inj (hrun.symm.trans hsame)
    exact hstarts

/-- In every run a completed gate carries the answer of its last execution. -/
theorem completed_gate_decided (hgate : gate ∈ d.nodes) (htype : gate.type = .humanApproval)
    (hapart : Apart d gate.id) (hs : Grounded d s)
    (hfresh : ∀ st, s.engine.states gate.id = some st → st.status ≠ .completed) :
    ∀ choices c, run (step w) s choices = some c → Grounded d c ∧
      ∀ st, c.engine.states gate.id = some st → st.status = .completed →
        LastDecision w s choices gate.id st.approved := by
  refine StepRuns.along ⟨hs, fun st hst hcompleted => absurd hcompleted (hfresh st hst)⟩ ?_
  rintro choices c choice c' hrun ⟨hc, hdecided⟩ hstep
  refine ⟨grounded_step hc hstep, fun st hst hcompleted => ?_⟩
  by_cases hstarts : Starts c choice gate.id
  · exact ⟨choices, choice, [], c, c', rfl, hrun, hstep, hstarts,
      gate_executed hc hgate htype hapart hstarts hstep st hst hcompleted,
      fun t a u htakes => absurd htakes StepRuns.not_takes_nil⟩
  · have hst' := gate_untouched hc hgate htype hapart hstarts hstep st hst hcompleted
    exact (hdecided st hst' hcompleted).extend hrun hstarts

end Run

theorem start_pending (d : WorkflowDef) (context : RawMessage) {id : String} {st : NodeState}
    (h : (start (indexDefinition d) context).engine.states id = some st) : st.status = .pending := by
  have hstates : (start (indexDefinition d) context).engine.states = initialStates d := by
    unfold start
    split <;> rfl
  rw [hstates] at h
  rw [(initialStates_eq_some h).2.2]

/-- A node behind a gate starts only after the gate's last execution has answered as the edge
between them says. A join behind a gate starts once the gate has ended, and fails if the gate
has failed. -/
theorem gate_guards_targets {d : WorkflowDef} {e : Engine} (hnew : newEngine d = .ok e) (w : World)
    (context : RawMessage) {gate n : Node} {ed : Edge} (hgate : gate ∈ d.nodes)
    (htype : gate.type = .humanApproval) (hn : n ∈ d.nodes) (hed : ed ∈ d.edges)
    (hsource : ed.source = gate.id) (htarget : ed.target = n.id) (hapart : Apart d gate.id)
    (hapart' : Apart d n.id) {choices : List Choice} {c : Config} {choice : Choice}
    (hrun : run (step w) (start e context) choices = some c) (hstarts : Starts c choice n.id) :
    (n.type ≠ .join → ∃ st ok, c.engine.states gate.id = some st ∧ st.status = .completed ∧
      LastDecision w (start e context) choices gate.id ok ∧
      ed.condition = if ok then .approved else .rejected) ∧
    (n.type = .join → ∃ st, c.engine.states gate.id = some st ∧ terminal st.status = true ∧
      (st.status = .failed → ∀ c', step w c choice = some c' →
        ∃ st', c'.engine.states n.id = some st' ∧ st'.status = .failed)) := by
  obtain ⟨hd, rfl⟩ := newEngine_ok hnew
  have hfresh : ∀ st, (start (indexDefinition d) context).engine.states gate.id = some st →
      st.status ≠ .completed := fun st hst => by simp [start_pending d context hst]
  obtain ⟨hc, hdecided⟩ := completed_gate_decided hgate htype hapart (grounded_start hd context) hfresh
    choices c hrun
  obtain ⟨stn, hstn, hnode⟩ := hc.holds.kept n hn hapart'
  obtain ⟨stg, hstg, hgateNode⟩ := hc.holds.kept gate hgate hapart
  have hin : ed ∈ c.engine.inEdges n.id := htarget ▸ hc.holds.edges ed hed
  obtain ⟨src, hsrc, hterminal, hholds⟩ := ((begins_iff hstn).mp hstarts.1).2 ed hin
  obtain rfl := Option.some.inj (hstg.symm.trans (hsource ▸ hsrc))
  refine ⟨fun hjoin => ?_, fun hjoin => ⟨stg, hstg, hterminal, fun hfailed c' hstep => ?_⟩⟩
  · have hedge := hholds (hnode ▸ hjoin)
    have hcondition := hd.gate_edges gate hgate htype ed hed hsource
    simp only [edgeHolds, hgateNode, htype, reduceCtorEq, if_false] at hedge
    rcases hcondition with happroved | hrejected
    · simp only [happroved, edgeConditionHolds, Bool.and_eq_true, decide_eq_true_eq] at hedge
      have hlast := hdecided stg hstg hedge.1
      rw [hedge.2] at hlast
      exact ⟨stg, true, hstg, hedge.1, hlast, happroved⟩
    · simp only [hrejected, edgeConditionHolds, Bool.and_eq_true, decide_eq_true_eq,
        Bool.not_eq_true'] at hedge
      have hlast := hdecided stg hstg hedge.1
      rw [hedge.2] at hlast
      exact ⟨stg, false, hstg, hedge.1, hlast, hrejected⟩
  · have hid := hc.wellFormed.node_ids n.id stn hstn
    rcases starts_step hstarts hstep with ⟨hnone, -⟩ | ⟨frame, _, hexecute, -⟩
    · have hloop := ((execute_none_iff hc.wellFormed hstn).mp hnone).1
      rw [hnode, hjoin] at hloop
      cases hloop
    · obtain ⟨⟨st, hst, hpending⟩, -⟩ := hstarts.1
      obtain rfl := Option.some.inj (hstn.symm.trans hst)
      obtain ⟨st', hdone, -, hstatus⟩ := execute_join (hnode ▸ hjoin) hid hstn (by simp [hpending])
        hexecute
      have hupstream : UpstreamFailed c.engine n.id := ⟨ed, hin, stg, hsrc, hfailed⟩
      rcases hstatus with ⟨hstatus, -⟩ | ⟨-, hnot⟩
      · exact ⟨st', hdone.state, hstatus⟩
      · exact absurd hupstream hnot

/-! A gate before one node, a trigger or a join. -/

def gateBefore (type : NodeType) : WorkflowDef where
  id := "w"
  version := "1"
  nodes := [{ id := "gate", type := .humanApproval, humanApproval := some ⟨0, "pause", "pause"⟩ },
    { id := "n", type := type, trigger := some ⟨"manual"⟩ }]
  edges := [⟨"gate", "n", .approved, ""⟩]

def rejectingWorld : World := { quietWorld with approve := fun _ _ => .ok { ok := false } }

/-- After the gate's execution the node behind it can start. -/
theorem starts_behind_gate (w : World) (s : Config) (approved : Bool)
    (h : (run (step w) s [.visit "gate"]).map (fun c =>
      ((c.engine.states "n").map NodeState.status, ready c.engine "n",
        c.frames.isEmpty && !unscheduled c.engine "n",
        (c.engine.states "gate").map fun st => (st.status, st.approved))) =
      some (some .pending, some true, true, some (.completed, approved))) :
    ∃ c, run (step w) s [.visit "gate"] = some c ∧ Starts c (.visit "n") "n" ∧
      ∃ st, c.engine.states "gate" = some st ∧ st.status = .completed ∧ st.approved = approved := by
  obtain ⟨c, hrun, hfacts⟩ := Option.map_eq_some_iff.mp h
  simp only [Prod.mk.injEq] at hfacts
  obtain ⟨hpending, hready, hwhere, hgate⟩ := hfacts
  obtain ⟨hframes, hscheduled⟩ : c.frames = [] ∧ unscheduled c.engine "n" = false := by
    simpa using hwhere
  obtain ⟨st, hst, hstatus⟩ := Option.map_eq_some_iff.mp hpending
  obtain ⟨gate, hgate, hanswer⟩ := Option.map_eq_some_iff.mp hgate
  obtain ⟨hcompleted, happroved⟩ := Prod.mk.inj hanswer
  exact ⟨c, hrun, ⟨⟨⟨st, hst, hstatus⟩, hready⟩, .inl ⟨rfl, hframes, hscheduled⟩⟩,
    gate, hgate, hcompleted, happroved⟩

theorem newEngine_gateBefore {type : NodeType} (h : WorkflowValidation.validate (gateBefore type) = .ok ()) :
    newEngine (gateBefore type) = .ok (indexDefinition (gateBefore type)) := by
  simp only [newEngine, h]
  rfl

theorem apart_gateBefore {type : NodeType} (h : type ≠ .parallelFork) (id : String) :
    Apart (gateBefore type) id := by
  intro f hf htype
  obtain rfl | rfl : f = _ ∨ f = _ := by simpa [gateBefore] using hf
  · cases htype
  · exact absurd htype h

theorem approved_trigger_follows_its_gate :
    ∃ c ok, run (step quietWorld) (start (indexDefinition (gateBefore .trigger)) .empty)
      [.visit "gate"] = some c ∧ LastDecision quietWorld
        (start (indexDefinition (gateBefore .trigger)) .empty) [.visit "gate"] "gate" ok ∧
      EdgeCondition.approved = if ok then .approved else .rejected := by
  obtain ⟨c, hrun, hstarts, -⟩ := starts_behind_gate quietWorld
    (start (indexDefinition (gateBefore .trigger)) .empty) true (by decide)
  have hgate : { id := "gate", type := .humanApproval, humanApproval := some ⟨0, "pause", "pause"⟩ } ∈
      (gateBefore .trigger).nodes := by simp [gateBefore]
  have hn : { id := "n", type := .trigger, trigger := some ⟨"manual"⟩ } ∈
      (gateBefore .trigger).nodes := by simp [gateBefore]
  have hed : ⟨"gate", "n", .approved, ""⟩ ∈ (gateBefore .trigger).edges := by simp [gateBefore]
  have hguarded := gate_guards_targets (newEngine_gateBefore (by decide)) quietWorld .empty
    hgate rfl hn hed rfl rfl (apart_gateBefore (by simp) _) (apart_gateBefore (by simp) _) hrun hstarts
  obtain ⟨_, ok, -, -, hlast, hcondition⟩ := hguarded.1 (by simp)
  exact ⟨c, ok, hrun, hlast, hcondition⟩

/-- A fork whose only clone takes the id of the gate. -/
def cloneOverGate : WorkflowDef where
  id := "w"
  version := "1"
  nodes := [{ id := "fork", type := .parallelFork, fanOut := some ⟨"items", "T"⟩ },
    { id := "T", type := .trigger, trigger := some ⟨"manual"⟩ },
    { id := "T#0", type := .humanApproval, humanApproval := some ⟨0, "pause", "pause"⟩ },
    { id := "n", type := .trigger, trigger := some ⟨"manual"⟩ }]
  edges := [⟨"T#0", "n", .rejected, ""⟩]

/-- A join behind the approved edge of a gate starts after the gate was rejected, and a node
behind the rejected edge of a gate starts though no gate was asked, after a clone has taken
the gate's place. -/
theorem gates_are_bypassed :
    (∃ e, newEngine (gateBefore .join) = .ok e ∧
      ∃ c, run (step rejectingWorld) (start e .empty) [.visit "gate"] = some c ∧
        Starts c (.visit "n") "n" ∧
        ∃ st, c.engine.states "gate" = some st ∧ st.status = .completed ∧ st.approved = false) ∧
    ∃ e, newEngine cloneOverGate = .ok e ∧
      ∃ c, run (step oneItemWorld) (start e .empty) [.visit "fork", .visit "T#0"] = some c ∧
        Starts c (.visit "n") "n" ∧ ∀ ev ∈ c.engine.events, ev.status ≠ .waitingApproval := by
  refine ⟨⟨_, newEngine_gateBefore (by decide), starts_behind_gate _ _ _ (by decide)⟩, ?_⟩
  have haccepted : newEngine cloneOverGate = .ok (indexDefinition cloneOverGate) := by
    have hvalidate : WorkflowValidation.validate cloneOverGate = .ok () := by decide
    simp only [newEngine, hvalidate]
    rfl
  refine ⟨_, haccepted, ?_⟩
  have hrun : (run (step oneItemWorld) (start (indexDefinition cloneOverGate) .empty)
      [.visit "fork", .visit "T#0"]).map (fun c => ((c.engine.states "n").map NodeState.status,
        ready c.engine "n", c.frames.isEmpty && !unscheduled c.engine "n",
        c.engine.events.all fun ev => ev.status ≠ .waitingApproval)) =
      some (some .pending, some true, true, true) := by
    decide
  obtain ⟨c, hc, hfacts⟩ := Option.map_eq_some_iff.mp hrun
  simp only [Prod.mk.injEq] at hfacts
  obtain ⟨hpending, hready, hwhere, hevents⟩ := hfacts
  obtain ⟨hframes, hscheduled⟩ : c.frames = [] ∧ unscheduled c.engine "n" = false := by
    simpa using hwhere
  obtain ⟨st, hst, hstatus⟩ := Option.map_eq_some_iff.mp hpending
  exact ⟨c, hc, ⟨⟨⟨st, hst, hstatus⟩, hready⟩, .inl ⟨rfl, hframes, hscheduled⟩⟩, by simpa using hevents⟩

end ApprovalGates
