import ChaosPlus.SchedulingRounds
import ChaosPlus.SpawnTermination

/-!
# Branches and their joins

Definitions without forks, loops, gates and sub-workflows. Every node runs once at most, and once
the scheduling loop has ended the nodes that ran are exactly those whose in-edges are satisfied.
-/
namespace BranchRouting

open WorkflowDefinition WorkflowEngine WorkflowRun EngineUpdates NodeOutcomes
open SchedulingRounds
open WorkflowValidation (Accepted)

/-- The node types of branching and joining. -/
def Flat (d : WorkflowDef) : Prop :=
  ∀ n ∈ d.nodes, n.type = .trigger ∨ n.type = .transform ∨ n.type = .agent ∨ n.type = .condition ∨
    n.type = .join

/-- A node that has completed; a condition has selected the branch given for it. -/
def completedState (branch : String → String) (n : Node) : NodeState :=
  { node := n, status := .completed, branch := branch n.id }

/-- The edge is taken once its source has completed. -/
def Taken (d : WorkflowDef) (branch : String → String) (source : Node) (ed : Edge) : Prop :=
  edgeHolds (indexDefinition d) (completedState branch source) ed = true

/-- The node can be reached through taken edges. -/
inductive OnTaken (d : WorkflowDef) (branch : String → String) : String → Prop where
  | entry {n} : n ∈ d.nodes → (∀ ed ∈ d.edges, ed.target ≠ n.id) → OnTaken d branch n.id
  | edge {n ed} : n ∈ d.nodes → ed ∈ d.edges → ed.source = n.id → OnTaken d branch n.id →
      Taken d branch n ed → OnTaken d branch ed.target

/-- An agent succeeds, and a condition selects an existing branch or a fallback. -/
def Succeeds (d : WorkflowDef) (w : World) (branch : String → String) (e : Engine)
    (st : NodeState) : Prop :=
  (st.node.type = .agent → ∃ output, w.runAgent e st.node (agentInput e st) = .ok output) ∧
    (st.node.type = .condition → ∀ spec, st.node.condition = some spec →
      ∃ res, w.evalExpr e st.node spec.expr = .ok res ∧ stringify w res = branch st.node.id ∧
        activeEdges (outEdges d st.node.id) (branch st.node.id) ≠ [])

/-- The expression of a transform has no value. -/
def NoValue (w : World) (e : Engine) (st : NodeState) : Prop :=
  st.node.type = .transform ∧ ∃ spec, st.node.transform = some spec ∧
    ∀ res, w.evalExpr e st.node spec.expr ≠ .ok res

/-- What holds of the node that the step starts, in the engine that marks it running. -/
def AtStart (P : Engine → NodeState → Prop) (c : Config) (choice : Choice) : Prop :=
  ∀ id st running, Starts c choice id → c.engine.states id = some st →
    mark c.engine id .running .empty "" = some running → P running st

/-- How a run is to end. -/
structure Rejoined (d : WorkflowDef) (branch : String → String) (c : Config) : Prop where
  returned : c.phase = .returned none
  taken : ∀ n ∈ d.nodes, OnTaken d branch n.id →
    ∃ st, c.engine.states n.id = some st ∧ st.status = .completed
  untaken : ∀ n ∈ d.nodes, ¬ OnTaken d branch n.id →
    ∃ st, c.engine.states n.id = some st ∧ st.status = .skipped

/-- When it ends so. -/
structure Rejoins (d : WorkflowDef) (w : World) (context : RawMessage) (choices : List Choice)
    (branch : String → String) : Prop where
  readable : ∃ scope, buildScope (indexDefinition d) context = .ok scope
  transforms : ∀ c choice c', StepRuns.Takes (step w) (start (indexDefinition d) context) choices
    c choice c' → AtStart (fun e st => ¬ NoValue w e st) c choice
  /-- No taken node waits for an untaken one. -/
  merges : ∀ n ∈ d.nodes, OnTaken d branch n.id → ∀ ed ∈ d.edges, ed.target = n.id →
    OnTaken d branch ed.source ∧
      (n.type ≠ .join → ∀ src ∈ d.nodes, src.id = ed.source → Taken d branch src ed)
  /-- An untaken join waits for an untaken node. -/
  joins : ∀ n ∈ d.nodes, n.type = .join → ¬ OnTaken d branch n.id →
    ∃ ed ∈ d.edges, ed.target = n.id ∧ ¬ OnTaken d branch ed.source
  /-- No fallback leads from an untaken condition to an untaken node, and where an `always` edge
  leads from any other untaken node to one, the sweep comes to its target first. -/
  fallbacks : ∀ ed ∈ d.edges, ¬ OnTaken d branch ed.source → ¬ OnTaken d branch ed.target →
    ed.condition = .always → ∀ src ∈ d.nodes, src.id = ed.source →
      if src.type = .condition then ed.branchKey ≠ ""
      else ∀ before after, choices = before ++ .sweep ed.target :: after →
        Choice.sweep ed.source ∉ before

/-! One execution. -/

section Approvals

/-- Nothing is approved or disapproved. -/
def Undecided (id : String) (e e' : Engine) : Prop :=
  (e'.states id).map NodeState.approved = (e.states id).map NodeState.approved

variable {w : World} {e e' : Engine} {id : String} {st : NodeState} {output : RawMessage}

theorem undecided_modifyState (e : Engine) (id : String) {f : NodeState → NodeState}
    (hf : ∀ st, (f st).approved = st.approved) : Undecided id e (modifyState e id f) := by
  unfold Undecided modifyState
  cases h : e.states id with
  | none => simp
  | some st => simp [hf]

theorem undecided_updateScope (e : Engine) (id : String) (output : RawMessage) :
    Undecided id e (updateScope e id output) := by
  cases output <;> rfl

theorem undecided_complete (h : complete e id output = some e') : Undecided id e e' := by
  have hnote : Undecided id e (updateScope (modifyState e id fun st => { st with output := output })
      id output) :=
    (undecided_updateScope _ id output).trans (undecided_modifyState e id fun _ => rfl)
  obtain ⟨cur, hcur, hstates, -⟩ := mark_state h
  unfold Undecided at hnote ⊢
  rw [← hnote, hcur, hstates]
  simp

theorem undecided_executeNode (hid : st.node.id = id)
    (htype : st.node.type = .trigger ∨ st.node.type = .transform ∨ st.node.type = .agent ∨
      st.node.type = .join) (h : executeNode w e id st = some (e', .ok)) : Undecided id e e' := by
  subst hid
  rcases htype with htype | htype | htype | htype
  · simp only [executeNode, htype, execTrigger] at h
    split at h
    · cases h
    · exact undecided_complete (succeed_eq_some.mp h).1
  · simp only [executeNode, htype, execTransform] at h
    split at h
    · cases h
    · split at h
      · cases (failed_eq_some.mp h).2
      · exact undecided_complete (succeed_eq_some.mp h).1
  · simp only [executeNode, htype, execAgent] at h
    split at h
    · cases (failed_eq_some.mp h).2
    · exact (undecided_complete (succeed_eq_some.mp h).1).trans
        (undecided_modifyState e _ (f := fun st => { st with err := "" }) fun _ => rfl)
  · simp only [executeNode, htype, execJoin] at h
    split at h
    · cases h
    · cases (failed_eq_some.mp h).2
    · exact undecided_complete (succeed_eq_some.mp h).1

end Approvals

/-- What a node's state says about its past: still waiting or skipped as it was at first,
completed with the branch it selected, or failed. -/
inductive Stage (branch : String → String) (st : NodeState) : Prop where
  | waiting : st.status = .pending ∨ st.status = .skipped → st.branch = "" → st.approved = false →
      Stage branch st
  | completed : st.status = .completed →
      (st.node.type = .condition → st.branch = branch st.node.id) →
      (st.node.type ≠ .condition → st.approved = false) → Stage branch st
  | failed : st.status = .failed → Stage branch st

/-- The node has run. -/
def HasRun (st : NodeState) : Prop := st.status = .completed ∨ st.status = .failed

/-- Every in-edge is from a node that has run, and lets the node run. -/
def Satisfied (e : Engine) (st : NodeState) : Prop :=
  ∀ ed ∈ e.inEdges st.node.id, ∃ src, e.states ed.source = some src ∧ HasRun src ∧
    (st.node.type ≠ .join → edgeHolds e src ed = true)

/-- An engine of the definition in which nothing has run that was not satisfied. -/
structure Flow (d : WorkflowDef) (branch : String → String) (e : Engine) : Prop where
  nodes : ∀ id st, e.states id = some st → st.node ∈ d.nodes ∧ st.node.id = id ∧ Stage branch st
  known : ∀ n ∈ d.nodes, ∃ st, e.states n.id = some st
  ids : ∀ id, id ∈ e.ids ↔ id ∈ d.nodes.map Node.id
  out : e.out = outEdges d
  inEdges : e.inEdges = inEdgesOf d
  scheduled : ∀ id, unscheduled e id = false
  justified : ∀ id st, e.states id = some st → HasRun st → Satisfied e st

section Executions

variable {d : WorkflowDef} {branch : String → String} {w : World} {c c' : Config} {e e' : Engine}
  {id : String} {st : NodeState} {choice : Choice} {frame : Option LoopFrame}

theorem flat_simple {n : Node} (hflat : Flat d) (hn : n ∈ d.nodes) :
    Simple n ∧ n.type ≠ .humanApproval := by
  rcases hflat n hn with h | h | h | h | h <;> simp [Simple, h]

/-- Only a transform without a value and a join of a failed node end with an error. -/
theorem executeNode_error (hflat : Flat d) (hnode : st.node ∈ d.nodes) (hid : st.node.id = id)
    {cur : NodeState} (hcur : e.states id = some cur) (hout : e.out = outEdges d)
    (hanswers : Succeeds d w branch e st) {msg : String}
    (h : executeNode w e id st = some (e', .error msg)) : NoValue w e st ∨ UpstreamFailed e id := by
  obtain ⟨hagent, hcondition⟩ := hanswers
  subst hid
  rcases hflat _ hnode with htype | htype | htype | htype | htype
  · simp only [executeNode, htype, execTrigger] at h
    split at h
    · cases h
    · cases (succeed_eq_some.mp h).2
  · refine .inl ⟨htype, ?_⟩
    simp only [executeNode, htype, execTransform] at h
    split at h
    · cases h
    next spec hspec =>
      split at h
      · next heval =>
        refine ⟨spec, hspec, fun res hres => ?_⟩
        cases heval.symm.trans hres
      · cases (succeed_eq_some.mp h).2
  · obtain ⟨output, hrun⟩ := hagent htype
    simp only [executeNode, htype, execAgent, hrun] at h
    cases (succeed_eq_some.mp h).2
  · simp only [executeNode, htype] at h
    have hends := (execCondition_ends rfl hcur h).2
    cases hspec : st.node.condition with
    | none => simp [execCondition, hspec] at h
    | some spec =>
      obtain ⟨res, heval, hbranch, hactive⟩ := hcondition htype spec hspec
      have hok := (hends spec res hspec heval).1
      rw [hout, hbranch] at hok
      cases hok.mpr hactive
  · simp only [executeNode, htype] at h
    refine .inr ?_
    have hok := (execJoin_ends hcur h).2
    simpa using hok

theorem executeNode_ok (hid : st.node.id = id) {cur : NodeState} (hcur : e.states id = some cur)
    (hanswers : Succeeds d w branch e st) (h : executeNode w e id st = some (e', .ok)) :
    ¬ NoValue w e st ∧
      (st.node.type = .condition → ∃ st', e'.states id = some st' ∧ st'.branch = branch id) := by
  subst hid
  constructor
  · rintro ⟨htype, spec, hspec, hnone⟩
    simp only [executeNode, htype] at h
    obtain ⟨res, hres⟩ := ((execTransform_ends rfl hcur h).2 spec hspec).mp rfl
    exact hnone res hres
  · intro htype
    simp only [executeNode, htype] at h
    cases hspec : st.node.condition with
    | none => simp [execCondition, hspec] at h
    | some spec =>
      obtain ⟨res, heval, hbranch, -⟩ := hanswers.2 htype spec hspec
      rw [← hbranch]
      exact ((execCondition_ends rfl hcur h).2 spec res hspec heval).2

/-- A node that is started completes, unless it is a transform without a value or a join of a
failed node. -/
theorem execute_flat (hflat : Flat d) (hnode : st.node ∈ d.nodes) (hid : st.node.id = id)
    (hst : e.states id = some st) (happroved : st.approved = false)
    (hout : e.out = outEdges d) (hanswers : ∀ running, mark e id .running .empty "" = some running →
      Succeeds d w branch running st)
    (h : execute w e id = some (e', frame)) :
    frame = none ∧ ∃ st' running, Becomes id e e' st' 1 ∧ st'.node = st.node ∧ Stage branch st' ∧
      mark e id .running .empty "" = some running ∧
      ((st'.status = .completed ∧ ¬ NoValue w running st) ∨
        (st'.status = .failed ∧ (NoValue w running st ∨ UpstreamFailed e id))) := by
  obtain ⟨hsimple, hgate⟩ := flat_simple hflat hnode
  obtain ⟨running, hmark, hrunning, -, hsettle⟩ := execute_cases hst h
  have hsucceeds := hanswers running hmark
  cases hresult : executeNode w running id st with
  | none =>
    rw [hresult] at hsettle
    cases hsettle
  | some pair =>
    obtain ⟨mid, outcome⟩ := pair
    rw [hresult] at hsettle
    cases executeNode_ends hsimple hid hrunning.state hresult with
    | @ok st' hbecomes hnode' hstatus =>
      obtain ⟨rfl, rfl⟩ := Prod.mk.inj (Option.some.inj hsettle)
      obtain ⟨hvalue, hselected⟩ := executeNode_ok hid hrunning.state hsucceeds hresult
      refine ⟨rfl, st', running, by simpa using hrunning.trans hbecomes, hnode', ?_, hmark,
        .inl ⟨hstatus, hvalue⟩⟩
      refine .completed hstatus (fun htype => ?_) fun htype => ?_
      · rw [hnode'] at htype ⊢
        obtain ⟨last, hlast, hbranch⟩ := hselected htype
        obtain rfl := Option.some.inj (hbecomes.state.symm.trans hlast)
        rw [hbranch]
        exact congrArg branch hid.symm
      · have hundecided : Undecided id running mid := by
          refine undecided_executeNode hid ?_ hresult
          rw [hnode'] at htype
          rcases hflat _ hnode with h | h | h | h | h <;> simp_all
        unfold Undecided at hundecided
        rw [hbecomes.state, hrunning.state, Option.map_some, Option.map_some, Option.some.injEq]
          at hundecided
        rw [hundecided]
        exact happroved
    | @error st' msg hbecomes hnode' hattempts =>
      obtain ⟨handled, hhandled, heq⟩ := Option.map_eq_some_iff.mp hsettle
      obtain ⟨rfl, rfl⟩ := Prod.mk.inj heq
      have hreason := executeNode_error hflat hnode hid hrunning.state (hrunning.only.out.trans hout)
        hsucceeds hresult
      have hupstream : UpstreamFailed running id → UpstreamFailed e id := by
        rintro ⟨ed, hed, src, hsrc, hfailed⟩
        refine ⟨ed, hrunning.only.inEdges ▸ hed, ?_⟩
        by_cases hself : ed.source = id
        · rw [hself, hrunning.state] at hsrc
          obtain rfl := Option.some.inj hsrc
          cases hfailed
        · exact ⟨src, hrunning.only.states _ hself ▸ hsrc, hfailed⟩
      cases (handleError_handled hbecomes.state hid hhandled).1 with
      | @failed last hdone hlast hfinal =>
        refine ⟨rfl, last, running, ?_, hlast.trans hnode', .failed hfinal, hmark,
          .inr ⟨hfinal, hreason.imp_right hupstream⟩⟩
        simpa using (hrunning.trans hbecomes).trans hdone
      | retried _ _ _ _ hleft =>
        obtain ⟨output, hrun⟩ := hsucceeds.1 hleft.1
        simp only [executeNode, hleft.1, execAgent, hrun] at hresult
        cases (succeed_eq_some.mp hresult).2

/-! What a step preserves. -/

/-- No node that could run is left. -/
def Complete (e : Engine) : Prop := ∀ id st, e.states id = some st → Satisfied e st → HasRun st

theorem Satisfied.mono {st' : NodeState} (hnode : st'.node = st.node) (h : Satisfied e st)
    (hin : e'.inEdges = e.inEdges) (hout : e'.out = e.out)
    (hkept : ∀ x src, e.states x = some src → HasRun src → e'.states x = some src) :
    Satisfied e' st' := by
  intro ed hed
  rw [hnode, hin] at hed
  obtain ⟨src, hsrc, hrun, hholds⟩ := h ed hed
  refine ⟨src, hkept _ _ hsrc hrun, hrun, fun hjoin => ?_⟩
  rw [hnode] at hjoin
  simpa [edgeHolds, hout] using hholds hjoin

/-- A node that had not run changes its state. -/
theorem flow_becomes {st' : NodeState} {ends : Nat} (hflow : Flow d branch e)
    (hst : e.states id = some st) (hidle : ¬ HasRun st) (hbecomes : Becomes id e e' st' ends)
    (hnode : st'.node = st.node) (hstage : Stage branch st') (hrun : HasRun st' → Satisfied e st) :
    Flow d branch e' := by
  obtain ⟨hmem, hid, -⟩ := hflow.nodes id st hst
  have hkept : ∀ x src, e.states x = some src → HasRun src → e'.states x = some src := by
    intro x src hsrc hsrcRun
    by_cases hx : x = id
    · subst hx
      obtain rfl := Option.some.inj (hst.symm.trans hsrc)
      exact absurd hsrcRun hidle
    · rw [hbecomes.only.states x hx]
      exact hsrc
  refine ⟨fun x sx hsx => ?_, fun n hn => ?_, ?_, hbecomes.only.out.trans hflow.out,
    hbecomes.only.inEdges.trans hflow.inEdges, fun x => ?_, fun x sx hsx hsxRun => ?_⟩
  · by_cases hx : x = id
    · subst hx
      obtain rfl := Option.some.inj (hbecomes.state.symm.trans hsx)
      rw [hnode]
      exact ⟨hmem, hid, hstage⟩
    · rw [hbecomes.only.states x hx] at hsx
      exact hflow.nodes x sx hsx
  · by_cases hx : n.id = id
    · rw [hx]
      exact ⟨st', hbecomes.state⟩
    · rw [hbecomes.only.states _ hx]
      exact hflow.known n hn
  · intro x
    rw [hbecomes.only.ids]
    exact hflow.ids x
  · have hsame := hflow.scheduled x
    unfold unscheduled isLoopBody at hsame ⊢
    rw [hbecomes.only.bodyOf, hbecomes.only.templates]
    exact hsame
  · by_cases hx : x = id
    · subst hx
      obtain rfl := Option.some.inj (hbecomes.state.symm.trans hsx)
      exact (hrun hsxRun).mono hnode hbecomes.only.inEdges hbecomes.only.out hkept
    · rw [hbecomes.only.states x hx] at hsx
      exact (hflow.justified x sx hsx hsxRun).mono rfl hbecomes.only.inEdges hbecomes.only.out hkept

theorem hasRun_terminal (h : HasRun st) : terminal st.status = true := by
  rcases h with h | h <;> simp [terminal, h]

/-- A pending node whose in-edges are satisfied can begin. -/
theorem begins_of_satisfied (hst : e.states id = some st) (hid : st.node.id = id)
    (hpending : st.status = .pending) (h : Satisfied e st) : Begins e id := by
  rw [begins_iff hst]
  refine ⟨hpending, fun ed hed => ?_⟩
  rw [← hid] at hed
  obtain ⟨src, hsrc, hrun, hholds⟩ := h ed hed
  exact ⟨src, hsrc, hasRun_terminal hrun, hholds⟩

/-- As long as nothing is skipped, a node that begins is satisfied. -/
theorem satisfied_of_begins (hst : e.states id = some st) (hid : st.node.id = id)
    (hkept : ∀ x sx, e.states x = some sx → sx.status ≠ .skipped) (h : Begins e id) :
    Satisfied e st := by
  intro ed hed
  rw [hid] at hed
  obtain ⟨src, hsrc, hterminal, hholds⟩ := ((begins_iff hst).mp h).2 ed hed
  refine ⟨src, hsrc, ?_, hholds⟩
  have hskipped := hkept _ _ hsrc
  unfold HasRun
  simp only [terminal, Bool.or_eq_true, decide_eq_true_eq] at hterminal
  tauto

/-- The phases of a run. -/
structure Routed (d : WorkflowDef) (branch : String → String) (c : Config) : Prop where
  flow : Flow d branch c.engine
  frames : c.frames = []
  quiet : Quiet c
  scheduling : ∀ round visited progressed, c.phase = .scheduling round visited progressed →
    ∀ id st, c.engine.states id = some st → st.status ≠ .skipped
  sweeping : ∀ visited, c.phase = .sweeping visited → Complete c.engine ∧
    ∀ id ∈ visited, ∀ st, c.engine.states id = some st → st.status ≠ .pending
  returned : c.phase = .returned none → Complete c.engine ∧
    ∀ id st, c.engine.states id = some st → st.status ≠ .pending

theorem flow_listed (hflow : Flow d branch e) (hst : e.states id = some st) : id ∈ e.ids := by
  obtain ⟨hmem, rfl, -⟩ := hflow.nodes id st hst
  exact (hflow.ids _).mpr (List.mem_map_of_mem hmem)

theorem flow_pending (hflow : Flow d branch e) (hst : e.states id = some st)
    (hpending : st.status = .pending) : st.branch = "" ∧ st.approved = false := by
  cases (hflow.nodes id st hst).2.2 with
  | waiting _ hbranch happroved => exact ⟨hbranch, happroved⟩
  | completed hstatus => simp [hpending] at hstatus
  | failed hstatus => simp [hpending] at hstatus

/-- What was left when the last round made no progress had nothing to wait for. -/
theorem complete_of_settled (hflow : Flow d branch e) (hsettled : Settled e)
    (hkept : ∀ x sx, e.states x = some sx → sx.status ≠ .skipped) : Complete e := by
  intro id st hst hsatisfied
  obtain ⟨-, hid, hstage⟩ := hflow.nodes id st hst
  cases hstage with
  | waiting hstatus =>
    rcases hstatus with hpending | hskipped
    · exact absurd (begins_of_satisfied hst hid hpending hsatisfied)
        (hsettled id (flow_listed hflow hst) (hflow.scheduled id))
    · exact absurd hskipped (hkept id st hst)
  | completed hstatus => exact .inl hstatus
  | failed hstatus => exact .inr hstatus

/-- Skipping a node satisfies no other. -/
theorem complete_skip (hcomplete : Complete e) (hst : e.states id = some st)
    (hpending : st.status = .pending) {ends : Nat}
    (hbecomes : Becomes id e e' { st with status := .skipped } ends) : Complete e' := by
  have hback : ∀ x src, e'.states x = some src → HasRun src → e.states x = some src := by
    intro x src hsrc hrun
    by_cases hx : x = id
    · subst hx
      obtain rfl := Option.some.inj (hbecomes.state.symm.trans hsrc)
      simp [HasRun] at hrun
    · rw [← hbecomes.only.states x hx]
      exact hsrc
  intro x sx hsx hsatisfied
  by_cases hx : x = id
  · subst hx
    obtain rfl := Option.some.inj (hbecomes.state.symm.trans hsx)
    have hold : Satisfied e st :=
      hsatisfied.mono rfl hbecomes.only.inEdges.symm hbecomes.only.out.symm hback
    have hrun := hcomplete x st hst hold
    simp [HasRun, hpending] at hrun
  · rw [hbecomes.only.states x hx] at hsx
    exact hcomplete x sx hsx
      (hsatisfied.mono rfl hbecomes.only.inEdges.symm hbecomes.only.out.symm hback)

/-- What the execution of a started node makes of it. -/
theorem execute_routed (hflat : Flat d) (hc : Routed d branch c)
    (hanswers : AtStart (Succeeds d w branch) c choice) (hstarts : Starts c choice id)
    (h : execute w c.engine id = some (e, frame)) :
    ∃ st, c.engine.states id = some st ∧ st.status = .pending ∧ frame = none ∧ ∃ st' running,
      Becomes id c.engine e st' 1 ∧ st'.node = st.node ∧ Stage branch st' ∧
      mark c.engine id .running .empty "" = some running ∧
      ((st'.status = .completed ∧ ¬ NoValue w running st) ∨
        (st'.status = .failed ∧ (NoValue w running st ∨ UpstreamFailed c.engine id))) := by
  obtain ⟨st, hst, hpending⟩ := hstarts.1.1
  obtain ⟨hmem, hid, -⟩ := hc.flow.nodes id st hst
  exact ⟨st, hst, hpending, execute_flat hflat hmem hid hst (flow_pending hc.flow hst hpending).2
    hc.flow.out (fun running hmark => hanswers id st running hstarts hst hmark) h⟩

theorem routed_step (hflat : Flat d) (hc : Routed d branch c)
    (hanswers : AtStart (Succeeds d w branch) c choice) (hmove : Move w c choice c')
    (hrunning : c'.phase ≠ .crashed) : Routed d branch c' := by
  have hquiet := quiet_step hc.quiet hmove
  have hframe : ∀ {f below}, c.frames = f :: below → False := by
    intro f below hframes
    simp [hc.frames] at hframes
  cases hmove with
  | pass id hphase =>
    exact ⟨hc.flow, hc.frames, hquiet, fun _ _ _ _ => hc.scheduling _ _ _ hphase, by simp, by simp⟩
  | @execute round visited progressed e frame id hphase hframes _ _ hscheduled hbegins hexecute =>
    obtain ⟨st, hst, hpending, rfl, st', running, hbecomes, hnode, hstage, -, hends⟩ :=
      execute_routed hflat hc hanswers ⟨hbegins, .inl ⟨rfl, hframes, hscheduled⟩⟩ hexecute
    have hsatisfied := satisfied_of_begins hst (hc.flow.nodes id st hst).2.1
      (hc.scheduling _ _ _ hphase) hbegins
    have hflow : Flow d branch e := flow_becomes hc.flow hst (by simp [HasRun, hpending]) hbecomes
      hnode hstage fun _ => hsatisfied
    refine ⟨hflow, rfl, hquiet, fun _ _ _ _ x sx hsx => ?_, by simp, by simp⟩
    by_cases hx : x = id
    · subst hx
      obtain rfl := Option.some.inj (hbecomes.state.symm.trans hsx)
      rcases hends with ⟨hstatus, -⟩ | ⟨hstatus, -⟩ <;> simp [hstatus]
    · rw [hbecomes.only.states x hx] at hsx
      exact hc.scheduling _ _ _ hphase x sx hsx
  | nextRound hphase =>
    exact ⟨hc.flow, hc.frames, hquiet, fun _ _ _ _ => hc.scheduling _ _ _ hphase, by simp, by simp⟩
  | lastRound hphase _ hall =>
    have hcomplete := complete_of_settled hc.flow (settled_of_lastRound hc.quiet hphase hall)
      (hc.scheduling _ _ _ hphase)
    exact ⟨hc.flow, hc.frames, hquiet, by simp, by simpa using hcomplete, by simp⟩
  | bodyPass _ hframes => exact (hframe hframes).elim
  | bodyExecute _ hframes => exact (hframe hframes).elim
  | bodyAgain _ hframes => exact (hframe hframes).elim
  | bodyEnd _ hframes => exact (hframe hframes).elim
  | @sweepPass visited id hphase _ _ hpassed =>
    obtain ⟨hcomplete, hvisited⟩ := hc.sweeping _ hphase
    refine ⟨hc.flow, hc.frames, hquiet, by simp, fun later hlater => ⟨hcomplete, ?_⟩, by simp⟩
    obtain rfl : id :: visited = later := by simpa using hlater
    intro x hx sx hsx
    rcases List.mem_cons.mp hx with rfl | hx
    · simpa [hc.flow.scheduled] using hpassed sx hsx
    · exact hvisited x hx sx hsx
  | deadlock id hphase => exact ⟨hc.flow, hc.frames, hquiet, by simp, by simp, by simp⟩
  | @skip visited e id hphase _ _ hpending _ _ hmark =>
    obtain ⟨st, hst, hpending⟩ := hpending
    obtain ⟨hcomplete, hvisited⟩ := hc.sweeping _ hphase
    have hbecomes := mark_becomes hst hmark
    obtain ⟨hbranch, happroved⟩ := flow_pending hc.flow hst hpending
    have hflow : Flow d branch e := flow_becomes hc.flow hst (by simp [HasRun, hpending]) hbecomes rfl
      (.waiting (.inr rfl) hbranch happroved) (by simp [HasRun])
    have hcomplete' := complete_skip hcomplete hst hpending hbecomes
    refine ⟨hflow, hc.frames, hquiet, by simp, fun later hlater => ⟨hcomplete', ?_⟩, by simp⟩
    obtain rfl : id :: visited = later := by simpa using hlater
    intro x hx sx hsx
    by_cases hself : x = id
    · subst hself
      obtain rfl := Option.some.inj (hbecomes.state.symm.trans hsx)
      simp
    · rw [hbecomes.only.states x hself] at hsx
      exact hvisited x ((List.mem_cons.mp hx).resolve_left hself) sx hsx
  | finish hphase hall =>
    obtain ⟨hcomplete, hvisited⟩ := hc.sweeping _ hphase
    refine ⟨hc.flow, hc.frames, hquiet, by simp, by simp, fun _ => ⟨hcomplete, fun x sx hsx => ?_⟩⟩
    exact hvisited x (hall x (flow_listed hc.flow hsx)) sx hsx
  | crash => exact absurd rfl hrunning

/-- Only a pending node's state changes. -/
theorem kept_step (hflat : Flat d) (hc : Routed d branch c)
    (hanswers : AtStart (Succeeds d w branch) c choice) (hmove : Move w c choice c')
    (hst : c.engine.states id = some st) (hidle : st.status ≠ .pending) :
    c'.engine.states id = some st := by
  have hother : ∀ {x st' ends}, Becomes x c.engine c'.engine st' ends →
      (∃ sx, c.engine.states x = some sx ∧ sx.status = .pending) → c'.engine.states id = some st := by
    rintro x st' ends hbecomes ⟨sx, hsx, hpending⟩
    have hne : id ≠ x := by
      rintro rfl
      obtain rfl := Option.some.inj (hst.symm.trans hsx)
      exact hidle hpending
    rw [hbecomes.only.states id hne]
    exact hst
  cases hmove with
  | @execute round visited progressed e frame x hphase hframes _ _ hscheduled hbegins hexecute =>
    obtain ⟨sx, hsx, hpending, -, st', running, hbecomes, -⟩ :=
      execute_routed hflat hc hanswers ⟨hbegins, .inl ⟨rfl, hframes, hscheduled⟩⟩ hexecute
    exact hother hbecomes ⟨sx, hsx, hpending⟩
  | skip x _ _ _ hpending _ _ hmark =>
    obtain ⟨sx, hsx, hpending⟩ := hpending
    exact hother (mark_becomes hsx hmark) ⟨sx, hsx, hpending⟩
  | pass | nextRound | lastRound | sweepPass | deadlock | finish | crash => exact hst
  | bodyPass _ hframes => simp [hc.frames] at hframes
  | bodyExecute _ hframes => simp [hc.frames] at hframes
  | bodyAgain _ hframes => simp [hc.frames] at hframes
  | bodyEnd _ hframes => simp [hc.frames] at hframes

/-- The sweep so far. -/
structure Swept (choices : List Choice) (c : Config) : Prop where
  visited : ∀ visited, c.phase = .sweeping visited → ∀ x, x ∈ visited ↔ Choice.sweep x ∈ choices
  skipped : ∀ id st, c.engine.states id = some st → st.status = .skipped → Choice.sweep id ∈ choices
  before : ∀ round visited progressed, c.phase = .scheduling round visited progressed →
    ∀ x, Choice.sweep x ∉ choices

theorem swept_step (hflat : Flat d) (hc : Routed d branch c)
    (hanswers : AtStart (Succeeds d w branch) c choice) {choices : List Choice} (h : Swept choices c)
    (hmove : Move w c choice c') : Swept (choices ++ [choice]) c' := by
  have hmore : ∀ {x}, Choice.sweep x ∈ choices → Choice.sweep x ∈ choices ++ [choice] := fun hx =>
    List.mem_append_left _ hx
  have hskipped : ∀ {e : Engine}, e.states = c.engine.states → ∀ id st, e.states id = some st →
      st.status = .skipped → Choice.sweep id ∈ choices ++ [choice] := by
    intro e he id st hst hstatus
    exact hmore (h.skipped id st (he ▸ hst) hstatus)
  cases hmove with
  | pass id hphase =>
    refine ⟨by simp, hskipped rfl, fun _ _ _ _ x hx => ?_⟩
    exact h.before _ _ _ hphase x (by simpa using hx)
  | @execute round visited progressed e frame id hphase hframes _ _ hscheduled hbegins hexecute =>
    have hbefore : ∀ x, Choice.sweep x ∉ choices ++ [Choice.visit id] := by
      intro x hx
      exact h.before _ _ _ hphase x (by simpa using hx)
    obtain ⟨st, hst, hpending, -, st', running, hbecomes, -, -, -, hends⟩ :=
      execute_routed hflat hc hanswers ⟨hbegins, .inl ⟨rfl, hframes, hscheduled⟩⟩ hexecute
    refine ⟨by simp, fun x sx hsx hstatus => ?_, fun _ _ _ _ => hbefore⟩
    by_cases hx : x = id
    · subst hx
      obtain rfl := Option.some.inj (hbecomes.state.symm.trans hsx)
      rcases hends with ⟨hfinal, -⟩ | ⟨hfinal, -⟩ <;> simp [hstatus] at hfinal
    · rw [hbecomes.only.states x hx] at hsx
      exact hmore (h.skipped x sx hsx hstatus)
  | nextRound hphase =>
    refine ⟨by simp, hskipped rfl, fun _ _ _ _ x hx => ?_⟩
    exact h.before _ _ _ hphase x (by simpa using hx)
  | lastRound hphase =>
    refine ⟨fun visited hvisited x => ?_, hskipped rfl, by simp⟩
    obtain rfl : [] = visited := by simpa using hvisited
    simpa using h.before _ _ _ hphase x
  | @sweepPass visited id hphase =>
    refine ⟨fun later hlater x => ?_, hskipped rfl, by simp⟩
    obtain rfl : id :: visited = later := by simpa using hlater
    simp [h.visited _ hphase, or_comm]
  | deadlock id => exact ⟨by simp, hskipped rfl, by simp⟩
  | @skip visited e id hphase _ _ hpending _ _ hmark =>
    obtain ⟨st, hst, hpending⟩ := hpending
    have hbecomes := mark_becomes hst hmark
    refine ⟨fun later hlater x => ?_, fun x sx hsx hstatus => ?_, by simp⟩
    · obtain rfl : id :: visited = later := by simpa using hlater
      simp [h.visited _ hphase, or_comm]
    · by_cases hx : x = id
      · simp [hx]
      · rw [hbecomes.only.states x hx] at hsx
        exact hmore (h.skipped x sx hsx hstatus)
  | finish => exact ⟨by simp, hskipped rfl, by simp⟩
  | crash => exact ⟨by simp [crash], hskipped rfl, by simp [crash]⟩
  | bodyPass _ hframes => simp [hc.frames] at hframes
  | bodyExecute _ hframes => simp [hc.frames] at hframes
  | bodyAgain _ hframes => simp [hc.frames] at hframes
  | bodyEnd _ hframes => simp [hc.frames] at hframes

end Executions

end BranchRouting
