import ChaosPlus.AgentAttempts

/-!
# The inputs of agents

An agent is given the scope of the run and two values of the engine's own: the feedback of the
last rejection that concerns it, and the error of its previous attempt. Both are read off the run
here, and compared with what the engine keeps of them.
-/
namespace AgentInputs

open WorkflowDefinition WorkflowEngine WorkflowRun EngineUpdates EngineSafety
open NodeOutcomes DefinitionNodes AgentAttempts
open ApprovalBroker (Feedback)
open StepRuns (run Since)
open WorkflowValidation (Accepted)

/-- The gate has a rejected edge to the node. -/
def RejectedEdge (d : WorkflowDef) (gate id : String) : Prop :=
  ∃ ed ∈ d.edges, ed.source = gate ∧ ed.target = id ∧ ed.condition = .rejected

/-- The step rejects a gate before the node with feedback. -/
def Directs (d : WorkflowDef) (w : World) (id : String) (fb : Feedback) (c : Config) (choice : Choice) : Prop :=
  ∃ gate, Starts c choice gate ∧ Rejects w c.engine gate fb ∧ RejectedEdge d gate id

/-- The agent succeeds in the step. -/
def Succeeds (w : World) (id : String) (c : Config) (choice : Choice) : Prop :=
  Starts c choice id ∧ ∃ output, Answers w c.engine id (.ok output)

/-- The latest feedback for the node since it last succeeded. -/
def Directive (d : WorkflowDef) (w : World) (s : Config) (choices : List Choice) (id : String)
    (fb : Feedback) : Prop :=
  Since (step w) s choices (Directs d w id fb) fun c choice _ =>
    Succeeds w id c choice ∨ ∃ later, Directs d w id later c choice

/-- The node waits for the first attempt of a scheduling. -/
def Waits (e : Engine) (id : String) : Prop :=
  ∃ st, e.states id = some st ∧ st.status = .pending ∧ st.attempts = 0

/-- The previous attempt of the node's scheduling failed with this error. -/
def FailedBefore (w : World) (s : Config) (choices : List Choice) (id msg : String) : Prop :=
  Since (step w) s choices (fun c choice => Starts c choice id ∧ Answers w c.engine id (.error msg))
    fun c choice c' => Starts c choice id ∨ Waits c'.engine id

/-- What an agent is given is what the run so far owes it. -/
structure Owned (d : WorkflowDef) (w : World) (s : Config) (choices : List Choice) (e : Engine)
    (id : String) (input : Scope) : Prop where
  rejection : ∀ v, input "rejection_feedback" = some v ↔
    ∃ fb, Directive d w s choices id fb ∧ v = feedbackJson fb
  error : ∀ v, input "last_error" = some v ↔ ∃ msg, FailedBefore w s choices id msg ∧ v = .string msg
  others : ∀ key, key ≠ "rejection_feedback" → key ≠ "last_error" → input key = e.scope key

/-! ## The edges of gates -/

section Edges

variable {d : WorkflowDef} {e e' : Engine} {id : String}

/-- The rejected edges of the running graph are those of the definition. -/
def Rejections (d : WorkflowDef) (e : Engine) : Prop :=
  ∀ gate ed, ed.condition = .rejected → (ed ∈ e.out gate ↔ ed ∈ d.edges ∧ ed.source = gate)

theorem rejections_index (d : WorkflowDef) : Rejections d (indexDefinition d) := by
  intro gate ed _
  simp [indexDefinition, outEdges]

theorem rejections_update (e e' : Engine) (hupdate : Update e e') (h : Rejections d e) : Rejections d e' := by
  intro gate ed hrejected
  rw [← h gate ed hrejected]
  cases hupdate with
  | note hsame => rw [hsame.out]
  | state => exact Iff.rfl
  | @expand forkID fork spec template joinID items =>
    have hexpanded := addClones_expanded forkID joinID spec.templateNodeID template.node e items 0
    rw [hexpanded.out gate ed]
    constructor
    · rintro (hold | ⟨-, k, -, rfl⟩ | ⟨join, -, k, -, -, rfl⟩)
      · exact hold
      · cases hrejected
      · cases hrejected
    · exact .inl

theorem recorded_foldl (edges : List Edge) (fb : Feedback) (feedbackFor : String → Option Feedback) :
    edges.foldl (fun (feedbackFor : String → Option Feedback) (ed : Edge) =>
        if ed.condition = .rejected then Function.update feedbackFor ed.target (some fb) else feedbackFor)
      feedbackFor id =
      if ∃ ed ∈ edges, ed.condition = .rejected ∧ ed.target = id then some fb else feedbackFor id := by
  induction edges generalizing feedbackFor with
  | nil => simp
  | cons first rest ih =>
    rw [List.foldl_cons, ih]
    by_cases hlater : ∃ ed ∈ rest, ed.condition = .rejected ∧ ed.target = id
    · have hall : ∃ ed ∈ first :: rest, ed.condition = .rejected ∧ ed.target = id := by
        obtain ⟨ed, hed, hto⟩ := hlater
        exact ⟨ed, List.mem_cons_of_mem _ hed, hto⟩
      rw [if_pos hlater, if_pos hall]
    · rw [if_neg hlater]
      by_cases hfirst : first.condition = .rejected
      · rw [if_pos hfirst]
        by_cases hto : first.target = id
        · have hall : ∃ ed ∈ first :: rest, ed.condition = .rejected ∧ ed.target = id :=
            ⟨first, List.mem_cons_self, hfirst, hto⟩
          rw [if_pos hall, hto, Function.update_self]
        · have hnone : ¬ ∃ ed ∈ first :: rest, ed.condition = .rejected ∧ ed.target = id := by
            rintro ⟨ed, hed, hboth⟩
            rcases List.mem_cons.mp hed with rfl | hed
            · exact hto hboth.2
            · exact hlater ⟨ed, hed, hboth⟩
          rw [if_neg hnone, Function.update_of_ne (Ne.symm hto)]
      · have hnone : ¬ ∃ ed ∈ first :: rest, ed.condition = .rejected ∧ ed.target = id := by
          rintro ⟨ed, hed, hboth⟩
          rcases List.mem_cons.mp hed with rfl | hed
          · exact hfirst hboth.1
          · exact hlater ⟨ed, hed, hboth⟩
        rw [if_neg hfirst, if_neg hnone]

/-- Feedback is recorded for the targets of the gate's rejected edges. -/
theorem recorded_eq (h : Rejections d e) {gate : String} {fb : Feedback} (hgate : RejectedEdge d gate id) :
    (recordRejectionFeedback e gate fb).feedbackFor id = some fb := by
  obtain ⟨ed, hed, hsource, htarget, hrejected⟩ := hgate
  have hout : ∃ ed ∈ e.out gate, ed.condition = .rejected ∧ ed.target = id :=
    ⟨ed, (h gate ed hrejected).mpr ⟨hed, hsource⟩, hrejected, htarget⟩
  exact (recorded_foldl _ _ _).trans (if_pos hout)

theorem recorded_other (h : Rejections d e) {gate : String} {fb : Feedback} (hgate : ¬ RejectedEdge d gate id) :
    (recordRejectionFeedback e gate fb).feedbackFor id = e.feedbackFor id := by
  have hout : ¬ ∃ ed ∈ e.out gate, ed.condition = .rejected ∧ ed.target = id := by
    rintro ⟨ed, hed, hrejected, htarget⟩
    obtain ⟨hmem, hsource⟩ := (h gate ed hrejected).mp hed
    exact hgate ⟨ed, hmem, hsource, htarget, hrejected⟩
  exact (recorded_foldl _ _ _).trans (if_neg hout)

end Edges

/-! ## What the engine keeps -/

section Kept

variable {d : WorkflowDef} {w : World} {s c c' : Config} {choices : List Choice} {choice : Choice}
  {id : String}

/-- The engine keeps the feedback and the error that the run owes. -/
structure Kept (d : WorkflowDef) (w : World) (s : Config) (choices : List Choice) (e : Engine) : Prop where
  feedback : ∀ id fb, e.feedbackFor id = some fb ↔ Directive d w s choices id fb
  untried : ∀ id st, e.states id = some st → st.status = .pending → st.attempts = 0 → st.err = ""
  tried : ∀ id st, e.states id = some st → st.status = .pending → 0 < st.attempts →
    FailedBefore w s choices id st.err
  failed : ∀ id st msg, e.states id = some st → st.status = .pending →
    FailedBefore w s choices id msg → st.err = msg

theorem feedback_step (hc : Grounded d c) (hrejections : Rejections d c.engine)
    (hkept : ∀ id fb, c.engine.feedbackFor id = some fb ↔ Directive d w s choices id fb)
    (hrun : run (step w) s choices = some c) (hstep : step w c choice = some c')
    (hrunning : c'.phase ≠ .crashed) (id : String) (fb : Feedback) :
    c'.engine.feedbackFor id = some fb ↔ Directive d w s (choices ++ [choice]) id fb := by
  unfold Directive at hkept ⊢
  rw [StepRuns.since_snoc hrun hstep, ← hkept]
  rcases step_fed hc hstep hrunning with ⟨x, hstarts, hfed⟩ | ⟨hnone, hsame⟩
  · have honly : ∀ {y}, Starts c choice y → y = x := fun hy => starts_unique hy hstarts
    generalize c'.engine.feedbackFor = after at hfed
    cases hfed with
    | @dropped output hanswers =>
      have hnever : ∀ fb, ¬ Directs d w id fb c choice := by
        rintro fb ⟨gate, hgate, hrejects, -⟩
        obtain rfl := honly hgate
        obtain ⟨st, -, hst, htype, -⟩ := hanswers
        have hother := hrejects.gate hst
        rw [htype] at hother
        cases hother
      by_cases hx : id = x
      · subst hx
        have hsucceeds : Succeeds w id c choice := ⟨hstarts, output, hanswers⟩
        simp [hnever, hsucceeds]
      · have hfails : ¬ Succeeds w id c choice := fun h => hx (honly h.1)
        simp [hnever, hfails, Function.update_of_ne hx]
    | @recorded fb' hrejects =>
      have hfails : ¬ Succeeds w id c choice := by
        rintro ⟨hid, output, hanswers⟩
        obtain rfl := honly hid
        obtain ⟨st, -, -, -, hst, htype, -⟩ := hrejects
        have hother := hanswers.agent hst
        rw [htype] at hother
        cases hother
      have hdirects : ∀ fb, Directs d w id fb c choice ↔ fb = fb' ∧ RejectedEdge d x id := by
        intro fb
        constructor
        · rintro ⟨gate, hgate, hrejects', hedge⟩
          obtain rfl := honly hgate
          exact ⟨hrejects'.unique hrejects, hedge⟩
        · rintro ⟨rfl, hedge⟩
          exact ⟨x, hstarts, hrejects, hedge⟩
      by_cases hedge : RejectedEdge d x id
      · rw [recorded_eq hrejections hedge]
        simp [hdirects, hedge, eq_comm]
      · rw [recorded_other hrejections hedge]
        simp [hdirects, hedge, hfails]
    | kept hanswers hrejects =>
      have hnever : ∀ fb, ¬ Directs d w id fb c choice := by
        rintro fb ⟨gate, hgate, hrejects', -⟩
        obtain rfl := honly hgate
        exact hrejects fb hrejects'
      have hfails : ¬ Succeeds w id c choice := by
        rintro ⟨hid, output, hanswers'⟩
        obtain rfl := honly hid
        exact hanswers output hanswers'
      simp [hnever, hfails]
  · have hnever : ∀ fb, ¬ Directs d w id fb c choice := by
      rintro fb ⟨gate, hgate, -⟩
      exact hnone gate hgate
    have hfails : ¬ Succeeds w id c choice := fun h => hnone id h.1
    rw [hsame]
    simp [hnever, hfails]

theorem kept_step (hc : Grounded d c) (hrejections : Rejections d c.engine)
    (hkept : Kept d w s choices c.engine) (hrun : run (step w) s choices = some c)
    (hstep : step w c choice = some c') (hrunning : c'.phase ≠ .crashed) :
    Kept d w s (choices ++ [choice]) c'.engine := by
  have hsnoc : ∀ id msg, FailedBefore w s (choices ++ [choice]) id msg ↔
      (Starts c choice id ∧ Answers w c.engine id (.error msg)) ∨
        (FailedBefore w s choices id msg ∧ ¬ (Starts c choice id ∨ Waits c'.engine id)) :=
    fun id msg => StepRuns.since_snoc hrun hstep
  refine ⟨feedback_step hc hrejections hkept.feedback hrun hstep hrunning, ?_, ?_, ?_⟩
  · intro id st' hst' hpending hzero
    rcases pending_cases hc hstep hrunning hst' hpending with ⟨-, hst⟩ | ⟨hfresh, -⟩ | ⟨st, msg, -, -, -, rfl⟩
    · exact hkept.untried id st' hst hpending hzero
    · exact hfresh.2.2
    · cases hzero
  · intro id st' hst' hpending hpositive
    rw [hsnoc]
    rcases pending_cases hc hstep hrunning hst' hpending with
      ⟨hstarts, hst⟩ | ⟨hfresh, -⟩ | ⟨st, msg, hstarts, -, hanswers, rfl⟩
    · refine .inr ⟨hkept.tried id st' hst hpending hpositive, ?_⟩
      rintro (h | ⟨other, hother, -, hzero⟩)
      · exact hstarts h
      · obtain rfl := Option.some.inj (hst'.symm.trans hother)
        omega
    · have hzero := hfresh.2.1
      omega
    · exact .inl ⟨hstarts, hanswers⟩
  · intro id st' msg hst' hpending hfailed
    rcases (hsnoc id msg).mp hfailed with ⟨hstarts, hanswers⟩ | ⟨hbefore, hlater⟩
    · rcases pending_cases hc hstep hrunning hst' hpending with
        ⟨hnot, -⟩ | ⟨-, hnone⟩ | ⟨st, msg', -, -, hanswers', rfl⟩
      · exact absurd hstarts hnot
      · exact absurd hanswers (hnone _ hstarts)
      · exact (Except.error.inj (hanswers.unique hanswers')).symm
    · rcases pending_cases hc hstep hrunning hst' hpending with
        ⟨-, hst⟩ | ⟨hfresh, -⟩ | ⟨st, msg', hstarts, -⟩
      · exact hkept.failed id st' msg hst hpending hbefore
      · exact absurd (.inr ⟨st', hst', hpending, hfresh.2.1⟩) hlater
      · exact absurd (.inl hstarts) hlater

theorem kept_start (d : WorkflowDef) (w : World) (context : RawMessage) :
    Kept d w (start (indexDefinition d) context) [] (start (indexDefinition d) context).engine := by
  have hfeedback : ∀ id, (start (indexDefinition d) context).engine.feedbackFor id = none := by
    intro id
    unfold start
    split <;> rfl
  have hstates : (start (indexDefinition d) context).engine.states = initialStates d := by
    unfold start
    split <;> rfl
  have hfresh : ∀ id st, (start (indexDefinition d) context).engine.states id = some st → Fresh st := by
    intro id st hst
    rw [hstates] at hst
    rw [(initialStates_eq_some hst).2.2]
    exact ⟨rfl, rfl, rfl⟩
  refine ⟨fun id fb => ?_, fun id st hst _ _ => (hfresh id st hst).2.2, fun id st hst _ hpositive => ?_,
    fun id st msg _ _ hfailed => absurd hfailed StepRuns.not_since_nil⟩
  · rw [hfeedback]
    exact iff_of_false (by simp) StepRuns.not_since_nil
  · have hzero := (hfresh id st hst).2.1
    omega

/-- What a run keeps for the inputs of its agents. -/
structure Tracked (d : WorkflowDef) (w : World) (s : Config) (choices : List Choice) (c : Config) : Prop where
  grounded : Grounded d c
  rejections : Rejections d c.engine
  kept : c.phase ≠ .crashed → Kept d w s choices c.engine

theorem tracked_run (hd : Accepted d) (w : World) (context : RawMessage) :
    ∀ choices c, run (step w) (start (indexDefinition d) context) choices = some c →
      Tracked d w (start (indexDefinition d) context) choices c := by
  refine StepRuns.along ⟨grounded_start hd context, ?_, fun _ => kept_start d w context⟩ ?_
  · have hout : (start (indexDefinition d) context).engine.out = (indexDefinition d).out := by
      unfold start
      split <;> rfl
    intro gate ed hrejected
    rw [hout]
    exact rejections_index d gate ed hrejected
  · intro choices c choice c' hrun htracked hstep
    have hbefore : c.phase ≠ .crashed := by
      intro hcrashed
      cases choice <;> simp [step, hcrashed] at hstep
    refine ⟨grounded_step htracked.grounded hstep, ?_, fun hrunning => ?_⟩
    · exact (evolves_step htracked.grounded.wellFormed.node_ids hstep).keeps rejections_update
        htracked.rejections
    · exact kept_step htracked.grounded htracked.rejections (htracked.kept hbefore) hrun hstep hrunning

end Kept

/-! ## The inputs -/

/-- An agent is given what the run owes it exactly if its previous attempt did not fail with an
empty error. -/
theorem inputs_owned_iff {d : WorkflowDef} {e : Engine} (hnew : newEngine d = .ok e) (w : World)
    (context : RawMessage) {choices : List Choice} {c c' : Config} {choice : Choice} {id : String}
    {st : NodeState} {running : Engine} (hrun : run (step w) (start e context) choices = some c)
    (hstep : step w c choice = some c') (hstarts : Starts c choice id)
    (hst : c.engine.states id = some st)
    (hmark : mark c.engine id .running .empty "" = some running) :
    Owned d w (start e context) choices c.engine id (agentInput running st) ↔
      ¬ FailedBefore w (start e context) choices id "" := by
  obtain ⟨hd, rfl⟩ := newEngine_ok hnew
  have htracked := tracked_run hd w context choices c hrun
  have hbefore : c.phase ≠ .crashed := by
    intro hcrashed
    cases choice <;> simp [step, hcrashed] at hstep
  have hkept := htracked.kept hbefore
  have hid : st.node.id = id := htracked.grounded.wellFormed.node_ids id st hst
  obtain ⟨hfeedback, hscope, -⟩ := mark_same hmark
  obtain ⟨⟨st', hst', hpending⟩, -⟩ := hstarts.1
  obtain rfl := Option.some.inj (hst.symm.trans hst')
  have hlast : agentInput running st "last_error" = if st.err = "" then none else some (.string st.err) := by
    simp [agentInput]
  constructor
  · intro howned hsilent
    have hgiven := (howned.error (.string "")).mpr ⟨"", hsilent, rfl⟩
    have herr := hkept.failed id st "" hst hpending hsilent
    rw [hlast, if_pos herr] at hgiven
    cases hgiven
  · intro hspoken
    refine ⟨fun v => ?_, fun v => ?_, fun key hother hother' => ?_⟩
    · have hinput : agentInput running st "rejection_feedback" = (c.engine.feedbackFor id).map feedbackJson := by
        simp [agentInput, hfeedback, hid]
      rw [hinput, Option.map_eq_some_iff]
      constructor
      · rintro ⟨fb, hfb, rfl⟩
        exact ⟨fb, (hkept.feedback id fb).mp hfb, rfl⟩
      · rintro ⟨fb, hdirective, rfl⟩
        exact ⟨fb, (hkept.feedback id fb).mpr hdirective, rfl⟩
    · rw [hlast]
      by_cases herr : st.err = ""
      · rw [if_pos herr]
        refine iff_of_false (by simp) ?_
        rintro ⟨msg, hfailed, -⟩
        obtain rfl := hkept.failed id st msg hst hpending hfailed
        exact hspoken (herr ▸ hfailed)
      · have hpositive : 0 < st.attempts := by
          by_contra hzero
          exact herr (hkept.untried id st hst hpending (by omega))
        rw [if_neg herr]
        constructor
        · intro hgiven
          obtain rfl := Option.some.inj hgiven
          exact ⟨st.err, hkept.tried id st hst hpending hpositive, rfl⟩
        · rintro ⟨msg, hfailed, rfl⟩
          rw [hkept.failed id st msg hst hpending hfailed]
    · simp [agentInput, hother, hother', hscope]

/-- One agent that is tried twice. -/
def triedTwice : WorkflowDef where
  id := "w"
  version := "1"
  nodes := [{ id := "a", type := .agent,
              agent := some { id := "a", role := "dev", executor := "", retry := some { maxAttempts := 2 } } }]
  edges := []

/-- Every attempt fails with the message. -/
def failingWorld (msg : String) : World := { quietWorld with runAgent := fun _ _ _ => .error msg }

theorem newEngine_triedTwice : newEngine triedTwice = .ok (indexDefinition triedTwice) := by
  have hvalidate : WorkflowValidation.validate triedTwice = .ok () := by decide
  simp only [newEngine, hvalidate]
  rfl

/-- The second attempt follows the first one, which failed with the message. -/
theorem second_attempt (w : World) {s : Config} (msg : String)
    (hs : s = start (indexDefinition triedTwice) .empty)
    (h : (run (step w) s [.visit "a", .endRound]).map (fun c =>
      ((c.engine.states "a").map (fun st => (st.status, st.attempts, st.err, st.node.type)),
        ready c.engine "a", c.frames.isEmpty && !unscheduled c.engine "a", (step w c (.visit "a")).isSome)) =
      some (some (.pending, 1, msg, .agent), some true, true, true)) :
    ∃ c c' st running, run (step w) s [.visit "a", .endRound] = some c ∧
      step w c (.visit "a") = some c' ∧ Starts c (.visit "a") "a" ∧ c.engine.states "a" = some st ∧
      st.node.type = .agent ∧ mark c.engine "a" .running .empty "" = some running ∧ st.err = msg ∧
      FailedBefore w s [.visit "a", .endRound] "a" msg := by
  subst hs
  obtain ⟨c, hrun, hfacts⟩ := Option.map_eq_some_iff.mp h
  simp only [Prod.mk.injEq] at hfacts
  obtain ⟨hstate, hready, hwhere, hnext⟩ := hfacts
  obtain ⟨hframes, hscheduled⟩ : c.frames = [] ∧ unscheduled c.engine "a" = false := by
    simpa using hwhere
  obtain ⟨st, hst, hfields⟩ := Option.map_eq_some_iff.mp hstate
  simp only [Prod.mk.injEq] at hfields
  obtain ⟨hpending, hattempts, rfl, htype⟩ := hfields
  obtain ⟨c', hstep⟩ := Option.isSome_iff_exists.mp hnext
  obtain ⟨running, hmark⟩ : ∃ running, mark c.engine "a" .running .empty "" = some running := by
    simp [mark, hst]
  have hbefore : c.phase ≠ .crashed := by
    intro hcrashed
    simp [step, hcrashed] at hstep
  have htracked := tracked_run (newEngine_ok newEngine_triedTwice).1 w .empty _ c hrun
  have hfailed := (htracked.kept hbefore).tried "a" st hst hpending (by omega)
  exact ⟨c, c', st, running, hrun, hstep, ⟨⟨⟨st, hst, hpending⟩, hready⟩, .inl ⟨rfl, hframes, hscheduled⟩⟩,
    hst, htype, hmark, rfl, hfailed⟩

theorem second_attempt_owned :
    ∃ c st running, run (step (failingWorld "boom")) (start (indexDefinition triedTwice) .empty)
        [.visit "a", .endRound] = some c ∧
      (Owned triedTwice (failingWorld "boom") (start (indexDefinition triedTwice) .empty)
        [.visit "a", .endRound] c.engine "a" (agentInput running st) ↔
      ¬ FailedBefore (failingWorld "boom") (start (indexDefinition triedTwice) .empty)
        [.visit "a", .endRound] "a" "") := by
  obtain ⟨c, c', st, running, hrun, hstep, hstarts, hst, -, hmark, -⟩ :=
    second_attempt (failingWorld "boom") "boom" rfl rfl
  exact ⟨c, st, running, hrun, inputs_owned_iff newEngine_triedTwice (failingWorld "boom") .empty hrun hstep
    hstarts hst hmark⟩

/-- A second attempt that is not told of the first, which failed with an empty error. -/
theorem silent_failure_forgotten :
    ∃ e c c' st running, newEngine triedTwice = .ok e ∧
      run (step (failingWorld "")) (start e .empty) [.visit "a", .endRound] = some c ∧
      step (failingWorld "") c (.visit "a") = some c' ∧ Starts c (.visit "a") "a" ∧
      c.engine.states "a" = some st ∧ st.node.type = .agent ∧
      mark c.engine "a" .running .empty "" = some running ∧
      FailedBefore (failingWorld "") (start e .empty) [.visit "a", .endRound] "a" "" ∧
      agentInput running st "last_error" = none ∧
      ¬ Owned triedTwice (failingWorld "") (start e .empty) [.visit "a", .endRound] c.engine "a"
        (agentInput running st) := by
  obtain ⟨c, c', st, running, hrun, hstep, hstarts, hst, htype, hmark, herr, hfailed⟩ :=
    second_attempt (failingWorld "") "" rfl rfl
  have hmissing : agentInput running st "last_error" = none := by simp [agentInput, herr]
  refine ⟨_, c, c', st, running, newEngine_triedTwice, hrun, hstep, hstarts, hst, htype, hmark, hfailed,
    hmissing, fun howned => ?_⟩
  have hgiven := (howned.error (.string "")).mpr ⟨"", hfailed, rfl⟩
  rw [hmissing] at hgiven
  cases hgiven

end AgentInputs
