import ChaosPlus.DefinitionNodes

/-!
# Attempts of agents

The execution of a node reports events of that node only, and touches rejection feedback in two
places: an agent that succeeds drops its own, a gate that is rejected records it for others. An
agent that fails is left pending for another attempt, with the error that it ended with.
-/
namespace AgentAttempts

open WorkflowDefinition JsonDocument WorkflowEngine WorkflowRun EngineUpdates EngineSafety
open NodeOutcomes DefinitionNodes
open ApprovalBroker (Decision Feedback)

variable {w : World} {e mid e' : Engine} {id : String} {st cur : NodeState} {output : RawMessage}
  {outcome : Outcome}

/-! ## What is reported beside the states -/

/-- Feedback stays, and new events are the node's. -/
structure Reports (id : String) (e e' : Engine) : Prop where
  feedback : e'.feedbackFor = e.feedbackFor
  events : ∃ new, e'.events = e.events ++ new ∧ ∀ ev ∈ new, ev.nodeID = id

theorem Reports.refl (id : String) (e : Engine) : Reports id e e := ⟨rfl, [], by simp, by simp⟩

theorem Reports.trans (h : Reports id e mid) (h' : Reports id mid e') : Reports id e e' := by
  obtain ⟨new, hnew, hown⟩ := h.events
  obtain ⟨more, hmore, hown'⟩ := h'.events
  refine ⟨h'.feedback.trans h.feedback, new ++ more, by rw [hmore, hnew, List.append_assoc], ?_⟩
  intro ev hev
  rcases List.mem_append.mp hev with hev | hev
  · exact hown ev hev
  · exact hown' ev hev

theorem reports_modifyState (e : Engine) (x : String) (f : NodeState → NodeState) :
    Reports id e (modifyState e x f) := ⟨rfl, [], by simp [modifyState], by simp⟩

theorem reports_mark {status : Status} {err : String} (h : mark e id status output err = some e') :
    Reports id e e' := by
  cases hst : e.states id with
  | none => simp [mark, hst] at h
  | some st =>
    simp only [mark, hst, Option.some.injEq] at h
    subst h
    exact ⟨rfl, _, rfl, by simp⟩

theorem reports_updateScope (e : Engine) (x : String) (output : RawMessage) :
    Reports id e (updateScope e x output) := by
  cases output with
  | value json => exact ⟨rfl, [], by simp [updateScope], by simp⟩
  | empty | malformed text => exact .refl id e

theorem reports_complete (h : complete e id output = some e') : Reports id e e' :=
  ((reports_modifyState e id _).trans (reports_updateScope _ id output)).trans (reports_mark h)

theorem reports_addClones {forkID template : String} {joinID : Option String} {node : Node} (i : Nat)
    (items : List Json) (e : Engine) : Reports id e (addClones forkID joinID template node i items e) := by
  induction items generalizing i e with
  | nil => exact .refl id e
  | cons item rest ih =>
    have hfirst : Reports id e (addClone forkID joinID template node e i item) := by
      cases joinID <;> exact ⟨rfl, [], by simp [addClone], by simp⟩
    exact hfirst.trans (ih (i + 1) _)

theorem reports_resetBody {body : List String} (h : resetBody e body = some e') : Reports id e e' := by
  induction body generalizing e with
  | nil =>
    obtain rfl := Option.some.inj h
    exact .refl id e
  | cons first rest ih =>
    unfold resetBody at h
    split at h
    · cases h
    · exact (reports_modifyState e first resetState).trans (ih h)

theorem reports_nextIteration {node : Node} {spec : LoopSpec} {iter : Nat}
    (h : nextIteration e node spec iter = some (e', outcome)) : Reports id e e' := by
  unfold nextIteration at h
  split_ifs at h
  · obtain ⟨reset, hreset, heq⟩ := Option.map_eq_some_iff.mp h
    obtain ⟨rfl, -⟩ := Prod.mk.inj heq
    exact reports_resetBody hreset
  · obtain ⟨rfl, -⟩ := failed_eq_some.mp h
    exact .refl id _

theorem reports_scheduleRetry {node : Node} {msg : String} {again : Bool} (hid : node.id = id)
    (h : scheduleRetry w e node msg = some (e', again)) : Reports id e e' := by
  subst hid
  unfold scheduleRetry at h
  split at h
  swap
  · obtain ⟨rfl, -⟩ := Prod.mk.inj (Option.some.inj h)
    exact .refl _ _
  split_ifs at h
  · obtain ⟨rfl, -⟩ := Prod.mk.inj (Option.some.inj h)
    exact .refl _ _
  split at h
  · cases h
  next state _ =>
    have hcount : Reports node.id e (modifyState e node.id fun st =>
        { st with attempts := state.attempts + 1 }) := reports_modifyState e node.id _
    simp only at h
    split_ifs at h
    · obtain ⟨rfl, -⟩ := Prod.mk.inj (Option.some.inj h)
      exact hcount
    split at h
    · cases h
    next marked hmark =>
      have hmarked := hcount.trans (reports_mark hmark)
      split_ifs at h
      · obtain ⟨rfl, -⟩ := Prod.mk.inj (Option.some.inj h)
        exact hmarked
      · obtain ⟨rfl, -⟩ := Prod.mk.inj (Option.some.inj h)
        exact hmarked.trans (reports_modifyState _ _ _)

theorem reports_handleError {node : Node} {msg : String} (hid : node.id = id)
    (h : handleError w e id node msg = some e') : Reports id e e' := by
  have hnote : Reports id e (modifyState e id fun st => { st with err := msg }) :=
    reports_modifyState e id _
  unfold handleError at h
  split at h
  · cases h
  · next hretry =>
    obtain rfl := Option.some.inj h
    exact hnote.trans (reports_scheduleRetry hid hretry)
  · next hretry => exact (hnote.trans (reports_scheduleRetry hid hretry)).trans (reports_mark h)

theorem reports_settle {node : Node} {result : Result} {frame : Option LoopFrame} {start : Engine}
    (hid : node.id = id) (hresult : ∀ e outcome, result = some (e, outcome) → Reports id start e)
    (h : settle w id node result = some (e', frame)) : Reports id start e' := by
  cases result with
  | none => cases h
  | some pair =>
    obtain ⟨mid, outcome⟩ := pair
    have hmid := hresult mid outcome rfl
    cases outcome with
    | ok =>
      obtain ⟨rfl, -⟩ := Prod.mk.inj (Option.some.inj h)
      exact hmid
    | looping frame =>
      obtain ⟨rfl, -⟩ := Prod.mk.inj (Option.some.inj h)
      exact hmid
    | error msg =>
      obtain ⟨handled, hhandled, heq⟩ := Option.map_eq_some_iff.mp h
      obtain ⟨rfl, -⟩ := Prod.mk.inj heq
      exact hmid.trans (reports_handleError hid hhandled)

theorem reports_endBody {frame : LoopFrame} (h : endBody w e frame = some (e', outcome)) :
    Reports frame.node.id e e' := by
  unfold endBody at h
  split at h
  · cases h
  · cases h
  · obtain ⟨rfl, -⟩ := failed_eq_some.mp h
    exact .refl _ _
  · split at h
    · obtain ⟨rfl, -⟩ := failed_eq_some.mp h
      exact .refl _ _
    · split_ifs at h
      · exact reports_complete (succeed_eq_some.mp h).1
      · exact reports_nextIteration h

/-! ## Answers of agents and decisions of gates -/

/-- What `RunAgent` answers when the node is executed here. -/
def Answers (w : World) (e : Engine) (id : String) (result : Except String RawMessage) : Prop :=
  ∃ st running, e.states id = some st ∧ st.node.type = .agent ∧
    mark e id .running .empty "" = some running ∧
    w.runAgent running st.node (agentInput running st) = result

/-- A gate that is executed here is rejected with feedback. -/
def Rejects (w : World) (e : Engine) (id : String) (fb : Feedback) : Prop :=
  ∃ st running waiting d, e.states id = some st ∧ st.node.type = .humanApproval ∧
    mark e id .running .empty "" = some running ∧
    mark running id .waitingApproval .empty "" = some waiting ∧
    w.approve waiting st.node = .ok d ∧ d.ok = false ∧ d.feedback = some fb

/-- The feedback after the execution of the node. -/
inductive Fed (w : World) (e : Engine) (id : String) : (String → Option Feedback) → Prop where
  | dropped {output : RawMessage} : Answers w e id (.ok output) →
      Fed w e id (Function.update e.feedbackFor id none)
  | recorded {fb : Feedback} : Rejects w e id fb → Fed w e id (recordRejectionFeedback e id fb).feedbackFor
  | kept : (∀ output, ¬ Answers w e id (.ok output)) → (∀ fb, ¬ Rejects w e id fb) →
      Fed w e id e.feedbackFor

theorem Answers.unique {result result' : Except String RawMessage} (h : Answers w e id result)
    (h' : Answers w e id result') : result = result' := by
  obtain ⟨st, running, hst, -, hmark, hresult⟩ := h
  obtain ⟨st', running', hst', -, hmark', hresult'⟩ := h'
  obtain rfl := Option.some.inj (hst.symm.trans hst')
  obtain rfl := Option.some.inj (hmark.symm.trans hmark')
  exact hresult.symm.trans hresult'

theorem Answers.agent {result : Except String RawMessage} (h : Answers w e id result)
    (hst : e.states id = some st) : st.node.type = .agent := by
  obtain ⟨st', -, hst', htype, -⟩ := h
  obtain rfl := Option.some.inj (hst.symm.trans hst')
  exact htype

theorem Rejects.gate {fb : Feedback} (h : Rejects w e id fb) (hst : e.states id = some st) :
    st.node.type = .humanApproval := by
  obtain ⟨st', -, -, -, hst', htype, -⟩ := h
  obtain rfl := Option.some.inj (hst.symm.trans hst')
  exact htype

theorem Rejects.unique {fb fb' : Feedback} (h : Rejects w e id fb) (h' : Rejects w e id fb') : fb = fb' := by
  obtain ⟨st, running, waiting, d, hst, -, hmark, hwaiting, happrove, -, hfb⟩ := h
  obtain ⟨st', running', waiting', d', hst', -, hmark', hwaiting', happrove', -, hfb'⟩ := h'
  obtain rfl := Option.some.inj (hst.symm.trans hst')
  obtain rfl := Option.some.inj (hmark.symm.trans hmark')
  obtain rfl := Option.some.inj (hwaiting.symm.trans hwaiting')
  obtain rfl := Except.ok.inj (happrove.symm.trans happrove')
  exact Option.some.inj (hfb.symm.trans hfb')

theorem mark_same {status : Status} {err : String} (h : mark e id status output err = some e') :
    e'.feedbackFor = e.feedbackFor ∧ e'.scope = e.scope ∧ e'.out = e.out := by
  cases hst : e.states id with
  | none => simp [mark, hst] at h
  | some st =>
    simp only [mark, hst, Option.some.injEq] at h
    subst h
    exact ⟨rfl, rfl, rfl⟩

/-- The functions that neither drop nor record feedback. -/
theorem reports_executeNode (hid : st.node.id = id) (hagent : st.node.type ≠ .agent)
    (hgate : st.node.type ≠ .humanApproval) (h : executeNode w e id st = some (e', outcome)) :
    Reports id e e' := by
  subst hid
  unfold executeNode at h
  split at h
  · unfold execTrigger at h
    split at h
    · cases h
    · exact reports_complete (succeed_eq_some.mp h).1
  · next htype => exact absurd htype hagent
  · next htype => exact absurd htype hgate
  · unfold execCondition at h
    split at h
    · cases h
    split at h
    · obtain ⟨rfl, -⟩ := failed_eq_some.mp h
      exact .refl _ _
    simp only at h
    split_ifs at h
    · obtain ⟨rfl, -⟩ := failed_eq_some.mp h
      exact (reports_modifyState _ _ _).trans (reports_updateScope _ _ _)
    · exact ((reports_modifyState _ _ _).trans (reports_updateScope _ _ _)).trans
        (reports_mark (succeed_eq_some.mp h).1)
  · unfold execTransform at h
    split at h
    · cases h
    split at h
    · obtain ⟨rfl, -⟩ := failed_eq_some.mp h
      exact .refl _ _
    · exact reports_complete (succeed_eq_some.mp h).1
  · unfold execFork at h
    split at h
    · cases h
    split at h
    · obtain ⟨rfl, -⟩ := failed_eq_some.mp h
      exact .refl _ _
    · split at h
      · obtain ⟨rfl, -⟩ := failed_eq_some.mp h
        exact .refl _ _
      split at h
      · cases h
      · exact (reports_addClones _ _ _).trans (reports_complete (succeed_eq_some.mp h).1)
    · obtain ⟨rfl, -⟩ := failed_eq_some.mp h
      exact .refl _ _
  · unfold execJoin at h
    split at h
    · cases h
    · obtain ⟨rfl, -⟩ := failed_eq_some.mp h
      exact .refl _ _
    · exact reports_complete (succeed_eq_some.mp h).1
  · unfold execLoop at h
    split at h
    · cases h
    · exact reports_nextIteration h
  · obtain ⟨rfl, -⟩ := failed_eq_some.mp h
    exact .refl _ _
  · obtain ⟨rfl, -⟩ := failed_eq_some.mp h
    exact .refl _ _

/-- An execution reports its node's events, and feeds back what the node's answer says. -/
theorem execute_fed {frame : Option LoopFrame} (hid : st.node.id = id) (hst : e.states id = some st)
    (h : execute w e id = some (e', frame)) :
    ∃ feedbackFor, Fed w e id feedbackFor ∧ Reports id { e with feedbackFor } e' := by
  obtain ⟨running, hmark, hrunning, -, hsettle⟩ := execute_cases hst h
  obtain ⟨hfeedback, -, hout⟩ := mark_same hmark
  have hstart : Reports id e running := reports_mark hmark
  by_cases hagent : st.node.type = .agent
  · have hanswers : ∀ {result}, w.runAgent running st.node (agentInput running st) = result →
        Answers w e id result := fun hresult => ⟨st, running, hst, hagent, hmark, hresult⟩
    simp only [executeNode, hagent, execAgent] at hsettle
    split at hsettle
    · next msg hresult =>
      refine ⟨e.feedbackFor, .kept (fun output hother => ?_) fun fb hrejects => ?_, ?_⟩
      · cases (hanswers hresult).unique hother
      · have htype := hrejects.gate hst
        rw [hagent] at htype
        cases htype
      · refine reports_settle hid (fun mid outcome hfailed => ?_) hsettle
        obtain ⟨rfl, -⟩ := failed_eq_some.mp hfailed
        exact hstart.trans (reports_modifyState _ _ _)
    · next output hresult =>
      refine ⟨_, .dropped (hanswers hresult), reports_settle hid (fun mid outcome hdone => ?_) hsettle⟩
      have hcomplete := (succeed_eq_some.mp hdone).1
      rw [hid] at hcomplete
      obtain ⟨new, hnew, hown⟩ := hstart.events
      have hdropped : Reports id { e with feedbackFor := Function.update e.feedbackFor id none }
          { modifyState running id (fun st => { st with err := "" }) with
            feedbackFor := Function.update running.feedbackFor id none } :=
        ⟨by rw [hfeedback], new, hnew, hown⟩
      exact hdropped.trans (reports_complete hcomplete)
  by_cases hgate : st.node.type = .humanApproval
  · have hnone : ∀ output, ¬ Answers w e id (.ok output) := fun output hanswers => hagent (hanswers.agent hst)
    simp only [executeNode, hgate, execApproval] at hsettle
    split at hsettle
    · cases hsettle
    next waiting hwaiting =>
      rw [hid] at hwaiting
      have hdecided : ∀ {d}, Rejects w e id d → ∃ decision, w.approve waiting st.node = .ok decision ∧
          decision.ok = false ∧ decision.feedback = some d := by
        rintro fb ⟨st', running', waiting', d, hst', -, hmark', hwaiting', happrove, hok, hfb⟩
        obtain rfl := Option.some.inj (hst.symm.trans hst')
        obtain rfl := Option.some.inj (hmark.symm.trans hmark')
        obtain rfl := Option.some.inj (hwaiting.symm.trans hwaiting')
        exact ⟨d, happrove, hok, hfb⟩
      split at hsettle
      · next msg happrove =>
        refine ⟨e.feedbackFor, .kept hnone fun fb hrejects => ?_, ?_⟩
        · obtain ⟨d, hd, -⟩ := hdecided hrejects
          cases happrove.symm.trans hd
        · refine reports_settle hid (fun mid outcome hfailed => ?_) hsettle
          obtain ⟨rfl, -⟩ := failed_eq_some.mp hfailed
          exact hstart.trans (reports_mark hwaiting)
      · next d happrove =>
        obtain ⟨hfeedback', -, hout'⟩ := mark_same hwaiting
        have hreached := hstart.trans (reports_mark hwaiting)
        obtain ⟨new, hnew, hown⟩ := hreached.events
        by_cases hrejected : d.ok = false ∧ ∃ fb, d.feedback = some fb
        · obtain ⟨hok, fb, hfb⟩ := hrejected
          refine ⟨_, .recorded ⟨st, running, waiting, d, hst, hgate, hmark, hwaiting, happrove, hok, hfb⟩,
            reports_settle hid (fun mid outcome hdone => ?_) hsettle⟩
          have hcomplete := (succeed_eq_some.mp hdone).1
          rw [hid] at hcomplete
          have hrecorded : Reports id
              { e with feedbackFor := (recordRejectionFeedback e id fb).feedbackFor }
              (applyDecision waiting id d) := by
            simp only [applyDecision, hok, hfb]
            refine ⟨?_, new, hnew, hown⟩
            simp [recordRejectionFeedback, modifyState, hout', hout, hfeedback', hfeedback]
          exact hrecorded.trans (reports_complete hcomplete)
        · refine ⟨e.feedbackFor, .kept hnone fun fb hrejects => ?_, ?_⟩
          · obtain ⟨d', hd', hok, hfb⟩ := hdecided hrejects
            obtain rfl := Except.ok.inj (happrove.symm.trans hd')
            exact hrejected ⟨hok, fb, hfb⟩
          · refine reports_settle hid (fun mid outcome hdone => ?_) hsettle
            have hcomplete := (succeed_eq_some.mp hdone).1
            rw [hid] at hcomplete
            have happlied : Reports id waiting (applyDecision waiting id d) := by
              unfold applyDecision
              split
              · next fb hok hfb => exact absurd ⟨hok, fb, hfb⟩ hrejected
              · exact reports_modifyState _ _ _
            exact (hreached.trans happlied).trans (reports_complete hcomplete)
  · refine ⟨e.feedbackFor, .kept (fun output hanswers => hagent (hanswers.agent hst))
      (fun fb hrejects => hgate (hrejects.gate hst)), reports_settle hid (fun mid outcome hresult => ?_) hsettle⟩
    exact hstart.trans (reports_executeNode hid hagent hgate hresult)

/-! ## One attempt -/

/-- The run is cancelled while the node waits for its next attempt. -/
def Interrupted (w : World) (node : Node) (attempts : Nat) (e : Engine) : Prop :=
  ∃ agent spec, node.agent = some agent ∧ agent.retry = some spec ∧ backoffAt spec attempts = true ∧
    w.cancelled e node = true

/-- How an attempt ends: the answer, the state it leaves and the statuses it reports. -/
inductive Attempt (w : World) (st : NodeState) : Except String RawMessage → NodeState → List Status → Prop where
  | succeeded (output : RawMessage) :
      Attempt w st (.ok output) { st with status := .completed, output := output, err := "" }
        [.running, .completed]
  | exhausted {msg : String} {st' : NodeState} : ¬ AttemptLeft st.node (st.attempts + 1) →
      st'.node = st.node → st'.status = .failed → Attempt w st (.error msg) st' [.running, .failed]
  | interrupted {msg : String} {st' : NodeState} (waiting : Engine) : AttemptLeft st.node (st.attempts + 1) →
      Interrupted w st.node (st.attempts + 1) waiting → st'.node = st.node → st'.status = .failed →
      Attempt w st (.error msg) st' [.running, .retrying, .failed]
  | retried (msg : String) : AttemptLeft st.node (st.attempts + 1) →
      Attempt w st (.error msg) { st with status := .pending, attempts := st.attempts + 1, err := msg }
        [.running, .retrying]

/-- The statuses that are reported of the node. -/
def reported (e : Engine) (id : String) : List Status :=
  (e.events.filter fun ev => ev.nodeID = id).map Event.status

theorem reported_mark {status : Status} {err : String} (h : mark e id status output err = some e') :
    reported e' id = reported e id ++ [status] := by
  cases hst : e.states id with
  | none => simp [mark, hst] at h
  | some st =>
    simp only [mark, hst, Option.some.injEq] at h
    subst h
    simp [reported]

/-- What is reported of other nodes is not reported of this one. -/
theorem Reports.reported {x : String} (h : Reports id e e') (hx : x ≠ id) :
    AgentAttempts.reported e' x = AgentAttempts.reported e x := by
  obtain ⟨new, hnew, hown⟩ := h.events
  have hnone : (new.filter fun ev => ev.nodeID = x) = [] := by
    refine List.filter_eq_nil_iff.mpr fun ev hev => ?_
    simpa [hown ev hev] using Ne.symm hx
  rw [AgentAttempts.reported, hnew, List.filter_append, hnone, List.append_nil, AgentAttempts.reported]

theorem reported_complete (h : complete e id output = some e') :
    reported e' id = reported e id ++ [.completed] := by
  have hsame : reported (updateScope (modifyState e id fun st => { st with output := output }) id output) id =
      reported e id := by cases output <;> rfl
  rw [reported_mark h, hsame]

/-- A retry keeps the count of the attempts, and reports itself before it waits. -/
theorem scheduleRetry_attempt {node : Node} {msg : String} {again : Bool} (htype : node.type = .agent)
    (hst : e.states node.id = some st) (h : scheduleRetry w e node msg = some (e', again)) :
    (again = true ∧ AttemptLeft node (st.attempts + 1) ∧
        e'.states node.id = some { st with status := .pending, attempts := st.attempts + 1 } ∧
        reported e' node.id = reported e node.id ++ [.retrying]) ∨
      (again = false ∧ (∃ st', e'.states node.id = some st' ∧ st'.node = st.node) ∧
        ((¬ AttemptLeft node (st.attempts + 1) ∧ reported e' node.id = reported e node.id) ∨
          ∃ waiting, AttemptLeft node (st.attempts + 1) ∧ Interrupted w node (st.attempts + 1) waiting ∧
            reported e' node.id = reported e node.id ++ [.retrying])) := by
  unfold scheduleRetry at h
  split at h
  swap
  · next hnone =>
    obtain ⟨rfl, rfl⟩ := Prod.mk.inj (Option.some.inj h)
    refine .inr ⟨rfl, ⟨st, hst, rfl⟩, .inl ⟨?_, rfl⟩⟩
    rintro ⟨-, agent, spec, hagent, hretry, -⟩
    exact hnone spec htype (by simp [hagent, hretry])
  next spec _ hspec =>
    obtain ⟨agent, hagent, hretry⟩ := Option.bind_eq_some_iff.mp hspec
    have hleft : AttemptLeft node (st.attempts + 1) ↔ ((st.attempts + 1 : Nat) : Int) < spec.maxAttempts := by
      constructor
      · rintro ⟨-, agent', spec', hagent', hretry', hlt⟩
        obtain rfl := Option.some.inj (hagent.symm.trans hagent')
        obtain rfl := Option.some.inj (hretry.symm.trans hretry')
        exact hlt
      · intro hlt
        exact ⟨htype, agent, spec, hagent, hretry, hlt⟩
    split_ifs at h with hone
    · obtain ⟨rfl, rfl⟩ := Prod.mk.inj (Option.some.inj h)
      refine .inr ⟨rfl, ⟨st, hst, rfl⟩, .inl ⟨?_, rfl⟩⟩
      rw [hleft]
      push_cast
      omega
    simp only [hst] at h
    split_ifs at h with hexhausted
    · obtain ⟨rfl, rfl⟩ := Prod.mk.inj (Option.some.inj h)
      refine .inr ⟨rfl, ⟨_, (modifyState_becomes hst _).state, rfl⟩, .inl ⟨?_, rfl⟩⟩
      rw [hleft]
      push_cast
      omega
    split at h
    · cases h
    next marked hmark =>
      have hcounted := (modifyState_becomes hst fun s => { s with attempts := st.attempts + 1 }).state
      have hmarked := (mark_becomes hcounted hmark).state
      have hreported : reported marked node.id = reported e node.id ++ [.retrying] := by
        rw [reported_mark hmark]
        rfl
      have hmore : AttemptLeft node (st.attempts + 1) := by
        rw [hleft]
        push_cast
        omega
      split_ifs at h with hcancelled
      · obtain ⟨rfl, rfl⟩ := Prod.mk.inj (Option.some.inj h)
        exact .inr ⟨rfl, ⟨_, hmarked, rfl⟩, .inr ⟨marked, hmore,
          ⟨agent, spec, hagent, hretry, hcancelled.1, hcancelled.2⟩, hreported⟩⟩
      · obtain ⟨rfl, rfl⟩ := Prod.mk.inj (Option.some.inj h)
        exact .inl ⟨rfl, hmore, (modifyState_becomes hmarked _).state, hreported⟩

theorem handleError_attempt {msg : String} (hid : st.node.id = id) (htype : st.node.type = .agent)
    (hcur : e.states id = some { st with status := .running, err := msg })
    (h : handleError w e id st.node msg = some e') :
    ∃ st' new, e'.states id = some st' ∧ reported e' id = reported e id ++ new ∧
      Attempt w st (.error msg) st' (.running :: new) := by
  subst hid
  have hnote := (modifyState_becomes hcur fun st => { st with err := msg }).state
  have hquiet : reported (modifyState e st.node.id fun st => { st with err := msg }) st.node.id =
      reported e st.node.id := rfl
  unfold handleError at h
  split at h
  · cases h
  · next hretry =>
    obtain rfl := Option.some.inj h
    rcases scheduleRetry_attempt htype hnote hretry with ⟨-, hleft, hstate, hreported⟩ | ⟨hfalse, -⟩
    · exact ⟨_, [.retrying], hstate, hreported, .retried msg hleft⟩
    · cases hfalse
  · next hretry =>
    rcases scheduleRetry_attempt htype hnote hretry with ⟨htrue, -⟩ | ⟨-, ⟨cur, hstate, hnode⟩, hcases⟩
    · cases htrue
    have hfailed := (mark_becomes hstate h).state
    rcases hcases with ⟨hnone, hreported⟩ | ⟨waiting, hleft, hinterrupted, hreported⟩
    · refine ⟨_, [.failed], hfailed, ?_, .exhausted hnone hnode rfl⟩
      rw [reported_mark h, hreported, hquiet]
    · refine ⟨_, [.retrying, .failed], hfailed, ?_, .interrupted waiting hleft hinterrupted hnode rfl⟩
      rw [reported_mark h, hreported, hquiet, List.append_assoc]
      rfl

/-- The execution of an agent is one attempt. -/
theorem execute_attempt {frame : Option LoopFrame} (htype : st.node.type = .agent) (hid : st.node.id = id)
    (hst : e.states id = some st) (h : execute w e id = some (e', frame)) :
    ∃ result st' new, Answers w e id result ∧ e'.states id = some st' ∧
      reported e' id = reported e id ++ new ∧ Attempt w st result st' new := by
  obtain ⟨running, hmark, hrunning, -, hsettle⟩ := execute_cases hst h
  have hreported : reported running id = reported e id ++ [.running] := reported_mark hmark
  have hanswers : ∀ {result}, w.runAgent running st.node (agentInput running st) = result →
      Answers w e id result := fun hresult => ⟨st, running, hst, htype, hmark, hresult⟩
  simp only [executeNode, htype, execAgent] at hsettle
  rw [hid] at hsettle
  split at hsettle
  · next msg hresult =>
    obtain ⟨handled, hhandled, heq⟩ := Option.map_eq_some_iff.mp hsettle
    obtain ⟨rfl, -⟩ := Prod.mk.inj heq
    have hcur := (modifyState_becomes hrunning.state fun st => { st with err := msg }).state
    obtain ⟨st', new, hst', hnew, hattempt⟩ := handleError_attempt hid htype hcur hhandled
    refine ⟨.error msg, st', .running :: new, hanswers hresult, hst', ?_, hattempt⟩
    have hquiet : reported (modifyState running id fun st => { st with err := msg }) id =
        reported running id := rfl
    rw [hnew, hquiet, hreported, List.append_assoc]
    rfl
  · next output hresult =>
    have hnote := (modifyState_becomes hrunning.state fun st => { st with err := "" }).feedback
      (Function.update running.feedbackFor id none)
    cases hcomplete : complete { modifyState running id (fun st => { st with err := "" }) with
        feedbackFor := Function.update running.feedbackFor id none } id output with
    | none =>
      rw [hcomplete] at hsettle
      cases hsettle
    | some done =>
      rw [hcomplete] at hsettle
      obtain ⟨rfl, -⟩ := Prod.mk.inj (Option.some.inj hsettle)
      refine ⟨.ok output, _, [.running, .completed], hanswers hresult,
        (complete_becomes hnote.state hcomplete).state, ?_, .succeeded output⟩
      have hquiet : reported { modifyState running id (fun st => { st with err := "" }) with
          feedbackFor := Function.update running.feedbackFor id none } id = reported running id := rfl
      rw [reported_complete hcomplete, hquiet, hreported, List.append_assoc]
      rfl

/-! ## Steps -/

section Step

variable {d : WorkflowDef} {c c' : Config} {choice : Choice} {x : String}

theorem starts_executes (hstarts : Starts c choice id) (h : step w c choice = some c')
    (hrunning : c'.phase ≠ .crashed) : ∃ frame, execute w c.engine id = some (c'.engine, frame) := by
  rcases starts_step hstarts h with ⟨-, rfl⟩ | ⟨frame, others, hexecute, -⟩
  · exact absurd rfl hrunning
  · exact ⟨frame, hexecute⟩

/-- Feedback changes with the execution of a node only. -/
theorem step_fed (hc : Grounded d c) (h : step w c choice = some c') (hrunning : c'.phase ≠ .crashed) :
    (∃ id, Starts c choice id ∧ Fed w c.engine id c'.engine.feedbackFor) ∨
      ((∀ id, ¬ Starts c choice id) ∧ c'.engine.feedbackFor = c.engine.feedbackFor) := by
  by_cases hstarts : ∃ id, Starts c choice id
  · obtain ⟨id, hstarts⟩ := hstarts
    obtain ⟨frame, hexecute⟩ := starts_executes hstarts h hrunning
    obtain ⟨⟨st, hst, -⟩, -⟩ := hstarts.1
    obtain ⟨feedbackFor, hfed, hreports⟩ := execute_fed (hc.wellFormed.node_ids id st hst) hst hexecute
    have hsame : c'.engine.feedbackFor = feedbackFor := hreports.feedback
    rw [hsame]
    exact .inl ⟨id, hstarts, hfed⟩
  · have hnone : ∀ id, ¬ Starts c choice id := fun id hid => hstarts ⟨id, hid⟩
    refine .inr ⟨hnone, ?_⟩
    cases step_effect h with
    | idle hsame => rw [hsame]
    | ran hran => exact absurd hran (hnone _)
    | ended _ hsettle => exact (reports_settle rfl (fun _ _ hbody => reports_endBody hbody) hsettle).feedback
    | skipped hmark => exact (mark_same hmark).1
    | crashed hcrash =>
      rw [hcrash]
      rfl

/-- As a loop's reset and a fork leave a node: it waits for its first attempt. -/
def Fresh (st : NodeState) : Prop := st.status = .pending ∧ st.attempts = 0 ∧ st.err = ""

/-- The step executes a loop over the node, or a fork that has the node among its clones. -/
def Restarts (c : Config) (choice : Choice) (x : String) : Prop :=
  ∃ id st, Starts c choice id ∧ c.engine.states id = some st ∧
    ((st.node.type = .loop ∧ x ∈ c.engine.body id) ∨
      (st.node.type = .parallelFork ∧ ∃ spec i, st.node.fanOut = some spec ∧
        x = cloneID spec.templateNodeID i))

/-- The step ends the last pass of the innermost loop over its body. -/
def EndsBody (c : Config) (choice : Choice) (frame : LoopFrame) : Prop :=
  choice = .body ∧ ∃ below, c.frames = frame :: below ∧ frame.pass = [] ∧ frame.progressed = false

/-- What the execution of another node makes of a node's state. -/
theorem execute_other {frame : Option LoopFrame} (hstarts : Starts c choice id) (hx : x ≠ id)
    (hid : st.node.id = id) (hst : c.engine.states id = some st)
    (h : execute w c.engine id = some (e', frame)) :
    e'.states x = c.engine.states x ∨
      (Restarts c choice x ∧ ∀ st', e'.states x = some st' → Fresh st') := by
  cases execute_executed hid hst h with
  | plain _ hran =>
    obtain ⟨_, _, hdone, -⟩ := hran.becomes
    exact .inl (hdone.only.states x hx)
  | fork htype hran =>
    cases hran with
    | failed hdone => exact .inl (hdone.only.states x hx)
    | @expanded running spec items template joinID grown output hmark hspec _ _ _ hexpanded hcomplete =>
      have hrunning := mark_becomes hst hmark
      obtain ⟨cur, hcur⟩ := hexpanded.fork_state hrunning.state
      have hlast := (complete_becomes hcur hcomplete).only.states x hx
      by_cases hclone : ∀ k < items.length, x ≠ cloneID spec.templateNodeID (0 + k)
      · exact .inl (hlast.trans ((hexpanded.others x hclone).1.trans (hrunning.only.states x hx)))
      · simp only [not_forall, ne_eq, not_not] at hclone
        obtain ⟨k, hk, rfl⟩ := hclone
        refine .inr ⟨⟨id, st, hstarts, hst, .inr ⟨htype, spec, 0 + k, hspec, rfl⟩⟩, fun st' hst' => ?_⟩
        rw [hlast, (hexpanded.clones k hk).1] at hst'
        obtain rfl := Option.some.inj hst'
        exact ⟨rfl, rfl, rfl⟩
  | loop htype hran =>
    cases hran with
    | failed hdone => exact .inl (hdone.only.states x hx)
    | entered hrunning _ _ _ hreset =>
      by_cases hbody : x ∈ c.engine.body id
      · refine .inr ⟨⟨id, st, hstarts, hst, .inl ⟨htype, hbody⟩⟩, fun st' hst' => ?_⟩
        rw [hreset.states, if_pos hbody] at hst'
        obtain ⟨old, -, rfl⟩ := Option.map_eq_some_iff.mp hst'
        exact ⟨rfl, rfl, rfl⟩
      · left
        rw [hreset.states, if_neg hbody]
        exact hrunning.only.states x hx

/-- What a step makes of a node that it does not execute. -/
inductive Untried (c : Config) (choice : Choice) (c' : Config) (x : String) : Prop where
  | same : c'.engine.states x = c.engine.states x → reported c'.engine x = reported c.engine x →
      Untried c choice c' x
  | restarted : Restarts c choice x → (∀ st', c'.engine.states x = some st' → Fresh st') → Untried c choice c' x
  | repeated {frame : LoopFrame} : EndsBody c choice frame → x ∈ c.engine.body frame.node.id →
      (∀ st', c'.engine.states x = some st' → Fresh st') → Untried c choice c' x
  | closed {frame : LoopFrame} : EndsBody c choice frame → x = frame.node.id →
      (∀ st', c'.engine.states x = some st' → terminal st'.status = true) → Untried c choice c' x
  | skipped {visited : List String} : c.phase = .sweeping visited →
      (∃ st, c.engine.states x = some st ∧ st.status = .pending) →
      (∀ st', c'.engine.states x = some st' → terminal st'.status = true) → Untried c choice c' x

theorem step_untried (hc : Grounded d c) (h : step w c choice = some c') (hrunning : c'.phase ≠ .crashed)
    (hstarts : ¬ Starts c choice x) : Untried c choice c' x := by
  cases step_effect h with
  | idle hsame => exact .same (by rw [hsame]) (by rw [hsame])
  | @ran id frame hran hexecute =>
    have hx : x ≠ id := by
      rintro rfl
      exact hstarts hran
    obtain ⟨⟨st, hst, -⟩, -⟩ := hran.1
    have hid := hc.wellFormed.node_ids id st hst
    rcases execute_other hran hx hid hst hexecute with hsame | ⟨hrestarts, hfresh⟩
    · obtain ⟨_, -, hreports⟩ := execute_fed hid hst hexecute
      exact .same hsame (hreports.reported hx)
    · exact .restarted hrestarts hfresh
  | @ended frame next hframe hsettle _ _ hwhere =>
    obtain ⟨hchoice, hpass, hprogressed, below, hframes, -⟩ := hwhere
    have hends : EndsBody c choice frame := ⟨hchoice, below, hframes, hpass, hprogressed⟩
    obtain ⟨hloop, hknown, -⟩ := hc.frames frame hframe
    obtain ⟨st, hst⟩ := exists_state hknown
    have hagent : frame.node.type ≠ .agent := by simp [hloop]
    have hreports : Reports frame.node.id c.engine c'.engine :=
      reports_settle rfl (fun _ _ hbody => reports_endBody hbody) hsettle
    have hdone : ∀ {st' : NodeState}, Becomes frame.node.id c.engine c'.engine st' 1 →
        terminal st'.status = true → Untried c choice c' x := by
      intro st' hbecomes hterminal
      by_cases hx : x = frame.node.id
      · refine .closed hends hx fun st'' hst'' => ?_
        rw [hx, hbecomes.state] at hst''
        obtain rfl := Option.some.inj hst''
        exact hterminal
      · exact .same (hbecomes.only.states x hx) (hreports.reported hx)
    cases endBody_ended hagent hst hsettle with
    | completed hbecomes _ hstatus => exact hdone hbecomes (by simp [hstatus, terminal])
    | failed hbecomes _ hstatus => exact hdone hbecomes (by simp [hstatus, terminal])
    | again _ _ _ hreset =>
      by_cases hbody : x ∈ c.engine.body frame.node.id
      · refine .repeated hends hbody fun st' hst' => ?_
        rw [hreset.states, if_pos hbody] at hst'
        obtain ⟨old, -, rfl⟩ := Option.map_eq_some_iff.mp hst'
        exact ⟨rfl, rfl, rfl⟩
      · refine .same ?_ (by rw [reported, hreset.events, reported])
        rw [hreset.states, if_neg hbody]
  | @skipped id hmark _ _ hpending hphase =>
    obtain ⟨visited, hphase⟩ := hphase
    obtain ⟨st, hst, hstates, -⟩ := mark_state hmark
    by_cases hx : x = id
    · refine .skipped hphase (hx ▸ hpending) fun st' hst' => ?_
      rw [hstates, hx, Function.update_self] at hst'
      obtain rfl := Option.some.inj hst'
      rfl
    · refine .same ?_ ((reports_mark hmark).reported hx)
      rw [hstates, Function.update_of_ne hx]
  | crashed hcrash =>
    rw [hcrash] at hrunning
    exact absurd rfl hrunning

/-- A node that is pending after a step was pending before, is as new, or has failed an attempt. -/
theorem pending_cases (hc : Grounded d c) (h : step w c choice = some c') (hrunning : c'.phase ≠ .crashed)
    {st' : NodeState} (hst' : c'.engine.states x = some st') (hpending : st'.status = .pending) :
    (¬ Starts c choice x ∧ c.engine.states x = some st') ∨
      (Fresh st' ∧ ∀ result, Starts c choice x → ¬ Answers w c.engine x result) ∨
      ∃ st msg, Starts c choice x ∧ c.engine.states x = some st ∧ Answers w c.engine x (.error msg) ∧
        st' = { st with status := .pending, attempts := st.attempts + 1, err := msg } := by
  have hopen : terminal st'.status = false := by simp [hpending, terminal]
  by_cases hstarts : Starts c choice x
  · obtain ⟨frame, hexecute⟩ := starts_executes hstarts h hrunning
    obtain ⟨⟨st, hst, -⟩, -⟩ := hstarts.1
    have hid := hc.wellFormed.node_ids x st hst
    by_cases hagent : st.node.type = .agent
    · obtain ⟨result, st'', new, hanswers, hst'', -, hattempt⟩ := execute_attempt hagent hid hst hexecute
      obtain rfl := Option.some.inj (hst'.symm.trans hst'')
      cases hattempt with
      | succeeded => cases hpending
      | exhausted _ _ hstatus => rw [hstatus] at hpending; cases hpending
      | interrupted _ _ _ _ hstatus => rw [hstatus] at hpending; cases hpending
      | retried msg => exact .inr (.inr ⟨st, msg, hstarts, hst, hanswers, rfl⟩)
    refine .inr (.inl ⟨?_, fun result _ hanswers => hagent (hanswers.agent hst)⟩)
    have hended : ∀ {st'' : NodeState} {n : Nat} {e : Engine}, Becomes x e c'.engine st'' n →
        terminal st''.status = true → Fresh st' := by
      intro st'' n e hbecomes hterminal
      obtain rfl := Option.some.inj (hst'.symm.trans hbecomes.state)
      rw [hopen] at hterminal
      cases hterminal
    cases execute_executed hid hst hexecute with
    | plain _ hran =>
      cases hran with
      | completed hdone _ hstatus => exact hended hdone (by simp [hstatus, terminal])
      | failed hdone _ hstatus => exact hended hdone (by simp [hstatus, terminal])
      | retried _ _ _ _ hleft => exact absurd hleft.1 hagent
    | fork _ hran =>
      cases hran with
      | failed hdone _ hstatus => exact hended hdone (by simp [hstatus, terminal])
      | expanded hmark _ _ _ _ hexpanded hcomplete =>
        obtain ⟨cur, hcur⟩ := hexpanded.fork_state (mark_becomes hst hmark).state
        exact hended (complete_becomes hcur hcomplete) rfl
    | loop _ hran =>
      cases hran with
      | failed hdone _ hstatus => exact hended hdone (by simp [hstatus, terminal])
      | entered hmarked _ _ _ hreset =>
        rw [hreset.states] at hst'
        split_ifs at hst'
        · obtain ⟨old, -, rfl⟩ := Option.map_eq_some_iff.mp hst'
          exact ⟨rfl, rfl, rfl⟩
        · rw [hmarked.state] at hst'
          obtain rfl := Option.some.inj hst'
          cases hpending
  · have hnone : ∀ result, Starts c choice x → ¬ Answers w c.engine x result := fun _ h => absurd h hstarts
    cases step_untried hc h hrunning hstarts with
    | same hsame _ => exact .inl ⟨hstarts, hsame ▸ hst'⟩
    | restarted _ hfresh => exact .inr (.inl ⟨hfresh st' hst', hnone⟩)
    | repeated _ _ hfresh => exact .inr (.inl ⟨hfresh st' hst', hnone⟩)
    | closed _ _ hterminal =>
      rw [hterminal st' hst'] at hopen
      cases hopen
    | skipped _ _ hterminal =>
      rw [hterminal st' hst'] at hopen
      cases hopen

end Step

end AgentAttempts
